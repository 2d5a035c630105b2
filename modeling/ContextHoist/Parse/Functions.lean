/-
Functions and classes.

The rules for parameters, function bodies, methods, decorators and classes, shared by
declarations and expressions.
-/
import ContextHoist.Parse.Elements

namespace ContextHoist

namespace Parser

/-! ### Parameters and bodies -/

/-- What the body of a function does not inherit from the phrase around it. -/
def freshMode (isGenerator : Bool) (m : Mode) : Mode :=
  { m with noIn := false, beforeColon := false, inGenerator := isGenerator }

/-- An argument of a call. -/
def argument (rules : Rules) : Parser Tree := do
  let start ← here
  if ← eat "..." then
    let e ← rules .assignment
    finish start .spread [e]
  else rules .assignment

/-- The arguments of a call, in parentheses. -/
def arguments (rules : Rules) : Parser Tree := do
  let start ← here
  expect "("
  let ts ← inMode (fun m => { m with noIn := false, beforeColon := false })
    (commaList ")" (argument rules))
  finish start .group ts

/-- A decorator: a name with dots and perhaps arguments, or an expression in parentheses. -/
def decorator (rules : Rules) : Parser Tree := do
  let start ← here
  expect "@"
  let inner ← here
  let e ← (do
    if ← eat "(" then
      let e ← rules .expression
      expect ")"
      finish inner .paren [e]
    else
      let x ← name
      let callee ← iterate (fun (left : Tree) => do
        if ← eat "." then
          let k ← keyName
          return some (← finish inner .member [left, k])
        else return none) x
      if ← isPunct "(" then
        let args ← arguments rules
        finish inner .call [callee, args, .absent]
      else return callee)
  finish start .decorator [e]

/-- The decorators in front of a phrase. -/
def decorators (rules : Rules) : Parser (List Tree) := do
  if ← hasTypes then
    many (do
      if ← isPunct "@" then return some (← decorator rules) else return none)
  else return []

/-- The pattern of a parameter with its type and default value. -/
def parameterPattern (rules : Rules) : Parser Tree := do
  let start ← here
  if ← eat "..." then
    let inner ← here
    let p ← rules .pattern
    let p ← withDefault rules inner p
    let t ← typeMark rules
    finish start .restPattern [p, t]
  else
    let p ← (do
      if (← hasTypes) && (← isWord "this") then nameOrThis else rules .pattern)
    let isOptional ← eatTyped "?"
    let p ← withType rules start isOptional p
    withDefault rules start p

/-- The modifiers of a parameter property. -/
def parameterModifiers : Parser Modifiers := do
  iterate (fun (m : Modifiers) => do
    let follows ← nextIs (do return (← isName) || (← isPunctOf ["\x7b", "["]))
    match ← peek with
    | .word w false =>
      if !follows then return none
      else if ["public", "protected", "private"].contains w then
        advance
        return some { m with accessibility := w }
      else if w == "override" then advance; return some { m with isOverride := true }
      else if w == "readonly" then advance; return some { m with isReadonly := true }
      else return none
    | _ => return none) {}

/-- A parameter. -/
def parameter (rules : Rules) : Parser Tree := do
  let start ← here
  let ds ← decorators rules
  let m ← (do
    if ← hasTypes then parameterModifiers else return ({} : Modifiers))
  let p ← parameterPattern rules
  if m = {} then finish start .parameter [.group ds, p]
  else finish start (.parameterProperty m) [.group ds, p]

/-- The parameters of a function, in parentheses. -/
def parameters (rules : Rules) : Parser Tree := do
  expect "("
  return .group (← commaList ")" (parameter rules))

/-- The statements of a function, in braces. -/
def functionBlock (rules : Rules) (isGenerator : Bool) : Parser Tree :=
  inMode (freshMode isGenerator) (rules .block)

/-- The body of a function, which a declaration may do without where types are allowed. -/
def functionBody (rules : Rules) (isGenerator : Bool) : Parser Tree := do
  if ← isPunct "\x7b" then functionBlock rules isGenerator
  else if ← hasTypes then semicolon; return .absent
  else reject

/-- The rest of a function from its type parameters on. -/
def functionRest (rules : Rules) (start : Nat) (isAsync isGenerator : Bool) (ds : List Tree) :
    Parser Tree := do
  let (tps, ps, r) ← inMode (freshMode isGenerator) (do
    let tps ← typeParameters rules
    let ps ← parameters rules
    let r ← resultMark rules
    return (tps, ps, r))
  let body ← functionBody rules isGenerator
  finish start (.function isAsync isGenerator) [ps, .group ds, body, tps, r]

/-- A function expression from the word `function` on. -/
def functionExpr (rules : Rules) (start : Nat) (isAsync : Bool) : Parser Tree := do
  expectWord "function"
  let isGenerator ← eat "*"
  let self ← (do
    if ← isName then name else return .absent)
  let f ← functionRest rules start isAsync isGenerator []
  finish start .functionExpr [self, f]

/-! ### Classes -/

/-- Whether the current word is a modifier: a key or a star must follow. -/
def modifierFollows : Parser Bool :=
  nextIs (do return (← atPropertyKey) || (← isPunct "*"))

/-- The modifiers of a class member. -/
def memberModifiers : Parser Modifiers := do
  let isTyped ← hasTypes
  iterate (fun (m : Modifiers) => do
    let follows ← modifierFollows
    match ← peek with
    | .word w false =>
      if !follows then return none
      else if w == "static" then
        if m.isStatic then return none
        advance
        return some { m with isStatic := true }
      else if !isTyped then return none
      else if ["public", "protected", "private"].contains w then
        advance
        return some { m with accessibility := w }
      else if w == "declare" then advance; return some { m with isDeclare := true }
      else if w == "abstract" then advance; return some { m with isAbstract := true }
      else if w == "override" then advance; return some { m with isOverride := true }
      else if w == "readonly" then advance; return some { m with isReadonly := true }
      else if w == "accessor" then advance; return some { m with isAccessor := true }
      else return none
    | _ => return none) {}

/-- Whether the key is the word `constructor`. -/
def isConstructorKey (k : Tree) : Bool :=
  match k.label with
  | .key x => x == "constructor"
  | .string raw => raw == "'constructor'" || raw == "\"constructor\""
  | _ => false

/-- Whether the current word says how a method runs, rather than being its name. -/
def atMethodWord (w : String) : Parser Bool := do
  return (← isWord w) && (← nextIs (do
    return ((← atPropertyKey) || (w == "async" && (← isPunct "*"))) &&
      (w != "async" || !(← atBreak))))

/-- What the word in front of a key says that a method is for. -/
def methodKind : Parser MethodKind := do
  if ← atMethodWord "get" then advance; return .getter
  if ← atMethodWord "set" then advance; return .setter
  return .method

/-- The rest of a constructor, from its type parameters on. -/
def constructorRest (rules : Rules) (start : Nat) (m : Modifiers) (k : Tree) : Parser Tree := do
  let ps ← inMode (freshMode false) (do
    let _ ← typeParameters rules
    parameters rules)
  let _ ← resultMark rules
  let body ← functionBody rules false
  finish start (.constructorMember m) [k, ps, body]

/-- The rest of a field, after its key. -/
def fieldRest (rules : Rules) (start : Nat) (m : Modifiers) (k : Tree) (ds : List Tree) :
    Parser Tree := do
  let isDefinite ← (do
    if !m.isOptional then eatTyped "!" else return false)
  let t ← typeMark rules
  let v ← (do
    if ← eat "=" then inMode (freshMode false) (rules .assignment) else return .absent)
  semicolon
  finish start (.field { m with isDefinite }) [k, v, t, .group ds]

/-- A member of a class. -/
def classMember (rules : Rules) : Parser Tree := do
  let start ← here
  if ← eat ";" then finish start .emptyMember []
  else
    let ds ← decorators rules
    if (← isWord "static") && (← nextIs (isPunct "\x7b")) then
      advance
      let b ← functionBlock rules false
      finish start .staticBlock [b]
    else
      let m ← memberModifiers
      if (← hasTypes) && (← atIndexSignature) then
        let t ← indexSignature rules start m.isStatic m.isReadonly
        semicolon
        return t
      else
        let isAsync ← (do
          if ← atMethodWord "async" then advance; return true else return false)
        let isGenerator ← eat "*"
        let kind ← (do
          if isAsync || isGenerator then return MethodKind.method else methodKind)
        let k ← propertyKey rules
        let isOptional ← eatTyped "?"
        let m := { m with isOptional }
        if (← isPunct "(") || ((← hasTypes) && (← isPunct "<")) then
          if isConstructorKey k && kind == .method && !m.isStatic && !isAsync && !isGenerator then
            constructorRest rules start m k
          else
            let f ← functionRest rules start isAsync isGenerator ds
            finish start (.classMethod kind m) [k, f]
        else
          unless kind == .method && !isAsync && !isGenerator do reject
          fieldRest rules start m k ds

/-- A superclass or an implemented or extended type: a name and its type arguments. -/
def heritage (rules : Rules) : Parser Tree := do
  let start ← here
  match ← rules .leftHand with
  | .node .instantiation _ [e, args] => finish start .heritage [e, args]
  | e => finish start .heritage [e, .absent]

/-- The name of a class, or `absent`. -/
def className : Parser Tree := do
  if (← isName) && !((← isWord "implements") && (← nextIs isName)) then name
  else return .absent

/-- The superclass and its type arguments, if the class has one. -/
def superclass (rules : Rules) : Parser (Tree × Tree) := do
  if ← eatWord "extends" then
    match ← heritage rules with
    | .node .heritage _ [e, args] => return (e, args)
    | _ => reject
  else return (.absent, .absent)

/-- The types that a class implements. -/
def implemented (rules : Rules) : Parser (List Tree) := do
  if (← hasTypes) && (← isWord "implements") then
    advance
    separated "," (heritage rules)
  else return []

/-- A class from the word `class` on: its name or `absent`, and the class. -/
def classRest (rules : Rules) (start : Nat) (isAbstract : Bool) (ds : List Tree) :
    Parser (Tree × Tree) := do
  expectWord "class"
  let x ← className
  let tps ← typeParameters rules
  let (super, superArgs) ← superclass rules
  let impls ← implemented rules
  expect "\x7b"
  let ms ← inMode (freshMode false) (many (do
    if ← isPunct "\x7d" then return none
    return some (← classMember rules)))
  expect "\x7d"
  let c ← finish start (.classBody isAbstract)
    [.group ds, .group ms, super, tps, superArgs, .group impls]
  return (x, c)

/-- A class expression. -/
def classExpr (rules : Rules) : Parser Tree := do
  let start ← here
  let ds ← decorators rules
  let (x, c) ← classRest rules start false ds
  finish start .classExpr [x, c]

end Parser

end ContextHoist
