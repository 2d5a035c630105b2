/-
Expressions.

* `Parser.primary`: names, literals, functions, classes, brackets of every kind.
* `Parser.subscripts`: member accesses, calls and templates after an expression.
* `Parser.binary`: operators between operands, grouped by `Chain.fold` according to precedence.
* `Parser.assignment`: everything but the comma.

What stands in parentheses is read once, as expressions that may also be parameters; the `=>`
after the parentheses decides.
-/
import ContextHoist.Parse.Functions

namespace ContextHoist

/-! ### Grouping operators -/

/-- How tightly an operator binds. -/
def precedence : String → Option Nat
  | "??" => some 1
  | "||" => some 2
  | "&&" => some 3
  | "|" => some 4
  | "^" => some 5
  | "&" => some 6
  | "==" | "!=" | "===" | "!==" => some 7
  | "<" | ">" | "<=" | ">=" | "in" | "instanceof" => some 8
  | "<<" | ">>" | ">>>" => some 9
  | "+" | "-" => some 10
  | "*" | "/" | "%" => some 11
  | "**" => some 12
  | _ => none

/-- What may follow an operand: an operator with its right operand, or a cast, which binds like
a comparison. -/
inductive Link where
  | operator (text : String) (level : Nat) (operand : Tree)
  | cast (label : Label) (type : List Tree) (stop : Nat)

namespace Chain

/-- An operator still waiting for its right operand: the left operand, the operator and its
level. -/
abbrev Pending := List (Tree × String × Nat)

/-- The node of an operator between two operands. -/
def join (l : Tree) (op : String) (r : Tree) : Tree :=
  .node (.binary op) ⟨l.span.start, r.span.stop⟩ [l, r]

/-- Completes the pending operators that bind at least as tightly as `level`; an operator that
groups to the right leaves its own level. -/
def reduce (level : Nat) (toRight : Bool) : Pending → Tree → Pending × Tree
  | [], t => ([], t)
  | (l, op, n) :: rest, t =>
    if level < n || (level == n && !toRight) then reduce level toRight rest (join l op t)
    else ((l, op, n) :: rest, t)

/-- Groups a first operand and what follows it. -/
def fold : Pending → Tree → List Link → Tree
  | pending, t, [] => (reduce 0 false pending t).2
  | pending, t, .operator op n r :: links =>
    let (pending, l) := reduce n (op == "**") pending t
    fold ((l, op, n) :: pending) r links
  | pending, t, .cast l ts stop :: links =>
    let (pending, e) := reduce 8 false pending t
    fold pending (.node l ⟨e.span.start, stop⟩ (e :: ts)) links

/-- Whether the operand has an operator in front that does not reach over a power. -/
def isPrefixed (t : Tree) : Bool :=
  match t.label with
  | .unary _ | .await => true
  | _ => false

/-- Whether the left operand of a power has such an operator in front. -/
def raisesPrefixed : Tree → List Link → Bool
  | _, [] => false
  | t, .operator op _ r :: links => (op == "**" && isPrefixed t) || raisesPrefixed r links
  | t, .cast l ts _ :: links => raisesPrefixed (.node l t.span ts) links

end Chain

namespace Parser

/-! ### Arrow functions -/

/-- Whether the tree is an arrow function that is not in parentheses. -/
def isArrow (t : Tree) : Bool :=
  match t.label with
  | .arrow _ => true
  | _ => false

/-- Whether an arrow follows on the same line. -/
def atArrow : Parser Bool := do
  return (← isPunct "=>") && !(← atBreak)

/-- The rest of an arrow function, from its arrow on. -/
def arrowRest (rules : Rules) (start : Nat) (isAsync : Bool) (params : List Tree)
    (typeParams result : Tree) : Parser Tree := do
  unless ← atArrow do reject
  advance
  let body ← (do
    if ← isPunct "\x7b" then functionBlock rules false
    else inMode (fun m => { m with inGenerator := false }) (rules .assignment))
  finish start (.arrow isAsync) [.group params, body, typeParams, result]

/-- An item in parentheses: an expression that may be a parameter, or a phrase that can only be
one, which the flag tells. -/
def parenItem (rules : Rules) : Parser (Tree × Bool) := do
  let start ← here
  if ← eat "..." then
    let p ← rules .pattern
    let t ← typeMark rules
    return (← finish start .restPattern [p, t], true)
  else
    let e ← rules .assignment
    if (← hasTypes) && (← isPunctOf ["?", ":"]) then
      match e.toBinding with
      | some p =>
        let isOptional ← eat "?"
        let p ← withType rules start isOptional p
        return (← withDefault rules start p, true)
      | none => reject
    else return (e, false)

/-- Everything between two parentheses, and whether it can only be parameters. -/
def parenItems (rules : Rules) : Parser (List Tree × Bool) := do
  expect "("
  let (items, isParams) ← inMode (fun m => { m with noIn := false, beforeColon := false }) (do
    iterate (fun ((acc, isParams) : List Tree × Bool) => do
      if ← isPunct ")" then return none
      let (t, b) ← parenItem rules
      if ← isPunct ")" then return some (t :: acc, isParams || b)
      expect ","
      return some (t :: acc, isParams || b || (← isPunct ")"))) ([], false))
  expect ")"
  return (items.reverse, isParams || items.isEmpty)

/-- An item in parentheses as a parameter. -/
def toParameter (t : Tree) : Option Tree :=
  match t.label with
  | .restPattern | .annotated _ | .defaultPattern => some t
  | _ => t.toBinding

/-- The items in parentheses as parameters. -/
def asParameters (items : List Tree) : Parser (List Tree) :=
  match items.mapM toParameter with
  | some ps => return ps
  | none => reject

/-- The arrow function whose parameters were just read, if this is one. -/
def arrowAfter (rules : Rules) (start : Nat) (isAsync : Bool) (items : List Tree)
    (typeParams : Tree) : Parser (Option Tree) := do
  if ← atArrow then
    let ps ← asParameters items
    return some (← arrowRest rules start isAsync ps typeParams .absent)
  else if (← hasTypes) && (← isPunct ":") then
    attempt (do
      let ps ← asParameters items
      let r ← resultMark rules
      let f ← arrowRest rules start isAsync ps typeParams r
      if (← read).beforeColon then
        unless ← isPunct ":" do reject
      return f)
  else return none

/-- The expressions in parentheses as one expression. -/
def parenthesized (start : Nat) (items : List Tree) : Parser Tree := do
  match items with
  | [e] => finish start .paren [e]
  | e :: rest =>
    let stop := (rest.getLast?.getD e).span.stop
    finish start .paren [.node .sequence ⟨e.span.start, stop⟩ items]
  | [] => reject

/-- An expression in parentheses, or an arrow function if one may stand here. -/
def parenOrArrow (rules : Rules) (mayBeArrow : Bool) : Parser Tree := do
  let start ← here
  let (items, isParams) ← parenItems rules
  let arrow ← (do
    if mayBeArrow then arrowAfter rules start false items .absent else return none)
  match arrow with
  | some f => return f
  | none => if isParams then reject else parenthesized start items

/-- An arrow function with type parameters. -/
def genericArrow (rules : Rules) (start : Nat) (isAsync : Bool) : Parser Tree := do
  let tps ← typeParameters rules
  unless tps.isPresent do reject
  let (items, _) ← parenItems rules
  match ← arrowAfter rules start isAsync items tps with
  | some f => return f
  | none => reject

/-- What the word `async` starts: a function, an arrow function, a call of a function of that
name, or just that name. -/
def asyncPhrase (rules : Rules) (mayBeArrow : Bool) : Parser Tree := do
  let start ← here
  if ← nextIs (do return (← isWord "function") && !(← atBreak)) then
    advance
    functionExpr rules start true
  else
    let self ← name
    if !mayBeArrow then return self
    else if ← atArrow then arrowRest rules start false [self] .absent .absent
    else if ← atBreak then return self
    else if (← isName) && (← nextIs atArrow) then
      let p ← name
      arrowRest rules start true [p] .absent .absent
    else if ← isPunct "(" then
      let tried ← attempt (do
        let (items, _) ← parenItems rules
        match ← arrowAfter rules start true items .absent with
        | some f => return f
        | none => reject)
      return tried.getD self
    else if (← hasTypes) && (← isPunct "<") then
      return (← attempt (genericArrow rules start true)).getD self
    else return self

/-! ### Primary expressions -/

/-- A property of an object literal. -/
def objectProperty (rules : Rules) : Parser Tree := do
  let start ← here
  if ← eat "..." then
    let e ← rules .assignment
    finish start .spread [e]
  else
    let isAsync ← (do
      if ← atMethodWord "async" then advance; return true else return false)
    let isGenerator ← eat "*"
    if isAsync || isGenerator then
      let k ← propertyKey rules
      let f ← functionRest rules start isAsync isGenerator []
      finish start .method [k, f]
    else if ← atMethodWord "get" then
      advance
      let k ← propertyKey rules
      let _ ← parameters rules
      let t ← resultMark rules
      let b ← functionBlock rules false
      finish start .getter [k, t, b]
    else if ← atMethodWord "set" then
      advance
      let k ← propertyKey rules
      let ps ← parameters rules
      let _ ← resultMark rules
      let b ← functionBlock rules false
      match ps with
      | .node .group _ [.node .parameter _ [_, p]] => finish start .setter [k, p, b]
      | _ => reject
    else
      let couldRefer ← isName
      let k ← propertyKey rules
      if (← isPunct "(") || ((← hasTypes) && (← isPunct "<")) then
        let f ← functionRest rules start false false []
        finish start .method [k, f]
      else if ← eat ":" then
        let v ← rules .assignment
        finish start .keyValue [k, v]
      else
        match k with
        | .node (.key x) s [] =>
          unless couldRefer do reject
          if ← eat "=" then
            let d ← rules .assignment
            finish start .shorthandDefault [.name x s, d]
          else finish start .shorthand [.name x s]
        | _ => reject

/-- An element of an array literal, or a hole. -/
def arrayElement (rules : Rules) : Parser Tree := do
  if ← isPunct "," then return .absent
  argument rules

/-- A regular expression; the current token is the slash or the division that starts it. -/
def regexLiteral : Parser Tree := do
  let c ← get
  let start ← here
  match Scan.regexBody false c.here.tail with
  | some (body, rest) =>
    let flags := rest.takeWhile isWordPart
    let raw := String.ofList ('/' :: body ++ flags)
    retake (.regex raw) (1 + body.length + flags.length) (rest.drop flags.length)
    advance
    finish start (.literal raw) []
  | none => reject

/-- A template. -/
def template (rules : Rules) : Parser Tree := do
  let start ← here
  let ts ← inMode (fun m => { m with noIn := false, beforeColon := false })
    (templateParts (rules .expression))
  finish start .template ts

/-- What the word `new` starts. -/
def newPhrase (rules : Rules) : Parser Tree := do
  let start ← here
  expectWord "new"
  if ← eat "." then
    expectWord "target"
    finish start (.metaProperty "new.target") []
  else
    if (← isWord "import") && !(← nextIs (isPunct ".")) then reject
    let callee ← rules .memberOnly
    let typeArgs ← (do
      if (← hasTypes) && (← isPunct "<") then
        let tried ← attempt (do
          let args ← typeArguments rules
          unless ← isPunct "(" do reject
          return args)
        return tried.getD .absent
      else return .absent)
    if ← isPunct "(" then
      let args ← arguments rules
      finish start .newExpr [callee, args, typeArgs]
    else finish start .newExpr [callee, .absent, typeArgs]

/-- What the word `import` starts inside an expression. -/
def importPhrase : Parser Tree := do
  let start ← here
  expectWord "import"
  if ← eat "." then
    expectWord "meta"
    finish start (.metaProperty "import.meta") []
  else
    unless ← isPunct "(" do reject
    finish start .importRef []

/-- Takes the current token as a leaf. -/
def leaf (l : Label) : Parser Tree := do
  let start ← here
  advance
  finish start l []

/-- An expression without operators. -/
def primary (rules : Rules) : Parser Tree := do
  let start ← here
  let mayBeArrow := (← get).arrowAt == start
  match ← peek with
  | .number raw => leaf (.number raw)
  | .string raw => leaf (.string raw)
  | .bigint raw => leaf (.literal raw)
  | .privateName x => leaf (.privateName x)
  | .punct "\x60" =>
    let t ← template rules
    unless t.parts.all hasPlainEscapes do reject
    return t
  | .punct "/" | .punct "/=" => regexLiteral
  | .punct "(" => parenOrArrow rules mayBeArrow
  | .punct "@" => classExpr rules
  | .punct "[" =>
    advance
    let ts ← inMode (fun m => { m with noIn := false, beforeColon := false })
      (commaList "]" (arrayElement rules))
    finish start .array ts
  | .punct "\x7b" =>
    advance
    let ts ← inMode (fun m => { m with noIn := false, beforeColon := false })
      (commaList "\x7d" (objectProperty rules))
    finish start .object ts
  | .punct "<" =>
    unless (← read).hasElements do reject
    let e ← rules .element
    -- the last mark of the element is still to be taken
    advance
    return e
  | .word "function" false => functionExpr rules start false
  | .word "class" false => classExpr rules
  | .word "async" false => asyncPhrase rules mayBeArrow
  | .word "this" false => leaf .thisExpr
  | .word "super" false => leaf .superRef
  | .word "null" false => leaf (.literal "null")
  | .word "true" false => leaf (.literal "true")
  | .word "false" false => leaf (.literal "false")
  | .word "new" false => newPhrase rules
  | .word "import" false => importPhrase
  | _ =>
    if ← isWordOf Token.declarableOnly then reject
    let x ← name
    if mayBeArrow && (← atArrow) then arrowRest rules start false [x] .absent .absent
    else return x

/-! ### Members and calls -/

/-- The name or bracket after a point or an opening bracket. -/
def memberName : Parser Tree := do
  let start ← here
  match ← peek with
  | .privateName x => advance; finish start (.privateName x) []
  | _ => keyName

/-- An expression in brackets, as a property. -/
def computedName (rules : Rules) : Parser Tree := do
  let start ← here
  expect "["
  let e ← inMode (fun m => { m with noIn := false, beforeColon := false }) (rules .expression)
  expect "]"
  finish start .computed [e]

/-- The label of a member access on the given object. -/
def memberLabel (object : Tree) (inChain : Bool) : Label :=
  if object.label == .superRef then .superMember
  else if inChain then .chainMember false
  else .member

/-- The label of a call. -/
def callLabel (inChain : Bool) : Label :=
  if inChain then .chainCall false else .call

/-- The marks after which type arguments may stand alone. -/
def typeArgumentsMayEnd : Parser Bool := do
  if ← atBreak then return true
  match ← peek with
  | .punct p => return [")", "]", ":", ";", ",", ".", "?.", "?", "==", "===", "!=", "!==", "&&",
      "||", "??", "^", "&", "|", "\x7d", "\x7b", "=", ">", "=>"].contains p
  | .word w _ => return ["as", "satisfies", "in", "instanceof", "implements", "extends"].contains w
  | .eof => return true
  | _ => return false

/-- Type arguments after an expression, with the arguments or the template that follows. -/
def typedSubscript (rules : Rules) (start : Nat) (mayCall inChain : Bool) (e : Tree) :
    Parser (Option Tree) :=
  attempt (do
    let args ← typeArguments rules
    if (← isPunct "(") && mayCall then
      let xs ← arguments rules
      finish start (callLabel inChain) [e, xs, args]
    else if ← isPunct "\x60" then
      let t ← template rules
      finish start .tagged [e, args, t]
    else
      unless ← typeArgumentsMayEnd do reject
      finish start .instantiation [e, args])

/-- The accesses, calls and templates after an expression.  `mayCall` is false for the callee of
`new`. -/
def subscripts (rules : Rules) (start : Nat) (mayCall : Bool) (e : Tree) : Parser Tree := do
  let isTyped ← hasTypes
  let (e, _) ← iterate (fun ((e, inChain) : Tree × Bool) => do
    match ← peek with
    | .punct "." =>
      advance
      let p ← memberName
      return some (← finish start (memberLabel e inChain) [e, p], inChain)
    | .punct "[" =>
      let p ← computedName rules
      return some (← finish start (memberLabel e inChain) [e, p], inChain)
    | .punct "?." =>
      if !mayCall then reject
      advance
      if ← isPunct "(" then
        let args ← arguments rules
        return some (← finish start (.chainCall true) [e, args, .absent], true)
      else if ← isPunct "[" then
        let p ← computedName rules
        return some (← finish start (.chainMember true) [e, p], true)
      else if isTyped && (← isPunct "<") then
        let types ← typeArguments rules
        let args ← arguments rules
        return some (← finish start (.chainCall true) [e, args, types], true)
      else
        let p ← memberName
        return some (← finish start (.chainMember true) [e, p], true)
    | .punct "(" =>
      if !mayCall then return none
      let args ← arguments rules
      return some (← finish start (callLabel inChain) [e, args, .absent], inChain)
    | .punct "\x60" =>
      let t ← template rules
      return some (← finish start .tagged [e, .absent, t], inChain)
    | .punct "!" =>
      if isTyped && !(← atBreak) then
        advance
        return some (← finish start .nonNull [e], inChain)
      else return none
    | .punct "<" =>
      if isTyped && mayCall then
        return (← typedSubscript rules start mayCall inChain e).map fun t => (t, inChain)
      else return none
    | _ => return none) (e, false)
  return e

/-- A primary expression with what follows it. -/
def leftHand (rules : Rules) (mayCall : Bool) : Parser Tree := do
  let start ← here
  let e ← primary rules
  if isArrow e then return e
  subscripts rules start mayCall e

/-! ### Operators -/

/-- An operand with the operator after it. -/
def postfixed (rules : Rules) (start : Nat) : Parser Tree := do
  let e ← leftHand rules true
  if isArrow e then return e
  if (← isPunctOf ["++", "--"]) && !(← atBreak) then
    let p := if ← isPunct "++" then "++" else "--"
    advance
    finish start (.update p false) [e]
  else return e

/-- An operand with the operators in front of it and after it. -/
def unary (rules : Rules) : Parser Tree := do
  let start ← here
  match ← peek with
  | .punct p =>
    if ["+", "-", "!", "~"].contains p then
      advance
      let e ← rules .unary
      finish start (.unary p) [e]
    else if p == "++" || p == "--" then
      advance
      let e ← rules .unary
      finish start (.update p true) [e]
    else if p == "<" && (← hasTypes) && !(← read).hasElements then
      advance
      if (← isWord "const") && (← nextIs (isPunct ">")) then
        advance
        advance
        let e ← rules .unary
        finish start .constAssertion [e]
      else
        let t ← inMode typeMode (rules .type)
        expect ">"
        let e ← rules .unary
        finish start .typeAssertion [e, t]
    else postfixed rules start
  | .word w false =>
    if ["typeof", "void", "delete"].contains w then
      advance
      let e ← rules .unary
      finish start (.unary w) [e]
    else if w == "await" then
      advance
      let e ← rules .unary
      finish start .await [e]
    else postfixed rules start
  | _ => postfixed rules start

/-- Reads a closing angle bracket with what follows it as one operator. -/
def mergeOperator : Parser Unit := do
  if ← isPunct ">" then
    let c ← get
    match Scan.mergedOperator c.here with
    | some m => retake (.punct (String.ofList m)) m.length (c.here.drop m.length)
    | none => return ()

/-- The operator that joins operands at this place, if there is one. -/
def binaryOperator : Parser (Option (String × Nat)) := do
  mergeOperator
  let mode ← read
  match ← peek with
  | .punct p => return (precedence p).map (p, ·)
  | .word w false =>
    if w == "in" && mode.noIn then return none
    else if w == "in" || w == "instanceof" then return (precedence w).map (w, ·)
    else return none
  | _ => return none

/-- The label of a cast by `as` or `satisfies`. -/
def castLabel (isAs : Bool) : Label :=
  if isAs then .asExpr else .satisfiesExpr

/-- What follows an operand, if anything does. -/
def link (rules : Rules) : Parser (Option Link) := do
  match ← binaryOperator with
  | some (op, level) =>
    advance
    let e ← rules .unary
    return some (.operator op level e)
  | none =>
    if (← hasTypes) && !(← atBreak) && (← isWordOf ["as", "satisfies"]) then
      let isAs ← isWord "as"
      advance
      if isAs && (← isWord "const") then
        advance
        return some (.cast .constAssertion [] (← get).last)
      else
        let t ← inMode typeMode (rules .type)
        return some (.cast (castLabel isAs) [t] (← get).last)
    else return none

/-- Whether the tree is an arrow function that ends with a block. -/
def isBlockArrow : Tree → Bool
  | .arrow _ _ _ (.node .block _ _) _ _ => true
  | _ => false

/-- Operands with operators between them.  After the block of an arrow function a slash starts a
regular expression. -/
def binary (rules : Rules) : Parser Tree := do
  let e ← unary rules
  if isBlockArrow e && (← isPunctOf ["/", "/="]) then return e
  let links ← many (link rules)
  if Chain.raisesPrefixed e links then reject
  return Chain.fold [] e links

/-- An expression with the alternatives that depend on it. -/
def conditional (rules : Rules) : Parser Tree := do
  let start ← here
  let test ← binary rules
  if isArrow test then return test
  if (← isPunct "?") && !(← nextIs (isPunctOf [",", ")", ":", "="])) then
    advance
    let yes ← inMode (fun m => { m with noIn := false, beforeColon := true }) (rules .assignment)
    expect ":"
    let no ← rules .assignment
    finish start .conditional [test, yes, no]
  else return test

/-- The operators that assign. -/
def assignmentOperators : List String :=
  ["=", "+=", "-=", "*=", "/=", "%=", "**=", "<<=", ">>=", ">>>=", "&=", "|=", "^=", "&&=", "||=",
    "??="]

/-- The expression as the target of an operator that assigns. -/
def assignmentTarget (op : String) (target : Tree) : Parser Tree := do
  if op == "=" then
    match target.toTarget with
    | some p => return p
    | none => reject
  else if target.isSimpleTarget then return target
  else reject

/-- What the word `yield` starts in a generator. -/
def yieldPhrase (rules : Rules) : Parser Tree := do
  let start ← here
  expectWord "yield"
  if ← atBreak then finish start (.yieldExpr false) [.absent]
  else if ← eat "*" then
    let e ← rules .assignment
    finish start (.yieldExpr true) [e]
  else
    let ends ← (do
      match ← peek with
      | .punct p => return [")", "]", "\x7d", ",", ";", ":"].contains p
      | .word w false => return w == "in" || w == "of"
      | .eof => return true
      | _ => return false)
    if ends then finish start (.yieldExpr false) [.absent]
    else
      let e ← rules .assignment
      finish start (.yieldExpr false) [e]

/-- An expression without commas. -/
def assignment (rules : Rules) : Parser Tree := do
  let start ← here
  modify fun c => { c with arrowAt := start }
  if (← read).inGenerator && (← isWord "yield") then yieldPhrase rules
  else
    let generic ← (do
      if (← hasTypes) && (← isPunct "<") then attempt (genericArrow rules start false)
      else return none)
    match generic with
    | some f => return f
    | none =>
      let target ← conditional rules
      if isArrow target then return target
      mergeOperator
      match ← peek with
      | .punct op =>
        if assignmentOperators.contains op then
          let target ← assignmentTarget op target
          advance
          let value ← rules .assignment
          finish start (.assign op) [target, value]
        else return target
      | _ => return target

/-- An expression. -/
def expression (rules : Rules) : Parser Tree := do
  let start ← here
  let e ← rules .assignment
  if ← isPunct "," then
    let rest ← many (do
      if ← eat "," then return some (← rules .assignment) else return none)
    finish start .sequence (e :: rest)
  else return e

end Parser

end ContextHoist
