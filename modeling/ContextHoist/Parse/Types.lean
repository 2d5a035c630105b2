/-
Types.

The rules for types and for the members of type literals and interfaces.  A type is read by
`Parser.type`; the result of a function, which may be a predicate on a parameter, by
`Parser.resultType`.
-/
import ContextHoist.Parse.Pattern

namespace ContextHoist

/-- A key that is a plain word as a name, as members of types and labels of tuples have it. -/
def Tree.keyToName : Tree → Tree
  | node (.key x) s [] => name x s
  | t => t

namespace Parser

/-! ### Parameters and arguments -/

/-- Leaves out of account what an expression around a type has decided. -/
def typeMode (m : Mode) : Mode :=
  { m with noIn := false, beforeColon := false }

/-- A type parameter. -/
def typeParameter (rules : Rules) : Parser Tree := do
  let start ← here
  let isConst ← eatWord "const"
  let isIn ← eatWord "in"
  let isOut ← (do
    if (← isWord "out") && (← nextIs isName) then advance; return true else return false)
  let x ← name
  let bound ← (do
    if ← eatWord "extends" then rules .type else return .absent)
  let default ← (do
    if ← eat "=" then rules .type else return .absent)
  finish start (.typeParameter isIn isOut isConst) [x, bound, default]

/-- Type parameters in angle brackets, if they follow. -/
def typeParameters (rules : Rules) : Parser Tree := do
  let start ← here
  if ← eatTyped "<" then
    let ts ← inMode (fun m => { typeMode m with noConditionalType := false })
      (commaList ">" (typeParameter rules))
    finish start .typeParameters ts
  else return .absent

/-- Type arguments in angle brackets. -/
def typeArguments (rules : Rules) : Parser Tree := do
  let start ← here
  expect "<"
  let ts ← inMode (fun m => { typeMode m with noConditionalType := false })
    (commaList ">" (rules .type))
  if ts.isEmpty then reject
  finish start .typeArguments ts

/-- Type arguments, if an opening angle bracket follows on the same line. -/
def optionalTypeArguments (rules : Rules) : Parser Tree := do
  if (← isPunct "<") && !(← atBreak) then typeArguments rules else return .absent

/-- A name, or `this`, that a type may use as the name of a parameter. -/
def nameOrThis : Parser Tree := do
  let start ← here
  if ← eatWord "this" then finish start (.name "this") []
  else name

/-- A parameter of a function type. -/
def typeFunctionParameter (rules : Rules) : Parser Tree := do
  let start ← here
  if ← eat "..." then
    let p ← rules .pattern
    let t ← typeMark rules
    finish start .restPattern [p, t]
  else
    let p ← (do
      if ← isWord "this" then nameOrThis else rules .pattern)
    let isOptional ← eat "?"
    withType rules start isOptional p

/-- The parameters of a function type, in parentheses. -/
def typeFunctionParameters (rules : Rules) : Parser Tree := do
  expect "("
  return .group (← commaList ")" (typeFunctionParameter rules))

/-- The type that a function returns, after the colon or the arrow: a type, or a predicate on a
parameter. -/
def resultType (rules : Rules) : Parser Tree := do
  let start ← here
  let isAsserts ← (do
    if (← isWord "asserts") && (← nextIs (do
        return ((← isName) || (← isWord "this")) && !(← atBreak))) then
      -- the word itself may be the parameter
      if ← nextIs (isWord "is") then
        return !(← ahead (do advance; advance; return (← isName) || (← isWord "this")))
      else return true
    else return false)
  if isAsserts then
    advance
    let x ← nameOrThis
    let t ← (do
      if ← eatWord "is" then
        let inner ← here
        let t ← rules .type
        finish inner .typeMark [t]
      else return .absent)
    finish start (.typePredicate true) [x, t]
  else if ((← isName) || (← isWord "this")) &&
      (← nextIs (do return (← isWord "is") && !(← atBreak))) then
    let x ← (do
      if ← eatWord "this" then finish start .thisType [] else name)
    advance
    let inner ← here
    let t ← rules .type
    let ann ← finish inner .typeMark [t]
    finish start (.typePredicate false) [x, ann]
  else rules .type

/-- The result of a function after a colon, if one follows. -/
def resultMark (rules : Rules) : Parser Tree := do
  let start ← here
  if ← eatTyped ":" then
    let t ← inMode (fun m => { typeMode m with noConditionalType := false }) (resultType rules)
    finish start .typeMark [t]
  else return .absent

/-! ### Members -/

/-- Ends a member of a type. -/
def memberEnd : Parser Unit := do
  unless (← eat ";") || (← eat ",") do
    unless (← isPunct "\x7d") || (← atBreak) do reject

/-- The key of a member of a type: a plain word counts as a name. -/
def signatureKey (rules : Rules) : Parser Tree := do
  return (← propertyKey rules).keyToName

/-- Whether an index signature starts here. -/
def atIndexSignature : Parser Bool :=
  ahead (do
    expect "["
    unless ← isName do reject
    advance
    isPunct ":")

/-- An index signature. -/
def indexSignature (rules : Rules) (start : Nat) (isStatic isReadonly : Bool) :
    Parser Tree := do
  expect "["
  let inner ← here
  let x ← name
  let p ← withType rules inner false x
  expect "]"
  let t ← typeMark rules
  finish start (.indexSignature isStatic isReadonly) [.group [p], t]

/-- Whether a property key starts here. -/
def atPropertyKey : Parser Bool := do
  match ← peek with
  | .word _ _ | .string _ | .number _ | .bigint _ | .privateName _ | .punct "[" => return true
  | _ => return false

/-- The rest of a call or construct signature. -/
def signatureRest (rules : Rules) (start : Nat) (l : Label) : Parser Tree := do
  let tps ← typeParameters rules
  let ps ← typeFunctionParameters rules
  let r ← resultMark rules
  memberEnd
  finish start l [ps, r, tps]

/-- A member of a type literal or of an interface. -/
def typeMember (rules : Rules) : Parser Tree := do
  let start ← here
  if (← isPunct "(") || (← isPunct "<") then signatureRest rules start .callSignature
  else if (← isWord "new") && (← nextIs (isPunctOf ["(", "<"])) then
    advance
    signatureRest rules start .constructSignature
  else
    let isReadonly ← (do
      if (← isWord "readonly") && (← nextIs atPropertyKey) then advance; return true
      else return false)
    if ← atIndexSignature then
      let t ← indexSignature rules start false isReadonly
      memberEnd
      return t
    else if (← isWord "get") && (← nextIs atPropertyKey) then
      advance
      let k ← signatureKey rules
      expect "("
      expect ")"
      let r ← resultMark rules
      memberEnd
      finish start .getterSignature [k, r]
    else if (← isWord "set") && (← nextIs atPropertyKey) then
      advance
      let k ← signatureKey rules
      expect "("
      let p ← typeFunctionParameter rules
      expect ")"
      let _ ← resultMark rules
      memberEnd
      finish start .setterSignature [k, p]
    else
      let k ← signatureKey rules
      let isOptional ← eat "?"
      if (← isPunct "(") || (← isPunct "<") then
        let tps ← typeParameters rules
        let ps ← typeFunctionParameters rules
        let r ← resultMark rules
        memberEnd
        finish start (.methodSignature isOptional) [k, ps, r, tps]
      else
        let t ← typeMark rules
        memberEnd
        finish start (.propertySignature isReadonly isOptional) [k, t]

/-- The members of a type literal or of an interface, after the opening brace. -/
def typeMembers (rules : Rules) : Parser (List Tree) := do
  let ts ← many (do
    if ← isPunct "\x7d" then return none
    return some (← typeMember rules))
  expect "\x7d"
  return ts

/-- The sign of a modifier of a mapped type. -/
def mappedSign (w : Parser Bool) : Parser MappedSign := do
  if (← isPunct "+") && (← nextIs w) then advance; advance; return .plus
  if (← isPunct "-") && (← nextIs w) then advance; advance; return .minus
  if ← w then advance; return .present
  return .absent

/-- Whether a mapped type starts at this brace. -/
def atMappedType : Parser Bool :=
  ahead (do
    expect "\x7b"
    if ← isPunctOf ["+", "-"] then advance; return ← isWord "readonly"
    if (← isWord "readonly") && (← nextIs (isPunct "[")) then advance
    expect "["
    unless ← isName do reject
    advance
    isWord "in")

/-- A mapped type. -/
def mappedType (rules : Rules) : Parser Tree := do
  let start ← here
  expect "\x7b"
  let ro ← mappedSign (isWord "readonly")
  expect "["
  let inner ← here
  let x ← name
  expectWord "in"
  let bound ← rules .type
  let param ← finish inner (.typeParameter false false false) [x, bound, .absent]
  let nameType ← (do
    if ← eatWord "as" then rules .type else return .absent)
  expect "]"
  let opt ← mappedSign (isPunct "?")
  let t ← (do
    if ← eat ":" then rules .type else return .absent)
  let _ ← eat ";"
  let _ ← eat ","
  expect "\x7d"
  finish start (.mappedType ro opt) [param, nameType, t]

/-! ### Types -/

/-- The types written as one keyword. -/
def keywordTypes : List String :=
  ["any", "unknown", "number", "object", "boolean", "bigint", "string", "symbol", "undefined",
    "never", "intrinsic"]

/-- A name with dots. -/
def entityName (first : Parser Tree) : Parser Tree := do
  let start ← here
  let x ← first
  iterate (fun (left : Tree) => do
    if (← isPunct ".") && (← nextIs (do match ← peek with
        | .word _ _ => return true
        | _ => return false)) then
      advance
      let k ← keyName
      return some (← finish start .qualifiedName [left, k])
    else return none) x

/-- A reference to a type by its name. -/
def typeReference (rules : Rules) : Parser Tree := do
  let start ← here
  let x ← entityName name
  let args ← optionalTypeArguments rules
  finish start .typeReference [x, args]

/-- Whether the escapes of a part of a template are such as a template without a tag may have. -/
def hasPlainEscapes (t : Tree) : Bool :=
  match t.label with
  | .chunk raw => Scan.escapesComplete raw.toList && !Scan.hasOctalEscape raw.toList
  | _ => true

/-- The text of a template up to the next substitution or to its end, and whether it is the end; the
current token is the opening mark or a closing brace. -/
def templateChunk : Parser (Tree × Bool) := do
  let c ← get
  match Scan.chunkBody c.here.tail with
  | some (text, isLast, rest) =>
    let start := c.current.start + 1
    let raw := String.ofList text
    let size := text.length + (if isLast then 2 else 3)
    retake (.chunk raw isLast) size rest
    advance
    return (.node (.chunk raw) ⟨start, start + text.length⟩ [], isLast)
  | none => reject

/-- The rest of a template, after its opening mark; `inner` reads a substitution. -/
def templateParts (inner : Parser Tree) : Parser (List Tree) := do
  let (first, isLast) ← templateChunk
  let (parts, _) ← iterate (fun ((acc, ended) : List Tree × Bool) => do
    if ended then return none
    let e ← inner
    unless ← isPunct "\x7d" do reject
    let (next, isLast) ← templateChunk
    return some (next :: e :: acc, isLast)) ([first], isLast)
  return parts.reverse

/-- The rest of a type query, after the word `typeof`. -/
def typeQuery (rules : Rules) (start : Nat) : Parser Tree := do
  let x ← (do
    if ← isWord "import" then rules .type
    else entityName nameOrThis)
  let args ← optionalTypeArguments rules
  finish start .typeQuery [x, args]

/-- A type imported from another module. -/
def importType (rules : Rules) : Parser Tree := do
  let start ← here
  expectWord "import"
  expect "("
  let s ← stringLiteral
  let _ ← eat ","
  expect ")"
  let q ← (do
    if ← eat "." then entityName name else return .absent)
  let args ← optionalTypeArguments rules
  finish start .importType [s, q, args]

/-- An element of a tuple type. -/
def tupleElement (rules : Rules) : Parser Tree := do
  let start ← here
  let isRest ← eat "..."
  let isLabeled ← ahead (do
    match ← peek with
    | .word _ _ => advance; let _ ← eat "?"; isPunct ":"
    | _ => reject)
  if isLabeled then
    let inner ← here
    let x := (← keyName).keyToName
    let isOptional ← eat "?"
    let l ← (do
      if isOptional then finish inner (.annotated true) [x, .absent] else return x)
    let l ← (do
      if isRest then finish start .restPattern [l, .absent] else return l)
    expect ":"
    let t ← rules .type
    finish start .tupleElement [l, t]
  else
    let t ← rules .type
    let t ← (do
      if ← eat "?" then finish start .optionalType [t] else return t)
    let t ← (do
      if isRest then finish start .restType [t] else return t)
    finish start .tupleElement [.absent, t]

/-- A literal type. -/
def literalType (l : Label) : Parser Tree := do
  let start ← here
  advance
  let t ← finish start l []
  finish start .literalType [t]

/-- A type without operators. -/
def primaryType (rules : Rules) : Parser Tree := do
  let start ← here
  match ← peek with
  | .string raw => literalType (.string raw)
  | .number raw => literalType (.number raw)
  | .bigint raw => literalType (.literal raw)
  | .punct "-" =>
    advance
    match ← peek with
    | .number raw => advance; finish start .literalType [← finish start (.number ("-" ++ raw)) []]
    | .bigint raw => advance; finish start .literalType [← finish start (.literal ("-" ++ raw)) []]
    | _ => reject
  | .punct "\x60" =>
    let ts ← templateParts (rules .type)
    unless ts.all hasPlainEscapes do reject
    finish start .templateType ts
  | .punct "\x7b" =>
    if ← atMappedType then mappedType rules
    else
      advance
      let ts ← typeMembers rules
      finish start .typeLiteral ts
  | .punct "[" =>
    advance
    let ts ← commaList "]" (tupleElement rules)
    finish start .tupleType ts
  | .punct "(" =>
    advance
    let t ← rules .type
    expect ")"
    finish start .parenType [t]
  | .word "this" _ => advance; finish start .thisType []
  | .word "typeof" _ => advance; typeQuery rules start
  | .word "import" _ => importType rules
  | .word "void" _ => advance; finish start (.keywordType "void") []
  | .word "null" _ => advance; finish start (.keywordType "null") []
  | .word "true" _ => literalType (.literal "true")
  | .word "false" _ => literalType (.literal "false")
  | .word w _ =>
    if keywordTypes.contains w && !(← nextIs (isPunct ".")) then
      advance
      finish start (.keywordType w) []
    else typeReference rules
  | _ => reject

/-- A type with the brackets that follow it. -/
def postfixType (rules : Rules) : Parser Tree := do
  let start ← here
  let t ← inMode (fun m => { m with noConditionalType := false }) (primaryType rules)
  iterate (fun (t : Tree) => do
    if (← isPunct "[") && !(← atBreak) then
      advance
      if ← eat "]" then return some (← finish start .arrayType [t])
      let i ← rules .type
      expect "]"
      return some (← finish start (.indexedType false) [t, i])
    else return none) t

/-- A type with the operators in front of it. -/
def operatorType (rules : Rules) : Parser Tree := do
  let operators ← many (do
    let start ← here
    if (← isWordOf ["keyof", "unique", "readonly"]) && !(← nextIs (do
        return (← isPunctOf [",", ";", ")", "]", "\x7d", "|", "&", "=", ">", "=>", ".", "[", "?"])
          || (← peek) == .eof)) then
      match ← peek with
      | .word w _ => advance; return some (start, w)
      | _ => return none
    else return none)
  let start ← here
  let base ← (do
    if (← isWord "infer") && (← nextIs isName) then
      advance
      let inner ← here
      let x ← name
      let bound ← (do
        if (← isWord "extends") then
          let tried ← attempt (do
            advance
            let b ← inMode (fun m => { m with noConditionalType := true }) (rules .type)
            if !(← read).noConditionalType && (← isPunct "?") then reject
            return b)
          return tried.getD .absent
        else return .absent)
      let p ← finish inner (.typeParameter false false false) [x, bound, .absent]
      finish start .inferType [p]
    else postfixType rules)
  operators.foldrM (fun (p, w) t => finish p (.typeOperator w) [t]) base

/-- Types with one kind of mark between them; the mark may also stand in front. -/
def typeSum (mark : String) (l : Label) (item : Parser Tree) : Parser Tree := do
  let start ← here
  let led ← eat mark
  let ts ← separated mark item
  match ts with
  | [t] => if led then finish start l [t] else return t
  | _ => finish start l ts

/-- Whether a function type starts at this parenthesis. -/
def atFunctionType (rules : Rules) : Parser Bool := do
  if ← isPunct "<" then return true
  unless ← isPunct "(" do return false
  ahead (do
    advance
    if ← isPunctOf [")", "..."] then return true
    if ← isPunctOf ["\x7b", "["] then
      let _ ← rules .pattern
      if ← isPunctOf [":", ",", "?", "="] then return true
      if ← eat ")" then return ← isPunct "=>"
      return false
    match ← peek with
    | .word _ _ =>
      advance
      if ← isPunctOf [":", ",", "?", "="] then return true
      if ← eat ")" then return ← isPunct "=>"
      return false
    | _ => return false)

/-- The rest of a function or constructor type. -/
def functionTypeRest (rules : Rules) (start : Nat) (l : Label) : Parser Tree := do
  let tps ← typeParameters rules
  let ps ← typeFunctionParameters rules
  let inner ← here
  expect "=>"
  let r ← resultType rules
  let ann ← finish inner .typeMark [r]
  finish start l [ps, tps, ann]

/-- A type. -/
def type (rules : Rules) : Parser Tree := do
  let start ← here
  if ← atFunctionType rules then functionTypeRest rules start .functionType
  else if (← isWord "new") && (← nextIs (isPunctOf ["(", "<"])) then
    advance
    functionTypeRest rules start (.constructorType false)
  else if (← isWord "abstract") && (← nextIs (isWord "new")) then
    advance
    advance
    functionTypeRest rules start (.constructorType true)
  else
    let t ← typeSum "|" .unionType (typeSum "&" .intersectionType (operatorType rules))
    if !(← read).noConditionalType && (← isWord "extends") && !(← atBreak) then
      advance
      let bound ← inMode (fun m => { m with noConditionalType := true }) (rules .type)
      expect "?"
      let yes ← inMode (fun m => { m with noConditionalType := false }) (rules .type)
      expect ":"
      let no ← inMode (fun m => { m with noConditionalType := false }) (rules .type)
      finish start .conditionalType [t, bound, yes, no]
    else return t

end Parser

end ContextHoist
