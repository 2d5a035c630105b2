/-
Patterns.

A pattern stands where names are bound or assigned.  Declarations write patterns directly; the
target of an assignment and the parameters of an arrow function are read as expressions first
and turned into patterns when the `=` or the `=>` is seen.

* `Tree.toTarget`: an expression as the target of an assignment.
* `Tree.toBinding`: an expression as a parameter, which may hold no member access.
* `Parser.bindingPattern`: a pattern in a declaration.
-/
import ContextHoist.Parse.Basic

namespace ContextHoist

namespace Tree

/-- Whether the expression may stand on the left of an assignment by itself. -/
def isSimpleTarget (t : Tree) : Bool :=
  match t.label with
  | .name _ | .member | .superMember | .chainMember _ | .paren | .asExpr | .satisfiesExpr
  | .typeAssertion | .nonNull | .constAssertion => true
  | _ => false

/-- Whether the expression may be a leaf of a pattern.  More is allowed there than on the left of
an assignment by itself. -/
def isLeafTarget (t : Tree) : Bool :=
  t.isSimpleTarget ||
    match t.label with
    | .call | .newExpr | .number _ | .string _ | .literal _ | .template | .functionExpr
    | .classExpr => true
    | _ => false

mutual
/-- The expression as a part of a pattern: array and object literals become patterns, and an
assignment becomes a pattern with a default value. -/
def toPattern : Tree → Option Tree
  | node .array s ts => (elementsToPattern ts).map (node .arrayPattern s)
  | node .object s ts => (propertiesToPattern ts).map (node .objectPattern s)
  | node (.assign "=") s [target, value] => some (node .defaultPattern s [target, value])
  | node .arrayPattern s ts => some (node .arrayPattern s ts)
  | node .objectPattern s ts => some (node .objectPattern s ts)
  | t => if t.isLeafTarget then some t else none
/-- The elements of an array literal as those of a pattern. -/
def elementsToPattern : List Tree → Option (List Tree)
  | [] => some []
  | node .absent _ _ :: ts => (elementsToPattern ts).map (absent :: ·)
  | node .spread s [t] :: ts => do
    let t' ← toPattern t
    let ts' ← elementsToPattern ts
    return node .restPattern s [t', absent] :: ts'
  | t :: ts => do
    let t' ← toPattern t
    let ts' ← elementsToPattern ts
    return t' :: ts'
/-- The properties of an object literal as those of a pattern. -/
def propertiesToPattern : List Tree → Option (List Tree)
  | [] => some []
  | node .shorthand s [x] :: ts =>
    (propertiesToPattern ts).map (node .shorthandPattern s [x, absent] :: ·)
  | node .shorthandDefault s xs :: ts =>
    (propertiesToPattern ts).map (node .shorthandPattern s xs :: ·)
  | node .keyValue s [k, v] :: ts => do
    let v' ← toPattern v
    let ts' ← propertiesToPattern ts
    return node .keyValuePattern s [k, v'] :: ts'
  | node .spread s [t] :: ts => do
    let t' ← toPattern t
    let ts' ← propertiesToPattern ts
    return node .restPattern s [t', absent] :: ts'
  | _ :: _ => none
end

/-- Whether the expression is an array or object literal. -/
def isCollection (t : Tree) : Bool :=
  t.label == .array || t.label == .object

/-- The expression as the target of an assignment. -/
def toTarget (t : Tree) : Option Tree :=
  if t.isCollection then toPattern t
  else if t.isSimpleTarget then some t
  else none

/-- The expression as the target of a loop, which may be any expression. -/
def toLoopTarget (t : Tree) : Option Tree :=
  if t.isCollection then toPattern t else some t

mutual
/-- Whether every leaf of the pattern is a name. -/
def bindsNamesOnly : Tree → Bool
  | node (.name _) _ _ => true
  | node .absent _ _ => true
  | node .arrayPattern _ ts => bindNamesOnly ts
  | node .objectPattern _ ts => bindNamesOnly ts
  | node .restPattern _ (t :: _) => bindsNamesOnly t
  | node .defaultPattern _ (t :: _) => bindsNamesOnly t
  | node (.annotated _) _ (t :: _) => bindsNamesOnly t
  | node .shorthandPattern _ _ => true
  | node .keyValuePattern _ [_, t] => bindsNamesOnly t
  | _ => false
/-- Whether every leaf of the patterns is a name. -/
def bindNamesOnly : List Tree → Bool
  | [] => true
  | t :: ts => bindsNamesOnly t && bindNamesOnly ts
end

/-- The expression as the pattern of a parameter. -/
def toBinding (t : Tree) : Option Tree :=
  match t with
  | node .thisExpr s [] => some (name "this" s)
  | _ => (toPattern t).filter bindsNamesOnly

end Tree

namespace Parser

/-- The key of a property: a word, a literal, a private name, or an expression in brackets. -/
def propertyKey (rules : Rules) : Parser Tree := do
  let start ← here
  match ← peek with
  | .word w _ => advance; finish start (.key w) []
  | .string raw => advance; finish start (.string raw) []
  | .number raw => advance; finish start (.number raw) []
  | .bigint raw => advance; finish start (.literal raw) []
  | .privateName x => advance; finish start (.privateName x) []
  | .punct "[" =>
    advance
    let e ← inMode (fun m => { m with noIn := false }) (rules .assignment)
    expect "]"
    finish start .computed [e]
  | _ => reject

/-- A type after a colon, if the language has types and a colon follows. -/
def typeMark (rules : Rules) : Parser Tree := do
  let start ← here
  if ← eatTyped ":" then
    let t ← rules .type
    finish start .typeMark [t]
  else return .absent

/-- The default value of a pattern, if one follows. -/
def withDefault (rules : Rules) (start : Nat) (p : Tree) : Parser Tree := do
  if ← eat "=" then
    let e ← inMode (fun m => { m with noIn := false, beforeColon := false }) (rules .assignment)
    finish start .defaultPattern [p, e]
  else return p

/-- Adds the type that follows a pattern. -/
def withType (rules : Rules) (start : Nat) (isOptional : Bool) (p : Tree) : Parser Tree := do
  let t ← typeMark rules
  if isOptional || t.isPresent then finish start (.annotated isOptional) [p, t]
  else return p

/-- A property of an object pattern. -/
def patternProperty (rules : Rules) : Parser Tree := do
  let start ← here
  if ← eat "..." then
    let p ← rules .pattern
    let t ← typeMark rules
    finish start .restPattern [p, t]
  else
    let couldBind ← isName
    let k ← propertyKey rules
    if ← eat ":" then
      let inner ← here
      let p ← rules .pattern
      let p ← withDefault rules inner p
      finish start .keyValuePattern [k, p]
    else
      match k with
      | .node (.key x) s [] =>
        unless couldBind do reject
        let d ← (do
          if ← eat "=" then
            inMode (fun m => { m with noIn := false, beforeColon := false }) (rules .assignment)
          else return .absent)
        finish start .shorthandPattern [.name x s, d]
      | _ => reject

/-- An element of an array pattern, or a hole. -/
def patternElement (rules : Rules) : Parser Tree := do
  if ← isPunct "," then return .absent
  let start ← here
  if ← eat "..." then
    let p ← rules .pattern
    let t ← typeMark rules
    finish start .restPattern [p, t]
  else
    let p ← rules .pattern
    withDefault rules start p

/-- A pattern that binds names, without type and default value. -/
def bindingPattern (rules : Rules) : Parser Tree := do
  let start ← here
  match ← peek with
  | .punct "[" =>
    advance
    let ts ← commaList "]" (patternElement rules)
    finish start .arrayPattern ts
  | .punct "\x7b" =>
    advance
    let ts ← commaList "\x7d" (patternProperty rules)
    finish start .objectPattern ts
  | _ => name

end Parser

end ContextHoist
