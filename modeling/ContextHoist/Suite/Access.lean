/-
Accesses `this.p` that belong to a callback itself, and their replacement by variables.

An access belongs to a callback if no function, class or accessor stands between the two.

* `Tree.accessed?`: the property of an access.
* `Tree.contextAccesses`: the properties that a callback accesses.
* `Tree.replaceAccesses`: puts variables in place of accesses; `Tree.replaceCount` says how many.
-/
import ContextHoist.Syntax.Tree

namespace ContextHoist

/-- Which variable stands for which property.  The first pair with a property counts. -/
abbrev Resolution := List (String × String)

namespace Tree

/-! ### Finding accesses -/

/-- The property `p` of an access `this.p`, also in an optional chain. -/
def accessed? : Tree → Option String
  | accessOf p _ _ _ => some p
  | chainAccessOf p _ _ _ _ => some p
  | _ => none

mutual

/-- The properties accessed in a phrase, outside of phrases with a scope of their own. -/
def ownAccesses : Tree → List String
  | node l s ts =>
    match accessed? (node l s ts) with
    | some p => [p]
    | none => if l.isBoundary then [] else ownAccessesAll ts

/-- The properties accessed in a list of phrases. -/
def ownAccessesAll : List Tree → List String
  | [] => []
  | t :: ts => t.ownAccesses ++ ownAccessesAll ts

end

/-- The properties that a callback accesses in its parameters and its body, each at its first
occurrence.  What is not a function literal has none. -/
def contextAccesses : Tree → List String
  | functionExpr _ _ _ _ _ params _ body _ _ => (params.ownAccesses ++ body.ownAccesses).eraseDups
  | arrow _ _ params body _ _ => (params.ownAccesses ++ body.ownAccesses).eraseDups
  | _ => []

/-! ### Replacing accesses -/

/-- The variable that replaces a node: only an access outside of optional chains is replaced. -/
def replacement? (r : Resolution) : Tree → Option String
  | accessOf p _ _ _ => r.lookup p
  | _ => none

mutual

/-- Replaces the accesses of a phrase, outside of phrases with a scope of their own. -/
def replaceOwn (r : Resolution) : Tree → Tree
  | node l s ts =>
    match replacement? r (node l s ts) with
    | some x => name x .nowhere
    | none => if l.isBoundary then node l s ts else node l s (replaceOwnAll r ts)

/-- Replaces the accesses of a list of phrases. -/
def replaceOwnAll (r : Resolution) : List Tree → List Tree
  | [] => []
  | t :: ts => t.replaceOwn r :: replaceOwnAll r ts

end

mutual

/-- The number of nodes that `replaceOwn` replaces. -/
def replaceableOwn (r : Resolution) : Tree → Nat
  | node l s ts =>
    match replacement? r (node l s ts) with
    | some _ => 1
    | none => if l.isBoundary then 0 else replaceableOwnAll r ts

/-- The number of nodes that `replaceOwnAll` replaces. -/
def replaceableOwnAll (r : Resolution) : List Tree → Nat
  | [] => 0
  | t :: ts => t.replaceableOwn r + replaceableOwnAll r ts

end

/-- Replaces the accesses that belong to a callback. -/
def replaceAccesses (r : Resolution) : Tree → Tree
  | functionExpr s self isAsync isGenerator fs params decorators body typeParams result =>
    functionExpr s self isAsync isGenerator fs (params.replaceOwn r) decorators
      (body.replaceOwn r) typeParams result
  | arrow s isAsync params body typeParams result =>
    arrow s isAsync (params.replaceOwn r) (body.replaceOwn r) typeParams result
  | t => t

/-- The number of accesses that `replaceAccesses` replaces. -/
def replaceCount (r : Resolution) : Tree → Nat
  | functionExpr _ _ _ _ _ params _ body _ _ => params.replaceableOwn r + body.replaceableOwn r
  | arrow _ _ params body _ _ => params.replaceableOwn r + body.replaceableOwn r
  | _ => 0

end Tree

end ContextHoist
