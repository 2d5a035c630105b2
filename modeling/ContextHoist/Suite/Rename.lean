/-
Renaming of variables.

Every name in a tree is renamed, in whatever scope it stands; property keys are not names and
stay.  A shorthand `{ x }` means the key `x` and the variable `x` at once, so renaming the
variable writes the key out: `{ x: y }`, and `{ x: y = 1 }` for the pattern `{ x = 1 }`.

* `Tree.rename`: the renamed tree.
* `Tree.occurrences`: the number of names that renaming changes.
-/
import ContextHoist.Syntax.Tree

namespace ContextHoist

namespace Tree

/-- The pattern for a renamed variable with its default value, if it has one. -/
def withDefault (target : Tree) : Tree → Tree
  | node .absent _ [] => target
  | value => node .defaultPattern .nowhere [target, value]

mutual

/-- Renames the variable `a` to `b`. -/
def rename (a b : String) : Tree → Tree
  | node (.name x) s ts => node (.name (if x = a then b else x)) s (renameAll a b ts)
  | node .shorthand s [name x xs] =>
    if x = a then node .keyValue s [key x xs, name b xs]
    else node .shorthand s [name x xs]
  | node .shorthandPattern s [name x xs, value] =>
    if x = a then node .keyValuePattern s [key x xs, withDefault (name b xs) (value.rename a b)]
    else node .shorthandPattern s [name x xs, value.rename a b]
  | node l s ts => node l s (renameAll a b ts)

/-- Renames the variable `a` to `b` in a list of trees. -/
def renameAll (a b : String) : List Tree → List Tree
  | [] => []
  | t :: ts => t.rename a b :: renameAll a b ts

end

mutual

/-- The number of names in a tree that are the given one. -/
def occurrences (a : String) : Tree → Nat
  | node l _ ts => (if l = .name a then 1 else 0) + occurrencesAll a ts

/-- The number of names in a list of trees that are the given one. -/
def occurrencesAll (a : String) : List Tree → Nat
  | [] => 0
  | t :: ts => t.occurrences a + occurrencesAll a ts

end

end Tree

end ContextHoist
