/-
Counts and names that a conversion reports.

* `Stats`: what was done to one source file.
* `Stats.merge`: the numbers of two runs taken together, the first run first.
-/
namespace ContextHoist

/-- What the conversion did to one source file. -/
structure Stats where
  /-- The number of suites converted that stand outside of all functions. -/
  suites : Nat := 0
  /-- The variables declared in place of context properties, in order of declaration. -/
  hoisted : List String := []
  /-- The number of callbacks that became arrow functions. -/
  callbacksConverted : Nat := 0
  /-- The context properties that are read but set up by no enclosing suite. -/
  unresolvedReads : List String := []
  /-- The new names of local variables that had the name of a hoisted variable. -/
  renamedLocals : List String := []
  deriving DecidableEq, Repr, Inhabited

namespace Stats

/-- The sum of two reports, the names of the first before those of the second. -/
def merge (a b : Stats) : Stats where
  suites := a.suites + b.suites
  hoisted := a.hoisted ++ b.hoisted
  callbacksConverted := a.callbacksConverted + b.callbacksConverted
  unresolvedReads := a.unresolvedReads ++ b.unresolvedReads
  renamedLocals := a.renamedLocals ++ b.renamedLocals

/-- Whether no suite was converted. -/
def isEmpty (s : Stats) : Bool :=
  s.suites == 0

@[simp] theorem merge_empty (a : Stats) : a.merge {} = a := by
  simp [merge]

@[simp] theorem empty_merge (a : Stats) : merge {} a = a := by
  simp [merge]

theorem merge_assoc (a b c : Stats) : (a.merge b).merge c = a.merge (b.merge c) := by
  simp [merge, Nat.add_assoc]

end Stats

end ContextHoist
