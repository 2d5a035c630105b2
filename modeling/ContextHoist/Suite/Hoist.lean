/-
Resolution of the context accesses of one callback.

A callback that sets up a context decides for each property it accesses which variable holds
it; a test, or a callback that cleans up, only looks the variable up.  Then the accesses of the
callback are replaced by the variables, after its own variables of the same names have made way.

* `setupResolution`: the variables for the properties of a setup callback, new ones included.
* `usageResolution`: the variables for the properties of a test, and the properties without.
* `resolveCallback`: renames what stands in the way, and replaces.
* `hoistSetup`, `resolveUsage`: the two together.
-/
import ContextHoist.Suite.Scope
import ContextHoist.Suite.Context
import ContextHoist.Suite.Access
import ContextHoist.Suite.Rename

namespace ContextHoist

/-- The name that is used for `x` where `x` itself is taken. -/
def fromSetup (x : String) : String :=
  x ++ "_fromSetup"

/-- What happened to the accesses of one callback. -/
structure Outcome where
  /-- The number of accesses replaced. -/
  replaced : Nat := 0
  /-- The new names of variables of the callback that had to make way, in order. -/
  renamedLocals : List String := []
  /-- The properties that no enclosing suite sets up. -/
  unresolved : List String := []
  deriving DecidableEq, Repr, Inhabited

/-- The variables of a callback that have the same name as a property and as the variable that
holds it. -/
def clashes (scopes : Scopes) (r : Resolution) : List String :=
  (r.filter fun (p, x) => p == x && scopes.lookup x == .current).map (·.1)

/-- Renames the variables of a callback that clash with the variables for properties, and
replaces the accesses.  The scopes are those seen from inside the callback. -/
def resolveCallback (scopes : Scopes) (r : Resolution) (callback : Tree) : Tree × Outcome :=
  let locals := clashes scopes r
  let renamed := locals.foldl (fun t x => t.rename x (fromSetup x)) callback
  (renamed.replaceAccesses r,
    { replaced := renamed.replaceCount r
      renamedLocals := (locals.map fromSetup).mergeSort (fun a b => decide (a ≤ b)) })

/-- The name of the variable for a property that no enclosing suite sets up: the name of the
property, unless a scope around the callback binds it. -/
def hoistedName (scopes : Scopes) (p : String) : String :=
  match scopes.lookup p with
  | .enclosing => fromSetup p
  | .current | .unbound => p

/-- The variables for the properties of a setup callback: those found in the context or around
it, and new ones for the rest, which are recorded in the context. -/
def setupResolution (scopes : Scopes) (c : ContextId) :
    List String → ContextTree → Resolution × ContextTree
  | [], contexts => ([], contexts)
  | p :: ps, contexts =>
    match contexts.find? c p with
    | some found =>
      let (r, contexts) := setupResolution scopes c ps contexts
      ((p, found.name) :: r, contexts)
    | none =>
      let x := hoistedName scopes p
      let (r, contexts) := setupResolution scopes c ps (contexts.addProperty c ⟨p, x⟩)
      ((p, x) :: r, contexts)

/-- The variables for the properties that the context or one around it holds. -/
def usageResolution (contexts : ContextTree) (c : ContextId) (ps : List String) : Resolution :=
  ps.filterMap fun p => (contexts.find? c p).map fun found => (p, found.name)

/-- The properties that neither the context nor one around it holds. -/
def unresolved (contexts : ContextTree) (c : ContextId) (ps : List String) : List String :=
  ps.filter fun p => (contexts.find? c p).isNone

/-- Hoists the properties that a setup callback accesses. -/
def hoistSetup (contexts : ContextTree) (c : ContextId) (scopes : Scopes) (callback : Tree) :
    (Tree × Outcome) × ContextTree :=
  let scopes := scopes.enterFunction callback
  let (r, contexts) := setupResolution scopes c callback.contextAccesses contexts
  (resolveCallback scopes r callback, contexts)

/-- Resolves the properties that a test or a callback that cleans up accesses; those without a
variable stay as they are. -/
def resolveUsage (contexts : ContextTree) (c : ContextId) (scopes : Scopes) (callback : Tree) :
    Tree × Outcome :=
  let ps := callback.contextAccesses
  let (t, outcome) :=
    resolveCallback (scopes.enterFunction callback) (usageResolution contexts c ps) callback
  (t, { outcome with unresolved := unresolved contexts c ps })

end ContextHoist
