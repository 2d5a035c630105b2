/-
The part that a call plays in a test suite.

Suites, hooks and tests are registered by calls of functions with agreed names.  Only the name
of the callee counts, and only if the callee is nothing but a name: a member such as the `only`
of a suite function is an ordinary callee.

* `Role`, `Role.ofName`: the roles, and the names that stand for them.
* `Tree.role`: the role of a call.
* `Tree.callRoles`: the roles of all calls of a tree, outer calls before inner ones.
-/
import ContextHoist.Syntax.Tree

namespace ContextHoist

/-- What a call does in the hierarchy of suites. -/
inductive Role where
  /-- It opens a suite. -/
  | createsSuite
  /-- It registers a function that runs before the tests and sets properties of the context. -/
  | installsSetup
  /-- It registers a test, or a function that runs after the tests. -/
  | usesContext
  /-- It is a call like any other. -/
  | ordinary
  deriving DecidableEq, Repr, Inhabited

/-- The role of a call whose callee is the given name. -/
def Role.ofName : String → Role
  | "suite" | "describe" | "context" => createsSuite
  | "setup" | "before" | "beforeEach" => installsSetup
  | "test" | "it" | "teardown" | "after" | "afterEach" => usesContext
  | _ => ordinary

namespace Tree

/-- The role of a call with the given callee. -/
def calleeRole : Tree → Role
  | name x _ => Role.ofName x
  | _ => .ordinary

/-- The role of a call; what is not a call is ordinary. -/
def role : Tree → Role
  | call _ callee _ _ _ => callee.calleeRole
  | _ => .ordinary

mutual

/-- The roles of all calls in a tree, an outer call before the calls in it, and the calls in a
callee before those in the arguments. -/
def callRoles : Tree → List Role
  | node l s ts =>
    (if l = .call then [role (node l s ts)] else []) ++ callRolesAll ts

/-- The roles of all calls in a list of trees. -/
def callRolesAll : List Tree → List Role
  | [] => []
  | t :: ts => t.callRoles ++ callRolesAll ts

end

end Tree

/-- The roles of all calls of a source file, in the order in which the calls begin. -/
def Module.callRoles (m : Module) : List Role :=
  Tree.callRolesAll m.items

end ContextHoist
