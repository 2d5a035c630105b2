/-
Scopes and what a name means in them.

While the conversion descends into functions it keeps all scopes entered so far in one arena, in
which each scope points at the one around it.  Leaving a scope moves the position back and keeps
the arena as it is.

* `Scopes`: the arena and the position in it.
* `Scopes.chain`: the scopes from the current one outwards.
* `Scopes.lookup`: whether a name is bound in the current scope, around it, or nowhere.
-/
import ContextHoist.Suite.Bindings

namespace ContextHoist

/-- The two kinds of scope. -/
inductive ScopeKind where
  | program
  | function
  deriving DecidableEq, Repr, Inhabited

/-- Where a name is bound, seen from the current scope. -/
inductive Binding where
  /-- In the current scope itself. -/
  | current
  /-- In a scope around the current one, and not in it. -/
  | enclosing
  | unbound
  deriving DecidableEq, Repr, Inhabited

/-- One scope. -/
structure Scope where
  /-- The place in the arena of the scope around this one. -/
  parent : Option Nat := none
  kind : ScopeKind := .program
  /-- The names bound here. -/
  names : List String := []
  deriving DecidableEq, Repr, Inhabited

/-- All scopes entered so far, and the place of the current one. -/
structure Scopes where
  arena : Array Scope
  current : Nat
  deriving Repr

namespace Scopes

/-- A single scope that binds nothing. -/
def empty : Scopes := ⟨#[{}], 0⟩

instance : Inhabited Scopes := ⟨empty⟩

/-- A single scope that binds the given names. -/
def ofNames (names : List String) : Scopes := ⟨#[{ names }], 0⟩

/-- A single scope with the names bound at the top of a source file. -/
def ofModule (m : Module) : Scopes := ofNames m.declared

/-- The current scope. -/
def top (s : Scopes) : Scope :=
  s.arena[s.current]?.getD {}

/-- The kind of the current scope. -/
def kind (s : Scopes) : ScopeKind :=
  s.top.kind

/-- Enters a scope of the given kind with the given names inside the current one. -/
def enterWith (s : Scopes) (kind : ScopeKind) (names : List String) : Scopes where
  arena := s.arena.push { parent := some s.current, kind, names }
  current := s.arena.size

/-- Enters a scope that binds nothing. -/
def enter (s : Scopes) (kind : ScopeKind) : Scopes :=
  s.enterWith kind []

/-- Enters the scope of a function literal. -/
def enterFunction (s : Scopes) (literal : Tree) : Scopes :=
  s.enterWith .function literal.bindings

/-- Leaves the current scope; the outermost scope is never left. -/
def exit (s : Scopes) : Scopes :=
  match s.top.parent with
  | some p => { s with current := p }
  | none => s

/-- Binds more names in the current scope. -/
def declareAll (s : Scopes) (xs : List String) : Scopes :=
  { s with arena := s.arena.modify s.current fun c => { c with names := c.names ++ xs } }

/-- Binds one more name in the current scope. -/
def declare (s : Scopes) (x : String) : Scopes :=
  s.declareAll [x]

/-- The scopes of an arena from the given place outwards.  A scope is entered after the one
around it, so each step goes to a smaller place; one that does not would end the chain. -/
def chainFrom (arena : Array Scope) (i : Nat) : List Scope :=
  match arena[i]? with
  | none => []
  | some c =>
    match c.parent with
    | none => [c]
    | some p => if p < i then c :: chainFrom arena p else [c]
termination_by i

/-- The scopes from the current one outwards. -/
def chain (s : Scopes) : List Scope :=
  chainFrom s.arena s.current

/-- Where a name is bound, seen from the current scope. -/
def lookup (s : Scopes) (x : String) : Binding :=
  match s.chain with
  | [] => .unbound
  | c :: outer =>
    if c.names.contains x then .current
    else if outer.any (·.names.contains x) then .enclosing
    else .unbound

end Scopes

end ContextHoist
