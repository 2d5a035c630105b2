/-
The arena of scopes is a stack.

Scopes that were left stay in the arena, and the current scope is a place in it, so the stack of the
scopes that are open is nowhere to be seen.  Here it is written down as a stack of sets of names,
and every sequence of operations does to the arena what it does to the stack.

* `ScopeStack`: a stack of levels, each with a kind and a set of names.
* `ScopeMove`: the operations, on the arena and on the stack.
* `Scopes.Walk`: the way outwards from a place, which is the way that a look-up goes.
* `Scopes.Represents`: the scopes on the way outwards are the levels of a stack.
* `Scopes.Represents.apply`: every operation keeps that so.
* `ScopeMove.Balanced`: operations that leave all that they enter, and nothing else.
* `Scopes.refinesStack`: what is looked up, after every sequence of operations.
-/
import Mathlib.Data.Finset.Insert
import Mathlib.Data.Finset.Lattice.Lemmas
import ContextHoist.Proofs.Scoping

namespace ContextHoist

/-! ### Stacks -/

/-- The kind of a scope, and the names that are bound in it. -/
structure Level where
  kind : ScopeKind
  names : Finset String

/-- Levels from the innermost one outwards.  There is always one. -/
structure ScopeStack where
  top : Level
  below : List Level

namespace ScopeStack

/-- A single level, with the names bound at the top of a source file if one is given. -/
def start : Option Module → ScopeStack
  | none => ⟨⟨.program, ∅⟩, []⟩
  | some m => ⟨⟨.program, m.declared.toFinset⟩, []⟩

/-- The stack with a new level on top. -/
def push (stack : ScopeStack) (level : Level) : ScopeStack :=
  ⟨level, stack.top :: stack.below⟩

/-- The stack without its top, unless nothing would be left. -/
def pop (stack : ScopeStack) : ScopeStack :=
  match stack.below with
  | [] => stack
  | level :: below => ⟨level, below⟩

/-- The stack with more names on top. -/
def bind (stack : ScopeStack) (names : Finset String) : ScopeStack :=
  { stack with top := { stack.top with names := stack.top.names ∪ names } }

/-- Where a name is bound, seen from the top. -/
def lookup (stack : ScopeStack) (x : String) : Binding :=
  if x ∈ stack.top.names then .current
  else if ∃ level ∈ stack.below, x ∈ level.names then .enclosing
  else .unbound

end ScopeStack

/-- The operations on scopes. -/
inductive ScopeMove where
  | enter (kind : ScopeKind)
  | enterFunction (literal : Tree)
  | exit
  | declare (x : String)
  | declareAll (xs : List String)

namespace ScopeMove

/-- What the operation does to an arena. -/
def apply (s : Scopes) : ScopeMove → Scopes
  | enter kind => s.enter kind
  | enterFunction literal => s.enterFunction literal
  | exit => s.exit
  | declare x => s.declare x
  | declareAll xs => s.declareAll xs

/-- What the operation does to a stack. -/
def onStack (stack : ScopeStack) : ScopeMove → ScopeStack
  | enter kind => stack.push ⟨kind, ∅⟩
  | enterFunction literal => stack.push ⟨.function, literal.bindings.toFinset⟩
  | exit => stack.pop
  | declare x => stack.bind {x}
  | declareAll xs => stack.bind xs.toFinset

/-- Whether the operation enters a scope. -/
def IsEntry : ScopeMove → Prop
  | enter _ | enterFunction _ => True
  | exit | declare _ | declareAll _ => False

end ScopeMove

/-- The stack after some operations. -/
def ScopeStack.after (m : Option Module) (moves : List ScopeMove) : ScopeStack :=
  moves.foldl ScopeMove.onStack (start m)

namespace Scopes

/-- A single scope, with the names bound at the top of a source file if one is given. -/
def start : Option Module → Scopes
  | none => .empty
  | some m => .ofModule m

/-- The arena after some operations. -/
def after (m : Option Module) (moves : List ScopeMove) : Scopes :=
  moves.foldl ScopeMove.apply (start m)

/-! ### The way outwards -/

/-- The scopes from a place outwards: the one at the place, the one around it, and so on until there
is none around. -/
inductive Walk (arena : Array Scope) : Option ℕ → List Scope → Prop
  | done : Walk arena none []
  | step {i : ℕ} {c : Scope} {cs : List Scope} (hi : arena[i]? = some c)
      (h : Walk arena c.parent cs) : Walk arena (some i) (c :: cs)

/-- Every scope has been entered after the one around it. -/
def IsOrdered (arena : Array Scope) : Prop :=
  ∀ (i : ℕ) (c : Scope) (p : ℕ), arena[i]? = some c → c.parent = some p → p < i

variable {arena : Array Scope}

lemma IsOrdered.push (h : IsOrdered arena) {c : Scope}
    (hc : ∀ p, c.parent = some p → p < arena.size) : IsOrdered (arena.push c) := by
  intro i d p hi hparent
  rw [Array.getElem?_push] at hi
  split at hi
  · obtain rfl := Option.some.inj hi
    subst i
    exact hc p hparent
  · exact h i d p hi hparent

lemma IsOrdered.modify (h : IsOrdered arena) (j : ℕ) {f : Scope → Scope}
    (hf : ∀ c, (f c).parent = c.parent) : IsOrdered (arena.modify j f) := by
  intro i d p hi hparent
  rw [Array.getElem?_modify] at hi
  split at hi
  · obtain ⟨c, hc, rfl⟩ := Option.map_eq_some_iff.1 hi
    exact h i c p hc (hf c ▸ hparent)
  · exact h i d p hi hparent

namespace Walk

lemma lt_size {i : ℕ} {cs : List Scope} (h : Walk arena (some i) cs) : i < arena.size := by
  cases h with
  | step hi _ => exact (Array.getElem?_eq_some_iff.1 hi).1

/-- A scope that is entered later is not on the way. -/
lemma push {place : Option ℕ} {cs : List Scope} (h : Walk arena place cs) (c : Scope) :
    Walk (arena.push c) place cs := by
  induction h with
  | done => exact .done
  | step hi _ ih =>
    refine .step ?_ ih
    have hlt := (Array.getElem?_eq_some_iff.1 hi).1
    rw [Array.getElem?_push_lt hlt, ← Array.getElem?_eq_getElem hlt, hi]

/-- A change behind the place where the way begins does not matter. -/
lemma modify {place : Option ℕ} {cs : List Scope} (h : Walk arena place cs)
    (horder : IsOrdered arena) {j : ℕ} (hj : ∀ i ∈ place, i < j) (f : Scope → Scope) :
    Walk (arena.modify j f) place cs := by
  induction h with
  | done => exact .done
  | @step i c cs hi _ ih =>
    have hij : i < j := hj i rfl
    refine .step ?_ (ih fun p hp => (horder i c p hi hp).trans hij)
    rw [Array.getElem?_modify, if_neg (Nat.ne_of_gt hij), hi]

/-- The chain of scopes is the way outwards. -/
lemma chainFrom_eq {i : ℕ} {cs : List Scope} (h : Walk arena (some i) cs)
    (horder : IsOrdered arena) : chainFrom arena i = cs := by
  generalize hplace : some i = place at h
  induction h generalizing i with
  | done => exact absurd hplace (by simp)
  | @step j c cs hi hrest ih =>
    obtain rfl := Option.some.inj hplace
    rw [chainFrom, hi]
    cases hparent : c.parent with
    | none =>
      rw [hparent] at hrest
      cases hrest
      simp [hparent]
    | some p => simp [hparent, horder i c p hi hparent, ih hparent.symm]

end Walk

end Scopes

/-- What a level keeps of a scope. -/
def Scope.level (c : Scope) : Level :=
  ⟨c.kind, c.names.toFinset⟩

namespace Scopes

/-! ### Arenas that represent stacks -/

/-- The scopes from the current one outwards are the levels of the stack. -/
structure Represents (s : Scopes) (stack : ScopeStack) : Prop where
  ordered : IsOrdered s.arena
  walk : ∃ cs, Walk s.arena (some s.current) cs ∧ cs.map Scope.level = stack.top :: stack.below

namespace Represents

variable {s : Scopes} {stack : ScopeStack}

lemma ofNames (names : List String) :
    (Scopes.ofNames names).Represents ⟨⟨.program, names.toFinset⟩, []⟩ := by
  have hnone : IsOrdered #[] := fun i c p hi => absurd hi (by simp)
  exact ⟨hnone.push (c := { names }) (by simp), _, .step rfl .done, rfl⟩

lemma start : (m : Option Module) → (Scopes.start m).Represents (.start m)
  | none => ofNames []
  | some m => ofNames m.declared

/-- Entering a scope puts a level on top. -/
lemma enterWith (h : s.Represents stack) (kind : ScopeKind) (names : List String) :
    (s.enterWith kind names).Represents (stack.push ⟨kind, names.toFinset⟩) := by
  obtain ⟨horder, cs, hwalk, hlevels⟩ := h
  refine ⟨horder.push ?_, _, .step Array.getElem?_push_size (hwalk.push _), ?_⟩
  · intro p hp
    obtain rfl := Option.some.inj hp
    exact hwalk.lt_size
  · rw [List.map_cons, hlevels]
    rfl

/-- Leaving a scope takes the level on top off, except for the last one. -/
lemma exit (h : s.Represents stack) : s.exit.Represents stack.pop := by
  obtain ⟨horder, cs, hwalk, hlevels⟩ := h
  cases hwalk with
  | @step _ c outer hi hrest =>
    have htop : s.top = c := by rw [Scopes.top, hi]; rfl
    obtain ⟨hlevel, hbelow⟩ := List.cons.inj hlevels
    cases hparent : c.parent with
    | none =>
      rw [hparent] at hrest
      cases hrest
      have hexit : s.exit = s := by rw [Scopes.exit, htop, hparent]
      have hpop : stack.pop = stack := by rw [ScopeStack.pop, ← hbelow]; rfl
      rw [hexit, hpop]
      exact ⟨horder, _, .step hi (hparent ▸ .done), hlevels⟩
    | some p =>
      rw [hparent] at hrest
      cases hrest with
      | @step _ d further hp hfurther =>
        have hexit : s.exit = { s with current := p } := by rw [Scopes.exit, htop, hparent]
        have hpop : stack.pop = ⟨d.level, further.map Scope.level⟩ := by
          rw [ScopeStack.pop, ← hbelow]
          rfl
        rw [hexit, hpop]
        exact ⟨horder, _, .step hp hfurther, rfl⟩

/-- Binding names adds to the level on top. -/
lemma declareAll (h : s.Represents stack) (xs : List String) :
    (s.declareAll xs).Represents (stack.bind xs.toFinset) := by
  obtain ⟨horder, cs, hwalk, hlevels⟩ := h
  cases hwalk with
  | @step _ c outer hi hrest =>
    obtain ⟨hlevel, hbelow⟩ := List.cons.inj hlevels
    have hget : (s.declareAll xs).arena[s.current]? = some { c with names := c.names ++ xs } := by
      rw [Scopes.declareAll, Array.getElem?_modify, if_pos rfl, hi]
      rfl
    have houter : Walk (s.declareAll xs).arena c.parent outer := by
      dsimp only [Scopes.declareAll]
      exact hrest.modify horder (horder _ c · hi) _
    refine ⟨horder.modify _ fun _ => rfl, _, .step hget houter, ?_⟩
    rw [List.map_cons, hbelow, ScopeStack.bind, ← hlevel, Scope.level, List.toFinset_append]
    rfl

/-- One operation does to the arena what it does to the stack. -/
lemma apply (h : s.Represents stack) (move : ScopeMove) :
    (move.apply s).Represents (move.onStack stack) := by
  cases move with
  | enter kind => exact h.enterWith kind []
  | enterFunction literal => exact h.enterWith .function literal.bindings
  | exit => exact h.exit
  | declare x => exact h.declareAll [x]
  | declareAll xs => exact h.declareAll xs

/-- And so does every sequence of them. -/
lemma after (m : Option Module) (moves : List ScopeMove) :
    (Scopes.after m moves).Represents (.after m moves) := by
  suffices ∀ s stack, Represents s stack →
      (moves.foldl ScopeMove.apply s).Represents (moves.foldl ScopeMove.onStack stack) from
    this _ _ (start m)
  induction moves with
  | nil => exact fun _ _ h => h
  | cons move moves ih => exact fun s stack h => ih _ _ (h.apply move)

lemma chain (h : s.Represents stack) :
    Walk s.arena (some s.current) s.chain ∧ s.chain.map Scope.level = stack.top :: stack.below := by
  obtain ⟨horder, cs, hwalk, hlevels⟩ := h
  rw [Scopes.chain, hwalk.chainFrom_eq horder]
  exact ⟨hwalk, hlevels⟩

/-- What is looked up in the arena is what is looked up in the stack. -/
lemma lookup_eq (h : s.Represents stack) (x : String) : s.lookup x = stack.lookup x := by
  obtain ⟨c, outer, hchain, hlevel, hbelow⟩ := List.map_eq_cons_iff.1 h.chain.2
  have hvisible : s.visible = c.names :: outer.map (·.names) := by rw [visible, hchain]; rfl
  rw [lookup_of_visible hvisible, ScopeStack.lookup, ← hlevel, ← hbelow]
  simp [Scope.level]

lemma kind_eq (h : s.Represents stack) : s.kind = stack.top.kind := by
  obtain ⟨-, cs, hwalk, hlevels⟩ := h
  cases hwalk with
  | step hi _ =>
    rw [Scopes.kind, Scopes.top, hi, ← (List.cons.inj hlevels).1]
    rfl

end Represents

end Scopes

/-! ### Scopes that were left -/

/-- Operations that leave all the scopes that they enter, and nothing else. -/
inductive ScopeMove.Balanced : List ScopeMove → Prop
  | nil : Balanced []
  | declare (x : String) {rest : List ScopeMove} (h : Balanced rest) : Balanced (.declare x :: rest)
  | declareAll (xs : List String) {rest : List ScopeMove} (h : Balanced rest) :
      Balanced (.declareAll xs :: rest)
  | visit {enter : ScopeMove} {inside rest : List ScopeMove} (henter : enter.IsEntry)
      (hinside : Balanced inside) (hrest : Balanced rest) :
      Balanced (enter :: inside ++ .exit :: rest)

/-- What is done between entering and leaving a scope is forgotten, if it leaves the levels below
alone. -/
lemma ScopeStack.foldl_visit {enter : ScopeMove} (henter : enter.IsEntry) {inside : List ScopeMove}
    (hinside : ∀ stack, (inside.foldl ScopeMove.onStack stack).below = stack.below)
    (later : List ScopeMove) (stack : ScopeStack) :
    (enter :: inside ++ .exit :: later).foldl ScopeMove.onStack stack =
      later.foldl ScopeMove.onStack stack := by
  have hentered : (enter.onStack stack).below = stack.top :: stack.below := by
    cases enter with
    | enter _ | enterFunction _ => rfl
    | exit | declare _ | declareAll _ => exact henter.elim
  have hleft : (inside.foldl ScopeMove.onStack (enter.onStack stack)).pop = stack := by
    rw [ScopeStack.pop, hinside, hentered]
  rw [List.cons_append, List.foldl_cons, List.foldl_append, List.foldl_cons, ScopeMove.onStack,
    hleft]

/-- Below the top nothing changes if all that is entered is left. -/
lemma ScopeMove.Balanced.below_eq {moves : List ScopeMove} (h : Balanced moves)
    (stack : ScopeStack) : (moves.foldl onStack stack).below = stack.below := by
  induction h generalizing stack with
  | nil => rfl
  | declare x _ ih => exact ih (stack.bind {x})
  | declareAll xs _ ih => exact ih (stack.bind xs.toFinset)
  | @visit enter inside rest henter _ _ ihinside ihrest =>
    rw [ScopeStack.foldl_visit henter ihinside rest stack]
    exact ihrest stack

namespace Scopes

/-- What can be asked of the arena is answered by the stack. -/
structure Refines (s : Scopes) (stack : ScopeStack) : Prop where
  /-- The way outwards from the current scope ends; it is the one that a look-up goes. -/
  ends : Walk s.arena (some s.current) s.chain
  lookup : ∀ x, s.lookup x = stack.lookup x
  kind : s.kind = stack.top.kind

/-- After every sequence of operations the arena answers as the stack does, and as if the scopes
that were left had never been entered. -/
theorem refinesStack (m : Option Module) (moves : List ScopeMove) :
    (after m moves).Refines (.after m moves) ∧
      ∀ before enter inside later, moves = before ++ (enter :: inside ++ .exit :: later) →
        enter.IsEntry → ScopeMove.Balanced inside →
          (∀ x, (after m moves).lookup x = (after m (before ++ later)).lookup x) ∧
            (after m moves).kind = (after m (before ++ later)).kind := by
  have hmoves := Represents.after m moves
  refine ⟨⟨hmoves.chain.1, hmoves.lookup_eq, hmoves.kind_eq⟩, ?_⟩
  intro before enter inside later heq henter hinside
  have hstack : ScopeStack.after m moves = .after m (before ++ later) := by
    rw [ScopeStack.after, ScopeStack.after, heq, List.foldl_append,
      ScopeStack.foldl_visit henter hinside.below_eq, List.foldl_append]
  have hshort := Represents.after m (before ++ later)
  rw [← hstack] at hshort
  constructor
  · intro x
    rw [hmoves.lookup_eq, hshort.lookup_eq]
  · rw [hmoves.kind_eq, hshort.kind_eq]

/-- A function inside a function, which binds a name of its own and is left again. -/
theorem refinesStack_nested :
    let before : List ScopeMove :=
      [.exit, .declareAll ["user", "post"], .enter .function, .declare "post"]
    let inside : List ScopeMove := [.declare "user"]
    let later : List ScopeMove := [.declare "tag"]
    let moves := before ++ (.enter .function :: inside ++ .exit :: later)
    ScopeMove.IsEntry (.enter .function) ∧ ScopeMove.Balanced inside ∧
      (after none moves).Refines (.after none moves) ∧
      (∀ x, (after none moves).lookup x = (after none (before ++ later)).lookup x) ∧
      (after none moves).kind = (after none (before ++ later)).kind := by
  intro before inside later moves
  have hinside : ScopeMove.Balanced inside := .declare "user" .nil
  obtain ⟨hrefines, hleft⟩ := refinesStack none moves
  exact ⟨trivial, hinside, hrefines,
    hleft before (.enter .function) inside later rfl trivial hinside⟩

end Scopes

end ContextHoist
