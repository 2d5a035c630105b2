/-
What can be seen of the scopes.

The arena keeps every scope ever entered, but a name is only looked up in the scopes from the
current one outwards.  Two arenas in which these bind the same names, scope by scope, cannot be told
apart.

* `Scopes.chain_enterFunction`: the scopes seen from inside a function literal.
* `Scopes.visible`: the names bound in the scopes from the current one outwards.
* `Scopes.Alike`: two arenas that cannot be told apart, and the operations that keep them so.
* `hoistSetup_congr`, `resolveUsage_congr`: callbacks are treated alike in such arenas.
-/
import Mathlib.Data.List.Forall2
import Mathlib.Tactic.Common
import ContextHoist.Suite.Hoist

namespace ContextHoist

namespace Scopes

/-! ### Scopes that are entered and left -/

/-- A scope that is entered later is not seen from the earlier ones. -/
lemma chainFrom_push (arena : Array Scope) (c : Scope) {i : Nat} (h : i < arena.size) :
    chainFrom (arena.push c) i = chainFrom arena i := by
  induction i using Nat.strongRecOn with
  | ind i ih =>
    have hget : (arena.push c)[i]? = arena[i]? := by
      rw [Array.getElem?_push_lt h, Array.getElem?_eq_getElem h]
    rw [chainFrom, chainFrom, hget]
    cases arena[i]? with
    | none => rfl
    | some d =>
      cases hparent : d.parent with
      | none => simp [hparent]
      | some p =>
        by_cases hp : p < i
        · simp [hparent, hp, ih p hp (Nat.lt_trans hp h)]
        · simp [hparent, hp]

/-- From inside a function literal its own scope comes first. -/
lemma chain_enterFunction (s : Scopes) (t : Tree) :
    ∃ outer, (s.enterFunction t).chain = ⟨some s.current, .function, t.bindings⟩ :: outer ∧
      (s.current < s.arena.size → outer = s.chain) := by
  rw [enterFunction, enterWith, chain, chainFrom]
  simp only [Array.getElem?_push_size]
  by_cases h : s.current < s.arena.size
  · exact ⟨s.chain, by simp [h, chainFrom_push, chain], fun _ => rfl⟩
  · exact ⟨[], by simp [h], fun h' => absurd h' h⟩

/-- The current scope is in the arena if something is seen at all. -/
lemma lt_size_of_chain {s : Scopes} (h : s.chain ≠ []) : s.current < s.arena.size := by
  by_contra hlt
  rw [chain, chainFrom, Array.getElem?_eq_none (Nat.le_of_not_lt hlt)] at h
  exact h rfl

/-- Where there is a scope around the current one, leaving the current one leads to it. -/
lemma chain_exit {s : Scopes} {c d : Scope} {outer : List Scope}
    (h : s.chain = c :: d :: outer) : s.exit.chain = d :: outer := by
  rw [chain, chainFrom] at h
  cases hget : s.arena[s.current]? with
  | none =>
    rw [hget] at h
    exact absurd h (by simp)
  | some k =>
    cases hparent : k.parent with
    | none => simp [hget, hparent] at h
    | some p =>
      by_cases hp : p < s.current
      · simp only [hget, hparent, hp, if_true, List.cons.injEq] at h
        simpa [exit, top, hget, hparent, chain] using h.2
      · simp [hget, hparent, hp] at h

/-! ### Names that are seen -/

/-- The names bound in the scopes from the current one outwards, scope by scope. -/
def visible (s : Scopes) : List (List String) :=
  s.chain.map (·.names)

lemma visible_enterFunction {s : Scopes} (h : s.visible ≠ []) (t : Tree) :
    (s.enterFunction t).visible = t.bindings :: s.visible := by
  have hchain : s.chain ≠ [] := fun hnil => h (by simp [visible, hnil])
  obtain ⟨outer, heq, houter⟩ := s.chain_enterFunction t
  rw [visible, heq, houter (lt_size_of_chain hchain)]
  rfl

lemma visible_exit {s : Scopes} {own next : List String} {outer : List (List String)}
    (h : s.visible = own :: next :: outer) : s.exit.visible = next :: outer := by
  obtain ⟨c, rest, hchain, -, hrest⟩ := List.map_eq_cons_iff.1 h
  obtain ⟨d, rest', rfl, rfl, rfl⟩ := List.map_eq_cons_iff.1 hrest
  rw [visible, chain_exit hchain]
  rfl

@[simp] lemma visible_ofNames (names : List String) : (ofNames names).visible = [names] := by
  simp [visible, chain, ofNames, chainFrom]

/-- A name is looked up in the names that are seen. -/
lemma lookup_of_visible {s : Scopes} {own : List String} {outer : List (List String)}
    (h : s.visible = own :: outer) (x : String) :
    s.lookup x = if x ∈ own then .current
      else if ∃ names ∈ outer, x ∈ names then .enclosing else .unbound := by
  obtain ⟨c, rest, hchain, rfl, rfl⟩ := List.map_eq_cons_iff.1 h
  simp [lookup, hchain]

/-! ### Arenas that cannot be told apart -/

/-- Something is seen in both arenas, and in both the same names, scope by scope. -/
def Alike (s s' : Scopes) : Prop :=
  s.visible ≠ [] ∧ List.Forall₂ (fun a b => ∀ x, x ∈ a ↔ x ∈ b) s.visible s'.visible

namespace Alike

variable {s s' s'' : Scopes}

lemma refl (h : s.visible ≠ []) : s.Alike s :=
  ⟨h, List.forall₂_same.2 fun _ _ _ => Iff.rfl⟩

lemma visible_ne_nil (h : s.Alike s') : s'.visible ≠ [] := by
  intro hnil
  obtain ⟨hne, hall⟩ := h
  rw [hnil, List.forall₂_nil_right_iff] at hall
  exact hne hall

lemma lookup_eq (h : s.Alike s') (x : String) : s.lookup x = s'.lookup x := by
  obtain ⟨hne, hall⟩ := h
  obtain ⟨own, outer, hs⟩ := List.exists_cons_of_ne_nil hne
  rw [hs] at hall
  obtain ⟨own', outer', hown, houter, hs'⟩ := List.forall₂_cons_left_iff.1 hall
  have hexists : (∃ names ∈ outer, x ∈ names) ↔ ∃ names ∈ outer', x ∈ names := by
    clear hs hs' hall hne
    induction houter with
    | nil => rfl
    | cons hnames _ ih => simp [hnames x, ih]
  rw [lookup_of_visible hs, lookup_of_visible hs']
  simp only [hown x, hexists]

lemma enterFunction (h : s.Alike s') (t : Tree) :
    (s.enterFunction t).Alike (s'.enterFunction t) := by
  have heq := visible_enterFunction h.1 t
  refine ⟨by simp [heq], ?_⟩
  rw [heq, visible_enterFunction h.visible_ne_nil t]
  exact .cons (fun _ => Iff.rfl) h.2

/-- Whatever has been entered and left inside a function literal, leaving the literal leads back to
what was seen around it. -/
lemma exit {t : Tree} (h : s.Alike (s'.enterFunction t)) (hs : s'.visible ≠ []) :
    s.exit.Alike s' := by
  obtain ⟨-, hall⟩ := h
  obtain ⟨next, outer, hs'⟩ := List.exists_cons_of_ne_nil hs
  rw [visible_enterFunction hs t, hs'] at hall
  obtain ⟨own, rest, -, hrest, hvisible⟩ := List.forall₂_cons_right_iff.1 hall
  obtain ⟨next', outer', hnext, houter, rfl⟩ := List.forall₂_cons_right_iff.1 hrest
  have heq := visible_exit hvisible
  refine ⟨by simp [heq], ?_⟩
  rw [heq, hs']
  exact .cons hnext houter

end Alike

end Scopes

/-! ### Callbacks in arenas that cannot be told apart -/

variable {s s' : Scopes}

lemma resolveCallback_congr (h : ∀ x, s.lookup x = s'.lookup x) (r : Resolution)
    (callback : Tree) : resolveCallback s r callback = resolveCallback s' r callback := by
  have hclashes : clashes s r = clashes s' r := by
    simp only [clashes, h]
  rw [resolveCallback, resolveCallback, hclashes]

lemma setupResolution_congr (h : ∀ x, s.lookup x = s'.lookup x) (c : ContextId)
    (ps : List String) (t : ContextTree) :
    setupResolution s c ps t = setupResolution s' c ps t := by
  induction ps generalizing t with
  | nil => rfl
  | cons p ps ih =>
    have hname : hoistedName s p = hoistedName s' p := by
      rw [hoistedName, hoistedName, h]
    simp only [setupResolution, ih, hname]

lemma hoistSetup_congr (h : s.Alike s') (t : ContextTree) (c : ContextId) (callback : Tree) :
    hoistSetup t c s callback = hoistSetup t c s' callback := by
  have hlookup := (h.enterFunction callback).lookup_eq
  simp only [hoistSetup, setupResolution_congr hlookup, resolveCallback_congr hlookup]

lemma resolveUsage_congr (h : s.Alike s') (t : ContextTree) (c : ContextId) (callback : Tree) :
    resolveUsage t c s callback = resolveUsage t c s' callback := by
  have hlookup := (h.enterFunction callback).lookup_eq
  simp only [resolveUsage, resolveCallback_congr hlookup]

end ContextHoist
