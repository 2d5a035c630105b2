/-
A property that has a variable keeps it.

Properties are recorded in any context at any time, in outer contexts also after inner ones.  But a
setup records a property only if neither its context nor one around it holds the property.  So if a
property is found from a context, then no context on the way to the one that holds it can gain
another record of it: from there the property is found already.

* `ContextTree.Extends`: what contexts may gain.
* `ContextTree.Extends.find?`: what is found before is found afterwards.
* `ContextTree.Operation`, `ContextTree.after`: the operations on the contexts of a suite.
* `ContextTree.resolution_stable`: over every sequence of operations a property keeps its variable,
  and every callback is rewritten with that variable.
-/
import ContextHoist.Proofs.Trace

namespace ContextHoist

namespace ContextTree

/-! ### Looking up one step outwards -/

/-- The context around a context, if it is an older one. -/
def outer? (t : ContextTree) (c : ContextId) : Option ContextId :=
  (t.parents[c]?.getD none).filter (· < c)

lemma lt_of_outer? {t : ContextTree} {c d : ContextId} (h : t.outer? c = some d) : d < c := by
  rw [outer?, Option.filter_eq_some_iff] at h
  simpa using h.2

/-- A property is looked up in the context itself, and then from the context around it. -/
lemma find?_eq_or (t : ContextTree) (c : ContextId) (key : String) :
    t.find? c key =
      ((t.properties c).find? (·.key == key)).or ((t.outer? c).bind (t.find? · key)) := by
  have houter : t.outer? c = (t.contexts[c]?.bind (·.parent)).filter (· < c) := by
    simp only [outer?, parents, List.getElem?_map, Array.getElem?_toList]
    cases t.contexts[c]? <;> rfl
  rw [houter, properties, get, find?, ancestry]
  cases hk : t.contexts[c]? with
  | none => rfl
  | some k =>
    cases hparent : k.parent with
    | none => simp [hparent]
    | some p =>
      by_cases hlt : p < c
      · simp only [hparent, hlt, if_true, Option.bind_some, Option.getD_some, Option.filter_some,
          decide_true, List.findSome?_cons, find?]
        cases k.properties.find? (·.key == key) <;> rfl
      · simp [hparent, hlt, Option.filter_some]

/-- A new context has no properties. -/
lemma properties_add (t : ContextTree) (parent : Option ContextId) (c : ContextId) :
    (t.add parent).properties c = t.properties c := by
  rw [properties_eq, properties_eq, records_add, List.getElem?_append]
  split
  · rfl
  · next hlt =>
    rw [List.getElem?_eq_none (Nat.le_of_not_lt hlt)]
    cases c - t.records.length <;> simp

/-! ### What contexts may gain -/

/-- The second contexts have all that the first ones have.  A context has only gained properties
that were not found from it. -/
structure Extends (t t' : ContextTree) : Prop where
  parents : t.parents <+: t'.parents
  properties : ∀ c, ∃ new, t'.properties c = t.properties c ++ new ∧
    ∀ q ∈ new, t.find? c q.key = none

namespace Extends

variable {t t' t'' : ContextTree}

lemma outer? (h : Extends t t') {c d : ContextId} (ho : t.outer? c = some d) :
    t'.outer? c = some d := by
  obtain ⟨new, hnew⟩ := h.parents
  rw [ContextTree.outer?, Option.filter_eq_some_iff] at ho
  obtain ⟨hparent, hlt⟩ := ho
  have hc : t.parents[c]? = some (some d) := by
    cases hget : t.parents[c]? with
    | none => simp [hget] at hparent
    | some p => simpa [hget] using hparent
  have hc' : t'.parents[c]? = some (some d) := by
    rw [← hnew, List.getElem?_append_left (List.getElem?_eq_some_iff.1 hc).1, hc]
  rw [ContextTree.outer?, hc', Option.getD_some, Option.filter_some, if_pos hlt]

/-- What is found from a context is found afterwards.  The induction follows the way outwards. -/
theorem find? (h : Extends t t') {c : ContextId} {key : String} {d : Property}
    (hd : t.find? c key = some d) : t'.find? c key = some d := by
  induction c using Nat.strongRecOn with
  | ind c ih =>
    obtain ⟨new, hprops, hnew⟩ := h.properties c
    have hfound := hd
    rw [find?_eq_or, Option.or_eq_some_iff] at hfound
    rw [find?_eq_or, hprops, List.find?_append, Option.or_assoc, Option.or_eq_some_iff]
    rcases hfound with hown | ⟨hown, hbind⟩
    · exact .inl hown
    · refine .inr ⟨hown, ?_⟩
      -- the context has not gained the property, because it is found from it
      have hnone : new.find? (·.key == key) = none := by
        rw [List.find?_eq_none]
        intro q hq hkey
        have hkey : q.key = key := by simpa using hkey
        have hqnone := hnew q hq
        rw [hkey, hd] at hqnone
        exact absurd hqnone (by simp)
      obtain ⟨e, ho, he⟩ := Option.bind_eq_some_iff.1 hbind
      rw [hnone, Option.none_or, h.outer? ho]
      exact ih e (lt_of_outer? ho) he

lemma refl (t : ContextTree) : Extends t t :=
  ⟨List.prefix_rfl, fun _ => ⟨[], by simp⟩⟩

lemma trans (h : Extends t t') (h' : Extends t' t'') : Extends t t'' where
  parents := h.parents.trans h'.parents
  properties := by
    intro c
    obtain ⟨new, hprops, hnew⟩ := h.properties c
    obtain ⟨new', hprops', hnew'⟩ := h'.properties c
    refine ⟨new ++ new', by rw [hprops', hprops, List.append_assoc], fun q hq => ?_⟩
    rcases List.mem_append.1 hq with hq | hq
    · exact hnew q hq
    · cases hd : t.find? c q.key with
      | none => rfl
      | some d =>
        have hnone := hnew' q hq
        rw [h.find? hd] at hnone
        exact absurd hnone (by simp)

lemma add (t : ContextTree) (parent : Option ContextId) : Extends t (t.add parent) where
  parents := by simp
  properties := fun c => ⟨[], by rw [properties_add, List.append_nil], by simp⟩

/-- A context may gain a property that is not found from it. -/
lemma addProperty {t : ContextTree} {c : ContextId} {q : Property}
    (h : t.find? c q.key = none) : Extends t (t.addProperty c q) where
  parents := by simp
  properties := by
    intro e
    have hown : (t.properties c).find? (·.key == q.key) = none := by
      rw [find?_eq_or, Option.or_eq_none_iff] at h
      exact h.1
    rw [properties_eq, properties_eq, records_addProperty hown, List.getElem?_modify]
    by_cases hce : c = e
    · subst hce
      cases hrecord : t.records[c]? with
      | none => exact ⟨[], by simp⟩
      | some f => exact ⟨[q], by simpa using h⟩
    · exact ⟨[], by simp [hce]⟩

end Extends

/-! ### Setups and tests -/

/-- A setup only records properties that are not found from its context. -/
lemma extends_setupResolution (scopes : Scopes) (c : ContextId) (ps : List String)
    (t : ContextTree) : Extends t (setupResolution scopes c ps t).2 := by
  induction ps generalizing t with
  | nil => exact Extends.refl t
  | cons p ps ih =>
    rw [setupResolution]
    cases hfound : t.find? c p with
    | some found => exact ih t
    | none => exact (Extends.addProperty hfound).trans (ih _)

/-- A setup writes the variable that a property has already. -/
lemma lookup_setupResolution {scopes : Scopes} {c : ContextId} {ps : List String}
    {t : ContextTree} {p : String} {d : Property} (hp : p ∈ ps) (hd : t.find? c p = some d) :
    (setupResolution scopes c ps t).1.lookup p = some d.name := by
  induction ps generalizing t with
  | nil => exact absurd hp List.not_mem_nil
  | cons q ps ih =>
    rw [setupResolution]
    by_cases hpq : p = q
    · subst hpq
      simp [hd]
    · have hmem : p ∈ ps := (List.mem_cons.1 hp).resolve_left hpq
      have hne : (p == q) = false := beq_eq_false_iff_ne.2 hpq
      cases hfound : t.find? c q with
      | some found => simpa [List.lookup_cons, hne] using ih hmem hd
      | none =>
        have hkept := (Extends.addProperty (q := ⟨q, hoistedName scopes q⟩) hfound).find? hd
        simpa [List.lookup_cons, hne] using ih hmem hkept

/-! ### Sequences of operations -/

/-- What is done with the contexts of a suite. -/
inductive Operation where
  /-- Adds a context with nothing around it. -/
  | root
  /-- Adds a context inside another one. -/
  | child (parent : ContextId)
  /-- Hoists the properties of a setup callback in a context. -/
  | setup (c : ContextId) (scopes : Scopes) (callback : Tree)
  /-- Resolves the properties of a test in a context. -/
  | usage (c : ContextId) (scopes : Scopes) (callback : Tree)

/-- The contexts after an operation. -/
def Operation.apply (t : ContextTree) : Operation → ContextTree
  | root => t.addRoot
  | child parent => t.addChild parent
  | setup c scopes callback => (hoistSetup t c scopes callback).2
  | usage _ _ _ => t

/-- The contexts after some operations, if there are none at first. -/
def after (ops : List Operation) : ContextTree :=
  ops.foldl Operation.apply {}

/-- One operation. -/
lemma extends_apply (t : ContextTree) (op : Operation) : Extends t (op.apply t) := by
  cases op with
  | root => exact Extends.add t none
  | child parent => exact Extends.add t (some parent)
  | setup c scopes callback => exact extends_setupResolution _ c callback.contextAccesses t
  | usage c scopes callback => exact Extends.refl t

/-- Any number of operations. -/
lemma extends_foldl (t : ContextTree) (ops : List Operation) :
    Extends t (ops.foldl Operation.apply t) := by
  induction ops generalizing t with
  | nil => exact Extends.refl t
  | cons op ops ih => exact (extends_apply t op).trans (ih _)

/-- The callback is rewritten to the result, with the variable `x` in place of the property `p`: its
own variables make way, and each access is replaced by what a resolution gives for it. -/
def Rewrites (p x : String) (scopes : Scopes) (callback result : Tree) : Prop :=
  ∃ r : Resolution, r.lookup p = some x ∧
    result = (resolveCallback (scopes.enterFunction callback) r callback).1

/-- Once a property is found from a context, it is found in the same variable after all later
operations, and setups and tests of the context that access it are rewritten with that variable. -/
theorem resolution_stable (before later : List Operation) (c : ContextId) (p : String)
    (d : Property) (h : (after before).find? c p = some d) :
    (after (before ++ later)).find? c p = some d ∧
      ∀ (scopes : Scopes) (callback : Tree), p ∈ callback.contextAccesses →
        Rewrites p d.name scopes callback
          (hoistSetup (after (before ++ later)) c scopes callback).1.1 ∧
        Rewrites p d.name scopes callback
          (resolveUsage (after (before ++ later)) c scopes callback).1 := by
  have hkept : (after (before ++ later)).find? c p = some d := by
    rw [after, List.foldl_append]
    exact (extends_foldl (after before) later).find? h
  refine ⟨hkept, fun scopes callback hp => ⟨⟨_, ?_, rfl⟩, ⟨_, ?_, rfl⟩⟩⟩
  · exact lookup_setupResolution hp hkept
  · rw [usageResolution, lookup_records hp, hkept]
    rfl

/-- A callback that accesses the property `x`. -/
def accessing : Tree := .plainFunction [] [.accessStmt "x"]

/-- A context, and one inside it in which a setup accesses `x`. -/
def innerFirst : List Operation :=
  [.root, .child 0, .setup 1 .empty accessing]

/-- Then a setup of the outer context accesses `x`, where that name is taken. -/
def outerLater : List Operation :=
  [.setup 0 (.ofNames ["x"]) accessing]

theorem resolution_stable_innerFirst :
    (after innerFirst).find? 1 "x" = some ⟨"x", "x"⟩ ∧
      (after (innerFirst ++ outerLater)).find? 0 "x" = some ⟨"x", "x_fromSetup"⟩ ∧
      (after (innerFirst ++ outerLater)).find? 1 "x" = some ⟨"x", "x"⟩ ∧
      "x" ∈ accessing.contextAccesses ∧
      Rewrites "x" "x" .empty accessing
        (resolveUsage (after (innerFirst ++ outerLater)) 1 .empty accessing).1 :=
  have h : (after innerFirst).find? 1 "x" = some ⟨"x", "x"⟩ := by decide +kernel
  have hmem : "x" ∈ accessing.contextAccesses := by decide +kernel
  have hstable := resolution_stable innerFirst outerLater 1 "x" _ h
  ⟨h, by decide +kernel, hstable.1, hmem, (hstable.2 .empty accessing hmem).2⟩

end ContextTree

end ContextHoist
