/-
Which variable a property has in a callback, and what a setup records.

A setup goes through the properties of its callback one after the other and records as it goes.  A
record is of a property that has no variable yet, so it changes nothing for the properties that
come later: each is looked up as if nothing had been recorded.

* `ContextTree.find?_addProperty`: a record of another property changes nothing.
* `setupRecord`: the record of a property in a setup, an old one or a new one.
* `setupResolution_eq_map`, `find?_setupResolution`: each property goes by its record.
* `ContextTree.fresh`, `properties_hoistSetup`: what a setup records, and where.
* `hoistSetup_eq_resolveCallback`: a setup callback is rewritten as a test would be afterwards.
-/
import ContextHoist.Proofs.Resolution

namespace ContextHoist

namespace ContextTree

/-! ### Records -/

/-- What a context holds after a record of a property that it does not hold yet. -/
lemma properties_addProperty {t : ContextTree} {c : ContextId} {q : Property}
    (h : (t.properties c).find? (·.key == q.key) = none) (d : ContextId) :
    (t.addProperty c q).properties d =
      t.properties d ++ if d = c ∧ c < t.size then [q] else [] := by
  rw [properties_eq, properties_eq, records_addProperty h, List.getElem?_modify]
  by_cases hd : c = d
  · subst hd
    by_cases hlt : c < t.size
    · rw [List.getElem?_eq_getElem (by simpa using hlt)]
      simp [hlt]
    · rw [List.getElem?_eq_none (by simpa using hlt)]
      simp [hlt]
  · simp [hd, Ne.symm hd]

lemma size_addProperty (t : ContextTree) (c : ContextId) (q : Property) :
    (t.addProperty c q).size = t.size := by
  simp [addProperty, size]

/-- A record of one property changes nothing for the others, from wherever they are looked up. -/
lemma find?_addProperty {t : ContextTree} {c : ContextId} {q : Property} {p : String}
    (h : t.find? c q.key = none) (hne : q.key ≠ p) (d : ContextId) :
    (t.addProperty c q).find? d p = t.find? d p := by
  have hown : (t.properties c).find? (·.key == q.key) = none := by
    rw [find?_eq_or, Option.or_eq_none_iff] at h
    exact h.1
  have houter : ∀ e, (t.addProperty c q).outer? e = t.outer? e := by
    intro e
    rw [outer?, outer?, parents_addProperty]
  -- the induction follows the way outwards
  induction d using Nat.strongRecOn with
  | ind d ih =>
    have hproperties : ((t.addProperty c q).properties d).find? (·.key == p) =
        (t.properties d).find? (·.key == p) := by
      rw [properties_addProperty hown, List.find?_append]
      split <;> simp [hne]
    rw [find?_eq_or, find?_eq_or, hproperties, houter]
    cases ho : t.outer? d with
    | none => rfl
    | some e => rw [Option.bind_some, Option.bind_some, ih e (lt_of_outer? ho)]

/-- A record of a property that is not found is found from then on. -/
lemma find?_addProperty_self {t : ContextTree} {c : ContextId} {q : Property}
    (h : t.find? c q.key = none) (hc : c < t.size) :
    (t.addProperty c q).find? c q.key = some q := by
  have hown : (t.properties c).find? (·.key == q.key) = none := by
    rw [find?_eq_or, Option.or_eq_none_iff] at h
    exact h.1
  rw [find?_eq_or, properties_addProperty hown, List.find?_append, hown]
  simp [hc]

/-- The properties that a setup records if its callback accesses the given ones: those that are not
found.  The scopes are those seen from inside the callback. -/
def fresh (t : ContextTree) (c : ContextId) (inner : Scopes) (ps : List String) : List Property :=
  (ps.filter fun p => (t.find? c p).isNone).map fun p => ⟨p, hoistedName inner p⟩

lemma mem_keys_fresh {t : ContextTree} {c : ContextId} {inner : Scopes} {ps : List String}
    {p : String} : p ∈ (t.fresh c inner ps).map (·.key) ↔ p ∈ ps ∧ t.find? c p = none := by
  simp [fresh]

/-- After a record of a property that does not come up again the same ones are missing. -/
lemma fresh_addProperty {t : ContextTree} {c : ContextId} {q : Property} {ps : List String}
    (h : t.find? c q.key = none) (hq : q.key ∉ ps) (inner : Scopes) :
    (t.addProperty c q).fresh c inner ps = t.fresh c inner ps := by
  have hsame : ∀ p ∈ ps, (t.addProperty c q).find? c p = t.find? c p := fun p hp =>
    find?_addProperty h (fun heq => hq (heq ▸ hp)) c
  have hfilter : (ps.filter fun p => ((t.addProperty c q).find? c p).isNone) =
      ps.filter fun p => (t.find? c p).isNone :=
    List.filter_congr fun p hp => by rw [hsame p hp]
  rw [fresh, fresh, hfilter]

end ContextTree

/-! ### Setups -/

/-- The record by which a setup replaces the accesses to a property: the one that is found, or a new
one.  The scopes are those seen from inside the callback. -/
def setupRecord (inner : Scopes) (contexts : ContextTree) (c : ContextId) (p : String) : Property :=
  (contexts.find? c p).getD ⟨p, hoistedName inner p⟩

/-- Each property of a setup has the variable that it would have by itself. -/
lemma setupResolution_eq_map (inner : Scopes) (c : ContextId) {ps : List String} (hps : ps.Nodup)
    (t : ContextTree) :
    (setupResolution inner c ps t).1 = ps.map fun p => (p, (setupRecord inner t c p).name) := by
  induction ps generalizing t with
  | nil => rfl
  | cons p ps ih =>
    obtain ⟨hp, hps⟩ := List.nodup_cons.1 hps
    rw [setupResolution, List.map_cons]
    cases hfound : t.find? c p with
    | some found => simp [ih hps, setupRecord, hfound]
    | none =>
      have hsame : ∀ q ∈ ps, setupRecord inner
          (t.addProperty c ⟨p, hoistedName inner p⟩) c q = setupRecord inner t c q := by
        intro q hq
        have hne : p ≠ q := fun heq => hp (heq ▸ hq)
        rw [setupRecord, setupRecord, ContextTree.find?_addProperty hfound hne]
      simp only [ih hps, setupRecord, hfound, Option.getD_none, List.cons.injEq, true_and]
      exact List.map_congr_left fun q hq => congrArg (fun d => (q, d.name)) (hsame q hq)

/-- Afterwards each property of a setup is found in that record. -/
lemma find?_setupResolution (inner : Scopes) {c : ContextId} {ps : List String} {t : ContextTree}
    (hc : c < t.size) {p : String} (hp : p ∈ ps) :
    (setupResolution inner c ps t).2.find? c p = some (setupRecord inner t c p) := by
  induction ps generalizing t with
  | nil => exact absurd hp List.not_mem_nil
  | cons q ps ih =>
    rw [setupResolution]
    by_cases hpq : p = q
    · subst hpq
      cases hfound : t.find? c p with
      | some found =>
        rw [setupRecord, hfound]
        exact (ContextTree.extends_setupResolution inner c ps t).find? hfound
      | none =>
        rw [setupRecord, hfound]
        exact (ContextTree.extends_setupResolution inner c ps _).find?
          (ContextTree.find?_addProperty_self hfound hc)
    · have hmem : p ∈ ps := (List.mem_cons.1 hp).resolve_left hpq
      cases hfound : t.find? c q with
      | some found => exact ih hc hmem
      | none =>
        have hsame := ContextTree.find?_addProperty (q := ⟨q, hoistedName inner q⟩) hfound
          (Ne.symm hpq) c
        refine (ih (by rwa [ContextTree.size_addProperty]) hmem).trans ?_
        rw [setupRecord, setupRecord, hsame]

/-- What the contexts hold after a setup has gone through its properties. -/
lemma properties_setupResolution (inner : Scopes) (c : ContextId) {ps : List String}
    (hps : ps.Nodup) (t : ContextTree) (d : ContextId) :
    (setupResolution inner c ps t).2.properties d =
      t.properties d ++ if d = c ∧ c < t.size then t.fresh c inner ps else [] := by
  induction ps generalizing t with
  | nil => simp [setupResolution, ContextTree.fresh]
  | cons p ps ih =>
    obtain ⟨hp, hps⟩ := List.nodup_cons.1 hps
    rw [setupResolution]
    cases hfound : t.find? c p with
    | some found => simp [ih hps, ContextTree.fresh, hfound]
    | none =>
      let q : Property := ⟨p, hoistedName inner p⟩
      have hown : (t.properties c).find? (·.key == q.key) = none := by
        rw [ContextTree.find?_eq_or, Option.or_eq_none_iff] at hfound
        exact hfound.1
      have hnew : t.fresh c inner (p :: ps) = q :: t.fresh c inner ps := by
        simp [ContextTree.fresh, hfound, q]
      have hrest : (t.addProperty c q).fresh c inner ps = t.fresh c inner ps :=
        ContextTree.fresh_addProperty hfound hp inner
      refine (ih hps (t.addProperty c q)).trans ?_
      rw [hrest, ContextTree.properties_addProperty hown, ContextTree.size_addProperty, hnew]
      split <;> simp

/-- A setup records the properties of its callback that are not found, in the order in which the
callback accesses them, and it records nothing elsewhere. -/
theorem properties_hoistSetup {contexts : ContextTree} {c : ContextId} (hc : c < contexts.size)
    (scopes : Scopes) (callback : Tree) :
    (hoistSetup contexts c scopes callback).2.properties c = contexts.properties c ++
        contexts.fresh c (scopes.enterFunction callback) callback.contextAccesses ∧
      ∀ d, d ≠ c →
        (hoistSetup contexts c scopes callback).2.properties d = contexts.properties d := by
  have h := properties_setupResolution (scopes.enterFunction callback) c
    (nodup_contextAccesses callback) contexts
  refine ⟨?_, fun d hd => ?_⟩
  · exact (h c).trans (by simp [hc])
  · exact (h d).trans (by simp [hd])

/-- A setup callback is rewritten with the variables that a test would find after the setup. -/
theorem hoistSetup_eq_resolveCallback {contexts : ContextTree} {c : ContextId}
    (hc : c < contexts.size) (scopes : Scopes) (callback : Tree) :
    (hoistSetup contexts c scopes callback).1 =
      resolveCallback (scopes.enterFunction callback)
        (usageResolution (hoistSetup contexts c scopes callback).2 c callback.contextAccesses)
        callback := by
  have hresolution : (setupResolution (scopes.enterFunction callback) c callback.contextAccesses
      contexts).1 = usageResolution (hoistSetup contexts c scopes callback).2 c
        callback.contextAccesses := by
    rw [setupResolution_eq_map _ c (nodup_contextAccesses callback), usageResolution,
      ← List.filterMap_eq_map]
    refine List.filterMap_congr fun p hp => ?_
    rw [hoistSetup, find?_setupResolution _ hc hp]
    rfl
  rw [← hresolution]
  rfl

end ContextHoist
