/-
The contexts of a suite are a forest.

A context is linked twice, to the one around it and to those directly inside it, and both links are
numbers in one arena.  Whatever is created and recorded, the two agree, every way outwards ends, and
a property is looked up in the nearest context on that way that holds it.

* `ContextTree.Edit`: a new context or a record of a property.
* `ContextTree.Built`: contexts that were built by edits, each of which names contexts that were
  there before.
* `ContextTree.Built.exists_path`, `ContextTree.Built.children_eq`: the links.
* `ContextTree.Firsts`, `ContextTree.Built.firsts`: of each property the first record stands.
* `ContextTree.find?_eq_none_iff`, `ContextTree.find?_eq_some_iff`: the nearest context decides.
* `ContextTree.find?_addProperty_of_path`: what a record can change.
* `ContextTree.isForest`: all of it, for every sequence of edits.
-/
import Mathlib.Data.List.Nodup
import ContextHoist.Proofs.Variables

namespace ContextHoist

/-- Frames are only read through what is found in each of them. -/
lemma Frames.find?_map_congr {α : Type} {f g : α → Frame} {as : List α} {key : String}
    (h : ∀ a ∈ as, (f a).find? (·.key == key) = (g a).find? (·.key == key)) :
    find? (as.map f) key = find? (as.map g) key := by
  induction as with
  | nil => rfl
  | cons a as ih =>
    rw [List.map_cons, List.map_cons, find?_cons, find?_cons, h a List.mem_cons_self,
      ih fun b hb => h b (List.mem_cons_of_mem a hb)]

namespace ContextTree

/-! ### Edits -/

/-- What is done to contexts: one is created, inside another or inside none, or a property is
recorded in one. -/
inductive Edit where
  | create (parent : Option ContextId)
  | record (c : ContextId) (q : Property)

namespace Edit

def apply (t : ContextTree) : Edit → ContextTree
  | create parent => t.add parent
  | record c q => t.addProperty c q

/-- The context that has to be there already. -/
def named : Edit → Option ContextId
  | create parent => parent
  | record c _ => some c

/-- The number of the new context, if there is one. -/
def returned (t : ContextTree) : Edit → List ContextId
  | create _ => [t.size]
  | record _ _ => []

/-- What is around the new context, if there is one. -/
def created? : Edit → Option (Option ContextId)
  | create parent => some parent
  | record _ _ => none

/-- The property that is recorded in the given context, if one is. -/
def recorded? (c : ContextId) : Edit → Option Property
  | create _ => none
  | record d q => if d = c then some q else none

lemma filterMap_concat {α : Type} (f : Edit → Option α) (edits : List Edit) (e : Edit) :
    (edits ++ [e]).filterMap f = edits.filterMap f ++ (f e).toList := by
  rw [List.filterMap_append, List.filterMap_cons]
  cases f e <;> rfl

end Edit

/-- The edits lead from no contexts to the given ones, and the numbers are those that were returned
on the way.  An edit only names contexts whose numbers were returned before it. -/
inductive Built : List Edit → ContextTree → List ContextId → Prop
  | start : Built [] {} []
  | edit {edits : List Edit} {t : ContextTree} {ids : List ContextId} (h : Built edits t ids)
      (e : Edit) (hnamed : ∀ c ∈ e.named, c ∈ ids) :
      Built (edits ++ [e]) (e.apply t) (ids ++ e.returned t)

variable {edits : List Edit} {t : ContextTree} {ids : List ContextId}

/-! ### Numbers and links -/

@[simp] lemma size_add (t : ContextTree) (parent : Option ContextId) :
    (t.add parent).size = t.size + 1 := by
  rw [← length_parents, parents_add, List.length_append, length_parents]
  rfl

lemma parent_get (t : ContextTree) (c : ContextId) :
    (t.get c).parent = t.parents[c]?.getD none := by
  simp only [get, parents, List.getElem?_map, Array.getElem?_toList]
  cases t.contexts[c]? <;> rfl

lemma map_parent_range (t : ContextTree) :
    (List.range t.size).map (fun c => (t.get c).parent) = t.parents := by
  apply List.ext_getElem
  · simp
  · intro i _ hi
    simp [parent_get, List.getElem?_eq_getElem hi]

/-- A new context is the last one inside its parent and has none inside itself. -/
lemma children_add {parent : Option ContextId} (h : ∀ p ∈ parent, p < t.size) (c : ContextId) :
    ((t.add parent).get c).children =
      (t.get c).children ++ if parent = some c then [t.size] else [] := by
  cases parent with
  | none =>
    simp only [add, addRoot, get, Array.getElem?_push]
    by_cases hc : c = t.contexts.size <;> simp [hc]
  | some p =>
    have hp : p < t.contexts.size := h p rfl
    simp only [add, addChild, get, Array.getElem?_push, Array.size_modify, Array.getElem?_modify]
    by_cases hc : c = t.contexts.size
    · simp [hc, Nat.ne_of_lt hp]
    · by_cases hpc : p = c
      · subst hpc
        simp [hc, hp]
      · simp [hc, hpc]

lemma children_addProperty (t : ContextTree) (b : ContextId) (q : Property) (c : ContextId) :
    ((t.addProperty b q).get c).children = (t.get c).children := by
  simp only [addProperty, get, Array.getElem?_modify]
  by_cases hbc : b = c
  · cases t.contexts[c]? with
    | none => simp [hbc]
    | some k =>
      simp only [hbc, if_true, Option.map_some, Option.getD_some]
      split <;> rfl
  · simp [hbc]

lemma Built.ids_eq (h : Built edits t ids) : ids = List.range t.size := by
  induction h with
  | start => rfl
  | @edit edits t ids _ e _ ih =>
    cases e with
    | create parent => simp [Edit.apply, Edit.returned, List.range_succ, ← ih]
    | record c q => simpa [Edit.apply, Edit.returned, size_addProperty] using ih

lemma Built.parents_eq (h : Built edits t ids) : t.parents = edits.filterMap Edit.created? := by
  induction h with
  | start => rfl
  | edit _ e _ ih => cases e <;> simp [Edit.apply, Edit.created?, ih]

/-- From every context there is a way outwards that ends. -/
lemma Built.exists_path (h : Built edits t ids) {c : ContextId} (hc : c ∈ ids) :
    ∃ outer, IsPath t.parents (c :: outer) := by
  induction h generalizing c with
  | start => exact absurd hc List.not_mem_nil
  | @edit edits t ids h e hnamed ih =>
    cases e with
    | record b q =>
      obtain ⟨outer, hpath⟩ := ih (by simpa [Edit.returned] using hc)
      exact ⟨outer, by simpa [Edit.apply] using hpath⟩
    | create parent =>
      rcases List.mem_append.1 hc with hold | hnew
      · obtain ⟨outer, hpath⟩ := ih hold
        exact ⟨outer, hpath.mono (by simp [Edit.apply])⟩
      · obtain rfl : c = t.size := by simpa [Edit.returned] using hnew
        rw [Edit.apply, parents_add, ← length_parents]
        cases parent with
        | none =>
          have hnil : IsPath t.parents [] := trivial
          exact ⟨[], hnil.push⟩
        | some p =>
          obtain ⟨outer, hpath⟩ := ih (hnamed p rfl)
          exact ⟨p :: outer, hpath.push⟩

/-- The numbers of the contexts that are directly inside the given one, read off the other links. -/
def inside (parents : List (Option ContextId)) (c : ContextId) : List ContextId :=
  (List.range parents.length).filter fun d => parents[d]?.getD none = some c

lemma inside_concat (parents : List (Option ContextId)) (parent : Option ContextId)
    (c : ContextId) : inside (parents ++ [parent]) c =
      inside parents c ++ if parent = some c then [parents.length] else [] := by
  have hold : ∀ d ∈ List.range parents.length,
      decide ((parents ++ [parent])[d]?.getD none = some c) =
        decide (parents[d]?.getD none = some c) := by
    intro d hd
    rw [List.getElem?_append_left (List.mem_range.1 hd)]
  rw [inside, inside, List.length_append, List.length_singleton, List.range_succ,
    List.filter_append, List.filter_congr hold, List.filter_singleton]
  simp

lemma Built.children_eq (h : Built edits t ids) (c : ContextId) :
    (t.get c).children = inside t.parents c := by
  induction h with
  | start => rfl
  | @edit edits t ids h e hnamed ih =>
    cases e with
    | record b q => rw [Edit.apply, parents_addProperty, children_addProperty, ih]
    | create parent =>
      have hparent : ∀ p ∈ parent, p < t.size := by
        intro p hp
        simpa [h.ids_eq] using hnamed p hp
      rw [Edit.apply, children_add hparent, parents_add, inside_concat, length_parents, ih]

/-! ### Records -/

/-- The context itself holds a record of the property. -/
def Holds (t : ContextTree) (c : ContextId) (key : String) : Prop :=
  key ∈ (t.properties c).map (·.key)

lemma find?_properties_eq_none {c : ContextId} {key : String} :
    (t.properties c).find? (·.key == key) = none ↔ ¬ t.Holds c key := by
  simp [Holds, List.find?_eq_none]

/-- A record of a property that the context holds changes nothing. -/
lemma addProperty_of_holds {c : ContextId} {q : Property} (h : t.Holds c q.key) :
    t.addProperty c q = t := by
  obtain ⟨p, hp, hkey⟩ := List.mem_map.1 h
  have hcontexts : (t.addProperty c q).contexts = t.contexts := by
    apply Array.ext_getElem?
    intro i
    rw [addProperty, Array.getElem?_modify]
    split
    · subst i
      cases hk : t.contexts[c]? with
      | none => rfl
      | some k =>
        have hany : k.properties.any (·.key == q.key) = true := by
          rw [properties, get, hk, Option.getD_some] at hp
          exact List.any_eq_true.2 ⟨p, hp, by simpa using hkey⟩
        rw [Option.map_some, if_pos hany]
    · rfl
  cases t
  exact congrArg ContextTree.mk hcontexts

lemma properties_addProperty_of_ne {b c : ContextId} (h : b ≠ c) (q : Property) :
    (t.addProperty b q).properties c = t.properties c := by
  by_cases hq : t.Holds b q.key
  · rw [addProperty_of_holds hq]
  · simp [properties_addProperty (find?_properties_eq_none.2 hq), Ne.symm h]

/-- The second records are the first ones of each property among the given ones, in order. -/
structure Firsts (given kept : List Property) : Prop where
  nodup : (kept.map (·.key)).Nodup
  keys : kept.map (·.key) = (given.map (·.key)).eraseDups
  find? : ∀ key, kept.find? (·.key == key) = given.find? (·.key == key)

namespace Firsts

variable {given kept : List Property} {q : Property}

lemma mem_keys (h : Firsts given kept) {key : String} :
    key ∈ given.map (·.key) ↔ key ∈ kept.map (·.key) := by
  rw [h.keys, List.mem_eraseDups]

/-- A record of a property that there is a record of is not kept. -/
lemma drop (h : Firsts given kept) (hq : q.key ∈ kept.map (·.key)) :
    Firsts (given ++ [q]) kept where
  nodup := h.nodup
  keys := by
    have hgiven := h.mem_keys.2 hq
    have hnone : (List.map (·.key) [q]).removeAll (given.map (·.key)) = [] := by
      simpa [List.removeAll] using hgiven
    rw [h.keys, List.map_append, List.eraseDups_append, hnone]
    simp
  find? := by
    intro key
    rw [h.find?, List.find?_append]
    cases hfound : given.find? (·.key == key) with
    | some p => rfl
    | none =>
      have hne : q.key ≠ key := by
        rintro rfl
        obtain ⟨p, hp, hkey⟩ := List.mem_map.1 (h.mem_keys.2 hq)
        exact List.find?_eq_none.1 hfound p hp (by simpa using hkey)
      simp [hne]

/-- A record of another property is kept behind the others. -/
lemma keep (h : Firsts given kept) (hq : q.key ∉ kept.map (·.key)) :
    Firsts (given ++ [q]) (kept ++ [q]) where
  nodup := by
    rw [List.map_append, List.nodup_append]
    refine ⟨h.nodup, by simp, ?_⟩
    simpa using hq
  keys := by
    have hgiven := h.mem_keys.not.2 hq
    have hnew : (List.map (·.key) [q]).removeAll (given.map (·.key)) = [q.key] := by
      simpa [List.removeAll] using hgiven
    rw [List.map_append, h.keys, List.map_append, List.eraseDups_append, hnew]
    rfl
  find? := by
    intro key
    rw [List.find?_append, h.find?, List.find?_append]

end Firsts

/-- Of each property the first record in a context stands. -/
lemma Built.firsts (h : Built edits t ids) (c : ContextId) :
    Firsts (edits.filterMap (Edit.recorded? c)) (t.properties c) := by
  induction h with
  | start => exact ⟨List.nodup_nil, rfl, fun _ => rfl⟩
  | @edit edits t ids h e hnamed ih =>
    cases e with
    | create parent =>
      rw [Edit.filterMap_concat, Edit.recorded?, Option.toList_none, List.append_nil, Edit.apply,
        properties_add]
      exact ih
    | record b q =>
      rw [Edit.filterMap_concat, Edit.recorded?, Edit.apply]
      by_cases hbc : b = c
      · subst hbc
        rw [if_pos rfl, Option.toList_some]
        by_cases hq : t.Holds b q.key
        · rw [addProperty_of_holds hq]
          exact ih.drop hq
        · have hb : b < t.size := by simpa [h.ids_eq] using hnamed b rfl
          rw [properties_addProperty (find?_properties_eq_none.2 hq), if_pos ⟨rfl, hb⟩]
          exact ih.keep hq
      · rw [if_neg hbc, Option.toList_none, List.append_nil, properties_addProperty_of_ne hbc]
        exact ih

/-! ### Looking up -/

variable {c : ContextId} {outer : List ContextId}

/-- Nothing is found if no context on the way outwards holds the property. -/
lemma find?_eq_none_iff (h : IsPath t.parents (c :: outer)) {key : String} :
    t.find? c key = none ↔ ∀ d ∈ c :: outer, ¬ t.Holds d key := by
  rw [find?_eq h, Frames.find?, frames, List.findSome?_map, List.findSome?_eq_none_iff]
  exact forall₂_congr fun d _ => find?_properties_eq_none

/-- If a context holds a property only once, then that record is found in it. -/
lemma find?_properties_eq_some (hnodup : ((t.properties c).map (·.key)).Nodup) {key : String}
    {q : Property} : (t.properties c).find? (·.key == key) = some q ↔
      q ∈ t.properties c ∧ q.key = key := by
  constructor
  · intro h
    exact ⟨List.mem_of_find?_eq_some h, by simpa using List.find?_some h⟩
  · rintro ⟨hq, rfl⟩
    cases hfound : (t.properties c).find? (·.key == q.key) with
    | none => exact absurd (List.mem_map_of_mem hq) (find?_properties_eq_none.1 hfound)
    | some p =>
      have hkey : p.key = q.key := by simpa using List.find?_some hfound
      rw [List.inj_on_of_nodup_map hnodup (List.mem_of_find?_eq_some hfound) hq hkey]

/-- What is found is the record of the nearest context on the way outwards that holds the
property. -/
lemma find?_eq_some_iff (h : IsPath t.parents (c :: outer))
    (hnodup : ∀ d, ((t.properties d).map (·.key)).Nodup) {key : String} {q : Property} :
    t.find? c key = some q ↔ ∃ near d far, c :: outer = near ++ d :: far ∧
      (∀ e ∈ near, ¬ t.Holds e key) ∧ q ∈ t.properties d ∧ q.key = key := by
  rw [find?_eq h, Frames.find?, frames, List.findSome?_map, List.findSome?_eq_some_iff]
  simp only [Function.comp_apply, find?_properties_eq_some (hnodup _), find?_properties_eq_none]
  exact exists₃_congr fun near d far => and_congr_right fun _ => and_comm

/-- A record can only change what is found of its own property, on ways outwards through its
context, and only if the context does not hold the property yet. -/
lemma find?_addProperty_of_path (h : IsPath t.parents (c :: outer)) {b : ContextId} {q : Property}
    {key : String} (hne : (t.addProperty b q).find? c key ≠ t.find? c key) :
    b ∈ c :: outer ∧ q.key = key ∧ ¬ t.Holds b key := by
  by_contra hnot
  apply hne
  have hsame : ∀ d ∈ c :: outer, ((t.addProperty b q).properties d).find? (·.key == key) =
      (t.properties d).find? (·.key == key) := by
    intro d hd
    by_cases hbd : b = d
    · subst hbd
      by_cases hq : t.Holds b q.key
      · rw [addProperty_of_holds hq]
      · have hkey : q.key ≠ key := fun hkey => hnot ⟨hd, hkey, hkey ▸ hq⟩
        rw [properties_addProperty (find?_properties_eq_none.2 hq), List.find?_append]
        split <;> simp [hkey]
    · rw [properties_addProperty_of_ne hbd]
  have h' : IsPath (t.addProperty b q).parents (c :: outer) := by rwa [parents_addProperty]
  rw [find?_eq h, find?_eq h', frames, frames]
  exact Frames.find?_map_congr hsame

/-- What a look-up from a context finds, if the given contexts are those around it. -/
structure FindsNearest (t : ContextTree) (c : ContextId) (outer : List ContextId) : Prop where
  path : IsPath t.parents (c :: outer)
  none_iff : ∀ key, t.find? c key = none ↔ ∀ d ∈ c :: outer, ¬ t.Holds d key
  some_iff : ∀ key q, t.find? c key = some q ↔ ∃ near d far, c :: outer = near ++ d :: far ∧
    (∀ e ∈ near, ¬ t.Holds e key) ∧ q ∈ t.properties d ∧ q.key = key
  /-- Only records in the context itself or around it change anything, and only for properties that
  were not held where they are recorded. -/
  changes : ∀ b q key, (t.addProperty b q).find? c key ≠ t.find? c key →
    b ∈ c :: outer ∧ q.key = key ∧ ¬ t.Holds b key

/-- The contexts are a forest, and the edits say what is in it. -/
structure IsForest (edits : List Edit) (t : ContextTree) (ids : List ContextId) : Prop where
  /-- Contexts are numbered in order of creation. -/
  ids_eq : ids = List.range t.size
  parents_eq : ids.map (fun c => (t.get c).parent) = edits.filterMap Edit.created?
  parent_lt : ∀ c ∈ ids, ∀ p, (t.get c).parent = some p → p < c
  children_eq : ∀ c ∈ ids, (t.get c).children = ids.filter fun d => (t.get d).parent = some c
  firsts : ∀ c ∈ ids, Firsts (edits.filterMap (Edit.recorded? c)) (t.properties c)
  nearest : ∀ c ∈ ids, ∃ outer, t.FindsNearest c outer

/-- Whatever is created and recorded, the contexts are a forest in which the nearest context decides
what is found. -/
theorem isForest (h : Built edits t ids) : IsForest edits t ids where
  ids_eq := h.ids_eq
  parents_eq := by
    rw [← h.parents_eq, h.ids_eq, map_parent_range]
  parent_lt := by
    intro c hc p hp
    obtain ⟨outer, hpath⟩ := h.exists_path hc
    rw [parent_get, hpath.1] at hp
    exact hpath.2.1 p hp
  children_eq := by
    intro c _
    rw [h.children_eq, inside, length_parents, h.ids_eq]
    simp only [parent_get]
  firsts c _ := h.firsts c
  nearest := by
    intro c hc
    obtain ⟨outer, hpath⟩ := h.exists_path hc
    exact ⟨outer, hpath, fun key => find?_eq_none_iff hpath,
      fun key q => find?_eq_some_iff hpath fun d => (h.firsts d).nodup,
      fun b q key => find?_addProperty_of_path hpath⟩

/-- Two contexts inside a third one, with a property that is recorded in the outer one and twice in
one of the inner ones. -/
theorem isForest_siblings :
    ∃ t, Built [.create none, .create (some 0), .create (some 0), .record 0 ⟨"user", "user"⟩,
        .record 1 ⟨"user", "user_fromSetup"⟩, .record 1 ⟨"user", "other"⟩] t [0, 1, 2] ∧
      IsForest [.create none, .create (some 0), .create (some 0), .record 0 ⟨"user", "user"⟩,
        .record 1 ⟨"user", "user_fromSetup"⟩, .record 1 ⟨"user", "other"⟩] t [0, 1, 2] := by
  have h₀ := Built.start.edit (.create none) (by simp [Edit.named])
  have h₁ := h₀.edit (.create (some 0)) (by decide)
  have h₂ := h₁.edit (.create (some 0)) (by decide)
  have h₃ := h₂.edit (.record 0 ⟨"user", "user"⟩) (by decide)
  have h₄ := h₃.edit (.record 1 ⟨"user", "user_fromSetup"⟩) (by decide)
  have h₅ := h₄.edit (.record 1 ⟨"user", "other"⟩) (by decide)
  exact ⟨_, h₅, isForest h₅⟩

end ContextTree

end ContextHoist
