/-
Contexts seen as a stack.

While a function literal is converted, the only contexts that matter are its own and those
around it.  The arena keeps all contexts ever created; this file reads it as a stack of frames,
the properties of the innermost context first.

* `ContextTree.records`, `ContextTree.parents`: the two columns of the arena.
* `ContextTree.IsPath`: a list of contexts is a way outwards, each the parent of the one before.
* `ContextTree.frames`: the properties of the contexts on a way outwards.
* `ContextTree.find?_eq`: a property is looked up in the frames.
* `ContextTree.frames_eq_extend`: what a context gains, the innermost frame gains.
-/
import Mathlib.Data.List.Basic
import Mathlib.Tactic.Common
import ContextHoist.Suite.Context

namespace ContextHoist

/-- The properties of one context. -/
abbrev Frame := List Property

namespace Frames

/-- The record of a property in the nearest frame that has one. -/
def find? (fs : List Frame) (key : String) : Option Property :=
  fs.findSome? (List.find? (·.key == key))

/-- Records more properties in the innermost frame. -/
def extend (new : Frame) : List Frame → List Frame
  | [] => []
  | own :: outer => (own ++ new) :: outer

@[simp] lemma extend_nil (fs : List Frame) : extend [] fs = fs := by
  cases fs <;> simp [extend]

@[simp] lemma extend_extend (a b : Frame) (fs : List Frame) :
    extend b (extend a fs) = extend (a ++ b) fs := by
  cases fs <;> simp [extend]

lemma find?_cons (f : Frame) (fs : List Frame) (key : String) :
    find? (f :: fs) key = (f.find? (·.key == key)).or (find? fs key) := by
  simp only [find?, List.findSome?_cons]
  cases f.find? (·.key == key) <;> rfl

/-- What is found stands in a frame. -/
lemma mem_of_find? {fs : List Frame} {key : String} {p : Property} (h : find? fs key = some p) :
    p.key = key ∧ ∃ f ∈ fs, p ∈ f := by
  obtain ⟨f, hf, hfind⟩ := List.exists_of_findSome?_eq_some h
  exact ⟨by simpa using List.find?_some hfind, f, hf, List.mem_of_find?_eq_some hfind⟩

/-- Extending the innermost frame does not change what is known of other properties. -/
lemma find?_extend_of_ne {new : Frame} {key : String} (h : ∀ p ∈ new, p.key ≠ key)
    (fs : List Frame) : find? (extend new fs) key = find? fs key := by
  cases fs with
  | nil => rfl
  | cons own outer =>
    have hnew : new.find? (·.key == key) = none := by
      simpa [List.find?_eq_none] using h
    simp [extend, find?_cons, List.find?_append, hnew]

lemma find?_extend_eq_none {new own : Frame} {outer : List Frame} {key : String} :
    find? (extend new (own :: outer)) key = none ↔
      find? (own :: outer) key = none ∧ ∀ p ∈ new, p.key ≠ key := by
  simp only [extend, find?_cons, List.find?_append, Option.or_eq_none_iff, List.find?_eq_none,
    beq_iff_eq, ne_eq]
  tauto

/-- What is known stays known when the innermost frame is extended by other properties. -/
lemma find?_extend_head {own : Frame} {outer : List Frame} {p : Property} (new : Frame)
    (h : find? (own :: outer) p.key = none) :
    find? (extend (p :: new) (own :: outer)) p.key = some p := by
  rw [find?_cons, Option.or_eq_none_iff] at h
  simp [extend, find?_cons, List.find?_append, h.1]

end Frames

namespace ContextTree

/-! ### The columns of the arena -/

/-- The properties of all contexts, in order of creation. -/
def records (t : ContextTree) : List Frame :=
  t.contexts.toList.map (·.properties)

/-- The contexts around all contexts, in order of creation. -/
def parents (t : ContextTree) : List (Option ContextId) :=
  t.contexts.toList.map (·.parent)

@[simp] lemma length_records (t : ContextTree) : t.records.length = t.size := by
  simp [records, size]

@[simp] lemma length_parents (t : ContextTree) : t.parents.length = t.size := by
  simp [parents, size]

@[simp] lemma records_empty : ({} : ContextTree).records = [] := rfl

lemma properties_eq (t : ContextTree) (c : ContextId) :
    t.properties c = t.records[c]?.getD [] := by
  simp only [properties, get, records, List.getElem?_map, Array.getElem?_toList]
  cases t.contexts[c]? <;> rfl

/-- A column does not change when one entry is changed outside of it. -/
lemma map_modify_of_eq {α β : Type} {f : α → α} {g : α → β} (h : ∀ a, g (f a) = g a)
    (l : List α) (i : Nat) : (l.modify i f).map g = l.map g := by
  induction l generalizing i with
  | nil => simp
  | cons a l ih =>
    cases i with
    | zero => simp [h]
    | succ i => simp [ih]

/-- A new context has no properties, and the old ones keep theirs. -/
@[simp] lemma records_add (t : ContextTree) (parent : Option ContextId) :
    (t.add parent).records = t.records ++ [[]] := by
  cases parent with
  | none => simp [add, addRoot, records]
  | some p =>
    simp only [add, addChild, records, Array.toList_push, Array.toList_modify, List.map_append,
      List.map_cons, List.map_nil]
    rw [map_modify_of_eq]
    intro k
    rfl

@[simp] lemma parents_add (t : ContextTree) (parent : Option ContextId) :
    (t.add parent).parents = t.parents ++ [parent] := by
  cases parent with
  | none => simp [add, addRoot, parents]
  | some p =>
    simp only [add, addChild, parents, Array.toList_push, Array.toList_modify, List.map_append,
      List.map_cons, List.map_nil]
    rw [map_modify_of_eq]
    intro k
    rfl

@[simp] lemma parents_addProperty (t : ContextTree) (c : ContextId) (p : Property) :
    (t.addProperty c p).parents = t.parents := by
  simp only [addProperty, parents, Array.toList_modify]
  apply map_modify_of_eq
  intro k
  split <;> rfl

/-- A property that the context does not hold yet goes behind those that it holds. -/
lemma records_addProperty {t : ContextTree} {c : ContextId} {p : Property}
    (h : (t.properties c).find? (·.key == p.key) = none) :
    (t.addProperty c p).records = t.records.modify c (· ++ [p]) := by
  have hany : ∀ k, t.contexts[c]? = some k → k.properties.any (·.key == p.key) = false := by
    intro k hk
    simp only [properties, get, hk, Option.getD_some, List.find?_eq_none] at h
    simpa using h
  simp only [addProperty, records, Array.toList_modify]
  apply List.ext_getElem?
  intro i
  simp only [List.getElem?_map, List.getElem?_modify, Array.getElem?_toList]
  by_cases hi : c = i
  · subst hi
    cases hk : t.contexts[c]? with
    | none => simp
    | some k =>
      simp only [if_true, Option.map_eq_map, Option.map_some, hany k hk, Bool.false_eq_true,
        if_false]
  · simp [hi]

/-! ### Ways outwards -/

/-- The list is a way outwards: each context on it has the next one around it, an older one, and
the last has none. -/
def IsPath (parents : List (Option ContextId)) : List ContextId → Prop
  | [] => True
  | c :: cs => parents[c]? = some cs.head? ∧ (∀ d ∈ cs.head?, d < c) ∧ IsPath parents cs

/-- The properties of the contexts on a way outwards. -/
def frames (t : ContextTree) (path : List ContextId) : List Frame :=
  path.map t.properties

lemma IsPath.lt {parents : List (Option ContextId)} {c : ContextId} {cs : List ContextId}
    (h : IsPath parents (c :: cs)) : ∀ d ∈ cs, d < c := by
  induction cs generalizing c with
  | nil => simp
  | cons e cs ih =>
    obtain ⟨-, hlt, hcs⟩ := h
    have hec : e < c := hlt e (by simp)
    intro d hd
    rcases List.mem_cons.1 hd with rfl | hd
    · exact hec
    · exact Nat.lt_trans (ih hcs d hd) hec

lemma IsPath.lt_length {parents : List (Option ContextId)} {cs : List ContextId}
    (h : IsPath parents cs) : ∀ d ∈ cs, d < parents.length := by
  induction cs with
  | nil => simp
  | cons c cs ih =>
    intro d hd
    rcases List.mem_cons.1 hd with rfl | hd
    · exact (List.getElem?_eq_some_iff.1 h.1).1
    · exact ih h.2.2 d hd

/-- A way outwards stays one when contexts are created. -/
lemma IsPath.mono {parents parents' : List (Option ContextId)} (hp : parents <+: parents')
    {cs : List ContextId} (h : IsPath parents cs) : IsPath parents' cs := by
  obtain ⟨new, rfl⟩ := hp
  induction cs with
  | nil => trivial
  | cons c cs ih =>
    obtain ⟨hc, hlt, hcs⟩ := h
    refine ⟨?_, hlt, ih hcs⟩
    rw [List.getElem?_append_left (List.getElem?_eq_some_iff.1 hc).1, hc]

/-- The context created next is at the start of a way outwards. -/
lemma IsPath.push {parents : List (Option ContextId)} {cs : List ContextId}
    (h : IsPath parents cs) : IsPath (parents ++ [cs.head?]) (parents.length :: cs) := by
  refine ⟨by simp, ?_, h.mono (List.prefix_append _ _)⟩
  intro d hd
  exact h.lt_length d (List.mem_of_mem_head? hd)

/-- The contexts from the start of a way outwards are those on it. -/
lemma ancestry_eq {t : ContextTree} {c : ContextId} {cs : List ContextId}
    (h : IsPath t.parents (c :: cs)) : t.ancestry c = (c :: cs).map t.get := by
  induction cs generalizing c with
  | nil =>
    obtain ⟨hc, -, -⟩ := h
    simp only [parents, List.getElem?_map, Array.getElem?_toList, Option.map_eq_some_iff] at hc
    obtain ⟨k, hk, hparent⟩ := hc
    rw [ancestry]
    simp [hk, hparent, get]
  | cons d cs ih =>
    obtain ⟨hc, hlt, hcs⟩ := h
    have hdc : d < c := hlt d (by simp)
    simp only [parents, List.getElem?_map, Array.getElem?_toList, Option.map_eq_some_iff] at hc
    obtain ⟨k, hk, hparent⟩ := hc
    rw [ancestry]
    simp [hk, hparent, hdc, get, ih hcs]

/-- A property is looked up in the frames from the innermost one outwards. -/
theorem find?_eq {t : ContextTree} {c : ContextId} {cs : List ContextId}
    (h : IsPath t.parents (c :: cs)) (key : String) :
    t.find? c key = Frames.find? (t.frames (c :: cs)) key := by
  rw [find?, ancestry_eq h, Frames.find?, frames, List.findSome?_map, List.findSome?_map]
  rfl

/-! ### Records that grow -/

/-- Adds properties to the record of the first context on a way outwards. -/
def recordAt (new : Frame) (records : List Frame) : List ContextId → List Frame
  | [] => records
  | c :: _ => records.modify c (· ++ new)

@[simp] lemma recordAt_nil (records : List Frame) (path : List ContextId) :
    recordAt [] records path = records := by
  cases path with
  | nil => rfl
  | cons c cs =>
    simp only [recordAt, List.append_nil]
    exact List.modify_id c records

lemma recordAt_recordAt (a b : Frame) (records : List Frame) (path : List ContextId) :
    recordAt b (recordAt a records path) path = recordAt (a ++ b) records path := by
  cases path with
  | nil => rfl
  | cons c cs => simp [recordAt, List.modify_modify_eq, Function.comp_def]

/-- An entry that exists is changed in front of entries added later. -/
lemma modify_append {α : Type} {f : α → α} {l r : List α} {i : Nat} (h : i < l.length) :
    (l ++ r).modify i f = l.modify i f ++ r := by
  induction l generalizing i with
  | nil => exact absurd h (by simp)
  | cons a l ih =>
    cases i with
    | zero => simp
    | succ i => simp [ih (Nat.lt_of_succ_lt_succ h)]

/-- When the first context on a way outwards gains properties and new contexts are created, the
innermost frame is extended and the others stay. -/
lemma frames_eq_extend {t t' : ContextTree} {path : List ContextId} (hp : IsPath t.parents path)
    {new : Frame} {more : List Frame} (h : t'.records = recordAt new t.records path ++ more) :
    t'.frames path = Frames.extend new (t.frames path) := by
  cases path with
  | nil => rfl
  | cons c cs =>
    have hlt := hp.lt_length
    simp only [length_parents] at hlt
    have hold : ∀ d ∈ c :: cs, t'.properties d =
        ((t.records.modify c (· ++ new))[d]?).getD [] := by
      intro d hd
      rw [properties_eq, h, recordAt, List.getElem?_append_left]
      simpa using hlt d hd
    have hc : t.records[c]? = some (t.properties c) := by
      rw [properties_eq, List.getElem?_eq_getElem (by simpa using hlt c (by simp))]
      rfl
    simp only [frames, List.map_cons, Frames.extend, List.cons.injEq]
    refine ⟨?_, List.map_congr_left fun d hd => ?_⟩
    · rw [hold c (by simp), List.getElem?_modify_eq, hc]
      rfl
    · have hne : c ≠ d := (Nat.ne_of_lt (hp.lt d hd)).symm
      rw [hold d (by simp [hd]), List.getElem?_modify_ne _ _ hne, properties_eq]

end ContextTree

end ContextHoist
