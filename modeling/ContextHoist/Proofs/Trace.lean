/-
Traces: what the conversion makes of the callbacks and the function literals it finds.

Whether a property has a variable, and which one, depends only on the frames of the function
literals around a callback at the time when it is reached.  So a trace can be computed from an
outline alone, with the frames as a stack: a setup extends the innermost frame, a function
literal puts an empty frame on top of the stack for what it holds.

* `Handled`, `Entered`: a callback and a function literal with what becomes of them.
* `Outline.gained`: the properties that a phrase records in the innermost frame.
* `Outline.annotate`: the trace of an outline.
-/
import ContextHoist.Suite.Hoist
import ContextHoist.Proofs.Contexts
import ContextHoist.Proofs.Outline

namespace ContextHoist

/-- A callback of a setup or a test, with what the conversion makes of it. -/
structure Handled where
  /-- The callback as it is found. -/
  tree : Tree
  /-- The scopes around the callback. -/
  scopes : Scopes
  /-- The properties that it is the first to set up. -/
  recorded : List Property
  /-- The variables that are written in place of its accesses, by property. -/
  written : Resolution

namespace Handled

/-- The callback after its variables have made way and its accesses are replaced. -/
def result (k : Handled) : Tree :=
  (resolveCallback (k.scopes.enterFunction k.tree) k.written k.tree).1

/-- The new names of its variables that had to make way. -/
def renamedLocals (k : Handled) : List String :=
  (resolveCallback (k.scopes.enterFunction k.tree) k.written k.tree).2.renamedLocals

/-- The properties it accesses that have no variable. -/
def unresolved (k : Handled) : List String :=
  k.tree.contextAccesses.filter fun p => (k.written.lookup p).isNone

end Handled

/-- A function literal with a context of its own. -/
structure Entered where
  /-- The function literal as it is found. -/
  tree : Tree
  /-- The properties recorded in its context in the end, the earliest first. -/
  hoisted : List Property

/-- The variables declared in a function literal. -/
def Entered.names (e : Entered) : List String :=
  e.hoisted.map (·.name)

/-- A trace of the conversion. -/
abbrev Trace := Outline Handled Entered

/-! ### One callback -/

/-- The properties that a setup callback records if it accesses the given ones: those that no
frame holds.  The scopes are those seen from inside the callback. -/
def freshProperties (inner : Scopes) (fs : List Frame) (ps : List String) : Frame :=
  (ps.filter fun p => (Frames.find? fs p).isNone).map fun p => ⟨p, hoistedName inner p⟩

/-- The variables for those of the given properties that a frame holds. -/
def frameResolution (fs : List Frame) (ps : List String) : Resolution :=
  ps.filterMap fun p => (Frames.find? fs p).map fun found => (p, found.name)

/-- When each of some properties is paired with the variable of its record, if it has one, then
looking a property up in the pairs gives that variable. -/
lemma lookup_records {find : String → Option Property} {ps : List String} {p : String}
    (h : p ∈ ps) :
    (ps.filterMap fun p => (find p).map fun found => (p, found.name)).lookup p =
      (find p).map (·.name) := by
  induction ps with
  | nil => exact absurd h List.not_mem_nil
  | cons q ps ih =>
    by_cases hpq : p = q
    · subst hpq
      cases hfound : find p with
      | some found => simp [hfound]
      | none =>
        -- then no later pair is one of `p` either
        simp only [List.filterMap_cons, hfound, Option.map_none]
        rw [List.lookup_eq_none_iff]
        rintro ⟨p', x⟩ hmem
        simp only [List.mem_filterMap, Option.map_eq_some_iff, Prod.mk.injEq] at hmem
        obtain ⟨q, -, found, hq, rfl, -⟩ := hmem
        rw [bne_iff_ne]
        rintro rfl
        rw [hfound] at hq
        exact absurd hq (by simp)
    · have hmem := ih ((List.mem_cons.1 h).resolve_left hpq)
      have hne : (p == q) = false := beq_eq_false_iff_ne.2 hpq
      cases hfound : find q with
      | some found => simpa [hfound, List.lookup_cons, hne] using hmem
      | none => simpa [hfound] using hmem

/-- A property that is looked up with others has the variable of the nearest frame. -/
lemma lookup_frameResolution {fs : List Frame} {ps : List String} {p : String} (h : p ∈ ps) :
    (frameResolution fs ps).lookup p = (Frames.find? fs p).map (·.name) :=
  lookup_records h

/-- Every variable that is written is found in a frame. -/
lemma find?_of_lookup_frameResolution {fs : List Frame} {ps : List String} {p x : String}
    (h : (frameResolution fs ps).lookup p = some x) :
    ∃ found, Frames.find? fs p = some found ∧ found.name = x := by
  obtain ⟨before, after, heq, -⟩ := List.lookup_eq_some_iff.1 h
  have hmem : (p, x) ∈ frameResolution fs ps := by simp [heq]
  simp only [frameResolution, List.mem_filterMap, Option.map_eq_some_iff, Prod.mk.injEq] at hmem
  obtain ⟨q, -, found, hfound, rfl, hname⟩ := hmem
  exact ⟨found, hfound, hname⟩

lemma nodup_eraseDups (l : List String) : l.eraseDups.Nodup := by
  generalize hn : l.length = n
  induction n using Nat.strongRecOn generalizing l with
  | ind n ih =>
    cases l with
    | nil => exact List.nodup_nil
    | cons a l =>
      rw [List.eraseDups_cons, List.nodup_cons]
      refine ⟨by simp, ih _ ?_ _ rfl⟩
      rw [← hn]
      exact Nat.lt_succ_of_le (List.length_filter_le _ _)

/-- A callback accesses each property once, seen as a list. -/
lemma nodup_contextAccesses (t : Tree) : t.contextAccesses.Nodup := by
  unfold Tree.contextAccesses
  split
  · exact nodup_eraseDups _
  · exact nodup_eraseDups _
  · exact List.nodup_nil

lemma mem_freshProperties {inner : Scopes} {fs : List Frame} {ps : List String} {q : Property} :
    q ∈ freshProperties inner fs ps ↔
      q.key ∈ ps ∧ Frames.find? fs q.key = none ∧ q.name = hoistedName inner q.key := by
  simp only [freshProperties, List.mem_map, List.mem_filter, Option.isNone_iff_eq_none]
  constructor
  · rintro ⟨p, ⟨hp, hnone⟩, rfl⟩
    exact ⟨hp, hnone, rfl⟩
  · rintro ⟨hp, hnone, hname⟩
    exact ⟨q.key, ⟨hp, hnone⟩, by rw [← hname]⟩

namespace Outline

/-! ### Whole outlines -/

/-- The properties recorded in the innermost frame. -/
def gained (scopes : Scopes) (fs : List Frame) : Outline Tree Tree → Frame
  | done => []
  | setup callback rest =>
    let new := freshProperties (scopes.enterFunction callback) fs callback.contextAccesses
    new ++ rest.gained scopes (Frames.extend new fs)
  | usage _ rest => rest.gained scopes fs
  | literal _ _ rest => rest.gained scopes fs

/-- The trace of an outline in the given scopes and frames. -/
def annotate (scopes : Scopes) (fs : List Frame) : Outline Tree Tree → Trace
  | done => done
  | setup callback rest =>
    let new := freshProperties (scopes.enterFunction callback) fs callback.contextAccesses
    setup ⟨callback, scopes, new, frameResolution (Frames.extend new fs) callback.contextAccesses⟩
      (rest.annotate scopes (Frames.extend new fs))
  | usage callback rest =>
    usage ⟨callback, scopes, [], frameResolution fs callback.contextAccesses⟩
      (rest.annotate scopes fs)
  | literal t inner rest =>
    literal ⟨t, inner.gained (scopes.enterFunction t) ([] :: fs)⟩
      (inner.annotate (scopes.enterFunction t) ([] :: fs)) (rest.annotate scopes fs)

@[simp] lemma gained_append (scopes : Scopes) (fs : List Frame) (a b : Outline Tree Tree) :
    (a ++ b).gained scopes fs =
      a.gained scopes fs ++ b.gained scopes (Frames.extend (a.gained scopes fs) fs) := by
  induction a generalizing fs with
  | done => simp [gained]
  | setup k rest ih => simp [gained, ih]
  | usage k rest ih => simp [gained, ih]
  | literal t inner rest _ ih => simp [gained, ih]

@[simp] lemma annotate_append (scopes : Scopes) (fs : List Frame) (a b : Outline Tree Tree) :
    (a ++ b).annotate scopes fs =
      a.annotate scopes fs ++ b.annotate scopes (Frames.extend (a.gained scopes fs) fs) := by
  induction a generalizing fs with
  | done => simp [annotate, gained]
  | setup k rest ih => simp [annotate, gained, ih]
  | usage k rest ih => simp [annotate, gained, ih]
  | literal t inner rest _ ih => simp [annotate, gained, ih]

/-- What a frame gains is what the setups of the phrase record. -/
lemma gained_eq (scopes : Scopes) (fs : List Frame) (o : Outline Tree Tree) :
    o.gained scopes fs = (o.annotate scopes fs).setups.flatMap (·.recorded) := by
  induction o generalizing fs with
  | done => rfl
  | setup k rest ih => simp [gained, annotate, setups, ih]
  | usage k rest ih => simp [gained, annotate, setups, ih]
  | literal t inner rest _ ih => simp [gained, annotate, setups, ih]

/-- The callbacks of a trace are those of the outline. -/
@[simp] lemma handled_annotate (scopes : Scopes) (fs : List Frame) (o : Outline Tree Tree) :
    (o.annotate scopes fs).handled.map (·.tree) = o.handled := by
  induction o generalizing scopes fs with
  | done => rfl
  | setup k rest ih => simp [annotate, handled, ih]
  | usage k rest ih => simp [annotate, handled, ih]
  | literal t inner rest ihi ih => simp [annotate, handled, ihi, ih]

/-- A function literal of a trace is one of the outline, and its trace starts with an empty
frame. -/
lemma mem_literals_annotate {scopes : Scopes} {fs : List Frame} {o : Outline Tree Tree}
    {e : Entered} {a : Trace} (h : (e, a) ∈ (o.annotate scopes fs).literals) :
    ∃ t inner scopes' fs', (t, inner) ∈ o.literals ∧
      e = ⟨t, inner.gained (Scopes.enterFunction scopes' t) ([] :: fs')⟩ ∧
      a = inner.annotate (Scopes.enterFunction scopes' t) ([] :: fs') := by
  induction o generalizing scopes fs with
  | done => exact absurd h List.not_mem_nil
  | setup callback rest ih => exact ih h
  | usage callback rest ih => exact ih h
  | literal t inner rest ihi ih =>
    rcases List.mem_cons.1 h with heq | h
    · obtain ⟨rfl, rfl⟩ := Prod.mk.inj heq
      exact ⟨t, inner, scopes, fs, .head _, rfl, rfl⟩
    · rcases List.mem_append.1 h with h | h
      · obtain ⟨u, o, scopes', fs', hmem, he, ha⟩ := ihi h
        exact ⟨u, o, scopes', fs', .tail _ (List.mem_append_left _ hmem), he, ha⟩
      · obtain ⟨u, o, scopes', fs', hmem, he, ha⟩ := ih h
        exact ⟨u, o, scopes', fs', .tail _ (List.mem_append_right _ hmem), he, ha⟩

/-- A setup of a trace is one of the outline, and what it records are properties that it
accesses, in variables whose names are chosen in the scopes around it. -/
lemma mem_setups_annotate {scopes : Scopes} {fs : List Frame} {o : Outline Tree Tree}
    {k : Handled} (h : k ∈ (o.annotate scopes fs).setups) :
    k.tree ∈ o.setups ∧ ∀ q ∈ k.recorded, q.key ∈ k.tree.contextAccesses ∧
      q.name = hoistedName (scopes.enterFunction k.tree) q.key := by
  induction o generalizing fs with
  | done => exact absurd h List.not_mem_nil
  | setup callback rest ih =>
    rcases List.mem_cons.1 h with rfl | h
    · refine ⟨.head _, fun q hq => ?_⟩
      obtain ⟨haccess, -, hname⟩ := mem_freshProperties.1 hq
      exact ⟨haccess, hname⟩
    · obtain ⟨hmem, hrecorded⟩ := ih h
      exact ⟨.tail _ hmem, hrecorded⟩
  | usage callback rest ih => exact ih h
  | literal t inner rest _ ih => exact ih h

/-- A property is recorded for a setup of the phrase that accesses it. -/
lemma exists_setup_of_mem_gained {scopes : Scopes} {fs : List Frame} {o : Outline Tree Tree}
    {q : Property} (h : q ∈ o.gained scopes fs) :
    ∃ callback ∈ o.setups, q.key ∈ callback.contextAccesses := by
  induction o generalizing fs with
  | done => exact absurd h List.not_mem_nil
  | setup callback rest ih =>
    rw [gained, List.mem_append] at h
    rcases h with h | h
    · exact ⟨callback, .head _, (mem_freshProperties.1 h).1⟩
    · obtain ⟨callback', hmem, haccess⟩ := ih h
      exact ⟨callback', .tail _ hmem, haccess⟩
  | usage callback rest ih => exact ih h
  | literal t inner rest _ ih => exact ih h

end Outline

end ContextHoist
