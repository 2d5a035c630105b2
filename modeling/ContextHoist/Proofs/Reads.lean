/-
Which reads are reported as unresolved.

A test is resolved when it is reached, with the properties recorded so far.  So a property that a
test accesses is reported unless a setup that was reached before accesses it.  A setup that is
reached later comes too late: the property is reported although one of the function literals around
the test sets it up.

* `Reading`: a test with the setups that are reached before it and after it.
* `Outline.readings`, `Module.readings`: the tests of an outline and of a source file.
* `Module.unresolvedReads_eq`: the reads that are reported, and when a report is justified.
-/
import Mathlib.Data.List.Forall2
import ContextHoist.Proofs.Placement
import ContextHoist.Proofs.Suites

namespace ContextHoist

/-- A test, with the setups of the function literals around it. -/
structure Reading where
  /-- The function literals through which the test is reached, the innermost first. -/
  around : List Tree
  /-- The callbacks of those setups of the function literals that are reached before the test. -/
  earlier : List Tree
  /-- The callbacks of those setups of the function literals that are reached after the test. -/
  later : List Tree
  /-- The callback of the test. -/
  callback : Tree

/-- The properties of a test that no earlier setup accesses. -/
def Reading.reported (r : Reading) : List String :=
  r.callback.contextAccesses.filter fun p =>
    r.earlier.all fun setup => !setup.contextAccesses.contains p

lemma Reading.mem_reported {r : Reading} {p : String} :
    p ∈ r.reported ↔ p ∈ r.callback.contextAccesses ∧
      ∀ setup ∈ r.earlier, p ∉ setup.contextAccesses := by
  simp [reported, List.mem_filter, List.all_eq_true]

lemma flatMap_reported {rs : List Reading} {ks : List Handled}
    (h : List.Forall₂ (fun r k => k.tree = r.callback ∧ k.unresolved = r.reported) rs ks) :
    rs.flatMap (·.reported) = ks.flatMap (·.unresolved) := by
  induction h with
  | nil => rfl
  | cons h _ ih => rw [List.flatMap_cons, List.flatMap_cons, h.2, ih]

namespace Outline

/-- The tests of an outline in order.  The setups of the function literals around the phrase are
given, those before it and those behind it. -/
def readings (around earlier later : List Tree) : Outline Tree Tree → List Reading
  | done => []
  | setup callback rest => rest.readings around (earlier ++ [callback]) later
  | usage callback rest =>
    ⟨around, earlier, rest.setups ++ later, callback⟩ :: rest.readings around earlier later
  | literal t inner rest =>
    inner.readings (t :: around) earlier (rest.setups ++ later) ++
      rest.readings around earlier later

/-- The earlier and the later setups of a test are all setups of the function literals around
it. -/
lemma mem_setups_of_mem_readings {o : Outline Tree Tree} (ho : o.Faithful)
    {around earlier later : List Tree}
    (h : ∀ callback, (∃ e ∈ around, e.HasSetup callback) ↔
      callback ∈ earlier ∨ callback ∈ o.setups ∨ callback ∈ later) :
    ∀ r ∈ o.readings around earlier later, ∀ callback,
      (∃ e ∈ r.around, e.HasSetup callback) ↔ callback ∈ r.earlier ∨ callback ∈ r.later := by
  induction o generalizing around earlier later with
  | done => simp [readings]
  | setup k rest ih =>
    refine ih ho fun callback => ?_
    rw [h callback]
    simp [setups, or_assoc]
  | usage k rest ih =>
    intro r hr callback
    rcases List.mem_cons.1 hr with rfl | hr
    · rw [h callback]
      simp [setups]
    · exact ih ho h r hr callback
  | literal t inner rest ihi ih =>
    obtain ⟨⟨k, params, body, rfl, rfl⟩, hinner, hrest⟩ := ho
    intro r hr callback
    rcases List.mem_append.1 hr with hr | hr
    · refine ihi hinner (fun callback => ?_) r hr callback
      simp only [List.mem_cons, exists_eq_or_imp, Tree.hasSetup_literal, h callback, setups,
        List.mem_append]
      tauto
    · exact ih hrest h r hr callback

end Outline

/-! ### What the frames know -/

/-- The frames hold exactly the properties that the given setups access. -/
def Frames.Knows (fs : List Frame) (earlier : List Tree) : Prop :=
  ∀ p, Frames.find? fs p = none ↔ ∀ setup ∈ earlier, p ∉ setup.contextAccesses

namespace Frames

lemma Knows.push {fs : List Frame} {earlier : List Tree} (h : Knows fs earlier) :
    Knows ([] :: fs) earlier := by
  intro p
  rw [find?_cons, List.find?_nil, Option.none_or]
  exact h p

/-- After a setup the innermost frame also holds the properties that it accesses. -/
lemma Knows.setup {own : Frame} {outer : List Frame} {earlier : List Tree}
    (h : Knows (own :: outer) earlier) (inner : Scopes) (callback : Tree) :
    Knows (extend (freshProperties inner (own :: outer) callback.contextAccesses) (own :: outer))
      (earlier ++ [callback]) := by
  intro p
  rw [find?_extend_eq_none]
  have hfresh : Frames.find? (own :: outer) p = none →
      ((∀ q ∈ freshProperties inner (own :: outer) callback.contextAccesses, q.key ≠ p) ↔
        p ∉ callback.contextAccesses) := by
    intro hnone
    constructor
    · intro hq hp
      exact hq ⟨p, hoistedName inner p⟩ (mem_freshProperties.2 ⟨hp, hnone, rfl⟩) rfl
    · rintro hp q hq rfl
      exact hp (mem_freshProperties.1 hq).1
  rw [and_congr_right hfresh, h p]
  simp [or_imp, forall_and]

end Frames

namespace Outline

/-- What is reported for the tests of an outline. -/
lemma unresolved_usages {o : Outline Tree Tree} {scopes : Scopes} {own : Frame}
    {outer : List Frame} {earlier : List Tree} (h : Frames.Knows (own :: outer) earlier)
    (around later : List Tree) :
    List.Forall₂ (fun r k => k.tree = r.callback ∧ k.unresolved = r.reported)
      (o.readings around earlier later) (o.annotate scopes (own :: outer)).usages := by
  induction o generalizing scopes own outer earlier around later with
  | done => exact .nil
  | setup callback rest ih =>
    exact ih (h.setup (scopes.enterFunction callback) callback) around later
  | usage callback rest ih =>
    refine .cons ⟨rfl, ?_⟩ (ih h around later)
    -- a property has a variable if and only if the frames hold it
    apply List.filter_congr
    intro p hp
    rw [Bool.eq_iff_iff, lookup_frameResolution hp, Option.isNone_map, Option.isNone_iff_eq_none,
      h p]
    simp [List.all_eq_true]
  | literal t inner rest ihi ih =>
    exact List.rel_append (ihi h.push (t :: around) (rest.setups ++ later)) (ih h around later)

/-- What is reported for the tests of a suite that stands outside of all functions. -/
lemma unresolved_suite (scopes : Scopes) (args : List Tree) :
    List.Forall₂ (fun r k => k.tree = r.callback ∧ k.unresolved = r.reported)
      ((Tree.outlineLiterals args).readings [] [] []) (suiteTrace scopes args).usages := by
  induction args with
  | nil => exact .nil
  | cons t ts ih =>
    cases hlit : t.isFunctionLiteral with
    | false =>
      rw [suiteTrace, Tree.outlineLiterals, Tree.outlineLiteral_of_not hlit]
      exact ih
    | true =>
      obtain ⟨k, params, body, rfl⟩ := Tree.exists_shell hlit
      rw [suiteTrace, Tree.outlineLiterals, Tree.outlineLiteral_literal]
      have hknows : Frames.Knows [[]] [] := by
        intro p
        simp [Frames.find?]
      exact List.rel_append (unresolved_usages hknows _ _) ih

end Outline

/-! ### Source files -/

namespace Module

/-- The tests of a source file, in the order in which they are reached. -/
def readings (m : Module) : List Reading :=
  m.suiteArguments.flatMap fun args => (Tree.outlineLiterals args).readings [] [] []

lemma unresolved_usages (m : Module) :
    List.Forall₂ (fun r k => k.tree = r.callback ∧ k.unresolved = r.reported) m.readings
      (m.traces.flatMap (·.usages)) := by
  rw [readings, traces]
  induction m.suiteArguments with
  | nil => exact .nil
  | cons args rest ih =>
    exact List.rel_append (Outline.unresolved_suite (Scopes.ofModule m) args) ih

/-- The setups of the function literals around a test come before it or after it. -/
lemma mem_setups_of_mem_readings {m : Module} {r : Reading} (hr : r ∈ m.readings)
    (callback : Tree) :
    (∃ e ∈ r.around, e.HasSetup callback) ↔ callback ∈ r.earlier ∨ callback ∈ r.later := by
  obtain ⟨args, -, hr⟩ := List.mem_flatMap.1 hr
  refine Outline.mem_setups_of_mem_readings (Tree.faithful_outlineLiterals args)
    (fun callback => ?_) r hr callback
  simp [Tree.setups_outlineLiterals]

/-- The reads that are reported are those of properties that no earlier setup accesses, test by
test.  A read that is reported is set up by no function literal around the test if and only if no
later setup of these function literals accesses the property. -/
theorem unresolvedReads_eq (m : Module) :
    m.hoistContexts.2.unresolvedReads = m.readings.flatMap (·.reported) ∧
      List.Forall₂ (fun r k => k.tree = r.callback ∧ k.unresolved = r.reported) m.readings
        (m.traces.flatMap (·.usages)) ∧
      ∀ r ∈ m.readings, ∀ p ∈ r.reported,
        (∀ e ∈ r.around, ¬e.SetsUp p) ↔ ∀ setup ∈ r.later, p ∉ setup.contextAccesses := by
  have htests := m.unresolved_usages
  refine ⟨?_, htests, fun r hr p hp => ?_⟩
  · rw [m.stats_hoistContexts.unresolved]
    rw [flatMap_reported htests, List.flatMap_assoc]
    rfl
  · have hsetups := mem_setups_of_mem_readings hr
    obtain ⟨-, hearlier⟩ := Reading.mem_reported.1 hp
    constructor
    · intro hnone setup hlater haccess
      obtain ⟨e, he, hsetup⟩ := (hsetups setup).2 (.inr hlater)
      exact hnone e he ⟨setup, hsetup, haccess⟩
    · rintro hlater e he ⟨setup, hsetup, haccess⟩
      rcases (hsetups setup).1 ⟨e, he, hsetup⟩ with h | h
      · exact hearlier setup h haccess
      · exact hlater setup h haccess

/-- A suite with a test in front of the setup that accesses the same property:
`describe(function() { it(function() { this.x; }); before(function() { this.x; }); });`. -/
def testFirst : Module :=
  .ofItems [.callStmt "describe" [.plainFunction [] [
    .callStmt "it" [.plainFunction [] [.accessStmt "x"]],
    .callStmt "before" [.plainFunction [] [.accessStmt "x"]]]]]

example : testFirst.hoistContexts.2.unresolvedReads = ["x"] ∧
    testFirst.hoistContexts.2.hoisted = ["x"] := by
  decide +kernel

end Module

end ContextHoist
