/-
A second conversion of a source file.

If no access of a source file stands in an optional chain, a conversion leaves no accesses in the
callbacks of setups, because each of them had a variable.  So a second conversion declares nothing
and leaves everything as it is.  It reports the same reads again, except for those of tests in
decorators of parameters that have been lost.

* `Outline.resolved_annotate`: in a trace the setups keep no accesses.
* `Module.Rerun`, `Module.rerun`: the second conversion of a source file.
-/
import ContextHoist.Proofs.Decorators

namespace ContextHoist

namespace Outline

/-! ### Resolved traces -/

/-- Every access of a setup has a variable, an earlier or a new one. -/
lemma unresolved_setup (k : Tree) (scopes : Scopes) (own : Frame) (outer : List Frame) :
    let new := freshProperties (scopes.enterFunction k) (own :: outer) k.contextAccesses
    Handled.unresolved ⟨k, scopes, new,
      frameResolution (Frames.extend new (own :: outer)) k.contextAccesses⟩ = [] := by
  intro new
  rw [Handled.unresolved, List.filter_eq_nil_iff]
  intro p hp hnone
  rw [lookup_frameResolution hp, Option.isNone_map, Option.isNone_iff_eq_none,
    Frames.find?_extend_eq_none] at hnone
  -- then the setup itself would have recorded the property
  obtain ⟨hnone, hnew⟩ := hnone
  exact hnew ⟨p, hoistedName (scopes.enterFunction k) p⟩
    (mem_freshProperties.2 ⟨hp, hnone, rfl⟩) rfl

lemma unresolved_installed {o : Outline Tree Tree} {scopes : Scopes} {fs : List Frame}
    (h : fs = [] → o.setups = []) : ∀ k ∈ (o.annotate scopes fs).installed, k.unresolved = [] := by
  induction o generalizing scopes fs with
  | done => simp [annotate, installed]
  | setup callback rest ih =>
    cases fs with
    | nil => exact absurd (h rfl) (List.cons_ne_nil _ _)
    | cons own outer =>
      refine List.forall_mem_cons.2 ⟨unresolved_setup callback scopes own outer, ih ?_⟩
      intro hnil
      exact absurd hnil (List.cons_ne_nil _ _)
  | usage callback rest ih => exact ih h
  | literal t inner rest ihi ih =>
    refine List.forall_mem_append.2 ⟨ihi ?_, ih h⟩
    intro hnil
    exact absurd hnil (List.cons_ne_nil _ _)

/-- If no access of a callback stands in an optional chain, only what is reported is left. -/
lemma resolved_annotate {o : Outline Tree Tree}
    (ho : ∀ t ∈ o.handled, t.isFunctionLiteral = true ∧ t.chainFree = true) (scopes : Scopes)
    {fs : List Frame} (hfs : fs = [] → o.setups = []) : Resolved (o.annotate scopes fs) where
  handled := by
    intro k hk
    have hmem : k.tree ∈ o.handled := by
      rw [← handled_annotate scopes fs]
      exact List.mem_map_of_mem hk
    obtain ⟨hlit, hchain⟩ := ho k.tree hmem
    exact Handled.contextAccesses_result hlit hchain
  installed := unresolved_installed hfs

/-- If nothing is declared, no names are counted. -/
lemma Quiet.names {a : Trace} (h : Quiet a) : a.finished.flatMap (·.names) = [] := by
  rw [List.flatMap_eq_nil_iff]
  intro e he
  rw [Entered.names, h.opened e (finished_subset_opened a he), List.map_nil]

lemma Quiet.renamedLocals {a : Trace} (h : Quiet a) :
    a.handled.flatMap (·.renamedLocals) = [] := by
  rw [List.flatMap_eq_nil_iff]
  exact fun k hk => Handled.renamedLocals_of_written (h.handled k hk)

end Outline

/-! ### Source files -/

namespace Module

/-- Whether no access of a source file stands in an optional chain. -/
def chainFree (m : Module) : Bool :=
  m.items.all Tree.chainFree

/-- Whether no parameter in a source file has decorators. -/
def undecorated (m : Module) : Bool :=
  m.items.all Tree.undecorated

/-- Each callback in a suite of a source file is a function literal, and none of its accesses
stands in an optional chain if none of the source file does. -/
lemma callbacks_of_chainFree {m : Module} (h : m.chainFree = true) {args : List Tree}
    (hargs : args ∈ m.suiteArguments) :
    ∀ t ∈ (Tree.outlineLiterals args).handled,
      t.isFunctionLiteral = true ∧ t.chainFree = true := by
  intro t ht
  constructor
  · exact isFunctionLiteral_of_mem_handled hargs t ht
  · obtain ⟨u, hu, hhas⟩ := exists_has hargs (.inl ht)
    exact hhas.all (List.all_eq_true.1 h u hu)

/-- The setups of a source file keep no accesses. -/
lemma resolved_traces {m : Module} (h : m.chainFree = true) :
    ∀ a ∈ m.traces, Outline.Resolved a := by
  intro a ha
  obtain ⟨args, hargs, rfl⟩ := List.mem_map.1 ha
  exact Outline.resolved_annotate (callbacks_of_chainFree h hargs) _ fun _ =>
    Tree.setups_outlineLiterals args

/-- What a conversion finds in a source file whose setups access nothing. -/
lemma quiet_traces {m : Module}
    (h : ∀ args ∈ m.suiteArguments, (Tree.outlineLiterals args).Silent) :
    (∀ a ∈ m.traces, Outline.Quiet a) ∧ m.traces.flatMap Outline.reported =
      m.suiteArguments.flatMap fun args => (Tree.outlineLiterals args).reads := by
  constructor
  · intro a ha
    obtain ⟨args, hargs, rfl⟩ := List.mem_map.1 ha
    exact (Outline.quiet_annotate (h args hargs) _ (by simp)).1
  · rw [traces, List.flatMap_map]
    refine List.flatMap_congr fun args hargs => ?_
    exact (Outline.quiet_annotate (h args hargs) _ (by simp)).2.2

/-- Two conversions one after the other: the second one finds nothing left to do, and reports the
same reads again, except for those that are lost. -/
structure Rerun (first second : Module × Stats) (lost : List String) : Prop where
  unchanged : second.1 = first.1
  hoisted : second.2.hoisted = []
  renamed : second.2.renamedLocals = []
  suites : second.2.suites = first.2.suites
  reads : Thins first.2.unresolvedReads second.2.unresolvedReads lost

/-- A second conversion of a source file without accesses in optional chains leaves it as it is.
It reports the same reads as the first one if and only if the first one has lost no tests in
decorators of parameters, which is so if no parameter has decorators. -/
theorem rerun (m : Module) (h : m.chainFree = true) :
    ∃ lost, ItemsBecome Injects m.items m.hoistContexts.1.items m.traces lost ∧
      Rerun m.hoistContexts m.hoistContexts.1.hoistContexts lost ∧
      (m.hoistContexts.1.hoistContexts.2.unresolvedReads = m.hoistContexts.2.unresolvedReads ↔
        lost = []) ∧ (m.undecorated = true → lost = []) := by
  obtain ⟨-, -, lost, haccount⟩ := m.accounts_hoistContexts fun _ _ u _ => putsInto_injects u
  obtain ⟨hsettled, hmatch⟩ :=
    Tree.stable_items haccount (fun t _ => t.stableItem) (resolved_traces h)
  generalize hm' : m.hoistContexts.1 = m' at haccount hsettled hmatch ⊢
  obtain ⟨hshebang, hspan, lost', haccount'⟩ :=
    m'.accounts_hoistContexts fun _ _ u _ => putsInto_injects u
  -- the second conversion starts from what the first one has left
  obtain ⟨hquiet, hreads⟩ := quiet_traces hmatch.silent
  have hstats := m.stats_hoistContexts
  have hstats' := m'.stats_hoistContexts
  have hrerun : Rerun m.hoistContexts m'.hoistContexts lost := by
    constructor
    · have hitems := Tree.fixed_items haccount' (fun t ht => (hsettled t ht).fixed) hquiet
      rw [hm']
      exact Module.ext hshebang hitems hspan
    · rw [hstats'.hoisted, List.nil_append, List.flatMap_eq_nil_iff]
      exact fun a ha => (hquiet a ha).names
    · rw [hstats'.renamed, List.nil_append, List.flatMap_eq_nil_iff]
      exact fun a ha => (hquiet a ha).renamedLocals
    · rw [hstats'.suites, hstats.suites, traces, List.length_map]
      exact congrArg _ hmatch.length_eq
    · rw [hstats'.unresolved, hstats.unresolved, List.nil_append, List.nil_append]
      exact hreads ▸ hmatch.reads
  refine ⟨lost, haccount, hrerun, hrerun.reads.eq_iff, fun hplain => ?_⟩
  exact Tree.lossless_items haccount fun t ht =>
    Tree.losslessItem (List.all_eq_true.1 hplain t ht)

/-- A suite with a test in a decorator of a parameter:
`describe(function(@it(function() { this.z; }) b) { });`. -/
def testInDecorator : Module :=
  .ofItems [.callStmt "describe" [.plainFunction [.node .parameter .nowhere [
    .group [.node .decorator .nowhere [.call .nowhere (.name "it" .nowhere) .nowhere
      [.plainFunction [] [.accessStmt "z"]] .absent]],
    .name "b" .nowhere]] []]]

theorem rerun_testInDecorator :
    testInDecorator.chainFree = true ∧ testInDecorator.undecorated = false ∧
      testInDecorator.hoistContexts.2.unresolvedReads = ["z"] ∧
      testInDecorator.hoistContexts.1.hoistContexts.2.unresolvedReads = [] ∧
      ∃ lost, ItemsBecome Injects testInDecorator.items testInDecorator.hoistContexts.1.items
          testInDecorator.traces lost ∧
        Rerun testInDecorator.hoistContexts testInDecorator.hoistContexts.1.hoistContexts lost ∧
        lost ≠ [] := by
  have hfirst : testInDecorator.hoistContexts.2.unresolvedReads = ["z"] := by decide +kernel
  have hsecond : testInDecorator.hoistContexts.1.hoistContexts.2.unresolvedReads = [] := by
    decide +kernel
  obtain ⟨lost, haccount, hrerun, hiff, -⟩ := rerun testInDecorator (by decide)
  refine ⟨by decide, by decide, hfirst, hsecond, lost, haccount, hrerun, fun hlost => ?_⟩
  rw [← hiff, hfirst, hsecond] at hlost
  exact absurd hlost (by simp)

end Module

end ContextHoist
