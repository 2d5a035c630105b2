/-
The conversion of a source file has an account.

Each call that opens a suite outside of all functions starts from no contexts at all, so its trace
only depends on its arguments and on what the source file declares.

* `Module.traces`: the traces of the suites of a source file.
* `Module.Accounts`: the account of the conversion of a source file.
* `Module.accounts_hoistContexts`, `Module.stats_hoistContexts`: the conversion has one, and
  counts what is in the traces.
-/
import ContextHoist.Proofs.Simulation

namespace ContextHoist

/-- The trace of a suite with the given arguments that stands outside of all functions. -/
def suiteTrace (scopes : Scopes) (args : List Tree) : Trace :=
  (Tree.outlineLiterals args).annotate scopes []

namespace Module

/-- The traces of the suites of a source file, in the order in which they are converted. -/
def traces (m : Module) : List Trace :=
  m.suiteArguments.map (suiteTrace (Scopes.ofModule m))

/-- The second source file is made from the first by an account with the given traces. -/
def Accounts (Put : List String → Tree → Tree → Prop) (m m' : Module) (as : List Trace) : Prop :=
  m'.shebang = m.shebang ∧ m'.span = m.span ∧ ∃ lost, ItemsBecome Put m.items m'.items as lost

end Module

/-! ### Suites one after the other -/

/-- The counts of a run after suites with the given traces. -/
structure Surveyed (as : List Trace) (s s' : Stats) : Prop where
  suites : s'.suites = s.suites + as.length
  hoisted : s'.hoisted = s.hoisted ++ as.flatMap fun a => a.finished.flatMap (·.names)
  unresolved : s'.unresolvedReads =
    s.unresolvedReads ++ as.flatMap fun a => a.usages.flatMap (·.unresolved)
  renamed : s'.renamedLocals =
    s.renamedLocals ++ as.flatMap fun a => a.handled.flatMap (·.renamedLocals)

lemma Surveyed.nil (s : Stats) : Surveyed [] s s := by
  constructor <;> simp

lemma Surveyed.trans {as bs : List Trace} {s s' s'' : Stats} (h : Surveyed as s s')
    (h' : Surveyed bs s' s'') : Surveyed (as ++ bs) s s'' where
  suites := by simp [h'.suites, h.suites, Nat.add_assoc]
  hoisted := by simp [h'.hoisted, h.hoisted]
  unresolved := by simp [h'.unresolved, h.unresolved]
  renamed := by simp [h'.renamed, h.renamed]

/-- From any state the computation converts suites with the given traces, and its result is as
described. -/
def Surveys {α : Type} (as : List Trace) (x : Descent α) (R : α → Prop) : Prop :=
  ∀ run, R (x.run run).1 ∧ Surveyed as run.stats (x.run run).2.stats

namespace Surveys

variable {α β : Type} {as bs : List Trace}

lemma pure {a : α} {R : α → Prop} (h : R a) : Surveys [] (pure a : Descent α) R :=
  fun run => ⟨h, Surveyed.nil run.stats⟩

lemma bind {x : Descent α} {f : α → Descent β} {R : α → Prop} {S : β → Prop}
    (hx : Surveys as x R) (hf : ∀ u, R u → Surveys bs (f u) S) :
    Surveys (as ++ bs) (x >>= f) S := by
  intro run
  obtain ⟨hR, hs⟩ := hx run
  obtain ⟨hS, hs'⟩ := hf _ hR (x.run run).2
  exact ⟨hS, hs.trans hs'⟩

lemma bind_pure {x : Descent α} {f : α → β} {R : α → Prop} {S : β → Prop} (hx : Surveys as x R)
    (h : ∀ u, R u → S (f u)) : Surveys as (x >>= fun u => Pure.pure (f u)) S := by
  rw [← List.append_nil as]
  exact hx.bind fun u hR => pure (h u hR)

lemma convert (args : List Tree) :
    Surveys [] (Descent.convert args) fun us => us = (convertLast args).1 := by
  intro run
  rw [Descent.run_convert]
  refine ⟨rfl, ?_, ?_, ?_, ?_⟩ <;> simp [Stats.merge]

/-- A way through an outline that starts from no contexts, and counts as one suite. -/
lemma of_follows {scopes : Scopes} {o : Outline Tree Tree} {x : Descent α}
    {R : α → Trace → Prop} (h : Follows [] scopes o x R) :
    Surveys [o.annotate scopes []] (do
      modify fun run => { run with contexts := {} }
      let u ← x
      Descent.report { suites := 1 }
      return u) fun u => R u (o.annotate scopes []) := by
  intro run
  obtain ⟨hR, hv⟩ := h ⟨{}, run.stats⟩ trivial
  refine ⟨hR, ?_, ?_, ?_, ?_⟩
  · exact congrArg (· + 1) hv.suites
  · exact (List.append_nil _).trans (hv.hoisted.trans (by simp [ContextTree.frames]))
  · exact (List.append_nil _).trans (hv.unresolved.trans (by simp [ContextTree.frames]))
  · exact (List.append_nil _).trans (hv.renamed.trans (by simp [ContextTree.frames]))

end Surveys

/-! ### Phrases outside of all functions -/

section Items

variable (Put : List String → Tree → Tree → Prop)

/-- The conversion of a phrase outside of all functions converts its suites. -/
def ItemSurveys (scopes : Scopes) (t : Tree) : Prop :=
  Surveys (t.suiteArguments.map (suiteTrace scopes)) (t.suites scopes)
    fun u => ∃ lost, ItemBecomes Put t u (t.suiteArguments.map (suiteTrace scopes)) lost

variable {Put} {scopes : Scopes}

lemma suitesAll_surveys {ts : List Tree} (h : ∀ t ∈ ts, ItemSurveys Put scopes t) :
    Surveys ((Tree.suiteArgumentsAll ts).map (suiteTrace scopes)) (Tree.suitesAll scopes ts)
      fun us => ∃ lost, ItemsBecome Put ts us
        ((Tree.suiteArgumentsAll ts).map (suiteTrace scopes)) lost := by
  induction ts with
  | nil => exact Surveys.pure ⟨_, ItemsBecome.nil⟩
  | cons t ts ih =>
    rw [Tree.suiteArgumentsAll, List.map_append]
    refine (h t (.head _)).bind fun u haccount => ?_
    obtain ⟨lost, ha⟩ := haccount
    refine (ih fun u hu => h u (.tail _ hu)).bind_pure fun us haccount => ?_
    obtain ⟨lost', hb⟩ := haccount
    exact ⟨_, ItemsBecome.cons ha hb⟩

/-- After the function literals of a suite come the other arguments. -/
lemma suitesOthers_surveys {args us : List Tree} {a : Trace}
    (hargs : ∀ t ∈ args, t.isFunctionLiteral = false → ItemSurveys Put scopes t)
    (h : Enters Put .createsSuite args us a) :
    Surveys ((Tree.suiteArgumentsOthers args).map (suiteTrace scopes))
      (Tree.suitesOthers scopes args us) fun vs => ∃ lost, SuiteArgumentsBecome Put args vs a
        ((Tree.suiteArgumentsOthers args).map (suiteTrace scopes)) lost := by
  generalize hr : Role.createsSuite = r at h
  induction h with
  | nil r => exact Surveys.pure ⟨_, SuiteArgumentsBecome.nil⟩
  | other ht _ ih =>
    simp only [Tree.suiteArgumentsOthers, Tree.suitesOthers, ht, Bool.false_eq_true, if_false,
      List.map_append]
    refine (hargs _ (.head _) ht).bind fun u haccount => ?_
    obtain ⟨lost, hb⟩ := haccount
    refine (ih (fun t ht => hargs t (.tail _ ht)) hr).bind_pure fun vs haccount => ?_
    obtain ⟨lost', hb'⟩ := haccount
    exact ⟨_, SuiteArgumentsBecome.other ht hb hb'⟩
  | entered _ ha _ ih =>
    simp only [Tree.suiteArgumentsOthers, Tree.suitesOthers, ha.isFunctionLiteral, if_true]
    refine (ih (fun t ht => hargs t (.tail _ ht)) hr).bind_pure fun vs haccount => ?_
    obtain ⟨lost', hb'⟩ := haccount
    exact ⟨_, SuiteArgumentsBecome.entered ha hb'⟩
  | passed hd => exact absurd (.inl hr.symm) hd
  | setup => exact absurd hr (by simp)
  | usage => exact absurd hr (by simp)

lemma suites_suite {callee : Tree} (h : callee.calleeRole = .createsSuite) (s gs : Span)
    (args : List Tree) (types : Tree) :
    (Tree.call s callee gs args types).suites scopes = (do
      let entered ← (do
        modify fun run => { run with contexts := {} }
        let us ← Tree.enterLiterals scopes none args
        Descent.report { suites := 1 }
        return us)
      let callee ← callee.suites scopes
      let args ← Tree.suitesOthers scopes args entered
      let types ← types.suites scopes
      let args ← Descent.convert args
      return Tree.call s callee gs args types) := by
  rw [Tree.suites, if_pos h]
  rfl

lemma suites_call {callee : Tree} (h : callee.calleeRole ≠ .createsSuite) (s gs : Span)
    (args : List Tree) (types : Tree) :
    (Tree.call s callee gs args types).suites scopes = (do
      let callee ← callee.suites scopes
      let args ← Tree.suitesAll scopes args
      let types ← types.suites scopes
      return Tree.call s callee gs args types) := by
  rw [Tree.suites, if_neg h]

lemma suites_node {l : Label} {s : Span} {ts : List Tree}
    (h : ∀ callee gs args types, l = .call → ts = [callee, .node .group gs args, types] → False) :
    (Tree.node l s ts).suites scopes =
      if l.isBoundary then pure (.node l s ts)
      else Tree.suitesAll scopes ts >>= fun us => pure (.node l s us) := by
  rw [Tree.suites]
  exact h

/-- The suites in a phrase outside of all functions are converted along their outlines, if
variables can be declared in the function literals that are entered on the way. -/
theorem itemSurveys (scopes : Scopes) (t : Tree) (h : ∀ args ∈ t.suiteArguments,
    ∀ u ∈ (Tree.outlineLiterals args).opened, PutsInto Put u) : ItemSurveys Put scopes t := by
  induction t using Tree.inductBelow with
  | node l s ts ih =>
    rcases Tree.call_or_not l s ts with ⟨callee, gs, args, types, heq⟩ | hcall
    · obtain ⟨rfl, -, rfl⟩ := Tree.node.inj heq
      have hcallee := ih _ (.head _) callee (.self _)
      have hargs : ∀ t ∈ args, _ := fun t ht => ih _ (.tail _ (.head _)) t (.part ht (.self t))
      have htypes := ih _ (.tail _ (.tail _ (.head _))) types (.self _)
      by_cases hr : callee.calleeRole = .createsSuite
      · rw [Tree.suiteArguments_suite hr] at h
        simp only [List.mem_cons, List.mem_append] at h
        have hliterals : ∀ t ∈ args, t.isFunctionLiteral = true →
            LiteralFollows Put [] scopes t := by
          intro t ht hl
          refine literalFollows hl (fun u _ => direct_follows u) fun u hu => ?_
          exact h args (.inl rfl) u (Tree.mem_opened_outlineLiterals ht hu)
        have hothers : ∀ t ∈ args, t.isFunctionLiteral = false → ItemSurveys Put scopes t := by
          intro t ht hl
          refine hargs t ht fun as has => h as (.inr (.inr (.inl ?_)))
          exact Tree.mem_suiteArgumentsOthers ht hl has
        rw [ItemSurveys, suites_suite hr, Tree.suiteArguments_suite hr]
        simp only [List.map_cons, List.map_append]
        refine (Surveys.of_follows (enterLiterals_follows (.inl rfl) hliterals)).bind
          fun entered ha => ?_
        refine (hcallee fun as has => h as (.inr (.inl has))).bind fun callee' haccount => ?_
        obtain ⟨lost, hb⟩ := haccount
        refine (suitesOthers_surveys hothers ha).bind fun args' haccount => ?_
        obtain ⟨lost', hd⟩ := haccount
        rw [← List.append_nil (types.suiteArguments.map (suiteTrace scopes))]
        refine (htypes fun as has => h as (.inr (.inr (.inr has)))).bind
          fun types' haccount => ?_
        obtain ⟨lost'', he⟩ := haccount
        refine (Surveys.convert args').bind_pure ?_
        rintro _ rfl
        rw [List.append_nil]
        exact ⟨_, ItemBecomes.suite hr hd hb he⟩
      · rw [Tree.suiteArguments_call hr] at h
        simp only [List.mem_append] at h
        rw [ItemSurveys, suites_call hr, Tree.suiteArguments_call hr]
        simp only [List.map_append]
        refine (hcallee fun as has => h as (.inl has)).bind fun callee' haccount => ?_
        obtain ⟨lost, ha⟩ := haccount
        refine (suitesAll_surveys fun t ht => hargs t ht fun as has => h as
          (.inr (.inl (Tree.mem_suiteArgumentsAll ht has)))).bind fun args' haccount => ?_
        obtain ⟨lost', hb⟩ := haccount
        refine (htypes fun as has => h as (.inr (.inr has))).bind_pure
          fun types' haccount => ?_
        obtain ⟨lost'', hc⟩ := haccount
        exact ⟨_, ItemBecomes.call hr ha hb hc⟩
    · rw [Tree.suiteArguments_node hcall] at h
      rw [ItemSurveys, suites_node hcall, Tree.suiteArguments_node hcall]
      by_cases hl : l.isBoundary = true
      · simp only [hl, if_true]
        exact Surveys.pure ⟨_, ItemBecomes.boundary hl s ts⟩
      · simp only [hl] at h ⊢
        refine (suitesAll_surveys fun t ht => ih t ht t (.self t) fun as has => h as
          (Tree.mem_suiteArgumentsAll ht has)).bind_pure fun us haccount => ?_
        obtain ⟨lost, ha⟩ := haccount
        exact ⟨_, ItemBecomes.parts (by simpa using hl) hcall ha⟩

end Items

namespace Module

/-! ### Source files -/

section Main

variable {Put : List String → Tree → Tree → Prop}

lemma surveys_items (m : Module) (h : ∀ args ∈ m.suiteArguments,
    ∀ u ∈ (Tree.outlineLiterals args).opened, PutsInto Put u) :
    Surveys m.traces (Tree.suitesAll (Scopes.ofModule m) m.items)
      fun us => ∃ lost, ItemsBecome Put m.items us m.traces lost :=
  suitesAll_surveys fun t ht => itemSurveys _ t fun as has => h as
    (Tree.mem_suiteArgumentsAll ht has)

/-- The conversion of a source file has an account, if variables can be declared in the function
literals of its suites. -/
theorem accounts_hoistContexts (m : Module) (h : ∀ args ∈ m.suiteArguments,
    ∀ u ∈ (Tree.outlineLiterals args).opened, PutsInto Put u) :
    Accounts Put m m.hoistContexts.1 m.traces :=
  ⟨rfl, rfl, (m.surveys_items h {}).1⟩

end Main

/-- What the conversion of a source file counts. -/
theorem stats_hoistContexts (m : Module) : Surveyed m.traces {} m.hoistContexts.2 :=
  (m.surveys_items (fun _ _ u _ => putsInto_injects u) {}).2

end Module

end ContextHoist
