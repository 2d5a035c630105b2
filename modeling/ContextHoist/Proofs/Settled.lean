/-
Phrases in which a conversion finds nothing left to do.

A phrase is settled if the last arguments of its calls are converted already.  If moreover the
callbacks of its setups access no properties, nothing is recorded on the way, every callback and
every function literal stays as it is, and so the whole phrase does.

* `Outline.Quiet`: a trace in which no variable is written or declared.
* `Outline.quiet_annotate`: an outline whose setups access nothing has a quiet trace.
* `Tree.Settled`, `Tree.Settled.fixed`: a settled phrase stays as it is if its trace is quiet.
* `Tree.SettledItem`, `Tree.SettledItem.fixed`: the same outside of all functions.
-/
import ContextHoist.Proofs.Callbacks
import ContextHoist.Proofs.Simulation

namespace ContextHoist

/-! ### Quiet traces -/

namespace Outline

/-- No variable is declared, and none is written. -/
structure Quiet (a : Trace) : Prop where
  opened : ∀ e ∈ a.opened, e.hoisted = []
  handled : ∀ k ∈ a.handled, k.written = []

lemma quiet_append {a b : Trace} : Quiet (a ++ b) ↔ Quiet a ∧ Quiet b := by
  constructor
  · intro h
    have hopened := h.opened
    have hhandled := h.handled
    rw [opened_append] at hopened
    rw [handled_append] at hhandled
    exact ⟨⟨fun e he => hopened e (List.mem_append_left _ he),
        fun k hk => hhandled k (List.mem_append_left _ hk)⟩,
      ⟨fun e he => hopened e (List.mem_append_right _ he),
        fun k hk => hhandled k (List.mem_append_right _ hk)⟩⟩
  · rintro ⟨ha, hb⟩
    constructor
    · rw [opened_append]
      exact List.forall_mem_append.2 ⟨ha.opened, hb.opened⟩
    · rw [handled_append]
      exact List.forall_mem_append.2 ⟨ha.handled, hb.handled⟩

lemma Quiet.literal {e : Entered} {a : Trace} (h : Quiet (.literal e a .done)) :
    e.hoisted = [] ∧ Quiet a := by
  obtain ⟨hopened, hhandled⟩ := h
  simp only [Outline.opened, Outline.handled, List.append_nil, List.forall_mem_cons]
    at hopened hhandled
  exact ⟨hopened.1, hopened.2, hhandled⟩

/-- The setups of an outline, at any depth, access no properties. -/
def Silent (o : Outline Tree Tree) : Prop :=
  ∀ callback ∈ o.installed, callback.contextAccesses = []

lemma silent_append {a b : Outline Tree Tree} : (a ++ b).Silent ↔ a.Silent ∧ b.Silent := by
  rw [Silent, installed_append]
  exact List.forall_mem_append

lemma frameResolution_of_empty {fs : List Frame} (h : ∀ f ∈ fs, f = []) (ps : List String) :
    frameResolution fs ps = [] := by
  have hnone : ∀ p, Frames.find? fs p = none := by
    intro p
    rw [Frames.find?, List.findSome?_eq_none_iff]
    intro f hf
    rw [h f hf]
    rfl
  simp [frameResolution, hnone]

/-- If the setups access nothing, nothing is recorded and nothing is written. -/
lemma quiet_annotate {o : Outline Tree Tree} (ho : o.Silent) (scopes : Scopes) {fs : List Frame}
    (hfs : ∀ f ∈ fs, f = []) :
    (o.annotate scopes fs).Quiet ∧ o.gained scopes fs = [] ∧
      (o.annotate scopes fs).usages.flatMap (·.unresolved) = o.reads := by
  induction o generalizing scopes fs with
  | done => exact ⟨⟨by simp [annotate, opened], by simp [annotate, handled]⟩, rfl, rfl⟩
  | setup callback rest ih =>
    obtain ⟨hcallback, hrest⟩ := List.forall_mem_cons.1 ho
    obtain ⟨hquiet, hgained, hreads⟩ := ih hrest scopes hfs
    have hnew :
        freshProperties (scopes.enterFunction callback) fs callback.contextAccesses = [] := by
      rw [hcallback]
      rfl
    simp only [annotate, gained, hnew, Frames.extend_nil, List.nil_append]
    refine ⟨⟨hquiet.opened, ?_⟩, hgained, hreads⟩
    exact List.forall_mem_cons.2 ⟨frameResolution_of_empty hfs _, hquiet.handled⟩
  | usage callback rest ih =>
    obtain ⟨hquiet, hgained, hreads⟩ := ih ho scopes hfs
    have hwritten := frameResolution_of_empty hfs callback.contextAccesses
    refine ⟨⟨hquiet.opened, List.forall_mem_cons.2 ⟨hwritten, hquiet.handled⟩⟩, hgained, ?_⟩
    rw [annotate, usages, List.flatMap_cons, hreads, Handled.unresolved_of_written hwritten]
    rfl
  | literal t inner rest ihi ih =>
    obtain ⟨hinner, hrest⟩ := List.forall_mem_append.1 ho
    have hpush : ∀ f ∈ [] :: fs, f = [] := List.forall_mem_cons.2 ⟨rfl, hfs⟩
    obtain ⟨hquiet, hgained, hreads⟩ := ihi hinner (scopes.enterFunction t) hpush
    obtain ⟨hquiet', hgained', hreads'⟩ := ih hrest scopes hfs
    refine ⟨⟨?_, List.forall_mem_append.2 ⟨hquiet.handled, hquiet'.handled⟩⟩, hgained', ?_⟩
    · exact List.forall_mem_cons.2
        ⟨hgained, List.forall_mem_append.2 ⟨hquiet.opened, hquiet'.opened⟩⟩
    · rw [annotate, usages, List.flatMap_append, hreads, hreads']
      simp [reads, usages]

end Outline

/-! ### Settled phrases -/

namespace Tree

/-- The last arguments of the calls that belong to a function literal are converted, in the phrase
and in the function literals that are entered on the way through it. -/
inductive Settled : Tree → Prop
  | boundary {l : Label} (h : l.isBoundary = true) (s : Span) (ts : List Tree) :
      Settled (node l s ts)
  | parts {l : Label} {s : Span} {ts : List Tree} (h : l.isBoundary = false)
      (hcall : ∀ callee gs args types, l = .call → ts = [callee, node .group gs args, types] →
        False) (hparts : ∀ t ∈ ts, Settled t) : Settled (node l s ts)
  | call {s : Span} {callee : Tree} {gs : Span} {args : List Tree} {types : Tree}
      (hargs : (convertLast args).1 = args) (hcallee : Settled callee) (htypes : Settled types)
      (hothers : ∀ t ∈ args, t.isFunctionLiteral = false → Settled t)
      (hparams : callee.calleeRole.Descends → ∀ (k : Shell) params body,
        k.literal params body ∈ args → Settled params)
      (hbody : callee.calleeRole.Descends → ∀ (k : Shell) params body,
        k.literal params body ∈ args → Settled body) : Settled (call s callee gs args types)

/-- The phrase stays as it is if no variable is declared or written on the way. -/
def Fixed (t : Tree) : Prop :=
  ∀ u a lost, Becomes Injects t u a lost → a.Quiet → u = t

lemma fixed_all {ts us : List Tree} {a : Trace} {lost : List String}
    (h : AllBecome Injects ts us a lost) (hts : ∀ t ∈ ts, t.Fixed) (ha : a.Quiet) : us = ts := by
  induction ts generalizing us a lost with
  | nil =>
    cases h
    rfl
  | cons t ts ih =>
    cases h with
    | cons ht hrest =>
      obtain ⟨hquiet, hquiet'⟩ := Outline.quiet_append.1 ha
      rw [hts t (.head _) _ _ _ ht hquiet, ih hrest (fun u hu => hts u (.tail _ hu)) hquiet']

/-- A function literal stays as it is if its parameters and its body do. -/
lemma fixed_literal {t u : Tree} {a : Trace} {lost : List String}
    (h : LiteralBecomes Injects t u a lost)
    (hinner : ∀ (k : Shell) params body, t = k.literal params body → params.Fixed ∧ body.Fixed)
    (ha : a.Quiet) : u = t := by
  cases h with
  | @entered k params params' body body' _ a b _ _ hoisted hparams hbody hu =>
    obtain ⟨hp, hb⟩ := hinner k params body rfl
    obtain ⟨hhoisted, hquiet⟩ := ha.literal
    obtain ⟨hqa, hqb⟩ := Outline.quiet_append.1 hquiet
    simp only at hhoisted
    rw [hu, hhoisted, hp _ _ _ hparams hqa, hb _ _ _ hbody hqb]
    exact inject_nil _

lemma fixed_arguments {r : Role} {args us : List Tree} {a c : Trace} {lost : List String}
    (h : ArgumentsBecome Injects r args us a c lost)
    (hothers : ∀ t ∈ args, t.isFunctionLiteral = false → t.Fixed)
    (hliterals : r.Descends → ∀ (k : Shell) params body, k.literal params body ∈ args →
      params.Fixed ∧ body.Fixed) (ha : a.Quiet) (hc : c.Quiet) : us = args := by
  induction args generalizing us a c lost with
  | nil =>
    cases h
    rfl
  | cons t ts ih =>
    have htail : ∀ {us a c lost}, ArgumentsBecome Injects r ts us a c lost → a.Quiet → c.Quiet →
        us = ts := fun h => ih h (fun u hu => hothers u (.tail _ hu))
      fun hr k params body hmem => hliterals hr k params body (.tail _ hmem)
    cases h with
    | other hlit ht hrest =>
      obtain ⟨hquiet, hquiet'⟩ := Outline.quiet_append.1 hc
      rw [hothers t (.head _) hlit _ _ _ ht hquiet, htail hrest ha hquiet']
    | entered hr ht hrest =>
      obtain ⟨hquiet, hquiet'⟩ := Outline.quiet_append.1 ha
      rw [fixed_literal ht (fun k params body heq => hliterals hr k params body (heq ▸ .head _))
        hquiet, htail hrest hquiet' hc]
    | passed _ _ _ hrest => rw [htail hrest ha hc]
    | setup k => rw [Handled.result_of_written (ha.handled k (.head _))]
    | usage k => rw [Handled.result_of_written (ha.handled k (.head _))]

/-- A settled phrase stays as it is if no variable is declared or written on the way. -/
theorem Settled.fixed {t : Tree} (h : t.Settled) : t.Fixed := by
  induction h with
  | boundary hl s ts =>
    intro u a lost hu ha
    cases hu with
    | boundary => rfl
    | parts hl' => exact absurd hl (by simp [hl'])
    | call => exact absurd hl (by simp [Label.isBoundary])
  | parts hl hcall _ ih =>
    intro u a lost hu ha
    cases hu with
    | boundary => rfl
    | parts _ _ hall => rw [fixed_all hall ih ha]
    | call => exact absurd rfl (hcall _ _ _ _ rfl)
  | call hargs _ _ _ _ _ ihcallee ihtypes ihothers ihparams ihbody =>
    intro u a lost hu ha
    cases hu with
    | boundary hl => exact absurd hl (by simp [Label.isBoundary])
    | parts _ hcall => exact absurd rfl (hcall _ _ _ _ rfl)
    | call harguments hcallee htypes =>
      obtain ⟨hqa, hq⟩ := Outline.quiet_append.1 ha
      obtain ⟨hqb, hq⟩ := Outline.quiet_append.1 hq
      obtain ⟨hqc, hqd⟩ := Outline.quiet_append.1 hq
      have hliterals : _ → ∀ (k : Shell) params body, k.literal params body ∈ _ →
          params.Fixed ∧ body.Fixed := fun hr k params body hmem =>
        ⟨ihparams hr k params body hmem, ihbody hr k params body hmem⟩
      rw [fixed_arguments harguments ihothers hliterals hqa hqc, hargs,
        ihcallee _ _ _ hcallee hqb, ihtypes _ _ _ htypes hqd]

/-! ### Settled phrases outside of all functions -/

/-- The last arguments of the calls are converted in the suites of the phrase. -/
inductive SettledItem : Tree → Prop
  | boundary {l : Label} (h : l.isBoundary = true) (s : Span) (ts : List Tree) :
      SettledItem (node l s ts)
  | parts {l : Label} {s : Span} {ts : List Tree} (h : l.isBoundary = false)
      (hcall : ∀ callee gs args types, l = .call → ts = [callee, node .group gs args, types] →
        False) (hparts : ∀ t ∈ ts, SettledItem t) : SettledItem (node l s ts)
  | call {s : Span} {callee : Tree} {gs : Span} {args : List Tree} {types : Tree}
      (hr : callee.calleeRole ≠ .createsSuite) (hcallee : SettledItem callee)
      (htypes : SettledItem types) (hargs : ∀ t ∈ args, SettledItem t) :
      SettledItem (call s callee gs args types)
  | suite {s : Span} {callee : Tree} {gs : Span} {args : List Tree} {types : Tree}
      (hr : callee.calleeRole = .createsSuite) (hargs : (convertLast args).1 = args)
      (hcallee : SettledItem callee) (htypes : SettledItem types)
      (hothers : ∀ t ∈ args, t.isFunctionLiteral = false → SettledItem t)
      (hliterals : ∀ (k : Shell) params body, k.literal params body ∈ args →
        params.Settled ∧ body.Settled) : SettledItem (call s callee gs args types)

/-- The phrase outside of all functions stays as it is if no variable is declared or written on
the way. -/
def FixedItem (t : Tree) : Prop :=
  ∀ u as lost, ItemBecomes Injects t u as lost → (∀ a ∈ as, Outline.Quiet a) → u = t

lemma fixed_items {ts us : List Tree} {as : List Trace} {lost : List String}
    (h : ItemsBecome Injects ts us as lost) (hts : ∀ t ∈ ts, t.FixedItem)
    (ha : ∀ a ∈ as, Outline.Quiet a) : us = ts := by
  induction ts generalizing us as lost with
  | nil =>
    cases h
    rfl
  | cons t ts ih =>
    cases h with
    | cons ht hrest =>
      obtain ⟨hquiet, hquiet'⟩ := List.forall_mem_append.1 ha
      rw [hts t (.head _) _ _ _ ht hquiet, ih hrest (fun u hu => hts u (.tail _ hu)) hquiet']

lemma fixed_suiteArguments {args us : List Tree} {a : Trace} {bs : List Trace}
    {lost : List String} (h : SuiteArgumentsBecome Injects args us a bs lost)
    (hothers : ∀ t ∈ args, t.isFunctionLiteral = false → t.FixedItem)
    (hliterals : ∀ (k : Shell) params body, k.literal params body ∈ args →
      params.Settled ∧ body.Settled) (ha : a.Quiet) (hb : ∀ b ∈ bs, Outline.Quiet b) :
    us = args := by
  induction args generalizing us a bs lost with
  | nil =>
    cases h
    rfl
  | cons t ts ih =>
    have htail : ∀ {us a bs lost}, SuiteArgumentsBecome Injects ts us a bs lost → a.Quiet →
        (∀ b ∈ bs, Outline.Quiet b) → us = ts := fun h =>
      ih h (fun u hu => hothers u (.tail _ hu))
        fun k params body hmem => hliterals k params body (.tail _ hmem)
    cases h with
    | other hlit ht hrest =>
      obtain ⟨hquiet, hquiet'⟩ := List.forall_mem_append.1 hb
      rw [hothers t (.head _) hlit _ _ _ ht hquiet, htail hrest ha hquiet']
    | entered ht hrest =>
      obtain ⟨hquiet, hquiet'⟩ := Outline.quiet_append.1 ha
      have hinner : ∀ (k : Shell) params body, t = k.literal params body →
          params.Fixed ∧ body.Fixed := by
        rintro k params body rfl
        obtain ⟨hparams, hbody⟩ := hliterals k params body (.head _)
        exact ⟨hparams.fixed, hbody.fixed⟩
      rw [fixed_literal ht hinner hquiet, htail hrest hquiet' hb]

/-- A settled phrase outside of all functions stays as it is if no variable is declared or written
on the way. -/
theorem SettledItem.fixed {t : Tree} (h : t.SettledItem) : t.FixedItem := by
  induction h with
  | boundary hl s ts =>
    intro u as lost hu ha
    cases hu with
    | boundary => rfl
    | parts hl' => exact absurd hl (by simp [hl'])
    | call => exact absurd hl (by simp [Label.isBoundary])
    | suite => exact absurd hl (by simp [Label.isBoundary])
  | parts hl hcall _ ih =>
    intro u as lost hu ha
    cases hu with
    | boundary => rfl
    | parts _ _ hall => rw [fixed_items hall ih ha]
    | call => exact absurd rfl (hcall _ _ _ _ rfl)
    | suite => exact absurd rfl (hcall _ _ _ _ rfl)
  | call hr _ _ _ ihcallee ihtypes ihargs =>
    intro u as lost hu ha
    cases hu with
    | boundary hl => exact absurd hl (by simp [Label.isBoundary])
    | parts _ hcall => exact absurd rfl (hcall _ _ _ _ rfl)
    | call _ hcallee hargs htypes =>
      obtain ⟨hqa, hq⟩ := List.forall_mem_append.1 ha
      obtain ⟨hqb, hqc⟩ := List.forall_mem_append.1 hq
      rw [ihcallee _ _ _ hcallee hqa, fixed_items hargs ihargs hqb, ihtypes _ _ _ htypes hqc]
    | suite hr' => exact absurd hr' hr
  | suite hr hargs _ _ _ hliterals ihcallee ihtypes ihothers =>
    intro u as lost hu ha
    cases hu with
    | boundary hl => exact absurd hl (by simp [Label.isBoundary])
    | parts _ hcall => exact absurd rfl (hcall _ _ _ _ rfl)
    | call hr' => exact absurd hr hr'
    | suite _ harguments hcallee htypes =>
      obtain ⟨hqa, hq⟩ := List.forall_mem_cons.1 ha
      obtain ⟨hqb, hq⟩ := List.forall_mem_append.1 hq
      obtain ⟨hqc, hqd⟩ := List.forall_mem_append.1 hq
      rw [fixed_suiteArguments harguments ihothers hliterals hqa hqc, hargs,
        ihcallee _ _ _ hcallee hqb, ihtypes _ _ _ htypes hqd]

end Tree

end ContextHoist
