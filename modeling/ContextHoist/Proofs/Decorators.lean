/-
Source files without decorators of parameters.

Only decorators of parameters are lost in a conversion, so where no parameter has any, nothing is
lost.

* `Tree.undecorated`: no parameter in a phrase has decorators.
* `Tree.lossless`, `Tree.losslessItem`: nothing is lost in the conversion of such a phrase.
-/
import ContextHoist.Proofs.Placement
import ContextHoist.Proofs.Stability

namespace ContextHoist

namespace Tree

/-! ### Decorators -/

/-- Whether no parameter in a phrase has decorators. -/
def undecorated (t : Tree) : Bool :=
  t.all fun u => u.parameterDecorators?.all fun decorators => decorators.parts.isEmpty

/-- Where there are no decorators, there are none after a conversion. -/
lemma decorators_of_becomes {Put : List String → Tree → Tree → Prop} {t u decorators : Tree}
    {a : Trace} {lost : List String} (h : Becomes Put t u a lost) (ht : t.undecorated = true)
    (hu : u.parameterDecorators? = some decorators) : decorators.parts = [] := by
  unfold parameterDecorators? at hu
  split at hu
  · obtain rfl := Option.some.inj hu
    cases h with
    | boundary hl => exact absurd hl (by simp [Label.isBoundary])
    | parts _ _ hall =>
      obtain _ | ⟨hd, _ | ⟨-, hnil⟩⟩ := hall
      cases hnil
      -- decorators without parts stay without parts
      have hleaf := List.isEmpty_iff.1 (all_iff.1 ht _ (.self _))
      cases hd with
      | boundary => exact hleaf
      | parts _ _ hall =>
        simp only [parts_node] at hleaf
        subst hleaf
        cases hall
        rfl
      | call => exact absurd hleaf (by simp)
  · exact absurd hu (by simp)

lemma outline_of_parts {t : Tree} (h : t.parts = []) : t.outline = .done := by
  obtain ⟨l, s, ts⟩ := t
  obtain rfl : ts = [] := h
  rw [outline_node (fun _ _ _ _ _ h => absurd h (by simp))]
  split <;> rfl

/-- No tests stand in decorators that are not there. -/
lemma decoratorReads_of_becomes {Put : List String → Tree → Tree → Prop} {t u : Tree}
    {a : Trace} {lost : List String} (h : Becomes Put t u a lost) (ht : t.undecorated = true) :
    u.decoratorReads = [] := by
  have hall : ∀ {ts us : List Tree} {a lost}, AllBecome Put ts us a lost →
      (∀ t ∈ ts, t.undecorated = true) → ∀ p ∈ us, ∀ decorators,
        p.parameterDecorators? = some decorators → decorators.parts = [] := by
    intro ts
    induction ts with
    | nil =>
      intro us a lost h
      cases h
      simp
    | cons t ts ih =>
      intro us a lost h hts
      obtain ⟨hhead, htail⟩ := List.forall_mem_cons.1 hts
      cases h with
      | cons ha hb =>
        exact List.forall_mem_cons.2 ⟨fun _ => decorators_of_becomes ha hhead, ih hb htail⟩
  unfold decoratorReads
  split
  · rw [List.flatMap_eq_nil_iff]
    intro decorators hmem
    obtain ⟨p, hp, hp'⟩ := List.mem_filterMap.1 hmem
    cases h with
    | boundary hl => exact absurd hl (by simp [Label.isBoundary])
    | parts _ _ h =>
      rw [outline_of_parts (hall h (all_of_mem ht) p hp decorators hp')]
      rfl
  · rfl

/-! ### Conversions that lose nothing -/

/-- Nothing is lost in the conversion of the phrase. -/
def Lossless (t : Tree) : Prop :=
  ∀ u a lost, Becomes Injects t u a lost → lost = []

lemma lossless_all {ts us : List Tree} {a : Trace} {lost : List String}
    (h : AllBecome Injects ts us a lost) (hts : ∀ t ∈ ts, t.Lossless) : lost = [] := by
  induction ts generalizing us a lost with
  | nil =>
    cases h
    rfl
  | cons t ts ih =>
    cases h with
    | cons ht hrest =>
      rw [hts t (.head _) _ _ _ ht, ih hrest fun u hu => hts u (.tail _ hu)]
      rfl

/-- Nothing is lost of a function literal whose parameters have no decorators. -/
lemma lossless_literal {t u : Tree} {a : Trace} {lost : List String}
    (h : LiteralBecomes Injects t u a lost) (ht : t.undecorated = true)
    (hinner : ∀ (k : Shell) params body, t = k.literal params body →
      params.Lossless ∧ body.Lossless) : lost = [] ∧ u.lostReads = [] := by
  cases h with
  | @entered k params params' body body' _ a b _ _ hoisted hparams hbody hu =>
    obtain ⟨hp, hb⟩ := hinner k params body rfl
    obtain ⟨body'', hinject, -⟩ := inject_literal k params' body' (hoisted.map (·.name))
    -- variables are declared in the body, so the parameters are those of the account
    have hreads := decoratorReads_of_becomes hparams ((k.has_params params body).all ht)
    rw [hp _ _ _ hparams, hb _ _ _ hbody, hu.trans hinject]
    refine ⟨rfl, ?_⟩
    cases k with
    | function => simp [Shell.literal, lostReads, hreads]
    | arrow => rfl

lemma lossless_arguments {r : Role} {args us : List Tree} {a c : Trace} {lost : List String}
    (h : ArgumentsBecome Injects r args us a c lost) (hargs : ∀ t ∈ args, t.undecorated = true)
    (hothers : ∀ t ∈ args, t.isFunctionLiteral = false → t.Lossless)
    (hliterals : ∀ (k : Shell) params body, k.literal params body ∈ args →
      params.Lossless ∧ body.Lossless) :
    lost = [] ∧ (r.Descends → ∀ u ∈ us, u.lostReads = []) := by
  induction args generalizing us a c lost with
  | nil =>
    cases h
    exact ⟨rfl, by simp⟩
  | cons t ts ih =>
    have htail : ∀ {us a c lost}, ArgumentsBecome Injects r ts us a c lost → _ := fun h =>
      ih h (fun u hu => hargs u (.tail _ hu)) (fun u hu => hothers u (.tail _ hu))
        fun k params body hmem => hliterals k params body (.tail _ hmem)
    cases h with
    | other hlit ht hrest =>
      obtain ⟨hlost, hreads⟩ := htail hrest
      rw [hothers t (.head _) hlit _ _ _ ht, hlost]
      refine ⟨rfl, fun hr => List.forall_mem_cons.2 ⟨?_, hreads hr⟩⟩
      exact lostReads_of_not (ht.alike.isFunctionLiteral_eq.trans hlit)
    | entered hr ht hrest =>
      obtain ⟨hlost, hreads⟩ := htail hrest
      obtain ⟨hlost', hreads'⟩ := lossless_literal ht (hargs t (.head _))
        fun k params body heq => hliterals k params body (heq ▸ .head _)
      rw [hlost, hlost']
      exact ⟨rfl, fun hr => List.forall_mem_cons.2 ⟨hreads', hreads hr⟩⟩
    | passed hr _ _ hrest => exact ⟨(htail hrest).1, fun hr' => absurd hr' hr⟩
    | setup => exact ⟨rfl, by simp [Role.Descends]⟩
    | usage => exact ⟨rfl, by simp [Role.Descends]⟩

/-- Nothing is lost when the last of some arguments is converted, if nothing is lost of them. -/
lemma lostReads_arguments {r : Role} {args : List Tree}
    (h : r.Descends → ∀ t ∈ args, t.lostReads = []) : ContextHoist.lostReads r args = [] := by
  have hlast : r.Descends → (args.getLast?.map lostReads).getD [] = [] := by
    intro hr
    cases hargs : args.getLast? with
    | none => rfl
    | some t => exact h hr t (List.mem_of_getLast? hargs)
  cases r with
  | createsSuite => exact hlast (.inl rfl)
  | ordinary => exact hlast (.inr rfl)
  | installsSetup => rfl
  | usesContext => rfl

/-- Where no parameter has decorators, nothing is lost. -/
theorem lossless {t : Tree} (ht : t.undecorated = true) : t.Lossless := by
  induction t using inductBelow with
  | node l s ts ih =>
    have hbelow : ∀ t ∈ ts, ∀ u, t.Has u → u.Lossless := fun t hmem u hu =>
      ih t hmem u hu ((Has.part hmem hu).all ht)
    intro u a lost h
    cases h with
    | boundary => rfl
    | parts _ _ hall => exact lossless_all hall fun t hmem => hbelow t hmem t (.self t)
    | @call _ gs callee callee' types types' args args' _ _ _ _ _ _ _ harguments hcallee htypes =>
      have harg : ∀ t ∈ args, ∀ u, t.Has u → u.Lossless := fun t hmem u hu =>
        hbelow _ (.tail _ (.head _)) u (.part hmem hu)
      obtain ⟨hlost, hreads⟩ := lossless_arguments harguments
        (fun t hmem => (call_has_arg hmem s callee gs types).all ht)
        (fun t hmem _ => harg t hmem t (.self t)) fun k params body hmem =>
          ⟨harg _ hmem _ (k.has_params params body), harg _ hmem _ (k.has_body params body)⟩
      rw [lostReads_arguments hreads, hlost, hbelow _ (.head _) _ (.self _) _ _ _ hcallee,
        hbelow _ (.tail _ (.tail _ (.head _))) _ (.self _) _ _ _ htypes]
      rfl

/-! ### Outside of all functions -/

/-- Nothing is lost in the conversion of the phrase outside of all functions. -/
def LosslessItem (t : Tree) : Prop :=
  ∀ u as lost, ItemBecomes Injects t u as lost → lost = []

lemma lossless_items {ts us : List Tree} {as : List Trace} {lost : List String}
    (h : ItemsBecome Injects ts us as lost) (hts : ∀ t ∈ ts, t.LosslessItem) : lost = [] := by
  induction ts generalizing us as lost with
  | nil =>
    cases h
    rfl
  | cons t ts ih =>
    cases h with
    | cons ht hrest =>
      rw [hts t (.head _) _ _ _ ht, ih hrest fun u hu => hts u (.tail _ hu)]
      rfl

lemma lossless_suiteArguments {args us : List Tree} {a : Trace} {bs : List Trace}
    {lost : List String} (h : SuiteArgumentsBecome Injects args us a bs lost)
    (hargs : ∀ t ∈ args, t.undecorated = true)
    (hothers : ∀ t ∈ args, t.isFunctionLiteral = false → t.LosslessItem) :
    lost = [] ∧ ∀ u ∈ us, u.lostReads = [] := by
  induction args generalizing us a bs lost with
  | nil =>
    cases h
    exact ⟨rfl, by simp⟩
  | cons t ts ih =>
    have htail : ∀ {us a bs lost}, SuiteArgumentsBecome Injects ts us a bs lost → _ := fun h =>
      ih h (fun u hu => hargs u (.tail _ hu)) fun u hu => hothers u (.tail _ hu)
    cases h with
    | other hlit ht hrest =>
      obtain ⟨hlost, hreads⟩ := htail hrest
      rw [hothers t (.head _) hlit _ _ _ ht, hlost]
      refine ⟨rfl, List.forall_mem_cons.2 ⟨?_, hreads⟩⟩
      exact lostReads_of_not (ht.alike.isFunctionLiteral_eq.trans hlit)
    | entered ht hrest =>
      have hinner : ∀ (k : Shell) params body, t = k.literal params body →
          params.Lossless ∧ body.Lossless := by
        rintro k params body rfl
        have hliteral := hargs _ (.head _)
        exact ⟨lossless ((k.has_params params body).all hliteral),
          lossless ((k.has_body params body).all hliteral)⟩
      obtain ⟨hlost, hreads⟩ := htail hrest
      obtain ⟨hlost', hreads'⟩ := lossless_literal ht (hargs t (.head _)) hinner
      rw [hlost, hlost']
      exact ⟨rfl, List.forall_mem_cons.2 ⟨hreads', hreads⟩⟩

/-- Where no parameter has decorators, nothing is lost outside of all functions either. -/
theorem losslessItem {t : Tree} (ht : t.undecorated = true) : t.LosslessItem := by
  induction t using inductBelow with
  | node l s ts ih =>
    have hbelow : ∀ t ∈ ts, ∀ u, t.Has u → u.LosslessItem := fun t hmem u hu =>
      ih t hmem u hu ((Has.part hmem hu).all ht)
    intro u as lost h
    cases h with
    | boundary => rfl
    | parts _ _ hall => exact lossless_items hall fun t hmem => hbelow t hmem t (.self t)
    | call _ hcallee hargs htypes =>
      rw [hbelow _ (.head _) _ (.self _) _ _ _ hcallee,
        lossless_items hargs fun t hmem => hbelow _ (.tail _ (.head _)) t (.part hmem (.self t)),
        hbelow _ (.tail _ (.tail _ (.head _))) _ (.self _) _ _ _ htypes]
      rfl
    | @suite _ gs callee callee' types types' args args' _ _ _ _ _ _ _ _ harguments hcallee
        htypes =>
      obtain ⟨hlost, hreads⟩ := lossless_suiteArguments harguments
        (fun t hmem => (call_has_arg hmem s callee gs types).all ht)
        fun t hmem _ => hbelow _ (.tail _ (.head _)) t (.part hmem (.self t))
      rw [lostReads_arguments fun _ => hreads, hlost, hbelow _ (.head _) _ (.self _) _ _ _ hcallee,
        hbelow _ (.tail _ (.tail _ (.head _))) _ (.self _) _ _ _ htypes]
      rfl

end Tree

end ContextHoist
