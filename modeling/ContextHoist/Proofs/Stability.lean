/-
What a conversion makes of a phrase is settled.

In a converted phrase the last arguments are converted, so a second conversion finds nothing to do
there.  What it finds in the phrase matches the trace of the first one.

* `Tree.Alike`: a converted phrase looks like the phrase itself as far as roles, calls and
  function literals are concerned.
* `Tree.stable`: a converted phrase is settled, and what is found in it matches the trace.
* `Tree.stableItem`: the same outside of all functions.
-/
import ContextHoist.Proofs.Losses
import ContextHoist.Proofs.Suites

namespace ContextHoist

/-! ### Shapes that stay -/

namespace Tree

/-- The phrases are of the same kind, and they are the same if they have a scope of their own. -/
def Near (t u : Tree) : Prop :=
  u.label = t.label ∧ (u.label.isBoundary = true → u = t)

/-- The phrases are the same, or they are of the same kind and have no scope of their own, and
their parts are of the same kinds. -/
def Alike (t u : Tree) : Prop :=
  u = t ∨ ∃ l s ts us, l.isBoundary = false ∧ t = node l s ts ∧ u = node l s us ∧
    List.Forall₂ Near ts us

namespace Alike

variable {t u : Tree}

lemma near (h : t.Alike u) : t.Near u := by
  rcases h with rfl | ⟨l, s, ts, us, hl, rfl, rfl, -⟩
  · exact ⟨rfl, fun _ => rfl⟩
  · exact ⟨rfl, fun h => absurd h (by simp [label, hl])⟩

/-- The role of a callee stays. -/
lemma calleeRole_eq (h : t.Alike u) : u.calleeRole = t.calleeRole := by
  have hcons : ∀ l s t ts, (node l s (t :: ts)).calleeRole = .ordinary := by
    intro l s t ts
    unfold calleeRole
    split
    · next heq => exact absurd (Tree.node.inj heq).2.2 (by simp)
    · rfl
  rcases h with rfl | ⟨l, s, ts, us, -, rfl, rfl, hparts⟩
  · rfl
  · cases hparts with
    | nil => rfl
    | cons => rw [hcons, hcons]

/-- What is a function literal stays one, and nothing else becomes one. -/
lemma isFunctionLiteral_eq (h : t.Alike u) : u.isFunctionLiteral = t.isFunctionLiteral := by
  rcases h with rfl | ⟨l, s, ts, us, hl, rfl, rfl, hparts⟩
  · rfl
  · rw [Bool.eq_iff_iff]
    constructor
    · intro hlit
      obtain ⟨k, params, body, heq⟩ := exists_shell hlit
      cases k with
      | arrow =>
        obtain ⟨rfl, -, -⟩ := Tree.node.inj heq
        exact absurd hl (by simp [Label.isBoundary])
      | function =>
        obtain ⟨rfl, rfl, rfl⟩ := Tree.node.inj heq
        -- the function under the expression has a scope of its own, so it is the same one
        obtain _ | ⟨-, _ | ⟨hfunction, hnil⟩⟩ := hparts
        cases hnil
        rw [← hfunction.2 rfl]
        rfl
    · intro hlit
      obtain ⟨k, params, body, heq⟩ := exists_shell hlit
      cases k with
      | arrow =>
        obtain ⟨rfl, -, -⟩ := Tree.node.inj heq
        exact absurd hl (by simp [Label.isBoundary])
      | function =>
        obtain ⟨rfl, rfl, rfl⟩ := Tree.node.inj heq
        obtain _ | ⟨-, _ | ⟨hfunction, hnil⟩⟩ := hparts
        cases hnil
        rw [hfunction.2 (hfunction.1 ▸ rfl)]
        rfl

end Alike

/-- What has not the shape of a call does not get it. -/
lemma not_call_of_near {l : Label} {ts us : List Tree} (h : List.Forall₂ Near ts us)
    (hcall : ∀ callee gs args types, l = .call → ts = [callee, node .group gs args, types] →
      False) :
    ∀ callee gs args types, l = .call → us = [callee, node .group gs args, types] → False := by
  rintro callee gs args types hl rfl
  obtain _ | ⟨-, _ | @⟨⟨l', s, ts⟩, _, _, _, hgroup, _ | ⟨-, hnil⟩⟩⟩ := h
  cases hnil
  obtain rfl : Label.group = l' := hgroup.1
  exact hcall _ _ _ _ hl rfl

end Tree

section Rules

variable {Put : List String → Tree → Tree → Prop}

mutual

lemma Becomes.alike {t u : Tree} {a : Trace} {lost : List String} (h : Becomes Put t u a lost) :
    t.Alike u := by
  cases h with
  | boundary => exact .inl rfl
  | parts hl _ ha => exact .inr ⟨_, _, _, _, hl, rfl, rfl, ha.near⟩
  | call _ hb hd =>
    refine .inr ⟨_, _, _, _, rfl, rfl, rfl, .cons hb.alike.near (.cons ?_ (.cons ?_ .nil))⟩
    · exact ⟨rfl, fun h => absurd h (by simp [Tree.label, Label.isBoundary])⟩
    · exact hd.alike.near

lemma AllBecome.near {ts us : List Tree} {a : Trace} {lost : List String}
    (h : AllBecome Put ts us a lost) : List.Forall₂ Tree.Near ts us := by
  cases h with
  | nil => exact .nil
  | cons ha hb => exact .cons ha.alike.near hb.near

end

lemma ArgumentsBecome.ne_nil {r : Role}
    {ts us : List Tree} {a c : Trace} {lost : List String}
    (h : ArgumentsBecome Put r ts us a c lost) (hts : ts ≠ []) : us ≠ [] := by
  cases h with
  | nil => exact absurd rfl hts
  | other => exact List.cons_ne_nil _ _
  | entered => exact List.cons_ne_nil _ _
  | passed => exact List.cons_ne_nil _ _
  | setup => exact List.cons_ne_nil _ _
  | usage => exact List.cons_ne_nil _ _

end Rules

/-! ### Arguments -/

/-- The arguments of a call with the given role are settled; for those that are no function
literals this is a parameter. -/
structure SettledArguments (P : Tree → Prop) (r : Role) (args : List Tree) : Prop where
  others : ∀ t ∈ args, t.isFunctionLiteral = false → P t
  literals : r.Descends → ∀ (k : Shell) params body, k.literal params body ∈ args →
    params.Settled ∧ body.Settled

namespace SettledArguments

variable {P : Tree → Prop} {r : Role} {args : List Tree}

lemma nil : SettledArguments P r [] :=
  ⟨by simp, by simp⟩

lemma cons_other {t : Tree} (ht : t.isFunctionLiteral = false) (hsettled : P t)
    (h : SettledArguments P r args) : SettledArguments P r (t :: args) := by
  constructor
  · exact List.forall_mem_cons.2 ⟨fun _ => hsettled, h.others⟩
  · intro hr k params body hmem
    rcases List.mem_cons.1 hmem with rfl | hmem
    · exact absurd ht (by simp)
    · exact h.literals hr k params body hmem

lemma cons_literal {k : Shell} {params body : Tree}
    (hinner : r.Descends → params.Settled ∧ body.Settled) (h : SettledArguments P r args) :
    SettledArguments P r (k.literal params body :: args) := by
  constructor
  · exact List.forall_mem_cons.2 ⟨fun hlit => absurd hlit (by simp), h.others⟩
  · intro hr k' params' body' hmem
    rcases List.mem_cons.1 hmem with heq | hmem
    · obtain ⟨rfl, rfl⟩ := Shell.literal_inj heq
      exact hinner hr
    · exact h.literals hr k' params' body' hmem

/-- A callback that is not entered need not be settled. -/
lemma callback (hr : ¬r.Descends) {t : Tree} (ht : t.isFunctionLiteral = true) :
    SettledArguments P r [t] := by
  obtain ⟨k, params, body, rfl⟩ := Tree.exists_shell ht
  exact nil.cons_literal fun hr' => absurd hr' hr

/-- The last argument may be replaced. -/
lemma concat {us : List Tree} {t t' : Tree} (h : SettledArguments P r (us ++ [t]))
    (h' : SettledArguments P r [t']) : SettledArguments P r (us ++ [t']) := by
  constructor
  · intro u hu hlit
    rcases List.mem_append.1 hu with hu | hu
    · exact h.others u (List.mem_append_left _ hu) hlit
    · exact h'.others u hu hlit
  · intro hr k params body hmem
    rcases List.mem_append.1 hmem with hmem | hmem
    · exact h.literals hr k params body (List.mem_append_left _ hmem)
    · exact h'.literals hr k params body hmem

/-- The arguments stay settled when the last one is converted. -/
lemma convert (hP : ∀ {t : Tree}, t.isFunctionLiteral = false → P t → P t.arrowify)
    (h : SettledArguments P r args) : SettledArguments P r (convertLast args).1 := by
  rcases List.eq_nil_or_concat args with rfl | ⟨us, t, rfl⟩
  · exact h
  · rw [List.concat_eq_append] at h ⊢
    rw [convertLast_concat]
    refine h.concat ?_
    have hlast : t ∈ us ++ [t] := by simp
    cases hlit : t.isFunctionLiteral with
    | false =>
      exact nil.cons_other ((Tree.isFunctionLiteral_arrowify t).trans hlit)
        (hP hlit (h.others t hlast hlit))
    | true =>
      obtain ⟨k, params, body, rfl⟩ := Tree.exists_shell hlit
      have hinner := fun hr => h.literals hr k params body hlast
      rw [Tree.arrowify_literal]
      rcases Tree.toArrow_literal k params body with harrow | ⟨-, -, harrow⟩
      · rw [harrow]
        exact nil.cons_literal hinner
      · obtain ⟨s, self, isAsync, isGenerator, fs, decorators, typeParams, result, -, -,
          harrow⟩ := harrow
        have harrow' : SettledArguments P r [(Shell.arrow fs isAsync typeParams result).literal
            params.parameterPatterns body] :=
          nil.cons_literal fun hr => ⟨(hinner hr).1.parameterPatterns, (hinner hr).2⟩
        rw [harrow]
        exact harrow'

end SettledArguments

namespace Tree

lemma outlineEntered_other (r : Role) {t : Tree} (h : t.isFunctionLiteral = false)
    (ts : List Tree) : outlineEntered r (t :: ts) = outlineEntered r ts := by
  have htrailing : trailingLiteral? (t :: ts) = trailingLiteral? ts := by
    cases ts with
    | nil => simp [trailingLiteral?, h]
    | cons u ts => simp [trailingLiteral?, List.getLast?_cons_cons]
  have hliterals : outlineLiterals (t :: ts) = outlineLiterals ts := by
    rw [outlineLiterals, outlineLiteral_of_not h, Outline.done_append]
  cases r with
  | createsSuite => exact hliterals
  | ordinary => exact hliterals
  | installsSetup => rw [outlineEntered, htrailing, outlineEntered]
  | usesContext => rw [outlineEntered, htrailing, outlineEntered]

lemma outlineOthers_literal {t : Tree} (h : t.isFunctionLiteral = true) (ts : List Tree) :
    outlineOthers (t :: ts) = outlineOthers ts := by
  rw [outlineOthers, if_pos h]

/-- Arguments before others are not the last ones. -/
lemma outlineEntered_passed {r : Role} (hr : ¬r.Descends) {ts : List Tree} (h : ts ≠ [])
    (t : Tree) : outlineEntered r (t :: ts) = outlineEntered r ts := by
  obtain ⟨u, us, rfl⟩ := List.exists_cons_of_ne_nil h
  have htrailing : trailingLiteral? (t :: u :: us) = trailingLiteral? (u :: us) := by
    rw [trailingLiteral?, trailingLiteral?, List.getLast?_cons_cons]
  cases r with
  | createsSuite => exact absurd (.inl rfl) hr
  | ordinary => exact absurd (.inr rfl) hr
  | installsSetup => rw [outlineEntered, htrailing, outlineEntered]
  | usesContext => rw [outlineEntered, htrailing, outlineEntered]

/-! ### Phrases -/

/-- Whatever the phrase becomes is settled, and what is found in it matches the trace. -/
def Stable (t : Tree) : Prop :=
  ∀ u a lost, Becomes Injects t u a lost → a.Resolved →
    u.Settled ∧ Outline.Matches u.outline a lost

lemma stable_all {ts us : List Tree} {a : Trace} {lost : List String}
    (h : AllBecome Injects ts us a lost) (hts : ∀ t ∈ ts, t.Stable) (ha : a.Resolved) :
    (∀ u ∈ us, u.Settled) ∧ Outline.Matches (outlineAll us) a lost := by
  induction ts generalizing us a lost with
  | nil =>
    cases h
    exact ⟨by simp, Outline.matches_done⟩
  | cons t ts ih =>
    cases h with
    | cons ht hrest =>
      obtain ⟨hr, hr'⟩ := Outline.resolved_append.1 ha
      obtain ⟨hsettled, hmatches⟩ := hts t (.head _) _ _ _ ht hr
      obtain ⟨hsettled', hmatches'⟩ := ih hrest (fun u hu => hts u (.tail _ hu)) hr'
      exact ⟨List.forall_mem_cons.2 ⟨hsettled, hsettled'⟩, hmatches.append hmatches'⟩

/-- The parameters and the body of a converted function literal are settled, and what is found in
them matches the trace. -/
lemma stable_literal {t u : Tree} {a : Trace} {lost : List String}
    (h : LiteralBecomes Injects t u a lost)
    (hinner : ∀ (k : Shell) params body, t = k.literal params body → params.Stable ∧ body.Stable)
    (ha : a.Resolved) :
    ∃ (k : Shell) (params body : Tree), u = k.literal params body ∧ params.Settled ∧
      body.Settled ∧ Outline.Matches u.outlineLiteral a lost := by
  cases h with
  | @entered k params params' body body' u a b lost₁ lost₂ hoisted hparams hbody hu =>
    obtain ⟨hp, hb⟩ := hinner k params body rfl
    obtain ⟨hr, hr'⟩ := Outline.resolved_append.1 ha.literal
    obtain ⟨hsettled, hmatches⟩ := hp _ _ _ hparams hr
    obtain ⟨hsettled', hmatches'⟩ := hb _ _ _ hbody hr'
    obtain ⟨body'', hinject, houtline, hkept⟩ :=
      inject_literal k params' body' (hoisted.map (·.name))
    refine ⟨k, params', body'', hu.trans hinject, hsettled, hkept hsettled', ?_⟩
    rw [hu.trans hinject, outlineLiteral_literal, houtline]
    exact (hmatches.append hmatches').literal _ _

/-- Converted arguments are settled, and what is found in them matches the traces. -/
lemma stable_arguments {r : Role} {args us : List Tree} {a c : Trace} {lost : List String}
    (h : ArgumentsBecome Injects r args us a c lost)
    (hothers : ∀ t ∈ args, t.isFunctionLiteral = false → t.Stable)
    (hliterals : r.Descends → ∀ (k : Shell) params body, k.literal params body ∈ args →
      params.Stable ∧ body.Stable) (ha : a.Resolved) (hc : c.Resolved) :
    SettledArguments Settled r us ∧ ∃ lost₁ lost₂, lost.Perm (lost₁ ++ lost₂) ∧
      Outline.Matches (outlineEntered r us) a lost₁ ∧
      Outline.Matches (outlineOthers us) c lost₂ := by
  have htrailing : ∀ {t : Tree}, t.isFunctionLiteral = true → trailingLiteral? [t] = some t := by
    intro t hlit
    rw [← List.nil_append [t], trailingLiteral_concat, if_pos hlit]
  induction args generalizing us a c lost with
  | nil =>
    cases h
    refine ⟨.nil, [], [], List.Perm.refl _, ?_, Outline.matches_done⟩
    cases r <;> exact Outline.matches_done
  | cons t ts ih =>
    have htail : ∀ {us a c lost}, ArgumentsBecome Injects r ts us a c lost → a.Resolved →
        c.Resolved → _ := fun h => ih h (fun u hu => hothers u (.tail _ hu))
      fun hr k params body hmem => hliterals hr k params body (.tail _ hmem)
    cases h with
    | @other _ _ _ _ _ _ _ _ lost _ hlit ht hrest =>
      obtain ⟨hr, hr'⟩ := Outline.resolved_append.1 hc
      obtain ⟨hsettled, hmatches⟩ := hothers t (.head _) hlit _ _ _ ht hr
      obtain ⟨hargs, lost₁, lost₂, hperm, hentered, hrests⟩ := htail hrest ha hr'
      have hlit' := ht.alike.isFunctionLiteral_eq.trans hlit
      refine ⟨hargs.cons_other hlit' hsettled, lost₁, lost ++ lost₂, ?_, ?_, ?_⟩
      · exact (hperm.append_left _).trans (List.perm_append_comm_assoc _ _ _)
      · rw [outlineEntered_other r hlit']
        exact hentered
      · rw [outlineOthers, if_neg (by simp [hlit'])]
        exact hmatches.append hrests
    | @entered _ _ _ _ _ _ _ _ lost _ hr ht hrest =>
      obtain ⟨hra, hrb⟩ := Outline.resolved_append.1 ha
      obtain ⟨k, params, body, rfl, hparams, hbody, hmatches⟩ := stable_literal ht
        (fun k params body heq => hliterals hr k params body (heq ▸ .head _)) hra
      obtain ⟨hargs, lost₁, lost₂, hperm, hentered, hrests⟩ := htail hrest hrb hc
      refine ⟨hargs.cons_literal fun _ => ⟨hparams, hbody⟩, lost ++ lost₁, lost₂, ?_, ?_, ?_⟩
      · rw [List.append_assoc]
        exact hperm.append_left _
      · rw [outlineEntered_of_descends hr] at hentered ⊢
        exact hmatches.append hentered
      · rw [outlineOthers_literal (by simp)]
        exact hrests
    -- a function literal that is passed over is not the last argument, before and after
    | passed hr hlit hts hrest =>
      obtain ⟨hargs, lost₁, lost₂, hperm, hentered, hrests⟩ := htail hrest ha hc
      obtain ⟨k, params, body, rfl⟩ := exists_shell hlit
      refine ⟨hargs.cons_literal fun hr' => absurd hr' hr, lost₁, lost₂, hperm, ?_, ?_⟩
      · rw [outlineEntered_passed hr (hrest.ne_nil hts)]
        exact hentered
      · rw [outlineOthers_literal hlit]
        exact hrests
    | setup k =>
      obtain ⟨hlit, haccesses⟩ := ha.handled k (.head _)
      rw [ha.installed k (.head _)] at haccesses
      refine ⟨.callback (by simp [Role.Descends]) hlit, [], [], List.Perm.refl _, ?_, ?_⟩
      · rw [outlineEntered, htrailing hlit]
        exact Outline.Matches.setup haccesses k
      · rw [outlineOthers_literal hlit]
        exact Outline.matches_done
    | usage k =>
      obtain ⟨hlit, haccesses⟩ := ha.handled k (.head _)
      refine ⟨.callback (by simp [Role.Descends]) hlit, [], [], List.Perm.refl _, ?_, ?_⟩
      · rw [outlineEntered, htrailing hlit]
        exact Outline.Matches.usage haccesses
      · rw [outlineOthers_literal hlit]
        exact Outline.matches_done

/-- A converted phrase is settled, and what is found in it matches the trace. -/
theorem stable (t : Tree) : t.Stable := by
  induction t using inductBelow with
  | node l s ts ih =>
    intro u a lost h ha
    cases h with
    | boundary hl =>
      refine ⟨.boundary hl s ts, ?_⟩
      have hcall : ∀ callee gs args types, l = .call → ts = [callee, node .group gs args, types] →
          False := by
        rintro callee gs args types rfl
        exact absurd hl (by simp [Label.isBoundary])
      rw [outline_node hcall, if_pos hl]
      exact Outline.matches_done
    | parts hl hcall hall =>
      obtain ⟨hsettled, hmatches⟩ := stable_all hall (fun t ht => ih t ht t (.self t)) ha
      have hcall' := not_call_of_near hall.near hcall
      refine ⟨.parts hl hcall' hsettled, ?_⟩
      rw [outline_node hcall', if_neg (by simp [hl])]
      exact hmatches
    | @call _ gs callee callee' types types' args args' a b c d lost₁ lost₂ lost₃ harguments
        hcallee htypes =>
      have hbelow : ∀ t ∈ args, ∀ u, t.Has u → u.Stable := fun t ht u hu =>
        ih _ (.tail _ (.head _)) u (.part ht hu)
      have hliterals : callee.calleeRole.Descends → ∀ (k : Shell) params body,
          k.literal params body ∈ args → params.Stable ∧ body.Stable :=
        fun _ k params body hmem =>
          ⟨hbelow _ hmem _ (k.has_params params body), hbelow _ hmem _ (k.has_body params body)⟩
      obtain ⟨hra, hr⟩ := Outline.resolved_append.1 ha
      obtain ⟨hrb, hr⟩ := Outline.resolved_append.1 hr
      obtain ⟨hrc, hrd⟩ := Outline.resolved_append.1 hr
      obtain ⟨hsettled, hmatches⟩ := ih _ (.head _) _ (.self _) _ _ _ hcallee hrb
      obtain ⟨hsettled', hmatches'⟩ :=
        ih _ (.tail _ (.tail _ (.head _))) _ (.self _) _ _ _ htypes hrd
      obtain ⟨hargs, lost₄, lost₅, hperm, hentered, hothers⟩ := stable_arguments harguments
        (fun t ht _ => hbelow t ht t (.self t)) hliterals hra hrc
      -- the role is that of the converted callee, and the last argument is converted now
      have hargs' := hargs.convert Settled.arrowify
      rw [← hcallee.alike.calleeRole_eq] at hargs' hentered ⊢
      constructor
      · exact .call (convertLast_convertLast _) hsettled hsettled' hargs'.others
          (fun hr k params body hmem => (hargs'.literals hr k params body hmem).1)
          (fun hr k params body hmem => (hargs'.literals hr k params body hmem).2)
      · have hentered' := (loses_outlineEntered _ _).left_over hentered
        -- in the order of the trace: literals, callee, other arguments, type arguments
        have hwhole := hentered'.append (hmatches.append (hothers.append hmatches'))
        rw [outline_call, outlineOthers_convertLast]
        exact ⟨hwhole.silent, hwhole.reads.regroup hperm⟩

end Tree

/-! ### Phrases outside of all functions -/

section Rules

variable {Put : List String → Tree → Tree → Prop}

mutual

lemma ItemBecomes.alike {t u : Tree} {as : List Trace} {lost : List String}
    (h : ItemBecomes Put t u as lost) : t.Alike u := by
  cases h with
  | boundary => exact .inl rfl
  | parts hl _ ha => exact .inr ⟨_, _, _, _, hl, rfl, rfl, ha.near⟩
  | call _ ha _ hc =>
    refine .inr ⟨_, _, _, _, rfl, rfl, rfl, .cons ha.alike.near (.cons ?_ (.cons ?_ .nil))⟩
    · exact ⟨rfl, fun h => absurd h (by simp [Tree.label, Label.isBoundary])⟩
    · exact hc.alike.near
  | suite _ _ ha hc =>
    refine .inr ⟨_, _, _, _, rfl, rfl, rfl, .cons ha.alike.near (.cons ?_ (.cons ?_ .nil))⟩
    · exact ⟨rfl, fun h => absurd h (by simp [Tree.label, Label.isBoundary])⟩
    · exact hc.alike.near

lemma ItemsBecome.near {ts us : List Tree} {as : List Trace} {lost : List String}
    (h : ItemsBecome Put ts us as lost) : List.Forall₂ Tree.Near ts us := by
  cases h with
  | nil => exact .nil
  | cons ha hb => exact .cons ha.alike.near hb.near

end

end Rules

/-- The suites that are found in a converted phrase match the traces of the conversion. -/
structure SuitesMatch (argss : List (List Tree)) (as : List Trace) (lost : List String) :
    Prop where
  length_eq : argss.length = as.length
  silent : ∀ args ∈ argss, (Tree.outlineLiterals args).Silent
  reads : Thins (as.flatMap Outline.reported)
    (argss.flatMap fun args => (Tree.outlineLiterals args).reads) lost

namespace SuitesMatch

variable {argss argss' : List (List Tree)} {as as' : List Trace} {lost lost' : List String}

lemma nil : SuitesMatch [] [] [] :=
  ⟨rfl, by simp, Thins.refl _⟩

lemma append (h : SuitesMatch argss as lost) (h' : SuitesMatch argss' as' lost') :
    SuitesMatch (argss ++ argss') (as ++ as') (lost ++ lost') where
  length_eq := by rw [List.length_append, List.length_append, h.length_eq, h'.length_eq]
  silent := List.forall_mem_append.2 ⟨h.silent, h'.silent⟩
  reads := by
    rw [List.flatMap_append, List.flatMap_append]
    exact h.reads.append h'.reads

lemma cons {args : List Tree} {a : Trace} (ha : Outline.Matches (Tree.outlineLiterals args) a lost)
    (h : SuitesMatch argss as lost') : SuitesMatch (args :: argss) (a :: as) (lost ++ lost') where
  length_eq := congrArg (· + 1) h.length_eq
  silent := List.forall_mem_cons.2 ⟨ha.silent, h.silent⟩
  reads := by
    rw [List.flatMap_cons, List.flatMap_cons]
    exact ha.reads.append h.reads

end SuitesMatch

namespace Tree

/-- Whatever the phrase becomes outside of all functions is settled, and the suites that are found
in it match the traces. -/
def StableItem (t : Tree) : Prop :=
  ∀ u as lost, ItemBecomes Injects t u as lost → (∀ a ∈ as, Outline.Resolved a) →
    u.SettledItem ∧ SuitesMatch u.suiteArguments as lost

lemma stable_items {ts us : List Tree} {as : List Trace} {lost : List String}
    (h : ItemsBecome Injects ts us as lost) (hts : ∀ t ∈ ts, t.StableItem)
    (ha : ∀ a ∈ as, Outline.Resolved a) :
    (∀ u ∈ us, u.SettledItem) ∧ SuitesMatch (suiteArgumentsAll us) as lost := by
  induction ts generalizing us as lost with
  | nil =>
    cases h
    exact ⟨by simp, SuitesMatch.nil⟩
  | cons t ts ih =>
    cases h with
    | cons ht hrest =>
      obtain ⟨hr, hr'⟩ := List.forall_mem_append.1 ha
      obtain ⟨hsettled, hmatch⟩ := hts t (.head _) _ _ _ ht hr
      obtain ⟨hsettled', hmatch'⟩ := ih hrest (fun u hu => hts u (.tail _ hu)) hr'
      exact ⟨List.forall_mem_cons.2 ⟨hsettled, hsettled'⟩, hmatch.append hmatch'⟩

/-- The converted arguments of a suite are settled, and what is found in them matches the
traces. -/
lemma stable_suiteArguments {args us : List Tree} {a : Trace} {bs : List Trace}
    {lost : List String} (h : SuiteArgumentsBecome Injects args us a bs lost)
    (hothers : ∀ t ∈ args, t.isFunctionLiteral = false → t.StableItem) (ha : a.Resolved)
    (hb : ∀ b ∈ bs, Outline.Resolved b) :
    SettledArguments SettledItem .createsSuite us ∧ ∃ lost₁ lost₂, lost.Perm (lost₁ ++ lost₂) ∧
      Outline.Matches (outlineLiterals us) a lost₁ ∧
      SuitesMatch (suiteArgumentsOthers us) bs lost₂ := by
  induction args generalizing us a bs lost with
  | nil =>
    cases h
    exact ⟨.nil, [], [], List.Perm.refl _, Outline.matches_done, SuitesMatch.nil⟩
  | cons t ts ih =>
    have htail : ∀ {us a bs lost}, SuiteArgumentsBecome Injects ts us a bs lost → a.Resolved →
        (∀ b ∈ bs, Outline.Resolved b) → _ := fun h => ih h fun u hu => hothers u (.tail _ hu)
    cases h with
    | @other _ _ _ _ _ _ _ lost _ hlit ht hrest =>
      obtain ⟨hr, hr'⟩ := List.forall_mem_append.1 hb
      obtain ⟨hsettled, hmatch⟩ := hothers t (.head _) hlit _ _ _ ht hr
      obtain ⟨hargs, lost₁, lost₂, hperm, hentered, hrests⟩ := htail hrest ha hr'
      have hlit' := ht.alike.isFunctionLiteral_eq.trans hlit
      refine ⟨hargs.cons_other hlit' hsettled, lost₁, lost ++ lost₂, ?_, ?_, ?_⟩
      · exact (hperm.append_left _).trans (List.perm_append_comm_assoc _ _ _)
      · rw [outlineLiterals, outlineLiteral_of_not hlit', Outline.done_append]
        exact hentered
      · rw [suiteArgumentsOthers, if_neg (by simp [hlit'])]
        exact hmatch.append hrests
    | @entered _ _ _ _ _ _ _ lost _ ht hrest =>
      obtain ⟨hra, hrb⟩ := Outline.resolved_append.1 ha
      obtain ⟨k, params, body, rfl, hparams, hbody, hmatches⟩ := stable_literal ht
        (fun _ params body _ => ⟨params.stable, body.stable⟩) hra
      obtain ⟨hargs, lost₁, lost₂, hperm, hentered, hrests⟩ := htail hrest hrb hb
      refine ⟨hargs.cons_literal fun _ => ⟨hparams, hbody⟩, lost ++ lost₁, lost₂, ?_, ?_, ?_⟩
      · rw [List.append_assoc]
        exact hperm.append_left _
      · exact hmatches.append hentered
      · rw [suiteArgumentsOthers, if_pos (by simp)]
        exact hrests

/-- A converted phrase outside of all functions is settled, and the suites that are found in it
match the traces. -/
theorem stableItem (t : Tree) : t.StableItem := by
  induction t using inductBelow with
  | node l s ts ih =>
    intro u as lost h ha
    cases h with
    | boundary hl =>
      refine ⟨.boundary hl s ts, ?_⟩
      have hcall : ∀ callee gs args types, l = .call → ts = [callee, node .group gs args, types] →
          False := by
        rintro callee gs args types rfl
        exact absurd hl (by simp [Label.isBoundary])
      rw [suiteArguments_node hcall, if_pos hl]
      exact SuitesMatch.nil
    | parts hl hcall hall =>
      obtain ⟨hsettled, hmatch⟩ := stable_items hall (fun t ht => ih t ht t (.self t)) ha
      have hcall' := not_call_of_near hall.near hcall
      refine ⟨.parts hl hcall' hsettled, ?_⟩
      rw [suiteArguments_node hcall', if_neg (by simp [hl])]
      exact hmatch
    | call hr hcallee hargs htypes =>
      obtain ⟨hra, hr'⟩ := List.forall_mem_append.1 ha
      obtain ⟨hrb, hrc⟩ := List.forall_mem_append.1 hr'
      obtain ⟨hsettled, hmatch⟩ := ih _ (.head _) _ (.self _) _ _ _ hcallee hra
      obtain ⟨hsettled', hmatch'⟩ := stable_items hargs
        (fun t ht => ih _ (.tail _ (.head _)) t (.part ht (.self t))) hrb
      obtain ⟨hsettled'', hmatch''⟩ :=
        ih _ (.tail _ (.tail _ (.head _))) _ (.self _) _ _ _ htypes hrc
      rw [← hcallee.alike.calleeRole_eq] at hr
      refine ⟨.call hr hsettled hsettled'' hsettled', ?_⟩
      rw [suiteArguments_call hr]
      exact hmatch.append (hmatch'.append hmatch'')
    | @suite _ gs callee callee' types types' args args' a as bs cs lost₁ lost₂ lost₃ hr
        harguments hcallee htypes =>
      obtain ⟨hra, hr'⟩ := List.forall_mem_cons.1 ha
      obtain ⟨hrb, hr'⟩ := List.forall_mem_append.1 hr'
      obtain ⟨hrc, hrd⟩ := List.forall_mem_append.1 hr'
      obtain ⟨hsettled, hmatch⟩ := ih _ (.head _) _ (.self _) _ _ _ hcallee hrb
      obtain ⟨hsettled', hmatch'⟩ :=
        ih _ (.tail _ (.tail _ (.head _))) _ (.self _) _ _ _ htypes hrd
      obtain ⟨hargs, lost₄, lost₅, hperm, hentered, hothers⟩ := stable_suiteArguments harguments
        (fun t ht _ => ih _ (.tail _ (.head _)) t (.part ht (.self t))) hra hrc
      have hargs' := hargs.convert SettledItem.arrowify
      rw [← hcallee.alike.calleeRole_eq] at hr
      constructor
      · exact .suite hr (convertLast_convertLast _) hsettled hsettled' hargs'.others
          (hargs'.literals (.inl rfl))
      · have hentered' := (loses_outlineEntered .createsSuite args').left_over hentered
        have hwhole := SuitesMatch.cons hentered' (hmatch.append (hothers.append hmatch'))
        rw [suiteArguments_suite hr, suiteArgumentsOthers_convertLast]
        exact ⟨hwhole.length_eq, hwhole.silent, hwhole.reads.regroup hperm⟩

end Tree

end ContextHoist
