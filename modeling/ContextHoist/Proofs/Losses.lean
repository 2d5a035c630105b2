/-
What a conversion leaves to be found, and what is lost.

After a conversion the callbacks of setups access nothing any more, and the tests access what has
been reported, so the same would be found again.  Only the decorators of parameters are lost when
a function becomes an arrow function, and with them the tests that stand in them.

* `Thins`: a list without some of its elements.
* `Outline.Matches`: how what is found in a converted phrase relates to the trace of the
  conversion.
* `Outline.Loses`: how what is found in a phrase relates to what was found before.
* `Outline.Resolved`: a trace whose callbacks keep no accesses but those that are reported.
* `Tree.loses_outlineEntered`: what is lost when the last argument of a call is converted.
-/
import ContextHoist.Proofs.Account
import ContextHoist.Proofs.Settled

namespace ContextHoist

/-! ### What is found afterwards -/

/-- The second list is the first one without some of its elements, and these are listed in the
third one. -/
structure Thins (l l' lost : List String) : Prop where
  sublist : l'.Sublist l
  perm : l.Perm (l' ++ lost)

namespace Thins

variable {l l' m m' lost lost' : List String}

lemma refl (l : List String) : Thins l l [] :=
  ⟨List.Sublist.refl l, by simp⟩

lemma of_perm (h : Thins l l' lost) (hp : lost.Perm lost') : Thins l l' lost' :=
  ⟨h.sublist, h.perm.trans (hp.append_left _)⟩

lemma append (h : Thins l l' lost) (h' : Thins m m' lost') :
    Thins (l ++ m) (l' ++ m') (lost ++ lost') where
  sublist := h.sublist.append h'.sublist
  perm := by
    have hswap : (lost ++ (m' ++ lost')).Perm (m' ++ (lost ++ lost')) := by
      rw [← List.append_assoc, ← List.append_assoc]
      exact List.perm_append_comm.append_right _
    refine (h.perm.append h'.perm).trans ?_
    rw [List.append_assoc, List.append_assoc]
    exact hswap.append_left _

lemma trans (h : Thins l l' lost) (h' : Thins l' m lost') : Thins l m (lost' ++ lost) where
  sublist := h'.sublist.trans h.sublist
  perm := by
    rw [← List.append_assoc]
    exact h.perm.trans (h'.perm.append_right _)

/-- What is lost in the two parts of some arguments is lost in the arguments. -/
lemma regroup {lost₀ lost₁ lost₂ lost₃ lost₄ lost₅ : List String}
    (h : Thins l l' (lost₀ ++ lost₄ ++ (lost₂ ++ (lost₅ ++ lost₃))))
    (hp : lost₁.Perm (lost₄ ++ lost₅)) : Thins l l' (lost₀ ++ (lost₁ ++ (lost₂ ++ lost₃))) := by
  refine h.of_perm ?_
  rw [List.append_assoc]
  refine List.Perm.append_left _ ?_
  refine ((List.perm_append_comm_assoc _ lost₅ _).append_left lost₄).trans ?_
  rw [← List.append_assoc]
  exact hp.symm.append_right _

/-- Nothing is lost if and only if the lists are the same. -/
lemma eq_iff (h : Thins l l' lost) : l' = l ↔ lost = [] := by
  have hlength : l.length = l'.length + lost.length := by
    rw [h.perm.length_eq, List.length_append]
  constructor
  · rintro rfl
    exact List.length_eq_zero_iff.1 (by omega)
  · rintro rfl
    exact h.sublist.eq_of_length (by simpa using hlength.symm)

end Thins

namespace Outline

/-- The properties that are reported as unresolved. -/
def reported (a : Trace) : List String :=
  a.usages.flatMap (·.unresolved)

@[simp] lemma reported_append (a b : Trace) : reported (a ++ b) = reported a ++ reported b := by
  simp [reported]

/-- The outline of a converted phrase matches the trace of the conversion: its setups access
nothing, and its tests access what is reported, except for what is lost. -/
structure Matches (o : Outline Tree Tree) (a : Trace) (lost : List String) : Prop where
  silent : o.Silent
  reads : Thins (reported a) o.reads lost

lemma matches_done : Matches .done .done [] :=
  ⟨by simp [Silent, installed], Thins.refl _⟩

namespace Matches

variable {o o' : Outline Tree Tree} {a a' : Trace} {lost lost' : List String}

lemma append (h : Matches o a lost) (h' : Matches o' a' lost') :
    Matches (o ++ o') (a ++ a') (lost ++ lost') where
  silent := silent_append.2 ⟨h.silent, h'.silent⟩
  reads := by
    rw [reads_append, reported_append]
    exact h.reads.append h'.reads

lemma setup {t : Tree} (h : t.contextAccesses = []) (k : Handled) :
    Matches (.setup t .done) (.setup k .done) [] := by
  refine ⟨?_, Thins.refl _⟩
  simpa [Silent, installed] using h

lemma usage {t : Tree} {k : Handled} (h : t.contextAccesses = k.unresolved) :
    Matches (.usage t .done) (.usage k .done) [] := by
  refine ⟨by simp [Silent, installed], ?_⟩
  simp only [reported, Outline.reads, usages, List.flatMap_singleton, h]
  exact Thins.refl _

lemma literal (h : Matches o a lost) (t : Tree) (e : Entered) :
    Matches (.literal t o .done) (.literal e a .done) lost := by
  constructor
  · simpa [Silent, installed] using h.silent
  · simpa [Outline.reads, reported, usages] using h.reads

end Matches

/-- The second outline is as good as the first one without some parts, in which tests access the
given properties. -/
structure Loses (o o' : Outline Tree Tree) (lost : List String) : Prop where
  silent : o.Silent → o'.Silent
  reads : Thins o.reads o'.reads lost

namespace Loses

lemma refl (o : Outline Tree Tree) : Loses o o [] :=
  ⟨id, Thins.refl _⟩

lemma append {a a' b b' : Outline Tree Tree} {lost lost' : List String} (h : Loses a a' lost)
    (h' : Loses b b' lost') : Loses (a ++ b) (a' ++ b') (lost ++ lost') where
  silent := by
    rw [silent_append, silent_append]
    exact And.imp h.silent h'.silent
  reads := by
    rw [reads_append, reads_append]
    exact h.reads.append h'.reads

lemma literal {o o' : Outline Tree Tree} {lost : List String} (h : Loses o o' lost) (t t' : Tree) :
    Loses (.literal t o .done) (.literal t' o' .done) lost := by
  constructor
  · simpa [Silent, Outline.installed] using h.silent
  · simpa [Outline.reads, usages] using h.reads

/-- What is left of a match after a loss. -/
lemma left_over {o o' : Outline Tree Tree} {a : Trace} {lost lost' : List String}
    (h : Loses o o' lost') (hm : Matches o a lost) : Matches o' a (lost' ++ lost) :=
  ⟨h.silent hm.silent, hm.reads.trans h.reads⟩

end Loses

/-! ### Resolved callbacks -/

/-- The accesses that are left in the callbacks are those that are reported, and none is left in
the callbacks of setups. -/
structure Resolved (a : Trace) : Prop where
  handled : ∀ k ∈ a.handled, k.result.isFunctionLiteral = true ∧
    k.result.contextAccesses = k.unresolved
  installed : ∀ k ∈ a.installed, k.unresolved = []

lemma resolved_append {a b : Trace} : Resolved (a ++ b) ↔ Resolved a ∧ Resolved b := by
  constructor
  · rintro ⟨hhandled, hinstalled⟩
    rw [handled_append] at hhandled
    rw [installed_append] at hinstalled
    obtain ⟨ha, hb⟩ := List.forall_mem_append.1 hhandled
    obtain ⟨ha', hb'⟩ := List.forall_mem_append.1 hinstalled
    exact ⟨⟨ha, ha'⟩, ⟨hb, hb'⟩⟩
  · rintro ⟨ha, hb⟩
    constructor
    · rw [handled_append]
      exact List.forall_mem_append.2 ⟨ha.handled, hb.handled⟩
    · rw [installed_append]
      exact List.forall_mem_append.2 ⟨ha.installed, hb.installed⟩

lemma Resolved.literal {e : Entered} {a : Trace} (h : Resolved (.literal e a .done)) :
    Resolved a := by
  obtain ⟨hhandled, hinstalled⟩ := h
  simp only [Outline.handled, Outline.installed, List.append_nil] at hhandled hinstalled
  exact ⟨hhandled, hinstalled⟩

end Outline

/-! ### Declarations -/

namespace Tree

lemma outlineAll_append (ts us : List Tree) :
    outlineAll (ts ++ us) = outlineAll ts ++ outlineAll us := by
  induction ts with
  | nil => rfl
  | cons t ts ih => rw [List.cons_append, outlineAll, outlineAll, ih, Outline.append_assoc]

lemma outline_block (s : Span) (ts : List Tree) : (node .block s ts).outline = outlineAll ts := by
  rw [outline_node (fun _ _ _ _ hl => absurd hl (by simp))]
  rfl

lemma outlineAll_letDeclarations (names : List String) :
    outlineAll (names.map letDeclaration) = .done := by
  induction names with
  | nil => rfl
  | cons x names ih =>
    rw [List.map_cons, outlineAll, ih]
    rfl

/-- A phrase without parts that is no call is settled. -/
lemma settled_leaf (l : Label) (s : Span) : (node l s []).Settled := by
  by_cases hl : l.isBoundary = true
  · exact .boundary hl s []
  · exact .parts (by simpa using hl) (fun _ _ _ _ _ h => absurd h (by simp)) (by simp)

lemma settled_letDeclaration (x : String) : (letDeclaration x).Settled := by
  refine .parts rfl (fun _ _ _ _ hl => absurd hl (by simp)) ?_
  rw [List.forall_mem_singleton]
  refine .parts rfl (fun _ _ _ _ hl => absurd hl (by simp)) ?_
  rw [List.forall_mem_cons, List.forall_mem_singleton]
  exact ⟨settled_leaf _ _, settled_leaf _ _⟩

lemma settled_block {s : Span} {ts : List Tree} :
    (node .block s ts).Settled ↔ ∀ t ∈ ts, t.Settled := by
  constructor
  · intro h
    cases h with
    | boundary h => exact absurd h (by simp [Label.isBoundary])
    | parts _ _ hparts => exact hparts
  · exact .parts rfl (fun _ _ _ _ hl => absurd hl (by simp))

/-- Declarations change neither what is found in a function literal nor whether it is settled. -/
lemma inject_literal (k : Shell) (params body : Tree) (names : List String) :
    ∃ body', (k.literal params body).inject (names.map letDeclaration) = k.literal params body' ∧
      body'.outline = body.outline ∧ (body.Settled → body'.Settled) := by
  obtain ⟨l, s, ts⟩ := body
  by_cases hl : l = .block
  · subst hl
    refine ⟨_, inject_block k params s ts _, ?_, ?_⟩
    · rw [outline_block, outline_block, spliceDeclarations, outlineAll_append, outlineAll_append,
        outlineAll_letDeclarations, Outline.append_done, ← outlineAll_append,
        List.takeWhile_append_dropWhile]
    · rw [settled_block, settled_block, spliceDeclarations]
      intro h t ht
      rw [List.mem_append, List.mem_append] at ht
      rcases ht with (ht | ht) | ht
      · exact h t (List.takeWhile_subset _ ht)
      · obtain ⟨x, -, rfl⟩ := List.mem_map.1 ht
        exact settled_letDeclaration x
      · exact h t (List.dropWhile_subset _ ht)
  · -- a function without a body keeps its shape, an expression becomes a block that returns it
    have hlabel : (node l s ts).label ≠ .block := hl
    cases k with
    | function => exact ⟨node l s ts, inject_function hlabel _, rfl, id⟩
    | arrow s' isAsync typeParams result =>
      by_cases hn : names.map letDeclaration = []
      · exact ⟨node l s ts, by rw [hn]; exact inject_nil _, rfl, id⟩
      · refine ⟨_, inject_expression hlabel hn, ?_, ?_⟩
        · rw [outline_block, outlineAll_append, outlineAll_letDeclarations, Outline.done_append]
          exact (Outline.append_done _).trans (Outline.append_done _)
        · intro h
          rw [settled_block]
          intro t ht
          rw [List.mem_append, List.mem_singleton] at ht
          rcases ht with ht | rfl
          · obtain ⟨x, -, rfl⟩ := List.mem_map.1 ht
            exact settled_letDeclaration x
          · refine .parts rfl (fun _ _ _ _ hl => absurd hl (by simp)) ?_
            exact List.forall_mem_singleton.2 h

/-! ### Parameters -/

lemma Settled.of_mem {l : Label} {s : Span} {ts : List Tree} (h : (node l s ts).Settled)
    (hl : l.isBoundary = false) (hcall : l ≠ .call) : ∀ t ∈ ts, t.Settled := by
  cases h with
  | boundary hl' => exact absurd hl' (by simp [hl])
  | parts _ _ hparts => exact hparts
  | call => exact absurd rfl hcall

/-- The pattern of a parameter is settled if the parameter is. -/
lemma Settled.parameterPattern {t : Tree} (h : t.Settled) : t.parameterPattern.Settled := by
  unfold Tree.parameterPattern
  split
  · exact h.of_mem rfl (by simp) _ (.tail _ (.head _))
  · exact h

lemma Settled.parameterPatterns {params : Tree} (h : params.Settled) :
    params.parameterPatterns.Settled := by
  unfold Tree.parameterPatterns
  split
  · refine .parts rfl (fun _ _ _ _ hl => absurd hl (by simp)) fun p hp => ?_
    obtain ⟨t, ht, rfl⟩ := List.mem_map.1 hp
    exact (h.of_mem rfl (by simp) t ht).parameterPattern
  · exact h

lemma loses_parameterPattern (t : Tree) : Outline.Loses t.outline t.parameterPattern.outline
    ((t.parameterDecorators?.map (·.outline.reads)).getD []) := by
  unfold parameterPattern
  split
  · next s decorators p =>
    have houtline : (node .parameter s [decorators, p]).outline =
        decorators.outline ++ (p.outline ++ .done) := by
      rw [outline_node (fun _ _ _ _ hl => absurd hl (by simp))]
      rfl
    rw [houtline, Outline.append_done]
    constructor
    · intro h
      exact (Outline.silent_append.1 h).2
    · rw [Outline.reads_append]
      exact ⟨List.sublist_append_right _ _, List.perm_append_comm⟩
  · next h =>
    have hnone : t.parameterDecorators? = none := by
      unfold parameterDecorators?
      split
      · exact absurd rfl (h _ _ _)
      · rfl
    rw [hnone]
    exact Outline.Loses.refl _

/-- The decorators of the parameters are lost when only their patterns are left. -/
lemma loses_parameterPatterns (params : Tree) :
    Outline.Loses params.outline params.parameterPatterns.outline params.decoratorReads := by
  unfold parameterPatterns
  split
  · next s ts =>
    have hgroup : ∀ us, (node .group s us).outline = outlineAll us := by
      intro us
      rw [outline_node (fun _ _ _ _ hl => absurd hl (by simp))]
      rfl
    rw [hgroup, hgroup, decoratorReads]
    induction ts with
    | nil => exact Outline.Loses.refl _
    | cons t ts ih =>
      have hcons := (loses_parameterPattern t).append ih
      rw [List.map_cons, outlineAll, outlineAll]
      cases ht : t.parameterDecorators? with
      | none => simpa [List.filterMap_cons, ht] using hcons
      | some decorators => simpa [List.filterMap_cons, ht] using hcons
  · next h =>
    have hnone : params.decoratorReads = [] := by
      unfold decoratorReads
      split
      · exact absurd rfl (h _ _)
      · rfl
    rw [hnone]
    exact Outline.Loses.refl _

/-! ### Last arguments -/

lemma lostReads_of_not {t : Tree} (h : t.isFunctionLiteral = false) : t.lostReads = [] := by
  unfold lostReads
  split
  · exact absurd h (by simp [isFunctionLiteral])
  · rfl

/-- What is lost of a function literal that becomes an arrow function or stays as it is. -/
lemma loses_toArrow (k : Shell) (params body : Tree) :
    Outline.Loses (k.literal params body).outlineLiteral
      (k.literal params body).toArrow.outlineLiteral (k.literal params body).lostReads := by
  rcases toArrow_literal k params body with h | ⟨-, -, h⟩
  · have hlost : (k.literal params body).lostReads = [] := by
      cases k with
      | arrow => rfl
      | function =>
        simp only [Shell.literal] at h ⊢
        rw [lostReads, h]
        rfl
    rw [h, hlost]
    exact Outline.Loses.refl _
  · obtain ⟨s, self, isAsync, isGenerator, fs, decorators, typeParams, result, rfl, -, h⟩ := h
    have hlost : ((Shell.function s self isAsync isGenerator fs decorators typeParams
        result).literal params body).lostReads = params.decoratorReads := by
      simp only [Shell.literal] at h ⊢
      rw [lostReads, h]
      rfl
    rw [h, hlost, outlineLiteral_literal]
    -- only the parameters change, the body is the same
    have hinner := (loses_parameterPatterns params).append (Outline.Loses.refl body.outline)
    rw [List.append_nil] at hinner
    exact hinner.literal _ _

lemma loses_arrowify (t : Tree) :
    Outline.Loses t.outlineLiteral t.arrowify.outlineLiteral t.lostReads := by
  cases hlit : t.isFunctionLiteral with
  | true =>
    obtain ⟨k, params, body, rfl⟩ := exists_shell hlit
    rw [arrowify_literal]
    exact loses_toArrow k params body
  | false =>
    rw [outlineLiteral_of_not hlit,
      outlineLiteral_of_not ((isFunctionLiteral_arrowify t).trans hlit), lostReads_of_not hlit]
    exact Outline.Loses.refl _

lemma contextAccesses_arrowify {t : Tree} (ht : t.isFunctionLiteral = true) :
    t.arrowify.contextAccesses = t.contextAccesses := by
  obtain ⟨k, params, body, rfl⟩ := exists_shell ht
  rw [arrowify_literal]
  exact (contextAccesses_toArrow ht).2

lemma eq_absent_of_isPresent {t : Tree} (h : t.isPresent = false) : ∃ s, t = node .absent s [] := by
  unfold isPresent at h
  split at h
  · exact ⟨_, rfl⟩
  · exact absurd h (by simp)

/-- An argument that is no function literal stays as it is, or it is a function without a name in
parentheses, and these stay. -/
lemma arrowify_of_not {t : Tree} (h : t.isFunctionLiteral = false) :
    t.arrowify = t ∨ ∃ s s' span isAsync isGenerator fs decorators typeParams result params body,
      t = node .paren s [functionExpr s' (node .absent span []) isAsync isGenerator fs params
        decorators body typeParams result] ∧
      t.arrowify = node .paren s [arrow fs isAsync params.parameterPatterns body typeParams
        result] := by
  unfold arrowify
  split
  · next s u =>
    cases hu : u.isFunctionLiteral with
    | false => exact .inl (by rw [toArrow_of_not hu])
    | true =>
      obtain ⟨k, params, body, rfl⟩ := exists_shell hu
      rcases toArrow_literal k params body with harrow | ⟨-, -, harrow⟩
      · exact .inl (by rw [harrow])
      · obtain ⟨s', self, isAsync, isGenerator, fs, decorators, typeParams, result, rfl, hself,
          harrow⟩ := harrow
        obtain ⟨span, rfl⟩ := eq_absent_of_isPresent hself
        rw [harrow]
        exact .inr ⟨_, _, _, _, _, _, _, _, _, _, _, rfl, rfl⟩
  · exact .inl (toArrow_of_not h)

/-- A function in parentheses is not entered, and neither is an arrow function. -/
lemma outline_arrowify {t : Tree} (h : t.isFunctionLiteral = false) :
    t.arrowify.outline = t.outline := by
  rcases arrowify_of_not h with heq | ⟨s, s', span, isAsync, isGenerator, fs, decorators,
    typeParams, result, params, body, rfl, heq⟩
  · rw [heq]
  · rw [heq, outline_node (fun _ _ _ _ hl => absurd hl (by simp)),
      outline_node (fun _ _ _ _ hl => absurd hl (by simp))]
    rfl

lemma suiteArguments_arrowify {t : Tree} (h : t.isFunctionLiteral = false) :
    t.arrowify.suiteArguments = t.suiteArguments := by
  rcases arrowify_of_not h with heq | ⟨s, s', span, isAsync, isGenerator, fs, decorators,
    typeParams, result, params, body, rfl, heq⟩
  · rw [heq]
  · rw [heq, suiteArguments_node (fun _ _ _ _ hl => absurd hl (by simp)),
      suiteArguments_node (fun _ _ _ _ hl => absurd hl (by simp))]
    rfl

lemma Settled.arrowify {t : Tree} (hlit : t.isFunctionLiteral = false) (h : t.Settled) :
    t.arrowify.Settled := by
  rcases arrowify_of_not hlit with heq | ⟨s, s', span, isAsync, isGenerator, fs, decorators,
    typeParams, result, params, body, rfl, heq⟩
  · rw [heq]
    exact h
  · rw [heq]
    refine .parts rfl (fun _ _ _ _ hl => absurd hl (by simp)) ?_
    exact List.forall_mem_singleton.2 (.boundary rfl _ _)

lemma SettledItem.arrowify {t : Tree} (hlit : t.isFunctionLiteral = false) (h : t.SettledItem) :
    t.arrowify.SettledItem := by
  rcases arrowify_of_not hlit with heq | ⟨s, s', span, isAsync, isGenerator, fs, decorators,
    typeParams, result, params, body, rfl, heq⟩
  · rw [heq]
    exact h
  · rw [heq]
    refine .parts rfl (fun _ _ _ _ hl => absurd hl (by simp)) ?_
    exact List.forall_mem_singleton.2 (.boundary rfl _ _)

lemma trailingLiteral_concat (args : List Tree) (t : Tree) :
    trailingLiteral? (args ++ [t]) = if t.isFunctionLiteral then some t else none := by
  rw [trailingLiteral?, List.getLast?_concat, Option.filter_some]

lemma outlineLiterals_concat (args : List Tree) (t : Tree) :
    outlineLiterals (args ++ [t]) = outlineLiterals args ++ t.outlineLiteral := by
  induction args with
  | nil => exact Outline.append_done _
  | cons u us ih =>
    rw [List.cons_append, outlineLiterals, outlineLiterals, ih, Outline.append_assoc]

lemma outlineOthers_concat (args : List Tree) (t : Tree) :
    outlineOthers (args ++ [t]) =
      outlineOthers args ++ if t.isFunctionLiteral then .done else t.outline := by
  induction args with
  | nil =>
    rw [List.nil_append, outlineOthers]
    simp only [outlineOthers, Outline.append_done, Outline.done_append]
  | cons u us ih =>
    rw [List.cons_append, outlineOthers, outlineOthers, ih]
    split
    · rfl
    · rw [Outline.append_assoc]

lemma suiteArgumentsOthers_concat (args : List Tree) (t : Tree) :
    suiteArgumentsOthers (args ++ [t]) =
      suiteArgumentsOthers args ++ if t.isFunctionLiteral then [] else t.suiteArguments := by
  induction args with
  | nil =>
    rw [List.nil_append, suiteArgumentsOthers]
    simp only [suiteArgumentsOthers, List.append_nil, List.nil_append]
  | cons u us ih =>
    rw [List.cons_append, suiteArgumentsOthers, suiteArgumentsOthers, ih]
    split
    · rfl
    · rw [List.append_assoc]

/-- The same is found in the arguments that are no function literals. -/
lemma outlineOthers_convertLast (args : List Tree) :
    outlineOthers (convertLast args).1 = outlineOthers args := by
  rcases List.eq_nil_or_concat args with rfl | ⟨us, t, rfl⟩
  · rfl
  · rw [List.concat_eq_append, convertLast_concat, outlineOthers_concat, outlineOthers_concat,
      isFunctionLiteral_arrowify]
    cases hlit : t.isFunctionLiteral with
    | false => rw [outline_arrowify hlit]
    | true => rfl

lemma suiteArgumentsOthers_convertLast (args : List Tree) :
    suiteArgumentsOthers (convertLast args).1 = suiteArgumentsOthers args := by
  rcases List.eq_nil_or_concat args with rfl | ⟨us, t, rfl⟩
  · rfl
  · rw [List.concat_eq_append, convertLast_concat, suiteArgumentsOthers_concat,
      suiteArgumentsOthers_concat, isFunctionLiteral_arrowify]
    cases hlit : t.isFunctionLiteral with
    | false => rw [suiteArguments_arrowify hlit]
    | true => rfl

/-- What is lost when the last argument is converted, of the function literals that are
entered. -/
lemma loses_outlineEntered (r : Role) (args : List Tree) :
    Outline.Loses (outlineEntered r args) (outlineEntered r (convertLast args).1)
      (ContextHoist.lostReads r args) := by
  rcases List.eq_nil_or_concat args with rfl | ⟨us, t, rfl⟩
  · cases r <;> exact Outline.Loses.refl _
  · rw [List.concat_eq_append, convertLast_concat]
    have hdescends : ∀ r : Role, r.Descends → Outline.Loses (outlineEntered r (us ++ [t]))
        (outlineEntered r (us ++ [t.arrowify])) t.lostReads := by
      intro r hr
      rw [outlineEntered_of_descends hr, outlineEntered_of_descends hr, outlineLiterals_concat,
        outlineLiterals_concat]
      exact (Outline.Loses.refl _).append (loses_arrowify t)
    have hlast : ((us ++ [t]).getLast?.map lostReads).getD [] = t.lostReads := by
      rw [List.getLast?_concat]
      rfl
    cases r with
    | createsSuite =>
      rw [ContextHoist.lostReads, hlast]
      exact hdescends _ (.inl rfl)
    | ordinary =>
      rw [ContextHoist.lostReads, hlast]
      exact hdescends _ (.inr rfl)
    -- the callback of a setup or a test is not entered, but it keeps its accesses
    | installsSetup =>
      rw [outlineEntered, outlineEntered, trailingLiteral_concat, trailingLiteral_concat,
        isFunctionLiteral_arrowify]
      cases hlit : t.isFunctionLiteral with
      | false => exact Outline.Loses.refl _
      | true =>
        refine ⟨?_, Thins.refl _⟩
        simp [Outline.Silent, Outline.installed, contextAccesses_arrowify hlit]
    | usesContext =>
      rw [outlineEntered, outlineEntered, trailingLiteral_concat, trailingLiteral_concat,
        isFunctionLiteral_arrowify]
      cases hlit : t.isFunctionLiteral with
      | false => exact Outline.Loses.refl _
      | true =>
        refine ⟨by simp [Outline.Silent, Outline.installed], ?_⟩
        simp only [Outline.reads, Outline.usages, if_true, Option.elim_some,
          List.flatMap_singleton, contextAccesses_arrowify hlit]
        exact Thins.refl _

end Tree

end ContextHoist
