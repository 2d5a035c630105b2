/-
The accesses of a callback, and what the conversion of its shape makes of them.

* `Tree.chainFree`: no access in a phrase stands in an optional chain.
* `Tree.ownOccurrences`, `Tree.contextOccurrences`: the accesses of a phrase and of a callback, each
  with whether it stands in an optional chain.
* `Tree.inject_block`, `Tree.inject_expression`: where declarations go.
* `Tree.contextAccesses_toArrow`: a function that becomes an arrow function has no accesses.
* `convertLast_convertLast`: arguments that have been converted stay as they are.
-/
import ContextHoist.Suite.Callback
import ContextHoist.Proofs.Shape

namespace ContextHoist

namespace Tree

/-! ### Optional chains -/

/-- Whether the phrase is an access in an optional chain. -/
def isChainAccess (t : Tree) : Bool :=
  match t.label with
  | .chainMember _ => t.accessed?.isSome
  | _ => false

/-- Whether no access in a phrase stands in an optional chain. -/
def chainFree (t : Tree) : Bool :=
  t.all fun u => !u.isChainAccess

/-! ### Functions on trees that keep accesses -/

/-- What has not the parts of an access is none. -/
lemma accessed?_eq_none {l : Label} {s : Span} {ts : List Tree}
    (h : ¬∃ this p prop, ts = [thisExpr this, key p prop]) : (node l s ts).accessed? = none := by
  unfold accessed?
  split
  · next heq => exact absurd ⟨_, _, _, (Tree.node.inj heq).2.2⟩ h
  · next heq => exact absurd ⟨_, _, _, (Tree.node.inj heq).2.2⟩ h
  · rfl

/-- What has a scope of its own is no access. -/
lemma accessed?_of_isBoundary {l : Label} {s : Span} {ts : List Tree} (h : l.isBoundary = true) :
    (node l s ts).accessed? = none := by
  unfold accessed?
  split
  · next heq => exact absurd ((Tree.node.inj heq).1 ▸ h) (by simp [Label.isBoundary])
  · next heq => exact absurd ((Tree.node.inj heq).1 ▸ h) (by simp [Label.isBoundary])
  · rfl

/-- An access that does not stand in an optional chain. -/
lemma accessed?_eq_some {l : Label} {s : Span} {ts : List Tree} {p : String}
    (h : (node l s ts).accessed? = some p) (hchain : (node l s ts).isChainAccess = false) :
    ∃ this prop, l = .member ∧ ts = [thisExpr this, key p prop] := by
  have haccess := h
  unfold accessed? at h
  split at h
  · next heq =>
    obtain ⟨rfl, rfl, rfl⟩ := Tree.node.inj heq
    obtain rfl := Option.some.inj h
    exact ⟨_, _, rfl, rfl⟩
  · next heq =>
    obtain ⟨rfl, rfl, rfl⟩ := Tree.node.inj heq
    rw [isChainAccess, label_node, haccess] at hchain
    exact absurd hchain (by simp)
  · exact absurd h (by simp)

/-- The function neither changes `this` and keys nor makes them. -/
def KeepsLeaves (f : Tree → Tree) : Prop :=
  ∀ t s, (f t = thisExpr s ↔ t = thisExpr s) ∧ ∀ p, f t = key p s ↔ t = key p s

/-- Two parts are the parts of an access before if and only if they are afterwards. -/
lemma KeepsLeaves.map_eq {f : Tree → Tree} (hf : KeepsLeaves f) {ts : List Tree} {this prop : Span}
    {p : String} : ts.map f = [thisExpr this, key p prop] ↔ ts = [thisExpr this, key p prop] := by
  constructor
  · intro h
    obtain ⟨t, us, rfl, ht, h⟩ := List.map_eq_cons_iff.1 h
    obtain ⟨u, vs, rfl, hu, h⟩ := List.map_eq_cons_iff.1 h
    obtain rfl := List.map_eq_nil_iff.1 h
    rw [(hf t this).1.1 ht, ((hf u prop).2 p).1 hu]
  · rintro rfl
    rw [List.map_cons, List.map_singleton, (hf _ this).1.2 rfl, ((hf _ prop).2 p).2 rfl]

lemma KeepsLeaves.accessed? {f : Tree → Tree} (hf : KeepsLeaves f) (l : Label) (s : Span)
    (ts : List Tree) : (node l s (ts.map f)).accessed? = (node l s ts).accessed? := by
  by_cases h : ∃ this p prop, ts = [thisExpr this, key p prop]
  · obtain ⟨this, p, prop, rfl⟩ := h
    rw [hf.map_eq.2 rfl]
  · have hmap : ¬∃ this p prop, ts.map f = [thisExpr this, key p prop] := by
      rintro ⟨this, p, prop, heq⟩
      exact h ⟨this, p, prop, hf.map_eq.1 heq⟩
    rw [accessed?_eq_none hmap, accessed?_eq_none h]

lemma KeepsLeaves.isChainAccess {f : Tree → Tree} (hf : KeepsLeaves f) (l : Label) (s : Span)
    (ts : List Tree) : (node l s (ts.map f)).isChainAccess = (node l s ts).isChainAccess := by
  rw [Tree.isChainAccess, Tree.isChainAccess, hf.accessed?]
  rfl

/-! ### Occurrences of accesses -/

mutual

/-- The accesses of a phrase in order, outside of phrases with a scope of their own, each with
whether it stands in an optional chain. -/
def ownOccurrences : Tree → List (String × Bool)
  | node l s ts =>
    match accessed? (node l s ts) with
    | some p => [(p, (node l s ts).isChainAccess)]
    | none => if l.isBoundary then [] else ownOccurrencesAll ts

/-- The accesses of a list of phrases in order. -/
def ownOccurrencesAll : List Tree → List (String × Bool)
  | [] => []
  | t :: ts => t.ownOccurrences ++ ownOccurrencesAll ts

end

lemma ownOccurrencesAll_eq (ts : List Tree) :
    ownOccurrencesAll ts = ts.flatMap ownOccurrences := by
  induction ts with
  | nil => rfl
  | cons t ts ih => rw [ownOccurrencesAll, ih, List.flatMap_cons]

lemma ownAccessesAll_eq (ts : List Tree) : ownAccessesAll ts = ts.flatMap ownAccesses := by
  induction ts with
  | nil => rfl
  | cons t ts ih => rw [ownAccessesAll, ih, List.flatMap_cons]

/-- A part of a phrase accesses nothing that the phrase does not, unless the phrase has a scope of
its own. -/
lemma ownAccesses_part {l : Label} {s : Span} {ts : List Tree} {t : Tree}
    (hl : l.isBoundary = false) (ht : t ∈ ts) : t.ownAccesses ⊆ (node l s ts).ownAccesses := by
  intro p hp
  cases haccess : (node l s ts).accessed? with
  | none =>
    rw [ownAccesses, haccess, hl, ownAccessesAll_eq]
    exact List.mem_flatMap.2 ⟨t, ht, hp⟩
  | some q =>
    -- neither part of an access accesses anything
    by_cases hparts : ∃ this p prop, ts = [thisExpr this, key p prop]
    · obtain ⟨this, p', prop, rfl⟩ := hparts
      simp only [List.mem_cons, List.not_mem_nil, or_false] at ht
      rcases ht with rfl | rfl
      · exact absurd hp (by simp [ownAccesses, ownAccessesAll, accessed?])
      · exact absurd hp (by simp [ownAccesses, ownAccessesAll, accessed?])
    · rw [accessed?_eq_none hparts] at haccess
      exact absurd haccess (by simp)

lemma ownAccesses_eq (t : Tree) : t.ownAccesses = t.ownOccurrences.map (·.1) := by
  induction t using Tree.induct with
  | node l s ts ih =>
    rw [ownAccesses, ownOccurrences]
    cases (node l s ts).accessed? with
    | some p => rfl
    | none =>
      dsimp only
      split
      · rfl
      · rw [ownAccessesAll_eq, ownOccurrencesAll_eq, List.map_flatMap]
        exact List.flatMap_congr ih

lemma chain_of_mem_ownOccurrences {t : Tree} (h : t.chainFree = true) :
    ∀ o ∈ t.ownOccurrences, o.2 = false := by
  induction t using Tree.induct with
  | node l s ts ih =>
    rw [ownOccurrences]
    split
    · simpa using all_iff.1 h _ (.self _)
    · split
      · simp
      · intro o ho
        rw [ownOccurrencesAll_eq, List.mem_flatMap] at ho
        obtain ⟨t, ht, ho⟩ := ho
        exact ih t ht (all_of_mem h t ht) o ho

/-! ### Accesses of callbacks -/

/-- The accesses that belong to a callback, in order, each with whether it stands in an optional
chain. -/
def contextOccurrences : Tree → List (String × Bool)
  | functionExpr _ _ _ _ _ params _ body _ _ => params.ownOccurrences ++ body.ownOccurrences
  | arrow _ _ params body _ _ => params.ownOccurrences ++ body.ownOccurrences
  | _ => []

lemma contextOccurrences_literal (k : Shell) (params body : Tree) :
    (k.literal params body).contextOccurrences = params.ownOccurrences ++ body.ownOccurrences := by
  cases k <;> rfl

lemma contextOccurrences_of_not {t : Tree} (h : t.isFunctionLiteral = false) :
    t.contextOccurrences = [] := by
  unfold contextOccurrences
  split
  · exact absurd h (by simp [isFunctionLiteral])
  · exact absurd h (by simp [isFunctionLiteral])
  · rfl

lemma contextAccesses_eq (t : Tree) :
    t.contextAccesses = (t.contextOccurrences.map (·.1)).eraseDups := by
  unfold contextAccesses contextOccurrences
  split <;> simp [ownAccesses_eq]

lemma chain_of_mem_contextOccurrences {t : Tree} (h : t.chainFree = true) :
    ∀ o ∈ t.contextOccurrences, o.2 = false := by
  intro o ho
  cases hlit : t.isFunctionLiteral with
  | true =>
    obtain ⟨k, params, body, rfl⟩ := exists_shell hlit
    rw [contextOccurrences_literal, List.mem_append] at ho
    rcases ho with ho | ho
    · exact chain_of_mem_ownOccurrences ((k.has_params params body).all h) o ho
    · exact chain_of_mem_ownOccurrences ((k.has_body params body).all h) o ho
  | false =>
    rw [contextOccurrences_of_not hlit] at ho
    exact absurd ho List.not_mem_nil

end Tree

/-! ### Declarations -/

namespace Tree

/-- Nothing is declared. -/
lemma inject_nil (t : Tree) : t.inject [] = t := by
  unfold inject inject?
  split <;> simp [spliceDeclarations]

lemma inject_block (k : Shell) (params : Tree) (s : Span) (ts declarations : List Tree) :
    (k.literal params (node .block s ts)).inject declarations =
      k.literal params (node .block s (spliceDeclarations ts declarations)) := by
  cases k <;> rfl

/-- There is no place for declarations in a function without a body. -/
lemma inject_function {s : Span} {self : Tree} {isAsync isGenerator : Bool} {fs : Span}
    {params decorators body typeParams result : Tree} (h : body.label ≠ .block)
    (declarations : List Tree) :
    (functionExpr s self isAsync isGenerator fs params decorators body typeParams result).inject
      declarations =
        functionExpr s self isAsync isGenerator fs params decorators body typeParams result := by
  obtain ⟨l, bs, ts⟩ := body
  unfold inject inject?
  split
  · next heq =>
    simp only [node.injEq, List.cons.injEq] at heq
    exact absurd heq.2.2.2.1.2.2.2.2.1.1 h
  · next heq => exact absurd (Tree.node.inj heq).1 (by simp)
  · next heq => exact absurd (Tree.node.inj heq).1 (by simp)
  · rfl

/-- An expression is returned behind the declarations. -/
lemma inject_expression {s : Span} {isAsync : Bool} {params body typeParams result : Tree}
    (h : body.label ≠ .block) {declarations : List Tree} (hd : declarations ≠ []) :
    (arrow s isAsync params body typeParams result).inject declarations =
      arrow s isAsync params (node .block .nowhere
        (declarations ++ [node .returnStmt .nowhere [body]])) typeParams result := by
  obtain ⟨l, bs, ts⟩ := body
  rw [inject, inject?]
  · simp [hd]
  · rintro _ _ heq
    exact h (Tree.node.inj heq).1

end Tree

/-! ### Arrow functions -/

namespace Tree

lemma mentionsReceiverAny_eq (ts : List Tree) :
    mentionsReceiverAny ts = ts.any mentionsReceiver := by
  induction ts with
  | nil => rfl
  | cons t ts ih => rw [mentionsReceiverAny, ih, List.any_cons]

/-- What does not mention `this` has no accesses. -/
lemma ownAccesses_of_mentionsReceiver (t : Tree) (h : t.mentionsReceiver = false) :
    t.ownAccesses = [] := by
  induction t using Tree.induct with
  | node l s ts ih =>
    have hall : mentionsReceiverAny ts = false → ownAccessesAll ts = [] := by
      intro hany
      rw [mentionsReceiverAny_eq, List.any_eq_false] at hany
      rw [ownAccessesAll_eq, List.flatMap_eq_nil_iff]
      exact fun t ht => ih t ht (by simpa using hany t ht)
    cases haccess : (node l s ts).accessed? with
    | some p =>
      unfold accessed? at haccess
      split at haccess
      · next heq =>
        obtain ⟨rfl, rfl, rfl⟩ := Tree.node.inj heq
        exact absurd h (by simp [mentionsReceiver, mentionsReceiverAny, Label.isBoundary])
      · next heq =>
        obtain ⟨rfl, rfl, rfl⟩ := Tree.node.inj heq
        exact absurd h (by simp [mentionsReceiver, mentionsReceiverAny, Label.isBoundary])
      · exact absurd haccess (by simp)
    | none =>
      by_cases hl : l.isBoundary = true
      · simp [ownAccesses, haccess, hl]
      · have hany : mentionsReceiverAny ts = false := by
          unfold mentionsReceiver at h
          split at h
          · exact absurd h (by simp)
          · next heq =>
            obtain ⟨rfl, rfl, rfl⟩ := Tree.node.inj heq
            exact (Bool.or_eq_false_iff.1 h).2
          · next heq =>
            obtain ⟨rfl, rfl, rfl⟩ := Tree.node.inj heq
            exact h
          · next heq =>
            obtain ⟨rfl, rfl, rfl⟩ := Tree.node.inj heq
            rwa [if_neg hl] at h
        simp [ownAccesses, haccess, hl, hall hany]

/-- The pattern of a parameter accesses nothing that the parameter does not. -/
lemma ownAccesses_parameterPatterns {params : Tree} (h : params.ownAccesses = []) :
    params.parameterPatterns.ownAccesses = [] := by
  unfold parameterPatterns
  split
  · next s ts =>
    simp only [ownAccesses, accessed?, Label.isBoundary, Bool.false_eq_true, if_false,
      ownAccessesAll_eq, List.flatMap_eq_nil_iff] at h ⊢
    intro p hp
    obtain ⟨t, ht, rfl⟩ := List.mem_map.1 hp
    have hparam := h t ht
    unfold parameterPattern
    split
    · simp only [ownAccesses, accessed?, Label.isBoundary, Bool.false_eq_true, if_false,
        ownAccessesAll, List.append_eq_nil_iff] at hparam
      exact hparam.2.1
    · exact hparam
  · exact h

/-- What is no function expression does not become an arrow function. -/
lemma toArrow_of_not {t : Tree} (h : t.isFunctionLiteral = false) : t.toArrow = t := by
  unfold toArrow
  split
  · exact absurd h (by simp [isFunctionLiteral])
  · rfl

/-- A function literal stays as it is, or it is a function expression without a name that
mentions neither `this` nor `arguments` and becomes an arrow function. -/
lemma toArrow_literal (k : Shell) (params body : Tree) :
    (k.literal params body).toArrow = k.literal params body ∨
      params.mentionsReceiver = false ∧ body.mentionsReceiver = false ∧
      ∃ s self isAsync isGenerator fs decorators typeParams result,
        k = .function s self isAsync isGenerator fs decorators typeParams result ∧
        self.isPresent = false ∧ (k.literal params body).toArrow =
          arrow fs isAsync params.parameterPatterns body typeParams result := by
  cases k with
  | arrow => exact .inl rfl
  | function s self isAsync isGenerator fs decorators typeParams result =>
    simp only [Shell.literal, toArrow]
    split
    · exact .inl rfl
    · next h =>
      simp only [Bool.or_eq_true, not_or, Bool.not_eq_true] at h
      obtain ⟨⟨⟨⟨hself, -⟩, -⟩, hparams⟩, hbody⟩ := h
      exact .inr ⟨hparams, hbody, _, _, _, _, _, _, _, _, rfl, hself, rfl⟩

/-- Whether a function literal becomes an arrow function or not, its accesses stay. -/
lemma contextAccesses_toArrow {t : Tree} (ht : t.isFunctionLiteral = true) :
    t.toArrow.isFunctionLiteral = true ∧ t.toArrow.contextAccesses = t.contextAccesses := by
  obtain ⟨k, params, body, rfl⟩ := exists_shell ht
  rcases toArrow_literal k params body with h | ⟨hparams, hbody, h⟩
  · rw [h]
    exact ⟨ht, rfl⟩
  · -- what becomes an arrow function has no accesses, before and after
    obtain ⟨s, self, isAsync, isGenerator, fs, decorators, typeParams, result, -, -, h⟩ := h
    have hparams := ownAccesses_of_mentionsReceiver params hparams
    have hbody := ownAccesses_of_mentionsReceiver body hbody
    rw [h, Shell.contextAccesses_literal, hparams, hbody]
    refine ⟨rfl, ?_⟩
    rw [contextAccesses, ownAccesses_parameterPatterns hparams, hbody]

lemma arrowify_literal (k : Shell) (params body : Tree) :
    (k.literal params body).arrowify = (k.literal params body).toArrow := by
  cases k <;> rfl

/-- An argument is a function literal before if and only if it is one afterwards. -/
lemma isFunctionLiteral_arrowify (t : Tree) :
    t.arrowify.isFunctionLiteral = t.isFunctionLiteral := by
  cases ht : t.isFunctionLiteral with
  | true =>
    obtain ⟨k, params, body, rfl⟩ := exists_shell ht
    rw [arrowify_literal]
    exact (contextAccesses_toArrow ht).1
  | false =>
    unfold arrowify
    split
    · rfl
    · rw [toArrow_of_not ht, ht]

lemma toArrow_toArrow (t : Tree) : t.toArrow.toArrow = t.toArrow := by
  cases ht : t.isFunctionLiteral with
  | false => rw [toArrow_of_not ht, toArrow_of_not ht]
  | true =>
    obtain ⟨k, params, body, rfl⟩ := exists_shell ht
    rcases toArrow_literal k params body with h | ⟨-, -, h⟩
    · rw [h, h]
    · obtain ⟨s, self, isAsync, isGenerator, fs, decorators, typeParams, result, -, -, h⟩ := h
      rw [h]
      rfl

lemma arrowify_arrowify (t : Tree) : t.arrowify.arrowify = t.arrowify := by
  by_cases ht : ∃ s u, t = node .paren s [u]
  · obtain ⟨s, u, rfl⟩ := ht
    simp only [arrowify, toArrow_toArrow]
  · have hparen : ∀ u : Tree, (∀ s v, u ≠ node .paren s [v]) → u.arrowify = u.toArrow := by
      intro u hu
      unfold arrowify
      split
      · exact absurd rfl (hu _ _)
      · rfl
    have hself := hparen t fun s u heq => ht ⟨s, u, heq⟩
    rw [hself, hparen, toArrow_toArrow]
    intro s v heq
    cases hlit : t.isFunctionLiteral with
    | false =>
      rw [toArrow_of_not hlit] at heq
      exact ht ⟨s, v, heq⟩
    | true =>
      have h := (contextAccesses_toArrow hlit).1
      rw [heq] at h
      exact absurd h (by simp [isFunctionLiteral])

end Tree

/-! ### Last arguments -/

lemma convertLast_concat (args : List Tree) (t : Tree) :
    (convertLast (args ++ [t])).1 = args ++ [t.arrowify] := by
  induction args with
  | nil => rfl
  | cons u us ih =>
    cases us with
    | nil => rfl
    | cons v vs =>
      simp only [List.cons_append, convertLast]
      exact congrArg (u :: ·) ih

/-- Arguments that have been converted stay as they are. -/
lemma convertLast_convertLast (args : List Tree) :
    (convertLast (convertLast args).1).1 = (convertLast args).1 := by
  rcases List.eq_nil_or_concat args with rfl | ⟨us, t, rfl⟩
  · rfl
  · rw [List.concat_eq_append, convertLast_concat, convertLast_concat, Tree.arrowify_arrowify]

end ContextHoist
