/-
The number of callbacks that become arrow functions.

The conversion counts a callback if the argument was no arrow function without parentheses and is
an arrow function afterwards.  That holds for every function expression that is converted, but
also for every arrow function that stands in parentheses, which is not.  So the count is too high
by the number of calls whose last argument is such a one.

* `Tree.reached`, `Module.reached`: the arguments of the calls whose last argument is converted
  where that is possible.
* `miscounted`: how many of them end in an arrow function in parentheses.
* `Counts`: a computation adds to the count, and its result is as described.
* `Module.callbacksConverted_eq`: the count for a source file.
-/
import ContextHoist.Proofs.Census
import ContextHoist.Proofs.Items
import Mathlib

namespace ContextHoist

namespace Tree

/-! ### The calls that are reached -/

mutual

/-- The arguments of the calls that are reached in a phrase that belongs to a function literal. -/
def reached : Tree → List (List Tree)
  | node .call _ [callee, node .group _ args, types] =>
    args :: ((match callee.calleeRole with
      | .installsSetup | .usesContext => []
      | .createsSuite | .ordinary => reachedLiterals args) ++
      (callee.reached ++ (reachedOthers args ++ types.reached)))
  | node l _ ts => if l.isBoundary then [] else reachedAll ts

/-- The arguments of the calls that are reached in a list of phrases. -/
def reachedAll : List Tree → List (List Tree)
  | [] => []
  | t :: ts => t.reached ++ reachedAll ts

/-- The arguments of the calls that are reached in the arguments that are not function
literals. -/
def reachedOthers : List Tree → List (List Tree)
  | [] => []
  | t :: ts => if t.isFunctionLiteral then reachedOthers ts else t.reached ++ reachedOthers ts

/-- The arguments of the calls that are reached in the function literals among some arguments. -/
def reachedLiterals : List Tree → List (List Tree)
  | [] => []
  | t :: ts => t.reachedLiteral ++ reachedLiterals ts

/-- The arguments of the calls that are reached in a function literal. -/
def reachedLiteral : Tree → List (List Tree)
  | node .functionExpr _ [_, node (.function _ _) _ [params, _, body, _, _]] =>
    params.reached ++ body.reached
  | node (.arrow _) _ [params, body, _, _] => params.reached ++ body.reached
  | _ => []

end

/-- The arguments of the calls that are reached before the callee of a call. -/
def reachedEntered (r : Role) (args : List Tree) : List (List Tree) :=
  match r with
  | .installsSetup | .usesContext => []
  | .createsSuite | .ordinary => reachedLiterals args

lemma reached_call (s : Span) (callee : Tree) (gs : Span) (args : List Tree) (types : Tree) :
    (call s callee gs args types).reached = args :: (reachedEntered callee.calleeRole args ++
      (callee.reached ++ (reachedOthers args ++ types.reached))) := by
  rw [reached]
  rfl

lemma reached_node {l : Label} {s : Span} {ts : List Tree}
    (h : ∀ callee gs args types, l = .call → ts = [callee, node .group gs args, types] → False) :
    (node l s ts).reached = if l.isBoundary then [] else reachedAll ts := by
  rw [reached]
  exact h

lemma reachedLiteral_literal (k : Shell) (params body : Tree) :
    (k.literal params body).reachedLiteral = params.reached ++ body.reached := by
  cases k <;> rfl

lemma reachedLiteral_of_not {t : Tree} (h : t.isFunctionLiteral = false) :
    t.reachedLiteral = [] := by
  unfold reachedLiteral
  split
  · exact absurd h (by simp [isFunctionLiteral])
  · exact absurd h (by simp [isFunctionLiteral])
  · rfl

end Tree

/-- The arguments of the calls that are reached from a suite with the given arguments. -/
def reachedFrom (args : List Tree) : List (List Tree) :=
  args :: Tree.reachedLiterals args

/-- How many calls end in an arrow function in parentheses. -/
def miscounted (calls : List (List Tree)) : ℕ :=
  calls.countP endsInWrappedArrow

@[simp] lemma miscounted_nil : miscounted [] = 0 := rfl

@[simp] lemma miscounted_append (as bs : List (List Tree)) :
    miscounted (as ++ bs) = miscounted as + miscounted bs :=
  List.countP_append

lemma miscounted_cons (args : List Tree) (calls : List (List Tree)) :
    miscounted (args :: calls) = miscounted calls + (endsInWrappedArrow args).toNat := by
  rw [miscounted, List.countP_cons, Bool.toNat]
  cases endsInWrappedArrow args <;> rfl

/-! ### What is kept -/

/-- In a phrase there have been so many conversions, but the phrase itself is an arrow function as
before or none as before. -/
structure Kept (n : ℕ) (t u : Tree) : Prop where
  census : Census.Step n t.census u.census
  isArrow : u.isArrow = t.isArrow
  isBareArrow : u.isBareArrow = t.isBareArrow

/-- In each of some phrases there have been conversions, so many in all. -/
inductive KeptAll : ℕ → List Tree → List Tree → Prop
  | nil : KeptAll 0 [] []
  | cons {n m : ℕ} {t u : Tree} {ts us : List Tree} (h : Kept n t u) (hs : KeptAll m ts us) :
      KeptAll (n + m) (t :: ts) (u :: us)

protected lemma Kept.refl (t : Tree) : Kept 0 t t :=
  ⟨.refl _, rfl, rfl⟩

protected lemma Kept.trans {n m : ℕ} {t u v : Tree} (h : Kept n t u) (h' : Kept m u v) :
    Kept (n + m) t v :=
  ⟨h.census.trans h'.census, h'.isArrow.trans h.isArrow, h'.isBareArrow.trans h.isBareArrow⟩

namespace Tree

lemma isBareArrow_of_label {t u : Tree} (h : u.label = t.label) :
    u.isBareArrow = t.isBareArrow := by
  obtain ⟨l, s, ts⟩ := t
  obtain ⟨l', s', us⟩ := u
  obtain rfl : l' = l := h
  cases l' <;> rfl

lemma isArrow_of_label {t : Tree} (h : t.label ≠ .paren) : t.isArrow = t.isBareArrow := by
  unfold isArrow
  split
  · rfl
  · exact absurd rfl h
  · next harrow _ =>
    unfold isBareArrow
    split
    · exact (harrow _ _ _ rfl).elim
    · rfl

end Tree

/-- A phrase with another label than parentheses is kept if its label and its literals are. -/
lemma Kept.of_label {n : ℕ} {t u : Tree} (h : u.label = t.label) (ht : t.label ≠ .paren)
    (hcensus : Census.Step n t.census u.census) : Kept n t u := by
  have hbare := Tree.isBareArrow_of_label h
  refine ⟨hcensus, ?_, hbare⟩
  rw [Tree.isArrow_of_label ht, Tree.isArrow_of_label (h ▸ ht), hbare]

namespace KeptAll

variable {n : ℕ} {ts us : List Tree}

lemma steps (h : KeptAll n ts us) : Census.Steps n (ts.map Tree.census) (us.map Tree.census) := by
  induction h with
  | nil => exact .nil
  | cons h _ ih => exact .cons h.census ih

lemma endsInWrappedArrow_eq (h : KeptAll n ts us) :
    endsInWrappedArrow us = endsInWrappedArrow ts := by
  induction h with
  | nil => rfl
  | cons h hs ih =>
    cases hs with
    | nil => simp [endsInWrappedArrow, Tree.isWrappedArrow, h.isArrow, h.isBareArrow]
    | cons => simpa only [endsInWrappedArrow, List.getLast?_cons_cons] using ih

/-- Conversions in the parts of a node are conversions in the node. -/
lemma node (h : KeptAll n ts us) (l : Label) (s : Span) : Kept n (.node l s ts) (.node l s us) := by
  have hcensus : Census.Step n (Tree.node l s ts).census (Tree.node l s us).census := by
    rw [Tree.census_node, Tree.census_node]
    exact h.steps.node l
  by_cases hl : l = .paren
  · subst hl
    refine ⟨hcensus, ?_, rfl⟩
    cases h with
    | nil => rfl
    | cons h hs =>
      cases hs with
      | nil => simpa only [Tree.isArrow] using h.isArrow
      | cons => rfl
  · exact .of_label rfl hl hcensus

end KeptAll

/-! ### Counting -/

/-- From any state the computation adds to the count a number of conversions and `m` more.  The
relation is about its result and the number of conversions. -/
def Counts {α : Type} (m : ℕ) (x : Descent α) (R : α → ℕ → Prop) : Prop :=
  ∀ run, ∃ n, (x.run run).2.stats.callbacksConverted = run.stats.callbacksConverted + (n + m) ∧
    R (x.run run).1 n

namespace Counts

variable {α β : Type} {m m' : ℕ}

lemma of_uncounted {x : Descent α} {R : α → ℕ → Prop}
    (h : ∀ run, (x.run run).2.stats.callbacksConverted = run.stats.callbacksConverted ∧
      R (x.run run).1 0) : Counts 0 x R :=
  fun run => ⟨0, (h run).1, (h run).2⟩

lemma pure {a : α} {R : α → ℕ → Prop} (h : R a 0) : Counts 0 (pure a : Descent α) R :=
  of_uncounted fun _ => ⟨rfl, h⟩

/-- One computation after another. -/
lemma bind {x : Descent α} {f : α → Descent β} {R : α → ℕ → Prop} {S : β → ℕ → Prop}
    (hx : Counts m x R) (hf : ∀ u n, R u n → Counts m' (f u) fun v k => S v (n + k)) :
    Counts (m + m') (x >>= f) S := by
  intro run
  obtain ⟨n, hcount, hR⟩ := hx run
  obtain ⟨k, hcount', hS⟩ := hf _ n hR (x.run run).2
  refine ⟨n + k, ?_, hS⟩
  rw [Descent.run_bind, hcount', hcount]
  omega

/-- A first step that counts nothing. -/
lemma uncounted_bind {x : Descent α} {f : α → Descent β} {R : α → ℕ → Prop} {S : β → ℕ → Prop}
    (hx : Counts 0 x R) (hf : ∀ u n, R u n → Counts m (f u) fun v k => S v (n + k)) :
    Counts m (x >>= f) S := by
  simpa only [Nat.zero_add] using hx.bind hf

/-- A last step that counts nothing. -/
lemma bind_uncounted {x : Descent α} {f : α → Descent β} {R : α → ℕ → Prop} {S : β → ℕ → Prop}
    (hx : Counts m x R) (hf : ∀ u n, R u n → Counts 0 (f u) fun v k => S v (n + k)) :
    Counts m (x >>= f) S :=
  hx.bind hf

lemma bind_pure {x : Descent α} {f : α → β} {R : α → ℕ → Prop} {S : β → ℕ → Prop}
    (hx : Counts m x R) (h : ∀ u n, R u n → S (f u) n) :
    Counts m (x >>= fun u => Pure.pure (f u)) S :=
  hx.bind_uncounted fun u n hR => pure (h u n hR)

/-- A weaker description of the result. -/
lemma mono {x : Descent α} {R S : α → ℕ → Prop} (hx : Counts m x R)
    (h : ∀ u n, R u n → S u n) : Counts m x S := by
  intro run
  obtain ⟨n, hcount, hR⟩ := hx run
  exact ⟨n, hcount, h _ n hR⟩

lemma openContext (parent : Option ContextId) :
    Counts 0 (Descent.openContext parent) fun _ n => n = 0 :=
  of_uncounted fun _ => ⟨rfl, rfl⟩

/-- The last of some arguments is converted, or counted although it is not. -/
lemma convert (args : List Tree) :
    Counts (endsInWrappedArrow args).toNat (Descent.convert args) fun us n =>
      Census.Steps n (args.map Tree.census) (us.map Tree.census) := by
  intro run
  rw [Descent.run_convert]
  rcases convertLast_cases args with ⟨hkept, hcount⟩ | ⟨-, hcount, hends, hsteps⟩
  · refine ⟨0, ?_, ?_⟩
    · rw [hcount]
      cases endsInWrappedArrow args <;> rfl
    · dsimp only
      rw [hkept]
      exact .refl _
  · refine ⟨1, ?_, hsteps⟩
    rw [hcount, hends]
    rfl

end Counts

/-! ### Callbacks and function literals -/

lemma Shell.label_ne_paren (k : Shell) (params body : Tree) :
    (k.literal params body).label ≠ .paren := by
  cases k <;> exact Label.noConfusion

/-- A callback stays a function expression or an arrow function when it is resolved. -/
lemma kept_resolveCallback {t : Tree} (ht : t.isFunctionLiteral = true) (scopes : Scopes)
    (r : Resolution) : Kept 0 t (resolveCallback scopes r t).1 := by
  obtain ⟨k, params, body, rfl⟩ := Tree.exists_shell ht
  refine .of_label ?_ (k.label_ne_paren params body)
    (census_resolveCallback scopes r _ ▸ Census.Step.refl _)
  obtain ⟨k', params', body', hrename, hlabel, -⟩ :=
    Tree.rename_locals (clashes scopes r) k params body
  rw [resolveCallback, hrename, Tree.replaceAccesses_literal, ← hlabel]
  cases k' <;> rfl

lemma setup_counts {t : Tree} (ht : t.isFunctionLiteral = true) (scopes : Scopes)
    (c : ContextId) : Counts 0 (Descent.setup scopes c t) fun u n => n = 0 ∧ Kept 0 t u := by
  refine Counts.of_uncounted fun run => ?_
  rw [Descent.run_setup]
  exact ⟨rfl, rfl, kept_resolveCallback ht _ _⟩

lemma usage_counts {t : Tree} (ht : t.isFunctionLiteral = true) (scopes : Scopes)
    (c : ContextId) : Counts 0 (Descent.usage scopes c t) fun u n => n = 0 ∧ Kept 0 t u := by
  refine Counts.of_uncounted fun run => ?_
  rw [Descent.run_usage]
  exact ⟨rfl, rfl, kept_resolveCallback ht _ _⟩

/-- Variables are declared in a function literal, which stays what it is. -/
lemma declareHoisted_counts (c : ContextId) (k : Shell) (params body : Tree) :
    Counts 0 (Descent.declareHoisted c (k.literal params body)) fun u n =>
      n = 0 ∧ Kept 0 (k.literal params body) u := by
  refine Counts.of_uncounted fun run => ?_
  rw [Descent.run_declareHoisted]
  generalize (run.contexts.properties c).map (·.name) = names
  refine ⟨rfl, rfl, .of_label ?_ (k.label_ne_paren params body)
    (Tree.census_inject k params body names ▸ Census.Step.refl _)⟩
  obtain ⟨body', hinject, -⟩ := Tree.inject_literal k params body names
  exact (congrArg Tree.label hinject).trans (by cases k <;> rfl)

/-- What the arguments of a call are before its callee is reached: the function literals are done,
and the others are as they were. -/
inductive ArgumentsKept : ℕ → List Tree → List Tree → Prop
  | nil : ArgumentsKept 0 [] []
  | other {n : ℕ} {t : Tree} {ts us : List Tree} (ht : t.isFunctionLiteral = false)
      (hs : ArgumentsKept n ts us) : ArgumentsKept n (t :: ts) (t :: us)
  | literal {n m : ℕ} {t u : Tree} {ts us : List Tree} (ht : t.isFunctionLiteral = true)
      (h : Kept n t u) (hs : ArgumentsKept m ts us) : ArgumentsKept (n + m) (t :: ts) (u :: us)

/-- The conversion of a phrase counts its conversions, wherever the phrase stands. -/
def DirectCounts (t : Tree) : Prop :=
  ∀ scopes c, Counts (miscounted t.reached) (t.direct scopes c) fun u n => Kept n t u

/-- The conversion of a function literal counts the conversions in it. -/
def LiteralCounts (t : Tree) : Prop :=
  ∀ scopes parent, Counts (miscounted t.reachedLiteral) (t.enterLiteral scopes parent)
    fun u n => Kept n t u

lemma onLastLiteral_counts {f : Tree → Descent Tree} (hf : ∀ t, t.isFunctionLiteral = true →
    Counts 0 (f t) fun u n => n = 0 ∧ Kept 0 t u) (args : List Tree) :
    Counts 0 (Descent.onLastLiteral f args) fun us n => ArgumentsKept n args us := by
  induction args with
  | nil => exact Counts.pure .nil
  | cons t ts ih =>
    cases ts with
    | nil =>
      rw [Descent.onLastLiteral]
      split
      case isTrue ht =>
        refine (hf t ht).bind_pure ?_
        rintro u n ⟨rfl, hu⟩
        exact .literal ht hu .nil
      case isFalse ht => exact Counts.pure (.other (by simpa using ht) .nil)
    | cons u ts =>
      refine ih.bind_pure fun us n h => ?_
      cases ht : t.isFunctionLiteral with
      | true => exact n.zero_add ▸ ArgumentsKept.literal ht (.refl t) h
      | false => exact .other ht h

lemma kept_literal {n m : ℕ} {params params' body body' : Tree} (k : Shell)
    (hparams : Kept n params params') (hbody : Kept m body body') :
    Kept (n + m) (k.literal params body) (k.literal params' body') := by
  refine .of_label ?_ (k.label_ne_paren params body) ?_
  · cases k <;> rfl
  have hstep := fun c => hparams.census.add (hbody.census.add_right c)
  cases k with
  | function =>
    rw [Shell.literal, Shell.literal, Tree.census_functionExpr, Tree.census_functionExpr]
    exact (((hstep _).add_left _).add_left _).add_left _
  | arrow =>
    rw [Shell.literal, Shell.literal, Tree.census_arrow, Tree.census_arrow]
    exact (hstep _).add_left _

/-- What is counted in a function literal is what is counted in its parameters and its body. -/
lemma enterLiteral_counts {k : Shell} {params body : Tree} (hparams : DirectCounts params)
    (hbody : DirectCounts body) : LiteralCounts (k.literal params body) := by
  intro scopes parent
  rw [enterLiteral_literal, Tree.reachedLiteral_literal, miscounted_append]
  refine (Counts.openContext parent).uncounted_bind ?_
  rintro c _ rfl
  have hinterior : Counts (miscounted params.reached + miscounted body.reached)
      (convertInterior (scopes.enterFunction (k.literal params body)) c params body)
      fun r n => Kept n (k.literal params body) (k.literal r.1 r.2) := by
    refine (hparams _ c).bind fun params' n hp => ?_
    exact (hbody _ c).bind_pure fun body' m hb => kept_literal k hp hb
  refine hinterior.bind_uncounted fun r n hr => ?_
  refine (declareHoisted_counts c k r.1 r.2).mono ?_
  rintro u _ ⟨rfl, hu⟩
  rw [Nat.zero_add]
  exact hr.trans hu

lemma literalCounts {t : Tree} (hl : t.isFunctionLiteral = true)
    (h : ∀ u, t.Has u → DirectCounts u) : LiteralCounts t := by
  obtain ⟨k, params, body, rfl⟩ := Tree.exists_shell hl
  exact enterLiteral_counts (h _ (k.has_params params body)) (h _ (k.has_body params body))

/-- The function literals among some arguments are converted one after the other. -/
lemma enterLiterals_counts {args : List Tree}
    (h : ∀ t ∈ args, t.isFunctionLiteral = true → LiteralCounts t) (scopes : Scopes)
    (parent : Option ContextId) :
    Counts (miscounted (Tree.reachedLiterals args)) (Tree.enterLiterals scopes parent args)
      fun us n => ArgumentsKept n args us := by
  induction args with
  | nil => exact Counts.pure .nil
  | cons t ts ih =>
    have hts := ih fun u hu => h u (.tail _ hu)
    rw [Tree.reachedLiterals, miscounted_append]
    cases ht : t.isFunctionLiteral with
    | true =>
      refine (h t (.head _) ht scopes parent).bind fun u n hu => ?_
      exact hts.bind_pure fun us m hus => .literal ht hu hus
    | false =>
      rw [Tree.enterLiterals, enterLiteral_of_not ht, Tree.reachedLiteral_of_not ht, miscounted_nil,
        Nat.zero_add]
      exact hts.bind_pure fun us m hus => .other ht hus

/-- What is counted in the function literals among the arguments of a call. -/
lemma enterArguments_counts {args : List Tree}
    (h : ∀ t ∈ args, t.isFunctionLiteral = true → LiteralCounts t) (scopes : Scopes)
    (c : ContextId) (r : Role) :
    Counts (miscounted (Tree.reachedEntered r args)) (enterArguments scopes c r args)
      fun us n => ArgumentsKept n args us := by
  cases r with
  | createsSuite => exact enterLiterals_counts h scopes (some c)
  | ordinary => exact enterLiterals_counts h scopes (some c)
  | installsSetup => exact onLastLiteral_counts (fun t ht => setup_counts ht scopes c) args
  | usesContext => exact onLastLiteral_counts (fun t ht => usage_counts ht scopes c) args

/-- After the function literals come the other arguments. -/
lemma directOthers_counts {args us : List Tree} {n : ℕ}
    (hargs : ∀ t ∈ args, t.isFunctionLiteral = false → DirectCounts t)
    (h : ArgumentsKept n args us) (scopes : Scopes) (c : ContextId) :
    Counts (miscounted (Tree.reachedOthers args)) (Tree.directOthers scopes c args us)
      fun vs m => KeptAll (n + m) args vs := by
  induction h with
  | nil => exact Counts.pure .nil
  | @other n t ts us ht _ ih =>
    simp only [Tree.reachedOthers, Tree.directOthers, ht, Bool.false_eq_true, if_false,
      miscounted_append]
    refine (hargs t (.head _) ht scopes c).bind fun u m hu => ?_
    refine (ih fun t ht => hargs t (.tail _ ht)).bind_pure fun vs k hvs => ?_
    rw [Nat.add_left_comm]
    exact .cons hu hvs
  | @literal n m t u ts us ht hu _ ih =>
    simp only [Tree.reachedOthers, Tree.directOthers, ht, if_true]
    refine (ih fun t ht => hargs t (.tail _ ht)).bind_pure fun vs k hvs => ?_
    rw [Nat.add_assoc]
    exact .cons hu hvs

lemma directAll_counts {ts : List Tree} (h : ∀ t ∈ ts, DirectCounts t) (scopes : Scopes)
    (c : ContextId) :
    Counts (miscounted (Tree.reachedAll ts)) (Tree.directAll scopes c ts)
      fun us n => KeptAll n ts us := by
  induction ts with
  | nil => exact Counts.pure .nil
  | cons t ts ih =>
    rw [Tree.reachedAll, miscounted_append]
    refine (h t (.head _) scopes c).bind fun u n hu => ?_
    exact (ih fun u hu => h u (.tail _ hu)).bind_pure fun us m hus => .cons hu hus

/-- A call is kept if its parts are and its arguments are converted. -/
lemma kept_call {n m k : ℕ} {callee callee' types types' : Tree} {args args' : List Tree}
    (hcallee : Kept n callee callee')
    (hargs : Census.Steps m (args.map Tree.census) (args'.map Tree.census))
    (htypes : Kept k types types') (s gs : Span) :
    Kept (n + (m + k)) (.call s callee gs args types) (.call s callee' gs args' types') := by
  have hgroup : Census.Step m (Tree.node .group gs args).census
      (Tree.node .group gs args').census := by
    rw [Tree.census_node, Tree.census_node]
    exact hargs.node .group
  refine .of_label rfl Label.noConfusion ?_
  rw [Tree.census_node, Tree.census_node]
  exact (Census.Steps.cons hcallee.census (.cons hgroup (.cons htypes.census .nil))).node .call

/-- What is counted in a call: what is counted in its parts, which are reached in this order, and
the call itself if it ends in an arrow function in parentheses. -/
lemma call_counts {i j k l : ℕ} {callee types : Tree} {args : List Tree}
    {enter : Descent (List Tree)} {onCallee onTypes : Descent Tree}
    {others : List Tree → Descent (List Tree)}
    (henter : Counts i enter fun us n => ArgumentsKept n args us)
    (hcallee : Counts j onCallee fun u n => Kept n callee u)
    (hothers : ∀ us n, ArgumentsKept n args us →
      Counts k (others us) fun vs m => KeptAll (n + m) args vs)
    (htypes : Counts l onTypes fun u n => Kept n types u) (s gs : Span) :
    Counts (i + (j + (k + (l + (endsInWrappedArrow args).toNat)))) (do
      let entered ← enter
      let callee ← onCallee
      let args ← others entered
      let types ← onTypes
      let args ← Descent.convert args
      return Tree.call s callee gs args types)
      fun u n => Kept n (.call s callee gs args types) u := by
  refine henter.bind fun entered n₁ hentered => ?_
  refine hcallee.bind fun callee' n₂ hcallee' => ?_
  refine (hothers entered n₁ hentered).bind fun args' n₃ hargs' => ?_
  refine htypes.bind fun types' n₄ htypes' => ?_
  -- the last argument is looked at when all are done, and is still an arrow function or not
  rw [← hargs'.endsInWrappedArrow_eq]
  refine (Counts.convert args').bind_pure fun us n₅ hus => ?_
  have hkept := kept_call hcallee' (hargs'.steps.trans hus) htypes' s gs
  rwa [show n₂ + (n₁ + n₃ + n₅ + n₄) = n₁ + (n₂ + (n₃ + (n₄ + n₅))) by omega] at hkept

/-- What is counted in a phrase: the conversions in it, and the calls that end in an arrow function
in parentheses. -/
theorem direct_counts (t : Tree) : DirectCounts t := by
  induction t using Tree.inductBelow with
  | node l s ts ih =>
    intro scopes c
    rcases Tree.call_or_not l s ts with ⟨callee, gs, args, types, heq⟩ | hcall
    · obtain ⟨rfl, -, rfl⟩ := Tree.node.inj heq
      have hcallee := ih _ (.head _) callee (.self _)
      have hargs : ∀ t ∈ args, ∀ u, t.Has u → DirectCounts u := fun t ht u hu =>
        ih _ (.tail _ (.head _)) u (.part ht hu)
      have htypes := ih _ (.tail _ (.tail _ (.head _))) types (.self _)
      have hliterals : ∀ t ∈ args, t.isFunctionLiteral = true → LiteralCounts t :=
        fun t ht hl => literalCounts hl (hargs t ht)
      have hreached : miscounted (Tree.call s callee gs args types).reached =
          miscounted (Tree.reachedEntered callee.calleeRole args) + (miscounted callee.reached +
            (miscounted (Tree.reachedOthers args) + (miscounted types.reached +
              (endsInWrappedArrow args).toNat))) := by
        rw [Tree.reached_call, miscounted_cons]
        simp only [miscounted_append]
        omega
      rw [direct_call, hreached]
      refine call_counts (enterArguments_counts hliterals scopes c _) (hcallee scopes c)
        (fun us n hus => ?_) (htypes scopes c) s gs
      exact directOthers_counts (fun t ht _ => hargs t ht t (.self t)) hus scopes c
    · rw [Tree.reached_node hcall, direct_node hcall]
      split
      · exact Counts.pure (.refl _)
      · exact (directAll_counts (fun t ht => ih t ht t (.self t)) scopes c).bind_pure
          fun us n hus => hus.node l s

/-! ### Outside of all functions -/

/-- How many calls that are reached from suites end in an arrow function in parentheses. -/
def miscountedSuites (suites : List (List Tree)) : ℕ :=
  miscounted (suites.flatMap reachedFrom)

@[simp] lemma miscountedSuites_append (as bs : List (List Tree)) :
    miscountedSuites (as ++ bs) = miscountedSuites as + miscountedSuites bs := by
  rw [miscountedSuites, List.flatMap_append, miscounted_append]
  rfl

lemma miscountedSuites_cons (args : List Tree) (suites : List (List Tree)) :
    miscountedSuites (args :: suites) = miscounted (Tree.reachedLiterals args) +
      (endsInWrappedArrow args).toNat + miscountedSuites suites := by
  rw [miscountedSuites, List.flatMap_cons, miscounted_append, reachedFrom, miscounted_cons]
  rfl

/-- The conversion of a phrase outside of all functions counts its conversions. -/
def ItemCounts (t : Tree) : Prop :=
  ∀ scopes, Counts (miscountedSuites t.suiteArguments) (t.suites scopes) fun u n => Kept n t u

lemma suitesAll_counts {ts : List Tree} (h : ∀ t ∈ ts, ItemCounts t) (scopes : Scopes) :
    Counts (miscountedSuites (Tree.suiteArgumentsAll ts)) (Tree.suitesAll scopes ts)
      fun us n => KeptAll n ts us := by
  induction ts with
  | nil => exact Counts.pure .nil
  | cons t ts ih =>
    rw [Tree.suiteArgumentsAll, miscountedSuites_append]
    refine (h t (.head _) scopes).bind fun u n hu => ?_
    exact (ih fun u hu => h u (.tail _ hu)).bind_pure fun us m hus => .cons hu hus

lemma suitesOthers_counts {args us : List Tree} {n : ℕ}
    (hargs : ∀ t ∈ args, t.isFunctionLiteral = false → ItemCounts t)
    (h : ArgumentsKept n args us) (scopes : Scopes) :
    Counts (miscountedSuites (Tree.suiteArgumentsOthers args)) (Tree.suitesOthers scopes args us)
      fun vs m => KeptAll (n + m) args vs := by
  induction h with
  | nil => exact Counts.pure .nil
  | @other n t ts us ht _ ih =>
    simp only [Tree.suiteArgumentsOthers, Tree.suitesOthers, ht, Bool.false_eq_true, if_false,
      miscountedSuites_append]
    refine (hargs t (.head _) ht scopes).bind fun u m hu => ?_
    refine (ih fun t ht => hargs t (.tail _ ht)).bind_pure fun vs k hvs => ?_
    rw [Nat.add_left_comm]
    exact .cons hu hvs
  | @literal n m t u ts us ht hu _ ih =>
    simp only [Tree.suiteArgumentsOthers, Tree.suitesOthers, ht, if_true]
    refine (ih fun t ht => hargs t (.tail _ ht)).bind_pure fun vs k hvs => ?_
    rw [Nat.add_assoc]
    exact .cons hu hvs

/-- The function literals of a suite are converted from no contexts, and the suite is counted. -/
lemma suite_counts (args : List Tree) (scopes : Scopes) :
    Counts (miscounted (Tree.reachedLiterals args)) (do
      modify fun run => { run with contexts := {} }
      let us ← Tree.enterLiterals scopes none args
      Descent.report { suites := 1 }
      return us) fun us n => ArgumentsKept n args us := by
  have hliterals : ∀ t ∈ args, t.isFunctionLiteral = true → LiteralCounts t :=
    fun t _ hl => literalCounts hl fun u _ => direct_counts u
  -- the contexts are new, but the count goes on
  intro run
  exact enterLiterals_counts hliterals scopes none ⟨{}, run.stats⟩

/-- What is counted in a phrase outside of all functions. -/
theorem suites_counts (t : Tree) : ItemCounts t := by
  induction t using Tree.inductBelow with
  | node l s ts ih =>
    intro scopes
    rcases Tree.call_or_not l s ts with ⟨callee, gs, args, types, heq⟩ | hcall
    · obtain ⟨rfl, -, rfl⟩ := Tree.node.inj heq
      have hcallee := ih _ (.head _) callee (.self _)
      have hargs : ∀ t ∈ args, ItemCounts t := fun t ht =>
        ih _ (.tail _ (.head _)) t (.part ht (.self t))
      have htypes := ih _ (.tail _ (.tail _ (.head _))) types (.self _)
      by_cases hr : callee.calleeRole = .createsSuite
      · have hreached : miscountedSuites (Tree.call s callee gs args types).suiteArguments =
            miscounted (Tree.reachedLiterals args) + (miscountedSuites callee.suiteArguments +
              (miscountedSuites (Tree.suiteArgumentsOthers args) +
                (miscountedSuites types.suiteArguments + (endsInWrappedArrow args).toNat))) := by
          rw [Tree.suiteArguments_suite hr, miscountedSuites_cons]
          simp only [miscountedSuites_append]
          omega
        rw [suites_suite hr, hreached]
        refine call_counts (suite_counts args scopes) (hcallee scopes) (fun us n hus => ?_)
          (htypes scopes) s gs
        exact suitesOthers_counts (fun t ht _ => hargs t ht) hus scopes
      · rw [suites_call hr, Tree.suiteArguments_call hr, miscountedSuites_append,
          miscountedSuites_append]
        refine (hcallee scopes).bind fun callee' j hcallee' => ?_
        refine (suitesAll_counts hargs scopes).bind fun args' k hargs' => ?_
        refine (htypes scopes).bind_pure fun types' n htypes' => ?_
        exact kept_call hcallee' hargs'.steps htypes' s gs
    · rw [Tree.suiteArguments_node hcall, suites_node hcall]
      split
      · exact Counts.pure (.refl _)
      · exact (suitesAll_counts (fun t ht => ih t ht t (.self t)) scopes).bind_pure
          fun us n hus => hus.node l s

namespace Module

/-! ### Source files -/

/-- The census of a source file. -/
def census (m : Module) : Census :=
  (m.items.map Tree.census).sum

/-- The arguments of the calls that are reached in a source file. -/
def reached (m : Module) : List (List Tree) :=
  m.suiteArguments.flatMap reachedFrom

/-- The count of a source file is the number of function expressions that have become arrow
functions, and the number of calls that end in an arrow function in parentheses besides.  So many
function expressions less and arrow functions more are in the result, apart from those lost in
decorators; if no function literal stands in decorators, there are none of these.  And the last of
some arguments is said to have changed exactly if it has, or if it is an arrow function in
parentheses. -/
theorem callbacksConverted_eq (m : Module) :
    (∃ converted functions arrows,
      m.hoistContexts.2.callbacksConverted = converted + miscounted m.reached ∧
      m.census.functions = m.hoistContexts.1.census.functions + converted + functions ∧
      m.census.arrows + converted = m.hoistContexts.1.census.arrows + arrows ∧
      functions + arrows ≤ m.census.decorated) ∧
    (m.census.decorated = 0 →
      m.hoistContexts.2.callbacksConverted + m.hoistContexts.1.census.functions =
        m.census.functions + miscounted m.reached ∧
      m.hoistContexts.2.callbacksConverted + m.census.arrows =
        m.hoistContexts.1.census.arrows + miscounted m.reached) ∧
    ∀ args, (convertLast args).2 = true ↔
      (convertLast args).1 ≠ args ∨ endsInWrappedArrow args = true := by
  have hitems : ∀ t ∈ m.items, ItemCounts t := fun t _ => suites_counts t
  obtain ⟨n, hcount, hkept⟩ := suitesAll_counts hitems (Scopes.ofModule m) {}
  obtain ⟨functions, arrows, hfunctions, harrows, hlost⟩ : Census.Step n m.census
      m.hoistContexts.1.census := hkept.steps.sum
  replace hcount : m.hoistContexts.2.callbacksConverted = n + miscounted m.reached :=
    hcount.trans (Nat.zero_add _)
  refine ⟨⟨n, functions, arrows, hcount, hfunctions, harrows, by omega⟩, fun hdecorated => ?_,
    fun args => ?_⟩
  · -- nothing stands in decorators, so nothing is lost
    obtain ⟨rfl, rfl⟩ : functions = 0 ∧ arrows = 0 := by omega
    constructor <;> omega
  · rcases convertLast_cases args with ⟨hkept, hchanged⟩ | ⟨hconverted, hchanged, -⟩
    · rw [hchanged]
      exact ⟨.inr, fun h => h.resolve_left (not_not_intro hkept)⟩
    · exact ⟨fun _ => .inl hconverted, fun _ => hchanged⟩

/-- A test whose callback is an arrow function in parentheses:
`describe(function() { it((() => {})); });`. -/
def wrappedArrow : Module :=
  .ofItems [.callStmt "describe" [.plainFunction [] [
    .callStmt "it" [.node .paren .nowhere [.arrow .nowhere false (.group [])
      (.node .block .nowhere []) .absent .absent]]]]]

theorem callbacksConverted_eq_wrappedArrow :
    wrappedArrow.census.decorated = 0 ∧ wrappedArrow.census.functions = 1 ∧
      wrappedArrow.hoistContexts.2.callbacksConverted = 2 ∧
      wrappedArrow.hoistContexts.2.callbacksConverted +
        wrappedArrow.hoistContexts.1.census.functions =
          wrappedArrow.census.functions + miscounted wrappedArrow.reached ∧
      wrappedArrow.hoistContexts.2.callbacksConverted + wrappedArrow.census.arrows =
        wrappedArrow.hoistContexts.1.census.arrows + miscounted wrappedArrow.reached :=
  ⟨by decide, by decide, by decide +kernel, (callbacksConverted_eq wrappedArrow).2.1 (by decide)⟩

end Module

end ContextHoist
