/-
The census of a phrase: how many function literals stand in it.

A function that becomes an arrow function is one function expression less and one arrow function
more.  It also loses its decorators and those of its parameters, with all that stands in them, so
the census counts the function literals in decorators apart: no more can be lost.

* `Census`, `Tree.census`: the numbers of function expressions, of arrow functions, and of function
  literals in decorators.
* `Tree.census_rename`, `Tree.census_replaceOwn`, `Tree.census_inject`: what changes nothing.
* `Census.Step`: what a number of conversions can do to a census.
* `Tree.arrowify_cases`, `convertLast_cases`: what the conversion of an argument does to it, and
  when it is counted.
-/
import ContextHoist.Proofs.Losses
import Mathlib.Algebra.BigOperators.Group.List.Basic

namespace ContextHoist

/-- The numbers of function literals in a phrase. -/
@[ext]
structure Census where
  /-- Function expressions. -/
  functions : ℕ := 0
  /-- Arrow functions. -/
  arrows : ℕ := 0
  /-- Function literals in decorators of functions and parameters, once for each decorator around
  them. -/
  decorated : ℕ := 0

namespace Census

instance : Zero Census := ⟨{}⟩

instance : Add Census :=
  ⟨fun c d => ⟨c.functions + d.functions, c.arrows + d.arrows, c.decorated + d.decorated⟩⟩

@[simp] lemma functions_zero : (0 : Census).functions = 0 := rfl

@[simp] lemma arrows_zero : (0 : Census).arrows = 0 := rfl

@[simp] lemma decorated_zero : (0 : Census).decorated = 0 := rfl

@[simp] lemma functions_add (c d : Census) : (c + d).functions = c.functions + d.functions := rfl

@[simp] lemma arrows_add (c d : Census) : (c + d).arrows = c.arrows + d.arrows := rfl

@[simp] lemma decorated_add (c d : Census) : (c + d).decorated = c.decorated + d.decorated := rfl

instance : AddCommMonoid Census where
  add_assoc c d e := by ext <;> simp [Nat.add_assoc]
  zero_add c := by ext <;> simp
  add_zero c := by ext <;> simp
  add_comm c d := by ext <;> simp [Nat.add_comm]
  nsmul := nsmulRec

/-- All function literals. -/
def literals (c : Census) : ℕ :=
  c.functions + c.arrows

end Census

/-- What a node adds to the census of its parts. -/
def Label.weight : Label → List Census → Census
  | .functionExpr, _ => { functions := 1 }
  | .arrow _, _ => { arrows := 1 }
  | .parameter, [decorators, _] => { decorated := decorators.literals }
  | .function _ _, [_, decorators, _, _, _] => { decorated := decorators.literals }
  | _, _ => 0

namespace Tree

mutual

/-- The census of a phrase. -/
def census : Tree → Census
  | node l _ ts => l.weight (censuses ts) + (censuses ts).sum

/-- The census of each phrase of a list. -/
def censuses : List Tree → List Census
  | [] => []
  | t :: ts => t.census :: censuses ts

end

lemma censuses_eq (ts : List Tree) : censuses ts = ts.map census := by
  induction ts with
  | nil => rfl
  | cons t ts ih => rw [censuses, ih, List.map_cons]

lemma census_node (l : Label) (s : Span) (ts : List Tree) :
    (node l s ts).census = l.weight (ts.map census) + (ts.map census).sum := by
  rw [census, censuses_eq]

/-- Parts with the same census can stand for each other. -/
lemma census_congr {ts us : List Tree} (h : us.map census = ts.map census) (l : Label) (s : Span) :
    (node l s us).census = (node l s ts).census := by
  rw [census_node, census_node, h]

/-! ### What changes nothing -/

lemma census_withDefault (x : String) (s : Span) (value : Tree) :
    (withDefault (name x s) value).census = value.census := by
  unfold withDefault
  split
  · rfl
  · simp [census_node, Label.weight]

lemma census_rename (a b : String) (t : Tree) : (t.rename a b).census = t.census := by
  induction t using Tree.induct with
  | node l s ts ih =>
    have hall : (ts.map (rename a b)).map census = ts.map census := by
      rw [List.map_map]
      exact List.map_congr_left ih
    unfold rename
    split
    · next heq =>
      obtain ⟨rfl, rfl, rfl⟩ := Tree.node.inj heq
      rw [renameAll_eq, census_node, census_node, hall]
      rfl
    · next heq =>
      obtain ⟨rfl, rfl, rfl⟩ := Tree.node.inj heq
      split <;> rfl
    · next value heq =>
      obtain ⟨rfl, rfl, rfl⟩ := Tree.node.inj heq
      have hvalue := ih value (.tail _ (.head _))
      split
      · simp [census_node, Label.weight, census_withDefault, hvalue]
      · simp [census_node, Label.weight, hvalue]
    · next heq =>
      obtain ⟨rfl, rfl, rfl⟩ := Tree.node.inj heq
      rw [renameAll_eq]
      exact census_congr hall l s

lemma census_replaceOwn (r : Resolution) (t : Tree) : (t.replaceOwn r).census = t.census := by
  induction t using Tree.induct with
  | node l s ts ih =>
    cases hx : replacement? r (node l s ts) with
    | some x =>
      rw [replaceOwn, hx]
      unfold replacement? at hx
      split at hx
      · next heq =>
        obtain ⟨rfl, rfl, rfl⟩ := Tree.node.inj heq
        rfl
      · exact absurd hx (by simp)
    | none =>
      rw [replaceOwn, hx]
      dsimp only
      split
      · rfl
      · rw [replaceOwnAll_eq]
        refine census_congr ?_ l s
        rw [List.map_map]
        exact List.map_congr_left ih

end Tree

lemma Shell.census_literal_congr (k : Shell) {params params' body body' : Tree}
    (hparams : params'.census = params.census) (hbody : body'.census = body.census) :
    (k.literal params' body').census = (k.literal params body).census := by
  cases k <;> simp [Shell.literal, Tree.census_node, hparams, hbody]

lemma Tree.census_replaceAccesses (r : Resolution) (t : Tree) :
    (t.replaceAccesses r).census = t.census := by
  unfold Tree.replaceAccesses
  split
  · exact Shell.census_literal_congr (.function ..) (census_replaceOwn r _) (census_replaceOwn r _)
  · exact Shell.census_literal_congr (.arrow ..) (census_replaceOwn r _) (census_replaceOwn r _)
  · rfl

/-- The resolution of a callback changes no function literal. -/
lemma census_resolveCallback (scopes : Scopes) (r : Resolution) (callback : Tree) :
    (resolveCallback scopes r callback).1.census = callback.census := by
  rw [resolveCallback, Tree.census_replaceAccesses, Tree.foldl_rename_eq Tree.census_rename]

namespace Tree

lemma sum_letDeclarations (names : List String) :
    ((names.map letDeclaration).map census).sum = 0 := by
  induction names with
  | nil => rfl
  | cons x names ih =>
    rw [List.map_cons, List.map_cons, List.sum_cons, ih]
    rfl

lemma census_block (s : Span) (ts : List Tree) :
    (node .block s ts).census = (ts.map census).sum := by
  rw [census_node]
  exact zero_add _

/-- Declarations of variables change no function literal. -/
lemma census_inject (k : Shell) (params body : Tree) (names : List String) :
    ((k.literal params body).inject (names.map letDeclaration)).census =
      (k.literal params body).census := by
  obtain ⟨l, s, ts⟩ := body
  by_cases hl : l = .block
  · subst hl
    rw [inject_block]
    refine k.census_literal_congr rfl ?_
    rw [census_block, census_block, spliceDeclarations, List.map_append, List.map_append,
      List.sum_append, List.sum_append, sum_letDeclarations, add_zero, ← List.sum_append,
      ← List.map_append, List.takeWhile_append_dropWhile]
  · have hlabel : (node l s ts).label ≠ .block := hl
    cases k with
    | function => rw [Shell.literal, inject_function hlabel]
    | arrow =>
      by_cases hn : names.map letDeclaration = []
      · rw [hn, inject_nil]
      · rw [Shell.literal, inject_expression hlabel hn]
        refine Shell.census_literal_congr (.arrow _ _ _ _) rfl ?_
        rw [census_block, List.map_append, List.sum_append, sum_letDeclarations, zero_add]
        simp [census_node, Label.weight]

end Tree

/-! ### Conversions -/

namespace Census

/-- What is left of a census after `n` function expressions have become arrow functions: besides,
some function literals may be gone, but no more than have left decorators. -/
def Step (n : ℕ) (c d : Census) : Prop :=
  ∃ functions arrows, c.functions = d.functions + n + functions ∧
    c.arrows + n = d.arrows + arrows ∧ functions + arrows + d.decorated ≤ c.decorated

namespace Step

variable {n m : ℕ} {c c' d d' e : Census}

protected lemma refl (c : Census) : Step 0 c c :=
  ⟨0, 0, rfl, rfl, by simp⟩

protected lemma add (h : Step n c d) (h' : Step m c' d') : Step (n + m) (c + c') (d + d') := by
  obtain ⟨f, a, hf, ha, hd⟩ := h
  obtain ⟨f', a', hf', ha', hd'⟩ := h'
  refine ⟨f + f', a + a', ?_, ?_, ?_⟩
  · simp only [functions_add]
    omega
  · simp only [arrows_add]
    omega
  · simp only [decorated_add]
    omega

lemma add_left (e : Census) (h : Step n c d) : Step n (e + c) (e + d) := by
  simpa only [Nat.zero_add] using (Step.refl e).add h

lemma add_right (e : Census) (h : Step n c d) : Step n (c + e) (d + e) :=
  h.add (Step.refl e)

protected lemma trans (h : Step n c d) (h' : Step m d e) : Step (n + m) c e := by
  obtain ⟨f, a, hf, ha, hd⟩ := h
  obtain ⟨f', a', hf', ha', hd'⟩ := h'
  exact ⟨f + f', a + a', by omega, by omega, by omega⟩

lemma literals_le (h : Step n c d) : d.literals ≤ c.literals := by
  obtain ⟨f, a, hf, ha, -⟩ := h
  rw [literals, literals]
  omega

/-- Less may stand in decorators. -/
lemma of_decorated {k l : ℕ} (h : k ≤ l) : Step 0 { decorated := l } { decorated := k } :=
  ⟨0, 0, rfl, rfl, by simpa using h⟩

/-- Decorators may be gone with all that stands in them. -/
lemma of_dropped (c : Census) : Step 0 ({ decorated := c.literals } + c) 0 :=
  ⟨c.functions, c.arrows, by simp, by simp, by simp [literals]⟩

end Step

/-- Conversions in several phrases, each with a census of its own. -/
inductive Steps : ℕ → List Census → List Census → Prop
  | nil : Steps 0 [] []
  | cons {n m : ℕ} {c d : Census} {cs ds : List Census} (h : Step n c d) (hs : Steps m cs ds) :
      Steps (n + m) (c :: cs) (d :: ds)

namespace Steps

variable {n m : ℕ} {cs ds es : List Census}

protected lemma refl (cs : List Census) : Steps 0 cs cs := by
  induction cs with
  | nil => exact .nil
  | cons c cs ih => exact .cons (.refl c) ih

protected lemma trans (h : Steps n cs ds) (h' : Steps m ds es) : Steps (n + m) cs es := by
  induction h generalizing m es with
  | nil =>
    cases h'
    exact .nil
  | @cons n k c d cs ds h hs ih =>
    cases h' with
    | @cons n' k' _ e _ es h' hs' =>
      rw [Nat.add_add_add_comm]
      exact .cons (h.trans h') (ih hs')

protected lemma append {cs' ds' : List Census} (h : Steps n cs ds) (h' : Steps m cs' ds') :
    Steps (n + m) (cs ++ cs') (ds ++ ds') := by
  induction h with
  | nil => rwa [Nat.zero_add]
  | cons h _ ih =>
    rw [Nat.add_assoc]
    exact .cons h ih

lemma sum (h : Steps n cs ds) : Step n cs.sum ds.sum := by
  induction h with
  | nil => exact .refl 0
  | cons h _ ih =>
    rw [List.sum_cons, List.sum_cons]
    exact h.add ih

/-- What a node adds stays, but less may stand in decorators. -/
lemma weight (h : Steps n cs ds) (l : Label) : Step 0 (l.weight cs) (l.weight ds) := by
  unfold Label.weight
  split
  · exact .refl _
  · exact .refl _
  · obtain _ | ⟨hd, _ | ⟨-, hnil⟩⟩ := h
    cases hnil
    exact .of_decorated hd.literals_le
  · obtain _ | ⟨-, _ | ⟨hd, _ | ⟨-, _ | ⟨-, _ | ⟨-, hnil⟩⟩⟩⟩⟩ := h
    cases hnil
    exact .of_decorated hd.literals_le
  · next hfunction harrow hparameter hbody =>
    -- there are as many parts as before, so the node has none of the other shapes now
    split
    · exact absurd rfl hfunction
    · exact absurd rfl (harrow _)
    · obtain _ | ⟨-, _ | ⟨-, hnil⟩⟩ := h
      cases hnil
      exact (hparameter _ _ rfl rfl).elim
    · obtain _ | ⟨-, _ | ⟨-, _ | ⟨-, _ | ⟨-, _ | ⟨-, hnil⟩⟩⟩⟩⟩ := h
      cases hnil
      exact (hbody _ _ _ _ _ _ _ rfl rfl).elim
    · exact .refl _

/-- Conversions in the parts of a node are conversions in the node. -/
lemma node (h : Steps n cs ds) (l : Label) :
    Step n (l.weight cs + cs.sum) (l.weight ds + ds.sum) := by
  have hadd := (h.weight l).add h.sum
  rwa [Nat.zero_add] at hadd

end Steps

end Census

namespace Tree

open Census

/-! ### Arrow functions -/

/-- Whether a tree is an arrow function in parentheses. -/
def isWrappedArrow (t : Tree) : Bool :=
  t.isArrow && !t.isBareArrow

/-- A parameter may lose its decorators. -/
lemma step_parameterPattern (t : Tree) : Step 0 t.census t.parameterPattern.census := by
  unfold parameterPattern
  split
  · next s decorators p =>
    have hstep := (Step.of_dropped decorators.census).add_right p.census
    rw [zero_add, add_assoc] at hstep
    rw [census_node]
    simpa [Label.weight] using hstep
  · exact .refl _

lemma step_parameterPatterns (t : Tree) : Step 0 t.census t.parameterPatterns.census := by
  unfold parameterPatterns
  split
  · next s ts =>
    have hall : Steps 0 (ts.map census) ((ts.map parameterPattern).map census) := by
      induction ts with
      | nil => exact .nil
      | cons t ts ih => exact .cons t.step_parameterPattern ih
    rw [census_node, census_node]
    exact hall.node .group
  · exact .refl _

lemma census_functionExpr (s : Span) (self : Tree) (isAsync isGenerator : Bool) (fs : Span)
    (params decorators body typeParams result : Tree) :
    (functionExpr s self isAsync isGenerator fs params decorators body typeParams result).census =
      { functions := 1 } + (self.census + (({ decorated := decorators.census.literals } +
        decorators.census) + (params.census + (body.census + (typeParams.census +
          result.census))))) := by
  ext <;> simp [census_node, Label.weight] <;> omega

lemma census_arrow (s : Span) (isAsync : Bool) (params body typeParams result : Tree) :
    (arrow s isAsync params body typeParams result).census =
      { arrows := 1 } + (params.census + (body.census + (typeParams.census + result.census))) := by
  simp [census_node, Label.weight]

/-- A tree stays as it is, or it is a function expression that becomes an arrow function. -/
lemma toArrow_cases (t : Tree) :
    t.toArrow = t ∨ t.isArrow = false ∧ t.toArrow.isArrow = true ∧
      Step 1 t.census t.toArrow.census := by
  cases hlit : t.isFunctionLiteral with
  | false => exact .inl (toArrow_of_not hlit)
  | true =>
    obtain ⟨k, params, body, rfl⟩ := exists_shell hlit
    rcases toArrow_literal k params body with hkept | ⟨-, -, s, self, isAsync, isGenerator, fs,
      decorators, typeParams, result, rfl, hself, harrow⟩
    · exact .inl hkept
    · refine .inr ⟨rfl, by rw [harrow]; rfl, ?_⟩
      obtain ⟨span, rfl⟩ := eq_absent_of_isPresent hself
      rw [harrow]
      have hliteral : Step 1 { functions := 1 } { arrows := 1 } := ⟨0, 0, rfl, rfl, by simp⟩
      have hdropped := (Step.of_dropped decorators.census).add
        (params.step_parameterPatterns.add_right (body.census + (typeParams.census +
          result.census)))
      have habsent : (node .absent span []).census = 0 := rfl
      rw [Shell.literal, census_functionExpr, census_arrow, habsent]
      simpa only [zero_add, add_zero] using hliteral.add hdropped

lemma census_paren (s : Span) (t : Tree) : (node .paren s [t]).census = t.census := by
  simp [census_node, Label.weight]

/-- An argument stays as it is, or it is a function expression, perhaps in parentheses, that
becomes an arrow function. -/
lemma arrowify_cases (t : Tree) :
    t.arrowify = t ∨ t.isArrow = false ∧ t.arrowify.isArrow = true ∧
      Step 1 t.census t.arrowify.census := by
  unfold arrowify
  split
  · next s u =>
    rcases u.toArrow_cases with hkept | ⟨hno, harrow, hstep⟩
    · exact .inl (by rw [hkept])
    · refine .inr ⟨by rwa [isArrow], by rwa [isArrow], ?_⟩
      rwa [census_paren, census_paren]
  · exact t.toArrow_cases

lemma isArrow_of_isBareArrow {t : Tree} (h : t.isBareArrow = true) : t.isArrow = true := by
  unfold isBareArrow at h
  split at h
  · rfl
  · cases h

end Tree

/-- Whether the last of some arguments is an arrow function in parentheses. -/
def endsInWrappedArrow (args : List Tree) : Bool :=
  args.getLast?.any Tree.isWrappedArrow

lemma convertLast_changed (args : List Tree) (t : Tree) :
    (convertLast (args ++ [t])).2 = (!t.isBareArrow && t.arrowify.isArrow) := by
  induction args with
  | nil => rfl
  | cons u us ih =>
    cases us with
    | nil => rfl
    | cons v vs =>
      simp only [List.cons_append, convertLast]
      exact ih

/-- Nothing is converted, or the last argument is a function expression that becomes an arrow
function.  What is said to have changed is the latter, and arrow functions in parentheses. -/
theorem convertLast_cases (args : List Tree) :
    (convertLast args).1 = args ∧ (convertLast args).2 = endsInWrappedArrow args ∨
      (convertLast args).1 ≠ args ∧ (convertLast args).2 = true ∧
        endsInWrappedArrow args = false ∧
        Census.Steps 1 (args.map Tree.census) ((convertLast args).1.map Tree.census) := by
  rcases List.eq_nil_or_concat args with rfl | ⟨init, t, rfl⟩
  · exact .inl ⟨rfl, rfl⟩
  rw [List.concat_eq_append, convertLast_concat, convertLast_changed, endsInWrappedArrow,
    List.getLast?_concat, Option.any_some]
  rcases t.arrowify_cases with hkept | ⟨hno, harrow, hstep⟩
  · exact .inl ⟨by rw [hkept], by rw [hkept, Tree.isWrappedArrow, Bool.and_comm]⟩
  · have hbare : t.isBareArrow = false := by
      rw [← Bool.not_eq_true]
      exact fun h => Bool.false_ne_true (hno.symm.trans (Tree.isArrow_of_isBareArrow h))
    refine .inr ⟨fun heq => ?_, by rw [hbare, harrow]; rfl, by rw [Tree.isWrappedArrow, hno]; rfl,
      ?_⟩
    · have hkept := List.singleton_inj.1 (List.append_cancel_left heq)
      rw [hkept, hno] at harrow
      exact Bool.false_ne_true harrow
    · rw [List.map_append, List.map_append, ← Nat.zero_add 1]
      exact (Census.Steps.refl _).append (.cons hstep .nil)

end ContextHoist
