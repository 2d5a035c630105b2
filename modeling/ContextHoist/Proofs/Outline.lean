/-
The outline of a phrase: what the conversion finds in it.

A phrase is outlined by the callbacks of its setups, the callbacks of its tests, and the function
literals that are arguments of its other calls, each of these with an outline of its own.  They
are listed in the order in which the conversion reaches them: in a call the function literals
come first, then the callee, the other arguments and the type arguments.

* `Outline`: outlines, with anything in place of callbacks and literals.
* `Outline.callbacks`, `Outline.literals`, `Outline.opened`, `Outline.finished`: views of an
  outline as a list.
* `Tree.outline`: the outline of a phrase that belongs to a function literal.
* `Tree.suiteArguments`: the arguments of the calls that open a suite outside of all functions.
-/
import Mathlib.Data.List.Basic
import Mathlib.Tactic.Common
import ContextHoist.Suite.Role
import ContextHoist.Proofs.Shape

namespace ContextHoist

/-- What the conversion finds in a phrase, in the order in which it gets there. -/
inductive Outline (κ τ : Type) where
  | done
  /-- The callback of a setup. -/
  | setup (callback : κ) (rest : Outline κ τ)
  /-- The callback of a test, or one that cleans up. -/
  | usage (callback : κ) (rest : Outline κ τ)
  /-- A function literal with a context of its own. -/
  | literal (t : τ) (inner rest : Outline κ τ)

namespace Outline

variable {κ τ : Type}

/-- One outline after another. -/
def append : Outline κ τ → Outline κ τ → Outline κ τ
  | done, b => b
  | setup k rest, b => setup k (rest.append b)
  | usage k rest, b => usage k (rest.append b)
  | literal t inner rest, b => literal t inner (rest.append b)

instance : Append (Outline κ τ) := ⟨append⟩

@[simp] lemma done_append (b : Outline κ τ) : done ++ b = b := rfl

@[simp] lemma setup_append (k : κ) (a b : Outline κ τ) : setup k a ++ b = setup k (a ++ b) := rfl

@[simp] lemma usage_append (k : κ) (a b : Outline κ τ) : usage k a ++ b = usage k (a ++ b) := rfl

@[simp] lemma literal_append (t : τ) (i a b : Outline κ τ) :
    literal t i a ++ b = literal t i (a ++ b) := rfl

@[simp] lemma append_done (a : Outline κ τ) : a ++ done = a := by
  induction a with
  | done => rfl
  | setup k rest ih => simp [ih]
  | usage k rest ih => simp [ih]
  | literal t inner rest _ ih => simp [ih]

lemma append_assoc (a b c : Outline κ τ) : a ++ b ++ c = a ++ (b ++ c) := by
  induction a with
  | done => rfl
  | setup k rest ih => simp [ih]
  | usage k rest ih => simp [ih]
  | literal t inner rest _ ih => simp [ih]

/-! ### Views -/

/-- The callbacks of the setups that belong to the phrase itself. -/
def setups : Outline κ τ → List κ
  | done => []
  | setup k rest => k :: rest.setups
  | usage _ rest => rest.setups
  | literal _ _ rest => rest.setups

/-- The callbacks of the tests, at any depth. -/
def usages : Outline κ τ → List κ
  | done => []
  | setup _ rest => rest.usages
  | usage k rest => k :: rest.usages
  | literal _ inner rest => inner.usages ++ rest.usages

/-- The callbacks of the setups, at any depth. -/
def installed : Outline κ τ → List κ
  | done => []
  | setup k rest => k :: rest.installed
  | usage _ rest => rest.installed
  | literal _ inner rest => inner.installed ++ rest.installed

/-- All callbacks, at any depth. -/
def handled : Outline κ τ → List κ
  | done => []
  | setup k rest => k :: rest.handled
  | usage k rest => k :: rest.handled
  | literal _ inner rest => inner.handled ++ rest.handled

/-- All callbacks, each with the function literals around it, the innermost first.  The given
literals are those around the phrase. -/
def callbacks (around : List τ) : Outline κ τ → List (List τ × κ)
  | done => []
  | setup k rest => (around, k) :: rest.callbacks around
  | usage k rest => (around, k) :: rest.callbacks around
  | literal t inner rest => inner.callbacks (t :: around) ++ rest.callbacks around

/-- All function literals, each with the outline of what it holds. -/
def literals : Outline κ τ → List (τ × Outline κ τ)
  | done => []
  | setup _ rest => rest.literals
  | usage _ rest => rest.literals
  | literal t inner rest => (t, inner) :: (inner.literals ++ rest.literals)

/-- All function literals in the order in which they are entered. -/
def opened : Outline κ τ → List τ
  | done => []
  | setup _ rest => rest.opened
  | usage _ rest => rest.opened
  | literal t inner rest => t :: (inner.opened ++ rest.opened)

/-- All function literals in the order in which they are left, inner ones before outer ones. -/
def finished : Outline κ τ → List τ
  | done => []
  | setup _ rest => rest.finished
  | usage _ rest => rest.finished
  | literal t inner rest => inner.finished ++ t :: rest.finished

@[simp] lemma setups_append (a b : Outline κ τ) : (a ++ b).setups = a.setups ++ b.setups := by
  induction a <;> simp [setups, *]

@[simp] lemma usages_append (a b : Outline κ τ) : (a ++ b).usages = a.usages ++ b.usages := by
  induction a <;> simp [usages, *]

@[simp] lemma installed_append (a b : Outline κ τ) :
    (a ++ b).installed = a.installed ++ b.installed := by
  induction a <;> simp [installed, *]

@[simp] lemma handled_append (a b : Outline κ τ) : (a ++ b).handled = a.handled ++ b.handled := by
  induction a <;> simp [handled, *]

@[simp] lemma callbacks_append (around : List τ) (a b : Outline κ τ) :
    (a ++ b).callbacks around = a.callbacks around ++ b.callbacks around := by
  induction a <;> simp [callbacks, *]

@[simp] lemma literals_append (a b : Outline κ τ) :
    (a ++ b).literals = a.literals ++ b.literals := by
  induction a <;> simp [literals, *]

@[simp] lemma opened_append (a b : Outline κ τ) : (a ++ b).opened = a.opened ++ b.opened := by
  induction a <;> simp [opened, *]

@[simp] lemma finished_append (a b : Outline κ τ) :
    (a ++ b).finished = a.finished ++ b.finished := by
  induction a <;> simp [finished, *]

lemma setups_subset_handled (o : Outline κ τ) : o.setups ⊆ o.handled := by
  induction o with
  | done => exact fun _ h => h
  | setup k rest ih => exact List.cons_subset_cons k ih
  | usage k rest ih => exact fun _ h => .tail _ (ih h)
  | literal t inner rest _ ih => exact fun _ h => List.mem_append_right _ (ih h)

lemma finished_subset_opened (o : Outline κ τ) : o.finished ⊆ o.opened := by
  induction o with
  | done => exact fun _ h => h
  | setup k rest ih => exact ih
  | usage k rest ih => exact ih
  | literal t inner rest ihi ih =>
    intro u hu
    rcases List.mem_append.1 hu with hu | hu
    · exact .tail _ (List.mem_append_left _ (ihi hu))
    · rcases List.mem_cons.1 hu with rfl | hu
      · exact .head _
      · exact .tail _ (List.mem_append_right _ (ih hu))

lemma opened_eq (o : Outline κ τ) : o.opened = o.literals.map (·.1) := by
  induction o <;> simp [opened, literals, *]

lemma handled_eq_callbacks (o : Outline κ τ) (around : List τ) :
    o.handled = (o.callbacks around).map (·.2) := by
  induction o generalizing around with
  | done => rfl
  | setup k rest ih => simp only [handled, callbacks, List.map_cons, ih around]
  | usage k rest ih => simp only [handled, callbacks, List.map_cons, ih around]
  | literal t inner rest ihi ih =>
    simp only [handled, callbacks, List.map_append, ihi (t :: around), ih around]

/-- The function literals around a callback are entered. -/
lemma mem_opened_of_mem_callbacks {o : Outline κ τ} {around : List τ}
    {c : List τ × κ} (h : c ∈ o.callbacks around) : ∀ t ∈ c.1, t ∈ around ∨ t ∈ o.opened := by
  induction o generalizing around with
  | done => exact absurd h List.not_mem_nil
  | setup k rest ih =>
    rcases List.mem_cons.1 h with rfl | h
    · exact fun t ht => .inl ht
    · exact ih h
  | usage k rest ih =>
    rcases List.mem_cons.1 h with rfl | h
    · exact fun t ht => .inl ht
    · exact ih h
  | literal u inner rest ihi ih =>
    intro t ht
    rw [callbacks, List.mem_append] at h
    rw [opened, List.mem_cons, List.mem_append]
    rcases h with h | h
    · rcases ihi h t ht with ht | ht
      · rcases List.mem_cons.1 ht with rfl | ht
        · exact .inr (.inl rfl)
        · exact .inl ht
      · exact .inr (.inr (.inl ht))
    · rcases ih h t ht with ht | ht
      · exact .inl ht
      · exact .inr (.inr (.inr ht))

end Outline

/-! ### Outlines of trees -/

/-- The role of a call through whose function literals the conversion descends. -/
def Role.Descends (r : Role) : Prop :=
  r = .createsSuite ∨ r = .ordinary

/-- The last of some arguments, if it is a function literal. -/
def trailingLiteral? (args : List Tree) : Option Tree :=
  args.getLast?.filter Tree.isFunctionLiteral

namespace Tree

mutual

/-- The outline of a phrase that belongs to a function literal. -/
def outline : Tree → Outline Tree Tree
  | node .call _ [callee, node .group _ args, types] =>
    (match callee.calleeRole with
      | .installsSetup => (trailingLiteral? args).elim .done (.setup · .done)
      | .usesContext => (trailingLiteral? args).elim .done (.usage · .done)
      | .createsSuite | .ordinary => outlineLiterals args) ++
      (callee.outline ++ (outlineOthers args ++ types.outline))
  | node l _ ts => if l.isBoundary then .done else outlineAll ts

/-- The outline of a list of phrases. -/
def outlineAll : List Tree → Outline Tree Tree
  | [] => .done
  | t :: ts => t.outline ++ outlineAll ts

/-- The outline of the arguments that are not function literals. -/
def outlineOthers : List Tree → Outline Tree Tree
  | [] => .done
  | t :: ts => if t.isFunctionLiteral then outlineOthers ts else t.outline ++ outlineOthers ts

/-- The function literals among some arguments. -/
def outlineLiterals : List Tree → Outline Tree Tree
  | [] => .done
  | t :: ts => t.outlineLiteral ++ outlineLiterals ts

/-- A function literal with the outline of its parameters and its body. -/
def outlineLiteral : Tree → Outline Tree Tree
  | node .functionExpr s [self, node (.function isAsync isGenerator) fs
      [params, decorators, body, typeParams, result]] =>
    .literal
      (functionExpr s self isAsync isGenerator fs params decorators body typeParams result)
      (params.outline ++ body.outline) .done
  | node (.arrow isAsync) s [params, body, typeParams, result] =>
    .literal (arrow s isAsync params body typeParams result) (params.outline ++ body.outline) .done
  | _ => .done

end

/-- What a call brings before its callee and its other arguments are reached. -/
def outlineEntered (role : Role) (args : List Tree) : Outline Tree Tree :=
  match role with
  | .installsSetup => (trailingLiteral? args).elim .done (.setup · .done)
  | .usesContext => (trailingLiteral? args).elim .done (.usage · .done)
  | .createsSuite | .ordinary => outlineLiterals args

lemma outlineEntered_of_descends {r : Role} (h : r.Descends) (args : List Tree) :
    outlineEntered r args = outlineLiterals args := by
  rcases h with rfl | rfl <;> rfl

lemma outline_call (s : Span) (callee : Tree) (gs : Span) (args : List Tree) (types : Tree) :
    (call s callee gs args types).outline =
      outlineEntered callee.calleeRole args ++
        (callee.outline ++ (outlineOthers args ++ types.outline)) := by
  rw [outline]
  rfl

lemma outline_node {l : Label} {s : Span} {ts : List Tree}
    (h : ∀ callee gs args types, l = .call → ts = [callee, node .group gs args, types] → False) :
    (node l s ts).outline = if l.isBoundary then .done else outlineAll ts := by
  rw [outline]
  exact h

lemma mem_opened_outlineAll {t u : Tree} {ts : List Tree} (ht : t ∈ ts)
    (hu : u ∈ t.outline.opened) : u ∈ (outlineAll ts).opened := by
  induction ht with
  | head => simp [outlineAll, hu]
  | tail _ _ ih => simp [outlineAll, ih]

lemma mem_opened_outlineOthers {t u : Tree} {args : List Tree} (ht : t ∈ args)
    (hl : t.isFunctionLiteral = false) (hu : u ∈ t.outline.opened) :
    u ∈ (outlineOthers args).opened := by
  induction ht with
  | head => simp [outlineOthers, hl, hu]
  | tail _ _ ih =>
    rw [outlineOthers]
    split <;> simp [ih]

lemma mem_setups_outlineAll {t u : Tree} {ts : List Tree} (ht : t ∈ ts)
    (hu : u ∈ t.outline.setups) : u ∈ (outlineAll ts).setups := by
  induction ht with
  | head => simp [outlineAll, hu]
  | tail _ _ ih => simp [outlineAll, ih]

lemma mem_setups_outlineOthers {t u : Tree} {args : List Tree} (ht : t ∈ args)
    (hl : t.isFunctionLiteral = false) (hu : u ∈ t.outline.setups) :
    u ∈ (outlineOthers args).setups := by
  induction ht with
  | head => simp [outlineOthers, hl, hu]
  | tail _ _ ih =>
    rw [outlineOthers]
    split <;> simp [ih]

lemma mem_opened_outlineLiterals {t u : Tree} {args : List Tree} (ht : t ∈ args)
    (hu : u ∈ t.outlineLiteral.opened) : u ∈ (outlineLiterals args).opened := by
  induction ht with
  | head => simp [outlineLiterals, hu]
  | tail _ _ ih => simp [outlineLiterals, ih]

lemma outlineLiteral_literal (k : Shell) (params body : Tree) :
    (k.literal params body).outlineLiteral =
      .literal (k.literal params body) (params.outline ++ body.outline) .done := by
  cases k <;> rfl

lemma outlineLiteral_of_not {t : Tree} (h : t.isFunctionLiteral = false) :
    t.outlineLiteral = .done := by
  unfold outlineLiteral
  split
  · exact absurd h (by simp [isFunctionLiteral])
  · exact absurd h (by simp [isFunctionLiteral])
  · rfl

lemma setups_outlineLiterals (args : List Tree) : (outlineLiterals args).setups = [] := by
  induction args with
  | nil => rfl
  | cons t ts ih =>
    rw [outlineLiterals, Outline.setups_append, ih, List.append_nil]
    cases hlit : t.isFunctionLiteral with
    | false =>
      rw [outlineLiteral_of_not hlit]
      rfl
    | true =>
      obtain ⟨k, params, body, rfl⟩ := exists_shell hlit
      rw [outlineLiteral_literal]
      rfl

mutual

/-- The arguments of the calls in a phrase that open a suite and stand outside of all
functions, in the order in which the calls are reached. -/
def suiteArguments : Tree → List (List Tree)
  | node .call _ [callee, node .group _ args, types] =>
    if callee.calleeRole = .createsSuite then
      args :: (callee.suiteArguments ++ (suiteArgumentsOthers args ++ types.suiteArguments))
    else callee.suiteArguments ++ (suiteArgumentsAll args ++ types.suiteArguments)
  | node l _ ts => if l.isBoundary then [] else suiteArgumentsAll ts

/-- The arguments of the calls in a list of phrases that open a suite. -/
def suiteArgumentsAll : List Tree → List (List Tree)
  | [] => []
  | t :: ts => t.suiteArguments ++ suiteArgumentsAll ts

/-- The arguments of the calls that open a suite in the arguments that are not function
literals. -/
def suiteArgumentsOthers : List Tree → List (List Tree)
  | [] => []
  | t :: ts =>
    if t.isFunctionLiteral then suiteArgumentsOthers ts
    else t.suiteArguments ++ suiteArgumentsOthers ts

end

lemma suiteArguments_suite {callee : Tree} (h : callee.calleeRole = .createsSuite) (s gs : Span)
    (args : List Tree) (types : Tree) :
    (call s callee gs args types).suiteArguments =
      args :: (callee.suiteArguments ++ (suiteArgumentsOthers args ++ types.suiteArguments)) := by
  rw [suiteArguments, if_pos h]

lemma suiteArguments_call {callee : Tree} (h : callee.calleeRole ≠ .createsSuite) (s gs : Span)
    (args : List Tree) (types : Tree) :
    (call s callee gs args types).suiteArguments =
      callee.suiteArguments ++ (suiteArgumentsAll args ++ types.suiteArguments) := by
  rw [suiteArguments, if_neg h]

lemma suiteArguments_node {l : Label} {s : Span} {ts : List Tree}
    (h : ∀ callee gs args types, l = .call → ts = [callee, node .group gs args, types] → False) :
    (node l s ts).suiteArguments = if l.isBoundary then [] else suiteArgumentsAll ts := by
  rw [suiteArguments]
  exact h

lemma exists_of_mem_suiteArgumentsAll {ts args : List Tree} (h : args ∈ suiteArgumentsAll ts) :
    ∃ t ∈ ts, args ∈ t.suiteArguments := by
  induction ts with
  | nil => exact absurd h List.not_mem_nil
  | cons t ts ih =>
    rw [suiteArgumentsAll, List.mem_append] at h
    rcases h with h | h
    · exact ⟨t, .head _, h⟩
    · obtain ⟨u, hu, h⟩ := ih h
      exact ⟨u, .tail _ hu, h⟩

lemma exists_of_mem_suiteArgumentsOthers {ts args : List Tree}
    (h : args ∈ suiteArgumentsOthers ts) : ∃ t ∈ ts, args ∈ t.suiteArguments := by
  induction ts with
  | nil => exact absurd h List.not_mem_nil
  | cons t ts ih =>
    have htail : args ∈ suiteArgumentsOthers ts → ∃ u ∈ t :: ts, args ∈ u.suiteArguments := by
      intro h
      obtain ⟨u, hu, h⟩ := ih h
      exact ⟨u, .tail _ hu, h⟩
    rw [suiteArgumentsOthers] at h
    split at h
    · exact htail h
    · rcases List.mem_append.1 h with h | h
      · exact ⟨t, .head _, h⟩
      · exact htail h

lemma mem_suiteArgumentsAll {t : Tree} {ts args : List Tree} (ht : t ∈ ts)
    (h : args ∈ t.suiteArguments) : args ∈ suiteArgumentsAll ts := by
  induction ht with
  | head => simp [suiteArgumentsAll, h]
  | tail _ _ ih => simp [suiteArgumentsAll, ih]

lemma mem_suiteArgumentsOthers {t : Tree} {ts args : List Tree} (ht : t ∈ ts)
    (hl : t.isFunctionLiteral = false) (h : args ∈ t.suiteArguments) :
    args ∈ suiteArgumentsOthers ts := by
  induction ht with
  | head => simp [suiteArgumentsOthers, hl, h]
  | tail _ _ ih =>
    rw [suiteArgumentsOthers]
    split <;> simp [ih]

end Tree

/-- The arguments of the calls of a source file that open a suite outside of all functions. -/
def Module.suiteArguments (m : Module) : List (List Tree) :=
  Tree.suiteArgumentsAll m.items

end ContextHoist
