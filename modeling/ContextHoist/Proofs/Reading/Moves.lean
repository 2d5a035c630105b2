/-
What parsers return, as far as they return anything.

A parser is described by a triple that does not promise success.  The moves that only look at tokens
or take them are of no account here; what counts are the trees that are built.

* `Goal.Reads`, `Rules.Sound`: the sort of tree that each rule returns.
* `Parser.triple_iff`: what a triple says of the results of a parser.
* `Parser.any_spec`: nothing is said of a parser without a triple of its own.
* `Parser.finish_spec`, `Parser.inMode_spec`, `Parser.attempt_spec`: what is to be shown of the
  parsers inside of these moves.
* `Parser.iterate_spec`, `Parser.many_spec`, `Parser.commaList_spec`, `Parser.separated_spec`: what
  is kept in one round is kept in all of them.
-/
import Mathlib
import ContextHoist.Parse.Basic
import ContextHoist.Proofs.Sorts

set_option mvcgen.warning false

namespace ContextHoist

open Std.Do

/-! ### Rules -/

/-- The sort of tree that the rule returns. -/
@[simp]
def Goal.Reads (goal : Goal) (t : Tree) : Prop :=
  match goal with
  | statement | block => t.IsStatement
  | moduleItem => t.IsRegular
  | expression | assignment | unary | leftHand | memberOnly => t.IsExpression
  | pattern | type | element => t.IsExpression

/-- Each rule returns trees of its sort, if any. -/
abbrev Rules.Sound (rules : Rules) : Prop :=
  ∀ goal, ⦃⌜True⌝⦄ rules goal ⦃⇓? t => ⌜goal.Reads t⌝⦄

namespace Parser

variable {α : Type}

/-! ### Triples -/

/-- A parser depends on a mode and a cursor, and may fail. -/
abbrev Shape : PostShape :=
  .arg Mode (.arg Cursor (.except PUnit .pure))

lemma wp_apply (p : Parser α) (Q : PostCond α Shape) (m : Mode) (c : Cursor) :
    wp⟦p⟧ Q m c = match p m c with
      | some (a, c') => Q.1 a m c'
      | none => Q.2.1 ⟨⟩ := by
  have hrun : wp⟦p⟧ Q m c = wp⟦p m c⟧ (fun (a, c') => Q.1 a m c', Q.2) := rfl
  rw [hrun]
  cases p m c <;> rfl

/-- A triple that does not promise success speaks of all results of the parser. -/
lemma triple_iff (p : Parser α) (P : α → Prop) :
    ⦃⌜True⌝⦄ p ⦃⇓? a => ⌜P a⌝⦄ ↔ ∀ m c a c', p m c = some (a, c') → P a := by
  constructor
  · intro h m c a c' hp
    have hwp := h m c trivial
    rw [wp_apply, hp] at hwp
    exact hwp
  · intro h m c _
    rw [wp_apply]
    cases hp : p m c with
    | none => trivial
    | some r => exact h m c r.1 r.2 hp

/-- Nothing is said of a parser that has no triple of its own. -/
@[spec 1]
theorem any_spec (p : Parser α) : ⦃⌜True⌝⦄ p ⦃⇓? _ => ⌜True⌝⦄ :=
  (triple_iff p _).2 fun _ _ _ _ _ => trivial

/-! ### Moves -/

@[spec]
theorem reject_spec {Q : PostCond α Shape} : ⦃fun _ _ => Q.2.1 ⟨⟩⦄ reject ⦃Q⦄ := by
  intro m c h
  rw [wp_apply]
  exact h

@[spec]
theorem finish_spec (start : Nat) (l : Label) (ts : List Tree) {Q : PostCond Tree Shape} :
    ⦃fun m c => Q.1 (.node l ⟨start, c.last⟩ ts) m c⦄ finish start l ts ⦃Q⦄ := by
  intro m c h
  rw [wp_apply]
  exact h

@[spec]
theorem inMode_spec (f : Mode → Mode) (p : Parser α) {Q : PostCond α Shape} :
    ⦃fun m c => wp⟦p⟧ (fun a _ c' => Q.1 a m c', Q.2) (f m) c⦄ inMode f p ⦃Q⦄ := by
  intro m c h
  dsimp only at h
  rw [wp_apply] at h ⊢
  exact h

@[spec]
theorem attempt_spec (p : Parser α) {Q : PostCond (Option α) Shape} :
    ⦃fun m c => wp⟦p⟧ (fun a _ c' => Q.1 (some a) m c', fun _ => Q.1 none m c, Q.2.2) m c⦄
      attempt p ⦃Q⦄ := by
  intro m c h
  dsimp only at h
  rw [wp_apply] at h ⊢
  unfold attempt
  cases hp : p m c with
  | none =>
    rw [hp] at h
    exact h
  | some r =>
    rw [hp] at h
    exact h

/-! ### Rounds -/

variable {P : α → Prop}

theorem iterate_spec {step : α → Parser (Option α)} {a : α} (ha : P a)
    (hstep : ∀ a, P a → ⦃⌜True⌝⦄ step a ⦃⇓? o => ⌜∀ b ∈ o, P b⌝⦄) :
    ⦃⌜True⌝⦄ iterate step a ⦃⇓? b => ⌜P b⌝⦄ := by
  have hrounds : ∀ n a, P a → ⦃⌜True⌝⦄ iterateUpTo step n a ⦃⇓? b => ⌜P b⌝⦄ := by
    intro n
    induction n with
    | zero =>
      intro a ha
      unfold iterateUpTo
      mvcgen
    | succ n ih =>
      intro a ha
      have hround := hstep a ha
      unfold iterateUpTo
      mvcgen [hround, ih]
      all_goals simp_all
  unfold iterate
  mvcgen [hrounds]
  exact fun _ _ => ha

theorem many_spec {item : Parser (Option α)}
    (hitem : ⦃⌜True⌝⦄ item ⦃⇓? o => ⌜∀ a ∈ o, P a⌝⦄) :
    ⦃⌜True⌝⦄ many item ⦃⇓? ts => ⌜∀ a ∈ ts, P a⌝⦄ := by
  have hrounds := @iterate_spec _ fun found : List α => ∀ a ∈ found, P a
  unfold many
  mvcgen [hrounds, hitem]
  all_goals simp_all

theorem commaList_spec (close : String) {item : Parser α}
    (hitem : ⦃⌜True⌝⦄ item ⦃⇓? a => ⌜P a⌝⦄) :
    ⦃⌜True⌝⦄ commaList close item ⦃⇓? ts => ⌜∀ a ∈ ts, P a⌝⦄ := by
  have hmany := @many_spec _ P
  unfold commaList
  mvcgen [hmany, hitem]
  all_goals simp_all

theorem separated_spec (mark : String) {item : Parser α}
    (hitem : ⦃⌜True⌝⦄ item ⦃⇓? a => ⌜P a⌝⦄) :
    ⦃⌜True⌝⦄ separated mark item ⦃⇓? ts => ⌜∀ a ∈ ts, P a⌝⦄ := by
  have hmany := @many_spec _ P
  unfold separated
  mvcgen [hmany, hitem]
  all_goals simp_all

/-- Where a list of expressions is read, its items are. -/
@[spec 500]
theorem many_expressions_spec {item : Parser (Option Tree)}
    (hitem : ⦃⌜True⌝⦄ item ⦃⇓? o => ⌜∀ t ∈ o, t.IsExpression⌝⦄) :
    ⦃⌜True⌝⦄ many item ⦃⇓? ts => ⌜∀ t ∈ ts, t.IsExpression⌝⦄ :=
  many_spec hitem

@[spec 500]
theorem commaList_expressions_spec (close : String) {item : Parser Tree}
    (hitem : ⦃⌜True⌝⦄ item ⦃⇓? t => ⌜t.IsExpression⌝⦄) :
    ⦃⌜True⌝⦄ commaList close item ⦃⇓? ts => ⌜∀ t ∈ ts, t.IsExpression⌝⦄ :=
  commaList_spec close hitem

@[spec 500]
theorem separated_expressions_spec (mark : String) {item : Parser Tree}
    (hitem : ⦃⌜True⌝⦄ item ⦃⇓? t => ⌜t.IsExpression⌝⦄) :
    ⦃⌜True⌝⦄ separated mark item ⦃⇓? ts => ⌜∀ t ∈ ts, t.IsExpression⌝⦄ :=
  separated_spec mark hitem

@[spec 500]
theorem iterate_expression_spec {step : Tree → Parser (Option Tree)} {t : Tree}
    (ht : t.IsExpression)
    (hstep : ∀ t, t.IsExpression → ⦃⌜True⌝⦄ step t ⦃⇓? o => ⌜∀ u ∈ o, u.IsExpression⌝⦄) :
    ⦃⌜True⌝⦄ iterate step t ⦃⇓? u => ⌜u.IsExpression⌝⦄ :=
  iterate_spec ht hstep

theorem foldrM_spec {β : Type} {f : β → α → Parser α} {xs : List β} {a : α} (ha : P a)
    (hf : ∀ x ∈ xs, ∀ a, P a → ⦃⌜True⌝⦄ f x a ⦃⇓? b => ⌜P b⌝⦄) :
    ⦃⌜True⌝⦄ xs.foldrM f a ⦃⇓? b => ⌜P b⌝⦄ := by
  induction xs with
  | nil =>
    rw [List.foldrM_nil]
    mvcgen
  | cons x xs ih =>
    obtain ⟨hx, hxs⟩ := List.forall_mem_cons.1 hf
    have hrest := ih hxs
    rw [List.foldrM_cons]
    mvcgen [hrest, hx]
    exact fun _ _ h => h

/-! ### Leaves -/

@[spec]
theorem name_spec : ⦃⌜True⌝⦄ name ⦃⇓? t => ⌜t.IsExpression⌝⦄ := by
  unfold name
  mvcgen
  simp

@[spec]
theorem keyName_spec : ⦃⌜True⌝⦄ keyName ⦃⇓? t => ⌜t.IsExpression⌝⦄ := by
  unfold keyName
  mvcgen
  simp

@[spec]
theorem stringLiteral_spec : ⦃⌜True⌝⦄ stringLiteral ⦃⇓? t => ⌜t.IsExpression⌝⦄ := by
  unfold stringLiteral
  mvcgen
  simp

end Parser

end ContextHoist
