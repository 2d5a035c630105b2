/-
What is read as an expression.

* `Tree.IsExpression.toPattern`: what was read as an expression is one also as a pattern.
* `Chain.fold_isExpression`: operators between expressions make an expression.
* `Parser.assignment_spec`, `Parser.expression_spec`: expressions.
-/
import ContextHoist.Parse.Expressions
import ContextHoist.Proofs.Reading.Functions

set_option mvcgen.warning false

namespace ContextHoist

open Std.Do

/-! ### Expressions as patterns -/

namespace Tree

lemma patterns_isExpression :
    (∀ t : Tree, t.IsExpression → ∀ p ∈ t.toPattern, p.IsExpression) ∧
    (∀ ts : List Tree, (∀ t ∈ ts, t.IsExpression) →
      ∀ ps ∈ propertiesToPattern ts, ∀ p ∈ ps, p.IsExpression) ∧
    (∀ ts : List Tree, (∀ t ∈ ts, t.IsExpression) →
      ∀ ps ∈ elementsToPattern ts, ∀ p ∈ ps, p.IsExpression) := by
  apply toPattern.mutual_induct
  case case11 =>
    intro s k v ts ihv ihts h ps hps
    obtain ⟨⟨hk, hv⟩, hts⟩ : (k.IsExpression ∧ v.IsExpression) ∧ ∀ t ∈ ts, t.IsExpression := by
      simpa using h
    obtain ⟨v', hv', ts', hts', rfl⟩ : ∃ v', v.toPattern = some v' ∧ ∃ ts',
        propertiesToPattern ts = some ts' ∧ node .keyValuePattern s [k, v'] :: ts' = ps := by
      simpa [propertiesToPattern, Option.bind_eq_some_iff] using hps
    simpa [hk, ihv hv v' hv'] using ihts hts ts' hts'
  case case12 =>
    intro s t ts iht ihts h ps hps
    obtain ⟨ht, hts⟩ : t.IsExpression ∧ ∀ t ∈ ts, t.IsExpression := by simpa using h
    obtain ⟨t', ht', ts', hts', rfl⟩ : ∃ t', t.toPattern = some t' ∧ ∃ ts',
        propertiesToPattern ts = some ts' ∧ node .restPattern s [t', absent] :: ts' = ps := by
      simpa [propertiesToPattern, Option.bind_eq_some_iff] using hps
    simpa [iht ht t' ht'] using ihts hts ts' hts'
  case case13 =>
    intro head tail _ _ _ _
    rw [propertiesToPattern] <;> simp_all
  case case16 =>
    intro s t ts iht ihts h ps hps
    obtain ⟨ht, hts⟩ : t.IsExpression ∧ ∀ t ∈ ts, t.IsExpression := by simpa using h
    obtain ⟨t', ht', ts', hts', rfl⟩ : ∃ t', t.toPattern = some t' ∧ ∃ ts',
        elementsToPattern ts = some ts' ∧ node .restPattern s [t', absent] :: ts' = ps := by
      simpa [elementsToPattern, Option.bind_eq_some_iff] using hps
    simpa [iht ht t' ht'] using ihts hts ts' hts'
  case case17 =>
    intro t ts habsent hspread iht ihts h ps hps
    obtain ⟨ht, hts⟩ : t.IsExpression ∧ ∀ t ∈ ts, t.IsExpression := by simpa using h
    obtain ⟨t', ht', ts', hts', rfl⟩ : ∃ t', t.toPattern = some t' ∧ ∃ ts',
        elementsToPattern ts = some ts' ∧ t' :: ts' = ps := by
      simpa [elementsToPattern, Option.bind_eq_some_iff] using hps
    simpa [iht ht t' ht'] using ihts hts ts' hts'
  all_goals simp +contextual [toPattern, elementsToPattern, propertiesToPattern]

variable {t p : Tree}

lemma IsExpression.toPattern (h : t.IsExpression) (hp : t.toPattern = some p) : p.IsExpression :=
  patterns_isExpression.1 t h p hp

lemma IsExpression.toTarget (h : t.IsExpression) (hp : t.toTarget = some p) : p.IsExpression := by
  unfold Tree.toTarget at hp
  split at hp
  · exact h.toPattern hp
  · obtain ⟨-, rfl⟩ : _ ∧ t = p := by simpa using hp
    exact h

lemma IsExpression.toLoopTarget (h : t.IsExpression) (hp : t.toLoopTarget = some p) :
    p.IsExpression := by
  unfold Tree.toLoopTarget at hp
  split at hp
  · exact h.toPattern hp
  · obtain rfl : t = p := by simpa using hp
    exact h

lemma IsExpression.toBinding (h : t.IsExpression) (hp : t.toBinding = some p) :
    p.IsExpression := by
  unfold Tree.toBinding at hp
  split at hp
  · obtain rfl : Tree.name "this" _ = p := by simpa using hp
    simp
  · exact h.toPattern (Option.filter_eq_some_iff.1 hp).1

lemma IsExpression.toParameter (h : t.IsExpression) (hp : Parser.toParameter t = some p) :
    p.IsExpression := by
  unfold Parser.toParameter at hp
  split at hp
  case h_4 => exact h.toBinding hp
  all_goals
    obtain rfl : t = p := by simpa using hp
    exact h

lemma exists_of_mem_mapM {f : Tree → Option Tree} {ts ps : List Tree}
    (hps : ts.mapM f = some ps) (hp : p ∈ ps) : ∃ t ∈ ts, f t = some p := by
  induction ts generalizing ps with
  | nil =>
    obtain rfl : ps = [] := by simpa using hps
    simp at hp
  | cons t ts ih =>
    obtain ⟨q, hq, qs, hqs, rfl⟩ :
        ∃ q, f t = some q ∧ ∃ qs, ts.mapM f = some qs ∧ q :: qs = ps := by
      simpa [List.mapM_cons, Option.bind_eq_some_iff] using hps
    rcases List.mem_cons.1 hp with rfl | hp
    · exact ⟨t, .head _, hq⟩
    · obtain ⟨u, hu, hup⟩ := ih hqs hp
      exact ⟨u, .tail _ hu, hup⟩

end Tree

/-! ### Chains of operators -/

/-- What follows an operand has expressions in it only. -/
def Link.IsExpression : Link → Prop
  | operator _ _ t => t.IsExpression
  | cast l ts _ => l.isPlain = true ∧ ∀ t ∈ ts, t.IsExpression

namespace Chain

/-- The left operands that are waiting are expressions. -/
def Pending.IsExpression (pending : Pending) : Prop :=
  ∀ p ∈ pending, p.1.IsExpression

lemma reduce_isExpression (level : Nat) (toRight : Bool) {pending : Pending} {t : Tree}
    (hpending : pending.IsExpression) (ht : t.IsExpression) :
    (reduce level toRight pending t).1.IsExpression ∧
      (reduce level toRight pending t).2.IsExpression := by
  induction pending generalizing t with
  | nil => exact ⟨hpending, ht⟩
  | cons p rest ih =>
    obtain ⟨l, op, n⟩ := p
    obtain ⟨hl, hrest⟩ := List.forall_mem_cons.1 hpending
    unfold reduce
    split
    · exact ih hrest (by simp [join, ht, (hl : l.IsExpression)])
    · exact ⟨hpending, ht⟩

/-- Grouping expressions by their operators gives an expression. -/
lemma fold_isExpression {pending : Pending} {t : Tree} {links : List Link}
    (hpending : pending.IsExpression) (ht : t.IsExpression)
    (hlinks : ∀ link ∈ links, link.IsExpression) : (fold pending t links).IsExpression := by
  induction links generalizing pending t with
  | nil => exact (reduce_isExpression 0 false hpending ht).2
  | cons link links ih =>
    obtain ⟨hlink, hrest⟩ := List.forall_mem_cons.1 hlinks
    cases link with
    | operator op n r =>
      have hreduced := reduce_isExpression n (op == "**") hpending ht
      exact ih (List.forall_mem_cons.2 ⟨hreduced.2, hreduced.1⟩) hlink hrest
    | cast l ts stop =>
      obtain ⟨hl, hts⟩ := hlink
      have hreduced := reduce_isExpression 8 false hpending ht
      refine ih hreduced.1 ?_ hrest
      rw [Tree.isExpression_iff hl]
      exact List.forall_mem_cons.2 ⟨hreduced.2, hts⟩

end Chain

namespace Parser

@[simp]
lemma isPlain_memberLabel (object : Tree) (inChain : Bool) :
    (memberLabel object inChain).isPlain = true := by
  unfold memberLabel
  split
  · rfl
  · split <;> rfl

@[simp]
lemma isPlain_callLabel (inChain : Bool) : (callLabel inChain).isPlain = true := by
  unfold callLabel
  split <;> rfl

@[simp]
lemma isPlain_castLabel (isAs : Bool) : (castLabel isAs).isPlain = true := by
  unfold castLabel
  split <;> rfl

attribute [local simp] Label.isImport Label.mayDeclare Label.isDeclaration Label.holdsStatements
  Label.opensOutside Label.opensTo Label.nestsAt Label.hasBodyAt

-- `rules.Sound`, written out so that it is used as the triples of the rules
variable {rules : Rules} (h : ∀ goal, ⦃⌜True⌝⦄ rules goal ⦃⇓? t => ⌜goal.Reads t⌝⦄)
include h

/-! ### Arrow functions -/

@[spec]
theorem arrowRest_spec (start : Nat) (isAsync : Bool) {params : List Tree}
    (hparams : ∀ p ∈ params, p.IsExpression) {typeParams result : Tree}
    (htypes : typeParams.IsExpression) (hresult : result.IsExpression) :
    ⦃⌜True⌝⦄ arrowRest rules start isAsync params typeParams result ⦃⇓? t => ⌜t.IsExpression⌝⦄ := by
  unfold arrowRest
  mvcgen [h] with (clear h; simp_all)

@[spec]
theorem parenItem_spec :
    ⦃⌜True⌝⦄ parenItem rules ⦃⇓? r => ⌜r.1.IsExpression⌝⦄ := by
  unfold parenItem
  mvcgen [h] with (clear h; simp_all)
  case vc2.hp hp => exact Tree.IsExpression.toBinding ‹_› ‹_›

@[spec]
theorem parenItems_spec :
    ⦃⌜True⌝⦄ parenItems rules ⦃⇓? r => ⌜∀ t ∈ r.1, t.IsExpression⌝⦄ := by
  unfold parenItems
  have hitems := @iterate_spec _ fun (r : List Tree × Bool) => ∀ t ∈ r.1, t.IsExpression
  mvcgen [h, hitems] with (clear h hitems; simp_all)

omit h in
@[spec]
theorem asParameters_spec {items : List Tree} (hitems : ∀ t ∈ items, t.IsExpression) :
    ⦃⌜True⌝⦄ asParameters items ⦃⇓? ts => ⌜∀ t ∈ ts, t.IsExpression⌝⦄ := by
  unfold asParameters
  mvcgen
  case vc1 ps hps _ _ =>
    intro p hp
    obtain ⟨t, ht, htp⟩ := Tree.exists_of_mem_mapM hps hp
    exact (hitems t ht).toParameter htp

@[spec]
theorem arrowAfter_spec (start : Nat) (isAsync : Bool) {items : List Tree}
    (hitems : ∀ t ∈ items, t.IsExpression) {typeParams : Tree} (htypes : typeParams.IsExpression) :
    ⦃⌜True⌝⦄ arrowAfter rules start isAsync items typeParams
    ⦃⇓? o => ⌜∀ t ∈ o, t.IsExpression⌝⦄ := by
  unfold arrowAfter
  mvcgen [h] with (clear h; simp_all)

omit h in
@[spec]
theorem parenthesized_spec (start : Nat) {items : List Tree}
    (hitems : ∀ t ∈ items, t.IsExpression) :
    ⦃⌜True⌝⦄ parenthesized start items ⦃⇓? t => ⌜t.IsExpression⌝⦄ := by
  unfold parenthesized
  mvcgen
  all_goals simp_all

@[spec]
theorem parenOrArrow_spec (mayBeArrow : Bool) :
    ⦃⌜True⌝⦄ parenOrArrow rules mayBeArrow ⦃⇓? t => ⌜t.IsExpression⌝⦄ := by
  unfold parenOrArrow
  mvcgen [h] with (clear h; simp_all)

@[spec]
theorem genericArrow_spec (start : Nat) (isAsync : Bool) :
    ⦃⌜True⌝⦄ genericArrow rules start isAsync ⦃⇓? t => ⌜t.IsExpression⌝⦄ := by
  unfold genericArrow
  mvcgen [h] with (clear h; simp_all)

@[spec]
theorem asyncPhrase_spec (mayBeArrow : Bool) :
    ⦃⌜True⌝⦄ asyncPhrase rules mayBeArrow ⦃⇓? t => ⌜t.IsExpression⌝⦄ := by
  unfold asyncPhrase
  mvcgen [h] with (clear h; simp_all)

/-! ### Primary expressions -/

@[spec]
theorem objectProperty_spec :
    ⦃⌜True⌝⦄ objectProperty rules ⦃⇓? t => ⌜t.IsExpression⌝⦄ := by
  unfold objectProperty
  mvcgen [h] with (clear h; simp_all)

@[spec]
theorem arrayElement_spec :
    ⦃⌜True⌝⦄ arrayElement rules ⦃⇓? t => ⌜t.IsExpression⌝⦄ := by
  unfold arrayElement
  mvcgen [h] with (clear h; simp_all)

omit h in
@[spec]
theorem regexLiteral_spec :
    ⦃⌜True⌝⦄ regexLiteral ⦃⇓? t => ⌜t.IsExpression⌝⦄ := by
  unfold regexLiteral
  mvcgen
  all_goals simp_all

@[spec]
theorem template_spec :
    ⦃⌜True⌝⦄ template rules ⦃⇓? t => ⌜t.IsExpression⌝⦄ := by
  unfold template
  mvcgen [h] with (clear h; simp_all)

@[spec]
theorem newPhrase_spec :
    ⦃⌜True⌝⦄ newPhrase rules ⦃⇓? t => ⌜t.IsExpression⌝⦄ := by
  unfold newPhrase
  mvcgen [h] with (clear h; simp_all)

omit h in
@[spec]
theorem importPhrase_spec :
    ⦃⌜True⌝⦄ importPhrase ⦃⇓? t => ⌜t.IsExpression⌝⦄ := by
  unfold importPhrase
  mvcgen
  all_goals simp_all

omit h in
@[spec]
theorem leaf_spec {l : Label} (hl : l.isPlain = true) :
    ⦃⌜True⌝⦄ leaf l ⦃⇓? t => ⌜t.IsExpression⌝⦄ := by
  unfold leaf
  mvcgen
  all_goals simp_all

@[spec]
theorem primary_spec :
    ⦃⌜True⌝⦄ primary rules ⦃⇓? t => ⌜t.IsExpression⌝⦄ := by
  unfold primary
  mvcgen [h] with (clear h; simp_all)

/-! ### Members and calls -/

omit h in
@[spec]
theorem memberName_spec :
    ⦃⌜True⌝⦄ memberName ⦃⇓? t => ⌜t.IsExpression⌝⦄ := by
  unfold memberName
  mvcgen
  all_goals simp_all

@[spec]
theorem computedName_spec :
    ⦃⌜True⌝⦄ computedName rules ⦃⇓? t => ⌜t.IsExpression⌝⦄ := by
  unfold computedName
  mvcgen [h] with (clear h; simp_all)

@[spec]
theorem typedSubscript_spec (start : Nat) (mayCall inChain : Bool) {e : Tree}
    (he : e.IsExpression) :
    ⦃⌜True⌝⦄ typedSubscript rules start mayCall inChain e ⦃⇓? o => ⌜∀ t ∈ o, t.IsExpression⌝⦄ := by
  unfold typedSubscript
  mvcgen [h] with (clear h; simp_all)

@[spec]
theorem subscripts_spec (start : Nat) (mayCall : Bool) {e : Tree} (he : e.IsExpression) :
    ⦃⌜True⌝⦄ subscripts rules start mayCall e ⦃⇓? t => ⌜t.IsExpression⌝⦄ := by
  unfold subscripts
  have hrounds := @iterate_spec _ fun (r : Tree × Bool) => r.1.IsExpression
  mvcgen [h, hrounds] with (clear h hrounds; simp_all)

@[spec]
theorem leftHand_spec (mayCall : Bool) :
    ⦃⌜True⌝⦄ leftHand rules mayCall ⦃⇓? t => ⌜t.IsExpression⌝⦄ := by
  unfold leftHand
  mvcgen [h] with (clear h; simp_all)

/-! ### Operators -/

@[spec]
theorem postfixed_spec (start : Nat) :
    ⦃⌜True⌝⦄ postfixed rules start ⦃⇓? t => ⌜t.IsExpression⌝⦄ := by
  unfold postfixed
  mvcgen [h] with (clear h; simp_all)

@[spec]
theorem unary_spec :
    ⦃⌜True⌝⦄ unary rules ⦃⇓? t => ⌜t.IsExpression⌝⦄ := by
  unfold unary
  mvcgen [h] with (clear h; simp_all)

@[spec]
theorem link_spec :
    ⦃⌜True⌝⦄ link rules ⦃⇓? o => ⌜∀ l ∈ o, l.IsExpression⌝⦄ := by
  unfold link
  mvcgen [h] with (clear h; simp_all [Link.IsExpression])

@[spec]
theorem binary_spec :
    ⦃⌜True⌝⦄ binary rules ⦃⇓? t => ⌜t.IsExpression⌝⦄ := by
  unfold binary
  have hlinks := @many_spec _ Link.IsExpression
  mvcgen [h, hlinks] with (clear h hlinks; simp_all)
  exact Chain.fold_isExpression nofun ‹_› ‹_›

@[spec]
theorem conditional_spec :
    ⦃⌜True⌝⦄ conditional rules ⦃⇓? t => ⌜t.IsExpression⌝⦄ := by
  unfold conditional
  mvcgen [h] with (clear h; simp_all)

omit h in
@[spec]
theorem assignmentTarget_spec (op : String) {target : Tree} (ht : target.IsExpression) :
    ⦃⌜True⌝⦄ assignmentTarget op target ⦃⇓? t => ⌜t.IsExpression⌝⦄ := by
  unfold assignmentTarget
  mvcgen with simp_all
  exact ht.toTarget ‹_›

@[spec]
theorem yieldPhrase_spec :
    ⦃⌜True⌝⦄ yieldPhrase rules ⦃⇓? t => ⌜t.IsExpression⌝⦄ := by
  unfold yieldPhrase
  mvcgen [h] with (clear h; simp_all)

@[spec]
theorem assignment_spec :
    ⦃⌜True⌝⦄ assignment rules ⦃⇓? t => ⌜t.IsExpression⌝⦄ := by
  unfold assignment
  mvcgen [h] with (clear h; simp_all)

@[spec]
theorem expression_spec :
    ⦃⌜True⌝⦄ expression rules ⦃⇓? t => ⌜t.IsExpression⌝⦄ := by
  unfold expression
  mvcgen [h] with (clear h; simp_all)

end Parser

end ContextHoist
