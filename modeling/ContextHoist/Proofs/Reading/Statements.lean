/-
What is read as a statement or as an item of a module.

* `Parser.statement_spec`, `Parser.block_spec`: statements have declarations only where statements
  have them.
* `Parser.moduleItem_spec`: in an item, this is so in the bodies of functions.
-/
import ContextHoist.Parse.Statements
import ContextHoist.Proofs.Reading.Expressions

set_option mvcgen.warning false

namespace ContextHoist

open Std.Do

namespace Tree

/-- What was read as a statement is one also as the target of a loop. -/
lemma IsStatement.toLoopTarget {t p : Tree} (h : t.IsStatement) (hp : t.toLoopTarget = some p) :
    p.IsStatement := by
  unfold Tree.toLoopTarget at hp
  split at hp
  · next hcollection =>
    have hmay : t.label.mayDeclare = false := by
      rw [isCollection, Bool.or_eq_true, beq_iff_eq, beq_iff_eq] at hcollection
      rcases hcollection with hl | hl <;> rw [hl] <;> rfl
    exact (IsExpression.toPattern ⟨h, hmay⟩ hp).isStatement
  · obtain rfl : t = p := by simpa using hp
    exact h

end Tree

namespace Parser

attribute [local simp] Label.isImport Label.mayDeclare Label.isDeclaration Label.holdsStatements
  Label.opensOutside Label.opensTo Label.nestsAt Label.hasBodyAt

-- `rules.Sound`, written out so that it is used as the triples of the rules
variable {rules : Rules} (h : ∀ goal, ⦃⌜True⌝⦄ rules goal ⦃⇓? t => ⌜goal.Reads t⌝⦄)
include h

/-! ### Variables -/

@[spec]
theorem declarator_spec :
    ⦃⌜True⌝⦄ declarator rules ⦃⇓? t => ⌜t.IsStatement⌝⦄ := by
  unfold declarator
  mvcgen [h] with (clear h; simp_all)

@[spec]
theorem declarators_spec (kind : VarKind) (start : Nat) (isDeclare inLoop : Bool) :
    ⦃⌜True⌝⦄ declarators rules kind start isDeclare inLoop ⦃⇓? t => ⌜t.IsStatement⌝⦄ := by
  unfold declarators
  have hdeclarators := @separated_spec _ Tree.IsStatement
  mvcgen [h, hdeclarators] with (clear h hdeclarators; simp_all)
  exact Tree.fitFrom_statements (fun _ => rfl) ‹_›

omit h in
@[spec]
theorem extended_spec {t : Tree} (ht : t.IsStatement) :
    ⦃⌜True⌝⦄ extended t ⦃⇓? u => ⌜u.IsStatement⌝⦄ := by
  unfold extended
  -- the sort of a phrase does not depend on its span
  cases t with
  | node l s ts =>
    mvcgen
    all_goals simp_all

@[spec]
theorem variableStatement_spec (kind : VarKind) (start : Nat) (isDeclare : Bool) :
    ⦃⌜True⌝⦄ variableStatement rules kind start isDeclare ⦃⇓? t => ⌜t.IsStatement⌝⦄ := by
  unfold variableStatement
  mvcgen [h] with (clear h; simp_all)

/-! ### Functions and classes -/

@[spec]
theorem functionDeclaration_spec (start : Nat) (isAsync isDeclare : Bool) :
    ⦃⌜True⌝⦄ functionDeclaration rules start isAsync isDeclare ⦃⇓? t => ⌜t.IsStatement⌝⦄ := by
  unfold functionDeclaration
  mvcgen [h] with (clear h; simp_all)

@[spec]
theorem classDeclaration_spec (start : Nat) (isAbstract isDeclare : Bool) {ds : List Tree}
    (hds : ∀ d ∈ ds, d.IsExpression) :
    ⦃⌜True⌝⦄ classDeclaration rules start isAbstract isDeclare ds ⦃⇓? t => ⌜t.IsStatement⌝⦄ := by
  unfold classDeclaration
  mvcgen [h] with (clear h; simp_all)

/-! ### Declarations of types -/

@[spec]
theorem interfaceRest_spec (start : Nat) (isDeclare : Bool) :
    ⦃⌜True⌝⦄ interfaceRest rules start isDeclare ⦃⇓? t => ⌜t.IsExpression⌝⦄ := by
  unfold interfaceRest
  mvcgen [h] with (clear h; simp_all)

@[spec]
theorem aliasRest_spec (start : Nat) (isDeclare : Bool) :
    ⦃⌜True⌝⦄ aliasRest rules start isDeclare ⦃⇓? t => ⌜t.IsExpression⌝⦄ := by
  unfold aliasRest
  mvcgen [h] with (clear h; simp_all)

@[spec]
theorem enumMember_spec :
    ⦃⌜True⌝⦄ enumMember rules ⦃⇓? t => ⌜t.IsExpression⌝⦄ := by
  unfold enumMember
  mvcgen [h] with (clear h; simp_all)

@[spec]
theorem enumRest_spec (start : Nat) (isDeclare isConst : Bool) :
    ⦃⌜True⌝⦄ enumRest rules start isDeclare isConst ⦃⇓? t => ⌜t.IsExpression⌝⦄ := by
  unfold enumRest
  mvcgen [h] with (clear h; simp_all)

@[spec]
theorem moduleBlock_spec :
    ⦃⌜True⌝⦄ moduleBlock rules ⦃⇓? t => ⌜t.IsExpression⌝⦄ := by
  unfold moduleBlock
  have hitems := @many_spec _ Tree.IsRegular
  mvcgen [h, hitems] with (clear h hitems; simp_all)

@[spec]
theorem namespaceRest_spec (start : Nat) (isDeclare : Bool) (keyword : String) :
    ⦃⌜True⌝⦄ namespaceRest rules start isDeclare keyword ⦃⇓? t => ⌜t.IsExpression⌝⦄ := by
  unfold namespaceRest
  have hnames := @many_spec _ fun (r : Nat × Tree) => r.2.IsExpression
  have hnested := @foldrM_spec Tree Tree.IsExpression (Nat × Tree)
  mvcgen [h, hnames, hnested] with (clear h hnames hnested; simp_all [-Prod.forall])

@[spec]
theorem typeDeclaration_spec (start : Nat) (isDeclare : Bool) :
    ⦃⌜True⌝⦄ typeDeclaration rules start isDeclare ⦃⇓? o => ⌜∀ t ∈ o, t.IsStatement⌝⦄ := by
  unfold typeDeclaration
  mvcgen [h] with (clear h; simp_all)

@[spec]
theorem declaration_spec (start : Nat) (isDeclare : Bool) :
    ⦃⌜True⌝⦄ declaration rules start isDeclare ⦃⇓? o => ⌜∀ t ∈ o, t.IsStatement⌝⦄ := by
  unfold declaration
  mvcgen [h] with (clear h; simp_all)

@[spec]
theorem ambientDeclaration_spec :
    ⦃⌜True⌝⦄ ambientDeclaration rules ⦃⇓? o => ⌜∀ t ∈ o, t.IsStatement⌝⦄ := by
  unfold ambientDeclaration
  mvcgen [h] with (clear h; simp_all)

/-! ### Statements -/

@[spec]
theorem parenHead_spec :
    ⦃⌜True⌝⦄ parenHead rules ⦃⇓? t => ⌜t.IsExpression⌝⦄ := by
  unfold parenHead
  mvcgen [h]

@[spec]
theorem block_spec :
    ⦃⌜True⌝⦄ block rules ⦃⇓? t => ⌜t.IsStatement⌝⦄ := by
  unfold block
  have hstatements := @many_spec _ Tree.IsStatement
  mvcgen [h, hstatements] with (clear h hstatements; simp_all)
  exact Tree.fitFrom_statements (fun _ => rfl) ‹_›

@[spec]
theorem loopOver_spec (start : Nat) (isAwait : Bool) {head : Tree} (hhead : head.IsStatement) :
    ⦃⌜True⌝⦄ loopOver rules start isAwait head ⦃⇓? o => ⌜∀ t ∈ o, t.IsStatement⌝⦄ := by
  unfold loopOver
  mvcgen [h] with (clear h; simp_all)

@[spec]
theorem loopClauses_spec (start : Nat) {init : Tree} (hinit : init.IsStatement) :
    ⦃⌜True⌝⦄ loopClauses rules start init ⦃⇓? t => ⌜t.IsStatement⌝⦄ := by
  unfold loopClauses
  mvcgen [h] with (clear h; simp_all)

omit h in
@[spec]
theorem loopTarget_spec {head : Tree} (hhead : head.IsStatement) :
    ⦃⌜True⌝⦄ loopTarget head ⦃⇓? t => ⌜t.IsStatement⌝⦄ := by
  unfold loopTarget
  mvcgen
  all_goals simp_all
  exact hhead.toLoopTarget ‹_›

@[spec]
theorem forStatement_spec :
    ⦃⌜True⌝⦄ forStatement rules ⦃⇓? t => ⌜t.IsStatement⌝⦄ := by
  unfold forStatement
  mvcgen [h] with (clear h; simp_all)

@[spec]
theorem caseClause_spec :
    ⦃⌜True⌝⦄ caseClause rules ⦃⇓? t => ⌜t.IsStatement⌝⦄ := by
  unfold caseClause
  have hstatements := @many_spec _ Tree.IsStatement
  mvcgen [h, hstatements] with (clear h hstatements; simp_all)
  -- behind the expression that is compared all parts are statements
  all_goals exact Tree.fitFrom_statements (fun i => by simp) ‹_›

@[spec]
theorem tryStatement_spec :
    ⦃⌜True⌝⦄ tryStatement rules ⦃⇓? t => ⌜t.IsStatement⌝⦄ := by
  unfold tryStatement
  mvcgen [h] with (clear h; simp_all)

omit h in
@[spec]
theorem jump_spec (w : String) {l : Label} (hl : l.isPlain = true) :
    ⦃⌜True⌝⦄ jump w l ⦃⇓? t => ⌜t.IsExpression⌝⦄ := by
  unfold jump
  mvcgen
  all_goals simp_all

@[spec]
theorem expressionStatement_spec :
    ⦃⌜True⌝⦄ expressionStatement rules ⦃⇓? t => ⌜t.IsStatement⌝⦄ := by
  unfold expressionStatement
  mvcgen [h] with (clear h; simp_all)

@[spec]
theorem keywordStatement_spec (w : String) :
    ⦃⌜True⌝⦄ keywordStatement rules w ⦃⇓? t => ⌜t.IsStatement⌝⦄ := by
  unfold keywordStatement
  have hclauses := @many_spec _ Tree.IsStatement
  mvcgen [h, hclauses] with (clear h hclauses; simp_all)
  exact Tree.fitFrom_statements (fun i => by simp) ‹_›

@[spec]
theorem statement_spec :
    ⦃⌜True⌝⦄ statement rules ⦃⇓? t => ⌜t.IsStatement⌝⦄ := by
  unfold statement
  mvcgen [h] with (clear h; simp_all)

/-! ### Module items -/

omit h in
@[spec]
theorem foreignName_spec :
    ⦃⌜True⌝⦄ foreignName ⦃⇓? t => ⌜t.IsExpression⌝⦄ := by
  unfold foreignName
  mvcgen

@[spec]
theorem importAttributes_spec :
    ⦃⌜True⌝⦄ importAttributes rules ⦃⇓? t => ⌜t.IsExpression⌝⦄ := by
  unfold importAttributes
  mvcgen [h] with (clear h; simp_all)

omit h in
@[spec]
theorem importSpecifier_spec :
    ⦃⌜True⌝⦄ importSpecifier ⦃⇓? t => ⌜t.IsRegular⌝⦄ := by
  unfold importSpecifier
  mvcgen
  all_goals simp_all

omit h in
@[spec]
theorem namespaceSpecifier_spec {l : Label} (hl : ∀ i, l.hasBodyAt i = false) {name : Parser Tree}
    (hname : ⦃⌜True⌝⦄ name ⦃⇓? t => ⌜t.IsExpression⌝⦄) :
    ⦃⌜True⌝⦄ namespaceSpecifier l name ⦃⇓? t => ⌜t.IsRegular⌝⦄ := by
  unfold namespaceSpecifier
  mvcgen [hname]
  all_goals simp_all

omit h in
@[spec]
theorem laterSpecifiers_spec :
    ⦃⌜True⌝⦄ laterSpecifiers ⦃⇓? ts => ⌜∀ t ∈ ts, t.IsRegular⌝⦄ := by
  unfold laterSpecifiers
  have hspecifiers := @commaList_spec _ Tree.IsRegular
  mvcgen [hspecifiers] with (clear hspecifiers; simp_all)

omit h in
@[spec]
theorem importSpecifiers_spec :
    ⦃⌜True⌝⦄ importSpecifiers ⦃⇓? ts => ⌜∀ t ∈ ts, t.IsRegular⌝⦄ := by
  unfold importSpecifiers
  mvcgen
  all_goals simp_all

omit h in
@[spec]
theorem importEqualsRest_spec (start : Nat) (isExport isType : Bool) :
    ⦃⌜True⌝⦄ importEqualsRest start isExport isType ⦃⇓? t => ⌜t.IsRegular⌝⦄ := by
  unfold importEqualsRest
  mvcgen
  all_goals simp_all

@[spec]
theorem importDeclaration_spec :
    ⦃⌜True⌝⦄ importDeclaration rules ⦃⇓? t => ⌜t.IsRegular⌝⦄ := by
  unfold importDeclaration
  mvcgen [h] with (clear h; simp_all)

omit h in
@[spec]
theorem exportSpecifier_spec :
    ⦃⌜True⌝⦄ exportSpecifier ⦃⇓? t => ⌜t.IsRegular⌝⦄ := by
  unfold exportSpecifier
  mvcgen
  all_goals simp_all

@[spec]
theorem exportSource_spec :
    ⦃⌜True⌝⦄ exportSource rules ⦃⇓? r => ⌜r.1.IsExpression ∧ r.2.IsExpression⌝⦄ := by
  unfold exportSource
  mvcgen [h]

@[spec]
theorem exportNames_spec (start : Nat) (text : List Char) (isType : Bool) {before : List Tree}
    (hbefore : ∀ t ∈ before, t.IsRegular) :
    ⦃⌜True⌝⦄ exportNames rules start text isType before ⦃⇓? t => ⌜t.IsRegular⌝⦄ := by
  unfold exportNames
  have hspecifiers := @commaList_spec _ Tree.IsRegular
  mvcgen [h, hspecifiers] with (clear h hspecifiers; simp_all [or_imp])

@[spec]
theorem exportDefault_spec (start : Nat) {ds : List Tree} (hds : ∀ d ∈ ds, d.IsExpression) :
    ⦃⌜True⌝⦄ exportDefault rules start ds ⦃⇓? t => ⌜t.IsRegular⌝⦄ := by
  unfold exportDefault
  mvcgen [h] with (clear h; simp_all +zetaDelta [or_imp])

@[spec]
theorem exportStar_spec (start : Nat) (text : List Char) (isType : Bool) {before : List Tree}
    (hbefore : ∀ t ∈ before, t.IsRegular) :
    ⦃⌜True⌝⦄ exportStar rules start text isType before ⦃⇓? t => ⌜t.IsRegular⌝⦄ := by
  unfold exportStar
  mvcgen [h] with (clear h; simp_all [or_imp])

@[spec]
theorem exportDeclaration_spec (outer : Nat) {ds : List Tree} (hds : ∀ d ∈ ds, d.IsExpression) :
    ⦃⌜True⌝⦄ exportDeclaration rules outer ds ⦃⇓? t => ⌜t.IsRegular⌝⦄ := by
  unfold exportDeclaration
  mvcgen [h] with (clear h; simp_all +zetaDelta [or_imp])

@[spec]
theorem moduleItem_spec :
    ⦃⌜True⌝⦄ moduleItem rules ⦃⇓? t => ⌜t.IsRegular⌝⦄ := by
  unfold moduleItem
  mvcgen [h] with (clear h; simp_all)

end Parser

end ContextHoist
