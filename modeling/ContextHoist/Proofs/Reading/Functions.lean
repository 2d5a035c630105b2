/-
What is read as an element, a function or a class.

An element, a function literal and a class declare nothing by themselves.  The body of a function
and the blocks of a class may hold declarations as a block does.
-/
import ContextHoist.Parse.Functions
import ContextHoist.Proofs.Reading.Types

set_option mvcgen.warning false

namespace ContextHoist

open Std.Do

namespace Parser

attribute [local simp] Label.isImport Label.mayDeclare Label.isDeclaration Label.holdsStatements
  Label.opensOutside Label.opensTo Label.nestsAt Label.hasBodyAt

-- `rules.Sound`, written out so that it is used as the triples of the rules
variable {rules : Rules} (h : ∀ goal, ⦃⌜True⌝⦄ rules goal ⦃⇓? t => ⌜goal.Reads t⌝⦄)
include h

/-! ### Elements -/

omit h in
@[spec]
theorem elementName_spec : ⦃⌜True⌝⦄ elementName ⦃⇓? t => ⌜t.IsExpression⌝⦄ := by
  unfold elementName
  mvcgen
  all_goals simp_all

omit h in
@[spec]
theorem attributeString_spec : ⦃⌜True⌝⦄ attributeString ⦃⇓? t => ⌜t.IsExpression⌝⦄ := by
  unfold attributeString
  mvcgen
  all_goals simp_all

@[spec]
theorem container_spec (leave : Parser Unit) :
    ⦃⌜True⌝⦄ container rules leave ⦃⇓? t => ⌜t.IsExpression⌝⦄ := by
  unfold container
  mvcgen [h] with (clear h; simp_all)

@[spec]
theorem tagAttribute_spec : ⦃⌜True⌝⦄ tagAttribute rules ⦃⇓? t => ⌜t.IsExpression⌝⦄ := by
  unfold tagAttribute
  mvcgen [h] with (clear h; simp_all)

@[spec]
theorem children_spec :
    ⦃⌜True⌝⦄ children rules ⦃⇓? r => ⌜(∀ t ∈ r.1, t.IsExpression) ∧ r.2.1.IsExpression⌝⦄ := by
  unfold children
  mvcgen [h] with (clear h; simp_all)

@[spec]
theorem element_spec : ⦃⌜True⌝⦄ element rules ⦃⇓? t => ⌜t.IsExpression⌝⦄ := by
  unfold element
  mvcgen [h] with (clear h; simp_all +zetaDelta)

/-! ### Functions -/

@[spec]
theorem argument_spec : ⦃⌜True⌝⦄ argument rules ⦃⇓? t => ⌜t.IsExpression⌝⦄ := by
  unfold argument
  mvcgen [h] with (clear h; simp_all)

@[spec]
theorem arguments_spec : ⦃⌜True⌝⦄ arguments rules ⦃⇓? t => ⌜t.IsExpression⌝⦄ := by
  unfold arguments
  mvcgen [h] with (clear h; simp_all)

@[spec]
theorem decorator_spec : ⦃⌜True⌝⦄ decorator rules ⦃⇓? t => ⌜t.IsExpression⌝⦄ := by
  unfold decorator
  mvcgen [h] with (clear h; simp_all)

@[spec]
theorem decorators_spec :
    ⦃⌜True⌝⦄ decorators rules ⦃⇓? ts => ⌜∀ t ∈ ts, t.IsExpression⌝⦄ := by
  unfold decorators
  mvcgen [h] with (clear h; simp_all)

@[spec]
theorem parameterPattern_spec : ⦃⌜True⌝⦄ parameterPattern rules ⦃⇓? t => ⌜t.IsExpression⌝⦄ := by
  unfold parameterPattern
  mvcgen [h] with (clear h; simp_all)

@[spec]
theorem parameter_spec : ⦃⌜True⌝⦄ parameter rules ⦃⇓? t => ⌜t.IsExpression⌝⦄ := by
  unfold parameter
  mvcgen [h] with (clear h; simp_all)

@[spec]
theorem parameters_spec : ⦃⌜True⌝⦄ parameters rules ⦃⇓? t => ⌜t.IsExpression⌝⦄ := by
  unfold parameters
  mvcgen [h] with (clear h; simp_all)

@[spec]
theorem functionBlock_spec (isGenerator : Bool) :
    ⦃⌜True⌝⦄ functionBlock rules isGenerator ⦃⇓? t => ⌜t.IsStatement⌝⦄ := by
  unfold functionBlock
  mvcgen [h]

@[spec]
theorem functionBody_spec (isGenerator : Bool) :
    ⦃⌜True⌝⦄ functionBody rules isGenerator ⦃⇓? t => ⌜t.IsStatement⌝⦄ := by
  unfold functionBody
  mvcgen [h] with (clear h; simp_all)

/-- Of the parts of a function only the body may hold declarations. -/
@[spec]
theorem functionRest_spec (start : Nat) (isAsync isGenerator : Bool) {ds : List Tree}
    (hds : ∀ d ∈ ds, d.IsExpression) :
    ⦃⌜True⌝⦄ functionRest rules start isAsync isGenerator ds ⦃⇓? t => ⌜t.IsExpression⌝⦄ := by
  unfold functionRest
  mvcgen [h] with (clear h; simp_all)

/-- Of the parts of a function only the body may hold declarations. -/
@[spec]
theorem functionExpr_spec (start : Nat) (isAsync : Bool) :
    ⦃⌜True⌝⦄ functionExpr rules start isAsync ⦃⇓? t => ⌜t.IsExpression⌝⦄ := by
  unfold functionExpr
  mvcgen [h] with (clear h; simp_all)

/-! ### Classes -/

@[spec]
theorem constructorRest_spec (start : Nat) (m : Modifiers) {k : Tree} (hk : k.IsExpression) :
    ⦃⌜True⌝⦄ constructorRest rules start m k ⦃⇓? t => ⌜t.IsRegular⌝⦄ := by
  unfold constructorRest
  mvcgen [h] with (clear h; simp_all)

@[spec]
theorem fieldRest_spec (start : Nat) (m : Modifiers) {k : Tree} (hk : k.IsExpression)
    {ds : List Tree} (hds : ∀ d ∈ ds, d.IsExpression) :
    ⦃⌜True⌝⦄ fieldRest rules start m k ds ⦃⇓? t => ⌜t.IsRegular⌝⦄ := by
  unfold fieldRest
  mvcgen [h] with (clear h; simp_all)

@[spec]
theorem classMember_spec :
    ⦃⌜True⌝⦄ classMember rules ⦃⇓? t => ⌜t.IsRegular⌝⦄ := by
  unfold classMember
  mvcgen [h] with (clear h; simp_all)

@[spec]
theorem heritage_spec :
    ⦃⌜True⌝⦄ heritage rules ⦃⇓? t => ⌜t.IsExpression⌝⦄ := by
  unfold heritage
  mvcgen [h] with (clear h; simp_all)

omit h in
@[spec]
theorem className_spec : ⦃⌜True⌝⦄ className ⦃⇓? t => ⌜t.IsExpression⌝⦄ := by
  unfold className
  mvcgen
  all_goals simp_all

@[spec]
theorem superclass_spec :
    ⦃⌜True⌝⦄ superclass rules ⦃⇓? r => ⌜r.1.IsExpression ∧ r.2.IsExpression⌝⦄ := by
  unfold superclass
  mvcgen [h] with (clear h; simp_all)

@[spec]
theorem implemented_spec : ⦃⌜True⌝⦄ implemented rules ⦃⇓? ts => ⌜∀ t ∈ ts, t.IsExpression⌝⦄ := by
  unfold implemented
  mvcgen [h] with (clear h; simp_all)

@[spec]
theorem classRest_spec (start : Nat) (isAbstract : Bool) {ds : List Tree}
    (hds : ∀ d ∈ ds, d.IsExpression) :
    ⦃⌜True⌝⦄ classRest rules start isAbstract ds
    ⦃⇓? r => ⌜r.1.IsExpression ∧ r.2.IsExpression⌝⦄ := by
  unfold classRest
  have hmembers := @many_spec _ Tree.IsRegular
  mvcgen [h, hmembers] with (clear h hmembers; simp_all)

@[spec]
theorem classExpr_spec :
    ⦃⌜True⌝⦄ classExpr rules ⦃⇓? t => ⌜t.IsExpression⌝⦄ := by
  unfold classExpr
  mvcgen [h] with (clear h; simp_all)

end Parser

end ContextHoist
