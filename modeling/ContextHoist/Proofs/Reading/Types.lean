/-
What is read as a pattern or as a type.

Neither declares anything outside of functions: the expressions in them, which are keys, default
values and types of templates, are expressions.
-/
import ContextHoist.Parse.Types
import ContextHoist.Proofs.Reading.Moves

set_option mvcgen.warning false

namespace ContextHoist

open Std.Do

/-- A key is an expression also as a name. -/
@[simp]
lemma Tree.IsExpression.keyToName {t : Tree} (h : t.IsExpression) : t.keyToName.IsExpression := by
  unfold Tree.keyToName
  split
  · simp
  · exact h

namespace Parser

-- `rules.Sound`, written out so that it is used as the triples of the rules
variable {rules : Rules} (h : ∀ goal, ⦃⌜True⌝⦄ rules goal ⦃⇓? t => ⌜goal.Reads t⌝⦄)
include h

/-! ### Patterns -/

@[spec]
theorem propertyKey_spec : ⦃⌜True⌝⦄ propertyKey rules ⦃⇓? t => ⌜t.IsExpression⌝⦄ := by
  unfold propertyKey
  -- what is left to show is about the trees that were read, and the rules are of no use for it
  mvcgen [h] with (clear h; simp_all)

@[spec]
theorem typeMark_spec : ⦃⌜True⌝⦄ typeMark rules ⦃⇓? t => ⌜t.IsExpression⌝⦄ := by
  unfold typeMark
  mvcgen [h] with (clear h; simp_all)

@[spec]
theorem withDefault_spec (start : Nat) {p : Tree} (hp : p.IsExpression) :
    ⦃⌜True⌝⦄ withDefault rules start p ⦃⇓? t => ⌜t.IsExpression⌝⦄ := by
  unfold withDefault
  mvcgen [h] with (clear h; simp_all)

@[spec]
theorem withType_spec (start : Nat) (isOptional : Bool) {p : Tree} (hp : p.IsExpression) :
    ⦃⌜True⌝⦄ withType rules start isOptional p ⦃⇓? t => ⌜t.IsExpression⌝⦄ := by
  unfold withType
  mvcgen [h] with (clear h; simp_all)

@[spec]
theorem patternProperty_spec : ⦃⌜True⌝⦄ patternProperty rules ⦃⇓? t => ⌜t.IsExpression⌝⦄ := by
  unfold patternProperty
  mvcgen [h] with (clear h; simp_all)

@[spec]
theorem patternElement_spec : ⦃⌜True⌝⦄ patternElement rules ⦃⇓? t => ⌜t.IsExpression⌝⦄ := by
  unfold patternElement
  mvcgen [h] with (clear h; simp_all)

@[spec]
theorem bindingPattern_spec : ⦃⌜True⌝⦄ bindingPattern rules ⦃⇓? t => ⌜t.IsExpression⌝⦄ := by
  unfold bindingPattern
  mvcgen [h] with (clear h; simp_all)

/-! ### Parameters and arguments of types -/

@[spec]
theorem typeParameter_spec :
    ⦃⌜True⌝⦄ typeParameter rules ⦃⇓? t => ⌜t.IsExpression⌝⦄ := by
  unfold typeParameter
  mvcgen [h] with (clear h; simp_all)

@[spec]
theorem typeParameters_spec :
    ⦃⌜True⌝⦄ typeParameters rules ⦃⇓? t => ⌜t.IsExpression⌝⦄ := by
  unfold typeParameters
  mvcgen [h] with (clear h; simp_all)

@[spec]
theorem typeArguments_spec :
    ⦃⌜True⌝⦄ typeArguments rules ⦃⇓? t => ⌜t.IsExpression⌝⦄ := by
  unfold typeArguments
  mvcgen [h] with (clear h; simp_all)

@[spec]
theorem optionalTypeArguments_spec :
    ⦃⌜True⌝⦄ optionalTypeArguments rules ⦃⇓? t => ⌜t.IsExpression⌝⦄ := by
  unfold optionalTypeArguments
  mvcgen [h] with (clear h; simp_all)

omit h in
@[spec]
theorem nameOrThis_spec : ⦃⌜True⌝⦄ nameOrThis ⦃⇓? t => ⌜t.IsExpression⌝⦄ := by
  unfold nameOrThis
  mvcgen
  all_goals simp_all

@[spec]
theorem typeFunctionParameter_spec :
    ⦃⌜True⌝⦄ typeFunctionParameter rules ⦃⇓? t => ⌜t.IsExpression⌝⦄ := by
  unfold typeFunctionParameter
  mvcgen [h] with (clear h; simp_all)

@[spec]
theorem typeFunctionParameters_spec :
    ⦃⌜True⌝⦄ typeFunctionParameters rules ⦃⇓? t => ⌜t.IsExpression⌝⦄ := by
  unfold typeFunctionParameters
  mvcgen [h] with (clear h; simp_all)

@[spec]
theorem resultType_spec :
    ⦃⌜True⌝⦄ resultType rules ⦃⇓? t => ⌜t.IsExpression⌝⦄ := by
  unfold resultType
  mvcgen [h] with (clear h; simp_all)

@[spec]
theorem resultMark_spec :
    ⦃⌜True⌝⦄ resultMark rules ⦃⇓? t => ⌜t.IsExpression⌝⦄ := by
  unfold resultMark
  mvcgen [h] with (clear h; simp_all)

/-! ### Members of types -/

@[spec]
theorem signatureKey_spec :
    ⦃⌜True⌝⦄ signatureKey rules ⦃⇓? t => ⌜t.IsExpression⌝⦄ := by
  unfold signatureKey
  mvcgen [h] with (clear h; simp_all)

@[spec]
theorem indexSignature_spec (start : Nat) (isStatic isReadonly : Bool) :
    ⦃⌜True⌝⦄ indexSignature rules start isStatic isReadonly ⦃⇓? t => ⌜t.IsExpression⌝⦄ := by
  unfold indexSignature
  mvcgen [h] with (clear h; simp_all)

@[spec]
theorem signatureRest_spec (start : Nat) {l : Label} (hl : l.isPlain = true) :
    ⦃⌜True⌝⦄ signatureRest rules start l ⦃⇓? t => ⌜t.IsExpression⌝⦄ := by
  unfold signatureRest
  mvcgen [h] with (clear h; simp_all)

@[spec]
theorem typeMember_spec :
    ⦃⌜True⌝⦄ typeMember rules ⦃⇓? t => ⌜t.IsExpression⌝⦄ := by
  unfold typeMember
  mvcgen [h] with (clear h; simp_all)

@[spec]
theorem typeMembers_spec :
    ⦃⌜True⌝⦄ typeMembers rules ⦃⇓? t => ⌜∀ u ∈ t, u.IsExpression⌝⦄ := by
  unfold typeMembers
  mvcgen [h] with (clear h; simp_all)

@[spec]
theorem mappedType_spec :
    ⦃⌜True⌝⦄ mappedType rules ⦃⇓? t => ⌜t.IsExpression⌝⦄ := by
  unfold mappedType
  mvcgen [h] with (clear h; simp_all)

/-! ### Types -/

omit h in
@[spec]
theorem entityName_spec {first : Parser Tree}
    (hfirst : ⦃⌜True⌝⦄ first ⦃⇓? t => ⌜t.IsExpression⌝⦄) :
    ⦃⌜True⌝⦄ entityName first ⦃⇓? t => ⌜t.IsExpression⌝⦄ := by
  unfold entityName
  mvcgen [hfirst]
  all_goals simp_all

@[spec]
theorem typeReference_spec :
    ⦃⌜True⌝⦄ typeReference rules ⦃⇓? t => ⌜t.IsExpression⌝⦄ := by
  unfold typeReference
  mvcgen [h] with (clear h; simp_all)

omit h in
@[spec]
theorem templateChunk_spec : ⦃⌜True⌝⦄ templateChunk ⦃⇓? r => ⌜r.1.IsExpression⌝⦄ := by
  unfold templateChunk
  mvcgen
  all_goals simp_all

omit h in
@[spec]
theorem templateParts_spec {inner : Parser Tree}
    (hinner : ⦃⌜True⌝⦄ inner ⦃⇓? t => ⌜t.IsExpression⌝⦄) :
    ⦃⌜True⌝⦄ templateParts inner ⦃⇓? ts => ⌜∀ t ∈ ts, t.IsExpression⌝⦄ := by
  have hparts := @iterate_spec _ fun (r : List Tree × Bool) => ∀ t ∈ r.1, t.IsExpression
  unfold templateParts
  mvcgen [hinner, hparts] with (clear hparts; simp_all)

@[spec]
theorem typeQuery_spec (start : Nat) :
    ⦃⌜True⌝⦄ typeQuery rules start ⦃⇓? t => ⌜t.IsExpression⌝⦄ := by
  unfold typeQuery
  mvcgen [h] with (clear h; simp_all)

@[spec]
theorem importType_spec :
    ⦃⌜True⌝⦄ importType rules ⦃⇓? t => ⌜t.IsExpression⌝⦄ := by
  unfold importType
  mvcgen [h] with (clear h; simp_all)

@[spec]
theorem tupleElement_spec :
    ⦃⌜True⌝⦄ tupleElement rules ⦃⇓? t => ⌜t.IsExpression⌝⦄ := by
  unfold tupleElement
  mvcgen [h] with (clear h; simp_all +zetaDelta)

omit h in
@[spec]
theorem literalType_spec {l : Label} (hl : l.isPlain = true) :
    ⦃⌜True⌝⦄ literalType l ⦃⇓? t => ⌜t.IsExpression⌝⦄ := by
  unfold literalType
  mvcgen
  all_goals simp_all

@[spec]
theorem primaryType_spec :
    ⦃⌜True⌝⦄ primaryType rules ⦃⇓? t => ⌜t.IsExpression⌝⦄ := by
  unfold primaryType
  mvcgen [h]
  all_goals first | rfl | (clear h; simp_all)

@[spec]
theorem postfixType_spec :
    ⦃⌜True⌝⦄ postfixType rules ⦃⇓? t => ⌜t.IsExpression⌝⦄ := by
  unfold postfixType
  mvcgen [h] with (clear h; simp_all)

@[spec]
theorem operatorType_spec :
    ⦃⌜True⌝⦄ operatorType rules ⦃⇓? t => ⌜t.IsExpression⌝⦄ := by
  have hoperators := @foldrM_spec Tree Tree.IsExpression (Nat × String)
  unfold operatorType
  mvcgen [h, hoperators] with (clear h hoperators; simp_all)

omit h in
@[spec]
theorem typeSum_spec (mark : String) {l : Label} (hl : l.isPlain = true) {item : Parser Tree}
    (hitem : ⦃⌜True⌝⦄ item ⦃⇓? t => ⌜t.IsExpression⌝⦄) :
    ⦃⌜True⌝⦄ typeSum mark l item ⦃⇓? t => ⌜t.IsExpression⌝⦄ := by
  unfold typeSum
  mvcgen [hitem]
  all_goals simp_all

@[spec]
theorem functionTypeRest_spec (start : Nat) {l : Label} (hl : l.isPlain = true) :
    ⦃⌜True⌝⦄ functionTypeRest rules start l ⦃⇓? t => ⌜t.IsExpression⌝⦄ := by
  unfold functionTypeRest
  mvcgen [h] with (clear h; simp_all)

@[spec]
theorem type_spec :
    ⦃⌜True⌝⦄ type rules ⦃⇓? t => ⌜t.IsExpression⌝⦄ := by
  unfold type
  mvcgen [h] with (clear h; simp_all)

end Parser

end ContextHoist
