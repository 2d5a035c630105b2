/-
What is read from a whole file.

* `Grammar.rules_sound`: at every nesting depth the rules keep to their sorts.
* `SourceFile.isRegular_of_parse`: the functions of a file have declarations in their bodies where
  statements have them.
* `SourceFile.declaresInPlace_of_parse`, `SourceFile.mem_bindings_of_parse`: so what a function of
  a file declares is what its statements declare, unless there is a namespace in it.
-/
import ContextHoist.Parse.Grammar
import ContextHoist.Proofs.Reading.Statements

set_option mvcgen.warning false

namespace ContextHoist

open Std.Do

namespace Grammar

/-- One more level keeps the sorts. -/
lemma step_sound {rules : Rules} (h : rules.Sound) : (step rules).Sound := by
  intro goal
  cases goal with
  | expression => exact Parser.expression_spec h
  | assignment => exact Parser.assignment_spec h
  | unary => exact Parser.unary_spec h
  | leftHand => exact Parser.leftHand_spec h true
  | memberOnly => exact Parser.leftHand_spec h false
  | statement => exact Parser.statement_spec h
  | block => exact Parser.block_spec h
  | moduleItem => exact Parser.moduleItem_spec h
  | pattern => exact Parser.bindingPattern_spec h
  | type => exact Parser.type_spec h
  | element => exact Parser.element_spec h

theorem rules_sound (n : Nat) : (rules n).Sound := by
  induction n with
  | zero =>
    intro goal
    unfold rules
    mvcgen
  | succ n ih => exact step_sound ih

end Grammar

namespace SourceFile

theorem items_spec {rules : Rules} (h : rules.Sound) :
    ⦃⌜True⌝⦄ items rules ⦃⇓? ts => ⌜∀ t ∈ ts, t.IsRegular⌝⦄ := by
  have hitem := h .moduleItem
  have hitems := @Parser.many_spec _ Tree.IsRegular
  unfold items
  mvcgen [hitem, hitems] with (clear h hitem hitems; simp_all)

variable {dialect : Dialect} {text : String} {file : SourceFile}

theorem isRegular_of_parse (h : parse? dialect text = some file) :
    ∀ t ∈ file.module.items, t.IsRegular := by
  simp only [parse?, Option.bind_eq_bind, Option.bind_eq_some_iff] at h
  obtain ⟨⟨ts, c⟩, hread, -, -, heq⟩ := h
  obtain rfl := Option.some.inj heq
  exact (Parser.triple_iff _ _).1 (items_spec (Grammar.rules_sound _)) _ _ _ _ hread

variable {t params body : Tree} {k : Shell}

/-- In the body of a function that was read, what may declare names stands where a statement has
it, unless there is a namespace. -/
theorem declaresInPlace_of_parse (h : parse? dialect text = some file)
    (ht : t ∈ file.module.items) (hk : t.Has (k.literal params body))
    (hnone : ¬∃ u, body.Reaches Label.opensTo u ∧ u.label = .moduleBlock) :
    body.declaresInPlace = true :=
  ((isRegular_of_parse h t ht).isPlaced_body hk).declaresInPlace hnone

/-- The names that a function binds which was read: its own, those of its parameters, and those
that are declared in its statements. -/
theorem mem_bindings_of_parse (h : parse? dialect text = some file)
    (ht : t ∈ file.module.items) (hk : t.Has (k.literal params body))
    (hnone : ¬∃ u, body.Reaches Label.opensTo u ∧ u.label = .moduleBlock) (n : String) :
    n ∈ (k.literal params body).bindings ↔
      k.self.Introduces n ∨ params.Introduces n ∨
        ∃ d, body.Reaches Label.nestsAt d ∧ d.Declares n := by
  rw [Shell.mem_bindings_literal,
    Tree.mem_declared_iff_nests (declaresInPlace_of_parse h ht hk hnone)]

end SourceFile

end ContextHoist
