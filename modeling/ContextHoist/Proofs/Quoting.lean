/-
Which string literals get other quotes.

A string that is the value of an attribute has no escapes, so it keeps its quotes, and so does
everything else in the value of an attribute, except for what stands in braces.  Whether a literal
is concerned is decided by the phrases around it: by the nearest one that is an attribute or a pair
of braces, if there is one.

* `PlacedString`: a string literal with the labels around it; `Module.strings` lists all of them.
* `PlacedString.IsCode`: the literal is not part of an attribute, or it stands in braces there.
* `Tree.stringsIn_requoted`: what becomes of the literals of a phrase.
* `Module.requotesCode`: what becomes of a source file.
-/
import Mathlib.Algebra.Ring.Nat
import Mathlib.Data.List.Forall2
import ContextHoist.Proofs.Shape
import ContextHoist.Proofs.Literals

namespace ContextHoist

/-! ### String literals and what is around them -/

/-- A string literal in a phrase. -/
structure PlacedString where
  /-- The labels of the phrases around it, from the inside to the outside. -/
  around : List Label
  /-- The literal as it is written. -/
  raw : String
  deriving DecidableEq, Repr

namespace Label

/-- Whether the label decides about the literals that it is the nearest one around. -/
def isAttributeOrBraces (l : Label) : Bool :=
  l = .elementAttr || l = .container

/-- Whether the parts of a phrase with this label are in an attribute, and not in braces there,
given whether the phrase is. -/
def isInAttribute (inAttribute : Bool) : Label → Bool
  | elementAttr => true
  | container => false
  | _ => inAttribute

/-- Whether the nearest of some labels that is an attribute or a pair of braces is an attribute. -/
def areInAttribute (around : List Label) : Bool :=
  around.find? isAttributeOrBraces = some .elementAttr

/-- A label is that of an attribute, that of braces, or decides nothing. -/
lemma attribute_or_braces_or (l : Label) :
    l = .elementAttr ∨ l = .container ∨ (l ≠ .elementAttr ∧ l ≠ .container ∧
      ∀ inAttribute, l.isInAttribute inAttribute = inAttribute) := by
  by_cases hattribute : l = .elementAttr
  · exact .inl hattribute
  by_cases hbraces : l = .container
  · exact .inr (.inl hbraces)
  refine .inr (.inr ⟨hattribute, hbraces, fun inAttribute => ?_⟩)
  unfold isInAttribute
  split
  · exact absurd rfl hattribute
  · exact absurd rfl hbraces
  · rfl

lemma areInAttribute_cons (l : Label) (around : List Label) :
    areInAttribute (l :: around) = l.isInAttribute (areInAttribute around) := by
  cases l <;> rfl

end Label

namespace PlacedString

/-- The literal is not part of an attribute, or the nearest phrase around it that is an attribute or
a pair of braces is a pair of braces. -/
def IsCode (p : PlacedString) : Prop :=
  .elementAttr ∉ p.around ∨ p.around.find? Label.isAttributeOrBraces = some .container

lemma isCode_iff {p : PlacedString} : p.IsCode ↔ Label.areInAttribute p.around = false := by
  rw [IsCode, Label.areInAttribute, decide_eq_false_iff_not]
  constructor
  · rintro (hnot | hbraces) hfind
    · exact hnot (List.mem_of_find?_eq_some hfind)
    · rw [hbraces] at hfind
      exact absurd hfind (by simp)
  · intro hfind
    cases h : p.around.find? Label.isAttributeOrBraces with
    | none =>
      rw [List.find?_eq_none] at h
      exact .inl fun hmem => h _ hmem rfl
    | some l =>
      have hl : l = .elementAttr ∨ l = .container := by
        simpa [Label.isAttributeOrBraces] using List.find?_some h
      rcases hl with rfl | rfl
      · exact absurd h hfind
      · exact .inr rfl

/-- The literal when the literals of a phrase get the quote. -/
def requoted (quote : Char) (p : PlacedString) : PlacedString :=
  if Label.areInAttribute p.around then p else { p with raw := (requote p.raw quote).getD p.raw }

end PlacedString

namespace Tree

mutual

/-- The string literals of a phrase that stands in phrases with the given labels. -/
def stringsIn (around : List Label) : Tree → List PlacedString
  | node (.string raw) _ _ => [⟨around, raw⟩]
  | node l _ ts => stringsInAll (l :: around) ts

/-- The string literals of some phrases that stand in phrases with the given labels. -/
def stringsInAll (around : List Label) : List Tree → List PlacedString
  | [] => []
  | t :: ts => t.stringsIn around ++ stringsInAll around ts

end

mutual

/-- A phrase without the texts of its string literals. -/
def withoutStrings : Tree → Tree
  | node (.string _) s ts => node (.string "") s ts
  | node l s ts => node l s (withoutStringsAll ts)

/-- Phrases without the texts of their string literals. -/
def withoutStringsAll : List Tree → List Tree
  | [] => []
  | t :: ts => t.withoutStrings :: withoutStringsAll ts

end

lemma stringsInAll_eq (around : List Label) (ts : List Tree) :
    stringsInAll around ts = ts.flatMap (stringsIn around) := by
  induction ts with
  | nil => rfl
  | cons t ts ih => rw [stringsInAll, ih, List.flatMap_cons]

lemma withoutStringsAll_eq (ts : List Tree) : withoutStringsAll ts = ts.map withoutStrings := by
  induction ts with
  | nil => rfl
  | cons t ts ih => rw [withoutStringsAll, ih, List.map_cons]

lemma requotedAll_eq (quote : Char) (inAttribute : Bool) (ts : List Tree) :
    requotedAll quote inAttribute ts = ts.map (requoted quote inAttribute) := by
  induction ts with
  | nil => rfl
  | cons t ts ih => rw [requotedAll, ih, List.map_cons]

lemma requotableAll_eq (quote : Char) (inAttribute : Bool) (ts : List Tree) :
    requotableAll quote inAttribute ts = (ts.map (requotable quote inAttribute)).sum := by
  induction ts with
  | nil => rfl
  | cons t ts ih => rw [requotableAll, ih, List.map_cons, List.sum_cons]

/-! ### One level of a phrase -/

/-- Induction on trees in which string literals are leaves. -/
@[elab_as_elim]
theorem inductStrings {motive : Tree → Prop}
    (string : ∀ raw s ts, motive (node (.string raw) s ts))
    (node : ∀ l s ts, (∀ raw, l ≠ .string raw) → (∀ t ∈ ts, motive t) → motive (node l s ts))
    (t : Tree) : motive t := by
  induction t using Tree.induct with
  | node l s ts ih =>
    by_cases hl : ∃ raw, l = .string raw
    · obtain ⟨raw, rfl⟩ := hl
      exact string raw s ts
    · exact node l s ts (fun raw heq => hl ⟨raw, heq⟩) ih

section Node

variable {l : Label} (hl : ∀ raw, l ≠ .string raw) (s : Span) (ts : List Tree)
include hl

lemma stringsIn_node (around : List Label) :
    stringsIn around (node l s ts) = ts.flatMap (stringsIn (l :: around)) := by
  rw [stringsIn, stringsInAll_eq]
  exact hl

lemma withoutStrings_node : (node l s ts).withoutStrings = node l s (ts.map withoutStrings) := by
  rw [withoutStrings, withoutStringsAll_eq]
  exact hl

lemma requoted_node (quote : Char) (inAttribute : Bool) :
    (node l s ts).requoted quote inAttribute =
      node l s (ts.map (requoted quote (l.isInAttribute inAttribute))) := by
  rcases l.attribute_or_braces_or with rfl | rfl | ⟨hattribute, hbraces, hother⟩
  · rw [requoted, requotedAll_eq]
    rfl
  · rw [requoted, requotedAll_eq]
    rfl
  · rw [requoted, requotedAll_eq, hother]
    · exact hl
    · exact hattribute
    · exact hbraces

lemma requotable_node (quote : Char) (inAttribute : Bool) :
    (node l s ts).requotable quote inAttribute =
      (ts.map (requotable quote (l.isInAttribute inAttribute))).sum := by
  rcases l.attribute_or_braces_or with rfl | rfl | ⟨hattribute, hbraces, hother⟩
  · rw [requotable, requotableAll_eq]
    rfl
  · rw [requotable, requotableAll_eq]
    rfl
  · rw [requotable, requotableAll_eq, hother]
    · exact hl
    · exact hattribute
    · exact hbraces

end Node

end Tree

/-! ### One literal -/

/-- A text begins with the new quote afterwards. -/
lemma head?_of_requote {raw r : String} {quote : Char} (h : requote raw quote = some r) :
    r.toList.head? = some quote ∧ raw.toList.head? ≠ some quote := by
  obtain ⟨cs, hcs, rfl⟩ := Option.map_eq_some_iff.1 h
  unfold requoteChars at hcs
  split at hcs
  · exact absurd hcs (by simp)
  · next old rest hraw =>
    split at hcs
    · exact absurd hcs (by simp)
    · next hold =>
      obtain rfl := Option.some.inj hcs
      simp only [Bool.or_eq_true, decide_eq_true_iff, not_or] at hold
      simp [hraw, hold.1.1]

lemma requote_eq_none_of_head? {raw : String} {quote : Char} (h : raw.toList.head? = some quote) :
    requote raw quote = none := by
  cases hr : requote raw quote with
  | none => rfl
  | some r => exact absurd h (head?_of_requote hr).2

/-- A second time, nothing changes. -/
lemma requote_getD_requote (raw : String) (quote : Char) :
    requote ((requote raw quote).getD raw) quote = none := by
  cases h : requote raw quote with
  | none => exact h
  | some r => exact requote_eq_none_of_head? (head?_of_requote h).1

/-- Whether a literal changes. -/
lemma getD_requote_ne_iff {raw : String} {quote : Char} :
    (requote raw quote).getD raw ≠ raw ↔ (requote raw quote).isSome = true := by
  cases h : requote raw quote with
  | none => simp
  | some r =>
    obtain ⟨hr, hraw⟩ := head?_of_requote h
    simp only [Option.getD_some, Option.isSome_some, iff_true]
    rintro rfl
    exact hraw hr

/-- A literal has the quote afterwards and means the same. -/
lemma StringLiteral.exists_getD_requote (l : StringLiteral) (q : Quote) :
    ∃ l' : StringLiteral, l'.raw = (requote l.raw q.char).getD l.raw ∧ l'.quote = q ∧
      stringValue? l'.raw = stringValue? l.raw := by
  by_cases hq : l.quote = q
  · have hnone : requote l.raw q.char = none := by
      refine requote_eq_none_of_head? ?_
      rw [l.toList_raw, hq, List.head?_cons]
    exact ⟨l, by rw [hnone, Option.getD_none], hq, rfl⟩
  · have hother : l.quote.other = q := by
      cases hl : l.quote <;> cases q <;> simp_all [Quote.other]
    refine ⟨l.requoted, ?_, hother, l.stringValue?_requoted⟩
    rw [← hother, l.requote_raw, Option.getD_some]

namespace PlacedString

lemma requoted_requoted (quote : Char) (p : PlacedString) :
    (p.requoted quote).requoted quote = p.requoted quote := by
  unfold requoted
  split
  · rfl
  · simp only [requote_getD_requote, Option.getD_none]

lemma around_requoted (quote : Char) (p : PlacedString) :
    (p.requoted quote).around = p.around := by
  unfold requoted
  split <;> rfl

end PlacedString

/-! ### All literals -/

namespace Tree

/-- A phrase changes in the texts of its string literals only. -/
lemma withoutStrings_requoted (quote : Char) (inAttribute : Bool) (t : Tree) :
    (t.requoted quote inAttribute).withoutStrings = t.withoutStrings := by
  induction t using inductStrings generalizing inAttribute with
  | string raw s ts =>
    rw [requoted]
    split <;> rfl
  | node l s ts hl ih =>
    rw [requoted_node hl, withoutStrings_node hl, withoutStrings_node hl, List.map_map]
    congr 1
    exact List.map_congr_left fun t ht => ih t ht _

/-- The string literals of a phrase change one by one, each as what is around it says. -/
lemma stringsIn_requoted (quote : Char) (around : List Label) (t : Tree) :
    (t.requoted quote (Label.areInAttribute around)).stringsIn around =
      (t.stringsIn around).map (PlacedString.requoted quote) := by
  induction t using inductStrings generalizing around with
  | string raw s ts =>
    rw [requoted]
    split
    · next h => simp [stringsIn, PlacedString.requoted, h]
    · next h => simp [stringsIn, PlacedString.requoted, h]
  | node l s ts hl ih =>
    rw [requoted_node hl, stringsIn_node hl, stringsIn_node hl, List.flatMap_map,
      List.map_flatMap, ← Label.areInAttribute_cons]
    exact List.flatMap_congr fun t ht => ih t ht _

/-- The literals that change are counted. -/
lemma requotable_eq (quote : Char) (around : List Label) (t : Tree) :
    t.requotable quote (Label.areInAttribute around) =
      (t.stringsIn around).countP fun p => (p.requoted quote).raw != p.raw := by
  induction t using inductStrings generalizing around with
  | string raw s ts =>
    rw [requotable, stringsIn, List.countP_singleton]
    split
    · next h => simp [PlacedString.requoted, h]
    · next h => simp [PlacedString.requoted, h, getD_requote_ne_iff]
  | node l s ts hl ih =>
    rw [requotable_node hl, stringsIn_node hl, List.countP_flatMap, ← Label.areInAttribute_cons]
    congr 1
    exact List.map_congr_left fun t ht => ih t ht _

/-- A second time, nothing changes. -/
lemma requoted_requoted (quote : Char) (inAttribute : Bool) (t : Tree) :
    (t.requoted quote inAttribute).requoted quote inAttribute = t.requoted quote inAttribute := by
  induction t using inductStrings generalizing inAttribute with
  | string raw s ts =>
    cases inAttribute with
    | true => rfl
    | false => simp [requoted, requote_getD_requote]
  | node l s ts hl ih =>
    rw [requoted_node hl, requoted_node hl, List.map_map]
    congr 1
    exact List.map_congr_left fun t ht => ih t ht _

end Tree

/-! ### Source files -/

namespace Module

/-- The string literals of a source file. -/
def strings (m : Module) : List PlacedString :=
  Tree.stringsInAll [] m.items

/-- A source file without the texts of its string literals. -/
def withoutStrings (m : Module) : Module :=
  { m with items := Tree.withoutStringsAll m.items }

lemma withoutStrings_requoted (m : Module) (quote : Char) :
    (m.requoted quote).withoutStrings = m.withoutStrings := by
  have hitems : Tree.withoutStringsAll (Tree.requotedAll quote false m.items) =
      Tree.withoutStringsAll m.items := by
    rw [Tree.requotedAll_eq, Tree.withoutStringsAll_eq, Tree.withoutStringsAll_eq, List.map_map]
    exact List.map_congr_left fun t _ => t.withoutStrings_requoted quote false
  exact congrArg (fun items => { m with items := items }) hitems

lemma strings_requoted (m : Module) (quote : Char) :
    (m.requoted quote).strings = m.strings.map (PlacedString.requoted quote) := by
  have hitems : ∀ t ∈ m.items, (t.requoted quote false).stringsIn [] =
      (t.stringsIn []).map (PlacedString.requoted quote) :=
    fun t _ => t.stringsIn_requoted quote []
  rw [strings, strings, requoted, Tree.requotedAll_eq, Tree.stringsInAll_eq, Tree.stringsInAll_eq,
    List.flatMap_map, List.map_flatMap]
  exact List.flatMap_congr hitems

lemma requotable_eq (m : Module) (quote : Char) :
    m.requotable quote = m.strings.countP fun p => (p.requoted quote).raw != p.raw := by
  have hitems : ∀ t ∈ m.items, t.requotable quote false =
      (t.stringsIn []).countP fun p => (p.requoted quote).raw != p.raw :=
    fun t _ => t.requotable_eq quote []
  rw [strings, requotable, Tree.requotableAll_eq, Tree.stringsInAll_eq, List.countP_flatMap]
  congr 1
  exact List.map_congr_left hitems

lemma requoted_requoted (m : Module) (quote : Char) :
    (m.requoted quote).requoted quote = m.requoted quote := by
  have hitems : Tree.requotedAll quote false (Tree.requotedAll quote false m.items) =
      Tree.requotedAll quote false m.items := by
    simp only [Tree.requotedAll_eq, List.map_map]
    exact List.map_congr_left fun t _ => t.requoted_requoted quote false
  exact congrArg (fun items => { m with items := items }) hitems

end Module

/-- What becomes of a string literal of a source file whose literals get a quote. -/
structure PlacedString.Becomes (q : Quote) (p p' : PlacedString) : Prop where
  /-- It stays where it is. -/
  place : p'.around = p.around
  /-- The value of an attribute stays as it is. -/
  ofAttribute : p.around.head? = some .elementAttr → p'.raw = p.raw
  /-- Outside of attributes, and in braces, a literal gets the quote and means what it meant. -/
  ofCode : p.IsCode → (∃ l : StringLiteral, l.raw = p'.raw ∧ l.quote = q) ∧
    stringValue? p'.raw = stringValue? p.raw

lemma PlacedString.becomes_requoted (q : Quote) {p : PlacedString}
    (hp : p.IsCode → ∃ l : StringLiteral, l.raw = p.raw) : p.Becomes q (p.requoted q.char) := by
  refine ⟨around_requoted q.char p, ?_, ?_⟩
  · intro hhead
    obtain ⟨around, hcons⟩ := List.head?_eq_some_iff.1 hhead
    have hshielded : Label.areInAttribute p.around = true := by
      rw [hcons, Label.areInAttribute_cons]
      rfl
    rw [requoted, if_pos hshielded]
  · intro hcode
    obtain ⟨l, hl⟩ := hp hcode
    have hraw : (p.requoted q.char).raw = (requote p.raw q.char).getD p.raw := by
      rw [requoted, if_neg (by simp [isCode_iff.1 hcode])]
    obtain ⟨l', hl', hquote, hvalue⟩ := l.exists_getD_requote q
    rw [hraw, ← hl]
    exact ⟨⟨l', hl', hquote⟩, hl' ▸ hvalue⟩

namespace Module

/-- A source file whose string literals get a quote changes in their texts only.  Each one becomes
what is said above; those that change are counted; and a second time there are none. -/
theorem requotesCode (m : Module) (q : Quote)
    (hm : ∀ p ∈ m.strings, p.IsCode → ∃ l : StringLiteral, l.raw = p.raw) :
    (m.requoted q.char).withoutStrings = m.withoutStrings ∧
      List.Forall₂ (PlacedString.Becomes q) m.strings (m.requoted q.char).strings ∧
      m.requotable q.char = (m.strings.zip (m.requoted q.char).strings).countP
        (fun (p, p') => p'.raw != p.raw) ∧
      (m.requoted q.char).requoted q.char = m.requoted q.char ∧
      (m.requoted q.char).requotable q.char = 0 := by
  have hstrings := m.strings_requoted q.char
  refine ⟨m.withoutStrings_requoted q.char, ?_, ?_, m.requoted_requoted q.char, ?_⟩
  · rw [hstrings, List.forall₂_map_right_iff, List.forall₂_same]
    exact fun p hp => p.becomes_requoted q (hm p hp)
  · have hzip : m.strings.zip (m.strings.map (PlacedString.requoted q.char)) =
        m.strings.map fun p => (p, p.requoted q.char) := by
      simpa using List.zip_map' (f := id) (g := PlacedString.requoted q.char) (l := m.strings)
    rw [hstrings, hzip, m.requotable_eq, List.countP_map]
    rfl
  · rw [requotable_eq, hstrings, List.countP_map, List.countP_eq_zero]
    intro p _
    simp [PlacedString.requoted_requoted]

/-- The source file `<a b="x" c={"y"} />; "it's";`. -/
def quotedElement : Module :=
  .ofItems [
    .node .exprStmt .nowhere [.node .element .nowhere [.node (.openingTag true) .nowhere
      [.name "a" .nowhere, .group [
        .node .elementAttr .nowhere [.key "b" .nowhere, .node (.string "\"x\"") .nowhere []],
        .node .elementAttr .nowhere [.key "c" .nowhere,
          .node .container .nowhere [.node (.string "\"y\"") .nowhere []]]], .absent],
      .group [], .absent]],
    .node .exprStmt .nowhere [.node (.string "\"it's\"") .nowhere []]]

theorem requotesCode_quotedElement :
    quotedElement.strings.map (·.raw) = ["\"x\"", "\"y\"", "\"it's\""] ∧
      (quotedElement.requoted '\'').strings.map (·.raw) = ["\"x\"", "'y'", "'it\\'s'"] ∧
      List.Forall₂ (PlacedString.Becomes .single) quotedElement.strings
        (quotedElement.requoted '\'').strings := by
  have hraws : quotedElement.strings.map (·.raw) = ["\"x\"", "\"y\"", "\"it's\""] := by
    decide +kernel
  refine ⟨hraws, by decide +kernel, (requotesCode quotedElement .single ?_).2.1⟩
  intro p hp _
  have hraw : p.raw ∈ quotedElement.strings.map (·.raw) := List.mem_map_of_mem hp
  rw [hraws] at hraw
  simp only [List.mem_cons, List.not_mem_nil, or_false] at hraw
  rcases hraw with h | h | h
  · exact ⟨⟨.double, [.plain 'x'], by decide⟩, by rw [h]; decide +kernel⟩
  · exact ⟨⟨.double, [.plain 'y'], by decide⟩, by rw [h]; decide +kernel⟩
  · exact ⟨⟨.double, ['i', 't', '\'', 's'].map .plain, by decide⟩, by rw [h]; decide +kernel⟩

end Module

end ContextHoist
