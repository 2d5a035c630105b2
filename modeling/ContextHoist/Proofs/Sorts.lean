/-
Sorts of phrases, told by where they may have declarations.

A statement has declarations in its statements, and an expression has none but those in functions
and classes.  The parser keeps to this; here it is said what there is to keep.  The items of a
namespace are the exception: they may stand in a function, and anything may stand in them.

* `Tree.IsPlaced`: outside of namespaces, what may declare names stands where a statement has it.
* `Tree.IsRegular`, `Tree.IsStatement`, `Tree.IsExpression`: phrases whose functions have bodies of
  this kind, those that are of this kind themselves, and those that declare nothing.
* `Tree.isStatement_node`, `Tree.isExpression_node`: phrases are of a sort if their parts fit.
* `Tree.isExpression_iff`: most phrases are expressions if and only if all their parts are.
* `Tree.IsPlaced.declaresInPlace`: the property is the one that bodies are asked for.
-/
import ContextHoist.Proofs.BoundNames
import ContextHoist.Proofs.Shape

namespace ContextHoist

namespace Label

/-- The places that are searched for declarations, outside of namespaces. -/
def opensOutside (l : Label) (i : Nat) : Bool :=
  l.opensTo i && l != .moduleBlock

/-- The place of the body in a function. -/
@[simp, reducible]
def hasBodyAt (l : Label) (i : Nat) : Bool :=
  match l with
  | function _ _ => i == 2
  | arrow _ => i == 1
  | _ => false

/-- The phrases whose parts are all searched for declarations, and which may have none in them. -/
@[simp, reducible]
def isPlain : Label → Bool
  | function _ _ | arrow _ | classBody _ | getter | setter => false
  | moduleBlock | importDefault | importNamespace | importNamed _ => false
  | varDecl _ _ | declarator _ | functionDecl _ | classDecl _ => false
  | block | withStmt | labeled | ifStmt | switchStmt | caseClause | tryStmt | catchClause => false
  | whileStmt | doWhileStmt | forStmt | forInStmt | forOfStmt _ => false
  | _ => true

lemma opensOutside_of_nestsAt {l : Label} {i : Nat} (h : l.nestsAt i = true) :
    l.opensOutside i = true := by
  rw [opensOutside, opensTo_of_nestsAt h, Bool.true_and, bne_iff_ne]
  rintro rfl
  exact absurd h (by simp [nestsAt])

/-- No function has its body in a place that is searched. -/
lemma opensOutside_of_hasBodyAt {l : Label} {i : Nat} (h : l.hasBodyAt i = true) :
    l.opensOutside i = false := by
  unfold hasBodyAt at h
  split at h <;> simp_all [opensOutside, opensTo]

lemma places_of_isPlain {l : Label} (h : l.isPlain = true) :
    l.isImport = false ∧ l.mayDeclare = false ∧
      ∀ i, l.opensOutside i = true ∧ l.hasBodyAt i = false := by
  refine ⟨?_, ?_, fun i => ⟨?_, ?_⟩⟩
  · unfold isImport
    split <;> first | rfl | cases h
  · unfold mayDeclare
    split
    · cases h
    · unfold isDeclaration holdsStatements
      split
      all_goals first | cases h | (split <;> first | rfl | cases h)
  · unfold opensOutside opensTo
    split
    all_goals first | cases h | simp
    rintro rfl
    cases h
  · unfold hasBodyAt
    split <;> first | rfl | cases h

end Label

namespace Tree

/-! ### Declarations in place -/

/-- What may declare names stands as a part of the phrase only where a statement has it, and the
phrase is no import; unless the phrase consists of the items of a namespace. -/
def IsPlacedNode : Tree → Prop
  | node l _ ts => l = .moduleBlock ∨ l.isImport = false ∧
    ∀ i t, ts[i]? = some t → l.opensTo i = true → t.label.mayDeclare = true → l.nestsAt i = true

/-- In the searched places of a phrase outside of namespaces, what may declare names stands only
where a statement has it. -/
def IsPlaced (t : Tree) : Prop :=
  ∀ u, t.Reaches Label.opensOutside u → u.IsPlacedNode

lemma isPlaced_node {l : Label} {s : Span} {ts : List Tree} :
    (node l s ts).IsPlaced ↔ (node l s ts).IsPlacedNode ∧
      ∀ i t, ts[i]? = some t → l.opensOutside i = true → t.IsPlaced := by
  constructor
  · exact fun h => ⟨h _ (.self _), fun i t hi hl u hu => h u (.part hi hl hu)⟩
  · rintro ⟨hnode, hparts⟩ u hu
    cases hu with
    | self => exact hnode
    | part hi hl hu => exact hparts _ _ hi hl u hu

lemma declareInPlace_of_forall {l : Label} {ts : List Tree} {j : Nat}
    (h : ∀ i t, ts[i]? = some t → l.opensTo (j + i) = true →
      (t.label.mayDeclare = true → l.nestsAt (j + i) = true) ∧ t.declaresInPlace = true) :
    declareInPlace l j ts = true := by
  induction ts generalizing j with
  | nil => rfl
  | cons t ts ih =>
    have hhead := h 0 t rfl
    have htail : declareInPlace l (j + 1) ts = true := by
      refine ih fun i u hi => ?_
      rw [Nat.add_right_comm, Nat.add_assoc]
      exact h (i + 1) u hi
    rw [Nat.add_zero] at hhead
    rw [declareInPlace, htail, Bool.and_true]
    cases hl : l.opensTo j with
    | false => rfl
    | true =>
      obtain ⟨hplace, ht⟩ := hhead hl
      cases hmay : t.label.mayDeclare with
      | false => simp [ht]
      | true => simp [ht, hplace hmay]

/-- Where there is no namespace, the exception for namespaces makes no difference. -/
lemma IsPlaced.declaresInPlace {t : Tree} (h : t.IsPlaced)
    (hnone : ¬∃ u, t.Reaches Label.opensTo u ∧ u.label = .moduleBlock) :
    t.declaresInPlace = true := by
  induction t using Tree.induct with
  | node l s ts ih =>
    have hl : l ≠ .moduleBlock := fun hl => hnone ⟨_, .self _, hl⟩
    obtain ⟨hnode, hparts⟩ := isPlaced_node.1 h
    obtain ⟨himport, hplaces⟩ := hnode.resolve_left hl
    rw [Tree.declaresInPlace, himport, Bool.not_false, Bool.true_and]
    refine declareInPlace_of_forall fun i t hi hopen => ?_
    rw [Nat.zero_add] at hopen ⊢
    refine ⟨hplaces i t hi hopen, ih t (List.mem_of_getElem? hi) ?_ ?_⟩
    · exact hparts i t hi (by simp [Label.opensOutside, hopen, hl])
    · rintro ⟨u, hu, hlabel⟩
      exact hnone ⟨u, .part hi hopen hu, hlabel⟩

/-! ### Sorts -/

/-- The bodies of all functions in the phrase declare in place. -/
def IsRegular (t : Tree) : Prop :=
  ∀ l s ts, t.Has (node l s ts) → ∀ i b, ts[i]? = some b → l.hasBodyAt i = true → b.IsPlaced

/-- The phrase and the bodies of all functions in it declare in place. -/
def IsStatement (t : Tree) : Prop :=
  t.IsRegular ∧ t.IsPlaced

/-- The phrase declares nothing outside of functions, classes and namespaces.  Types, patterns and
the like count as expressions too. -/
def IsExpression (t : Tree) : Prop :=
  t.IsStatement ∧ t.label.mayDeclare = false

@[simp]
lemma IsStatement.isRegular {t : Tree} (h : t.IsStatement) : t.IsRegular := h.1

@[simp]
lemma IsExpression.isStatement {t : Tree} (h : t.IsExpression) : t.IsStatement := h.1

@[simp]
lemma IsExpression.isRegular {t : Tree} (h : t.IsExpression) : t.IsRegular := h.1.1

lemma isRegular_node {l : Label} {s : Span} {ts : List Tree} :
    (node l s ts).IsRegular ↔
      (∀ i b, ts[i]? = some b → l.hasBodyAt i = true → b.IsPlaced) ∧ ∀ t ∈ ts, t.IsRegular := by
  constructor
  · exact fun h => ⟨h _ _ _ (.self _), fun t ht l s us hu => h l s us (.part ht hu)⟩
  · rintro ⟨hbody, hparts⟩ l' s' us hu
    cases hu with
    | self => exact hbody
    | part ht hu => exact hparts _ ht _ _ _ hu

/-- A function literal in a regular phrase declares in place. -/
lemma IsRegular.isPlaced_body {t : Tree} (h : t.IsRegular) {k : Shell} {params body : Tree}
    (hk : t.Has (k.literal params body)) : body.IsPlaced := by
  cases k with
  | function =>
    exact h _ _ _ (hk.trans (.part (.tail _ (.head _)) (.self _))) 2 body rfl rfl
  | arrow => exact h _ _ _ hk 1 body rfl rfl

/-- Most phrases are regular if and only if all their parts are. -/
@[simp low]
lemma isRegular_iff {l : Label} (hl : ∀ i, l.hasBodyAt i = false) {s : Span} {ts : List Tree} :
    (node l s ts).IsRegular ↔ ∀ t ∈ ts, t.IsRegular := by
  simp [isRegular_node, hl]

/-! ### Parts that fit -/

/-- The phrase is of the sort that is asked for in the given place. -/
@[simp]
def FitsAt (l : Label) (i : Nat) (t : Tree) : Prop :=
  if l.nestsAt i || l.hasBodyAt i then t.IsStatement
  else if l.opensOutside i then t.IsExpression
  else t.IsRegular

/-- The phrases are of the sorts that are asked for, from the given place on. -/
@[simp]
def FitFrom (l : Label) (i : Nat) : List Tree → Prop
  | [] => True
  | t :: ts => FitsAt l i t ∧ FitFrom l (i + 1) ts

lemma fitFrom_iff {l : Label} {j : Nat} {ts : List Tree} :
    FitFrom l j ts ↔ ∀ i t, ts[i]? = some t → FitsAt l (j + i) t := by
  induction ts generalizing j with
  | nil => simp
  | cons u us ih =>
    rw [FitFrom, ih]
    constructor
    · rintro ⟨hu, hus⟩ i t hi
      cases i with
      | zero =>
        obtain rfl : u = t := by simpa using hi
        exact hu
      | succ i =>
        rw [← Nat.add_assoc, Nat.add_right_comm]
        exact hus i t (by simpa using hi)
    · refine fun h => ⟨h 0 u rfl, fun i t hi => ?_⟩
      rw [Nat.add_right_comm, Nat.add_assoc]
      exact h (i + 1) t (by simpa using hi)

lemma fitsAt_iff {l : Label} {i : Nat} {t : Tree} :
    FitsAt l i t ↔ t.IsRegular ∧ (l.hasBodyAt i = true → t.IsPlaced) ∧
      (l.opensOutside i = true →
        t.IsPlaced ∧ (t.label.mayDeclare = true → l.nestsAt i = true)) := by
  have hnests := @Label.opensOutside_of_nestsAt l i
  have hbody := @Label.opensOutside_of_hasBodyAt l i
  unfold FitsAt IsExpression IsStatement
  cases hn : l.nestsAt i <;> cases hb : l.hasBodyAt i <;> cases ho : l.opensOutside i <;>
    simp_all [and_assoc]

/-- In the places where a phrase has statements, statements fit. -/
lemma fitFrom_statements {l : Label} {j : Nat} {ts : List Tree}
    (hl : ∀ i, l.nestsAt (j + i) = true) (hts : ∀ t ∈ ts, t.IsStatement) : FitFrom l j ts := by
  refine fitFrom_iff.2 fun i t hi => ?_
  rw [FitsAt, hl, Bool.true_or, if_pos rfl]
  exact hts t (List.mem_of_getElem? hi)

/-- In a namespace, all items fit whose functions declare in place. -/
@[simp]
lemma fitFrom_moduleBlock {j : Nat} {ts : List Tree} :
    FitFrom .moduleBlock j ts ↔ ∀ t ∈ ts, t.IsRegular := by
  have hnests : ∀ i, Label.moduleBlock.nestsAt i = false := fun _ => rfl
  have hopen : ∀ i, Label.moduleBlock.opensOutside i = false := by simp [Label.opensOutside]
  simp only [fitFrom_iff, FitsAt, hnests, hopen, Label.hasBodyAt, Bool.or_self, Bool.false_eq_true,
    if_false, List.mem_iff_getElem?]
  exact ⟨fun h t ⟨i, hi⟩ => h i t hi, fun h i t hi => h t ⟨i, hi⟩⟩

/-- A phrase is of a sort if and only if its parts fit. -/
@[simp]
lemma isStatement_node {l : Label} {s : Span} {ts : List Tree} :
    (node l s ts).IsStatement ↔ l.isImport = false ∧ FitFrom l 0 ts := by
  have hplaced : (node l s ts).IsPlacedNode ↔ l.isImport = false ∧ ∀ i t, ts[i]? = some t →
      l.opensOutside i = true → t.label.mayDeclare = true → l.nestsAt i = true := by
    by_cases hblock : l = .moduleBlock <;>
      simp [IsPlacedNode, Label.opensOutside, Label.isImport, hblock]
  simp only [IsStatement, isRegular_node, isPlaced_node, hplaced, fitFrom_iff, fitsAt_iff,
    Nat.zero_add]
  constructor
  · rintro ⟨⟨hbody, hregular⟩, ⟨himport, hnests⟩, hparts⟩
    exact ⟨himport, fun i t hi => ⟨hregular t (List.mem_of_getElem? hi), hbody i t hi,
      fun hopen => ⟨hparts i t hi hopen, hnests i t hi hopen⟩⟩⟩
  · rintro ⟨himport, h⟩
    refine ⟨⟨fun i t hi => (h i t hi).2.1, fun t ht => ?_⟩,
      ⟨himport, fun i t hi hopen => ((h i t hi).2.2 hopen).2⟩,
      fun i t hi hopen => ((h i t hi).2.2 hopen).1⟩
    obtain ⟨i, hi⟩ := List.mem_iff_getElem?.1 ht
    exact (h i t hi).1

@[simp low]
lemma isExpression_node {l : Label} {s : Span} {ts : List Tree} :
    (node l s ts).IsExpression ↔ l.isImport = false ∧ l.mayDeclare = false ∧ FitFrom l 0 ts := by
  rw [IsExpression, isStatement_node, and_assoc, and_comm (a := FitFrom l 0 ts)]
  rfl

/-- Most phrases are expressions if and only if all their parts are. -/
@[simp]
lemma isExpression_iff {l : Label} (hl : l.isPlain = true) {s : Span} {ts : List Tree} :
    (node l s ts).IsExpression ↔ ∀ t ∈ ts, t.IsExpression := by
  obtain ⟨himport, hmay, hplaces⟩ := Label.places_of_isPlain hl
  have hnests : ∀ i, l.nestsAt i = false := by
    intro i
    by_contra h
    rw [Bool.not_eq_false] at h
    exact absurd (Label.mayDeclare_of_nestsAt h) (by simp [hmay])
  rw [isExpression_node, fitFrom_iff]
  simp only [himport, hmay, FitsAt, hnests, hplaces, Bool.or_false, Bool.false_eq_true, if_false,
    if_true, true_and, List.mem_iff_getElem?]
  exact ⟨fun h t ⟨i, hi⟩ => h i t hi, fun h i t hi => h t ⟨i, hi⟩⟩

end Tree

end ContextHoist
