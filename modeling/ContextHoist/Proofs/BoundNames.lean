/-
The names that a function literal binds, told by where they stand in it.

The conversion collects these names in one search through parameters and body.  Here they are
found by the ways that lead to them: through a pattern to the names that it introduces, and through
a body to the declarations in it.  The search enters expressions too, but a body has declarations
there only inside of other functions and of classes, where the search does not go.

* `Tree.Reaches`: a tree is reached from another one through parts in admitted places.
* `Tree.iff_exists_reaches`: what a search through admitted places finds stands at the end of a way.
* `Tree.Introduces`, `Tree.Declares`: the names that a pattern introduces, and those that a
  declaration declares.
* `Label.opensTo`, `Label.nestsAt`: the places that are searched for declarations, and those in
  which statements have statements, clauses and declarators.
* `Tree.declaresInPlace`: what may declare names stands in places of the latter kind only.
* `Shell.bindsExactly`: the names that a function literal binds.
-/
import ContextHoist.Proofs.Locals
import ContextHoist.Proofs.References

namespace ContextHoist

namespace Tree

/-! ### Ways through a tree -/

/-- The second tree is the first one, or it is reached from it by going on to a part again and
again, each time to one whose place in its phrase is admitted. -/
inductive Reaches (admits : Label → Nat → Bool) : Tree → Tree → Prop
  | self (t : Tree) : Reaches admits t t
  | part {l : Label} {s : Span} {ts : List Tree} {i : Nat} {t u : Tree} (hi : ts[i]? = some t)
      (hl : admits l i = true) (h : Reaches admits t u) : Reaches admits (node l s ts) u

lemma Reaches.trans {admits : Label → Nat → Bool} {t u v : Tree} (h₁ : t.Reaches admits u)
    (h₂ : u.Reaches admits v) : t.Reaches admits v := by
  induction h₁ with
  | self t => exact h₂
  | part hi hl _ ih => exact .part hi hl (ih h₂)

lemma Reaches.mono {admits admits' : Label → Nat → Bool}
    (hle : ∀ l i, admits l i = true → admits' l i = true) {t u : Tree} (h : t.Reaches admits u) :
    t.Reaches admits' u := by
  induction h with
  | self t => exact .self t
  | part hi hl _ ih => exact .part hi (hle _ _ hl) ih

/-- If a phrase is found by itself or through a part in an admitted place, then a phrase is found
exactly if something that is reached from it is found by itself. -/
lemma iff_exists_reaches {admits : Label → Nat → Bool} (found here : Tree → Prop)
    (h : ∀ l s ts, found (node l s ts) ↔ here (node l s ts) ∨
      ∃ i t, ts[i]? = some t ∧ admits l i = true ∧ found t) (t : Tree) :
    found t ↔ ∃ u, t.Reaches admits u ∧ here u := by
  constructor
  · induction t using Tree.induct with
    | node l s ts ih =>
      intro hfound
      rcases (h l s ts).1 hfound with hhere | ⟨i, t, hi, hl, hfound⟩
      · exact ⟨_, .self _, hhere⟩
      · obtain ⟨u, hu, hhere⟩ := ih t (List.mem_of_getElem? hi) hfound
        exact ⟨u, .part hi hl hu, hhere⟩
  · rintro ⟨u, hu, hhere⟩
    induction hu with
    | self t =>
      obtain ⟨l, s, ts⟩ := t
      exact (h l s ts).2 (.inl hhere)
    | part hi hl _ ih => exact (h _ _ _).2 (.inr ⟨_, _, hi, hl, ih hhere⟩)

/-- What is collected from the parts in admitted places is collected from one of them. -/
lemma mem_flatMap_iff_of_places {ts us : List Tree} {admits : Nat → Bool}
    (h : ∀ t, t ∈ us ↔ ∃ i, ts[i]? = some t ∧ admits i = true) (f : Tree → List String)
    (n : String) : n ∈ us.flatMap f ↔ ∃ i t, ts[i]? = some t ∧ admits i = true ∧ n ∈ f t := by
  rw [List.mem_flatMap]
  constructor
  · rintro ⟨t, ht, hn⟩
    obtain ⟨i, hi, hadmits⟩ := (h t).1 ht
    exact ⟨i, t, hi, hadmits, hn⟩
  · rintro ⟨i, t, hi, hadmits, hn⟩
    exact ⟨t, (h t).2 ⟨i, hi, hadmits⟩, hn⟩

end Tree

/-! ### Patterns -/

namespace Label

/-- The places in a pattern that hold patterns.  The places of keys, of default values, of types and
of decorators are none of them. -/
def hasPatternAt (l : Label) (i : Nat) : Bool :=
  match l with
  | group | arrayPattern | objectPattern => true
  | restPattern | defaultPattern | shorthandPattern | annotated _ => i == 0
  | keyValuePattern | parameter => i == 1
  | _ => false

lemma mem_subpatterns_iff (l : Label) (ts : List Tree) (p : Tree) :
    (∃ ps, l.subpatterns? ts = some ps ∧ p ∈ ps) ↔
      ∃ i, ts[i]? = some p ∧ l.hasPatternAt i = true := by
  fun_cases subpatterns? ts l
  case case1 | case2 | case3 => simp [hasPatternAt, List.mem_iff_getElem?]
  case case4 | case5 | case6 | case7 => simp [hasPatternAt, List.head?_eq_getElem?]
  case case8 | case9 => simp [hasPatternAt]
  case case10 => simp [hasPatternAt]

end Label

namespace Tree

/-- The pattern introduces the name: it is that name, or a pattern in it is. -/
def Introduces (p : Tree) (n : String) : Prop :=
  ∃ u, p.Reaches Label.hasPatternAt u ∧ u.label = .name n

lemma asName?_eq_some_iff (t : Tree) (n : String) : t.asName? = some n ↔ t.label = .name n := by
  obtain ⟨l, s, ts⟩ := t
  unfold asName?
  split
  · next heq =>
    obtain ⟨rfl, rfl, rfl⟩ := Tree.node.inj heq
    simp
  · next hname =>
    simp only [label_node, reduceCtorEq, false_iff]
    rintro rfl
    exact hname n s ts rfl

lemma mem_patternNames_node (l : Label) (s : Span) (ts : List Tree) (n : String) :
    n ∈ (node l s ts).patternNames ↔ l = .name n ∨
      ∃ i t, ts[i]? = some t ∧ l.hasPatternAt i = true ∧ n ∈ t.patternNames := by
  have hparts := l.mem_subpatterns_iff ts
  rw [patternNames_node]
  cases hsub : l.subpatterns? ts with
  | none =>
    have hnowhere : ¬ ∃ i t, ts[i]? = some t ∧ l.hasPatternAt i = true ∧ n ∈ t.patternNames := by
      rintro ⟨i, t, hi, hl, -⟩
      obtain ⟨ps, hps, -⟩ := (hparts t).2 ⟨i, hi, hl⟩
      exact absurd (hsub.symm.trans hps) (by simp)
    rw [or_iff_left hnowhere, Option.mem_toList, asName?_eq_some_iff, label_node]
  | some ps =>
    have hname : l ≠ .name n := by
      rintro rfl
      exact absurd hsub (by simp [Label.subpatterns?])
    have hplaces : ∀ p, p ∈ ps ↔ ∃ i, ts[i]? = some p ∧ l.hasPatternAt i = true := by
      simpa [hsub] using hparts
    rw [or_iff_right hname]
    exact mem_flatMap_iff_of_places hplaces patternNames n

lemma mem_patternNames_iff (p : Tree) (n : String) : n ∈ p.patternNames ↔ p.Introduces n :=
  iff_exists_reaches (n ∈ ·.patternNames) (·.label = .name n)
    (fun l s ts => mem_patternNames_node l s ts n) p

end Tree

/-! ### Declarations -/

namespace Label

/-- Declarators, clauses that catch, and declarations of functions and of classes.  What they
declare, a pattern or a name, comes first. -/
def isDeclaration : Label → Bool
  | declarator _ | catchClause | functionDecl _ | classDecl _ => true
  | _ => false

/-- Specifiers of imports, which are at home at the top of a file.  The local name comes first. -/
def isImport : Label → Bool
  | importDefault | importNamespace | importNamed _ => true
  | _ => false

/-- The places that are searched for declarations.  Those in other functions, in classes and in the
accessors of object literals are not, and neither are those of what a declaration declares. -/
def opensTo (l : Label) (i : Nat) : Bool :=
  match l with
  | function _ _ | arrow _ | functionDecl _ | classBody _ | classDecl _ | getter | setter => false
  | importDefault | importNamespace | importNamed _ => false
  | declarator _ | catchClause => i != 0
  | _ => true

lemma mem_declaring_fst_iff (l : Label) (ts : List Tree) (p : Tree) :
    p ∈ (l.declaring ts).1 ↔ (l.isDeclaration = true ∨ l.isImport = true) ∧ ts.head? = some p := by
  fun_cases declaring ts l
  case case8 => simp_all [isDeclaration, isImport]
  all_goals cases ts <;> simp [isDeclaration, isImport, eq_comm]

lemma mem_declaring_snd_iff (l : Label) (ts : List Tree) (t : Tree) :
    t ∈ (l.declaring ts).2 ↔ ∃ i, ts[i]? = some t ∧ l.opensTo i = true := by
  fun_cases declaring ts l
  case case1 | case2 =>
    rw [← Nat.or_exists_add_one]
    simp [opensTo, List.mem_iff_getElem?]
  case case8 =>
    have hopen : ∀ i, l.opensTo i = !l.isBoundary := by
      intro i
      unfold opensTo isBoundary
      split <;> simp_all
    cases hl : l.isBoundary <;> simp [hopen, hl, List.mem_iff_getElem?]
  all_goals simp [opensTo]

end Label

namespace Tree

/-- The first part of the phrase introduces the name. -/
def FirstIntroduces (t : Tree) (n : String) : Prop :=
  ∃ p, t.parts.head? = some p ∧ p.Introduces n

/-- The phrase is a declaration of the name. -/
def Declares (t : Tree) (n : String) : Prop :=
  t.label.isDeclaration = true ∧ t.FirstIntroduces n

/-- The phrase is an import under the name. -/
def Imports (t : Tree) (n : String) : Prop :=
  t.label.isImport = true ∧ t.FirstIntroduces n

lemma mem_declared_node (l : Label) (s : Span) (ts : List Tree) (n : String) :
    n ∈ (node l s ts).declared ↔ ((node l s ts).Declares n ∨ (node l s ts).Imports n) ∨
      ∃ i t, ts[i]? = some t ∧ l.opensTo i = true ∧ n ∈ t.declared := by
  have hfirst : n ∈ (l.declaring ts).1.flatMap patternNames ↔
      (node l s ts).Declares n ∨ (node l s ts).Imports n := by
    simp only [List.mem_flatMap, l.mem_declaring_fst_iff, mem_patternNames_iff, Declares, Imports,
      FirstIntroduces, label_node, parts_node, ← or_and_right, and_assoc, exists_and_left]
  have hparts := mem_flatMap_iff_of_places (l.mem_declaring_snd_iff ts) declared n
  rw [declared_node, List.mem_append, hfirst, hparts]

lemma mem_declared_iff (t : Tree) (n : String) :
    n ∈ t.declared ↔ ∃ d, t.Reaches Label.opensTo d ∧ (d.Declares n ∨ d.Imports n) :=
  iff_exists_reaches (n ∈ ·.declared) (fun d => d.Declares n ∨ d.Imports n)
    (fun l s ts => mem_declared_node l s ts n) t

end Tree

/-! ### Statements -/

namespace Label

/-- The places in which statements have statements, clauses and declarators: in blocks, in
conditionals, in loops and their heads, in switches and their cases, behind labels, in statements
that try, their clauses that catch and their final blocks, and in `with` statements. -/
def nestsAt (l : Label) (i : Nat) : Bool :=
  match l with
  | block | varDecl _ _ | tryStmt => true
  | switchStmt | caseClause => i != 0
  | withStmt | labeled | whileStmt | doWhileStmt | catchClause => i == 1
  | ifStmt => i == 1 || i == 2
  | forStmt => i == 0 || i == 3
  | forInStmt | forOfStmt _ => i == 0 || i == 2
  | _ => false

/-- The phrases that declare names, and those that have declarations in them as statements do. -/
def mayDeclare : Label → Bool
  | varDecl _ _ => true
  | l => l.isDeclaration || l.holdsStatements

lemma mayDeclare_of_isDeclaration {l : Label} (h : l.isDeclaration = true) :
    l.mayDeclare = true := by
  unfold mayDeclare
  split <;> simp [h]

lemma opensTo_of_nestsAt {l : Label} {i : Nat} (h : l.nestsAt i = true) : l.opensTo i = true := by
  unfold nestsAt at h
  split at h <;> simp_all [opensTo]

lemma mayDeclare_of_nestsAt {l : Label} {i : Nat} (h : l.nestsAt i = true) :
    l.mayDeclare = true := by
  unfold nestsAt at h
  split at h <;> simp_all [mayDeclare, isDeclaration, holdsStatements]

end Label

namespace Tree

mutual

/-- Whether in the searched places of a phrase what may declare names stands only where a statement
has it, and nothing is imported.  So it is in the body of a function that was read from a file
(`SourceFile.declaresInPlace_of_parse`), where expressions have no statements in them but those of
other functions and of classes, unless there are declarations in a namespace. -/
def declaresInPlace : Tree → Bool
  | node l _ ts => !l.isImport && declareInPlace l 0 ts

/-- The same for the parts of a phrase, the first of which stands in the given place. -/
def declareInPlace (l : Label) (i : Nat) : List Tree → Bool
  | [] => true
  | t :: ts =>
    (!l.opensTo i || (l.nestsAt i || !t.label.mayDeclare) && t.declaresInPlace) &&
      declareInPlace l (i + 1) ts

end

lemma declareInPlace_get {l : Label} {j : Nat} {ts : List Tree}
    (h : declareInPlace l j ts = true) {i : Nat} {t : Tree} (hi : ts[i]? = some t)
    (hl : l.opensTo (j + i) = true) :
    (t.label.mayDeclare = true → l.nestsAt (j + i) = true) ∧ t.declaresInPlace = true := by
  induction ts generalizing i j with
  | nil => simp at hi
  | cons u us ih =>
    rw [declareInPlace, Bool.and_eq_true] at h
    obtain ⟨hhead, htail⟩ := h
    cases i with
    | zero =>
      obtain rfl : u = t := by simpa using hi
      rw [Nat.add_zero] at hl ⊢
      simp only [hl, Bool.not_true, Bool.false_or, Bool.and_eq_true, Bool.or_eq_true,
        Bool.not_eq_true'] at hhead
      refine ⟨fun hmay => hhead.1.resolve_right ?_, hhead.2⟩
      simp [hmay]
    | succ i =>
      rw [← Nat.add_assoc, Nat.add_right_comm] at hl ⊢
      exact ih htail (by simpa using hi) hl

lemma declaresInPlace_part {l : Label} {s : Span} {ts : List Tree}
    (h : (node l s ts).declaresInPlace = true) {i : Nat} {t : Tree} (hi : ts[i]? = some t)
    (hl : l.opensTo i = true) :
    (t.label.mayDeclare = true → l.nestsAt i = true) ∧ t.declaresInPlace = true := by
  rw [declaresInPlace, Bool.and_eq_true] at h
  have hpart := declareInPlace_get h.2 hi
  rw [Nat.zero_add] at hpart
  exact hpart hl

/-- Where declarations are in place, the ways to them lead through statements. -/
lemma Reaches.nests {t d : Tree} (h : t.Reaches Label.opensTo d) (ht : t.declaresInPlace = true)
    (hd : d.label.isDeclaration = true) : t.Reaches Label.nestsAt d ∧ t.label.mayDeclare = true := by
  induction h with
  | self t => exact ⟨.self t, Label.mayDeclare_of_isDeclaration hd⟩
  | part hi hl _ ih =>
    -- the next phrase on the way may declare names, so it stands where a statement has it
    obtain ⟨hplace, hpart⟩ := declaresInPlace_part ht hi hl
    obtain ⟨hway, hmay⟩ := ih hpart hd
    have hnests := hplace hmay
    exact ⟨.part hi hnests hway, Label.mayDeclare_of_nestsAt hnests⟩

lemma Reaches.isImport_eq_false {t d : Tree} (h : t.Reaches Label.opensTo d)
    (ht : t.declaresInPlace = true) : d.label.isImport = false := by
  induction h with
  | self t =>
    obtain ⟨l, s, ts⟩ := t
    rw [declaresInPlace, Bool.and_eq_true] at ht
    simpa using ht.1
  | part hi hl _ ih => exact ih (declaresInPlace_part ht hi hl).2

/-- Where declarations are in place, the declarations in statements are all there are. -/
lemma mem_declared_iff_nests {t : Tree} (ht : t.declaresInPlace = true) (n : String) :
    n ∈ t.declared ↔ ∃ d, t.Reaches Label.nestsAt d ∧ d.Declares n := by
  rw [mem_declared_iff]
  constructor
  · rintro ⟨d, hway, hd | hd⟩
    · exact ⟨d, (hway.nests ht hd.1).1, hd⟩
    · exact absurd hd.1 (by simp [hway.isImport_eq_false ht])
  · rintro ⟨d, hway, hd⟩
    exact ⟨d, hway.mono fun _ _ => Label.opensTo_of_nestsAt, .inl hd⟩

end Tree

/-! ### Function literals -/

/-- The places of keys and of default values in patterns.  A shorthand has no key besides its
name. -/
def Label.isKeyOrDefaultAt (l : Label) (i : Nat) : Bool :=
  match l with
  | keyValuePattern => i == 0
  | defaultPattern | shorthandPattern => i == 1
  | _ => false

namespace Tree

/-- The name stands somewhere in the phrase, and not in a key or in a default value of a pattern. -/
def HasNameOutsideKeys (t : Tree) (n : String) : Prop :=
  ∃ u, t.Reaches (fun l i => !l.isKeyOrDefaultAt i) u ∧ u.label = .name n

lemma HasNameOutsideKeys.part {l : Label} {s : Span} {ts : List Tree} {i : Nat} {t : Tree}
    {n : String} (h : t.HasNameOutsideKeys n) (hi : ts[i]? = some t)
    (hl : l.isKeyOrDefaultAt i = false) : (node l s ts).HasNameOutsideKeys n := by
  obtain ⟨u, hu, hn⟩ := h
  exact ⟨u, .part hi (by simp [hl]) hu, hn⟩

lemma Introduces.hasNameOutsideKeys {p : Tree} {n : String} (h : p.Introduces n) :
    p.HasNameOutsideKeys n := by
  obtain ⟨u, hu, hn⟩ := h
  refine ⟨u, hu.mono fun l i hl => ?_, hn⟩
  unfold Label.hasPatternAt at hl
  split at hl <;> simp_all [Label.isKeyOrDefaultAt]

lemma Declares.hasNameOutsideKeys {d : Tree} {n : String} (h : d.Declares n) :
    d.HasNameOutsideKeys n := by
  obtain ⟨l, s, ts⟩ := d
  obtain ⟨hlabel, p, hp, hn⟩ := h
  refine hn.hasNameOutsideKeys.part (i := 0) (by simpa [List.head?_eq_getElem?] using hp) ?_
  rw [label_node] at hlabel
  unfold Label.isDeclaration at hlabel
  split at hlabel <;> simp_all [Label.isKeyOrDefaultAt]

lemma Reaches.hasNameOutsideKeys {t d : Tree} {n : String} (h : t.Reaches Label.nestsAt d)
    (hd : d.HasNameOutsideKeys n) : t.HasNameOutsideKeys n := by
  obtain ⟨u, hu, hn⟩ := hd
  refine ⟨u, (h.mono fun l i hl => ?_).trans hu, hn⟩
  unfold Label.nestsAt at hl
  split at hl <;> simp_all [Label.isKeyOrDefaultAt]

end Tree

namespace Shell

/-- The name of a function expression, or a part that is not there. -/
def self : Shell → Tree
  | function _ self _ _ _ _ _ _ => self
  | arrow .. => .absent

lemma mem_bindings_literal (k : Shell) (params body : Tree) (n : String) :
    n ∈ (k.literal params body).bindings ↔
      k.self.Introduces n ∨ params.Introduces n ∨ n ∈ body.declared := by
  simp only [← Tree.mem_patternNames_iff]
  cases k with
  | function => simp [literal, Tree.bindings, self]
  | arrow => simp [literal, Tree.bindings, self, Tree.patternNames]

lemma hasNameOutsideKeys_literal {k : Shell} {params body : Tree} {n : String}
    (h : k.self.HasNameOutsideKeys n ∨ params.HasNameOutsideKeys n ∨ body.HasNameOutsideKeys n) :
    (k.literal params body).HasNameOutsideKeys n := by
  cases k with
  | function s self isAsync isGenerator fs decorators typeParams result =>
    rcases h with h | h | h
    · exact h.part (i := 0) rfl rfl
    · exact (h.part (i := 0) rfl rfl).part (i := 1) rfl rfl
    · exact (h.part (i := 2) rfl rfl).part (i := 1) rfl rfl
  | arrow s isAsync typeParams result =>
    rcases h with ⟨u, hu, hn⟩ | h | h
    · -- an arrow function has no name of its own
      cases hu with
      | self => exact absurd hn (by simp [self])
      | part hi => simp at hi
    · exact h.part (i := 0) rfl rfl
    · exact h.part (i := 1) rfl rfl

/-- A function literal binds its own name, the names that its parameters introduce, and those that
are declared in its body outside of phrases with a scope of their own.  If the declarations in the
body are in place, then they are those at any depth of statements; and then a bound name stands
somewhere outside of the keys and the default values of patterns. -/
theorem bindsExactly (k : Shell) (params body : Tree) (n : String) :
    (n ∈ (k.literal params body).bindings ↔ k.self.Introduces n ∨ params.Introduces n ∨
      ∃ d, body.Reaches Label.opensTo d ∧ (d.Declares n ∨ d.Imports n)) ∧
    (body.declaresInPlace = true →
      (n ∈ (k.literal params body).bindings ↔ k.self.Introduces n ∨ params.Introduces n ∨
        ∃ d, body.Reaches Label.nestsAt d ∧ d.Declares n) ∧
      (n ∈ (k.literal params body).bindings →
        (k.literal params body).HasNameOutsideKeys n)) := by
  refine ⟨?_, fun hplace => ?_⟩
  · rw [mem_bindings_literal, Tree.mem_declared_iff]
  · rw [mem_bindings_literal, Tree.mem_declared_iff_nests hplace]
    refine ⟨Iff.rfl, fun h => hasNameOutsideKeys_literal ?_⟩
    rcases h with h | h | ⟨d, hway, hd⟩
    · exact .inl h.hasNameOutsideKeys
    · exact .inr (.inl h.hasNameOutsideKeys)
    · exact .inr (.inr (hway.hasNameOutsideKeys hd.hasNameOutsideKeys))

/-- The function `function outer({ id: first = fallback }) { if (first) { let second; }
try {} catch (error) { for (let item of first) {} } function nested() { let deeper; } }`. -/
theorem bindsExactly_nested :
    let k : Shell := .function .nowhere (.name "outer" .nowhere) false false .nowhere (.group [])
      .absent .absent
    let params := Tree.group [.node .parameter .nowhere [.group [], .node .objectPattern .nowhere
      [.node .keyValuePattern .nowhere [.key "id" .nowhere, .node .defaultPattern .nowhere
        [.name "first" .nowhere, .name "fallback" .nowhere]]]]]
    let body := Tree.node .block .nowhere
      [.node .ifStmt .nowhere [.name "first" .nowhere,
        .node .block .nowhere [.letDeclaration "second"], .absent],
      .node .tryStmt .nowhere [.node .block .nowhere [],
        .node .catchClause .nowhere [.name "error" .nowhere, .node .block .nowhere
          [.node (.forOfStmt false) .nowhere [.letDeclaration "item", .name "first" .nowhere,
            .node .block .nowhere []]]], .absent],
      .node (.functionDecl false) .nowhere [.name "nested" .nowhere,
        .node (.function false false) .nowhere [.group [], .group [],
          .node .block .nowhere [.letDeclaration "deeper"], .absent, .absent]]]
    body.declaresInPlace = true ∧
      ∀ n, n ∈ ["outer", "first", "second", "error", "item", "nested"] ↔
        k.self.Introduces n ∨ params.Introduces n ∨
          ∃ d, body.Reaches Label.nestsAt d ∧ d.Declares n := by
  intro k params body
  have hplace : body.declaresInPlace = true := by decide
  have hbindings : (k.literal params body).bindings =
      ["outer", "first", "second", "error", "item", "nested"] := by decide
  refine ⟨hplace, fun n => ?_⟩
  rw [← hbindings]
  exact ((bindsExactly k params body n).2 hplace).1

end Shell

end ContextHoist
