/-
References, and the scopes of the language that decide what they refer to.

The conversion counts every declaration for the innermost function around it.  The language has
finer scopes: blocks, loops, clauses that catch, and the names of function and class expressions
bind names of their own.  Whether a reference leads out of a phrase is a question about the
latter.

* `Tree.varNames`, `Tree.lexicalNames`: what a statement declares for the function and for the
  block around it.
* `Tree.boundNames`: the names that a phrase binds for its parts.
* `Surroundings`: the names in scope at a phrase.
* `Tree.references`, `Tree.mentions`: the names and the accesses of a phrase in order, with which of
  the names lead out and without.
* `Tree.free`: the references of a phrase that lead out of it.
* `Tree.free_inject`: what becomes of them when variables are declared in a function literal.
-/
import ContextHoist.Proofs.Deletion

namespace ContextHoist

/-- The phrases that have statements as parts and leave the variables of `var` in them to the
function around. -/
def Label.holdsStatements : Label → Bool
  | block | withStmt | labeled | ifStmt | switchStmt | caseClause | tryStmt | catchClause
  | whileStmt | doWhileStmt | forStmt | forInStmt | forOfStmt _ => true
  | _ => false

namespace Tree

/-! ### Scopes -/

mutual

/-- The variables that a statement declares with `var`. -/
def varNames : Tree → List String
  | node (.varDecl .varKind _) _ ts => declaredAll ts
  | node l _ ts => if l.holdsStatements then varNamesAll ts else []

/-- The variables that some statements declare with `var`. -/
def varNamesAll : List Tree → List String
  | [] => []
  | t :: ts => t.varNames ++ varNamesAll ts

end

/-- The names that a statement declares for the block in which it stands. -/
def lexicalNames : Tree → List String
  | node (.varDecl .varKind _) _ _ => []
  | node (.varDecl _ _) _ ts => declaredAll ts
  | node (.functionDecl _) _ (x :: _) => x.patternNames
  | node (.classDecl _) _ (x :: _) => x.patternNames
  | node (.enumDecl _ _) _ (x :: _) => x.patternNames
  | _ => []

/-- A statement without its labels. -/
def unlabeled : Tree → Tree
  | node .labeled _ [_, t] => t.unlabeled
  | t => t

/-- The variable of a parameter that also declares a field. -/
def fieldNames : Tree → List String
  | node (.parameterProperty _) _ [_, p] => p.patternNames
  | _ => []

/-- The names that a phrase binds for its parts.  Functions other than arrow functions bind
`arguments`.  The variables of `var` are bound by the outermost block around them in a function,
which is its body; that inner blocks are said to bind them as well makes no difference there.  A
function that is declared behind a label counts for the block around it, as it does without the
label, and the values of an enumeration see its members. -/
def boundNames : Tree → List String
  | node .functionExpr _ (self :: _) => self.patternNames
  | node .classExpr _ (self :: _) => self.patternNames
  | node (.function _ _) _ (params :: _) => "arguments" :: params.patternNames
  | node (.arrow _) _ (params :: _) => params.patternNames
  | node .getter _ _ => ["arguments"]
  | node .setter _ (_ :: param :: _) => "arguments" :: param.patternNames
  | node (.constructorMember _) _ (_ :: params :: _) =>
    "arguments" :: params.patternNames ++ params.parts.flatMap fieldNames
  | node .block _ ts => ts.flatMap (·.unlabeled.lexicalNames) ++ varNamesAll ts
  | node .switchStmt _ (_ :: cases) =>
    cases.flatMap fun t => t.parts.flatMap (·.unlabeled.lexicalNames)
  | node .forStmt _ (head :: _) => head.lexicalNames
  | node .forInStmt _ (head :: _) => head.lexicalNames
  | node (.forOfStmt _) _ (head :: _) => head.lexicalNames
  | node .catchClause _ (p :: _) => p.patternNames
  | node (.enumDecl _ _) _ (_ :: members) =>
    members.flatMap fun t => (t.parts.take 1).flatMap patternNames
  | _ => []

end Tree

/-- The names in scope at a phrase. -/
structure Surroundings where
  /-- The names that the phrase sees. -/
  seen : List String
  /-- If the phrase is a list of parameters or a class, the names that its decorators see: those
  in scope outside of the function or of the name of the class. -/
  outside : List String

namespace Surroundings

/-- Nothing is in scope. -/
def empty : Surroundings :=
  ⟨[], []⟩

/-- The names in scope at the parts of a phrase.  Most parts see what the phrase binds.  Those that
are evaluated further out do not. -/
def part (around : Surroundings) (t : Tree) (i : Nat) : Surroundings :=
  let inner := t.boundNames ++ around.seen
  match t.label, i with
  -- what is switched on, the keys of members, and the decorators of a method
  | .switchStmt, 0 | .getter, 0 | .setter, 0 | .constructorMember _, 0 | .function _ _, 1 =>
    ⟨around.seen, around.seen⟩
  -- the decorators of a class and of parameters
  | .classBody _, 0 | .parameter, 0 | .parameterProperty _, 0 => ⟨around.outside, around.outside⟩
  | .classExpr, 1 | .function _ _, 0 | .arrow _, 0 | .constructorMember _, 1 =>
    ⟨inner, around.seen⟩
  -- between a parameter and its function stands the group of parameters
  | .group, _ => around
  | _, _ => ⟨inner, inner⟩

end Surroundings

/-! ### References -/

/-- A name, or an access outside of optional chains. -/
inductive Mention where
  | name (x : String)
  | access (p : String)
  deriving DecidableEq, Repr

/-- The name that is mentioned, if it leads out. -/
def Mention.outward? : Mention × Bool → Option String
  | (name x, true) => some x
  | _ => none

namespace Tree

mutual

/-- The names in a phrase in order, and if `own` holds also the accesses outside of phrases with a
scope of their own, each with whether it is a name that no scope in the phrase or around it binds.
The names in scope around the phrase are given.  Labels of statements are not counted.  Names in
types are, as if they were names of variables. -/
def references (own : Bool) (around : Surroundings) : Tree → List (Mention × Bool)
  | node (.name x) _ _ => [(.name x, !around.seen.contains x)]
  | node .labeled _ (_ :: ts) => referencesAll own (fun _ => around) ts
  | node .breakStmt _ _ => []
  | node .continueStmt _ _ => []
  | node l s ts =>
    match (node l s ts).memberAccessed? with
    | some p => if own then [(.access p, false)] else []
    | none => referencesAll (own && !l.isBoundary) (around.part (node l s ts)) ts

/-- The names and accesses in some phrases, each with surroundings of its own. -/
def referencesAll (own : Bool) (around : Nat → Surroundings) : List Tree → List (Mention × Bool)
  | [] => []
  | t :: ts => t.references own (around 0) ++ referencesAll own (fun i => around (i + 1)) ts

end

mutual

/-- The names in a phrase in order, and if `own` holds also the accesses outside of phrases with a
scope of their own. -/
def mentions (own : Bool) : Tree → List Mention
  | node (.name x) _ _ => [.name x]
  | node .labeled _ (_ :: ts) => mentionsAll own ts
  | node .breakStmt _ _ => []
  | node .continueStmt _ _ => []
  | node l s ts =>
    match (node l s ts).memberAccessed? with
    | some p => if own then [.access p] else []
    | none => mentionsAll (own && !l.isBoundary) ts

/-- The names and accesses in some phrases. -/
def mentionsAll (own : Bool) : List Tree → List Mention
  | [] => []
  | t :: ts => t.mentions own ++ mentionsAll own ts

end

/-- The names in a phrase that lead out of it, one for each occurrence, given the names in scope
around the phrase. -/
def freeIn (around : Surroundings) (t : Tree) : List String :=
  (t.references false around).filterMap Mention.outward?

/-- The names in a phrase that no scope in the phrase binds, one for each occurrence: the
references that lead out of the phrase. -/
def free (t : Tree) : List String :=
  t.freeIn .empty

lemma mentionsAll_eq (own : Bool) (ts : List Tree) :
    mentionsAll own ts = ts.flatMap (mentions own) := by
  induction ts with
  | nil => rfl
  | cons t ts ih => rw [mentionsAll, ih, List.flatMap_cons]

/-- Scopes decide which names lead out, not which names there are. -/
lemma map_fst_references (own : Bool) (around : Surroundings) (t : Tree) :
    (t.references own around).map (·.1) = t.mentions own := by
  induction t using Tree.induct generalizing own around with
  | node l s ts ih =>
    have hall : ∀ us, us ⊆ ts → ∀ (own : Bool) (around : Nat → Surroundings),
        (referencesAll own around us).map (·.1) = mentionsAll own us := by
      intro us hus
      induction us with
      | nil => exact fun _ _ => rfl
      | cons u us ihus =>
        obtain ⟨hu, hus⟩ := List.cons_subset.1 hus
        intro own around
        rw [referencesAll, mentionsAll, List.map_append, ih u hu, ihus hus]
    unfold references mentions
    split
    case h_2 =>
      next heq =>
        obtain ⟨rfl, rfl, rfl⟩ := Tree.node.inj heq
        exact hall _ (List.subset_cons_self _ _) _ _
    case h_5 =>
      next heq =>
        obtain ⟨rfl, rfl, rfl⟩ := Tree.node.inj heq
        split
        · split <;> rfl
        · exact hall _ (fun _ h => h) _ _
    all_goals rfl

lemma referencesAll_const (own : Bool) (around : Surroundings) (ts : List Tree) :
    referencesAll own (fun _ => around) ts = ts.flatMap (references own around) := by
  induction ts with
  | nil => rfl
  | cons t ts ih => rw [referencesAll, ih, List.flatMap_cons]

lemma freeIn_block (around : Surroundings) (s : Span) (ts : List Tree) :
    let inner := (node .block s ts).boundNames ++ around.seen
    (node .block s ts).freeIn around = ts.flatMap (freeIn ⟨inner, inner⟩) := by
  intro inner
  have hparts : (node .block s ts).references false around =
      ts.flatMap (references false ⟨inner, inner⟩) := by
    rw [← referencesAll_const]
    rfl
  rw [freeIn, hparts, List.filterMap_flatMap]
  rfl

lemma freeIn_returnStmt (around : Surroundings) (s : Span) (t : Tree) :
    (node .returnStmt s [t]).freeIn around = t.freeIn ⟨around.seen, around.seen⟩ := by
  rw [freeIn, freeIn, references]
  · simp [memberAccessed?, referencesAll, Surroundings.part, boundNames]
  all_goals simp

/-! ### The same names in scope -/

end Tree

/-- Of the names for which the condition holds, the same are in scope. -/
def Surroundings.Agree (P : String → Bool) (around around' : Surroundings) : Prop :=
  ∀ x, P x = true → (x ∈ around.seen ↔ x ∈ around'.seen) ∧
    (x ∈ around.outside ↔ x ∈ around'.outside)

lemma Surroundings.Agree.part {P : String → Bool} {around around' : Surroundings}
    (h : around.Agree P around') (t : Tree) (i : Nat) :
    (around.part t i).Agree P (around'.part t i) := by
  intro x hx
  obtain ⟨hseen, houtside⟩ := h x hx
  unfold Surroundings.part
  split <;> simp [hseen, houtside]

namespace Tree

/-- The names in scope decide which names lead out, each one for itself. -/
lemma freeIn_congr {P : String → Bool} {around around' : Surroundings}
    (h : around.Agree P around') (t : Tree) :
    (t.freeIn around).filter P = (t.freeIn around').filter P := by
  induction t using Tree.induct generalizing around around' with
  | node l s ts ih =>
    have hall : ∀ us, us ⊆ ts → ∀ f g : Nat → Surroundings, (∀ i, (f i).Agree P (g i)) →
        ((referencesAll false f us).filterMap Mention.outward?).filter P =
          ((referencesAll false g us).filterMap Mention.outward?).filter P := by
      intro us hus
      induction us with
      | nil => exact fun _ _ _ => rfl
      | cons u us ihus =>
        obtain ⟨hu, hus⟩ := List.cons_subset.1 hus
        intro f g hfg
        have hhead : (u.freeIn (f 0)).filter P = (u.freeIn (g 0)).filter P := ih u hu (hfg 0)
        rw [referencesAll, referencesAll, List.filterMap_append, List.filterMap_append,
          List.filter_append, List.filter_append, ihus hus _ _ fun i => hfg (i + 1)]
        exact congrArg (· ++ _) hhead
    unfold freeIn references
    split
    · next x _ _ heq =>
      obtain ⟨rfl, rfl, rfl⟩ := Tree.node.inj heq
      cases hx : P x with
      | false =>
        cases around.seen.contains x <;> cases around'.seen.contains x <;>
          simp [Mention.outward?, hx]
      | true => simp [(h x hx).1]
    · next heq =>
      obtain ⟨rfl, rfl, rfl⟩ := Tree.node.inj heq
      exact hall _ (List.subset_cons_self _ _) _ _ fun _ => h
    · rfl
    · rfl
    · next heq =>
      obtain ⟨rfl, rfl, rfl⟩ := Tree.node.inj heq
      split
      · rfl
      · exact hall _ (fun _ h => h) _ _ fun i => h.part _ i

@[simp] lemma varNamesAll_append (ts us : List Tree) :
    varNamesAll (ts ++ us) = varNamesAll ts ++ varNamesAll us := by
  induction ts with
  | nil => rfl
  | cons t ts ih => simp [varNamesAll, ih]

/-! ### Declarations in a body -/

/-- The names of declarations that are in scope do not lead out. -/
lemma freeIn_letDeclarations {names : List String} {around : Surroundings}
    (h : ∀ x ∈ names, x ∈ around.seen) :
    (names.map letDeclaration).flatMap (freeIn around) = [] := by
  rw [List.flatMap_map, List.flatMap_eq_nil_iff]
  intro x hx
  simp [freeIn, references, referencesAll, letDeclaration, name, absent, memberAccessed?,
    Surroundings.part, boundNames, Mention.outward?, h x hx]

lemma varNamesAll_letDeclarations (names : List String) :
    varNamesAll (names.map letDeclaration) = [] := by
  induction names with
  | nil => rfl
  | cons x names ih =>
    simp [varNamesAll, ih, letDeclaration, varNames, Label.holdsStatements]

lemma lexicalNames_letDeclarations (names : List String) :
    (names.map letDeclaration).flatMap (·.unlabeled.lexicalNames) = names := by
  induction names with
  | nil => rfl
  | cons x names ih =>
    have hx : (letDeclaration x).unlabeled.lexicalNames = [x] := rfl
    rw [List.map_cons, List.flatMap_cons, hx, ih, List.singleton_append]

/-- Declarations bind their names besides those that the block binds already. -/
lemma mem_boundNames_splice {x : String} {names : List String} (s : Span) (ts : List Tree) :
    x ∈ boundNames (node .block s (spliceDeclarations ts (names.map letDeclaration))) ↔
      x ∈ names ∨ x ∈ boundNames (node .block s ts) := by
  conv_rhs => rw [← List.takeWhile_append_dropWhile (p := isVariableDeclaration) (l := ts)]
  simp only [boundNames, spliceDeclarations, List.flatMap_append, varNamesAll_append,
    lexicalNames_letDeclarations, varNamesAll_letDeclarations, List.append_nil, List.mem_append]
  tauto

/-- A name that is not declared leads out of a block as often as before. -/
lemma freeIn_block_splice {P : String → Bool} {names : List String}
    (h : ∀ x ∈ names, P x = false) (s : Span) (ts : List Tree) (around : Surroundings) :
    ((node .block s (spliceDeclarations ts (names.map letDeclaration))).freeIn around).filter P =
      ((node .block s ts).freeIn around).filter P := by
  rw [freeIn_block, freeIn_block]
  generalize hinner : boundNames (node .block s (spliceDeclarations ts _)) ++ around.seen = inner
  have hmem : ∀ x, x ∈ inner ↔ x ∈ names ∨ x ∈ boundNames (node .block s ts) ++ around.seen := by
    intro x
    rw [← hinner, List.mem_append, mem_boundNames_splice, List.mem_append, or_assoc]
  -- the new declarations are in scope, so they are no references to anything outside
  have hnew : (names.map letDeclaration).flatMap (freeIn ⟨inner, inner⟩) = [] :=
    freeIn_letDeclarations fun x hx => (hmem x).2 (.inl hx)
  have hagree : Surroundings.Agree P ⟨inner, inner⟩
      ⟨boundNames (node .block s ts) ++ around.seen,
        boundNames (node .block s ts) ++ around.seen⟩ := by
    intro x hx
    have hnot : x ∉ names := fun hmem => by simp [h x hmem] at hx
    simp only [hmem, hnot, false_or, and_self]
  rw [spliceDeclarations, List.flatMap_append, List.flatMap_append, hnew, List.append_nil,
    ← List.flatMap_append, List.takeWhile_append_dropWhile, List.filter_flatMap,
    List.filter_flatMap]
  exact List.flatMap_congr fun t _ => freeIn_congr hagree t

/-- A name that is not declared leads out of a body as often when the body is a block that
returns it behind declarations. -/
lemma freeIn_block_return {P : String → Bool} {names : List String}
    (h : ∀ x ∈ names, P x = false) (body : Tree) (around : Surroundings) :
    ((node .block .nowhere (names.map letDeclaration ++
      [node .returnStmt .nowhere [body]])).freeIn around).filter P =
        (body.freeIn ⟨around.seen, around.seen⟩).filter P := by
  have hbound : boundNames (node .block .nowhere (names.map letDeclaration ++
      [node .returnStmt .nowhere [body]])) = names := by
    simp only [boundNames, List.flatMap_append, varNamesAll_append, lexicalNames_letDeclarations,
      varNamesAll_letDeclarations]
    simp [unlabeled, lexicalNames, varNamesAll, varNames, Label.holdsStatements]
  have hagree : Surroundings.Agree P ⟨names ++ around.seen, names ++ around.seen⟩
      ⟨around.seen, around.seen⟩ := by
    intro x hx
    have hnot : x ∉ names := fun hmem => by simp [h x hmem] at hx
    simp [hnot]
  rw [freeIn_block, hbound, List.flatMap_append, List.flatMap_singleton, freeIn_returnStmt,
    freeIn_letDeclarations (by simp +contextual), List.nil_append]
  exact freeIn_congr hagree body

/-- What leads out of a function literal leads out of its body, or of something else in it. -/
lemma exists_free_literal (k : Shell) (params : Tree) : ∃ seen before after, ∀ body,
    (k.literal params body).free = before ++ body.freeIn ⟨seen, seen⟩ ++ after := by
  cases k with
  | function s self isAsync isGenerator fs decorators typeParams result =>
    let own := self.patternNames
    let inner := "arguments" :: params.patternNames ++ own
    refine ⟨inner, self.freeIn ⟨own, own⟩ ++ params.freeIn ⟨inner, own⟩ ++
      decorators.freeIn ⟨own, own⟩, typeParams.freeIn ⟨inner, inner⟩ ++
        result.freeIn ⟨inner, inner⟩, fun body => ?_⟩
    simp [Shell.literal, free, freeIn, references, referencesAll, memberAccessed?,
      Surroundings.part, Surroundings.empty, boundNames, own, inner]
  | arrow s isAsync typeParams result =>
    let inner := params.patternNames
    refine ⟨inner, params.freeIn ⟨inner, []⟩, typeParams.freeIn ⟨inner, inner⟩ ++
        result.freeIn ⟨inner, inner⟩, fun body => ?_⟩
    simp [Shell.literal, free, freeIn, references, referencesAll, memberAccessed?,
      Surroundings.part, Surroundings.empty, boundNames, inner]

lemma free_literal_congr {P : String → Bool} {body body' : Tree}
    (h : ∀ seen, (body'.freeIn ⟨seen, seen⟩).filter P = (body.freeIn ⟨seen, seen⟩).filter P)
    (k : Shell) (params : Tree) :
    (k.literal params body').free.filter P = (k.literal params body).free.filter P := by
  obtain ⟨seen, before, after, hfree⟩ := exists_free_literal k params
  simp only [hfree, List.filter_append, h]

/-- A name that is not declared leads out of a function literal as often as before. -/
theorem free_inject {P : String → Bool} {names : List String} (h : ∀ x ∈ names, P x = false)
    (k : Shell) (params body : Tree) :
    ((k.literal params body).inject (names.map letDeclaration)).free.filter P =
      (k.literal params body).free.filter P := by
  obtain ⟨l, s, ts⟩ := body
  by_cases hl : l = .block
  · subst hl
    rw [inject_block]
    exact free_literal_congr (fun _ => freeIn_block_splice h s ts _) k params
  · have hlabel : (node l s ts).label ≠ .block := hl
    cases k with
    | function => rw [Shell.literal, inject_function hlabel]
    | arrow s' isAsync typeParams result =>
      by_cases hnames : names = []
      · rw [hnames, List.map_nil, inject_nil]
      · rw [Shell.literal, inject_expression hlabel (by simpa using hnames)]
        have hbody := fun seen => freeIn_block_return h (node l s ts) ⟨seen, seen⟩
        exact free_literal_congr hbody (.arrow s' isAsync typeParams result) params

end Tree

end ContextHoist
