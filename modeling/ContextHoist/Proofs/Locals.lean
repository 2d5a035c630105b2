/-
The variables of a callback make way for those that are written in it.

A variable of a property is written in a callback wherever the property is accessed.  A local
variable of the same name would capture it, so the local variable gets another name, everywhere in
the callback.  Renaming and replacing change what a callback binds only at the leaves of its
patterns, and a leaf is a name: an access is never declared.

* `Tree.boundLeaves`: the phrases that stand where a callback binds names.
* `Tree.bindings_rename`, `Tree.bindings_replaceAccesses`: what becomes of these names.
* `Tree.movedLocals`: the local variables that make way.
* `ContextTree.NamesAfterKeys`: the names that variables can have.
* `localsMakeWay`: what a callback binds in the end, and that no variable is captured.
-/
import ContextHoist.Proofs.Deletion
import ContextHoist.Proofs.Redeclaration
import ContextHoist.Proofs.Variables

namespace ContextHoist

namespace Tree

/-! ### Leaves of patterns -/

mutual

/-- The phrases that stand in a pattern where it introduces variables. -/
def patternLeaves : Tree → List Tree
  | node .group _ ts => patternLeavesAll ts
  | node .arrayPattern _ ts => patternLeavesAll ts
  | node .objectPattern _ ts => patternLeavesAll ts
  | node .restPattern _ (p :: _) => p.patternLeaves
  | node .defaultPattern _ (p :: _) => p.patternLeaves
  | node .shorthandPattern _ (p :: _) => p.patternLeaves
  | node (.annotated _) _ (p :: _) => p.patternLeaves
  | node .keyValuePattern _ (_ :: p :: _) => p.patternLeaves
  | node .parameter _ (_ :: p :: _) => p.patternLeaves
  | t => [t]

/-- The phrases that stand in some patterns where these introduce variables. -/
def patternLeavesAll : List Tree → List Tree
  | [] => []
  | t :: ts => t.patternLeaves ++ patternLeavesAll ts

end

mutual

/-- The phrases that stand in the declarations of a phrase where these introduce names.  Phrases
with a scope of their own are not entered. -/
def declaredLeaves : Tree → List Tree
  | node (.declarator _) _ (p :: rest) => p.patternLeaves ++ declaredLeavesAll rest
  | node .catchClause _ (p :: rest) => p.patternLeaves ++ declaredLeavesAll rest
  | node (.functionDecl _) _ (x :: _) => x.patternLeaves
  | node (.classDecl _) _ (x :: _) => x.patternLeaves
  | node .importDefault _ (x :: _) => x.patternLeaves
  | node .importNamespace _ (x :: _) => x.patternLeaves
  | node (.importNamed _) _ (x :: _) => x.patternLeaves
  | node l _ ts => if l.isBoundary then [] else declaredLeavesAll ts

/-- The phrases that stand in the declarations of some phrases where these introduce names. -/
def declaredLeavesAll : List Tree → List Tree
  | [] => []
  | t :: ts => t.declaredLeaves ++ declaredLeavesAll ts

end

/-- The phrases that stand where a function literal binds names. -/
def boundLeaves : Tree → List Tree
  | functionExpr _ self _ _ _ params _ body _ _ =>
    self.patternLeaves ++ params.patternLeaves ++ body.declaredLeaves
  | arrow _ _ params body _ _ => params.patternLeaves ++ body.declaredLeaves
  | _ => []

lemma patternLeavesAll_eq (ts : List Tree) : patternLeavesAll ts = ts.flatMap patternLeaves := by
  induction ts with
  | nil => rfl
  | cons t ts ih => rw [patternLeavesAll, ih, List.flatMap_cons]

lemma patternNamesAll_eq (ts : List Tree) : patternNamesAll ts = ts.flatMap patternNames := by
  induction ts with
  | nil => rfl
  | cons t ts ih => rw [patternNamesAll, ih, List.flatMap_cons]

lemma declaredLeavesAll_eq (ts : List Tree) :
    declaredLeavesAll ts = ts.flatMap declaredLeaves := by
  induction ts with
  | nil => rfl
  | cons t ts ih => rw [declaredLeavesAll, ih, List.flatMap_cons]

lemma declaredAll_eq (ts : List Tree) : declaredAll ts = ts.flatMap declared := by
  induction ts with
  | nil => rfl
  | cons t ts ih => rw [declaredAll, ih, List.flatMap_cons]

end Tree

/-! ### One level of a pattern -/

namespace Label

/-- The patterns that a pattern with the given parts consists of; a leaf consists of none. -/
def subpatterns? (ts : List Tree) : Label → Option (List Tree)
  | group | arrayPattern | objectPattern => some ts
  | restPattern | defaultPattern | shorthandPattern | annotated _ => ts.head?.map ([·])
  | keyValuePattern | parameter => ts[1]?.map ([·])
  | _ => none

lemma mem_of_subpatterns? {l : Label} {ts ps : List Tree} (h : l.subpatterns? ts = some ps)
    {p : Tree} (hp : p ∈ ps) : p ∈ ts := by
  unfold subpatterns? at h
  split at h
  case h_10 => exact absurd h (by simp)
  case h_1 | h_2 | h_3 => exact Option.some.inj h ▸ hp
  case h_8 | h_9 =>
    obtain ⟨q, hq, rfl⟩ := Option.map_eq_some_iff.1 h
    exact List.mem_singleton.1 hp ▸ List.mem_of_getElem? hq
  all_goals
    obtain ⟨q, hq, rfl⟩ := Option.map_eq_some_iff.1 h
    exact List.mem_singleton.1 hp ▸ List.mem_of_mem_head? hq

/-- The patterns that a pattern consists of stand in the same places when all parts of the pattern
are changed. -/
lemma subpatterns?_map (f : Tree → Tree) (l : Label) (ts : List Tree) :
    l.subpatterns? (ts.map f) = (l.subpatterns? ts).map (List.map f) := by
  unfold subpatterns?
  split <;> simp [Function.comp_def]

end Label

namespace Tree

lemma patternLeaves_node (l : Label) (s : Span) (ts : List Tree) : (node l s ts).patternLeaves =
    match l.subpatterns? ts with
    | some ps => ps.flatMap patternLeaves
    | none => [node l s ts] := by
  fun_cases Label.subpatterns? ts l
  case case10 =>
    unfold patternLeaves
    split <;> simp_all
  all_goals rcases ts with _ | ⟨p, _ | ⟨q, ts⟩⟩
  all_goals simp [patternLeaves, patternLeavesAll_eq, patternLeavesAll]

lemma patternNames_node (l : Label) (s : Span) (ts : List Tree) : (node l s ts).patternNames =
    match l.subpatterns? ts with
    | some ps => ps.flatMap patternNames
    | none => (node l s ts).asName?.toList := by
  fun_cases Label.subpatterns? ts l
  case case10 =>
    unfold patternNames asName?
    split <;> simp_all
  all_goals rcases ts with _ | ⟨p, _ | ⟨q, ts⟩⟩
  all_goals simp [patternNames, patternNamesAll_eq, patternNamesAll, asName?]

/-- A pattern introduces the names among its leaves. -/
lemma patternNames_eq (t : Tree) : t.patternNames = t.patternLeaves.filterMap asName? := by
  induction t using Tree.induct with
  | node l s ts ih =>
    rw [patternNames_node, patternLeaves_node]
    cases hsub : l.subpatterns? ts with
    | none => cases hname : (node l s ts).asName? <;> simp [hname]
    | some ps =>
      simp only [List.filterMap_flatMap]
      exact List.flatMap_congr fun p hp => ih p (Label.mem_of_subpatterns? hsub hp)

/-- A function that is applied to all parts of a pattern is applied to its leaves. -/
lemma patternLeaves_map {f : Tree → Tree} {l : Label} {s : Span} {ts : List Tree}
    (hf : f (node l s ts) = node l s (ts.map f))
    (h : ∀ t ∈ ts, (f t).patternLeaves = t.patternLeaves.map f) :
    (node l s (ts.map f)).patternLeaves = (node l s ts).patternLeaves.map f := by
  rw [patternLeaves_node, patternLeaves_node, Label.subpatterns?_map]
  cases hsub : l.subpatterns? ts with
  | none => simp [hf]
  | some ps =>
    simp only [Option.map_some, List.flatMap_map, List.map_flatMap]
    exact List.flatMap_congr fun p hp => h p (Label.mem_of_subpatterns? hsub hp)

end Tree

/-! ### One level of a declaration -/

namespace Label

/-- The patterns that a phrase with the given parts declares, and the parts in which there may be
more declarations. -/
def declaring (ts : List Tree) : Label → List Tree × List Tree
  | declarator _ | catchClause => (ts.take 1, ts.drop 1)
  | functionDecl _ | classDecl _ | importDefault | importNamespace | importNamed _ =>
    (ts.take 1, [])
  | l => ([], if l.isBoundary then [] else ts)

lemma mem_of_mem_declaring {l : Label} {ts : List Tree} {t : Tree}
    (h : t ∈ (l.declaring ts).1 ∨ t ∈ (l.declaring ts).2) : t ∈ ts := by
  unfold declaring at h
  split at h
  case h_1 | h_2 => exact h.elim List.mem_of_mem_take List.mem_of_mem_drop
  case h_8 =>
    split at h
    · simp at h
    · simpa using h
  all_goals exact List.mem_of_mem_take (by simpa using h)

/-- The patterns and the parts stand in the same places when all parts of the phrase are changed. -/
lemma declaring_map (f : Tree → Tree) (l : Label) (ts : List Tree) :
    l.declaring (ts.map f) = ((l.declaring ts).1.map f, (l.declaring ts).2.map f) := by
  unfold declaring
  split
  case h_8 => split <;> simp
  all_goals simp

end Label

namespace Tree

lemma declaredLeaves_node (l : Label) (s : Span) (ts : List Tree) :
    (node l s ts).declaredLeaves = (l.declaring ts).1.flatMap patternLeaves ++
      (l.declaring ts).2.flatMap declaredLeaves := by
  fun_cases Label.declaring ts l
  case case8 =>
    unfold declaredLeaves
    split
    case h_8 =>
      next heq =>
        obtain ⟨rfl, rfl, rfl⟩ := Tree.node.inj heq
        split <;> simp [declaredLeavesAll_eq]
    all_goals simp_all
  all_goals
    cases ts <;> simp [declaredLeaves, declaredLeavesAll_eq, declaredLeavesAll, Label.isBoundary]

lemma declared_node (l : Label) (s : Span) (ts : List Tree) :
    (node l s ts).declared = (l.declaring ts).1.flatMap patternNames ++
      (l.declaring ts).2.flatMap declared := by
  fun_cases Label.declaring ts l
  case case8 =>
    unfold declared
    split
    case h_8 =>
      next heq =>
        obtain ⟨rfl, rfl, rfl⟩ := Tree.node.inj heq
        split <;> simp [declaredAll_eq]
    all_goals simp_all
  all_goals
    cases ts <;> simp [declared, declaredAll_eq, declaredAll, Label.isBoundary]

/-- A phrase declares the names among its leaves. -/
lemma declared_eq (t : Tree) : t.declared = t.declaredLeaves.filterMap asName? := by
  induction t using Tree.induct with
  | node l s ts ih =>
    rw [declared_node, declaredLeaves_node, List.filterMap_append, List.filterMap_flatMap,
      List.filterMap_flatMap]
    congr 1
    · exact List.flatMap_congr fun p _ => p.patternNames_eq
    · exact List.flatMap_congr fun t ht => ih t (Label.mem_of_mem_declaring (.inr ht))

/-- A function that is applied to all parts of a phrase is applied to the leaves of its
declarations. -/
lemma declaredLeaves_map {f : Tree → Tree} {l : Label} (s : Span) {ts : List Tree}
    (hp : ∀ t ∈ ts, (f t).patternLeaves = t.patternLeaves.map f)
    (hd : ∀ t ∈ ts, (f t).declaredLeaves = t.declaredLeaves.map f) :
    (node l s (ts.map f)).declaredLeaves = (node l s ts).declaredLeaves.map f := by
  rw [declaredLeaves_node, declaredLeaves_node, Label.declaring_map, List.map_append,
    List.map_flatMap, List.map_flatMap, List.flatMap_map, List.flatMap_map]
  congr 1
  · exact List.flatMap_congr fun t ht => hp t (Label.mem_of_mem_declaring (.inl ht))
  · exact List.flatMap_congr fun t ht => hd t (Label.mem_of_mem_declaring (.inr ht))

/-- A function literal binds the names among its leaves. -/
lemma bindings_eq (t : Tree) : t.bindings = t.boundLeaves.filterMap asName? := by
  unfold bindings boundLeaves
  split <;> simp [patternNames_eq, declared_eq]

/-! ### Renaming -/

/-- The name that `x` has after `a` is renamed to `b`. -/
def renamed (a b x : String) : String :=
  if x = a then b else x

lemma asName?_rename_eq (a b : String) (t : Tree) :
    (t.rename a b).asName? = t.asName?.map (renamed a b) := by
  unfold rename
  split
  · rfl
  · split <;> rfl
  · split <;> rfl
  · next l s ts hname _ _ =>
    unfold asName?
    split
    · next heq => exact absurd (Tree.node.inj heq).1 (hname _)
    · split
      · next heq => exact absurd (Tree.node.inj heq).1 (hname _)
      · rfl

lemma patternLeaves_withDefault (x : String) (s : Span) (value : Tree) :
    (withDefault (name x s) value).patternLeaves = [name x s] := by
  unfold withDefault
  split <;> simp [patternLeaves]

/-- Variables are renamed at the leaves of a pattern. -/
lemma patternLeaves_rename (a b : String) (t : Tree) :
    (t.rename a b).patternLeaves = t.patternLeaves.map (rename a b) := by
  induction t using Tree.induct with
  | node l s ts ih =>
    unfold rename
    split
    · next heq =>
      obtain ⟨rfl, rfl, rfl⟩ := Tree.node.inj heq
      simp [patternLeaves, rename]
    · next heq =>
      obtain ⟨rfl, rfl, rfl⟩ := Tree.node.inj heq
      split <;> simp [patternLeaves, rename, *]
    · next heq =>
      obtain ⟨rfl, rfl, rfl⟩ := Tree.node.inj heq
      split <;> simp [patternLeaves, patternLeaves_withDefault, rename, renameAll, *]
    · next hname hshort hpattern heq =>
      obtain ⟨rfl, rfl, rfl⟩ := Tree.node.inj heq
      rw [renameAll_eq]
      refine patternLeaves_map ?_ ih
      rw [rename, renameAll_eq] <;> assumption

lemma declaredLeaves_withDefault (x : String) (s : Span) (value : Tree) :
    (withDefault (name x s) value).declaredLeaves = value.declaredLeaves := by
  unfold withDefault
  split <;> simp [declaredLeaves, declaredLeavesAll, Label.isBoundary]

/-- Variables are renamed at the leaves of declarations. -/
lemma declaredLeaves_rename (a b : String) (t : Tree) :
    (t.rename a b).declaredLeaves = t.declaredLeaves.map (rename a b) := by
  induction t using Tree.induct with
  | node l s ts ih =>
    unfold rename
    split
    · next x _ _ heq =>
      obtain ⟨rfl, rfl, rfl⟩ := Tree.node.inj heq
      rw [renameAll_eq]
      exact declaredLeaves_map (l := .name x) s (fun t _ => patternLeaves_rename a b t) ih
    · next heq =>
      obtain ⟨rfl, rfl, rfl⟩ := Tree.node.inj heq
      split <;> simp [declaredLeaves, declaredLeavesAll, Label.isBoundary]
    · next value heq =>
      obtain ⟨rfl, rfl, rfl⟩ := Tree.node.inj heq
      have hvalue := ih value (.tail _ (.head _))
      split <;> simp [declaredLeaves, declaredLeavesAll, Label.isBoundary,
        declaredLeaves_withDefault, hvalue]
    · next heq =>
      obtain ⟨rfl, rfl, rfl⟩ := Tree.node.inj heq
      rw [renameAll_eq]
      exact declaredLeaves_map s (fun t _ => patternLeaves_rename a b t) ih

/-- Variables are renamed at the leaves of what a function literal binds. -/
lemma boundLeaves_rename (a b : String) {t : Tree} (ht : t.isFunctionLiteral = true) :
    (t.rename a b).boundLeaves = t.boundLeaves.map (rename a b) := by
  obtain ⟨k, params, body, rfl⟩ := exists_shell ht
  cases k with
  | function =>
    simp [Shell.literal, rename, renameAll, boundLeaves, patternLeaves_rename,
      declaredLeaves_rename]
  | arrow =>
    simp [Shell.literal, rename, renameAll, boundLeaves, patternLeaves_rename,
      declaredLeaves_rename]

/-- A function literal binds the renamed variable in place of the variable. -/
theorem bindings_rename (a b : String) {t : Tree} (ht : t.isFunctionLiteral = true) :
    (t.rename a b).bindings = t.bindings.map (renamed a b) := by
  have hnames : (asName? ∘ rename a b) = fun t => t.asName?.map (renamed a b) :=
    funext (asName?_rename_eq a b)
  rw [bindings_eq, bindings_eq, boundLeaves_rename a b ht, List.filterMap_map, hnames,
    List.map_filterMap]

lemma isFunctionLiteral_rename (a b : String) {t : Tree} (ht : t.isFunctionLiteral = true) :
    (t.rename a b).isFunctionLiteral = true := by
  obtain ⟨k, params, body, rfl⟩ := exists_shell ht
  obtain ⟨k', hk'⟩ := rename_literal a b k params body
  rw [hk', Shell.isFunctionLiteral_literal]

/-- Renaming makes no member access. -/
lemma label_ne_member_rename {t : Tree} (h : t.label ≠ .member) (a b : String) :
    (t.rename a b).label ≠ .member := by
  unfold rename
  split
  · simp
  · split <;> simp
  · split <;> simp
  · exact h

/-! ### Replacing -/

/-- A phrase is an access with a variable, or it has a scope of its own and stays as it is, or its
parts are changed. -/
lemma replaceOwn_cases (r : Resolution) (l : Label) (s : Span) (ts : List Tree) :
    (∃ p this prop x, l = .member ∧ ts = [thisExpr this, key p prop] ∧ r.lookup p = some x ∧
      (node l s ts).replaceOwn r = name x .nowhere) ∨
    (l.isBoundary = true ∧ (node l s ts).replaceOwn r = node l s ts) ∨
    (l.isBoundary = false ∧ replacement? r (node l s ts) = none ∧
      (node l s ts).replaceOwn r = node l s (ts.map (replaceOwn r))) := by
  cases hx : replacement? r (node l s ts) with
  | some x =>
    have hreplaced : (node l s ts).replaceOwn r = name x .nowhere := by simp [replaceOwn, hx]
    unfold replacement? at hx
    split at hx
    · next heq =>
      obtain ⟨rfl, rfl, rfl⟩ := Tree.node.inj heq
      exact .inl ⟨_, _, _, x, rfl, rfl, hx, hreplaced⟩
    · exact absurd hx (by simp)
  | none =>
    cases hl : l.isBoundary with
    | true => exact .inr (.inl ⟨rfl, by simp [replaceOwn, hx, hl]⟩)
    | false => exact .inr (.inr ⟨rfl, rfl, by simp [replaceOwn, hx, hl, replaceOwnAll_eq]⟩)

/-- What has a scope of its own is no pattern. -/
lemma patternLeaves_of_isBoundary {l : Label} (hl : l.isBoundary = true) (s : Span)
    (ts : List Tree) : (node l s ts).patternLeaves = [node l s ts] := by
  rw [patternLeaves_node]
  unfold Label.isBoundary at hl
  split at hl
  case h_6 => exact absurd hl (by simp)
  all_goals rfl

/-- What has a scope of its own declares nothing around it. -/
lemma declaredLeaves_of_isBoundary {l : Label} (hl : l.isBoundary = true) (s : Span)
    (ts : List Tree) : (node l s ts).declaredLeaves = [] := by
  rw [declaredLeaves_node]
  unfold Label.isBoundary at hl
  split at hl
  case h_6 => exact absurd hl (by simp)
  all_goals rfl

/-- Accesses are replaced at the leaves of a pattern. -/
lemma patternLeaves_replaceOwn (r : Resolution) (t : Tree) :
    (t.replaceOwn r).patternLeaves = t.patternLeaves.map (replaceOwn r) := by
  induction t using Tree.induct with
  | node l s ts ih =>
    rcases replaceOwn_cases r l s ts with ⟨p, this, prop, x, rfl, rfl, hx, hname⟩ |
      ⟨hl, hself⟩ | ⟨-, -, hmap⟩
    · simp [hname, patternLeaves]
    · rw [hself, patternLeaves_of_isBoundary hl, List.map_singleton, hself]
    · rw [hmap]
      exact patternLeaves_map hmap ih

/-- Accesses are replaced at the leaves of declarations. -/
lemma declaredLeaves_replaceOwn (r : Resolution) (t : Tree) :
    (t.replaceOwn r).declaredLeaves = t.declaredLeaves.map (replaceOwn r) := by
  induction t using Tree.induct with
  | node l s ts ih =>
    rcases replaceOwn_cases r l s ts with ⟨p, this, prop, x, rfl, rfl, hx, hname⟩ |
      ⟨hl, hself⟩ | ⟨-, -, hmap⟩
    · simp [hname, declaredLeaves, declaredLeavesAll, Label.isBoundary]
    · rw [hself, declaredLeaves_of_isBoundary hl, List.map_nil]
    · rw [hmap]
      exact declaredLeaves_map s (fun t _ => patternLeaves_replaceOwn r t) ih

/-- What is no member access becomes no name. -/
lemma filterMap_asName?_replaceOwn {r : Resolution} {us : List Tree}
    (h : ∀ u ∈ us, u.label ≠ .member) :
    (us.map (replaceOwn r)).filterMap asName? = us.filterMap asName? := by
  rw [List.filterMap_map]
  refine List.filterMap_congr fun u hu => ?_
  rw [Function.comp_apply, asName?_replaceOwn, memberAccessed?, if_neg (h u hu), Option.bind_none,
    Option.or_none]

/-- Replacing accesses changes nothing that a function literal binds, unless an access stands where
a name is bound. -/
lemma bindings_replaceAccesses (r : Resolution) {t : Tree} (ht : t.isFunctionLiteral = true)
    (h : ∀ u ∈ t.boundLeaves, u.label ≠ .member) : (t.replaceAccesses r).bindings = t.bindings := by
  obtain ⟨k, params, body, rfl⟩ := exists_shell ht
  have hleaves : ∀ u, u ∈ params.patternLeaves ∨ u ∈ body.declaredLeaves → u.label ≠ .member := by
    intro u hu
    refine h u ?_
    cases k <;> simp only [Shell.literal, boundLeaves, List.mem_append] <;> tauto
  have hparams : (params.replaceOwn r).patternNames = params.patternNames := by
    rw [patternNames_eq, patternNames_eq, patternLeaves_replaceOwn,
      filterMap_asName?_replaceOwn fun u hu => hleaves u (.inl hu)]
  have hbody : (body.replaceOwn r).declared = body.declared := by
    rw [declared_eq, declared_eq, declaredLeaves_replaceOwn,
      filterMap_asName?_replaceOwn fun u hu => hleaves u (.inr hu)]
  rw [replaceAccesses_literal]
  cases k <;> simp [Shell.literal, bindings, hparams, hbody]

end Tree

/-! ### Several variables -/

lemma fromSetup_ne {x : String} (h : endsInFromSetup x = false) (y : String) : fromSetup y ≠ x := by
  rintro rfl
  rw [endsInFromSetup_fromSetup] at h
  exact absurd h (by simp)

/-- The name that `x` has after the given variables have made way. -/
def madeWay (locals : List String) (x : String) : String :=
  if x ∈ locals then fromSetup x else x

/-- Variables that make way one after the other do so all at once: no new name is one of a variable
that is still to make way. -/
lemma foldl_renamed {locals : List String} (h : ∀ x ∈ locals, endsInFromSetup x = false)
    (y : String) :
    locals.foldl (fun y x => Tree.renamed x (fromSetup x) y) y = madeWay locals y := by
  induction locals generalizing y with
  | nil => rfl
  | cons x locals ih =>
    rw [List.foldl_cons, ih fun z hz => h z (.tail _ hz)]
    by_cases hy : y = x
    · subst hy
      have hnew : fromSetup y ∉ locals := fun hmem => fromSetup_ne (h _ (.tail _ hmem)) y rfl
      simp [Tree.renamed, madeWay, hnew]
    · simp [Tree.renamed, madeWay, hy]

namespace Tree

/-- What a function literal binds after some of its variables have been renamed, one after the
other. -/
lemma bindings_foldl_rename (locals : List String) {t : Tree} (ht : t.isFunctionLiteral = true)
    (h : ∀ u ∈ t.boundLeaves, u.label ≠ .member) :
    let t' := locals.foldl (fun t x => t.rename x (fromSetup x)) t
    t'.isFunctionLiteral = true ∧ (∀ u ∈ t'.boundLeaves, u.label ≠ .member) ∧
      t'.bindings = t.bindings.map fun y =>
        locals.foldl (fun y x => renamed x (fromSetup x) y) y := by
  induction locals generalizing t with
  | nil => exact ⟨ht, h, (List.map_id' _).symm⟩
  | cons x locals ih =>
    have hleaves : ∀ u ∈ (t.rename x (fromSetup x)).boundLeaves, u.label ≠ .member := by
      rw [boundLeaves_rename _ _ ht]
      intro u hu
      obtain ⟨v, hv, rfl⟩ := List.mem_map.1 hu
      exact label_ne_member_rename (h v hv) _ _
    obtain ⟨hlit, hleaves', hbindings⟩ := ih (isFunctionLiteral_rename _ _ ht) hleaves
    refine ⟨hlit, hleaves', ?_⟩
    rw [List.foldl_cons, hbindings, bindings_rename _ _ ht, List.map_map]
    rfl

/-- What a callback binds after its variables have made way and its accesses are replaced. -/
lemma bindings_resolveCallback {callback : Tree} (hlit : callback.isFunctionLiteral = true)
    (h : ∀ u ∈ callback.boundLeaves, u.label ≠ .member) {scopes : Scopes} {r : Resolution}
    (hplain : ∀ x ∈ clashes scopes r, endsInFromSetup x = false) :
    (resolveCallback scopes r callback).1.bindings =
      callback.bindings.map (madeWay (clashes scopes r)) := by
  obtain ⟨hlit', hleaves, hbindings⟩ := bindings_foldl_rename (clashes scopes r) hlit h
  rw [resolveCallback, bindings_replaceAccesses r hlit' hleaves, hbindings]
  exact List.map_congr_left fun y _ => foldl_renamed hplain y

end Tree

/-! ### Variables that make way -/

lemma Scopes.lookup_enterFunction_eq_current (s : Scopes) (t : Tree) (x : String) :
    (s.enterFunction t).lookup x = .current ↔ x ∈ t.bindings := by
  obtain ⟨outer, hchain, -⟩ := s.chain_enterFunction t
  rw [lookup, hchain]
  by_cases hx : x ∈ t.bindings
  · simp [hx]
  · simp only [List.contains_iff_mem, hx, if_false, iff_false]
    split <;> simp

/-- The variables of a callback that make way: each is called like a property that the callback
accesses, and like the variable in which that property is found. -/
def Tree.movedLocals (contexts : ContextTree) (c : ContextId) (callback : Tree) : List String :=
  callback.contextAccesses.filter fun p =>
    (contexts.find? c p).any (·.name == p) && callback.bindings.contains p

lemma Tree.mem_movedLocals {contexts : ContextTree} {c : ContextId} {callback : Tree} {p : String} :
    p ∈ callback.movedLocals contexts c ↔ p ∈ callback.contextAccesses ∧
      (∃ q, contexts.find? c p = some q ∧ q.name = p) ∧ p ∈ callback.bindings := by
  simp only [movedLocals, List.mem_filter, Bool.and_eq_true, List.contains_iff_mem,
    Option.any_eq_true, beq_iff_eq]

/-- The variables that make way are those that clash with the variables for properties. -/
lemma clashes_usageResolution (contexts : ContextTree) (c : ContextId) (scopes : Scopes)
    (callback : Tree) :
    clashes (scopes.enterFunction callback)
      (usageResolution contexts c callback.contextAccesses) = callback.movedLocals contexts c := by
  have hcurrent : ∀ x, ((scopes.enterFunction callback).lookup x == .current) =
      callback.bindings.contains x := by
    intro x
    rw [Bool.eq_iff_iff, beq_iff_eq, List.contains_iff_mem,
      Scopes.lookup_enterFunction_eq_current]
  rw [clashes, usageResolution, Tree.movedLocals, List.filter_filterMap, List.map_filterMap,
    ← List.filterMap_eq_filter]
  refine List.filterMap_congr fun p _ => ?_
  cases hfound : contexts.find? c p with
  | none => simp [Option.guard, hfound]
  | some q =>
    by_cases hname : p = q.name
    · simp [Option.guard, Option.filter_some, hfound, hcurrent, ← hname]
    · simp [Option.guard, Option.filter_some, hfound, hname, Ne.symm hname]

/-- What is no function literal accesses nothing and stays as it is. -/
lemma resolveCallback_of_not {callback : Tree} (h : callback.isFunctionLiteral = false)
    (contexts : ContextTree) (c : ContextId) (scopes : Scopes) :
    callback.movedLocals contexts c = [] ∧
      (resolveCallback (scopes.enterFunction callback)
        (usageResolution contexts c callback.contextAccesses) callback).1 = callback := by
  have hnone : callback.contextAccesses = [] := by
    rw [Tree.contextAccesses_eq, Tree.contextOccurrences_of_not h]
    rfl
  rw [Tree.movedLocals, hnone]
  exact ⟨rfl, callback.replaceAccesses_nil⟩

/-! ### Names of variables -/

namespace ContextTree

/-- Every variable is called like its property, or it has the name that avoids that of the
property. -/
def NamesAfterKeys (t : ContextTree) : Prop :=
  ∀ c, ∀ q ∈ t.properties c, q.name = q.key ∨ q.name = fromSetup q.key

/-- A record that is found is one of the property, and a context holds it. -/
lemma exists_mem_of_find? {t : ContextTree} {c : ContextId} {key : String} {q : Property}
    (h : t.find? c key = some q) : q.key = key ∧ ∃ d, q ∈ t.properties d := by
  induction c using Nat.strongRecOn with
  | ind c ih =>
    rw [find?_eq_or, Option.or_eq_some_iff] at h
    rcases h with hown | ⟨-, houter⟩
    · exact ⟨by simpa using List.find?_some hown, c, List.mem_of_find?_eq_some hown⟩
    · obtain ⟨d, hd, h⟩ := Option.bind_eq_some_iff.1 houter
      exact ih d (lt_of_outer? hd) h

lemma NamesAfterKeys.find? {t : ContextTree} (ht : t.NamesAfterKeys) {c : ContextId} {p : String}
    {q : Property} (h : t.find? c p = some q) : q.name = p ∨ q.name = fromSetup p := by
  obtain ⟨rfl, d, hd⟩ := exists_mem_of_find? h
  exact ht d q hd

/-- One operation. -/
lemma NamesAfterKeys.apply {t : ContextTree} (ht : t.NamesAfterKeys) (op : Operation) :
    (op.apply t).NamesAfterKeys := by
  intro d q hq
  cases op with
  | root => exact ht d q (properties_add t none d ▸ hq)
  | child parent => exact ht d q (properties_add t (some parent) d ▸ hq)
  | usage c scopes callback => exact ht d q hq
  | setup c scopes callback =>
    have hproperties := properties_setupResolution (scopes.enterFunction callback) c
      (nodup_contextAccesses callback) t d
    rw [Operation.apply, hoistSetup, hproperties, List.mem_append] at hq
    rcases hq with hq | hq
    · exact ht d q hq
    · -- what is new is called after its property
      split at hq
      · obtain ⟨p, -, rfl⟩ := List.mem_map.1 hq
        exact hoistedName_eq_or _ p
      · exact absurd hq List.not_mem_nil

/-- Any number of operations. -/
lemma namesAfterKeys_after (ops : List Operation) : (after ops).NamesAfterKeys := by
  have hfold : ∀ t : ContextTree, t.NamesAfterKeys →
      (ops.foldl Operation.apply t).NamesAfterKeys := by
    induction ops with
    | nil => exact fun _ ht => ht
    | cons op ops ih => exact fun t ht => ih _ (ht.apply op)
  exact hfold {} fun c q hq => absurd hq (by simp [properties, get])

end ContextTree

/-! ### No variable is captured -/

/-- Names that are sorted are in order. -/
lemma pairwise_le_mergeSort (l : List String) :
    (l.mergeSort fun a b => decide (a ≤ b)).Pairwise (· ≤ ·) := by
  have hle : (l.mergeSort fun a b => decide (a ≤ b)).Pairwise
      fun a b => decide (a ≤ b) = true := by
    refine List.pairwise_mergeSort ?_ ?_ l
    · intro a b c hab hbc
      simpa using String.le_trans (by simpa using hab) (by simpa using hbc)
    · intro a b
      simpa using String.le_total a b
  exact hle.imp fun h => by simpa using h

lemma pairwise_mergeSort_of_nodup {l : List String} (h : l.Nodup) :
    (l.mergeSort fun a b => decide (a ≤ b)).Pairwise (· < ·) := by
  have hne := (List.mergeSort_perm l fun a b => decide (a ≤ b)).nodup_iff.2 h
  refine ((pairwise_le_mergeSort l).and hne).imp ?_
  rintro a b ⟨hab, hne⟩
  by_contra hlt
  exact hne (String.le_antisymm hab (String.not_lt.1 hlt))

/-- What becomes of the variables that a callback binds when its accesses are replaced. -/
structure MakesWay (contexts : ContextTree) (c : ContextId) (scopes : Scopes) (callback : Tree)
    (result : Tree × Outcome) : Prop where
  /-- The callback binds what it has bound before, with new names for the variables that make
  way. -/
  bindings : result.1.bindings = callback.bindings.map (madeWay (callback.movedLocals contexts c))
  /-- The new names are reported in order, each once. -/
  sorted : result.2.renamedLocals.Pairwise (· < ·)
  mem_renamedLocals : ∀ x, x ∈ result.2.renamedLocals ↔
    ∃ p ∈ callback.movedLocals contexts c, x = fromSetup p
  /-- No variable that is written in place of an access is bound in the callback. -/
  uncaptured : ∀ p ∈ callback.contextAccesses, ∀ q, contexts.find? c p = some q →
    ContextTree.Rewrites p q.name scopes callback result.1 ∧ q.name ∉ result.1.bindings

/-- A variable that is found is not among the variables of a callback that has made way for it. -/
lemma ContextTree.NamesAfterKeys.not_mem_madeWay {contexts : ContextTree}
    (hnames : contexts.NamesAfterKeys) {c : ContextId} {callback : Tree}
    (hplain : ∀ x ∈ callback.bindings ++ callback.contextAccesses, endsInFromSetup x = false)
    {p : String} (hp : p ∈ callback.contextAccesses) {q : Property}
    (hq : contexts.find? c p = some q) :
    q.name ∉ callback.bindings.map (madeWay (callback.movedLocals contexts c)) := by
  have hne : ∀ y, fromSetup y ≠ p := fromSetup_ne (hplain p (List.mem_append_right _ hp))
  intro hmem
  obtain ⟨y, hy, heq⟩ := List.mem_map.1 hmem
  unfold madeWay at heq
  rcases hnames.find? hq with hname | hname
  · rw [hname] at heq
    split at heq
    · exact hne y heq
    · -- then the variable would have made way
      next hmoved =>
      subst heq
      exact hmoved (Tree.mem_movedLocals.2 ⟨hp, ⟨q, hq, hname⟩, hy⟩)
  · rw [hname] at heq
    split at heq
    · next hmoved =>
      -- a variable makes way only if the property is found in a variable of its own name
      obtain rfl := fromSetup_injective heq
      obtain ⟨-, ⟨q', hq', hname'⟩, -⟩ := Tree.mem_movedLocals.1 hmoved
      rw [hq, Option.some.injEq] at hq'
      subst hq'
      exact hne y (hname.symm.trans hname')
    · exact fromSetup_ne (hplain y (List.mem_append_left _ hy)) p heq.symm

/-- A callback that is rewritten with the variables that are found makes way for them. -/
lemma makesWay_resolveCallback {contexts : ContextTree} (hnames : contexts.NamesAfterKeys)
    (c : ContextId) (scopes : Scopes) {callback : Tree}
    (hpatterns : ∀ u ∈ callback.boundLeaves, u.label ≠ .member)
    (hplain : ∀ x ∈ callback.bindings ++ callback.contextAccesses, endsInFromSetup x = false) :
    MakesWay contexts c scopes callback (resolveCallback (scopes.enterFunction callback)
      (usageResolution contexts c callback.contextAccesses) callback) := by
  have hclashes := clashes_usageResolution contexts c scopes callback
  have hbindings : (resolveCallback (scopes.enterFunction callback)
      (usageResolution contexts c callback.contextAccesses) callback).1.bindings =
        callback.bindings.map (madeWay (callback.movedLocals contexts c)) := by
    cases hlit : callback.isFunctionLiteral with
    | true =>
      rw [← hclashes]
      refine Tree.bindings_resolveCallback hlit hpatterns fun x hx => ?_
      rw [hclashes, Tree.mem_movedLocals] at hx
      exact hplain x (List.mem_append_right _ hx.1)
    | false =>
      obtain ⟨hmoved, hself⟩ := resolveCallback_of_not hlit contexts c scopes
      have hmap : callback.bindings.map (madeWay []) = callback.bindings := List.map_id' _
      rw [hself, hmoved, hmap]
  refine ⟨hbindings, ?_, ?_, ?_⟩
  · rw [resolveCallback, hclashes]
    refine pairwise_mergeSort_of_nodup ?_
    have hnodup : (callback.movedLocals contexts c).Nodup :=
      (nodup_contextAccesses callback).filter _
    exact List.Pairwise.map fromSetup (fun _ _ hne heq => hne (fromSetup_injective heq)) hnodup
  · intro x
    rw [resolveCallback, hclashes]
    simp [eq_comm]
  · intro p hp q hq
    refine ⟨⟨_, ?_, rfl⟩, ?_⟩
    · rw [usageResolution, lookup_records hp, hq]
      rfl
    · rw [hbindings]
      exact hnames.not_mem_madeWay hplain hp hq

/-- After every sequence of operations a setup and a test in any context leave no variable captured:
the variables that a callback binds make way for those that are written in it. -/
theorem localsMakeWay (ops : List ContextTree.Operation) (c : ContextId)
    (hc : c < (ContextTree.after ops).size) (scopes : Scopes) (callback : Tree)
    (hpatterns : ∀ u ∈ callback.boundLeaves, u.label ≠ .member)
    (hplain : ∀ x ∈ callback.bindings ++ callback.contextAccesses, endsInFromSetup x = false) :
    MakesWay (hoistSetup (ContextTree.after ops) c scopes callback).2 c scopes callback
        (hoistSetup (ContextTree.after ops) c scopes callback).1 ∧
      MakesWay (ContextTree.after ops) c scopes callback
        (resolveUsage (ContextTree.after ops) c scopes callback) := by
  have hnames := ContextTree.namesAfterKeys_after ops
  constructor
  · have hafter := hnames.apply (.setup c scopes callback)
    rw [hoistSetup_eq_resolveCallback hc]
    exact makesWay_resolveCallback hafter c scopes hpatterns hplain
  · have husage := makesWay_resolveCallback hnames c scopes hpatterns hplain
    exact ⟨husage.bindings, husage.sorted, husage.mem_renamedLocals, husage.uncaptured⟩

/-- The callback `function({ x }) { let y; this.y; this.x; this.z; }`. -/
def bindsAccessed : Tree :=
  .plainFunction
    [.node .parameter .nowhere [.group [], .node .objectPattern .nowhere
      [.node .shorthandPattern .nowhere [.name "x" .nowhere, .absent]]]]
    [.letDeclaration "y", .accessStmt "y", .accessStmt "x", .accessStmt "z"]

theorem localsMakeWay_bindsAccessed :
    0 < (ContextTree.after [.root]).size ∧
      (hoistSetup (ContextTree.after [.root]) 0 (.ofNames ["z"]) bindsAccessed).2.properties 0 =
        [⟨"y", "y"⟩, ⟨"x", "x"⟩, ⟨"z", "z_fromSetup"⟩] ∧
      (hoistSetup (ContextTree.after [.root]) 0 (.ofNames ["z"]) bindsAccessed).1.1.bindings =
        ["x_fromSetup", "y_fromSetup"] ∧
      MakesWay (hoistSetup (ContextTree.after [.root]) 0 (.ofNames ["z"]) bindsAccessed).2 0
        (.ofNames ["z"]) bindsAccessed
        (hoistSetup (ContextTree.after [.root]) 0 (.ofNames ["z"]) bindsAccessed).1 :=
  ⟨by decide, by decide +kernel, by decide +kernel,
    (localsMakeWay [.root] 0 (by decide) (.ofNames ["z"]) bindsAccessed (by decide +kernel)
      (by decide +kernel)).1⟩

end ContextHoist
