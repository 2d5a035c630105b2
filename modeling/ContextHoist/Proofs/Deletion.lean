/-
What callbacks delete.

The operand of `delete` is an expression, possibly in parentheses.  Replacing accesses and renaming
variables change operands as they change other expressions, so a callback deletes a variable
afterwards where it has deleted an access before.

* `Tree.ownDeleted`: the operands of `delete` in a phrase.
* `Tree.ownDeleted_replaceOwn`, `Tree.ownDeleted_rename`: what becomes of them.
* `Handled.deletedNames_result`: the names that a callback deletes in the end.
-/
import ContextHoist.Proofs.Callbacks

namespace ContextHoist

/-! ### Operands of `delete` -/

namespace Tree

/-- The expression in any number of parentheses. -/
def unparen : Tree → Tree
  | node .paren _ [t] => t.unparen
  | t => t

/-- The operand of `delete`, without parentheses. -/
def deleted? : Tree → Option Tree
  | node (.unary operator) _ [t] => if operator = "delete" then some t.unparen else none
  | _ => none

mutual

/-- The operands of `delete` in a phrase, outside of phrases with a scope of their own. -/
def ownDeleted : Tree → List Tree
  | node l s ts =>
    if l.isBoundary then [] else (deleted? (node l s ts)).toList ++ ownDeletedAll ts

/-- The operands of `delete` in a list of phrases. -/
def ownDeletedAll : List Tree → List Tree
  | [] => []
  | t :: ts => t.ownDeleted ++ ownDeletedAll ts

end

/-- The name that a phrase consists of. -/
def asName? : Tree → Option String
  | node (.name x) _ _ => some x
  | _ => none

/-- The property of an access that is not in an optional chain. -/
def memberAccessed? (t : Tree) : Option String :=
  if t.label = .member then t.accessed? else none

lemma ownDeletedAll_eq (ts : List Tree) : ownDeletedAll ts = ts.flatMap ownDeleted := by
  induction ts with
  | nil => rfl
  | cons t ts ih => rw [ownDeletedAll, ih, List.flatMap_cons]

/-- A function that keeps the parentheses of expressions, and makes none, can be applied to what
stands in them. -/
lemma unparen_apply {f : Tree → Tree} (hparen : ∀ s t, f (node .paren s [t]) = node .paren s [f t])
    (hother : ∀ t s u, f t = node .paren s [u] → ∃ u', t = node .paren s [u']) (t : Tree) :
    (f t).unparen = f t.unparen := by
  fun_induction unparen t with
  | case1 s t ih => rw [hparen, unparen, ih]
  | case2 t h =>
    rw [unparen]
    intro s u heq
    obtain ⟨u', rfl⟩ := hother t s u heq
    exact h s u' rfl

/-- The operand of `delete` is found after the function as before it. -/
lemma deleted?_map {f : Tree → Tree} (hf : ∀ t, (f t).unparen = f t.unparen) (l : Label) (s : Span)
    (ts : List Tree) : (node l s (ts.map f)).deleted? = (node l s ts).deleted?.map f := by
  match ts with
  | [] => simp [deleted?]
  | [t] =>
    cases l with
    | unary operator =>
      simp only [List.map_cons, List.map_nil, deleted?, hf]
      split <;> rfl
    | _ => rfl
  | t :: u :: ts => simp [deleted?]

lemma exists_of_mem_ownDeleted (t : Tree) :
    ∀ v ∈ t.ownDeleted, ∃ u, t.Has u ∧ u.deleted? = some v := by
  induction t using Tree.induct with
  | node l s ts ih =>
    intro v hv
    rw [ownDeleted] at hv
    split at hv
    · exact absurd hv List.not_mem_nil
    · rcases List.mem_append.1 hv with hv | hv
      · exact ⟨_, .self _, Option.mem_toList.1 hv⟩
      · rw [ownDeletedAll_eq, List.mem_flatMap] at hv
        obtain ⟨t, ht, hv⟩ := hv
        obtain ⟨u, hu, hdeleted⟩ := ih t ht v hv
        exact ⟨u, .part ht hu, hdeleted⟩

/-! ### Replacing and renaming under `delete` -/

lemma unparen_replaceOwn (r : Resolution) (t : Tree) :
    (t.replaceOwn r).unparen = t.unparen.replaceOwn r := by
  refine unparen_apply ?_ ?_ t
  · intro s t
    simp [replaceOwn, replaceOwnAll, replacement?, Label.isBoundary]
  · rintro ⟨l, s', ts⟩ s u h
    rw [replaceOwn] at h
    split at h
    · exact absurd (Tree.node.inj h).1 (by simp)
    · split at h
      · exact ⟨u, h⟩
      · obtain ⟨rfl, rfl, hts⟩ := Tree.node.inj h
        rw [replaceOwnAll_eq, List.map_eq_singleton_iff] at hts
        obtain ⟨u', rfl, -⟩ := hts
        exact ⟨u', rfl⟩

/-- Accesses are replaced in the operands of `delete`. -/
lemma ownDeleted_replaceOwn (r : Resolution) (t : Tree) :
    (t.replaceOwn r).ownDeleted = t.ownDeleted.map (replaceOwn r) := by
  induction t using Tree.induct with
  | node l s ts ih =>
    rw [replaceOwn]
    split
    · next x hx =>
      -- nothing is deleted in an access
      unfold replacement? at hx
      split at hx
      · next heq =>
        obtain ⟨rfl, rfl, rfl⟩ := Tree.node.inj heq
        simp [ownDeleted, ownDeletedAll, deleted?, Label.isBoundary]
      · exact absurd hx (by simp)
    · split
      · next hl => simp [ownDeleted, hl]
      · next hl =>
        rw [ownDeleted, ownDeleted, if_neg hl, if_neg hl, replaceOwnAll_eq,
          deleted?_map (unparen_replaceOwn r), ownDeletedAll_eq, ownDeletedAll_eq,
          List.flatMap_map, List.map_append, List.map_flatMap]
        congr 1
        · cases (node l s ts).deleted? <;> rfl
        · exact List.flatMap_congr ih

lemma unparen_rename (a b : String) (t : Tree) : (t.rename a b).unparen = t.unparen.rename a b := by
  refine unparen_apply ?_ ?_ t
  · intro s t
    simp [rename, renameAll]
  · intro t s u h
    unfold rename at h
    split at h
    · exact absurd (Tree.node.inj h).1 (by simp)
    · split at h <;> exact absurd (Tree.node.inj h).1 (by simp)
    · split at h <;> exact absurd (Tree.node.inj h).1 (by simp)
    · obtain ⟨rfl, rfl, hts⟩ := Tree.node.inj h
      rw [renameAll_eq, List.map_eq_singleton_iff] at hts
      obtain ⟨u', rfl, -⟩ := hts
      exact ⟨u', rfl⟩

lemma ownDeleted_withDefault (x : String) (s : Span) (value : Tree) :
    (withDefault (name x s) value).ownDeleted = value.ownDeleted := by
  unfold withDefault
  split <;> simp [ownDeleted, ownDeletedAll, deleted?, Label.isBoundary]

/-- Variables are renamed in the operands of `delete`. -/
lemma ownDeleted_rename (a b : String) (t : Tree) :
    (t.rename a b).ownDeleted = t.ownDeleted.map (rename a b) := by
  induction t using Tree.induct with
  | node l s ts ih =>
    have hall : ownDeletedAll (ts.map (rename a b)) = (ownDeletedAll ts).map (rename a b) := by
      rw [ownDeletedAll_eq, ownDeletedAll_eq, List.flatMap_map, List.map_flatMap]
      exact List.flatMap_congr ih
    unfold rename
    split
    · next heq =>
      obtain ⟨rfl, rfl, rfl⟩ := Tree.node.inj heq
      rw [renameAll_eq]
      simp [ownDeleted, deleted?, Label.isBoundary, hall]
    · next heq =>
      obtain ⟨rfl, rfl, rfl⟩ := Tree.node.inj heq
      split <;> simp [ownDeleted, ownDeletedAll, deleted?, Label.isBoundary]
    · next value heq =>
      obtain ⟨rfl, rfl, rfl⟩ := Tree.node.inj heq
      have hvalue := ih value (.tail _ (.head _))
      split <;> simp [ownDeleted, ownDeletedAll, deleted?, Label.isBoundary,
        ownDeleted_withDefault, hvalue]
    · next heq =>
      obtain ⟨rfl, rfl, rfl⟩ := Tree.node.inj heq
      rw [renameAll_eq, ownDeleted, ownDeleted, hall, deleted?_map (unparen_rename a b)]
      split
      · rfl
      · rw [List.map_append]
        congr 1
        cases (node l s ts).deleted? <;> rfl

lemma replacement?_eq (r : Resolution) (t : Tree) :
    replacement? r t = t.memberAccessed?.bind (r.lookup ·) := by
  unfold replacement? memberAccessed?
  split
  · simp [accessed?]
  · next hnot =>
    obtain ⟨l, s, ts⟩ := t
    by_cases hl : l = .member
    · subst hl
      have hparts : ¬∃ this p prop, ts = [thisExpr this, key p prop] := by
        rintro ⟨this, p, prop, rfl⟩
        exact hnot s this p prop rfl
      simp [accessed?_eq_none hparts]
    · simp [hl]

/-- A phrase becomes a name if it is one, or if it is an access with a variable. -/
lemma asName?_replaceOwn (r : Resolution) (t : Tree) :
    (t.replaceOwn r).asName? = t.asName?.or (t.memberAccessed?.bind (r.lookup ·)) := by
  obtain ⟨l, s, ts⟩ := t
  rw [← replacement?_eq, replaceOwn]
  split
  · next x hx =>
    rw [hx]
    unfold replacement? at hx
    split at hx
    · next heq =>
      rw [heq]
      rfl
    · exact absurd hx (by simp)
  · next hx =>
    rw [hx, Option.or_none]
    split
    · rfl
    · cases l <;> rfl

lemma asName?_rename (a b : String) (t : Tree) :
    (t.rename a b).asName?.isSome = t.asName?.isSome := by
  unfold rename
  split
  · rfl
  · split <;> rfl
  · split <;> rfl
  · next l s ts _ _ _ => cases l <;> rfl

lemma memberAccessed?_rename (a b : String) (t : Tree) :
    (t.rename a b).memberAccessed? = t.memberAccessed? := by
  unfold rename
  split
  · rfl
  · split <;> rfl
  · split <;> rfl
  · next l s ts _ _ _ =>
    rw [memberAccessed?, memberAccessed?, renameAll_eq, (keepsLeaves_rename a b).accessed?]
    rfl

/-! ### Callbacks -/

/-- The operands of `delete` that belong to a callback itself. -/
def deleted : Tree → List Tree
  | functionExpr _ _ _ _ _ params _ body _ _ => params.ownDeleted ++ body.ownDeleted
  | arrow _ _ params body _ _ => params.ownDeleted ++ body.ownDeleted
  | _ => []

/-- The names that a callback deletes. -/
def deletedNames (t : Tree) : List String :=
  t.deleted.filterMap asName?

/-- The properties whose accesses a callback deletes. -/
def deletedAccesses (t : Tree) : List String :=
  t.deleted.filterMap memberAccessed?

lemma deleted_literal (k : Shell) (params body : Tree) :
    (k.literal params body).deleted = params.ownDeleted ++ body.ownDeleted := by
  cases k <;> rfl

lemma deleted_replaceAccesses (r : Resolution) (k : Shell) (params body : Tree) :
    ((k.literal params body).replaceAccesses r).deleted =
      (k.literal params body).deleted.map (replaceOwn r) := by
  rw [replaceAccesses_literal, deleted_literal, deleted_literal, ownDeleted_replaceOwn,
    ownDeleted_replaceOwn, List.map_append]

/-- Renaming variables of a callback one after the other renames them in the operands of
`delete`. -/
lemma deleted_rename_locals (locals : List String) (k : Shell) (params body : Tree) :
    ∃ (k' : Shell) (params' body' : Tree),
      locals.foldl (fun t x => t.rename x (fromSetup x)) (k.literal params body) =
        k'.literal params' body' ∧
      (k'.literal params' body').deleted = (k.literal params body).deleted.map
        (locals.foldl fun t x => t.rename x (fromSetup x)) := by
  induction locals generalizing k params body with
  | nil => exact ⟨k, params, body, rfl, by simp⟩
  | cons x locals ih =>
    obtain ⟨k₁, h₁⟩ := rename_literal x (fromSetup x) k params body
    obtain ⟨k', params', body', h, hdeleted⟩ :=
      ih k₁ (params.rename x (fromSetup x)) (body.rename x (fromSetup x))
    refine ⟨k', params', body', by rw [List.foldl_cons, h₁, h], ?_⟩
    rw [hdeleted, deleted_literal, deleted_literal, ownDeleted_rename, ownDeleted_rename,
      ← List.map_append, List.map_map]
    rfl

end Tree

/-- A callback that deletes no name before deletes afterwards the variables that are written in
place of the accesses that it deletes. -/
lemma Handled.deletedNames_result {k : Handled} (hlit : k.tree.isFunctionLiteral = true)
    (h : k.tree.deletedNames = []) :
    k.result.deletedNames = k.tree.deletedAccesses.filterMap (k.written.lookup ·) := by
  obtain ⟨shell, params, body, htree⟩ := Tree.exists_shell hlit
  obtain ⟨shell', params', body', hrename, hdeleted⟩ := Tree.deleted_rename_locals
    (clashes (k.scopes.enterFunction k.tree) k.written) shell params body
  have hresult : k.result.deleted = k.tree.deleted.map fun u => Tree.replaceOwn k.written
      ((clashes (k.scopes.enterFunction k.tree) k.written).foldl
        (fun t x => t.rename x (fromSetup x)) u) := by
    rw [result, resolveCallback]
    simp only [htree] at hrename hdeleted ⊢
    rw [hrename, Tree.deleted_replaceAccesses, hdeleted, List.map_map]
    rfl
  rw [Tree.deletedNames, hresult, Tree.deletedAccesses, List.filterMap_map,
    List.filterMap_filterMap]
  refine List.filterMap_congr fun u hu => ?_
  have hnone := List.filterMap_eq_nil_iff.1 h u hu
  rw [Function.comp_apply, Tree.asName?_replaceOwn,
    Tree.foldl_rename_eq Tree.memberAccessed?_rename]
  have hrenamed := Tree.foldl_rename_eq (f := fun t => t.asName?.isSome) Tree.asName?_rename
    (clashes (k.scopes.enterFunction k.tree) k.written) u
  rw [hnone, Option.isSome_none, Option.isSome_eq_false_iff, Option.isNone_iff_eq_none] at hrenamed
  rw [hrenamed, Option.none_or]

end ContextHoist
