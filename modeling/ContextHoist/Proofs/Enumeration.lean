/-
The order of the variables for properties does not show.

Which variable stands for which property is a map, whose entries come in no particular order.  The
local variables of a callback make way in that order, each in the whole callback, so the result
would depend on it if one of them were called as another one is afterwards.

* `resolveLeaving`: what is done with a callback, given the variables and the properties without.
* `Resolution.lookup_perm`, `Tree.replaceOwn_congr`: replacing depends on the map alone.
* `Tree.foldl_rename_perm`: variables can make way in any order.
* `resolvesInAnyOrder`: callback and outcome are the same in every order.
-/
import ContextHoist.Proofs.Renaming

namespace ContextHoist

/-- Rewrites a callback with the given variables for properties, and reports the properties without
one.  The scopes are those seen from inside the callback. -/
def resolveLeaving (scopes : Scopes) (r : Resolution) (left : List String) (callback : Tree) :
    Tree × Outcome :=
  let (t, outcome) := resolveCallback scopes r callback
  (t, { outcome with unresolved := left })

/-- In a setup every property has a variable. -/
lemma hoistSetup_eq_resolveLeaving (contexts : ContextTree) (c : ContextId) (scopes : Scopes)
    (callback : Tree) : (hoistSetup contexts c scopes callback).1 =
      resolveLeaving (scopes.enterFunction callback) (setupResolution
        (scopes.enterFunction callback) c callback.contextAccesses contexts).1 [] callback := rfl

/-- In a test properties without a variable are left. -/
lemma resolveUsage_eq_resolveLeaving (contexts : ContextTree) (c : ContextId) (scopes : Scopes)
    (callback : Tree) : resolveUsage contexts c scopes callback =
      resolveLeaving (scopes.enterFunction callback)
        (usageResolution contexts c callback.contextAccesses)
        (unresolved contexts c callback.contextAccesses) callback := rfl

/-! ### Replacing -/

/-- The variable for a property is the same in every order of the entries, if each property has only
one entry. -/
lemma Resolution.lookup_perm {r r' : Resolution} (h : r.Perm r') (hr : (r.map (·.1)).Nodup)
    (p : String) : r.lookup p = r'.lookup p := by
  induction h with
  | nil => rfl
  | cons e _ ih =>
    rw [List.lookup_cons, List.lookup_cons, ih (List.nodup_cons.1 hr).2]
  | swap d e rest =>
    have hne : e.1 ≠ d.1 := fun heq => (List.nodup_cons.1 hr).1 (by simp [heq])
    rw [List.lookup_cons, List.lookup_cons, List.lookup_cons, List.lookup_cons]
    by_cases hp : p = e.1
    · simp [hp, beq_eq_false_iff_ne.2 hne]
    · simp [beq_eq_false_iff_ne.2 hp]
  | trans h₁ _ ih₁ ih₂ => exact (ih₁ hr).trans (ih₂ ((h₁.map _).nodup_iff.1 hr))

namespace Tree

variable {r r' : Resolution}

lemma replacement?_congr (h : ∀ p, r.lookup p = r'.lookup p) (t : Tree) :
    replacement? r t = replacement? r' t := by
  unfold replacement?
  split
  · exact h _
  · rfl

lemma replaceOwn_congr (h : ∀ p, r.lookup p = r'.lookup p) (t : Tree) :
    t.replaceOwn r = t.replaceOwn r' := by
  induction t using Tree.induct with
  | node l s ts ih =>
    rw [replaceOwn, replaceOwn, replacement?_congr h, replaceOwnAll_eq, replaceOwnAll_eq,
      List.map_congr_left ih]

lemma replaceableOwn_congr (h : ∀ p, r.lookup p = r'.lookup p) (t : Tree) :
    t.replaceableOwn r = t.replaceableOwn r' := by
  induction t using Tree.induct with
  | node l s ts ih =>
    rw [replaceableOwn, replaceableOwn, replacement?_congr h, replaceableOwnAll_eq,
      replaceableOwnAll_eq, List.map_congr_left ih]

lemma replaceAccesses_congr (h : ∀ p, r.lookup p = r'.lookup p) (t : Tree) :
    t.replaceAccesses r = t.replaceAccesses r' := by
  unfold replaceAccesses
  split
  · rw [replaceOwn_congr h, replaceOwn_congr h]
  · rw [replaceOwn_congr h, replaceOwn_congr h]
  · rfl

lemma replaceCount_congr (h : ∀ p, r.lookup p = r'.lookup p) (t : Tree) :
    t.replaceCount r = t.replaceCount r' := by
  unfold replaceCount
  split
  · rw [replaceableOwn_congr h, replaceableOwn_congr h]
  · rw [replaceableOwn_congr h, replaceableOwn_congr h]
  · rfl

/-! ### Making way -/

/-- Variables can make way in any order, if no new name is one of them. -/
lemma foldl_rename_perm {locals locals' : List String} (h : locals.Perm locals')
    (hnew : ∀ x ∈ locals, ∀ y ∈ locals, x ≠ fromSetup y) (t : Tree) :
    locals.foldl (fun t x => t.rename x (fromSetup x)) t =
      locals'.foldl (fun t x => t.rename x (fromSetup x)) t := by
  refine h.foldl_eq' (fun x hx y hy t => ?_) t
  by_cases hxy : x = y
  · rw [hxy]
  · exact rename_comm hxy (hnew y hy x hx).symm (hnew x hx y hy).symm t

end Tree

/-- Sorting gives the same list in whatever order the names come. -/
lemma mergeSort_perm_eq {xs ys : List String} (h : xs.Perm ys) :
    xs.mergeSort (fun a b => decide (a ≤ b)) = ys.mergeSort (fun a b => decide (a ≤ b)) := by
  refine List.Perm.eq_of_pairwise ?_ (pairwise_le_mergeSort xs) (pairwise_le_mergeSort ys) ?_
  · exact fun a b _ _ hab hba => String.le_antisymm hab hba
  · exact (List.mergeSort_perm xs _).trans (h.trans (List.mergeSort_perm ys _).symm)

lemma clashes_subset (scopes : Scopes) (r : Resolution) : clashes scopes r ⊆ r.map (·.1) := by
  intro x hx
  obtain ⟨e, he, rfl⟩ := List.mem_map.1 hx
  exact List.mem_map_of_mem (List.mem_of_mem_filter he)

/-- The callback and what is said about it do not depend on the order in which the entries of a map
come, unless a property is called like another one that has made way. -/
theorem resolvesInAnyOrder (scopes : Scopes) (callback : Tree) (left : List String)
    {r r' : Resolution} (hkeys : (r.map (·.1)).Nodup) (horder : r.Perm r')
    (hplain : ∀ p ∈ r.map (·.1), ∀ q ∈ r.map (·.1), p ≠ fromSetup q) :
    resolveLeaving scopes r left callback = resolveLeaving scopes r' left callback := by
  have hlookup := Resolution.lookup_perm horder hkeys
  have hclashes : (clashes scopes r).Perm (clashes scopes r') := (horder.filter _).map _
  have hnew : ∀ x ∈ clashes scopes r, ∀ y ∈ clashes scopes r, x ≠ fromSetup y := fun x hx y hy =>
    hplain x (clashes_subset scopes r hx) y (clashes_subset scopes r hy)
  simp only [resolveLeaving, resolveCallback, Tree.foldl_rename_perm hclashes hnew,
    Tree.replaceAccesses_congr hlookup, Tree.replaceCount_congr hlookup,
    mergeSort_perm_eq (hclashes.map fromSetup)]

theorem resolvesInAnyOrder_bindsAccessed :
    let scopes : Scopes := .ofNames ["z"]
    let inner := scopes.enterFunction bindsAccessed
    let contexts : ContextTree := (ContextTree.after [.root]).addProperty 0 ⟨"y", "y"⟩
    let r : Resolution := [("y", "y"), ("x", "x"), ("z", "z_fromSetup")]
    (r.map (·.1)).Nodup ∧ r.Perm r.reverse ∧
      (∀ p ∈ r.map (·.1), ∀ q ∈ r.map (·.1), p ≠ fromSetup q) ∧ clashes inner r = ["y", "x"] ∧
      (hoistSetup contexts 0 scopes bindsAccessed).1 =
        resolveLeaving inner r.reverse [] bindsAccessed ∧
      resolveUsage (contexts.addProperty 0 ⟨"x", "x"⟩) 0 scopes bindsAccessed =
        resolveLeaving inner [("x", "x"), ("y", "y")] ["z"] bindsAccessed := by
  intro scopes inner contexts r
  have hkeys : (r.map (·.1)).Nodup := by decide +kernel
  have horder : r.Perm r.reverse := (List.reverse_perm r).symm
  have hplain : ∀ p ∈ r.map (·.1), ∀ q ∈ r.map (·.1), p ≠ fromSetup q := by decide +kernel
  refine ⟨hkeys, horder, hplain, by decide +kernel, ?_, ?_⟩
  · have hr : (setupResolution inner 0 bindsAccessed.contextAccesses contexts).1 = r := by
      decide +kernel
    rw [hoistSetup_eq_resolveLeaving, hr]
    exact resolvesInAnyOrder inner bindsAccessed [] hkeys horder hplain
  · have hr : usageResolution (contexts.addProperty 0 ⟨"x", "x"⟩) 0
        bindsAccessed.contextAccesses = [("y", "y"), ("x", "x")] := by decide +kernel
    have hleft : unresolved (contexts.addProperty 0 ⟨"x", "x"⟩) 0
        bindsAccessed.contextAccesses = ["z"] := by decide +kernel
    rw [resolveUsage_eq_resolveLeaving, hr, hleft]
    exact resolvesInAnyOrder inner bindsAccessed ["z"] (by decide +kernel) (.swap _ _ [])
      (by decide +kernel)

/-- The callback `function() { let x; let x_fromSetup; this.x; this.x_fromSetup; }`, in which the
order shows. -/
example :
    let callback : Tree := .plainFunction []
      [.letDeclaration "x", .letDeclaration "x_fromSetup", .accessStmt "x",
        .accessStmt "x_fromSetup"]
    let inner := Scopes.empty.enterFunction callback
    let r : Resolution := [("x", "x"), ("x_fromSetup", "x_fromSetup")]
    (resolveLeaving inner r [] callback).1.bindings =
        ["x_fromSetup_fromSetup", "x_fromSetup_fromSetup"] ∧
      (resolveLeaving inner r.reverse [] callback).1.bindings =
        ["x_fromSetup", "x_fromSetup_fromSetup"] := by decide +kernel

end ContextHoist
