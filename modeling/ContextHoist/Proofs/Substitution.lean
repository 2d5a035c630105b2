/-
Replacing the accesses of a callback is a substitution.

Two trees are compared place by place; a place is the list of the numbers of the parts through which
it is reached.  Where accesses are replaced, the callback changes at the places of these accesses
and nowhere else, above all not in phrases with a scope of their own.  If no two properties share a
variable and no variable is in use, the accesses can be put back.

* `Tree.at?`: what stands at a place.
* `Tree.changes`: the places at which two trees begin to differ; by `Tree.head_at?_of_changes` they
  do not differ elsewhere.
* `Tree.restoreAccesses`: puts accesses in place of variables.
* `Tree.substitutesAccesses`: what replacing accesses does to a callback.
-/
import Mathlib.Algebra.Ring.Nat
import Mathlib.Data.List.Forall2
import Mathlib.Data.List.Nodup
import ContextHoist.Proofs.OuterNames

namespace ContextHoist

namespace Tree

/-! ### Places -/

/-- What stands at a place. -/
def at? : Tree → List ℕ → Option Tree
  | t, [] => some t
  | t, i :: place => t.parts[i]?.bind (·.at? place)

@[simp] lemma at?_nil (t : Tree) : t.at? [] = some t := rfl

@[simp] lemma at?_cons (l : Label) (s : Span) (ts : List Tree) (i : ℕ) (place : List ℕ) :
    (node l s ts).at? (i :: place) = ts[i]?.bind (·.at? place) := rfl

lemma has_of_at? {t u : Tree} {place : List ℕ} (h : t.at? place = some u) : t.Has u := by
  induction place generalizing t with
  | nil =>
    obtain rfl := Option.some.inj h
    exact .self t
  | cons i place ih =>
    obtain ⟨l, s, ts⟩ := t
    obtain ⟨t, ht, hu⟩ := Option.bind_eq_some_iff.1 h
    exact .part (List.mem_of_getElem? ht) (ih hu)

/-- A node without its parts: its label, its span, and the number of its parts. -/
def head : Tree → Label × Span × ℕ
  | node l s ts => (l, s, ts.length)

mutual

/-- The places at which two trees begin to differ. -/
def changes : Tree → Tree → List (List ℕ)
  | node l s ts, node l' s' ts' =>
    if (node l s ts).head = (node l' s' ts').head then changesFrom 0 ts ts' else [[]]

/-- The places at which two lists of trees begin to differ, if the first trees have a number. -/
def changesFrom (i : ℕ) : List Tree → List Tree → List (List ℕ)
  | t :: ts, t' :: ts' => (changes t t').map (i :: ·) ++ changesFrom (i + 1) ts ts'
  | _, _ => []

end

lemma mem_changesFrom {i : ℕ} {ts ts' : List Tree} {place : List ℕ} :
    place ∈ changesFrom i ts ts' ↔ ∃ j t t' rest, ts[j]? = some t ∧ ts'[j]? = some t' ∧
      rest ∈ changes t t' ∧ place = (i + j) :: rest := by
  induction ts generalizing i ts' with
  | nil => simp [changesFrom]
  | cons t ts ih =>
    cases ts' with
    | nil => simp [changesFrom]
    | cons t' ts' =>
      rw [changesFrom, List.mem_append, ih]
      constructor
      · rintro (h | ⟨j, u, u', rest, hu, hu', hrest, rfl⟩)
        · obtain ⟨rest, hrest, rfl⟩ := List.mem_map.1 h
          exact ⟨0, t, t', rest, rfl, rfl, hrest, rfl⟩
        · exact ⟨j + 1, u, u', rest, hu, hu', hrest, by rw [Nat.add_right_comm]; rfl⟩
      · rintro ⟨j, u, u', rest, hu, hu', hrest, rfl⟩
        cases j with
        | zero =>
          obtain rfl := Option.some.inj hu
          obtain rfl := Option.some.inj hu'
          exact .inl (List.mem_map_of_mem hrest)
        | succ j => exact .inr ⟨j, u, u', rest, hu, hu', hrest, by rw [Nat.add_right_comm]; rfl⟩

lemma changes_of_head {l : Label} {s : Span} {ts ts' : List Tree} (h : ts.length = ts'.length) :
    changes (node l s ts) (node l s ts') = changesFrom 0 ts ts' := by
  rw [changes, if_pos (by rw [head, head, h])]

/-- A tree does not differ from itself. -/
lemma changes_self (t : Tree) : changes t t = [] := by
  induction t using Tree.induct with
  | node l s ts ih =>
    rw [changes_of_head rfl, List.eq_nil_iff_forall_not_mem]
    intro place hplace
    obtain ⟨j, t, t', rest, ht, ht', hrest, -⟩ := mem_changesFrom.1 hplace
    rw [ht, Option.some.injEq] at ht'
    subst ht'
    rw [ih t (List.mem_of_getElem? ht)] at hrest
    exact absurd hrest List.not_mem_nil

/-- No place is counted twice. -/
lemma nodup_changes (t t' : Tree) : (changes t t').Nodup := by
  induction t using Tree.induct generalizing t' with
  | node l s ts ih =>
    obtain ⟨l', s', ts'⟩ := t'
    have hfrom : ∀ i, (changesFrom i ts ts').Nodup := by
      induction ts generalizing ts' with
      | nil => simp [changesFrom]
      | cons t ts ihs =>
        intro i
        cases ts' with
        | nil => simp [changesFrom]
        | cons t' ts' =>
          rw [List.forall_mem_cons] at ih
          rw [changesFrom]
          refine List.Nodup.append ?_ (ihs ih.2 ts' (i + 1)) ?_
          · exact (ih.1 t').map fun _ _ h => (List.cons.inj h).2
          · intro place hfirst hrest
            obtain ⟨rest, -, rfl⟩ := List.mem_map.1 hfirst
            obtain ⟨j, _, _, _, -, -, -, heq⟩ := mem_changesFrom.1 hrest
            have hi := (List.cons.inj heq).1
            omega
    rw [changes]
    split
    · exact hfrom 0
    · exact List.nodup_singleton _

/-- At a place that does not lie in a change, two trees have the same node, or neither has one. -/
lemma head_at?_of_changes {t t' : Tree} {place : List ℕ}
    (h : ∀ change ∈ changes t t', ¬change <+: place) :
    (t'.at? place).map head = (t.at? place).map head := by
  induction place generalizing t t' with
  | nil =>
    obtain ⟨l, s, ts⟩ := t
    obtain ⟨l', s', ts'⟩ := t'
    rw [changes] at h
    split at h
    · next hhead => rw [at?_nil, at?_nil, Option.map_some, Option.map_some, hhead]
    · exact absurd List.nil_prefix (h [] (List.mem_singleton.2 rfl))
  | cons i place ih =>
    obtain ⟨l, s, ts⟩ := t
    obtain ⟨l', s', ts'⟩ := t'
    rw [changes] at h
    split at h
    · next hhead =>
      have hlength : ts.length = ts'.length := (Prod.mk.inj (Prod.mk.inj hhead).2).2
      rw [at?_cons, at?_cons]
      by_cases hi : i < ts.length
      · have hi' : i < ts'.length := hlength ▸ hi
        rw [List.getElem?_eq_getElem hi, List.getElem?_eq_getElem hi', Option.bind_some,
          Option.bind_some]
        refine ih fun change hchange hprefix => ?_
        refine h (i :: change) (mem_changesFrom.2 ⟨i, _, _, change, List.getElem?_eq_getElem hi,
          List.getElem?_eq_getElem hi', hchange, by rw [Nat.zero_add]⟩) ?_
        exact List.cons_prefix_cons.2 ⟨rfl, hprefix⟩
      · rw [List.getElem?_eq_none (by omega), List.getElem?_eq_none (by omega)]
    · exact absurd List.nil_prefix (h [] (List.mem_singleton.2 rfl))

/-! ### Phrases with a scope of their own -/

/-- Every phrase with a scope of its own in the first tree stands at the same place in the second
one. -/
def KeepsScopes (t t' : Tree) : Prop :=
  ∀ place u, t.at? place = some u → u.label.isBoundary = true → t'.at? place = some u

lemma KeepsScopes.refl (t : Tree) : KeepsScopes t t := fun _ _ hu _ => hu

/-- Below the root, such phrases are kept if they are kept in every part. -/
lemma KeepsScopes.below {ts ts' : List Tree} (h : List.Forall₂ KeepsScopes ts ts') {l l' : Label}
    {s s' : Span} {i : ℕ} {place : List ℕ} {u : Tree}
    (hu : (node l s ts).at? (i :: place) = some u) (hl : u.label.isBoundary = true) :
    (node l' s' ts').at? (i :: place) = some u := by
  rw [at?_cons] at hu ⊢
  obtain ⟨t, ht, hu⟩ := Option.bind_eq_some_iff.1 hu
  obtain ⟨hlength, hget⟩ := List.forall₂_iff_get.1 h
  obtain ⟨hi, rfl⟩ := List.getElem?_eq_some_iff.1 ht
  have hi' : i < ts'.length := hlength ▸ hi
  rw [List.getElem?_eq_getElem hi', Option.bind_some]
  exact hget i hi hi' place u hu hl

/-- An access has no such phrase in it. -/
lemma isBoundary_of_access {p : String} {s this prop : Span} {u : Tree}
    (h : (accessOf p s this prop).Has u) : u.label.isBoundary = false := by
  cases h with
  | self => rfl
  | part ht hu =>
    simp only [List.mem_cons, List.not_mem_nil, or_false] at ht
    rcases ht with rfl | rfl
    · cases hu with
      | self => rfl
      | part ht => exact absurd ht List.not_mem_nil
    · cases hu with
      | self => rfl
      | part ht => exact absurd ht List.not_mem_nil

/-- Replacing accesses keeps phrases with a scope of their own. -/
lemma keepsScopes_replaceOwn (r : Resolution) (t : Tree) : KeepsScopes t (t.replaceOwn r) := by
  induction t using Tree.induct with
  | node l s ts ih =>
    rcases replaceOwn_cases r l s ts with ⟨p, this, prop, x, rfl, rfl, -, -⟩ | ⟨-, hself⟩ |
      ⟨hl, -, hmap⟩
    · intro place u hu hboundary
      have hnot : u.label.isBoundary = false := isBoundary_of_access (has_of_at? hu)
      exact absurd hboundary (by simp [hnot])
    · rw [hself]
      exact .refl _
    · rw [hmap]
      intro place u hu hboundary
      cases place with
      | nil =>
        obtain rfl := Option.some.inj hu
        exact absurd hboundary (by simp [hl])
      | cons i place =>
        refine KeepsScopes.below ?_ hu hboundary
        rw [List.forall₂_map_right_iff, List.forall₂_same]
        exact ih

/-! ### Places of replaced accesses -/

/-- At the place, an access in the first tree has become the variable of its property in the second
one. -/
def ReplacedAt (r : Resolution) (t t' : Tree) (place : List ℕ) : Prop :=
  ∃ p x s this prop, r.lookup p = some x ∧ t.at? place = some (accessOf p s this prop) ∧
    t'.at? place = some (name x .nowhere)

/-- What is replaced in two trees is replaced where these stand in larger ones. -/
lemma ReplacedAt.within {r : Resolution} {t t' u u' : Tree} {front place : List ℕ}
    (h : ReplacedAt r t t' place) (ht : u.at? (front ++ place) = t.at? place)
    (ht' : u'.at? (front ++ place) = t'.at? place) : ReplacedAt r u u' (front ++ place) := by
  obtain ⟨p, x, s, this, prop, hx, hbefore, hafter⟩ := h
  exact ⟨p, x, s, this, prop, hx, ht.trans hbefore, ht'.trans hafter⟩

lemma replaceableOwnAll_eq (r : Resolution) (ts : List Tree) :
    replaceableOwnAll r ts = (ts.map (replaceableOwn r)).sum := by
  induction ts with
  | nil => rfl
  | cons t ts ih => rw [replaceableOwnAll, ih, List.map_cons, List.sum_cons]

lemma length_changesFrom_map {f : Tree → Tree} {g : Tree → ℕ} {ts : List Tree}
    (h : ∀ t ∈ ts, (changes t (f t)).length = g t) (i : ℕ) :
    (changesFrom i ts (ts.map f)).length = (ts.map g).sum := by
  induction ts generalizing i with
  | nil => rfl
  | cons t ts ih =>
    rw [List.forall_mem_cons] at h
    rw [List.map_cons, changesFrom, List.length_append, List.length_map, h.1, ih h.2, List.map_cons,
      List.sum_cons]

lemma replacement?_of_isBoundary (r : Resolution) {l : Label} (hl : l.isBoundary = true) (s : Span)
    (ts : List Tree) : replacement? r (node l s ts) = none := by
  unfold replacement?
  split
  · next heq => exact absurd ((Tree.node.inj heq).1 ▸ hl) (by simp [Label.isBoundary])
  · rfl

/-- The changes are as many as are counted. -/
lemma length_changes_replaceOwn (r : Resolution) (t : Tree) :
    (changes t (t.replaceOwn r)).length = t.replaceableOwn r := by
  induction t using Tree.induct with
  | node l s ts ih =>
    rcases replaceOwn_cases r l s ts with ⟨p, this, prop, x, rfl, rfl, hx, hname⟩ |
      ⟨hl, hself⟩ | ⟨hl, hnone, hmap⟩
    · rw [hname]
      simp [replaceableOwn, replacement?, hx, changes, head]
    · rw [hself, changes_self]
      simp [replaceableOwn, replacement?_of_isBoundary r hl, hl]
    · rw [hmap, changes_of_head (by simp), length_changesFrom_map ih]
      simp [replaceableOwn, hnone, hl, replaceableOwnAll_eq]

/-- Each change replaces an access. -/
lemma replacedAt_of_mem_changes (r : Resolution) (t : Tree) :
    ∀ place ∈ changes t (t.replaceOwn r), ReplacedAt r t (t.replaceOwn r) place := by
  induction t using Tree.induct with
  | node l s ts ih =>
    intro place hplace
    rcases replaceOwn_cases r l s ts with ⟨p, this, prop, x, rfl, rfl, hx, hname⟩ |
      ⟨hl, hself⟩ | ⟨hl, hnone, hmap⟩
    · rw [hname] at hplace ⊢
      obtain rfl : place = [] := by simpa [changes, head] using hplace
      exact ⟨p, x, s, this, prop, hx, rfl, rfl⟩
    · rw [hself, changes_self] at hplace
      exact absurd hplace List.not_mem_nil
    · rw [hmap, changes_of_head (by simp)] at hplace
      obtain ⟨j, t, t', rest, ht, ht', hrest, rfl⟩ := mem_changesFrom.1 hplace
      rw [List.getElem?_map, ht, Option.map_some, Option.some.injEq] at ht'
      subst ht'
      have hpart := ih t (List.mem_of_getElem? ht) rest hrest
      rw [hmap, Nat.zero_add, ← List.singleton_append]
      refine hpart.within ?_ ?_
      · rw [List.singleton_append, at?_cons, ht, Option.bind_some]
      · rw [List.singleton_append, at?_cons, List.getElem?_map, ht, Option.map_some,
          Option.bind_some]

/-- A second time, nothing is replaced. -/
lemma replaceOwn_replaceOwn (r : Resolution) (t : Tree) :
    (t.replaceOwn r).replaceOwn r = t.replaceOwn r := by
  induction t using Tree.induct with
  | node l s ts ih =>
    rcases replaceOwn_cases r l s ts with ⟨p, this, prop, x, rfl, rfl, hx, hname⟩ |
      ⟨hl, hself⟩ | ⟨hl, hnone, hmap⟩
    · rw [hname]
      rfl
    · rw [hself, hself]
    · -- no access comes into being
      have hagain : replacement? r (node l s (ts.map (replaceOwn r))) = none := by
        rw [replacement?_eq, memberAccessed?_map (keepsLeaves_replaceOwn r), ← replacement?_eq,
          hnone]
      have hparts : (ts.map (replaceOwn r)).map (replaceOwn r) = ts.map (replaceOwn r) := by
        rw [List.map_map]
        exact List.map_congr_left ih
      rw [hmap]
      simp [replaceOwn, hagain, hl, replaceOwnAll_eq, hparts]

end Tree

/-! ### Putting accesses back -/

namespace Resolution

/-- The properties that have a variable. -/
def properties (r : Resolution) : List String :=
  r.map (·.1)

/-- The names of the variables. -/
def names (r : Resolution) : List String :=
  r.properties.filterMap (r.lookup ·)

/-- No two properties have the same variable. -/
def IsInjective (r : Resolution) : Prop :=
  ∀ p ∈ r.properties, ∀ q ∈ r.properties, r.lookup p = r.lookup q → p = q

instance (r : Resolution) : Decidable r.IsInjective :=
  inferInstanceAs (Decidable (∀ p ∈ r.properties, ∀ q ∈ r.properties, _ → p = q))

/-- The property that has the variable. -/
def property? (r : Resolution) (x : String) : Option String :=
  r.properties.find? fun p => r.lookup p = some x

lemma mem_properties_of_lookup {r : Resolution} {p x : String} (h : r.lookup p = some x) :
    p ∈ r.properties := by
  obtain ⟨before, after, rfl, -⟩ := List.lookup_eq_some_iff.1 h
  simp [properties]

lemma mem_names_of_lookup {r : Resolution} {p x : String} (h : r.lookup p = some x) :
    x ∈ r.names :=
  List.mem_filterMap.2 ⟨p, mem_properties_of_lookup h, h⟩

lemma lookup_of_property? {r : Resolution} {p x : String} (h : r.property? x = some p) :
    r.lookup p = some x := by
  simpa using List.find?_some h

lemma property?_of_lookup {r : Resolution} (hr : r.IsInjective) {p x : String}
    (h : r.lookup p = some x) : r.property? x = some p := by
  have hp := mem_properties_of_lookup h
  cases hfind : r.property? x with
  | none => exact absurd h (by simpa using List.find?_eq_none.1 hfind p hp)
  | some q =>
    have hq := lookup_of_property? hfind
    rw [hr q (mem_properties_of_lookup hq) p hp (hq.trans h.symm)]

end Resolution

namespace Tree

/-- The property whose access is put back in place of a node with this label. -/
def restored? (r : Resolution) : Label → Option String
  | .name x => r.property? x
  | _ => none

mutual

/-- Puts accesses in place of the variables of a phrase, outside of phrases with a scope of their
own. -/
def restoreOwn (r : Resolution) : Tree → Tree
  | node l s ts =>
    match restored? r l with
    | some p => accessOf p .nowhere .nowhere .nowhere
    | none => if l.isBoundary then node l s ts else node l s (restoreOwnAll r ts)

/-- Puts accesses in place of the variables of some phrases. -/
def restoreOwnAll (r : Resolution) : List Tree → List Tree
  | [] => []
  | t :: ts => t.restoreOwn r :: restoreOwnAll r ts

end

/-- Puts accesses in place of the variables that belong to a callback. -/
def restoreAccesses (r : Resolution) : Tree → Tree
  | functionExpr s self isAsync isGenerator fs params decorators body typeParams result =>
    functionExpr s self isAsync isGenerator fs (params.restoreOwn r) decorators
      (body.restoreOwn r) typeParams result
  | arrow s isAsync params body typeParams result =>
    arrow s isAsync (params.restoreOwn r) (body.restoreOwn r) typeParams result
  | t => t

mutual

/-- A tree without its spans. -/
def unplaced : Tree → Tree
  | node l _ ts => node l .nowhere (unplacedAll ts)

/-- Trees without their spans. -/
def unplacedAll : List Tree → List Tree
  | [] => []
  | t :: ts => t.unplaced :: unplacedAll ts

end

lemma restoreOwnAll_eq (r : Resolution) (ts : List Tree) :
    restoreOwnAll r ts = ts.map (restoreOwn r) := by
  induction ts with
  | nil => rfl
  | cons t ts ih => rw [restoreOwnAll, ih, List.map_cons]

lemma unplacedAll_eq (ts : List Tree) : unplacedAll ts = ts.map unplaced := by
  induction ts with
  | nil => rfl
  | cons t ts ih => rw [unplacedAll, ih, List.map_cons]

lemma occurrencesAll_eq (a : String) (ts : List Tree) :
    occurrencesAll a ts = (ts.map (occurrences a)).sum := by
  induction ts with
  | nil => rfl
  | cons t ts ih => rw [occurrencesAll, ih, List.map_cons, List.sum_cons]

/-- What does not occur in a tree does not occur at anything that stands in it. -/
lemma Has.occurrences_eq_zero {t u : Tree} (h : t.Has u) {a : String} (ht : t.occurrences a = 0) :
    u.occurrences a = 0 := by
  induction h with
  | self t => exact ht
  | part hmem _ ih =>
    rw [occurrences, occurrencesAll_eq, Nat.add_eq_zero_iff,
      List.sum_eq_zero_iff_forall_eq_nat] at ht
    exact ih (ht.2 _ (List.mem_map_of_mem hmem))

/-- What is put back in place of a name was written in place of an access. -/
lemma exists_of_restored? {r : Resolution} {l : Label} {p : String} (h : restored? r l = some p) :
    ∃ x, l = .name x ∧ r.lookup p = some x := by
  unfold restored? at h
  split at h
  · exact ⟨_, rfl, Resolution.lookup_of_property? h⟩
  · exact absurd h (by simp)

/-- Accesses can be put back in a phrase in which their variables did not occur before. -/
lemma unplaced_restoreOwn {r : Resolution} (hr : r.IsInjective) {t : Tree}
    (ht : ∀ x ∈ r.names, t.occurrences x = 0) :
    ((t.replaceOwn r).restoreOwn r).unplaced = t.unplaced := by
  induction t using Tree.induct with
  | node l s ts ih =>
    have hname : restored? r l = none := by
      cases h : restored? r l with
      | none => rfl
      | some p =>
        obtain ⟨x, rfl, hx⟩ := exists_of_restored? h
        exact absurd (ht x (Resolution.mem_names_of_lookup hx)) (by simp [occurrences])
    rcases replaceOwn_cases r l s ts with ⟨p, this, prop, x, rfl, rfl, hx, hreplaced⟩ |
      ⟨hl, hself⟩ | ⟨hl, -, hmap⟩
    · rw [hreplaced]
      simp [restoreOwn, restored?, Resolution.property?_of_lookup hr hx, unplaced, unplacedAll]
    · rw [hself]
      simp [restoreOwn, hname, hl]
    · have hparts : (ts.map (replaceOwn r)).map (fun t => (t.restoreOwn r).unplaced) =
          ts.map unplaced := by
        rw [List.map_map]
        refine List.map_congr_left fun t hmem => ih t hmem fun x hx => ?_
        exact (Has.part hmem (.self t)).occurrences_eq_zero (ht x hx)
      rw [hmap]
      simp only [restoreOwn, hname, hl, Bool.false_eq_true, if_false, restoreOwnAll_eq, unplaced,
        unplacedAll_eq, ← hparts, List.map_map]
      rfl

/-! ### Callbacks -/

/-- The place of the function that a callback is. -/
def ownPlace : Tree → List ℕ
  | functionExpr .. => [1]
  | _ => []

end Tree

namespace Shell

/-- The place of the parameters of a function literal. -/
def paramsPlace : Shell → List ℕ
  | function .. => [1, 0]
  | arrow .. => [0]

/-- The place of the body of a function literal. -/
def bodyPlace : Shell → List ℕ
  | function .. => [1, 2]
  | arrow .. => [1]

lemma at?_params (k : Shell) (params body : Tree) (place : List ℕ) :
    (k.literal params body).at? (k.paramsPlace ++ place) = params.at? place := by
  cases k <;> rfl

lemma at?_body (k : Shell) (params body : Tree) (place : List ℕ) :
    (k.literal params body).at? (k.bodyPlace ++ place) = body.at? place := by
  cases k <;> rfl

/-- A function literal changes where its parameters and its body change. -/
lemma changes_literal (k : Shell) (params params' body body' : Tree) :
    (k.literal params body).changes (k.literal params' body') =
      (params.changes params').map (k.paramsPlace ++ ·) ++
        (body.changes body').map (k.bodyPlace ++ ·) := by
  cases k with
  | function s self isAsync isGenerator fs decorators typeParams result =>
    simp [literal, Tree.changes_of_head, Tree.changesFrom, Tree.changes_self, paramsPlace,
      bodyPlace, Function.comp_def]
  | arrow s isAsync typeParams result =>
    simp [literal, Tree.changes_of_head, Tree.changesFrom, Tree.changes_self, paramsPlace,
      bodyPlace]

/-- A function literal keeps the phrases in it that have a scope of their own, if its parameters and
its body do. -/
lemma keepsScopes (k : Shell) {params params' body body' : Tree}
    (hparams : params.KeepsScopes params') (hbody : body.KeepsScopes body') {place : List ℕ}
    {u : Tree} (hu : (k.literal params body).at? place = some u)
    (hl : u.label.isBoundary = true) (hplace : place ≠ (k.literal params body).ownPlace) :
    (k.literal params' body').at? place = some u := by
  cases k with
  | function s self isAsync isGenerator fs decorators typeParams result =>
    have hparts : List.Forall₂ Tree.KeepsScopes [params, decorators, body, typeParams, result]
        [params', decorators, body', typeParams, result] :=
      .cons hparams (.cons (.refl _) (.cons hbody (.cons (.refl _) (.cons (.refl _) .nil))))
    -- the phrase stands in the name or in the function of the expression, the two parts of it
    rcases place with _ | ⟨_ | _ | i, place⟩
    · obtain rfl := Option.some.inj hu
      exact absurd hl (by simp [literal, Label.isBoundary])
    · exact hu
    · cases place with
      | nil => exact absurd rfl hplace
      | cons i place =>
        exact Tree.KeepsScopes.below hparts (l := .function isAsync isGenerator) (s := fs) hu hl
    · exact absurd hu (by simp [literal])
  | arrow s isAsync typeParams result =>
    have hparts : List.Forall₂ Tree.KeepsScopes [params, body, typeParams, result]
        [params', body', typeParams, result] :=
      .cons hparams (.cons hbody (.cons (.refl _) (.cons (.refl _) .nil)))
    cases place with
    | nil => exact absurd rfl hplace
    | cons i place => exact Tree.KeepsScopes.below hparts hu hl

end Shell

namespace Tree

/-- What replacing accesses does to a callback, if it is said to replace a number of them. -/
structure Substituted (r : Resolution) (t t' : Tree) (replaced : ℕ) : Prop where
  /-- Below the function that the callback is, phrases with a scope of their own are kept. -/
  scopes : ∀ place u, t.at? place = some u → u.label.isBoundary = true → place ≠ t.ownPlace →
    t'.at? place = some u
  /-- So many places change. -/
  length : (changes t t').length = replaced
  nodup : (changes t t').Nodup
  /-- At each of them an access has become a variable. -/
  access : ∀ place ∈ changes t t', ReplacedAt r t t' place
  /-- Everywhere else the node is the same. -/
  elsewhere : ∀ place, (∀ change ∈ changes t t', ¬change <+: place) →
    (t'.at? place).map head = (t.at? place).map head

lemma replaceCount_literal (r : Resolution) (k : Shell) (params body : Tree) :
    (k.literal params body).replaceCount r = params.replaceableOwn r + body.replaceableOwn r := by
  cases k <;> rfl

lemma restoreAccesses_literal (r : Resolution) (k : Shell) (params body : Tree) :
    (k.literal params body).restoreAccesses r =
      k.literal (params.restoreOwn r) (body.restoreOwn r) := by
  cases k <;> rfl

lemma substituted_literal (r : Resolution) (k : Shell) (params body : Tree) :
    Substituted r (k.literal params body) ((k.literal params body).replaceAccesses r)
      ((k.literal params body).replaceCount r) := by
  rw [replaceAccesses_literal]
  refine ⟨?_, ?_, nodup_changes _ _, ?_, fun _ => head_at?_of_changes⟩
  · exact fun _ _ => k.keepsScopes (keepsScopes_replaceOwn r params) (keepsScopes_replaceOwn r body)
  · rw [k.changes_literal, List.length_append, List.length_map, List.length_map,
      length_changes_replaceOwn, length_changes_replaceOwn, replaceCount_literal]
  · intro place hplace
    rw [k.changes_literal, List.mem_append] at hplace
    rcases hplace with hplace | hplace
    · obtain ⟨rest, hrest, rfl⟩ := List.mem_map.1 hplace
      exact (replacedAt_of_mem_changes r params rest hrest).within (k.at?_params _ _ _)
        (k.at?_params _ _ _)
    · obtain ⟨rest, hrest, rfl⟩ := List.mem_map.1 hplace
      exact (replacedAt_of_mem_changes r body rest hrest).within (k.at?_body _ _ _)
        (k.at?_body _ _ _)

/-- Replacing the accesses of a callback is a substitution: it changes the callback at the places of
the accesses only; if no two properties share a variable and no variable occurs in the callback, the
accesses can be put back, apart from their spans; and a second time nothing is replaced. -/
theorem substitutesAccesses (r : Resolution) (callback : Tree)
    (hlit : callback.isFunctionLiteral = true) :
    Substituted r callback (callback.replaceAccesses r) (callback.replaceCount r) ∧
      (r.IsInjective → (∀ x ∈ r.names, callback.occurrences x = 0) →
        ((callback.replaceAccesses r).restoreAccesses r).unplaced = callback.unplaced) ∧
      (callback.replaceAccesses r).replaceCount r = 0 ∧
      (callback.replaceAccesses r).replaceAccesses r = callback.replaceAccesses r := by
  obtain ⟨k, params, body, rfl⟩ := exists_shell hlit
  have hagain : ((k.literal params body).replaceAccesses r).replaceAccesses r =
      (k.literal params body).replaceAccesses r := by
    simp only [replaceAccesses_literal, replaceOwn_replaceOwn]
  refine ⟨substituted_literal r k params body, ?_, ?_, hagain⟩
  · intro hr hfresh
    have hparams := unplaced_restoreOwn hr fun x hx =>
      (k.has_params params body).occurrences_eq_zero (hfresh x hx)
    have hbody := unplaced_restoreOwn hr fun x hx =>
      (k.has_body params body).occurrences_eq_zero (hfresh x hx)
    rw [replaceAccesses_literal, restoreAccesses_literal]
    cases k <;> simp [Shell.literal, unplaced, unplacedAll, hparams, hbody]
  · have hlength := (substituted_literal r k (params.replaceOwn r) (body.replaceOwn r)).length
    rw [← replaceAccesses_literal, hagain, changes_self] at hlength
    exact hlength.symm

/-- The callback `function() { this.x = this.y; [this.x] = a; run(()=>this.x); }`. -/
def assignsAccesses : Tree :=
  let access (p : String) : Tree := accessOf p .nowhere .nowhere .nowhere
  plainFunction [] [
    node .exprStmt .nowhere [node (.assign "=") .nowhere [access "x", access "y"]],
    node .exprStmt .nowhere [node (.assign "=") .nowhere
      [node .arrayPattern .nowhere [access "x"], name "a" .nowhere]],
    callStmt "run" [arrow .nowhere false (group []) (access "x") absent absent]]

theorem substitutesAccesses_assignsAccesses :
    let r : Resolution := [("x", "x"), ("y", "y_fromSetup")]
    assignsAccesses.isFunctionLiteral = true ∧ r.IsInjective ∧
      (∀ x ∈ r.names, assignsAccesses.occurrences x = 0) ∧
      changes assignsAccesses (assignsAccesses.replaceAccesses r) =
        [[1, 2, 0, 0, 0], [1, 2, 0, 0, 1], [1, 2, 1, 0, 0, 0]] ∧
      Substituted r assignsAccesses (assignsAccesses.replaceAccesses r) 3 ∧
      ((assignsAccesses.replaceAccesses r).restoreAccesses r).unplaced =
        assignsAccesses.unplaced := by
  intro r
  have hr : r.IsInjective := by decide +kernel
  have hfresh : ∀ x ∈ r.names, assignsAccesses.occurrences x = 0 := by decide +kernel
  have h := substitutesAccesses r assignsAccesses rfl
  exact ⟨rfl, hr, hfresh, by decide +kernel, h.1, h.2.1 hr hfresh⟩

end Tree

end ContextHoist
