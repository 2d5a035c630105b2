/-
Renaming a variable can be taken back.

Renaming writes out the shorthands of the variable, `{ x }` as `{ x: x }`, and changes names; it
changes nothing else.  If the new name did not occur before, then each name tells what it was, so
that renaming back leaves the phrase as it was with these shorthands written out, and renaming once
more gives the same phrase as the first time.

There is one kind of property that renaming does not write out: `{ x = 1 }` in an object literal,
where only a pattern can have a default value.  Such a property loses its key.

* `Tree.inductRename`: induction on trees by what renaming does to them.
* `Tree.rename_rename`: two renamings, one after the other.
* `Tree.occurrences_rename`: how often a name occurs after a renaming.
* `Tree.writtenOut`, `Tree.mapNames`: the two things that renaming does.
* `Tree.keys`, `Tree.defaultedKeys`: the keys that it keeps, and those that it does not.
* `Tree.renamesReversibly`: all that is kept, and the way back.
-/
import ContextHoist.Proofs.Substitution

namespace ContextHoist

/-! ### What renaming does to a phrase -/

/-- A phrase with this label and these parts is neither a name nor a shorthand, so a variable is
renamed in it by renaming it in the parts. -/
structure Label.IsPlain (l : Label) (ts : List Tree) : Prop where
  ne_name : ∀ x, l ≠ .name x
  ne_shorthand : ∀ x s, l = .shorthand → ts = [.name x s] → False
  ne_shorthandPattern : ∀ x s value, l = .shorthandPattern → ts = [.name x s, value] → False

namespace Tree

/-- Induction on trees with a case for each thing that renaming does. -/
@[elab_as_elim]
theorem inductRename {motive : Tree → Prop}
    (name : ∀ x s ts, (∀ t ∈ ts, motive t) → motive (node (.name x) s ts))
    (shorthand : ∀ s x xs, motive (node .shorthand s [Tree.name x xs]))
    (shorthandPattern : ∀ s x xs value, motive value →
      motive (node .shorthandPattern s [Tree.name x xs, value]))
    (plain : ∀ l s ts, l.IsPlain ts → (∀ t ∈ ts, motive t) → motive (node l s ts)) (t : Tree) :
    motive t := by
  induction t using Tree.induct with
  | node l s ts ih =>
    by_cases hname : ∃ x, l = .name x
    · obtain ⟨x, rfl⟩ := hname
      exact name x s ts ih
    by_cases hshort : ∃ x xs, l = .shorthand ∧ ts = [Tree.name x xs]
    · obtain ⟨x, xs, rfl, rfl⟩ := hshort
      exact shorthand s x xs
    by_cases hpattern : ∃ x xs value, l = .shorthandPattern ∧ ts = [Tree.name x xs, value]
    · obtain ⟨x, xs, value, rfl, rfl⟩ := hpattern
      exact shorthandPattern s x xs value (ih value (.tail _ (.head _)))
    refine plain l s ts ⟨?_, ?_, ?_⟩ ih
    · exact fun x hx => hname ⟨x, hx⟩
    · exact fun x xs hl hts => hshort ⟨x, xs, hl, hts⟩
    · exact fun x xs value hl hts => hpattern ⟨x, xs, value, hl, hts⟩

lemma rename_name (a b x : String) (s : Span) (ts : List Tree) :
    (node (.name x) s ts).rename a b = node (.name (renamed a b x)) s (ts.map (rename a b)) := by
  rw [rename, renameAll_eq, renamed]

lemma rename_plain {l : Label} {ts : List Tree} (h : l.IsPlain ts) (a b : String) (s : Span) :
    (node l s ts).rename a b = node l s (ts.map (rename a b)) := by
  rw [rename, renameAll_eq]
  · exact h.ne_name
  · exact h.ne_shorthand
  · exact h.ne_shorthandPattern

/-- What becomes a name without parts was one. -/
lemma exists_of_rename_eq_name {a b x : String} {s : Span} {t : Tree}
    (h : t.rename a b = name x s) : ∃ y, t = name y s := by
  cases t using inductRename with
  | name y s' ts =>
    rw [rename_name] at h
    obtain ⟨-, rfl, hts⟩ := Tree.node.inj h
    exact ⟨y, by rw [List.map_eq_nil_iff.1 hts]⟩
  | shorthand s' y ys =>
    rw [rename] at h
    split at h <;> simp at h
  | shorthandPattern s' y ys value =>
    rw [rename] at h
    split at h <;> simp at h
  | plain l s' ts hplain =>
    rw [rename_plain hplain] at h
    exact absurd (Tree.node.inj h).1 (hplain.ne_name x)

end Tree

lemma Label.IsPlain.map_rename {l : Label} {ts : List Tree} (h : l.IsPlain ts) (a b : String) :
    l.IsPlain (ts.map (Tree.rename a b)) where
  ne_name := h.ne_name
  ne_shorthand := by
    intro x s hl hts
    obtain ⟨t, us, rfl, ht, hus⟩ := List.map_eq_cons_iff.1 hts
    obtain rfl := List.map_eq_nil_iff.1 hus
    obtain ⟨y, rfl⟩ := Tree.exists_of_rename_eq_name ht
    exact h.ne_shorthand y s hl rfl
  ne_shorthandPattern := by
    intro x s value hl hts
    obtain ⟨t, us, rfl, ht, hus⟩ := List.map_eq_cons_iff.1 hts
    obtain ⟨value', vs, rfl, -, hvs⟩ := List.map_eq_cons_iff.1 hus
    obtain rfl := List.map_eq_nil_iff.1 hvs
    obtain ⟨y, rfl⟩ := Tree.exists_of_rename_eq_name ht
    exact h.ne_shorthandPattern y s value' hl rfl

namespace Tree

lemma isPresent_rename (a b : String) (t : Tree) : (t.rename a b).isPresent = t.isPresent := by
  cases t using inductRename with
  | name x s ts => rfl
  | shorthand s x xs =>
    rw [rename]
    split <;> rfl
  | shorthandPattern s x xs value =>
    rw [rename]
    split <;> rfl
  | plain l s ts hplain =>
    rw [rename_plain hplain]
    cases l <;> cases ts <;> rfl

lemma withDefault_eq (target value : Tree) : withDefault target value =
    if value.isPresent then node .defaultPattern .nowhere [target, value] else target := by
  unfold withDefault
  split
  · rfl
  · next hvalue =>
    have hpresent : value.isPresent = true := by
      unfold isPresent
      split
      · exact absurd rfl (hvalue _)
      · rfl
    rw [hpresent, if_pos rfl]

/-- A default value is renamed together with its variable. -/
lemma rename_withDefault (a b x : String) (s : Span) (value : Tree) :
    (withDefault (name x s) value).rename a b =
      withDefault (name (renamed a b x) s) (value.rename a b) := by
  rw [withDefault_eq, withDefault_eq, isPresent_rename]
  split <;> simp [rename, renameAll, renamed]

/-! ### Names -/

mutual

/-- The names in a phrase, in order. -/
def names : Tree → List String
  | node l s ts => (node l s ts).asName?.toList ++ namesAll ts

/-- The names in a list of phrases, in order. -/
def namesAll : List Tree → List String
  | [] => []
  | t :: ts => t.names ++ namesAll ts

end

lemma namesAll_eq (ts : List Tree) : namesAll ts = ts.flatMap names := by
  induction ts with
  | nil => rfl
  | cons t ts ih => rw [namesAll, ih, List.flatMap_cons]

lemma names_part {l : Label} {s : Span} {ts : List Tree} {t : Tree} (ht : t ∈ ts) :
    t.names ⊆ (node l s ts).names := by
  intro x hx
  rw [names, namesAll_eq]
  exact List.mem_append_right _ (List.mem_flatMap.2 ⟨t, ht, hx⟩)

lemma asName?_of_ne {l : Label} (h : ∀ x, l ≠ .name x) (s : Span) (ts : List Tree) :
    (node l s ts).asName? = none := by
  unfold asName?
  split
  · next heq => exact absurd (Tree.node.inj heq).1 (h _)
  · rfl

/-- The number of times that a name occurs is that in the list of all names. -/
lemma occurrences_eq (a : String) (t : Tree) : t.occurrences a = t.names.count a := by
  induction t using Tree.induct with
  | node l s ts ih =>
    have hparts : (ts.map (occurrences a)).sum = (namesAll ts).count a := by
      rw [List.map_congr_left ih, namesAll_eq, List.count_flatMap]
      rfl
    rw [occurrences, occurrencesAll_eq, hparts, names, List.count_append]
    by_cases hname : ∃ x, l = .name x
    · obtain ⟨x, rfl⟩ := hname
      simp [asName?, List.count_singleton]
    · rw [asName?_of_ne fun x hx => hname ⟨x, hx⟩, if_neg fun hx => hname ⟨a, hx⟩]
      rfl

lemma names_withDefault (x : String) (s : Span) (value : Tree) :
    (withDefault (name x s) value).names = x :: value.names := by
  unfold withDefault
  split <;> simp [names, namesAll, asName?]

/-- Renaming changes each name by itself. -/
theorem names_rename (a b : String) (t : Tree) :
    (t.rename a b).names = t.names.map (renamed a b) := by
  induction t using inductRename with
  | name x s ts ih =>
    rw [rename_name, names, names, namesAll_eq, namesAll_eq, List.flatMap_map,
      List.flatMap_congr ih, List.map_append, List.map_flatMap]
    rfl
  | shorthand s x xs =>
    rw [rename]
    split <;> simp [names, namesAll, asName?, renamed, *]
  | shorthandPattern s x xs value ih =>
    rw [rename]
    split <;> simp [names, namesAll, asName?, renamed, names_withDefault, *]
  | plain l s ts hplain ih =>
    rw [rename_plain hplain, names, names, asName?_of_ne hplain.ne_name,
      asName?_of_ne hplain.ne_name, namesAll_eq, namesAll_eq, List.flatMap_map,
      List.flatMap_congr ih, List.map_append, List.map_flatMap]
    rfl

/-! ### Renaming twice -/

/-- Renaming a variable twice is renaming it once, unless another variable has the name that it has
in between. -/
theorem rename_rename {a b : String} (c : String) {t : Tree} (h : ∀ x ∈ t.names, x = b → x = a) :
    (t.rename a b).rename b c = t.rename a c := by
  induction t using inductRename with
  | name x s ts ih =>
    have hparts : ts.map (rename b c ∘ rename a b) = ts.map (rename a c) :=
      List.map_congr_left fun t ht => ih t ht fun y hy => h y (names_part ht hy)
    have hx : renamed b c (renamed a b x) = renamed a c x := by
      have hxb := h x (by simp [names, asName?])
      unfold renamed
      by_cases hxa : x = a
      · simp [hxa]
      · simp [hxa, mt hxb hxa]
    rw [rename_name, rename_name, rename_name, hx, List.map_map, hparts]
  | shorthand s x xs =>
    have hxb := h x (by simp [names, namesAll, asName?])
    by_cases hx : x = a
    · simp [rename, renameAll, hx]
    · simp [rename, hx, mt hxb hx]
  | shorthandPattern s x xs value ih =>
    have hxb := h x (by simp [names, namesAll, asName?])
    have hvalue := ih fun y hy => h y (names_part (.tail _ (.head _)) hy)
    by_cases hx : x = a
    · simp [rename, renameAll, hx, rename_withDefault, hvalue, renamed]
    · simp [rename, hx, mt hxb hx, hvalue]
  | plain l s ts hplain ih =>
    have hparts : ts.map (rename b c ∘ rename a b) = ts.map (rename a c) :=
      List.map_congr_left fun t ht => ih t ht fun y hy => h y (names_part ht hy)
    rw [rename_plain hplain, rename_plain hplain, rename_plain (hplain.map_rename a b),
      List.map_map, hparts]

/-- Two variables can be renamed in either order, unless the new name of one is the other one. -/
theorem rename_comm {a b c d : String} (hac : a ≠ c) (hbc : b ≠ c) (hda : d ≠ a) (t : Tree) :
    (t.rename a b).rename c d = (t.rename c d).rename a b := by
  induction t using inductRename with
  | name x s ts ih =>
    have hparts : ts.map (rename c d ∘ rename a b) = ts.map (rename a b ∘ rename c d) :=
      List.map_congr_left ih
    have hx : renamed c d (renamed a b x) = renamed a b (renamed c d x) := by
      unfold renamed
      by_cases hxa : x = a
      · simp [hxa, hac, hbc]
      · by_cases hxc : x = c
        · simp [hxc, hac.symm, hda]
        · simp [hxa, hxc]
    rw [rename_name, rename_name, rename_name, rename_name, hx, List.map_map, List.map_map, hparts]
  | shorthand s x xs =>
    by_cases hxa : x = a
    · simp [rename, renameAll, hxa, hac, hbc]
    · by_cases hxc : x = c
      · simp [rename, renameAll, hxc, hac.symm, hda]
      · simp [rename, hxa, hxc]
  | shorthandPattern s x xs value ih =>
    by_cases hxa : x = a
    · simp [rename, renameAll, hxa, hac, hbc, rename_withDefault, renamed, ih]
    · by_cases hxc : x = c
      · simp [rename, renameAll, hxc, hac.symm, hda, rename_withDefault, renamed, ih]
      · simp [rename, hxa, hxc, ih]
  | plain l s ts hplain ih =>
    have hparts : ts.map (rename c d ∘ rename a b) = ts.map (rename a b ∘ rename c d) :=
      List.map_congr_left ih
    rw [rename_plain hplain, rename_plain hplain, rename_plain (hplain.map_rename a b),
      rename_plain (hplain.map_rename c d), List.map_map, List.map_map, hparts]

/-! ### The two things that renaming does -/

mutual

/-- The phrase with the shorthands of a variable written out: `{ x }` as `{ x: x }`, and the pattern
`{ x = 1 }` as `{ x: x = 1 }`. -/
def writtenOut (a : String) : Tree → Tree
  | node .shorthand s [name x xs] =>
    if x = a then node .keyValue s [key x xs, name x xs] else node .shorthand s [name x xs]
  | node .shorthandPattern s [name x xs, value] =>
    if x = a then
      node .keyValuePattern s [key x xs, withDefault (name x xs) (value.writtenOut a)]
    else node .shorthandPattern s [name x xs, value.writtenOut a]
  | node l s ts => node l s (writtenOutAll a ts)

/-- The phrases with the shorthands of a variable written out. -/
def writtenOutAll (a : String) : List Tree → List Tree
  | [] => []
  | t :: ts => t.writtenOut a :: writtenOutAll a ts

end

mutual

/-- Changes the names in a phrase and nothing else. -/
def mapNames (f : String → String) : Tree → Tree
  | node (.name x) s ts => node (.name (f x)) s (mapNamesAll f ts)
  | node l s ts => node l s (mapNamesAll f ts)

/-- Changes the names in a list of phrases and nothing else. -/
def mapNamesAll (f : String → String) : List Tree → List Tree
  | [] => []
  | t :: ts => t.mapNames f :: mapNamesAll f ts

end

lemma writtenOutAll_eq (a : String) (ts : List Tree) :
    writtenOutAll a ts = ts.map (writtenOut a) := by
  induction ts with
  | nil => rfl
  | cons t ts ih => rw [writtenOutAll, ih, List.map_cons]

lemma mapNamesAll_eq (f : String → String) (ts : List Tree) :
    mapNamesAll f ts = ts.map (mapNames f) := by
  induction ts with
  | nil => rfl
  | cons t ts ih => rw [mapNamesAll, ih, List.map_cons]

lemma writtenOut_name (a x : String) (s : Span) (ts : List Tree) :
    (node (.name x) s ts).writtenOut a = node (.name x) s (ts.map (writtenOut a)) := by
  rw [writtenOut, writtenOutAll_eq] <;> simp

lemma writtenOut_plain {l : Label} {ts : List Tree} (h : l.IsPlain ts) (a : String) (s : Span) :
    (node l s ts).writtenOut a = node l s (ts.map (writtenOut a)) := by
  rw [writtenOut, writtenOutAll_eq]
  · exact h.ne_shorthand
  · exact h.ne_shorthandPattern

lemma isPresent_mapNames (f : String → String) (t : Tree) :
    (t.mapNames f).isPresent = t.isPresent := by
  obtain ⟨l, s, ts⟩ := t
  rw [mapNames.eq_def]
  cases l <;> cases ts <;> rfl

lemma mapNames_withDefault (f : String → String) (x : String) (s : Span) (value : Tree) :
    (withDefault (name x s) value).mapNames f =
      withDefault (name (f x) s) (value.mapNames f) := by
  rw [withDefault_eq, withDefault_eq, isPresent_mapNames]
  split <;> simp [mapNames, mapNamesAll]

/-- Renaming a variable writes out its shorthands and then changes names. -/
theorem rename_eq_mapNames (a b : String) (t : Tree) :
    t.rename a b = (t.writtenOut a).mapNames (renamed a b) := by
  induction t using inductRename with
  | name x s ts ih =>
    rw [rename_name, writtenOut_name, mapNames, mapNamesAll_eq, List.map_map,
      List.map_congr_left ih]
    rfl
  | shorthand s x xs =>
    rw [rename, writtenOut]
    split <;> simp [mapNames, mapNamesAll, renamed, *]
  | shorthandPattern s x xs value ih =>
    rw [rename, writtenOut]
    split <;> simp [mapNames, mapNamesAll, mapNames_withDefault, renamed, *]
  | plain l s ts hplain ih =>
    rw [rename_plain hplain, writtenOut_plain hplain, mapNames, mapNamesAll_eq, List.map_map,
      List.map_congr_left ih]
    · rfl
    · exact hplain.ne_name

lemma mapNames_id (t : Tree) : t.mapNames (fun x => x) = t := by
  induction t using Tree.induct with
  | node l s ts ih =>
    have hparts : mapNamesAll (fun x => x) ts = ts := by
      rw [mapNamesAll_eq, List.map_congr_left ih, List.map_id']
    rw [mapNames.eq_def]
    split <;> next heq => simp_all

lemma renamed_self (a : String) : renamed a a = fun x => x := by
  funext x
  unfold renamed
  split
  · next hx => exact hx.symm
  · rfl

/-- Renaming a variable to itself only writes out its shorthands. -/
lemma rename_self (a : String) (t : Tree) : t.rename a a = t.writtenOut a := by
  rw [rename_eq_mapNames, renamed_self, mapNames_id]

/-! ### Keys -/

end Tree

/-- The key that a phrase consists of. -/
def Label.asKey? : Label → Option String
  | .key x => some x
  | _ => none

namespace Tree

mutual

/-- The names after dots and the keys that are written as names, in order.  A shorthand has the name
of its variable as key. -/
def keys : Tree → List String
  | node .shorthand _ [name x _] => [x]
  | node .shorthandPattern _ [name x _, value] => x :: value.keys
  | node l _ ts => l.asKey?.toList ++ keysAll ts

/-- The names after dots and the keys in a list of phrases. -/
def keysAll : List Tree → List String
  | [] => []
  | t :: ts => t.keys ++ keysAll ts

end

mutual

/-- The keys of the properties `{ x = 1 }` of object literals, in order.  Only a pattern can have a
default value, but such object literals are read all the same. -/
def defaultedKeys : Tree → List String
  | node l _ ts => (if l = .shorthandDefault then ts.head?.bind asName? else none).toList ++
      defaultedKeysAll ts

/-- The keys of the properties `{ x = 1 }` in a list of phrases. -/
def defaultedKeysAll : List Tree → List String
  | [] => []
  | t :: ts => t.defaultedKeys ++ defaultedKeysAll ts

end

lemma keysAll_eq (ts : List Tree) : keysAll ts = ts.flatMap keys := by
  induction ts with
  | nil => rfl
  | cons t ts ih => rw [keysAll, ih, List.flatMap_cons]

lemma defaultedKeysAll_eq (ts : List Tree) :
    defaultedKeysAll ts = ts.flatMap defaultedKeys := by
  induction ts with
  | nil => rfl
  | cons t ts ih => rw [defaultedKeysAll, ih, List.flatMap_cons]

lemma keys_name (x : String) (s : Span) (ts : List Tree) :
    (node (.name x) s ts).keys = ts.flatMap keys := by
  rw [keys, keysAll_eq] <;> simp [Label.asKey?]

lemma keys_plain {l : Label} {ts : List Tree} (h : l.IsPlain ts) (s : Span) :
    (node l s ts).keys = l.asKey?.toList ++ ts.flatMap keys := by
  rw [keys, keysAll_eq]
  · exact h.ne_shorthand
  · exact h.ne_shorthandPattern

lemma keys_withDefault (x : String) (s : Span) (value : Tree) :
    (withDefault (name x s) value).keys = value.keys := by
  unfold withDefault
  split <;> simp [keys, keysAll, Label.asKey?]

/-- Renaming keeps the names after dots and the keys. -/
theorem keys_rename (a b : String) (t : Tree) : (t.rename a b).keys = t.keys := by
  induction t using inductRename with
  | name x s ts ih =>
    rw [rename_name, keys_name, keys_name, List.flatMap_map, List.flatMap_congr ih]
  | shorthand s x xs =>
    rw [rename]
    split <;> simp [keys, keysAll, Label.asKey?]
  | shorthandPattern s x xs value ih =>
    rw [rename]
    split <;> simp [keys, keysAll, Label.asKey?, keys_withDefault, ih]
  | plain l s ts hplain ih =>
    rw [rename_plain hplain, keys_plain (hplain.map_rename a b), keys_plain hplain,
      List.flatMap_map, List.flatMap_congr ih]

lemma defaultedKeys_withDefault (x : String) (s : Span) (value : Tree) :
    (withDefault (name x s) value).defaultedKeys = value.defaultedKeys := by
  unfold withDefault
  split <;> simp [defaultedKeys, defaultedKeysAll]

/-- A property `{ x = 1 }` of an object literal is not written out: its key is renamed. -/
theorem defaultedKeys_rename (a b : String) (t : Tree) :
    (t.rename a b).defaultedKeys = t.defaultedKeys.map (renamed a b) := by
  induction t using inductRename with
  | name x s ts ih =>
    rw [rename_name, defaultedKeys, defaultedKeys, defaultedKeysAll_eq, defaultedKeysAll_eq,
      List.flatMap_map, List.flatMap_congr ih]
    simp [List.map_flatMap]
  | shorthand s x xs =>
    rw [rename]
    split <;> simp [defaultedKeys, defaultedKeysAll]
  | shorthandPattern s x xs value ih =>
    rw [rename]
    split <;> simp [defaultedKeys, defaultedKeysAll, defaultedKeys_withDefault, ih]
  | plain l s ts hplain ih =>
    have hhead : (ts.map (rename a b)).head?.bind asName? =
        (ts.head?.bind asName?).map (renamed a b) := by
      cases ts with
      | nil => rfl
      | cons t ts => exact asName?_rename_eq a b t
    rw [rename_plain hplain, defaultedKeys, defaultedKeys, hhead, defaultedKeysAll_eq,
      defaultedKeysAll_eq, List.flatMap_map, List.flatMap_congr ih, List.map_append,
      List.map_flatMap]
    congr 1
    split
    · cases ts.head?.bind asName? <;> rfl
    · rfl

/-! ### Function literals -/

/-- Only a function becomes a function. -/
lemma exists_of_rename_eq_function {a b : String} {t : Tree} {isAsync isGenerator : Bool}
    {s : Span} {us : List Tree} (h : t.rename a b = node (.function isAsync isGenerator) s us) :
    ∃ ts, t = node (.function isAsync isGenerator) s ts ∧ us = ts.map (rename a b) := by
  cases t using inductRename with
  | name x s' ts =>
    rw [rename_name] at h
    simp at h
  | shorthand s' x xs =>
    rw [rename] at h
    split at h <;> simp at h
  | shorthandPattern s' x xs value =>
    rw [rename] at h
    split at h <;> simp at h
  | plain l s' ts hplain =>
    rw [rename_plain hplain] at h
    obtain ⟨rfl, rfl, rfl⟩ := Tree.node.inj h
    exact ⟨ts, rfl, rfl⟩

/-- What is no function literal does not become one. -/
lemma isFunctionLiteral_of_rename {a b : String} {t : Tree}
    (h : (t.rename a b).isFunctionLiteral = true) : t.isFunctionLiteral = true := by
  cases t using inductRename with
  | name x s ts => exact h
  | shorthand s x xs =>
    rw [rename] at h
    split at h <;> exact absurd h (by simp [isFunctionLiteral])
  | shorthandPattern s x xs value =>
    rw [rename] at h
    split at h <;> exact absurd h (by simp [isFunctionLiteral])
  | plain l s ts hplain =>
    rw [rename_plain hplain] at h
    unfold isFunctionLiteral at h
    split at h
    · next heq =>
      obtain ⟨rfl, rfl, hts⟩ := Tree.node.inj heq
      obtain ⟨self, us, rfl, -, hus⟩ := List.map_eq_cons_iff.1 hts
      obtain ⟨f, vs, rfl, hf, hvs⟩ := List.map_eq_cons_iff.1 hus
      obtain rfl := List.map_eq_nil_iff.1 hvs
      obtain ⟨ws, rfl, hws⟩ := exists_of_rename_eq_function hf
      rcases ws with _ | ⟨_, _ | ⟨_, _ | ⟨_, _ | ⟨_, _ | ⟨_, _ | ⟨_, ws⟩⟩⟩⟩⟩⟩ <;> simp at hws
      rfl
    · next heq =>
      obtain ⟨rfl, rfl, hts⟩ := Tree.node.inj heq
      rcases ts with _ | ⟨_, _ | ⟨_, _ | ⟨_, _ | ⟨_, _ | ⟨_, ts⟩⟩⟩⟩⟩ <;> simp at hts
      rfl
    · exact absurd h (by simp)

lemma isFunctionLiteral_rename_eq (a b : String) (t : Tree) :
    (t.rename a b).isFunctionLiteral = t.isFunctionLiteral :=
  Bool.eq_iff_iff.2 ⟨isFunctionLiteral_of_rename, isFunctionLiteral_rename a b⟩

/-- Renaming changes no access of a callback. -/
theorem contextAccesses_rename (a b : String) (t : Tree) :
    (t.rename a b).contextAccesses = t.contextAccesses := by
  rw [contextAccesses_eq, contextAccesses_eq]
  cases hlit : t.isFunctionLiteral with
  | true =>
    obtain ⟨k, params, body, rfl⟩ := exists_shell hlit
    obtain ⟨k', hk'⟩ := rename_literal a b k params body
    rw [hk', contextOccurrences_literal, contextOccurrences_literal, ownOccurrences_rename,
      ownOccurrences_rename]
  | false =>
    have hlit' : (t.rename a b).isFunctionLiteral = false := by
      rw [isFunctionLiteral_rename_eq, hlit]
    rw [contextOccurrences_of_not hlit, contextOccurrences_of_not hlit']

lemma bindings_of_not {t : Tree} (h : t.isFunctionLiteral = false) : t.bindings = [] := by
  unfold bindings
  split
  · exact absurd h (by simp [isFunctionLiteral])
  · exact absurd h (by simp [isFunctionLiteral])
  · rfl

/-- What a phrase binds is renamed, whether it is a function literal or binds nothing. -/
lemma bindings_rename_eq (a b : String) (t : Tree) :
    (t.rename a b).bindings = t.bindings.map (renamed a b) := by
  cases hlit : t.isFunctionLiteral with
  | true => exact bindings_rename a b hlit
  | false =>
    have hlit' : (t.rename a b).isFunctionLiteral = false := by
      rw [isFunctionLiteral_rename_eq, hlit]
    rw [bindings_of_not hlit, bindings_of_not hlit', List.map_nil]

/-! ### The way back -/

/-- What renaming the variable `a` to `b` does to a phrase, and what renaming it back and forth
does. -/
structure RenamesReversibly (a b : String) (t : Tree) : Prop where
  /-- The variable does not occur any more. -/
  gone : (t.rename a b).occurrences a = 0
  /-- Its shorthands are written out; besides that names change and nothing else does. -/
  image : t.rename a b = (t.writtenOut a).mapNames (renamed a b)
  /-- The names after dots and the keys stay, those of shorthands included. -/
  keys : (t.rename a b).keys = t.keys
  /-- But properties `{ a = 1 }` of object literals do not keep their key. -/
  defaultedKeys : (t.rename a b).defaultedKeys = t.defaultedKeys ↔ a ∉ t.defaultedKeys
  contextAccesses : (t.rename a b).contextAccesses = t.contextAccesses
  bindings : (t.rename a b).bindings = t.bindings.map (renamed a b)
  /-- Renaming back leaves the phrase as it was, with the shorthands written out. -/
  back : (t.rename a b).rename b a = t.writtenOut a
  again : ((t.rename a b).rename b a).rename a b = t.rename a b
  /-- All three renamings change the same number of names. -/
  occurrences_back : (t.rename a b).occurrences b = t.occurrences a
  occurrences_again : ((t.rename a b).rename b a).occurrences a = t.occurrences a

/-- A variable that is renamed to a new name is gone. -/
lemma count_map_renamed_self {a b : String} (hne : a ≠ b) (xs : List String) :
    (xs.map (renamed a b)).count a = 0 := by
  refine List.count_eq_zero.2 fun hmem => ?_
  obtain ⟨x, -, hx⟩ := List.mem_map.1 hmem
  unfold renamed at hx
  split at hx
  · exact hne hx.symm
  · contradiction

lemma map_renamed_eq_self_iff {a b : String} (hne : a ≠ b) {xs : List String} :
    xs.map (renamed a b) = xs ↔ a ∉ xs := by
  constructor
  · intro h
    rw [← List.count_eq_zero, ← h, count_map_renamed_self hne]
  · intro ha
    have hsame : ∀ x ∈ xs, renamed a b x = x := fun x hx =>
      if_neg fun (hxa : x = a) => ha (hxa ▸ hx)
    rw [List.map_congr_left hsame, List.map_id']

/-- The new name occurs where the variable has occurred. -/
lemma count_map_renamed {a b : String} {xs : List String} (hb : b ∉ xs) :
    (xs.map (renamed a b)).count b = xs.count a := by
  rw [List.count, List.countP_map, List.count]
  refine List.countP_congr fun x hx => ?_
  have hxb : x ≠ b := fun hxb => hb (hxb ▸ hx)
  by_cases hxa : x = a
  · simp [renamed, hxa]
  · simp [renamed, hxa, hxb]

/-- A variable can be renamed to a name that does not occur in a phrase, and back.  Renaming finds
every occurrence, and it keeps all keys but those of properties `{ a = 1 }` of object literals. -/
theorem renamesReversibly {a b : String} (hne : a ≠ b) {t : Tree} (hb : t.occurrences b = 0) :
    RenamesReversibly a b t := by
  have hfresh : b ∉ t.names := by
    rw [occurrences_eq] at hb
    exact List.count_eq_zero.1 hb
  have hback : (t.rename a b).rename b a = t.rename a a :=
    rename_rename a fun x hx hxb => absurd (hxb ▸ hx) hfresh
  have hagain : (t.rename a a).rename a b = t.rename a b := rename_rename b fun _ _ hx => hx
  refine ⟨?_, rename_eq_mapNames a b t, keys_rename a b t, ?_, contextAccesses_rename a b t,
    bindings_rename_eq a b t, ?_, ?_, ?_, ?_⟩
  · rw [occurrences_eq, names_rename, count_map_renamed_self hne]
  · rw [defaultedKeys_rename, map_renamed_eq_self_iff hne]
  · rw [hback, rename_self]
  · rw [hback, hagain]
  · rw [occurrences_eq, occurrences_eq, names_rename, count_map_renamed hfresh]
  · rw [hback, occurrences_eq, occurrences_eq, names_rename, renamed_self, List.map_id']

/-- The callback `function({ x = x }) { f({ x }, { x = 1 }); this.x; }`. -/
def shorthands : Tree :=
  let x : Tree := name "x" .nowhere
  plainFunction
    [node .parameter .nowhere [group [], node .objectPattern .nowhere
      [node .shorthandPattern .nowhere [x, x]]]]
    [callStmt "f" [node .object .nowhere [node .shorthand .nowhere [x]],
      node .object .nowhere [node .shorthandDefault .nowhere [x, node (.number "1") .nowhere []]]],
      accessStmt "x"]

theorem renamesReversibly_shorthands :
    "x" ≠ "y" ∧ shorthands.occurrences "y" = 0 ∧ shorthands.occurrences "x" = 4 ∧
      (shorthands.rename "x" "y").keys = ["x", "x", "x"] ∧
      (shorthands.rename "x" "y").bindings = ["y"] ∧
      shorthands.defaultedKeys = ["x"] ∧ (shorthands.rename "x" "y").defaultedKeys = ["y"] ∧
      RenamesReversibly "x" "y" shorthands := by
  have hne : "x" ≠ "y" := by decide
  have hfresh : shorthands.occurrences "y" = 0 := by decide +kernel
  exact ⟨hne, hfresh, by decide +kernel, by decide +kernel, by decide +kernel, by decide +kernel,
    by decide +kernel, renamesReversibly hne hfresh⟩

end Tree

end ContextHoist
