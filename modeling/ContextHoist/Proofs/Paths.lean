/-
The order of paths, and paths of files in folders.

Each component has a key, its kind together with its name, and paths are ordered as the lists of
the keys of their components are.  A name that is put behind the path of a folder is one more
component.

* `Path.key`: the keys of the components of a path.
* `Path.le_iff`: the order of paths is the lexicographic order of their keys.
* `Path.IsName`: the names that an entry of a folder can have.
* `Path.components_foldl_join`: the components of a path to a file below a folder.
-/
import ContextHoist.Path
import Mathlib.Data.List.Lex
import Mathlib.Data.Prod.Lex
import Mathlib.Data.String.Basic

namespace ContextHoist

namespace Path

/-! ### Order -/

/-- The name of a component, if it is one. -/
def Component.text : Component → String
  | name x => x
  | _ => ""

/-- What a component is compared by: its kind first, then its name. -/
def Component.key (c : Component) : ℕ ×ₗ String :=
  toLex (c.rank, c.text)

lemma Component.key_injective : Function.Injective Component.key := by
  intro a b h
  have hpair := Prod.ext_iff.1 (toLex.injective h)
  cases a <;> cases b <;> simp_all [Component.rank, Component.text]

lemma Component.lt_iff {a b : Component} : a.lt b = true ↔ a.key < b.key := by
  rw [Component.key, Component.key, Prod.Lex.toLex_lt_toLex]
  cases a <;> cases b <;> simp [Component.lt, Component.rank, Component.text]

/-- What a path is compared by. -/
def key (path : String) : List (ℕ ×ₗ String) :=
  (components path).map Component.key

lemma key_inj {p q : String} : key p = key q ↔ components p = components q :=
  (List.map_injective_iff.2 Component.key_injective).eq_iff

lemma same_iff {p q : String} : same p q = true ↔ components p = components q :=
  beq_iff_eq

lemma componentsLe_iff (as bs : List Component) :
    componentsLe as bs = true ↔ as.map Component.key ≤ bs.map Component.key := by
  induction as generalizing bs with
  | nil =>
    cases bs with
    | nil => exact iff_of_true rfl le_rfl
    | cons b bs => exact iff_of_true rfl (List.nil_lt_cons _ _).le
  | cons a as ih =>
    cases bs with
    | nil => exact iff_of_false Bool.false_ne_true (not_le.2 (List.nil_lt_cons _ _))
    | cons b bs =>
      rw [componentsLe, Bool.or_eq_true, Bool.and_eq_true, beq_iff_eq, Component.lt_iff, ih,
        List.map_cons, List.map_cons, ← Component.key_injective.eq_iff, le_iff_lt_or_eq,
        le_iff_lt_or_eq, List.cons_lt_cons_iff, List.cons_eq_cons, and_or_left, or_assoc]

/-- Paths are ordered as their keys are. -/
theorem le_iff {p q : String} : le p q = true ↔ key p ≤ key q :=
  componentsLe_iff _ _

/-! ### Names in folders -/

/-- A text that can be the name of an entry in a folder. -/
def IsName (x : String) : Prop :=
  x ≠ "" ∧ x ≠ "." ∧ x ≠ ".." ∧ '/' ∉ x.toList

instance (x : String) : Decidable (IsName x) :=
  inferInstanceAs (Decidable (_ ∧ _))

lemma innerComponent?_of_isName {x : String} (hx : IsName x) :
    innerComponent? x = some (.name x) := by
  obtain ⟨hempty, hdot, hdots, -⟩ := hx
  unfold innerComponent?
  split <;> simp_all

lemma filterMap_isName {x : String} (hx : IsName x) :
    [x].filterMap innerComponent? = [.name x] := by
  rw [List.filterMap_cons, innerComponent?_of_isName hx]
  rfl

lemma segments_of_isName {x : String} (hx : IsName x) : segments x = [x] := by
  rw [segments, List.splitOn_eq_singleton hx.2.2.2]
  simp

lemma segments_append_slash (p x : String) :
    segments (p ++ "/" ++ x) = segments p ++ segments x := by
  have hlist : (p ++ "/" ++ x).toList = p.toList ++ '/' :: x.toList := by simp
  rw [segments, hlist, List.splitOn_append_cons_self, List.map_append]
  rfl

/-- The components for the first segment of a path. -/
def frontComponents : String → List Component
  | "" => [.root]
  | "." => [.here]
  | s => (innerComponent? s).toList

lemma frontComponents_of_isName {x : String} (hx : IsName x) :
    frontComponents x = [.name x] := by
  unfold frontComponents
  split
  · exact absurd rfl hx.1
  · exact absurd rfl hx.2.1
  · rw [innerComponent?_of_isName hx]
    rfl

/-- The first segment of a path is read in a way of its own, unless the path is empty. -/
lemma components_of_segments {path s : String} {rest : List String}
    (hsegments : segments path = s :: rest) (h : s ≠ "" ∨ rest ≠ []) :
    components path = frontComponents s ++ rest.filterMap innerComponent? := by
  rw [components, hsegments]
  split
  case h_1 heq => cases heq
  case h_2 heq =>
    obtain ⟨rfl, rfl⟩ := List.cons.inj heq
    exact absurd rfl (h.resolve_right fun hne => hne rfl)
  case h_3 heq =>
    obtain ⟨rfl, rfl⟩ := List.cons.inj heq
    rfl
  case h_4 heq =>
    obtain ⟨rfl, rfl⟩ := List.cons.inj heq
    rfl
  case h_5 hempty hdot =>
    have hfront : frontComponents s = (innerComponent? s).toList := by
      unfold frontComponents
      split
      · exact absurd rfl (hempty rest)
      · exact absurd rfl (hdot rest)
      · rfl
    rw [hfront, List.filterMap_cons]
    cases innerComponent? s <;> rfl

lemma exists_segments (path : String) : ∃ s rest, segments path = s :: rest := by
  refine List.exists_cons_of_ne_nil fun h => ?_
  exact List.splitOn_ne_nil '/' path.toList (List.map_eq_nil_iff.1 h)

lemma ne_of_segments {path s : String} {rest : List String} (h : segments path = s :: rest)
    (hpath : path ≠ "") : s ≠ "" ∨ rest ≠ [] := by
  by_contra hnot
  obtain ⟨rfl, rfl⟩ : s = "" ∧ rest = [] := by simpa using hnot
  have hinjective : Function.Injective (List.map String.ofList) :=
    List.map_injective_iff.2 fun _ _ => String.ofList_injective
  have hsplit : path.toList.splitOn '/' = [[]] := hinjective h
  have hlist : ['/'].intercalate (path.toList.splitOn '/') = path.toList :=
    List.intercalate_splitOn '/'
  rw [hsplit] at hlist
  exact hpath (String.toList_eq_nil_iff.1 hlist.symm)

lemma exists_of_endsWith_slash {path : String} (h : path.endsWith "/" = true) :
    ∃ p, path = p ++ "/" := by
  obtain ⟨p, hp⟩ := String.Slice.endsWith_string_iff.1 h
  rw [String.copy_toSlice] at hp
  exact ⟨String.ofList p, String.toList_inj.1 (by simp [← hp])⟩

/-- A name behind a path is one more component. -/
lemma components_join (path : String) {x : String} (hx : IsName x) :
    components (join path x) = components path ++ [.name x] := by
  have hname := segments_of_isName hx
  rw [join]
  split
  case isTrue h =>
    rcases Bool.or_eq_true_iff.1 h with hempty | hslash
    · obtain rfl := String.isEmpty_iff.1 hempty
      have hcomponents := components_of_segments hname (.inl hx.1)
      rw [String.empty_append, hcomponents, frontComponents_of_isName hx]
      rfl
    · -- the slash is there already, and the empty segment behind it becomes the name
      have hempty : [""].filterMap innerComponent? = [] := rfl
      obtain ⟨p, rfl⟩ := exists_of_endsWith_slash hslash
      obtain ⟨s, rest, hp⟩ := exists_segments p
      have hpath : segments (p ++ "/") = s :: (rest ++ [""]) := by
        have h := segments_append_slash p ""
        rwa [hp, String.append_empty] at h
      have hjoin : segments (p ++ "/" ++ x) = s :: (rest ++ [x]) := by
        rw [segments_append_slash, hp, hname, List.cons_append]
      rw [components_of_segments hpath (.inr (by simp)),
        components_of_segments hjoin (.inr (by simp)), List.append_assoc, List.filterMap_append,
        List.filterMap_append, filterMap_isName hx, hempty, List.append_nil]
  case isFalse h =>
    obtain ⟨s, rest, hpath⟩ := exists_segments path
    have hne : path ≠ "" := by
      rintro rfl
      exact h rfl
    have hjoin : segments (path ++ "/" ++ x) = s :: (rest ++ [x]) := by
      rw [segments_append_slash, hpath, hname, List.cons_append]
    rw [components_of_segments hpath (ne_of_segments hpath hne),
      components_of_segments hjoin (.inr (by simp)), List.append_assoc, List.filterMap_append,
      filterMap_isName hx]

/-- Names behind a path are as many more components. -/
theorem components_foldl_join (path : String) {names : List String}
    (hnames : ∀ x ∈ names, IsName x) :
    components (names.foldl join path) = components path ++ names.map .name := by
  induction names generalizing path with
  | nil => simp
  | cons x names ih =>
    rw [List.foldl_cons, ih _ fun y hy => hnames y (List.mem_cons_of_mem _ hy),
      components_join path (hnames x List.mem_cons_self), List.append_assoc]
    rfl

end Path

end ContextHoist
