/-
The files that paths stand for.

A path to a folder stands for the files that are reached from the folder step by step, through
folders that are entered.  The search goes over all files of the tree instead, and tells from the
names on the way whether a file is reached; in a tree whose entries all stand in folders that is
the same.

* `FileTree.IsTree`: each place has one entry, with a proper name and in a folder.
* `FileTree.Reaches`: a file is reached from a folder by some names.
* `FileTree.StandsFor`: what a path stands for, as components.
* `FileTree.mem_filesBelow`: the search finds what is reached.
* `collect_standsFor`: the result of the search as a whole.
-/
import ContextHoist.Discovery
import ContextHoist.Proofs.Files
import ContextHoist.Proofs.Paths
import Mathlib.Data.List.Induction
import Mathlib.Data.List.Sort

namespace ContextHoist

namespace FileTree

/-! ### Trees -/

/-- The entries of a tree: one at a place, each with a proper name and in a folder. -/
structure IsTree (t : FileTree) : Prop where
  nodup : (t.entries.map (·.1)).Nodup
  ne_nil : ∀ e ∈ t.entries, e.1 ≠ []
  isName : ∀ e ∈ t.entries, ∀ x ∈ e.1, Path.IsName x
  parent : ∀ e ∈ t.entries, t.entry? e.1.dropLast = some .folder

/-- What is looked up is an entry, and an entry is looked up if its place is no other's. -/
lemma lookup_eq_some {entries : List (Place × Entry)} (h : (entries.map (·.1)).Nodup)
    {place : Place} {e : Entry} : entries.lookup place = some e ↔ (place, e) ∈ entries := by
  induction entries with
  | nil => simp
  | cons head rest ih =>
    obtain ⟨p, old⟩ := head
    obtain ⟨hnot, hrest⟩ := List.nodup_cons.1 h
    rw [List.lookup_cons, List.mem_cons, Prod.mk.injEq]
    by_cases hp : place = p
    · subst hp
      have hother : (place, e) ∉ rest := fun hmem =>
        hnot (List.mem_map.2 ⟨(place, e), hmem, rfl⟩)
      simp [hother, eq_comm]
    · simp [beq_eq_false_iff_ne.2 hp, hp, ih hrest]

namespace IsTree

variable {t : FileTree}

lemma entry?_eq_some (ht : t.IsTree) {place : Place} (hplace : place ≠ []) {e : Entry} :
    t.entry? place = some e ↔ (place, e) ∈ t.entries := by
  rw [entry?_eq_lookup t hplace, lookup_eq_some ht.nodup]

/-- On the way to an entry there are only folders. -/
lemma folder_of_append (ht : t.IsTree) {top names : Place} {e : Entry} (hnames : names ≠ [])
    (h : t.entry? (top ++ names) = some e) : t.entry? top = some .folder := by
  induction names using List.reverseRecOn generalizing e with
  | nil => exact absurd rfl hnames
  | append_singleton names x ih =>
    rw [← List.append_assoc] at h
    have hparent := ht.parent _ ((ht.entry?_eq_some (by simp)).1 h)
    rw [List.dropLast_concat] at hparent
    by_cases hempty : names = []
    · rwa [hempty, List.append_nil] at hparent
    · exact ih hempty hparent

/-- The folder around a folder is one. -/
lemma folder_dropLast (ht : t.IsTree) {place : Place} (h : t.entry? place = some .folder) :
    t.entry? place.dropLast = some .folder := by
  rcases eq_or_ne place [] with rfl | hplace
  · exact h
  · exact ht.parent _ ((ht.entry?_eq_some hplace).1 h)

end IsTree

/-! ### Ends of paths -/

/-- Links are followed, so segments do not lead to one. -/
lemma entry?_of_follow {t : FileTree} (ht : t.IsTree) {links : Nat} {place : Place}
    {segments : List String} {p : Place}
    (hplace : segments = [] → ∀ target, t.entry? place ≠ some (.link target))
    (h : t.follow links place segments = .ok (.found p)) (target : String) :
    t.entry? p ≠ some (.link target) := by
  fun_induction FileTree.follow t links place segments with
  | case1 =>
    obtain ⟨rfl⟩ := h
    exact hplace rfl target
  | case2 links place x rest hfolder hdot ih => exact ih (fun _ _ => by simp [hfolder]) h
  | case3 links place x rest hfolder hdot hup ih =>
    have hparent := ht.folder_dropLast hfolder
    exact ih (fun _ _ => by simp [hparent]) h
  | case7 place x rest hfolder hdot hup v hlink links htop ih =>
    exact ih (fun _ _ => by simp) h
  | case8 place x rest hfolder hdot hup v hlink links htop ih =>
    exact ih (fun _ _ => by simp [hfolder]) h
  | case9 links place x rest hfolder hdot hup e hnolink hsome ih =>
    refine ih (fun _ v hv => hnolink v ?_) h
    exact Option.some.inj (hsome.symm.trans hv)
  | _ => cases h

/-- A path leads to a file or to a folder, if it leads anywhere. -/
lemma find?_ne_link {t : FileTree} (ht : t.IsTree) (path : String) (place : Place)
    (target : String) : t.find? path ≠ some (place, .link target) := by
  intro h
  unfold find? at h
  split at h
  case h_2 => cases h
  case h_1 p hlocate =>
    obtain ⟨e, he, hpair⟩ := Option.map_eq_some_iff.1 h
    obtain ⟨rfl, rfl⟩ := Prod.mk.inj hpair
    obtain ⟨s, rest, hsegments⟩ := Path.exists_segments path
    have hne : Path.segments path ≠ [] := by simp [hsegments]
    unfold locate at hlocate
    split at hlocate
    · cases hlocate
    · split at hlocate
      all_goals exact entry?_of_follow ht (fun hnil => absurd hnil hne) hlocate target he

/-! ### Files below a folder -/

/-- A file is reached from a folder by some names: the last one is its own, and the others are
names of folders that are entered. -/
inductive Reaches (t : FileTree) : Place → List String → Prop
  | file {folder : Place} {x : String} {content : Content}
      (hfile : t.entry? (folder ++ [x]) = some (.file content)) : Reaches t folder [x]
  | folder {folder : Place} {x : String} {names : List String}
      (hfolder : t.entry? (folder ++ [x]) = some .folder) (hentered : isSkippedFolder x = false)
      (hreaches : Reaches t (folder ++ [x]) names) : Reaches t folder (x :: names)

/-- In a tree, the names on the way tell whether a file is reached. -/
lemma reaches_iff {t : FileTree} (ht : t.IsTree) {folder : Place} {names : List String} :
    t.Reaches folder names ↔ names ≠ [] ∧ (∃ content, t.entry? (folder ++ names) =
      some (.file content)) ∧ names.dropLast.any isSkippedFolder = false := by
  constructor
  · intro h
    induction h with
    | file hfile => exact ⟨by simp, ⟨_, hfile⟩, rfl⟩
    | @folder folder x names hfolder hentered hreaches ih =>
      obtain ⟨hne, hfile, hskipped⟩ := ih
      refine ⟨by simp, by simpa using hfile, ?_⟩
      rw [List.dropLast_cons_of_ne_nil hne, List.any_cons, hentered, hskipped]
      rfl
  · rintro ⟨hne, ⟨content, hfile⟩, hskipped⟩
    induction names generalizing folder with
    | nil => exact absurd rfl hne
    | cons x names ih =>
      rcases eq_or_ne names [] with rfl | hnames
      · exact .file hfile
      · rw [List.dropLast_cons_of_ne_nil hnames, List.any_cons, Bool.or_eq_false_iff] at hskipped
        have hstep : t.entry? (folder ++ [x] ++ names) = some (.file content) := by
          rwa [List.append_assoc, List.singleton_append]
        exact .folder (ht.folder_of_append hnames hstep) hskipped.1 (ih hnames hskipped.2 hstep)

lemma below?_eq_some {top place names : Place} :
    below? top place = some names ↔ place = top ++ names ∧ names ≠ [] := by
  induction top generalizing place with
  | nil =>
    rw [below?]
    cases place with
    | nil => simp
    | cons y ys =>
      simp only [List.isEmpty_cons, Bool.false_eq_true, if_false, Option.some.injEq,
        List.nil_append, iff_self_and]
      rintro rfl
      exact List.cons_ne_nil y ys
  | cons x xs ih =>
    cases place with
    | nil => simp [below?]
    | cons y ys =>
      rw [below?]
      by_cases hxy : x = y
      · subst hxy
        simp [ih]
      · simp [hxy, Ne.symm hxy]

lemma mem_files {t : FileTree} (ht : t.IsTree) {place : Place} {content : Content} :
    (place, content) ∈ t.files ↔ t.entry? place = some (.file content) := by
  have hmem : (place, content) ∈ t.files ↔ (place, .file content) ∈ t.entries := by
    rw [files, List.mem_filterMap]
    constructor
    · rintro ⟨⟨p, e⟩, he, hfile⟩
      cases e with
      | file c => cases hfile; exact he
      | folder => cases hfile
      | link target => cases hfile
    · exact fun he => ⟨_, he, rfl⟩
  rw [hmem]
  rcases eq_or_ne place [] with rfl | hplace
  · exact iff_of_false (fun he => ht.ne_nil _ he rfl) (by simp)
  · exact (ht.entry?_eq_some hplace).symm

/-- The search finds the files that are reached and whose own names fit. -/
theorem mem_filesBelow {t : FileTree} (ht : t.IsTree) {fits : String → Bool} {path : String}
    {folder : Place} {q : String} :
    q ∈ t.filesBelow fits path folder ↔ ∃ names, t.Reaches folder names ∧
      (∃ x ∈ names.getLast?, fits x = true) ∧ names.foldl Path.join path = q := by
  have hfits : ∀ names : List String,
      (names.getLast?.map fits).getD false = true ↔ ∃ x ∈ names.getLast?, fits x = true := by
    intro names
    cases names.getLast? <;> simp
  simp only [filesBelow, List.mem_filterMap, Option.bind_eq_bind, Option.bind_eq_some_iff,
    below?_eq_some, Option.ite_none_left_eq_some, Bool.or_eq_true, not_or, Bool.not_eq_true,
    Bool.not_eq_false', hfits, Option.some.injEq, reaches_iff ht]
  constructor
  · rintro ⟨⟨place, content⟩, hfile, names, ⟨rfl, hne⟩, ⟨hskipped, hlast⟩, hq⟩
    exact ⟨names, ⟨hne, ⟨content, (mem_files ht).1 hfile⟩, hskipped⟩, hlast, hq⟩
  · rintro ⟨names, ⟨hne, ⟨content, hfile⟩, hskipped⟩, hlast, hq⟩
    exact ⟨(_, content), (mem_files ht).2 hfile, names, ⟨rfl, hne⟩, ⟨hskipped, hlast⟩, hq⟩

/-! ### What paths stand for -/

/-- A path stands for another one, up to spelling: for itself if it leads to a file, and for the
paths to the files that are reached from it and whose names fit if it leads to a folder. -/
def StandsFor (t : FileTree) (fits : String → Bool) (p q : String) : Prop :=
  (∃ place content, t.find? p = some (place, .file content) ∧
      Path.components q = Path.components p) ∨
    ∃ folder names, t.find? p = some (folder, .folder) ∧ t.Reaches folder names ∧
      (∃ x ∈ names.getLast?, fits x = true) ∧
      Path.components q = Path.components p ++ names.map .name

/-- The names by which a file is reached are proper ones. -/
lemma isName_of_reaches {t : FileTree} (ht : t.IsTree) {folder : Place} {names : List String}
    (h : t.Reaches folder names) : ∀ x ∈ names, Path.IsName x := by
  obtain ⟨hne, ⟨content, hfile⟩, -⟩ := (reaches_iff ht).1 h
  have hmem := (ht.entry?_eq_some (by simp [hne])).1 hfile
  exact fun x hx => ht.isName _ hmem x (List.mem_append_right _ hx)

lemma collectFrom_of_missing {t : FileTree} {path : String} (h : t.find? path = none)
    (fits : String → Bool) : t.collectFrom fits path = .error (.missingInput path) := by
  rw [collectFrom, h]

/-- For a path that leads somewhere exactly what it stands for is found. -/
lemma collectFrom_of_found {t : FileTree} (ht : t.IsTree) {path : String}
    (h : t.find? path ≠ none) (fits : String → Bool) :
    ∃ files, t.collectFrom fits path = .ok files ∧
      ∀ q, (∃ r ∈ files, Path.components q = Path.components r) ↔ t.StandsFor fits path q := by
  obtain ⟨⟨place, e⟩, hfind⟩ := Option.ne_none_iff_exists'.1 h
  cases e with
  | file content =>
    refine ⟨[path], by rw [collectFrom, hfind], fun q => ?_⟩
    simp [StandsFor, hfind]
  | folder =>
    refine ⟨t.filesBelow fits path place, by rw [collectFrom, hfind], fun q => ?_⟩
    constructor
    · rintro ⟨r, hr, hq⟩
      obtain ⟨names, hreaches, hfits, rfl⟩ := (mem_filesBelow ht).1 hr
      rw [Path.components_foldl_join path (isName_of_reaches ht hreaches)] at hq
      exact .inr ⟨place, names, hfind, hreaches, hfits, hq⟩
    · rintro (⟨p, content, hfile, -⟩ | ⟨folder, names, hfolder, hreaches, hfits, hq⟩)
      · cases hfind.symm.trans hfile
      · cases hfind.symm.trans hfolder
        refine ⟨_, (mem_filesBelow ht).2 ⟨names, hreaches, hfits, rfl⟩, ?_⟩
        rwa [Path.components_foldl_join path (isName_of_reaches ht hreaches)]
  | link target => exact absurd hfind (find?_ne_link ht path place target)

/-! ### Order and repetitions -/

/-- Of paths with the same components the first one is kept, and all others are kept. -/
lemma distinctPaths_spec (paths : List String) :
    (∀ p ∈ distinctPaths paths, p ∈ paths) ∧
      (∀ p ∈ paths, ∃ q ∈ distinctPaths paths, Path.components p = Path.components q) ∧
      (distinctPaths paths).Pairwise fun p q => Path.key p ≠ Path.key q := by
  induction hlength : paths.length using Nat.strong_induction_on generalizing paths with
  | _ n ih =>
    cases paths with
    | nil => simp [distinctPaths]
    | cons p paths =>
      -- what is left behind the first path are the paths with other components
      have hcons : distinctPaths (p :: paths) =
          p :: distinctPaths (paths.filter fun q => Path.same q p = false) :=
        List.eraseDupsBy_cons
      have hshort : (paths.filter fun q => Path.same q p = false).length < n := by
        rw [← hlength]
        exact Nat.lt_succ_of_le (List.length_filter_le _ _)
      obtain ⟨hsub, hall, happart⟩ := ih _ hshort _ rfl
      rw [hcons]
      refine ⟨?_, ?_, List.pairwise_cons.2 ⟨?_, happart⟩⟩
      · intro q hq
        rcases List.mem_cons.1 hq with rfl | hq
        · exact List.mem_cons_self
        · exact List.mem_cons_of_mem _ (List.mem_filter.1 (hsub q hq)).1
      · intro q hq
        by_cases hsame : Path.components q = Path.components p
        · exact ⟨p, List.mem_cons_self, hsame⟩
        · have hpaths := (List.mem_cons.1 hq).resolve_left fun h => hsame (congrArg _ h)
          have hkept : q ∈ paths.filter fun q => Path.same q p = false :=
            List.mem_filter.2 ⟨hpaths, by simpa [Path.same] using hsame⟩
          obtain ⟨r, hr, heq⟩ := hall q hkept
          exact ⟨r, List.mem_cons_of_mem _ hr, heq⟩
      · intro q hq hkey
        have hother := (List.mem_filter.1 (hsub q hq)).2
        simp [Path.same, Path.key_inj.1 hkey] at hother

/-- The paths that are found stand in strict order. -/
lemma pairwise_mergeSort_distinctPaths (paths : List String) :
    ((distinctPaths paths).mergeSort Path.le).Pairwise fun p q => Path.key p < Path.key q := by
  have hle : ((distinctPaths paths).mergeSort Path.le).Pairwise fun p q => Path.le p q = true := by
    refine List.pairwise_mergeSort ?_ ?_ _
    · intro p q r hpq hqr
      exact Path.le_iff.2 ((Path.le_iff.1 hpq).trans (Path.le_iff.1 hqr))
    · intro p q
      rw [Bool.or_eq_true, Path.le_iff, Path.le_iff]
      exact le_total _ _
  have hne : ((distinctPaths paths).mergeSort Path.le).Pairwise
      fun p q => Path.key p ≠ Path.key q := by
    refine (List.Perm.pairwise_iff ?_ (List.mergeSort_perm _ _)).2 (distinctPaths_spec paths).2.2
    exact fun h => h.symm
  exact (hle.and hne).imp fun h => lt_of_le_of_ne (Path.le_iff.1 h.1) h.2

/-- Paths in strict order are determined by their components, up to spelling. -/
lemma map_components_eq {xs ys : List String}
    (hxs : xs.Pairwise fun p q => Path.key p < Path.key q)
    (hys : ys.Pairwise fun p q => Path.key p < Path.key q)
    (h : ∀ q, (∃ r ∈ xs, Path.same q r = true) ↔ ∃ r ∈ ys, Path.same q r = true) :
    xs.map Path.components = ys.map Path.components := by
  have hsub : ∀ {us vs : List String},
      (∀ q, (∃ r ∈ us, Path.same q r = true) → ∃ r ∈ vs, Path.same q r = true) →
        ∀ k ∈ us.map Path.key, k ∈ vs.map Path.key := by
    intro us vs huv k hk
    obtain ⟨p, hp, rfl⟩ := List.mem_map.1 hk
    obtain ⟨q, hq, hsame⟩ := huv p ⟨p, hp, Path.same_iff.2 rfl⟩
    exact List.mem_map.2 ⟨q, hq, (Path.key_inj.2 (Path.same_iff.1 hsame)).symm⟩
  have hkeys : xs.map Path.key = ys.map Path.key :=
    (List.pairwise_map.2 hxs).eq_of_mem_iff (List.pairwise_map.2 hys) fun k =>
      ⟨hsub (fun q => (h q).1) k, hsub (fun q => (h q).2) k⟩
  refine List.map_injective_iff.2 (List.map_injective_iff.2 Path.Component.key_injective) ?_
  rw [List.map_map, List.map_map]
  exact hkeys

/-! ### The whole search -/

/-- The search stops at the first path that leads nowhere. -/
lemma mapM_collectFrom_of_missing {t : FileTree} (ht : t.IsTree) (fits : String → Bool)
    {paths : List String} {p : String}
    (h : paths.find? (fun p => (t.find? p).isNone) = some p) :
    paths.mapM (t.collectFrom fits) = .error (.missingInput p) := by
  induction paths with
  | nil => cases h
  | cons q paths ih =>
    rw [List.mapM_cons]
    rw [List.find?_cons] at h
    rcases hq : t.find? q with - | found
    · rw [hq] at h
      obtain rfl := Option.some.inj h
      rw [collectFrom_of_missing hq]
      rfl
    · rw [hq] at h
      obtain ⟨files, hfiles, -⟩ := collectFrom_of_found ht (by simp [hq] : t.find? q ≠ none) fits
      rw [hfiles, ih h]
      rfl

/-- If all paths lead somewhere, what they stand for is found. -/
lemma mapM_collectFrom_of_found {t : FileTree} (ht : t.IsTree) (fits : String → Bool)
    {paths : List String} (h : ∀ p ∈ paths, t.find? p ≠ none) :
    ∃ found, paths.mapM (t.collectFrom fits) = .ok found ∧
      ∀ q, (∃ r ∈ found.flatten, Path.components q = Path.components r) ↔
        ∃ p ∈ paths, t.StandsFor fits p q := by
  induction paths with
  | nil => exact ⟨[], rfl, by simp⟩
  | cons p paths ih =>
    obtain ⟨hp, hpaths⟩ := List.forall_mem_cons.1 h
    obtain ⟨files, hfiles, hmem⟩ := collectFrom_of_found ht hp fits
    obtain ⟨found, hfound, hrest⟩ := ih hpaths
    refine ⟨files :: found, ?_, fun q => ?_⟩
    · rw [List.mapM_cons, hfiles, hfound]
      rfl
    · simp only [List.flatten_cons, List.mem_append, or_and_right, exists_or, hmem, hrest,
        List.exists_mem_cons_iff]

lemma collect_of_missing {t : FileTree} (ht : t.IsTree) (fits : String → Bool)
    {paths : List String} {p : String}
    (h : paths.find? (fun p => (t.find? p).isNone) = some p) :
    t.collect fits paths = .error (.missingInput p) := by
  rw [collect, mapM_collectFrom_of_missing ht fits h]
  rfl

lemma collect_of_found {t : FileTree} (ht : t.IsTree) (fits : String → Bool)
    {paths : List String} (h : ∀ p ∈ paths, t.find? p ≠ none) :
    ∃ files, t.collect fits paths = .ok files ∧
      files.Pairwise (fun p q => Path.key p < Path.key q) ∧
      ∀ q, (∃ r ∈ files, Path.same q r = true) ↔ ∃ p ∈ paths, t.StandsFor fits p q := by
  obtain ⟨found, hfound, hmem⟩ := mapM_collectFrom_of_found ht fits h
  obtain ⟨hsub, hall, -⟩ := distinctPaths_spec found.flatten
  refine ⟨(distinctPaths found.flatten).mergeSort Path.le, ?_,
    pairwise_mergeSort_distinctPaths _, fun q => ?_⟩
  · rw [collect, hfound]
    rfl
  · simp only [← hmem, List.mem_mergeSort, Path.same_iff]
    constructor
    · rintro ⟨r, hr, hq⟩
      exact ⟨r, hsub r hr, hq⟩
    · rintro ⟨r, hr, hq⟩
      obtain ⟨r', hr', hsame⟩ := hall r hr
      exact ⟨r', hr', hq.trans hsame⟩

end FileTree

/-- In a tree, the search fails exactly if some path leads nowhere, and names the first such path.
Otherwise it finds paths in strict order of their components, and these are, up to spelling, the
ones that some given path stands for.  If paths are given in another order or more often, the
same ones are found, up to spelling. -/
theorem collect_standsFor (t : FileTree) (ht : t.IsTree) (fits : String → Bool)
    (paths : List String) :
    (∀ e, t.collect fits paths = .error e ↔
        ∃ p, paths.find? (fun p => (t.find? p).isNone) = some p ∧ e = .missingInput p) ∧
      ((∀ p ∈ paths, t.find? p ≠ none) → ∃ files, t.collect fits paths = .ok files ∧
        files.Pairwise (fun p q => Path.key p < Path.key q) ∧
        (∀ q, (∃ r ∈ files, Path.same q r = true) ↔ ∃ p ∈ paths, t.StandsFor fits p q) ∧
        ∀ others : List String, (∀ p, p ∈ others ↔ p ∈ paths) →
          ∃ found, t.collect fits others = .ok found ∧
            found.map Path.components = files.map Path.components) := by
  constructor
  · intro e
    constructor
    · intro he
      rcases hfind : paths.find? (fun p => (t.find? p).isNone) with - | p
      · have hall : ∀ p ∈ paths, t.find? p ≠ none := by simpa using hfind
        obtain ⟨files, hfiles, -⟩ := FileTree.collect_of_found ht fits hall
        cases hfiles.symm.trans he
      · have hmissing := FileTree.collect_of_missing ht fits hfind
        exact ⟨p, rfl, Except.error.inj (he.symm.trans hmissing)⟩
    · rintro ⟨p, hp, rfl⟩
      exact FileTree.collect_of_missing ht fits hp
  · intro hall
    obtain ⟨files, hfiles, horder, hmem⟩ := FileTree.collect_of_found ht fits hall
    refine ⟨files, hfiles, horder, hmem, fun others hothers => ?_⟩
    have hexist : ∀ p ∈ others, t.find? p ≠ none := fun p hp => hall p ((hothers p).1 hp)
    obtain ⟨found, hfound, horder', hmem'⟩ := FileTree.collect_of_found ht fits hexist
    refine ⟨found, hfound, FileTree.map_components_eq horder' horder fun q => ?_⟩
    rw [hmem, hmem']
    simp only [hothers]

/-- A folder with a file and a hidden folder, and a link to it. -/
def linkedTree : FileTree where
  entries := [
    (["src"], .folder),
    (["src", "a.js"], .file (.text "")),
    (["src", ".git"], .folder),
    (["src", ".git", "b.js"], .file (.text "")),
    (["lib"], .link "src")]

/-- The file is found through the link, whose path is given in two spellings. -/
theorem collect_linkedTree :
    linkedTree.IsTree ∧ ∃ files,
      linkedTree.collect (fun x => x == "a.js") ["lib", "src/a.js", "./lib/", "lib/"] = .ok files ∧
        files.Pairwise (fun p q => Path.key p < Path.key q) ∧
        ∃ r ∈ files, Path.same "lib//a.js" r = true := by
  have htree : linkedTree.IsTree :=
    ⟨by decide, by simp [linkedTree], by simp [linkedTree, Path.IsName],
      by simp [linkedTree, FileTree.entry?, List.lookup_cons]⟩
  have hlib : linkedTree.find? "lib" = some (["src"], .folder) := by cbv
  have hfile : linkedTree.find? "src/a.js" = some (["src", "a.js"], .file (.text "")) := by cbv
  have hdot : linkedTree.find? "./lib/" = some (["src"], .folder) := by cbv
  have hslash : linkedTree.find? "lib/" = some (["src"], .folder) := by cbv
  obtain ⟨files, hfiles, horder, hmem, -⟩ :=
    (collect_standsFor linkedTree htree (fun x => x == "a.js")
      ["lib", "src/a.js", "./lib/", "lib/"]).2 (by simp [hlib, hfile, hdot, hslash])
  refine ⟨htree, files, hfiles, horder, (hmem _).2 ⟨"lib", List.mem_cons_self, .inr ?_⟩⟩
  exact ⟨["src"], ["a.js"], hlib, .file (by rfl), ⟨"a.js", rfl, rfl⟩, by decide⟩

end ContextHoist
