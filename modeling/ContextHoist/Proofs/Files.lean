/-
File trees through their entries.

Following a path depends on which places hold files, folders and links, and on where the links
lead, but not on what the files hold.  So a tree in which files have been overwritten is read
along the same paths as before.

* `FileTree.entry?_insert`: the entries after one has been put into a tree.
* `FileTree.fileAt?`: the place of the file to which a path leads.
* `FileTree.SameShape`: two trees that differ in the contents of files only; a path leads to the
  same place in both (`FileTree.SameShape.locate`).
* `FileTree.write_of_fileAt?`: to write to a file that is there is to replace its entry.
-/
import ContextHoist.FileTree
import Mathlib

namespace ContextHoist

namespace FileTree

/-! ### Entries -/

@[simp] lemma entry?_nil (t : FileTree) : t.entry? [] = some .folder := rfl

lemma entry?_eq_lookup (t : FileTree) {place : Place} (h : place ≠ []) :
    t.entry? place = t.entries.lookup place := by
  rw [ entry?, if_neg (by simpa using h)]

@[simp] lemma workingFolder_insert (t : FileTree) (place : Place) (e : Entry) :
    (t.insert place e).workingFolder = t.workingFolder := by
  unfold insert
  split <;> rfl

/-- Looking a place up among entries one of which was replaced wherever it stood. -/
lemma lookup_replace (entries : List (Place × Entry)) (place : Place) (e : Entry) (p : Place) :
    (entries.map fun (q, old) => if q == place then (q, e) else (q, old)).lookup p =
      if p = place then (entries.lookup place).map fun _ => e else entries.lookup p := by
  induction entries with
  | nil => simp
  | cons head rest ih =>
    obtain ⟨q, old⟩ := head
    simp only [List.map_cons]
    grind

/-- Looking a place up among entries with a new one at the end. -/
lemma lookup_concat (entries : List (Place × Entry)) (place : Place) (e : Entry) (p : Place) :
    (entries ++ [(place, e)]).lookup p =
      (entries.lookup p).or (if p = place then some e else none) := by
  induction entries with
  | nil =>
    by_cases hp : p = place
    · simp [hp]
    · simp [List.lookup_cons, beq_eq_false_iff_ne.2 hp, hp]
  | cons head rest ih =>
    rw [List.cons_append, List.lookup_cons, List.lookup_cons, ih]
    split <;> rfl

/-- An entry that is put into a tree stands at its place, and all others stay as they are. -/
theorem entry?_insert (t : FileTree) {place : Place} (hplace : place ≠ []) (e : Entry)
    (p : Place) :
    FileTree.entry? (t.insert place e) p = if p = place then some e else t.entry? p := by
  rcases eq_or_ne p [] with rfl | hp
  · simp [Ne.symm hplace]
  rw [entry?_eq_lookup _ hp, entry?_eq_lookup _ hp, insert]
  split
  case isTrue hsome =>
    obtain ⟨old, hold⟩ := Option.isSome_iff_exists.1 hsome
    simp only [lookup_replace, hold, Option.map_some]
  case isFalse hnone =>
    simp only [lookup_concat]
    by_cases h : p = place
    · subst h
      simp [Option.not_isSome_iff_eq_none.1 hnone]
    · simp [h]

/-! ### Paths to files -/

/-- The place of the file to which a path leads, if it leads to one. -/
def fileAt? (t : FileTree) (path : String) : Option Place :=
  match t.find? path with
  | some (place, .file _) => some place
  | _ => none

lemma fileAt?_eq_some {t : FileTree} {path : String} {place : Place} :
    t.fileAt? path = some place ↔
      t.locate path = .ok (.found place) ∧ ∃ content, t.entry? place = some (.file content) := by
  unfold fileAt? find?
  constructor
  · intro h
    split at h
    case h_2 => cases h
    case h_1 heq =>
      obtain rfl := Option.some.inj h
      split at heq
      case h_2 => cases heq
      case h_1 hlocate =>
        obtain ⟨e, he, hpair⟩ := Option.map_eq_some_iff.1 heq
        obtain ⟨rfl, rfl⟩ := Prod.mk.inj hpair
        exact ⟨hlocate, _, he⟩
  · rintro ⟨hlocate, content, hentry⟩
    simp [hlocate, hentry]

lemma ne_nil_of_entry?_file {t : FileTree} {place : Place} {content : Content}
    (h : t.entry? place = some (.file content)) : place ≠ [] := by
  rintro rfl
  cases h

/-- Reading at the end of a path goes by the entry there. -/
lemma read_of_locate {t : FileTree} {path : String} {place : Place}
    (h : t.locate path = .ok (.found place)) :
    t.read path = match t.entry? place with
      | some (.file (.text s)) => .ok s
      | some (.file (.binary _)) => .error .notText
      | some .folder => .error .isFolder
      | _ => .error .notFound := by
  rw [read, h]
  rfl

/-- Reading gives a text exactly if the path leads to a file with that text. -/
lemma read_eq_ok {t : FileTree} {path s : String} :
    t.read path = .ok s ↔
      ∃ place, t.fileAt? path = some place ∧ t.entry? place = some (.file (.text s)) := by
  simp only [fileAt?_eq_some]
  constructor
  · intro h
    rcases hlocate : t.locate path with cause | (place | place)
    · rw [read, hlocate] at h
      cases h
    · rw [read_of_locate hlocate] at h
      split at h
      case h_1 text hentry =>
        obtain rfl := Except.ok.inj h
        exact ⟨place, ⟨rfl, _, hentry⟩, hentry⟩
      all_goals cases h
    · rw [read, hlocate] at h
      cases h
  · rintro ⟨place, ⟨hlocate, -⟩, hentry⟩
    rw [read_of_locate hlocate, hentry]

/-- Writing to a file that is there replaces its entry. -/
lemma write_of_fileAt? {t : FileTree} {path : String} {place : Place}
    (h : t.fileAt? path = some place) (s : String) :
    t.write path s = .ok (t.insert place (.file (.text s))) := by
  obtain ⟨hlocate, content, hentry⟩ := fileAt?_eq_some.1 h
  simp only [write, hlocate, hentry, bind, Except.bind]
  rfl

end FileTree

/-! ### Trees that differ in the contents of files -/

/-- An entry without what its file holds. -/
def Entry.blank : Entry → Entry
  | .file _ => .file (.text "")
  | e => e

namespace FileTree

/-- Two trees with files, folders and links at the same places. -/
structure SameShape (t u : FileTree) : Prop where
  workingFolder : u.workingFolder = t.workingFolder
  entry? : ∀ place, (u.entry? place).map Entry.blank = (t.entry? place).map Entry.blank

namespace SameShape

variable {t u : FileTree}

protected lemma symm (h : SameShape t u) : SameShape u t :=
  ⟨h.workingFolder.symm, fun place => (h.entry? place).symm⟩

/-- Where no file stands, the trees have the same entry. -/
lemma entry?_eq (h : SameShape t u) {place : Place}
    (hfile : ∀ content, t.entry? place ≠ some (.file content)) :
    u.entry? place = t.entry? place := by
  have hblank := h.entry? place
  rcases ht : t.entry? place with - | (content | - | target) <;>
    rcases hu : u.entry? place with - | (c | - | v) <;>
    simp_all [Entry.blank]

/-- Where a file stands, one stands in the other tree. -/
lemma entry?_file (h : SameShape t u) {place : Place} {content : Content}
    (hfile : t.entry? place = some (.file content)) :
    ∃ c, u.entry? place = some (.file c) := by
  have hblank := h.entry? place
  rw [hfile] at hblank
  rcases hu : u.entry? place with - | (c | - | v)
  all_goals rw [hu] at hblank
  · cases hblank
  · exact ⟨c, rfl⟩
  · cases hblank
  · cases hblank

/-- Segments lead to the same place in both trees. -/
lemma follow (h : SameShape t u) (links : Nat) (place : Place) (segments : List String) :
    u.follow links place segments = t.follow links place segments := by
  -- on the way a tree is only asked for folders and links, and these are in both
  fun_induction FileTree.follow t links place segments with
  | case1 => rw [FileTree.follow]
  | case9 links place x rest hfolder hdot hup e hnolink hsome ih =>
    obtain ⟨e', hnext, hnolink'⟩ : ∃ e', u.entry? (place ++ [x]) = some e' ∧
        ∀ target, e' ≠ .link target := by
      cases e with
      | file content =>
        obtain ⟨c, hc⟩ := h.entry?_file hsome
        exact ⟨_, hc, by simp⟩
      | folder => exact ⟨_, (h.entry?_eq (by simp [hsome])).trans hsome, by simp⟩
      | link target => exact absurd rfl (hnolink target)
    rw [FileTree.follow]
    simp_all [h.entry?_eq]
  | case10 links place x rest hno =>
    rw [FileTree.follow]
    split
    case h_1 hfolder => exact absurd ((h.symm.entry?_eq (by simp [hfolder])).trans hfolder) hno
    case h_2 => rfl
  | _ =>
    rw [FileTree.follow]
    simp_all [h.entry?_eq]

lemma locate (h : SameShape t u) (path : String) : u.locate path = t.locate path := by
  simp only [FileTree.locate, h.follow, h.workingFolder]

lemma fileAt? (h : SameShape t u) (path : String) : u.fileAt? path = t.fileAt? path := by
  refine Option.ext fun place => ?_
  simp only [fileAt?_eq_some, h.locate]
  exact and_congr_right fun _ =>
    ⟨fun ⟨_, hfile⟩ => h.symm.entry?_file hfile, fun ⟨_, hfile⟩ => h.entry?_file hfile⟩

/-- A path is read alike in both trees if the file to which it leads is the same. -/
lemma read_eq (h : SameShape t u) {path : String}
    (hfile : ∀ place, t.fileAt? path = some place → u.entry? place = t.entry? place) :
    u.read path = t.read path := by
  rcases hlocate : t.locate path with cause | (place | place)
  · rw [read, read, h.locate, hlocate]
    rfl
  · have hentry : u.entry? place = t.entry? place := by
      by_cases hcontent : ∃ content, t.entry? place = some (.file content)
      · exact hfile place (fileAt?_eq_some.2 ⟨hlocate, hcontent⟩)
      · exact h.entry?_eq fun content hc => hcontent ⟨content, hc⟩
    rw [read_of_locate hlocate, read_of_locate ((h.locate path).trans hlocate), hentry]
  · rw [read, read, h.locate, hlocate]
    rfl

end SameShape

end FileTree

end ContextHoist
