/-
The conversion of many files.

* `ConversionReport`: which files changed and how, and which could not be converted.
* `Batch`: the state of a run: the files so far, and what the converter remembers.
* `FileTree.convertFiles`: converts the given files one after the other.
* `FileTree.convertAll`: the report on them, and the files afterwards.
* `FileTree.convertPaths`: converts all files that some paths stand for.
-/
import ContextHoist.Change
import ContextHoist.Conversion
import ContextHoist.Discovery

namespace ContextHoist

/-- A file that the conversion changed. -/
structure ConvertedFile where
  path : String
  /-- The text before the conversion. -/
  original : String := ""
  /-- The text after the conversion. -/
  text : String := ""
  changes : List Change
  stats : Stats
  deriving DecidableEq, Repr, Inhabited

/-- A file that could not be converted. -/
structure FailedFile where
  path : String
  error : String
  deriving DecidableEq, Repr, Inhabited

/-- The numbers of a run. -/
structure Summary where
  filesScanned : Nat := 0
  filesModified : Nat := 0
  filesFailed : Nat := 0
  suitesConverted : Nat := 0
  variablesHoisted : Nat := 0
  callbacksConverted : Nat := 0
  unresolvedReads : Nat := 0
  dryRun : Bool := false
  deriving DecidableEq, Repr, Inhabited

/-- The outcome of a run. -/
structure ConversionReport where
  summary : Summary := {}
  /-- The files that changed, in the order of the run. -/
  files : List ConvertedFile := []
  failures : List FailedFile := []
  deriving DecidableEq, Repr, Inhabited

/-- Whether no file failed. -/
def ConversionReport.isSuccessful (r : ConversionReport) : Bool :=
  r.failures.isEmpty

/-- The sum of a number over the files that changed. -/
def total (f : Stats → Nat) : List ConvertedFile → Nat
  | [] => 0
  | file :: files => f file.stats + total f files

/-- The numbers of a run over so many files. -/
def Summary.of (scanned : Nat) (files : List ConvertedFile) (failures : List FailedFile)
    (dryRun : Bool) : Summary where
  filesScanned := scanned
  filesModified := files.length
  filesFailed := failures.length
  suitesConverted := total (·.suites) files
  variablesHoisted := total (·.hoisted.length) files
  callbacksConverted := total (·.callbacksConverted) files
  unresolvedReads := total (·.unresolvedReads.length) files
  dryRun := dryRun

/-- The state of a run. -/
structure Batch where
  tree : FileTree
  converter : Converter
  files : List ConvertedFile := []
  failures : List FailedFile := []
  /-- The paths of the files that are done, in order. -/
  done : List String := []

namespace Batch

/-- Notes that a file could not be converted. -/
def fail (b : Batch) (path : String) (failure : Failure) : Batch :=
  { b with failures := b.failures ++ [⟨path, failure.message⟩] }

/-- Notes that a file changed, and writes it unless the run is a dry one. -/
def change (b : Batch) (path original output : String) : Batch :=
  let stats := b.converter.lastStats
  let noted := { b with files := b.files ++ [⟨path, original, output, stats.changes, stats⟩] }
  if b.converter.options.dryRun then noted
  else
    match b.tree.write path output with
    | .ok tree => { noted with tree }
    | .error cause => b.fail path (.unwritable path cause)

/-- Converts one file. -/
def convertFile (b : Batch) (path : String) : Batch :=
  match b.tree.read path with
  | .error cause => b.fail path (.unreadable path cause)
  | .ok text =>
    match b.converter.convert path text with
    | (.error failure, converter) => { b with converter }.fail path failure
    | (.ok output, converter) =>
      let b := { b with converter }
      if output = text then b else b.change path text output

/-- Converts one file, and notes that it is done. -/
def step (b : Batch) (path : String) : Batch :=
  let b := b.convertFile path
  { b with done := b.done ++ [path] }

/-- The report on a run over so many files. -/
def report (b : Batch) (scanned : Nat) : ConversionReport where
  summary := .of scanned b.files b.failures b.converter.options.dryRun
  files := b.files
  failures := b.failures

end Batch

namespace FileTree

/-- Converts the given files one after the other. -/
def convertFiles (t : FileTree) (o : Options) (paths : List String) : Batch :=
  paths.foldl Batch.step { tree := t, converter := { options := o } }

/-- Converts the given files, and reports on them. -/
def convertAll (t : FileTree) (o : Options) (paths : List String) : ConversionReport × FileTree :=
  let b := t.convertFiles o paths
  (b.report paths.length, b.tree)

/-- Converts all files that some paths stand for. -/
def convertPaths (t : FileTree) (o : Options) (paths : List String) :
    Except Failure (ConversionReport × FileTree) := do
  let pattern ← o.pattern
  return t.convertAll o (← t.collect pattern.matchesIn paths)

end FileTree

end ContextHoist
