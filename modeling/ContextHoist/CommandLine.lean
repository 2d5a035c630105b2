/-
The command line.

A command reads and changes a file tree, writes lines for the user, and ends with a code: zero
if all went well, one if something failed, two if the words of the command line are not used as
they should.

* `Result`: what a command leaves behind.
* `Command.paths`: the paths of which a command takes notice.
* `Command.run`: carries out a command.
* `CommandLine.run`: carries out the command that some words stand for.
-/
import ContextHoist.CommandLine.Arguments
import ContextHoist.Options.Load
import ContextHoist.Report.Markdown
import ContextHoist.Report.Json

namespace ContextHoist

/-- What a command leaves behind. -/
structure Result where
  /-- The code with which the program ends. -/
  code : Nat
  /-- The text for the user. -/
  output : String := ""
  /-- The lines about what went wrong. -/
  errors : List String := []
  tree : FileTree

/-- A heading over the report for the user. -/
def banner : String :=
  "Mocha Context to Closure Codemod\n" ++ String.ofList (List.replicate 50 '=') ++ "\n\n"

namespace ConversionReport

/-- The files of a report in which reads were left as they are. -/
def unresolvedFiles (r : ConversionReport) : List ConvertedFile :=
  r.files.filter (!·.stats.unresolvedReads.isEmpty)

/-- The report for the user, as lines. -/
def consoleLines (r : ConversionReport) : List String :=
  let s := r.summary
  [if r.isSuccessful then "✅ Codemod completed successfully!"
    else "⚠️  Codemod finished with failures"] ++
  (if s.dryRun then ["(dry run, no files were written)"] else []) ++
  ["", "📊 Summary:",
    s!"  - Files scanned: {s.filesScanned}",
    s!"  - Files modified: {s.filesModified}",
    s!"  - Suites rewritten: {s.suitesConverted}",
    s!"  - Variables hoisted: {s.variablesHoisted}",
    s!"  - Callbacks converted: {s.callbacksConverted}"] ++
  (if r.unresolvedFiles.isEmpty then []
    else ["", "ℹ️  Left as `this` (no setup found):"] ++ r.unresolvedFiles.map fun f =>
      s!"  - {f.path}: " ++ ", ".intercalate f.stats.unresolvedReads) ++
  (if r.failures.isEmpty then []
    else ["", "❌ Failed files:"] ++ r.failures.map fun f => s!"  - {f.path}: {f.error}")

/-- The report for the user. -/
def console (r : ConversionReport) : String :=
  String.join (r.consoleLines.map (· ++ "\n"))

/-- The report for a file. -/
def document (r : ConversionReport) (asData : Bool) : String :=
  if asData then r.json else r.markdown

end ConversionReport

namespace Command

/-- The name and the number of the program. -/
def versionText : String := "mocha-closure 0.1.0\n"

/-- How the program is used. -/
def helpText : String :=
  "Rewrite Mocha `this` context sharing into closures over suite variables\n\n" ++
  "Usage: mocha-closure [OPTIONS] <COMMAND>\n\n" ++
  "Commands:\n" ++
  "  transform  Rewrite test files in place\n" ++
  "  print      Print the rewritten file to stdout without touching it\n" ++
  "  help       Print this message or the help of the given subcommand(s)\n\n" ++
  "Options:\n" ++
  "  -v, --verbose  Log rewrite decisions (same as RUST_LOG=debug)\n" ++
  "  -h, --help     Print help\n" ++
  "  -V, --version  Print version\n"

/-- What a failure leaves behind. -/
def failed (tree : FileTree) (output : String) (failure : Failure) : Result where
  code := 1
  output := output
  errors := ["❌ Codemod failed!", "Error: " ++ failure.message]
  tree := tree

/-- The options of a run: those of the file, changed by those of the command line. -/
def loadOptions (t : FileTree) (config : Option String) (quote : Option QuoteStyle)
    (includes : Option String) (dryRun : Bool) : Except Failure Options := do
  let o ←
    match config with
    | some path => Options.load t path
    | none => pure {}
  return { o with
    quote := quote.getD o.quote
    includes := includes.getD o.includes
    dryRun := o.dryRun || dryRun }

/-- Converts the files that some paths stand for, and reports on it. -/
def runTransform (t : FileTree) (o : Options) (paths : List String) (report : Option String)
    (json : Bool) : Result :=
  match t.convertPaths o paths with
  | .error failure => failed t banner failure
  | .ok (r, tree) =>
    let output := banner ++ r.console
    let code := if r.isSuccessful then 0 else 1
    match report with
    | none => { code, output, tree }
    | some path =>
      match tree.write path (r.document json) with
      | .error cause => failed tree output (.unwritableReport path cause)
      | .ok tree => { code, output := output ++ s!"  - Report: {path}\n", tree }

/-- Shows what one file would become. -/
def runPrint (t : FileTree) (file : String) (quote : Option QuoteStyle) : Result :=
  match t.read file with
  | .error cause => failed t "" (.unreadable file cause)
  | .ok text =>
    match convertText { quote := quote.getD .single } file text with
    | .error failure => failed t "" failure
    | .ok (output, _) => { code := 0, output, tree := t }

/-- The paths that a command may read or write. -/
def paths : Command → List String
  | transform paths _ _ _ config report _ => paths ++ config.toList ++ report.toList
  | print file _ => [file]
  | version => []
  | help => []

/-- Carries out a command. -/
def run (t : FileTree) : Command → Result
  | transform paths dryRun quote includes config report json =>
    match loadOptions t config quote includes dryRun with
    | .error failure => failed t "" failure
    | .ok o => runTransform t o paths report json
  | print file quote => runPrint t file quote
  | version => { code := 0, output := versionText, tree := t }
  | help => { code := 0, output := helpText, tree := t }

end Command

/-- Carries out the command that the words of a command line stand for. -/
def CommandLine.run (t : FileTree) (args : List String) : Result :=
  match Command.parse? args with
  | some command => command.run t
  | none => { code := 2, errors := ["error: invalid usage"], tree := t }

end ContextHoist
