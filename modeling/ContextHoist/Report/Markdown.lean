/-
Reports as documents with headings and lists.

* `ConversionReport.markdown`: the summary, the files that changed, and the failures.
-/
import ContextHoist.Batch

namespace ContextHoist

/-- The mark in front of a change. -/
def ChangeKind.mark : ChangeKind → String
  | addition => "+"
  | modification => "~"
  | warning => "⚠️"

namespace ConversionReport

/-- The heading and the lines of the summary. -/
def summaryLines (r : ConversionReport) : List String :=
  let s := r.summary
  ["# Mocha Context Rewrite Report", "", "## Summary", "",
    "- **Status**: " ++ (if r.isSuccessful then "✅ Success" else "❌ Some files failed")] ++
  (if s.dryRun then ["- **Mode**: dry run, nothing written"] else []) ++
  [s!"- **Files Scanned**: {s.filesScanned}",
    s!"- **Files Modified**: {s.filesModified}",
    s!"- **Files Failed**: {s.filesFailed}",
    s!"- **Suites Rewritten**: {s.suitesConverted}",
    s!"- **Variables Hoisted**: {s.variablesHoisted}",
    s!"- **Callbacks → Arrows**: {s.callbacksConverted}",
    s!"- **Unresolved `this` Reads**: {s.unresolvedReads}", ""]

/-- The lines for one file. -/
def fileLines (f : ConvertedFile) : List String :=
  [s!"### {f.path}", ""] ++ f.changes.map (fun c => "- " ++ c.kind.mark ++ " " ++ c.description) ++
    [""]

/-- The lines for the files that changed, if there are any. -/
def filesLines (r : ConversionReport) : List String :=
  if r.files.isEmpty then [] else ["## Modified Files", ""] ++ r.files.flatMap fileLines

/-- The lines for the files that failed, if there are any. -/
def failureLines (r : ConversionReport) : List String :=
  if r.failures.isEmpty then []
  else ["## ⛔ Failures", ""] ++ r.failures.map (fun f => s!"- `{f.path}`: {f.error}") ++ [""]

/-- The report as a document. -/
def markdown (r : ConversionReport) : String :=
  String.join ((r.summaryLines ++ r.filesLines ++ r.failureLines).map (· ++ "\n"))

end ConversionReport

end ContextHoist
