/-
Why a run fails.

* `Failure`: the causes.
* `Failure.message`: their wording.
-/
import ContextHoist.FileTree

namespace ContextHoist

/-- The causes of failure. -/
inductive Failure where
  /-- The text of the file is not a module. -/
  | unparsable (path : String)
  /-- No quote style has this name, which is in lower case. -/
  | unknownQuoteStyle (name : String)
  /-- The text is not a pattern for file names. -/
  | badPattern (pattern : String)
  /-- The options cannot be read from this file, or from a text if the path is empty. -/
  | badOptions (path reason : String)
  | unreadableOptions (path : String) (cause : FileError)
  | missingInput (path : String)
  | unreadable (path : String) (cause : FileError)
  | unwritable (path : String) (cause : FileError)
  | unwritableReport (path : String) (cause : FileError)
  deriving DecidableEq, Repr, Inhabited

/-- The wording of a failure, on one line. -/
def Failure.message : Failure → String
  | unparsable path => "Parse error at " ++ Path.quoted path
  | unknownQuoteStyle name =>
    s!"invalid quote style `{name}` (expected single, double or preserve)"
  | badPattern pattern => s!"invalid include pattern `{pattern}`: regex parse error:"
  | badOptions path reason => s!"failed to load config {path}: {reason}"
  | unreadableOptions path cause => s!"failed to load config {path}: " ++ cause.message
  | missingInput path => s!"input path does not exist: {path}"
  | unreadable path cause => s!"Failed to read {path}: " ++ cause.message
  | unwritable path cause => s!"Failed to write {path}: " ++ cause.message
  | unwritableReport path cause => s!"Failed to write report {path}: " ++ cause.message

end ContextHoist
