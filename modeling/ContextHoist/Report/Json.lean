/-
Reports as data for other programs.

* `JsonValue`: values of the data format.
* `JsonValue.pretty`: a value as text, with two blanks for each level.
* `ConversionReport.json`: the report in this format.
-/
import ContextHoist.Batch

namespace ContextHoist

/-- Values of the data format.  All numbers are whole. -/
inductive JsonValue where
  | bool (b : Bool)
  | number (n : Nat)
  | string (s : String)
  | array (items : List JsonValue)
  | object (fields : List (String × JsonValue))
  deriving Repr, Inhabited

namespace JsonValue

/-- A character in a string.  Quotes, backslashes and control characters are escaped. -/
def escapedChar (c : Char) : String :=
  if c == '"' then "\\\""
  else if c == '\\' then "\\\\"
  else if c == '\x08' then "\\b"
  else if c == '\t' then "\\t"
  else if c == '\n' then "\\n"
  else if c == '\x0c' then "\\f"
  else if c == '\r' then "\\r"
  else if c.toNat < 32 then
    "\\u00" ++ String.ofList [Nat.digitChar (c.toNat / 16), Nat.digitChar (c.toNat % 16)]
  else c.toString

/-- A string between quotes. -/
def quoted (s : String) : String :=
  "\"" ++ String.join (s.toList.map escapedChar) ++ "\""

/-- The blanks at the front of a line. -/
def indent (level : Nat) : String :=
  String.ofList (List.replicate (2 * level) ' ')

mutual

/-- A value as text, inside so many levels. -/
def prettyAt (level : Nat) : JsonValue → String
  | bool b => if b then "true" else "false"
  | number n => toString n
  | string s => quoted s
  | array [] => "[]"
  | array (v :: vs) =>
    "[\n" ++ prettyItems (level + 1) (v :: vs) ++ "\n" ++ indent level ++ "]"
  | object [] => "\x7b\x7d"
  | object (f :: fs) =>
    "\x7b\n" ++ prettyFields (level + 1) (f :: fs) ++ "\n" ++ indent level ++ "\x7d"

/-- The lines for the items of an array. -/
def prettyItems (level : Nat) : List JsonValue → String
  | [] => ""
  | [v] => indent level ++ prettyAt level v
  | v :: vs => indent level ++ prettyAt level v ++ ",\n" ++ prettyItems level vs

/-- The lines for the fields of an object. -/
def prettyFields (level : Nat) : List (String × JsonValue) → String
  | [] => ""
  | [(k, v)] => indent level ++ quoted k ++ ": " ++ prettyAt level v
  | (k, v) :: fs =>
    indent level ++ quoted k ++ ": " ++ prettyAt level v ++ ",\n" ++ prettyFields level fs

end

/-- A value as text. -/
def pretty (v : JsonValue) : String :=
  prettyAt 0 v

/-- An array of strings. -/
def strings (xs : List String) : JsonValue :=
  array (xs.map string)

end JsonValue

open JsonValue

/-- The numbers and names of a run as data. -/
def Stats.toJson (s : Stats) : JsonValue :=
  object [("suites", number s.suites), ("hoisted", strings s.hoisted),
    ("callbacks_converted", number s.callbacksConverted),
    ("unresolved_reads", strings s.unresolvedReads), ("renamed_locals", strings s.renamedLocals)]

/-- A change as data. -/
def Change.toJson (c : Change) : JsonValue :=
  object [("change_type", string c.kind.name), ("description", string c.description)]

/-- A summary as data. -/
def Summary.toJson (s : Summary) : JsonValue :=
  object [("files_scanned", number s.filesScanned), ("files_modified", number s.filesModified),
    ("files_failed", number s.filesFailed), ("suites_rewritten", number s.suitesConverted),
    ("variables_hoisted", number s.variablesHoisted),
    ("callbacks_converted", number s.callbacksConverted),
    ("unresolved_reads", number s.unresolvedReads), ("dry_run", bool s.dryRun)]

/-- A file that changed as data, without its text. -/
def ConvertedFile.toJson (f : ConvertedFile) : JsonValue :=
  object [("path", string f.path), ("changes", array (f.changes.map Change.toJson)),
    ("stats", f.stats.toJson)]

/-- A file that failed as data. -/
def FailedFile.toJson (f : FailedFile) : JsonValue :=
  object [("path", string f.path), ("error", string f.error)]

namespace ConversionReport

/-- The report as data. -/
def toJson (r : ConversionReport) : JsonValue :=
  object [("summary", r.summary.toJson), ("files", array (r.files.map ConvertedFile.toJson)),
    ("failures", array (r.failures.map FailedFile.toJson))]

/-- The report as the text of its data. -/
def json (r : ConversionReport) : String :=
  r.toJson.pretty

end ConversionReport

end ContextHoist
