/-
The options of a run.

* `Options`: quote style, dry run, the pattern for file names, and whether comments are kept.
* `QuoteStyle.parse`: a quote style by its name, in any case.
* `Options.pattern`: the pattern for file names, if the text of it is one.
-/
import ContextHoist.Failure
import ContextHoist.Quotes
import ContextHoist.Pattern.Parse

namespace ContextHoist

/-- The names of the files that are taken from folders unless the options say otherwise. -/
def defaultInclude : String := "\\.(js|jsx|mjs|cjs|ts|tsx)$"

/-- What the user can choose. -/
structure Options where
  quote : QuoteStyle := .single
  /-- Report what would change, and write nothing. -/
  dryRun : Bool := false
  /-- The pattern for the names of files in folders. -/
  includes : String := defaultInclude
  preserveComments : Bool := true
  deriving DecidableEq, Repr, Inhabited

/-- The quote style with a name; upper and lower case do not differ. -/
def QuoteStyle.parse (text : String) : Except Failure QuoteStyle :=
  let lower := text.map Char.toLower
  match ofName? lower with
  | some style => .ok style
  | none => .error (.unknownQuoteStyle lower)

/-- The pattern for the names of files in folders. -/
def Options.pattern (o : Options) : Except Failure Pattern :=
  match Pattern.parse? o.includes with
  | some p => .ok p
  | none => .error (.badPattern o.includes)

end ContextHoist
