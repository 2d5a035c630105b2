/-
The conversion of one source text.

* `Dialect.ofPath`: the name of a file decides which language its text is in.
* `convertText`: reads a text, converts its suites, and writes it again.
* `Converter`: a conversion that remembers what it did last.
-/
import ContextHoist.Comments
import ContextHoist.Options
import ContextHoist.Parse.Grammar
import ContextHoist.Print.Statements
import ContextHoist.Suite.Descent

namespace ContextHoist

/-- The dialect of a file, by the extension of its name. -/
def Dialect.ofPath (path : String) : Dialect :=
  match Path.extension? path with
  | some "ts" | some "mts" | some "cts" => ⟨true, false⟩
  | some "tsx" => ⟨true, true⟩
  | some "jsx" => ⟨false, true⟩
  | _ => ⟨false, false⟩

/-- Reads the text of a file. -/
def SourceFile.read (path text : String) : Except Failure SourceFile :=
  match SourceFile.parse? (Dialect.ofPath path) text with
  | some file => .ok file
  | none => .error (.unparsable path)

/-- Writes a module that was made from a file, with the comments of the file if they are
kept. -/
def SourceFile.print (file : SourceFile) (m : Module) (keepComments : Bool) : String :=
  m.print (if keepComments then some (Comments.ofLexemes file.lexemes) else none)

/-- Converts a text, and says what was done.  A text in which no suite is converted stays as it
is. -/
def convertText (o : Options) (path text : String) : Except Failure (String × Stats) := do
  let file ← SourceFile.read path text
  let (m, stats) := file.module.hoistContexts
  if stats.isEmpty then return (text, stats)
  return (file.print (m.withQuotes o.quote) o.preserveComments, stats)

/-- A conversion with its options and with what it did last. -/
structure Converter where
  options : Options
  lastStats : Stats := {}

namespace Converter

/-- Converts one more text.  A text that cannot be read leaves the memory as it is. -/
def convert (c : Converter) (path text : String) : Except Failure String × Converter :=
  match convertText c.options path text with
  | .ok (output, stats) => (.ok output, { c with lastStats := stats })
  | .error failure => (.error failure, c)

end Converter

end ContextHoist
