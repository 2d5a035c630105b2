/-
The arguments of the command line.

* `Flag`, `Valued`: the options without and with a value, and how they are written.
* `Arguments.scan`: takes a list of words apart into options and plain words.
* `Command.parse?`: the command that the words stand for.
-/
import ContextHoist.Options

namespace ContextHoist

/-- What the user asks for. -/
inductive Command where
  /-- Convert the files that some paths stand for. -/
  | transform (paths : List String) (dryRun : Bool) (quote : Option QuoteStyle)
      (includes : Option String) (config report : Option String) (json : Bool)
  /-- Show what one file would become. -/
  | print (file : String) (quote : Option QuoteStyle)
  | version
  | help
  deriving DecidableEq, Repr, Inhabited

namespace Arguments

/-- How an option is written: its long name and, if it has one, its letter. -/
structure Spelling where
  long : String
  letter : Option Char := none
  /-- A value follows. -/
  hasValue : Bool := false
  deriving DecidableEq, Repr, Inhabited

/-- What the words of a command line say. -/
structure Scanned where
  /-- The options without a value. -/
  flags : List String := []
  /-- The options with their values. -/
  values : List (String × String) := []
  /-- The words that are not options. -/
  words : List String := []
  deriving DecidableEq, Repr, Inhabited

namespace Scanned

/-- Adds an option, which may not be there already. -/
def addFlag? (s : Scanned) (x : String) : Option Scanned :=
  if s.flags.contains x then none else some { s with flags := s.flags ++ [x] }

/-- Adds an option with a value; the option may not be there already. -/
def addValue? (s : Scanned) (x v : String) : Option Scanned :=
  if (s.values.lookup x).isSome then none else some { s with values := s.values ++ [(x, v)] }

end Scanned

/-- Whether a word looks like an option: it starts with a dash and is more than one. -/
def looksLikeOption (word : String) : Bool :=
  word.startsWith "-" && word != "-"

/-- The name and the value of a word of the form `name=value`. -/
def splitValue (word : List Char) : List Char × Option (List Char) :=
  let x := word.takeWhile (· != '=')
  match word.drop x.length with
  | [] => (x, none)
  | _ :: v => (x, some v)

/-- Takes the letters of one word apart.  The result says which option still lacks its value. -/
def scanLetters (known : List Spelling) : List Char → Scanned → Option (Scanned × Option String)
  | [], s => some (s, none)
  | c :: cs, s => do
    let o ← known.find? (·.letter == some c)
    if o.hasValue then
      match cs with
      | [] => return (s, some o.long)
      | '=' :: v => return (← s.addValue? o.long (String.ofList v), none)
      | v => return (← s.addValue? o.long (String.ofList v), none)
    else scanLetters known cs (← s.addFlag? o.long)

/-- Takes a word that starts with two dashes apart.  The result says which option still lacks
its value. -/
def scanLong (known : List Spelling) (word : List Char) (s : Scanned) :
    Option (Scanned × Option String) := do
  let (x, v?) := splitValue word
  let o ← known.find? (·.long == String.ofList x)
  match o.hasValue, v? with
  | true, some v => return (← s.addValue? o.long (String.ofList v), none)
  | true, none => return (s, some o.long)
  | false, none => return (← s.addFlag? o.long, none)
  | false, some _ => none

/-- Takes words apart into options and plain words.  After a word of two dashes all words are
plain, and after a call for help no word counts. -/
def scan (known : List Spelling) : List String → Scanned → Option Scanned
  | [], s => some s
  | word :: rest, s =>
    if s.flags.contains "help" then some s
    else if word == "--" then some { s with words := s.words ++ rest }
    else if looksLikeOption word then do
      let (s, pending) ←
        match word.toList with
        | '-' :: '-' :: cs => scanLong known cs s
        | cs => scanLetters known (cs.drop 1) s
      match pending, rest with
      | none, rest => scan known rest s
      | some x, v :: rest => if looksLikeOption v then none else scan known rest (← s.addValue? x v)
      | some _, [] => none
    else scan known rest { s with words := s.words ++ [word] }

end Arguments

namespace Command

open Arguments

/-- The options that hold for all commands. -/
def globalOptions : List Spelling :=
  [⟨"verbose", some 'v', false⟩, ⟨"help", some 'h', false⟩]

/-- The options of the command that converts files. -/
def transformOptions : List Spelling :=
  globalOptions ++ [⟨"dry-run", none, false⟩, ⟨"quote", some 'q', true⟩, ⟨"include", none, true⟩,
    ⟨"config", some 'c', true⟩, ⟨"report", some 'r', true⟩, ⟨"json", none, false⟩]

/-- The options of the command that shows one file. -/
def printOptions : List Spelling :=
  globalOptions ++ [⟨"quote", some 'q', true⟩]

/-- The quote style that is given, if one is. -/
def quoteOf (s : Scanned) : Option (Option QuoteStyle) :=
  match s.values.lookup "quote" with
  | none => some none
  | some v =>
    match QuoteStyle.parse v with
    | .ok style => some (some style)
    | .error _ => none

/-- Whether an option with a path is there without a path. -/
def hasEmptyPath (s : Scanned) : Bool :=
  s.values.any (fun (x, v) => (x == "config" || x == "report") && v.isEmpty) ||
    s.words.any String.isEmpty

/-- The command that converts files. -/
def parseTransform? (args : List String) : Option Command := do
  let s ← scan transformOptions args {}
  if s.flags.contains "help" then return help
  let quote ← quoteOf s
  if s.words.isEmpty || hasEmptyPath s then none
  else
    return transform s.words (s.flags.contains "dry-run") quote (s.values.lookup "include")
      (s.values.lookup "config") (s.values.lookup "report") (s.flags.contains "json")

/-- The command that shows one file. -/
def parsePrint? (args : List String) : Option Command := do
  let s ← scan printOptions args {}
  if s.flags.contains "help" then return help
  let quote ← quoteOf s
  match s.words with
  | [file] => if file.isEmpty then none else return print file quote
  | _ => none

/-- The command that the words of a command line stand for; there is none if they are not
used as they should. -/
def parse? : List String → Option Command
  | [] => none
  | "transform" :: args => parseTransform? args
  | "print" :: args => parsePrint? args
  | "--version" :: _ => some version
  | "-V" :: _ => some version
  | "--help" :: _ => some help
  | "-h" :: _ => some help
  | ["help"] => some help
  | ["help", "transform"] => some help
  | ["help", "print"] => some help
  | ["help", "help"] => some help
  | "--verbose" :: args => parseAfterVerbose? args
  | "-v" :: args => parseAfterVerbose? args
  | _ => none
where
  /-- The command after the word for detailed messages, which may stand there once. -/
  parseAfterVerbose? : List String → Option Command
    | "transform" :: args => parseTransform? args
    | "print" :: args => parsePrint? args
    | "--version" :: _ => some version
    | "-V" :: _ => some version
    | "--help" :: _ => some help
    | "-h" :: _ => some help
    | _ => none

end Command

end ContextHoist
