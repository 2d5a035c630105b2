/-
The notation of patterns.

* `Pattern.Flags`: what the letters of `(?i)` switch on and off.
* `Pattern.Reader`: the state of reading: the rest of the text and the names of groups.
* `Pattern.parse?`: the pattern that a text denotes.  Look-around and references back to groups
  are not part of the notation.
-/
import ContextHoist.Pattern

namespace ContextHoist

namespace Pattern

/-- The modes of matching and of reading. -/
structure Flags where
  ignoreCase : Bool := false
  /-- The assertions about the ends of the text hold at the ends of lines too. -/
  multiLine : Bool := false
  /-- A dot stands for a line break too. -/
  dotAll : Bool := false
  /-- Blanks and comments in the pattern do not count. -/
  verbose : Bool := false
  deriving DecidableEq, Repr, Inhabited

/-- The state of reading. -/
structure Reader where
  rest : List Char
  /-- The names of groups so far. -/
  groups : List String := []
  flags : Flags := {}
  deriving Inhabited

/-- Computations that read a pattern and may fail. -/
abbrev Read := StateT Reader Option

namespace Read

/-- The next character. -/
def peek : Read (Option Char) := return (← get).rest.head?

/-- Goes past some characters. -/
def skip (n : Nat) : Read Unit :=
  modify fun r => { r with rest := r.rest.drop n }

/-- Takes the next character. -/
def next : Read Char := do
  match (← get).rest with
  | c :: cs =>
    modify fun r => { r with rest := cs }
    return c
  | [] => failure

/-- Goes past the given text if it comes next. -/
def accept (text : String) : Read Bool := do
  if text.toList.isPrefixOf (← get).rest then
    skip text.length
    return true
  else return false

/-- Demands the given text. -/
def demand (text : String) : Read Unit := do
  unless ← accept text do failure

/-- Takes the characters in front of the first one that fails the test. -/
def takeWhile (p : Char → Bool) : Read (List Char) := do
  let cs := (← get).rest.takeWhile p
  skip cs.length
  return cs

/-- The text without blanks and comments at its front. -/
def dropBlanks : Nat → List Char → List Char
  | 0, cs => cs
  | n + 1, cs =>
    match cs with
    | '#' :: more => dropBlanks n (more.dropWhile (· != '\n'))
    | c :: more => if CharSet.space.contains c then dropBlanks n more else cs
    | [] => []

/-- Goes past blanks and comments where they do not count. -/
def skipBlanks : Read Unit := do
  if (← get).flags.verbose then
    modify fun r => { r with rest := dropBlanks r.rest.length r.rest }

end Read

open Read

/-! ### Escapes -/

/-- The character with the number that the hexadecimal digits write. -/
def hexChar (ds : List Char) : Read Char := do
  if ds.isEmpty then failure
  match hexNumber ds with
  | some n => if n.isValidChar then return Char.ofNat n else failure
  | none => failure

/-- Reads a number of hexadecimal digits, or any number of them in braces. -/
def hexEscape (digits : Nat) : Read Char := do
  if ← accept "\x7b" then
    let ds ← Read.takeWhile (· != '\x7d')
    demand "\x7d"
    hexChar ds
  else
    let ds := (← get).rest.take digits
    if ds.length < digits then failure
    skip digits
    hexChar ds

/-- A name of the character database in the spelling that `namedSet?` knows: case, blanks, dashes
and low lines do not count. -/
def plainName (name : List Char) : String :=
  String.ofList ((name.filter fun c => c != ' ' && c != '_' && c != '-').map Char.toLower)

/-- The set with a name of the character database, as far as the notation knows it. -/
def namedSet? (name : String) : Option CharSet :=
  match name with
  | "l" | "letter" | "alphabetic" | "alpha" => some .letter
  | "lu" | "uppercaseletter" | "uppercase" | "upper" => some (.range 65 90)
  | "ll" | "lowercaseletter" | "lowercase" | "lower" => some (.range 97 122)
  | "n" | "number" | "nd" | "decimalnumber" | "digit" => some .digit
  | "whitespace" | "space" => some .space
  | "latin" => some (.inter .letter (.union (.range 0 0x24F) (.range 0x1E00 0x1EFF)))
  | "greek" => some (.inter .letter (.union (.range 0x370 0x3E1) (.range 0x1F00 0x1FFF)))
  | "cyrillic" => some (.inter .letter (.range 0x400 0x52F))
  | "any" => some (.range 0 0x10FFFF)
  | "ascii" => some (.range 0 127)
  | _ => none

/-- Reads the name of a set after `\p`. -/
def namedSet : Read CharSet := do
  if ← accept "\x7b" then
    let negated ← accept "^"
    let name ← Read.takeWhile (· != '\x7d')
    demand "\x7d"
    match namedSet? (plainName name) with
    | some s => return if negated then .compl s else s
    | none => failure
  else
    match namedSet? (plainName [← next]) with
    | some s => return s
    | none => failure

/-- What an escape stands for. -/
inductive Escaped where
  | char (c : Char)
  | set (s : CharSet)
  | assertion (p : Pattern)

/-- Whether a character may follow a backslash and then stands for itself. -/
def isPlainEscape (c : Char) : Bool :=
  c.toNat < 128 && !c.isAlphanum

/-- The assertion about the edge of a word that a name in braces stands for. -/
def edgeName? (name : String) : Option Pattern :=
  match name with
  | "start" => some .wordStart
  | "end" => some .wordStop
  | "start-half" => some .noWordBefore
  | "end-half" => some .noWordAfter
  | _ => none

/-- Reads the rest of an assertion about the edge of a word.  A brace after it encloses the name
of a special assertion if a letter or a dash follows, and else the bounds of a repetition. -/
def wordAssertion : Read Pattern := do
  let isNamePart := fun (c : Char) => c.isAlpha || c == '-'
  match (← get).rest with
  | '\x7b' :: c :: _ =>
    if isNamePart c then
      skip 1
      let name ← Read.takeWhile isNamePart
      demand "\x7d"
      match edgeName? (String.ofList name) with
      | some p => return p
      | none => failure
    else return .wordEdge
  | _ => return .wordEdge

/-- Reads what follows a backslash. -/
def escape : Read Escaped := do
  let c ← next
  match c with
  | 'd' => return .set .digit
  | 'D' => return .set (.compl .digit)
  | 's' => return .set .space
  | 'S' => return .set (.compl .space)
  | 'w' => return .set .word
  | 'W' => return .set (.compl .word)
  | 'p' => return .set (← namedSet)
  | 'P' => return .set (.compl (← namedSet))
  | 'b' => return .assertion (← wordAssertion)
  | 'B' => return .assertion .noWordEdge
  | 'A' => return .assertion .start
  | 'z' => return .assertion .stop
  | '<' => return .assertion .wordStart
  | '>' => return .assertion .wordStop
  | 'a' => return .char '\x07'
  | 'f' => return .char '\x0c'
  | 't' => return .char '\t'
  | 'n' => return .char '\n'
  | 'r' => return .char '\r'
  | 'v' => return .char '\x0b'
  | 'x' => return .char (← hexEscape 2)
  | 'u' => return .char (← hexEscape 4)
  | 'U' => return .char (← hexEscape 8)
  | c => if isPlainEscape c then return .char c else failure

/-! ### Sets in brackets -/

/-- A set that is named in brackets, such as `[:digit:]`. -/
def bracketName? (name : String) : Option CharSet :=
  let letters : CharSet := .union (.range 65 90) (.range 97 122)
  match name with
  | "alnum" => some (.union letters (.range 48 57))
  | "alpha" => some letters
  | "ascii" => some (.range 0 127)
  | "blank" => some (.union (.single '\t') (.single ' '))
  | "cntrl" => some (.union (.range 0 31) (.range 127 127))
  | "digit" => some (.range 48 57)
  | "graph" => some (.range 33 126)
  | "lower" => some (.range 97 122)
  | "print" => some (.range 32 126)
  | "punct" => some (.union (.range 33 47) (.union (.range 58 64)
      (.union (.range 91 96) (.range 123 126))))
  | "space" => some (.union (.range 9 13) (.single ' '))
  | "upper" => some (.range 65 90)
  | "word" => some (.union letters (.union (.range 48 57) (.single '_')))
  | "xdigit" => some (.union (.range 48 57) (.union (.range 65 70) (.range 97 102)))
  | _ => none

/-- Reads a set that is named in brackets, if one comes next. -/
def bracketName : Read (Option CharSet) := do
  let saved ← get
  if ← accept "[:" then
    let negated ← accept "^"
    let name ← Read.takeWhile Char.isAlpha
    if ← accept ":]" then
      match bracketName? (String.ofList name) with
      | some s => return some (if negated then .compl s else s)
      | none => failure
    else
      set saved
      return none
  else return none

/-- Reads one end of a range of characters, or a set that an escape names. -/
def setItem : Read Escaped := do
  let c ← next
  if c == '\\' then escape else return .char c

/-- Reads a character, a range of characters, or a set that an escape names. -/
def setRange : Read CharSet := do
  match ← setItem with
  | .assertion _ => failure
  | .set s => return s
  | .char lo =>
    skipBlanks
    match (← get).rest with
    | '-' :: ']' :: _ => return .single lo
    | '-' :: '-' :: _ => return .single lo
    | '-' :: _ =>
      skip 1
      skipBlanks
      match ← setItem with
      | .char hi => if lo ≤ hi then return .range lo.toNat hi.toNat else failure
      | _ => failure
    | _ => return .single lo

/-- How the sets on the two sides of an operator in brackets are combined. -/
inductive SetOperator where
  | both
  | without
  | oneOf

/-- Combines two sets. -/
def SetOperator.apply : SetOperator → CharSet → CharSet → CharSet
  | both, a, b => .inter a b
  | without, a, b => .inter a (.compl b)
  | oneOf, a, b => .union (.inter a (.compl b)) (.inter b (.compl a))

mutual

/-- Reads a set in brackets, after the opening bracket.  The bound limits the nesting and the
length. -/
def bracketSet (depth : Nat) : Read CharSet := do
  match depth with
  | 0 => failure
  | depth + 1 =>
    skipBlanks
    let negated ← accept "^"
    skipBlanks
    let dashes ← Read.takeWhile (· == '-')
    let start : CharSet := if dashes.isEmpty then .empty else .single '-'
    let start ←
      if dashes.isEmpty && (← accept "]") then pure (CharSet.single ']') else pure start
    let s ← bracketItems depth start none
    return if negated then .compl s else s

/-- Reads the items of a set in brackets up to the closing bracket.  The operator and the set on
its left, if there are any, are applied to what comes in front of the next operator. -/
def bracketItems (depth : Nat) (sofar : CharSet) (left : Option (SetOperator × CharSet)) :
    Read CharSet := do
  match depth with
  | 0 => failure
  | depth + 1 =>
    skipBlanks
    let whole := match left with
      | some (op, s) => op.apply s sofar
      | none => sofar
    if ← accept "]" then return whole
    else if ← accept "&&" then bracketItems depth .empty (some (.both, whole))
    else if ← accept "--" then bracketItems depth .empty (some (.without, whole))
    else if ← accept "~~" then bracketItems depth .empty (some (.oneOf, whole))
    else if (← peek) == some '[' then
      match ← bracketName with
      | some s => bracketItems depth (.union sofar s) left
      | none =>
        skip 1
        let s ← bracketSet depth
        bracketItems depth (.union sofar s) left
    else
      let s ← setRange
      bracketItems depth (.union sofar s) left

end

/-! ### Repetitions -/

/-- Reads a decimal number with blanks around it. -/
def decimal : Read Nat := do
  let _ ← Read.takeWhile CharSet.space.contains
  let ds ← Read.takeWhile Char.isDigit
  let _ ← Read.takeWhile CharSet.space.contains
  if ds.isEmpty then failure
  let n := ds.foldl (fun n d => 10 * n + (d.toNat - 48)) 0
  if n < 0x100000000 then return n else failure

/-- Reads the bounds of a repetition, after the opening brace. -/
def bounds : Read (Nat × Option Nat) := do
  let least ← decimal
  if ← accept "\x7d" then return (least, some least)
  demand ","
  if ← accept "\x7d" then return (least, none)
  let most ← decimal
  demand "\x7d"
  if least ≤ most then return (least, some most) else failure

/-- Reads the marks of repetition after a pattern. -/
def repetitions : Nat → Pattern → Read Pattern
  | 0, p => return p
  | n + 1, p => do
    skipBlanks
    let repeated? ←
      if ← accept "*" then pure (some (0, none))
      else if ← accept "+" then pure (some (1, none))
      else if ← accept "?" then pure (some (0, some 1))
      else if ← accept "\x7b" then pure (some (← bounds))
      else pure none
    match repeated? with
    | none => return p
    | some (least, most) =>
      let _ ← accept "?"
      repetitions n (.repeated p least most)

/-! ### Groups and alternatives -/

/-- Switches one flag on or off. -/
def setFlag (on : Bool) (flags : Flags) : Char → Option Flags
  | 'i' => some { flags with ignoreCase := on }
  | 'm' => some { flags with multiLine := on }
  | 's' => some { flags with dotAll := on }
  | 'x' => some { flags with verbose := on }
  | 'U' | 'u' | 'R' => some flags
  | _ => none

/-- Switches the flags on that are listed, and those after a minus sign off.  No flag may be
listed twice, and the minus sign may not come last. -/
def setFlags : List Char → Bool → List Char → Flags → Option Flags
  | [], on, seen, flags => if on || seen.head? != some '-' then some flags else none
  | '-' :: cs, on, seen, flags => if on then setFlags cs false ('-' :: seen) flags else none
  | c :: cs, on, seen, flags =>
    if seen.contains c then none
    else (setFlag on flags c).bind fun flags => setFlags cs on (c :: seen) flags

/-- Whether a character may start the name of a group. -/
def isGroupNameStart (c : Char) : Bool :=
  c == '_' || CharSet.letter.contains c

/-- Whether a character may stand in the name of a group. -/
def isGroupNamePart (c : Char) : Bool :=
  isGroupNameStart c || c.isDigit || c == '.' || c == '[' || c == ']'

/-- Reads the name of a group up to the closing angle bracket. -/
def groupName : Read Unit := do
  let name ← Read.takeWhile isGroupNamePart
  demand ">"
  unless (name.head?.map isGroupNameStart).getD false do failure
  let name := String.ofList name
  if (← get).groups.contains name then failure
  modify fun r => { r with groups := name :: r.groups }

/-- The pattern for a character or a set. -/
def charPattern (s : CharSet) : Read Pattern :=
  return .char s (← get).flags.ignoreCase

mutual

/-- Reads alternatives up to a closing parenthesis or the end.  The bound limits the length. -/
def alternatives (depth : Nat) : Read Pattern := do
  match depth with
  | 0 => failure
  | depth + 1 =>
    let p ← sequence depth .empty
    if ← accept "|" then return .either p (← alternatives depth)
    else return p

/-- Reads a sequence of repeated items. -/
def sequence (depth : Nat) (sofar : Pattern) : Read Pattern := do
  match depth with
  | 0 => failure
  | depth + 1 =>
    skipBlanks
    match ← peek with
    | none => return sofar
    | some '|' => return sofar
    | some ')' => return sofar
    | some _ =>
      match ← item depth with
      | some p =>
        let p ← repetitions (← get).rest.length.succ p
        sequence depth (.concat sofar p)
      | none =>
        -- a change of flags cannot be repeated
        skipBlanks
        match ← peek with
        | some '*' | some '+' | some '?' | some '\x7b' => failure
        | _ => sequence depth sofar

/-- Reads one item.  There is no pattern for a change of flags. -/
def item (depth : Nat) : Read (Option Pattern) := do
  match depth with
  | 0 => failure
  | depth + 1 =>
    let flags := (← get).flags
    match ← next with
    | '*' | '+' | '?' | '\x7b' => failure
    | '.' => return some (.char (if flags.dotAll then .range 0 0x10FFFF else .compl (.single '\n'))
        false)
    | '^' => return some (if flags.multiLine then .lineStart else .start)
    | '$' => return some (if flags.multiLine then .lineStop else .stop)
    | '[' =>
      let s ← bracketSet depth
      return some (← charPattern s)
    | '\\' =>
      match ← escape with
      | .char c => return some (← charPattern (.single c))
      | .set s => return some (← charPattern s)
      | .assertion p => return some p
    | '(' =>
      if ← accept "?" then
        if (← accept "P<") then
          groupName
          return some (← group depth flags)
        else if (← accept "<") then
          groupName
          return some (← group depth flags)
        else
          let letters ← Read.takeWhile fun c => c.isAlpha || c == '-'
          match setFlags letters true [] flags with
          | none => failure
          | some new =>
            match ← next with
            | ':' =>
              modify fun r => { r with flags := new }
              return some (← group depth flags)
            | ')' =>
              if letters.isEmpty then failure
              modify fun r => { r with flags := new }
              return none
            | _ => failure
      else return some (← group depth flags)
    | c => return some (← charPattern (.single c))

/-- Reads the inside of a group and its closing parenthesis, after which the given flags hold. -/
def group (depth : Nat) (outer : Flags) : Read Pattern := do
  match depth with
  | 0 => failure
  | depth + 1 =>
    let p ← alternatives depth
    demand ")"
    modify fun r => { r with flags := outer }
    return p

end

/-- The pattern that a text denotes, if it is not too heavy. -/
def parse? (text : String) : Option Pattern := do
  let cs := text.toList
  let (p, r) ← (alternatives (4 * cs.length + 8)).run { rest := cs }
  if r.rest.isEmpty && p.weight ≤ weightLimit then some p else none

end Pattern

end ContextHoist
