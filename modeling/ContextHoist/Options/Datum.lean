/-
The data notation of option files.

The notation has objects, arrays, strings in single or double quotes, numbers, `true`, `false`
and `null`, with comments and trailing commas.

* `Datum`: a value of the notation.  Numbers stay as they are written.
* `Datum.Reader`: the state of reading, which knows the furthest place where a phrase was
  looked for in vain.
* `Datum.parse`: the value that a text denotes, or that place.
-/
import ContextHoist.Text.Chars

namespace ContextHoist

/-- Values of the notation. -/
inductive Datum where
  | null
  | bool (b : Bool)
  | number (raw : String)
  | string (s : String)
  /-- A string with an escape that stands for no character, and what is wrong with it. -/
  | badString (reason : String)
  | array (items : List Datum)
  | object (fields : List (Datum × Datum))
  deriving Repr, Inhabited

namespace Datum

/-- The state of reading. -/
structure Reader where
  rest : List Char
  /-- The number of characters read. -/
  place : Nat := 0
  /-- The furthest place where a phrase was looked for in vain. -/
  furthest : Nat := 0

/-- Computations that read and may fail; a failure keeps the furthest place. -/
abbrev Read := StateT Reader (Except Nat)

namespace Read

/-- Notes that a phrase was looked for here in vain. -/
def note : Read Unit :=
  modify fun r => { r with furthest := max r.furthest r.place }

/-- Fails. -/
def fail {α : Type} : Read α := do
  throw (← get).furthest

/-- Goes past some characters. -/
def skip (n : Nat) : Read Unit :=
  modify fun r => { r with rest := r.rest.drop n, place := r.place + min n r.rest.length }

/-- The next character. -/
def peek : Read (Option Char) := return (← get).rest.head?

/-- Goes past the given text if it comes next. -/
def accept (text : String) : Read Bool := do
  if text.toList.isPrefixOf (← get).rest then
    skip text.length
    return true
  else return false

/-- The number of characters of a comment after its opening, its end included. -/
def blockCommentLength : List Char → Option Nat
  | '*' :: '/' :: _ => some 2
  | _ :: cs => (blockCommentLength cs).map (· + 1)
  | [] => none

/-- The number of characters that are blanks and comments. -/
def blankLength : Nat → List Char → Nat
  | 0, _ => 0
  | n + 1, cs =>
    match cs with
    | '/' :: '*' :: more =>
      match blockCommentLength more with
      | some k => 2 + k + blankLength n (more.drop k)
      | none => 0
    | '/' :: '/' :: more =>
      let k := (more.takeWhile fun c => !isLineBreak c).length
      2 + k + blankLength n (more.drop k)
    | c :: more => if isBlank c || isLineBreak c then 1 + blankLength n more else 0
    | [] => 0

/-- Goes past blanks and comments. -/
def skipBlanks : Read Unit := do
  let cs := (← get).rest
  skip (blankLength cs.length cs)

end Read

open Read

/-! ### Strings and names -/

/-- The character that a letter after a backslash stands for. -/
def escapedChar : Char → Char
  | 'b' => '\x08'
  | 'f' => '\x0c'
  | 'n' => '\n'
  | 'r' => '\r'
  | 't' => '\t'
  | 'v' => '\x0b'
  | c => c

/-- Reads the number that the given number of hexadecimal digits writes. -/
def hexDigits (n : Nat) : Read Nat := do
  let ds := (← get).rest.take n
  match hexNumber ds with
  | some v => if ds.length = n then skip n; return v else note; fail
  | none => note; fail

/-- A piece of a string: text, a number of UTF-16, or nothing at all. -/
inductive Piece where
  | text (c : Char)
  | unit (n : Nat)
  | nothing

/-- Reads what follows a backslash. -/
def escape : Read Piece := do
  match ← peek with
  | none => note; fail
  | some '\r' =>
    skip 1
    let _ ← accept "\n"
    return .nothing
  | some '0' => skip 1; return .text '\x00'
  | some 'x' => skip 1; return .unit (← hexDigits 2)
  | some 'u' => skip 1; return .unit (← hexDigits 4)
  | some c =>
    if c.isDigit then note; fail
    else if isLineBreak c then skip 1; return .nothing
    else skip 1; return .text (escapedChar c)

/-- Reads the pieces of a string up to its closing quote. -/
def pieces (quote : Char) : Nat → Read (List Piece)
  | 0 => fail
  | n + 1 => do
    match ← peek with
    | none => note; fail
    | some c =>
      if c == quote then skip 1; return []
      else if c == '\\' then
        skip 1
        let p ← escape
        return p :: (← pieces quote n)
      else if isLineBreak c then note; fail
      else
        skip 1
        return .text c :: (← pieces quote n)

/-- The text of some pieces.  Two numbers of UTF-16 may make one character. -/
def ofPieces : List Piece → Except String (List Char)
  | [] => .ok []
  | .text c :: ps => (ofPieces ps).map (c :: ·)
  | .nothing :: ps => ofPieces ps
  | .unit n :: ps =>
    if n < 0xD800 || 0xDFFF < n then (ofPieces ps).map (Char.ofNat n :: ·)
    else if 0xDC00 ≤ n then .error "unexpected unicode escape sequence"
    else
      match ps with
      | .unit m :: qs =>
        if 0xDC00 ≤ m && m ≤ 0xDFFF then
          (ofPieces qs).map (Char.ofNat (0x10000 + (n - 0xD800) * 0x400 + (m - 0xDC00)) :: ·)
        else .error "unexpected unicode escape sequence"
      | _ => .error "unexpected unicode escape sequence"

/-- Reads a string, after its opening quote. -/
def stringAfter (quote : Char) : Read Datum := do
  let ps ← pieces quote ((← get).rest.length + 1)
  match ofPieces ps with
  | .ok cs => return .string (String.ofList cs)
  | .error reason => return .badString reason

/-- The length of a name at the front of a text.  Escapes stand for any character. -/
def nameLength : Nat → Bool → List Char → Nat
  | 0, _, _ => 0
  | n + 1, isFirst, cs =>
    match cs with
    | '\\' :: 'u' :: a :: b :: c :: d :: more =>
      if (hexNumber [a, b, c, d]).isSome then 6 + nameLength n false more else 0
    | c :: more =>
      if isWordStart c || (!isFirst && isWordPart c) then 1 + nameLength n false more else 0
    | [] => 0

/-- Reads a key: a name or a string. -/
def key : Read Datum := do
  let cs := (← get).rest
  let n := nameLength cs.length true cs
  if n > 0 then
    skip n
    return .string (String.ofList (cs.take n))
  else
    note
    if ← accept "'" then stringAfter '\''
    else if ← accept "\"" then stringAfter '"'
    else fail

/-! ### Numbers -/

/-- The length of an exponent at the front of a text. -/
def exponentLength : List Char → Nat
  | e :: cs =>
    if e == 'e' || e == 'E' then
      let sign := match cs with
        | '+' :: _ => 1
        | '-' :: _ => 1
        | _ => 0
      let ds := ((cs.drop sign).takeWhile Char.isDigit).length
      if ds = 0 then 0 else 1 + sign + ds
    else 0
  | [] => 0

/-- The length of a decimal number at the front of a text, or zero. -/
def decimalLength (cs : List Char) : Nat :=
  let whole := match cs with
    | '0' :: _ => 1
    | _ => (cs.takeWhile Char.isDigit).length
  match cs.drop whole with
  | '.' :: more =>
    let ds := (more.takeWhile Char.isDigit).length
    if whole = 0 && ds = 0 then 0
    else whole + 1 + ds + exponentLength (more.drop ds)
  | more => if whole = 0 then 0 else whole + exponentLength more

/-- The length of a number without a sign at the front of a text, or zero. -/
def unsignedLength (cs : List Char) : Nat :=
  let hex := match cs with
    | '0' :: x :: more =>
      if x == 'x' || x == 'X' then (more.takeWhile fun c => (hexValue c).isSome).length else 0
    | _ => 0
  if hex > 0 then hex + 2
  else
    let n := decimalLength cs
    if n > 0 then n
    else if "Infinity".toList.isPrefixOf cs then 8
    else if "NaN".toList.isPrefixOf cs then 3
    else 0

/-- The length of a number at the front of a text, or zero. -/
def numberLength (cs : List Char) : Nat :=
  let sign := match cs with
    | '+' :: _ => 1
    | '-' :: _ => 1
    | _ => 0
  let n := unsignedLength (cs.drop sign)
  if n = 0 then 0 else sign + n

/-! ### Values -/

mutual

/-- Reads a value.  The bound limits the nesting and the length. -/
def value (depth : Nat) : Read Datum := do
  match depth with
  | 0 => fail
  | depth + 1 =>
    if ← accept "null" then return .null
    note
    if ← accept "true" then return .bool true
    if ← accept "false" then return .bool false
    if ← accept "'" then return ← stringAfter '\''
    if ← accept "\"" then return ← stringAfter '"'
    let cs := (← get).rest
    let n := numberLength cs
    if n > 0 then
      skip n
      return .number (String.ofList (cs.take n))
    if ← accept "\x7b" then return .object (← fields depth)
    if ← accept "[" then return .array (← items depth)
    fail

/-- Reads the fields of an object up to its closing brace. -/
def fields (depth : Nat) : Read (List (Datum × Datum)) := do
  match depth with
  | 0 => fail
  | depth + 1 =>
    skipBlanks
    if ← accept "\x7d" then return []
    let k ← key
    skipBlanks
    unless ← accept ":" do fail
    skipBlanks
    let v ← value depth
    skipBlanks
    if ← accept "," then
      skipBlanks
      if (← peek) == some '\x7d' then note
      return (k, v) :: (← fields depth)
    else if ← accept "\x7d" then return [(k, v)]
    else fail

/-- Reads the items of an array up to its closing bracket. -/
def items (depth : Nat) : Read (List Datum) := do
  match depth with
  | 0 => fail
  | depth + 1 =>
    skipBlanks
    if ← accept "]" then return []
    let v ← value depth
    skipBlanks
    if ← accept "," then
      skipBlanks
      if (← peek) == some ']' then note
      return v :: (← items depth)
    else if ← accept "]" then return [v]
    else fail

end

/-- Reads a whole text. -/
def wholeText : Read Datum := do
  skipBlanks
  let v ← value (2 * (← get).rest.length + 4)
  skipBlanks
  unless (← get).rest.isEmpty do
    note
    fail
  return v

/-- The line and column of a place, both counted from one. -/
def lineAndColumn (text : List Char) (place : Nat) : Nat × Nat :=
  let before := text.take place
  (1 + before.count '\n', 1 + (before.reverse.takeWhile (· != '\n')).length)

/-- The value that a text denotes, or the line and column where reading fails. -/
def parse (text : String) : Except (Nat × Nat) Datum :=
  match wholeText.run { rest := text.toList } with
  | .ok (v, _) => .ok v
  | .error place => .error (lineAndColumn text.toList place)

end Datum

end ContextHoist
