/-
Reading one token.

Source text is read from left to right, one token at a time, and which tokens are possible
depends on the phrase: a slash may divide or open a regular expression, and text between tags
or inside a template has rules of its own.  The main entry is `Lexeme.next`, which skips blanks
and comments and reads the token after them under the ordinary rules; the other readers serve
the special places.

A closing angle bracket is always read alone.  `Scan.mergedOperator` joins it with what
follows where an operator is expected.
-/
import ContextHoist.Token

namespace ContextHoist

namespace Scan

/-! ### Between tokens -/

/-- What lies in front of a token. -/
structure Gap where
  /-- The number of characters. -/
  size : Nat
  /-- A line ends in the gap. -/
  hasBreak : Bool
  /-- The comments, the last one first. -/
  remarks : List Remark
  deriving Inhabited

/-- The place of the reader inside a gap. -/
inductive GapMode where
  | blank
  /-- Inside a line comment; its text so far, backwards. -/
  | line (text : List Char)
  /-- Inside a block comment; its text so far, backwards. -/
  | block (text : List Char)

/-- Ends a comment and adds it to the gap. -/
def Gap.close (g : Gap) (isBlock : Bool) (text rest : List Char) : Gap :=
  { size := g.size
    hasBreak := g.hasBreak || text.any isLineBreak
    remarks := ⟨isBlock, String.ofList text.reverse, g.hasBreak, rest.head? == some ';'⟩ ::
      g.remarks }

/-- Counts `n` more characters. -/
def Gap.grow (g : Gap) (n : Nat) : Gap :=
  { g with size := g.size + n }

/-- Skips blanks and comments.  There is no result when a block comment does not end. -/
def skipGap : GapMode → Gap → List Char → Option (Gap × List Char)
  | .blank, g, '/' :: '/' :: cs => skipGap (.line []) (g.grow 2) cs
  | .blank, g, '/' :: '*' :: cs => skipGap (.block []) (g.grow 2) cs
  | .blank, g, [] => some (g, [])
  | .blank, g, c :: cs =>
    if isLineBreak c then skipGap .blank { g.grow 1 with hasBreak := true } cs
    else if isBlank c then skipGap .blank (g.grow 1) cs
    else some (g, c :: cs)
  | .line text, g, [] => some (g.close false text [], [])
  | .line text, g, c :: cs =>
    if isLineBreak c then
      skipGap .blank { (g.close false text (c :: cs)).grow 1 with hasBreak := true } cs
    else skipGap (.line (c :: text)) (g.grow 1) cs
  | .block text, g, '*' :: '/' :: cs => skipGap .blank ((g.close true text cs).grow 2) cs
  | .block _, _, [] => none
  | .block text, g, c :: cs => skipGap (.block (c :: text)) (g.grow 1) cs

/-! ### Words -/

/-- Reads the escape of a character by its code after `\u`: the character, the number of
characters read, and the rest. -/
def unicodeEscape : List Char → Option (Char × Nat × List Char)
  | '\x7b' :: cs =>
    let digits := cs.takeWhile (fun c => (hexValue c).isSome)
    match cs.drop digits.length with
    | '\x7d' :: rest =>
      if digits.isEmpty then none
      else (hexNumber digits).bind fun n =>
        if n < 0x110000 then some (Char.ofNat n, digits.length + 2, rest) else none
    | _ => none
  | a :: b :: c :: d :: cs => (hexNumber [a, b, c, d]).map fun n => (Char.ofNat n, 4, cs)
  | _ => none

/-- The character that an escape after a backslash stands for in a word, and the number of
characters of the escape. -/
def wordEscape : List Char → Option (Char × Nat)
  | 'u' :: cs => do
    let (c, n, _) ← unicodeEscape cs
    if isWordPart c then some (c, n + 1) else none
  | _ => none

/-- Reads the rest of a word, of which some characters at the front belong to an escape that has
been read.  The results are the characters read with their escapes decoded, whether there was an
escape, the number of characters of text, and the rest. -/
def wordTail : Nat → List Char → List Char × Bool × Nat × List Char
  | _, [] => ([], false, 0, [])
  | skipped + 1, _ :: cs =>
    let (w, e, k, r) := wordTail skipped cs
    (w, e, k + 1, r)
  | 0, c :: cs =>
    match (if c == '\\' then wordEscape cs else none) with
    | some (d, n) =>
      let (w, _, k, r) := wordTail n cs
      (d :: w, true, k + 1, r)
    | none =>
      if isWordPart c then
        let (w, e, k, r) := wordTail 0 cs
        (c :: w, e, k + 1, r)
      else ([], false, 0, c :: cs)

/-- Reads a word, if one starts here. -/
def word (cs : List Char) : Option (List Char × Bool × Nat × List Char) :=
  let r := wordTail 0 cs
  match r.1 with
  | c :: _ => if isWordStart c then some r else none
  | [] => none

/-! ### Literals -/

/-- Reads up to the closing quote and returns what was read, the quote included. -/
def stringBody (quote : Char) : List Char → Option (List Char × List Char)
  | [] => none
  | '\\' :: '\r' :: '\n' :: cs =>
    (stringBody quote cs).map fun (s, r) => ('\\' :: '\r' :: '\n' :: s, r)
  | '\\' :: c :: cs => (stringBody quote cs).map fun (s, r) => ('\\' :: c :: s, r)
  | c :: cs =>
    if c == quote then some ([c], cs)
    else if c == '\n' || c == '\r' then none
    else (stringBody quote cs).map fun (s, r) => (c :: s, r)

/-- Whether every escape by code in the text is complete. -/
def escapesComplete : List Char → Bool
  | '\\' :: 'x' :: cs => (match cs with
    | a :: b :: _ => (hexValue a).isSome && (hexValue b).isSome
    | _ => false) && escapesComplete cs
  | '\\' :: 'u' :: cs => (unicodeEscape cs).isSome && escapesComplete cs
  | '\\' :: _ :: cs => escapesComplete cs
  | _ :: cs => escapesComplete cs
  | [] => true

/-- Whether the text has an escape by an octal code. -/
def hasOctalEscape : List Char → Bool
  | '\\' :: '0' :: cs => (cs.head?.any fun c => '0' ≤ c && c ≤ '7') || hasOctalEscape cs
  | '\\' :: c :: cs => ('1' ≤ c && c ≤ '7') || hasOctalEscape cs
  | _ :: cs => hasOctalEscape cs
  | [] => false

/-- Reads the text of a template up to its end or to the next substitution: what was read,
whether the template ended, and the rest after the delimiter. -/
def chunkBody : List Char → Option (List Char × Bool × List Char)
  | [] => none
  | '\\' :: c :: cs => (chunkBody cs).map fun (s, e, r) => ('\\' :: c :: s, e, r)
  | '\x60' :: cs => some ([], true, cs)
  | '$' :: '\x7b' :: cs => some ([], false, cs)
  | c :: cs => (chunkBody cs).map fun (s, e, r) => (c :: s, e, r)

/-- Reads a regular expression after its opening slash, up to and with the closing one. -/
def regexBody : Bool → List Char → Option (List Char × List Char)
  | _, [] => none
  | inClass, '\\' :: c :: cs =>
    if isLineBreak c then none
    else (regexBody inClass cs).map fun (s, r) => ('\\' :: c :: s, r)
  | inClass, c :: cs =>
    if isLineBreak c then none
    else if c == '/' && !inClass then some ([c], cs)
    else
      let inside := c == '[' || (inClass && c != ']')
      (regexBody inside cs).map fun (s, r) => (c :: s, r)

/-- Splits off the longest run of digits of a kind, with underscores between them. -/
def digits (isDigit : Char → Bool) (cs : List Char) : List Char × List Char :=
  cs.span fun c => isDigit c || c == '_'

/-- The exponent of a number, if one follows. -/
def exponent : List Char → List Char × List Char
  | e :: cs =>
    if e == 'e' || e == 'E' then
      let (sign, rest) := match cs with
        | s :: r => if s == '+' || s == '-' then ([s], r) else ([], cs)
        | [] => ([], cs)
      let (ds, after) := digits Char.isDigit rest
      if ds.isEmpty then ([], e :: cs) else (e :: sign ++ ds, after)
    else ([], e :: cs)
  | [] => ([], [])

/-- Reads a number written in decimal: the text, whether it is an integer, and the rest. -/
def decimal (cs : List Char) : List Char × Bool × List Char :=
  let (whole, afterWhole) := digits Char.isDigit cs
  let (fraction, afterFraction) := match afterWhole with
    | '.' :: r => let (ds, r') := digits Char.isDigit r; ('.' :: ds, r')
    | r => ([], r)
  let (expo, rest) := exponent afterFraction
  (whole ++ fraction ++ expo, fraction.isEmpty && expo.isEmpty, rest)

/-- The digits that may follow the mark of a base. -/
def baseDigits : Char → Option (Char → Bool)
  | 'x' | 'X' => some fun c => (hexValue c).isSome
  | 'o' | 'O' => some fun c => '0' ≤ c && c ≤ '7'
  | 'b' | 'B' => some fun c => c == '0' || c == '1'
  | _ => none

/-- Ends a number: an `n` makes it a big integer, and no word may follow directly. -/
def finishNumber (text : List Char) (isInteger : Bool) (rest : List Char) :
    Option (Token × Nat × List Char) :=
  let (tok, size, after) := match isInteger, rest with
    | true, 'n' :: r => (Token.bigint (String.ofList (text ++ ['n'])), text.length + 1, r)
    | _, r => (Token.number (String.ofList text), text.length, r)
  match after with
  | c :: _ => if isWordPart c || c == '\\' then none else some (tok, size, after)
  | [] => some (tok, size, after)

/-- Reads a number: the token, the number of its characters, and the rest. -/
def number (cs : List Char) : Option (Token × Nat × List Char) :=
  match cs with
  | '0' :: b :: rest =>
    match baseDigits b with
    | some isDigit =>
      let (ds, after) := digits isDigit rest
      if ds.isEmpty then none else finishNumber ('0' :: b :: ds) true after
    | none => let (text, isInteger, after) := decimal cs; finishNumber text isInteger after
  | _ => let (text, isInteger, after) := decimal cs; finishNumber text isInteger after

/-! ### Punctuation -/

/-- The punctuation marks, longer ones before their beginnings. -/
def marks : List (List Char) :=
  ["...", "===", "!==", "**=", "<<=", "&&=", "||=", "??=", "=>", "==", "!=", "<=", "&&", "||",
    "??", "?.", "++", "--", "+=", "-=", "*=", "/=", "%=", "&=", "|=", "^=", "<<", "**", "\x7b",
    "\x7d", "(", ")", "[", "]", ";", ",", "<", ">", "+", "-", "*", "/", "%", "&", "|", "^", "!",
    "~", "?", ":", "=", ".", "@", "#"].map String.toList

/-- The operators that start with a closing angle bracket, longer ones first. -/
def closingOperators : List (List Char) :=
  [">>>=", ">>>", ">>=", ">>", ">="].map String.toList

/-- The first of the marks that the text starts with. -/
def firstMark (candidates : List (List Char)) (cs : List Char) : Option (List Char) :=
  candidates.find? (·.isPrefixOf cs)

/-- Reads a punctuation mark.  A question mark and a point in front of a digit are two. -/
def punctuation (cs : List Char) : Option (List Char) :=
  match cs with
  | '?' :: '.' :: d :: _ => if d.isDigit then some ['?'] else some ['?', '.']
  | _ => firstMark marks cs

/-- The operator that starts with a closing angle bracket, if one longer than the bracket
stands here. -/
def mergedOperator (cs : List Char) : Option (List Char) :=
  firstMark closingOperators cs

/-! ### Tokens -/

/-- Reads the token at the start of the text under the ordinary rules. -/
def token (cs : List Char) : Token × Nat × List Char :=
  match cs with
  | [] => (.eof, 0, [])
  | c :: rest =>
    if c == '"' || c == '\'' then
      match stringBody c rest with
      | some (s, r) =>
        if escapesComplete s then (.string (String.ofList (c :: s)), s.length + 1, r)
        else (.invalid, 1, rest)
      | none => (.invalid, 1, rest)
    else if c == '\x60' then (.punct "\x60", 1, rest)
    else if c.isDigit || (c == '.' && (rest.head?.any Char.isDigit)) then
      match number cs with
      | some found => found
      | none => (.invalid, 1, rest)
    else match word cs with
      | some (w, e, n, r) => (.word (String.ofList w) e, n, r)
      | none =>
        match c, word rest with
        | '#', some (w, _, n, r) => (.privateName (String.ofList w), n + 1, r)
        | _, _ =>
          match punctuation cs with
          | some m => (.punct (String.ofList m), m.length, cs.drop m.length)
          | none => (.invalid, 1, rest)

end Scan

/-- Reads the next token of the text `cs` that starts at position `pos`, with the comments in
front of it.  Also returns the text from the token on and the text after it. -/
def Lexeme.next (pos : Nat) (cs : List Char) : Lexeme × List Char × List Char :=
  match Scan.skipGap .blank ⟨0, false, []⟩ cs with
  | none => (⟨.invalid, pos, pos, false, []⟩, cs, [])
  | some (g, here) =>
    let (t, n, after) := Scan.token here
    (⟨t, pos + g.size, pos + g.size + n, g.hasBreak, g.remarks.reverse⟩, here, after)

end ContextHoist
