/-
Classes of characters in source text.

* `isLineBreak`, `isBlank`: what separates tokens, and what also ends a line.
* `isWordStart`, `isWordPart`: the characters of identifiers.
* `hexValue`, `hexNumber`: hexadecimal digits and numerals, for escapes.
-/
import ContextHoist.Text.Letters

namespace ContextHoist

/-- The characters that end a line: line feed, carriage return and the two separators of
Unicode. -/
def isLineBreak (c : Char) : Bool :=
  c == '\n' || c == '\r' || c.toNat == 0x2028 || c.toNat == 0x2029

/-- The characters between tokens that do not end a line: tab, vertical tab, form feed, the
byte order mark and every space of Unicode. -/
def isBlank (c : Char) : Bool :=
  let n := c.toNat
  n == 9 || n == 11 || n == 12 || n == 32 || n == 0xA0 || n == 0xFEFF || n == 0x1680 ||
    (0x2000 ≤ n && n ≤ 0x200A) || n == 0x202F || n == 0x205F || n == 0x3000

/-- The characters that may start an identifier. -/
def isWordStart (c : Char) : Bool :=
  c.isAlpha || c == '$' || c == '_' || (128 ≤ c.toNat && Letters.mem Letters.starts c.toNat)

/-- The characters that may stand in an identifier. -/
def isWordPart (c : Char) : Bool :=
  isWordStart c || c.isDigit ||
    (128 ≤ c.toNat && Letters.mem Letters.continues c.toNat)

/-- The value of a hexadecimal digit. -/
def hexValue (c : Char) : Option Nat :=
  if c.isDigit then some (c.toNat - '0'.toNat)
  else if 'a' ≤ c && c ≤ 'f' then some (c.toNat - 'a'.toNat + 10)
  else if 'A' ≤ c && c ≤ 'F' then some (c.toNat - 'A'.toNat + 10)
  else none

/-- The number that a list of hexadecimal digits writes. -/
def hexNumber (cs : List Char) : Option Nat :=
  cs.foldlM (fun n c => (hexValue c).map (16 * n + ·)) 0

end ContextHoist
