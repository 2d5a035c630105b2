/-
Patterns for file names.

A pattern is a regular expression.  Only one question is asked of it: whether it matches
somewhere in a name.  So a pattern denotes, at each place of a text, the set of places where a
match that starts there can end.

* `CharSet`: sets of characters.
* `Pattern`: regular expressions with assertions about the place.
* `Pattern.ends`: where the matches from a place end.
* `Pattern.weight`: how large a machine for the pattern would be.
* `Pattern.matchesIn`: whether a pattern matches somewhere in a text.
-/
import ContextHoist.Text.Chars

namespace ContextHoist

/-! ### Sets of characters -/

/-- Sets of characters. -/
inductive CharSet where
  | range (lo hi : Nat)
  /-- Digits. -/
  | digit
  /-- Letters, marks, digits and connecting punctuation. -/
  | word
  | space
  | letter
  | union (a b : CharSet)
  | inter (a b : CharSet)
  | compl (a : CharSet)
  deriving DecidableEq, Repr, Inhabited

namespace CharSet

/-- The set without elements. -/
def empty : CharSet := range 1 0

/-- The set with one element. -/
def single (c : Char) : CharSet := range c.toNat c.toNat

/-- Whether a character belongs to a word. -/
def isWordChar (c : Char) : Bool :=
  c != '$' && isWordPart c

/-- Whether a character belongs to a set. -/
def contains : CharSet → Char → Bool
  | range lo hi, c => lo ≤ c.toNat && c.toNat ≤ hi
  | digit, c => c.isDigit
  | word, c => isWordChar c
  | space, c => isLineBreak c || (isBlank c && c.toNat != 0xFEFF) || c.toNat == 0x85
  | letter, c => c != '$' && c != '_' && isWordStart c
  | union a b, c => a.contains c || b.contains c
  | inter a b, c => a.contains c && b.contains c
  | compl a, c => !a.contains c

/-- The space that a machine for the set takes, in bytes.  The sets of letters consist of many
ranges. -/
def weight : CharSet → Nat
  | range _ _ => 32
  | digit => 4000
  | word => 50000
  | space => 500
  | letter => 45000
  | union a b => a.weight + b.weight
  | inter a b => a.weight + b.weight
  | compl a => a.weight

/-- The letter in the other case, for the Latin, Greek and Cyrillic letters whose two cases lie
at a fixed distance; other characters stay as they are. -/
def otherCase (c : Char) : Char :=
  let n := c.toNat
  if (65 ≤ n && n ≤ 90) || (0xC0 ≤ n && n ≤ 0xDE && n != 0xD7) || (0x391 ≤ n && n ≤ 0x3A9)
      || (0x410 ≤ n && n ≤ 0x42F) then Char.ofNat (n + 32)
  else if (97 ≤ n && n ≤ 122) || (0xE0 ≤ n && n ≤ 0xFE && n != 0xF7) || (0x3B1 ≤ n && n ≤ 0x3C9)
      || (0x430 ≤ n && n ≤ 0x44F) then Char.ofNat (n - 32)
  else c

end CharSet

/-! ### Patterns -/

/-- Regular expressions with assertions. -/
inductive Pattern where
  | empty
  /-- One character of a set; the flag says that case does not count. -/
  | char (set : CharSet) (ignoreCase : Bool)
  /-- The start of the text. -/
  | start
  /-- The end of the text. -/
  | stop
  | lineStart
  | lineStop
  /-- A place where a word starts or ends. -/
  | wordEdge
  /-- Any other place. -/
  | noWordEdge
  /-- A place where a word starts. -/
  | wordStart
  /-- A place where a word ends. -/
  | wordStop
  /-- A place with no character of a word in front. -/
  | noWordBefore
  /-- A place with no character of a word behind. -/
  | noWordAfter
  | concat (a b : Pattern)
  | either (a b : Pattern)
  /-- At least `least` times, and at most `most` times if there is a bound. -/
  | repeated (a : Pattern) (least : Nat) (most : Option Nat)
  deriving DecidableEq, Repr, Inhabited

namespace Pattern

/-- The places after one more match, from any of the given places. -/
def advance (f : Nat → List Nat) (places : List Nat) : List Nat :=
  (places.flatMap f).eraseDups

/-- The places after exactly `n` more matches. -/
def exactly (f : Nat → List Nat) : Nat → List Nat → List Nat
  | _, [] => []
  | 0, places => places
  | n + 1, places => exactly f n (advance f places)

/-- The places that were seen, and those after at most `n` more matches from the last ones of
them.  Only a place that is new leads to others that are new. -/
def upTo (f : Nat → List Nat) : Nat → List Nat → List Nat → List Nat
  | 0, seen, _ => seen
  | n + 1, seen, last =>
    let fresh := (advance f last).filter fun i => !seen.contains i
    if fresh.isEmpty then seen else upTo f n (seen ++ fresh) fresh

/-- Whether the character in front of the place belongs to a word. -/
def wordBefore (text : Array Char) (i : Nat) : Bool :=
  i > 0 && (text[i - 1]?.map CharSet.isWordChar).getD false

/-- Whether the character behind the place belongs to a word. -/
def wordAfter (text : Array Char) (i : Nat) : Bool :=
  (text[i]?.map CharSet.isWordChar).getD false

/-- The place if the assertion about it holds. -/
def placeIf (holds : Bool) (i : Nat) : List Nat :=
  if holds then [i] else []

/-- The places where the matches of a pattern that start at a place can end. -/
def ends (text : Array Char) : Pattern → Nat → List Nat
  | empty, i => [i]
  | char set ignoreCase, i =>
    match text[i]? with
    | some c =>
      if set.contains c || (ignoreCase && set.contains (CharSet.otherCase c)) then [i + 1] else []
    | none => []
  | start, i => placeIf (i == 0) i
  | stop, i => placeIf (i == text.size) i
  | lineStart, i => placeIf (i == 0 || text[i - 1]? == some '\n') i
  | lineStop, i => placeIf (i == text.size || text[i]? == some '\n') i
  | wordEdge, i => placeIf (wordBefore text i != wordAfter text i) i
  | noWordEdge, i => placeIf (wordBefore text i == wordAfter text i) i
  | wordStart, i => placeIf (!wordBefore text i && wordAfter text i) i
  | wordStop, i => placeIf (wordBefore text i && !wordAfter text i) i
  | noWordBefore, i => placeIf (!wordBefore text i) i
  | noWordAfter, i => placeIf (!wordAfter text i) i
  | concat a b, i => advance (ends text b) (ends text a i)
  | either a b, i => (ends text a i ++ ends text b i).eraseDups
  | repeated a least most, i =>
    let f := ends text a
    -- a repetition that leads to new places takes at most one round for each place
    let more := (most.map (· - least)).getD (text.size + 1)
    let places := exactly f least [i]
    upTo f (min more (text.size + 1)) places places

/-- The space that a machine for the pattern takes, in bytes, with all repetitions written out. -/
def weight : Pattern → Nat
  | empty => 0
  | char set _ => set.weight
  | concat a b => a.weight + b.weight
  | either a b => a.weight + b.weight + 64
  | repeated a least most => a.weight * max 1 (most.getD least) + 64
  | _ => 32

/-- The greatest weight of a pattern that is still accepted, ten mebibytes. -/
def weightLimit : Nat := 10 * 1024 * 1024

/-- Whether a pattern matches somewhere in a text. -/
def matchesIn (p : Pattern) (text : String) : Bool :=
  let cs := text.toList.toArray
  (List.range (cs.size + 1)).any fun i => !(p.ends cs i).isEmpty

end Pattern

end ContextHoist
