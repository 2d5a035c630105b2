/-
Comments and their places.

A comment is kept at a position of the source text: it either trails what ends there or leads
what starts there.  The choice depends on the token in front of the comment and on the line
breaks around it.

* `Comments`: the comments of a file by position, leading and trailing ones apart.
* `Comments.ofLexemes`: the places of the comments of a token sequence.
-/
import ContextHoist.Token

namespace ContextHoist

/-- Comments by position.  At each position they stand in source order. -/
abbrev CommentMap := List (Nat × List Remark)

namespace CommentMap

/-- Adds a comment at a position, after those that are there. -/
def insert (pos : Nat) (r : Remark) : CommentMap → CommentMap
  | [] => [(pos, [r])]
  | (p, rs) :: m => if p == pos then (p, rs ++ [r]) :: m else (p, rs) :: insert pos r m

/-- The comments at a position. -/
def find (pos : Nat) (m : CommentMap) : List Remark :=
  (m.lookup pos).getD []

/-- The map without the comments at a position. -/
def erase (pos : Nat) (m : CommentMap) : CommentMap :=
  m.filter fun e => e.1 != pos

end CommentMap

/-- The comments of a file. -/
structure Comments where
  /-- Those that belong to what starts at the position. -/
  leading : CommentMap
  /-- Those that belong to what ends at the position. -/
  trailing : CommentMap
  deriving Inhabited

namespace Comments

/-- No comments. -/
def empty : Comments := ⟨[], []⟩

/-- Adds a leading comment. -/
def addLeading (cs : Comments) (pos : Nat) (r : Remark) : Comments :=
  { cs with leading := cs.leading.insert pos r }

/-- Adds a trailing comment. -/
def addTrailing (cs : Comments) (pos : Nat) (r : Remark) : Comments :=
  { cs with trailing := cs.trailing.insert pos r }

/-- Whether the comment belongs to the token in front of it.  It never does after a line break.
A line comment does unless the token is an operator.  A block comment does after a few kinds
of token, and whenever a semicolon follows it at once. -/
def trails (before : Lexeme) (r : Remark) : Bool :=
  if r.afterBreak then r.isBlock && r.beforeSemicolon
  else if r.isBlock then before.token.holdsBlockComments || r.beforeSemicolon
  else !before.token.isOperator

/-- Places a comment between two tokens. -/
def place (before : Option Lexeme) (next : Lexeme) (cs : Comments) (r : Remark) : Comments :=
  match before with
  | none => cs.addLeading next.start r
  | some b =>
    if trails b r || next.token == .eof then cs.addTrailing b.stop r
    else cs.addLeading next.start r

/-- Places the comments in front of each token. -/
def placeAll : Option Lexeme → List Lexeme → Comments → Comments
  | _, [], cs => cs
  | before, l :: ls, cs => placeAll (some l) ls (l.remarks.foldl (place before l) cs)

/-- The comments of a file, from its tokens in order, the end of the text included. -/
def ofLexemes (ls : List Lexeme) : Comments :=
  placeAll none ls empty

end Comments

end ContextHoist
