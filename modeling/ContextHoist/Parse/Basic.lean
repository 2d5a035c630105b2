/-
The parser's state and its elementary moves.

A parser reads tokens on demand, because which tokens are possible depends on the phrase.  Its
state is a `Cursor`, a value, so that looking ahead and trying a phrase cost nothing to undo.

* `Dialect`, `Mode`: which phrases the language has, and what the surrounding phrase forbids.
* `Cursor`: the current token, the text around it and the tokens already taken.
* `Parser`: a function of the mode and the cursor that may fail.
* `Goal`, `Rules`: the phrases that contain each other.  A rule gets the parsers for its inner
  phrases as an argument, so no rule calls itself; `Grammar` ties the knot.
-/
import ContextHoist.Syntax.Tree
import ContextHoist.Token.Scan

namespace ContextHoist

/-- Which extensions the language of a file has. -/
structure Dialect where
  /-- Type annotations and declarations of types. -/
  hasTypes : Bool
  /-- Elements written as tags. -/
  hasElements : Bool
  deriving DecidableEq, Repr

/-- What the surrounding phrase decides about the current one. -/
structure Mode extends Dialect where
  /-- The operator `in` ends the expression. -/
  noIn : Bool := false
  /-- The word `yield` is an operator. -/
  inGenerator : Bool := false
  /-- A colon is expected after the expression. -/
  beforeColon : Bool := false
  /-- A type ends in front of the word `extends`. -/
  noConditionalType : Bool := false

/-- The place of a parser in the text. -/
structure Cursor where
  /-- The current token. -/
  current : Lexeme
  /-- The text from the current token on. -/
  here : List Char
  /-- The text after the current token. -/
  after : List Char
  /-- The end of the last token taken. -/
  last : Nat
  /-- The tokens taken, the last one first. -/
  taken : List Lexeme
  /-- The end of the text. -/
  limit : Nat
  /-- The start of the expression that may be an arrow function. -/
  arrowAt : Nat

/-- The phrases that contain each other. -/
inductive Goal where
  | expression
  | assignment
  | unary
  | leftHand
  | statement
  | block
  | moduleItem
  | pattern
  | type
  | element
  | memberOnly
  deriving DecidableEq

/-- A parser depends on the mode and on the cursor, and may fail. -/
abbrev Parser (α : Type) := ReaderT Mode (StateT Cursor Option) α

/-- Parsers for the inner phrases of a rule. -/
abbrev Rules := Goal → Parser Tree

namespace Parser

variable {α : Type}

/-- Fails. -/
def reject : Parser α :=
  fun _ _ => none

/-- The current token. -/
def peek : Parser Token := do
  return (← get).current.token

/-- The start of the current token. -/
def here : Parser Nat := do
  return (← get).current.start

/-- Whether the current token is on a later line than the one before. -/
def atBreak : Parser Bool := do
  return (← get).current.afterBreak

/-- The span from `start` to the end of the last token taken. -/
def spanFrom (start : Nat) : Parser Span := do
  return ⟨start, (← get).last⟩

/-- A node that starts at `start` and ends with the last token taken. -/
def finish (start : Nat) (l : Label) (parts : List Tree) : Parser Tree := do
  return .node l (← spanFrom start) parts

/-- Takes the current token. -/
def advance : Parser Unit :=
  modify fun c =>
    let (next, here, after) := Lexeme.next c.current.stop c.after
    { c with
      current := next, here := here, after := after, last := c.current.stop
      taken := c.current :: c.taken }

/-- Takes another reading of the current token: the token, its length and the text after it. -/
def retake (t : Token) (size : Nat) (after : List Char) : Parser Unit :=
  modify fun c =>
    { c with current := { c.current with token := t, stop := c.current.start + size }, after }

/-- Whether the current token is the given punctuation mark. -/
def isPunct (p : String) : Parser Bool := do
  return (← peek) == .punct p

/-- Whether the current token is one of the given punctuation marks. -/
def isPunctOf (ps : List String) : Parser Bool := do
  let t ← peek
  return ps.any fun p => t == .punct p

/-- Whether the current token is the given word, written without escapes. -/
def isWord (w : String) : Parser Bool := do
  return (← peek) == .word w false

/-- Whether the current token is one of the given words. -/
def isWordOf (ws : List String) : Parser Bool := do
  match ← peek with
  | .word w false => return ws.contains w
  | _ => return false

/-- Whether the current token is a word that may name a variable. -/
def isName : Parser Bool := do
  match ← peek with
  | .word w _ => return !Token.keywords.contains w
  | _ => return false

/-- Takes the mark if it is the current token, and tells whether it was. -/
def eat (p : String) : Parser Bool := do
  if ← isPunct p then advance; return true
  else return false

/-- Takes the word if it is the current token, and tells whether it was. -/
def eatWord (w : String) : Parser Bool := do
  if ← isWord w then advance; return true
  else return false

/-- Takes the mark, or fails. -/
def expect (p : String) : Parser Unit := do
  unless ← eat p do reject

/-- Takes the word, or fails. -/
def expectWord (w : String) : Parser Unit := do
  unless ← eatWord w do reject

/-- Runs the parser; if it fails, takes nothing and returns `none`. -/
def attempt (p : Parser α) : Parser (Option α) :=
  fun m c => match p m c with
    | some (a, c') => some (some a, c')
    | none => some (none, c)

/-- Runs the parser and takes nothing; tells the result of a success. -/
def foresee (p : Parser α) : Parser (Option α) :=
  fun m c => some ((p m c).map Prod.fst, c)

/-- Whether the test succeeds with `true` from here on; takes nothing. -/
def ahead (p : Parser Bool) : Parser Bool := do
  return (← foresee p) == some true

/-- Whether the test holds of the token after the current one. -/
def nextIs (p : Parser Bool) : Parser Bool :=
  ahead (do advance; p)

/-- Runs the parser in a changed mode. -/
def inMode (f : Mode → Mode) (p : Parser α) : Parser α :=
  fun m c => p (f m) c

/-- Repeats `step` until it returns `none`.  The number of rounds is bounded by the text that
is left: a round that goes on takes a token. -/
def iterateUpTo (step : α → Parser (Option α)) : Nat → α → Parser α
  | 0, a => return a
  | n + 1, a => do
    match ← step a with
    | some b => iterateUpTo step n b
    | none => return a

/-- Repeats `step` until it returns `none`. -/
def iterate (step : α → Parser (Option α)) (a : α) : Parser α := do
  let c ← get
  iterateUpTo step (c.limit + 2 - c.current.start) a

/-- Collects items until one is `none`. -/
def many (item : Parser (Option α)) : Parser (List α) := do
  let found ← iterate (fun (acc : List α) => do
    match ← item with
    | some a => return some (a :: acc)
    | none => return none) []
  return found.reverse

/-- Items with commas between them, up to the closing mark, which is taken.  A comma may follow
the last item. -/
def commaList (close : String) (item : Parser α) : Parser (List α) := do
  let found ← many (do
    if ← isPunct close then return none
    let a ← item
    unless ← isPunct close do expect ","
    return some a)
  expect close
  return found

/-- Items with a mark between them; there is at least one. -/
def separated (mark : String) (item : Parser α) : Parser (List α) := do
  let first ← item
  let rest ← many (do
    if ← eat mark then return some (← item) else return none)
  return first :: rest

/-- The end of a statement: a semicolon, or a place where one may be left out. -/
def semicolon : Parser Unit := do
  if ← eat ";" then return ()
  if ← isPunct "\x7d" then return ()
  if (← peek) == .eof then return ()
  unless ← atBreak do reject

/-- A name that refers to a variable or binds one. -/
def name : Parser Tree := do
  let start ← here
  match ← peek with
  | .word w _ =>
    if Token.keywords.contains w then reject
    else
      advance
      finish start (.name w) []
  | _ => reject

/-- Any word, as a property key. -/
def keyName : Parser Tree := do
  let start ← here
  match ← peek with
  | .word w _ =>
    advance
    finish start (.key w) []
  | _ => reject

/-- A string literal. -/
def stringLiteral : Parser Tree := do
  let start ← here
  match ← peek with
  | .string raw =>
    advance
    finish start (.string raw) []
  | _ => reject

/-- Whether the language has types. -/
def hasTypes : Parser Bool := do
  return (← read).hasTypes

/-- Takes the mark in a language with types, and tells whether it was there. -/
def eatTyped (p : String) : Parser Bool := do
  if ← hasTypes then eat p else return false

end Parser

end ContextHoist
