/-
The printer's state and its elementary moves.

Layout does not depend on the layout of the source text.  A line is indented when its first
text is written, and a new line is begun only if the current one has text.

* `Output`: the text so far, the indentation, and the comments not yet printed.
* `Printer`: an action on the output.
* `Printer.commaList`, `Printer.lines`: the two ways of laying out a list.
-/
import ContextHoist.Comments
import ContextHoist.Syntax.Tree

namespace ContextHoist

/-- What has been printed, and what is still to be placed. -/
structure Output where
  text : String
  /-- Nothing has been written on the current line. -/
  atLineStart : Bool
  /-- The number of levels by which lines are indented. -/
  level : Nat
  /-- The comments not yet printed. -/
  comments : Comments
  /-- Comments are printed at all. -/
  keepsComments : Bool

/-- An action on the output. -/
abbrev Printer := StateM Output

namespace Printer

/-! ### Text -/

/-- Writes text on the current line. -/
def write (s : String) : Printer Unit :=
  modify fun o =>
    if s.isEmpty then o
    else
      let indent := if o.atLineStart then String.ofList (List.replicate (4 * o.level) ' ') else ""
      { o with text := o.text ++ indent ++ s, atLineStart := false }

/-- Begins a new line, unless the current one is empty. -/
def newline : Printer Unit :=
  modify fun o =>
    if o.atLineStart then o else { o with text := o.text ++ "\n", atLineStart := true }

/-- Prints with the lines indented by one level more. -/
def indented (p : Printer Unit) : Printer Unit := do
  modify fun o => { o with level := o.level + 1 }
  p
  modify fun o => { o with level := o.level - 1 }

/-! ### Comments -/

/-- Prints comments, each with a space in front if the flag says so. -/
def remarks (spaced : Bool) (rs : List Remark) : Printer Unit :=
  rs.forM fun r => do
    if spaced then write " "
    if r.isBlock then
      write ("/*" ++ r.text ++ "*/")
      write " "
    else
      write ("//" ++ r.text)
      newline

/-- Takes the comments that lead what starts at the position. -/
def takeLeading (pos : Nat) : Printer (List Remark) := do
  let o ← get
  match o.comments.leading.find pos with
  | [] => return []
  | rs =>
    set { o with comments := { o.comments with leading := o.comments.leading.erase pos } }
    return rs

/-- Takes the comments that trail what ends at the position. -/
def takeTrailing (pos : Nat) : Printer (List Remark) := do
  let o ← get
  match o.comments.trailing.find pos with
  | [] => return []
  | rs =>
    set { o with comments := { o.comments with trailing := o.comments.trailing.erase pos } }
    return rs

/-- Prints the comments that lead what starts at the position. -/
def leading (pos : Nat) : Printer Unit := do
  remarks false (← takeLeading pos)

/-- Prints the comments that trail what ends at the position. -/
def trailing (pos : Nat) (spaced : Bool) : Printer Unit := do
  remarks spaced (← takeTrailing pos)

/-- Whether comments lead what starts at the position. -/
def hasLeading (pos : Nat) : Printer Bool := do
  return !((← get).comments.leading.find pos).isEmpty

/-! ### Phrases and lists -/

/-- Prints a phrase. -/
abbrev Phrases := Tree → Printer Unit

/-- Prints an expression or a pattern with the comments that trail it. -/
def closed (sub : Phrases) (t : Tree) : Printer Unit := do
  sub t
  trailing t.span.stop true

/-- Prints the phrase if it is there. -/
def ifPresent (t : Tree) (p : Printer Unit) : Printer Unit :=
  if t.isPresent then p else return ()

/-- Prints items with a comma and a space between them, each with the comments that trail it. -/
def commaList (item : Tree → Printer Unit) : List Tree → Printer Unit
  | [] => return ()
  | [t] => do
    item t
    trailing t.span.stop false
  | t :: ts => do
    item t
    trailing t.span.stop false
    write ", "
    commaList item ts

/-- Prints items with the given text between them. -/
def joined (mark : String) (item : Tree → Printer Unit) : List Tree → Printer Unit
  | [] => return ()
  | [t] => item t
  | t :: ts => do
    item t
    write mark
    joined mark item ts

/-- Prints items on lines of their own, with the mark after all but the last. -/
def eachLine (mark : String) (item : Tree → Printer Unit) : List Tree → Printer Unit
  | [] => return ()
  | [t] => item t
  | t :: ts => do
    item t
    write mark
    newline
    eachLine mark item ts

/-- Prints items on indented lines between two line ends. -/
def lines (mark : String) (item : Tree → Printer Unit) (ts : List Tree) : Printer Unit := do
  newline
  indented (eachLine mark item ts)
  newline

/-- The phrases of a group. -/
def members (t : Tree) : List Tree :=
  match t with
  | .node .group _ ts => ts
  | _ => []

end Printer

end ContextHoist
