/-
The quotes of string literals.

A string literal is kept as it is written.  To change its quotes, the escapes in front of the
old quote are dropped and the new quote is escaped; all other escapes stay, so the string means
what it meant.

* `QuoteStyle`: which quotes string literals get.
* `requote`: one literal with other quotes.
* `Tree.requoted`: all literals of a tree, except the values of element attributes, in which a
  backslash is an ordinary character.
-/
import ContextHoist.Syntax.Tree

namespace ContextHoist

/-- Which quotes string literals get. -/
inductive QuoteStyle where
  | single
  | double
  /-- Those that they have. -/
  | preserve
  deriving DecidableEq, Repr, Inhabited

namespace QuoteStyle

/-- The name of a style. -/
def name : QuoteStyle → String
  | single => "single"
  | double => "double"
  | preserve => "preserve"

/-- The style with exactly this name. -/
def ofName? : String → Option QuoteStyle
  | "single" => some single
  | "double" => some double
  | "preserve" => some preserve
  | _ => none

/-- The quote of a style that has one. -/
def delimiter? : QuoteStyle → Option Char
  | single => some '\''
  | double => some '"'
  | preserve => none

end QuoteStyle

/-! ### One literal -/

/-- The text between the quotes of a literal when the quote changes. -/
def requoteInner (old new : Char) : List Char → List Char
  | [] => []
  | ['\\'] => ['\\']
  | '\\' :: c :: cs =>
    if c = old then c :: requoteInner old new cs else '\\' :: c :: requoteInner old new cs
  | c :: cs =>
    if c = new then '\\' :: c :: requoteInner old new cs else c :: requoteInner old new cs

/-- A literal with other quotes.  There is no result if the text has that quote already, or is
not a literal in single or double quotes. -/
def requoteChars (quote : Char) : List Char → Option (List Char)
  | [] => none
  | old :: rest =>
    if old = quote || !(old = '\'' || old = '"') || rest.getLast? != some old then none
    else some (quote :: requoteInner old quote rest.dropLast ++ [quote])

/-- A literal with other quotes, if that changes anything. -/
def requote (raw : String) (quote : Char) : Option String :=
  (requoteChars quote raw.toList).map String.ofList

/-! ### All literals -/

namespace Tree

mutual

/-- Changes the quotes of all string literals.  The flag says that the tree is the value of an
attribute, or part of one outside of braces; such literals stay as they are. -/
def requoted (quote : Char) (inAttribute : Bool) : Tree → Tree
  | node (.string raw) s ts =>
    if inAttribute then node (.string raw) s ts
    else node (.string ((requote raw quote).getD raw)) s ts
  | node .elementAttr s ts => node .elementAttr s (requotedAll quote true ts)
  | node .container s ts => node .container s (requotedAll quote false ts)
  | node l s ts => node l s (requotedAll quote inAttribute ts)

/-- Changes the quotes of all string literals in a list of trees. -/
def requotedAll (quote : Char) (inAttribute : Bool) : List Tree → List Tree
  | [] => []
  | t :: ts => t.requoted quote inAttribute :: requotedAll quote inAttribute ts

end

mutual

/-- The number of literals that `requoted` changes. -/
def requotable (quote : Char) (inAttribute : Bool) : Tree → Nat
  | node (.string raw) _ _ =>
    if inAttribute then 0 else if (requote raw quote).isSome then 1 else 0
  | node .elementAttr _ ts => requotableAll quote true ts
  | node .container _ ts => requotableAll quote false ts
  | node _ _ ts => requotableAll quote inAttribute ts

/-- The number of literals that `requotedAll` changes. -/
def requotableAll (quote : Char) (inAttribute : Bool) : List Tree → Nat
  | [] => 0
  | t :: ts => t.requotable quote inAttribute + requotableAll quote inAttribute ts

end

end Tree

namespace Module

/-- Changes the quotes of all string literals of a source file. -/
def requoted (m : Module) (quote : Char) : Module :=
  { m with items := Tree.requotedAll quote false m.items }

/-- The number of literals that `requoted` changes. -/
def requotable (m : Module) (quote : Char) : Nat :=
  Tree.requotableAll quote false m.items

/-- Gives all string literals of a source file the quotes of a style. -/
def withQuotes (m : Module) (style : QuoteStyle) : Module :=
  match style.delimiter? with
  | some quote => m.requoted quote
  | none => m

end Module

end ContextHoist
