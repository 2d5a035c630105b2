/-
Single expressions as texts.

A callback can be looked at on its own: it is read as the first statement of a text, usually in
parentheses, and written as one statement.

* `SourceFile.expression?`: the expression at the front of a text.
* `Tree.printed`: an expression as a statement.
-/
import ContextHoist.Conversion

namespace ContextHoist

/-- The expression without a pair of parentheses around it. -/
def Tree.withoutParens : Tree → Tree
  | node .paren _ [t] => t
  | t => t

/-- The expression that is the first statement of a module, without a pair of parentheses
around it. -/
def Module.expression? (m : Module) : Option Tree :=
  match m.items with
  | .node .exprStmt _ [t] :: _ => some t.withoutParens
  | _ => none

/-- The expression that is the first statement of a text. -/
def SourceFile.expression? (path text : String) : Except Failure (Option Tree) := do
  return (← SourceFile.read path text).module.expression?

/-- Some statements as a text without comments. -/
def printStatements (ts : List Tree) : String :=
  Module.print ⟨none, ts, .nowhere⟩ none

/-- An expression as a statement. -/
def Tree.printed (t : Tree) : String :=
  printStatements [.node .exprStmt .nowhere [t]]

end ContextHoist
