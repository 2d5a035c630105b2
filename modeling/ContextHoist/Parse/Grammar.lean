/-
Whole files.

* `Grammar.rules`: the rules of all phrases, tied together up to a nesting depth.
* `Tree.hasBodies`: whether every function expression has a body.
* `SourceFile.parse?`: the module that a text denotes, with the tokens it was read from.
-/
import ContextHoist.Parse.Statements

namespace ContextHoist

namespace Grammar

/-- The rules of all phrases, given the rules for their inner phrases. -/
def step (rules : Rules) : Rules
  | .expression => Parser.expression rules
  | .assignment => Parser.assignment rules
  | .unary => Parser.unary rules
  | .leftHand => Parser.leftHand rules true
  | .memberOnly => Parser.leftHand rules false
  | .statement => Parser.statement rules
  | .block => Parser.block rules
  | .moduleItem => Parser.moduleItem rules
  | .pattern => Parser.bindingPattern rules
  | .type => Parser.type rules
  | .element => Parser.element rules

/-- The rules of all phrases that are nested no deeper than the bound. -/
def rules : Nat → Rules
  | 0 => fun _ => Parser.reject
  | n + 1 => fun goal => step (rules n) goal

end Grammar

namespace Tree

/-- Whether the tree is a function expression without a block for its body. -/
def isBodiless : Tree → Bool
  | functionExpr _ _ _ _ _ _ _ body _ _ => body.label != .block
  | _ => false

mutual

/-- Whether every function expression in a phrase has a body.  The rule for functions lets a
declaration do without, and so the function of an `export default` may do without as well. -/
def hasBodies : Tree → Bool
  | node .exportDefaultDecl _ [node _ _ ts] => hasBodiesAll ts
  | node l s ts => !(node l s ts).isBodiless && hasBodiesAll ts

/-- Whether every function expression in a list of phrases has a body. -/
def hasBodiesAll : List Tree → Bool
  | [] => true
  | t :: ts => t.hasBodies && hasBodiesAll ts

end

end Tree

/-- A file that was read: its module and its tokens in order, the end of the text included. -/
structure SourceFile where
  module : Module
  lexemes : List Lexeme

namespace SourceFile

/-- All items up to the end of the text. -/
def items (rules : Rules) : Parser (List Tree) := do
  let ts ← Parser.many (do
    if (← Parser.peek) == .eof then return none
    return some (← rules .moduleItem))
  unless (← Parser.peek) == .eof do Parser.reject
  return ts

/-- Splits off a first line that is addressed to the operating system. -/
def splitShebang : List Char → Option String × Nat × List Char
  | '#' :: '!' :: cs =>
    let line := cs.takeWhile fun c => !isLineBreak c
    (some (String.ofList line), line.length + 2, cs.drop line.length)
  | cs => (none, 0, cs)

/-- Reads a file, if its text is a module of the dialect. -/
def parse? (dialect : Dialect) (text : String) : Option SourceFile := do
  let all := text.toList
  let limit := all.length + 1
  let (shebang, skipped, cs) := splitShebang all
  let (first, here, after) := Lexeme.next (skipped + 1) cs
  let cursor : Cursor := ⟨first, here, after, first.start, [], limit, 0⟩
  -- no phrase is nested deeper than its text allows
  let depth := 8 * limit + 64
  let (ts, c) ← items (Grammar.rules depth) { toDialect := dialect } cursor
  guard (Tree.hasBodiesAll ts)
  let stop := (c.taken.head?.map Lexeme.stop).getD first.start
  return ⟨⟨shebang, ts, ⟨first.start, stop⟩⟩, (c.current :: c.taken).reverse⟩

end SourceFile

end ContextHoist
