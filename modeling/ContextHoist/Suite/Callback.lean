/-
The shape of callbacks: declarations put into them, and functions turned into arrow functions.

* `spliceDeclarations`: declarations go behind the variable declarations that open a body.
* `Tree.inject`: puts declarations into the body of a function literal.
* `Tree.mentionsReceiver`: whether a function mentions its own `this` or `arguments`.
* `Tree.arrowify`: turns a function that does not need to be one into an arrow function.
* `convertLast`: does so with the last argument of a call.
-/
import ContextHoist.Syntax.Tree

namespace ContextHoist

namespace Tree

/-! ### Declarations -/

/-- The statement `let x;`. -/
def letDeclaration (x : String) : Tree :=
  node (.varDecl .letKind false) .nowhere
    [node (.declarator false) .nowhere [name x .nowhere, absent]]

/-- Whether a statement declares variables with `var`, `let` or `const`. -/
def isVariableDeclaration : Tree → Bool
  | node (.varDecl .varKind _) _ _ => true
  | node (.varDecl .letKind _) _ _ => true
  | node (.varDecl .constKind _) _ _ => true
  | _ => false

end Tree

/-- Puts declarations behind the variable declarations that open a body. -/
def spliceDeclarations (body declarations : List Tree) : List Tree :=
  body.takeWhile Tree.isVariableDeclaration ++ declarations ++
    body.dropWhile Tree.isVariableDeclaration

namespace Tree

/-- Puts declarations into the body of a function literal.  An arrow function whose body is an
expression gets a block that returns the expression, unless there is nothing to declare.  There
is no result for what is not a function literal with a body. -/
def inject? (declarations : List Tree) : Tree → Option Tree
  | functionExpr s self isAsync isGenerator fs params decorators (node .block bs body) typeParams
      result =>
    some (functionExpr s self isAsync isGenerator fs params decorators
      (node .block bs (spliceDeclarations body declarations)) typeParams result)
  | arrow s isAsync params (node .block bs body) typeParams result =>
    some (arrow s isAsync params (node .block bs (spliceDeclarations body declarations)) typeParams
      result)
  | arrow s isAsync params body typeParams result =>
    if declarations.isEmpty then some (arrow s isAsync params body typeParams result)
    else some (arrow s isAsync params
      (node .block .nowhere (declarations ++ [node .returnStmt .nowhere [body]])) typeParams result)
  | _ => none

/-- Puts declarations into the body of a function literal, and leaves everything else alone. -/
def inject (declarations : List Tree) (t : Tree) : Tree :=
  (t.inject? declarations).getD t

/-! ### Arrow functions -/

mutual

/-- Whether `this` or `arguments` occurs in a phrase.  Arrow functions share both with the
function around them; other functions, classes and accessors have their own. -/
def mentionsReceiver : Tree → Bool
  | node .thisExpr _ _ => true
  | node (.name x) _ ts => x == "arguments" || mentionsReceiverAny ts
  | node (.arrow _) _ ts => mentionsReceiverAny ts
  | node l _ ts => if l.isBoundary then false else mentionsReceiverAny ts

/-- Whether `this` or `arguments` occurs in one of the phrases. -/
def mentionsReceiverAny : List Tree → Bool
  | [] => false
  | t :: ts => t.mentionsReceiver || mentionsReceiverAny ts

end

/-- Whether a function expression mentions its own `this` or `arguments` in its parameters or
its body. -/
def usesReceiver : Tree → Bool
  | functionExpr _ _ _ _ _ params _ body _ _ => params.mentionsReceiver || body.mentionsReceiver
  | _ => false

/-- The pattern of a parameter. -/
def parameterPattern : Tree → Tree
  | node .parameter _ [_, p] => p
  | t => t

/-- The patterns of a group of parameters. -/
def parameterPatterns : Tree → Tree
  | node .group s ts => node .group s (ts.map parameterPattern)
  | t => t

/-- The arrow function for a function expression that has no name, is not a generator, and does
not mention its own `this` or `arguments`; any other tree as it is. -/
def toArrow : Tree → Tree
  | functionExpr s self isAsync isGenerator fs params decorators body typeParams result =>
    if self.isPresent || isGenerator || !body.isPresent
        || params.mentionsReceiver || body.mentionsReceiver then
      functionExpr s self isAsync isGenerator fs params decorators body typeParams result
    else
      arrow fs isAsync params.parameterPatterns body typeParams result
  | t => t

/-- Turns a function into an arrow function where that is possible, also inside one pair of
parentheses. -/
def arrowify : Tree → Tree
  | node .paren s [t] => node .paren s [t.toArrow]
  | t => t.toArrow

/-- Whether the tree is an arrow function, possibly in parentheses. -/
def isArrow : Tree → Bool
  | node (.arrow _) _ _ => true
  | node .paren _ [t] => t.isArrow
  | _ => false

/-- Whether the tree is an arrow function without parentheses. -/
def isBareArrow : Tree → Bool
  | node (.arrow _) _ _ => true
  | _ => false

end Tree

/-- Turns the last of some arguments into an arrow function where that is possible.  The flag
says whether the result is an arrow function and the argument was none; an arrow function that
stands in parentheses counts as changed. -/
def convertLast : List Tree → List Tree × Bool
  | [] => ([], false)
  | [t] => ([t.arrowify], !t.isBareArrow && t.arrowify.isArrow)
  | t :: u :: ts =>
    let (ts, changed) := convertLast (u :: ts)
    (t :: ts, changed)

end ContextHoist
