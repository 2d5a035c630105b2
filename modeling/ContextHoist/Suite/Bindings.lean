/-
The names that patterns, statements and function literals bind.

Scopes follow functions: a declaration counts for the innermost function around it, however
deep in blocks it stands.  A class, a nested function and an accessor of an object literal keep
their declarations to themselves.

* `Tree.patternNames`: the variables that a pattern introduces.
* `Tree.declared`: the names that declarations in a phrase introduce, outside of functions and
  classes in it.
* `Tree.bindings`: the names bound by a function literal itself.
* `Module.declared`: the names bound at the top of a source file.
-/
import ContextHoist.Syntax.Tree

namespace ContextHoist

namespace Tree

mutual

/-- The variables that a pattern introduces.  Keys and default values introduce none, and
neither does a pattern that is an expression, such as the member access in `[a.b] = c`. -/
def patternNames : Tree → List String
  | node (.name x) _ _ => [x]
  | node .group _ ts => patternNamesAll ts
  | node .arrayPattern _ ts => patternNamesAll ts
  | node .objectPattern _ ts => patternNamesAll ts
  | node .restPattern _ (p :: _) => p.patternNames
  | node .defaultPattern _ (p :: _) => p.patternNames
  | node .shorthandPattern _ (p :: _) => p.patternNames
  | node (.annotated _) _ (p :: _) => p.patternNames
  | node .keyValuePattern _ (_ :: p :: _) => p.patternNames
  | node .parameter _ (_ :: p :: _) => p.patternNames
  | _ => []

/-- The variables that a list of patterns introduces. -/
def patternNamesAll : List Tree → List String
  | [] => []
  | t :: ts => t.patternNames ++ patternNamesAll ts

end

mutual

/-- The names that the declarations in a phrase introduce: the variables of declarators, the
names of functions and classes, the local names of imports, and the parameters of catch
clauses.  Phrases with a scope of their own are not entered. -/
def declared : Tree → List String
  | node (.declarator _) _ (p :: rest) => p.patternNames ++ declaredAll rest
  | node .catchClause _ (p :: rest) => p.patternNames ++ declaredAll rest
  | node (.functionDecl _) _ (x :: _) => x.patternNames
  | node (.classDecl _) _ (x :: _) => x.patternNames
  | node .importDefault _ (x :: _) => x.patternNames
  | node .importNamespace _ (x :: _) => x.patternNames
  | node (.importNamed _) _ (x :: _) => x.patternNames
  | node l _ ts => if l.isBoundary then [] else declaredAll ts

/-- The names that the declarations in a list of phrases introduce. -/
def declaredAll : List Tree → List String
  | [] => []
  | t :: ts => t.declared ++ declaredAll ts

end

/-- The names that a function literal binds: its own name, the variables of its parameters, and
what its body declares.  Any other expression binds nothing. -/
def bindings : Tree → List String
  | functionExpr _ self _ _ _ params _ body _ _ =>
    self.patternNames ++ params.patternNames ++ body.declared
  | arrow _ _ params body _ _ => params.patternNames ++ body.declared
  | _ => []

end Tree

/-- The names bound at the top of a source file. -/
def Module.declared (m : Module) : List String :=
  Tree.declaredAll m.items

/-- The given names without repetitions, in the order of their code points. -/
def sortedNames (xs : List String) : List String :=
  xs.eraseDups.mergeSort (fun a b => decide (a ≤ b))

end ContextHoist
