/-
Syntax trees.

* `Tree`: rose trees over `Label`, each node with its span.
* Pattern-matchable shapes for the nodes that the analyses and the conversion take apart, such
  as `Tree.accessOf`, the member access `this.p`.
* `Module`: the items of a source file.
-/
import ContextHoist.Syntax.Label

namespace ContextHoist

/-- A syntax tree: a label, the stretch of source text it was read from, and the parts. -/
inductive Tree where
  | node (label : Label) (span : Span) (parts : List Tree)
  deriving Inhabited, Repr

namespace Tree

/-- The label at the root. -/
def label : Tree → Label
  | node l _ _ => l

/-- The span of the root. -/
def span : Tree → Span
  | node _ s _ => s

/-- The parts of the root. -/
def parts : Tree → List Tree
  | node _ _ ts => ts

@[simp] theorem label_node (l : Label) (s : Span) (ts : List Tree) : (node l s ts).label = l := rfl

@[simp] theorem span_node (l : Label) (s : Span) (ts : List Tree) : (node l s ts).span = s := rfl

@[simp] theorem parts_node (l : Label) (s : Span) (ts : List Tree) : (node l s ts).parts = ts := rfl

/-! ### Shapes -/

/-- A part that is not there. -/
@[match_pattern] abbrev absent : Tree := node .absent ⟨0, 0⟩ []

/-- Any number of phrases of one sort. -/
@[match_pattern] abbrev group (ts : List Tree) : Tree := node .group ⟨0, 0⟩ ts

/-- A name that refers to a variable or binds one. -/
@[match_pattern] abbrev name (x : String) (s : Span) : Tree := node (.name x) s []

/-- A property key or the name after a dot. -/
@[match_pattern] abbrev key (x : String) (s : Span) : Tree := node (.key x) s []

/-- The expression `this`. -/
@[match_pattern] abbrev thisExpr (s : Span) : Tree := node .thisExpr s []

/-- The member access `this.p`. -/
@[match_pattern] abbrev accessOf (p : String) (s this prop : Span) : Tree :=
  node .member s [thisExpr this, key p prop]

/-- The member access `this?.p`, or `this.p` inside a longer optional chain. -/
@[match_pattern] abbrev chainAccessOf (p : String) (o : Bool) (s this prop : Span) : Tree :=
  node (.chainMember o) s [thisExpr this, key p prop]

/-- A call. -/
@[match_pattern] abbrev call (s : Span) (callee : Tree) (gs : Span) (args : List Tree)
    (types : Tree) : Tree :=
  node .call s [callee, node .group gs args, types]

/-- A function expression. -/
@[match_pattern] abbrev functionExpr (s : Span) (self : Tree) (isAsync isGenerator : Bool)
    (fs : Span) (params decorators body typeParams result : Tree) : Tree :=
  node .functionExpr s [self,
    node (.function isAsync isGenerator) fs [params, decorators, body, typeParams, result]]

/-- An arrow function. -/
@[match_pattern] abbrev arrow (s : Span) (isAsync : Bool) (params body typeParams result : Tree) :
    Tree :=
  node (.arrow isAsync) s [params, body, typeParams, result]

/-- Whether the part is there. -/
def isPresent : Tree → Bool
  | node .absent _ [] => false
  | _ => true

/-- Whether the tree is a function expression or an arrow function. -/
def isFunctionLiteral : Tree → Bool
  | functionExpr .. | arrow .. => true
  | _ => false

/-! ### Induction -/

/-- Induction on trees, with the hypothesis at every part. -/
@[elab_as_elim]
theorem induct {motive : Tree → Prop}
    (node : ∀ l s ts, (∀ t ∈ ts, motive t) → motive (node l s ts)) (t : Tree) : motive t := by
  refine @Tree.rec motive (fun ts => ∀ t ∈ ts, motive t) node ?_ ?_ t
  · intro t ht
    exact absurd ht List.not_mem_nil
  · intro t ts ih ihs u hu
    rcases List.mem_cons.1 hu with rfl | hu
    · exact ih
    · exact ihs u hu

end Tree

/-- A source file: its first line if that is addressed to the operating system, its items, and
the stretch of text they take. -/
@[ext]
structure Module where
  /-- The text after `#!` on the first line. -/
  shebang : Option String
  /-- The statements and module declarations. -/
  items : List Tree
  /-- The text from the first to the last token. -/
  span : Span
  deriving Inhabited, Repr

end ContextHoist
