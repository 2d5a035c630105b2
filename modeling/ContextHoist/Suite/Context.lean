/-
The contexts of nested suites and the properties hoisted in them.

Each function literal that the conversion descends through has a context, which knows the context
around it and the properties that became variables of the literal.

* `ContextTree`: the contexts of one suite, numbered in order of creation.
* `ContextTree.find?`: the nearest context outwards that holds a property decides its variable.
-/
namespace ContextHoist

/-- The property `key` of a test context, held in the variable `name`. -/
structure Property where
  key : String
  name : String
  deriving DecidableEq, Repr, Inhabited

/-- The number of a context in its tree. -/
abbrev ContextId := Nat

/-- One nesting level of suites. -/
structure Context where
  /-- At most one entry for each property, the earliest first. -/
  properties : List Property := []
  parent : Option ContextId := none
  /-- The contexts directly inside, the earliest first. -/
  children : List ContextId := []
  deriving DecidableEq, Repr, Inhabited

/-- The contexts created so far. -/
structure ContextTree where
  contexts : Array Context := #[]
  deriving Repr, Inhabited

namespace ContextTree

/-- The number of contexts, which is also the number that the next one gets. -/
def size (t : ContextTree) : Nat :=
  t.contexts.size

/-- The context with the given number. -/
def get (t : ContextTree) (c : ContextId) : Context :=
  t.contexts[c]?.getD {}

/-- The properties of a context. -/
def properties (t : ContextTree) (c : ContextId) : List Property :=
  (t.get c).properties

/-- Adds a context with nothing around it; its number is the former size. -/
def addRoot (t : ContextTree) : ContextTree :=
  ⟨t.contexts.push {}⟩

/-- Adds a context directly inside another; its number is the former size. -/
def addChild (t : ContextTree) (parent : ContextId) : ContextTree :=
  ⟨(t.contexts.modify parent fun c => { c with children := c.children ++ [t.size] }).push
    { parent := some parent }⟩

/-- Adds a context inside another one or inside none. -/
def add (t : ContextTree) : Option ContextId → ContextTree
  | some parent => t.addChild parent
  | none => t.addRoot

/-- Records that a context holds a property in a variable.  The first record of a property
stands; later ones change nothing. -/
def addProperty (t : ContextTree) (c : ContextId) (p : Property) : ContextTree :=
  ⟨t.contexts.modify c fun k =>
    if k.properties.any (·.key == p.key) then k
    else { k with properties := k.properties ++ [p] }⟩

/-- The contexts from the given one outwards.  A context is created after the one around it, so
each step goes to a smaller number; one that does not would end the list. -/
def ancestry (t : ContextTree) (c : ContextId) : List Context :=
  match t.contexts[c]? with
  | none => []
  | some k =>
    match k.parent with
    | none => [k]
    | some p => if p < c then k :: t.ancestry p else [k]
termination_by c

/-- The record of a property in the nearest context outwards that has one. -/
def find? (t : ContextTree) (c : ContextId) (key : String) : Option Property :=
  (t.ancestry c).findSome? (·.properties.find? (·.key == key))

end ContextTree

end ContextHoist
