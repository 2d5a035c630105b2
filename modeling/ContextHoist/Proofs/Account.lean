/-
The account of a conversion.

An account relates a phrase, what the conversion makes of it, and the trace of what was found on
the way.  Its rules say all that a conversion may do: callbacks are resolved, variables are
declared in function literals, the last argument of a call becomes an arrow function where that
is possible, and the rest stays.  How variables are declared is a parameter.

The parameters of an arrow function have no decorators.  What tests read in the decorators of a
function that becomes an arrow function is gone from the result, and an account lists it.

* `Becomes`: the rules inside of a function literal.
* `ItemBecomes`: the rules outside of all functions, with one trace for each suite.
-/
import ContextHoist.Suite.Callback
import ContextHoist.Proofs.Trace

namespace ContextHoist

/-! ### Decorators -/

/-- The properties that the tests of an outline access. -/
def Outline.reads (o : Outline Tree Tree) : List String :=
  o.usages.flatMap Tree.contextAccesses

@[simp] lemma Outline.reads_append (a b : Outline Tree Tree) :
    (a ++ b).reads = a.reads ++ b.reads := by
  simp [reads]

namespace Tree

/-- The decorators of a parameter. -/
def parameterDecorators? : Tree → Option Tree
  | node .parameter _ [decorators, _] => some decorators
  | _ => none

/-- The properties that the tests found in the decorators of a group of parameters access. -/
def decoratorReads : Tree → List String
  | node .group _ ts => (ts.filterMap parameterDecorators?).flatMap (·.outline.reads)
  | _ => []

/-- The properties that tests access in those decorators of a function expression that an arrow
function in its place does not have. -/
def lostReads : Tree → List String
  | functionExpr s self isAsync isGenerator fs params decorators body typeParams result =>
    if (functionExpr s self isAsync isGenerator fs params decorators body typeParams
        result).toArrow.isBareArrow then params.decoratorReads
    else []
  | _ => []

end Tree

/-- The properties that tests access in decorators that are gone when the last of some arguments
has become an arrow function.  A setup or a test has no tests in the callback. -/
def lostReads (r : Role) (args : List Tree) : List String :=
  match r with
  | .createsSuite | .ordinary => (args.getLast?.map Tree.lostReads).getD []
  | .installsSetup | .usesContext => []

/-! ### Rules -/

section Rules

variable (Put : List String → Tree → Tree → Prop)

mutual

/-- `Becomes Put t u a lost`: inside of a function literal the phrase `t` becomes `u`, with the
trace `a`, and `u` has lost the accesses `lost` of tests in decorators.  The relation
`Put names t u` says how the variables `names` are declared in the function literal `t`. -/
inductive Becomes : Tree → Tree → Trace → List String → Prop
  | boundary {l : Label} (h : l.isBoundary = true) (s : Span) (ts : List Tree) :
      Becomes (.node l s ts) (.node l s ts) .done []
  | parts {l : Label} {s : Span} {ts us : List Tree} {a : Trace} {lost : List String}
      (h : l.isBoundary = false)
      (hcall : ∀ callee gs args types, l = .call → ts = [callee, .node .group gs args, types] →
        False) (ha : AllBecome ts us a lost) : Becomes (.node l s ts) (.node l s us) a lost
  | call {s gs : Span} {callee callee' types types' : Tree} {args args' : List Tree}
      {a b c d : Trace} {lost₁ lost₂ lost₃ : List String}
      (ha : ArgumentsBecome callee.calleeRole args args' a c lost₁)
      (hb : Becomes callee callee' b lost₂) (hd : Becomes types types' d lost₃) :
      Becomes (.call s callee gs args types) (.call s callee' gs (convertLast args').1 types')
        (a ++ (b ++ (c ++ d)))
        (lostReads callee.calleeRole args' ++ (lost₁ ++ (lost₂ ++ lost₃)))

/-- The phrases become the others, in order. -/
inductive AllBecome : List Tree → List Tree → Trace → List String → Prop
  | nil : AllBecome [] [] .done []
  | cons {t u : Tree} {ts us : List Tree} {a b : Trace} {lost₁ lost₂ : List String}
      (ha : Becomes t u a lost₁) (hb : AllBecome ts us b lost₂) :
      AllBecome (t :: ts) (u :: us) (a ++ b) (lost₁ ++ lost₂)

/-- A function literal that has a context of its own becomes another one. -/
inductive LiteralBecomes : Tree → Tree → Trace → List String → Prop
  | entered {k : Shell} {params params' body body' u : Tree} {a b : Trace}
      {lost₁ lost₂ : List String} (hoisted : Frame) (ha : Becomes params params' a lost₁)
      (hb : Becomes body body' b lost₂)
      (hu : Put (hoisted.map (·.name)) (k.literal params' body') u) :
      LiteralBecomes (k.literal params body) u
        (.literal ⟨k.literal params body, hoisted⟩ (a ++ b) .done) (lost₁ ++ lost₂)

/-- The arguments of a call with the given role become others.  The first trace is that of the
function literals, which are reached before the callee; the second one is that of the rest. -/
inductive ArgumentsBecome : Role → List Tree → List Tree → Trace → Trace → List String → Prop
  | nil (r : Role) : ArgumentsBecome r [] [] .done .done []
  | other {r : Role} {t u : Tree} {ts us : List Tree} {a b c : Trace} {lost₁ lost₂ : List String}
      (ht : t.isFunctionLiteral = false) (hb : Becomes t u b lost₁)
      (h : ArgumentsBecome r ts us a c lost₂) :
      ArgumentsBecome r (t :: ts) (u :: us) a (b ++ c) (lost₁ ++ lost₂)
  | entered {r : Role} {t u : Tree} {ts us : List Tree} {a b c : Trace}
      {lost₁ lost₂ : List String} (hr : r.Descends) (ha : LiteralBecomes t u a lost₁)
      (h : ArgumentsBecome r ts us b c lost₂) :
      ArgumentsBecome r (t :: ts) (u :: us) (a ++ b) c (lost₁ ++ lost₂)
  | passed {r : Role} {t : Tree} {ts us : List Tree} {a c : Trace} {lost : List String}
      (hr : ¬r.Descends) (ht : t.isFunctionLiteral = true) (hts : ts ≠ [])
      (h : ArgumentsBecome r ts us a c lost) : ArgumentsBecome r (t :: ts) (t :: us) a c lost
  | setup (k : Handled) (ht : k.tree.isFunctionLiteral = true) :
      ArgumentsBecome .installsSetup [k.tree] [k.result] (.setup k .done) .done []
  | usage (k : Handled) (ht : k.tree.isFunctionLiteral = true) :
      ArgumentsBecome .usesContext [k.tree] [k.result] (.usage k .done) .done []

end

mutual

/-- `ItemBecomes Put t u as lost`: outside of all functions the phrase `t` becomes `u`, with one
trace for each call in it that opens a suite. -/
inductive ItemBecomes : Tree → Tree → List Trace → List String → Prop
  | boundary {l : Label} (h : l.isBoundary = true) (s : Span) (ts : List Tree) :
      ItemBecomes (.node l s ts) (.node l s ts) [] []
  | parts {l : Label} {s : Span} {ts us : List Tree} {as : List Trace} {lost : List String}
      (h : l.isBoundary = false)
      (hcall : ∀ callee gs args types, l = .call → ts = [callee, .node .group gs args, types] →
        False) (ha : ItemsBecome ts us as lost) : ItemBecomes (.node l s ts) (.node l s us) as lost
  | call {s gs : Span} {callee callee' types types' : Tree} {args args' : List Tree}
      {as bs cs : List Trace} {lost₁ lost₂ lost₃ : List String}
      (hr : callee.calleeRole ≠ .createsSuite) (ha : ItemBecomes callee callee' as lost₁)
      (hb : ItemsBecome args args' bs lost₂) (hc : ItemBecomes types types' cs lost₃) :
      ItemBecomes (.call s callee gs args types) (.call s callee' gs args' types')
        (as ++ (bs ++ cs)) (lost₁ ++ (lost₂ ++ lost₃))
  | suite {s gs : Span} {callee callee' types types' : Tree} {args args' : List Tree} {a : Trace}
      {as bs cs : List Trace} {lost₁ lost₂ lost₃ : List String}
      (hr : callee.calleeRole = .createsSuite) (hb : SuiteArgumentsBecome args args' a bs lost₁)
      (ha : ItemBecomes callee callee' as lost₂) (hc : ItemBecomes types types' cs lost₃) :
      ItemBecomes (.call s callee gs args types)
        (.call s callee' gs (convertLast args').1 types') (a :: (as ++ (bs ++ cs)))
        (lostReads .createsSuite args' ++ (lost₁ ++ (lost₂ ++ lost₃)))

/-- The phrases outside of all functions become the others, in order. -/
inductive ItemsBecome : List Tree → List Tree → List Trace → List String → Prop
  | nil : ItemsBecome [] [] [] []
  | cons {t u : Tree} {ts us : List Tree} {as bs : List Trace} {lost₁ lost₂ : List String}
      (ha : ItemBecomes t u as lost₁) (hb : ItemsBecome ts us bs lost₂) :
      ItemsBecome (t :: ts) (u :: us) (as ++ bs) (lost₁ ++ lost₂)

/-- The arguments of a call that opens a suite become others. -/
inductive SuiteArgumentsBecome :
    List Tree → List Tree → Trace → List Trace → List String → Prop
  | nil : SuiteArgumentsBecome [] [] .done [] []
  | other {t u : Tree} {ts us : List Tree} {a : Trace} {bs cs : List Trace}
      {lost₁ lost₂ : List String} (ht : t.isFunctionLiteral = false)
      (hb : ItemBecomes t u bs lost₁) (h : SuiteArgumentsBecome ts us a cs lost₂) :
      SuiteArgumentsBecome (t :: ts) (u :: us) a (bs ++ cs) (lost₁ ++ lost₂)
  | entered {t u : Tree} {ts us : List Tree} {a b : Trace} {cs : List Trace}
      {lost₁ lost₂ : List String} (ha : LiteralBecomes Put t u a lost₁)
      (h : SuiteArgumentsBecome ts us b cs lost₂) :
      SuiteArgumentsBecome (t :: ts) (u :: us) (a ++ b) cs (lost₁ ++ lost₂)

end

end Rules

section Consequences

variable {Put : List String → Tree → Tree → Prop} {t u : Tree} {a : Trace} {lost : List String}

lemma LiteralBecomes.isFunctionLiteral (h : LiteralBecomes Put t u a lost) :
    t.isFunctionLiteral = true := by
  cases h
  exact Shell.isFunctionLiteral_literal _ _ _

/-- The conversion of a phrase does not change what kind of phrase it is. -/
lemma Becomes.label_eq (h : Becomes Put t u a lost) : u.label = t.label := by
  cases h <;> rfl

end Consequences

end ContextHoist
