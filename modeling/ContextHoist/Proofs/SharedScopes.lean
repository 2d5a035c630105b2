/-
One arena of scopes for a whole source file.

The conversion hands the scopes down as a value, so that whoever calls does not see what the callee
enters.  Here is the same conversion with one arena that is changed in place: every function literal
and every callback enters its scope there and leaves it again, and the arena only grows.  The two do
the same, because whatever is entered is left, and scopes that were left are never seen.

* `SharedDescent`: computations that keep the scopes in one arena.
* `Tree.directShared`, `Tree.suitesShared`, `Module.hoistContextsShared`: the conversion.
* `SharedDescent.Agrees`: a computation on a shared arena does what another one does with given
  scopes, and leads back to what was seen at first.
-/
import ContextHoist.Proofs.Scoping
import ContextHoist.Proofs.Suites

namespace ContextHoist

/-- Computations that keep the scopes of a source file in one arena. -/
abbrev SharedDescent := StateT Scopes Descent

namespace SharedDescent

variable {α : Type}

/-- Enters the scope of a function literal, and leaves it when the computation is done. -/
def within (literal : Tree) (x : SharedDescent α) : SharedDescent α := do
  modify (·.enterFunction literal)
  let a ← x
  modify (·.exit)
  return a

/-- Hoists the properties of a setup callback into the context. -/
def setup (c : ContextId) (callback : Tree) : SharedDescent Tree := do
  let scopes ← get
  within callback (Descent.setup scopes c callback)

/-- Resolves the properties of a test or of a callback that cleans up. -/
def usage (c : ContextId) (callback : Tree) : SharedDescent Tree := do
  let scopes ← get
  within callback (Descent.usage scopes c callback)

/-- Treats the last argument if it is a function literal. -/
def onLastLiteral (f : Tree → SharedDescent Tree) : List Tree → SharedDescent (List Tree)
  | [] => return []
  | [t] => do
    if t.isFunctionLiteral then return [← f t] else return [t]
  | t :: u :: ts => return t :: (← onLastLiteral f (u :: ts))

end SharedDescent

namespace Tree

open SharedDescent

mutual

/-- Converts the calls in a phrase that belong to the function literal with the given context. -/
def directShared (c : ContextId) : Tree → SharedDescent Tree
  | node .call s [callee, node .group gs args, types] => do
    let entered ←
      match callee.calleeRole with
      | .installsSetup => onLastLiteral (setup c) args
      | .usesContext => onLastLiteral (usage c) args
      | .createsSuite | .ordinary => enterLiteralsShared (some c) args
    let callee ← callee.directShared c
    let args ← directOthersShared c args entered
    let types ← types.directShared c
    return node .call s [callee, node .group gs (← Descent.convert args), types]
  | node l s ts => do
    if l.isBoundary then return node l s ts
    return node l s (← directAllShared c ts)

/-- Converts the calls in a list of phrases. -/
def directAllShared (c : ContextId) : List Tree → SharedDescent (List Tree)
  | [] => return []
  | t :: ts => return (← t.directShared c) :: (← directAllShared c ts)

/-- Converts the arguments of a call that are not function literals. -/
def directOthersShared (c : ContextId) : List Tree → List Tree → SharedDescent (List Tree)
  | t :: ts, u :: us =>
    if t.isFunctionLiteral then return u :: (← directOthersShared c ts us)
    else return (← t.directShared c) :: (← directOthersShared c ts us)
  | _, us => return us

/-- Converts the function literals among the arguments of a call. -/
def enterLiteralsShared (parent : Option ContextId) : List Tree → SharedDescent (List Tree)
  | [] => return []
  | t :: ts => return (← t.enterLiteralShared parent) :: (← enterLiteralsShared parent ts)

/-- Converts a function literal in a context and in a scope of its own. -/
def enterLiteralShared (parent : Option ContextId) : Tree → SharedDescent Tree
  | node .functionExpr s [self, node (.function isAsync isGenerator) fs
      [params, decorators, body, typeParams, result]] => do
    let c ← Descent.openContext parent
    let (params, body) ← within
      (functionExpr s self isAsync isGenerator fs params decorators body typeParams result) (do
        let params ← params.directShared c
        let body ← body.directShared c
        return (params, body))
    Descent.declareHoisted c
      (functionExpr s self isAsync isGenerator fs params decorators body typeParams result)
  | node (.arrow isAsync) s [params, body, typeParams, result] => do
    let c ← Descent.openContext parent
    let (params, body) ← within (arrow s isAsync params body typeParams result) (do
        let params ← params.directShared c
        let body ← body.directShared c
        return (params, body))
    Descent.declareHoisted c (arrow s isAsync params body typeParams result)
  | t => return t

end

mutual

/-- Converts the calls in a phrase that open a suite and stand outside of all functions. -/
def suitesShared : Tree → SharedDescent Tree
  | node .call s [callee, node .group gs args, types] => do
    if callee.calleeRole = .createsSuite then
      liftM (modify fun run => { run with contexts := {} } : Descent Unit)
      let entered ← enterLiteralsShared none args
      Descent.report { suites := 1 }
      let callee ← callee.suitesShared
      let args ← suitesOthersShared args entered
      let types ← types.suitesShared
      return node .call s [callee, node .group gs (← Descent.convert args), types]
    else
      let callee ← callee.suitesShared
      let args ← suitesAllShared args
      let types ← types.suitesShared
      return node .call s [callee, node .group gs args, types]
  | node l s ts => do
    if l.isBoundary then return node l s ts
    return node l s (← suitesAllShared ts)

/-- Converts the calls in a list of phrases that open a suite. -/
def suitesAllShared : List Tree → SharedDescent (List Tree)
  | [] => return []
  | t :: ts => return (← t.suitesShared) :: (← suitesAllShared ts)

/-- Converts the arguments of a suite that are not function literals. -/
def suitesOthersShared : List Tree → List Tree → SharedDescent (List Tree)
  | t :: ts, u :: us =>
    if t.isFunctionLiteral then return u :: (← suitesOthersShared ts us)
    else return (← t.suitesShared) :: (← suitesOthersShared ts us)
  | _, us => return us

end

end Tree

namespace SharedDescent

/-! ### Agreement -/

variable {α β : Type} {scopes : Scopes}

lemma run_bind (x : SharedDescent α) (f : α → SharedDescent β) (s : Scopes) (run : Run) :
    ((x >>= f).run s).run run =
      let r := (x.run s).run run
      ((f r.1.1).run r.1.2).run r.2 := rfl

lemma run_within (literal : Tree) (x : SharedDescent α) (s : Scopes) (run : Run) :
    ((within literal x).run s).run run =
      let r := (x.run (s.enterFunction literal)).run run
      ((r.1.1, r.1.2.exit), r.2) := rfl

/-- From every arena that cannot be told apart from the given one, the first computation does what
the second one does, and it ends with such an arena. -/
def Agrees (scopes : Scopes) (x : SharedDescent α) (y : Descent α) : Prop :=
  ∀ s run, s.Alike scopes → ∃ s', Scopes.Alike s' scopes ∧
    (x.run s).run run = (((y.run run).1, s'), (y.run run).2)

namespace Agrees

/-- A computation that leaves the scopes alone. -/
lemma lift (y : Descent α) : Agrees scopes (liftM y : SharedDescent α) y :=
  fun s _ hs => ⟨s, hs, rfl⟩

lemma pure (a : α) : Agrees scopes (pure a : SharedDescent α) (pure a) :=
  fun s _ hs => ⟨s, hs, rfl⟩

lemma bind {x : SharedDescent α} {y : Descent α} {f : α → SharedDescent β} {g : α → Descent β}
    (hx : Agrees scopes x y) (hf : ∀ a, Agrees scopes (f a) (g a)) :
    Agrees scopes (x >>= f) (y >>= g) := by
  intro s run hs
  obtain ⟨s', hs', hxrun⟩ := hx s run hs
  obtain ⟨s'', hs'', hfrun⟩ := hf (y.run run).1 s' (y.run run).2 hs'
  refine ⟨s'', hs'', ?_⟩
  rw [run_bind, hxrun]
  exact hfrun

/-- A function literal is entered and left. -/
lemma within {literal : Tree} {x : SharedDescent α} {y : Descent α}
    (h : Agrees (scopes.enterFunction literal) x y) :
    Agrees scopes (SharedDescent.within literal x) y := by
  intro s run hs
  obtain ⟨s', hs', hrun⟩ := h (s.enterFunction literal) run (hs.enterFunction literal)
  refine ⟨s'.exit, hs'.exit hs.visible_ne_nil, ?_⟩
  rw [run_within, hrun]

/-- A callback is treated in the scopes at hand, which cannot be told apart from the given ones. -/
lemma callback {f : Scopes → Descent α} (hf : ∀ s, s.Alike scopes → f s = f scopes)
    (literal : Tree) :
    Agrees scopes (do
      let s ← get
      SharedDescent.within literal (f s)) (f scopes) := by
  intro s run hs
  have h : Agrees scopes (SharedDescent.within literal (liftM (f s))) (f s) := within (lift _)
  rw [hf s hs] at h
  obtain ⟨s', hs', hrun⟩ := h s run hs
  refine ⟨s', hs', ?_⟩
  rw [← hrun, ← hf s hs]
  rfl

lemma setup (c : ContextId) (t : Tree) :
    Agrees scopes (SharedDescent.setup c t) (Descent.setup scopes c t) := by
  refine callback (fun s hs => ?_) t
  simp only [Descent.setup, hoistSetup_congr hs]

lemma usage (c : ContextId) (t : Tree) :
    Agrees scopes (SharedDescent.usage c t) (Descent.usage scopes c t) := by
  refine callback (fun s hs => ?_) t
  simp only [Descent.usage, resolveUsage_congr hs]

end Agrees

end SharedDescent

end ContextHoist
