/-
The conversion of suites: properties of the test context become variables of closures.

It starts at the calls outside of all functions that open a suite, and descends
through the function literals among the arguments of calls.  Each literal has a context.  Inside
it, setup calls hoist the properties they access into that context, tests and the calls that
clean up read them, and any other call is descended into.  When a literal is done, the variables
of its context are declared at the top of its body, and the last argument of the call becomes an
arrow function where that is possible.

* `Descent`: computations that create contexts and count what they do.
* `Tree.direct`: the calls that belong to one function literal.
* `Tree.suites`: the calls that open a suite outside of all functions.
* `Module.hoistContexts`: the conversion of a source file.
-/
import ContextHoist.Stats
import ContextHoist.Suite.Role
import ContextHoist.Suite.Hoist
import ContextHoist.Suite.Callback

namespace ContextHoist

/-- What the descent knows so far: the contexts of the suite at hand, and what has been
done. -/
structure Run where
  contexts : ContextTree := {}
  stats : Stats := {}
  deriving Inhabited

/-- Computations that create contexts and count what they do. -/
abbrev Descent := StateM Run

namespace Descent

/-- Counts what has been done. -/
def report (s : Stats) : Descent Unit :=
  modify fun run => { run with stats := run.stats.merge s }

/-- Creates a context inside another one or inside none. -/
def openContext (parent : Option ContextId) : Descent ContextId :=
  modifyGet fun run => (run.contexts.size, { run with contexts := run.contexts.add parent })

/-- Declares the variables of a context in the function literal that the context belongs to. -/
def declareHoisted (c : ContextId) (literal : Tree) : Descent Tree := do
  let names := ((← get).contexts.properties c).map (·.name)
  report { hoisted := names }
  return literal.inject (names.map Tree.letDeclaration)

/-- Counts the names that come out of the resolution of one callback. -/
def reportOutcome (o : Outcome) : Descent Unit :=
  report { unresolvedReads := o.unresolved, renamedLocals := o.renamedLocals }

/-- Hoists the properties of a setup callback into the context. -/
def setup (scopes : Scopes) (c : ContextId) (callback : Tree) : Descent Tree := do
  let ((callback, outcome), contexts) := hoistSetup (← get).contexts c scopes callback
  modify fun run => { run with contexts }
  reportOutcome outcome
  return callback

/-- Resolves the properties of a test or of a callback that cleans up. -/
def usage (scopes : Scopes) (c : ContextId) (callback : Tree) : Descent Tree := do
  let (callback, outcome) := resolveUsage (← get).contexts c scopes callback
  reportOutcome outcome
  return callback

/-- Treats the last argument if it is a function literal. -/
def onLastLiteral (f : Tree → Descent Tree) : List Tree → Descent (List Tree)
  | [] => return []
  | [t] => do
    if t.isFunctionLiteral then return [← f t] else return [t]
  | t :: u :: ts => return t :: (← onLastLiteral f (u :: ts))

/-- Turns the last argument into an arrow function where that is possible. -/
def convert (args : List Tree) : Descent (List Tree) := do
  let (args, changed) := convertLast args
  if changed then report { callbacksConverted := 1 }
  return args

end Descent

namespace Tree

open Descent

mutual

/-- Converts the calls in a phrase that belong to the function literal with the given context.
Phrases with a scope of their own are only entered through the arguments of calls.  In a call
the function literals come first, then the callee and the other arguments. -/
def direct (scopes : Scopes) (c : ContextId) : Tree → Descent Tree
  | node .call s [callee, node .group gs args, types] => do
    let entered ←
      match callee.calleeRole with
      | .installsSetup => onLastLiteral (setup scopes c) args
      | .usesContext => onLastLiteral (usage scopes c) args
      | .createsSuite | .ordinary => enterLiterals scopes (some c) args
    let callee ← callee.direct scopes c
    let args ← directOthers scopes c args entered
    let types ← types.direct scopes c
    return node .call s [callee, node .group gs (← convert args), types]
  | node l s ts => do
    if l.isBoundary then return node l s ts
    return node l s (← directAll scopes c ts)

/-- Converts the calls in a list of phrases that belong to the function literal with the given
context. -/
def directAll (scopes : Scopes) (c : ContextId) : List Tree → Descent (List Tree)
  | [] => return []
  | t :: ts => return (← t.direct scopes c) :: (← directAll scopes c ts)

/-- Converts the arguments of a call that are not function literals; for those that are, takes
what the second list holds in their place. -/
def directOthers (scopes : Scopes) (c : ContextId) : List Tree → List Tree → Descent (List Tree)
  | t :: ts, u :: us =>
    if t.isFunctionLiteral then return u :: (← directOthers scopes c ts us)
    else return (← t.direct scopes c) :: (← directOthers scopes c ts us)
  | _, us => return us

/-- Converts the function literals among the arguments of a call, each in a context of its own
inside the given one. -/
def enterLiterals (scopes : Scopes) (parent : Option ContextId) : List Tree → Descent (List Tree)
  | [] => return []
  | t :: ts => return (← t.enterLiteral scopes parent) :: (← enterLiterals scopes parent ts)

/-- Converts a function literal in a context of its own, and declares there the variables
hoisted into it.  Any other tree stays as it is. -/
def enterLiteral (scopes : Scopes) (parent : Option ContextId) : Tree → Descent Tree
  | node .functionExpr s [self, node (.function isAsync isGenerator) fs
      [params, decorators, body, typeParams, result]] => do
    let inner := scopes.enterFunction
      (functionExpr s self isAsync isGenerator fs params decorators body typeParams result)
    let c ← openContext parent
    let params ← params.direct inner c
    let body ← body.direct inner c
    declareHoisted c
      (functionExpr s self isAsync isGenerator fs params decorators body typeParams result)
  | node (.arrow isAsync) s [params, body, typeParams, result] => do
    let inner := scopes.enterFunction (arrow s isAsync params body typeParams result)
    let c ← openContext parent
    let params ← params.direct inner c
    let body ← body.direct inner c
    declareHoisted c (arrow s isAsync params body typeParams result)
  | t => return t

end

mutual

/-- Converts the calls in a phrase that open a suite and stand outside of all functions. -/
def suites (scopes : Scopes) : Tree → Descent Tree
  | node .call s [callee, node .group gs args, types] => do
    if callee.calleeRole = .createsSuite then
      modify fun run => { run with contexts := {} }
      let entered ← enterLiterals scopes none args
      report { suites := 1 }
      let callee ← callee.suites scopes
      let args ← suitesOthers scopes args entered
      let types ← types.suites scopes
      return node .call s [callee, node .group gs (← convert args), types]
    else
      let callee ← callee.suites scopes
      let args ← suitesAll scopes args
      let types ← types.suites scopes
      return node .call s [callee, node .group gs args, types]
  | node l s ts => do
    if l.isBoundary then return node l s ts
    return node l s (← suitesAll scopes ts)

/-- Converts the calls in a list of phrases that open a suite. -/
def suitesAll (scopes : Scopes) : List Tree → Descent (List Tree)
  | [] => return []
  | t :: ts => return (← t.suites scopes) :: (← suitesAll scopes ts)

/-- Converts the arguments of a call that are not function literals; for those that are, takes
what the second list holds in their place. -/
def suitesOthers (scopes : Scopes) : List Tree → List Tree → Descent (List Tree)
  | t :: ts, u :: us =>
    if t.isFunctionLiteral then return u :: (← suitesOthers scopes ts us)
    else return (← t.suites scopes) :: (← suitesOthers scopes ts us)
  | _, us => return us

end

end Tree

namespace Module

/-- Converts the suites of a source file, and says what was done. -/
def hoistContexts (m : Module) : Module × Stats :=
  let (items, run) := (Tree.suitesAll (Scopes.ofModule m) m.items).run {}
  ({ m with items }, run.stats)

end Module

end ContextHoist
