/-
What changed in a file, in words.

* `Change`: one line of a report.
* `Stats.changes`: the lines for the numbers and names of a run.
-/
import ContextHoist.Stats

namespace ContextHoist

/-- The kinds of change. -/
inductive ChangeKind where
  | addition
  | modification
  | warning
  deriving DecidableEq, Repr, Inhabited

/-- The name of a kind of change. -/
def ChangeKind.name : ChangeKind → String
  | addition => "addition"
  | modification => "modification"
  | warning => "warning"

/-- One change to a file. -/
structure Change where
  kind : ChangeKind
  description : String
  deriving DecidableEq, Repr, Inhabited

/-- The changes that a run reports: the suites, the new variables and the converted callbacks,
each if there are any, then a warning for each renamed variable and each unresolved read. -/
def Stats.changes (s : Stats) : List Change :=
  (if s.suites > 0 then
    [⟨.modification, s!"Rewrote {s.suites} top-level suite(s)"⟩] else []) ++
  (if s.hoisted.isEmpty then [] else
    [⟨.addition, "Hoisted " ++ toString s.hoisted.length ++ " context variable(s): " ++
      ", ".intercalate s.hoisted⟩]) ++
  (if s.callbacksConverted > 0 then
    [⟨.modification, s!"Converted {s.callbacksConverted} callback(s) to arrow functions"⟩]
    else []) ++
  s.renamedLocals.map (fun x => ⟨.warning, s!"Renamed local `{x}` to avoid a hoisted name"⟩) ++
  s.unresolvedReads.map (fun p => ⟨.warning, s!"`this.{p}` is never set up, left as is"⟩)

end ContextHoist
