/-
The conversion follows the outline of what it converts.

* `Visited`: how contexts and counts change on the way through an outline.
* `Follows`: a computation goes through an outline, and its result is as described.
-/
import ContextHoist.Suite.Descent
import ContextHoist.Proofs.Account

namespace ContextHoist

/-! ### Running computations -/

namespace Descent

variable {α β : Type}

@[simp] lemma run_pure (a : α) (run : Run) : (pure a : Descent α).run run = (a, run) := rfl

@[simp] lemma run_bind (x : Descent α) (f : α → Descent β) (run : Run) :
    (x >>= f).run run = (f (x.run run).1).run (x.run run).2 := rfl

@[simp] lemma run_report (s : Stats) (run : Run) :
    (report s).run run = ((), { run with stats := run.stats.merge s }) := rfl

@[simp] lemma run_openContext (parent : Option ContextId) (run : Run) :
    (openContext parent).run run =
      (run.contexts.size, { run with contexts := run.contexts.add parent }) := rfl

lemma run_declareHoisted (c : ContextId) (literal : Tree) (run : Run) :
    (declareHoisted c literal).run run =
      let names := (run.contexts.properties c).map (·.name)
      (literal.inject (names.map Tree.letDeclaration),
        ⟨run.contexts, run.stats.merge { hoisted := names }⟩) := rfl

lemma run_setup (scopes : Scopes) (c : ContextId) (callback : Tree) (run : Run) :
    (setup scopes c callback).run run =
      let ((u, outcome), contexts) := hoistSetup run.contexts c scopes callback
      (u, ⟨contexts, run.stats.merge
        { unresolvedReads := outcome.unresolved, renamedLocals := outcome.renamedLocals }⟩) := rfl

lemma run_usage (scopes : Scopes) (c : ContextId) (callback : Tree) (run : Run) :
    (usage scopes c callback).run run =
      let (u, outcome) := resolveUsage run.contexts c scopes callback
      (u, ⟨run.contexts, run.stats.merge
        { unresolvedReads := outcome.unresolved, renamedLocals := outcome.renamedLocals }⟩) := rfl

lemma run_convert (args : List Tree) (run : Run) :
    (convert args).run run =
      ((convertLast args).1, ⟨run.contexts, run.stats.merge
        { callbacksConverted := if (convertLast args).2 then 1 else 0 }⟩) := by
  rcases h : convertLast args with ⟨us, changed⟩
  cases changed with
  | false =>
    simp only [convert, h]
    simp
    rfl
  | true =>
    simp only [convert, h]
    rfl

end Descent

/-! ### The way through an outline -/

/-- What changes on the way through an outline: the innermost context gains properties, each
function literal adds a context, and everything is counted. -/
structure Visited (path : List ContextId) (new : Frame) (a : Trace) (run run' : Run) : Prop where
  records : run'.contexts.records =
    ContextTree.recordAt new run.contexts.records path ++ a.opened.map (·.hoisted)
  parents : run.contexts.parents <+: run'.contexts.parents
  hoisted : run'.stats.hoisted = run.stats.hoisted ++ a.finished.flatMap (·.names)
  unresolved : run'.stats.unresolvedReads =
    run.stats.unresolvedReads ++ a.usages.flatMap (·.unresolved)
  renamed : run'.stats.renamedLocals =
    run.stats.renamedLocals ++ a.handled.flatMap (·.renamedLocals)
  suites : run'.stats.suites = run.stats.suites

namespace Visited

variable {path : List ContextId} {new new' : Frame} {a b : Trace} {run run' run'' : Run}

/-- The frames around the phrase after a visit. -/
lemma frames (h : Visited path new a run run') (hp : ContextTree.IsPath run.contexts.parents path) :
    run'.contexts.frames path = Frames.extend new (run.contexts.frames path) :=
  ContextTree.frames_eq_extend hp h.records

/-- One way after another. -/
lemma trans (h : Visited path new a run run') (h' : Visited path new' b run' run'')
    (hp : ContextTree.IsPath run.contexts.parents path) :
    Visited path (new ++ new') (a ++ b) run run'' where
  records := by
    rw [h'.records, h.records]
    cases path with
    | nil => simp [ContextTree.recordAt]
    | cons c cs =>
      have hc : c < run.contexts.records.length := by simpa using hp.lt_length c (by simp)
      rw [← ContextTree.recordAt_recordAt]
      simp only [ContextTree.recordAt]
      rw [ContextTree.modify_append (by simpa using hc)]
      simp
  parents := h.parents.trans h'.parents
  hoisted := by simp [h'.hoisted, h.hoisted]
  unresolved := by simp [h'.unresolved, h.unresolved]
  renamed := by simp [h'.renamed, h.renamed]
  suites := h'.suites.trans h.suites

/-- The way through a function literal: what it holds is visited in a new context, and then the
variables are declared. -/
lemma literal {parent : Option ContextId} (t : Tree)
    (h : Visited (run.contexts.size :: path) new a ⟨run.contexts.add parent, run.stats⟩ run') :
    Visited path [] (.literal ⟨t, new⟩ a .done) run
      ⟨run'.contexts, run'.stats.merge { hoisted := new.map (·.name) }⟩ where
  records := by
    have hnew : (run.contexts.records ++ [[]]).modify run.contexts.size (· ++ new) =
        run.contexts.records ++ [new] := by
      simp [List.modify_eq_take_drop, ← ContextTree.length_records]
    rw [h.records, ContextTree.records_add, ContextTree.recordAt, hnew, ContextTree.recordAt_nil]
    simp [Outline.opened]
  parents := by
    refine List.IsPrefix.trans ?_ h.parents
    simp
  hoisted := by
    simp [Stats.merge, h.hoisted, Outline.finished, Entered.names]
  unresolved := by
    simp [Stats.merge, h.unresolved, Outline.usages]
  renamed := by
    simp [Stats.merge, h.renamed, Outline.handled]
  suites := by
    simp [Stats.merge, h.suites]

end Visited

/-- The computation goes through the outline from any state in which the contexts lie on the way
outwards.  The relation is about its result and the trace of the outline. -/
def Follows {α : Type} (path : List ContextId) (scopes : Scopes) (o : Outline Tree Tree)
    (x : Descent α) (R : α → Trace → Prop) : Prop :=
  ∀ run, ContextTree.IsPath run.contexts.parents path →
    R (x.run run).1 (o.annotate scopes (run.contexts.frames path)) ∧
      Visited path (o.gained scopes (run.contexts.frames path))
        (o.annotate scopes (run.contexts.frames path)) run (x.run run).2

namespace Follows

variable {α β : Type} {path : List ContextId} {scopes : Scopes} {o o' : Outline Tree Tree}

/-- A run that changes neither the contexts nor the names that are counted goes through the empty
outline. -/
lemma of_unchanged {x : Descent α} {R : α → Trace → Prop}
    (h : ∀ run, R (x.run run).1 .done ∧ (x.run run).2.contexts = run.contexts ∧
      (x.run run).2.stats.hoisted = run.stats.hoisted ∧
      (x.run run).2.stats.unresolvedReads = run.stats.unresolvedReads ∧
      (x.run run).2.stats.renamedLocals = run.stats.renamedLocals ∧
      (x.run run).2.stats.suites = run.stats.suites) : Follows path scopes .done x R := by
  intro run _
  obtain ⟨hR, hcontexts, hhoisted, hunresolved, hrenamed, hsuites⟩ := h run
  refine ⟨hR, ?_, ?_, ?_, ?_, ?_, hsuites⟩
  · simp [hcontexts, Outline.gained, Outline.annotate, Outline.opened]
  · simp only [hcontexts, List.prefix_rfl]
  · simp [hhoisted, Outline.annotate, Outline.finished]
  · simp [hunresolved, Outline.annotate, Outline.usages]
  · simp [hrenamed, Outline.annotate, Outline.handled]

lemma pure {a : α} {R : α → Trace → Prop} (h : R a .done) :
    Follows path scopes .done (pure a : Descent α) R :=
  of_unchanged fun _ => ⟨h, rfl, rfl, rfl, rfl, rfl⟩

/-- One computation after another goes through one outline after the other. -/
lemma bind {x : Descent α} {f : α → Descent β} {R : α → Trace → Prop} {S : β → Trace → Prop}
    (hx : Follows path scopes o x R)
    (hf : ∀ u a, R u a → Follows path scopes o' (f u) fun v b => S v (a ++ b)) :
    Follows path scopes (o ++ o') (x >>= f) S := by
  intro run hp
  obtain ⟨hR, hv⟩ := hx run hp
  have hp' := hp.mono hv.parents
  obtain ⟨hS, hv'⟩ := hf _ _ hR (x.run run).2 hp'
  rw [hv.frames hp] at hS hv'
  rw [Outline.annotate_append, Outline.gained_append]
  exact ⟨hS, hv.trans hv' hp⟩

/-- A weaker description of the result. -/
lemma mono {x : Descent α} {R S : α → Trace → Prop} (hx : Follows path scopes o x R)
    (h : ∀ u a, R u a → S u a) : Follows path scopes o x S := by
  intro run hp
  obtain ⟨hR, hv⟩ := hx run hp
  exact ⟨h _ _ hR, hv⟩

/-- A last step that goes through nothing. -/
lemma bind_pure {x : Descent α} {f : α → β} {R : α → Trace → Prop} {S : β → Trace → Prop}
    (hx : Follows path scopes o x R) (h : ∀ u a, R u a → S (f u) a) :
    Follows path scopes o (x >>= fun u => Pure.pure (f u)) S := by
  rw [← Outline.append_done o]
  exact hx.bind fun u a hR => pure (by simpa using h u a hR)

/-- The conversion of the last argument goes through nothing. -/
lemma convert (args : List Tree) :
    Follows path scopes .done (Descent.convert args) fun us a =>
      us = (convertLast args).1 ∧ a = .done := by
  refine of_unchanged fun run => ?_
  rw [Descent.run_convert]
  simp [Stats.merge]

end Follows

/-! ### Callbacks -/

/-- The resolution of a setup callback, said with frames: what no frame holds is recorded in the
innermost one, and then every property is looked up. -/
lemma setupResolution_eq (inner : Scopes) {c : ContextId} {cs : List ContextId} {ps : List String}
    (hps : ps.Nodup) {t : ContextTree} (hp : ContextTree.IsPath t.parents (c :: cs)) :
    let fs := t.frames (c :: cs)
    let new := freshProperties inner fs ps
    (setupResolution inner c ps t).1 = frameResolution (Frames.extend new fs) ps ∧
      (setupResolution inner c ps t).2.records = ContextTree.recordAt new t.records (c :: cs) ∧
      (setupResolution inner c ps t).2.parents = t.parents := by
  induction ps generalizing t with
  | nil => simp [setupResolution, freshProperties, frameResolution]
  | cons p ps ih =>
    obtain ⟨hpps, hps⟩ := List.nodup_cons.1 hps
    have hlookup := ContextTree.find?_eq hp p
    cases hfound : Frames.find? (t.frames (c :: cs)) p with
    | some found =>
      have hnew : freshProperties inner (t.frames (c :: cs)) (p :: ps) =
          freshProperties inner (t.frames (c :: cs)) ps := by
        simp [freshProperties, hfound]
      have hkeep : Frames.find? (Frames.extend (freshProperties inner (t.frames (c :: cs)) ps)
          (t.frames (c :: cs))) p = some found := by
        rw [Frames.find?_extend_of_ne, hfound]
        rintro q hq rfl
        exact hpps (mem_freshProperties.1 hq).1
      obtain ⟨hr, hrecords, hparents⟩ := ih hps hp
      simp only [setupResolution, hlookup, hfound, hnew]
      refine ⟨?_, hrecords, hparents⟩
      rw [hr]
      simp [frameResolution, hkeep]
    | none =>
      let q : Property := ⟨p, hoistedName inner p⟩
      have hown : (t.properties c).find? (·.key == q.key) = none := by
        have h := hfound
        rw [ContextTree.frames, List.map_cons, Frames.find?_cons, Option.or_eq_none_iff] at h
        exact h.1
      have hadd : (t.addProperty c q).records = ContextTree.recordAt [q] t.records (c :: cs) :=
        ContextTree.records_addProperty hown
      have hframes : (t.addProperty c q).frames (c :: cs) =
          Frames.extend [q] (t.frames (c :: cs)) :=
        ContextTree.frames_eq_extend hp (hadd.trans (List.append_nil _).symm)
      -- the record of `p` is nothing new for the other properties
      have hother : ∀ p' ∈ ps, Frames.find? (Frames.extend [q] (t.frames (c :: cs))) p' =
          Frames.find? (t.frames (c :: cs)) p' := by
        intro p' hp'
        apply Frames.find?_extend_of_ne
        rintro q' hq' rfl
        rw [List.mem_singleton.1 hq'] at hp'
        exact hpps hp'
      have hnew : freshProperties inner (t.frames (c :: cs)) (p :: ps) =
          [q] ++ freshProperties inner (Frames.extend [q] (t.frames (c :: cs))) ps := by
        have hfilter := List.filter_congr fun p' hp' => congrArg Option.isNone (hother p' hp')
        simp [freshProperties, hfound, hfilter, q]
      obtain ⟨hr, hrecords, hparents⟩ := ih hps (t := t.addProperty c q) (by
        rwa [ContextTree.parents_addProperty])
      rw [hframes, Frames.extend_extend] at hr
      rw [hframes, hadd, ContextTree.recordAt_recordAt] at hrecords
      simp only [setupResolution, hlookup, hfound, hnew]
      refine ⟨?_, hrecords, hparents.trans (ContextTree.parents_addProperty t c q)⟩
      have hhead : Frames.find? (Frames.extend ([q] ++ freshProperties inner
          (Frames.extend [q] (t.frames (c :: cs))) ps) (t.frames (c :: cs))) p = some q :=
        Frames.find?_extend_head _ hfound
      rw [hr]
      simp only [frameResolution, List.filterMap_cons, hhead, Option.map_some]
      rfl

/-- The relation between a setup callback that is met on the way, its result and its trace. -/
def SetupResult (callback u : Tree) (a : Trace) : Prop :=
  ∃ k : Handled, k.tree = callback ∧ u = k.result ∧ a = .setup k .done

/-- The relation between the callback of a test that is met on the way, its result and its
trace. -/
def UsageResult (callback u : Tree) (a : Trace) : Prop :=
  ∃ k : Handled, k.tree = callback ∧ u = k.result ∧ a = .usage k .done

lemma setup_follows (scopes : Scopes) (c : ContextId) (cs : List ContextId) (callback : Tree) :
    Follows (c :: cs) scopes (.setup callback .done) (Descent.setup scopes c callback)
      (SetupResult callback) := by
  intro run hp
  obtain ⟨hr, hrecords, hparents⟩ :=
    setupResolution_eq (scopes.enterFunction callback) (nodup_contextAccesses callback) hp
  rw [Descent.run_setup]
  simp only [hoistSetup, hr]
  refine ⟨⟨_, rfl, rfl, rfl⟩, ?_, ?_, ?_, ?_, ?_, ?_⟩
  · simp [hrecords, Outline.gained, Outline.annotate, Outline.opened]
  · simp [hparents]
  · simp [Stats.merge, Outline.annotate, Outline.finished]
  · simp [Stats.merge, Outline.annotate, Outline.usages, resolveCallback]
  · simp [Stats.merge, Outline.annotate, Outline.handled, Handled.renamedLocals]
  · simp [Stats.merge]

lemma usage_follows (scopes : Scopes) (c : ContextId) (cs : List ContextId) (callback : Tree) :
    Follows (c :: cs) scopes (.usage callback .done) (Descent.usage scopes c callback)
      (UsageResult callback) := by
  intro run hp
  have hr : usageResolution run.contexts c callback.contextAccesses =
      frameResolution (run.contexts.frames (c :: cs)) callback.contextAccesses := by
    simp only [usageResolution, frameResolution, ContextTree.find?_eq hp]
  have hu : unresolved run.contexts c callback.contextAccesses =
      callback.contextAccesses.filter fun p => ((frameResolution (run.contexts.frames (c :: cs))
        callback.contextAccesses).lookup p).isNone := by
    apply List.filter_congr
    intro p hp'
    rw [ContextTree.find?_eq hp, lookup_frameResolution hp', Option.isNone_map]
  rw [Descent.run_usage]
  simp only [resolveUsage, hr, hu]
  refine ⟨⟨_, rfl, rfl, rfl⟩, ?_, ?_, ?_, ?_, ?_, ?_⟩
  · simp [Outline.gained, Outline.annotate, Outline.opened]
  · exact List.prefix_rfl
  · simp [Stats.merge, Outline.annotate, Outline.finished]
  · simp [Stats.merge, Outline.annotate, Outline.usages, Handled.unresolved]
  · simp [Stats.merge, Outline.annotate, Outline.handled, Handled.renamedLocals]
  · simp [Stats.merge]

/-! ### Function literals -/

section Literals

variable (Put : List String → Tree → Tree → Prop)

/-- What becomes of the arguments of a call before its callee is reached: the function literals
are treated, and the other arguments are left for later. -/
inductive Enters : Role → List Tree → List Tree → Trace → Prop
  | nil (r : Role) : Enters r [] [] .done
  | other {r : Role} {t : Tree} {ts us : List Tree} {a : Trace}
      (ht : t.isFunctionLiteral = false) (h : Enters r ts us a) : Enters r (t :: ts) (t :: us) a
  | entered {r : Role} {t u : Tree} {ts us : List Tree} {a b : Trace} {lost : List String}
      (hr : r.Descends) (ha : LiteralBecomes Put t u a lost) (h : Enters r ts us b) :
      Enters r (t :: ts) (u :: us) (a ++ b)
  | passed {r : Role} {t : Tree} {ts us : List Tree} {a : Trace} (hr : ¬r.Descends)
      (ht : t.isFunctionLiteral = true) (hts : ts ≠ []) (h : Enters r ts us a) :
      Enters r (t :: ts) (t :: us) a
  | setup (k : Handled) (ht : k.tree.isFunctionLiteral = true) :
      Enters .installsSetup [k.tree] [k.result] (.setup k .done)
  | usage (k : Handled) (ht : k.tree.isFunctionLiteral = true) :
      Enters .usesContext [k.tree] [k.result] (.usage k .done)

/-- The conversion of a phrase goes through its outline, wherever the phrase stands. -/
def DirectFollows (t : Tree) : Prop :=
  ∀ scopes c cs, Follows (c :: cs) scopes t.outline (t.direct scopes c)
    fun u a => ∃ lost, Becomes Put t u a lost

/-- The conversion of a function literal goes through its outline. -/
def LiteralFollows (path : List ContextId) (scopes : Scopes) (t : Tree) : Prop :=
  Follows path scopes t.outlineLiteral (t.enterLiteral scopes path.head?)
    fun u a => ∃ lost, LiteralBecomes Put t u a lost

/-- Variables that are declared in a function literal are declared as the relation says, whatever
has become of its parameters and of the inside of its body. -/
def PutsInto (t : Tree) : Prop :=
  ∀ (k : Shell) (params body params' body' : Tree) (names : List String),
    t = k.literal params body → body'.label = body.label →
      Put names (k.literal params' body')
        ((k.literal params' body').inject (names.map Tree.letDeclaration))

/-- Variables are declared in a function literal by the function that does it. -/
def Injects (names : List String) (t u : Tree) : Prop :=
  u = t.inject (names.map Tree.letDeclaration)

lemma putsInto_injects (t : Tree) : PutsInto Injects t := by
  intro k params body params' body' names _ _
  rfl

variable {Put} {path : List ContextId} {scopes : Scopes}

lemma onLastLiteral_follows {r : Role} (hr : ¬r.Descends) {f : Tree → Descent Tree}
    {g : Tree → Outline Tree Tree} (hf : ∀ t, t.isFunctionLiteral = true →
      Follows path scopes (g t) (f t) fun u a => Enters Put r [t] [u] a) (args : List Tree) :
    Follows path scopes ((trailingLiteral? args).elim .done g) (Descent.onLastLiteral f args)
      (Enters Put r args) := by
  induction args with
  | nil => exact Follows.pure (Enters.nil r)
  | cons t ts ih =>
    cases ts with
    | nil =>
      by_cases ht : t.isFunctionLiteral = true
      · simp only [trailingLiteral?, List.getLast?_singleton, Option.filter_some, ht, if_true,
          Option.elim_some, Descent.onLastLiteral]
        exact (hf t ht).bind_pure fun u a h => h
      · simp only [trailingLiteral?, List.getLast?_singleton, Option.filter_some, ht,
          Descent.onLastLiteral]
        exact Follows.pure (Enters.other (by simpa using ht) (Enters.nil r))
    | cons u ts =>
      have htrailing : trailingLiteral? (t :: u :: ts) = trailingLiteral? (u :: ts) := by
        simp [trailingLiteral?, List.getLast?_cons_cons]
      rw [htrailing]
      refine ih.bind_pure fun us a h => ?_
      by_cases ht : t.isFunctionLiteral = true
      · exact Enters.passed hr ht (by simp) h
      · exact Enters.other (by simpa using ht) h

/-- The conversion of the parameters and the body of a function literal. -/
def convertInterior (scopes : Scopes) (c : ContextId) (params body : Tree) :
    Descent (Tree × Tree) := do
  let params ← params.direct scopes c
  let body ← body.direct scopes c
  return (params, body)

lemma run_enterLiteral (k : Shell) (params body : Tree) (parent : Option ContextId) (run : Run) :
    ((k.literal params body).enterLiteral scopes parent).run run =
      let c := run.contexts.size
      let r := (convertInterior (scopes.enterFunction (k.literal params body)) c params body).run
        ⟨run.contexts.add parent, run.stats⟩
      (Descent.declareHoisted c (k.literal r.1.1 r.1.2)).run r.2 := by
  cases k <;> rfl

lemma convertInterior_follows {params body : Tree} (hparams : DirectFollows Put params)
    (hbody : DirectFollows Put body) (scopes : Scopes) (c : ContextId) (cs : List ContextId) :
    Follows (c :: cs) scopes (params.outline ++ body.outline)
      (convertInterior scopes c params body)
      fun u a => ∃ b b', a = b ++ b' ∧ (∃ lost, Becomes Put params u.1 b lost) ∧
        ∃ lost, Becomes Put body u.2 b' lost := by
  refine (hparams scopes c cs).bind fun params' b hb => ?_
  exact (hbody scopes c cs).bind_pure fun body' b' hb' => ⟨b, b', rfl, hb, hb'⟩

/-- A new context has an empty frame, and the frames around it are those around the function
literal. -/
lemma frames_add {t : ContextTree} {path : List ContextId}
    (hp : ContextTree.IsPath t.parents path) (parent : Option ContextId) :
    (t.add parent).frames (t.size :: path) = [] :: t.frames path := by
  simp only [ContextTree.frames, List.map_cons, List.cons.injEq]
  refine ⟨by simp [ContextTree.properties_eq], List.map_congr_left fun d hd => ?_⟩
  have hlt : d < t.size := by simpa using hp.lt_length d hd
  rw [ContextTree.properties_eq, ContextTree.properties_eq, ContextTree.records_add,
    List.getElem?_append_left (by simpa using hlt)]

/-- A function literal is converted in a context of its own, which nothing before or after
touches. -/
lemma enterLiteral_follows {k : Shell} {params body : Tree} (hparams : DirectFollows Put params)
    (hbody : DirectFollows Put body) (hput : PutsInto Put (k.literal params body)) :
    LiteralFollows Put path scopes (k.literal params body) := by
  intro run hp
  have hpath : ContextTree.IsPath (run.contexts.add path.head?).parents
      (run.contexts.size :: path) := by
    simpa using hp.push
  obtain ⟨⟨b, b', hab, ⟨lost, hb⟩, ⟨lost', hb'⟩⟩, hv⟩ := convertInterior_follows hparams hbody
    (scopes.enterFunction (k.literal params body)) run.contexts.size path
    ⟨run.contexts.add path.head?, run.stats⟩ hpath
  have hown := hv.frames hpath
  rw [frames_add hp] at hab hv hown
  rw [run_enterLiteral, Descent.run_declareHoisted, Tree.outlineLiteral_literal]
  generalize (convertInterior (scopes.enterFunction (k.literal params body)) run.contexts.size
    params body).run ⟨run.contexts.add path.head?, run.stats⟩ = r at hb hb' hv hown ⊢
  obtain ⟨⟨params', body'⟩, run'⟩ := r
  -- the frame of the new context holds what the parameters and the body have recorded
  have hown := (List.cons.inj hown).1
  rw [List.nil_append] at hown
  simp only [hown, Outline.annotate, Outline.gained]
  refine ⟨⟨lost ++ lost', ?_⟩, hv.literal _⟩
  rw [hab]
  exact LiteralBecomes.entered _ hb hb' (hput k params body params' body' _ rfl hb'.label_eq)

lemma literalFollows {t : Tree} (hl : t.isFunctionLiteral = true)
    (hdirect : ∀ u, t.Has u → (∀ v ∈ u.outline.opened, PutsInto Put v) → DirectFollows Put u)
    (h : ∀ u ∈ t.outlineLiteral.opened, PutsInto Put u) : LiteralFollows Put path scopes t := by
  obtain ⟨k, params, body, rfl⟩ := Tree.exists_shell hl
  rw [Tree.outlineLiteral_literal] at h
  simp only [Outline.opened, Outline.opened_append, List.append_nil, List.mem_cons,
    List.mem_append] at h
  have hparams := hdirect _ (k.has_params params body) fun u hu => h u (.inr (.inl hu))
  have hbody := hdirect _ (k.has_body params body) fun u hu => h u (.inr (.inr hu))
  exact enterLiteral_follows hparams hbody (h _ (.inl rfl))

lemma enterLiteral_of_not {t : Tree} (h : t.isFunctionLiteral = false) (scopes : Scopes)
    (parent : Option ContextId) : t.enterLiteral scopes parent = pure t := by
  unfold Tree.enterLiteral
  split
  · exact absurd h (by simp [Tree.isFunctionLiteral])
  · exact absurd h (by simp [Tree.isFunctionLiteral])
  · rfl

/-- The function literals among some arguments are converted one after the other. -/
lemma enterLiterals_follows {r : Role} (hr : r.Descends) {args : List Tree}
    (h : ∀ t ∈ args, t.isFunctionLiteral = true → LiteralFollows Put path scopes t) :
    Follows path scopes (Tree.outlineLiterals args) (Tree.enterLiterals scopes path.head? args)
      (Enters Put r args) := by
  induction args with
  | nil => exact Follows.pure (Enters.nil r)
  | cons t ts ih =>
    have hts := ih fun u hu => h u (.tail _ hu)
    by_cases ht : t.isFunctionLiteral = true
    · refine (h t (.head _) ht).bind fun u a haccount => ?_
      obtain ⟨lost, ha⟩ := haccount
      exact hts.bind_pure fun us b hb => Enters.entered hr ha hb
    · have ht : t.isFunctionLiteral = false := by simpa using ht
      rw [Tree.enterLiterals, enterLiteral_of_not ht, Tree.outlineLiterals,
        Tree.outlineLiteral_of_not ht, Outline.done_append]
      exact hts.bind_pure fun us b hb => Enters.other ht hb

/-- After the function literals come the other arguments. -/
lemma directOthers_follows {r : Role} {c : ContextId} {cs : List ContextId} {args us : List Tree}
    {a : Trace} (hargs : ∀ t ∈ args, t.isFunctionLiteral = false → DirectFollows Put t)
    (h : Enters Put r args us a) :
    Follows (c :: cs) scopes (Tree.outlineOthers args) (Tree.directOthers scopes c args us)
      fun vs b => ∃ lost, ArgumentsBecome Put r args vs a b lost := by
  induction h with
  | nil r => exact Follows.pure ⟨_, ArgumentsBecome.nil r⟩
  | other ht _ ih =>
    simp only [Tree.outlineOthers, Tree.directOthers, ht, Bool.false_eq_true, if_false]
    refine (hargs _ (.head _) ht scopes c cs).bind fun u b haccount => ?_
    obtain ⟨lost, hb⟩ := haccount
    refine (ih fun t ht => hargs t (.tail _ ht)).bind_pure fun vs b' haccount => ?_
    obtain ⟨lost', hb'⟩ := haccount
    exact ⟨_, ArgumentsBecome.other ht hb hb'⟩
  | entered hr ha _ ih =>
    have ht := ha.isFunctionLiteral
    simp only [Tree.outlineOthers, Tree.directOthers, ht, if_true]
    refine (ih fun t ht => hargs t (.tail _ ht)).bind_pure fun vs b' haccount => ?_
    obtain ⟨lost', hb'⟩ := haccount
    exact ⟨_, ArgumentsBecome.entered hr ha hb'⟩
  | passed hr ht hts _ ih =>
    simp only [Tree.outlineOthers, Tree.directOthers, ht, if_true]
    refine (ih fun t ht => hargs t (.tail _ ht)).bind_pure fun vs b' haccount => ?_
    obtain ⟨lost', hb'⟩ := haccount
    exact ⟨_, ArgumentsBecome.passed hr ht hts hb'⟩
  | setup k ht =>
    simp only [Tree.outlineOthers, Tree.directOthers, ht, if_true]
    exact Follows.pure ⟨_, ArgumentsBecome.setup k ht⟩
  | usage k ht =>
    simp only [Tree.outlineOthers, Tree.directOthers, ht, if_true]
    exact Follows.pure ⟨_, ArgumentsBecome.usage k ht⟩

/-! ### Phrases -/

lemma directAll_follows {c : ContextId} {cs : List ContextId} {ts : List Tree}
    (h : ∀ t ∈ ts, DirectFollows Put t) :
    Follows (c :: cs) scopes (Tree.outlineAll ts) (Tree.directAll scopes c ts)
      fun us a => ∃ lost, AllBecome Put ts us a lost := by
  induction ts with
  | nil => exact Follows.pure ⟨_, AllBecome.nil⟩
  | cons t ts ih =>
    refine (h t (.head _) scopes c cs).bind fun u a haccount => ?_
    obtain ⟨lost, ha⟩ := haccount
    refine (ih fun u hu => h u (.tail _ hu)).bind_pure fun us b haccount => ?_
    obtain ⟨lost', hb⟩ := haccount
    exact ⟨_, AllBecome.cons ha hb⟩

/-- What the conversion does with the function literals among the arguments of a call with the
given role. -/
def enterArguments (scopes : Scopes) (c : ContextId) (r : Role) (args : List Tree) :
    Descent (List Tree) :=
  match r with
  | .installsSetup => Descent.onLastLiteral (Descent.setup scopes c) args
  | .usesContext => Descent.onLastLiteral (Descent.usage scopes c) args
  | .createsSuite | .ordinary => Tree.enterLiterals scopes (some c) args

lemma enterArguments_follows {c : ContextId} {cs : List ContextId} (r : Role) {args : List Tree}
    (h : ∀ t ∈ args, t.isFunctionLiteral = true → r.Descends →
      LiteralFollows Put (c :: cs) scopes t) :
    Follows (c :: cs) scopes (Tree.outlineEntered r args) (enterArguments scopes c r args)
      (Enters Put r args) := by
  cases r with
  | createsSuite => exact enterLiterals_follows (.inl rfl) fun t ht hl => h t ht hl (.inl rfl)
  | ordinary => exact enterLiterals_follows (.inr rfl) fun t ht hl => h t ht hl (.inr rfl)
  | installsSetup =>
    refine onLastLiteral_follows (by simp [Role.Descends]) (fun t ht => ?_) args
    refine (setup_follows scopes c cs t).mono ?_
    rintro u a ⟨k, rfl, rfl, rfl⟩
    exact Enters.setup k ht
  | usesContext =>
    refine onLastLiteral_follows (by simp [Role.Descends]) (fun t ht => ?_) args
    refine (usage_follows scopes c cs t).mono ?_
    rintro u a ⟨k, rfl, rfl, rfl⟩
    exact Enters.usage k ht

lemma direct_call (scopes : Scopes) (c : ContextId) (s : Span) (callee : Tree) (gs : Span)
    (args : List Tree) (types : Tree) :
    (Tree.call s callee gs args types).direct scopes c = (do
      let entered ← enterArguments scopes c callee.calleeRole args
      let callee ← callee.direct scopes c
      let args ← Tree.directOthers scopes c args entered
      let types ← types.direct scopes c
      let args ← Descent.convert args
      return Tree.call s callee gs args types) := by
  rw [Tree.direct]
  cases callee.calleeRole <;> rfl

lemma direct_node {l : Label} {s : Span} {ts : List Tree}
    (h : ∀ callee gs args types, l = .call → ts = [callee, .node .group gs args, types] → False)
    (scopes : Scopes) (c : ContextId) :
    (Tree.node l s ts).direct scopes c =
      if l.isBoundary then pure (.node l s ts)
      else Tree.directAll scopes c ts >>= fun us => pure (.node l s us) := by
  rw [Tree.direct]
  exact h

/-- Every phrase is converted along its outline, if variables can be declared in the function
literals that are entered on the way. -/
theorem direct_follows (t : Tree) (h : ∀ u ∈ t.outline.opened, PutsInto Put u) :
    DirectFollows Put t := by
  induction t using Tree.inductBelow with
  | node l s ts ih =>
    intro scopes c cs
    rcases Tree.call_or_not l s ts with ⟨callee, gs, args, types, heq⟩ | hcall
    · obtain ⟨rfl, -, rfl⟩ := Tree.node.inj heq
      rw [Tree.outline_call] at h ⊢
      simp only [Outline.opened_append, List.mem_append] at h
      have hargs : ∀ t ∈ args, ∀ u, t.Has u → (∀ v ∈ u.outline.opened, PutsInto Put v) →
          DirectFollows Put u := fun t ht u hu =>
        ih _ (.tail _ (.head _)) u (.part ht hu)
      have hcallee : DirectFollows Put callee :=
        ih _ (.head _) _ (.self _) fun u hu => h u (.inr (.inl hu))
      have htypes : DirectFollows Put types :=
        ih _ (.tail _ (.tail _ (.head _))) _ (.self _) fun u hu => h u (.inr (.inr (.inr hu)))
      have hothers : ∀ t ∈ args, t.isFunctionLiteral = false → DirectFollows Put t := by
        intro t ht hl
        refine hargs t ht t (.self t) fun u hu => h u (.inr (.inr (.inl ?_)))
        exact Tree.mem_opened_outlineOthers ht hl hu
      have hliterals : ∀ t ∈ args, t.isFunctionLiteral = true → callee.calleeRole.Descends →
          LiteralFollows Put (c :: cs) scopes t := by
        intro t ht hl hr
        refine literalFollows hl (hargs t ht) fun u hu => h u (.inl ?_)
        rw [Tree.outlineEntered_of_descends hr]
        exact Tree.mem_opened_outlineLiterals ht hu
      rw [direct_call]
      -- the parts of the call in the order of the conversion
      refine (enterArguments_follows _ hliterals).bind fun entered a ha => ?_
      refine (hcallee scopes c cs).bind fun callee' b haccount => ?_
      obtain ⟨lost, hb⟩ := haccount
      refine (directOthers_follows hothers ha).bind fun args' d haccount => ?_
      obtain ⟨lost', hd⟩ := haccount
      rw [← Outline.append_done types.outline]
      refine (htypes scopes c cs).bind fun types' e haccount => ?_
      obtain ⟨lost'', he⟩ := haccount
      refine (Follows.convert args').bind_pure ?_
      rintro _ _ ⟨rfl, rfl⟩
      rw [Outline.append_done]
      exact ⟨_, Becomes.call hd hb he⟩
    · rw [Tree.outline_node hcall, direct_node hcall]
      rw [Tree.outline_node hcall] at h
      by_cases hl : l.isBoundary = true
      · simp only [hl, if_true]
        exact Follows.pure ⟨_, Becomes.boundary hl s ts⟩
      · simp only [hl] at h ⊢
        have hall : ∀ t ∈ ts, DirectFollows Put t := fun t ht =>
          ih t ht t (.self t) fun u hu => h u (Tree.mem_opened_outlineAll ht hu)
        refine (directAll_follows hall).bind_pure fun us a haccount => ?_
        obtain ⟨lost, ha⟩ := haccount
        exact ⟨_, Becomes.parts (by simpa using hl) hcall ha⟩

end Literals

end ContextHoist
