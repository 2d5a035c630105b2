/-
No access is replaced by a variable that is not declared, and no declaration is lost.

The variables that are written in place of accesses come from the frames around a callback, and a
frame only ever holds what is declared in its function literal in the end.  The declarations go
behind the variable declarations that open the body; only a function without a body has no place
for them, and there is none in a text that can be read.

* `Declares`: how declarations are put into a function literal.
* `Outline.written_declared`: what is written is declared in a function literal around.
* `Module.HoistsCompletely`, `Module.hoistsCompletely`: the theorem about source files.
-/
import ContextHoist.Parse.Grammar
import ContextHoist.Proofs.Callbacks
import ContextHoist.Proofs.Placement
import ContextHoist.Proofs.Suites

namespace ContextHoist

/-! ### Declarations -/

/-- `Declares names t u`: the function literal `u` is `t` with one declaration for each of the
names, in order, behind the variable declarations that open the body.  Where the body of an arrow
function is an expression, a block with the declarations returns it. -/
inductive Declares : List String → Tree → Tree → Prop
  | block (names : List String) (k : Shell) (params : Tree) (s : Span) (body : List Tree) :
      Declares names (k.literal params (.node .block s body))
        (k.literal params (.node .block s (body.takeWhile Tree.isVariableDeclaration ++
          names.map Tree.letDeclaration ++ body.dropWhile Tree.isVariableDeclaration)))
  | expression {names : List String} (hn : names ≠ []) {body : Tree} (hb : body.label ≠ .block)
      (s : Span) (isAsync : Bool) (params typeParams result : Tree) :
      Declares names (.arrow s isAsync params body typeParams result)
        (.arrow s isAsync params (.node .block .nowhere
          (names.map Tree.letDeclaration ++ [.node .returnStmt .nowhere [body]])) typeParams
          result)
  | nothing (t : Tree) : Declares [] t t

/-- Variables are declared in every function literal that has a body. -/
lemma declares_inject {k : Shell} {params body : Tree}
    (h : (k.literal params body).isBodiless = false) (names : List String) :
    Declares names (k.literal params body)
      ((k.literal params body).inject (names.map Tree.letDeclaration)) := by
  obtain ⟨l, s, ts⟩ := body
  by_cases hl : l = .block
  · subst hl
    rw [Tree.inject_block]
    exact Declares.block names k params s ts
  · cases k with
    | function =>
      -- the body is no block, so there is none
      simp only [Shell.literal, Tree.isBodiless, Tree.label_node, bne_eq_false_iff_eq] at h
      exact absurd h hl
    | arrow s' isAsync typeParams result =>
      cases names with
      | nil =>
        rw [List.map_nil, Tree.inject_nil]
        exact Declares.nothing _
      | cons x xs =>
        have hlabel : (Tree.node l s ts).label ≠ .block := hl
        have hnames : (x :: xs).map Tree.letDeclaration ≠ [] := by simp
        rw [Shell.literal, Tree.inject_expression hlabel hnames]
        exact Declares.expression (by simp) hlabel _ _ _ _ _

lemma isBodiless_literal_congr (k : Shell) {params params' body body' : Tree}
    (h : body'.label = body.label) :
    (k.literal params' body').isBodiless = (k.literal params body).isBodiless := by
  cases k with
  | function => simp [Shell.literal, Tree.isBodiless, h]
  | arrow => rfl

lemma putsInto_declares {t : Tree} (h : t.isBodiless = false) : PutsInto Declares t := by
  rintro k params body params' body' names rfl hlabel
  refine declares_inject ?_ names
  rw [isBodiless_literal_congr k hlabel, h]

/-! ### Bodies -/

namespace Tree

/-- The phrase, or every part of it, has only function expressions with a body. -/
def BodiesInside (t : Tree) : Prop :=
  t.hasBodies = true ∨ hasBodiesAll t.parts = true

lemma hasBodies_of_mem {ts : List Tree} (h : hasBodiesAll ts = true) :
    ∀ t ∈ ts, t.hasBodies = true := by
  induction ts with
  | nil => simp
  | cons u ts ih =>
    rw [hasBodiesAll, Bool.and_eq_true] at h
    intro t ht
    rcases List.mem_cons.1 ht with rfl | ht
    · exact h.1
    · exact ih h.2 t ht

/-- The function of an `export default` may have no body, but what stands in it does. -/
lemma BodiesInside.part {l : Label} {s : Span} {ts : List Tree} {t : Tree}
    (h : (node l s ts).BodiesInside) (ht : t ∈ ts) : t.BodiesInside := by
  rcases h with h | h
  · unfold hasBodies at h
    split at h
    · next heq =>
      obtain ⟨-, -, rfl⟩ := Tree.node.inj heq
      rw [List.mem_singleton.1 ht]
      exact .inr h
    · next heq =>
      obtain ⟨rfl, rfl, rfl⟩ := Tree.node.inj heq
      rw [Bool.and_eq_true] at h
      exact .inl (hasBodies_of_mem h.2 t ht)
  · exact .inl (hasBodies_of_mem h t ht)

lemma BodiesInside.has {t u : Tree} (h : t.BodiesInside) (hu : t.Has u) : u.BodiesInside := by
  induction hu with
  | self t => exact h
  | part ht _ ih => exact ih (h.part ht)

lemma BodiesInside.arg {s : Span} {callee : Tree} {gs : Span} {args : List Tree} {types t : Tree}
    (h : (call s callee gs args types).BodiesInside) (ht : t ∈ args) : t.hasBodies = true := by
  rcases h.part (.tail _ (.head _)) with h | h
  · rw [hasBodies, Bool.and_eq_true] at h
    · exact hasBodies_of_mem h.2 t ht
    · exact fun _ _ _ hl => absurd hl (by simp)
  · exact hasBodies_of_mem h t ht

lemma isBodiless_of_hasBodies {k : Shell} {params body : Tree}
    (h : (k.literal params body).hasBodies = true) :
    (k.literal params body).isBodiless = false := by
  cases k with
  | function =>
    simp only [Shell.literal, hasBodies, Bool.and_eq_true, Bool.not_eq_true'] at h
    exact h.1
  | arrow => rfl

/-- The function literals that are entered in a phrase have bodies. -/
lemma isBodiless_of_mem_opened (t : Tree) :
    t.BodiesInside → ∀ u ∈ t.outline.opened, u.isBodiless = false := by
  refine outline_induct
    (motive := fun t o => t.BodiesInside → ∀ u ∈ o.opened, u.isBodiless = false)
    ?_ ?_ ?_ ?_ ?_ ?_ ?_ ?_ ?_ t
  · simp [Outline.opened]
  · intro t a b ha hb h u hu
    rw [Outline.opened_append, List.mem_append] at hu
    rcases hu with hu | hu
    · exact ha h u hu
    · exact hb h u hu
  · intro l s ts t o _ _ ht ih h
    exact ih (h.part ht)
  · intro s callee gs args types o ih h
    exact ih (h.part (.head _))
  · intro s callee gs args types t o _ ht ih h
    exact ih (.inl (h.arg ht))
  · intro s callee gs args types o ih h
    exact ih (h.part (.tail _ (.tail _ (.head _))))
  · simp [Outline.opened]
  · simp [Outline.opened]
  · intro s callee gs args types k params body _ ht hparams hbody h u hu
    have hliteral := h.has (call_has_arg ht s callee gs types)
    simp only [Outline.opened, Outline.opened_append, List.append_nil, List.mem_cons,
      List.mem_append] at hu
    rcases hu with rfl | hu | hu
    · exact isBodiless_of_hasBodies (h.arg ht)
    · exact hparams (hliteral.has (k.has_params params body)) u hu
    · exact hbody (hliteral.has (k.has_body params body)) u hu

end Tree

/-- A text that can be read has only function expressions with bodies. -/
lemma SourceFile.hasBodies_of_parse {dialect : Dialect} {text : String} {file : SourceFile}
    (h : SourceFile.parse? dialect text = some file) :
    Tree.hasBodiesAll file.module.items = true := by
  simp only [parse?, Option.bind_eq_bind, Option.bind_eq_some_iff, guard] at h
  obtain ⟨⟨ts, c⟩, -, u, hguard, heq⟩ := h
  obtain rfl := Option.some.inj heq
  by_contra hts
  rw [if_neg hts] at hguard
  exact absurd hguard (by simp)

lemma Module.isBodiless_of_mem_opened {m : Module} (h : Tree.hasBodiesAll m.items = true) :
    ∀ args ∈ m.suiteArguments, ∀ u ∈ (Tree.outlineLiterals args).opened,
      u.isBodiless = false := by
  intro args hargs u hu
  obtain ⟨t, ht, s, callee, gs, types, hcall, hr⟩ := exists_call hargs
  have hinside : t.BodiesInside := .inl (Tree.hasBodies_of_mem h t ht)
  refine Tree.isBodiless_of_mem_opened _ (hinside.has hcall) u ?_
  rw [Tree.outline_call, Tree.outlineEntered_of_descends (.inl hr)]
  simp [hu]

/-! ### Variables and their function literals -/

/-- Each frame only holds what is declared in its function literal in the end. -/
def Frames.Within (fs : List Frame) (around : List Entered) : Prop :=
  List.Forall₂ (fun f e => f ⊆ e.hoisted) fs around

namespace Frames

lemma Within.of_extend {new : Frame} {fs : List Frame} {around : List Entered}
    (h : Within (extend new fs) around) : Within fs around := by
  cases fs with
  | nil => exact h
  | cons own outer =>
    cases h with
    | cons hown houter => exact .cons (fun _ hp => hown (List.mem_append_left _ hp)) houter

lemma Within.exists_mem {fs : List Frame} {around : List Entered} (h : Within fs around)
    {f : Frame} (hf : f ∈ fs) {p : Property} (hp : p ∈ f) : ∃ e ∈ around, p ∈ e.hoisted := by
  induction h with
  | nil => exact absurd hf List.not_mem_nil
  | cons hsub _ ih =>
    rcases List.mem_cons.1 hf with rfl | hf
    · exact ⟨_, .head _, hsub hp⟩
    · obtain ⟨e, he, hp⟩ := ih hf
      exact ⟨e, .tail _ he, hp⟩

/-- A variable that is written in place of an access is declared in a function literal around. -/
lemma Within.exists_of_lookup {fs : List Frame} {around : List Entered} (h : Within fs around)
    {ps : List String} {p x : String} (hlookup : (frameResolution fs ps).lookup p = some x) :
    ∃ e ∈ around, ⟨p, x⟩ ∈ e.hoisted := by
  obtain ⟨found, hfound, rfl⟩ := find?_of_lookup_frameResolution hlookup
  obtain ⟨rfl, f, hf, hmem⟩ := mem_of_find? hfound
  exact h.exists_mem hf hmem

end Frames

namespace Outline

lemma mem_handled_of_mem_callbacks {κ τ : Type} {o : Outline κ τ} {around : List τ}
    {c : List τ × κ} (h : c ∈ o.callbacks around) : c.2 ∈ o.handled := by
  rw [handled_eq_callbacks o around]
  exact List.mem_map_of_mem h

/-- What is written in place of the accesses of a callback is declared in a function literal
around it.  The invariant is that the frames, together with what the rest of the phrase records,
stay within what is declared. -/
lemma written_declared {o : Outline Tree Tree} {scopes : Scopes} {fs : List Frame}
    {around : List Entered} (h : Frames.Within (Frames.extend (o.gained scopes fs) fs) around) :
    ∀ c ∈ (o.annotate scopes fs).callbacks around, ∀ p x, c.2.written.lookup p = some x →
      ∃ e ∈ c.1, ⟨p, x⟩ ∈ e.hoisted := by
  induction o generalizing scopes fs around with
  | done => simp [annotate, callbacks]
  | setup callback rest ih =>
    rw [gained, ← Frames.extend_extend] at h
    intro c hc p x hlookup
    rcases List.mem_cons.1 hc with rfl | hc
    · exact h.of_extend.exists_of_lookup hlookup
    · exact ih h c hc p x hlookup
  | usage callback rest ih =>
    intro c hc p x hlookup
    rcases List.mem_cons.1 hc with rfl | hc
    · exact h.of_extend.exists_of_lookup hlookup
    · exact ih h c hc p x hlookup
  | literal t inner rest ihi ih =>
    intro c hc p x hlookup
    rw [annotate, callbacks, List.mem_append] at hc
    rcases hc with hc | hc
    · -- the frame of the function literal starts empty and ends as what is declared in it
      refine ihi ?_ c hc p x hlookup
      exact .cons (by simp) h.of_extend
    · exact ih h c hc p x hlookup

/-- The function literals around a callback have it in them, and what is declared in them is set
up by them. -/
lemma around_callback {o : Outline Tree Tree} (ho : o.Faithful) {scopes : Scopes}
    {fs : List Frame} {around : List Entered} :
    ∀ c ∈ (o.annotate scopes fs).callbacks around, ∀ e ∈ c.1,
      e ∈ around ∨ e.tree.Has c.2.tree ∧ ∀ q ∈ e.hoisted, e.tree.SetsUp q.key := by
  induction o generalizing scopes fs around with
  | done => simp [annotate, callbacks]
  | setup callback rest ih =>
    intro c hc e he
    rcases List.mem_cons.1 hc with rfl | hc
    · exact .inl he
    · exact ih ho c hc e he
  | usage callback rest ih =>
    intro c hc e he
    rcases List.mem_cons.1 hc with rfl | hc
    · exact .inl he
    · exact ih ho c hc e he
  | literal t inner rest ihi ih =>
    obtain ⟨⟨k, params, body, rfl, rfl⟩, hinner, hrest⟩ := ho
    intro c hc e he
    rw [annotate, callbacks, List.mem_append] at hc
    rcases hc with hc | hc
    · rcases ihi hinner c hc e he with he | he
      · rcases List.mem_cons.1 he with rfl | he
        · refine .inr ⟨?_, fun q hq => ?_⟩
          · have hmem : c.2.tree ∈ (params.outline ++ body.outline).handled := by
              rw [← handled_annotate]
              exact List.mem_map_of_mem (mem_handled_of_mem_callbacks hc)
            exact Tree.literal_has_of_mem_handled hmem
          · obtain ⟨callback, hmem, haccess⟩ := exists_setup_of_mem_gained hq
            exact ⟨callback, (Tree.hasSetup_literal k params body callback).2 hmem, haccess⟩
        · exact .inl he
      · exact .inr he
    · exact ih hrest c hc e he

end Outline

/-! ### Source files -/

namespace Module

/-- No dangling variable and no lost declaration. -/
structure HoistsCompletely (m : Module) : Prop where
  /-- Declarations are only put into function literals, and into each of them one for each
  property recorded in its context, in order. -/
  accounts : Accounts Declares m m.hoistContexts.1 m.traces
  /-- A variable that is written in place of an access is declared in a function literal around
  the callback, and a setup of that function literal accesses the property. -/
  written : ∀ a ∈ m.traces, ∀ c ∈ a.callbacks [], ∀ p x, c.2.written.lookup p = some x →
    ∃ e ∈ c.1, e.tree.Has c.2.tree ∧ ⟨p, x⟩ ∈ e.hoisted ∧ e.tree.SetsUp p
  /-- The contexts of a suite, in order of creation, are those of its function literals, in the
  order in which they are entered. -/
  recorded : ∀ args ∈ m.suiteArguments, ∀ stats,
    ((Tree.enterLiterals (Scopes.ofModule m) none args).run ⟨{}, stats⟩).2.contexts.records =
      (suiteTrace (Scopes.ofModule m) args).opened.map (·.hoisted)
  /-- The names that are counted are those that are declared, in the order in which the function
  literals are finished. -/
  counted : m.hoistContexts.2.hoisted =
    m.traces.flatMap fun a => a.finished.flatMap (·.names)

theorem hoistsCompletely (m : Module) (h : Tree.hasBodiesAll m.items = true) :
    m.HoistsCompletely where
  accounts := m.accounts_hoistContexts fun args hargs u hu =>
    putsInto_declares (isBodiless_of_mem_opened h args hargs u hu)
  written := by
    intro a ha c hc p x hlookup
    obtain ⟨args, hargs, rfl⟩ := List.mem_map.1 ha
    have hwithin : Frames.Within (Frames.extend
        ((Tree.outlineLiterals args).gained (Scopes.ofModule m) []) []) [] := .nil
    obtain ⟨e, he, hmem⟩ := Outline.written_declared hwithin c hc p x hlookup
    rcases Outline.around_callback (Tree.faithful_outlineLiterals args) c hc e he with h | h
    · exact absurd h List.not_mem_nil
    · exact ⟨e, he, h.1, hmem, h.2 _ hmem⟩
  recorded := by
    intro args _ stats
    have hliterals : ∀ t ∈ args, t.isFunctionLiteral = true →
        LiteralFollows Injects [] (Scopes.ofModule m) t := fun t _ hl =>
      literalFollows hl (fun u _ => direct_follows u) fun u _ => putsInto_injects u
    have hv := (enterLiterals_follows (.inl rfl) hliterals ⟨{}, stats⟩ trivial).2
    exact hv.records
  counted := by
    rw [m.stats_hoistContexts.hoisted]
    rfl

/-- A suite with a setup in front of a test that accesses the same property:
`describe(function() { before(function() { this.x; }); it(function() { this.x; }); });`. -/
def setupFirst : Module :=
  .ofItems [.callStmt "describe" [.plainFunction [] [
    .callStmt "before" [.plainFunction [] [.accessStmt "x"]],
    .callStmt "it" [.plainFunction [] [.accessStmt "x"]]]]]

theorem hoistsCompletely_setupFirst :
    Tree.hasBodiesAll setupFirst.items = true ∧ setupFirst.hoistContexts.2.hoisted = ["x"] ∧
      setupFirst.HoistsCompletely :=
  ⟨by decide, by decide +kernel, hoistsCompletely setupFirst (by decide)⟩

end Module

end ContextHoist
