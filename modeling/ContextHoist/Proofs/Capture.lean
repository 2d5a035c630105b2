/-
Which references a new declaration captures.

A variable for a property is declared in a function literal and is seen everywhere in it.  Its
name avoids the names that are bound around the setup callback, as far as these can be seen from
inside the callback.  So a reference to a variable of a function literal around, or of the source
file, keeps its meaning; a name that nothing in the source file binds is not avoided.

* `Outline.enclosed`: function literals with the function literals around them.
* `Module.Holds`: what is known of a function literal in a suite.
* `Entered.KeepsReferences`: the references that are not captured.
* `Module.keepsReferences`: the theorem about source files.
-/
import ContextHoist.Proofs.Redeclaration
import ContextHoist.Proofs.References

namespace ContextHoist

/-! ### Function literals in function literals -/

namespace Outline

/-- All function literals, each with the function literals around it, the innermost first, and
with the outline of what it holds.  The given literals are those around the phrase. -/
def enclosed {κ τ : Type} (around : List τ) : Outline κ τ → List (List τ × τ × Outline κ τ)
  | done => []
  | setup _ rest => rest.enclosed around
  | usage _ rest => rest.enclosed around
  | literal t inner rest =>
    (around, t, inner) :: (inner.enclosed (t :: around) ++ rest.enclosed around)

lemma opened_eq_enclosed {κ τ : Type} (o : Outline κ τ) (around : List τ) :
    o.opened = (o.enclosed around).map (·.2.1) := by
  induction o generalizing around with
  | done => rfl
  | setup k rest ih => exact ih around
  | usage k rest ih => exact ih around
  | literal t inner rest ihi ih =>
    simp only [opened, enclosed, List.map_cons, List.map_append, ihi (t :: around), ih around]

end Outline

/-- The names bound outside of a function literal, scope by scope: by the function literals around
it, the innermost first, and at the top of the source file. -/
def Module.namesAround (m : Module) (around : List Entered) : List (List String) :=
  around.map (·.tree.bindings) ++ [m.declared]

/-- From inside a function literal its own names are seen first. -/
lemma Module.visible_enterFunction {m : Module} {scopes : Scopes} {around : List Entered}
    (h : scopes.visible = m.namesAround around) (e : Entered) :
    (scopes.enterFunction e.tree).visible = m.namesAround (e :: around) := by
  rw [Scopes.visible_enterFunction (by simp [h, namesAround]), h]
  rfl

/-- A function literal of a trace is one of the outline, and so are those around it.  The scopes
around it are theirs. -/
lemma Outline.mem_enclosed_annotate {m : Module} {scopes : Scopes} {fs : List Frame}
    {o : Outline Tree Tree} {around around' : List Entered} {e : Entered} {a : Trace}
    (hvisible : scopes.visible = m.namesAround around)
    (h : (around', e, a) ∈ (o.annotate scopes fs).enclosed around) :
    (∀ u ∈ around', u ∈ around ∨ u.tree ∈ o.opened) ∧
      ∃ t inner scopes' fs', (t, inner) ∈ o.literals ∧
        Scopes.visible scopes' = m.namesAround around' ∧
        e = ⟨t, inner.gained (scopes'.enterFunction t) ([] :: fs')⟩ ∧
        a = inner.annotate (scopes'.enterFunction t) ([] :: fs') := by
  induction o generalizing scopes fs around with
  | done => exact absurd h List.not_mem_nil
  | setup callback rest ih => exact ih hvisible h
  | usage callback rest ih => exact ih hvisible h
  | literal t inner rest ihi ih =>
    rcases List.mem_cons.1 h with heq | h
    · simp only [Prod.mk.injEq] at heq
      obtain ⟨rfl, rfl, rfl⟩ := heq
      exact ⟨fun u hu => .inl hu, t, inner, scopes, fs, .head _, hvisible, rfl, rfl⟩
    · rcases List.mem_append.1 h with h | h
      · obtain ⟨haround, u, o, scopes', fs', hmem, hrest⟩ :=
          ihi (Module.visible_enterFunction hvisible _) h
        refine ⟨fun u hu => ?_, u, o, scopes', fs', .tail _ (List.mem_append_left _ hmem), hrest⟩
        rcases haround u hu with hu | hu
        · rcases List.mem_cons.1 hu with rfl | hu
          · exact .inr (.head _)
          · exact .inl hu
        · exact .inr (.tail _ (List.mem_append_left _ hu))
      · obtain ⟨haround, u, o, scopes', fs', hmem, hrest⟩ := ih hvisible h
        refine ⟨fun u hu => ?_, u, o, scopes', fs', .tail _ (List.mem_append_right _ hmem), hrest⟩
        rcases haround u hu with hu | hu
        · exact .inl hu
        · exact .inr (.tail _ (List.mem_append_right _ hu))

/-- A function literal in a suite of a source file, with the function literals around it and the
trace of what it holds. -/
structure Module.Holds (m : Module) (around : List Entered) (e : Entered) (inner : Trace) :
    Prop where
  isFunctionLiteral : e.tree.isFunctionLiteral = true
  /-- The function literal and those around it stand in the source file. -/
  stands : ∀ u ∈ e :: around, ∃ t ∈ m.items, t.Has u.tree
  /-- A variable is declared for each property that a setup of the function literal is the first
  to access. -/
  recorded : e.hoisted = inner.setups.flatMap (·.recorded)
  setup_stands : ∀ k ∈ inner.setups, k.tree.isFunctionLiteral = true ∧ ∃ t ∈ m.items, t.Has k.tree
  /-- The name of a variable is chosen in the scopes of the callback, of the function literal and
  of those around it. -/
  named : ∀ k ∈ inner.setups, ∀ q ∈ k.recorded, q.key ∈ k.tree.contextAccesses ∧
    ∃ s : Scopes, s.visible = k.tree.bindings :: m.namesAround (e :: around) ∧
      q.name = hoistedName s q.key

lemma Module.holds_of_mem {m : Module} {a : Trace} (ha : a ∈ m.traces)
    {l : List Entered × Entered × Trace} (hl : l ∈ a.enclosed []) :
    m.Holds l.1 l.2.1 l.2.2 := by
  obtain ⟨around, e, inner⟩ := l
  obtain ⟨args, hargs, rfl⟩ := List.mem_map.1 ha
  have htop : (Scopes.ofModule m).visible = m.namesAround [] := Scopes.visible_ofNames _
  obtain ⟨haround, t, o, scopes, fs, hmem, hvisible, rfl, rfl⟩ :=
    Outline.mem_enclosed_annotate htop hl
  obtain ⟨k, params, body, rfl, rfl⟩ := (Tree.faithful_outlineLiterals args).of_mem hmem
  have hstands : ∃ t ∈ m.items, t.Has (k.literal params body) := by
    refine exists_has hargs (.inr ?_)
    rw [Outline.opened_eq]
    exact List.mem_map_of_mem hmem
  refine ⟨k.isFunctionLiteral_literal params body, fun u hu => ?_, Outline.gained_eq _ _ _,
    fun c hc => ?_, fun c hc q hq => ?_⟩
  · rcases List.mem_cons.1 hu with rfl | hu
    · exact hstands
    · exact exists_has hargs (.inr ((haround u hu).resolve_left List.not_mem_nil))
  · obtain ⟨t, ht, hhas⟩ := hstands
    have hcallback := Outline.setups_subset_handled _ (Outline.mem_setups_annotate hc).1
    refine ⟨?_, t, ht, hhas.trans (Tree.literal_has_of_mem_handled hcallback)⟩
    rcases List.mem_append.1 (Outline.handled_append _ _ ▸ hcallback) with h | h
    · exact params.isFunctionLiteral_of_mem_handled _ h
    · exact body.isFunctionLiteral_of_mem_handled _ h
  · obtain ⟨haccess, hname⟩ := (Outline.mem_setups_annotate hc).2 q hq
    have hinner := visible_enterFunction hvisible ⟨k.literal params body, []⟩
    refine ⟨haccess, _, ?_, hname⟩
    rw [Scopes.visible_enterFunction (by simp [hinner, namesAround]), hinner]
    rfl

/-- What holds of all names that a source file and the functions in it bind holds of the names
bound in a function literal and around it. -/
lemma Module.Holds.forall_namesAround {m : Module} {around : List Entered} {e : Entered}
    {inner : Trace} (h : m.Holds around e inner) {P : String → Prop}
    (hdeclared : ∀ x ∈ m.declared, P x)
    (hbindings : ∀ t ∈ m.items, ∀ u, t.Has u → ∀ x ∈ u.bindings, P x) :
    ∀ names ∈ m.namesAround (e :: around), ∀ x ∈ names, P x := by
  intro names hnames x hx
  rcases List.mem_append.1 hnames with hnames | hnames
  · obtain ⟨u, hu, rfl⟩ := List.mem_map.1 hnames
    obtain ⟨t, ht, hhas⟩ := h.stands u hu
    exact hbindings t ht _ hhas x hx
  · rw [List.mem_singleton.1 hnames] at hx
    exact hdeclared x hx

/-! ### Names that are avoided -/

/-- The properties that are first set up by a callback that binds a variable of that name
itself.  From inside the callback the variables of that name around it are not seen. -/
def Outline.hidden (inner : Trace) : List String :=
  inner.setups.flatMap fun k => (k.recorded.map (·.key)).filter fun p => k.tree.bindings.contains p

lemma Outline.mem_hidden {inner : Trace} {p : String} :
    p ∈ inner.hidden ↔ ∃ k ∈ inner.setups, p ∈ k.tree.bindings ∧ ∃ q ∈ k.recorded, q.key = p := by
  simp [hidden, and_comm]

/-- The name of a new variable is not bound around a callback that does not bind the property
itself. -/
lemma hoistedName_notMem {s : Scopes} {own : List String} {outer : List (List String)}
    (hvisible : s.visible = own :: outer)
    (houter : ∀ names ∈ outer, ∀ x ∈ names, endsInFromSetup x = false) {p : String}
    (hp : p ∉ own) : ∀ names ∈ outer, hoistedName s p ∉ names := by
  intro names hnames hmem
  rw [hoistedName, Scopes.lookup_of_visible hvisible, if_neg hp] at hmem
  by_cases hbound : ∃ names ∈ outer, p ∈ names
  · rw [if_pos hbound] at hmem
    have hends := houter names hnames _ hmem
    rw [endsInFromSetup_fromSetup] at hends
    exact absurd hends (by simp)
  · rw [if_neg hbound] at hmem
    exact hbound ⟨names, hnames, hmem⟩

/-- Where a callback binds the property itself, the variable has its name. -/
lemma hoistedName_of_mem {s : Scopes} {own : List String} {outer : List (List String)}
    (hvisible : s.visible = own :: outer) {p : String} (hp : p ∈ own) : hoistedName s p = p := by
  rw [hoistedName, Scopes.lookup_of_visible hvisible, if_pos hp]

/-- Among the variables declared in a function literal, only those for hidden properties have names
that are bound in it or around it. -/
lemma Module.Holds.mem_hidden {m : Module} {around : List Entered} {e : Entered} {inner : Trace}
    (h : m.Holds around e inner) (hends : ∀ names ∈ m.namesAround (e :: around), ∀ x ∈ names,
      endsInFromSetup x = false) {x : String} (hx : x ∈ e.names)
    (hbound : ∃ names ∈ m.namesAround (e :: around), x ∈ names) : x ∈ inner.hidden := by
  rw [Entered.names, h.recorded] at hx
  obtain ⟨q, hq, rfl⟩ := List.mem_map.1 hx
  obtain ⟨k, hk, hq⟩ := List.mem_flatMap.1 hq
  obtain ⟨-, s, hvisible, hname⟩ := h.named k hk q hq
  by_cases hown : q.key ∈ k.tree.bindings
  · rw [hname, hoistedName_of_mem hvisible hown]
    exact Outline.mem_hidden.2 ⟨k, hk, hown, q, hq, rfl⟩
  · -- the name avoids all that is bound around the callback
    obtain ⟨names, hnames, hmem⟩ := hbound
    rw [hname] at hmem
    exact absurd hmem (hoistedName_notMem hvisible hends hown names hnames)

/-! ### References that are kept -/

/-- The references in a function literal to variables that are bound outside of it, and what the
declarations in it do to them.  The trace is that of what the function literal holds. -/
structure Entered.KeepsReferences (e : Entered) (inner : Trace) (outer : List (List String)) :
    Prop where
  /-- A variable is declared for each property that a setup of the function literal is the first
  to access. -/
  recorded : e.hoisted = inner.setups.flatMap (·.recorded)
  /-- No name that is bound outside of the function literal is that of a declared variable, unless
  the setup callback binds a variable of that name itself.  So no reference to a variable bound
  there is captured, wherever it stands. -/
  uncaptured : ∀ x, (∃ names ∈ outer, x ∈ names) → x ∉ inner.hidden → x ∉ e.names
  /-- With the declarations in place, these references lead out of the function literal as
  before. -/
  kept : (e.tree.inject (e.names.map Tree.letDeclaration)).free.filter
      (fun x => outer.any (·.contains x) && !inner.hidden.contains x) =
    e.tree.free.filter fun x => outer.any (·.contains x) && !inner.hidden.contains x

lemma Entered.KeepsReferences.of_bound {e : Entered} {inner : Trace} {outer : List (List String)}
    (hliteral : e.tree.isFunctionLiteral = true)
    (hrecorded : e.hoisted = inner.setups.flatMap (·.recorded))
    (hbound : ∀ x ∈ e.names, (∃ names ∈ outer, x ∈ names) → x ∈ inner.hidden) :
    e.KeepsReferences inner outer := by
  refine ⟨hrecorded, fun x houter hx hname => hx (hbound x hname houter), ?_⟩
  obtain ⟨k, params, body, heq⟩ := Tree.exists_shell hliteral
  rw [heq]
  refine Tree.free_inject (fun x hx => ?_) k params body
  by_cases houter : ∃ names ∈ outer, x ∈ names
  · simp [hbound x hx houter]
  · simp only [not_exists, not_and] at houter
    simp +contextual [houter]

/-! ### Source files -/

/-- The statement `x;`. -/
def Tree.nameStmt (x : String) : Tree :=
  node .exprStmt .nowhere [name x .nowhere]

namespace Module

/-- No name bound at the top of a source file ends as the names do that avoid others. -/
lemma not_endsInFromSetup_declared {m : Module} (h : m.avoidsFromSetup = true) :
    ∀ x ∈ m.declared, endsInFromSetup x = false := by
  have hsubset : ∀ ts : List Tree, Tree.declaredAll ts ⊆ Tree.mentionedAll ts := by
    intro ts
    induction ts with
    | nil => exact fun _ hx => hx
    | cons t ts ih =>
      exact List.append_subset.2 ⟨fun _ hx => List.mem_append_left _ (t.declared_subset hx),
        fun _ hx => List.mem_append_right _ (ih hx)⟩
  intro x hx
  have hall := List.all_eq_true.1 h x (hsubset m.items hx)
  simpa using hall

/-- The declarations put into the function literals of a source file do not capture references to
variables that are bound around, except where a setup callback binds a variable of that name
itself. -/
theorem keepsReferences (m : Module) (h : m.avoidsFromSetup = true) :
    Accounts Injects m m.hoistContexts.1 m.traces ∧
      ∀ a ∈ m.traces, ∀ l ∈ a.enclosed [], l.2.1.KeepsReferences l.2.2 (m.namesAround l.1) := by
  refine ⟨m.accounts_hoistContexts fun _ _ u _ => putsInto_injects u, fun a ha l hl => ?_⟩
  have hholds := holds_of_mem ha hl
  have hends := hholds.forall_namesAround (not_endsInFromSetup_declared h)
    fun t ht u hu x hx => not_endsInFromSetup h ht hu (u.bindings_subset hx)
  refine .of_bound hholds.isFunctionLiteral hholds.recorded fun x hx hbound => ?_
  obtain ⟨names, hnames, hbound⟩ := hbound
  exact hholds.mem_hidden hends hx ⟨names, .tail _ hnames, hbound⟩

/-- A suite whose setup accesses a property, with a test that refers to a variable of the source
file of that name: `let x; describe(function() { before(function() { this.x; });
it(function() { x; }); });`. -/
def boundRead : Module :=
  .ofItems [.letDeclaration "x", .callStmt "describe" [.plainFunction [] [
    .callStmt "before" [.plainFunction [] [.accessStmt "x"]],
    .callStmt "it" [.plainFunction [] [.nameStmt "x"]]]]]

theorem keepsReferences_boundRead :
    boundRead.avoidsFromSetup = true ∧ boundRead.hoistContexts.2.hoisted = ["x_fromSetup"] ∧
      Accounts Injects boundRead boundRead.hoistContexts.1 boundRead.traces ∧
      ∀ a ∈ boundRead.traces, ∀ l ∈ a.enclosed [],
        l.2.1.KeepsReferences l.2.2 (boundRead.namesAround l.1) :=
  ⟨by decide, by decide +kernel, keepsReferences boundRead (by decide)⟩

/-- No reference that leads out of a function literal has the name of a variable declared in it,
whatever the reference leads to. -/
def CapturesNothing (m : Module) : Prop :=
  ∀ a ∈ m.traces, ∀ l ∈ a.literals, ∀ x ∈ l.1.names, x ∉ l.1.tree.free

instance (m : Module) : Decidable m.CapturesNothing :=
  inferInstanceAs (Decidable (∀ a ∈ m.traces, ∀ l ∈ a.literals, ∀ x ∈ l.1.names,
    x ∉ l.1.tree.free))

/-- The same with a name that the source file does not bind:
`describe(function() { before(function() { this.x; }); it(function() { x; }); });`. -/
def globalRead : Module :=
  .ofItems [.callStmt "describe" [.plainFunction [] [
    .callStmt "before" [.plainFunction [] [.accessStmt "x"]],
    .callStmt "it" [.plainFunction [] [.nameStmt "x"]]]]]

theorem not_capturesNothing_globalRead :
    globalRead.avoidsFromSetup = true ∧ globalRead.hoistContexts.2.hoisted = ["x"] ∧
      ¬globalRead.CapturesNothing :=
  ⟨by decide, by decide +kernel, by decide +kernel⟩

end Module

end ContextHoist
