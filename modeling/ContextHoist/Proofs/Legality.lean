/-
Whether the names that are written can stand where they are written.

The name of a property may be any word, and an access may stand wherever an expression does.  A
variable has stricter rules: reserved words do not name variables, and a variable cannot be
deleted.  The conversion takes the names of properties as they are and replaces accesses wherever
they stand.

* `isBindingIdentifier`: the names that a variable can have in the code of a module.
* `Module.isLegal`: what legal code has to observe about the names it binds and deletes.
* `Module.writesAsAccessed`: which names the conversion writes, and where.
-/
import ContextHoist.Token
import ContextHoist.Proofs.Capture
import ContextHoist.Proofs.Deletion
import ContextHoist.Proofs.Hoisting

namespace ContextHoist

/-! ### Identifiers -/

/-- Whether the text has the form of an identifier, reserved or not.  The name of a property after
a dot is of that form. -/
def isIdentifierName (x : String) : Bool :=
  match x.toList with
  | [] => false
  | c :: cs => isWordStart c && cs.all isWordPart

/-- The words that do not name variables in the code of a module. -/
def reservedWords : List String :=
  Token.keywords ++ Token.declarableOnly ++ ["let", "static"]

/-- The names that can be used for what they mean but not bound. -/
def unbindableNames : List String :=
  ["eval", "arguments"]

/-- Whether a variable in the code of a module can have the name. -/
def isBindingIdentifier (x : String) : Bool :=
  isIdentifierName x && !reservedWords.contains x && !unbindableNames.contains x

/-- A name that avoids another one is never reserved. -/
lemma isBindingIdentifier_fromSetup {x : String} (h : isIdentifierName x = true) :
    isBindingIdentifier (fromSetup x) = true := by
  have hname : isIdentifierName (fromSetup x) = true := by
    have hsuffix : "_fromSetup".toList.all isWordPart = true := by decide
    rw [isIdentifierName, fromSetup, String.toList_append]
    rw [isIdentifierName] at h
    cases hx : x.toList with
    | nil =>
      rw [hx] at h
      exact absurd h (by simp)
    | cons c cs =>
      rw [hx, Bool.and_eq_true] at h
      rw [List.cons_append, Bool.and_eq_true, List.all_append, Bool.and_eq_true]
      exact ⟨h.1, h.2, hsuffix⟩
  -- none of the other words ends as these names do
  have hother : ∀ ws : List String, (ws.all fun w => !endsInFromSetup w) = true →
      ws.contains (fromSetup x) = false := by
    intro ws hws
    rw [List.contains_eq_mem, decide_eq_false_iff_not]
    intro hmem
    have hends := List.all_eq_true.1 hws _ hmem
    rw [endsInFromSetup_fromSetup] at hends
    exact absurd hends (by simp)
  rw [isBindingIdentifier, hname, hother reservedWords (by decide),
    hother unbindableNames (by decide)]
  rfl

/-! ### Legal code -/

namespace Tree

/-- Whether one phrase observes what legal code has to: a property that it accesses has the form
of an identifier, the names that it binds as a function literal can be bound, and it deletes no
name. -/
def isLegalNode (t : Tree) : Bool :=
  t.accessed?.all isIdentifierName && t.bindings.all isBindingIdentifier &&
    (t.deleted?.bind asName?).isNone

/-- Whether all phrases in a phrase observe what legal code has to. -/
def isLegal (t : Tree) : Bool :=
  t.all isLegalNode

lemma exists_of_mem_ownAccesses (t : Tree) :
    ∀ p ∈ t.ownAccesses, ∃ u, t.Has u ∧ u.accessed? = some p := by
  induction t using Tree.induct with
  | node l s ts ih =>
    intro p hp
    rw [ownAccesses] at hp
    split at hp
    · next haccess => exact ⟨_, .self _, by rw [haccess, List.mem_singleton.1 hp]⟩
    · split at hp
      · exact absurd hp List.not_mem_nil
      · rw [ownAccessesAll_eq, List.mem_flatMap] at hp
        obtain ⟨t, ht, hp⟩ := hp
        obtain ⟨u, hu, haccess⟩ := ih t ht p hp
        exact ⟨u, .part ht hu, haccess⟩

/-- The properties that a callback in legal code accesses have the form of identifiers. -/
lemma isIdentifierName_of_mem_contextAccesses {t : Tree} (hlit : t.isFunctionLiteral = true)
    (h : t.isLegal = true) {p : String} (hp : p ∈ t.contextAccesses) :
    isIdentifierName p = true := by
  have haccess : ∃ u, t.Has u ∧ u.accessed? = some p := by
    obtain ⟨k, params, body, rfl⟩ := exists_shell hlit
    rw [Shell.contextAccesses_literal, List.mem_eraseDups, List.mem_append] at hp
    rcases hp with hp | hp
    · obtain ⟨u, hu, haccess⟩ := params.exists_of_mem_ownAccesses p hp
      exact ⟨u, (k.has_params params body).trans hu, haccess⟩
    · obtain ⟨u, hu, haccess⟩ := body.exists_of_mem_ownAccesses p hp
      exact ⟨u, (k.has_body params body).trans hu, haccess⟩
  obtain ⟨u, hu, haccess⟩ := haccess
  have hlegal := all_iff.1 h u hu
  simp only [isLegalNode, Bool.and_eq_true, haccess, Option.all_some] at hlegal
  exact hlegal.1.1

/-- A callback in legal code deletes no name. -/
lemma deletedNames_of_isLegal {t : Tree} (hlit : t.isFunctionLiteral = true)
    (h : t.isLegal = true) : t.deletedNames = [] := by
  obtain ⟨k, params, body, rfl⟩ := exists_shell hlit
  rw [deletedNames, List.filterMap_eq_nil_iff, deleted_literal]
  intro v hv
  have hdeleted : ∃ u, (k.literal params body).Has u ∧ u.deleted? = some v := by
    rcases List.mem_append.1 hv with hv | hv
    · obtain ⟨u, hu, hdeleted⟩ := params.exists_of_mem_ownDeleted v hv
      exact ⟨u, (k.has_params params body).trans hu, hdeleted⟩
    · obtain ⟨u, hu, hdeleted⟩ := body.exists_of_mem_ownDeleted v hv
      exact ⟨u, (k.has_body params body).trans hu, hdeleted⟩
  obtain ⟨u, hu, hdeleted⟩ := hdeleted
  have hlegal := all_iff.1 h u hu
  simp only [isLegalNode, Bool.and_eq_true, hdeleted, Option.bind_some,
    Option.isNone_iff_eq_none] at hlegal
  exact hlegal.2

end Tree

namespace Module

/-- Whether a source file observes what legal code of a module has to about the names that it
accesses, binds and deletes. -/
def isLegal (m : Module) : Bool :=
  m.items.all Tree.isLegal && m.declared.all isBindingIdentifier

lemma isLegal_of_has {m : Module} (h : m.isLegal = true) {t u : Tree} (ht : t ∈ m.items)
    (hu : t.Has u) : u.isLegal = true := by
  rw [isLegal, Bool.and_eq_true] at h
  exact hu.all (List.all_eq_true.1 h.1 t ht)

end Module

/-! ### Names of variables -/

/-- The variable has the name of the property, or the name that avoids it, and the one can be bound
if and only if the other can. -/
def Property.IsNamedAlike (q : Property) : Prop :=
  (q.name = q.key ∨ q.name = fromSetup q.key) ∧
    (isBindingIdentifier q.name = true ↔ isBindingIdentifier q.key = true)

/-- A name is avoided only where it is bound, and then it can be. -/
lemma isBindingIdentifier_hoistedName {s : Scopes} {own : List String}
    {outer : List (List String)} (hvisible : s.visible = own :: outer)
    (houter : ∀ names ∈ outer, ∀ x ∈ names, isBindingIdentifier x = true) {p : String}
    (hp : isIdentifierName p = true) :
    isBindingIdentifier (hoistedName s p) = true ↔ isBindingIdentifier p = true := by
  rw [hoistedName, Scopes.lookup_of_visible hvisible]
  by_cases hown : p ∈ own
  · rw [if_pos hown]
  · rw [if_neg hown]
    by_cases hbound : ∃ names ∈ outer, p ∈ names
    · rw [if_pos hbound]
      obtain ⟨names, hnames, hmem⟩ := hbound
      exact iff_of_true (isBindingIdentifier_fromSetup hp) (houter names hnames p hmem)
    · rw [if_neg hbound]

/-- The variables declared in a function literal of legal code are named like their properties. -/
lemma Module.Holds.isNamedAlike {m : Module} (hm : m.isLegal = true) {around : List Entered}
    {e : Entered} {inner : Trace} (h : m.Holds around e inner) :
    ∀ q ∈ e.hoisted, q.IsNamedAlike := by
  have hdeclared : ∀ x ∈ m.declared, isBindingIdentifier x = true := by
    intro x hx
    rw [isLegal, Bool.and_eq_true] at hm
    exact List.all_eq_true.1 hm.2 x hx
  have hbindings : ∀ t ∈ m.items, ∀ u, t.Has u → ∀ x ∈ u.bindings,
      isBindingIdentifier x = true := by
    intro t ht u hu x hx
    have hnode := Tree.all_iff.1 (isLegal_of_has hm ht hu) u (.self u)
    simp only [Tree.isLegalNode, Bool.and_eq_true] at hnode
    exact List.all_eq_true.1 hnode.1.2 x hx
  intro q hq
  rw [h.recorded] at hq
  obtain ⟨k, hk, hq⟩ := List.mem_flatMap.1 hq
  obtain ⟨haccess, s, hvisible, hname⟩ := h.named k hk q hq
  obtain ⟨hlit, t, ht, hhas⟩ := h.setup_stands k hk
  have hp := Tree.isIdentifierName_of_mem_contextAccesses hlit (isLegal_of_has hm ht hhas) haccess
  refine ⟨hname ▸ hoistedName_eq_or s q.key, ?_⟩
  rw [hname]
  exact isBindingIdentifier_hoistedName hvisible (h.forall_namesAround hdeclared hbindings) hp

/-! ### Source files -/

namespace Module

/-- What is written in place of accesses is declared in a function literal of the suite. -/
lemma exists_hoisted {m : Module} {a : Trace} (ha : a ∈ m.traces) {k : Handled}
    (hk : k ∈ a.handled) {p x : String} (h : k.written.lookup p = some x) :
    ∃ e ∈ a.opened, ⟨p, x⟩ ∈ e.hoisted := by
  obtain ⟨args, -, rfl⟩ := List.mem_map.1 ha
  rw [Outline.handled_eq_callbacks _ []] at hk
  obtain ⟨c, hc, rfl⟩ := List.mem_map.1 hk
  have hwithin : Frames.Within (Frames.extend
      ((Tree.outlineLiterals args).gained (Scopes.ofModule m) []) []) [] := .nil
  obtain ⟨e, he, hmem⟩ := Outline.written_declared hwithin c hc p x h
  exact ⟨e, (Outline.mem_opened_of_mem_callbacks hc e he).resolve_left List.not_mem_nil, hmem⟩

/-- The variables declared in the suites of legal code are named like their properties. -/
lemma isNamedAlike_of_mem {m : Module} (h : m.isLegal = true) {a : Trace} (ha : a ∈ m.traces)
    {e : Entered} (he : e ∈ a.opened) : ∀ q ∈ e.hoisted, q.IsNamedAlike := by
  rw [Outline.opened_eq_enclosed a []] at he
  obtain ⟨l, hl, rfl⟩ := List.mem_map.1 he
  exact (holds_of_mem ha hl).isNamedAlike h

/-- A callback in legal code deletes a variable where it has deleted an access. -/
lemma deletedNames_result {m : Module} (h : m.isLegal = true) {a : Trace} (ha : a ∈ m.traces)
    {k : Handled} (hk : k ∈ a.handled) :
    k.result.deletedNames = k.tree.deletedAccesses.filterMap (k.written.lookup ·) := by
  obtain ⟨args, hargs, rfl⟩ := List.mem_map.1 ha
  have hmem : k.tree ∈ (Tree.outlineLiterals args).handled := by
    rw [← Outline.handled_annotate (Scopes.ofModule m) []]
    exact List.mem_map_of_mem hk
  have hlit := isFunctionLiteral_of_mem_handled hargs k.tree hmem
  obtain ⟨t, ht, hhas⟩ := exists_has hargs (.inl hmem)
  exact k.deletedNames_result hlit (Tree.deletedNames_of_isLegal hlit (isLegal_of_has h ht hhas))

/-- Each name that is declared, or written in place of an access, can be bound, and none that is
written is deleted. -/
def WritesLegally (m : Module) : Prop :=
  ∀ a ∈ m.traces, (∀ e ∈ a.opened, ∀ x ∈ e.names, isBindingIdentifier x = true) ∧
    ∀ k ∈ a.handled, (∀ p ∈ k.tree.contextAccesses, ∀ x ∈ k.written.lookup p,
      isBindingIdentifier x = true) ∧ k.result.deletedNames = []

instance (m : Module) : Decidable m.WritesLegally :=
  inferInstanceAs (Decidable (∀ a ∈ m.traces, (∀ e ∈ a.opened, ∀ x ∈ e.names,
    isBindingIdentifier x = true) ∧ ∀ k ∈ a.handled, (∀ p ∈ k.tree.contextAccesses,
      ∀ x ∈ k.written.lookup p, isBindingIdentifier x = true) ∧ k.result.deletedNames = []))

/-- Names are written as properties are accessed. -/
structure WritesAsAccessed (m : Module) : Prop where
  accounts : Accounts Injects m m.hoistContexts.1 m.traces
  /-- A declared variable is named like its property. -/
  declared : ∀ a ∈ m.traces, ∀ e ∈ a.opened, ∀ q ∈ e.hoisted, q.IsNamedAlike
  /-- A variable that is written in place of an access is named like the property. -/
  written : ∀ a ∈ m.traces, ∀ k ∈ a.handled, ∀ p x, k.written.lookup p = some x →
    Property.IsNamedAlike ⟨p, x⟩
  /-- The names that a callback deletes afterwards are written in place of accesses that it
  deletes before. -/
  deleted : ∀ a ∈ m.traces, ∀ k ∈ a.handled,
    k.result.deletedNames = k.tree.deletedAccesses.filterMap (k.written.lookup ·)
  /-- All names are written legally if and only if the properties that are set up have names that
  can be bound, and no access that has a variable is deleted. -/
  writesLegally_iff : m.WritesLegally ↔
    ∀ a ∈ m.traces, (∀ e ∈ a.opened, ∀ q ∈ e.hoisted, isBindingIdentifier q.key = true) ∧
      ∀ k ∈ a.handled, ∀ p ∈ k.tree.deletedAccesses, k.written.lookup p = none

theorem writesAsAccessed (m : Module) (h : m.isLegal = true) : m.WritesAsAccessed where
  accounts := m.accounts_hoistContexts fun _ _ u _ => putsInto_injects u
  declared := fun _ ha _ he => isNamedAlike_of_mem h ha he
  written := by
    intro a ha k hk p x hlookup
    obtain ⟨e, he, hmem⟩ := exists_hoisted ha hk hlookup
    exact isNamedAlike_of_mem h ha he _ hmem
  deleted := fun _ ha _ hk => deletedNames_result h ha hk
  writesLegally_iff := by
    constructor
    · intro hlegal a ha
      obtain ⟨hnames, hcallbacks⟩ := hlegal a ha
      refine ⟨fun e he q hq => ?_, fun k hk p hp => ?_⟩
      · have hname := hnames e he q.name (List.mem_map_of_mem hq)
        exact (isNamedAlike_of_mem h ha he q hq).2.1 hname
      · have hnone := (hcallbacks k hk).2
        rw [deletedNames_result h ha hk, List.filterMap_eq_nil_iff] at hnone
        exact hnone p hp
    · intro hproperties a ha
      obtain ⟨hkeys, haccesses⟩ := hproperties a ha
      -- a variable is legal because its property is, wherever it is declared
      have hlegal : ∀ e ∈ a.opened, ∀ q ∈ e.hoisted, isBindingIdentifier q.name = true :=
        fun e he q hq => (isNamedAlike_of_mem h ha he q hq).2.2 (hkeys e he q hq)
      refine ⟨fun e he x hx => ?_, fun k hk => ⟨fun p _ x hx => ?_, ?_⟩⟩
      · obtain ⟨q, hq, rfl⟩ := List.mem_map.1 hx
        exact hlegal e he q hq
      · obtain ⟨e, he, hmem⟩ := exists_hoisted ha hk hx
        exact hlegal e he _ hmem
      · rw [deletedNames_result h ha hk, List.filterMap_eq_nil_iff]
        exact haccesses k hk

theorem writesAsAccessed_setupFirst :
    setupFirst.isLegal = true ∧ setupFirst.WritesLegally ∧ setupFirst.WritesAsAccessed :=
  ⟨by decide, by decide +kernel, writesAsAccessed setupFirst (by decide)⟩

/-- A setup that accesses a property whose name is reserved:
`describe(function() { before(function() { this.class; }); });`. -/
def reservedAccess : Module :=
  .ofItems [.callStmt "describe" [.plainFunction [] [
    .callStmt "before" [.plainFunction [] [.accessStmt "class"]]]]]

/-- A setup that deletes a property:
`describe(function() { before(function() { delete this.x; }); });`. -/
def deletedAccess : Module :=
  .ofItems [.callStmt "describe" [.plainFunction [] [
    .callStmt "before" [.plainFunction [] [.node .exprStmt .nowhere
      [.node (.unary "delete") .nowhere [.accessOf "x" .nowhere .nowhere .nowhere]]]]]]]

theorem not_writesLegally :
    (reservedAccess.isLegal = true ∧ reservedAccess.hoistContexts.2.hoisted = ["class"] ∧
      ¬reservedAccess.WritesLegally) ∧
    deletedAccess.isLegal = true ∧ deletedAccess.hoistContexts.2.hoisted = ["x"] ∧
      ¬deletedAccess.WritesLegally :=
  ⟨⟨by decide, by decide +kernel, by decide +kernel⟩, by decide, by decide +kernel,
    by decide +kernel⟩

end Module

end ContextHoist
