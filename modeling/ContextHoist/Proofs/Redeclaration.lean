/-
Whether a declaration is put beside another one of the same name.

The name of a new variable is chosen at a setup callback and declared in the function literal
around it.  A name that is bound around the callback is avoided, but not if the callback binds it
as well: then the innermost binding hides the other one.

* `hoistedName_mem_bindings`: when the name of a new variable is bound by the function literal
  around the callback.
* `Tree.mentioned`: the names and the accessed properties of a phrase.
* `Module.redeclares_iff`: when a declaration meets another one of its name.
-/
import ContextHoist.Proofs.Placement
import ContextHoist.Proofs.Scoping
import ContextHoist.Proofs.Suites

namespace ContextHoist

/-! ### Names of new variables -/

/-- Two scopes from inside a function literal in a function literal. -/
lemma Scopes.chain_enterFunction_enterFunction (s : Scopes) (t u : Tree) :
    ∃ c d outer, ((s.enterFunction t).enterFunction u).chain = c :: d :: outer ∧
      c.names = u.bindings ∧ d.names = t.bindings := by
  obtain ⟨outer, hu, houter⟩ := (s.enterFunction t).chain_enterFunction u
  obtain ⟨rest, ht, -⟩ := s.chain_enterFunction t
  have hcurrent : (s.enterFunction t).current < (s.enterFunction t).arena.size := by
    simp [enterFunction, enterWith]
  exact ⟨_, _, rest, by rw [hu, houter hcurrent, ht], rfl, rfl⟩

/-- Whether the name ends as the names do that avoid others. -/
def endsInFromSetup (x : String) : Bool :=
  "_fromSetup".toList.isSuffixOf x.toList

@[simp] lemma endsInFromSetup_fromSetup (x : String) : endsInFromSetup (fromSetup x) = true := by
  rw [endsInFromSetup, List.isSuffixOf_iff_suffix, fromSetup, String.toList_append]
  exact List.suffix_append _ _

lemma fromSetup_injective {x y : String} (h : fromSetup x = fromSetup y) : x = y := by
  have hlist := congrArg String.toList h
  rw [fromSetup, fromSetup, String.toList_append, String.toList_append] at hlist
  exact String.toList_inj.1 (List.append_cancel_right hlist)

lemma hoistedName_eq_or (scopes : Scopes) (p : String) :
    hoistedName scopes p = p ∨ hoistedName scopes p = fromSetup p := by
  unfold hoistedName
  split
  · exact .inr rfl
  · exact .inl rfl
  · exact .inl rfl

/-- The name of a new variable is bound by the function literal around the callback if and only if
both of them bind the property. -/
lemma hoistedName_mem_bindings (s : Scopes) (literal callback : Tree) {p : String}
    (h : fromSetup p ∉ literal.bindings) :
    hoistedName ((s.enterFunction literal).enterFunction callback) p ∈ literal.bindings ↔
      p ∈ literal.bindings ∧ p ∈ callback.bindings := by
  by_cases hliteral : p ∈ literal.bindings
  · obtain ⟨c, d, outer, hchain, hc, hd⟩ := s.chain_enterFunction_enterFunction literal callback
    unfold hoistedName Scopes.lookup
    rw [hchain]
    simp only [hc, List.contains_iff_mem, List.any_cons, hd, Bool.or_eq_true]
    by_cases hcallback : p ∈ callback.bindings
    · simp [hcallback]
    · -- the name is avoided because the function literal binds it
      simp [hcallback, hliteral, h]
  · -- neither the property nor the name that avoids it is bound by the function literal
    have hname : hoistedName ((s.enterFunction literal).enterFunction callback) p ∉
        literal.bindings := by
      rcases hoistedName_eq_or ((s.enterFunction literal).enterFunction callback) p with hp | hp
      · rw [hp]
        exact hliteral
      · rw [hp]
        exact h
    simp [hname, hliteral]

/-! ### Names in phrases -/

namespace Tree

/-- The name at the root of a phrase, or the property that the phrase accesses. -/
def mentioned? : Tree → Option String
  | node (.name x) _ _ => some x
  | t => t.accessed?

mutual

/-- All names and all accessed properties in a phrase, functions and classes included. -/
def mentioned : Tree → List String
  | node l s ts => (mentioned? (node l s ts)).toList ++ mentionedAll ts

/-- All names and all accessed properties in a list of phrases. -/
def mentionedAll : List Tree → List String
  | [] => []
  | t :: ts => t.mentioned ++ mentionedAll ts

end

lemma mentioned_subset_mentionedAll {t : Tree} {ts : List Tree} (ht : t ∈ ts) :
    t.mentioned ⊆ mentionedAll ts := by
  induction ht with
  | head => simp [mentionedAll]
  | tail _ _ ih => exact fun _ hx => List.mem_append_right _ (ih hx)

lemma mentioned_part {l : Label} {s : Span} {ts : List Tree} {t : Tree} (ht : t ∈ ts) :
    t.mentioned ⊆ (node l s ts).mentioned := by
  rw [mentioned]
  exact fun _ hx => List.mem_append_right _ (mentioned_subset_mentionedAll ht hx)

lemma Has.mentioned_subset {t u : Tree} (h : t.Has u) : u.mentioned ⊆ t.mentioned := by
  induction h with
  | self t => exact fun _ hx => hx
  | part ht _ ih => exact fun _ hx => mentioned_part ht (ih hx)

/-- The variables of a pattern are names in it. -/
lemma patternNames_subset (t : Tree) : t.patternNames ⊆ t.mentioned := by
  induction t using Tree.induct with
  | node l s ts ih =>
    have hpart : ∀ t ∈ ts, t.patternNames ⊆ (node l s ts).mentioned := fun t ht _ hx =>
      mentioned_part ht (ih t ht hx)
    have hall : ∀ us, us ⊆ ts → patternNamesAll us ⊆ (node l s ts).mentioned := by
      intro us hus
      induction us with
      | nil => simp [patternNamesAll]
      | cons u us ihus =>
        obtain ⟨hu, hus⟩ := List.cons_subset.1 hus
        exact List.append_subset.2 ⟨hpart u hu, ihus hus⟩
    unfold patternNames
    split
    case h_11 => simp
    all_goals
      rename_i heq
      obtain ⟨rfl, rfl, rfl⟩ := Tree.node.inj heq
    · simp [mentioned, mentioned?]
    · exact hall ts fun _ h => h
    · exact hall ts fun _ h => h
    · exact hall ts fun _ h => h
    · exact hpart _ (.head _)
    · exact hpart _ (.head _)
    · exact hpart _ (.head _)
    · exact hpart _ (.head _)
    · exact hpart _ (.tail _ (.head _))
    · exact hpart _ (.tail _ (.head _))

/-- What a phrase declares are names in it. -/
lemma declared_subset (t : Tree) : t.declared ⊆ t.mentioned := by
  induction t using Tree.induct with
  | node l s ts ih =>
    have hall : ∀ us, us ⊆ ts → declaredAll us ⊆ (node l s ts).mentioned := by
      intro us hus
      induction us with
      | nil => simp [declaredAll]
      | cons u us ihus =>
        obtain ⟨hu, hus⟩ := List.cons_subset.1 hus
        exact List.append_subset.2 ⟨fun _ hx => mentioned_part hu (ih u hu hx), ihus hus⟩
    have hpattern : ∀ t ∈ ts, t.patternNames ⊆ (node l s ts).mentioned := fun t ht _ hx =>
      mentioned_part ht (t.patternNames_subset hx)
    unfold declared
    split
    case h_8 =>
      next heq =>
        obtain ⟨rfl, rfl, rfl⟩ := Tree.node.inj heq
        split
        · simp
        · exact hall ts fun _ h => h
    all_goals
      rename_i heq
      obtain ⟨rfl, rfl, rfl⟩ := Tree.node.inj heq
    · exact List.append_subset.2
        ⟨hpattern _ (.head _), hall _ fun _ h => List.mem_cons_of_mem _ h⟩
    · exact List.append_subset.2
        ⟨hpattern _ (.head _), hall _ fun _ h => List.mem_cons_of_mem _ h⟩
    · exact hpattern _ (.head _)
    · exact hpattern _ (.head _)
    · exact hpattern _ (.head _)
    · exact hpattern _ (.head _)
    · exact hpattern _ (.head _)

/-- What a function literal binds are names in it. -/
lemma bindings_subset (t : Tree) : t.bindings ⊆ t.mentioned := by
  unfold bindings
  split
  · next s self isAsync isGenerator fs params decorators body typeParams result =>
    let k : Shell := .function s self isAsync isGenerator fs decorators typeParams result
    refine List.append_subset.2 ⟨List.append_subset.2 ⟨?_, ?_⟩, ?_⟩
    · exact fun x hx => mentioned_part (.head _) (self.patternNames_subset hx)
    · exact fun x hx => (k.has_params params body).mentioned_subset (params.patternNames_subset hx)
    · exact fun x hx => (k.has_body params body).mentioned_subset (body.declared_subset hx)
  · next s isAsync params body typeParams result =>
    refine List.append_subset.2 ⟨?_, ?_⟩
    · exact fun x hx => mentioned_part (.head _) (params.patternNames_subset hx)
    · exact fun x hx => mentioned_part (.tail _ (.head _)) (body.declared_subset hx)
  · simp

lemma ownAccesses_subset (t : Tree) : t.ownAccesses ⊆ t.mentioned := by
  induction t using Tree.induct with
  | node l s ts ih =>
    have hall : ∀ us, us ⊆ ts → ownAccessesAll us ⊆ (node l s ts).mentioned := by
      intro us hus
      induction us with
      | nil => simp [ownAccessesAll]
      | cons u us ihus =>
        obtain ⟨hu, hus⟩ := List.cons_subset.1 hus
        exact List.append_subset.2 ⟨fun _ hx => mentioned_part hu (ih u hu hx), ihus hus⟩
    rw [ownAccesses]
    split
    · next p haccess =>
      have hmentioned : mentioned? (node l s ts) = some p := by
        unfold mentioned?
        split
        · next heq =>
          obtain ⟨rfl, rfl, rfl⟩ := Tree.node.inj heq
          exact absurd haccess (by simp [accessed?])
        · exact haccess
      simp [mentioned, hmentioned]
    · split
      · simp
      · exact hall ts fun _ h => h

/-- What a callback accesses are properties accessed in it. -/
lemma contextAccesses_subset (t : Tree) : t.contextAccesses ⊆ t.mentioned := by
  cases hlit : t.isFunctionLiteral with
  | false =>
    unfold contextAccesses
    split
    · exact absurd hlit (by simp [isFunctionLiteral])
    · exact absurd hlit (by simp [isFunctionLiteral])
    · simp
  | true =>
    obtain ⟨k, params, body, rfl⟩ := exists_shell hlit
    rw [Shell.contextAccesses_literal]
    intro p hp
    rw [List.mem_eraseDups, List.mem_append] at hp
    rcases hp with hp | hp
    · exact (k.has_params params body).mentioned_subset (params.ownAccesses_subset hp)
    · exact (k.has_body params body).mentioned_subset (body.ownAccesses_subset hp)

end Tree

/-! ### Properties of one function literal -/

/-- Distinct properties have distinct variables, because no property ends as the names do that
avoid others. -/
lemma nodup_names {hoisted : Frame} (hkeys : (hoisted.map (·.key)).Nodup)
    (h : ∀ q ∈ hoisted, endsInFromSetup q.key = false ∧
      (q.name = q.key ∨ q.name = fromSetup q.key)) : (hoisted.map (·.name)).Nodup := by
  rw [List.Nodup, List.pairwise_map] at hkeys ⊢
  refine hkeys.imp_of_mem ?_
  intro p q hp hq hne heq
  obtain ⟨hpkey, hpname⟩ := h p hp
  obtain ⟨hqkey, hqname⟩ := h q hq
  rcases hpname with hpname | hpname
  · rcases hqname with hqname | hqname
    · exact hne (by rw [← hpname, ← hqname, heq])
    · rw [← hpname, heq, hqname, endsInFromSetup_fromSetup] at hpkey
      exact absurd hpkey (by simp)
  · rcases hqname with hqname | hqname
    · rw [← hqname, ← heq, hpname, endsInFromSetup_fromSetup] at hqkey
      exact absurd hqkey (by simp)
    · exact hne (fromSetup_injective (by rw [← hpname, ← hqname, heq]))

namespace Outline

/-- Each property is recorded at most once, and only if no frame holds it. -/
lemma nodup_keys_gained {scopes : Scopes} {own : Frame} {outer : List Frame}
    (o : Outline Tree Tree) :
    ((o.gained scopes (own :: outer)).map (·.key)).Nodup ∧
      ∀ q ∈ o.gained scopes (own :: outer), Frames.find? (own :: outer) q.key = none := by
  induction o generalizing own with
  | done => simp [gained]
  | setup callback rest ih =>
    let new := freshProperties (scopes.enterFunction callback) (own :: outer)
      callback.contextAccesses
    obtain ⟨hnodup, hnone⟩ := @ih (own ++ new)
    have hkeys : (new.map (·.key)).Nodup := by
      have hsub : new.map (·.key) = callback.contextAccesses.filter
          fun p => (Frames.find? (own :: outer) p).isNone := by
        simp [new, freshProperties, Function.comp_def]
      rw [hsub]
      exact (nodup_contextAccesses callback).filter _
    have hsplit : ∀ q ∈ rest.gained scopes (Frames.extend new (own :: outer)),
        Frames.find? (own :: outer) q.key = none ∧ ∀ p ∈ new, p.key ≠ q.key := fun q hq =>
      Frames.find?_extend_eq_none.1 (hnone q hq)
    rw [gained]
    refine ⟨?_, fun q hq => ?_⟩
    · rw [List.map_append, List.nodup_append]
      refine ⟨hkeys, hnodup, ?_⟩
      intro key hkey key' hkey'
      obtain ⟨p, hp, rfl⟩ := List.mem_map.1 hkey
      obtain ⟨q, hq, rfl⟩ := List.mem_map.1 hkey'
      exact (hsplit q hq).2 p hp
    · rcases List.mem_append.1 hq with hq | hq
      · exact (mem_freshProperties.1 hq).2.1
      · exact (hsplit q hq).1
  | usage callback rest ih => exact ih
  | literal t inner rest _ ih => exact ih

end Outline

/-- How the names declared in a function literal relate to the names that it binds already.  The
trace is that of what the function literal holds. -/
structure Entered.DeclaresApart (e : Entered) (inner : Trace) : Prop where
  /-- No name is declared twice. -/
  nodup : e.names.Nodup
  /-- What is declared are the properties that the setups of the function literal record. -/
  recorded : e.hoisted = inner.setups.flatMap (·.recorded)
  /-- The variable of a property has a name that is bound already if and only if the property is
  bound both by the function literal and by the setup callback that records it. -/
  bound_iff : ∀ k ∈ inner.setups, ∀ q ∈ k.recorded,
    (q.name ∈ e.tree.bindings ↔ q.key ∈ e.tree.bindings ∧ q.key ∈ k.tree.bindings)
  /-- No declared name is bound already if and only if there is no such property. -/
  free_iff : (∀ x ∈ e.names, x ∉ e.tree.bindings) ↔
    ∀ k ∈ inner.setups, ∀ q ∈ k.recorded, q.key ∈ k.tree.bindings → q.key ∉ e.tree.bindings

/-! ### Source files -/

namespace Module

/-- Whether no name and no accessed property of a source file ends as the names do that avoid
others. -/
def avoidsFromSetup (m : Module) : Bool :=
  (Tree.mentionedAll m.items).all fun x => !endsInFromSetup x

lemma not_endsInFromSetup {m : Module} (h : m.avoidsFromSetup = true) {t u : Tree}
    (ht : t ∈ m.items) (hu : t.Has u) {x : String} (hx : x ∈ u.mentioned) :
    endsInFromSetup x = false := by
  have hall := List.all_eq_true.1 h x
    (Tree.mentioned_subset_mentionedAll ht (hu.mentioned_subset hx))
  simpa using hall

/-- The names declared in a function literal are distinct, and they meet others of the same name
only where the function literal and a setup callback both bind a property. -/
theorem redeclares_iff (m : Module) (h : m.avoidsFromSetup = true) :
    Accounts Injects m m.hoistContexts.1 m.traces ∧
      ∀ a ∈ m.traces, ∀ l ∈ a.literals, l.1.DeclaresApart l.2 := by
  refine ⟨m.accounts_hoistContexts fun _ _ u _ => putsInto_injects u, ?_⟩
  rintro a ha ⟨e, inner⟩ hl
  obtain ⟨args, hargs, rfl⟩ := List.mem_map.1 ha
  obtain ⟨t, o, scopes, fs, hmem, rfl, rfl⟩ := Outline.mem_literals_annotate hl
  obtain ⟨k, params, body, rfl, rfl⟩ := (Tree.faithful_outlineLiterals args).of_mem hmem
  have hopened : k.literal params body ∈ (Tree.outlineLiterals args).opened := by
    rw [Outline.opened_eq]
    exact List.mem_map_of_mem hmem
  obtain ⟨item, hitem, hhas⟩ := exists_has hargs (.inr hopened)
  -- nothing in the function literal ends as the names do that avoid others
  have hplain : ∀ x ∈ (k.literal params body).mentioned, endsInFromSetup x = false :=
    fun x hx => not_endsInFromSetup h hitem hhas hx
  have hrecorded := Outline.gained_eq (scopes.enterFunction (k.literal params body)) ([] :: fs)
    (params.outline ++ body.outline)
  have hiff : ∀ c ∈ ((params.outline ++ body.outline).annotate
      (scopes.enterFunction (k.literal params body)) ([] :: fs)).setups, ∀ q ∈ c.recorded,
      (q.name ∈ (k.literal params body).bindings ↔
        q.key ∈ (k.literal params body).bindings ∧ q.key ∈ c.tree.bindings) := by
    intro c hc q hq
    rw [((Outline.mem_setups_annotate hc).2 q hq).2]
    refine hoistedName_mem_bindings _ _ _ fun hmem => ?_
    have hends := hplain _ (Tree.bindings_subset _ hmem)
    rw [endsInFromSetup_fromSetup] at hends
    exact absurd hends (by simp)
  refine ⟨?_, hrecorded, hiff, ?_⟩
  · refine nodup_names (Outline.nodup_keys_gained _).1 fun q hq => ?_
    simp only [hrecorded, List.mem_flatMap] at hq
    obtain ⟨c, hc, hq⟩ := hq
    obtain ⟨hsetup, hproperties⟩ := Outline.mem_setups_annotate hc
    obtain ⟨haccess, hname⟩ := hproperties q hq
    refine ⟨hplain _ ?_, hname ▸ hoistedName_eq_or _ _⟩
    have hcallback : (k.literal params body).Has c.tree :=
      Tree.literal_has_of_mem_handled (Outline.setups_subset_handled _ hsetup)
    exact hcallback.mentioned_subset (Tree.contextAccesses_subset _ haccess)
  · simp only [Entered.names, hrecorded, List.map_flatMap, List.mem_flatMap, List.mem_map]
    constructor
    · intro hfree c hc q hq hcallback hliteral
      exact hfree q.name ⟨c, hc, q, hq, rfl⟩ ((hiff c hc q hq).2 ⟨hliteral, hcallback⟩)
    · rintro hfree _ ⟨c, hc, q, hq, rfl⟩ hmem
      obtain ⟨hliteral, hcallback⟩ := (hiff c hc q hq).1 hmem
      exact hfree c hc q hq hcallback hliteral

/-- A suite and a setup callback that bind the same name:
`describe(function() { let x; before(function() { let x; this.x; }); });`. -/
def bothBind : Module :=
  .ofItems [.callStmt "describe" [.plainFunction [] [
    .letDeclaration "x",
    .callStmt "before" [.plainFunction [] [.letDeclaration "x", .accessStmt "x"]]]]]

theorem redeclares_iff_bothBind :
    bothBind.avoidsFromSetup = true ∧ bothBind.hoistContexts.2.hoisted = ["x"] ∧
      Accounts Injects bothBind bothBind.hoistContexts.1 bothBind.traces ∧
      ∀ a ∈ bothBind.traces, ∀ l ∈ a.literals, l.1.DeclaresApart l.2 :=
  ⟨by decide, by decide +kernel, redeclares_iff bothBind (by decide)⟩

end Module

end ContextHoist
