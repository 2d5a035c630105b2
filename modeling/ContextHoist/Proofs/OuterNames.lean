/-
Names that lead out of a callback, and the variables that make way.

A variable of a callback that makes way is renamed everywhere in the callback.  The conversion
counts it for the whole callback, but in the language it may be bound in one block only, and then
the same name can lead out of the callback elsewhere.  There it is renamed as well.  All other
names that lead out stay.

* `Tree.contextReferences`: the names and the accesses of a callback in order, and which of the
  names lead out.
* `Tree.mentions_rename`, `Tree.mentions_replaceOwn`: what becomes of them, one by one.
* `KeepsOuter`: the names that lead out of a callback are kept.
* `renamesMoved`: all of them are, except for those that are called like a variable that makes way.
-/
import Mathlib.Data.List.Forall2
import ContextHoist.Proofs.Locals
import ContextHoist.Proofs.References

namespace ContextHoist

namespace Tree

/-! ### Names and accesses of a callback -/

/-- The names in a callback and the accesses that belong to it, in order, each with whether it is a
name that leads out of the callback. -/
def contextReferences : Tree → List (Mention × Bool)
  | functionExpr s self isAsync isGenerator fs params decorators body typeParams result =>
    let f := node (.function isAsync isGenerator) fs [params, decorators, body, typeParams, result]
    let own := Surroundings.empty.part (node .functionExpr s [self, f])
    let inner := (own 1).part f
    self.references false (own 0) ++ params.references true (inner 0) ++
      decorators.references false (inner 1) ++ body.references true (inner 2) ++
      typeParams.references false (inner 3) ++ result.references false (inner 4)
  | arrow s isAsync params body typeParams result =>
    let inner := Surroundings.empty.part (arrow s isAsync params body typeParams result)
    params.references true (inner 0) ++ body.references true (inner 1) ++
      typeParams.references false (inner 2) ++ result.references false (inner 3)
  | t => t.references false .empty

/-- The names in a callback and the accesses that belong to it, in order. -/
def contextMentions : Tree → List Mention
  | functionExpr _ self _ _ _ params decorators body typeParams result =>
    self.mentions false ++ params.mentions true ++ decorators.mentions false ++
      body.mentions true ++ typeParams.mentions false ++ result.mentions false
  | arrow _ _ params body typeParams result =>
    params.mentions true ++ body.mentions true ++ typeParams.mentions false ++
      result.mentions false
  | t => t.mentions false

lemma map_fst_contextReferences (t : Tree) :
    t.contextReferences.map (·.1) = t.contextMentions := by
  unfold contextReferences contextMentions
  split <;> simp [map_fst_references]

end Tree

/-! ### One level of a phrase -/

/-- The parts of a phrase in which there are references: the labels of statements are none. -/
def Label.referring (ts : List Tree) : Label → List Tree
  | labeled => ts.drop 1
  | breakStmt | continueStmt => []
  | _ => ts

lemma Label.mem_of_mem_referring {l : Label} {ts : List Tree} {t : Tree} (h : t ∈ l.referring ts) :
    t ∈ ts := by
  unfold referring at h
  split at h
  · exact List.mem_of_mem_drop h
  · exact absurd h List.not_mem_nil
  · exact absurd h List.not_mem_nil
  · exact h

lemma Label.referring_map (f : Tree → Tree) (l : Label) (ts : List Tree) :
    l.referring (ts.map f) = (l.referring ts).map f := by
  unfold referring
  split <;> simp

namespace Tree

lemma mentions_node (own : Bool) (l : Label) (s : Span) (ts : List Tree) :
    (node l s ts).mentions own =
      match (node l s ts).asName?, (node l s ts).memberAccessed? with
      | some x, _ => [.name x]
      | none, some p => if own then [.access p] else []
      | none, none => (l.referring ts).flatMap (mentions (own && !l.isBoundary)) := by
  unfold mentions
  split
  case h_5 =>
    next hname hlabeled hbreak hcontinue heq =>
      obtain ⟨rfl, rfl, rfl⟩ := Tree.node.inj heq
      have hnone : (node l s ts).asName? = none := by
        unfold asName?
        split
        · next heq => exact absurd (Tree.node.inj heq).1 (hname _)
        · rfl
      have hparts : l.referring ts = ts := by
        unfold Label.referring
        split
        · cases ts with
          | nil => rfl
          | cons t ts => exact absurd rfl (hlabeled t ts rfl)
        · exact absurd rfl hbreak
        · exact absurd rfl hcontinue
        · rfl
      rw [hnone, hparts, mentionsAll_eq]
      split <;> simp [*]
  all_goals
    rename_i heq
    obtain ⟨rfl, rfl, rfl⟩ := Tree.node.inj heq
    simp [asName?, memberAccessed?, Label.referring, Label.isBoundary, mentionsAll_eq]

lemma asName?_map (f : Tree → Tree) (l : Label) (s : Span) (ts : List Tree) :
    (node l s (ts.map f)).asName? = (node l s ts).asName? := by
  cases l <;> rfl

lemma memberAccessed?_map {f : Tree → Tree} (hf : KeepsLeaves f) (l : Label) (s : Span)
    (ts : List Tree) : (node l s (ts.map f)).memberAccessed? = (node l s ts).memberAccessed? := by
  rw [memberAccessed?, memberAccessed?, hf.accessed?]
  rfl

end Tree

/-! ### Renaming and replacing -/

namespace Mention

/-- The mention with another name. -/
def mapName (f : String → String) : Mention → Mention
  | name x => name (f x)
  | access p => access p

lemma mapName_id : mapName (fun x => x) = id := by
  funext m
  cases m <;> rfl

lemma mapName_mapName (g f : String → String) (m : Mention) :
    (m.mapName f).mapName g = m.mapName fun x => g (f x) := by
  cases m <;> rfl

/-- The mention with a variable in place of an access. -/
def resolve (find : String → Option String) : Mention → Mention
  | name x => name x
  | access p => (find p).elim (access p) name

end Mention

namespace Tree

lemma mentions_withDefault (own : Bool) (x : String) (s : Span) (value : Tree) :
    (withDefault (name x s) value).mentions own = .name x :: value.mentions own := by
  unfold withDefault
  split <;> simp [mentions, mentionsAll, memberAccessed?, Label.isBoundary]

/-- The names of a phrase are renamed one by one. -/
lemma mentions_rename (own : Bool) (a b : String) (t : Tree) :
    (t.rename a b).mentions own = (t.mentions own).map (Mention.mapName (renamed a b)) := by
  induction t using Tree.induct generalizing own with
  | node l s ts ih =>
    unfold rename
    split
    · next heq =>
      obtain ⟨rfl, rfl, rfl⟩ := Tree.node.inj heq
      rfl
    · next heq =>
      obtain ⟨rfl, rfl, rfl⟩ := Tree.node.inj heq
      split <;> simp [mentions, mentionsAll, memberAccessed?, Mention.mapName, renamed, *]
    · next value heq =>
      obtain ⟨rfl, rfl, rfl⟩ := Tree.node.inj heq
      have hvalue := ih value (.tail _ (.head _))
      split <;> simp [mentions, mentionsAll, memberAccessed?, Label.isBoundary, Mention.mapName,
        renamed, mentions_withDefault, *]
    · next hname _ _ heq =>
      obtain ⟨rfl, rfl, rfl⟩ := Tree.node.inj heq
      have hnone : (node l s ts).asName? = none := by
        unfold asName?
        split
        · next heq => exact absurd (Tree.node.inj heq).1 (hname _)
        · rfl
      rw [renameAll_eq, mentions_node, mentions_node, asName?_map, hnone,
        memberAccessed?_map (keepsLeaves_rename a b), Label.referring_map, List.flatMap_map]
      cases (node l s ts).memberAccessed? with
      | some p => cases own <;> rfl
      | none =>
        simp only [List.map_flatMap]
        exact List.flatMap_congr fun t ht => ih t (Label.mem_of_mem_referring ht) _

/-- In phrases with a scope of their own nothing is replaced. -/
lemma map_resolve_mentions_false (find : String → Option String) (t : Tree) :
    (t.mentions false).map (Mention.resolve find) = t.mentions false := by
  induction t using Tree.induct with
  | node l s ts ih =>
    rw [mentions_node]
    cases (node l s ts).asName? with
    | some x => rfl
    | none =>
      cases (node l s ts).memberAccessed? with
      | some p => rfl
      | none =>
        simp only [List.map_flatMap]
        exact List.flatMap_congr fun t ht => ih t (Label.mem_of_mem_referring ht)

/-- Whether accesses count makes no difference to a phrase with a scope of its own. -/
lemma mentions_of_isBoundary {l : Label} (hl : l.isBoundary = true) (s : Span) (ts : List Tree) :
    (node l s ts).mentions true = (node l s ts).mentions false := by
  have hnone : (node l s ts).memberAccessed? = none := by
    rw [memberAccessed?, accessed?_of_isBoundary hl, ite_self]
  rw [mentions_node, mentions_node, hnone, hl]
  cases (node l s ts).asName? <;> rfl

/-- The accesses of a phrase are replaced one by one. -/
lemma mentions_replaceOwn (r : Resolution) (t : Tree) :
    (t.replaceOwn r).mentions true = (t.mentions true).map (Mention.resolve (r.lookup ·)) := by
  induction t using Tree.induct with
  | node l s ts ih =>
    rcases replaceOwn_cases r l s ts with ⟨p, this, prop, x, rfl, rfl, hx, hname⟩ |
      ⟨hl, hself⟩ | ⟨hl, hnone, hmap⟩
    · simp [hname, mentions, memberAccessed?, accessed?, Mention.resolve, hx]
    · rw [hself, mentions_of_isBoundary hl, map_resolve_mentions_false]
    · rw [hmap, mentions_node, mentions_node, asName?_map,
        memberAccessed?_map (keepsLeaves_replaceOwn r), Label.referring_map, List.flatMap_map]
      rw [replacement?_eq] at hnone
      cases (node l s ts).asName? with
      | some x => rfl
      | none =>
        cases haccess : (node l s ts).memberAccessed? with
        | some p =>
          rw [haccess, Option.bind_some] at hnone
          simp [Mention.resolve, hnone]
        | none =>
          simp only [hl, List.map_flatMap]
          exact List.flatMap_congr fun t ht => ih t (Label.mem_of_mem_referring ht)

/-- Only the accesses that belong to a phrase count. -/
lemma mem_ownAccesses_of_access {own : Bool} {p : String} {t : Tree}
    (h : .access p ∈ t.mentions own) : own = true ∧ p ∈ t.ownAccesses := by
  induction t using Tree.induct generalizing own with
  | node l s ts ih =>
    rw [mentions_node] at h
    cases hname : (node l s ts).asName? with
    | some x => simp [hname] at h
    | none =>
      cases haccess : (node l s ts).memberAccessed? with
      | some q =>
        rw [hname, haccess] at h
        cases own with
        | false => exact absurd h List.not_mem_nil
        | true =>
          have hq : p = q := by simpa using h
          have haccessed : (node l s ts).accessed? = some q := by
            unfold memberAccessed? at haccess
            split at haccess
            · exact haccess
            · exact absurd haccess (by simp)
          simp [ownAccesses, haccessed, hq]
      | none =>
        rw [hname, haccess] at h
        obtain ⟨t, ht, hp⟩ := List.mem_flatMap.1 h
        have ht := Label.mem_of_mem_referring ht
        obtain ⟨hown, hp⟩ := ih t ht hp
        rw [Bool.and_eq_true, Bool.not_eq_true'] at hown
        exact ⟨hown.1, ownAccesses_part hown.2 ht hp⟩

/-! ### Callbacks -/

lemma contextMentions_of_not {t : Tree} (h : t.isFunctionLiteral = false) :
    t.contextMentions = t.mentions false := by
  unfold contextMentions
  split
  · exact absurd h (by simp [isFunctionLiteral])
  · exact absurd h (by simp [isFunctionLiteral])
  · rfl

/-- The accesses in a callback are of properties that it accesses. -/
lemma mem_contextAccesses_of_access {p : String} {t : Tree} (h : .access p ∈ t.contextMentions) :
    p ∈ t.contextAccesses := by
  have hfalse : ∀ u : Tree, .access p ∉ u.mentions false := fun u hu =>
    absurd (mem_ownAccesses_of_access hu).1 (by simp)
  cases hlit : t.isFunctionLiteral with
  | true =>
    obtain ⟨k, params, body, rfl⟩ := exists_shell hlit
    rw [Shell.contextAccesses_literal, List.mem_eraseDups, List.mem_append]
    have hor : .access p ∈ params.mentions true ∨ .access p ∈ body.mentions true := by
      cases k <;> simpa [Shell.literal, contextMentions, hfalse] using h
    exact hor.imp (fun h => (mem_ownAccesses_of_access h).2)
      fun h => (mem_ownAccesses_of_access h).2
  | false =>
    rw [contextMentions_of_not hlit] at h
    exact absurd h (hfalse t)

lemma contextMentions_foldl_rename (locals : List String) {t : Tree}
    (ht : t.isFunctionLiteral = true) :
    let t' := locals.foldl (fun t x => t.rename x (fromSetup x)) t
    t'.isFunctionLiteral = true ∧ t'.contextMentions = t.contextMentions.map
      (Mention.mapName fun y => locals.foldl (fun y x => renamed x (fromSetup x) y) y) := by
  induction locals generalizing t with
  | nil => exact ⟨ht, by simp [Mention.mapName_id]⟩
  | cons x locals ih =>
    have hone : (t.rename x (fromSetup x)).contextMentions =
        t.contextMentions.map (Mention.mapName (renamed x (fromSetup x))) := by
      obtain ⟨k, params, body, rfl⟩ := exists_shell ht
      cases k <;> simp [Shell.literal, rename, renameAll, contextMentions, mentions_rename]
    obtain ⟨hlit, hmentions⟩ := ih (isFunctionLiteral_rename x (fromSetup x) ht)
    refine ⟨hlit, ?_⟩
    rw [List.foldl_cons, hmentions, hone, List.map_map]
    exact List.map_congr_left fun m _ => Mention.mapName_mapName _ _ m

lemma contextMentions_replaceAccesses (r : Resolution) {t : Tree}
    (ht : t.isFunctionLiteral = true) :
    (t.replaceAccesses r).contextMentions =
      t.contextMentions.map (Mention.resolve (r.lookup ·)) := by
  obtain ⟨k, params, body, rfl⟩ := exists_shell ht
  rw [replaceAccesses_literal]
  cases k <;> simp [Shell.literal, contextMentions, mentions_replaceOwn,
    map_resolve_mentions_false]

end Tree

/-- What stands in a callback afterwards in place of a mention: a name stays or makes way, and an
access becomes the variable that is found. -/
def Mention.rewritten (contexts : ContextTree) (c : ContextId) (locals : List String)
    (m : Mention) : Mention :=
  (m.mapName (madeWay locals)).resolve fun p => (contexts.find? c p).map (·.name)

@[simp] lemma Mention.rewritten_name (contexts : ContextTree) (c : ContextId)
    (locals : List String) (x : String) :
    (Mention.name x).rewritten contexts c locals = .name (madeWay locals x) := rfl

/-- The mentions of a callback are rewritten one by one. -/
lemma Tree.contextMentions_resolveCallback (contexts : ContextTree) (c : ContextId)
    (scopes : Scopes) {callback : Tree}
    (hplain : ∀ x ∈ callback.bindings, endsInFromSetup x = false) :
    (resolveCallback (scopes.enterFunction callback)
      (usageResolution contexts c callback.contextAccesses) callback).1.contextMentions =
        callback.contextMentions.map (Mention.rewritten contexts c
          (callback.movedLocals contexts c)) := by
  have hclashes := clashes_usageResolution contexts c scopes callback
  cases hlit : callback.isFunctionLiteral with
  | true =>
    obtain ⟨hlit', hmentions⟩ :=
      contextMentions_foldl_rename (callback.movedLocals contexts c) hlit
    have hmoved : ∀ x ∈ callback.movedLocals contexts c, endsInFromSetup x = false := fun x hx =>
      hplain x (mem_movedLocals.1 hx).2.2
    rw [resolveCallback, hclashes, contextMentions_replaceAccesses _ hlit', hmentions,
      List.map_map]
    refine List.map_congr_left fun m hm => ?_
    rw [Function.comp_apply, Mention.rewritten, funext (foldl_renamed hmoved)]
    cases m with
    | name x => rfl
    | access p =>
      have hp := mem_contextAccesses_of_access hm
      simp only [Mention.mapName, Mention.resolve, usageResolution, lookup_records hp]
  | false =>
    obtain ⟨hmoved, hself⟩ := resolveCallback_of_not hlit contexts c scopes
    have hrewritten : Mention.rewritten contexts c [] =
        Mention.resolve fun p => (contexts.find? c p).map (·.name) := by
      funext m
      cases m <;> rfl
    rw [hself, hmoved, hrewritten, contextMentions_of_not hlit, map_resolve_mentions_false]

/-! ### Names that lead out -/

/-- Every name that leads out of the callback is the same afterwards, place by place. -/
def KeepsOuter (callback result : Tree) : Prop :=
  List.Forall₂ (fun m m' => ∀ x, m = (.name x, true) → m'.1 = .name x) callback.contextReferences
    result.contextReferences

/-- What becomes of the names in a callback, above all of those that lead out of it. -/
structure RenamesMoved (contexts : ContextTree) (c : ContextId) (callback result : Tree) :
    Prop where
  /-- Names and accesses are rewritten one by one. -/
  rewritten : result.contextReferences.map (·.1) = callback.contextReferences.map fun m =>
    m.1.rewritten contexts c (callback.movedLocals contexts c)
  /-- A name that leads out of the callback is kept, unless a variable of that name makes way. -/
  kept : List.Forall₂ (fun m m' => ∀ x, m = (.name x, true) →
      x ∉ callback.movedLocals contexts c → m'.1 = .name x)
    callback.contextReferences result.contextReferences
  /-- All names that lead out are kept if and only if no variable of such a name makes way. -/
  keepsOuter_iff : KeepsOuter callback result ↔
    ∀ p ∈ callback.movedLocals contexts c, (.name p, true) ∉ callback.contextReferences

/-- Two lists are compared place by place if the second is given by the first. -/
lemma forall₂_fst_iff {l l' : List (Mention × Bool)} {f : Mention × Bool → Mention}
    (h : l'.map (·.1) = l.map f) (R : Mention × Bool → Mention → Prop) :
    List.Forall₂ (fun m m' => R m m'.1) l l' ↔ ∀ m ∈ l, R m (f m) := by
  rw [← List.forall₂_map_right_iff, h, List.forall₂_map_right_iff, List.forall₂_same]

/-- A callback that is rewritten with the variables that are found. -/
lemma renamesMoved_resolveCallback (contexts : ContextTree) (c : ContextId) (scopes : Scopes)
    {callback : Tree} (hplain : ∀ x ∈ callback.bindings, endsInFromSetup x = false) :
    RenamesMoved contexts c callback (resolveCallback (scopes.enterFunction callback)
      (usageResolution contexts c callback.contextAccesses) callback).1 := by
  have hrewritten : (resolveCallback (scopes.enterFunction callback)
      (usageResolution contexts c callback.contextAccesses) callback).1.contextReferences.map
        (·.1) = callback.contextReferences.map fun m =>
          m.1.rewritten contexts c (callback.movedLocals contexts c) := by
    rw [Tree.map_fst_contextReferences, Tree.contextMentions_resolveCallback _ _ _ hplain,
      ← Tree.map_fst_contextReferences, List.map_map]
    rfl
  refine ⟨hrewritten, ?_, ?_⟩
  · rw [forall₂_fst_iff hrewritten fun m n => ∀ x, m = (.name x, true) →
      x ∉ callback.movedLocals contexts c → n = .name x]
    rintro m - x rfl hx
    simp [madeWay, hx]
  · rw [KeepsOuter, forall₂_fst_iff hrewritten fun m n => ∀ x, m = (.name x, true) → n = .name x]
    constructor
    · intro hkept p hp hmem
      have hname := hkept _ hmem p rfl
      have hself : fromSetup p = p := by
        simpa [madeWay, hp] using hname
      exact fromSetup_ne (hplain p (Tree.mem_movedLocals.1 hp).2.2) p hself
    · rintro hout m hm x rfl
      have hx : x ∉ callback.movedLocals contexts c := fun hx => hout x hx hm
      simp [madeWay, hx]

/-- In a setup and in a test, every name that leads out of the callback is kept, except for those
that are called like a variable of the callback that makes way. -/
theorem renamesMoved (contexts : ContextTree) (c : ContextId) (hc : c < contexts.size)
    (scopes : Scopes) (callback : Tree)
    (hplain : ∀ x ∈ callback.bindings, endsInFromSetup x = false) :
    RenamesMoved (hoistSetup contexts c scopes callback).2 c callback
        (hoistSetup contexts c scopes callback).1.1 ∧
      RenamesMoved contexts c callback (resolveUsage contexts c scopes callback).1 := by
  refine ⟨?_, renamesMoved_resolveCallback contexts c scopes hplain⟩
  rw [hoistSetup_eq_resolveCallback hc]
  exact renamesMoved_resolveCallback _ c scopes hplain

/-- The callback `function() { if (a) { let x; } this.x = x; }`. -/
def bindsInBlock : Tree :=
  .plainFunction [] [
    .node .ifStmt .nowhere
      [.name "a" .nowhere, .node .block .nowhere [.letDeclaration "x"], .absent],
    .node .exprStmt .nowhere [.node (.assign "=") .nowhere
      [.accessOf "x" .nowhere .nowhere .nowhere, .name "x" .nowhere]]]

theorem renamesMoved_bindsInBlock :
    0 < (ContextTree.addRoot {}).size ∧
      bindsInBlock.contextReferences =
        [(.name "a", true), (.name "x", false), (.access "x", false), (.name "x", true)] ∧
      bindsInBlock.movedLocals
        (hoistSetup (ContextTree.addRoot {}) 0 .empty bindsInBlock).2 0 = ["x"] ∧
      RenamesMoved (hoistSetup (ContextTree.addRoot {}) 0 .empty bindsInBlock).2 0 bindsInBlock
        (hoistSetup (ContextTree.addRoot {}) 0 .empty bindsInBlock).1.1 :=
  ⟨by decide, by decide +kernel, by decide +kernel,
    (renamesMoved (ContextTree.addRoot {}) 0 (by decide) .empty bindsInBlock
      (by decide +kernel)).1⟩

/-- The last name of the callback leads out of it and is renamed. -/
theorem not_keepsOuter_bindsInBlock :
    (∀ x ∈ bindsInBlock.mentioned, endsInFromSetup x = false) ∧
      ¬KeepsOuter bindsInBlock
        (hoistSetup (ContextTree.addRoot {}) 0 .empty bindsInBlock).1.1 := by
  refine ⟨by decide +kernel, fun h => ?_⟩
  have hlast := (List.forall₂_iff_get.1 h).2 3 (by decide +kernel) (by decide +kernel) "x"
    (by decide +kernel)
  exact absurd hlast (by decide +kernel)

end ContextHoist
