/-
What setups assign, and what they hoist.

An assignment writes its target, an update its operand, and a loop over the elements or the keys of
an object its head; the target may be a pattern with several leaves.  A setup hoists every property
that its callback accesses, whether it writes the property or only reads it.

* `Tree.targets`: the properties that a target writes.
* `Tree.contextWrites`: the properties that a callback writes.
* `Tree.contextWrites_subset`: these are accessed.
* `hoistsAccessed`: what a setup hoists besides the properties that it writes.
-/
import ContextHoist.Proofs.Callbacks
import ContextHoist.Proofs.Variables

namespace ContextHoist

namespace Tree

/-! ### Written properties -/

mutual

/-- The properties that are written if the phrase is the target of an assignment: the phrase itself
may be an access, also in parentheses or under a type, or it is a pattern with accesses as
leaves. -/
def targets : Tree → List String
  | accessOf p _ _ _ => [p]
  | chainAccessOf p _ _ _ _ => [p]
  | node .paren _ (t :: _) => t.targets
  | node .nonNull _ (t :: _) => t.targets
  | node .asExpr _ (t :: _) => t.targets
  | node .constAssertion _ (t :: _) => t.targets
  | node .satisfiesExpr _ (t :: _) => t.targets
  | node .typeAssertion _ (t :: _) => t.targets
  | node .arrayPattern _ ts => targetsAll ts
  | node .objectPattern _ ts => targetsAll ts
  | node .restPattern _ (t :: _) => t.targets
  | node .defaultPattern _ (t :: _) => t.targets
  | node .keyValuePattern _ (_ :: t :: _) => t.targets
  | _ => []

/-- The properties that some targets write. -/
def targetsAll : List Tree → List String
  | [] => []
  | t :: ts => t.targets ++ targetsAll ts

end

/-- The properties that a phrase writes itself: an assignment writes its target, an update its
operand, and a loop its head. -/
def writes : Tree → List String
  | node (.assign _) _ (target :: _) => target.targets
  | node (.update _ _) _ (operand :: _) => operand.targets
  | node .forInStmt _ (head :: _) => head.targets
  | node (.forOfStmt _) _ (head :: _) => head.targets
  | _ => []

mutual

/-- The properties written in a phrase, outside of phrases with a scope of their own. -/
def ownWrites : Tree → List String
  | node l s ts => if l.isBoundary then [] else (node l s ts).writes ++ ownWritesAll ts

/-- The properties written in a list of phrases. -/
def ownWritesAll : List Tree → List String
  | [] => []
  | t :: ts => t.ownWrites ++ ownWritesAll ts

end

/-- The properties that a callback writes in its parameters and its body. -/
def contextWrites : Tree → List String
  | functionExpr _ _ _ _ _ params _ body _ _ => params.ownWrites ++ body.ownWrites
  | arrow _ _ params body _ _ => params.ownWrites ++ body.ownWrites
  | _ => []

/-! ### Written properties are accessed -/

lemma targetsAll_eq (ts : List Tree) : targetsAll ts = ts.flatMap targets := by
  induction ts with
  | nil => rfl
  | cons t ts ih => rw [targetsAll, ih, List.flatMap_cons]

lemma ownWritesAll_eq (ts : List Tree) : ownWritesAll ts = ts.flatMap ownWrites := by
  induction ts with
  | nil => rfl
  | cons t ts ih => rw [ownWritesAll, ih, List.flatMap_cons]

/-- What a target writes is accessed in it. -/
lemma targets_subset (t : Tree) : t.targets ⊆ t.ownAccesses := by
  induction t using Tree.induct with
  | node l s ts ih =>
    unfold targets
    split
    case h_14 => simp
    all_goals
      rename_i heq
      obtain ⟨rfl, rfl, rfl⟩ := Tree.node.inj heq
    case h_1 => simp [ownAccesses, accessed?]
    case h_2 => simp [ownAccesses, accessed?]
    case h_9 | h_10 =>
      rw [targetsAll_eq]
      intro p hp
      obtain ⟨t, ht, hp⟩ := List.mem_flatMap.1 hp
      exact ownAccesses_part rfl ht (ih t ht hp)
    case h_13 =>
      exact fun p hp => ownAccesses_part rfl (.tail _ (.head _)) (ih _ (.tail _ (.head _)) hp)
    all_goals
      exact fun p hp => ownAccesses_part rfl (.head _) (ih _ (.head _) hp)

/-- What a phrase writes is accessed in it. -/
lemma writes_subset (t : Tree) : t.writes ⊆ t.ownAccesses := by
  unfold writes
  split
  case h_5 => simp
  all_goals
    exact fun p hp => ownAccesses_part rfl (.head _) (targets_subset _ hp)

lemma ownWrites_subset (t : Tree) : t.ownWrites ⊆ t.ownAccesses := by
  induction t using Tree.induct with
  | node l s ts ih =>
    rw [ownWrites]
    split
    · simp
    · next hl =>
      refine List.append_subset.2 ⟨writes_subset _, fun p hp => ?_⟩
      rw [ownWritesAll_eq] at hp
      obtain ⟨t, ht, hp⟩ := List.mem_flatMap.1 hp
      exact ownAccesses_part (by simpa using hl) ht (ih t ht hp)

lemma contextWrites_literal (k : Shell) (params body : Tree) :
    (k.literal params body).contextWrites = params.ownWrites ++ body.ownWrites := by
  cases k <;> rfl

lemma contextWrites_of_not {t : Tree} (h : t.isFunctionLiteral = false) : t.contextWrites = [] := by
  unfold contextWrites
  split
  · exact absurd h (by simp [isFunctionLiteral])
  · exact absurd h (by simp [isFunctionLiteral])
  · rfl

/-- A callback accesses what it writes. -/
theorem contextWrites_subset (t : Tree) : t.contextWrites ⊆ t.contextAccesses := by
  cases hlit : t.isFunctionLiteral with
  | false => simp [contextWrites_of_not hlit]
  | true =>
    obtain ⟨k, params, body, rfl⟩ := exists_shell hlit
    rw [contextWrites_literal, Shell.contextAccesses_literal]
    intro p hp
    rw [List.mem_eraseDups, List.mem_append]
    rcases List.mem_append.1 hp with hp | hp
    · exact .inl (params.ownWrites_subset hp)
    · exact .inr (body.ownWrites_subset hp)

end Tree

/-! ### Setups -/

/-- How the properties that a setup records in a context relate to those that its callback
writes. -/
structure HoistsAccessed (before after : ContextTree) (c : ContextId) (callback : Tree)
    (new : List Property) : Prop where
  /-- The new properties go behind those that the context holds. -/
  recorded : after.properties c = before.properties c ++ new
  /-- No other context gains or loses anything. -/
  elsewhere : ∀ d, d ≠ c → after.properties d = before.properties d
  /-- The new properties are those that the callback accesses and that are not found. -/
  mem_iff : ∀ p, p ∈ new.map (·.key) ↔ p ∈ callback.contextAccesses ∧ before.find? c p = none
  /-- Whatever the callback writes is found or new. -/
  written : ∀ p ∈ callback.contextWrites, p ∈ new.map (·.key) ∨ (before.find? c p).isSome = true
  /-- Nothing but written properties is new if and only if every property that the callback only
  reads is found. -/
  onlyWritten_iff : (∀ q ∈ new, q.key ∈ callback.contextWrites) ↔
    ∀ p ∈ callback.contextAccesses, p ∉ callback.contextWrites → (before.find? c p).isSome = true

/-- A setup hoists what its callback writes, and also what its callback only reads. -/
theorem hoistsAccessed (contexts : ContextTree) (c : ContextId) (hc : c < contexts.size)
    (scopes : Scopes) (callback : Tree) :
    HoistsAccessed contexts (hoistSetup contexts c scopes callback).2 c callback
      (contexts.fresh c (scopes.enterFunction callback) callback.contextAccesses) := by
  obtain ⟨hrecorded, helsewhere⟩ := properties_hoistSetup hc scopes callback
  have hmem : ∀ p, p ∈ (contexts.fresh c (scopes.enterFunction callback)
      callback.contextAccesses).map (·.key) ↔
        p ∈ callback.contextAccesses ∧ contexts.find? c p = none := fun p =>
    ContextTree.mem_keys_fresh
  refine ⟨hrecorded, helsewhere, hmem, ?_, ?_, ?_⟩
  · intro p hp
    cases hfound : contexts.find? c p with
    | none => exact .inl ((hmem p).2 ⟨callback.contextWrites_subset hp, hfound⟩)
    | some found => exact .inr rfl
  · intro honly p haccess hread
    by_contra hnone
    obtain ⟨q, hq, rfl⟩ := List.mem_map.1 ((hmem p).2 ⟨haccess, by simpa using hnone⟩)
    exact hread (honly q hq)
  · intro hfound q hq
    obtain ⟨haccess, hnone⟩ := (hmem q.key).1 (List.mem_map_of_mem hq)
    by_contra hread
    simpa [hnone] using hfound q.key haccess hread

/-- The callback `function() { this.timeout(); this.x = 1; }`. -/
def callsAndAssigns : Tree :=
  .plainFunction [] [
    .node .exprStmt .nowhere [.call .nowhere (.accessOf "timeout" .nowhere .nowhere .nowhere)
      .nowhere [] .absent],
    .node .exprStmt .nowhere [.node (.assign "=") .nowhere
      [.accessOf "x" .nowhere .nowhere .nowhere, .node (.number "1") .nowhere []]]]

theorem hoistsAccessed_callsAndAssigns :
    0 < (ContextTree.addRoot {}).size ∧ callsAndAssigns.contextWrites = ["x"] ∧
      (hoistSetup (ContextTree.addRoot {}) 0 .empty callsAndAssigns).2.properties 0 =
        [⟨"timeout", "timeout"⟩, ⟨"x", "x"⟩] ∧
      HoistsAccessed (ContextTree.addRoot {})
        (hoistSetup (ContextTree.addRoot {}) 0 .empty callsAndAssigns).2 0 callsAndAssigns
        (ContextTree.fresh (ContextTree.addRoot {}) 0 (Scopes.empty.enterFunction callsAndAssigns)
          callsAndAssigns.contextAccesses) :=
  ⟨by decide, by decide, by decide +kernel,
    hoistsAccessed (ContextTree.addRoot {}) 0 (by decide) .empty callsAndAssigns⟩

end ContextHoist
