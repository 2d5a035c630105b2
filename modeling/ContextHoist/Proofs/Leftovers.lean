/-
The accesses that are left in the callbacks of setups and tests.

Accesses are found wherever they stand, also in optional chains, but an access in an optional
chain is never replaced.  So a setup callback keeps these accesses although their properties are
hoisted, and a test keeps them next to the ones without a variable.

* `Tree.chainAccesses`: the properties that a callback accesses in optional chains.
* `contextOccurrences_hoistSetup`, `contextOccurrences_resolveUsage`: what is left, access by
  access.
* `keepsChainAccesses`: what is left, as it is found again.
-/
import ContextHoist.Proofs.Callbacks

namespace ContextHoist

/-- The properties that a callback accesses in optional chains, each at its first occurrence. -/
def Tree.chainAccesses (t : Tree) : List String :=
  ((t.contextOccurrences.filter (·.2)).map (·.1)).eraseDups

lemma Tree.mem_chainAccesses {t : Tree} {p : String} :
    p ∈ t.chainAccesses ↔ (p, true) ∈ t.contextOccurrences := by
  simp [chainAccesses]

/-! ### Setups -/

/-- A setup has a variable for each of its properties. -/
lemma isSome_lookup_setupResolution (scopes : Scopes) (c : ContextId) {ps : List String}
    {p : String} (hp : p ∈ ps) (contexts : ContextTree) :
    ((setupResolution scopes c ps contexts).1.lookup p).isSome = true := by
  induction ps generalizing contexts with
  | nil => exact absurd hp List.not_mem_nil
  | cons q ps ih =>
    rw [setupResolution]
    by_cases hpq : p = q
    · subst hpq
      split <;> simp
    · have hmem : p ∈ ps := (List.mem_cons.1 hp).resolve_left hpq
      have hne : (p == q) = false := beq_eq_false_iff_ne.2 hpq
      split
      · simpa [List.lookup_cons, hne] using ih hmem contexts
      · simpa [List.lookup_cons, hne] using ih hmem _

lemma mem_contextAccesses_of_mem {t : Tree} {o : String × Bool} (h : o ∈ t.contextOccurrences) :
    o.1 ∈ t.contextAccesses := by
  rw [Tree.contextAccesses_eq, List.mem_eraseDups]
  exact List.mem_map_of_mem h

/-- A callback whose properties are resolved keeps the accesses in optional chains and those
without a variable; what is no function literal has no accesses to begin with. -/
lemma contextOccurrences_resolved (scopes : Scopes) {r : Resolution} {callback : Tree}
    (hr : callback.contextAccesses = [] → r = []) :
    (resolveCallback scopes r callback).1.contextOccurrences =
      callback.contextOccurrences.filter (Tree.isKept r) := by
  cases hlit : callback.isFunctionLiteral with
  | true => exact (Tree.contextOccurrences_resolveCallback hlit scopes r).2
  | false =>
    have hnone := Tree.contextOccurrences_of_not hlit
    have haccesses : callback.contextAccesses = [] := by rw [Tree.contextAccesses_eq, hnone]; rfl
    rw [hr haccesses, hnone]
    exact (congrArg _ callback.replaceAccesses_nil).trans hnone

/-- A setup callback keeps its accesses in optional chains, and no others. -/
theorem contextOccurrences_hoistSetup (contexts : ContextTree) (c : ContextId) (scopes : Scopes)
    (callback : Tree) :
    (hoistSetup contexts c scopes callback).1.1.contextOccurrences =
      callback.contextOccurrences.filter (·.2) := by
  refine (contextOccurrences_resolved _ fun hnone => by rw [hnone]; rfl).trans ?_
  refine List.filter_congr fun o ho => ?_
  have hsome := isSome_lookup_setupResolution (scopes.enterFunction callback) c
    (mem_contextAccesses_of_mem ho) contexts
  rw [Tree.isKept, Option.isNone_eq_false_iff.2 hsome, Bool.or_false]

/-! ### Tests -/

/-- A test keeps its accesses in optional chains and those that are reported, and no others. -/
theorem contextOccurrences_resolveUsage (contexts : ContextTree) (c : ContextId)
    (scopes : Scopes) (callback : Tree) :
    (resolveUsage contexts c scopes callback).1.contextOccurrences =
      callback.contextOccurrences.filter fun o =>
        o.2 || decide (o.1 ∈ (resolveUsage contexts c scopes callback).2.unresolved) := by
  refine (contextOccurrences_resolved _ fun hnone => by rw [hnone]; rfl).trans ?_
  refine List.filter_congr fun o ho => ?_
  have hmem := mem_contextAccesses_of_mem ho
  have hnone : (o.1 ∈ unresolved contexts c callback.contextAccesses) ↔
      ((usageResolution contexts c callback.contextAccesses).lookup o.1).isNone = true := by
    rw [usageResolution, lookup_records hmem, Option.isNone_map, unresolved, List.mem_filter]
    exact and_iff_right hmem
  rw [Tree.isKept, Bool.eq_iff_iff, Bool.or_eq_true, Bool.or_eq_true, decide_eq_true_iff, ← hnone]
  rfl

/-- What is reported is accessed, in the order of the report. -/
lemma unresolved_resolveUsage (contexts : ContextTree) (c : ContextId) (scopes : Scopes)
    (callback : Tree) :
    (resolveUsage contexts c scopes callback).2.unresolved = ((callback.contextOccurrences.filter
      fun o => decide (o.1 ∈ (resolveUsage contexts c scopes callback).2.unresolved)).map
        (·.1)).eraseDups := by
  have hself : (resolveUsage contexts c scopes callback).2.unresolved =
      callback.contextAccesses.filter
        fun p => decide (p ∈ (resolveUsage contexts c scopes callback).2.unresolved) := by
    refine List.filter_congr fun p hp => ?_
    rw [Bool.eq_iff_iff, decide_eq_true_iff]
    exact ⟨fun h => List.mem_filter.2 ⟨hp, h⟩, fun h => (List.mem_filter.1 h).2⟩
  conv_lhs => rw [hself, Tree.contextAccesses_eq, ← eraseDups_filter, List.filter_map]
  rfl

/-! ### Both -/

/-- A callback of a setup still accesses what it accesses in optional chains, and nothing else.  A
callback of a test still accesses what is reported and what it accesses in optional chains; it
accesses exactly what is reported if and only if every property that it accesses in an optional
chain is reported. -/
theorem keepsChainAccesses (contexts : ContextTree) (c : ContextId) (scopes : Scopes)
    (callback : Tree) :
    (hoistSetup contexts c scopes callback).1.1.contextAccesses = callback.chainAccesses ∧
      (∀ p, p ∈ (resolveUsage contexts c scopes callback).1.contextAccesses ↔
        p ∈ (resolveUsage contexts c scopes callback).2.unresolved ∨
          p ∈ callback.chainAccesses) ∧
      ((resolveUsage contexts c scopes callback).1.contextAccesses =
          (resolveUsage contexts c scopes callback).2.unresolved ↔
        ∀ p ∈ callback.chainAccesses,
          p ∈ (resolveUsage contexts c scopes callback).2.unresolved) := by
  have hleft := contextOccurrences_resolveUsage contexts c scopes callback
  have hreport := unresolved_resolveUsage contexts c scopes callback
  have haccesses := Tree.contextAccesses_eq (resolveUsage contexts c scopes callback).1
  generalize resolveUsage contexts c scopes callback = result at hleft hreport haccesses ⊢
  rw [hleft] at haccesses
  have hmem : ∀ p, p ∈ result.1.contextAccesses ↔
      p ∈ result.2.unresolved ∨ p ∈ callback.chainAccesses := by
    intro p
    have hreported : p ∈ result.2.unresolved ↔
        (∃ b, (p, b) ∈ callback.contextOccurrences) ∧ p ∈ result.2.unresolved := by
      conv_lhs => rw [hreport]
      simp
    rw [hreported, haccesses, Tree.mem_chainAccesses]
    simp only [List.mem_eraseDups, List.mem_map, List.mem_filter, Bool.or_eq_true,
      decide_eq_true_iff, Prod.exists, exists_and_right, exists_eq_right]
    constructor
    · rintro ⟨b, hocc, rfl | hunresolved⟩
      · exact .inr hocc
      · exact .inl ⟨⟨b, hocc⟩, hunresolved⟩
    · rintro (⟨⟨b, hocc⟩, hunresolved⟩ | hocc)
      · exact ⟨b, hocc, .inr hunresolved⟩
      · exact ⟨true, hocc, .inl rfl⟩
  refine ⟨?_, hmem, ?_, ?_⟩
  · rw [Tree.contextAccesses_eq, contextOccurrences_hoistSetup]
    rfl
  · intro heq p hp
    rw [← heq]
    exact (hmem p).2 (.inr hp)
  · -- an access in an optional chain is kept for its property then, and its place decides nothing
    intro hchains
    have hfilter : callback.contextOccurrences.filter
        (fun o => o.2 || decide (o.1 ∈ result.2.unresolved)) =
        callback.contextOccurrences.filter fun o => decide (o.1 ∈ result.2.unresolved) := by
      refine List.filter_congr ?_
      rintro ⟨p, isChain⟩ ho
      cases isChain with
      | false => rfl
      | true => exact (decide_eq_true (hchains p (Tree.mem_chainAccesses.2 ho))).symm
    rw [haccesses, hfilter, ← hreport]

/-- The function `function() { this?.x; }` stays as it is although `x` is hoisted. -/
example :
    let callback := Tree.plainFunction []
      [.node .exprStmt .nowhere [.chainAccessOf "x" true .nowhere .nowhere .nowhere]]
    (hoistSetup (ContextTree.addRoot {}) 0 .empty callback).1.1.contextAccesses = ["x"] ∧
      (hoistSetup (ContextTree.addRoot {}) 0 .empty callback).2.properties 0 = [⟨"x", "x"⟩] := by
  decide +kernel

end ContextHoist
