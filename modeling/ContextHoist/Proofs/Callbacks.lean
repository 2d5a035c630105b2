/-
What is left of the accesses of a callback.

* `Tree.ownOccurrences_rename`, `Tree.ownOccurrences_replaceOwn`: renaming keeps the accesses, and
  replacing leaves those without a variable and those in optional chains.
* `Tree.contextOccurrences_resolveCallback`: the accesses that are left in a callback.
* `Handled.contextAccesses_result`: they are those without a variable, unless some stand in
  optional chains.
-/
import ContextHoist.Proofs.Accesses
import ContextHoist.Proofs.Trace

namespace ContextHoist

namespace Tree

/-! ### Renaming -/

lemma renameAll_eq (a b : String) (ts : List Tree) : renameAll a b ts = ts.map (rename a b) := by
  induction ts with
  | nil => rfl
  | cons t ts ih => rw [renameAll, ih, List.map_cons]

lemma rename_leaf {a b : String} {t : Tree} {l : Label} {s : Span}
    (hl : l = .thisExpr ∨ ∃ p, l = .key p) (h : t.rename a b = node l s []) : t = node l s [] := by
  unfold rename at h
  split at h
  · obtain ⟨rfl, -, -⟩ := Tree.node.inj h
    exact absurd hl (by simp)
  · split at h
    · obtain ⟨rfl, -, -⟩ := Tree.node.inj h
      exact absurd hl (by simp)
    · obtain ⟨rfl, -, -⟩ := Tree.node.inj h
      exact absurd hl (by simp)
  · split at h
    · obtain ⟨rfl, -, -⟩ := Tree.node.inj h
      exact absurd hl (by simp)
    · obtain ⟨rfl, -, -⟩ := Tree.node.inj h
      exact absurd hl (by simp)
  · next ts _ _ _ =>
    obtain ⟨rfl, rfl, hts⟩ := Tree.node.inj h
    cases ts with
    | nil => rfl
    | cons u us => exact absurd hts (by simp [renameAll])

lemma keepsLeaves_rename (a b : String) : KeepsLeaves (rename a b) := by
  intro t s
  refine ⟨⟨rename_leaf (.inl rfl), ?_⟩, fun p => ⟨rename_leaf (.inr ⟨p, rfl⟩), ?_⟩⟩
  · rintro rfl
    rfl
  · rintro rfl
    rfl

lemma ownOccurrences_withDefault (x : String) (s : Span) (value : Tree) :
    (withDefault (name x s) value).ownOccurrences = value.ownOccurrences := by
  unfold withDefault
  split
  · simp [ownOccurrences, ownOccurrencesAll, accessed?]
  · rw [ownOccurrences, accessed?_eq_none (by simp)]
    simp [ownOccurrences, ownOccurrencesAll, accessed?, Label.isBoundary]

/-- Renaming a variable changes no access. -/
lemma ownOccurrences_rename (a b : String) (t : Tree) :
    (t.rename a b).ownOccurrences = t.ownOccurrences := by
  induction t using Tree.induct with
  | node l s ts ih =>
    have hall : ownOccurrencesAll (ts.map (rename a b)) = ownOccurrencesAll ts := by
      rw [ownOccurrencesAll_eq, ownOccurrencesAll_eq, List.flatMap_map]
      exact List.flatMap_congr ih
    unfold rename
    split
    · next heq =>
      obtain ⟨rfl, rfl, rfl⟩ := Tree.node.inj heq
      rw [renameAll_eq]
      simp [ownOccurrences, accessed?, Label.isBoundary, hall]
    · next heq =>
      obtain ⟨rfl, rfl, rfl⟩ := Tree.node.inj heq
      split <;> simp [ownOccurrences, ownOccurrencesAll, accessed?, Label.isBoundary]
    · next value heq =>
      obtain ⟨rfl, rfl, rfl⟩ := Tree.node.inj heq
      have hvalue := ih value (.tail _ (.head _))
      split
      · rw [ownOccurrences, ownOccurrences, accessed?_eq_none (by simp),
          accessed?_eq_none (by simp)]
        simp [ownOccurrences, ownOccurrencesAll, accessed?, Label.isBoundary,
          ownOccurrences_withDefault, hvalue]
      · rw [ownOccurrences, ownOccurrences, accessed?_eq_none (by simp),
          accessed?_eq_none (by simp)]
        simp [ownOccurrences, ownOccurrencesAll, accessed?, Label.isBoundary, hvalue]
    · next heq =>
      obtain ⟨rfl, rfl, rfl⟩ := Tree.node.inj heq
      rw [renameAll_eq, ownOccurrences, ownOccurrences, (keepsLeaves_rename a b).accessed?,
        (keepsLeaves_rename a b).isChainAccess, hall]

/-! ### Replacing -/

lemma replaceOwnAll_eq (r : Resolution) (ts : List Tree) :
    replaceOwnAll r ts = ts.map (replaceOwn r) := by
  induction ts with
  | nil => rfl
  | cons t ts ih => rw [replaceOwnAll, ih, List.map_cons]

lemma replaceOwn_leaf {r : Resolution} {t : Tree} {l : Label} {s : Span}
    (hl : l = .thisExpr ∨ ∃ p, l = .key p) (h : t.replaceOwn r = node l s []) :
    t = node l s [] := by
  obtain ⟨l', s', ts⟩ := t
  rw [replaceOwn] at h
  split at h
  · obtain ⟨rfl, -, -⟩ := Tree.node.inj h
    exact absurd hl (by simp)
  · split at h
    · exact h
    · obtain ⟨rfl, rfl, hts⟩ := Tree.node.inj h
      cases ts with
      | nil => rfl
      | cons u us => exact absurd hts (by simp [replaceOwnAll])

lemma keepsLeaves_replaceOwn (r : Resolution) : KeepsLeaves (replaceOwn r) := by
  intro t s
  refine ⟨⟨replaceOwn_leaf (.inl rfl), ?_⟩, fun p => ⟨replaceOwn_leaf (.inr ⟨p, rfl⟩), ?_⟩⟩
  · rintro rfl
    rfl
  · rintro rfl
    rfl

/-- Whether an access stays where it is: it stands in an optional chain, or its property has no
variable. -/
def isKept (r : Resolution) (o : String × Bool) : Bool :=
  o.2 || (r.lookup o.1).isNone

/-- Accesses with a variable disappear, except for those in optional chains, and the others
stay. -/
lemma ownOccurrences_replaceOwn (r : Resolution) (t : Tree) :
    (t.replaceOwn r).ownOccurrences = t.ownOccurrences.filter (isKept r) := by
  induction t using Tree.induct with
  | node l s ts ih =>
    have hall : ownOccurrencesAll (ts.map (replaceOwn r)) =
        (ownOccurrencesAll ts).filter (isKept r) := by
      rw [ownOccurrencesAll_eq, ownOccurrencesAll_eq, List.flatMap_map, List.filter_flatMap]
      exact List.flatMap_congr ih
    have hkeeps := keepsLeaves_replaceOwn r
    cases hx : replacement? r (node l s ts) with
    | some x =>
      -- the node is an access outside of optional chains that has a variable
      unfold replacement? at hx
      split at hx
      · next heq =>
        obtain ⟨rfl, rfl, rfl⟩ := Tree.node.inj heq
        simp [replaceOwn, replacement?, hx, ownOccurrences, ownOccurrencesAll, accessed?,
          isChainAccess, isKept]
      · exact absurd hx (by simp)
    | none =>
      by_cases hl : l.isBoundary = true
      · simp [replaceOwn, hx, hl, ownOccurrences, accessed?_of_isBoundary hl]
      · have hmap : (node l s ts).replaceOwn r = node l s (ts.map (replaceOwn r)) := by
          simp [replaceOwn, hx, hl, replaceOwnAll_eq]
        rw [hmap, ownOccurrences, ownOccurrences, hkeeps.accessed?, hkeeps.isChainAccess]
        cases haccess : (node l s ts).accessed? with
        | some p =>
          cases hchain : (node l s ts).isChainAccess with
          | true => simp [isKept]
          | false =>
            obtain ⟨this, prop, rfl, rfl⟩ := accessed?_eq_some haccess hchain
            have hlookup : r.lookup p = none := hx
            simp [isKept, hlookup]
        | none => simp [hl, hall]

/-- Without variables nothing is replaced. -/
lemma replaceOwn_nil (t : Tree) : t.replaceOwn [] = t := by
  induction t using Tree.induct with
  | node l s ts ih =>
    have hreplacement : replacement? [] (node l s ts) = none := by
      unfold replacement?
      split <;> rfl
    have hall : ts.map (replaceOwn []) = ts := by
      rw [List.map_congr_left ih, List.map_id']
    simp [replaceOwn, hreplacement, replaceOwnAll_eq, hall]

lemma replaceAccesses_nil (t : Tree) : t.replaceAccesses [] = t := by
  unfold replaceAccesses
  split
  · rw [replaceOwn_nil, replaceOwn_nil]
  · rw [replaceOwn_nil, replaceOwn_nil]
  · rfl

lemma replaceAccesses_literal (r : Resolution) (k : Shell) (params body : Tree) :
    (k.literal params body).replaceAccesses r =
      k.literal (params.replaceOwn r) (body.replaceOwn r) := by
  cases k <;> rfl

lemma rename_literal (a b : String) (k : Shell) (params body : Tree) :
    ∃ k' : Shell, (k.literal params body).rename a b =
      k'.literal (params.rename a b) (body.rename a b) := by
  cases k with
  | function s self isAsync isGenerator fs decorators typeParams result =>
    exact ⟨.function s (self.rename a b) isAsync isGenerator fs (decorators.rename a b)
      (typeParams.rename a b) (result.rename a b), rfl⟩
  | arrow s isAsync typeParams result =>
    exact ⟨.arrow s isAsync (typeParams.rename a b) (result.rename a b), rfl⟩

lemma label_rename_literal (a b : String) (k : Shell) (params body : Tree) :
    ((k.literal params body).rename a b).label = (k.literal params body).label := by
  cases k <;> rfl

/-- What stays when a variable is renamed stays when variables are renamed one after the other. -/
lemma foldl_rename_eq {α : Type} {f : Tree → α} (h : ∀ a b t, f (t.rename a b) = f t)
    (locals : List String) (t : Tree) :
    f (locals.foldl (fun t x => t.rename x (fromSetup x)) t) = f t := by
  induction locals generalizing t with
  | nil => rfl
  | cons x locals ih => rw [List.foldl_cons, ih, h]

/-- Renaming variables of a function literal one after the other changes neither its kind nor any
access. -/
lemma rename_locals (locals : List String) (k : Shell) (params body : Tree) :
    ∃ (k' : Shell) (params' body' : Tree),
      locals.foldl (fun t x => t.rename x (fromSetup x)) (k.literal params body) =
        k'.literal params' body' ∧
      (k'.literal params' body').label = (k.literal params body).label ∧
      params'.ownOccurrences = params.ownOccurrences ∧
      body'.ownOccurrences = body.ownOccurrences := by
  induction locals generalizing k params body with
  | nil => exact ⟨k, params, body, rfl, rfl, rfl, rfl⟩
  | cons x locals ih =>
    have hlabel₁ := label_rename_literal x (fromSetup x) k params body
    obtain ⟨k₁, h₁⟩ := rename_literal x (fromSetup x) k params body
    obtain ⟨k', params', body', h, hlabel, hp, hb⟩ :=
      ih k₁ (params.rename x (fromSetup x)) (body.rename x (fromSetup x))
    rw [ownOccurrences_rename] at hp hb
    rw [h₁] at hlabel₁
    exact ⟨k', params', body', by rw [List.foldl_cons, h₁, h], hlabel.trans hlabel₁, hp, hb⟩

/-! ### Callbacks -/

/-- The accesses that are left in a callback are those in optional chains and those without a
variable. -/
lemma contextOccurrences_resolveCallback {callback : Tree}
    (hlit : callback.isFunctionLiteral = true) (scopes : Scopes) (r : Resolution) :
    (resolveCallback scopes r callback).1.isFunctionLiteral = true ∧
      (resolveCallback scopes r callback).1.contextOccurrences =
        callback.contextOccurrences.filter (isKept r) := by
  obtain ⟨k, params, body, rfl⟩ := exists_shell hlit
  obtain ⟨k', params', body', hrename, -, hp, hb⟩ :=
    rename_locals (clashes scopes r) k params body
  rw [resolveCallback, hrename, replaceAccesses_literal]
  refine ⟨by simp, ?_⟩
  rw [contextOccurrences_literal, contextOccurrences_literal, ownOccurrences_replaceOwn,
    ownOccurrences_replaceOwn, hp, hb, List.filter_append]

end Tree

/-- Removing repetitions and selecting elements commute. -/
lemma eraseDups_filter (f : String → Bool) (l : List String) :
    (l.filter f).eraseDups = l.eraseDups.filter f := by
  generalize hn : l.length = n
  induction n using Nat.strongRecOn generalizing l with
  | ind n ih =>
    cases l with
    | nil => rfl
    | cons a l =>
      have hlt : (l.filter fun b => !b == a).length < n := by
        rw [← hn]
        exact Nat.lt_succ_of_le (List.length_filter_le _ _)
      have hswap : (l.filter f).filter (fun b => !b == a) =
          (l.filter fun b => !b == a).filter f := by
        rw [List.filter_filter, List.filter_filter]
        exact List.filter_congr fun b _ => Bool.and_comm _ _
      rw [List.eraseDups_cons]
      by_cases ha : f a = true
      · rw [List.filter_cons_of_pos ha, List.eraseDups_cons, hswap, ih _ hlt _ rfl,
          List.filter_cons_of_pos ha]
      · -- what is left does not contain `a` anyway
        have hself : (l.filter f).filter (fun b => !b == a) = l.filter f := by
          rw [List.filter_eq_self]
          intro b hb
          rw [Bool.not_eq_true', beq_eq_false_iff_ne]
          rintro rfl
          exact ha (List.mem_filter.1 hb).2
        rw [List.filter_cons_of_neg ha, List.filter_cons_of_neg ha, ← ih _ hlt _ rfl, ← hswap,
          hself]

namespace Handled

/-- The accesses that are left in a callback are those without a variable. -/
theorem contextAccesses_result {k : Handled} (hlit : k.tree.isFunctionLiteral = true)
    (h : k.tree.chainFree = true) :
    k.result.isFunctionLiteral = true ∧ k.result.contextAccesses = k.unresolved := by
  obtain ⟨hresult, hleft⟩ := Tree.contextOccurrences_resolveCallback hlit
    (k.scopes.enterFunction k.tree) k.written
  refine ⟨hresult, ?_⟩
  have hkept : k.tree.contextOccurrences.filter (Tree.isKept k.written) =
      k.tree.contextOccurrences.filter ((fun p => (k.written.lookup p).isNone) ∘ (·.1)) := by
    refine List.filter_congr fun o ho => ?_
    simp [Tree.isKept, Tree.chain_of_mem_contextOccurrences h o ho]
  rw [unresolved, Tree.contextAccesses_eq, result, hleft, hkept, ← List.filter_map,
    eraseDups_filter, ← Tree.contextAccesses_eq]

/-- A callback without variables stays as it is. -/
lemma result_of_written {k : Handled} (h : k.written = []) : k.result = k.tree := by
  rw [result, h]
  exact k.tree.replaceAccesses_nil

lemma renamedLocals_of_written {k : Handled} (h : k.written = []) : k.renamedLocals = [] := by
  simp [renamedLocals, h, resolveCallback, clashes]

lemma unresolved_of_written {k : Handled} (h : k.written = []) :
    k.unresolved = k.tree.contextAccesses := by
  rw [unresolved, h]
  simp

end Handled

end ContextHoist
