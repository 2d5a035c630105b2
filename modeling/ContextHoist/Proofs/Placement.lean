/-
Where the callbacks and the function literals of an outline stand.

* `Tree.outline_induct`: what holds of calls and is kept by larger phrases holds of outlines.
* `Tree.Owns`: a phrase stands in another one, with no scope in between.
* `Tree.SetsUp`: a function literal has a setup of its own for a property.
* `Outline.Faithful`: the function literals of an outline are listed with their own outlines.
-/
import ContextHoist.Proofs.Outline

namespace ContextHoist

namespace Tree

/-- Induction on the outline of a phrase.  The motive speaks of a phrase and of an outline of
things that stand in it. -/
theorem outline_induct {motive : Tree → Outline Tree Tree → Prop} (done : ∀ t, motive t .done)
    (append : ∀ t a b, motive t a → motive t b → motive t (a ++ b))
    (part : ∀ l s ts t o, l.isBoundary = false →
      (∀ callee gs args types, l = .call → ts = [callee, node .group gs args, types] → False) →
      t ∈ ts → motive t o → motive (node l s ts) o)
    (callee : ∀ s callee gs args types o, motive callee o →
      motive (call s callee gs args types) o)
    (arg : ∀ s callee gs args types t o, t.isFunctionLiteral = false → t ∈ args → motive t o →
      motive (call s callee gs args types) o)
    (types : ∀ s callee gs args types o, motive types o → motive (call s callee gs args types) o)
    (setup : ∀ s callee gs args types callback, callee.calleeRole = .installsSetup →
      trailingLiteral? args = some callback →
      motive (call s callee gs args types) (.setup callback .done))
    (usage : ∀ s callee gs args types callback, callee.calleeRole = .usesContext →
      trailingLiteral? args = some callback →
      motive (call s callee gs args types) (.usage callback .done))
    (literal : ∀ s callee gs args types (k : Shell) params body, callee.calleeRole.Descends →
      k.literal params body ∈ args → motive params params.outline → motive body body.outline →
      motive (call s callee gs args types)
        (.literal (k.literal params body) (params.outline ++ body.outline) .done)) (t : Tree) :
    motive t t.outline := by
  induction t using inductBelow with
  | node l s ts ih =>
    rcases call_or_not l s ts with ⟨f, gs, args, ty, heq⟩ | hcall
    · obtain ⟨rfl, -, rfl⟩ := Tree.node.inj heq
      -- an argument and all that stands in it is below the call
      have hbelow : ∀ t ∈ args, ∀ u, t.Has u → motive u u.outline := fun t ht u hu =>
        ih _ (.tail _ (.head _)) u (.part ht hu)
      have hentered : ∀ l : List Tree, l ⊆ args → f.calleeRole.Descends →
          motive (call s f gs args ty) (outlineLiterals l) := by
        intro l hl hr
        induction l with
        | nil => exact done _
        | cons t l ihl =>
          obtain ⟨ht, hl⟩ := List.cons_subset.1 hl
          refine append _ _ _ ?_ (ihl hl)
          cases hlit : t.isFunctionLiteral with
          | false =>
            rw [outlineLiteral_of_not hlit]
            exact done _
          | true =>
            obtain ⟨k, params, body, rfl⟩ := exists_shell hlit
            rw [outlineLiteral_literal]
            exact literal _ _ _ _ _ k params body hr ht
              (hbelow _ ht _ (k.has_params params body)) (hbelow _ ht _ (k.has_body params body))
      have hothers : ∀ l : List Tree, l ⊆ args →
          motive (call s f gs args ty) (outlineOthers l) := by
        intro l hl
        induction l with
        | nil => exact done _
        | cons t l ihl =>
          obtain ⟨ht, hl⟩ := List.cons_subset.1 hl
          rw [outlineOthers]
          split
          · exact ihl hl
          · next hlit =>
            have h := arg s f gs args ty t _ (by simpa using hlit) ht (hbelow t ht t (.self t))
            exact append _ _ _ h (ihl hl)
      rw [outline_call]
      refine append _ _ _ ?_ (append _ _ _ ?_ (append _ _ _ (hothers args fun _ h => h) ?_))
      · cases hr : f.calleeRole with
        | createsSuite => exact hentered args (fun _ h => h) (.inl hr)
        | ordinary => exact hentered args (fun _ h => h) (.inr hr)
        | installsSetup =>
          cases htrailing : trailingLiteral? args with
          | none =>
            simp only [outlineEntered, htrailing, Option.elim_none]
            exact done _
          | some callback =>
            simp only [outlineEntered, htrailing, Option.elim_some]
            exact setup _ _ _ _ _ _ hr htrailing
        | usesContext =>
          cases htrailing : trailingLiteral? args with
          | none =>
            simp only [outlineEntered, htrailing, Option.elim_none]
            exact done _
          | some callback =>
            simp only [outlineEntered, htrailing, Option.elim_some]
            exact usage _ _ _ _ _ _ hr htrailing
      · exact callee _ _ _ _ _ _ (ih _ (.head _) _ (.self _))
      · exact types _ _ _ _ _ _ (ih _ (.tail _ (.tail _ (.head _))) _ (.self _))
    · rw [outline_node hcall]
      by_cases hl : l.isBoundary = true
      · rw [if_pos hl]
        exact done _
      · rw [if_neg hl]
        have hall : ∀ us : List Tree, us ⊆ ts → motive (node l s ts) (outlineAll us) := by
          intro us hus
          induction us with
          | nil => exact done _
          | cons t us ihus =>
            obtain ⟨ht, hus⟩ := List.cons_subset.1 hus
            have h := part l s ts t _ (by simpa using hl) hcall ht (ih t ht t (.self t))
            exact append _ _ _ h (ihus hus)
        exact hall ts fun _ h => h

lemma mem_of_trailingLiteral {args : List Tree} {callback : Tree}
    (h : trailingLiteral? args = some callback) : callback ∈ args := by
  rw [trailingLiteral?, Option.filter_eq_some_iff] at h
  exact List.mem_of_getLast? h.1

lemma call_has_arg {args : List Tree} {t : Tree} (ht : t ∈ args) (s : Span) (callee : Tree)
    (gs : Span) (types : Tree) : (call s callee gs args types).Has t :=
  .part (.tail _ (.head _)) (.part ht (.self t))

/-- The callbacks and the function literals found in a phrase stand in it. -/
lemma has_of_mem_outline (t : Tree) :
    ∀ u, u ∈ t.outline.handled ∨ u ∈ t.outline.opened → t.Has u := by
  refine outline_induct (motive := fun t o => ∀ u, u ∈ o.handled ∨ u ∈ o.opened → t.Has u)
    ?_ ?_ ?_ ?_ ?_ ?_ ?_ ?_ ?_ t
  · simp [Outline.handled, Outline.opened]
  · intro t a b ha hb u hu
    rw [Outline.handled_append, Outline.opened_append, List.mem_append, List.mem_append] at hu
    rcases hu with (hu | hu) | (hu | hu)
    · exact ha u (.inl hu)
    · exact hb u (.inl hu)
    · exact ha u (.inr hu)
    · exact hb u (.inr hu)
  · intro l s ts t o _ _ ht h u hu
    exact .part ht (h u hu)
  · intro s callee gs args types o h u hu
    exact .part (.head _) (h u hu)
  · intro s callee gs args types t o _ ht h u hu
    exact (call_has_arg ht s callee gs types).trans (h u hu)
  · intro s callee gs args types o h u hu
    exact .part (.tail _ (.tail _ (.head _))) (h u hu)
  · intro s callee gs args types callback _ htrailing u hu
    obtain rfl : u = callback := by simpa [Outline.handled, Outline.opened] using hu
    exact call_has_arg (mem_of_trailingLiteral htrailing) s callee gs types
  · intro s callee gs args types callback _ htrailing u hu
    obtain rfl : u = callback := by simpa [Outline.handled, Outline.opened] using hu
    exact call_has_arg (mem_of_trailingLiteral htrailing) s callee gs types
  · intro s callee gs args types k params body _ ht hparams hbody u hu
    have hliteral := call_has_arg ht s callee gs types
    have hinner : u = k.literal params body ∨ params.Has u ∨ body.Has u := by
      simp only [Outline.handled, Outline.opened, Outline.handled_append, Outline.opened_append,
        List.append_nil, List.mem_append, List.mem_cons] at hu
      rcases hu with (hu | hu) | (hu | hu | hu)
      · exact .inr (.inl (hparams u (.inl hu)))
      · exact .inr (.inr (hbody u (.inl hu)))
      · exact .inl hu
      · exact .inr (.inl (hparams u (.inr hu)))
      · exact .inr (.inr (hbody u (.inr hu)))
    rcases hinner with rfl | hu | hu
    · exact hliteral
    · exact hliteral.trans ((k.has_params params body).trans hu)
    · exact hliteral.trans ((k.has_body params body).trans hu)

/-- Callbacks are function literals. -/
lemma isFunctionLiteral_of_mem_handled (t : Tree) :
    ∀ u ∈ t.outline.handled, u.isFunctionLiteral = true := by
  have htrailing : ∀ {args : List Tree} {callback : Tree},
      trailingLiteral? args = some callback → callback.isFunctionLiteral = true := fun h =>
    (Option.filter_eq_some_iff.1 h).2
  refine outline_induct (motive := fun _ o => ∀ u ∈ o.handled, u.isFunctionLiteral = true)
    ?_ ?_ ?_ ?_ ?_ ?_ ?_ ?_ ?_ t
  · simp [Outline.handled]
  · intro t a b ha hb
    rw [Outline.handled_append]
    exact List.forall_mem_append.2 ⟨ha, hb⟩
  · intro l s ts t o _ _ _ h
    exact h
  · intro s callee gs args types o h
    exact h
  · intro s callee gs args types t o _ _ h
    exact h
  · intro s callee gs args types o h
    exact h
  · intro s callee gs args types callback _ h
    exact List.forall_mem_singleton.2 (htrailing h)
  · intro s callee gs args types callback _ h
    exact List.forall_mem_singleton.2 (htrailing h)
  · intro s callee gs args types k params body _ _ hparams hbody
    rw [Outline.handled, Outline.handled, List.append_nil, Outline.handled_append]
    exact List.forall_mem_append.2 ⟨hparams, hbody⟩

/-- A function literal has what is found in its parameters and its body. -/
lemma literal_has_of_mem_handled {k : Shell} {params body u : Tree}
    (h : u ∈ (params.outline ++ body.outline).handled) : (k.literal params body).Has u := by
  rw [Outline.handled_append, List.mem_append] at h
  rcases h with h | h
  · exact (k.has_params params body).trans (params.has_of_mem_outline u (.inl h))
  · exact (k.has_body params body).trans (body.has_of_mem_outline u (.inl h))

/-! ### Setups of a function literal -/

/-- The second phrase is the first one or stands in it, and no function stands in between: phrases
with a scope of their own are not entered, nor are function literals among the arguments of a
call. -/
inductive Owns : Tree → Tree → Prop
  | self (t : Tree) : Owns t t
  | part {l : Label} {s : Span} {ts : List Tree} {t u : Tree} (hl : l.isBoundary = false)
      (hcall : ∀ callee gs args types, l = .call → ts = [callee, node .group gs args, types] →
        False) (ht : t ∈ ts) (h : Owns t u) : Owns (node l s ts) u
  | callee {s : Span} {callee : Tree} {gs : Span} {args : List Tree} {types u : Tree}
      (h : Owns callee u) : Owns (call s callee gs args types) u
  | arg {s : Span} {callee : Tree} {gs : Span} {args : List Tree} {types t u : Tree}
      (hl : t.isFunctionLiteral = false) (ht : t ∈ args) (h : Owns t u) :
      Owns (call s callee gs args types) u
  | types {s : Span} {callee : Tree} {gs : Span} {args : List Tree} {types u : Tree}
      (h : Owns types u) : Owns (call s callee gs args types) u

/-- The phrase has a setup with the given callback, and no scope lies in between. -/
def OwnsSetup (t callback : Tree) : Prop :=
  ∃ s callee gs args types, t.Owns (call s callee gs args types) ∧
    callee.calleeRole = .installsSetup ∧ trailingLiteral? args = some callback

/-- The innermost function around some setup with the given callback is the function literal. -/
def HasSetup (literal callback : Tree) : Prop :=
  ∃ (k : Shell) (params body : Tree), literal = k.literal params body ∧
    (params.OwnsSetup callback ∨ body.OwnsSetup callback)

/-- The innermost function around some setup is the function literal, and the callback of the
setup accesses the property. -/
def SetsUp (literal : Tree) (p : String) : Prop :=
  ∃ callback, literal.HasSetup callback ∧ p ∈ callback.contextAccesses

lemma OwnsSetup.mono {t u callback : Tree} (h : t.OwnsSetup callback)
    (howns : ∀ v, t.Owns v → u.Owns v) : u.OwnsSetup callback := by
  obtain ⟨s, callee, gs, args, types, hcall, hsetup⟩ := h
  exact ⟨s, callee, gs, args, types, howns _ hcall, hsetup⟩

lemma ownsSetup_of_mem_setups (t : Tree) : ∀ callback ∈ t.outline.setups, t.OwnsSetup callback := by
  refine outline_induct (motive := fun t o => ∀ callback ∈ o.setups, t.OwnsSetup callback)
    ?_ ?_ ?_ ?_ ?_ ?_ ?_ ?_ ?_ t
  · simp [Outline.setups]
  · intro t a b ha hb callback h
    rw [Outline.setups_append, List.mem_append] at h
    rcases h with h | h
    · exact ha callback h
    · exact hb callback h
  · intro l s ts t o hl hcall ht h callback hcallback
    exact (h callback hcallback).mono fun v => .part hl hcall ht
  · intro s callee gs args types o h callback hcallback
    exact (h callback hcallback).mono fun v => .callee
  · intro s callee gs args types t o hl ht h callback hcallback
    exact (h callback hcallback).mono fun v => .arg hl ht
  · intro s callee gs args types o h callback hcallback
    exact (h callback hcallback).mono fun v => .types
  · intro s callee gs args types callback hr htrailing callback' h
    rw [List.mem_singleton.1 h]
    exact ⟨s, callee, gs, args, types, .self _, hr, htrailing⟩
  · simp [Outline.setups]
  · simp [Outline.setups]

/-- The setups of what a phrase has without a function in between are setups of the phrase. -/
lemma Owns.setups_subset {t u : Tree} (h : t.Owns u) : u.outline.setups ⊆ t.outline.setups := by
  induction h with
  | self t => exact fun _ h => h
  | part hl hcall ht _ ih =>
    intro callback h
    rw [outline_node hcall, if_neg (by simpa using hl)]
    exact mem_setups_outlineAll ht (ih h)
  | callee _ ih =>
    intro callback h
    rw [outline_call]
    simp [ih h]
  | arg hl ht _ ih =>
    intro callback h
    rw [outline_call]
    simp [mem_setups_outlineOthers ht hl (ih h)]
  | types _ ih =>
    intro callback h
    rw [outline_call]
    simp [ih h]

/-- The setups of a phrase are those that it has without a function in between. -/
lemma mem_setups_outline {t callback : Tree} :
    callback ∈ t.outline.setups ↔ t.OwnsSetup callback := by
  refine ⟨ownsSetup_of_mem_setups t callback, ?_⟩
  rintro ⟨s, callee, gs, args, types, hcall, hr, htrailing⟩
  apply hcall.setups_subset
  rw [outline_call]
  simp [outlineEntered, hr, htrailing, Outline.setups]

/-- The setups of a function literal are those in its parameters and its body. -/
lemma hasSetup_literal (k : Shell) (params body callback : Tree) :
    (k.literal params body).HasSetup callback ↔
      callback ∈ (params.outline ++ body.outline).setups := by
  rw [Outline.setups_append, List.mem_append, mem_setups_outline, mem_setups_outline]
  constructor
  · rintro ⟨k', params', body', heq, h⟩
    obtain ⟨rfl, rfl⟩ := Shell.literal_inj heq
    exact h
  · intro h
    exact ⟨k, params, body, rfl, h⟩

end Tree

/-! ### Function literals and their outlines -/

/-- Every function literal of the outline is listed with the outline of its parameters and its
body. -/
def Outline.Faithful : Outline Tree Tree → Prop
  | .done => True
  | .setup _ rest => rest.Faithful
  | .usage _ rest => rest.Faithful
  | .literal t inner rest =>
    (∃ (k : Shell) (params body : Tree), t = k.literal params body ∧
      inner = params.outline ++ body.outline) ∧ inner.Faithful ∧ rest.Faithful

@[simp] lemma Outline.faithful_append (a b : Outline Tree Tree) :
    (a ++ b).Faithful ↔ a.Faithful ∧ b.Faithful := by
  induction a with
  | done => simp [Faithful]
  | setup k rest ih => simp [Faithful, ih]
  | usage k rest ih => simp [Faithful, ih]
  | literal t inner rest _ ih => simp [Faithful, ih, and_assoc]

lemma Outline.Faithful.of_mem {o : Outline Tree Tree} (ho : o.Faithful) {t : Tree}
    {inner : Outline Tree Tree} (h : (t, inner) ∈ o.literals) :
    ∃ (k : Shell) (params body : Tree), t = k.literal params body ∧
      inner = params.outline ++ body.outline := by
  induction o with
  | done => exact absurd h List.not_mem_nil
  | setup k rest ih => exact ih ho h
  | usage k rest ih => exact ih ho h
  | literal u o rest ihi ih =>
    obtain ⟨hroot, hinner, hrest⟩ := ho
    rcases List.mem_cons.1 h with heq | h
    · obtain ⟨rfl, rfl⟩ := Prod.mk.inj heq
      exact hroot
    · rcases List.mem_append.1 h with h | h
      · exact ihi hinner h
      · exact ih hrest h

namespace Tree

theorem faithful_outline (t : Tree) : t.outline.Faithful := by
  refine outline_induct (motive := fun _ o => o.Faithful) ?_ ?_ ?_ ?_ ?_ ?_ ?_ ?_ ?_ t
  · intro t
    trivial
  · intro t a b ha hb
    exact (Outline.faithful_append a b).2 ⟨ha, hb⟩
  · intro l s ts t o _ _ _ h
    exact h
  · intro s callee gs args types o h
    exact h
  · intro s callee gs args types t o _ _ h
    exact h
  · intro s callee gs args types o h
    exact h
  · intro s callee gs args types callback _ _
    trivial
  · intro s callee gs args types callback _ _
    trivial
  · intro s callee gs args types k params body _ _ hparams hbody
    exact ⟨⟨k, params, body, rfl, rfl⟩, (Outline.faithful_append _ _).2 ⟨hparams, hbody⟩, trivial⟩

lemma faithful_outlineLiterals (args : List Tree) : (outlineLiterals args).Faithful := by
  induction args with
  | nil => trivial
  | cons t ts ih =>
    refine (Outline.faithful_append _ _).2 ⟨?_, ih⟩
    cases hlit : t.isFunctionLiteral with
    | false =>
      rw [outlineLiteral_of_not hlit]
      trivial
    | true =>
      obtain ⟨k, params, body, rfl⟩ := exists_shell hlit
      rw [outlineLiteral_literal]
      refine ⟨⟨k, params, body, rfl, rfl⟩, ?_, trivial⟩
      exact (Outline.faithful_append _ _).2 ⟨faithful_outline params, faithful_outline body⟩

/-! ### Suites -/

/-- The arguments of a suite are those of a call in the phrase. -/
lemma exists_call_of_mem_suiteArguments (t : Tree) : ∀ args ∈ t.suiteArguments,
    ∃ s callee gs types, t.Has (call s callee gs args types) ∧
      callee.calleeRole = .createsSuite := by
  induction t using inductBelow with
  | node l s ts ih =>
    -- what is found in a part is found in the whole
    have hpart : ∀ t ∈ ts, ∀ u, t.Has u → ∀ args ∈ u.suiteArguments,
        ∃ s' callee gs types, (node l s ts).Has (call s' callee gs args types) ∧
          callee.calleeRole = .createsSuite := by
      intro t ht u hu args hargs
      obtain ⟨s', callee, gs, types, hcall, hr⟩ := ih t ht u hu args hargs
      exact ⟨s', callee, gs, types, .part ht (hu.trans hcall), hr⟩
    intro args hargs
    rcases call_or_not l s ts with ⟨callee, gs, args', types, heq⟩ | hcall
    · obtain ⟨rfl, -, rfl⟩ := Tree.node.inj heq
      have harg : ∀ t ∈ args', args ∈ t.suiteArguments → _ := fun t ht =>
        hpart _ (.tail _ (.head _)) t (.part ht (.self t)) args
      by_cases hr : callee.calleeRole = .createsSuite
      · rw [suiteArguments_suite hr] at hargs
        simp only [List.mem_cons, List.mem_append] at hargs
        rcases hargs with rfl | hargs | hargs | hargs
        · exact ⟨s, callee, gs, types, .self _, hr⟩
        · exact hpart _ (.head _) _ (.self _) args hargs
        · obtain ⟨t, ht, h⟩ := exists_of_mem_suiteArgumentsOthers hargs
          exact harg t ht h
        · exact hpart _ (.tail _ (.tail _ (.head _))) _ (.self _) args hargs
      · rw [suiteArguments_call hr] at hargs
        simp only [List.mem_append] at hargs
        rcases hargs with hargs | hargs | hargs
        · exact hpart _ (.head _) _ (.self _) args hargs
        · obtain ⟨t, ht, h⟩ := exists_of_mem_suiteArgumentsAll hargs
          exact harg t ht h
        · exact hpart _ (.tail _ (.tail _ (.head _))) _ (.self _) args hargs
    · rw [suiteArguments_node hcall] at hargs
      split at hargs
      · exact absurd hargs List.not_mem_nil
      · obtain ⟨t, ht, h⟩ := exists_of_mem_suiteArgumentsAll hargs
        exact hpart t ht t (.self t) args h

end Tree

/-- A suite of a source file is a call in one of its items. -/
lemma Module.exists_call {m : Module} {args : List Tree} (h : args ∈ m.suiteArguments) :
    ∃ t ∈ m.items, ∃ s callee gs types, t.Has (.call s callee gs args types) ∧
      callee.calleeRole = .createsSuite := by
  obtain ⟨t, ht, h⟩ := Tree.exists_of_mem_suiteArgumentsAll h
  exact ⟨t, ht, t.exists_call_of_mem_suiteArguments args h⟩

/-- What is found in the suites of a source file stands in one of its items. -/
lemma Module.exists_has {m : Module} {args : List Tree} (h : args ∈ m.suiteArguments) {u : Tree}
    (hu : u ∈ (Tree.outlineLiterals args).handled ∨ u ∈ (Tree.outlineLiterals args).opened) :
    ∃ t ∈ m.items, t.Has u := by
  obtain ⟨t, ht, s, callee, gs, types, hcall, hr⟩ := exists_call h
  refine ⟨t, ht, hcall.trans (Tree.has_of_mem_outline _ u ?_)⟩
  rw [Tree.outline_call, Tree.outlineEntered_of_descends (.inl hr)]
  rcases hu with hu | hu
  · simp [hu]
  · simp [hu]

/-- The callbacks found in the suites of a source file are function literals. -/
lemma Module.isFunctionLiteral_of_mem_handled {m : Module} {args : List Tree}
    (h : args ∈ m.suiteArguments) :
    ∀ t ∈ (Tree.outlineLiterals args).handled, t.isFunctionLiteral = true := by
  intro t ht
  obtain ⟨-, -, s, callee, gs, types, -, hr⟩ := exists_call h
  refine Tree.isFunctionLiteral_of_mem_handled (.call s callee gs args types) t ?_
  rw [Tree.outline_call, Tree.outlineEntered_of_descends (.inl hr)]
  simp [ht]

end ContextHoist
