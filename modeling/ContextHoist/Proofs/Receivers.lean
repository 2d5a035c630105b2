/-
What `this`, `arguments` and `new.target` mean in a function that becomes an arrow function.

Each call of a function gives these words a meaning of their own; in an arrow function they mean
what they mean around it.  So a function may become an arrow function if none of them belongs to
it.  Whether one does is looked up in the parameters and the body, outside of functions, classes
and accessors.  That leaves out the places in a class and in the key of an accessor at which the
words still belong to the function around, and it leaves out `new.target` altogether.

* `Tree.ownReceivers`: the occurrences that belong to the function around a phrase.
* `Tree.mentionsReceiver_eq`: those that are looked up.
* `Tree.receivers_eq_nil`: functions in which none is left out.
* `Tree.arrowify_receivers`: which functions become arrow functions, and what these mean.
-/
import ContextHoist.Proofs.Callbacks

namespace ContextHoist

/-- What a function gets with each call, besides its parameters. -/
inductive Receiver where
  | this
  | arguments
  | newTarget
  deriving DecidableEq, Repr

/-- An occurrence of one of these words. -/
structure ReceiverUse where
  receiver : Receiver
  /-- It stands in a class or in the key of an accessor, or it is the tag of an element. -/
  isHidden : Bool
  deriving DecidableEq, Repr

/-- Whether the occurrence is one of those that are looked up. -/
def ReceiverUse.isSeen (u : ReceiverUse) : Bool :=
  !u.isHidden && u.receiver != .newTarget

namespace Tree

/-! ### Occurrences -/

/-- Whether the tag of an element is `this` or a member of it. -/
def isThisTag : Tree → Bool
  | node (.name x) _ _ => x == "this"
  | node .elementMember _ (t :: _) => t.isThisTag
  | _ => false

mutual

/-- The occurrences in a phrase that belong to the function around it.  Arrow functions share them
with the function around; other functions have their own.  Of an accessor only the key belongs to
the function around, and of a class everything but the constructor, the static blocks, the values
of fields and the functions in it. -/
def ownReceivers (isHidden : Bool) : Tree → List ReceiverUse
  | node .thisExpr _ _ => [⟨.this, isHidden⟩]
  | node (.metaProperty text) _ ts =>
    (if text = "new.target" then [⟨.newTarget, isHidden⟩] else []) ++ ownReceiversAll isHidden ts
  | node (.name x) _ ts =>
    (if x = "arguments" then [⟨.arguments, isHidden⟩] else []) ++ ownReceiversAll isHidden ts
  | node (.function _ _) _ _ => []
  | node .getter _ ts => keyReceivers ts
  | node .setter _ ts => keyReceivers ts
  | node (.classBody _) _ ts => classReceivers ts
  | node (.openingTag _) _ ts =>
    (if ts.head?.any isThisTag then [⟨.this, true⟩] else []) ++ ownReceiversAll isHidden ts
  | node _ _ ts => ownReceiversAll isHidden ts

/-- The occurrences in a list of phrases that belong to the function around them. -/
def ownReceiversAll (isHidden : Bool) : List Tree → List ReceiverUse
  | [] => []
  | t :: ts => t.ownReceivers isHidden ++ ownReceiversAll isHidden ts

/-- The occurrences in the key of an accessor that has the given parts. -/
def keyReceivers : List Tree → List ReceiverUse
  | [] => []
  | k :: _ => k.ownReceivers true

/-- The occurrences in a class with the given parts that belong to the function around it. -/
def classReceivers : List Tree → List ReceiverUse
  | [] => []
  | [t] => t.ownReceivers true
  | t :: node _ _ members :: ts =>
    t.ownReceivers true ++ memberReceiversAll members ++ ownReceiversAll true ts

/-- The occurrences in a member of a class that belong to the function around the class. -/
def memberReceivers : Tree → List ReceiverUse
  | node (.constructorMember _) _ _ => []
  | node .staticBlock _ _ => []
  | node (.field _) _ (k :: _ :: rest) => k.ownReceivers true ++ ownReceiversAll true rest
  | node _ _ ts => ownReceiversAll true ts

/-- The occurrences in the members of a class that belong to the function around the class. -/
def memberReceiversAll : List Tree → List ReceiverUse
  | [] => []
  | t :: ts => t.memberReceivers ++ memberReceiversAll ts

end

/-- The occurrences that belong to a function expression. -/
def receivers : Tree → List ReceiverUse
  | functionExpr _ _ _ _ _ params _ body _ _ =>
    params.ownReceivers false ++ body.ownReceivers false
  | _ => []

lemma ownReceiversAll_eq (isHidden : Bool) (ts : List Tree) :
    ownReceiversAll isHidden ts = ts.flatMap (ownReceivers isHidden) := by
  induction ts with
  | nil => rfl
  | cons t ts ih => rw [ownReceiversAll, ih, List.flatMap_cons]

lemma memberReceiversAll_eq (ts : List Tree) :
    memberReceiversAll ts = ts.flatMap memberReceivers := by
  induction ts with
  | nil => rfl
  | cons t ts ih => rw [memberReceiversAll, ih, List.flatMap_cons]

/-! ### Hidden occurrences -/

/-- What holds of the occurrences in some phrases holds of those in all of them. -/
lemma forall_ownReceiversAll {P : ReceiverUse → Prop} {isHidden : Bool} {ts : List Tree}
    (h : ∀ t ∈ ts, ∀ u ∈ t.ownReceivers isHidden, P u) :
    ∀ u ∈ ownReceiversAll isHidden ts, P u := by
  rw [ownReceiversAll_eq]
  intro u hu
  obtain ⟨t, ht, hu⟩ := List.mem_flatMap.1 hu
  exact h t ht u hu

lemma isHidden_of_mem_keyReceivers {ts : List Tree}
    (h : ∀ t ∈ ts, ∀ u ∈ t.ownReceivers true, u.isHidden = true) :
    ∀ u ∈ keyReceivers ts, u.isHidden = true := by
  cases ts with
  | nil => simp [keyReceivers]
  | cons k ts => exact h k (.head _)

lemma isHidden_of_mem_memberReceivers {t : Tree}
    (h : ∀ v ∈ t.parts, ∀ u ∈ v.ownReceivers true, u.isHidden = true) :
    ∀ u ∈ t.memberReceivers, u.isHidden = true := by
  unfold memberReceivers
  split
  · simp
  · simp
  · intro u hu
    rcases List.mem_append.1 hu with hu | hu
    · exact h _ (.head _) u hu
    · exact forall_ownReceiversAll (fun v hv => h v (.tail _ (.tail _ hv))) u hu
  · exact forall_ownReceiversAll h

lemma isHidden_of_mem_classReceivers {ts : List Tree}
    (h : ∀ t ∈ ts, ∀ v, t.Has v → ∀ u ∈ v.ownReceivers true, u.isHidden = true) :
    ∀ u ∈ classReceivers ts, u.isHidden = true := by
  unfold classReceivers
  split
  · simp
  · exact h _ (.head _) _ (.self _)
  · next t l s members ts =>
    intro u hu
    rcases List.mem_append.1 hu with hu | hu
    · rcases List.mem_append.1 hu with hu | hu
      · exact h _ (.head _) _ (.self _) u hu
      · rw [memberReceiversAll_eq] at hu
        obtain ⟨⟨l', s', vs⟩, hmember, hu⟩ := List.mem_flatMap.1 hu
        refine isHidden_of_mem_memberReceivers (fun v hv => ?_) u hu
        exact h _ (.tail _ (.head _)) v (.part hmember (.part hv (.self v)))
    · exact forall_ownReceiversAll (fun v hv => h v (.tail _ (.tail _ hv)) v (.self v)) u hu

/-- Whatever stands in a hidden place is hidden. -/
lemma isHidden_of_mem_ownReceivers (t : Tree) :
    ∀ u ∈ t.ownReceivers true, u.isHidden = true := by
  induction t using Tree.inductBelow with
  | node l s ts ih =>
    have hpart : ∀ t ∈ ts, ∀ u ∈ t.ownReceivers true, u.isHidden = true := fun t ht =>
      ih t ht t (.self t)
    have hall := forall_ownReceiversAll hpart
    unfold ownReceivers
    split
    case h_1 | h_4 => simp
    case h_2 | h_3 | h_8 =>
      next heq =>
        obtain ⟨rfl, rfl, rfl⟩ := Tree.node.inj heq
        intro u hu
        rcases List.mem_append.1 hu with hu | hu
        · split at hu
          · rw [List.mem_singleton.1 hu]
          · exact absurd hu List.not_mem_nil
        · exact hall u hu
    case h_5 | h_6 =>
      next heq =>
        obtain ⟨rfl, rfl, rfl⟩ := Tree.node.inj heq
        exact isHidden_of_mem_keyReceivers hpart
    case h_7 =>
      next heq =>
        obtain ⟨rfl, rfl, rfl⟩ := Tree.node.inj heq
        exact isHidden_of_mem_classReceivers ih
    case h_9 =>
      next heq =>
        obtain ⟨rfl, rfl, rfl⟩ := Tree.node.inj heq
        exact hall

/-! ### Occurrences that are looked up -/

/-- In a class, in an accessor and in a function it makes no difference whether the place is
hidden. -/
lemma ownReceivers_of_isBoundary {l : Label} (hl : l.isBoundary = true)
    (harrow : ∀ isAsync, l ≠ .arrow isAsync) (s : Span) (ts : List Tree) (isHidden : Bool) :
    (node l s ts).ownReceivers isHidden = (node l s ts).ownReceivers true := by
  unfold Label.isBoundary at hl
  split at hl
  · rfl
  · exact absurd rfl (harrow _)
  · rfl
  · rfl
  · rfl
  · exact absurd hl (by simp)

lemma mentionsReceiver_of_isBoundary {l : Label} (hl : l.isBoundary = true)
    (harrow : ∀ isAsync, l ≠ .arrow isAsync) (s : Span) (ts : List Tree) :
    (node l s ts).mentionsReceiver = false := by
  unfold mentionsReceiver
  split
  · next heq => exact absurd ((Tree.node.inj heq).1 ▸ hl) (by simp [Label.isBoundary])
  · next heq => exact absurd ((Tree.node.inj heq).1 ▸ hl) (by simp [Label.isBoundary])
  · next heq => exact absurd (Tree.node.inj heq).1 (harrow _)
  · next heq =>
    obtain ⟨rfl, rfl, rfl⟩ := Tree.node.inj heq
    simp [hl]

/-- In any other phrase the parts are looked through. -/
lemma mentionsReceiver_of_parts {l : Label} (hthis : l ≠ .thisExpr) (hname : ∀ x, l ≠ .name x)
    (hl : ¬(l.isBoundary = true ∧ ∀ isAsync, l ≠ .arrow isAsync)) (s : Span) (ts : List Tree) :
    (node l s ts).mentionsReceiver = mentionsReceiverAny ts := by
  unfold mentionsReceiver
  split
  · next heq => exact absurd (Tree.node.inj heq).1 hthis
  · next heq => exact absurd (Tree.node.inj heq).1 (hname _)
  · next heq => rw [(Tree.node.inj heq).2.2]
  · next harrow heq =>
    obtain ⟨rfl, rfl, rfl⟩ := Tree.node.inj heq
    exact if_neg fun hboundary => hl ⟨hboundary, harrow⟩

/-- Something is found if and only if an occurrence of `this` or `arguments` belongs to the function
around and is not hidden. -/
theorem mentionsReceiver_eq (t : Tree) :
    t.mentionsReceiver = (t.ownReceivers false).any (·.isSeen) := by
  induction t using Tree.induct with
  | node l s ts ih =>
    have hall : mentionsReceiverAny ts = (ownReceiversAll false ts).any (·.isSeen) := by
      clear s l
      induction ts with
      | nil => rfl
      | cons t ts ihs =>
        rw [mentionsReceiverAny, ownReceiversAll, List.any_append, ih t (.head _),
          ihs fun u hu => ih u (.tail _ hu)]
    by_cases hl : l.isBoundary = true ∧ ∀ isAsync, l ≠ .arrow isAsync
    · -- what belongs to the function around is hidden there
      rw [mentionsReceiver_of_isBoundary hl.1 hl.2, ownReceivers_of_isBoundary hl.1 hl.2, eq_comm,
        List.any_eq_false]
      intro u hu
      simp [ReceiverUse.isSeen, isHidden_of_mem_ownReceivers _ u hu]
    · unfold ownReceivers
      split
      case h_1 =>
        next heq =>
          obtain ⟨rfl, rfl, rfl⟩ := Tree.node.inj heq
          rfl
      case h_3 =>
        next x _ _ heq =>
          obtain ⟨rfl, rfl, rfl⟩ := Tree.node.inj heq
          rw [mentionsReceiver, hall, List.any_append]
          by_cases hx : x = "arguments"
          · simp [hx, ReceiverUse.isSeen]
          · simp [hx]
      case h_4 | h_5 | h_6 | h_7 =>
        next heq =>
          obtain ⟨rfl, rfl, rfl⟩ := Tree.node.inj heq
          exact absurd ⟨rfl, by simp⟩ hl
      case h_2 | h_8 =>
        next heq =>
          obtain ⟨rfl, rfl, rfl⟩ := Tree.node.inj heq
          rw [mentionsReceiver_of_parts (by simp) (by simp) hl, hall, List.any_append]
          -- what stands at the node itself is not looked up
          split <;> simp [ReceiverUse.isSeen]
      case h_9 hthis _ hname _ _ _ _ _ heq =>
        obtain ⟨rfl, rfl, rfl⟩ := Tree.node.inj heq
        rw [mentionsReceiver_of_parts hthis hname hl, hall]

/-! ### Functions without hidden occurrences -/

/-- Whether the phrase makes occurrences that are not looked up: `new.target`, a class, an accessor,
or an element whose tag is `this`. -/
def hidesReceiver : Tree → Bool
  | node (.metaProperty text) _ _ => text == "new.target"
  | node (.classBody _) _ _ => true
  | node .getter _ _ => true
  | node .setter _ _ => true
  | node (.openingTag _) _ ts => ts.head?.any isThisTag
  | _ => false

/-- Without such phrases all occurrences are looked up. -/
lemma isSeen_of_mem_ownReceivers {t : Tree} (h : ∀ v, t.Has v → v.hidesReceiver = false) :
    ∀ u ∈ t.ownReceivers false, u.isSeen = true := by
  induction t using Tree.induct with
  | node l s ts ih =>
    have hself := h _ (.self _)
    have hall : ∀ u ∈ ownReceiversAll false ts, u.isSeen = true :=
      forall_ownReceiversAll fun t ht => ih t ht fun v hv => h v (.part ht hv)
    unfold ownReceivers
    split
    case h_1 => simp [ReceiverUse.isSeen]
    case h_4 => simp
    case h_5 | h_6 | h_7 =>
      next heq =>
        rw [heq] at hself
        exact absurd hself (by simp [hidesReceiver])
    case h_9 =>
      next heq =>
        obtain ⟨rfl, rfl, rfl⟩ := Tree.node.inj heq
        exact hall
    all_goals
      next heq =>
        obtain ⟨rfl, rfl, rfl⟩ := Tree.node.inj heq
        intro u hu
        rcases List.mem_append.1 hu with hu | hu
        · split at hu
          · next hx => simp_all [hidesReceiver, ReceiverUse.isSeen]
          · exact absurd hu List.not_mem_nil
        · exact hall u hu

/-! ### Arrow functions -/

/-- The first tree is a function expression without a name that is no generator; the second is the
arrow function with its parameter patterns, its body, its mark `async`, its type parameters and its
return type. -/
inductive HasArrowForm : Tree → Tree → Prop
  | intro {s fs : Span} {self params decorators body typeParams result : Tree} {isAsync : Bool}
      (hself : self.isPresent = false) (hbody : body.isPresent = true) :
      HasArrowForm (functionExpr s self isAsync false fs params decorators body typeParams result)
        (arrow fs isAsync params.parameterPatterns body typeParams result)

/-- The names of the parameters of a function expression. -/
def parameterNames : Tree → List String
  | functionExpr _ _ _ _ _ params _ _ _ _ => params.patternNames
  | _ => []

/-- The function expression means the same as an arrow function: neither `this` nor `arguments` nor
`new.target` belongs to it, and no parameter is called `this`. -/
def IgnoresReceiver (f : Tree) : Prop :=
  f.receivers = [] ∧ "this" ∉ f.parameterNames

/-- A function expression stays one if something is found in it. -/
lemma HasArrowForm.toArrow_eq {f a : Tree} (h : f.HasArrowForm a) :
    f.toArrow = if f.receivers.any (·.isSeen) then f else a := by
  cases h with
  | intro hself hbody =>
    simp [toArrow, receivers, hself, hbody, mentionsReceiver_eq]

lemma HasArrowForm.ne {f a : Tree} (h : f.HasArrowForm a) : f ≠ a := by
  cases h with
  | intro => simp

lemma exists_hasArrowForm {f : Tree} (h : f.toArrow ≠ f) : ∃ a, f.HasArrowForm a := by
  unfold toArrow at h
  split at h
  · split at h
    · exact absurd rfl h
    · next hcond =>
      simp only [Bool.or_eq_true, not_or, Bool.not_eq_true] at hcond
      obtain ⟨⟨⟨⟨hself, rfl⟩, hbody⟩, -⟩, -⟩ := hcond
      exact ⟨_, .intro hself (by simpa using hbody)⟩
  · exact absurd rfl h

lemma receivers_eq_nil {f : Tree} (h : ∀ v, f.Has v → v.hidesReceiver = false)
    (hseen : f.receivers.any (·.isSeen) = false) : f.receivers = [] := by
  rw [List.any_eq_false] at hseen
  rw [List.eq_nil_iff_forall_not_mem]
  intro u hu
  refine hseen u hu ?_
  unfold receivers at hu
  split at hu
  · next s self isAsync isGenerator fs params decorators body typeParams result =>
    let k : Shell := .function s self isAsync isGenerator fs decorators typeParams result
    rcases List.mem_append.1 hu with hu | hu
    · exact isSeen_of_mem_ownReceivers (fun v hv => h v ((k.has_params params body).trans hv)) u hu
    · exact isSeen_of_mem_ownReceivers (fun v hv => h v ((k.has_body params body).trans hv)) u hu
  · exact absurd hu List.not_mem_nil

/-- What holds of a function expression that becomes an arrow function. -/
structure BecomesArrow (f a : Tree) : Prop where
  /-- The two have everything in common that an arrow function can have. -/
  form : f.HasArrowForm a
  /-- If one of the words belongs to the function, then it is `new.target`, or it is hidden. -/
  overlooked : ∀ u ∈ f.receivers, u.receiver = .newTarget ∨ u.isHidden = true
  /-- A function without hidden occurrences means the same as before, unless a parameter is called
  `this`. -/
  ignores_iff : (∀ v, f.Has v → v.hidesReceiver = false) →
    (f.IgnoresReceiver ↔ "this" ∉ f.parameterNames)

lemma HasArrowForm.becomesArrow {f a : Tree} (h : f.HasArrowForm a) (hne : f.toArrow ≠ f) :
    f.toArrow = a ∧ f.BecomesArrow a := by
  have heq := h.toArrow_eq
  cases hseen : f.receivers.any (·.isSeen) with
  | true => exact absurd (by rw [heq, hseen, if_pos rfl]) hne
  | false =>
    rw [hseen, if_neg (by simp)] at heq
    refine ⟨heq, h, fun u hu => ?_, fun hnone => ?_⟩
    · have hu := List.any_eq_false.1 hseen u hu
      by_cases hhidden : u.isHidden = true
      · exact .inr hhidden
      · simp only [ReceiverUse.isSeen, hhidden] at hu
        exact .inl (by simpa using hu)
    · exact and_iff_right (receivers_eq_nil hnone hseen)

/-- An expression stays as it is, because it is no function that can become an arrow function or
because `this` or `arguments` is found in it, or it is such a function, possibly in parentheses, and
becomes an arrow function. -/
theorem arrowify_receivers (e : Tree) :
    (e.arrowify = e ∧ ∀ f a, f.HasArrowForm a → (e = f ∨ ∃ s, e = node .paren s [f]) →
      ∃ u ∈ f.receivers, u.isSeen = true) ∨
    ∃ f a, f.BecomesArrow a ∧ (e = f ∧ e.arrowify = a ∨
      ∃ s, e = node .paren s [f] ∧ e.arrowify = node .paren s [a]) := by
  by_cases he : e.arrowify = e
  · refine .inl ⟨he, fun f a hform hwraps => ?_⟩
    have hself : f.toArrow = f := by
      rcases hwraps with rfl | ⟨s, rfl⟩
      · cases hform
        exact he
      · simpa [arrowify] using he
    rw [hform.toArrow_eq] at hself
    by_contra hnone
    rw [← List.any_eq_true] at hnone
    rw [if_neg hnone] at hself
    exact hform.ne hself.symm
  · refine .inr ?_
    unfold arrowify at he ⊢
    split at he
    · next s t =>
      have hne : t.toArrow ≠ t := fun heq => he (by rw [heq])
      obtain ⟨a, hform⟩ := exists_hasArrowForm hne
      obtain ⟨heq, hbecomes⟩ := hform.becomesArrow hne
      exact ⟨t, a, hbecomes, .inr ⟨s, rfl, by rw [heq]⟩⟩
    · obtain ⟨a, hform⟩ := exists_hasArrowForm he
      obtain ⟨heq, hbecomes⟩ := hform.becomesArrow he
      exact ⟨e, a, hbecomes, .inl ⟨rfl, heq⟩⟩

/-- The function `function() { (class extends this.Base {}); }` becomes an arrow function although
`this` belongs to it. -/
example :
    let base := accessOf "Base" .nowhere .nowhere .nowhere
    let f := plainFunction [] [node .exprStmt .nowhere [node .paren .nowhere [node .classExpr
      .nowhere [absent, node (.classBody false) .nowhere
        [group [], group [], base, absent, absent, group []]]]]]
    f.receivers = [⟨.this, true⟩] ∧ f.arrowify.isBareArrow = true := by
  decide +kernel

end Tree

end ContextHoist
