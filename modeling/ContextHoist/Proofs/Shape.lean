/-
The shapes of trees that the conversion tells apart.

* `Tree.Has`: a tree stands somewhere in another one.
* `Tree.all`: a condition holds of everything in a tree.
* `Tree.inductBelow`: induction with the hypothesis at everything below the root.
* `Tree.call_or_not`: a tree is a call, or it has not the shape of one.
* `Shell`: a function literal without its parameters and its body, so that function expressions
  and arrow functions can be treated alike.
* `Tree.callStmt`, `Tree.plainFunction`, `Tree.accessStmt`: phrases to build small source files
  from.
-/
import Mathlib.Data.List.Basic
import Mathlib.Tactic.Common
import ContextHoist.Suite.Bindings
import ContextHoist.Suite.Access

namespace ContextHoist

namespace Tree

/-! ### Trees in trees -/

/-- The second tree is the first one or stands somewhere in it. -/
inductive Has : Tree → Tree → Prop
  | self (t : Tree) : Has t t
  | part {l : Label} {s : Span} {ts : List Tree} {t u : Tree} (ht : t ∈ ts) (h : Has t u) :
      Has (node l s ts) u

lemma Has.trans {t u v : Tree} (h₁ : t.Has u) (h₂ : u.Has v) : t.Has v := by
  induction h₁ with
  | self t => exact h₂
  | part ht _ ih => exact Has.part ht (ih h₂)

/-- Induction on trees, with the hypothesis at every tree that stands below the root. -/
@[elab_as_elim]
theorem inductBelow {motive : Tree → Prop}
    (node : ∀ l s ts, (∀ t ∈ ts, ∀ u, t.Has u → motive u) → motive (node l s ts)) (t : Tree) :
    motive t := by
  have h : ∀ u, t.Has u → motive u := by
    induction t using Tree.induct with
    | node l s ts ih =>
      intro u hu
      cases hu with
      | self => exact node l s ts ih
      | part ht h => exact ih _ ht u h
  exact h t (.self t)

/-! ### Conditions on everything in a tree -/

mutual

/-- Whether the condition holds of a phrase and of everything in it. -/
def all (p : Tree → Bool) : Tree → Bool
  | node l s ts => p (node l s ts) && allIn p ts

/-- Whether the condition holds of everything in some phrases. -/
def allIn (p : Tree → Bool) : List Tree → Bool
  | [] => true
  | t :: ts => t.all p && allIn p ts

end

lemma all_node (p : Tree → Bool) (l : Label) (s : Span) (ts : List Tree) :
    (node l s ts).all p = (p (node l s ts) && ts.all (all p)) := by
  have hall : ∀ us : List Tree, allIn p us = us.all (all p) := by
    intro us
    induction us with
    | nil => rfl
    | cons u us ih => rw [allIn, ih, List.all_cons]
  rw [all, hall]

lemma all_iff {p : Tree → Bool} {t : Tree} : t.all p = true ↔ ∀ u, t.Has u → p u = true := by
  constructor
  · intro h u hu
    induction hu with
    | self t =>
      obtain ⟨l, s, ts⟩ := t
      rw [all_node, Bool.and_eq_true] at h
      exact h.1
    | part ht _ ih =>
      rw [all_node, Bool.and_eq_true, List.all_eq_true] at h
      exact ih (h.2 _ ht)
  · induction t using Tree.induct with
    | node l s ts ih =>
      intro h
      rw [all_node, Bool.and_eq_true, List.all_eq_true]
      exact ⟨h _ (.self _), fun t ht => ih t ht fun u hu => h u (.part ht hu)⟩

lemma Has.all {p : Tree → Bool} {t u : Tree} (h : t.Has u) (ht : t.all p = true) :
    u.all p = true :=
  all_iff.2 fun v hv => all_iff.1 ht v (h.trans hv)

lemma all_of_mem {p : Tree → Bool} {l : Label} {s : Span} {ts : List Tree}
    (h : (node l s ts).all p = true) : ∀ t ∈ ts, t.all p = true :=
  fun t ht => Has.all (.part ht (.self t)) h

/-! ### Calls -/

/-- A tree is a call, or it does not have the shape of one. -/
lemma call_or_not (l : Label) (s : Span) (ts : List Tree) :
    (∃ callee gs args types, node l s ts = call s callee gs args types) ∨
      ∀ callee gs args types, l = .call → ts = [callee, node .group gs args, types] → False := by
  by_cases h : ∃ callee gs args types, node l s ts = call s callee gs args types
  · exact Or.inl h
  · refine Or.inr fun callee gs args types hl hts => h ⟨callee, gs, args, types, ?_⟩
    rw [hl, hts]

end Tree

/-! ### Function literals -/

/-- A function literal without its parameters and its body. -/
inductive Shell where
  | function (s : Span) (self : Tree) (isAsync isGenerator : Bool) (fs : Span)
      (decorators typeParams result : Tree)
  | arrow (s : Span) (isAsync : Bool) (typeParams result : Tree)

namespace Shell

/-- The function literal with the given parameters and body. -/
def literal (params body : Tree) : Shell → Tree
  | function s self isAsync isGenerator fs decorators typeParams result =>
    .functionExpr s self isAsync isGenerator fs params decorators body typeParams result
  | arrow s isAsync typeParams result => .arrow s isAsync params body typeParams result

@[simp] lemma isFunctionLiteral_literal (k : Shell) (params body : Tree) :
    (k.literal params body).isFunctionLiteral = true := by
  cases k <;> rfl

@[simp] lemma contextAccesses_literal (k : Shell) (params body : Tree) :
    (k.literal params body).contextAccesses =
      (params.ownAccesses ++ body.ownAccesses).eraseDups := by
  cases k <;> rfl

/-- A function literal has one list of parameters and one body. -/
lemma literal_inj {k k' : Shell} {params params' body body' : Tree}
    (h : k.literal params body = k'.literal params' body') : params = params' ∧ body = body' := by
  cases k <;> cases k' <;> simp [literal] at h <;> simp [h]

/-- A function literal has its parameters in it. -/
lemma has_params (k : Shell) (params body : Tree) : (k.literal params body).Has params := by
  cases k with
  | function => exact .part (.tail _ (.head _)) (.part (.head _) (.self _))
  | arrow => exact .part (.head _) (.self _)

/-- A function literal has its body in it. -/
lemma has_body (k : Shell) (params body : Tree) : (k.literal params body).Has body := by
  cases k with
  | function => exact .part (.tail _ (.head _)) (.part (.tail _ (.tail _ (.head _))) (.self _))
  | arrow => exact .part (.tail _ (.head _)) (.self _)

end Shell

/-- Every function literal comes apart into a shell, parameters and a body. -/
lemma Tree.exists_shell {t : Tree} (h : t.isFunctionLiteral = true) :
    ∃ (k : Shell) (params body : Tree), t = k.literal params body := by
  unfold isFunctionLiteral at h
  split at h
  · exact ⟨.function _ _ _ _ _ _ _ _, _, _, rfl⟩
  · exact ⟨.arrow _ _ _ _, _, _, rfl⟩
  · exact absurd h (by simp)

/-! ### Small phrases -/

namespace Tree

/-- The statement `f(args);`. -/
def callStmt (f : String) (args : List Tree) : Tree :=
  node .exprStmt .nowhere [call .nowhere (name f .nowhere) .nowhere args absent]

/-- The expression `function(params) { body }`. -/
def plainFunction (params body : List Tree) : Tree :=
  functionExpr .nowhere absent false false .nowhere (group params) (group [])
    (node .block .nowhere body) absent absent

/-- The statement `this.p;`. -/
def accessStmt (p : String) : Tree :=
  node .exprStmt .nowhere [accessOf p .nowhere .nowhere .nowhere]

end Tree

/-- The source file with the given items. -/
def Module.ofItems (items : List Tree) : Module :=
  ⟨none, items, .nowhere⟩

end ContextHoist
