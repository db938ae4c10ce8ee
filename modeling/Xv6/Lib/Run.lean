import Mathlib.Algebra.BigOperators.Group.Finset.Basic
import Mathlib.Algebra.BigOperators.Group.Finset.Piecewise
import Mathlib.Data.Fintype.BigOperators
import Mathlib.Tactic.Abel

/-!
Labelled transition systems: the states of a run, and the rule that proves an invariant of
all of them from one step.
-/

namespace Xv6.Lib.Run

-- a step changes a state at few places
attribute [grind =] Function.update_apply

variable {σ α : Type*} {step : σ → α → σ → Prop} {s₀ s t : σ}

/-- The states reached from `s₀` by finitely many steps. -/
inductive Reach (step : σ → α → σ → Prop) (s₀ : σ) : σ → Prop
  | refl : Reach step s₀ s₀
  | tail {s t : σ} {a : α} : Reach step s₀ s → step s a t → Reach step s₀ t

/-- What holds at the start and is kept by every step holds in every state reached. -/
theorem Reach.inv {P : σ → Prop} (h : Reach step s₀ s) (h0 : P s₀)
    (hstep : ∀ s a t, P s → step s a t → P t) : P s := by
  induction h with
  | refl => exact h0
  | tail _ hst ih => exact hstep _ _ _ ih hst

/-- A step may be restricted without leaving the states reached. -/
lemma Reach.mono {step' : σ → α → σ → Prop} (h : Reach step s₀ s)
    (hsub : ∀ s a t, step s a t → step' s a t) : Reach step' s₀ s := by
  induction h with
  | refl => exact .refl
  | tail _ hst ih => exact .tail ih (hsub _ _ _ hst)

/-- A simulation: every step is a step of the other system, or leaves its state alone. -/
theorem Reach.sim {τ β : Type*} {step' : τ → β → τ → Prop} {f : σ → τ} {P : σ → Prop}
    (h : Reach step s₀ s) (h0 : P s₀) (hinv : ∀ s a t, P s → step s a t → P t)
    (hsim : ∀ s a t, P s → step s a t → f t = f s ∨ ∃ b, step' (f s) b (f t)) :
    Reach step' (f s₀) (f s) := by
  induction h with
  | refl => exact .refl
  | tail hr hst ih =>
    rcases hsim _ _ _ (hr.inv h0 hinv) hst with he | ⟨b, hb⟩
    · rw [he]
      exact ih
    · exact .tail ih hb

/-- The run of a deterministic system along a list of labels. -/
def exec (next : σ → α → Option σ) : σ → List α → Option σ
  | s, [] => some s
  | s, a :: as => (next s a).bind fun t => exec next t as

lemma Reach.head {a : α} (hst : step s₀ a s) (h : Reach step s t) : Reach step s₀ t := by
  induction h with
  | refl => exact .tail .refl hst
  | tail _ h1 ih => exact .tail ih h1

lemma Reach.trans (h : Reach step s₀ s) (h' : Reach step s t) : Reach step s₀ t := by
  induction h' with
  | refl => exact h
  | tail _ hst ih => exact .tail ih hst

/-- A run ends in a state reached. -/
lemma reach_of_exec {next : σ → α → Option σ} (as : List α) (h : exec next s as = some t) :
    Reach (fun s a t => next s a = some t) s t := by
  induction as generalizing s with
  | nil => cases h; exact .refl
  | cons a as ih =>
    obtain ⟨u, hu, ht⟩ := Option.bind_eq_some_iff.mp h
    exact .head hu (ih ht)

/-- What can be decided of a value that is computed. -/
lemma exists_any {o : Option σ} {P : σ → Prop} [DecidablePred P] (h : o.any (P ·) = true) :
    ∃ t, o = some t ∧ P t := by
  obtain ⟨t, ht, hP⟩ := (Option.any_eq_true _ _).mp h
  exact ⟨t, ht, of_decide_eq_true hP⟩

/-- What can be decided at the end of a run, and what follows from it, hold in a state reached. -/
lemma reach_any {next : σ → α → Option σ} {P Q : σ → Prop} [DecidablePred P] (as : List α)
    (h : (exec next s as).any (P ·) = true)
    (hQ : ∀ t, Reach (fun s a t => next s a = some t) s t → P t → Q t) :
    ∃ t, Reach (fun s a t => next s a = some t) s t ∧ Q t := by
  obtain ⟨t, ht, hP⟩ := exists_any h
  have hr := reach_of_exec as ht
  exact ⟨t, hr, hQ t hr hP⟩

/-- The system whose steps also meet a condition. -/
def guarded (next : σ → α → Option σ) (ok : σ → α → Prop) [∀ s a, Decidable (ok s a)] (s : σ)
    (a : α) : Option σ :=
  if ok s a then next s a else none

lemma reach_of_guarded {next : σ → α → Option σ} {ok : σ → α → Prop} [∀ s a, Decidable (ok s a)]
    {as : List α} (h : exec (guarded next ok) s as = some t) :
    Reach (fun s a t => next s a = some t ∧ ok s a) s t := by
  refine (reach_of_exec as h).mono fun s a t hst => ?_
  unfold guarded at hst
  split_ifs at hst with hok
  exact ⟨hst, hok⟩

lemma guarded_any {next : σ → α → Option σ} {ok : σ → α → Prop} [∀ s a, Decidable (ok s a)]
    {P Q : σ → Prop} [DecidablePred P] (as : List α)
    (h : (exec (guarded next ok) s as).any (P ·) = true)
    (hQ : ∀ t, Reach (fun s a t => next s a = some t ∧ ok s a) s t → P t → Q t) :
    ∃ t, Reach (fun s a t => next s a = some t ∧ ok s a) s t ∧ Q t := by
  obtain ⟨t, ht, hP⟩ := exists_any h
  have hr := reach_of_guarded ht
  exact ⟨t, hr, hQ t hr hP⟩

section Count

variable {P M C : Type*} [Fintype P] [DecidableEq P] [AddCommGroup M]

/-- Moving one process changes a sum over all of them by what that process counts for. -/
lemma sum_update (g : C → M) (f : P → C) (p : P) (c : C) :
    ∑ q, g (Function.update f p c q) = (∑ q, g (f q)) - g (f p) + g c := by
  have h1 :
    (fun q => g (Function.update f p c q)) = Function.update (fun q => g (f q)) p (g c) := by
    funext q
    by_cases hq : q = p
    · subst hq; simp
    · simp [Function.update_of_ne hq]
  rw [h1, Finset.sum_update_of_mem (Finset.mem_univ p),
    ← Finset.add_sum_erase _ _ (Finset.mem_univ p), Finset.erase_eq]
  abel

end Count

end Xv6.Lib.Run
