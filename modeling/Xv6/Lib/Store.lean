import Mathlib.Data.List.Basic
import Mathlib.Logic.Function.Basic

/-!
Stores that are written one cell at a time, and what is left of a sequence of writes that
stops part way.

`Always P d ws` says that `P` holds of the store at every point between two consecutive
writes of `ws`, the two ends included: it is what a crash at any moment can leave behind.
-/

namespace Xv6.Lib.Store

open Function (update update_of_ne)

variable {ι β : Type*} [DecidableEq ι]

/-- The store after a sequence of single-cell writes, the first of the list first. -/
def apply (d : ι → β) (ws : List (ι × β)) : ι → β :=
  ws.foldl (fun d w => update d w.1 w.2) d

@[simp] lemma apply_nil (d : ι → β) : apply d [] = d := rfl

@[simp] lemma apply_cons (d : ι → β) (w : ι × β) (ws : List (ι × β)) :
    apply d (w :: ws) = apply (update d w.1 w.2) ws := rfl

lemma apply_append (d : ι → β) (us vs : List (ι × β)) :
    apply d (us ++ vs) = apply (apply d us) vs := by
  simp [apply, List.foldl_append]

/-- A cell that no write names keeps its value. -/
lemma apply_of_not_mem {d : ι → β} {ws : List (ι × β)} {x : ι} (h : ∀ w ∈ ws, w.1 ≠ x) :
    apply d ws x = d x := by
  induction ws generalizing d with
  | nil => rfl
  | cons w ws ih =>
    rw [apply_cons, ih fun v hv => h v (by simp [hv])]
    exact update_of_ne (fun hx => h w (by simp) hx.symm) _ _

/-- `P` holds of the store before the first write, after the last, and between any two. -/
def Always (P : (ι → β) → Prop) (d : ι → β) (ws : List (ι × β)) : Prop :=
  ∀ k, P (apply d (ws.take k))

variable {P Q : (ι → β) → Prop} {d : ι → β} {us vs ws : List (ι × β)}

lemma Always.first (h : Always P d ws) : P d := by simpa using h 0

lemma Always.last (h : Always P d ws) : P (apply d ws) := by
  simpa using h ws.length

lemma Always.mono (h : Always P d ws) (hPQ : ∀ e, P e → Q e) : Always Q d ws :=
  fun k => hPQ _ (h k)

lemma always_nil : Always P d [] ↔ P d := by simp [Always]

lemma always_cons {w : ι × β} : Always P d (w :: ws) ↔ P d ∧ Always P (update d w.1 w.2) ws := by
  constructor
  · intro h
    exact ⟨h.first, fun k => by simpa using h (k + 1)⟩
  · rintro ⟨h0, h⟩ k
    rcases k with _ | k
    · simpa using h0
    · simpa using h k

lemma Always.append (hu : Always P d us) (hv : Always P (apply d us) vs) :
    Always P d (us ++ vs) := by
  induction us generalizing d with
  | nil => simpa using hv
  | cons w us ih =>
    rw [always_cons] at hu
    rw [List.cons_append, always_cons]
    exact ⟨hu.1, ih hu.2 (by simpa using hv)⟩

/-- An invariant of every single write holds throughout. -/
lemma Always.of_step (h0 : P d) (hstep : ∀ e, ∀ w ∈ ws, P e → P (update e w.1 w.2)) :
    Always P d ws := by
  induction ws generalizing d with
  | nil => exact always_nil.mpr h0
  | cons w ws ih =>
    rw [always_cons]
    exact ⟨h0, ih (hstep d w (by simp) h0) fun e v hv => hstep e v (by simp [hv])⟩

end Xv6.Lib.Store
