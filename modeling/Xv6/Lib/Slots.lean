import Mathlib.Logic.Function.Basic
import Mathlib.Tactic.Common

/-!
A bitmap and the places that name what is marked in it. The books are exact if a place names only
what is marked, no two places name the same, and everything marked in an area is named.
-/

namespace Xv6.Lib.Slots

open Function (update update_of_ne update_self)

variable {P B : Type*} {area : B → Prop} {used : B → Bool} {named : P → Option B} {p : P} {b : B}

structure Exact (area : B → Prop) (used : B → Bool) (named : P → Option B) : Prop where
  marked : ∀ p b, named p = some b → area b ∧ used b = true
  inj : ∀ p q b, named p = some b → named q = some b → p = q
  owned : ∀ b, area b → used b = true → ∃ p, named p = some b

/-- What is free is not named. -/
lemma Exact.absent (h : Exact area used named) (hb : used b = false) (p : P) : named p ≠ some b :=
  fun hp =>
  absurd ((h.marked p b hp).2.symm.trans hb) nofun

section Change

variable [DecidableEq P] [DecidableEq B]

/-- Something free is marked and named. -/
lemma Exact.put (h : Exact area used named) (hp : named p = none) (ha : area b)
    (hb : used b = false) :
    Exact area (update used b true) (update named p (some b)) where
  marked q c hq := by
    by_cases hqp : q = p
    · subst hqp
      rw [update_self] at hq
      cases hq
      exact ⟨ha, update_self ..⟩
    · rw [update_of_ne hqp] at hq
      obtain ⟨hac, huc⟩ := h.marked q c hq
      have hcb : c ≠ b := fun e => h.absent hb q (e ▸ hq)
      exact ⟨hac, by rw [update_of_ne hcb, huc]⟩
  inj q r c hq hr := by
    by_cases hqp : q = p
    · subst hqp
      by_cases hrq : r = q
      · exact hrq.symm
      · rw [update_self] at hq
        rw [update_of_ne hrq] at hr
        cases hq
        exact absurd hr (h.absent hb r)
    · rw [update_of_ne hqp] at hq
      by_cases hrp : r = p
      · subst hrp
        rw [update_self] at hr
        cases hr
        exact absurd hq (h.absent hb q)
      · rw [update_of_ne hrp] at hr
        exact h.inj q r c hq hr
  owned c hac huc := by
    by_cases hcb : c = b
    · subst hcb
      exact ⟨p, update_self ..⟩
    · rw [update_of_ne hcb] at huc
      obtain ⟨q, hq⟩ := h.owned c hac huc
      have hqp : q ≠ p := by
        rintro rfl
        rw [hp] at hq
        cases hq
      exact ⟨q, by rw [update_of_ne hqp, hq]⟩

/-- What a place names is freed and forgotten. -/
lemma Exact.drop (h : Exact area used named) (hp : named p = some b) :
    Exact area (update used b false) (update named p none) where
  marked q c hq := by
    by_cases hqp : q = p
    · subst hqp
      rw [update_self] at hq
      cases hq
    · rw [update_of_ne hqp] at hq
      have hcb : c ≠ b := by
        rintro rfl
        exact hqp (h.inj q p c hq hp)
      rw [update_of_ne hcb]
      exact h.marked q c hq
  inj q r c hq hr := by
    have hne {x : P} (hx : update named p none x = some c) : named x = some c := by
      by_cases hxp : x = p
      · subst hxp
        rw [update_self] at hx
        cases hx
      · rwa [update_of_ne hxp] at hx
    exact h.inj q r c (hne hq) (hne hr)
  owned c hac huc := by
    have hcb : c ≠ b := by
      rintro rfl
      rw [update_self] at huc
      cases huc
    rw [update_of_ne hcb] at huc
    obtain ⟨q, hq⟩ := h.owned c hac huc
    have hqp : q ≠ p := by
      rintro rfl
      exact hcb (Option.some.inj (hq.symm.trans hp))
    exact ⟨q, by rw [update_of_ne hqp, hq]⟩

end Change

/-! ### Several places at once -/

section Clear

variable [DecidableEq P]

/-- The places `ps` name nothing any more. -/
def clear (named : P → Option B) (ps : List P) : P → Option B := fun p => if p ∈ ps then none else named p

lemma clear_of_mem {ps : List P} (h : p ∈ ps) : clear named ps p = none := if_pos h

lemma clear_of_not_mem {ps : List P} (h : p ∉ ps) : clear named ps p = named p := if_neg h

lemma clear_nil : clear named [] = named := by
  funext p
  exact clear_of_not_mem List.not_mem_nil

lemma clear_one : clear named [p] = update named p none := by
  funext q
  by_cases hq : q = p
  · subst hq
    rw [clear_of_mem (List.mem_singleton.mpr rfl), update_self]
  · rw [clear_of_not_mem (fun h => hq (List.mem_singleton.mp h)), update_of_ne hq]

lemma clear_append (ps qs : List P) : clear (clear named ps) qs = clear named (ps ++ qs) := by
  funext p
  simp only [clear, List.mem_append]
  by_cases hq : p ∈ qs
  · rw [if_pos hq, if_pos (Or.inr hq)]
  · rw [if_neg hq]
    by_cases hp : p ∈ ps
    · rw [if_pos hp, if_pos (Or.inl hp)]
    · rw [if_neg hp, if_neg (not_or.mpr ⟨hp, hq⟩)]

/-- Places that name nothing need no clearing. -/
lemma clear_of_none {ps : List P} (h : ∀ p ∈ ps, named p = none) : clear named ps = named := by
  funext p
  by_cases hp : p ∈ ps
  · rw [clear_of_mem hp, h p hp]
  · exact clear_of_not_mem hp

end Clear

end Xv6.Lib.Slots
