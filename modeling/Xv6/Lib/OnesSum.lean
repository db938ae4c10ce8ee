import Mathlib.Algebra.BigOperators.Group.List.Basic
import Mathlib.Tactic.Ring

/-!
Sums of 16-bit words in ones' complement, where the carry out of the top bit comes back in at the
bottom.
-/

namespace Xv6.Lib.OnesSum

/-- Addition with the carry brought back. -/
def add (a w : ℕ) : ℕ := if a + w > 0xFFFF then (a + w) % 0x10000 + 1 else a + w

def onesSum (ws : List ℕ) : ℕ := ws.foldl add 0

/-- The 16-bit words of a sequence of bytes, padded with a zero to an even length. -/
def words : List UInt8 → List ℕ
  | [] => []
  | [a] => [a.toNat * 256]
  | a :: b :: rest => (a.toNat * 256 + b.toNat) :: words rest

lemma words_le (bs : List UInt8) : ∀ w ∈ words bs, w ≤ 0xFFFF := by
  induction bs using words.induct with
  | case1 => simp [words]
  | case2 a =>
    have := a.toNat_lt
    simp [words]
    omega
  | case3 a b rest ih =>
    have := a.toNat_lt
    have := b.toNat_lt
    intro w hw
    rcases List.mem_cons.mp hw with rfl | hw
    · omega
    · exact ih w hw

lemma words_append (as bs : List UInt8) (h : as.length % 2 = 0) :
    words (as ++ bs) = words as ++ words bs := by
  induction as using words.induct with
  | case1 => rfl
  | case2 a => simp at h
  | case3 a b rest ih =>
    have hrest : rest.length % 2 = 0 := by
      simp only [List.length_cons] at h
      omega
    simp only [List.cons_append, words, ih hrest]

/-- Addition in ones' complement is addition modulo `2 ^ 16 - 1`, and gives `0` only for `0`. -/
lemma add_spec {a w : ℕ} (ha : a ≤ 0xFFFF) (hw : w ≤ 0xFFFF) :
    add a w ≤ 0xFFFF ∧ add a w % 65535 = (a + w) % 65535 ∧ (add a w = 0 ↔ a + w = 0) := by
  unfold add
  by_cases h : a + w > 0xFFFF
  · have hcarry : (a + w) % 0x10000 + 1 = a + w - 65535 := by omega
    rw [if_pos h, hcarry]
    refine ⟨by omega, ?_, by omega⟩
    exact (Nat.mod_eq_sub_mod (by omega)).symm
  · rw [if_neg h]
    exact ⟨by omega, rfl, Iff.rfl⟩

lemma foldl_add_spec (ws : List ℕ) (hws : ∀ w ∈ ws, w ≤ 0xFFFF) (a : ℕ) (ha : a ≤ 0xFFFF) :
    ws.foldl add a ≤ 0xFFFF ∧ ws.foldl add a % 65535 = (a + ws.sum) % 65535 ∧
      (ws.foldl add a = 0 ↔ a + ws.sum = 0) := by
  induction ws generalizing a with
  | nil => simp [ha]
  | cons w ws ih =>
    obtain ⟨h1, h2, h3⟩ := add_spec ha (hws w (by simp))
    obtain ⟨h4, h5, h6⟩ := ih (fun x hx => hws x (by simp [hx])) (add a w) h1
    rw [List.foldl_cons, List.sum_cons]
    refine ⟨h4, ?_, ?_⟩ <;> omega

/-- A sum is all ones exactly if the plain sum is a multiple of `2 ^ 16 - 1` other than `0`. -/
lemma onesSum_eq_ones_iff {ws : List ℕ} (hws : ∀ w ∈ ws, w ≤ 0xFFFF) :
    onesSum ws = 0xFFFF ↔ ws.sum % 65535 = 0 ∧ ws.sum ≠ 0 := by
  obtain ⟨h1, h2, h3⟩ := foldl_add_spec ws hws 0 (by omega)
  unfold onesSum
  omega

/-- All carries of a plain sum brought back. -/
def endAround (s : ℕ) : ℕ := if s ≤ 0xFFFF then s else endAround (s % 0x10000 + s / 0x10000)

lemma endAround_spec (s : ℕ) :
    endAround s ≤ 0xFFFF ∧ endAround s % 65535 = s % 65535 ∧ (endAround s = 0 ↔ s = 0) := by
  induction s using endAround.induct with
  | case1 s h =>
    rw [endAround, if_pos h]
    exact ⟨h, rfl, Iff.rfl⟩
  | case2 s h ih =>
    rw [endAround, if_neg h]
    refine ⟨ih.1, ih.2.1.trans ?_, ih.2.2.trans ?_⟩ <;> omega

/-- Carries can be brought back in each addition or at the end. -/
lemma onesSum_eq {ws : List ℕ} (hws : ∀ w ∈ ws, w ≤ 0xFFFF) : onesSum ws = endAround ws.sum := by
  obtain ⟨h1, h2, h3⟩ := foldl_add_spec ws hws 0 (by omega)
  obtain ⟨h4, h5, h6⟩ := endAround_spec ws.sum
  unfold onesSum
  omega

/-- A sum together with its complement is all ones. -/
lemma endAround_complement (s : ℕ) : endAround (s + (0xFFFF - endAround s)) = 0xFFFF := by
  obtain ⟨h1, h2, h3⟩ := endAround_spec s
  obtain ⟨h4, h5, h6⟩ := endAround_spec (s + (0xFFFF - endAround s))
  omega

end Xv6.Lib.OnesSum
