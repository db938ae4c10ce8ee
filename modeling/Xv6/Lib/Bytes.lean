import Mathlib.Data.List.Basic
import Mathlib.Data.Nat.Bitwise
import Mathlib.Tactic.Ring

/-!
Numbers as bytes, in little-endian and big-endian order, and the fields of a number that a mask
selects.
-/

namespace Xv6.Lib.Bytes

/-- The number whose bytes are `bs`, the lowest first. -/
def le : List UInt8 → ℕ
  | [] => 0
  | b :: bs => b.toNat + 256 * le bs

/-- The number whose bytes are `bs`, the highest first. -/
def be (bs : List UInt8) : ℕ := le bs.reverse

/-- The lowest `w` bytes of `n`, the lowest first. -/
def leBytes : ℕ → ℕ → List UInt8
  | 0, _ => []
  | w + 1, n => .ofNat n :: leBytes w (n / 256)

@[simp] lemma length_leBytes (w n : ℕ) : (leBytes w n).length = w := by
  induction w generalizing n with
  | zero => rfl
  | succ w ih => simp [leBytes, ih]

lemma le_replicate_zero (n : ℕ) : le (List.replicate n 0) = 0 := by
  induction n with
  | zero => rfl
  | succ n ih =>
    rw [List.replicate_succ, le, ih]
    rfl

lemma le_leBytes (w n : ℕ) : le (leBytes w n) = n % 256 ^ w := by
  induction w generalizing n with
  | zero => simp [leBytes, le, Nat.mod_one]
  | succ w ih =>
    rw [leBytes, le, ih, pow_succ', Nat.mod_mul, UInt8.toNat_ofNat']

lemma le_leBytes_of_lt {w n : ℕ} (h : n < 256 ^ w) : le (leBytes w n) = n := by
  rw [le_leBytes, Nat.mod_eq_of_lt h]

/-- Records of `n` bytes one after the other: byte `j` of record `k`. -/
lemma getElem?_flatMap {α β : Type*} {f : α → List β} {n : ℕ} (hf : ∀ a, (f a).length = n)
    (l : List α) (k : ℕ) {j : ℕ} (hj : j < n) :
    (l.flatMap f)[k * n + j]? = l[k]?.bind fun a => (f a)[j]? := by
  induction l generalizing k with
  | nil => simp
  | cons a l ih =>
    rw [List.flatMap_cons]
    cases k with
    | zero =>
      rw [Nat.zero_mul, Nat.zero_add, List.getElem?_append_left (by rw [hf]; exact hj)]
      rfl
    | succ k =>
      have hle : (f a).length ≤ (k + 1) * n + j := by
        rw [hf, Nat.succ_mul]
        omega
      have hsub : (k + 1) * n + j - (f a).length = k * n + j := by
        rw [hf, Nat.succ_mul]
        omega
      rw [List.getElem?_append_right hle, hsub, ih, List.getElem?_cons_succ]

/-- A mask of the bits from `j` up selects a field and leaves it where it is. -/
lemma and_shiftLeft (v m j : ℕ) : v &&& (m <<< j) = ((v >>> j) &&& m) <<< j := by
  apply Nat.eq_of_testBit_eq
  intro i
  by_cases h : j ≤ i
  · simp [h, Nat.testBit_shiftRight, Nat.testBit_shiftLeft]
  · simp [h, Nat.testBit_shiftLeft]

/-- A mask of `k` bits from `j` up, in arithmetic. -/
lemma and_field (v k j : ℕ) : v &&& ((2 ^ k - 1) <<< j) = v / 2 ^ j % 2 ^ k * 2 ^ j := by
  rw [and_shiftLeft, Nat.and_two_pow_sub_one_eq_mod, Nat.shiftLeft_eq, Nat.shiftRight_eq_div_pow]

end Xv6.Lib.Bytes
