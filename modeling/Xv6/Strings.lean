import Mathlib.Data.List.TakeWhile
import Mathlib.Tactic.Ring

/-!
`strncmp` and `strncpy` of `string.c`, on strings that need not end in a NUL within the `n` bytes
that the functions look at.
-/

namespace Xv6.Strings

/-- The bytes in memory from a `char *` on. -/
abbrev CharPtr := ℕ → UInt8

/-- The pointer to the next byte. -/
def CharPtr.next (p : CharPtr) : CharPtr := fun k => p (k + 1)

def strncmp (p q : CharPtr) : ℕ → ℤ
  | 0 => 0
  | n + 1 =>
    if p 0 ≠ 0 ∧ p 0 = q 0 then strncmp p.next q.next n
    else ((p 0).toNat : ℤ) - (q 0).toNat

/-- The `n` bytes that `strncpy` writes. -/
def strncpy (t : CharPtr) : ℕ → List UInt8
  | 0 => []
  | n + 1 => if t 0 = 0 then List.replicate (n + 1) 0 else t 0 :: strncpy t.next n

/-- The first `n` bytes, up to the NUL. -/
def cstr (p : CharPtr) : ℕ → List UInt8
  | 0 => []
  | n + 1 => if p 0 = 0 then [] else p 0 :: cstr p.next n

lemma length_cstr_le (p : CharPtr) (n : ℕ) : (cstr p n).length ≤ n := by
  induction n generalizing p with
  | zero => exact le_rfl
  | succ n ih =>
    rw [cstr]
    split_ifs
    · exact Nat.zero_le _
    · exact Nat.succ_le_succ (ih p.next)

/-- `strncmp` is zero just when the strings are the same. -/
lemma strncmp_eq_zero {p q : CharPtr} {n : ℕ} : strncmp p q n = 0 ↔ cstr p n = cstr q n := by
  induction n generalizing p q with
  | zero => simp [strncmp, cstr]
  | succ n ih =>
    rw [strncmp, cstr, cstr]
    have hsub : ((p 0).toNat : ℤ) - (q 0).toNat = 0 ↔ p 0 = q 0 := by
      rw [sub_eq_zero, Nat.cast_inj, UInt8.toNat_inj]
    by_cases hp : p 0 = 0
    · rw [if_neg fun h => h.1 hp, if_pos hp, hsub, hp]
      by_cases hq : q 0 = 0
      · simp [hq]
      · simp [hq, Ne.symm hq]
    · by_cases hpq : p 0 = q 0
      · rw [if_pos ⟨hp, hpq⟩, if_neg hp, if_neg (hpq ▸ hp), hpq, List.cons.injEq]
        exact ih.trans ⟨fun h => ⟨rfl, h⟩, And.right⟩
      · rw [if_neg fun h => hpq h.2, if_neg hp, hsub]
        split_ifs <;> simp [hpq]

lemma strncpy_eq (t : CharPtr) (n : ℕ) :
    strncpy t n = cstr t n ++ List.replicate (n - (cstr t n).length) 0 := by
  induction n generalizing t with
  | zero => rfl
  | succ n ih =>
    rw [strncpy, cstr]
    split_ifs
    · rfl
    · rw [ih, List.length_cons, Nat.succ_sub_succ, List.cons_append]

lemma length_strncpy (t : CharPtr) (n : ℕ) : (strncpy t n).length = n := by
  have := length_cstr_le t n
  rw [strncpy_eq, List.length_append, List.length_replicate]
  omega

/-- What `strncpy` has written reads back as the same string. -/
lemma takeWhile_strncpy (t : CharPtr) (n : ℕ) : (strncpy t n).takeWhile (· ≠ 0) = cstr t n := by
  induction n generalizing t with
  | zero => rfl
  | succ n ih =>
    rw [strncpy, cstr]
    split_ifs with h0
    · rfl
    · rw [List.takeWhile_cons_of_pos (by simpa using h0), ih]

/-- A string in a buffer. -/
def inBuf (bytes : List UInt8) : CharPtr := fun k => bytes.getD k 0

lemma cstr_inBuf (bytes : List UInt8) (n : ℕ) :
    cstr (inBuf bytes) n = (bytes.take n).takeWhile (· ≠ 0) := by
  induction n generalizing bytes with
  | zero => rfl
  | succ n ih =>
    cases bytes with
    | nil => rfl
    | cons b bs =>
      have hnext : (inBuf (b :: bs)).next = inBuf bs := rfl
      have hhead : inBuf (b :: bs) 0 = b := rfl
      rw [cstr, hnext, hhead, ih, List.take_succ_cons]
      by_cases hb : b = 0
      · rw [if_pos hb, List.takeWhile_cons_of_neg (by simpa using hb)]
      · rw [if_neg hb, List.takeWhile_cons_of_pos (by simpa using hb)]

end Xv6.Strings
