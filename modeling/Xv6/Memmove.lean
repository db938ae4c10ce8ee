import Xv6.Lib.Memory

/-!
The two `memmove`s: the kernel's in `string.c`, which chooses the direction it copies in, and the
user library's in `ulib.c`, which always copies upwards. Pointers have 32 bits and wrap.
-/

namespace Xv6.Memmove

open Xv6.Lib.Memory

/-- `while(n-- > 0) *d++ = *s++`. -/
def copyUp : ℕ → ℕ → ℕ → Mem → Mem
  | 0, _, _, m => m
  | n + 1, d, s, m =>
    copyUp n ((d + 1) % 2 ^ 32) ((s + 1) % 2 ^ 32) (Function.update m d (m s))

/-- `while(n-- > 0) *--d = *--s`. -/
def copyDown : ℕ → ℕ → ℕ → Mem → Mem
  | 0, _, _, m => m
  | n + 1, d, s, m =>
    let d := (d + 2 ^ 32 - 1) % 2 ^ 32
    let s := (s + 2 ^ 32 - 1) % 2 ^ 32
    copyDown n d s (Function.update m d (m s))

def memmove (m : Mem) (dst src n : ℕ) : Mem :=
  if src < dst ∧ (src + n) % 2 ^ 32 > dst then
    copyDown n ((dst + n) % 2 ^ 32) ((src + n) % 2 ^ 32) m
  else copyUp n dst src m

/-- `memmove` of `ulib.c`, where the count is an `int`. -/
def ulibMemmove (m : Mem) (vdst vsrc : ℕ) (n : ℤ) : Mem := copyUp n.toNat vdst vsrc m

/-- What a move is for: the old contents of the source at the destination, the rest as it was. -/
def moved (m : Mem) (dst src n : ℕ) : Mem :=
  fun x => if dst ≤ x ∧ x < dst + n then m (src + (x - dst)) else m x

variable {m : Mem} {dst src n : ℕ}

lemma moved_zero : moved m dst src 0 = m := by
  funext x
  exact if_neg (by omega)

/-- Upwards, the byte that is overwritten has been copied, or is not of the source. -/
lemma moved_succ_up (h : dst ≤ src ∨ src + (n + 1) ≤ dst) :
    moved (Function.update m dst (m src)) (dst + 1) (src + 1) n = moved m dst src (n + 1) := by
  funext x
  unfold moved
  by_cases hx : x = dst
  · subst hx
    rw [if_neg (by omega), if_pos (by omega), Function.update_self, Nat.sub_self, Nat.add_zero]
  · by_cases hin : dst + 1 ≤ x ∧ x < dst + 1 + n
    · rw [if_pos hin, if_pos (by omega), Function.update_of_ne (by omega)]
      congr 1
      omega
    · rw [if_neg hin, if_neg (by omega), Function.update_of_ne hx]

lemma moved_succ_down (h : src ≤ dst ∨ dst + (n + 1) ≤ src) :
    moved (Function.update m (dst + n) (m (src + n))) dst src n = moved m dst src (n + 1) := by
  funext x
  unfold moved
  by_cases hx : x = dst + n
  · subst hx
    rw [if_neg (by omega), if_pos (by omega), Function.update_self, Nat.add_sub_cancel_left]
  · by_cases hin : dst ≤ x ∧ x < dst + n
    · rw [if_pos hin, if_pos (by omega), Function.update_of_ne (by omega)]
    · rw [if_neg hin, if_neg (by omega), Function.update_of_ne hx]

lemma copyUp_eq (hd : dst + n ≤ 2 ^ 32) (hs : src + n ≤ 2 ^ 32)
    (h : dst ≤ src ∨ src + n ≤ dst) : copyUp n dst src m = moved m dst src n := by
  induction n generalizing m dst src with
  | zero => exact moved_zero.symm
  | succ n ih =>
    rw [copyUp, ← moved_succ_up h]
    rcases Nat.eq_zero_or_pos n with rfl | hn
    · -- the pointers may have wrapped, and are not used any more
      rw [copyUp, moved_zero]
    · rw [Nat.mod_eq_of_lt (by omega), Nat.mod_eq_of_lt (by omega)]
      exact ih (by omega) (by omega) (by omega)

lemma copyDown_eq (hd : dst + n ≤ 2 ^ 32) (hs : src + n ≤ 2 ^ 32) (h : src ≤ dst ∨ dst + n ≤ src) :
    copyDown n ((dst + n) % 2 ^ 32) ((src + n) % 2 ^ 32) m = moved m dst src n := by
  induction n generalizing m with
  | zero => exact moved_zero.symm
  | succ n ih =>
    have hback : ∀ a, a + (n + 1) ≤ 2 ^ 32 →
        ((a + (n + 1)) % 2 ^ 32 + 2 ^ 32 - 1) % 2 ^ 32 = a + n := by omega
    rw [copyDown, hback dst hd, hback src hs, ← moved_succ_down h,
      ← ih (by omega) (by omega) (by omega), Nat.mod_eq_of_lt (by omega : dst + n < 2 ^ 32),
      Nat.mod_eq_of_lt (by omega : src + n < 2 ^ 32)]

end Xv6.Memmove
