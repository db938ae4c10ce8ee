import Mathlib.Data.List.Basic

/-!
A list with a part of it overwritten. The new part starts inside the list or right behind it, and
may go beyond its end.
-/

namespace Xv6.Lib.Splice

variable {α : Type*} {l src : List α} {off : ℕ}

/-- The list with `src` written at `off`. -/
def splice (l : List α) (off : ℕ) (src : List α) : List α :=
  l.take off ++ src ++ l.drop (off + src.length)

lemma length_splice (h : off ≤ l.length) :
    (splice l off src).length = max l.length (off + src.length) := by
  simp only [splice, List.length_append, List.length_take, List.length_drop]
  omega

lemma getElem?_splice (h : off ≤ l.length) (k : ℕ) :
    (splice l off src)[k]? = if off ≤ k ∧ k < off + src.length then src[k - off]? else l[k]? := by
  have hlen : (l.take off).length = off := by
    rw [List.length_take]
    omega
  unfold splice
  rcases Nat.lt_or_ge k off with hk | hk
  · rw [if_neg (by omega), List.append_assoc, List.getElem?_append_left (by omega),
      List.getElem?_take_of_lt hk]
  rcases Nat.lt_or_ge k (off + src.length) with hk' | hk'
  · rw [if_pos ⟨hk, hk'⟩, List.append_assoc, List.getElem?_append_right (by omega), hlen,
      List.getElem?_append_left (by omega)]
  · have hrest : off + src.length + (k - off - src.length) = k := by omega
    rw [if_neg (by omega), List.append_assoc, List.getElem?_append_right (by omega), hlen,
      List.getElem?_append_right (by omega), List.getElem?_drop, hrest]

end Xv6.Lib.Splice
