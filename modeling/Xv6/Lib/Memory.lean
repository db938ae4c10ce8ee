import Xv6.Lib.Bytes

/-!
Memory as a function from addresses to bytes: blocks of bytes that are put somewhere and got back,
and words of 32 bits, the lowest byte first.
-/

namespace Xv6.Lib.Memory

open Xv6.Lib.Bytes

abbrev Mem := ℕ → UInt8

def get (m : Mem) (a n : ℕ) : List UInt8 := (List.range n).map fun i => m (a + i)

def put (m : Mem) (a : ℕ) (bs : List UInt8) : Mem :=
  fun x => if a ≤ x then (bs[x - a]?).getD (m x) else m x

variable {m m' : Mem} {a b n x : ℕ} {bs : List UInt8}

@[simp] lemma length_get (m : Mem) (a n : ℕ) : (get m a n).length = n := by simp [get]

lemma getElem?_get (m : Mem) (a n i : ℕ) :
    (get m a n)[i]? = if i < n then some (m (a + i)) else none := by
  unfold get
  rw [List.getElem?_map]
  split_ifs with hi
  · rw [List.getElem?_range hi]
    rfl
  · rw [List.getElem?_eq_none (by simpa using hi)]
    rfl

/-- What is got depends on the bytes there only. -/
lemma get_congr (h : ∀ x, a ≤ x → x < a + n → m' x = m x) : get m' a n = get m a n := by
  apply List.ext_getElem?
  intro i
  rw [getElem?_get, getElem?_get]
  split_ifs with hi
  · rw [h (a + i) (by omega) (by omega)]
  · rfl

lemma put_of_lt (h : x < a) : put m a bs x = m x := if_neg (by omega)

lemma put_of_ge (h : a + bs.length ≤ x) : put m a bs x = m x := by
  unfold put
  rw [if_pos (by omega), List.getElem?_eq_none (by omega)]
  rfl

lemma put_of_disjoint (h : x < a ∨ a + bs.length ≤ x) : put m a bs x = m x :=
  h.elim put_of_lt put_of_ge

lemma get_put (m : Mem) (a : ℕ) (bs : List UInt8) : get (put m a bs) a bs.length = bs := by
  apply List.ext_getElem?
  intro i
  rw [getElem?_get]
  split_ifs with hi
  · unfold put
    rw [if_pos (Nat.le_add_right _ _), Nat.add_sub_cancel_left, List.getElem?_eq_getElem hi]
    rfl
  · exact (List.getElem?_eq_none (by omega)).symm

/-- A sector is read, some bytes of it are changed and it is written back. -/
lemma put_sector {o : ℕ} (h : o + bs.length ≤ n) :
    put m a (get (put (fun j => m (a + j)) o bs) 0 n) = put m (a + o) bs := by
  funext x
  by_cases hlo : x < a
  · rw [put_of_lt hlo, put_of_lt (by omega)]
  · obtain ⟨j, rfl⟩ := Nat.exists_eq_add_of_le (not_lt.mp hlo)
    by_cases hj : j < n
    · conv_lhs => rw [put, if_pos (by omega), Nat.add_sub_cancel_left, getElem?_get, if_pos hj]
      simp only [put, Nat.zero_add, Option.getD_some, Nat.add_le_add_iff_left,
        Nat.add_sub_add_left]
    · rw [put_of_ge (by rw [length_get]; omega), put_of_ge (by omega)]

/-! ### Numbers -/

/-- The number in the `w` bytes from `a` on. -/
def num (m : Mem) (a w : ℕ) : ℕ := le (get m a w)

def putNum (m : Mem) (a w v : ℕ) : Mem := put m a (leBytes w v)

variable {w w' v : ℕ}

lemma num_congr (h : ∀ x, a ≤ x → x < a + w → m' x = m x) : num m' a w = num m a w :=
  congrArg le (get_congr h)

lemma num_zero (a w : ℕ) : num (fun _ => 0) a w = 0 := by
  unfold num get
  rw [List.map_const', List.length_range, le_replicate_zero]

lemma num_putNum (hv : v < 256 ^ w) : num (putNum m a w v) a w = v := by
  have hput := get_put m a (leBytes w v)
  rw [length_leBytes] at hput
  unfold num putNum
  rw [hput, le_leBytes_of_lt hv]

lemma putNum_of_disjoint (h : x < a ∨ a + w ≤ x) : putNum m a w v x = m x :=
  put_of_disjoint (by simpa using h)

lemma num_putNum_of_disjoint (h : b + w' ≤ a ∨ a + w ≤ b) :
    num (putNum m a w v) b w' = num m b w' :=
  num_congr fun _ _ _ => putNum_of_disjoint (by omega)

/-! ### Words -/

def word (m : Mem) (a : ℕ) : UInt32 := .ofNat (le (get m a 4))

def store (m : Mem) (a : ℕ) (v : UInt32) : Mem := put m a (leBytes 4 v.toNat)

lemma word_congr (h : ∀ x, a ≤ x → x < a + 4 → m' x = m x) : word m' a = word m a :=
  congrArg (fun bs => UInt32.ofNat (le bs)) (get_congr h)

variable {v : UInt32}

lemma store_of_disjoint (h : x < a ∨ a + 4 ≤ x) : store m a v x = m x :=
  put_of_disjoint (by simpa using h)

lemma word_store (m : Mem) (a : ℕ) (v : UInt32) : word (store m a v) a = v := by
  have hget : get (store m a v) a 4 = leBytes 4 v.toNat := by
    have hput := get_put m a (leBytes 4 v.toNat)
    rwa [length_leBytes] at hput
  unfold word
  rw [hget, le_leBytes_of_lt (by simpa using UInt32.toNat_lt v), UInt32.ofNat_toNat]

lemma word_store_of_disjoint (h : b + 4 ≤ a ∨ a + 4 ≤ b) : word (store m a v) b = word m b :=
  word_congr fun _ _ _ => store_of_disjoint (by omega)

end Xv6.Lib.Memory
