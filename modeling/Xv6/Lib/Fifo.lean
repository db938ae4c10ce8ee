import Mathlib.Data.List.Basic
import Mathlib.Logic.Function.Basic
import Mathlib.Tactic.Common

/-!
Queues in a ring of `n` slots: the entries are those from the head on, going round, up to but not
including the tail. Head and tail are slot numbers, so a ring with equal head and tail is empty.
-/

namespace Xv6.Lib.Fifo

variable {α β : Type*} {n h t k i : ℕ} {slot : ℕ → α} {x : α}

/-- How many entries lie between head and tail. -/
def dist (n h t : ℕ) : ℕ := (n - h + t) % n

/-- The `k` entries from slot `h` on. -/
def window (n : ℕ) (slot : ℕ → α) (h k : ℕ) : List α :=
  (List.range k).map fun j => slot ((h + j) % n)

/-- The entries of the queue. -/
def entries (n : ℕ) (slot : ℕ → α) (h t : ℕ) : List α := window n slot h (dist n h t)

/-- The slots of the queue. -/
def slots (n h t : ℕ) : List ℕ := entries n id h t

lemma dist_lt (hn : 0 < n) : dist n h t < n := Nat.mod_lt _ hn

lemma add_dist (hh : h < n) (ht : t < n) : (h + dist n h t) % n = t := by
  unfold dist
  rw [Nat.add_mod_mod, show h + (n - h + t) = t + n by omega, Nat.add_mod_right,
    Nat.mod_eq_of_lt ht]

lemma dist_self (hh : h < n) : dist n h h = 0 := by
  unfold dist
  rw [show n - h + h = n by omega, Nat.mod_self]

/-- The distance as a number below `n`. -/
lemma dist_eq (hh : h < n) (ht : t < n) : dist n h t = if h ≤ t then t - h else n - h + t := by
  unfold dist
  split_ifs with hle
  · rw [show n - h + t = t - h + n by omega, Nat.add_mod_right, Nat.mod_eq_of_lt (by omega)]
  · rw [Nat.mod_eq_of_lt (by omega)]

/-- The tail moves on, if it does not run into the head. -/
lemma dist_push (hh : h < n) (ht : t < n) (hroom : (t + 1) % n ≠ h) :
    dist n h ((t + 1) % n) = dist n h t + 1 := by
  have hlt : (t + 1) % n < n := Nat.mod_lt _ (by omega)
  rw [dist_eq hh hlt, dist_eq hh ht]
  rcases Nat.lt_or_ge (t + 1) n with h1 | h1
  · rw [Nat.mod_eq_of_lt h1] at hroom ⊢
    split_ifs <;> omega
  · rw [show t + 1 = n by omega, Nat.mod_self] at hroom ⊢
    split_ifs <;> omega

/-- The head moves on. -/
lemma dist_pop (hh : h < n) (ht : t < n) (hne : h ≠ t) :
    dist n h t = dist n ((h + 1) % n) t + 1 := by
  have hlt : (h + 1) % n < n := Nat.mod_lt _ (by omega)
  rw [dist_eq hlt ht, dist_eq hh ht]
  rcases Nat.lt_or_ge (h + 1) n with h1 | h1
  · rw [Nat.mod_eq_of_lt h1]
    split_ifs <;> omega
  · rw [show h + 1 = n by omega, Nat.mod_self]
    split_ifs <;> omega

lemma window_push (n : ℕ) (slot : ℕ → α) (h k : ℕ) :
    window n slot h (k + 1) = window n slot h k ++ [slot ((h + k) % n)] := by
  rw [window, window, List.range_succ, List.map_append, List.map_singleton]

lemma window_pop (hh : h < n) (slot : ℕ → α) (k : ℕ) :
    window n slot h (k + 1) = slot h :: window n slot ((h + 1) % n) k := by
  rw [window, window, List.range_succ_eq_map, List.map_cons, List.map_map, Nat.add_zero,
    Nat.mod_eq_of_lt hh]
  congr 1
  refine List.map_congr_left fun j _ => ?_
  rw [Function.comp_apply, Nat.mod_add_mod, Nat.succ_eq_add_one,
    show h + (j + 1) = h + 1 + j by omega]

lemma entries_self (hh : h < n) : entries n slot h h = [] := by
  rw [entries, dist_self hh]
  rfl

/-- An entry is put in at the tail. -/
lemma entries_push (hh : h < n) (ht : t < n) (hroom : (t + 1) % n ≠ h) :
    entries n slot h ((t + 1) % n) = entries n slot h t ++ [slot t] := by
  rw [entries, entries, dist_push hh ht hroom, window_push, add_dist hh ht]

/-- The entry at the head is taken. -/
lemma entries_pop (hh : h < n) (ht : t < n) (hne : h ≠ t) :
    entries n slot h t = slot h :: entries n slot ((h + 1) % n) t := by
  rw [entries, entries, dist_pop hh ht hne, window_pop hh]

lemma entries_eq_map (slot : ℕ → α) : entries n slot h t = (slots n h t).map slot := by
  rw [slots, entries, entries, window, window, List.map_map]
  rfl

lemma entries_congr {slot' : ℕ → α} (hs : ∀ i ∈ slots n h t, slot' i = slot i) :
    entries n slot' h t = entries n slot h t := by
  rw [entries_eq_map, entries_eq_map]
  exact List.map_congr_left hs

/-- The tail is not one of the slots in use. -/
lemma tail_notMem (hh : h < n) (ht : t < n) : t ∉ slots n h t := by
  intro hm
  obtain ⟨j, hj, he⟩ := List.mem_map.mp hm
  have hj' : j < dist n h t := List.mem_range.mp hj
  have hlt := dist_lt (n := n) (h := h) (t := t) (by omega)
  have he' : (h + j) % n = t := he
  rw [dist_eq hh ht] at hj' hlt
  rcases Nat.lt_or_ge (h + j) n with h1 | h1
  · rw [Nat.mod_eq_of_lt h1] at he'
    split_ifs at hj' <;> omega
  · rw [Nat.mod_eq_sub_mod h1, Nat.mod_eq_of_lt (by split_ifs at hj' <;> omega)] at he'
    split_ifs at hj' <;> omega

/-- Moving the head on leaves fewer slots in use. -/
lemma mem_slots_pop (hh : h < n) (ht : t < n) (hne : h ≠ t) (hi : i ∈ slots n ((h + 1) % n) t) :
    i ∈ slots n h t := by
  rw [slots, entries_pop hh ht hne]
  exact List.mem_cons_of_mem _ hi

end Xv6.Lib.Fifo
