import Xv6.VmRun
import Xv6.Sbrk

/-!
What `copyout` writes, for every directory. It goes through pages for user programs only, and stops
at the first byte that has none; but where even the page table is missing, `uva2ka` reads through
the null pointer of `walkpgdir`. `exec` calls it with addresses that may have wrapped round.
-/

namespace Xv6.PageTable

open Xv6.Lib.Own

/-- How `copyout` ends after `n` bytes. -/
def copyOutcome (d : Dir) (zero : Option ℕ) (va : ℕ) (p : List UInt8) (n : ℕ) :
    Outcome Panic Bool :=
  if n = p.length then .done true
  else if (d.tab (pdx ((va + n) % 2 ^ 32))).isSome then .done false
  else match zero with
    | none => .halted .nullDeref
    | some w => if present w ∧ user w then .halted .nullDeref else .done false

section Run

variable {G : Type} {d : Dir} {va : ℕ} {p : List UInt8}

lemma CopiedOut.unique {n m : ℕ} (hn : CopiedOut d va p n) (hm : CopiedOut d va p m) : n = m := by
  have hle {n m : ℕ} (hn : CopiedOut d va p n) (hm : CopiedOut d va p m) : n ≤ m := by
    by_contra hlt
    have hm' := hm.stop (by have := hn.le; omega)
    exact hm' (hn.acc m (by omega))
  exact le_antisymm (hle hn hm) (hle hm hn)

/-- The outcome of the turns after the first. -/
lemma copyOutcome_cons {zero : Option ℕ} {n : ℕ} (hn : n ≤ (p.drop (chunk va p)).length) :
    copyOutcome d zero ((pgrounddown va + PGSIZE) % 2 ^ 32) (p.drop (chunk va p)) n =
      copyOutcome d zero va p (chunk va p + n) := by
  have hle : chunk va p ≤ p.length := chunk_le
  rw [List.length_drop] at hn
  unfold copyOutcome
  rw [List.length_drop]
  by_cases hall : chunk va p + n = p.length
  · rw [if_pos hall, if_pos (by omega)]
  · rw [if_neg hall, if_neg (by omega), chunk_next (p := p) (by omega)]

/-- **`copyout`** writes the bytes up to the first that it cannot write. -/
theorem run_copyout (fails : ℕ → Bool) (zero : Option ℕ) (h : Heap ℕ) (s : G) (mem : ℕ → Page)
    (hva : va < 2 ^ 32) : ∃ n, CopiedOut d va p n ∧ run fails (copyout zero va p) h s ⟨d, mem⟩ =
      ⟨copyOutcome d zero va p n, h, s, ⟨d, pokes d va (p.take n) mem⟩⟩ := by
  induction hlen : p.length using Nat.strong_induction_on generalizing va p mem with
  | h n ih =>
  subst hlen
  unfold copyout
  split_ifs with hp
  · subst hp
    exact ⟨0, .nil, rfl⟩
  have hpos : 0 < p.length := List.length_pos_iff.mpr hp
  have hsame : pdx ((va + 0) % 2 ^ 32) = pdx (pgrounddown va) := by
    unfold pdx pgrounddown PGSIZE
    omega
  rw [run_get_bind]
  dsimp only
  rw [show min (PGSIZE - (va - pgrounddown va)) p.length = chunk va p from rfl]
  split_ifs with ht hw
  · obtain ⟨m, hm, hrun⟩ := ih (p.drop (chunk va p)).length (drop_chunk_lt hp)
      (Function.update mem (pteAddr (d.pte (pgrounddown va))) (blit
        (mem (pteAddr (d.pte (pgrounddown va)))) (va - pgrounddown va) (p.take (chunk va p))))
      (pgrounddown_next_lt va) rfl
    refine ⟨chunk va p + m, .cons hva hw hm, ?_⟩
    rw [copyOutcome_cons hm.le, pokes_cons hva] at hrun
    exact hrun
  · refine ⟨0, .none hva hw, ?_⟩
    unfold copyOutcome
    rw [if_neg (by omega), hsame, if_pos ht]
    rfl
  · have hnone : d.tab (pdx (pgrounddown va)) = none := by simpa using ht
    have hacc : ¬ accessible d (pgrounddown va) := fun hacc => by
      rw [accessible, pte_of_tab_none hnone] at hacc
      exact not_present_zero hacc.1
    refine ⟨0, .none hva hacc, ?_⟩
    unfold copyOutcome
    rw [if_neg (by omega), hsame, if_neg ht]
    rcases zero with _ | w
    · rfl
    · dsimp only
      split_ifs <;> rfl

end Run

/-- `copyout` does what it should whatever there is at address `0`: it returns `0` with all bytes
written through pages for user programs, or `-1` with a part of them. -/
def CopiesOut (d : Dir) (va : ℕ) (p : List UInt8) : Prop :=
  ∀ (zero : Option ℕ) (fails : ℕ → Bool) (h : Heap ℕ) (mem : ℕ → Page),
    ∃ n, CopiedOut d va p n ∧ run fails (copyout zero va p) h () ⟨d, mem⟩ =
      ⟨.done (decide (n = p.length)), h, (), ⟨d, pokes d va (p.take n) mem⟩⟩

/-- Every byte that `copyout` comes to has a page table. -/
def Covered (d : Dir) (va : ℕ) (p : List UInt8) : Prop :=
  ∀ n < p.length, (∀ k < n, accessible d ((va + k) % 2 ^ 32)) →
    (d.tab (pdx ((va + n) % 2 ^ 32))).isSome

lemma copiesOut_iff {d : Dir} {va : ℕ} {p : List UInt8} (hva : va < 2 ^ 32) :
    CopiesOut d va p ↔ Covered d va p := by
  refine ⟨fun hc n hn hacc => ?_, fun hc zero fails h mem => ?_⟩
  · by_contra ht
    have hstop : ¬ accessible d ((va + n) % 2 ^ 32) := fun ha => ht (tab_of_present ha.1)
    have hcopied : CopiedOut d va p n := ⟨hn.le, hacc, fun _ => hstop⟩
    obtain ⟨m, hm, hrun⟩ := hc none (fun _ => false) ⟨[], 0⟩ fun _ _ => 0
    obtain ⟨m', hm', hrun'⟩ := run_copyout (fun _ => false) none ⟨[], 0⟩ () (fun _ _ => 0) hva
    unfold copyOutcome at hrun'
    rw [hrun', hm'.unique hcopied, if_neg hn.ne, if_neg ht] at hrun
    cases congrArg Result.out hrun
  · obtain ⟨n, hn, hrun⟩ := run_copyout fails zero h () mem hva
    refine ⟨n, hn, ?_⟩
    rw [hrun]
    unfold copyOutcome
    split_ifs with hall ht
    · rw [decide_eq_true hall]
    · rw [decide_eq_false hall]
    · exact absurd (hc n (lt_of_le_of_ne hn.le hall) hn.acc) ht

end Xv6.PageTable
