import Mathlib.Algebra.BigOperators.Group.Finset.Basic
import Mathlib.Tactic.Abel
import Xv6.PageTable

/-!
The pages an address space owns, and what each function of `vm.c` does to them and to the page
table entries.
-/

namespace Xv6.PageTable

open Xv6.Lib.Own

/-! ### The pages of a directory -/

/-- The user page a page table entry maps. -/
def ptePage (w : ℕ) : Multiset ℕ := if present w then {pteAddr w} else 0

/-- The user pages mapped through entry `i` of the directory. -/
def tabUser (d : Dir) (i : ℕ) : Multiset ℕ :=
  match d.tab i with
  | some t => ∑ j ∈ Finset.range 1024, ptePage (t.pte j)
  | none => 0

def tabPage (d : Dir) (i : ℕ) : Multiset ℕ :=
  match d.tab i with
  | some t => {t.page}
  | none => 0

def dirPage (d : Dir) : Multiset ℕ :=
  match d.page with
  | some p => {p}
  | none => 0

/-- The directory, its page tables, and the user pages mapped below `KERNBASE`. -/
def pages (d : Dir) : Multiset ℕ :=
  dirPage d + ∑ i ∈ Finset.range 1024, tabPage d i + ∑ i ∈ Finset.range 512, tabUser d i

lemma pages_null : pages Dir.null = 0 := by
  simp [pages, dirPage, tabPage, tabUser, Dir.null]

lemma pages_dir (pgdir : ℕ) : pages ⟨some pgdir, fun _ => none⟩ = {pgdir} := by
  simp [pages, dirPage, tabPage, tabUser]

variable {i va va' : ℕ} {d : Dir}

/-- Changing one term of a sum. -/
lemma sum_change {n : ℕ} (hi : i < n) {f g : ℕ → Multiset ℕ} (h : ∀ j, j ≠ i → f j = g j) :
    ∑ j ∈ Finset.range n, f j + g i = ∑ j ∈ Finset.range n, g j + f i := by
  have hmem : i ∈ Finset.range n := Finset.mem_range.mpr hi
  have hrest : ∑ j ∈ (Finset.range n).erase i, f j = ∑ j ∈ (Finset.range n).erase i, g j :=
    Finset.sum_congr rfl fun j hj => h j (Finset.ne_of_mem_erase hj)
  rw [← Finset.add_sum_erase _ f hmem, ← Finset.add_sum_erase _ g hmem, hrest]
  rw [add_right_comm, add_right_comm (g i), add_comm (f i)]

lemma sum_same {n : ℕ} (hi : n ≤ i) {f g : ℕ → Multiset ℕ} (h : ∀ j, j ≠ i → f j = g j) :
    ∑ j ∈ Finset.range n, f j = ∑ j ∈ Finset.range n, g j :=
  Finset.sum_congr rfl fun j hj => h j (by have := Finset.mem_range.mp hj; omega)

section SetTab

variable (d : Dir) (i : ℕ) (t : Option Table)

lemma tabPage_setTab {j : ℕ} (hj : j ≠ i) : tabPage (d.setTab i t) j = tabPage d j := by
  simp [tabPage, Dir.setTab, hj]

lemma tabUser_setTab {j : ℕ} (hj : j ≠ i) : tabUser (d.setTab i t) j = tabUser d j := by
  simp [tabUser, Dir.setTab, hj]

/-- What replacing one page table does to the pages. -/
lemma pages_setTab (hi : i < 1024) :
    pages (d.setTab i t) + (tabPage d i + if i < 512 then tabUser d i else 0) =
      pages d + (tabPage (d.setTab i t) i + if i < 512 then tabUser (d.setTab i t) i else 0) := by
  have hdir : dirPage (d.setTab i t) = dirPage d := rfl
  have htab := sum_change hi (f := tabPage (d.setTab i t)) (g := tabPage d)
    fun j hj => tabPage_setTab d i t hj
  have huser : ∑ j ∈ Finset.range 512, tabUser (d.setTab i t) j +
    (if i < 512 then tabUser d i else 0) =
      ∑ j ∈ Finset.range 512, tabUser d j + if i < 512 then tabUser (d.setTab i t) i else 0 := by
    split_ifs with hi'
    · exact sum_change hi' fun j hj => tabUser_setTab d i t hj
    · rw [add_zero, add_zero]
      exact sum_same (by omega) fun j hj => tabUser_setTab d i t hj
  unfold pages
  rw [hdir]
  calc _ = dirPage d + (∑ j ∈ Finset.range 1024, tabPage (d.setTab i t) j + tabPage d i) +
        (∑ j ∈ Finset.range 512, tabUser (d.setTab i t) j + if i <
          512 then tabUser d i else 0) := by
          abel
    _ = _ := by
          rw [htab, huser]
          abel

end SetTab

/-- A new page table. -/
lemma pages_newTab {pa : ℕ} (hi : i < 1024) (hd : d.tab i = none) :
    pages (d.setTab i (some ⟨pa, fun _ => 0⟩)) = pa ::ₘ pages d := by
  have h := pages_setTab d i (some ⟨pa, fun _ => 0⟩) hi
  have h0 : tabPage d i = 0 ∧ tabUser d i = 0 := by simp [tabPage, tabUser, hd]
  have h1 : tabPage (d.setTab i (some ⟨pa, fun _ => 0⟩)) i = {pa} := by simp [tabPage, Dir.setTab]
  have h2 : tabUser (d.setTab i (some ⟨pa, fun _ => 0⟩)) i = 0 := by
    simp [tabUser, Dir.setTab, ptePage, present]
  simpa [h0, h1, h2, add_comm] using h

/-- A page table without user pages is dropped. -/
lemma pages_dropTab {t : Table} (hi : i < 1024) (hd : d.tab i = some t)
    (hu : i < 512 → tabUser d i = 0) : pages d = t.page ::ₘ pages (d.setTab i none) := by
  have h := pages_setTab d i none hi
  have h0 : tabPage (d.setTab i none) i = 0 ∧ tabUser (d.setTab i none) i = 0 := by
    simp [tabPage, tabUser, Dir.setTab]
  have h1 : tabPage d i = {t.page} := by simp [tabPage, hd]
  have h2 : (if i < 512 then tabUser d i else 0) = 0 := by
    split_ifs with hi'
    · exact hu hi'
    · rfl
  rw [h0.1, h0.2, h1, h2] at h
  simpa [add_comm] using h.symm

/-- One page table entry is written. -/
lemma pages_setPte {w : ℕ} (hd : (d.tab (pdx va)).isSome) :
    pages (d.setPte va w) + (if pdx va < 512 then ptePage (d.pte va) else 0) =
      pages d + if pdx va < 512 then ptePage w else 0 := by
  obtain ⟨t, ht⟩ := Option.isSome_iff_exists.mp hd
  have hi : pdx va < 1024 := Nat.mod_lt _ (by decide)
  have hj : ptx va < 1024 := Nat.mod_lt _ (by decide)
  have h := pages_setTab d (pdx va) ((d.tab (pdx va)).map fun t => t.set (ptx va) w) hi
  change pages (d.setPte va w) + _ = pages d + _ at h
  have h1 : tabPage d (pdx va) = {t.page} := by simp [tabPage, ht]
  have h2 : tabPage (d.setPte va w) (pdx va) = {t.page} := by
    simp [tabPage, Dir.setPte, Dir.setTab, ht, Table.set]
  have hpte : d.pte va = t.pte (ptx va) := by simp [Dir.pte, ht]
  have h3 : tabUser (d.setPte va w) (pdx va) + ptePage (d.pte va) = tabUser d (pdx va) +
      ptePage w := by
    have hc := sum_change hj (f := fun j => ptePage ((t.set (ptx va) w).pte j))
      (g := fun j => ptePage (t.pte j)) fun j hne => by simp [Table.set, hne]
    simpa [tabUser, Dir.setPte, Dir.setTab, ht, hpte, Table.set] using hc
  change pages (d.setPte va w) + (tabPage d (pdx va) + _) =
    pages d + (tabPage (d.setPte va w) (pdx va) + if pdx va < 512 then tabUser (d.setPte va w)
      (pdx va) else 0) at h
  rw [h1, h2] at h
  split_ifs at h ⊢ with hu
  · apply add_right_cancel (b := {t.page} + tabUser d (pdx va))
    calc _ = pages (d.setPte va w) + ({t.page} + tabUser d (pdx va)) + ptePage (d.pte va) := by abel
      _ = pages d + ({t.page} + (tabUser (d.setPte va w) (pdx va) + ptePage (d.pte va))) := by
          rw [h]
          abel
      _ = _ := by
          rw [h3]
          abel
  · apply add_right_cancel (b := {t.page})
    simpa using h

/-! ### Page table entries -/

lemma pdx_lt (va : ℕ) : pdx va < 1024 := Nat.mod_lt _ (by decide)

lemma ptx_lt (va : ℕ) : ptx va < 1024 := Nat.mod_lt _ (by decide)

lemma pdx_user (h : va < KERNBASE) : pdx va < 512 := by
  unfold KERNBASE at h
  unfold pdx
  omega

lemma pdx_kernel (h : KERNBASE ≤ va) (h' : va < 2 ^ 32) : 512 ≤ pdx va := by
  unfold KERNBASE at h
  unfold pdx
  omega

lemma pteWord_present (pa perm : ℕ) : present (pteWord pa perm) := by
  unfold present pteWord PTE_P
  exact Nat.or_mod_two_eq_one.mpr (Or.inr rfl)

section Word

variable {pa perm : ℕ} (hpa : pa % PGSIZE = 0) (hperm : perm < PGSIZE)
include hpa hperm

lemma pteWord_eq : pteWord pa perm = pa + (perm ||| 1) ∧ (perm ||| 1) < 4096 := by
  have hlt : (perm ||| 1) < 2 ^ 12 := Nat.or_lt_two_pow hperm (by decide)
  refine ⟨?_, hlt⟩
  have hpa' : pa = 2 ^ 12 * (pa / 2 ^ 12) := by
    have : pa % 4096 = 0 := hpa
    omega
  unfold pteWord PTE_P
  rw [Nat.or_assoc, hpa', Nat.two_pow_add_eq_or_of_lt hlt]

lemma pteWord_addr : pteAddr (pteWord pa perm) = pa := by
  obtain ⟨he, hlt⟩ := pteWord_eq hpa hperm
  have : pa % 4096 = 0 := hpa
  rw [he]
  unfold pteAddr PGSIZE
  omega

lemma user_pteWord : user (pteWord pa perm) ↔ user perm := by
  obtain ⟨he, hlt⟩ := pteWord_eq hpa hperm
  have hor : (perm ||| 1) / 4 = perm / 4 := by
    have h := Nat.or_div_two_pow (a := perm) (b := 1) (n := 2)
    simpa using h
  have h4 : pa % 4096 = 0 := hpa
  unfold user PTE_U
  rw [he]
  omega

lemma pteWord_flags : pteFlags (pteWord pa perm) = perm ||| 1 := by
  obtain ⟨he, hlt⟩ := pteWord_eq hpa hperm
  have : pa % 4096 = 0 := hpa
  rw [he]
  unfold pteFlags PGSIZE
  omega

end Word

lemma not_present_zero : ¬ present 0 := by decide

lemma pte_of_tab_none (h : d.tab (pdx va) = none) : d.pte va = 0 := by
  simp [Dir.pte, h]

lemma pte_newTab (hd : d.tab i = none) (pa va : ℕ) :
    (d.setTab i (some ⟨pa, fun _ => 0⟩)).pte va = d.pte va := by
  unfold Dir.pte Dir.setTab
  by_cases h : pdx va = i
  · simp [h, hd]
  · simp [h]

lemma pte_setPte_self (hd : (d.tab (pdx va)).isSome) (w : ℕ) : (d.setPte va w).pte va = w := by
  obtain ⟨t, ht⟩ := Option.isSome_iff_exists.mp hd
  simp [Dir.pte, Dir.setPte, Dir.setTab, ht, Table.set]

/-- Two addresses use the same entry only when they are on the same page. -/
lemma same_page (h : va < 2 ^ 32) (h' : va' < 2 ^ 32) (hd : pdx va = pdx va')
    (ht : ptx va = ptx va') : va / 4096 = va' / 4096 := by
  unfold pdx at hd
  unfold ptx at ht
  omega

lemma pte_setPte_ne (h : va < 2 ^ 32) (h' : va' < 2 ^ 32) (hne : va' / 4096 ≠ va / 4096) (w : ℕ) :
    (d.setPte va w).pte va' = d.pte va' := by
  unfold Dir.pte Dir.setPte Dir.setTab
  by_cases hd : pdx va' = pdx va
  · have ht : ptx va' ≠ ptx va := fun ht => hne (same_page h' h hd ht)
    rcases htab : d.tab (pdx va) with _ | t
    · simp [hd, htab]
    · simp [hd, htab, Table.set, ht]
  · simp [hd]

lemma pte_same_page (h : va / 4096 = va' / 4096) : d.pte va = d.pte va' := by
  have hd : pdx va = pdx va' := by unfold pdx; omega
  have ht : ptx va = ptx va' := by unfold ptx; omega
  rw [Dir.pte, Dir.pte, hd, ht]

/-- A page that is mapped below `KERNBASE` is owned. -/
lemma mem_pages (h : va < KERNBASE) (hp : present (d.pte va)) : pteAddr (d.pte va) ∈ pages d := by
  rcases ht : d.tab (pdx va) with _ | t
  · rw [pte_of_tab_none ht] at hp
    exact absurd hp not_present_zero
  have hw : d.pte va = t.pte (ptx va) := by simp [Dir.pte, ht]
  have hin : pteAddr (d.pte va) ∈ tabUser d (pdx va) := by
    simp only [tabUser, ht, Multiset.mem_sum, Finset.mem_range]
    refine ⟨ptx va, ptx_lt va, ?_⟩
    rw [← hw, ptePage, if_pos hp]
    exact Multiset.mem_singleton_self _
  simp only [pages, Multiset.mem_add, Multiset.mem_sum, Finset.mem_range]
  exact Or.inr ⟨pdx va, pdx_user h, hin⟩

end Xv6.PageTable
