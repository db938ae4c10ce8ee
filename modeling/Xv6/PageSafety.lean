import Xv6.KernelProc

/-!
Physical page ownership: whatever the processes do, a page is on the free list, a kernel stack, a
page directory, a page table, a user page or a pipe, and only one of these.
-/

namespace Xv6.Kernel

open Xv6.Lib.Own Xv6.Lib.Threads Xv6.Lib.Run Xv6.PageTable Xv6.ProcTable

abbrev State := Machine Slot Shared Task ℕ Panic

/-! ### Who owns a page -/

/-- What `f` counts in the address space of a slot. -/
def Entry.over (f : Dir → Multiset ℕ) : Entry → Multiset ℕ
  | .ready img => f img.vm.dir
  | .zombie vm _ => f vm.dir
  | _ => 0

def Entry.kstack : Entry → Multiset ℕ
  | .ready img => one img.kstack
  | .zombie _ kstack => one kstack
  | _ => 0

/-- What `f` counts in all address spaces, those under construction included. -/
def overDirs (f : Dir → Multiset ℕ) (m : State) : Multiset ℕ :=
  ∑ p, (m.shared.proc p).over f + ∑ t, (f (m.loc t).vm.dir + f (m.loc t).tmp.dir)

def kernelStacks (m : State) : Multiset ℕ :=
  ∑ p, (m.shared.proc p).kstack + ∑ t, (one (m.loc t).kstack + one (m.loc t).stack)

def pageDirectories (m : State) : Multiset ℕ := overDirs dirPage m

def pageTables (m : State) : Multiset ℕ :=
  overDirs (fun d => ∑ i ∈ Finset.range 1024, tabPage d i) m

/-- The pages mapped by a present entry below `KERNBASE`. -/
def userPages (m : State) : Multiset ℕ :=
  overDirs (fun d => ∑ i ∈ Finset.range 512, tabUser d i) m

/-- The pages in use. -/
def inUse (m : State) : Multiset ℕ :=
  kernelStacks m + pageDirectories m + pageTables m + userPages m + pipePages m.shared.pipes

lemma overDirs_add (f g : Dir → Multiset ℕ) (m : State) :
    overDirs (fun d => f d + g d) m = overDirs f m + overDirs g m := by
  have h (p : Slot) : (m.shared.proc p).over (fun d => f d + g d) =
      (m.shared.proc p).over f + (m.shared.proc p).over g := by
    cases m.shared.proc p <;> simp [Entry.over]
  unfold overDirs
  simp only [h, Finset.sum_add_distrib]
  abel

lemma overDirs_pages (m : State) :
    overDirs pages m = pageDirectories m + pageTables m + userPages m := by
  unfold pageDirectories pageTables userPages
  rw [← overDirs_add, ← overDirs_add]
  rfl

/-- What is in use is what the table and the threads own. -/
lemma inUse_eq (m : State) : inUse m = m.shared.pages + ∑ t, (m.loc t).own := by
  have h (p : Slot) : (m.shared.proc p).pages =
      (m.shared.proc p).over pages + (m.shared.proc p).kstack := by
    cases m.shared.proc p <;> simp [Entry.over, Entry.pages, Entry.kstack]
  have hdirs : inUse m = kernelStacks m + overDirs pages m + pipePages m.shared.pipes := by
    rw [overDirs_pages, inUse]
    abel
  rw [hdirs]
  unfold kernelStacks overDirs Shared.pages Task.own
  simp only [h, Finset.sum_add_distrib]
  abel

/-! ### The start -/

variable {p vend pa kend : ℕ} {free : List ℕ}

lemma mem_freeFrom (h : pa ∈ freeFrom p vend free) :
    pa ∈ free ∨ p ≤ pa ∧ pa + PGSIZE ≤ vend ∧ pa % PGSIZE = p % PGSIZE := by
  induction hn : vend - p using Nat.strong_induction_on generalizing p free with
  | h n ih =>
  unfold freeFrom at h
  split_ifs at h with hlt
  · have hlt' : p + 4096 ≤ vend := hlt
    rcases ih (vend - (p + PGSIZE)) (by unfold PGSIZE; omega) h rfl with hm | ⟨h1, h2, h3⟩
    · rcases List.mem_cons.mp hm with rfl | hm
      · exact Or.inr ⟨le_rfl, hlt, rfl⟩
      · exact Or.inl hm
    · exact Or.inr ⟨by omega, h2, by rw [h3, Nat.add_mod_right]⟩
  · exact Or.inl h

lemma freeFrom_mem (h : pa ∈ free ∨ p ≤ pa ∧ pa + PGSIZE ≤ vend ∧ pa % PGSIZE = p % PGSIZE) :
    pa ∈ freeFrom p vend free := by
  induction hn : vend - p using Nat.strong_induction_on generalizing p free with
  | h n ih =>
  unfold freeFrom
  split_ifs with hlt
  · have hlt' : p + 4096 ≤ vend := hlt
    refine ih (vend - (p + PGSIZE)) (by unfold PGSIZE; omega) ?_ rfl
    rcases h with h | ⟨h1, h2, h3⟩
    · exact Or.inl (List.mem_cons_of_mem _ h)
    · by_cases hpa : pa = p
      · exact Or.inl (by simp [hpa])
      · refine Or.inr ⟨?_, h2, by rw [h3, Nat.add_mod_right]⟩
        unfold PGSIZE at h3 ⊢
        omega
  · refine h.resolve_right fun ⟨h1, h2, _⟩ => hlt ?_
    unfold PGSIZE at h2 ⊢
    omega

lemma nodup_freeFrom (hn : free.Nodup) (hlt : ∀ pa ∈ free, pa < p) :
    (freeFrom p vend free).Nodup := by
  induction hk : vend - p using Nat.strong_induction_on generalizing p free with
  | h n ih =>
  unfold freeFrom
  split_ifs with hle
  · have hle' : p + 4096 ≤ vend := hle
    refine ih (vend - (p + PGSIZE)) (by unfold PGSIZE; omega) ?_ (fun pa hpa => ?_) rfl
    · exact List.nodup_cons.mpr ⟨fun hm => lt_irrefl _ (hlt p hm), hn⟩
    · rcases List.mem_cons.mp hpa with rfl | hpa
      · unfold PGSIZE
        omega
      · have := hlt pa hpa
        omega
  · exact hn

/-- It holds every page above the first four megabytes. -/
lemma mem_kinit (hpa : pa % PGSIZE = 0) (hlo : 4 * 1024 * 1024 ≤ pa) (hhi : pa + PGSIZE ≤ PHYSTOP) :
    pa ∈ kinit kend := by
  unfold kinit freerange
  rw [pgroundup_eq (by unfold KERNBASE; omega)]
  exact freeFrom_mem (Or.inr ⟨hlo, hhi, hpa⟩)

/-- The free list at boot holds each page once. -/
lemma kinit_valid (hk : kend ≤ 4 * 1024 * 1024) :
    (kinit kend).Nodup ∧ ∀ pa ∈ kinit kend, validPage kend pa := by
  have hup : pgroundup kend = (kend + 4095) / 4096 * 4096 :=
    pgroundup_eq (by unfold KERNBASE; omega)
  have hup2 : pgroundup (4 * 1024 * 1024) = 4 * 1024 * 1024 := by
    rw [pgroundup_eq (by unfold KERNBASE; omega)]
  unfold kinit freerange
  rw [hup2]
  constructor
  · refine nodup_freeFrom (nodup_freeFrom List.nodup_nil (by simp)) fun pa hpa => ?_
    rcases mem_freeFrom hpa with h | ⟨-, h, -⟩
    · simp at h
    · unfold PGSIZE at h
      omega
  · intro pa hpa
    rcases mem_freeFrom hpa with h | ⟨h1, h2, h3⟩
    · rcases mem_freeFrom h with h | ⟨h1, h2, h3⟩
      · simp at h
      · refine ⟨?_, ?_, ?_⟩
        · rw [h3, hup]
          unfold PGSIZE
          omega
        · omega
        · unfold PHYSTOP
          unfold PGSIZE at h2
          omega
    · refine ⟨?_, by omega, ?_⟩
      · rw [h3]
        rfl
      · unfold PGSIZE at h2
        omega

lemma idle_idle : Idle Task.idle :=
  ⟨⟨pages_null, rfl, rfl, rfl, rfl, rfl⟩, rfl, pages_null, rfl, rfl⟩

lemma idle_tok : Task.idle.tok = 0 := by simp [Task.tok, Task.idle, fileToks_none]

lemma idle_own : Task.idle.own = 0 := by simp [Task.own, Task.idle, Vm.null, pages_null]

lemma empty_pages : Shared.empty.pages = 0 := by
  simp [Shared.pages, Shared.empty, Entry.pages, pipePages]

/-- With one token for each slot. -/
lemma empty_fileInv {A : Multiset Tok}
    (hA : ∀ t, A.count t = ∑ p : Slot, if t = .slot p then 1 else 0) : FileInv Shared.empty A := by
  refine ⟨fun p => ?_, fun f => ?_, fun f _ => rfl, fun f hf => ?_, fun page w => ?_⟩
  · rw [hA, Finset.sum_eq_single p (fun q _ hq => if_neg fun e => hq (Tok.slot.inj e).symm)
      fun hp => absurd (Finset.mem_univ p) hp, if_pos rfl]
  · rw [hA, hA]
    simp [Shared.empty]
  · have hpos := Multiset.count_pos.mpr hf
    rw [hA] at hpos
    simp at hpos
  · rw [hA]
    simp [Shared.empty, endFiles, openEnds]

lemma empty_inv (exact : Prop) : KInv exact Shared.empty 0 := by
  refine ⟨empty_fileInv fun t => ?_, fun p => trivial⟩
  rw [zero_add, Shared.tok, Multiset.count_sum']
  exact Finset.sum_congr rfl fun p _ => Multiset.count_singleton t (Tok.slot p)

lemma boot_sound {kmap : List Kmap} (init : List UInt8) (hk : 0 < kend) (hkmap : ∀ k ∈ kmap, k.high)
    (hn : free.Nodup) (hv : ∀ pa ∈ free, validPage kend pa) :
    Sound (kspec kend False) (Rest False) (boot kend kmap init free) fun _ => 0 := by
  have hall : (boot kend kmap init free).all (kspec kend False) (fun _ => 0) = free := by
    change (free : Multiset ℕ) + Shared.empty.pages + ∑ t : Slot, (Task.idle.own + 0) = free
    simp [empty_pages, idle_own]
  refine ⟨?_, fun t => ?_, ?_, ?_, fun e he => by simp [boot] at he⟩
  · change KInv False Shared.empty (∑ t : Slot, Task.idle.tok)
    rw [idle_tok, Finset.sum_const_zero]
    exact empty_inv False
  · change wp _ (if t = initproc then userinit kend kmap init else .ret ()) _ Task.idle 0
    split_ifs
    · exact wp_userinit hk hkmap init idle_idle
    · exact fun _ => Or.inr idle_idle
  · rw [hall]
    exact Multiset.coe_nodup.mpr hn
  · rw [hall]
    exact fun pa hpa => hv pa (Multiset.mem_coe.mp hpa)

/-- In every state of every run the threads are sound. -/
lemma sound_reach {kmap : List Kmap} {init : List UInt8} {m : State} (hk : 0 < kend)
    (hend : kend ≤ 4 * 1024 * 1024) (hkmap : ∀ k ∈ kmap, k.high) (hfree : free.Subperm (kinit kend))
    (hr : Reach (Step (body kend kmap) may) (boot kend kmap init free) m) :
    ∃ o, Sound (kspec kend False) (Rest False) m o := by
  obtain ⟨hnd, hvalid⟩ := kinit_valid hend
  obtain ⟨l, hperm, hsub⟩ := hfree
  have hstart := boot_sound init hk hkmap
    (hperm.nodup_iff.mp (hsub.nodup hnd)) fun pa hpa =>
      hvalid pa (hsub.subset (hperm.mem_iff.mpr hpa))
  have hbody : ∀ t c l o, Rest False t l → may t l c →
      wp (kspec kend False) (body kend kmap t c) (fun _ l _ => Rest False t l) l o :=
    fun t c l o hj hm => wp_body hk hkmap c hj hm False.elim
  exact hstart.reach hbody hr

/-- Six pages, the boot of the first process, a pipe, and a `fork` that gets no page. -/
def bootFree : List ℕ := [0x400000, 0x401000, 0x402000, 0x403000, 0x404000, 0x405000]

def bootRun : List (Slot × Move Call) :=
  List.replicate 14 (initproc, .run) ++ [(initproc, .call .forkret), (initproc, .run),
    (initproc, .call .pipe)] ++ List.replicate 8 (initproc, .run) ++
    [(initproc, .call .fork), (initproc, .run), (initproc, .refuse), (initproc, .run)]

lemma bootFree_kinit : bootFree.Subperm (kinit 0x100000) := by
  refine List.Nodup.subperm (by decide) fun pa hpa => ?_
  have hall : ∀ pa ∈ bootFree, pa % PGSIZE = 0 ∧ 4 * 1024 * 1024 ≤ pa ∧ pa + PGSIZE ≤ PHYSTOP := by
    decide
  obtain ⟨h1, h2, h3⟩ := hall pa hpa
  exact mem_kinit h1 h2 h3

end Xv6.Kernel
