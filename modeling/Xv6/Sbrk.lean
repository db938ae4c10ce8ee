import Xv6.PageSafety

/-!
`growproc` keeps the pages of a process to its size and fails without a trace, except when it is
asked to shrink a process to nothing or below.
-/

namespace Xv6.Kernel

open Xv6.Lib.Own Xv6.Lib.Threads Xv6.Lib.Run Xv6.PageTable Xv6.ProcTable

/-- The size has changed by `n`, and the pages with it. -/
structure Grown (l l' : Task) (n : ℤ) : Prop where
  sz : (l'.sz : ℤ) = l.sz + n
  exact : Exact l'.vm l'.sz
  kept : ∀ va, va < pgroundup l.sz → va < pgroundup l'.sz →
    l'.vm.dir.pte va = l.vm.dir.pte va ∧ byte l'.vm va = byte l.vm va
  zero : ∀ va, pgroundup l.sz ≤ va → va < pgroundup l'.sz → byte l'.vm va = 0

/-- Neither the size nor a page has changed. -/
structure Unchanged (l l' : Task) : Prop where
  sz : l'.sz = l.sz
  present : ∀ va < KERNBASE, present (l'.vm.dir.pte va) ↔ present (l.vm.dir.pte va)
  kept : ∀ va < KERNBASE, PageTable.present (l.vm.dir.pte va) →
    l'.vm.dir.pte va = l.vm.dir.pte va ∧ byte l'.vm va = byte l.vm va

/-- `growproc` has returned `0` and done all of it, or `-1` and done nothing. -/
def Atomic (l : Task) (n a : ℤ) (l' : Task) : Prop :=
  a = 0 ∧ Grown l l' n ∨ a = -1 ∧ Unchanged l l'

/-- It has returned at all. -/
def SbrkGood (l : Task) (n : ℤ) (r : Result Shared Task ℕ Panic ℤ) : Prop :=
  ∃ a, r.out = .done a ∧ Atomic l n a r.loc

section Cases

variable {l : Task} {v : Vm} {lo hi sz : ℕ} {n : ℤ}

lemma Unchanged.refl (l : Task) : Unchanged l l :=
  ⟨rfl, fun _ _ => Iff.rfl, fun _ _ _ => ⟨rfl, rfl⟩⟩

/-- Clearing what was not mapped. -/
lemma exact_unchanged (h : Exact l.vm l.sz) (hv : Cleared l.vm v (pgroundup l.sz) hi) :
    Unchanged l { l with vm := v } := by
  have hex := h.clear_above hv
  refine ⟨rfl, fun va hva => (hex.2 va hva).trans (h.2 va hva).symm, fun va hva hp => ?_⟩
  have hlt := (h.2 va hva).mp hp
  exact keeps_byte hv.keeps hva (by omega) hp

lemma exact_grown (h : Exact l.vm l.sz) (hsz : l.sz ≤ sz) (hlt : sz < KERNBASE)
    (hn : (sz : ℤ) = l.sz + n) (hv : Zeroed l.vm v (pgroundup l.sz) (pgroundup sz)) :
    Grown l { l with vm := v, sz := sz } n := by
  refine ⟨hn, h.fill hsz hlt hv, fun va h1 _ => ?_, fun va h1 h2 => ?_⟩
  · have hva : va < KERNBASE := lt_of_lt_of_le h1 (pgroundup_le h.1)
    exact keeps_byte hv.keeps hva (by omega) ((h.2 va hva).mpr h1)
  · obtain ⟨pa, hpa, hpte, hmem⟩ := hv.fill va h1 h2
    change v.mem (pteAddr (v.dir.pte va)) (va % PGSIZE) = 0
    rw [hpte, pteWord_addr hpa (by decide), hmem]

lemma exact_shrunk (h : Exact l.vm l.sz) (hsz : sz ≤ l.sz) (hn : (sz : ℤ) = l.sz + n)
    (hv : Cleared l.vm v (pgroundup sz) (pgroundup l.sz)) :
    Grown l { l with vm := v, sz := sz } n := by
  have hup := pgroundup_eq h.1.le
  have hup' := pgroundup_eq (hsz.trans h.1.le)
  refine ⟨hn, h.clear hsz hv, fun va h1 h2 => ?_, fun va h1 h2 => ?_⟩
  · have hva : va < KERNBASE := lt_of_lt_of_le h1 (pgroundup_le h.1)
    change va < pgroundup sz at h2
    exact keeps_byte hv.keeps hva (by omega) ((h.2 va hva).mpr h1)
  · change va < pgroundup sz at h2
    omega

lemma exact_same (h : Exact l.vm l.sz) : Grown l l 0 :=
  ⟨(add_zero _).symm, h, fun _ _ _ => ⟨rfl, rfl⟩, fun va h1 h2 => by omega⟩

end Cases

/-- One process alone, with no panic and nothing to wait for. -/
def aloneSpec (kend : ℕ) : Spec Shared Task ℕ Panic Tok :=
  { kspec kend True with inv := fun _ _ => True, halts := fun _ => False, waits := False }

section Alone

variable {kend : ℕ} {l : Task} {o : Multiset ℕ} {n : ℤ}

lemma vmSpec_alone (hk : 0 < kend) (m : Multiset Tok) :
    VmSpec kend ((aloneSpec kend).part (fun v => pages v.dir) m) :=
  ⟨fun _ => rfl, fun _ _ _ => rfl, fun _ _ _ _ _ _ => rfl, fun _ => id, hk⟩

lemma exact_absent (h : Exact l.vm l.sz) :
    ∀ va, pgroundup l.sz ≤ va → va < KERNBASE → ¬ present (l.vm.dir.pte va) := fun va h1 h2 hp =>
  absurd ((h.2 va h2).mp hp) (by omega)

lemma wp_growproc_atomic (hk : 0 < kend) (h : Exact l.vm l.sz) (hn : -2 ^ 31 ≤ n) (hn' : n < 2 ^ 31)
    (hok : SbrkOk l.sz n) :
    wp (aloneSpec kend) (growproc kend n) (fun a l' _ => Atomic l n a l') l o := by
  refine wp_growproc (vmSpec_alone hk _) rfl rfl hn hn' h.1 (Or.inr (exact_absent h)) (fun h0 => ?_)
    (fun _ _ => Or.inr ⟨rfl, Unchanged.refl l⟩) (fun h1 h2 v hv => Or.inl ⟨rfl, ?_⟩)
    (fun _ _ v hv => Or.inr ⟨rfl, exact_unchanged h hv⟩) (fun h1 h2 v hv => Or.inl ⟨rfl, ?_⟩)
    (fun h1 h2 v hv => ?_) fun h1 h2 => ?_
  · subst h0
    exact Or.inl ⟨rfl, exact_same h⟩
  · exact exact_grown h (by omega) (by omega) (by omega) hv
  · exact exact_shrunk h (by omega) (by omega) hv
  · rcases hok with hc | hc | hc
    · omega
    · omega
    · omega
  · rcases hok with hc | hc | hc
    · omega
    · rw [if_pos hc]
      exact Or.inr ⟨rfl, Unchanged.refl l⟩
    · omega

/-- Shrinking to nothing frees the pages but reports failure; shrinking below does nothing but
reports success. -/
lemma wp_growproc_broken (hk : 0 < kend) (h : Exact l.vm l.sz) (hn : -2 ^ 31 ≤ n) (hn' : n < 2 ^ 31)
    (hbad : ¬ SbrkOk l.sz n) :
    wp (aloneSpec kend) (growproc kend n) (fun a l' _ => ¬ Atomic l n a l') l o := by
  have h0 : n < 0 ∧ l.sz ≠ 0 ∧ (l.sz : ℤ) + n ≤ 0 := by
    unfold SbrkOk at hbad
    omega
  refine wp_growproc (vmSpec_alone hk _) rfl rfl hn hn' h.1 (Or.inr (exact_absent h))
    (fun h1 => by omega)
    (fun h1 => by omega) (fun h1 => by omega) (fun h1 => by omega) (fun _ h2 => by omega)
    (fun h1 h2 v hv => ?_) fun h1 h2 => ?_
  · have hup := pgroundup_eq h.1.le
    have hpos : 0 < pgroundup l.sz := by omega
    rintro (⟨ha, -⟩ | ⟨-, hu⟩)
    · exact absurd ha (by decide)
    · have hk0 : 0 < KERNBASE := lt_of_lt_of_le hpos (pgroundup_le h.1)
      exact hv.clear 0 le_rfl hpos ((hu.present 0 hk0).mpr ((h.2 0 hk0).mpr hpos))
  · rw [if_neg h0.2.1]
    rintro (⟨-, hg⟩ | ⟨ha, -⟩)
    · have := hg.sz
      omega
    · exact absurd ha (by decide)

/-- A process alone: its pages, those of the rest of the kernel and the free ones are distinct. -/
structure Consistent (kend : ℕ) (free : List ℕ) (s : Shared) (l : Task) : Prop where
  nodup : (free + s.pages + l.own).Nodup
  valid : ∀ pa ∈ free + s.pages + l.own, validPage kend pa

lemma Consistent.ends {free : List ℕ} {s : Shared} (h : Consistent kend free s l)
    (fails : ℕ → Bool) (calls : ℕ) {Q : ℤ → Task → Prop} {p : KProg ℤ}
    (hp : wp (aloneSpec kend) p (fun a l' _ => Q a l') l 0) :
    ∃ a, (run fails p ⟨free, calls⟩ s l).out = .done a ∧
      Q a (run fails p ⟨free, calls⟩ s l).loc := by
  have hs : (aloneSpec kend).Safe 0 free s l 0 := by
    refine ⟨trivial, ?_, ?_⟩
    · rw [add_zero]
      exact h.nodup
    · rw [add_zero]
      exact h.valid
  have he := run_sound fails (h := ⟨free, calls⟩) hp hs
  unfold Ends at he
  rcases hout : (run fails p ⟨free, calls⟩ s l).out with a | e | -
  · rw [hout] at he
    obtain ⟨-, hq, -⟩ := he
    exact ⟨a, rfl, hq⟩
  · rw [hout] at he
    exact he.elim
  · rw [hout] at he
    exact he.elim

lemma sbrkGood_iff {free : List ℕ} {calls : ℕ} {s : Shared} (hk : 0 < kend) (h : Exact l.vm l.sz)
    (hc : Consistent kend free s l) (fails : ℕ → Bool) (hn : -2 ^ 31 ≤ n) (hn' : n < 2 ^ 31) :
    SbrkGood l n (run fails (growproc kend n) ⟨free, calls⟩ s l) ↔ SbrkOk l.sz n := by
  by_cases hok : SbrkOk l.sz n
  · exact iff_of_true (hc.ends fails calls (wp_growproc_atomic hk h hn hn' hok)) hok
  · obtain ⟨a, hout, hbad⟩ := hc.ends fails calls (wp_growproc_broken hk h hn hn' hok)
    refine iff_of_false ?_ hok
    rintro ⟨b, hout', hgood⟩
    rw [hout] at hout'
    cases hout'
    exact hbad hgood

end Alone

/-! ### Runs -/

/-- The kernel when the first process has started, with memory and registers as in `l`. -/
def started (free : List ℕ) (l : Task) : State where
  free := free
  shared := Shared.empty.setProc initproc .live
  loc t := if t = initproc then l else Task.idle
  prog _ := .ret ()
  halted := none

/-- The process has the pages of its size, and no file open. -/
structure Starts (kend : ℕ) (free : List ℕ) (l : Task) : Prop where
  alive : Alive True initproc l
  files : l.ofile = fun _ => none
  consistent : Consistent kend free Shared.empty l

/-- A process may call `sbrk` unless it asks for the size `0` or less. -/
def mayShrink (t : Slot) (l : Task) (c : Call) : Bool :=
  may t l c && match c with
    | .sbrk n => decide (SbrkOk l.sz n)
    | _ => true

section Runs

variable {kend : ℕ} {free : List ℕ} {l : Task} {kmap : List Kmap}

lemma Starts.tok (h : Starts kend free l) : l.tok = {.slot initproc} := by
  have hc := h.alive.clean
  simp [Task.tok, hc.child, hc.cofile, hc.var, hc.ff, h.files, h.alive.self, fileToks_none, one]

lemma sum_started {M : Type} [AddCommMonoid M] (free : List ℕ) (l : Task) (f : Task → M)
    (h0 : f Task.idle = 0) :
    ∑ t, f ((started free l).loc t) = f l := by
  rw [Finset.sum_eq_single initproc (fun t _ ht => ?_) fun h => absurd (Finset.mem_univ _) h]
  · simp [started]
  · simp [started, ht, h0]

lemma live_inv : KInv True (Shared.empty.setProc initproc .live) {.slot initproc} := by
  have htok : {.slot initproc} + Entry.live.tok initproc =
      0 + (Shared.empty.proc initproc).tok initproc := by
    simp [Entry.tok, Shared.empty]
  have h0 : KInv True Shared.empty (0 + 0) := by
    rw [add_zero]
    exact empty_inv True
  have h : KInv True (Shared.empty.setProc initproc .live) (0 + {.slot initproc}) :=
    h0.setProc rfl rfl rfl htok trivial
  rwa [zero_add] at h

lemma Consistent.of_pages {s : Shared} (h : Consistent kend free s l) (hs : s.pages = 0) :
    (free + l.own).Nodup ∧ ∀ pa ∈ free + l.own, validPage kend pa := by
  obtain ⟨h1, h2⟩ := h
  rw [hs, add_zero] at h1 h2
  exact ⟨h1, h2⟩

lemma started_sound (h : Starts kend free l) :
    Sound (kspec kend True) (Rest True) (started free l) fun _ => 0 := by
  have hc := h.consistent.of_pages empty_pages
  have hshared : (started free l).shared.pages = 0 := by
    have hp (p : Slot) : ((started free l).shared.proc p).pages = 0 := by
      by_cases h : p = initproc <;> simp [started, Shared.setProc, Shared.empty, h, Entry.pages]
    rw [Shared.pages, Finset.sum_congr rfl fun p _ => hp p]
    simp [started, Shared.setProc, Shared.empty, pipePages]
  have hall : (started free l).all (kspec kend True) (fun _ => 0) = free + l.own := by
    have hsum := sum_started free l Task.own idle_own
    change (free : Multiset ℕ) + (started free l).shared.pages +
      ∑ t, (((started free l).loc t).own + 0) = _
    simp only [add_zero, hshared, hsum]
  refine ⟨?_, fun t => ?_, ?_, ?_, fun e he => by simp [started] at he⟩
  · change KInv True _ (∑ t, ((started free l).loc t).tok)
    rw [sum_started free l Task.tok idle_tok, h.tok]
    exact live_inv
  · intro _
    change Rest True t (if t = initproc then l else Task.idle)
    split_ifs with ht
    · exact Or.inl (ht ▸ h.alive)
    · exact Or.inr idle_idle
  · rw [hall]
    exact hc.1
  · rw [hall]
    exact hc.2

/-- No `sbrk` to nothing, no panic of `copyuvm`. -/
lemma copyuvm_ok {m : State} (hk : 0 < kend) (hkmap : ∀ k ∈ kmap, k.high) (h : Starts kend free l)
    (hr : Reach (Step (body kend kmap) mayShrink) (started free l) m) :
    m.halted ≠ some .copyuvmExist ∧ m.halted ≠ some .copyuvmPresent := by
  have hbody : ∀ t c l o, Rest True t l → mayShrink t l c →
      wp (kspec kend True) (body kend kmap t c) (fun _ l _ => Rest True t l) l o := by
    intro t c l o hj hm
    obtain ⟨hmay, hok⟩ := Bool.and_eq_true_iff.mp hm
    refine wp_body hk hkmap c hj hmay fun _ n hc => ?_
    subst hc
    exact of_decide_eq_true hok
  obtain ⟨o, hs⟩ := (started_sound h).reach hbody hr
  exact ⟨fun he => (hs.halts _ he trivial).1 rfl, fun he => (hs.halts _ he trivial).2 rfl⟩

end Runs

/-- **Size of an address space.** `growproc` is atomic, for every pattern of `kalloc` failures, if
and only if it does not shrink a process to nothing or below, and in every run without such a call
the panics of `copyuvm` are not reached. -/
theorem growproc_atomic_iff {kend : ℕ} (hk : 0 < kend) :
    (∀ (fails : ℕ → Bool) (free : List ℕ) (calls : ℕ) (s : Shared) (l : Task) (n : ℤ),
      Exact l.vm l.sz → Consistent kend free s l → -2 ^ 31 ≤ n → n < 2 ^ 31 →
      (SbrkGood l n (run fails (growproc kend n) ⟨free, calls⟩ s l) ↔
        0 ≤ n ∨ l.sz = 0 ∨ 0 < l.sz + n)) ∧
    ∀ (kmap : List Kmap) (free : List ℕ) (l : Task) (m : State), (∀ k ∈ kmap, k.high) →
      Starts kend free l → Reach (Step (body kend kmap) mayShrink) (started free l) m →
      m.halted ≠ some .copyuvmExist ∧ m.halted ≠ some .copyuvmPresent :=
  ⟨fun fails _ _ _ _ _ h hc hn hn' => sbrkGood_iff hk h hc fails hn hn',
    fun _ _ _ _ hkmap h hr => copyuvm_ok hk hkmap h hr⟩

/-! ### A process of one page -/

def smallDir : Dir := (Dir.mk (some 0x400000) fun _ => none).setTab 0 (some ⟨0x401000, fun _ => 0⟩)

def small : Task :=
  { Task.idle with
    self := some initproc
    vm := ⟨smallDir.setPte 0 (pteWord 0x402000 6), fun _ _ => 7⟩
    sz := 4096
    kstack := some 0x403000 }

lemma small_exact : Exact small.vm small.sz := by
  have hup : pgroundup small.sz = 4096 := by decide
  refine ⟨by decide, fun va hva => ?_⟩
  have hva' : va < 2147483648 := hva
  rw [hup]
  by_cases h : va < 4096
  · have h0 : small.vm.dir.pte va = small.vm.dir.pte 0 := pte_same_page (by omega)
    rw [h0]
    exact iff_of_true (by decide) h
  · refine iff_of_false (fun hp => ?_) h
    have hpte : small.vm.dir.pte va = smallDir.pte va :=
      pte_setPte_ne (by omega) (by omega) (by omega) (pteWord 0x402000 6)
    rw [hpte, smallDir, pte_newTab rfl, pte_of_tab_none rfl] at hp
    exact not_present_zero hp

lemma small_pages : pages small.vm.dir = {0x402000, 0x401000, 0x400000} := by
  have h : pages small.vm.dir + (if pdx 0 < 512 then ptePage (smallDir.pte 0) else 0) =
      pages smallDir + if pdx 0 < 512 then ptePage (pteWord 0x402000 6) else 0 := pages_setPte rfl
  have h0 : ptePage (smallDir.pte 0) = 0 := by decide
  have h1 : ptePage (pteWord 0x402000 6) = {0x402000} := by decide
  have h2 : pages smallDir = {0x401000, 0x400000} := by
    rw [smallDir, pages_newTab (by decide) rfl, pages_dir]
    rfl
  rw [if_pos (by decide), if_pos (by decide), h0, h1, h2, add_zero] at h
  exact h.trans (by decide)

def smallFree : List ℕ := [0x404000, 0x405000, 0x406000, 0x407000]

lemma small_starts : Starts 0x100000 smallFree small := by
  have hall : (smallFree : Multiset ℕ) + Shared.empty.pages + small.own =
      {0x404000, 0x405000, 0x406000, 0x407000, 0x402000, 0x401000, 0x400000, 0x403000} := by
    rw [empty_pages, Task.own, small_pages, show pages small.tmp.dir = 0 from pages_null]
    decide
  refine ⟨⟨⟨pages_null, rfl, rfl, rfl, rfl, rfl⟩, rfl, rfl, by decide, fun _ => small_exact⟩, rfl,
    ?_, ?_⟩
  · rw [hall]
    decide
  · rw [hall]
    decide

/-- A call of `sbrk` that takes `i` steps, and `j` steps of a `fork`. -/
def sbrkFork (n : ℤ) (i j : ℕ) : List (Slot × Move Call) :=
  (initproc, .call (.sbrk n)) :: List.replicate i (initproc, .run) ++
    (initproc, .call .fork) :: List.replicate j (initproc, .run)

theorem growproc_atomic_iff_small :
    SbrkGood small 4096 (run (fun _ => false) (growproc 0x100000 4096) ⟨smallFree, 0⟩ Shared.empty small) ∧
      ∃ m : State, Reach (Step (body 0x100000 []) mayShrink) (started smallFree small) m ∧
        (m.loc initproc).sz = 8192 ∧ m.halted ≠ some .copyuvmExist ∧
        m.halted ≠ some .copyuvmPresent := by
  have hk : 0 < 0x100000 := by decide
  obtain ⟨hgood, hruns⟩ := growproc_atomic_iff hk
  refine ⟨?_, reach_any (P := fun m => (m.loc initproc).sz = 8192) (sbrkFork 4096 7 9)
    (by decide +kernel) fun m hr hsz =>
      ⟨hsz, hruns [] smallFree small m (by simp) small_starts hr⟩⟩
  exact (hgood _ smallFree 0 Shared.empty small 4096 small_exact small_starts.consistent (by decide)
    (by decide)).mpr (Or.inl (by decide))

/-- A process of one page calls `sbrk(-4096)`: its page is freed, the call fails, the size stays,
and `fork` panics. -/
theorem sbrk_to_zero_not_atomic :
    Exact small.vm small.sz ∧ Consistent 0x100000 smallFree Shared.empty small ∧
      ¬ SbrkGood small (-4096)
        (run (fun _ => false) (growproc 0x100000 (-4096)) ⟨smallFree, 0⟩ Shared.empty small) ∧
      ∃ m : State, Reach (Step (body 0x100000 []) may) (started smallFree small) m ∧
        m.halted = some .copyuvmPresent := by
  refine ⟨small_exact, small_starts.consistent, fun hgood => ?_,
    reach_any (sbrkFork (-4096) 4 7) (by decide +kernel) fun _ _ => id⟩
  have hok := (sbrkGood_iff (by decide) small_exact small_starts.consistent _ (by decide)
    (by decide)).mp hgood
  exact absurd hok (by decide)

end Xv6.Kernel
