import Xv6.VmRun
import Xv6.Sbrk

/-!
What `copyuvm` returns is a copy of the parent's address space that shares no page with it: the
same bytes and permissions below the size, nothing above, and no store through one directory is
seen through the other.
-/

namespace Xv6.PageTable

open Xv6.Lib.Own

/-- Setting the present bit of flags that have it. -/
lemma flags_present {w : ℕ} (h : present w) : pteFlags w ||| 1 = pteFlags w := by
  have hodd : pteFlags w = 2 ^ 1 * (pteFlags w / 2) + 1 := by
    unfold present at h
    unfold pteFlags PGSIZE
    omega
  rw [hodd, Nat.two_pow_add_eq_or_of_lt (by decide), Nat.or_assoc, Nat.or_self]

/-- A store through one directory to a page that the other does not map. -/
lemma byte_poke {d d' : Dir} {va va' : ℕ} {b : UInt8} {mem : ℕ → Page}
    (h : pteAddr (d'.pte va') ≠ pteAddr (d.pte va)) :
    byte ⟨d', poke d va b mem⟩ va' = byte ⟨d', mem⟩ va' := by
  unfold byte poke
  dsimp only
  rw [Function.update_of_ne h]

/-- The child has what the parent has below `sz`. -/
structure SameImage (parent child : Vm) (sz : ℕ) : Prop where
  present : ∀ va < pgroundup sz, present (child.dir.pte va)
  flags : ∀ va < pgroundup sz, pteFlags (child.dir.pte va) = pteFlags (parent.dir.pte va)
  byte : ∀ va < pgroundup sz, byte child va = PageTable.byte parent va

lemma Copied.sameImage {parent l₀ l' : Vm} {sz : ℕ}
    (hpar : ∀ va < pgroundup sz, present (parent.dir.pte va))
    (h : Copied parent l₀ l' 0 (pgroundup sz)) : SameImage parent l' sz := by
  have hflags (w : ℕ) : pteFlags w < PGSIZE := Nat.mod_lt _ (by decide)
  refine ⟨fun va hva => ?_, fun va hva => ?_, fun va hva => ?_⟩
  · obtain ⟨pa, -, hpte, -⟩ := h.fill va (Nat.zero_le _) hva
    rw [hpte]
    exact pteWord_present _ _
  · obtain ⟨pa, hpa, hpte, -⟩ := h.fill va (Nat.zero_le _) hva
    rw [hpte, pteWord_flags hpa (hflags _), flags_present (hpar va hva)]
  · obtain ⟨pa, hpa, hpte, hmem⟩ := h.fill va (Nat.zero_le _) hva
    rw [PageTable.byte, hpte, pteWord_addr hpa (hflags _), hmem, PageTable.byte]

/-- A page is there for every address of its page. -/
lemma present_up {d : Dir} {sz : ℕ} (hsz : sz < KERNBASE) (h : ∀ va < sz, present (d.pte va)) :
    ∀ va < pgroundup sz, present (d.pte va) := by
  intro va hva
  rw [pgroundup_eq hsz.le] at hva
  rw [pte_same_page (show va / 4096 = va / 4096 * 4096 / 4096 by omega)]
  exact h _ (by omega)

section Fork

variable {G K : Type} {kend : ℕ} {kmap : List Kmap} {parent : Vm} {sz : ℕ}

lemma wp_copyuvm_image {S : Spec G Vm ℕ Panic K} (hS : VmSpec kend S) (hany : ∀ e, S.halts e)
    (hkmap : ∀ k ∈ kmap, k.high ∧ k.supervisor) (hsz : sz < KERNBASE)
    (hpar : ∀ va < pgroundup sz, present (parent.dir.pte va)) {l : Vm} {o : Multiset ℕ}
    (hl : pages l.dir = 0) :
    wp S (copyuvm kend kmap parent sz)
      (fun b l' _ => b = true → SameImage parent l' sz ∧ Exact l' sz ∧ Supervisor l') l o := by
  refine wp_copyuvm hS (fun k hk => (hkmap k hk).1) (Or.inl (hany _)) hsz hl (Or.inr hpar)
    (fun l₀ l' hl₀ hrows hl' _ _ => ?_) fun l' o' _ _ _ hf => absurd hf Bool.false_ne_true
  refine ⟨Copied.sameImage hpar hl', hl₀.exact_copy hsz hl', ?_⟩
  refine (hrows.supervisor fun k hk => (hkmap k hk).2).of_same fun va h1 h2 => ?_
  have hle := pgroundup_le hsz
  exact hl'.keeps.pte va h2 (by omega)

/-- **`copyuvm` copies and isolates.** The child has the flags and bytes of the parent below the
size and no page above it, it shares no page with the parent, nothing that the parent has is
changed, and from then on a store below `KERNBASE` through either directory is not seen through the
other. -/
theorem copyuvm_copies {h : Heap ℕ} (hk : 0 < kend) (hkmap : ∀ k ∈ kmap, k.high ∧ k.supervisor)
    (hfree : Alone kend h.free parent) (hsz : sz < KERNBASE)
    (hpar : ∀ va < sz, present (parent.dir.pte va)) (fails : ℕ → Bool) (s : G)
    (hdone : (run fails (copyuvm kend kmap parent sz) h s (blank parent.mem)).out = .done true) :
    let child := (run fails (copyuvm kend kmap parent sz) h s (blank parent.mem)).loc
    SameImage parent child sz ∧
      (∀ pa ∈ pages child.dir, pa ∉ pages parent.dir) ∧
      (∀ va, pgroundup sz ≤ va → va < KERNBASE → ¬ present (child.dir.pte va)) ∧
      (∀ va, KERNBASE ≤ va → va < 2 ^ 32 → ¬ accessible child.dir va) ∧
      (∀ pa ∈ pages parent.dir, child.mem pa = parent.mem pa) ∧
      ∀ mem b va va', va < KERNBASE → va' < KERNBASE →
        present (child.dir.pte va) → present (parent.dir.pte va') →
        byte ⟨parent.dir, poke child.dir va b mem⟩ va' = byte ⟨parent.dir, mem⟩ va' ∧
          byte ⟨child.dir, poke parent.dir va' b mem⟩ va = byte ⟨child.dir, mem⟩ va := by
  obtain ⟨hnd, -, hdisj⟩ := Multiset.nodup_add.mp hfree.nodup
  have hS : VmSpec kend (soloSpec kend (· ∈ h.free) (fun _ => True) s parent.mem) :=
    vmSpec_soloSpec hk
  have hends := run_blank (Multiset.coe_nodup.mp hnd)
    (fun pa hpa => hfree.valid pa (Multiset.mem_add.mpr (Or.inl hpa))) fails
    (wp_copyuvm_image hS (fun _ => trivial) hkmap hsz (present_up hsz hpar)
      (pages_blank parent.mem))
  generalize run fails (copyuvm kend kmap parent sz) h s (blank parent.mem) = r at hdone hends ⊢
  intro child
  unfold AloneEnds at hends
  rw [hdone] at hends
  obtain ⟨o, hq, -, hall, hmem⟩ := hends
  obtain ⟨himage, hexact, hsup⟩ := hq rfl
  -- every page of the child was on the free list
  have hapart : ∀ pa ∈ pages child.dir, pa ∉ pages parent.dir := fun pa hpa =>
    Multiset.disjoint_left.mp hdisj (hall ▸
      Multiset.mem_add.mpr (Or.inr (Multiset.mem_add.mpr (Or.inl hpa))))
  refine ⟨himage, hapart, fun va h1 h2 hp => ?_, hsup, fun pa hpa => hmem pa fun hin => ?_,
    fun mem b va va' h1 h2 hp hp' => ?_⟩
  · exact absurd ((hexact.2 va h2).mp hp) (not_lt.mpr h1)
  · exact Multiset.disjoint_left.mp hdisj (Multiset.mem_coe.mpr hin) hpa
  · have hne : pteAddr (child.dir.pte va) ≠ pteAddr (parent.dir.pte va') := by
      intro he
      refine hapart _ (mem_pages h1 hp) ?_
      rw [he]
      exact mem_pages h2 hp'
    exact ⟨byte_poke hne.symm, byte_poke hne⟩

end Fork

open Xv6.Kernel in
theorem copyuvm_copies_small :
    let r := run (fun _ => false) (copyuvm 0x100000 [⟨KERNBASE, 0, PGSIZE, PTE_W⟩] small.vm 4096)
      ⟨smallFree, 0⟩ () (blank small.vm.mem)
    r.out = .done true ∧ SameImage small.vm r.loc 4096 ∧
      ∀ pa ∈ pages r.loc.dir, pa ∉ pages small.vm.dir := by
  have hall : (smallFree + pages small.vm.dir : Multiset ℕ) =
      {0x404000, 0x405000, 0x406000, 0x407000, 0x402000, 0x401000, 0x400000} := by
    rw [small_pages]
    decide
  have halone : Alone 0x100000 smallFree small.vm := ⟨by rw [hall]; decide, by rw [hall]; decide⟩
  have hkmap : ∀ k ∈ [Kmap.mk KERNBASE 0 PGSIZE PTE_W], k.high ∧ k.supervisor := by decide
  have hpar : ∀ va < 4096, present (small.vm.dir.pte va) := fun va hva =>
    (small_exact.2 va (by unfold KERNBASE; omega)).mpr hva
  have hdone : (run (fun _ => false) (copyuvm 0x100000 [⟨KERNBASE, 0, PGSIZE, PTE_W⟩] small.vm 4096)
      ⟨smallFree, 0⟩ () (blank small.vm.mem)).out = .done true := by decide +kernel
  obtain ⟨himage, hapart, -⟩ := copyuvm_copies (by decide) hkmap halone (by decide) hpar _ () hdone
  exact ⟨hdone, himage, hapart⟩

end Xv6.PageTable
