import Xv6.VmRun

/-!
The kernel half of an address space: what `setupkvm` of `vm.c` maps, for every frame buffer that
`graphic_init` of `graphic.c` finds.

`mappages` rounds the virtual start of a range down to a page, and takes the physical start as it
is. A range that does not start on a page is shifted by what has been cut off, and the frame buffer
starts on a page only if its size is one of whole pages.
-/

namespace Xv6.PageTable

open Xv6.Lib.Own

/-- The frame buffer in `struct gpu`. -/
structure Gpu where
  pvramAddr : ℕ
  vvramAddr : ℕ
  vramSize : ℕ

/-- The boot parameters have 64 bits, of which 32 are kept. -/
def graphicInit (frameBase frameSize : ℕ) : Gpu :=
  ⟨frameBase % 2 ^ 32, (DEVSPACE + 2 ^ 32 - frameSize % 2 ^ 32) % 2 ^ 32, frameSize % 2 ^ 32⟩

def kmap (data : ℕ) (gpu : Gpu) : List Kmap := kmapRows data gpu.vramSize gpu.pvramAddr

/-- The physical address of a virtual one. -/
def translate (d : Dir) (va : ℕ) : ℕ := pteAddr (d.pte va) + va % PGSIZE

/-- The addresses of the row go to those `shift` bytes behind the ones that it gives, with its
permission and not for user programs. -/
def Kmap.MapsTo (k : Kmap) (d : Dir) (shift : ℕ) : Prop :=
  ∀ va, k.virt ≤ va → va < k.virt + k.size → present (d.pte va) ∧ ¬ user (d.pte va) ∧
    pteFlags (d.pte va) = k.perm ||| PTE_P ∧
      translate d va = (k.physStart + (va - k.virt) + shift) % 2 ^ 32

def Kmap.Faithful (k : Kmap) (d : Dir) : Prop := k.MapsTo d 0

lemma Rows.mapsTo {rows : List Kmap} {l : Vm} (h : Rows rows l) (hap : rows.Pairwise Kmap.apart)
    {k : Kmap} (hk : k ∈ rows) (hsup : k.supervisor) (hlt : k.physStart < 2 ^ 32) :
    k.MapsTo l.dir (k.virt % PGSIZE) := by
  intro va h1 h2
  obtain ⟨hal, hperm, hu⟩ := hsup
  have hpte := h.map hap k hk hlt va (by unfold Kmap.covers pgrounddown PGSIZE; omega)
  have hpa : (k.physStart + (va - pgrounddown k.virt) / 4096 * 4096) % 2 ^ 32 % PGSIZE = 0 := by
    unfold PGSIZE at *
    omega
  rw [translate, hpte, user_pteWord hpa hperm, pteWord_flags hpa hperm, pteWord_addr hpa hperm]
  refine ⟨pteWord_present _ _, hu, rfl, ?_⟩
  unfold pgrounddown PGSIZE at *
  omega

/-- The row of `kmap` that `setupkvm` fills in. -/
def vramRow (gpu : Gpu) : Kmap :=
  ⟨DEVSPACE - gpu.vramSize, gpu.pvramAddr, gpu.pvramAddr + gpu.vramSize, PTE_W⟩

lemma vramRow_mem (data : ℕ) (gpu : Gpu) : vramRow gpu ∈ kmap data gpu := by
  simp [kmap, kmapRows, vramRow]

lemma vramRow_translate {gpu : Gpu} {frameBase frameSize : ℕ}
    (hgpu : gpu = graphicInit frameBase frameSize) (hsize : gpu.vramSize ≤ 0x2E000000) {d : Dir}
    {shift : ℕ} (h : (vramRow gpu).MapsTo d shift) {i : ℕ} (hi : i < gpu.vramSize) :
    translate d (gpu.vvramAddr + i) = (gpu.pvramAddr + i + shift) % 2 ^ 32 := by
  have hvirt : gpu.vvramAddr = (vramRow gpu).virt := by
    rw [hgpu] at hsize ⊢
    simp only [graphicInit, vramRow] at hsize ⊢
    unfold DEVSPACE
    omega
  have hlen : (vramRow gpu).size = gpu.vramSize := by
    simp only [vramRow, Kmap.size]
    omega
  have hva := (h (gpu.vvramAddr + i) (by omega) (by omega)).2.2.2
  rw [hva, hvirt, Nat.add_sub_cancel_left]
  rfl

section Run

variable {G : Type} {kend data : ℕ} {gpu : Gpu} {h : Heap ℕ}

/-- `setupkvm` does not panic, and the directory that it makes maps every row. -/
lemma setupkvm_mapsTo (hk : 0 < kend) (hdata : data % PGSIZE = 0) (hlo : KERNBASE + EXTMEM < data)
    (hhi : data < KERNBASE + PHYSTOP) {frameBase frameSize : ℕ}
    (hgpu : gpu = graphicInit frameBase frameSize) (hpos : 0 < gpu.vramSize)
    (hsize : gpu.vramSize ≤ 0x2E000000) (hp : gpu.pvramAddr % PGSIZE = 0) (hn : h.free.Nodup)
    (hv : ∀ pa ∈ h.free, validPage kend pa) (fails : ℕ → Bool) (s : G) (mem : ℕ → Page) :
    let r := run fails (setupkvm kend (kmap data gpu)) h s (blank mem)
    (∃ b, r.out = .done b) ∧
      (r.out = .done true → ∀ k ∈ kmap data gpu, k.MapsTo r.loc.dir (k.virt % PGSIZE)) := by
  obtain ⟨hrows, hap⟩ := kmapRows_ok hdata hlo hhi hpos hsize hp
  have hlt : ∀ k ∈ kmap data gpu, k.physStart < 2 ^ 32 := by
    have hd : data - KERNBASE < 4294967296 := by
      unfold KERNBASE PHYSTOP at *
      omega
    have hp' : gpu.pvramAddr < 4294967296 := by
      rw [hgpu]
      exact Nat.mod_lt _ (by decide)
    simp [kmap, kmapRows, EXTMEM, PCI_BAR_BASE, DEVSPACE, hd, hp']
  have hS : VmSpec kend (soloSpec kend (fun _ => True) (fun _ => False) s mem) := vmSpec_soloSpec hk
  obtain ⟨b, h', l, o, hr, hq, -⟩ := (alone_blank hn hv mem).run_done fails (s := s)
    (p := setupkvm kend (kmap data gpu))
    (wp_setupkvm hS (fun k hk => (hrows k hk).1) (.inr hap) (pages_blank mem)
      (Q := fun b l _ => b = true → ∀ k ∈ kmap data gpu, k.MapsTo l.dir (k.virt % PGSIZE))
      (fun l _ hl _ _ k hk => hl.mapsTo hap hk (hrows k hk).2 (hlt k hk)) fun _ _ _ => nofun)
  rw [hr]
  exact ⟨⟨b, rfl⟩, fun hb => hq (Outcome.done.inj hb)⟩

/-! ### With enough memory it succeeds -/

/-- How many page tables are still to be allocated. -/
def missing (d : Dir) : ℕ := ((Finset.range 1024).filter fun i => (d.tab i).isNone).card

/-- The program fails only if there are fewer pages than page tables missing. -/
def Succeeds (p : VmProg G Bool) : Prop :=
  ∀ h s l, missing l.dir ≤ h.free.length →
    (∃ h' s' l', run (fun _ => false) p h s l = ⟨.done true, h', s', l'⟩ ∧
      missing l'.dir ≤ h'.free.length) ∨ ∃ e, (run (fun _ => false) p h s l).out = .halted e

lemma missing_setTab {d : Dir} {i : ℕ} {t : Table} (hi : i < 1024) (hn : d.tab i = none) :
    missing (d.setTab i (some t)) + 1 = missing d := by
  have herase : (Finset.range 1024).filter (fun j => ((d.setTab i (some t)).tab j).isNone) =
      ((Finset.range 1024).filter fun j => (d.tab j).isNone).erase i := by
    ext j
    by_cases hj : j = i <;> simp [Dir.setTab, hj]
  rw [missing, herase]
  exact Finset.card_erase_add_one (by simp [hi, hn])

lemma missing_setPte (d : Dir) (va w : ℕ) : missing (d.setPte va w) = missing d := by
  refine congrArg Finset.card (Finset.filter_congr fun i _ => ?_)
  by_cases hi : i = pdx va <;> simp [Dir.setPte, Dir.setTab, hi]

lemma Succeeds.andThen {p q f : VmProg G Bool} (hp : Succeeds p) (hq : Succeeds q) :
    Succeeds (do if ← p then q else f) := by
  intro h s l hle
  rcases hp h s l hle with ⟨h', s', l', hr, hle'⟩ | ⟨e, hout⟩
  · rw [run_bind_done hr]
    exact hq h' s' l' hle'
  · rcases hr : run (fun _ => false) p h s l with ⟨o, h', s', l'⟩
    rw [hr] at hout
    obtain rfl : o = .halted e := hout
    exact .inr ⟨e, by rw [run_bind_halted hr]⟩

lemma succeeds_walkpgdir (va : ℕ) : Succeeds (walkpgdir va true : VmProg G Bool) := by
  rintro ⟨free, calls⟩ s l hle
  unfold walkpgdir
  rw [run_get_bind]
  cases ht : l.dir.tab (pdx va) with
  | some t => exact .inl ⟨_, _, _, rfl, hle⟩
  | none =>
    have hlt : pdx va < 1024 := Nat.mod_lt _ (by decide)
    have hone := missing_setTab (t := ⟨free.headD 0, fun _ => 0⟩) hlt ht
    cases free with
    | nil =>
      simp only [List.length_nil] at hle
      omega
    | cons pgtab rest =>
      simp only [List.length_cons, List.headD_cons] at hle hone
      exact .inl ⟨_, _, _, rfl, by change missing (l.dir.setTab _ _) ≤ rest.length; omega⟩

lemma succeeds_mapPage (a pa perm : ℕ) : Succeeds (mapPage a pa perm : VmProg G Bool) := by
  refine (succeeds_walkpgdir a).andThen fun h s l hle => ?_
  rw [run_get_bind]
  split_ifs
  · exact .inr ⟨_, rfl⟩
  · exact .inl ⟨_, _, _, rfl, (missing_setPte ..).trans_le hle⟩

lemma succeeds_mapFrom (perm n a pa : ℕ) : Succeeds (mapFrom perm n a pa : VmProg G Bool) := by
  induction n generalizing a pa with
  | zero => exact succeeds_mapPage a pa perm
  | succ n ih => exact (succeeds_mapPage a pa perm).andThen (ih _ _)

lemma succeeds_mapKernel (rows : List Kmap) : Succeeds (mapKernel kend rows : VmProg G Bool) := by
  induction rows with
  | nil => exact fun h s l hle => .inl ⟨h, s, l, rfl, hle⟩
  | cons k rest ih => exact (succeeds_mapFrom _ _ _ _).andThen ih

/-- One page for the directory, and one for every page table. -/
lemma setupkvm_succeeds (rows : List Kmap) (hfree : 1024 < h.free.length) (s : G) (l : Vm) :
    (run (fun _ => false) (setupkvm kend rows) h s l).out ≠ .done false := by
  obtain ⟨free, calls⟩ := h
  cases free with
  | nil => cases hfree
  | cons pgdir rest =>
    have hle : missing ⟨some pgdir, fun _ => none⟩ ≤ rest.length := by
      simpa [missing] using Nat.le_of_lt_succ hfree
    have hspace : ¬ KERNBASE + PHYSTOP > DEVSPACE := by decide
    change (run (fun _ => false) (if KERNBASE + PHYSTOP > DEVSPACE then .halt .physTooHigh
      else mapKernel kend rows) ⟨rest, calls + 1⟩ s ⟨⟨some pgdir, fun _ => none⟩, l.mem⟩).out ≠ _
    rw [if_neg hspace]
    have hrows : Succeeds (mapKernel kend rows : VmProg G Bool) := succeeds_mapKernel rows
    rcases hrows ⟨rest, calls + 1⟩ s ⟨⟨some pgdir, fun _ => none⟩, l.mem⟩ hle with
      ⟨h', s', l', hr, -⟩ | ⟨e, hr⟩
    · rw [hr]
      exact nofun
    · rw [hr]
      exact nofun

end Run

/-- Enough pages above the kernel. -/
@[irreducible] def bootFree : List ℕ := (List.range 1025).map fun i => 0x400000 + i * PGSIZE

lemma bootFree_length : 1024 < bootFree.length := by
  unfold bootFree
  rw [List.length_map, List.length_range]
  omega

lemma bootFree_nodup : bootFree.Nodup := by
  unfold bootFree
  refine List.nodup_range.map fun i j hij => ?_
  unfold PGSIZE at hij
  omega

lemma bootFree_valid : ∀ pa ∈ bootFree, validPage 0x200000 pa := by
  unfold bootFree
  intro pa hpa
  obtain ⟨i, hi, rfl⟩ := List.mem_map.mp hpa
  rw [List.mem_range] at hi
  unfold validPage PHYSTOP PGSIZE
  omega

section Law

variable {G : Type} {l : Vm} {a pa perm : ℕ}

/-- The loop of `mappages` as it is written: the fuel bounds its turns. -/
def mapLoop (perm last : ℕ) : ℕ → ℕ → ℕ → VmProg G (Option Bool)
  | 0, _, _ => pure none
  | fuel + 1, a, pa => do
    if ← mapPage a pa perm then
      if a = last then pure (some true)
      else mapLoop perm last fuel ((a + PGSIZE) % 2 ^ 32) ((pa + PGSIZE) % 2 ^ 32)
    else pure (some false)

/-- It ends, since `a` meets `last`. -/
lemma mapLoop_eq {last n fuel : ℕ} (ha : a % 4096 = 0) (ha' : a < 2 ^ 32)
    (hlast : last % 4096 = 0) (hlast' : last < 2 ^ 32)
    (hn : n = (last + 2 ^ 32 - a) % 2 ^ 32 / PGSIZE) (hf : n < fuel) :
    (mapLoop perm last fuel a pa : VmProg G (Option Bool)) =
      mapFrom perm n a pa >>= fun b => pure (some b) := by
  unfold PGSIZE at hn
  induction n generalizing a pa fuel with
  | zero =>
    obtain ⟨fuel, rfl⟩ := Nat.exists_eq_succ_of_ne_zero hf.ne'
    rw [mapLoop, mapFrom, if_pos (by omega)]
    congr 1
    funext b
    cases b <;> rfl
  | succ n ih =>
    obtain ⟨fuel, rfl⟩ := Nat.exists_eq_succ_of_ne_zero (Nat.ne_zero_of_lt hf)
    rw [mapLoop, mapFrom, if_neg (by omega), Prog.bind_assoc]
    congr 1
    funext b
    cases b with
    | false => rfl
    | true => exact ih (by unfold PGSIZE; omega) (by omega) (by unfold PGSIZE; omega) (by omega)

lemma run_walkpgdir (l : Vm) (a : ℕ) (fails : ℕ → Bool) (h : Heap ℕ) (s : G) :
    ∃ b h' l', run fails (walkpgdir a true) h s l = ⟨.done b, h', s, l'⟩ ∧
      l'.dir.page = l.dir.page ∧ (∀ va, l'.dir.pte va = l.dir.pte va) ∧
      (b = true → (l'.dir.tab (pdx a)).isSome) := by
  unfold walkpgdir
  rw [run_get_bind]
  cases ht : l.dir.tab (pdx a) with
  | some t => exact ⟨_, _, _, rfl, rfl, fun _ => rfl, fun _ => by rw [ht]; rfl⟩
  | none =>
    have hnew (f : Option ℕ → VmProg G Bool) : run fails (kalloc >>= f) h s l =
        run fails (f (h.alloc fails).1) (h.alloc fails).2 s l := rfl
    rw [if_pos rfl, hnew]
    rcases h.alloc fails with ⟨_ | pgtab, h'⟩
    · exact ⟨_, _, _, rfl, rfl, fun _ => rfl, nofun⟩
    · exact ⟨_, _, _, rfl, rfl, pte_newTab ht pgtab, fun _ => by simp [Vm.setTab, Dir.setTab]⟩

/-- One page is mapped, or there was no page for its table. -/
lemma run_mapPage (pa perm : ℕ) (ha : a % 4096 = 0) (ha' : a < 2 ^ 32) (hp : ¬ present (l.dir.pte a))
    (fails : ℕ → Bool) (h : Heap ℕ) (s : G) :
    ∃ b h' l', run fails (mapPage a pa perm) h s l = ⟨.done b, h', s, l'⟩ ∧
      RowMapped b l l' a (a + 4096) pa perm := by
  obtain ⟨b, h', l', hr, hpage, hpte, ht⟩ := run_walkpgdir l a fails h s
  rw [mapPage, run_bind_done hr]
  cases b with
  | false => exact ⟨_, _, _, rfl, hpage, fun va _ _ => hpte va, nofun⟩
  | true =>
    rw [if_pos rfl, run_get_bind, if_neg (by rwa [hpte])]
    have hm := (mapped_setPte (w := pteWord pa perm) ha' (ht rfl)).row ha
    exact ⟨_, _, _, rfl, hm.page.trans hpage,
      fun va hva hout => (hm.other va hva hout).trans (hpte va), hm.row⟩

lemma run_mapFrom {n : ℕ} (pa perm : ℕ) (ha : a % 4096 = 0) (ha' : a + n * 4096 < 2 ^ 32)
    (hp : ∀ va, a ≤ va → va < a + (n + 1) * 4096 → ¬ present (l.dir.pte va))
    (fails : ℕ → Bool) (h : Heap ℕ) (s : G) :
    ∃ b h' l', run fails (mapFrom perm n a pa) h s l = ⟨.done b, h', s, l'⟩ ∧
      RowMapped b l l' a (a + (n + 1) * 4096) pa perm := by
  induction n generalizing a pa h l with
  | zero =>
    have := run_mapPage pa perm ha (by omega) (hp a le_rfl (by omega)) fails h s
    rwa [← (by omega : a + (0 + 1) * 4096 = a + 4096)] at this
  | succ n ih =>
    obtain ⟨b, h₁, l₁, hr, hrow⟩ := run_mapPage pa perm ha (by omega)
      (hp a le_rfl (by omega)) fails h s
    rw [mapFrom, run_bind_done hr]
    cases b with
    | false =>
      exact ⟨_, _, _, rfl, hrow.page, fun va hva hout => hrow.other va hva (by omega), by simp⟩
    | true =>
      have hnext : (a + PGSIZE) % 2 ^ 32 = a + 4096 := by
        unfold PGSIZE
        omega
      have hhi : a + 4096 + (n + 1) * 4096 = a + (n + 1 + 1) * 4096 := by omega
      rw [if_pos rfl, hnext]
      obtain ⟨b, h₂, l₂, hr₂, hrow₂⟩ := ih (a := a + 4096) (l := l₁)
        ((pa + PGSIZE) % 2 ^ 32) (by omega) (by omega) (fun va h1 h2 => by
          rw [hrow.other va (by omega) (by omega)]
          exact hp va (by omega) (by omega)) h₁
      exact ⟨b, h₂, l₂, hr₂, hrow.trans (by omega) (by omega) (hhi ▸ hrow₂)⟩

/-- **Mapping law.** The loop ends; if `mappages` returns `0`, the pages of the range are mapped to
those from `pa` on and no other, and otherwise no page outside the range has changed. -/
theorem mappages_law (l : Vm) {va size : ℕ} (hsize : 0 < size) (hva : va + size - 1 < 2 ^ 32)
    (hpa : pa % PGSIZE = 0) (hpa' : pa < 2 ^ 32) (hperm : perm < PGSIZE)
    (hfree : ∀ a, pgrounddown va ≤ a → pgrounddown a < va + size → ¬ present (l.dir.pte a))
    (fails : ℕ → Bool) (h : Heap ℕ) (s : G) :
    (∀ fuel, 2 ^ 20 ≤ fuel →
      (mapLoop perm (pgrounddown ((va + size + (2 ^ 32 - 1)) % 2 ^ 32)) fuel (pgrounddown va) pa :
        VmProg G (Option Bool)) = mappages va size pa perm >>= fun b => pure (some b)) ∧
    ∃ b h' l', run fails (mappages va size pa perm) h s l = ⟨.done b, h', s, l'⟩ ∧
      (b = true → ∀ a, pgrounddown va ≤ a → pgrounddown a < va + size →
        present (l'.dir.pte a) ∧ pteFlags (l'.dir.pte a) = perm ||| PTE_P ∧
        pteAddr (l'.dir.pte a) = (pa + (pgrounddown a - pgrounddown va)) % 2 ^ 32) ∧
      ∀ a < 2 ^ 32, ¬ (pgrounddown va ≤ a ∧ pgrounddown a < va + size) →
        l'.dir.pte a = l.dir.pte a := by
  have hdown : ∀ a, pgrounddown a = a / 4096 * 4096 := fun _ => rfl
  have hpa₄ : pa % 4096 = 0 := hpa
  simp only [hdown] at hfree ⊢
  have hn : ∀ n, n = (pgrounddown ((va + size + (2 ^ 32 - 1)) % 2 ^ 32) + 2 ^ 32 -
      pgrounddown va) % 2 ^ 32 / PGSIZE → n = (va + size - 1) / 4096 - va / 4096 := by
    unfold pgrounddown PGSIZE
    omega
  refine ⟨fun fuel hfuel => mapLoop_eq (by omega) (by omega) (by omega) (by omega) rfl ?_, ?_⟩
  · rw [hn _ rfl]
    omega
  unfold mappages
  dsimp only
  rw [hn _ rfl, hdown]
  obtain ⟨b, h', l', hr, hrow⟩ := run_mapFrom (l := l) pa perm
    (a := va / 4096 * 4096) (n := (va + size - 1) / 4096 - va / 4096) (by omega) (by omega)
    (fun a h1 h2 => hfree a h1 (by omega)) fails h s
  refine ⟨b, h', l', hr, fun hb a h1 h2 => ?_, fun a ha hout => hrow.other a ha (by omega)⟩
  obtain ⟨q, hq, hpa, hpte⟩ := hrow.row hb a h1 (by omega)
  rw [hpte, pteWord_flags (hq hpa₄) hperm, pteWord_addr (hq hpa₄) hperm, hpa hpa']
  exact ⟨pteWord_present _ _, rfl, by omega⟩

/-- Two pages of an empty directory, from an address inside the first on. -/
theorem mappages_law_null :
    ∃ b h' l', run (fun _ => false) (mappages 0x1800 0x1000 0x5000 PTE_W) ⟨[0x400000], 0⟩ ()
      Vm.null = ⟨.done b, h', (), l'⟩ ∧ (b = true → pteAddr (l'.dir.pte 0x2000) = 0x6000) := by
  obtain ⟨-, b, h', l', hr, hmap, -⟩ := mappages_law Vm.null (by decide : 0 < 0x1000)
    (by decide : 0x1800 + 0x1000 - 1 < 2 ^ 32) (by decide : 0x5000 % PGSIZE = 0) (by decide)
    (by decide : PTE_W < PGSIZE)
    (fun a _ _ => by change ¬ present 0; decide) (fun _ => false) ⟨[0x400000], 0⟩ ()
  exact ⟨b, h', l', hr, fun hb => (hmap hb 0x2000 (by decide) (by decide)).2.2⟩

end Law

end Xv6.PageTable
