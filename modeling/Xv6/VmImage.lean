import Xv6.UserMem

/-!
Making the address space of a process: `copyuvm` for `fork`, and what `exec` and `userinit` use
to fill one.
-/

namespace Xv6.PageTable

open Xv6.Lib.Own

variable {G K : Type} {S : Spec G Vm ℕ Panic K} {kend : ℕ} {l : Vm} {o : Multiset ℕ}

/-- The user pages are those of `[0, PGROUNDUP(sz))`. -/
def Exact (l : Vm) (sz : ℕ) : Prop :=
  sz < KERNBASE ∧ ∀ va < KERNBASE, present (l.dir.pte va) ↔ va < pgroundup sz

lemma exact_zero (h : ∀ va < KERNBASE, ¬ present (l.dir.pte va)) : Exact l 0 := by
  refine ⟨by unfold KERNBASE; omega, fun va hva => ?_⟩
  rw [pgroundup_eq (Nat.zero_le _)]
  simpa using h va hva

variable {l' parent : Vm} {sz va uva : ℕ} {kmap : List Kmap} {Q : Bool → Vm → Multiset ℕ → Prop}

lemma Exact.of_present (h : Exact l sz)
    (hp : ∀ va < KERNBASE, present (l'.dir.pte va) ↔ present (l.dir.pte va)) : Exact l' sz :=
  ⟨h.1, fun va hva => (hp va hva).trans (h.2 va hva)⟩

variable {sz' i addr offset : ℕ} {ip : Readi}

/-- New pages from the old size on. -/
lemma Exact.fill {perm : ℕ → ℕ} {cont : ℕ → Page} (h : Exact l sz) (hsz : sz ≤ sz')
    (hsz' : sz' < KERNBASE) (hl' : Filled perm cont l l' (pgroundup sz) (pgroundup sz')) :
    Exact l' sz' := by
  refine ⟨hsz', fun va hva => ?_⟩
  have hva' : va < 2147483648 := hva
  have h1 := pgroundup_eq (hsz.trans hsz'.le)
  have h2 := pgroundup_eq hsz'.le
  by_cases hin : pgroundup sz ≤ va ∧ va < pgroundup sz'
  · obtain ⟨pa, -, hpte, -⟩ := hl'.fill va hin.1 hin.2
    rw [hpte]
    exact iff_of_true (pteWord_present _ _) hin.2
  · rw [hl'.keeps.pte va (by omega) hin, h.2 va hva]
    omega

/-- The pages above the new size go. -/
lemma Exact.clear (h : Exact l sz) (hsz : sz' ≤ sz)
    (hl' : Cleared l l' (pgroundup sz') (pgroundup sz)) : Exact l' sz' := by
  refine ⟨lt_of_le_of_lt hsz h.1, fun va hva => ?_⟩
  have hva' : va < 2147483648 := hva
  have h1 := pgroundup_eq h.1.le
  have h2 := pgroundup_eq (hsz.trans h.1.le)
  by_cases hin : pgroundup sz' ≤ va ∧ va < pgroundup sz
  · exact iff_of_false (hl'.clear va hin.1 hin.2) (by omega)
  · rw [hl'.keeps.pte va (by omega) hin, h.2 va hva]
    omega

/-- Clearing above the size changes nothing. -/
lemma Exact.clear_above {hi : ℕ} (h : Exact l sz) (hl' : Cleared l l' (pgroundup sz) hi) :
    Exact l' sz := by
  refine ⟨h.1, fun va hva => ?_⟩
  have hva' : va < 2147483648 := hva
  by_cases hin : pgroundup sz ≤ va ∧ va < hi
  · exact iff_of_false (hl'.clear va hin.1 hin.2) (by omega)
  · rw [hl'.keeps.pte va (by omega) hin, h.2 va hva]

/-! ### `copyuvm` -/

/-- The pages are copies of those of the parent. -/
abbrev Copied (parent : Vm) :=
  Filled (fun va => pteFlags (parent.dir.pte va)) fun va => parent.mem (pteAddr (parent.dir.pte va))

/-- What there was no page for: a copy, or a page table for it. -/
inductive CopyFail
  | page
  | table
  deriving DecidableEq

/-- The loop of `copyuvm`, with the reason why it fails. -/
def copyFromWhy (kend : ℕ) (parent : Vm) (sz i : ℕ) : VmProg G (Option CopyFail) :=
  if i < sz then
    match parent.dir.tab (pdx i) with
    | none => .halt .copyuvmExist
    | some t =>
      if present (t.pte (ptx i)) then do
        let pa := pteAddr (t.pte (ptx i))
        let flags := pteFlags (t.pte (ptx i))
        match ← kalloc with
        | none =>
          freevm kend
          pure (some .page)
        | some mem =>
          Prog.modify fun l => l.setMem mem (parent.mem pa)
          if ← mappages i PGSIZE mem flags then copyFromWhy kend parent sz (i + PGSIZE)
          else
            freevm kend
            pure (some .table)
      else .halt .copyuvmPresent
  else pure none
termination_by sz - i
decreasing_by unfold PGSIZE; omega

/-- The two loops do the same. -/
lemma copyFrom_why (parent : Vm) (sz i : ℕ) : (copyFrom kend parent sz i : VmProg G Bool) =
    copyFromWhy kend parent sz i >>= fun r => pure r.isNone := by
  induction hn : sz - i using Nat.strong_induction_on generalizing i with
  | h n ih =>
  unfold copyFrom copyFromWhy
  split_ifs with hlt
  · rcases ht : parent.dir.tab (pdx i) with _ | t
    · exact (Prog.halt_bind _ _).symm
    dsimp only
    split_ifs
    · simp only [Prog.bind_assoc]
      refine congrArg _ (funext fun r => ?_)
      rcases r with _ | mem
      · simp only [Prog.bind_assoc, Prog.pure_bind, Option.isNone_some]
      simp only [Prog.bind_assoc]
      refine congrArg _ (funext fun _ => congrArg _ (funext fun b => ?_))
      cases b
      · simp only [Bool.false_eq_true, if_false, Prog.bind_assoc, Prog.pure_bind,
          Option.isNone_some]
      · simpa only [if_true] using ih _ (by unfold PGSIZE; omega) _ rfl
    · exact (Prog.halt_bind _ _).symm
  · exact (Prog.pure_bind _ _).symm

lemma wp_copyFromWhy (hS : VmSpec kend S) (hi : i % 4096 = 0) (hsz : sz < KERNBASE)
    (hpage : l.dir.page.isSome)
    (hremap : S.halts .remap ∨ ∀ va, i ≤ va → va < pgroundup sz → ¬ present (l.dir.pte va))
    (hex : S.halts .copyuvmExist ∧ S.halts .copyuvmPresent ∨ ∀ va, i ≤ va → va < pgroundup sz →
      present (parent.dir.pte va)) {Q : Option CopyFail → Vm → Multiset ℕ → Prop}
    (hok : ∀ l', Copied parent l l' i (pgroundup sz) → S.Ctx l' o → Q none l' o)
    (hpg : ∀ l', pages l'.dir = 0 → S.Ctx l' o → Q (some .page) l' o)
    (htab : ∀ l' mem, pages l'.dir = 0 → S.Ctx l' (mem ::ₘ o) → Q (some .table) l' (mem ::ₘ o)) :
    wp S (copyFromWhy kend parent sz i) Q l o := by
  have hsz' : sz < 2147483648 := hsz
  have hup := pgroundup_eq hsz.le
  have hupk : pgroundup sz ≤ KERNBASE := pgroundup_le hsz
  induction hn : sz - i using Nat.strong_induction_on generalizing i l with
  | h n ih =>
  unfold copyFromWhy
  split_ifs with hlt
  · have hk : i < KERNBASE := hlt.trans hsz
    have hstep : i + 4096 ≤ pgroundup sz := by omega
    have hpar : present (parent.dir.pte i) ∨ S.halts .copyuvmExist ∧ S.halts .copyuvmPresent :=
      hex.symm.imp_left fun h => h i le_rfl (by omega)
    rcases ht : parent.dir.tab (pdx i) with _ | t
    · refine fun _ => hpar.elim (fun hp => ?_) And.left
      rw [pte_of_tab_none ht] at hp
      exact absurd hp not_present_zero
    have hpte : parent.dir.pte i = t.pte (ptx i) := by rw [Dir.pte, ht]
    dsimp only
    split_ifs with hp
    swap
    · exact fun _ => hpar.elim (fun h => absurd (hpte ▸ h) hp) And.right
    refine wp_bind (wp_new (fun _ => ?_) fun mem hv hfresh _ => ?_)
    · exact wp_bind (wp_freevm hS hpage fun l' hl' _ => wp_pure (hpg l' hl'))
    have hpa : mem % PGSIZE = 0 := (hS.valid mem hv).1
    have hflags : pteFlags (t.pte (ptx i)) < PGSIZE := Nat.mod_lt _ (by decide)
    refine wp_bind (wp_setMem hS (Or.inr (by simp)) fun _ => ?_)
    refine wp_bind (wp_mappages_user hS hi hk hpa hflags
      (fun hp => hremap.resolve_right fun habs => habs i le_rfl (by omega) hp) (fun _ => ?_)
      fun l₂ hl₂ _ => ?_)
    · -- the page just taken is not given back
      rw [if_neg Bool.false_ne_true]
      refine wp_bind (wp_freevm hS ?_ fun l' hl' _ => wp_pure (htab l' mem hl'))
      exact hpage
    · have hpage₂ : l₂.dir.page.isSome := by
        rw [hl₂.page]
        exact hpage
      have hex₂ := hex.imp_right fun h va (h1 : i + 4096 ≤ va) h2 => h va (by omega) h2
      have hremap₂ : S.halts .remap ∨
          ∀ va, i + 4096 ≤ va → va < pgroundup sz → ¬ present (l₂.dir.pte va) := by
        refine hremap.imp_right fun h va h1 h2 => ?_
        rw [hl₂.other va (by omega) (by omega)]
        exact h va (by omega) h2
      have hcons (l' : Vm) (hl' : Copied parent l₂ l' (i + 4096) (pgroundup sz)) :
          Copied parent l l' i (pgroundup sz) := by
        rw [← hpte] at hl₂ hflags
        exact Filled.cons hi hupk hstep (hS.fresh hfresh) hpa hflags
          (fun va hva => by rw [pte_same_page hva]; exact ⟨rfl, rfl⟩) hl₂ hl'
      rw [if_pos rfl]
      exact ih (sz - (i + PGSIZE)) (by unfold PGSIZE; omega) (by unfold PGSIZE; omega)
        hpage₂ hremap₂ hex₂ (fun l' hl' => hok l' (hcons l' hl')) rfl
  · exact wp_pure (hok l (Filled.refl_of_le (by omega)))

/-- Why `copyuvm` fails: without a directory there is no reason to give. -/
def copyuvmWhy (kend : ℕ) (kmap : List Kmap) (parent : Vm) (sz : ℕ) :
    VmProg G (Bool × Option CopyFail) := do
  if ← setupkvm kend kmap then
    let r ← copyFromWhy kend parent sz 0
    pure (r.isNone, r)
  else pure (false, none)

lemma copyuvm_why (kmap : List Kmap) (parent : Vm) (sz : ℕ) :
    (copyuvm kend kmap parent sz : VmProg G Bool) =
      copyuvmWhy kend kmap parent sz >>= fun r => pure r.1 := by
  unfold copyuvm copyuvmWhy
  simp only [Prog.bind_assoc]
  refine congrArg _ (funext fun b => ?_)
  cases b
  · rfl
  · rw [if_pos rfl, if_pos rfl, copyFrom_why]
    simp only [Prog.bind_assoc]
    rfl

lemma wp_copyuvmWhy (hS : VmSpec kend S) (hkmap : ∀ k ∈ kmap, k.high)
    (hremap : S.halts .remap ∨ kmap.Pairwise Kmap.apart) (hsz : sz < KERNBASE)
    (hl : pages l.dir = 0)
    (hex : S.halts .copyuvmExist ∧ S.halts .copyuvmPresent ∨ ∀ va < pgroundup sz,
      present (parent.dir.pte va)) {Q : Bool × Option CopyFail → Vm → Multiset ℕ → Prop}
    (hok : ∀ l₀ l', l₀.Fresh → Rows kmap l₀ → Copied parent l₀ l' 0 (pgroundup sz) → S.Ctx l' o →
      Q (true, none) l' o)
    (hfail : ∀ r l', r ≠ some .table → pages l'.dir = 0 → S.Ctx l' o → Q (false, r) l' o)
    (htab : ∀ l' mem, pages l'.dir = 0 → S.Ctx l' (mem ::ₘ o) →
      Q (false, some .table) l' (mem ::ₘ o)) :
    wp S (copyuvmWhy kend kmap parent sz) Q l o := by
  unfold copyuvmWhy
  refine wp_bind (wp_setupkvm hS hkmap hremap hl (fun l₀ hl₀ hrows _ => ?_) fun l' hl' _ => ?_)
  · rw [if_pos rfl]
    refine wp_bind (wp_copyFromWhy hS (Nat.zero_mod _) hsz hl₀.1 (Or.inr fun va _ hva => ?_)
      (hex.imp_right fun h va _ hva => h va hva) (fun l' hl' _ => ?_) (fun l' hl' _ => ?_)
      fun l' mem hl' _ => ?_)
    · exact hl₀.2 va (lt_of_lt_of_le hva (pgroundup_le hsz))
    · exact wp_pure (hok l₀ l' hl₀ hrows hl')
    · exact wp_pure (hfail _ l' (by decide) hl')
    · exact wp_pure (htab l' mem hl')
  · rw [if_neg Bool.false_ne_true]
    exact wp_pure (hfail _ l' (by decide) hl')

/-- **`copyuvm`** makes a copy of the parent's pages, or leaves no directory. Its failure paths
give back the directory but not always the last page taken. -/
lemma wp_copyuvm (hS : VmSpec kend S) (hkmap : ∀ k ∈ kmap, k.high)
    (hremap : S.halts .remap ∨ kmap.Pairwise Kmap.apart) (hsz : sz < KERNBASE)
    (hl : pages l.dir = 0)
    (hex : S.halts .copyuvmExist ∧ S.halts .copyuvmPresent ∨ ∀ va < pgroundup sz,
      present (parent.dir.pte va))
    (hok : ∀ l₀ l', l₀.Fresh → Rows kmap l₀ → Copied parent l₀ l' 0 (pgroundup sz) → S.Ctx l' o →
      Q true l' o) (hfail : ∀ l' o', pages l'.dir = 0 → o ≤ o' → S.Ctx l' o' → Q false l' o') :
    wp S (copyuvm kend kmap parent sz) Q l o := by
  rw [copyuvm_why]
  refine wp_bind (wp_copyuvmWhy hS hkmap hremap hsz hl hex (fun l₀ l' h1 h2 h3 _ => ?_)
    (fun r l' _ hl' _ => ?_) fun l' mem hl' _ => ?_)
  · exact wp_pure (hok l₀ l' h1 h2 h3)
  · exact wp_pure (hfail l' o hl' le_rfl)
  · exact wp_pure (hfail l' _ hl' (Multiset.le_cons_self _ _))

lemma Exact.all_present (h : Exact parent sz) :
    ∀ va < pgroundup sz, present (parent.dir.pte va) := fun va hva =>
  (h.2 va (lt_of_lt_of_le hva (pgroundup_le h.1))).mpr hva

/-- The copy has the size of the parent. -/
lemma Vm.Fresh.exact_copy {l₀ : Vm} (h : l₀.Fresh) (hsz : sz < KERNBASE)
    (hl' : Copied parent l₀ l' 0 (pgroundup sz)) : Exact l' sz :=
  (exact_zero h.2).fill (Nat.zero_le _) hsz (by rwa [pgroundup_eq (Nat.zero_le _)])

/-! ### What `exec` and `userinit` use -/

/-- The byte of a segment that `loaduvm` has read at `va`. -/
def segByte (ip : Readi) (addr offset sz va : ℕ) : UInt8 :=
  (ip ((offset + (va - addr) / 4096 * 4096) % 2 ^ 32)
    (min (sz - (va - addr) / 4096 * 4096) PGSIZE)).getD ((va - addr) % 4096) 0

/-- Every page of the segment from `i` on has been read in full. -/
def ReadFull (ip : Readi) (offset sz i : ℕ) : Prop :=
  ∀ j, i ≤ j → j < sz → j % 4096 = 0 →
    (ip ((offset + j) % 2 ^ 32) (min (sz - j) PGSIZE)).length = min (sz - j) PGSIZE

/-- The bytes of `[addr + i, addr + sz)` have been loaded, and no others. -/
structure Loaded (ip : Readi) (addr offset sz i : ℕ) (l l' : Vm) : Prop where
  dir : l'.dir = l.dir
  full : ReadFull ip offset sz i
  byte : ∀ va < KERNBASE, present (l.dir.pte va) → byte l' va =
    if addr + i ≤ va ∧ va < addr + sz then segByte ip addr offset sz va else PageTable.byte l va

/-- One page is loaded. -/
lemma byte_load {pa : ℕ} {bs : List UInt8} (hn : (pages l.dir).Nodup) {a : ℕ} (ha : a < KERNBASE)
    (hpa : present (l.dir.pte a)) (hva : va < KERNBASE) (hp : present (l.dir.pte va))
    (hpage : pa = pteAddr (l.dir.pte a)) :
    byte (l.setMem pa (blit (l.mem pa) 0 bs)) va = if va / 4096 = a / 4096 ∧
        va % 4096 < bs.length then bs.getD (va % 4096) 0 else byte l va := by
  subst hpage
  unfold byte Vm.setMem
  dsimp only
  by_cases hsame : va / 4096 = a / 4096
  · rw [pte_same_page hsame, Function.update_self, blit]
    simp only [hsame, Nat.zero_le, true_and, zero_add, Nat.sub_zero]
    rfl
  · have hne : pteAddr (l.dir.pte va) ≠ pteAddr (l.dir.pte a) := fun he =>
      hsame (pteAddr_inj hn hva ha hp hpa he)
    rw [Function.update_of_ne hne, if_neg (fun h => hsame h.1)]

lemma wp_loadFrom (hS : VmSpec kend S) (ha : addr % 4096 = 0) (hi : i % 4096 = 0)
    (hex : ∀ j < sz, addr + j < KERNBASE ∧ present (l.dir.pte (addr + j)))
    (hbad : ∀ l', l'.dir = l.dir → S.Ctx l' o → Q false l' o)
    (hok : ∀ l', Loaded ip addr offset sz i l l' → S.Ctx l' o → Q true l' o) :
    wp S (loadFrom ip addr offset sz i) Q l o := by
  induction hn : sz - i using Nat.strong_induction_on generalizing i l with
  | h n ih =>
  unfold loadFrom
  by_cases hlt : i < sz
  · rw [if_pos hlt]
    obtain ⟨hk, hp⟩ := hex i hlt
    refine wp_bind (wp_get fun hc => ?_)
    rcases ht : l.dir.tab (pdx (addr + i)) with _ | t
    · rw [pte_of_tab_none ht] at hp
      exact absurd hp not_present_zero
    have hpte : t.pte (ptx (addr + i)) = l.dir.pte (addr + i) := by rw [Dir.pte, ht]
    have hmin : (if sz - i < PGSIZE then sz - i else PGSIZE) = min (sz - i) PGSIZE := by
      unfold PGSIZE
      split_ifs <;> omega
    have hnd : (pages l.dir).Nodup := by
      have := Multiset.nodup_of_le (Multiset.le_add_right _ _) hc.nodup
      rwa [hS.own] at this
    dsimp only
    rw [hmin, hpte]
    refine wp_bind (wp_setMem hS (Or.inr (Multiset.mem_add.mpr (Or.inl (mem_pages hk hp))))
      fun _ => ?_)
    split_ifs with hlen
    · exact wp_pure (hbad _ rfl)
    · rw [not_not] at hlen
      refine ih (sz - (i + PGSIZE)) (by unfold PGSIZE; omega) (by unfold PGSIZE; omega) hex hbad
        (fun l' hl' => hok l' ⟨hl'.dir, fun j h1 h2 h3 => ?_, fun va hva hpv => ?_⟩) rfl
      · by_cases hj : j = i
        · rw [hj, hlen]
        · exact hl'.full j (by unfold PGSIZE; omega) h2 h3
      · rw [hl'.byte va hva hpv, byte_load hnd hk hp hva hpv rfl, hlen]
        unfold PGSIZE
        by_cases h1 : addr + (i + 4096) ≤ va ∧ va < addr + sz
        · rw [if_pos h1, if_pos (by omega)]
        · rw [if_neg h1]
          by_cases h2 : addr + i ≤ va ∧ va < addr + sz
          · have hoff : (va - addr) / 4096 * 4096 = i := by omega
            have hrem : (va - addr) % 4096 = va % 4096 := by omega
            rw [if_pos (by omega), if_pos h2, segByte, hoff, hrem]
            rfl
          · rw [if_neg (by omega), if_neg h2]
  · rw [if_neg hlt]
    refine wp_pure (hok l ⟨rfl, fun j h1 h2 => by omega, fun va _ _ => ?_⟩)
    rw [if_neg (by omega)]

/-- **`loaduvm`** writes the bytes of the segment and changes nothing else. -/
lemma wp_loaduvm (hS : VmSpec kend S) (ha : addr % PGSIZE = 0)
    (hex : ∀ j < sz, addr + j < KERNBASE ∧ present (l.dir.pte (addr + j)))
    (hbad : ∀ l', l'.dir = l.dir → S.Ctx l' o → Q false l' o)
    (hok : ∀ l', Loaded ip addr offset sz 0 l l' → S.Ctx l' o → Q true l' o) :
    wp S (loaduvm ip addr offset sz) Q l o := by
  rw [loaduvm, if_neg (not_not.mpr ha)]
  exact wp_loadFrom hS ha (Nat.zero_mod _) hex hbad hok

lemma clearU_present (w : ℕ) : present (clearU w) ↔ present w := by
  unfold present clearU PTE_U
  omega

lemma clearU_addr (w : ℕ) : pteAddr (clearU w) = pteAddr w := by
  unfold pteAddr clearU PTE_U PGSIZE
  omega

lemma clearU_user (w : ℕ) : ¬ user (clearU w) := by
  unfold user clearU PTE_U
  omega

/-- The page of `uva` is out of reach of user programs, and nothing else changes. -/
structure Guarded (uva : ℕ) (l l' : Vm) : Prop where
  page : l'.dir.page = l.dir.page
  mem : l'.mem = l.mem
  self : l'.dir.pte uva = clearU (l.dir.pte uva)
  other : ∀ va < 2 ^ 32, va / 4096 ≠ uva / 4096 → l'.dir.pte va = l.dir.pte va

lemma Guarded.pte (h : Guarded uva l l') (hva : va < 2 ^ 32) :
    l'.dir.pte va = l.dir.pte va ∨ l'.dir.pte va = clearU (l.dir.pte va) := by
  by_cases hpg : va / 4096 = uva / 4096
  · rw [pte_same_page hpg, h.self, pte_same_page hpg]
    exact Or.inr rfl
  · exact Or.inl (h.other va hva hpg)

lemma Guarded.present (h : Guarded uva l l') (hva : va < 2 ^ 32) :
    present (l'.dir.pte va) ↔ present (l.dir.pte va) := by
  rcases h.pte hva with he | he
  · rw [he]
  · rw [he, clearU_present]

lemma Guarded.byte (h : Guarded uva l l') (hva : va < 2 ^ 32) :
    byte l' va = PageTable.byte l va := by
  rcases h.pte hva with he | he
  · rw [PageTable.byte, PageTable.byte, he, h.mem]
  · rw [PageTable.byte, PageTable.byte, he, clearU_addr, h.mem]

lemma wp_clearpteu (hS : VmSpec kend S) (huva : uva < 2 ^ 32)
    (hex : S.halts .clearpteu ∨ (l.dir.tab (pdx uva)).isSome) {Q : Unit → Vm → Multiset ℕ → Prop}
    (h : ∀ l', Guarded uva l l' → S.Ctx l' o → Q () l' o) : wp S (clearpteu uva) Q l o := by
  unfold clearpteu
  refine wp_bind (wp_get fun _ => ?_)
  dsimp only
  split_ifs with ht
  · have hpages := pages_setPte (w := clearU (l.dir.pte uva)) ht
    have hpte : ptePage (clearU (l.dir.pte uva)) = ptePage (l.dir.pte uva) := by
      simp only [ptePage, clearU_present, clearU_addr]
    rw [hpte] at hpages
    refine wp_set hS o rfl ?_ (h _ ⟨rfl, rfl, pte_setPte_self ht _, fun va hva hpg => ?_⟩)
    · change pages (l.dir.setPte uva _) + o = _
      rw [add_right_cancel hpages]
    · exact pte_setPte_ne huva hva hpg _
  · exact fun _ => hex.elim id fun hs => absurd hs ht

/-- No page of the kernel half is for user programs. -/
def Supervisor (l : Vm) : Prop := ∀ va, KERNBASE ≤ va → va < 2 ^ 32 → ¬ accessible l.dir va

lemma Rows.supervisor (h : Rows kmap l) (hk : ∀ k ∈ kmap, k.supervisor) :
    Supervisor l := fun va h1 h2 ⟨hp, hu⟩ =>
  let ⟨k, hk', _, hsup⟩ := h.only va h1 h2 hp
  hsup (hk k hk') hu

/-- **`copyout`** writes what it can through pages for user programs, if it meets no missing page
table. -/
lemma wp_copyout (hS : VmSpec kend S) {zero : Option ℕ} {p : List UInt8} (hva : va < 2 ^ 32)
    (hnull : S.halts .nullDeref ∨ ∀ k < p.length, (l.dir.tab (pdx ((va + k) % 2 ^ 32))).isSome)
    (hsup : Blind S ∨ Supervisor l)
    (h : ∀ n, CopiedOut l.dir va p n → S.Ctx { l with mem := pokes l.dir va (p.take n) l.mem } o →
      Q (decide (n = p.length)) { l with mem := pokes l.dir va (p.take n) l.mem } o) :
    wp S (copyout zero va p) Q l o := by
  induction hn : p.length using Nat.strong_induction_on generalizing va p l with
  | h n ih =>
  subst hn
  unfold copyout
  split_ifs with hp
  · subst hp
    exact wp_pure (h 0 CopiedOut.nil)
  have hpos : 0 < p.length := List.length_pos_iff.mpr hp
  refine wp_bind (wp_get fun _ => ?_)
  have hstop (hacc : ¬ accessible l.dir (pgrounddown va)) (hc : S.Ctx l o) : Q false l o := by
    have hq := h 0 (CopiedOut.none hva hacc) hc
    rwa [decide_eq_false (by omega)] at hq
  dsimp only
  rw [show min (PGSIZE - (va - pgrounddown va)) p.length = chunk va p from rfl]
  split_ifs with ht hw
  · have hown : Blind S ∨ pteAddr (l.dir.pte (pgrounddown va)) ∈ pages l.dir + o := by
      refine hsup.imp_right fun hs => Multiset.mem_add.mpr (Or.inl (mem_pages ?_ hw.1))
      by_contra hge
      exact hs _ (not_lt.mp hge) (by unfold pgrounddown PGSIZE; omega) hw
    refine wp_bind (wp_setMem hS hown fun _ => ?_)
    refine ih (p.drop (chunk va p)).length (drop_chunk_lt hp) (pgrounddown_next_lt va)
      (hnull.imp_right fun hall k hk => ?_) hsup (fun m hm => ?_) rfl
    · rw [List.length_drop] at hk
      rw [chunk_next (p := p) (by omega)]
      exact hall _ (by omega)
    · have hlen : (p.drop (chunk va p)).length = p.length - chunk va p := List.length_drop
      have hle : chunk va p ≤ p.length := chunk_le
      have hq := h _ (CopiedOut.cons hva hw hm)
      rw [← pokes_cons hva] at hq
      have hdec :
          decide (m = (p.drop (chunk va p)).length) = decide (chunk va p + m = p.length) := by
        rw [hlen]
        exact decide_eq_decide.mpr (by omega)
      rw [hdec]
      exact hq
  · exact wp_pure (hstop hw)
  · -- `uva2ka` reads through a null pointer
    have hnone : l.dir.tab (pdx (pgrounddown va)) = none := by simpa using ht
    have hnd : S.halts .nullDeref := by
      refine hnull.resolve_right fun hall => ?_
      have h0 := hall 0 hpos
      have hsame : pdx (pgrounddown va) = pdx ((va + 0) % 2 ^ 32) := by
        unfold pdx pgrounddown PGSIZE
        omega
      rw [← hsame, hnone] at h0
      exact absurd h0 Bool.false_ne_true
    have hacc : ¬ accessible l.dir (pgrounddown va) := fun hacc => by
      rw [accessible, pte_of_tab_none hnone] at hacc
      exact not_present_zero hacc.1
    rcases zero with _ | w
    · exact fun _ => hnd
    · dsimp only
      split_ifs
      · exact fun _ => hnd
      · exact wp_pure (hstop hacc)

/-- `inituvm` maps one page, unless there is no page left for the page table. -/
lemma wp_inituvm (hS : VmSpec kend S) (hnull : S.halts .nullDeref) (hpg : S.halts .inituvmPage)
    (hremap : S.halts .remap) {init : List UInt8} {Q : Unit → Vm → Multiset ℕ → Prop}
    (h : ∀ l' o', l'.dir.page = l.dir.page → o ≤ o' → S.Ctx l' o' → Q () l' o') :
    wp S (inituvm init) Q l o := by
  unfold inituvm
  split_ifs
  · exact fun _ => hpg
  refine wp_bind (wp_new (fun _ _ => hnull) fun mem hv _ _ => ?_)
  have hpa : mem % PGSIZE = 0 := (hS.valid mem hv).1
  have hzero : 0 < KERNBASE := by
    unfold KERNBASE
    omega
  refine wp_bind (wp_setMem hS (Or.inr (by simp)) fun _ => ?_)
  refine wp_bind (wp_mappages_user hS (Nat.zero_mod _) hzero hpa (by decide)
    (fun _ => hremap) (fun _ => ?_) fun l₂ hl₂ _ => ?_)
  · exact wp_setMem hS (Or.inr (by simp)) (h _ _ rfl (Multiset.le_cons_self _ _))
  · have hin : mem ∈ pages l₂.dir := by
      have := mem_pages hzero (d := l₂.dir) (by rw [hl₂.self]; exact pteWord_present _ _)
      rwa [hl₂.self, pteWord_addr hpa (by decide)] at this
    exact wp_setMem hS (Or.inr (Multiset.mem_add.mpr (Or.inl hin))) (h _ _ hl₂.page le_rfl)

end Xv6.PageTable
