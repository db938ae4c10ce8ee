import Xv6.PageOwn

/-!
One specification for each function of `vm.c`: what it does to the page table entries, to the
contents of user pages and to the pages it owns, whatever `kalloc` answers.
-/

namespace Xv6.PageTable

open Xv6.Lib.Own

variable {G K α : Type} {S : Spec G Vm ℕ Panic K} {kend : ℕ} {l : Vm} {o : Multiset ℕ}

/-- The pages of the allocator, and what an address space owns. The tokens may record memory, but
not that of pages which are owned. -/
structure VmSpec (kend : ℕ) (S : Spec G Vm ℕ Panic K) : Prop where
  own : ∀ l, S.own l = pages l.dir
  tok : ∀ l l', l'.mem = l.mem → S.tok l' = S.tok l
  write : ∀ l o pa c, S.Ctx l o → pa ∈ S.own l + o → S.tok (l.setMem pa c) = S.tok l
  valid : ∀ pa, S.valid pa → validPage kend pa
  pos : 0 < kend

variable {pa va a perm lo hi oldsz newsz : ℕ} {Q : Bool → Vm → Multiset ℕ → Prop} {l' l₂ : Vm}
  {k : Kmap} {kmap : List Kmap}

/-- Only a page that is owned can be freed. -/
lemma wp_kfree' {L : Type} {S : Spec G L ℕ Panic K} {l : L}
    (hvalid : ∀ pa, S.valid pa → validPage kend pa) {u : L → L} {Q : Unit → L → Multiset ℕ → Prop}
    (o' : Multiset ℕ) (ht : S.tok (u l) = S.tok l) (he : S.own (u l) + pa ::ₘ o' = S.own l + o)
    (hQ : S.Ctx (u l) o' → Q () (u l) o') :
    wp S (kfree kend pa u) Q l o := by
  refine wp_ctx fun hc => ?_
  have hv : validPage kend pa := by
    refine hvalid pa (hc.valid pa ?_)
    rw [← he]
    simp
  rw [kfree, if_pos hv]
  exact fun _ => ⟨ht, o', he, hQ⟩

variable {u : Vm → Vm} {w lo' hi' : ℕ} {l₁ : Vm} {cont : ℕ → Page}

lemma wp_kfree (hS : VmSpec kend S) {Q : Unit → Vm → Multiset ℕ → Prop} (o' : Multiset ℕ)
    (hm : (u l).mem = l.mem) (he : pages (u l).dir + pa ::ₘ o' = pages l.dir + o)
    (hQ : S.Ctx (u l) o' → Q () (u l) o') :
    wp S (kfree kend pa u) Q l o :=
  wp_kfree' hS.valid o' (hS.tok _ _ hm) (by rw [hS.own, hS.own, he]) hQ

/-- A new page is not one of the address space. -/
lemma VmSpec.fresh (hS : VmSpec kend S) (h : pa ∉ S.own l + o) : pa ∉ pages l.dir :=
  fun hm => h (Multiset.mem_add.mpr (Or.inl (by rwa [hS.own])))

/-- A write to a page table or the directory. -/
lemma wp_set (hS : VmSpec kend S) {Q : Unit → Vm → Multiset ℕ → Prop} (o' : Multiset ℕ)
    (hm : (u l).mem = l.mem) (he : pages (u l).dir + o' = pages l.dir + o)
    (hQ : S.Ctx (u l) o' → Q () (u l) o') :
    wp S (Prog.modify u : VmProg G Unit) Q l o :=
  wp_modify o' (hS.tok _ _ hm) (by rw [hS.own, hS.own, he]) hQ

/-- The tokens say nothing about memory. -/
def Blind (S : Spec G Vm ℕ Panic K) : Prop := ∀ l l', S.tok l' = S.tok l

/-- A write to a page that is owned. -/
lemma wp_setMem (hS : VmSpec kend S) {c : Vm → Page} {Q : Unit → Vm → Multiset ℕ → Prop}
    (hpa : Blind S ∨ pa ∈ pages l.dir + o)
    (hQ : S.Ctx (l.setMem pa (c l)) o → Q () (l.setMem pa (c l)) o) :
    wp S (Prog.modify fun l => l.setMem pa (c l) : VmProg G Unit) Q l o := by
  refine wp_ctx fun hc => wp_modify o ?_ (by rw [hS.own, hS.own]; rfl) hQ
  rcases hpa with hb | hpa
  · exact hb _ _
  · exact hS.write l o pa _ hc (by rwa [hS.own])

lemma wp_walkpgdir (h : S.Ctx l o → Q (l.dir.tab (pdx va)).isSome l o) :
    wp S (walkpgdir va false) Q l o := by
  unfold walkpgdir
  refine wp_bind (wp_get fun hc => ?_)
  rcases ht : l.dir.tab (pdx va) with _ | t
  · refine wp_pure fun hc => ?_
    have := h hc
    rwa [ht] at this
  · refine wp_pure fun hc => ?_
    have := h hc
    rwa [ht] at this

/-- A page table is there afterwards, or `kalloc` has failed. -/
lemma wp_walkpgdir_alloc (hS : VmSpec kend S) (hfail : S.Ctx l o → Q false l o)
    (hold : (l.dir.tab (pdx va)).isSome → S.Ctx l o → Q true l o)
    (hnew : ∀ pgtab, l.dir.tab (pdx va) = none →
      S.Ctx (l.setTab (pdx va) (some ⟨pgtab, fun _ => 0⟩)) o →
      Q true (l.setTab (pdx va) (some ⟨pgtab, fun _ => 0⟩)) o) :
    wp S (walkpgdir va true) Q l o := by
  unfold walkpgdir
  refine wp_bind (wp_get fun hc => ?_)
  rcases ht : l.dir.tab (pdx va) with _ | t
  · refine wp_bind (wp_new (fun hc => wp_pure hfail) fun pgtab hv hfresh hc => ?_)
    refine wp_bind (wp_set hS o rfl ?_ fun hc => wp_pure (hnew pgtab ht))
    change pages (l.dir.setTab (pdx va) (some ⟨pgtab, fun _ => 0⟩)) + o = _
    rw [pages_newTab (pdx_lt va) ht, Multiset.cons_add, Multiset.add_cons]
  · exact wp_pure (hold (by simp [ht]))

/-! ### `mappages` -/

/-- The page of `a` is mapped by `w`, and nothing else changes. -/
structure Mapped (l l' : Vm) (a w : ℕ) : Prop where
  page : l'.dir.page = l.dir.page
  self : l'.dir.pte a = w
  other : ∀ va < 2 ^ 32, va / 4096 ≠ a / 4096 → l'.dir.pte va = l.dir.pte va
  mem : l'.mem = l.mem

lemma mapped_setPte (ha : a < 2 ^ 32) (ht : (l.dir.tab (pdx a)).isSome) :
    Mapped l (l.setPte a w) a w where
  page := rfl
  self := pte_setPte_self ht w
  other _ hva hne := pte_setPte_ne ha hva hne w
  mem := rfl

/-- One page of `mappages`. A user page comes from the loose pages; a kernel page is nobody's. -/
lemma wp_mapPage (hS : VmSpec kend S) (ha : a < 2 ^ 32)
    (hpa : pdx a < 512 → pa % PGSIZE = 0 ∧ perm < PGSIZE) {o' : Multiset ℕ}
    (ho : o = if pdx a < 512 then pa ::ₘ o' else o')
    (hremap : present (l.dir.pte a) → S.halts .remap) (hfail : S.Ctx l o → Q false l o)
    (hok : ∀ l', Mapped l l' a (pteWord pa perm) → S.Ctx l' o' → Q true l' o') :
    wp S (mapPage a pa perm) Q l o := by
  -- what happens once the page table is there
  have hset (l₁ : Vm) (hpte : ∀ va, l₁.dir.pte va = l.dir.pte va) (hpage : l₁.dir.page = l.dir.page)
      (hmem : l₁.mem = l.mem) (ht : (l₁.dir.tab (pdx a)).isSome) :
      wp S (do
        if present ((← Prog.get).dir.pte a) then .halt .remap
        else
          Prog.modify fun l => l.setPte a (pteWord pa perm)
          pure true) Q l₁ o := by
    refine wp_bind (wp_get fun hc => ?_)
    split_ifs with hp
    · exact fun _ => hremap (hpte a ▸ hp)
    · refine wp_bind (wp_set hS o' rfl ?_ fun hc => wp_pure ?_)
      · have hpages := pages_setPte (w := pteWord pa perm) ht
        rw [ptePage, if_neg hp, ite_self, add_zero, ptePage,
          if_pos (pteWord_present pa perm)] at hpages
        change pages (l₁.dir.setPte a (pteWord pa perm)) + o' = _
        rw [hpages, ho]
        split_ifs with hu
        · rw [pteWord_addr (hpa hu).1 (hpa hu).2, add_assoc, Multiset.singleton_add]
        · rw [add_zero]
      · have hm := mapped_setPte (w := pteWord pa perm) ha ht
        refine hok _ ⟨hm.page.trans hpage, hm.self, fun va hva hne => ?_, hm.mem.trans hmem⟩
        rw [hm.other va hva hne, hpte]
  unfold mapPage
  refine wp_bind (wp_walkpgdir_alloc hS (fun _ => wp_pure hfail) (fun ht _ => ?_) fun pgtab ht _ =>
    ?_)
  · exact hset l (fun _ => rfl) rfl rfl ht
  · refine hset _ (fun va => pte_newTab ht pgtab va) rfl rfl ?_
    simp [Vm.setTab, Dir.setTab]

lemma mappages_page (ha : a % PGSIZE = 0) (ha' : a < KERNBASE) :
    (mappages a PGSIZE pa perm : VmProg G Bool) = mapPage a pa perm := by
  have ha₁ : a % 4096 = 0 := ha
  have ha₂ : a < 2147483648 := ha'
  have h1 : pgrounddown a = a := by
    unfold pgrounddown PGSIZE
    omega
  have h2 : pgrounddown ((a + PGSIZE + (2 ^ 32 - 1)) % 2 ^ 32) = a := by
    unfold pgrounddown PGSIZE
    omega
  have h3 : (a + 2 ^ 32 - a) % 2 ^ 32 / PGSIZE = 0 := by
    unfold PGSIZE
    omega
  unfold mappages
  rw [h1, h2]
  change mapFrom perm ((a + 2 ^ 32 - a) % 2 ^ 32 / PGSIZE) a pa = _
  rw [h3, mapFrom]

/-- `mappages` on one user page. -/
lemma wp_mappages_user (hS : VmSpec kend S) (ha : a % PGSIZE = 0) (ha' : a < KERNBASE)
    (hpa : pa % PGSIZE = 0) (hperm : perm < PGSIZE)
    (hremap : present (l.dir.pte a) → S.halts .remap)
    (hfail : S.Ctx l (pa ::ₘ o) → Q false l (pa ::ₘ o))
    (hok : ∀ l', Mapped l l' a (pteWord pa perm) → S.Ctx l' o → Q true l' o) :
    wp S (mappages a PGSIZE pa perm) Q l (pa ::ₘ o) := by
  rw [mappages_page ha ha']
  have hlt : a < 2 ^ 32 := by
    unfold KERNBASE at ha'
    omega
  exact wp_mapPage hS hlt (fun _ => ⟨hpa, hperm⟩) (by rw [if_pos (pdx_user ha')]) hremap hfail hok

/-! ### `deallocuvm` -/

/-- The entries and the user pages outside `[lo, hi)` are as before. -/
structure Keeps (l l' : Vm) (lo hi : ℕ) : Prop where
  page : l'.dir.page = l.dir.page
  pte : ∀ va < 2 ^ 32, ¬ (lo ≤ va ∧ va < hi) → l'.dir.pte va = l.dir.pte va
  mem : ∀ va < KERNBASE, ¬ (lo ≤ va ∧ va < hi) → present (l.dir.pte va) →
    l'.mem (pteAddr (l.dir.pte va)) = l.mem (pteAddr (l.dir.pte va))

lemma Keeps.refl (l : Vm) (lo hi : ℕ) : Keeps l l lo hi :=
  ⟨rfl, fun _ _ _ => rfl, fun _ _ _ _ => rfl⟩

lemma Keeps.mono (h : Keeps l l' lo hi) (h1 : lo' ≤ lo) (h2 : hi ≤ hi') :
    Keeps l l' lo' hi' where
  page := h.page
  pte va hva hout := h.pte va hva (by omega)
  mem va hva hout := h.mem va hva (by omega)

lemma Keeps.trans {l'' : Vm} (h : Keeps l l' lo hi) (h' : Keeps l' l'' lo hi) :
    Keeps l l'' lo hi where
  page := h'.page.trans h.page
  pte va hva hout := (h'.pte va hva hout).trans (h.pte va hva hout)
  mem va hva hout hp := by
    have hlt : va < 2 ^ 32 := by
      have : va < 2147483648 := hva
      omega
    have he := h.pte va hlt hout
    have := h'.mem va hva hout (by rwa [he])
    rw [he] at this
    rw [this, h.mem va hva hout hp]

/-- The pages of `[lo, hi)` are no longer mapped. -/
structure Cleared (l l' : Vm) (lo hi : ℕ) : Prop where
  keeps : Keeps l l' lo hi
  clear : ∀ va, lo ≤ va → va < hi → ¬ present (l'.dir.pte va)

lemma pgroundup_eq {sz : ℕ} (h : sz ≤ KERNBASE) : pgroundup sz = (sz + 4095) / 4096 * 4096 := by
  have : sz ≤ 2147483648 := h
  unfold pgroundup PGSIZE
  omega

lemma Cleared.refl_of_le (h : hi ≤ lo) : Cleared l l lo hi :=
  ⟨Keeps.refl l lo hi, fun va h1 h2 => by omega⟩

/-- The page at `a` is cleared, then the ones after it. -/
lemma Cleared.cons (ha : a % 4096 = 0) (hhi : hi ≤ KERNBASE) (h₁ : Mapped l l₁ a 0)
    (h₂ : Cleared l₁ l₂ (a + 4096) hi) (hlt : a + 4096 ≤ hi) :
    Cleared l l₂ a hi := by
  have hhi' : hi ≤ 2147483648 := hhi
  have hpage {va : ℕ} (hout : ¬ (a ≤ va ∧ va < a + 4096)) : va / 4096 ≠ a / 4096 := by omega
  refine ⟨⟨h₂.keeps.page.trans h₁.page, fun va hva hout => ?_, fun va hva hout hp => ?_⟩,
    fun va h1 h2 => ?_⟩
  · rw [h₂.keeps.pte va hva (by omega), h₁.other va hva (hpage (by omega))]
  · have hva' : va < 2147483648 := hva
    have he := h₁.other va (by omega) (hpage (by omega))
    have hmem := h₂.keeps.mem va hva (by omega) (by rwa [he])
    rw [he] at hmem
    rw [hmem, h₁.mem]
  · by_cases hva : va < a + 4096
    · rw [h₂.keeps.pte va (by omega) (by omega),
        pte_same_page (show va / 4096 = a / 4096 by omega), h₁.self]
      exact not_present_zero
    · exact h₂.clear va (by omega) h2

lemma wp_deallocFrom (hS : VmSpec kend S) (ha : a % 4096 = 0) (hold : oldsz ≤ KERNBASE)
    {Q : Unit → Vm → Multiset ℕ → Prop}
    (h : ∀ l', Cleared l l' a (pgroundup oldsz) → S.Ctx l' o → Q () l' o) :
    wp S (deallocFrom kend oldsz a) Q l o := by
  have hold' : oldsz ≤ 2147483648 := hold
  have hup := pgroundup_eq hold
  have hupk : pgroundup oldsz ≤ KERNBASE := by
    unfold KERNBASE
    omega
  -- the loop ends when `a` reaches `oldsz`
  induction hn : oldsz - a using Nat.strong_induction_on generalizing a l with
  | h n ih =>
  unfold deallocFrom
  split_ifs with hlt
  · have hk : a < KERNBASE := lt_of_lt_of_le hlt.1 hold
    have hnext : oldsz - (a + PGSIZE) < n := by
      unfold PGSIZE
      omega
    have hstep : a + 4096 ≤ pgroundup oldsz := by omega
    refine wp_bind (wp_walkpgdir fun _ => ?_)
    split_ifs with ht
    · refine wp_bind (wp_get fun hc => ?_)
      dsimp only
      split_ifs with hp hz
      · -- a page of address `0` would be outside the allocator
        have hv := hc.valid _ (Multiset.mem_add.mpr (Or.inl (by
          rw [hS.own]
          exact mem_pages hk hp)))
        have hlow := (hS.valid _ hv).2.1
        have hpos := hS.pos
        omega
      · have hpages := pages_setPte (w := 0) ht
        rw [if_pos (pdx_user hk), if_pos (pdx_user hk), ptePage, if_pos hp, ptePage,
          if_neg not_present_zero, add_zero] at hpages
        refine wp_bind (wp_kfree hS o rfl ?_ fun hc => ?_)
        · change pages (l.dir.setPte a 0) + _ = _
          rw [← hpages, add_assoc, Multiset.singleton_add]
        · refine ih _ hnext (by unfold PGSIZE; omega) (fun l' hl' => h l' ?_) rfl
          exact hl'.cons ha hupk (mapped_setPte hlt.2 ht) hstep
      · refine ih _ hnext (by unfold PGSIZE; omega) (fun l' hl' => h l' ?_) rfl
        refine ⟨hl'.keeps.mono (by unfold PGSIZE; omega) le_rfl, fun va h1 h2 => ?_⟩
        by_cases hva : va < a + 4096
        · rw [hl'.keeps.pte va (by omega) (by unfold PGSIZE; omega),
            pte_same_page (show va / 4096 = a / 4096 by omega)]
          exact hp
        · exact hl'.clear va (by unfold PGSIZE; omega) h2
    · -- no page table: the rest of its four megabytes is not mapped
      have hnone : l.dir.tab (pdx a) = none := by simpa using ht
      have hbound : a < (pdx a + 1) * 2 ^ 22 - PGSIZE + PGSIZE := by
        unfold PGSIZE pdx
        omega
      have halign : ((pdx a + 1) * 2 ^ 22 - PGSIZE + PGSIZE) % 4096 = 0 := by
        unfold PGSIZE pdx
        omega
      refine ih (oldsz - ((pdx a + 1) * 2 ^ 22 - PGSIZE + PGSIZE)) (by omega) halign
        (fun l' hl' => h l' ?_) rfl
      refine ⟨hl'.keeps.mono hbound.le le_rfl, fun va h1 h2 => ?_⟩
      by_cases hva : va < (pdx a + 1) * 2 ^ 22 - PGSIZE + PGSIZE
      · have hsame : pdx va = pdx a := by
          unfold pdx PGSIZE at *
          omega
        rw [hl'.keeps.pte va (by omega) (by omega), pte_of_tab_none (by rw [hsame, hnone])]
        exact not_present_zero
      · exact hl'.clear va (by omega) h2
  · refine wp_pure (h l (Cleared.refl_of_le ?_))
    omega

/-- **`deallocuvm`** unmaps the pages above the new size. -/
lemma wp_deallocuvm (hS : VmSpec kend S) (hold : oldsz ≤ KERNBASE) {Q : ℕ → Vm → Multiset ℕ → Prop}
    (hge : oldsz ≤ newsz → S.Ctx l o → Q oldsz l o)
    (hlt : newsz < oldsz → ∀ l', Cleared l l' (pgroundup newsz) (pgroundup oldsz) → S.Ctx l' o →
      Q newsz l' o) :
    wp S (deallocuvm kend oldsz newsz) Q l o := by
  unfold deallocuvm
  split_ifs with h
  · exact wp_pure (hge h)
  · have hsz : newsz < oldsz := by omega
    have hup := pgroundup_eq (hsz.le.trans hold)
    refine wp_bind (wp_deallocFrom hS (by omega) hold fun l' hl' hc => wp_pure (hlt hsz l' hl'))

/-! ### `allocuvm` -/

/-- The pages of `[lo, hi)` are new, with the permissions and contents given. -/
structure Filled (perm : ℕ → ℕ) (cont : ℕ → Page) (l l' : Vm) (lo hi : ℕ) : Prop where
  keeps : Keeps l l' lo hi
  fill : ∀ va, lo ≤ va → va < hi → ∃ pa, pa % PGSIZE = 0 ∧
    l'.dir.pte va = pteWord pa (perm va) ∧ l'.mem pa = cont va

/-- Writing to a page that is not owned. -/
lemma keeps_setMem (hfresh : pa ∉ pages l.dir) (c : Page) (lo hi : ℕ) :
    Keeps l (l.setMem pa c) lo hi where
  page := rfl
  pte _ _ _ := rfl
  mem va hva _ hp := by
    have hne : pteAddr (l.dir.pte va) ≠ pa := fun e => hfresh (e ▸ mem_pages hva hp)
    simp [Vm.setMem, hne]

lemma Mapped.keeps (h : Mapped l l' a w) (ha : a % 4096 = 0) :
    Keeps l l' a (a + 4096) where
  page := h.page
  pte va hva hout := h.other va hva (by omega)
  mem va _ _ _ := by rw [h.mem]

lemma Filled.refl_of_le {perm : ℕ → ℕ} (h : hi ≤ lo) : Filled perm cont l l lo hi :=
  ⟨Keeps.refl l lo hi, fun va h1 h2 => by omega⟩

/-- A new page is mapped at `a`, then the ones after it. -/
lemma Filled.cons {perm : ℕ → ℕ} {mem : ℕ} (ha : a % 4096 = 0) (hhi : hi ≤ KERNBASE)
    (hlt : a + 4096 ≤ hi) (hmem : mem ∉ pages l.dir) (hpa : mem % PGSIZE = 0)
    (hperm : perm a < PGSIZE)
    (hpg : ∀ va, va / 4096 = a / 4096 → perm va = perm a ∧ cont va = cont a)
    (h₂ : Mapped (l.setMem mem (cont a)) l₂ a (pteWord mem (perm a)))
    (h' : Filled perm cont l₂ l' (a + 4096) hi) : Filled perm cont l l' a hi := by
  have hhi' : hi ≤ 2147483648 := hhi
  have hk : a < KERNBASE := by
    unfold KERNBASE
    omega
  have hkeep : Keeps l l₂ a (a + 4096) := (keeps_setMem hmem _ _ _).trans (h₂.keeps ha)
  refine ⟨(hkeep.mono le_rfl hlt).trans (h'.keeps.mono (by omega) le_rfl), fun va h1 h2 => ?_⟩
  by_cases hva : va < a + 4096
  · -- the page just mapped is kept by the rest
    have hsame : va / 4096 = a / 4096 := by omega
    have hpte : l'.dir.pte va = pteWord mem (perm a) := by
      rw [h'.keeps.pte va (by omega) (by omega), pte_same_page hsame, h₂.self]
    have hcont := h'.keeps.mem a hk (by omega) (by rw [h₂.self]; exact pteWord_present _ _)
    rw [h₂.self, pteWord_addr hpa hperm, h₂.mem] at hcont
    rw [(hpg va hsame).1, (hpg va hsame).2]
    exact ⟨mem, hpa, hpte, by rw [hcont]; simp [Vm.setMem]⟩
  · exact h'.fill va (by omega) h2

/-- The new pages of `allocuvm` are zero. -/
abbrev Zeroed := Filled (fun _ => PTE_W ||| PTE_U) fun _ _ => 0

lemma wp_allocFrom (hS : VmSpec kend S) (ha : a % 4096 = 0) (hnew : newsz < KERNBASE)
    (hoa : pgroundup oldsz ≤ a) (hold : oldsz ≤ newsz)
    (hremap : S.halts .remap ∨ ∀ va, a ≤ va → va < pgroundup newsz → ¬ present (l.dir.pte va))
    {Q : ℕ → Vm → Multiset ℕ → Prop}
    (hok : ∀ l', Zeroed l l' a (pgroundup newsz) → S.Ctx l' o → Q newsz l' o)
    (hfail : ∀ l', Cleared l l' (pgroundup oldsz) (pgroundup newsz) → S.Ctx l' o → Q 0 l' o) :
    wp S (allocFrom kend oldsz newsz a) Q l o := by
  have hnew' : newsz < 2147483648 := hnew
  have hupo := pgroundup_eq (hold.trans hnew.le)
  have hupn := pgroundup_eq hnew.le
  have hupk : pgroundup newsz ≤ KERNBASE := by
    unfold KERNBASE
    omega
  induction hn : newsz - a using Nat.strong_induction_on generalizing a l with
  | h n ih =>
  unfold allocFrom
  split_ifs with hlt
  · have hk : a < KERNBASE := hlt.trans hnew
    have hstep : a + 4096 ≤ pgroundup newsz := by omega
    refine wp_bind (wp_new (fun _ => ?_) fun mem hv hfresh _ => ?_)
    · -- out of memory: what was mapped so far is unmapped
      refine wp_bind (wp_deallocuvm hS hnew.le (fun h => by omega) fun _ l' hl' _ => ?_)
      exact wp_pure (hfail l' hl')
    have hmem := hS.fresh hfresh
    have hpa : mem % PGSIZE = 0 := (hS.valid mem hv).1
    refine wp_bind (wp_setMem hS (Or.inr (by simp)) fun _ => ?_)
    refine wp_bind (wp_mappages_user hS ha hk hpa (by decide) (fun hp => ?_) (fun _ => ?_)
      fun l₂ hl₂ _ => ?_)
    · rcases hremap with hr | habs
      · exact hr
      · exact absurd hp (habs a le_rfl (by omega))
    · -- no page for a page table
      rw [if_neg Bool.false_ne_true]
      refine wp_bind (wp_deallocuvm hS hnew.le (fun h => by omega) fun _ l' hl' _ => ?_)
      refine wp_bind (wp_kfree hS o rfl rfl fun _ => wp_pure (hfail l' ⟨?_, hl'.clear⟩))
      exact (keeps_setMem hmem _ _ _).trans hl'.keeps
    · have hkeep : Keeps l l₂ a (a + 4096) := (keeps_setMem hmem _ _ _).trans (hl₂.keeps ha)
      rw [if_pos rfl]
      refine ih (newsz - (a + PGSIZE)) (by unfold PGSIZE; omega) (by unfold PGSIZE; omega)
        (by unfold PGSIZE; omega) ?_ (fun l' hl' => hok l' ?_)
        (fun l' hl' => hfail l' ⟨?_, hl'.clear⟩) rfl
      · refine hremap.imp_right fun habs va h1 h2 => ?_
        rw [hkeep.pte va (by omega) (by unfold PGSIZE at h1; omega)]
        exact habs va (by unfold PGSIZE at h1; omega) h2
      · exact Filled.cons ha hupk hstep hmem hpa (by decide) (fun _ _ => ⟨rfl, rfl⟩) hl₂ hl'
      · exact (hkeep.mono hoa hstep).trans hl'.keeps
  · exact wp_pure (hok l (Filled.refl_of_le (by omega)))

/-- **`allocuvm`** maps new zero pages up to the new size, or leaves none of them. -/
lemma wp_allocuvm (hS : VmSpec kend S)
    (hremap : S.halts .remap ∨ (newsz < KERNBASE → ∀ va, pgroundup oldsz ≤ va →
      va < pgroundup newsz → ¬ present (l.dir.pte va)))
    {Q : ℕ → Vm → Multiset ℕ → Prop} (hbig : KERNBASE ≤ newsz → S.Ctx l o → Q 0 l o)
    (hless : newsz < oldsz → newsz < KERNBASE → S.Ctx l o → Q oldsz l o)
    (hok : oldsz ≤ newsz → newsz < KERNBASE → ∀ l',
      Zeroed l l' (pgroundup oldsz) (pgroundup newsz) → S.Ctx l' o → Q newsz l' o)
    (hfail : oldsz ≤ newsz → newsz < KERNBASE → ∀ l',
      Cleared l l' (pgroundup oldsz) (pgroundup newsz) → S.Ctx l' o → Q 0 l' o) :
    wp S (allocuvm kend oldsz newsz) Q l o := by
  unfold allocuvm
  split_ifs with h1 h2
  · exact wp_pure (hbig h1)
  · exact wp_pure (hless h2 (by omega))
  · have hold : oldsz ≤ newsz := by omega
    have hnew : newsz < KERNBASE := by omega
    have hup := pgroundup_eq (hold.trans hnew.le)
    exact wp_allocFrom hS (by omega) hnew le_rfl hold (hremap.imp_right fun h => h hnew)
      (hok hold hnew) (hfail hold hnew)

/-! ### `freevm` -/

/-- Without user pages no page table maps any. -/
lemma tabUser_eq_zero {d : Dir} (h : ∀ va < KERNBASE, ¬ present (d.pte va)) {i : ℕ} (hi : i < 512) :
    tabUser d i = 0 := by
  rcases ht : d.tab i with _ | t
  · simp [tabUser, ht]
  simp only [tabUser, ht]
  refine Finset.sum_eq_zero fun j hj => ?_
  have hj' : j < 1024 := Finset.mem_range.mp hj
  have hd : pdx (i * 2 ^ 22 + j * 2 ^ 12) = i := by
    unfold pdx
    omega
  have hx : ptx (i * 2 ^ 22 + j * 2 ^ 12) = j := by
    unfold ptx
    omega
  have hp := h (i * 2 ^ 22 + j * 2 ^ 12) (by unfold KERNBASE; omega)
  rw [Dir.pte, hd, ht] at hp
  simp only [hx] at hp
  rw [ptePage, if_neg hp]

lemma wp_freeTabs (hS : VmSpec kend S) {is : List ℕ} (his : ∀ i ∈ is, i < 1024)
    (huser : ∀ i < 512, tabUser l.dir i = 0) {Q : Unit → Vm → Multiset ℕ → Prop}
    (h : ∀ l', l'.dir.page = l.dir.page → (∀ i ∈ is, l'.dir.tab i = none) →
      (∀ i, l.dir.tab i = none → l'.dir.tab i = none) → S.Ctx l' o → Q () l' o) :
    wp S (freeTabs kend is) Q l o := by
  induction is generalizing l with
  | nil => exact wp_pure (h l rfl (by simp) fun _ hi => hi)
  | cons i rest ih =>
    have hi := his i (by simp)
    unfold freeTabs
    refine wp_bind (wp_get fun hc => ?_)
    rcases ht : l.dir.tab i with _ | t
    · refine ih (fun j hj => his j (by simp [hj])) huser fun l' h1 h2 h3 => h l' h1 ?_ h3
      exact fun j hj => (List.mem_cons.mp hj).elim (fun e => by rw [e]; exact h3 i ht) (h2 j)
    · refine wp_bind (wp_kfree hS o rfl ?_ fun _ => ?_)
      · change pages (l.dir.setTab i none) + _ = _
        rw [pages_dropTab hi ht (huser i), Multiset.cons_add, Multiset.add_cons]
      · have hself : (l.setTab i none).dir.tab i = none := by simp [Vm.setTab, Dir.setTab]
        refine ih (fun j hj => his j (by simp [hj])) (fun j hj => ?_) fun l' h1 h2 h3 =>
          h l' h1 (fun j hj => ?_) fun j hj => h3 j ?_
        · by_cases hji : j = i
          · simp [tabUser, hji, hself]
          · exact (tabUser_setTab l.dir i none hji).trans (huser j hj)
        · exact (List.mem_cons.mp hj).elim (fun e => by rw [e]; exact h3 i hself) (h2 j)
        · by_cases hji : j = i
          · rw [hji, hself]
          · simpa [Vm.setTab, Dir.setTab, hji] using hj

/-- **`freevm`** gives back every page of the address space. -/
lemma wp_freevm (hS : VmSpec kend S) (hpage : l.dir.page.isSome) {Q : Unit → Vm → Multiset ℕ → Prop}
    (h : ∀ l', pages l'.dir = 0 → S.Ctx l' o → Q () l' o) : wp S (freevm kend) Q l o := by
  obtain ⟨pgdir, hpg⟩ := Option.isSome_iff_exists.mp hpage
  unfold freevm
  refine wp_bind (wp_get fun _ => ?_)
  rw [hpg]
  have hall {Q : ℕ → Vm → Multiset ℕ → Prop}
      (h : ∀ l', Cleared l l' (pgroundup 0) (pgroundup KERNBASE) → S.Ctx l' o → Q 0 l' o) :
      wp S (deallocuvm kend KERNBASE 0) Q l o :=
    wp_deallocuvm hS le_rfl (fun h0 => by unfold KERNBASE at h0; omega) fun _ => h
  refine wp_bind (hall fun l₁ hl₁ _ => ?_)
  have huser : ∀ i < 512, tabUser l₁.dir i = 0 := fun i hi => by
    have hup : pgroundup KERNBASE = KERNBASE := by
      rw [pgroundup_eq le_rfl]
      unfold KERNBASE
      omega
    refine tabUser_eq_zero (fun va hva => hl₁.clear va ?_ (hup ▸ hva)) hi
    rw [pgroundup_eq (Nat.zero_le _)]
    omega
  have hdir (i : ℕ) : i ∈ List.range NPDENTRIES ↔ i < 1024 := List.mem_range
  -- the goal must not be evaluated entry by entry
  generalize List.range NPDENTRIES = entries at hdir ⊢
  refine wp_bind (wp_freeTabs hS (fun i => (hdir i).mp) huser fun l₂ h1 h2 _ _ => ?_)
  have hpg₂ : l₂.dir.page = some pgdir := by rw [h1, hl₁.keeps.page, hpg]
  have hzero : ∀ i < 1024, l₂.dir.tab i = none := fun i hi => h2 i ((hdir i).mpr hi)
  have htab : ∑ i ∈ Finset.range 1024, tabPage l₂.dir i = 0 :=
    Finset.sum_eq_zero fun i hi => by simp [tabPage, hzero i (Finset.mem_range.mp hi)]
  have husr : ∑ i ∈ Finset.range 512, tabUser l₂.dir i = 0 :=
    Finset.sum_eq_zero fun i hi => by
      have := Finset.mem_range.mp hi
      simp [tabUser, hzero i (by omega)]
  have hnone : pages { l₂.dir with page := none } = 0 := by
    change 0 + ∑ i ∈ Finset.range 1024, tabPage l₂.dir i +
      ∑ i ∈ Finset.range 512, tabUser l₂.dir i = 0
    rw [htab, husr]
    rfl
  refine wp_kfree hS o rfl ?_ fun hc => h _ hnone hc
  change pages { l₂.dir with page := none } + _ = _
  rw [hnone, pages, htab, husr, dirPage, hpg₂]
  simp

/-! ### `setupkvm` -/

def Kmap.size (k : Kmap) : ℕ := (k.physEnd + 2 ^ 32 - k.physStart) % 2 ^ 32

/-- The row lies in the kernel half. -/
def Kmap.high (k : Kmap) : Prop :=
  KERNBASE ≤ k.virt ∧ 0 < (k.physEnd + 2 ^ 32 - k.physStart) % 2 ^ 32 ∧
    k.virt + (k.physEnd + 2 ^ 32 - k.physStart) % 2 ^ 32 ≤ 2 ^ 32

instance (k : Kmap) : Decidable k.high := inferInstanceAs (Decidable (_ ∧ _ ∧ _))

/-- The address is on a page that the row maps. -/
def Kmap.covers (k : Kmap) (va : ℕ) : Prop :=
  pgrounddown k.virt ≤ va ∧ va < pgrounddown (k.virt + k.size - 1) + 4096

/-- No page is mapped by both rows. -/
def Kmap.apart (k k' : Kmap) : Prop := ∀ va, k.covers va → ¬ k'.covers va

/-- The pages of the row are not for user programs. -/
def Kmap.supervisor (k : Kmap) : Prop :=
  k.physStart % PGSIZE = 0 ∧ k.perm < PGSIZE ∧ ¬ user k.perm

instance (k : Kmap) : Decidable k.supervisor := inferInstanceAs (Decidable (_ ∧ _ ∧ _))

/-- The pages of `[lo, hi)` have been mapped to those from `pa` on, if all went well, and no other
page. -/
structure RowMapped (b : Bool) (l l' : Vm) (lo hi pa perm : ℕ) : Prop where
  page : l'.dir.page = l.dir.page
  other : ∀ va < 2 ^ 32, ¬ (lo ≤ va ∧ va < hi) → l'.dir.pte va = l.dir.pte va
  row : b → ∀ va, lo ≤ va → va < hi → ∃ pa', (pa % PGSIZE = 0 → pa' % PGSIZE = 0) ∧
    (pa < 2 ^ 32 → pa' = (pa + (va - lo) / 4096 * 4096) % 2 ^ 32) ∧ l'.dir.pte va = pteWord pa' perm

lemma RowMapped.refl (l : Vm) (lo hi pa perm : ℕ) : RowMapped false l l lo hi pa perm :=
  ⟨rfl, fun _ _ _ => rfl, nofun⟩

lemma Mapped.row (h : Mapped l l' a (pteWord pa perm)) (ha : a % 4096 = 0) :
    RowMapped true l l' a (a + 4096) pa perm where
  page := h.page
  other va hva hout := h.other va hva (by omega)
  row _ va h1 h2 :=
    ⟨pa, id, by omega, by rw [pte_same_page (show va / 4096 = a / 4096 by omega), h.self]⟩

lemma RowMapped.trans {b : Bool} (hhi : lo + 4096 ≤ hi) (hhi' : hi ≤ 2 ^ 32)
    (h₁ : RowMapped true l l₁ lo (lo + 4096) pa perm)
    (h₂ : RowMapped b l₁ l₂ (lo + 4096) hi ((pa + PGSIZE) % 2 ^ 32) perm) :
    RowMapped b l l₂ lo hi pa perm where
  page := h₂.page.trans h₁.page
  other va hva hout := by rw [h₂.other va hva (by omega), h₁.other va hva (by omega)]
  row hb va h1 h2 := by
    by_cases hva : va < lo + 4096
    · rw [h₂.other va (by omega) (by omega)]
      exact h₁.row rfl va h1 hva
    · obtain ⟨q, hq, hpa, hpte⟩ := h₂.row hb va (by omega) h2
      unfold PGSIZE at *
      exact ⟨q, by omega, by omega, hpte⟩

/-- `mappages` above `KERNBASE`. It owns none of the pages it maps. -/
lemma wp_mapFrom_kernel (hS : VmSpec kend S) {n : ℕ} (hal : a % 4096 = 0) (ha : KERNBASE ≤ a)
    (ha' : a + n * 4096 < 2 ^ 32)
    (hremap : S.halts .remap ∨ ∀ va, a ≤ va → va < a + (n + 1) * 4096 → ¬ present (l.dir.pte va))
    (h : ∀ b l', RowMapped b l l' a (a + (n + 1) * 4096) pa perm → S.Ctx l' o → Q b l' o) :
    wp S (mapFrom perm n a pa) Q l o := by
  have hk : 2147483648 ≤ a := ha
  have hpage {l : Vm} {a pa : ℕ} {Q : Bool → Vm → Multiset ℕ → Prop} (hal : a % 4096 = 0)
      (hk : 2147483648 ≤ a) (ha : a < 2 ^ 32)
      (hremap : present (l.dir.pte a) → S.halts .remap) (hfail : S.Ctx l o → Q false l o)
      (hok : ∀ l', RowMapped true l l' a (a + 4096) pa perm → S.Ctx l' o → Q true l' o) :
      wp S (mapPage a pa perm) Q l o := by
    have hhigh : ¬ pdx a < 512 := not_lt.mpr (pdx_kernel hk ha)
    exact wp_mapPage hS ha (fun hu => absurd hu hhigh) (by rw [if_neg hhigh]) hremap hfail
      fun l' hl' => hok l' (hl'.row hal)
  induction n generalizing a pa l with
  | zero =>
    have hhi : a + (0 + 1) * 4096 = a + 4096 := by omega
    rw [hhi] at h hremap
    exact hpage hal hk (by omega) (fun hp => hremap.resolve_right fun habs =>
      habs a le_rfl (by omega) hp) (h false l (RowMapped.refl ..)) fun l' hl' => h true l' hl'
  | succ n ih =>
    rw [mapFrom]
    refine wp_bind (hpage hal hk (by omega) (fun hp => hremap.resolve_right fun habs =>
      habs a le_rfl (by omega) hp) (fun _ => wp_pure (h false l (RowMapped.refl ..)))
      fun l₁ hl₁ _ => ?_)
    have hnext : (a + PGSIZE) % 2 ^ 32 = a + 4096 := by
      unfold PGSIZE
      omega
    have hhi : a + 4096 + (n + 1) * 4096 = a + (n + 1 + 1) * 4096 := by omega
    rw [if_pos rfl, hnext]
    refine ih (by omega) (ha.trans (by omega)) (by omega)
      (hremap.imp_right fun habs va h1 h2 => ?_)
      (fun b l₂ hl₂ => h b l₂ (hl₁.trans (by omega) (by omega) ?_)) (by omega)
    · rw [hl₁.other va (by omega) (by omega)]
      exact habs va (by omega) (by omega)
    · rwa [hhi] at hl₂

lemma wp_mappages_kernel (hS : VmSpec kend S) (hk : k.high)
    (hremap : S.halts .remap ∨ ∀ va, k.covers va → ¬ present (l.dir.pte va))
    (h : ∀ b l', RowMapped b l l' (pgrounddown k.virt) (pgrounddown (k.virt + k.size - 1) + 4096)
      k.physStart k.perm → S.Ctx l' o → Q b l' o) :
    wp S (mappages k.virt ((k.physEnd + 2 ^ 32 - k.physStart) % 2 ^ 32) k.physStart k.perm) Q l
      o := by
  obtain ⟨h1, h2, h3⟩ := hk
  unfold Kmap.covers Kmap.size at *
  generalize (k.physEnd + 2 ^ 32 - k.physStart) % 2 ^ 32 = size at *
  have hv : 2147483648 ≤ k.virt := h1
  unfold mappages
  have hlast : (k.virt + size + (2 ^ 32 - 1)) % 2 ^ 32 = k.virt + size - 1 := by omega
  rw [hlast]
  have hhi : pgrounddown k.virt + ((pgrounddown (k.virt + size - 1) + 2 ^ 32 -
      pgrounddown k.virt) % 2 ^ 32 / PGSIZE + 1) * 4096 = pgrounddown (k.virt + size - 1) +
        4096 := by
    unfold pgrounddown PGSIZE
    omega
  refine wp_mapFrom_kernel hS ?_ ?_ ?_ ?_ ?_
  · unfold pgrounddown PGSIZE
    omega
  · unfold pgrounddown KERNBASE PGSIZE
    omega
  · unfold pgrounddown PGSIZE
    omega
  · rw [hhi]
    exact hremap.imp_right fun habs va h1 h2 => habs va ⟨h1, h2⟩
  · rw [hhi]
    exact h

/-- The directory of a new process: it maps no user page. -/
def Vm.Fresh (l : Vm) : Prop := l.dir.page.isSome ∧ ∀ va < KERNBASE, ¬ present (l.dir.pte va)

/-- The kernel half maps what is in the rows. -/
structure Rows (kmap : List Kmap) (l : Vm) : Prop where
  row : ∀ k ∈ kmap, ∀ va, k.covers va → present (l.dir.pte va)
  only : ∀ va, KERNBASE ≤ va → va < 2 ^ 32 → present (l.dir.pte va) →
    ∃ k ∈ kmap, k.covers va ∧ (k.supervisor → ¬ user (l.dir.pte va))
  map : kmap.Pairwise Kmap.apart → ∀ k ∈ kmap, k.physStart < 2 ^ 32 → ∀ va, k.covers va →
    l.dir.pte va =
      pteWord ((k.physStart + (va - pgrounddown k.virt) / 4096 * 4096) % 2 ^ 32) k.perm

lemma Kmap.high.bounds (hk : k.high) (hva : k.covers va) : KERNBASE ≤ va ∧ va < 2 ^ 32 := by
  obtain ⟨h1, h2, h3⟩ := hk
  obtain ⟨h4, h5⟩ := hva
  have hv : 2147483648 ≤ k.virt := h1
  unfold Kmap.size pgrounddown PGSIZE at *
  unfold KERNBASE
  omega

/-- One more row. -/
lemma Rows.append (hr : Rows kmap l) (hhigh : ∀ k ∈ kmap, k.high)
    (h : RowMapped true l l' (pgrounddown k.virt) (pgrounddown (k.virt + k.size - 1) + 4096)
      k.physStart k.perm) :
    Rows (kmap ++ [k]) l' where
  row k' hk' va hva := by
    by_cases hc : k.covers va
    · obtain ⟨pa, -, -, hpte⟩ := h.row rfl va hc.1 hc.2
      rw [hpte]
      exact pteWord_present _ _
    · have hk'' : k' ∈ kmap := (List.mem_append.mp hk').resolve_right fun hm =>
        hc (List.mem_singleton.mp hm ▸ hva)
      rw [h.other va ((hhigh k' hk'').bounds hva).2 hc]
      exact hr.row k' hk'' va hva
  only va h1 h2 hp := by
    by_cases hc : k.covers va
    · refine ⟨k, by simp, hc, fun ⟨hal, hperm, hu⟩ => ?_⟩
      obtain ⟨pa, hpa, -, hpte⟩ := h.row rfl va hc.1 hc.2
      rwa [hpte, user_pteWord (hpa hal) hperm]
    · rw [h.other va h2 hc] at hp ⊢
      obtain ⟨k', hk', hcov⟩ := hr.only va h1 h2 hp
      exact ⟨k', by simp [hk'], hcov⟩
  map hap k' hk' hlt va hva := by
    obtain ⟨hap', -, hne⟩ := List.pairwise_append.mp hap
    rcases List.mem_append.mp hk' with hk' | hk'
    · rw [h.other va ((hhigh k' hk').bounds hva).2 fun hc => hne k' hk' k (by simp) va hva hc]
      exact hr.map hap' k' hk' hlt va hva
    · obtain rfl := List.mem_singleton.mp hk'
      obtain ⟨pa, -, hpa, hpte⟩ := h.row rfl va hva.1 hva.2
      rw [hpte, hpa hlt]

lemma wp_mapKernel (hS : VmSpec kend S) {done : List Kmap} (hk : ∀ k ∈ done ++ kmap, k.high)
    (hremap : S.halts .remap ∨ (done ++ kmap).Pairwise Kmap.apart) (hl : l.Fresh)
    (hrows : Rows done l) (hok : ∀ l', l'.Fresh → Rows (done ++ kmap) l' → S.Ctx l' o → Q true l' o)
    (hfail : ∀ l', pages l'.dir = 0 → S.Ctx l' o → Q false l' o) :
    wp S (mapKernel kend kmap) Q l o := by
  induction kmap generalizing l done with
  | nil => exact wp_pure (hok l hl (by rwa [List.append_nil]))
  | cons k rest ih =>
    have hkh : k.high := hk k (by simp)
    have hdone : ∀ k ∈ done, k.high := fun k hk' => hk k (by simp [hk'])
    rw [mapKernel]
    refine wp_bind (wp_mappages_kernel hS hkh (hremap.imp_right fun hpw va hva hp => ?_)
      fun b l₁ hl₁ _ => ?_)
    · -- a page that is mapped is one of an earlier row
      obtain ⟨h1, h2⟩ := hkh.bounds hva
      obtain ⟨k', hk', hc, -⟩ := hrows.only va h1 h2 hp
      exact (List.pairwise_append.mp hpw).2.2 k' hk' k (by simp) va hc hva
    have hl₁' : l₁.Fresh := ⟨hl₁.page ▸ hl.1, fun va hva => by
      have hva' : va < 2147483648 := hva
      rw [hl₁.other va (by omega) fun hc => absurd (hkh.bounds hc).1 (not_le.mpr hva)]
      exact hl.2 va hva⟩
    cases b
    · rw [if_neg Bool.false_ne_true]
      exact wp_bind (wp_freevm hS hl₁'.1 fun l₂ hl₂ _ => wp_pure (hfail l₂ hl₂))
    · rw [if_pos rfl]
      have happ : done ++ [k] ++ rest = done ++ k :: rest := by simp
      exact ih (by rwa [happ]) (by rwa [happ]) hl₁' (hrows.append hdone hl₁) (by rwa [happ])

/-- **`setupkvm`** makes a directory with the kernel's rows and without user pages, or none. -/
lemma wp_setupkvm (hS : VmSpec kend S) (hk : ∀ k ∈ kmap, k.high)
    (hremap : S.halts .remap ∨ kmap.Pairwise Kmap.apart) (hl : pages l.dir = 0)
    (hok : ∀ l', l'.Fresh → Rows kmap l' → S.Ctx l' o → Q true l' o)
    (hfail : ∀ l', pages l'.dir = 0 → S.Ctx l' o → Q false l' o) :
    wp S (setupkvm kend kmap) Q l o := by
  unfold setupkvm
  refine wp_bind (wp_new (fun _ => wp_pure (hfail l hl)) fun pgdir _ _ _ => ?_)
  refine wp_bind (wp_set hS o rfl ?_ fun _ => ?_)
  · rw [hl, pages_dir, Multiset.singleton_add, zero_add]
  · have hspace : ¬ KERNBASE + PHYSTOP > DEVSPACE := by
      unfold KERNBASE PHYSTOP DEVSPACE
      omega
    have hnone (va : ℕ) : ¬ present (Dir.pte ⟨some pgdir, fun _ => none⟩ va) := by
      rw [pte_of_tab_none rfl]
      exact not_present_zero
    rw [if_neg hspace]
    have hrows : Rows [] ⟨⟨some pgdir, fun _ => none⟩, l.mem⟩ :=
      ⟨by simp, fun va _ _ hp => absurd hp (hnone va), by simp⟩
    refine wp_mapKernel hS ?_ ?_ ⟨rfl, fun va _ => hnone va⟩ hrows hok hfail
    · exact hk
    · exact hremap

/-! ### `kmap` -/

def EXTMEM : ℕ := 0x100000
def PCI_BAR_BASE : ℕ := 0x80000000
def PCI_VP_OFFSET : ℕ := 0x40000000

/-- `kmap`, with the address `data` of the linker and a frame buffer of `vram` bytes at `pvram`. -/
def kmapRows (data vram pvram : ℕ) : List Kmap :=
  [⟨KERNBASE, 0, EXTMEM, PTE_W⟩,
   ⟨KERNBASE + EXTMEM, EXTMEM, data - KERNBASE, 0⟩,
   ⟨data, data - KERNBASE, PHYSTOP, PTE_W⟩,
   ⟨DEVSPACE - vram, pvram, pvram + vram, PTE_W⟩,
   ⟨PCI_BAR_BASE + PCI_VP_OFFSET, PCI_BAR_BASE, 0x10000000 + PCI_BAR_BASE, PTE_W⟩,
   ⟨DEVSPACE, DEVSPACE, 0, PTE_W⟩]

/-- The row lies in the pages of `[lo, hi)`. -/
structure Kmap.Within (k : Kmap) (lo hi : ℕ) : Prop where
  pos : 0 < k.size
  low : lo ≤ k.virt
  top : k.virt + k.size ≤ hi
  pages : lo % 4096 = 0 ∧ hi % 4096 = 0

lemma Kmap.within {virt start stop : ℕ} (n : ℕ) (hn : (stop + 2 ^ 32 - start) % 2 ^ 32 = n)
    (hpos : 0 < n) (hlo : lo ≤ virt) (hhi : virt + n ≤ hi) (hp : lo % 4096 = 0 ∧ hi % 4096 = 0) :
    Kmap.Within ⟨virt, start, stop, perm⟩ lo hi := by
  subst hn
  exact ⟨hpos, hlo, hhi, hp⟩

lemma Kmap.Within.covers (h : k.Within lo hi) (hc : k.covers va) : lo ≤ va ∧ va < hi := by
  obtain ⟨h1, h2, h3, h4, h5⟩ := h
  obtain ⟨h6, h7⟩ := hc
  unfold pgrounddown PGSIZE at h6 h7
  omega

lemma Kmap.Within.ok (h : k.Within lo hi) (hlo : KERNBASE ≤ lo) (hhi : hi ≤ 2 ^ 32)
    (hp : k.physStart % 4096 = 0) (hperm : k.perm = PTE_W ∨ k.perm = 0) :
    k.high ∧ k.supervisor := by
  refine ⟨⟨hlo.trans h.low, h.pos, h.top.trans hhi⟩, hp, ?_⟩
  rcases hperm with he | he
  · rw [he]
    decide
  · rw [he]
    decide

lemma Kmap.Within.apart {k' : Kmap} (h : k.Within lo hi) (h' : k'.Within lo' hi')
    (hd : hi ≤ lo' ∨ hi' ≤ lo) : k.apart k' := fun va h1 h2 => by
  have := h.covers h1
  have := h'.covers h2
  omega

/-- The rows are as the specifications ask for, if the frame buffer does not reach down to the
devices of the PCI bus. -/
lemma kmapRows_ok {data vram pvram : ℕ} (hdata : data % 4096 = 0) (hlo : KERNBASE + EXTMEM < data)
    (hhi : data < KERNBASE + PHYSTOP) (hv0 : 0 < vram) (hv1 : vram ≤ 0x2E000000)
    (hp : pvram % 4096 = 0) :
    (∀ k ∈ kmapRows data vram pvram, k.high ∧ k.supervisor) ∧
      (kmapRows data vram pvram).Pairwise Kmap.apart := by
  have hlo' : 0x80100000 < data := hlo
  have hhi' : data < 0xA0000000 := hhi
  have w0 : Kmap.Within ⟨0x80000000, 0, 0x100000, PTE_W⟩ 0x80000000 0x80100000 :=
    Kmap.within 0x100000 (by omega) (by omega) (by omega) (by omega) (by omega)
  have w1 : Kmap.Within ⟨0x80100000, 0x100000, data - 0x80000000, 0⟩ 0x80100000 data :=
    Kmap.within (data - 0x80100000) (by omega) (by omega) (by omega) (by omega) (by omega)
  have w2 : Kmap.Within ⟨data, data - 0x80000000, 0x20000000, PTE_W⟩ data 0xA0000000 :=
    Kmap.within (0xA0000000 - data) (by omega) (by omega) (by omega) (by omega) (by omega)
  have w3 : Kmap.Within ⟨0xFE000000 - vram, pvram, pvram + vram, PTE_W⟩ 0xD0000000 0xFE000000 :=
    Kmap.within vram (by omega) (by omega) (by omega) (by omega) (by omega)
  have w4 : Kmap.Within ⟨0xC0000000, 0x80000000, 0x90000000, PTE_W⟩ 0xC0000000 0xD0000000 :=
    Kmap.within 0x10000000 (by omega) (by omega) (by omega) (by omega) (by omega)
  have w5 : Kmap.Within ⟨0xFE000000, 0xFE000000, 0, PTE_W⟩ 0xFE000000 (2 ^ 32) :=
    Kmap.within 0x2000000 (by omega) (by omega) (by omega) (by omega) (by omega)
  have hrows : kmapRows data vram pvram =
      [⟨0x80000000, 0, 0x100000, PTE_W⟩, ⟨0x80100000, 0x100000, data - 0x80000000, 0⟩,
        ⟨data, data - 0x80000000, 0x20000000, PTE_W⟩,
        ⟨0xFE000000 - vram, pvram, pvram + vram, PTE_W⟩,
        ⟨0xC0000000, 0x80000000, 0x90000000, PTE_W⟩, ⟨0xFE000000, 0xFE000000, 0, PTE_W⟩] := rfl
  rw [hrows]
  refine ⟨?_, ?_⟩
  · simp only [List.forall_mem_cons, List.not_mem_nil, false_implies, implies_true, and_true]
    refine ⟨w0.ok ?_ ?_ ?_ (.inl rfl), w1.ok ?_ ?_ ?_ (.inr rfl), w2.ok ?_ ?_ ?_ (.inl rfl),
      w3.ok ?_ ?_ ?_ (.inl rfl), w4.ok ?_ ?_ ?_ (.inl rfl), w5.ok ?_ ?_ ?_ (.inl rfl)⟩ <;>
      (try unfold KERNBASE) <;> (try dsimp only) <;> omega
  · simp only [List.pairwise_cons, List.forall_mem_cons, List.not_mem_nil, false_implies,
      implies_true, and_true, List.Pairwise.nil]
    refine ⟨⟨w0.apart w1 ?_, w0.apart w2 ?_, w0.apart w3 ?_, w0.apart w4 ?_, w0.apart w5 ?_⟩,
      ⟨w1.apart w2 ?_, w1.apart w3 ?_, w1.apart w4 ?_, w1.apart w5 ?_⟩,
      ⟨w2.apart w3 ?_, w2.apart w4 ?_, w2.apart w5 ?_⟩, ⟨w3.apart w4 ?_, w3.apart w5 ?_⟩,
      w4.apart w5 ?_⟩ <;> omega

end Xv6.PageTable
