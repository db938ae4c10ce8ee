import Xv6.VmSpec

/-!
User memory as the hardware and `copyout` see it: bytes at virtual addresses, reached through the
page tables.
-/

namespace Xv6.PageTable

open Xv6.Lib.Own
open Function (update update_of_ne update_self update_eq_self update_apply update_idem)

/-- The byte at a user address. -/
def byte (l : Vm) (va : ℕ) : UInt8 := l.mem (pteAddr (l.dir.pte va)) (va % PGSIZE)

section Byte

variable {l l' : Vm} {lo hi va : ℕ}

lemma keeps_byte (h : Keeps l l' lo hi) (hva : va < KERNBASE) (hout : ¬ (lo ≤ va ∧ va < hi))
    (hp : present (l.dir.pte va)) : l'.dir.pte va = l.dir.pte va ∧ byte l' va = byte l va := by
  have hva' : va < 2147483648 := hva
  have hpte := h.pte va (by omega) hout
  refine ⟨hpte, ?_⟩
  rw [byte, byte, hpte, h.mem va hva hout hp]

lemma pgroundup_le {sz : ℕ} (h : sz < KERNBASE) : pgroundup sz ≤ KERNBASE := by
  have h' : sz < 2147483648 := h
  rw [pgroundup_eq h.le]
  unfold KERNBASE
  omega

/-- No two user pages are the same physical page. -/
lemma pteAddr_inj {d : Dir} (hn : (pages d).Nodup) {va va' : ℕ} (h : va < KERNBASE)
    (h' : va' < KERNBASE) (hp : present (d.pte va)) (hp' : present (d.pte va'))
    (he : pteAddr (d.pte va) = pteAddr (d.pte va')) : va / 4096 = va' / 4096 := by
  by_contra hne
  have hlt : va < 2147483648 := h
  have hlt' : va' < 2147483648 := h'
  have ht : (d.tab (pdx va)).isSome := by
    rcases htab : d.tab (pdx va) with _ | t
    · rw [pte_of_tab_none htab] at hp
      exact absurd hp not_present_zero
    · rfl
  -- without the entry for `va` the page is still mapped by the other one
  have hpages := pages_setPte (w := 0) ht
  rw [if_pos (pdx_user h), if_pos (pdx_user h), ptePage, if_pos hp, ptePage,
    if_neg not_present_zero, add_zero] at hpages
  have hother : (d.setPte va 0).pte va' = d.pte va' :=
    pte_setPte_ne (by omega) (by omega) (fun e => hne e.symm) 0
  have hin : pteAddr (d.pte va) ∈ pages (d.setPte va 0) := by
    rw [he, ← hother]
    exact mem_pages h' (by rwa [hother])
  rw [← hpages, Multiset.nodup_add] at hn
  exact Multiset.disjoint_left.mp hn.2.2 hin (Multiset.mem_singleton_self _)

end Byte

/-! ### Stores -/

/-- User programs may use the page. -/
def accessible (d : Dir) (va : ℕ) : Prop := present (d.pte va) ∧ user (d.pte va)

instance (d : Dir) (va : ℕ) : Decidable (accessible d va) := inferInstanceAs (Decidable (_ ∧ _))

/-- One byte is written at `va`. -/
def poke (d : Dir) (va : ℕ) (b : UInt8) (mem : ℕ → Page) : ℕ → Page :=
  update mem (pteAddr (d.pte va))
    (update (mem (pteAddr (d.pte va))) (va % PGSIZE) b)

/-- The bytes are written one after the other from `va` on. -/
def pokes (d : Dir) : ℕ → List UInt8 → (ℕ → Page) → ℕ → Page
  | _, [], mem => mem
  | va, b :: p, mem => pokes d ((va + 1) % 2 ^ 32) p (poke d va b mem)

section Pokes

variable {d : Dir} {va : ℕ}

lemma pokes_append (hva : va < 2 ^ 32) (p q : List UInt8) (mem : ℕ → Page) :
    pokes d va (p ++ q) mem = pokes d ((va + p.length) % 2 ^ 32) q (pokes d va p mem) := by
  induction p generalizing va mem with
  | nil => rw [List.nil_append, List.length_nil, add_zero, Nat.mod_eq_of_lt hva, pokes]
  | cons b p ih =>
    rw [List.cons_append, pokes, ih (Nat.mod_lt _ (by decide)), pokes, List.length_cons]
    congr 1
    omega

/-- On one page the bytes are written as `memmove` writes them. -/
lemma pokes_page (hva : va < 2 ^ 32) (p : List UInt8) (mem : ℕ → Page)
    (hp : va % 4096 + p.length ≤ 4096) : pokes d va p mem =
      update mem (pteAddr (d.pte va)) (blit (mem (pteAddr (d.pte va))) (va % 4096) p) := by
  induction p generalizing va mem with
  | nil =>
    have hblit (c : Page) (off : ℕ) : blit c off [] = c := by
      funext i
      rw [blit, if_neg (by simp)]
    rw [pokes, hblit, update_eq_self]
  | cons b p ih =>
    rw [List.length_cons] at hp
    rw [pokes]
    rcases p.eq_nil_or_concat with rfl | hne
    · rw [pokes, poke]
      congr 1
      funext i
      rw [blit, update_apply]
      simp only [List.length_singleton]
      split_ifs with h1 h2 h2
      · have hi : i - va % 4096 = 0 := by unfold PGSIZE at h1; omega
        rw [hi]
        rfl
      · unfold PGSIZE at h1
        omega
      · unfold PGSIZE at h1
        omega
      · rfl
    · have hpos : 0 < p.length := by
        obtain ⟨init, last, rfl⟩ := hne
        simp
      have hnext : (va + 1) % 2 ^ 32 = va + 1 := by omega
      have hoff : (va + 1) % 4096 = va % 4096 + 1 := by omega
      have hpg : d.pte (va + 1) = d.pte va := pte_same_page (by omega)
      rw [hnext, ih (by omega) _ (by omega), hpg, hoff, poke, update_idem]
      congr 1
      funext i
      rw [update_self, blit, blit, update_apply, List.length_cons]
      unfold PGSIZE
      split_ifs with h1 h2 h2 h3 h3
      · have hi : i - va % 4096 = i - (va % 4096 + 1) + 1 := by omega
        rw [hi, List.getD_cons_succ]
      · omega
      · rw [h2, Nat.sub_self, List.getD_cons_zero]
      · omega
      · omega
      · rfl

end Pokes

/-- The bytes from `va` on. -/
def peek (l : Vm) (va n : ℕ) : List UInt8 := (List.range n).map fun k => byte l (va + k)

section Peek

variable {l l' : Vm} {va n : ℕ}

lemma peek_congr (h : ∀ v, va ≤ v → v < va + n → byte l' v = byte l v) :
    peek l' va n = peek l va n :=
  List.map_congr_left fun k hk => h _ (by omega) (by rw [List.mem_range] at hk; omega)

lemma peek_eq {p : List UInt8} (h : ∀ v, va ≤ v → v < va + p.length →
    byte l v = p.getD (v - va) 0) : peek l va p.length = p := by
  unfold peek
  refine List.ext_getElem (by simp) fun k _ hk' => ?_
  rw [List.getElem_map, List.getElem_range, h _ (by omega) (by omega), Nat.add_sub_cancel_left]
  simp [hk']

/-- A byte written through one page is seen there and nowhere else. -/
lemma byte_poke_apply (hn : (pages l.dir).Nodup) {v : ℕ} (hva : va < KERNBASE) (hv : v < KERNBASE)
    (hp : present (l.dir.pte va)) (hp' : present (l.dir.pte v)) (b : UInt8) :
    byte { l with mem := poke l.dir va b l.mem } v = if v = va then b else byte l v := by
  unfold byte poke
  dsimp only
  by_cases hpage : pteAddr (l.dir.pte v) = pteAddr (l.dir.pte va)
  · have hdiv := pteAddr_inj hn hv hva hp' hp hpage
    rw [hpage, update_self, update_apply]
    unfold PGSIZE
    split_ifs <;> first | rfl | omega
  · have hne : v ≠ va := fun e => hpage (by rw [e])
    rw [update_of_ne hpage, if_neg hne]

/-- The same of several bytes. -/
lemma byte_pokes_apply (hn : (pages l.dir).Nodup) {v : ℕ} (va : ℕ) (p : List UInt8)
    (hva : va + p.length ≤ KERNBASE) (hp : ∀ k < p.length, present (l.dir.pte (va + k)))
    (hv : v < KERNBASE) (hp' : present (l.dir.pte v)) :
    byte { l with mem := pokes l.dir va p l.mem } v =
      if va ≤ v ∧ v < va + p.length then p.getD (v - va) 0 else byte l v := by
  induction p generalizing va l with
  | nil => rw [if_neg (by simp)]; rfl
  | cons b p ih =>
    rw [List.length_cons] at hva hp ⊢
    have hva' : va + (p.length + 1) ≤ 2147483648 := hva
    have hnext : (va + 1) % 2 ^ 32 = va + 1 := Nat.mod_eq_of_lt (by omega)
    have hrest := @ih { l with mem := poke l.dir va b l.mem } hn (va + 1) (by omega)
      (fun k hk => by rw [add_assoc, add_comm 1]; exact hp (k + 1) (by omega)) hp'
    rw [pokes, hnext]
    refine hrest.trans ?_
    have h0 : present (l.dir.pte va) := hp 0 (by omega)
    rw [byte_poke_apply hn (by omega) hv h0 hp' b]
    rcases lt_trichotomy v va with hlt | rfl | hgt
    · rw [if_neg (by omega), if_neg (by omega), if_neg (by omega)]
    · rw [if_neg (by omega), if_pos rfl, if_pos (by omega), Nat.sub_self]
      rfl
    · rw [if_neg (show v ≠ va by omega)]
      by_cases hin : v < va + (p.length + 1)
      · rw [if_pos (by omega), if_pos (by omega), show v - va = v - (va + 1) + 1 by omega,
          List.getD_cons_succ]
      · rw [if_neg (by omega), if_neg (by omega)]

end Peek

/-- `copyout` stops after `n` bytes: it can write them, but not the next one. -/
structure CopiedOut (d : Dir) (va : ℕ) (p : List UInt8) (n : ℕ) : Prop where
  le : n ≤ p.length
  acc : ∀ k < n, accessible d ((va + k) % 2 ^ 32)
  stop : n < p.length → ¬ accessible d ((va + n) % 2 ^ 32)

section CopyOut

variable {d : Dir} {va : ℕ} {p : List UInt8}

lemma accessible_same_page {va' : ℕ} (h : va / 4096 = va' / 4096) :
    accessible d va ↔ accessible d va' := by rw [accessible, accessible, pte_same_page h]

lemma pgrounddown_page (va : ℕ) : pgrounddown va / 4096 = va / 4096 := by
  unfold pgrounddown PGSIZE
  omega

lemma CopiedOut.nil : CopiedOut d va [] 0 := ⟨le_rfl, by simp, by simp⟩

/-- The first page cannot be written. -/
lemma CopiedOut.none (hva : va < 2 ^ 32) (h : ¬ accessible d (pgrounddown va)) :
    CopiedOut d va p 0 := by
  refine ⟨Nat.zero_le _, by simp, fun _ => ?_⟩
  rwa [add_zero, Nat.mod_eq_of_lt hva, ← accessible_same_page (pgrounddown_page va)]

/-- What one turn of the loop of `copyout` takes. -/
def chunk (va : ℕ) (p : List UInt8) : ℕ := min (PGSIZE - (va - pgrounddown va)) p.length

lemma chunk_le : chunk va p ≤ p.length := min_le_right _ _

/-- A turn of the loop of `copyout` copies something. -/
lemma drop_chunk_lt (hp : p ≠ []) : (p.drop (chunk va p)).length < p.length := by
  have hpos : 0 < p.length := List.length_pos_iff.mpr hp
  have hchunk : 0 < chunk va p := by
    unfold chunk pgrounddown PGSIZE
    omega
  rw [List.length_drop]
  omega

lemma chunk_page (hva : va < 2 ^ 32) {k : ℕ} (hk : k < chunk va p) :
    (va + k) % 2 ^ 32 / 4096 = va / 4096 := by
  unfold chunk pgrounddown PGSIZE at hk
  omega

/-- Where the next turn starts, if there is one. -/
lemma chunk_next {k : ℕ} (hk : chunk va p < p.length) :
    ((pgrounddown va + PGSIZE) % 2 ^ 32 + k) % 2 ^ 32 = (va + (chunk va p + k)) % 2 ^ 32 := by
  unfold chunk pgrounddown PGSIZE at *
  omega

lemma pgrounddown_next_lt (va : ℕ) : (pgrounddown va + PGSIZE) % 2 ^ 32 < 2 ^ 32 :=
  Nat.mod_lt _ (by decide)

/-- One page is written, then the rest. -/
lemma CopiedOut.cons {n : ℕ} (hva : va < 2 ^ 32) (h : accessible d (pgrounddown va))
    (hn : CopiedOut d ((pgrounddown va + PGSIZE) % 2 ^ 32) (p.drop (chunk va p)) n) :
    CopiedOut d va p (chunk va p + n) := by
  have hle : chunk va p ≤ p.length := chunk_le
  have hlen := hn.le
  rw [List.length_drop] at hlen
  refine ⟨by omega, fun k hk => ?_, fun hlt => ?_⟩
  · by_cases hkc : k < chunk va p
    · rwa [accessible_same_page (chunk_page hva hkc), ← accessible_same_page (pgrounddown_page va)]
    · have hacc := hn.acc (k - chunk va p) (by omega)
      rwa [chunk_next (p := p) (by omega), Nat.add_sub_cancel' (not_lt.mp hkc)] at hacc
  · have hstop := hn.stop (by rw [List.length_drop]; omega)
    rwa [chunk_next (p := p) (by omega)] at hstop

/-- The bytes of one page and then the rest. -/
lemma pokes_cons {n : ℕ} (hva : va < 2 ^ 32) (mem : ℕ → Page) :
    pokes d ((pgrounddown va + PGSIZE) % 2 ^ 32) ((p.drop (chunk va p)).take n)
        (update mem (pteAddr (d.pte (pgrounddown va)))
          (blit (mem (pteAddr (d.pte (pgrounddown va)))) (va - pgrounddown va)
            (p.take (chunk va p)))) = pokes d va (p.take (chunk va p + n)) mem := by
  have hle : chunk va p ≤ p.length := chunk_le
  have hlen : (p.take (chunk va p)).length = chunk va p := by
    rw [List.length_take]
    omega
  have hpte : d.pte (pgrounddown va) = d.pte va := pte_same_page (pgrounddown_page va)
  have hoff : va - pgrounddown va = va % 4096 := by
    unfold pgrounddown PGSIZE
    omega
  have hroom : va % 4096 + chunk va p ≤ 4096 := by
    unfold chunk pgrounddown PGSIZE
    omega
  rw [List.take_add, pokes_append hva, hlen, hpte, hoff, ← pokes_page hva _ _ (by rwa [hlen])]
  rcases Nat.lt_or_ge (chunk va p) p.length with hlt | hge
  · have hnext := chunk_next hlt (k := 0)
    rw [add_zero, add_zero, Nat.mod_mod] at hnext
    rw [hnext]
  · simp only [List.drop_eq_nil_of_le hge, List.take_nil, pokes]

end CopyOut

end Xv6.PageTable
