import Xv6.Paths

/-!
Which blocks the functions on blocks pass to `log_write`, on a disk whose bitmap is one block: the
bitmap, the blocks of inodes, those that are written, and the indirect block that leads to them.
-/

namespace Xv6.LogBlocks

open Xv6.Fs Xv6.FileData Xv6.Dirents Xv6.Paths Xv6.Lib.Wp

/-- What is logged on the way from `s` to `s'` is in `A`. -/
def Logs (A : Set ℕ) (s s' : Blk) : Prop := ∀ b ∈ s'.logged, b ∈ s.logged ∨ b ∈ A

/-- How a function stops does not matter here. -/
def Any (_ : Stop) : Prop := True

section Logs

variable {A B : Set ℕ} {s t s' : Blk} {b : ℕ}

lemma Logs.refl (A : Set ℕ) (s : Blk) : Logs A s s := fun _ => .inl

lemma Logs.trans (h : Logs A s t) (h' : Logs B t s') : Logs (A ∪ B) s s' := by
  intro b hb
  rcases h' b hb with hb | hb
  · exact (h b hb).imp_right .inl
  · exact .inr (.inr hb)

lemma Logs.mono (h : Logs A s s') (hAB : A ⊆ B) : Logs B s s' :=
  fun b hb => (h b hb).imp_right (@hAB b)

lemma Logs.step (h : Logs A s t) (h' : Logs A t s') : Logs A s s' := by
  have := h.trans h'
  rwa [Set.union_self] at this

/-- One more block is logged. -/
lemma Logs.log (h : Logs A s s') (hb : b ∈ A) : Logs A s (s'.log b) := by
  intro c hc
  rcases List.mem_cons.mp hc with rfl | hc
  · exact .inr hb
  · exact h c hc

/-- What is not logged does not count. -/
lemma Logs.of_eq (h : s'.logged = s.logged) : Logs A s s' := fun _ hb => .inl (h ▸ hb)

end Logs

section Blocks

variable {s s' : Blk} {ip k bn b addr off : ℕ} {Q : Unit → Blk → Prop}

/-! ### Allocating blocks -/

lemma bblock_eq (hb : b < BPB) (sb : Super) : BBLOCK b sb = sb.bmapstart := by
  unfold BBLOCK
  rw [Nat.div_eq_of_lt hb, Nat.zero_add]

lemma balloc_logs (hsize : s.sb.size ≤ BPB) :
    wp balloc (fun b s' => Logs {s.sb.bmapstart, b} s s') Any s := by
  have hbb : BBLOCK 0 s.sb = s.sb.bmapstart := bblock_eq (by decide) s.sb
  refine wp_bind (wp_get ?_)
  rw [ballocFrom, hbb]
  refine wp_ite (fun _ => ?_) fun _ => wp_throw trivial
  refine wp_bind (wp_bread trivial fun _ => wp_bind (wp_get ?_))
  split
  · refine wp_bind (wp_modify (wp_bind (wp_modify (wp_bind (wp_brelse rfl (wp_bind ?_))))))
    refine wp_bzero trivial (wp_pure ?_)
    refine Logs.log (Logs.log (.of_eq ?_) (.inl rfl)) (.inr rfl)
    rfl
  · -- there is no other block of the bitmap
    refine wp_bind (wp_brelse rfl ?_)
    rw [ballocFrom]
    exact wp_ite (fun h => absurd h (by omega)) fun _ => wp_throw trivial

lemma bmapAddr_logs (hsize : s.sb.size ≤ BPB) (ip k : ℕ) :
    wp (bmapAddr ip k) (fun a s' => Logs {s.sb.bmapstart, a} s s') Any s := by
  refine wp_bind (wp_get (wp_ite (fun _ => ?_) fun _ => wp_pure (.refl _ s)))
  exact wp_bind (wp_mono (balloc_logs hsize) (fun b t ht => wp_bind (wp_modify (wp_pure ht)))
    fun _ => id)

lemma bmapEntry_logs (hsize : s.sb.size ≤ BPB) (addr k : ℕ) :
    wp (bmapEntry addr k) (fun a s' => Logs {s.sb.bmapstart, a, addr} s s') Any s := by
  refine wp_bind (wp_get (wp_ite (fun _ => ?_) fun _ => wp_pure (.refl _ s)))
  refine wp_bind (wp_mono (balloc_logs hsize) (fun b t ht => ?_) fun _ => id)
  refine wp_bind (wp_modify (wp_bind (wp_modify (wp_pure ?_))))
  refine Logs.log (fun c hc => (ht c hc).imp_right ?_) (.inr (.inr rfl))
  rintro (rfl | rfl)
  · exact .inl rfl
  · exact .inr (.inl rfl)

/-- The indirect block of a file. -/
def indirect (s : Blk) (ip : ℕ) : Set ℕ := {b | s.named (ip, .addr NDIRECT) = some b}

lemma indirect_mono (h : Grown s s') (ip : ℕ) : indirect s ip ⊆ indirect s' ip :=
  fun b hb => h.named _ b hb

/-- `bmap` with what it does. -/
lemma bmap_logs (h : s.Booked) (hi : s.Allocated ip) (hsize : s.sb.size ≤ BPB) :
    wp (bmap ip bn) (fun a s' => (Effect s (BmapSlot ip bn) s.byte s' ∧
      s'.named (ip, fileSlot bn) = some a) ∧
        Logs ({s.sb.bmapstart, a} ∪ indirect s' ip) s s') Any s := by
  suffices hl : wp (bmap ip bn) (fun a s' => Logs ({s.sb.bmapstart, a} ∪ indirect s' ip) s s') Any s
    from wp_mono (wp_and (bmap_spec h hi) hl) (fun _ _ hq => hq) fun _ _ => trivial
  unfold bmap
  refine wp_ite (fun hd => ?_) fun hd => wp_ite (fun hk => ?_) fun _ => wp_throw trivial
  · exact wp_mono (bmapAddr_logs hsize ip bn) (fun a t ht => ht.mono Set.subset_union_left)
      fun _ => id
  · refine wp_bind (wp_mono (wp_and (bmapAddr_spec h hi le_rfl) (bmapAddr_logs hsize ip NDIRECT))
      (fun addr t ⟨⟨he, ha⟩, hl⟩ => ?_) fun _ _ => trivial)
    refine wp_bind (wp_bread trivial fun _ => ?_)
    have het := he.setHeld (addr :: t.held)
    have hsize' : (t.setHeld (addr :: t.held)).sb.size ≤ BPB := by
      rw [show (t.setHeld (addr :: t.held)).sb = s.sb from he.grown.sb]
      exact hsize
    refine wp_bind (wp_mono (wp_and (bmapEntry_spec het.grown.booked ha hk)
      (bmapEntry_logs hsize' addr (bn - NDIRECT))) (fun a s' ⟨⟨he', _⟩, hl'⟩ => ?_)
      fun _ _ => trivial)
    refine wp_bind (wp_modify (wp_pure ?_))
    have haddr : addr ∈ indirect s' ip := he'.grown.named _ addr ha
    have hbm : t.sb.bmapstart = s.sb.bmapstart := congrArg Super.bmapstart he.grown.sb
    intro c hc
    rcases hl' c hc with hc | rfl | rfl | rfl
    · rcases hl c hc with hc | rfl | rfl
      · exact .inl hc
      · exact .inr (.inl (.inl rfl))
      · exact .inr (.inr haddr)
    · exact .inr (.inl (.inl hbm))
    · exact .inr (.inl (.inr rfl))
    · exact .inr (.inr haddr)

/-! ### Writing -/

/-- The number of blocks with some of the `n` bytes from `off` on. -/
def touched (off n : ℕ) : ℕ := if n = 0 then 0 else (off % BSIZE + n + (BSIZE - 1)) / BSIZE

/-- The loop of `writei` takes one block in each turn. -/
lemma touched_step (off : ℕ) {n : ℕ} (hn : n ≠ 0) :
    touched (off + min n (BSIZE - off % BSIZE)) (n - min n (BSIZE - off % BSIZE)) + 1 ≤
      touched off n := by
  unfold touched
  simp only [show BSIZE = 512 from rfl]
  split_ifs <;> omega

lemma writeBytes_logs (src : List UInt8) (h : s.Booked) (hi : s.Allocated ip)
    (hsize : s.sb.size ≤ BPB) :
    wp (writeBytes ip off src) (fun last s' =>
      (Effect s (WriteSlot ip off src.length) (overwrite s.byte ip off src) s' ∧
        last = off + src.length ∧
        ∀ bn, 0 < src.length → off / BSIZE ≤ bn → bn * BSIZE < off + src.length →
          s'.named (ip, fileSlot bn) ≠ none) ∧ ∃ X : Finset ℕ, X.card ≤ touched off src.length ∧
        Logs ({s.sb.bmapstart} ∪ X ∪ indirect s' ip) s s') Any s := by
  suffices hl : wp (writeBytes ip off src) (fun _ s' => ∃ X : Finset ℕ,
      X.card ≤ touched off src.length ∧ Logs ({s.sb.bmapstart} ∪ X ∪ indirect s' ip) s s') Any s
    from wp_mono (wp_and (writeBytes_spec src h hi) hl) (fun _ _ hq => hq) fun _ _ => trivial
  induction hn : src.length using Nat.strong_induction_on generalizing s off src with
  | h n ih =>
    rw [writeBytes]
    refine wp_ite (fun _ => wp_pure ⟨∅, Nat.zero_le _, .refl _ s⟩) fun h0 => ?_
    refine wp_bind (wp_mono (bmap_logs h hi hsize) ?_ fun _ => id)
    rintro addr t ⟨⟨he, ha⟩, hl⟩
    refine wp_bind (wp_bread trivial fun _ => wp_bind (wp_modify (wp_bind (wp_modify
      (wp_bind (wp_brelse rfl ?_))))))
    set m := min src.length (BSIZE - off % BSIZE) with hm
    set u := (t.setBlock addr (copyIn (t.block addr) (off % BSIZE) m src)).log addr with hu
    have heb := (Effect.setBlock he.grown.booked ha
      (copyIn (t.block addr) (off % BSIZE) m src)).log addr
    have hgrown := he.grown.trans heb.grown
    have hmod := Nat.mod_lt off (show 0 < BSIZE by decide)
    have hdrop : (src.drop m).length = n - m := by rw [List.length_drop, hn]
    have hsize' : u.sb.size ≤ BPB := by
      rw [hgrown.sb]
      exact hsize
    have hbm : u.sb.bmapstart = s.sb.bmapstart := congrArg Super.bmapstart hgrown.sb
    have hlu : Logs ({s.sb.bmapstart, addr} ∪ indirect u ip) s u :=
      (hl.mono (Set.union_subset_union_right _ (indirect_mono heb.grown ip))).log (.inl (.inr rfl))
    change wp (writeBytes ip (off + m) (src.drop m)) _ _ u
    have hi' := hgrown.allocated.mpr hi
    refine wp_mono (wp_and (writeBytes_spec (src.drop m) hgrown.booked hi')
      (ih (n - m) (by omega) (src.drop m) hgrown.booked hi' hsize' hdrop)) ?_ fun _ _ => trivial
    rintro last s' ⟨⟨he', -⟩, X, hX, hl'⟩
    rw [hbm] at hl'
    refine ⟨insert addr X, ?_, ?_⟩
    · have hcard := Finset.card_insert_le addr X
      have hstep := touched_step off (n := n) (by omega)
      rw [hm, hn] at hX
      omega
    · refine (hlu.trans hl').mono ?_
      rintro b ((hb | hb) | (hb | hb) | hb)
      · rcases hb with rfl | rfl
        · exact .inl (.inl rfl)
        · exact .inl (.inr (by simp))
      · exact .inr (indirect_mono he'.grown ip hb)
      · exact .inl (.inl hb)
      · exact .inl (.inr (by simpa using .inr hb))
      · exact .inr hb

/-- What `writei` logs. -/
lemma writei_logs (src : List UInt8) (h : Sound s) (hi : s.Allocated ip) (hsize : s.sb.size ≤ BPB) :
    wp (Blk.writei ip off src) (fun _ s' => ∃ X : Finset ℕ, X.card ≤ touched off src.length + 1 ∧
      Logs ({s.sb.bmapstart, IBLOCK ip s.sb} ∪ X) s s') Any s := by
  unfold Blk.writei
  refine wp_bind (wp_get (wp_ite (fun _ => wp_pure ⟨∅, Nat.zero_le _, .refl _ s⟩) fun _ =>
    wp_ite (fun _ => wp_pure ⟨∅, Nat.zero_le _, .refl _ s⟩) fun _ => ?_))
  refine wp_bind (wp_mono (writeBytes_logs src h.booked hi hsize) ?_ fun _ => id)
  rintro last t ⟨⟨he, -⟩, X, hX, hl⟩
  -- there is at most one indirect block
  obtain ⟨Y, hY, hind⟩ : ∃ Y : Finset ℕ, Y.card ≤ 1 ∧ indirect t ip ⊆ Y := by
    cases hn : t.named (ip, .addr NDIRECT) with
    | none => exact ⟨∅, Nat.zero_le _, fun b hb => absurd (hn.symm.trans hb) nofun⟩
    | some a =>
      refine ⟨{a}, le_rfl, fun b hb => ?_⟩
      rw [Option.some.inj (hn.symm.trans hb)]
      simp
  have hl : Logs ({s.sb.bmapstart, IBLOCK ip s.sb} ∪ ↑(X ∪ Y)) s t := by
    refine hl.mono ?_
    rintro b ((rfl | hb) | hb)
    · exact .inl (.inl rfl)
    · exact .inr (by simp [Finset.mem_coe.mp hb])
    · exact .inr (by simp [Finset.mem_coe.mp (hind hb)])
  have hcard : (X ∪ Y).card ≤ touched off src.length + 1 :=
    (Finset.card_union_le X Y).trans (by omega)
  refine wp_ite (fun _ => ?_) fun _ => wp_bind (wp_pure (wp_pure ⟨X ∪ Y, hcard, hl⟩))
  refine wp_bind (wp_modify (wp_bind (wp_iupdate trivial (wp_pure ⟨X ∪ Y, hcard, ?_⟩))))
  have hsb : (t.setSize ip last).sb = s.sb := he.grown.sb
  rw [hsb]
  exact Logs.log hl (.inl (.inr rfl))

/-! ### Freeing -/

lemma wp_bfree_any (hb : b < BPB) (h : Q () ((s.setUsed b false).log s.sb.bmapstart)) :
    wp (bfree b) Q Any s := by
  unfold bfree
  refine wp_bind (wp_readsb trivial (wp_bind (wp_get (wp_bind (wp_bread trivial fun _ => ?_)))))
  refine wp_bind (wp_get (wp_ite (fun _ => wp_throw trivial) fun _ => ?_))
  refine wp_bind (wp_modify (wp_bind (wp_modify (wp_brelse rfl ?_))))
  rwa [bblock_eq hb]

/-- Blocks of a file are freed; the bitmap is logged. -/
structure Freeing (ip : ℕ) (s s' : Blk) : Prop where
  sb : s'.sb = s.sb
  block : s'.block = s.block
  other : ∀ j, j ≠ ip → s'.dinode j = s.dinode j
  addrs : ∀ k, (s'.dinode ip).addrs k = (s.dinode ip).addrs k ∨ (s'.dinode ip).addrs k = 0
  logs : Logs {s.sb.bmapstart} s s'

lemma Freeing.refl (ip : ℕ) (s : Blk) : Freeing ip s s :=
  ⟨rfl, rfl, fun _ _ => rfl, fun _ => .inl rfl, .refl _ s⟩

lemma Freeing.trans {t : Blk} (h : Freeing ip s t) (h' : Freeing ip t s') : Freeing ip s s' where
  sb := h'.sb.trans h.sb
  block := h'.block.trans h.block
  other j hj := (h'.other j hj).trans (h.other j hj)
  addrs k := by
    rcases h'.addrs k with hk | hk
    · rw [hk]
      exact h.addrs k
    · exact .inr hk
  logs := h.logs.step (h.sb ▸ h'.logs)

lemma Freeing.lt (h : Freeing ip s s') (hk : (s.dinode ip).addrs k < BPB) :
    (s'.dinode ip).addrs k < BPB := by
  rcases h.addrs k with he | he
  · rwa [he]
  · rw [he]
    decide

lemma Freeing.setAddr (h : Freeing ip s s') (k : ℕ) : Freeing ip s (s'.setAddr ip k 0) := by
  refine ⟨h.sb, h.block, fun j hj => ?_, fun j => ?_, h.logs⟩
  · rw [Blk.setAddr, dinode_setDinode_other hj]
    exact h.other j hj
  · rw [addrs_setAddr_self]
    by_cases hj : j = k
    · rw [hj, Function.update_self]
      exact .inr rfl
    · rw [Function.update_of_ne hj]
      exact h.addrs j

lemma Freeing.setUsed (h : Freeing ip s s') (b : ℕ) :
    Freeing ip s ((s'.setUsed b false).log s'.sb.bmapstart) := by
  have hl : Logs _ s (s'.setUsed b false) := h.logs
  exact ⟨h.sb, h.block, h.other, h.addrs, hl.log (by rw [h.sb]; rfl)⟩

lemma freeAddrs_logs (ks : List ℕ) (h : ∀ k ∈ ks, (s.dinode ip).addrs k < BPB) :
    wp (freeAddrs ip ks) (fun _ s' => Freeing ip s s') Any s := by
  induction ks generalizing s with
  | nil => exact wp_pure (.refl ip s)
  | cons k ks ih =>
    have hrest {t : Blk} (ht : Freeing ip s t) :
        wp (freeAddrs ip ks) (fun _ s' => Freeing ip s s') Any t :=
      wp_mono (ih fun k' hk' => ht.lt (h k' (List.mem_cons_of_mem k hk')))
        (fun _ _ hs' => ht.trans hs') fun _ => id
    unfold freeAddrs freeAddr
    refine wp_bind (wp_bind (wp_get (wp_ite (fun _ => wp_pure (hrest (.refl ip s))) fun _ => ?_)))
    refine wp_bind (wp_bfree_any (h k List.mem_cons_self) (wp_modify ?_))
    exact hrest (((Freeing.refl ip s).setUsed _).setAddr k)

lemma freeEntries_logs (ks : List ℕ) (h : ∀ k ∈ ks, word (s.block addr) k < BPB) (ip : ℕ) :
    wp (freeEntries addr ks) (fun _ s' => Freeing ip s s') Any s := by
  induction ks generalizing s with
  | nil => exact wp_pure (.refl ip s)
  | cons k ks ih =>
    have hrest {t : Blk} (ht : Freeing ip s t) :
        wp (freeEntries addr ks) (fun _ s' => Freeing ip s s') Any t :=
      wp_mono (ih fun k' hk' => ht.block ▸ h k' (List.mem_cons_of_mem k hk'))
        (fun _ _ hs' => ht.trans hs') fun _ => id
    unfold freeEntries freeEntry
    refine wp_bind (wp_bind (wp_get (wp_ite (fun _ => wp_pure (hrest (.refl ip s))) fun _ => ?_)))
    exact wp_bfree_any (h k List.mem_cons_self) (hrest ((Freeing.refl ip s).setUsed _))

/-- All numbers of blocks that a file names are small. -/
lemma addrs_lt (h : Sound s) (hi : s.Allocated ip) (hsize : s.sb.size ≤ BPB) (hk : k ≤ NDIRECT) :
    (s.dinode ip).addrs k < BPB := by
  by_cases h0 : (s.dinode ip).addrs k = 0
  · rw [h0]
    decide
  · have hn := named_addr hi hk
    rw [number_pos h0] at hn
    exact (h.booked.exact.marked _ _ hn).1.2.trans_le hsize

lemma word_lt (h : Sound s) (hi : s.Allocated ip) (hsize : s.sb.size ≤ BPB)
    (h0 : (s.dinode ip).addrs NDIRECT ≠ 0) (hk : k < NINDIRECT) :
    word (s.block ((s.dinode ip).addrs NDIRECT)) k < BPB := by
  by_cases hz : word (s.block ((s.dinode ip).addrs NDIRECT)) k = 0
  · rw [hz]
    decide
  · have hn := named_entry hi hk h0
    rw [number_pos hz] at hn
    exact (h.booked.exact.marked _ _ hn).1.2.trans_le hsize

lemma freeIndirect_logs (hind : (s.dinode ip).addrs NDIRECT < BPB)
    (hent : (s.dinode ip).addrs NDIRECT ≠ 0 →
      ∀ k < NINDIRECT, word (s.block ((s.dinode ip).addrs NDIRECT)) k < BPB) :
    wp (freeIndirect ip) (fun _ s' => Freeing ip s s') Any s := by
  unfold freeIndirect
  refine wp_bind (wp_get (wp_ite (fun _ => wp_pure (.refl ip s)) fun h0 => ?_))
  refine wp_bind (wp_bread trivial fun _ => ?_)
  set a := (s.dinode ip).addrs NDIRECT
  have hks : ∀ k ∈ List.range NINDIRECT, word ((s.setHeld (a :: s.held)).block a) k < BPB :=
    fun k hk => hent h0 k (List.mem_range.mp hk)
  refine wp_bind (wp_mono (freeEntries_logs _ hks ip) (fun _ t ht => ?_) fun _ => id)
  refine wp_bind (wp_modify (wp_bind (wp_bfree_any hind (wp_modify ?_))))
  have hu : Freeing ip s (t.setHeld (t.held.erase a)) :=
    ⟨ht.sb, ht.block, ht.other, ht.addrs, ht.logs⟩
  exact (hu.setUsed _).setAddr NDIRECT

/-- **`iput` frees an inode.** It logs the bitmap and the block of the inode. -/
structure Gone (ip : ℕ) (s s' : Blk) : Prop where
  sb : s'.sb = s.sb
  other : ∀ j, j ≠ ip → s'.dinode j = s.dinode j
  type : (s'.dinode ip).type = .free
  logs : Logs {s.sb.bmapstart, IBLOCK ip s.sb} s s'

lemma ifree_logs (h : Sound s) (hi : s.Allocated ip) (hsize : s.sb.size ≤ BPB) :
    wp (ifree ip) (fun _ s' => Gone ip s s') Any s := by
  unfold ifree itrunc
  refine wp_bind (wp_bind (wp_mono (freeAddrs_logs (List.range NDIRECT) fun k hk =>
    addrs_lt h hi hsize (List.mem_range.mp hk).le) (fun _ t ht => ?_) fun _ => id))
  have hind := addrs_lt h hi hsize le_rfl
  refine wp_bind (wp_mono (freeIndirect_logs (ht.lt hind) fun h0 k hk => ?_) (fun _ u hu => ?_)
    fun _ => id)
  · rcases ht.addrs NDIRECT with he | he
    · rw [he] at h0
      rw [he, ht.block]
      exact word_lt h hi hsize h0 hk
    · exact absurd he h0
  have hf := ht.trans hu
  refine wp_bind (wp_modify (wp_iupdate trivial (wp_bind (wp_modify (wp_iupdate trivial ?_)))))
  have hsb : u.sb = s.sb := hf.sb
  have hlogs := hf.logs.mono (Set.singleton_subset_iff.mpr (.inl rfl) :
    {s.sb.bmapstart} ⊆ ({s.sb.bmapstart, IBLOCK ip s.sb} : Set ℕ))
  refine ⟨hsb, fun j hj => ?_, ?_, ?_⟩
  · exact (dinode_setDinode_other hj).trans ((dinode_setDinode_other hj).trans (hf.other j hj))
  · exact congrArg Dinode.type dinode_setDinode_self
  · have hib : IBLOCK ip u.sb = IBLOCK ip s.sb := by rw [hsb]
    refine Logs.log (Logs.log ?_ (.inr hib)) (.inr hib)
    exact hlogs

/-- `ialloc` writes one inode. -/
lemma iallocFrom_logs (type : InodeType) (is : List ℕ) :
    wp (iallocFrom type is) (fun i s' => i ∈ is ∧ (s.dinode i).type = .free ∧
      s' = (s.setDinode i (.new type)).log (IBLOCK i s.sb)) Any s := by
  induction is with
  | nil => exact wp_throw trivial
  | cons i is ih =>
    unfold iallocFrom
    refine wp_bind (wp_get (wp_bind (wp_bread trivial fun _ => ?_)))
    refine wp_ite (fun hfree => ?_) fun _ => ?_
    · refine wp_bind (wp_modify (wp_bind (wp_modify (wp_bind (wp_brelse rfl (wp_pure ?_))))))
      exact ⟨List.mem_cons_self, hfree, rfl⟩
    · refine wp_bind (wp_brelse rfl (wp_mono ih (fun j s' hj => ?_) fun _ => id))
      exact ⟨List.mem_cons_of_mem i hj.1, hj.2⟩

end Blocks

end Xv6.LogBlocks
