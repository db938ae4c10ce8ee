import Xv6.BlockFile
import Xv6.Lib.Run

/-!
The bitmap and the block numbers in the inodes. Whatever is written, extended, truncated or freed, a
block of the data area is marked in the bitmap if and only if it is in a slot of an inode in use, it
is in one slot only, and a file has all the blocks below its size. The blocks below the data area
have to be marked too: `balloc` knows no data area and takes what is free.
-/

namespace Xv6.Fs

open Xv6.Lib.Wp
open Xv6.Lib.Slots

/-! ### `itrunc`, `iput` and `ialloc` -/

/-- The blocks in the slots `ps` have been freed. -/
structure Freed (s : Blk) (ps : List (ℕ × Slot)) (s' : Blk) : Prop where
  booked : s'.Booked
  sb : s'.sb = s.sb
  info : ∀ i, (s'.dinode i).type = (s.dinode i).type ∧ (s'.dinode i).size = (s.dinode i).size
  named : s'.named = clear s.named ps

section Truncate

variable {s s' t : Blk} {ip k addr : ℕ} {ps qs : List (ℕ × Slot)}

/-- The slots were empty. -/
lemma Freed.of_empty (h : s.Booked) (hp : ∀ p ∈ ps, s.named p = none) : Freed s ps s :=
  ⟨h, rfl, fun _ => ⟨rfl, rfl⟩, (clear_of_none hp).symm⟩

lemma Freed.trans (h : Freed s ps t) (h' : Freed t qs s') : Freed s (ps ++ qs) s' where
  booked := h'.booked
  sb := h'.sb.trans h.sb
  info i := ⟨(h'.info i).1.trans (h.info i).1, (h'.info i).2.trans (h.info i).2⟩
  named := by rw [h'.named, h.named, clear_append]

lemma Freed.allocated (h : Freed s ps s') {i : ℕ} : s'.Allocated i ↔ s.Allocated i := by
  unfold Blk.Allocated
  rw [h.sb, (h.info i).1]

lemma freeAddr_spec (h : s.Booked) (hi : s.Allocated ip) (hk : k < NDIRECT) :
    wp (freeAddr ip k) (fun _ s' => Freed s [(ip, .addr k)] s') NotFreeing s := by
  have hn := named_addr hi hk.le
  unfold freeAddr
  refine wp_bind (wp_get (wp_ite (fun h0 => wp_pure (.of_empty h fun p hp => ?_)) fun h0 => ?_))
  · rw [List.mem_singleton.mp hp, hn, h0]
    rfl
  · rw [number_pos h0] at hn
    refine wp_bind (wp_bfree (h.exact.marked _ _ hn).2 (wp_modify ?_))
    set a := (s.dinode ip).addrs k
    set t := (s.setUsed a false).log (BBLOCK a s.sb)
    have hclear : (t.setAddr ip k 0).named = clear s.named [(ip, .addr k)] := by
      have hit : t.Allocated ip := hi
      rw [named_setAddr_direct hit hk, clear_one]
      rfl
    refine ⟨?_, rfl, fun i => ?_, hclear⟩
    · unfold Blk.Booked
      rw [hclear, clear_one]
      exact h.drop hn
    · rw [dinode_setAddr]
      exact ⟨rfl, rfl⟩

lemma freeAddrs_spec (ks : List ℕ) (h : s.Booked) (hi : s.Allocated ip)
    (hks : ∀ k ∈ ks, k < NDIRECT) :
    wp (freeAddrs ip ks) (fun _ s' => Freed s (ks.map fun k => (ip, .addr k)) s') NotFreeing s := by
  induction ks generalizing s with
  | nil => exact wp_pure (.of_empty h nofun)
  | cons k ks ih =>
    unfold freeAddrs
    refine wp_bind
      (wp_mono (freeAddr_spec h hi (hks k List.mem_cons_self)) (fun _ t ht => ?_) fun _ => id)
    refine wp_mono (ih ht.booked (ht.allocated.mpr hi) fun k' hk' =>
      hks k' (List.mem_cons_of_mem k hk')) ?_ fun _ => id
    intro _ s' hs'
    exact ht.trans hs'

/-- The entries of the indirect block stay as they are while the blocks are freed: `named` is what
is left of the slots. -/
lemma freeEntries_spec {named : ℕ × Slot → Option ℕ} (ks : List ℕ) (h : Books s.sb s.used named)
    (hnd : ks.Nodup) (hks : ∀ k ∈ ks, named (ip, .entry k) = number (word (s.block addr) k)) :
    wp (freeEntries addr ks) (fun _ s' => ∃ used l, s' = { s with used := used, logged := l } ∧
      Books s.sb used (clear named (ks.map fun k => (ip, .entry k)))) NotFreeing s := by
  induction ks generalizing s named with
  | nil => exact wp_pure ⟨s.used, s.logged, rfl, by rwa [List.map_nil, clear_nil]⟩
  | cons k ks ih =>
    obtain ⟨hk, hnd⟩ := List.nodup_cons.mp hnd
    have hn := hks k List.mem_cons_self
    -- whether there was a block or not, the slot is empty now
    have hrest {t : Blk} (ht : t = { s with used := t.used, logged := t.logged })
        (hb : Books s.sb t.used (clear named [(ip, .entry k)])) :
        wp (freeEntries addr ks) (fun _ s' => ∃ used l, s' = { s with used := used, logged := l } ∧
          Books s.sb used (clear named ((k :: ks).map fun k => (ip, .entry k)))) NotFreeing t := by
      have hsb : t.sb = s.sb := by rw [ht]
      have hblock : t.block = s.block := by rw [ht]
      rw [← hsb] at hb
      refine wp_mono (ih hb hnd fun k' hk' => ?_) ?_ fun _ => id
      · have hne : k' ≠ k := fun e => hk (e ▸ hk')
        rw [clear_one, Function.update_of_ne (by simpa using hne), hblock]
        exact hks k' (List.mem_cons_of_mem k hk')
      · rintro _ s' ⟨used, l, rfl, hb'⟩
        refine ⟨used, l, by rw [ht], ?_⟩
        rwa [clear_append, hsb] at hb'
    unfold freeEntries freeEntry
    refine wp_bind (wp_bind (wp_get (wp_ite (fun h0 => wp_pure ?_) fun h0 => ?_)))
    · refine hrest rfl ?_
      rwa [clear_of_none fun p hp => ?_]
      rw [List.mem_singleton.mp hp, hn, h0]
      rfl
    · rw [number_pos h0] at hn
      refine wp_bfree (h.exact.marked _ _ hn).2 (hrest rfl ?_)
      rw [clear_one]
      exact h.drop hn

lemma freeIndirect_spec (h : s.Booked) (hi : s.Allocated ip) :
    wp (freeIndirect ip) (fun _ s' => Freed s (indirectSlots ip) s') NotFreeing s := by
  have hn := named_addr hi (le_refl NDIRECT)
  unfold freeIndirect
  refine wp_bind (wp_get (wp_ite (fun h0 => wp_pure (.of_empty h fun p hp => ?_)) fun h0 => ?_))
  · rcases List.mem_append.mp hp with hp | hp
    · obtain ⟨k, -, rfl⟩ := List.mem_map.mp hp
      exact named_entry_none h0 k
    · rw [List.mem_singleton.mp hp, hn, h0]
      rfl
  · rw [number_pos h0] at hn
    set a := (s.dinode ip).addrs NDIRECT with ha
    refine wp_bind (wp_bread nofun fun _ => ?_)
    have hb : Books (s.setHeld (a :: s.held)).sb (s.setHeld (a :: s.held)).used s.named := h
    have hks (k : ℕ) (hk : k ∈ List.range NINDIRECT) :
        s.named (ip, .entry k) = number (word ((s.setHeld (a :: s.held)).block a) k) :=
      named_entry hi (List.mem_range.mp hk) h0
    refine wp_bind
      (wp_mono (freeEntries_spec (List.range NINDIRECT) hb List.nodup_range hks) ?_ fun _ => id)
    rintro _ t ⟨used, l, rfl, hbooks⟩
    -- the indirect block itself
    have hleft : clear s.named ((List.range NINDIRECT).map fun k => (ip, .entry k))
      (ip, .addr NDIRECT) = some a := by
      rw [clear_of_not_mem (by simp), hn]
    refine wp_bind
      (wp_brelse rfl (wp_bind (wp_bfree (hbooks.exact.marked _ _ hleft).2 (wp_modify ?_))))
    let u : Blk := { s with used := Function.update used a false, logged := BBLOCK a s.sb :: l }
    change Freed s (indirectSlots ip) (u.setAddr ip NDIRECT 0)
    have hclear := named_setAddr_zero (s := u) hi
    refine ⟨?_, rfl, fun i => ?_, hclear⟩
    · have hdone := hbooks.drop hleft
      rw [← clear_one, clear_append] at hdone
      unfold Blk.Booked
      rw [hclear]
      exact hdone
    · rw [dinode_setAddr]
      exact ⟨rfl, rfl⟩

/-- All slots of an inode that may have a block. -/
def inodeSlots (i : ℕ) : List (ℕ × Slot) := (List.range NDIRECT).map (fun k => (i, .addr k)) ++ indirectSlots i

lemma Freed.empty (h : Freed s (inodeSlots ip) s') (c : Slot) : s'.named (ip, c) = none := by
  rw [h.named]
  by_cases hc : (ip, c) ∈ inodeSlots ip
  · exact clear_of_mem hc
  · rw [clear_of_not_mem hc]
    cases c with
    | addr k =>
      refine if_neg fun hk => hc ?_
      rcases hk.2.lt_or_eq with hlt | rfl
      · simp [inodeSlots, hlt]
      · simp [inodeSlots, indirectSlots]
    | entry k =>
      refine if_neg fun hk => hc ?_
      simp [inodeSlots, indirectSlots, hk.2.1]

lemma Freed.other (h : Freed s (inodeSlots ip) s') {j : ℕ} (hj : j ≠ ip) (c : Slot) :
    s'.named (j, c) = s.named (j, c) := by
  rw [h.named, clear_of_not_mem (by simp [inodeSlots, indirectSlots, hj, hj.symm])]

lemma named_setDinode_other {x : Dinode} {j : ℕ} (hj : j ≠ ip) (c : Slot) :
    (s.setDinode ip x).named (j, c) = s.named (j, c) := by
  have hd : (s.setDinode ip x).dinode j = s.dinode j := dinode_setDinode_other hj
  have hal : (s.setDinode ip x).Allocated j ↔ s.Allocated j := by
    unfold Blk.Allocated
    rw [hd]
    rfl
  cases c with
  | addr k => simp only [Blk.named, hal, hd]
  | entry k =>
    simp only [Blk.named, hal, hd]
    rfl

/-- An inode without blocks may become anything without blocks. -/
lemma Blk.Booked.setDinode (h : s.Booked) {x : Dinode} (he : ∀ c, s.named (ip, c) = none)
    (hx : ∀ c, (s.setDinode ip x).named (ip, c) = none) : (s.setDinode ip x).Booked := by
  have hn : (s.setDinode ip x).named = s.named := by
    funext ⟨j, c⟩
    by_cases hj : j = ip
    · subst hj
      rw [hx, he]
    · exact named_setDinode_other hj c
  unfold Blk.Booked
  rw [hn]
  exact h

/-- And with size `0` it is a file whose blocks are all there. -/
lemma Sound.setDinode (h : s.Booked) (hm : ∀ j, j ≠ ip → s.Allocated j → s.Mapped j) {x : Dinode}
    (he : ∀ c, s.named (ip, c) = none) (hx : ∀ c, (s.setDinode ip x).named (ip, c) = none)
    (hsize : x.size = 0) :
    Sound (s.setDinode ip x) where
  booked := h.setDinode he hx
  mapped j hj bn hbn := by
    by_cases hji : j = ip
    · subst hji
      rw [dinode_setDinode_self, hsize] at hbn
      exact absurd hbn (Nat.not_lt_zero _)
    · have hd : (s.setDinode ip x).dinode j = s.dinode j := dinode_setDinode_other hji
      have hal : s.Allocated j := by
        unfold Blk.Allocated at hj ⊢
        rwa [hd] at hj
      rw [hd] at hbn
      rw [named_setDinode_other hji]
      exact hm j hji hal bn hbn

/-- The file is empty and has no blocks. -/
structure Emptied (ip : ℕ) (s : Blk) : Prop where
  sound : Sound s
  size : (s.dinode ip).size = 0
  named : ∀ c, s.named (ip, c) = none

lemma itrunc_spec (hs : Sound s) (hi : s.Allocated ip) :
    wp (itrunc ip) (fun _ s' => Emptied ip s') NotFreeing s := by
  unfold itrunc
  refine wp_bind
    (wp_mono (freeAddrs_spec (List.range NDIRECT) hs.booked hi fun k hk => List.mem_range.mp hk)
    (fun _ t ht => ?_) fun _ => id)
  refine wp_bind
    (wp_mono (freeIndirect_spec ht.booked (ht.allocated.mpr hi)) (fun _ u hu => ?_) fun _ => id)
  have hfreed : Freed s (inodeSlots ip) u := ht.trans hu
  have hn := named_setSize u ip 0
  have he (c : Slot) : (u.setSize ip 0).named (ip, c) = none := by rw [hn, hfreed.empty]
  refine wp_bind
    (wp_modify
    (wp_iupdate nofun ⟨.log (.setDinode hu.booked (fun j hj hal bn hbn => ?_) hfreed.empty he rfl) _,
    ?_, he⟩))
  · rw [hfreed.other hj]
    rw [(hfreed.info j).2] at hbn
    exact hs.mapped j (hfreed.allocated.mp hal) bn hbn
  · exact congrArg Dinode.size dinode_setDinode_self

lemma ifree_spec (hs : Sound s) (hi : s.Allocated ip) :
    wp (ifree ip) (fun _ s' => Sound s') NotFreeing s := by
  unfold ifree
  refine wp_bind (wp_mono (itrunc_spec hs hi) (fun _ t ht => ?_) fun _ => id)
  refine wp_bind (wp_modify (wp_iupdate nofun ?_))
  refine Sound.log ?_ _
  refine .setDinode ht.sound.booked (fun j _ => ht.sound.mapped j) ht.named
    (named_free fun h => h.2 ?_) ht.size
  rw [dinode_setDinode_self]

lemma iallocFrom_spec (type : InodeType) (is : List ℕ) (hs : Sound s) :
    wp (iallocFrom type is) (fun _ s' => Sound s') NotFreeing s := by
  induction is with
  | nil => exact wp_throw (by simp [NotFreeing])
  | cons i is ih =>
    unfold iallocFrom
    refine wp_bind (wp_get (wp_bind (wp_bread (by simp [NotFreeing]) fun _ => wp_ite (fun hfree => ?_) fun _ => ?_)))
    · refine wp_bind (wp_modify (wp_bind (wp_modify (wp_bind (wp_brelse rfl (wp_pure ?_))))))
      refine .log (.setDinode hs.booked (fun j _ => hs.mapped j) (named_free fun h => h.2 hfree)
        (fun c => ?_) rfl) (IBLOCK i s.sb)
      have hd : ((s.setDinode i (.new type)).dinode i).addrs = fun _ => 0 := by
        rw [dinode_setDinode_self]
        rfl
      exact named_empty (fun k => by rw [hd]) c
    · exact wp_bind (wp_brelse rfl ih)

lemma ialloc_spec (type : InodeType) (hs : Sound s) :
    wp (Blk.ialloc type) (fun _ s' => Sound s') NotFreeing s :=
  wp_bind (wp_get (iallocFrom_spec type _ hs))

end Truncate

/-! ### Runs -/

/-- The calls on blocks; `ref` is the number of references that `iput` finds. -/
inductive BlkOp
  | ialloc (type : InodeType)
  | readi (ip off n : ℕ)
  | writei (ip off : ℕ) (src : List UInt8)
  | bmap (ip bn : ℕ)
  | itrunc (ip : ℕ)
  | iput (ip ref : ℕ)

/-- The inode that has been locked before. -/
def BlkOp.inode : BlkOp → Option ℕ
  | .ialloc _ => none
  | .readi ip _ _ | .writei ip _ _ | .bmap ip _ | .itrunc ip | .iput ip _ => some ip

/-- Devices have no blocks: `devsw` reads and writes them. -/
def onFile (ip : ℕ) (m : DiskM Blk Unit) : DiskM Blk Unit := do
  if ((← get).dinode ip).type = .dev then pure () else m

def BlkOp.run : BlkOp → DiskM Blk Unit
  | .ialloc type => do
    let _ ← Blk.ialloc type
  | .readi ip off n => onFile ip do
    let _ ← Fs.readi ip off n
  | .writei ip off src => onFile ip do
    let _ ← Blk.writei ip off src
  | .bmap ip bn => do
    let _ ← Fs.bmap ip bn
  | .itrunc ip => Fs.itrunc ip
  | .iput ip ref => do
    if ref = 1 ∧ ((← get).dinode ip).nlink = 0 then ifree ip else pure ()

/-- `ilock` panics if the inode is not in use. -/
def BlkOp.Able (op : BlkOp) (s : Blk) : Prop := ∀ ip, op.inode = some ip → s.Allocated ip

/-- A call that returns. -/
def BlkStep (s : Blk) (op : BlkOp) (s' : Blk) : Prop := op.Able s ∧ op.run s = .ok ((), s')

section Runs

variable {s s' s₀ : Blk} {op : BlkOp}

lemma wp_onFile {ip : ℕ} {m : DiskM Blk Unit} {Q : Unit → Blk → Prop} {E : Stop → Prop}
    (hs : Q () s) (hm : wp m Q E s) :
    wp (onFile ip m) Q E s := wp_bind (wp_get (wp_ite (fun _ => wp_pure hs) fun _ => hm))

lemma BlkOp.sound (hs : Sound s) (hheld : s.held = []) (hop : op.Able s) :
    wp op.run (fun _ s' => Sound s') NotFreeing s := by
  cases op with
  | ialloc type =>
    exact wp_bind (wp_mono (ialloc_spec type hs) (fun _ _ h => wp_pure h) fun _ => id)
  | readi ip off n =>
    refine wp_onFile hs
      (wp_bind (wp_mono (hs.readi off n (hop ip rfl) hheld) (fun _ t ht => wp_pure ?_) fun _ =>
      nofun))
    rwa [ht.2]
  | writei ip off src =>
    exact wp_onFile hs
      (wp_bind (wp_mono (writei_spec src hs (hop ip rfl)) (fun _ _ h => wp_pure h.1) fun _ => id))
  | bmap ip bn =>
    refine wp_bind
      (wp_mono (bmap_spec hs.booked (hop ip rfl)) (fun _ t ht => wp_pure ?_) fun _ => id)
    exact ht.1.grown.sound hs
  | itrunc ip => exact wp_mono (itrunc_spec hs (hop ip rfl)) (fun _ _ h => h.sound) fun _ => id
  | iput ip ref =>
    exact wp_bind (wp_get (wp_ite (fun _ => ifree_spec hs (hop ip rfl)) fun _ => wp_pure hs))

lemma BlkOp.holding (op : BlkOp) : Holding op.run [] [] := by
  cases op with
  | ialloc type =>
    exact holding_bind (holding_bind holding_get fun _ => holding_iallocFrom _) fun _ =>
      holding_pure _
  | readi ip off n =>
    refine holding_bind holding_get fun _ => holding_ite (holding_pure _) ?_
    exact holding_bind (holding_readi ip off n) fun _ => holding_pure _
  | writei ip off src =>
    refine holding_bind holding_get fun _ => holding_ite (holding_pure _) ?_
    exact holding_bind (holding_writei ip off src) fun _ => holding_pure _
  | bmap ip bn => exact holding_bind holding_bmap fun _ => holding_pure _
  | itrunc ip => exact holding_itrunc
  | iput ip ref => exact holding_bind holding_get fun _ => holding_ite holding_ifree (holding_pure _)

lemma BlkStep.sound (h : BlkStep s op s') (hs : Sound s ∧ s.held = []) : Sound s' ∧ s'.held = [] :=
  ⟨wp_ok (BlkOp.sound hs.1 hs.2 h.1) h.2, wp_ok (Q := fun _ s' => s'.held = [])
    (op.holding s hs.2) h.2⟩

/-- A disk of six blocks, the last two for data, with one file that is empty. -/
def smallDisk (used : ℕ → Bool) : Blk where
  sb := ⟨6, 2, 2, 3⟩
  used := used
  dinode i := if i = 1 then .new .file else .new .free
  block _ _ := 0
  held := []

/-- A disk without data. -/
lemma accounted_of_empty {s : Blk} (haddrs : ∀ i k, (s.dinode i).addrs k = 0)
    (hsize : ∀ i, (s.dinode i).size = 0) (hfree : ∀ b, s.sb.Data b → s.used b = false) :
    Accounted s where
  exact := {
    marked := fun p b hp => absurd ((named_empty (haddrs p.1) p.2).symm.trans hp) nofun
    inj := fun p q b hp => absurd ((named_empty (haddrs p.1) p.2).symm.trans hp) nofun
    owned := fun b hb hu => absurd (hu.symm.trans (hfree b hb)) nofun }
  mapped i _ bn hbn := by
    rw [hsize i] at hbn
    exact absurd hbn (Nat.not_lt_zero _)

lemma accounted_smallDisk {used : ℕ → Bool} (h : ∀ b, (smallDisk used).sb.Data b → used b = false) :
    Accounted (smallDisk used) := by
  refine accounted_of_empty (fun i k => ?_) (fun i => ?_) h <;>
  · simp only [smallDisk]
    split_ifs <;> rfl

/-- **Block allocation.** If the bits of the blocks below the data area are set, every run keeps the
bitmap and the slots in agreement; then `readi` allocates nothing and no call frees a free block. -/
theorem block_allocation (h : Accounted s₀) (hlow : s₀.LowUsed) (hsize : s₀.sb.size < 2 ^ 32) (hheld : s₀.held = [])
    (hr : Lib.Run.Reach BlkStep s₀ s) :
    Accounted s ∧ s.LowUsed ∧ (∀ ip off n, s.Allocated ip → ∃ r, readi ip off n s = .ok (r, s)) ∧
      ∀ op : BlkOp, op.Able s → op.run s ≠ .error (.panic .freeingFree) := by
  obtain ⟨hs, hh⟩ :=
    hr.inv (P := fun s => Sound s ∧ s.held = []) ⟨⟨⟨h.exact, hlow, hsize⟩, h.mapped⟩, hheld⟩
    fun _ _ _ hs hst => hst.sound hs
  refine ⟨⟨hs.booked.exact, hs.mapped⟩, hs.booked.low, fun ip off n hi => ?_, fun op hop he => ?_⟩
  · obtain ⟨r, s', he, -, rfl⟩ := wp_total (hs.readi off n hi hh)
    exact ⟨r, he⟩
  · exact wp_error (BlkOp.sound hs hh hop) he rfl

/-- The first byte of the file goes to block 4. -/
theorem block_allocation_first_byte : ∃ s, BlkStep (smallDisk (· < 4)) (.writei 1 0 [7]) s ∧
    s.named (1, .addr 0) = some 4 ∧ Accounted s := by
  have hv : ((BlkOp.writei 1 0 [7]).run (smallDisk (· < 4))).toOption.map
    (fun r => r.2.named (1, .addr 0)) =
      some (some 4) := by decide +kernel
  have hdata (b : ℕ) (hb : (smallDisk (· < 4)).sb.Data b) : decide (b < 4) = false := by
    have h4 : 4 ≤ b := hb.1
    simpa using h4
  cases hr : (BlkOp.writei 1 0 [7]).run (smallDisk (· < 4)) with
  | error e =>
    rw [hr] at hv
    cases hv
  | ok r =>
    rw [hr] at hv
    have hstep : BlkStep (smallDisk (· < 4)) (.writei 1 0 [7]) r.2 := by
      refine ⟨fun ip hip => ?_, hr⟩
      cases hip
      decide
    have hlow : (smallDisk (· < 4)).LowUsed := fun b hb _ => decide_eq_true hb
    exact ⟨r.2, hstep, Option.some.inj hv,
      (block_allocation (accounted_smallDisk hdata) hlow (by decide) rfl (.tail .refl hstep)).1⟩

/-- With the bit of the super block clear its block becomes the first block of the file. -/
theorem block_allocation_super_block : ∃ s, Accounted (smallDisk (· == 0)) ∧
    BlkStep (smallDisk (· == 0)) (.writei 1 0 [7]) s ∧ s.named (1, .addr 0) = some 1 ∧ ¬ Accounted s := by
  have hv : ((BlkOp.writei 1 0 [7]).run (smallDisk (· == 0))).toOption.map
      (fun r => (r.2.named (1, .addr 0), r.2.sb.dataStart)) = some (some 1, 4) := by decide +kernel
  have hdata (b : ℕ) (hb : (smallDisk (· == 0)).sb.Data b) : (b == 0) = false := by
    have h4 : 4 ≤ b := hb.1
    rw [beq_eq_false_iff_ne]
    omega
  cases hr : (BlkOp.writei 1 0 [7]).run (smallDisk (· == 0)) with
  | error e =>
    rw [hr] at hv
    cases hv
  | ok r =>
    rw [hr] at hv
    obtain ⟨hn, hstart⟩ := Prod.mk.inj (Option.some.inj hv)
    refine ⟨r.2, accounted_smallDisk hdata, ⟨fun ip hip => ?_, hr⟩, hn, fun h => ?_⟩
    · cases hip
      decide
    · have hdata := (h.exact.marked _ _ hn).1.1
      rw [hstart] at hdata
      omega

end Runs

end Xv6.Fs
