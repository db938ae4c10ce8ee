import Xv6.Balance
import Xv6.BlockSlots

/-!
The blocks of files: what `balloc` takes and `bmap` maps, what `writei` leaves in a file and what
`readi` finds there. A byte of a file for which there is no block counts as `0`, and a new block is
clear, so that mapping a block changes no byte.
-/

namespace Xv6.Fs

open Xv6.Lib.Wp
open Xv6.Lib.Slots
open Function (update update_of_ne update_self)

/-! ### Allocating and freeing -/

/-- The bitmap agrees with the slots. -/
structure Books (sb : Super) (used : ℕ → Bool) (named : ℕ × Slot → Option ℕ) : Prop where
  exact : Exact sb.Data used named
  low : ∀ b, b < sb.dataStart → b < sb.size → used b = true
  fits : sb.size < 2 ^ 32

section Books

variable {sb : Super} {used : ℕ → Bool} {named : ℕ × Slot → Option ℕ} {p : ℕ × Slot} {b : ℕ}

/-- What `balloc` finds is in the data area. -/
lemma Books.data (h : Books sb used named) (hb : used b = false) (hlt : b < sb.size) : sb.Data b :=
  ⟨not_lt.mp fun hl => absurd ((h.low b hl hlt).symm.trans hb) nofun, hlt⟩

lemma Super.Data.ne_zero (h : sb.Data b) : b ≠ 0 := by
  have hpos : 0 < sb.dataStart := Nat.succ_pos (sb.bmapstart + sb.size / BPB)
  exact (hpos.trans_le h.1).ne'

lemma Books.put (h : Books sb used named) (hp : named p = none) (hb : used b = false)
    (hlt : b < sb.size) :
    Books sb (update used b true) (update named p (some b)) where
  exact := h.exact.put hp (h.data hb hlt) hb
  low c hc hcs := by
    by_cases hcb : c = b
    · subst hcb
      exact update_self ..
    · rw [update_of_ne hcb]
      exact h.low c hc hcs
  fits := h.fits

lemma Books.drop (h : Books sb used named) (hp : named p = some b) :
    Books sb (update used b false) (update named p none) where
  exact := h.exact.drop hp
  low c hc hcs := by
    have hdata := (h.exact.marked p b hp).1.1
    rw [update_of_ne (by omega)]
    exact h.low c hc hcs
  fits := h.fits

end Books

def NotFreeing (e : Stop) : Prop := e ≠ .panic .freeingFree

section Specs

variable {s s' : Blk} {ip k bn b : ℕ} {Q : Unit → Blk → Prop} {E : Stop → Prop}

lemma wp_bread (hE : E .deadlock) (h : b ∉ s.held → Q () (s.setHeld (b :: s.held))) :
    wp (bread b) Q E s := by
  unfold bread
  exact wp_bind (wp_get (wp_ite (fun _ => wp_throw hE) fun hb => wp_set (h hb)))

lemma wp_brelse {held : List ℕ} (hs : s.held = b :: held) (h : Q () (s.setHeld held)) :
    wp (brelse b) Q E s := by
  unfold brelse
  refine wp_modify ?_
  rwa [hs, List.erase_cons_head]

lemma wp_readsb (hE : E .deadlock) (h : Q () s) : wp readsb Q E s := by
  unfold readsb
  exact wp_bind (wp_bread hE fun _ => wp_brelse rfl h)

lemma wp_iupdate (hE : E .deadlock) (h : Q () (s.log (IBLOCK ip s.sb))) :
    wp (iupdate ip) Q E s := by
  unfold iupdate
  exact wp_bind (wp_get (wp_bind (wp_bread hE fun _ => wp_bind (wp_modify (wp_brelse rfl h)))))

lemma wp_bzero (hE : E .deadlock) (h : Q () ((s.setBlock b fun _ => 0).log b)) :
    wp (bzero b) Q E s := by
  unfold bzero
  exact wp_bind (wp_bread hE fun _ =>
    wp_bind (wp_modify (wp_bind (wp_modify (wp_brelse rfl h)))))

variable {size : ℕ}

lemma freeBit_some {used : ℕ → Bool} {i : ℕ} (h : freeBit used b size = some i) :
    used i = false ∧ i < size := by
  have hmem := List.mem_of_find?_eq_some h
  have hfree := List.find?_some h
  rw [List.mem_range'_1] at hmem
  exact ⟨by simpa using hfree, by omega⟩

/-- The block was free and is cleared. -/
def Taken (s : Blk) (b : ℕ) (s' : Blk) : Prop :=
  s.used b = false ∧ b < s.sb.size ∧
    ∃ l, s' = ((s.setUsed b true).setBlock b fun _ => 0).setLogged l

lemma ballocFrom_spec (sb : Super) (hs : s.sb = sb) (start : ℕ) :
    wp (ballocFrom sb start) (Taken s) NotFreeing s := by
  induction hn : sb.size - start using Nat.strong_induction_on generalizing start with
  | h n ih =>
    rw [ballocFrom]
    refine wp_ite (fun hb => ?_) fun _ => wp_throw nofun
    refine wp_bind (wp_bread nofun fun _ => wp_bind (wp_get ?_))
    cases hf : freeBit s.used start sb.size with
    | some i =>
      obtain ⟨hfree, hlt⟩ := freeBit_some hf
      have hf' : freeBit (s.setHeld (BBLOCK start sb :: s.held)).used start sb.size = some i := hf
      rw [hf']
      refine wp_bind (wp_modify (wp_bind (wp_modify (wp_bind (wp_brelse rfl
        (wp_bind (wp_bzero nofun (wp_pure ?_))))))))
      exact ⟨hfree, hs ▸ hlt, _, rfl⟩
    | none =>
      have hf' : freeBit (s.setHeld (BBLOCK start sb :: s.held)).used start sb.size = none := hf
      rw [hf']
      refine wp_bind (wp_brelse rfl (ih (sb.size - (start + BPB)) ?_ (start + BPB) rfl))
      simp only [BPB, BSIZE]
      omega

lemma balloc_spec : wp balloc (Taken s) NotFreeing s := wp_bind (wp_get (ballocFrom_spec _ rfl 0))

lemma wp_bread_free (hb : b ∉ s.held) (h : Q () (s.setHeld (b :: s.held))) :
    wp (bread b) Q E s := by
  unfold bread
  exact wp_bind (wp_get (wp_ite (fun hm => absurd hm hb) fun _ => wp_set h))

lemma wp_iupdate_free (hb : IBLOCK ip s.sb ∉ s.held) (h : Q () (s.log (IBLOCK ip s.sb))) :
    wp (iupdate ip) Q E s := by
  unfold iupdate
  exact wp_bind (wp_get (wp_bind (wp_bread_free hb (wp_bind (wp_modify (wp_brelse rfl h))))))

lemma freeBit_first {used : ℕ → Bool} (hlow : ∀ c, c < b → used c = true) (hb : used b = false)
    (hlt : b < size) (hsize : size ≤ BPB) : freeBit used 0 size = some b := by
  unfold freeBit
  rw [min_eq_right (by omega), Nat.sub_zero, List.find?_range'_eq_some]
  refine ⟨by simpa using hb, List.mem_range'_1.mpr ⟨Nat.zero_le b, by omega⟩, fun c _ hc => ?_⟩
  rw [hlow c hc]
  rfl

/-- `balloc` takes the first block that is free. -/
lemma balloc_first (hlow : ∀ c, c < b → s.used c = true) (hb : s.used b = false)
    (hlt : b < s.sb.size) (hsize : s.sb.size ≤ BPB) (hmap : s.sb.bmapstart ∉ s.held)
    (hheld : b ∉ s.held) :
    wp balloc (fun a t => a = b ∧
      ∃ l, t = ((s.setUsed b true).setBlock b fun _ => 0).setLogged l) (fun _ => False) s := by
  have hbb : BBLOCK 0 s.sb = s.sb.bmapstart := by
    unfold BBLOCK
    rw [Nat.zero_div, Nat.zero_add]
  refine wp_bind (wp_get ?_)
  rw [ballocFrom]
  refine wp_ite (fun _ => ?_) fun h0 => absurd (Nat.zero_lt_of_lt hlt) h0
  rw [hbb]
  refine wp_bind (wp_bread_free hmap (wp_bind (wp_get ?_)))
  have hf : freeBit (s.setHeld (s.sb.bmapstart :: s.held)).used 0 s.sb.size = some b :=
    freeBit_first hlow hb hlt hsize
  rw [hf]
  refine wp_bind (wp_modify (wp_bind (wp_modify (wp_bind (wp_brelse rfl (wp_bind ?_))))))
  unfold bzero
  exact wp_bind (wp_bread_free hheld (wp_bind (wp_modify (wp_bind (wp_modify
    (wp_brelse rfl (wp_pure ⟨rfl, _, rfl⟩)))))))

lemma wp_bfree (hb : s.used b = true) (h : Q () ((s.setUsed b false).log (BBLOCK b s.sb))) :
    wp (bfree b) Q NotFreeing s := by
  unfold bfree
  refine wp_bind
    (wp_readsb nofun (wp_bind (wp_get (wp_bind (wp_bread nofun fun _ => wp_bind (wp_get ?_))))))
  refine wp_ite (fun hf => absurd (hb.symm.trans hf) nofun) fun _ => ?_
  exact wp_bind (wp_modify (wp_bind (wp_modify (wp_brelse rfl h))))

end Specs

/-! ### `bmap` -/

def Blk.Booked (s : Blk) : Prop := Books s.sb s.used s.named

/-- Inodes have got blocks, and blocks have been written. -/
structure Grown (s s' : Blk) : Prop where
  booked : s'.Booked
  sb : s'.sb = s.sb
  info : ∀ i, (s'.dinode i).type = (s.dinode i).type ∧ (s'.dinode i).size = (s.dinode i).size
  named : ∀ p b, s.named p = some b → s'.named p = some b

/-- What has become of the files: the slots in `P` may have got blocks, and the bytes are those
of `byte`. -/
structure Effect (s : Blk) (P : ℕ × Slot → Prop) (byte : ℕ → ℕ → UInt8) (s' : Blk) : Prop where
  grown : Grown s s'
  inode : ∀ i, ∃ addrs, s'.dinode i = { s.dinode i with addrs := addrs }
  byte : ∀ i k, s'.byte i k = byte i k
  named : ∀ p, ¬ P p → s'.named p = s.named p

section Bmap

variable {s s' t : Blk} {ip k bn b addr : ℕ} {p : ℕ × Slot} {P P' : ℕ × Slot → Prop}
  {f f' : ℕ → ℕ → UInt8}

lemma Grown.refl (h : s.Booked) : Grown s s := ⟨h, rfl, fun _ => ⟨rfl, rfl⟩, fun _ _ => id⟩

lemma Grown.trans (h : Grown s t) (h' : Grown t s') : Grown s s' where
  booked := h'.booked
  sb := h'.sb.trans h.sb
  info i := ⟨(h'.info i).1.trans (h.info i).1, (h'.info i).2.trans (h.info i).2⟩
  named p b hp := h'.named p b (h.named p b hp)

lemma Grown.allocated (h : Grown s s') {i : ℕ} : s'.Allocated i ↔ s.Allocated i := by
  unfold Blk.Allocated
  rw [h.sb, (h.info i).1]

lemma Effect.refl (h : s.Booked) : Effect s P s.byte s :=
  ⟨.refl h, fun i => ⟨(s.dinode i).addrs, rfl⟩, fun _ _ => rfl, fun _ _ => rfl⟩

lemma Effect.trans (h : Effect s P f t) (h' : Effect t P' f' s') :
    Effect s (fun p => P p ∨ P' p) f' s' where
  grown := h.grown.trans h'.grown
  inode i := by
    obtain ⟨addrs, hd⟩ := h.inode i
    obtain ⟨addrs', hd'⟩ := h'.inode i
    exact ⟨addrs', by rw [hd', hd]⟩
  byte := h'.byte
  named p hp := by rw [h'.named p fun h => hp (.inr h), h.named p fun h => hp (.inl h)]

lemma Effect.mono (h : Effect s P f s') (hP : ∀ p, P p → P' p) (hf : ∀ i k, f i k = f' i k) :
    Effect s P' f' s' :=
  ⟨h.grown, h.inode, fun i k => (h.byte i k).trans (hf i k),
    fun p hp => h.named p fun h => hp (hP p h)⟩

lemma Effect.setHeld (h : Effect s P f s') (held : List ℕ) : Effect s P f (s'.setHeld held) :=
  ⟨⟨h.grown.booked, h.grown.sb, h.grown.info, h.grown.named⟩, h.inode, h.byte, h.named⟩

lemma Effect.log (h : Effect s P f s') (b : ℕ) : Effect s P f (s'.log b) :=
  ⟨⟨h.grown.booked, h.grown.sb, h.grown.info, h.grown.named⟩, h.inode, h.byte, h.named⟩

/-- The slots do not change yet. -/
lemma Taken.named (ht : Taken s b t) (h : s.Booked) : t.named = s.named := by
  obtain ⟨hfree, -, l, rfl⟩ := ht
  have habsent (j : ℕ) : (s.setUsed b true).named (j, .addr NDIRECT) ≠ some b :=
      h.exact.absent hfree (j, .addr NDIRECT)
  exact (named_setLogged ..).trans (named_setBlock habsent)

lemma Taken.ne_zero (ht : Taken s b t) (h : s.Booked) : b ≠ 0 := (h.data ht.1 ht.2.1).ne_zero

lemma Taken.block_self (ht : Taken s b t) : t.block b = fun _ => 0 := by
  obtain ⟨-, -, l, rfl⟩ := ht
  exact update_self ..

lemma Taken.block_other (ht : Taken s b t) {c : ℕ} (hc : c ≠ b) : t.block c = s.block c := by
  obtain ⟨-, -, l, rfl⟩ := ht
  exact update_of_ne hc ..

/-- The new block goes to a slot that was empty. It is clear, so the bytes that were not there are
`0` still. -/
lemma Taken.effect (ht : Taken s b t) (h : s.Booked) (hp : s.named p = none) (hsb : s'.sb = t.sb)
    (hused : s'.used = t.used)
    (hinode : ∀ i, ∃ addrs, s'.dinode i = { t.dinode i with addrs := addrs })
    (hblock : ∀ c, (∃ i bn, s'.named (i, fileSlot bn) = some c) → s'.block c = t.block c)
    (hn : s'.named = update s.named p (some b)) :
    Effect s (· = p) s.byte s' ∧ s'.named p = some b := by
  have hfree := ht.1
  have hkept (q : ℕ × Slot) (hq : q ≠ p) : s'.named q = s.named q := by
    rw [hn, update_of_ne hq]
  have hself : s'.named p = some b := by rw [hn, update_self]
  have hbyte (i k : ℕ) : s'.byte i k = s.byte i k := by
    by_cases hq : (i, fileSlot (k / BSIZE)) = p
    · rw [← hq] at hp hself
      rw [byte_of_none hp, byte_of_named hself, hblock b ⟨_, _, hself⟩, ht.block_self]
    · cases hc : s.named (i, fileSlot (k / BSIZE)) with
      | none => rw [byte_of_none hc, byte_of_none ((hkept _ hq).trans hc)]
      | some c =>
        have hc' := (hkept _ hq).trans hc
        have hcb : c ≠ b := fun e => h.exact.absent hfree _ (e ▸ hc)
        rw [byte_of_named hc, byte_of_named hc', hblock c ⟨_, _, hc'⟩, ht.block_other hcb]
  have htd : t.dinode = s.dinode := by
    obtain ⟨-, -, l, rfl⟩ := ht
    rfl
  rw [htd] at hinode
  refine ⟨⟨⟨?_, ?_, fun i => ?_, fun q c hq => ?_⟩, hinode, hbyte, hkept⟩, hself⟩
  · obtain ⟨-, hlt, l, rfl⟩ := ht
    unfold Blk.Booked
    rw [hsb, hused, hn]
    exact h.put hp hfree hlt
  · obtain ⟨-, -, l, rfl⟩ := ht
    exact hsb
  · obtain ⟨addrs, hd⟩ := hinode i
    rw [hd]
    exact ⟨rfl, rfl⟩
  · have hqp : q ≠ p := by
      rintro rfl
      rw [hp] at hq
      cases hq
    rw [hkept q hqp, hq]

lemma bmapAddr_spec (h : s.Booked) (hi : s.Allocated ip) (hk : k ≤ NDIRECT) :
    wp (bmapAddr ip k) (fun a s' => Effect s (· = (ip, .addr k)) s.byte s' ∧
      s'.named (ip, .addr k) = some a) NotFreeing s := by
  unfold bmapAddr
  refine wp_bind (wp_get (wp_ite (fun h0 => ?_) fun h0 => wp_pure ⟨.refl h, ?_⟩))
  · refine wp_bind
      (wp_mono balloc_spec (fun b t ht => wp_bind (wp_modify (wp_pure ?_))) fun _ => id)
    have hnone : s.named (ip, .addr k) = none := by
      rw [named_addr hi hk, h0]
      rfl
    refine ht.effect h hnone rfl rfl (fun i => ⟨_, dinode_setAddr ..⟩) (fun _ _ => rfl) ?_
    have hn := ht.named h
    have hb := number_pos (ht.ne_zero h)
    obtain ⟨-, -, l, rfl⟩ := ht
    set t := ((s.setUsed b true).setBlock b fun _ => 0).setLogged l with hdef
    have hit : t.Allocated ip := hi
    rcases hk.lt_or_eq with hk | rfl
    · rw [named_setAddr_direct hit hk, hn, hb]
    · have h0t : (t.dinode ip).addrs NDIRECT = 0 := h0
      have hz (j : ℕ) : word (t.block b) j = 0 := by simp [hdef, Blk.setLogged, Blk.setBlock, word]
      rw [named_setAddr_indirect hit h0t hz, hn, hb]
  · rw [named_addr hi hk, number_pos h0]

lemma bmapEntry_spec (h : s.Booked) (ha : s.named (ip, .addr NDIRECT) = some addr)
    (hk : k < NINDIRECT) :
    wp (bmapEntry addr k) (fun a s' => Effect s (· = (ip, .entry k)) s.byte s' ∧
      s'.named (ip, .entry k) = some a) NotFreeing s := by
  obtain ⟨hi, haddr, ha0⟩ := addr_of_named ha
  have hentry : s.named (ip, .entry k) = number (word (s.block addr) k) := by
    rw [named_entry hi hk (haddr ▸ ha0), haddr]
  unfold bmapEntry
  refine wp_bind (wp_get (wp_ite (fun h0 => ?_) fun h0 => wp_pure ⟨.refl h, ?_⟩))
  · refine wp_bind (wp_mono balloc_spec
      (fun b t ht => wp_bind (wp_modify (wp_bind (wp_modify (wp_pure ?_))))) fun _ => id)
    have hn := ht.named h
    have hlt : b < 2 ^ 32 := ht.2.1.trans h.fits
    have hn' : ((t.setBlock addr (setWord (t.block addr) k b)).log addr).named =
        update s.named (ip, .entry k) (some b) := by
      rw [Blk.log, named_setLogged, named_setEntry (by rw [hn, ha]) (fun j hj => ?_) hk hlt, hn, number_pos (ht.ne_zero h)]
      rw [hn] at hj
      exact (Prod.mk.inj (h.exact.inj _ _ addr hj ha)).1
    refine ht.effect h (by rw [hentry, h0]; rfl) rfl rfl (fun i => ⟨(t.dinode i).addrs, rfl⟩)
      (fun c hc => update_of_ne ?_ ..) hn'
    -- the indirect block is in no slot of a file
    obtain ⟨i, bn, hc⟩ := hc
    rintro rfl
    rw [hn'] at hc
    by_cases hs : (i, fileSlot bn) = (ip, .entry k)
    · rw [hs, update_self] at hc
      exact h.exact.absent ht.1 _ (hc ▸ ha)
    · rw [update_of_ne hs] at hc
      exact fileSlot_ne bn (Prod.mk.inj (h.exact.inj _ _ c hc ha)).2
  · rw [hentry, number_pos h0]

/-- The slots that `bmap` fills. -/
def BmapSlot (ip bn : ℕ) (p : ℕ × Slot) : Prop := p = (ip, fileSlot bn) ∨ p = (ip, .addr NDIRECT)

lemma bmap_spec (h : s.Booked) (hi : s.Allocated ip) :
    wp (bmap ip bn) (fun a s' => Effect s (BmapSlot ip bn) s.byte s' ∧
      s'.named (ip, fileSlot bn) = some a) NotFreeing s := by
  unfold bmap
  refine wp_ite (fun hd => ?_) fun hd => wp_ite (fun hk => ?_) fun _ => wp_throw nofun
  · have hslot : fileSlot bn = .addr bn := if_pos hd
    rw [hslot]
    refine wp_mono (bmapAddr_spec h hi hd.le) (fun a t ⟨he, ha⟩ => ⟨?_, ha⟩) fun _ => id
    exact he.mono (fun p hp => .inl (hslot ▸ hp)) fun _ _ => rfl
  · have hslot : fileSlot bn = .entry (bn - NDIRECT) := if_neg hd
    rw [hslot]
    refine wp_bind (wp_mono (bmapAddr_spec h hi le_rfl) (fun addr t ⟨he, ha⟩ => ?_) fun _ => id)
    refine wp_bind (wp_bread nofun fun _ => ?_)
    have het := he.setHeld (addr :: t.held)
    refine wp_bind
      (wp_mono (bmapEntry_spec het.grown.booked ha hk) (fun a s' ⟨he', ha'⟩ => ?_) fun _ => id)
    refine wp_bind (wp_modify (wp_pure ⟨((het.trans he').setHeld _).mono ?_ het.byte, ha'⟩))
    rintro p (hp | hp)
    · exact .inr hp
    · exact .inl (hslot ▸ hp)

end Bmap

/-! ### `readi` and `writei` -/

structure Sound (s : Blk) : Prop where
  booked : s.Booked
  mapped : ∀ i, s.Allocated i → s.Mapped i

section Contents

variable {s s' t : Blk} {ip off n bn addr : ℕ}

lemma Grown.mapped_at (h : Grown s s') {c : Slot} (hm : s.named (ip, c) ≠ none) :
    s'.named (ip, c) ≠ none := by
  obtain ⟨b, hb⟩ := Option.ne_none_iff_exists'.mp hm
  rw [h.named _ b hb]
  nofun

lemma Sound.log (hs : Sound s) (b : ℕ) : Sound (s.log b) := ⟨hs.booked, hs.mapped⟩

lemma Grown.sound (h : Grown s s') (hs : Sound s) : Sound s' where
  booked := h.booked
  mapped i hi bn hbn := by
    rw [(h.info i).2] at hbn
    exact h.mapped_at (hs.mapped i (h.allocated.mp hi) bn hbn)

/-- The contents of a file are no indirect block. -/
lemma named_setBlock_file (h : s.Booked) (ha : s.named (ip, fileSlot bn) = some addr) (x : Block) :
    (s.setBlock addr x).named = s.named :=
  named_setBlock fun _ hj => fileSlot_ne bn (Prod.mk.inj (h.exact.inj _ _ addr ha hj)).2

/-- A block of a file is written. -/
lemma Effect.setBlock (h : s.Booked) (ha : s.named (ip, fileSlot bn) = some addr) (x : Block) :
    Effect s (fun _ => False)
      (fun i k => if i = ip ∧ k / BSIZE = bn then x (k % BSIZE) else s.byte i k)
      (s.setBlock addr x) := by
  have hn := named_setBlock_file h ha x
  refine ⟨⟨?_, rfl, fun _ => ⟨rfl, rfl⟩, fun p b hp => by rw [hn, hp]⟩,
    fun i => ⟨(s.dinode i).addrs, rfl⟩, fun i k => ?_, fun p _ => by rw [hn]⟩
  · unfold Blk.Booked
    rw [hn]
    exact h
  · split_ifs with hik
    · obtain ⟨rfl, rfl⟩ := hik
      have ha' : (s.setBlock addr x).named (i, fileSlot (k / BSIZE)) = some addr := by rw [hn, ha]
      rw [byte_of_named ha']
      exact congrFun (update_self ..) _
    · cases hc : s.named (i, fileSlot (k / BSIZE)) with
      | none => rw [byte_of_none hc, byte_of_none ((congrFun hn _).trans hc)]
      | some c =>
        have hca : c ≠ addr := by
          rintro rfl
          obtain ⟨hi, hslot⟩ := Prod.mk.inj (h.exact.inj _ _ c hc ha)
          exact hik ⟨hi, fileSlot_inj hslot⟩
        rw [byte_of_named hc, byte_of_named ((congrFun hn _).trans hc)]
        exact congrFun (update_of_ne hca ..) _

/-- The bytes of the files once `src` is written at `off`. -/
def overwrite (byte : ℕ → ℕ → UInt8) (ip off : ℕ) (src : List UInt8) (i k : ℕ) : UInt8 :=
  if i = ip ∧ off ≤ k ∧ k < off + src.length then src.getD (k - off) 0 else byte i k

/-- The slots that `writei` fills. -/
def WriteSlot (ip off n : ℕ) (p : ℕ × Slot) : Prop :=
  p = (ip, .addr NDIRECT) ∨ ∃ bn, off / BSIZE ≤ bn ∧ bn * BSIZE < off + n ∧ p = (ip, fileSlot bn)

variable {src : List UInt8}

/-- What one turn of `writeBytes` leaves in its block, then the rest. -/
lemma overwrite_step {byte : ℕ → ℕ → UInt8} {m : ℕ} {b : Block}
    (hb : ∀ k, k / BSIZE = off / BSIZE → byte ip k = b (k % BSIZE))
    (hm : m = min src.length (BSIZE - off % BSIZE)) (i k : ℕ) :
    overwrite (fun i k => if i = ip ∧ k / BSIZE = off / BSIZE then
      copyIn b (off % BSIZE) m src (k % BSIZE) else byte i k) ip (off + m) (src.drop m) i k =
    overwrite byte ip off src i k := by
  have hmod := Nat.mod_lt off (show 0 < BSIZE by decide)
  have hmodk := Nat.mod_lt k (show 0 < BSIZE by decide)
  have hdiv := Nat.div_add_mod off BSIZE
  have hdivk := Nat.div_add_mod k BSIZE
  unfold overwrite copyIn
  rw [List.length_drop]
  by_cases hi : i = ip
  · subst hi
    simp only [true_and]
    by_cases hlo : off + m ≤ k ∧ k < off + m + (src.length - m)
    · rw [if_pos hlo, if_pos (by omega), List.getD_eq_getElem?_getD, List.getElem?_drop,
        List.getD_eq_getElem?_getD]
      congr 2
      omega
    · rw [if_neg hlo]
      by_cases hk : k / BSIZE = off / BSIZE
      · rw [if_pos hk, hb k hk]
        rw [hk] at hdivk
        by_cases hin : off ≤ k ∧ k < off + m
        · rw [if_pos (by omega), if_pos (by omega)]
          congr 1
          omega
        · rw [if_neg (by omega), if_neg (by omega)]
      · have hout : ¬ (off ≤ k ∧ k < off + src.length) := by
          intro hin
          have hkm : k < off + m := by omega
          refine hk (Nat.div_eq_of_lt_le ?_ ?_)
          · have := Nat.div_mul_le_self off BSIZE
            omega
          · rw [Nat.add_mul, Nat.one_mul, Nat.mul_comm]
            omega
        rw [if_neg hk, if_neg hout]
  · simp only [hi, false_and, if_false]

/-- What `writei` has written is mapped. -/
lemma writeBytes_spec (src : List UInt8) (h : s.Booked) (hi : s.Allocated ip) :
    wp (writeBytes ip off src) (fun last s' =>
      Effect s (WriteSlot ip off src.length) (overwrite s.byte ip off src) s' ∧
      last = off + src.length ∧
      ∀ bn, 0 < src.length → off / BSIZE ≤ bn → bn * BSIZE < off + src.length →
        s'.named (ip, fileSlot bn) ≠ none) NotFreeing s := by
  induction hn : src.length using Nat.strong_induction_on generalizing s off src with
  | h n ih =>
    rw [writeBytes]
    refine wp_ite (fun h0 => wp_pure ⟨(Effect.refl h).mono (fun _ => id) fun i k => ?_, by omega,
      by omega⟩) fun h0 => ?_
    · exact (if_neg (by omega)).symm
    refine wp_bind (wp_mono (bmap_spec h hi) (fun addr t ⟨he, ha⟩ => ?_) fun _ => id)
    refine wp_bind (wp_bread nofun fun _ => wp_bind (wp_modify (wp_bind (wp_modify
      (wp_bind (wp_brelse rfl ?_))))))
    set m := min src.length (BSIZE - off % BSIZE) with hm
    set u := (t.setBlock addr (copyIn (t.block addr) (off % BSIZE) m src)).log addr with hu
    have heb := (Effect.setBlock he.grown.booked ha
      (copyIn (t.block addr) (off % BSIZE) m src)).log addr
    have heu := he.trans heb
    have hau : u.named (ip, fileSlot (off / BSIZE)) ≠ none := by
      rw [heb.grown.named _ addr ha]
      nofun
    have hmod := Nat.mod_lt off (show 0 < BSIZE by decide)
    have hdiv := Nat.div_add_mod off BSIZE
    have hnext : off + (BSIZE - off % BSIZE) = (off / BSIZE + 1) * BSIZE := by
      rw [Nat.add_mul, Nat.one_mul, Nat.mul_comm]
      omega
    have hdrop : (src.drop m).length = n - m := by rw [List.length_drop, hn]
    change wp (writeBytes ip (off + m) (src.drop m)) _ _ u
    refine wp_mono (ih (n - m) (by omega) (src.drop m) heu.grown.booked
      (heu.grown.allocated.mpr hi) hdrop) ?_ fun _ => id
    rintro last s' ⟨he', hlast, hmap⟩
    refine ⟨(heu.trans he').mono ?_ fun i k => ?_, by omega, fun bn _ hlo hhi => ?_⟩
    · have hle : off / BSIZE * BSIZE ≤ off := Nat.div_mul_le_self off BSIZE
      rintro p (((rfl | rfl) | hp) | rfl | ⟨bn, hlo, hhi, rfl⟩)
      · exact .inr ⟨off / BSIZE, le_rfl, by omega, rfl⟩
      · exact .inl rfl
      · exact hp.elim
      · exact .inl rfl
      · refine .inr ⟨bn, le_trans (Nat.div_le_div_right (Nat.le_add_right off m)) hlo, ?_, rfl⟩
        omega
    · have hbyte : u.byte = fun i k => if i = ip ∧ k / BSIZE = off / BSIZE then
          copyIn (t.block addr) (off % BSIZE) m src (k % BSIZE) else s.byte i k := by
        funext i k
        rw [heb.byte, he.byte]
      rw [hbyte]
      refine overwrite_step (fun k hk => ?_) hm i k
      rw [← he.byte, byte_of_named (hk ▸ ha)]
    by_cases hbn : bn = off / BSIZE
    · -- the block of this turn
      rw [hbn]
      exact he'.grown.mapped_at hau
    · -- the blocks of the turns to come start at a multiple of the block size
      have hmul : (off / BSIZE + 1) * BSIZE ≤ bn * BSIZE := Nat.mul_le_mul_right _ (by omega)
      have hmm : m = BSIZE - off % BSIZE := by omega
      refine hmap bn (by omega) ?_ (by omega)
      rw [hmm, hnext, Nat.mul_div_cancel _ (show 0 < BSIZE by decide)]
      omega

/-- The file that has grown has all its blocks: it starts to grow at its size or before. -/
lemma Grown.setSize (h : Grown s s') (hs : Sound s) (hi : s.Allocated ip)
    (hoff : off ≤ (s.dinode ip).size) (hmap : ∀ bn, off / BSIZE ≤ bn → bn * BSIZE <
      n → s'.named (ip, fileSlot bn) ≠ none) : Sound (s'.setSize ip n) := by
  have hn := named_setSize s' ip n
  refine ⟨?_, fun i hi' bn hbn => ?_⟩
  · unfold Blk.Booked
    rw [hn]
    exact h.booked
  · rw [hn]
    by_cases he : i = ip
    · subst he
      rw [Blk.setSize, dinode_setDinode_self] at hbn
      by_cases hlt : bn * BSIZE < (s.dinode i).size
      · exact h.mapped_at (hs.mapped i hi bn hlt)
      · refine hmap bn (Nat.div_le_of_le_mul ?_) hbn
        rw [Nat.mul_comm]
        omega
    · have hdi : (s'.setSize ip n).dinode i = s'.dinode i := dinode_setDinode_other he
      rw [hdi] at hbn
      have hal : s'.Allocated i := by
        unfold Blk.Allocated at hi' ⊢
        rwa [hdi] at hi'
      exact (h.sound hs).mapped i hal bn hbn

/-- The file `ip` holds `src` from `off` on and nothing else has changed in any file. -/
structure Written (s : Blk) (ip off : ℕ) (src : List UInt8) (s' : Blk) : Prop where
  sb : s'.sb = s.sb
  inode : ∀ i, i ≠ ip → ∃ addrs, s'.dinode i = { s.dinode i with addrs := addrs }
  self : ∃ addrs, s'.dinode ip =
    { s.dinode ip with size := max (s.dinode ip).size (off + src.length), addrs := addrs }
  byte : ∀ i k, s'.byte i k = overwrite s.byte ip off src i k
  named : ∀ p, ¬ WriteSlot ip off src.length p → s'.named p = s.named p

lemma Written.log (h : Written s ip off src s') (b : ℕ) : Written s ip off src (s'.log b) :=
  ⟨h.sb, h.inode, h.self, h.byte, h.named⟩

lemma Effect.written (h : Effect s (WriteSlot ip off src.length) (overwrite s.byte ip off src) s')
    (hle : off + src.length ≤ (s.dinode ip).size) : Written s ip off src s' where
  sb := h.grown.sb
  inode i _ := h.inode i
  self := by
    obtain ⟨addrs, hd⟩ := h.inode ip
    exact ⟨addrs, by rw [hd, max_eq_left hle]⟩
  byte := h.byte
  named := h.named

lemma Effect.written_setSize
    (h : Effect s (WriteSlot ip off src.length) (overwrite s.byte ip off src) s')
    (hle : (s.dinode ip).size ≤ off + src.length) :
    Written s ip off src (s'.setSize ip (off + src.length)) := by
  refine ⟨h.grown.sb, fun i hi => ?_, ?_, fun i k => by rw [byte_setSize, h.byte],
    fun p hp => by rw [named_setSize, h.named p hp]⟩
  · rw [Blk.setSize, dinode_setDinode_other hi]
    exact h.inode i
  · obtain ⟨addrs, hd⟩ := h.inode ip
    rw [Blk.setSize, dinode_setDinode_self, hd, max_eq_right hle]
    exact ⟨addrs, rfl⟩

/-- What `writei` that returned `r` has done. -/
def WriteResult (s : Blk) (ip off : ℕ) (src : List UInt8) (r : Option ℕ) (s' : Blk) : Prop :=
  match r with
  | some n => n = src.length ∧ Written s ip off src s'
  | none => s' = s

lemma writei_spec (src : List UInt8) (hs : Sound s) (hi : s.Allocated ip) :
    wp (Blk.writei ip off src) (fun r s' => Sound s' ∧ WriteResult s ip off src r s') NotFreeing
      s := by
  unfold Blk.writei
  refine wp_bind (wp_get (wp_ite (fun _ => wp_pure ⟨hs, rfl⟩) fun hoff =>
    wp_ite (fun _ => wp_pure ⟨hs, rfl⟩) fun _ => ?_))
  refine wp_bind
    (wp_mono (writeBytes_spec src hs.booked hi) (fun last t ⟨he, hlast, hmap⟩ => ?_) fun _ => id)
  subst hlast
  refine wp_ite (fun hlen => ?_) fun hlen => ?_
  · refine wp_bind (wp_modify (wp_bind (wp_iupdate nofun (wp_pure ⟨?_, rfl, ?_⟩))))
    · exact (he.grown.setSize hs hi (by omega) fun bn => hmap bn hlen.1).log _
    · exact (he.written_setSize hlen.2.le).log _
  · exact wp_bind (wp_pure (wp_pure ⟨he.grown.sound hs, rfl, he.written (by omega)⟩))

/-- Where a block is there `bmap` only looks it up. -/
lemma bmap_mapped (ha : s.named (ip, fileSlot bn) = some addr) (hheld : s.held = []) :
    wp (bmap ip bn) (fun a s' => a = addr ∧ s' = s) (fun _ => False) s := by
  have hi := named_some_allocated ha
  unfold fileSlot at ha
  unfold bmap
  by_cases hd : bn < NDIRECT
  · rw [if_pos hd] at ha ⊢
    obtain ⟨-, haddr, ha0⟩ := addr_of_named ha
    unfold bmapAddr
    exact wp_bind
      (wp_get (wp_ite (fun h0 => absurd (haddr.symm.trans h0) ha0) fun _ => wp_pure ⟨haddr, rfl⟩))
  · rw [if_neg hd] at ha ⊢
    have hc : s.Allocated ip ∧ bn - NDIRECT < NINDIRECT ∧ (s.dinode ip).addrs NDIRECT ≠ 0 := by
      by_contra hc
      rw [Blk.named, if_neg hc] at ha
      cases ha
    rw [named_entry hi hc.2.1 hc.2.2] at ha
    obtain ⟨haddr, ha0⟩ := number_some ha
    rw [if_pos hc.2.1]
    unfold bmapAddr bmapEntry
    refine wp_bind (wp_bind (wp_get (wp_ite (fun h0 => absurd h0 hc.2.2) fun _ => wp_pure ?_)))
    refine wp_bind (wp_bind (wp_get (wp_ite (fun hm => ?_) fun _ => wp_set ?_)))
    · rw [hheld] at hm
      cases hm
    refine wp_bind
      (wp_bind (wp_get (wp_ite (fun h0 => absurd (haddr.symm.trans h0) ha0) fun _ => wp_pure ?_)))
    exact wp_bind (wp_brelse rfl (wp_pure ⟨haddr, rfl⟩))

/-- Where all blocks are there the loop of `readi` only reads. -/
lemma readBytes_spec (hheld : s.held = [])
    (hmap : ∀ bn, bn * BSIZE < off + n → off / BSIZE ≤ bn → s.named (ip, fileSlot bn) ≠ none) :
    wp (readBytes ip off n) (fun r s' => r = s.bytes ip off n ∧ s' = s) (fun _ => False) s := by
  induction hk : n using Nat.strong_induction_on generalizing off n with
  | h k ih =>
    subst hk
    rw [readBytes]
    refine wp_ite (fun h0 => wp_pure ⟨by rw [h0]; rfl, rfl⟩) fun h0 => ?_
    have hmod := Nat.mod_lt off (show 0 < BSIZE by decide)
    have hdiv := Nat.div_add_mod off BSIZE
    have hlt : off / BSIZE * BSIZE < off + n := by
      have := Nat.div_mul_le_self off BSIZE
      omega
    obtain ⟨addr, ha⟩ := Option.ne_none_iff_exists'.mp (hmap _ hlt le_rfl)
    refine wp_bind (wp_mono (bmap_mapped ha hheld) ?_ fun _ => id)
    rintro a t ⟨rfl, rfl⟩
    refine wp_bind (wp_bind (wp_get (wp_ite (fun hm => ?_) fun _ => wp_set ?_)))
    · rw [hheld] at hm
      cases hm
    refine wp_bind (wp_get (wp_bind (wp_brelse rfl ?_)))
    set m := min n (BSIZE - off % BSIZE) with hm
    refine wp_bind (wp_mono (ih (n - m) (by omega) (fun bn hbn hle => hmap bn (by omega) ?_) rfl)
      ?_ fun _ => id)
    · exact le_trans (Nat.div_le_div_right (Nat.le_add_right off m)) hle
    rintro r s' ⟨rfl, rfl⟩
    refine wp_pure ⟨?_, rfl⟩
    have hsplit : n = m + (n - m) := by omega
    conv_rhs => rw [hsplit, bytes_add]
    congr 1
    refine List.map_congr_left fun j hj => ?_
    have hj := List.mem_range.mp hj
    have hq : (off + j) / BSIZE = off / BSIZE := by
      refine Nat.div_eq_of_lt_le ?_ ?_
      · have := Nat.div_mul_le_self off BSIZE
        omega
      · rw [Nat.add_mul, Nat.one_mul, Nat.mul_comm]
        omega
    have hr : (off + j) % BSIZE = off % BSIZE + j := by
      have := Nat.div_add_mod (off + j) BSIZE
      rw [hq] at this
      omega
    rw [byte_of_named (hq ▸ ha), hr]
    rfl

/-- The bytes of a file that `readi` returns. -/
def readResult (s : Blk) (ip off n : ℕ) : Option (List UInt8) :=
  if off > (s.dinode ip).size ∨ (off + n) % 2 ^ 32 < off then none
  else some (s.bytes ip off (min n ((s.dinode ip).size - off)))

/-- Nothing is allocated by `readi`. -/
lemma readi_spec (hheld : s.held = [])
    (hmap : ∀ bn, bn * BSIZE < min (off + n) (s.dinode ip).size → off / BSIZE ≤ bn →
      s.named (ip, fileSlot bn) ≠ none) :
    wp (readi ip off n) (fun r s' => r = readResult s ip off n ∧ s' = s) (fun _ => False) s := by
  unfold readi readResult
  refine wp_bind (wp_get ?_)
  dsimp only
  split_ifs with hoff hlen
  · exact wp_pure ⟨rfl, rfl⟩
  · refine wp_bind
      (wp_mono (readBytes_spec hheld fun bn hbn => hmap bn (by omega)) ?_ fun _ => id)
    rintro r s' ⟨rfl, rfl⟩
    exact wp_pure ⟨by rw [min_eq_right (by omega)], rfl⟩
  · refine wp_bind
      (wp_mono (readBytes_spec hheld fun bn hbn => hmap bn (by omega)) ?_ fun _ => id)
    rintro r s' ⟨rfl, rfl⟩
    exact wp_pure ⟨by rw [min_eq_left (by omega)], rfl⟩

lemma Sound.readi (hs : Sound s) (off n : ℕ) (hi : s.Allocated ip) (hheld : s.held = []) :
    wp (readi ip off n) (fun r s' => r = readResult s ip off n ∧ s' = s) (fun _ => False) s :=
  readi_spec hheld fun bn hbn _ => hs.mapped ip hi bn (by omega)

end Contents

end Xv6.Fs
