import Xv6.Block
import Xv6.Lib.Slots

/-!
The slots for block numbers. An inode has one for each of `addrs`, the last of them for the indirect
block, and one for each entry of the indirect block. What the slots name is a function of the state,
so that each write of the code is one change of this function.
-/

namespace Xv6.Fs

open Xv6.Lib.Slots
open Function (update update_of_ne update_self)

inductive Slot
  | addr (k : ℕ)
  | entry (k : ℕ)
  deriving DecidableEq

def Blk.Allocated (s : Blk) (i : ℕ) : Prop := i < s.sb.ninodes ∧ (s.dinode i).type ≠ .free

instance (s : Blk) (i : ℕ) : Decidable (s.Allocated i) := inferInstanceAs (Decidable (_ ∧ _))

/-- A block number; `0` is none. -/
def number (b : ℕ) : Option ℕ := if b = 0 then none else some b

/-- The block number in a slot of an inode. -/
def Blk.named (s : Blk) : ℕ × Slot → Option ℕ
  | (i, .addr k) => if s.Allocated i ∧ k ≤ NDIRECT then number ((s.dinode i).addrs k) else none
  | (i, .entry k) =>
    if s.Allocated i ∧ k < NINDIRECT ∧ (s.dinode i).addrs NDIRECT ≠ 0 then
      number (word (s.block ((s.dinode i).addrs NDIRECT)) k)
    else none

/-- Where `bmap` looks for block `bn` of a file. -/
def fileSlot (bn : ℕ) : Slot := if bn < NDIRECT then .addr bn else .entry (bn - NDIRECT)

/-- `nmeta` of `mkfs`: the bitmap is the last thing before the data blocks. -/
def Super.dataStart (sb : Super) : ℕ := sb.bmapstart + (sb.size / BPB + 1)

def Super.Data (sb : Super) (b : ℕ) : Prop := sb.dataStart ≤ b ∧ b < sb.size

/-- Every block of the file below its size is there. -/
def Blk.Mapped (s : Blk) (i : ℕ) : Prop := ∀ bn, bn * BSIZE < (s.dinode i).size → s.named (i, fileSlot bn) ≠ none

/-- Byte `k` of a file; where there is no block it is `0`. -/
def Blk.byte (s : Blk) (i k : ℕ) : UInt8 :=
  match s.named (i, fileSlot (k / BSIZE)) with
  | some b => s.block b (k % BSIZE)
  | none => 0

/-- The `n` bytes of a file from `off` on. -/
def Blk.bytes (s : Blk) (i off n : ℕ) : List UInt8 := (List.range n).map fun k => s.byte i (off + k)

structure Accounted (s : Blk) : Prop where
  exact : Exact s.sb.Data s.used s.named
  mapped : ∀ i, s.Allocated i → s.Mapped i

/-- The bits of the blocks below the data area are set. -/
def Blk.LowUsed (s : Blk) : Prop := ∀ b, b < s.sb.dataStart → b < s.sb.size → s.used b = true

/-! ### Slots -/

section Named

variable {s s' : Blk} {i j k a b : ℕ} {x : Block}

@[simp] lemma named_setLogged (l : List ℕ) : (s.setLogged l).named = s.named := rfl

lemma number_pos (h : b ≠ 0) : number b = some b := if_neg h

lemma number_zero : number 0 = none := rfl

lemma number_some (h : number a = some b) : a = b ∧ b ≠ 0 := by
  unfold number at h
  split_ifs at h with ha
  cases h
  exact ⟨rfl, ha⟩

lemma named_addr (hi : s.Allocated i) (hk : k ≤ NDIRECT) :
    s.named (i, .addr k) = number ((s.dinode i).addrs k) :=
  if_pos ⟨hi, hk⟩

lemma named_entry (hi : s.Allocated i) (hk : k < NINDIRECT) (h0 : (s.dinode i).addrs NDIRECT ≠ 0) :
    s.named (i, .entry k) = number (word (s.block ((s.dinode i).addrs NDIRECT)) k) :=
      if_pos ⟨hi, hk, h0⟩

lemma named_free (hi : ¬ s.Allocated i) (c : Slot) : s.named (i, c) = none := by
  cases c with
  | addr k => exact if_neg fun h => hi h.1
  | entry k => exact if_neg fun h => hi h.1

/-- Without an indirect block there are no entries. -/
lemma named_entry_none (h0 : (s.dinode i).addrs NDIRECT = 0) (k : ℕ) :
    s.named (i, .entry k) = none :=
  if_neg fun h => h.2.2 h0

lemma named_some_allocated {c : Slot} (h : s.named (i, c) = some b) : s.Allocated i := by
  by_contra hi
  rw [named_free hi] at h
  cases h

lemma addr_of_named (h : s.named (i, .addr k) = some b) : s.Allocated i ∧ (s.dinode i).addrs k = b ∧
    b ≠ 0 := by
  have hi := named_some_allocated h
  by_cases hk : k ≤ NDIRECT
  · rw [named_addr hi hk] at h
    exact ⟨hi, number_some h⟩
  · rw [Blk.named, if_neg fun h => hk h.2] at h
    cases h

/-- An inode whose block numbers are all `0` has no blocks. -/
lemma named_empty (h : ∀ k, (s.dinode i).addrs k = 0) (c : Slot) : s.named (i, c) = none := by
  cases c with
  | addr k => simp only [Blk.named, h, number_zero, ite_self]
  | entry k => exact named_entry_none (h NDIRECT) k

/-- The slots depend on the inodes in use and on the contents of their indirect blocks. -/
lemma named_congr (hsb : s'.sb = s.sb)
    (htype : ∀ j, j < s.sb.ninodes → (s'.dinode j).type = (s.dinode j).type)
    (haddrs : ∀ j, j < s.sb.ninodes → (s'.dinode j).addrs = (s.dinode j).addrs)
    (hblock : ∀ j b, s.named (j, .addr NDIRECT) = some b → s'.block b = s.block b) :
    s'.named = s.named := by
  funext ⟨j, c⟩
  by_cases hj : j < s.sb.ninodes
  swap
  · rw [named_free (fun h => hj h.1), named_free (fun h => hj (hsb ▸ h.1))]
  have hal : s'.Allocated j ↔ s.Allocated j := by
    unfold Blk.Allocated
    rw [hsb, htype j hj]
  have haddrs := haddrs j hj
  cases c with
  | addr k => simp only [Blk.named, hal, haddrs]
  | entry k =>
    by_cases hj : s.Allocated j ∧ k < NINDIRECT ∧ (s.dinode j).addrs NDIRECT ≠ 0
    · have hn : s.named (j, .addr NDIRECT) = some ((s.dinode j).addrs NDIRECT) := by
        rw [named_addr hj.1 le_rfl, number_pos hj.2.2]
      simp only [Blk.named, hal, haddrs, hblock j _ hn]
    · simp only [Blk.named, hal, haddrs, if_neg hj]

/-- A block that is not an indirect block may be written. -/
lemma named_setBlock (hb : ∀ j, s.named (j, .addr NDIRECT) ≠ some b) :
    (s.setBlock b x).named = s.named := by
  refine named_congr rfl (fun _ _ => rfl) (fun _ _ => rfl) fun j c hc => ?_
  have hcb : c ≠ b := fun e => hb j (e ▸ hc)
  exact update_of_ne hcb ..

lemma dinode_setDinode_self {x : Dinode} : (s.setDinode i x).dinode i = x := update_self ..

lemma dinode_setDinode_other {x : Dinode} (hj : j ≠ i) : (s.setDinode i x).dinode j = s.dinode j :=
  update_of_ne hj ..

lemma named_setDinode {x : Dinode} (ht : x.type = (s.dinode i).type)
    (ha : x.addrs = (s.dinode i).addrs) : (s.setDinode i x).named = s.named := by
  have hx (j : ℕ) : ((s.setDinode i x).dinode j).type = (s.dinode j).type ∧
      ((s.setDinode i x).dinode j).addrs = (s.dinode j).addrs := by
    by_cases hj : j = i
    · subst hj
      rw [dinode_setDinode_self]
      exact ⟨ht, ha⟩
    · rw [dinode_setDinode_other hj]
      exact ⟨rfl, rfl⟩
  exact named_congr rfl (fun j _ => (hx j).1) (fun j _ => (hx j).2) fun _ _ _ => rfl

lemma named_setSize (s : Blk) (i n : ℕ) : (s.setSize i n).named = s.named := named_setDinode rfl rfl

lemma dinode_setAddr (s : Blk) (i k a j : ℕ) : (s.setAddr i k a).dinode j =
    { s.dinode j with
      addrs := if j = i then update (s.dinode i).addrs k a else (s.dinode j).addrs } := by
  by_cases hj : j = i
  · subst hj
    simp [Blk.setAddr, Blk.setDinode]
  · simp [Blk.setAddr, Blk.setDinode, hj]

lemma allocated_setAddr : (s.setAddr i k a).Allocated j ↔ s.Allocated j := by
  unfold Blk.Allocated
  rw [dinode_setAddr]
  rfl

lemma addrs_setAddr_self : ((s.setAddr i k a).dinode i).addrs = update (s.dinode i).addrs k a := by
  rw [dinode_setAddr]
  exact if_pos rfl

lemma addrs_setAddr_other (hj : j ≠ i) :
    ((s.setAddr i k a).dinode j).addrs = (s.dinode j).addrs := by
  rw [dinode_setAddr]
  exact if_neg hj

/-- Another inode's slots do not change. -/
lemma named_setAddr_other (hj : j ≠ i) (c : Slot) :
    (s.setAddr i k a).named (j, c) = s.named (j, c) := by
  cases c with
  | addr k' => simp only [Blk.named, allocated_setAddr, addrs_setAddr_other hj]
  | entry k' =>
    simp only [Blk.named, allocated_setAddr, addrs_setAddr_other hj]
    rfl

lemma named_setAddr_addr {k' : ℕ} (hk : k' ≠ k) :
    (s.setAddr i k a).named (i, .addr k') = s.named (i, .addr k') := by
  simp only [Blk.named, allocated_setAddr, addrs_setAddr_self, update_of_ne hk]

lemma named_setAddr_self (hi : s.Allocated i) (hk : k ≤ NDIRECT) :
    (s.setAddr i k a).named (i, .addr k) = number a := by
  rw [named_addr (allocated_setAddr.mpr hi) hk, addrs_setAddr_self, update_self]

lemma named_setAddr_direct (hi : s.Allocated i) (hk : k < NDIRECT) :
    (s.setAddr i k a).named = update s.named (i, .addr k) (number a) := by
  funext ⟨j, c⟩
  by_cases hj : j = i
  · subst hj
    cases c with
    | addr k' =>
      by_cases hkk : k' = k
      · subst hkk
        rw [named_setAddr_self hi hk.le, update_self]
      · rw [named_setAddr_addr hkk, update_of_ne (by simpa using hkk)]
    | entry k' =>
      rw [update_of_ne (by simp)]
      simp only [Blk.named, allocated_setAddr, addrs_setAddr_self, update_of_ne hk.ne']
      rfl
  · rw [named_setAddr_other hj, update_of_ne (by simp [hj])]

/-- A new indirect block is empty. -/
lemma named_setAddr_indirect (hi : s.Allocated i) (h0 : (s.dinode i).addrs NDIRECT = 0)
    (hz : ∀ k, word (s.block a) k = 0) :
    (s.setAddr i NDIRECT a).named = update s.named (i, .addr NDIRECT) (number a) := by
  funext ⟨j, c⟩
  by_cases hj : j = i
  · subst hj
    cases c with
    | addr k =>
      by_cases hk : k = NDIRECT
      · subst hk
        rw [named_setAddr_self hi le_rfl, update_self]
      · rw [named_setAddr_addr hk, update_of_ne (by simpa using hk)]
    | entry k =>
      have hword : word ((s.setAddr j NDIRECT a).block a) k = 0 := hz k
      rw [update_of_ne (by simp), named_entry_none h0]
      simp only [Blk.named, addrs_setAddr_self, update_self, hword, number_zero, ite_self]
  · rw [named_setAddr_other hj, update_of_ne (by simp [hj])]

/-- The slots of the indirect block and of its entries. -/
def indirectSlots (i : ℕ) : List (ℕ × Slot) := (List.range NINDIRECT).map (fun k => (i, .entry k)) ++ [(i, .addr NDIRECT)]

/-- Without the indirect block its entries are not slots. -/
lemma named_setAddr_zero (hi : s.Allocated i) :
    (s.setAddr i NDIRECT 0).named = clear s.named (indirectSlots i) := by
  funext ⟨j, c⟩
  by_cases hj : j = i
  · subst hj
    cases c with
    | addr k =>
      by_cases hk : k = NDIRECT
      · subst hk
        rw [named_setAddr_self hi le_rfl, clear_of_mem (by simp [indirectSlots])]
        rfl
      · rw [named_setAddr_addr hk, clear_of_not_mem (by simp [indirectSlots, hk])]
    | entry k =>
      have h0 : ((s.setAddr j NDIRECT 0).dinode j).addrs NDIRECT = 0 := by
        rw [addrs_setAddr_self, update_self]
      rw [named_entry_none h0]
      by_cases hk : k < NINDIRECT
      · rw [clear_of_mem (by simp [indirectSlots, hk])]
      · rw [clear_of_not_mem (by simp [indirectSlots, hk]), Blk.named, if_neg fun h => hk h.2.1]
  · rw [named_setAddr_other hj, clear_of_not_mem (by simp [indirectSlots, hj, Ne.symm hj])]

lemma word_setWord {v : ℕ} (hv : v < 2 ^ 32) :
    word (setWord x k v) j = if j = k then v else word x j := by
  have hdiv (r : ℕ) (hr : r < 4) : (4 * j + r) / 4 = j := by omega
  have hmod (r : ℕ) (hr : r < 4) : (4 * j + r) % 4 = r := by omega
  have h0 := hdiv 0 (by omega)
  have h0' := hmod 0 (by omega)
  rw [Nat.add_zero] at h0 h0'
  unfold word setWord
  simp only [h0, h0', hdiv 1 (by omega), hdiv 2 (by omega), hdiv 3 (by omega), hmod 1 (by omega),
    hmod 2 (by omega),
    hmod 3 (by omega)]
  split_ifs with hj
  · simp only [UInt8.toNat_ofNat']
    omega
  · rfl

/-- An entry of an indirect block is written; no other inode has the block. -/
lemma named_setEntry (hi : s.named (i, .addr NDIRECT) = some a)
    (huniq : ∀ j, s.named (j, .addr NDIRECT) = some a → j = i) (hk : k < NINDIRECT)
    (hb : b < 2 ^ 32) :
    (s.setBlock a (setWord (s.block a) k b)).named = update s.named (i, .entry k) (number b) := by
  obtain ⟨hal, haddr, ha0⟩ := addr_of_named hi
  funext ⟨j, c⟩
  cases c with
  | addr k' =>
    rw [update_of_ne (by simp)]
    rfl
  | entry k' =>
    change (if s.Allocated j ∧ k' < NINDIRECT ∧ (s.dinode j).addrs NDIRECT ≠ 0 then
      number (word (update s.block a (setWord (s.block a) k b)
        ((s.dinode j).addrs NDIRECT)) k') else none) = _
    by_cases hc : s.Allocated j ∧ k' < NINDIRECT ∧ (s.dinode j).addrs NDIRECT ≠ 0
    · rw [if_pos hc]
      by_cases hj : j = i
      · subst hj
        rw [haddr, update_self, word_setWord hb]
        by_cases hkk : k' = k
        · subst hkk
          rw [if_pos rfl, update_self]
        · rw [if_neg hkk, update_of_ne (by simpa using hkk), named_entry hal hc.2.1 hc.2.2,
            haddr]
      · have hne : (s.dinode j).addrs NDIRECT ≠ a := by
          intro e
          refine hj (huniq j ?_)
          rw [named_addr hc.1 le_rfl, number_pos hc.2.2, e]
        rw [update_of_ne hne, update_of_ne (by simp [hj]),
          named_entry hc.1 hc.2.1 hc.2.2]
    · have hne : (j, Slot.entry k') ≠ (i, .entry k) := by
        intro e
        obtain ⟨rfl, hkk⟩ := Prod.mk.inj e
        obtain rfl := Slot.entry.inj hkk
        exact hc ⟨hal, hk, haddr ▸ ha0⟩
      rw [if_neg hc, update_of_ne hne, Blk.named, if_neg hc]

end Named

/-! ### Bytes -/

section Bytes

variable {s s' : Blk} {i k b bn bn' : ℕ}

lemma fileSlot_ne (bn : ℕ) : fileSlot bn ≠ .addr NDIRECT := by
  unfold fileSlot
  split_ifs with h
  · intro e
    exact h.ne (Slot.addr.inj e)
  · nofun

lemma fileSlot_inj (h : fileSlot bn = fileSlot bn') : bn = bn' := by
  unfold fileSlot at h
  split_ifs at h with h1 h2 h2
  · exact Slot.addr.inj h
  · have := Slot.entry.inj h
    omega

lemma byte_of_named (h : s.named (i, fileSlot (k / BSIZE)) = some b) :
    s.byte i k = s.block b (k % BSIZE) := by
  unfold Blk.byte
  rw [h]

lemma byte_of_none (h : s.named (i, fileSlot (k / BSIZE)) = none) : s.byte i k = 0 := by
  unfold Blk.byte
  rw [h]

/-- A file is what its slots and its blocks say. -/
lemma byte_congr (hn : ∀ bn, s'.named (i, fileSlot bn) = s.named (i, fileSlot bn))
    (hb : ∀ bn b, s.named (i, fileSlot bn) = some b → s'.block b = s.block b) :
    s'.byte i k = s.byte i k := by
  unfold Blk.byte
  rw [hn]
  cases hc : s.named (i, fileSlot (k / BSIZE)) with
  | none => rfl
  | some b =>
    change s'.block b (k % BSIZE) = s.block b (k % BSIZE)
    rw [hb _ b hc]

lemma byte_setSize (s : Blk) (i n j k : ℕ) : (s.setSize i n).byte j k = s.byte j k :=
  byte_congr (fun _ => by rw [named_setSize]) fun _ _ _ => rfl

lemma bytes_add (s : Blk) (i off m n : ℕ) :
    s.bytes i off (m + n) = s.bytes i off m ++ s.bytes i (off + m) n := by
  unfold Blk.bytes
  rw [List.range_add, List.map_append, List.map_map]
  congr 1
  refine List.map_congr_left fun k _ => ?_
  rw [Function.comp_apply, Nat.add_assoc]

end Bytes

end Xv6.Fs
