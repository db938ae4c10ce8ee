import Mathlib.Data.Nat.Bitwise
import Xv6.BlockFile
import Xv6.Mkfs

/-!
What the kernel finds on an image, and what the functions of `mkfs` that read and write sectors and
inodes do to it. Every inode of `mkfs` is at its own place in the inode blocks, whatever block it is
in.
-/

namespace Xv6.Mkfs

open Xv6.Lib.Bytes Xv6.Lib.Memory Xv6.Lib.Wp
open Xv6.Fs (BSIZE NDIRECT NINDIRECT FSSIZE IPB BPB Blk Block Dinode InodeType Super Slot)

/-! ### Mounting an image -/

def typeOf : ℕ → InodeType
  | 0 => .free
  | 1 => .dir
  | 2 => .file
  | _ => .dev

/-- `struct dinode`. -/
def dinodeOf (m : Mem) : Dinode where
  type := typeOf (num m typeAt 2)
  major := Fs.wrap16 (num m 2 2)
  minor := Fs.wrap16 (num m 4 2)
  nlink := Fs.wrap16 (num m nlinkAt 2)
  size := num m sizeAt 4
  addrs k := if k ≤ NDIRECT then num m (addrAt k) 4 else 0

/-- `readsb`. -/
def superOf (img : Mem) : Super where
  size := num img BSIZE 4
  ninodes := num img (BSIZE + 8) 4
  inodestart := num img (BSIZE + 20) 4
  bmapstart := num img (BSIZE + 24) 4

def blockOf (img : Mem) (b : ℕ) : Block := fun j => if j < BSIZE then img (b * BSIZE + j) else 0

/-- The disk with this image, before anything is read. -/
def mount (img : Mem) : Blk where
  sb := superOf img
  used b := (img (Fs.BBLOCK b (superOf img) * BSIZE + b % BPB / 8)).toNat.testBit (b % BPB % 8)
  dinode i := dinodeOf fun j => img (Fs.IBLOCK i (superOf img) * BSIZE + i % IPB * DINODE + j)
  block := blockOf img
  held := []

/-! ### Fields of inodes -/

section Dinode

variable {m m' : Mem} {k v : ℕ}

lemma dinodeOf_congr (h : ∀ j, j < DINODE → m' j = m j) : dinodeOf m' = dinodeOf m := by
  have hnum (a w : ℕ) (ha : a + w ≤ DINODE) : num m' a w = num m a w :=
    num_congr fun x _ hx => h x (by omega)
  unfold dinodeOf
  rw [hnum typeAt 2 (by decide), hnum 2 2 (by decide), hnum 4 2 (by decide),
    hnum nlinkAt 2 (by decide), hnum sizeAt 4 (by decide)]
  congr 1
  funext k
  split_ifs with hk
  · exact hnum _ _ (by simp only [addrAt, DINODE, NDIRECT] at hk ⊢; omega)
  · rfl

lemma dinodeOf_addr (hk : k ≤ NDIRECT) (hv : v < 2 ^ 32) :
    dinodeOf (putNum m (addrAt k) 4 v) =
      { dinodeOf m with addrs := Function.update (dinodeOf m).addrs k v } := by
  have hnum (a w : ℕ) (ha : a + w ≤ 12) : num (putNum m (addrAt k) 4 v) a w = num m a w :=
    num_putNum_of_disjoint (.inl (by unfold addrAt; omega))
  unfold dinodeOf
  rw [hnum typeAt 2 (by decide), hnum 2 2 (by decide), hnum 4 2 (by decide),
    hnum nlinkAt 2 (by decide), hnum sizeAt 4 (by decide)]
  congr 1
  funext j
  by_cases hj : j = k
  · subst hj
    rw [if_pos hk, Function.update_self, num_putNum (by omega)]
  · rw [Function.update_of_ne hj, num_putNum_of_disjoint (by unfold addrAt; omega)]

lemma dinodeOf_size (hv : v < 2 ^ 32) :
    dinodeOf (putNum m sizeAt 4 v) = { dinodeOf m with size := v } := by
  have hnum (a w : ℕ) (ha : a + w ≤ sizeAt ∨ sizeAt + 4 ≤ a) :
      num (putNum m sizeAt 4 v) a w = num m a w := num_putNum_of_disjoint ha
  unfold dinodeOf
  rw [hnum typeAt 2 (by decide), hnum 2 2 (by decide), hnum 4 2 (by decide),
    hnum nlinkAt 2 (by decide), num_putNum (by omega)]
  congr 1
  funext j
  rw [hnum _ _ (.inr (by simp only [sizeAt, addrAt]; omega))]

/-- The inode that `ialloc` writes. -/
def linkedDinode (type : InodeType) : Dinode := ⟨type, 0, 0, 1, 0, fun _ => 0⟩

lemma dinodeOf_newInode {type : ℕ} (ht : type < 2 ^ 16) :
    dinodeOf (newInode type) = linkedDinode (typeOf type) := by
  unfold newInode
  rw [dinodeOf_size (by decide)]
  have hnum (a w : ℕ) (h0 : typeAt + 2 ≤ a) (ha : a + w ≤ nlinkAt ∨ nlinkAt + 2 ≤ a) :
      num (putNum (putNum (fun _ => 0) typeAt 2 type) nlinkAt 2 1) a w = 0 := by
    rw [num_putNum_of_disjoint ha, num_putNum_of_disjoint (.inr h0), num_zero]
  have haddrs (k : ℕ) :
      num (putNum (putNum (fun _ => 0) typeAt 2 type) nlinkAt 2 1) (addrAt k) 4 = 0 :=
    hnum _ _ (by simp only [addrAt, typeAt]; omega) (by simp only [addrAt, nlinkAt]; omega)
  unfold dinodeOf linkedDinode
  rw [hnum 2 2 (by decide) (by decide), hnum 4 2 (by decide) (by decide), num_putNum (by decide),
    num_putNum_of_disjoint (by decide), num_putNum (by omega)]
  simp only [haddrs, ite_self]
  rfl

end Dinode

/-! ### Entries of indirect blocks -/

lemma word_eq_num (b : Mem) (k : ℕ) : Fs.word b k = num b (4 * k) 4 := by
  have hget : get b (4 * k) 4 = [b (4 * k), b (4 * k + 1), b (4 * k + 2), b (4 * k + 3)] := rfl
  rw [num, hget]
  simp only [le, Fs.word]
  ring

lemma setWord_eq_putNum (b : Mem) (k v : ℕ) : Fs.setWord b k v = putNum b (4 * k) 4 v := by
  funext j
  unfold Fs.setWord
  split_ifs with hj
  · obtain ⟨r, hr, rfl⟩ : ∃ r, r < 4 ∧ j = 4 * k + r := ⟨j % 4, by omega, by omega⟩
    have hmod : (4 * k + r) % 4 = r := by omega
    rw [hmod, putNum, put, if_pos (by omega), Nat.add_sub_cancel_left]
    have hr : r = 0 ∨ r = 1 ∨ r = 2 ∨ r = 3 := by omega
    rcases hr with rfl | rfl | rfl | rfl <;> simp [leBytes, Nat.div_div_eq_div_mul]
  · exact (putNum_of_disjoint (by omega)).symm

/-! ### Sectors and inodes -/

lemma offset_of_le {sec : ℕ} (h : sec ≤ FSSIZE) : offset sec = sec * BSIZE := by
  unfold offset
  exact Nat.mod_eq_of_lt (by simp only [BSIZE, FSSIZE] at *; omega)

/-- Where inode `i` is. -/
def inodeAt (i : ℕ) : ℕ := inodestart * BSIZE + i * DINODE

def inodeOf (img : Mem) (i : ℕ) : Mem := fun j => img (inodeAt i + j)

lemma inodeAt_eq (i : ℕ) : (i / IPB + inodestart) * BSIZE + i % IPB * DINODE = inodeAt i := by
  unfold inodeAt
  simp only [show IPB = 8 from rfl, show BSIZE = 512 from rfl, show DINODE = 64 from rfl]
  omega

/-- The inodes are below the bitmap. -/
lemma inodeAt_lt {i : ℕ} (hi : i < NINODES) : inodeAt i + DINODE ≤ bmapstart * BSIZE := by
  simp only [inodeAt, show NINODES = 200 from rfl, show BSIZE = 512 from rfl,
    show DINODE = 64 from rfl, show inodestart = 32 from rfl, show bmapstart = 58 from rfl] at *
  omega

lemma inodeAt_disjoint {i j : ℕ} (h : i ≠ j) :
    inodeAt i + DINODE ≤ inodeAt j ∨ inodeAt j + DINODE ≤ inodeAt i := by
  simp only [inodeAt, show DINODE = 64 from rfl]
  omega

section Sectors

variable {st : St} {sec i : ℕ} {buf din : Mem} {E : Exit → Prop}

lemma wp_rsect {Q : Mem → St → Prop} (hlen : st.len = FSSIZE * BSIZE) (hsec : sec < FSSIZE)
    (h : Q (fun j => st.img (sec * BSIZE + j)) st) : wp (rsect sec) Q E st := by
  unfold rsect
  refine wp_bind (wp_get (wp_ite (fun _ => wp_pure ?_) fun hn => absurd ?_ hn))
  · rwa [offset_of_le hsec.le]
  · rw [offset_of_le hsec.le, hlen]
    have := Nat.mul_le_mul_right BSIZE hsec
    rw [Nat.succ_mul] at this
    exact this

/-- Behind the image there is nothing to read. -/
lemma wp_rsect_end {Q : Mem → St → Prop} (hlen : st.len = FSSIZE * BSIZE) (h : E .error) :
    wp (rsect FSSIZE) Q E st := by
  unfold rsect
  refine wp_bind (wp_get (wp_ite (fun hle => absurd hle ?_) fun _ => wp_throw h))
  rw [offset_of_le le_rfl, hlen]
  decide

lemma wp_wsect {Q : Unit → St → Prop} (hlen : st.len = FSSIZE * BSIZE) (hsec : sec < FSSIZE)
    (h : Q () { st with img := put st.img (sec * BSIZE) (get buf 0 BSIZE) }) :
    wp (wsect sec buf) Q E st := by
  unfold wsect
  refine wp_modify ?_
  have hle : sec * BSIZE + BSIZE ≤ st.len := by
    have := Nat.mul_le_mul_right BSIZE hsec
    rw [Nat.succ_mul] at this
    rwa [hlen]
  rwa [offset_of_le hsec.le, max_eq_left hle]

lemma inodeBlock_lt (hi : i < NINODES) : i / IPB + inodestart < FSSIZE := by
  simp only [show NINODES = 200 from rfl, show IPB = 8 from rfl, show inodestart = 32 from rfl,
    show FSSIZE = 1000 from rfl] at *
  omega

lemma wp_rinode {Q : Mem → St → Prop} (hlen : st.len = FSSIZE * BSIZE) (hi : i < NINODES)
    (h : Q (inodeOf st.img i) st) : wp (rinode i) Q E st := by
  unfold rinode
  refine wp_bind (wp_rsect hlen (inodeBlock_lt hi) (wp_pure ?_))
  have heq : (fun j => st.img ((i / IPB + inodestart) * BSIZE + (i % IPB * DINODE + j))) =
      inodeOf st.img i := by
    funext j
    rw [← Nat.add_assoc, inodeAt_eq]
    rfl
  rwa [heq]

lemma wp_winode {Q : Unit → St → Prop} (hlen : st.len = FSSIZE * BSIZE) (hi : i < NINODES)
    (h : Q () { st with img := put st.img (inodeAt i) (get din 0 DINODE) }) :
    wp (winode i din) Q E st := by
  unfold winode
  refine wp_bind (wp_rsect hlen (inodeBlock_lt hi) (wp_wsect hlen (inodeBlock_lt hi) ?_))
  have hfit : i % IPB * DINODE + (get din 0 DINODE).length ≤ BSIZE := by
    rw [length_get]
    have := Nat.mod_lt i (show 0 < IPB by decide)
    simp only [show IPB = 8 from rfl, show BSIZE = 512 from rfl, show DINODE = 64 from rfl] at *
    omega
  rwa [put_sector hfit, inodeAt_eq]

end Sectors

/-! ### The bitmap -/

/-- The bits of the blocks below `n` are set. -/
lemma testBit_bitmap (n q j : ℕ) (hj : j < 8) :
    (bitmap n q).toNat.testBit j = decide (8 * q + j < n) := by
  induction n with
  | zero => simp [bitmap]
  | succ n ih =>
    unfold bitmap at ih ⊢
    rw [List.range_succ, List.foldl_append]
    simp only [List.foldl_cons, List.foldl_nil, setBit]
    have hbit : ((1 : UInt8) <<< UInt8.ofNat (n % 8)).toNat = 2 ^ (n % 8) := by
      have hlt : n % 8 < 8 := Nat.mod_lt n (by decide)
      have hpow : 2 ^ (n % 8) < 2 ^ 8 := Nat.pow_lt_pow_right (by decide) hlt
      rw [UInt8.toNat_shiftLeft, UInt8.toNat_ofNat']
      simp only [UInt8.toNat_one, Nat.shiftLeft_eq, Nat.one_mul]
      rw [Nat.mod_eq_of_lt (show n % 8 < 2 ^ 8 by omega), Nat.mod_eq_of_lt hlt,
        Nat.mod_eq_of_lt hpow]
    by_cases hq : q = n / 8
    · subst hq
      rw [Function.update_self, UInt8.toNat_or, Nat.testBit_or, ih, hbit, Nat.testBit_two_pow]
      rw [← Bool.decide_or, decide_eq_decide]
      omega
    · rw [Function.update_of_ne hq, ih, decide_eq_decide]
      omega

end Xv6.Mkfs
