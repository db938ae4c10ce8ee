import Xv6.BlockAlloc
import Xv6.Lib.Splice

/-!
Files as byte strings. What `readi` returns is a part of the contents of a file, and `writei`
changes the contents of one file by overwriting a part of them, whatever blocks the bytes are in.
-/

namespace Xv6.FileData

open Xv6.Fs Xv6.Lib.Wp Xv6.Lib.Splice

def NDEV : ℤ := 10

/-- Whether `devsw[major].write` is set: `consoleinit` sets it for the console. -/
def devswWrite (major : ℤ) : Bool := major = CONSOLE

/-- `none` is `-1`. A write to the console puts out the bytes and returns their number. -/
def writei (ip off : ℕ) (src : List UInt8) : DiskM Blk (Option ℕ) := do
  let x := (← get).dinode ip
  if x.type = .dev then
    if x.major < 0 ∨ x.major ≥ NDEV ∨ devswWrite x.major = false then pure none
    else pure (some src.length)
  else Blk.writei ip off src

def contents (s : Blk) (ip : ℕ) : List UInt8 := s.bytes ip 0 (s.dinode ip).size

/-- What `readi` makes of the contents of a file. -/
def readOf (data : List UInt8) (off n : ℕ) : Option (List UInt8) :=
  if off > data.length ∨ (off + n) % 2 ^ 32 < off then none else some ((data.drop off).take n)

/-- The checks of `writei`. -/
def Writable (s : Blk) (ip off n : ℕ) : Prop :=
  off ≤ (s.dinode ip).size ∧ ¬ (off + n) % 2 ^ 32 < off ∧ off + n ≤ MAXFILE * BSIZE

instance (s : Blk) (ip off n : ℕ) : Decidable (Writable s ip off n) :=
  inferInstanceAs (Decidable (_ ∧ _))

variable {s s' : Blk} {ip off n : ℕ} {src : List UInt8}

/-! ### Contents -/

lemma getElem?_bytes (s : Blk) (ip off n k : ℕ) :
    (s.bytes ip off n)[k]? = if k < n then some (s.byte ip (off + k)) else none := by
  unfold Blk.bytes
  rw [List.getElem?_map]
  split_ifs with hk
  · rw [List.getElem?_range hk, Option.map_some]
  · rw [List.getElem?_eq_none (by simpa using hk), Option.map_none]

lemma length_contents (s : Blk) (ip : ℕ) : (contents s ip).length = (s.dinode ip).size := by
  simp [contents, Blk.bytes]

lemma getElem?_contents (s : Blk) (ip k : ℕ) :
    (contents s ip)[k]? = if k < (s.dinode ip).size then some (s.byte ip k) else none := by
  rw [contents, getElem?_bytes, Nat.zero_add]

/-- Bytes of a file are a part of its contents. -/
lemma bytes_eq (s : Blk) (ip off n : ℕ) :
    s.bytes ip off (min n ((s.dinode ip).size - off)) = ((contents s ip).drop off).take n := by
  apply List.ext_getElem?
  intro k
  rw [getElem?_bytes, List.getElem?_take, List.getElem?_drop, getElem?_contents]
  split_ifs <;> first | rfl | omega

lemma readResult_eq (s : Blk) (ip off n : ℕ) :
    readResult s ip off n = readOf (contents s ip) off n := by
  unfold readResult readOf
  rw [length_contents, bytes_eq]

/-- The file that is written. -/
lemma contents_written (h : Written s ip off src s') (hoff : off ≤ (s.dinode ip).size) :
    contents s' ip = splice (contents s ip) off src := by
  obtain ⟨addrs, hself⟩ := h.self
  have hsize : (s'.dinode ip).size = max (s.dinode ip).size (off + src.length) := by rw [hself]
  apply List.ext_getElem?
  intro k
  rw [getElem?_splice (by rwa [length_contents]), getElem?_contents, getElem?_contents, hsize,
    h.byte]
  unfold overwrite
  by_cases hin : off ≤ k ∧ k < off + src.length
  · have hk : k - off < src.length := by omega
    rw [if_pos (by omega), if_pos ⟨rfl, hin⟩, if_pos hin, List.getElem?_eq_getElem hk]
    simp [hk]
  · have hbyte (x y : UInt8) : (if ip = ip ∧ off ≤ k ∧ k < off + src.length then x else y) = y :=
      if_neg fun hc => hin hc.2
    rw [if_neg hin, hbyte]
    split_ifs with hk hk' hk'
    · rfl
    · omega
    · omega
    · rfl

/-- The others. -/
lemma contents_written_other (h : Written s ip off src s') {j : ℕ} (hj : j ≠ ip) :
    contents s' j = contents s j := by
  obtain ⟨addrs, hd⟩ := h.inode j hj
  have hsize : (s'.dinode j).size = (s.dinode j).size := by rw [hd]
  apply List.ext_getElem?
  intro k
  have hbyte : s'.byte j k = s.byte j k := by
    rw [h.byte, overwrite, if_neg fun hc => hj hc.1]
  rw [getElem?_contents, getElem?_contents, hsize, hbyte]

lemma allocated_written (h : Written s ip off src s') {j : ℕ} (hj : s.Allocated j) :
    s'.Allocated j := by
  have htype : (s'.dinode j).type = (s.dinode j).type := by
    by_cases hji : j = ip
    · obtain ⟨addrs, hself⟩ := h.self
      rw [hji, hself]
    · obtain ⟨addrs, hd⟩ := h.inode j hji
      rw [hd]
  unfold Blk.Allocated at hj ⊢
  rwa [h.sb, htype]

/-! ### `writei` -/

/-- When `writei` returns `-1`. -/
lemma writei_checks (ip off : ℕ) (src : List UInt8) (s : Blk) :
    wp (Blk.writei ip off src)
      (fun r _ => r = if Writable s ip off src.length then some src.length else none)
      (fun _ => True) s := by
  unfold Blk.writei
  refine wp_bind (wp_get (wp_ite (fun hoff => wp_pure ?_) fun hoff =>
    wp_ite (fun hmax => wp_pure ?_) fun hmax => ?_))
  · rw [if_neg]
    rintro ⟨hle, hwrap, -⟩
    omega
  · rw [if_neg]
    rintro ⟨-, -, hle⟩
    omega
  · have hok : Writable s ip off src.length := ⟨by omega, by omega, by omega⟩
    rw [if_pos hok]
    refine wp_bind (wp_mono wp_any (fun last t _ => ?_) fun _ => id)
    refine wp_ite (fun _ => ?_) fun _ => ?_
    · refine wp_bind (wp_modify (wp_bind (wp_mono wp_any (fun _ _ _ => ?_) fun _ => id)))
      exact wp_pure rfl
    · exact wp_pure rfl

/-- A `writei` of a file that returns. -/
lemma writei_returns (hs : Sound s) (hheld : s.held = []) (hi : s.Allocated ip)
    (hfile : (s.dinode ip).type ≠ .dev) {r : Option ℕ} (hrun : writei ip off src s = .ok (r, s')) :
    r = (if Writable s ip off src.length then some src.length else none) ∧ Sound s' ∧
      s'.held = [] ∧ WriteResult s ip off src r s' := by
  unfold writei at hrun
  rw [run_bind (show (get : DiskM Blk Blk) s = .ok (s, s) from rfl)] at hrun
  rw [if_neg hfile] at hrun
  obtain ⟨hs', hres⟩ := wp_ok (writei_spec src hs hi) hrun
  have hr := wp_ok (writei_checks ip off src s) hrun
  have hheld' := wp_ok (holding_writei ip off src s hheld) hrun
  exact ⟨hr, hs', hheld', hres⟩

lemma writable_of_some
    (h : some n = if Writable s ip off src.length then some src.length else none) :
    n = src.length ∧ Writable s ip off src.length := by
  split_ifs at h with hok
  exact ⟨Option.some.inj h, hok⟩

/-- **Reading and writing files.** In a state in which the blocks are accounted for, a `writei` that
returns has checked what it is asked to write. If it returns the number of bytes, they have been
written over those of the file, or added to it, and `readi` returns what is then in the file; no
other file has changed. If it returns `-1` nothing has. A write to a device changes no file. -/
theorem file_write_law (h : Accounted s) (hlow : s.LowUsed) (hfits : s.sb.size < 2 ^ 32)
    (hheld : s.held = []) (hi : s.Allocated ip) {r : Option ℕ}
    (hrun : writei ip off src s = .ok (r, s')) :
    ((s.dinode ip).type = .dev → s' = s) ∧ ((s.dinode ip).type ≠ .dev →
      r = (if Writable s ip off src.length then some src.length else none) ∧ (∀ n, r = some n →
        (s'.dinode ip).size = max (s.dinode ip).size (off + n) ∧ (∀ off₂ n₂, readi ip off₂ n₂ s' =
          .ok (readOf (splice (contents s ip) off src) off₂ n₂, s')) ∧
        ∀ j, j ≠ ip → s.Allocated j → contents s' j = contents s j ∧
          ∀ off₂ n₂, readi j off₂ n₂ s' = .ok (readOf (contents s j) off₂ n₂, s')) ∧
      (r = none → s' = s)) := by
  have hs : Sound s := ⟨⟨h.exact, hlow, hfits⟩, h.mapped⟩
  refine ⟨fun hdev => ?_, fun hfile => ?_⟩
  · unfold writei at hrun
    rw [run_bind (show (get : DiskM Blk Blk) s = .ok (s, s) from rfl)] at hrun
    rw [if_pos hdev] at hrun
    split_ifs at hrun <;> exact (Prod.mk.inj (Except.ok.inj hrun)).2.symm
  · obtain ⟨hr, hs', hheld', hres⟩ := writei_returns hs hheld hi hfile hrun
    refine ⟨hr, fun n hn => ?_, fun hnone => ?_⟩
    · rw [hn] at hr hres
      obtain ⟨rfl, hok⟩ := writable_of_some hr
      obtain ⟨-, hw⟩ : _ ∧ Written s ip off src s' := hres
      obtain ⟨addrs, hself⟩ := hw.self
      refine ⟨by rw [hself], fun off₂ n₂ => ?_, fun j hj hjal =>
        ⟨contents_written_other hw hj, fun off₂ n₂ => ?_⟩⟩
      · have hal := allocated_written hw hi
        obtain ⟨_, _, hread, rfl, rfl⟩ := wp_total (hs'.readi off₂ n₂ hal hheld')
        rw [hread, readResult_eq, contents_written hw hok.1]
      · have hal := allocated_written hw hjal
        obtain ⟨_, _, hread, rfl, rfl⟩ := wp_total (hs'.readi off₂ n₂ hal hheld')
        rw [hread, readResult_eq, contents_written_other hw hj]
    · rw [hnone] at hres
      exact hres

/-- A write over the end of a file. -/
theorem file_write_law_over_end :
    ∃ s s' : Blk, Blk.writei 1 0 [1, 2, 3] (smallDisk (· < 4)) = .ok (some 3, s) ∧
      writei 1 2 [7, 8] s = .ok (some 2, s') ∧ readi 1 1 100 s' = .ok (some [2, 7, 8], s') := by
  have hdata (b : ℕ) (hb : (smallDisk (· < 4)).sb.Data b) : decide (b < 4) = false :=
    decide_eq_false (not_lt.mpr hb.1)
  have hsmall := accounted_smallDisk hdata
  have hlow : (smallDisk (· < 4)).LowUsed := fun b hb _ => decide_eq_true hb
  have hsound : Sound (smallDisk (· < 4)) := ⟨⟨hsmall.exact, hlow, by decide⟩, hsmall.mapped⟩
  have hrun : (Blk.writei 1 0 [1, 2, 3] (smallDisk (· < 4))).toOption.bind (fun r =>
      (writei 1 2 [7, 8] r.2).toOption.map fun r' =>
        (r.1, contents r.2 1, decide (r.2.Allocated 1 ∧ (r.2.dinode 1).type ≠ .dev ∧
          r.2.sb.size < 2 ^ 32), r'.1)) = some (some 3, [1, 2, 3], true, some 2) := by
    decide +kernel
  obtain ⟨⟨_, s⟩, hs, hv⟩ := Option.bind_eq_some_iff.mp hrun
  obtain ⟨⟨_, s'⟩, hs', hv⟩ := Option.map_eq_some_iff.mp hv
  simp only [Prod.mk.injEq, decide_eq_true_eq] at hv
  obtain ⟨rfl, hc, ⟨hal, hfile, hfits⟩, rfl⟩ := hv
  have hw := ok_of_toOption hs
  have hw' := ok_of_toOption hs'
  obtain ⟨hsound', -⟩ := wp_ok (writei_spec [1, 2, 3] hsound (by decide)) hw
  have hheld := wp_ok (holding_writei 1 0 [1, 2, 3] (smallDisk (· < 4)) rfl) hw
  have hlaw := (file_write_law ⟨hsound'.booked.exact, hsound'.mapped⟩ hsound'.booked.low hfits hheld
    hal hw').2 hfile
  refine ⟨s, s', hw, hw', ?_⟩
  rw [(hlaw.2.1 2 rfl).2.1, hc]
  rfl

/-- A disk whose only inode is the console. -/
def consoleDisk : Blk where
  sb := ⟨6, 2, 2, 3⟩
  used b := b < 4
  dinode i := if i = 1 then { Dinode.new .dev with major := CONSOLE } else .new .free
  block _ _ := 0
  held := []

/-- A write to the console returns the number of bytes, and the size stays as it is. -/
theorem file_write_law_console :
    (Accounted consoleDisk ∧ consoleDisk.LowUsed ∧ consoleDisk.sb.size < 2 ^ 32 ∧
      consoleDisk.held = [] ∧ consoleDisk.Allocated 1) ∧
    ∃ s' : Blk, writei 1 0 [104, 105] consoleDisk = .ok (some 2, s') ∧
      (s'.dinode 1).size ≠ max (consoleDisk.dinode 1).size (0 + 2) := by
  have hempty : Accounted consoleDisk := by
    refine accounted_of_empty (fun i k => ?_) (fun i => ?_) fun b hb =>
      decide_eq_false (not_lt.mpr hb.1) <;>
    · simp only [consoleDisk]
      split_ifs <;> rfl
  exact ⟨⟨hempty, fun b hb _ => decide_eq_true hb, by decide, rfl, by decide⟩, consoleDisk, rfl,
    by decide⟩

end Xv6.FileData
