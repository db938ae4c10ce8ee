import Xv6.MkfsMain

/-!
The root directory of an image as the kernel reads it, and what `fs.c` relies on: inode numbers in
range, every block named once and marked in the bitmap, files with all their blocks, and link counts
that are numbers of entries. The size of the root directory is rounded up to the next multiple of
the block size even if it is one already; then its last block is not there.
-/

namespace Xv6.Mkfs

open Xv6.Lib.Bytes Xv6.Lib.Memory
open Xv6.Fs (BSIZE DIRSIZ DIRENT FSSIZE ROOTINO BPB Blk Dirent Slot fileSlot Name slash dot dotdot)

/-! ### Entries -/

/-- Entry `k` of the root directory. -/
def rootEntry (m : Blk) (k : ℕ) : Dirent := Fs.decode (m.bytes ROOTINO (k * DIRENT) DIRENT)

/-- The number of entries other than `.` that name inode `i`. -/
def links (m : Blk) (i : ℕ) : ℕ :=
  ((Fs.slots (m.dinode ROOTINO)).map (rootEntry m)).countP fun e => e.inum = i ∧ e.name ≠ dot

section Entries

variable {files : List HostFile} {st : St} {e : Dirent} {k i : ℕ} {name : Name}

lemma takeWhile_replicate_zero (n : ℕ) : (List.replicate n (0 : UInt8)).takeWhile (· ≠ 0) = [] := by
  cases n with
  | zero => rfl
  | succ n => rfl

/-- The kernel reads what `mkfs` writes, with the name cut off at `DIRSIZ`. -/
lemma decode_dirent (hk : k < 2 ^ 16) (hname : 0 ∉ name) :
    Fs.decode (dirent k name) = ⟨k, name.take DIRSIZ⟩ := by
  have hlen : (name.take DIRSIZ ++ List.replicate (DIRSIZ - name.length) 0).length = DIRSIZ := by
    rw [List.length_append, List.length_take, List.length_replicate]
    omega
  have hpos : ∀ b ∈ name.take DIRSIZ, decide (b ≠ 0) = true := fun b hb =>
    decide_eq_true fun h => hname (h ▸ List.mem_of_mem_take hb)
  have hinum : (UInt8.ofNat k).toNat + 2 ^ 8 * (UInt8.ofNat (k / 256)).toNat = k := by
    simp only [UInt8.toNat_ofNat']
    omega
  have hbytes : dirent k name = UInt8.ofNat k :: UInt8.ofNat (k / 256) ::
    (name.take DIRSIZ ++ List.replicate (DIRSIZ - name.length) 0) := rfl
  rw [hbytes, Fs.decode]
  simp only [List.getD_cons_zero, List.getD_cons_succ, List.drop_succ_cons, List.drop_zero]
  rw [hinum, List.take_of_length_le hlen.le, List.takeWhile_append_of_pos hpos,
    takeWhile_replicate_zero, List.append_nil]

lemma nul_stored (f : HostFile) : 0 ∉ f.stored := by
  unfold HostFile.stored
  split_ifs
  · exact fun h => f.nul (List.mem_of_mem_drop h)
  · exact f.nul

lemma mem_rootDirents (h : e ∈ rootDirents files) : e.inum < files.length + 2 ∧ 0 ∉ e.name := by
  unfold rootDirents at h
  rcases List.mem_append.mp h with h | h
  · simp only [List.mem_cons, List.not_mem_nil, or_false] at h
    rcases h with rfl | rfl
    · exact ⟨Nat.lt_add_left _ (by decide), by decide⟩
    · exact ⟨Nat.lt_add_left _ (by decide), by decide⟩
  · obtain ⟨⟨f, j⟩, hf, rfl⟩ := List.mem_map.mp h
    have := (List.mem_zipIdx hf).2.1
    exact ⟨by dsimp only; omega, nul_stored f⟩

/-- An entry as the kernel reads it. -/
def cut (e : Dirent) : Dirent := ⟨e.inum, e.name.take DIRSIZ⟩

lemma root_byte (h : Made files st) (k : ℕ) :
    (mount st.img).byte ROOTINO k = (rootBytes files).getD k 0 := by
  rw [← Fs.byte_setSize _ ROOTINO (rootBytes files).length]
  exact (h.holds.file 0 _ rfl).1.byte k

lemma Made.count (h : Made files st) : files.length + 1 < NINODES := by
  have := h.holds.count
  rwa [length_layout] at this

/-- Behind the entries that were written there is nothing. -/
lemma rootEntry_eq (h : Made files st) (k : ℕ) :
    rootEntry (mount st.img) k = (((rootDirents files).map cut)[k]?).getD ⟨0, []⟩ := by
  have hbyte (j : ℕ) (hj : j < DIRENT) : (mount st.img).byte ROOTINO (k * DIRENT + j) =
      ((rootDirents files)[k]?.bind fun e => (dirent e.inum e.name)[j]?).getD 0 := by
    rw [root_byte h, List.getD_eq_getElem?_getD, rootBytes,
      getElem?_flatMap (fun e : Dirent => length_dirent e.inum e.name) _ _ hj]
  unfold rootEntry
  rw [List.getElem?_map]
  cases he : (rootDirents files)[k]? with
  | none =>
    have hbytes : (mount st.img).bytes ROOTINO (k * DIRENT) DIRENT = List.replicate DIRENT 0 := by
      refine List.eq_replicate_iff.mpr ⟨by simp [Fs.Blk.bytes], fun b hb => ?_⟩
      obtain ⟨j, hj, rfl⟩ := List.mem_map.mp hb
      rw [hbyte j (List.mem_range.mp hj), he]
      rfl
    rw [hbytes]
    decide
  | some e =>
    have hmem := mem_rootDirents (List.mem_of_getElem? he)
    have hbytes : (mount st.img).bytes ROOTINO (k * DIRENT) DIRENT = dirent e.inum e.name := by
      refine List.ext_getElem (by simp [Fs.Blk.bytes, length_dirent]) fun j h1 h2 => ?_
      have hj : j < DIRENT := by rwa [length_dirent] at h2
      simp only [Fs.Blk.bytes, List.getElem_map, List.getElem_range]
      rw [hbyte j hj, he]
      simp [h2]
    have hcount := h.count
    have hsmall : e.inum < 2 ^ 16 := by
      simp only [show NINODES = 200 from rfl] at hcount
      omega
    rw [hbytes, decode_dirent hsmall hmem.2]
    rfl

end Entries

/-! ### Link counts -/

section Links

variable {files : List HostFile} {st : St} {i : ℕ}

lemma map_range_getD {α : Type*} (l : List α) (d : α) {n : ℕ} (h : l.length ≤ n) :
    ((List.range n).map fun k => (l[k]?).getD d) = l ++ List.replicate (n - l.length) d := by
  refine List.ext_getElem (by simp; omega) fun k h1 _ => ?_
  rw [List.getElem_map, List.getElem_range]
  by_cases hk : k < l.length
  · rw [List.getElem_append_left hk, List.getElem?_eq_getElem hk]
    rfl
  · rw [List.getElem_append_right (not_lt.mp hk), List.getElem_replicate,
      List.getElem?_eq_none (not_lt.mp hk)]
    rfl

/-- The entries of the files are numbered from `k` on. -/
lemma count_stored (hdot : ∀ f ∈ files, f.stored ≠ dot) (k : ℕ) :
    (((files.zipIdx k).map fun f => cut ⟨f.2, f.1.stored⟩).countP fun e =>
      e.inum = i ∧ e.name ≠ dot) = if k ≤ i ∧ i < k + files.length then 1 else 0 := by
  induction files generalizing k with
  | nil => simp [show ¬ (k ≤ i ∧ i < k) by omega]
  | cons f files ih =>
    have hcut : f.stored.take DIRSIZ ≠ dot := by
      intro h
      have hlen := congrArg List.length h
      rw [List.length_take] at hlen
      have : f.stored.length ≤ DIRSIZ := by
        simp only [show dot.length = 1 from rfl, show DIRSIZ = 14 from rfl] at *
        omega
      rw [List.take_of_length_le this] at h
      exact hdot f List.mem_cons_self h
    have hthis : (cut ⟨k, f.stored⟩).inum = i ∧ (cut ⟨k, f.stored⟩).name ≠ dot ↔ k = i :=
      ⟨fun h => h.1, fun h => ⟨h, hcut⟩⟩
    rw [List.zipIdx_cons, List.map_cons, List.countP_cons,
      ih (fun g hg => hdot g (List.mem_cons_of_mem f hg)), List.length_cons]
    simp only [hthis, decide_eq_true_eq]
    split_ifs <;> omega

lemma links_eq (h : Made files st) (hdot : ∀ f ∈ files, f.stored ≠ dot) (hi : 0 < i) :
    links (mount st.img) i = if i < files.length + 2 then 1 else 0 := by
  have hlen : ((rootDirents files).map cut).length = files.length + 2 := by
    rw [List.length_map, length_rootDirents]
  have hslots : files.length + 2 ≤
      (((mount st.img).dinode ROOTINO).size + DIRENT - 1) / DIRENT := by
    rw [h.size, length_rootBytes, roundUp]
    simp only [show DIRENT = 16 from rfl, show BSIZE = 512 from rfl]
    omega
  obtain ⟨n, hentries⟩ : ∃ n, (Fs.slots ((mount st.img).dinode ROOTINO)).map
      (rootEntry (mount st.img)) = (rootDirents files).map cut ++ List.replicate n ⟨0, []⟩ := by
    have hcongr := List.map_congr_left fun k (_ : k ∈ Fs.slots ((mount st.img).dinode ROOTINO)) =>
      rootEntry_eq h k
    exact ⟨_, hcongr.trans (map_range_getD _ _ (hlen.trans_le hslots))⟩
  unfold links
  rw [hentries, rootDirents, List.map_append, List.map_map, List.countP_append, List.countP_append,
    List.countP_replicate, if_neg (by simp [hi.ne])]
  have hfiles := count_stored (i := i) hdot 2
  change _ + List.countP _ ((files.zipIdx 2).map fun f => cut ⟨f.2, f.1.stored⟩) + _ = _
  rw [hfiles]
  have hdots : ([⟨ROOTINO, dot⟩, ⟨ROOTINO, dotdot⟩].map cut).countP
      (fun e => e.inum = i ∧ e.name ≠ dot) = if 1 = i then 1 else 0 := by
    have hone : cut ⟨ROOTINO, dot⟩ = ⟨1, dot⟩ := rfl
    have htwo : cut ⟨ROOTINO, dotdot⟩ = ⟨1, dotdot⟩ := rfl
    have hne : dotdot ≠ dot := by decide
    simp [hone, htwo, hne, List.countP_cons]
  rw [hdots]
  split_ifs <;> omega

end Links

/-! ### A well-formed image -/

/-- The inodes below `freeinode` are in use. -/
structure WellFormed (st : St) : Prop where
  inum : ∀ i, 0 < i → i < st.freeinode → i < (mount st.img).sb.ninodes
  used : ∀ i, (mount st.img).Allocated i ↔ 0 < i ∧ i < st.freeinode
  block : ∀ p b, (mount st.img).named p = some b → nmeta ≤ b ∧ b < FSSIZE
  once : ∀ p q b, (mount st.img).named p = some b → (mount st.img).named q = some b → p = q
  bitmap : ∀ b, b < BPB → ((mount st.img).used b = true ↔ b < st.freeblock)
  mapped : ∀ i, 0 < i → i < st.freeinode →
    ∀ bn, bn < (((mount st.img).dinode i).size + BSIZE - 1) / BSIZE →
      (mount st.img).named (i, fileSlot bn) ≠ none
  dirs : ∀ i, (mount st.img).Allocated i → ((mount st.img).dinode i).type = .dir → i = ROOTINO
  nlink : ∀ i, 0 < i → i < st.freeinode →
    ((mount st.img).dinode i).nlink = links (mount st.img) i
  sound : Fs.Sound (mount st.img)

section WellFormed

variable {files : List HostFile} {st : St} {i : ℕ}

/-- Apart from the size of the root directory the disk has the files. -/
lemma Made.inode (h : Made files st) (hi : 0 < i) (hlt : i < st.freeinode) :
    ∃ f, (layout files)[i - 1]? = some f ∧ f.type ≠ .free ∧
      ((mount st.img).dinode i).type = f.type ∧ ((mount st.img).dinode i).nlink = 1 ∧
      ((mount st.img).dinode i).size =
        if i = ROOTINO then roundUp f.bytes.length else f.bytes.length := by
  rw [h.freeinode] at hlt
  obtain ⟨f, hf⟩ : ∃ f, (layout files)[i - 1]? = some f :=
    ⟨_, List.getElem?_eq_getElem (by rw [length_layout]; omega)⟩
  obtain ⟨hfile, hft⟩ := h.holds.file (i - 1) f hf
  rw [Nat.sub_add_cancel hi] at hfile
  refine ⟨f, hf, hft, ?_⟩
  by_cases hroot : i = ROOTINO
  · subst hroot
    cases hf
    have htype := hfile.type
    have hnlink := hfile.nlink
    rw [Fs.Blk.setSize, Fs.dinode_setDinode_self] at htype hnlink
    dsimp only at htype hnlink
    exact ⟨htype, hnlink, by rw [if_pos rfl, h.size]⟩
  · have hd : ((mount st.img).setSize ROOTINO (rootBytes files).length).dinode i =
        (mount st.img).dinode i := Fs.dinode_setDinode_other hroot
    rw [← hd, if_neg hroot]
    exact ⟨hfile.type, hfile.nlink, hfile.size⟩

lemma Made.sb (h : Made files st) : (mount st.img).sb = super := h.holds.sb

lemma Made.allocated (h : Made files st) :
    (mount st.img).Allocated i ↔ 0 < i ∧ i < st.freeinode := by
  constructor
  · rintro ⟨hlt, htype⟩
    rw [h.sb] at hlt
    by_contra hout
    have hout : i = 0 ∨ (layout files).length < i := by
      rw [length_layout]
      have := h.freeinode
      omega
    refine htype ?_
    have hfree := h.holds.free i hlt hout
    by_cases hroot : i = ROOTINO
    · subst hroot
      rwa [Fs.Blk.setSize, Fs.dinode_setDinode_self] at hfree
    · rwa [Fs.Blk.setSize, Fs.dinode_setDinode_other hroot] at hfree
  · rintro ⟨hi, hlt⟩
    obtain ⟨f, -, hft, htype, -⟩ := h.inode hi hlt
    refine ⟨?_, by rwa [htype]⟩
    rw [h.sb]
    have := h.count
    have := h.freeinode
    change i < NINODES
    omega

lemma Made.booked (h : Made files st) : (mount st.img).Booked := by
  have hb := h.holds.sound.booked
  unfold Fs.Blk.Booked at hb
  rwa [Fs.named_setSize] at hb

/-- What was written has its blocks. -/
lemma Made.written (h : Made files st) (hi : 0 < i) {f : File}
    (hf : (layout files)[i - 1]? = some f) {bn : ℕ} (hbn : bn * BSIZE < f.bytes.length) :
    (mount st.img).named (i, fileSlot bn) ≠ none := by
  have hal := h.holds.allocated hf
  have hsize := (h.holds.file (i - 1) f hf).1.size
  rw [Nat.sub_add_cancel hi] at hal hsize
  rw [← Fs.named_setSize _ ROOTINO (rootBytes files).length]
  exact h.holds.sound.mapped i hal bn (by rwa [hsize])

/-- Nothing else has. -/
lemma Made.unwritten (h : Made files st) (hi : 0 < i) {f : File}
    (hf : (layout files)[i - 1]? = some f) {bn : ℕ} (hbn : f.bytes.length ≤ bn * BSIZE) :
    (mount st.img).named (i, fileSlot bn) = none := by
  have htight := (h.holds.file (i - 1) f hf).1.tight bn hbn
  rwa [Nat.sub_add_cancel hi, Fs.named_setSize] at htight

/-- The root directory has all its blocks unless its entries fill them. -/
lemma Made.mapped (h : Made files st) (hround : (files.length + 2) % 32 ≠ 0) (hi : 0 < i)
    (hlt : i < st.freeinode) {bn : ℕ} (hbn : bn * BSIZE < ((mount st.img).dinode i).size) :
    (mount st.img).named (i, fileSlot bn) ≠ none := by
  obtain ⟨f, hf, -, -, -, hsize⟩ := h.inode hi hlt
  refine h.written hi hf ?_
  rw [hsize] at hbn
  split_ifs at hbn with hroot
  · subst hroot
    cases hf
    unfold roundUp at hbn
    dsimp only at hbn ⊢
    rw [length_rootBytes] at hbn ⊢
    simp only [show BSIZE = 512 from rfl, show DIRENT = 16 from rfl] at *
    omega
  · exact hbn

/-- A file `_a` of three bytes. -/
def threeBytes : HostFile := ⟨[95, 97], [[1, 2, 3]], by decide, by decide⟩

lemma mkfs_threeBytes : ∃ st, mkfs [threeBytes] = .ok st := by
  refine mkfs_ok (by decide) ⟨fun f hf => ?_, by decide⟩
  obtain rfl := List.mem_singleton.mp hf
  decide

/-- Thirty empty files: with `.` and `..` their entries fill a block. -/
def thirty : List HostFile :=
  (List.finRange 30).map fun k : Fin 30 =>
    ⟨[UInt8.ofNat (65 + k.val)], [], by revert k; decide, nofun⟩

lemma fits_thirty : Fits (nmeta + 8) thirty := by
  refine ⟨fun f hf => ?_, by decide +kernel⟩
  have hname (k : Fin 30) : slash ∉ [UInt8.ofNat (65 + k.val)] := by
    revert k
    decide
  obtain ⟨k, -, rfl⟩ := List.mem_map.mp hf
  exact ⟨hname k, Nat.zero_le _⟩

end WellFormed

end Xv6.Mkfs
