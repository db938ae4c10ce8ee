import Xv6.BlockAlloc
import Xv6.MkfsAppend

/-!
The files that `mkfs` has made so far. The inodes from 1 on are a list of types and contents:
`ialloc` adds an empty file to it, `iappend` adds bytes to one of them, and nothing else changes.
-/

namespace Xv6.Mkfs

open Xv6.Lib.Bytes Xv6.Lib.Memory Xv6.Lib.Wp
open Xv6.Fs (BSIZE NDIRECT MAXFILE FSSIZE ROOTINO Blk Dinode InodeType Slot fileSlot Name slash dot
  dotdot)

structure File where
  type : InodeType
  bytes : List UInt8

/-- Inode `i` is the file `f`; there is nothing behind its end. -/
structure HasFile (s : Blk) (i : ℕ) (f : File) : Prop where
  type : (s.dinode i).type = f.type
  nlink : (s.dinode i).nlink = 1
  size : (s.dinode i).size = f.bytes.length
  byte : ∀ k, s.byte i k = f.bytes.getD k 0
  tight : ∀ bn, f.bytes.length ≤ bn * BSIZE → s.named (i, fileSlot bn) = none

/-- The files of the disk. -/
structure Holds (s : Blk) (fs : List File) : Prop where
  sound : Fs.Sound s
  sb : s.sb = super
  count : fs.length < NINODES
  file : ∀ i f, fs[i]? = some f → HasFile s (i + 1) f ∧ f.type ≠ .free
  free : ∀ i, i < NINODES → i = 0 ∨ fs.length < i → (s.dinode i).type = .free

section Holds

variable {s s' : Blk} {fs : List File} {f : File} {i : ℕ} {t : InodeType} {p : List UInt8}

lemma Holds.allocated (h : Holds s fs) (hf : fs[i]? = some f) : s.Allocated (i + 1) := by
  obtain ⟨hlt, -⟩ := List.getElem?_eq_some_iff.mp hf
  obtain ⟨hfile, hfree⟩ := h.file i f hf
  refine ⟨?_, by rwa [hfile.type]⟩
  rw [h.sb]
  exact lt_of_le_of_lt hlt h.count

/-- A new file is empty. -/
lemma Holds.alloc (h : Holds s fs) (hroom : fs.length + 1 < NINODES) (ht : t ≠ .free) :
    Holds (s.setDinode (fs.length + 1) (linkedDinode t)) (fs ++ [⟨t, []⟩]) := by
  set ip := fs.length + 1 with hip
  have hfree : (s.dinode ip).type = .free := h.free ip hroom (.inr (Nat.lt_succ_self _))
  have hnone (c : Slot) : s.named (ip, c) = none := Fs.named_free (fun ha => ha.2 hfree) c
  have hnew (c : Slot) : (s.setDinode ip (linkedDinode t)).named (ip, c) = none := by
    refine Fs.named_empty (fun k => ?_) c
    rw [Fs.dinode_setDinode_self]
    rfl
  have hnamed (j : ℕ) (c : Slot) :
      (s.setDinode ip (linkedDinode t)).named (j, c) = s.named (j, c) := by
    by_cases hj : j = ip
    · rw [hj, hnew, hnone]
    · exact Fs.named_setDinode_other hj c
  have hbyte (j k : ℕ) : (s.setDinode ip (linkedDinode t)).byte j k = s.byte j k :=
    Fs.byte_congr (fun bn => hnamed j _) fun _ _ _ => rfl
  refine ⟨.setDinode h.sound.booked (fun j _ => h.sound.mapped j) hnone hnew rfl, h.sb,
    by simpa using hroom, fun i f hf => ?_, fun i hi hout => ?_⟩
  · by_cases hlt : i < fs.length
    · rw [List.getElem?_append_left hlt] at hf
      obtain ⟨hfile, hft⟩ := h.file i f hf
      have hd : (s.setDinode ip (linkedDinode t)).dinode (i + 1) = s.dinode (i + 1) :=
        Fs.dinode_setDinode_other (by omega)
      refine ⟨⟨?_, ?_, ?_, fun k => ?_, fun bn hbn => ?_⟩, hft⟩
      · rw [hd, hfile.type]
      · rw [hd, hfile.nlink]
      · rw [hd, hfile.size]
      · rw [hbyte, hfile.byte]
      · rw [hnamed, hfile.tight bn hbn]
    · rw [List.getElem?_append_right (not_lt.mp hlt), List.getElem?_singleton] at hf
      split_ifs at hf with h0
      cases hf
      obtain rfl : i = fs.length := by omega
      refine ⟨⟨?_, ?_, ?_, fun k => ?_, fun bn _ => hnew _⟩, ht⟩
      · rw [← hip, Fs.dinode_setDinode_self]
        rfl
      · rw [← hip, Fs.dinode_setDinode_self]
        rfl
      · rw [← hip, Fs.dinode_setDinode_self]
        rfl
      · exact Fs.byte_of_none (hnew _)
  · rw [List.length_append, List.length_singleton] at hout
    rw [Fs.dinode_setDinode_other (by omega)]
    exact h.free i hi (by omega)

/-- Bytes are written at the end of a file. -/
lemma Holds.append (h : Holds s fs) (hf : fs[i]? = some f)
    (hw : Fs.Written s (i + 1) f.bytes.length p s') (hs : Fs.Sound s') :
    Holds s' (fs.set i { f with bytes := f.bytes ++ p }) := by
  obtain ⟨hlt, -⟩ := List.getElem?_eq_some_iff.mp hf
  obtain ⟨hfile, hft⟩ := h.file i f hf
  have htype (j : ℕ) : (s'.dinode j).type = (s.dinode j).type := by
    by_cases hj : j = i + 1
    · obtain ⟨addrs, hd⟩ := hw.self
      rw [hj, hd]
    · obtain ⟨addrs, hd⟩ := hw.inode j hj
      rw [hd]
  refine ⟨hs, hw.sb.trans h.sb, by simpa using h.count, fun j g hg => ?_, fun j hj hout => ?_⟩
  · by_cases hji : j = i
    · subst hji
      rw [List.getElem?_set_self hlt] at hg
      cases hg
      obtain ⟨addrs, hd⟩ := hw.self
      refine ⟨⟨by rw [htype, hfile.type], by rw [hd, hfile.nlink], ?_, fun k => ?_,
        fun bn hbn => ?_⟩, hft⟩
      · rw [hd, List.length_append]
        dsimp only
        rw [hfile.size]
        omega
      · rw [hw.byte, Fs.overwrite]
        dsimp only
        split_ifs with hk
        · rw [List.getD_eq_getElem?_getD, List.getD_eq_getElem?_getD,
            List.getElem?_append_right hk.2.1]
        · rw [hfile.byte, List.getD_eq_getElem?_getD, List.getD_eq_getElem?_getD]
          by_cases hkl : k < f.bytes.length
          · rw [List.getElem?_append_left hkl]
          · rw [List.getElem?_eq_none (not_lt.mp hkl), List.getElem?_eq_none]
            rw [List.length_append]
            by_contra hc
            exact hk ⟨rfl, by omega, by omega⟩
      · rw [List.length_append] at hbn
        rw [hw.named, hfile.tight bn (by omega)]
        rintro (hp | ⟨bn', -, hlt', hp⟩)
        · exact Fs.fileSlot_ne bn (Prod.mk.inj hp).2
        · obtain rfl := Fs.fileSlot_inj (Prod.mk.inj hp).2
          omega
    · rw [List.getElem?_set_ne (Ne.symm hji)] at hg
      obtain ⟨hfile', hgt⟩ := h.file j g hg
      obtain ⟨addrs, hd⟩ := hw.inode (j + 1) (by omega)
      refine ⟨⟨by rw [htype, hfile'.type], by rw [hd, hfile'.nlink], by rw [hd, hfile'.size],
        fun k => ?_, fun bn hbn => ?_⟩, hgt⟩
      · rw [hw.byte, Fs.overwrite, if_neg (by omega), hfile'.byte]
      · rw [hw.named, hfile'.tight bn hbn]
        rintro (hp | ⟨_, -, -, hp⟩)
        · exact absurd (Prod.mk.inj hp).1 (by omega)
        · exact absurd (Prod.mk.inj hp).1 (by omega)
  · rw [htype]
    rw [List.length_set] at hout
    exact h.free j hj hout

end Holds

/-! ### The image during `main` -/

/-- The image has the files `fs`. -/
structure Built (st : St) (fs : List File) : Prop where
  sb : superOf st.img = super
  freeinode : st.freeinode = fs.length + 1
  disk : ∃ s, Mirror (inodeOf st.img) st s ∧ s.held = [] ∧ Holds s fs

lemma superOf_congr {img img' : Mem} (h : ∀ x, x < inodestart * BSIZE → img' x = img x) :
    superOf img' = superOf img := by
  have hnum (a : ℕ) (ha : a + 4 ≤ inodestart * BSIZE) : num img' a 4 = num img a 4 :=
    num_congr fun x _ hx => h x (by omega)
  unfold superOf
  rw [hnum _ (by decide), hnum _ (by decide), hnum _ (by decide), hnum _ (by decide)]

section Steps

variable {st : St} {fs : List File} {f : File} {i : ℕ}

lemma ialloc_built {type : ℕ} (hb : Built st fs) (hroom : fs.length + 1 < NINODES)
    (ht : typeOf type ≠ .free) (hlt : type < 2 ^ 16) :
    wp (ialloc type) (fun inum st' => inum = fs.length + 1 ∧ st'.freeblock = st.freeblock ∧
      Built st' (fs ++ [⟨typeOf type, []⟩])) (fun _ => False) st := by
  obtain ⟨s, hm, hheld, hh⟩ := hb.disk
  unfold ialloc
  refine wp_bind (wp_get (wp_bind (wp_modify ?_)))
  rw [hb.freeinode]
  refine wp_bind (wp_winode hm.len hroom (wp_pure ⟨rfl, rfl, ?_, ?_, ?_⟩))
  · exact (superOf_congr fun x hx => put_of_lt (by unfold inodeAt; omega)).trans hb.sb
  · rw [List.length_append]
    rfl
  · have hm' := hm.setDinode (fs.length + 1) (newInode type)
    rw [dinodeOf_newInode hlt] at hm'
    have hw := hm'.winode hroom (Function.update_self ..) fun j _ hj => by
      rw [Function.update_of_ne hj]
    exact ⟨_, ⟨hw.sb, hw.used, hw.dinode, hw.block, hw.clear, hw.len, hw.low, hw.room⟩, hheld,
      hh.alloc hroom ht⟩

lemma turns_le (off : ℕ) {n : ℕ} (hn : n ≤ BSIZE) : turns off n ≤ 2 := by
  unfold turns
  simp only [show BSIZE = 512 from rfl] at *
  split_ifs <;> omega

lemma iappend_built {p : List UInt8} (hb : Built st fs) (hf : fs[i]? = some f) (hp : 0 < p.length)
    (hle : p.length ≤ BSIZE) :
    wp (iappend (i + 1) p) (fun _ st' => Built st' (fs.set i { f with bytes := f.bytes ++ p }) ∧
      st'.freeblock ≤ st.freeblock + 4)
      (fun _ => MAXFILE * BSIZE < f.bytes.length + p.length ∨ FSSIZE < st.freeblock + 4) st := by
  obtain ⟨s, hm, hheld, hh⟩ := hb.disk
  obtain ⟨hlt, -⟩ := List.getElem?_eq_some_iff.mp hf
  have hal := hh.allocated hf
  have hi : i + 1 < NINODES := lt_of_le_of_lt hlt hh.count
  have hsize := (hh.file i f hf).1.size
  have hturns := turns_le f.bytes.length hle
  refine wp_mono (iappend_sim hm hh.sound hal hi hheld hp) ?_ fun _ h => ?_
  · rintro _ st' ⟨himg, hfi, hfb, hsim⟩
    rw [hsize] at hfb hsim
    obtain ⟨_, s', hrun, ⟨rfl, hheld', hm'⟩, hs', -, hw⟩ := wp_total
      (wp_mono (wp_and hsim (Fs.writei_spec p hh.sound hal)) (fun _ _ => id) fun _ h => h.1.elim)
    refine ⟨⟨(superOf_congr himg).trans hb.sb, ?_, s', hm', hheld', hh.append hf hw hs'⟩, by omega⟩
    rw [hfi, hb.freeinode, List.length_set]
  · rw [hsize] at h
    exact h.imp_right fun h => by omega

/-- The bytes that `read` returns one after the other. -/
lemma copyReads_built (cs : List (List UInt8)) (hb : Built st fs) (hf : fs[i]? = some f)
    (hcs : ∀ c ∈ cs, 0 < c.length ∧ c.length ≤ BSIZE) :
    wp (copyReads (i + 1) cs) (fun _ st' =>
      Built st' (fs.set i { f with bytes := f.bytes ++ cs.flatten }) ∧
      st'.freeblock ≤ st.freeblock + 4 * cs.length)
      (fun _ => MAXFILE * BSIZE < f.bytes.length + cs.flatten.length ∨
        FSSIZE < st.freeblock + 4 * cs.length) st := by
  induction cs generalizing st fs f with
  | nil =>
    refine wp_pure ⟨?_, le_rfl⟩
    rw [List.flatten_nil, List.append_nil]
    obtain ⟨hlt, rfl⟩ := List.getElem?_eq_some_iff.mp hf
    rwa [List.set_getElem_self]
  | cons c cs ih =>
    obtain ⟨hlt, -⟩ := List.getElem?_eq_some_iff.mp hf
    obtain ⟨hc, hle⟩ := hcs c List.mem_cons_self
    unfold copyReads
    rw [List.flatten_cons, List.length_append, List.length_cons]
    refine wp_bind (wp_mono (iappend_built hb hf hc hle) ?_ fun _ h => by omega)
    rintro _ st₁ ⟨hb₁, hfb⟩
    have hih := ih hb₁ (List.getElem?_set_self hlt) fun c hc => hcs c (List.mem_cons_of_mem _ hc)
    rw [List.set_set, List.append_assoc, List.length_append] at hih
    exact wp_mono hih (fun _ st₂ h => ⟨h.1, by omega⟩) fun _ h => by omega

end Steps

/-! ### The files of the host -/

/-- The entries of the root directory. -/
def rootDirents (files : List HostFile) : List Fs.Dirent :=
  [⟨ROOTINO, dot⟩, ⟨ROOTINO, dotdot⟩] ++ (files.zipIdx 2).map fun f => ⟨f.2, f.1.stored⟩

def rootBytes (files : List HostFile) : List UInt8 :=
  (rootDirents files).flatMap fun e => dirent e.inum e.name

/-- What `mkfs` makes of the files. -/
def layout (files : List HostFile) : List File :=
  ⟨.dir, rootBytes files⟩ :: files.map fun f => ⟨.file, f.contents⟩

/-- The entry of `f` is there, its contents are not. -/
def entered (files : List HostFile) (f : HostFile) : List File :=
  ⟨.dir, rootBytes (files ++ [f])⟩ :: files.map (fun f => ⟨.file, f.contents⟩) ++ [⟨.file, []⟩]

/-- The blocks that a file takes are not more than this, the one of its entry included. -/
def HostFile.cost (f : HostFile) : ℕ := 4 + 4 * f.reads.length

/-- Enough room, from block `fb` on. -/
structure Fits (fb : ℕ) (files : List HostFile) : Prop where
  file : ∀ f ∈ files, slash ∉ f.name ∧ f.contents.length ≤ MAXFILE * BSIZE
  blocks : fb + (files.map HostFile.cost).sum ≤ FSSIZE

section Copy

variable {st : St} {files : List HostFile} {f : HostFile}

lemma length_dirent (inum : ℕ) (name : Name) : (dirent inum name).length = Fs.DIRENT := by
  unfold dirent
  rw [List.length_append, List.length_append, length_leBytes, List.length_take,
    List.length_replicate]
  simp only [show Fs.DIRSIZ = 14 from rfl, show Fs.DIRENT = 16 from rfl]
  omega

lemma length_rootDirents (files : List HostFile) :
    (rootDirents files).length = files.length + 2 := by
  unfold rootDirents
  rw [List.length_append, List.length_map, List.length_zipIdx, Nat.add_comm]
  rfl

lemma length_rootBytes (files : List HostFile) :
    (rootBytes files).length = (files.length + 2) * Fs.DIRENT := by
  unfold rootBytes
  rw [List.length_flatMap]
  simp only [length_dirent]
  rw [List.map_const', List.sum_replicate_nat, length_rootDirents]

lemma rootBytes_append (files : List HostFile) (f : HostFile) :
    rootBytes (files ++ [f]) = rootBytes files ++ dirent (files.length + 2) f.stored := by
  unfold rootBytes rootDirents
  rw [List.zipIdx_append, List.map_append, ← List.append_assoc, List.flatMap_append]
  simp [Nat.add_comm]

lemma length_layout (files : List HostFile) : (layout files).length = files.length + 1 := by
  simp [layout]

lemma getElem?_entered (files : List HostFile) (f : HostFile) :
    (entered files f)[(layout files).length]? = some ⟨.file, []⟩ := by
  unfold entered
  rw [length_layout, List.getElem?_append_right (by simp)]
  simp

lemma set_entered (files : List HostFile) (f : HostFile) :
    (entered files f).set (layout files).length ⟨.file, f.contents⟩ = layout (files ++ [f]) := by
  unfold entered
  rw [length_layout, List.set_append_right _ _ (by simp)]
  simp [layout]

lemma copyFile_built (hb : Built st (layout files)) (hroom : files.length + 2 < NINODES) :
    wp (copyFile ROOTINO f) (fun _ st' => Built st' (layout (files ++ [f])) ∧
      st'.freeblock ≤ st.freeblock + f.cost)
      (fun _ => ¬ (slash ∉ f.name ∧ f.contents.length ≤ MAXFILE * BSIZE) ∨
        FSSIZE < st.freeblock + f.cost) st := by
  have hlen := length_layout files
  have hroot := length_rootBytes files
  unfold copyFile HostFile.cost
  refine wp_ite (fun h => wp_throw (.inl fun hc => hc.1 h)) fun hslash => ?_
  refine wp_bind (wp_mono (ialloc_built hb (by omega) nofun (by decide)) ?_ nofun)
  rintro _ st₁ ⟨rfl, hfb₁, hb₁⟩
  have hf₁ : (layout files ++ [⟨typeOf T_FILE, []⟩])[0]? = some ⟨.dir, rootBytes files⟩ := rfl
  refine wp_bind (wp_mono (iappend_built hb₁ hf₁ ?_ ?_) ?_ fun _ h => ?_)
  · rw [length_dirent]
    decide
  · rw [length_dirent]
    decide
  swap
  · -- the root directory is far from its limit
    rw [length_dirent] at h
    simp only [show Fs.DIRENT = 16 from rfl, show NINODES = 200 from rfl,
      show MAXFILE * BSIZE = 71680 from rfl] at *
    omega
  rintro _ st₂ ⟨hb₂, hfb₂⟩
  have hset : (layout files ++ [(⟨typeOf T_FILE, []⟩ : File)]).set 0
      ⟨.dir, rootBytes files ++ dirent ((layout files).length + 1) f.stored⟩ = entered files f := by
    rw [entered, rootBytes_append, length_layout]
    rfl
  rw [hset] at hb₂
  refine wp_mono (copyReads_built f.reads hb₂ (getElem?_entered files f) f.sized) ?_ fun _ h => ?_
  · rintro _ st₃ ⟨hb₃, hfb₃⟩
    refine ⟨?_, by omega⟩
    have hdone := set_entered files f
    unfold HostFile.contents at hdone
    rwa [List.nil_append, hdone] at hb₃
  · simp only [List.length_nil, Nat.zero_add] at h
    refine h.imp (fun h hc => absurd hc.2 (not_le.mpr h)) fun h => by omega

/-- **Copying the files.** -/
lemma copyFiles_built (fs : List HostFile) (hb : Built st (layout files))
    (hroom : files.length + fs.length + 1 < NINODES) :
    wp (copyFiles ROOTINO fs) (fun _ st' => Built st' (layout (files ++ fs)) ∧
      st'.freeblock ≤ st.freeblock + (fs.map HostFile.cost).sum)
      (fun _ => ¬ Fits st.freeblock fs) st := by
  induction fs generalizing st files with
  | nil =>
    refine wp_pure ⟨?_, le_rfl⟩
    rwa [List.append_nil]
  | cons f fs ih =>
    rw [List.length_cons] at hroom
    unfold copyFiles
    rw [List.map_cons, List.sum_cons]
    refine wp_bind (wp_mono (copyFile_built hb (by omega)) ?_ fun _ h hfits => ?_)
    · rintro _ st₁ ⟨hb₁, hfb₁⟩
      refine wp_mono (ih hb₁ ?_) (fun _ st₂ h => ?_) fun _ h hfits => h ?_
      · rw [List.length_append, List.length_singleton]
        omega
      · rw [List.append_assoc] at h
        exact ⟨h.1, by omega⟩
      · have hblocks := hfits.blocks
        rw [List.map_cons, List.sum_cons] at hblocks
        exact ⟨fun g hg => hfits.file g (List.mem_cons_of_mem _ hg), by omega⟩
    · have hblocks := hfits.blocks
      rw [List.map_cons, List.sum_cons] at hblocks
      exact h.elim (fun h => h (hfits.file f List.mem_cons_self)) fun h => by omega

end Copy

end Xv6.Mkfs
