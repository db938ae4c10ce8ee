import Xv6.FsTree
import Xv6.Lib.Run
import Xv6.SelfLock

/-!
Link counts over whole runs. A run whose calls add no entry to a directory that has been removed
keeps the directories with links a tree, and every link count the number of names; the inodes
without links are those that processes still hold.
-/

namespace Xv6.Fs

open Xv6.Lib.Wp Xv6.Lib.Forest Xv6.Lib.Run

/-! ### The disk after a call -/

section Disks

variable {d : Disk} {base : ℕ → ℕ} {i j dp ip off : ℕ} {name : Name} {type : InodeType} {major minor : ℤ}

variable {inum : ℕ}

lemma link_self : (d.link dp name inum).inode dp =
    (d.inode dp).putEnt (freeSlot (d.inode dp).ents) ⟨inum % 2 ^ 16, name.take DIRSIZ⟩ :=
      putEnt_self

lemma link_other (hj : j ≠ dp) : (d.link dp name inum).inode j = d.inode j :=
  putEnt_other hj

/-- The new directory, with its two entries. -/
lemma dots_self {x : Inode} (hx : d.inode ip = x) (hents : x.ents = []) (hip : ip % 2 ^ 16 ≠ 0) :
    ((d.link ip dot ip).link ip dotdot dp).inode ip =
      { x with
        ents := [⟨ip % 2 ^ 16, dot⟩, ⟨dp % 2 ^ 16, dotdot⟩]
        blocks := x.blocks + 1 } := by
  have h0 : newBlocks 0 = 1 := by decide
  have h1 : newBlocks 1 = 0 := by decide
  have hfirst : (d.link ip dot ip).inode ip =
      { x with ents := [⟨ip % 2 ^ 16, dot⟩], blocks := x.blocks + 1 } := by
    rw [link_self, hx]
    simp [Inode.putEnt, putSlot, hents, freeSlot, h0, dot, DIRSIZ]
  have hslot : freeSlot [⟨ip % 2 ^ 16, dot⟩] = 1 := by
    unfold freeSlot
    rw [List.findIdx_cons, decide_eq_false hip]
    rfl
  rw [link_self, hfirst]
  dsimp only
  rw [hslot]
  simp [Inode.putEnt, putSlot, h1, dotdot, DIRSIZ]

lemma create_other (h1 : j ≠ dp) (h2 : j ≠ ip) :
    (d.create dp ip name type major minor).inode j = d.inode j := by
  unfold Disk.create
  dsimp only
  rw [link_other h1]
  split_ifs
  · rw [link_other h2, link_other h2, set_other _ h1, set_other _ h2]
  · rw [set_other _ h2]

lemma create_file_self (name : Name) (major minor : ℤ) (hne : ip ≠ dp) (ht : type ≠ .dir) :
    (d.create dp ip name type major minor).inode ip = ⟨type, major, minor, 1, [], 0⟩ := by
  unfold Disk.create
  dsimp only
  rw [link_other hne, if_neg ht, set_self]
  rfl

lemma create_file_dir (hne : ip ≠ dp) (ht : type ≠ .dir) :
    (d.create dp ip name type major minor).inode dp =
      (d.inode dp).putEnt (freeSlot (d.inode dp).ents) ⟨ip % 2 ^ 16, name.take DIRSIZ⟩ := by
  unfold Disk.create
  dsimp only
  rw [link_self, if_neg ht, set_other _ hne.symm]

lemma create_dir_self (name : Name) (major minor : ℤ) (hne : ip ≠ dp) (hip : ip % 2 ^ 16 ≠ 0) :
    (d.create dp ip name .dir major minor).inode ip =
      ⟨.dir, major, minor, 1, [⟨ip % 2 ^ 16, dot⟩, ⟨dp % 2 ^ 16, dotdot⟩], 1⟩ := by
  unfold Disk.create
  dsimp only
  rw [link_other hne, if_pos rfl, dots_self (x := (Inode.new .dir).init major minor) ?_ rfl hip]
  · rfl
  · rw [set_other _ hne, set_self]

lemma create_dir_dir (hne : ip ≠ dp) :
    (d.create dp ip name .dir major minor).inode dp =
      { (d.inode dp).putEnt (freeSlot (d.inode dp).ents) ⟨ip % 2 ^ 16, name.take DIRSIZ⟩ with
        nlink := wrap16 ((d.inode dp).nlink + 1) } := by
  unfold Disk.create
  dsimp only
  rw [link_self, if_pos rfl, link_other hne.symm, link_other hne.symm, set_self,
    set_other _ hne.symm]
  rfl

lemma link_space : (d.link dp name inum).space =
    if freeSlot (d.inode dp).ents < (d.inode dp).ents.length then d.space
    else d.space - newBlocks (freeSlot (d.inode dp).ents) := putEnt_space

lemma create_ninodes : (d.create dp ip name type major minor).ninodes = d.ninodes := by
  unfold Disk.create Disk.link
  dsimp only
  rw [putEnt_ninodes]
  split_ifs
  · rw [putEnt_ninodes, putEnt_ninodes]
    rfl
  · rfl

lemma create_file_space (hne : ip ≠ dp) (ht : type ≠ .dir) :
    (d.create dp ip name type major minor).space =
      if freeSlot (d.inode dp).ents < (d.inode dp).ents.length then d.space
      else d.space - newBlocks (freeSlot (d.inode dp).ents) := by
  unfold Disk.create
  dsimp only
  rw [link_space, if_neg ht, set_other _ hne.symm]
  rfl

lemma create_dir_space (hne : ip ≠ dp) :
    (d.create dp ip name .dir major minor).space =
      if freeSlot (d.inode dp).ents < (d.inode dp).ents.length then d.space - 1
      else d.space - 1 - newBlocks (freeSlot (d.inode dp).ents) := by
  unfold Disk.create
  dsimp only
  rw [link_space, if_pos rfl, link_other hne.symm, link_other hne.symm, set_self,
    set_other _ hne.symm,
    dots_space]
  · rfl
  · rw [set_other _ hne, set_self]
    rfl

end Disks

section Consistent

variable {d : Disk} {base : ℕ → ℕ} {i j dp ip off : ℕ} {name : Name} {type : InodeType} {major minor : ℤ}

lemma Consistent.mod_eq (h : Consistent d) (hi : i < d.ninodes) : i % 2 ^ 16 = i :=
  Nat.mod_eq_of_lt (lt_of_lt_of_le hi h.small)

lemma Consistent.new_name (h : Consistent d) (hdp : dp ∈ d.dirs)
    (hf : find name (d.inode dp).ents = none) :
    name.take DIRSIZ ≠ dot ∧ name.take DIRSIZ ≠ dotdot := by
  have hdir := (h.mem_dirs.mp hdp).1
  exact ((h.good dp).shape hdir).new_name (h.dir_ne_zero hdp).1 ((h.good dp).upNe hdir) hf

lemma Consistent.create (h : Consistent d) (hdp : dp ∈ d.dirs)
    (hf : find name (d.inode dp).ents = none) (hip : freeInode d = some ip) (hty : type ≠ .free)
    (hs : createNeed d dp type ≤ d.space) : Consistent (d.create dp ip name type major minor) := by
  obtain ⟨hfree, hip0, hipn⟩ := freeInode_some hip
  have hne := freeInode_ne hip (h.mem_dirs.mp hdp).1
  have hname := h.new_name hdp hf
  have hmod := h.mod_eq hipn
  have hdpmod := h.mod_eq (h.dir_ne_zero hdp).2
  by_cases ht : type = .dir
  · subst ht
    have hself := create_dir_self (d := d) name major minor hne
      (by rw [hmod]; omega)
    refine h.grow create_ninodes hdp hfree hip0 hipn hname ?_ (fun j h1 h2 => create_other h1 h2)
      (by rw [hself]) (by rw [hself]) (by rw [hself, hmod, hdpmod]) (by rw [hself])
      (create_dir_space hne) hs
    rw [create_dir_dir hne, hmod, h.wrap16_link (Or.inl rfl)]
  · have hself := create_file_self (d := d) name major minor hne ht
    refine h.enter create_ninodes hdp hne (by rw [hfree]; exact nofun) hname ?_
      (fun j h1 h2 => create_other h1 h2) ?_ (by rw [hself]; exact hty) (by rw [hself]; exact ht)
      (by rw [hself, (h.good ip).free hfree]; rfl) (by rw [hself]; exact Nat.zero_le _)
      (create_file_space hne ht) fun hlen => ?_
    · rw [create_file_dir hne ht, hmod]
    · rw [hself]
      exact ⟨fun _ => ⟨hip0, hipn⟩, fun hc => absurd hc hty, fun _ => rfl, fun hc => absurd hc ht,
        fun hc => absurd hc ht, fun hc => absurd hc ht, Nat.zero_le _⟩
    · unfold createNeed at hs
      rw [if_neg ht, zero_add, if_pos hlen] at hs
      exact hs

lemma Consistent.link (h : Consistent d) (hdp : dp ∈ d.dirs)
    (hf : find name (d.inode dp).ents = none) (hip : (d.inode ip).type ≠ .free)
    (hleaf : (d.inode ip).type ≠ .dir) (hs : (d.inode dp).ents.length ≤ freeSlot (d.inode dp).ents →
      newBlocks (freeSlot (d.inode dp).ents) ≤ d.space) :
    Consistent ((d.set ip ((d.inode ip).link 1)).link dp name ip) := by
  have hne : ip ≠ dp := fun he => hleaf (he ▸ (h.mem_dirs.mp hdp).1)
  have hip' : ((d.set ip ((d.inode ip).link 1)).link dp name ip).inode ip =
      { d.inode ip with nlink := (d.inode ip).nlink + 1 } := by
    rw [link_other hne, set_self, Inode.link, h.wrap16_link (Or.inl rfl)]
  refine h.enter putEnt_ninodes hdp hne hleaf (h.new_name hdp hf) ?_ (fun j h1 h2 => ?_) ?_
    (by rw [hip']; exact hip) (by rw [hip']; exact hleaf) (by rw [hip']) (by rw [hip']) ?_ hs
  · rw [link_self, set_other _ hne.symm, h.mod_eq ((h.good ip).range hip).2]
  · rw [link_other h1, set_other _ h2]
  · rw [hip']
    exact (h.good ip).setLink hip fun hd => absurd hd hleaf
  · rw [link_space, set_other _ hne.symm]
    rfl

lemma Consistent.put (h : Consistent d) {n : ℕ} (hi : (d.inode i).nlink = 0 → i < d.ninodes) :
    Consistent (d.put i n) := by
  unfold Disk.put
  split_ifs with hc
  · exact h.free hc.1 (hi hc.1)
  · exact h

/-- A directory that has been removed has no entries to unlink. -/
lemma Consistent.mem_dirs_of_find (h : Consistent d) (hdir : (d.inode dp).type = .dir)
    (hn : ¬ (namecmp name dot ∨ namecmp name dotdot))
    (hf : find name (d.inode dp).ents = some (ip, off)) :
    ∃ o : Dirent, (d.inode dp).ents[off]? = some o ∧ o.inum = ip ∧ ip ≠ 0 ∧ 2 ≤ off ∧
      dp ∈ d.dirs := by
  obtain ⟨o, ho, hoi, h0, hname⟩ := find_some hf
  have hshape := (h.good dp).shape hdir
  have hoff := hshape.two_le_slot hn ho hname
  refine ⟨o, ho, hoi, h0, hoff, h.mem_dirs.mpr ⟨hdir, lt_of_le_of_ne h.nlink_nonneg fun hl => ?_⟩⟩
  have hempty := (h.good dp).removed hdir hl.symm
  have hnames : o.Names ip := (hshape.names hoff ho (by omega)).mpr hoi.symm
  have hcount := hshape.empty hempty ip
  rw [List.countP_eq_zero] at hcount
  exact hcount o (List.mem_of_getElem? ho) (by simpa using hnames)

/-- `unlink` without what it frees. -/
def Disk.cut (d : Disk) (dp off ip : ℕ) : Disk :=
  let d1 := d.putEnt dp off ⟨0, []⟩
  let d2 := if (d.inode ip).type = .dir then d1.set dp ((d1.inode dp).link (-1)) else d1
  d2.set ip ((d2.inode ip).link (-1))

lemma cut_type : ((d.cut dp off ip).inode j).type = (d.inode j).type := by
  unfold Disk.cut
  dsimp only
  rw [(sameTree_link _ ip (-1) j).1]
  split_ifs
  · rw [(sameTree_link _ dp (-1) j).1, putEnt_type]
  · rw [putEnt_type]

lemma cut_ninodes : (d.cut dp off ip).ninodes = d.ninodes := by
  unfold Disk.cut
  dsimp only
  split_ifs
  · exact putEnt_ninodes
  · exact putEnt_ninodes

lemma cut_ents (hne : j ≠ dp) : ((d.cut dp off ip).inode j).ents = (d.inode j).ents := by
  unfold Disk.cut
  dsimp only
  rw [(sameTree_link _ ip (-1) j).2]
  split_ifs
  · rw [(sameTree_link _ dp (-1) j).2, putEnt_other hne]
  · rw [putEnt_other hne]

lemma cut_ents_self :
    ((d.cut dp off ip).inode dp).ents = putSlot (d.inode dp).ents off ⟨0, []⟩ := by
  unfold Disk.cut
  dsimp only
  rw [(sameTree_link _ ip (-1) dp).2]
  split_ifs
  · rw [(sameTree_link _ dp (-1) dp).2, putEnt_self]
    rfl
  · rw [putEnt_self]
    rfl

/-- The directory keeps a link, so that only the inode itself may be freed. -/
lemma Consistent.cut (h : Consistent d) (base : ℕ → ℕ) (hdir : (d.inode dp).type = .dir)
    (hn : ¬ (namecmp name dot ∨ namecmp name dotdot))
    (hf : find name (d.inode dp).ents = some (ip, off)) (hne : ip ≠ dp)
    (hempty : (d.inode ip).type = .dir → isdirempty (d.inode ip) = true) :
    Consistent (d.cut dp off ip) ∧
      d.unlink base dp off ip = (d.cut dp off ip).put ip (base ip) := by
  obtain ⟨o, ho, rfl, h0, hoff, hdp⟩ := h.mem_dirs_of_find hdir hn hf
  obtain ⟨hklen, -⟩ := List.getElem?_eq_some_iff.mp ho
  have hpos := (h.mem_dirs.mp hdp).2
  have hspace : (d.putEnt dp off ⟨0, []⟩).space = d.space := by
    rw [putEnt_space, if_pos hklen]
  have hip' {d' : Disk} (hd' : d'.inode o.inum = d.inode o.inum) :
      (d'.set o.inum ((d'.inode o.inum).link (-1))).inode o.inum =
        { d.inode o.inum with nlink := (d.inode o.inum).nlink - 1 } := by
    rw [set_self, hd', Inode.link, h.wrap16_link (Or.inr rfl)]
    rfl
  unfold Disk.cut Disk.unlink
  dsimp only
  set d1 := d.putEnt dp off ⟨0, []⟩ with hd1
  have hd1dp : d1.inode dp = (d.inode dp).putEnt off ⟨0, []⟩ := putEnt_self
  have hd1o {j : ℕ} (hj : j ≠ dp) : d1.inode j = d.inode j := putEnt_other hj
  by_cases ht : (d.inode o.inum).type = .dir
  · rw [if_pos ht]
    set d2 := d1.set dp ((d1.inode dp).link (-1)) with hd2
    have hd2dp : d2.inode dp =
        { (d.inode dp).putEnt off ⟨0, []⟩ with nlink := (d.inode dp).nlink - 1 } := by
      rw [hd2, set_self, hd1dp, Inode.link]
      change { (d.inode dp).putEnt off ⟨0, []⟩ with nlink := wrap16 ((d.inode dp).nlink + -1) } = _
      rw [h.wrap16_link (Or.inr rfl)]
      rfl
    have hd2o {j : ℕ} (hj : j ≠ dp) : d2.inode j = d.inode j := by rw [hd2, set_other _ hj, hd1o hj]
    have hsize : (d2.set o.inum ((d2.inode o.inum).link (-1))).ninodes = d.ninodes := putEnt_ninodes
    obtain ⟨hcons, -, -, hdp2⟩ := h.prune hsize hdp ht (hempty ht) hoff ho h0 hne
      (by rw [set_other _ hne.symm, hd2dp])
      (fun j h1 h2 => by rw [set_other _ h2, hd2o h1]) (hip' (hd2o hne)) hspace
    have hput : d2.put dp (base dp) = d2 := by
      refine if_neg fun hl => ?_
      rw [hd2dp] at hl
      have hl : (d.inode dp).nlink - 1 = 0 := hl.1
      omega
    rw [hput]
    exact ⟨hcons, rfl⟩
  · rw [if_neg ht]
    have hput : d1.put dp (base dp) = d1 := by
      refine if_neg fun hl => ?_
      rw [hd1dp] at hl
      have hl : (d.inode dp).nlink = 0 := hl.1
      omega
    rw [hput]
    exact ⟨h.leave putEnt_ninodes hdp ht hoff ho h0 (by rw [set_other _ hne.symm, hd1dp])
      (fun j h1 h2 => by rw [set_other _ h2, hd1o h1]) (hip' (hd1o hne)) hspace, rfl⟩

lemma Consistent.unlink (h : Consistent d) (hdir : (d.inode dp).type = .dir)
    (hn : ¬ (namecmp name dot ∨ namecmp name dotdot))
    (hf : find name (d.inode dp).ents = some (ip, off)) (hne : ip ≠ dp)
    (hfree : (d.inode ip).type ≠ .free)
    (hempty : (d.inode ip).type = .dir → isdirempty (d.inode ip) = true) :
    Consistent (d.unlink base dp off ip) := by
  obtain ⟨hcut, he⟩ := h.cut base hdir hn hf hne hempty
  rw [he]
  refine hcut.put fun _ => ?_
  rw [cut_ninodes]
  exact ((h.good ip).range hfree).2

end Consistent

/-! ### What processes hold -/

section Holders

variable {P : Type} [Fintype P] [DecidableEq P]

/-- The working directories and open files of processes that refer to an inode. -/
def holders (pr : Procs P) (i : ℕ) : ℕ :=
  ∑ p, (if pr.cwd p = i then 1 else 0) + ∑ x : P × Fin NOFILE, if pr.ofile x.1 x.2 = some i then 1 else 0

variable {pr : Procs P} {me : P} {fd : Fin NOFILE} {i j : ℕ}

omit [DecidableEq P] in
lemma holders_cwd : 0 < holders pr (pr.cwd me) := by
  have h := Finset.single_le_sum (f := fun p => if pr.cwd p = pr.cwd me then 1 else 0)
    (s := Finset.univ)
    (fun _ _ => Nat.zero_le _) (Finset.mem_univ me)
  rw [if_pos rfl] at h
  unfold holders
  omega

omit [DecidableEq P] in
lemma holders_ofile (hi : pr.ofile me fd = some i) : 0 < holders pr i := by
  have h :=
    Finset.single_le_sum (f := fun x : P × Fin NOFILE => if pr.ofile x.1 x.2 = some i then 1 else 0)
    (s := Finset.univ) (fun _ _ => Nat.zero_le _) (Finset.mem_univ (me, fd))
  rw [if_pos hi] at h
  unfold holders
  omega

/-- One value of a sum changes. -/
lemma sum_one {ι : Type} [DecidableEq ι] {s : Finset ι} {f g : ι → ℕ} {a : ι} (ha : a ∈ s)
    (h : ∀ x, x ≠ a → g x = f x) : ∑ x ∈ s, g x + f a = ∑ x ∈ s, f x + g a := by
  have hrest : ∑ x ∈ s.erase a, g x = ∑ x ∈ s.erase a, f x :=
    Finset.sum_congr rfl fun x hx => h x (Finset.mem_erase.mp hx).1
  rw [← Finset.add_sum_erase s g ha, ← Finset.add_sum_erase s f ha, hrest]
  omega

lemma holders_setFd (pr : Procs P) (me : P) (fd : Fin NOFILE) (v : Option ℕ) (n j : ℕ) :
    holders (pr.setFd me fd v n) j + (if pr.ofile me fd = some j then 1 else 0) =
      holders pr j + if v = some j then 1 else 0 := by
  have hself : (pr.setFd me fd v n).ofile me fd = v := by simp [Procs.setFd]
  have hother (x : P × Fin NOFILE) (hx : x ≠ (me, fd)) :
      (pr.setFd me fd v n).ofile x.1 x.2 = pr.ofile x.1 x.2 := by
    obtain ⟨p, f⟩ := x
    by_cases hp : p = me
    · subst hp
      have hf : f ≠ fd := fun he => hx (he ▸ rfl)
      simp [Procs.setFd, hf]
    · simp [Procs.setFd, hp]
  have h := sum_one (f := fun x : P × Fin NOFILE => if pr.ofile x.1 x.2 = some j then 1 else 0)
    (g := fun x => if (pr.setFd me fd v n).ofile x.1 x.2 = some j then 1 else 0)
    (Finset.mem_univ (me, fd)) fun x hx => by rw [hother x hx]
  dsimp only at h
  rw [hself] at h
  have hcwd : (pr.setFd me fd v n).cwd = pr.cwd := rfl
  unfold holders
  rw [hcwd]
  omega

lemma holders_setCwd (pr : Procs P) (me : P) (i j : ℕ) :
    holders (pr.setCwd me i) j + (if pr.cwd me = j then 1 else 0) = holders pr j + if i =
      j then 1 else 0 := by
  have h := sum_one (f := fun p => if pr.cwd p = j then 1 else 0)
    (g := fun p => if (pr.setCwd me i).cwd p = j then 1 else 0) (Finset.mem_univ me)
    fun p hp => by simp [Procs.setCwd, hp]
  have hself : (pr.setCwd me i).cwd me = i := by simp [Procs.setCwd]
  rw [hself] at h
  have hfd : (pr.setCwd me i).ofile = pr.ofile := rfl
  unfold holders
  rw [hfd]
  omega

variable {n : ℕ}

lemma holders_opened (hfd : pr.ofile me fd = none) :
    holders (pr.setFd me fd (some i) n) = addRef (holders pr) i := by
  funext j
  have h := holders_setFd pr me fd (some i) n j
  rw [hfd, if_neg nofun, Nat.add_zero] at h
  by_cases hj : j = i
  · subst hj
    simpa [addRef] using h
  · have hne : ¬ some i = some j := fun he => hj (Option.some.inj he).symm
    rw [if_neg hne, Nat.add_zero] at h
    simpa [addRef, hj] using h

lemma holders_closed (hfd : pr.ofile me fd = some i) :
    holders (pr.setFd me fd none n) = subRef (holders pr) i := by
  funext j
  have h := holders_setFd pr me fd none n j
  rw [hfd, if_neg (c := none = some j) nofun, Nat.add_zero] at h
  by_cases hj : j = i
  · subst hj
    rw [if_pos rfl] at h
    simp only [subRef, Function.update_self]
    omega
  · have hne : ¬ some i = some j := fun he => hj (Option.some.inj he).symm
    rw [if_neg hne, Nat.add_zero] at h
    simpa [subRef, hj] using h

lemma holders_moved : holders (pr.setCwd me i) = subRef (addRef (holders pr) i) (pr.cwd me) := by
  funext j
  have h := holders_setCwd pr me i j
  have ha : addRef (holders pr) i j = holders pr j + if i = j then 1 else 0 := by
    by_cases hj : j = i
    · simp [addRef, hj]
    · rw [if_neg fun he => hj he.symm]
      simp [addRef, hj]
  by_cases hc : j = pr.cwd me
  · subst hc
    rw [if_pos rfl] at h
    simp only [subRef, Function.update_self]
    omega
  · rw [if_neg fun he => hc he.symm, Nat.add_zero] at h
    simp only [subRef, Function.update_of_ne hc]
    omega

end Holders

/-! ### Inodes without links -/

section Held

variable {P : Type} [DecidableEq P] {d d' : Disk} {pr pr' : Procs P} {base base' : ℕ → ℕ} {me : P}
  {cl : Call} {i j : ℕ}

lemma put_held {n : ℕ} (hty : ((d.put i n).inode i).type ≠ .free)
    (hl : ((d.put i n).inode i).nlink = 0) : 0 < n := by
  rw [put_nlink] at hl
  by_contra hn
  unfold Disk.put at hty
  rw [if_pos ⟨hl, by omega⟩] at hty
  simp [Disk.free, Disk.set] at hty

/-- Giving up a reference frees the inode, or leaves it to those who hold it still. -/
lemma release_held (hheld : (d.inode j).type ≠ .free → (d.inode j).nlink = 0 → 0 < base j)
    (hty : ((d.put i (subRef base i i)).inode j).type ≠ .free)
    (hl : ((d.put i (subRef base i i)).inode j).nlink = 0) : 0 < subRef base i j := by
  by_cases hj : j = i
  · subst hj
    exact put_held hty hl
  · rw [put_other hj] at hty hl
    rw [subRef, Function.update_of_ne hj]
    exact hheld hty hl

lemma unlink_held {dp ip off : ℕ} (hkept : Kept d base) (hne : ip ≠ dp)
    (hty : ((d.unlink base dp off ip).inode j).type ≠ .free)
    (hl : ((d.unlink base dp off ip).inode j).nlink = 0) : 0 < base j := by
  by_cases h2 : j = ip
  · subst h2
    exact put_held hty hl
  · by_cases h1 : j = dp
    · subst h1
      unfold Disk.unlink at hty hl
      dsimp only at hty hl
      rw [put_other h2, set_other _ h2] at hty hl
      exact put_held hty hl
    · rw [unlink_other h1 h2] at hty hl
      exact hkept.held j hty hl

lemma create_held {dp ip : ℕ} {name : Name} {type : InodeType} {major minor : ℤ}
    (hkept : Kept d base) (hne : ip ≠ dp) (hdir : (d.inode dp).type = .dir)
    (hl : ((d.create dp ip name type major minor).inode j).nlink = 0)
    (hty : ((d.create dp ip name type major minor).inode j).type ≠ .free) : 0 < base j := by
  have h0 : Unlinked d j := create_unlinked hne hkept hl
  have h2 : j ≠ ip := by
    rintro rfl
    rw [create_nlink hne, if_pos rfl] at hl
    cases hl
  by_cases h1 : j = dp
  · exact hkept.held j (by rw [h1, hdir]; exact nofun) h0
  · rw [create_other h1 h2] at hty
    exact hkept.held j hty h0

/-- An inode without links is held by someone after a call as well. -/
lemma Outcome.held (ho : Outcome d pr base me cl d' pr' base') (hkept : Kept d base)
    (hty : (d'.inode j).type ≠ .free) (hl : (d'.inode j).nlink = 0) : 0 < base' j := by
  cases ho with
  | same => exact hkept.held j hty hl
  | created hc hp hf hip hs =>
    exact create_held hkept (freeInode_ne hip (target_dir hp)) (target_dir hp) hl hty
  | opened hi hfd => exact addRef_pos (hkept.held j hty hl)
  | createdOpened hc hp hf hip hs hfd =>
    exact addRef_pos (create_held hkept (freeInode_ne hip (target_dir hp)) (target_dir hp) hl hty)
  | @linked old new ip dp name hr hi hd hp hf hs =>
    refine hkept.held j ?_ (link_unlinked hkept hl)
    rwa [Disk.link, putEnt_type, (sameTree_link d ip 1 j).1] at hty
  | unlinked hp hn hf hne hi hl' he => exact unlink_held hkept hne hty hl
  | moved hr hd => exact release_held (fun ht hl => addRef_pos (hkept.held j ht hl)) hty hl
  | closed hfd => exact release_held (hkept.held j) hty hl

end Held

/-! ### Runs -/

section Runs

variable {P : Type} [Fintype P] [DecidableEq P]

/-- The path under which a call makes a new entry. -/
def newName : Call → Option (List UInt8)
  | .openFile path omode => if omode &&& O_CREATE ≠ 0 then some path else none
  | .mkdir path => some path
  | .mknod path _ _ => some path
  | .link _ new => some new
  | _ => none

/-- The call adds no entry to a directory that has been removed. -/
def SparesRemoved (s : St P Disk) (me : P) (c : Call) : Prop :=
  ∀ path dp name, newName c = some path → resolveParent s.disk s.procs me path = some (dp, name) →
    find name (s.disk.inode dp).ents = none → (s.disk.inode dp).nlink ≠ 0

/-- The file system between calls. -/
structure Inv (s : St P Disk) : Prop where
  busy : ∃ R, Busy s.disk (holders s.procs) (Unlinked s.disk) 0 ∅ R s.cache
  tree : Consistent s.disk
  held : ∀ i, (s.disk.inode i).type ≠ .free → (s.disk.inode i).nlink = 0 → 0 < holders s.procs i

variable {s : St P Disk} {me : P} {cl : Call}

lemma creates_newName {c : Call} {path : List UInt8} {type : InodeType} {major minor : ℤ}
    (h : creates c = some (path, type, major, minor)) : newName c = some path ∧ type ≠ .free := by
  cases c with
  | openFile p omode =>
    rw [creates] at h
    rw [newName]
    split_ifs at h ⊢
    cases h
    exact ⟨rfl, nofun⟩
  | mkdir p => cases h; exact ⟨rfl, nofun⟩
  | mknod p a b => cases h; exact ⟨rfl, nofun⟩
  | _ => cases h

omit [DecidableEq P] in
lemma Inv.kept (h : Inv s) : Kept s.disk (holders s.procs) := by
  refine ⟨fun i => ⟨h.tree.nlink_nonneg, lt_of_le_of_lt h.tree.nlink_lt ?_⟩, h.held⟩
  decide

omit [DecidableEq P] in
/-- A reference to an inode without links is to one in use. -/
lemma Inv.lt_ninodes (h : Inv s) {i : ℕ} (hi : 0 < holders s.procs i)
    (hl : (s.disk.inode i).nlink = 0) : i < s.disk.ninodes := by
  obtain ⟨R, hb⟩ := h.busy
  have hty := hb.validLive i (by rw [hb.ref]; omega) (hb.keepValid i hi hl)
  exact ((h.tree.good i).range hty).2

lemma Outcome.holders {d' : Disk} {pr' : Procs P} {base' : ℕ → ℕ}
    (ho : Outcome s.disk s.procs (holders s.procs) me cl d' pr' base') :
    base' = Fs.holders pr' := by
  cases ho with
  | same | created | linked | unlinked => rfl
  | opened _ hfd => exact (holders_opened hfd).symm
  | createdOpened _ _ _ _ _ hfd => exact (holders_opened hfd).symm
  | moved => exact holders_moved.symm
  | closed hfd => exact (holders_closed hfd).symm

lemma Inv.consistent (h : Inv s) (hok : SparesRemoved s me cl) {d' : Disk} {pr' : Procs P}
    {base' : ℕ → ℕ} (ho : Outcome s.disk s.procs (Fs.holders s.procs) me cl d' pr' base') :
    Consistent d' := by
  have hdirs {path : List UInt8} {dp : ℕ} {name : Name} (hc : newName cl = some path)
      (hp : resolveParent s.disk s.procs me path = some (dp, name))
      (hf : find name (s.disk.inode dp).ents = none) : dp ∈ s.disk.dirs := by
    have hne := hok path dp name hc hp hf
    exact h.tree.mem_dirs.mpr ⟨target_dir hp, lt_of_le_of_ne h.tree.nlink_nonneg hne.symm⟩
  cases ho with
  | same | opened => exact h.tree
  | created hc hp hf hip hs =>
    obtain ⟨hname, hty⟩ := creates_newName hc
    exact h.tree.create (hdirs hname hp hf) hf hip hty hs
  | createdOpened hc hp hf hip hs =>
    exact h.tree.create (hdirs (if_pos hc) hp hf) hf hip nofun hs
  | linked hr hi hd hp hf hs => exact h.tree.link (hdirs rfl hp hf) hf hi hd hs
  | unlinked hp hn hf hne hi hl he => exact h.tree.unlink (target_dir hp) hn hf hne hi he
  | moved => exact h.tree.put fun hl => h.lt_ninodes holders_cwd hl
  | closed hfd => exact h.tree.put fun hl => h.lt_ninodes (holders_ofile hfd) hl

/-- What one call keeps, and why it may stop. -/
lemma Inv.call (h : Inv s) (hok : SparesRemoved s me cl) :
    wp (call me cl) (fun _ s' => Inv s' ∧
      ∃ base', Outcome s.disk s.procs (holders s.procs) me cl s'.disk s'.procs base')
      (fun e => e = .panic .noType → ¬ AllLive s.disk s.procs.cwd) s := by
  obtain ⟨R, hb⟩ := h.busy
  refine wp_mono (wp_call cl hb holders_cwd (fun _ _ => holders_ofile) h.kept) ?_ fun e he =>
    he.noType
  rintro _ s' ⟨-, base', R', ho, hb'⟩
  have hbase := ho.holders
  refine ⟨⟨⟨R', hbase ▸ hb'⟩, h.consistent hok ho, fun i hty hl => ?_⟩, base', ho⟩
  exact hbase ▸ ho.held h.kept hty hl

/-- One call, in a run. -/
lemma Inv.step {ok : St P Disk → P → Call → Prop} {m m' : Machine P Disk} {a : P × Call}
    (h : Inv m.st) (hok : ok m.st a.1 a.2 → SparesRemoved m.st a.1 a.2) (hst : Step ok m a m') :
    Inv m'.st := by
  obtain ⟨hc, hn⟩ := hst
  have hwp := h.call (hok hc)
  unfold next at hn
  split_ifs at hn
  rcases hr : Fs.call a.1 a.2 m.st with e | ⟨r, s'⟩
  · rw [hr] at hn
    cases hn
    exact h
  · rw [hr] at hn
    cases hn
    exact (wp_ok hwp hr).1

end Runs

/-! ### A new file system -/

/-- What `mkfs` is given: names of files, and not more of them than there is room for. -/
structure Mkfs (files : List Copied) (space ninodes : ℕ) : Prop where
  names : ∀ f ∈ files, f.name ≠ dot ∧ f.name ≠ dotdot
  inodes : files.length + 2 ≤ ninodes
  small : ninodes ≤ 2 ^ 16
  total : rootBlocks files + (files.map Copied.blocks).sum + space ≤ FSSIZE

section Mkfs

variable {files : List Copied} {space ninodes i : ℕ}

/-- The entries of the files, numbered from `k` on. -/
lemma count_files (hnames : ∀ f ∈ files, f.name ≠ dot ∧ f.name ≠ dotdot) (k : ℕ) (hk : 0 < k) :
    ((files.zipIdx k).map fun f => (⟨f.2, f.1.name⟩ : Dirent)).countP (fun e => e.Names i) =
      if k ≤ i ∧ i < k + files.length then 1 else 0 := by
  induction files generalizing k with
  | nil => simp [show ¬ (k ≤ i ∧ i < k) by omega]
  | cons f files ih =>
    rw [List.zipIdx_cons, List.map_cons, List.countP_cons,
      ih (fun g hg => hnames g (List.mem_cons_of_mem _ hg)) (k + 1) (by omega)]
    have hf := hnames f List.mem_cons_self
    have hnames' : (⟨k, f.name⟩ : Dirent).Names i ↔ k = i :=
      ⟨fun h => h.2.1, fun h => ⟨by dsimp only; omega, h, hf⟩⟩
    rw [List.length_cons]
    simp only [hnames', decide_eq_true_eq]
    split_ifs <;> omega

lemma sum_files (files : List Copied) (m : ℕ) :
    ∑ j ∈ Finset.range m, ((files[j]?).map Copied.blocks).getD 0 ≤
      (files.map Copied.blocks).sum := by
  induction files generalizing m with
  | nil => simp
  | cons f files ih =>
    rcases m with _ | m
    · simp
    · rw [Finset.sum_range_succ']
      simpa [Nat.add_comm] using ih m

lemma mkfs_root : (mkfs files space ninodes).inode ROOTINO =
    ⟨.dir, 0, 0, 1, rootEnts files, rootBlocks files⟩ := rfl

lemma mkfs_other (files : List Copied) (space ninodes : ℕ) (hi : i ≠ ROOTINO) :
    (∃ f, 2 ≤ i ∧ files[i - 2]? = some f ∧
      (mkfs files space ninodes).inode i = ⟨.file, 0, 0, 1, [], f.blocks⟩) ∨
      ((2 ≤ i → files[i - 2]? = none) ∧
        (mkfs files space ninodes).inode i = ⟨.free, 0, 0, 0, [], 0⟩) := by
  unfold mkfs
  simp only [if_neg hi]
  by_cases h2 : i < 2
  · exact Or.inr ⟨fun h => by omega, by rw [if_pos h2]⟩
  · rw [if_neg h2]
    rcases hf : files[i - 2]? with _ | f
    · exact Or.inr ⟨fun _ => rfl, rfl⟩
    · exact Or.inl ⟨f, by omega, rfl, rfl⟩

lemma rootEnts_shape (hnames : ∀ f ∈ files, f.name ≠ dot ∧ f.name ≠ dotdot) :
    Shape ROOTINO ROOTINO (rootEnts files) := by
  refine ⟨_, rfl, fun e he h0 => ?_⟩
  rcases List.mem_append.mp he with he | he
  · obtain ⟨⟨f, k⟩, hf, rfl⟩ := List.mem_map.mp he
    exact hnames f (List.fst_mem_of_mem_zipIdx hf)
  · rw [List.eq_of_mem_replicate he] at h0
    exact absurd rfl h0

lemma rootEnts_length : (rootEnts files).length ≤ 32 * rootBlocks files := by
  have hlen : (rootEnts files).length % 32 = 0 := by
    simp [rootEnts]
    omega
  unfold rootBlocks
  omega

lemma kids_root (hnames : ∀ f ∈ files, f.name ≠ dot ∧ f.name ≠ dotdot) :
    kids ⟨.dir, 0, 0, 1, rootEnts files, rootBlocks files⟩ i = if 2 ≤ i ∧
      i < 2 + files.length then 1 else 0 := by
  unfold kids rootEnts
  dsimp only
  rw [List.countP_append, List.countP_append, count_files hnames 2 (by omega)]
  simp [Dirent.Names, List.countP_replicate]

lemma mkfs_dirs (h : Mkfs files space ninodes) : (mkfs files space ninodes).dirs = {ROOTINO} := by
  ext i
  rw [Disk.dirs, Finset.mem_filter, Finset.mem_range, Finset.mem_singleton]
  by_cases hi : i = ROOTINO
  · rw [hi, mkfs_root]
    have := h.inodes
    change ROOTINO < ninodes ∧ _ ↔ _
    simp [ROOTINO]
    omega
  · rcases mkfs_other files space ninodes hi with ⟨f, -, -, hf⟩ | ⟨-, hf⟩
    · rw [hf]
      simp [hi]
    · rw [hf]
      simp [hi]

lemma consistent_mkfs (h : Mkfs files space ninodes) : Consistent (mkfs files space ninodes) := by
  have hdirs := mkfs_dirs h
  have hup : up ((mkfs files space ninodes).inode ROOTINO) = ROOTINO := by
    rw [mkfs_root]
    exact up_of_shape (x := ⟨.dir, 0, 0, 1, rootEnts files, rootBlocks files⟩)
      (rootEnts_shape h.names)
  have hkids (j : ℕ) : kids ((mkfs files space ninodes).inode ROOTINO) j =
      if 2 ≤ j ∧ j < 2 + files.length then 1 else 0 := by
    rw [mkfs_root, kids_root h.names]
  refine ⟨h.small, fun i => ?_,
    ⟨?_, hup, fun y hy => ?_, fun x hx hne => ?_, fun _ => 0, fun x hx hne => ?_⟩,
    fun i => ?_, ?_⟩
  · by_cases hi : i = ROOTINO
    · have hinodes := h.inodes
      rw [hi, mkfs_root]
      rw [mkfs_root] at hup
      exact ⟨fun _ => ⟨Nat.one_pos, by change 1 < ninodes; omega⟩, nofun, fun hc => absurd rfl hc,
        fun _ => by rw [hup]; exact nofun, fun _ => by
          rw [hup]; exact rootEnts_shape h.names, nofun,
        rootEnts_length⟩
    · rcases mkfs_other files space ninodes hi with ⟨f, h2, hf, he⟩ | ⟨-, he⟩
      · rw [he]
        obtain ⟨hlen, -⟩ := List.getElem?_eq_some_iff.mp hf
        have hinodes := h.inodes
        exact ⟨fun _ => ⟨by omega, by change i < ninodes; omega⟩, nofun, fun _ => rfl, nofun, nofun,
          nofun,
          Nat.zero_le _⟩
      · rw [he]
        exact ⟨fun hc => absurd rfl hc, fun _ => rfl, fun _ => rfl, nofun, nofun, nofun,
          Nat.zero_le _⟩
  · change ROOTINO ∈ Disk.dirs _
    rw [hdirs]
    exact Finset.mem_singleton_self _
  · change y ∈ Disk.dirs _ at hy
    rw [hdirs, Finset.mem_singleton] at hy
    rw [hy]
    exact (hkids ROOTINO).trans (if_neg (by simp [ROOTINO]))
  · change x ∈ Disk.dirs _ at hx
    rw [hdirs, Finset.mem_singleton] at hx
    exact absurd hx hne
  · change x ∈ Disk.dirs _ at hx
    rw [hdirs, Finset.mem_singleton] at hx
    exact absurd hx hne
  · have hdeg : (graph (mkfs files space ninodes)).indeg i =
        kids ((mkfs files space ninodes).inode ROOTINO) i + if ROOTINO = i then 1 else 0 := by
      change ∑ y ∈ Disk.dirs _, _ = _
      rw [hdirs, Finset.sum_singleton]
      change _ + (if up _ = i then 1 else 0) = _
      rw [hup]
      rfl
    rw [hdeg, hkids]
    by_cases hi : i = ROOTINO
    · rw [hi, mkfs_root]
      simp [ROOTINO]
    · rw [if_neg (c := ROOTINO = i) fun he => hi he.symm]
      rcases mkfs_other files space ninodes hi with ⟨f, h2, hf, he⟩ | ⟨hf, he⟩
      · obtain ⟨hlen, -⟩ := List.getElem?_eq_some_iff.mp hf
        rw [he, if_pos ⟨h2, by omega⟩]
        rfl
      · rw [he, if_neg]
        · rfl
        · rintro ⟨h2, hlt⟩
          have := List.getElem?_eq_none_iff.mp (hf h2)
          omega
  · obtain ⟨n, hn⟩ : ∃ n, ninodes = n + 2 := ⟨ninodes - 2, by have := h.inodes; omega⟩
    have hfiles : ∀ j, ((mkfs files space ninodes).inode (j + 2)).blocks =
        ((files[j]?).map Copied.blocks).getD 0 := by
      intro j
      rcases mkfs_other files space ninodes (i := j + 2)
        (by simp [ROOTINO]) with ⟨f, -, hf, he⟩ | ⟨hf, he⟩
      · rw [he]
        simp only [Nat.add_sub_cancel] at hf
        simp [hf]
      · rw [he]
        have := hf (by omega)
        simp only [Nat.add_sub_cancel] at this
        simp [this]
    have hzero : ((mkfs files space ninodes).inode 0).blocks = 0 := rfl
    have hroot : ((mkfs files space ninodes).inode (0 + 1)).blocks = rootBlocks files := by
      rw [show (0 + 1) = ROOTINO from rfl, mkfs_root]
    have htotal := h.total
    have hsum := sum_files files n
    change ∑ j ∈ Finset.range ninodes, _ + space ≤ FSSIZE
    nth_rewrite 1 [hn]
    rw [Finset.sum_range_succ', Finset.sum_range_succ', hzero, hroot,
      Finset.sum_congr rfl fun j _ => hfiles j]
    omega

end Mkfs

/-! ### Link counts -/

section Theorems

variable {P : Type} [Fintype P] [Nonempty P] {files : List Copied} {space ninodes : ℕ}

omit [Nonempty P] in
lemma holders_fresh {d : Disk} : holders (fresh (P := P) d).st.procs =
    (fresh (P := P) d).st.cache.ref := by
  funext i
  by_cases hi : i = ROOTINO
  · simp [holders, fresh, hi]
  · have hne : ROOTINO ≠ i := fun he => hi he.symm
    simp [holders, fresh, hi, hne]

lemma inv_fresh (h : Mkfs files space ninodes) :
    Inv (fresh (P := P) (mkfs files space ninodes)).st := by
  have hq : Quiet (fresh (P := P) (mkfs files space ninodes)).st := quiet_fresh files space ninodes
  have hh := holders_fresh (P := P) (d := mkfs files space ninodes)
  have hb := hq.busy
  have hheld := hq.held
  rw [← hh] at hb hheld
  exact ⟨⟨_, hb⟩, consistent_mkfs h, hheld⟩

variable [DecidableEq P]

/-- In a run whose calls add no entry to a removed directory, every link count is the number of
names in directories with links, an inode with links is found from the root, and one without is
still referenced. -/
theorem link_counts (h : Mkfs files space ninodes) {m : Machine P Disk}
    (hm : Reach (Step SparesRemoved) (fresh (mkfs files space ninodes)) m) (i : ℕ)
    (hi : (m.st.disk.inode i).type ≠ .free) :
    (m.st.disk.inode i).nlink = linkCount m.st.disk i ∧
      (0 < (m.st.disk.inode i).nlink → Reached (graph m.st.disk) ROOTINO i) ∧
      ((m.st.disk.inode i).nlink = 0 → 0 < m.st.cache.ref i) := by
  have hinv : Inv m.st := hm.inv (P := fun m => Inv m.st) (inv_fresh h) fun m a m' hm hst =>
    hm.step id hst
  have hne : i ≠ 0 := by
    have := ((hinv.tree.good i).range hi).1
    omega
  refine ⟨?_, fun hpos => hinv.tree.tree.reached_of_indeg ?_, fun hl => ?_⟩
  · rw [hinv.tree.links, hinv.tree.linkCount_eq hne]
  · rw [hinv.tree.links] at hpos
    exact_mod_cast hpos
  · obtain ⟨R, hb⟩ := hinv.busy
    rw [hb.ref]
    have := hinv.held i hi hl
    omega

end Theorems

/-- A disk with no files. -/
def emptyDisk : Disk := mkfs [] 900 8

/-- `false` makes a directory `d` and goes there; `true` removes it; `false` makes a file `f` in
it. -/
def fileInRemoved : List (Bool × Call) :=
  [(false, .mkdir [100]), (false, .chdir [100]), (true, .unlink [100]), (false, .openFile [102] O_CREATE)]

/-- The file has a link, but no name in a directory with links. -/
theorem file_in_removed_directory : ∃ m : Machine Bool Disk,
    Reach (Step fun _ _ _ => True) (fresh emptyDisk) m ∧ (m.st.disk.inode 3).type = .file ∧
      (m.st.disk.inode 3).nlink = 1 ∧ linkCount m.st.disk 3 = 0 := by
  obtain ⟨m, hm, hval⟩ : ∃ m, Lib.Run.exec next (fresh (P := Bool) emptyDisk) fileInRemoved = some m ∧
      (m.st.disk.inode 3).type = .file ∧ (m.st.disk.inode 3).nlink = 1 ∧ linkCount m.st.disk 3 = 0 :=
    exists_any (by decide +kernel)
  exact ⟨m, (reach_of_exec _ hm).mono fun _ _ _ h => ⟨trivial, h⟩, hval⟩

lemma mkfs_emptyDisk : Mkfs [] 900 8 := ⟨nofun, by decide, by decide, by decide⟩

lemma mkdir_spares : SparesRemoved (fresh (P := Bool) (mkfs [] 900 8)).st false (.mkdir [100]) := by
  intro path dp name hpath hp _
  cases hpath
  have hp' : resolveParent (fresh (P := Bool) (mkfs [] 900 8)).st.disk
      (fresh (P := Bool) (mkfs [] 900 8)).st.procs false [100] = some (1, [100]) := by
    decide +kernel
  rw [hp'] at hp
  cases hp
  decide

/-- A run of one call: the new directory has one name. -/
theorem link_counts_mkdir : ∃ m : Machine Bool Disk,
    Reach (Step SparesRemoved) (fresh (mkfs [] 900 8)) m ∧ (m.st.disk.inode 2).type = .dir ∧
      (m.st.disk.inode 2).nlink = linkCount m.st.disk 2 := by
  have hrun : (next (fresh (P := Bool) emptyDisk) (false, .mkdir [100])).map (fun m =>
      (m.st.disk.inode 2).type) = some .dir := by
    decide +kernel
  obtain ⟨m, hm, hval⟩ := Option.map_eq_some_iff.mp hrun
  have hreach : Reach (Step SparesRemoved) (fresh (mkfs [] 900 8)) m :=
    .tail (a := (false, .mkdir [100])) .refl ⟨mkdir_spares, hm⟩
  refine ⟨m, hreach, hval, (link_counts mkfs_emptyDisk hreach 2 ?_).1⟩
  rw [hval]
  exact nofun

end Xv6.Fs
