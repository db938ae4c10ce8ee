import Xv6.FsLinks

/-!
Entries that lead nowhere. A directory that has been removed keeps its entry `..`, which does not
count as a link of the parent: the parent can be freed while a process is still below it. In a run
where that does not happen every entry names an inode in use, and no lookup finds a freed one.
-/

namespace Xv6.Fs

open Xv6.Lib.Wp Xv6.Lib.Forest Xv6.Lib.Run

/-- The call frees inode `p`: it takes its last name while nobody holds it, or its last reference
when it has no names. -/
def Frees {P : Type} (s : St P Disk) (me : P) : Call → ℕ → Prop
  | .unlink path, p => ∃ dp name off, resolveParent s.disk s.procs me path = some (dp, name) ∧
      find name (s.disk.inode dp).ents = some (p, off) ∧ (s.disk.inode p).nlink = 1 ∧ s.cache.ref p = 0
  | .chdir path, p => p = s.procs.cwd me ∧ (s.disk.inode p).nlink = 0 ∧ s.cache.ref p = 1 ∧
      ∃ i, resolve s.disk s.procs me path = some i ∧ i ≠ p
  | .close fd, p => s.procs.ofile me fd = some p ∧ (s.disk.inode p).nlink = 0 ∧ s.cache.ref p = 1
  | _, _ => False

/-- The call frees no inode that is the parent of another directory. -/
def SparesParents {P : Type} (s : St P Disk) (me : P) (c : Call) : Prop :=
  ∀ p, Frees s me c p → ∀ x, x ≠ p → (s.disk.inode x).type = .dir → up (s.disk.inode x) ≠ p

def SparesBoth {P : Type} (s : St P Disk) (me : P) (c : Call) : Prop :=
  SparesRemoved s me c ∧ SparesParents s me c

/-- The entries `..` lead to inodes in use. -/
def UpLive (d : Disk) : Prop :=
  ∀ x, (d.inode x).type = .dir → (d.inode (up (d.inode x))).type ≠ .free

section Steps

variable {d d' : Disk} {i j dp ip off : ℕ} {name : Name}

/-- Directories stay where they are, and what is freed is nobody's parent. -/
lemma UpLive.of_kept (h : UpLive d)
    (hdir : ∀ x, (d'.inode x).type = .dir → (d.inode x).type = .dir ∧
      up (d'.inode x) = up (d.inode x))
    (hfree : ∀ p, (d'.inode p).type = .free → (d.inode p).type ≠ .free →
      ∀ x, (d'.inode x).type = .dir → up (d.inode x) ≠ p) : UpLive d' := by
  intro x hx hf
  obtain ⟨hx', hup⟩ := hdir x hx
  rw [hup] at hf
  exact hfree _ hf (h x hx') x hx rfl

lemma putEnt_up (h : Consistent d) (hdp : dp ∈ d.dirs) {k : ℕ} {e : Dirent} (hk : 2 ≤ k)
    (hlen : k ≤ (d.inode dp).ents.length) (he : e.inum ≠ 0 → e.name ≠ dot ∧ e.name ≠ dotdot) :
    up ((d.inode dp).putEnt k e) = up (d.inode dp) :=
  ((h.good dp).putEnt (h.mem_dirs.mp hdp).1 (h.nlink_ne hdp) hk hlen he).2

variable {type : InodeType} {major minor : ℤ} {n : ℕ}

lemma create_type (j : ℕ) :
    ((d.create dp ip name type major minor).inode j).type = if j =
      ip then type else (d.inode j).type := by
  unfold Disk.create Disk.link
  dsimp only
  rw [putEnt_type]
  have hset (j : ℕ) : ((d.set ip ((Inode.new type).init major minor)).inode j).type =
      if j = ip then type else (d.inode j).type := by
    by_cases hj : j = ip
    · rw [hj, set_self, if_pos rfl]
      rfl
    · rw [set_other _ hj, if_neg hj]
  split_ifs with ht
  all_goals
    first
      | rw [putEnt_type, putEnt_type, (sameTree_link _ dp 1 j).1, hset]
      | rw [hset]
  all_goals simp [*]

lemma UpLive.create (hu : UpLive d) (h : Consistent d) (hdp : dp ∈ d.dirs)
    (hf : find name (d.inode dp).ents = none) (hip : freeInode d = some ip) (hty : type ≠ .free) :
    UpLive (d.create dp ip name type major minor) := by
  obtain ⟨-, hip0, hipn⟩ := freeInode_some hip
  have hdir := (h.mem_dirs.mp hdp).1
  have hne := freeInode_ne hip hdir
  have hlive {j : ℕ} (hj : (d.inode j).type ≠ .free) :
      ((d.create dp ip name type major minor).inode j).type ≠ .free := by
    rw [create_type]
    split_ifs
    · exact hty
    · exact hj
  have hdplive : (d.inode dp).type ≠ .free := by
    rw [hdir]
    exact nofun
  intro x hx
  by_cases hxi : x = ip
  · subst hxi
    rw [create_type, if_pos rfl] at hx
    subst hx
    rw [create_dir_self name major minor hne (by rw [h.mod_eq hipn]; omega)]
    change ((d.create dp x name .dir major minor).inode (dp % 2 ^ 16)).type ≠ .free
    rw [h.mod_eq (h.dir_ne_zero hdp).2]
    exact hlive hdplive
  · rw [create_type, if_neg hxi] at hx
    have hup : up ((d.create dp ip name type major minor).inode x) = up (d.inode x) := by
      by_cases hxd : x = dp
      · subst hxd
        have hput := putEnt_up (e := ⟨ip % 2 ^ 16, name.take DIRSIZ⟩) h hdp (h.slot hdp).1
          (h.slot hdp).2
          fun _ => h.new_name hdp hf
        by_cases ht : type = .dir
        · subst ht
          rw [create_dir_dir hne]
          exact hput
        · rw [create_file_dir hne ht]
          exact hput
      · rw [create_other hxd hxi]
    rw [hup]
    exact hlive (hu x hx)

lemma put_type_ne (hj : ((d.put i n).inode j).type = .free) (hd : (d.inode j).type ≠ .free) :
    j = i ∧ (d.inode i).nlink = 0 ∧ n = 0 := by
  unfold Disk.put at hj
  split_ifs at hj with hc
  · by_cases hji : j = i
    · exact ⟨hji, hc⟩
    · rw [show (d.free i).inode j = d.inode j by simp [Disk.free, Disk.set, hji]] at hj
      exact absurd hj hd
  · exact absurd hj hd

lemma put_dir (hj : ((d.put i n).inode j).type = .dir) : (d.put i n).inode j = d.inode j := by
  unfold Disk.put at hj ⊢
  split_ifs at hj ⊢ with hc
  · by_cases hji : j = i
    · rw [hji] at hj
      simp [Disk.free, Disk.set] at hj
    · simp [Disk.free, Disk.set, hji]
  · rfl

lemma UpLive.put (hu : UpLive d) (hi : (d.inode i).nlink = 0 → n = 0 →
    ∀ x, x ≠ i → (d.inode x).type = .dir → up (d.inode x) ≠ i) : UpLive (d.put i n) := by
  refine hu.of_kept (fun x hx => ?_) fun p hp hp' x hx => ?_
  · have hsame := put_dir hx
    rw [hsame] at hx ⊢
    exact ⟨hx, rfl⟩
  · obtain ⟨rfl, hl, hn⟩ := put_type_ne hp hp'
    have hxp : x ≠ p := by
      rintro rfl
      rw [hp] at hx
      cases hx
    rw [put_dir hx] at hx
    exact hi hl hn x hxp hx

lemma cut_up (h : Consistent d) (hdp : dp ∈ d.dirs) (hoff : 2 ≤ off)
    (hlen : off ≤ (d.inode dp).ents.length) (x : ℕ) :
    up ((d.cut dp off ip).inode x) = up (d.inode x) := by
  by_cases hxd : x = dp
  · subst hxd
    have hput := putEnt_up (e := ⟨0, []⟩) h hdp hoff hlen fun hc => absurd rfl hc
    rw [← hput]
    unfold up
    rw [cut_ents_self]
    rfl
  · unfold up
    rw [cut_ents hxd]

lemma cut_nlink (h : Consistent d) (hne : ip ≠ dp) :
    ((d.cut dp off ip).inode ip).nlink = (d.inode ip).nlink - 1 := by
  have hsame : (if (d.inode ip).type = .dir then
      (d.putEnt dp off ⟨0, []⟩).set dp (((d.putEnt dp off ⟨0, []⟩).inode dp).link (-1))
      else d.putEnt dp off ⟨0, []⟩).inode ip = d.inode ip := by
    split_ifs
    · rw [set_other _ hne, putEnt_other hne]
    · rw [putEnt_other hne]
  unfold Disk.cut
  dsimp only
  rw [set_self, hsame]
  exact h.wrap16_link (Or.inr rfl)

lemma UpLive.cut (hu : UpLive d) (h : Consistent d) (hdp : dp ∈ d.dirs) (hoff : 2 ≤ off)
    (hlen : off ≤ (d.inode dp).ents.length) : UpLive (d.cut dp off ip) := by
  refine hu.of_kept (fun x hx => ?_) fun p hp hp' => ?_
  · rw [cut_type] at hx
    exact ⟨hx, cut_up h hdp hoff hlen x⟩
  · rw [cut_type] at hp
    exact absurd hp hp'

lemma UpLive.link (hu : UpLive d) (h : Consistent d) (hdp : dp ∈ d.dirs)
    (hf : find name (d.inode dp).ents = none) (hleaf : (d.inode ip).type ≠ .dir) :
    UpLive ((d.set ip ((d.inode ip).link 1)).link dp name ip) := by
  have htype (j : ℕ) : (((d.set ip ((d.inode ip).link 1)).link dp name ip).inode j).type =
      (d.inode j).type := by
    rw [Disk.link, putEnt_type, (sameTree_link d ip 1 j).1]
  have hne : dp ≠ ip := fun he => hleaf (he ▸ (h.mem_dirs.mp hdp).1)
  refine hu.of_kept (fun x hx => ?_) fun p hp hp' => ?_
  · rw [htype] at hx
    refine ⟨hx, ?_⟩
    by_cases hxd : x = dp
    · subst hxd
      rw [link_self, set_other _ hne]
      exact putEnt_up h hdp (h.slot hdp).1 (h.slot hdp).2 fun _ => h.new_name hdp hf
    · have hxi : x ≠ ip := fun he => hleaf (he ▸ hx)
      rw [link_other hxd, set_other _ hxi]
  · rw [htype] at hp
    exact absurd hp hp'

end Steps

section Runs

variable {P : Type} [Fintype P] [DecidableEq P] {s : St P Disk} {me : P} {cl : Call}

omit [DecidableEq P] in
lemma Inv.ref (h : Inv s) (i : ℕ) : s.cache.ref i = holders s.procs i := by
  obtain ⟨R, hb⟩ := h.busy
  rw [hb.ref]
  simp

lemma UpLive.outcome (hu : UpLive s.disk) (h : Inv s) (hok : SparesBoth s me cl) {d' : Disk}
    {pr' : Procs P} {base' : ℕ → ℕ}
    (ho : Outcome s.disk s.procs (holders s.procs) me cl d' pr' base') : UpLive d' := by
  have hdirs {path : List UInt8} {dp : ℕ} {name : Name} (hc : newName cl = some path)
      (hp : resolveParent s.disk s.procs me path = some (dp, name))
      (hf : find name (s.disk.inode dp).ents = none) : dp ∈ s.disk.dirs := by
    have hne := hok.1 path dp name hc hp hf
    exact h.tree.mem_dirs.mpr ⟨target_dir hp, lt_of_le_of_ne h.tree.nlink_nonneg hne.symm⟩
  cases ho with
  | same | opened => exact hu
  | created hc hp hf hip hs =>
    obtain ⟨hname, hty⟩ := creates_newName hc
    exact hu.create h.tree (hdirs hname hp hf) hf hip hty
  | createdOpened hc hp hf hip hs =>
    exact hu.create h.tree (hdirs (if_pos hc) hp hf) hf hip (by simp)
  | linked hr hi hd hp hf hs => exact hu.link h.tree (hdirs rfl hp hf) hf hd
  | @unlinked path dp ip off name hp hn hf hne hi hl he =>
    obtain ⟨o, ho, -, -, hoff, hdp⟩ := h.tree.mem_dirs_of_find (target_dir hp) hn hf
    obtain ⟨hlen, -⟩ := List.getElem?_eq_some_iff.mp ho
    obtain ⟨hcut, heq⟩ := h.tree.cut (holders s.procs) (target_dir hp) hn hf hne he
    have hcl : UpLive (s.disk.cut dp off ip) := hu.cut h.tree hdp hoff hlen.le
    rw [heq]
    refine hcl.put fun hl0 hb x hx hxd => ?_
    rw [cut_nlink h.tree hne] at hl0
    rw [cut_type] at hxd
    rw [cut_up h.tree hdp hoff hlen.le]
    refine hok.2 ip ⟨dp, name, off, hp, hf, by omega, ?_⟩ x hx hxd
    rw [h.ref, hb]
  | @moved path i hr hd =>
    refine hu.put fun hl hn => ?_
    have hpos : 0 < holders s.procs (s.procs.cwd me) := holders_cwd
    have hne : i ≠ s.procs.cwd me := by
      rintro rfl
      simp only [subRef, addRef, Function.update_self] at hn
      omega
    simp only [subRef, addRef, Function.update_self, Function.update_of_ne hne.symm] at hn
    refine hok.2 _ ⟨rfl, hl, ?_, i, hr, hne⟩
    rw [h.ref]
    omega
  | @closed fd i hfd =>
    refine hu.put fun hl hn => hok.2 _ ⟨hfd, hl, ?_⟩
    have := holders_ofile hfd
    rw [h.ref]
    simp only [subRef, Function.update_self] at hn
    omega

omit [DecidableEq P] in
/-- Every entry of a directory names an inode in use. -/
lemma Inv.allLive (h : Inv s) (hu : UpLive s.disk) : AllLive s.disk s.procs.cwd := by
  refine ⟨?_, fun p hf => ?_, fun i hdir e he h0 => ?_⟩
  · have := (h.tree.mem_dirs.mp h.tree.tree.root).1
    rw [this]
    exact nofun
  · -- a working directory without links has been read, and one that is free has none
    obtain ⟨R, hb⟩ := h.busy
    have hl := (h.tree.good _).free hf
    have hpos : 0 < holders s.procs (s.procs.cwd p) := holders_cwd
    exact hb.validLive _ (by rw [hb.ref]; omega) (hb.keepValid _ hpos hl) hf
  · obtain ⟨k, hk⟩ := List.mem_iff_getElem?.mp he
    have hshape := (h.tree.good i).shape hdir
    rcases Nat.lt_or_ge k 2 with h2 | h2
    · obtain ⟨rest, hents, -⟩ := hshape
      rw [hents] at hk
      rcases k with _ | _ | k
      · cases hk
        rw [hdir]
        exact nofun
      · cases hk
        exact hu i hdir
      · omega
    · have hnames : e.Names e.inum := (hshape.names h2 hk h0).mpr rfl
      have hlinked : i ∈ s.disk.dirs := by
        refine h.tree.mem_dirs.mpr ⟨hdir, lt_of_le_of_ne h.tree.nlink_nonneg fun hl => ?_⟩
        have hcount := hshape.empty ((h.tree.good i).removed hdir hl.symm) e.inum
        exact List.countP_eq_zero.mp hcount e he (by simpa using hnames)
      exact (h.tree.named hlinked h2 hk h0).2.2

/-- What a run keeps. -/
structure InvLive (m : Machine P Disk) : Prop where
  inv : Inv m.st
  up : UpLive m.st.disk
  noPanic : m.halted ≠ some (.panic .noType)

lemma InvLive.step {m m' : Machine P Disk} {a : P × Call} (h : InvLive m)
    (hst : Step SparesBoth m a m') : InvLive m' := by
  obtain ⟨hc, hn⟩ := hst
  have hwp := h.inv.call hc.1
  unfold next at hn
  split_ifs at hn
  rcases hr : call a.1 a.2 m.st with e | ⟨r, s'⟩
  · rw [hr] at hn
    cases hn
    refine ⟨h.inv, h.up, fun he => ?_⟩
    exact wp_error hwp hr (Option.some.inj he) (h.inv.allLive h.up)
  · rw [hr] at hn
    cases hn
    obtain ⟨hinv, base', ho⟩ := wp_ok hwp hr
    exact ⟨hinv, h.up.outcome h.inv hc ho, h.noPanic⟩

variable [Nonempty P] {files : List Copied} {space ninodes : ℕ}

omit [DecidableEq P] in
lemma invLive_fresh (h : Mkfs files space ninodes) :
    InvLive (fresh (P := P) (mkfs files space ninodes)) := by
  refine ⟨inv_fresh h, fun x hx => ?_, nofun⟩
  have hcons := consistent_mkfs h
  change ((mkfs files space ninodes).inode x).type = .dir at hx
  have hroot : x = ROOTINO := by
    by_contra hne
    rcases mkfs_other files space ninodes hne with ⟨f, -, -, hf⟩ | ⟨-, hf⟩
    · rw [hf] at hx
      cases hx
    · rw [hf] at hx
      cases hx
  subst hroot
  change ((mkfs files space ninodes).inode (up ((mkfs files space ninodes).inode ROOTINO))).type ≠
    .free
  rw [show up ((mkfs files space ninodes).inode ROOTINO) = ROOTINO from hcons.tree.rootUp, hx]
  exact nofun

/-- In a run that adds no entry to a removed directory, and frees no parent of another directory,
every entry in use of a directory names an inode in use, as do the places where lookups start, and
no lookup meets a freed inode. -/
theorem no_dangling_entry (h : Mkfs files space ninodes) {m : Machine P Disk}
    (hm : Reach (Step SparesBoth) (fresh (mkfs files space ninodes)) m) :
    AllLive m.st.disk m.st.procs.cwd ∧ m.halted ≠ some (.panic .noType) := by
  have hinv : InvLive m := hm.inv (invLive_fresh h) fun m a m' hm hst => hm.step hst
  exact ⟨hinv.inv.allLive hinv.up, hinv.noPanic⟩

end Runs

/-- `false` goes to `a/b`; `true` removes `a/b` and then `a`. -/
def removeParent : List (Bool × Call) :=
  [(false, .mkdir [97]), (false, .mkdir [97, 47, 98]), (false, .chdir [97, 47, 98]),
    (true, .unlink [97, 47, 98]), (true, .unlink [97])]

/-- The working directory of `false` has an entry for a freed inode; opening it panics. -/
theorem dangling_dotdot : ∃ m m' : Machine Bool Disk,
    Reach (Step fun _ _ _ => True) (fresh emptyDisk) m ∧ m.st.procs.cwd false = 3 ∧
      (m.st.disk.inode 3).type = .dir ∧ (⟨2, dotdot⟩ : Dirent) ∈ (m.st.disk.inode 3).ents ∧
      (m.st.disk.inode 2).type = .free ∧ next m (false, .openFile dotdot O_RDONLY) = some m' ∧
      m'.halted = some (.panic .noType) := by
  have hrun : ((Lib.Run.exec next (fresh (P := Bool) emptyDisk) removeParent).bind fun m =>
      (next m (false, .openFile dotdot O_RDONLY)).map fun m' =>
        (m.st.procs.cwd false, (m.st.disk.inode 3).type, (m.st.disk.inode 3).ents.take 2,
          (m.st.disk.inode 2).type, m'.halted)) =
        some (3, .dir, [⟨3, dot⟩, ⟨2, dotdot⟩], .free, some (.panic .noType)) := by
    decide +kernel
  obtain ⟨m, hm, hrest⟩ := Option.bind_eq_some_iff.mp hrun
  obtain ⟨m', hm', hval⟩ := Option.map_eq_some_iff.mp hrest
  simp only [Prod.mk.injEq] at hval
  obtain ⟨h1, h2, h3, h4, h5⟩ := hval
  refine ⟨m, m', (reach_of_exec _ hm).mono fun _ _ _ h => ⟨trivial, h⟩, h1, h2, ?_, h4, hm', h5⟩
  refine List.mem_of_mem_take (i := 2) ?_
  rw [h3]
  simp

/-- A run of one call. -/
theorem no_dangling_mkdir : ∃ m : Machine Bool Disk,
    Reach (Step SparesBoth) (fresh (mkfs [] 900 8)) m ∧ (m.st.disk.inode 2).type = .dir ∧
      AllLive m.st.disk m.st.procs.cwd := by
  have hrun : (next (fresh (P := Bool) emptyDisk) (false, .mkdir [100])).map (fun m =>
      (m.st.disk.inode 2).type) = some .dir := by
    decide +kernel
  obtain ⟨m, hm, hval⟩ := Option.map_eq_some_iff.mp hrun
  have hreach : Reach (Step SparesBoth) (fresh (mkfs [] 900 8)) m :=
    .tail (a := (false, .mkdir [100])) .refl ⟨⟨mkdir_spares, nofun⟩, hm⟩
  exact ⟨m, hreach, hval, (no_dangling_entry mkfs_emptyDisk hreach).1⟩

end Xv6.Fs
