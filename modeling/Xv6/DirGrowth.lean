import Xv6.FsLinks

/-!
Whether `link` and `create` report that an entry cannot be added. A directory of `MAXFILE` blocks
without an empty slot takes no entry more: `writei` returns `-1`, and `dirlink` panics instead of
passing the error on. This module says exactly when a call adds one entry or gives everything back.
-/

namespace Xv6.Fs

open Xv6.Lib.Wp

/-- The calls that add an entry; `create` is called by `open`, `mkdir` and `mknod`. -/
inductive Add
  | link (old new : List UInt8)
  | create (path : List UInt8) (type : InodeType) (htype : type ≠ .free) (major minor : ℤ)

/-- The call, and whether it succeeds. -/
def Add.run {P : Type} (me : P) : Add → FsM P Disk Bool
  | .link old new => do
    let r ← sysLink me old new
    pure (decide (r = 0))
  | .create path type _ major minor => do
    beginOp
    let ip ← Fs.create me path type major minor
    pure ip.isSome

/-- The entries in use. -/
def used (es : List Dirent) : Multiset Dirent := (es : Multiset Dirent).filter fun e => e.inum ≠ 0

/-- One entry more in `dp`, and no other directory is changed. -/
structure Adds (d d' : Disk) (dp : ℕ) (e : Dirent) : Prop where
  entry : used (d'.inode dp).ents = e ::ₘ used (d.inode dp).ents
  other : ∀ j, j ≠ dp → (d.inode j).type ≠ .free → (d'.inode j).ents = (d.inode j).ents

/-- The directory, the name and the inode of the new entry. -/
def Add.Names {P : Type} (s : St P Disk) (me : P) (dp : ℕ) (name : Name) (ip : ℕ) : Add → Prop
  | .link old new => resolve s.disk s.procs me old = some ip ∧
      resolveParent s.disk s.procs me new = some (dp, name)
  | .create path _ _ _ _ => freeInode s.disk = some ip ∧
      resolveParent s.disk s.procs me path = some (dp, name)

/-- The entry has been added, or link counts and directories are as before. -/
def Add.Done {P : Type} (s : St P Disk) (me : P) (a : Add) (ok : Bool) (d : Disk) : Prop :=
  if ok then ∃ dp name ip, a.Names s me dp name ip ∧ Adds s.disk d dp ⟨ip, name.take DIRSIZ⟩
  else ∀ j, (d.inode j).nlink = (s.disk.inode j).nlink ∧ (d.inode j).ents = (s.disk.inode j).ents

/-- The call returns, and has done one or the other. -/
def Reported {P : Type} (s : St P Disk) (me : P) (a : Add) : Prop :=
  ∃ ok s', a.run me s = .ok (ok, s') ∧ a.Done s me ok s'.disk

/-- The name that `create` is called with is not there. -/
def Add.NewName {P : Type} (s : St P Disk) (me : P) : Add → Prop
  | .link _ _ => True
  | .create path _ _ _ _ => ∀ dp name, resolveParent s.disk s.procs me path = some (dp, name) →
      find name (s.disk.inode dp).ents = none

/-- A path can be followed: the cache has room, and no inode on the way is free. -/
def Reaches {P : Type} (s : St P Disk) (me : P) (xs : Multiset ℕ) (parent : Bool)
    (path : List UInt8) : Prop :=
  Room s.disk s.cache.ref s.cache.room xs parent s.procs me path ∧
    Clear s.disk (start s.procs me path) (elems path)

/-- What `link` needs once it has the inode: a new name that is not one of the directory it is
looked up in, and where there is no such name yet, a directory that is not full, the blocks for it
to grow, and a number that fits into an entry. -/
def LinkAble {P : Type} (s : St P Disk) (me : P) (ip : ℕ) (new : List UInt8) : Prop :=
  Reaches s me {ip} true new ∧
    ∀ dp name, resolveParent s.disk s.procs me new = some (dp, name) →
      (∀ i off, find name (s.disk.inode dp).ents = some (i, off) →
        i ≠ dp ∧ need s.cache.ref (i ::ₘ dp ::ₘ ip ::ₘ 0) ≤ s.cache.room) ∧
      (find name (s.disk.inode dp).ents = none → Enters s.disk dp ∧ 0 < ip ∧ ip < 2 ^ 16)

/-- What a call needs. -/
def Able {P : Type} (s : St P Disk) (me : P) : Add → Prop
  | .link old new => Reaches s me 0 false old ∧
      ∀ ip, resolve s.disk s.procs me old = some ip → (s.disk.inode ip).type ≠ .free ∧
        ((s.disk.inode ip).type ≠ .dir → LinkAble s me ip new)
  | .create path type _ _ _ => Reaches s me 0 true path ∧
      ∀ dp name, resolveParent s.disk s.procs me path = some (dp, name) →
        ∃ ip, Creates s.disk s.cache.ref s.cache.room dp type ip ∧ ip < 2 ^ 16

/-! ### Entries -/

section Entries

variable {es : List Dirent} {e : Dirent} {d : Disk} {dp ip : ℕ} {name : Name}

lemma used_enter : used (putSlot es (freeSlot es) e) = used [e] + used es := by
  refine Multiset.ext.mpr fun a => ?_
  unfold used
  rw [Multiset.count_add, Multiset.count_filter, Multiset.count_filter, Multiset.count_filter]
  split_ifs with ha
  · simp only [Multiset.coe_count, List.count_eq_countP]
    rw [countP_enter, List.countP_singleton, add_comm]
    intro o ho
    refine beq_eq_false_iff_ne.mpr ?_
    rintro rfl
    exact ha ho
  · rfl

lemma used_singleton : used [e] = if e.inum = 0 then 0 else {e} := by
  unfold used
  split_ifs with h0
  · exact Multiset.filter_eq_nil.mpr fun o ho => by simpa [Multiset.mem_singleton.mp ho] using h0
  · exact Multiset.filter_eq_self.mpr fun o ho => by simpa [Multiset.mem_singleton.mp ho] using h0

/-- The entry is the one that was asked for if the number fits. -/
lemma used_inum (n : Name) (E : Multiset Dirent) :
    used [⟨ip % 2 ^ 16, n⟩] + E = ⟨ip, n⟩ ::ₘ E ↔ 0 < ip ∧ ip < 2 ^ 16 := by
  rw [used_singleton]
  dsimp only
  split_ifs with h0
  · rw [zero_add]
    refine iff_of_false (fun he => ?_) (by omega)
    have hcard := congrArg Multiset.card he
    rw [Multiset.card_cons] at hcard
    omega
  · rw [Multiset.singleton_add, Multiset.cons_inj_left, Dirent.mk.injEq]
    simp only [and_true]
    omega

lemma adds_iff {d' : Disk} (hents : (d'.inode dp).ents = putSlot (d.inode dp).ents
      (freeSlot (d.inode dp).ents) ⟨ip % 2 ^ 16, name.take DIRSIZ⟩)
    (hother : ∀ j, j ≠ dp → (d.inode j).type ≠ .free → (d'.inode j).ents = (d.inode j).ents) :
    Adds d d' dp ⟨ip, name.take DIRSIZ⟩ ↔ 0 < ip ∧ ip < 2 ^ 16 := by
  rw [← used_inum (name.take DIRSIZ) (used (d.inode dp).ents), ← used_enter, ← hents]
  exact ⟨Adds.entry, fun he => ⟨he, hother⟩⟩

lemma create_ents {type : InodeType} {major minor : ℤ} (hne : ip ≠ dp) :
    ((d.create dp ip name type major minor).inode dp).ents = putSlot (d.inode dp).ents
      (freeSlot (d.inode dp).ents) ⟨ip % 2 ^ 16, name.take DIRSIZ⟩ := by
  by_cases ht : type = .dir
  · subst ht
    rw [create_dir_dir hne]
    rfl
  · rw [create_file_dir hne ht]
    rfl

end Entries

/-! ### Calls -/

section Calls

variable {P : Type} {s : St P Disk} {me : P} {old new path : List UInt8} {type : InodeType}
  {htype : type ≠ .free} {major minor : ℤ}

lemma Add.done_same (a : Add) : a.Done s me false s.disk := fun _ => ⟨rfl, rfl⟩

/-- `link` has made an entry. -/
lemma linked_done {dp ip : ℕ} {name : Name} (hdir : (s.disk.inode ip).type ≠ .dir)
    (hr : resolve s.disk s.procs me old = some ip)
    (hp : resolveParent s.disk s.procs me new = some (dp, name)) :
    (Add.link old new).Done s me true
      ((s.disk.set ip ((s.disk.inode ip).link 1)).link dp name ip) ↔ 0 < ip ∧ ip < 2 ^ 16 := by
  have hne : dp ≠ ip := by
    rintro rfl
    exact hdir (target_dir hp)
  have hadds : Adds s.disk ((s.disk.set ip ((s.disk.inode ip).link 1)).link dp name ip) dp
      ⟨ip, name.take DIRSIZ⟩ ↔ 0 < ip ∧ ip < 2 ^ 16 := by
    refine adds_iff ?_ fun j hj _ => ?_
    · rw [link_self, set_other _ hne]
      rfl
    · rw [link_other hj]
      exact (sameTree_link s.disk ip 1 j).2
  refine ⟨?_, fun hip => ⟨dp, name, ip, ⟨hr, hp⟩, hadds.mpr hip⟩⟩
  rintro ⟨dp', name', ip', ⟨hr', hp'⟩, h⟩
  obtain rfl : ip = ip' := Option.some.inj (hr.symm.trans hr')
  cases hp.symm.trans hp'
  exact hadds.mp h

lemma linkAble_of {ip dp : ℕ} {name : Name}
    (hp : resolveParent s.disk s.procs me new = some (dp, name))
    (hroom : Room s.disk s.cache.ref s.cache.room {ip} true s.procs me new)
    (hfound : ∀ i off, find name (s.disk.inode dp).ents = some (i, off) →
      i ≠ dp ∧ need s.cache.ref (i ::ₘ dp ::ₘ ip ::ₘ 0) ≤ s.cache.room)
    (hnew : find name (s.disk.inode dp).ents = none → Enters s.disk dp ∧ 0 < ip ∧ ip < 2 ^ 16) :
    LinkAble s me ip new := by
  refine ⟨⟨hroom, clear_of_target hp⟩, fun dp' name' hp' => ?_⟩
  cases hp.symm.trans hp'
  exact ⟨hfound, hnew⟩

/-- `link` returns with one entry more or everything as before, if it can. -/
lemma wp_link_able (h : Quiet s) :
    wp ((Add.link old new).run me)
      (fun ok s' => (Add.link old new).Done s me ok s'.disk ↔ Able s me (.link old new))
      (fun _ => ¬ Able s me (.link old new)) s := by
  have hsame : (Add.link old new).Done s me false s.disk := Add.done_same _
  refine wp_bind (wp_bind (wp_setProcs (wp_linkOp h.busy (h.cwd me) h.kept
    (fun hr ha => hr ha.1.1) (fun hcl ha => hcl ha.1.2) (fun ip hr hf ha => (ha.2 ip hr).1 hf)
    (fun hdirs hr hcl c' _ => wp_pure (iff_of_true hsame ⟨⟨hr, hcl⟩, fun ip hip => ?_⟩))
    fun ip hr hty hdir hroom c' hb => ?_)))
  · rw [hdirs ip hip]
    exact ⟨nofun, fun hne => absurd rfl hne⟩
  have hable : Able s me (.link old new) ↔ LinkAble s me ip new := by
    obtain ⟨r, ht, -⟩ := Option.map_eq_some_iff.mp hr
    refine ⟨fun ha => (ha.2 ip hr).2 hdir,
      fun ha => ⟨⟨hroom, clear_of_target ht⟩, fun j hj => ?_⟩⟩
    rw [← Option.some.inj (hr.symm.trans hj)]
    exact ⟨hty, fun _ => ha⟩
  rw [hable]
  refine wp_linkNew hb (h.cwd me) h.kept hty hdir (fun hr ha => hr ha.1.1)
    (fun hcl ha => hcl ha.1.2)
    (fun hp hr hcl c' _ => wp_pure (iff_of_true hsame ⟨⟨hr, hcl⟩, fun dp name hp' => ?_⟩))
    (fun dp name off hp hf _ ha => ((ha.2 dp name hp).1 dp off hf).1 rfl)
    (fun dp name i off hp hf _ hlt ha => ?_)
    (fun dp name i off hp hf hr hne hle c' _ =>
      wp_pure (iff_of_true hsame (linkAble_of hp hr ?_ ?_)))
    (fun dp name hp hf hn p _ ha => hn ((ha.2 dp name hp).2 hf).1)
    fun dp name hp hf hroom2 he c' _ => wp_pure ((linked_done hdir hr hp).trans
      ⟨fun hip => linkAble_of hp hroom2 ?_ fun _ => ⟨he, hip⟩,
        fun ha => ((ha.2 dp name hp).2 hf).2⟩)
  · exact nomatch hp.symm.trans hp'
  · exact absurd ((ha.2 dp name hp).1 i off hf).2 (not_le.mpr hlt)
  · intro j off' hf'
    cases hf.symm.trans hf'
    exact ⟨hne, hle⟩
  · exact fun hno => nomatch hno.symm.trans hf
  · exact fun j off' hf' => nomatch hf.symm.trans hf'

/-- `create` has made an inode and its entry. -/
lemma created_done {dp ip : ℕ} {name : Name} (hfree : freeInode s.disk = some ip)
    (hp : resolveParent s.disk s.procs me path = some (dp, name)) :
    (Add.create path type htype major minor).Done s me true
      (s.disk.create dp ip name type major minor) ↔ ip < 2 ^ 16 := by
  obtain ⟨hty, hpos, -⟩ := freeInode_some hfree
  have hadds : Adds s.disk (s.disk.create dp ip name type major minor) dp
      ⟨ip, name.take DIRSIZ⟩ ↔ 0 < ip ∧ ip < 2 ^ 16 := by
    refine adds_iff (create_ents (freeInode_ne hfree (target_dir hp))) fun j hj hjf => ?_
    rw [create_other hj fun e => hjf (e ▸ hty)]
  refine ⟨?_, fun hip => ⟨dp, name, ip, ⟨hfree, hp⟩, hadds.mpr ⟨hpos, hip⟩⟩⟩
  rintro ⟨dp', name', ip', ⟨hfree', hp'⟩, h⟩
  obtain rfl : ip = ip' := Option.some.inj (hfree.symm.trans hfree')
  cases hp.symm.trans hp'
  exact (hadds.mp h).2

/-- The same of `create`, with a new name. -/
lemma wp_create_able (h : Quiet s) (hnew : (Add.create path type htype major minor).NewName s me) :
    wp ((Add.create path type htype major minor).run me)
      (fun ok s' => (Add.create path type htype major minor).Done s me ok s'.disk ↔
        Able s me (.create path type htype major minor))
      (fun _ => ¬ Able s me (.create path type htype major minor)) s := by
  have hold {dp ip off : ℕ} {name : Name}
      (hp : resolveParent s.disk s.procs me path = some (dp, name))
      (hf : find name (s.disk.inode dp).ents = some (ip, off)) : False :=
    nomatch (hnew dp name hp).symm.trans hf
  refine wp_bind (wp_setProcs (wp_bind (wp_create h.busy htype (h.cwd me) h.kept
    (fun hr ha => hr ha.1.1) (fun hcl ha => hcl ha.1.2)
    (fun dp name ip off hp hf => (hold hp hf).elim) (fun dp name hp _ hno p _ ha => ?_)
    (fun hno hr hcl c' _ =>
      wp_pure (iff_of_true (Add.done_same _) ⟨⟨hr, hcl⟩, fun dp name hp => ?_⟩))
    (fun dp name ip off hp hf => (hold hp hf).elim) fun dp name ip hp hf hr hc c' _ =>
      wp_pure ((created_done hc.free hp).trans ⟨fun hip => ⟨⟨hr, clear_of_target hp⟩,
        fun dp' name' hp' => ?_⟩, fun ha => ?_⟩))))
  · obtain ⟨ip, hc, -⟩ := ha.2 dp name hp
    exact hno ip hc
  · exact absurd (hnew dp name hp) (hno dp name hp)
  · cases hp.symm.trans hp'
    exact ⟨ip, hc, hip⟩
  · obtain ⟨j, hj, hlt⟩ := ha.2 dp name hp
    rwa [Option.some.inj (hc.free.symm.trans hj.free)]

/-- **Errors are reported** exactly by the calls that have what they need. A full directory, an
inode that is looked up in itself, and a disk or a cache without room stop the call for ever. -/
theorem add_reported (h : Quiet s) (a : Add) (hnew : a.NewName s me) :
    Reported s me a ↔ Able s me a := by
  have hwp : wp (a.run me) (fun ok s' => a.Done s me ok s'.disk ↔ Able s me a)
      (fun _ => ¬ Able s me a) s := by
    cases a with
    | link old new => exact wp_link_able h
    | create path type htype major minor => exact wp_create_able h hnew
  rcases hrun : a.run me s with e | ⟨ok, s'⟩
  · have hno := wp_error hwp hrun
    refine iff_of_false ?_ hno
    rintro ⟨ok, s', hok, -⟩
    exact nomatch hrun.symm.trans hok
  · rw [← wp_ok hwp hrun]
    refine ⟨?_, fun hdone => ⟨ok, s', hrun, hdone⟩⟩
    rintro ⟨ok', s'', hok, hdone⟩
    obtain ⟨rfl, rfl⟩ := Prod.mk.inj (Except.ok.inj (hrun.symm.trans hok))
    exact hdone

end Calls

/-- A name for the file `f`. -/
theorem add_reported_link : Reported oneFile () (.link [102] [103]) := by
  have hroot : (oneFile.disk.inode ROOTINO).type = .dir := rfl
  have hold : find [102] (oneFile.disk.inode ROOTINO).ents = some (2, 2) := by decide +kernel
  have hnew : find [103] (oneFile.disk.inode ROOTINO).ents = none := by decide +kernel
  have helems (b : UInt8) (hb : b = 102 ∨ b = 103) : elems [b] = [[b]] := by
    rcases hb with rfl | rfl <;> decide +kernel
  have hres : resolve oneFile.disk oneFile.procs () [102] = some 2 := by decide +kernel
  have hpar : resolveParent oneFile.disk oneFile.procs () [103] = some (ROOTINO, [103]) := by
    decide +kernel
  refine (add_reported quiet_oneFile (.link [102] [103]) trivial).mpr
    ⟨⟨⟨by decide +kernel, ?_⟩, ?_⟩, fun ip hip => ?_⟩
  · rw [helems 102 (.inl rfl)]
    intro _ _ j off hf
    cases hold.symm.trans hf
    exact ⟨by decide +kernel, trivial⟩
  · rw [helems 102 (.inl rfl)]
    exact ⟨fun hf => (nomatch hroot.symm.trans hf), fun _ _ _ _ => trivial⟩
  · cases hres.symm.trans hip
    refine ⟨by decide +kernel, fun _ => linkAble_of hpar ⟨by decide +kernel, ?_⟩ ?_ fun _ => ?_⟩
    · rw [helems 103 (.inr rfl)]
      exact fun _ hlast => absurd ⟨rfl, rfl⟩ hlast
    · exact fun i off hf => nomatch hnew.symm.trans hf
    · exact ⟨⟨by decide +kernel, by decide +kernel⟩, by decide, by decide⟩

/-! ### A full directory -/

/-- `MAXFILE` blocks of entries, all in use: besides `.` and `..` they are names of one file. -/
def fullRoot : Inode where
  type := .dir
  major := 0
  minor := 0
  nlink := 1
  ents := [⟨ROOTINO, dot⟩, ⟨ROOTINO, dotdot⟩] ++ (List.range 4478).map fun k =>
    ⟨2, [UInt8.ofNat (48 + k / 100), UInt8.ofNat (48 + k % 100)]⟩
  blocks := 141

def fullDir : St Unit Disk where
  disk :=
    { inode := fun i => if i = ROOTINO then fullRoot
        else if i = 2 then ⟨.file, 0, 0, 4478, [], 1⟩ else .new .free
      space := 500
      ninodes := 200 }
  procs := ⟨fun _ => ROOTINO, fun _ _ => none, NFILE, 0⟩
  cache :=
    ⟨fun i => if i = ROOTINO then 1 else 0, fun _ => false, fun _ => false, NINODE - 1⟩

lemma quiet_fullDir : Quiet fullDir := by
  have hnlink (i : ℕ) : (fullDir.disk.inode i).nlink =
      if i = ROOTINO then 1 else if i = 2 then 4478 else 0 := by
    simp only [fullDir]
    split_ifs <;> rfl
  refine ⟨fun _ => rfl, fun _ => Nat.one_pos, nofun, nofun, fun i hi hl => ?_, fun i hty hl => ?_,
    fun i => ?_⟩
  · rw [hnlink] at hl
    by_cases h1 : i = ROOTINO
    · rw [if_pos h1] at hl
      cases hl
    · simp [fullDir, h1] at hi
  · rw [hnlink] at hl
    split_ifs at hl with h1 h2
    · cases hl
    · cases hl
    · simp [fullDir, h1, h2, Inode.new] at hty
  · rw [hnlink]
    split_ifs <;> decide

/-- One more name for the file, or a new file: the kernel panics, with a name that is new and every
inode, block and slot of the cache that it could need. -/
theorem add_full_panics : Quiet fullDir ∧
    (Add.link [48, 48] [102]).run () fullDir = .error (.panic .dirlink) ∧
    (Add.create [102] .file nofun 0 0).run () fullDir = .error (.panic .dirlink) ∧
    ¬ Reported fullDir () (.link [48, 48] [102]) ∧
    ¬ Reported fullDir () (.create [102] .file nofun 0 0) := by
  have hlink : (Add.link [48, 48] [102]).run () fullDir = .error (.panic .dirlink) :=
    ending_eq_some.mp (by decide +kernel)
  have hcreate : (Add.create [102] .file nofun 0 0).run () fullDir = .error (.panic .dirlink) :=
    ending_eq_some.mp (by decide +kernel)
  refine ⟨quiet_fullDir, hlink, hcreate, ?_, ?_⟩
  · rintro ⟨ok, s', hok, -⟩
    exact nomatch hlink.symm.trans hok
  · rintro ⟨ok, s', hok, -⟩
    exact nomatch hcreate.symm.trans hok

end Xv6.Fs
