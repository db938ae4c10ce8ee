import Xv6.InodeSpec

/-!
What a system call does, as a change of the disk and of what processes hold. The cache comes out as
it went in, up to that; the call never returns, and never panics, if it takes a lock twice.
-/

namespace Xv6.Fs

open Xv6.Lib.Wp

/-! ### Paths again -/

variable {off : ℕ} {es : List Dirent}

lemma findFrom_some {name : Name} {k i : ℕ} (h : findFrom name k es = some (i, off)) :
    k ≤ off ∧ ∃ e, es[off - k]? = some e ∧ e.inum = i ∧ i ≠ 0 ∧ namecmp name e.name := by
  induction es generalizing k with
  | nil => cases h
  | cons e es ih =>
    rw [findFrom] at h
    split_ifs at h with he
    · cases h
      exact ⟨le_rfl, e, by simp, rfl, he.1, he.2⟩
    · obtain ⟨hk, e', hget, hrest⟩ := ih h
      refine ⟨by omega, e', ?_, hrest⟩
      rw [show off - k = off - (k + 1) + 1 by omega, List.getElem?_cons_succ]
      exact hget

lemma find_some {name : Name} {i : ℕ} (h : find name es = some (i, off)) :
    ∃ e, es[off]? = some e ∧ e.inum = i ∧ i ≠ 0 ∧ namecmp name e.name := by
  obtain ⟨-, h⟩ := findFrom_some h
  exact h

section Trees

variable {d d' : Disk} {base : ℕ → ℕ} {xs : Multiset ℕ} {R i : ℕ} {parent : Bool}
  {names : List Name}

lemma target_dir {j : ℕ} {name : Name} (h : target d true i names = some (j, name)) :
    (d.inode j).type = .dir := by
  induction names generalizing i with
  | nil => cases h
  | cons n ns ih =>
    rw [target] at h
    split_ifs at h with hd hl
    · cases h
      exact not_not.mp hd
    · rcases hf : find n (d.inode i).ents with _ | ⟨k, off⟩
      · rw [hf] at h
        cases h
      · rw [hf] at h
        exact ih h

/-- The directories on the way are directories. -/
lemma clear_of_target {r : ℕ × Name} (h : target d parent i names = some r) : Clear d i names := by
  induction names generalizing i with
  | nil => trivial
  | cons n ns ih =>
    rw [target] at h
    split_ifs at h with hd hl
    · refine ⟨fun hf => hd (by simp [hf]), fun _ j off _ => ?_⟩
      rw [hl.2]
      trivial
    · refine ⟨fun hf => hd (by simp [hf]), fun _ j off hfind => ?_⟩
      rw [hfind] at h
      exact ih h

/-- The same inodes, up to what is not read on a path. -/
def SameTree (d d' : Disk) : Prop :=
  ∀ i, (d'.inode i).type = (d.inode i).type ∧ (d'.inode i).ents = (d.inode i).ents

lemma target_congr (h : SameTree d d') : target d' parent i names = target d parent i names := by
  induction names generalizing i with
  | nil => rfl
  | cons n ns ih =>
    rw [target, target, (h i).1, (h i).2]
    simp only [ih]

lemma clear_congr (h : SameTree d d') : Clear d' i names ↔ Clear d i names := by
  induction names generalizing i with
  | nil => rfl
  | cons n ns ih =>
    rw [Clear, Clear, (h i).1, (h i).2]
    simp only [ih]

lemma fits_congr (h : SameTree d d') :
    Fits d' base R xs parent i names ↔ Fits d base R xs parent i names := by
  induction names generalizing i with
  | nil => rfl
  | cons n ns ih =>
    rw [Fits, Fits, (h i).1, (h i).2]
    simp only [ih]

lemma sameTree_link (d : Disk) (i : ℕ) (n : ℤ) : SameTree d (d.set i ((d.inode i).link n)) := by
  intro j
  by_cases hj : j = i
  · simp [Disk.set, Inode.link, hj]
  · simp [Disk.set, hj]

end Trees

/-- Every entry of a directory names an inode in use, and so do the places where paths start. -/
structure AllLive {P : Type} (d : Disk) (cwd : P → ℕ) : Prop where
  root : (d.inode ROOTINO).type ≠ .free
  cwd : ∀ p, (d.inode (cwd p)).type ≠ .free
  ents : ∀ i, (d.inode i).type = .dir → ∀ e ∈ (d.inode i).ents, e.inum ≠ 0 →
    (d.inode e.inum).type ≠ .free

section Live

variable {P : Type} {d : Disk} {pr : Procs P} {i : ℕ} {names : List Name} {parent : Bool} {me : P}
  {path : List UInt8}

variable {j : ℕ}

lemma AllLive.find (h : AllLive d pr.cwd) {name : Name} {off : ℕ} (hi : (d.inode i).type = .dir)
    (hf : find name (d.inode i).ents = some (j, off)) : (d.inode j).type ≠ .free := by
  obtain ⟨e, he, rfl, h0, -⟩ := find_some hf
  exact h.ents i hi e (List.mem_of_getElem? he) h0

lemma AllLive.clear (h : AllLive d pr.cwd) (hi : (d.inode i).type ≠ .free) : Clear d i names := by
  induction names generalizing i with
  | nil => trivial
  | cons n ns ih => exact ⟨hi, fun hd j off hf => ih (h.find hd hf)⟩

lemma AllLive.target (h : AllLive d pr.cwd) {name : Name} (hi : (d.inode i).type ≠ .free)
    (ht : target d parent i names = some (j, name)) : (d.inode j).type ≠ .free := by
  induction names generalizing i with
  | nil =>
    rw [Fs.target] at ht
    split_ifs at ht
    cases ht
    exact hi
  | cons n ns ih =>
    rw [Fs.target] at ht
    split_ifs at ht with hd hl
    · cases ht
      exact hi
    · rcases hf : Fs.find n (d.inode i).ents with _ | ⟨k, off⟩
      · rw [hf] at ht
        cases ht
      · rw [hf] at ht
        exact ih (h.find (not_not.mp hd) hf) ht

lemma AllLive.start (h : AllLive d pr.cwd) : (d.inode (start pr me path)).type ≠ .free := by
  unfold Fs.start
  split_ifs
  · exact h.root
  · exact h.cwd me

lemma AllLive.resolve (h : AllLive d pr.cwd) (hr : resolve d pr me path = some j) :
    (d.inode j).type ≠ .free := by
  obtain ⟨⟨j', n⟩, ht, rfl⟩ := Option.map_eq_some_iff.mp hr
  exact h.target h.start ht

end Live

/-! ### Entries of a new inode -/

section Create

variable {d : Disk} {i k : ℕ} {e : Dirent}

lemma putEnt_other {j : ℕ} (hj : j ≠ i) : (d.putEnt i k e).inode j = d.inode j := by
  unfold Disk.putEnt
  dsimp only
  split_ifs <;> simp [Disk.set, hj]

lemma putEnt_type (j : ℕ) : ((d.putEnt i k e).inode j).type = (d.inode j).type := by
  by_cases hj : j = i
  · subst hj
    unfold Disk.putEnt
    dsimp only
    split_ifs <;> simp [Disk.set]
  · rw [putEnt_other hj]

lemma putEnt_nlink (j : ℕ) : ((d.putEnt i k e).inode j).nlink = (d.inode j).nlink := by
  by_cases hj : j = i
  · subst hj
    unfold Disk.putEnt
    dsimp only
    split_ifs <;> simp [Disk.set]
  · rw [putEnt_other hj]

/-- The entries `.` and `..` take one block. -/
lemma dots_space {ip dp : ℕ} (hents : (d.inode ip).ents = []) :
    ((d.link ip dot ip).link ip dotdot dp).space = d.space - 1 := by
  have h1 : newBlocks 0 = 1 := by decide
  have h2 : newBlocks 1 = 0 := by decide
  by_cases h0 : ip % 65536 = 0 <;>
    simp [Disk.link, Disk.putEnt, Disk.set, hents, freeSlot, h0, h1, h2]

/-- An inode without entries takes the first one with a block. -/
lemma enters_nil (h : (d.inode i).ents = []) : Enters d i ↔ 1 ≤ d.space := by
  unfold Enters
  rw [h]
  exact ⟨fun he => he.2 le_rfl, fun hs => ⟨by decide, fun _ => hs⟩⟩

/-- The second one needs none. -/
lemma enters_one (h : (d.inode i).ents = [e]) : Enters d i := by
  have hslot : freeSlot [e] = if e.inum = 0 then 0 else 1 := by
    by_cases h0 : e.inum = 0 <;> simp [freeSlot, h0]
  unfold Enters
  rw [h, hslot]
  split_ifs
  · exact ⟨by decide, nofun⟩
  · exact ⟨by decide, fun _ => Nat.zero_le _⟩

end Create

def Inode.init (x : Inode) (major minor : ℤ) : Inode :=
  { x with major := major, minor := minor, nlink := 1 }

/-- What `create` does to the disk. -/
def Disk.create (d : Disk) (dp ip : ℕ) (name : Name) (type : InodeType) (major minor : ℤ) : Disk :=
  let d := d.set ip ((Inode.new type).init major minor)
  let d :=
    if type = .dir then ((d.set dp ((d.inode dp).link 1)).link ip dot ip).link ip dotdot dp else d
  d.link dp name ip

/-- The blocks it takes. -/
def createNeed (d : Disk) (dp : ℕ) (type : InodeType) : ℕ :=
  (if type = .dir then 1 else 0) +
    if (d.inode dp).ents.length ≤ freeSlot (d.inode dp).ents then
      newBlocks (freeSlot (d.inode dp).ents)
    else 0

section Calls

variable {P : Type} {d : Disk} {pr : Procs P} {base : ℕ → ℕ} {keep : ℕ → Prop} {xs : Multiset ℕ}
  {L : Finset ℕ} {R i : ℕ} {c : Cache} {E : Stop → Prop} {me : P}

variable {n : ℤ} {old : List UInt8} {off : ℕ}

lemma wp_addLink {Q : Unit → St P Disk → Prop} (h : Q () ⟨d.set i ((d.inode i).link n), pr, c⟩) :
    wp (addLink i n) Q E ⟨d, pr, c⟩ :=
    wp_onDisk h

variable {major minor : ℤ} {type : InodeType} {ip dp j : ℕ} {Q : ℤ → St P Disk → Prop} {name : Name}
  {own live : Prop} {new : List UInt8}

lemma wp_init {Q : Unit → St P Disk → Prop}
    (h : Q () ⟨d.set i ((d.inode i).init major minor), pr, c⟩) :
    wp (onDisk (Files.iupdate i fun x => x.init major minor)) Q E ⟨d, pr, c⟩ := wp_onDisk h

lemma wp_endOp {α : Type} {a : α} {Q : α → St P Disk → Prop} (h : Q a ⟨d, pr.endOp, c⟩) :
    wp (do endOp; pure a) Q E ⟨d, pr, c⟩ := h

lemma wp_ialloc {Q : ℕ → St P Disk → Prop} (h : Busy d base keep xs L R c) (hty : type ≠ .free)
    (hnone : freeInode d = none → E (.panic .iallocNoInodes))
    (hroom : ∀ i, freeInode d = some i → R < need base (i ::ₘ xs) → E (.panic .igetNoInodes))
    (hQ : ∀ i, freeInode d = some i → need base (i ::ₘ xs) ≤ R → ∀ c',
      Busy (d.set i (.new type)) base keep (i ::ₘ xs) L R c' → Q i ⟨d.set i (.new type), pr, c'⟩) :
    wp (ialloc type) Q E ⟨d, pr, c⟩ := by
  unfold ialloc
  refine wp_bind (wp_onDisk (wp_bind (wp_get ?_)))
  rcases hf : freeInode d with _ | i
  · exact wp_throw (hnone hf)
  · have h' : Busy (d.set i (.new type)) base keep xs L R c := by
      refine h.congr fun j hj => ?_
      by_cases hji : j = i
      · simpa [Disk.set, hji, Inode.new] using hty
      · simpa [Disk.set, hji] using hj
    refine wp_bind
      (wp_modify (wp_pure (wp_bind (wp_iget h' (hroom i hf) fun c' hc' => ?_))))
    exact wp_pure (hQ i hf (hc'.room ▸ Nat.le_add_left _ _) c' hc')

/-- Names are new to an inode without entries, or with the entry `.` only. -/
lemma wp_createDots {Q : Unit → St P Disk → Prop} (h : Busy d base keep xs L R c)
    (hip : (d.inode ip).type = .dir) (hents : (d.inode ip).ents = []) (hne : ip ≠ dp)
    (hfull : ¬ 1 ≤ d.space → ∀ p, p ≠ .noType → E (.panic p))
    (hQ : 1 ≤ d.space → Q () ⟨((d.set dp ((d.inode dp).link 1)).link ip dot ip).link ip dotdot dp,
      pr, c⟩) :
    wp (createDots ip dp) Q E ⟨d, pr, c⟩ := by
  set d1 := d.set dp ((d.inode dp).link 1) with hd1
  have h1 : Busy d1 base keep xs L R c := h.congr fun j hj => by rwa [(sameTree_link d dp 1 j).1]
  have hip1 : d1.inode ip = d.inode ip := by simp [hd1, Disk.set, hne]
  have hnil : find dot (d1.inode ip).ents = none := by
    rw [hip1, hents]
    rfl
  have hd2 : ((d1.link ip dot ip).inode ip).ents = [⟨ip % 2 ^ 16, dot⟩] := by
    simp [Disk.link, Disk.putEnt, Disk.set, hip1, hents, freeSlot, dot, DIRSIZ]
  have hnil2 : find dotdot ((d1.link ip dot ip).inode ip).ents = none := by
    have hcmp : namecmp dotdot dot = false := by decide
    simp [hd2, find, findFrom, hcmp]
  have h2 : Busy (d1.link ip dot ip) base keep xs L R c :=
    h1.congr fun j hj => by rwa [Disk.link, putEnt_type]
  have henters : Enters d1 ip ↔ 1 ≤ d.space := enters_nil (by rw [hip1, hents])
  unfold createDots
  refine wp_bind (wp_addLink (wp_bind (wp_dirlink_new h1 (by rw [hip1, hip]) hnil
    (fun hn => hfull (henters.not.mp hn)) fun hs => ?_)))
  rw [if_neg (by decide)]
  refine wp_bind (wp_dirlink_new h2 (by rw [Disk.link, putEnt_type, hip1, hip]) hnil2
    (fun hn => absurd (enters_one hd2) hn) fun _ => ?_)
  rw [if_neg (by decide)]
  exact wp_pure (hQ (henters.mp hs))

/-- Between calls no link count is negative, and an inode without links is held. -/
structure Kept (d : Disk) (base : ℕ → ℕ) : Prop where
  short : ∀ i, 0 ≤ (d.inode i).nlink ∧ (d.inode i).nlink < 2 ^ 15
  held : ∀ i, (d.inode i).type ≠ .free → (d.inode i).nlink = 0 → 0 < base i

lemma Kept.heldBy (h : Kept d base) (xs : Multiset ℕ) : HeldBy d base xs :=
  fun i hi hl => Or.inl (h.held i hi hl)

/-- A call lets go of its only inode and ends. -/
lemma wp_leave {a : ℤ} (h : Busy d base keep {i} {i} R c)
    (hheld : (d.inode i).nlink = 0 → 0 < base i)
    (hQ : ∀ c', Busy d base keep 0 ∅ R c' → Q a ⟨d, pr.endOp, c'⟩) :
    wp (do iunlockput i; endOp; pure a) Q E ⟨d, pr, c⟩ :=
  wp_bind (wp_iunlockput_only h (fun hl => Or.inl (hheld hl)) fun c' h' => wp_endOp (hQ c' h'))

lemma freeInode_some {i : ℕ} (h : freeInode d = some i) :
    (d.inode i).type = .free ∧ 0 < i ∧ i < d.ninodes := by
  unfold freeInode at h
  refine ⟨by simpa using List.find?_some h, ?_⟩
  obtain ⟨k, hk, rfl⟩ := List.mem_iff_getElem.mp (List.mem_of_find?_eq_some h)
  rw [List.length_drop, List.length_range] at hk
  rw [List.getElem_drop, List.getElem_range]
  omega

lemma wrap16_succ_ne (h0 : 0 ≤ n) (h1 : n < 2 ^ 15) : wrap16 (n + 1) ≠ 0 := by
  unfold wrap16
  rw [Int.bmod_def]
  split_ifs <;> omega

/-- The end of `create`. -/
lemma wp_createLink {Q : Option ℕ → St P Disk → Prop}
    (h : Busy d base keep (ip ::ₘ dp ::ₘ 0) (insert ip (insert dp ∅)) R c) (hne : ip ≠ dp)
    (hdir : (d.inode dp).type = .dir) (hf : find name (d.inode dp).ents = none)
    (hdp : (d.inode dp).nlink = 0 → 0 < base dp)
    (hfull : ¬ Enters d dp → ∀ p, p ≠ .noType → E (.panic p))
    (hQ : Enters d dp → ∀ c', Busy (d.link dp name ip) base keep {ip} {ip} R c' →
      Q (some ip) ⟨d.link dp name ip, pr, c'⟩) :
    wp (do
      if (← dirlink dp name ip) < 0 then stop .createDirlink
      else
        iunlockput dp
        pure (some ip)) Q E ⟨d, pr, c⟩ := by
  refine wp_bind (wp_dirlink_new h hdir hf hfull fun hs => ?_)
  have h1 : Busy (d.link dp name ip) base keep (dp ::ₘ ip ::ₘ 0) (insert ip (insert dp ∅)) R c := by
    rw [Multiset.cons_swap]
    exact h.congr fun j hj => by rwa [Disk.link, putEnt_type]
  rw [if_neg (by decide)]
  refine wp_bind
    (wp_iunlockput h1 (by simp) (fun hb _ hl => ?_) fun _ c2 h2 => wp_pure (hQ hs c2 ?_))
  · rw [Disk.link, putEnt_nlink] at hl
    have := hdp hl
    omega
  · have herase : (insert ip (insert dp (∅ : Finset ℕ))).erase dp = {ip} := by
      ext j
      simp only [Finset.mem_erase, Finset.mem_insert, Finset.notMem_empty, or_false,
        Finset.mem_singleton]
      exact ⟨fun hj => hj.2.resolve_right hj.1, fun hj => ⟨hj ▸ hne, Or.inl hj⟩⟩
    rw [herase] at h2
    exact h2

/-- There is a free inode for `create`, with a slot of the cache, and the directory and the new
inode can take their entries. -/
structure Creates (d : Disk) (base : ℕ → ℕ) (R dp : ℕ) (type : InodeType) (ip : ℕ) : Prop where
  free : freeInode d = some ip
  room : need base (ip ::ₘ dp ::ₘ 0) ≤ R
  slot : (freeSlot (d.inode dp).ents + 1) * DIRENT ≤ MAXFILE * BSIZE
  space : createNeed d dp type ≤ d.space

lemma createNeed_dir (d : Disk) (dp : ℕ) : createNeed d dp .dir ≤ d.space ↔ 1 ≤ d.space ∧
    ((d.inode dp).ents.length ≤ freeSlot (d.inode dp).ents →
      newBlocks (freeSlot (d.inode dp).ents) ≤ d.space - 1) := by
  unfold createNeed
  rw [if_pos rfl]
  split_ifs with hlen
  · simp only [hlen, forall_const]
    omega
  · simp only [hlen, false_imp_iff, and_true, add_zero]

lemma createNeed_other (d : Disk) (dp : ℕ) (h : type ≠ .dir) :
    createNeed d dp type ≤ d.space ↔ ((d.inode dp).ents.length ≤ freeSlot (d.inode dp).ents →
      newBlocks (freeSlot (d.inode dp).ents) ≤ d.space) := by
  unfold createNeed
  rw [if_neg h]
  split_ifs with hlen
  · simp only [hlen, forall_const]
    omega
  · simp only [hlen, false_imp_iff, iff_true]
    omega

/-- `create` fails, finds a file, or makes a new inode. -/
lemma wp_create {path : List UInt8} {Q : Option ℕ → St P Disk → Prop} (h : Busy d base keep 0 ∅ R c)
    (hty : type ≠ .free) (hcwd : 0 < base (pr.cwd me)) (hkept : Kept d base)
    (hroom : ¬ Room d base R 0 true pr me path → E (.panic .igetNoInodes))
    (hclear : ¬ Clear d (start pr me path) (elems path) → E (.panic .noType))
    (hfound : ∀ dp name ip off, resolveParent d pr me path = some (dp, name) →
      find name (d.inode dp).ents = some (ip, off) → E (.panic .igetNoInodes) ∧
      ((d.inode ip).type = .free → E (.panic .noType)))
    (hbad : ∀ dp name, resolveParent d pr me path = some (dp, name) →
      find name (d.inode dp).ents = none → (∀ ip, ¬ Creates d base R dp type ip) → ∀ p,
      p ≠ .noType → E (.panic p))
    (hfail : (∀ dp name, resolveParent d pr me path = some (dp, name) →
      find name (d.inode dp).ents ≠ none) → Room d base R 0 true pr me path →
      Clear d (start pr me path) (elems path) → ∀ c', Busy d base keep 0 ∅ R c' →
      Q none ⟨d, pr, c'⟩) (hold : ∀ dp name ip off, resolveParent d pr me path = some (dp, name) →
      find name (d.inode dp).ents = some (ip, off) → (d.inode ip).type = .file → ∀ c',
      Busy d base keep {ip} {ip} R c' → Q (some ip) ⟨d, pr, c'⟩)
    (hnew : ∀ dp name ip, resolveParent d pr me path = some (dp, name) →
      find name (d.inode dp).ents = none → Room d base R 0 true pr me path →
      Creates d base R dp type ip → ∀ c',
      Busy (d.create dp ip name type major minor) base keep {ip} {ip} R c' →
      Q (some ip) ⟨d.create dp ip name type major minor, pr, c'⟩) :
    wp (create me path type major minor) Q E ⟨d, pr, c⟩ := by
  unfold create nameiparent
  refine wp_bind (reads_disk.wp_namex (d := d) trivial rfl h hcwd (hkept.heldBy 0) hroom hclear
    (fun ht hr hcl c1 h1 => wp_pure (hfail (fun dp name hp => ?_) hr hcl c1 h1))
    fun dp name ht hr c1 h1 => ?_)
  · cases ht.symm.trans hp
  have hdir := target_dir ht
  have hdf : (d.inode dp).type ≠ .free := by simp [hdir]
  refine wp_bind (wp_ilock_only h1 (fun hf => absurd hf hdf) fun _ c2 h2 => ?_)
  refine wp_bind
    (wp_dirlookup h2 hdir (fun ip off hf _ => (hfound dp name ip off ht hf).1) (fun hf => ?_)
      fun ip off hf c3 h3 => ?_)
  · refine wp_bind (wp_ialloc h2 hty (fun hnone => ?_) (fun ip hip hlt => ?_)
      fun ip hip hneed c3 h3 => ?_)
    · exact hbad dp name ht hf (fun j hj => by cases hnone.symm.trans hj.free) _ (by simp)
    · refine hbad dp name ht hf (fun j hj => ?_) _ (by simp)
      obtain rfl : j = ip := Option.some.inj (hj.free.symm.trans hip)
      exact absurd hj.room (not_le.mpr hlt)
    obtain ⟨hfree, -⟩ := freeInode_some hip
    have hne : ip ≠ dp := by
      rintro rfl
      exact hdf hfree
    have hnewty : ((d.set ip (.new type)).inode ip).type = type := by simp [Disk.set, Inode.new]
    refine wp_bind (wp_ilock h3 (Or.inr (Multiset.mem_cons_self ip _)) (fun hm => ?_)
      (fun hf' => absurd (hnewty ▸ hf') hty) fun _ _ c4 h4 => ?_)
    · exact absurd (by simpa using hm) hne
    have h4 : Busy _ base keep (ip ::ₘ dp ::ₘ 0) (insert ip (insert dp ∅)) R c4 :=
      h4.weaken fun _ hk => Or.inl hk
    refine wp_bind (wp_init ?_)
    set d2 := d.set ip ((Inode.new type).init major minor) with hd2
    have hset : (d.set ip (.new type)).set ip (((d.set ip (.new type)).inode ip).init major minor) =
      d2 := by
      simp [hd2, Disk.set]
    rw [hset]
    have hdp2 : d2.inode dp = d.inode dp := by simp [hd2, Disk.set, hne.symm]
    have h5 : Busy d2 base keep (ip ::ₘ dp ::ₘ 0) (insert ip (insert dp ∅)) R c4 := by
      refine h4.congr fun j hj => ?_
      by_cases hji : j = ip
      · simpa [hd2, Disk.set, hji, Inode.init, Inode.new] using hty
      · simpa [hd2, Disk.set, hji] using hj
    refine wp_ite (fun ht' => ?_) fun ht' => ?_
    · subst ht'
      refine wp_bind (wp_createDots h5 ?_ ?_ hne
        (fun hs => hbad dp name ht hf fun j hj => hs ((createNeed_dir d dp).mp hj.space).1)
        fun hs1 => ?_)
      · simp [hd2, Disk.set, Inode.init, Inode.new]
      · simp [hd2, Disk.set, Inode.init, Inode.new]
      · set d5 := ((d2.set dp ((d2.inode dp).link 1)).link ip dot ip).link ip dotdot dp with hd5
        have hdp5 : d5.inode dp = (d.inode dp).link 1 := by
          rw [hd5, Disk.link, putEnt_other hne.symm, Disk.link, putEnt_other hne.symm, ← hdp2]
          simp [Disk.set]
        have hspace : d5.space = d.space - 1 :=
          dots_space (by simp [hd2, Disk.set, hne, Inode.init, Inode.new])
        have h6 : Busy d5 base keep (ip ::ₘ dp ::ₘ 0) (insert ip (insert dp ∅)) R c4 := by
          refine h5.congr fun j hj => ?_
          rwa [hd5, Disk.link, putEnt_type, Disk.link, putEnt_type, (sameTree_link d2 dp 1 j).1]
        have henters : Enters d5 dp ↔ (freeSlot (d.inode dp).ents + 1) * DIRENT ≤ MAXFILE * BSIZE ∧
            ((d.inode dp).ents.length ≤ freeSlot (d.inode dp).ents →
              newBlocks (freeSlot (d.inode dp).ents) ≤ d.space - 1) := by
          unfold Enters
          rw [hdp5, hspace]
          rfl
        refine wp_createLink h6 hne (by rw [hdp5]; exact hdir) (by rw [hdp5]; exact hf)
          (fun hl => ?_) (fun he => hbad dp name ht hf fun j hj =>
            he (henters.mpr ⟨hj.slot, ((createNeed_dir d dp).mp hj.space).2⟩)) fun hs c6 h7 => ?_
        · rw [hdp5] at hl
          exact absurd hl (wrap16_succ_ne (hkept.short dp).1 (hkept.short dp).2)
        · obtain ⟨hslot, hs⟩ := henters.mp hs
          exact hnew dp name ip ht hf hr
            ⟨hip, hneed, hslot, (createNeed_dir d dp).mpr ⟨hs1, hs⟩⟩ c6 h7
    · have henters : Enters d2 dp ↔ Enters d dp := by
        unfold Enters
        rw [hdp2]
        rfl
      refine wp_createLink h5 hne (hdp2 ▸ hdir) (hdp2 ▸ hf) (fun hl => ?_) (fun he => hbad dp name ht hf fun j hj =>
          he (henters.mpr ⟨hj.slot, (createNeed_other d dp ht').mp hj.space⟩)) fun hs c6 h6 => ?_
      · rw [hdp2] at hl
        exact hkept.held dp hdf hl
      · have hcreate : d2.link dp name ip = d.create dp ip name type major minor := by
          unfold Disk.create
          dsimp only
          rw [if_neg ht']
        rw [hcreate] at h6 ⊢
        obtain ⟨hslot, hs⟩ := henters.mp hs
        exact hnew dp name ip ht hf hr
          ⟨hip, hneed, hslot, (createNeed_other d dp ht').mpr hs⟩ c6 h6
  · -- the name exists: the directory is let go before the inode is locked
    rw [Multiset.cons_swap] at h3
    refine wp_bind (wp_iunlockput_only h3 (hkept.heldBy _ dp hdf) fun c4 h4 => ?_)
    refine wp_bind (wp_ilock_only h4 (hfound dp name ip off ht hf).2 fun hif c5 h5 => ?_)
    refine wp_bind (wp_inode (wp_ite (fun hfile =>
      wp_pure (hold dp name ip off ht hf hfile.2 c5 h5)) fun _ => ?_))
    refine wp_bind (wp_iunlockput_only h5 (hkept.heldBy _ ip hif) fun c6 h6 => ?_)
    refine wp_pure (hfail (fun dp' name' hp hno => ?_) hr (clear_of_target ht) c6 h6)
    cases ht.symm.trans hp
    cases hno.symm.trans hf

/-! ### Locks taken twice -/

/-- `link` finds the directory it has locked under the new name. -/
def LinkSelf (d : Disk) (base : ℕ → ℕ) (R : ℕ) (pr : Procs P) (me : P) (old new : List UInt8) :
    Prop :=
  ∃ ip dp name off, resolve d pr me old = some ip ∧ (d.inode ip).type ≠ .free ∧
    (d.inode ip).type ≠ .dir ∧ resolveParent d pr me new = some (dp, name) ∧
    find name (d.inode dp).ents = some (dp, off) ∧ Room d base R 0 false pr me old ∧
    Room d base R {ip} true pr me new

/-- `unlink` does, under a name other than `.` and `..`. -/
def UnlinkSelf (d : Disk) (base : ℕ → ℕ) (R : ℕ) (pr : Procs P) (me : P) (path : List UInt8) :
    Prop :=
  ∃ dp name off, resolveParent d pr me path = some (dp, name) ∧
    ¬ (namecmp name dot ∨ namecmp name dotdot) ∧ find name (d.inode dp).ents = some (dp, off) ∧
    Room d base R 0 true pr me path

/-- A call that does not return: it sleeps on a lock of its own, or panics. -/
structure Stopped (own live : Prop) (e : Stop) : Prop where
  deadlock : e = .deadlock ↔ own
  noType : e = .panic .noType → ¬ live

lemma Stopped.panic {p : Panic} (hself : ¬ own) (hp : p ≠ .noType) : Stopped own live (.panic p) :=
  ⟨iff_of_false nofun hself, fun h => absurd (Stop.panic.inj h) hp⟩

lemma Stopped.unread (hself : ¬ own) (hlive : ¬ live) : Stopped own live (.panic .noType) :=
  ⟨iff_of_false nofun hself, fun _ => hlive⟩

lemma Stopped.slept (hself : own) : Stopped own live .deadlock :=
  ⟨iff_of_true rfl hself, nofun⟩

lemma link_undo {x : Inode} (h0 : 0 ≤ x.nlink) (h1 : x.nlink < 2 ^ 15) :
    (x.link 1).link (-1) = x := by
  have h : wrap16 (wrap16 (x.nlink + 1) + -1) = x.nlink := by
    unfold wrap16
    simp only [Int.bmod_def]
    split_ifs <;> omega
  unfold Inode.link
  dsimp only
  rw [h]

lemma wp_linkBad (hkept : Kept d base) (hty : (d.inode ip).type ≠ .free)
    (h : Busy (d.set ip ((d.inode ip).link 1)) base keep (ip ::ₘ 0) ∅ R c)
    (hQ : ∀ c', Busy d base keep 0 ∅ R c' → Q (-1) ⟨d, pr.endOp, c'⟩) :
    wp (linkBad ip) Q E ⟨d.set ip ((d.inode ip).link 1), pr, c⟩ := by
  have htree := sameTree_link d ip 1
  have hback : (d.set ip ((d.inode ip).link 1)).set ip
      (((d.set ip ((d.inode ip).link 1)).inode ip).link (-1)) = d := by
    have hx : (d.set ip ((d.inode ip).link 1)).inode ip = (d.inode ip).link 1 := by simp [Disk.set]
    rw [hx, link_undo (hkept.short ip).1 (hkept.short ip).2]
    simp [Disk.set]
  unfold linkBad
  refine wp_bind (wp_ilock_only h (fun hf => absurd ((htree ip).1 ▸ hf) hty) fun _ c1 h1 =>
    wp_bind (wp_addLink ?_))
  rw [hback]
  exact wp_leave (h1.congr fun j hj => by rwa [← (htree j).1]) (hkept.held ip hty) hQ

/-- `sys_link` from the lookup of the new name on. -/
def linkNew (me : P) (ip : ℕ) (new : List UInt8) : FsM P Disk ℤ := do
  match ← nameiparent me new with
  | none => linkBad ip
  | some (dp, name) =>
    ilock dp
    if (← dirlink dp name ip) < 0 then
      iunlockput dp
      linkBad ip
    else
      iunlockput dp
      iput ip
      endOp
      pure 0

lemma wp_linkNew (h : Busy (d.set ip ((d.inode ip).link 1)) base keep (ip ::ₘ 0) ∅ R c)
    (hcwd : 0 < base (pr.cwd me)) (hkept : Kept d base) (hty : (d.inode ip).type ≠ .free)
    (hdir : (d.inode ip).type ≠ .dir)
    (hroom : ¬ Room d base R {ip} true pr me new → E (.panic .igetNoInodes))
    (hclear : ¬ Clear d (start pr me new) (elems new) → E (.panic .noType))
    (hnone : resolveParent d pr me new = none → Room d base R {ip} true pr me new →
      Clear d (start pr me new) (elems new) → ∀ c', Busy d base keep 0 ∅ R c' →
      Q (-1) ⟨d, pr.endOp, c'⟩)
    (hself : ∀ dp name off, resolveParent d pr me new = some (dp, name) →
      find name (d.inode dp).ents = some (dp, off) → Room d base R {ip} true pr me new →
      E .deadlock) (hfew : ∀ dp name i off, resolveParent d pr me new = some (dp, name) →
      find name (d.inode dp).ents = some (i, off) → i ≠ dp → R < need base (i ::ₘ dp ::ₘ ip ::ₘ 0) →
      E (.panic .igetNoInodes))
    (hfound : ∀ dp name i off, resolveParent d pr me new = some (dp, name) →
      find name (d.inode dp).ents = some (i, off) → Room d base R {ip} true pr me new → i ≠ dp →
      need base (i ::ₘ dp ::ₘ ip ::ₘ 0) ≤ R → ∀ c', Busy d base keep 0 ∅ R c' →
      Q (-1) ⟨d, pr.endOp, c'⟩) (hfull : ∀ dp name, resolveParent d pr me new = some (dp, name) →
      find name (d.inode dp).ents = none → ¬ Enters d dp → ∀ p, p ≠ .noType → E (.panic p))
    (hok : ∀ dp name, resolveParent d pr me new = some (dp, name) →
      find name (d.inode dp).ents = none → Room d base R {ip} true pr me new → Enters d dp → ∀ c',
      Busy ((d.set ip ((d.inode ip).link 1)).link dp name ip) base keep 0 ∅ R c' →
      Q 0 ⟨(d.set ip ((d.inode ip).link 1)).link dp name ip, pr.endOp, c'⟩) :
    wp (linkNew me ip new) Q E ⟨d.set ip ((d.inode ip).link 1), pr, c⟩ := by
  have htree := sameTree_link d ip 1
  set d1 := d.set ip ((d.inode ip).link 1) with hd1
  have hother (j : ℕ) (hj : j ≠ ip) : d1.inode j = d.inode j := by simp [hd1, Disk.set, hj]
  have hheld (xs : Multiset ℕ) (hx : ip ∈ xs) : HeldBy d1 base xs := by
    intro j hj hl
    by_cases hji : j = ip
    · exact Or.inr (hji ▸ hx)
    · rw [hother j hji] at hj hl
      exact Or.inl (hkept.held j hj hl)
  have hroom1 : Room d1 base R {ip} true pr me new ↔ Room d base R {ip} true pr me new :=
    and_congr_right fun _ => fits_congr htree
  unfold linkNew nameiparent
  refine wp_bind
    (reads_disk.wp_namex (d := d1) trivial rfl h hcwd (hheld _ (Multiset.mem_cons_self ip 0)) (fun hr => hroom (hroom1.not.mp hr))
    (fun hcl => hclear ((clear_congr htree).not.mp hcl))
    (fun ht hr hcl c1 h1 => wp_linkBad hkept hty h1 (hnone ?_ (hroom1.mp hr)
      ((clear_congr htree).mp hcl))) fun dp name ht hroom2 c1 h1 => ?_)
  · rwa [target_congr htree] at ht
  have hdp := target_dir ht
  have hne : dp ≠ ip := by
    rintro rfl
    exact hdir ((htree dp).1 ▸ hdp)
  have hdpd := hother dp hne
  have ht0 : resolveParent d pr me new = some (dp, name) := by
    rw [resolveParent, ← target_congr htree]
    exact ht
  have hdpty : (d1.inode dp).type ≠ .free := by simp [hdp]
  refine wp_bind (wp_ilock_only h1 (fun hf => absurd hf hdpty) fun _ c2 h2 => ?_)
  have hneed : need base (dp ::ₘ ip ::ₘ 0) ≤ R := h2.room ▸ Nat.le_add_left _ _
  have hdpheld (hl : (d1.inode dp).nlink = 0) : 0 < base dp ∨ dp ∈ ip ::ₘ (0 : Multiset ℕ) :=
    hkept.heldBy _ dp (hdpd ▸ hdpty) (hdpd ▸ hl)
  have henters : Enters d1 dp ↔ Enters d dp := by
    unfold Enters
    rw [hdpd]
    rfl
  have hents : (d1.inode dp).ents = (d.inode dp).ents := by rw [hdpd]
  refine wp_bind
    (wp_dirlink h2 hdp (hheld _ (by simp)) (fun i off hf hR => ?_)
    (fun hf hn => hfull dp name ht0 (hents ▸ hf) (henters.not.mp hn)) (fun i off hf hi => ?_)
    (fun i off hf hR hi c3 h3 => ?_) fun hf he => ?_)
  · -- the directory itself takes no slot more
    refine hfew dp name i off ht0 (hents ▸ hf) ?_ hR
    rintro rfl
    rw [need_old (Or.inr (by simp))] at hR
    omega
  · obtain rfl : i = dp := by simpa using hi
    exact hself i name off ht0 (hents ▸ hf) (hroom1.mp hroom2)
  · -- the name exists, and is another inode's
    rw [if_pos (by decide)]
    refine wp_bind (wp_iunlockput_only h3 hdpheld fun c4 h4 => ?_)
    refine wp_linkBad hkept hty h4 (hfound dp name i off ht0 (hents ▸ hf)
      (hroom1.mp hroom2) ?_ hR)
    rintro rfl
    exact hi (Finset.mem_singleton_self i)
  · have h3 : Busy (d1.link dp name ip) base keep (dp ::ₘ ip ::ₘ 0) {dp} R c2 :=
      h2.congr fun j hj => by rwa [Disk.link, putEnt_type]
    rw [if_neg (by decide)]
    refine wp_bind (wp_iunlockput_only h3 (fun hl => hdpheld (putEnt_nlink dp ▸ hl)) fun c4 h4 => ?_)
    refine wp_bind (wp_iput h4 (fun hm => absurd hm (Finset.notMem_empty ip)) (fun _ _ _ _ hl => ?_)
      fun _ _ c5 h5 => wp_endOp (hok dp name ht0 (hents ▸ hf) (hroom1.mp hroom2) (henters.mp he)
        c5 h5))
    rw [Disk.link, putEnt_nlink, hd1] at hl
    simp only [Disk.set, Function.update_self, Inode.link] at hl
    exact absurd hl (wrap16_succ_ne (hkept.short ip).1 (hkept.short ip).2)

/-- `link` up to the lookup of the new name. -/
lemma wp_linkOp (h : Busy d base keep 0 ∅ R c) (hcwd : 0 < base (pr.cwd me)) (hkept : Kept d base)
    (hroom : ¬ Room d base R 0 false pr me old → E (.panic .igetNoInodes))
    (hclear : ¬ Clear d (start pr me old) (elems old) → E (.panic .noType))
    (hfree : ∀ ip, resolve d pr me old = some ip → (d.inode ip).type = .free → E (.panic .noType))
    (hfail : (∀ ip, resolve d pr me old = some ip → (d.inode ip).type = .dir) →
      Room d base R 0 false pr me old → Clear d (start pr me old) (elems old) → ∀ c',
      Busy d base keep 0 ∅ R c' → Q (-1) ⟨d, pr.endOp, c'⟩)
    (hnew : ∀ ip, resolve d pr me old = some ip → (d.inode ip).type ≠ .free →
      (d.inode ip).type ≠ .dir → Room d base R 0 false pr me old → ∀ c',
      Busy (d.set ip ((d.inode ip).link 1)) base keep (ip ::ₘ 0) ∅ R c' →
      wp (linkNew me ip new) Q E ⟨d.set ip ((d.inode ip).link 1), pr, c'⟩) :
    wp (linkOp me old new) Q E ⟨d, pr, c⟩ := by
  unfold linkOp
  refine wp_bind (reads_disk.wp_namei (d := d) trivial rfl h hcwd (hkept.heldBy 0) hroom hclear
    (fun hres hr hcl c1 h1 => wp_endOp (hfail ?_ hr hcl c1 h1)) fun ip hres hroom1 c1 h1 => ?_)
  · rw [hres]
    exact nofun
  refine wp_bind (wp_ilock_only h1 (hfree ip hres) fun hty c2 h2 => ?_)
  refine wp_bind (wp_inode (wp_ite (fun hdir => ?_) fun hdir => ?_))
  · obtain ⟨r, ht, -⟩ := Option.map_eq_some_iff.mp hres
    refine wp_leave h2 (hkept.held ip hty) (hfail (fun j hj => ?_) hroom1 (clear_of_target ht))
    rw [← Option.some.inj (hres.symm.trans hj)]
    exact hdir
  have htree := sameTree_link d ip 1
  have h3 : Busy (d.set ip ((d.inode ip).link 1)) base keep (ip ::ₘ 0) {ip} R c2 :=
    h2.congr fun j hj => by rwa [(htree j).1]
  refine wp_bind
    (wp_addLink (wp_bind (wp_iunlock h3 (Finset.mem_singleton_self ip) fun c4 _ h4 => ?_)))
  rw [Finset.erase_singleton] at h4
  exact hnew ip hres hty hdir hroom1 c4 h4

/-- `link` fails, or makes an entry. -/
lemma wp_linkSelf (h : Busy d base keep 0 ∅ R c) (hcwd : 0 < base (pr.cwd me)) (hkept : Kept d base)
    (hfail : ¬ LinkSelf d base R pr me old new → ∀ c', Busy d base keep 0 ∅ R c' →
      Q (-1) ⟨d, pr.endOp, c'⟩)
    (hok : ¬ LinkSelf d base R pr me old new → ∀ ip dp name, resolve d pr me old = some ip →
      (d.inode ip).type ≠ .free → (d.inode ip).type ≠ .dir →
      resolveParent d pr me new = some (dp, name) → find name (d.inode dp).ents = none →
      ((d.inode dp).ents.length ≤ freeSlot (d.inode dp).ents →
      newBlocks (freeSlot (d.inode dp).ents) ≤ d.space) → ∀ c',
      Busy ((d.set ip ((d.inode ip).link 1)).link dp name ip) base keep 0 ∅ R c' →
      Q 0 ⟨(d.set ip ((d.inode ip).link 1)).link dp name ip, pr.endOp, c'⟩) :
    wp (linkOp me old new) Q (Stopped (LinkSelf d base R pr me old new) (AllLive d pr.cwd))
      ⟨d, pr, c⟩ := by
  refine wp_linkOp h hcwd hkept (fun hr => Stopped.panic ?_ nofun)
    (fun hcl => Stopped.unread ?_ fun hl => hcl (hl.clear hl.start))
    (fun ip hres hf => Stopped.unread ?_ fun hl => hl.resolve hres hf) (fun hdirs _ _ => hfail ?_)
    fun ip hres hty hdir hroom1 c1 h1 => ?_
  · rintro ⟨-, -, -, -, -, -, -, -, -, hroom, -⟩
    exact hr hroom
  · rintro ⟨ip, -, -, -, hres, -⟩
    obtain ⟨r, ht, -⟩ := Option.map_eq_some_iff.mp hres
    exact hcl (clear_of_target ht)
  · rintro ⟨ip', -, -, -, hres', hf', -⟩
    rw [hres] at hres'
    cases hres'
    exact hf' hf
  · rintro ⟨ip, -, -, -, hres, -, hdir, -⟩
    exact hdir (hdirs ip hres)
  -- a lock taken twice is that of the directory, found under the new name
  have hself {dp : ℕ} {name : Name} (ht : resolveParent d pr me new = some (dp, name))
      {r : Option (ℕ × ℕ)} (hf : find name (d.inode dp).ents = r) (hr : ∀ off, r ≠ some (dp, off)) :
      ¬ LinkSelf d base R pr me old new := by
    rintro ⟨_, _, _, off, _, _, _, ht', hf', _⟩
    rw [ht] at ht'
    cases ht'
    exact hr off (hf.symm.trans hf')
  refine wp_linkNew h1 hcwd hkept hty hdir (fun hr => Stopped.panic ?_ nofun)
    (fun hcl => Stopped.unread ?_ fun hl => hcl (hl.clear hl.start)) (fun ht _ _ => hfail ?_)
    (fun dp name off ht hf hroom2 => Stopped.slept
      ⟨ip, dp, name, off, hres, hty, hdir, ht, hf, hroom1, hroom2⟩)
    (fun dp name i off ht hf hne _ => Stopped.panic (hself ht hf (by simpa using hne)) nofun)
    (fun dp name i off ht hf _ hne _ => hfail (hself ht hf (by simpa using hne)))
    (fun dp name ht hf _ p hp => Stopped.panic (hself ht hf nofun) hp)
    fun dp name ht hf _ he => hok (hself ht hf nofun) ip dp name hres hty hdir ht hf he.2
  · rintro ⟨ip', _, _, _, hres', _, _, _, _, _, hroom⟩
    rw [hres] at hres'
    cases hres'
    exact hr hroom
  · rintro ⟨_, _, _, _, _, _, _, ht, _⟩
    exact hcl (clear_of_target ht)
  · rintro ⟨_, _, _, _, _, _, _, ht', _⟩
    rw [ht] at ht'
    cases ht'

/-- The disk after the last of `n` references more to an inode is gone, if `n` is `0`. -/
def Disk.put (d : Disk) (i n : ℕ) : Disk := if (d.inode i).nlink = 0 ∧ n = 0 then d.free i else d

lemma put_last (hb : base i = 0) (hx : i ∉ xs) (hl : (d.inode i).nlink = 0) :
    d.put i (base i + xs.count i) = d.free i :=
  if_pos ⟨hl, by rw [hb, Multiset.count_eq_zero_of_notMem hx]⟩

lemma put_shared (h : (d.inode i).nlink = 0 → 0 < base i ∨ i ∈ xs) :
    d.put i (base i + xs.count i) = d := by
  refine if_neg fun hc => ?_
  rcases h hc.1 with hb | hx
  · omega
  · have := Multiset.count_pos.mpr hx
    omega

lemma wp_iunlockput_put {Q : Unit → St P Disk → Prop} (h : Busy d base keep (i ::ₘ xs) L R c)
    (hi : i ∈ L) (hQ : ∀ c', Busy (d.put i (base i + xs.count i)) base keep xs (L.erase i) R c' →
      Q () ⟨d.put i (base i + xs.count i), pr, c'⟩) :
    wp (iunlockput i) Q E ⟨d, pr, c⟩ :=
  wp_iunlockput h hi (fun hb hx hl => put_last hb hx hl ▸ hQ) fun hk => put_shared hk ▸ hQ

/-- What `unlink` does to the disk. -/
def Disk.unlink (d : Disk) (base : ℕ → ℕ) (dp off ip : ℕ) : Disk :=
  let type := (d.inode ip).type
  let d := d.putEnt dp off ⟨0, []⟩
  let d := if type = .dir then d.set dp ((d.inode dp).link (-1)) else d
  let d := d.put dp (base dp)
  let d := d.set ip ((d.inode ip).link (-1))
  d.put ip (base ip)

/-- The end of `unlink`. -/
lemma wp_unlinkEnd (hne : ip ≠ dp) (htype : (d.inode ip).type = type)
    (h : Busy d base keep (ip ::ₘ dp ::ₘ 0) (insert ip (insert dp ∅)) R c)
    (hQ : ∀ c', Busy (d.unlink base dp off ip) base keep 0 ∅ R c' →
      Q 0 ⟨d.unlink base dp off ip, pr.endOp, c'⟩) :
    wp (do
      if type = .dir then addLink dp (-1) else pure ()
      iunlockput dp
      addLink ip (-1)
      iunlockput ip
      endOp
      pure 0) Q E ⟨d.putEnt dp off ⟨0, []⟩, pr, c⟩ := by
  have hrest (d1 : Disk) (hd1 : ∀ j, (d1.inode j).type = (d.inode j).type)
      (hQ : ∀ c', Busy
        (((d1.put dp (base dp)).set ip (((d1.put dp (base dp)).inode ip).link (-1))).put ip
          (base ip)) base keep 0 ∅ R c' →
        Q 0 ⟨((d1.put dp (base dp)).set ip (((d1.put dp (base dp)).inode ip).link (-1))).put ip
          (base ip),
          pr.endOp, c'⟩) :
      wp (do
        iunlockput dp
        addLink ip (-1)
        iunlockput ip
        endOp
        pure 0) Q E ⟨d1, pr, c⟩ := by
    have h1 : Busy d1 base keep (dp ::ₘ ip ::ₘ 0) (insert ip (insert dp ∅)) R c := by
      rw [Multiset.cons_swap]
      exact h.congr fun j hj => by rwa [hd1]
    have hcount : base dp + (ip ::ₘ (0 : Multiset ℕ)).count dp = base dp := by simp [hne.symm]
    have herase : (insert ip (insert dp (∅ : Finset ℕ))).erase dp = insert ip ∅ := by
      rw [Finset.erase_insert_of_ne hne, Finset.erase_insert (Finset.notMem_empty dp)]
    refine wp_bind (wp_iunlockput_put h1 (by simp) fun c2 h2 => wp_bind (wp_addLink ?_))
    rw [hcount, herase] at h2
    rw [hcount]
    have h3 :
      Busy ((d1.put dp (base dp)).set ip (((d1.put dp (base dp)).inode ip).link (-1))) base keep
        (ip ::ₘ 0) (insert ip ∅) R c2 :=
      h2.congr fun j hj => by rwa [(sameTree_link _ ip (-1) j).1]
    refine wp_bind
      (wp_iunlockput_put h3 (Finset.mem_insert_self ip ∅) fun c4 h4 => wp_endOp (hQ c4 ?_))
    rwa [Finset.erase_insert (Finset.notMem_empty ip)] at h4
  subst htype
  unfold Disk.unlink at hQ
  dsimp only at hQ
  refine wp_ite (fun hd => ?_) fun hd => ?_
  · rw [if_pos hd] at hQ
    refine wp_bind (wp_addLink (hrest _ (fun j => ?_) hQ))
    rw [(sameTree_link _ dp (-1) j).1, putEnt_type]
  · rw [if_neg hd] at hQ
    exact hrest _ (fun j => putEnt_type j) hQ

/-- Whether a directory has entries. -/
lemma wp_hasEntries {Q : Bool → St P Disk → Prop}
    (htrue : (d.inode ip).type = .dir ∧ isdirempty (d.inode ip) = false → Q true ⟨d, pr, c⟩)
    (hfalse : ((d.inode ip).type = .dir → isdirempty (d.inode ip) = true) → Q false ⟨d, pr, c⟩) :
    wp (hasEntries ip (d.inode ip).info) Q E ⟨d, pr, c⟩ := by
  unfold hasEntries
  refine wp_ite (fun hd => ?_) fun hd => wp_pure (hfalse fun h => absurd h hd)
  refine wp_bind (wp_onDisk (wp_bind (wp_get (wp_pure (wp_pure ?_)))))
  rcases he : isdirempty (d.inode ip) with _ | _
  · exact htrue ⟨hd, he⟩
  · exact hfalse fun _ => he

/-- `unlink` fails, or clears an entry. -/
lemma wp_unlinkOp {path : List UInt8} (h : Busy d base keep 0 ∅ R c) (hcwd : 0 < base (pr.cwd me))
    (hkept : Kept d base)
    (hfail : ¬ UnlinkSelf d base R pr me path → ∀ c', Busy d base keep 0 ∅ R c' →
      Q (-1) ⟨d, pr.endOp, c'⟩) (hok : ¬ UnlinkSelf d base R pr me path → ∀ dp name ip off,
      resolveParent d pr me path = some (dp, name) → ¬ (namecmp name dot ∨ namecmp name dotdot) →
      find name (d.inode dp).ents = some (ip, off) → ip ≠ dp → (d.inode ip).type ≠ .free →
      1 ≤ (d.inode ip).nlink → ((d.inode ip).type = .dir → isdirempty (d.inode ip) = true) → ∀ c',
      Busy (d.unlink base dp off ip) base (fun j => (keep j ∨ j = dp) ∨ j = ip) 0 ∅ R c' →
      Q 0 ⟨d.unlink base dp off ip, pr.endOp, c'⟩) :
    wp (unlinkOp me path) Q (Stopped (UnlinkSelf d base R pr me path) (AllLive d pr.cwd))
      ⟨d, pr, c⟩ := by
  -- the witness of a lock taken twice has this directory
  have hself {dp : ℕ} {name : Name} (hs : UnlinkSelf d base R pr me path)
      (ht : resolveParent d pr me path = some (dp, name)) :
      ¬ (namecmp name dot ∨ namecmp name dotdot) ∧
        ∃ off, find name (d.inode dp).ents = some (dp, off) := by
    obtain ⟨_, _, off, ht', hn, hf, _⟩ := hs
    rw [ht] at ht'
    cases ht'
    exact ⟨hn, off, hf⟩
  unfold unlinkOp nameiparent
  refine wp_bind
    (reads_disk.wp_namex (d := d) trivial rfl h hcwd (hkept.heldBy 0) (fun hr => ?_)
    (fun hcl => ?_) (fun ht _ _ c1 h1 => wp_endOp (hfail ?_ c1 h1)) fun dp name ht hroom c1 h1 => ?_)
  · refine Stopped.panic ?_ nofun
    rintro ⟨_, _, _, _, _, _, hroom⟩
    exact hr hroom
  · refine Stopped.unread ?_ fun hl => hcl (hl.clear hl.start)
    rintro ⟨_, _, _, ht, _⟩
    exact hcl (clear_of_target ht)
  · rintro ⟨_, _, _, ht', _⟩
    rw [resolveParent, ht] at ht'
    cases ht'
  have hdir := target_dir ht
  have hdf : (d.inode dp).type ≠ .free := by rw [hdir]; exact nofun
  have hleave {c' : Cache} {keep' : ℕ → Prop} (hk : ∀ j, keep j → keep' j)
      (h' : Busy d base keep' (dp ::ₘ 0) (insert dp ∅) R c')
        (hs : ¬ UnlinkSelf d base R pr me path) :
      wp (unlinkBad dp) Q
        (Stopped (UnlinkSelf d base R pr me path) (AllLive d pr.cwd)) ⟨d, pr, c'⟩ :=
    wp_leave (h'.weaken hk) (hkept.held dp hdf) (hfail hs)
  refine wp_bind (wp_ilock h1 (Or.inr (Multiset.mem_cons_self dp 0))
    (fun hm => absurd hm (Finset.notMem_empty dp))
    (fun hf => absurd hf hdf) fun _ _ c2 h2 => ?_)
  refine wp_ite (fun hn => hleave (fun _ => Or.inl) h2 fun hs => (hself hs ht).1 hn) fun hn => ?_
  refine wp_bind (wp_dirlookup h2 hdir (fun i off hf hR => ?_)
    (fun hf => hleave (fun _ => Or.inl) h2 fun hs => ?_) fun ip off hf c3 h3 => ?_)
  · refine Stopped.panic (fun hs => ?_) nofun
    obtain ⟨off', hf'⟩ := (hself hs ht).2
    rw [hf'] at hf
    cases hf
    have hneed : need base (dp ::ₘ 0) ≤ R := h2.room ▸ Nat.le_add_left _ _
    rw [need_old (Or.inr (by simp))] at hR
    omega
  · obtain ⟨off', hf'⟩ := (hself hs ht).2
    rw [hf'] at hf
    cases hf
  refine wp_bind (wp_ilock h3 (Or.inr (Multiset.mem_cons_self ip _)) (fun hm => ?_) (fun hf' => ?_)
    fun hip hty c4 h4 => ?_)
  · have hi : ip = dp := by simpa using hm
    subst hi
    exact Stopped.slept ⟨ip, name, off, ht, hn, hf, hroom⟩
  · refine Stopped.unread (fun hs => ?_) fun hl => hl.find hdir hf hf'
    obtain ⟨off', hf''⟩ := (hself hs ht).2
    rw [hf''] at hf
    cases hf
    exact hdf hf'
  have hne : ip ≠ dp := by simpa using hip
  have hs : ¬ UnlinkSelf d base R pr me path := fun hs => by
    obtain ⟨off', hf'⟩ := (hself hs ht).2
    rw [hf'] at hf
    cases hf
    exact hne rfl
  refine wp_bind (wp_inode (wp_ite (fun _ => wp_throw (Stopped.panic hs nofun)) fun hl => ?_))
  refine wp_bind (wp_hasEntries (fun hnonempty => ?_) fun hempty => ?_)
  · refine wp_bind
      (wp_iunlockput h4 (Finset.mem_insert_self ip _) (fun hb _ hl' => ?_) fun _ c5 h5 => ?_)
    · have := hkept.held ip hty hl'
      omega
    · rw [Finset.erase_insert hip] at h5
      exact hleave (fun _ hk => Or.inl (Or.inl hk)) h5 hs
  · refine wp_bind (wp_onDisk <| wp_writei (fun _ _ => Stopped.panic hs nofun)
      (fun _ => wp_throw (Stopped.panic hs nofun)) fun _ _ => ?_)
    exact wp_unlinkEnd hne rfl h4 (hok hs dp name ip off ht hn hf hne hty (not_lt.mp hl) hempty)

/-! ### What processes hold -/

def addRef (base : ℕ → ℕ) (i : ℕ) : ℕ → ℕ := Function.update base i (base i + 1)

def subRef (base : ℕ → ℕ) (i : ℕ) : ℕ → ℕ := Function.update base i (base i - 1)

/-- A process takes over a reference. -/
lemma Busy.give (h : Busy d base keep (i ::ₘ xs) L R c) (hv : c.valid i = true) :
    ∃ R', Busy d (addRef base i) (fun j => keep j ∨ j = i) xs L R' c := by
  refine ⟨_, fun j => ?_, h.locked, h.lockedRef, h.lockedValid, fun j hb hk => ?_, h.validLive, rfl⟩
  · by_cases hj : j = i
    · subst hj
      have := h.ref j
      rw [Multiset.count_cons_self] at this
      simp [addRef]
      omega
    · simp [addRef, hj, h.ref]
  · by_cases hj : j = i
    · rwa [hj]
    · exact h.keepValid j (by simpa [addRef, hj] using hb) (hk.resolve_right hj)

/-- A process gives one up. -/
lemma Busy.take (h : Busy d base keep xs L R c) (hi : 0 < base i) :
    ∃ R', Busy d (subRef base i) keep (i ::ₘ xs) L R' c := by
  refine ⟨_, fun j => ?_, h.locked, h.lockedRef, h.lockedValid, fun j hb hk => ?_, h.validLive, rfl⟩
  · by_cases hj : j = i
    · subst hj
      have := h.ref j
      simp [subRef]
      omega
    · simp [subRef, hj, h.ref]
  · refine h.keepValid j ?_ hk
    by_cases hj : j = i
    · rwa [hj]
    · simpa [subRef, hj] using hb

lemma wp_iput_put {Q : Unit → St P Disk → Prop} (h : Busy d base keep (i ::ₘ xs) ∅ R c)
    (hv : (d.inode i).nlink = 0 → c.valid i = true)
    (hQ : ∀ c', Busy (d.put i (base i + xs.count i)) base keep xs ∅ R c' →
      Q () ⟨d.put i (base i + xs.count i), pr, c'⟩) :
    wp (iput i) Q E ⟨d, pr, c⟩ := by
  exact wp_iput h (fun hm => absurd hm (Finset.notMem_empty i))
    (fun _ _ hb hx hl => put_last hb hx hl ▸ hQ) fun _ hk => put_shared (fun hl => hk (hv hl) hl) ▸ hQ

lemma freeFd_some {ofile : Fin NOFILE → Option ℕ} {fd : Fin NOFILE} (h : freeFd ofile = some fd) :
    ofile fd = none := by
  simpa using List.find?_some h

variable [DecidableEq P]

/-- `sys_open` keeps the inode, or has no descriptor for it. -/
lemma wp_openInode (h : Busy d base keep {ip} {ip} R c)
    (hheld : (d.inode ip).nlink = 0 → 0 < base ip)
    (hfail : ∀ c', Busy d base keep 0 ∅ R c' → Q (-1) ⟨d, pr.endOp, c'⟩)
    (hok : ∀ fd c' R', pr.ofile me fd = none →
      Busy d (addRef base ip) (fun j => keep j ∨ j = ip) 0 ∅ R' c' →
      Q fd ⟨d, pr.endOp.setFd me fd (some ip) (pr.nfile - 1), c'⟩) :
    wp (openInode me ip) Q E ⟨d, pr, c⟩ := by
  have herase : ({ip} : Finset ℕ).erase ip = ∅ := Finset.erase_singleton ip
  have hleave : wp (do iunlockput ip; endOp; pure (-1)) Q E ⟨d, pr, c⟩ := wp_leave h hheld hfail
  unfold openInode
  refine wp_bind (wp_get ?_)
  dsimp only
  rcases hfd : freeFd (pr.ofile me) with _ | fd
  · exact hleave
  · refine wp_ite (fun _ => hleave) fun _ => ?_
    refine wp_bind (wp_iunlock h (Finset.mem_singleton_self ip) fun c2 hv h2 => ?_)
    rw [herase] at h2
    obtain ⟨R', h3⟩ := Busy.give h2 hv
    exact wp_bind
      (wp_setProcs (wp_bind (wp_setProcs (wp_pure (hok fd c2 R' (freeFd_some hfd) h3)))))

/-! ### Outcomes -/

/-- The calls that create, with the arguments of `create`. -/
def creates : Call → Option (List UInt8 × InodeType × ℤ × ℤ)
  | .openFile path omode => if omode &&& O_CREATE ≠ 0 then some (path, .file, 0, 0) else none
  | .mkdir path => some (path, .dir, 0, 0)
  | .mknod path major minor => some (path, .dev, wrap16 major, wrap16 minor)
  | _ => none

/-- What a call that returns has done to the disk, to what processes hold, and to the number of
their references. -/
inductive Outcome (d : Disk) (pr : Procs P) (base : ℕ → ℕ) (me : P) :
    Call → Disk → Procs P → (ℕ → ℕ) → Prop
  | same (c : Call) : Outcome d pr base me c d pr base
  | created {c : Call} {path : List UInt8} {type : InodeType} {major minor : ℤ} {dp ip : ℕ} {name : Name}
      (hc : creates c = some (path, type, major, minor))
      (hp : resolveParent d pr me path = some (dp, name)) (hf : find name (d.inode dp).ents = none)
      (hip : freeInode d = some ip) (hs : createNeed d dp type ≤ d.space) :
      Outcome d pr base me c (d.create dp ip name type major minor) pr base
  | opened {path : List UInt8} {omode i : ℕ} {fd : Fin NOFILE} (hi : (d.inode i).type ≠ .free)
      (hfd : pr.ofile me fd = none) :
      Outcome d pr base me (.openFile path omode) d (pr.setFd me fd (some i) (pr.nfile - 1))
        (addRef base i)
  | createdOpened {path : List UInt8} {omode dp ip : ℕ} {name : Name} {fd : Fin NOFILE}
      (hc : omode &&& O_CREATE ≠ 0) (hp : resolveParent d pr me path = some (dp, name))
      (hf : find name (d.inode dp).ents = none) (hip : freeInode d = some ip)
      (hs : createNeed d dp .file ≤ d.space) (hfd : pr.ofile me fd = none) :
      Outcome d pr base me (.openFile path omode) (d.create dp ip name .file 0 0)
        (pr.setFd me fd (some ip) (pr.nfile - 1)) (addRef base ip)
  | linked {old new : List UInt8} {ip dp : ℕ} {name : Name} (hr : resolve d pr me old = some ip)
      (hi : (d.inode ip).type ≠ .free) (hd : (d.inode ip).type ≠ .dir)
      (hp : resolveParent d pr me new = some (dp, name)) (hf : find name (d.inode dp).ents = none)
      (hs : (d.inode dp).ents.length ≤ freeSlot (d.inode dp).ents →
        newBlocks (freeSlot (d.inode dp).ents) ≤ d.space) :
      Outcome d pr base me (.link old new) ((d.set ip ((d.inode ip).link 1)).link dp name ip) pr base
  | unlinked {path : List UInt8} {dp ip off : ℕ} {name : Name}
      (hp : resolveParent d pr me path = some (dp, name))
      (hn : ¬ (namecmp name dot ∨ namecmp name dotdot))
      (hf : find name (d.inode dp).ents = some (ip, off)) (hne : ip ≠ dp)
      (hi : (d.inode ip).type ≠ .free) (hl : 1 ≤ (d.inode ip).nlink)
      (he : (d.inode ip).type = .dir → isdirempty (d.inode ip) = true) :
      Outcome d pr base me (.unlink path) (d.unlink base dp off ip) pr base
  | moved {path : List UInt8} {i : ℕ} (hr : resolve d pr me path = some i)
      (hd : (d.inode i).type = .dir) :
      Outcome d pr base me (.chdir path) (d.put (pr.cwd me) (subRef (addRef base i) (pr.cwd me) (pr.cwd me)))
        (pr.setCwd me i) (subRef (addRef base i) (pr.cwd me))
  | closed {fd : Fin NOFILE} {i : ℕ} (hfd : pr.ofile me fd = some i) :
      Outcome d pr base me (.close fd) (d.put i (subRef base i i)) (pr.setFd me fd none (pr.nfile + 1))
        (subRef base i)

/-- Where a call takes a lock that it holds. -/
def SelfLock (d : Disk) (base : ℕ → ℕ) (R : ℕ) (pr : Procs P) (me : P) : Call → Prop
  | .link old new => LinkSelf d base R pr me old new
  | .unlink path => UnlinkSelf d base R pr me path
  | _ => False

/-- The inodes without links. -/
def Unlinked (d : Disk) (i : ℕ) : Prop := (d.inode i).nlink = 0

/-- A call that returns has an outcome, and the cache fits it. -/
def Returns (d : Disk) (pr : Procs P) (base : ℕ → ℕ) (me : P) (c : Call) (s : St P Disk) : Prop :=
  ∃ base' R', Outcome d pr base me c s.disk s.procs base' ∧
    Busy s.disk base' (Unlinked s.disk) 0 ∅ R' s.cache

lemma set_self (x : Inode) : (d.set i x).inode i = x := by simp [Disk.set]

lemma set_other (x : Inode) (hj : j ≠ i) : (d.set i x).inode j = d.inode j := by
  simp [Disk.set, hj]

lemma put_other {n : ℕ} (hj : j ≠ i) : (d.put i n).inode j = d.inode j := by
  unfold Disk.put
  split_ifs
  · simp [Disk.free, Disk.set, hj]
  · rfl

lemma put_nlink (n j : ℕ) : ((d.put i n).inode j).nlink = (d.inode j).nlink := by
  by_cases hj : j = i
  · subst hj
    unfold Disk.put
    split_ifs
    · simp [Disk.free, Disk.set]
    · rfl
  · rw [put_other hj]

lemma create_nlink (hne : ip ≠ dp) (j : ℕ) :
    ((d.create dp ip name type major minor).inode j).nlink =
      if j = ip then 1 else if j = dp ∧ type = .dir then wrap16 ((d.inode dp).nlink + 1)
      else (d.inode j).nlink := by
  unfold Disk.create Disk.link
  dsimp only
  rw [putEnt_nlink]
  by_cases ht : type = .dir
  · rw [if_pos ht, putEnt_nlink, putEnt_nlink]
    by_cases h1 : j = ip
    · rw [if_pos h1, h1, set_other _ hne, set_self]
      rfl
    · by_cases h2 : j = dp
      · rw [if_neg h1, if_pos ⟨h2, ht⟩, h2, set_self, set_other _ hne.symm]
        rfl
      · rw [if_neg h1, if_neg fun hc => h2 hc.1, set_other _ h2, set_other _ h1]
  · rw [if_neg ht]
    by_cases h1 : j = ip
    · rw [if_pos h1, h1, set_self]
      rfl
    · rw [if_neg h1, if_neg fun hc => ht hc.2, set_other _ h1]

lemma create_unlinked (hne : ip ≠ dp) (hkept : Kept d base)
    (h : Unlinked (d.create dp ip name type major minor) j) :
    Unlinked d j := by
  unfold Unlinked at h
  rw [create_nlink hne] at h
  split_ifs at h with h1 h2
  · exact absurd h one_ne_zero
  · exact absurd h (wrap16_succ_ne (hkept.short dp).1 (hkept.short dp).2)
  · exact h

lemma link_unlinked (hkept : Kept d base)
    (h : Unlinked ((d.set ip ((d.inode ip).link 1)).link dp name ip) j) : Unlinked d j := by
  unfold Unlinked Disk.link at h
  rw [putEnt_nlink] at h
  by_cases hj : j = ip
  · rw [hj, set_self] at h
    exact absurd h (wrap16_succ_ne (hkept.short ip).1 (hkept.short ip).2)
  · rwa [set_other _ hj] at h

lemma unlink_other (h1 : j ≠ dp) (h2 : j ≠ ip) : (d.unlink base dp off ip).inode j = d.inode j := by
  unfold Disk.unlink
  dsimp only
  rw [put_other h2, set_other _ h2, put_other h1]
  split_ifs
  · rw [set_other _ h1, putEnt_other h1]
  · rw [putEnt_other h1]

/-- A call comes to its end: it returns with an outcome, or stops. -/
abbrev Ends (d : Disk) (pr : Procs P) (base : ℕ → ℕ) (R : ℕ) (me : P) (cl : Call)
    (m : FsM P Disk ℤ) : St P Disk → Prop :=
  wp m (fun _ s => Returns d pr.endOp base me cl s)
    (Stopped (SelfLock d base R pr me cl) (AllLive d pr.cwd))

section Returns

variable {R : ℕ} {c : Cache}

variable {ip : ℕ} {path : List UInt8}

lemma freeInode_ne {dp : ℕ} (hip : freeInode d = some ip) (hd : (d.inode dp).type = .dir) :
    ip ≠ dp := by
  rintro rfl
  have := (freeInode_some hip).1
  rw [hd] at this
  cases this

variable {cl : Call} {omode : ℕ} {reads : List (ℕ × ℕ)}

/-- The calls whose only path is given to `create`, but for what they do with the inode. -/
lemma wp_created {type : InodeType} {major minor : ℤ} {f : Option ℕ → FsM P Disk ℤ}
    (hty : type ≠ .free) (h : Busy d base (Unlinked d) 0 ∅ R c) (hcwd : 0 < base (pr.cwd me))
    (hkept : Kept d base) (hself : ¬ SelfLock d base R pr me cl)
    (hnone : ∀ c', Busy d base (Unlinked d) 0 ∅ R c' → Ends d pr base R me cl (f none) ⟨d, pr, c'⟩)
    (hold : ∀ ip, (d.inode ip).type = .file → ∀ c', Busy d base (Unlinked d) {ip} {ip} R c' →
      Ends d pr base R me cl (f (some ip)) ⟨d, pr, c'⟩)
    (hnew : ∀ dp name ip, resolveParent d pr me path = some (dp, name) →
      find name (d.inode dp).ents = none → freeInode d = some ip → createNeed d dp type ≤ d.space →
      ∀ d', d' = d.create dp ip name type major minor → ((d'.inode ip).nlink = 0 → 0 < base ip) →
      ∀ c', Busy d' base (Unlinked d') {ip} {ip} R c' →
      Ends d pr base R me cl (f (some ip)) ⟨d', pr, c'⟩) :
    Ends d pr base R me cl (create me path type major minor >>= f) ⟨d, pr, c⟩ := by
  refine wp_bind (wp_create h hty hcwd hkept (fun _ => Stopped.panic hself nofun)
    (fun hcl => Stopped.unread hself fun hl => hcl (hl.clear hl.start))
    (fun dp name ip off hp hf => ⟨Stopped.panic hself nofun, fun hty =>
      Stopped.unread hself fun hl => hl.find (target_dir hp) hf hty⟩)
    (fun _ _ _ _ _ _ hp => Stopped.panic hself hp) (fun _ _ _ => hnone)
    (fun _ _ ip _ _ _ => hold ip) fun dp name ip hp hf _ ⟨hip, _, _, hs⟩ c' h' => ?_)
  have hne := freeInode_ne hip (target_dir hp)
  refine hnew dp name ip hp hf hip hs _ rfl (fun hl => ?_) c' ?_
  · rw [create_nlink hne, if_pos rfl] at hl
    cases hl
  · exact h'.weaken fun j hj => create_unlinked hne hkept hj

/-- `mkdir` and `mknod`. -/
lemma wp_makeOp (cl : Call) {type : InodeType} {major minor : ℤ}
    (hc : creates cl = some (path, type, major, minor)) (hty : type ≠ .free)
    (h : Busy d base (Unlinked d) 0 ∅ R c) (hcwd : 0 < base (pr.cwd me)) (hkept : Kept d base)
    (hself : ¬ SelfLock d base R pr me cl) :
    Ends d pr base R me cl (makeOp me path type major minor) ⟨d, pr, c⟩ := by
  unfold makeOp
  refine wp_created hty h hcwd hkept hself (fun c' h' => wp_endOp ⟨base, R, .same cl, h'⟩)
    (fun ip hfile c' h' => ?_) fun dp name ip hp hf hip hs d' hd' hheld c' h' => ?_
  · exact wp_leave h' (hkept.held ip (by rw [hfile]; exact nofun)) fun c2 h2 =>
      ⟨base, R, .same cl, h2⟩
  · subst hd'
    exact wp_leave h' hheld fun c2 h2 => ⟨base, R, .created hc hp hf hip hs, h2⟩

/-- The calls with one path that they look up and lock. -/
lemma wp_found {f : ℕ → FsM P Disk ℤ} (h : Busy d base (Unlinked d) 0 ∅ R c)
    (hcwd : 0 < base (pr.cwd me)) (hkept : Kept d base) (hself : ¬ SelfLock d base R pr me cl)
    (hf : ∀ ip, resolve d pr me path = some ip → (d.inode ip).type ≠ .free → ∀ c',
      Busy d base (Unlinked d) {ip} {ip} R c' → Ends d pr base R me cl (f ip) ⟨d, pr, c'⟩) :
    Ends d pr base R me cl (do
      match ← namei me path with
      | none =>
        endOp
        pure (-1)
      | some ip =>
        ilock ip
        f ip) ⟨d, pr, c⟩ := by
  refine wp_bind (reads_disk.wp_namei (d := d) trivial rfl h hcwd (hkept.heldBy 0)
    (fun _ => Stopped.panic hself nofun)
    (fun hcl => Stopped.unread hself fun hl => hcl (hl.clear hl.start))
    (fun _ _ _ c' h' => wp_endOp ⟨base, R, .same _, h'⟩) fun ip hres _ c' h' => ?_)
  exact wp_bind (wp_ilock_only h' (fun hf => Stopped.unread hself fun hl => hl.resolve hres hf)
    (hf ip hres))

/-- `open` with the inode of a name that exists. -/
lemma wp_openOld (h : Busy d base (Unlinked d) {ip} {ip} R c) (hty : (d.inode ip).type ≠ .free)
    (hkept : Kept d base) :
    Ends d pr base R me (.openFile path omode) (openInode me ip) ⟨d, pr, c⟩ := by
  refine wp_openInode h (hkept.held ip hty) (fun c' h' => ⟨base, R, .same _, h'⟩)
    fun fd c' R' hfd h' => ⟨addRef base ip, R', .opened hty hfd, h'.weaken fun _ => Or.inl⟩

lemma wp_openOp (h : Busy d base (Unlinked d) 0 ∅ R c) (hcwd : 0 < base (pr.cwd me))
    (hkept : Kept d base) :
    Ends d pr base R me (.openFile path omode) (openOp me path omode) ⟨d, pr, c⟩ := by
  have hself : ¬ SelfLock d base R pr me (.openFile path omode) := id
  unfold openOp
  refine wp_ite (fun hc => ?_) fun hc => ?_
  · refine wp_created (by exact nofun) h hcwd hkept hself
      (fun c' h' => wp_endOp ⟨base, R, .same _, h'⟩)
      (fun ip hfile c' h' => wp_openOld h' (by rw [hfile]; exact nofun) hkept)
      fun dp name ip hp hf hip hs d' hd' hheld c' h' => ?_
    subst hd'
    have hcr : creates (.openFile path omode) = some (path, .file, 0, 0) := if_pos hc
    exact wp_openInode h' hheld (fun c2 h2 => ⟨base, R, .created hcr hp hf hip hs, h2⟩)
      fun fd c2 R' hfd h2 =>
        ⟨addRef base ip, R', .createdOpened hc hp hf hip hs hfd, h2.weaken fun _ => Or.inl⟩
  · refine wp_found h hcwd hkept hself fun ip hres hty c2 h2 => ?_
    refine wp_bind (wp_inode (wp_ite (fun _ => ?_) fun _ => wp_openOld h2 hty hkept))
    exact wp_leave h2 (hkept.held ip hty) fun c3 h3 => ⟨base, R, .same _, h3⟩

lemma addRef_pos {j : ℕ} (h : 0 < base j) : 0 < addRef base i j := by
  by_cases hj : j = i
  · simp [addRef, hj]
  · simpa [addRef, hj] using h

omit [DecidableEq P] in
/-- A reference that a process gives up, and the inode with it if there is no other. -/
lemma wp_release {j : ℕ} {Q : Unit → St P Disk → Prop} (h : Busy d base keep 0 ∅ R c)
    (hj : 0 < base j) (hkeep : Unlinked d j → keep j)
    (hQ : ∀ c' R', Busy (d.put j (subRef base j j)) (subRef base j) keep 0 ∅ R' c' →
      Q () ⟨d.put j (subRef base j j), pr, c'⟩) :
    wp (iput j) Q E ⟨d, pr, c⟩ := by
  obtain ⟨R', h'⟩ := h.take hj
  exact wp_iput_put h' (fun hl => h.keepValid j hj (hkeep hl)) fun c' hc' => hQ c' R' hc'

lemma wp_chdirOp (h : Busy d base (Unlinked d) 0 ∅ R c) (hcwd : 0 < base (pr.cwd me))
    (hkept : Kept d base) :
    Ends d pr base R me (.chdir path) (chdirOp me path) ⟨d, pr, c⟩ := by
  refine wp_found h hcwd hkept id fun ip hres hty c' h' => ?_
  refine wp_bind (wp_inode (wp_ite (fun _ => ?_) fun hdir => ?_))
  · exact wp_leave h' (hkept.held ip hty) fun c2 h2 => ⟨base, R, .same _, h2⟩
  · refine wp_bind (wp_iunlock h' (Finset.mem_singleton_self ip) fun c2 hv h2 => ?_)
    rw [Finset.erase_singleton] at h2
    obtain ⟨R', h3⟩ := Busy.give h2 hv
    refine wp_bind (wp_get (wp_bind (wp_release h3 (addRef_pos hcwd) Or.inl fun c4 R4 h4 => ?_)))
    refine wp_bind
      (wp_setProcs (wp_bind (wp_setProcs (wp_pure ⟨_, R4, .moved hres (not_not.mp hdir), ?_⟩))))
    refine h4.weaken fun j hj => Or.inl ?_
    rwa [Unlinked, put_nlink] at hj

lemma wp_sysClose {fd : Fin NOFILE} (h : Busy d base (Unlinked d) 0 ∅ R c)
    (hfd : ∀ i, pr.ofile me fd = some i → 0 < base i) :
    wp (sysClose me fd) (fun _ s => Returns d pr base me (.close fd) s) E ⟨d, pr, c⟩ := by
  unfold sysClose
  refine wp_bind (wp_get ?_)
  dsimp only
  rcases hf : pr.ofile me fd with _ | i
  · exact wp_pure ⟨base, R, .same _, h⟩
  · refine wp_bind (wp_setProcs (wp_bind (wp_setProcs (wp_bind (wp_release h (hfd i hf) id
      fun c' R' h' => ?_)))))
    refine wp_endOp ⟨_, R', .closed hf, h'.weaken fun j hj => ?_⟩
    rwa [Unlinked, put_nlink] at hj

omit [DecidableEq P] in
/-- The lock is held again after each read. -/
lemma wp_execReads {Q : Unit → St P Disk → Prop} (h : Busy d base keep {ip} {ip} R c)
    (hty : (d.inode ip).type ≠ .free)
    (hQ : ∀ c', Busy d base keep {ip} {ip} R c' → Q () ⟨d, pr, c'⟩) :
    wp (execReads ip reads) Q E ⟨d, pr, c⟩ := by
  induction reads generalizing c with
  | nil => exact wp_pure (hQ c h)
  | cons r reads ih =>
    rw [execReads]
    refine wp_bind (wp_inode (wp_ite (fun _ => wp_ite (fun _ => ?_) fun _ => ih h) fun _ => ?_))
    · refine wp_bind (wp_iunlock h (Finset.mem_singleton_self ip) fun c2 _ h2 => ?_)
      rw [Finset.erase_singleton] at h2
      exact wp_bind (wp_ilock_only h2 (fun hf => absurd hf hty) fun _ _ => ih)
    · exact wp_bind (wp_onDisk (wp_pure (ih h)))

lemma wp_execOp {loads : Bool} (h : Busy d base (Unlinked d) 0 ∅ R c) (hcwd : 0 < base (pr.cwd me))
    (hkept : Kept d base) :
    Ends d pr base R me (.exec path reads loads) (execOp me path reads loads) ⟨d, pr, c⟩ := by
  refine wp_found h hcwd hkept id fun ip hres hty c' h' =>
    wp_bind (wp_execReads h' hty fun c2 h2 => ?_)
  exact wp_leave h2 (hkept.held ip hty) fun c3 h3 => ⟨base, R, .same _, h3⟩

/-- A call returns with an outcome and the cache that goes with it, unless it panics or takes a lock
that it holds. -/
lemma wp_call (cl : Call) (h : Busy d base (Unlinked d) 0 ∅ R c) (hcwd : 0 < base (pr.cwd me))
    (hfd : ∀ fd i, pr.ofile me fd = some i → 0 < base i) (hkept : Kept d base) :
    wp (call me cl) (fun _ s => ¬ SelfLock d base R pr me cl ∧ Returns d pr base me cl s)
      (Stopped (SelfLock d base R pr me cl) (AllLive d pr.cwd)) ⟨d, pr, c⟩ := by
  cases cl with
  | openFile path omode =>
    exact wp_bind
      (wp_setProcs (wp_mono (wp_openOp h hcwd hkept) (fun _ _ hr => ⟨id, hr⟩) fun _ => id))
  | mkdir path =>
    exact wp_bind (wp_setProcs (wp_mono (wp_makeOp (.mkdir path) rfl nofun h hcwd hkept id)
      (fun _ _ hr => ⟨id, hr⟩) fun _ => id))
  | mknod path major minor =>
    exact wp_bind
      (wp_setProcs (wp_mono (wp_makeOp (.mknod path major minor) rfl nofun h hcwd hkept id)
      (fun _ _ hr => ⟨id, hr⟩) fun _ => id))
  | link old new =>
    refine wp_bind
      (wp_setProcs (wp_linkSelf h hcwd hkept (fun hs c' h' => ⟨hs, base, R, .same _, h'⟩)
      fun hs ip dp name hr hi hd hp hf hsp c' h' =>
        ⟨hs, base, R, .linked hr hi hd hp hf hsp, ?_⟩))
    exact h'.weaken fun j hj => link_unlinked hkept hj
  | unlink path =>
    refine wp_bind
      (wp_setProcs (wp_unlinkOp h hcwd hkept (fun hs c' h' => ⟨hs, base, R, .same _, h'⟩)
      fun hs dp name ip off hp hn hf hne hi hl he c' h' =>
        ⟨hs, base, R, .unlinked hp hn hf hne hi hl he, ?_⟩))
    refine h'.weaken fun j hj => ?_
    by_cases h1 : j = dp
    · exact Or.inl (Or.inr h1)
    · by_cases h2 : j = ip
      · exact Or.inr h2
      · rw [Unlinked, unlink_other h1 h2] at hj
        exact Or.inl (Or.inl hj)
  | chdir path =>
    exact wp_bind
      (wp_setProcs (wp_mono (wp_chdirOp h hcwd hkept) (fun _ _ hr => ⟨id, hr⟩) fun _ => id))
  | close fd => exact wp_mono (wp_sysClose h (hfd fd)) (fun _ _ hr => ⟨id, hr⟩) fun _ => id
  | exec path reads loads =>
    exact wp_bind
      (wp_setProcs (wp_mono (wp_execOp h hcwd hkept) (fun _ _ hr => ⟨id, hr⟩) fun _ => id))

end Returns

end Calls

end Xv6.Fs
