import Mathlib.Algebra.BigOperators.Ring.Finset
import Mathlib.Algebra.Order.BigOperators.Group.Finset
import Xv6.FsSpec
import Xv6.Lib.Forest

/-!
The tree of directories on a disk, and what each outcome of a call does to it.

The nodes of the tree are the directories with links. A directory that has been removed while a
process is in it has none: it is empty, and outside the tree.
-/

namespace Xv6.Fs

open Xv6.Lib.Forest

/-! ### Entries -/

/-- Where the entry `..` leads. -/
def up (x : Inode) : ℕ := (x.ents.getD 1 ⟨0, []⟩).inum

/-- The entry is in use, under a name other than `.` and `..`. -/
def Dirent.Names (e : Dirent) (i : ℕ) : Prop := e.inum ≠ 0 ∧ e.inum = i ∧ e.name ≠ dot ∧ e.name ≠ dotdot

instance (e : Dirent) (i : ℕ) : Decidable (e.Names i) := inferInstanceAs (Decidable (_ ∧ _))

def kids (x : Inode) (i : ℕ) : ℕ := x.ents.countP fun e => e.Names i

/-- A directory: `.`, `..`, then entries with other names. -/
def Shape (i p : ℕ) (es : List Dirent) : Prop :=
  ∃ rest, es = ⟨i, dot⟩ :: ⟨p, dotdot⟩ :: rest ∧
    ∀ e ∈ rest, e.inum ≠ 0 → e.name ≠ dot ∧ e.name ≠ dotdot

/-- Entry `k` written, at the end or before. -/
def putSlot (es : List Dirent) (k : ℕ) (e : Dirent) : List Dirent :=
  if k < es.length then es.set k e else es ++ [e]

section Entries

variable {es : List Dirent} {e o : Dirent} {i j k p : ℕ} {name : Name} {q : Dirent → Bool}

lemma freeSlot_free (h : freeSlot es < es.length) : (es[freeSlot es]).inum = 0 := by
  have := List.findIdx_getElem (p := fun e : Dirent => decide (e.inum = 0)) (w := h)
  unfold freeSlot
  simpa using this

/-- A free slot does not count, so writing to it counts the new entry. -/
lemma countP_enter (hq : ∀ o : Dirent, o.inum = 0 → q o = false) :
    (putSlot es (freeSlot es) e).countP q = es.countP q + if q e then 1 else 0 := by
  unfold putSlot
  by_cases hk : freeSlot es < es.length
  · rw [if_pos hk, List.countP_set hk, hq _ (freeSlot_free hk)]
    simp
  · rw [if_neg hk, List.countP_append, List.countP_singleton]

/-- An entry that is cleared no longer counts. -/
lemma countP_clear (hq : ∀ o : Dirent, o.inum = 0 → q o = false) (ho : es[k]? = some o) :
    (putSlot es k ⟨0, []⟩).countP q + (if q o then 1 else 0) = es.countP q := by
  obtain ⟨hk, rfl⟩ := List.getElem?_eq_some_iff.mp ho
  have hpos (h : q es[k] = true) : 0 < es.countP q :=
    List.countP_pos_iff.mpr ⟨es[k], List.getElem_mem hk, h⟩
  rw [putSlot, if_pos hk, List.countP_set hk, hq ⟨0, []⟩ rfl, if_neg Bool.false_ne_true]
  by_cases h : q es[k] = true
  · have := hpos h
    rw [if_pos h]
    omega
  · rw [if_neg h]
    omega

lemma Shape.put (h : Shape i p es) (hk : 2 ≤ k) (he : e.inum ≠ 0 → e.name ≠ dot ∧ e.name ≠ dotdot) :
    Shape i p (putSlot es k e) := by
  obtain ⟨rest, rfl, hrest⟩ := h
  obtain ⟨k, rfl⟩ : ∃ j, k = j + 2 := ⟨k - 2, by omega⟩
  refine ⟨putSlot rest k e, ?_, fun o ho => ?_⟩
  · unfold putSlot
    by_cases hlt : k < rest.length
    · simp [hlt]
    · simp [hlt]
  · unfold putSlot at ho
    split_ifs at ho
    · rcases List.mem_or_eq_of_mem_set ho with ho | rfl
      · exact hrest o ho
      · exact he
    · rcases List.mem_append.mp ho with ho | ho
      · exact hrest o ho
      · rw [List.mem_singleton.mp ho]
        exact he

/-- The slots of `.` and `..` are in use. -/
lemma Shape.two_le_freeSlot (h : Shape i p es) (hi : i ≠ 0) (hp : p ≠ 0) : 2 ≤ freeSlot es := by
  obtain ⟨rest, rfl, -⟩ := h
  simp [freeSlot, List.findIdx_cons, hi, hp]

/-- A name that is not in a directory is neither `.` nor `..`. -/
lemma Shape.new_name (h : Shape i p es) (hi : i ≠ 0) (hp : p ≠ 0) (hf : find name es = none) :
    name.take DIRSIZ ≠ dot ∧ name.take DIRSIZ ≠ dotdot := by
  obtain ⟨rest, rfl, -⟩ := h
  have hdot : dot.take DIRSIZ = dot := rfl
  have hdotdot : dotdot.take DIRSIZ = dotdot := rfl
  constructor
  · intro he
    simp [find, findFrom, namecmp, hi, he, hdot] at hf
  · intro he
    have hne : ¬ dotdot = dot := by decide
    simp [find, findFrom, namecmp, hi, hp, he, hdot, hdotdot, hne] at hf

/-- An entry with such a name is behind them. -/
lemma Shape.two_le_slot (h : Shape i p es) (hn : ¬ (namecmp name dot ∨ namecmp name dotdot))
    (ho : es[k]? = some o) (hname : namecmp name o.name = true) : 2 ≤ k := by
  obtain ⟨rest, rfl, -⟩ := h
  rcases k with _ | _ | k
  · cases ho
    exact absurd (Or.inl hname) hn
  · cases ho
    exact absurd (Or.inr hname) hn
  · omega

lemma Shape.names (h : Shape i p es) (hk : 2 ≤ k) (ho : es[k]? = some o) (h0 : o.inum ≠ 0) :
    o.Names j ↔ j = o.inum := by
  obtain ⟨rest, rfl, hrest⟩ := h
  obtain ⟨k, rfl⟩ : ∃ m, k = m + 2 := ⟨k - 2, by omega⟩
  have hmem : o ∈ rest := List.mem_of_getElem? (by simpa using ho)
  have := hrest o hmem h0
  exact ⟨fun hn => hn.2.1.symm, fun hj => ⟨h0, hj.symm, this⟩⟩

/-- The entries other than `.` are those of the tree and `..`. -/
lemma Shape.count (h : Shape i p es) (hj : j ≠ 0) :
    (es.countP fun e => e.inum = j ∧ e.name ≠ dot) =
      (es.countP fun e => e.Names j) + if p = j then 1 else 0 := by
  obtain ⟨rest, rfl, hrest⟩ := h
  have hdd : dotdot ≠ dot := by decide
  have hcongr : (rest.countP fun e => decide (e.inum = j ∧ e.name ≠ dot)) =
      rest.countP fun e => decide (e.Names j) := by
    refine List.countP_congr fun e he => ?_
    simp only [decide_eq_true_eq]
    constructor
    · rintro ⟨h1, -⟩
      have h0 : e.inum ≠ 0 := by omega
      exact ⟨h0, h1, hrest e he h0⟩
    · exact fun hn => ⟨hn.2.1, hn.2.2.1⟩
  rw [List.countP_cons, List.countP_cons, List.countP_cons, List.countP_cons, hcongr]
  simp [Dirent.Names, hdd]

lemma Shape.empty (h : Shape i p es) (he : ((es.drop 2).all fun e => e.inum = 0) = true) (j : ℕ) :
    (es.countP fun e => e.Names j) = 0 := by
  obtain ⟨rest, rfl, -⟩ := h
  have hrest (e : Dirent) (hm : e ∈ rest) : ¬ e.Names j := fun hn => by
    have := List.all_eq_true.mp he e hm
    exact hn.1 (by simpa using this)
  rw [List.countP_cons, List.countP_cons,
    List.countP_eq_zero.mpr fun e hm => by simpa using hrest e hm]
  simp [Dirent.Names]

end Entries


/-! ### Inodes -/

/-- What holds of inode `i`, of `n`, by itself. -/
structure Good (n i : ℕ) (x : Inode) : Prop where
  range : x.type ≠ .free → 0 < i ∧ i < n
  free : x.type = .free → x.nlink = 0
  plain : x.type ≠ .dir → x.ents = []
  upNe : x.type = .dir → up x ≠ 0
  shape : x.type = .dir → Shape i (up x) x.ents
  removed : x.type = .dir → x.nlink = 0 → isdirempty x = true
  fits : x.ents.length ≤ 32 * x.blocks

def Inode.putEnt (x : Inode) (k : ℕ) (e : Dirent) : Inode :=
  { x with
    ents := putSlot x.ents k e
    blocks := if k < x.ents.length then x.blocks else x.blocks + newBlocks k }

section Inodes

variable {d : Disk} {x : Inode} {n i k : ℕ} {e o : Dirent}

lemma putEnt_self : (d.putEnt i k e).inode i = (d.inode i).putEnt k e := by
  unfold Disk.putEnt Inode.putEnt putSlot
  dsimp only
  split_ifs
  · simp [Disk.set]
  · simp [Disk.set]

lemma putEnt_space :
    (d.putEnt i k e).space = if k < (d.inode i).ents.length then d.space else d.space -
      newBlocks k := by
  unfold Disk.putEnt
  dsimp only
  split_ifs
  · rfl
  · rfl

lemma putEnt_ninodes : (d.putEnt i k e).ninodes = d.ninodes := by
  unfold Disk.putEnt
  dsimp only
  split_ifs
  · rfl
  · rfl

lemma up_of_shape {j p : ℕ} (h : Shape j p x.ents) : up x = p := by
  obtain ⟨rest, he, -⟩ := h
  simp [up, he]

/-- A new block is taken before the first entry of it is written. -/
lemma length_putEnt (h : x.ents.length ≤ 32 * x.blocks) (hk : k ≤ x.ents.length) :
    (x.putEnt k e).ents.length ≤ 32 * (x.putEnt k e).blocks := by
  unfold Inode.putEnt putSlot
  dsimp only
  split_ifs with hlt
  · rwa [List.length_set]
  · have hk' : k = x.ents.length := by omega
    rw [List.length_append, List.length_singleton]
    have hnew : k % 32 = 0 → 1 ≤ newBlocks k := by
      intro hz
      unfold newBlocks
      rw [if_pos (by simp only [DIRENT, BSIZE]; omega)]
      split_ifs <;> omega
    by_cases hz : k % 32 = 0
    · have := hnew hz
      omega
    · omega

lemma Good.putEnt (h : Good n i x) (hdir : x.type = .dir) (hl : x.nlink ≠ 0) (hk : 2 ≤ k)
    (hlen : k ≤ x.ents.length) (he : e.inum ≠ 0 → e.name ≠ dot ∧ e.name ≠ dotdot) :
    Good n i (x.putEnt k e) ∧ up (x.putEnt k e) = up x := by
  have hs : Shape i (up x) (x.putEnt k e).ents := (h.shape hdir).put hk he
  have hup := up_of_shape hs
  refine ⟨⟨h.range, h.free, fun hc => absurd hdir hc, fun _ => ?_, fun _ => ?_, fun _ h0 =>
    absurd h0 hl,
    length_putEnt h.fits hlen⟩, hup⟩
  · rw [hup]
    exact h.upNe hdir
  · rw [hup]
    exact hs

/-- The link count of a directory that stays, or of another inode, may change. -/
lemma Good.setLink (h : Good n i x) (hty : x.type ≠ .free) {m : ℤ}
    (hr : x.type = .dir → m = 0 → isdirempty x = true) : Good n i { x with nlink := m } :=
  ⟨h.range, fun hf => absurd hf hty, h.plain, h.upNe, h.shape, hr, h.fits⟩

lemma Good.relink (h : Good n i x) (hdir : x.type = .dir) {m : ℤ} (hm : m ≠ 0) :
    Good n i { x with nlink := m } :=
  h.setLink (by rw [hdir]; exact nofun) fun _ h0 => absurd h0 hm

lemma kids_enter {ip : ℕ} {name : Name} (hip : ip ≠ 0) (hn : name ≠ dot ∧ name ≠ dotdot) (j : ℕ) :
    kids (x.putEnt (freeSlot x.ents) ⟨ip, name⟩) j = kids x j + if j = ip then 1 else 0 := by
  unfold kids
  change (putSlot _ _ _).countP _ = _
  rw [countP_enter fun o ho => by simp [Dirent.Names, ho]]
  simp [Dirent.Names, hip, hn, eq_comm]

lemma kids_clear (h : Good n i x) (hdir : x.type = .dir) (hk : 2 ≤ k) (ho : x.ents[k]? = some o)
    (h0 : o.inum ≠ 0) (j : ℕ) :
    kids x j = kids (x.putEnt k ⟨0, []⟩) j + if j = o.inum then 1 else 0 := by
  unfold kids
  change _ = (putSlot _ _ _).countP _ + _
  have hn := (h.shape hdir).names hk ho h0 (j := j)
  rw [← countP_clear (fun o ho => by simp [Dirent.Names, ho]) ho]
  simp only [hn, decide_eq_true_eq]

lemma kids_of_empty (h : Good n i x) (hdir : x.type = .dir) (he : isdirempty x = true) (j : ℕ) :
    kids x j = 0 :=
  (h.shape hdir).empty he j

end Inodes

/-! ### The tree -/

/-- The directories with links. -/
def Disk.dirs (d : Disk) : Finset ℕ :=
  (Finset.range d.ninodes).filter fun i => (d.inode i).type = .dir ∧ 0 < (d.inode i).nlink

def graph (d : Disk) : Graph ℕ := ⟨d.dirs, fun i => up (d.inode i), fun i => kids (d.inode i)⟩

/-- The names of an inode other than `.`, in directories with links. -/
def linkCount (d : Disk) (i : ℕ) : ℕ :=
  ∑ x ∈ d.dirs, (d.inode x).ents.countP fun e => e.inum = i ∧ e.name ≠ dot

/-- The directories with links form a tree, and link counts are the numbers of names. -/
structure Consistent (d : Disk) : Prop where
  small : d.ninodes ≤ 2 ^ 16
  good : ∀ i, Good d.ninodes i (d.inode i)
  tree : Tree (graph d) ROOTINO
  links : ∀ i, (d.inode i).nlink = (graph d).indeg i
  total : ∑ i ∈ Finset.range d.ninodes, (d.inode i).blocks + d.space ≤ FSSIZE

section Tree

variable {d d' : Disk} {i j dp ip : ℕ}

lemma Consistent.mem_dirs (h : Consistent d) :
    i ∈ d.dirs ↔ (d.inode i).type = .dir ∧ 0 < (d.inode i).nlink := by
  unfold Disk.dirs
  rw [Finset.mem_filter, Finset.mem_range]
  refine ⟨fun hi => hi.2, fun hi => ⟨((h.good i).range ?_).2, hi⟩⟩
  rw [hi.1]
  exact nofun

lemma Consistent.nlink_nonneg (h : Consistent d) : 0 ≤ (d.inode i).nlink := by
  rw [h.links]
  exact Int.natCast_nonneg _

/-- Link counts are what the claim counts. -/
lemma Consistent.linkCount_eq (h : Consistent d) (hi : i ≠ 0) :
    linkCount d i = (graph d).indeg i := by
  refine Finset.sum_congr rfl fun x hx => ?_
  have hdir := (h.mem_dirs.mp hx).1
  exact ((h.good x).shape hdir).count hi

/-- There are not enough entries on the disk for a link count to overflow. -/
lemma Consistent.nlink_lt (h : Consistent d) : (d.inode i).nlink ≤ 32 * FSSIZE := by
  by_cases hi : i = 0
  · have hfree : (d.inode i).type = .free := by
      by_contra hty
      have := ((h.good i).range hty).1
      omega
    rw [(h.good i).free hfree]
    decide
  · have hle : (graph d).indeg i ≤ ∑ x ∈ Finset.range d.ninodes, 32 * (d.inode x).blocks := by
      rw [← h.linkCount_eq hi]
      calc linkCount d i ≤ ∑ x ∈ d.dirs, 32 * (d.inode x).blocks :=
            Finset.sum_le_sum fun x _ => List.countP_le_length.trans (h.good x).fits
        _ ≤ ∑ x ∈ Finset.range d.ninodes, 32 * (d.inode x).blocks :=
            Finset.sum_le_sum_of_subset (Finset.filter_subset _ _)
    rw [← Finset.mul_sum] at hle
    have htotal := h.total
    rw [h.links]
    have : (graph d).indeg i ≤ 32 * FSSIZE := hle.trans (Nat.mul_le_mul_left 32 (by omega))
    exact_mod_cast this

lemma wrap16_of_small {m : ℤ} (h0 : -2 ^ 15 ≤ m) (h1 : m < 2 ^ 15) : wrap16 m = m := by
  unfold wrap16
  rw [Int.bmod_def]
  split_ifs <;> omega

lemma Consistent.wrap16_link (h : Consistent d) {m : ℤ} (hm : m = 1 ∨ m = -1) :
    wrap16 ((d.inode i).nlink + m) = (d.inode i).nlink + m := by
  have h0 := h.nlink_nonneg (i := i)
  have h1 := h.nlink_lt (i := i)
  have hmax : ((32 : ℤ) * (FSSIZE : ℕ)) = 32000 := by decide
  rw [hmax] at h1
  exact wrap16_of_small (by omega) (by omega)

lemma sum_two {s : Finset ℕ} {f g : ℕ → ℕ} {a b : ℕ} (ha : a ∈ s) (hb : b ∈ s) (hab : a ≠ b)
    (h : ∀ j, j ≠ a → j ≠ b → g j = f j) : ∑ j ∈ s, g j + (f a + f b) = ∑ j ∈ s, f j +
    (g a + g b) := by
  have hb' : b ∈ s.erase a := Finset.mem_erase.mpr ⟨hab.symm, hb⟩
  have hrest : ∑ j ∈ (s.erase a).erase b, g j = ∑ j ∈ (s.erase a).erase b, f j := by
    refine Finset.sum_congr rfl fun j hj => h j ?_ ?_
    · exact (Finset.mem_erase.mp (Finset.mem_of_mem_erase hj)).1
    · exact (Finset.mem_erase.mp hj).1
  rw [← Finset.add_sum_erase s g ha, ← Finset.add_sum_erase s f ha, ← Finset.add_sum_erase _ g hb',
    ← Finset.add_sum_erase _ f hb', hrest]
  omega

end Tree


/-! ### What calls do to it -/

section Steps

variable {d d' : Disk} {i j k dp ip : ℕ} {name : Name} {o : Dirent}

lemma dirs_congr (hn : d'.ninodes = d.ninodes)
    (h : ∀ j, ((d'.inode j).type = .dir ∧ 0 < (d'.inode j).nlink) ↔
      ((d.inode j).type = .dir ∧ 0 < (d.inode j).nlink)) : d'.dirs = d.dirs := by
  unfold Disk.dirs
  rw [hn]
  exact Finset.filter_congr fun j _ => h j

lemma dirs_insert (hn : d'.ninodes = d.ninodes) (hip : ip < d.ninodes)
    (hnew : (d'.inode ip).type = .dir ∧ 0 < (d'.inode ip).nlink)
    (h : ∀ j, j ≠ ip → (((d'.inode j).type = .dir ∧ 0 < (d'.inode j).nlink) ↔
      ((d.inode j).type = .dir ∧ 0 < (d.inode j).nlink))) : d'.dirs = insert ip d.dirs := by
  ext j
  rw [Finset.mem_insert, Disk.dirs, Disk.dirs, Finset.mem_filter, Finset.mem_filter,
    Finset.mem_range, Finset.mem_range, hn]
  by_cases hj : j = ip
  · subst hj
    exact iff_of_true ⟨hip, hnew⟩ (Or.inl rfl)
  · rw [h j hj, or_iff_right hj]

/-- A name in `dp` comes or goes, and the inode it is of is no directory. -/
lemma dirs_leaf {e : Dirent} (hn : d'.ninodes = d.ninodes)
    (hdp' : d'.inode dp = (d.inode dp).putEnt k e) (hip : (d.inode ip).type ≠ .dir)
    (hip' : (d'.inode ip).type ≠ .dir) (hother : ∀ j, j ≠ dp → j ≠ ip → d'.inode j = d.inode j) :
    d'.dirs = d.dirs := by
  refine dirs_congr hn fun j => ?_
  by_cases h1 : j = dp
  · subst h1
    rw [hdp']
    rfl
  · by_cases h2 : j = ip
    · subst h2
      exact iff_of_false (fun hc => hip' hc.1) fun hc => hip hc.1
    · rw [hother j h1 h2]

lemma Consistent.dir_ne_zero (h : Consistent d) (hi : i ∈ d.dirs) : i ≠ 0 ∧ i < d.ninodes := by
  have hty : (d.inode i).type ≠ .free := by
    rw [(h.mem_dirs.mp hi).1]
    exact nofun
  have := (h.good i).range hty
  exact ⟨by omega, this.2⟩

/-- The slot of a new entry comes after `.` and `..`. -/
lemma Consistent.slot (h : Consistent d) (hdp : dp ∈ d.dirs) :
    2 ≤ freeSlot (d.inode dp).ents ∧ freeSlot (d.inode dp).ents ≤ (d.inode dp).ents.length := by
  have hdir := (h.mem_dirs.mp hdp).1
  exact ⟨((h.good dp).shape hdir).two_le_freeSlot (h.dir_ne_zero hdp).1 ((h.good dp).upNe hdir),
    List.findIdx_le_length⟩

lemma Consistent.nlink_ne (h : Consistent d) (hdp : dp ∈ d.dirs) : (d.inode dp).nlink ≠ 0 := by
  have := (h.mem_dirs.mp hdp).2
  omega

/-- Two inodes have changed. -/
lemma Consistent.good_two (h : Consistent d) (hn : d'.ninodes = d.ninodes)
    (hother : ∀ j, j ≠ dp → j ≠ ip → d'.inode j = d.inode j) (hdp : Good d.ninodes dp (d'.inode dp))
    (hip : Good d.ninodes ip (d'.inode ip)) : Good d'.ninodes j (d'.inode j) := by
  rw [hn]
  by_cases h1 : j = dp
  · exact h1 ▸ hdp
  · by_cases h2 : j = ip
    · exact h2 ▸ hip
    · rw [hother j h1 h2]
      exact h.good j

lemma Consistent.total_two (h : Consistent d) (hn : d'.ninodes = d.ninodes)
    (hother : ∀ j, j ≠ dp → j ≠ ip → d'.inode j = d.inode j) (hne : ip ≠ dp)
    (hdp : dp < d.ninodes) (hip : ip < d.ninodes)
    (hle : (d'.inode dp).blocks + (d'.inode ip).blocks + d'.space ≤
      (d.inode dp).blocks + (d.inode ip).blocks + d.space) :
    ∑ j ∈ Finset.range d'.ninodes, (d'.inode j).blocks + d'.space ≤ FSSIZE := by
  have hsum := sum_two (f := fun j => (d.inode j).blocks) (g := fun j => (d'.inode j).blocks)
    (Finset.mem_range.mpr hdp) (Finset.mem_range.mpr hip) hne.symm fun j h1 h2 => by
      rw [hother j h1 h2]
  have htotal := h.total
  rw [hn]
  omega

/-- `dp` of `d'` has one name more, of `ip`, and the other directories are those of `d`. -/
structure OneMore (d d' : Disk) (dp ip : ℕ) : Prop where
  up : up (d'.inode dp) = up (d.inode dp)
  kids : ∀ i, kids (d'.inode dp) i = kids (d.inode dp) i + if i = ip then 1 else 0
  other : ∀ j, j ≠ dp → j ≠ ip → d'.inode j = d.inode j

lemma OneMore.up_eq (h : OneMore d d' dp ip) (hi : i ≠ ip) : Fs.up (d'.inode i) = Fs.up
  (d.inode i) := by
  by_cases hdp : i = dp
  · rw [hdp, h.up]
  · rw [h.other i hdp hi]

lemma OneMore.kids_eq (h : OneMore d d' dp ip) (hi : i ≠ ip) (j : ℕ) :
    Fs.kids (d'.inode i) j = Fs.kids (d.inode i) j + if i = dp ∧ j = ip then 1 else 0 := by
  by_cases hdp : i = dp
  · simp [hdp, h.kids]
  · rw [h.other i hdp hi, if_neg fun hc => hdp hc.1, Nat.add_zero]

/-- The new name is that of a leaf. -/
lemma OneMore.entered (h : OneMore d d' dp ip) (hnode : d'.dirs = d.dirs) (hip : ip ∉ d.dirs) :
    Entered (graph d) (graph d') dp ip where
  node := hnode
  up _ hz := h.up_eq fun he => hip (he ▸ hz)
  kids _ hz := h.kids_eq fun he => hip (he ▸ hz)

/-- It is that of a new directory. -/
lemma OneMore.grown (h : OneMore d d' dp ip) (hnode : d'.dirs = insert ip d.dirs)
  (hip : ip ∉ d.dirs)
    (hup : Fs.up (d'.inode ip) = dp) (hkids : ∀ i, Fs.kids (d'.inode ip) i = 0) :
    Grown (graph d) (graph d') dp ip where
  node := hnode
  fresh := hip
  up _ hz := h.up_eq fun he => hip (he ▸ hz)
  upNew := hup
  kids _ hz := h.kids_eq fun he => hip (he ▸ hz)
  kidsNew := hkids

/-- An entry is written behind the others, or in a free slot. -/
lemma Consistent.putNew (h : Consistent d) (hdp : dp ∈ d.dirs) (hname : name ≠ dot ∧ name ≠ dotdot)
    (hip : ip ≠ 0) {x : Inode} (hx : x = (d.inode dp).putEnt (freeSlot (d.inode dp).ents)
      ⟨ip, name⟩) :
    Good d.ninodes dp x ∧ up x = up (d.inode dp) ∧
      ∀ i, kids x i = kids (d.inode dp) i + if i = ip then 1 else 0 := by
  obtain ⟨hk, hlen⟩ := h.slot hdp
  obtain ⟨hput, hup⟩ := (h.good dp).putEnt (e := ⟨ip, name⟩) (h.mem_dirs.mp hdp).1
    (h.nlink_ne hdp) hk hlen fun _ => hname
  exact hx ▸ ⟨hput, hup, kids_enter hip hname⟩

/-- An entry is cleared. -/
lemma Consistent.putClear (h : Consistent d) (hdp : dp ∈ d.dirs) (hk : 2 ≤ k)
    (ho : (d.inode dp).ents[k]? = some o) (h0 : o.inum ≠ 0) {x : Inode}
    (hx : x = (d.inode dp).putEnt k ⟨0, []⟩) :
    Good d.ninodes dp x ∧ up (d.inode dp) = up x ∧
      (∀ i, kids (d.inode dp) i = kids x i + if i = o.inum then 1 else 0) ∧
      x.blocks = (d.inode dp).blocks := by
  have hdir := (h.mem_dirs.mp hdp).1
  have hklen := (List.getElem?_eq_some_iff.mp ho).1
  obtain ⟨hput, hup⟩ := (h.good dp).putEnt (e := ⟨0, []⟩) hdir (h.nlink_ne hdp) hk hklen.le
    fun hc => absurd rfl hc
  exact hx ▸ ⟨hput, hup.symm, kids_clear (h.good dp) hdir hk ho h0, if_pos hklen⟩

/-- A new name of an inode that is no directory. -/
lemma Consistent.enter (h : Consistent d) (hn : d'.ninodes = d.ninodes) (hdp : dp ∈ d.dirs)
    (hne : ip ≠ dp) (hip : (d.inode ip).type ≠ .dir) (hname : name ≠ dot ∧ name ≠ dotdot)
    (hdp' : d'.inode dp = (d.inode dp).putEnt (freeSlot (d.inode dp).ents) ⟨ip, name⟩)
    (hother : ∀ j, j ≠ dp → j ≠ ip → d'.inode j = d.inode j)
    (hgood : Good d.ninodes ip (d'.inode ip)) (hfree : (d'.inode ip).type ≠ .free)
    (hleaf : (d'.inode ip).type ≠ .dir) (hlink : (d'.inode ip).nlink = (d.inode ip).nlink + 1)
    (hblocks : (d'.inode ip).blocks ≤ (d.inode ip).blocks)
    (hspace : d'.space = if freeSlot (d.inode dp).ents < (d.inode dp).ents.length then d.space
      else d.space - newBlocks (freeSlot (d.inode dp).ents))
    (hs : (d.inode dp).ents.length ≤ freeSlot (d.inode dp).ents →
      newBlocks (freeSlot (d.inode dp).ents) ≤ d.space) : Consistent d' := by
  obtain ⟨hip0, hipn⟩ := hgood.range hfree
  obtain ⟨hdp0, hdpn⟩ := h.dir_ne_zero hdp
  obtain ⟨hput, hup, hkids⟩ := h.putNew hdp hname hip0.ne' hdp'
  have hnode : d'.dirs = d.dirs := dirs_leaf hn hdp' hip hleaf hother
  have hnot : ip ∉ (graph d).node := fun hm => hip (h.mem_dirs.mp hm).1
  have hstep := OneMore.entered ⟨hup, hkids, hother⟩ hnode hnot
  refine ⟨hn ▸ h.small, fun j => h.good_two hn hother hput hgood, hstep.tree h.tree hnot,
    fun j => ?_, h.total_two hn hother hne hdpn hipn ?_⟩
  · have hdeg := hstep.indeg (i := j) hdp
    have hl := h.links j
    grind [Inode.putEnt]
  · rw [hdp', hspace]
    unfold Inode.putEnt
    dsimp only
    split_ifs with hlt
    · omega
    · have := hs (by omega)
      omega

/-- A new directory. -/
lemma Consistent.grow (h : Consistent d) (hn : d'.ninodes = d.ninodes) (hdp : dp ∈ d.dirs)
    (hip : (d.inode ip).type = .free) (hip0 : 0 < ip) (hipn : ip < d.ninodes)
    (hname : name ≠ dot ∧ name ≠ dotdot)
    (hdp' : d'.inode dp =
      { (d.inode dp).putEnt (freeSlot (d.inode dp).ents) ⟨ip, name⟩ with
        nlink := (d.inode dp).nlink + 1 })
    (hother : ∀ j, j ≠ dp → j ≠ ip → d'.inode j = d.inode j)
    (hty : (d'.inode ip).type = .dir) (hlink : (d'.inode ip).nlink = 1)
    (hents : (d'.inode ip).ents = [⟨ip, dot⟩, ⟨dp, dotdot⟩]) (hblocks : (d'.inode ip).blocks = 1)
    (hspace : d'.space = if freeSlot (d.inode dp).ents < (d.inode dp).ents.length then d.space - 1
      else d.space - 1 - newBlocks (freeSlot (d.inode dp).ents))
    (hs : createNeed d dp .dir ≤ d.space) : Consistent d' := by
  obtain ⟨hdp0, hdpn⟩ := h.dir_ne_zero hdp
  obtain ⟨hdir, hpos⟩ := h.mem_dirs.mp hdp
  have hne : ip ≠ dp := by
    rintro rfl
    rw [hip] at hdir
    cases hdir
  obtain ⟨hput, hup, hkids⟩ := h.putNew hdp hname hip0.ne' rfl
  have hshape : Shape ip dp (d'.inode ip).ents := ⟨[], hents, nofun⟩
  have hupip : up (d'.inode ip) = dp := up_of_shape hshape
  have hgood : Good d.ninodes ip (d'.inode ip) := by
    refine ⟨fun _ => ⟨hip0, hipn⟩, fun hf => ?_, fun hd => absurd hty hd, fun _ => ?_, fun _ => ?_,
      fun _ h0 => ?_, ?_⟩
    · rw [hty] at hf
      cases hf
    · rwa [hupip]
    · rwa [hupip]
    · rw [hlink] at h0
      cases h0
    · rw [hents, hblocks]
      simp
  have hgooddp : Good d.ninodes dp (d'.inode dp) := by
    rw [hdp']
    exact hput.relink hdir (by omega)
  have hfresh : ip ∉ (graph d).node := fun hm => by
    have := (h.mem_dirs.mp hm).1
    rw [hip] at this
    cases this
  have hzero : (graph d).indeg ip = 0 := by
    have := h.links ip
    rw [(h.good ip).free hip] at this
    exact_mod_cast this.symm
  have hnode : d'.dirs = insert ip d.dirs := by
    refine dirs_insert hn hipn ⟨hty, by omega⟩ fun j h2 => ?_
    by_cases h1 : j = dp
    · subst h1
      rw [hdp']
      refine iff_of_true ⟨hdir, ?_⟩ ⟨hdir, hpos⟩
      change 0 < _ + 1
      omega
    · rw [hother j h1 h2]
  have hstep := OneMore.grown ⟨hdp' ▸ hup, hdp' ▸ hkids, hother⟩ hnode hfresh hupip
    (kids_of_empty hgood hty (by simp [isdirempty, hents]))
  refine ⟨hn ▸ h.small, fun j => h.good_two hn hother hgooddp hgood, hstep.tree h.tree hdp hzero,
    fun j => ?_, h.total_two hn hother hne hdpn hipn ?_⟩
  · have hdeg := hstep.indeg (i := j) hdp
    have hl := h.links j
    grind
  · rw [hdp', hspace, hblocks]
    unfold createNeed at hs
    rw [if_pos rfl] at hs
    unfold Inode.putEnt
    dsimp only
    split_ifs at hs ⊢ <;> omega

/-- The inode behind an entry has that name. -/
lemma Consistent.named (h : Consistent d) (hdp : dp ∈ d.dirs) (hk : 2 ≤ k)
    (ho : (d.inode dp).ents[k]? = some o) (h0 : o.inum ≠ 0) :
    0 < kids (d.inode dp) o.inum ∧ 0 < (d.inode o.inum).nlink ∧ (d.inode o.inum).type ≠ .free := by
  have hdir := (h.mem_dirs.mp hdp).1
  have hkids : 0 < kids (d.inode dp) o.inum := by
    rw [kids_clear (h.good dp) hdir hk ho h0, if_pos rfl]
    omega
  have hpos : 0 < (d.inode o.inum).nlink := by
    rw [h.links]
    have : 0 < (graph d).indeg o.inum := by
      refine lt_of_lt_of_le hkids (le_trans (Nat.le_add_right _ _)
        (Finset.single_le_sum (f := fun y => (graph d).kids y o.inum +
          if (graph d).up y = o.inum then 1 else 0) (fun _ _ => Nat.zero_le _) hdp))
    exact_mod_cast this
  refine ⟨hkids, hpos, fun hf => ?_⟩
  rw [(h.good _).free hf] at hpos
  exact absurd hpos (lt_irrefl 0)

/-- A name of an inode that is no directory is removed. -/
lemma Consistent.leave (h : Consistent d) (hn : d'.ninodes = d.ninodes) (hdp : dp ∈ d.dirs)
    (hip : (d.inode o.inum).type ≠ .dir) (hk : 2 ≤ k) (ho : (d.inode dp).ents[k]? = some o)
    (h0 : o.inum ≠ 0) (hdp' : d'.inode dp = (d.inode dp).putEnt k ⟨0, []⟩)
    (hother : ∀ j, j ≠ dp → j ≠ o.inum → d'.inode j = d.inode j)
    (hip' : d'.inode o.inum = { d.inode o.inum with nlink := (d.inode o.inum).nlink - 1 })
    (hspace : d'.space = d.space) : Consistent d' := by
  obtain ⟨hdp0, hdpn⟩ := h.dir_ne_zero hdp
  obtain ⟨-, hlpos, hfree⟩ := h.named hdp hk ho h0
  obtain ⟨-, hipn⟩ := (h.good o.inum).range hfree
  have hne : o.inum ≠ dp := fun he => hip (he ▸ (h.mem_dirs.mp hdp).1)
  obtain ⟨hput, hup, hkids, hblocks⟩ := h.putClear hdp hk ho h0 hdp'
  have hnode : d'.dirs = d.dirs := dirs_leaf hn hdp' hip (by rwa [hip']) hother
  have hnot : o.inum ∉ d'.dirs := fun hm => hip (h.mem_dirs.mp (hnode ▸ hm)).1
  have hstep := OneMore.entered ⟨hup, hkids, fun j h1 h2 => (hother j h1 h2).symm⟩ hnode.symm hnot
  have hgood : Good d.ninodes o.inum (d'.inode o.inum) := by
    rw [hip']
    exact (h.good o.inum).setLink hfree fun hd => absurd hd hip
  refine ⟨hn ▸ h.small, fun j => h.good_two hn hother hput hgood, hstep.tree_back h.tree hnot,
    fun j => ?_, h.total_two hn hother hne hdpn hipn (by rw [hblocks, hip', hspace])⟩
  · have hdeg := hstep.indeg (i := j) (show dp ∈ d'.dirs from hnode ▸ hdp)
    have hl := h.links j
    grind [Inode.putEnt]

/-- The directory that names an empty directory is its parent, and names it once. -/
lemma Consistent.empty_dir (h : Consistent d) (hdp : dp ∈ d.dirs)
    (hip : (d.inode o.inum).type = .dir) (hempty : isdirempty (d.inode o.inum) = true) (hk : 2 ≤ k)
    (ho : (d.inode dp).ents[k]? = some o) (h0 : o.inum ≠ 0) :
    o.inum ≠ ROOTINO ∧ (d.inode o.inum).nlink = 1 ∧ up (d.inode o.inum) = dp ∧
      1 < (d.inode dp).nlink := by
  obtain ⟨hkpos, hlpos, -⟩ := h.named hdp hk ho h0
  have hipd : o.inum ∈ (graph d).node := h.mem_dirs.mpr ⟨hip, hlpos⟩
  have hroot : o.inum ≠ ROOTINO := by
    intro he
    have := h.tree.rootKids dp hdp
    rw [← he] at this
    change kids (d.inode dp) o.inum = 0 at this
    omega
  obtain ⟨-, hone⟩ := h.tree.parent o.inum hipd hroot
  have hupip : up (d.inode o.inum) = dp := by
    by_contra hne'
    have := hone dp hdp
    rw [if_neg fun he => hne' he.symm] at this
    change kids (d.inode dp) o.inum = 0 at this
    omega
  refine ⟨hroot, ?_, hupip, ?_⟩
  · rw [h.links, h.tree.indeg_of_empty hipd hroot fun j =>
      kids_of_empty (h.good o.inum) hip hempty j]
    rfl
  · have hdeg := h.tree.two_le_indeg hipd hroot
    rw [show (graph d).up o.inum = dp from hupip] at hdeg
    rw [h.links]
    exact_mod_cast hdeg

/-- The name of an empty directory is removed. -/
lemma Consistent.prune (h : Consistent d) (hn : d'.ninodes = d.ninodes) (hdp : dp ∈ d.dirs)
    (hip : (d.inode o.inum).type = .dir) (hempty : isdirempty (d.inode o.inum) = true) (hk : 2 ≤ k)
    (ho : (d.inode dp).ents[k]? = some o) (h0 : o.inum ≠ 0) (hne : o.inum ≠ dp)
    (hdp' : d'.inode dp =
      { (d.inode dp).putEnt k ⟨0, []⟩ with nlink := (d.inode dp).nlink - 1 })
    (hother : ∀ j, j ≠ dp → j ≠ o.inum → d'.inode j = d.inode j)
    (hip' : d'.inode o.inum = { d.inode o.inum with nlink := (d.inode o.inum).nlink - 1 })
    (hspace : d'.space = d.space) :
    Consistent d' ∧ (d.inode o.inum).nlink = 1 ∧ up (d.inode o.inum) = dp ∧
      1 < (d.inode dp).nlink := by
  obtain ⟨hdp0, hdpn⟩ := h.dir_ne_zero hdp
  obtain ⟨hdir, hpos⟩ := h.mem_dirs.mp hdp
  obtain ⟨-, hlpos, hfree⟩ := h.named hdp hk ho h0
  obtain ⟨-, hipn⟩ := (h.good o.inum).range hfree
  obtain ⟨hroot, hlink, hupip, hdp2⟩ := h.empty_dir hdp hip hempty hk ho h0
  obtain ⟨hput, hup, hkids, hblocks⟩ := h.putClear hdp hk ho h0 rfl
  have hnode : d.dirs = insert o.inum d'.dirs := by
    refine dirs_insert hn.symm (hn.symm ▸ hipn) ⟨hip, hlpos⟩ fun j h2 => ?_
    by_cases h1 : j = dp
    · subst h1
      rw [hdp']
      refine iff_of_true ⟨hdir, hpos⟩ ⟨hdir, ?_⟩
      change 0 < _ - 1
      omega
    · rw [hother j h1 h2]
  have hfresh : o.inum ∉ (graph d').node := fun hm => by
    have := (Finset.mem_filter.mp hm).2.2
    rw [hip'] at this
    change 0 < _ - 1 at this
    omega
  have hstep := OneMore.grown ⟨hdp' ▸ hup, hdp' ▸ hkids, fun j h1 h2 => (hother j h1 h2).symm⟩ hnode
    hfresh hupip (kids_of_empty (h.good o.inum) hip hempty)
  have hdpn' : dp ∈ d'.dirs := by
    rw [hnode] at hdp
    exact (Finset.mem_insert.mp hdp).resolve_left hne.symm
  have hgood : Good d.ninodes o.inum (d'.inode o.inum) := by
    rw [hip']
    exact (h.good o.inum).setLink hfree fun _ _ => hempty
  have hgooddp : Good d.ninodes dp (d'.inode dp) := by
    rw [hdp']
    exact hput.relink hdir (by omega)
  refine ⟨⟨hn ▸ h.small, fun j => h.good_two hn hother hgooddp hgood, hstep.tree_back h.tree hroot,
    fun j => ?_, h.total_two hn hother hne hdpn hipn (by rw [hdp', hip', hspace, ← hblocks])⟩,
      hlink,
    hupip, hdp2⟩
  · have hdeg := hstep.indeg (i := j) hdpn'
    have hl := h.links j
    grind

/-- An inode without links is freed. -/
lemma Consistent.free (h : Consistent d) (hl : (d.inode i).nlink = 0) (hi : i < d.ninodes) :
    Consistent (d.free i) := by
  have hself : (d.free i).inode i = { d.inode i with type := .free, ents := [], blocks := 0 } := by
    simp [Disk.free, Disk.set]
  have hother (j : ℕ) (hj : j ≠ i) : (d.free i).inode j = d.inode j := by
    simp [Disk.free, Disk.set, hj]
  have hnode : (d.free i).dirs = d.dirs := by
    refine dirs_congr rfl fun j => ?_
    by_cases hj : j = i
    · rw [hj, hself]
      refine iff_of_false (fun hc => ?_) fun hc => ?_
      · simp at hc
      · omega
    · rw [hother j hj]
  have hnot {z : ℕ} (hz : z ∈ d.dirs) : z ≠ i := by
    rintro rfl
    exact h.nlink_ne hz hl
  have hup : ∀ z ∈ (graph d).node, (graph (d.free i)).up z = (graph d).up z := fun z hz => by
    change up _ = up _
    rw [hother z (hnot hz)]
  have hkids (z : ℕ) (hz : z ∈ (graph d).node) (j : ℕ) :
      (graph (d.free i)).kids z j = (graph d).kids z j := by
    change kids _ _ = kids _ _
    rw [hother z (hnot hz)]
  refine ⟨h.small, fun j => ?_, h.tree.congr hnode hup fun z hz w _ => hkids z hz w, fun j =>
    ?_, ?_⟩
  · by_cases hj : j = i
    · rw [hj, hself]
      exact ⟨fun hc => absurd rfl hc, fun _ => hl, fun _ => rfl, by simp, by simp, by simp, by simp⟩
    · rw [hother j hj]
      exact h.good j
  · have hdeg : (graph (d.free i)).indeg j = (graph d).indeg j := by
      refine Finset.sum_congr hnode fun z (hz : z ∈ d.dirs) => ?_
      rw [hkids z hz, hup z hz]
    rw [hdeg, ← h.links]
    by_cases hj : j = i
    · rw [hj, hself]
    · rw [hother j hj]
  · have htotal := h.total
    have hi' := Finset.mem_range.mpr hi
    have hrest : ∑ j ∈ (Finset.range d.ninodes).erase i, ((d.free i).inode j).blocks =
        ∑ j ∈ (Finset.range d.ninodes).erase i, (d.inode j).blocks :=
      Finset.sum_congr rfl fun j hj => by rw [hother j (Finset.mem_erase.mp hj).1]
    rw [← Finset.add_sum_erase _ _ hi'] at htotal
    change ∑ j ∈ Finset.range d.ninodes, _ + (d.space + (d.inode i).blocks) ≤ FSSIZE
    rw [← Finset.add_sum_erase _ _ hi', hrest, hself]
    dsimp only
    omega

end Steps

end Xv6.Fs
