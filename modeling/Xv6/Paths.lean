import Xv6.Dirents

/-!
Path resolution on the blocks of the disk. `skipelem` cuts a path into its components one at a time,
and `namex` looks them up one after the other, as long as nobody changes the directories.
-/

namespace Xv6.Paths

open Xv6.Fs Xv6.FileData Xv6.Dirents Xv6.Lib.Wp

/-! ### Components -/

/-- The parts of a path between slashes that are not empty, cut off at `DIRSIZ`. -/
def components (path : List UInt8) : List Name :=
  ((path.splitOn slash).filter (· ≠ [])).map (List.take DIRSIZ)

section Components

variable {path u v : List UInt8}

@[simp] lemma components_slash (path : List UInt8) :
    components (slash :: path) = components path := by
  unfold components
  rw [List.splitOn, List.splitOn, List.splitOnP_cons_eq_if_modifyHead]
  simp

lemma components_dropWhile (path : List UInt8) :
    components (path.dropWhile (· = slash)) = components path := by
  induction path with
  | nil => rfl
  | cons b path ih =>
    by_cases hb : b = slash
    · rw [List.dropWhile_cons_of_pos (by simpa using hb), ih, hb, components_slash]
    · rw [List.dropWhile_cons_of_neg (by simpa using hb)]

/-- A component, then what is behind it. -/
lemma components_append (hu : slash ∉ u) (hne : u ≠ []) (hv : ∀ b, v.head? = some b → b = slash) :
    components (u ++ v) = u.take DIRSIZ :: components v := by
  have hnot : ∀ x ∈ u, (x == slash) = false := fun x hx => by
    rw [beq_eq_false_iff_ne]
    rintro rfl
    exact hu hx
  unfold components
  rw [List.splitOn, List.splitOn]
  cases v with
  | nil =>
    rw [List.append_nil, List.splitOnP_eq_singleton hnot]
    simp [hne]
  | cons b v =>
    obtain rfl := hv b rfl
    rw [List.splitOnP_append_cons_of_forall_mem hnot slash (by simp),
      List.splitOnP_cons_eq_if_modifyHead]
    simp [hne]

/-- `skipelem` cuts off the first component. -/
lemma components_skipelem (path : List UInt8) :
    components path = match skipelem path with
      | none => []
      | some (name, rest) => name :: components rest := by
  unfold skipelem
  dsimp only
  split_ifs with hs
  · rw [← components_dropWhile, hs]
    rfl
  · set s := path.dropWhile (· = slash) with hdef
    have hsplit : s = s.takeWhile (· ≠ slash) ++ s.dropWhile (· ≠ slash) :=
      List.takeWhile_append_dropWhile.symm
    have hne : s.takeWhile (· ≠ slash) ≠ [] := by
      obtain ⟨b, t, hbt⟩ := List.exists_cons_of_ne_nil hs
      have hb : b ≠ slash := by
        have := List.head?_dropWhile_not (· = slash) path
        rw [← hdef, hbt] at this
        simpa using this
      rw [hbt, List.takeWhile_cons_of_pos (by simpa using hb)]
      exact List.cons_ne_nil _ _
    have hno : slash ∉ s.takeWhile (· ≠ slash) := fun hm => by
      simpa using List.mem_takeWhile_imp hm
    have hhead (b : UInt8) (hb : (s.dropWhile (· ≠ slash)).head? = some b) : b = slash := by
      have := List.head?_dropWhile_not (· ≠ slash) s
      rw [hb] at this
      simpa using this
    calc components path = components s := (components_dropWhile path).symm
      _ = components (s.takeWhile (· ≠ slash) ++ s.dropWhile (· ≠ slash)) := by rw [← hsplit]
      _ = (s.takeWhile (· ≠ slash)).take DIRSIZ ::
          components ((s.dropWhile (· ≠ slash)).dropWhile (· = slash)) := by
        rw [components_append hno hne hhead, components_dropWhile]

lemma elems_eq (path : List UInt8) : elems path = components path := by
  induction hn : path.length using Nat.strong_induction_on generalizing path with
  | h n ih =>
  rw [components_skipelem]
  cases hs : skipelem path with
  | none => exact elems_none hs
  | some r =>
    obtain ⟨name, rest⟩ := r
    rw [elems_some hs, ih rest.length (hn ▸ skipelem_length hs) rest rfl]

end Components

/-! ### Looking up -/

/-- The inode of an entry of a directory. -/
def lookup (d : Blk) (dp : ℕ) (name : Name) : Option ℕ :=
  if (d.dinode dp).type = .dir then (find name (ents d dp)).map Prod.fst else none

/-- Where the components of a path lead. -/
def walk (d : Blk) (i : ℕ) (names : List Name) : Option ℕ := names.foldlM (lookup d) i

/-- The directory that the last component is to be looked up in. -/
def walkParent (d : Blk) (i : ℕ) (names : List Name) : Option (ℕ × Name) := do
  let name ← names.getLast?
  let dp ← walk d i names.dropLast
  if (d.dinode dp).type = .dir then some (dp, name) else none

/-- The directories of a disk, as lists of entries. -/
def view (d : Blk) : Disk where
  inode i :=
    let x := d.dinode i
    ⟨x.type, x.major, x.minor, x.nlink, ents d i, 0⟩
  space := 0
  ninodes := d.sb.ninodes

/-- Every directory can be read to its end. -/
structure Readable (d : Blk) : Prop where
  sound : Sound d
  held : d.held = []
  dirs : ∀ i, (d.dinode i).type = .dir → i < d.sb.ninodes ∧ (d.dinode i).size % DIRENT = 0

section View

variable {d : Blk} {i j dp : ℕ} {name : Name} {names : List Name} {parent : Bool}

lemma Readable.dir (h : Readable d) (hdir : (d.dinode dp).type = .dir) : Dir d dp :=
  ⟨h.sound, h.held, ⟨(h.dirs dp hdir).1, by rw [hdir]; exact nofun⟩, hdir⟩

lemma reads_blk : Reads Blk view Readable where
  info _ _ := rfl
  load d i h := by
    have hload : wp (Files.load i : DiskM Blk Unit) (fun _ d' => d' = d) (fun _ => False) d := by
      refine wp_bind (wp_get (wp_bind (wp_bread_free (by simp [h.held]) (wp_brelse rfl ?_))))
      rfl
    obtain ⟨_, _, hrun, hd⟩ := wp_total hload
    rwa [hd] at hrun
  search d dp name h hdir := by
    have hD := h.dir hdir
    rw [search_run hD.sound hD.held hD.allocated]
    change _ = Except.ok (find name (ents d dp), d)
    cases find name (ents d dp) with
    | none => exact if_pos (h.dirs dp hdir).2
    | some r => rfl

lemma target_view (d : Blk) (i : ℕ) (names : List Name) :
    (target (view d) false i names).map Prod.fst = walk d i names := by
  induction names generalizing i with
  | nil => rfl
  | cons name names ih =>
    have hstep : walk d i (name :: names) = (lookup d i name).bind fun j => walk d j names := rfl
    have htype : ((view d).inode i).type = (d.dinode i).type := rfl
    have hents : ((view d).inode i).ents = ents d i := rfl
    rw [target, hstep, lookup, htype, hents]
    by_cases hdir : (d.dinode i).type = .dir
    · rw [if_neg (not_not.mpr hdir), if_neg (by simp), if_pos hdir]
      cases find name (ents d i) with
      | none => rfl
      | some r => exact ih r.1
    · rw [if_pos hdir, if_neg hdir]
      rfl

lemma target_parent_view (d : Blk) (i : ℕ) (names : List Name) :
    target (view d) true i names = walkParent d i names := by
  induction names generalizing i with
  | nil => rfl
  | cons name names ih =>
    have htype : ((view d).inode i).type = (d.dinode i).type := rfl
    have hents : ((view d).inode i).ents = ents d i := rfl
    rw [target, htype, hents]
    cases names with
    | nil =>
      have hone : walkParent d i [name] =
          if (d.dinode i).type = .dir then some (i, name) else none := rfl
      rw [hone]
      by_cases hdir : (d.dinode i).type = .dir <;> simp [hdir]
    | cons n ns =>
      have hstep : walkParent d i (name :: n :: ns) =
          (lookup d i name).bind fun j => walkParent d j (n :: ns) := by
        unfold walkParent
        rw [List.getLast?_cons_cons, List.dropLast_cons_cons]
        have hwalk : walk d i (name :: (n :: ns).dropLast) =
          (lookup d i name).bind fun j => walk d j (n :: ns).dropLast := rfl
        rw [hwalk]
        cases (n :: ns).getLast? <;> cases lookup d i name <;> rfl
      rw [hstep, lookup]
      by_cases hdir : (d.dinode i).type = .dir
      · rw [if_neg (not_not.mpr hdir), if_neg (by simp), if_pos hdir]
        cases find name (ents d i) with
        | none => rfl
        | some r => exact ih r.1
      · rw [if_pos hdir, if_neg hdir]
        rfl

/-- The last component is looked up in the parent. -/
lemma walk_eq (d : Blk) (i : ℕ) (hne : names ≠ []) :
    walk d i names = (walkParent d i names).bind fun r => lookup d r.1 r.2 := by
  obtain ⟨init, name, rfl⟩ := names.eq_nil_or_concat.resolve_left hne
  have hwalk : walk d i (init ++ [name]) = (walk d i init).bind fun dp => lookup d dp name := by
    unfold walk
    rw [List.foldlM_append]
    simp
  unfold walkParent
  rw [List.concat_eq_append] at *
  rw [hwalk, List.getLast?_append, List.dropLast_concat]
  cases walk d i init with
  | none => rfl
  | some dp =>
    change lookup d dp name = Option.bind (if _ then _ else _) _
    split_ifs with hdir
    · rfl
    · exact if_neg hdir

end View

/-! ### `namex` -/

/-- A static tree of directories, and a process that looks up a path in it. Entries and the places
where paths start name inodes in use. An inode without links is there only as long as somebody holds
it. -/
structure Tree {P : Type} (s : St P Blk) (me : P) : Prop where
  readable : Readable s.disk
  live : AllLive (view s.disk) s.procs.cwd
  held : ∀ i, (s.disk.dinode i).type ≠ .free → (s.disk.dinode i).nlink = 0 → 0 < s.cache.ref i
  cwd : 0 < s.cache.ref (s.procs.cwd me)
  unlocked : ∀ i, s.cache.locked i = false
  valid : ∀ i, 0 < s.cache.ref i → s.cache.valid i = true → (s.disk.dinode i).type ≠ .free

section Namex

variable {P : Type} {s : St P Blk} {me : P} {path : List UInt8}

lemma Tree.busy (h : Tree s me) :
    Busy (view s.disk) s.cache.ref (fun _ => False) 0 ∅ s.cache.room s.cache where
  ref _ := rfl
  locked i := by simp [h.unlocked i]
  lockedRef _ hi := absurd hi (Finset.notMem_empty _)
  lockedValid _ hi := absurd hi (Finset.notMem_empty _)
  keepValid _ _ hk := hk.elim
  validLive := h.valid
  room := rfl

lemma need_le_card (base : ℕ → ℕ) (xs : Multiset ℕ) : need base xs ≤ xs.card :=
  (Finset.card_filter_le _ _).trans (Multiset.toFinset_card_le xs)

/-- Two slots of the cache are enough for a path. -/
lemma fits_of_two {d : Disk} {base : ℕ → ℕ} {R : ℕ} (hR : 2 ≤ R) (parent : Bool) (i : ℕ)
    (names : List Name) : Fits d base R 0 parent i names := by
  induction names generalizing i with
  | nil => trivial
  | cons name names ih => exact fun _ _ j off _ => ⟨(need_le_card _ _).trans hR, ih j⟩

lemma room_of_two (h : 2 ≤ s.cache.room) (parent : Bool) :
    Room (view s.disk) s.cache.ref s.cache.room 0 parent s.procs me path :=
  ⟨(need_le_card _ _).trans (one_le_two.trans h), fits_of_two h parent _ _⟩

/-- The last component takes a slot too. -/
lemma fits_last {d : Disk} {base : ℕ → ℕ} {R : ℕ} {xs : Multiset ℕ} (i : ℕ) (names : List Name) :
    Fits d base R xs false i names ↔ Fits d base R xs true i names ∧
      ∀ dp name, target d true i names = some (dp, name) → ∀ j off,
        find name (d.inode dp).ents = some (j, off) → need base (j ::ₘ dp ::ₘ xs) ≤ R := by
  induction names generalizing i with
  | nil => exact ⟨fun _ => ⟨trivial, nofun⟩, fun _ => trivial⟩
  | cons n ns ih =>
    rw [Fits, Fits, target]
    by_cases hdir : (d.inode i).type = .dir
    swap
    · simp [hdir]
    rw [if_neg (not_not.mpr hdir)]
    by_cases hns : ns = []
    · subst hns
      rw [if_pos ⟨rfl, rfl⟩]
      constructor
      · refine fun h => ⟨fun _ hlast => absurd ⟨rfl, rfl⟩ hlast, fun dp name he j off hf => ?_⟩
        cases he
        exact (h hdir (by simp) j off hf).1
      · exact fun h _ _ j off hf => ⟨h.2 i n rfl j off hf, trivial⟩
    · rw [if_neg fun h => hns h.2]
      constructor
      · refine fun h => ⟨fun _ _ j off hf => ?_, fun dp name ht => ?_⟩
        · obtain ⟨hneed, hfit⟩ := h hdir (by simp) j off hf
          exact ⟨hneed, ((ih j).mp hfit).1⟩
        · rcases hf : find n (d.inode i).ents with _ | ⟨j, off⟩
          · rw [hf] at ht
            cases ht
          · rw [hf] at ht
            exact ((ih j).mp (h hdir (by simp) j off hf).2).2 dp name ht
      · rintro ⟨h1, h2⟩ _ _ j off hf
        obtain ⟨hneed, hfit⟩ := h1 hdir (fun hc => hns hc.2) j off hf
        rw [hf] at h2
        exact ⟨hneed, (ih j).mpr ⟨hfit, h2⟩⟩

/-- What `namex` has returned: the inode with a reference to it, and the disk as it was. -/
structure Result (s : St P Blk) (r : Option ℕ) (s' : St P Blk) : Prop where
  disk : s'.disk = s.disk
  procs : s'.procs = s.procs
  busy : Busy (view s.disk) s.cache.ref (fun _ => False) (r.elim 0 ({·})) ∅ s.cache.room s'.cache

/-- The cache has room for a path. -/
abbrev Fitting (s : St P Blk) (me : P) (path : List UInt8) (parent : Bool) : Prop :=
  Room (view s.disk) s.cache.ref s.cache.room 0 parent s.procs me path

/-- `namex` returns, unless the cache is full. -/
structure Resolves {α : Type} (s : St P Blk) (m : FsM P Blk (Option α)) (r : Option α)
    (inum : α → ℕ) (fitting : Prop) : Prop where
  returns : fitting → ∃ s', m s = .ok (r, s')
  result : ∀ r' s', m s = .ok (r', s') →
    r' = r ∧ Result s (r'.map inum) s' ∧ (r'.isSome = true → fitting)
  stops : ∀ e, m s = .error e → e = .panic .igetNoInodes ∧ ¬ fitting

lemma resolves_of {α : Type} {m : FsM P Blk (Option α)} {r : Option α} {inum : α → ℕ}
    {fitting : Prop} (h : wp m
      (fun r' s' => r' = r ∧ Result s (r'.map inum) s' ∧ (r'.isSome = true → fitting))
      (fun e => e = .panic .igetNoInodes ∧ ¬ fitting) s) : Resolves s m r inum fitting := by
  refine ⟨fun hfit => ?_, fun r' s' hm => ?_, fun e hm => ?_⟩
  · rcases hm : m s with e | ⟨r', s'⟩
    · exact absurd hfit (wp_error h hm).2
    · rw [(wp_ok h hm).1]
      exact ⟨s', rfl⟩
  · obtain ⟨hr, hres, hfit⟩ := wp_ok h hm
    exact ⟨hr, hres, hfit⟩
  · obtain ⟨he, hfit⟩ := wp_error h hm
    exact ⟨he, hfit⟩

lemma namex_spec (h : Tree s me) (parent : Bool) (path : List UInt8) :
    wp (namex me path parent) (fun r s' =>
      r = target (view s.disk) parent (start s.procs me path) (elems path) ∧
        Result s (r.map Prod.fst) s' ∧ (r.isSome = true → Fitting s me path parent))
      (fun e => e = .panic .igetNoInodes ∧ ¬ Fitting s me path parent) s := by
  refine reads_blk.wp_namex h.readable rfl h.busy h.cwd (fun j hj h0 => .inl (h.held j hj h0))
    (fun hroom => ⟨rfl, hroom⟩) (fun hclear => ?_)
    (fun ht _ _ c' hb => ⟨ht.symm, ⟨rfl, rfl, hb⟩, nofun⟩)
    fun j name ht hfit c' hb => ⟨ht.symm, ⟨rfl, rfl, hb⟩, fun _ => hfit⟩
  exact absurd (h.live.clear h.live.start) hclear

lemma namei_resolves (h : Tree s me) (path : List UInt8) : Resolves s (namei me path)
    (walk s.disk (start s.procs me path) (components path)) id (Fitting s me path false) := by
  refine resolves_of (wp_bind (wp_mono (namex_spec h false path) ?_ fun _ => id))
  rintro r s' ⟨hr, hres, hfit⟩
  refine wp_pure ⟨?_, by rwa [Option.map_id], fun hr => hfit (by simpa using hr)⟩
  rw [hr, target_view, elems_eq]

lemma nameiparent_resolves (h : Tree s me) (path : List UInt8) : Resolves s (nameiparent me path)
    (walkParent s.disk (start s.procs me path) (components path)) Prod.fst
    (Fitting s me path true) := by
  have hspec := namex_spec h true path
  rw [target_parent_view, elems_eq] at hspec
  exact resolves_of hspec

/-- `dirlookup` in the directory that `nameiparent` has returned. -/
lemma dirlookup_resolves (h : Tree s me) {s' : St P Blk} {dp : ℕ} (hres : Result s (some dp) s')
    (hdir : (s.disk.dinode dp).type = .dir) (name : Name) (i : ℕ) :
    (∃ off s'', dirlookup dp name s' = .ok (some (i, off), s'')) ↔
      ∃ off, find name (ents s.disk dp) = some (i, off) ∧
        need s.cache.ref (i ::ₘ {dp}) ≤ s.cache.room := by
  obtain ⟨d, pr, c⟩ := s'
  obtain rfl : d = s.disk := hres.disk
  have hspec : wp (dirlookup dp name)
      (fun r _ => r = find name (ents s.disk dp) ∧
        ∀ i off, r = some (i, off) → need s.cache.ref (i ::ₘ {dp}) ≤ s.cache.room)
      (fun _ => ∃ i off, find name (ents s.disk dp) = some (i, off) ∧
        s.cache.room < need s.cache.ref (i ::ₘ {dp})) ⟨s.disk, pr, c⟩ := by
    refine reads_blk.wp_dirlookup h.readable hres.busy hdir (fun i off hf hlt => ⟨i, off, hf, hlt⟩)
      (fun hf => ⟨hf.symm, nofun⟩) fun i off hf c' hb => ⟨hf.symm, ?_⟩
    rintro _ _ ⟨⟩
    exact hb.room ▸ Nat.le_add_left _ _
  constructor
  · rintro ⟨off, s'', hrun⟩
    obtain ⟨hf, hneed⟩ := wp_ok hspec hrun
    exact ⟨off, hf.symm, hneed i off rfl⟩
  · rintro ⟨off, hf, hneed⟩
    rcases hrun : dirlookup dp name (⟨s.disk, pr, c⟩ : St P Blk) with e | ⟨r, s''⟩
    · obtain ⟨i', off', hf', hlt⟩ := wp_error hspec hrun
      cases hf.symm.trans hf'
      exact absurd hneed (not_le.mpr hlt)
    · rw [(wp_ok hspec hrun).1, hf]
      exact ⟨off, s'', rfl⟩

/-- **Path resolution.** In a static tree `namei` returns what looking up the components one after
the other gives, and `nameiparent` the directory of the last one, with its name; neither changes the
disk. Both stop the kernel when the inode cache is full, which takes fewer than two free slots. A
path leads to an inode just when `nameiparent` finds a directory in which `dirlookup` finds it. -/
theorem path_resolution (h : Tree s me) (path : List UInt8) :
    (∀ r s', namei me path s = .ok (r, s') →
      r = walk s.disk (start s.procs me path) (components path) ∧ s'.disk = s.disk) ∧
    (∀ r s', nameiparent me path s = .ok (r, s') →
      r = walkParent s.disk (start s.procs me path) (components path) ∧ s'.disk = s.disk) ∧
    (∀ e, namei me path s = .error e ∨ nameiparent me path s = .error e →
      e = .panic .igetNoInodes ∧ s.cache.room < 2) ∧ (components path ≠ [] → ∀ i,
      (∃ s', namei me path s = .ok (some i, s')) ↔
        ∃ dp name s', nameiparent me path s = .ok (some (dp, name), s') ∧
          (s.disk.dinode dp).type = .dir ∧
          ∃ off s'', dirlookup dp name s' = .ok (some (i, off), s'')) := by
  have hn := namei_resolves h path
  have hp := nameiparent_resolves h path
  have hfull {parent : Bool} (hf : ¬ Fitting s me path parent) : s.cache.room < 2 := by
    by_contra hlt
    exact hf (room_of_two (not_lt.mp hlt) parent)
  refine ⟨fun r s' hr => ⟨(hn.result r s' hr).1, (hn.result r s' hr).2.1.disk⟩,
    fun r s' hr => ⟨(hp.result r s' hr).1, (hp.result r s' hr).2.1.disk⟩, fun e he => ?_,
    fun hne i => ?_⟩
  · rcases he with he | he
    · exact (hn.stops e he).imp_right hfull
    · exact (hp.stops e he).imp_right hfull
  -- the slots for the path are those for its parent, and those of the last lookup
  have hlast := @fits_last (view s.disk) s.cache.ref s.cache.room 0 (start s.procs me path)
    (elems path)
  rw [target_parent_view, elems_eq] at hlast
  have hdir {dp : ℕ} {name : Name} (hw : walkParent s.disk (start s.procs me path)
      (components path) = some (dp, name)) : (s.disk.dinode dp).type = .dir := by
    rw [← target_parent_view] at hw
    exact target_dir hw
  have hwalk := walk_eq s.disk (start s.procs me path) hne
  constructor
  · rintro ⟨s', hs'⟩
    obtain ⟨hi, -, hfit⟩ := hn.result _ _ hs'
    have hfit := hfit rfl
    rw [hwalk] at hi
    obtain ⟨⟨dp, name⟩, hw, hl⟩ := Option.bind_eq_some_iff.mp hi.symm
    obtain ⟨htrue, hneed⟩ := hlast.mp (elems_eq path ▸ hfit.2)
    obtain ⟨s₂, hs₂⟩ := hp.returns ⟨hfit.1, elems_eq path ▸ htrue⟩
    rw [hw] at hs₂
    rw [lookup, if_pos (hdir hw)] at hl
    obtain ⟨⟨j, off⟩, hf, rfl⟩ := Option.map_eq_some_iff.mp hl
    refine ⟨dp, name, s₂, hs₂, hdir hw, ?_⟩
    exact (dirlookup_resolves h (hp.result _ _ hs₂).2.1 (hdir hw) name j).mpr
      ⟨off, hf, hneed dp name hw j off hf⟩
  · rintro ⟨dp, name, s₂, hs₂, hd, hfound⟩
    obtain ⟨hw, hres, hfit⟩ := hp.result _ _ hs₂
    have hfit := hfit rfl
    obtain ⟨off, hf, hneed⟩ := (dirlookup_resolves h hres hd name i).mp hfound
    have hall : Fitting s me path false := by
      refine ⟨hfit.1, elems_eq path ▸ hlast.mpr ⟨elems_eq path ▸ hfit.2, ?_⟩⟩
      intro dp' name' hw' j off' hf'
      obtain ⟨rfl, rfl⟩ := Prod.mk.inj (Option.some.inj (hw.trans hw'))
      cases hf.symm.trans hf'
      exact hneed
    obtain ⟨s₁, hs₁⟩ := hn.returns hall
    refine ⟨s₁, ?_⟩
    rw [hs₁, hwalk, ← hw, Option.bind_some, lookup, if_pos hd, hf]
    rfl

/-- The name `a`. -/
def nameA : Name := [97]

/-- A root directory with one entry, for itself. -/
theorem path_resolution_loop : ∃ s : St Unit Blk, Tree s () ∧
    ∃ s', namei () [slash, 97, slash, slash, 97] s = .ok (some ROOTINO, s') := by
  obtain ⟨hacc, hlow⟩ := dir_emptyDir
  have hD : Dir emptyDir.disk ROOTINO :=
    ⟨⟨⟨hacc.exact, hlow, by decide⟩, hacc.mapped⟩, rfl, by decide, rfl⟩
  have hv : (writeEnt ROOTINO 0 (encode ⟨ROOTINO, nameA⟩) emptyDir.disk).toOption.map
      (fun r => (r.1, walk r.2 ROOTINO [nameA, nameA])) = some (true, some ROOTINO) := by
    decide +kernel
  obtain ⟨⟨r, d⟩, hd, hv⟩ := Option.map_eq_some_iff.mp hv
  obtain ⟨hr, hwalk⟩ := Prod.mk.inj hv
  obtain rfl : r = true := hr
  have hput := wp_ok (writeEnt_spec hD (length_encode _) (.inr ⟨rfl, rfl⟩)) (ok_of_toOption hd) rfl
  have hother (i : ℕ) (hi : i ≠ ROOTINO) : (d.dinode i).type = .free := by
    obtain ⟨addrs, hdi⟩ := hput.written.inode i hi
    rw [hdi]
    exact congrArg Dinode.type (if_neg hi)
  have hroot (i : ℕ) (hi : (d.dinode i).type ≠ .free) : i = ROOTINO := by
    by_contra hne
    exact hi (hother i hne)
  have hdir : (d.dinode ROOTINO).type ≠ .free := by
    rw [hput.dir.dir]
    nofun
  have hents : ents d ROOTINO = [⟨ROOTINO, nameA⟩] := hput.ents
  have htree : Tree (⟨d, emptyDir.procs, emptyDir.cache⟩ : St Unit Blk) () := by
    refine ⟨⟨hput.dir.sound, hput.dir.held, fun i hi => ?_⟩,
      ⟨hdir, fun _ => hdir, fun i hi e he _ => ?_⟩, fun i hi _ => ?_, Nat.one_pos, fun _ => rfl,
      fun i _ hi => ?_⟩
    · obtain rfl := hroot i (by rw [hi]; nofun)
      exact ⟨hput.dir.allocated.1, hput.size⟩
    · obtain rfl := hroot i (by rw [show (d.dinode i).type = .dir from hi]; nofun)
      have he : e ∈ ents d ROOTINO := he
      rw [hents, List.mem_singleton] at he
      rw [he]
      exact hdir
    · rw [hroot i hi]
      exact Nat.one_pos
    · obtain rfl : i = ROOTINO := by simpa [emptyDir] using hi
      exact hdir
  have hroom : ¬ emptyDir.cache.room < 2 := by decide
  have hcomp : components [slash, 97, slash, slash, 97] = [nameA, nameA] := by decide
  obtain ⟨hret, -, hstop, -⟩ := path_resolution htree [slash, 97, slash, slash, 97]
  rcases hrun : namei () [slash, 97, slash, slash, 97]
    (⟨d, emptyDir.procs, emptyDir.cache⟩ : St Unit Blk) with e | ⟨r, s'⟩
  · exact absurd (hstop e (.inl hrun)).2 hroom
  · obtain ⟨rfl, -⟩ := hret r s' hrun
    rw [hcomp] at hrun
    exact ⟨_, htree, s', hrun.trans (congrArg (fun r => Except.ok (r, s')) hwalk)⟩

end Namex

end Xv6.Paths
