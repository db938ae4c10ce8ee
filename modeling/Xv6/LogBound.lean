import Xv6.LogBlocks
import Xv6.SharedFile

/-!
How many blocks an operation logs. Between `begin_op` and `end_op` a system call passes to
`log_write` the one block of the bitmap, the blocks of the inodes that it works on, and a few blocks
of the files and directories that it writes to: never more than `begin_op` has reserved.
-/

namespace Xv6.LogBound

open Xv6.Fs Xv6.FileData Xv6.Dirents Xv6.Paths Xv6.LogBlocks Xv6.Lib.Wp
open Xv6.LogGroup (MAXOPBLOCKS)
open Xv6.SharedFile (maxWrite)

/-- A disk that can be read, after the bitmap, the blocks of the inodes `I` and `n` other blocks
have been logged. -/
structure Fine (sb : Super) (I : Finset ℕ) (n : ℕ) (d : Blk) : Prop where
  super : d.sb = sb
  readable : Readable d
  range : ∀ i, (d.dinode i).type ≠ .free → i < d.sb.ninodes
  logged : ∃ X : Finset ℕ, X.card ≤ n ∧
    ∀ b ∈ d.logged, b = sb.bmapstart ∨ b ∈ I.image (IBLOCK · sb) ∨ b ∈ X

/-- Inodes in use stay in use. -/
def Alive (d d' : Blk) : Prop := ∀ i, (d.dinode i).type ≠ .free → (d'.dinode i).type ≠ .free

/-! ### Functions on the disk -/

section Disk

variable {sb : Super} {I J : Finset ℕ} {n m i dp k : ℕ} {d d' : Blk}

lemma Fine.card (h : Fine sb I n d) : d.logged.toFinset.card ≤ 1 + I.card + n := by
  obtain ⟨X, hX, hl⟩ := h.logged
  have hsub : d.logged.toFinset ⊆ {sb.bmapstart} ∪ I.image (IBLOCK · sb) ∪ X := by
    intro b hb
    simpa [or_assoc] using hl b (List.mem_toFinset.mp hb)
  calc d.logged.toFinset.card ≤ ({sb.bmapstart} ∪ I.image (IBLOCK · sb) ∪ X).card :=
        Finset.card_le_card hsub
    _ ≤ ({sb.bmapstart} ∪ I.image (IBLOCK · sb)).card + X.card := Finset.card_union_le _ _
    _ ≤ 1 + (I.image (IBLOCK · sb)).card + X.card := by
        gcongr
        exact Finset.card_union_le _ _
    _ ≤ 1 + I.card + n := by
        exact Nat.add_le_add (Nat.add_le_add_left Finset.card_image_le 1) hX

lemma Fine.mono (h : Fine sb I n d) (hIJ : I ⊆ J) (hnm : n ≤ m) : Fine sb J m d := by
  obtain ⟨X, hX, hl⟩ := h.logged
  refine ⟨h.super, h.readable, h.range, X, hX.trans hnm, fun b hb => ?_⟩
  exact (hl b hb).imp_right (.imp_left (@Finset.image_subset_image _ _ _ _ _ _ hIJ b))

lemma Fine.allocated (h : Fine sb I n d) (hi : (d.dinode i).type ≠ .free) : d.Allocated i :=
  ⟨h.range i hi, hi⟩

lemma Fine.size (h : Fine sb I n d) (hmap : sb.size ≤ BPB) : d.sb.size ≤ BPB := h.super ▸ hmap

/-- A function that logs the bitmap, the block of an inode and some others. -/
lemma Fine.step (h : Fine sb I n d) (hsb : d'.sb = d.sb) (hr : Readable d')
    (hrange : ∀ i, (d'.dinode i).type ≠ .free → i < d'.sb.ninodes) {X : Finset ℕ}
    (hX : X.card ≤ m) (hl : Logs ({d.sb.bmapstart, IBLOCK i d.sb} ∪ X) d d') :
    Fine sb (insert i I) (n + m) d' := by
  obtain ⟨Y, hY, hd⟩ := h.logged
  refine ⟨hsb.trans h.super, hr, hrange, Y ∪ X, (Finset.card_union_le Y X).trans (by omega), ?_⟩
  intro b hb
  rw [h.super] at hl
  rcases hl b hb with hb | ((rfl | rfl) | hb)
  · rcases hd b hb with hb | hb | hb
    · exact .inl hb
    · exact .inr (.inl (Finset.image_subset_image (Finset.subset_insert i I) hb))
    · exact .inr (.inr (Finset.mem_union_left X hb))
  · exact .inl rfl
  · exact .inr (.inl (Finset.mem_image_of_mem _ (Finset.mem_insert_self i I)))
  · exact .inr (.inr (Finset.mem_union_right Y hb))

/-- Fields of an inode are changed. -/
def setInfo (d : Blk) (i : ℕ) (f : Info → Info) : Blk :=
  d.setDinode i ((d.dinode i).setInfo (f (d.dinode i).info))

variable {f : Info → Info}

lemma setInfo_type (hf : ∀ x, (f x).type = x.type) (d : Blk) (i j : ℕ) :
    ((setInfo d i f).dinode j).type = (d.dinode j).type ∧
      ((setInfo d i f).dinode j).size = (d.dinode j).size := by
  by_cases hj : j = i
  · subst hj
    rw [setInfo, dinode_setDinode_self]
    exact ⟨hf _, rfl⟩
  · rw [setInfo, dinode_setDinode_other hj]
    exact ⟨rfl, rfl⟩

lemma sound_setInfo (hf : ∀ x, (f x).type = x.type) (h : Sound d) (i : ℕ) :
    Sound (setInfo d i f) := by
  have hn : (setInfo d i f).named = d.named := named_setDinode (hf _) rfl
  refine ⟨?_, fun j hj bn hbn => ?_⟩
  · unfold Blk.Booked
    rw [hn]
    exact h.booked
  · rw [hn]
    rw [(setInfo_type hf d i j).2] at hbn
    refine h.mapped j ?_ bn hbn
    unfold Blk.Allocated at hj ⊢
    rwa [(setInfo_type hf d i j).1] at hj

lemma fine_iupdate (h : Fine sb I n d) (hf : ∀ x, (f x).type = x.type) :
    wp (Files.iupdate i f : DiskM Blk Unit) (fun _ d' => Fine sb (insert i I) n d' ∧
      Alive d d' ∧ d'.dinode = (setInfo d i f).dinode) Any d := by
  refine wp_bind (wp_modify (wp_iupdate trivial ?_))
  have htype := setInfo_type hf d i
  have hr : Readable ((setInfo d i f).log (IBLOCK i d.sb)) := by
    refine ⟨(sound_setInfo hf h.readable.sound i).log _, h.readable.held, fun j hj => ?_⟩
    have hj : ((setInfo d i f).dinode j).type = .dir := hj
    rw [(htype j).1] at hj
    obtain ⟨hlt, hmod⟩ := h.readable.dirs j hj
    exact ⟨hlt, (congrArg (· % DIRENT) (htype j).2).trans hmod⟩
  refine ⟨h.step (X := ∅) (m := 0) rfl hr (fun j hj => ?_) le_rfl ?_, fun j hj => ?_, rfl⟩
  · exact h.range j (by rwa [← (htype j).1])
  · exact Logs.log (.of_eq rfl) (.inl (.inr rfl))
  · change ((setInfo d i f).dinode j).type ≠ .free
    rwa [(htype j).1]

variable {off : ℕ} {src : List UInt8}

/-- A file is written to. -/
lemma readable_written (h : Readable d) (hs : Sound d') (hheld : d'.held = [])
    (hw : Written d dp off src d')
    (hsize : (d.dinode dp).type = .dir → (d'.dinode dp).size % DIRENT = 0) : Readable d' := by
  refine ⟨hs, hheld, fun j hj => ?_⟩
  by_cases hjd : j = dp
  · subst hjd
    obtain ⟨addrs, hself⟩ := hw.self
    have hdir : (d.dinode j).type = .dir := by rwa [hself] at hj
    rw [hw.sb]
    exact ⟨(h.dirs j hdir).1, hsize hdir⟩
  · obtain ⟨addrs, hd⟩ := hw.inode j hjd
    rw [hw.sb, hd]
    rw [hd] at hj
    exact h.dirs j hj

lemma type_of_written (hw : Written d dp off src d') (j : ℕ) :
    (d'.dinode j).type = (d.dinode j).type := by
  by_cases hjd : j = dp
  · subst hjd
    obtain ⟨addrs, hself⟩ := hw.self
    rw [hself]
  · obtain ⟨addrs, hd⟩ := hw.inode j hjd
    rw [hd]

lemma touched_entry (k : ℕ) : touched (k * DIRENT) DIRENT = 1 := by
  unfold touched
  rw [if_neg (by decide)]
  simp only [show DIRENT = 16 from rfl, show BSIZE = 512 from rfl]
  omega

/-- An entry is written. -/
lemma fine_writeEnt (hmap : sb.size ≤ BPB) (h : Fine sb I n d) (hdir : (d.dinode dp).type = .dir)
    {bytes : List UInt8} (hlen : bytes.length = DIRENT) (hk : IsSlot d dp k) :
    wp (writeEnt dp k bytes) (fun r d' => r = true → Fine sb (insert dp I) (n + 2) d' ∧
      Alive d d') Any d := by
  have hD := h.readable.dir hdir
  have hlogs : wp (writeEnt dp k bytes) (fun _ d' => ∃ X : Finset ℕ, X.card ≤ 2 ∧
      Logs ({d.sb.bmapstart, IBLOCK dp d.sb} ∪ X) d d') Any d := by
    refine wp_bind (wp_mono (writei_logs bytes hD.sound hD.allocated (h.size hmap)) ?_ fun _ => id)
    rintro r d' ⟨X, hX, hl⟩
    rw [hlen, touched_entry] at hX
    exact wp_pure ⟨X, hX, hl⟩
  refine wp_mono (wp_and (writeEnt_spec hD hlen hk) hlogs) ?_ fun _ _ => trivial
  rintro r d' ⟨hput, X, hX, hl⟩ hr
  obtain ⟨hw, hD', -, hsize⟩ := hput hr
  have htype := type_of_written hw
  refine ⟨h.step hw.sb (readable_written h.readable hD'.sound hD'.held hw fun _ => ?_)
    (fun j hj => ?_) hX hl, fun j hj => by rwa [htype]⟩
  · exact hsize.trans (h.readable.dirs dp hdir).2
  · rw [hw.sb]
    exact h.range j (by rwa [← htype])

lemma fine_enter (hmap : sb.size ≤ BPB) (h : Fine sb I n d) (hdir : (d.dinode dp).type = .dir)
    (e : Dirent) :
    wp (Files.enter dp e : DiskM Blk Bool)
      (fun r d' => r = true → Fine sb (insert dp I) (n + 2) d' ∧ Alive d d') Any d := by
  have hD := h.readable.dir hdir
  have hmod := (h.readable.dirs dp hdir).2
  refine wp_bind (wp_get (wp_bind ?_))
  refine wp_of_ok (slotFrom_run hD.sound hD.held hD.allocated hmod) ?_
  exact fine_writeEnt hmap h hdir (length_encode e) (isSlot_freeSlot hmod)

/-- An inode is freed. -/
lemma fine_itrunc (hmap : sb.size ≤ BPB) (h : Fine sb I n d) (hi : (d.dinode i).type ≠ .free) :
    wp (Files.itrunc i : DiskM Blk Unit) (fun _ d' => Fine sb (insert i I) n d' ∧
      ∀ j, j ≠ i → (d'.dinode j).type = (d.dinode j).type) Any d := by
  have hal := h.allocated hi
  have hspec := wp_and (wp_and (ifree_spec h.readable.sound hal)
    (ifree_logs h.readable.sound hal (h.size hmap))) (holding_ifree d h.readable.held)
  refine wp_mono hspec ?_ fun _ _ => trivial
  rintro _ d' ⟨⟨hs, hg⟩, hheld⟩
  have hj {j : ℕ} {t : InodeType} (ht : (d'.dinode j).type = t) (hne : t ≠ .free) :
      d'.dinode j = d.dinode j := by
    refine hg.other j fun e => hne ?_
    rw [← ht, e, hg.type]
  refine ⟨h.step (X := ∅) (m := 0) hg.sb ⟨hs, hheld, fun j hdir => ?_⟩ (fun j hfree => ?_) le_rfl
    ?_, fun j hji => by rw [hg.other j hji]⟩
  · have he := hj hdir nofun
    rw [hg.sb, he]
    rw [he] at hdir
    exact h.readable.dirs j hdir
  · have he := hj rfl hfree
    rw [hg.sb]
    rw [he] at hfree
    exact h.range j hfree
  · simpa using hg.logs

/-- An inode is allocated. -/
lemma fine_ialloc (h : Fine sb I n d) {type : InodeType} (htype : type ≠ .free) :
    wp (Files.ialloc type : DiskM Blk ℕ)
      (fun i d' => Fine sb (insert i I) n d' ∧ Alive d d') Any d := by
  have hlogs : wp (Files.ialloc type : DiskM Blk ℕ) (fun i d' =>
      i ∈ (List.range d.sb.ninodes).drop 1 ∧ (d.dinode i).type = .free ∧
        d' = (d.setDinode i (.new type)).log (IBLOCK i d.sb)) Any d :=
    wp_bind (wp_get (iallocFrom_logs type _))
  have hspec := wp_and (ialloc_spec type h.readable.sound) hlogs
  refine wp_mono hspec ?_ fun _ _ => trivial
  rintro i d' ⟨hs, hmem, hfree, rfl⟩
  have hlt : i < d.sb.ninodes := List.mem_range.mp (List.mem_of_mem_drop hmem)
  have hself : (d.setDinode i (.new type)).dinode i = .new type := dinode_setDinode_self
  have hother {j : ℕ} (hj : j ≠ i) : (d.setDinode i (.new type)).dinode j = d.dinode j :=
    dinode_setDinode_other hj
  refine ⟨h.step (X := ∅) (m := 0) rfl ⟨hs, h.readable.held, fun j hdir => ?_⟩ (fun j hj => ?_)
    le_rfl ?_, fun j hj => ?_⟩
  · change ((d.setDinode i (.new type)).dinode j).type = .dir at hdir
    change j < d.sb.ninodes ∧ ((d.setDinode i (.new type)).dinode j).size % DIRENT = 0
    by_cases hji : j = i
    · rw [hji, hself]
      exact ⟨hlt, rfl⟩
    · rw [hother hji] at hdir ⊢
      exact h.readable.dirs j hdir
  · change ((d.setDinode i (.new type)).dinode j).type ≠ .free at hj
    by_cases hji : j = i
    · rw [hji]
      exact hlt
    · rw [hother hji] at hj
      exact h.range j hj
  · exact Logs.log (.of_eq rfl) (.inl (.inr rfl))
  · change ((d.setDinode i (.new type)).dinode j).type ≠ .free
    by_cases hji : j = i
    · rw [hji, hself]
      exact htype
    · rwa [hother hji]

/-- Reading leaves the disk as it is. -/
lemma fine_readi (h : Fine sb I n d) (hi : (d.dinode i).type ≠ .free) (off len : ℕ) :
    wp (Files.readi i off len : DiskM Blk Unit) (fun _ d' => d' = d) Any d := by
  refine wp_bind (wp_mono (h.readable.sound.readi off len (h.allocated hi) h.readable.held) ?_
    fun _ => False.elim)
  rintro r d' ⟨-, rfl⟩
  exact wp_pure rfl

lemma fine_readEnt (h : Fine sb I n d) (hi : (d.dinode dp).type ≠ .free) (k : ℕ) (p : Panic) :
    wp (readEnt dp k p) (fun _ d' => d' = d) Any d := by
  refine wp_bind (wp_mono (h.readable.sound.readi (k * DIRENT) DIRENT (h.allocated hi)
    h.readable.held) ?_ fun _ => False.elim)
  rintro r d' ⟨-, rfl⟩
  cases r with
  | none => exact wp_throw trivial
  | some bytes => exact wp_ite (fun _ => wp_pure rfl) fun _ => wp_throw trivial

lemma fine_isdirempty (h : Fine sb I n d) (hi : (d.dinode dp).type ≠ .free) :
    wp (Files.isdirempty dp : DiskM Blk Bool) (fun _ d' => d' = d) Any d := by
  refine wp_bind (wp_get ?_)
  generalize (slots (d.dinode dp)).drop 2 = ks
  induction ks with
  | nil => exact wp_pure rfl
  | cons k ks ih =>
    unfold emptyFrom
    refine wp_bind (wp_mono (fine_readEnt h hi k _) ?_ fun _ => id)
    rintro e d' rfl
    exact wp_ite (fun _ => wp_pure rfl) fun _ => ih

end Disk

/-! ### Inodes -/

/-- The cache during a call, with the references `xs` and the locks `L` of the call. -/
def Held (d : Blk) (base : ℕ → ℕ) (xs : Multiset ℕ) (L : Finset ℕ) (c : Cache) : Prop :=
  ∃ R, Busy (view d) base (fun _ => False) xs L R c

section Inodes

variable {P : Type} {sb : Super} {I : Finset ℕ} {n i dp : ℕ} {d d' : Blk} {base : ℕ → ℕ}
  {xs : Multiset ℕ} {L : Finset ℕ} {c : Cache} {pr : Procs P} {Q : Unit → St P Blk → Prop}

lemma Held.congr (h : Held d base xs L c) (ha : Alive d d') : Held d' base xs L c := by
  obtain ⟨R, hb⟩ := h
  exact ⟨R, hb.congr ha⟩

/-- A reference of a process is used by the call. -/
lemma Held.take (h : Held d base xs L c) (hi : 0 < base i) :
    Held d (Function.update base i (base i - 1)) (i ::ₘ xs) L c := by
  obtain ⟨R, hb⟩ := h
  refine ⟨_, fun j => ?_, hb.locked, hb.lockedRef, hb.lockedValid, fun _ _ hk => hk.elim,
    hb.validLive, rfl⟩
  have hj := hb.ref j
  by_cases hji : j = i
  · subst hji
    rw [Function.update_self, Multiset.count_cons_self]
    omega
  · rwa [Function.update_of_ne hji, Multiset.count_cons_of_ne hji]

/-- An inode that is new in the cache has not been read. -/
lemma held_iget (h : Held d base xs L c)
    (hQ : ∀ c', Held d base (i ::ₘ xs) L c' → (c'.valid i = true → 0 < base i ∨ i ∈ xs) →
      Q () ⟨d, pr, c'⟩) : wp (iget i) Q Any ⟨d, pr, c⟩ := by
  obtain ⟨R, hb⟩ := h
  unfold iget
  refine wp_bind (wp_get (wp_ite (fun _ => wp_throw trivial) fun h0 =>
    wp_setCache (hQ _ ⟨R, ?_⟩ ?_)))
  · refine hb.hold fun hr => ?_
    change ¬ (c.ref i = 0 ∧ c.room = 0) at h0
    omega
  · unfold Cache.hold
    split_ifs with hr
    · exact fun _ => hb.held hr
    · intro hv
      simp [Cache.setRef, Cache.setValid] at hv

lemma held_ilock (hf : Fine sb I n d) (h : Held d base xs L c) (href : 0 < base i ∨ i ∈ xs)
    (hQ : i ∉ L → (d.dinode i).type ≠ .free → ∀ c', Held d base xs (insert i L) c' →
      Q () ⟨d, pr, c'⟩) : wp (ilock i) Q Any ⟨d, pr, c⟩ := by
  obtain ⟨R, hb⟩ := h
  exact reads_blk.wp_ilock hf.readable hb href (fun _ => trivial) (fun _ => trivial)
    fun hL hty c' hb' => hQ hL hty c' ⟨R, hb'.weaken fun _ => Or.inl⟩

lemma held_iunlock (h : Held d base xs L c) (hi : i ∈ L)
    (hQ : ∀ c', Held d base xs (L.erase i) c' → Q () ⟨d, pr, c'⟩) :
    wp (iunlock i) Q Any ⟨d, pr, c⟩ := by
  obtain ⟨R, hb⟩ := h
  exact wp_iunlock hb hi fun c' _ hb' => hQ c' ⟨R, hb'⟩

/-- `iput` may free the inode. -/
lemma held_iput (hmap : sb.size ≤ BPB) (hf : Fine sb I n d) (h : Held d base (i ::ₘ xs) L c)
    (hQ : ∀ d' c', Fine sb (insert i I) n d' → Held d' base xs L c' → Q () ⟨d', pr, c'⟩) :
    wp (iput i) Q Any ⟨d, pr, c⟩ := by
  obtain ⟨R, hb⟩ := h
  refine reads_blk.wp_iput hb (fun _ => trivial) (fun _ hv _ _ _ => ?_)
    fun _ _ c' hb' => hQ d c' (hf.mono (Finset.subset_insert i I) le_rfl) ⟨R, hb'⟩
  have href := hb.ref i
  rw [Multiset.count_cons_self] at href
  have hty := hb.validLive i (by omega) hv
  refine wp_mono (fine_itrunc hmap hf hty) ?_ fun _ => id
  rintro _ d' ⟨hf', hother⟩ c' hb'
  refine hQ d' c' hf' ⟨R, hb'.congr fun j hj => ?_⟩
  by_cases hji : j = i
  · subst hji
    simp [Disk.free, Disk.set] at hj
  · change (d'.dinode j).type ≠ .free
    have hj : ((view d).inode j).type ≠ .free := by simpa [Disk.free, Disk.set, hji] using hj
    rw [hother j hji]
    exact hj

lemma held_iunlockput (hmap : sb.size ≤ BPB) (hf : Fine sb I n d)
    (h : Held d base (i ::ₘ xs) L c) (hi : i ∈ L)
    (hQ : ∀ d' c', Fine sb (insert i I) n d' → Held d' base xs (L.erase i) c' →
      Q () ⟨d', pr, c'⟩) : wp (iunlockput i) Q Any ⟨d, pr, c⟩ :=
  wp_bind (held_iunlock h hi fun _ h' => held_iput hmap hf h' hQ)

/-- A function on the disk. -/
lemma held_onDisk {α : Type} {x : DiskM Blk α} {Q : α → St P Blk → Prop} {R : α → Blk → Prop}
    (h : Held d base xs L c) (hx : wp x (fun a d' => R a d' ∧ Alive d d') Any d)
    (hQ : ∀ a d', R a d' → Held d' base xs L c → Q a ⟨d', pr, c⟩) :
    wp (onDisk x) Q Any ⟨d, pr, c⟩ :=
  wp_onDisk (wp_mono hx (fun a d' hd => hQ a d' hd.1 (h.congr hd.2)) fun _ => id)

lemma held_addLink {k : ℤ} (hf : Fine sb I n d) (h : Held d base xs L c)
    (hQ : ∀ d', Fine sb (insert i I) n d' → d'.dinode = (setInfo d i (Info.link · k)).dinode →
      Held d' base xs L c → Q () ⟨d', pr, c⟩) : wp (addLink i k) Q Any ⟨d, pr, c⟩ := by
  refine wp_onDisk (wp_mono (fine_iupdate hf fun _ => rfl) ?_ fun _ => id)
  rintro _ d' ⟨hf', ha, hd⟩
  exact hQ d' hf' hd (h.congr ha)

variable {name : Name}

lemma held_dirlookup {Q : Option (ℕ × ℕ) → St P Blk → Prop} (hf : Fine sb I n d)
    (h : Held d base xs L c) (hnone : (d.dinode dp).type = .dir → Q none ⟨d, pr, c⟩)
    (hsome : (d.dinode dp).type = .dir → ∀ i k, k < (d.dinode dp).size / DIRENT → ∀ c',
      Held d base (i ::ₘ xs) L c' → (c'.valid i = true → 0 < base i ∨ i ∈ xs) →
      Q (some (i, k)) ⟨d, pr, c'⟩) :
    wp (dirlookup dp name) Q Any ⟨d, pr, c⟩ := by
  unfold dirlookup
  refine wp_bind (wp_inode (wp_ite (fun _ => wp_throw trivial) fun hdir => ?_))
  have hdir : (d.dinode dp).type = .dir := not_not.mp hdir
  refine wp_bind (wp_onDisk (wp_of_ok (reads_blk.search d dp name hf.readable hdir) ?_))
  rcases hfind : find name ((view d).inode dp).ents with _ | ⟨i, k⟩
  · exact wp_pure (hnone hdir)
  · refine wp_bind (held_iget h fun c' h' hv => wp_pure (hsome hdir i k ?_ c' h' hv))
    obtain ⟨e, he, -⟩ := find_some hfind
    have hlt := (List.getElem?_eq_some_iff.mp he).1
    rwa [show ((view d).inode dp).ents = ents d dp from rfl, length_ents] at hlt

lemma held_dirlink {inum : ℕ} {Q : ℤ → St P Blk → Prop} (hmap : sb.size ≤ BPB) (hf : Fine sb I n d)
    (h : Held d base xs L c)
    (hQ : ∀ r d' c', Fine sb (insert dp I) (n + 2) d' → Held d' base xs L c' → Q r ⟨d', pr, c'⟩) :
    wp (dirlink dp name inum) Q Any ⟨d, pr, c⟩ := by
  unfold dirlink
  refine wp_bind (held_dirlookup hf h (fun hdir => ?_) fun _ i k _ c' h' hv => ?_)
  · refine wp_bind (wp_onDisk (wp_mono (fine_enter hmap hf hdir _) (fun r d' hr => ?_) fun _ => id))
    refine wp_ite (fun hok => wp_pure ?_) fun _ => wp_throw trivial
    obtain ⟨hf', ha⟩ := hr hok
    exact hQ 0 d' c hf' (h.congr ha)
  · -- the reference that `dirlookup` has taken is not the last one
    obtain ⟨R, hb⟩ := h'
    refine wp_bind (reads_blk.wp_iput hb (fun _ => trivial) (fun _ hval hb0 hx _ => ?_)
      fun _ _ c2 hb2 => wp_pure (hQ (-1) d c2 ?_ ⟨R, hb2⟩))
    · rcases hv hval with hpos | hmem
      · omega
      · exact absurd hmem hx
    · exact hf.mono (Finset.subset_insert dp I) (Nat.le_add_right n 2)

/-- An inode without links is held by somebody. -/
def Orphans (d : Blk) (base : ℕ → ℕ) (xs : Multiset ℕ) : Prop :=
  ∀ j, (d.dinode j).type ≠ .free → (d.dinode j).nlink = 0 → 0 < base j ∨ j ∈ xs

variable {me : P} {path : List UInt8}

/-- Looking up a path logs nothing. -/
lemma held_namei {Q : Option ℕ → St P Blk → Prop} (hf : Fine sb I n d) (h : Held d base xs ∅ c)
    (hcwd : 0 < base (pr.cwd me)) (ho : Orphans d base xs) (hnone : ∀ c', Q none ⟨d, pr, c'⟩)
    (hsome : ∀ j c', Held d base (j ::ₘ xs) ∅ c' → Q (some j) ⟨d, pr, c'⟩) :
    wp (namei me path) Q Any ⟨d, pr, c⟩ := by
  obtain ⟨R, hb⟩ := h
  exact reads_blk.wp_namei hf.readable rfl hb hcwd ho (fun _ => trivial) (fun _ => trivial)
    (fun _ _ _ c' _ => hnone c') fun j _ _ c' hb' => hsome j c' ⟨R, hb'⟩

lemma held_nameiparent {Q : Option (ℕ × Name) → St P Blk → Prop} (hf : Fine sb I n d)
    (h : Held d base xs ∅ c) (hcwd : 0 < base (pr.cwd me)) (ho : Orphans d base xs)
    (hnone : ∀ c', Held d base xs ∅ c' → Q none ⟨d, pr, c'⟩)
    (hsome : ∀ j name c', Held d base (j ::ₘ xs) ∅ c' → Q (some (j, name)) ⟨d, pr, c'⟩) :
    wp (nameiparent me path) Q Any ⟨d, pr, c⟩ := by
  obtain ⟨R, hb⟩ := h
  exact reads_blk.wp_namex hf.readable rfl hb hcwd ho (fun _ => trivial) (fun _ => trivial)
    (fun _ _ _ c' hb' => hnone c' ⟨R, hb'⟩) fun j name _ _ c' hb' => hsome j name c' ⟨R, hb'⟩

end Inodes

/-! ### Operations -/

/-- Not more blocks have been logged than an operation may log. -/
def Bounded (d : Blk) : Prop := d.logged.toFinset.card ≤ MAXOPBLOCKS

section Operations

variable {P : Type} {sb : Super} {I : Finset ℕ} {n ip dp : ℕ} {d : Blk} {base : ℕ → ℕ}
  {xs : Multiset ℕ} {c : Cache} {pr : Procs P} {me : P} {path : List UInt8}

lemma Fine.bounded (h : Fine sb I n d) (hle : 1 + I.card + n ≤ MAXOPBLOCKS) : Bounded d :=
  h.card.trans hle

variable {r major minor : ℤ} {Q : Unit → St P Blk → Prop} {type : InodeType}

/-- After `end_op`. -/
lemma bounded_endOp (h : Bounded d) :
    wp (do endOp; pure r : FsM P Blk ℤ) (fun _ s' => Bounded s'.disk) Any ⟨d, pr, c⟩ :=
  wp_bind (wp_setProcs (wp_pure h))

lemma card_insert_le {J : Finset ℕ} {i m : ℕ} (h : J.card ≤ m) : (insert i J).card ≤ m + 1 :=
  (Finset.card_insert_le i J).trans (Nat.add_le_add_right h 1)

/-- The last thing an operation does with an inode that it has locked. -/
lemma bounded_close (hmap : sb.size ≤ BPB) (hf : Fine sb I n d) (h : Held d base (ip ::ₘ 0) {ip} c)
    (hle : 1 + (insert ip I).card + n ≤ MAXOPBLOCKS) :
    wp (do iunlockput ip; endOp; pure r : FsM P Blk ℤ) (fun _ s' => Bounded s'.disk) Any
      ⟨d, pr, c⟩ :=
  wp_bind (held_iunlockput hmap hf h (Finset.mem_singleton_self ip) fun _ _ hf' _ =>
    bounded_endOp (hf'.bounded hle))

lemma bounded_linkBad (hmap : sb.size ≤ BPB) (hf : Fine sb I n d)
    (h : Held d base (ip ::ₘ 0) ∅ c) (hle : 1 + (insert ip I).card + n ≤ MAXOPBLOCKS) :
    wp (linkBad ip : FsM P Blk ℤ) (fun _ s' => Bounded s'.disk) Any ⟨d, pr, c⟩ := by
  refine wp_bind (held_ilock hf h (.inr (Multiset.mem_cons_self ip 0)) fun _ _ c' h' => ?_)
  refine wp_bind (held_addLink hf h' fun d' hf' _ h'' => ?_)
  exact bounded_close hmap hf' h'' (by rwa [Finset.insert_idem])

/-- Where an operation starts. -/
structure Begin (sb : Super) (base : ℕ → ℕ) (d : Blk) (pr : Procs P) (me : P) (c : Cache) :
    Prop where
  map : sb.size ≤ BPB
  fine : Fine sb ∅ 0 d
  held : Held d base 0 ∅ c
  cwd : 0 < base (pr.cwd me)
  orphans : Orphans d base 0

lemma bounded_linkOp {old new : List UInt8} (h : Begin sb base d pr me c) :
    wp (linkOp me old new : FsM P Blk ℤ) (fun _ s' => Bounded s'.disk) Any ⟨d, pr, c⟩ := by
  have hmap := h.map
  refine wp_bind (held_namei h.fine h.held h.cwd h.orphans (fun c' => ?_) fun ip c1 h1 => ?_)
  · exact bounded_endOp (h.fine.bounded (by decide))
  refine wp_bind (held_ilock h.fine h1 (.inr (Multiset.mem_cons_self ip 0)) fun _ _ c2 h2 => ?_)
  refine wp_bind (wp_inode (wp_ite (fun _ => ?_) fun _ => ?_))
  · exact bounded_close hmap h.fine h2 (by simp [MAXOPBLOCKS])
  refine wp_bind (held_addLink h.fine h2 fun d3 hf3 hd3 h3 => ?_)
  refine wp_bind (held_iunlock h3 (Finset.mem_insert_self ip ∅) fun c4 h4 => ?_)
  have ho : Orphans d3 base {ip} := by
    intro j hj h0
    by_cases hji : j = ip
    · exact .inr (Multiset.mem_singleton.mpr hji)
    · have hdj : d3.dinode j = d.dinode j := by rw [hd3, setInfo, dinode_setDinode_other hji]
      rw [hdj] at hj h0
      exact (h.orphans j hj h0).imp_right fun hm => absurd hm (Multiset.notMem_zero j)
  have h4 : Held d3 base {ip} ∅ c4 := by simpa using h4
  refine wp_bind (held_nameiparent hf3 h4 h.cwd ho (fun c5 h5 => ?_) fun dp name c5 h5 => ?_)
  · exact bounded_linkBad hmap hf3 h5 (by simp [MAXOPBLOCKS])
  refine wp_bind (held_ilock hf3 h5 (.inr (Multiset.mem_cons_self dp _)) fun _ _ c6 h6 => ?_)
  refine wp_bind (held_dirlink hmap hf3 h6 fun r d7 c7 hf7 h7 => ?_)
  have hcard : (insert dp (insert ip (∅ : Finset ℕ))).card ≤ 2 := card_insert_le le_rfl
  refine wp_ite (fun _ => ?_) fun _ => ?_ <;>
    refine wp_bind (held_iunlockput hmap hf7 h7 (Finset.mem_insert_self dp ∅)
      fun d8 c8 hf8 h8 => ?_) <;>
    rw [Finset.insert_idem] at hf8
  · have h8 : Held d8 base (ip ::ₘ 0) ∅ c8 := by simpa using h8
    refine bounded_linkBad hmap hf8 h8 ?_
    rw [Finset.insert_eq_of_mem (by simp)]
    simp only [MAXOPBLOCKS]
    omega
  · have h8 : Held d8 base (ip ::ₘ 0) ∅ c8 := by simpa using h8
    refine wp_bind (held_iput hmap hf8 h8 fun d9 c9 hf9 _ => bounded_endOp (hf9.bounded ?_))
    rw [Finset.insert_eq_of_mem (by simp)]
    simp only [MAXOPBLOCKS]
    omega

/-- `unlink` gives up the directory. -/
lemma bounded_unlinkBad (hmap : sb.size ≤ BPB) (hf : Fine sb I n d)
    (h : Held d base (dp ::ₘ 0) {dp} c) (hle : 1 + (insert dp I).card + n ≤ MAXOPBLOCKS) :
    wp (unlinkBad dp : FsM P Blk ℤ) (fun _ s' => Bounded s'.disk) Any ⟨d, pr, c⟩ :=
  bounded_close hmap hf h hle

variable {x : Info} {reads : List (ℕ × ℕ)}

lemma held_hasEntries {Q : Bool → St P Blk → Prop} (hf : Fine sb I n d)
    (hi : (d.dinode ip).type ≠ .free) (hQ : ∀ r, Q r ⟨d, pr, c⟩) :
    wp (hasEntries ip x) Q Any ⟨d, pr, c⟩ := by
  refine wp_ite (fun _ => wp_bind (wp_onDisk (wp_mono (fine_isdirempty hf hi) ?_ fun _ => id)))
    fun _ => wp_pure (hQ false)
  rintro r _ rfl
  exact wp_pure (hQ !r)

/-- Two inodes and as many as seven blocks. -/
lemma card_two (i j : ℕ) (hn : n ≤ 7) : 1 + ({i, j} : Finset ℕ).card + n ≤ MAXOPBLOCKS := by
  have := Finset.card_le_two (a := i) (b := j)
  simp only [MAXOPBLOCKS]
  omega

/-- Of two inodes that are held and locked the second is given up. -/
lemma held_second (hmap : sb.size ≤ BPB) (hne : ip ≠ dp) (hf : Fine sb I n d)
    (h : Held d base {ip, dp} {ip, dp} c)
    (hQ : ∀ d' c', Fine sb (insert dp I) n d' → Held d' base {ip} {ip} c' → Q () ⟨d', pr, c'⟩) :
    wp (iunlockput dp) Q Any ⟨d, pr, c⟩ := by
  have hpair : ({ip, dp} : Multiset ℕ) = dp ::ₘ {ip} := Multiset.cons_swap ip dp 0
  have hL : ({ip, dp} : Finset ℕ).erase dp = {ip} := by
    rw [Finset.pair_comm, Finset.erase_insert (by simpa using hne.symm)]
  rw [hpair] at h
  refine held_iunlockput hmap hf h (by simp) fun d' c' hf' h' => hQ d' c' hf' ?_
  rwa [hL] at h'

/-- The rest of `unlink`, once the entry has been cleared. -/
lemma bounded_cleared (hmap : sb.size ≤ BPB) (hne : ip ≠ dp) (hf : Fine sb {dp} 2 d)
    (h : Held d base {ip, dp} {ip, dp} c) :
    wp (do
      if x.type = .dir then addLink dp (-1) else pure ()
      iunlockput dp
      addLink ip (-1)
      iunlockput ip
      endOp
      pure 0 : FsM P Blk ℤ) (fun _ s' => Bounded s'.disk) Any ⟨d, pr, c⟩ := by
  have hrest {d1 : Blk} (hf1 : Fine sb {dp} 2 d1) (h1 : Held d1 base {ip, dp} {ip, dp} c) :
      wp (do
        iunlockput dp
        addLink ip (-1)
        iunlockput ip
        endOp
        pure 0 : FsM P Blk ℤ) (fun _ s' => Bounded s'.disk) Any ⟨d1, pr, c⟩ := by
    refine wp_bind (held_second hmap hne hf1 h1 fun d2 c2 hf2 h2 => ?_)
    refine wp_bind (held_addLink hf2 h2 fun d3 hf3 _ h3 => ?_)
    refine bounded_close hmap hf3 h3 ?_
    simpa using card_two (n := 2) ip dp (by decide)
  refine wp_ite (fun _ => wp_bind ?_) fun _ => hrest hf h
  exact held_addLink hf h fun d1 hf1 _ h1 => hrest (by simpa using hf1) h1

lemma bounded_unlinkOp (h : Begin sb base d pr me c) :
    wp (unlinkOp me path : FsM P Blk ℤ) (fun _ s' => Bounded s'.disk) Any ⟨d, pr, c⟩ := by
  have hmap := h.map
  refine wp_bind (held_nameiparent h.fine h.held h.cwd h.orphans (fun c' _ => ?_)
    fun dp name c1 h1 => ?_)
  · exact bounded_endOp (h.fine.bounded (by decide))
  refine wp_bind (held_ilock h.fine h1 (.inr (Multiset.mem_cons_self dp 0)) fun _ _ c2 h2 => ?_)
  have hone : 1 + (insert dp (∅ : Finset ℕ)).card + 0 ≤ MAXOPBLOCKS := by simp [MAXOPBLOCKS]
  refine wp_ite (fun _ => bounded_unlinkBad hmap h.fine h2 hone) fun _ => ?_
  refine wp_bind (held_dirlookup h.fine h2 (fun _ => bounded_unlinkBad hmap h.fine h2 hone)
    fun hdir ip off hoff c3 h3 _ => ?_)
  refine wp_bind (held_ilock h.fine h3 (.inr (Multiset.mem_cons_self ip _)) fun hL hty c4 h4 => ?_)
  have hne : ip ≠ dp := by simpa using hL
  refine wp_bind (wp_inode (wp_ite (fun _ => wp_throw trivial) fun _ => ?_))
  refine wp_bind (held_hasEntries h.fine hty fun full => wp_ite (fun _ => ?_) fun _ => ?_)
  · refine wp_bind (held_iunlockput hmap h.fine h4 (Finset.mem_insert_self ip _)
      fun d5 c5 hf5 h5 => ?_)
    rw [Finset.erase_insert (by simpa using hne)] at h5
    exact bounded_unlinkBad hmap hf5 h5 (card_two dp ip (Nat.zero_le _))
  · have hclear : wp (Files.clear dp off : DiskM Blk Bool)
        (fun r d' => r = true → Fine sb {dp} 2 d' ∧ Alive d d') Any d := by
      have hlen : (List.replicate DIRENT (0 : UInt8)).length = DIRENT := List.length_replicate
      exact fine_writeEnt hmap h.fine hdir hlen (.inl hoff)
    refine wp_bind (wp_onDisk (wp_mono hclear (fun r d5 hr => ?_) fun _ => id))
    refine wp_ite (fun hok => ?_) fun _ => wp_throw trivial
    obtain ⟨hf5, ha⟩ := hr hok
    exact bounded_cleared hmap hne hf5 (h4.congr ha)

/-- What `create` has logged when it returns an inode, locked. -/
def Created (sb : Super) (base : ℕ → ℕ) (r : Option ℕ) (s : St P Blk) : Prop :=
  match r with
  | none => Bounded s.disk
  | some ip => ∃ dp, Fine sb {ip, dp} 6 s.disk ∧ Held s.disk base {ip} {ip} s.cache

lemma held_createDots (hmap : sb.size ≤ BPB) (hf : Fine sb I n d) {L : Finset ℕ}
    (h : Held d base xs L c)
    (hQ : ∀ d' c', Fine sb (insert ip (insert dp I)) (n + 4) d' → Held d' base xs L c' →
      Q () ⟨d', pr, c'⟩) :
    wp (createDots ip dp) Q Any ⟨d, pr, c⟩ := by
  refine wp_bind (held_addLink hf h fun d1 hf1 _ h1 => ?_)
  refine wp_bind (held_dirlink hmap hf1 h1 fun r d2 c2 hf2 h2 => ?_)
  refine wp_ite (fun _ => wp_throw trivial) fun _ => ?_
  refine wp_bind (held_dirlink hmap hf2 h2 fun r d3 c3 hf3 h3 => ?_)
  refine wp_ite (fun _ => wp_throw trivial) fun _ => wp_pure (hQ d3 c3 ?_ h3)
  rwa [Finset.insert_idem] at hf3

/-- The new inode has its fields set, and entries if it is a directory. -/
lemma created_new {name : Name} (hmap : sb.size ≤ BPB) (hf : Fine sb {ip} 0 d) (hne : ip ≠ dp)
    (h : Held d base {ip, dp} {ip, dp} c) :
    wp (do
      onDisk (Files.iupdate ip fun x => x.init major minor)
      if type = .dir then createDots ip dp else pure ()
      if (← dirlink dp name ip) < 0 then stop .createDirlink
      else
        iunlockput dp
        pure (some ip) : FsM P Blk (Option ℕ)) (Created sb base) Any ⟨d, pr, c⟩ := by
  have hlink {d1 : Blk} {c1 : Cache} (hf1 : Fine sb {ip, dp} 4 d1)
      (h1 : Held d1 base {ip, dp} {ip, dp} c1) :
      wp (do
        if (← dirlink dp name ip) < 0 then stop .createDirlink
        else
          iunlockput dp
          pure (some ip) : FsM P Blk (Option ℕ)) (Created sb base) Any ⟨d1, pr, c1⟩ := by
    refine wp_bind (held_dirlink hmap hf1 h1 fun r d2 c2 hf2 h2 => ?_)
    refine wp_ite (fun _ => wp_throw trivial) fun _ => ?_
    refine wp_bind (held_second hmap hne hf2 h2 fun d3 c3 hf3 h3 => wp_pure ⟨dp, ?_, h3⟩)
    exact hf3.mono (by simp) le_rfl
  have hinit : wp (Files.iupdate ip fun x => x.init major minor : DiskM Blk Unit)
      (fun _ d' => Fine sb {ip} 0 d' ∧ Alive d d') Any d := by
    refine wp_mono (fine_iupdate (i := ip) hf fun _ => rfl) (fun _ d' hd => ⟨?_, hd.2.1⟩)
      fun _ => id
    exact hd.1.mono (by simp) le_rfl
  refine wp_bind (held_onDisk h hinit fun _ d1 hf1 h1 => wp_ite (fun _ => wp_bind ?_) fun _ => ?_)
  · refine held_createDots hmap hf1 h1 fun d2 c2 hf2 h2 => hlink (hf2.mono ?_ le_rfl) h2
    simp [Finset.insert_subset_iff]
  · exact hlink (hf1.mono (by simp) (Nat.zero_le _)) h1

lemma created_create (htype : type ≠ .free) (h : Begin sb base d pr me c) :
    wp (create me path type major minor : FsM P Blk (Option ℕ)) (Created sb base) Any
      ⟨d, pr, c⟩ := by
  have hmap := h.map
  refine wp_bind (held_nameiparent h.fine h.held h.cwd h.orphans (fun c' _ => wp_pure ?_)
    fun dp name c1 h1 => ?_)
  · exact h.fine.bounded (by decide)
  refine wp_bind (held_ilock h.fine h1 (.inr (Multiset.mem_cons_self dp 0)) fun _ _ c2 h2 => ?_)
  refine wp_bind (held_dirlookup h.fine h2 (fun _ => ?_) fun _ ip off _ c3 h3 _ => ?_)
  · -- a new inode
    refine wp_bind (wp_bind (held_onDisk h2 (fine_ialloc h.fine htype) fun ip d3 hf3 h3 => ?_))
    refine wp_bind (held_iget h3 fun c4 h4 _ => wp_pure ?_)
    refine wp_bind (held_ilock hf3 h4 (.inr (Multiset.mem_cons_self ip _)) fun hL _ c5 h5 => ?_)
    exact created_new hmap hf3 (by simpa using hL) h5
  · -- the name is there
    have h3 : Held d base (dp ::ₘ {ip}) {dp} c3 := by
      rwa [Multiset.cons_swap] at h3
    refine wp_bind (held_iunlockput hmap h.fine h3 (Finset.mem_singleton_self dp)
      fun d4 c4 hf4 h4 => ?_)
    rw [Finset.erase_singleton] at h4
    refine wp_bind (held_ilock hf4 h4 (.inr (Multiset.mem_singleton_self ip)) fun _ _ c5 h5 => ?_)
    refine wp_bind (wp_inode (wp_ite (fun _ => wp_pure ⟨dp, ?_, h5⟩) fun _ => ?_))
    · exact hf4.mono (by simp) (Nat.zero_le _)
    · have h5 : Held d4 base (ip ::ₘ 0) (insert ip ∅) c5 := h5
      refine wp_bind (held_iunlockput hmap hf4 h5 (Finset.mem_insert_self ip ∅)
        fun d6 c6 hf6 _ => wp_pure (hf6.bounded ?_))
      exact card_two ip dp (Nat.zero_le _)

/-- An inode that `create` has returned is let go. -/
lemma created_close (hmap : sb.size ≤ BPB) (hf : Fine sb {ip, dp} 6 d)
    (h : Held d base {ip} {ip} c) :
    wp (do iunlockput ip; endOp; pure r : FsM P Blk ℤ) (fun _ s' => Bounded s'.disk) Any
      ⟨d, pr, c⟩ := by
  refine bounded_close hmap hf h ?_
  rw [Finset.insert_eq_of_mem (by simp)]
  exact card_two ip dp (by decide)

lemma bounded_makeOp (htype : type ≠ .free) (h : Begin sb base d pr me c) :
    wp (makeOp me path type major minor : FsM P Blk ℤ) (fun _ s' => Bounded s'.disk) Any
      ⟨d, pr, c⟩ := by
  refine wp_bind (wp_mono (created_create htype h) (fun r s' hr => ?_) fun _ => id)
  obtain ⟨d', pr', c'⟩ := s'
  cases r with
  | none =>
    exact bounded_endOp hr
  | some ip =>
    obtain ⟨dp, hf, h'⟩ := hr
    exact created_close h.map hf h'

/-- `exec` reads the file; the console makes it let go of the lock. -/
lemma held_execReads (hf : Fine sb I n d) (hi : (d.dinode ip).type ≠ .free)
    (h : Held d base {ip} {ip} c) (hQ : ∀ c', Held d base {ip} {ip} c' → Q () ⟨d, pr, c'⟩) :
    wp (execReads ip reads) Q Any ⟨d, pr, c⟩ := by
  induction reads generalizing c with
  | nil => exact wp_pure (hQ c h)
  | cons r reads ih =>
    obtain ⟨off, len⟩ := r
    refine wp_bind (wp_inode (wp_ite (fun _ => wp_ite (fun _ => ?_) fun _ => ih h) fun _ => ?_))
    · refine wp_bind (held_iunlock h (Finset.mem_singleton_self ip) fun c1 h1 => ?_)
      rw [Finset.erase_singleton] at h1
      refine wp_bind (held_ilock hf h1 (.inr (Multiset.mem_singleton_self ip)) fun _ _ c2 h2 => ?_)
      exact ih h2
    · refine wp_bind (wp_onDisk (wp_mono (fine_readi hf hi off len) ?_ fun _ => id))
      rintro _ _ rfl
      exact ih h

lemma bounded_execOp {loads : Bool} (h : Begin sb base d pr me c) :
    wp (execOp me path reads loads : FsM P Blk ℤ) (fun _ s' => Bounded s'.disk) Any ⟨d, pr, c⟩ := by
  refine wp_bind (held_namei h.fine h.held h.cwd h.orphans (fun c' => ?_) fun ip c1 h1 => ?_)
  · exact bounded_endOp (h.fine.bounded (by decide))
  refine wp_bind (held_ilock h.fine h1 (.inr (Multiset.mem_cons_self ip 0)) fun _ hty c2 h2 => ?_)
  refine wp_bind (held_execReads h.fine hty h2 fun c3 h3 => ?_)
  exact bounded_close h.map h.fine h3 (by simp [MAXOPBLOCKS])

/-- A reference of a process is given up. -/
lemma bounded_iput {α : Type} {m : FsM P Blk α} (hmap : sb.size ≤ BPB) (hf : Fine sb ∅ 0 d)
    {L : Finset ℕ} (h : Held d base xs L c) (hi : 0 < base ip)
    (hm : ∀ d' c', Fine sb {ip} 0 d' → wp m (fun _ s' => Bounded s'.disk) Any ⟨d', pr, c'⟩) :
    wp (do iput ip; m) (fun _ s' => Bounded s'.disk) Any ⟨d, pr, c⟩ :=
  wp_bind (held_iput hmap hf (h.take hi) fun d' c' hf' _ => hm d' c' hf')

variable [DecidableEq P]

lemma bounded_openInode (hmap : sb.size ≤ BPB) (hf : Fine sb {ip, dp} 6 d)
    (h : Held d base {ip} {ip} c) :
    wp (openInode me ip : FsM P Blk ℤ) (fun _ s' => Bounded s'.disk) Any ⟨d, pr, c⟩ := by
  refine wp_bind (wp_get ?_)
  dsimp only
  split
  · refine wp_ite (fun _ => created_close hmap hf h) fun _ => ?_
    refine wp_bind (held_iunlock h (Finset.mem_singleton_self ip) fun c' _ => ?_)
    refine wp_bind (wp_setProcs (wp_bind (wp_setProcs (wp_pure (hf.bounded ?_)))))
    exact card_two ip dp (by decide)
  · exact created_close hmap hf h

lemma bounded_openOp {omode : ℕ} (h : Begin sb base d pr me c) :
    wp (openOp me path omode : FsM P Blk ℤ) (fun _ s' => Bounded s'.disk) Any ⟨d, pr, c⟩ := by
  have hmap := h.map
  refine wp_ite (fun _ => ?_) fun _ => ?_
  · refine wp_bind (wp_mono (created_create (by simp) h) (fun r s' hr => ?_) fun _ => id)
    obtain ⟨d', pr', c'⟩ := s'
    cases r with
    | none =>
      exact bounded_endOp hr
    | some ip =>
      obtain ⟨dp, hf, h'⟩ := hr
      exact bounded_openInode hmap hf h'
  · refine wp_bind (held_namei h.fine h.held h.cwd h.orphans (fun c' => ?_) fun ip c1 h1 => ?_)
    · exact bounded_endOp (h.fine.bounded (by decide))
    refine wp_bind (held_ilock h.fine h1 (.inr (Multiset.mem_cons_self ip 0)) fun _ _ c2 h2 => ?_)
    have hf : Fine sb {ip, ip} 6 d := h.fine.mono (Finset.empty_subset _) (Nat.zero_le _)
    refine wp_bind (wp_inode (wp_ite (fun _ => ?_) fun _ => ?_))
    · exact created_close hmap hf h2
    · exact bounded_openInode hmap hf h2

lemma bounded_chdirOp (h : Begin sb base d pr me c) :
    wp (chdirOp me path : FsM P Blk ℤ) (fun _ s' => Bounded s'.disk) Any ⟨d, pr, c⟩ := by
  have hmap := h.map
  refine wp_bind (held_namei h.fine h.held h.cwd h.orphans (fun c' => ?_) fun ip c1 h1 => ?_)
  · exact bounded_endOp (h.fine.bounded (by decide))
  refine wp_bind (held_ilock h.fine h1 (.inr (Multiset.mem_cons_self ip 0)) fun _ _ c2 h2 => ?_)
  refine wp_bind (wp_inode (wp_ite (fun _ => ?_) fun _ => ?_))
  · exact bounded_close hmap h.fine h2 (by simp [MAXOPBLOCKS])
  refine wp_bind (held_iunlock h2 (Finset.mem_insert_self ip ∅) fun c3 h3 => wp_bind (wp_get ?_))
  refine bounded_iput hmap h.fine h3 h.cwd fun d' c' hf' => ?_
  refine wp_bind (wp_setProcs (wp_bind (wp_setProcs (wp_pure (hf'.bounded ?_)))))
  simp [MAXOPBLOCKS]

lemma bounded_sysClose {fd : Fin NOFILE} (h : Begin sb base d pr me c)
    (hfd : ∀ ip, pr.ofile me fd = some ip → 0 < base ip) :
    wp (sysClose me fd : FsM P Blk ℤ) (fun _ s' => Bounded s'.disk) Any ⟨d, pr, c⟩ := by
  refine wp_bind (wp_get ?_)
  dsimp only
  split
  · exact wp_pure (h.fine.bounded (by decide))
  · next ip hip =>
    refine wp_bind (wp_setProcs (wp_bind (wp_setProcs ?_)))
    refine bounded_iput h.map h.fine h.held (hfd ip hip) fun d' c' hf' => ?_
    exact bounded_endOp (hf'.bounded (by simp [MAXOPBLOCKS]))

end Operations

/-! ### Sections -/

section Sections

variable {P : Type}

/-- The end of `exit`, when the files are closed. -/
def exitOp (me : P) : FsM P Blk Unit := do
  beginOp
  iput ((← get).procs.cwd me)
  endOp

/-- One turn of the loop of `filewrite`, with `src` still to be written from `f->off` on. -/
def writeChunk (me : P) (fd : Fin NOFILE) (off : ℕ) (src : List UInt8) : FsM P Blk Unit := do
  match (← get).procs.ofile me fd with
  | none => pure ()
  | some ip =>
    beginOp
    ilock ip
    let _ ← onDisk (FileData.writei ip off (src.take maxWrite))
    iunlock ip
    endOp

/-- What is done between `begin_op` and `end_op`. -/
inductive Section
  | call (c : Call)
  | exit
  | write (fd : Fin NOFILE) (off : ℕ) (src : List UInt8)

def Section.run [DecidableEq P] (me : P) : Section → FsM P Blk Unit
  | .call c => do
    let _ ← Fs.call me c
  | .exit => exitOp me
  | .write fd off src => writeChunk me fd off src

/-- The blocks of files are accounted for and no buffer is locked, directories can be read to their
end, and processes hold the inodes that they use. An inode without links is held by somebody. -/
structure Consistent (s : St P Blk) (me : P) : Prop where
  readable : Readable s.disk
  range : ∀ i, (s.disk.dinode i).type ≠ .free → i < s.disk.sb.ninodes
  orphans : ∀ i, (s.disk.dinode i).type ≠ .free → (s.disk.dinode i).nlink = 0 → 0 < s.cache.ref i
  cwd : 0 < s.cache.ref (s.procs.cwd me)
  files : ∀ fd ip, s.procs.ofile me fd = some ip → 0 < s.cache.ref ip
  unlocked : ∀ i, s.cache.locked i = false
  valid : ∀ i, 0 < s.cache.ref i → s.cache.valid i = true → (s.disk.dinode i).type ≠ .free

variable {s s' : St P Blk} {me : P}

lemma Consistent.start (h : Consistent s me) (hmap : s.disk.sb.size ≤ BPB)
    (hlog : s.disk.logged = []) :
    Begin s.disk.sb s.cache.ref s.disk s.procs.beginOp me s.cache where
  map := hmap
  fine := by
    refine ⟨rfl, h.readable, h.range, ∅, le_rfl, fun b hb => ?_⟩
    rw [hlog] at hb
    cases hb
  held := by
    refine ⟨s.cache.room, fun _ => rfl, fun i => ?_, nofun, nofun, fun _ _ hk => hk.elim, h.valid,
      rfl⟩
    simp [h.unlocked i]
  cwd := h.cwd
  orphans i hi h0 := .inl (h.orphans i hi h0)

lemma touched_chunk (off : ℕ) {n : ℕ} (hn : n ≤ maxWrite) : touched off n ≤ 4 := by
  unfold touched
  simp only [show maxWrite = 1536 from rfl, show BSIZE = 512 from rfl] at *
  split_ifs <;> omega

/-- A chunk of a write. -/
lemma bounded_writei {sb : Super} {ip off : ℕ} {d : Blk} {src : List UInt8} (hmap : sb.size ≤ BPB)
    (hf : Fine sb ∅ 0 d) (hi : (d.dinode ip).type ≠ .free) (hlen : src.length ≤ maxWrite) :
    wp (FileData.writei ip off src) (fun _ d' => Bounded d') Any d := by
  have hzero : Bounded d := hf.bounded (by decide)
  refine wp_bind (wp_get (wp_ite (fun _ => wp_ite (fun _ => wp_pure hzero) fun _ => wp_pure hzero)
    fun _ => ?_))
  refine wp_mono (writei_logs src hf.readable.sound (hf.allocated hi) (hf.size hmap)) ?_ fun _ => id
  rintro r d' ⟨X, hX, hl⟩
  have hfour := touched_chunk off hlen
  -- nothing had been logged but the bitmap
  obtain ⟨Y, hY, hd⟩ := hf.logged
  have hsub : d'.logged.toFinset ⊆ {sb.bmapstart, IBLOCK ip sb} ∪ X := by
    intro b hb
    rw [hf.super] at hl
    rcases hl b (List.mem_toFinset.mp hb) with hb | hb
    · rcases hd b hb with rfl | hb | hb
      · simp
      · simp at hb
      · rw [Finset.card_eq_zero.mp (Nat.le_zero.mp hY)] at hb
        cases hb
    · simpa [or_assoc] using hb
  have hcard := (Finset.card_le_card hsub).trans (Finset.card_union_le _ _)
  have htwo := Finset.card_le_two (a := sb.bmapstart) (b := IBLOCK ip sb)
  unfold Bounded
  simp only [MAXOPBLOCKS]
  omega

lemma bounded_section [DecidableEq P] (h : Consistent s me) (hmap : s.disk.sb.size ≤ BPB)
    (hlog : s.disk.logged = []) (sec : Section) :
    wp (sec.run me) (fun _ s' => Bounded s'.disk) Any s := by
  have hb := h.start hmap hlog
  have hbegin {α : Type} {m : FsM P Blk α}
      (hm : wp m (fun _ s' => Bounded s'.disk) Any ⟨s.disk, s.procs.beginOp, s.cache⟩) :
      wp (do beginOp; m) (fun _ s' => Bounded s'.disk) Any s := wp_bind (wp_setProcs hm)
  cases sec with
  | call c =>
    have hcall : wp (Fs.call me c) (fun _ s' => Bounded s'.disk) Any s := by
      cases c with
      | openFile path omode => exact hbegin (bounded_openOp hb)
      | mkdir path => exact hbegin (bounded_makeOp nofun hb)
      | mknod path major minor => exact hbegin (bounded_makeOp nofun hb)
      | link old new => exact hbegin (bounded_linkOp hb)
      | unlink path => exact hbegin (bounded_unlinkOp hb)
      | chdir path => exact hbegin (bounded_chdirOp hb)
      | close fd => exact bounded_sysClose ⟨hmap, hb.fine, hb.held, h.cwd, hb.orphans⟩ (h.files fd)
      | exec path reads loads => exact hbegin (bounded_execOp hb)
    exact wp_bind (wp_mono hcall (fun _ _ hq => wp_pure hq) fun _ => id)
  | exit =>
    refine hbegin (wp_bind (wp_get ?_))
    refine bounded_iput hmap hb.fine hb.held h.cwd fun d' c' hf' => ?_
    exact wp_setProcs (hf'.bounded (by simp [MAXOPBLOCKS]))
  | write fd off src =>
    refine wp_bind (wp_get ?_)
    split
    · exact wp_pure (hb.fine.bounded (by decide))
    · next ip hip =>
      refine hbegin (wp_bind (held_ilock hb.fine hb.held (.inl (h.files fd ip hip))
        fun _ hty c' _ => ?_))
      refine wp_bind (wp_onDisk (wp_mono (bounded_writei hmap hb.fine hty
        (List.length_take_le _ _)) (fun r d' hd => ?_) fun _ => id))
      refine wp_bind (wp_bind (wp_get (wp_ite (fun _ => wp_throw trivial) fun _ => ?_)))
      exact wp_setCache (wp_setProcs hd)

/-- **No operation logs too much.** From a consistent state, with a bitmap of one block, what a
process does between `begin_op` and `end_op` passes at most `MAXOPBLOCKS` blocks to `log_write`. -/
theorem log_bound [DecidableEq P] (h : Consistent s me) (hmap : s.disk.sb.size ≤ BPB)
    (hlog : s.disk.logged = []) (sec : Section) (hrun : sec.run me s = .ok ((), s')) :
    s'.disk.logged.toFinset.card ≤ MAXOPBLOCKS := by
  have hb := wp_ok (bounded_section h hmap hlog sec) hrun
  exact hb

/-- The root directory is empty and an inode is free. -/
def oneFree : St Unit Blk := { emptyDir with disk := { emptyDir.disk with sb := ⟨6, 3, 2, 3⟩ } }

lemma consistent_oneFree : Consistent oneFree () := by
  have hroot (i : ℕ) (hi : (oneFree.disk.dinode i).type ≠ .free) : i = ROOTINO := by
    by_contra hne
    exact hi (congrArg Dinode.type (if_neg hne))
  have hacc : Accounted oneFree.disk := by
    refine accounted_of_empty (fun i k => ?_) (fun i => ?_) fun b hb =>
      decide_eq_false (not_lt.mpr hb.1) <;>
    · simp only [oneFree, emptyDir]
      split_ifs <;> rfl
  refine ⟨⟨⟨⟨hacc.exact, dir_emptyDir.2, by decide⟩, hacc.mapped⟩, rfl, fun i hi => ?_⟩,
    fun i hi => ?_, fun i hi _ => ?_, Nat.one_pos, by simp [oneFree, emptyDir],
    fun _ => rfl, fun i _ hi => ?_⟩
  · obtain rfl := hroot i (by simp [hi])
    exact ⟨by decide, rfl⟩
  · obtain rfl := hroot i hi
    decide
  · rw [hroot i hi]
    exact Nat.one_pos
  · obtain rfl : i = ROOTINO := by simpa [oneFree, emptyDir] using hi
    decide

/-- A directory is made in a root directory without entries: four blocks are logged. -/
theorem log_bound_mkdir : ∃ (s' : St Unit Blk) (r : Unit),
    (Section.call (.mkdir [97])).run () oneFree = .ok (r, s') ∧ s'.disk.logged.toFinset.card = 4 ∧
    s'.disk.logged.toFinset.card ≤ MAXOPBLOCKS := by
  have hv : ((Section.call (.mkdir [97])).run () oneFree).toOption.map
      (fun r => r.2.disk.logged.toFinset.card) = some 4 := by decide +kernel
  obtain ⟨⟨r, s'⟩, hs, hcard⟩ := Option.map_eq_some_iff.mp hv
  have hrun := ok_of_toOption hs
  exact ⟨s', r, hrun, hcard, log_bound consistent_oneFree (by decide) rfl _ hrun⟩

end Sections

end Xv6.LogBound
