import Xv6.MkfsFiles

/-!
`main` of `mkfs` from the empty image to the bitmap, and the disk that the kernel finds when the
image is mounted.
-/

namespace Xv6.Mkfs

open Xv6.Lib.Bytes Xv6.Lib.Memory Xv6.Lib.Wp
open Xv6.Fs (BSIZE NDIRECT MAXFILE FSSIZE ROOTINO IPB BPB Blk Dinode InodeType Slot fileSlot dot
  dotdot)

/-! ### The empty image -/

section Start

variable {st : St}

lemma put_zero (a n : ℕ) : put (fun _ => 0) a (get (fun _ => 0) 0 n) = fun _ => 0 := by
  funext x
  unfold put
  rw [getElem?_get]
  split_ifs <;> rfl

lemma clearSectors_spec (k n : ℕ) (hle : k + n ≤ FSSIZE) (himg : st.img = fun _ => 0)
    (hlen : st.len = k * BSIZE) :
    wp (clearSectors (List.range' k n)) (fun _ st' => st' = { st with len := (k + n) * BSIZE })
      (fun _ => False) st := by
  induction n generalizing k st with
  | zero =>
    refine wp_pure ?_
    rw [Nat.add_zero, ← hlen]
  | succ n ih =>
    rw [List.range'_succ]
    unfold clearSectors wsect
    refine wp_bind (wp_modify ?_)
    rw [offset_of_le (by omega), himg, put_zero, hlen, max_eq_right (Nat.le_add_right _ _),
      ← Nat.succ_mul]
    refine wp_mono (ih (k + 1) (by omega) rfl rfl) ?_ fun _ => id
    rintro _ st' rfl
    rw [Nat.add_right_comm, Nat.add_assoc]

lemma clearSectors_range {n : ℕ} (hn : n ≤ FSSIZE) (himg : st.img = fun _ => 0)
    (hlen : st.len = 0) :
    wp (clearSectors (List.range n)) (fun _ st' => st' = { st with len := n * BSIZE })
      (fun _ => False) st := by
  have hspec := clearSectors_spec 0 n (by omega) himg (hlen.trans (Nat.zero_mul BSIZE).symm)
  rwa [Nat.zero_add, ← List.range_eq_range'] at hspec

lemma clearImage_spec (himg : st.img = fun _ => 0) (hlen : st.len = 0) :
    wp clearImage (fun _ st' => st' = { st with len := FSSIZE * BSIZE }) (fun _ => False) st := by
  unfold clearImage
  generalize hn : FSSIZE = n
  exact clearSectors_range hn.ge himg hlen

/-- The state when the super block is written. -/
def formatted : St := ⟨put (fun _ => 0) BSIZE superblock, FSSIZE * BSIZE, 1, nmeta⟩

lemma superOf_formatted : superOf formatted.img = super := by
  have hfields : num formatted.img BSIZE 4 = FSSIZE ∧ num formatted.img (BSIZE + 8) 4 = NINODES ∧
      num formatted.img (BSIZE + 20) 4 = inodestart ∧
      num formatted.img (BSIZE + 24) 4 = bmapstart := by decide +kernel
  obtain ⟨h1, h2, h3, h4⟩ := hfields
  unfold superOf super
  rw [h1, h2, h3, h4]

lemma formatted_zero {x : ℕ} (hx : inodestart * BSIZE ≤ x) : formatted.img x = 0 := by
  have hle : BSIZE + superblock.length ≤ inodestart * BSIZE := by decide
  exact put_of_ge (m := fun _ => 0) (hle.trans hx)

/-- The disk of an image without inodes. -/
def blank : Blk := ⟨super, fun b => b < nmeta, fun _ => dinodeOf fun _ => 0, fun _ _ => 0, [], []⟩

lemma named_blank (p : ℕ × Slot) : blank.named p = none :=
  Fs.named_free (fun h => h.2 (congrArg typeOf (num_zero typeAt 2))) p.2

lemma built_formatted : Built formatted [] where
  sb := superOf_formatted
  freeinode := rfl
  disk := by
    refine ⟨blank, ⟨rfl, fun _ _ => rfl, fun i hi => ?_, fun b hb hb' => ?_, fun _ _ _ => rfl, rfl,
      le_rfl, by decide⟩, rfl, ⟨⟨⟨⟨?_, ?_, fun b hb hu => ?_⟩, fun b hb _ => decide_eq_true hb,
      by decide⟩, fun i hi => ?_⟩, rfl, by decide, nofun, fun i _ _ => ?_⟩⟩
    · refine (dinodeOf_congr fun x _ => formatted_zero ?_).symm
      unfold inodeAt
      omega
    · funext j
      unfold blockOf
      rw [formatted_zero (le_trans (Nat.mul_le_mul_right BSIZE (le_trans (by decide) hb))
        (Nat.le_add_right _ _)), ite_self]
      rfl
    · intro p b hp
      rw [named_blank] at hp
      cases hp
    · intro p q b hp
      rw [named_blank] at hp
      cases hp
    · exact absurd (of_decide_eq_true hu) (not_lt.mpr hb.1)
    · exact absurd (congrArg typeOf (num_zero typeAt 2)) hi.2
    · exact congrArg typeOf (num_zero typeAt 2)

end Start

/-! ### The end -/

/-- The next multiple of the block size, strictly. -/
def roundUp (n : ℕ) : ℕ := (n / BSIZE + 1) * BSIZE

section End

variable {st : St} {fs : List File} {f : File} {s : Blk}

lemma fixRoot_spec (hm : Mirror (inodeOf st.img) st s)
    (hsmall : roundUp (s.dinode ROOTINO).size < 2 ^ 32) :
    wp (fixRoot ROOTINO) (fun _ st' => superOf st'.img = superOf st.img ∧
      st'.freeinode = st.freeinode ∧ st'.freeblock = st.freeblock ∧
      Mirror (inodeOf st'.img) st' (s.setSize ROOTINO (roundUp (s.dinode ROOTINO).size)))
      (fun _ => False) st := by
  have hi : ROOTINO < NINODES := by decide
  have hd := hm.dinode ROOTINO hi
  have hsize : num (inodeOf st.img ROOTINO) sizeAt 4 = (s.dinode ROOTINO).size := by
    rw [hd]
    rfl
  unfold fixRoot
  refine wp_bind (wp_rinode hm.len hi ?_)
  rw [hsize]
  refine wp_winode hm.len hi ⟨?_, rfl, rfl, ?_⟩
  · exact superOf_congr fun x hx => put_of_lt (by unfold inodeAt; omega)
  · have hm' := hm.setDinode ROOTINO
      (putNum (inodeOf st.img ROOTINO) sizeAt 4 (roundUp (s.dinode ROOTINO).size))
    rw [dinodeOf_size hsmall, ← hd] at hm'
    exact hm'.winode hi (Function.update_self ..) fun j _ hj => by rw [Function.update_of_ne hj]

/-- The bitmap is written where the kernel looks for it. -/
lemma balloc_spec (hm : Mirror (inodeOf st.img) st s) (hsb : superOf st.img = super) :
    wp (balloc st.freeblock) (fun _ st' => st'.freeinode = st.freeinode ∧
      st'.freeblock = st.freeblock ∧ Mirror (inodeOf st'.img) st' s ∧
      Mirror (inodeOf st'.img) st' (mount st'.img) ∧
      ∀ b, b < BPB → (mount st'.img).used b = decide (b < st'.freeblock)) (fun _ => False) st := by
  unfold balloc
  have hroom := hm.room
  refine wp_ite (fun _ => wp_wsect hm.len (by decide) ⟨rfl, rfl, ?_⟩) fun h => absurd ?_ h
  swap
  · exact lt_of_le_of_lt hroom (by decide)
  set img' := put st.img (bmapstart * BSIZE) (get (bitmap st.freeblock) 0 BSIZE) with himg
  have hlow (x : ℕ) (hx : x < bmapstart * BSIZE) : img' x = st.img x := put_of_lt hx
  have hhigh (x : ℕ) (hx : nmeta * BSIZE ≤ x) : img' x = st.img x := by
    refine put_of_ge ?_
    rw [length_get]
    exact le_trans (by decide) hx
  have hbit (q : ℕ) (hq : q < BSIZE) : img' (bmapstart * BSIZE + q) = bitmap st.freeblock q := by
    rw [himg, put, if_pos (Nat.le_add_right _ _), Nat.add_sub_cancel_left, getElem?_get, if_pos hq,
      Nat.zero_add]
    rfl
  have hsb' : superOf img' = super :=
    (superOf_congr fun x hx => hlow x (lt_trans hx (by decide))).trans hsb
  have hinode (i : ℕ) (hi : i < NINODES) :
      dinodeOf (inodeOf img' i) = dinodeOf (inodeOf st.img i) := by
    have := inodeAt_lt hi
    exact dinodeOf_congr fun x hx => hlow _ (by omega)
  have hblock (b : ℕ) (hb : nmeta ≤ b) : blockOf img' b = blockOf st.img b := by
    funext j
    have := Nat.mul_le_mul_right BSIZE hb
    unfold blockOf
    rw [hhigh _ (by omega)]
  have hused (b : ℕ) (hlt : b < BPB) : (mount img').used b = decide (b < st.freeblock) := by
    change (img' (Fs.BBLOCK b (superOf img') * BSIZE + b % BPB / 8)).toNat.testBit _ = _
    rw [hsb', Nat.mod_eq_of_lt hlt, Fs.BBLOCK, Nat.div_eq_of_lt hlt, Nat.zero_add]
    change (img' (bmapstart * BSIZE + b / 8)).toNat.testBit _ = _
    rw [hbit, testBit_bitmap _ _ _ (Nat.mod_lt b (by decide))]
    · rw [Nat.div_add_mod]
    · simp only [show BSIZE = 512 from rfl, show BPB = 4096 from rfl] at *
      omega
  refine ⟨⟨hm.sb, hm.used, fun i hi => ?_, fun b hb hb' => ?_, hm.clear, hm.len, hm.low, hm.room⟩,
    ⟨hsb', fun b hb => hused b (lt_trans hb (by decide)), fun i hi => ?_, fun _ _ _ => rfl,
      fun b hb hb' => ?_, hm.len, hm.low, hm.room⟩, hused⟩
  · rw [hinode i hi, hm.dinode i hi]
  · rw [hblock b hb, hm.block b hb hb']
  · change dinodeOf (fun j => img' (Fs.IBLOCK i (superOf img') * BSIZE + i % IPB * DINODE + j)) = _
    rw [hsb']
    change dinodeOf (fun j => img' ((i / IPB + inodestart) * BSIZE + i % IPB * DINODE + j)) = _
    simp only [inodeAt_eq]
    rfl
  · have hb' : nmeta ≤ b := le_trans hm.low hb
    change blockOf img' b = _
    rw [hblock b hb', ← hm.block b hb' ‹_›]
    exact hm.clear b hb ‹_›

end End

/-! ### The disk -/

/-- Two disks that the kernel does not tell apart. -/
structure Agree (s s' : Blk) : Prop where
  sb : s'.sb = s.sb
  used : ∀ b, b < s.sb.size → s'.used b = s.used b
  dinode : ∀ i, i < s.sb.ninodes → s'.dinode i = s.dinode i
  block : ∀ b, s.sb.Data b → s'.block b = s.block b

section Agree

variable {s s' : Blk} {fs : List File} {d : ℕ → Mem} {st : St}

lemma Mirror.agree (h : Mirror d st s) (h' : Mirror d st s') : Agree s s' where
  sb := h'.sb.trans h.sb.symm
  used b hb := by
    rw [h.sb] at hb
    rw [h'.used b hb, h.used b hb]
  dinode i hi := by
    rw [h.sb] at hi
    rw [h'.dinode i hi, h.dinode i hi]
  block b hb := by
    rw [h.sb] at hb
    rw [h'.block b hb.1 hb.2, h.block b hb.1 hb.2]

lemma Agree.named (h : Agree s s') (hb : s.Booked) : s'.named = s.named :=
  Fs.named_congr h.sb (fun j hj => by rw [h.dinode j hj]) (fun j hj => by rw [h.dinode j hj])
    fun _ b hn => h.block b (hb.exact.marked _ b hn).1

lemma Agree.byte (h : Agree s s') (hb : s.Booked) (i k : ℕ) : s'.byte i k = s.byte i k :=
  Fs.byte_congr (fun _ => by rw [h.named hb]) fun _ b hn => h.block b (hb.exact.marked _ b hn).1

lemma Agree.sound (h : Agree s s') (hs : Fs.Sound s) : Fs.Sound s' := by
  have hn := h.named hs.booked
  have hused {b : ℕ} (hb : b < s.sb.size) : s'.used b = s.used b := h.used b hb
  refine ⟨⟨⟨fun p b hp => ?_, ?_, fun b hb hu => ?_⟩, fun b hb hlt => ?_, ?_⟩, fun i hi => ?_⟩
  · rw [hn] at hp
    obtain ⟨ha, hu⟩ := hs.booked.exact.marked p b hp
    rw [h.sb, hused ha.2]
    exact ⟨ha, hu⟩
  · rw [hn]
    exact hs.booked.exact.inj
  · rw [h.sb] at hb
    rw [hused hb.2] at hu
    rw [hn]
    exact hs.booked.exact.owned b hb hu
  · rw [h.sb] at hb hlt
    rw [hused hlt]
    exact hs.booked.low b hb hlt
  · rw [h.sb]
    exact hs.booked.fits
  · unfold Fs.Blk.Allocated at hi
    rw [h.sb] at hi
    have hd := h.dinode i hi.1
    rw [hd] at hi
    unfold Fs.Blk.Mapped
    rw [hd, hn]
    exact hs.mapped i hi

lemma Holds.congr (hh : Holds s fs) (h : Agree s s') : Holds s' fs := by
  have hb := hh.sound.booked
  have hd (i : ℕ) (hi : i < NINODES) : s'.dinode i = s.dinode i :=
    h.dinode i (by rw [hh.sb]; exact hi)
  refine ⟨h.sound hh.sound, h.sb.trans hh.sb, hh.count, fun i f hf => ?_, fun i hi hout => ?_⟩
  · obtain ⟨hlt, -⟩ := List.getElem?_eq_some_iff.mp hf
    obtain ⟨hfile, hft⟩ := hh.file i f hf
    have hi := hd (i + 1) (lt_of_le_of_lt hlt hh.count)
    refine ⟨⟨?_, ?_, ?_, fun k => ?_, fun bn hbn => ?_⟩, hft⟩
    · rw [hi, hfile.type]
    · rw [hi, hfile.nlink]
    · rw [hi, hfile.size]
    · rw [h.byte hb, hfile.byte]
    · rw [h.named hb, hfile.tight bn hbn]
  · rw [hd i hi, hh.free i hi hout]

/-- The size of an inode is set back. -/
lemma Agree.setSize {i n : ℕ} (h : Agree (s.setSize i n) s') :
    Agree s (s'.setSize i (s.dinode i).size) where
  sb := h.sb
  used := h.used
  dinode j hj := by
    have hd := h.dinode j hj
    unfold Fs.Blk.setSize at hd ⊢
    by_cases hji : j = i
    · subst hji
      rw [Fs.dinode_setDinode_self] at hd ⊢
      rw [hd]
    · rw [Fs.dinode_setDinode_other hji] at hd ⊢
      exact hd
  block := h.block

end Agree

/-! ### All of it -/

/-- The image of `files`. The size of the root directory apart, its disk has the files. -/
structure Made (files : List HostFile) (st : St) : Prop where
  freeinode : st.freeinode = files.length + 2
  low : nmeta ≤ st.freeblock
  room : st.freeblock ≤ FSSIZE
  used : ∀ b, b < BPB → (mount st.img).used b = decide (b < st.freeblock)
  holds : Holds ((mount st.img).setSize ROOTINO (rootBytes files).length) (layout files)
  size : ((mount st.img).dinode ROOTINO).size = roundUp (rootBytes files).length

section Main

variable {files : List HostFile}

lemma finish_spec {st : St} (hb : Built st (layout files)) :
    wp (do fixRoot ROOTINO; balloc (← get).freeblock) (fun _ st' => Made files st')
      (fun _ => False) st := by
  obtain ⟨s, hm, -, hh⟩ := hb.disk
  obtain ⟨hfile, -⟩ := hh.file 0 _ rfl
  have hsize : (s.dinode ROOTINO).size = (rootBytes files).length := hfile.size
  have hcount := hh.count
  rw [length_layout] at hcount
  have hsmall : roundUp (s.dinode ROOTINO).size < 2 ^ 32 := by
    rw [hsize, length_rootBytes]
    unfold roundUp
    simp only [show NINODES = 200 from rfl, show Fs.DIRENT = 16 from rfl,
      show BSIZE = 512 from rfl] at *
    omega
  refine wp_bind (wp_mono (fixRoot_spec hm hsmall) ?_ fun _ => id)
  rintro _ st₁ ⟨hsb, hfi, hfb, hm₁⟩
  refine wp_bind (wp_get (wp_mono (balloc_spec hm₁ (hsb.trans hb.sb)) ?_ fun _ => id))
  rintro _ st₂ ⟨hfi', hfb', hm₂, hmount, hused⟩
  have hagree := (hm₂.agree hmount).setSize
  rw [hsize] at hagree
  refine ⟨?_, hm₂.low, hm₂.room, hused, hh.congr hagree, ?_⟩
  · rw [hfi', hfi, hb.freeinode, length_layout]
  · have hd := (hm₂.agree hmount).dinode ROOTINO (by rw [hm₂.sb]; decide)
    rw [hd, Fs.Blk.setSize, Fs.dinode_setDinode_self]
    dsimp only
    rw [hsize]

/-- **`mkfs`.** With an inode for every file, the image is made, or there is not enough room. -/
lemma main_spec (hroom : files.length + 1 < NINODES) :
    wp (main files) (fun _ st' => Made files st') (fun _ => ¬ Fits (nmeta + 8) files) St.init := by
  unfold main
  refine wp_bind (wp_modify (wp_bind (wp_mono (clearImage_spec rfl rfl) ?_ nofun)))
  rintro _ st rfl
  refine wp_bind (wp_wsect rfl (by decide) ?_)
  have hput : put (fun _ => 0) (1 * BSIZE) (get (put (fun _ => 0) 0 superblock) 0 BSIZE) =
      put (fun _ => 0) BSIZE superblock :=
    put_sector (m := fun _ => 0) (a := 1 * BSIZE) (o := 0) (by decide)
  change wp _ _ _ (St.mk (put (fun _ => 0) (1 * BSIZE) _) _ _ _)
  rw [hput]
  change wp _ _ _ formatted
  refine wp_bind
    (wp_mono (ialloc_built built_formatted (by decide) (by decide) (by decide)) ?_ nofun)
  rintro _ st₁ ⟨rfl, hfb₁, hb₁⟩
  refine wp_ite (fun h => absurd rfl h) fun _ => ?_
  have hdot (name : Fs.Name) : 0 < (dirent ROOTINO name).length ∧
      (dirent ROOTINO name).length ≤ BSIZE := by
    rw [length_dirent]
    decide
  have hfb₁ : st₁.freeblock = nmeta := hfb₁
  refine wp_bind (wp_mono (iappend_built hb₁ rfl (hdot dot).1 (hdot dot).2) ?_ fun _ h => ?_)
  swap
  · rw [length_dirent, hfb₁] at h
    exact absurd h (by decide)
  rintro _ st₂ ⟨hb₂, hfb₂⟩
  refine wp_bind (wp_mono (iappend_built hb₂ rfl (hdot dotdot).1 (hdot dotdot).2) ?_ fun _ h => ?_)
  swap
  · rw [length_dirent] at h
    refine absurd h (not_or.mpr ⟨by rw [List.nil_append, length_dirent]; decide, ?_⟩)
    have : nmeta + 8 ≤ FSSIZE := by decide
    omega
  rintro _ st₃ ⟨hb₃, hfb₃⟩
  have hb₃ : Built st₃ (layout []) := hb₃
  have hroom' : ([] : List HostFile).length + files.length + 1 < NINODES := by
    rwa [List.length_nil, Nat.zero_add]
  refine wp_bind (wp_mono (copyFiles_built files hb₃ hroom') ?_ fun _ h hfits => h ?_)
  · rintro _ st₄ ⟨hb₄, -⟩
    exact wp_mono (finish_spec hb₄) (fun _ _ => id) nofun
  · exact ⟨hfits.file, le_trans (by omega) hfits.blocks⟩

lemma mkfs_made {st : St} (hroom : files.length + 1 < NINODES) (h : mkfs files = .ok st) :
    Made files st := by
  unfold mkfs at h
  obtain ⟨⟨_, st'⟩, hrun, rfl⟩ := map_ok h
  exact wp_ok (Q := fun _ => Made files) (main_spec hroom) hrun

/-- A list of files that is sure to fit. -/
lemma mkfs_ok (hroom : files.length + 1 < NINODES) (hfits : Fits (nmeta + 8) files) :
    ∃ st, mkfs files = .ok st := by
  obtain ⟨_, st, hrun, -⟩ := wp_total
    (wp_mono (main_spec hroom) (fun _ _ => id) fun _ h => h hfits)
  refine ⟨st, ?_⟩
  unfold mkfs
  rw [hrun]
  rfl

end Main

end Xv6.Mkfs
