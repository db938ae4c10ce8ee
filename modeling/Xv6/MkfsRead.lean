import Xv6.MkfsRoot

/-!
The kernel finds the files of the host on the image: `dirlookup` in the root directory finds each by
its name, and `readi` returns its bytes. The search reads the entries from the first to the one it
looks for, so that a root directory without its last block does no harm.
-/

namespace Xv6.Mkfs

open Xv6.Lib.Wp
open Xv6.Fs (BSIZE DIRSIZ DIRENT ROOTINO Blk Dirent fileSlot Name dot dotdot)

/-! ### Searching a directory -/

section Search

variable {s : Blk} {dp k : ℕ} {name : Name} {e : Dirent}

/-- The blocks of the first `n` entries are there. -/
def Readable (s : Blk) (dp n : ℕ) : Prop :=
  n * DIRENT ≤ (s.dinode dp).size ∧ n * DIRENT < 2 ^ 32 ∧
    ∀ bn, bn * BSIZE < n * DIRENT → s.named (dp, fileSlot bn) ≠ none

lemma readEnt_spec {n : ℕ} (hs : Readable s dp n) (hheld : s.held = []) (hk : k < n)
    (p : Fs.Panic) :
    wp (Fs.readEnt dp k p)
      (fun e s' => e = Fs.decode (s.bytes dp (k * DIRENT) DIRENT) ∧ s' = s) (fun _ => False) s := by
  obtain ⟨hsize, hsmall, hmap⟩ := hs
  have hle : k * DIRENT + DIRENT ≤ n * DIRENT := by
    have := Nat.mul_le_mul_right DIRENT hk
    rwa [Nat.succ_mul] at this
  unfold Fs.readEnt
  refine wp_bind (wp_mono (Fs.readi_spec hheld fun bn hbn _ => hmap bn (by omega)) ?_ fun _ => id)
  rintro r s' ⟨rfl, rfl⟩
  have hres : Fs.readResult s' dp (k * DIRENT) DIRENT = some (s'.bytes dp (k * DIRENT) DIRENT) := by
    unfold Fs.readResult
    rw [if_neg, min_eq_left (by omega)]
    rw [Nat.mod_eq_of_lt (by omega)]
    omega
  rw [hres]
  exact wp_ite (fun _ => wp_pure ⟨rfl, rfl⟩) fun h => absurd (by simp [Fs.Blk.bytes]) h

/-- The loop of `dirlookup` ends at the first entry with the name. -/
lemma searchFrom_spec {n : ℕ} (hs : Readable s dp n) (hheld : s.held = []) (before after : List ℕ)
    (hk : k < n) (hbefore : ∀ j ∈ before, j < n ∧
      Fs.namecmp name (Fs.decode (s.bytes dp (j * DIRENT) DIRENT)).name = false)
    (he : Fs.decode (s.bytes dp (k * DIRENT) DIRENT) = e) (hinum : e.inum ≠ 0)
    (hname : Fs.namecmp name e.name = true) :
    wp (Fs.searchFrom dp name (before ++ k :: after))
      (fun r s' => r = some (e.inum, k) ∧ s' = s) (fun _ => False) s := by
  induction before with
  | nil =>
    refine wp_bind (wp_mono (readEnt_spec hs hheld hk _) ?_ fun _ => id)
    rintro _ s' ⟨rfl, rfl⟩
    rw [he]
    exact wp_ite (fun _ => wp_pure ⟨rfl, rfl⟩) fun h => absurd ⟨hinum, hname⟩ h
  | cons j before ih =>
    obtain ⟨hj, hne⟩ := hbefore j List.mem_cons_self
    refine wp_bind (wp_mono (readEnt_spec hs hheld hj _) ?_ fun _ => id)
    rintro _ s' ⟨rfl, rfl⟩
    refine wp_ite (fun h => ?_) fun _ => ih fun j hj => hbefore j (List.mem_cons_of_mem _ hj)
    rw [hne] at h
    exact absurd h.2 Bool.false_ne_true

end Search

section Lookup

variable {files : List HostFile} {st : St} {j : ℕ} {f : HostFile}

lemma Made.readable (h : Made files st) : Readable (mount st.img) ROOTINO (files.length + 2) := by
  have hcount := h.count
  refine ⟨?_, ?_, fun bn hbn => h.written Nat.one_pos rfl ?_⟩
  · rw [h.size, length_rootBytes, roundUp]
    simp only [show BSIZE = 512 from rfl, show DIRENT = 16 from rfl]
    omega
  · simp only [show NINODES = 200 from rfl, show DIRENT = 16 from rfl] at *
    omega
  · change bn * BSIZE < (rootBytes files).length
    rwa [length_rootBytes]

lemma rootDirents_file (hf : files[j]? = some f) :
    (rootDirents files)[j + 2]? = some ⟨j + 2, f.stored⟩ := by
  unfold rootDirents
  rw [List.getElem?_append_right (by simp), List.getElem?_map]
  simp [List.getElem?_zipIdx, hf, Nat.add_comm]

/-- The entry of a file. -/
lemma rootEntry_file (h : Made files st) (hf : files[j]? = some f) :
    rootEntry (mount st.img) (j + 2) = ⟨j + 2, f.stored.take DIRSIZ⟩ := by
  rw [rootEntry_eq h, List.getElem?_map, rootDirents_file hf]
  rfl

/-- No entry before it has its name. -/
lemma namecmp_before (h : Made files st) (hnodup : (files.map HostFile.stored).Nodup)
    (hnames : ∀ f ∈ files, f.stored ≠ dot ∧ f.stored ≠ dotdot ∧ f.stored.length ≤ DIRSIZ)
    (hf : files[j]? = some f) {k : ℕ} (hk : k < j + 2) :
    Fs.namecmp f.stored (rootEntry (mount st.img) k).name = false := by
  obtain ⟨hdot, hdotdot, hlen⟩ := hnames f (List.mem_of_getElem? hf)
  have hcmp {t : Name} (ht : f.stored ≠ t.take DIRSIZ) : Fs.namecmp f.stored t = false := by
    unfold Fs.namecmp
    rw [List.take_of_length_le hlen]
    exact decide_eq_false ht
  obtain rfl | rfl | ⟨i, rfl⟩ : k = 0 ∨ k = 1 ∨ ∃ i, k = i + 2 := by
    rcases k with _ | _ | i
    · exact .inl rfl
    · exact .inr (.inl rfl)
    · exact .inr (.inr ⟨i, rfl⟩)
  · rw [rootEntry_eq h]
    exact hcmp hdot
  · rw [rootEntry_eq h]
    exact hcmp hdotdot
  · obtain ⟨hj, rfl⟩ := List.getElem?_eq_some_iff.mp hf
    have hi : i < files.length := by omega
    rw [rootEntry_file h (List.getElem?_eq_getElem hi)]
    obtain ⟨-, -, hleni⟩ := hnames files[i] (List.getElem_mem hi)
    refine hcmp ?_
    dsimp only
    rw [List.take_take, min_self, List.take_of_length_le hleni]
    intro heq
    have hj' : j < (files.map HostFile.stored).length := by rwa [List.length_map]
    have hi' : i < (files.map HostFile.stored).length := by rwa [List.length_map]
    have hij : (files.map HostFile.stored)[j] = (files.map HostFile.stored)[i] := by
      rwa [List.getElem_map, List.getElem_map]
    have := hnodup.getElem_inj_iff.mp hij
    omega

/-- The slots of the root directory, up to the one of a file and from there on. -/
lemma slots_split (h : Made files st) (hj : j < files.length) :
    ∃ after, Fs.slots ((mount st.img).dinode ROOTINO) = List.range (j + 2) ++ (j + 2) :: after := by
  have hle : j + 2 + 1 ≤ (((mount st.img).dinode ROOTINO).size + DIRENT - 1) / DIRENT := by
    rw [h.size, length_rootBytes, roundUp]
    simp only [show BSIZE = 512 from rfl, show DIRENT = 16 from rfl]
    omega
  obtain ⟨m, hm⟩ := Nat.exists_eq_add_of_le hle
  refine ⟨List.range' (j + 2 + 1) m, ?_⟩
  unfold Fs.slots
  rw [hm, Nat.add_assoc (j + 2), Nat.add_comm 1 m, List.range_eq_range', List.range_eq_range',
    ← List.range'_append_1, Nat.zero_add]
  exact congrArg _ List.range'_succ

/-- `dirlookup` goes on with the inode that its loop has found. -/
lemma dirlookup_found {P : Type} {d : Blk} {dp i k : ℕ} {name : Name}
    (htype : (d.dinode dp).type = .dir)
    (hsearch : Fs.searchFrom dp name (Fs.slots (d.dinode dp)) d = .ok (some (i, k), d))
    (s : Fs.St P Blk) (hs : s.disk = d) :
    Fs.dirlookup dp name s = (Fs.iget i >>= fun _ => pure (some (i, k))) s := by
  have hdisk : Fs.onDisk (Fs.Files.search dp name) s = .ok (some (i, k), s) := by
    subst hs
    have hrun : (Fs.Files.search dp name : Fs.DiskM Blk _) s.disk = .ok (some (i, k), s.disk) :=
      (run_bind rfl).trans hsearch
    unfold Fs.onDisk
    rw [run_bind rfl, hrun]
    rfl
  unfold Fs.dirlookup
  rw [run_bind (m := Fs.inode dp) rfl, if_neg, run_bind hdisk]
  change ¬ (s.disk.dinode dp).type ≠ .dir
  rw [hs]
  exact not_not.mpr htype

end Lookup

/-! ### Reading a file -/

section Read

variable {files : List HostFile} {st : St} {j off n : ℕ} {f : HostFile}

lemma layout_file (hf : files[j]? = some f) :
    (layout files)[j + 2 - 1]? = some ⟨.file, f.contents⟩ := by
  rw [show j + 2 - 1 = j + 1 from rfl, layout, List.getElem?_cons_succ, List.getElem?_map, hf]
  rfl

lemma size_file (h : Made files st) (hf : files[j]? = some f) :
    ((mount st.img).dinode (j + 2)).size = f.contents.length := by
  obtain ⟨hj, -⟩ := List.getElem?_eq_some_iff.mp hf
  obtain ⟨g, hg, -, -, -, hsize⟩ :=
    h.inode (i := j + 2) (by omega) (by rw [h.freeinode]; omega)
  obtain rfl := Option.some.inj ((layout_file hf).symm.trans hg)
  rwa [if_neg (by simp only [show ROOTINO = 1 from rfl]; omega)] at hsize

lemma bytes_file (h : Made files st) (hf : files[j]? = some f) (hle : off + n ≤ f.contents.length) :
    (mount st.img).bytes (j + 2) off n = (f.contents.drop off).take n := by
  have hbyte (k : ℕ) : (mount st.img).byte (j + 2) k = f.contents.getD k 0 := by
    rw [← Fs.byte_setSize _ ROOTINO (rootBytes files).length]
    exact (h.holds.file (j + 1) _ (layout_file hf)).1.byte k
  refine List.ext_getElem ?_ fun k h1 h2 => ?_
  · simp [Fs.Blk.bytes]
    omega
  · have hk : k < n := by simpa [Fs.Blk.bytes] using h1
    simp only [Fs.Blk.bytes, List.getElem_map, List.getElem_range, List.getElem_take,
      List.getElem_drop]
    rw [hbyte, List.getD_eq_getElem?_getD, List.getElem?_eq_getElem (by omega)]
    rfl

lemma readi_file (h : Made files st) (hf : files[j]? = some f) (hoff : off ≤ f.contents.length)
    (hn : off + n < 2 ^ 32) :
    Fs.readi (j + 2) off n (mount st.img) =
      .ok (some ((f.contents.drop off).take n), mount st.img) := by
  have hsize := size_file h hf
  have hmap (bn : ℕ) (hbn : bn * BSIZE < min (off + n) ((mount st.img).dinode (j + 2)).size) :
      (mount st.img).named (j + 2, fileSlot bn) ≠ none :=
    h.written (by omega) (layout_file hf) (by dsimp only; omega)
  have hspec : wp (Fs.readi (j + 2) off n)
      (fun r s' => r = Fs.readResult (mount st.img) (j + 2) off n ∧ s' = mount st.img)
      (fun _ => False) (mount st.img) := Fs.readi_spec rfl fun bn hbn _ => hmap bn hbn
  obtain ⟨r, s', hrun, rfl, rfl⟩ := wp_total hspec
  rw [hrun, Fs.readResult, if_neg, hsize, bytes_file h hf (by omega)]
  · congr 3
    rw [← List.length_drop, List.take_eq_take_iff]
    omega
  · rw [hsize, Nat.mod_eq_of_lt hn]
    omega

/-- **The kernel reads what `mkfs` was given.** Each file is found by its name in the root
directory, whatever is in the inode cache, and read as it was on the host. -/
theorem host_files_found {P : Type} (hcount : files.length ≤ 100)
    (hnodup : (files.map HostFile.stored).Nodup)
    (hnames : ∀ f ∈ files, f.stored ≠ dot ∧ f.stored ≠ dotdot ∧ f.stored.length ≤ DIRSIZ)
    (h : mkfs files = .ok st) (hf : f ∈ files) :
    ∃ inum slot, (∀ s : Fs.St P Blk, s.disk = mount st.img → Fs.dirlookup ROOTINO f.stored s =
        (Fs.iget inum >>= fun _ => pure (some (inum, slot))) s) ∧
      ((mount st.img).dinode inum).size = f.contents.length ∧
      ∀ off n, off ≤ f.contents.length → off + n < 2 ^ 32 → Fs.readi inum off n (mount st.img) =
        .ok (some ((f.contents.drop off).take n), mount st.img) := by
  have hm : Made files st := mkfs_made (lt_of_le_of_lt (Nat.succ_le_succ hcount) (by decide)) h
  obtain ⟨j, hj, rfl⟩ := List.getElem_of_mem hf
  have hf := List.getElem?_eq_getElem hj
  obtain ⟨after, hslots⟩ := slots_split hm hj
  have hroot : ((mount st.img).dinode ROOTINO).type = .dir := by
    have hlt : ROOTINO < st.freeinode := hm.freeinode ▸ Nat.lt_add_left _ Nat.one_lt_two
    obtain ⟨g, hg, -, htype, -⟩ := hm.inode Nat.one_pos hlt
    cases hg
    exact htype
  have hbefore (i : ℕ) (hi : i ∈ List.range (j + 2)) : i < files.length + 2 ∧
      Fs.namecmp files[j].stored (rootEntry (mount st.img) i).name = false := by
    have hi := List.mem_range.mp hi
    exact ⟨by omega, namecmp_before hm hnodup hnames hf hi⟩
  have hsame : Fs.namecmp files[j].stored (files[j].stored.take DIRSIZ) = true := by
    simp [Fs.namecmp]
  obtain ⟨r, s', hrun, rfl, rfl⟩ := wp_total (searchFrom_spec hm.readable rfl _ after
    (Nat.add_lt_add_right hj 2) hbefore (rootEntry_file hm hf) (Nat.succ_ne_zero _) hsame)
  rw [← hslots] at hrun
  exact ⟨j + 2, j + 2, dirlookup_found hroot hrun, size_file hm hf,
    fun off n hoff hn => readi_file hm hf hoff hn⟩

/-- The file of three bytes is found and read. -/
theorem host_files_found_three_bytes : ∃ st, mkfs [threeBytes] = .ok st ∧ ∃ inum slot,
    (∀ s : Fs.St Unit Blk, s.disk = mount st.img → Fs.dirlookup ROOTINO [97] s =
      (Fs.iget inum >>= fun _ => pure (some (inum, slot))) s) ∧
    Fs.readi inum 1 9 (mount st.img) = .ok (some [2, 3], mount st.img) := by
  obtain ⟨st, h⟩ := mkfs_threeBytes
  obtain ⟨inum, slot, hfound, -, hread⟩ := host_files_found (P := Unit) (by decide) (by decide)
    (fun f hf => by obtain rfl := List.mem_singleton.mp hf; decide) h (List.mem_singleton.mpr rfl)
  exact ⟨st, h, inum, slot, hfound, hread 1 9 (by decide) (by decide)⟩

end Read

end Xv6.Mkfs
