import Xv6.FileData
import Xv6.FsTree
import Xv6.Strings

/-!
The entries of a directory on the blocks of the disk. `dirlookup` searches the list of them and
`dirlink` puts one into it, so that a directory is a finite map from names to inodes. A name is the
first `DIRSIZ` bytes of a string, up to the NUL.
-/

namespace Xv6.Dirents

open Xv6.Fs Xv6.FileData Xv6.Strings Xv6.Lib.Wp Xv6.Lib.Splice

/-! ### Lists of entries -/

section Lists

variable {es : List Dirent} {e o : Dirent} {i j k : ℕ} {name : Name}

/-- No two entries in use have the same name. -/
def Distinct (es : List Dirent) : Prop :=
  ∀ (j k : ℕ) (e o : Dirent), es[j]? = some e → es[k]? = some o → e.inum ≠ 0 → o.inum ≠ 0 →
    namecmp e.name o.name = true → j = k

lemma namecmp_iff {s t : Name} : namecmp s t = true ↔ s.take DIRSIZ = t.take DIRSIZ :=
  decide_eq_true_iff

lemma findFrom_none {k : ℕ} (h : findFrom name k es = none) (he : e ∈ es) (h0 : e.inum ≠ 0) :
    ¬ namecmp name e.name = true := by
  induction es generalizing k with
  | nil => cases he
  | cons o es ih =>
    rw [findFrom] at h
    split_ifs at h with ho
    rcases List.mem_cons.mp he with rfl | he
    · exact fun hn => ho ⟨h0, hn⟩
    · exact ih h he

/-- Where names are distinct, a name is found in the slot it is in. -/
lemma find_iff (hd : Distinct es) : find name es = some (i, k) ↔
    ∃ e, es[k]? = some e ∧ e.inum = i ∧ i ≠ 0 ∧ namecmp name e.name = true := by
  refine ⟨find_some, ?_⟩
  rintro ⟨e, he, rfl, h0, hn⟩
  cases hf : find name es with
  | none => exact absurd hn (findFrom_none hf (List.mem_of_getElem? he) h0)
  | some r =>
    obtain ⟨i, j⟩ := r
    obtain ⟨o, ho, rfl, ho0, hno⟩ := find_some hf
    obtain rfl : j = k := hd j k o e ho he ho0 h0
      (namecmp_iff.mpr ((namecmp_iff.mp hno).symm.trans (namecmp_iff.mp hn)))
    cases ho.symm.trans he
    rfl

lemma getElem?_putSlot (hk : k ≤ es.length) (e : Dirent) (j : ℕ) :
    (putSlot es k e)[j]? = if j = k then some e else es[j]? := by
  unfold putSlot
  by_cases hlt : k < es.length
  · rw [if_pos hlt, List.getElem?_set, if_pos hlt]
    split_ifs with h1 h2 h2 <;> first | rfl | omega
  · obtain rfl : k = es.length := by omega
    rw [if_neg hlt, List.getElem?_append]
    split_ifs with h1 h2 h2
    · omega
    · rfl
    · rw [h2, Nat.sub_self]
      rfl
    · rw [List.getElem?_eq_none (by simp; omega), List.getElem?_eq_none (by omega)]

/-- The new entry has a name of its own. -/
lemma Distinct.put (hd : Distinct es) (hk : k ≤ es.length)
    (hnew : ∀ j o, j ≠ k → es[j]? = some o → e.inum ≠ 0 → o.inum ≠ 0 →
      ¬ namecmp e.name o.name = true) : Distinct (putSlot es k e) := by
  intro j₁ j₂ e₁ e₂ h₁ h₂ h₁0 h₂0 hn
  rw [getElem?_putSlot hk] at h₁ h₂
  split_ifs at h₁ h₂ with hj₁ hj₂ hj₂
  · rw [hj₁, hj₂]
  · cases h₁
    exact absurd hn (hnew j₂ e₂ hj₂ h₂ h₁0 h₂0)
  · cases h₂
    exact absurd (namecmp_iff.mpr (namecmp_iff.mp hn).symm) (hnew j₁ e₁ hj₁ h₁ h₂0 h₁0)
  · exact hd j₁ j₂ e₁ e₂ h₁ h₂ h₁0 h₂0 hn

/-- A name that is neither that of the new entry nor that of the old one is found as before. -/
lemma find_putSlot (hd : Distinct es) (hd' : Distinct (putSlot es k e)) (hk : k ≤ es.length)
    (hold : ∀ o, es[k]? = some o → o.inum ≠ 0 → ¬ namecmp name o.name = true)
    (hnew : e.inum ≠ 0 → ¬ namecmp name e.name = true) :
    find name (putSlot es k e) = find name es := by
  ext ⟨i, j⟩
  rw [find_iff hd, find_iff hd', getElem?_putSlot hk]
  by_cases hj : j = k
  · subst hj
    rw [if_pos rfl]
    constructor
    · rintro ⟨o, ho, rfl, h0, hn⟩
      cases ho
      exact absurd hn (hnew h0)
    · rintro ⟨o, ho, rfl, h0, hn⟩
      exact absurd hn (hold o ho h0)
  · rw [if_neg hj]

lemma freeSlot_le (es : List Dirent) : freeSlot es ≤ es.length := List.findIdx_le_length

/-- An entry with a new name, in the slot that `dirlink` takes. -/
lemma Distinct.enter (hd : Distinct es) (hf : find e.name es = none) :
    Distinct (putSlot es (freeSlot es) e) :=
  hd.put (freeSlot_le es) fun _ _ _ ho _ ho0 => findFrom_none hf (List.mem_of_getElem? ho) ho0

lemma find_enter (hd : Distinct es) (hf : find e.name es = none) (h0 : e.inum ≠ 0) (name : Name) :
    find name (putSlot es (freeSlot es) e) =
      if namecmp name e.name then some (e.inum, freeSlot es) else find name es := by
  have hd' := hd.enter hf
  have hk := freeSlot_le es
  split_ifs with hn
  · rw [find_iff hd', getElem?_putSlot hk, if_pos rfl]
    exact ⟨e, rfl, rfl, h0, hn⟩
  · refine find_putSlot hd hd' hk (fun o ho ho0 => absurd ?_ ho0) fun _ => hn
    obtain ⟨hlt, rfl⟩ := List.getElem?_eq_some_iff.mp ho
    exact freeSlot_free hlt

/-- An entry that is cleared. -/
lemma Distinct.clear (hd : Distinct es) (hk : k ≤ es.length) (h0 : e.inum = 0) :
    Distinct (putSlot es k e) :=
  hd.put hk fun _ _ _ _ he0 => absurd h0 he0

lemma find_clear (hd : Distinct es) (ho : es[k]? = some o) (ho0 : o.inum ≠ 0) (h0 : e.inum = 0)
    (name : Name) : find name (putSlot es k e) =
      if namecmp name o.name then none else find name es := by
  have hk : k ≤ es.length := (List.getElem?_eq_some_iff.mp ho).1.le
  have hd' := hd.clear hk h0
  split_ifs with hn
  · -- another entry with the name would have been in the same slot
    refine Option.eq_none_iff_forall_not_mem.mpr ?_
    rintro ⟨i, j⟩ hf
    obtain ⟨o', ho', rfl, ho0', hn'⟩ := (find_iff hd').mp hf
    rw [getElem?_putSlot hk] at ho'
    split_ifs at ho' with hj
    · cases ho'
      exact ho0' h0
    · exact hj (hd j k o' o ho' ho ho0' ho0
        (namecmp_iff.mpr ((namecmp_iff.mp hn').symm.trans (namecmp_iff.mp hn))))
  · refine find_putSlot hd hd' hk (fun o' ho' _ => ?_) fun he0 => absurd h0 he0
    cases ho.symm.trans ho'
    exact hn

end Lists

/-! ### One entry -/

section Entry

/-- `struct dirent` with the name of a string. -/
lemma encode_cstr (inum : ℕ) (name : CharPtr) : encode ⟨inum, cstr name DIRSIZ⟩ =
    [UInt8.ofNat inum, UInt8.ofNat (inum / 2 ^ 8)] ++ strncpy name DIRSIZ := by
  rw [encode, strncpy_eq, List.take_of_length_le (length_cstr_le _ _)]

lemma decode_encode {inum : ℕ} (h : inum < 2 ^ 16) (name : CharPtr) :
    decode (encode ⟨inum, cstr name DIRSIZ⟩) = ⟨inum, cstr name DIRSIZ⟩ := by
  rw [encode_cstr, decode]
  have hinum : (UInt8.ofNat inum).toNat + 2 ^ 8 * (UInt8.ofNat (inum / 2 ^ 8)).toNat = inum := by
    simp only [UInt8.toNat_ofNat']
    omega
  simp only [List.cons_append, List.nil_append, List.getD_cons_zero, List.getD_cons_succ,
    List.drop_succ_cons, List.drop_zero]
  rw [hinum, List.take_of_length_le (length_strncpy _ _).le, takeWhile_strncpy]

/-- The names that `dirlookup` compares. -/
lemma namecmp_cstr (p q : CharPtr) :
    namecmp (cstr p DIRSIZ) (cstr q DIRSIZ) = true ↔ strncmp p q DIRSIZ = 0 := by
  rw [namecmp_iff, strncmp_eq_zero, List.take_of_length_le (length_cstr_le _ _),
    List.take_of_length_le (length_cstr_le _ _)]

/-- `namecmp(name, de.name) == 0`, on the bytes of an entry. -/
lemma namecmp_decode (name : CharPtr) (bytes : List UInt8) :
    namecmp (cstr name DIRSIZ) (decode bytes).name = true ↔
      strncmp name (inBuf (bytes.drop 2)) DIRSIZ = 0 := by
  have hname : (decode bytes).name = cstr (inBuf (bytes.drop 2)) DIRSIZ := (cstr_inBuf _ _).symm
  rw [hname, namecmp_cstr]

end Entry

/-! ### The entries on the disk -/

/-- Entry `k` of a directory. -/
def entry (s : Blk) (dp k : ℕ) : Dirent := decode (s.bytes dp (k * DIRENT) DIRENT)

/-- The whole entries. -/
def ents (s : Blk) (dp : ℕ) : List Dirent :=
  (List.range ((s.dinode dp).size / DIRENT)).map (entry s dp)

section Disk

variable {s s' : Blk} {dp k n : ℕ} {name : Name} {p : Panic}

@[simp] lemma length_ents (s : Blk) (dp : ℕ) :
    (ents s dp).length = (s.dinode dp).size / DIRENT := by
  simp [ents]

lemma getElem?_ents (s : Blk) (dp k : ℕ) :
    (ents s dp)[k]? = if k < (s.dinode dp).size / DIRENT then some (entry s dp k) else none := by
  unfold ents
  rw [List.getElem?_map]
  split_ifs with hk
  · rw [List.getElem?_range hk, Option.map_some]
  · rw [List.getElem?_eq_none (by simpa using hk), Option.map_none]

/-- All blocks of a file have slots. -/
lemma size_le (hs : Sound s) (hi : s.Allocated dp) : (s.dinode dp).size ≤ MAXFILE * BSIZE := by
  by_contra hlt
  refine hs.mapped dp hi MAXFILE (not_le.mp hlt) ?_
  have hslot : fileSlot MAXFILE = .entry NINDIRECT := by decide
  rw [hslot, Blk.named, if_neg fun h => absurd h.2.1 (lt_irrefl _)]

/-- An entry that ends behind the file is a short read. -/
lemma readEnt_run (hs : Sound s) (hheld : s.held = []) (hi : s.Allocated dp)
    (hk : k * DIRENT < (s.dinode dp).size) (p : Panic) : readEnt dp k p s =
      if (k + 1) * DIRENT ≤ (s.dinode dp).size then .ok (entry s dp k, s)
      else .error (.panic p) := by
  have hsize := size_le hs hi
  simp only [show MAXFILE * BSIZE = 71680 from rfl, show DIRENT = 16 from rfl] at hk hsize ⊢
  obtain ⟨_, _, hrun, hr, ht⟩ := wp_total (hs.readi (k * DIRENT) DIRENT hi hheld)
  rw [hr, ht] at hrun
  unfold readEnt
  rw [run_bind hrun, readResult, if_neg]
  · have hlen (m : ℕ) : (s.bytes dp (k * DIRENT) m).length = m := by simp [Blk.bytes]
    dsimp only
    rw [hlen]
    simp only [show DIRENT = 16 from rfl]
    split_ifs with h1 h2 h2
    · rw [h1]
      rfl
    · omega
    · omega
    · rfl
  · simp only [show DIRENT = 16 from rfl]
    omega

/-- The entries from `k` to `k + n` are searched. -/
lemma searchFrom_range (hs : Sound s) (hheld : s.held = []) (hi : s.Allocated dp) (n k : ℕ)
    (hn : (k + n) * DIRENT ≤ (s.dinode dp).size) (ks : List ℕ) :
    searchFrom dp name (List.range' k n ++ ks) s =
      match findFrom name k ((List.range' k n).map (entry s dp)) with
      | some r => .ok (some r, s)
      | none => searchFrom dp name ks s := by
  induction n generalizing k with
  | zero => rfl
  | succ n ih =>
    have hle : (k + 1) * DIRENT ≤ (s.dinode dp).size := by
      simp only [show DIRENT = 16 from rfl] at hn ⊢
      omega
    have hrun := readEnt_run hs hheld hi (k := k)
      (by simp only [show DIRENT = 16 from rfl] at hle ⊢; omega) .dirlookupRead
    rw [if_pos hle] at hrun
    rw [List.range'_succ, List.cons_append, searchFrom, run_bind hrun, List.map_cons, findFrom]
    split_ifs
    · rfl
    · exact ih (k + 1) (by rwa [Nat.add_right_comm, Nat.add_assoc])

/-- The number of slots that are looked at. -/
lemma slots_eq (x : Dinode) : slots x = List.range' 0 (x.size / DIRENT) ++
    if x.size % DIRENT = 0 then [] else [x.size / DIRENT] := by
  unfold slots
  simp only [show DIRENT = 16 from rfl]
  split_ifs with h
  · rw [List.append_nil, ← List.range_eq_range']
    congr 1
    omega
  · rw [← List.range_eq_range', ← List.range_succ]
    congr 1
    omega

/-- **The search.** It finds what is in the list of entries. When it comes to the end of a directory
whose last entry is cut off, it panics. -/
lemma search_run (hs : Sound s) (hheld : s.held = []) (hi : s.Allocated dp) (name : Name) :
    (Files.search dp name : DiskM Blk _) s =
      match find name (ents s dp) with
      | some r => .ok (some r, s)
      | none => if (s.dinode dp).size % DIRENT = 0 then .ok (none, s)
        else .error (.panic .dirlookupRead) := by
  have hle : (0 + (s.dinode dp).size / DIRENT) * DIRENT ≤ (s.dinode dp).size := by
    rw [Nat.zero_add]
    exact Nat.div_mul_le_self _ _
  change searchFrom dp name (slots (s.dinode dp)) s = _
  rw [slots_eq, searchFrom_range hs hheld hi _ _ hle, ← List.range_eq_range']
  change (match find name (ents s dp) with | some r => _ | none => _) = _
  cases find name (ents s dp) with
  | some r => rfl
  | none =>
    dsimp only
    split_ifs with hmod
    · rfl
    · have hrun := readEnt_run hs hheld hi (k := (s.dinode dp).size / DIRENT)
        (by simp only [show DIRENT = 16 from rfl] at hmod ⊢; omega) .dirlookupRead
      rw [if_neg (by simp only [show DIRENT = 16 from rfl] at hmod ⊢; omega)] at hrun
      exact run_bind_error hrun

lemma freeSlot_cons (e : Dirent) (es : List Dirent) :
    freeSlot (e :: es) = if e.inum = 0 then 0 else freeSlot es + 1 := by
  unfold freeSlot
  rw [List.findIdx_cons]
  by_cases h : e.inum = 0 <;> simp [h]

/-- The first of the entries from `k` to `k + n` that is free, or the one behind them. -/
lemma slotFrom_range (hs : Sound s) (hheld : s.held = []) (hi : s.Allocated dp) (n k : ℕ)
    (hn : (k + n) * DIRENT ≤ (s.dinode dp).size) :
    slotFrom dp (k + n) (List.range' k n) s =
      .ok (k + freeSlot ((List.range' k n).map (entry s dp)), s) := by
  induction n generalizing k with
  | zero => rfl
  | succ n ih =>
    have hle : (k + 1) * DIRENT ≤ (s.dinode dp).size := by
      simp only [show DIRENT = 16 from rfl] at hn ⊢
      omega
    have hrun := readEnt_run hs hheld hi (k := k)
      (by simp only [show DIRENT = 16 from rfl] at hle ⊢; omega) .dirlinkRead
    rw [if_pos hle] at hrun
    rw [List.range'_succ, slotFrom, run_bind hrun, List.map_cons, freeSlot_cons]
    split_ifs
    · rfl
    · have hnext := ih (k + 1) (by rwa [Nat.add_right_comm, Nat.add_assoc])
      rw [Nat.add_right_comm, Nat.add_assoc] at hnext
      rw [hnext]
      congr 2
      omega

/-- `dirlink` finds the slot it writes to. -/
lemma slotFrom_run (hs : Sound s) (hheld : s.held = []) (hi : s.Allocated dp)
    (hmod : (s.dinode dp).size % DIRENT = 0) :
    slotFrom dp (slots (s.dinode dp)).length (slots (s.dinode dp)) s =
      .ok (freeSlot (ents s dp), s) := by
  have hle : (0 + (s.dinode dp).size / DIRENT) * DIRENT ≤ (s.dinode dp).size := by
    rw [Nat.zero_add]
    exact Nat.div_mul_le_self _ _
  have hrun := slotFrom_range hs hheld hi _ _ hle
  rw [slots_eq, if_pos hmod, List.append_nil, List.length_range', ← List.range_eq_range']
  rwa [Nat.zero_add, Nat.zero_add, ← List.range_eq_range'] at hrun

/-! ### Writing an entry -/

variable {bytes : List UInt8} {e : Dirent}

lemma bytes_written (h : Written s dp (k * DIRENT) bytes s') (hlen : bytes.length = DIRENT)
    (j : ℕ) : s'.bytes dp (j * DIRENT) DIRENT =
      if j = k then bytes else s.bytes dp (j * DIRENT) DIRENT := by
  apply List.ext_getElem?
  intro l
  by_cases hl : l < DIRENT
  · rw [getElem?_bytes, if_pos hl, h.byte, overwrite, hlen]
    by_cases hj : j = k
    · subst hj
      have hl' : l < bytes.length := by omega
      rw [if_pos ⟨rfl, by omega, by omega⟩, if_pos rfl, Nat.add_sub_cancel_left]
      simp [hl']
    · have hout : ¬ (k * DIRENT ≤ j * DIRENT + l ∧ j * DIRENT + l < k * DIRENT + DIRENT) := by
        simp only [show DIRENT = 16 from rfl] at hl ⊢
        omega
      rw [if_neg fun hc => hout hc.2, if_neg hj, getElem?_bytes, if_pos hl]
  · have hnone {bs : List UInt8} (hbs : bs.length = DIRENT) : bs[l]? = none :=
      List.getElem?_eq_none (by omega)
    have hb (t : Blk) : (t.bytes dp (j * DIRENT) DIRENT).length = DIRENT := by simp [Blk.bytes]
    rw [hnone (hb s')]
    split_ifs
    · rw [hnone hlen]
    · rw [hnone (hb s)]

/-- The slot is one of those there are, or the next. -/
def IsSlot (s : Blk) (dp k : ℕ) : Prop :=
  k < (s.dinode dp).size / DIRENT ∨
    k = (s.dinode dp).size / DIRENT ∧ (s.dinode dp).size % DIRENT = 0

lemma size_written (h : Written s dp (k * DIRENT) bytes s') (hlen : bytes.length = DIRENT)
    (hk : IsSlot s dp k) : (s'.dinode dp).size % DIRENT = (s.dinode dp).size % DIRENT ∧
      (s'.dinode dp).size / DIRENT = max ((s.dinode dp).size / DIRENT) (k + 1) := by
  obtain ⟨addrs, hself⟩ := h.self
  rw [hself, hlen]
  unfold IsSlot at hk
  simp only [show DIRENT = 16 from rfl] at *
  omega

/-- An entry is written. -/
lemma ents_written (h : Written s dp (k * DIRENT) bytes s') (hlen : bytes.length = DIRENT)
    (hk : IsSlot s dp k) : ents s' dp = putSlot (ents s dp) k (decode bytes) := by
  have hle : k ≤ (ents s dp).length := by
    rw [length_ents]
    unfold IsSlot at hk
    omega
  apply List.ext_getElem?
  intro j
  rw [getElem?_putSlot hle, getElem?_ents, getElem?_ents, (size_written h hlen hk).2, entry,
    bytes_written h hlen]
  unfold IsSlot at hk
  by_cases hj : j = k
  · rw [if_pos hj, if_pos (by omega), if_pos hj]
  · rw [if_neg hj, if_neg hj]
    split_ifs with h1 h2 h2 <;> first | rfl | omega

lemma type_written (h : Written s dp (k * DIRENT) bytes s') :
    (s'.dinode dp).type = (s.dinode dp).type := by
  obtain ⟨addrs, hself⟩ := h.self
  rw [hself]

/-- What is known of a directory. -/
structure Dir (s : Blk) (dp : ℕ) : Prop where
  sound : Sound s
  held : s.held = []
  allocated : s.Allocated dp
  dir : (s.dinode dp).type = .dir

lemma Dir.written (h : Dir s dp) (hw : Written s dp (k * DIRENT) bytes s') (hs : Sound s')
    (hheld : s'.held = []) : Dir s' dp :=
  ⟨hs, hheld, allocated_written hw h.allocated, (type_written hw).trans h.dir⟩

/-- An entry that has been written to a slot. -/
structure Put (s : Blk) (dp k : ℕ) (bytes : List UInt8) (s' : Blk) : Prop where
  written : Written s dp (k * DIRENT) bytes s'
  dir : Dir s' dp
  ents : ents s' dp = putSlot (ents s dp) k (decode bytes)
  size : (s'.dinode dp).size % DIRENT = (s.dinode dp).size % DIRENT

lemma writeEnt_spec (h : Dir s dp) (hlen : bytes.length = DIRENT) (hk : IsSlot s dp k) :
    wp (writeEnt dp k bytes) (fun r s' => r = true → Put s dp k bytes s') (fun _ => True) s := by
  have hspec := wp_and (writei_spec bytes h.sound h.allocated)
    (holding_writei dp (k * DIRENT) bytes s h.held)
  refine wp_bind (wp_mono hspec ?_ fun _ _ => trivial)
  rintro r s' ⟨⟨hs', hres⟩, hheld⟩
  refine wp_pure fun hr => ?_
  obtain rfl : r = some DIRENT := of_decide_eq_true hr
  obtain ⟨-, hw⟩ : _ ∧ Written s dp (k * DIRENT) bytes s' := hres
  exact ⟨hw, h.written hw hs' hheld, ents_written hw hlen hk, (size_written hw hlen hk).1⟩

/-- An entry is within one block, so that it is written at once where there is one. -/
lemma writeEnt_total (h : Dir s dp) (hlen : bytes.length = DIRENT)
    (hk : k < (s.dinode dp).size / DIRENT) : ∃ s', writeEnt dp k bytes s = .ok (true, s') := by
  have hsize := size_le h.sound h.allocated
  have hlt : k * DIRENT / BSIZE * BSIZE < (s.dinode dp).size := by
    simp only [show DIRENT = 16 from rfl, show BSIZE = 512 from rfl] at hk ⊢
    omega
  obtain ⟨addr, ha⟩ :=
    Option.ne_none_iff_exists'.mp (h.sound.mapped dp h.allocated (k * DIRENT / BSIZE) hlt)
  have hmod : k * DIRENT % BSIZE + DIRENT ≤ BSIZE := by
    simp only [show DIRENT = 16 from rfl, show BSIZE = 512 from rfl]
    omega
  have hwrite : wp (writeBytes dp (k * DIRENT) bytes)
      (fun last _ => last = k * DIRENT + DIRENT) (fun _ => False) s := by
    rw [writeBytes]
    refine wp_ite (fun h0 => absurd (hlen.symm.trans h0) (by decide)) fun _ => ?_
    refine wp_bind (wp_mono (bmap_mapped ha h.held) ?_ fun _ => id)
    rintro a t ⟨rfl, rfl⟩
    refine wp_bind (wp_bread_free (by simp [h.held]) (wp_bind (wp_modify ?_)))
    refine wp_bind (wp_modify (wp_bind (wp_brelse rfl ?_)))
    rw [hlen, min_eq_left (by omega), writeBytes]
    exact wp_ite (fun _ => wp_pure rfl) fun h0 => absurd (by simp [hlen]) h0
  have hspec : wp (writeEnt dp k bytes) (fun r _ => r = true) (fun _ => False) s := by
    refine wp_bind ?_
    unfold Blk.writei
    simp only [show DIRENT = 16 from rfl, show MAXFILE * BSIZE = 71680 from rfl] at *
    refine wp_bind (wp_get (wp_ite (fun hoff => ?_) fun _ => wp_ite (fun hmax => ?_) fun _ => ?_))
    · exfalso
      omega
    · exfalso
      omega
    refine wp_bind (wp_mono hwrite (fun last t hlast => ?_) fun _ => id)
    refine wp_ite (fun hlong => ?_) fun _ => ?_
    · exfalso
      omega
    · refine wp_pure (wp_pure ?_)
      rw [hlen]
      rfl
  obtain ⟨r, s', hrun, rfl⟩ := wp_total hspec
  exact ⟨s', hrun⟩

@[simp] lemma length_encode (e : Dirent) : (encode e).length = DIRENT := by
  unfold encode
  rw [List.length_append, List.length_append, List.length_take, List.length_replicate]
  simp only [List.length_cons, List.length_nil, show DIRSIZ = 14 from rfl,
    show DIRENT = 16 from rfl]
  omega

lemma isSlot_freeSlot (hmod : (s.dinode dp).size % DIRENT = 0) :
    IsSlot s dp (freeSlot (ents s dp)) := by
  have hle := freeSlot_le (ents s dp)
  rw [length_ents] at hle
  exact hle.lt_or_eq.imp_right fun heq => ⟨heq, hmod⟩

/-- `dirlink` writes the entry to the first slot that is free, or behind the last. -/
lemma enter_spec (h : Dir s dp) (hmod : (s.dinode dp).size % DIRENT = 0) (e : Dirent) :
    wp (Files.enter dp e : DiskM Blk Bool)
      (fun r s' => r = true → Put s dp (freeSlot (ents s dp)) (encode e) s') (fun _ => True) s := by
  refine wp_bind (wp_get (wp_bind ?_))
  refine wp_of_ok (slotFrom_run h.sound h.held h.allocated hmod) ?_
  exact writeEnt_spec h (length_encode e) (isSlot_freeSlot hmod)

end Disk

/-! ### The directory as a map -/

section Calls

variable {P : Type} {s s' : St P Blk} {d : Blk} {dp i k inum : ℕ} {name : Name}

lemma onDisk_ok {α : Type} {x : DiskM Blk α} {a : α} (h : x s.disk = .ok (a, d)) :
    onDisk x s = .ok (a, { s with disk := d }) := by
  unfold onDisk
  rw [run_bind rfl, h]
  rfl

lemma onDisk_error {α : Type} {x : DiskM Blk α} {e : Stop} (h : x s.disk = .error e) :
    onDisk x s = .error e := by
  unfold onDisk
  rw [run_bind rfl, h]
  rfl

/-- What `dirlookup` makes of an entry that it has found, or not. -/
def answer : Option (ℕ × ℕ) → FsM P Blk (Option (ℕ × ℕ))
  | some (i, k) => do
    iget i
    pure (some (i, k))
  | none => pure none

lemma dirlookup_run (h : Dir s.disk dp) (name : Name) : dirlookup dp name s =
    if find name (ents s.disk dp) = none ∧ (s.disk.dinode dp).size % DIRENT ≠ 0 then
      .error (.panic .dirlookupRead) else answer (find name (ents s.disk dp)) s := by
  have hsearch := search_run h.sound h.held h.allocated name
  have hdir : ¬ (Files.info s.disk dp).type ≠ .dir := not_not.mpr h.dir
  unfold dirlookup
  rw [run_bind (m := inode dp) rfl, if_neg hdir]
  cases hf : find name (ents s.disk dp) with
  | some r =>
    rw [hf] at hsearch
    rw [run_bind (onDisk_ok hsearch), if_neg fun hc => nomatch hc.1]
    rfl
  | none =>
    rw [hf] at hsearch
    dsimp only at hsearch
    split_ifs at hsearch with hmod
    · rw [run_bind (onDisk_ok hsearch), if_neg fun hc => hc.2 hmod]
      rfl
    · rw [run_bind_error (onDisk_error hsearch), if_pos ⟨rfl, hmod⟩]

/-- `iput` of an inode that has just been found frees nothing: it is not the last reference, or the
inode has not been read. -/
lemma wp_iput_found {pr : Procs P} {c : Cache} {Q : Unit → St P Blk → Prop}
    (h : ∀ c', Q () ⟨d, pr, c'⟩) : wp (iput i) Q (fun _ => True) ⟨d, pr, c.hold i⟩ := by
  have hkeep : ¬ ((c.hold i).valid i = true ∧ (c.hold i).ref i = 1) := by
    unfold Cache.hold
    split_ifs with hi
    · simp only [Cache.setRef, Function.update_self]
      omega
    · simp [Cache.setRef, Cache.setValid]
  unfold iput acquiresleep releasesleep
  refine wp_bind (wp_bind (wp_get (wp_ite (fun _ => wp_throw trivial) fun _ => wp_setCache ?_)))
  refine wp_bind (wp_get (wp_bind (wp_inode ?_)))
  refine wp_ite (fun hc => absurd ⟨hc.1, hc.2.2⟩ hkeep) fun _ => wp_bind (wp_setCache ?_)
  exact wp_setCache (h _)

/-- **`dirlink`.** A name that is there already is left alone; another is entered. -/
lemma dirlink_spec (h : Dir s.disk dp) (name : Name) (inum : ℕ) :
    wp (dirlink dp name inum) (fun r s' => find name (ents s.disk dp) = none ∧ r = 0 ∧
          Put s.disk dp (freeSlot (ents s.disk dp)) (encode ⟨inum % 2 ^ 16, name.take DIRSIZ⟩)
            s'.disk ∧ (s.disk.dinode dp).size % DIRENT = 0 ∨
        find name (ents s.disk dp) ≠ none ∧ r = -1 ∧ s'.disk = s.disk) (fun _ => True) s := by
  obtain ⟨d, pr, c⟩ := s
  have hrun := dirlookup_run h name
  unfold dirlink
  refine wp_bind ?_
  unfold wp
  rw [hrun]
  split_ifs with hpanic
  · trivial
  · change wp (answer _) _ _ _
    cases hf : find name (ents d dp) with
    | none =>
      have hmod := not_not.mp fun hc => hpanic ⟨hf, hc⟩
      refine wp_pure (wp_bind (wp_onDisk (wp_mono (enter_spec h hmod _) ?_ fun _ _ => trivial)))
      intro r d' hput
      refine wp_ite (fun hr => wp_pure (.inl ⟨rfl, rfl, hput hr, hmod⟩)) fun _ => wp_throw trivial
    | some r =>
      obtain ⟨i, k⟩ := r
      refine wp_bind (wp_bind (wp_get (wp_ite (fun _ => wp_throw trivial) fun _ => wp_setCache ?_)))
      refine wp_pure (wp_bind (wp_iput_found fun c' => wp_pure (.inr ⟨nofun, rfl, rfl⟩)))

/-- `dirlookup` returns the inode and the slot, whatever is in the cache, as long as that has room
for the inode. -/
def Yields (P : Type) (d : Blk) (dp : ℕ) (name : CharPtr) (r : Option (ℕ × ℕ)) : Prop :=
  ∀ s : St P Blk, s.disk = d → dirlookup dp (cstr name DIRSIZ) s = answer r s

lemma answer_inj {r r' : Option (ℕ × ℕ)} {pr : Procs P}
    (h : answer r ⟨d, pr, ⟨fun _ => 0, fun _ => false, fun _ => false, 1⟩⟩ =
      answer r' ⟨d, pr, ⟨fun _ => 0, fun _ => false, fun _ => false, 1⟩⟩) : r = r' := by
  have hrun (r : Option (ℕ × ℕ)) : ∃ t : St P Blk,
      answer r ⟨d, pr, ⟨fun _ => 0, fun _ => false, fun _ => false, 1⟩⟩ = .ok (r, t) := by
    rcases r with _ | ⟨i, k⟩
    · exact ⟨_, rfl⟩
    · exact ⟨_, rfl⟩
  obtain ⟨t, ht⟩ := hrun r
  obtain ⟨t', ht'⟩ := hrun r'
  rw [ht, ht'] at h
  exact (Prod.mk.inj (Except.ok.inj h)).1

lemma yields_iff (h : Dir d dp) (pr : Procs P) (q : CharPtr) (r : Option (ℕ × ℕ)) :
    Yields P d dp q r ↔ find (cstr q DIRSIZ) (ents d dp) = r ∧
      (r = none → (d.dinode dp).size % DIRENT = 0) := by
  constructor
  · intro hy
    have hrun := hy ⟨d, pr, ⟨fun _ => 0, fun _ => false, fun _ => false, 1⟩⟩ rfl
    rw [dirlookup_run h] at hrun
    dsimp only at hrun
    split_ifs at hrun with hpanic
    · rcases r with _ | ⟨i, k⟩ <;> cases hrun
    · obtain rfl := answer_inj hrun
      exact ⟨rfl, fun hnone => not_not.mp fun hc => hpanic ⟨hnone, hc⟩⟩
  · rintro ⟨rfl, hmod⟩ s rfl
    rw [dirlookup_run h, if_neg]
    exact fun hc => hc.2 (hmod hc.1)

/-- A name that is found as before. -/
lemma yields_congr {d' : Blk} (h : Dir d dp) (h' : Dir d' dp) (pr : Procs P) {q : CharPtr}
    (hsize : (d'.dinode dp).size % DIRENT = (d.dinode dp).size % DIRENT)
    (hf : find (cstr q DIRSIZ) (ents d' dp) = find (cstr q DIRSIZ) (ents d dp))
    (r : Option (ℕ × ℕ)) : Yields P d' dp q r ↔ Yields P d dp q r := by
  rw [yields_iff h' pr, yields_iff h pr, hf, hsize]

/-- **A directory is a finite map.** In a directory with distinct names, on a disk whose blocks are
accounted for: after a `dirlink` that returned `0` the name is found, with the number it was given,
and every other name as before; only one slot has changed. A name that was there already makes it
return `-1` and leave the disk as it is. Clearing the slot where `dirlookup` has found a name always
succeeds and removes that name and no other. -/
theorem directory_map (h : Accounted s.disk) (hlow : s.disk.LowUsed)
    (hfits : s.disk.sb.size < 2 ^ 32) (hheld : s.disk.held = []) (hdp : s.disk.Allocated dp)
    (hdir : (s.disk.dinode dp).type = .dir) (hd : Distinct (ents s.disk dp)) :
    (∀ name inum s', 0 < inum → inum < 2 ^ 16 → dirlink dp (cstr name DIRSIZ) inum s = .ok (0, s') →
      ∃ k, (∀ q, strncmp q name DIRSIZ = 0 → Yields P s'.disk dp q (some (inum, k))) ∧
        (∀ q, strncmp q name DIRSIZ ≠ 0 → ∀ r, Yields P s'.disk dp q r ↔ Yields P s.disk dp q r) ∧
        Distinct (ents s'.disk dp) ∧ ∀ j, j ≠ k → (ents s'.disk dp)[j]? = (ents s.disk dp)[j]?) ∧
    (∀ (name : CharPtr) e inum r s', e ∈ ents s.disk dp → e.inum ≠ 0 →
      namecmp (cstr name DIRSIZ) e.name = true →
      dirlink dp (cstr name DIRSIZ) inum s = .ok (r, s') → r = -1 ∧ s'.disk = s.disk) ∧
    ∀ name i k, Yields P s.disk dp name (some (i, k)) →
      ∃ d', (Files.clear dp k : DiskM Blk Bool) s.disk = .ok (true, d') ∧
        (∀ q, strncmp q name DIRSIZ = 0 → (∀ r, Yields P d' dp q r → r = none) ∧
          ((s.disk.dinode dp).size % DIRENT = 0 → Yields P d' dp q none)) ∧
        (∀ q, strncmp q name DIRSIZ ≠ 0 → ∀ r, Yields P d' dp q r ↔ Yields P s.disk dp q r) ∧
        Distinct (ents d' dp) ∧ ∀ j, j ≠ k → (ents d' dp)[j]? = (ents s.disk dp)[j]? := by
  have hD : Dir s.disk dp := ⟨⟨⟨h.exact, hlow, hfits⟩, h.mapped⟩, hheld, hdp, hdir⟩
  refine ⟨fun name inum s' hpos hlt hrun => ?_, fun name e inum r s' he h0 hn hrun => ?_,
    fun name i k hy => ?_⟩
  · obtain ⟨hnone, -, hput, hmod⟩ := (wp_ok (dirlink_spec hD _ _) hrun).resolve_right
      fun hc => absurd hc.2.1 (by decide)
    have hents := hput.ents
    rw [Nat.mod_eq_of_lt hlt, List.take_of_length_le (length_cstr_le _ _), decode_encode hlt]
      at hents
    have hfind := find_enter (e := ⟨inum, cstr name DIRSIZ⟩) hd hnone hpos.ne'
    refine ⟨freeSlot (ents s.disk dp), fun q hq => ?_, fun q hq => ?_, ?_, fun j hj => ?_⟩
    · rw [yields_iff hput.dir s.procs, hents, hfind, if_pos ((namecmp_cstr q name).mpr hq)]
      exact ⟨rfl, nofun⟩
    · refine yields_congr hD hput.dir s.procs hput.size ?_
      rw [hents, hfind, if_neg fun hc => hq ((namecmp_cstr q name).mp hc)]
    · rw [hents]
      exact hd.enter hnone
    · rw [hents, getElem?_putSlot (freeSlot_le _), if_neg hj]
  · rcases wp_ok (dirlink_spec hD _ _) hrun with ⟨hnone, -⟩ | ⟨-, hr, hdisk⟩
    · exact absurd hn (findFrom_none hnone he h0)
    · exact ⟨hr, hdisk⟩
  · obtain ⟨hf, -⟩ := (yields_iff hD s.procs name _).mp hy
    obtain ⟨o, ho, rfl, ho0, hno⟩ := find_some hf
    have hk : k < (s.disk.dinode dp).size / DIRENT := by
      have := (List.getElem?_eq_some_iff.mp ho).1
      rwa [length_ents] at this
    have hlen : (List.replicate DIRENT (0 : UInt8)).length = DIRENT := List.length_replicate
    obtain ⟨d', hrun⟩ := writeEnt_total hD hlen hk
    have hput := wp_ok (writeEnt_spec hD hlen (.inl hk)) hrun rfl
    have hzero : (decode (List.replicate DIRENT (0 : UInt8))).inum = 0 := by decide
    have hle : k ≤ (ents s.disk dp).length := by
      rw [length_ents]
      exact hk.le
    have hfind := find_clear hd ho ho0 hzero
    have hsame (q : CharPtr) :
        namecmp (cstr q DIRSIZ) o.name = true ↔ strncmp q name DIRSIZ = 0 := by
      rw [← namecmp_cstr, namecmp_iff, namecmp_iff, (namecmp_iff.mp hno)]
    refine ⟨d', hrun, fun q hq => ?_, fun q hq => ?_, ?_, fun j hj => ?_⟩
    · have hgone : find (cstr q DIRSIZ) (ents d' dp) = none := by
        rw [hput.ents, hfind, if_pos ((hsame q).mpr hq)]
      refine ⟨fun r hr => ?_, fun hmod => ?_⟩
      · exact ((yields_iff hput.dir s.procs q r).mp hr).1.symm.trans hgone
      · exact (yields_iff hput.dir s.procs q none).mpr ⟨hgone, fun _ => hput.size.trans hmod⟩
    · refine yields_congr hD hput.dir s.procs hput.size ?_
      rw [hput.ents, hfind, if_neg fun hc => hq ((hsame q).mp hc)]
    · rw [hput.ents]
      exact hd.clear hle hzero
    · rw [hput.ents, getElem?_putSlot hle, if_neg hj]

/-- An empty directory, in use by one process. -/
def emptyDir : St Unit Blk where
  disk := {
    sb := ⟨6, 2, 2, 3⟩
    used := fun b => b < 4
    dinode := fun i => if i = ROOTINO then .new .dir else .new .free
    block := fun _ _ => 0
    held := [] }
  procs := ⟨fun _ => ROOTINO, fun _ _ => none, NFILE, 0⟩
  cache :=
    ⟨fun i => if i = ROOTINO then 1 else 0, fun i => i == ROOTINO, fun _ => false, NINODE - 1⟩

lemma dir_emptyDir : Accounted emptyDir.disk ∧ emptyDir.disk.LowUsed := by
  refine ⟨accounted_of_empty (fun i k => ?_) (fun i => ?_) fun b hb =>
    decide_eq_false (not_lt.mpr hb.1), fun b hb _ => decide_eq_true hb⟩ <;>
  · simp only [emptyDir]
    split_ifs <;> rfl

/-- The string `"a"`. -/
def nameA : CharPtr := inBuf [97]

/-- An entry in an empty directory. -/
theorem directory_map_first : ∃ s' k, dirlink ROOTINO (cstr nameA DIRSIZ) 5 emptyDir = .ok (0, s') ∧
    Yields Unit s'.disk ROOTINO nameA (some (5, k)) := by
  have hv : (dirlink ROOTINO (cstr nameA DIRSIZ) 5 emptyDir).toOption.map Prod.fst = some 0 := by
    decide +kernel
  obtain ⟨⟨r, s'⟩, hs, hr⟩ := Option.map_eq_some_iff.mp hv
  obtain rfl : r = 0 := hr
  have hrun := ok_of_toOption hs
  obtain ⟨hacc, hlow⟩ := dir_emptyDir
  have hd : Distinct (ents emptyDir.disk ROOTINO) := fun j k e o he => nomatch he
  obtain ⟨k, hsame, -⟩ := (directory_map hacc hlow (by decide) rfl (by decide) rfl hd).1 nameA 5 s'
    (by decide) (by decide) hrun
  exact ⟨s', k, hrun, hsame nameA (strncmp_eq_zero.mpr rfl)⟩

/-- The number of an entry is a `ushort`: an `inum` of `65536` is stored as `0`. -/
theorem directory_map_ushort :
    (Accounted emptyDir.disk ∧ emptyDir.disk.LowUsed ∧ Distinct (ents emptyDir.disk ROOTINO)) ∧
    ∃ s', dirlink ROOTINO (cstr nameA DIRSIZ) 65536 emptyDir = .ok (0, s') ∧
      (dirlookup ROOTINO (cstr nameA DIRSIZ) s').toOption.map Prod.fst = some none := by
  have hv : (dirlink ROOTINO (cstr nameA DIRSIZ) 65536 emptyDir).toOption.map (fun r =>
      (r.1, (dirlookup ROOTINO (cstr nameA DIRSIZ) r.2).toOption.map Prod.fst)) =
      some (0, some none) := by
    decide +kernel
  obtain ⟨⟨r, s'⟩, hs, hv⟩ := Option.map_eq_some_iff.mp hv
  obtain ⟨hr, hlook⟩ := Prod.mk.inj hv
  obtain rfl : r = 0 := hr
  have hd : Distinct (ents emptyDir.disk ROOTINO) := fun j k e o he => nomatch he
  exact ⟨⟨dir_emptyDir.1, dir_emptyDir.2, hd⟩, s', ok_of_toOption hs, hlook⟩

end Calls

end Xv6.Dirents
