import Mathlib.Data.List.DropRight
import Xv6.FsDisk

/-!
What the functions on inodes do to the cache: a call holds some inodes for itself, besides those
that processes hold, and some of their locks. Paths are resolved as if directories did not change
on the way, since no inode is freed there.
-/

namespace Xv6.Fs

open Xv6.Lib.Wp

/-- The slots of the cache that the references `xs` take, besides those of processes. -/
def need (base : ℕ → ℕ) (xs : Multiset ℕ) : ℕ := (xs.toFinset.filter fun i => base i = 0).card

lemma need_old {base : ℕ → ℕ} {xs : Multiset ℕ} {i : ℕ} (h : 0 < base i ∨ i ∈ xs) :
    need base (i ::ₘ xs) = need base xs := by
  unfold need
  rw [Multiset.toFinset_cons, Finset.filter_insert]
  split_ifs with hb
  · have hi : i ∈ xs := h.resolve_left (by omega)
    rw [Finset.insert_eq_of_mem (by simp [hi, hb])]
  · rfl

lemma need_new {base : ℕ → ℕ} {xs : Multiset ℕ} {i : ℕ} (hb : base i = 0) (hx : i ∉ xs) :
    need base (i ::ₘ xs) = need base xs + 1 := by
  unfold need
  rw [Multiset.toFinset_cons, Finset.filter_insert, if_pos hb,
    Finset.card_insert_of_notMem (by simp [hx])]

/-- The cache during a call, with the references `base` of processes, the references `xs` and the
locks `L` of the call. Among the inodes processes hold, those in `keep` have been read. The slots
that `xs` takes come out of the `R` that were free. -/
structure Busy (d : Disk) (base : ℕ → ℕ) (keep : ℕ → Prop) (xs : Multiset ℕ) (L : Finset ℕ) (R : ℕ)
    (c : Cache) : Prop where
  ref : ∀ i, c.ref i = base i + xs.count i
  locked : ∀ i, c.locked i = true ↔ i ∈ L
  lockedRef : ∀ i ∈ L, 0 < c.ref i
  lockedValid : ∀ i ∈ L, c.valid i = true
  keepValid : ∀ i, 0 < base i → keep i → c.valid i = true
  validLive : ∀ i, 0 < c.ref i → c.valid i = true → (d.inode i).type ≠ .free
  room : c.room + need base xs = R

section Cache

variable {d d' : Disk} {base : ℕ → ℕ} {keep : ℕ → Prop} {xs : Multiset ℕ} {L : Finset ℕ} {R i : ℕ}
  {c : Cache}

lemma Busy.held (h : Busy d base keep xs L R c) (hi : 0 < c.ref i) : 0 < base i ∨ i ∈ xs := by
  have := h.ref i
  by_cases hb : 0 < base i
  · exact Or.inl hb
  · exact Or.inr (Multiset.count_pos.mp (by omega))

lemma Busy.not_locked (h : Busy d base keep xs L R c) (hi : i ∉ L) : c.locked i = false := by
  rw [Bool.eq_false_iff]
  exact fun hl => hi ((h.locked i).mp hl)

/-- The types of inodes in use matter, nothing else of the disk. -/
lemma Busy.congr (h : Busy d base keep xs L R c)
    (hd : ∀ i, (d.inode i).type ≠ .free → (d'.inode i).type ≠ .free) :
    Busy d' base keep xs L R c :=
  ⟨h.ref, h.locked, h.lockedRef, h.lockedValid, h.keepValid,
    fun i h1 h2 => hd i (h.validLive i h1 h2), h.room⟩

lemma Busy.weaken {keep' : ℕ → Prop} (h : Busy d base keep xs L R c) (hk : ∀ i, keep' i → keep i) :
    Busy d base keep' xs L R c :=
  ⟨h.ref, h.locked, h.lockedRef, h.lockedValid, fun i hb hi => h.keepValid i hb (hk i hi),
    h.validLive, h.room⟩

/-- A reference to an inode that is held already takes no slot. -/
lemma Busy.again (h : Busy d base keep xs L R c) (hi : 0 < c.ref i) :
    Busy d base keep (i ::ₘ xs) L R (c.setRef i (c.ref i + 1)) := by
  refine ⟨fun j => ?_, h.locked, fun j hj => ?_, h.lockedValid, h.keepValid, fun j h1 h2 => ?_, ?_⟩
  · by_cases hj : j = i
    · subst hj
      simp [Cache.setRef, h.ref]
      omega
    · simp [Cache.setRef, hj, h.ref]
  · have := h.lockedRef j hj
    by_cases hji : j = i
    · simp [Cache.setRef, hji]
    · simpa [Cache.setRef, hji] using this
  · refine h.validLive j ?_ h2
    by_cases hji : j = i
    · rwa [hji]
    · simpa [Cache.setRef, hji] using h1
  · rw [need_old (h.held hi)]
    exact h.room

/-- One to an inode that is not takes one. -/
lemma Busy.fresh (h : Busy d base keep xs L R c) (hi : c.ref i = 0) (hroom : 0 < c.room) :
    Busy d base keep (i ::ₘ xs) L R
      { (c.setRef i 1).setValid i false with room := c.room - 1 } := by
  have href := h.ref i
  have hxs : i ∉ xs := fun hm => by
    have := Multiset.count_pos.mpr hm
    omega
  have hL : i ∉ L := fun hm => by
    have := h.lockedRef i hm
    omega
  have hneed : need base (i ::ₘ xs) = need base xs + 1 := need_new (by omega) hxs
  refine ⟨fun j => ?_, h.locked, fun j hj => ?_, fun j hj => ?_, fun j hb hk => ?_,
    fun j h1 h2 => ?_, ?_⟩
  · by_cases hj : j = i
    · subst hj
      simp [Cache.setRef, Cache.setValid, Multiset.count_eq_zero_of_notMem hxs]
      omega
    · simp [Cache.setRef, Cache.setValid, hj, h.ref]
  · have hji : j ≠ i := fun e => hL (e ▸ hj)
    simpa [Cache.setRef, Cache.setValid, hji] using h.lockedRef j hj
  · have hji : j ≠ i := fun e => hL (e ▸ hj)
    simpa [Cache.setRef, Cache.setValid, hji] using h.lockedValid j hj
  · have hji : j ≠ i := by
      rintro rfl
      omega
    simpa [Cache.setRef, Cache.setValid, hji] using h.keepValid j hb hk
  · have hji : j ≠ i := by
      rintro rfl
      simp [Cache.setValid] at h2
    refine h.validLive j ?_ ?_
    · simpa [Cache.setRef, Cache.setValid, hji] using h1
    · simpa [Cache.setRef, Cache.setValid, hji] using h2
  · have := h.room
    change c.room - 1 + _ = R
    omega

lemma Busy.hold (h : Busy d base keep xs L R c) (hroom : c.ref i = 0 → 0 < c.room) :
    Busy d base keep (i ::ₘ xs) L R (c.hold i) := by
  unfold Cache.hold
  split_ifs with hi
  · exact h.again hi
  · exact h.fresh (by omega) (hroom (by omega))

lemma Busy.drop (h : Busy d base keep (i ::ₘ xs) L R c) (hL : i ∉ L) :
    Busy d base keep xs L R (c.drop i) := by
  have href (j : ℕ) : (c.drop i).ref j = base j + xs.count j := by
    by_cases hj : j = i
    · subst hj
      have := h.ref j
      rw [Multiset.count_cons_self] at this
      simp [Cache.drop, Cache.setRef]
      omega
    · simp [Cache.drop, Cache.setRef, hj, h.ref]
  have hi := h.ref i
  rw [Multiset.count_cons_self] at hi
  refine ⟨href, h.locked, fun j hj => ?_, h.lockedValid, h.keepValid, fun j h1 h2 => ?_, ?_⟩
  · have hji : j ≠ i := fun e => hL (e ▸ hj)
    simpa [Cache.drop, Cache.setRef, hji] using h.lockedRef j hj
  · refine h.validLive j ?_ h2
    rw [href] at h1
    rw [h.ref]
    exact lt_of_lt_of_le h1 (Nat.add_le_add_left (Multiset.count_le_count_cons j i xs) _)
  · have hroom := h.room
    change (if c.ref i = 1 then c.room + 1 else c.room) + _ = R
    by_cases h1 : c.ref i = 1
    · rw [need_new (by omega) (Multiset.count_eq_zero.mp (by omega))] at hroom
      rw [if_pos h1]
      omega
    · rw [need_old] at hroom
      · rwa [if_neg h1]
      · by_cases hb : 0 < base i
        · exact Or.inl hb
        · exact Or.inr (Multiset.count_pos.mp (by omega))

lemma Busy.lock (h : Busy d base keep xs L R c) (href : 0 < c.ref i)
    (hty : (d.inode i).type ≠ .free) :
    Busy d base (fun j => keep j ∨ j = i) xs (insert i L) R
      ((c.setLocked i true).setValid i true) := by
  refine ⟨h.ref, fun j => ?_, fun j hj => ?_, fun j hj => ?_, fun j hb hk => ?_, fun j h1 h2 => ?_,
    h.room⟩
  · by_cases hj : j = i
    · simp [Cache.setLocked, Cache.setValid, hj]
    · simp [Cache.setLocked, Cache.setValid, hj, h.locked]
  · rcases Finset.mem_insert.mp hj with rfl | hj
    · exact href
    · exact h.lockedRef j hj
  · by_cases hji : j = i
    · simp [Cache.setLocked, Cache.setValid, hji]
    · simpa [Cache.setLocked, Cache.setValid, hji] using
        h.lockedValid j ((Finset.mem_insert.mp hj).resolve_left hji)
  · by_cases hji : j = i
    · simp [Cache.setLocked, Cache.setValid, hji]
    · simpa [Cache.setLocked, Cache.setValid, hji] using h.keepValid j hb (hk.resolve_right hji)
  · by_cases hji : j = i
    · rwa [hji]
    · refine h.validLive j h1 ?_
      simpa [Cache.setLocked, Cache.setValid, hji] using h2

lemma Busy.unlock (h : Busy d base keep xs L R c) (i : ℕ) :
    Busy d base keep xs (L.erase i) R (c.setLocked i false) := by
  refine ⟨h.ref, fun j => ?_, fun j hj => h.lockedRef j (Finset.mem_of_mem_erase hj),
    fun j hj => h.lockedValid j (Finset.mem_of_mem_erase hj), h.keepValid, h.validLive, h.room⟩
  by_cases hj : j = i
  · simp [Cache.setLocked, hj]
  · simp [Cache.setLocked, hj, h.locked]

/-- The last reference to an inode without links. -/
lemma Busy.free (h : Busy d base keep (i ::ₘ xs) L R c) (hL : i ∉ L) (h1 : c.ref i = 1) :
    Busy (d.free i) base keep xs L R ((c.setValid i false).drop i) := by
  have hi := h.ref i
  rw [Multiset.count_cons_self] at hi
  have hvalid : Busy d base keep (i ::ₘ xs) L R (c.setValid i false) := by
    refine ⟨h.ref, h.locked, h.lockedRef, fun j hj => ?_, fun j hb hk => ?_, fun j h1 h2 =>
      ?_, h.room⟩
    · have hji : j ≠ i := fun e => hL (e ▸ hj)
      simpa [Cache.setValid, hji] using h.lockedValid j hj
    · have hji : j ≠ i := by
        rintro rfl
        omega
      simpa [Cache.setValid, hji] using h.keepValid j hb hk
    · have hji : j ≠ i := by
        rintro rfl
        simp [Cache.setValid] at h2
      exact h.validLive j h1 (by simpa [Cache.setValid, hji] using h2)
  have hdrop := hvalid.drop hL
  refine ⟨hdrop.ref, hdrop.locked, hdrop.lockedRef, hdrop.lockedValid, hdrop.keepValid,
    fun j h2 h3 => ?_, hdrop.room⟩
  have hji : j ≠ i := by
    rintro rfl
    rw [hdrop.ref] at h2
    omega
  have := hdrop.validLive j h2 h3
  simpa [Disk.free, Disk.set, hji] using this

end Cache

/-- How a disk is read, as long as it is `ok`: what is on it is `view`, and reading does not change
it. -/
structure Reads (D : Type) [Files D] (view : D → Disk) (ok : D → Prop) : Prop where
  info : ∀ disk i, Files.info disk i = ((view disk).inode i).info
  load : ∀ disk i, ok disk → Files.load i disk = .ok ((), disk)
  search : ∀ disk dp name, ok disk → ((view disk).inode dp).type = .dir →
    Files.search dp name disk = .ok (find name ((view disk).inode dp).ents, disk)

lemma reads_disk : Reads Disk id fun _ => True where
  info _ _ := rfl
  load _ _ _ := rfl
  search _ _ _ _ _ := rfl

section Primitives

variable {P D : Type} {d : Disk} {disk : D} {pr : Procs P} {base : ℕ → ℕ} {keep : ℕ → Prop}
  {xs : Multiset ℕ} {L : Finset ℕ} {R i : ℕ} {c : Cache} {Q : Unit → St P D → Prop}
  {E : Stop → Prop}

lemma wp_iget (h : Busy d base keep xs L R c)
    (hE : R < need base (i ::ₘ xs) → E (.panic .igetNoInodes))
    (hQ : ∀ c', Busy d base keep (i ::ₘ xs) L R c' → Q () ⟨disk, pr, c'⟩) :
    wp (iget i) Q E ⟨disk, pr, c⟩ := by
  unfold iget
  refine wp_bind (wp_get ?_)
  refine wp_ite (fun h0 => wp_throw (hE ?_)) fun h0 => wp_setCache (hQ _ (h.hold fun hr => ?_))
  · have hroom := h.room
    have href := h.ref i
    change c.ref i = 0 ∧ c.room = 0 at h0
    rw [need_new (by omega) (Multiset.count_eq_zero.mp (by omega))]
    omega
  · change ¬ (c.ref i = 0 ∧ c.room = 0) at h0
    omega

lemma wp_idup (h : Busy d base keep xs L R c) (hi : 0 < base i)
    (hQ : ∀ c', Busy d base keep (i ::ₘ xs) L R c' → Q () ⟨disk, pr, c'⟩) :
    wp (idup i) Q E ⟨disk, pr, c⟩ := by
  refine wp_setCache (hQ _ (h.again ?_))
  rw [h.ref]
  omega

lemma wp_acquiresleep (h : Busy d base keep xs L R c) (hlock : i ∈ L → E .deadlock)
    (hQ : i ∉ L → Q () ⟨disk, pr, c.setLocked i true⟩) :
    wp (acquiresleep i) Q E ⟨disk, pr, c⟩ := by
  unfold acquiresleep
  refine wp_bind (wp_get (wp_ite (fun hl => wp_throw (hlock ((h.locked i).mp hl))) fun hl => ?_))
  exact wp_setCache (hQ fun hi => hl ((h.locked i).mpr hi))

/-- An inode that was locked has been read. -/
lemma wp_iunlock (h : Busy d base keep xs L R c) (hi : i ∈ L)
    (hQ : ∀ c', c'.valid i = true → Busy d base keep xs (L.erase i) R c' → Q () ⟨disk, pr, c'⟩) :
    wp (iunlock i) Q E ⟨disk, pr, c⟩ := by
  unfold iunlock
  refine wp_bind (wp_get (wp_ite (fun h0 => ?_) fun _ =>
    wp_setCache (hQ _ (h.lockedValid i hi) (h.unlock i))))
  have h1 := (h.locked i).mpr hi
  have h2 := h.lockedRef i hi
  change c.locked i = false ∨ c.ref i < 1 at h0
  rcases h0 with h0 | h0
  · rw [h1] at h0
    cases h0
  · omega

variable [Files D] {view : D → Disk} {ok : D → Prop}

lemma Reads.wp_ilock (hR : Reads D view ok) (hok : ok disk)
    (h : Busy (view disk) base keep xs L R c) (href : 0 < base i ∨ i ∈ xs)
    (hlock : i ∈ L → E .deadlock) (hfree : ((view disk).inode i).type = .free → E (.panic .noType))
    (hQ : i ∉ L → ((view disk).inode i).type ≠ .free → ∀ c',
      Busy (view disk) base (fun j => keep j ∨ j = i) xs (insert i L) R c' → Q () ⟨disk, pr, c'⟩) :
    wp (ilock i) Q E ⟨disk, pr, c⟩ := by
  have href' : 0 < c.ref i := by
    rw [h.ref]
    rcases href with hb | hx
    · omega
    · have := Multiset.count_pos.mpr hx
      omega
  unfold ilock
  refine wp_bind (wp_get (wp_ite (fun h0 => ?_) fun _ => ?_))
  · change c.ref i < 1 at h0
    omega
  refine wp_bind (wp_acquiresleep h hlock fun hL => wp_ite (fun hv => ?_) fun hv => ?_)
  · -- the inode has been read before
    have hty := h.validLive i href' hv
    have hc : (c.setLocked i true).setValid i true = c.setLocked i true := by
      unfold Cache.setValid
      rw [show Function.update (c.setLocked i true).valid i true = c.valid from
        Function.update_eq_self_iff.mpr hv.symm]
      rfl
    exact wp_pure (hQ hL hty _ (hc ▸ h.lock href' hty))
  · refine wp_bind (wp_onDisk (wp_of_ok (hR.load disk i hok) ?_))
    refine wp_bind (wp_setCache (wp_bind (wp_inode ?_)))
    rw [hR.info]
    refine wp_ite (fun hty => wp_throw (hfree hty)) fun hty =>
      wp_pure (hQ hL hty _ (h.lock href' hty))

lemma Reads.wp_iput (hR : Reads D view ok) (h : Busy (view disk) base keep (i ::ₘ xs) L R c)
    (hlock : i ∈ L → E .deadlock)
    (hfree : i ∉ L → c.valid i = true → base i = 0 → i ∉ xs → ((view disk).inode i).nlink = 0 →
      wp (Files.itrunc i) (fun _ disk' => ∀ c', Busy ((view disk).free i) base keep xs L R c' →
        Q () ⟨disk', pr, c'⟩) E disk)
    (hkeep : i ∉ L → (c.valid i = true → ((view disk).inode i).nlink = 0 → 0 < base i ∨ i ∈ xs) →
      ∀ c', Busy (view disk) base keep xs L R c' → Q () ⟨disk, pr, c'⟩) :
    wp (iput i) Q E ⟨disk, pr, c⟩ := by
  have href := h.ref i
  rw [Multiset.count_cons_self] at href
  have hunlock (hL : i ∉ L) : (c.setLocked i true).setLocked i false = c := by
    unfold Cache.setLocked
    dsimp only
    rw [Function.update_idem, show Function.update c.locked i false = c.locked from
      Function.update_eq_self_iff.mpr (h.not_locked hL).symm]
  unfold iput
  refine wp_bind (wp_acquiresleep h hlock fun hL => wp_bind (wp_get (wp_bind (wp_inode ?_))))
  rw [hR.info]
  dsimp only
  refine wp_ite (fun hc => ?_) fun hc => ?_
  · obtain ⟨hv, hn, hr⟩ := hc
    change c.ref i = 1 at hr
    refine wp_bind (wp_onDisk (wp_mono
      (hfree hL hv (by omega) (Multiset.count_eq_zero.mp (by omega)) hn) ?_ fun _ => id))
    intro _ disk' hQ
    refine wp_bind (wp_setCache (wp_bind (wp_setCache (wp_setCache (hQ _ ?_)))))
    have hcache : (((c.setLocked i true).setValid i false).setLocked i false).drop i =
        (c.setValid i false).drop i :=
      congrArg (fun x : Cache => (x.setValid i false).drop i) (hunlock hL)
    rw [hcache]
    exact h.free hL hr
  · refine wp_bind (wp_setCache (wp_setCache (hkeep hL (fun hv hn => ?_) _ ?_)))
    · have h2 : ¬ c.ref i = 1 := fun hr => hc ⟨hv, hn, hr⟩
      by_cases hb : 0 < base i
      · exact Or.inl hb
      · exact Or.inr (Multiset.count_pos.mp (by omega))
    · rw [hunlock hL]
      exact h.drop hL

lemma Reads.wp_iunlockput (hR : Reads D view ok)
    (h : Busy (view disk) base keep (i ::ₘ xs) L R c) (hi : i ∈ L)
    (hfree : base i = 0 → i ∉ xs → ((view disk).inode i).nlink = 0 →
      wp (Files.itrunc i) (fun _ disk' => ∀ c',
        Busy ((view disk).free i) base keep xs (L.erase i) R c' → Q () ⟨disk', pr, c'⟩) E disk)
    (hkeep : (((view disk).inode i).nlink = 0 → 0 < base i ∨ i ∈ xs) → ∀ c',
      Busy (view disk) base keep xs (L.erase i) R c' → Q () ⟨disk, pr, c'⟩) :
    wp (iunlockput i) Q E ⟨disk, pr, c⟩ := by
  unfold iunlockput
  refine wp_bind (wp_iunlock h hi fun c' hv h' => ?_)
  exact hR.wp_iput h' (fun hL => absurd hL (Finset.notMem_erase i L)) (fun _ _ => hfree)
    fun _ hk => hkeep (hk hv)

lemma Reads.wp_dirlookup (hR : Reads D view ok) (hok : ok disk) {dp : ℕ} {name : Name}
    {Q : Option (ℕ × ℕ) → St P D → Prop} (h : Busy (view disk) base keep xs L R c)
    (hdir : ((view disk).inode dp).type = .dir)
    (hE : ∀ i off, find name ((view disk).inode dp).ents = some (i, off) →
      R < need base (i ::ₘ xs) → E (.panic .igetNoInodes))
    (hnone : find name ((view disk).inode dp).ents = none → Q none ⟨disk, pr, c⟩)
    (hsome : ∀ i off, find name ((view disk).inode dp).ents = some (i, off) → ∀ c',
      Busy (view disk) base keep (i ::ₘ xs) L R c' → Q (some (i, off)) ⟨disk, pr, c'⟩) :
    wp (dirlookup dp name) Q E ⟨disk, pr, c⟩ := by
  unfold dirlookup
  refine wp_bind (wp_inode ?_)
  rw [hR.info]
  refine wp_ite (fun hne => absurd hdir hne) fun _ => ?_
  refine wp_bind (wp_onDisk (wp_of_ok (hR.search disk dp name hok hdir) ?_))
  rcases hf : find name ((view disk).inode dp).ents with _ | ⟨i, off⟩
  · exact wp_pure (hnone hf)
  · exact wp_bind (wp_iget h (hE i off hf) fun c' h' => wp_pure (hsome i off hf c' h'))

end Primitives

section PrimitivesOnDisk

variable {P : Type} {d : Disk} {pr : Procs P} {base : ℕ → ℕ} {keep : ℕ → Prop} {xs : Multiset ℕ}
  {L : Finset ℕ} {R i : ℕ} {c : Cache} {Q : Unit → St P Disk → Prop} {E : Stop → Prop}

lemma wp_ilock (h : Busy d base keep xs L R c) (href : 0 < base i ∨ i ∈ xs)
    (hlock : i ∈ L → E .deadlock) (hfree : (d.inode i).type = .free → E (.panic .noType))
    (hQ : i ∉ L → (d.inode i).type ≠ .free → ∀ c', Busy d base (fun j => keep j ∨ j = i) xs
      (insert i L) R c' →
      Q () ⟨d, pr, c'⟩) :
    wp (ilock i) Q E ⟨d, pr, c⟩ := reads_disk.wp_ilock trivial h href hlock hfree hQ

lemma wp_iput (h : Busy d base keep (i ::ₘ xs) L R c) (hlock : i ∈ L → E .deadlock)
    (hfree : i ∉ L → c.valid i = true → base i = 0 → i ∉ xs → (d.inode i).nlink = 0 → ∀ c',
      Busy (d.free i) base keep xs L R c' → Q () ⟨d.free i, pr, c'⟩)
    (hkeep : i ∉ L → (c.valid i = true → (d.inode i).nlink = 0 → 0 < base i ∨ i ∈ xs) → ∀ c',
      Busy d base keep xs L R c' → Q () ⟨d, pr, c'⟩) :
    wp (iput i) Q E ⟨d, pr, c⟩ :=
  reads_disk.wp_iput h hlock (fun hL hv hb hx hn => wp_modify (hfree hL hv hb hx hn)) hkeep

lemma wp_iunlockput (h : Busy d base keep (i ::ₘ xs) L R c) (hi : i ∈ L)
    (hfree : base i = 0 → i ∉ xs → (d.inode i).nlink = 0 → ∀ c',
      Busy (d.free i) base keep xs (L.erase i) R c' → Q () ⟨d.free i, pr, c'⟩)
    (hkeep : ((d.inode i).nlink = 0 → 0 < base i ∨ i ∈ xs) → ∀ c',
      Busy d base keep xs (L.erase i) R c' → Q () ⟨d, pr, c'⟩) :
    wp (iunlockput i) Q E ⟨d, pr, c⟩ :=
  reads_disk.wp_iunlockput h hi (fun hb hx hn => wp_modify (hfree hb hx hn)) hkeep

lemma wp_dirlookup {dp : ℕ} {name : Name} {Q : Option (ℕ × ℕ) → St P Disk → Prop}
    (h : Busy d base keep xs L R c) (hdir : (d.inode dp).type = .dir)
    (hE : ∀ i off, find name (d.inode dp).ents = some (i, off) → R < need base (i ::ₘ xs) →
      E (.panic .igetNoInodes))
    (hnone : find name (d.inode dp).ents = none → Q none ⟨d, pr, c⟩)
    (hsome : ∀ i off, find name (d.inode dp).ents = some (i, off) → ∀ c',
      Busy d base keep (i ::ₘ xs) L R c' → Q (some (i, off)) ⟨d, pr, c'⟩) :
    wp (dirlookup dp name) Q E ⟨d, pr, c⟩ := reads_disk.wp_dirlookup trivial h hdir hE hnone hsome

/-- A lock taken while no other is held. -/
lemma wp_ilock_only (h : Busy d base keep (i ::ₘ xs) ∅ R c)
    (hfree : (d.inode i).type = .free → E (.panic .noType))
    (hQ : (d.inode i).type ≠ .free → ∀ c', Busy d base keep (i ::ₘ xs) {i} R c' →
      Q () ⟨d, pr, c'⟩) : wp (ilock i) Q E ⟨d, pr, c⟩ :=
  wp_ilock h (Or.inr (Multiset.mem_cons_self i xs)) (fun hm => absurd hm (Finset.notMem_empty i))
    hfree fun _ hty c' h' => hQ hty c' (h'.weaken fun _ => Or.inl)

/-- The inode of the only lock is let go; the reference is not the last one. -/
lemma wp_iunlockput_only (h : Busy d base keep (i ::ₘ xs) {i} R c)
    (hheld : (d.inode i).nlink = 0 → 0 < base i ∨ i ∈ xs)
    (hQ : ∀ c', Busy d base keep xs ∅ R c' → Q () ⟨d, pr, c'⟩) :
    wp (iunlockput i) Q E ⟨d, pr, c⟩ := by
  refine wp_iunlockput h (Finset.mem_singleton_self i) (fun hb hx hl => ?_) fun _ c' h' => hQ c' ?_
  · exact absurd (hheld hl) (by simp [hb, hx])
  · rwa [Finset.erase_singleton] at h'

end PrimitivesOnDisk

/-! ### Paths -/

/-- The elements of a path. -/
def elems (path : List UInt8) : List Name :=
  match _h : skipelem path with
  | none => []
  | some (name, rest) => name :: elems rest
termination_by path.length
decreasing_by exact skipelem_length _h

lemma elems_none {path : List UInt8} (h : skipelem path = none) : elems path = [] := by
  rw [elems]
  split
  · rfl
  · next h' => rw [h] at h'; cases h'

variable {rest : List UInt8} {name : Name}

lemma elems_some {path : List UInt8} (h : skipelem path = some (name, rest)) :
    elems path = name :: elems rest := by
  rw [elems]
  split
  · next h' => rw [h] at h'; cases h'
  · next h' =>
      rw [h] at h'
      cases h'
      rfl

/-- What is left of a path does not start with a slash. -/
lemma elems_rest {path : List UInt8} (h : skipelem path = some (name, rest)) :
    elems rest = [] ↔ rest = [] := by
  constructor
  · intro he
    rcases hs : skipelem rest with _ | ⟨n, r⟩
    · unfold skipelem at h hs
      dsimp only at h hs
      split_ifs at h with h1
      cases h
      split_ifs at hs with h2
      rwa [List.dropWhile_idempotent] at h2
    · rw [elems_some hs] at he
      cases he
  · rintro rfl
    exact elems_none rfl

/-- Where a path of these elements leads from inode `i`: the inode, or its parent and the last
element. -/
def target (d : Disk) (parent : Bool) (i : ℕ) : List Name → Option (ℕ × Name)
  | [] => if parent then none else some (i, [])
  | name :: names =>
    if (d.inode i).type ≠ .dir then none
    else if parent ∧ names = [] then some (i, name)
    else
      match find name (d.inode i).ents with
      | none => none
      | some (j, _) => target d parent j names

/-- No inode that has to be searched is free. -/
def Clear (d : Disk) (i : ℕ) : List Name → Prop
  | [] => True
  | name :: names =>
    (d.inode i).type ≠ .free ∧
      ((d.inode i).type = .dir → ∀ j off,
        find name (d.inode i).ents = some (j, off) → Clear d j names)

/-- An inode without links is held, by a process or by the call. -/
def HeldBy (d : Disk) (base : ℕ → ℕ) (xs : Multiset ℕ) : Prop :=
  ∀ j, (d.inode j).type ≠ .free → (d.inode j).nlink = 0 → 0 < base j ∨ j ∈ xs

/-- The cache has room for each inode that is searched, the one found there and `xs`. -/
def Fits (d : Disk) (base : ℕ → ℕ) (R : ℕ) (xs : Multiset ℕ) (parent : Bool) (i : ℕ) :
    List Name → Prop
  | [] => True
  | name :: names =>
    (d.inode i).type = .dir → ¬ (parent ∧ names = []) → ∀ j off,
      find name (d.inode i).ents = some (j, off) →
        need base (j ::ₘ i ::ₘ xs) ≤ R ∧ Fits d base R xs parent j names

section Paths

variable {P D : Type} [Files D] {view : D → Disk} {ok : D → Prop} {disk : D} {d : Disk}
  {pr : Procs P} {base : ℕ → ℕ} {keep : ℕ → Prop} {xs : Multiset ℕ} {R i : ℕ} {c : Cache}
  {Q : Option (ℕ × Name) → St P D → Prop} {E : Stop → Prop} {parent : Bool}

/-- An inode without links is held by others than the path. -/
lemma Reads.wp_namexFrom {path : List UInt8} (hR : Reads D view ok) (hok : ok disk)
    (hd : view disk = d) (h : Busy d base keep (i ::ₘ xs) ∅ R c) (hheld : HeldBy d base xs)
    (hroom : ¬ Fits d base R xs parent i (elems path) → E (.panic .igetNoInodes))
    (hclear : ¬ Clear d i (elems path) → E (.panic .noType))
    (hnone : target d parent i (elems path) = none → Fits d base R xs parent i (elems path) →
      Clear d i (elems path) → ∀ c', Busy d base keep xs ∅ R c' → Q none ⟨disk, pr, c'⟩)
    (hsome : ∀ j name, target d parent i (elems path) = some (j, name) →
      Fits d base R xs parent i (elems path) → ∀ c', Busy d base keep (j ::ₘ xs) ∅ R c' →
      Q (some (j, name)) ⟨disk, pr, c'⟩) :
    wp (namexFrom parent i path) Q E ⟨disk, pr, c⟩ := by
  subst hd
  induction hn : path.length using Nat.strong_induction_on generalizing path i c with
  | h n ih =>
  rw [namexFrom]
  split
  · -- no element is left
    next hs =>
    rw [elems_none hs] at hroom hclear hnone hsome
    refine wp_ite (fun hp => ?_) fun hp => ?_
    · refine wp_bind
        (hR.wp_iput h (fun hm => absurd hm (Finset.notMem_empty i)) (fun _ hv hb hx hl => ?_)
        fun _ _ c' h' => wp_pure (hnone (by simp [target, hp]) trivial trivial c' h'))
      have href := h.ref i
      rw [Multiset.count_cons_self] at href
      exact absurd (hheld i (h.validLive i (by omega) hv) hl) (by simp [hb, hx])
    · refine wp_pure (hsome i [] ?_ trivial c h)
      simp [target, hp]
  · next name rest hs =>
    rw [elems_some hs] at hroom hclear hnone hsome
    refine wp_bind (hR.wp_ilock hok h (Or.inr (Multiset.mem_cons_self i xs))
      (fun hm => absurd hm (Finset.notMem_empty i))
      (fun hty => hclear fun hcl => hcl.1 hty) fun _ hty c1 h1 => ?_)
    have h1 : Busy (view disk) base keep (i ::ₘ xs) (insert i ∅) R c1 :=
      h1.weaken fun _ hk => Or.inl hk
    have hi : i ∈ insert i (∅ : Finset ℕ) := Finset.mem_insert_self i ∅
    have herase : (insert i (∅ : Finset ℕ)).erase i = ∅ := by simp
    -- the reference to `i` is never the last one to an inode without links
    have hfree (hb : base i = 0) (hx : i ∉ xs) (hl : ((view disk).inode i).nlink = 0) : False :=
      absurd (hheld i hty hl) (by simp [hb, hx])
    have hfail (hnil : target (view disk) parent i (name :: elems rest) = none)
        (hno : ((view disk).inode i).type = .dir → find name ((view disk).inode i).ents = none)
        {c' : Cache} (h' : Busy (view disk) base keep (i ::ₘ xs) (insert i ∅) R c') :
        wp (do iunlockput i; pure none) Q E ⟨disk, pr, c'⟩ := by
      refine wp_bind
        (hR.wp_iunlockput h' hi (fun hb hx hl => (hfree hb hx hl).elim) fun _ c2 h2 => ?_)
      rw [herase] at h2
      refine wp_pure (hnone hnil (fun hdir _ j off hf => ?_) ⟨hty, fun hdir j off hf => ?_⟩ c2 h2)
      · cases (hno hdir).symm.trans hf
      · cases (hno hdir).symm.trans hf
    refine wp_bind (wp_inode ?_)
    rw [hR.info]
    refine wp_ite (fun (hne : ((view disk).inode i).type ≠ .dir) =>
      hfail (by simp [target, hne]) (fun hdir => absurd hdir hne) h1) fun hdir => ?_
    have hdir : ((view disk).inode i).type = .dir := not_not.mp hdir
    refine wp_ite (fun hlast => ?_) fun hlast => ?_
    · have hlast' := (elems_rest hs).mpr hlast.2
      refine wp_bind (wp_iunlock h1 hi fun c2 _ h2 => wp_pure (hsome i name ?_ ?_ c2 (herase ▸ h2)))
      · simp [target, hdir, hlast.1, hlast']
      · exact fun _ hn => absurd ⟨hlast.1, hlast'⟩ hn
    have hlast' : ¬ (parent = true ∧ elems rest = []) := by
      rwa [elems_rest hs]
    have htarget : target (view disk) parent i (name :: elems rest) =
        match find name ((view disk).inode i).ents with
        | none => none
        | some (j, _) => target (view disk) parent j (elems rest) := by
      rw [target, if_neg (not_not.mpr hdir), if_neg hlast']
    refine wp_bind (hR.wp_dirlookup hok h1 hdir (fun j off hf hR => hroom fun hfit => ?_)
      (fun hf => hfail ?_ (fun _ => hf) h1) fun j off hf c2 h2 => ?_)
    · exact absurd (hfit hdir hlast' j off hf).1 (not_le.mpr hR)
    · rw [htarget, hf]
    -- the next inode is held before this one is let go
    rw [htarget, hf] at hnone hsome
    have hneed : need base (j ::ₘ i ::ₘ xs) ≤ R := h2.room ▸ Nat.le_add_left _ _
    rw [Multiset.cons_swap] at h2
    refine wp_bind (hR.wp_iunlockput h2 hi (fun hb hx hl => ?_) fun _ c3 h3 => ?_)
    · exact (hfree hb (fun hm => hx (Multiset.mem_cons_of_mem hm)) hl).elim
    · rw [herase] at h3
      have hfits (hfit : Fits (view disk) base R xs parent j (elems rest)) :
          Fits (view disk) base R xs parent i (name :: elems rest) := by
        intro _ _ j' off' hf'
        rw [hf] at hf'
        cases hf'
        exact ⟨hneed, hfit⟩
      refine ih rest.length (hn ▸ skipelem_length hs) h3 (fun hfit => hroom fun hfit' => hfit ?_)
        (fun hcl => hclear fun hcl' => hcl ?_)
        (fun ht hfit hcl => hnone ht (hfits hfit) ⟨hty, fun _ j' off' hf' => ?_⟩)
        (fun k n ht hfit => hsome k n ht (hfits hfit)) rfl
      · exact (hfit' hdir hlast' j off hf).2
      · exact hcl'.2 hdir j off hf
      · rw [hf] at hf'
        cases hf'
        exact hcl

/-- Where a path starts. -/
def start (pr : Procs P) (me : P) (path : List UInt8) : ℕ :=
  if path.head? = some slash then ROOTINO else pr.cwd me

def resolve (d : Disk) (pr : Procs P) (me : P) (path : List UInt8) : Option ℕ :=
  (target d false (start pr me path) (elems path)).map Prod.fst

def resolveParent (d : Disk) (pr : Procs P) (me : P) (path : List UInt8) : Option (ℕ × Name) :=
  target d true (start pr me path) (elems path)

/-- The cache has room to resolve a path, besides `xs`. -/
def Room (d : Disk) (base : ℕ → ℕ) (R : ℕ) (xs : Multiset ℕ) (parent : Bool) (pr : Procs P) (me : P)
    (path : List UInt8) : Prop :=
  need base (start pr me path ::ₘ xs) ≤ R ∧ Fits d base R xs parent (start pr me path) (elems path)

variable {me : P} {path : List UInt8}

lemma Reads.wp_namex (hR : Reads D view ok) (hok : ok disk) (hd : view disk = d)
    (h : Busy d base keep xs ∅ R c) (hcwd : 0 < base (pr.cwd me)) (hheld : HeldBy d base xs)
    (hroom : ¬ Room d base R xs parent pr me path → E (.panic .igetNoInodes))
    (hclear : ¬ Clear d (start pr me path) (elems path) → E (.panic .noType))
    (hnone : target d parent (start pr me path) (elems path) = none →
      Room d base R xs parent pr me path → Clear d (start pr me path) (elems path) → ∀ c',
      Busy d base keep xs ∅ R c' → Q none ⟨disk, pr, c'⟩)
    (hsome : ∀ j name, target d parent (start pr me path) (elems path) = some (j, name) →
      Room d base R xs parent pr me path → ∀ c', Busy d base keep (j ::ₘ xs) ∅ R c' →
      Q (some (j, name)) ⟨disk, pr, c'⟩) :
    wp (namex me path parent) Q E ⟨disk, pr, c⟩ := by
  -- the inode the path starts from takes its slot first
  have hfrom {c' : Cache} (h' : Busy d base keep (start pr me path ::ₘ xs) ∅ R c') :
      wp (namexFrom parent (start pr me path) path) Q E ⟨disk, pr, c'⟩ := by
    have hneed : need base (start pr me path ::ₘ xs) ≤ R := h'.room ▸ Nat.le_add_left _ _
    exact hR.wp_namexFrom hok hd h' hheld (fun hf => hroom fun hr => hf hr.2) hclear
      (fun ht hf => hnone ht ⟨hneed, hf⟩) fun j name ht hf => hsome j name ht ⟨hneed, hf⟩
  unfold namex
  refine wp_ite (fun hp => ?_) fun hp => ?_
  · have hs : start pr me path = ROOTINO := if_pos hp
    rw [← hs]
    exact wp_bind (wp_iget h (fun hR => hroom fun hr => absurd hr.1 (not_le.mpr hR)) fun _ => hfrom)
  · have hs : start pr me path = pr.cwd me := if_neg hp
    refine wp_bind (wp_get (wp_bind (wp_idup h hcwd fun c' h' => ?_)))
    rw [← hs] at h' ⊢
    exact hfrom h'

lemma Reads.wp_namei {Q : Option ℕ → St P D → Prop} (hR : Reads D view ok) (hok : ok disk)
    (hd : view disk = d) (h : Busy d base keep xs ∅ R c) (hcwd : 0 < base (pr.cwd me))
    (hheld : HeldBy d base xs)
    (hroom : ¬ Room d base R xs false pr me path → E (.panic .igetNoInodes))
    (hclear : ¬ Clear d (start pr me path) (elems path) → E (.panic .noType))
    (hnone : resolve d pr me path = none → Room d base R xs false pr me path →
      Clear d (start pr me path) (elems path) → ∀ c', Busy d base keep xs ∅ R c' →
      Q none ⟨disk, pr, c'⟩)
    (hsome : ∀ j, resolve d pr me path = some j → Room d base R xs false pr me path → ∀ c',
      Busy d base keep (j ::ₘ xs) ∅ R c' → Q (some j) ⟨disk, pr, c'⟩) :
    wp (namei me path) Q E ⟨disk, pr, c⟩ := by
  unfold namei
  refine wp_bind (hR.wp_namex hok hd h hcwd hheld hroom hclear
    (fun ht hr hcl c' h' => wp_pure (hnone ?_ hr hcl c' h')) fun j name ht hr c' h' =>
      wp_pure (hsome j ?_ hr c' h'))
  · rw [resolve, ht]
    rfl
  · rw [resolve, ht]
    rfl

end Paths

section Entries

variable {P : Type} {d : Disk} {pr : Procs P} {base : ℕ → ℕ} {keep : ℕ → Prop} {xs : Multiset ℕ}
  {L : Finset ℕ} {R dp : ℕ} {c : Cache} {E : Stop → Prop}

lemma wp_writei {k : ℕ} {e : Dirent} {Q : Bool → Disk → Prop}
    (hspace : (d.inode dp).ents.length ≤ k → d.space < newBlocks k → E (.panic .outOfBlocks))
    (hlong : MAXFILE * BSIZE < (k + 1) * DIRENT → Q false d)
    (hQ : (k + 1) * DIRENT ≤ MAXFILE * BSIZE →
      ((d.inode dp).ents.length ≤ k → newBlocks k ≤ d.space) → Q true (d.putEnt dp k e)) :
    wp (writei dp k e) Q E d := by
  unfold writei
  refine wp_bind (wp_get (wp_ite (fun hl => wp_pure (hlong hl)) fun hl => ?_))
  refine wp_ite (fun hs => wp_throw (hspace hs.1 hs.2)) fun hs => wp_bind (wp_modify (wp_pure ?_))
  refine hQ (not_lt.mp hl) fun hk => ?_
  exact not_lt.mp fun hlt => hs ⟨hk, hlt⟩

/-- The entry that `dirlink` writes. -/
def Disk.link (d : Disk) (dp : ℕ) (name : Name) (inum : ℕ) : Disk :=
  d.putEnt dp (freeSlot (d.inode dp).ents) ⟨inum % 2 ^ 16, name.take DIRSIZ⟩

/-- The directory can take one more entry: it is not full, and there are blocks for it to grow. -/
def Enters (d : Disk) (dp : ℕ) : Prop :=
  (freeSlot (d.inode dp).ents + 1) * DIRENT ≤ MAXFILE * BSIZE ∧
    ((d.inode dp).ents.length ≤ freeSlot (d.inode dp).ents →
      newBlocks (freeSlot (d.inode dp).ents) ≤ d.space)

variable {name : Name} {inum : ℕ}

/-- A name that the directory does not have. -/
lemma wp_dirlink_new {Q : ℤ → St P Disk → Prop} (h : Busy d base keep xs L R c)
    (hdir : (d.inode dp).type = .dir) (hf : find name (d.inode dp).ents = none)
    (hfull : ¬ Enters d dp → ∀ p, p ≠ .noType → E (.panic p))
    (hQ : Enters d dp → Q 0 ⟨d.link dp name inum, pr, c⟩) :
    wp (dirlink dp name inum) Q E ⟨d, pr, c⟩ := by
  unfold dirlink
  refine wp_bind (wp_dirlookup h hdir (fun i off hs => ?_) (fun _ => ?_) fun i off hs => ?_)
  · exact nomatch hf.symm.trans hs
  · refine wp_bind (wp_onDisk (wp_bind (wp_get (wp_writei (fun hk hs => ?_) (fun hk => ?_)
      fun hk hs => wp_pure (hQ ⟨hk, hs⟩)))))
    · exact hfull (fun he => absurd (he.2 hk) (not_le.mpr hs)) _ nofun
    · exact wp_throw (hfull (fun he => absurd he.1 (not_le.mpr hk)) _ nofun)
  · exact nomatch hf.symm.trans hs

lemma wp_dirlink {Q : ℤ → St P Disk → Prop} (h : Busy d base keep xs L R c)
    (hdir : (d.inode dp).type = .dir) (hheld : HeldBy d base xs)
    (hroom : ∀ i off, find name (d.inode dp).ents = some (i, off) → R < need base (i ::ₘ xs) →
      E (.panic .igetNoInodes))
    (hfull : find name (d.inode dp).ents = none → ¬ Enters d dp → ∀ p, p ≠ .noType → E (.panic p))
    (hlock : ∀ i off, find name (d.inode dp).ents = some (i, off) → i ∈ L → E .deadlock)
    (hfound : ∀ i off, find name (d.inode dp).ents = some (i, off) → need base (i ::ₘ xs) ≤ R →
      i ∉ L → ∀ c', Busy d base keep xs L R c' → Q (-1) ⟨d, pr, c'⟩)
    (hnew : find name (d.inode dp).ents = none → Enters d dp → Q 0 ⟨d.link dp name inum, pr, c⟩) :
    wp (dirlink dp name inum) Q E ⟨d, pr, c⟩ := by
  rcases hf : find name (d.inode dp).ents with _ | ⟨k, koff⟩
  · exact wp_dirlink_new h hdir hf (hfull hf) (hnew hf)
  unfold dirlink
  refine wp_bind (wp_dirlookup h hdir hroom (fun hnil => ?_) fun i off hf c' h' => ?_)
  · exact nomatch hnil.symm.trans hf
  · have hneed : need base (i ::ₘ xs) ≤ R := h'.room ▸ Nat.le_add_left _ _
    refine wp_bind (wp_iput h' (hlock i off hf) (fun _ hv hb hx hl => ?_) fun hL _ c2 h2 =>
      wp_pure (hfound i off hf hneed hL c2 h2))
    have href := h'.ref i
    rw [Multiset.count_cons_self] at href
    exact absurd (hheld i (h'.validLive i (by omega) hv) hl) (by simp [hb, hx])

end Entries

end Xv6.Fs
