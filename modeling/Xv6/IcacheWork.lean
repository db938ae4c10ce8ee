import Xv6.Icache
import Xv6.Lib.Wp

/-!
The work that is done on a locked inode leaves the copy in the cache and the one in the buffers
equal, or the slot not valid, whatever other processes allocate and free in between. `writei` needs
for this that a file has no holes: it calls `iupdate` only if the file has grown.
-/

namespace Xv6.Icache

open Xv6.Fs (Dinode InodeType BSIZE NDIRECT NINDIRECT MAXFILE)
open Xv6.Lib.Wp (bind_ok map_ok)

/-- Every block of the file below its size has an address in the inode, its own or that of the
indirect block. -/
def NoHole (x : Dinode) : Prop := ∀ bn, bn * BSIZE < x.size → x.addrs (min bn NDIRECT) ≠ 0

/-- A valid copy is that of the buffers, and the inode is in use. -/
def Settled (valid : Bool) (x d : Dinode) : Prop := valid = true → x = d ∧ d.type ≠ .free

/-- The copy is valid besides. -/
def Written (valid : Bool) (x d : Dinode) : Prop := valid = true ∧ x = d ∧ d.type ≠ .free

variable {valid : Bool} {b addr fuel : ℕ} {bns : List ℕ}

lemma Written.settled {x d : Dinode} (h : Written valid x d) : Settled valid x d :=
  fun _ => h.2

lemma Settled.written {x d : Dinode} (h : Settled valid x d) (hv : valid = true) :
    Written valid x d :=
  ⟨hv, h hv⟩

/-- However the bitmap changes in between, the work ends with `post`. While there is work left the
inode in the buffers is in use, so that nobody else writes it; at the very end it may be free. -/
inductive Flushes (post : Bool → Dinode → Dinode → Prop) : List Piece → Bool → Dinode → Dinode → Prop
  | done {v : Bool} {x d : Dinode} (h : post v x d) : Flushes post [] v x d
  | step {p : Piece} {todo : List Piece} {v : Bool} {x d : Dinode} (hd : d.type ≠ .free)
      (hsafe : ∀ w v' front, w.used 0 = true → p.exec ⟨v, x, d, w⟩ = .ok (v', front) →
        v'.space.used 0 = true ∧ (v'.disk.type ≠ .free → NoHole v'.disk))
      (h : ∀ w v' front, w.used 0 = true → p.exec ⟨v, x, d, w⟩ = .ok (v', front) →
        Flushes post (front ++ todo) v'.valid v'.copy v'.disk) : Flushes post (p :: todo) v x d
  | invalidate {v : Bool} {x d : Dinode} (h : ∀ d, post false x d) : Flushes post [.invalidate] v x d

variable {post : Bool → Dinode → Dinode → Prop} {todo : List Piece} {v : Bool} {x x' d : Dinode} {w w' : Space}

lemma Flushes.post_of_nil (h : Flushes post [] v x d) : post v x d := by
  cases h with
  | done h => exact h

/-! ### Blocks -/

lemma balloc_spec (h : balloc w = .ok (b, w')) (h0 : w.used 0 = true) : b ≠ 0 ∧
    w'.used 0 = true := by
  unfold balloc at h
  split at h
  · rename_i b' hb
    obtain ⟨rfl, rfl⟩ := Prod.mk.inj (Except.ok.inj h)
    have hfree : w.used b' = false := by simpa using List.find?_some hb
    have hne : b' ≠ 0 := by
      rintro rfl
      cases h0.symm.trans hfree
    exact ⟨hne, by simp [Function.update_of_ne hne.symm, h0]⟩
  · cases h

lemma bfree_spec (h : bfree w b = .ok w') (hb : b ≠ 0) (h0 : w.used 0 = true) :
    w'.used 0 = true := by
  unfold bfree at h
  split_ifs at h
  cases h
  simp [Function.update_of_ne hb.symm, h0]

/-- Blocks have been added. -/
structure Grown (x x' : Dinode) : Prop where
  rest : x' = { x with addrs := x'.addrs }
  addrs : ∀ k, x.addrs k ≠ 0 → x'.addrs k = x.addrs k

lemma Grown.refl (x : Dinode) : Grown x x := ⟨rfl, fun _ _ => rfl⟩

lemma Grown.trans {x'' : Dinode} (h : Grown x x') (h' : Grown x' x'') : Grown x x'' where
  rest := by
    rw [h'.rest, h.rest]
  addrs k hk := (h'.addrs k (by rwa [h.addrs k hk])).trans (h.addrs k hk)

/-- What `bmap` does to an inode. -/
structure Mapped (x : Dinode) (k : ℕ) (x' : Dinode) : Prop where
  grown : Grown x x'
  mapped : x'.addrs k ≠ 0
  same : x.addrs k ≠ 0 → x' = x

variable {k bn off n : ℕ} {p : Piece}

lemma bmapAddr_spec (h : bmapAddr x w k = .ok (x', w')) (h0 : w.used 0 = true) :
    Mapped x k x' ∧ w'.used 0 = true := by
  unfold bmapAddr at h
  split_ifs at h with hk
  · obtain ⟨⟨b, w₁⟩, hb, he⟩ := map_ok h
    cases he
    obtain ⟨hb0, h0'⟩ := balloc_spec hb h0
    refine ⟨⟨⟨rfl, fun k' hk' => ?_⟩, ?_, fun hne => absurd hk hne⟩, h0'⟩
    · have hne : k' ≠ k := fun e => hk' (e ▸ hk)
      simp [setAddr, Function.update_of_ne hne]
    · simpa [setAddr] using hb0
  · obtain ⟨rfl, rfl⟩ := Prod.mk.inj (Except.ok.inj h)
    exact ⟨⟨Grown.refl x, hk, fun _ => rfl⟩, h0⟩

lemma bmapEntry_spec (h : bmapEntry w addr k = .ok w') (h0 : w.used 0 = true) :
    w'.used 0 = true := by
  unfold bmapEntry at h
  split_ifs at h
  · obtain ⟨⟨b, w₁⟩, hb, rfl⟩ := map_ok h
    exact (balloc_spec hb h0).2
  · cases h
    exact h0

lemma bmap_spec (h : bmap x w bn = .ok (x', w')) (h0 : w.used 0 = true) :
    Mapped x (min bn NDIRECT) x' ∧ w'.used 0 = true := by
  unfold bmap at h
  split_ifs at h with hd hi
  · rw [min_eq_left hd.le]
    exact bmapAddr_spec h h0
  · rw [min_eq_right (not_lt.mp hd)]
    obtain ⟨⟨x₁, w₁⟩, ha, h⟩ := bind_ok h
    obtain ⟨w₂, he, h⟩ := bind_ok h
    obtain ⟨rfl, rfl⟩ := Prod.mk.inj (Except.ok.inj h)
    obtain ⟨hm, h0₁⟩ := bmapAddr_spec ha h0
    exact ⟨hm, bmapEntry_spec he h0₁⟩

lemma freeAddr_spec (h : freeAddr x w k = .ok (x', w')) (h0 : w.used 0 = true) :
    x'.type = x.type ∧ w'.used 0 = true := by
  unfold freeAddr at h
  split_ifs at h with hk
  · obtain ⟨rfl, rfl⟩ := Prod.mk.inj (Except.ok.inj h)
    exact ⟨rfl, h0⟩
  · obtain ⟨w₁, hb, he⟩ := map_ok h
    cases he
    exact ⟨rfl, bfree_spec hb hk h0⟩

lemma freeEntries_spec {js : List ℕ} (h : freeEntries addr js w = .ok w') (h0 : w.used 0 = true) :
    w'.used 0 = true := by
  induction js generalizing w with
  | nil =>
    cases h
    exact h0
  | cons j js ih =>
    unfold freeEntries at h
    split_ifs at h with hj
    · exact ih h h0
    · obtain ⟨w₁, hb, h⟩ := bind_ok h
      exact ih h (bfree_spec hb hj h0)

lemma freeIndirect_spec (h : freeIndirect x w = .ok (x', w')) (h0 : w.used 0 = true) :
    x'.type = x.type ∧ w'.used 0 = true := by
  unfold freeIndirect at h
  split_ifs at h with hk
  · obtain ⟨rfl, rfl⟩ := Prod.mk.inj (Except.ok.inj h)
    exact ⟨rfl, h0⟩
  · obtain ⟨w₁, he, h⟩ := bind_ok h
    obtain ⟨w₂, hb, h⟩ := bind_ok h
    obtain ⟨rfl, rfl⟩ := Prod.mk.inj (Except.ok.inj h)
    exact ⟨rfl, bfree_spec hb hk (freeEntries_spec he h0)⟩

/-! ### Pieces -/

lemma Flushes.piece (hd : d.type ≠ .free)
    (h : ∀ w v' front, w.used 0 = true → p.exec ⟨v, x, d, w⟩ = .ok (v', front) →
      (v'.space.used 0 = true ∧ (v'.disk.type ≠ .free → NoHole v'.disk)) ∧
      Flushes post (front ++ todo) v'.valid v'.copy v'.disk) :
    Flushes post (p :: todo) v x d :=
  .step hd (fun w v' front h0 he => (h w v' front h0 he).1) fun w v' front h0 he =>
    (h w v' front h0 he).2

/-- A change of the copy. -/
lemma Flushes.set (x' : Dinode) (hp : ∀ w, p.exec ⟨v, x, d, w⟩ = .ok (⟨v, x', d, w⟩, []))
    (hd : d.type ≠ .free) (hh : NoHole d) (h : Flushes post todo v x' d) :
    Flushes post (p :: todo) v x d := by
  refine .piece hd fun w v' front h0 he => ?_
  rw [hp w] at he
  obtain ⟨rfl, rfl⟩ := Prod.mk.inj (Except.ok.inj he)
  exact ⟨⟨h0, fun _ => hh⟩, h⟩

lemma Flushes.iupdate (hd : d.type ≠ .free) (hx : NoHole x) (h : Flushes post todo v x x) :
    Flushes post (.iupdate :: todo) v x d := by
  refine .piece hd fun w v' front h0 he => ?_
  obtain ⟨rfl, rfl⟩ := Prod.mk.inj (Except.ok.inj he)
  exact ⟨⟨h0, fun _ => hx⟩, h⟩

/-- The loop of `readi` or `writei`. -/
lemma Flushes.bmaps (hd : d.type ≠ .free) (hh : NoHole d)
    (h : ∀ x', Grown x x' → (∀ bn ∈ bns, x'.addrs (min bn NDIRECT) ≠ 0) →
      ((∀ bn ∈ bns, x.addrs (min bn NDIRECT) ≠ 0) → x' = x) → Flushes post todo v x' d) :
    Flushes post (bns.map .bmap ++ todo) v x d := by
  induction bns generalizing x with
  | nil => exact h x (.refl x) nofun fun _ => rfl
  | cons bn bns ih =>
    rw [List.map_cons, List.cons_append]
    refine .piece hd fun w v' front h0 he => ?_
    obtain ⟨⟨x₁, w₁⟩, hb, he⟩ := map_ok he
    cases he
    obtain ⟨hm, h0₁⟩ := bmap_spec hb h0
    refine ⟨⟨h0₁, fun _ => hh⟩, ih fun x' hg hmap hsame => h x' (hm.grown.trans hg) ?_ fun hall =>
      ?_⟩
    · intro bn' hbn
      rcases List.mem_cons.mp hbn with rfl | hbn
      · rw [hg.addrs _ hm.mapped]
        exact hm.mapped
      · exact hmap bn' hbn
    · have hx₁ := hm.same (hall bn List.mem_cons_self)
      rw [hx₁] at hsame
      exact hsame fun bn' hbn => hall bn' (List.mem_cons_of_mem bn hbn)

/-- The first loop of `itrunc`. -/
lemma Flushes.frees {ks : List ℕ} (hd : d.type ≠ .free) (hh : NoHole d)
    (h : ∀ x', x'.type = x.type → Flushes post todo v x' d) :
    Flushes post (ks.map .freeAddr ++ todo) v x d := by
  induction ks generalizing x with
  | nil => exact h x rfl
  | cons k ks ih =>
    rw [List.map_cons, List.cons_append]
    refine .piece hd fun w v' front h0 he => ?_
    obtain ⟨⟨x₁, w₁⟩, hf, he⟩ := map_ok he
    cases he
    obtain ⟨ht, h0₁⟩ := freeAddr_spec hf h0
    exact ⟨⟨h0₁, fun _ => hh⟩, ih fun x' hx' => h x' (hx'.trans ht)⟩

lemma noHole_empty (hx : x.size = 0) : NoHole x := fun bn hbn => absurd hbn (by omega)

/-- `itrunc` leaves an empty inode, in the buffers too. -/
lemma Flushes.itrunc (hd : d.type ≠ .free) (hh : NoHole d)
    (h : ∀ x', x'.type = x.type → x'.size = 0 → Flushes post todo v x' x') :
    Flushes post (itrunc ++ todo) v x d := by
  unfold Icache.itrunc
  rw [List.append_assoc]
  refine .frees hd hh fun x₁ h₁ => ?_
  refine .piece hd fun w v' front h0 he => ?_
  obtain ⟨⟨x₂, w₂⟩, hf, he⟩ := map_ok he
  cases he
  obtain ⟨h₂, h0₂⟩ := freeIndirect_spec hf h0
  refine ⟨⟨h0₂, fun _ => hh⟩, .set { x₂ with size := 0 } (fun _ => rfl) hd hh ?_⟩
  exact .iupdate hd (noHole_empty rfl) (h _ (h₂.trans h₁) rfl)

/-- A piece is done. -/
lemma Flushes.next {front : List Piece} {V V' : View}
    (h : Flushes post (p :: todo) V.valid V.copy V.disk) (h0 : V.space.used 0 = true)
    (hh : V.disk.type ≠ .free → NoHole V.disk) (hp : p.exec V = .ok (V', front)) :
    (V'.space.used 0 = true ∧ (V'.disk.type ≠ .free → NoHole V'.disk)) ∧
      Flushes post (front ++ todo) V'.valid V'.copy V'.disk := by
  cases h with
  | step hd hsafe h => exact ⟨hsafe V.space V' front h0 hp, h V.space V' front h0 hp⟩
  | invalidate h =>
    obtain ⟨rfl, rfl⟩ := Prod.mk.inj (Except.ok.inj hp)
    exact ⟨⟨h0, hh⟩, .done (h V.disk)⟩

/-! ### Calls -/

lemma mem_blocks_lt (h : bn ∈ blocks fuel off n) : bn * BSIZE < off + n := by
  induction fuel generalizing off n with
  | zero => cases h
  | succ fuel ih =>
    unfold blocks at h
    split_ifs at h with hn
    · cases h
    · rcases List.mem_cons.mp h with rfl | hmem
      · have := Nat.div_mul_le_self off BSIZE
        omega
      · have := ih hmem
        omega

lemma mem_blocks (hf : n ≤ fuel) (hn : 0 < n) (hlo : off / BSIZE ≤ bn)
    (hhi : bn * BSIZE < off + n) : bn ∈ blocks fuel off n := by
  induction fuel generalizing off n with
  | zero => omega
  | succ fuel ih =>
    unfold blocks
    rw [if_neg hn.ne']
    by_cases he : bn = off / BSIZE
    · exact List.mem_cons.mpr (.inl he)
    · refine List.mem_cons_of_mem _ ?_
      have hdiv := Nat.div_add_mod off BSIZE
      have hmod := Nat.mod_lt off (show 0 < BSIZE by decide)
      have hnext : (off / BSIZE + 1) * BSIZE ≤ bn * BSIZE := Nat.mul_le_mul_right _ (by omega)
      have hoff : off + (BSIZE - off % BSIZE) = (off / BSIZE + 1) * BSIZE := by
        rw [Nat.add_mul, Nat.one_mul, Nat.mul_comm]
        omega
      have hlt : BSIZE - off % BSIZE < n := by omega
      rw [min_eq_right hlt.le]
      refine ih (by omega) (by omega) ?_ (by omega)
      rw [hoff, Nat.mul_div_cancel _ (by decide : 0 < BSIZE)]
      omega

/-- Below the size all blocks are there, so nothing is added. -/
lemma NoHole.mapped (hx : NoHole x) (h : ∀ bn ∈ bns, bn * BSIZE < x.size) :
    ∀ bn ∈ bns, x.addrs (min bn NDIRECT) ≠ 0 := fun bn hbn => hx bn (h bn hbn)

lemma readi_flushes (hd : d.type ≠ .free) (hh : NoHole d) :
    Flushes Written (readi d off n) true d d := by
  have hdone : Written true d d := ⟨rfl, rfl, hd⟩
  have hloop (m : ℕ) (hm : off + m ≤ d.size) :
      Flushes Written ((blocks m off m).map .bmap) true d d := by
    rw [← List.append_nil (List.map _ _)]
    refine .bmaps hd hh fun x' _ _ hsame => ?_
    rw [hsame (hh.mapped fun bn hbn => lt_of_lt_of_le (mem_blocks_lt hbn) hm)]
    exact .done hdone
  unfold readi
  split_ifs
  · exact .done hdone
  · exact .done hdone
  · exact hloop _ (by omega)
  · exact hloop _ (by omega)

/-- The file after `writei` has no holes either: it starts at its size or before. -/
lemma Grown.noHole (hg : Grown x x') (hx : NoHole x) (hn : 0 < n) (hoff : off ≤ x.size)
    (hmap : ∀ bn ∈ blocks n off n, x'.addrs (min bn NDIRECT) ≠ 0) :
    NoHole { x' with size := off + n } := by
  intro bn hbn
  by_cases hlt : bn * BSIZE < x.size
  · change x'.addrs (min bn NDIRECT) ≠ 0
    rw [hg.addrs _ (hx bn hlt)]
    exact hx bn hlt
  · refine hmap bn (mem_blocks le_rfl hn ?_ hbn)
    exact Nat.div_le_of_le_mul (by rw [Nat.mul_comm]; omega)

lemma writei_flushes (hd : d.type ≠ .free) (hh : NoHole d) :
    Flushes Written (writei d off n) true d d := by
  have hdone : Written true d d := ⟨rfl, rfl, hd⟩
  unfold writei
  split_ifs with hdev hoff hmax hn
  · exact .done hdone
  · exact .done hdone
  · exact .done hdone
  · refine .bmaps hd hh fun x' hg hmap hsame => ?_
    have hsize : x'.size = d.size := by rw [hg.rest]
    have htype : x'.type = d.type := by rw [hg.rest]
    refine .piece hd fun w v' front h0 he => ?_
    by_cases hgrow : off + n > x'.size
    · -- the file grows: what has been added goes to the buffers
      simp only [Piece.exec, if_pos hgrow] at he
      obtain ⟨rfl, rfl⟩ := Prod.mk.inj (Except.ok.inj he)
      have hno := hg.noHole hh hn (not_lt.mp fun h => hoff (.inl h)) hmap
      exact ⟨⟨h0, fun _ => hh⟩, .iupdate hd hno (.done ⟨rfl, rfl, htype ▸ hd⟩)⟩
    · simp only [Piece.exec, if_neg hgrow] at he
      obtain ⟨rfl, rfl⟩ := Prod.mk.inj (Except.ok.inj he)
      have hx' : x' = d := hsame (hh.mapped fun bn hbn => by
        have := mem_blocks_lt hbn
        omega)
      exact ⟨⟨h0, fun _ => hh⟩, .done ⟨rfl, hx', hd⟩⟩
  · refine .bmaps hd hh fun x' _ _ hsame => ?_
    obtain rfl : n = 0 := by omega
    rw [hsame nofun]
    exact .done hdone

/-- **Write-through.** Every call on a locked inode leaves the two copies equal. -/
lemma Op.flushes (op : Op) (hd : d.type ≠ .free) (hh : NoHole d) :
    Flushes Written (op.work d) true d d := by
  cases op with
  | readi off n => exact readi_flushes hd hh
  | writei off n => exact writei_flushes hd hh
  | itrunc =>
    have h : Flushes Written (Icache.itrunc ++ []) true d d :=
      .itrunc hd hh fun x' ht _ => .done ⟨rfl, rfl, ht ▸ hd⟩
    rwa [List.append_nil] at h
  | iupdate => exact .iupdate hd hh (.done ⟨rfl, rfl, hd⟩)
  | link n =>
    exact .set { d with nlink := Fs.wrap16 (d.nlink + n) } (fun _ => rfl) hd hh
      (.iupdate hd hh (.done ⟨rfl, rfl, hd⟩))
  | setNew major minor =>
    exact .set { d with major := major, minor := minor, nlink := 1 } (fun _ => rfl) hd hh
      (.iupdate hd hh (.done ⟨rfl, rfl, hd⟩))

/-- `iput` frees an inode and leaves the slot not valid. -/
lemma ifree_flushes (hd : d.type ≠ .free) (hh : NoHole d) : Flushes Settled ifree true d d := by
  refine .itrunc hd hh fun x' ht hsize => ?_
  have hx' : x'.type ≠ .free := ht ▸ hd
  refine .set { x' with type := .free } (fun _ => rfl) hx' (noHole_empty hsize) ?_
  exact .iupdate hx' (noHole_empty hsize) (.invalidate fun _ => nofun)

/-- Somebody else writes an inode that is free in the buffers. -/
lemma Flushes.other {d' : Dinode} (h : Flushes post todo v x d) (hd : d.type = .free)
    (hpost : post v x d → post v x d') : Flushes post todo v x d' := by
  cases h with
  | done h => exact .done (hpost h)
  | step hd' => exact absurd hd hd'
  | invalidate h => exact .invalidate h

end Xv6.Icache
