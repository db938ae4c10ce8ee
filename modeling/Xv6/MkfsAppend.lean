import Xv6.MkfsImage

/-!
`iappend` of `mkfs` does to the image what `writei` of the kernel does to the disk. A state of the
disk mirrors the image if the inodes and the data blocks agree and its bitmap marks the blocks below
`freeblock`, although the image has no bitmap yet. Then `freeblock` is the block that `balloc`
finds.
-/

namespace Xv6.Mkfs

open Xv6.Lib.Bytes Xv6.Lib.Memory Xv6.Lib.Wp
open Xv6.Fs (BSIZE NDIRECT NINDIRECT MAXFILE FSSIZE IPB BPB Blk Block Dinode InodeType Super Slot
  fileSlot number)
open Function (update update_of_ne update_self update_eq_self update_idem)

/-- The super block. -/
def super : Super := ⟨FSSIZE, NINODES, inodestart, bmapstart⟩

/-- The disk `s` has what is on the image; `d` are the inodes, some of which `mkfs` may not have
written yet. -/
structure Mirror (d : ℕ → Mem) (st : St) (s : Blk) : Prop where
  sb : s.sb = super
  used : ∀ b, b < FSSIZE → s.used b = decide (b < st.freeblock)
  dinode : ∀ i, i < NINODES → s.dinode i = dinodeOf (d i)
  block : ∀ b, nmeta ≤ b → b < FSSIZE → s.block b = blockOf st.img b
  clear : ∀ b, st.freeblock ≤ b → b < FSSIZE → s.block b = fun _ => 0
  len : st.len = FSSIZE * BSIZE
  low : nmeta ≤ st.freeblock
  room : st.freeblock ≤ FSSIZE

/-- At most `n` blocks have been taken, and nothing below the data blocks is written. -/
structure Extends (st st' : St) (n : ℕ) : Prop where
  img : ∀ x, x < nmeta * BSIZE → st'.img x = st.img x
  freeinode : st'.freeinode = st.freeinode
  freeblock : st'.freeblock ≤ st.freeblock + n

lemma Extends.refl (st : St) : Extends st st 0 := ⟨fun _ _ => rfl, rfl, le_rfl⟩

lemma Extends.trans {st st' st'' : St} {m n : ℕ} (h : Extends st st' m) (h' : Extends st' st'' n) :
    Extends st st'' (m + n) where
  img x hx := (h'.img x hx).trans (h.img x hx)
  freeinode := h'.freeinode.trans h.freeinode
  freeblock := by
    have := h.freeblock
    have := h'.freeblock
    omega

lemma Extends.mono {st st' : St} {m n : ℕ} (h : Extends st st' m) (hmn : m ≤ n) :
    Extends st st' n :=
  ⟨h.img, h.freeinode, h.freeblock.trans (by omega)⟩

/-! ### Blocks of the image -/

section Blocks

variable {img : Mem} {a b o : ℕ} {bs : List UInt8}

lemma blockOf_put (h : o + bs.length ≤ BSIZE) :
    blockOf (put img (a * BSIZE + o) bs) a = put (blockOf img a) o bs := by
  funext j
  unfold blockOf
  split_ifs with hj
  · simp only [put, Nat.add_le_add_iff_left, Nat.add_sub_add_left, if_pos hj]
  · rw [put_of_ge (by omega), if_neg hj]

lemma blockOf_put_other (h : o + bs.length ≤ BSIZE) (hb : b ≠ a) :
    blockOf (put img (a * BSIZE + o) bs) b = blockOf img b := by
  funext j
  unfold blockOf
  split_ifs with hj
  · refine put_of_disjoint ?_
    rcases Nat.lt_or_gt_of_ne hb with hlt | hgt
    · have := Nat.mul_le_mul_right BSIZE hlt
      rw [Nat.succ_mul] at this
      omega
    · have := Nat.mul_le_mul_right BSIZE hgt
      rw [Nat.succ_mul] at this
      omega
  · rfl

/-- What the kernel and `mkfs` copy into a block. -/
lemma copyIn_eq_put (x : Mem) {m : ℕ} {src : List UInt8} (hm : m ≤ src.length) :
    Fs.copyIn x o m src = put x o (src.take m) := by
  funext j
  unfold Fs.copyIn
  split_ifs with hj
  · rw [put, if_pos hj.1, List.getElem?_take_of_lt (by omega), List.getD_eq_getElem?_getD,
      List.getElem?_eq_getElem (by omega)]
    rfl
  · refine (put_of_disjoint ?_).symm
    rw [List.length_take]
    omega

end Blocks

/-! ### What the disk does with the image -/

section Mirror

variable {d : ℕ → Mem} {st : St} {s : Blk} {i a k : ℕ} {din : Mem}

lemma Mirror.setHeld (h : Mirror d st s) (held : List ℕ) : Mirror d st (s.setHeld held) :=
  ⟨h.sb, h.used, h.dinode, h.block, h.clear, h.len, h.low, h.room⟩

lemma Mirror.setLogged (h : Mirror d st s) (l : List ℕ) : Mirror d st (s.setLogged l) :=
  ⟨h.sb, h.used, h.dinode, h.block, h.clear, h.len, h.low, h.room⟩

/-- The next block is taken. -/
lemma Mirror.take (h : Mirror d st s) (hlt : st.freeblock < FSSIZE) :
    Mirror d { st with freeblock := st.freeblock + 1 }
      ((s.setUsed st.freeblock true).setBlock st.freeblock fun _ => 0) where
  sb := h.sb
  used b hb := by
    by_cases hbf : b = st.freeblock
    · subst hbf
      exact (update_self ..).trans (decide_eq_true (Nat.lt_succ_self _)).symm
    · refine (update_of_ne hbf ..).trans ?_
      rw [h.used b hb, decide_eq_decide]
      change b < st.freeblock ↔ b < st.freeblock + 1
      omega
  dinode := h.dinode
  block b hb hb' := by
    by_cases hbf : b = st.freeblock
    · subst hbf
      refine (update_self ..).trans ?_
      rw [← h.clear _ le_rfl hb']
      exact h.block _ hb hb'
    · exact (update_of_ne hbf ..).trans (h.block b hb hb')
  clear b hb hb' := by
    have hbf : st.freeblock < b := hb
    exact (update_of_ne hbf.ne' ..).trans (h.clear b hbf.le hb')
  len := h.len
  low := Nat.le_succ_of_le h.low
  room := hlt

/-- An inode is changed. -/
lemma Mirror.setDinode (h : Mirror d st s) (i : ℕ) (m : Mem) :
    Mirror (update d i m) st (s.setDinode i (dinodeOf m)) where
  sb := h.sb
  used := h.used
  dinode j hj := by
    by_cases hji : j = i
    · subst hji
      rw [Fs.dinode_setDinode_self, update_self]
    · rw [Fs.dinode_setDinode_other hji, update_of_ne hji, h.dinode j hj]
  block := h.block
  clear := h.clear
  len := h.len
  low := h.low
  room := h.room

/-- Bytes of a data block in use are written. -/
lemma Mirror.write (h : Mirror d st s) (ha : nmeta ≤ a) (hlt : a < st.freeblock) {o : ℕ}
    {bs : List UInt8} (hfit : o + bs.length ≤ BSIZE) :
    Mirror d { st with img := put st.img (a * BSIZE + o) bs }
      (s.setBlock a (put (s.block a) o bs)) where
  sb := h.sb
  used := h.used
  dinode := h.dinode
  block b hb hb' := by
    by_cases hba : b = a
    · subst hba
      refine (update_self ..).trans ?_
      rw [h.block b hb hb', blockOf_put hfit]
    · refine (update_of_ne hba ..).trans ?_
      rw [h.block b hb hb', blockOf_put_other hfit hba]
  clear b hb hb' := by
    have hfb : st.freeblock ≤ b := hb
    exact (update_of_ne (by omega) ..).trans (h.clear b hfb hb')
  len := h.len
  low := h.low
  room := h.room

lemma Extends.write (st : St) (ha : nmeta ≤ a) (o : ℕ) (bs : List UInt8) :
    Extends st { st with img := put st.img (a * BSIZE + o) bs } 0 where
  img x hx := put_of_lt (by
    have := Nat.mul_le_mul_right BSIZE ha
    omega)
  freeinode := rfl
  freeblock := le_rfl

lemma Mirror.addr (h : Mirror (update d i din) st s) (hi : i < NINODES)
    (hk : k ≤ NDIRECT) : (s.dinode i).addrs k = num din (addrAt k) 4 := by
  rw [h.dinode i hi, update_self]
  exact if_pos hk

lemma Mirror.entry (h : Mirror d st s) (ha : nmeta ≤ a) (ha' : a < FSSIZE) (hk : k < NINDIRECT) :
    Fs.word (s.block a) k = num (fun j => st.img (a * BSIZE + j)) (4 * k) 4 := by
  rw [h.block a ha ha', word_eq_num]
  have hlt : 4 * k + 4 ≤ BSIZE := by
    simp only [show NINDIRECT = 128 from rfl, show BSIZE = 512 from rfl] at *
    omega
  exact num_congr fun x _ hx => if_pos (by omega)

/-- A block in a slot is a data block that has been taken. -/
lemma Mirror.named (h : Mirror d st s) (hb : s.Booked) {p : ℕ × Slot} (hp : s.named p = some a) :
    nmeta ≤ a ∧ a < FSSIZE ∧ a < st.freeblock := by
  obtain ⟨⟨hlo, hhi⟩, hu⟩ := hb.exact.marked p a hp
  rw [h.sb] at hlo hhi
  rw [h.used a hhi] at hu
  exact ⟨hlo, hhi, of_decide_eq_true hu⟩

/-- Both take the same block. -/
lemma Mirror.balloc (h : Mirror d st s) (hlt : st.freeblock < FSSIZE)
    (hheld : ∀ b ∈ s.held, nmeta ≤ b ∧ b < st.freeblock) :
    wp Fs.balloc (fun b t => b = st.freeblock ∧
      ∃ l, t = ((s.setUsed st.freeblock true).setBlock st.freeblock fun _ => 0).setLogged l)
      (fun _ => False) s := by
  have hused (b : ℕ) (hb : b ≤ st.freeblock) : s.used b = decide (b < st.freeblock) :=
    h.used b (by omega)
  refine Fs.balloc_first (fun c hc => ?_) ?_ (by rw [h.sb]; exact hlt) (by rw [h.sb]; decide)
    (fun hm => ?_) fun hm => ?_
  · rw [hused c hc.le]
    exact decide_eq_true hc
  · rw [hused _ le_rfl]
    exact decide_eq_false (lt_irrefl _)
  · rw [h.sb] at hm
    exact absurd (hheld _ hm).1 (by decide)
  · exact absurd (hheld _ hm).2 (lt_irrefl _)

end Mirror

/-! ### The block for the next byte -/

section BlockFor

variable {d : ℕ → Mem} {st : St} {s : Blk} {i a k fbn : ℕ} {din : Mem}

/-- There is no block left, and `x` is the one behind the last. -/
structure Full (st st' : St) (x n : ℕ) : Prop where
  block : x = FSSIZE
  len : st'.len = FSSIZE * BSIZE
  freeblock : FSSIZE < st.freeblock + n

lemma fillAddr_sim (hm : Mirror (update d i din) st s) (hi : i < NINODES)
    (hk : k ≤ NDIRECT) (hheld : s.held = []) :
    wp (fillAddr din k) (fun din' st' => Full st st' (num din' (addrAt k) 4) 1 ∨
      Extends st st' 1 ∧ wp (Fs.bmapAddr i k) (fun a s' => a = num din' (addrAt k) 4 ∧
        s'.held = [] ∧ Mirror (update d i din') st' s') (fun _ => False) s)
      (fun _ => False) st := by
  have haddr := hm.addr hi hk
  unfold fillAddr Fs.bmapAddr
  refine wp_ite (fun h0 => ?_) fun h0 => ?_
  · rw [h0] at haddr
    refine wp_bind (wp_bind (wp_get (wp_bind (wp_modify (wp_pure (wp_pure ?_))))))
    have hroom := hm.room
    have hsmall : st.freeblock < 2 ^ 32 := lt_of_le_of_lt hroom (by decide)
    rw [num_putNum (show st.freeblock < 256 ^ 4 from hsmall)]
    rcases hroom.lt_or_eq with hlt | heq
    · refine .inr ⟨⟨fun _ _ => rfl, rfl, le_rfl⟩, ?_⟩
      refine wp_bind (wp_get (wp_ite (fun _ => ?_) fun h => absurd haddr h))
      refine wp_bind (wp_mono (hm.balloc hlt (by rw [hheld]; nofun)) ?_ fun _ => id)
      rintro b t ⟨rfl, l, rfl⟩
      refine wp_bind (wp_modify (wp_pure ⟨rfl, hheld, ?_⟩))
      have hnew := ((hm.take hlt).setLogged l).setDinode i (putNum din (addrAt k) 4 st.freeblock)
      rw [update_idem, dinodeOf_addr hk hsmall] at hnew
      have hdi : s.dinode i = dinodeOf din := by rw [hm.dinode i hi, update_self]
      unfold Fs.Blk.setAddr
      change Mirror _ _ (Fs.Blk.setDinode _ i { s.dinode i with
        addrs := update (s.dinode i).addrs k st.freeblock })
      rw [hdi]
      exact hnew
    · exact .inl ⟨heq, hm.len, by omega⟩
  · refine wp_pure (.inr ⟨(Extends.refl st).mono (by omega), ?_⟩)
    refine wp_bind (wp_get (wp_ite (fun h => absurd (haddr.symm.trans h) h0) fun _ => ?_))
    exact wp_pure ⟨haddr, hheld, hm⟩

/-- The kernel has locked the buffer of the indirect block. -/
lemma fillEntry_sim (hm : Mirror d st s) (ha : nmeta ≤ a) (ha' : a < FSSIZE)
    (hlt : a < st.freeblock) (hk : k < NINDIRECT) (hheld : s.held = [a]) :
    wp (fillEntry a k) (fun ind st' => Full st st' (num ind (4 * k) 4) 1 ∨
      Extends st st' 1 ∧ wp (Fs.bmapEntry a k) (fun b s' => b = num ind (4 * k) 4 ∧ s'.held = [a] ∧
        Mirror d st' s') (fun _ => False) s) (fun _ => False) st := by
  have hentry := hm.entry ha ha' hk
  have hfit (v : ℕ) : 4 * k + (leBytes 4 v).length ≤ BSIZE := by
    rw [length_leBytes]
    simp only [show NINDIRECT = 128 from rfl, show BSIZE = 512 from rfl] at *
    omega
  unfold fillEntry Fs.bmapEntry
  refine wp_bind (wp_rsect hm.len ha' (wp_ite (fun h0 => ?_) fun h0 => ?_))
  · rw [h0] at hentry
    refine wp_bind (wp_bind (wp_get (wp_bind (wp_modify (wp_pure ?_)))))
    refine wp_bind (wp_wsect hm.len ha' (wp_pure ?_))
    have hroom := hm.room
    have hsmall : st.freeblock < 256 ^ 4 := lt_of_le_of_lt hroom (by decide)
    rw [num_putNum hsmall]
    unfold putNum
    rw [put_sector (hfit _)]
    rcases hroom.lt_or_eq with hfb | heq
    · refine .inr ⟨?_, ?_⟩
      · have hext := Extends.write { st with freeblock := st.freeblock + 1 } ha (4 * k)
          (leBytes 4 st.freeblock)
        exact ⟨hext.img, rfl, le_rfl⟩
      refine wp_bind (wp_get (wp_ite (fun _ => ?_) fun h => absurd hentry h))
      refine wp_bind (wp_mono (hm.balloc hfb fun b hb => ?_) ?_ fun _ => id)
      · rw [hheld] at hb
        obtain rfl := List.mem_singleton.mp hb
        exact ⟨ha, hlt⟩
      rintro b t ⟨rfl, l, rfl⟩
      refine wp_bind (wp_modify (wp_bind (wp_modify (wp_pure ⟨rfl, hheld, ?_⟩))))
      rw [setWord_eq_putNum]
      exact (((hm.take hfb).setLogged l).write ha (Nat.lt_succ_of_lt hlt) (hfit _)).setLogged _
    · exact .inl ⟨heq, hm.len, by omega⟩
  · refine wp_pure (.inr ⟨(Extends.refl st).mono (by omega), ?_⟩)
    refine wp_bind (wp_get (wp_ite (fun h => absurd (hentry.symm.trans h) h0) fun _ => ?_))
    exact wp_pure ⟨hentry, hheld, hm⟩

lemma blockFor_sim (hm : Mirror (update d i din) st s) (hb : s.Booked)
    (hal : s.Allocated i) (hi : i < NINODES) (hheld : s.held = []) (hfbn : fbn < MAXFILE) :
    wp (blockFor din fbn) (fun r st' => Full st st' r.1 2 ∨
      Extends st st' 2 ∧ wp (Fs.bmap i fbn) (fun a s' => a = r.1 ∧ s'.held = [] ∧
        Mirror (update d i r.2) st' s') (fun _ => False) s)
      (fun _ => FSSIZE < st.freeblock + 2) st := by
  unfold blockFor Fs.bmap
  refine wp_ite (fun hd => ?_) fun hd => ?_
  · rw [if_pos hd]
    refine wp_bind (wp_mono (fillAddr_sim hm hi hd.le hheld) (fun din' st' h => wp_pure ?_) nofun)
    rcases h with hfull | ⟨hext, hsim⟩
    · exact .inl ⟨hfull.block, hfull.len, by have := hfull.freeblock; omega⟩
    · exact .inr ⟨hext.mono (by omega), hsim⟩
  · have hk : fbn - NDIRECT < NINDIRECT := by
      unfold MAXFILE at hfbn
      omega
    rw [if_neg hd, if_pos hk]
    refine wp_bind (wp_mono (fillAddr_sim hm hi le_rfl hheld) (fun din' st₁ h => ?_) nofun)
    rcases h with hfull | ⟨hext, hsim⟩
    · -- the indirect block itself cannot be read
      rw [hfull.block]
      unfold fillEntry
      refine wp_bind (wp_bind (wp_rsect_end hfull.len ?_))
      have := hfull.freeblock
      omega
    · obtain ⟨a, s₁, hrun, ⟨rfl, hheld₁, hm₁⟩, he, hn⟩ :=
        wp_total (wp_mono (wp_and hsim (Fs.bmapAddr_spec hb hal le_rfl)) (fun _ _ => id)
          fun _ h => h.1.elim)
      obtain ⟨ha, ha', hlt⟩ := hm₁.named he.grown.booked hn
      set a := num din' (addrAt NDIRECT) 4
      have hh : (s₁.setHeld (a :: s₁.held)).held = [a] := by
        change a :: s₁.held = [a]
        rw [hheld₁]
      refine wp_bind
        (wp_mono (fillEntry_sim (hm₁.setHeld (a :: s₁.held)) ha ha' hlt hk hh) ?_ nofun)
      rintro ind st₂ (hfull | ⟨hext', hsim'⟩)
      · refine wp_pure (.inl ⟨hfull.block, hfull.len, ?_⟩)
        have := hfull.freeblock
        have := hext.freeblock
        omega
      · refine wp_pure (.inr ⟨hext.trans hext', wp_bind (wp_of_ok hrun (wp_bind ?_))⟩)
        refine Fs.wp_bread_free (by simp [hheld₁]) ?_
        refine wp_bind (wp_mono hsim' ?_ fun _ => id)
        rintro b s₂ ⟨rfl, hheld₂, hm₂⟩
        exact wp_bind (Fs.wp_brelse hheld₂ (wp_pure ⟨rfl, rfl, hm₂.setHeld []⟩))

end BlockFor

/-! ### The loop -/

/-- How often `iappend` goes round for `n` bytes. -/
def turns (off n : ℕ) : ℕ := if n = 0 then 0 else (off + n - 1) / BSIZE - off / BSIZE + 1

/-- The bytes that `mkfs` copies at a time, as the kernel has them. -/
lemma chunk_eq (off n : ℕ) :
    min n ((off / BSIZE + 1) * BSIZE - off) = min n (BSIZE - off % BSIZE) := by
  have hdiv := Nat.div_add_mod off BSIZE
  rw [Nat.add_mul, Nat.one_mul, Nat.mul_comm (off / BSIZE)]
  congr 1
  omega

lemma turns_step {off n m : ℕ} (hn : n ≠ 0) (hm : m = min n (BSIZE - off % BSIZE)) :
    turns (off + m) (n - m) + 1 ≤ turns off n := by
  unfold turns
  simp only [show BSIZE = 512 from rfl] at *
  split_ifs <;> omega

section Loop

variable {d : ℕ → Mem} {st : St} {s : Blk} {i off : ℕ} {din : Mem}

lemma appendFrom_sim (p : List UInt8) (hm : Mirror (update d i din) st s) (hb : s.Booked)
    (hal : s.Allocated i) (hi : i < NINODES) (hheld : s.held = []) :
    wp (appendFrom din off p) (fun r st' => Extends st st' (2 * turns off p.length) ∧
      (0 < p.length → off + p.length ≤ MAXFILE * BSIZE) ∧
      wp (Fs.writeBytes i off p) (fun last s' => last = r.1 ∧ s'.held = [] ∧
        Mirror (update d i r.2) st' s') (fun _ => False) s)
      (fun _ => MAXFILE * BSIZE < off + p.length ∨
        FSSIZE < st.freeblock + 2 * turns off p.length) st := by
  induction hn : p.length using Nat.strong_induction_on generalizing st s off din p with
  | h n ih =>
    subst hn
    rw [appendFrom, Fs.writeBytes]
    refine wp_ite (fun h0 => wp_pure ?_) fun h0 => ?_
    · rw [if_pos h0]
      exact ⟨(Extends.refl st).mono (Nat.zero_le _), fun h => absurd h0 h.ne',
        wp_pure ⟨rfl, hheld, hm⟩⟩
    rw [if_neg h0]
    have hoff : off / BSIZE * BSIZE ≤ off := Nat.div_mul_le_self off BSIZE
    have hdiv := Nat.div_add_mod off BSIZE
    have hmod := Nat.mod_lt off (show 0 < BSIZE by decide)
    have hpos : off - off / BSIZE * BSIZE = off % BSIZE := by
      rw [Nat.mul_comm]
      omega
    set m := min p.length (BSIZE - off % BSIZE) with hmdef
    have hstep := turns_step h0 hmdef
    refine wp_ite (fun hfbn => ?_) fun hfbn => wp_throw (.inl ?_)
    · refine wp_bind (wp_mono (blockFor_sim hm hb hal hi hheld hfbn) ?_ fun _ h => .inr (by omega))
      rintro ⟨x, din'⟩ st₁ (hfull | ⟨hext, hsim⟩)
      · obtain rfl : x = FSSIZE := hfull.block
        have := hfull.freeblock
        refine wp_bind ?_
        exact wp_rsect_end hfull.len (.inr (by omega))
      obtain ⟨a, s₁, hrun, ⟨rfl, hheld₁, hm₁⟩, he, hname⟩ :=
        wp_total (wp_mono (wp_and hsim (Fs.bmap_spec hb hal)) (fun _ _ => id) fun _ h => h.1.elim)
      obtain ⟨ha, ha', hlt⟩ := hm₁.named he.grown.booked hname
      have hfit : off % BSIZE + (p.take m).length ≤ BSIZE := by
        rw [List.length_take]
        omega
      dsimp only
      rw [chunk_eq, hpos, ← hmdef]
      refine wp_bind (wp_rsect hm₁.len ha' (wp_bind (wp_wsect hm₁.len ha' ?_)))
      rw [put_sector hfit]
      have hm₂ := (hm₁.write ha hlt hfit).setLogged (a :: s₁.logged)
      have he₂ := he.trans ((Fs.Effect.setBlock he.grown.booked hname
        (put (s₁.block a) (off % BSIZE) (p.take m))).log a)
      have hlen : (p.drop m).length = p.length - m := List.length_drop
      have hext₂ := hext.trans (Extends.write st₁ ha (off % BSIZE) (p.take m))
      have hfb := hext.freeblock
      refine wp_mono (ih (p.length - m) (by omega) (p.drop m) hm₂ he₂.grown.booked
        (he₂.grown.allocated.mpr hal) hheld₁ hlen) ?_ fun _ h => ?_
      · rintro r st' ⟨hext', hmax, hsim'⟩
        refine ⟨(hext₂.trans hext').mono (by omega), fun _ => ?_, ?_⟩
        · by_cases hrest : p.length - m = 0
          · have hle : (off / BSIZE + 1) * BSIZE ≤ MAXFILE * BSIZE := Nat.mul_le_mul_right _ hfbn
            rw [Nat.add_mul, Nat.one_mul, Nat.mul_comm] at hle
            omega
          · have := hmax (by omega)
            omega
        · refine wp_bind (wp_of_ok hrun (wp_bind ?_))
          refine Fs.wp_bread_free (by simp [hheld₁]) ?_
          refine wp_bind (wp_modify (wp_bind (wp_modify (wp_bind (Fs.wp_brelse rfl ?_)))))
          change wp (Fs.writeBytes i (off + m) (p.drop m)) _ _
            ((s₁.setBlock a (Fs.copyIn (s₁.block a) (off % BSIZE) m p)).log a)
          rw [copyIn_eq_put _ (by omega)]
          exact hsim'
      · have hsum : off + m + (p.length - m) = off + p.length := by omega
        rw [hsum] at h
        refine h.imp_right fun h => ?_
        change FSSIZE < st₁.freeblock + _ at h
        omega
    · have hle : MAXFILE * BSIZE ≤ off / BSIZE * BSIZE := Nat.mul_le_mul_right _ (not_lt.mp hfbn)
      omega

end Loop

/-! ### Inodes on the image -/

section Inodes

variable {d : ℕ → Mem} {st : St} {s : Blk} {i : ℕ} {m : Mem} {p : List UInt8}

/-- The inode is written to the image. -/
lemma Mirror.winode (h : Mirror d st s) (hi : i < NINODES) (hself : d i = m)
    (hd : ∀ j, j < NINODES → j ≠ i → dinodeOf (d j) = dinodeOf (inodeOf st.img j)) :
    Mirror (inodeOf (put st.img (inodeAt i) (get m 0 DINODE)))
      { st with img := put st.img (inodeAt i) (get m 0 DINODE) } s where
  sb := h.sb
  used := h.used
  dinode j hj := by
    rw [h.dinode j hj]
    by_cases hji : j = i
    · subst hji
      rw [hself]
      refine (dinodeOf_congr fun x hx => ?_).symm
      unfold inodeOf put
      rw [if_pos (by omega), Nat.add_sub_cancel_left, getElem?_get, if_pos hx, Nat.zero_add]
      rfl
    · rw [hd j hj hji]
      refine (dinodeOf_congr fun x hx => ?_).symm
      have := inodeAt_disjoint hji
      exact put_of_disjoint (by rw [length_get]; omega)
  block b hb hb' := by
    rw [h.block b hb hb']
    funext x
    unfold blockOf
    split_ifs with hx
    · refine (put_of_ge ?_).symm
      rw [length_get]
      have := inodeAt_lt hi
      have hle : (bmapstart + 1) * BSIZE ≤ b * BSIZE := Nat.mul_le_mul_right _ hb
      rw [Nat.succ_mul] at hle
      omega
    · rfl
  clear := h.clear
  len := h.len
  low := h.low
  room := h.room

lemma dinodeOf_low {img img' : Mem} (himg : ∀ x, x < nmeta * BSIZE → img' x = img x)
    (hi : i < NINODES) : dinodeOf (inodeOf img' i) = dinodeOf (inodeOf img i) := by
  refine dinodeOf_congr fun x hx => himg _ ?_
  have := inodeAt_lt hi
  have hle : bmapstart * BSIZE ≤ nmeta * BSIZE := Nat.mul_le_mul_right _ (by decide)
  omega

/-- **Appending.** `iappend` mirrors `writei` at the end of the file. It fails only if the file or
the disk may be too small. -/
lemma iappend_sim (hm : Mirror (inodeOf st.img) st s) (hs : Fs.Sound s) (hal : s.Allocated i)
    (hi : i < NINODES) (hheld : s.held = []) (hp : 0 < p.length) :
    wp (iappend i p) (fun _ st' => (∀ x, x < inodestart * BSIZE → st'.img x = st.img x) ∧
      st'.freeinode = st.freeinode ∧
      st'.freeblock ≤ st.freeblock + 2 * turns (s.dinode i).size p.length ∧
      wp (Fs.Blk.writei i (s.dinode i).size p) (fun r s' => r = some p.length ∧ s'.held = [] ∧
        Mirror (inodeOf st'.img) st' s') (fun _ => False) s)
      (fun _ => MAXFILE * BSIZE < (s.dinode i).size + p.length ∨
        FSSIZE < st.freeblock + 2 * turns (s.dinode i).size p.length) st := by
  have hdi := hm.dinode i hi
  have hsize : num (inodeOf st.img i) sizeAt 4 = (s.dinode i).size := by rw [hdi]; rfl
  unfold iappend
  refine wp_bind (wp_rinode hm.len hi (wp_bind ?_))
  rw [hsize]
  have hm₀ : Mirror (update (inodeOf st.img) i (inodeOf st.img i)) st s := by
    rwa [update_eq_self]
  refine wp_mono (appendFrom_sim p hm₀ hs.booked hal hi hheld) ?_ fun _ => id
  rintro ⟨last, din₁⟩ st₁ ⟨hext, hmax, hsim⟩
  obtain ⟨_, s₁, hrun, ⟨rfl, hheld₁, hm₁⟩, -, rfl, -⟩ := wp_total
    (wp_mono (wp_and hsim (Fs.writeBytes_spec p hs.booked hal)) (fun _ _ => id) fun _ h => h.1.elim)
  have hmax := hmax hp
  have hlt : (s.dinode i).size + p.length < 2 ^ 32 := lt_of_le_of_lt hmax (by decide)
  refine wp_winode hm₁.len hi ⟨fun x hx => ?_, hext.freeinode, hext.freeblock, ?_⟩
  · have hle : inodestart * BSIZE ≤ nmeta * BSIZE := Nat.mul_le_mul_right _ (by decide)
    refine (put_of_lt ?_).trans (hext.img x (by omega))
    unfold inodeAt
    omega
  unfold Fs.Blk.writei
  refine wp_bind (wp_get (wp_ite (fun h => ?_) fun _ => wp_ite (fun h => ?_) fun _ => ?_))
  · rw [Nat.mod_eq_of_lt hlt] at h
    omega
  · exact absurd h (not_lt.mpr hmax)
  refine wp_bind (wp_of_ok hrun (wp_ite (fun _ => ?_) fun h => ?_))
  · refine wp_bind (wp_modify (wp_bind (Fs.wp_iupdate_free ?_ (wp_pure ⟨rfl, hheld₁, ?_⟩))))
    · change _ ∉ s₁.held
      rw [hheld₁]
      nofun
    have hm₂ := hm₁.setDinode i (putNum din₁ sizeAt 4 ((s.dinode i).size + p.length))
    have hdi₁ : s₁.dinode i = dinodeOf din₁ := by rw [hm₁.dinode i hi, update_self]
    rw [dinodeOf_size hlt, ← hdi₁] at hm₂
    refine (hm₂.setLogged _).winode hi (update_self ..) fun j hj hji => ?_
    rw [update_of_ne hji, update_of_ne hji, dinodeOf_low hext.img hj]
  · exact absurd ⟨hp, by omega⟩ h

end Inodes

end Xv6.Mkfs
