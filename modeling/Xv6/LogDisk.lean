import Mathlib.Data.List.Range
import Xv6.Lib.Store

/-!
The redo log of `log.c` over the buffer cache and the disk.

A block is read as the 128 C integers it holds; the log header uses the first as the count
`n` and the next `n` as block numbers. The buffer cache keeps a copy of some blocks: a
clean copy may be recycled whenever another block is read, a dirty one is pinned. Every
`bwrite` is also appended to `writes`, the sequence of single-block writes the disk has
seen, so that a crash is a prefix of that sequence.
-/

namespace Xv6.LogDisk

open Xv6.Lib
open Function (update update_of_ne update_self)

/-- `LOGSIZE`: the length of `log.lh.block`. -/
def LOGSIZE : ℕ := 30

/-- `BSIZE / sizeof(int)`. -/
def NINT : ℕ := 128

abbrev Block := Fin NINT → ℕ

abbrev Disk := ℕ → Block

def word (b : Block) (i : ℕ) : ℕ := if h : i < NINT then b ⟨i, h⟩ else 0

def setWord (b : Block) (i v : ℕ) : Block := fun j => if j.val = i then v else b j

lemma word_setWord (b : Block) (i j v : ℕ) (hj : j < NINT) :
    word (setWord b i v) j = if j = i then v else word b j := by
  simp [word, setWord, hj]

/-- A buffer of the cache that holds a valid copy of its block. -/
structure Buf where
  data : Block
  dirty : Bool
  refcnt : ℕ

/-- The disk, the buffer cache, the in-memory header `log.lh` (its first `n` entries), and
the writes the disk has seen. -/
structure Machine where
  disk : Disk
  cache : ℕ → Option Buf
  lh : List ℕ
  writes : List (ℕ × Block)

/-- Where `initlog` found the log, and the order in which `bget` recycles buffers. -/
structure Log where
  start : ℕ
  size : ℕ
  victim : (ℕ → Option Buf) → ℕ

variable (L : Log)

/-- `bget` recycles a buffer only if nobody holds it and it is not dirty. -/
def recycle (c : ℕ → Option Buf) : ℕ → Option Buf :=
  match c (L.victim c) with
  | some buf => if buf.refcnt = 0 ∧ buf.dirty = false then update c (L.victim c) none else c
  | none => c

/-- `bread`: the cached copy if there is one, else the block is read from the disk. -/
def bread (s : Machine) (b : ℕ) : Block × Machine :=
  match s.cache b with
  | some buf =>
    (buf.data, { s with cache := update s.cache b (some { buf with refcnt := buf.refcnt + 1 }) })
  | none =>
    (s.disk b, { s with cache := update (recycle L s.cache) b (some ⟨s.disk b, false, 1⟩) })

/-- `bwrite` of a buffer the caller has filled with `data`; the driver clears `B_DIRTY`. -/
def bwrite (s : Machine) (b : ℕ) (data : Block) : Machine :=
  { s with
    disk := update s.disk b data
    cache := update s.cache b (some ⟨data, false, ((s.cache b).map Buf.refcnt).getD 1⟩)
    writes := s.writes ++ [(b, data)] }

def Buf.unref (buf : Buf) : Buf := { buf with refcnt := buf.refcnt - 1 }

def brelse (s : Machine) (b : ℕ) : Machine :=
  { s with cache := update s.cache b ((s.cache b).map Buf.unref) }

/-- The loop of `install_trans` from index `tail` on. -/
def installFrom : ℕ → List ℕ → Machine → Machine
  | _, [], s => s
  | tail, b :: bs, s =>
    let (lbuf, s) := bread L s (L.start + tail + 1)
    let (_, s) := bread L s b
    let s := bwrite s b lbuf
    let s := brelse s (L.start + tail + 1)
    let s := brelse s b
    installFrom (tail + 1) bs s

def installTrans (s : Machine) : Machine := installFrom L 0 s.lh s

/-- The block numbers a header block lists. -/
def headBlocks (b : Block) : List ℕ := (List.range (word b 0)).map fun i => word b (i + 1)

def readHead (s : Machine) : Machine :=
  let (buf, s) := bread L s L.start
  let s := { s with lh := headBlocks buf }
  brelse s L.start

/-- The loop of `write_head` from index `i` on. -/
def putBlocks : ℕ → List ℕ → Block → Block
  | _, [], hb => hb
  | i, b :: bs, hb => putBlocks (i + 1) bs (setWord hb (i + 1) b)

def putHead (lh : List ℕ) (hb : Block) : Block := putBlocks 0 lh (setWord hb 0 lh.length)

def writeHead (s : Machine) : Machine :=
  let (buf, s) := bread L s L.start
  let s := bwrite s L.start (putHead s.lh buf)
  brelse s L.start

def recoverFromLog (s : Machine) : Machine :=
  let s := readHead L s
  let s := installTrans L s
  let s := { s with lh := [] }
  writeHead L s

/-- The loop of `write_log` from index `tail` on. -/
def writeLogFrom : ℕ → List ℕ → Machine → Machine
  | _, [], s => s
  | tail, b :: bs, s =>
    let (_, s) := bread L s (L.start + tail + 1)
    let (cur, s) := bread L s b
    let s := bwrite s (L.start + tail + 1) cur
    let s := brelse s b
    let s := brelse s (L.start + tail + 1)
    writeLogFrom (tail + 1) bs s

def writeLog (s : Machine) : Machine := writeLogFrom L 0 s.lh s

def commit (s : Machine) : Machine :=
  if s.lh.length > 0 then
    let s := writeLog L s
    let s := writeHead L s
    let s := installTrans L s
    let s := { s with lh := [] }
    writeHead L s
  else s

/-! ### The cache is transparent -/

/-- What `bread` would return. -/
def view (s : Machine) (b : ℕ) : Block := ((s.cache b).map Buf.data).getD (s.disk b)

/-- Clean copies agree with the disk. -/
def Coherent (s : Machine) : Prop :=
  ∀ b buf, s.cache b = some buf → buf.dirty = false → buf.data = s.disk b

/-- `t` is `s` after the writes `ws`, up to what the cache holds. -/
structure Wrote (s : Machine) (ws : List (ℕ × Block)) (t : Machine) : Prop where
  disk : t.disk = Store.apply s.disk ws
  view : view t = Store.apply (view s) ws
  writes : t.writes = s.writes ++ ws
  lh : t.lh = s.lh
  coherent : Coherent s → Coherent t

variable {s : Machine} {v : Disk} {tail : ℕ} {bs : List ℕ}

lemma Wrote.trans {t u : Machine} {ws vs : List (ℕ × Block)} (h : Wrote s ws t) (k : Wrote t vs u) :
    Wrote s (ws ++ vs) u where
  disk := by rw [k.disk, h.disk, Store.apply_append]
  view := by rw [k.view, h.view, Store.apply_append]
  writes := by rw [k.writes, h.writes, List.append_assoc]
  lh := k.lh.trans h.lh
  coherent := fun hc => k.coherent (h.coherent hc)

lemma Wrote.refl (s : Machine) : Wrote s [] s := ⟨rfl, rfl, by simp, rfl, id⟩

lemma recycle_view (hc : Coherent s) (b : ℕ) :
    ((recycle L s.cache b).map Buf.data).getD (s.disk b) = view s b := by
  unfold recycle view
  rcases hv : s.cache (L.victim s.cache) with _ | buf
  · rfl
  · by_cases hr : buf.refcnt = 0 ∧ buf.dirty = false
    · by_cases hb : b = L.victim s.cache
      · subst hb
        simp [hr, hv, hc _ _ hv hr.2]
      · simp [hr, update_of_ne hb]
    · simp [hr]

lemma recycle_some {c : ℕ → Option Buf} {b : ℕ} {buf : Buf} (h : recycle L c b = some buf) :
    c b = some buf := by
  unfold recycle at h
  rcases hv : c (L.victim c) with _ | vb
  · simpa [hv] using h
  · simp only [hv] at h
    by_cases hr : vb.refcnt = 0 ∧ vb.dirty = false
    · rw [if_pos hr] at h
      by_cases hb : b = L.victim c
      · subst hb; simp at h
      · rwa [update_of_ne hb] at h
    · rwa [if_neg hr] at h

lemma bread_data (s : Machine) (b : ℕ) : (bread L s b).1 = view s b := by
  unfold bread view
  rcases h : s.cache b with _ | buf <;> simp

/-- Reading a block changes neither the disk nor what any block reads as. -/
lemma wrote_bread (hc : Coherent s) (b : ℕ) : Wrote s [] (bread L s b).2 := by
  rcases h : s.cache b with _ | buf
  · have he : (bread L s b).2 =
        { s with cache := update (recycle L s.cache) b (some ⟨s.disk b, false, 1⟩) } := by
      simp [bread, h]
    rw [he]
    refine ⟨rfl, funext fun x => ?_, by simp, rfl, fun _ x buf hx hd => ?_⟩
    · rw [Store.apply_nil, ← recycle_view L hc x]
      by_cases hx : x = b
      · subst hx
        rw [recycle_view L hc x]
        simp [view, h]
      · simp [view, update_of_ne hx]
    · by_cases hxb : x = b
      · subst hxb
        simp only [update_self, Option.some.injEq] at hx
        rw [← hx]
      · simp only [update_of_ne hxb] at hx
        exact hc x buf (recycle_some L hx) hd
  · have he : (bread L s b).2 =
        { s with cache := update s.cache b (some { buf with refcnt := buf.refcnt + 1 })
          } := by
      simp [bread, h]
    rw [he]
    refine ⟨rfl, funext fun x => ?_, by simp, rfl, fun _ x buf' hx hd => ?_⟩
    · by_cases hx : x = b
      · subst hx; simp [view, h]
      · simp [view, update_of_ne hx]
    · by_cases hxb : x = b
      · subst hxb
        simp only [update_self, Option.some.injEq] at hx
        subst hx
        exact hc x buf h hd
      · simp only [update_of_ne hxb] at hx
        exact hc x buf' hx hd

lemma wrote_bwrite (s : Machine) (b : ℕ) (data : Block) :
    Wrote s [(b, data)] (bwrite s b data) := by
  refine ⟨rfl, funext fun x => ?_, rfl, rfl, fun hc x buf hx hd => ?_⟩
  · by_cases hx : x = b
    · subst hx; simp [view, bwrite]
    · simp [view, bwrite, update_of_ne hx]
  · by_cases hxb : x = b
    · subst hxb
      simp only [bwrite, update_self, Option.some.injEq] at hx ⊢
      rw [← hx]
    · simp only [bwrite, update_of_ne hxb] at hx ⊢
      exact hc x buf hx hd

lemma wrote_brelse (s : Machine) (b : ℕ) : Wrote s [] (brelse s b) := by
  refine ⟨rfl, funext fun x => ?_, by simp [brelse], rfl, fun hc x buf hx hd => ?_⟩
  · by_cases hx : x = b
    · subst hx
      rcases h : s.cache x with _ | buf <;> simp [view, brelse, Buf.unref, h]
    · simp [view, brelse, update_of_ne hx]
  · by_cases hxb : x = b
    · subst hxb
      simp only [brelse, update_self, Option.map_eq_some_iff] at hx
      obtain ⟨buf0, h0, rfl⟩ := hx
      exact hc x buf0 h0 hd
    · simp only [brelse, update_of_ne hxb] at hx
      exact hc x buf hx hd

/-! ### The writes each function makes -/

/-- One turn of either copying loop: read two blocks, write one of them. -/
lemma wrote_turn (hc : Coherent s) (a b x y z : ℕ) (data : Block) :
    Wrote s [(x, data)] (brelse (brelse (bwrite (bread L (bread L s a).2 b).2 x data) y) z) := by
  have h1 := wrote_bread L hc a
  have h2 := h1.trans (wrote_bread L (h1.coherent hc) b)
  have h3 := h2.trans (wrote_bwrite (bread L (bread L s a).2 b).2 x data)
  have h4 := (h3.trans (wrote_brelse _ y)).trans (wrote_brelse _ z)
  simpa using h4

/-- The writes of `write_log` from index `tail` on, on a machine that reads as `v`. -/
def logWrites (v : Disk) : ℕ → List ℕ → List (ℕ × Block)
  | _, [] => []
  | tail, b :: bs => (L.start + tail + 1, v b) :: logWrites v (tail + 1) bs

/-- The writes of `install_trans` from index `tail` on. -/
def installWrites (v : Disk) : ℕ → List ℕ → List (ℕ × Block)
  | _, [] => []
  | tail, b :: bs => (b, v (L.start + tail + 1)) :: installWrites v (tail + 1) bs

/-- Block `b` lies in the log area. -/
def InLog (b : ℕ) : Prop := L.start ≤ b ∧ b < L.start + L.size

lemma mem_logWrites {w : ℕ × Block} (h : w ∈ logWrites L v tail bs) :
    L.start + tail < w.1 ∧ w.1 ≤ L.start + tail + bs.length := by
  induction bs generalizing tail with
  | nil => simp [logWrites] at h
  | cons b bs ih =>
    simp only [logWrites, List.mem_cons] at h
    rcases h with rfl | h
    · simp only [List.length_cons]; omega
    · have := ih h
      simp only [List.length_cons]; omega

lemma mem_installWrites {w : ℕ × Block} (h : w ∈ installWrites L v tail bs) : w.1 ∈ bs := by
  induction bs generalizing tail with
  | nil => simp [installWrites] at h
  | cons b bs ih =>
    simp only [installWrites, List.mem_cons] at h
    rcases h with rfl | h
    · simp
    · simp [ih h]

lemma logWrites_congr {v' : Disk} (h : ∀ b ∈ bs, v b = v' b) :
    logWrites L v tail bs = logWrites L v' tail bs := by
  induction bs generalizing tail with
  | nil => rfl
  | cons b bs ih =>
    simp only [logWrites, h b (by simp), ih fun x hx => h x (by simp [hx])]

lemma installWrites_congr {v' : Disk}
    (h : ∀ i, tail ≤ i → i < tail + bs.length → v (L.start + i + 1) = v' (L.start + i + 1)) :
    installWrites L v tail bs = installWrites L v' tail bs := by
  induction bs generalizing tail with
  | nil => rfl
  | cons b bs ih =>
    simp only [List.length_cons] at h
    rw [installWrites, installWrites, h tail le_rfl (by omega),
      ih fun i h1 h2 => h i (by omega) (by omega)]

lemma wrote_writeLogFrom (hc : Coherent s) (tail : ℕ) (bs : List ℕ) (hbs : ∀ b ∈ bs, ¬ InLog L b)
    (hfit : tail + bs.length < L.size) :
    Wrote s (logWrites L (view s) tail bs) (writeLogFrom L tail bs s) := by
  induction bs generalizing s tail with
  | nil => exact Wrote.refl s
  | cons b bs ih =>
    simp only [List.length_cons] at hfit
    have h0 := wrote_bread L hc (L.start + tail + 1)
    have hd : (bread L (bread L s (L.start + tail + 1)).2 b).1 = view s b := by
      rw [bread_data, h0.view, Store.apply_nil]
    have h1 := wrote_turn L hc (L.start + tail + 1) b (L.start + tail + 1) b
      (L.start + tail + 1) (view s b)
    have h2 := ih (h1.coherent hc) (tail + 1) (fun x hx => hbs x (by simp [hx])) (by omega)
    -- the log block just written is no block of the transaction
    have hv : logWrites L (Store.apply (view s) [(L.start + tail + 1, view s b)]) (tail + 1) bs
        = logWrites L (view s) (tail + 1) bs := by
      refine logWrites_congr L fun x hx => Store.apply_of_not_mem fun w hw => ?_
      rw [List.mem_singleton] at hw
      subst hw
      intro he
      have he' : L.start + tail + 1 = x := he
      exact hbs x (by simp [hx]) ⟨by omega, by omega⟩
    rw [h1.view, hv] at h2
    rw [writeLogFrom]
    simp only [hd]
    exact h1.trans h2

lemma wrote_installFrom (hc : Coherent s) (tail : ℕ) (bs : List ℕ) (hbs : ∀ b ∈ bs, ¬ InLog L b)
    (hfit : tail + bs.length < L.size) :
    Wrote s (installWrites L (view s) tail bs) (installFrom L tail bs s) := by
  induction bs generalizing s tail with
  | nil => exact Wrote.refl s
  | cons b bs ih =>
    simp only [List.length_cons] at hfit
    have h1 := wrote_turn L hc (L.start + tail + 1) b b (L.start + tail + 1) b
      (view s (L.start + tail + 1))
    have h2 := ih (h1.coherent hc) (tail + 1) (fun x hx => hbs x (by simp [hx])) (by omega)
    have hv : installWrites L (Store.apply (view s) [(b, view s (L.start + tail + 1))])
        (tail + 1) bs = installWrites L (view s) (tail + 1) bs := by
      refine installWrites_congr L fun i h3 h4 => Store.apply_of_not_mem fun w hw => ?_
      rw [List.mem_singleton] at hw
      subst hw
      intro he
      have he' : b = L.start + i + 1 := he
      exact hbs b (by simp) ⟨by omega, by omega⟩
    rw [h1.view, hv] at h2
    rw [installFrom]
    simp only [bread_data]
    exact h1.trans h2

lemma wrote_writeHead (hc : Coherent s) :
    Wrote s [(L.start, putHead s.lh (view s L.start))] (writeHead L s) := by
  have h1 := wrote_bread L hc L.start
  have h2 := (h1.trans (wrote_bwrite (bread L s L.start).2 L.start
    (putHead s.lh (view s L.start)))).trans (wrote_brelse _ L.start)
  have he : writeHead L s = brelse (bwrite (bread L s L.start).2 L.start
      (putHead s.lh (view s L.start))) L.start := by
    simp only [writeHead, bread_data, h1.lh]
  rw [he]
  simpa using h2

/-- Clearing the in-memory header touches nothing else. -/
lemma Wrote.setLh {t : Machine} {ws : List (ℕ × Block)} (h : Wrote s ws t) (l : List ℕ) :
    Wrote { s with lh := l } ws { t with lh := l } :=
  ⟨h.disk, h.view, h.writes, rfl, h.coherent⟩

/-! ### The header block -/

lemma word_putBlocks (i : ℕ) (bs : List ℕ) (hb : Block) (j : ℕ) (hj : j < NINT) :
    word (putBlocks i bs hb) j =
      if i < j ∧ j ≤ i + bs.length then bs.getD (j - i - 1) 0 else word hb j := by
  induction bs generalizing i hb with
  | nil =>
    have : ¬ (i < j ∧ j ≤ i + 0) := by omega
    simp only [putBlocks, List.length_nil, if_neg this]
  | cons b bs ih =>
    rw [putBlocks, ih, word_setWord _ _ _ _ hj, List.length_cons]
    by_cases h1 : j = i + 1
    · subst h1
      simp
    · by_cases h2 : i + 1 < j ∧ j ≤ i + 1 + bs.length
      · have h3 : i < j ∧ j ≤ i + (bs.length + 1) := by omega
        rw [if_pos h2, if_pos h3, show j - i - 1 = (j - (i + 1) - 1) + 1 by omega,
          List.getD_cons_succ]
      · have h3 : ¬ (i < j ∧ j ≤ i + (bs.length + 1)) := by omega
        rw [if_neg h2, if_neg h3, if_neg h1]

/-- What `write_head` writes, `read_head` reads back. -/
lemma headBlocks_putHead (lh : List ℕ) (hb : Block) (hlen : lh.length ≤ LOGSIZE) :
    headBlocks (putHead lh hb) = lh := by
  have hL : LOGSIZE + 1 < NINT := by decide
  have h0 : word (putHead lh hb) 0 = lh.length := by
    rw [putHead, word_putBlocks _ _ _ _ (by decide), if_neg (by omega),
      word_setWord _ _ _ _ (by decide), if_pos rfl]
  unfold headBlocks
  rw [h0]
  refine List.ext_getElem (by simp) fun i h1 h2 => ?_
  simp only [List.getElem_map, List.getElem_range]
  rw [putHead, word_putBlocks _ _ _ _ (by omega), if_pos (by omega)]
  simp [h2]

/-- An empty header written over an empty header changes nothing. -/
lemma putHead_nil_of_empty {hb : Block} (h : word hb 0 = 0) : putHead [] hb = hb := by
  funext j
  simp only [putHead, putBlocks, setWord, List.length_nil]
  by_cases hj : j.val = 0
  · have : word hb 0 = hb j := by
      simp only [word, show (0 : ℕ) < NINT by decide, dif_pos]
      congr 1; exact Fin.ext hj.symm
    rw [if_pos hj, ← this, h]
  · rw [if_neg hj]

lemma word_putHead_nil (hb : Block) : word (putHead [] hb) 0 = 0 := by
  simp [putHead, putBlocks, word_setWord _ _ _ _ (show 0 < NINT by decide)]

lemma headBlocks_of_empty {hb : Block} (h : word hb 0 = 0) : headBlocks hb = [] := by
  simp [headBlocks, h]

end Xv6.LogDisk
