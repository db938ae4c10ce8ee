import Xv6.Ide

/-!
The buffer cache on a disk that reports errors. `ideintr` does not read the data port when the disk
reports an error, but sets `B_VALID` all the same, and `bread` takes the flag for the data.
-/

namespace Xv6.DiskErrors

open Xv6.BufCache Xv6.Lib.Run Xv6.Lib.Refs
open Function (update update_of_ne update_self)

variable {U D : Type*}

def IDE_DF : UInt8 := 0x20
def IDE_ERR : UInt8 := 0x01

/-- `idewait(1)`, with the status that it reads once the disk is ready. -/
def idewait (status : UInt8) : ℤ := if status &&& (IDE_DF ||| IDE_ERR) ≠ 0 then -1 else 0

/-- What `ideintr` makes of the buffer at the head of the queue. -/
def ideintr (x : Buf U D) (status : UInt8) (block : D) : Buf U D :=
  { x with
    data := if x.dirty = false ∧ idewait status ≥ 0 then block else x.data
    valid := true
    dirty := false }

/-- `iderw`, with the status that its request is completed with. -/
def iderw (s : St U D) (b : BufId) (status : UInt8) : Except Panic (St U D) :=
  let x := s.buf b
  if x.valid = true ∧ x.dirty = false then .error .nothingToDo
  else if x.key.1 ≠ 0 ∧ s.havedisk1 = false then .error .noDisk1
  else if x.key.2 ≥ FSSIZE then .error .incorrectBlockno
  else .ok { s.setBuf b (ideintr x status (s.disk x.key)) with
    disk := if x.dirty then update s.disk x.key x.data else s.disk }

/-- The cache with its history: whether the contents of its block have been read from the disk into
a buffer since the buffer was given to the block. -/
structure Hist (U D : Type*) where
  cache : St U D
  filled : BufId → Bool

def bread (s : Hist U D) (b : BufId) (status : UInt8) : Except Panic (Hist U D) :=
  if (s.cache.buf b).valid then .ok s
  else (iderw s.cache b status).map fun c => {
    cache := c
    filled := if (s.cache.buf b).dirty = false ∧ idewait status ≥ 0 then
      update s.filled b true else s.filled }

/-- A panic stops the machine. -/
def Hist.orPanic (s : Hist U D) : Except Panic (Hist U D) → Hist U D
  | .ok t => t
  | .error e => { s with cache := { s.cache with panic := some e } }

/-- Every request that a user waits for in `bread` may be completed with any status. -/
def next [DecidableEq U] (s : Hist U D) (u : U) (a : Act D) (status : UInt8) : Option (Hist U D) :=
  match a, s.cache.pc u with
  | .bread, .got b k =>
    if s.cache.panic.isSome then none
    else some (s.orPanic ((bread s b status).map fun t =>
      { t with cache := t.cache.setPc u (.hold b k false) }))
  | a, _ => (BufCache.next s.cache u a).map fun t => {
      cache := t
      filled := fun b => s.filled b && decide ((t.buf b).key = (s.cache.buf b).key) }

def Step [DecidableEq U] (s : Hist U D) (l : U × Act D × UInt8) (t : Hist U D) : Prop :=
  next s l.1 l.2.1 l.2.2 = some t

/-- After `binit`. -/
def start (disk : ℕ × ℕ → D) (data : BufId → D) (havedisk1 : Bool) (logsize : ℤ) : Hist U D where
  cache := binit disk data havedisk1 logsize
  filled _ := false

/-- Whoever has a buffer from `bread` with `B_VALID` set has a buffer of the block it asked for,
into which the block has been read. -/
def Intact (s : Hist U D) : Prop := ∀ u b k c, s.cache.pc u = .hold b k c →
  (s.cache.buf b).valid = true → (s.cache.buf b).key = k ∧ s.filled b = true

/-- The step waits for the disk to read a block. -/
def reading (s : St U D) (u : U) : Act D → Bool
  | .bread => match s.pc u with
    | .got b _ => !(s.buf b).valid
    | _ => false
  | _ => false

/-- The steps in which the disk reports no error for a read. -/
def FineStep [DecidableEq U] (s : Hist U D) (l : U × Act D × UInt8) (t : Hist U D) : Prop :=
  Step s l t ∧ (reading s.cache l.1 l.2.1 = true → idewait l.2.2 = 0)

/-! ### The driver -/

/-- A request of the driver makes the same of its buffer. -/
lemma ideintr_result {A B : Type*} {r : Ide.Req A B D} {e : Ide.Exec D} {x : Buf U D}
    {status : UInt8} (hd : r.old.dirty = x.dirty) (hx : r.old.data = x.data)
    (he : e.failed = true ↔ idewait status < 0) :
    (r.result e).data = (ideintr x status e.content).data ∧
      (r.result e).valid = (ideintr x status e.content).valid ∧
      (r.result e).dirty = (ideintr x status e.content).dirty := by
  refine ⟨?_, rfl, rfl⟩
  have hfine : e.failed = false ↔ idewait status ≥ 0 := by
    rw [← Bool.not_eq_true, he, not_lt]
  simp only [Ide.Req.result, ideintr, hd, hx, hfine]

lemma idewait_cases (status : UInt8) : idewait status = 0 ∨ idewait status = -1 := by
  unfold idewait
  split_ifs
  · exact .inr rfl
  · exact .inl rfl

/-- Without errors this is the cache of before. -/
lemma iderw_fine {s : St U D} {b : BufId} {status : UInt8} (h : idewait status = 0) :
    iderw s b status = BufCache.iderw s b := by
  unfold iderw BufCache.iderw ideintr
  cases hd : (s.buf b).dirty with
  | false => simp [hd, h, St.setBuf]
  | true => simp [hd]

variable [DecidableEq U] {s t : Hist U D} {u : U} {a : Act D} {status : UInt8} {b : BufId}
  {k : ℕ × ℕ}

/-! ### One step -/

/-- The steps, as far as `bread` and the disk are concerned. -/
inductive Eff (s : Hist U D) (u : U) : Act D → UInt8 → Hist U D → Prop
  | panic (status : UInt8) (e : Panic) (b : BufId) (k : ℕ × ℕ) (hpc : s.cache.pc u = .got b k) :
      Eff s u .bread status { s with cache := { s.cache with panic := some e } }
  | cached (status : UInt8) (b : BufId) (k : ℕ × ℕ) (hpc : s.cache.pc u = .got b k)
      (hv : (s.cache.buf b).valid = true) :
      Eff s u .bread status { s with cache := s.cache.setPc u (.hold b k false) }
  | read (status : UInt8) (b : BufId) (k : ℕ × ℕ) (x : Hist U D) (hpc : s.cache.pc u = .got b k)
      (hv : (s.cache.buf b).valid = false)
      (hbuf : x.cache.buf = update s.cache.buf b
        (ideintr (s.cache.buf b) status (s.cache.disk (s.cache.buf b).key)))
      (hpc' : x.cache.pc = update s.cache.pc u (.hold b k false))
      (hfilled : x.filled = if (s.cache.buf b).dirty = false ∧ idewait status ≥ 0 then
        update s.filled b true else s.filled) : Eff s u .bread status x
  | other (a : Act D) (status : UInt8) (x : Hist U D)
      (ha : ∀ b k, a = .bread → s.cache.pc u ≠ .got b k)
      (hst : BufCache.Step s.cache (u, a) x.cache)
      (hfilled : ∀ b, x.filled b =
        (s.filled b && decide ((x.cache.buf b).key = (s.cache.buf b).key))) : Eff s u a status x

/-- The step that `bread` waits for. -/
lemma step_bread (hpc : s.cache.pc u = .got b k) (h : Step s (u, .bread, status) t) :
    s.cache.panic.isSome = false ∧ t = s.orPanic ((bread s b status).map fun t =>
      { t with cache := t.cache.setPc u (.hold b k false) }) := by
  unfold Step next at h
  simp only [hpc] at h
  split_ifs at h with hpan
  exact ⟨eq_false_of_ne_true hpan, (Option.some.inj h).symm⟩

lemma bread_eff (hpc : s.cache.pc u = .got b k) (h : Step s (u, .bread, status) t) :
    Eff s u .bread status t := by
  obtain ⟨-, rfl⟩ := step_bread hpc h
  unfold bread
  by_cases hv : (s.cache.buf b).valid = true
  · rw [if_pos hv]
    exact .cached status b k hpc hv
  · rw [if_neg hv]
    cases hi : iderw s.cache b status with
    | error e => exact .panic status e b k hpc
    | ok c =>
      unfold iderw at hi
      dsimp only at hi
      split_ifs at hi
      all_goals
        cases hi
        exact .read status b k _ hpc (eq_false_of_ne_true hv) rfl rfl rfl

lemma next_eff (h : Step s (u, a, status) t) : Eff s u a status t := by
  by_cases hgot : ∃ b k, a = .bread ∧ s.cache.pc u = .got b k
  · obtain ⟨b, k, rfl, hpc⟩ := hgot
    exact bread_eff hpc h
  · unfold Step next at h
    dsimp only at h
    split at h
    · rename_i b k hpc
      exact absurd ⟨b, k, rfl, hpc⟩ hgot
    · obtain ⟨c, hc, rfl⟩ := Option.map_eq_some_iff.mp h
      exact .other _ status _ (fun b k ha hpc => hgot ⟨b, k, ha, hpc⟩) hc fun _ => rfl

/-- Where the disk reports no error, a step is one of the cache of before. -/
lemma FineStep.cache (h : FineStep s (u, a, status) t) : BufCache.Step s.cache (u, a) t.cache := by
  obtain ⟨hst, hfine⟩ := h
  by_cases hgot : ∃ b k, a = .bread ∧ s.cache.pc u = .got b k
  · obtain ⟨b, k, rfl, hpc⟩ := hgot
    obtain ⟨hpan, rfl⟩ := step_bread hpc hst
    unfold BufCache.Step BufCache.next bread BufCache.bread
    simp only [hpan, hpc, Bool.false_eq_true, if_false, Option.some.injEq]
    by_cases hv : (s.cache.buf b).valid = true
    · rw [if_pos hv, if_pos hv]
      rfl
    · rw [if_neg hv, if_neg hv, iderw_fine (hfine (by simp [reading, hpc, hv]))]
      cases BufCache.iderw s.cache b with
      | error e => rfl
      | ok c => rfl
  · cases next_eff hst with
    | other _ _ _ _ hst' => exact hst'
    | panic _ _ b k hpc | cached _ b k hpc | read _ b k _ hpc => exact absurd ⟨b, k, rfl, hpc⟩ hgot

/-! ### Runs -/

/-- Outside `bread` the flag `B_VALID` is cleared where a buffer is given to another block, and only
there. -/
lemma valid_of_eff {c c' : St U D} {l : List BufId} (h : BufCache.Eff c u a c') (hg : Good c)
    (hl : Order c l) (ha : ∀ b k, a = .bread → c.pc u ≠ .got b k) (i : BufId) :
    (c'.buf i).valid = ((c.buf i).valid && decide ((c'.buf i).key = (c.buf i).key)) := by
  have hkeep {x y : Buf U D} (hv : x.valid = y.valid) (hk : x.key = y.key) :
      x.valid = (y.valid && decide (x.key = y.key)) := by simp [hv, hk]
  cases h with
  | panic | log => exact hkeep rfl rfl
  | cached b k hpc | read b k hpc | writeBack b k _ hpc => exact absurd hpc (ha b k rfl)
  | recycle dev blockno b hpc hno hb =>
    by_cases e : i = b
    · subst e
      have hkey : (c.buf i).key ≠ (dev, blockno) := by
        rw [hl.search_next, List.find?_eq_none] at hno
        simpa using hno i (hl.all i)
      simp [St.setPc, St.setBuf, hkey.symm]
    · simp [St.setPc, St.setBuf, e]
  | bwrite b k x hpc =>
    by_cases e : i = b
    · subst e
      simp [St.setPc, St.setBuf, St.setContent, hg.held u i k x hpc]
    · simp [St.setPc, St.setBuf, St.setContent, e]
  | hit dev blockno b | acquire b | modify b | logWrite b | release b | keep b | last b =>
    exact hkeep (field_update (k := Buf.valid) (by rfl) i) (field_update (k := Buf.key) (by rfl) i)

/-- A buffer has `B_VALID` set just when its block has been read into it. -/
def Faithful (s : Hist U D) : Prop := ∀ b, (s.cache.buf b).valid = s.filled b

variable [Fintype U]

lemma Eff.faithful (h : Eff s u a status t) (hi : Inv s.cache) (hs : Faithful s)
    (hfine : reading s.cache u a = true → idewait status = 0) : Faithful t := by
  obtain ⟨-, ⟨l, hl⟩, hg⟩ := hi
  intro i
  cases h with
  | panic => exact hs i
  | cached => exact hs i
  | read status b k x hpc hv hbuf hpc' hfilled =>
    have hw : idewait status = 0 := hfine (by simp [reading, hpc, hv])
    have hdirty : (s.cache.buf b).dirty = false := by
      by_contra hd
      exact nomatch hv.symm.trans (hg.pinned b (eq_true_of_ne_false hd))
    rw [hbuf, hfilled, if_pos ⟨hdirty, hw.ge⟩]
    by_cases e : i = b
    · subst e
      simp [ideintr]
    · rw [update_of_ne e, update_of_ne e]
      exact hs i
  | other a status x ha hst hfilled =>
    rw [hfilled i, valid_of_eff (BufCache.next_eff hst) hg hl ha i, hs i]

lemma reach_faithful {disk : ℕ × ℕ → D} {data : BufId → D} {havedisk1 : Bool} {logsize : ℤ}
    (h : Reach FineStep (start disk data havedisk1 logsize) s) : Inv s.cache ∧ Faithful s := by
  refine h.inv (P := fun s => Inv s.cache ∧ Faithful s)
    ⟨inv_init disk data havedisk1 logsize, fun b => rfl⟩ ?_
  rintro s ⟨u, a, status⟩ t ⟨hi, hs⟩ hst
  exact ⟨(BufCache.next_eff hst.cache).inv hi, (next_eff hst.1).faithful hi hs hst.2⟩

omit [DecidableEq U] in
lemma intact_of_faithful (hi : Inv s.cache) (hs : Faithful s) : Intact s := by
  intro u b k c hpc hv
  exact ⟨hi.good.asked u b k (congrArg Pc.asked hpc), (hs b).symm.trans hv⟩

/-- **Read errors.** As long as the disk reports no error for a read, every buffer that `bread` has
returned with `B_VALID` set is one of the block asked for and has been read from the disk. And
`bread` keeps this up just when the buffer was valid before or the disk reports no error. -/
theorem read_errors {disk : ℕ × ℕ → D} {data : BufId → D} {havedisk1 : Bool} {logsize : ℤ}
    (h : Reach FineStep (start disk data havedisk1 logsize) s) :
    Intact s ∧ ∀ u b k status t, s.cache.pc u = .got b k → Step s (u, .bread, status) t →
      t.cache.panic = none → (Intact t ↔ (s.cache.buf b).valid = true ∨ idewait status = 0) := by
  obtain ⟨hi, hs⟩ := reach_faithful h
  refine ⟨intact_of_faithful hi hs, fun u b k status t hpc hst halive => ?_⟩
  refine ⟨fun ht => ?_, fun hok => ?_⟩
  · by_contra hno
    rw [not_or] at hno
    obtain ⟨hv, hw⟩ := hno
    have hneg : ¬ idewait status ≥ 0 := by
      rw [(idewait_cases status).resolve_left hw]
      decide
    cases bread_eff hpc hst with
    | panic => cases halive
    | cached _ b' k' hpc' hv' =>
      obtain ⟨rfl, rfl⟩ := Pc.got.inj (hpc.symm.trans hpc')
      exact hv hv'
    | read _ b' k' _ hpc' hv' hbuf hpc'' hfilled =>
      obtain ⟨rfl, rfl⟩ := Pc.got.inj (hpc.symm.trans hpc')
      -- the flag is set and nothing has been read
      have hnew := (ht u b k false (by rw [hpc'', update_self])
        (by rw [hbuf, update_self]; rfl)).2
      rw [hfilled, if_neg (fun hc => hneg hc.2), ← hs b, hv'] at hnew
      cases hnew
    | other _ _ _ ha => exact ha b k rfl hpc
  · have hfine : FineStep s (u, .bread, status) t := by
      refine ⟨hst, fun hr => hok.resolve_left fun hv => ?_⟩
      simp [reading, hpc, hv] at hr
    exact intact_of_faithful ((BufCache.next_eff hfine.cache).inv hi)
      ((next_eff hst).faithful hi hs hfine.2)

/-- The first read, without an error and with one. -/
theorem read_errors_first_read :
    ∃ s t t' : Hist Unit ℕ, Reach FineStep (start (fun _ => 5) (fun _ => 0) true 30) s ∧
      Step s ((), .bread, 0x40) t ∧ Intact t ∧ Step s ((), .bread, 0x41) t' ∧ ¬ Intact t' := by
  have hrun : (exec (guarded (fun s l => next s l.1 l.2.1 l.2.2)
      fun s l => reading s.cache l.1 l.2.1 = true → idewait l.2.2 = 0)
      (start (fun _ => 5) (fun _ => 0) true 30)
      [((), .bget 1 7, 0x40), ((), .acquiresleep, 0x40)]).bind (fun s : Hist Unit ℕ =>
        (next s () .bread 0x40).bind fun t => (next s () .bread 0x41).map fun t' =>
          (s.cache.pc (), (s.cache.buf ⟨0, by decide⟩).valid, t.cache.panic, t'.cache.panic)) =
      some (.got ⟨0, by decide⟩ (1, 7), false, none, none) := by decide +kernel
  obtain ⟨s, hs, hv⟩ := Option.bind_eq_some_iff.mp hrun
  obtain ⟨t, ht, hv⟩ := Option.bind_eq_some_iff.mp hv
  obtain ⟨t', ht', hv⟩ := Option.map_eq_some_iff.mp hv
  simp only [Prod.mk.injEq] at hv
  obtain ⟨hpc, hvalid, hpan, hpan'⟩ := hv
  have hr : Reach FineStep (start (fun _ => 5) (fun _ => 0) true 30) s := reach_of_guarded hs
  have hread := (read_errors hr).2
  have hfine : Intact t := (hread _ _ _ _ t hpc ht hpan).mpr (.inr (by decide))
  refine ⟨s, t, t', hr, ht, hfine, ht', fun hint => ?_⟩
  rcases (hread _ _ _ _ t' hpc ht' hpan').mp hint with hv | hw
  · exact nomatch hvalid.symm.trans hv
  · exact absurd hw (by decide)

/-- Users `1` to `29` have a buffer each; user `0` reads block `100` of disk `1` into the last one
and gives it back. -/
def readOne : List (ℕ × Act ℕ × UInt8) :=
  ((List.range (NBUF - 1)).map fun n => (n + 1, .bget 1 n, 0x40)) ++
    [.bget 1 100, .acquiresleep, .bread, .releasesleep, .brelse].map fun a => (0, a, 0x40)

/-- Then it asks for block `200`, which takes the same buffer. -/
def readAnother : List (ℕ × Act ℕ × UInt8) :=
  [.bget 1 200, .acquiresleep].map fun a => (0, a, 0x40)

/-- The disk reports an error: `bread` returns the buffer with `B_VALID` set for block `200`, with
the contents of block `100`. -/
theorem failed_read_exposes :
    ∃ (s t : Hist ℕ ℕ) (b : BufId), exec (fun s l => next s l.1 l.2.1 l.2.2)
        (start (fun k => 1000 + k.2) (fun _ => 0) true 30) (readOne ++ readAnother) = some s ∧
      Step s (0, .bread, 0x41) t ∧ t.cache.pc 0 = .hold b (1, 200) false ∧
      (t.cache.buf b).valid = true ∧ t.filled b = false ∧ (t.cache.buf b).data = 1100 ∧
      t.cache.disk (1, 200) = 1200 := by
  have hrun : (exec (fun s l => next s l.1 l.2.1 l.2.2)
      (start (fun k => 1000 + k.2) (fun _ => 0) true 30) (readOne ++ readAnother)).bind
        (fun s : Hist ℕ ℕ => (next s 0 .bread 0x41).map fun t => (t.cache.pc 0,
          (t.cache.buf ⟨29, by decide⟩).valid, t.filled ⟨29, by decide⟩,
          (t.cache.buf ⟨29, by decide⟩).data, t.cache.disk (1, 200))) =
      some (.hold ⟨29, by decide⟩ (1, 200) false, true, false, 1100, 1200) := by decide +kernel
  obtain ⟨s, hs, hv⟩ := Option.bind_eq_some_iff.mp hrun
  obtain ⟨t, ht, hv⟩ := Option.map_eq_some_iff.mp hv
  simp only [Prod.mk.injEq] at hv
  exact ⟨s, t, _, hs, ht, hv⟩

end Xv6.DiskErrors
