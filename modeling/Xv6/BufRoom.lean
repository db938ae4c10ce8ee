import Mathlib.Data.Fintype.Prod
import Xv6.BufCache
import Xv6.LogGroup

/-!
Room in the buffer cache. `bget` panics if it finds every buffer referred to or pinned by the log.

Processes read blocks, an operation changes and logs them, and the last `end_op` runs `commit`,
whose calls of `bio.c` are steps among those of the others. A process works on two buffers at most,
as `bmap`, `itrunc`, `write_log` and `install_trans` do. `begin_op` counts blocks of the log;
nothing counts those who read without it, as `fileread` does.

A run starts with the empty log that `recover_from_log` leaves.
-/

namespace Xv6.BufRoom

open Xv6.Lib.Run Xv6.Lib.Refs
open Xv6.BufCache (NBUF LOGSIZE BufId Buf Fresh)
open Xv6.LogGroup (MAXOPBLOCKS)
open Function (update update_of_ne update_self update_eq_self)

def ROOTDEV : ℕ := 1

/-- The blocks that `commit` reads: the header of the log, a block of the log, and the home of a
block in it. -/
inductive Blk
  | header | log (tail : ℕ) | home (tail : ℕ)

def Blk.blockno (start : ℕ) (lh : List ℕ) : Blk → ℕ
  | .header => start
  | .log tail => start + tail + 1
  | .home tail => lh.getD tail 0

/-- What a process in `commit` has to do. The loops of `write_log` and `install_trans` stand for
what is left of them, `test` for the body of `commit`; the others are calls with one of the two
buffers. `putHead` fills in the header, `clear` sets `log.lh.n` to zero. -/
inductive Instr
  | test | writeLog (tail : ℕ) | installTrans (tail : ℕ) | clear
  | bget (i : Fin 2) (x : Blk) | acquiresleep (i : Fin 2) | bread (i : Fin 2) | bwrite (i : Fin 2)
  | releasesleep (i : Fin 2) | brelse (i : Fin 2) | memmove (dst src : Fin 2) | putHead (i : Fin 2)

def bread (i : Fin 2) (x : Blk) : List Instr := [.bget i x, .acquiresleep i, .bread i]

def brelse (i : Fin 2) : List Instr := [.releasesleep i, .brelse i]

/-- A turn of the loop of `write_log`: buffer `0` is `to` and buffer `1` is `from`. -/
def writeLogBody (tail : ℕ) : List Instr :=
  bread 0 (.log tail) ++ bread 1 (.home tail) ++ [.memmove 0 1, .bwrite 0] ++ brelse 1 ++ brelse 0

/-- A turn of the loop of `install_trans`: buffer `0` is `lbuf` and buffer `1` is `dbuf`. -/
def installTransBody (tail : ℕ) : List Instr :=
  bread 0 (.log tail) ++ bread 1 (.home tail) ++ [.memmove 1 0, .bwrite 1] ++ brelse 0 ++ brelse 1

def writeHead : List Instr := bread 0 .header ++ [.putHead 0, .bwrite 0] ++ brelse 0

def commitBody : List Instr := [.writeLog 0] ++ writeHead ++ [.installTrans 0, .clear] ++ writeHead

/-- A process is outside every operation, inside one, or in `commit`. -/
inductive Pc
  | out | op | commit (code : List Instr)

/-- The header of the log and `log.outstanding` are in the state of the cache. `panic` is the one of
`end_op`. -/
structure St (P D : Type*) where
  cache : BufCache.St (P × Fin 2) D
  committing : Bool
  panic : Bool
  pc : P → Pc

inductive Act (D : Type*)
  | beginOp | endOp | use (i : Fin 2) (a : BufCache.Act D) | commit

/-- What a process may do with its buffers outside `commit`: blocks are changed in operations only,
and `bwrite` is for the log. -/
def allowed (op : Bool) {D : Type*} : BufCache.Act D → Bool
  | .bget dev _ => dev = ROOTDEV
  | .acquiresleep | .bread | .releasesleep | .brelse => true
  | .modify _ | .logWrite => op
  | .bwrite | .log _ _ => false

/-- What an instruction comes to: more instructions, or a call. -/
inductive Task (D : Type*)
  | jump (code : List Instr) | call (i : Fin 2) (a : BufCache.Act D)

variable {P D : Type*} [DecidableEq P]

def init (disk : ℕ × ℕ → D) (data : BufId → D) (havedisk1 : Bool) (logsize : ℤ) : St P D where
  cache := BufCache.binit disk data havedisk1 logsize
  committing := false
  panic := false
  pc _ := .out

def St.goto (s : St P D) (p : P) (pc : Pc) : St P D := { s with pc := update s.pc p pc }

def St.setOutstanding (s : St P D) (n : ℤ) : St P D :=
  { s with cache := { s.cache with outstanding := n } }

/-- The last operation ends, and its process goes on to `commit`. -/
def St.lastOp (s : St P D) (p : P) : St P D :=
  { s.goto p (.commit [.test]) with committing := true }

/-- The process works on no buffer. -/
def St.free (s : St P D) (p : P) : Bool := ∀ i, s.cache.pc (p, i) = .idle

def St.call (s : St P D) (p : P) (i : Fin 2) (a : BufCache.Act D) : Option (St P D) :=
  (BufCache.next s.cache (p, i) a).map fun c => { s with cache := c }

/-- The data in a buffer that the process holds. -/
def St.held (s : St P D) (p : P) (i : Fin 2) : Option D :=
  match s.cache.pc (p, i) with
  | .hold b _ _ => some (s.cache.buf b).data
  | _ => none

/-- `start` is `log.start`, and `head` writes a header into the data of a block. -/
def task (start : ℕ) (head : List ℕ → D → D) (s : St P D) (p : P) : Instr → Option (Task D)
  | .test => some (.jump (if s.cache.lh.length > 0 then commitBody else []))
  | .writeLog tail =>
    some (.jump (if tail < s.cache.lh.length then
      writeLogBody tail ++ [.writeLog (tail + 1)] else []))
  | .installTrans tail =>
    some (.jump (if tail < s.cache.lh.length then
      installTransBody tail ++ [.installTrans (tail + 1)] else []))
  | .clear => some (.call 0 (.log [] s.cache.outstanding))
  | .bget i x => some (.call i (.bget ROOTDEV (x.blockno start s.cache.lh)))
  | .acquiresleep i => some (.call i .acquiresleep)
  | .bread i => some (.call i .bread)
  | .bwrite i => some (.call i .bwrite)
  | .releasesleep i => some (.call i .releasesleep)
  | .brelse i => some (.call i .brelse)
  | .memmove dst src => (s.held p src).map fun d => .call dst (.modify d)
  | .putHead i => (s.held p i).map fun d => .call i (.modify (head s.cache.lh d))

def next (start : ℕ) (head : List ℕ → D → D) (s : St P D) (p : P) (a : Act D) : Option (St P D) :=
  if s.panic ∨ s.cache.panic.isSome then none else
  match a, s.pc p with
  | .beginOp, .out =>
    -- otherwise the process sleeps
    if s.free p ∧ s.committing = false ∧
        s.cache.lh.length + (s.cache.outstanding + 1) * MAXOPBLOCKS ≤ LOGSIZE then
      some ((s.setOutstanding (s.cache.outstanding + 1)).goto p .op)
    else none
  | .endOp, .op =>
    if s.free p then
      let s := s.setOutstanding (s.cache.outstanding - 1)
      if s.committing then some { s with panic := true }
      else if s.cache.outstanding = 0 then some (s.lastOp p)
      else some (s.goto p .out)
    else none
  | .use i a, .out => if allowed false a then s.call p i a else none
  | .use i a, .op => if allowed true a then s.call p i a else none
  | .commit, .commit [] => some { s.goto p .out with committing := false }
  | .commit, .commit (x :: code) =>
    match task start head s p x with
    | some (.jump more) => some (s.goto p (.commit (more ++ code)))
    | some (.call i a) => (s.call p i a).map fun t => t.goto p (.commit code)
    | none => none
  | _, _ => none

/-- A step of some process. -/
def Step (start : ℕ) (head : List ℕ → D → D) (s : St P D) (l : P × Act D) (t : St P D) : Prop :=
  next start head s l.1 l.2 = some t

/-! ### What a step can do -/

/-- Every step, with the state after it. -/
inductive Turn (start : ℕ) (head : List ℕ → D → D) (s : St P D) (p : P) : Act D → St P D → Prop
  | begun (hp : s.pc p = .out) (hfree : s.committing = false) :
      Turn start head s p .beginOp ((s.setOutstanding (s.cache.outstanding + 1)).goto p .op)
  | early (hp : s.pc p = .op) :
      Turn start head s p .endOp { s.setOutstanding (s.cache.outstanding - 1) with panic := true }
  | last (hp : s.pc p = .op) (hfree : s.committing = false) (hlast : s.cache.outstanding - 1 = 0) :
      Turn start head s p .endOp ((s.setOutstanding (s.cache.outstanding - 1)).lastOp p)
  | leave (hp : s.pc p = .op) (hfree : s.committing = false) :
      Turn start head s p .endOp ((s.setOutstanding (s.cache.outstanding - 1)).goto p .out)
  | use (i : Fin 2) (a : BufCache.Act D) (op : Bool) (c : BufCache.St (P × Fin 2) D)
      (hp : s.pc p = if op then .op else .out) (ha : allowed op a = true)
      (hc : BufCache.Step s.cache ((p, i), a) c) :
      Turn start head s p (.use i a) { s with cache := c }
  | finish (hp : s.pc p = .commit []) :
      Turn start head s p .commit { s.goto p .out with committing := false }
  | jump (x : Instr) (code more : List Instr) (hp : s.pc p = .commit (x :: code))
      (hx : task start head s p x = some (.jump more)) :
      Turn start head s p .commit (s.goto p (.commit (more ++ code)))
  | call (x : Instr) (code : List Instr) (i : Fin 2) (a : BufCache.Act D)
      (c : BufCache.St (P × Fin 2) D)
      (hp : s.pc p = .commit (x :: code)) (hx : task start head s p x = some (.call i a))
      (hc : BufCache.Step s.cache ((p, i), a) c) :
      Turn start head s p .commit ({ s with cache := c }.goto p (.commit code))

variable {start : ℕ} {head : List ℕ → D → D} {s t : St P D} {p : P} {a : Act D}

lemma goto_self (s : St P D) (p : P) (c : Pc) : (s.goto p c).pc p = c := update_self ..

variable {i : Fin 2} {b : BufCache.Act D} {x : Instr} {q : P} {code : List Instr}
  {c : BufCache.St (P × Fin 2) D}

lemma call_some (h : s.call p i b = some t) :
    ∃ c, BufCache.Step s.cache ((p, i), b) c ∧ t = { s with cache := c } := by
  obtain ⟨c, hc, rfl⟩ := Option.map_eq_some_iff.mp h
  exact ⟨c, hc, rfl⟩

lemma next_turn (h : Step start head s (p, a) t) :
    s.panic = false ∧ s.cache.panic = none ∧ Turn start head s p a t := by
  change next start head s p a = some t at h
  unfold next at h
  by_cases hpan : s.panic ∨ s.cache.panic.isSome
  · rw [if_pos hpan] at h
    cases h
  rw [if_neg hpan] at h
  obtain ⟨h1, h2⟩ := not_or.mp hpan
  refine ⟨eq_false_of_ne_true h1, by simpa using h2, ?_⟩
  split at h
  case h_1 hpc =>
    split_ifs at h with hok
    cases h
    exact .begun hpc hok.2.1
  case h_2 hpc =>
    split_ifs at h
    dsimp only at h
    split_ifs at h with hcom hlast <;> cases h
    · exact .early hpc
    · exact .last hpc (eq_false_of_ne_true hcom) hlast
    · exact .leave hpc (eq_false_of_ne_true hcom)
  case h_3 i a hpc =>
    split_ifs at h with ha
    obtain ⟨c, hc, rfl⟩ := call_some h
    exact .use i a false c hpc ha hc
  case h_4 i a hpc =>
    split_ifs at h with ha
    obtain ⟨c, hc, rfl⟩ := call_some h
    exact .use i a true c hpc ha hc
  case h_5 hpc =>
    cases h
    exact .finish hpc
  case h_6 x code hpc =>
    split at h
    case h_1 more hx =>
      cases h
      exact .jump x code more hpc hx
    case h_2 i a hx =>
      obtain ⟨t', ht', rfl⟩ := Option.map_eq_some_iff.mp h
      obtain ⟨c, hc, rfl⟩ := call_some ht'
      exact .call x code i a c hpc hx hc
    case h_3 => cases h
  case h_7 => cases h

omit [DecidableEq P] in
/-- The calls of `commit`. -/
lemma task_call (h : task start head s p x = some (.call i b)) :
    (x = .clear ∧ b = .log [] s.cache.outstanding) ∨
      ((∀ lh o, b ≠ .log lh o) ∧ b ≠ .logWrite ∧ ∀ dev k, b = .bget dev k → dev = ROOTDEV) := by
  cases x <;> grind [task, Option.map_eq_some_iff]

omit [DecidableEq P] in
lemma task_bget {dev k : ℕ} (h : task start head s p x = some (.call i (.bget dev k))) :
    ∃ y : Blk, x = .bget i y ∧ dev = ROOTDEV ∧ k = y.blockno start s.cache.lh := by
  cases x <;> grind [task, Option.map_eq_some_iff]

/-- The calls outside it. -/
lemma allowed_call {op : Bool} (h : allowed op b = true) :
    (∀ lh o, b ≠ .log lh o) ∧ (b = .logWrite → op = true) ∧
      ∀ dev k, b = .bget dev k → dev = ROOTDEV := by
  cases b <;> grind [allowed]

/-! ### Operations and the commit -/

/-- What a process counts for in `log.outstanding`. -/
def weight : Pc → ℤ
  | .op => 1
  | _ => 0

lemma weight_nonneg (c : Pc) : 0 ≤ weight c := by
  cases c <;> simp [weight]

variable [Fintype P]

/-- `outstanding` counts the operations in progress, and while a process commits all others are
outside. -/
structure Ctl (s : St P D) : Prop where
  count : s.cache.outstanding = ∑ p, weight (s.pc p)
  com : s.committing = true → ∃ p code, s.pc p = .commit code
  alone : ∀ p code, s.pc p = .commit code → s.committing = true ∧ ∀ q, q ≠ p → s.pc q = .out

omit [DecidableEq P] in
lemma Ctl.no_commit (h : Ctl s) (hfree : s.committing = false) : s.pc q ≠ .commit code :=
  fun hq => absurd ((h.alone q code hq).1.symm.trans hfree) nofun

omit [DecidableEq P] in
/-- Nobody commits during an operation. -/
lemma Ctl.free_of_op (h : Ctl s) (hp : s.pc p = .op) : s.pc q ≠ .commit code := by
  intro hq
  have := (h.alone q code hq).2 p
  grind

omit [DecidableEq P] in
/-- The last operation is the only one. -/
lemma Ctl.last (h : Ctl s) (hp : s.pc p = .op) (hlast : s.cache.outstanding - 1 = 0) (hq : q ≠ p) :
    s.pc q = .out := by
  classical
  cases hpc : s.pc q with
  | out => rfl
  | commit code => exact absurd hpc (h.free_of_op hp)
  | op =>
    have hpair : ∑ r ∈ {p, q}, weight (s.pc r) ≤ ∑ r, weight (s.pc r) :=
      Finset.sum_le_sum_of_subset_of_nonneg (Finset.subset_univ _) fun r _ _ => weight_nonneg _
    rw [Finset.sum_pair hq.symm, hp, hpc, ← h.count] at hpair
    simp only [weight] at hpair
    omega

omit [DecidableEq P] in
/-- One process commits. -/
lemma Ctl.unique (h : Ctl s) {code' : List Instr} (hp : s.pc p = .commit code)
    (hq : s.pc q = .commit code') : q = p ∧ code' = code := by
  have := (h.alone p code hp).2 q
  grind

lemma sum_weight {pc : P → Pc} (c : Pc) :
    ∑ q, weight (update pc p c q) = ∑ q, weight (pc q) - weight (pc p) + weight c :=
  sum_update weight pc p c

/-- A process goes on in `commit`. -/
lemma Ctl.go (h : Ctl s) {code' : List Instr} (hp : s.pc p = .commit code)
    (ho : t.cache.outstanding = s.cache.outstanding) (hc : t.committing = s.committing)
    (hpc : t.pc = update s.pc p (.commit code')) : Ctl t := by
  obtain ⟨hcom, hout⟩ := h.alone p code hp
  refine ⟨?_, fun _ => ⟨p, code', by rw [hpc, update_self]⟩, fun q c hq => ?_⟩
  · rw [ho, hpc, sum_weight, hp, h.count]
    simp [weight]
  · rw [hpc] at hq ⊢
    grind

/-- A process moves while nobody commits. -/
lemma Ctl.move (h : Ctl s) {c : Pc} (hfree : s.committing = false)
    (hc : t.committing = s.committing) (hpc : t.pc = update s.pc p c)
    (hno : ∀ code, c ≠ .commit code)
    (ho : t.cache.outstanding = s.cache.outstanding - weight (s.pc p) + weight c) : Ctl t := by
  refine ⟨?_, fun ht => absurd (ht.symm.trans (hc.trans hfree)) nofun, fun q code hq => ?_⟩
  · rw [ho, hpc, sum_weight, h.count]
  · have hq' : s.pc q ≠ .commit code := h.no_commit hfree
    rw [hpc] at hq
    grind

omit [DecidableEq P] in
lemma Ctl.same (h : Ctl s) (ho : t.cache.outstanding = s.cache.outstanding)
    (hc : t.committing = s.committing) (hpc : t.pc = s.pc) : Ctl t :=
  ⟨by rw [ho, hpc, h.count], by rw [hc, hpc]; exact h.com, by rw [hc, hpc]; exact h.alone⟩

/-! ### The blocks that hold buffers -/

section Cache

variable {U : Type*} [DecidableEq U] [Fintype U]
variable {c c' : BufCache.St U D} {u : U} {b : BufCache.Act D}

/-- The blocks of the buffers that somebody refers to. -/
def inUse (c : BufCache.St U D) : Finset ℕ :=
  Finset.univ.biUnion fun u => ((c.pc u).place.map fun x => (c.buf x.1).key.2).toFinset

variable {i : BufId}

omit [DecidableEq U] in
lemma mem_inUse {x : Bool} (hu : (c.pc u).place = some (i, x)) : (c.buf i).key.2 ∈ inUse c := by
  refine Finset.mem_biUnion.mpr ⟨u, Finset.mem_univ u, ?_⟩
  rw [hu]
  simp

/-- The cache holds blocks of `ROOTDEV`, and those it has pinned are in the log. -/
structure Cached (c : BufCache.St U D) : Prop where
  inv : BufCache.Inv c
  dev : ∀ i, (c.buf i).key.1 = ROOTDEV ∨ Fresh (c.buf i)
  logged : ∀ i, (c.buf i).dirty = true → (c.buf i).key.2 ∈ c.lh

omit [DecidableEq U] in
lemma cached_init (disk : ℕ × ℕ → D) (data : BufId → D) (havedisk1 : Bool) (logsize : ℤ) :
    Cached (BufCache.binit disk data havedisk1 logsize : BufCache.St U D) :=
  ⟨BufCache.inv_init disk data havedisk1 logsize, fun _ => .inr ⟨rfl, rfl, rfl⟩, nofun⟩

omit [DecidableEq U] in
lemma Cached.not_fresh (h : Cached c) (hi : (c.buf i).dirty = true) : ¬Fresh (c.buf i) :=
  fun hf => absurd ((h.inv.good.pinned i hi).symm.trans hf.valid) nofun

omit [DecidableEq U] in
/-- A block is in one buffer at most of those that have been used. -/
lemma Cached.inj (h : Cached c) {j : BufId} (hi : ¬Fresh (c.buf i)) (hj : ¬Fresh (c.buf j))
    (hk : (c.buf i).key.2 = (c.buf j).key.2) : i = j := by
  obtain ⟨l, hl⟩ := h.inv.order
  have hkey : (c.buf i).key = (c.buf j).key :=
    Prod.ext (((h.dev i).resolve_right hi).trans ((h.dev j).resolve_right hj).symm) hk
  by_contra hne
  exact hi (hl.twin hj hne hkey)

omit [DecidableEq U] in
/-- If no buffer can be recycled, as many blocks as there are buffers are in the log or in use. -/
lemma Cached.full (h : Cached c) (hfull : ∀ i, ¬((c.buf i).refcnt = 0 ∧ (c.buf i).dirty = false)) :
    NBUF ≤ (c.lh.toFinset ∪ inUse c).card := by
  have hused (i : BufId) : ¬Fresh (c.buf i) := fun hf =>
    hfull i ⟨hf.refcnt, eq_false_of_ne_true fun hd => h.not_fresh hd hf⟩
  have hmem (i : BufId) : (c.buf i).key.2 ∈ c.lh.toFinset ∪ inUse c := by
    by_cases hd : (c.buf i).dirty = true
    · exact Finset.mem_union_left _ (List.mem_toFinset.mpr (h.logged i hd))
    · have href : (c.buf i).refcnt ≠ 0 := fun hr => hfull i ⟨hr, eq_false_of_ne_true hd⟩
      obtain ⟨u, x, hu⟩ := h.inv.counted.present href
      exact Finset.mem_union_right _ (mem_inUse hu)
  have hcard := Finset.card_le_card_of_injOn (s := Finset.univ) (fun i => (c.buf i).key.2)
    (fun i _ => hmem i) fun i _ j _ hij => h.inj (hused i) (hused j) hij
  rwa [Finset.card_univ, Fintype.card_fin] at hcard

/-- A call of `bget` that finds no buffer. -/
lemma Cached.room (h : Cached c) (hst : BufCache.Step c (u, b) c')
    (hp : c'.panic = some .noBuffers) :
    ∃ dev k, b = .bget dev k ∧ (∀ i, (c.buf i).key ≠ (dev, k)) ∧
      NBUF ≤ (c.lh.toFinset ∪ inUse c).card := by
  obtain ⟨dev, k, rfl, hnext, hprev⟩ := hst.noBuffers hp
  obtain ⟨l, hl⟩ := h.inv.order
  rw [hl.search_next, List.find?_eq_none] at hnext
  rw [hl.search_prev, List.find?_eq_none] at hprev
  refine ⟨dev, k, rfl, fun i => by simpa using hnext i (hl.all i), h.full fun i => ?_⟩
  simpa using hprev i (List.mem_reverse.mpr (hl.all i))

lemma Cached.dev_step (h : Cached c) (hst : BufCache.Eff c u b c')
    (hdev : ∀ dev k, b = .bget dev k → dev = ROOTDEV) (i : BufId) :
    (c'.buf i).key.1 = ROOTDEV ∨ Fresh (c'.buf i) := by
  have hold := h.dev i
  -- a buffer with a user is not fresh
  have hat {j : BufId} {pc : BufCache.Pc} {y : Bool} (hpc : c.pc u = pc)
      (hj : pc.place = some (j, y)) : (c.buf j).key.1 = ROOTDEV :=
    (h.dev j).resolve_right (h.inv.counted.not_fresh ((congrArg BufCache.Pc.place hpc).trans hj))
  cases hst with
  | writeBack j k t hpc hv hd => exact absurd ((h.inv.good.pinned j hd).symm.trans hv) nofun
  | hit dev k j hpc hj | recycle dev k j hpc hno hj =>
    have hj := BufCache.search_some hj
    have hdev := hdev dev k rfl
    grind
  | panic | log | cached => exact hold
  | acquire j k hpc | read j k hpc | modify j k x d hpc | logWrite j k x lh hpc | bwrite j k x hpc
  | release j k hpc | keep j hpc | last j hpc =>
    have hat := hat hpc rfl
    grind

lemma Cached.step (h : Cached c) (hst : BufCache.Step c (u, b) c') (halive : c'.panic = none)
    (hdev : ∀ dev k, b = .bget dev k → dev = ROOTDEV) (hlog : ∀ lh o, b ≠ .log lh o) :
    Cached c' := by
  have heff := BufCache.next_eff hst
  have hpin := h.inv.good.pinned
  refine ⟨heff.inv h.inv, h.dev_step heff hdev, fun i hi => ?_⟩
  by_cases hw : b = .logWrite
  · subst hw
    obtain ⟨j, hbuf, hlh⟩ := hst.logged halive
    have hkey : (c'.buf i).key = (c.buf i).key := by
      rw [hbuf]
      exact field_update (k := Buf.key) (by rfl) i
    rw [hlh, hkey]
    by_cases e : i = j
    · subst e
      split_ifs with hmem
      · exact hmem
      · exact List.mem_append_right _ List.mem_cons_self
    · rw [hbuf, update_of_ne e] at hi
      split_ifs
      · exact h.logged i hi
      · exact List.mem_append_left _ (h.logged i hi)
  · obtain ⟨hi, hkey⟩ := heff.dirty_of hpin hw hi
    rw [heff.lh_eq hpin hlog hw, hkey]
    exact h.logged i hi

/-- The log makes its header another one that lists what is pinned. -/
lemma Cached.header (h : Cached c) (u : U) (lh : List ℕ) (o : ℤ)
    (hlh : ∀ i, (c.buf i).dirty = true → (c.buf i).key.2 ∈ lh) :
    Cached { c with lh := lh, outstanding := o } :=
  ⟨(BufCache.Eff.log (u := u) lh o).inv h.inv, h.dev, hlh⟩

/-- The block that a user asked for and has not given back. -/
def blockno (pc : BufCache.Pc) : Option ℕ := pc.asked.map fun x => x.2.2

/-- What a call makes of it. -/
def track : BufCache.Act D → Option ℕ → Option ℕ
  | .bget _ k, _ => some k
  | .releasesleep, _ => none
  | _, o => o

omit [Fintype U] in
lemma blockno_step (hst : BufCache.Eff c u b c') (hpin : BufCache.Pinned c)
    (halive : c'.panic = none) : blockno (c'.pc u) = track b (blockno (c.pc u)) := by
  cases hst with
  | writeBack j k t hpc hv hd => exact absurd ((hpin j hd).symm.trans hv) nofun
  | _ => grind [blockno, track, BufCache.Pc.asked]

/-- What `bwrite` has written is not pinned. -/
lemma Cached.written (h : Cached c) (hst : BufCache.Eff c u .bwrite c') (halive : c'.panic = none)
    (hi : (c'.buf i).dirty = true) : blockno (c.pc u) ≠ some (c'.buf i).key.2 := by
  obtain ⟨hdirty, hkey⟩ := hst.dirty_of h.inv.good.pinned nofun hi
  intro hu
  cases hst with
  | panic => cases halive
  | bwrite j k x hpc =>
    rw [hpc] at hu
    have hj : (c.buf j).key = k := h.inv.good.asked u j k (congrArg BufCache.Pc.asked hpc)
    have hsame : (c.buf i).key.2 = (c.buf j).key.2 := by
      rw [hj, ← hkey]
      exact (Option.some.inj hu).symm
    obtain rfl :=
      h.inj (h.not_fresh hdirty) (h.inv.counted.not_fresh (congrArg BufCache.Pc.place hpc)) hsame
    exact absurd ((congrArg Buf.dirty (update_self i _ c.buf)).symm.trans hi) nofun

end Cache

/-! ### What is left to install -/

/-- Blocks that the instructions write before they clear the log, if the two buffers are for the
blocks of `m`. The loops begin and end with both buffers given back. -/
def pending (start : ℕ) (lh : List ℕ) : (Fin 2 → Option ℕ) → List Instr → Finset ℕ
  | _, [] => ∅
  | _, .clear :: _ => ∅
  | _, .test :: _ => lh.toFinset
  | _, .writeLog _ :: code => pending start lh (fun _ => none) code
  | _, .installTrans tail :: code => (lh.drop tail).toFinset ∪ pending start lh (fun _ => none) code
  | m, .bget i x :: code => pending start lh (update m i (some (x.blockno start lh))) code
  | m, .releasesleep i :: code => pending start lh (update m i none) code
  | m, .bwrite i :: code => (m i).toFinset ∪ pending start lh m code
  | m, .acquiresleep _ :: code | m, .bread _ :: code | m, .brelse _ :: code
  | m, .memmove _ _ :: code | m, .putHead _ :: code => pending start lh m code

section Pending

omit [DecidableEq P] [Fintype P]

variable {lh : List ℕ} {m m' : Fin 2 → Option ℕ}

/-- With buffers for more blocks no less is written. -/
lemma pending_mono (code : List Instr) (h : ∀ i, (m i).toFinset ⊆ (m' i).toFinset) :
    pending start lh m code ⊆ pending start lh m' code := by
  have hset {m m' : Fin 2 → Option ℕ} (h : ∀ i, (m i).toFinset ⊆ (m' i).toFinset) (j : Fin 2)
      (o : Option ℕ) (i : Fin 2) :
      (update m j o i).toFinset ⊆ (update m' j o i).toFinset := by
    grind
  induction code generalizing m m' with
  | nil => exact subset_rfl
  | cons x code ih =>
    cases x with
    | test | writeLog | installTrans | clear => exact subset_rfl
    | bget i x => exact ih (hset h i _)
    | releasesleep i => exact ih (hset h i _)
    | bwrite i => exact Finset.union_subset_union (h i) (ih h)
    | acquiresleep | bread | brelse | memmove | putHead => exact ih h

lemma pending_none (code : List Instr) :
    pending start lh (fun _ => none) code ⊆ pending start lh m code :=
  pending_mono code fun _ => Finset.empty_subset _

lemma pending_writeLog (tail : ℕ) (code : List Instr) :
    pending start lh (fun _ => none) code ⊆ pending start lh m (writeLogBody tail ++ code) :=
  (pending_none code).trans Finset.subset_union_right

lemma pending_writeHead (code : List Instr) :
    pending start lh (fun _ => none) code ⊆ pending start lh m (writeHead ++ code) :=
  (pending_none code).trans Finset.subset_union_right

lemma pending_installTrans (tail : ℕ) (code : List Instr) :
    insert (lh.getD tail 0) (pending start lh (fun _ => none) code) ⊆
      pending start lh m (installTransBody tail ++ code) := by
  -- `bwrite` comes when buffer `1` is for the home of the block
  have hwrite : ({lh.getD tail 0} : Finset ℕ) ⊆
      (update (update m 0 (some (start + tail + 1))) 1
        (some (lh.getD tail 0)) 1).toFinset := by
    rw [update_self]
    exact subset_rfl
  exact Finset.union_subset_union hwrite (pending_none code)

/-- A loop or a test in `commit` is replaced by what it comes to. -/
lemma pending_jump {x : Instr} {code more : List Instr}
    (hx : task start head s p x = some (.jump more)) :
    pending start s.cache.lh m (x :: code) ⊆ pending start s.cache.lh m (more ++ code) := by
  cases x with
  | test =>
    cases hx
    split_ifs with hlen
    · -- what `install_trans` writes
      refine Finset.Subset.trans ?_
        (pending_writeHead (m := fun _ => none) (.installTrans 0 :: .clear :: (writeHead ++ code)))
      exact Finset.subset_union_left
    · rw [List.eq_nil_of_length_eq_zero (Nat.eq_zero_of_not_pos hlen)]
      exact Finset.empty_subset _
  | writeLog tail =>
    cases hx
    split_ifs with hlen
    · rw [List.append_assoc]
      exact pending_writeLog tail (.writeLog (tail + 1) :: code)
    · exact pending_none code
  | installTrans tail =>
    cases hx
    split_ifs with hlen
    · rw [List.append_assoc, pending, List.drop_eq_getElem_cons hlen, List.toFinset_cons,
        Finset.insert_union, List.getElem_eq_getD 0]
      exact pending_installTrans tail (.installTrans (tail + 1) :: code)
    · rw [pending, List.drop_eq_nil_of_le (not_lt.mp hlen)]
      exact Finset.union_subset (Finset.empty_subset _) (pending_none code)
  | clear | bget | acquiresleep | bread | bwrite | releasesleep | brelse => cases hx
  | memmove | putHead =>
    obtain ⟨d, -, hd⟩ := Option.map_eq_some_iff.mp hx
    cases hd

/-- A call in `commit`: what is left changes with the block of its buffer, and by what `bwrite`
writes. -/
lemma pending_call {x : Instr} {code : List Instr} {i : Fin 2} {b : BufCache.Act D}
    (hx : task start head s p x = some (.call i b)) {k : ℕ}
    (hk : k ∈ pending start s.cache.lh m (x :: code)) :
    (b = .bwrite ∧ m i = some k) ∨
      k ∈ pending start s.cache.lh (update m i (track b (m i))) code := by
  have hsame (b : BufCache.Act D) (i : Fin 2) (hb : track b (m i) = m i)
      (hk : k ∈ pending start s.cache.lh m code) :
      k ∈ pending start s.cache.lh (update m i (track b (m i))) code := by
    rwa [hb, update_eq_self]
  cases x with
  | test | writeLog | installTrans => cases hx
  | clear => cases hk
  | bget j y =>
    cases hx
    exact .inr hk
  | releasesleep j =>
    cases hx
    exact .inr hk
  | bwrite j =>
    cases hx
    rcases Finset.mem_union.mp hk with hk | hk
    · exact .inl ⟨rfl, Option.mem_toFinset.mp hk⟩
    · exact .inr (hsame _ _ rfl hk)
  | acquiresleep j | bread j | brelse j =>
    cases hx
    exact .inr (hsame _ _ rfl hk)
  | memmove | putHead =>
    obtain ⟨d, -, hd⟩ := Option.map_eq_some_iff.mp hx
    obtain ⟨rfl, rfl⟩ := Task.call.inj hd
    exact .inr (hsame _ _ rfl hk)

end Pending

/-- The blocks that the buffers of a process are for. -/
def marks (s : St P D) (p : P) (i : Fin 2) : Option ℕ := blockno (s.cache.pc (p, i))

omit [Fintype P] in
lemma marks_call (hst : BufCache.Eff s.cache (p, i) b c) (hpin : BufCache.Pinned s.cache)
    (halive : c.panic = none) :
    marks ({ s with cache := c }.goto p (.commit code)) p = update (marks s p) i
      (track b (marks s p i)) := by
  funext j
  by_cases e : j = i
  · subst e
    rw [update_self]
    exact blockno_step hst hpin halive
  · rw [update_of_ne e]
    have hne : (p, j) ≠ (p, i) := fun h => e (Prod.mk.inj h).2
    exact congrArg blockno (hst.pc_other hpin hne)

/-! ### All runs -/

/-- The blocks that are pinned while a process commits are those it still has to install. -/
structure Sound (start : ℕ) (s : St P D) : Prop where
  ctl : Ctl s
  cached : Cached s.cache
  install : ∀ p code, s.pc p = .commit code → ∀ i, (s.cache.buf i).dirty = true →
    (s.cache.buf i).key.2 ∈ pending start s.cache.lh (marks s p) code

omit [DecidableEq P] in
lemma sound_init (start : ℕ) (disk : ℕ × ℕ → D) (data : BufId → D) (havedisk1 : Bool)
    (logsize : ℤ) :
    Sound start (init disk data havedisk1 logsize : St P D) where
  ctl := ⟨(Finset.sum_eq_zero fun _ _ => rfl).symm, nofun, nofun⟩
  cached := cached_init disk data havedisk1 logsize
  install := nofun

/-- A process without a buffer enters or leaves an operation while nobody commits. -/
lemma Sound.move (h : Sound start s) {pc : Pc} (n : ℤ) (hfree : s.committing = false)
    (hno : ∀ code, pc ≠ .commit code) (hn : n = s.cache.outstanding - weight (s.pc p) + weight pc) :
    Sound start ((s.setOutstanding n).goto p pc) := by
  have hctl : Ctl ((s.setOutstanding n).goto p pc) := h.ctl.move hfree rfl rfl hno hn
  exact ⟨hctl, h.cached.header (p, 0) s.cache.lh n h.cached.logged, fun q code hq =>
    absurd hq (hctl.no_commit hfree)⟩

/-- A call by a process that does not commit. -/
lemma Sound.use (h : Sound start s) {op : Bool} (hp : s.pc p = if op then .op else .out)
    (hb : allowed op b = true) (hc : BufCache.Step s.cache ((p, i), b) c)
    (halive : c.panic = none) : Sound start { s with cache := c } := by
  obtain ⟨hlog, hwrite, hdev⟩ := allowed_call hb
  have heff := BufCache.next_eff hc
  have hpin := h.cached.inv.good.pinned
  refine ⟨h.ctl.same (heff.outstanding_eq hpin hlog) rfl rfl, h.cached.step hc halive hdev hlog,
    fun q code hq j hj => ?_⟩
  -- somebody else commits, and only an operation could pin a block
  have hop : op = false := by
    refine eq_false_of_ne_true fun hop => ?_
    rw [if_pos hop] at hp
    exact h.ctl.free_of_op hp hq
  have hw : b ≠ .logWrite := fun hw => absurd ((hwrite hw).symm.trans hop) nofun
  have hqp : q ≠ p := by
    rintro rfl
    rw [hop] at hp
    cases hp.symm.trans hq
  obtain ⟨hdirty, hkey⟩ := heff.dirty_of hpin hw hj
  have hmarks : marks { s with cache := c } q = marks s q := by
    funext k
    have hne : (q, k) ≠ (p, i) := fun e => hqp (Prod.mk.inj e).1
    exact congrArg blockno (heff.pc_other hpin hne)
  rw [hmarks, hkey, heff.lh_eq hpin hlog hw]
  exact h.install q code hq j hdirty

/-- A call of the process that commits. -/
lemma Sound.call (h : Sound start s) (hp : s.pc p = .commit (x :: code))
    (hx : task start head s p x = some (.call i b)) (hc : BufCache.Step s.cache ((p, i), b) c)
    (halive : c.panic = none) : Sound start ({ s with cache := c }.goto p (.commit code)) := by
  have heff := BufCache.next_eff hc
  have hpin := h.cached.inv.good.pinned
  have hleft := h.install p _ hp
  rcases task_call hx with ⟨rfl, rfl⟩ | ⟨hlog, hw, hdev⟩
  · -- nothing is pinned any more
    have hclean (j : BufId) : (s.cache.buf j).dirty ≠ true :=
      fun hj => absurd (hleft j hj) (Finset.notMem_empty _)
    cases heff with
    | panic => cases halive
    | log =>
      exact ⟨h.ctl.go hp rfl rfl rfl, h.cached.header (p, 0) [] _ fun j hj => absurd hj (hclean j),
        fun q code' hq j hj => absurd hj (hclean j)⟩
  · have hctl : Ctl ({ s with cache := c }.goto p (.commit code)) :=
      h.ctl.go hp (heff.outstanding_eq hpin hlog) rfl rfl
    refine ⟨hctl, h.cached.step hc halive hdev hlog, fun q code' hq j hj => ?_⟩
    obtain ⟨rfl, rfl⟩ := hctl.unique (goto_self _ p (.commit code)) hq
    obtain ⟨hdirty, hkey⟩ := heff.dirty_of hpin hw hj
    rw [marks_call heff hpin halive]
    change (c.buf j).key.2 ∈ pending start c.lh _ _
    rw [hkey, heff.lh_eq hpin hlog hw]
    refine (pending_call hx (hleft j hdirty)).resolve_left ?_
    rintro ⟨rfl, hm⟩
    exact h.cached.written heff halive hj (hkey ▸ hm)

lemma Sound.jump (h : Sound start s) {more : List Instr} (hp : s.pc p = .commit (x :: code))
    (hx : task start head s p x = some (.jump more)) :
    Sound start (s.goto p (.commit (more ++ code))) := by
  have hctl : Ctl (s.goto p (.commit (more ++ code))) := h.ctl.go hp rfl rfl rfl
  refine ⟨hctl, h.cached, fun q code' hq j hj => ?_⟩
  obtain ⟨rfl, rfl⟩ := hctl.unique (goto_self s p (.commit (more ++ code))) hq
  exact pending_jump hx (h.install q _ hp j hj)

lemma Sound.last (h : Sound start s) (hp : s.pc p = .op) (hlast : s.cache.outstanding - 1 = 0) :
    Sound start ((s.setOutstanding (s.cache.outstanding - 1)).lastOp p) := by
  have hpc : update s.pc p (.commit [.test]) p = .commit [.test] := update_self ..
  have hout {q : P} (hq : q ≠ p) : update s.pc p (.commit [.test]) q = .out := by
    rw [update_of_ne hq]
    exact h.ctl.last hp hlast hq
  have hctl : Ctl ((s.setOutstanding (s.cache.outstanding - 1)).lastOp p) := by
    refine ⟨?_, fun _ => ⟨p, [.test], hpc⟩, fun q code hq => ?_⟩
    · calc s.cache.outstanding - 1
        _ = ∑ q, weight (s.pc q) - weight (s.pc p) + weight (.commit [.test]) := by
          rw [hp, h.ctl.count]
          simp [weight]
        _ = ∑ q, weight (update s.pc p (.commit [.test]) q) := (sum_weight _).symm
    · obtain rfl : q = p := by
        by_contra hne
        cases (hout hne).symm.trans hq
      exact ⟨rfl, fun r => hout⟩
  refine ⟨hctl, h.cached.header (p, 0) s.cache.lh _ h.cached.logged, fun q code hq j hj => ?_⟩
  obtain ⟨rfl, rfl⟩ := hctl.unique hpc hq
  exact List.mem_toFinset.mpr (h.cached.logged j hj)

/-- `commit` has returned. -/
lemma Sound.finish (h : Sound start s) (hp : s.pc p = .commit []) :
    Sound start { s.goto p .out with committing := false } := by
  have hout (q : P) : update s.pc p .out q = .out := by
    by_cases hq : q = p
    · rw [hq, update_self]
    · rw [update_of_ne hq]
      exact (h.ctl.alone p [] hp).2 q hq
  refine ⟨⟨?_, nofun, fun q code hq => ?_⟩, h.cached, fun q code hq => ?_⟩
  · calc s.cache.outstanding
      _ = ∑ q, weight (s.pc q) - weight (s.pc p) + weight .out := by
        rw [hp, h.ctl.count]
        simp [weight]
      _ = ∑ q, weight (update s.pc p .out q) := (sum_weight _).symm
  · cases (hout q).symm.trans hq
  · cases (hout q).symm.trans hq

lemma Sound.step (h : Sound start s) (ht : Turn start head s p a t) (hpanic : t.panic = false)
    (halive : t.cache.panic = none) : Sound start t := by
  cases ht with
  | begun hp hfree => exact h.move _ hfree nofun (by rw [hp]; simp [weight])
  | early => cases hpanic
  | last hp hfree hlast => exact h.last hp hlast
  | leave hp hfree => exact h.move _ hfree nofun (by rw [hp]; simp [weight])
  | use i b op c hp hb hc => exact h.use hp hb hc halive
  | finish hp => exact h.finish hp
  | jump x code more hp hx => exact h.jump hp hx
  | call x code i b c hp hx hc => exact h.call hp hx hc halive

/-- The block that a step passes to `bget`. -/
def asks (start : ℕ) (s : St P D) (l : P × Act D) : Option ℕ :=
  match l.2, s.pc l.1 with
  | .use _ (.bget _ k), _ => some k
  | .commit, .commit (.bget _ x :: _) => some (x.blockno start s.cache.lh)
  | _, _ => none

/-- If the step asks for a block that is not in the cache, fewer blocks than there are buffers are
in the log or in use. -/
def Room (start : ℕ) (s : St P D) (l : P × Act D) : Prop :=
  ∀ k ∈ asks start s l, (∀ i, (s.cache.buf i).key ≠ (ROOTDEV, k)) →
    (s.cache.lh.toFinset ∪ inUse s.cache).card < NBUF

instance (start : ℕ) (s : St P D) (l : P × Act D) : Decidable (Room start s l) :=
  inferInstanceAs (Decidable (∀ k ∈ asks start s l, _))

lemma Sound.finds (h : Sound start s) (ht : Turn start head s p a t) (hroom : Room start s (p, a))
    (halive : s.cache.panic = none) : t.cache.panic ≠ some .noBuffers := by
  intro hno
  cases ht with
  | begun | early | last | leave | finish | jump => cases halive.symm.trans hno
  | use i b op c hp hb hc =>
    obtain ⟨dev, k, rfl, hmiss, hfull⟩ := h.cached.room hc hno
    obtain rfl := (allowed_call hb).2.2 dev k rfl
    exact absurd (hroom k rfl hmiss) (not_lt.mpr hfull)
  | call x code i b c hp hx hc =>
    obtain ⟨dev, k, rfl, hmiss, hfull⟩ := h.cached.room hc hno
    obtain ⟨y, rfl, rfl, rfl⟩ := task_bget hx
    have hask : asks start s (p, .commit) = some (y.blockno start s.cache.lh) := by
      simp only [asks, hp]
    exact absurd (hroom _ hask hmiss) (not_lt.mpr hfull)

/-- The machine has not stopped for want of a buffer. Nothing is said about the state in which it
has stopped for another reason. -/
structure Safe (start : ℕ) (s : St P D) : Prop where
  buffers : s.cache.panic ≠ some .noBuffers
  sound : s.panic = false → s.cache.panic = none → Sound start s

/-- **Buffers do not run out** in a run of readers, operations and commits if, whenever `bget` is
asked for a block that is not in the cache, fewer blocks than there are buffers are in the log or in
use. -/
theorem buffers_suffice {disk : ℕ × ℕ → D} {data : BufId → D} {havedisk1 : Bool} {logsize : ℤ}
    (h : Reach (fun s l t => Step start head s l t ∧ Room start s l)
      (init disk data havedisk1 logsize) s) : s.cache.panic ≠ some .noBuffers := by
  have hsafe : Safe start s := by
    refine h.inv ⟨nofun, fun _ _ => sound_init start disk data havedisk1 logsize⟩ ?_
    rintro s ⟨p, a⟩ t hs ⟨hst, hroom⟩
    obtain ⟨hpanic, halive, hturn⟩ := next_turn hst
    have hsound := hs.sound hpanic halive
    exact ⟨hsound.finds hturn hroom halive, hsound.step hturn⟩
  exact hsafe.buffers

/-- One process logs a block and commits it while another one reads. -/
def logAndRead : List (Bool × Act ℕ) :=
  [(false, .beginOp), (false, .use 0 (.bget 1 7)), (false, .use 0 .acquiresleep),
    (false, .use 0 .bread), (false, .use 0 (.modify 42)), (true, .use 0 (.bget 1 8)),
    (false, .use 0 .logWrite), (false, .use 0 .releasesleep), (false, .use 0 .brelse),
    (true, .use 0 .acquiresleep), (false, .endOp)] ++
  List.replicate 45 (false, .commit)

theorem buffers_suffice_commit : ∃ s : St Bool ℕ,
    Reach (fun s l t => Step 2 (fun _ d => d) s l t ∧ Room 2 s l)
      (init (fun _ => 0) (fun _ => 0) true 30) s ∧
    s.committing = false ∧ s.cache.disk (1, 7) = 42 ∧ s.cache.panic ≠ some .noBuffers := by
  exact guarded_any (P := fun s => s.committing = false ∧ s.cache.disk (1, 7) = 42) logAndRead
    (by decide +kernel) fun s hr ⟨hcom, hdisk⟩ => ⟨hcom, hdisk, buffers_suffice hr⟩

/-- Readers of different blocks, outside every operation. All but the last wait for the disk. -/
def manyReaders : List (Fin 31 × Act Unit) :=
  ((List.finRange 31).flatMap fun p =>
    [(p, .use 0 (.bget 1 (100 + p))), (p, .use 0 .acquiresleep)]).dropLast

theorem readers_exhaust_buffers : ∃ s : St (Fin 31) Unit,
    Reach (Step 2 fun _ d => d) (init (fun _ => ()) (fun _ => ()) true 30) s ∧
    s.cache.lh = [] ∧ s.cache.outstanding = 0 ∧ s.cache.panic = some .noBuffers :=
  reach_any manyReaders (by decide +kernel) fun _ _ => id

end Xv6.BufRoom
