import Mathlib.Algebra.BigOperators.Ring.Finset
import Xv6.LogGroup

/-!
Room in the log: `begin_op` lets an operation in only if all operations in progress could still
log `MAXOPBLOCKS` blocks each, and `log_write` panics when the log is full.

The two count differently. `begin_op` fills up `LOGSIZE` blocks, and the log on disk has as many
with the header among them, so `log_write` gives up one block earlier; and it does so before it
has looked whether the block is in the log already.
-/

namespace Xv6.LogGroup

open Xv6.Lib.Run
open Xv6.LogDisk (LOGSIZE)
open Function (update update_of_ne update_self)

/-- `nlog` of `mkfs.c`, which `initlog` makes `log.size`. -/
def nlog : ℕ := LOGSIZE

/-- The block that a step passes to `log_write`. -/
def Act.passes : Act → Option ℕ
  | .logCheck b => some b
  | _ => none

variable {P : Type*} [DecidableEq P]

/-- The blocks that the current operation of `p` has logged. -/
def opBlocks (s : St P) (p : P) : Finset ℕ :=
  ((s.wrote.filter fun w => w.proc = p ∧ w.op = s.op p).map Write.block).toFinset

/-- With this step the operation has passed at most `k` different blocks to `log_write`. -/
def Within (k : ℕ) (s : St P) (l : P × Act) : Prop :=
  ∀ b ∈ l.2.passes, (insert b (opBlocks s l.1)).card ≤ k

instance (k : ℕ) (s : St P) (l : P × Act) : Decidable (Within k s l) :=
  inferInstanceAs (Decidable (∀ b ∈ l.2.passes, (insert b (opBlocks s l.1)).card ≤ k))

/-- A step by processes whose operations keep to `k` blocks. -/
def BoundedStep (size k : ℕ) (s : St P) (l : P × Act) (t : St P) : Prop :=
  Step size s l t ∧ Within k s l

/-! ### What the operations may still log -/

section Room

variable {k size : ℕ} {s t : St P} {p : P} {a : Act} {b : ℕ}

lemma mem_opBlocks {c : ℕ} :
    c ∈ opBlocks s p ↔ ∃ w ∈ s.wrote, w.proc = p ∧ w.op = s.op p ∧ w.block = c := by
  simp [opBlocks, and_assoc]

lemma opBlocks_congr (hw : t.wrote = s.wrote) (hop : t.op p = s.op p) :
    opBlocks t p = opBlocks s p := by
  rw [opBlocks, opBlocks, hw, hop]

/-- `log_write` adds to the blocks of one operation. -/
lemma opBlocks_log {w : Write P} (hw : t.wrote = s.wrote ++ [w]) (hop : t.op = s.op)
    (ho : w.op = s.op w.proc) (q : P) :
    opBlocks t q = if q = w.proc then insert w.block (opBlocks s q) else opBlocks s q := by
  ext c
  have hmem : c ∈ opBlocks t q ↔
      c ∈ opBlocks s q ∨ w.proc = q ∧ w.op = s.op q ∧ w.block = c := by
    simp only [mem_opBlocks, hw, hop, List.mem_append, List.mem_singleton, or_and_right, exists_or,
      exists_eq_left]
  grind

/-- What an operation in progress has logged is in the header. -/
lemma opBlocks_subset (hh : Hist s) (hp : (s.pc p).active) {c : ℕ} (hc : c ∈ opBlocks s p) :
    c ∈ s.lh := by
  obtain ⟨w, hwm, h1, h2, h3⟩ := mem_opBlocks.mp hc
  exact (hh.cur c).mpr ⟨w, hwm, hh.now p hp w hwm h1 h2, h3⟩

/-- How many blocks the operation of `p` may still log. -/
def credit (k : ℕ) (s : St P) (p : P) : ℕ :=
  if (s.pc p).active then k - (opBlocks s p).card else 0

lemma credit_le (k : ℕ) (s : St P) (p : P) : (credit k s p : ℤ) ≤ k * weight (s.pc p) := by
  unfold credit weight
  split_ifs
  · omega
  · simp

lemma credit_mono (hact : (t.pc p).active → (s.pc p).active) (hb : opBlocks t p = opBlocks s p) :
    credit k t p ≤ credit k s p := by
  unfold credit
  rw [hb]
  split_ifs with h1 h2 <;> first | exact le_rfl | exact absurd (hact h1) h2 | exact Nat.zero_le _

lemma length_absorb (b : ℕ) (l : List ℕ) :
    (absorb b l).length = if b ∈ l then l.length else l.length + 1 := by
  induction l with
  | nil => simp [absorb]
  | cons c l ih => grind [absorb]

variable [Fintype P]

lemma weight_nonneg (c : Pc) : 0 ≤ weight c := by
  unfold weight
  split_ifs <;> decide

omit [DecidableEq P] in
lemma Ctl.nonneg (hc : Ctl s) : 0 ≤ s.outstanding := by
  rw [hc.count]
  exact Finset.sum_nonneg fun q _ => weight_nonneg (s.pc q)

omit [DecidableEq P] in
lemma Ctl.pos (hc : Ctl s) (hp : (s.pc p).active) : 0 < s.outstanding := by
  have hle : weight (s.pc p) ≤ ∑ q, weight (s.pc q) :=
    Finset.single_le_sum (f := fun q => weight (s.pc q)) (fun q _ => weight_nonneg _)
      (Finset.mem_univ p)
  rw [← hc.count, weight, if_pos hp] at hle
  exact hle

/-- The log has room for all that the operations in progress may still log, with two blocks to
spare, and it is empty when there is no operation. -/
structure Room (k : ℕ) (s : St P) : Prop where
  room : s.lh.length + ∑ p, credit k s p + 2 ≤ LOGSIZE
  passed : ∀ p b, s.pc p = .logging b → (insert b (opBlocks s p)).card ≤ k
  empty : s.committing = false → s.outstanding = 0 → s.lh = []
  done : ∀ p, s.pc p = .commit .eraseHead ∨ s.pc p = .commit .finish → s.lh = []

omit [DecidableEq P] in
lemma room_init [DecidableEq P] : Room k (init : St P) := by
  refine ⟨?_, by simp [init], by simp [init], by simp [init]⟩
  simp [init, credit, Pc.active, LOGSIZE]

/-- Process `p` goes to `c`, and sleepers may wake up. -/
lemma Room.step (hs : Room k s) {c : Pc} (hpc : ∀ q, t.pc q = update s.pc p c q ∨ t.pc q = .begin)
    (hblocks : ∀ q ≠ p, opBlocks t q = opBlocks s q)
    (hlog : ∀ b, c = .logging b → (insert b (opBlocks t p)).card ≤ k)
    (hlh : t.lh = s.lh ∨ t.lh = [] ∨ ∀ q, (s.pc q).committing = false)
    (hdone : c = .commit .eraseHead ∨ c = .commit .finish → t.lh = [])
    (hempty : t.committing = false → t.outstanding = 0 → t.lh = [])
    (hroom : t.lh.length + ∑ q, credit k t q + 2 ≤ LOGSIZE) : Room k t := by
  refine ⟨hroom, fun q b hq => ?_, hempty, fun q hq => ?_⟩
  · have := hs.passed q b
    grind
  · have := hs.done q
    grind [Pc.committing]

/-- Nothing is logged, and no operation begins. -/
lemma Room.quiet (hs : Room k s) (hlh : t.lh.length ≤ s.lh.length) (hw : t.wrote = s.wrote)
    (hop : t.op = s.op) (hact : ∀ q, (t.pc q).active → (s.pc q).active) :
    t.lh.length + ∑ q, credit k t q + 2 ≤ LOGSIZE := by
  have hsum : ∑ q, credit k t q ≤ ∑ q, credit k s q :=
    Finset.sum_le_sum fun q _ => credit_mono (hact q) (opBlocks_congr hw (congrFun hop q))
  have := hs.room
  omega

/-- Process `p` moves, and no operation begins. -/
lemma Room.goto (hs : Room k s) {c : Pc} (hact : c.active = true → (s.pc p).active = true)
    (hlog : ∀ b, c = .logging b → (insert b (opBlocks s p)).card ≤ k)
    (hdone : c = .commit .eraseHead ∨ c = .commit .finish → s.lh = []) : Room k (s.goto p c) :=
  hs.step (fun _ => Or.inl rfl) (fun _ _ => rfl) hlog (Or.inl rfl) hdone hs.empty
    (hs.quiet le_rfl rfl rfl (active_of_update hact))

/-- `begin_op` succeeds. Each operation in progress may still log `k` blocks at most, so they leave
as many blocks as there are of them; and if this is the only one, the log is empty. -/
lemma Room.begun (hk : k < MAXOPBLOCKS) (hc : Ctl s) (hs : Room k s)
    (hp : s.pc p = .begin) (hfree : s.committing = false)
    (hroom : s.lh.length + (s.outstanding + 1) * MAXOPBLOCKS ≤ LOGSIZE)
    (hpc : t.pc = update s.pc p .op) (hlh : t.lh = s.lh) :
    t.lh.length + ∑ q, credit k t q + 2 ≤ LOGSIZE := by
  have hsum : ∑ q, (credit k t q : ℤ) ≤ k * (s.outstanding + 1) := by
    calc ∑ q, (credit k t q : ℤ) ≤ ∑ q, k * weight (t.pc q) :=
          Finset.sum_le_sum fun q _ => credit_le k t q
      _ = k * ∑ q, weight (t.pc q) := (Finset.mul_sum ..).symm
      _ = k * (s.outstanding + 1) := by
          rw [hpc, sum_update weight, ← hc.count, hp]
          simp [weight, Pc.active]
  have hnn := hc.nonneg
  have hk' : (k : ℤ) ≤ 9 := by
    unfold MAXOPBLOCKS at hk
    omega
  have hmul : (k : ℤ) * (s.outstanding + 1) ≤ 9 * (s.outstanding + 1) :=
    Int.mul_le_mul_of_nonneg_right hk' (by omega)
  have hcast : ((∑ q, credit k t q : ℕ) : ℤ) = ∑ q, (credit k t q : ℤ) := Nat.cast_sum ..
  unfold MAXOPBLOCKS LOGSIZE at hroom
  rw [hlh]
  unfold LOGSIZE
  by_cases h0 : s.outstanding = 0
  · have hnil : s.lh.length = 0 := by rw [hs.empty hfree h0]; rfl
    omega
  · omega

/-- `log_write` uses what the operation had left, unless the block is in the log. -/
lemma Room.log (hh : Hist s) (hs : Room k s) (hp : s.pc p = .logging b)
    (hpc : t.pc = update s.pc p .op) (hlh : t.lh = absorb b s.lh)
    (hblocks : ∀ q, opBlocks t q = if q = p then insert b (opBlocks s q) else opBlocks s q) :
    t.lh.length + ∑ q, credit k t q + 2 ≤ LOGSIZE := by
  have hact : (s.pc p).active = true := by simp [hp, Pc.active]
  have hother : ∑ q ∈ Finset.univ.erase p, credit k t q =
      ∑ q ∈ Finset.univ.erase p, credit k s q := by
    refine Finset.sum_congr rfl fun q hq => ?_
    have hqp := Finset.ne_of_mem_erase hq
    rw [credit, credit, hblocks, if_neg hqp, hpc, update_of_ne hqp]
  have hself : (absorb b s.lh).length + credit k t p ≤ s.lh.length + credit k s p := by
    have hcard := hs.passed p b hp
    rw [credit, credit, if_pos hact, hblocks, if_pos rfl, hpc, update_self,
      if_pos (show Pc.op.active = true from rfl), length_absorb]
    by_cases hb : b ∈ opBlocks s p
    · rw [if_pos (opBlocks_subset hh hact hb), Finset.insert_eq_of_mem hb]
    · rw [Finset.card_insert_of_notMem hb] at hcard ⊢
      split_ifs <;> omega
  have hs' := hs.room
  have hsum (u : St P) :=
    Finset.add_sum_erase Finset.univ (fun q => credit k u q) (Finset.mem_univ p)
  have hsum₁ := hsum s
  have hsum₂ := hsum t
  rw [hlh]
  omega

lemma Turn.room (hk : k < MAXOPBLOCKS) (h : Turn size s p a t) (hc : Ctl s) (hh : Hist s)
    (hs : Room k s) (hb : Within k s (p, a)) : Room k t := by
  have hidle {q : P} (hq : s.pc q = .op ∨ ∃ b, s.pc q = .logging b) : s.committing = false := by
    by_contra hcom
    have := hc.idle (eq_true_of_ne_false hcom) q
    rcases hq with hq | ⟨b, hq⟩ <;> simp [hq, Pc.active] at this
  have hwake (u : St P) (q : P) : u.wakeup.pc q = u.pc q ∨ u.wakeup.pc q = .begin := by
    by_cases hq : u.pc q = .asleep <;> simp [St.wakeup, hq]
  cases h with
  | enter | sleep | kill => exact hs.goto (by simp [Pc.active]) (by simp) (by simp)
  | tooBig | outside => exact ⟨hs.room, hs.passed, hs.empty, hs.done⟩
  | check b hp =>
    refine hs.goto (by simp [hp, Pc.active]) (fun b' hb' => ?_) (by simp)
    cases hb'
    exact hb b rfl
  | begun hp hfree hroom =>
    refine hs.step (fun _ => Or.inl rfl) (fun q hq => opBlocks_congr rfl ?_) (by simp) (Or.inl rfl)
      (by simp) (fun _ ho => ?_) (hs.begun hk hc hp hfree hroom rfl rfl)
    · exact update_of_ne hq _ _
    · -- an operation has just begun
      have hout : s.outstanding + 1 = 0 := ho
      have := hc.nonneg
      omega
  | log b hp =>
    have hcom := hidle (Or.inr ⟨b, hp⟩)
    have hblocks := opBlocks_log (s := s) (w := ⟨p, s.op p, b, s.txn⟩)
      (t := { s.goto p .op with
        lh := absorb b s.lh
        wrote := s.wrote ++ [⟨p, s.op p, b, s.txn⟩] }) rfl rfl rfl
    refine hs.step (fun _ => Or.inl rfl) (fun q hq => (hblocks q).trans (if_neg hq)) (by simp)
      (Or.inr (Or.inr fun q => ?_)) (by simp) (fun _ ho => ?_) (hs.log hh hp rfl rfl hblocks)
    · by_contra hq
      have := hc.com.mpr ⟨q, eq_true_of_ne_false hq⟩
      simp [hcom] at this
    · -- the operation of `p` is in progress
      exact absurd ho (hc.pos (p := p) (by simp [hp, Pc.active])).ne'
  | early hp hcom => simp [hidle (Or.inl hp)] at hcom
  | last hp =>
    exact hs.step (fun _ => Or.inl rfl) (fun _ _ => rfl) (by simp) (Or.inl rfl) (by simp) (by simp)
      (hs.quiet le_rfl rfl rfl (active_of_update (by simp [Pc.active])))
  | leave hp _ hmore =>
    refine hs.step (c := .idle) (fun q => hwake _ q) (fun _ _ => rfl) (by simp) (Or.inl rfl) (by simp)
      (fun _ ho => absurd ho hmore) (hs.quiet le_rfl rfl rfl fun q hq => ?_)
    rw [wakeup_active] at hq
    exact active_of_update (by simp [Pc.active]) q hq
  | phase a ph ph' hp _ hempty herase =>
    refine hs.goto (by simp [Pc.active]) (by simp) ?_
    rintro (he | he)
    · exact absurd (Pc.commit.inj he) herase
    · rcases hempty (Pc.commit.inj he) with rfl | hnil
      · exact hs.done p (Or.inl hp)
      · exact hnil
  | writeHead hp =>
    exact hs.step (fun _ => Or.inl rfl) (fun _ _ => rfl) (by simp) (Or.inl rfl) (by simp) hs.empty
      (hs.quiet le_rfl rfl rfl (active_of_update (by simp [Pc.active])))
  | clear hp =>
    exact hs.step (fun _ => Or.inl rfl) (fun _ _ => rfl) (by simp) (Or.inr (Or.inl rfl))
      (fun _ => rfl) (fun _ _ => rfl)
      (hs.quiet (Nat.zero_le _) rfl rfl (active_of_update (by simp [Pc.active])))
  | finish hp =>
    refine hs.step (c := .idle) (fun q => hwake _ q) (fun _ _ => rfl) (by simp) (Or.inl rfl) (by simp)
      (fun _ _ => hs.done p (Or.inr hp)) (hs.quiet le_rfl rfl rfl fun q hq => ?_)
    have hq' : ((s.goto p .idle).wakeup.pc q).active = true := hq
    rw [wakeup_active] at hq'
    exact active_of_update (by simp [Pc.active]) q hq'

end Room

/-! ### The panic -/

variable [Fintype P]

lemma Room.not_tooBig {k : ℕ} {s t : St P} {p : P} {a : Act} (hs : Room k s)
    (h : Turn nlog s p a t) (hpan : s.panic ≠ some .tooBig) : t.panic ≠ some .tooBig := by
  have hlen : s.lh.length + 2 ≤ LOGSIZE := by
    have := hs.room
    omega
  cases h with
  | tooBig b hp hbig =>
    unfold nlog LOGSIZE at *
    omega
  | outside | early => exact nofun
  | _ => exact hpan

/-- **Room in the log.** As long as every operation passes fewer than `MAXOPBLOCKS` different
blocks to `log_write`, however often it does so, the log never fills up: `log_write` does not
panic, and two blocks of the log are unused, one of them for the header. -/
theorem log_space_reserved {s : St P} (h : Reach (BoundedStep nlog (MAXOPBLOCKS - 1)) init s) :
    s.panic ≠ some .tooBig ∧ s.lh.length + 2 ≤ nlog := by
  have hinv : (Ctl s ∧ Hist s) ∧ Room (MAXOPBLOCKS - 1) s ∧ s.panic ≠ some .tooBig := by
    refine h.inv
      (P := fun s => (Ctl s ∧ Hist s) ∧ Room (MAXOPBLOCKS - 1) s ∧ s.panic ≠ some .tooBig)
      ⟨⟨ctl_init, hist_init⟩, room_init, nofun⟩ ?_
    rintro s ⟨p, a⟩ t ⟨⟨hc, hh⟩, hr, hpan⟩ ⟨hst, hb⟩
    have hturn := next_turn hst
    exact ⟨⟨hturn.ctl hc (next_alive hst), hturn.hist hc hh⟩, hturn.room (by decide) hc hh hr hb,
      hr.not_tooBig hturn hpan⟩
  refine ⟨hinv.2.2, ?_⟩
  have := hinv.2.1.room
  unfold nlog
  omega

/-- The steps of a process whose operation logs the `n` blocks from `b` on. -/
def logRun (p : Fin 3) (b n : ℕ) : List (Fin 3 × Act) :=
  (List.range n).flatMap fun i => [(p, .logCheck (b + i)), (p, .logWrite)]

def beginAll : List (Fin 3 × Act) :=
  [(0, .beginOp), (0, .tryBegin), (1, .beginOp), (1, .tryBegin), (2, .beginOp), (2, .tryBegin)]

/-- The same, as a function. -/
def boundedNext (size k : ℕ) : St (Fin 3) → Fin 3 × Act → Option (St (Fin 3)) :=
  guarded (fun s l => next size s l.1 l.2) (Within k)

/-- Three operations at once that log nine blocks each. -/
theorem log_space_reserved_three : ∃ s : St (Fin 3),
    Reach (BoundedStep nlog (MAXOPBLOCKS - 1)) init s ∧ s.lh.length = 27 ∧
      s.panic ≠ some .tooBig := by
  exact guarded_any (P := fun s => s.lh.length = 27)
    (beginAll ++ logRun 0 100 9 ++ logRun 1 200 9 ++ logRun 2 300 9) (by decide +kernel)
    fun s hr hlen => ⟨hlen, (log_space_reserved hr).1⟩

/-- Three operations at once that log ten blocks each: the thirtieth does not fit. -/
theorem log_space_exhausted : ∃ s : St (Fin 3),
    Reach (BoundedStep nlog MAXOPBLOCKS) init s ∧ s.panic = some .tooBig :=
  guarded_any (beginAll ++ logRun 0 100 10 ++ logRun 1 200 10 ++ logRun 2 300 9 ++
    [(2, .logCheck 309)]) (by decide +kernel) fun _ _ => id

end Xv6.LogGroup
