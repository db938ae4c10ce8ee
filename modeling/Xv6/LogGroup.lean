import Mathlib.Algebra.Order.BigOperators.Group.Finset
import Xv6.Lib.Run
import Xv6.LogDisk

/-!
Group commit: any number of processes bracket their file system calls by `begin_op` and
`end_op`, and the last one out commits for all of them.

A step is one critical section of `log.lock`, or one action `commit` and `log_write` make
without the lock. Four fields are history: which operation of a process this is, which
transaction is being filled, what `log_write` has recorded, and what `write_head` has
committed.
-/

namespace Xv6.LogGroup

open Xv6.Lib.Run
open Xv6.LogDisk (LOGSIZE)
open Function (update update_of_ne update_self)

/-- `MAXOPBLOCKS`. -/
def MAXOPBLOCKS : ℕ := 10

/-- Where a process is inside `commit`, as called by `end_op`. -/
inductive Phase
  | test | writeLog | writeHead | installTrans | clear | eraseHead | finish
  deriving DecidableEq

/-- Where a process is: outside, at the top of the loop of `begin_op`, asleep in it, in
its operation, inside `log_write` with the tests passed, or in `end_op` with `do_commit`. -/
inductive Pc
  | idle
  | begin
  | asleep
  | op
  | logging (b : ℕ)
  | commit (ph : Phase)
  deriving DecidableEq

inductive Panic
  | tooBig | outside | committing
  deriving DecidableEq

/-- One `log_write` in the past: who, in which of its operations, of which block, and into
which transaction. -/
structure Write (P : Type*) where
  proc : P
  op : ℕ
  block : ℕ
  txn : ℕ

structure St (P : Type*) where
  outstanding : ℤ
  committing : Bool
  lh : List ℕ
  pc : P → Pc
  panic : Option Panic
  /-- History. -/
  op : P → ℕ
  txn : ℕ
  wrote : List (Write P)
  committed : List (ℕ × List ℕ)

inductive Act
  | beginOp | tryBegin | kill | logCheck (b : ℕ) | logWrite | endOp
  | test | writeLog | writeHead | installTrans | clear | eraseHead | finish
  deriving DecidableEq

variable {P : Type*} [DecidableEq P]

def init : St P := ⟨0, false, [], fun _ => .idle, none, fun _ => 0, 0, [], []⟩

def St.goto (s : St P) (p : P) (c : Pc) : St P := { s with pc := update s.pc p c }

/-- `wakeup(&log)`. -/
def St.wakeup (s : St P) : St P :=
  { s with pc := fun q => if s.pc q = .asleep then .begin else s.pc q }

/-- The loop of `log_write` over `log.lh.block`: an entry that is there is kept, else the
block is appended. -/
def absorb (b : ℕ) : List ℕ → List ℕ
  | [] => [b]
  | c :: cs => if c = b then b :: cs else c :: absorb b cs

/-- One step of process `p`; `size` is `log.size`. -/
def next (size : ℕ) (s : St P) (p : P) (a : Act) : Option (St P) :=
  if s.panic.isSome then none else
  match a, s.pc p with
  | .beginOp, .idle => some (s.goto p .begin)
  | .tryBegin, .begin =>
    if s.committing then some (s.goto p .asleep)
    else if s.lh.length + (s.outstanding + 1) * MAXOPBLOCKS > LOGSIZE then some (s.goto p .asleep)
    else some { s.goto p .op with
      outstanding := s.outstanding + 1
      op := update s.op p (s.op p + 1) }
  -- a killed process leaves `sleep` without a wakeup
  | .kill, .asleep => some (s.goto p .begin)
  | .logCheck b, .op =>
    if s.lh.length ≥ LOGSIZE ∨ (s.lh.length : ℤ) ≥ size - 1 then some { s with panic := some .tooBig }
    else if s.outstanding < 1 then some { s with panic := some .outside }
    else some (s.goto p (.logging b))
  | .logWrite, .logging b =>
    some { s.goto p .op with
      lh := absorb b s.lh
      wrote := s.wrote ++ [⟨p, s.op p, b, s.txn⟩] }
  | .endOp, .op =>
    let s := { s with outstanding := s.outstanding - 1 }
    if s.committing then some { s with panic := some .committing }
    else if s.outstanding = 0 then some { s.goto p (.commit .test) with committing := true }
    else some (s.goto p .idle).wakeup
  | .test, .commit .test =>
    if s.lh.length > 0 then some (s.goto p (.commit .writeLog)) else some (s.goto p (.commit .finish))
  | .writeLog, .commit .writeLog => some (s.goto p (.commit .writeHead))
  | .writeHead, .commit .writeHead =>
    some { s.goto p (.commit .installTrans) with committed := s.committed ++ [(s.txn, s.lh)] }
  | .installTrans, .commit .installTrans => some (s.goto p (.commit .clear))
  | .clear, .commit .clear =>
    some { s.goto p (.commit .eraseHead) with lh := [], txn := s.txn + 1 }
  | .eraseHead, .commit .eraseHead => some (s.goto p (.commit .finish))
  | .finish, .commit .finish => some { (s.goto p .idle).wakeup with committing := false }
  | _, _ => none

/-- A step of some process. -/
def Step (size : ℕ) (s : St P) (l : P × Act) (t : St P) : Prop := next size s l.1 l.2 = some t

/-- The process is between `begin_op` and `end_op`. -/
def Pc.active : Pc → Bool
  | .op | .logging _ => true
  | _ => false

/-- The process is in `commit`. -/
def Pc.committing : Pc → Bool
  | .commit _ => true
  | _ => false

/-- The transaction being filled has been committed already. -/
def Pc.headWritten : Pc → Bool
  | .commit .installTrans | .commit .clear => true
  | _ => false

@[simp] lemma goto_pc (s : St P) (p : P) (c : Pc) : (s.goto p c).pc = update s.pc p c := rfl
@[simp] lemma goto_outstanding (s : St P) (p : P) (c : Pc) :
    (s.goto p c).outstanding = s.outstanding := rfl
@[simp] lemma goto_committing (s : St P) (p : P) (c : Pc) :
    (s.goto p c).committing = s.committing := rfl
@[simp] lemma goto_lh (s : St P) (p : P) (c : Pc) : (s.goto p c).lh = s.lh := rfl
@[simp] lemma goto_panic (s : St P) (p : P) (c : Pc) : (s.goto p c).panic = s.panic := rfl
@[simp] lemma goto_op (s : St P) (p : P) (c : Pc) : (s.goto p c).op = s.op := rfl
@[simp] lemma goto_txn (s : St P) (p : P) (c : Pc) : (s.goto p c).txn = s.txn := rfl
@[simp] lemma goto_wrote (s : St P) (p : P) (c : Pc) : (s.goto p c).wrote = s.wrote := rfl
@[simp] lemma goto_committed (s : St P) (p : P) (c : Pc) :
    (s.goto p c).committed = s.committed := rfl

lemma mem_absorb {b c : ℕ} {l : List ℕ} : c ∈ absorb b l ↔ c = b ∨ c ∈ l := by
  induction l with
  | nil => simp [absorb]
  | cons d l ih =>
    unfold absorb
    split_ifs with h
    · subst h; simp
    · simp only [List.mem_cons, ih]; tauto

/-! ### The branches of a step -/

/-- Every step, with the state after it. -/
inductive Turn (size : ℕ) (s : St P) (p : P) : Act → St P → Prop
  | enter (hp : s.pc p = .idle) : Turn size s p .beginOp (s.goto p .begin)
  | sleep (hp : s.pc p = .begin) : Turn size s p .tryBegin (s.goto p .asleep)
  | begun (hp : s.pc p = .begin) (hfree : s.committing = false)
      (hroom : s.lh.length + (s.outstanding + 1) * MAXOPBLOCKS ≤ LOGSIZE) :
      Turn size s p .tryBegin { s.goto p .op with
        outstanding := s.outstanding + 1
        op := update s.op p (s.op p + 1) }
  | kill (hp : s.pc p = .asleep) : Turn size s p .kill (s.goto p .begin)
  | tooBig (b : ℕ) (hp : s.pc p = .op)
      (hbig : s.lh.length ≥ LOGSIZE ∨ (s.lh.length : ℤ) ≥ size - 1) :
      Turn size s p (.logCheck b) { s with panic := some .tooBig }
  | outside (b : ℕ) (hp : s.pc p = .op) :
      Turn size s p (.logCheck b) { s with panic := some .outside }
  | check (b : ℕ) (hp : s.pc p = .op) : Turn size s p (.logCheck b) (s.goto p (.logging b))
  | log (b : ℕ) (hp : s.pc p = .logging b) :
      Turn size s p .logWrite { s.goto p .op with
        lh := absorb b s.lh
        wrote := s.wrote ++ [⟨p, s.op p, b, s.txn⟩] }
  | early (hp : s.pc p = .op) (hcom : s.committing = true) :
      Turn size s p .endOp { s with
        outstanding := s.outstanding - 1
        panic := some .committing }
  | last (hp : s.pc p = .op) (hfree : s.committing = false) (hlast : s.outstanding - 1 = 0) :
      Turn size s p .endOp { s.goto p (.commit .test) with
        outstanding := s.outstanding - 1
        committing := true }
  | leave (hp : s.pc p = .op) (hfree : s.committing = false) (hmore : s.outstanding - 1 ≠ 0) :
      Turn size s p .endOp ({ s with outstanding := s.outstanding - 1 }.goto p .idle).wakeup
  | phase (a : Act) (ph ph' : Phase) (hp : s.pc p = .commit ph)
      (hhead : (Pc.commit ph).headWritten = true → (Pc.commit ph').headWritten = true)
      (hempty : ph' = .finish → ph = .eraseHead ∨ s.lh = []) (herase : ph' ≠ .eraseHead) :
      Turn size s p a (s.goto p (.commit ph'))
  | writeHead (hp : s.pc p = .commit .writeHead) :
      Turn size s p .writeHead { s.goto p (.commit .installTrans) with
        committed := s.committed ++ [(s.txn, s.lh)] }
  | clear (hp : s.pc p = .commit .clear) :
      Turn size s p .clear { s.goto p (.commit .eraseHead) with lh := [], txn := s.txn + 1 }
  | finish (hp : s.pc p = .commit .finish) :
      Turn size s p .finish { (s.goto p .idle).wakeup with committing := false }

variable {size : ℕ} {s t : St P} {p : P} {a : Act} {c : Pc}

lemma next_turn (h : next size s p a = some t) : Turn size s p a t := by
  unfold next at h
  split at h
  · cases h
  split at h
  case h_2 hp =>
    split_ifs at h with hcom hroom <;> cases h
    · exact .sleep hp
    · exact .sleep hp
    · exact .begun hp (eq_false_of_ne_true hcom) (not_lt.mp hroom)
  case h_4 b hp =>
    split_ifs at h with hbig hout <;> cases h
    · exact .tooBig b hp hbig
    · exact .outside b hp
    · exact .check b hp
  case h_6 hp =>
    dsimp only at h
    split_ifs at h with hcom hmore <;> cases h
    · exact .early hp hcom
    · exact .last hp (eq_false_of_ne_true hcom) hmore
    · exact .leave hp (eq_false_of_ne_true hcom) hmore
  case h_7 hp =>
    split_ifs at h with hlen <;> cases h
    · exact .phase _ _ .writeLog hp nofun nofun nofun
    · exact .phase _ _ .finish hp nofun (fun _ => Or.inr (by simpa using hlen)) nofun
  case h_14 => cases h
  all_goals cases h
  case h_1 hp => exact .enter hp
  case h_3 hp => exact .kill hp
  case h_5 hp => exact .log _ hp
  case h_8 hp => exact .phase _ _ .writeHead hp nofun nofun nofun
  case h_9 hp => exact .writeHead hp
  case h_10 hp => exact .phase _ _ .clear hp (fun _ => rfl) nofun nofun
  case h_11 hp => exact .clear hp
  case h_12 hp => exact .phase _ _ .finish hp nofun (fun _ => Or.inl rfl) nofun
  case h_13 hp => exact .finish hp

section Places

variable {s : St P} {p : P} {c : Pc}

@[grind =] lemma goto_apply (q : P) : (s.goto p c).pc q = if q = p then c else s.pc q :=
  Function.update_apply ..

lemma active_of_update (h : c.active = true → (s.pc p).active = true) (q : P)
    (hq : (update s.pc p c q).active = true) : (s.pc q).active = true := by
  grind

omit [DecidableEq P]

@[grind =] lemma wakeup_active (s : St P) (q : P) : (s.wakeup.pc q).active = (s.pc q).active := by
  by_cases h : s.pc q = .asleep <;> simp [St.wakeup, h, Pc.active]

@[grind =] lemma wakeup_committing (s : St P) (q : P) :
    (s.wakeup.pc q).committing = (s.pc q).committing := by
  by_cases h : s.pc q = .asleep <;> simp [St.wakeup, h, Pc.committing]

@[grind =] lemma wakeup_headWritten (s : St P) (q : P) :
    (s.wakeup.pc q).headWritten = (s.pc q).headWritten := by
  by_cases h : s.pc q = .asleep <;> simp [St.wakeup, h, Pc.headWritten]

end Places

/-! ### The handshake -/

/-- What a process counts for in `log.outstanding`. -/
def weight (c : Pc) : ℤ := if c.active then 1 else 0

lemma weight_congr {d : Pc} (h : c.active = d.active) : weight c = weight d := by
  simp [weight, h]

variable [Fintype P]

/-- `outstanding` counts the operations in progress, `committing` says that some process
commits, which is then the only one, and no operation is in progress. -/
structure Ctl (s : St P) : Prop where
  count : s.outstanding = ∑ p, weight (s.pc p)
  com : s.committing = true ↔ ∃ p, (s.pc p).committing
  uniq : ∀ p q, (s.pc p).committing → (s.pc q).committing → p = q
  quiet : s.committing = true → s.outstanding = 0
  panic : s.panic ≠ some .committing

omit [DecidableEq P] in
/-- While one process commits no operation is in progress. -/
lemma Ctl.idle (h : Ctl s) (hc : s.committing = true) (q : P) : (s.pc q).active = false := by
  have h0 := h.quiet hc
  rw [h.count] at h0
  have hnn : ∀ p ∈ Finset.univ, 0 ≤ weight (s.pc p) := by
    intro p _
    unfold weight; split_ifs <;> omega
  have := (Finset.sum_eq_zero_iff_of_nonneg hnn).mp h0 q (Finset.mem_univ q)
  by_contra hq
  simp [weight, hq] at this

omit [DecidableEq P] in
lemma ctl_init : Ctl (init : St P) := by
  refine ⟨by simp [init, weight, Pc.active], ?_, ?_, by simp [init], by simp [init]⟩
  · simp [init, Pc.committing]
  · simp [init, Pc.committing]

lemma sum_weight : ∑ q, weight ((s.goto p c).pc q) =
    ∑ q, weight (s.pc q) - weight (s.pc p) + weight c := sum_update weight ..

omit [DecidableEq P] in
lemma sum_weight_wakeup (s : St P) : ∑ q, weight (s.wakeup.pc q) = ∑ q, weight (s.pc q) :=
  Finset.sum_congr rfl fun q _ => weight_congr (wakeup_active s q)

omit [DecidableEq P] in
/-- Nobody enters or leaves an operation or `commit`. -/
lemma Ctl.stay (hs : Ctl s) (hact : ∀ q, (t.pc q).active = (s.pc q).active)
    (hcom : ∀ q, (t.pc q).committing = (s.pc q).committing) (ho : t.outstanding = s.outstanding)
    (hc : t.committing = s.committing) (hp : t.panic ≠ some .committing) : Ctl t := by
  refine ⟨?_, by simpa only [hc, hcom] using hs.com, by simpa only [hcom] using hs.uniq,
    by simpa only [hc, ho] using hs.quiet, hp⟩
  rw [ho, hs.count]
  exact Finset.sum_congr rfl fun q _ => weight_congr (hact q).symm

lemma Turn.ctl (h : Turn size s p a t) (hs : Ctl s) (halive : s.panic = none) : Ctl t := by
  have hidle (hc : s.committing = true) := hs.idle hc p
  -- nobody commits
  have hno (hfree : s.committing = false) (q : P) : (s.pc q).committing = false := by
    by_contra hq
    have := hs.com.mpr ⟨q, by simpa using hq⟩
    simp [hfree] at this
  cases h with
  | begun hp hfree =>
    have hno := hno hfree
    refine ⟨?_, ?_, ?_, ?_, by simp [halive]⟩
    · exact (by simp [hs.count, hp, weight, Pc.active] : s.outstanding + 1 = _).trans
        sum_weight.symm
    · simp only [hfree, goto_committing, Bool.false_eq_true, false_iff, not_exists]
      grind [Pc.committing]
    · grind [Pc.committing]
    · simp [hfree]
  | leave hp hfree =>
    have hno := hno hfree
    refine ⟨?_, ?_, ?_, fun hc => absurd (hfree.symm.trans hc) nofun, by simp [St.wakeup, halive]⟩
    · refine Eq.trans ?_ (sum_weight_wakeup _).symm
      exact (by simp [hs.count, hp, weight, Pc.active] : s.outstanding - 1 = _).trans
        sum_weight.symm
    · refine iff_of_false (fun hc => absurd (hfree.symm.trans hc) nofun) ?_
      grind [Pc.committing]
    · grind [Pc.committing]
  | last hp hfree hlast =>
    have hno := hno hfree
    refine ⟨?_, iff_of_true rfl ⟨p, by simp [Pc.committing]⟩, ?_, fun _ => hlast, by simp [halive]⟩
    · exact (by simp [hs.count, hp, weight, Pc.active] : s.outstanding - 1 = _).trans
        sum_weight.symm
    · grind [Pc.committing]
  | finish hp =>
    have huniq (q : P) := hs.uniq q p
    refine ⟨?_, ?_, ?_, nofun, by simp [St.wakeup, halive]⟩
    · refine Eq.trans ?_ (sum_weight_wakeup _).symm
      exact (by simp [hs.count, hp, weight, Pc.active] : s.outstanding = _).trans sum_weight.symm
    · refine iff_of_false nofun ?_
      grind [Pc.committing]
    · grind [Pc.committing]
  | early hp hcom =>
    have := hidle hcom
    simp [hp, Pc.active] at this
  | tooBig | outside => exact hs.stay (fun _ => rfl) (fun _ => rfl) rfl rfl nofun
  | enter hp | sleep hp | kill hp | check b hp | log b hp | phase _ _ _ hp | writeHead hp
  | clear hp =>
    exact hs.stay (by grind [Pc.active]) (by grind [Pc.committing]) rfl rfl (by simp [halive])

omit [Fintype P] in
lemma next_alive (h : next size s p a = some t) : s.panic = none := by
  unfold next at h
  split at h
  · cases h
  · rename_i hpan
    simpa using hpan

/-! ### The transactions -/

/-- Every operation logs into one transaction, the header lists what the current one has
logged, and so did every header committed. -/
structure Hist (s : St P) : Prop where
  cur : ∀ b, b ∈ s.lh ↔ ∃ w ∈ s.wrote, w.txn = s.txn ∧ w.block = b
  past : ∀ w ∈ s.wrote, w.txn ≤ s.txn ∧ w.op ≤ s.op w.proc
  same : ∀ w ∈ s.wrote, ∀ v ∈ s.wrote, w.proc = v.proc → w.op = v.op → w.txn = v.txn
  now : ∀ p, (s.pc p).active → ∀ w ∈ s.wrote, w.proc = p → w.op = s.op p → w.txn = s.txn
  old : ∀ c ∈ s.committed, c.1 < s.txn ∨ (c.1 = s.txn ∧ ∃ p, (s.pc p).headWritten)
  whole : ∀ c ∈ s.committed, ∀ b, b ∈ c.2 ↔ ∃ w ∈ s.wrote, w.txn = c.1 ∧ w.block = b

omit [Fintype P] [DecidableEq P] in
lemma hist_init : Hist (init : St P) := by
  refine ⟨?_, ?_, ?_, ?_, ?_, ?_⟩ <;> simp [init]

lemma headWritten_committing (h : c.headWritten = true) : c.committing = true := by
  cases c <;> simp_all [Pc.headWritten, Pc.committing]

omit [Fintype P] [DecidableEq P] in
/-- Nothing is logged, committed or cleared. -/
lemma Hist.stay (hh : Hist s) (hlh : t.lh = s.lh) (hop : t.op = s.op) (htxn : t.txn = s.txn)
    (hw : t.wrote = s.wrote) (hc : t.committed = s.committed)
    (hhead : (∃ q, (s.pc q).headWritten) → ∃ q, (t.pc q).headWritten)
    (hact : ∀ q, (t.pc q).active → (s.pc q).active) : Hist t := by
  obtain ⟨hcur, hpast, hsame, hnow, hold, hwhole⟩ := hh
  refine ⟨?_, ?_, ?_, ?_, ?_, ?_⟩ <;> simp only [hlh, hop, htxn, hw, hc]
  · exact hcur
  · exact hpast
  · exact hsame
  · exact fun q hq => hnow q (hact q hq)
  · exact fun c hcm => (hold c hcm).imp_right (And.imp_right hhead)
  · exact hwhole

lemma Turn.hist (h : Turn size s p a t) (hs : Ctl s) (hh : Hist s) : Hist t := by
  have ⟨hcur, hpast, hsame, hnow, hold, hwhole⟩ := hh
  -- the header has been written as long as nobody else moves
  have hkeep {c : Pc} (hc : (s.pc p).headWritten = true → c.headWritten = true) :
      (∃ q, (s.pc q).headWritten) → ∃ q, ((s.goto p c).pc q).headWritten := by
    rintro ⟨q, hq⟩
    exact ⟨q, by grind⟩
  have hidle (q : P) (hq : (s.pc q).committing = true) := hs.idle (hs.com.mpr ⟨q, hq⟩)
  cases h with
  | tooBig | outside | early => exact hh.stay rfl rfl rfl rfl rfl id fun _ => id
  | enter hp | sleep hp | kill hp | check b hp | last hp | phase _ _ _ hp =>
    exact hh.stay rfl rfl rfl rfl rfl (hkeep (by grind [Pc.headWritten])) (by grind [Pc.active])
  | leave hp | finish hp =>
    refine hh.stay rfl rfl rfl rfl rfl (fun hq => ?_) (by grind [Pc.active])
    obtain ⟨q, hq⟩ := hkeep (c := .idle) (by grind [Pc.headWritten]) hq
    exact ⟨q, (wakeup_headWritten _ q).trans hq⟩
  | begun hp =>
    -- it has logged nothing yet
    have hhead := hkeep (c := .op) (by grind [Pc.headWritten])
    refine ⟨hcur, fun w hw => ?_, hsame, fun q hq w hw hwq hwo => ?_,
      fun c hc => (hold c hc).imp_right (And.imp_right hhead), hwhole⟩
    · obtain ⟨h1, h2⟩ := hpast w hw
      refine ⟨h1, ?_⟩
      grind
    · have := (hpast w hw).2
      by_cases hqp : q = p
      · subst hqp
        subst hwq
        simp only [update_self] at hwo
        omega
      · simp only [goto_apply, if_neg hqp, update_of_ne hqp] at hq hwo
        exact hnow q hq w hw hwq hwo
  | log b hp =>
    -- nobody commits, so no header of this transaction has been written
    have hpa : (s.pc p).active := by simp [hp, Pc.active]
    have hlt (c : ℕ × List ℕ) (hc : c ∈ s.committed) : c.1 < s.txn := by
      rcases hold c hc with h1 | ⟨-, q, hq⟩
      · exact h1
      · simp [hidle q (headWritten_committing hq) p] at hpa
    have hmem (w : Write P) : w ∈ s.wrote ++ [⟨p, s.op p, b, s.txn⟩] ↔
        w ∈ s.wrote ∨ w = ⟨p, s.op p, b, s.txn⟩ := by simp
    have hnew {x : ℕ} (d : ℕ) : (∃ w ∈ s.wrote ++ [⟨p, s.op p, b, s.txn⟩],
        w.txn = x ∧ w.block = d) ↔
          (∃ w ∈ s.wrote, w.txn = x ∧ w.block = d) ∨ (s.txn = x ∧ b = d) := by
      simp only [hmem, or_and_right, exists_or, exists_eq_left]
    refine ⟨fun c => ?_, fun w hw => ?_, fun w hw v hv hpr ho => ?_, fun q hq w hw hwq hwo => ?_,
      fun c hc => Or.inl (hlt c hc), fun c hc d => ?_⟩
    · refine (mem_absorb ..).trans (Iff.trans ?_ (hnew c).symm)
      rw [hcur c, or_comm]
      simp [eq_comm]
    · rcases (hmem w).mp hw with h1 | rfl
      · exact hpast w h1
      · exact ⟨le_rfl, le_rfl⟩
    · rcases (hmem w).mp hw with h1 | rfl <;> rcases (hmem v).mp hv with h2 | rfl
      · exact hsame w h1 v h2 hpr ho
      · exact hnow p hpa w h1 hpr ho
      · exact (hnow p hpa v h2 hpr.symm ho.symm).symm
      · rfl
    · rcases (hmem w).mp hw with h1 | rfl
      · exact hnow q (active_of_update (fun _ => hpa) q hq) w h1 hwq hwo
      · rfl
    · refine (hwhole c hc d).trans (Iff.trans ?_ (hnew d).symm)
      have := hlt c hc
      grind
  | writeHead hp =>
    have hnow' : ∃ q, ((s.goto p (.commit .installTrans)).pc q).headWritten :=
      ⟨p, by simp [Pc.headWritten]⟩
    refine ⟨hcur, hpast, hsame, fun q hq => hnow q ?_, fun c hc => ?_, fun c hc => ?_⟩
    · exact active_of_update (by simp [Pc.active]) q hq
    · rcases List.mem_append.mp hc with hc | hc
      · exact (hold c hc).imp_right fun h2 => ⟨h2.1, hnow'⟩
      · exact Or.inr ⟨by simp [List.mem_singleton.mp hc], hnow'⟩
    · rcases List.mem_append.mp hc with hc | hc
      · exact hwhole c hc
      · rw [List.mem_singleton.mp hc]
        exact hcur
  | clear hp =>
    have hidle := hidle p (by simp [hp, Pc.committing])
    refine ⟨fun b => iff_of_false nofun ?_, fun w hw => ?_, hsame, fun q hq => ?_, fun c hc => ?_,
      hwhole⟩
    · rintro ⟨w, hw, htxn, -⟩
      exact absurd (hpast w hw).1 (by simp [htxn])
    · exact ⟨(hpast w hw).1.trans (Nat.le_succ _), (hpast w hw).2⟩
    · have := active_of_update (by simp [Pc.active]) q hq
      simp [hidle q] at this
    · exact Or.inl ((hold c hc).elim Nat.lt_succ_of_lt fun h1 => h1.1 ▸ Nat.lt_succ_self _)

/-- Both invariants hold in every state reached. -/
lemma reach_inv (h : Reach (Step size) init s) : Ctl s ∧ Hist s := by
  refine h.inv (P := fun s => Ctl s ∧ Hist s) ⟨ctl_init, hist_init⟩ ?_
  rintro s ⟨p, a⟩ t ⟨hc, hh⟩ hst
  have hturn := next_turn hst
  exact ⟨hturn.ctl hc (next_alive hst), hturn.hist hc hh⟩

/-- While `p` commits, a step of another process neither logs nor touches the header. -/
lemma step_other {q : P} (hs : Ctl s) (hp : (s.pc p).committing) (hqp : q ≠ p)
    (h : next size s q a = some t) :
    a ≠ .logWrite ∧ (∀ b, a ≠ .logCheck b) ∧ t.lh = s.lh := by
  have hidle := hs.idle (hs.com.mpr ⟨p, hp⟩) q
  cases next_turn h with
  | tooBig _ hq | outside _ hq | check _ hq | log _ hq => simp [hq, Pc.active] at hidle
  | phase _ _ _ hq | clear hq => exact absurd (hs.uniq q p (by simp [hq, Pc.committing]) hp) hqp
  | _ => exact ⟨nofun, nofun, rfl⟩

/-- **Group commit.** In every state reached by any interleaving: at most one process is in
`commit`; while one is, no operation is outstanding, and no step of another process is a
`log_write` or changes `log.lh`; `end_op` never panics; and each operation has logged into
one transaction, whose committed header lists exactly the blocks logged into it. -/
theorem group_commit_isolation {size : ℕ} {s : St P} (h : Reach (Step size) init s) :
    (∀ p q, (s.pc p).committing → (s.pc q).committing → p = q) ∧
    (∀ p, (s.pc p).committing → s.outstanding = 0 ∧ ∀ q a t, q ≠ p → Step size s (q, a) t →
      a ≠ .logWrite ∧ (∀ b, a ≠ .logCheck b) ∧ t.lh = s.lh) ∧ s.panic ≠ some .committing ∧
    (∀ w ∈ s.wrote, ∀ v ∈ s.wrote, w.proc = v.proc → w.op = v.op → w.txn = v.txn) ∧
    (∀ c ∈ s.committed, ∀ b, b ∈ c.2 ↔ ∃ w ∈ s.wrote, w.txn = c.1 ∧ w.block = b) := by
  obtain ⟨hc, hh⟩ := reach_inv h
  refine ⟨hc.uniq, fun p hp => ⟨hc.quiet (hc.com.mpr ⟨p, hp⟩), fun q a t hqp hst => ?_⟩, hc.panic,
    hh.same, hh.whole⟩
  exact step_other hc hp hqp hst

/-- Two processes with overlapping operations: the second one out starts the commit. -/
theorem group_commit_isolation_two :
    ∃ s : St (Fin 2), Reach (Step 30) init s ∧ (s.pc 1).committing ∧ s.outstanding = 0 := by
  obtain ⟨s, hs⟩ : ∃ s : St (Fin 2), exec (fun s l => next 30 s l.1 l.2) init
      [(0, .beginOp), (1, .beginOp), (0, .tryBegin), (1, .tryBegin), (0, .logCheck 40),
        (0, .logWrite), (0, .endOp), (1, .endOp)] = some s ∧ s.pc 1 = .commit .test := by
    exact ⟨_, rfl, rfl⟩
  have hr : Reach (Step 30) init s := reach_of_exec _ hs.1
  have hc : (s.pc 1).committing := by simp [hs.2, Pc.committing]
  exact ⟨s, hr, hc, ((group_commit_isolation hr).2.1 1 hc).1⟩

end Xv6.LogGroup
