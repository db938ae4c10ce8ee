import Mathlib.Data.List.FinRange
import Mathlib.Tactic.Common
import Xv6.Lib.Run

/-!
The process table of `proc.c` and what each critical section of `ptable.lock` does to it:
`allocproc`, `wakeup1`, `kill`, the loops of `exit` and `wait`, and the bookkeeping of the
multi-level feedback queue.

Only the fields those functions read are kept. A channel is an address; the address of a
process slot is told apart from all others because `wait` sleeps on it.
-/

namespace Xv6.ProcTable

open Function (update update_apply)

def NPROC : ℕ := 64

abbrev Slot := Fin NPROC

lemma NPROC_pos : 0 < NPROC := by decide

lemma one_lt_NPROC : 1 < NPROC := by decide

inductive ProcState
  | unused | embryo | sleeping | runnable | running | zombie
  deriving DecidableEq

inductive Chan
  | proc (p : Slot)
  | addr (a : ℕ)
  deriving DecidableEq

/-- The arrays `ticks` and `wait_ticks` have the indices `0` to `3`. -/
structure Proc where
  state : ProcState
  pid : ℤ
  parent : Option Slot
  chan : Option Chan
  killed : Bool
  priority : ℤ
  ticks : ℤ → ℤ
  waitTicks : ℤ → ℤ

abbrev Table := Slot → Proc

/-- The first slot of a loop over the table that passes a test. -/
def first (f : Slot → Bool) : Option Slot := (List.finRange NPROC).find? f

/-- A C `int` that has overflowed. -/
def wrap32 (n : ℤ) : ℤ := (n + 2 ^ 31) % 2 ^ 32 - 2 ^ 31

def wakeup1 (T : Table) (chan : Option Chan) : Table := fun p =>
  if (T p).state = .sleeping ∧ (T p).chan = chan then { T p with state := .runnable } else T p

/-- The new table and the result of `kill`. -/
def kill (T : Table) (pid : ℤ) : Table × ℤ :=
  match first fun p => (T p).pid = pid with
  | some p =>
    (update T p { T p with
      killed := true
      state := if (T p).state = .sleeping then .runnable else (T p).state }, 0)
  | none => (T, -1)

/-- The locked part of `allocproc` on the slot it has found. -/
def allocproc (T : Table) (np : Slot) (pid : ℤ) : Table :=
  update T np { T np with
    state := .embryo, pid := pid, priority := 3, ticks := fun _ => 0, waitTicks := fun _ => 0 }

/-- One turn of the loop of `exit` that passes abandoned children to `init`. -/
def reparent (initproc p : Slot) (T : Table) (q : Slot) : Table :=
  if (T q).parent = some p then
    let T := update T q { T q with parent := some initproc }
    if (T q).state = .zombie then wakeup1 T (some (.proc initproc)) else T
  else T

/-- The locked part of `exit`, up to `sched`. -/
def exit (initproc : Slot) (T : Table) (p : Slot) : Table :=
  let T := wakeup1 T ((T p).parent.map .proc)
  let T := (List.finRange NPROC).foldl (reparent initproc p) T
  update T p { T p with state := .zombie }

/-- What a scan of `wait` ends in. -/
inductive Found
  | zombie (q : Slot) | none | sleep
  deriving DecidableEq

def waitScan (T : Table) (p : Slot) : Found :=
  match first fun q => (T q).parent = some p ∧ (T q).state = .zombie with
  | some q => .zombie q
  | Option.none =>
    if first (fun q => (T q).parent = some p) = Option.none ∨ (T p).killed then .none else .sleep

/-- Set the state of a process. -/
def setState (T : Table) (p : Slot) (st : ProcState) : Table :=
  update T p { T p with state := st }

/-- The process goes to sleep on `chan`. -/
def setSleep (T : Table) (p : Slot) (chan : Chan) : Table :=
  update T p { T p with chan := some chan, state := .sleeping }

/-- The tidying up at the end of `sleep`. -/
def clearChan (T : Table) (p : Slot) : Table := update T p { T p with chan := none }

def setParent (T : Table) (np p : Slot) : Table :=
  update T np { T np with parent := some p }

/-- The zombie that `wait` has found is cleared. -/
def reap (T : Table) (q : Slot) : Table :=
  update T q { T q with pid := 0, parent := none, killed := false, state := .unused }

/-! ### The scheduler's bookkeeping -/

def slice : ℤ → ℤ
  | 1 => 32
  | 2 => 16
  | 3 => 8
  | _ => 0

/-- The process the MLFQ branch of `scheduler` selects. -/
def select (T : Table) : Option Slot :=
  [3, 2, 1, 0].findSome? fun prio => first fun p => (T p).state = .runnable ∧ (T p).priority = prio

def demote (P : Proc) : Proc :=
  if P.priority > 0 ∧ P.ticks P.priority ≥ slice P.priority then
    { P with priority := P.priority - 1, ticks := update P.ticks P.priority 0 }
  else P

def updateWaitTicks (T : Table) (running : Slot) : Table := fun p =>
  if p = running then T p
  else if (T p).state = .runnable then
    if (T p).priority < 0 ∨ (T p).priority > 3 then T p
    else { T p with
      waitTicks := update (T p).waitTicks (T p).priority ((T p).waitTicks (T p).priority + 1) }
  else T p

/-- `priority_boost` on one process; `prio` is read before either branch writes. -/
def boost (P : Proc) : Proc :=
  let prio := P.priority
  let P := if prio = 2 ∨ prio = 1 then
      if P.waitTicks prio ≥ 10 * slice prio then
        { P with priority := P.priority + 1, waitTicks := update P.waitTicks prio 0 }
      else P
    else P
  if prio = 0 then
    if P.waitTicks 0 ≥ 500 then
      { P with priority := 1, waitTicks := update P.waitTicks 0 0 }
    else P
  else P

def priorityBoost (T : Table) : Table := fun p =>
  if (T p).state = .unused then T p else boost (T p)

/-- A timer interrupt charges the running process, `p->ticks[p->priority]++`. -/
def charge (P : Proc) : Proc :=
  { P with ticks := update P.ticks P.priority (P.ticks P.priority + 1) }

/-- What the MLFQ branch does after a process has given the CPU back. -/
def account (T : Table) (selected : Slot) : Table :=
  priorityBoost (updateWaitTicks (update T selected (demote (T selected))) selected)

/-! ### One slot after an update -/

section Apply

variable (T : Table) (p q : Slot)

@[grind =] lemma setState_apply (st : ProcState) :
    setState T p st q = if q = p then { T p with state := st } else T q := update_apply ..

@[grind =] lemma setSleep_apply (ch : Chan) : setSleep T p ch q =
    if q = p then { T p with chan := some ch, state := .sleeping } else T q := update_apply ..

@[grind =] lemma clearChan_apply :
    clearChan T p q = if q = p then { T p with chan := none } else T q := update_apply ..

@[grind =] lemma setParent_apply (np : Slot) :
    setParent T np p q = if q = np then { T np with parent := some p } else T q := update_apply ..

@[grind =] lemma allocproc_apply (np : Slot) (pid : ℤ) : allocproc T np pid q = if q = np then
    { T np with
      state := .embryo, pid := pid, priority := 3, ticks := fun _ => 0, waitTicks := fun _ => 0 }
    else T q := update_apply ..

@[grind =] lemma reap_apply : reap T p q = if q = p then
    { T p with pid := 0, parent := none, killed := false, state := .unused } else T q :=
  update_apply ..

end Apply

/-! ### What the loops over the table leave alone -/

variable {p q : Slot} {T T' : Table}

lemma first_some {f : Slot → Bool} (h : first f = some p) : f p = true :=
  List.find?_some h

lemma first_none {f : Slot → Bool} (h : first f = none) (p : Slot) : f p = false := by
  have := List.find?_eq_none.mp h p (List.mem_finRange p)
  simpa using this

lemma select_runnable (h : select T = some p) : (T p).state = .runnable := by
  unfold select at h
  obtain ⟨prio, -, hp⟩ := List.exists_of_findSome?_eq_some h
  have := first_some hp
  simp only [Bool.decide_and, Bool.and_eq_true, decide_eq_true_eq] at this
  exact this.1

lemma waitScan_zombie (h : waitScan T p = .zombie q) :
    (T q).parent = some p ∧ (T q).state = .zombie := by
  unfold waitScan at h
  rcases hf : first fun q => (T q).parent = some p ∧ (T q).state = .zombie with _ | q'
  · rw [hf] at h
    simp only at h
    split_ifs at h
  · rw [hf] at h
    obtain rfl := Found.zombie.inj h
    simpa using first_some hf

/-- `wait` fails for want of a child, or because the caller has been killed. -/
lemma waitScan_none (h : waitScan T p = .none) : (∀ q, (T q).parent ≠ some p) ∨ (T p).killed := by
  unfold waitScan at h
  rcases hf : first fun q => (T q).parent = some p ∧ (T q).state = .zombie with _ | q'
  · rw [hf] at h
    simp only at h
    split_ifs at h with hk
    refine hk.imp_left fun hn q hq => ?_
    have := first_none hn q
    simp [hq] at this
  · rw [hf] at h
    exact Found.noConfusion h

lemma waitScan_sleep (h : waitScan T p = .sleep) (q : Slot) (hq : (T q).parent = some p) :
    (T q).state ≠ .zombie := by
  unfold waitScan at h
  rcases hf : first fun q => (T q).parent = some p ∧ (T q).state = .zombie with _ | q'
  · intro hz
    have := first_none hf q
    simp [hq, hz] at this
  · rw [hf] at h
    exact Found.noConfusion h

/-- Some sleepers have been made `RUNNABLE`; no other process has changed its state, and none
its pid or its channel. -/
structure Quiet (T T' : Table) : Prop where
  state : ∀ q, (T' q).state = (T q).state ∨
    (T q).state = .sleeping ∧ (T' q).state = .runnable
  pid : ∀ q, (T' q).pid = (T q).pid
  chan : ∀ q, (T' q).chan = (T q).chan

lemma Quiet.refl (T : Table) : Quiet T T := ⟨fun _ => Or.inl rfl, fun _ => rfl, fun _ => rfl⟩

lemma Quiet.trans {T'' : Table} (h : Quiet T T') (h' : Quiet T' T'') : Quiet T T'' where
  state q := by
    rcases h.state q with e | ⟨e, e1⟩ <;> rcases h'.state q with e' | ⟨e', e1'⟩
    · exact Or.inl (e'.trans e)
    · exact Or.inr ⟨e ▸ e', e1'⟩
    · exact Or.inr ⟨e, e'.trans e1⟩
    · exact Or.inr ⟨e, e1'⟩
  pid q := (h'.pid q).trans (h.pid q)
  chan q := (h'.chan q).trans (h.chan q)

/-- A process that is not asleep keeps its state. -/
lemma Quiet.state_eq (h : Quiet T T') (hq : (T q).state ≠ .sleeping) : (T' q).state = (T q).state :=
  (h.state q).resolve_right fun hs => hq hs.1

/-- No state but `RUNNABLE` is entered. -/
lemma Quiet.state_of (h : Quiet T T') (hq : (T' q).state ≠ .runnable) :
    (T q).state = (T' q).state :=
  ((h.state q).resolve_right fun hs => hq hs.2).symm

lemma wakeup1_parent (T : Table) (chan : Option Chan) (q : Slot) :
    (wakeup1 T chan q).parent = (T q).parent := by
  unfold wakeup1
  split_ifs <;> rfl

lemma wakeup1_killed (T : Table) (chan : Option Chan) (q : Slot) :
    (wakeup1 T chan q).killed = (T q).killed := by
  unfold wakeup1
  split_ifs <;> rfl

lemma wakeup1_quiet (T : Table) (chan : Option Chan) : Quiet T (wakeup1 T chan) := by
  refine ⟨fun q => ?_, fun q => ?_, fun q => ?_⟩ <;> unfold wakeup1 <;> split_ifs with h
  · exact Or.inr ⟨h.1, rfl⟩
  · exact Or.inl rfl
  all_goals rfl

/-- Nobody is left asleep on the channel. -/
lemma wakeup1_awake (T : Table) (chan : Option Chan) (q : Slot)
    (h : (wakeup1 T chan q).state = .sleeping) : (wakeup1 T chan q).chan ≠ chan := by
  unfold wakeup1 at h ⊢
  split_ifs at h ⊢ with hc
  exact fun he => hc ⟨h, he⟩

lemma kill_quiet (T : Table) (pid : ℤ) : Quiet T (kill T pid).1 := by
  unfold kill
  rcases first fun p => (T p).pid = pid with _ | p
  · exact Quiet.refl T
  · constructor <;> grind

lemma kill_parent (T : Table) (pid : ℤ) (q : Slot) : ((kill T pid).1 q).parent = (T q).parent := by
  unfold kill
  rcases first fun p => (T p).pid = pid with _ | p
  · rfl
  · grind

/-- The fields the scheduler's bookkeeping does not touch. -/
@[grind cases]
structure Same (P P' : Proc) : Prop where
  state : P'.state = P.state
  pid : P'.pid = P.pid
  parent : P'.parent = P.parent
  chan : P'.chan = P.chan
  killed : P'.killed = P.killed

lemma Same.refl (P : Proc) : Same P P := ⟨rfl, rfl, rfl, rfl, rfl⟩

lemma Same.trans {P P' P'' : Proc} (h : Same P P') (h' : Same P' P'') : Same P P'' :=
  ⟨h'.state.trans h.state, h'.pid.trans h.pid, h'.parent.trans h.parent, h'.chan.trans h.chan,
    h'.killed.trans h.killed⟩

lemma charge_same (P : Proc) : Same P (charge P) := ⟨rfl, rfl, rfl, rfl, rfl⟩

lemma demote_same (P : Proc) : Same P (demote P) := by
  unfold demote
  split_ifs <;> constructor <;> rfl

lemma updateWaitTicks_same (T : Table) (p q : Slot) : Same (T q) (updateWaitTicks T p q) := by
  unfold updateWaitTicks
  split_ifs <;> constructor <;> rfl

lemma boost_same (P : Proc) : Same P (boost P) := by
  unfold boost
  dsimp only
  split_ifs <;> constructor <;> rfl

lemma account_same (T : Table) (p q : Slot) : Same (T q) (account T p q) := by
  have hdemote : Same (T q) (update T p (demote (T p)) q) := by
    by_cases hq : q = p
    · subst hq
      simpa using demote_same (T q)
    · simpa [hq] using Same.refl (T q)
  refine (hdemote.trans (updateWaitTicks_same _ p q)).trans ?_
  unfold account priorityBoost
  split_ifs
  · exact Same.refl _
  · exact boost_same _

@[grind =] lemma account_state (T : Table) (p q : Slot) : (account T p q).state = (T q).state :=
  (account_same T p q).state

/-! ### `exit` -/

/-- What a part `l` of the loop of `exit` has done. -/
structure Reparented (initproc p : Slot) (l : List Slot) (T T' : Table) : Prop where
  quiet : Quiet T T'
  killed : ∀ q, (T' q).killed = (T q).killed
  parent : ∀ q, (T' q).parent =
    if q ∈ l ∧ (T q).parent = some p then some initproc else (T q).parent
  awake : ∀ q ∈ l, (T q).parent = some p → (T q).state = .zombie →
    ∀ r, (T' r).state = .sleeping → (T' r).chan ≠ some (.proc initproc)

lemma Quiet.awake (h : Quiet T T') {ch : Option Chan}
    (hT : ∀ r, (T r).state = .sleeping → (T r).chan ≠ ch) (r : Slot)
    (hr : (T' r).state = .sleeping) : (T' r).chan ≠ ch := by
  rw [h.chan r]
  exact hT r ((h.state_of (by simp [hr])).trans hr)

lemma setParent_quiet (T : Table) (np p : Slot) : Quiet T (setParent T np p) := by
  constructor <;> grind

lemma reparent_spec (initproc p q : Slot) (T : Table) :
    Reparented initproc p [q] T (reparent initproc p T q) := by
  by_cases hp : (T q).parent = some p
  · have hq : reparent initproc p T q = if (T q).state = .zombie
        then wakeup1 (setParent T q initproc) (some (.proc initproc))
        else setParent T q initproc := by
      have hst : (setParent T q initproc q).state = (T q).state := by grind
      rw [← hst]
      exact if_pos hp
    rw [hq]
    split_ifs with hz
    · exact ⟨(setParent_quiet T q initproc).trans (wakeup1_quiet _ _), by grind [wakeup1_killed],
        by grind [wakeup1_parent], fun _ _ _ _ r => wakeup1_awake _ _ r⟩
    · exact ⟨setParent_quiet T q initproc, by grind, by grind, by grind⟩
  · rw [show reparent initproc p T q = T by simp [reparent, hp]]
    exact ⟨Quiet.refl T, fun _ => rfl, by grind, by grind⟩

lemma Reparented.cons {initproc : Slot} {l : List Slot} {T'' : Table}
    (h : Reparented initproc p [q] T T') (h' : Reparented initproc p l T' T'') :
    Reparented initproc p (q :: l) T T'' where
  quiet := h.quiet.trans h'.quiet
  killed r := (h'.killed r).trans (h.killed r)
  -- `q` has its new parent already, whether it comes again or not
  parent r := by grind [h'.parent r, h.parent r]
  awake r hr hp hz := by
    by_cases hrq : r = q
    · exact h'.quiet.awake (h.awake r (by simp [hrq]) hp hz)
    · refine h'.awake r ((List.mem_cons.mp hr).resolve_left hrq) ?_ ?_
      · rw [h.parent r, if_neg (by simp [hrq]), hp]
      · rw [h.quiet.state_eq (by simp [hz]), hz]

/-- The whole loop. -/
lemma foldl_reparent (initproc p : Slot) (l : List Slot) (T : Table) :
    Reparented initproc p l T (l.foldl (reparent initproc p) T) := by
  induction l generalizing T with
  | nil => exact ⟨Quiet.refl T, fun _ => rfl, fun r => by simp, by simp⟩
  | cons q rest ih => exact (reparent_spec initproc p q T).cons (ih _)

/-- **`exit`**: the process becomes a zombie, its children go to `init`, its parent is awake and
so is `init` if it has become the parent of a zombie. -/
structure Exited (initproc p : Slot) (T T' : Table) : Prop where
  zombie : (T' p).state = .zombie
  state : ∀ q, q ≠ p → (T' q).state = (T q).state ∨
    (T q).state = .sleeping ∧ (T' q).state = .runnable
  pid : ∀ q, (T' q).pid = (T q).pid
  chan : ∀ q, (T' q).chan = (T q).chan
  killed : ∀ q, (T' q).killed = (T q).killed
  parent : ∀ q, (T' q).parent = if (T q).parent = some p then some initproc else (T q).parent
  parentAwake : ∀ pp, (T p).parent = some pp → ∀ r, (T' r).state = .sleeping →
    (T' r).chan ≠ some (.proc pp)
  initAwake : ∀ q, (T q).parent = some p → (T q).state = .zombie → ∀ r, (T' r).state = .sleeping →
    (T' r).chan ≠ some (.proc initproc)

lemma exit_spec (initproc p : Slot) (T : Table) : Exited initproc p T (exit initproc T p) := by
  set U := wakeup1 T ((T p).parent.map .proc) with hU
  have hUT : Quiet T U := wakeup1_quiet _ _
  obtain ⟨hquiet, hkilled, hparent, hawake⟩ := foldl_reparent initproc p (List.finRange NPROC) U
  set V := (List.finRange NPROC).foldl (reparent initproc p) U
  have hexit (q : Slot) : exit initproc T p q = setState V p .zombie q := rfl
  have hVT := hUT.trans hquiet
  -- whoever sleeps after `exit` slept after the loop
  have hsleep {q : Slot} (h : (exit initproc T p q).state = .sleeping) :
      (V q).state = .sleeping ∧ (exit initproc T p q).chan = (V q).chan := by grind
  refine ⟨by grind, fun q hq => ?_, fun q => ?_, fun q => ?_, fun q => ?_, fun q => ?_,
    fun pp hpp r hr => ?_, fun q hq hz r hr => ?_⟩
  · grind [hVT.state q]
  · grind [hVT.pid q]
  · grind [hVT.chan q]
  · grind [wakeup1_killed]
  · grind [wakeup1_parent]
  · rw [(hsleep hr).2]
    refine hquiet.awake (fun r' hr' => ?_) r (hsleep hr).1
    have hchan := wakeup1_awake T _ r' hr'
    rw [← hU, hpp] at hchan
    exact hchan
  · rw [(hsleep hr).2]
    refine hawake q (List.mem_finRange q) ?_ ?_ r (hsleep hr).1
    · rw [hU, wakeup1_parent, hq]
    · rw [hUT.state_eq (by simp [hz]), hz]

end Xv6.ProcTable
