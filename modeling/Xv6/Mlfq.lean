import Xv6.ProcAgree

/-!
The multi-level feedback queue: priorities, the ticks a process has run at each level and those it
has waited there, over every run of the machine.
-/

namespace Xv6.ProcTable

open Function (update update_of_ne update_self)

/-- The fields of the queue are the same. -/
@[grind cases]
structure SameLevels (P P' : Proc) : Prop where
  priority : P'.priority = P.priority
  ticks : P'.ticks = P.ticks
  waitTicks : P'.waitTicks = P.waitTicks

lemma SameLevels.refl (P : Proc) : SameLevels P P := ⟨rfl, rfl, rfl⟩

lemma SameLevels.trans {P P' P'' : Proc} (h : SameLevels P P') (h' : SameLevels P' P'') :
    SameLevels P P'' :=
  ⟨h'.priority.trans h.priority, h'.ticks.trans h.ticks, h'.waitTicks.trans h.waitTicks⟩

section Levels

variable {T : Table} {p q : Slot} {P : Proc}

lemma wakeup1_levels (T : Table) (chan : Option Chan) (q : Slot) :
    SameLevels (T q) (wakeup1 T chan q) := by
  unfold wakeup1
  split_ifs <;> exact ⟨rfl, rfl, rfl⟩

lemma kill_levels (T : Table) (pid : ℤ) (q : Slot) : SameLevels (T q) ((kill T pid).1 q) := by
  unfold kill
  rcases first fun p => (T p).pid = pid with _ | p
  · exact .refl _
  · constructor <;> grind

lemma reparent_levels (initproc p r : Slot) (T : Table) (q : Slot) :
    SameLevels (T q) (reparent initproc p T r q) := by
  unfold reparent
  constructor <;> grind [wakeup1]

lemma foldl_reparent_levels (initproc p : Slot) (l : List Slot) (T : Table) (q : Slot) :
    SameLevels (T q) (l.foldl (reparent initproc p) T q) := by
  induction l generalizing T with
  | nil => exact .refl _
  | cons r l ih => exact (reparent_levels initproc p r T q).trans (ih _)

lemma exit_levels (initproc : Slot) (T : Table) (p q : Slot) :
    SameLevels (T q) (exit initproc T p q) := by
  set U := wakeup1 T ((T p).parent.map .proc) with hU
  set V := (List.finRange NPROC).foldl (reparent initproc p) U with hV
  have hexit : exit initproc T p q = setState V p .zombie q := rfl
  have hUV : SameLevels (U q) (V q) := hV ▸ foldl_reparent_levels initproc p _ U q
  refine ((wakeup1_levels T _ q).trans hUV).trans ?_
  constructor <;> grind

/-! ### Waiting -/

/-- The level is one of four, and a process is boosted before it has waited longer. -/
@[grind cases]
structure Sane (P : Proc) : Prop where
  level : 0 ≤ P.priority ∧ P.priority ≤ 3
  wait0 : P.waitTicks 0 < 500
  wait1 : P.waitTicks 1 < 320
  wait2 : P.waitTicks 2 < 160

lemma sane_new (hl : 0 ≤ P.priority ∧ P.priority ≤ 3) (hw : ∀ k, P.waitTicks k = 0) : Sane P := by
  constructor <;> grind

variable {P' : Proc}

lemma Sane.of_same (h : Sane P) (hs : SameLevels P P') : Sane P' := by
  constructor <;> grind

lemma Sane.demote (h : Sane P) : Sane (demote P) := by
  unfold ProcTable.demote
  constructor <;> grind

/-- The process has waited at its level for as long as `priority_boost` lets it. -/
def Due (P : Proc) : Prop :=
  P.priority = 2 ∧ P.waitTicks 2 ≥ 160 ∨ P.priority = 1 ∧ P.waitTicks 1 ≥ 320 ∨
    P.priority = 0 ∧ P.waitTicks 0 ≥ 500

/-- One level up, with nothing left of the wait. -/
def raise (P : Proc) : Proc :=
  { P with priority := P.priority + 1, waitTicks := update P.waitTicks P.priority 0 }

lemma boost_due (h : Due P) : boost P = raise P := by
  rcases h with ⟨hp, hw⟩ | ⟨hp, hw⟩ | ⟨hp, hw⟩ <;> simp [boost, raise, hp, slice, hw]

lemma boost_not_due (h : ¬ Due P) : boost P = P := by
  unfold boost
  grind [Due, slice]

lemma Sane.not_due (h : Sane P) : ¬ Due P := by
  grind [Due]

/-- One tick of waiting more, at the level of the process. -/
@[grind cases]
structure Overdue (P : Proc) : Prop where
  level : 0 ≤ P.priority ∧ P.priority ≤ 3
  wait0 : P.waitTicks 0 < 500 ∨ P.priority = 0 ∧ P.waitTicks 0 = 500
  wait1 : P.waitTicks 1 < 320 ∨ P.priority = 1 ∧ P.waitTicks 1 = 320
  wait2 : P.waitTicks 2 < 160 ∨ P.priority = 2 ∧ P.waitTicks 2 = 160

/-- A process that has waited one tick longer. -/
def waited (P : Proc) : Proc :=
  { P with waitTicks := update P.waitTicks P.priority (P.waitTicks P.priority + 1) }

lemma Sane.overdue (h : Sane P) : Overdue (waited P) := by
  unfold waited
  constructor <;> grind

lemma Overdue.boost (h : Overdue P) : Sane (boost P) := by
  by_cases hd : Due P
  · rw [boost_due hd, raise]
    constructor <;> grind [Due]
  · rw [boost_not_due hd]
    constructor <;> grind [Due]

/-- What the MLFQ branch leaves to `priority_boost`. -/
lemma updateWaitTicks_idle (h : q = p ∨ (T q).state ≠ .runnable) : updateWaitTicks T p q = T q := by
  unfold updateWaitTicks
  rcases h with h | h
  · rw [if_pos h]
  · split_ifs <;> rfl

lemma updateWaitTicks_cases (T : Table) (p q : Slot) : updateWaitTicks T p q = T q ∨
    (T q).state = .runnable ∧ updateWaitTicks T p q = waited (T q) := by
  unfold updateWaitTicks
  split_ifs with hq hr hl
  · exact .inl rfl
  · exact .inl rfl
  · exact .inr ⟨hr, rfl⟩
  · exact .inl rfl

/-- `priority_boost` leaves a process alone that runs, and the one that has just given back the
CPU. -/
lemma priorityBoost_idle (hs : Sane (T q)) (h : q = p ∨ (T q).state ≠ .runnable) :
    priorityBoost (updateWaitTicks T p) q = T q := by
  unfold priorityBoost
  rw [updateWaitTicks_idle h, boost_not_due hs.not_due]
  split_ifs <;> rfl

lemma priorityBoost_sane (hs : Sane (T q)) : Sane (priorityBoost (updateWaitTicks T p) q) := by
  unfold priorityBoost
  rcases updateWaitTicks_cases T p q with h | ⟨hr, h⟩ <;> rw [h]
  · rw [boost_not_due hs.not_due]
    split_ifs <;> exact hs
  · have hst : (waited (T q)).state ≠ .unused := fun hu => nomatch hr.symm.trans hu
    rw [if_neg hst]
    exact hs.overdue.boost

/-- What `account` works on. -/
lemma demoted_sane (h : ∀ q, Sane (T q)) (q : Slot) : Sane (update T p (demote (T p)) q) := by
  grind [Sane.demote]

lemma account_sane (h : ∀ q, Sane (T q)) (q : Slot) : Sane (account T p q) :=
  priorityBoost_sane (demoted_sane h q)

lemma account_self (h : ∀ q, Sane (T q)) : account T p p = demote (T p) := by
  have hd := priorityBoost_idle (p := p) (demoted_sane (p := p) h p) (.inl rfl)
  rwa [update_self] at hd

lemma account_other (h : ∀ q, Sane (T q)) (hq : q ≠ p) (hr : (T q).state ≠ .runnable) :
    account T p q = T q := by
  have hT : update T p (demote (T p)) q = T q := update_of_ne hq _ _
  have hd := priorityBoost_idle (p := p) (demoted_sane (p := p) h q) (.inr (by rwa [hT]))
  rwa [hT] at hd

/-! ### Running -/

/-- The process has used less than its time at each level. -/
@[grind cases]
structure Fresh (P : Proc) : Prop where
  ticks1 : P.ticks 1 < 32
  ticks2 : P.ticks 2 < 16
  ticks3 : P.ticks 3 < 8

/-- It has been charged one tick since. -/
@[grind cases]
structure Charged (P : Proc) : Prop where
  ticks1 : P.ticks 1 < 32 ∨ P.priority = 1
  ticks2 : P.ticks 2 < 16 ∨ P.priority = 2
  ticks3 : P.ticks 3 < 8 ∨ P.priority = 3

lemma Fresh.of_ticks (h : Fresh P) (ht : P'.ticks = P.ticks) : Fresh P' := by
  constructor <;> grind

lemma Fresh.charge (h : Fresh P) : Charged (charge P) := by
  unfold ProcTable.charge
  constructor <;> grind

lemma Charged.of_same (h : Charged P) (hs : SameLevels P P') : Charged P' := by
  constructor <;> grind

/-- A process that has used up its time goes down a level. -/
lemma Charged.demote (h : Charged P) : Fresh (demote P) := by
  unfold ProcTable.demote
  split_ifs with hd <;> constructor <;> grind [slice]

lemma Fresh.charged (h : Fresh P) : Charged P := ⟨.inl h.ticks1, .inl h.ticks2, .inl h.ticks3⟩

lemma boost_ticks (P : Proc) : (boost P).ticks = P.ticks := by
  unfold boost
  grind

lemma account_ticks (hq : q ≠ p) : (account T p q).ticks = (T q).ticks := by
  unfold account priorityBoost updateWaitTicks
  grind [boost_ticks]

end Levels

end Xv6.ProcTable

namespace Xv6.ProcMachine

open Xv6.ProcTable Xv6.Lib.Run
open Function (update update_of_ne update_self)

variable {C : Type*}

/-- What a step does to the fields of the queue. -/
inductive LevelStep (s t : St C) (c : C) : Prop
  | same (h : ∀ q, SameLevels (s.proc q) (t.proc q))
  | charge (p : Slot) (m : Bool) (x : Th) (hctl : (s.cpu c).ctl = .run p m) (hth : (s.th p).ticked = some x)
      (ht : t.proc = update s.proc p (charge (s.proc p))) (hx : t.th p = x)
  | alloc (np : Slot) (pid : ℤ) (hlock : s.lock = none) (hu : (s.proc np).state = .unused)
      (ht : t.proc = allocproc s.proc np pid)
  | account (p : Slot) (hctl : (s.cpu c).ctl = .back p true) (ht : t.proc = account s.proc p)

variable [DecidableEq C] {s t : St C} {c : C} {a : Act}

lemma Eff.levels (h : Eff s c a t) : LevelStep s t c := by
  cases h with
  | backMlfq p hctl => exact .account p hctl rfl
  | wakeup b hctl hlock => exact .same (wakeup1_levels s.proc _)
  | tick p m x hctl hth => exact .charge p m x hctl hth rfl (by simp)
  | kill pid p m hctl hth hlock => exact .same (kill_levels s.proc pid)
  | allocproc p np m hctl hth hlock hnp =>
    exact .alloc np s.nextpid hlock (by simpa using first_some hnp) rfl
  | exit p m hctl hth hlock hp => exact .same (exit_levels initproc s.proc p)
  | _ => exact .same fun q => ⟨by grind, by grind, by grind⟩

omit [DecidableEq C] in
lemma LevelStep.sane (h : LevelStep s t c) (hs : ∀ q, Sane (s.proc q)) (q : Slot) :
    Sane (t.proc q) := by
  have hq := hs q
  cases h with
  | same h => exact hq.of_same (h q)
  | account p hctl ht =>
    rw [ht]
    exact account_sane hs q
  | _ =>
    simp only [*]
    constructor <;> grind [ProcTable.charge]

omit [DecidableEq C] in
lemma sane_init (policy : C → ℤ) (q : Slot) : Sane ((init policy).proc q) := by
  have hlevel : ((init policy).proc q).priority = if q = initproc then 3 else 0 := rfl
  refine sane_new ?_ fun _ => rfl
  rw [hlevel]
  split_ifs <;> decide

lemma reach_sane {policy : C → ℤ} (h : Reach Step (init policy) s) (q : Slot) : Sane (s.proc q) :=
  h.inv (P := fun s => ∀ q, Sane (s.proc q)) (sane_init policy)
    (fun _ _ _ hs hst => (next_eff hst).2.levels.sane hs) q

/-! ### A process that has used up its time -/

/-- The thread has been charged a tick and is about to yield. -/
def Th.ticking : Th → Bool
  | .tick | .tickFork _ _ => true
  | _ => false

variable {x y : Th} {m : Bool} {l : C × Act}

lemma Th.ticking_of_ticked (h : x.ticked = some y) : y.ticking = true := by
  cases x <;> cases h <;> rfl

lemma Th.ticking_false (h : x.ticked = some y) : x.ticking = false := by
  cases x <;> cases h <;> rfl

/-- A thread in a timer interrupt runs without the lock. -/
lemma Th.ticking_running {st : ProcState} (h : x.ticking = true) (hf : x.fits st = true) :
    st = .running := by
  cases x with
  | tick | tickFork => cases st <;> first | rfl | cases hf
  | _ => cases h

/-- The thread of a process that runs on another CPU stays where it is. -/
lemma Eff.th_elsewhere {q : Slot} (h : Eff s c a t) (hs : Agree s)
    (hq : (s.proc q).state = .running) (hc : ∀ m, (s.cpu c).ctl ≠ .run q m) : t.th q = s.th q := by
  cases h with
  | forkFail p np m hctl hth | forkDone p np m hctl hth =>
    grind [hs.embryo p np (by rw [hth]; rfl)]
  | allocproc p np m hctl hth hlock hnp =>
    have hu : (s.proc np).state = .unused := by simpa using first_some hnp
    grind
  | reap p r m hctl hth hlock hr => grind [waitScan_zombie hr]
  | _ => grind [leave]

omit [DecidableEq C] in
lemma LevelStep.elsewhere {q : Slot} (h : LevelStep s t c) (hs : Agree s)
    (hsane : ∀ q, Sane (s.proc q)) (hq : (s.proc q).state = .running)
    (hc : ∀ m, (s.cpu c).ctl ≠ .run q m) : SameLevels (s.proc q) (t.proc q) := by
  cases h with
  | same h => exact h q
  | account p hctl ht =>
    have hqp : q ≠ p := fun e => ((hs.cpu c).back hctl).2.1 (e ▸ hq)
    rw [ht, account_other hsane hqp (by rw [hq]; nofun)]
    exact .refl _
  | _ =>
    simp only [*]
    constructor <;> grind

/-- The process has been charged, and the scheduler has not seen it yet. -/
def Pending (s : St C) (q : Slot) : Prop := (s.th q).ticking = true ∨ ∃ c, (s.cpu c).ctl = .back q true

/-- The bounds, but for processes that the scheduler will look at before the lock is free. -/
def Bounded (s : St C) : Prop := ∀ q, Fresh (s.proc q) ∨ Charged (s.proc q) ∧ Pending s q

/-- No CPU runs a process that its round-robin loop has picked. -/
def NoRoundRobin (s : St C) : Prop := ∀ c p, (s.cpu c).ctl ≠ .run p false

omit [DecidableEq C] in
lemma LevelStep.fresh {q : Slot} (h : LevelStep s t c) (hsane : ∀ q, Sane (s.proc q))
    (hq : Fresh (s.proc q)) : Fresh (t.proc q) ∨ Charged (t.proc q) ∧ Pending t q := by
  cases h with
  | same h => exact .inl (hq.of_ticks (h q).ticks)
  | charge p m x hctl hth ht hx =>
    have hp : (t.th p).ticking = true := hx ▸ Th.ticking_of_ticked hth
    rw [ht]
    grind [Fresh.charge, Pending]
  | alloc np pid hlock hu ht =>
    refine .inl ?_
    rw [ht]
    constructor <;> grind
  | account p hctl ht =>
    rw [ht]
    refine .inl ?_
    by_cases hp : q = p
    · subst hp
      rw [account_self hsane]
      exact hq.charged.demote
    · exact hq.of_ticks (account_ticks hp)

lemma Eff.cpu_other {c' : C} (h : Eff s c a t) (hc : c' ≠ c) : t.cpu c' = s.cpu c' := by
  cases h <;> grind [leave]

/-- All that a thread can do in a timer interrupt is to yield. -/
lemma Eff.of_ticking {q : Slot} (h : Eff s c a t) (hctl : (s.cpu c).ctl = .run q m)
    (hq : (s.th q).ticking = true) :
    (∀ r, SameLevels (s.proc r) (t.proc r)) ∧
      ((t.th q).ticking = true ∨ (t.cpu c).ctl = .back q m) := by
  cases h with
  | yield p m' x hp hx hlock =>
    exact ⟨fun r => ⟨by grind, by grind, by grind⟩, .inr (by grind [leave])⟩
  -- an interrupt handler on the same CPU
  | wakeup b hk hlock => exact ⟨wakeup1_levels s.proc _, .inl hq⟩
  | tick p m' x hp hx => grind [Th.ticking_false hx]
  | _ => grind [Th.ticking]

/-- Back in the scheduler, the process is accounted for. -/
lemma Eff.of_back {q : Slot} (h : Eff s c a t) (hctl : (s.cpu c).ctl = .back q true) :
    t.proc = account s.proc q := by
  cases h <;> grind

lemma Eff.bounded (h : Eff s c a t) (hs : Agree s) (hsane : ∀ q, Sane (s.proc q))
    (hrr : NoRoundRobin s) (hb : Bounded s) : Bounded t := by
  intro q
  rcases hb q with hq | ⟨hq, htick | ⟨c', hback⟩⟩
  · exact h.levels.fresh hsane hq
  · have hrun := Th.ticking_running htick (hs.fits q)
    obtain ⟨c', m, hctl⟩ := hs.onCpu q hrun
    by_cases hc : c' = c
    · subst hc
      cases m with
      | false => exact absurd hctl (hrr c' q)
      | true =>
        obtain ⟨hsame, hp⟩ := h.of_ticking hctl htick
        exact .inr ⟨hq.of_same (hsame q), hp.imp_right fun hb => ⟨c', hb⟩⟩
    · -- it runs on another CPU
      have hno (m' : Bool) : (s.cpu c).ctl ≠ .run q m' := fun hctl' =>
        hc (hs.single c' c q ((hs.cpu c').run hctl).1 ((hs.cpu c).run hctl').1)
      refine .inr ⟨hq.of_same (h.levels.elsewhere hs hsane hrun hno), .inl ?_⟩
      rw [h.th_elsewhere hs hrun hno]
      exact htick
  · obtain ⟨-, hrun, hlock⟩ := (hs.cpu c').back hback
    by_cases hc : c' = c
    · subst hc
      rw [h.of_back hback, account_self hsane]
      exact .inl hq.demote
    · -- another CPU has no lock and leaves the process alone
      have hsame : SameLevels (s.proc q) (t.proc q) := by
        cases h.levels with
        | same h => exact h q
        | charge p m x hctl hth ht hx =>
          have hqp : q ≠ p := fun e => hrun (e ▸ ((hs.cpu c).run hctl).2.1)
          rw [ht, update_of_ne hqp]
          exact .refl _
        | alloc np pid hl hu ht => exact absurd (hlock.symm.trans hl) nofun
        | account p hctl ht =>
          have hl := ((hs.cpu c).back hctl).2.2
          exact absurd (Option.some.inj (hlock.symm.trans hl)) hc
      refine .inr ⟨hq.of_same hsame, .inr ⟨c', ?_⟩⟩
      rw [h.cpu_other hc]
      exact hback

/-- The step is a dispatch by the round-robin loop. -/
def dispatchesRR (s : St C) (l : C × Act) : Bool :=
  l.2 == .sched && match (s.cpu l.1).ctl with
    | .scan i => if h : i < NPROC then decide ((s.proc ⟨i, h⟩).state = .runnable) else false
    | _ => false

/-- The steps of runs in which all dispatches go through the MLFQ branch. -/
def nextMlfq (s : St C) (l : C × Act) : Option (St C) := if dispatchesRR s l then none else next s l.1 l.2

def MlfqStep (s : St C) (l : C × Act) (t : St C) : Prop := nextMlfq s l = some t

lemma MlfqStep.step (h : MlfqStep s l t) : dispatchesRR s l = false ∧ Step s l t := by
  unfold MlfqStep nextMlfq at h
  split_ifs at h with hd
  exact ⟨eq_false_of_ne_true hd, h⟩

/-- A CPU comes to run a process only by a dispatch. -/
lemma Eff.run_from {p : Slot} (h : Eff s c a t) (hctl : (t.cpu c).ctl = .run p m) :
    a ≠ .sched ∧ (s.cpu c).ctl = .run p m ∨ a = .sched ∧ (s.proc p).state = .runnable ∧
      ((∃ i, (s.cpu c).ctl = .scan i ∧ i = p ∧ m = false) ∨
        ((s.cpu c).ctl = .pick ∧ select s.proc = some p ∧ m = true)) := by
  cases h <;> grind [leave]

lemma NoRoundRobin.step (h : NoRoundRobin s) (hst : MlfqStep s l t) : NoRoundRobin t := by
  obtain ⟨hd, hst⟩ := hst.step
  obtain ⟨c, a⟩ := l
  have he := (next_eff hst).2
  intro c' p hctl
  by_cases hc : c' = c
  · subst hc
    rcases he.run_from hctl with ⟨-, hk⟩ | ⟨rfl, hp, ⟨i, hk, rfl, -⟩ | ⟨-, -, hm⟩⟩
    · exact h c' p hk
    · simp [dispatchesRR, hk, p.isLt, hp] at hd
    · cases hm
  · rw [he.cpu_other hc] at hctl
    exact h c' p hctl

/-- **The bookkeeping of the queue.** In every run, on any number of CPUs and under any policies:
levels are `0` to `3` and no process has waited longer than it may; `priority_boost` leaves the
level alone of the process that has just given back its CPU and of those that run; and once every
process has used less than its time, and none runs from a round-robin dispatch, then while all
dispatches go through the MLFQ branch this holds of every process that is not `RUNNING` whenever the
lock is free. -/
theorem mlfq_bookkeeping {policy : C → ℤ} (hr : Reach Step (init policy) s) :
    (∀ p, (0 ≤ (s.proc p).priority ∧ (s.proc p).priority ≤ 3) ∧ (s.proc p).waitTicks 0 < 500 ∧
      (s.proc p).waitTicks 1 < 320 ∧ (s.proc p).waitTicks 2 < 160) ∧
    (∀ c p, (s.cpu c).ctl = .back p true → ∀ q, q = p ∨ (s.proc q).state = .running →
        (priorityBoost (updateWaitTicks (update s.proc p (demote (s.proc p))) p) q).priority =
          (updateWaitTicks (update s.proc p (demote (s.proc p))) p q).priority) ∧
    ((∀ p, (s.proc p).ticks 1 < 32 ∧ (s.proc p).ticks 2 < 16 ∧ (s.proc p).ticks 3 < 8) → NoRoundRobin s →
      ∀ t, Reach MlfqStep s t → t.lock = none → ∀ p, (t.proc p).state ≠ .running →
        (t.proc p).ticks 1 < 32 ∧ (t.proc p).ticks 2 < 16 ∧ (t.proc p).ticks 3 < 8) := by
  have hs := reach_agree hr
  have hsane := reach_sane hr
  refine ⟨fun p => ?_, fun c p hctl q hq => ?_, fun hf hrr t ht hlock p hp => ?_⟩
  · obtain ⟨hl, h0, h1, h2⟩ := hsane p
    exact ⟨hl, h0, h1, h2⟩
  · have hidle : q = p ∨ (update s.proc p (demote (s.proc p)) q).state ≠ .runnable := by
      refine hq.imp_right fun hrun => ?_
      have hqp : q ≠ p := fun e => ((hs.cpu c).back hctl).2.1 (e ▸ hrun)
      rw [update_of_ne hqp, hrun]
      nofun
    rw [priorityBoost_idle (demoted_sane hsane q) hidle, updateWaitTicks_idle hidle]
  · have hinv : (Agree t ∧ ∀ q, Sane (t.proc q)) ∧ NoRoundRobin t ∧ Bounded t := by
      refine ht.inv (P := fun t => (Agree t ∧ ∀ q, Sane (t.proc q)) ∧ NoRoundRobin t ∧ Bounded t)
        ⟨⟨hs, hsane⟩, hrr, fun q => .inl ⟨(hf q).1, (hf q).2.1, (hf q).2.2⟩⟩ ?_
      rintro s ⟨c, a⟩ t ⟨⟨hs, hsane⟩, hrr, hb⟩ hst
      have he := (next_eff hst.step.2).2
      exact ⟨⟨he.agree hs, he.levels.sane hsane⟩, hrr.step hst, he.bounded hs hsane hrr hb⟩
    obtain ⟨⟨hst, -⟩, -, hb⟩ := hinv
    rcases hb p with hfresh | ⟨-, htick | ⟨c, hback⟩⟩
    · exact ⟨hfresh.ticks1, hfresh.ticks2, hfresh.ticks3⟩
    · exact absurd (Th.ticking_running htick (hst.fits p)) hp
    · exact absurd (hlock.symm.trans ((hst.cpu c).back hback).2.2) nofun

/-- One CPU under MLFQ: the first process runs for a tick and gives the CPU back. -/
def oneTick : List (Unit × Act) :=
  [.sched, .sched, .resume, .tick, .yield, .sched].map fun a => ((), a)

theorem mlfq_bookkeeping_two_ticks :
    ∃ s : St Unit, Reach Step (init fun _ => 1) s ∧ ∃ t, Reach MlfqStep s t ∧ t.lock = none ∧
      (t.proc initproc).state ≠ .running ∧ (t.proc initproc).ticks 1 < 32 ∧ (t.proc initproc).ticks 2 < 16 ∧
        (t.proc initproc).ticks 3 < 8 := by
  have hfresh (p : Slot) : ((init fun _ : Unit => 1).proc p).ticks 1 < 32 ∧
      ((init fun _ : Unit => 1).proc p).ticks 2 < 16 ∧
        ((init fun _ : Unit => 1).proc p).ticks 3 < 8 :=
    ⟨(by decide : (0 : ℤ) < 32), (by decide : (0 : ℤ) < 16), (by decide : (0 : ℤ) < 8)⟩
  refine ⟨_, .refl, reach_any (P := fun t => t.lock = none ∧ (t.proc initproc).state ≠ .running)
    (oneTick ++ oneTick) (by decide +kernel) fun t hr ⟨hlock, hp⟩ => ⟨hlock, hp, ?_⟩⟩
  exact (mlfq_bookkeeping .refl).2.2 hfresh (fun _ _ => nofun) t hr hlock _ hp

/-- Seven ticks under MLFQ; then the process asks for round robin, gives the CPU back and is
dispatched by the round-robin loop. -/
def toRoundRobin : List (Unit × Act) :=
  (List.replicate 7 oneTick).flatten ++
    [.sched, .sched, .resume, .setSchedPolicy 0, .yield, .sched, .sched, .sched, .resume].map fun a => ((), a)

/-- A tick, and the rest of the round-robin pass. -/
def passEnd : List (Unit × Act) :=
  (Act.tick :: .yield :: List.replicate 65 .sched).map fun a => ((), a)

/-- With a process that runs from a round-robin dispatch the bounds are lost: nothing looks at its
ticks when it comes back. -/
theorem mlfq_ticks_lost :
    ∃ s : St Unit, Reach Step (init fun _ => 1) s ∧
      (∀ p, (s.proc p).ticks 1 < 32 ∧ (s.proc p).ticks 2 < 16 ∧ (s.proc p).ticks 3 < 8) ∧
      ∃ t, Reach MlfqStep s t ∧ t.lock = none ∧ (t.proc initproc).state ≠ .running ∧
        (t.proc initproc).ticks 3 = 8 := by
  exact reach_any (P := fun s =>
    (∀ p, (s.proc p).ticks 1 < 32 ∧ (s.proc p).ticks 2 < 16 ∧ (s.proc p).ticks 3 < 8) ∧
      (exec nextMlfq s passEnd).any fun t => t.lock = none ∧ (t.proc initproc).state ≠ .running ∧
        (t.proc initproc).ticks 3 = 8) toRoundRobin (by decide +kernel)
    fun s _ ⟨hlow, hrun⟩ => ⟨hlow, reach_any passEnd hrun fun _ _ => id⟩

end Xv6.ProcMachine
