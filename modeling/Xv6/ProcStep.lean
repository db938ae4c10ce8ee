import Xv6.ProcMachine

/-!
What one step of the machine can do, said once: every invariant is proved by the cases of
`Eff`.
-/

namespace Xv6.ProcMachine

open Xv6.ProcTable

variable {C : Type*} [DecidableEq C]

/-- The steps of CPU `c`, one constructor a branch. -/
inductive Eff (s : St C) (c : C) : Act → St C → Prop
  | acquire (hctl : (s.cpu c).ctl = .idle) (hlock : s.lock = none) :
      Eff s c .sched { s.setCpu c fun k => { k with ctl := if k.policy = 1 then .pick else .scan 0 } with
        lock := some c }
  | skip (i : ℕ) (hctl : (s.cpu c).ctl = .scan i) :
      Eff s c .sched (s.setCpu c fun k => { k with ctl := .scan (i + 1) })
  | dispatch (p : Slot) (mlfq : Bool)
      (hctl : (∃ i, (s.cpu c).ctl = .scan i ∧ i = p ∧ mlfq = false) ∨
        ((s.cpu c).ctl = .pick ∧ select s.proc = some p ∧ mlfq = true))
      (hp : (s.proc p).state = .runnable) : Eff s c .sched (dispatch s c p mlfq)
  | release (hctl : (∃ i, (s.cpu c).ctl = .scan i) ∨ (s.cpu c).ctl = .pick) :
      Eff s c .sched { s.setCpu c fun k => { k with ctl := .idle } with lock := none }
  | backMlfq (p : Slot) (hctl : (s.cpu c).ctl = .back p true) :
      Eff s c .sched { s.setCpu c fun k => { k with proc := none, ctl := .idle } with
        proc := account s.proc p
        lock := none }
  | backRR (p : Slot) (hctl : (s.cpu c).ctl = .back p false) :
      Eff s c .sched (s.setCpu c fun k => { k with proc := none, ctl := .scan (p + 1) })
  | wakeup (b : ℕ) (hctl : (s.cpu c).ctl = .idle ∨ ∃ p m, (s.cpu c).ctl = .run p m)
      (hlock : s.lock = none) :
      Eff s c (.wakeup b) { s with proc := wakeup1 s.proc (some (.addr b)) }
  | resume (p : Slot) (m : Bool) (hctl : (s.cpu c).ctl = .run p m) (hlock : s.lock = some c)
      (hth : s.th p = .forkret ∨ s.th p = .yield) :
      Eff s c .resume { s.setTh p .run with lock := none }
  | resumeFork (p np : Slot) (copied m : Bool) (hctl : (s.cpu c).ctl = .run p m) (hlock : s.lock = some c)
      (hth : s.th p = .yieldFork np copied) :
      Eff s c .resume { s.setTh p (.inFork np copied) with lock := none }
  | resumeSleep (p : Slot) (m : Bool) (hctl : (s.cpu c).ctl = .run p m) (hlock : s.lock = some c)
      (hth : s.th p = .sleep) :
      Eff s c .resume { s.setTh p .run with proc := clearChan s.proc p, lock := none }
  | resumeWait (p : Slot) (m : Bool) (hctl : (s.cpu c).ctl = .run p m) (hlock : s.lock = some c)
      (hth : s.th p = .waitSleep) :
      Eff s c .resume { s.setTh p .waitScan with proc := clearChan s.proc p }
  | zombieExit (p : Slot) (m : Bool) (hctl : (s.cpu c).ctl = .run p m) (hth : s.th p = .exited) :
      Eff s c .resume { s with panic := some .zombieExit }
  | tick (p : Slot) (m : Bool) (x : Th) (hctl : (s.cpu c).ctl = .run p m) (hth : (s.th p).ticked = some x) :
      Eff s c .tick { s.setTh p x with proc := Function.update s.proc p (charge (s.proc p)) }
  | fault (p : Slot) (m : Bool) (hctl : (s.cpu c).ctl = .run p m) (hth : s.th p = .run) :
      Eff s c .fault { s with proc := Function.update s.proc p { s.proc p with killed := true } }
  | setSchedPolicy (v : ℤ) (p : Slot) (m : Bool) (hctl : (s.cpu c).ctl = .run p m)
      (hth : s.th p = .run) (hv : 0 ≤ v ∧ v ≤ 3) :
      Eff s c (.setSchedPolicy v) (s.setCpu c fun k => { k with policy := v })
  | forkFail (p np : Slot) (m : Bool) (hctl : (s.cpu c).ctl = .run p m) (hth : s.th p = .fork np) :
      Eff s c .forkFail
        { (s.setTh p .run).setTh np .none with proc := setState s.proc np .unused }
  | forkCopy (p np : Slot) (m : Bool) (hctl : (s.cpu c).ctl = .run p m) (hth : s.th p = .fork np) :
      Eff s c .forkCopy { s.setTh p (.forkCopied np) with proc := setParent s.proc np p }
  | forkDone (p np : Slot) (m : Bool) (hctl : (s.cpu c).ctl = .run p m)
      (hth : s.th p = .forkCopied np) (hlock : s.lock = none) :
      Eff s c .forkDone { (s.setTh p .run).setTh np .forkret with
        proc := setState s.proc np .runnable
        log := .fork (s.proc p).pid (s.proc np).pid :: s.log }
  | yield (p : Slot) (m : Bool) (x : Th) (hctl : (s.cpu c).ctl = .run p m)
      (hth : (s.th p).yielded = some x) (hlock : s.lock = none) :
      Eff s c .yield (leave { s with proc := setState s.proc p .runnable, lock := some c } c p m x)
  | sleep (a : ℕ) (p : Slot) (m : Bool) (hctl : (s.cpu c).ctl = .run p m) (hth : s.th p = .run)
      (hlock : s.lock = none) :
      Eff s c (.sleep a)
        (leave { s with proc := setSleep s.proc p (.addr a), lock := some c } c p m .sleep)
  | kill (pid : ℤ) (p : Slot) (m : Bool) (hctl : (s.cpu c).ctl = .run p m) (hth : s.th p = .run)
      (hlock : s.lock = none) : Eff s c (.kill pid) { s with proc := (kill s.proc pid).1 }
  | wait (p : Slot) (m : Bool) (hctl : (s.cpu c).ctl = .run p m) (hth : s.th p = .run)
      (hlock : s.lock = none) : Eff s c .wait { s.setTh p .waitScan with lock := some c }
  | allocproc (p np : Slot) (m : Bool) (hctl : (s.cpu c).ctl = .run p m) (hth : s.th p = .run)
      (hlock : s.lock = none) (hnp : first (fun q => (s.proc q).state = .unused) = some np) :
      Eff s c .allocproc { (s.setTh p (.fork np)).setTh np .embryo with
        proc := allocproc s.proc np s.nextpid
        nextpid := wrap32 (s.nextpid + 1)
        forks := s.forks + 1 }
  | allocprocFull (p : Slot) (m : Bool) (hctl : (s.cpu c).ctl = .run p m) (hth : s.th p = .run)
      (hlock : s.lock = none) (hnp : first (fun q => (s.proc q).state = .unused) = none) :
      Eff s c .allocproc s
  | initExiting (m : Bool) (hctl : (s.cpu c).ctl = .run initproc m) (hth : s.th initproc = .run)
      (hlock : s.lock = none) : Eff s c .exit { s with panic := some .initExiting }
  | exit (p : Slot) (m : Bool) (hctl : (s.cpu c).ctl = .run p m) (hth : s.th p = .run)
      (hlock : s.lock = none) (hp : p ≠ initproc) :
      Eff s c .exit (leave { s with
        proc := exit initproc s.proc p
        log := .exit p (s.proc p).pid :: s.log
        lock := some c } c p m .exited)
  | reap (p q : Slot) (m : Bool) (hctl : (s.cpu c).ctl = .run p m) (hth : s.th p = .waitScan)
      (hlock : s.lock = some c) (hq : waitScan s.proc p = .zombie q) :
      Eff s c .waitScan { (s.setTh q .none).setTh p .run with
        proc := reap s.proc q
        log := .reap (s.proc p).pid (s.proc q).pid :: s.log
        lock := none }
  | waitFail (p : Slot) (m : Bool) (hctl : (s.cpu c).ctl = .run p m) (hth : s.th p = .waitScan)
      (hlock : s.lock = some c) (hq : waitScan s.proc p = .none) :
      Eff s c .waitScan
        { s.setTh p .run with log := .waitFail (s.proc p).pid :: s.log, lock := none }
  | waitSleep (p : Slot) (m : Bool) (hctl : (s.cpu c).ctl = .run p m) (hth : s.th p = .waitScan)
      (hlock : s.lock = some c) (hq : waitScan s.proc p = .sleep) :
      Eff s c .waitScan (leave { s with proc := setSleep s.proc p (.proc p) } c p m .waitSleep)

variable {s t : St C} {c : C} {p : Slot} {m : Bool} {a : Act}

lemma schedStep_eff (h : schedStep s c = some t) : Eff s c .sched t := by
  unfold schedStep at h
  rcases hctl : (s.cpu c).ctl with _ | i | _ | ⟨p, m⟩ | ⟨p, m⟩
  · simp only [hctl] at h
    split_ifs at h with hl
    cases h
    exact .acquire hctl hl
  · simp only [hctl] at h
    split_ifs at h with hi hr
    · cases h
      exact .dispatch ⟨i, hi⟩ false (Or.inl ⟨i, hctl, rfl, rfl⟩) hr
    · cases h
      exact .skip i hctl
    · cases h
      exact .release (Or.inl ⟨i, hctl⟩)
  · simp only [hctl] at h
    rcases hsel : select s.proc with _ | p
    · simp only [hsel] at h
      cases h
      exact .release (Or.inr hctl)
    · simp only [hsel] at h
      cases h
      exact .dispatch p true (Or.inr ⟨hctl, hsel, rfl⟩) (select_runnable hsel)
  · simp [hctl] at h
  · cases m
    · simp only [hctl] at h
      cases h
      exact .backRR p hctl
    · simp only [hctl] at h
      cases h
      exact .backMlfq p hctl

lemma resumeStep_eff (hctl : (s.cpu c).ctl = .run p m) (hlock : s.lock = some c)
    (h : resumeStep s p = some t) : Eff s c .resume t := by
  unfold resumeStep at h
  cases hth : s.th p <;> simp only [hth] at h <;> try contradiction
  all_goals cases h
  case forkret => exact .resume p m hctl hlock (Or.inl hth)
  case yield => exact .resume p m hctl hlock (Or.inr hth)
  case yieldFork np copied => exact .resumeFork p np copied m hctl hlock hth
  case sleep => exact .resumeSleep p m hctl hlock hth
  case waitSleep => exact .resumeWait p m hctl hlock hth
  case exited => exact .zombieExit p m hctl hth

lemma waitStep_eff (hctl : (s.cpu c).ctl = .run p m) (hth : s.th p = .waitScan)
    (hlock : s.lock = some c) :
    Eff s c .waitScan (waitStep s c p m) := by
  unfold waitStep
  rcases hq : waitScan s.proc p with q | _ | _
  · exact .reap p q m hctl hth hlock hq
  · exact .waitFail p m hctl hth hlock hq
  · exact .waitSleep p m hctl hth hlock hq

lemma forkStep_eff (hctl : (s.cpu c).ctl = .run p m) (h : forkStep s p a = some t) :
    Eff s c a t := by
  cases hth : s.th p <;> cases a <;> simp only [forkStep, hth] at h <;> try contradiction
  case fork.forkFail np =>
    cases h
    exact .forkFail p np m hctl hth
  case fork.forkCopy np =>
    cases h
    exact .forkCopy p np m hctl hth
  case forkCopied.forkDone np =>
    split_ifs at h with hl
    cases h
    exact .forkDone p np m hctl hth hl

lemma lockedStep_eff (hctl : (s.cpu c).ctl = .run p m) (hth : s.th p = .run) (hlock : s.lock = none)
    (h : lockedStep s c p m a = some t) : Eff s c a t := by
  cases a <;> simp only [lockedStep] at h <;> try contradiction
  · cases h
    exact .sleep _ p m hctl hth hlock
  · cases h
    exact .kill _ p m hctl hth hlock
  · cases h
    exact .wait p m hctl hth hlock
  · rcases hnp : first (fun q => (s.proc q).state = .unused) with _ | np
    · simp only [hnp] at h
      cases h
      exact .allocprocFull p m hctl hth hlock hnp
    · simp only [hnp] at h
      cases h
      exact .allocproc p np m hctl hth hlock hnp
  · split_ifs at h with hp
    · cases h
      subst hp
      exact .initExiting m hctl hth hlock
    · cases h
      exact .exit p m hctl hth hlock hp

/-- A step of a CPU that is running process `p`. -/
lemma run_eff (ha : a ≠ .sched) (hctl : (s.cpu c).ctl = .run p m) (hpan : s.panic.isSome = false)
    (h : next s c a = some t) :
    Eff s c a t := by
  cases a <;> simp only [next, hpan, hctl, Bool.false_eq_true, if_false] at h
  case sched => exact absurd rfl ha
  case forkFail | forkCopy | forkDone => exact forkStep_eff hctl h
  case yield =>
    split_ifs at h with hl
    obtain ⟨x, hx, rfl⟩ := Option.map_eq_some_iff.mp h
    exact .yield p m x hctl hx hl
  case resume =>
    split_ifs at h with hl
    exact resumeStep_eff hctl hl h
  case waitScan =>
    split_ifs at h with hl
    cases h
    exact waitStep_eff hctl hl.1 hl.2
  case tick =>
    obtain ⟨x, hx, rfl⟩ := Option.map_eq_some_iff.mp h
    exact .tick p m x hctl hx
  case fault =>
    split_ifs at h with hl
    cases h
    exact .fault p m hctl hl
  case wakeup b =>
    split_ifs at h with hl
    cases h
    exact .wakeup b (Or.inr ⟨p, m, hctl⟩) hl
  case setSchedPolicy v =>
    split_ifs at h with hl
    cases h
    exact .setSchedPolicy v p m hctl hl.1 hl.2
  all_goals
    split_ifs at h with hl
    exact lockedStep_eff hctl hl.1 hl.2 h

/-- **Every step is one of the constructors.** -/
lemma next_eff (h : next s c a = some t) : s.panic = none ∧ Eff s c a t := by
  have hpan : s.panic.isSome = false := by
    by_contra hne
    simp [next, eq_true_of_ne_false hne] at h
  refine ⟨by simpa using hpan, ?_⟩
  by_cases ha : a = .sched
  · subst ha
    exact schedStep_eff (by simpa [next, hpan] using h)
  rcases hctl : (s.cpu c).ctl with _ | i | _ | ⟨p, m⟩ | ⟨p, m⟩
  -- of the CPUs that run no process only an idle one takes an interrupt
  · cases a <;> simp only [next, hpan, hctl, Bool.false_eq_true, if_false] at h <;>
      try contradiction
    split_ifs at h with hl
    cases h
    exact .wakeup _ (Or.inl hctl) hl
  case run => exact run_eff ha hctl hpan h
  all_goals
    cases a <;> simp only [next, hpan, hctl, Bool.false_eq_true, if_false] at h <;> contradiction

end Xv6.ProcMachine
