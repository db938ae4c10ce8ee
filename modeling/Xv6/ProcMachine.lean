import Xv6.Lib.Run
import Xv6.ProcTable

/-!
CPUs and processes of `proc.c`, interleaved at the granularity of `ptable.lock`.

The lock is handed across context switches: a process takes it, changes its state and
switches to the scheduler of its CPU, which may switch to another process that releases
it. So a step is what one CPU does between two points where it takes the lock, releases it
or switches; the three writes that `fork` and `trap` make without the lock are steps too.
-/

namespace Xv6.ProcMachine

open Xv6.ProcTable
open Function (update update_apply)

/-- Where a CPU is: in `scheduler` before it takes the lock, in its round-robin loop at a
slot, in its MLFQ branch, running a process, or just switched back from one. -/
inductive Ctl
  | idle
  | scan (i : ℕ)
  | pick
  | run (p : Slot) (mlfq : Bool)
  | back (p : Slot) (mlfq : Bool)
  deriving DecidableEq

structure Cpu where
  proc : Option Slot
  policy : ℤ
  ctl : Ctl

/-- Where the kernel thread of a slot is. Those from `forkret` to `exited` are suspended in
`swtch`, called by the function named; `sleep` is a sleep whose lock is not `ptable.lock`,
`waitSleep` the one in `wait`. A timer interrupt (`tick`) ends in `yield`; where it came in the
middle of a `fork`, the names are `tickFork` and `yieldFork`. -/
inductive Th
  | none
  | embryo
  | forkret
  | yield
  | yieldFork (np : Slot) (copied : Bool)
  | sleep
  | waitSleep
  | exited
  | run
  | tick
  | tickFork (np : Slot) (copied : Bool)
  | waitScan
  | fork (np : Slot)
  | forkCopied (np : Slot)
  deriving DecidableEq

/-- A `fork` in progress, and whether it has set the parent yet. -/
def Th.inFork (np : Slot) : Bool → Th
  | false => .fork np
  | true => .forkCopied np

/-- A timer interrupt comes. -/
def Th.ticked : Th → Option Th
  | .run => some .tick
  | .fork np => some (.tickFork np false)
  | .forkCopied np => some (.tickFork np true)
  | _ => Option.none

/-- The thread calls `yield`. -/
def Th.yielded : Th → Option Th
  | .run | .tick => some .yield
  | .tickFork np copied => some (.yieldFork np copied)
  | _ => Option.none

inductive Panic
  | initExiting | zombieExit
  deriving DecidableEq

/-- What has happened, by process identifiers. -/
inductive Event
  | fork (parent child : ℤ)
  | exit (p : Slot) (pid : ℤ)
  | reap (caller pid : ℤ)
  | waitFail (caller : ℤ)
  deriving DecidableEq

/-- The machine. `log` is history, the latest event first, and `forks` counts the calls of `fork`
that took a slot. -/
structure St (C : Type*) where
  proc : Table
  th : Slot → Th
  cpu : C → Cpu
  lock : Option C
  nextpid : ℤ
  panic : Option Panic
  log : List Event
  forks : ℕ

inductive Act
  | sched | resume | yield | tick | sleep (a : ℕ) | wakeup (a : ℕ) | kill (pid : ℤ)
  | wait | waitScan | allocproc | forkFail | forkCopy | forkDone | exit | fault
  | setSchedPolicy (policy : ℤ)
  deriving DecidableEq

/-- `initproc` is the first slot `allocproc` finds. -/
def initproc : Slot := ⟨0, by decide⟩

variable {C : Type*} [DecidableEq C]

/-- After `userinit`, with every CPU about to enter its scheduler loop. -/
def init (policy : C → ℤ) : St C where
  proc := fun p => ⟨if p = initproc then .runnable else .unused, if p = initproc then 1 else 0,
    none, none, false, if p = initproc then 3 else 0, fun _ => 0, fun _ => 0⟩
  th := fun p => if p = initproc then .forkret else .none
  cpu := fun c => ⟨none, policy c, .idle⟩
  lock := none
  nextpid := 2
  panic := none
  log := []
  forks := 0

def St.setCpu (s : St C) (c : C) (f : Cpu → Cpu) : St C :=
  { s with cpu := update s.cpu c (f (s.cpu c)) }

def St.setTh (s : St C) (p : Slot) (t : Th) : St C := { s with th := update s.th p t }

/-- `c->proc = p; p->state = RUNNING; swtch(...)`. -/
def dispatch (s : St C) (c : C) (p : Slot) (mlfq : Bool) : St C :=
  { s.setCpu c fun k => { k with proc := some p, ctl := .run p mlfq } with
    proc := setState s.proc p .running }

/-- A process that has changed its state switches to the scheduler of its CPU. -/
def leave (s : St C) (c : C) (p : Slot) (mlfq : Bool) (t : Th) : St C :=
  (s.setTh p t).setCpu c fun k => { k with ctl := .back p mlfq }

section

variable (s : St C) (c : C) (f : Cpu → Cpu) (p : Slot) (x : Th) (m : Bool)

@[simp] lemma setCpu_cpu : (s.setCpu c f).cpu = update s.cpu c (f (s.cpu c)) := rfl
@[simp] lemma setCpu_proc : (s.setCpu c f).proc = s.proc := rfl
@[simp] lemma setCpu_th : (s.setCpu c f).th = s.th := rfl
@[simp] lemma setCpu_lock : (s.setCpu c f).lock = s.lock := rfl
@[simp] lemma setCpu_log : (s.setCpu c f).log = s.log := rfl
@[simp] lemma setCpu_nextpid : (s.setCpu c f).nextpid = s.nextpid := rfl
@[simp] lemma setCpu_forks : (s.setCpu c f).forks = s.forks := rfl

omit [DecidableEq C]

@[simp] lemma setTh_th : (s.setTh p x).th = update s.th p x := rfl
@[simp] lemma setTh_cpu : (s.setTh p x).cpu = s.cpu := rfl
@[simp] lemma setTh_proc : (s.setTh p x).proc = s.proc := rfl
@[simp] lemma setTh_lock : (s.setTh p x).lock = s.lock := rfl
@[simp] lemma setTh_log : (s.setTh p x).log = s.log := rfl
@[simp] lemma setTh_nextpid : (s.setTh p x).nextpid = s.nextpid := rfl
@[simp] lemma setTh_panic : (s.setTh p x).panic = s.panic := rfl
@[simp] lemma setTh_forks : (s.setTh p x).forks = s.forks := rfl

end

attribute [grind =] setCpu_lock setTh_lock setCpu_log setTh_log

section Apply

variable (s : St C) (c c' : C) (f : Cpu → Cpu) (p q : Slot) (x : Th) (m : Bool)

@[grind =] lemma setCpu_cpu_apply :
    (s.setCpu c f).cpu c' = if c' = c then f (s.cpu c) else s.cpu c' := update_apply ..
@[grind =] lemma setCpu_proc_apply : (s.setCpu c f).proc q = s.proc q := rfl
@[grind =] lemma setCpu_th_apply : (s.setCpu c f).th q = s.th q := rfl
@[grind =] lemma leave_proc_apply : (leave s c p m x).proc q = s.proc q := rfl
@[grind =] lemma dispatch_proc_apply :
    (dispatch s c p m).proc q = setState s.proc p .running q := rfl
@[grind =] lemma dispatch_th_apply : (dispatch s c p m).th q = s.th q := rfl
@[grind =] lemma dispatch_lock : (dispatch s c p m).lock = s.lock := rfl
@[grind =] lemma dispatch_cpu_apply : (dispatch s c p m).cpu c' =
    if c' = c then { s.cpu c with proc := some p, ctl := .run p m } else s.cpu c' := update_apply ..

omit [DecidableEq C]

@[grind =] lemma setTh_th_apply : (s.setTh p x).th q = if q = p then x else s.th q :=
  update_apply ..
@[grind =] lemma setTh_cpu_apply : (s.setTh p x).cpu c' = s.cpu c' := rfl
@[grind =] lemma setTh_proc_apply : (s.setTh p x).proc q = s.proc q := rfl

end Apply

/-- The scheduler of CPU `c`. -/
def schedStep (s : St C) (c : C) : Option (St C) :=
  match (s.cpu c).ctl with
  | .idle =>
    if s.lock = none then
      some { s.setCpu c fun k => { k with ctl := if k.policy = 1 then .pick else .scan 0 } with
        lock := some c }
    else none
  | .scan i =>
    if h : i < NPROC then
      if (s.proc ⟨i, h⟩).state = .runnable then some (dispatch s c ⟨i, h⟩ false)
      else some (s.setCpu c fun k => { k with ctl := .scan (i + 1) })
    else some { s.setCpu c fun k => { k with ctl := .idle } with lock := none }
  | .pick =>
    match select s.proc with
    | some p => some (dispatch s c p true)
    | none => some { s.setCpu c fun k => { k with ctl := .idle } with lock := none }
  | .back p true =>
    some { s.setCpu c fun k => { k with proc := none, ctl := .idle } with
      proc := account s.proc p
      lock := none }
  | .back p false => some (s.setCpu c fun k => { k with proc := none, ctl := .scan (p + 1) })
  | .run _ _ => none

/-- A process that has just been dispatched returns from `swtch`, with the lock held. -/
def resumeStep (s : St C) (p : Slot) : Option (St C) :=
  match s.th p with
  | .forkret => some { s.setTh p .run with lock := none }
  | .yield => some { s.setTh p .run with lock := none }
  | .yieldFork np copied => some { s.setTh p (.inFork np copied) with lock := none }
  | .sleep => some { s.setTh p .run with
      proc := clearChan s.proc p
      lock := none }
  | .waitSleep => some { s.setTh p .waitScan with
      proc := clearChan s.proc p }
  | .exited => some { s with panic := some .zombieExit }
  | _ => none

/-- The steps of `fork` after its first critical section; two of them are made without the
lock. -/
def forkStep (s : St C) (p : Slot) : Act → Option (St C)
  | .forkFail =>
    match s.th p with
    | .fork np => some { (s.setTh p .run).setTh np .none with proc := setState s.proc np .unused }
    | _ => none
  | .forkCopy =>
    match s.th p with
    | .fork np => some { s.setTh p (.forkCopied np) with
        proc := setParent s.proc np p }
    | _ => none
  | .forkDone =>
    match s.th p with
    | .forkCopied np =>
      if s.lock = none then
        some { (s.setTh p .run).setTh np .forkret with
          proc := setState s.proc np .runnable
          log := .fork (s.proc p).pid (s.proc np).pid :: s.log }
      else none
    | _ => none
  | _ => none

/-- The critical sections a running process enters from outside the process table code. -/
def lockedStep (s : St C) (c : C) (p : Slot) (mlfq : Bool) : Act → Option (St C)
  | .sleep a => some (leave { s with
      proc := setSleep s.proc p (.addr a)
      lock := some c } c p mlfq .sleep)
  | .kill pid => some { s with proc := (kill s.proc pid).1 }
  | .wait => some { s.setTh p .waitScan with lock := some c }
  | .allocproc =>
    match first fun q => (s.proc q).state = .unused with
    | some np => some { (s.setTh p (.fork np)).setTh np .embryo with
        proc := allocproc s.proc np s.nextpid
        nextpid := wrap32 (s.nextpid + 1)
        forks := s.forks + 1 }
    | none => some s
  | .exit =>
    if p = initproc then some { s with panic := some .initExiting }
    else some (leave { s with
      proc := exit initproc s.proc p
      log := .exit p (s.proc p).pid :: s.log
      lock := some c } c p mlfq .exited)
  | _ => none

/-- The scan of `wait`, with the lock held. -/
def waitStep (s : St C) (c : C) (p : Slot) (mlfq : Bool) : St C :=
  match waitScan s.proc p with
  | .zombie q => { (s.setTh q .none).setTh p .run with
      proc := reap s.proc q
      log := .reap (s.proc p).pid (s.proc q).pid :: s.log
      lock := none }
  | .none => { s.setTh p .run with log := .waitFail (s.proc p).pid :: s.log, lock := none }
  | .sleep => leave { s with proc := setSleep s.proc p (.proc p) } c p mlfq .waitSleep

/-- One step of CPU `c`. -/
def next (s : St C) (c : C) (a : Act) : Option (St C) :=
  if s.panic.isSome then none else
  match a, (s.cpu c).ctl with
  | .sched, _ => schedStep s c
  -- a process or an interrupt handler
  | .wakeup b, .run _ _ | .wakeup b, .idle =>
    if s.lock = none then some { s with proc := wakeup1 s.proc (some (.addr b)) } else none
  | .resume, .run p _ => if s.lock = some c then resumeStep s p else none
  | .waitScan, .run p mlfq =>
    if s.th p = .waitScan ∧ s.lock = some c then some (waitStep s c p mlfq) else none
  | .tick, .run p _ => (s.th p).ticked.map fun x => { s.setTh p x with
      proc := update s.proc p (charge (s.proc p)) }
  | .fault, .run p _ =>
    if s.th p = .run then some { s with
      proc := update s.proc p { s.proc p with killed := true } }
    else none
  | .setSchedPolicy policy, .run p _ =>
    if s.th p = .run ∧ 0 ≤ policy ∧ policy ≤ 3 then
      some (s.setCpu c fun k => { k with policy := policy })
    else none
  | .forkFail, .run p _ => forkStep s p .forkFail
  | .forkCopy, .run p _ => forkStep s p .forkCopy
  | .forkDone, .run p _ => forkStep s p .forkDone
  | .yield, .run p mlfq =>
    if s.lock = none then (s.th p).yielded.map fun x =>
      leave { s with proc := setState s.proc p .runnable, lock := some c } c p mlfq x
    else none
  | a, .run p mlfq => if s.th p = .run ∧ s.lock = none then lockedStep s c p mlfq a else none
  | _, _ => none

/-- A step of some CPU. -/
def Step (s : St C) (l : C × Act) (t : St C) : Prop := next s l.1 l.2 = some t

end Xv6.ProcMachine
