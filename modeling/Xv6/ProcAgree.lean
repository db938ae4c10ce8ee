import Xv6.Lib.Run
import Xv6.ProcStep

/-!
The CPUs and the process table agree: a process is `RUNNING` while it is the current process
of one CPU, and of one only.
-/

namespace Xv6.ProcMachine

open Xv6.ProcTable Xv6.Lib.Run

variable {C : Type*}

/-- A thread that comes back to a CPU with `ptable.lock` held. -/
def Th.holds : Th → Bool
  | .forkret | .yield | .yieldFork _ _ | .sleep | .waitSleep | .exited | .waitScan => true
  | _ => false

/-- The slot a `fork` in progress has taken. -/
def Th.child : Th → Option Slot
  | .fork np | .forkCopied np | .tickFork np _ | .yieldFork np _ => some np
  | _ => Option.none

/-- Where the thread of a process can be, by the state of the process. -/
def Th.fits : Th → ProcState → Bool
  | .none, .unused | .embryo, .embryo | .exited, .zombie => true
  | .sleep, .sleeping | .waitSleep, .sleeping => true
  | .forkret, .runnable | .yield, .runnable | .yieldFork _ _, .runnable => true
  | .sleep, .runnable | .waitSleep, .runnable => true
  | .none, .running | .embryo, .running | .exited, .running => false
  | _, .running => true
  | _, _ => false

section Thread

variable {x y : Th}

lemma Th.fits_runnable (h : x.fits .runnable) : x.holds ∧ x.fits .running := by
  cases x <;> simp [Th.fits, Th.holds] at h ⊢

lemma Th.fits_sleeping (h : x.fits .sleeping) : x.fits .runnable := by
  cases x <;> simp [Th.fits] at h ⊢

/-- A thread that a timer interrupt stops is running without the lock, and stays in its `fork`. -/
lemma Th.ticked_spec (h : x.ticked = some y) :
    x.holds = false ∧ y.holds = false ∧ y.fits .running = true ∧ y.child = x.child := by
  cases x <;> cases h <;> exact ⟨rfl, rfl, rfl, rfl⟩

lemma Th.yielded_spec (h : x.yielded = some y) : y.fits .runnable = true ∧ y.child = x.child := by
  cases x <;> cases h <;> exact ⟨rfl, rfl⟩

lemma Th.inFork_spec (np : Slot) (copied : Bool) : (Th.inFork np copied).holds = false ∧
    (Th.inFork np copied).fits .running = true ∧ (Th.inFork np copied).child = some np := by
  cases copied <;> exact ⟨rfl, rfl, rfl⟩

end Thread

/-- What the scheduler of CPU `c` says about the CPU, the lock and the process it runs. -/
def CpuOk (s : St C) (c : C) : Prop :=
  match (s.cpu c).ctl with
  | .idle => (s.cpu c).proc = none ∧ s.lock ≠ some c
  | .scan _ | .pick => (s.cpu c).proc = none ∧ s.lock = some c
  | .run p _ => (s.cpu c).proc = some p ∧ (s.proc p).state = .running ∧
      (s.lock = some c ↔ (s.th p).holds)
  | .back p _ => (s.cpu c).proc = some p ∧ (s.proc p).state ≠ .running ∧ s.lock = some c

/-- The invariant. -/
structure Agree (s : St C) : Prop where
  cpu : ∀ c, CpuOk s c
  fits : ∀ p, (s.th p).fits (s.proc p).state
  onCpu : ∀ p, (s.proc p).state = .running → ∃ c m, (s.cpu c).ctl = .run p m
  single : ∀ c c' p, (s.cpu c).proc = some p → (s.cpu c').proc = some p → c = c'
  embryo : ∀ p np, (s.th p).child = some np → (s.proc np).state = .embryo
  inj : ∀ p q np, (s.th p).child = some np → (s.th q).child = some np → p = q

section CpuOk

variable {s : St C} {c : C} {p : Slot} {m : Bool} {i : ℕ}

lemma CpuOk.idle (h : CpuOk s c) (hc : (s.cpu c).ctl = .idle) :
    (s.cpu c).proc = none ∧ s.lock ≠ some c := by simpa [CpuOk, hc] using h

lemma CpuOk.scan (h : CpuOk s c) (hc : (s.cpu c).ctl = .scan i ∨ (s.cpu c).ctl = .pick) :
    (s.cpu c).proc = none ∧ s.lock = some c := by
      rcases hc with hc | hc <;> simpa [CpuOk, hc] using h

lemma CpuOk.run (h : CpuOk s c) (hc : (s.cpu c).ctl = .run p m) :
    (s.cpu c).proc = some p ∧ (s.proc p).state = .running ∧ (s.lock = some c ↔ (s.th p).holds) := by
  simpa [CpuOk, hc] using h

lemma CpuOk.back (h : CpuOk s c) (hc : (s.cpu c).ctl = .back p m) :
    (s.cpu c).proc = some p ∧ (s.proc p).state ≠ .running ∧ s.lock = some c := by
  simpa [CpuOk, hc] using h

end CpuOk

/-- With the lock free, the current process of a CPU is running. -/
lemma Agree.running_of_proc {s : St C} (hs : Agree s) (hlock : s.lock = none) {c : C} {p : Slot}
    (hc : (s.cpu c).proc = some p) : (s.proc p).state = .running := by
  rcases hctl : (s.cpu c).ctl with _ | i | _ | ⟨q, m⟩ | ⟨q, m⟩
  · simp [((hs.cpu c).idle hctl).1] at hc
  · simp [((hs.cpu c).scan (Or.inl hctl)).1] at hc
  · simp [((hs.cpu c).scan (i := 0) (Or.inr hctl)).1] at hc
  · obtain ⟨h1, h2, -⟩ := (hs.cpu c).run hctl
    cases h1.symm.trans hc
    exact h2
  · simp [((hs.cpu c).back hctl).2.2] at hlock

/-! ### One step -/

lemma cpuOk_iff {s : St C} {c : C} : CpuOk s c ↔
    ((s.cpu c).ctl = .idle → (s.cpu c).proc = none ∧ s.lock ≠ some c) ∧
    (∀ i, (s.cpu c).ctl = .scan i → (s.cpu c).proc = none ∧ s.lock = some c) ∧
    ((s.cpu c).ctl = .pick → (s.cpu c).proc = none ∧ s.lock = some c) ∧
    (∀ p m, (s.cpu c).ctl = .run p m → (s.cpu c).proc = some p ∧ (s.proc p).state = .running ∧
      (s.lock = some c ↔ (s.th p).holds)) ∧
    ∀ p m, (s.cpu c).ctl = .back p m → (s.cpu c).proc = some p ∧ (s.proc p).state ≠ .running ∧
      s.lock = some c := by
  unfold CpuOk
  cases (s.cpu c).ctl <;> simp

/-- The transitions of a process. -/
def Legal : ProcState → ProcState → Bool
  | .unused, .embryo | .embryo, .unused | .embryo, .runnable => true
  | .runnable, .running | .running, .runnable => true
  | .running, .sleeping | .sleeping, .runnable => true
  | .running, .zombie | .zombie, .unused => true
  | _, _ => false

section Step

variable [DecidableEq C] {s t : St C} {c : C} {a : Act}

/-- **A step moves processes along the transitions only.** -/
lemma Eff.legal (hs : Agree s) (h : Eff s c a t) (q : Slot) :
    (t.proc q).state = (s.proc q).state ∨ Legal (s.proc q).state (t.proc q).state := by
  have hrun {p : Slot} {m : Bool} (hctl : (s.cpu c).ctl = .run p m) :
      (s.proc p).state = .running := ((hs.cpu c).run hctl).2.1
  cases h with
  | wakeup b hctl hlock => grind [(wakeup1_quiet s.proc (some (.addr b))).state q, Legal]
  | kill pid p m hctl hth hlock => grind [(kill_quiet s.proc pid).state q, Legal]
  | exit p m hctl hth hlock hp =>
    obtain ⟨hz, hst, -⟩ := exit_spec initproc p s.proc
    grind [hst q, Legal]
  | allocproc p np m hctl hth hlock hnp =>
    have hu : (s.proc np).state = .unused := by simpa using first_some hnp
    grind [Legal]
  | forkFail p np m hctl hth | forkDone p np m hctl hth hlock =>
    have he := hs.embryo p np (by simp [hth, Th.child])
    grind [Legal]
  | reap p r m hctl hth hlock hr => grind [waitScan_zombie hr, Legal]
  | _ => grind [Legal, charge]

/-- The thread of a process goes on from where its state says it is. -/
lemma Eff.fits (hs : Agree s) (h : Eff s c a t) (q : Slot) : (t.th q).fits (t.proc q).state := by
  have hq := hs.fits q
  have hrun {p : Slot} {m : Bool} (hctl : (s.cpu c).ctl = .run p m) :
      (s.proc p).state = .running := ((hs.cpu c).run hctl).2.1
  cases h with
  | dispatch p mlfq hctl hp => grind [→ Th.fits_runnable]
  | wakeup b hctl hlock => grind [(wakeup1_quiet s.proc (some (.addr b))).state q, Th.fits_sleeping]
  | kill pid p m hctl hth hlock => grind [(kill_quiet s.proc pid).state q, Th.fits_sleeping]
  | exit p m hctl hth hlock hp =>
    obtain ⟨hz, hst, -⟩ := exit_spec initproc p s.proc
    grind [hst q, Th.fits_sleeping, Th.fits, leave]
  | tick p m x hctl hth => grind [Th.ticked_spec hth, charge]
  | resumeFork p np copied m hctl hlock hth => grind [Th.inFork_spec np copied]
  | yield p m x hctl hth hlock => grind [Th.yielded_spec hth, leave]
  | reap p r m hctl hth hlock hr => grind [waitScan_zombie hr, Th.fits]
  | _ => grind [Th.fits, leave]

omit [DecidableEq C] in
/-- Nobody else runs a process that waits for a CPU. -/
lemma Agree.idle (hs : Agree s) {p : Slot} (hlock : s.lock = some c)
    (hp : (s.proc p).state = .runnable) {c' : C} (hc : c' ≠ c) : (s.cpu c').proc ≠ some p := by
  have hok := cpuOk_iff.mp (hs.cpu c')
  cases hctl : (s.cpu c').ctl <;> grind

section Cpu

variable (hs : Agree s) (h : Eff s c a t) (c' : C)

include hs h

/-- A CPU in its scheduler. -/
lemma Eff.cpuOff : ((t.cpu c').ctl = .idle → (t.cpu c').proc = none ∧ t.lock ≠ some c') ∧
    (∀ i, (t.cpu c').ctl = .scan i → (t.cpu c').proc = none ∧ t.lock = some c') ∧
    ((t.cpu c').ctl = .pick → (t.cpu c').proc = none ∧ t.lock = some c') := by
  have hok := cpuOk_iff.mp (hs.cpu c')
  have hok' := cpuOk_iff.mp (hs.cpu c)
  refine ⟨fun hc => ?_, fun i hc => ?_, fun hc => ?_⟩ <;> cases h <;> grind [leave]

lemma Eff.cpuRun (q : Slot) (m : Bool) (hc : (t.cpu c').ctl = .run q m) :
    (t.cpu c').proc = some q ∧ (t.proc q).state = .running ∧ (t.lock = some c' ↔ (t.th q).holds) := by
  have hok := cpuOk_iff.mp (hs.cpu c')
  have hok' := cpuOk_iff.mp (hs.cpu c)
  have hsame {p : Slot} {m : Bool} (hctl : (s.cpu c).ctl = .run p m)
      (h : (s.cpu c').proc = some p) : c' = c := hs.single c' c p h (hok'.2.2.2.1 p m hctl).1
  cases h with
  | dispatch p mlfq hctl hp => grind [→ Th.fits_runnable, hs.fits p, hs.idle]
  | wakeup b hctl hlock => grind [(wakeup1_quiet s.proc (some (.addr b))).state]
  | kill pid p m hctl hth hlock => grind [(kill_quiet s.proc pid).state]
  | exit p m hctl hth hlock hp => grind [leave, (exit_spec initproc p s.proc).state]
  | tick p m x hctl hth => grind [Th.ticked_spec hth, charge]
  | resumeFork p np copied m hctl hlock hth => grind [Th.inFork_spec np copied]
  | allocproc p np m hctl hth hlock hnp =>
    have hu : (s.proc np).state = .unused := by simpa using first_some hnp
    grind [Th.holds]
  | reap p r m hctl hth hlock hr => grind [waitScan_zombie hr, Th.holds]
  | forkFail p np m hctl hth | forkDone p np m hctl hth hlock =>
    have he := hs.embryo p np (by simp [hth, Th.child])
    grind [Th.holds]
  | _ => grind [Th.holds, leave]

lemma Eff.cpuBack (q : Slot) (m : Bool) (hc : (t.cpu c').ctl = .back q m) :
    (t.cpu c').proc = some q ∧ (t.proc q).state ≠ .running ∧ t.lock = some c' := by
  have hok := cpuOk_iff.mp (hs.cpu c')
  have hok' := cpuOk_iff.mp (hs.cpu c)
  have hsame {p : Slot} {m : Bool} (hctl : (s.cpu c).ctl = .run p m)
      (h : (s.cpu c').proc = some p) : c' = c := hs.single c' c p h (hok'.2.2.2.1 p m hctl).1
  cases h with
  | dispatch p mlfq hctl hp => grind [hs.idle]
  | exit p m hctl hth hlock hp => grind [leave, (exit_spec initproc p s.proc).zombie]
  | _ => grind [Th.holds, leave]

end Cpu

lemma Eff.onCpu (hs : Agree s) (h : Eff s c a t) (p : Slot) (hp : (t.proc p).state = .running) :
    ∃ c m, (t.cpu c).ctl = .run p m := by
  have hok := cpuOk_iff.mp (hs.cpu c)
  have hstill (hp : (s.proc p).state = .running)
      (hkeep : ∀ c m, (s.cpu c).ctl = .run p m → (t.cpu c).ctl = .run p m) :
      ∃ c m, (t.cpu c).ctl = .run p m := by
    obtain ⟨c, m, h⟩ := hs.onCpu p hp
    exact ⟨c, m, hkeep c m h⟩
  cases h with
  | dispatch q mlfq hctl hq =>
    by_cases hqp : p = q
    · exact ⟨c, mlfq, by grind⟩
    · exact hstill (by grind) (by grind)
  | wakeup b hctl hlock =>
    exact hstill (by grind [(wakeup1_quiet s.proc (some (.addr b))).state p]) (by grind)
  | kill pid q m hctl hth hlock =>
    exact hstill (by grind [(kill_quiet s.proc pid).state p]) (by grind)
  | exit q m hctl hth hlock hp =>
    obtain ⟨hz, hst, -, -, -, -, -, -⟩ := exit_spec initproc q s.proc
    exact hstill (by grind) (by grind [leave])
  | _ => exact hstill (by grind [charge]) (by grind [leave])

lemma Eff.single (hs : Agree s) (h : Eff s c a t) (c' c'' : C) (p : Slot)
    (h' : (t.cpu c').proc = some p) (h'' : (t.cpu c'').proc = some p) : c' = c'' := by
  have hok := cpuOk_iff.mp (hs.cpu c)
  have hone := hs.single
  cases h <;> grind [hs.idle, leave]

lemma Eff.embryo (hs : Agree s) (h : Eff s c a t) (p np : Slot) (hp : (t.th p).child = some np) :
    (t.proc np).state = .embryo := by
  have hok := cpuOk_iff.mp (hs.cpu c)
  have hemb := hs.embryo
  have hinj := hs.inj
  cases h with
  | wakeup b hctl hlock => grind [(wakeup1_quiet s.proc (some (.addr b))).state np]
  | kill pid q m hctl hth hlock => grind [(kill_quiet s.proc pid).state np]
  | exit q m hctl hth hlock hp =>
    obtain ⟨hz, hst, -, -, -, -, -, -⟩ := exit_spec initproc q s.proc
    grind [leave, Th.child]
  | tick q m x hctl hth => grind [Th.ticked_spec hth, charge]
  | yield q m x hctl hth => grind [Th.yielded_spec hth, leave]
  | resumeFork q r copied m hctl hlock hth => grind [Th.inFork_spec r copied, Th.child]
  | reap q r m hctl hth hlock hr => grind [waitScan_zombie hr, Th.child]
  | _ => grind [leave, Th.child]

lemma Eff.inj (hs : Agree s) (h : Eff s c a t) (p q np : Slot) (hp : (t.th p).child = some np)
    (hq : (t.th q).child = some np) : p = q := by
  have hemb := hs.embryo
  have hinj := hs.inj
  cases h with
  | allocproc r r' m hctl hth hlock hnp =>
    have hu : (s.proc r').state = .unused := by simpa using first_some hnp
    grind [Th.child]
  | tick r m x hctl hth => grind [Th.ticked_spec hth]
  | yield r m x hctl hth => grind [Th.yielded_spec hth, leave]
  | resumeFork r r' copied m hctl hlock hth => grind [Th.inFork_spec r' copied, Th.child]
  | _ => grind [leave, Th.child]

/-- **Every step keeps the invariant.** -/
lemma Eff.agree (hs : Agree s) (h : Eff s c a t) : Agree t := by
  refine ⟨fun c' => cpuOk_iff.mpr ?_, h.fits hs, h.onCpu hs, h.single hs, h.embryo hs, h.inj hs⟩
  obtain ⟨hidle, hscan, hpick⟩ := h.cpuOff hs c'
  exact ⟨hidle, hscan, hpick, h.cpuRun hs c', h.cpuBack hs c'⟩

/-- A process becomes the current one of a CPU by a dispatch. -/
lemma Eff.dispatched {t : St C} {a : Act} (h : Eff s c a t) {c' : C} {q : Slot}
    (ht : (t.cpu c').proc = some q) (hne : (s.cpu c').proc ≠ some q) :
    (s.proc q).state = .runnable ∧ (t.proc q).state = .running := by
  by_cases hc : c' = c
  · subst hc
    cases h with
    | dispatch p mlfq hctl hp =>
      have hpq : p = q := by simpa [ProcMachine.dispatch] using ht
      subst hpq
      exact ⟨hp, by grind⟩
    | backMlfq p hctl => simp at ht
    | backRR p hctl => simp at ht
    | _ => exact absurd (by simpa [leave] using ht) hne
  · cases h with
    | _ => exact absurd (by simpa [leave, ProcMachine.dispatch, hc] using ht) hne

end Step

lemma agree_init (policy : C → ℤ) : Agree (init policy) := by
  have hstate (p : Slot) : ((init policy).proc p).state =
      if p = initproc then .runnable else .unused := rfl
  have hth (p : Slot) : (init policy).th p = if p = initproc then .forkret else .none := rfl
  have hchild (p : Slot) : ((init policy).th p).child = none := by
    rw [hth]
    split_ifs <;> rfl
  refine ⟨fun c => by simp [CpuOk, init], fun p => ?_, fun p hp => ?_, by simp [init], ?_, ?_⟩
  · rw [hstate, hth]
    split_ifs <;> rfl
  · rw [hstate] at hp
    split_ifs at hp
  · intro p np h
    simp [hchild] at h
  · intro p q np h
    simp [hchild] at h

variable [DecidableEq C] {policy : C → ℤ} {s : St C}

lemma reach_agree (hr : Reach Step (init policy) s) : Agree s :=
  hr.inv (agree_init policy) fun _ _ _ hs h => (next_eff h).2.agree hs

/-- **CPU/process agreement.** In every run, on any number of CPUs and under any policies: while
`ptable.lock` is free a process is `RUNNING` iff it is the current process of exactly one CPU;
no process is ever current on two; a process that becomes current was `RUNNABLE`, and it only
ever moves along the legal transitions. -/
theorem cpu_process_agreement (hr : Reach Step (init policy) s) :
    (s.lock = none → ∀ p, (s.proc p).state = .running ↔ ∃! c, (s.cpu c).proc = some p) ∧
    (∀ p c c', (s.cpu c).proc = some p → (s.cpu c').proc = some p → c = c') ∧ ∀ l t, Step s l t →
      (∀ p c, (t.cpu c).proc = some p → (s.cpu c).proc ≠ some p →
        (s.proc p).state = .runnable ∧ (t.proc p).state = .running) ∧
      ∀ p, (t.proc p).state = (s.proc p).state ∨ Legal (s.proc p).state (t.proc p).state := by
  have hs := reach_agree hr
  refine ⟨fun hlock p => ⟨fun hp => ?_, ?_⟩, fun p c c' => hs.single c c' p, fun l t h => ?_⟩
  · obtain ⟨c, m, hctl⟩ := hs.onCpu p hp
    have hc := ((hs.cpu c).run hctl).1
    exact ⟨c, hc, fun c' hc' => hs.single c' c p hc' hc⟩
  · rintro ⟨c, hc, -⟩
    exact hs.running_of_proc hlock hc
  · obtain ⟨-, he⟩ := next_eff h
    exact ⟨fun p c ht hne => he.dispatched ht hne, he.legal hs⟩

/-- `init` forks on a CPU with the round-robin policy and its child runs on one with the MLFQ. -/
theorem cpu_process_agreement_two : ∃ s : St Bool,
    Reach Step (init fun c => if c then 1 else 0) s ∧ s.lock = none ∧
      (s.proc ⟨1, by decide⟩).state = .running ∧ ∃! c, (s.cpu c).proc = some ⟨1, by decide⟩ := by
  exact reach_any (P := fun s => s.lock = none ∧ (s.proc ⟨1, by decide⟩).state = .running)
    [(false, .sched), (false, .sched), (false, .resume), (false, .allocproc), (false, .forkCopy),
      (false, .forkDone), (true, .sched), (true, .sched), (true, .resume)] (by decide +kernel)
    fun s hr ⟨hlock, hrun⟩ => ⟨hlock, hrun, ((cpu_process_agreement hr).1 hlock _).mp hrun⟩

end Xv6.ProcMachine
