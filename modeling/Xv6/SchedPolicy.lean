import Xv6.Mlfq

/-!
`setSchedPolicy`: the policy of a CPU is read at the head of the loop in `scheduler`, so it
binds a CPU once it has left its round-robin pass; and the call sets it for one CPU only.
-/

namespace Xv6.ProcTable

/-- The search goes through the levels in the order of the list. -/
lemma find_maximal {T : Table} {p : Slot} {levels : List ℤ} (hl : levels.Pairwise (· > ·))
    (h : (levels.findSome? fun prio => first fun p => (T p).state = .runnable ∧
      (T p).priority = prio) = some p)
    {q : Slot} (hq : (T q).state = .runnable) (hlevel : (T q).priority ∈ levels) :
    (T q).priority ≤ (T p).priority := by
  induction levels with
  | nil => cases h
  | cons prio levels ih =>
    obtain ⟨hprio, hrest⟩ := List.pairwise_cons.mp hl
    rw [List.findSome?_cons] at h
    cases hf : first fun p => (T p).state = .runnable ∧ (T p).priority = prio with
    | some p' =>
      rw [hf] at h
      cases h
      have hp : (T p).state = .runnable ∧ (T p).priority = prio := by simpa using first_some hf
      rw [hp.2]
      rcases List.mem_cons.mp hlevel with he | hmem
      · exact he.le
      · exact (hprio _ hmem).le
    | none =>
      rw [hf] at h
      have hno : (T q).priority ≠ prio := by simpa [hq] using first_none hf q
      exact ih hrest h ((List.mem_cons.mp hlevel).resolve_left hno)

/-- The MLFQ branch picks a process of the highest level. -/
lemma select_maximal {T : Table} {p q : Slot} (hT : ∀ q, Sane (T q)) (h : select T = some p)
    (hq : (T q).state = .runnable) : (T q).priority ≤ (T p).priority := by
  refine find_maximal (by decide) h hq ?_
  have := (hT q).level
  simp only [List.mem_cons, List.not_mem_nil, or_false]
  omega

end Xv6.ProcTable

namespace Xv6.ProcMachine

open Xv6.ProcTable Xv6.Lib.Run

variable {C : Type*} [DecidableEq C] {s t : St C} {c : C} {a : Act}

/-- The scheduler of the CPU is in a pass of its round-robin loop, or the process it runs was
picked there. -/
def Ctl.inPass : Ctl → Bool
  | .scan _ | .run _ false | .back _ false => true
  | _ => false

/-- The CPU is under MLFQ and has left its round-robin pass. -/
def Switched (s : St C) (c : C) : Prop := (s.cpu c).policy = 1 ∧ (s.cpu c).ctl.inPass = false

def Act.isSetSchedPolicy : Act → Bool
  | .setSchedPolicy _ => true
  | _ => false

/-- The steps until the next call of `setSchedPolicy`. -/
def nextQuiet (s : St C) (l : C × Act) : Option (St C) :=
  if l.2.isSetSchedPolicy then none else next s l.1 l.2

def QuietStep (s : St C) (l : C × Act) (t : St C) : Prop := nextQuiet s l = some t

lemma QuietStep.step {l : C × Act} (h : QuietStep s l t) : l.2.isSetSchedPolicy = false ∧
    Step s l t := by
  unfold QuietStep nextQuiet at h
  split_ifs at h with hl
  exact ⟨eq_false_of_ne_true hl, h⟩

/-- Only `setSchedPolicy` enters the round-robin loop again. -/
lemma Eff.switched (h : Eff s c a t) (ha : a.isSetSchedPolicy = false) (hs : Switched s c) :
    Switched t c := by
  obtain ⟨hpol, hpass⟩ := hs
  have hno {k : Ctl} (hk : (s.cpu c).ctl = k) (hin : k.inPass = true) : False := by
    rw [hk, hin] at hpass
    cases hpass
  have hrun {p : Slot} {m : Bool} (hk : (s.cpu c).ctl = .run p m) : m = true := by
    cases m with
    | true => rfl
    | false => exact (hno hk rfl).elim
  cases h with
  | acquire hk => simp [Switched, St.setCpu, hpol, Ctl.inPass]
  | skip i hk => exact (hno hk rfl).elim
  | backRR p hk => exact (hno hk rfl).elim
  | dispatch p m hk =>
    rcases hk with ⟨i, hk, -, -⟩ | ⟨-, -, rfl⟩
    · exact (hno hk rfl).elim
    · simp [Switched, ProcMachine.dispatch, St.setCpu, hpol, Ctl.inPass]
  | release | backMlfq => simp [Switched, St.setCpu, hpol, Ctl.inPass]
  | setSchedPolicy => cases ha
  | yield p m x hk | sleep b p m hk | exit p m hk | waitSleep p m hk =>
    simp [Switched, leave, St.setCpu, hpol, Ctl.inPass, hrun hk]
  | wakeup | resume | resumeFork | resumeSleep | resumeWait | zombieExit | tick | fault | forkFail | forkCopy
  | forkDone | kill | wait | allocproc | allocprocFull | initExiting | reap | waitFail =>
    exact ⟨hpol, hpass⟩

lemma QuietStep.switched {l : C × Act} (h : QuietStep s l t) (hs : Switched s c) :
    Switched t c := by
  obtain ⟨hl, hst⟩ := h.step
  have he := (next_eff hst).2
  by_cases hc : c = l.1
  · subst hc
    exact he.switched hl hs
  · unfold Switched
    rw [he.cpu_other hc]
    exact hs

/-- Both CPUs under MLFQ: the first process asks for what is so already, and is dispatched again. -/
def askAgain : List (Bool × Act) := [.sched, .sched, .resume].map fun a => (false, a)

/-- The slot that the first `fork` takes. -/
def childSlot : Slot := ⟨1, by decide⟩

/-- From boot: the first process switches its CPU to MLFQ, is demoted there, forks and calls
`setSchedPolicy(1)` once more. -/
def twoCpus : List (Bool × Act) :=
  let toMlfq : List Act := [.sched, .sched, .resume, .setSchedPolicy 1, .yield] ++ .replicate 65 .sched
  let demoted : List Act := (List.replicate 8 [.sched, .sched, .resume, .tick, .yield, .sched]).flatten
  let forked : List Act := [.sched, .sched, .resume, .allocproc, .forkCopy, .forkDone]
  (toMlfq ++ demoted ++ forked).map fun a => (false, a)

end Xv6.ProcMachine
