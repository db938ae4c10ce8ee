import Xv6.ProcAgree

/-!
User-level threads: `uthread_init` stores the address of a scheduler in the process slot, and the
timer branch of `trap` calls it.

The two fields are written by `uthread_init` only. `allocproc`, `wait` and `exec` leave them as they
are, so the machine of processes is run here together with the fields and with a history of who
registered what.
-/

namespace Xv6.Uthread

open Xv6.ProcTable Xv6.ProcMachine Xv6.Lib.Run
open Function (update update_of_ne)

variable {C : Type*} [DecidableEq C]

/-- A C `int` read as `uint`. -/
def toUint (n : ℤ) : ℕ := (n % 2 ^ 32).toNat

/-- `registered` is history: the addresses that the process in a slot has passed to `uthread_init`
since it was created and since its last successful `exec`. -/
structure St (C : Type*) where
  mach : ProcMachine.St C
  isThreaded : Slot → ℤ
  scheduler : Slot → ℕ
  registered : Slot → List ℕ

/-- `exec` is its commit to the new image; what leads to it, and a call that fails, are steps that
touch no process slot. -/
inductive Act
  | proc (a : ProcMachine.Act)
  | uthreadInit (sched : ℤ)
  | exec

def init (policy : C → ℤ) : St C := ⟨ProcMachine.init policy, fun _ => 0, fun _ => 0, fun _ => []⟩

/-- The slot that `allocproc` is about to take. -/
def allocated (s : ProcMachine.St C) : ProcMachine.Act → Option Slot
  | .allocproc => first fun q => (s.proc q).state = .unused
  | _ => none

/-- The process that makes a system call on the CPU. -/
def caller (s : ProcMachine.St C) (c : C) : Option Slot :=
  match (s.cpu c).ctl with
  | .run p _ => if s.th p = .run then some p else none
  | _ => none

def next (s : St C) (c : C) : Act → Option (St C)
  | .proc a => (ProcMachine.next s.mach c a).map fun t => { s with
      mach := t
      registered := match allocated s.mach a with
        | some np => update s.registered np []
        | none => s.registered }
  | .uthreadInit sched => (caller s.mach c).map fun p => { s with
      scheduler := update s.scheduler p (toUint sched)
      isThreaded := update s.isThreaded p 1
      registered := update s.registered p (toUint sched :: s.registered p) }
  | .exec => (caller s.mach c).map fun p => { s with registered := update s.registered p [] }

/-- The address that the timer branch of `trap` calls, with the process it calls it for. -/
def timerCall (s : St C) (c : C) : Option (Slot × ℕ) :=
  match (s.mach.cpu c).proc with
  | some p =>
    if (s.mach.proc p).state = .running ∧ s.isThreaded p ≠ 0 ∧ s.scheduler p ≠ 0 then some (p, s.scheduler p)
    else none
  | none => none

/-- A timer interrupt would call the address in the slot. -/
def armed (s : St C) (p : Slot) : Bool := decide (s.isThreaded p ≠ 0 ∧ s.scheduler p ≠ 0)

/-- No armed slot is taken by `allocproc`, and no armed process runs `exec`. -/
def disarmed (s : St C) (c : C) : Act → Bool
  | .proc a => match allocated s.mach a with
    | some np => !armed s np
    | none => true
  | .uthreadInit _ => true
  | .exec => match caller s.mach c with
    | some p => !armed s p
    | none => true

def Step (s : St C) (l : C × Act) (t : St C) : Prop := next s l.1 l.2 = some t

def nextDisarmed (s : St C) (l : C × Act) : Option (St C) := if disarmed s l.1 l.2 then next s l.1 l.2 else none

def DisarmedStep (s : St C) (l : C × Act) (t : St C) : Prop := nextDisarmed s l = some t

/-- Every armed slot holds an address that its process has registered. -/
def Own (s : St C) : Prop := ∀ p, armed s p = true → s.scheduler p ∈ s.registered p

variable {s t : St C} {c : C}

omit [DecidableEq C] in
/-- A history that starts anew. -/
lemma Own.clear {np : Slot} (h : Own s) (hnp : armed s np = false) (t : St C)
    (ht : t.isThreaded = s.isThreaded ∧ t.scheduler = s.scheduler ∧
      t.registered = update s.registered np []) : Own t := by
  obtain ⟨hthr, hsch, hreg⟩ := ht
  intro p hp
  have hp' : armed s p = true := by
    unfold armed at hp ⊢
    rwa [hthr, hsch] at hp
  have hne : p ≠ np := by
    rintro rfl
    exact absurd (hnp.symm.trans hp') nofun
  rw [hsch, hreg, update_of_ne hne]
  exact h p hp'

lemma Own.step {l : C × Act} (h : Own s) (hst : DisarmedStep s l t) : Own t := by
  obtain ⟨c, a⟩ := l
  unfold DisarmedStep nextDisarmed at hst
  split_ifs at hst with hd
  cases a with
  | proc a =>
    obtain ⟨m, -, rfl⟩ := Option.map_eq_some_iff.mp hst
    cases hal : allocated s.mach a with
    | none => exact h
    | some np => exact h.clear (by simpa [disarmed, hal] using hd) _ ⟨rfl, rfl, rfl⟩
  | uthreadInit sched =>
    obtain ⟨p, -, rfl⟩ := Option.map_eq_some_iff.mp hst
    intro q hq
    by_cases e : q = p
    · subst e
      simp
    · simp only [armed, update_of_ne e] at hq ⊢
      exact h q hq
  | exec =>
    obtain ⟨p, hp, rfl⟩ := Option.map_eq_some_iff.mp hst
    exact h.clear (by simpa [disarmed, hp] using hd) _ ⟨rfl, rfl, rfl⟩

/-- **The address a timer interrupt calls is the process's own**, in every run in which no armed
slot is allocated again and no armed process runs `exec`: it was registered by a `uthread_init` that
the process made since it was created and since its last `exec`. -/
theorem timerCall_registered {policy : C → ℤ} {p : Slot} {addr : ℕ} (hr : Reach DisarmedStep (init policy) s)
    (hcall : timerCall s c = some (p, addr)) : addr ∈ s.registered p := by
  have hown : Own s := hr.inv (P := Own) (fun _ => nofun) fun _ _ _ h hst => h.step hst
  unfold timerCall at hcall
  split at hcall
  · split_ifs at hcall with hp
    cases hcall
    exact hown _ (decide_eq_true hp.2)
  · cases hcall

/-- One CPU: the first process is running. -/
def started : List (Unit × Act) := [.proc .sched, .proc .sched, .proc .resume].map fun a => ((), a)

theorem timerCall_registered_first : ∃ s : St Unit, Reach DisarmedStep (init fun _ => 0) s ∧
    timerCall s () = some (initproc, 4096) ∧ 4096 ∈ s.registered initproc := by
  exact reach_any (P := fun s => timerCall s () = some (initproc, 4096))
    (started ++ [((), .uthreadInit 4096)]) (by decide +kernel)
    fun s hr hcall => ⟨hcall, timerCall_registered hr hcall⟩

/-- The first process forks and waits; its child registers an address and exits; then the first
process forks again, and the second child comes to run in the slot of the first. -/
def slotReused : List (Unit × Act) :=
  let forks : List ProcMachine.Act := [.allocproc, .forkCopy, .forkDone]
  let child : List ProcMachine.Act := [.sched, .sched, .resume]
  let reaped : List ProcMachine.Act := .exit :: .replicate 66 .sched ++ [.resume, .waitScan]
  let before := forks ++ .wait :: .waitScan :: child
  let after := reaped ++ forks ++ .yield :: child
  started ++ before.map (fun a => ((), .proc a)) ++ ((), .uthreadInit 4096) :: after.map fun a => ((), .proc a)

/-- The address outlives both an `exec` and the process. -/
theorem timerCall_leaks :
    (∃ s : St Unit, Reach Step (init fun _ => 0) s ∧
      timerCall s () = some (initproc, 4096) ∧ s.registered initproc = []) ∧
    (∃ (s : St Unit) (p : Slot), Reach Step (init fun _ => 0) s ∧
      timerCall s () = some (p, 4096) ∧ s.registered p = []) := by
  constructor
  · exact reach_any (started ++ [((), .uthreadInit 4096), ((), .exec)]) (by decide +kernel)
      fun _ _ => id
  · obtain ⟨t, ht, p, hp⟩ : ∃ s : St Unit, Reach Step (init fun _ => 0) s ∧
        ∃ p, timerCall s () = some (p, 4096) ∧ s.registered p = [] :=
      reach_any slotReused (by decide +kernel) fun _ _ => id
    exact ⟨t, p, ht, hp⟩

end Xv6.Uthread
