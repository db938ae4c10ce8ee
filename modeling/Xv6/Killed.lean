import Xv6.ProcAgree

/-!
`kill`: which processes the flag `killed` can be set in.

`kill` looks at pids only, so it can hit a slot without a process: one that has never been used or
has been cleared by `wait` has pid `0`, and one given back by a failed `fork` keeps the pid that
`allocproc` gave it. `allocproc` does not clear the flag.
-/

namespace Xv6.ProcTable

/-- What has happened to a slot since it was allocated: a `kill` with its pid, a fault. -/
structure Past where
  named : Slot → Bool
  faulted : Slot → Bool

/-- The flag is set only where there is a reason, and never in a free slot. -/
structure Clean (T : Table) (g : Past) : Prop where
  unused : ∀ q, (T q).state = .unused → (T q).killed = false
  killed : ∀ q, (T q).killed = true → g.named q = true ∨ g.faulted q = true
  embryo : ∀ q, (T q).state = .embryo → g.faulted q = false

/-- The flags stay, and no slot becomes free or allocated. -/
lemma Clean.mono {T T' : Table} {g : Past} (h : Clean T g)
    (hT : ∀ q, (T' q).killed = (T q).killed ∧ ((T' q).state = .unused → (T q).state = .unused) ∧
      ((T' q).state = .embryo → (T q).state = .embryo)) : Clean T' g where
  unused q hq := (hT q).1.trans (h.unused q ((hT q).2.1 hq))
  killed q hq := h.killed q ((hT q).1.symm.trans hq)
  embryo q hq := h.embryo q ((hT q).2.2 hq)

/-- `kill` hits a slot that is in use. -/
lemma Clean.kill {T : Table} {g : Past} {pid : ℤ} (h : Clean T g)
    (hlive : ∀ q, first (fun q => (T q).pid = pid) = some q → (T q).state ≠ .unused) :
    Clean (kill T pid).1 { g with named := fun q => g.named q || decide ((T q).pid = pid) } := by
  obtain ⟨hu, hk, he⟩ := h
  unfold ProcTable.kill
  rcases hf : first fun p => (T p).pid = pid with _ | p
  · constructor <;> grind
  · have hpid : (T p).pid = pid := by simpa using first_some hf
    constructor <;> grind

end Xv6.ProcTable

namespace Xv6.ProcMachine

open Xv6.ProcTable Xv6.Lib.Run

variable {C : Type*} [DecidableEq C] {s t : St C} {c : C} {a : Act} {g : Past}

/-- What a step adds to the past of the slots. -/
def record (s : St C) (c : C) (a : Act) (g : Past) : Past :=
  match a, (s.cpu c).ctl with
  | .kill pid, _ => { g with named := fun q => g.named q || decide ((s.proc q).pid = pid) }
  | .fault, .run p _ => { g with faulted := Function.update g.faulted p true }
  | .allocproc, _ =>
    match first fun q => (s.proc q).state = .unused with
    | some np => ⟨Function.update g.named np false, Function.update g.faulted np false⟩
    | none => g
  | _, _ => g

/-- The first slot with the pid of a `kill` is in use, and a `fork` that fails gives back a slot
that has not been killed. -/
def aimed (s : St C) (c : C) (a : Act) : Bool :=
  match a, (s.cpu c).ctl with
  | .kill pid, _ =>
    match first fun q => (s.proc q).pid = pid with
    | some q => decide ((s.proc q).state ≠ .unused)
    | none => true
  | .forkFail, .run p _ =>
    match s.th p with
    | .fork np => !(s.proc np).killed
    | _ => true
  | _, _ => true

/-- A step, with the past of the slots. -/
def nextPast (x : St C × Past) (l : C × Act) : Option (St C × Past) :=
  (next x.1 l.1 l.2).map fun t => (t, record x.1 l.1 l.2 x.2)

/-- The steps that meet the condition. -/
def nextAimed (x : St C × Past) (l : C × Act) : Option (St C × Past) :=
  if aimed x.1 l.1 l.2 then nextPast x l else none

def AimedStep (x : St C × Past) (l : C × Act) (y : St C × Past) : Prop := nextAimed x l = some y

def noPast : Past := ⟨fun _ => false, fun _ => false⟩

lemma AimedStep.step {x y : St C × Past} {l : C × Act} (h : AimedStep x l y) :
    aimed x.1 l.1 l.2 = true ∧ Step x.1 l y.1 ∧ y.2 = record x.1 l.1 l.2 x.2 := by
  unfold AimedStep nextAimed nextPast at h
  split_ifs at h with ha
  obtain ⟨t, ht, rfl⟩ := Option.map_eq_some_iff.mp h
  exact ⟨ha, ht, rfl⟩

omit [DecidableEq C] in
lemma aimed_kill {pid : ℤ} (h : aimed s c (.kill pid) = true) (q : Slot)
    (hq : first (fun q => (s.proc q).pid = pid) = some q) : (s.proc q).state ≠ .unused := by
  simp only [aimed, hq] at h
  exact of_decide_eq_true h

lemma Eff.clean (h : Eff s c a t) (hs : Agree s) (ha : aimed s c a = true) (hg : Clean s.proc g) :
    Clean t.proc (record s c a g) := by
  have hrun (p : Slot) (m : Bool) (hctl : (s.cpu c).ctl = .run p m) := ((hs.cpu c).run hctl).2.1
  have ⟨hu, hk, he⟩ := hg
  cases h with
  | kill pid p m hctl => exact hg.kill (aimed_kill ha)
  | backMlfq p =>
    change Clean _ g
    have hsame := account_same s.proc p
    constructor <;> grind
  | exit p =>
    obtain ⟨hz, hst, -, -, hk', -, -, -⟩ := exit_spec initproc p s.proc
    change Clean _ g
    constructor <;> grind
  | fault p m hctl =>
    simp only [record, hctl]
    constructor <;> grind
  | forkFail p np m hctl hth =>
    have hk : (s.proc np).killed = false := by simpa [aimed, hctl, hth] using ha
    change Clean _ g
    constructor <;> grind
  | allocproc p np m hctl hth hlock hnp =>
    have hu : (s.proc np).state = .unused := by simpa using first_some hnp
    simp only [record, hnp]
    constructor <;> grind
  | allocprocFull p m hctl hth hlock hnp =>
    simp only [record, hnp]
    exact hg
  | reap p q m hctl =>
    change Clean _ g
    constructor <;> grind
  | _ => exact hg.mono (by grind [wakeup1, charge])

omit [DecidableEq C] in
lemma clean_init (policy : C → ℤ) : Clean (init policy).proc noPast :=
  ⟨fun _ _ => rfl, fun _ => nofun, fun _ _ => rfl⟩

lemma reach_clean {policy : C → ℤ} {x : St C × Past} (h : Reach AimedStep (init policy, noPast) x) :
    Agree x.1 ∧ Clean x.1.proc x.2 := by
  refine h.inv (P := fun x => Agree x.1 ∧ Clean x.1.proc x.2) ⟨agree_init policy, clean_init policy⟩
    ?_
  rintro ⟨s, g⟩ ⟨c, a⟩ ⟨t, g'⟩ ⟨hs, hg⟩ hst
  obtain ⟨ha, hst, rfl⟩ := hst.step
  have he := (next_eff hst).2
  exact ⟨he.agree hs, he.clean hs ha hg⟩

/-- **`kill` reaches only the process it names**, in every run in which it never hits a free slot
and no killed child is given back by a `fork` that fails: it returns `0` for pids of processes only;
a process has been killed only if a `kill` with its pid was called since its slot was allocated, or
it has made a fault; and a child that `fork` makes `RUNNABLE` only in the first case. -/
theorem kill_named {policy : C → ℤ} {x : St C × Past} (h : Reach AimedStep (init policy, noPast) x) :
    (∀ c pid, aimed x.1 c (.kill pid) = true → (kill x.1.proc pid).2 = 0 →
      ∃ q, (x.1.proc q).pid = pid ∧ (x.1.proc q).state ≠ .unused) ∧
    (∀ q, (x.1.proc q).killed = true → x.2.named q = true ∨ x.2.faulted q = true) ∧
    (∀ c y p m np, AimedStep x (c, .forkDone) y → (x.1.cpu c).ctl = .run p m → x.1.th p = .forkCopied np →
      (y.1.proc np).state = .runnable ∧ ((y.1.proc np).killed = true → x.2.named np = true)) := by
  obtain ⟨hs, hg⟩ := reach_clean h
  refine ⟨fun c pid ha hret => ?_, hg.killed, fun c y p m np hst hctl hth => ?_⟩
  · cases hf : first fun q => (x.1.proc q).pid = pid with
    | none => simp [kill, hf] at hret
    | some q => exact ⟨q, by simpa using first_some hf, aimed_kill ha q hf⟩
  · have he : (x.1.proc np).state = .embryo := hs.embryo p np (by rw [hth]; rfl)
    obtain ⟨t, g'⟩ := y
    have hstep : Step x.1 (c, .forkDone) t := hst.step.2.1
    cases (next_eff hstep).2 with
    | forkDone p' np' m' hctl' hth' =>
      cases hctl.symm.trans hctl'
      cases hth.symm.trans hth'
      grind [hg.killed np, hg.embryo np]

/-- The first process forks and kills its child. -/
def forkKill : List (Unit × Act) :=
  [.sched, .sched, .resume, .allocproc, .forkCopy, .forkDone, .kill 2].map fun a => ((), a)

theorem kill_named_child : ∃ x : St Unit × Past, Reach AimedStep (init fun _ => 0, noPast) x ∧
    (∃ q, (x.1.proc q).killed = true ∧ (x.2.named q = true ∨ x.2.faulted q = true)) := by
  exact reach_any (P := fun x => ∃ q, (x.1.proc q).killed = true) forkKill (by decide +kernel)
    fun x hr ⟨q, hk⟩ => ⟨q, hk, (kill_named hr).2.1 q hk⟩

/-- `kill(0)` marks the first free slot, and the next child starts killed although nobody has named
it. -/
theorem kill_zero :
    ∃ x y : St Unit × Past, Reach (fun x l y => nextPast x l = some y) (init fun _ => 0, noPast) x ∧
      (kill x.1.proc 0).2 = 0 ∧ (∀ q, (x.1.proc q).pid = 0 → (x.1.proc q).state = .unused) ∧
      exec nextPast x ([.kill 0, .allocproc, .forkCopy, .forkDone].map fun a => ((), a)) = some y ∧
      ∃ q, (y.1.proc q).state = .runnable ∧ (y.1.proc q).pid = 2 ∧ (y.1.proc q).killed = true ∧
        y.2.named q = false ∧ y.2.faulted q = false := by
  obtain ⟨x, hr, hret, hfree, hrun⟩ : ∃ x : St Unit × Past,
      Reach (fun x l y => nextPast x l = some y) (init fun _ => 0, noPast) x ∧
      (kill x.1.proc 0).2 = 0 ∧ (∀ q, (x.1.proc q).pid = 0 → (x.1.proc q).state = .unused) ∧
      (exec nextPast x ([.kill 0, .allocproc, .forkCopy, .forkDone].map fun a => ((), a))).any
        fun y => ∃ q, (y.1.proc q).state = .runnable ∧ (y.1.proc q).pid = 2 ∧
          (y.1.proc q).killed = true ∧ y.2.named q = false ∧ y.2.faulted q = false :=
    reach_any ([.sched, .sched, .resume].map fun a => ((), a)) (by decide +kernel) fun _ _ => id
  obtain ⟨y, hy, hchild⟩ := exists_any hrun
  exact ⟨x, y, hr, hret, hfree, hy, hchild⟩

end Xv6.ProcMachine
