import Xv6.ReadyRow

/-!
Which of two processes on one level of the queue is served. Every pass of the MLFQ branch looks for
a process from slot `0` on, so the process in the lower slot may be dispatched again and again
while the other one is ready.
-/

namespace Xv6.ProcTable

variable {T : Table} {p q : Slot}

/-- Of one level the first slot is taken. -/
lemma select_first (h : select T = some p) (hq : (T q).state = .runnable)
    (hlevel : (T q).priority = (T p).priority) : p ≤ q := by
  obtain ⟨prio, -, hp⟩ := List.exists_of_findSome?_eq_some h
  obtain ⟨hprio, hlt⟩ := first_eq_some_iff.mp hp
  simp only [Bool.decide_and, Bool.and_eq_true, decide_eq_true_eq] at hprio
  by_contra hle
  have hno := hlt q (not_le.mp hle)
  simp [hq, hlevel, hprio.2] at hno

end Xv6.ProcTable

namespace Xv6.ProcMachine

open Xv6.ProcTable Xv6.Lib.Run

variable {C : Type*} [DecidableEq C] {s t u : St C} {c : C} {a : Act} {l : C × Act} {p q i : Slot}

/-- The process that the MLFQ branch dispatches in a step. -/
def picked (s : St C) (l : C × Act) : Option Slot :=
  if l.2 = .sched ∧ (s.cpu l.1).ctl = .pick then select s.proc else none

/-- The process is ready or runs, on the level of `p`. -/
def Abreast (p q : Slot) (s : St C) : Prop :=
  ((s.proc q).state = .runnable ∨ (s.proc q).state = .running) ∧
    (s.proc q).priority = (s.proc p).priority

instance (p q : Slot) (s : St C) : Decidable (Abreast p q s) := by
  unfold Abreast
  infer_instance

/-- The steps between two dispatches of `p`, with `q` abreast of it, that do not dispatch `q`. -/
def nextUnserved (p q : Slot) (s : St C) (l : C × Act) : Option (St C) :=
  if picked s l = some p ∨ picked s l = some q then none
  else (nextMlfq s l).filter fun t => Abreast p q t

/-- Between two consecutive dispatches of `p`, with `q` `RUNNABLE` after the first and abreast of
`p` all along, `q` is dispatched. -/
def Fair (C : Type*) [DecidableEq C] (p q : Slot) : Prop :=
  ∀ (policy : C → ℤ) (s s' t u : St C) (l l' : C × Act), Reach Step (init policy) s →
    MlfqStep s l s' → picked s l = some p →
    (s'.proc q).state = .runnable → (s'.proc q).priority = (s'.proc p).priority →
    Reach (fun s l t => nextUnserved p q s l = some t) s' t →
    MlfqStep t l' u → picked t l' ≠ some p

/-! ### The lower slot is served -/

lemma nextUnserved_some (h : nextUnserved p q s l = some t) :
    picked s l ≠ some p ∧ picked s l ≠ some q ∧ MlfqStep s l t ∧ Abreast p q t := by
  unfold nextUnserved at h
  split_ifs at h with hpick
  obtain ⟨ht, hq⟩ := Option.filter_eq_some_iff.mp h
  rw [not_or] at hpick
  exact ⟨hpick.1, hpick.2, ht, of_decide_eq_true hq⟩

omit [DecidableEq C] in
lemma picked_some (h : picked s l = some p) : l.2 = .sched ∧ (s.cpu l.1).ctl = .pick ∧
    select s.proc = some p := by
  unfold picked at h
  split_ifs at h with hl
  exact ⟨hl.1, hl.2, h⟩

/-- A process comes to run by a dispatch only. -/
lemma MlfqStep.not_running (h : MlfqStep s l t) (hs : Agree s) (hq : (s.proc q).state ≠ .running)
    (hpick : picked s l ≠ some q) : (t.proc q).state ≠ .running := by
  obtain ⟨hrr, hst⟩ := h.step
  obtain ⟨c, a⟩ := l
  have he := (next_eff hst).2
  intro hrun
  have hno {c' : C} {m : Bool} (hctl : (s.cpu c').ctl = .run q m) : False :=
    hq ((hs.cpu c').run hctl).2.1
  obtain ⟨c', m, hctl⟩ := (he.agree hs).onCpu q hrun
  by_cases hc : c' = c
  · subst hc
    rcases he.run_from hctl with ⟨-, hk⟩ | ⟨rfl, hready, ⟨i, hk, rfl, -⟩ | ⟨hk, hsel, -⟩⟩
    · exact hno hk
    · simp [dispatchesRR, hk, q.isLt, hready] at hrr
    · exact hpick (by rw [picked, if_pos ⟨rfl, hk⟩, hsel])
  · rw [he.cpu_other hc] at hctl
    exact hno hctl

lemma picked_running (hst : MlfqStep s l t) (h : picked s l = some p) :
    (t.proc p).state = .running := by
  obtain ⟨c, a⟩ := l
  obtain ⟨rfl, hctl, hsel⟩ := picked_some h
  have hnext := hst.step.2
  have hpan := (next_eff hnext).1
  simp only [Step, next, hpan, schedStep, hctl, hsel, Option.isSome_none] at hnext
  cases hnext
  simp [dispatch, setState]

lemma fair_of_le (h : q ≤ p) : Fair C p q := by
  intro policy s s' t u l l' hr hst hpick hready hlevel hrun hst' hpick'
  have hr' : Reach Step (init policy) s' := hr.tail hst.step.2
  have hinv : Agree t ∧ (t.proc q).state = .runnable ∧
      (t.proc q).priority = (t.proc p).priority := by
    refine hrun.inv (P := fun t => Agree t ∧ (t.proc q).state = .runnable ∧
      (t.proc q).priority = (t.proc p).priority) ⟨reach_agree hr', hready, hlevel⟩ ?_
    rintro s l t ⟨hs, hq, -⟩ hnext
    obtain ⟨-, hpick, hst, hstate, hlevel⟩ := nextUnserved_some hnext
    have hno := hst.not_running hs (by rw [hq]; nofun) hpick
    exact ⟨(next_eff hst.step.2).2.agree hs, hstate.resolve_right hno, hlevel⟩
  obtain ⟨-, hq, hlevel'⟩ := hinv
  obtain ⟨-, -, hsel⟩ := picked_some hpick'
  obtain rfl : p = q := le_antisymm (select_first hsel hq hlevel') h
  -- a process that has just been dispatched runs
  rw [picked_running hst hpick] at hready
  cases hready

/-! ### The higher slot is passed over -/

omit [DecidableEq C] in
lemma Row.abreast {n : ℕ} {k : Ctl} {lock : Option C} {st : ProcState} {x : Th}
    (h : Row s c p n k lock st x) (hpq : p < q) (hq : q.val ≤ n) :
    (s.proc q).state = .runnable ∧ (s.proc q).priority = (s.proc p).priority :=
  ⟨(h.after q hpq hq).1, (h.level q hq).1.trans (h.level p h.le).1.symm⟩

/-- A step from one row to another, away from the choice of a process. -/
lemma Row.unserved {n : ℕ} {k k' : Ctl} {lock lock' : Option C} {st st' : ProcState} {x x' : Th}
    (h : Row s c p n k lock st x) (h' : Row t c p n k' lock' st' x') (hst : MlfqStep s (c, a) t)
    (hk : k ≠ .pick) (hpq : p < q) (hq : q.val ≤ n) : nextUnserved p q s (c, a) = some t := by
  have hpick : picked s (c, a) = none := by simp [picked, h.ctl, hk]
  obtain ⟨hready, hlevel⟩ := h'.abreast hpq hq
  have hq : Abreast p q t := ⟨.inl hready, hlevel⟩
  rw [nextUnserved, hpick, if_neg (by simp), hst]
  simp [hq]

/-- Two dispatches of `p` in a row, with `q` ready on its level all the time. -/
lemma unfair_run (c : C) (h : p < q) :
    ∃ (s s' t u : St C), Reach MlfqStep (init fun _ => 1) s ∧ MlfqStep s (c, .sched) s' ∧
      picked s (c, .sched) = some p ∧ (s'.proc q).state = .runnable ∧
      (s'.proc q).priority = (s'.proc p).priority ∧
      Reach (fun s l t => nextUnserved p q s l = some t) s' t ∧
      MlfqStep t (c, .sched) u ∧ picked t (c, .sched) = some p := by
  have hq : q.val ≤ q.val := le_rfl
  obtain ⟨s₀, x, hr₀, hx, h₀⟩ := reach_row c q.isLt p h.le
  obtain ⟨s, hst₀, hs⟩ := h₀.acquire
  obtain ⟨s', hst, hs'⟩ := hs.pick
  -- `p` gives the CPU back, and the next pass finds it again
  obtain ⟨s₁, hst₁, h₁⟩ := hs'.resume hx
  obtain ⟨s₂, hst₂, h₂⟩ := h₁.yield
  have hr₂ := (((hr₀.tail hst₀).tail hst).tail hst₁).tail hst₂
  obtain ⟨s₃, hst₃, h₃⟩ := h₂.account (reach_sane_mlfq hr₂)
  obtain ⟨t, hst₄, ht⟩ := h₃.acquire
  obtain ⟨u, hst₅, -⟩ := ht.pick
  have hrun : Reach (fun s l t => nextUnserved p q s l = some t) s' t :=
    (((Reach.refl.tail (hs'.unserved h₁ hst₁ nofun h hq)).tail
      (h₁.unserved h₂ hst₂ nofun h hq)).tail (h₂.unserved h₃ hst₃ nofun h hq)).tail
        (h₃.unserved ht hst₄ nofun h hq)
  obtain ⟨hready, hlevel⟩ := hs'.abreast h hq
  refine ⟨s, s', t, u, hr₀.tail hst₀, hst, ?_, hready, hlevel, hrun, hst₅, ?_⟩
  · simp [picked, hs.ctl, hs.select]
  · simp [picked, ht.ctl, ht.select]

/-- **Who is served on one level.** Between two dispatches of `p` a process `q` that is ready on the
same level is dispatched, in all runs, just when its slot is not behind that of `p`. -/
theorem mlfq_fair_iff [Inhabited C] (p q : Slot) : Fair C p q ↔ q ≤ p := by
  refine ⟨fun hfair => ?_, fair_of_le⟩
  by_contra hle
  obtain ⟨s, s', t, u, hr, hst, hpick, hready, hlevel, hrun, hst', hpick'⟩ :=
    unfair_run (default : C) (not_le.mp hle)
  exact hfair (fun _ => 1) s s' t u _ _ (hr.mono fun _ _ _ hst => hst.step.2) hst hpick hready
    hlevel hrun hst' hpick'

/-- The first process forks and gives the CPU back. -/
def forkYield : List (Unit × Act) :=
  [.sched, .sched, .resume, .allocproc, .forkCopy, .forkDone, .yield, .sched, .sched].map
    fun a => ((), a)

/-- Dispatched, it gives the CPU back again. -/
def nextTurn : List (Unit × Act) := [.resume, .yield, .sched, .sched].map fun a => ((), a)

/-- The first process is dispatched twice in a row, and its child, `RUNNABLE` on the same level, is
not. -/
theorem mlfq_unfair_to_child :
    ∃ s s' t u : St Unit, exec nextMlfq (init fun _ => 1) forkYield = some s ∧
      MlfqStep s ((), .sched) s' ∧ picked s ((), .sched) = some initproc ∧
      (s'.proc childSlot).state = .runnable ∧
      (s'.proc childSlot).priority = (s'.proc initproc).priority ∧
      exec (nextUnserved initproc childSlot) s' nextTurn = some t ∧
      MlfqStep t ((), .sched) u ∧ picked t ((), .sched) = some initproc := by
  have hrun : (exec nextMlfq (init fun _ => 1) forkYield).bind (fun s =>
      (nextMlfq s ((), .sched)).bind fun s' =>
        (exec (nextUnserved initproc childSlot) s' nextTurn).map fun t =>
          (picked s ((), .sched), (s'.proc childSlot).state,
            decide ((s'.proc childSlot).priority = (s'.proc initproc).priority),
            (nextMlfq t ((), .sched)).isSome, picked t ((), .sched))) =
      some (some initproc, .runnable, true, true, some initproc) := by decide +kernel
  obtain ⟨s, hs, hv⟩ := Option.bind_eq_some_iff.mp hrun
  obtain ⟨s', hs', hv⟩ := Option.bind_eq_some_iff.mp hv
  obtain ⟨t, ht, hv⟩ := Option.map_eq_some_iff.mp hv
  simp only [Prod.mk.injEq] at hv
  obtain ⟨hp, hready, hlevel, hnext, hp'⟩ := hv
  obtain ⟨u, hu⟩ := Option.isSome_iff_exists.mp hnext
  exact ⟨s, s', t, u, hs, hs', hp, hready, of_decide_eq_true hlevel, ht, hu, hp'⟩

end Xv6.ProcMachine
