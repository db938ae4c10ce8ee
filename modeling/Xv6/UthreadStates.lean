import Mathlib.Data.List.FinRange
import Xv6.Lib.Run

/-!
The states of the threads of `uthread3.c`: what each call of the running thread, and a yield that
the timer forces between two calls, does to them.

`thread_switch` stores the stack pointer of the thread that stops in the first word of its
structure, and that is its `tid`; the thread that goes on may call whatever it likes.
-/

namespace Xv6.Uthread3

open Xv6.Lib.Run
open Function (update update_of_ne update_self)

/-- The choice of `thread_schedule`: the first other thread that is runnable, or else the current
one, if it is. -/
def pick {n : ℕ} (runnable : Fin n → Bool) (current : Fin n) : Option (Fin n) :=
  match (List.finRange n).find? fun t => runnable t && t != current with
  | some t => some t
  | none => if runnable current then some current else none

variable {n : ℕ} {x : State} {runnable : Fin n → Bool} {current : Fin n}

lemma pick_runnable {t : Fin n} (h : pick runnable current = some t) : runnable t = true := by
  unfold pick at h
  cases hf : (List.finRange n).find? fun t => runnable t && t != current with
  | some u =>
    rw [hf] at h
    cases h
    have hu := List.find?_some hf
    simp only [Bool.and_eq_true] at hu
    exact hu.1
  | none =>
    rw [hf] at h
    dsimp only at h
    split_ifs at h with hr
    exact Option.some.inj h ▸ hr

lemma pick_eq_none (hother : ∀ t, t ≠ current → runnable t = false)
    (hself : runnable current = false) :
    pick runnable current = none := by
  by_contra hne
  obtain ⟨t, ht⟩ := Option.ne_none_iff_exists'.mp hne
  have hrun := pick_runnable ht
  by_cases htc : t = current
  · rw [htc, hself] at hrun
    cases hrun
  · rw [hother t htc] at hrun
    cases hrun

inductive State
  | FREE
  | RUNNING
  | RUNNABLE
  | WAIT
  deriving DecidableEq

abbrev MAX_THREAD : ℕ := 10

abbrev Slot := Fin MAX_THREAD

structure Thread where
  tid : UInt32
  state : State

/-- `exited` and `suspended` are history: the thread in a slot has called `thread_exit`, or
`thread_suspend` has stopped it and no `thread_resume` has named it since. -/
structure St where
  thread : Slot → Thread
  current : Slot
  globalTid : UInt32
  exited : Slot → Bool
  suspended : Slot → Bool

inductive Act
  | create
  | yield (esp : UInt32)
  | exit (esp : UInt32)
  | suspend (tid : UInt32)
  | resume (tid : UInt32)

def St.setState (s : St) (t : Slot) (x : State) : St :=
  { s with thread := update s.thread t { s.thread t with state := x } }

/-- After `thread_init`. -/
def init : St where
  thread t := ⟨0, if t = 0 then .RUNNING else .FREE⟩
  current := 0
  globalTid := 1
  exited _ := false
  suspended _ := false

/-- The thread that `thread_schedule` selects. -/
def selected (s : St) : Option Slot :=
  pick (fun t => decide ((s.thread t).state = .RUNNABLE)) s.current

/-- `movl %esp, (%eax)` with `current_thread` in `%eax`. -/
def threadSwitch (s : St) (esp : UInt32) (next : Slot) : St :=
  { s with
    thread := update s.thread s.current { s.thread s.current with tid := esp }
    current := next }

/-- `none` when no thread is runnable and the process exits. -/
def threadSchedule (s : St) (esp : UInt32) : Option St :=
  (selected s).map fun next =>
    if s.current ≠ next then
      threadSwitch ((s.setState next .RUNNING).setState s.current .RUNNABLE) esp next
    else s

/-- The state in which `thread_yield` calls `thread_schedule`. -/
def yielding (s : St) : St := s.setState s.current .RUNNABLE

/-- The state in which `thread_exit` calls `thread_schedule`. -/
def exiting (s : St) : St :=
  { s.setState s.current .FREE with exited := update s.exited s.current true }

def threadCreate (s : St) : ℤ × St :=
  match (List.finRange MAX_THREAD).find? fun t => (s.thread t).state = .FREE with
  | some t => (s.globalTid.toNat, { s with
      thread := update s.thread t ⟨s.globalTid, .RUNNABLE⟩
      globalTid := s.globalTid + 1
      exited := update s.exited t false
      suspended := update s.suspended t false })
  | none => (-1, s)

def named (s : St) (tid : UInt32) : Option Slot :=
  (List.finRange MAX_THREAD).find? fun t => (s.thread t).tid = tid

def threadSuspend (s : St) (tid : UInt32) : St :=
  match named s tid with
  | some t =>
    if (s.thread t).state = .RUNNABLE ∨ (s.thread t).state = .RUNNING then
      { s.setState t .WAIT with suspended := update s.suspended t true }
    else s
  | none => s

def threadResume (s : St) (tid : UInt32) : St :=
  match named s tid with
  | some t =>
    let s := if (s.thread t).state = .WAIT then s.setState t .RUNNABLE else s
    { s with suspended := update s.suspended t false }
  | none => s

def next (s : St) : Act → Option St
  | .create => some (threadCreate s).2
  | .yield esp => threadSchedule (yielding s) esp
  | .exit esp => threadSchedule (exiting s) esp
  | .suspend tid => some (threadSuspend s tid)
  | .resume tid => some (threadResume s tid)

/-- The state in which a call calls `thread_schedule`. -/
def scheduling (s : St) : Act → Option St
  | .yield _ => some (yielding s)
  | .exit _ => some (exiting s)
  | .create | .suspend _ | .resume _ => none

/-- A thread yields only while it is not suspended itself, and exits only when no other thread is
runnable. -/
def Apart (s : St) : Act → Prop
  | .yield _ => (s.thread s.current).state ≠ .WAIT
  | .exit _ => ∀ t, t ≠ s.current → (s.thread t).state ≠ .RUNNABLE
  | .create | .suspend _ | .resume _ => True

instance (s : St) (a : Act) : Decidable (Apart s a) :=
  match a with
  | .yield _ => inferInstanceAs (Decidable (_ ≠ _))
  | .exit _ => inferInstanceAs (Decidable (∀ _, _))
  | .create | .suspend _ | .resume _ => inferInstanceAs (Decidable True)

def ApartStep (s : St) (a : Act) (t : St) : Prop := next s a = some t ∧ Apart s a

/-- A thread that has been stopped is in a state where it is not selected. -/
structure Stopped (s : St) : Prop where
  exited : ∀ t, s.exited t = true → (s.thread t).state = .FREE
  suspended : ∀ t, s.suspended t = true → (s.thread t).state = .WAIT
  current : (s.thread s.current).state ≠ .FREE

variable {s s' : St} {a : Act} {t : Slot}

lemma stopped_init : Stopped init where
  exited _ h := nomatch h
  suspended _ h := nomatch h
  current := by decide

lemma state_setState (s : St) (t t' : Slot) (x : State) :
    ((s.setState t x).thread t').state = if t' = t then x else (s.thread t').state := by
  unfold St.setState
  by_cases ht : t' = t
  · simp [ht]
  · simp [ht]

/-- A thread gets a state that fits its history. -/
lemma Stopped.setState (h : Stopped s) {e u : Slot → Bool} (he : ∀ t', t' ≠ t → e t' = s.exited t')
    (hu : ∀ t', t' ≠ t → u t' = s.suspended t') (hx : e t = true → x = .FREE)
    (hx' : u t = true → x = .WAIT) (hc : t = s.current → x ≠ .FREE) :
    Stopped { s.setState t x with exited := e, suspended := u } := by
  refine ⟨fun t' h' => ?_, fun t' h' => ?_, ?_⟩
  all_goals
    dsimp only at *
    rw [state_setState]
    split_ifs with ht
  · exact hx (ht ▸ h')
  · exact h.exited t' (he t' ht ▸ h')
  · exact hx' (ht ▸ h')
  · exact h.suspended t' (hu t' ht ▸ h')
  · exact hc ht.symm
  · exact h.current

/-- A thread in a state other than `FREE` and `WAIT` has not been stopped. -/
lemma Stopped.going (h : Stopped s) (hf : (s.thread t).state ≠ .FREE)
    (hw : (s.thread t).state ≠ .WAIT) : s.exited t = false ∧ s.suspended t = false := by
  constructor
  · by_contra he
    exact hf (h.exited t (by simpa using he))
  · by_contra hu
    exact hw (h.suspended t (by simpa using hu))

/-- A thread that has not been stopped runs, or may run. -/
lemma Stopped.wake (h : Stopped s) (he : s.exited t = false) (hu : s.suspended t = false)
    (hx : x ≠ .FREE) : Stopped (s.setState t x) := by
  refine h.setState (e := s.exited) (u := s.suspended) (fun _ _ => rfl) (fun _ _ => rfl) ?_ ?_
    fun _ => hx
  · rw [he]
    nofun
  · rw [hu]
    nofun

/-- What is selected has not been stopped. -/
lemma Stopped.selected (h : Stopped s) (ht : selected s = some t) :
    s.exited t = false ∧ s.suspended t = false := by
  have hrun : (s.thread t).state = .RUNNABLE := of_decide_eq_true (pick_runnable ht)
  refine h.going ?_ ?_
  · rw [hrun]
    nofun
  · rw [hrun]
    nofun

lemma Stopped.yielding (h : Stopped s) (hw : (s.thread s.current).state ≠ .WAIT) :
    Stopped (yielding s) := by
  obtain ⟨he, hu⟩ := h.going h.current hw
  exact h.wake he hu nofun

lemma Stopped.schedule (h : Stopped s) {esp : UInt32} (hs : s.exited s.current = false)
    (hs' : s.suspended s.current = false) (ht : threadSchedule s esp = some s') : Stopped s' := by
  obtain ⟨nx, hsel, rfl⟩ := Option.map_eq_some_iff.mp ht
  obtain ⟨he, hu⟩ := h.selected hsel
  split_ifs with hne
  · have hmid := (h.wake he hu (x := .RUNNING) nofun).wake (t := s.current) hs hs'
      (x := .RUNNABLE) nofun
    have hstate (t : Slot) : ((threadSwitch ((s.setState nx .RUNNING).setState s.current .RUNNABLE)
        esp nx).thread t).state =
          (((s.setState nx .RUNNING).setState s.current .RUNNABLE).thread t).state := by
      unfold threadSwitch
      by_cases htc : t = ((s.setState nx .RUNNING).setState s.current .RUNNABLE).current
      · simp [htc]
      · simp [htc]
    refine ⟨fun t h' => ?_, fun t h' => ?_, ?_⟩
    · rw [hstate]
      exact hmid.exited t h'
    · rw [hstate]
      exact hmid.suspended t h'
    · rw [hstate]
      change (((s.setState nx .RUNNING).setState s.current .RUNNABLE).thread nx).state ≠ .FREE
      rw [state_setState, state_setState, if_neg (Ne.symm hne), if_pos rfl]
      nofun
  · exact h

/-- Under the condition, `thread_exit` is the end of the process. -/
lemma selected_exiting (h : ∀ t, t ≠ s.current → (s.thread t).state ≠ .RUNNABLE) :
    Uthread3.selected (exiting s) = none := by
  have hstate (t : Slot) : ((exiting s).thread t).state =
      if t = s.current then .FREE else (s.thread t).state := state_setState s s.current t .FREE
  refine pick_eq_none (fun t ht => ?_) ?_
  · rw [hstate, if_neg (show t ≠ s.current from ht)]
    simpa using h t ht
  · rw [hstate, if_pos (show (exiting s).current = s.current from rfl)]
    rfl

lemma Stopped.create (h : Stopped s) : Stopped (threadCreate s).2 := by
  unfold threadCreate
  cases hf : (List.finRange MAX_THREAD).find? fun t => (s.thread t).state = .FREE with
  | none => exact h
  | some t =>
    have hfree : (s.thread t).state = .FREE := by simpa using List.find?_some hf
    have hne : t ≠ s.current := fun he => h.current (he ▸ hfree)
    have hother (t' : Slot) (ht : t' ≠ t) :
        (update s.thread t ⟨s.globalTid, .RUNNABLE⟩ t') = s.thread t' :=
      update_of_ne ht _ _
    refine ⟨fun t' h' => ?_, fun t' h' => ?_, ?_⟩
    · by_cases ht : t' = t
      · simp [ht] at h'
      · simp only [update_of_ne ht] at h' ⊢
        exact h.exited t' h'
    · by_cases ht : t' = t
      · simp [ht] at h'
      · simp only [update_of_ne ht] at h' ⊢
        exact h.suspended t' h'
    · dsimp only
      rw [hother _ (Ne.symm hne)]
      exact h.current

lemma Stopped.suspend (h : Stopped s) (tid : UInt32) : Stopped (threadSuspend s tid) := by
  unfold threadSuspend
  cases named s tid with
  | none => exact h
  | some t =>
    dsimp only
    split_ifs with hst
    · have hf : (s.thread t).state ≠ .FREE := by
        rcases hst with hst | hst
        all_goals
          rw [hst]
          nofun
      refine h.setState (e := s.exited) (fun _ _ => rfl) (fun t' ht => update_of_ne ht _ _)
        (fun he => (hf (h.exited t he)).elim) (fun _ => rfl) fun _ => nofun
    · exact h

lemma Stopped.resume (h : Stopped s) (tid : UInt32) : Stopped (threadResume s tid) := by
  unfold threadResume
  cases named s tid with
  | none => exact h
  | some t =>
    dsimp only
    split_ifs with hw
    · refine h.setState (e := s.exited) (fun _ _ => rfl) (fun t' ht => update_of_ne ht _ _)
        (fun he => ?_) (fun hu => ?_) fun _ => nofun
      · rw [h.exited t he] at hw
        cases hw
      · rw [update_self] at hu
        cases hu
    · refine ⟨h.exited, fun t' h' => ?_, h.current⟩
      by_cases ht : t' = t
      · simp [ht] at h'
      · simp only [update_of_ne ht] at h'
        exact h.suspended t' h'

lemma Stopped.step (h : Stopped s) (hst : ApartStep s a s') : Stopped s' := by
  obtain ⟨hn, ha⟩ := hst
  cases a with
  | create => exact Option.some.inj hn ▸ h.create
  | yield esp =>
    obtain ⟨he, hu⟩ := h.going h.current ha
    exact (h.yielding ha).schedule he hu hn
  | exit esp =>
    obtain ⟨t, ht, -⟩ := Option.map_eq_some_iff.mp hn
    rw [selected_exiting ha] at ht
    cases ht
  | suspend tid => exact Option.some.inj hn ▸ h.suspend tid
  | resume tid => exact Option.some.inj hn ▸ h.resume tid

/-- **Threads that have exited or are suspended stay stopped**, in runs where no thread yields while
it is suspended and none exits while another is runnable: whatever call comes next, if it keeps to
that, `thread_schedule` selects neither. -/
theorem stopped_not_selected (h : Reach ApartStep init s) (ha : Apart s a) {s₁ : St}
    (hs : scheduling s a = some s₁) (ht : selected s₁ = some t) :
    s₁.exited t = false ∧ s₁.suspended t = false := by
  have hstop : Stopped s := h.inv stopped_init fun _ _ _ h hst => h.step hst
  cases a with
  | yield esp =>
    cases hs
    exact (hstop.yielding ha).selected ht
  | exit esp =>
    cases hs
    rw [selected_exiting ha] at ht
    cases ht
  | create | suspend | resume => cases hs

/-- A second thread is created, and suspended while the first goes on. -/
theorem stopped_not_selected_first : ∃ s s₁ t, Reach ApartStep init s ∧ s.suspended 1 = true ∧
    scheduling s (.yield 0) = some s₁ ∧ selected s₁ = some t ∧ s₁.suspended t = false := by
  obtain ⟨s, hr, hsusp, hap, hsel⟩ : ∃ s, Reach ApartStep init s ∧ s.suspended 1 = true ∧
      Apart s (.yield 0) ∧ selected (yielding s) = some 0 :=
    guarded_any [.create, .suspend 1] (by decide +kernel) fun _ _ => id
  exact ⟨s, yielding s, 0, hr, hsusp, rfl, hsel, (stopped_not_selected hr hap rfl hsel).2⟩

/-- The first thread suspends itself and is selected when the timer makes it yield. It exits while
another thread is runnable, and is selected when that one yields. -/
theorem stopped_selected :
    (∃ s, exec next init [.suspend 0] = some s ∧ s.suspended 0 = true ∧
      selected (yielding s) = some 0 ∧ (yielding s).suspended 0 = true) ∧
    ∃ s, exec next init [.create, .exit 0x3000] = some s ∧ s.exited 0 = true ∧
      selected (yielding s) = some 0 ∧ (yielding s).exited 0 = true := by
  constructor
  · exact exists_any (by decide +kernel)
  · exact exists_any (by decide +kernel)

end Xv6.Uthread3
