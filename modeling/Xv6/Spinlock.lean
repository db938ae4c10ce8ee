import Xv6.Lib.Run

/-!
Interrupts and spinlocks, `spinlock.c`: what a kernel thread does to the CPU it runs on. In `sched`
it leaves the CPU and comes back on one, maybe another, whose `intena` other threads have used.
-/

namespace Xv6.Spinlock

open Xv6.Lib.Run

/-- `FL_IF`, and the fields of `struct cpu` for it. -/
structure Cpu where
  fl : Bool
  ncli : ℤ
  intena : Bool

def pushcli (c : Cpu) : Cpu where
  fl := false
  ncli := c.ncli + 1
  intena := if c.ncli = 0 then c.fl else c.intena

/-- `none` is a panic. -/
def popcli (c : Cpu) : Option Cpu :=
  let ncli := c.ncli - 1
  if c.fl ∨ ncli < 0 then none
  else some { c with ncli, fl := c.fl || ncli = 0 && c.intena }

/-- `pushed` counts the calls of `pushcli` alone; `held` are the locks with the CPU in `lk->cpu`. -/
structure St (L : Type*) where
  cpu : Cpu
  pushed : ℕ
  held : List L

inductive Call (L : Type*)
  | pushcli
  | popcli
  | acquire (lk : L)
  | release (lk : L)
  | sched (running : Bool) (next : Cpu)

variable {L : Type*} [DecidableEq L] {ptable : L} {f i : Bool} {c : Cpu} {s : St L} {a : Call L}

/-- A call that returns, from `swtch` on the CPU `next`. -/
def step (ptable : L) (s : St L) : Call L → Option (St L)
  | .pushcli => some { s with cpu := pushcli s.cpu, pushed := s.pushed + 1 }
  | .popcli => (popcli s.cpu).map fun cpu => { s with cpu, pushed := s.pushed - 1 }
  | .acquire lk =>
    if lk ∈ s.held then none else some { s with cpu := pushcli s.cpu, held := lk :: s.held }
  | .release lk =>
    if lk ∉ s.held then none
    else (popcli s.cpu).map fun cpu => { s with cpu, held := s.held.erase lk }
  | .sched running next =>
    if ptable ∉ s.held ∨ s.cpu.ncli ≠ 1 ∨ running ∨ s.cpu.fl then none
    else some { s with cpu := { next with intena := s.cpu.intena } }

/-- Calls come in pairs, and `swtch` is called and returns with `ptable.lock` alone. -/
def Ok (ptable : L) (s : St L) : Call L → Prop
  | .pushcli => True
  | .popcli => 0 < s.pushed
  | .acquire lk => lk ∉ s.held
  | .release lk => lk ∈ s.held
  | .sched running next =>
    s.held = [ptable] ∧ s.pushed = 0 ∧ running = false ∧ next.ncli = 1 ∧ next.fl = false

/-- The flag was `f` before the first `pushcli`. -/
structure Inv (f : Bool) (s : St L) : Prop where
  depth : s.cpu.ncli = s.pushed + s.held.length
  off : s.cpu.ncli ≠ 0 → s.cpu.fl = false ∧ s.cpu.intena = f
  back : s.cpu.ncli = 0 → s.cpu.fl = f

lemma popcli_eq (hn : 0 < c.ncli) (hf : c.fl = false) :
    popcli c = some ⟨c.ncli - 1 = 0 && c.intena, c.ncli - 1, c.intena⟩ := by
  grind [popcli]

lemma Inv.step (h : Inv f s) (ha : Ok ptable s a) :
    ∃ t, step ptable s a = some t ∧ Inv f t := by
  obtain ⟨hd, ho, hb⟩ := h
  rcases a with _ | _ | lk | lk | ⟨running, next⟩ <;> simp only [Ok, Spinlock.step] at ha ⊢
  · exact ⟨_, rfl, by grind [pushcli], by grind [pushcli], by grind [pushcli]⟩
  · rw [popcli_eq (by omega) (ho (by omega)).1]
    exact ⟨_, rfl, by grind, by grind, by grind⟩
  · exact ⟨_, if_neg ha, by grind [pushcli], by grind [pushcli], by grind [pushcli]⟩
  · have hlen := List.length_erase_add_one ha
    rw [if_neg (not_not_intro ha), popcli_eq (by omega) (ho (by omega)).1]
    exact ⟨_, rfl, by grind, by grind, by grind⟩
  · -- the other CPU gets the `intena` of the thread
    exact ⟨_, if_neg (by grind), by grind, by grind, by grind⟩

/-- **Interrupts are off while a lock is held**, whatever a thread calls and wherever it runs; no
call panics, and after the last `popcli` the flag is what it was. -/
theorem interrupts_off
    (hr : Reach (fun s a t => step ptable s a = some t ∧ Ok ptable s a) ⟨⟨f, 0, i⟩, 0, []⟩ s) :
    Inv f s ∧ ∀ a, Ok ptable s a → step ptable s a ≠ none := by
  have hI : Inv f s := by
    refine hr.inv (by constructor <;> simp) fun s a t h hst => ?_
    obtain ⟨u, hu, hI⟩ := h.step hst.2
    cases hst.1.symm.trans hu
    exact hI
  refine ⟨hI, fun a ha => ?_⟩
  obtain ⟨t, ht, -⟩ := hI.step ha
  simp [ht]

/-- `yield`, back on a CPU where `intena` was `0`. -/
theorem interrupts_off_yield : Inv true (⟨⟨true, 0, true⟩, 0, []⟩ : St Unit) :=
  (@interrupts_off _ _ () _ false _ (.head (a := .acquire ()) ⟨rfl, by simp [Ok]⟩
    (.head (a := .sched false ⟨false, 1, false⟩) ⟨rfl, by simp [Ok]⟩
      (.head (a := .release ()) ⟨rfl, by simp [Ok]⟩ .refl)))).1

end Xv6.Spinlock
