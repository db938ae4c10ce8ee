import Xv6.Lib.Memory
import Xv6.UthreadStates

/-!
Switching between user threads, in memory: `uthread_switch.S` with the thread structures of
`uthread1.c`, `uthread3.c` and `uthread4.c`.

The assembly takes the saved stack pointer to be the first word of the structure. The calls of
`thread_create`, `thread_schedule` and `thread_yield` are steps, and so are the stores and other
instructions of the threads between them. The main thread runs on the stack of the process.
-/

namespace Xv6.UthreadSwitch

open Xv6.Lib.Run Xv6.Lib.Memory
open Xv6.Uthread3 (pick pick_runnable)
open Function (update update_of_ne update_self)

inductive Program
  | uthread1
  | uthread3
  | uthread4
  deriving DecidableEq

def STACK_SIZE : ℕ := 8192

/-- `MAX_THREAD`, `sizeof(struct thread)`, and where its fields are. -/
structure Layout where
  max : ℕ
  size : ℕ
  sp : ℕ
  stack : ℕ
  state : ℕ
  pos : 0 < max
  sp_stack : sp + 4 ≤ stack
  stack_state : stack + STACK_SIZE ≤ state
  state_size : state + 4 ≤ size

def Program.layout : Program → Layout
  | .uthread1 => ⟨4, 8200, 0, 4, 8196, by decide, by decide, by decide, by decide⟩
  | .uthread3 => ⟨10, 8204, 4, 8, 8200, by decide, by decide, by decide, by decide⟩
  | .uthread4 => ⟨10, 8208, 8, 12, 8204, by decide, by decide, by decide, by decide⟩

def FREE : UInt32 := 0
def RUNNING : UInt32 := 1
def RUNNABLE : UInt32 := 2

/-- `all_thread` is at `base`, and the stack of the process from `lo` to `hi`. -/
structure Image (L : Layout) where
  base : ℕ
  lo : ℕ
  hi : ℕ
  fits : base + L.max * L.size < 2 ^ 32
  hi_lt : hi < 2 ^ 32
  apart : base + L.max * L.size ≤ lo ∨ hi ≤ base

structure Regs where
  eax : UInt32
  ecx : UInt32
  edx : UInt32
  ebx : UInt32
  ebp : UInt32
  esi : UInt32
  edi : UInt32

structure Cpu where
  regs : Regs
  esp : UInt32
  eip : UInt32

/-- What a thread that is not running should go on with: the function it was created for, or the
registers and the return address with which it called `thread_switch`. -/
inductive Context
  | created (func : UInt32)
  | out (cpu : Cpu) (ret : UInt32)

/-- `global_tid` is that of `uthread3.c`, and `context` is history. -/
structure St (L : Layout) where
  mem : Mem
  current : Fin L.max
  globalTid : UInt32
  cpu : Cpu
  context : Fin L.max → Option Context

inductive Act
  | create (func : UInt32)
  | schedule
  | yield
  | store (a : ℕ) (b : UInt8)
  | exec (cpu : Cpu)

section Code

variable {L : Layout} (I : Image L)

/-- `&all_thread[t]` -/
def Image.addr (t : ℕ) : ℕ := I.base + t * L.size

/-- `t->stack + STACK_SIZE` -/
def Image.top (t : ℕ) : ℕ := I.addr t + L.stack + STACK_SIZE

def stateOf (m : Mem) (t : ℕ) : UInt32 := word m (I.addr t + L.state)

def setState (m : Mem) (t : ℕ) (v : UInt32) : Mem := store m (I.addr t + L.state) v

/-- `tid` and `ptid`, the first fields of the structure in `uthread3.c` and `uthread4.c`. -/
def setIds (p : Program) (m : Mem) (current t : ℕ) (globalTid : UInt32) : Mem :=
  match p with
  | .uthread1 => m
  | .uthread3 => store m (I.addr t) globalTid
  | .uthread4 => store (store m (I.addr t) (.ofNat t)) (I.addr t + 4) (word m (I.addr current))

/-- What `thread_create` does with the slot it has found. -/
def prepare (p : Program) (m : Mem) (current t : ℕ) (globalTid func : UInt32) : Mem :=
  let m := store m (I.addr t + L.sp) (.ofNat (I.top t - 36))
  let m := setIds I p m current t globalTid
  let m := store m (I.top t - 4) func
  let m := if p = .uthread4 then put m (I.top t - 36) (List.replicate 32 0) else m
  setState I m t RUNNABLE

/-- Without a free slot, `uthread1.c` and `uthread4.c` go on past the end of the array. -/
def threadCreate (p : Program) (s : St L) (func : UInt32) : St L :=
  match (List.finRange L.max).find? fun t : Fin L.max => stateOf I s.mem t = FREE with
  | some t => { s with
      mem := prepare I p s.mem s.current t s.globalTid func
      globalTid := s.globalTid + 1
      context := update s.context t (some (.created func)) }
  | none =>
    if p = .uthread3 then s
    else { s with mem := prepare I p s.mem s.current L.max s.globalTid func }

/-- `pushal`, down to the address `a`. -/
def pushal (m : Mem) (a : ℕ) (c : Cpu) : Mem :=
  let m := store m (a + 28) c.regs.eax
  let m := store m (a + 24) c.regs.ecx
  let m := store m (a + 20) c.regs.edx
  let m := store m (a + 16) c.regs.ebx
  let m := store m (a + 12) c.esp
  let m := store m (a + 8) c.regs.ebp
  let m := store m (a + 4) c.regs.esi
  store m a c.regs.edi

def popal (m : Mem) (a : ℕ) : Regs where
  eax := word m (a + 28)
  ecx := word m (a + 24)
  edx := word m (a + 20)
  ebx := word m (a + 16)
  ebp := word m (a + 8)
  esi := word m (a + 4)
  edi := word m a

/-- `pushal`, and `movl %esp, (%eax)` with `current_thread` in `%eax`. -/
def switchOut (s : St L) : Mem :=
  let esp := s.cpu.esp - 32
  store (pushal s.mem esp.toNat s.cpu) (I.addr s.current) esp

/-- `movl (%eax), %esp` with `next_thread` in `%eax`. -/
def loaded (s : St L) (next : Fin L.max) : UInt32 := word (switchOut I s) (I.addr next)

/-- `popal` and `ret` end the switch. -/
def threadSwitch (s : St L) (next : Fin L.max) : St L :=
  let m := switchOut I s
  let esp := loaded I s next
  { s with
    mem := m
    current := next
    cpu := ⟨popal m esp.toNat, esp + 36, word m (esp.toNat + 32)⟩
    context := update s.context s.current
      (some (.out s.cpu (word s.mem s.cpu.esp.toNat))) }

def selected (s : St L) : Option (Fin L.max) :=
  pick (fun t => decide (stateOf I s.mem t = RUNNABLE)) s.current

/-- The states that `thread_schedule` sets before it switches. -/
def marked (p : Program) (s : St L) (next : Fin L.max) : St L :=
  let m := setState I s.mem next RUNNING
  { s with mem := if p = .uthread1 then m else setState I m s.current RUNNABLE }

/-- `none` when no thread is runnable and the process exits. -/
def threadSchedule (p : Program) (s : St L) : Option (St L) :=
  (selected I s).map fun next =>
    if s.current ≠ next then threadSwitch I (marked I p s next) next else s

/-- The state in which `thread_yield` calls `thread_schedule`. -/
def yielding (s : St L) : St L := { s with mem := setState I s.mem s.current RUNNABLE }

def next (p : Program) (s : St L) : Act → Option (St L)
  | .create func => some (threadCreate I p s func)
  | .schedule => threadSchedule I p s
  | .yield => threadSchedule I p (yielding I s)
  | .store a b => some { s with mem := update s.mem a b }
  | .exec cpu => some { s with cpu := cpu }

/-- The state in which a call calls `thread_schedule`. -/
def scheduling (s : St L) : Act → Option (St L)
  | .schedule => some s
  | .yield => some (yielding I s)
  | .create _ | .store _ _ | .exec _ => none

/-- After `thread_init`, in a process whose static data are zero. -/
def init (m : Mem) (cpu : Cpu) : St L where
  mem := setState I (fun x => if I.base ≤ x ∧ x < I.base + L.max * L.size then 0 else m x) 0 RUNNING
  current := ⟨0, L.pos⟩
  globalTid := 1
  cpu := cpu
  context _ := none

/-! ### What belongs to a thread -/

/-- The stack on which a thread runs. -/
def Image.low (t : ℕ) : ℕ := if t = 0 then I.lo else I.addr t + L.stack
def Image.high (t : ℕ) : ℕ := if t = 0 then I.hi else I.top t

/-- What the thread needs in order to go on: its saved stack pointer and its stack. -/
def Image.Foot (t x : ℕ) : Prop :=
  (I.addr t + L.sp ≤ x ∧ x < I.addr t + L.sp + 4) ∨ (I.low t ≤ x ∧ x < I.high t)

/-- The structure and the stack. -/
def Image.Home (t x : ℕ) : Prop :=
  (I.addr t ≤ x ∧ x < I.addr t + L.size) ∨ (I.low t ≤ x ∧ x < I.high t)

instance (t x : ℕ) : Decidable (I.Home t x) := inferInstanceAs (Decidable (_ ∨ _))

/-- The thread has room for the registers, and its return address, on its own stack. -/
def OnStack (s : St L) : Prop :=
  I.low s.current + 32 ≤ s.cpu.esp.toNat ∧ s.cpu.esp.toNat + 4 ≤ I.high s.current

instance (s : St L) : Decidable (OnStack I s) := inferInstanceAs (Decidable (_ ∧ _))

/-- Threads keep to their own stacks, `thread_create` finds a slot or looks whether it has, and a
switch is made only where the saved stack pointer comes first in the structure. -/
def Kept (p : Program) (s : St L) : Act → Prop
  | .create _ => p = .uthread3 ∨ ∃ t : Fin L.max, stateOf I s.mem t = FREE
  | .schedule => OnStack I s ∧ ∀ t, selected I s = some t → t = s.current ∨ L.sp = 0
  | .yield => OnStack I s ∧ ∀ t, selected I (yielding I s) = some t → t = s.current ∨ L.sp = 0
  | .store a _ => (I.low s.current ≤ a ∧ a < I.high s.current) ∨ ∀ t : Fin L.max, ¬ I.Home t a
  | .exec _ => True

instance (p : Program) (s : St L) (a : Act) : Decidable (Kept I p s a) :=
  match a with
  | .create _ => inferInstanceAs (Decidable (_ ∨ _))
  | .schedule | .yield => inferInstanceAs (Decidable (_ ∧ _))
  | .store _ _ => inferInstanceAs (Decidable (_ ∨ _))
  | .exec _ => inferInstanceAs (Decidable True)

def KeptStep (p : Program) (s : St L) (a : Act) (s' : St L) : Prop :=
  next I p s a = some s' ∧ Kept I p s a

end Code

variable {L : Layout} {I : Image L} {p : Program} {s s' : St L} {t t' : Fin L.max} {m m' : Mem}
  {x : ℕ}

lemma addr_add_le (I : Image L) {i j : ℕ} (h : i < j) : I.addr i + L.size ≤ I.addr j := by
  have hmul : (i + 1) * L.size ≤ j * L.size := Nat.mul_le_mul_right _ h
  rw [Nat.succ_mul] at hmul
  unfold Image.addr
  omega

lemma addr_in (I : Image L) (t : Fin L.max) :
    I.base ≤ I.addr t ∧ I.addr t + L.size ≤ I.base + L.max * L.size := by
  have hle := addr_add_le I t.isLt
  unfold Image.addr at hle ⊢
  omega

lemma top_le (I : Image L) (t : Fin L.max) : I.top t + 4 ≤ I.addr t + L.size := by
  have h1 := L.stack_state
  have h2 := L.state_size
  unfold Image.top
  omega

/-- A stack is in the structure of its thread, above the saved stack pointer, or apart from all. -/
lemma stack_place (I : Image L) (t : Fin L.max) (h : I.low t ≤ x ∧ x < I.high t) :
    (I.addr t + L.stack ≤ x ∧ x < I.addr t + L.state) ∨
      x < I.base ∨ I.base + L.max * L.size ≤ x := by
  have hs := L.stack_state
  have hap := I.apart
  unfold Image.low Image.high at h
  split_ifs at h
  · omega
  · unfold Image.top at h
    omega

lemma home_of_foot (h : I.Foot t x) : I.Home t x := by
  have h1 := L.sp_stack
  have h2 := L.stack_state
  have h3 := L.state_size
  rcases h with h | h
  · exact Or.inl (by omega)
  · exact Or.inr h

lemma home_disjoint (hne : t ≠ t') (h : I.Home t x) : ¬ I.Home t' x := by
  have hin := addr_in I t
  have hin' := addr_in I t'
  have hap := I.apart
  have hval : t.val ≠ t'.val := fun he => hne (Fin.ext he)
  -- the structures are apart
  have hstruct : I.addr t + L.size ≤ I.addr t' ∨ I.addr t' + L.size ≤ I.addr t := by
    rcases Nat.lt_or_gt_of_ne hval with hlt | hgt
    · exact Or.inl (addr_add_le I hlt)
    · exact Or.inr (addr_add_le I hgt)
  have hs := L.stack_state
  have hz := L.state_size
  have hstack {i : Fin L.max} (hi : I.low i ≤ x ∧ x < I.high i) :
      (I.addr i ≤ x ∧ x < I.addr i + L.size) ∨ i.val = 0 ∧
        (x < I.base ∨ I.base + L.max * L.size ≤ x) := by
    unfold Image.low Image.high at hi
    split_ifs at hi with h0
    · exact Or.inr ⟨h0, by omega⟩
    · unfold Image.top at hi
      exact Or.inl (by omega)
  intro h'
  rcases h with h | h
  · rcases h' with h' | h'
    · omega
    · rcases hstack h' with h' | h'
      · omega
      · omega
  · rcases hstack h with h | h
    · rcases h' with h' | h'
      · omega
      · rcases hstack h' with h' | h'
        · omega
        · omega
    · rcases h' with h' | h'
      · omega
      · rcases hstack h' with h' | h'
        · omega
        · omega

/-- The state of a thread is not among what any thread needs to go on. -/
lemma not_foot_state (h : I.addr t + L.state ≤ x ∧ x < I.addr t + L.state + 4) : ¬ I.Foot t' x := by
  have hsz := L.state_size
  have hsp := L.sp_stack
  have hst := L.stack_state
  have hin := addr_in I t
  intro hf
  by_cases hne : t = t'
  · subst hne
    rcases hf with hf | hf
    · omega
    · rcases stack_place I t hf with h' | h'
      · omega
      · omega
  · exact home_disjoint hne (Or.inl (by omega)) (home_of_foot hf)

/-! ### A thread that can go on -/

def Context.sp (I : Image L) (t : ℕ) : Context → UInt32
  | .created _ => .ofNat (I.top t - 36)
  | .out cpu _ => cpu.esp - 32

/-- Where the thread goes on, and with which stack and registers. -/
def Context.eip : Context → UInt32
  | .created func => func
  | .out _ ret => ret

def Context.esp (I : Image L) (t : ℕ) : Context → UInt32
  | .created _ => .ofNat (I.top t)
  | .out cpu _ => cpu.esp + 4

def Context.regs : Context → Option Regs
  | .created _ => none
  | .out cpu _ => some cpu.regs

/-- The context is in memory, on the stack of the thread. -/
structure Ready (I : Image L) (m : Mem) (t : ℕ) (c : Context) : Prop where
  sp : word m (I.addr t + L.sp) = c.sp I t
  low : I.low t ≤ (c.sp I t).toNat
  high : (c.sp I t).toNat + 36 ≤ I.high t
  ret : word m ((c.sp I t).toNat + 32) = c.eip
  regs : ∀ r, c.regs = some r → popal m (c.sp I t).toNat = r

lemma popal_congr {a : ℕ} (h : ∀ x, a ≤ x → x < a + 32 → m' x = m x) : popal m' a = popal m a := by
  have hw (i : ℕ) (hi : i + 4 ≤ 32) : word m' (a + i) = word m (a + i) :=
    word_congr fun x h1 h2 => h x (by omega) (by omega)
  unfold popal
  rw [hw 28 (by omega), hw 24 (by omega), hw 20 (by omega), hw 16 (by omega), hw 8 (by omega),
    hw 4 (by omega), show word m' a = word m a from hw 0 (by omega)]

lemma Ready.congr {c : Context} (h : Ready I m t c) (hm : ∀ x, I.Foot t x → m' x = m x) :
    Ready I m' t c := by
  have hlow := h.low
  have hhigh := h.high
  refine ⟨?_, h.low, h.high, ?_, fun r hr => ?_⟩
  · rw [← h.sp]
    exact word_congr fun x h1 h2 => hm x (Or.inl ⟨h1, h2⟩)
  · rw [← h.ret]
    exact word_congr fun x h1 h2 => hm x (Or.inr (by omega))
  · rw [← h.regs r hr]
    exact popal_congr fun x h1 h2 => hm x (Or.inr (by omega))

/-- Threads that are not running can go on, if they have been created or have run. -/
structure Inv (I : Image L) (s : St L) : Prop where
  ready : ∀ t, t ≠ s.current → ∀ c, s.context t = some c → Ready I s.mem t c
  runnable : ∀ t, t ≠ s.current → stateOf I s.mem t = RUNNABLE → s.context t ≠ none
  used : ∀ t, t.val = 0 ∨ t = s.current → stateOf I s.mem t ≠ FREE

/-! ### States -/

lemma stateOf_congr (h : ∀ x, I.addr t + L.state ≤ x → x < I.addr t + L.state + 4 → m' x = m x) :
    stateOf I m' t = stateOf I m t := word_congr h

lemma stateOf_setState (I : Image L) (m : Mem) (t t' : Fin L.max) (v : UInt32) :
    stateOf I (setState I m t v) t' = if t' = t then v else stateOf I m t' := by
  split_ifs with ht
  · subst ht
    exact word_store ..
  · have hsz := L.state_size
    refine word_store_of_disjoint ?_
    rcases Nat.lt_or_gt_of_ne (fun he => ht (Fin.ext he) : t'.val ≠ t.val) with hlt | hgt
    · have hle := addr_add_le I hlt
      omega
    · have hle := addr_add_le I hgt
      omega

/-- A thread gets another state. -/
lemma Inv.restate (h : Inv I s) {v : UInt32} (hv : v ≠ FREE)
    (hr : t ≠ s.current → v = RUNNABLE → s.context t ≠ none) :
    Inv I { s with mem := setState I s.mem t v } := by
  refine ⟨fun t' ht c hc => ?_, fun t' ht hst => ?_, fun t' ht => ?_⟩
  · refine (h.ready t' ht c hc).congr fun x hx => store_of_disjoint ?_
    by_contra hin
    exact not_foot_state (t := t) (by omega) hx
  · dsimp only at hst ht
    rw [stateOf_setState] at hst
    split_ifs at hst with htt
    · exact htt ▸ hr (htt ▸ ht) hst
    · exact h.runnable t' ht hst
  · dsimp only at ht ⊢
    rw [stateOf_setState]
    split_ifs
    · exact hv
    · exact h.used t' ht

/-- The running thread stores a byte on its stack, or where no thread has anything. -/
lemma Inv.write (h : Inv I s) {a : ℕ} {b : UInt8}
    (ha : (I.low s.current ≤ a ∧ a < I.high s.current) ∨ ∀ t : Fin L.max, ¬ I.Home t a) :
    Inv I { s with mem := update s.mem a b } := by
  have hother {t : Fin L.max} (ht : t ≠ s.current) : ¬ I.Home t a := by
    rcases ha with ha | ha
    · exact home_disjoint (Ne.symm ht) (Or.inr ha)
    · exact ha t
  have hsz := L.state_size
  have hst := L.stack_state
  have hstate (t : Fin L.max) :
      stateOf I (update s.mem a b) t = stateOf I s.mem t := by
    refine stateOf_congr fun x h1 h2 => update_of_ne ?_ _ _
    rintro rfl
    by_cases ht : t = s.current
    · subst ht
      rcases ha with ha | ha
      · have hin := addr_in I s.current
        rcases stack_place I s.current ha with h' | h'
        · omega
        · omega
      · exact ha s.current (Or.inl (by omega))
    · exact hother ht (Or.inl (by omega))
  refine ⟨fun t ht c hc => ?_, fun t ht hrun => ?_, fun t ht => ?_⟩
  · refine (h.ready t ht c hc).congr fun x hx => update_of_ne ?_ _ _
    rintro rfl
    exact hother ht (home_of_foot hx)
  · exact h.runnable t ht (hstate t ▸ hrun)
  · dsimp only
    rw [hstate]
    exact h.used t ht

/-! ### Creating a thread -/

/-- How much of the structure comes before `sp`. -/
def Program.ids : Program → ℕ
  | .uthread1 => 0
  | .uthread3 => 4
  | .uthread4 => 8

lemma setIds_of_disjoint (p : Program) {current t : ℕ} {g : UInt32}
    (h : x < I.addr t ∨ I.addr t + p.ids ≤ x) : setIds I p m current t g x = m x := by
  cases p with
  | uthread1 => rfl
  | uthread3 => exact store_of_disjoint h
  | uthread4 =>
    have h' : x < I.addr t ∨ I.addr t + 8 ≤ x := h
    unfold setIds
    dsimp only
    rw [store_of_disjoint (by omega), store_of_disjoint (by omega)]

lemma prepare_of_disjoint (I : Image L) (hp : p.ids ≤ L.sp) (m : Mem) (current : ℕ)
    (t : Fin L.max) (g func : UInt32) (h : x < I.addr t ∨ I.addr t + L.size ≤ x) :
    prepare I p m current t g func x = m x := by
  have h1 := L.sp_stack
  have h2 := L.stack_state
  have h3 := L.state_size
  have htop := top_le I t
  have hlow : I.addr t + 8192 ≤ I.top t := by unfold Image.top STACK_SIZE; omega
  unfold prepare setState
  rw [store_of_disjoint (by omega)]
  split_ifs
  · rw [put_of_disjoint (by simp; omega), store_of_disjoint (by omega),
      setIds_of_disjoint p (by omega),
      store_of_disjoint (by omega)]
  · rw [store_of_disjoint (by omega), setIds_of_disjoint p (by omega), store_of_disjoint (by omega)]

/-- The new thread is going to enter its function, at the top of its own stack. -/
lemma ready_prepare (I : Image L) (hp : p.ids ≤ L.sp) (m : Mem) (current : ℕ) {t : Fin L.max}
    (ht : t.val ≠ 0) (g func : UInt32) :
    Ready I (prepare I p m current t g func) t (.created func) := by
  have h1 := L.sp_stack
  have h2 := L.stack_state
  have htop := top_le I t
  have hin := addr_in I t
  have hfits := I.fits
  have hdef : I.top t = I.addr t + L.stack + 8192 := rfl
  have hsize : STACK_SIZE = 8192 := rfl
  have hsp : (Context.sp I t (.created func)).toNat = I.top t - 36 := by
    change (UInt32.ofNat (I.top t - 36)).toNat = _
    rw [UInt32.toNat_ofNat_of_lt']
    change _ < 2 ^ 32
    omega
  refine ⟨?_, ?_, ?_, ?_, nofun⟩
  · unfold prepare setState
    dsimp only
    rw [word_store_of_disjoint (by omega)]
    have hids : word (setIds I p (store m (I.addr t + L.sp) (.ofNat (I.top t - 36))) current t g)
        (I.addr t + L.sp) = .ofNat (I.top t - 36) :=
      (word_congr fun x h1 _ => setIds_of_disjoint p (Or.inr (by omega))).trans (word_store ..)
    split_ifs
    · rw [word_congr fun x _ _ => put_of_disjoint (Or.inl (by omega)),
        word_store_of_disjoint (by omega)]
      exact hids
    · rw [word_store_of_disjoint (by omega)]
      exact hids
  · rw [hsp]
    unfold Image.low
    rw [if_neg ht]
    omega
  · rw [hsp]
    unfold Image.high
    rw [if_neg ht]
    omega
  · rw [hsp]
    have hat : I.top t - 36 + 32 = I.top t - 4 := by omega
    unfold prepare setState
    dsimp only
    rw [hat, word_store_of_disjoint (by omega)]
    split_ifs
    · rw [word_congr fun x _ _ => put_of_disjoint (Or.inr (by simp; omega)), word_store]
      rfl
    · rw [word_store]
      rfl

lemma Inv.create (h : Inv I s) (hp : p.ids ≤ L.sp) {func : UInt32}
    (hk : p = .uthread3 ∨ ∃ t : Fin L.max, stateOf I s.mem t = FREE) :
    Inv I (threadCreate I p s func) := by
  unfold threadCreate
  cases hf : (List.finRange L.max).find? fun t : Fin L.max => stateOf I s.mem t = FREE with
  | none =>
    rcases hk with rfl | ⟨t, ht⟩
    · exact h
    · rw [List.find?_eq_none] at hf
      exact (hf t (List.mem_finRange t) (by simpa using ht)).elim
  | some t =>
    have hfree : stateOf I s.mem t = FREE := by simpa using List.find?_some hf
    have hzero : t.val ≠ 0 := fun he => h.used t (Or.inl he) hfree
    have hcur : t ≠ s.current := fun he => h.used t (Or.inr he) hfree
    have hsz := L.state_size
    -- nothing of another thread changes
    have hother {t' : Fin L.max} (ht : t' ≠ t) {x : ℕ} (hx : I.Home t' x) :
        prepare I p s.mem s.current t s.globalTid func x = s.mem x := by
      refine prepare_of_disjoint I hp s.mem s.current t s.globalTid func ?_
      by_contra hin
      exact home_disjoint ht hx (Or.inl (by omega))
    have hstate {t' : Fin L.max} (ht : t' ≠ t) :
        stateOf I (prepare I p s.mem s.current t s.globalTid func) t' = stateOf I s.mem t' :=
      stateOf_congr fun x h1 h2 => hother ht (Or.inl (by omega))
    refine ⟨fun t' ht' c hc => ?_, fun t' ht' hrun => ?_, fun t' ht' => ?_⟩
    · dsimp only at hc ⊢
      by_cases ht : t' = t
      · subst ht
        rw [update_self] at hc
        cases hc
        exact ready_prepare I hp s.mem s.current hzero s.globalTid func
      · rw [update_of_ne ht] at hc
        exact (h.ready t' ht' c hc).congr fun x hx => hother ht (home_of_foot hx)
    · dsimp only at hrun ⊢
      by_cases ht : t' = t
      · subst ht
        rw [update_self]
        nofun
      · rw [update_of_ne ht]
        exact h.runnable t' ht' (hstate ht ▸ hrun)
    · have ht : t' ≠ t := by
        rintro rfl
        exact h.used t' ht' hfree
      dsimp only
      rw [hstate ht]
      exact h.used t' ht'

/-! ### Switching -/

lemma pushal_of_disjoint {a : ℕ} {c : Cpu} (h : x < a ∨ a + 32 ≤ x) : pushal m a c x = m x := by
  unfold pushal
  rw [store_of_disjoint (by omega), store_of_disjoint (by omega), store_of_disjoint (by omega),
    store_of_disjoint (by omega), store_of_disjoint (by omega), store_of_disjoint (by omega),
    store_of_disjoint (by omega), store_of_disjoint (by omega)]

lemma popal_pushal (m : Mem) (a : ℕ) (c : Cpu) : popal (pushal m a c) a = c.regs := by
  unfold popal pushal
  simp (disch := omega) only [word_store, word_store_of_disjoint]

/-- What `switchOut` changes: the stack below the stack pointer and the first word of the
structure. -/
lemma switchOut_of_disjoint (hon : OnStack I s)
    (h1 : x < I.addr s.current ∨ I.addr s.current + 4 ≤ x)
    (h2 : x < s.cpu.esp.toNat - 32 ∨ s.cpu.esp.toNat ≤ x) : switchOut I s x = s.mem x := by
  have hle : (32 : UInt32) ≤ s.cpu.esp := by
    rw [UInt32.le_iff_toNat_le]
    exact le_trans (Nat.le_add_left _ _) hon.1
  have hsub : (s.cpu.esp - 32).toNat = s.cpu.esp.toNat - 32 := UInt32.toNat_sub_of_le _ _ hle
  have hon1 := hon.1
  unfold switchOut
  rw [store_of_disjoint h1, pushal_of_disjoint (by omega)]

lemma toNat_esp_sub (hon : OnStack I s) :
    (s.cpu.esp - 32).toNat = s.cpu.esp.toNat - 32 ∧ 32 ≤ s.cpu.esp.toNat := by
  have hle : 32 ≤ s.cpu.esp.toNat := le_trans (Nat.le_add_left _ _) hon.1
  exact ⟨UInt32.toNat_sub_of_le _ _ (UInt32.le_iff_toNat_le.mpr hle), hle⟩

/-- A stack does not reach the first word of the structure. -/
lemma stack_above (I : Image L) (t : Fin L.max) (h : I.low t ≤ x ∧ x < I.high t) :
    x < I.addr t ∨ I.addr t + 4 ≤ x := by
  have h1 := L.sp_stack
  have h2 := L.stack_state
  have h3 := L.state_size
  have hin := addr_in I t
  rcases stack_place I t h with h' | h'
  · omega
  · omega

/-- The thread that stops is ready to go on after its call. -/
lemma ready_switchOut (hsp : L.sp = 0) (hon : OnStack I s) :
    Ready I (switchOut I s) s.current (.out s.cpu (word s.mem s.cpu.esp.toNat)) := by
  obtain ⟨hsub, h32⟩ := toNat_esp_sub hon
  have hlow := hon.1
  have hhigh := hon.2
  have habove {x : ℕ} (h1 : s.cpu.esp.toNat - 32 ≤ x) (h2 : x < s.cpu.esp.toNat + 4) :
      x < I.addr s.current ∨ I.addr s.current + 4 ≤ x :=
    stack_above I s.current (by omega)
  have hctx : Context.sp I s.current (.out s.cpu (word s.mem s.cpu.esp.toNat)) = s.cpu.esp - 32 :=
    rfl
  refine ⟨?_, ?_, ?_, ?_, fun r hr => ?_⟩
  · rw [hsp]
    exact word_store ..
  · rw [hctx, hsub]
    omega
  · rw [hctx, hsub]
    omega
  · rw [hctx, hsub, Nat.sub_add_cancel h32]
    exact word_congr fun x h1 h2 => switchOut_of_disjoint hon (habove (by omega) h2) (Or.inr h1)
  · cases hr
    rw [hctx, hsub]
    change popal (store (pushal s.mem (s.cpu.esp - 32).toNat s.cpu) _ _) _ = _
    rw [hsub]
    refine (popal_congr fun x h1 h2 => ?_).trans (popal_pushal s.mem _ _)
    exact store_of_disjoint (habove h1 (by omega))

/-- What the other threads need is not touched. -/
lemma switchOut_foot (hon : OnStack I s) (ht : t ≠ s.current) (hx : I.Foot t x) :
    switchOut I s x = s.mem x := by
  have hlow := hon.1
  have hhigh := hon.2
  have hz := L.state_size
  have hss := L.stack_state
  have hno := home_disjoint ht (home_of_foot hx)
  refine switchOut_of_disjoint hon ?_ ?_
  · by_contra hin
    exact hno (Or.inl (by unfold STACK_SIZE at hss; omega))
  · by_contra hin
    exact hno (Or.inr (by omega))

lemma stateOf_switchOut (hon : OnStack I s) (t : Fin L.max) :
    stateOf I (switchOut I s) t = stateOf I s.mem t := by
  have hlow := hon.1
  have hhigh := hon.2
  have h1 := L.sp_stack
  have h2 := L.stack_state
  have h3 := L.state_size
  refine stateOf_congr fun x hx1 hx2 => switchOut_of_disjoint hon ?_ ?_
  · by_contra hin
    by_cases ht : t = s.current
    · subst ht
      omega
    · exact home_disjoint (I := I) (x := x) ht (Or.inl (by omega)) (Or.inl (by omega))
  · by_contra hin
    exact not_foot_state (t := t) ⟨hx1, hx2⟩ (Or.inr (by omega : I.low s.current ≤ x ∧ x < _))

lemma Context.esp_eq (I : Image L) (t : Fin L.max) (c : Context) : c.esp I t = c.sp I t + 36 := by
  cases c with
  | created func =>
    have hle : 36 ≤ I.top t := by unfold Image.top STACK_SIZE; omega
    change UInt32.ofNat (I.top t) = UInt32.ofNat (I.top t - 36) + 36
    rw [show (36 : UInt32) = UInt32.ofNat 36 from rfl, ← UInt32.ofNat_add, Nat.sub_add_cancel hle]
  | out cpu ret =>
    change cpu.esp + 4 = cpu.esp - 32 + 36
    rw [UInt32.sub_eq_add_neg, UInt32.add_assoc]
    rfl

/-- The thread that is switched to goes on with its context. -/
lemma switch_resumes (hsp : L.sp = 0) (hon : OnStack I s) (ht : t ≠ s.current) {c : Context}
    (hc : Ready I s.mem t c) :
    loaded I s t = c.sp I t ∧ (threadSwitch I s t).cpu.esp = c.esp I t ∧
      (threadSwitch I s t).cpu.eip = c.eip ∧
      ∀ r, c.regs = some r → (threadSwitch I s t).cpu.regs = r := by
  have hready := hc.congr fun x hx => switchOut_foot hon ht hx
  have hload : loaded I s t = c.sp I t := by
    have hsp' := hready.sp
    rw [hsp] at hsp'
    exact hsp'
  refine ⟨hload, ?_, ?_, fun r hr => ?_⟩
  · change loaded I s t + 36 = _
    rw [hload, c.esp_eq I t]
  · change word (switchOut I s) ((loaded I s t).toNat + 32) = _
    rw [hload]
    exact hready.ret
  · change popal (switchOut I s) (loaded I s t).toNat = _
    rw [hload]
    exact hready.regs r hr

lemma Inv.switch (h : Inv I s) (hsp : L.sp = 0) (hon : OnStack I s)
    (hrun : stateOf I s.mem t ≠ FREE) : Inv I (threadSwitch I s t) := by
  refine ⟨fun t' ht' c hc => ?_, fun t' ht' hst => ?_, fun t' ht' => ?_⟩
  · change Ready I (switchOut I s) t' c
    change update s.context s.current _ t' = some c at hc
    by_cases hcur : t' = s.current
    · subst hcur
      rw [update_self] at hc
      exact Option.some.inj hc ▸ ready_switchOut hsp hon
    · rw [update_of_ne hcur] at hc
      exact (h.ready t' hcur c hc).congr fun x hx => switchOut_foot hon hcur hx
  · change stateOf I (switchOut I s) t' = RUNNABLE at hst
    rw [stateOf_switchOut hon] at hst
    change update s.context s.current _ t' ≠ none
    by_cases hcur : t' = s.current
    · subst hcur
      rw [update_self]
      nofun
    · rw [update_of_ne hcur]
      exact h.runnable t' hcur hst
  · change stateOf I (switchOut I s) t' ≠ FREE
    rw [stateOf_switchOut hon]
    rcases ht' with h0 | h0
    · exact h.used t' (Or.inl h0)
    · exact h0 ▸ hrun

/-- The states that `thread_schedule` sets. -/
lemma Inv.marked (h : Inv I s) (ht : t ≠ s.current) :
    Inv I (marked I p s t) ∧ stateOf I (marked I p s t).mem t ≠ FREE := by
  have hone : Inv I { s with mem := setState I s.mem t RUNNING } :=
    h.restate (by decide) fun _ hv => absurd hv (by decide)
  unfold UthreadSwitch.marked
  by_cases hp : p = .uthread1
  · simp only [if_pos hp]
    refine ⟨hone, ?_⟩
    rw [stateOf_setState, if_pos rfl]
    decide
  · simp only [if_neg hp]
    refine ⟨hone.restate (t := s.current) (v := RUNNABLE) (by decide) fun hne => (hne rfl).elim, ?_⟩
    rw [stateOf_setState, if_neg ht, stateOf_setState, if_pos rfl]
    decide

lemma selected_runnable (h : selected I s = some t) : stateOf I s.mem t = RUNNABLE :=
  of_decide_eq_true (pick_runnable h)

lemma Inv.schedule (h : Inv I s) (hon : OnStack I s)
    (hk : ∀ t, selected I s = some t → t = s.current ∨ L.sp = 0)
    (hs : threadSchedule I p s = some s') : Inv I s' := by
  obtain ⟨t, hsel, rfl⟩ := Option.map_eq_some_iff.mp hs
  split_ifs with hne
  · have ht : t ≠ s.current := Ne.symm hne
    have hsp := (hk t hsel).resolve_left ht
    obtain ⟨hm, hfree⟩ := h.marked (p := p) ht
    exact hm.switch hsp hon hfree
  · exact h

lemma Inv.yielding (h : Inv I s) : Inv I (yielding I s) :=
  h.restate (by decide) fun hne => (hne rfl).elim

lemma Inv.step (h : Inv I s) (hp : p.ids ≤ L.sp) {a : Act} (hst : KeptStep I p s a s') :
    Inv I s' := by
  obtain ⟨hn, hk⟩ := hst
  cases a with
  | create func => exact Option.some.inj hn ▸ h.create hp hk
  | schedule => exact h.schedule hk.1 hk.2 hn
  | yield => exact h.yielding.schedule hk.1 hk.2 hn
  | store a b => exact Option.some.inj hn ▸ h.write hk
  | exec cpu => exact Option.some.inj hn ▸ ⟨h.ready, h.runnable, h.used⟩

lemma inv_init (I : Image L) (m : Mem) (cpu : Cpu) : Inv I (init I m cpu) := by
  have hstate (t : Fin L.max) : stateOf I (init I m cpu).mem t =
      if t.val = 0 then RUNNING else FREE := by
    have hset := stateOf_setState I (fun x => if I.base ≤ x ∧ x < I.base + L.max * L.size then 0
      else m x) ⟨0, L.pos⟩ t RUNNING
    refine hset.trans ?_
    by_cases ht : t.val = 0
    · rw [if_pos ht, if_pos (Fin.ext ht)]
    · rw [if_neg ht, if_neg fun he => ht (congrArg Fin.val he)]
      have hin := addr_in I t
      have hsz := L.state_size
      have hzero : word (fun x => if I.base ≤ x ∧ x < I.base + L.max * L.size then 0 else m x)
          (I.addr t + L.state) = word (fun _ => 0) (I.addr t + L.state) :=
        word_congr fun x h1 h2 => if_pos (by omega)
      refine hzero.trans ?_
      unfold word Xv6.Lib.Memory.get
      rfl
  refine ⟨fun _ _ _ hc => (nomatch hc), fun t ht hrun => ?_, fun t ht => ?_⟩
  · have hne : t.val ≠ 0 := fun he => ht (Fin.ext he)
    rw [hstate, if_neg hne] at hrun
    cases hrun
  · rw [hstate, if_pos]
    · decide
    · rcases ht with h0 | h0
      · exact h0
      · exact congrArg Fin.val h0

lemma ids_le (p : Program) : p.ids ≤ p.layout.sp := by
  cases p with
  | uthread1 | uthread3 | uthread4 => decide

/-- **Switching preserves threads**, in runs whose steps all keep to the condition: the stack
pointer that `thread_switch` loads for a thread is the one that `thread_create` prepared or the one
saved when the thread last stopped; the thread enters its function at the top of its own stack, or
goes on with the registers it had after its call; and of the structure of the thread that stops,
only the saved stack pointer changes, and the unused part of its stack. -/
theorem switch_preserves {p : Program} {I : Image p.layout} {m : Mem} {cpu : Cpu}
    {s s₁ : St p.layout} (h : Reach (KeptStep I p) (init I m cpu) s) {a : Act}
    (ha : Kept I p s a) (hs : scheduling I s a = some s₁) {t : Fin p.layout.max}
    (ht : selected I s₁ = some t) (hne : t ≠ s₁.current) :
    ∃ c, s₁.context t = some c ∧ loaded I (marked I p s₁ t) t = c.sp I t ∧
      (threadSwitch I (marked I p s₁ t) t).cpu.esp = c.esp I t ∧
      (threadSwitch I (marked I p s₁ t) t).cpu.eip = c.eip ∧
      (∀ r, c.regs = some r → (threadSwitch I (marked I p s₁ t) t).cpu.regs = r) ∧
      ∀ x, I.addr s₁.current ≤ x → x < I.addr s₁.current + p.layout.size →
        ¬ (I.addr s₁.current + p.layout.sp ≤ x ∧ x < I.addr s₁.current + p.layout.sp + 4) →
        ¬ (s₁.cpu.esp.toNat - 32 ≤ x ∧ x < s₁.cpu.esp.toNat) →
        (threadSwitch I (marked I p s₁ t) t).mem x = (marked I p s₁ t).mem x := by
  have hinv : Inv I s := h.inv (inv_init I m cpu) fun _ _ _ h hst => h.step (ids_le p) hst
  obtain ⟨hinv₁, hon, hsp⟩ : Inv I s₁ ∧ OnStack I s₁ ∧ p.layout.sp = 0 := by
    cases a with
    | schedule =>
      cases hs
      exact ⟨hinv, ha.1, (ha.2 t ht).resolve_left hne⟩
    | yield =>
      cases hs
      exact ⟨hinv.yielding, ha.1, (ha.2 t ht).resolve_left hne⟩
    | create | store | exec => cases hs
  obtain ⟨c, hc⟩ := Option.ne_none_iff_exists'.mp (hinv₁.runnable t hne (selected_runnable ht))
  obtain ⟨hload, hesp, heip, hregs⟩ :=
    switch_resumes hsp (s := marked I p s₁ t) hon hne ((hinv₁.marked hne).1.ready t hne c hc)
  refine ⟨c, hc, hload, hesp, heip, hregs, fun x h1 h2 hx hx' => ?_⟩
  refine switchOut_of_disjoint (s := marked I p s₁ t) hon ?_ ?_
  · change x < I.addr s₁.current ∨ I.addr s₁.current + 4 ≤ x
    omega
  · change x < s₁.cpu.esp.toNat - 32 ∨ s₁.cpu.esp.toNat ≤ x
    omega

/-- `all_thread` at `0x2000`, and a stack of one page far above it. -/
def image (p : Program) : Image p.layout where
  base := 0x2000
  lo := 0x40000
  hi := 0x41000
  fits := by cases p <;> decide
  hi_lt := by decide
  apart := by cases p <;> decide

/-- The main thread, on its stack. -/
def mainCpu : Cpu := ⟨⟨1, 2, 3, 4, 5, 6, 7⟩, 0x40800, 0x100⟩

/-- The main thread creates a thread. -/
def createOne (p : Program) : St p.layout :=
  threadCreate (image p) p (init (image p) (fun _ => 0) mainCpu) 0x500

theorem switch_preserves_first :
    let s := createOne .uthread1
    let t : Fin Program.uthread1.layout.max := ⟨1, by decide⟩
    selected (image .uthread1) s = some t ∧ ∃ c, s.context t = some c ∧
      loaded (image .uthread1) (marked (image .uthread1) .uthread1 s t) t =
        c.sp (image .uthread1) t := by
  intro s t
  have hreach : Reach (KeptStep (image .uthread1) .uthread1)
      (init (image .uthread1) (fun _ => 0) mainCpu) s :=
    .tail .refl (a := .create 0x500) ⟨rfl, by decide +kernel⟩
  have hsel : selected (image .uthread1) s = some t := by decide +kernel
  obtain ⟨c, hc, hload, -⟩ := switch_preserves hreach (a := .schedule) (by decide +kernel) rfl hsel
    (by decide)
  exact ⟨hsel, c, hc, hload⟩

/-- The first switch to a thread loads its `tid` as the stack pointer, and the stack pointer of the
thread that stops overwrites its `tid`. -/
def LoadsTid (p : Program) : Prop :=
  let I := image p
  let s := createOne p
  ∃ t : Fin p.layout.max, selected I s = some t ∧ t ≠ s.current ∧
    (s.context t).map (Context.sp I t) = some (.ofNat (I.top t - 36)) ∧
    loaded I (marked I p s t) t = 1 ∧ UInt32.ofNat (I.top t - 36) ≠ 1 ∧
    word s.mem (I.addr s.current) = 0 ∧
    word (threadSwitch I (marked I p s t) t).mem (I.addr s.current) = 0x407e0

theorem switch_loads_tid : LoadsTid .uthread3 ∧ LoadsTid .uthread4 := by
  constructor
  · exact ⟨⟨1, by decide⟩, by decide +kernel⟩
  · exact ⟨⟨1, by decide⟩, by decide +kernel⟩

/-! ### The memory that `thread_create` writes -/

/-- The slots that a search finds. -/
def freeSlots (I : Image L) (m : Mem) : Finset (Fin L.max) := {t | stateOf I m t = FREE}

/-- The slot it has found is the only part of the memory that changes, and is free no more. -/
lemma threadCreate_slot (hp : p.ids ≤ L.sp) (func : UInt32) (h : (freeSlots I s.mem).Nonempty) :
    ∃ t ∈ freeSlots I s.mem,
      (∀ x, x < I.addr t ∨ I.addr t + L.size ≤ x → (threadCreate I p s func).mem x = s.mem x) ∧
      freeSlots I (threadCreate I p s func).mem = (freeSlots I s.mem).erase t := by
  obtain ⟨t₀, ht₀⟩ := h
  unfold threadCreate
  cases hf : (List.finRange L.max).find? fun t : Fin L.max => stateOf I s.mem t = FREE with
  | none =>
    rw [List.find?_eq_none] at hf
    exact (hf t₀ (List.mem_finRange t₀) (by simpa [freeSlots] using ht₀)).elim
  | some t =>
    have hfree : stateOf I s.mem t = FREE := by simpa using List.find?_some hf
    have hframe (x : ℕ) (hx : x < I.addr t ∨ I.addr t + L.size ≤ x) :=
      prepare_of_disjoint I hp s.mem s.current t s.globalTid func hx
    refine ⟨t, by simpa [freeSlots] using hfree, hframe, ?_⟩
    ext t'
    simp only [freeSlots, Finset.mem_filter, Finset.mem_univ, true_and, Finset.mem_erase]
    by_cases ht : t' = t
    · subst ht
      have hrun : stateOf I (prepare I p s.mem s.current t' s.globalTid func) t' = RUNNABLE :=
        word_store ..
      simp [hrun, RUNNABLE, FREE]
    · have hsz := L.state_size
      rw [stateOf_congr fun x h1 h2 => hframe x ?_]
      · simp [ht]
      · by_contra hin
        exact home_disjoint ht (Or.inl (by omega)) (Or.inl (by omega : I.addr t ≤ x ∧ x < _))

/-- **Frame of `thread_create`.** After any calls before it, a call writes only inside one element
of `all_thread` that was free, while there are more free slots than calls. -/
theorem threadCreate_frame (p : Program) (I : Image p.layout) (s : St p.layout)
    (funcs : List UInt32) (func : UInt32) (h : funcs.length < (freeSlots I s.mem).card) :
    let s' := funcs.foldl (threadCreate I p) s
    ∃ t : Fin p.layout.max, stateOf I s'.mem t = FREE ∧
      ∀ x, x < I.addr t ∨ I.addr t + p.layout.size ≤ x →
        (threadCreate I p s' func).mem x = s'.mem x := by
  have hp : p.ids ≤ p.layout.sp := by cases p <;> decide
  induction funcs generalizing s with
  | nil =>
    obtain ⟨t, ht, hframe, -⟩ := threadCreate_slot hp func (Finset.card_pos.mp h)
    exact ⟨t, by simpa [freeSlots] using ht, hframe⟩
  | cons f funcs ih =>
    obtain ⟨t, ht, -, hslots⟩ := threadCreate_slot hp f (Finset.card_pos.mp (Nat.zero_lt_of_lt h))
    refine ih (threadCreate I p s f) ?_
    rw [hslots, Finset.card_erase_of_mem ht]
    exact Nat.lt_pred_of_succ_lt h

/-- The first thread of a process. -/
theorem threadCreate_frame_first :
    let s := init (image .uthread4) (fun _ => 0) mainCpu
    ∃ t : Fin Program.uthread4.layout.max, stateOf (image .uthread4) s.mem t = FREE ∧
      ∀ x, x < (image .uthread4).addr t ∨ (image .uthread4).addr t + 8208 ≤ x →
        (createOne .uthread4).mem x = s.mem x :=
  threadCreate_frame .uthread4 (image .uthread4) _ [] 0x500 (by decide +kernel)

/-- Once all slots are taken, the next call writes behind `all_thread`. -/
def Overruns (p : Program) : Prop :=
  let I := image p
  let s := (List.replicate (p.layout.max - 1) 0x500).foldl (threadCreate I p)
    (init I (fun _ => 0) mainCpu)
  let s' := threadCreate I p s 0x500
  let x := I.base + p.layout.max * p.layout.size + p.layout.state
  freeSlots I s.mem = ∅ ∧ s.mem x = 0 ∧ s'.mem x = 2

theorem threadCreate_overruns : Overruns .uthread1 ∧ Overruns .uthread4 := by
  unfold Overruns
  constructor <;> decide +kernel

end Xv6.UthreadSwitch
