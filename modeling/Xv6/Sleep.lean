import Xv6.Lib.Lock
import Xv6.Lib.Run
import Xv6.ProcTable

/-!
`sleep`, `wakeup` and `kill` of `proc.c` at the granularity of spinlocks, together with the code of
a client that calls them while it holds a spinlock `lk`.

A client is what runs between `acquire(lk)` and `release(lk)`, with the data that the lock protects.
The lock may be `ptable.lock` itself (`same`): then `sleep` does not change locks and the client
calls `wakeup1`. `ptable.lock` is handed across context switches; which scheduler holds it does not
matter, so there may be any number of CPUs.
-/

namespace Xv6.Sleep

open Xv6.Lib.Lock Xv6.Lib.Run Xv6.ProcTable
open Function (update update_apply)

/-- What the code of a client comes to, with `lk` held. -/
inductive Cmd (σ ρ : Type)
  | goto (k : σ)
  | sleep (chan : Chan) (k : σ)
  | wakeup (chan : Chan) (k : σ)
  | release (r : ρ)

/-- `start` is where a call begins once it has the lock, and `code` what a process does at a point
of the code, up to the next one. -/
structure Client (ι σ ρ D : Type) where
  start : ι → σ
  code : Proc → σ → D → Cmd σ ρ × D

/-- Where a process is. `sleepAcquire` to `reacquire` are inside `sleep`: before
`acquire(&ptable.lock)`, before `release(lk)`, before it sets its state, in `sched`, back from
`sched`, and before `acquire(lk)`. -/
inductive Pc (σ ρ : Type)
  | out (r : Option ρ)
  | acquire (k : σ)
  | crit (k : σ)
  | sleepAcquire (chan : Chan) (k : σ)
  | sleepRelease (chan : Chan) (k : σ)
  | sleepSet (chan : Chan) (k : σ)
  | asleep (chan : Chan) (k : σ)
  | woken (chan : Chan) (k : σ)
  | reacquire (chan : Chan) (k : σ)
  | wakeup (chan : Chan) (k : σ)
  | yielded (r : Option ρ)
  | resumed (r : Option ρ)

/-- Who holds `ptable.lock`. -/
inductive Holder
  | free
  | proc (p : Slot)
  | sched
  deriving DecidableEq

/-- `lk` is the holder of the client's lock, if that is not `ptable.lock`. `made` is history:
whether a process has been made `RUNNABLE` since it last called `sleep`. -/
structure St (σ ρ D : Type) where
  proc : Table
  pc : Slot → Pc σ ρ
  lk : Option Slot
  ptable : Holder
  data : D
  made : Slot → Bool

inductive Act (ι : Type)
  | call (p : Slot) (i : ι)
  | step (p : Slot)
  | yield (p : Slot)
  | kill (pid : ℤ)
  | dispatch (p : Slot)
  | schedAcquire
  | schedRelease

section Machine

variable {ι σ ρ D : Type}

def St.setPc (s : St σ ρ D) (p : Slot) (c : Pc σ ρ) : St σ ρ D :=
  { s with pc := update s.pc p c }

/-- The table after a `wakeup1` or a `kill`. -/
def St.wake (s : St σ ρ D) (T : Table) : St σ ρ D :=
  { s with
    proc := T
    made := fun p => s.made p || decide ((s.proc p).state = .sleeping ∧ (T p).state = .runnable) }

/-- No process has called anything yet; `T` has their identifiers. -/
def init (T : Table) (d : D) : St σ ρ D where
  proc := fun p => { T p with state := .running, chan := none }
  pc := fun _ => .out none
  lk := none
  ptable := .free
  data := d
  made := fun _ => false

variable (M : Client ι σ ρ D) (same : Bool)

/-- `acquire(lk)`, then the code at `k`. -/
def lock (s : St σ ρ D) (p : Slot) (k : σ) : Option (St σ ρ D) :=
  if same then
    if s.ptable = .free then some ({ s with ptable := .proc p }.setPc p (.crit k)) else none
  else
    if s.lk = none then some ({ s with lk := some p }.setPc p (.crit k)) else none

/-- The code of the client, with `lk` held. -/
def critStep (s : St σ ρ D) (p : Slot) (k : σ) : St σ ρ D :=
  match M.code (s.proc p) k s.data with
  | (.goto k', d) => { s with data := d }.setPc p (.crit k')
  | (.sleep chan k', d) =>
    { s with data := d, made := update s.made p false }.setPc p
      (if same then .sleepSet chan k' else .sleepAcquire chan k')
  | (.wakeup chan k', d) =>
    if same then ({ s with data := d }.wake (wakeup1 s.proc (some chan))).setPc p (.crit k')
    else { s with data := d }.setPc p (.wakeup chan k')
  | (.release r, d) =>
    if same then { s with data := d, ptable := .free }.setPc p (.out (some r))
    else { s with data := d, lk := none }.setPc p (.out (some r))

/-- A process goes on. -/
def procStep (s : St σ ρ D) (p : Slot) : Option (St σ ρ D) :=
  match s.pc p with
  | .acquire k => lock same s p k
  | .crit k => some (critStep M same s p k)
  | .sleepAcquire chan k =>
    if s.ptable = .free then some ({ s with ptable := .proc p }.setPc p (.sleepRelease chan k)) else none
  | .sleepRelease chan k => some ({ s with lk := none }.setPc p (.sleepSet chan k))
  -- up to the switch to the scheduler
  | .sleepSet chan k =>
    some ({ s with proc := setSleep s.proc p chan, ptable := .sched }.setPc p (.asleep chan k))
  | .woken chan k =>
    if same then some ({ s with proc := clearChan s.proc p }.setPc p (.crit k))
    else some ({ s with proc := clearChan s.proc p, ptable := .free }.setPc p (.reacquire chan k))
  | .reacquire _ k => lock same s p k
  | .wakeup chan k =>
    if s.ptable = .free then some ((s.wake (wakeup1 s.proc (some chan))).setPc p (.crit k)) else none
  | .resumed r => some ({ s with ptable := .free }.setPc p (.out r))
  | .out _ | .asleep _ _ | .yielded _ => none

/-- A scheduler, with `ptable.lock`, switches to a process, which then has the lock. -/
def dispatch (s : St σ ρ D) (p : Slot) : Option (St σ ρ D) :=
  if s.ptable = .sched ∧ (s.proc p).state = .runnable then
    match s.pc p with
    | .asleep chan k =>
      some ({ s with proc := setState s.proc p .running, ptable := .proc p }.setPc p (.woken chan k))
    | .yielded r =>
      some ({ s with proc := setState s.proc p .running, ptable := .proc p }.setPc p (.resumed r))
    | _ => none
  else none

def next (s : St σ ρ D) : Act ι → Option (St σ ρ D)
  | .call p i =>
    match s.pc p with
    | .out _ => some (s.setPc p (.acquire (M.start i)))
    | _ => none
  | .step p => procStep M same s p
  | .yield p =>
    match s.pc p with
    | .out r =>
      if s.ptable = .free then
        some ({ s with proc := setState s.proc p .runnable, ptable := .sched }.setPc p (.yielded r))
      else none
    | _ => none
  | .kill pid => if s.ptable = .free then some (s.wake (kill s.proc pid).1) else none
  | .dispatch p => dispatch s p
  | .schedAcquire => if s.ptable = .free then some { s with ptable := .sched } else none
  | .schedRelease => if s.ptable = .sched then some { s with ptable := .free } else none

def Step (s : St σ ρ D) (a : Act ι) (t : St σ ρ D) : Prop := next M same s a = some t

/-- The steps, each with what it needs and what it does. -/
inductive Move (s : St σ ρ D) : Act ι → St σ ρ D → Prop
  | call {p r i} : s.pc p = .out r → Move s (.call p i) (s.setPc p (.acquire (M.start i)))
  | lock {p k} : same = false → s.pc p = .acquire k ∨ (∃ chan, s.pc p = .reacquire chan k) → s.lk = none →
      Move s (.step p) ({ s with lk := some p }.setPc p (.crit k))
  | lockSame {p k} : same = true → s.pc p = .acquire k ∨ (∃ chan, s.pc p = .reacquire chan k) →
      s.ptable = .free → Move s (.step p) ({ s with ptable := .proc p }.setPc p (.crit k))
  | goto {p k k' d} : s.pc p = .crit k → M.code (s.proc p) k s.data = (.goto k', d) →
      Move s (.step p) ({ s with data := d }.setPc p (.crit k'))
  | sleep {p k chan k' d} : s.pc p = .crit k → M.code (s.proc p) k s.data = (.sleep chan k', d) →
      Move s (.step p) ({ s with data := d, made := update s.made p false }.setPc p
        (if same then .sleepSet chan k' else .sleepAcquire chan k'))
  | wakeup {p k chan k' d} : same = false → s.pc p = .crit k →
      M.code (s.proc p) k s.data = (.wakeup chan k', d) →
      Move s (.step p) ({ s with data := d }.setPc p (.wakeup chan k'))
  | wakeupSame {p k chan k' d} : same = true → s.pc p = .crit k →
      M.code (s.proc p) k s.data = (.wakeup chan k', d) →
      Move s (.step p) (({ s with data := d }.wake (wakeup1 s.proc (some chan))).setPc p (.crit k'))
  | release {p k r d} : same = false → s.pc p = .crit k → M.code (s.proc p) k s.data = (.release r, d) →
      Move s (.step p) ({ s with data := d, lk := none }.setPc p (.out (some r)))
  | releaseSame {p k r d} : same = true → s.pc p = .crit k → M.code (s.proc p) k s.data = (.release r, d) →
      Move s (.step p) ({ s with data := d, ptable := .free }.setPc p (.out (some r)))
  | sleepAcquire {p chan k} : s.pc p = .sleepAcquire chan k → s.ptable = .free →
      Move s (.step p) ({ s with ptable := .proc p }.setPc p (.sleepRelease chan k))
  | sleepRelease {p chan k} : s.pc p = .sleepRelease chan k →
      Move s (.step p) ({ s with lk := none }.setPc p (.sleepSet chan k))
  | sleepSet {p chan k} : s.pc p = .sleepSet chan k →
      Move s (.step p) ({ s with proc := setSleep s.proc p chan, ptable := .sched }.setPc p (.asleep chan k))
  | woken {p chan k} : same = false → s.pc p = .woken chan k →
      Move s (.step p) ({ s with proc := clearChan s.proc p, ptable := .free }.setPc p (.reacquire chan k))
  | wokenSame {p chan k} : same = true → s.pc p = .woken chan k →
      Move s (.step p) ({ s with proc := clearChan s.proc p }.setPc p (.crit k))
  | wakeupLoop {p chan k} : s.pc p = .wakeup chan k → s.ptable = .free →
      Move s (.step p) ((s.wake (wakeup1 s.proc (some chan))).setPc p (.crit k))
  | resumed {p r} : s.pc p = .resumed r → Move s (.step p) ({ s with ptable := .free }.setPc p (.out r))
  | yield {p r} : s.pc p = .out r → s.ptable = .free →
      Move s (.yield p) ({ s with proc := setState s.proc p .runnable, ptable := .sched }.setPc p (.yielded r))
  | kill {pid} : s.ptable = .free → Move s (.kill pid) (s.wake (kill s.proc pid).1)
  | dispatch {p chan k} : s.ptable = .sched → (s.proc p).state = .runnable → s.pc p = .asleep chan k →
      Move s (.dispatch p) ({ s with proc := setState s.proc p .running, ptable := .proc p }.setPc p (.woken chan k))
  | dispatchYielded {p r} : s.ptable = .sched → (s.proc p).state = .runnable → s.pc p = .yielded r →
      Move s (.dispatch p) ({ s with proc := setState s.proc p .running, ptable := .proc p }.setPc p (.resumed r))
  | schedAcquire : s.ptable = .free → Move s .schedAcquire { s with ptable := .sched }
  | schedRelease : s.ptable = .sched → Move s .schedRelease { s with ptable := .free }

variable {M same} {s t : St σ ρ D} {a : Act ι}

variable {p : Slot} {k : σ} {chan : Chan}

lemma move_lock (hp : s.pc p = .acquire k ∨ ∃ chan, s.pc p = .reacquire chan k)
    (h : lock same s p k = some t) : Move M same s (.step p) t := by
  unfold lock at h
  cases same with
  | true =>
    rw [if_pos rfl] at h
    split_ifs at h with hf
    exact Option.some.inj h ▸ .lockSame rfl hp hf
  | false =>
    rw [if_neg Bool.false_ne_true] at h
    split_ifs at h with hf
    exact Option.some.inj h ▸ .lock rfl hp hf

lemma move_critStep (hp : s.pc p = .crit k) : Move M same s (.step p) (critStep M same s p k) := by
  unfold critStep
  rcases hc : M.code (s.proc p) k s.data with ⟨k' | ⟨chan, k'⟩ | ⟨chan, k'⟩ | r, d⟩
  · exact .goto hp hc
  · exact .sleep hp hc
  · cases hs : same with
    | true => exact .wakeupSame rfl hp hc
    | false => exact .wakeup rfl hp hc
  · cases hs : same with
    | true => exact .releaseSame rfl hp hc
    | false => exact .release rfl hp hc

lemma move_procStep (h : procStep M same s p = some t) : Move M same s (.step p) t := by
  unfold procStep at h
  rcases hp :
    s.pc p with r | k | k | ⟨chan, k⟩ | ⟨chan, k⟩ | ⟨chan, k⟩ | ⟨chan, k⟩ | ⟨chan, k⟩ | ⟨chan, k⟩ |
    ⟨chan, k⟩ | r | r <;> rw [hp] at h <;> dsimp only at h
  · cases h
  · exact move_lock (.inl hp) h
  · exact Option.some.inj h ▸ move_critStep hp
  · split_ifs at h with hf
    exact Option.some.inj h ▸ .sleepAcquire hp hf
  · exact Option.some.inj h ▸ .sleepRelease hp
  · exact Option.some.inj h ▸ .sleepSet hp
  · cases h
  · cases hs : same with
    | true =>
      rw [hs, if_pos rfl] at h
      exact Option.some.inj h ▸ .wokenSame rfl hp
    | false =>
      rw [hs, if_neg Bool.false_ne_true] at h
      exact Option.some.inj h ▸ .woken rfl hp
  · exact move_lock (.inr ⟨chan, hp⟩) h
  · split_ifs at h with hf
    exact Option.some.inj h ▸ .wakeupLoop hp hf
  · cases h
  · exact Option.some.inj h ▸ .resumed hp

lemma move_dispatch (h : dispatch s p = some t) : Move M same s (.dispatch p) t := by
  unfold dispatch at h
  split_ifs at h with hs
  split at h
  · next hp => exact Option.some.inj h ▸ .dispatch hs.1 hs.2 hp
  · next hp => exact Option.some.inj h ▸ .dispatchYielded hs.1 hs.2 hp
  · cases h

lemma Step.move (h : Step M same s a t) : Move M same s a t := by
  unfold Step next at h
  cases a with
  | call p i =>
    dsimp only at h
    split at h
    · next hp => exact Option.some.inj h ▸ .call hp
    · cases h
  | step p => exact move_procStep h
  | yield p =>
    dsimp only at h
    split at h
    · next hp =>
      split_ifs at h with hf
      exact Option.some.inj h ▸ .yield hp hf
    · cases h
  | kill pid =>
    dsimp only at h
    split_ifs at h with hf
    exact Option.some.inj h ▸ .kill hf
  | dispatch p => exact move_dispatch h
  | schedAcquire =>
    dsimp only at h
    split_ifs at h with hf
    exact Option.some.inj h ▸ .schedAcquire hf
  | schedRelease =>
    dsimp only at h
    split_ifs at h with hf
    exact Option.some.inj h ▸ .schedRelease hf

/-! ### Who holds the locks, and what is asleep -/

/-- The places with the client's lock. -/
def Pc.ownsLk (same : Bool) : Pc σ ρ → Bool
  | .crit _ | .sleepAcquire _ _ | .sleepRelease _ _ | .wakeup _ _ => !same
  | _ => false

/-- The places with `ptable.lock`. -/
def Pc.ownsPt (same : Bool) : Pc σ ρ → Bool
  | .crit _ => same
  | .sleepRelease _ _ | .sleepSet _ _ | .woken _ _ | .resumed _ => true
  | _ => false

def Holder.owner : Holder → Option Slot
  | .proc p => some p
  | .free | .sched => none

/-- The channel of the `sleep` that a process is inside of. -/
def Pc.sleepOn : Pc σ ρ → Option Chan
  | .sleepAcquire chan _ | .sleepRelease chan _ | .sleepSet chan _ | .asleep chan _ | .woken chan _
  | .reacquire chan _ => some chan
  | _ => none

/-- What a process is, by where it is: while it is in `sched` it sleeps, or it has been made
`RUNNABLE`, and whoever is past that has been. -/
def Local (same : Bool) (P : Proc) (made : Bool) : Pc σ ρ → Prop
  | .asleep chan _ => P.chan = some chan ∧ (P.state = .sleeping ∨ P.state = .runnable ∧ made = true)
  | .woken chan _ => P.chan = some chan ∧ P.state = .running ∧ made = true
  | .reacquire _ _ => same = false ∧ P.chan = none ∧ P.state = .running ∧ made = true
  | .yielded _ => P.chan = none ∧ P.state = .runnable
  | .sleepAcquire _ _ | .sleepRelease _ _ | .wakeup _ _ => same = false ∧ P.chan = none ∧ P.state = .running
  | _ => P.chan = none ∧ P.state = .running

structure Inv (same : Bool) (s : St σ ρ D) : Prop where
  lk : Owner s.lk fun p => (s.pc p).ownsLk same
  pt : Owner s.ptable.owner fun p => (s.pc p).ownsPt same
  loc : ∀ p, Local same (s.proc p) (s.made p) (s.pc p)

lemma inv_init (T : Table) (d : D) : Inv same (init T d : St σ ρ D) :=
  ⟨fun _ => ⟨nofun, nofun⟩, fun _ => ⟨nofun, nofun⟩, fun _ => ⟨rfl, rfl⟩⟩

section Apply

variable (s : St σ ρ D) (p q : Slot) (c : Pc σ ρ) (T : Table)

@[grind =] lemma setPc_pc : (s.setPc p c).pc q = if q = p then c else s.pc q := update_apply ..
@[grind =] lemma setPc_proc : (s.setPc p c).proc q = s.proc q := rfl
@[grind =] lemma setPc_made : (s.setPc p c).made q = s.made q := rfl
@[grind =] lemma setPc_lk : (s.setPc p c).lk = s.lk := rfl
@[grind =] lemma setPc_ptable : (s.setPc p c).ptable = s.ptable := rfl
@[grind =] lemma wake_pc : (s.wake T).pc q = s.pc q := rfl
@[grind =] lemma wake_proc : (s.wake T).proc q = T q := rfl
@[grind =] lemma wake_lk : (s.wake T).lk = s.lk := rfl
@[grind =] lemma wake_ptable : (s.wake T).ptable = s.ptable := rfl
@[grind =] lemma wake_made : (s.wake T).made q =
    (s.made q || decide ((s.proc q).state = .sleeping ∧ (T q).state = .runnable)) := rfl

end Apply

/-- Only a process in `sched` can be asleep. -/
lemma Local.asleep {P : Proc} {made : Bool} {c : Pc σ ρ} (h : Local same P made c)
    (hs : P.state = .sleeping) : ∃ chan k, c = .asleep chan k ∧ P.chan = some chan := by
  cases c with
  | asleep chan k => exact ⟨chan, k, rfl, h.1⟩
  | out | acquire | crit | sleepSet | yielded | resumed => exact absurd (hs.symm.trans h.2) nofun
  | woken => exact absurd (hs.symm.trans h.2.1) nofun
  | reacquire => exact absurd (hs.symm.trans h.2.2.1) nofun
  | sleepAcquire | sleepRelease | wakeup => exact absurd (hs.symm.trans h.2.2) nofun

/-- A process may be made `RUNNABLE` by another one. -/
lemma Local.wake {P P' : Proc} {made : Bool} {c : Pc σ ρ} (h : Local same P made c)
    (hchan : P'.chan = P.chan)
    (hstate : P'.state = P.state ∨ P.state = .sleeping ∧ P'.state = .runnable) :
    Local same P' (made || decide (P.state = .sleeping ∧ P'.state = .runnable)) c := by
  cases c <;> grind [Local]

section Move

variable (h : Inv same s) (hm : Move M same s a t) (q : Slot)

include h hm

/-- A lock changes hands with the place of the one who has it. -/
lemma Inv.move_lk : t.lk = some q ↔ (t.pc q).ownsLk same = true := by
  have hlk := h.lk
  have hloc := h.loc
  cases hm <;> grind [Owner, Pc.ownsLk, Local]

lemma Inv.move_pt : t.ptable.owner = some q ↔ (t.pc q).ownsPt same = true := by
  have hpt := h.pt
  have hloc := h.loc
  cases hm <;> grind [Owner, Pc.ownsPt, Holder.owner, Local]

lemma Inv.move_loc : Local same (t.proc q) (t.made q) (t.pc q) := by
  have hl := h.loc q
  have hwake {T : Table} (hT : Quiet s.proc T) := hl.wake (hT.chan q) (hT.state q)
  cases hm with
  | kill => exact hwake (kill_quiet _ _)
  | @wakeupSame p k chan k' d hs hp hc | @wakeupLoop p chan k hp hf =>
    have hw := hwake (wakeup1_quiet s.proc (some chan))
    grind [Local]
  | _ => grind [Local]

end Move

lemma Inv.move (h : Inv same s) (hm : Move M same s a t) : Inv same t :=
  ⟨h.move_lk hm, h.move_pt hm, h.move_loc hm⟩

lemma inv_reach {T : Table} {d : D} (h : Reach (Step M same) (init T d) s) : Inv same s :=
  h.inv (inv_init T d) fun _ _ _ hi hst => hi.move hst.move

/-- What every piece of the client's code keeps holds of the data in every state reached. -/
theorem data_inv {J : D → Prop} {T : Table} {d : D} (h : Reach (Step M same) (init T d) s)
    (h0 : J d) (hcode : ∀ me k d, J d → J (M.code me k d).2) : J s.data := by
  refine h.inv (P := fun s => J s.data) h0 fun s a t hJ hst => ?_
  have hc {p : Slot} {k : σ} {cmd : Cmd σ ρ} {d : D} (hc : M.code (s.proc p) k s.data = (cmd, d)) :
      J d := by
    have hd := hcode (s.proc p) k s.data hJ
    rwa [hc] at hd
  cases hst.move with
  | goto _ h1 | sleep _ h1 => exact hc h1
  | wakeup _ _ h1 | wakeupSame _ _ h1 | release _ _ h1 | releaseSame _ _ h1 => exact hc h1
  | call | lock | lockSame | sleepAcquire | sleepRelease | sleepSet | woken | wokenSame | wakeupLoop | resumed
  | yield | kill | dispatch | dispatchYielded | schedAcquire | schedRelease => exact hJ

/-- A process inside `sleep` that has neither lock is asleep, or it has been made `RUNNABLE`. -/
lemma Inv.sleeper (h : Inv same s) (hp : (s.pc p).sleepOn = some chan)
    (hlk : (s.pc p).ownsLk same = false) (hpt : (s.pc p).ownsPt same = false) :
    s.made p = true ∨ (s.proc p).state = .sleeping ∧ (s.proc p).chan = some chan := by
  have hl := h.loc p
  cases hc : s.pc p with rw [hc] at hp hlk hpt hl
  | asleep chan' k =>
    obtain rfl : chan' = chan := Option.some.inj hp
    exact hl.2.elim (fun hs => .inr ⟨hs, hl.1⟩) fun hr => .inl hr.2
  | reacquire chan' k => exact .inl hl.2.2.2
  | sleepAcquire chan' k | sleepRelease chan' k =>
    rw [hl.1] at hlk
    exact absurd hlk nofun
  | sleepSet chan' k | woken chan' k => exact absurd hpt nofun
  | out | acquire | crit | wakeup | yielded | resumed => exact absurd hp nofun

/-- The process `q` is about to run the loop of `wakeup(chan)`, with the client's lock held. -/
def Wakes (M : Client ι σ ρ D) (same : Bool) (s : St σ ρ D) (q : Slot) (chan : Chan) : Prop :=
  if same then ∃ k k' d, s.pc q = .crit k ∧ M.code (s.proc q) k s.data = (.wakeup chan k', d)
  else ∃ k, s.pc q = .wakeup chan k

/-- The loop is run while nobody else has either lock. -/
lemma Inv.wakes {q : Slot} {chan' : Chan} (h : Inv same s) (hq : Wakes M same s q chan)
    (hp : (s.pc p).sleepOn = some chan') (hst : Step M same s (.step q) t) :
    (s.pc p).ownsLk same = false ∧ (s.pc p).ownsPt same = false ∧
      t.proc = wakeup1 s.proc (some chan) := by
  have hother {own : Pc σ ρ → Bool} {o : Option Slot} (ho : Owner o fun r => own (s.pc r))
      (hown : own (s.pc q) = true) (hne : (s.pc q).sleepOn = none) : own (s.pc p) = false := by
    rw [← Bool.not_eq_true]
    intro hown'
    have heq : p = q := ho.unique hown' hown
    rw [heq, hne] at hp
    cases hp
  change procStep M same s q = some t at hst
  cases same with
  | true =>
    obtain ⟨k, k', d, hk, hc⟩ := hq
    simp only [procStep, hk, critStep, hc] at hst
    refine ⟨?_, hother h.pt (by rw [hk]; rfl) (by rw [hk]; rfl), (Option.some.inj hst) ▸ rfl⟩
    cases s.pc p <;> rfl
  | false =>
    obtain ⟨k, hk⟩ := hq
    simp only [procStep, hk] at hst
    split_ifs at hst with hf
    refine ⟨hother h.lk (by rw [hk]; rfl) (by rw [hk]; rfl), ?_, (Option.some.inj hst) ▸ rfl⟩
    have hpt := h.pt
    rw [hf] at hpt
    exact hpt.free p

/-- Nobody leaves `sleep` while another process has the client's lock. -/
lemma Move.sleepOn (hm : Move M same s a t) (hp : (s.pc p).sleepOn = some chan) :
    (t.pc p).sleepOn = some chan ∨ same = true ∨ s.lk = none := by
  cases hm <;> grind [Pc.sleepOn]

lemma Inv.crit (h : Inv same s) (hp : s.pc p = .crit k) :
    (if same then s.ptable = .proc p else s.lk = some p) ∧ (s.proc p).chan = none := by
  have hl := h.loc p
  rw [hp] at hl
  refine ⟨?_, hl.1⟩
  cases same with
  | true =>
    have hpt := (h.pt p).mpr (show (s.pc p).ownsPt true = true by rw [hp]; rfl)
    cases hf : s.ptable with
    | proc q =>
      rw [hf] at hpt
      exact congrArg Holder.proc (Option.some.inj hpt)
    | free | sched =>
      rw [hf] at hpt
      cases hpt
  | false => exact (h.lk p).mpr (show (s.pc p).ownsLk false = true by rw [hp]; rfl)

/-- **No wakeup is lost.** In every run of every client, a `wakeup(chan)` that finds a process
inside `sleep(chan, lk)` makes it `RUNNABLE`, unless a wakeup or a kill has done so since the
process called `sleep`; while it is under way, with the lock held, the process does not leave
`sleep`; and `sleep` returns with the lock held and no channel. -/
theorem no_lost_wakeup (M : Client ι σ ρ D) (same : Bool) (T : Table) (d : D) (s : St σ ρ D)
    (h : Reach (Step M same) (init T d) s) :
    (∀ p q chan t, (s.pc p).sleepOn = some chan → Wakes M same s q chan → Step M same s (.step q) t →
      s.made p = true ∨ (s.proc p).state = .sleeping ∧ (s.proc p).chan = some chan ∧
        (t.proc p).state = .runnable) ∧
    (∀ p q chan chan' k a t, (s.pc p).sleepOn = some chan → s.pc q = .wakeup chan' k →
      Step M same s a t → (t.pc p).sleepOn = some chan) ∧
    (∀ p chan k a t, (s.pc p).sleepOn = some chan → Step M same s a t → t.pc p = .crit k →
      (if same then t.ptable = .proc p else t.lk = some p) ∧ (t.proc p).chan = none) := by
  have hi := inv_reach h
  refine ⟨fun p q chan t hp hq hst => ?_, fun p q chan chan' k a t hp hq hst => ?_,
    fun p chan k a t hp hst hk => ?_⟩
  · obtain ⟨hlk, hpt, ht⟩ := hi.wakes hq hp hst
    refine (hi.sleeper hp hlk hpt).imp_right fun hs => ⟨hs.1, hs.2, ?_⟩
    rw [ht, wakeup1, if_pos hs]
  · have hl := hi.loc q
    rw [hq] at hl
    have hlk : s.lk = some q := (hi.lk q).mpr (show (s.pc q).ownsLk same = true by rw [hq, hl.1]; rfl)
    refine (hst.move.sleepOn hp).resolve_right ?_
    rw [hl.1, hlk]
    simp
  · exact (hi.move hst.move).crit hk

end Machine

/-! ### Sleep-locks -/

/-- `struct sleeplock`, without its spinlock. -/
structure Sleeplock where
  locked : Bool
  pid : ℤ

inductive SleeplockCode
  | acquiresleep | releasesleep | released

/-- `acquiresleep` and `releasesleep` of the sleep-lock at an address. -/
def sleeplock (lk : ℕ) : Client SleeplockCode SleeplockCode Unit Sleeplock where
  start := id
  code me
    | .acquiresleep, d =>
      if d.locked then (.sleep (.addr lk) .acquiresleep, d) else (.release (), ⟨true, me.pid⟩)
    | .releasesleep, _ => (.wakeup (.addr lk) .released, ⟨false, 0⟩)
    | .released, d => (.release (), d)

/-- The process in slot `n` has the identifier `n`. -/
def pidTable : Table := fun p => ⟨.running, p, none, none, false, 3, fun _ => 0, fun _ => 0⟩

def slot0 : Slot := ⟨0, NPROC_pos⟩
def slot1 : Slot := ⟨1, one_lt_NPROC⟩

/-- A process waits for a sleep-lock that another one has, and which is then released. -/
def contended : List (Act SleeplockCode) :=
  [.call slot0 .acquiresleep, .step slot0, .step slot0, .call slot1 .acquiresleep, .step slot1, .step slot1, .step slot1, .step slot1,
    .step slot1, .schedRelease, .call slot0 .releasesleep, .step slot0, .step slot0]

/-- `releasesleep` finds the process asleep and makes it `RUNNABLE`. -/
theorem releasesleep_wakes : ∃ s t, Reach (Step (sleeplock 0) false) (init pidTable ⟨false, 0⟩) s ∧
    Step (sleeplock 0) false s (.step slot0) t ∧ (s.proc slot1).state = .sleeping ∧ (t.proc slot1).state = .runnable := by
  have hrun : (exec (next (sleeplock 0) false) (init pidTable ⟨false, 0⟩) contended).map (fun s =>
      ((s.pc slot1).sleepOn, s.made slot1, match s.pc slot0 with | .wakeup chan _ => some chan | _ => none,
        (next (sleeplock 0) false s (.step slot0)).isSome)) =
      some (some (.addr 0), false, some (.addr 0), true) := by decide +kernel
  obtain ⟨s, hs, hv⟩ := Option.map_eq_some_iff.mp hrun
  simp only [Prod.mk.injEq] at hv
  obtain ⟨hsleep, hmade, hwake, hnext⟩ := hv
  obtain ⟨t, ht⟩ := Option.isSome_iff_exists.mp hnext
  have hr : Reach (Step (sleeplock 0) false) (init pidTable ⟨false, 0⟩) s :=
      reach_of_exec contended hs
  have hq : Wakes (sleeplock 0) false s slot0 (.addr 0) := by
    split at hwake
    · next chan k hk => exact ⟨k, hk.trans (by rw [Option.some.inj hwake])⟩
    · cases hwake
  rcases (no_lost_wakeup (sleeplock 0) false pidTable ⟨false, 0⟩ s hr).1 slot1 slot0
    (.addr 0) t hsleep hq ht with
    h | ⟨h, -, h'⟩
  · exact absurd (hmade.symm.trans h) nofun
  · exact ⟨s, t, hr, ht, h, h'⟩

end Xv6.Sleep
