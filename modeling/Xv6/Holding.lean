import Xv6.Sleep

/-!
`holdingsleep` of `sleeplock.c` and the functions that rely on it: `brelse` and `bwrite` of `bio.c`,
`iderw` of `ide.c` and `memide.c`, `iunlock` of `fs.c`.

`holdingsleep` returns `lk->locked`. It does not look at `lk->pid`, so that it says whether any
process holds the lock, and not whether the caller does.
-/

namespace Xv6.Holding

open Xv6.Lib.Run Xv6.ProcTable Xv6.Sleep
open Function (update update_apply)

/-- The calls on one sleep-lock. -/
inductive Code
  | op (k : SleeplockCode)
  | holdingsleep

def lift : Cmd SleeplockCode Unit → Cmd Code (Option ℤ)
  | .goto k => .goto (.op k)
  | .sleep chan k => .sleep chan (.op k)
  | .wakeup chan k => .wakeup chan (.op k)
  | .release _ => .release none

/-- `acquiresleep`, `releasesleep` and `holdingsleep`, the only one with a result. -/
def client (lk : ℕ) : Client Code Code (Option ℤ) Sleeplock where
  start := id
  code me
    | .op k, d => (lift ((sleeplock lk).code me k d).1, ((sleeplock lk).code me k d).2)
    | .holdingsleep, d => (.release (some (if d.locked then 1 else 0)), d)

/-! ### What the callers do with the result -/

/-- The calls on the lock that come after the check, unless it panics. -/
def check (fn : String) (r : ℤ) (after : List Code) : Except String (List Code) :=
  if r = 0 then .error fn else .ok after

def brelse (r : ℤ) : Except String (List Code) := check "brelse" r [.op .releasesleep]

/-- `bwrite` goes on to `iderw`, which checks again. -/
def bwrite (r : ℤ) : Except String (List Code) := check "bwrite" r [.holdingsleep]

def iderw (r : ℤ) : Except String (List Code) := check "iderw: buf not locked" r []

/-- `ref` is the reference count, if the pointer is not null. -/
def iunlock (ref : Option ℤ) (r : ℤ) : Except String (List Code) :=
  match ref with
  | none => .error "iunlock"
  | some ref => if r = 0 ∨ ref < 1 then .error "iunlock" else .ok [.op .releasesleep]

/-! ### Holders -/

/-- The machine, with history: who has got the lock from `acquiresleep` and has not released it. -/
structure Sys where
  st : St Code (Option ℤ) Sleeplock
  holds : Slot → Bool

def init (T : Table) : Sys := ⟨Sleep.init T ⟨false, 0⟩, fun _ => false⟩

def holdsAfter (s : Sys) : Act Code → Slot → Bool
  | .step p =>
    match s.st.pc p with
    | .crit (.op .acquiresleep) => if s.st.data.locked then s.holds else update s.holds p true
    | .crit (.op .releasesleep) => update s.holds p false
    | _ => s.holds
  | _ => s.holds

def next (lk : ℕ) (s : Sys) (a : Act Code) : Option Sys :=
  (Sleep.next (client lk) false s.st a).map fun t => ⟨t, holdsAfter s a⟩

/-- The result of its last call, while a process is in none. -/
def result : Pc Code (Option ℤ) → Option ℤ
  | .out r | .yielded r | .resumed r => r.join
  | _ => none

/-- `releasesleep` is called by a function whose check has passed, or, in `iput`, by the process
that holds the lock; its second half is no function. -/
def Called (s : Sys) : Act Code → Prop
  | .call p (.op .releasesleep) => s.holds p = true ∨ ∃ r ∈ result (s.st.pc p), r ≠ 0
  | .call _ (.op .released) => False
  | _ => True

/-- No process asks while another one holds the lock. -/
def Alone (s : Sys) : Act Code → Prop
  | .step p =>
    match s.st.pc p with
    | .crit .holdingsleep => ∀ q, q ≠ p → s.holds q = false
    | _ => True
  | _ => True

instance (s : Sys) (a : Act Code) : Decidable (Called s a) := by
  unfold Called
  split <;> infer_instance

instance (s : Sys) (a : Act Code) : Decidable (Alone s a) := by
  unfold Alone
  split
  · split <;> infer_instance
  · infer_instance

/-- Any interleaving of the calls. -/
def Step (lk : ℕ) (s : Sys) (a : Act Code) (t : Sys) : Prop := next lk s a = some t ∧ Called s a

def AloneStep (lk : ℕ) (s : Sys) (a : Act Code) (t : Sys) : Prop :=
  next lk s a = some t ∧ Called s a ∧ Alone s a

/-- The call that a process is in. -/
def code : Pc Code (Option ℤ) → Option Code
  | .acquire k | .crit k | .sleepAcquire _ k | .sleepRelease _ k | .sleepSet _ k | .asleep _ k
  | .woken _ k | .reacquire _ k | .wakeup _ k => some k
  | .out _ | .yielded _ | .resumed _ => none

/-- One process at most holds the lock, it is locked if one does, and whoever is about to release
it, or has been told that it may, holds it. -/
structure Inv (s : Sys) : Prop where
  one : ∀ p q, s.holds p = true → s.holds q = true → p = q
  locked : s.st.data.locked = true ↔ ∃ p, s.holds p = true
  releasing : ∀ p, code (s.st.pc p) = some (.op .releasesleep) → s.holds p = true
  checked : ∀ p r, result (s.st.pc p) = some r → r ≠ 0 → s.holds p = true

lemma inv_init (T : Table) : Inv (init T) := by
  refine ⟨nofun, ?_, nofun, nofun⟩
  simp [init, Sleep.init]

/-- Neither the lock nor its holder changes. -/
lemma Inv.keep {s t : Sys} (h : Inv s) (hd : t.st.data.locked = s.st.data.locked)
    (hh : t.holds = s.holds)
    (hrel : ∀ p, code (t.st.pc p) = some (.op .releasesleep) → s.holds p = true)
    (hchk : ∀ p r, result (t.st.pc p) = some r → r ≠ 0 → s.holds p = true) : Inv t := by
  refine ⟨?_, ?_, ?_, ?_⟩ <;> simp only [hd, hh]
  · exact h.one
  · exact h.locked
  · exact hrel
  · exact hchk

/-- The piece of code that a process runs with the spinlock held. -/
lemma Inv.crit {lk : ℕ} {s t : Sys} {p : Slot} {k : Code} (h : Inv s) (hp : s.st.pc p = .crit k)
    (hst : next lk s (.step p) = some t) (halone : Alone s (.step p)) : Inv t := by
  obtain ⟨u, hu, rfl⟩ := Option.map_eq_some_iff.mp hst
  simp only [Sleep.next, procStep, hp, Option.some.injEq] at hu
  subst hu
  have hrel := h.releasing
  have hchk := h.checked
  simp only [Alone, hp] at halone
  rcases k with (_ | _ | _) | _
  · cases hl : s.st.data.locked with
    | true =>
      simp only [critStep, client, sleeplock, hl, lift, holdsAfter, hp, if_true]
      refine h.keep rfl rfl (fun q => ?_) fun q => ?_ <;> grind [code, result]
    | false =>
      -- nobody has it, and so this process is the only one
      have hfree (q : Slot) : s.holds q = false := by
        by_contra hq
        exact absurd (h.locked.mpr ⟨q, by simpa using hq⟩) (by simp [hl])
      simp only [critStep, client, sleeplock, hl, lift, holdsAfter, hp, Bool.false_eq_true, if_false]
      refine ⟨?_, ⟨fun _ => ⟨p, by simp⟩, fun _ => rfl⟩, fun q => ?_, fun q => ?_⟩ <;>
        grind [code, result]
  · have hown := hrel p (by simp [hp, code])
    have hone (q : Slot) := h.one q p
    simp only [critStep, client, sleeplock, lift, holdsAfter, hp]
    refine ⟨?_, ⟨by rintro ⟨⟩, ?_⟩, fun q => ?_, fun q => ?_⟩ <;> grind [code, result]
  · simp only [critStep, client, sleeplock, lift, holdsAfter, hp]
    refine h.keep rfl rfl (fun q => ?_) fun q => ?_ <;> grind [code, result]
  · simp only [critStep, client, holdsAfter, hp]
    refine h.keep rfl rfl (fun q => ?_) fun q => ?_
    · grind [code]
    · have := h.locked
      grind [result]

lemma Inv.step {lk : ℕ} {s t : Sys} {a : Act Code} (h : Inv s) (hst : AloneStep lk s a t) :
    Inv t := by
  obtain ⟨hst, hcalled, halone⟩ := hst
  have ⟨u, hu, ht⟩ := Option.map_eq_some_iff.mp hst
  have hm : Move (client lk) false s.st a u := Sleep.Step.move hu
  have hrel := h.releasing
  have hchk := h.checked
  cases hm with
  | goto hp | sleep hp | wakeup _ hp | release _ hp => exact h.crit hp hst halone
  | lockSame hs | wakeupSame hs | releaseSame hs | wokenSame hs => cases hs
  | @call p r k hp =>
    subst ht
    refine h.keep rfl rfl (fun q => ?_) fun q => ?_
    · by_cases hq : q = p
      · subst hq
        intro hk
        have hk : k = .op .releasesleep := by simpa [St.setPc, code, client] using hk
        subst hk
        rcases hcalled with hown | ⟨r, hr, hr0⟩
        · exact hown
        · exact hchk q r hr hr0
      · grind [code]
    · grind [result]
  | kill | schedAcquire | schedRelease | yield | dispatch | dispatchYielded =>
    subst ht
    refine h.keep rfl rfl (fun q => ?_) fun q => ?_ <;> grind [code, result]
  | @lock p k _ hp =>
    subst ht
    have hn : holdsAfter s (.step p) = s.holds := by
      rcases hp with hp | ⟨chan, hp⟩ <;> simp only [holdsAfter, hp]
    refine h.keep rfl hn (fun q => ?_) fun q => ?_ <;> grind [code, result]
  | @sleepAcquire p _ _ hp | @sleepRelease p _ _ hp | @sleepSet p _ _ hp | @woken p _ _ _ hp
  | @wakeupLoop p _ _ hp | @resumed p _ hp =>
    subst ht
    have hn : holdsAfter s (.step p) = s.holds := by simp only [holdsAfter, hp]
    refine h.keep rfl hn (fun q => ?_) fun q => ?_ <;> grind [code, result]

/-- **Ownership.** In every interleaving in which no process asks while another one holds the lock,
one process at most holds it; `holdingsleep` returns non-zero exactly to the holder; and the four
functions panic when any other process calls them. -/
theorem sleeplock_ownership (lk : ℕ) (T : Table) (s : Sys) (h : Reach (AloneStep lk) (init T) s) :
    (∀ p q, s.holds p = true → s.holds q = true → p = q) ∧
    (∀ p t, s.st.pc p = .crit .holdingsleep → AloneStep lk s (.step p) t →
      ∃ r, t.st.pc p = .out (some (some r)) ∧ (r ≠ 0 ↔ s.holds p = true) ∧
        (s.holds p = false → brelse r = .error "brelse" ∧ bwrite r = .error "bwrite" ∧
          iderw r = .error "iderw: buf not locked" ∧ ∀ ref, iunlock ref r = .error "iunlock")) := by
  have hinv : Inv s := h.inv (inv_init T) fun _ _ _ hi hst => hi.step hst
  refine ⟨hinv.one, fun p t hp hst => ?_⟩
  have halone := hst.2.2
  simp only [Alone, hp] at halone
  -- another process would have to hold it
  have hlocked : s.st.data.locked = s.holds p := by
    rw [Bool.eq_iff_iff, hinv.locked]
    refine ⟨fun ⟨q, hq⟩ => ?_, fun hq => ⟨p, hq⟩⟩
    by_contra hne
    have hqp : q ≠ p := by
      rintro rfl
      exact hne hq
    simp [halone q hqp] at hq
  obtain ⟨u, hu, rfl⟩ := Option.map_eq_some_iff.mp hst.1
  simp only [Sleep.next, procStep, hp, Option.some.injEq] at hu
  subst hu
  refine ⟨if s.holds p then 1 else 0, ?_, ?_, fun hno => ?_⟩
  · simp [critStep, client, St.setPc, hlocked]
  · cases s.holds p <;> simp
  · refine ⟨?_, ?_, ?_, fun ref => ?_⟩ <;> simp only [hno, Bool.false_eq_true, if_false]
    · rfl
    · rfl
    · rfl
    · cases ref <;> simp [iunlock]

/-- A process gets the lock, and asks. -/
def asks : List (Act Code) :=
  [.call slot0 (.op .acquiresleep), .step slot0, .step slot0, .call slot0 .holdingsleep, .step slot0]

theorem sleeplock_ownership_holder : ∃ s t, AloneStep 0 s (.step slot0) t ∧ s.holds slot0 = true ∧
    ∃ r, t.st.pc slot0 = .out (some (some r)) ∧ r ≠ 0 := by
  have hrun : (exec (guarded (next 0) fun s a => Called s a ∧ Alone s a) (init pidTable) asks).map
      (fun s => (s.holds slot0, match s.st.pc slot0 with | .crit .holdingsleep => true | _ => false,
        (next 0 s (.step slot0)).isSome, decide (Called s (.step slot0) ∧ Alone s (.step slot0)))) =
      some (true, true, true, true) := by decide +kernel
  obtain ⟨s, hs, hv⟩ := Option.map_eq_some_iff.mp hrun
  simp only [Prod.mk.injEq, decide_eq_true_eq] at hv
  obtain ⟨hholds, hpc, hnext, hok⟩ := hv
  obtain ⟨t, ht⟩ := Option.isSome_iff_exists.mp hnext
  have hp : s.st.pc slot0 = .crit .holdingsleep := by
    split at hpc
    · assumption
    · cases hpc
  obtain ⟨r, hr, hiff, -⟩ := (sleeplock_ownership 0 pidTable s (reach_of_guarded hs)).2 slot0 t hp
    ⟨ht, hok⟩
  exact ⟨s, t, ⟨ht, hok⟩, hholds, r, hr, hiff.mpr hholds⟩

/-- One process has the lock and another one calls `brelse`: its check passes, it releases the lock
of the first and gets it. -/
def stolen : List (Act Code) :=
  [.call slot0 (.op .acquiresleep), .step slot0, .step slot0,
    .call slot1 .holdingsleep, .step slot1, .step slot1,
    .call slot1 (.op .releasesleep), .step slot1, .step slot1, .step slot1, .step slot1,
    .call slot1 (.op .acquiresleep), .step slot1, .step slot1]

/-- The lock then has two holders. -/
theorem sleeplock_ownership_stolen :
    (∃ s, Reach (Step 0) (init pidTable) s ∧ s.holds slot0 = true ∧ s.holds slot1 = false ∧
      result (s.st.pc slot1) = some 1) ∧ (brelse 1).toOption.isSome ∧
    ∃ s, Reach (Step 0) (init pidTable) s ∧ s.holds slot0 = true ∧ s.holds slot1 = true := by
  refine ⟨?_, rfl, ?_⟩
  · exact guarded_any (stolen.take 6) (by decide +kernel) fun _ _ => id
  · exact guarded_any stolen (by decide +kernel) fun _ _ => id

end Xv6.Holding
