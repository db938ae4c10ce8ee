import Xv6.ProcAgree
import Xv6.ProcFamily

/-!
`fork`, `exit` and `wait` on the machine: it refines the family model, and no process stays
asleep in `wait` while it has a zombie child.
-/

namespace Xv6.ProcMachine

open Xv6.ProcTable Xv6.ProcFamily Xv6.Lib.Run
open Function (update update_of_ne update_self update_eq_self update_apply apply_update)

variable {C : Type*}

def kindOf : ProcState → Kind
  | .unused => .unused
  | .embryo => .embryo
  | .zombie => .zombie
  | .sleeping | .runnable | .running => .live

def busyOf : Th → Option (Slot × Bool)
  | .fork np => some (np, false)
  | .forkCopied np => some (np, true)
  | .tickFork np copied | .yieldFork np copied => some (np, copied)
  | _ => none

lemma busyOf_ticked {x y : Th} (h : x.ticked = some y) : busyOf y = busyOf x := by
  cases x <;> cases h <;> rfl

lemma busyOf_yielded {x y : Th} (h : x.yielded = some y) : busyOf y = busyOf x := by
  cases x <;> cases h <;> rfl

lemma busyOf_inFork (np : Slot) (copied : Bool) :
    busyOf (.inFork np copied) = some (np, copied) := by
  cases copied <;> rfl

/-- The family a state of the machine stands for. -/
def family (s : St C) : Family where
  kind p := kindOf (s.proc p).state
  pid p := (s.proc p).pid
  parent p := (s.proc p).parent
  busy p := busyOf (s.th p)
  log := s.log
  forks := s.forks
  nextpid := s.nextpid

/-! ### Refinement -/

lemma Quiet.kind_eq {T T' : Table} (h : Quiet T T') (q : Slot) :
    kindOf (T' q).state = kindOf (T q).state := by
  rcases h.state q with h | ⟨h0, h⟩
  · rw [h]
  · rw [h0, h]; rfl

variable [DecidableEq C] {s t : St C} {c : C} {a : Act}

omit [DecidableEq C] in
/-- A slot without a process that runs or could is in no `fork`. -/
lemma Agree.busy_none (hs : Agree s) {p : Slot}
    (hp : (s.proc p).state ≠ .running ∧ (s.proc p).state ≠ .runnable) : busyOf (s.th p) = none := by
  have hf := hs.fits p
  cases hth : s.th p <;> simp only [busyOf]
  all_goals
    rw [hth] at hf
    cases hst : (s.proc p).state <;> simp [hst, Th.fits] at hf hp

section Update

variable {β : Type}

/-- One slot of the table changes. -/
lemma map_update (f : Proc → β) (T : Table) (q : Slot) (P : Proc) :
    (fun r => f (update T q P r)) = update (fun r => f (T r)) q (f P) :=
  funext (apply_update (fun _ => f) T q P)

lemma map_update_same (f : Proc → β) (T : Table) (q : Slot) (P : Proc) (h : f P = f (T q)) :
    (fun r => f (update T q P r)) = fun r => f (T r) := by
  rw [map_update, h, update_eq_self]

/-- A `fork` by `p` goes on; the slot it fills is in none. -/
lemma busy_fork {th : Slot → Th} {p np : Slot} {x y : Th} (hne : np ≠ p) (hy : busyOf y = none)
    (hb : busyOf (th np) = none) :
    (fun r => busyOf (update (update th p x) np y r)) =
      update (fun r => busyOf (th r)) p (busyOf x) := by
  funext r
  by_cases hr : r = np
  · subst hr
    rw [update_self, update_of_ne hne, hy, hb]
  · rw [update_of_ne hr]
    exact apply_update (fun _ => busyOf) th p x r

end Update

omit [DecidableEq C] in
/-- A step of process `p` alone that keeps it alive. -/
lemma family_own {p : Slot} {P : Proc} {x : Th} (hproc : t.proc = update s.proc p P)
    (hth : t.th = update s.th p x) (hkind : kindOf P.state = kindOf (s.proc p).state)
    (hpid : P.pid = (s.proc p).pid) (hparent : P.parent = (s.proc p).parent)
    (hbusy : busyOf x = busyOf (s.th p)) (hlog : t.log = s.log) (hforks : t.forks = s.forks)
    (hnextpid : t.nextpid = s.nextpid) : family t = family s := by
  refine Family.ext ?_ ?_ ?_ (funext fun q => ?_) hlog hforks hnextpid
  · simpa only [family, hproc] using map_update_same (fun P => kindOf P.state) s.proc p P hkind
  · simpa only [family, hproc] using map_update_same Proc.pid s.proc p P hpid
  · simpa only [family, hproc] using map_update_same Proc.parent s.proc p P hparent
  · by_cases hq : q = p <;> simp [family, hth, hq, hbusy]

omit [DecidableEq C] in
/-- A step that changes the table at all places, and keeps what the family sees of it. -/
lemma family_table {T : Table} (hkind : ∀ q, kindOf (T q).state = kindOf (s.proc q).state)
    (hpid : ∀ q, (T q).pid = (s.proc q).pid) (hparent : ∀ q, (T q).parent = (s.proc q).parent)
    (ht : t.proc = T := by rfl) (hth : t.th = s.th := by rfl) (hlog : t.log = s.log := by rfl)
    (hforks : t.forks = s.forks := by rfl) (hnextpid : t.nextpid = s.nextpid := by rfl) :
    family t = family s := by
  simp only [family, ht, hth, hlog, hforks, hnextpid, hkind, hpid, hparent]

/-- **Every step of the machine is a step of the family or leaves it alone.** -/
lemma Eff.refines (hs : Agree s) (h : Eff s c a t) :
    family t = family s ∨ FStep (family s) () (family t) := by
  have hrun {p : Slot} {m : Bool} (hctl : (s.cpu c).ctl = .run p m) :
      (s.proc p).state = .running := ((hs.cpu c).run hctl).2.1
  have hother {p q : Slot} {m : Bool} (hctl : (s.cpu c).ctl = .run p m)
      (hq : (s.proc q).state ≠ .running) : q ≠ p := by
    rintro rfl
    exact hq (hrun hctl)
  cases h with
  | dispatch p mlfq hctl hp =>
    exact Or.inl (family_own rfl (update_eq_self p _).symm (by simp [hp, kindOf]) rfl rfl rfl
      rfl rfl rfl)
  | backMlfq p hctl =>
    have hsame := account_same s.proc p
    exact Or.inl (family_table (fun q => by rw [(hsame q).state]) (fun q => (hsame q).pid)
      fun q => (hsame q).parent)
  | wakeup b hctl hlock =>
    have hq := wakeup1_quiet s.proc (some (.addr b))
    exact Or.inl (family_table (Quiet.kind_eq hq) hq.pid (wakeup1_parent _ _))
  | kill pid p m hctl hth hlock =>
    have hq := kill_quiet s.proc pid
    exact Or.inl (family_table (Quiet.kind_eq hq) hq.pid (kill_parent _ _))
  | resume p m hctl hlock hth =>
    refine Or.inl (family_own (update_eq_self p _).symm rfl rfl rfl rfl ?_ rfl rfl rfl)
    rcases hth with h | h <;> rw [h] <;> rfl
  | resumeFork p np copied m hctl hlock hth =>
    refine Or.inl (family_own (update_eq_self p _).symm rfl rfl rfl rfl ?_ rfl rfl rfl)
    rw [busyOf_inFork, hth]
    rfl
  | resumeSleep p m hctl hlock hth =>
    exact Or.inl (family_own rfl rfl rfl rfl rfl (by rw [hth]; rfl) rfl rfl rfl)
  | resumeWait p m hctl hlock hth =>
    exact Or.inl (family_own rfl rfl rfl rfl rfl (by rw [hth]; rfl) rfl rfl rfl)
  | tick p m x hctl hth =>
    exact Or.inl (family_own rfl rfl rfl rfl rfl (busyOf_ticked hth) rfl rfl rfl)
  | fault p m hctl hth =>
    exact Or.inl (family_own rfl (update_eq_self p _).symm rfl rfl rfl rfl rfl rfl rfl)
  | yield p m x hctl hth hlock =>
    exact Or.inl (family_own rfl rfl (by simp [hrun hctl, kindOf]) rfl rfl (busyOf_yielded hth)
      rfl rfl rfl)
  | sleep a p m hctl hth hlock =>
    exact Or.inl (family_own rfl rfl (by simp [hrun hctl, kindOf]) rfl rfl (by rw [hth]; rfl)
      rfl rfl rfl)
  | waitSleep p m hctl hth hlock hq =>
    exact Or.inl (family_own rfl rfl (by simp [hrun hctl, kindOf]) rfl rfl (by rw [hth]; rfl)
      rfl rfl rfl)
  | wait p m hctl hth hlock =>
    exact Or.inl (family_own (update_eq_self p _).symm rfl rfl rfl rfl (by rw [hth]; rfl)
      rfl rfl rfl)
  | waitFail p m hctl hth hlock hq =>
    refine Or.inr ?_
    convert FStep.waitFail (K := family s) p using 1
    refine Family.ext rfl rfl rfl (funext fun q => ?_) rfl rfl rfl
    by_cases hq : q = p <;> simp [family, hq, hth, busyOf]
  | forkFail p np m hctl hth =>
    have hnp := hs.embryo p np (by simp [hth, Th.child])
    refine Or.inr ?_
    convert FStep.fail (K := family s) p np (by simp [family, hth, busyOf]) using 1
    exact Family.ext (map_update (fun P => kindOf P.state) s.proc np _)
      (map_update_same Proc.pid s.proc np _ (by rfl))
        (map_update_same Proc.parent s.proc np _ (by rfl))
      (busy_fork (hother hctl (by simp [hnp])) rfl (hs.busy_none (by simp [hnp]))) rfl rfl rfl
  | forkCopy p np m hctl hth =>
    refine Or.inr ?_
    convert FStep.copy (K := family s) p np (by simp [family, hth, busyOf]) using 1
    exact Family.ext (map_update_same (fun P => kindOf P.state) s.proc np _ (by rfl))
      (map_update_same Proc.pid s.proc np _ (by rfl)) (map_update Proc.parent s.proc np _)
      (funext (apply_update (fun _ => busyOf) s.th p _)) rfl rfl rfl
  | forkDone p np m hctl hth hlock =>
    have hnp := hs.embryo p np (by simp [hth, Th.child])
    refine Or.inr ?_
    convert FStep.done (K := family s) p np (by simp [family, hth, busyOf]) using 1
    exact Family.ext (map_update (fun P => kindOf P.state) s.proc np _)
      (map_update_same Proc.pid s.proc np _ (by rfl))
        (map_update_same Proc.parent s.proc np _ (by rfl))
      (busy_fork (hother hctl (by simp [hnp])) rfl (hs.busy_none (by simp [hnp]))) rfl rfl rfl
  | allocproc p np m hctl hth hlock hnp =>
    have hu : (s.proc np).state = .unused := by simpa using first_some hnp
    refine Or.inr ?_
    convert FStep.alloc (K := family s) p np (by simp [family, hrun hctl, kindOf])
      (by simp [family, hth, busyOf]) (by simp [family, hu, kindOf]) using 1
    exact Family.ext (map_update (fun P => kindOf P.state) s.proc np _)
      (map_update Proc.pid s.proc np _)
      (map_update_same Proc.parent s.proc np _ (by rfl))
      (busy_fork (hother hctl (by simp [hu])) rfl (hs.busy_none (by simp [hu]))) rfl rfl rfl
  | exit p m hctl hth hlock hp =>
    have he := exit_spec initproc p s.proc
    refine Or.inr ?_
    convert FStep.exit (K := family s) p (by simp [family, hrun hctl, kindOf])
      (by simp [family, hth, busyOf]) hp using 1
    refine Family.ext (funext fun q => ?_) (funext he.pid) (funext he.parent)
      (funext fun q => ?_) rfl rfl rfl
    · simp only [family, update_apply]
      split_ifs with hq
      · subst hq
        exact congrArg kindOf he.zombie
      · change kindOf (ProcTable.exit initproc s.proc p q).state = kindOf (s.proc q).state
        rcases he.state q hq with h | ⟨h0, h⟩
        · rw [h]
        · rw [h0, h]; rfl
    · by_cases hq : q = p <;> simp [family, leave, hq, hth, busyOf]
  | reap p q m hctl hth hlock hq =>
    obtain ⟨hpar, hz⟩ := waitScan_zombie hq
    have hb := hs.busy_none (p := q) (by simp [hz])
    refine Or.inr ?_
    convert FStep.reap (K := family s) p q (by simp [family, hrun hctl, kindOf])
      (by simp [family, hz, kindOf]) hpar using 1
    refine Family.ext (map_update (fun P => kindOf P.state) s.proc q _)
      (map_update Proc.pid s.proc q _)
      (map_update Proc.parent s.proc q _) (funext fun r => ?_) rfl rfl rfl
    simp only [family, setTh_th, update_apply]
    split_ifs with h1 h2
    · rw [h1, hth]; rfl
    · rw [h2, hb]; rfl
    · rfl
  | _ => exact Or.inl rfl

/-! ### Nobody sleeps through the exit of a child -/

/-- A process asleep in `wait` has no zombie child. -/
def Awake (s : St C) : Prop := ∀ p q, (s.proc p).state = .sleeping →
  (s.proc p).chan = some (.proc p) → (s.proc q).parent = some p → (s.proc q).state ≠ .zombie

lemma Eff.awake (hA : Agree s) (hirr : ∀ p, (s.proc p).parent ≠ some p) (hs : Awake s)
    (h : Eff s c a t) : Awake t := by
  have hrun {p : Slot} {m : Bool} (hctl : (s.cpu c).ctl = .run p m) :
      (s.proc p).state = .running := ((hA.cpu c).run hctl).2.1
  intro p' q hp' hc hpar hz
  have hs' := hs p' q
  cases h with
  | backMlfq p hctl =>
    have hsame := account_same s.proc p
    grind [(hsame p').state, (hsame p').chan, (hsame q).state, (hsame q).parent]
  | wakeup b hctl hlock =>
    have hq := wakeup1_quiet s.proc (some (.addr b))
    grind [hq.state p', hq.chan p', hq.state q, wakeup1_parent]
  | kill pid p m hctl hth hlock =>
    have hq := kill_quiet s.proc pid
    grind [hq.state p', hq.chan p', hq.state q, kill_parent]
  | forkCopy p np m hctl hth =>
    have he := hA.embryo p np (by simp [hth, Th.child])
    simp only [setParent] at hp' hc hpar hz
    grind
  | waitSleep p m hctl hth hlock hq =>
    have hscan := waitScan_sleep hq q
    simp only [leave, setSleep, setCpu_proc, setTh_proc] at hp' hc hpar hz
    grind
  | exit p m hctl hth hlock hp =>
    have he := exit_spec initproc p s.proc
    change (ProcTable.exit initproc s.proc p p').state = _ at hp'
    change (ProcTable.exit initproc s.proc p p').chan = _ at hc
    change (ProcTable.exit initproc s.proc p q).parent = _ at hpar
    change (ProcTable.exit initproc s.proc p q).state = _ at hz
    rw [he.parent q] at hpar
    by_cases hqp : q = p
    · -- the zombie is the process that exits: its parent has been woken
      subst hqp
      rw [if_neg (hirr q)] at hpar
      exact he.parentAwake p' hpar p' hp' hc
    have hz' : (s.proc q).state = .zombie := by grind [he.state q hqp]
    split_ifs at hpar with hqpar
    · -- a zombie passed on to `init`, which has been woken
      cases hpar
      exact he.initAwake q hqpar hz' initproc hp' hc
    · grind [he.state p', he.zombie, he.chan p']
  | _ =>
    try simp only [ProcMachine.dispatch, leave, setState, setSleep, clearChan,
      ProcTable.allocproc, ProcTable.reap, charge, setCpu_proc, setTh_proc] at hp' hc hpar hz
    grind

/-! ### Every run -/

omit [DecidableEq C] in
lemma family_init (policy : C → ℤ) : family (init policy) = start := by
  refine Family.ext (funext fun p => ?_) rfl rfl (funext fun p => ?_) rfl rfl rfl
  · by_cases hp : p = initproc <;> simp [family, init, start, hp, kindOf]
  · by_cases hp : p = initproc <;> simp [family, init, start, hp, busyOf]

variable {policy : C → ℤ}

/-- **Refinement**: every run of the machine is a run of the family. -/
theorem reach_refines (hr : Reach Step (init policy) s) : Reach FStep start (family s) := by
  rw [← family_init policy]
  refine hr.sim (P := Agree) (agree_init policy) (fun _ _ _ hs h => (next_eff h).2.agree hs) ?_
  intro s l t hs h
  exact ((next_eff h).2.refines hs).imp_right fun hf => ⟨(), hf⟩

omit [DecidableEq C] in
lemma awake_init (policy : C → ℤ) : Awake (init policy) := by
  intro p q hp
  by_cases h : p = initproc <;> simp [init, h] at hp

lemma reach_awake (hr : Reach Step (init policy) s) : Awake s := by
  induction hr with
  | refl => exact awake_init policy
  | tail hr h ih =>
    exact (next_eff h).2.awake (reach_agree hr) (reach_tree (reach_refines hr)).irrefl ih

/-- Only `wait` logs its own failure, for one of the two reasons. -/
lemma Eff.waitFail_spec (h : Eff s c a t) {pid : ℤ} (hlog : t.log = .waitFail pid :: s.log) :
    ∃ p m, (s.cpu c).ctl = .run p m ∧ (s.proc p).pid = pid ∧
      ((∀ q, (s.proc q).parent ≠ some p) ∨ (s.proc p).killed) := by
  cases h with
  | waitFail p m hctl hth hlock hq =>
    obtain ⟨he, -⟩ := List.cons.inj hlog
    exact ⟨p, m, hctl, Event.waitFail.inj he, waitScan_none hq⟩
  | _ => simp [leave, ProcMachine.dispatch] at hlog

omit [DecidableEq C] in
lemma kind_live {p : Slot} : (family s).kind p = .live ↔ (s.proc p).state ≠ .unused ∧
    (s.proc p).state ≠ .embryo ∧ (s.proc p).state ≠ .zombie := by
  cases h : (s.proc p).state <;> simp [family, h, kindOf]

omit [DecidableEq C] in
lemma kind_zombie {p : Slot} : (family s).kind p = .zombie ↔ (s.proc p).state = .zombie := by
  cases h : (s.proc p).state <;> simp [family, h, kindOf]

/-- **Exit and wait.** In every run with fewer than `2 ^ 31` forks:
a successful `wait` returns a pid that no other `wait` returns, after the process has exited, to
the process that forked it or, that one having exited, to `init`;
until then the slot of a process that has exited is a `ZOMBIE` with its pid;
`wait` fails only for want of children or because the caller was killed;
the parent of a process other than `init` has not exited; an `UNUSED` slot has no parent;
and nobody sleeps in `wait` beside a zombie child. -/
theorem exit_wait_reaping (hr : Reach Step (init policy) s) (hf : s.forks < 2 ^ 31) :
    (∀ l₁ c pid l₂, s.log = l₁ ++ .reap c pid :: l₂ →
      (∀ c', .reap c' pid ∉ l₁ ∧ .reap c' pid ∉ l₂) ∧ (∃ q, .exit q pid ∈ l₂) ∧
      ∃ pp, .fork pp pid ∈ l₂ ∧ (∀ pp', .fork pp' pid ∈ s.log → pp' = pp) ∧
        (c = pp ∨ c = (s.proc initproc).pid ∧ ∃ q, .exit q pp ∈ l₂)) ∧
    (∀ q pid, .exit q pid ∈ s.log →
      (∃ c, .reap c pid ∈ s.log) ∨ (s.proc q).state = .zombie ∧ (s.proc q).pid = pid) ∧
    (∀ l t pid, Step s l t → t.log = .waitFail pid :: s.log →
      ∃ p m, (s.cpu l.1).ctl = .run p m ∧ (s.proc p).pid = pid ∧
        ((∀ q, (s.proc q).parent ≠ some p) ∨ (s.proc p).killed)) ∧
    (∀ p, p ≠ initproc → (s.proc p).state ≠ .unused → (s.proc p).state ≠ .embryo →
      ∃ pp, (s.proc p).parent = some pp ∧ (s.proc pp).state ≠ .unused ∧
        (s.proc pp).state ≠ .embryo ∧ (s.proc pp).state ≠ .zombie ∧
        ∀ q, .exit q (s.proc pp).pid ∉ s.log) ∧
    (∀ p, (s.proc p).state = .unused → (s.proc p).parent = none) ∧
    (∀ p q, (s.proc p).state = .sleeping → (s.proc p).chan = some (.proc p) →
      (s.proc q).parent = some p → (s.proc q).state ≠ .zombie) := by
  obtain ⟨hT, hP, hH⟩ := reach_family (reach_refines hr) hf
  refine ⟨fun l₁ c pid l₂ hlog => ?_, fun q pid hq => ?_, fun l t pid h =>
    (next_eff h).2.waitFail_spec,
    fun p hp hu he => ?_, fun p hp => hT.unused p (by simp [family, hp, kindOf]), reach_awake hr⟩
  · obtain ⟨hnot, hexit, pp, hfork, hc⟩ := hH.lawful l₁ _ l₂ hlog
    have hmem : .fork pp pid ∈ s.log := by simp [hlog, hfork]
    refine ⟨fun c' => ⟨fun h => ?_, hnot c'⟩, hexit, pp, hfork,
      fun pp' h => hH.forkOnce pp' pp pid h hmem, ?_⟩
    · -- a later `wait` would have found this one in the history
      obtain ⟨k₁, k₂, rfl⟩ := List.append_of_mem h
      have hlog' : s.log = k₁ ++ .reap c' pid :: (k₂ ++ .reap c pid :: l₂) := by simp [hlog]
      exact (hH.lawful k₁ _ _ hlog').1 c (by simp)
    · exact hc.imp_right fun h => ⟨h.1.trans hP.init.symm, h.2⟩
  · exact (hH.exited q pid hq).imp_right fun h => ⟨kind_zombie.mp h.1, h.2⟩
  · have hkind : (family s).kind p = .live ∨ (family s).kind p = .zombie := by
      by_cases hz : (s.proc p).state = .zombie
      · exact Or.inr (kind_zombie.mpr hz)
      · exact Or.inl (kind_live.mpr ⟨hu, he, hz⟩)
    obtain ⟨pp, hpar, hlive⟩ := hT.parent p hkind hp
    obtain ⟨h1, h2, h3⟩ := kind_live.mp hlive
    exact ⟨pp, hpar, h1, h2, h3, hH.alive pp hlive⟩

/-- `init` waits for a child, sleeps, and gets its pid when it has exited. -/
theorem exit_wait_reaping_child : ∃ s : St Unit, Reach Step (init fun _ => 1) s ∧
    s.log = [] ++ .reap 1 2 :: [.exit ⟨1, by decide⟩ 2, .fork 1 2] ∧
    ∃ q, .exit q 2 ∈ [Event.exit ⟨1, by decide⟩ 2, .fork 1 2] := by
  obtain ⟨s, hr, hlog, hforks⟩ : ∃ s : St Unit, Reach Step (init fun _ => 1) s ∧
      s.log = [.reap 1 2, .exit ⟨1, by decide⟩ 2, .fork 1 2] ∧ s.forks = 1 :=
    reach_any ([.sched, .sched, .resume, .allocproc, .forkCopy, .forkDone, .wait, .waitScan, .sched,
      .sched, .sched, .resume, .exit, .sched, .sched, .sched, .resume, .waitScan].map fun a => ((), a))
      (by decide +kernel) fun _ _ => id
  exact ⟨s, hr, hlog, ((exit_wait_reaping hr (by rw [hforks]; decide)).1 [] 1 2 _ hlog).2.1⟩

end Xv6.ProcMachine
