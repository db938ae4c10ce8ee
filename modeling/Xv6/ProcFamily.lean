import Xv6.Lib.Run
import Xv6.ProcMachine

/-!
Families of processes: what `fork`, `exit` and `wait` are for. A slot is free, taken by a `fork`
in progress, alive or a zombie; every other detail of the process table is left out.
-/

namespace Xv6.ProcFamily

open Xv6.ProcTable Xv6.ProcMachine Xv6.Lib.Run
open Function (update update_of_ne)

inductive Kind
  | unused | embryo | live | zombie
  deriving DecidableEq

/-- `busy p` is the slot a `fork` of `p` has taken, and whether it has set the parent yet. -/
@[ext]
structure Family where
  kind : Slot → Kind
  pid : Slot → ℤ
  parent : Slot → Option Slot
  busy : Slot → Option (Slot × Bool)
  log : List Event
  forks : ℕ
  nextpid : ℤ

def adopt (parent : Slot → Option Slot) (p : Slot) : Slot → Option Slot := fun q =>
  if parent q = some p then some initproc else parent q

inductive FStep (K : Family) : Unit → Family → Prop
  | alloc (p np : Slot) (hp : K.kind p = .live) (hb : K.busy p = none) (hnp : K.kind np = .unused) :
      FStep K () { K with
        kind := update K.kind np .embryo
        pid := update K.pid np K.nextpid
        busy := update K.busy p (some (np, false))
        forks := K.forks + 1
        nextpid := wrap32 (K.nextpid + 1) }
  | fail (p np : Slot) (hb : K.busy p = some (np, false)) :
      FStep K () { K with
        kind := update K.kind np .unused
        busy := update K.busy p none }
  | copy (p np : Slot) (hb : K.busy p = some (np, false)) :
      FStep K () { K with
        parent := update K.parent np (some p)
        busy := update K.busy p (some (np, true)) }
  | done (p np : Slot) (hb : K.busy p = some (np, true)) :
      FStep K () { K with
        kind := update K.kind np .live
        busy := update K.busy p none
        log := .fork (K.pid p) (K.pid np) :: K.log }
  | exit (p : Slot) (hp : K.kind p = .live) (hb : K.busy p = none) (hi : p ≠ initproc) :
      FStep K () { K with
        kind := update K.kind p .zombie
        parent := adopt K.parent p
        log := .exit p (K.pid p) :: K.log }
  | reap (p q : Slot) (hp : K.kind p = .live) (hq : K.kind q = .zombie)
      (hpar : K.parent q = some p) :
      FStep K () { K with
        kind := update K.kind q .unused
        pid := update K.pid q 0
        parent := update K.parent q none
        log := .reap (K.pid p) (K.pid q) :: K.log }
  | waitFail (p : Slot) : FStep K () { K with log := .waitFail (K.pid p) :: K.log }

/-- Just after `userinit`. -/
def start : Family where
  kind := fun p => if p = initproc then .live else .unused
  pid := fun p => if p = initproc then 1 else 0
  parent := fun _ => none
  busy := fun _ => none
  log := []
  forks := 0
  nextpid := 2

/-! ### Pids -/

/-- The pids handed out so far. -/
def Alloc (n : ℕ) (pid : ℤ) : Prop := ∃ k : ℕ, 1 ≤ k ∧ k ≤ n + 1 ∧ pid = wrap32 k

lemma Alloc.succ {n : ℕ} {pid : ℤ} (h : Alloc n pid) : Alloc (n + 1) pid := by
  obtain ⟨k, h1, h2, h3⟩ := h
  exact ⟨k, h1, by omega, h3⟩

/-- The next pid is new, unless there have been too many. -/
lemma not_alloc_next {n : ℕ} (hn : n + 1 < 2 ^ 31) : ¬ Alloc n (wrap32 (n + 2)) := by
  rintro ⟨k, h1, h2, h3⟩
  unfold wrap32 at h3
  omega

/-! ### The history -/

/-- A successful `wait` for `pid` must find a child of the caller that has exited and has not
been returned before; `init` stands in for a parent that has exited. -/
def Ok (l : List Event) : Event → Prop
  | .reap c pid => (∀ c', .reap c' pid ∉ l) ∧ (∃ q, .exit q pid ∈ l) ∧
      ∃ pp, .fork pp pid ∈ l ∧ (c = pp ∨ c = 1 ∧ ∃ q, .exit q pp ∈ l)
  | _ => True

/-- Every event of the history was in order when it happened. -/
def Lawful (l : List Event) : Prop := ∀ l₁ e l₂, l = l₁ ++ e :: l₂ → Ok l₂ e

lemma lawful_cons {l : List Event} {e : Event} (h : Lawful l) (he : Ok l e) : Lawful (e :: l) := by
  intro l₁ e' l₂ heq
  rcases List.cons_eq_append_iff.mp heq with ⟨rfl, h'⟩ | ⟨l', rfl, h'⟩
  · obtain ⟨rfl, rfl⟩ := List.cons.inj h'
    exact he
  · exact h l' e' l₂ h'

/-- What `wait` has returned had exited. -/
lemma exited_of_reap {l : List Event} (h : Lawful l) {c pid : ℤ} (hc : .reap c pid ∈ l) :
    ∃ q, .exit q pid ∈ l := by
  obtain ⟨l₁, l₂, rfl⟩ := List.append_of_mem hc
  obtain ⟨-, ⟨q, hq⟩, -⟩ := h l₁ _ l₂ rfl
  exact ⟨q, by simp [hq]⟩

/-- The events in which a process is forked, exits or is returned by `wait`. -/
def about (pid : ℤ) : Event → Prop
  | .fork _ pid' => pid' = pid
  | .exit _ pid' => pid' = pid
  | .reap _ pid' => pid' = pid
  | .waitFail _ => False

/-! ### The family tree -/

/-- Who is whose parent. -/
structure Tree (K : Family) : Prop where
  init : K.kind initproc = .live ∧ K.parent initproc = none
  unused : ∀ p, K.kind p = .unused → K.parent p = none
  irrefl : ∀ p, K.parent p ≠ some p
  busy : ∀ p np b, K.busy p = some (np, b) →
    K.kind p = .live ∧ K.kind np = .embryo ∧ K.parent np = if b then some p else none
  inj : ∀ p q np b b', K.busy p = some (np, b) → K.busy q = some (np, b') → p = q
  embryo : ∀ np, K.kind np = .embryo → ∃ p b, K.busy p = some (np, b)
  parent : ∀ p, K.kind p = .live ∨ K.kind p = .zombie → p ≠ initproc →
    ∃ pp, K.parent p = some pp ∧ K.kind pp = .live

variable {K K' : Family}

/-- Whoever is a parent is alive. -/
lemma Tree.live_of_parent (h : Tree K) {p pp : Slot} (hp : K.parent p = some pp) :
    K.kind pp = .live := by
  rcases hk : K.kind p with _ | _ | _ | _
  · simp [h.unused p hk] at hp
  · obtain ⟨x, b, hb⟩ := h.embryo p hk
    obtain ⟨hx, -, hpar⟩ := h.busy x p b hb
    rw [hpar] at hp
    split_ifs at hp
    rwa [← Option.some.inj hp]
  all_goals
    have hi : p ≠ initproc := fun e => by simp [e, h.init.2] at hp
    obtain ⟨x, hx, hl⟩ := h.parent p (by simp [hk]) hi
    rwa [← Option.some.inj (hx.symm.trans hp)]

/-- Nothing in the tree has to do with a free slot that `fork` takes, or with one that it gives
back. A process that exits leaves its children to `initproc`, and a zombie is nobody's parent. -/
lemma Tree.step (h : Tree K) (hst : FStep K () K') : Tree K' := by
  cases hst with
  | alloc p np hp hb hnp =>
    have hfree (q : Slot) (b : Bool) : K.busy q ≠ some (np, b) := fun hq => by
      have := (h.busy q np b hq).2.1
      grind
    refine ⟨?_, ?_, h.irrefl, fun q x b hq => ?_, fun q r x b b' hq hr => ?_, fun x hx => ?_,
      fun q hq hi => ?_⟩
    · grind [h.init]
    · grind [h.unused]
    · grind [h.busy q x b, h.unused np]
    · by_cases hqp : q = p <;> by_cases hrp : r = p <;> grind [h.inj q r x b b']
    · -- the new slot is that of this `fork`
      by_cases hxn : x = np
      · exact ⟨p, false, by grind⟩
      · obtain ⟨q, b, hq⟩ := h.embryo x (by grind)
        exact ⟨q, b, by grind⟩
    · obtain ⟨pp, hpp, hl⟩ := h.parent q (by grind) hi
      exact ⟨pp, hpp, by grind⟩
  | fail p np hb =>
    have hbusy := h.busy p np false hb
    refine ⟨?_, ?_, h.irrefl, fun q x b hq => ?_, fun q r x b b' hq hr => ?_, fun x hx => ?_,
      fun q hq hi => ?_⟩
    · grind [h.init]
    · grind [h.unused]
    · grind [h.busy q x b, h.inj q p x b false]
    · grind [h.inj q r x b b']
    · obtain ⟨q, b, hq⟩ := h.embryo x (by grind)
      exact ⟨q, b, by grind⟩
    · obtain ⟨pp, hpp, hl⟩ := h.parent q (by grind) hi
      exact ⟨pp, hpp, by grind⟩
  | copy p np hb =>
    have hbusy := h.busy p np false hb
    refine ⟨?_, ?_, ?_, fun q x b hq => ?_, fun q r x b b' hq hr => ?_, fun x hx => ?_,
      fun q hq hi => ?_⟩
    · grind [h.init]
    · grind [h.unused]
    · grind [h.irrefl]
    · grind [h.busy q x b, h.inj q p x b false]
    · grind [h.inj q r x]
    · obtain ⟨q, b, hq⟩ := h.embryo x hx
      exact ⟨q, if q = p then true else b, by grind⟩
    · obtain ⟨pp, hpp, hl⟩ := h.parent q hq hi
      exact ⟨pp, by grind, hl⟩
  | done p np hb =>
    have hbusy := h.busy p np true hb
    refine ⟨?_, ?_, h.irrefl, fun q x b hq => ?_, fun q r x b b' hq hr => ?_, fun x hx => ?_,
      fun q hq hi => ?_⟩
    · grind [h.init]
    · grind [h.unused]
    · grind [h.busy q x b, h.inj q p x b true]
    · grind [h.inj q r x b b']
    · obtain ⟨q, b, hq⟩ := h.embryo x (by grind)
      exact ⟨q, b, by grind⟩
    · by_cases hqn : q = np
      · exact ⟨p, by grind, by grind⟩
      · obtain ⟨pp, hpp, hl⟩ := h.parent q (by grind) hi
        exact ⟨pp, hpp, by grind⟩
  | exit p hp hb hi =>
    refine ⟨?_, ?_, ?_, fun q x b hq => ?_, h.inj, fun x hx => ?_, fun q hq hqi => ?_⟩
    · grind [h.init, adopt]
    · grind [h.unused, adopt]
    · grind [h.irrefl, h.init, adopt]
    · grind [h.busy q x b, adopt]
    · exact h.embryo x (by grind)
    · obtain ⟨pp, hpp, hl⟩ := h.parent q (by grind) hqi
      exact ⟨if pp = p then initproc else pp, by grind [adopt], by grind [h.init]⟩
  | reap p q hp hq hpar =>
    refine ⟨?_, ?_, ?_, fun r x b hr => ?_, h.inj, fun x hx => ?_, fun r hr hi => ?_⟩
    · grind [h.init]
    · grind [h.unused]
    · grind [h.irrefl]
    · grind [h.busy r x b]
    · exact h.embryo x (by grind)
    · obtain ⟨pp, hpp, hl⟩ := h.parent r (by grind) hi
      exact ⟨pp, by grind, by grind⟩
  | waitFail p => exact ⟨h.init, h.unused, h.irrefl, h.busy, h.inj, h.embryo, h.parent⟩

/-! ### The pids in use -/

structure Pids (K : Family) : Prop where
  next : K.nextpid = wrap32 (K.forks + 2)
  init : K.pid initproc = 1
  pids : ∀ p, K.kind p ≠ .unused → Alloc K.forks (K.pid p)
  distinct : ∀ p q, K.kind p ≠ .unused → K.kind q ≠ .unused → K.pid p = K.pid q → p = q
  logged : ∀ e ∈ K.log, ∀ pid, about pid e → Alloc K.forks pid

lemma wrap32_succ (n : ℤ) : wrap32 (wrap32 n + 1) = wrap32 (n + 1) := by
  unfold wrap32
  omega

/-- A step that hands out no pid, and logs an event only about one in use. -/
lemma Pids.of_same (h : Pids K) (hnext : K'.nextpid = K.nextpid) (hforks : K'.forks = K.forks)
    (hinit : K'.pid initproc = 1)
    (hkind : ∀ p, K'.kind p ≠ .unused → K.kind p ≠ .unused ∧ K'.pid p = K.pid p)
    (hlog : ∀ e ∈ K'.log, e ∈ K.log ∨ ∀ pid, about pid e → ∃ p, K.kind p ≠ .unused ∧
      K.pid p = pid) :
    Pids K' where
  next := by rw [hnext, hforks, h.next]
  init := hinit
  pids p hp := by
    rw [hforks, (hkind p hp).2]
    exact h.pids p (hkind p hp).1
  distinct p q hp hq he := by
    rw [(hkind p hp).2, (hkind q hq).2] at he
    exact h.distinct p q (hkind p hp).1 (hkind q hq).1 he
  logged e he pid ha := by
    rw [hforks]
    rcases hlog e he with hold | hnew
    · exact h.logged e hold pid ha
    · obtain ⟨p, hp, rfl⟩ := hnew pid ha
      exact h.pids p hp

lemma Pids.step (hT : Tree K) (h : Pids K) (hst : FStep K () K') (hf : K'.forks < 2 ^ 31) :
    Pids K' := by
  cases hst with
  | alloc p np hp hb hnp =>
    -- the new pid is nobody else's
    have hnew : ¬ Alloc K.forks K.nextpid := by
      rw [h.next]
      exact not_alloc_next hf
    have hold (x : Slot) (hk : K.kind x ≠ .unused) : K.pid x ≠ K.nextpid :=
      fun e => hnew (e ▸ h.pids x hk)
    refine ⟨?_, ?_, fun q hq => ?_, fun q r hq hr he => ?_, fun e he pid ha =>
      (h.logged e he pid ha).succ⟩
    · rw [h.next, wrap32_succ]
      have hn : (K.forks : ℤ) + 2 + 1 = (K.forks + 1 : ℕ) + 2 := by push_cast; omega
      rw [hn]
    · grind [h.init, hT.init]
    · by_cases hqn : q = np
      · subst hqn
        refine ⟨K.forks + 2, by omega, le_rfl, ?_⟩
        simp [h.next]
      · simp only [update_of_ne hqn] at hq ⊢
        exact (h.pids q hq).succ
    · grind [h.distinct q r]
  | fail p np hb => exact h.of_same rfl rfl h.init (fun q hq => ⟨by grind, rfl⟩) fun e => .inl
  | copy p np hb => exact ⟨h.next, h.init, h.pids, h.distinct, h.logged⟩
  | done p np hb =>
    have hnp : K.kind np ≠ .unused := by simp [(hT.busy p np true hb).2.1]
    refine h.of_same rfl rfl h.init (fun q hq => ⟨by grind, rfl⟩) fun e he => ?_
    exact (List.mem_cons.mp he).symm.imp_right fun e pid ha => ⟨np, hnp, by rw [e] at ha; exact ha⟩
  | exit p hp hb hi =>
    refine h.of_same rfl rfl h.init (fun q hq => ⟨by grind, rfl⟩) fun e he => ?_
    exact (List.mem_cons.mp he).symm.imp_right fun e pid ha =>
      ⟨p, by simp [hp], by rw [e] at ha; exact ha⟩
  | reap p q hp hq hpar =>
    refine h.of_same rfl rfl (by grind [h.init, hT.init]) (fun r hr => by grind) fun e he => ?_
    exact (List.mem_cons.mp he).symm.imp_right fun e pid ha =>
      ⟨q, by simp [hq], by rw [e] at ha; exact ha⟩
  | waitFail p =>
    refine h.of_same rfl rfl h.init (fun q hq => ⟨hq, rfl⟩) fun e he => ?_
    exact (List.mem_cons.mp he).symm.imp_right fun e pid ha => by rw [e] at ha; exact ha.elim

/-! ### What the history says about the slots -/

structure History (K : Family) : Prop where
  fresh : ∀ p, K.kind p = .embryo → ∀ e ∈ K.log, ¬ about (K.pid p) e
  born : ∀ p, K.kind p = .live ∨ K.kind p = .zombie → p ≠ initproc →
    ∃ pp, .fork pp (K.pid p) ∈ K.log ∧ ((∃ x, K.parent p = some x ∧ K.pid x = pp) ∨
      K.parent p = some initproc ∧ ∃ q, .exit q pp ∈ K.log)
  forkOnce : ∀ pp pp' pid, .fork pp pid ∈ K.log → .fork pp' pid ∈ K.log → pp = pp'
  alive : ∀ p, K.kind p = .live → ∀ q, .exit q (K.pid p) ∉ K.log
  zombie : ∀ p, K.kind p = .zombie →
    .exit p (K.pid p) ∈ K.log ∧ ∀ c, .reap c (K.pid p) ∉ K.log
  exited : ∀ q pid, .exit q pid ∈ K.log →
    (∃ c, .reap c pid ∈ K.log) ∨ K.kind q = .zombie ∧ K.pid q = pid
  lawful : Lawful K.log

/-- Two slots in use have two pids, and a pid in the history has been handed out. -/
lemma History.step (hT : Tree K) (hP : Pids K) (h : History K) (hst : FStep K () K')
    (hf : K'.forks < 2 ^ 31) : History K' := by
  have hdistinct := hP.distinct
  cases hst with
  | alloc p np hp hb hnp =>
    -- the new pid has not been in the history
    have hnew (e : Event) (he : e ∈ K.log) : ¬ about K.nextpid e := fun ha => by
      have hal := hP.logged e he _ ha
      rw [hP.next] at hal
      exact not_alloc_next hf hal
    refine ⟨?_, fun q hq hi => ?_, h.forkOnce, ?_, ?_, ?_, h.lawful⟩
    · grind [h.fresh]
    · obtain ⟨pp, hpp, hor⟩ := h.born q (by grind) hi
      exact ⟨pp, by grind, by grind [hT.live_of_parent (p := q)]⟩
    · grind [h.alive]
    · grind [h.zombie]
    · grind [h.exited]
  | fail p np hb =>
    have hbusy := hT.busy p np false hb
    refine ⟨?_, fun q hq hi => h.born q (by grind) hi, h.forkOnce, ?_, ?_, ?_, h.lawful⟩
    · grind [h.fresh]
    · grind [h.alive]
    · grind [h.zombie]
    · grind [h.exited]
  | copy p np hb =>
    have hbusy := hT.busy p np false hb
    refine ⟨h.fresh, fun q hq hi => ?_, h.forkOnce, h.alive, h.zombie, h.exited, h.lawful⟩
    obtain ⟨pp, hpp, hor⟩ := h.born q hq hi
    exact ⟨pp, hpp, by grind⟩
  | done p np hb =>
    have hbusy := hT.busy p np true hb
    have hfresh := h.fresh np hbusy.2.1
    refine ⟨?_, fun q hq hi => ?_, ?_, ?_, ?_, ?_, lawful_cons h.lawful trivial⟩
    · grind [h.fresh, about]
    · by_cases hqn : q = np
      · exact ⟨K.pid p, by grind, .inl ⟨p, by grind⟩⟩
      · obtain ⟨pp, hpp, hor⟩ := h.born q (by grind) hi
        exact ⟨pp, by grind, by grind⟩
    · grind [h.forkOnce, about]
    · grind [h.alive, about]
    · grind [h.zombie]
    · grind [h.exited]
  | exit p hp hb hi =>
    refine ⟨?_, fun q hq hqi => ?_, ?_, ?_, ?_, ?_, lawful_cons h.lawful trivial⟩
    · grind [h.fresh, about]
    · obtain ⟨pp, hpp, hor⟩ := h.born q (by grind) hqi
      exact ⟨pp, by grind, by grind [adopt]⟩
    · grind [h.forkOnce]
    · grind [h.alive]
    · -- had it been returned by `wait`, it would have exited before
      grind [h.zombie, h.alive, exited_of_reap h.lawful]
    · grind [h.exited]
  | reap p q hp hq hpar =>
    obtain ⟨he, hr⟩ := h.zombie q hq
    obtain ⟨pp, hpp, hor⟩ := h.born q (.inr hq) (by grind [hT.init])
    refine ⟨?_, fun r hr hi => ?_, ?_, ?_, ?_, ?_, lawful_cons h.lawful ⟨hr, ⟨q, he⟩, pp, hpp, ?_⟩⟩
    · grind [h.fresh, about]
    · -- a zombie is nobody's parent
      obtain ⟨pp, hpp, ⟨x, hx, hxp⟩ | hor⟩ := h.born r (by grind) hi
      · have hlive := hT.live_of_parent hx
        exact ⟨pp, by grind, .inl ⟨x, by grind⟩⟩
      · exact ⟨pp, by grind, by grind⟩
    · grind [h.forkOnce]
    · grind [h.alive]
    · grind [h.zombie]
    · grind [h.exited]
    · grind [hP.init]
  | waitFail p =>
    refine ⟨?_, fun q hq hi => ?_, ?_, ?_, ?_, ?_, lawful_cons h.lawful trivial⟩
    · grind [h.fresh, about]
    · obtain ⟨pp, hpp, hor⟩ := h.born q hq hi
      exact ⟨pp, by grind, by grind⟩
    · grind [h.forkOnce]
    · grind [h.alive]
    · grind [h.zombie]
    · grind [h.exited]

/-! ### Every run -/

lemma start_tree : Tree start := by
  constructor <;> grind [start]

lemma start_pids : Pids start := by
  have hinit (p : Slot) (hp : start.kind p ≠ .unused) : p = initproc := by
    by_contra hne
    simp [start, hne] at hp
  refine ⟨by simp [start, wrap32], by simp [start], fun p hp => ?_,
    fun p q hp hq _ => (hinit p hp).trans (hinit q hq).symm, ?_⟩
  · rw [hinit p hp]
    exact ⟨1, le_rfl, by simp [start], by simp [start, wrap32]⟩
  · simp [start]

lemma start_history : History start := by
  constructor <;> simp [start, Lawful]
  all_goals grind

lemma FStep.forks_le (h : FStep K () K') : K.forks ≤ K'.forks := by
  cases h <;> simp

/-- The family tree of every run. -/
theorem reach_tree (hr : Reach FStep start K) : Tree K :=
  hr.inv start_tree fun _ _ _ h hst => h.step hst

/-- **The invariants of every run** with fewer than `2 ^ 31` forks. -/
theorem reach_family (hr : Reach FStep start K) (hf : K.forks < 2 ^ 31) :
    Tree K ∧ Pids K ∧ History K := by
  refine Reach.inv (P := fun K => K.forks < 2 ^ 31 → Tree K ∧ Pids K ∧ History K) hr
    (fun _ => ⟨start_tree, start_pids, start_history⟩) (fun K _ K' ih hst hf => ?_) hf
  obtain ⟨hT, hP, hH⟩ := ih (lt_of_le_of_lt hst.forks_le hf)
  exact ⟨hT.step hst, hP.step hT hst hf, hH.step hT hP hst hf⟩

end Xv6.ProcFamily
