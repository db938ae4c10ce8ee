import Xv6.SchedPolicy

/-!
Runs of one CPU under MLFQ in which no time is used: the first process forks, processes go to sleep
or give the CPU back, and the others wait in a row on the highest level. These runs show how the
scheduler may pass a process over.
-/

namespace Xv6.ProcTable

variable {T : Table} {p q : Slot}

lemma first_eq_some_iff {f : Slot → Bool} :
    first f = some p ↔ f p = true ∧ ∀ q < p, f q = false := by
  unfold first
  rw [List.find?_eq_some_iff_getElem]
  constructor
  · rintro ⟨hp, i, hi, rfl, hlt⟩
    refine ⟨hp, fun q hq => ?_⟩
    have hqi : q.val < i := by simpa [Fin.lt_def] using hq
    simpa using hlt q.val hqi
  · rintro ⟨hp, hlt⟩
    refine ⟨hp, p.val, by simp, by simp, fun j hj => ?_⟩
    have hjp : (⟨j, hj.trans p.isLt⟩ : Slot) < p := hj
    simpa using hlt _ hjp

lemma select_top (hp : (T p).state = .runnable ∧ (T p).priority = 3)
    (hlt : ∀ q < p, (T q).state ≠ .runnable) : select T = some p := by
  have hf : (first fun q => (T q).state = .runnable ∧ (T q).priority = 3) = some p :=
    first_eq_some_iff.mpr ⟨by simp [hp], fun q hq => by simp [hlt q hq]⟩
  unfold select
  rw [List.findSome?_cons, hf]

/-- A process that waits while the pass of another one ends. -/
lemma account_waiting (hs : Sane (T q)) (hq : q ≠ p) (hr : (T q).state = .runnable) :
    account T p q = boost (waited (T q)) := by
  have hl := hs.level
  have hup : updateWaitTicks (Function.update T p (demote (T p))) p q = waited (T q) := by
    unfold updateWaitTicks
    rw [if_neg hq, Function.update_of_ne hq, if_pos hr, if_neg (by omega)]
    rfl
  have hu : (waited (T q)).state ≠ .unused := fun hu => nomatch hr.symm.trans hu
  unfold account priorityBoost
  rw [hup, if_neg hu]

/-- A process on the highest level stays there, unless its time is used up. -/
lemma account_top (hs : ∀ q, Sane (T q)) (hq : (T q).priority = 3 ∧ (T q).ticks 3 = 0) :
    (account T p q).state = (T q).state ∧ (account T p q).priority = 3 ∧
      (account T p q).ticks 3 = 0 := by
  by_cases hqp : q = p
  · subst hqp
    rw [account_self hs, demote, if_neg (by simp [hq, slice])]
    exact ⟨rfl, hq⟩
  by_cases hr : (T q).state = .runnable
  · have hd : ¬ Due (waited (T q)) := by simp [Due, waited, hq]
    rw [account_waiting (hs q) hqp hr, boost_not_due hd]
    exact ⟨rfl, hq⟩
  · rw [account_other hs hqp hr]
    exact ⟨rfl, hq⟩

end Xv6.ProcTable

namespace Xv6.ProcMachine

open Xv6.ProcTable Xv6.Lib.Run

variable {C : Type*} [DecidableEq C] {s s₀ t : St C} {c : C} {a : Act} {i : Slot} {n : ℕ} {k : Ctl}
  {lock : Option C} {st : ProcState} {x : Th}

/-- CPU `c` is at `k` with process `i`. The slots before it sleep, those after it, up to `n`, wait
for their first turn, and the rest are free; nobody has used any time. -/
structure Row (s : St C) (c : C) (i : Slot) (n : ℕ) (k : Ctl) (lock : Option C) (st : ProcState)
    (x : Th) : Prop where
  panic : s.panic = none
  policy : (s.cpu c).policy = 1
  ctl : (s.cpu c).ctl = k
  lock : s.lock = lock
  le : i.val ≤ n
  before : ∀ p < i, (s.proc p).state = .sleeping
  state : (s.proc i).state = st
  th : s.th i = x
  after : ∀ p, i < p → p.val ≤ n → (s.proc p).state = .runnable ∧ s.th p = .forkret
  unused : ∀ p : Slot, n < p.val → (s.proc p).state = .unused
  level : ∀ p : Slot, p.val ≤ n → (s.proc p).priority = 3 ∧ (s.proc p).ticks 3 = 0

omit [DecidableEq C] in
lemma row_init (c : C) : Row (init fun _ => 1) c initproc 0 .idle none .runnable .forkret := by
  have hpos (p : Slot) (hp : p.val ≤ 0) : p = initproc := Fin.ext (by simpa [initproc] using hp)
  refine ⟨rfl, rfl, rfl, rfl, le_rfl, fun p hp => absurd hp (Nat.not_lt_zero _), rfl, rfl,
    fun p hp hn => ?_, fun p hp => ?_, fun p hp => ?_⟩
  · exact absurd (hpos p hn) hp.ne'
  · have hne : p ≠ initproc := fun e => by simp [e, initproc] at hp
    simp [init, hne]
  · rw [hpos p hp]
    exact ⟨rfl, rfl⟩

/-! ### One step -/

lemma mlfqStep_of_next (hctl : (s.cpu c).ctl = k) (hk : ∀ j, k ≠ .scan j)
    (h : next s c a = some t) : MlfqStep s (c, a) t := by
  have hrr : dispatchesRR s (c, a) = false := by
    unfold dispatchesRR
    cases k <;> simp_all
  unfold MlfqStep nextMlfq
  rw [hrr]
  exact h

omit [DecidableEq C] in
/-- A step that touches no process but `i`, and its state only. -/
lemma Row.move {k' : Ctl} {lock' : Option C} {st' : ProcState} {x' : Th}
    (h : Row s c i n k lock st x) (hpanic : t.panic = none)
    (hcpu : (t.cpu c).policy = 1 ∧ (t.cpu c).ctl = k') (hlock : t.lock = lock')
    (hi : (t.proc i).state = st' ∧ (t.proc i).priority = (s.proc i).priority ∧
      (t.proc i).ticks = (s.proc i).ticks) (hx : t.th i = x')
    (hother : ∀ p ≠ i, t.proc p = s.proc p ∧ t.th p = s.th p) : Row t c i n k' lock' st' x' := by
  have hne (p : Slot) (hp : n < p.val) : p ≠ i := fun e => absurd h.le (by rw [← e]; omega)
  obtain ⟨-, -, -, -, hle, hbefore, -, -, hafter, hunused, hlevel⟩ := h
  exact ⟨hpanic, hcpu.1, hcpu.2, hlock, hle, by grind, hi.1, hx, by grind, by grind, by grind⟩

lemma Row.acquire (h : Row s c i n .idle none st x) :
    ∃ t, MlfqStep s (c, .sched) t ∧ Row t c i n .pick (some c) st x := by
  refine ⟨_, mlfqStep_of_next h.ctl nofun
    (by simp [next, schedStep, h.panic, h.ctl, h.lock]; rfl), ?_⟩
  exact h.move h.panic (by simp [h.policy]) rfl ⟨h.state, rfl, rfl⟩ h.th fun _ _ => ⟨rfl, rfl⟩

omit [DecidableEq C] in
lemma Row.select (h : Row s c i n k lock .runnable x) : select s.proc = some i :=
  select_top ⟨h.state, (h.level i h.le).1⟩ fun p hp hr => nomatch (h.before p hp).symm.trans hr

lemma Row.pick (h : Row s c i n .pick lock .runnable x) :
    ∃ t, MlfqStep s (c, .sched) t ∧ Row t c i n (.run i true) lock .running x := by
  refine ⟨dispatch s c i true, mlfqStep_of_next h.ctl nofun
    (by simp [next, schedStep, h.panic, h.ctl, h.select]), ?_⟩
  refine h.move h.panic (by simp [dispatch, h.policy]) h.lock (by simp [dispatch, setState]) h.th ?_
  exact fun p hp => ⟨by simp [dispatch, setState, hp], rfl⟩

lemma Row.resume (h : Row s c i n (.run i true) (some c) st x) (hx : x = .forkret ∨ x = .yield) :
    ∃ t, MlfqStep s (c, .resume) t ∧ Row t c i n (.run i true) none st .run := by
  refine ⟨{ s.setTh i .run with lock := none }, mlfqStep_of_next h.ctl nofun ?_, ?_⟩
  · have hth := h.th
    rcases hx with rfl | rfl <;> simp [next, resumeStep, h.panic, h.ctl, h.lock, hth]
  · refine h.move h.panic ⟨h.policy, h.ctl⟩ rfl ⟨h.state, rfl, rfl⟩ (by simp) fun p hp => ⟨rfl, ?_⟩
    simp [hp]

lemma Row.yield (h : Row s c i n (.run i true) none st .run) :
    ∃ t, MlfqStep s (c, .yield) t ∧ Row t c i n (.back i true) (some c) .runnable .yield := by
  refine ⟨_, mlfqStep_of_next h.ctl nofun
    (by simp [next, h.panic, h.ctl, h.lock, h.th, Th.yielded]; rfl), ?_⟩
  refine h.move rfl (by simp [leave, h.policy]) rfl (by simp [leave, setState])
    (by simp [leave]) ?_
  exact fun p hp => ⟨by simp [leave, setState, hp], by simp [leave, hp]⟩

lemma Row.sleep (h : Row s c i n (.run i true) none st .run) :
    ∃ t, MlfqStep s (c, .sleep 0) t ∧ Row t c i n (.back i true) (some c) .sleeping .sleep := by
  refine ⟨_, mlfqStep_of_next h.ctl nofun
    (by simp [next, h.panic, h.ctl, h.lock, h.th, lockedStep]; rfl), ?_⟩
  refine h.move rfl (by simp [leave, h.policy]) rfl (by simp [leave, setSleep])
    (by simp [leave]) ?_
  exact fun p hp => ⟨by simp [leave, setSleep, hp], by simp [leave, hp]⟩

/-- The end of a pass leaves the row as it is. -/
lemma Row.account (h : Row s c i n (.back i true) lock st x) (hs : ∀ q, Sane (s.proc q)) :
    ∃ t, MlfqStep s (c, .sched) t ∧ Row t c i n .idle none st x := by
  have htop (p : Slot) (hp : p.val ≤ n) := account_top (p := i) hs (h.level p hp)
  refine ⟨_, mlfqStep_of_next h.ctl (by simp) (by simp [next, schedStep, h.panic, h.ctl]; rfl), ?_⟩
  refine ⟨h.panic, by simp [h.policy], by simp, rfl, h.le, fun p hp => ?_, ?_, h.th,
    fun p hp hn => ?_, fun p hp => ?_, fun p hp => (htop p hp).2⟩
  · exact (htop p (le_trans (Nat.le_of_lt hp) h.le)).1.trans (h.before p hp)
  · exact (htop i h.le).1.trans h.state
  · exact ⟨(htop p hn).1.trans (h.after p hp hn).1, (h.after p hp hn).2⟩
  · have hne : p ≠ i := fun e => absurd h.le (by rw [← e]; omega)
    have hu := h.unused p hp
    have hacc : ProcTable.account s.proc i p = s.proc p := account_other hs hne (by simp [hu])
    exact (congrArg Proc.state hacc).trans hu

/-- Process `i` forks: the row is one longer. -/
lemma Row.fork (h : Row s c i n (.run i true) none .running .run) (hn : n + 1 < NPROC) :
    ∃ t, Reach MlfqStep s t ∧ Row t c i (n + 1) (.run i true) none .running .run := by
  obtain ⟨np, hnp⟩ : ∃ np : Slot, np.val = n + 1 := ⟨⟨n + 1, hn⟩, rfl⟩
  have hne : np ≠ i := fun e => absurd h.le (by rw [← e]; omega)
  have hused (p : Slot) (hp : p.val ≤ n) : (s.proc p).state ≠ .unused := by
    rcases lt_trichotomy p i with hlt | rfl | hgt
    · simp [h.before p hlt]
    · simp [h.state]
    · simp [(h.after p hgt hp).1]
  have hfree : first (fun q => (s.proc q).state = .unused) = some np := by
    refine first_eq_some_iff.mpr ⟨by simp [h.unused np (by omega)], fun q hq => ?_⟩
    have hq' : q.val < np.val := hq
    simpa using hused q (by omega)
  -- the three steps of `fork`
  let s₁ : St C := { (s.setTh i (.fork np)).setTh np .embryo with
    proc := allocproc s.proc np s.nextpid
    nextpid := wrap32 (s.nextpid + 1)
    forks := s.forks + 1 }
  let s₂ : St C := { s₁.setTh i (.forkCopied np) with proc := setParent s₁.proc np i }
  let s₃ : St C := { (s₂.setTh i .run).setTh np .forkret with
    proc := setState s₂.proc np .runnable
    log := .fork (s₂.proc i).pid (s₂.proc np).pid :: s₂.log }
  have h₁ : next s c .allocproc = some s₁ := by
    simp [next, h.panic, h.ctl, h.lock, h.th, lockedStep, hfree, s₁]
  have h₂ : next s₁ c .forkCopy = some s₂ := by
    simp [next, h.panic, h.ctl, forkStep, hne.symm, s₂, s₁]
  have h₃ : next s₂ c .forkDone = some s₃ := by
    simp [next, h.panic, h.ctl, h.lock, forkStep, s₃, s₂, s₁]
  have hr₁ : Reach MlfqStep s s₁ := .tail .refl (mlfqStep_of_next h.ctl (by simp) h₁)
  have hr₂ : Reach MlfqStep s s₂ := hr₁.tail (mlfqStep_of_next h.ctl (by simp) h₂)
  have hr₃ : Reach MlfqStep s s₃ := hr₂.tail (mlfqStep_of_next h.ctl (by simp) h₃)
  have hproc (p : Slot) (hp : p ≠ np) : s₃.proc p = s.proc p := by grind
  have hth (p : Slot) (hp : p ≠ np) (hi : p ≠ i) : s₃.th p = s.th p := by grind
  have hnew : (s₃.proc np).state = .runnable ∧ s₃.th np = .forkret ∧ (s₃.proc np).priority = 3 ∧
      (s₃.proc np).ticks 3 = 0 := by
    simp [s₃, s₂, s₁, setState, setParent, allocproc]
  obtain ⟨hpanic, hpolicy, hctl, hlock, hle, hbefore, hstate, -, hafter, hunused, hlevel⟩ := h
  exact ⟨s₃, hr₃, hpanic, hpolicy, hctl, hlock, by omega, by grind, by grind, by grind, by grind,
    by grind, by grind⟩

omit [DecidableEq C] in
/-- Process `i` sleeps: the next one in the row is the first that is ready. -/
lemma Row.shift {j : Slot} (h : Row s c i n .idle none .sleeping x) (hj : j.val = i.val + 1)
    (hn : j.val ≤ n) : Row s c j n .idle none .runnable .forkret := by
  have hij : i < j := by
    rw [Fin.lt_def]
    omega
  obtain ⟨hstate, hth⟩ := h.after j hij hn
  refine ⟨h.panic, h.policy, h.ctl, h.lock, hn, fun p hp => ?_, hstate, hth,
    fun p hp => h.after p (hij.trans hp), h.unused, h.level⟩
  grind [h.before p, h.state]

/-! ### Runs -/

lemma Row.run (hr : Reach MlfqStep s₀ s) (h : Row s c i n .idle none .runnable x)
    (hx : x = .forkret ∨ x = .yield) :
    ∃ t, Reach MlfqStep s₀ t ∧ Row t c i n (.run i true) none .running .run := by
  obtain ⟨s₁, hst₁, h₁⟩ := h.acquire
  obtain ⟨s₂, hst₂, h₂⟩ := h₁.pick
  obtain ⟨s₃, hst₃, h₃⟩ := h₂.resume hx
  exact ⟨s₃, ((hr.tail hst₁).tail hst₂).tail hst₃, h₃⟩

lemma reach_sane_mlfq {policy : C → ℤ} (hr : Reach MlfqStep (init policy) s) (q : Slot) :
    Sane (s.proc q) :=
  reach_sane (hr.mono fun _ _ _ hst => hst.step.2) q

/-- The first process forks as often as there is room. -/
lemma reach_forked (c : C) (hn : n < NPROC) : ∃ s, Reach MlfqStep (init fun _ : C => 1) s ∧
    Row s c initproc n (.run initproc true) none .running .run := by
  induction n with
  | zero => exact (row_init c).run .refl (.inl rfl)
  | succ n ih =>
    obtain ⟨s, hr, h⟩ := ih (by omega)
    obtain ⟨t, ht, h'⟩ := h.fork hn
    exact ⟨t, hr.trans ht, h'⟩

/-- Every process of a row of any length comes to be the first that is ready. -/
lemma reach_row (c : C) (hn : n < NPROC) (i : Slot) (hi : i.val ≤ n) :
    ∃ s x, Reach MlfqStep (init fun _ : C => 1) s ∧ (x = .forkret ∨ x = .yield) ∧
      Row s c i n .idle none .runnable x := by
  obtain ⟨i, hlt⟩ := i
  induction i with
  | zero =>
    obtain ⟨s, hr, h⟩ := reach_forked c hn
    obtain ⟨s₁, hst₁, h₁⟩ := h.yield
    obtain ⟨s₂, hst₂, h₂⟩ := h₁.account (reach_sane_mlfq (hr.tail hst₁))
    exact ⟨s₂, _, (hr.tail hst₁).tail hst₂, .inr rfl, h₂⟩
  | succ i ih =>
    obtain ⟨s, x, hr, hx, h⟩ := ih (by omega) (by simp only at hi ⊢; omega)
    obtain ⟨s₁, hr₁, h₁⟩ := h.run hr hx
    obtain ⟨s₂, hst₂, h₂⟩ := h₁.sleep
    obtain ⟨s₃, hst₃, h₃⟩ := h₂.account (reach_sane_mlfq (hr₁.tail hst₂))
    exact ⟨s₃, _, (hr₁.tail hst₂).tail hst₃, .inl rfl, h₃.shift rfl hi⟩

end Xv6.ProcMachine
