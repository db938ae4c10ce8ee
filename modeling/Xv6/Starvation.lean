import Xv6.ReadyRow

/-!
Processes that wait for a CPU under MLFQ. A process that is `RUNNABLE` and not dispatched waits one
tick at its level with every pass of the MLFQ branch, and is boosted when it has waited for long
enough; how long that takes is read off its counters.
-/

namespace Xv6.ProcTable

section Waiting

variable {T : Table} {p q : Slot} {P : Proc}

/-- What the waiting of one pass does to a process: one tick more at its level, or a boost. -/
inductive Waited (P P' : Proc) : Prop
  | stays (hp : P'.priority = P.priority)
      (hw : P'.waitTicks = Function.update P.waitTicks P.priority (P.waitTicks P.priority + 1))
  | boosted (hd : Due (waited P)) (hp : P'.priority = P.priority + 1)
      (hw : P'.waitTicks = Function.update P.waitTicks P.priority 0)

lemma boost_waited (P : Proc) : Waited P (boost (waited P)) := by
  by_cases hd : Due (waited P)
  · rw [boost_due hd]
    refine .boosted hd rfl ?_
    simp [raise, waited]
  · rw [boost_not_due hd]
    exact .stays rfl rfl

/-- The counters of the levels that boosts leave are not negative. -/
def Counting (P : Proc) : Prop := ∀ k, 0 ≤ P.waitTicks k

lemma Counting.of_same {P' : Proc} (h : Counting P) (hs : SameLevels P P') : Counting P' := by
  intro k
  rw [hs.waitTicks]
  exact h k

lemma Counting.waited {P' : Proc} (h : Counting P) (hw : Waited P P') : Counting P' := by
  have hp := h P.priority
  intro k
  cases hw with
  | stays _ hw | boosted _ _ hw =>
    rw [hw]
    grind [h k]

/-- The passes a process may still wait before it is on the highest level. -/
def remaining (P : Proc) : ℤ :=
  if P.priority = 0 then (500 - P.waitTicks 0) + (320 - P.waitTicks 1) + (160 - P.waitTicks 2)
  else if P.priority = 1 then (320 - P.waitTicks 1) + (160 - P.waitTicks 2)
  else if P.priority = 2 then 160 - P.waitTicks 2
  else 0

lemma remaining_le (h : Counting P) : remaining P ≤ 980 := by
  grind [remaining, h 0, h 1, h 2]

lemma remaining_pos (h : Sane P) (hp : P.priority ≠ 3) : 0 < remaining P := by
  grind [remaining]

/-- Every pass takes one off. -/
lemma Waited.remaining {P' : Proc} (h : Waited P P') (hs : Sane P) (hp : P.priority ≠ 3) :
    ProcTable.remaining P' + 1 = ProcTable.remaining P := by
  have hlevels : P.priority = 0 ∨ P.priority = 1 ∨ P.priority = 2 := by grind
  unfold ProcTable.remaining
  cases h with
  | stays hp' hw =>
    rw [hp', hw]
    rcases hlevels with h | h | h <;> grind
  | boosted hd hp' hw =>
    unfold Due waited at hd
    rw [hp', hw]
    rcases hlevels with h | h | h <;> grind

end Waiting

end Xv6.ProcTable

namespace Xv6.ProcMachine

open Xv6.ProcTable Xv6.Lib.Run

variable {C : Type*} {s t u : St C} {c : C} {a : Act} {p q : Slot} {n : ℕ}

/-- The process is `RUNNABLE`, and no CPU has it. -/
def Waiting (s : St C) (q : Slot) : Prop :=
  (s.proc q).state = .runnable ∧ ∀ c, (s.cpu c).proc ≠ some q

/-- The CPU is at the end of a pass of its MLFQ branch, where the counters are looked at. -/
def Ctl.ending : Ctl → Bool
  | .back _ true => true
  | _ => false

variable [DecidableEq C]

/-- A run from `s` in which `q` waits all the time, and the number of MLFQ passes that end in it. -/
inductive Waits (q : Slot) (s : St C) : ℕ → St C → Prop
  | refl (h : Waiting s q) : Waits q s 0 s
  | step {n : ℕ} {t u : St C} {c : C} {a : Act} (h : Waits q s n t) (hst : Step t (c, a) u)
      (hu : Waiting u q) : Waits q s (n + if (t.cpu c).ctl.ending then 1 else 0) u

lemma Waits.waiting (h : Waits q s n t) : Waiting t q := by
  cases h with
  | refl h => exact h
  | step _ _ hu => exact hu

lemma Waits.reach {s₀ : St C} (h : Waits q s n t) (hr : Reach Step s₀ s) : Reach Step s₀ t := by
  induction h with
  | refl => exact hr
  | step _ hst _ ih => exact ih.tail hst

/-! ### One step -/

/-- A process that waits is touched by the end of a pass only. -/
lemma Eff.waiting (h : Eff s c a t) (hs : Agree s) (hq : Waiting s q)
    (hend : (s.cpu c).ctl.ending = false) : SameLevels (s.proc q) (t.proc q) := by
  cases h.levels with
  | same h => exact h q
  | charge p m x hctl hth ht hx =>
    have hqp : q ≠ p := fun e => hq.2 c (e ▸ ((hs.cpu c).run hctl).1)
    rw [ht]
    constructor <;> grind
  | alloc np pid hlock hu ht =>
    have hqn : q ≠ np := fun e => by grind [hq.1]
    rw [ht]
    constructor <;> grind
  | account p hctl ht =>
    rw [hctl] at hend
    cases hend

/-- At the end of a pass it has waited once more. -/
lemma Eff.waited (h : Eff s c a t) (hs : Agree s) (hsane : ∀ q, Sane (s.proc q))
    (hq : Waiting s q) (hend : (s.cpu c).ctl.ending = true) : Waited (s.proc q) (t.proc q) := by
  obtain ⟨p, hctl⟩ : ∃ p, (s.cpu c).ctl = .back p true := by
    cases hctl : (s.cpu c).ctl with
    | back p m =>
      cases m with
      | true => exact ⟨p, rfl⟩
      | false => simp [hctl, Ctl.ending] at hend
    | _ => simp [hctl, Ctl.ending] at hend
  have hqp : q ≠ p := fun e => hq.2 c (e ▸ ((hs.cpu c).back hctl).1)
  rw [h.of_back hctl, account_waiting (hsane q) hqp hq.1]
  exact boost_waited _

omit [DecidableEq C] in
lemma LevelStep.counting (h : LevelStep s t c) (hsane : ∀ q, Sane (s.proc q))
    (hs : ∀ q, Counting (s.proc q)) (q : Slot) : Counting (t.proc q) := by
  cases h with
  | same h => exact (hs q).of_same (h q)
  | charge p m x hctl hth ht hx =>
    rw [ht, Function.update_apply]
    split_ifs with hqp
    · subst hqp
      exact hs q
    · exact hs q
  | alloc np pid hlock hu ht =>
    rw [ht, allocproc_apply]
    split_ifs
    · exact fun _ => le_rfl
    · exact hs q
  | account p hctl ht =>
    rw [ht]
    by_cases hqp : q = p
    · subst hqp
      rw [account_self hsane]
      unfold demote
      split_ifs <;> exact hs q
    · by_cases hr : (s.proc q).state = .runnable
      · rw [account_waiting (hsane q) hqp hr]
        exact (hs q).waited (boost_waited _)
      · rw [account_other hsane hqp hr]
        exact hs q

lemma reach_counting {policy : C → ℤ} (h : Reach Step (init policy) s) (q : Slot) :
    Counting (s.proc q) := by
  have hinv : (∀ q, Sane (s.proc q)) ∧ ∀ q, Counting (s.proc q) := by
    refine h.inv (P := fun s => (∀ q, Sane (s.proc q)) ∧ ∀ q, Counting (s.proc q))
      ⟨sane_init policy, fun _ _ => le_rfl⟩ ?_
    rintro s ⟨c, a⟩ t ⟨hsane, hs⟩ hst
    have hl := (next_eff hst).2.levels
    exact ⟨hl.sane hsane, hl.counting hsane hs⟩
  exact hinv.2 q

/-! ### Runs -/

/-- What has become of a process that has waited through `n` passes. -/
structure Progress (P : Proc) (n : ℕ) (P' : Proc) : Prop where
  level : P.priority ≤ P'.priority
  stays : P'.priority = P.priority → P'.waitTicks P.priority = P.waitTicks P.priority + n
  left : P'.priority = 3 ∨ remaining P' + n = remaining P

lemma Progress.refl (P : Proc) : Progress P 0 P := ⟨le_rfl, fun _ => by simp, .inr (by simp)⟩

lemma Progress.same {P P' P'' : Proc} (h : Progress P n P') (hs : SameLevels P' P'') :
    Progress P n P'' := by
  have hr : remaining P'' = remaining P' := by
    unfold remaining
    rw [hs.priority, hs.waitTicks]
  obtain ⟨hlevel, hstays, hleft⟩ := h
  constructor <;> grind

lemma Progress.waited {P P' P'' : Proc} (h : Progress P n P') (hw : Waited P' P'')
    (hs' : Sane P') (hs'' : Sane P'') : Progress P (n + 1) P'' := by
  obtain ⟨hlevel, hstays, hleft⟩ := h
  have hrem := hw.remaining hs'
  cases hw with
  | stays hp hw | boosted _ hp hw =>
    refine ⟨by omega, ?_, by grind⟩
    rw [hw]
    grind

lemma Waits.progress {policy : C → ℤ} (hr : Reach Step (init policy) s) (h : Waits q s n t) :
    Progress (s.proc q) n (t.proc q) := by
  induction h with
  | refl => exact .refl _
  | @step n t u c a h hst hu ih =>
    have hrt := h.reach hr
    have he := (next_eff hst).2
    have hs := reach_agree hrt
    have hsane := reach_sane hrt
    cases hend : (t.cpu c).ctl.ending with
    | false => exact ih.same (he.waiting hs h.waiting hend)
    | true =>
      have hwait := he.waited hs hsane h.waiting hend
      exact ih.waited hwait (hsane q) (reach_sane (hrt.tail hst) q)

/-- In a row only the process at its head has a CPU. -/
lemma Row.waiting {s : St Unit} {k : Ctl} {lock : Option Unit} {st : ProcState} {x : Th}
    (h : Row s () initproc 1 k lock st x) (hs : Agree s)
    (hk : k = .idle ∨ k = .pick ∨ (∃ m, k = .run initproc m) ∨ ∃ m, k = .back initproc m) :
    Waiting s childSlot := by
  have hcpu := hs.cpu ()
  refine ⟨(h.after childSlot (by decide) le_rfl).1, fun c hc => ?_⟩
  rcases hk with hk | hk | ⟨m, hk⟩ | ⟨m, hk⟩ <;> rw [hk] at h
  · exact nomatch hc.symm.trans (hcpu.idle h.ctl).1
  · exact nomatch hc.symm.trans (hcpu.scan (i := 0) (.inr h.ctl)).1
  · exact nomatch hc.symm.trans (hcpu.run h.ctl).1
  · exact nomatch hc.symm.trans (hcpu.back h.ctl).1

/-- While the first process gives its CPU back again and again, its child waits. -/
lemma Row.waits {s : St Unit} (hr : Reach Step (init fun _ => 1) s)
    (h : Row s () initproc 1 .idle none .runnable .yield) (n : ℕ) :
    ∃ t, Waits childSlot s n t ∧ Row t () initproc 1 .idle none .runnable .yield := by
  have hagree {n : ℕ} {t : St Unit} (hw : Waits childSlot s n t) := reach_agree (hw.reach hr)
  have hstep {n : ℕ} {t u : St Unit} {a : Act} (hw : Waits childSlot s n t)
      (hst : MlfqStep t ((), a) u) : Agree u := (next_eff hst.step.2).2.agree (hagree hw)
  induction n with
  | zero => exact ⟨s, .refl (h.waiting (reach_agree hr) (.inl rfl)), h⟩
  | succ n ih =>
    obtain ⟨t, hw, ht⟩ := ih
    obtain ⟨t₁, hst₁, h₁⟩ := ht.acquire
    have hw₁ := hw.step hst₁.step.2 (h₁.waiting (hstep hw hst₁) (.inr (.inl rfl)))
    obtain ⟨t₂, hst₂, h₂⟩ := h₁.pick
    have hw₂ := hw₁.step hst₂.step.2 (h₂.waiting (hstep hw₁ hst₂) (.inr (.inr (.inl ⟨_, rfl⟩))))
    obtain ⟨t₃, hst₃, h₃⟩ := h₂.resume (.inr rfl)
    have hw₃ := hw₂.step hst₃.step.2 (h₃.waiting (hstep hw₂ hst₃) (.inr (.inr (.inl ⟨_, rfl⟩))))
    obtain ⟨t₄, hst₄, h₄⟩ := h₃.yield
    have hw₄ := hw₃.step hst₄.step.2 (h₄.waiting (hstep hw₃ hst₄) (.inr (.inr (.inr ⟨_, rfl⟩))))
    obtain ⟨t₅, hst₅, h₅⟩ := h₄.account (reach_sane (hw₄.reach hr))
    have hw₅ := hw₄.step hst₅.step.2 (h₅.waiting (hstep hw₄ hst₅) (.inl rfl))
    refine ⟨t₅, ?_, h₅⟩
    simpa [ht.ctl, h₁.ctl, h₂.ctl, h₃.ctl, h₄.ctl, Ctl.ending] using hw₅

end Xv6.ProcMachine
