import Xv6.Sleep

/-!
Why a process is asleep. A client gives each channel a reason to sleep on it, and says at which
points of its code it still has to call `wakeup` on a channel whose reason may be gone. If the code
keeps to that, then whoever sleeps while the lock is free has the reason to.
-/

namespace Xv6.Sleep

open Xv6.Lib.Lock Xv6.Lib.Run Xv6.ProcTable

section

variable {ι σ ρ D : Type}

/-- The process is inside `sleep(chan, lk)` and nothing has made it `RUNNABLE` yet. -/
def Waits (s : St σ ρ D) (p : Slot) (chan : Chan) : Prop :=
  match s.pc p with
  | .sleepAcquire ch _ | .sleepRelease ch _ | .sleepSet ch _ => ch = chan
  | .asleep ch _ => ch = chan ∧ (s.proc p).state = .sleeping
  | _ => False

/-- The words of a client: the reason to sleep on a channel, where the code still owes a wakeup on
it, what it relies on at a point, and where it returns although it still owes the wakeup. -/
structure Words (σ D : Type) where
  need : Chan → D → Prop
  owes : Chan → σ → Prop
  know : σ → D → Prop
  leaves : Proc → σ → D → Chan → Prop

/-- What the code at `k` comes to, with the data before it `d`: a reason that goes is owed from then
on, and nothing is owed without the lock. -/
def Words.Keeps (w : Words σ D) (me : Proc) (k : σ) (d : D) : Cmd σ ρ × D → Prop
  | (.goto k', d') => w.know k' d' ∧
      ∀ chan, w.need chan d ∨ w.owes chan k → w.need chan d' ∨ w.owes chan k'
  | (.sleep ch k', d') => (∀ e, w.know k' e) ∧ w.need ch d' ∧
      ∀ chan, w.need chan d ∨ w.owes chan k → w.need chan d'
  | (.wakeup ch k', d') => w.know k' d' ∧
      ∀ chan, chan ≠ ch → w.need chan d ∨ w.owes chan k → w.need chan d' ∨ w.owes chan k'
  | (.release _, d') => ∀ chan, w.need chan d ∨ w.owes chan k → w.need chan d' ∨ w.leaves me k d chan

/-- The reasons of a client, which its code keeps. -/
structure Reasons (M : Client ι σ ρ D) extends Words σ D where
  start : ∀ i d, know (M.start i) d
  code : ∀ me k d, know k d → toWords.Keeps me k d (M.code me k d)

variable {M : Client ι σ ρ D} (R : Reasons M)

/-- Nobody waits for a wakeup that the step leaves out. -/
def Reasons.Spares (s : St σ ρ D) : Act ι → Prop
  | .step p => ∀ k chan, s.pc p = .crit k → R.leaves (s.proc p) k s.data chan → ∀ q, ¬ Waits s q chan
  | _ => True

/-- The steps that leave out no wakeup. -/
def Reasons.Step (s : St σ ρ D) (a : Act ι) (t : St σ ρ D) : Prop :=
  R.Spares s a ∧ Sleep.Step M false s a t

/-- The process has the lock, and a wakeup on `chan` before it. -/
def Reasons.OwesPc (chan : Chan) : Pc σ ρ → Prop
  | .crit k => R.owes chan k
  | .wakeup ch k => ch = chan ∨ R.owes chan k
  | _ => False

/-- What the code relies on where a process is, whatever happens before it has the lock. -/
def Reasons.KnowPc (d : D) : Pc σ ρ → Prop
  | .crit k | .wakeup _ k => R.know k d
  | .acquire k | .sleepAcquire _ k | .sleepRelease _ k | .sleepSet _ k | .asleep _ k | .woken _ k
  | .reacquire _ k => ∀ e, R.know k e
  | .out _ | .yielded _ | .resumed _ => True

structure Reasons.Inv (s : St σ ρ D) : Prop where
  base : Sleep.Inv false s
  know : ∀ p, R.KnowPc s.data (s.pc p)
  reason : ∀ p chan, Waits s p chan → R.need chan s.data ∨ ∃ q, R.OwesPc chan (s.pc q)

variable {R} {s t : St σ ρ D} {p q : Slot} {chan : Chan}

lemma Waits.of (h : Waits t q chan) (hpc : t.pc q = s.pc q)
    (hst : (t.proc q).state = .sleeping → (s.proc q).state = .sleeping) : Waits s q chan := by
  grind [Waits]

variable {c : Pc σ ρ} {d : D} {s' : St σ ρ D} {T : Table}

/-- Only the holder of the lock owes anything. -/
lemma Reasons.OwesPc.owns (h : R.OwesPc chan c) : c.ownsLk false = true := by
  cases c <;> first | rfl | exact h.elim

lemma Reasons.KnowPc.of {d' : D} (h : R.KnowPc d c) (hc : c.ownsLk false = false) :
    R.KnowPc d' c := by
  cases c <;> first | exact h | exact nomatch hc

/-- A process without the lock moves. -/
lemma Reasons.Inv.outside (h : R.Inv s) (hb : Sleep.Inv false (s'.setPc p c)) (hpc : s'.pc = s.pc)
    (hdata : s'.data = s.data) (hother : ∀ q, q ≠ p → (s'.proc q).state = (s.proc q).state)
    (hown : (s.pc p).ownsLk false = false) (hknow : R.KnowPc s.data c)
    (hself : ∀ chan, Waits (s'.setPc p c) p chan → Waits s p chan) : R.Inv (s'.setPc p c) := by
  have hmove {q : Slot} (hq : q ≠ p) : (s'.setPc p c).pc q = s.pc q := by simp [St.setPc, hq, hpc]
  have hdata' : (s'.setPc p c).data = s.data := hdata
  refine ⟨hb, fun q => ?_, fun q chan hw => ?_⟩
  · grind [h.know q]
  · have hws : Waits s q chan := by
      by_cases hq : q = p
      · exact hq ▸ hself chan (hq ▸ hw)
      · exact hw.of (hmove hq) fun he => (hother q hq).symm.trans he
    rw [hdata']
    refine (h.reason q chan hws).imp_right fun ⟨r, hr⟩ => ⟨r, ?_⟩
    -- whoever owes the wakeup has the lock, so it is another process
    have hrp : r ≠ p := by
      rintro rfl
      exact nomatch hown.symm.trans hr.owns
    rwa [hmove hrp]

/-- The process with the lock moves. -/
lemma Reasons.Inv.inside (h : R.Inv s) (hb : Sleep.Inv false (s'.setPc p c)) (hpc : s'.pc = s.pc)
    (hother : ∀ q, q ≠ p → (s'.proc q).state = .sleeping → (s.proc q).state = .sleeping)
    (hown : (s.pc p).ownsLk false = true) (hknow : R.KnowPc s'.data c)
    (hself : ∀ chan, Waits (s'.setPc p c) p chan → R.need chan s'.data)
    (hrest : ∀ q chan, q ≠ p → Waits s q chan → Waits (s'.setPc p c) q chan → R.need chan s.data ∨
      R.OwesPc chan (s.pc p) → R.need chan s'.data ∨ R.OwesPc chan c) :
    R.Inv (s'.setPc p c) := by
  have hmove {q : Slot} (hq : q ≠ p) : (s'.setPc p c).pc q = s.pc q := by simp [St.setPc, hq, hpc]
  have hself_pc : (s'.setPc p c).pc p = c := by simp [St.setPc]
  refine ⟨hb, fun q => ?_, fun q chan hw => ?_⟩
  · by_cases hq : q = p
    · subst hq
      rw [hself_pc]
      exact hknow
    · rw [hmove hq]
      refine (h.know q).of ?_
      rw [← Bool.not_eq_true]
      exact fun hq' => hq (h.base.lk.unique hq' hown)
  · by_cases hq : q = p
    · subst hq
      exact .inl (hself chan hw)
    · have hws := hw.of (hmove hq) (hother q hq)
      have hp : R.need chan s.data ∨ R.OwesPc chan (s.pc p) :=
        (h.reason q chan hws).imp_right fun ⟨r, hr⟩ => by
          have heq : r = p := h.base.lk.unique hr.owns hown
          rwa [heq] at hr
      refine (hrest q chan hq hws hw hp).imp_right fun hc => ⟨p, ?_⟩
      rwa [hself_pc]

/-- A process with the lock that owes nothing has the reason to sleep itself. -/
lemma Reasons.Inv.need_self (h : R.Inv s) (hw : Waits s p chan)
    (hown : (s.pc p).ownsLk false = true) (hno : ¬ R.OwesPc chan (s.pc p)) :
    R.need chan s.data := by
  refine (h.reason p chan hw).resolve_right fun ⟨r, hr⟩ => hno ?_
  have heq : r = p := h.base.lk.unique hr.owns hown
  rwa [heq] at hr

lemma Reasons.Inv.quiet (h : R.Inv s) (hb : Sleep.Inv false (s.wake T)) (hT : Quiet s.proc T) :
    R.Inv (s.wake T) := by
  refine ⟨hb, h.know, fun q chan hw => h.reason q chan (hw.of rfl fun he => ?_)⟩
  have he' : (T q).state = .sleeping := he
  exact (hT.state_of (by simp [he'])).trans he'

/-- The places where nothing has to make a process `RUNNABLE`. -/
def Pc.awake : Pc σ ρ → Bool
  | .sleepAcquire _ _ | .sleepRelease _ _ | .sleepSet _ _ | .asleep _ _ => false
  | _ => true

lemma setPc_waits (hc : c.awake = true) : ¬ Waits (s'.setPc p c) p chan := by
  cases c <;> grind [Waits, Pc.awake]

/-- After the loop of `wakeup(chan)`, run with the lock held, nobody waits on the channel. -/
lemma Inv.no_waits {k : σ} (h : Inv false s) (hp : s.pc p = .wakeup chan k) (hf : s.ptable = .free)
    (hq : q ≠ p) : ¬ Waits ((s.wake (wakeup1 s.proc (some chan))).setPc p (.crit k)) q chan := by
  have hlk : (s.pc q).ownsLk false = false := by
    rw [← Bool.not_eq_true]
    exact fun hq' => hq (h.lk.unique hq' (show (s.pc p).ownsLk false = true by rw [hp]; rfl))
  have hpt : (s.pc q).ownsPt false = false := by
    have ho := h.pt
    rw [hf] at ho
    exact ho.free q
  have hawake := wakeup1_awake s.proc (some chan) q
  have hchan := (wakeup1_quiet s.proc (some chan)).chan q
  have hl := h.loc q
  cases hc : s.pc q <;> grind [Waits, Local, Pc.ownsLk, Pc.ownsPt]

lemma Reasons.Inv.step {a : Act ι} (h : R.Inv s) (hst : R.Step s a t) : R.Inv t := by
  obtain ⟨hsp, hst⟩ := hst
  have hb := h.base.move hst.move
  have hkp (p : Slot) := h.know p
  have hcode {p : Slot} {k : σ} {r : Cmd σ ρ × D} (hk : R.know k s.data)
      (hc : M.code (s.proc p) k s.data = r) : R.Keeps (s.proc p) k s.data r := hc ▸ R.code _ k _ hk
  have hasleep (p q : Slot) (_ : q ≠ p) (hq : (s.proc q).state = .sleeping) :
      (s.proc q).state = .sleeping := hq
  cases hst.move with
  | lockSame hs | wakeupSame hs | releaseSame hs | wokenSame hs => cases hs
  | @call p r i hp =>
    exact h.outside hb rfl rfl (by grind) (by rw [hp]; rfl) (R.start i) fun _ hw =>
      (setPc_waits rfl hw).elim
  | @lock p k _ hp hf =>
    exact h.outside hb rfl rfl (by grind) (by grind [Pc.ownsLk]) (by grind [hkp p, KnowPc])
      fun _ hw => (setPc_waits rfl hw).elim
  | @woken p ch k _ hp | @resumed p r hp | @yield p r hp hf | @dispatch p ch k hf hr hp
  | @dispatchYielded p r hf hr hp =>
    exact h.outside hb rfl rfl (by grind) (by rw [hp]; rfl) (by grind [hkp p, KnowPc])
      fun _ hw => (setPc_waits rfl hw).elim
  | @sleepSet p ch k hp =>
    refine h.outside hb rfl rfl (by grind) (by rw [hp]; rfl) (by grind [hkp p, KnowPc])
      fun chan hw => ?_
    have hch : ch = chan := by simpa [Waits, St.setPc, setSleep] using hw
    simpa [Waits, hp] using hch
  | @goto p k k' d hp hc =>
    have hk := hkp p
    rw [hp] at hk
    obtain ⟨hk', hreason⟩ := hcode hk hc
    exact h.inside hb rfl (hasleep p) (by rw [hp]; rfl) hk' (fun _ hw => (setPc_waits rfl hw).elim)
      fun q chan _ _ _ hn => hreason chan (by rwa [hp] at hn)
  | @sleep p k ch k' d hp hc =>
    have hk := hkp p
    rw [hp] at hk
    obtain ⟨hk', hneed, hreason⟩ := hcode hk hc
    refine h.inside hb rfl (hasleep p) (by rw [hp]; rfl) hk' (fun chan hw => ?_)
      fun q chan _ _ _ hn => .inl (hreason chan (by rwa [hp] at hn))
    have hch : ch = chan := by simpa [Waits, St.setPc] using hw
    exact hch ▸ hneed
  | @wakeup p k ch k' d _ hp hc =>
    have hk := hkp p
    rw [hp] at hk
    obtain ⟨hk', hreason⟩ := hcode hk hc
    refine h.inside hb rfl (hasleep p) (by rw [hp]; rfl) hk' (fun _ hw => (setPc_waits rfl hw).elim)
      ?_
    intro q chan _ _ _ hn
    rw [hp] at hn
    by_cases hch : ch = chan
    · exact .inr (.inl hch)
    · exact (hreason chan (fun he => hch he.symm) hn).imp_right .inr
  | @release p k r d _ hp hc =>
    have hk := hkp p
    rw [hp] at hk
    refine h.inside hb rfl (hasleep p) (by rw [hp]; rfl) trivial
      (fun _ hw => (setPc_waits rfl hw).elim) ?_
    intro q chan _ hw _ hn
    rw [hp] at hn
    exact .inl ((hcode hk hc chan hn).resolve_right fun hl => hsp k chan hp hl q hw)
  | @sleepAcquire p ch k hp hf | @sleepRelease p ch k hp =>
    refine h.inside hb rfl (hasleep p) (by rw [hp]; rfl) (by grind [hkp p, KnowPc])
      (fun chan hw => ?_) ?_
    · have hch : ch = chan := by simpa [Waits, St.setPc] using hw
      refine h.need_self (p := p) ?_ (by rw [hp]; rfl) (by rw [hp]; exact id)
      simpa [Waits, hp] using hch
    · intro q chan _ _ _ hn
      rw [hp] at hn
      exact hn.imp_right False.elim
  | @wakeupLoop p ch k hp hf =>
    have hk := hkp p
    rw [hp] at hk
    refine h.inside hb rfl (fun q _ he => ?_) (by rw [hp]; rfl) hk
      (fun _ hw => (setPc_waits rfl hw).elim) ?_
    · have he' : (wakeup1 s.proc (some ch) q).state = .sleeping := he
      exact ((wakeup1_quiet s.proc (some ch)).state_of (by simp [he'])).trans he'
    · intro q chan hq _ hw hn
      rw [hp] at hn
      have hch : ch ≠ chan := by
        rintro rfl
        exact h.base.no_waits hp hf hq hw
      exact hn.imp_right fun ho => ho.resolve_left hch
  | kill hf => exact h.quiet hb (kill_quiet s.proc _)
  | schedAcquire hf | schedRelease hf => exact ⟨hb, h.know, h.reason⟩

lemma Reasons.inv_reach (h : Reach R.Step (init T d) s) : R.Inv s := by
  refine h.inv ⟨inv_init T d, fun _ => trivial, fun p chan hw => ?_⟩ fun _ _ _ hi hst => hi.step hst
  exact (show False from hw).elim

/-- **Whoever sleeps has a reason to**, in every run that leaves out no wakeup. -/
theorem Reasons.need_of_sleeping (h : Reach R.Step (init T d) s) (hlk : s.lk = none)
    (hp : (s.proc p).state = .sleeping) (hchan : (s.proc p).chan = some chan) :
    R.need chan s.data := by
  have hi := R.inv_reach h
  obtain ⟨ch, k, hpc, hch⟩ := (hi.base.loc p).asleep hp
  have hw : Waits s p chan := by
    unfold Waits
    rw [hpc]
    exact ⟨Option.some.inj (hch.symm.trans hchan), hp⟩
  refine (hi.reason p chan hw).resolve_right fun ⟨q, hq⟩ => ?_
  have ho := hi.base.lk
  rw [hlk] at ho
  exact absurd ((ho.free q).symm.trans hq.owns) nofun

end

end Xv6.Sleep
