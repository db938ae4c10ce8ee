import Xv6.Lib.Run

/-!
Monitors: code that runs with a lock, sleeps on channels and wakes others up.

The actors are processes and interrupt handlers, in any number. To sleep, an actor takes the lock
of the process table, gives up its own lock and is marked; a wakeup marks back all who are on the
channel, with the lock of the table. What becomes of an actor that is runnable is that it takes the
monitor's lock again at some time. The environment may change the data without the lock.
-/

namespace Xv6.Lib.Monitor

open Xv6.Lib.Run
open Function (update update_apply update_eq_self)

/-- What the code comes to, with the lock held. -/
inductive Cmd (σ ρ χ : Type*)
  | goto (k : σ)
  | sleep (chan : χ) (k : σ)
  | wakeup (chan : χ) (k : σ)
  | release (r : ρ)

/-- `enter` is what a call does before it has the lock, if it can be made, `code` what an actor does
at a point of the code, up to the next one, and `env` what the environment may do. -/
structure Client (A ι ε σ ρ χ D : Type*) where
  enter : A → ι → D → Option (σ × D)
  code : A → σ → D → Cmd σ ρ χ × D
  env : ε → D → Option D

/-- Where an actor is. `falling`, `dropping` and `setting` are inside `sleep`, before it takes the
lock of the table, before it gives up the monitor's, and before it is marked. -/
inductive Pc (σ ρ χ : Type*)
  | out (r : Option ρ)
  | acquire (k : σ)
  | crit (k : σ)
  | falling (chan : χ) (k : σ)
  | dropping (chan : χ) (k : σ)
  | setting (chan : χ) (k : σ)
  | asleep (chan : χ) (k : σ)
  | waking (chan : χ) (k : σ)

/-- The lock of the table is free, with an actor, or with somebody else. -/
inductive Table (A : Type*)
  | free
  | actor (a : A)
  | other
  deriving DecidableEq

structure St (A σ ρ χ D : Type*) where
  pc : A → Pc σ ρ χ
  lk : Option A
  table : Table A
  data : D

inductive Act (A ι ε : Type*)
  | call (a : A) (i : ι)
  | step (a : A)
  | env (e : ε)
  | tableAcquire
  | tableRelease

section Machine

variable {A ι ε σ ρ χ D : Type*} (M : Client A ι ε σ ρ χ D)

def St.setPc [DecidableEq A] (s : St A σ ρ χ D) (a : A) (c : Pc σ ρ χ) : St A σ ρ χ D :=
  { s with pc := update s.pc a c }

/-- An actor asleep on the channel becomes runnable. -/
def rouse [DecidableEq χ] (chan : χ) : Pc σ ρ χ → Pc σ ρ χ
  | .asleep ch k => if ch = chan then .acquire k else .asleep ch k
  | c => c

def init (d : D) : St A σ ρ χ D := ⟨fun _ => .out none, none, .free, d⟩

/-- The code of the client, with the lock. -/
def critStep [DecidableEq A] (s : St A σ ρ χ D) (a : A) (k : σ) : St A σ ρ χ D :=
  match M.code a k s.data with
  | (.goto k', d) => { s with data := d }.setPc a (.crit k')
  | (.sleep chan k', d) => { s with data := d }.setPc a (.falling chan k')
  | (.wakeup chan k', d) => { s with data := d }.setPc a (.waking chan k')
  | (.release r, d) => { s with data := d, lk := none }.setPc a (.out (some r))

def actorStep [DecidableEq A] [DecidableEq χ] (s : St A σ ρ χ D) (a : A) : Option (St A σ ρ χ D) :=
  match s.pc a with
  | .acquire k => if s.lk = none then some ({ s with lk := some a }.setPc a (.crit k)) else none
  | .crit k => some (critStep M s a k)
  | .falling chan k =>
    if s.table = .free then some ({ s with table := .actor a }.setPc a (.dropping chan k)) else none
  | .dropping chan k => some ({ s with lk := none }.setPc a (.setting chan k))
  | .setting chan k => some ({ s with table := .other }.setPc a (.asleep chan k))
  | .waking chan k =>
    if s.table = .free then some ({ s with pc := fun b => rouse chan (s.pc b) }.setPc a (.crit k))
    else none
  | .out _ | .asleep _ _ => none

def next [DecidableEq A] [DecidableEq χ] (s : St A σ ρ χ D) : Act A ι ε → Option (St A σ ρ χ D)
  | .call a i =>
    match s.pc a with
    | .out _ => (M.enter a i s.data).map fun (k, d) => { s with data := d }.setPc a (.acquire k)
    | _ => none
  | .step a => actorStep M s a
  | .env e => (M.env e s.data).map fun d => { s with data := d }
  | .tableAcquire => if s.table = .free then some { s with table := .other } else none
  | .tableRelease => if s.table = .other then some { s with table := .free } else none

def Step [DecidableEq A] [DecidableEq χ] (s : St A σ ρ χ D) (a : Act A ι ε) (t : St A σ ρ χ D) :
    Prop :=
  next M s a = some t

/-- The steps, each with what it needs and what it does. -/
inductive Move [DecidableEq A] [DecidableEq χ] (s : St A σ ρ χ D) : Act A ι ε → St A σ ρ χ D → Prop
  | call {a r i k d} : s.pc a = .out r → M.enter a i s.data = some (k, d) →
      Move s (.call a i) ({ s with data := d }.setPc a (.acquire k))
  | lock {a k} : s.pc a = .acquire k → s.lk = none →
      Move s (.step a) ({ s with lk := some a }.setPc a (.crit k))
  | goto {a k k' d} : s.pc a = .crit k → M.code a k s.data = (.goto k', d) →
      Move s (.step a) ({ s with data := d }.setPc a (.crit k'))
  | sleep {a k chan k' d} : s.pc a = .crit k → M.code a k s.data = (.sleep chan k', d) →
      Move s (.step a) ({ s with data := d }.setPc a (.falling chan k'))
  | wakeup {a k chan k' d} : s.pc a = .crit k → M.code a k s.data = (.wakeup chan k', d) →
      Move s (.step a) ({ s with data := d }.setPc a (.waking chan k'))
  | release {a k r d} : s.pc a = .crit k → M.code a k s.data = (.release r, d) →
      Move s (.step a) ({ s with data := d, lk := none }.setPc a (.out (some r)))
  | fall {a chan k} : s.pc a = .falling chan k → s.table = .free →
      Move s (.step a) ({ s with table := .actor a }.setPc a (.dropping chan k))
  | drop {a chan k} : s.pc a = .dropping chan k →
      Move s (.step a) ({ s with lk := none }.setPc a (.setting chan k))
  | set {a chan k} : s.pc a = .setting chan k →
      Move s (.step a) ({ s with table := .other }.setPc a (.asleep chan k))
  | wake {a chan k} : s.pc a = .waking chan k → s.table = .free →
      Move s (.step a) ({ s with pc := fun b => rouse chan (s.pc b) }.setPc a (.crit k))
  | env {e d} : M.env e s.data = some d → Move s (.env e) { s with data := d }
  | tableAcquire : s.table = .free → Move s .tableAcquire { s with table := .other }
  | tableRelease : s.table = .other → Move s .tableRelease { s with table := .free }

variable {M} {s t : St A σ ρ χ D}

variable {a : A} {s' : St A σ ρ χ D} {c : Pc σ ρ χ} {d : D} {o : Option A}

lemma move_critStep [DecidableEq A] [DecidableEq χ] {k : σ} (hp : s.pc a = .crit k) :
    Move M s (.step a) (critStep M s a k) := by
  unfold critStep
  rcases hc : M.code a k s.data with ⟨k' | ⟨chan, k'⟩ | ⟨chan, k'⟩ | r, d⟩
  · exact .goto hp hc
  · exact .sleep hp hc
  · exact .wakeup hp hc
  · exact .release hp hc

lemma move_actorStep [DecidableEq A] [DecidableEq χ] (h : actorStep M s a = some t) :
    Move M s (.step a) t := by
  unfold actorStep at h
  rcases hp : s.pc a with r | k | k | ⟨chan, k⟩ | ⟨chan, k⟩ | ⟨chan, k⟩ | ⟨chan, k⟩ | ⟨chan, k⟩
  all_goals
    rw [hp] at h
    dsimp only at h
  · cases h
  · split_ifs at h with hf
    exact Option.some.inj h ▸ .lock hp hf
  · exact Option.some.inj h ▸ move_critStep hp
  · split_ifs at h with hf
    exact Option.some.inj h ▸ .fall hp hf
  · exact Option.some.inj h ▸ .drop hp
  · exact Option.some.inj h ▸ .set hp
  · cases h
  · split_ifs at h with hf
    exact Option.some.inj h ▸ .wake hp hf

lemma Step.move [DecidableEq A] [DecidableEq χ] {act : Act A ι ε} (h : Step M s act t) :
    Move M s act t := by
  unfold Step next at h
  cases act with
  | call a i =>
    dsimp only at h
    split at h
    · next hp =>
      obtain ⟨⟨k, d⟩, he, rfl⟩ := Option.map_eq_some_iff.mp h
      exact .call hp he
    · cases h
  | step a => exact move_actorStep h
  | env e =>
    obtain ⟨d, he, rfl⟩ := Option.map_eq_some_iff.mp h
    exact .env he
  | tableAcquire =>
    dsimp only at h
    split_ifs at h with hf
    exact Option.some.inj h ▸ .tableAcquire hf
  | tableRelease =>
    dsimp only at h
    split_ifs at h with hf
    exact Option.some.inj h ▸ .tableRelease hf

/-! ### What the code does to the data -/

/-- The point where an actor goes on. -/
def Pc.point : Pc σ ρ χ → Option σ
  | .out _ => none
  | .acquire k | .crit k | .falling _ k | .dropping _ k | .setting _ k | .asleep _ k
  | .waking _ k => some k

def Cmd.point : Cmd σ ρ χ → Option σ
  | .goto k | .sleep _ k | .wakeup _ k => some k
  | .release _ => none

def St.points (s : St A σ ρ χ D) : A → Option σ := fun a => (s.pc a).point

@[simp] lemma point_rouse [DecidableEq χ] (chan : χ) (c : Pc σ ρ χ) :
    (rouse chan c).point = c.point := by
  cases c <;> grind [rouse, Pc.point]

section Apply

variable [DecidableEq A] (s : St A σ ρ χ D) (a b : A) (c : Pc σ ρ χ)

@[grind =] lemma setPc_pc : (s.setPc a c).pc b = if b = a then c else s.pc b := update_apply ..
@[grind =] lemma setPc_lk : (s.setPc a c).lk = s.lk := rfl
@[grind =] lemma setPc_table : (s.setPc a c).table = s.table := rfl
@[grind =] lemma setPc_data : (s.setPc a c).data = s.data := rfl

end Apply

lemma points_setPc [DecidableEq A] (s : St A σ ρ χ D) (a : A) (c : Pc σ ρ χ) :
    (s.setPc a c).points = update s.points a c.point := by
  funext b
  grind [St.points]

/-- An actor that moves without running its code goes on at the same point. -/
lemma points_same [DecidableEq A] {s : St A σ ρ χ D} {c' : Pc σ ρ χ} (hs : s'.points = s.points)
    (hp : s.pc a = c') (hc : c.point = c'.point) :
    (s'.setPc a c).points = s.points := by
  rw [points_setPc, hs, hc, ← hp]
  exact update_eq_self a s.points

/-! ### Why an actor is asleep -/

/-- The actor is inside `sleep` on the channel, and nothing has made it runnable yet. -/
def Pc.waits (chan : χ) : Pc σ ρ χ → Prop
  | .falling ch _ | .dropping ch _ | .setting ch _ | .asleep ch _ => ch = chan
  | _ => False

/-- The places with the monitor's lock. -/
def Pc.ownsLk : Pc σ ρ χ → Prop
  | .crit _ | .falling _ _ | .dropping _ _ | .waking _ _ => True
  | _ => False

/-- The places with the lock of the table. -/
def Pc.ownsTable : Pc σ ρ χ → Prop
  | .dropping _ _ | .setting _ _ => True
  | _ => False

/-- What the code at a point comes to: a reason to sleep goes only together with a wakeup on its
channel, and whoever goes to sleep has a reason. -/
def Keeps (need : χ → D → Prop) (d : D) : Cmd σ ρ χ × D → Prop
  | (.sleep ch _, d') => need ch d' ∧ ∀ chan, need chan d → need chan d'
  | (.wakeup ch _, d') => ∀ chan, chan ≠ ch → need chan d → need chan d'
  | (.goto _, d') | (.release _, d') => ∀ chan, need chan d → need chan d'

/-- Whoever waits has a reason to, or is about to be woken up. -/
structure Inv (need : χ → D → Prop) (s : St A σ ρ χ D) : Prop where
  lk : ∀ a, (s.pc a).ownsLk → s.lk = some a
  table : ∀ a, (s.pc a).ownsTable → s.table = .actor a
  reason : ∀ a chan, (s.pc a).waits chan → need chan s.data ∨ ∃ b k, s.pc b = .waking chan k

variable {need : χ → D → Prop}

/-- Only one actor has the lock. -/
lemma Inv.unique (h : Inv need s) {b : A} (ha : (s.pc a).ownsLk) (hb : (s.pc b).ownsLk) : a = b :=
  Option.some.inj ((h.lk a ha).symm.trans (h.lk b hb))

/-- While an actor with the lock is not about to wake others up, all who wait have a reason. -/
lemma Inv.need_of_waits (h : Inv need s) (ha : (s.pc a).ownsLk)
    (hno : ∀ chan k, s.pc a ≠ .waking chan k) {b : A} {chan : χ} (hb : (s.pc b).waits chan) :
    need chan s.data := by
  refine (h.reason b chan hb).resolve_right fun ⟨b', k, hb'⟩ => ?_
  have heq : b' = a := h.unique (by rw [hb']; trivial) ha
  exact hno chan k (heq ▸ hb')

section Step

variable [DecidableEq A] [DecidableEq χ] {act : Act A ι ε}

/-- The locks are with whom they are, or change hands with the place of the one who has them. -/
lemma Inv.step_lk (h : Inv need s) (hm : Move M s act t) (b : A) (hb : (t.pc b).ownsLk) :
    t.lk = some b := by
  have hlk := h.lk
  cases hm with
  | wake => cases hc : s.pc b <;> grind [Pc.ownsLk, rouse]
  | _ => grind [Pc.ownsLk]

lemma Inv.step_table (h : Inv need s) (hm : Move M s act t) (b : A) (hb : (t.pc b).ownsTable) :
    t.table = .actor b := by
  have htable := h.table
  cases hm with
  | wake => cases hc : s.pc b <;> grind [Pc.ownsTable, rouse]
  | _ => grind [Pc.ownsTable]

/-- One step, of a client whose calls, code and environment keep the reasons. -/
lemma Inv.step (h : Inv need s) (hst : Step M s act t)
    (hcall : ∀ a i d k d', M.enter a i d = some (k, d') → ∀ chan, need chan d → need chan d')
    (hcode : ∀ a k d, Keeps need d (M.code a k d))
    (henv : ∀ e d d', M.env e d = some d' → ∀ chan, need chan d → need chan d') : Inv need t := by
  have hkeep {a : A} {k : σ} {r : Cmd σ ρ χ × D} (hc : M.code a k s.data = r) :
      Keeps need s.data r := hc ▸ hcode a k s.data
  refine ⟨h.step_lk hst.move, h.step_table hst.move, fun b chan hb => ?_⟩
  -- while the code of an actor runs with the lock, nobody is about to wake others up
  have hran {a : A} {k : σ} (hp : s.pc a = .crit k) (hb : (s.pc b).waits chan) :
      need chan s.data := h.need_of_waits (a := a) (by rw [hp]; trivial) (by rw [hp]; nofun) hb
  cases hst.move with
  | goto hp hc | release hp hc => exact Or.inl (hkeep hc chan (hran hp (by grind [Pc.waits])))
  | @sleep a k ch k' d hp hc =>
    obtain ⟨hneed, hrest⟩ := hkeep hc
    by_cases hba : b = a
    · grind [Pc.waits]
    · exact Or.inl (hrest chan (hran hp (by grind)))
  | @wakeup a k ch k' d hp hc =>
    by_cases he : chan = ch
    · exact Or.inr ⟨a, k', by grind⟩
    · exact Or.inl (hkeep hc chan he (hran hp (by grind [Pc.waits])))
  | @wake a ch k hp hf =>
    have hw : (s.pc b).waits chan := by cases hc : s.pc b <;> grind [Pc.waits, rouse]
    refine (h.reason b chan hw).imp_right fun ⟨b', k', hb'⟩ => ?_
    -- the wakeup that `b` was waiting for is this one, and it did not miss `b`
    have heq : b' = a := h.unique (by rw [hb']; trivial) (by rw [hp]; trivial)
    cases hc : s.pc b <;>
      grind [Pc.waits, rouse, h.lk a, h.lk b, h.table b, Pc.ownsLk, Pc.ownsTable]
  | call hp he =>
    refine (h.reason b chan (by grind [Pc.waits])).imp (hcall _ _ _ _ _ he chan) ?_
    exact fun ⟨b', k', hb'⟩ => ⟨b', k', by grind⟩
  | env he => exact (h.reason b chan hb).imp_left (henv _ _ _ he chan)
  | _ =>
    refine (h.reason b chan (by grind [Pc.waits])).imp_right ?_
    exact fun ⟨b', k', hb'⟩ => ⟨b', k', by grind⟩

end Step

/-- **Whoever sleeps while the lock is free has a reason to.** -/
theorem need_of_asleep [DecidableEq A] [DecidableEq χ] (need : χ → D → Prop) {chan : χ} {k : σ}
    (h : Reach (Step M) (init d) s)
    (hcall : ∀ a i d k d', M.enter a i d = some (k, d') → ∀ chan, need chan d → need chan d')
    (hcode : ∀ a k d, Keeps need d (M.code a k d))
    (henv : ∀ e d d', M.env e d = some d' → ∀ chan, need chan d → need chan d') (hlk : s.lk = none)
    (hp : s.pc a = .asleep chan k) : need chan s.data := by
  have hinv : Inv need s := by
    apply h.inv (P := Inv need)
    · exact ⟨fun _ => False.elim, fun _ => False.elim, fun _ _ => False.elim⟩
    · intro s act t hs hst
      exact hs.step hst hcall hcode henv
  refine (hinv.reason a chan (by rw [hp]; rfl)).resolve_right fun ⟨b, k', hb⟩ => ?_
  have hown := hinv.lk b (by rw [hb]; trivial)
  rw [hlk] at hown
  cases hown

/-! ### What holds of the data -/

/-- The actor is at work with the lock: it has come neither to `sleep` nor to its end. -/
def Pc.inside : Pc σ ρ χ → Prop
  | .crit _ | .waking _ _ => True
  | _ => False

/-- Who is at work with the lock. -/
def St.Inside (s : St A σ ρ χ D) (o : Option A) : Prop := ∀ a, (s.pc a).inside ↔ o = some a

/-- Who is at work after the code of the actor has run. -/
def Cmd.inside (a : A) : Cmd σ ρ χ → Option A
  | .goto _ | .wakeup _ _ => some a
  | .sleep _ _ | .release _ => none

lemma Pc.ownsLk_of_inside (h : c.inside) : c.ownsLk := by
  cases c <;> trivial

lemma inside_rouse [DecidableEq χ] (chan : χ) (c : Pc σ ρ χ) :
    (rouse chan c).inside ↔ c.inside := by
  cases c <;> grind [rouse, Pc.inside]

lemma Inside.free (hi : s.Inside o) (h : Inv need s) (hlk : s.lk = none) : o = none := by
  cases o with
  | none => rfl
  | some a =>
    have hown := h.lk a (Pc.ownsLk_of_inside ((hi a).mpr rfl))
    rw [hlk] at hown
    cases hown

/-- The actor who moves was at work, or nobody was. -/
lemma Inside.setPc [DecidableEq A] {o' : Option A} (hi : s.Inside o)
    (hs : ∀ b, (s'.pc b).inside ↔ (s.pc b).inside) (ho : o = none ∨ o = some a)
    (hc : c.inside ↔ o' = some a) (ho' : o' = none ∨ o' = some a) : (s'.setPc a c).Inside o' := by
  intro b
  grind [hi b]

/-- An actor who is not at work moves, and is not at work then. -/
lemma Inside.other [DecidableEq A] (hi : s.Inside o) (hs : s'.pc = s.pc) (ha : ¬ (s.pc a).inside)
    (hc : ¬ c.inside) :
    (s'.setPc a c).Inside o := by
  intro b
  grind [hi b]

/-- No two actors have the lock. -/
lemma mutex [DecidableEq A] [DecidableEq χ] (h : Reach (Step M) (init d) s) :
    Inv (fun _ _ => True) s := by
  apply h.inv (P := Inv fun _ _ => True)
  · exact ⟨fun _ => False.elim, fun _ => False.elim, fun _ _ => False.elim⟩
  · intro s act t hs hst
    refine hs.step hst (fun _ _ _ _ _ _ _ _ => trivial) (fun a k d => ?_) fun _ _ _ _ _ _ => trivial
    rcases M.code a k d with ⟨k' | ⟨chan, k'⟩ | ⟨chan, k'⟩ | r, d'⟩
    · exact fun _ _ => trivial
    · exact ⟨trivial, fun _ _ => trivial⟩
    · exact fun _ _ _ => trivial
    · exact fun _ _ => trivial

/-- **The rule for critical sections.** `J none` is what holds while nobody is at work with the
lock, and `J (some a)` while `a` is. -/
theorem section_inv [DecidableEq A] [DecidableEq χ] {J : Option A → (A → Option σ) → D → Prop}
    (h : Reach (Step M) (init d) s) (h0 : J none (fun _ => none) d)
    (hcall : ∀ o pts d a i k d', J o pts d → pts a = none → M.enter a i d = some (k, d') →
      J o (update pts a (some k)) d')
    (hlock : ∀ pts d a k, J none pts d → pts a = some k → J (some a) pts d)
    (hcode : ∀ pts d a k, J (some a) pts d → pts a = some k →
      J ((M.code a k d).1.inside a) (update pts a (M.code a k d).1.point) (M.code a k d).2)
    (henv : ∀ o pts d e d', J o pts d → M.env e d = some d' → J o pts d') :
    ∃ o, s.Inside o ∧ J o s.points s.data := by
  induction h with
  | refl => exact ⟨none, fun a => iff_of_false id nofun, h0⟩
  | @tail s t act hr hst ih =>
    obtain ⟨o, hi, hJ⟩ := ih
    have hpt {a : A} {k : σ} (hp : s.pc a = .crit k) : s.points a = some k := by
      simp [St.points, hp, Pc.point]
    -- the actor is at work: what its code comes to
    have hran {a : A} {k : σ} {s' : St A σ ρ χ D} {c : Pc σ ρ χ} {r : Cmd σ ρ χ × D}
        (hp : s.pc a = .crit k) (hc : M.code a k s.data = r) (hpc : s'.pc = s.pc)
        (hd : s'.data = r.2) (hpoint : c.point = r.1.point)
        (hin : c.inside ↔ r.1.inside a = some a)
          (hcmd : r.1.inside a = none ∨ r.1.inside a = some a) :
        ∃ o, (s'.setPc a c).Inside o ∧ J o (s'.setPc a c).points (s'.setPc a c).data := by
      obtain rfl : o = some a := (hi a).mp (by rw [hp]; trivial)
      refine ⟨r.1.inside a, Inside.setPc hi (fun b => by rw [hpc]) (Or.inr rfl) hin hcmd, ?_⟩
      have hnew := hcode _ _ _ _ hJ (hpt hp)
      have hpoints : s'.points = s.points := funext fun b => congrArg Pc.point (congrFun hpc b)
      rw [points_setPc, hpoints, hpoint]
      change J _ _ s'.data
      rw [hd]
      rwa [hc] at hnew
    -- the actor is not at work, and goes on at the same point
    have hkeep {a : A} {s' : St A σ ρ χ D} {c c' : Pc σ ρ χ} (hp : s.pc a = c')
        (hpc : s'.pc = s.pc) (hd : s'.data = s.data) (hpoint : c.point = c'.point)
        (ha : ¬ c'.inside) (hc : ¬ c.inside) :
        ∃ o, (s'.setPc a c).Inside o ∧ J o (s'.setPc a c).points (s'.setPc a c).data := by
      refine ⟨o, Inside.other hi hpc (by rwa [hp]) hc, ?_⟩
      have hpoints : s'.points = s.points := funext fun b => congrArg Pc.point (congrFun hpc b)
      rw [points_same hpoints hp hpoint]
      change J o _ s'.data
      rwa [hd]
    cases hst.move with
    | @call a r i k d hp he =>
      refine ⟨o, Inside.other hi rfl (by rw [hp]; exact id) id, ?_⟩
      rw [points_setPc]
      exact hcall _ _ _ a i k d hJ (by simp [St.points, hp, Pc.point]) he
    | @lock a k hp hf =>
      obtain rfl := Inside.free hi (mutex hr) hf
      refine ⟨some a, Inside.setPc hi (fun _ => Iff.rfl) (Or.inl rfl) (iff_of_true trivial rfl)
        (Or.inr rfl), ?_⟩
      have hsame : ({ s with lk := some a }.setPc a (.crit k)).points = s.points :=
        points_same rfl hp rfl
      rw [hsame]
      exact hlock _ _ a k hJ (by simp [St.points, hp, Pc.point])
    | goto hp hc => exact hran hp hc rfl rfl rfl (iff_of_true trivial rfl) (Or.inr rfl)
    | sleep hp hc => exact hran hp hc rfl rfl rfl (iff_of_false id nofun) (Or.inl rfl)
    | wakeup hp hc => exact hran hp hc rfl rfl rfl (iff_of_true trivial rfl) (Or.inr rfl)
    | release hp hc => exact hran hp hc rfl rfl rfl (iff_of_false id nofun) (Or.inl rfl)
    | fall hp => exact hkeep hp rfl rfl rfl id id
    | drop hp => exact hkeep hp rfl rfl rfl id id
    | set hp => exact hkeep hp rfl rfl rfl id id
    | @wake a chan k hp hf =>
      obtain rfl : o = some a := (hi a).mp (by rw [hp]; trivial)
      refine ⟨some a, Inside.setPc hi (fun b => inside_rouse chan (s.pc b)) (Or.inr rfl)
        (iff_of_true trivial rfl) (Or.inr rfl), ?_⟩
      have hsame : ({ s with pc := fun b => rouse chan (s.pc b) }.setPc a (.crit k)).points =
          s.points := points_same (funext fun b => point_rouse _ _) hp rfl
      rw [hsame]
      exact hJ
    | env he => exact ⟨o, hi, henv _ _ _ _ _ hJ he⟩
    | tableAcquire | tableRelease => exact ⟨o, hi, hJ⟩

/-- What is kept by calls, by each piece of the code and by the environment holds in all runs,
whoever has the lock. -/
theorem coarse_inv [DecidableEq A] [DecidableEq χ] {I : (A → Option σ) → D → Prop}
    (h : Reach (Step M) (init d) s) (h0 : I (fun _ => none) d)
    (hcall : ∀ pts d a i k d', I pts d → pts a = none → M.enter a i d = some (k, d') →
      I (update pts a (some k)) d') (hcode : ∀ pts d a k, I pts d → pts a = some k →
      I (update pts a (M.code a k d).1.point) (M.code a k d).2)
    (henv : ∀ pts d e d', I pts d → M.env e d = some d' → I pts d') :
    I s.points s.data := by
  obtain ⟨-, -, hI⟩ := section_inv (J := fun _ => I) h h0 (fun _ => hcall) (fun _ _ _ _ hI _ => hI)
    hcode fun _ => henv
  exact hI

end Machine

/-! ### Histories, as lists that grow at the end -/

section History

variable {α : Type*} {l l' : List α} {i : ℕ} {x y : α}

lemma getElem?_of_prefix (h : l[i]? = some x) (hl : l <+: l') : l'[i]? = some x := by
  obtain ⟨t, rfl⟩ := hl
  rw [List.getElem?_append_left (List.getElem?_eq_some_iff.mp h).1]
  exact h

lemma getElem?_concat_cases (h : (l ++ [y])[i]? = some x) :
    l[i]? = some x ∨ i = l.length ∧ x = y := by
  rcases Nat.lt_or_ge i l.length with hlt | hge
  · rw [List.getElem?_append_left hlt] at h
    exact Or.inl h
  · rw [List.getElem?_append_right hge, List.getElem?_singleton] at h
    split_ifs at h with hz
    exact Or.inr ⟨by omega, (Option.some.inj h).symm⟩

end History

end Xv6.Lib.Monitor
