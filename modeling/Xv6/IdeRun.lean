import Xv6.IdeQueue

/-!
Runs of `iderw` and `ideintr`: what holds at each point of the code, and what each call comes to.
-/

namespace Xv6.Ide

open Xv6.Lib.Run Xv6.Lib.Monitor Xv6.Lib.Links
open Xv6.BufCache (FSSIZE)
open Function (update update_of_ne update_self)

variable {A B δ : Type*} {d d' : Driver A B δ} {a : A} {b c : B} {n : ℕ} {q : List B}
  {mid : Option B}

variable {pts pts' : A → Option (Code B)} {k : Code B}

/-- What holds while nobody is at work with the lock: the first of the queue has been started. -/
def Stable (pts : A → Option (Code B)) (d : Driver A B δ) : Prop :=
  ∃ q, Inv pts d none q (min 1 q.length)

/-- The command of the request that `ideintr` works on has been executed. -/
def Serving (pts : A → Option (Code B)) (d : Driver A B δ) : Prop :=
  d.executed.length = d.finished.length + 1 ∧ d.pending = false ∧ ∀ a, ¬ notified pts a

/-- What holds at a point of the code, for the actor at work. -/
def AtPoint (pts : A → Option (Code B)) (d : Driver A B δ) : Code B → Prop
  | .queue _ | .wait _ | .intr | .exit => Stable pts d
  | .walk b pp => ∃ l₁ l₂, Inv pts d none (l₁ ++ l₂) (min 1 (l₁ ++ l₂).length) ∧
      pp = l₁.getLast? ∧ d.queue.next b = none
  | .check b => ∃ q, Inv pts d none (q ++ [b]) (min 1 q.length)
  | .start b _ => ∃ q, Inv pts d none (b :: q) 0
  | .serve b => (∃ q, Inv pts d (some b) q 1) ∧ Serving pts d
  | .next => ∃ q, Inv pts d none q 0
  | .panicked => Returns d

/-- What holds in every run. -/
def Sound (o : Option A) (pts : A → Option (Code B)) (d : Driver A B δ) : Prop :=
  match o with
  | none => Stable pts d
  | some a => ∃ k, pts a = some k ∧ AtPoint pts d k

/-- A step of somebody else than the actor at work. -/
lemma AtPoint.map (h : AtPoint pts d k)
    (hinv : ∀ mid q n, Inv pts d mid q n → Inv pts' d' mid q n) (hret : Returns d → Returns d')
    (hq : d'.queue = d.queue)
    (hserve : ∀ b q, Inv pts d (some b) q 1 → Serving pts d → Serving pts' d') :
    AtPoint pts' d' k := by
  cases k with
  | queue | wait | intr | exit =>
    obtain ⟨q, hI⟩ := h
    exact ⟨q, hinv _ _ _ hI⟩
  | walk b pp =>
    obtain ⟨l₁, l₂, hI, hpp, hnil⟩ := h
    exact ⟨l₁, l₂, hinv _ _ _ hI, hpp, hq ▸ hnil⟩
  | check b | start b k | next =>
    obtain ⟨q, hI⟩ := h
    exact ⟨q, hinv _ _ _ hI⟩
  | serve b =>
    obtain ⟨⟨q, hI⟩, hs⟩ := h
    exact ⟨⟨q, hinv _ _ _ hI⟩, hserve b q hI hs⟩
  | panicked => exact hret h

lemma Sound.map {o : Option A} (h : Sound o pts d) (hpts : ∀ a k, pts a = some k → pts' a = some k)
    (hinv : ∀ mid q n, Inv pts d mid q n → Inv pts' d' mid q n) (hret : Returns d → Returns d')
    (hq : d'.queue = d.queue)
    (hserve : ∀ b q, Inv pts d (some b) q 1 → Serving pts d → Serving pts' d') :
    Sound o pts' d' := by
  cases o with
  | none =>
    obtain ⟨q, hI⟩ := h
    exact ⟨q, hinv _ _ _ hI⟩
  | some a =>
    obtain ⟨k, hp, hk⟩ := h
    exact ⟨k, hpts a k hp, hk.map hinv hret hq hserve⟩

lemma Stable.returns (h : Stable pts d) : Returns d := by
  obtain ⟨q, hI⟩ := h
  exact hI.returns

lemma Sound.returns {o : Option A} (h : Sound o pts d) : Returns d := by
  cases o with
  | none => exact Stable.returns h
  | some a =>
    obtain ⟨k, -, hk⟩ := h
    cases k with
    | queue | wait | intr | exit => exact Stable.returns hk
    | walk b pp =>
      obtain ⟨l₁, l₂, hI, -⟩ := hk
      exact hI.returns
    | check b | start b k | next =>
      obtain ⟨q, hI⟩ := hk
      exact hI.returns
    | serve b =>
      obtain ⟨⟨q, hI⟩, -⟩ := hk
      exact hI.returns
    | panicked => exact hk

lemma min_one (hq : q ≠ []) : min 1 q.length = 1 := Nat.min_eq_left (List.length_pos_iff.mpr hq)

/-- Where an actor may wait for the lock. -/
def Code.entry : Code B → Prop
  | .queue _ | .wait _ | .intr => True
  | .walk _ _ | .check _ | .start _ _ | .serve _ | .next | .exit | .panicked => False

lemma Stable.atPoint (h : Stable pts d) (hk : k.entry) : AtPoint pts d k := by
  cases k with
  | queue | wait | intr => exact h
  | walk | check | start | serve | next | exit | panicked => exact hk.elim

lemma inv_start (buf : B → Buf A δ) (qnext : B → Option B) (havedisk1 err : Bool) (port : δ)
    (disk : Bool × ℕ → δ) :
    Inv (fun _ => none) (start buf qnext havedisk1 err port disk) none [] 0 where
  calls _ _ := iff_of_false nofun nofun
  locked := nofun
  fresh := nofun
  chain := rfl
  order := rfl
  queued := nofun
  joined := nofun
  returns := ⟨nofun, List.nodup_nil⟩
  drive := {
    le := Nat.zero_le 1
    room := le_rfl
    issued := rfl
    checked := nofun
    exec := rfl
    lower := le_rfl
    upper := le_rfl
    wrote := nofun
    busy := nofun
    pending := nofun
    notified := nofun
    port := nofun }

section Run

variable [DecidableEq A] [DecidableEq B]

lemma Sound.enter {o : Option A} {i : Call B} (h : Sound o pts d) (hp : pts a = none)
    (he : enter a i d = some (k, d')) : Sound o (update pts a (some k)) d' := by
  have hpts (a' : A) (k' : Code B) (hk : pts a' = some k') :
      update pts a (some k) a' = some k' := by
    rw [update_of_ne]
    · exact hk
    · rintro rfl
      rw [hp] at hk
      cases hk
  cases i with
  | iderw b =>
    simp only [Ide.enter] at he
    split_ifs at he with hl hun hdisk
    cases he
    refine h.map hpts (fun mid q n hI => hI.call hp (not_not.mp hl) hun)
      (fun hr => hr.mono rfl List.prefix_rfl List.prefix_rfl) rfl fun b q _ hs => ?_
    refine ⟨hs.1, hs.2.1, fun a' ha =>
      hs.2.2 a' ((notified_same (p := some (.queue _)) ?_ nofun a').mp ha)⟩
    simp [notified, hp]
  | ideintr =>
    simp only [Ide.enter] at he
    split_ifs at he with hpend
    cases he
    refine h.map hpts (fun mid q n hI => hI.notify hp hpend)
      (fun hr => hr.mono rfl List.prefix_rfl List.prefix_rfl) rfl fun b q _ hs => ?_
    rw [hs.2.1] at hpend
    cases hpend

lemma Sound.env {o : Option A} {e : Ev A B δ} (h : Sound o pts d) (he : env e d = some d') :
    Sound o pts d' := by
  -- a buffer changes that no call is about
  have hbuf {b : B} {x : Buf A δ}
      (hno : ∀ mid q n, Inv pts d mid q n → ∀ a, calling pts a ≠ some b) :
      Sound o pts { d with buf := update d.buf b x } := by
    refine h.map (fun _ _ hp => hp) (fun mid q n hI => hI.rebuf _ fun a b' hc => ?_)
      (fun hr => hr.mono rfl List.prefix_rfl List.prefix_rfl) rfl fun b q _ hs => hs
    refine update_of_ne ?_ _ _
    rintro rfl
    exact hno mid q n hI a hc
  have hcalls {b : B} (hc : d.calls b = none) :
      ∀ mid q n, Inv pts d mid q n → ∀ a, calling pts a ≠ some b := by
    intro mid q n hI a ha
    rw [(hI.calls a b).mpr ha] at hc
    cases hc
  cases e with
  | complete fail =>
    obtain ⟨cmd, hb, rfl⟩ := Option.map_eq_some_iff.mp he
    refine h.map (fun _ _ hp => hp) (fun mid q n hI => hI.complete hb fail)
      (fun hr => hr.mono rfl List.prefix_rfl (List.prefix_append _ _)) rfl fun b q hI hs => ?_
    rw [hI.drive.idle hs.1] at hb
    cases hb
  | acquiresleep a b =>
    simp only [Ide.env] at he
    split_ifs at he with hl
    cases he
    refine hbuf fun mid q n hI a' hc => ?_
    rw [hI.locked a' b hc] at hl
    cases hl
  | releasesleep a b =>
    simp only [Ide.env] at he
    split_ifs at he with hl
    cases he
    exact hbuf (hcalls hl.2)
  | fill b new =>
    simp only [Ide.env] at he
    split_ifs at he with hc
    cases he
    exact hbuf (hcalls hc)

/-- One step of the code. -/
lemma Sound.code (h : AtPoint pts d k) (hp : pts a = some k) :
    Sound ((code a k d).1.inside a) (update pts a (code a k d).1.point) (code a k d).2 := by
  have hself {p : Option (Code B)} : update pts a p a = p := update_self ..
  cases k with
  | queue b =>
    obtain ⟨q, hI⟩ := h
    have hI' := hI.goto hp (p := some (.walk b none)) rfl rfl (by simp) (by rintro ⟨⟩)
    refine ⟨_, hself, [], q, hI'.clear (a := a) ?_ ?_, rfl, update_self ..⟩
    · rw [calling_update, if_pos rfl]
      rfl
    · rw [joining_update, if_pos rfl]
      rfl
  | walk b pp =>
    obtain ⟨l₁, l₂, hI, rfl, hnil⟩ := h
    have hrest := hI.chain.get
    unfold Ide.code
    dsimp only
    cases hget : d.queue.get l₁.getLast? with
    | some c =>
      rw [hget] at hrest
      cases l₂ with
      | nil => cases hrest
      | cons c' l₂ =>
        obtain rfl := Option.some.inj hrest.1
        have hI' := hI.goto hp (p := some (.walk b (some c))) rfl rfl (by simp) (by rintro ⟨⟩)
        refine ⟨_, hself, l₁ ++ [c], l₂, ?_, (List.getLast?_concat ..).symm, hnil⟩
        rw [List.append_assoc]
        exact hI'
    | none =>
      rw [hget] at hrest
      cases l₂ with
      | cons c' l₂ => cases hrest.1
      | nil =>
        rw [List.append_nil] at hI
        refine ⟨_, hself, l₁, hI.arrive ?_ ?_ ?_ hnil⟩
        · simp [calling, hp, Code.call]
        · simp [joining, hp, Code.joined]
        · simp [notified, hp]
  | check b =>
    obtain ⟨q, hI⟩ := h
    have hnodup := hI.chain.nodup
    unfold Ide.code
    dsimp only
    split_ifs with hhead
    · -- the buffer is the first of the queue, and so the only one
      have hI' := hI.goto hp (p := some (.start b .wait)) rfl rfl (by simp) (by rintro ⟨⟩)
      refine ⟨_, hself, ?_⟩
      cases q with
      | nil => exact ⟨[], hI'⟩
      | cons c q =>
        cases hhead.symm.trans hI.chain.1
        simp at hnodup
    · have hI' := hI.goto hp (p := some (.wait b)) rfl rfl (by simp) (by rintro ⟨⟩)
      refine ⟨_, hself, q ++ [b], ?_⟩
      cases q with
      | nil => exact (hhead hI.chain.1).elim
      | cons c q =>
        rw [min_one (by simp)] at hI' ⊢
        exact hI'
  | start b k =>
    obtain ⟨q, hI⟩ := h
    unfold Ide.code
    dsimp only
    split_ifs with hblock hbusy
    · exact ⟨_, hself, hI.returns⟩
    · exact ⟨_, hself, q, hI.goto hp rfl rfl (by simp) (by rintro ⟨⟩)⟩
    · have hI' := hI.start (not_le.mp hblock)
      rw [← min_one (List.cons_ne_nil b q)] at hI'
      refine ⟨_, hself, ?_⟩
      cases k with
      | wait => exact ⟨b :: q, hI'.goto hp rfl rfl (by simp) (by rintro ⟨⟩)⟩
      | exit => exact ⟨b :: q, hI'.goto hp rfl rfl (by simp) (by rintro ⟨⟩)⟩
  | wait b =>
    obtain ⟨q, hI⟩ := h
    unfold Ide.code
    dsimp only
    split_ifs with hready
    · exact ⟨q, hI.leave hp (not_not.mpr hready)⟩
    · exact ⟨q, hI.goto hp rfl rfl (by simp) (by rintro ⟨⟩)⟩
  | intr =>
    obtain ⟨q, hI⟩ := h
    obtain ⟨b, q', hhead, hI', hx, hpend, hno⟩ := hI.pop hp
    unfold Ide.code
    dsimp only
    rw [hhead]
    exact ⟨_, hself, ⟨q', hI'⟩, hx, hpend, hno⟩
  | serve b =>
    obtain ⟨⟨q, hI⟩, hx, hpend, hno⟩ := h
    have hbusy : ¬ ((d.buf b).dirty = false ∧ d.busy.isSome = true) := by
      rw [hI.drive.idle hx]
      simp
    unfold Ide.code
    dsimp only
    rw [if_neg hbusy]
    exact ⟨_, hself, q, (hI.finish hx hpend hno).goto hp rfl rfl (by simp) (by rintro ⟨⟩)⟩
  | next =>
    obtain ⟨q, hI⟩ := h
    unfold Ide.code
    dsimp only
    cases q with
    | nil =>
      rw [show d.queue.head = none from hI.chain]
      exact ⟨[], hI.goto hp rfl rfl (by simp) (by rintro ⟨⟩)⟩
    | cons b q =>
      rw [hI.chain.1]
      exact ⟨_, hself, q, hI.goto hp rfl rfl (by simp) (by rintro ⟨⟩)⟩
  | exit =>
    obtain ⟨q, hI⟩ := h
    exact ⟨q, hI.goto hp rfl rfl (by simp) (by rintro ⟨⟩)⟩
  | panicked => exact ⟨_, hself, h⟩

lemma entry_enter {i : Call B} (he : enter a i d = some (k, d')) : k.entry := by
  unfold enter at he
  cases i with
  | iderw b =>
    dsimp only at he
    split_ifs at he
    cases he
    trivial
  | ideintr =>
    dsimp only at he
    split_ifs at he
    cases he
    trivial

omit [DecidableEq A] in
lemma entry_code (h : (code a k d).1.inside a ≠ some a) :
    ∀ k', (code a k d).1.point = some k' → k'.entry := by
  intro k' hk'
  -- only `sleep` gives up the lock and goes on
  have hsleep : ∀ r : Cmd (Code B) Unit B × Driver A B δ, r.1.inside a ≠ some a →
      r.1.point = some k' → ∃ ch, r.1 = .sleep ch k' := by
    rintro ⟨k' | ⟨ch, k'⟩ | ⟨ch, k'⟩ | r, d'⟩ hi hk
    · exact (hi rfl).elim
    · exact ⟨ch, by rw [Option.some.inj hk]⟩
    · exact (hi rfl).elim
    · cases hk
  obtain ⟨ch, hs⟩ := hsleep _ h hk'
  unfold code at hs
  cases k with
  | wait b =>
    dsimp only at hs
    split_ifs at hs
    obtain ⟨-, rfl⟩ := Cmd.sleep.inj hs
    trivial
  | queue | exit | panicked => cases hs
  | start | check | serve =>
    dsimp only at hs
    split_ifs at hs
  | walk | intr | next =>
    dsimp only at hs
    split at hs <;> cases hs

/-- Every state of every run. -/
lemma sound {buf : B → Buf A δ} {qnext : B → Option B} {havedisk1 err : Bool} {port : δ}
    {disk : Bool × ℕ → δ} {s : St A (Code B) Unit B (Driver A B δ)}
    (h : Reach (Step ide) (init (start buf qnext havedisk1 err port disk)) s) :
    ∃ o, s.Inside o ∧ Sound o s.points s.data := by
  have hrun := section_inv (J := fun o pts d => Sound o pts d ∧
    ∀ a k, o ≠ some a → pts a = some k → k.entry) h ?_ ?_ ?_ ?_ ?_
  · obtain ⟨o, ho, hJ, -⟩ := hrun
    exact ⟨o, ho, hJ⟩
  · exact ⟨⟨[], inv_start ..⟩, fun a k _ hk => nomatch hk⟩
  · rintro o pts d a i k d' ⟨hJ, hent⟩ hp he
    refine ⟨hJ.enter hp he, fun a' k' ho hk => ?_⟩
    by_cases ha : a' = a
    · rw [ha, update_self] at hk
      exact Option.some.inj hk ▸ entry_enter he
    · rw [update_of_ne ha] at hk
      exact hent a' k' ho hk
  · rintro pts d a k ⟨hJ, hent⟩ hp
    exact ⟨⟨k, hp, Stable.atPoint hJ (hent a k nofun hp)⟩, fun a' k' _ hk => hent a' k' nofun hk⟩
  · rintro pts d a k ⟨hJ, hent⟩ hp
    obtain ⟨k', hk', hat⟩ := hJ
    cases hp.symm.trans hk'
    refine ⟨Sound.code hat hp, fun a' k' ho hk => ?_⟩
    by_cases ha : a' = a
    · rw [ha, update_self] at hk
      exact entry_code (ha ▸ ho) k' hk
    · rw [update_of_ne ha] at hk
      exact hent a' k' (fun he => ha (Option.some.inj he).symm) hk
  · rintro o pts d e d' ⟨hJ, hent⟩ he
    exact ⟨hJ.env he, hent⟩

end Run

/-- **The request queue of the disk.** While the lock is free the queue is a list without
repetition, of the requests that are not finished, in the order they came; the commands given to the
disk are those of the finished requests and of the first in the queue, each once and in that order.
A call of `iderw` returns after its own request has been executed and finished, with a buffer that
is valid and clean: the command wrote the block of the buffer if that was dirty, and read it
otherwise, and if the disk reported no error, the buffer and the block are equal then. -/
theorem request_queue [DecidableEq A] [DecidableEq B] {buf : B → Buf A δ} {qnext : B → Option B}
    {havedisk1 err : Bool} {port : δ} {disk : Bool × ℕ → δ}
    {s : St A (Code B) Unit B (Driver A B δ)}
    (h : Reach (Step ide) (init (start buf qnext havedisk1 err port disk)) s) :
    (s.lk = none → ∃ q : List B, IsList s.data.queue.next s.data.queue.head q ∧ q.Nodup ∧
      s.data.arrived.map Req.buf = s.data.finished ++ q ∧
      s.data.issued = (s.data.arrived.take (s.data.finished.length + min 1 q.length)).map
        fun r => command r.old) ∧ (s.data.returned.map Ret.ticket).Nodup ∧
    ∀ r ∈ s.data.returned, ∃ req e,
      s.data.arrived[r.ticket]? = some req ∧ req.who = r.who ∧ req.buf = r.buf ∧
      s.data.executed[r.ticket]? = some e ∧ r.ticket < r.done ∧
      r.new.valid = true ∧ r.new.dirty = false ∧
      e.cmd.regs.target = (decide (req.old.dev.toNat % 2 = 1), req.old.blockno.toNat) ∧
      e.cmd.out = (if req.old.dirty then some req.old.data else none) ∧
      (e.failed = false → e.content = r.new.data) := by
  obtain ⟨o, hi, hs⟩ := sound h
  refine ⟨fun hlk => ?_, hs.returns.nodup, fun r hr => ?_⟩
  · obtain rfl := Inside.free hi (mutex h) hlk
    obtain ⟨q, hI⟩ := hs
    exact ⟨q, hI.chain, hI.chain.nodup, hI.order, hI.drive.issued⟩
  · obtain ⟨req, e, hreq, hwho, hbuf, hexec, hcmd, hblock, hwrote, hdone, hnew⟩ :=
      hs.returns.ok r hr
    have hout : e.cmd.out = if req.old.dirty then some req.old.data else none := by rw [hcmd]; rfl
    refine ⟨req, e, hreq, hwho, hbuf, hexec, hdone, by rw [hnew]; rfl, by rw [hnew]; rfl, ?_, hout,
      fun hok => ?_⟩
    · rw [hcmd]
      exact target_regs _ _ hblock
    · rw [hnew]
      unfold Req.result
      cases hdirty : req.old.dirty with
      | false => simp [hok]
      | true =>
        rw [if_neg (by simp)]
        exact hwrote hok _ (by rw [hout, hdirty]; rfl)

/-- The disk has `5` in every block, and a process has locked a buffer for block 7. -/
def oneBuffer : Driver Bool Unit ℕ :=
  start (fun _ => ⟨false, false, 0, 7, 0, some true⟩) (fun _ => none) false false 0 fun _ => 5

/-- The process reads the block, and the disk succeeds or fails. -/
def readBlock (fail : Option ℕ) : List (Act Bool (Call Unit) (Ev Bool Unit ℕ)) :=
  .call true (.iderw ()) :: List.replicate 9 (.step true) ++
    [.tableRelease, .env (.complete fail), .call false .ideintr] ++
    List.replicate 5 (.step false) ++ List.replicate 2 (.step true)

theorem request_queue_read : ∃ s : St Bool (Code Unit) Unit Unit (Driver Bool Unit ℕ),
    Reach (Step ide) (init oneBuffer) s ∧
    ∃ r ∈ s.data.returned, ∃ e : Exec ℕ, s.data.executed[r.ticket]? = some e ∧
      e.failed = false ∧ e.content = r.new.data := by
  refine reach_any (P := fun s => s.data.returned.map Ret.ticket = [0] ∧
    s.data.executed.map Exec.failed = [false]) (readBlock none) (by decide +kernel) ?_
  intro s hr ⟨hret, hexec⟩
  obtain ⟨r, hmem, -⟩ := List.mem_map.mp (hret ▸ List.mem_singleton_self 0)
  obtain ⟨req, e, -, -, -, he, -, -, -, -, -, hok⟩ := (request_queue hr).2.2 r hmem
  have hfail : e.failed = false := by
    have hm := List.mem_map_of_mem (f := Exec.failed) (List.mem_of_getElem? he)
    rw [hexec] at hm
    exact List.mem_singleton.mp hm
  exact ⟨r, hmem, e, he, hfail, hok hfail⟩

/-- The disk reports an error, and `iderw` returns with a valid buffer that has not been read. -/
theorem failed_read_valid : ∃ s : St Bool (Code Unit) Unit Unit (Driver Bool Unit ℕ),
    Reach (Step ide) (init oneBuffer) s ∧ (s.data.arrived.map fun r => r.old.dirty) = [false] ∧
    (s.data.executed.map fun e => (e.failed, e.content)) = [(true, 5)] ∧
    (s.data.returned.map fun r => (r.new.valid, r.new.dirty, r.new.data)) = [(true, false, 0)] :=
  reach_any (readBlock (some 9)) (by decide +kernel) fun _ _ => id

end Xv6.Ide
