import Xv6.Ide

/-!
The queue of `ide.c` as a list of requests, and what each step does to it.
-/

namespace Xv6.Ide

open Xv6.Lib.Monitor Xv6.Lib.Links
open Xv6.BufCache (FSSIZE)
open Function (update update_of_ne update_self)

variable {A B δ : Type*} {d d' : Driver A B δ} {a : A} {b c : B} {n : ℕ} {q : List B}
  {mid : Option B}

/-- The buffer of a call of `iderw`. -/
def Code.call : Code B → Option B
  | .queue b | .walk b _ | .check b | .start b .wait | .wait b => some b
  | .start _ .exit | .intr | .serve _ | .next | .exit | .panicked => none

/-- The buffer of a call of `iderw` that has appended it. -/
def Code.joined : Code B → Option B
  | .check b | .start b .wait | .wait b => some b
  | .queue _ | .walk _ _ | .start _ .exit | .intr | .serve _ | .next | .exit | .panicked => none

variable {pts pts' : A → Option (Code B)} {k : Code B}

def calling (pts : A → Option (Code B)) (a : A) : Option B := (pts a).bind Code.call

def joining (pts : A → Option (Code B)) (a : A) : Option B := (pts a).bind Code.joined

def notified (pts : A → Option (Code B)) (a : A) : Prop := pts a = some .intr

lemma calling_of_joining (h : joining pts a = some b) : calling pts a = some b := by
  unfold joining at h
  unfold calling
  cases hk : pts a with
  | none => simp [hk] at h
  | some k =>
    rw [hk] at h
    rcases k with _ | _ | _ | ⟨b, _ | _⟩ | _ | _ | _ | _ | _ | _ <;> first | exact h | cases h

/-- The queue is a list of the requests that are not finished, in the order they came, after the one
that `ideintr` is working on (`mid`). -/
structure Inv (pts : A → Option (Code B)) (d : Driver A B δ) (mid : Option B) (q : List B) (n : ℕ) :
    Prop where
  calls : ∀ a b, d.calls b = some a ↔ calling pts a = some b
  locked : ∀ a b, calling pts a = some b → (d.buf b).lock = some a
  fresh : ∀ a b, calling pts a = some b → joining pts a = none → Unready (d.buf b)
  chain : IsList d.queue.next d.queue.head q
  order : d.arrived.map Req.buf = d.finished ++ (mid.toList ++ q)
  queued : ∀ i b, (mid.toList ++ q)[i]? = some b →
    d.ticket b = d.finished.length + i ∧ ∃ a, joining pts a = some b
  joined : ∀ a b, joining pts a = some b → ∃ r, d.arrived[d.ticket b]? = some r ∧ r.who = a ∧
    r.buf = b ∧ Unready r.old ∧ Fate d b r ∧ ∀ r' ∈ d.returned, r'.ticket ≠ d.ticket b
  returns : Returns d
  drive : Drive (notified pts) d n

/-- Steps that leave calls and requests alone. -/
lemma Inv.keep {m : ℕ} (h : Inv pts d mid q n) (hcall : ∀ a, calling pts' a = calling pts a)
    (hjoin : ∀ a, joining pts' a = joining pts a) (hbuf : d'.buf = d.buf)
    (hq : d'.queue = d.queue) (hc : d'.calls = d.calls) (ht : d'.ticket = d.ticket)
    (ha : d'.arrived = d.arrived) (hf : d'.finished = d.finished) (hr : d'.returned = d.returned)
    (he : d.executed <+: d'.executed) (hd : Drive (notified pts') d' m) : Inv pts' d' mid q m := by
  refine ⟨by simpa only [hc, hcall] using h.calls, by simpa only [hbuf, hcall] using h.locked,
    by simpa only [hbuf, hcall, hjoin] using h.fresh, hq ▸ h.chain, by rw [ha, hf]; exact h.order,
    by simpa only [ht, hf, hjoin] using h.queued, fun a b hj => ?_,
    h.returns.mono hr (ha ▸ List.prefix_rfl) he, hd⟩
  rw [hjoin] at hj
  obtain ⟨r, hget, hwho, hb, hun, hfate, hret⟩ := h.joined a b hj
  rw [ha, ht, hr]
  refine ⟨r, hget, hwho, hb, hun, ⟨by rw [hf, ht, hbuf]; exact hfate.before, ?_⟩, hret⟩
  rw [hf, ht, hbuf]
  intro hlt
  obtain ⟨e, hexec, hres⟩ := hfate.after hlt
  exact ⟨e, getElem?_of_prefix hexec he, hres⟩

section Points

variable [DecidableEq A] {p : Option (Code B)}

@[grind =]
lemma calling_update (a' : A) : calling (update pts a p) a' =
    if a' = a then p.bind Code.call else calling pts a' := by
  grind [calling]

@[grind =]
lemma joining_update (a' : A) : joining (update pts a p) a' =
    if a' = a then p.bind Code.joined else joining pts a' := by
  grind [joining]

lemma notified_update (a' : A) : notified (update pts a p) a' ↔
    (a' = a ∧ p = some .intr) ∨ a' ≠ a ∧ notified pts a' := by
  grind [notified]

lemma calling_same (hc : p.bind Code.call = calling pts a) (a' : A) :
    calling (update pts a p) a' = calling pts a' := by
  grind

lemma joining_same (hj : p.bind Code.joined = joining pts a) (a' : A) :
    joining (update pts a p) a' = joining pts a' := by
  grind

lemma notified_same (ha : ¬ notified pts a) (hp : p ≠ some .intr) (a' : A) :
    notified (update pts a p) a' ↔ notified pts a' := by
  grind [notified]

/-- The actor goes on to a point with the same buffer. -/
lemma Inv.goto (h : Inv pts d mid q n) (hp : pts a = some k) (hc : p.bind Code.call = k.call)
    (hj : p.bind Code.joined = k.joined) (hk : k ≠ .intr) (hk' : p ≠ some .intr) :
    Inv (update pts a p) d mid q n := by
  refine h.keep (calling_same ?_) (joining_same ?_) rfl rfl rfl rfl rfl rfl rfl List.prefix_rfl ?_
  · rw [hc]
    simp [calling, hp]
  · rw [hj]
    simp [joining, hp]
  · refine h.drive.congr (notified_same ?_ hk') List.prefix_rfl rfl rfl rfl rfl rfl rfl rfl
    simpa [notified, hp] using hk

end Points

/-- A buffer is in one call only. -/
lemma Inv.caller_unique (h : Inv pts d mid q n) {a' : A} (h₁ : calling pts a = some b)
    (h₂ : calling pts a' = some b) : a = a' :=
  Option.some.inj (((h.calls a b).mpr h₁).symm.trans ((h.calls a' b).mpr h₂))

/-- A buffer that is being appended is not in the queue yet. -/
lemma Inv.not_mem (h : Inv pts d mid q n) (hc : calling pts a = some b)
    (hj : joining pts a = none) : b ∉ mid.toList ++ q := by
  intro hm
  obtain ⟨i, hi⟩ := List.getElem?_of_mem hm
  obtain ⟨-, a', ha'⟩ := h.queued i b hi
  obtain rfl := h.caller_unique hc (calling_of_joining ha')
  rw [hj] at ha'
  cases ha'

/-- A buffer in the queue is as its request found it. -/
lemma Inv.waits (h : Inv pts d mid q n) {i : ℕ} (hi : (mid.toList ++ q)[i]? = some b) :
    ∃ r, d.arrived[d.finished.length + i]? = some r ∧ r.buf = b ∧ d.buf b = r.old := by
  obtain ⟨ht, a, ha⟩ := h.queued i b hi
  obtain ⟨r, hr, -, hbuf, -, hfate, -⟩ := h.joined a b ha
  rw [ht] at hr
  exact ⟨r, hr, hbuf, hfate.before (by omega)⟩

lemma Inv.length_arrived (h : Inv pts d mid q n) :
    d.arrived.length = d.finished.length + (mid.toList ++ q).length := by
  rw [← List.length_append, ← h.order, List.length_map]

/-- `idestart`, for the first buffer of the queue. -/
lemma Inv.start (h : Inv pts d none (b :: q) 0) (hc : (d.buf b).blockno.toNat < FSSIZE) :
    Inv pts { d with
      busy := some (command (d.buf b))
      issued := d.issued ++ [command (d.buf b)] } none (b :: q) 1 := by
  obtain ⟨r, hr, -, hold⟩ := h.waits (i := 0) (b := b) rfl
  refine h.keep (fun _ => rfl) (fun _ => rfl) rfl rfl rfl rfl rfl rfl rfl List.prefix_rfl ?_
  rw [hold] at hc ⊢
  exact h.drive.start hr hc

lemma Inv.complete (h : Inv pts d mid q n) {cmd : Command δ} (hb : d.busy = some cmd)
    (fail : Option δ) :
    Inv pts { d with
      disk := execute d.disk cmd fail
      busy := none
      err := fail.isSome
      port := fail.getD (execute d.disk cmd fail cmd.regs.target)
      pending := true
      executed := d.executed ++
        [⟨cmd, fail.isSome, execute d.disk cmd fail cmd.regs.target⟩] } mid q n :=
  h.keep (fun _ => rfl) (fun _ => rfl) rfl rfl rfl rfl rfl rfl rfl (List.prefix_append _ _)
    (h.drive.complete hb fail)

/-- Buffers that are not in a call change. -/
lemma Inv.rebuf (h : Inv pts d mid q n) (x : B → Buf A δ)
    (hx : ∀ a b, calling pts a = some b → x b = d.buf b) :
    Inv pts { d with buf := x } mid q n := by
  refine ⟨h.calls, by grind [h.locked], by grind [h.fresh], h.chain, h.order, h.queued,
    fun a b hj => ?_, h.returns.mono rfl List.prefix_rfl List.prefix_rfl,
    h.drive.congr (fun _ => Iff.rfl) List.prefix_rfl rfl rfl rfl rfl rfl rfl rfl⟩
  obtain ⟨r, hget, hwho, hb, hun, hfate, hret⟩ := h.joined a b hj
  have hsame := hx a b (calling_of_joining hj)
  refine ⟨r, hget, hwho, hb, hun, ⟨fun hle => hsame.trans (hfate.before hle), fun hlt => ?_⟩, hret⟩
  obtain ⟨e, hexec, hres⟩ := hfate.after hlt
  exact ⟨e, hexec, hsame.trans hres⟩

/-- Two requests with one number have one buffer. -/
lemma Inv.ticket_ne (h : Inv pts d mid q n) {i : ℕ} {r : Req A B δ} (hi : d.arrived[i]? = some r)
    (hb : r.buf ≠ b) (hj : joining pts a = some b) : d.ticket b ≠ i := by
  rintro rfl
  obtain ⟨r', hget, -, hbuf, -⟩ := h.joined a b hj
  cases hi.symm.trans hget
  exact hb hbuf

/-- The interrupt brings up `ideintr`. -/
lemma Inv.notify [DecidableEq A] (h : Inv pts d mid q n) (hp : pts a = none)
    (hpend : d.pending = true) :
    Inv (update pts a (some .intr)) { d with pending := false } mid q n := by
  refine h.keep (calling_same ?_) (joining_same ?_) rfl rfl rfl rfl rfl rfl rfl List.prefix_rfl
    (h.drive.notify (a := a) hpend fun a' => ?_)
  · simp [calling, hp, Code.call]
  · simp [joining, hp, Code.joined]
  · rw [notified_update]
    by_cases ha : a' = a
    · simp [ha]
    · simp [ha]

/-- A buffer that is ready after its request joined the queue has been served. -/
lemma Inv.served (h : Inv pts d mid q n) (hj : joining pts a = some b)
    (hready : ¬ Unready (d.buf b)) :
    d.ticket b < d.finished.length ∧ RetOk d ⟨a, b, d.ticket b, d.buf b, d.finished.length⟩ := by
  obtain ⟨r, hr, hwho, hbuf, hun, hfate, -⟩ := h.joined a b hj
  have hlt : d.ticket b < d.finished.length := by
    by_contra hge
    rw [hfate.before (not_lt.mp hge)] at hready
    exact hready hun
  obtain ⟨e, he, hres⟩ := hfate.after hlt
  obtain ⟨hcmd, hblock⟩ := h.drive.cmd he hr
  exact ⟨hlt, r, e, hr, hwho, hbuf, he, hcmd, hblock, h.drive.wrote e (List.mem_of_getElem? he),
    hlt,
    hres⟩

section Steps

variable [DecidableEq B]

/-- `b->qnext = 0` -/
lemma Inv.clear (h : Inv pts d none q n) (hc : calling pts a = some b) (hj : joining pts a = none) :
    Inv pts { d with queue := d.queue.set (some b) none } none q n := by
  have hb : b ∉ q := h.not_mem hc hj
  refine ⟨h.calls, h.locked, h.fresh, ?_, h.order, h.queued, fun a' b' hj' => ?_,
    h.returns.mono rfl List.prefix_rfl List.prefix_rfl,
    h.drive.congr (fun _ => Iff.rfl) List.prefix_rfl rfl rfl rfl rfl rfl rfl rfl⟩
  · refine h.chain.congr fun x hx => ?_
    exact update_of_ne (fun he : x = b => hb (he ▸ hx)) _ _
  · obtain ⟨r, hr, hwho, hbuf, hun, hfate, hret⟩ := h.joined a' b' hj'
    exact ⟨r, hr, hwho, hbuf, hun, ⟨hfate.before, hfate.after⟩, hret⟩

/-- The request of `b` joins the queue. -/
lemma Inv.arrive [DecidableEq A] (h : Inv pts d none q n) (hc : calling pts a = some b)
    (hj : joining pts a = none) (hn : ¬ notified pts a) (hnil : d.queue.next b = none) :
    Inv (update pts a (some (.check b))) { d with
      queue := d.queue.set q.getLast? (some b)
      arrived := d.arrived ++ [⟨a, b, d.buf b⟩]
      ticket := update d.ticket b d.arrived.length } none (q ++ [b]) n := by
  have hb : b ∉ q := h.not_mem hc hj
  have hlen := h.length_arrived
  have hcalling (a' : A) : calling (update pts a (some (.check b))) a' = calling pts a' :=
    calling_same (p := some (.check b)) hc.symm a'
  have hjoining (a' : A) : joining (update pts a (some (.check b))) a' =
      if a' = a then some b else joining pts a' := joining_update a'
  -- others have other buffers
  have hother {a' : A} {b' : B} (ha : a' ≠ a) (hj' : joining pts a' = some b') : b' ≠ b := by
    rintro rfl
    exact ha (h.caller_unique (calling_of_joining hj') hc)
  refine ⟨by simpa only [hcalling] using h.calls, by simpa only [hcalling] using h.locked,
    by grind [h.fresh], h.chain.concat hb hnil, ?_, fun i x hi => ?_, fun a' b' hj' => ?_,
    h.returns.mono rfl (List.prefix_append _ _) List.prefix_rfl,
    h.drive.congr (notified_same hn nofun) (List.prefix_append _ _) rfl rfl rfl rfl rfl rfl rfl⟩
  · change (d.arrived ++ [_]).map Req.buf = d.finished ++ ([] ++ (q ++ [b]))
    rw [List.map_append, h.order]
    simp
  · rcases getElem?_concat_cases (show (q ++ [b])[i]? = some x from hi) with hold | ⟨rfl, rfl⟩
    · obtain ⟨ht, a', ha'⟩ := h.queued i x hold
      have hne : x ≠ b := fun he => hb (he ▸ List.mem_of_getElem? hold)
      exact ⟨(update_of_ne hne _ _).trans ht, a', by grind⟩
    · exact ⟨(update_self ..).trans hlen, a, by rw [hjoining, if_pos rfl]⟩
  · rw [hjoining] at hj'
    split_ifs at hj' with ha
    · cases hj'
      refine ⟨⟨a, b, d.buf b⟩, ?_, ha.symm, rfl, h.fresh a b hc hj, ⟨fun _ => rfl, by grind⟩,
        fun r' hr' he => ?_⟩
      · dsimp only
        rw [update_self]
        exact List.getElem?_concat_length
      · obtain ⟨req, -, hreq, -⟩ := h.returns.ok r' hr'
        have hlt := (List.getElem?_eq_some_iff.mp hreq).1
        grind
    · have hne := hother ha hj'
      obtain ⟨r, hr, hwho, hbuf, hun, hfate, hret⟩ := h.joined a' b' hj'
      dsimp only
      rw [update_of_ne hne]
      refine ⟨r, getElem?_of_prefix hr (List.prefix_append _ _), hwho, hbuf, hun,
        ⟨by grind [hfate.before], ?_⟩, hret⟩
      dsimp only
      rw [update_of_ne hne]
      exact hfate.after

/-- `ideintr` finishes the request of `b`. -/
lemma Inv.finish (h : Inv pts d (some b) q 1) (hx : d.executed.length = d.finished.length + 1)
    (hp : d.pending = false) (hno : ∀ a, ¬ notified pts a) :
    Inv pts { d with
      buf := update d.buf b { d.buf b with
        data := if (d.buf b).dirty = false ∧ d.err = false then d.port else (d.buf b).data
        valid := true
        dirty := false }
      finished := d.finished ++ [b] } none q 0 := by
  obtain ⟨r, hr, hrb, hold⟩ := h.waits (i := 0) (b := b) rfl
  obtain ⟨htick, a, ha⟩ := h.queued 0 b rfl
  have hlen : (d.finished ++ [b]).length = d.finished.length + 1 := by simp
  have hother {a' : A} {b' : B} (hj : joining pts a' = some b') (hne : b' ≠ b) :
      d.ticket b' ≠ d.finished.length := h.ticket_ne hr (hrb ▸ hne.symm) hj
  refine ⟨h.calls, fun a' b' hc => ?_, fun a' b' hc hj => ?_, h.chain, ?_, fun i b' hi => ?_,
    fun a' b' hj => ?_, h.returns.mono rfl List.prefix_rfl List.prefix_rfl,
    h.drive.finish hx hp hno _⟩
  · grind [h.locked a' b' hc]
  · have hb : b' ≠ b := by
      rintro rfl
      exact h.not_mem hc hj (by simp)
    grind [h.fresh a' b' hc hj]
  · change d.arrived.map Req.buf = (d.finished ++ [b]) ++ ([] ++ q)
    rw [h.order]
    simp
  · obtain ⟨ht, hj⟩ := h.queued (i + 1) b' hi
    refine ⟨?_, hj⟩
    dsimp only
    rw [ht, hlen]
    omega
  · obtain ⟨r', hget, hwho, hb', hun, hfate, hret⟩ := h.joined a' b' hj
    refine ⟨r', hget, hwho, hb', hun, ⟨fun hle => ?_, fun hlt => ?_⟩, hret⟩
    · grind [hfate.before]
    · dsimp only at hlt ⊢
      rw [hlen] at hlt
      by_cases hb : b' = b
      · -- its command is the last that was executed
        subst hb
        obtain rfl :=
          Option.some.inj ((htick ▸ hget : d.arrived[d.finished.length]? = _).symm.trans hr)
        have hpos : d.finished.length < d.executed.length := by omega
        refine ⟨d.executed[d.finished.length], ?_, ?_⟩
        · rw [htick]
          exact List.getElem?_eq_getElem hpos
        · have hlast : d.executed.getLast? = some d.executed[d.finished.length] := by
            rw [List.getLast?_eq_getElem?, hx]
            exact List.getElem?_eq_getElem hpos
          obtain ⟨herr, hport⟩ := h.drive.port (h.drive.idle hx) _ hlast
          rw [update_self, hold, herr]
          unfold Req.result
          by_cases hread : r'.old.dirty = false ∧ (d.executed[d.finished.length]).failed = false
          · simp only [if_pos hread, hport hread.2]
          · simp only [if_neg hread]
      · rw [update_of_ne hb]
        have hne := hother hj hb
        exact hfate.after (by omega)

/-- `idequeue = b->qnext` -/
lemma Inv.next (h : Inv pts d none (b :: q) n) :
    Inv pts { d with queue := d.queue.set none (d.queue.next b) } (some b) q n := by
  refine ⟨h.calls, h.locked, h.fresh, h.chain.2, h.order, h.queued, fun a' b' hj' => ?_,
    h.returns.mono rfl List.prefix_rfl List.prefix_rfl,
    h.drive.congr (fun _ => Iff.rfl) List.prefix_rfl rfl rfl rfl rfl rfl rfl rfl⟩
  obtain ⟨r, hr, hwho, hbuf, hun, hfate, hret⟩ := h.joined a' b' hj'
  exact ⟨r, hr, hwho, hbuf, hun, ⟨hfate.before, hfate.after⟩, hret⟩

/-- `ideintr` takes the first request off the queue; there is one. -/
lemma Inv.pop [DecidableEq A] (h : Inv pts d none q n) (hp : pts a = some .intr) :
    ∃ b q', d.queue.head = some b ∧
      Inv (update pts a (some (.serve b)))
        { d with queue := d.queue.set none (d.queue.next b) } (some b) q' 1 ∧
      d.executed.length = d.finished.length + 1 ∧ d.pending = false ∧
      ∀ a', ¬ notified (update pts a (some (.serve b))) a' := by
  cases q with
  | nil =>
    -- no request is left, and so none is being executed
    obtain ⟨hx, -⟩ := h.drive.notified a hp
    have hup := h.drive.upper
    have hroom := h.drive.room
    have hlen := h.length_arrived
    simp at hlen
    omega
  | cons b q =>
    have hnt (a' : A) : notified (update pts a (some (.serve b))) a' ↔
        a' ≠ a ∧ notified pts a' := by
      rw [notified_update]
      simp
    obtain ⟨⟨hdrive, -⟩, hx, hpend, hno⟩ := h.drive.taken (show notified pts a from hp) hnt
    refine ⟨b, q, h.chain.1, ?_, hx, hpend, hno⟩
    refine (h.keep (calling_same ?_) (joining_same ?_) rfl rfl rfl rfl rfl rfl rfl List.prefix_rfl
      hdrive).next
    · simp [calling, hp, Code.call]
    · simp [joining, hp, Code.joined]

/-- `iderw` returns. -/
lemma Inv.leave [DecidableEq A] (h : Inv pts d mid q n) (hp : pts a = some (.wait b))
    (hready : ¬ Unready (d.buf b)) :
    Inv (update pts a none) { d with
      calls := update d.calls b none
      returned := d.returned ++ [⟨a, b, d.ticket b, d.buf b, d.finished.length⟩] } mid q n := by
  have hca : calling pts a = some b := by simp [calling, hp, Code.call]
  have hja : joining pts a = some b := by simp [joining, hp, Code.joined]
  obtain ⟨hlt, hok⟩ := h.served hja hready
  have hc (a' : A) : calling (update pts a none) a' =
      if a' = a then none else calling pts a' := calling_update a'
  have hj (a' : A) : joining (update pts a none) a' =
      if a' = a then none else joining pts a' := joining_update a'
  refine ⟨fun a' b' => ?_, fun a' b' hc' => ?_, fun a' b' hc' hj' => ?_, h.chain, h.order,
    fun i x hi => ?_, fun a' b' hj' => ?_, ?_, ?_⟩
  · grind [h.calls, h.caller_unique]
  · grind [h.locked a' b']
  · grind [h.fresh a' b']
  · obtain ⟨ht, a', ha'⟩ := h.queued i x hi
    refine ⟨ht, a', ?_⟩
    rw [hj, if_neg]
    · exact ha'
    · rintro rfl
      cases hja.symm.trans ha'
      omega
  · rw [hj] at hj'
    split_ifs at hj' with ha
    obtain ⟨r, hr, hwho, hbuf, hun, hfate, hret⟩ := h.joined a' b' hj'
    refine ⟨r, hr, hwho, hbuf, hun, ⟨hfate.before, hfate.after⟩, fun r' hr' => ?_⟩
    rcases List.mem_append.mp hr' with hr' | hr'
    · exact hret r' hr'
    · rw [List.mem_singleton.mp hr']
      refine h.ticket_ne hr (fun hb => ha ?_) hja
      have hbb : b' = b := hbuf.symm.trans hb
      exact h.caller_unique (calling_of_joining (hbb ▸ hj')) hca
  · refine ⟨fun r hr => ?_, ?_⟩
    · rcases List.mem_append.mp hr with hr | hr
      · exact (h.returns.ok r hr).mono List.prefix_rfl List.prefix_rfl
      · rw [List.mem_singleton.mp hr]
        exact hok.mono List.prefix_rfl List.prefix_rfl
    · obtain ⟨-, -, -, -, -, -, hret⟩ := h.joined a b hja
      dsimp only
      rw [List.map_append, List.nodup_append]
      refine ⟨h.returns.nodup, List.nodup_singleton _, fun t ht t' ht' => ?_⟩
      obtain ⟨r, hr, rfl⟩ := List.mem_map.mp ht
      rw [List.mem_singleton.mp ht']
      exact hret r hr
  · refine h.drive.congr (notified_same ?_ nofun) List.prefix_rfl rfl rfl rfl rfl rfl rfl rfl
    simp [notified, hp]

/-- `iderw` is called with a buffer that its caller has locked. -/
lemma Inv.call [DecidableEq A] (h : Inv pts d mid q n) (hp : pts a = none)
    (hl : (d.buf b).lock = some a) (hun : Unready (d.buf b)) :
    Inv (update pts a (some (.queue b)))
      { d with calls := update d.calls b (some a) } mid q n := by
  have hno (a' : A) : calling pts a' ≠ some b := by
    intro hc
    have ha := (h.locked a' b hc).symm.trans hl
    cases ha
    simp [calling, hp] at hc
  have hc (a' : A) : calling (update pts a (some (.queue b))) a' =
      if a' = a then some b else calling pts a' := calling_update a'
  have hj (a' : A) : joining (update pts a (some (.queue b))) a' = joining pts a' :=
    joining_same (by simp [joining, hp, Code.joined]) a'
  refine ⟨fun a' b' => ?_, fun a' b' hc' => ?_, fun a' b' hc' hj' => ?_, h.chain, h.order, ?_, ?_,
    h.returns.mono rfl List.prefix_rfl List.prefix_rfl, ?_⟩
  · grind [h.calls a' b', calling]
  · grind [h.locked a' b']
  · grind [h.fresh a' b']
  · simp only [hj]
    exact h.queued
  · simp only [hj]
    intro a' b' hj'
    obtain ⟨r, hr, hwho, hbuf, hun, hfate, hret⟩ := h.joined a' b' hj'
    exact ⟨r, hr, hwho, hbuf, hun, ⟨hfate.before, hfate.after⟩, hret⟩
  · refine h.drive.congr (notified_same ?_ nofun) List.prefix_rfl rfl rfl rfl rfl rfl rfl rfl
    simp [notified, hp]

end Steps

end Xv6.Ide
