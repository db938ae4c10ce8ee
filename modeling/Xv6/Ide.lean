import Xv6.BufCache
import Xv6.Lib.Links
import Xv6.Lib.Monitor

/-!
The request queue of `ide.c`, with `idelock` as the lock of a monitor. Processes call `iderw` with
buffers they have locked; the disk completes the command it has been given, with an interrupt for
each, and `ideintr` runs as an interrupt handler. A block is one sector.
-/

namespace Xv6.Ide

open Xv6.Lib.Run Xv6.Lib.Monitor Xv6.Lib.Links
open Xv6.BufCache (FSSIZE)
open Function (update)

/-- A buffer of `bio.c`; `δ` is what a block holds. -/
structure Buf (A δ : Type*) where
  valid : Bool
  dirty : Bool
  dev : UInt32
  blockno : UInt32
  data : δ
  lock : Option A

/-- What is written to the ports `0x1f2` to `0x1f6`. -/
structure Regs where
  count : UInt8
  lba0 : UInt8
  lba1 : UInt8
  lba2 : UInt8
  drive : UInt8

/-- A command in the port `0x1f7`, with the data of a write. -/
structure Command (δ : Type*) where
  regs : Regs
  out : Option δ

def regs (dev blockno : UInt32) : Regs :=
  let sector := blockno
  { count := 1
    lba0 := (sector &&& 0xff).toUInt8
    lba1 := (sector >>> 8 &&& 0xff).toUInt8
    lba2 := (sector >>> 16 &&& 0xff).toUInt8
    drive := (0xe0 : UInt8) ||| ((dev &&& 1) <<< 4).toUInt8 ||| (sector >>> 24 &&& 0x0f).toUInt8 }

/-- The disk and the sector that the disk controller reads in its registers. -/
def Regs.target (r : Regs) : Bool × ℕ :=
  (r.drive.toNat.testBit 4,
    r.lba0.toNat + 256 * r.lba1.toNat + 65536 * r.lba2.toNat + 16777216 * (r.drive.toNat % 16))

/-- What `idestart` sends. -/
def command {A δ : Type*} (b : Buf A δ) : Command δ :=
  ⟨regs b.dev b.blockno, if b.dirty then some b.data else none⟩

/-! ### History -/

/-- A call of `iderw` whose buffer has been appended, with the buffer as it was then. -/
structure Req (A B δ : Type*) where
  who : A
  buf : B
  old : Buf A δ

/-- A command that has been completed: whether the disk reported an error, and what the block holds
then. -/
structure Exec (δ : Type*) where
  cmd : Command δ
  failed : Bool
  content : δ

/-- A call of `iderw` that has returned: the number of its request, the buffer as it is then, and
how many requests were finished. -/
structure Ret (A B δ : Type*) where
  who : A
  buf : B
  ticket : ℕ
  new : Buf A δ
  done : ℕ

/-- `queue` has `idequeue` and the `qnext` of the buffers. The disk has a command to work on, or
shows in its status whether the last one failed and in the data port what it read. -/
structure Driver (A B δ : Type*) where
  buf : B → Buf A δ
  queue : Chain B
  havedisk1 : Bool
  busy : Option (Command δ)
  err : Bool
  port : δ
  disk : Bool × ℕ → δ
  pending : Bool
  -- history: who is in `iderw` with a buffer, and the number of its last request
  calls : B → Option A
  ticket : B → ℕ
  arrived : List (Req A B δ)
  issued : List (Command δ)
  executed : List (Exec δ)
  finished : List B
  returned : List (Ret A B δ)

variable {A B δ : Type*}

/-! ### The code -/

inductive Call (B : Type*)
  | iderw (b : B)
  | ideintr

/-- Where `idestart` returns to. -/
inductive After
  | wait
  | exit

/-- `queue` to `wait` are in `iderw`, with `pp` at the head or at the `qnext` of a buffer, `start`
in `idestart`, and `intr` to `exit` in `ideintr`. -/
inductive Code (B : Type*)
  | queue (b : B)
  | walk (b : B) (pp : Option B)
  | check (b : B)
  | start (b : B) (k : After)
  | wait (b : B)
  | intr
  | serve (b : B)
  | next
  | exit
  | panicked

inductive Ev (A B δ : Type*)
  | complete (fail : Option δ)
  | acquiresleep (a : A) (b : B)
  | releasesleep (a : A) (b : B)
  | fill (b : B) (new : Buf A δ)

section Code

variable [DecidableEq A] [DecidableEq B]

/-- What `iderw` checks before it has `idelock`, and the interrupt that brings up `ideintr`. A call
that panics does not come to the lock. -/
def enter (a : A) : Call B → Driver A B δ → Option (Code B × Driver A B δ)
  | .iderw b, d =>
    if (d.buf b).lock ≠ some a then none
    else if (d.buf b).valid = true ∧ (d.buf b).dirty = false then none
    else if (d.buf b).dev ≠ 0 ∧ d.havedisk1 = false then none
    else some (.queue b, { d with calls := update d.calls b (some a) })
  | .ideintr, d => if d.pending then some (.intr, { d with pending := false }) else none

def After.point (b : B) : After → Code B
  | .wait => .wait b
  | .exit => .exit

def code (a : A) : Code B → Driver A B δ → Cmd (Code B) Unit B × Driver A B δ
  | .queue b, d => (.goto (.walk b none), { d with queue := d.queue.set (some b) none })
  | .walk b pp, d =>
    match d.queue.get pp with
    | some c => (.goto (.walk b (some c)), d)
    | none => (.goto (.check b), { d with
        queue := d.queue.set pp (some b)
        arrived := d.arrived ++ [⟨a, b, d.buf b⟩]
        ticket := update d.ticket b d.arrived.length })
  | .check b, d =>
    if d.queue.head = some b then (.goto (.start b .wait), d) else (.goto (.wait b), d)
  | .start b k, d =>
    if FSSIZE ≤ (d.buf b).blockno.toNat then (.goto .panicked, d)
    -- `idewait(0)`
    else if d.busy.isSome then (.goto (.start b k), d)
    else (.goto (k.point b), { d with
        busy := some (command (d.buf b))
        issued := d.issued ++ [command (d.buf b)] })
  | .wait b, d =>
    if (d.buf b).valid = true ∧ (d.buf b).dirty = false then
      (.release (), { d with
        calls := update d.calls b none
        returned := d.returned ++ [⟨a, b, d.ticket b, d.buf b, d.finished.length⟩] })
    else (.sleep b (.wait b), d)
  | .intr, d =>
    match d.queue.head with
    | none => (.release (), d)
    | some b => (.goto (.serve b), { d with queue := d.queue.set none (d.queue.next b) })
  | .serve b, d =>
    -- `idewait(1)`
    if (d.buf b).dirty = false ∧ d.busy.isSome then (.goto (.serve b), d)
    else
      let data := if (d.buf b).dirty = false ∧ d.err = false then d.port else (d.buf b).data
      (.wakeup b .next, { d with
        buf := update d.buf b { d.buf b with data := data, valid := true, dirty := false }
        finished := d.finished ++ [b] })
  | .next, d =>
    match d.queue.head with
    | some c => (.goto (.start c .exit), d)
    | none => (.release (), d)
  | .exit, d => (.release (), d)
  | .panicked, d => (.goto .panicked, d)

/-- What a command leaves on the disk; one that fails may leave anything where it writes. -/
def execute (disk : Bool × ℕ → δ) (c : Command δ) (fail : Option δ) : Bool × ℕ → δ :=
  match c.out with
  | some x => update disk c.regs.target (fail.getD x)
  | none => disk

/-- The disk completes its command; buffers are locked and unlocked, and whoever has a buffer does
with it what it likes, except while it is in `iderw`. -/
def env : Ev A B δ → Driver A B δ → Option (Driver A B δ)
  | .complete fail, d => d.busy.map fun c =>
    let disk := execute d.disk c fail
    { d with
      disk := disk
      busy := none
      err := fail.isSome
      port := fail.getD (disk c.regs.target)
      pending := true
      executed := d.executed ++ [⟨c, fail.isSome, disk c.regs.target⟩] }
  | .acquiresleep a b, d =>
    if (d.buf b).lock = none then
      some { d with buf := update d.buf b { d.buf b with lock := some a } }
    else none
  | .releasesleep a b, d =>
    if (d.buf b).lock = some a ∧ d.calls b = none then
      some { d with buf := update d.buf b { d.buf b with lock := none } }
    else none
  | .fill b new, d =>
    if d.calls b = none then
      some { d with buf := update d.buf b { new with lock := (d.buf b).lock } }
    else none

def ide : Client A (Call B) (Ev A B δ) (Code B) Unit B (Driver A B δ) where
  enter := enter
  code := code
  env := env

end Code

/-- Nothing has been requested yet. -/
def start (buf : B → Buf A δ) (qnext : B → Option B) (havedisk1 err : Bool) (port : δ)
    (disk : Bool × ℕ → δ) : Driver A B δ where
  buf := buf
  queue := ⟨none, qnext⟩
  havedisk1 := havedisk1
  busy := none
  err := err
  port := port
  disk := disk
  pending := false
  calls _ := none
  ticket _ := 0
  arrived := []
  issued := []
  executed := []
  finished := []
  returned := []

lemma target_regs (dev blockno : UInt32) (h : blockno.toNat < FSSIZE) :
    (regs dev blockno).target = (decide (dev.toNat % 2 = 1), blockno.toNat) := by
  have hsize : FSSIZE = 1000 := rfl
  have hlow (x : UInt32) : (x &&& 0xff).toUInt8.toNat = x.toNat % 256 := by
    rw [UInt32.toNat_toUInt8, UInt32.toNat_and]
    change (x.toNat &&& (2 ^ 8 - 1)) % 2 ^ 8 = _
    rw [Nat.and_two_pow_sub_one_eq_mod]
    omega
  have hhigh : blockno >>> 24 &&& 0x0f = 0 := by
    rw [← UInt32.toNat_inj, UInt32.toNat_and, UInt32.toNat_shiftRight]
    change (blockno.toNat >>> 24) &&& _ = 0
    rw [Nat.shiftRight_eq_div_pow, Nat.div_eq_of_lt (by omega)]
    rfl
  have hbit : dev &&& 1 = if dev.toNat % 2 = 1 then 1 else 0 := by
    rw [← UInt32.toNat_inj, UInt32.toNat_and]
    change dev.toNat &&& (2 ^ 1 - 1) = _
    rw [Nat.and_two_pow_sub_one_eq_mod]
    split_ifs with hodd
    · exact hodd
    · change dev.toNat % 2 = 0
      omega
  have hdrive : (regs dev blockno).drive = if dev.toNat % 2 = 1 then 0xf0 else 0xe0 := by
    simp only [regs, hhigh, hbit]
    split_ifs
    · rfl
    · rfl
  have hlba : (regs dev blockno).lba0.toNat + 256 * (regs dev blockno).lba1.toNat +
      65536 * (regs dev blockno).lba2.toNat = blockno.toNat := by
    simp only [regs, hlow, UInt32.toNat_shiftRight]
    change blockno.toNat % 256 + 256 * ((blockno.toNat >>> 8) % 256) +
      65536 * ((blockno.toNat >>> 16) % 256) = _
    rw [Nat.shiftRight_eq_div_pow, Nat.shiftRight_eq_div_pow]
    omega
  unfold Regs.target
  rw [hlba, hdrive]
  split_ifs with hodd
  · simp only [hodd, decide_true]
    rfl
  · simp only [hodd, decide_false]
    rfl

/-! ### Requests -/

/-- What a request makes of its buffer; when the disk reports an error, nothing is read. -/
def Req.result (r : Req A B δ) (e : Exec δ) : Buf A δ :=
  { r.old with
    data := if r.old.dirty = false ∧ e.failed = false then e.content else r.old.data
    valid := true
    dirty := false }

/-- The call had a request of its own, which has been executed and finished. -/
def RetOk (d : Driver A B δ) (r : Ret A B δ) : Prop :=
  ∃ req e, d.arrived[r.ticket]? = some req ∧ req.who = r.who ∧ req.buf = r.buf ∧
    d.executed[r.ticket]? = some e ∧ e.cmd = command req.old ∧ req.old.blockno.toNat < FSSIZE ∧
    (e.failed = false → ∀ x, e.cmd.out = some x → e.content = x) ∧
    r.ticket < r.done ∧ r.new = req.result e

structure Returns (d : Driver A B δ) : Prop where
  ok : ∀ r ∈ d.returned, RetOk d r
  nodup : (d.returned.map Ret.ticket).Nodup

/-- What becomes of a buffer whose request is `r`. -/
structure Fate (d : Driver A B δ) (b : B) (r : Req A B δ) : Prop where
  before : d.finished.length ≤ d.ticket b → d.buf b = r.old
  after : d.ticket b < d.finished.length →
    ∃ e, d.executed[d.ticket b]? = some e ∧ d.buf b = r.result e

def Unready (x : Buf A δ) : Prop := ¬ (x.valid = true ∧ x.dirty = false)

variable {d d' : Driver A B δ} {a : A} {b c : B} {n : ℕ} {q : List B} {mid : Option B}

lemma RetOk.mono {r : Ret A B δ} (h : RetOk d r) (ha : d.arrived <+: d'.arrived)
    (he : d.executed <+: d'.executed) : RetOk d' r := by
  obtain ⟨req, e, hreq, hwho, hbuf, hexec, hrest⟩ := h
  exact ⟨req, e, getElem?_of_prefix hreq ha, hwho, hbuf, getElem?_of_prefix hexec he, hrest⟩

lemma Returns.mono (h : Returns d) (hr : d'.returned = d.returned)
    (ha : d.arrived <+: d'.arrived) (he : d.executed <+: d'.executed) : Returns d' := by
  refine ⟨fun r hm => (h.ok r (hr ▸ hm)).mono ha he, ?_⟩
  rw [hr]
  exact h.nodup

/-! ### The disk -/

/-- The requests that are finished, and `n` of those that are not, have been started; at most one is
not finished, and then the disk works on it, its interrupt is pending, or some `ideintr` has yet to
take the lock (`nt`). -/
structure Drive (nt : A → Prop) (d : Driver A B δ) (n : ℕ) : Prop where
  le : n ≤ 1
  room : d.finished.length + n ≤ d.arrived.length
  issued : d.issued = (d.arrived.take (d.finished.length + n)).map fun r => command r.old
  checked : ∀ r ∈ d.arrived.take (d.finished.length + n), r.old.blockno.toNat < FSSIZE
  exec : d.executed.map Exec.cmd = d.issued.take d.executed.length
  lower : d.finished.length ≤ d.executed.length
  upper : d.executed.length ≤ d.finished.length + n
  wrote : ∀ e ∈ d.executed, e.failed = false → ∀ x, e.cmd.out = some x → e.content = x
  busy : ∀ c, d.busy = some c → d.executed.length < d.finished.length + n ∧
    d.issued[d.executed.length]? = some c
  pending : d.pending = true → d.executed.length = d.finished.length + 1 ∧ ∀ a, ¬ nt a
  notified : ∀ a, nt a → d.executed.length = d.finished.length + 1 ∧ ∀ a', nt a' → a' = a
  port : d.busy = none → ∀ e, d.executed.getLast? = some e →
    d.err = e.failed ∧ (e.failed = false → d.port = e.content)

section Drive

variable {nt nt' : A → Prop}

lemma Drive.idle (h : Drive nt d n) (hx : d.executed.length = d.finished.length + n) :
    d.busy = none := by
  by_contra hne
  obtain ⟨c, hc⟩ := Option.ne_none_iff_exists'.mp hne
  have hlt := (h.busy c hc).1
  omega

lemma Drive.length_issued (h : Drive nt d n) : d.issued.length = d.finished.length + n := by
  rw [h.issued, List.length_map, List.length_take, Nat.min_eq_left h.room]

/-- A command that has been executed is that of its request. -/
lemma Drive.cmd (h : Drive nt d n) {i : ℕ} {e : Exec δ} {r : Req A B δ}
    (he : d.executed[i]? = some e) (hr : d.arrived[i]? = some r) :
    e.cmd = command r.old ∧ r.old.blockno.toNat < FSSIZE := by
  have hi := (List.getElem?_eq_some_iff.mp he).1
  have hup := h.upper
  have htake : (d.arrived.take (d.finished.length + n))[i]? = some r := by
    rw [List.getElem?_take_of_lt (by omega)]
    exact hr
  refine ⟨?_, h.checked r (List.mem_of_getElem? htake)⟩
  have hx : (d.executed.map Exec.cmd)[i]? = some e.cmd := by rw [List.getElem?_map, he]; rfl
  rw [h.exec, List.getElem?_take_of_lt hi, h.issued, List.getElem?_map, htake] at hx
  exact (Option.some.inj hx).symm

/-- Steps that do not concern the disk. -/
lemma Drive.congr (h : Drive nt d n) (hnt : ∀ a, nt' a ↔ nt a)
    (ha : d.arrived <+: d'.arrived) (hi : d'.issued = d.issued)
    (he : d'.executed = d.executed) (hf : d'.finished = d.finished) (hb : d'.busy = d.busy)
    (hp : d'.pending = d.pending) (herr : d'.err = d.err) (hport : d'.port = d.port) :
    Drive nt' d' n := by
  obtain ⟨l, ha⟩ := ha
  have htake : d'.arrived.take (d'.finished.length + n) =
      d.arrived.take (d.finished.length + n) := by
    rw [← ha, hf, List.take_append_of_le_length h.room]
  refine ⟨h.le, ?_, ?_, ?_, ?_, ?_, ?_, ?_, ?_, ?_, ?_, ?_⟩
  · rw [hf, ← ha, List.length_append]
    exact h.room.trans (Nat.le_add_right _ _)
  · rw [hi, htake]
    exact h.issued
  · rw [htake]
    exact h.checked
  · rw [he, hi]
    exact h.exec
  · rw [he, hf]
    exact h.lower
  · rw [he, hf]
    exact h.upper
  · rw [he]
    exact h.wrote
  · rw [hb, he, hf, hi]
    exact h.busy
  · rw [hp, he, hf]
    simp only [hnt]
    exact h.pending
  · rw [he, hf]
    simp only [hnt]
    exact h.notified
  · rw [hb, he, herr, hport]
    exact h.port

/-- `idestart`. -/
lemma Drive.start (h : Drive nt d 0) {r : Req A B δ}
    (hr : d.arrived[d.finished.length]? = some r) (hc : r.old.blockno.toNat < FSSIZE) :
    Drive nt { d with busy := some (command r.old), issued := d.issued ++ [command r.old] } 1 := by
  have hlow := h.lower
  have hup := h.upper
  have hlen := h.length_issued
  have htake : d.arrived.take (d.finished.length + 1) = d.arrived.take d.finished.length ++
    [r] := by
    rw [List.take_add_one, hr]
    rfl
  refine ⟨le_rfl, ?_, ?_, ?_, ?_, h.lower, ?_, h.wrote, ?_, h.pending, h.notified, nofun⟩
  · exact (List.getElem?_eq_some_iff.mp hr).1
  · change d.issued ++ [command r.old] = _
    rw [htake, List.map_append, h.issued]
    rfl
  · rw [htake]
    intro x hx
    rcases List.mem_append.mp hx with hx | hx
    · exact h.checked x hx
    · exact List.mem_singleton.mp hx ▸ hc
  · change _ = (d.issued ++ [command r.old]).take d.executed.length
    rw [List.take_append_of_le_length (by omega)]
    exact h.exec
  · exact hup.trans (Nat.le_succ _)
  · intro c hc'
    cases hc'
    refine ⟨by dsimp only; omega, ?_⟩
    change (d.issued ++ [command r.old])[d.executed.length]? = _
    rw [show d.executed.length = d.issued.length by omega, List.getElem?_concat_length]

/-- The disk has done what it was told. -/
lemma Drive.complete (h : Drive nt d n) {cmd : Command δ} (hb : d.busy = some cmd)
    (fail : Option δ) :
    Drive nt { d with
      disk := execute d.disk cmd fail
      busy := none
      err := fail.isSome
      port := fail.getD (execute d.disk cmd fail cmd.regs.target)
      pending := true
      executed := d.executed ++
        [⟨cmd, fail.isSome, execute d.disk cmd fail cmd.regs.target⟩] } n := by
  obtain ⟨hlt, hcmd⟩ := h.busy cmd hb
  have hle := h.le
  have hlow := h.lower
  have hno (a : A) : ¬ nt a := fun ha => by
    have hx := (h.notified a ha).1
    omega
  refine ⟨h.le, h.room, h.issued, h.checked, ?_, ?_, ?_, ?_, nofun, fun _ => ⟨?_, hno⟩,
    fun a ha => (hno a ha).elim, fun _ e he => ?_⟩
  · simp only [List.map_append, List.length_append, List.map_cons, List.map_nil,
      List.length_singleton]
    rw [List.take_add_one, hcmd, h.exec]
    rfl
  · simp only [List.length_append]
    exact hlow.trans (Nat.le_add_right _ _)
  · simp only [List.length_append, List.length_singleton]
    omega
  · intro e he hfail x hx
    rcases List.mem_append.mp he with he | he
    · exact h.wrote e he hfail x hx
    · obtain rfl := List.mem_singleton.mp he
      cases fail with
      | none => simp [execute, show cmd.out = some x from hx]
      | some y => cases hfail
  · simp only [List.length_append, List.length_singleton]
    omega
  · rw [List.getLast?_concat] at he
    cases he
    refine ⟨rfl, fun hfail => ?_⟩
    cases fail with
    | none => rfl
    | some y => cases hfail

/-- The interrupt brings up `ideintr`. -/
lemma Drive.notify (h : Drive nt d n) (hp : d.pending = true)
    (hnt : ∀ a', nt' a' ↔ a' = a ∨ nt a') : Drive nt' { d with pending := false } n := by
  obtain ⟨hx, hno⟩ := h.pending hp
  have hone {a' : A} (ha : nt' a') : a' = a := ((hnt a').mp ha).resolve_right (hno a')
  exact ⟨h.le, h.room, h.issued, h.checked, h.exec, h.lower, h.upper, h.wrote, h.busy, nofun,
    fun a' ha => ⟨hx, fun a'' ha'' => (hone ha'').trans (hone ha).symm⟩, h.port⟩

/-- `ideintr` has the lock. -/
lemma Drive.taken (h : Drive nt d n) (ha : nt a) (hnt : ∀ a', nt' a' ↔ a' ≠ a ∧ nt a') :
    (Drive nt' d 1 ∧ n = 1) ∧ d.executed.length = d.finished.length + 1 ∧ d.pending = false ∧
      ∀ a', ¬ nt' a' := by
  obtain ⟨hx, hone⟩ := h.notified a ha
  have hup := h.upper
  have hle := h.le
  obtain rfl : n = 1 := by omega
  have hno (a' : A) : ¬ nt' a' := fun h' => ((hnt a').mp h').1 (hone a' ((hnt a').mp h').2)
  have hpend : ¬ d.pending = true := fun hp => (h.pending hp).2 a ha
  exact ⟨⟨⟨h.le, h.room, h.issued, h.checked, h.exec, h.lower, h.upper, h.wrote, h.busy,
    fun hp => (hpend hp).elim, fun a' h' => (hno a' h').elim, h.port⟩, rfl⟩,
      hx, by simpa using hpend,
    hno⟩

/-- A request is finished. -/
lemma Drive.finish (h : Drive nt d 1) (hx : d.executed.length = d.finished.length + 1)
    (hp : d.pending = false) (hno : ∀ a, ¬ nt a) (x : B → Buf A δ) :
    Drive nt { d with buf := x, finished := d.finished ++ [b] } 0 := by
  have hlen : (d.finished ++ [b]).length = d.finished.length + 1 := by simp
  have hidle := h.idle hx
  refine ⟨Nat.zero_le 1, ?_, ?_, ?_, h.exec, ?_, ?_, h.wrote, ?_, ?_, fun a ha => (hno a ha).elim,
    h.port⟩
  all_goals dsimp only
  · rw [hlen]
    exact h.room
  · rw [hlen]
    exact h.issued
  · rw [hlen]
    exact h.checked
  · rw [hlen]
    exact hx.ge
  · rw [hlen]
    exact hx.le
  · intro c hc
    rw [hidle] at hc
    cases hc
  · intro hp'
    rw [hp] at hp'
    cases hp'

end Drive

end Xv6.Ide
