import Xv6.Waiters

/-!
The pipes of `pipe.c`, as a client of `sleep` and `wakeup` with `p->lock`.

`stored` and `delivered` are history: the bytes that calls of `pipewrite` put into the buffer and
those that calls of `piperead` took out, in the order of the lock. The pipe is not reused after both
ends are closed.
-/

namespace Xv6.Pipes

open Xv6.Lib.Run Xv6.ProcTable Xv6.Sleep

def PIPESIZE : UInt32 := 512

structure Pipe where
  data : ℕ → UInt8
  nread : UInt32
  nwrite : UInt32
  readopen : Bool
  writeopen : Bool
  stored : List UInt8
  delivered : List UInt8

/-- The pipe that `pipealloc` sets up, in a page with any contents. -/
def pipealloc (data : ℕ → UInt8) : Pipe := ⟨data, 0, 0, true, true, [], []⟩

/-- `&p->nread`, by its offset in `struct pipe`. -/
def nreadChan : Chan := .addr 564

/-- `&p->nwrite`. -/
def nwriteChan : Chan := .addr 568

/-- `p->data[p->nwrite++ % PIPESIZE] = b`. -/
def Pipe.put (d : Pipe) (b : UInt8) : Pipe :=
  { d with
    data := Function.update d.data (d.nwrite % PIPESIZE).toNat b
    nwrite := d.nwrite + 1
    stored := d.stored ++ [b] }

/-- The byte at `p->data[p->nread % PIPESIZE]`. -/
def Pipe.front (d : Pipe) : UInt8 := d.data (d.nread % PIPESIZE).toNat

/-- That byte has been read. -/
def Pipe.take (d : Pipe) : Pipe :=
  { d with
    nread := d.nread + 1
    delivered := d.delivered ++ [d.front] }

def Pipe.full (d : Pipe) : Bool := d.nwrite == d.nread + PIPESIZE

def Pipe.empty (d : Pipe) : Bool := d.nread == d.nwrite

inductive Call
  | write (addr : List UInt8)
  | read (n : ℕ)
  | close (writable : Bool)

/-- The points of the code: in `pipewrite` the loop, with the length of the call and the bytes that
are left, the `sleep` after the buffer was full, and the end; in `piperead` the loop that waits, the
one that copies, with the bytes so far, and the end; `pipeclose` and its end. -/
inductive Code
  | write (n : ℕ) (left : List UInt8)
  | full (n : ℕ) (left : List UInt8)
  | wrote (n : ℕ)
  | read (n : ℕ)
  | copy (n : ℕ) (addr : List UInt8)
  | copied (addr : List UInt8)
  | close (writable : Bool)
  | closed

inductive Result
  | wrote (r : ℤ)
  | read (r : ℤ) (addr : List UInt8)
  | closed

def code (me : Proc) : Code → Pipe → Cmd Code Result × Pipe
  | .write n [], d => (.wakeup nreadChan (.wrote n), d)
  | .write n (b :: left), d =>
    if d.full then
      if d.readopen = false ∨ me.killed then (.release (.wrote (-1)), d)
      else (.wakeup nreadChan (.full n (b :: left)), d)
    else (.goto (.write n left), d.put b)
  | .full n left, d => (.sleep nwriteChan (.write n left), d)
  | .wrote n, d => (.release (.wrote n), d)
  | .read n, d =>
    if d.empty ∧ d.writeopen then
      if me.killed then (.release (.read (-1) []), d)
      else (.sleep nreadChan (.read n), d)
    else (.goto (.copy n []), d)
  | .copy n addr, d =>
    if addr.length < n then
      if d.empty then (.wakeup nwriteChan (.copied addr), d)
      else (.goto (.copy n (addr ++ [d.front])), d.take)
    else (.wakeup nwriteChan (.copied addr), d)
  | .copied addr, d => (.release (.read addr.length addr), d)
  | .close true, d => (.wakeup nreadChan .closed, { d with writeopen := false })
  | .close false, d => (.wakeup nwriteChan .closed, { d with readopen := false })
  | .closed, d => (.release .closed, d)

/-- `pipewrite`, `piperead` and `pipeclose`. -/
def pipe : Client Call Code Result Pipe where
  start
    | .write addr => .write addr.length addr
    | .read n => .read n
    | .close writable => .close writable
  code := code

/-! ### The buffer is a queue -/

/-- `p->nwrite - p->nread`. -/
def Pipe.count (d : Pipe) : ℕ := (d.nwrite - d.nread).toNat

/-- The bytes in the buffer, the next one to be read first. -/
def Pipe.buffered (d : Pipe) : List UInt8 :=
  (List.range d.count).map fun j => d.data ((d.nread + UInt32.ofNat j) % PIPESIZE).toNat

/-- What has been stored is what has been delivered and what is in the buffer. -/
structure Fifo (d : Pipe) : Prop where
  count : d.count ≤ PIPESIZE.toNat
  bytes : d.stored = d.delivered ++ d.buffered

/-- The place of a byte in the buffer, across overflows of the counters. -/
lemma place (a : UInt32) (j : ℕ) :
    ((a + UInt32.ofNat j) % PIPESIZE).toNat = (a.toNat + j) % 512 := by
  have h : PIPESIZE.toNat = 512 := rfl
  rw [UInt32.toNat_mod, UInt32.toNat_add, UInt32.toNat_ofNat', h]
  omega

lemma full_iff (d : Pipe) : d.full = true ↔ d.count = PIPESIZE.toNat := by
  have h : PIPESIZE.toNat = 512 := rfl
  have hr := d.nread.toNat_lt
  have hw := d.nwrite.toNat_lt
  simp only [Pipe.full, Pipe.count, beq_iff_eq, ← UInt32.toNat_inj, UInt32.toNat_add,
    UInt32.toNat_sub, h]
  omega

lemma empty_iff (d : Pipe) : d.empty = true ↔ d.count = 0 := by
  have hr := d.nread.toNat_lt
  have hw := d.nwrite.toNat_lt
  simp only [Pipe.empty, Pipe.count, beq_iff_eq, ← UInt32.toNat_inj, UInt32.toNat_sub]
  omega

lemma nwrite_eq (d : Pipe) : d.nwrite = d.nread + UInt32.ofNat d.count := by
  have hr := d.nread.toNat_lt
  have hw := d.nwrite.toNat_lt
  rw [Pipe.count, UInt32.ofNat_toNat, ← UInt32.toNat_inj, UInt32.toNat_add, UInt32.toNat_sub]
  omega

variable {d : Pipe} {b : UInt8}

lemma count_put (h : d.count < PIPESIZE.toNat) : (d.put b).count = d.count + 1 := by
  have hsize : PIPESIZE.toNat = 512 := rfl
  have h1 : (1 : UInt32).toNat = 1 := rfl
  have hr := d.nread.toNat_lt
  have hw := d.nwrite.toNat_lt
  simp only [Pipe.put, Pipe.count, UInt32.toNat_sub, UInt32.toNat_add, h1, hsize] at h ⊢
  omega

lemma buffered_put (h : d.count < PIPESIZE.toNat) : (d.put b).buffered = d.buffered ++ [b] := by
  have hsize : PIPESIZE.toNat = 512 := rfl
  have hnew : (d.nwrite % PIPESIZE).toNat = (d.nread.toNat + d.count) % 512 := by
    rw [nwrite_eq d, place]
  unfold Pipe.buffered
  rw [count_put h, List.range_succ, List.map_append, List.map_singleton]
  refine congrArg₂ _ (List.map_congr_left fun j hj => ?_) (congrArg (fun x => [x]) ?_)
  · -- an older byte is at another place
    have hj := List.mem_range.mp hj
    have hne : ((d.nread + UInt32.ofNat j) % PIPESIZE).toNat ≠ (d.nwrite % PIPESIZE).toNat := by
      rw [hnew, place]
      omega
    exact Function.update_of_ne hne _ _
  · have heq : ((d.nread + UInt32.ofNat d.count) % PIPESIZE).toNat =
      (d.nwrite % PIPESIZE).toNat := by
      rw [hnew, place]
    change Function.update d.data _ b ((d.nread + UInt32.ofNat d.count) % PIPESIZE).toNat = b
    rw [heq, Function.update_self]

lemma count_take (h : d.count ≠ 0) : d.take.count + 1 = d.count := by
  have h1 : (1 : UInt32).toNat = 1 := rfl
  have hr := d.nread.toNat_lt
  have hw := d.nwrite.toNat_lt
  simp only [Pipe.take, Pipe.count, UInt32.toNat_sub, UInt32.toNat_add, h1] at h ⊢
  omega

lemma buffered_take (h : d.count ≠ 0) : d.buffered = d.front :: d.take.buffered := by
  unfold Pipe.buffered
  rw [← count_take h, List.range_succ_eq_map, List.map_cons, List.map_map]
  refine congrArg₂ _ ?_ (List.map_congr_left fun j _ => congrArg d.data ?_)
  · change d.data ((d.nread + 0) % PIPESIZE).toNat = d.data (d.nread % PIPESIZE).toNat
    rw [UInt32.add_zero]
  · change ((d.nread + UInt32.ofNat (j + 1)) % PIPESIZE).toNat =
      ((d.nread + 1 + UInt32.ofNat j) % PIPESIZE).toNat
    have h1 : (d.nread + 1).toNat = (d.nread.toNat + 1) % 2 ^ 32 := UInt32.toNat_add ..
    rw [place, place, h1]
    omega

lemma fifo_pipealloc (data : ℕ → UInt8) : Fifo (pipealloc data) := by
  have h0 : (pipealloc data).count = 0 := (empty_iff _).mp rfl
  refine ⟨h0 ▸ Nat.zero_le _, ?_⟩
  rw [Pipe.buffered, h0]
  rfl

lemma Fifo.put (h : Fifo d) (hd : d.full ≠ true) : Fifo (d.put b) := by
  have hlt : d.count < PIPESIZE.toNat := lt_of_le_of_ne h.count fun he => hd ((full_iff d).mpr he)
  refine ⟨?_, ?_⟩
  · rw [count_put hlt]
    exact hlt
  · rw [buffered_put hlt, ← List.append_assoc]
    exact congrArg (· ++ [b]) h.bytes

lemma Fifo.take (h : Fifo d) (hd : d.empty ≠ true) : Fifo d.take := by
  have hne : d.count ≠ 0 := fun he => hd ((empty_iff d).mpr he)
  refine ⟨?_, ?_⟩
  · have := count_take hne
    have := h.count
    omega
  · calc d.take.stored = d.delivered ++ d.buffered := h.bytes
      _ = d.delivered ++ d.front :: d.take.buffered := by rw [buffered_take hne]
      _ = d.take.delivered ++ d.take.buffered := List.append_cons ..

/-- One piece of the code, at any point of any call. -/
lemma Fifo.code (h : Fifo d) (me : Proc) (k : Code) : Fifo (code me k d).2 := by
  cases k with
  | write n left =>
    cases left with
    | nil => exact h
    | cons b left =>
      simp only [Pipes.code]
      split_ifs with hf
      · exact h
      · exact h
      · exact h.put hf
  | read n =>
    simp only [Pipes.code]
    split_ifs <;> exact h
  | copy n addr =>
    simp only [Pipes.code]
    split_ifs with _ he
    · exact h
    · exact h.take he
    · exact h
  | close writable => cases writable <;> exact ⟨h.count, h.bytes⟩
  | full | wrote | copied | closed => exact h

/-- A process writes two bytes and another one reads one of them. -/
def writeRead : List (Act Call) :=
  [.call slot0 (.write [7, 8]), .step slot0, .step slot0, .step slot0, .step slot0, .step slot0, .step slot0,
    .call slot1 (.read 1), .step slot1, .step slot1, .step slot1]

/-- What a reader waits for has not come, and the same for a writer. A call that stores or takes
bytes has to wake up the other side; a writer goes to sleep with the buffer full. The return of
`pipewrite` with `-1` leaves out the wakeup. -/
def words : Words Code Pipe where
  need chan d :=
    (chan = nreadChan → d.empty = true ∧ d.writeopen = true) ∧
      (chan = nwriteChan → d.full = true ∧ d.readopen = true)
  owes chan
    | .write _ _ => chan = nreadChan
    | .copy _ _ => chan = nwriteChan
    | _ => False
  know
    | .full _ _, d => d.full = true ∧ d.readopen = true
    | _, _ => True
  leaves me k d chan := chan = nreadChan ∧ ∃ n b left, k = .write n (b :: left) ∧ d.full = true ∧
    (d.readopen = false ∨ me.killed = true)

lemma chans_ne : nreadChan ≠ nwriteChan := by decide

lemma keeps_write (me : Proc) (n : ℕ) (left : List UInt8) (d : Pipe) :
    words.Keeps me (.write n left) d (code me (.write n left) d) := by
  cases left with
  | nil => exact ⟨trivial, fun chan hne h => .inl (h.resolve_right hne)⟩
  | cons b left =>
    simp only [code]
    split_ifs with hf hk
    · exact fun chan h => h.imp_right fun hc => ⟨hc, n, b, left, rfl, hf, hk⟩
    · have hopen : d.readopen = true := by
        rw [← Bool.not_eq_false]
        exact fun hr => hk (.inl hr)
      exact ⟨⟨hf, hopen⟩, fun chan hne h => .inl (h.resolve_right hne)⟩
    · refine ⟨trivial, fun chan h => ?_⟩
      by_cases hc : chan = nreadChan
      · exact .inr hc
      · have hn := h.resolve_right hc
        exact .inl ⟨fun he => absurd he hc, fun he => absurd (hn.2 he).1 hf⟩

lemma keeps_read (me : Proc) (n : ℕ) (d : Pipe) :
    words.Keeps me (.read n) d (code me (.read n) d) := by
  simp only [code]
  split_ifs with he hk
  · exact fun chan h => .inl (h.resolve_right id)
  · exact ⟨fun _ => trivial, ⟨fun _ => he, fun hc => absurd hc chans_ne⟩, fun chan h =>
      h.resolve_right id⟩
  · exact ⟨trivial, fun chan h => .inl (h.resolve_right id)⟩

lemma keeps_copy (me : Proc) (n : ℕ) (addr : List UInt8) (d : Pipe) :
    words.Keeps me (.copy n addr) d (code me (.copy n addr) d) := by
  simp only [code]
  split_ifs with hn he
  · exact ⟨trivial, fun chan hne h => .inl (h.resolve_right hne)⟩
  · refine ⟨trivial, fun chan h => ?_⟩
    by_cases hc : chan = nwriteChan
    · exact .inr hc
    · have hn := h.resolve_right hc
      exact .inl ⟨fun hr => absurd (hn.1 hr).1 he, fun hw => absurd hw hc⟩
  · exact ⟨trivial, fun chan hne h => .inl (h.resolve_right hne)⟩

lemma keeps_close (me : Proc) (writable : Bool) (d : Pipe) :
    words.Keeps me (.close writable) d (code me (.close writable) d) := by
  cases writable with
  | true =>
    refine ⟨trivial, fun chan hne h => .inl ?_⟩
    have hn := h.resolve_right id
    exact ⟨fun hc => absurd hc hne, fun hc => hn.2 hc⟩
  | false =>
    refine ⟨trivial, fun chan hne h => .inl ?_⟩
    have hn := h.resolve_right id
    exact ⟨fun hc => hn.1 hc, fun hc => absurd hc hne⟩

/-- Every other exit of every call does the wakeup it owes. -/
def reasons : Reasons pipe where
  toWords := words
  start i _ := by cases i <;> trivial
  code me k d hk := by
    cases k with
    | write n left => exact keeps_write me n left d
    | full n left =>
      exact ⟨fun _ => trivial, ⟨fun hc => absurd hc.symm chans_ne, fun _ => hk⟩, fun chan h => h.resolve_right id⟩
    | read n => exact keeps_read me n d
    | copy n addr => exact keeps_copy me n addr d
    | close writable => exact keeps_close me writable d
    | wrote | copied | closed => exact fun chan h => .inl (h.resolve_right id)

/-- The step is no return of `-1` from `pipewrite`, with the buffer full and the read end closed or
the writer killed, while a process waits on `&p->nread` and nothing has woken it up. -/
def Spares (s : St Code Result Pipe) : Act Call → Prop
  | .step p => ∀ n b left, s.pc p = .crit (.write n (b :: left)) → s.data.full = true →
      s.data.readopen = false ∨ (s.proc p).killed = true → ∀ q, ¬ Waits s q nreadChan
  | _ => True

/-- **Readers and writers sleep for a reason** whenever the lock of the pipe is free, in every run
without such a return. -/
theorem pipe_sleepers (T : Table) (data : ℕ → UInt8) (s : St Code Result Pipe)
    (h : Reach (fun s a t => Spares s a ∧ Step pipe false s a t) (init T (pipealloc data)) s)
    (hlk : s.lk = none) (p : Slot) (hp : (s.proc p).state = .sleeping) :
    ((s.proc p).chan = some nreadChan → s.data.count = 0 ∧ s.data.writeopen = true) ∧
      ((s.proc p).chan = some nwriteChan → s.data.count = PIPESIZE.toNat ∧ s.data.readopen = true) := by
  have hr : Reach reasons.Step (init T (pipealloc data)) s := by
    refine h.mono fun s a t hst => ⟨?_, hst.2⟩
    cases a with
    | step p =>
      rintro k chan hk ⟨rfl, n, b, left, rfl, hf, hc⟩
      exact hst.1 n b left hk hf hc
    | call | yield | kill | dispatch | schedAcquire | schedRelease => trivial
  refine ⟨fun hc => ?_, fun hc => ?_⟩
  · obtain ⟨he, hw⟩ := (reasons.need_of_sleeping hr hlk hp hc).1 rfl
    exact ⟨(empty_iff _).mp he, hw⟩
  · obtain ⟨hf, hw⟩ := (reasons.need_of_sleeping hr hlk hp hc).2 rfl
    exact ⟨(full_iff _).mp hf, hw⟩

/-- The steps of a process that is not in the loop of `pipewrite`. -/
def nextReading (s : St Code Result Pipe) (a : Act Call) : Option (St Code Result Pipe) :=
  match a with
  | .step p =>
    match s.pc p with
    | .crit (.write _ _) => none
    | _ => next pipe false s a
  | _ => next pipe false s a

lemma nextReading_spares {s t : St Code Result Pipe} {a : Act Call} (h : nextReading s a = some t) :
    Spares s a ∧ Step pipe false s a t := by
  unfold nextReading at h
  cases a with
  | step p =>
    dsimp only at h
    split at h
    · cases h
    · next hno => exact ⟨fun n b left hpc => (hno n (b :: left) hpc).elim, h⟩
  | call | yield | kill | dispatch | schedAcquire | schedRelease => exact ⟨trivial, h⟩

/-- A reader of an empty pipe falls asleep. -/
theorem reader_asleep : ∃ s, (s.proc slot1).state = .sleeping ∧ (s.proc slot1).chan = some nreadChan ∧
    Reach (Step pipe false) (init pidTable (pipealloc fun _ => 0)) s ∧ s.data.count = 0 ∧
      s.data.writeopen = true := by
  obtain ⟨s, hs, hlk, hstate, hchan⟩ : ∃ s,
      exec nextReading (init pidTable (pipealloc fun _ => 0))
        (.call slot1 (.read 1) :: List.replicate 5 (.step slot1)) = some s ∧ s.lk = none ∧
      (s.proc slot1).state = .sleeping ∧ (s.proc slot1).chan = some nreadChan :=
    exists_any (by decide +kernel)
  have hr := (reach_of_exec _ hs).mono fun _ _ _ => nextReading_spares
  exact ⟨s, hstate, hchan, hr.mono fun _ _ _ => And.right,
    (pipe_sleepers pidTable (fun _ => 0) s hr hlk slot1 hstate).1 hchan⟩

/-- A reader falls asleep; then a process that has been killed writes 513 bytes. -/
def killedWriter : List (Act Call) :=
  [.call slot1 (.read 1), .step slot1, .step slot1, .step slot1, .step slot1, .step slot1, .schedRelease,
    .kill 0, .call slot0 (.write (List.replicate 513 7))] ++ List.replicate 514 (.step slot0)

/-- The reader sleeps on although the buffer is full. -/
theorem reader_left_asleep : ∃ s, Reach (Step pipe false) (init pidTable (pipealloc fun _ => 0)) s ∧
    s.lk = none ∧ s.ptable = .free ∧ (s.proc slot1).state = .sleeping ∧
      (s.proc slot1).chan = some nreadChan ∧ s.data.count = PIPESIZE.toNat :=
  reach_any killedWriter (by decide +kernel) fun _ _ => id

end Xv6.Pipes
