import Xv6.FileData
import Xv6.LogGroup

/-!
One `struct file` of a regular file, shared by any number of processes that call `fileread` and
`filewrite`. A step is what a process does between `ilock` and `iunlock`: a chunk of a write, or a
read. Between two chunks of a write the others may move the offset.
-/

namespace Xv6.SharedFile

open Xv6.Fs Xv6.FileData Xv6.Lib.Wp Xv6.Lib.Run Xv6.Lib.Splice
open Xv6.LogGroup (MAXOPBLOCKS)
open Function (update update_of_ne update_self)

/-- The fields of the `struct file` that do not change. -/
structure File where
  ip : ℕ
  readable : Bool
  writable : Bool

/-- `max` of `filewrite`. -/
def maxWrite : ℕ := (MAXOPBLOCKS - 1 - 1 - 2) / 2 * 512

/-- In the loop of `filewrite`, with the number of the call. -/
inductive Pc
  | idle
  | write (call : ℕ) (n : ℤ) (addr : List UInt8) (i : ℕ)

/-- Bytes written or read through the file, by the call with this number. -/
structure Xfer where
  call : ℕ
  write : Bool
  off : ℕ
  data : List UInt8

/-- A call that has returned `r`. -/
inductive Done
  | write (call : ℕ) (n : ℤ) (addr : List UInt8) (r : ℤ)
  | read (call : ℕ) (n : ℤ) (r : ℤ)
deriving DecidableEq

/-- `off` is `f->off`; `calls`, `trace` and `done` are history. -/
structure St (P : Type*) where
  disk : Blk
  off : ℕ
  pc : P → Pc
  panic : Bool
  calls : ℕ
  trace : List Xfer
  done : List Done

inductive Act
  | filewrite (n : ℤ) (addr : List UInt8)
  | loop
  | fileread (n : ℤ)
  | other

variable {P : Type*} [DecidableEq P]

/-- One turn of the loop of `filewrite`. -/
def writeLoop (f : File) (s : St P) (p : P) (call : ℕ) (n : ℤ) (addr : List UInt8) (i : ℕ) : St P :=
  let ret : St P := { s with
    pc := update s.pc p .idle
    done := s.done ++ [.write call n addr (if (i : ℤ) = n then n else -1)] }
  if (i : ℤ) < n then
    let n1 := min (n.toNat - i) maxWrite
    let chunk := (addr.drop i).take n1
    match writei f.ip s.off chunk s.disk with
    | .error _ => { s with panic := true }
    | .ok (none, disk) => { ret with disk := disk }
    | .ok (some r, disk) =>
      if r = n1 then { s with
        disk := disk
        off := s.off + r
        pc := update s.pc p (.write call n addr (i + r))
        trace := s.trace ++ [⟨call, true, s.off, chunk⟩] }
      -- `short filewrite`
      else { s with panic := true }
  else ret

def fileread (f : File) (s : St P) (n : ℤ) : St P :=
  let ret (r : ℤ) : St P := { s with calls := s.calls + 1, done := s.done ++ [.read s.calls n r] }
  if f.readable then
    match readi f.ip s.off (n % 2 ^ 32).toNat s.disk with
    | .error _ => { s with panic := true }
    | .ok (none, disk) => { ret (-1) with disk := disk }
    | .ok (some bytes, disk) => { ret bytes.length with
        disk := disk
        off := s.off + bytes.length
        trace := s.trace ++ [⟨s.calls, false, s.off, bytes⟩] }
  else ret (-1)

/-- The buffer `addr` of a write has `n` bytes. -/
def next (f : File) (s : St P) (p : P) (a : Act) : Option (St P) :=
  if s.panic then none else
  match a, s.pc p with
  | .filewrite n addr, .idle =>
    if addr.length ≠ n.toNat then none
    else if f.writable then some { s with
      calls := s.calls + 1
      pc := update s.pc p (.write s.calls n addr 0) }
    else some { s with calls := s.calls + 1, done := s.done ++ [.write s.calls n addr (-1)] }
  | .loop, .write call n addr i => some (writeLoop f s p call n addr i)
  | .fileread n, .idle => some (fileread f s n)
  | _, _ => none

/-- The blocks of the disk are accounted for, and the inode is a regular file. -/
structure Regular (d : Blk) (ip : ℕ) : Prop where
  accounted : Accounted d
  low : d.LowUsed
  fits : d.sb.size < 2 ^ 32
  held : d.held = []
  allocated : d.Allocated ip
  file : (d.dinode ip).type = .file

/-- A step of a process that shares the file; or other calls work on other files. -/
def Step (f : File) (s : St P) (l : P × Act) (t : St P) : Prop :=
  next f s l.1 l.2 = some t ∨
    l.2 = .other ∧ ∃ d, Regular d f.ip ∧ contents d f.ip = contents s.disk f.ip ∧
      t = { s with disk := d }

/-- No call has been made yet. -/
def start (disk : Blk) (off : ℕ) : St P := ⟨disk, off, fun _ => .idle, false, 0, [], []⟩

/-! ### What the history says -/

/-- Every transfer starts where the one before it ended; the first starts at `a` and the last ends
at `b`. -/
def Consecutive (a : ℕ) : List Xfer → ℕ → Prop
  | [], b => b = a
  | x :: xs, b => x.off = a ∧ Consecutive (a + x.data.length) xs b

/-- What a call has written, in the order of its chunks. -/
def written (trace : List Xfer) (call : ℕ) : List UInt8 :=
  (trace.filter fun x => x.write && x.call == call).flatMap Xfer.data

section History

variable {a b call : ℕ} {xs : List Xfer} {x : Xfer}

lemma Consecutive.snoc (h : Consecutive a xs b) (hx : x.off = b) :
    Consecutive a (xs ++ [x]) (b + x.data.length) := by
  induction xs generalizing a with
  | nil =>
    obtain rfl : b = a := h
    exact ⟨hx, rfl⟩
  | cons y ys ih => exact ⟨h.1, ih h.2⟩

lemma Consecutive.le (h : Consecutive a xs b) : a ≤ b := by
  induction xs generalizing a with
  | nil => exact h.ge
  | cons y ys ih => exact (Nat.le_add_right _ _).trans (ih h.2)

lemma Consecutive.bounds (h : Consecutive a xs b) (hx : x ∈ xs) :
    a ≤ x.off ∧ x.off + x.data.length ≤ b := by
  induction xs generalizing a with
  | nil => cases hx
  | cons y ys ih =>
    obtain ⟨rfl, hrest⟩ := h
    rcases List.mem_cons.mp hx with rfl | hx
    · exact ⟨le_rfl, hrest.le⟩
    · have := ih hrest hx
      omega

lemma Consecutive.pairwise (h : Consecutive a xs b) :
    xs.Pairwise fun x y => x.off + x.data.length ≤ y.off := by
  induction xs generalizing a with
  | nil => exact .nil
  | cons y ys ih =>
    obtain ⟨rfl, hrest⟩ := h
    exact .cons (fun z hz => (hrest.bounds hz).1) (ih hrest)

lemma Consecutive.sum (h : Consecutive a xs b) : b = a + (xs.map fun x => x.data.length).sum := by
  induction xs generalizing a with
  | nil => exact h
  | cons y ys ih =>
    have := ih h.2
    rw [List.map_cons, List.sum_cons]
    omega

lemma written_snoc (xs : List Xfer) (x : Xfer) (call : ℕ) : written (xs ++ [x]) call =
    written xs call ++ if x.write = true ∧ x.call = call then x.data else [] := by
  unfold written
  rw [List.filter_append, List.flatMap_append]
  split_ifs with h
  · simp [h]
  · have hx : (x.write && x.call == call) = false := by simpa using h
    simp [hx]

/-- A call without transfers has written nothing. -/
lemma written_of_fresh (h : ∀ x ∈ xs, x.call < call) : written xs call = [] := by
  unfold written
  rw [List.filter_eq_nil_iff.mpr fun x hx => ?_]
  · rfl
  · have := h x hx
    simp [this.ne]

end History

/-! ### The file -/

section File

variable {d d' : Blk} {ip off : ℕ} {src : List UInt8}

lemma Regular.sound (h : Regular d ip) : Sound d :=
  ⟨⟨h.accounted.exact, h.low, h.fits⟩, h.accounted.mapped⟩

/-- A chunk is written, or nothing has changed. -/
lemma Regular.writei (h : Regular d ip) {r : Option ℕ}
    (hrun : FileData.writei ip off src d = .ok (r, d')) :
    r = none ∧ d' = d ∨ r = some src.length ∧ off ≤ (d.dinode ip).size ∧ Regular d' ip ∧
      contents d' ip = splice (contents d ip) off src := by
  have hfile : (d.dinode ip).type ≠ .dev := by
    rw [h.file]
    nofun
  obtain ⟨hr, hs', hheld', hres⟩ := writei_returns h.sound h.held h.allocated hfile hrun
  cases r with
  | none => exact .inl ⟨rfl, hres⟩
  | some n =>
    obtain ⟨rfl, hok⟩ := writable_of_some hr
    obtain ⟨-, hw⟩ : _ ∧ Written d ip off src d' := hres
    obtain ⟨addrs, hself⟩ := hw.self
    refine .inr ⟨rfl, hok.1, ⟨⟨hs'.booked.exact, hs'.mapped⟩, hs'.booked.low, hs'.booked.fits,
      hheld', allocated_written hw h.allocated, ?_⟩, contents_written hw hok.1⟩
    rw [hself]
    exact h.file

lemma Regular.readi (h : Regular d ip) {n : ℕ} {r : Option (List UInt8)}
    (hrun : Fs.readi ip off n d = .ok (r, d')) :
    d' = d ∧ ∀ bytes, r = some bytes → off + bytes.length ≤ (d.dinode ip).size := by
  obtain ⟨rfl, rfl⟩ := wp_ok (h.sound.readi off n h.allocated h.held) hrun
  refine ⟨rfl, fun bytes hb => ?_⟩
  rw [readResult_eq, readOf] at hb
  split_ifs at hb with hoff
  cases hb
  have hlen := length_contents d' ip
  rw [List.length_take, List.length_drop]
  omega

end File

/-! ### The invariant -/

/-- What a call with buffer `addr` has to show for its result. -/
def Result (n : ℤ) (addr data : List UInt8) (r : ℤ) : Prop :=
  r = n ∧ data = addr ∨ r = -1 ∧ ∃ i, data = addr.take i

structure Inv (f : File) (off₀ : ℕ) (s : St P) : Prop where
  regular : Regular s.disk f.ip
  off : s.off ≤ (s.disk.dinode f.ip).size
  trace : Consecutive off₀ s.trace s.off
  kept : ∀ x ∈ s.trace, x.write = true → ∀ k, k < x.data.length →
    (contents s.disk f.ip)[x.off + k]? = x.data[k]?
  fresh : ∀ x ∈ s.trace, x.call < s.calls
  chunk : ∀ x ∈ s.trace, x.write = true → x.data.length ≤ maxWrite
  active : ∀ p call n addr i, s.pc p = .write call n addr i → call < s.calls ∧
    addr.length = n.toNat ∧ i ≤ addr.length ∧ written s.trace call = addr.take i
  apart : ∀ p q call n addr i n' addr' i', s.pc p = .write call n addr i →
    s.pc q = .write call n' addr' i' → p = q
  done : ∀ call n addr r, .write call n addr r ∈ s.done → call < s.calls ∧
    (∀ p n' addr' i, s.pc p ≠ .write call n' addr' i) ∧ Result n addr (written s.trace call) r

variable {f : File} {off₀ : ℕ} {s t : St P} {p : P} {a : Act} {n : ℤ} {addr : List UInt8}

omit [DecidableEq P] in
lemma Inv.size (h : Inv f off₀ s) : s.off ≤ (contents s.disk f.ip).length := by
  rw [length_contents]
  exact h.off

/-- A call that begins. -/
lemma Inv.begin (h : Inv f off₀ s) (hn : addr.length = n.toNat) : Inv f off₀ { s with
    calls := s.calls + 1
    pc := update s.pc p (.write s.calls n addr 0) } := by
  have hnew {q : P} {call i : ℕ} {n' : ℤ} {addr' : List UInt8}
      (hq : update s.pc p (.write s.calls n addr 0) q = .write call n' addr' i) :
      q = p ∧ Pc.write s.calls n addr 0 = .write call n' addr' i ∨
        q ≠ p ∧ s.pc q = .write call n' addr' i ∧ call < s.calls := by
    by_cases hqp : q = p
    · subst hqp
      rw [update_self] at hq
      exact .inl ⟨rfl, hq⟩
    · rw [update_of_ne hqp] at hq
      exact .inr ⟨hqp, hq, (h.active q call n' addr' i hq).1⟩
  refine ⟨h.regular, h.off, h.trace, h.kept, fun x hx => (h.fresh x hx).trans (Nat.lt_succ_self _),
    h.chunk, fun q call n' addr' i hq => ?_, fun q q' call n₁ addr₁ i₁ n₂ addr₂ i₂ hq hq' => ?_,
    fun call n' addr' r hr => ?_⟩
  · rcases hnew hq with ⟨-, he⟩ | ⟨-, hq, -⟩
    · cases he
      exact ⟨Nat.lt_succ_self _, hn, Nat.zero_le _, written_of_fresh h.fresh⟩
    · obtain ⟨hlt, hrest⟩ := h.active q call n' addr' i hq
      exact ⟨hlt.trans (Nat.lt_succ_self _), hrest⟩
  · rcases hnew hq with ⟨rfl, he⟩ | ⟨hne, hq, hlt⟩ <;>
      rcases hnew hq' with ⟨rfl, he'⟩ | ⟨hne', hq', hlt'⟩
    · rfl
    · cases he
      exact absurd hlt' (lt_irrefl _)
    · cases he'
      exact absurd hlt (lt_irrefl _)
    · exact h.apart q q' call n₁ addr₁ i₁ n₂ addr₂ i₂ hq hq'
  · obtain ⟨hlt, hno, hres⟩ := h.done call n' addr' r hr
    refine ⟨hlt.trans (Nat.lt_succ_self _), fun q n₁ addr₁ i hq => ?_, hres⟩
    rcases hnew hq with ⟨-, he⟩ | ⟨-, hq, -⟩
    · cases he
      exact absurd hlt (lt_irrefl _)
    · exact hno q n₁ addr₁ i hq

omit [DecidableEq P] in
/-- A call of `filewrite` on a file that is not writable. -/
lemma Inv.reject (h : Inv f off₀ s) : Inv f off₀ { s with
    calls := s.calls + 1
    done := s.done ++ [.write s.calls n addr (-1)] } := by
  refine ⟨h.regular, h.off, h.trace, h.kept, fun x hx => (h.fresh x hx).trans (Nat.lt_succ_self _),
    h.chunk, fun q call n' addr' i hq => ?_, h.apart, fun call n' addr' r hr => ?_⟩
  · obtain ⟨hlt, hrest⟩ := h.active q call n' addr' i hq
    exact ⟨hlt.trans (Nat.lt_succ_self _), hrest⟩
  · rcases List.mem_append.mp hr with hr | hr
    · obtain ⟨hlt, hrest⟩ := h.done call n' addr' r hr
      exact ⟨hlt.trans (Nat.lt_succ_self _), hrest⟩
    · cases List.mem_singleton.mp hr
      refine ⟨Nat.lt_succ_self _, fun q n₁ addr₁ i hq => ?_,
        .inr ⟨rfl, 0, written_of_fresh h.fresh⟩⟩
      exact absurd (h.active q s.calls n₁ addr₁ i hq).1 (lt_irrefl _)

/-- A call of `filewrite` returns. -/
lemma Inv.finish {call i : ℕ} {r : ℤ} (h : Inv f off₀ s) (hp : s.pc p = .write call n addr i)
    (hr : Result n addr (addr.take i) r) : Inv f off₀ { s with
    pc := update s.pc p .idle
    done := s.done ++ [.write call n addr r] } := by
  have hold {q : P} {call' i' : ℕ} {n' : ℤ} {addr' : List UInt8}
      (hq : update s.pc p .idle q = .write call' n' addr' i') :
      q ≠ p ∧ s.pc q = .write call' n' addr' i' := by
    by_cases hqp : q = p
    · subst hqp
      rw [update_self] at hq
      cases hq
    · rw [update_of_ne hqp] at hq
      exact ⟨hqp, hq⟩
  obtain ⟨hlt, hlen, hi, hw⟩ := h.active p call n addr i hp
  refine ⟨h.regular, h.off, h.trace, h.kept, h.fresh, h.chunk,
    fun q call' n' addr' i' hq => h.active q call' n' addr' i' (hold hq).2,
    fun q q' call' n₁ addr₁ i₁ n₂ addr₂ i₂ hq hq' =>
      h.apart q q' call' n₁ addr₁ i₁ n₂ addr₂ i₂ (hold hq).2 (hold hq').2,
    fun call' n' addr' r' hr' => ?_⟩
  rcases List.mem_append.mp hr' with hr' | hr'
  · obtain ⟨hlt', hno, hres⟩ := h.done call' n' addr' r' hr'
    exact ⟨hlt', fun q n₁ addr₁ i₁ hq => hno q n₁ addr₁ i₁ (hold hq).2, hres⟩
  · cases List.mem_singleton.mp hr'
    refine ⟨hlt, fun q n₁ addr₁ i₁ hq => ?_, by rwa [hw]⟩
    exact (hold hq).1 (h.apart q p call n₁ addr₁ i₁ n addr i (hold hq).2 hp)

omit [DecidableEq P] in
/-- Other files have changed. -/
lemma Inv.other {d : Blk} (h : Inv f off₀ s) (hd : Regular d f.ip)
    (hc : contents d f.ip = contents s.disk f.ip) : Inv f off₀ { s with disk := d } := by
  refine ⟨hd, ?_, h.trace, fun x hx hw k hk => ?_, h.fresh, h.chunk, h.active, h.apart, h.done⟩
  · change s.off ≤ (d.dinode f.ip).size
    rw [← length_contents, hc]
    exact h.size
  · exact (congrArg (·[x.off + k]?) hc).trans (h.kept x hx hw k hk)

omit [DecidableEq P] in
/-- A read moves the offset. -/
lemma Inv.read {bytes : List UInt8} {r : ℤ} (h : Inv f off₀ s)
    (hb : s.off + bytes.length ≤ (s.disk.dinode f.ip).size) : Inv f off₀ { s with
    calls := s.calls + 1
    off := s.off + bytes.length
    trace := s.trace ++ [⟨s.calls, false, s.off, bytes⟩]
    done := s.done ++ [.read s.calls n r] } := by
  have hw (call : ℕ) : written (s.trace ++ [⟨s.calls, false, s.off, bytes⟩]) call =
      written s.trace call := by
    rw [written_snoc, if_neg nofun, List.append_nil]
  have hmem {x : Xfer} (hx : x ∈ s.trace ++ [⟨s.calls, false, s.off, bytes⟩]) :
      x ∈ s.trace ∨ x = ⟨s.calls, false, s.off, bytes⟩ := by simpa using hx
  refine ⟨h.regular, hb, h.trace.snoc rfl, fun x hx => ?_, fun x hx => ?_, fun x hx => ?_,
    fun q call n' addr' i hq => ?_, h.apart, fun call n' addr' r' hr' => ?_⟩
  · rcases hmem hx with hx | rfl
    · exact h.kept x hx
    · nofun
  · rcases hmem hx with hx | rfl
    · exact (h.fresh x hx).trans (Nat.lt_succ_self _)
    · exact Nat.lt_succ_self _
  · rcases hmem hx with hx | rfl
    · exact h.chunk x hx
    · nofun
  · obtain ⟨hlt, hlen, hi, hwr⟩ := h.active q call n' addr' i hq
    exact ⟨hlt.trans (Nat.lt_succ_self _), hlen, hi, (hw call).trans hwr⟩
  · have hr : Done.write call n' addr' r' ∈ s.done := by simpa using hr'
    obtain ⟨hlt, hno, hres⟩ := h.done call n' addr' r' hr
    refine ⟨hlt.trans (Nat.lt_succ_self _), hno, ?_⟩
    change Result n' addr' (written (s.trace ++ _) call) r'
    rwa [hw]

/-- A chunk is written. It lies behind all that was written or read before. -/
lemma Inv.write {call i : ℕ} {src : List UInt8} {d : Blk} (h : Inv f off₀ s)
    (hp : s.pc p = .write call n addr i) (hsrc : ∃ m ≤ maxWrite, src = (addr.drop i).take m)
    (hd : Regular d f.ip) (hc : contents d f.ip = splice (contents s.disk f.ip) s.off src) :
    Inv f off₀ { s with
      disk := d
      off := s.off + src.length
      pc := update s.pc p (.write call n addr (i + src.length))
      trace := s.trace ++ [⟨call, true, s.off, src⟩] } := by
  obtain ⟨hlt, hlen, hi, hw⟩ := h.active p call n addr i hp
  obtain ⟨m, hm, hsrc⟩ := hsrc
  have hsl : src.length = min m (addr.length - i) := by
    rw [hsrc, List.length_take, List.length_drop]
  have hself : written (s.trace ++ [⟨call, true, s.off, src⟩]) call =
      addr.take (i + src.length) := by
    have hpre : src = (addr.drop i).take src.length := by
      rw [hsrc]
      exact List.prefix_iff_eq_take.mp (List.take_prefix _ _)
    rw [written_snoc, if_pos ⟨rfl, rfl⟩, hw, List.take_add, ← hpre]
  have hother {call' : ℕ} (hne : call' ≠ call) :
      written (s.trace ++ [⟨call, true, s.off, src⟩]) call' = written s.trace call' := by
    rw [written_snoc, if_neg fun hc => hne hc.2.symm, List.append_nil]
  have hmem {x : Xfer} (hx : x ∈ s.trace ++ [⟨call, true, s.off, src⟩]) :
      x ∈ s.trace ∨ x = ⟨call, true, s.off, src⟩ := by simpa using hx
  have hold {q : P} {call' i' : ℕ} {n' : ℤ} {addr' : List UInt8}
      (hq : update s.pc p (.write call n addr (i + src.length)) q =
        .write call' n' addr' i') :
      q = p ∧ Pc.write call n addr (i + src.length) = .write call' n' addr' i' ∨
        s.pc q = .write call' n' addr' i' ∧ call' ≠ call := by
    by_cases hqp : q = p
    · subst hqp
      rw [update_self] at hq
      exact .inl ⟨rfl, hq⟩
    · rw [update_of_ne hqp] at hq
      refine .inr ⟨hq, ?_⟩
      rintro rfl
      exact hqp (h.apart q p call' n' addr' i' n addr i hq hp)
  have hsize := h.size
  refine ⟨hd, ?_, h.trace.snoc rfl, fun x hx hwr k hk => ?_, fun x hx => ?_, fun x hx hwr => ?_,
    fun q call' n' addr' i' hq => ?_, fun q q' call' n₁ addr₁ i₁ n₂ addr₂ i₂ hq hq' => ?_,
    fun call' n' addr' r hr => ?_⟩
  · change s.off + src.length ≤ (d.dinode f.ip).size
    rw [← length_contents, hc, length_splice hsize]
    exact le_max_right _ _
  · change (contents d f.ip)[x.off + k]? = x.data[k]?
    rw [hc, getElem?_splice hsize]
    rcases hmem hx with hx | rfl
    · have hb := (h.trace.bounds hx).2
      rw [if_neg (by omega)]
      exact h.kept x hx hwr k hk
    · have hk : k < src.length := hk
      change (if s.off ≤ s.off + k ∧ s.off + k < s.off + src.length then src[s.off + k - s.off]?
        else _) = src[k]?
      rw [if_pos (by omega), Nat.add_sub_cancel_left]
  · rcases hmem hx with hx | rfl
    · exact h.fresh x hx
    · exact hlt
  · rcases hmem hx with hx | rfl
    · exact h.chunk x hx hwr
    · change src.length ≤ maxWrite
      omega
  · rcases hold hq with ⟨-, he⟩ | ⟨hq, hne⟩
    · cases he
      exact ⟨hlt, hlen, by omega, hself⟩
    · obtain ⟨hlt', hlen', hi', hw'⟩ := h.active q call' n' addr' i' hq
      exact ⟨hlt', hlen', hi', (hother hne).trans hw'⟩
  · rcases hold hq with ⟨rfl, he⟩ | ⟨hq, hne⟩ <;> rcases hold hq' with ⟨rfl, he'⟩ | ⟨hq', hne'⟩
    · rfl
    · cases he
      exact absurd rfl hne'
    · cases he'
      exact absurd rfl hne
    · exact h.apart q q' call' n₁ addr₁ i₁ n₂ addr₂ i₂ hq hq'
  · obtain ⟨hlt', hno, hres⟩ := h.done call' n' addr' r hr
    have hne : call' ≠ call := by
      rintro rfl
      exact hno p n addr i hp
    refine ⟨hlt', fun q n₁ addr₁ i₁ hq => ?_, ?_⟩
    · rcases hold hq with ⟨-, he⟩ | ⟨hq, -⟩
      · cases he
        exact hne rfl
      · exact hno q n₁ addr₁ i₁ hq
    · change Result n' addr' (written (s.trace ++ _) call') r
      rwa [hother hne]

/-! ### Runs -/

lemma writeLoop_inv {call i : ℕ} (h : Inv f off₀ s) (hp : s.pc p = .write call n addr i) :
    Inv f off₀ (writeLoop f s p call n addr i) := by
  obtain ⟨-, hlen, hi, -⟩ := h.active p call n addr i hp
  unfold writeLoop
  dsimp only
  by_cases hlt : (i : ℤ) < n
  · have hn1 : ((addr.drop i).take (min (n.toNat - i) maxWrite)).length =
        min (n.toNat - i) maxWrite := by
      rw [List.length_take, List.length_drop]
      omega
    rw [if_pos hlt]
    split
    · exact ⟨h.regular, h.off, h.trace, h.kept, h.fresh, h.chunk, h.active, h.apart, h.done⟩
    · rename_i d hrun
      obtain ⟨-, rfl⟩ := (h.regular.writei hrun).resolve_right nofun
      rw [if_neg hlt.ne]
      exact h.finish hp (.inr ⟨rfl, i, rfl⟩)
    · rename_i r d hrun
      obtain ⟨hr, -, hd, hc⟩ := (h.regular.writei hrun).resolve_left nofun
      cases hr
      rw [if_pos hn1]
      exact h.write hp ⟨_, min_le_right _ _, rfl⟩ hd hc
  · rw [if_neg hlt]
    refine h.finish hp ?_
    split_ifs with he
    · exact .inl ⟨rfl, List.take_of_length_le (by omega)⟩
    · exact .inr ⟨rfl, i, rfl⟩

omit [DecidableEq P] in
lemma fileread_inv (h : Inv f off₀ s) : Inv f off₀ (fileread f s n) := by
  -- a read that returns `-1` is one of no bytes, but for what it returns
  have hnone (r : ℤ) : Inv f off₀ { s with
      calls := s.calls + 1
      done := s.done ++ [.read s.calls n r] } := by
    refine ⟨h.regular, h.off, h.trace, h.kept,
      fun x hx => (h.fresh x hx).trans (Nat.lt_succ_self _), h.chunk,
      fun q call n' addr' i hq => ?_, h.apart, fun call n' addr' r' hr' => ?_⟩
    · obtain ⟨hlt, hrest⟩ := h.active q call n' addr' i hq
      exact ⟨hlt.trans (Nat.lt_succ_self _), hrest⟩
    · have hr : Done.write call n' addr' r' ∈ s.done := by simpa using hr'
      obtain ⟨hlt, hrest⟩ := h.done call n' addr' r' hr
      exact ⟨hlt.trans (Nat.lt_succ_self _), hrest⟩
  unfold fileread
  dsimp only
  split_ifs
  · split
    · exact ⟨h.regular, h.off, h.trace, h.kept, h.fresh, h.chunk, h.active, h.apart, h.done⟩
    · rename_i d hrun
      obtain ⟨rfl, -⟩ := h.regular.readi hrun
      exact hnone (-1)
    · rename_i bytes d hrun
      obtain ⟨rfl, hb⟩ := h.regular.readi hrun
      exact h.read (hb bytes rfl)
  · exact hnone (-1)

lemma Step.inv {l : P × Act} (h : Inv f off₀ s) (hst : Step f s l t) : Inv f off₀ t := by
  obtain ⟨p, a⟩ := l
  rcases hst with hst | ⟨-, d, hd, hc, rfl⟩
  · unfold next at hst
    split at hst
    · cases hst
    split at hst
    · split_ifs at hst with hn
      · cases hst
        exact h.begin (not_not.mp hn)
      · cases hst
        exact h.reject
    · rename_i hp
      cases hst
      exact writeLoop_inv h hp
    · cases hst
      exact fileread_inv h
    · cases hst
  · exact h.other hd hc

omit [DecidableEq P] in
lemma inv_start {disk : Blk} (h : Regular disk f.ip) (hoff : off₀ ≤ (disk.dinode f.ip).size) :
    Inv f off₀ (start disk off₀ : St P) where
  regular := h
  off := hoff
  trace := rfl
  kept := nofun
  fresh := nofun
  chunk := nofun
  active := nofun
  apart := nofun
  done := nofun

/-- **A shared offset.** Processes share a regular file, with its offset not behind the end. In
every run the offset stays there, and it has moved by exactly the bytes written and read: each chunk
and each read starts where the one before it ended, so that none overlaps another, and what a chunk
has written stays in the file. A call writes its buffer in order. It returns `n` when it has written
the whole buffer, and `-1` after the first bytes of it. -/
theorem shared_offset {disk : Blk} (h : Regular disk f.ip) (hoff : off₀ ≤ (disk.dinode f.ip).size)
    (hr : Reach (Step f) (start disk off₀) s) :
    s.off ≤ (s.disk.dinode f.ip).size ∧ Consecutive off₀ s.trace s.off ∧
    s.trace.Pairwise (fun x y => x.off + x.data.length ≤ y.off) ∧
    s.off = off₀ + (s.trace.map fun x => x.data.length).sum ∧
    (∀ x ∈ s.trace, x.write = true → x.data.length ≤ maxWrite ∧
      ∀ k, k < x.data.length → (contents s.disk f.ip)[x.off + k]? = x.data[k]?) ∧
    (∀ p call n addr i, s.pc p = .write call n addr i → written s.trace call = addr.take i) ∧
    ∀ call n addr r, .write call n addr r ∈ s.done → Result n addr (written s.trace call) r := by
  have hinv := hr.inv (inv_start h hoff) fun _ _ _ hs hst => Step.inv hs hst
  exact ⟨hinv.off, hinv.trace, hinv.trace.pairwise, hinv.trace.sum,
    fun x hx hw => ⟨hinv.chunk x hx hw, hinv.kept x hx hw⟩,
    fun p call n addr i hp => (hinv.active p call n addr i hp).2.2.2,
    fun call n addr r hd => (hinv.done call n addr r hd).2.2⟩

lemma regular_smallDisk : Regular (smallDisk (· < 4)) 1 where
  accounted := accounted_smallDisk fun _ hb => decide_eq_false (not_lt.mpr hb.1)
  low _ hb _ := decide_eq_true hb
  fits := by decide
  held := rfl
  allocated := by decide
  file := rfl

lemma reach_of_calls {u : St P} (ls : List (P × Act))
    (h : exec (fun s l => next f s l.1 l.2) s ls = some u) : Reach (Step f) s u :=
  (reach_of_exec ls h).mono fun _ _ _ h => .inl h

/-- Two processes write at the same time; the first needs a turn of its loop to see that all is
written. -/
theorem shared_offset_two_writers : ∃ s : St Bool,
    Reach (Step ⟨1, true, true⟩) (start (smallDisk (· < 4)) 0) s ∧
    s.off = 5 ∧ Result 2 [1, 2] (written s.trace 0) 2 ∧
      Result 3 [7, 8, 9] (written s.trace 1) 3 := by
  have hv : (exec (fun s l => next ⟨1, true, true⟩ s l.1 l.2)
      (start (smallDisk (· < 4)) 0 : St Bool)
      [(true, .filewrite 2 [1, 2]), (false, .filewrite 3 [7, 8, 9]), (false, .loop), (true, .loop),
        (true, .loop), (false, .loop)]).map (fun s => (s.off, s.done)) =
      some (5, [.write 0 2 [1, 2] 2, .write 1 3 [7, 8, 9] 3]) := by
    decide +kernel
  obtain ⟨s, hs, hv⟩ := Option.map_eq_some_iff.mp hv
  obtain ⟨hoff, hdone⟩ := Prod.mk.inj hv
  have hr := reach_of_calls _ hs
  have hlaw := shared_offset regular_smallDisk (Nat.zero_le _) hr
  obtain ⟨-, -, -, -, -, -, hres⟩ := hlaw
  refine ⟨s, hr, hoff, hres 0 2 _ 2 ?_, hres 1 3 _ 3 ?_⟩ <;> simp [hdone]

/-- A process reads three bytes of the file before another writes two. The only chunk does not start
at the offset of the beginning. -/
theorem shared_offset_after_read : ∃ disk : Blk, Regular disk 1 ∧ ∃ s : St Bool,
    Reach (Step ⟨1, true, true⟩) (start disk 0) s ∧
    (s.trace.filter Xfer.write).map (fun x => (x.off, x.data)) = [(3, [7, 8])] := by
  have hv : (FileData.writei 1 0 [1, 2, 3] (smallDisk (· < 4))).toOption.bind (fun r =>
      (exec (fun s l => next ⟨1, true, true⟩ s l.1 l.2) (start r.2 0 : St Bool)
        [(true, .fileread 3), (false, .filewrite 2 [7, 8]), (false, .loop)]).map fun s =>
          (r.1, (s.trace.filter Xfer.write).map fun x => (x.off, x.data))) =
      some (some 3, [(3, [7, 8])]) := by
    decide +kernel
  obtain ⟨⟨r, disk⟩, hw, hv⟩ := Option.bind_eq_some_iff.mp hv
  obtain ⟨s, hs, hv⟩ := Option.map_eq_some_iff.mp hv
  obtain ⟨hr, htrace⟩ := Prod.mk.inj hv
  obtain rfl : r = some 3 := hr
  obtain ⟨-, -, hd, -⟩ := (regular_smallDisk.writei (ok_of_toOption hw)).resolve_left nofun
  exact ⟨disk, hd, s, reach_of_calls _ hs, htrace⟩

end Xv6.SharedFile
