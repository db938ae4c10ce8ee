import Xv6.Lib.Refs
import Xv6.Lib.Ring

/-!
The buffer cache of `bio.c` under any number of concurrent users.

A use of a buffer, from `bread` to `brelse`, is a thread of its own, so a process that works on
several buffers is several of them. What holds `bcache.lock` is one step; waiting for the sleep lock
of a buffer lies between two steps. The list of buffers is a circular doubly linked list of
pointers, and its node `none` is `bcache.head`.

A user that changes a buffer passes it to `log_write` or `bwrite` before `brelse`, as all of `fs.c`
and `log.c` do. The disk does its transfers in one step and without errors.
-/

namespace Xv6.BufCache

open Xv6.Lib.Ring Xv6.Lib.Run Xv6.Lib.Refs
open Function (update update_of_ne update_self update_eq_self)

def NBUF : ℕ := 30
def LOGSIZE : ℕ := 30
def FSSIZE : ℕ := 1000

abbrev BufId := Fin NBUF

/-- `none` is `bcache.head`. -/
abbrev Node := Option BufId

/-- `key` is the device number and the block number, `lock` the sleep lock with its holder. -/
structure Buf (U D : Type*) where
  valid : Bool
  dirty : Bool
  key : ℕ × ℕ
  lock : Option U
  refcnt : ℕ
  data : D

inductive Panic
  | noBuffers | nothingToDo | noDisk1 | incorrectBlockno | tooBigATransaction | outsideOfTrans
  deriving DecidableEq

/-- Where a user is: `want` waits for the sleep lock in `bget`, `got` is about to look at `B_VALID`
in `bread`, `hold` works on the buffer, and `rel` has given the sleep lock back in `brelse`. A
holder may have changed the data since it passed them on. -/
inductive Pc
  | idle
  | want (b : BufId) (key : ℕ × ℕ)
  | got (b : BufId) (key : ℕ × ℕ)
  | hold (b : BufId) (key : ℕ × ℕ) (changed : Bool)
  | rel (b : BufId)
  deriving DecidableEq

/-- `log.lh`, `log.outstanding` and `log.size` are what `log_write` reads of the log. `content` is
history: for each block what was passed to `log_write` or `bwrite` last, or else what the disk
held. -/
structure St (U D : Type*) where
  buf : BufId → Buf U D
  links : Links Node
  pc : U → Pc
  disk : ℕ × ℕ → D
  havedisk1 : Bool
  lh : List ℕ
  outstanding : ℤ
  logsize : ℤ
  panic : Option Panic
  content : ℕ × ℕ → D

variable {U D : Type*} [DecidableEq U]

def St.setPc (s : St U D) (u : U) (pc : Pc) : St U D := { s with pc := update s.pc u pc }

def St.setBuf (s : St U D) (b : BufId) (x : Buf U D) : St U D := { s with buf := update s.buf b x }

def St.setContent (s : St U D) (k : ℕ × ℕ) (d : D) : St U D :=
  { s with content := update s.content k d }

/-- The loop of `binit`. -/
def binitLinks : Links Node :=
  (List.finRange NBUF).foldl (fun L b => push L none (some b)) ⟨fun _ => none, fun _ => none⟩

/-- The data of a buffer are not defined before it is read. -/
def binit (disk : ℕ × ℕ → D) (data : BufId → D) (havedisk1 : Bool) (logsize : ℤ) : St U D where
  buf b := ⟨false, false, (0, 0), none, 0, data b⟩
  links := binitLinks
  pc _ := .idle
  disk := disk
  havedisk1 := havedisk1
  lh := []
  outstanding := 0
  logsize := logsize
  panic := none
  content := disk

/-- The first buffer that passes a test, in the order of the pointers. -/
def search (step : Node → Node) (p : BufId → Bool) : Option BufId :=
  (scan step none (fun n => n.any p) (NBUF + 1) (step none)).join

/-- The locked part of `bget`, and the buffer that is returned once its sleep lock is free. -/
def bget (s : St U D) (key : ℕ × ℕ) : Except Panic (BufId × St U D) :=
  match search s.links.next fun b => (s.buf b).key = key with
  | some b => .ok (b, s.setBuf b { s.buf b with refcnt := (s.buf b).refcnt + 1 })
  | none =>
    match search s.links.prev fun b => (s.buf b).refcnt = 0 ∧ (s.buf b).dirty = false with
    | some b => .ok (b, s.setBuf b { s.buf b with key := key, valid := false, dirty := false, refcnt := 1 })
    | none => .error .noBuffers

def iderw (s : St U D) (b : BufId) : Except Panic (St U D) :=
  let x := s.buf b
  if x.valid = true ∧ x.dirty = false then .error .nothingToDo
  else if x.key.1 ≠ 0 ∧ s.havedisk1 = false then .error .noDisk1
  else if x.key.2 ≥ FSSIZE then .error .incorrectBlockno
  else if x.dirty then
    .ok { s.setBuf b { x with valid := true, dirty := false } with disk := update s.disk x.key x.data }
  else .ok (s.setBuf b { x with valid := true, data := s.disk x.key })

/-- The rest of `bread`. -/
def bread (s : St U D) (b : BufId) : Except Panic (St U D) := if (s.buf b).valid then .ok s else iderw s b

def bwrite (s : St U D) (b : BufId) : Except Panic (St U D) := iderw (s.setBuf b { s.buf b with dirty := true }) b

def logWrite (s : St U D) (b : BufId) : Except Panic (St U D) :=
  let blockno := (s.buf b).key.2
  if s.lh.length ≥ LOGSIZE ∨ (s.lh.length : ℤ) ≥ s.logsize - 1 then .error .tooBigATransaction
  else if s.outstanding < 1 then .error .outsideOfTrans
  else .ok { s.setBuf b { s.buf b with dirty := true } with
    lh := if blockno ∈ s.lh then s.lh else s.lh ++ [blockno] }

/-- The locked part of `brelse`. -/
def brelse (s : St U D) (b : BufId) : St U D :=
  let s := s.setBuf b { s.buf b with refcnt := (s.buf b).refcnt - 1 }
  if (s.buf b).refcnt = 0 then { s with links := push (unlink s.links (some b)) none (some b) } else s

/-- `begin_op`, `end_op` and `commit` do the same to all users as `log`: the header of the log
becomes what they make it. -/
inductive Act (D : Type*)
  | bget (dev blockno : ℕ) | acquiresleep | bread | modify (d : D) | logWrite | bwrite | releasesleep | brelse
  | log (lh : List ℕ) (outstanding : ℤ)

/-- A panic stops the machine. -/
def St.orPanic (s : St U D) : Except Panic (St U D) → St U D
  | .ok t => t
  | .error e => { s with panic := some e }

def next (s : St U D) (u : U) (a : Act D) : Option (St U D) :=
  if s.panic.isSome then none else
  match a, s.pc u with
  | .bget dev blockno, .idle => some (s.orPanic ((bget s (dev, blockno)).map fun (b, t) => t.setPc u (.want b (dev, blockno))))
  | .acquiresleep, .want b k =>
    if (s.buf b).lock = none then some ((s.setBuf b { s.buf b with lock := some u }).setPc u (.got b k)) else none
  | .bread, .got b k => some (s.orPanic ((bread s b).map fun t => t.setPc u (.hold b k false)))
  | .modify d, .hold b k _ => some ((s.setBuf b { s.buf b with data := d }).setPc u (.hold b k true))
  | .logWrite, .hold b k _ =>
    some (s.orPanic ((logWrite s b).map fun t => (t.setContent k (s.buf b).data).setPc u (.hold b k false)))
  | .bwrite, .hold b k _ =>
    some (s.orPanic ((bwrite s b).map fun t => (t.setContent k (s.buf b).data).setPc u (.hold b k false)))
  | .releasesleep, .hold b _ false => some ((s.setBuf b { s.buf b with lock := none }).setPc u (.rel b))
  | .brelse, .rel b => some ((brelse s b).setPc u .idle)
  | .log lh outstanding, _ => some { s with lh := lh, outstanding := outstanding }
  | _, _ => none

def Step (s : St U D) (l : U × Act D) (t : St U D) : Prop := next s l.1 l.2 = some t

/-! ### What a change leaves alone -/

section Apply

variable (s : St U D) (b i : BufId) (x : Buf U D) (k k' : ℕ × ℕ) (d : D) (u v : U) (c : Pc)

@[grind =] lemma setPc_pc : (s.setPc u c).pc v = if v = u then c else s.pc v :=
  Function.update_apply ..

@[grind =] lemma setPc_buf : (s.setPc u c).buf i = s.buf i := rfl

@[grind =] lemma setPc_disk : (s.setPc u c).disk k = s.disk k := rfl

@[grind =] lemma setPc_content : (s.setPc u c).content k = s.content k := rfl

omit [DecidableEq U]

@[grind =] lemma setBuf_buf : (s.setBuf b x).buf i = if i = b then x else s.buf i :=
  Function.update_apply ..

@[grind =] lemma setBuf_pc : (s.setBuf b x).pc v = s.pc v := rfl

@[grind =] lemma setBuf_disk : (s.setBuf b x).disk k = s.disk k := rfl

@[grind =] lemma setBuf_content : (s.setBuf b x).content k = s.content k := rfl

@[grind =] lemma setContent_content :
    (s.setContent k d).content k' = if k' = k then d else s.content k' :=
  Function.update_apply ..

@[grind =] lemma setContent_buf : (s.setContent k d).buf i = s.buf i := rfl

@[grind =] lemma setContent_pc : (s.setContent k d).pc v = s.pc v := rfl

@[grind =] lemma setContent_disk : (s.setContent k d).disk k' = s.disk k' := rfl

end Apply

/-! ### What a step can do -/

/-- The buffer a user refers to, and whether it has the sleep lock. -/
def Pc.place : Pc → Place BufId
  | .idle => none
  | .want b _ | .rel b => some (b, false)
  | .got b _ | .hold b _ _ => some (b, true)

/-- The block a user asked for, with the buffer it got. -/
def Pc.asked : Pc → Option (BufId × (ℕ × ℕ))
  | .want b k | .got b k | .hold b k _ => some (b, k)
  | _ => none

inductive Eff (s : St U D) (u : U) : Act D → St U D → Prop
  | panic (a : Act D) (e : Panic) : Eff s u a { s with panic := some e }
  | hit (dev blockno : ℕ) (b : BufId) (hpc : s.pc u = .idle)
      (hb : search s.links.next (fun b => (s.buf b).key = (dev, blockno)) = some b) :
      Eff s u (.bget dev blockno)
        ((s.setBuf b { s.buf b with refcnt := (s.buf b).refcnt + 1 }).setPc u (.want b (dev, blockno)))
  | recycle (dev blockno : ℕ) (b : BufId) (hpc : s.pc u = .idle)
      (hno : search s.links.next (fun b => (s.buf b).key = (dev, blockno)) = none)
      (hb : search s.links.prev (fun b => (s.buf b).refcnt = 0 ∧ (s.buf b).dirty = false) = some b) :
      Eff s u (.bget dev blockno)
        ((s.setBuf b { s.buf b with key := (dev, blockno), valid := false, dirty := false, refcnt := 1 }).setPc u
          (.want b (dev, blockno)))
  | acquire (b : BufId) (k : ℕ × ℕ) (hpc : s.pc u = .want b k) (hlock : (s.buf b).lock = none) :
      Eff s u .acquiresleep ((s.setBuf b { s.buf b with lock := some u }).setPc u (.got b k))
  | cached (b : BufId) (k : ℕ × ℕ) (hpc : s.pc u = .got b k) (hv : (s.buf b).valid = true) :
      Eff s u .bread (s.setPc u (.hold b k false))
  | read (b : BufId) (k : ℕ × ℕ) (hpc : s.pc u = .got b k) (hv : (s.buf b).valid = false)
      (hd : (s.buf b).dirty = false) :
      Eff s u .bread ((s.setBuf b { s.buf b with valid := true, data := s.disk (s.buf b).key }).setPc u
        (.hold b k false))
  | writeBack (b : BufId) (k : ℕ × ℕ) (t : St U D) (hpc : s.pc u = .got b k) (hv : (s.buf b).valid = false)
      (hd : (s.buf b).dirty = true) : Eff s u .bread t
  | modify (b : BufId) (k : ℕ × ℕ) (c : Bool) (d : D) (hpc : s.pc u = .hold b k c) :
      Eff s u (.modify d) ((s.setBuf b { s.buf b with data := d }).setPc u (.hold b k true))
  | logWrite (b : BufId) (k : ℕ × ℕ) (c : Bool) (lh : List ℕ) (hpc : s.pc u = .hold b k c) :
      Eff s u .logWrite { ((s.setBuf b { s.buf b with dirty := true }).setContent k (s.buf b).data).setPc u
        (.hold b k false) with lh := lh }
  | bwrite (b : BufId) (k : ℕ × ℕ) (c : Bool) (hpc : s.pc u = .hold b k c) :
      Eff s u .bwrite { ((s.setBuf b { s.buf b with valid := true, dirty := false }).setContent k
        (s.buf b).data).setPc u (.hold b k false) with
          disk := update s.disk (s.buf b).key (s.buf b).data }
  | release (b : BufId) (k : ℕ × ℕ) (hpc : s.pc u = .hold b k false) :
      Eff s u .releasesleep ((s.setBuf b { s.buf b with lock := none }).setPc u (.rel b))
  | keep (b : BufId) (hpc : s.pc u = .rel b) :
      Eff s u .brelse ((s.setBuf b { s.buf b with refcnt := (s.buf b).refcnt - 1 }).setPc u .idle)
  | last (b : BufId) (hpc : s.pc u = .rel b) (href : (s.buf b).refcnt - 1 = 0) :
      Eff s u .brelse { (s.setBuf b { s.buf b with refcnt := (s.buf b).refcnt - 1 }).setPc u .idle with
        links := push (unlink s.links (some b)) none (some b) }
  | log (lh : List ℕ) (outstanding : ℤ) :
      Eff s u (.log lh outstanding) { s with lh := lh, outstanding := outstanding }

variable {s t : St U D} {u : U} {a : Act D}

variable {b : BufId} {k : ℕ × ℕ} {pc : Pc}

omit [DecidableEq U] in
/-- The calls of `iderw` that come back. -/
lemma iderw_ok (h : iderw s b = .ok t) :
    ((s.buf b).dirty = true ∧ t = { s.setBuf b { s.buf b with valid := true, dirty := false } with
      disk := update s.disk (s.buf b).key (s.buf b).data }) ∨
    ((s.buf b).dirty = false ∧
      t = s.setBuf b { s.buf b with valid := true, data := s.disk (s.buf b).key }) := by
  unfold iderw at h
  dsimp only at h
  split_ifs at h with _ _ _ hd
  · exact .inl ⟨hd, (Except.ok.inj h).symm⟩
  · exact .inr ⟨eq_false_of_ne_true hd, (Except.ok.inj h).symm⟩

lemma bget_eff {dev blockno : ℕ} (hpc : s.pc u = .idle) :
    Eff s u (.bget dev blockno) (s.orPanic
        ((bget s (dev, blockno)).map fun (b, t) => t.setPc u (.want b (dev, blockno)))) := by
  unfold bget
  cases hb : search s.links.next fun b => (s.buf b).key = (dev, blockno) with
  | some b => exact .hit dev blockno b hpc hb
  | none =>
    cases hf : search s.links.prev fun b => (s.buf b).refcnt = 0 ∧ (s.buf b).dirty = false with
    | some b => exact .recycle dev blockno b hpc hb hf
    | none => exact .panic _ .noBuffers

lemma bread_eff (hpc : s.pc u = .got b k) :
    Eff s u .bread (s.orPanic ((bread s b).map fun t => t.setPc u (.hold b k false))) := by
  unfold bread
  split_ifs with hv
  · exact .cached b k hpc hv
  · have hv := eq_false_of_ne_true hv
    cases hi : iderw s b with
    | error e => exact .panic _ e
    | ok t =>
      rcases iderw_ok hi with ⟨hd, rfl⟩ | ⟨hd, rfl⟩
      · exact .writeBack b k _ hpc hv hd
      · exact .read b k hpc hv hd

lemma bwrite_eff {c : Bool} (hpc : s.pc u = .hold b k c) :
    Eff s u .bwrite (s.orPanic ((bwrite s b).map fun t =>
      (t.setContent k (s.buf b).data).setPc u (.hold b k false))) := by
  unfold bwrite
  cases hi : iderw (s.setBuf b { s.buf b with dirty := true }) b with
  | error e => exact .panic _ e
  | ok t =>
    rcases iderw_ok hi with ⟨hd, rfl⟩ | ⟨hd, rfl⟩
    · have hset : (s.setBuf b { s.buf b with dirty := true }).buf b =
        { s.buf b with dirty := true } :=
        update_self ..
      rw [hset]
      simpa [St.setBuf, St.setPc, St.setContent, Except.map, St.orPanic] using Eff.bwrite b k c hpc
    · simp [St.setBuf] at hd

lemma logWrite_eff {c : Bool} (hpc : s.pc u = .hold b k c) :
    Eff s u .logWrite (s.orPanic ((logWrite s b).map fun t =>
      (t.setContent k (s.buf b).data).setPc u (.hold b k false))) := by
  unfold logWrite
  split_ifs
  · exact .panic _ _
  · exact .panic _ _
  · exact .logWrite b k c _ hpc

lemma brelse_eff (hpc : s.pc u = .rel b) : Eff s u .brelse ((brelse s b).setPc u .idle) := by
  unfold brelse
  dsimp only
  split_ifs with href
  · exact .last b hpc (by simpa [St.setBuf] using href)
  · exact .keep b hpc

lemma next_eff (h : Step s (u, a) t) : Eff s u a t := by
  change next s u a = some t at h
  unfold next at h
  split_ifs at h
  split at h
  all_goals first | cases h; done | skip
  case h_1 hpc =>
    cases h
    exact bget_eff hpc
  case h_2 hpc =>
    split_ifs at h with hl
    cases h
    exact .acquire _ _ hpc hl
  all_goals cases h
  case h_3 hpc => exact bread_eff hpc
  case h_4 hpc => exact .modify _ _ _ _ hpc
  case h_5 hpc => exact logWrite_eff hpc
  case h_6 hpc => exact bwrite_eff hpc
  case h_7 hpc => exact .release _ _ hpc
  case h_8 hpc => exact brelse_eff hpc
  case h_9 => exact .log _ _

/-! ### References and sleep locks -/

variable [Fintype U]

def Counted (s : St U D) : Prop :=
  Users (fun b => (s.buf b).refcnt) (fun b => (s.buf b).lock) fun u => (s.pc u).place

/-- One user moves and one buffer changes. -/
lemma Counted.set {x : Buf U D} (hbuf : t.buf = update s.buf b x) (hpc : t.pc = update s.pc u pc)
    (h : Users (update (fun b => (s.buf b).refcnt) b x.refcnt)
      (update (fun b => (s.buf b).lock) b x.lock) (update (fun u => (s.pc u).place) u pc.place)) :
    Counted t :=
  Users.update (r := Buf.refcnt) (l := Buf.lock) (q := Pc.place) hbuf hpc h

lemma Counted.stay {x : Buf U D} (hs : Counted s) (hbuf : t.buf = update s.buf b x)
    (hpc : t.pc = update s.pc u pc) (hr : x.refcnt = (s.buf b).refcnt)
    (hl : x.lock = (s.buf b).lock) (hp : pc.place = (s.pc u).place) : Counted t :=
  Users.stay (r := Buf.refcnt) (l := Buf.lock) (q := Pc.place) hs hbuf hpc hr hl hp

/-- The flag `B_DIRTY` comes with `B_VALID`. -/
def Pinned (s : St U D) : Prop := ∀ b, (s.buf b).dirty = true → (s.buf b).valid = true

omit [DecidableEq U] [Fintype U] in
lemma search_some {step : Node → Node} {p : BufId → Bool} (h : search step p = some b) :
    p b = true := by
  have := scan_some (Option.join_eq_some_iff.mp h)
  rwa [Option.any_some] at this

lemma Eff.counted (h : Eff s u a t) (hs : Counted s) (hd : Pinned s) : Counted t := by
  have hplace {pc : Pc} (hpc : s.pc u = pc) : (s.pc u).place = pc.place := congrArg Pc.place hpc
  cases h with
  | panic | log => exact hs
  | writeBack b k t hpc hv hdirty => exact absurd ((hd b hdirty).symm.trans hv) nofun
  | hit dev blockno b hpc => exact .set rfl rfl (by simpa [Pc.place] using hs.enter (hplace hpc) b)
  | recycle dev blockno b hpc hno hb =>
    have hfree : (s.buf b).refcnt = 0 ∧ (s.buf b).dirty = false := by simpa using search_some hb
    exact .set rfl rfl (by simpa [Pc.place, hfree.1] using hs.enter (hplace hpc) b)
  | acquire b k hpc hlock =>
    exact .set rfl rfl (by simpa [Pc.place] using hs.take (hplace hpc) hlock)
  | cached b k hpc => exact hs.stay (update_eq_self b s.buf).symm rfl rfl rfl (hplace hpc).symm
  | read b k hpc => exact hs.stay rfl rfl rfl rfl (hplace hpc).symm
  | modify b k c d hpc => exact hs.stay rfl rfl rfl rfl (hplace hpc).symm
  | logWrite b k c lh hpc => exact hs.stay rfl rfl rfl rfl (hplace hpc).symm
  | bwrite b k c hpc => exact hs.stay rfl rfl rfl rfl (hplace hpc).symm
  | release b k hpc => exact .set rfl rfl (by simpa [Pc.place] using hs.give (hplace hpc))
  | keep b hpc => exact .set rfl rfl (by simpa [Pc.place] using hs.leave (hplace hpc))
  | last b hpc href => exact .set rfl rfl (by simpa [Pc.place] using hs.leave (hplace hpc))

/-! ### The list of buffers -/

variable {l l₁ l₂ : List BufId} {b : BufId} {x : Buf U D} {buf : BufId → Buf U D}

section List

omit [DecidableEq U] [Fintype U]

/-- The buffer has not been used since `binit`. -/
structure Fresh (x : Buf U D) : Prop where
  valid : x.valid = false
  refcnt : x.refcnt = 0
  key : x.key = (0, 0)

/-- Behind a buffer for a block only fresh buffers have the same device and block number. -/
def Shadow (buf : BufId → Buf U D) (i j : BufId) : Prop := (buf i).key = (buf j).key → Fresh (buf j)

structure Order (s : St U D) (l : List BufId) : Prop where
  circle : Circle s.links none (l.map some)
  all : ∀ b, b ∈ l
  shadow : l.Pairwise (Shadow s.buf)

lemma Order.nodup (h : Order s l) : l.Nodup := (List.nodup_cons.mp h.circle.nodup).2.of_map

lemma Order.length (h : Order s l) : (l.map some).length < NBUF + 1 := by
  have := h.nodup.length_le_card
  rw [Fintype.card_fin] at this
  rw [List.length_map]
  exact Nat.lt_succ_of_le this

lemma find_any (l : List BufId) (p : BufId → Bool) :
    ((l.map some).find? fun n => n.any p).join = l.find? p := by
  induction l with
  | nil => rfl
  | cons b l ih =>
    rw [List.map_cons, List.find?_cons, List.find?_cons, Option.any_some]
    cases p b with
    | true => rfl
    | false => exact ih

/-- The loops of `bget` look at the buffers in the order of the list. -/
lemma Order.search_next (h : Order s l) (p : BufId → Bool) : search s.links.next p = l.find? p := by
  rw [search, h.circle.scan_next h.length, find_any]

lemma Order.search_prev (h : Order s l) (p : BufId → Bool) :
    search s.links.prev p = l.reverse.find? p := by
  have hlen : (l.reverse.map some).length < NBUF + 1 := by
    rw [List.map_reverse, List.length_reverse]
    exact h.length
  have hc : Circle s.links.flip none (l.reverse.map some) := by
    rw [List.map_reverse]
    exact h.circle.flip
  rw [← find_any, ← hc.scan_next hlen]
  rfl

lemma Order.split (h : Order s l) (b : BufId) : ∃ l₁ l₂, l = l₁ ++ b :: l₂ ∧ b ∉ l₁ ++ l₂ := by
  obtain ⟨l₁, l₂, rfl⟩ := List.append_of_mem (h.all b)
  exact ⟨l₁, l₂, rfl, (List.nodup_cons.mp (List.perm_middle.nodup_iff.mp h.nodup)).1⟩

lemma shadow_other (hb : b ∉ l) (h : l.Pairwise (Shadow buf)) :
    l.Pairwise (Shadow (update buf b x)) :=
  h.imp_of_mem fun hi hj hij => by grind [Shadow]

/-- A buffer changes in its place. -/
lemma shadow_set (h : (l₁ ++ b :: l₂).Pairwise (Shadow buf)) (hb : b ∉ l₁ ++ l₂)
    (h₁ : ∀ i ∈ l₁, (buf i).key ≠ x.key) (h₂ : ∀ j ∈ l₂, x.key = (buf j).key → Fresh (buf j)) :
    (l₁ ++ b :: l₂).Pairwise (Shadow (update buf b x)) := by
  rw [List.pairwise_append, List.pairwise_cons] at h ⊢
  obtain ⟨hl₁, ⟨-, hl₂⟩, h₁₂⟩ := h
  refine ⟨shadow_other (by grind) hl₁, ⟨fun j hj => ?_, shadow_other (by grind) hl₂⟩, fun i hi j hj => ?_⟩
  · grind [Shadow]
  · have := h₁₂ i hi j hj
    grind [Shadow]

/-- A buffer changes and comes to the front. -/
lemma shadow_front (h : (l₁ ++ b :: l₂).Pairwise (Shadow buf)) (hb : b ∉ l₁ ++ l₂)
    (hj : ∀ j ∈ l₁ ++ l₂, x.key = (buf j).key → Fresh (buf j)) :
    (b :: (l₁ ++ l₂)).Pairwise (Shadow (update buf b x)) := by
  refine List.pairwise_cons.mpr ⟨fun j hmem => by grind [Shadow], shadow_other hb (h.sublist ?_)⟩
  exact List.Sublist.append_left (List.sublist_cons_self b l₂) l₁

/-- A buffer that has been used is the first of its block. -/
lemma shadow_before (h : (l₁ ++ b :: l₂).Pairwise (Shadow buf)) (hb : ¬Fresh (buf b)) :
    (∀ i ∈ l₁, (buf i).key ≠ (buf b).key) ∧
      ∀ j ∈ l₂, (buf b).key = (buf j).key → Fresh (buf j) := by
  obtain ⟨-, hl₂, h₁₂⟩ := List.pairwise_append.mp h
  exact ⟨fun i hi hk => hb (h₁₂ i hi b List.mem_cons_self hk), (List.pairwise_cons.mp hl₂).1⟩

lemma Order.twin (h : Order s l) (hb : ¬Fresh (s.buf b)) {i : BufId} (hi : i ≠ b)
    (hk : (s.buf i).key = (s.buf b).key) : Fresh (s.buf i) := by
  obtain ⟨l₁, l₂, rfl, -⟩ := h.split b
  obtain ⟨h₁, h₂⟩ := shadow_before h.shadow hb
  rcases List.mem_append.mp (h.all i) with hm | hm
  · exact absurd hk (h₁ i hm)
  · exact h₂ i ((List.mem_cons.mp hm).resolve_left hi) hk.symm

/-- A buffer in use changes. -/
lemma Order.touch (h : Order s l) (hb : ¬Fresh (s.buf b)) (hbuf : t.buf = update s.buf b x)
    (hlinks : t.links = s.links) (hk : x.key = (s.buf b).key) : Order t l := by
  obtain ⟨l₁, l₂, rfl, hb'⟩ := h.split b
  obtain ⟨h₁, h₂⟩ := shadow_before h.shadow hb
  refine ⟨hlinks ▸ h.circle, h.all, ?_⟩
  rw [hbuf]
  exact shadow_set h.shadow hb' (hk ▸ h₁) (hk ▸ h₂)

lemma binit_circle (bs : List BufId) (L : Links Node) (l : List BufId)
    (h : Circle L none (l.map some)) (hd : ∀ b ∈ bs, b ∉ l) (hn : bs.Nodup) :
    Circle (bs.foldl (fun L b => push L none (some b)) L) none ((bs.reverse ++ l).map some) := by
  induction bs generalizing L l with
  | nil => exact h
  | cons b bs ih =>
    obtain ⟨hb, hn⟩ := List.nodup_cons.mp hn
    rw [List.reverse_cons, List.append_assoc]
    refine ih _ (b :: l) (h.push ?_) (fun c hc hm => ?_) hn
    · simpa using hd b List.mem_cons_self
    · rcases List.mem_cons.mp hm with rfl | hm
      · exact hb hc
      · exact hd c (List.mem_cons_of_mem b hc) hm

/-- The list that `binit` makes. -/
lemma order_init (disk : ℕ × ℕ → D) (data : BufId → D) (havedisk1 : Bool) (logsize : ℤ) :
    Order (binit disk data havedisk1 logsize : St U D) (List.finRange NBUF).reverse where
  circle := by
    have h := binit_circle (List.finRange NBUF) ⟨fun _ => none, fun _ => none⟩ []
      ⟨⟨rfl, rfl⟩, by simp⟩ (by simp)
      (List.nodup_finRange NBUF)
    rwa [List.append_nil] at h
  all b := List.mem_reverse.mpr (List.mem_finRange b)
  shadow := by
    refine List.pairwise_of_forall fun i j _ => ?_
    exact ⟨rfl, rfl, rfl⟩

end List

omit [DecidableEq U] in
/-- A buffer with a user has been used. -/
lemma Counted.not_fresh (hs : Counted s) {y : Bool} (hu : (s.pc u).place = some (b, y)) :
    ¬Fresh (s.buf b) :=
  fun hf => absurd hf.refcnt (hs.pos hu).ne'

lemma Eff.order (h : Eff s u a t) (hs : Counted s) (hd : Pinned s) (hl : Order s l) :
    ∃ l, Order t l := by
  have hplace {pc : Pc} (hpc : s.pc u = pc) : (s.pc u).place = pc.place := congrArg Pc.place hpc
  cases h with
  | panic | log => exact ⟨l, hl.circle, hl.all, hl.shadow⟩
  | writeBack b k t hpc hv hdirty => exact absurd ((hd b hdirty).symm.trans hv) nofun
  | hit dev blockno b hpc hb =>
    rw [hl.search_next, List.find?_eq_some_iff_append] at hb
    obtain ⟨hk, l₁, l₂, rfl, hbefore⟩ := hb
    obtain ⟨-, hl₂, -⟩ := List.pairwise_append.mp hl.shadow
    have hnd := (List.nodup_cons.mp (List.perm_middle.nodup_iff.mp hl.nodup)).1
    refine ⟨l₁ ++ b :: l₂, hl.circle, hl.all, shadow_set hl.shadow hnd (fun i hi he => ?_)
      (List.pairwise_cons.mp hl₂).1⟩
    have hi' := hbefore i hi
    simp only [decide_eq_true_eq] at hk
    simp [he, hk] at hi'
  | recycle dev blockno b hpc hno hb =>
    rw [hl.search_next, List.find?_eq_none] at hno
    obtain ⟨l₁, l₂, rfl, hnd⟩ := hl.split b
    have hkey (i : BufId) : (s.buf i).key ≠ (dev, blockno) := by simpa using hno i (hl.all i)
    refine ⟨l₁ ++ b :: l₂, hl.circle, hl.all,
      shadow_set hl.shadow hnd (fun i _ => hkey i) fun j _ he => ?_⟩
    exact absurd he.symm (hkey j)
  | acquire b k hpc => exact ⟨l, hl.touch (hs.not_fresh (hplace hpc)) rfl rfl rfl⟩
  | cached b k hpc => exact ⟨l, hl.circle, hl.all, hl.shadow⟩
  | read b k hpc => exact ⟨l, hl.touch (hs.not_fresh (hplace hpc)) rfl rfl rfl⟩
  | modify b k c d hpc => exact ⟨l, hl.touch (hs.not_fresh (hplace hpc)) rfl rfl rfl⟩
  | logWrite b k c lh hpc => exact ⟨l, hl.touch (hs.not_fresh (hplace hpc)) rfl rfl rfl⟩
  | bwrite b k c hpc => exact ⟨l, hl.touch (hs.not_fresh (hplace hpc)) rfl rfl rfl⟩
  | release b k hpc => exact ⟨l, hl.touch (hs.not_fresh (hplace hpc)) rfl rfl rfl⟩
  | keep b hpc => exact ⟨l, hl.touch (hs.not_fresh (hplace hpc)) rfl rfl rfl⟩
  | last b hpc href =>
    obtain ⟨l₁, l₂, rfl, hnd⟩ := hl.split b
    obtain ⟨h₁, h₂⟩ := shadow_before hl.shadow (hs.not_fresh (hplace hpc))
    refine ⟨b :: (l₁ ++ l₂), ?_, fun b' => List.perm_middle.mem_iff.mp (hl.all b'),
      shadow_front hl.shadow hnd ?_⟩
    · have hc := hl.circle
      rw [List.map_append, List.map_cons] at hc
      rw [List.map_cons, List.map_append]
      refine hc.unlink.push ?_
      simpa using hnd
    · intro j hj hk
      rcases List.mem_append.mp hj with hj | hj
      · exact absurd hk.symm (h₁ j hj)
      · exact h₂ j hj hk

/-! ### Contents -/

/-- A valid buffer holds the contents of its block unless its holder is about to pass on others, and
so does the disk if the block is not pinned. -/
structure Good (s : St U D) : Prop where
  asked : ∀ u b k, (s.pc u).asked = some (b, k) → (s.buf b).key = k
  held : ∀ u b k c, s.pc u = .hold b k c → (s.buf b).valid = true
  pinned : Pinned s
  data : ∀ b, (s.buf b).valid = true →
    (s.buf b).data = s.content (s.buf b).key ∨ ∃ u k, s.pc u = .hold b k true
  disk : ∀ k, (∀ b, (s.buf b).key = k → (s.buf b).dirty = false) → s.disk k = s.content k

omit [DecidableEq U] [Fintype U] in
lemma Pc.asked_place (h : pc.asked = some (b, k)) : ∃ y, pc.place = some (b, y) := by
  cases pc with
  | want b' k' | got b' k' | hold b' k' c =>
    cases h
    exact ⟨_, rfl⟩
  | idle | rel => cases h

omit [Fintype U] in
lemma Eff.pc_other (h : Eff s u a t) (hd : Pinned s) {v : U} (hv : v ≠ u) : t.pc v = s.pc v := by
  cases h with
  | writeBack b k t hpc hv hdirty => exact absurd ((hd b hdirty).symm.trans hv) nofun
  | _ => grind

lemma Eff.good (h : Eff s u a t) (hs : Counted s) (hl : Order s l) (hg : Good s) : Good t := by
  obtain ⟨hasked, hheld, hpin, hdata, hdisk⟩ := hg
  unfold Pinned at hpin
  -- a buffer somebody asked for is in use, and no other buffer of its block is valid
  have hused (v : U) (b : BufId) (k : ℕ × ℕ) (hv : (s.pc v).asked = some (b, k)) :
      (s.buf b).refcnt ≠ 0 := by
    obtain ⟨y, hy⟩ := Pc.asked_place hv
    exact (hs.pos hy).ne'
  have htwin (b i : BufId) (k : ℕ × ℕ) (hv : (s.pc u).asked = some (b, k)) (hi : i ≠ b)
      (hk : (s.buf i).key = (s.buf b).key) : (s.buf i).valid = false := by
    obtain ⟨y, hy⟩ := Pc.asked_place hv
    exact (hl.twin (hs.not_fresh hy) hi hk).valid
  have hother (v : U) (hv : v ≠ u) : s.pc v = t.pc v := (h.pc_other hpin hv).symm
  -- the new state as four functions, so that the facts about the old one apply to it
  obtain ⟨t', ht⟩ : ∃ t', t = t' := ⟨t, rfl⟩
  have htb (i : BufId) := congrFun (congrArg St.buf ht) i
  have htp (v : U) := congrFun (congrArg St.pc ht) v
  have htd (k : ℕ × ℕ) := congrFun (congrArg St.disk ht) k
  have htc (k : ℕ × ℕ) := congrFun (congrArg St.content ht) k
  cases h with
  | panic | log => exact ⟨hasked, hheld, hpin, hdata, hdisk⟩
  | writeBack b k t hpc hv hd => exact absurd ((hpin b hd).symm.trans hv) nofun
  | hit dev blockno b hpc hb | recycle dev blockno b hpc hno hb =>
    have hb := search_some hb
    have hholds (v : U) (b : BufId) (k : ℕ × ℕ) (c : Bool) (hv : s.pc v = .hold b k c) :
        (s.buf b).refcnt ≠ 0 := hused v b k (by rw [hv]; rfl)
    rw [ht] at hother ⊢
    have hback (i : BufId) (hi : i ≠ b) : s.buf i = t'.buf i := by grind -linarith
    exact ⟨by grind -linarith [Pc.asked], by grind -linarith, by unfold Pinned; grind -linarith, by grind -linarith, by grind -linarith⟩
  | acquire b k hpc | cached b k hpc | release b k hpc | keep b hpc | last b hpc =>
    rw [ht] at hother ⊢
    have hback (i : BufId) (hi : i ≠ b) : s.buf i = t'.buf i := by grind -linarith
    exact ⟨by grind -linarith [Pc.asked], by grind -linarith, by unfold Pinned; grind -linarith, by grind -linarith, by grind -linarith⟩
  | read b k hpc | modify b k c d hpc | logWrite b k c lh hpc | bwrite b k c hpc =>
    have hk : (s.buf b).key = k := hasked u b k (by rw [hpc]; rfl)
    have htwin (i : BufId) := htwin b i k (by rw [hpc]; rfl)
    have hu := htp u
    have hself := htb b
    rw [ht] at hother ⊢
    have hback (i : BufId) (hi : i ≠ b) : s.buf i = t'.buf i := by grind -linarith
    exact ⟨by grind -linarith [Pc.asked], by grind -linarith, by unfold Pinned; grind -linarith, by grind -linarith, by grind -linarith⟩

/-! ### All runs -/

structure Inv (s : St U D) : Prop where
  counted : Counted s
  order : ∃ l, Order s l
  good : Good s

lemma Eff.inv (h : Eff s u a t) (hs : Inv s) : Inv t := by
  obtain ⟨hc, ⟨l, hl⟩, hg⟩ := hs
  exact ⟨h.counted hc hg.pinned, h.order hc hg.pinned hl, h.good hc hl hg⟩

omit [DecidableEq U] in
lemma inv_init (disk : ℕ × ℕ → D) (data : BufId → D) (havedisk1 : Bool) (logsize : ℤ) :
    Inv (binit disk data havedisk1 logsize : St U D) where
  counted := by
    refine ⟨fun b => ?_, fun b u => ⟨nofun, nofun⟩⟩
    exact (Finset.sum_eq_zero fun u _ => rfl).symm
  order := ⟨_, order_init disk data havedisk1 logsize⟩
  good := ⟨nofun, nofun, nofun, nofun, fun k _ => rfl⟩

lemma reach_inv {disk : ℕ × ℕ → D} {data : BufId → D} {havedisk1 : Bool} {logsize : ℤ}
    (h : Reach Step (binit disk data havedisk1 logsize) s) : Inv s :=
  h.inv (inv_init disk data havedisk1 logsize) fun _ _ _ hs hst => (next_eff hst).inv hs

omit [Fintype U] in
/-- Only `bget` gives a buffer to another block, and only one that is free. -/
lemma Eff.free_of_key (h : Eff s u a t) (hd : Pinned s) {i : BufId} (hi : (t.buf i).key ≠ (s.buf i).key) :
    (s.buf i).refcnt = 0 ∧ (s.buf i).dirty = false := by
  cases h with
  | writeBack b k t hpc hv hdirty => exact absurd ((hd b hdirty).symm.trans hv) nofun
  | recycle dev blockno b hpc hno hb =>
    have hb := search_some hb
    grind
  | _ => grind

/-! ### What a step leaves alone -/

omit [Fintype U] in
/-- Only `log_write` pins a buffer. -/
lemma Eff.dirty_of (h : Eff s u a t) (hd : Pinned s) (ha : a ≠ .logWrite) {i : BufId}
    (hi : (t.buf i).dirty = true) : (s.buf i).dirty = true ∧ (t.buf i).key = (s.buf i).key := by
  cases h with
  | writeBack b k t hpc hv hdirty => exact absurd ((hd b hdirty).symm.trans hv) nofun
  | _ => grind

omit [Fintype U] in
/-- Only the log itself changes `log.outstanding`. -/
lemma Eff.outstanding_eq (h : Eff s u a t) (hd : Pinned s) (ha : ∀ lh o, a ≠ .log lh o) :
    t.outstanding = s.outstanding := by
  cases h with
  | writeBack b k t hpc hv hdirty => exact absurd ((hd b hdirty).symm.trans hv) nofun
  | log lh o => exact absurd rfl (ha lh o)
  | _ => rfl

omit [Fintype U] in
/-- Besides, `log_write` adds to the header. -/
lemma Eff.lh_eq (h : Eff s u a t) (hd : Pinned s) (ha : ∀ lh o, a ≠ .log lh o)
    (hw : a ≠ .logWrite) : t.lh = s.lh := by
  cases h with
  | writeBack b k t hpc hv hdirty => exact absurd ((hd b hdirty).symm.trans hv) nofun
  | log lh o => exact absurd rfl (ha lh o)
  | logWrite => exact absurd rfl hw
  | _ => rfl

omit [Fintype U] in
lemma Step.alive (h : Step s (u, a) t) : s.panic = none := by
  unfold Step next at h
  split_ifs at h with hp
  simpa using hp

omit [Fintype U] in
/-- What `log_write` pins it lists. -/
lemma Step.logged (h : Step s (u, .logWrite) t) (ht : t.panic = none) :
    ∃ b, t.buf = update s.buf b { s.buf b with dirty := true } ∧
      t.lh = if (s.buf b).key.2 ∈ s.lh then s.lh else s.lh ++ [(s.buf b).key.2] := by
  have hs := h.alive
  unfold Step next at h
  rw [if_neg (by simp [hs])] at h
  rcases hpc : s.pc u with _ | _ | _ | ⟨b, k, c⟩ | _ <;> simp only [hpc, reduceCtorEq] at h
  cases h
  refine ⟨b, ?_⟩
  unfold logWrite at ht ⊢
  dsimp only at ht ⊢
  by_cases hbig : s.lh.length ≥ LOGSIZE ∨ (s.lh.length : ℤ) ≥ s.logsize - 1
  · rw [if_pos hbig] at ht
    cases ht
  by_cases hout : s.outstanding < 1
  · rw [if_neg hbig, if_pos hout] at ht
    cases ht
  rw [if_neg hbig, if_neg hout]
  exact ⟨rfl, rfl⟩

omit [DecidableEq U] [Fintype U] in
lemma iderw_error {e : Panic} (h : iderw s b = .error e) : e ≠ .noBuffers := by
  unfold iderw at h
  dsimp only at h
  split_ifs at h <;> obtain rfl := Except.error.inj h <;> exact nofun

omit [DecidableEq U] [Fintype U] in
lemma iderw_panic (h : iderw s b = .ok t) : t.panic = s.panic := by
  rcases iderw_ok h with ⟨-, rfl⟩ | ⟨-, rfl⟩ <;> rfl

omit [DecidableEq U] [Fintype U] in
lemma orPanic_ne {r : Except Panic (St U D)} {f : St U D → St U D}
    (he : ∀ e, r = .error e → e ≠ .noBuffers) (hf : ∀ t, r = .ok t → (f t).panic = none) :
    (s.orPanic (r.map f)).panic ≠ some .noBuffers := by
  cases r with
  | error e => exact fun h => he e rfl (Option.some.inj h)
  | ok t => exact fun h => nomatch (hf t rfl).symm.trans h

section Panics

omit [DecidableEq U] [Fintype U]

variable {f : St U D → St U D}

lemma bread_panic (hs : s.panic = none) (b : BufId) (hf : ∀ t, (f t).panic = t.panic) :
    (s.orPanic ((bread s b).map f)).panic ≠ some .noBuffers := by
  unfold bread
  split_ifs
  · exact orPanic_ne nofun fun t ht => by rw [hf, ← Except.ok.inj ht, hs]
  · exact orPanic_ne (fun e => iderw_error) fun t ht => by rw [hf, iderw_panic ht, hs]

lemma bwrite_panic (hs : s.panic = none) (b : BufId) (hf : ∀ t, (f t).panic = t.panic) :
    (s.orPanic ((bwrite s b).map f)).panic ≠ some .noBuffers := by
  refine orPanic_ne (fun e => iderw_error) fun t ht => ?_
  rw [hf, iderw_panic ht]
  exact hs

lemma logWrite_panic (hs : s.panic = none) (b : BufId) (hf : ∀ t, (f t).panic = t.panic) :
    (s.orPanic ((logWrite s b).map f)).panic ≠ some .noBuffers := by
  unfold logWrite
  split_ifs
  · exact nofun
  · exact nofun
  · refine orPanic_ne nofun fun t ht => ?_
    rw [hf, ← Except.ok.inj ht]
    exact hs

end Panics

omit [Fintype U] in
/-- `bget` panics for want of a buffer only after both its loops, and nothing else does. -/
lemma Step.noBuffers (h : Step s (u, a) t) (ht : t.panic = some .noBuffers) :
    ∃ dev blockno, a = .bget dev blockno ∧
      search s.links.next (fun b => (s.buf b).key = (dev, blockno)) = none ∧
      search s.links.prev (fun b => (s.buf b).refcnt = 0 ∧ (s.buf b).dirty = false) = none := by
  have hs := h.alive
  change next s u a = some t at h
  unfold next at h
  split_ifs at h
  split at h
  all_goals first | cases h; done | skip
  case h_2 =>
    split_ifs at h
    cases h
    cases hs.symm.trans ht
  all_goals cases h
  case h_1 dev blockno hpc =>
    refine ⟨dev, blockno, rfl, ?_⟩
    unfold bget at ht
    cases hn : search s.links.next fun b => (s.buf b).key = (dev, blockno) with
    | some b =>
      rw [hn] at ht
      cases hs.symm.trans ht
    | none =>
      refine ⟨rfl, ?_⟩
      cases hf : search s.links.prev fun b => (s.buf b).refcnt = 0 ∧ (s.buf b).dirty = false with
      | none => rfl
      | some b =>
        rw [hn, hf] at ht
        cases hs.symm.trans ht
  case h_3 => exact absurd ht (bread_panic hs _ fun _ => rfl)
  case h_5 => exact absurd ht (logWrite_panic hs _ fun _ => rfl)
  case h_6 => exact absurd ht (bwrite_panic hs _ fun _ => rfl)
  case h_8 =>
    unfold brelse St.setPc at ht
    dsimp only at ht
    split_ifs at ht <;> cases hs.symm.trans ht
  all_goals cases hs.symm.trans ht

omit [DecidableEq U] [Fintype U] in
lemma Order.length_eq (h : Order s l) : l.length = NBUF := by
  rw [← List.toFinset_card_of_nodup h.nodup, Finset.eq_univ_iff_forall.mpr fun b =>
    List.mem_toFinset.mpr (h.all b),
    Finset.card_univ, Fintype.card_fin]

omit [DecidableEq U] [Fintype U] in
/-- The pointers go through every buffer once. -/
lemma Order.visits (h : Order s l) (b : BufId) : ∃! i, i < NBUF ∧
    s.links.next^[i + 1] none = some b := by
  have hat {i : ℕ} (hi : i < l.length) : s.links.next^[i + 1] none = some (l.get ⟨i, hi⟩) := by
    rw [h.circle.path.iterate (by rwa [List.length_map])]
    simp
  obtain ⟨⟨i, hi⟩, rfl⟩ := List.get_of_mem (h.all b)
  refine ⟨i, ⟨h.length_eq ▸ hi, hat hi⟩, ?_⟩
  rintro j ⟨hj, hjb⟩
  rw [← h.length_eq] at hj
  rw [hat hj, Option.some.injEq, h.nodup.get_inj_iff] at hjb
  exact congrArg Fin.val hjb

/-- **The buffer cache**, after any sequence of calls by any users: `next` goes from the head
through every buffer once and `prev` is its inverse; a block of a device other than `0` is in one
buffer at most; a buffer is given to another block only if nobody refers to it and it is not pinned;
and what a user gets from `bread` is what was passed to `log_write` or `bwrite` for the block last,
or else what the disk held. -/
theorem buffer_cache {disk : ℕ × ℕ → D} {data : BufId → D} {havedisk1 : Bool} {logsize : ℤ}
    (h : Reach Step (binit disk data havedisk1 logsize) s) :
    ((∀ b, ∃! i, i < NBUF ∧ s.links.next^[i + 1] none = some b) ∧ s.links.next^[NBUF + 1] none = none ∧
      ∀ n, s.links.prev (s.links.next n) = n ∧ s.links.next (s.links.prev n) = n) ∧
    (∀ b b', (s.buf b).key = (s.buf b').key → (s.buf b).key.1 ≠ 0 → b = b') ∧
    (∀ u a t, Step s (u, a) t → ∀ b, (t.buf b).key ≠ (s.buf b).key →
      (s.buf b).refcnt = 0 ∧ (s.buf b).dirty = false) ∧
    (∀ u b k, s.pc u = .hold b k false → (s.buf b).key = k ∧ (s.buf b).data = s.content k) := by
  obtain ⟨hc, ⟨l, hl⟩, hg⟩ := reach_inv h
  refine ⟨⟨hl.visits, ?_, fun n => hl.circle.inverse ?_⟩, fun b b' hk hdev => ?_,
    fun u a t hst b hb => (next_eff hst).free_of_key hg.pinned hb, fun u b k hu => ?_⟩
  · have := hl.circle.path.iterate_end
    rwa [List.length_map, hl.length_eq] at this
  · cases n with
    | none => exact List.mem_cons_self
    | some b => exact List.mem_cons_of_mem none (List.mem_map_of_mem (hl.all b))
  · by_contra hne
    have hfresh : Fresh (s.buf b) ∨ Fresh (s.buf b') := by
      by_cases hb : Fresh (s.buf b')
      · exact .inr hb
      · exact .inl (hl.twin hb hne hk)
    rcases hfresh with hf | hf
    · exact hdev (by rw [hf.key])
    · exact hdev (by rw [hk, hf.key])
  · have hk := hg.asked u b k (congrArg Pc.asked hu)
    refine ⟨hk, ?_⟩
    rcases hg.data b (hg.held u b k false hu) with hd | ⟨v, k', hv⟩
    · rw [hd, hk]
    · -- nobody else holds the lock
      obtain rfl := hc.unique (congrArg Pc.place hu) (congrArg Pc.place hv)
      cases hu.symm.trans hv

/-- Two users of the same block, one after the other: the second sees what the first has passed
on. -/
def writeThenRead : List (Bool × Act ℕ) :=
  [(false, .bget 1 7), (false, .acquiresleep), (false, .bread), (true, .bget 1 7), (false, .modify 42),
    (false, .log [] 1), (false, .logWrite), (false, .releasesleep), (true, .acquiresleep), (false, .brelse),
    (true, .bread)]

theorem buffer_cache_shared : ∃ (s : St Bool ℕ) (b : BufId),
    Reach Step (binit (fun _ => 0) (fun _ => 0) true 30) s ∧ s.pc true = .hold b (1, 7) false ∧
      (s.buf b).data = s.content (1, 7) ∧ s.content (1, 7) = 42 := by
  obtain ⟨s, hr, hpc, hc⟩ : ∃ s : St Bool ℕ, Reach Step (binit (fun _ => 0) (fun _ => 0) true 30) s ∧
      s.pc true = .hold ⟨0, by decide⟩ (1, 7) false ∧ s.content (1, 7) = 42 :=
    reach_any writeThenRead (by decide +kernel) fun _ _ => id
  exact ⟨s, _, hr, hpc, ((buffer_cache hr).2.2.2 true _ _ hpc).2, hc⟩

end Xv6.BufCache
