import Xv6.Block
import Xv6.Lib.Refs

/-!
The inode cache of `fs.c` under any number of concurrent users, with two copies of every inode: the
one in a slot of the cache and the one in the buffers.

A reference to an inode, from `iget` or `idup` to `iput`, is a thread of its own, so a process that
works on several inodes is several of them. What holds `icache.lock`, and what one function does to
the copies of an inode between two waits, is one step. The work on a locked inode is a list of such
pieces, in the order of the source: `bmap` and `bfree` of single blocks, changes of fields,
`iupdate`. What the blocks of files hold is left out, the block numbers in indirect blocks apart.
-/

namespace Xv6.Icache

open Xv6.Fs (Dinode InodeType BSIZE NDIRECT NINDIRECT MAXFILE NINODE wrap16)
open Xv6.Lib.Run Xv6.Lib.Refs
open Function (update)

inductive Panic
  | igetNoInodes | noType | outOfBlocks | freeingFree | bmapRange

/-! ### Blocks -/

/-- The bitmap, the number of blocks, and the entries of the indirect blocks. -/
structure Space where
  used : ℕ → Bool
  size : ℕ
  entry : ℕ → ℕ → ℕ

/-- The first free block, cleared. -/
def balloc (w : Space) : Except Panic (ℕ × Space) :=
  match (List.range w.size).find? fun b => w.used b = false with
  | some b => .ok (b, { w with used := update w.used b true, entry := update w.entry b fun _ => 0 })
  | none => .error .outOfBlocks

def bfree (w : Space) (b : ℕ) : Except Panic Space :=
  if w.used b = false then .error .freeingFree else .ok { w with used := update w.used b false }

def setAddr (x : Dinode) (k a : ℕ) : Dinode := { x with addrs := update x.addrs k a }

/-- `ip->addrs[k]`, with a new block if there is none. -/
def bmapAddr (x : Dinode) (w : Space) (k : ℕ) : Except Panic (Dinode × Space) :=
  if x.addrs k = 0 then (balloc w).map fun (b, w) => (setAddr x k b, w) else .ok (x, w)

/-- Entry `k` of the indirect block `addr`, with a new block if there is none. -/
def bmapEntry (w : Space) (addr k : ℕ) : Except Panic Space :=
  if w.entry addr k = 0 then
    (balloc w).map fun (b, w) => { w with entry := update w.entry addr (update (w.entry addr) k b) }
  else .ok w

def bmap (x : Dinode) (w : Space) (bn : ℕ) : Except Panic (Dinode × Space) :=
  if bn < NDIRECT then bmapAddr x w bn
  else if bn - NDIRECT < NINDIRECT then do
    let (x, w) ← bmapAddr x w NDIRECT
    let w ← bmapEntry w (x.addrs NDIRECT) (bn - NDIRECT)
    pure (x, w)
  else .error .bmapRange

/-- One turn of the first loop of `itrunc`. -/
def freeAddr (x : Dinode) (w : Space) (k : ℕ) : Except Panic (Dinode × Space) :=
  if x.addrs k = 0 then .ok (x, w) else (bfree w (x.addrs k)).map fun w => (setAddr x k 0, w)

/-- The second loop of `itrunc`, over the entries of the indirect block. -/
def freeEntries (addr : ℕ) : List ℕ → Space → Except Panic Space
  | [], w => .ok w
  | j :: js, w => do
    let w ← if w.entry addr j = 0 then .ok w else bfree w (w.entry addr j)
    freeEntries addr js w

def freeIndirect (x : Dinode) (w : Space) : Except Panic (Dinode × Space) :=
  if x.addrs NDIRECT = 0 then .ok (x, w)
  else do
    let w ← freeEntries (x.addrs NDIRECT) (List.range NINDIRECT) w
    let w ← bfree w (x.addrs NDIRECT)
    pure (setAddr x NDIRECT 0, w)

/-! ### Work on a locked inode -/

/-- A piece of the work. `grow` is the end of `writei`, which sets the size and calls `iupdate` if
the offset has come to lie behind it; `invalidate` is `ip->valid = 0`. -/
inductive Piece
  | bmap (bn : ℕ) | grow (off : ℕ) | freeAddr (k : ℕ) | freeIndirect | setSize (n : ℕ) | setType (type : InodeType)
  | link (n : ℤ) | setNew (major minor : ℤ) | iupdate | invalidate
  deriving DecidableEq

/-- What the holder of the lock works on: the slot, the inode in the buffers and the blocks. -/
structure View where
  valid : Bool
  copy : Dinode
  disk : Dinode
  space : Space

/-- The view after a piece, and what it has put in front of the work left. -/
def Piece.exec (v : View) : Piece → Except Panic (View × List Piece)
  | .bmap bn => (Icache.bmap v.copy v.space bn).map fun (x, w) => ({ v with copy := x, space := w }, [])
  | .grow off =>
    .ok (if off > v.copy.size then ({ v with copy := { v.copy with size := off } }, [.iupdate]) else (v, []))
  | .freeAddr k => (Icache.freeAddr v.copy v.space k).map fun (x, w) => ({ v with copy := x, space := w }, [])
  | .freeIndirect => (Icache.freeIndirect v.copy v.space).map fun (x, w) => ({ v with copy := x, space := w }, [])
  | .setSize n => .ok ({ v with copy := { v.copy with size := n } }, [])
  | .setType type => .ok ({ v with copy := { v.copy with type := type } }, [])
  | .link n => .ok ({ v with copy := { v.copy with nlink := wrap16 (v.copy.nlink + n) } }, [])
  | .setNew major minor => .ok ({ v with copy := { v.copy with major := major, minor := minor, nlink := 1 } }, [])
  | .iupdate => .ok ({ v with disk := v.copy }, [])
  | .invalidate => .ok ({ v with valid := false }, [])

/-- The blocks that the loop of `readi` or `writei` goes through, in at most `fuel` turns. -/
def blocks : ℕ → ℕ → ℕ → List ℕ
  | 0, _, _ => []
  | fuel + 1, off, n =>
    if n = 0 then [] else off / BSIZE :: blocks fuel (off + min n (BSIZE - off % BSIZE)) (n - min n (BSIZE - off % BSIZE))

def readi (x : Dinode) (off n : ℕ) : List Piece :=
  if x.type = .dev then []
  else if off > x.size ∨ (off + n) % 2 ^ 32 < off then []
  else
    let n := if off + n > x.size then x.size - off else n
    (blocks n off n).map .bmap

def writei (x : Dinode) (off n : ℕ) : List Piece :=
  if x.type = .dev then []
  else if off > x.size ∨ (off + n) % 2 ^ 32 < off then []
  else if off + n > MAXFILE * BSIZE then []
  else (blocks n off n).map .bmap ++ if n > 0 then [.grow (off + n)] else []

def itrunc : List Piece := (List.range NDIRECT).map .freeAddr ++ [.freeIndirect, .setSize 0, .iupdate]

/-- What `iput` does with an inode that has no links and no other references. -/
def ifree : List Piece := itrunc ++ [.setType .free, .iupdate, .invalidate]

/-- What is done with a locked inode: `link` is a change of the link count in `sys_link`,
`sys_unlink` or `create`, and `setNew` what `create` does with a new inode. -/
inductive Op
  | readi (off n : ℕ) | writei (off n : ℕ) | itrunc | iupdate | link (n : ℤ) | setNew (major minor : ℤ)

def Op.work (x : Dinode) : Op → List Piece
  | .readi off n => Icache.readi x off n
  | .writei off n => Icache.writei x off n
  | .itrunc => Icache.itrunc
  | .iupdate => [.iupdate]
  | .link n => [.link n, .iupdate]
  | .setNew major minor => [.setNew major minor, .iupdate]

/-! ### The cache -/

abbrev SlotId := Fin NINODE

/-- `key` is the device number and the inode number, `lock` the sleep lock with its holder, and
`copy` what is protected by it. -/
structure Slot (U : Type*) where
  key : ℕ × ℕ
  ref : ℕ
  lock : Option U
  valid : Bool
  copy : Dinode

/-- Where a user is. `ref` has a reference and does nothing; `load` has the lock in `ilock`;
`locked` is between two calls and `work` in one; `put` has the lock in `iput`, `free` frees the
inode there, and `drop` has given back the lock. -/
inductive Pc
  | idle
  | ref (e : SlotId)
  | load (e : SlotId)
  | locked (e : SlotId)
  | work (e : SlotId) (todo : List Piece)
  | put (e : SlotId)
  | free (e : SlotId) (todo : List Piece)
  | drop (e : SlotId)
  deriving DecidableEq

/-- `disk` are the inodes in the buffers. -/
structure St (U : Type*) where
  slot : SlotId → Slot U
  disk : ℕ × ℕ → Dinode
  space : Space
  pc : U → Pc
  panic : Option Panic

variable {U : Type*} [DecidableEq U]

def St.setPc (s : St U) (u : U) (pc : Pc) : St U := { s with pc := update s.pc u pc }

def St.setSlot (s : St U) (e : SlotId) (x : Slot U) : St U := { s with slot := update s.slot e x }

/-- After `iinit`: all slots are free. -/
def iinit (disk : ℕ × ℕ → Dinode) (space : Space) : St U where
  slot _ := ⟨(0, 0), 0, none, false, .new .free⟩
  disk := disk
  space := space
  pc _ := .idle
  panic := none

/-- The slot that `iget` finds, or the empty one it remembers. -/
def iget (s : St U) (key : ℕ × ℕ) : Except Panic (SlotId × St U) :=
  match (List.finRange NINODE).find? fun e => (s.slot e).ref > 0 ∧ (s.slot e).key = key with
  | some e => .ok (e, s.setSlot e { s.slot e with ref := (s.slot e).ref + 1 })
  | none =>
    match (List.finRange NINODE).find? fun e => (s.slot e).ref = 0 with
    | some e => .ok (e, s.setSlot e { s.slot e with key := key, ref := 1, valid := false })
    | none => .error .igetNoInodes

/-- The rest of `ilock`. -/
def load (s : St U) (e : SlotId) : Except Panic (St U) :=
  if (s.slot e).valid then .ok s
  else if (s.disk (s.slot e).key).type = .free then .error .noType
  else .ok (s.setSlot e { s.slot e with valid := true, copy := s.disk (s.slot e).key })

def St.view (s : St U) (e : SlotId) : View :=
  ⟨(s.slot e).valid, (s.slot e).copy, s.disk (s.slot e).key, s.space⟩

def St.setView (s : St U) (e : SlotId) (v : View) : St U :=
  { s.setSlot e { s.slot e with valid := v.valid, copy := v.copy } with
    disk := update s.disk (s.slot e).key v.disk
    space := v.space }

/-- `iput` is about to free the inode. -/
def unlinked (x : Slot U) : Bool := decide (x.valid = true ∧ x.copy.nlink = 0 ∧ x.ref = 1)

/-- `ialloc` is the part of it that writes a free inode; the `iget` that follows is a step of its
own. `idup` copies the reference that another user has. -/
inductive Act (U : Type*)
  | iget (dev inum : ℕ) | idup (v : U) | acquiresleep | load | call (op : Op) | piece | ret | iunlock
  | iput | check | releasesleep | drop | ialloc (dev inum : ℕ) (type : InodeType)

def Pc.slot : Pc → Option SlotId
  | .idle => none
  | .ref e | .load e | .locked e | .work e _ | .put e | .free e _ | .drop e => some e

/-- A panic stops the machine. -/
def St.orPanic (s : St U) : Except Panic (St U) → St U
  | .ok t => t
  | .error e => { s with panic := some e }

/-- A piece of work, and where the user is then. -/
def workStep (s : St U) (u : U) (e : SlotId) (p : Piece) (pc : List Piece → Pc) (todo : List Piece) : St U :=
  s.orPanic ((p.exec (s.view e)).map fun (v, front) => (s.setView e v).setPc u (pc (front ++ todo)))

def next (s : St U) (u : U) (a : Act U) : Option (St U) :=
  if s.panic.isSome then none else
  match a, s.pc u with
  | .iget dev inum, .idle => some (s.orPanic ((iget s (dev, inum)).map fun (e, t) => t.setPc u (.ref e)))
  | .idup v, .idle => (s.pc v).slot.map fun e =>
    (s.setSlot e { s.slot e with ref := (s.slot e).ref + 1 }).setPc u (.ref e)
  | .acquiresleep, .ref e =>
    if (s.slot e).lock = none then some ((s.setSlot e { s.slot e with lock := some u }).setPc u (.load e)) else none
  | .load, .load e => some (s.orPanic ((load s e).map fun t => t.setPc u (.locked e)))
  | .call op, .locked e => some (s.setPc u (.work e (op.work (s.slot e).copy)))
  | .piece, .work e (p :: todo) => some (workStep s u e p (.work e) todo)
  | .ret, .work e [] => some (s.setPc u (.locked e))
  | .iunlock, .locked e => some ((s.setSlot e { s.slot e with lock := none }).setPc u (.ref e))
  | .iput, .ref e =>
    if (s.slot e).lock = none then some ((s.setSlot e { s.slot e with lock := some u }).setPc u (.put e)) else none
  | .check, .put e => some (s.setPc u (.free e (if unlinked (s.slot e) then ifree else [])))
  | .piece, .free e (p :: todo) => some (workStep s u e p (.free e) todo)
  | .releasesleep, .free e [] => some ((s.setSlot e { s.slot e with lock := none }).setPc u (.drop e))
  | .drop, .drop e => some ((s.setSlot e { s.slot e with ref := (s.slot e).ref - 1 }).setPc u .idle)
  | .ialloc dev inum type, _ =>
    if (s.disk (dev, inum)).type = .free then
      some { s with disk := update s.disk (dev, inum) (.new type) }
    else none
  | _, _ => none

def Step (s : St U) (l : U × Act U) (t : St U) : Prop := next s l.1 l.2 = some t

end Xv6.Icache
