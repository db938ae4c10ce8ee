import Mathlib.Data.Fintype.BigOperators
import Xv6.Lib.Wp

/-!
Inodes, directories and paths of `fs.c`, with the inode cache and its locks.

What is on the disk, and the functions that read and write the contents of one inode whose lock is
held, are a parameter: `Files`. The slots of the cache are known by the number of the inode they
hold: `room` counts those with no reference. One process runs at a time, and a lock that it finds
taken is its own: it would sleep for ever.
-/

namespace Xv6.Fs

def ROOTINO : ℕ := 1
def BSIZE : ℕ := 512
def NDIRECT : ℕ := 12
def NINDIRECT : ℕ := BSIZE / 4
def MAXFILE : ℕ := NDIRECT + NINDIRECT
def DIRSIZ : ℕ := 14
def NINODE : ℕ := 50
def NOFILE : ℕ := 16
def NFILE : ℕ := 100
def FSSIZE : ℕ := 1000
def CONSOLE : ℤ := 1
def O_RDONLY : ℕ := 0
def O_CREATE : ℕ := 0x200

/-- `sizeof(struct dirent)`. -/
def DIRENT : ℕ := 16

/-- The bytes of a name before its first NUL. -/
abbrev Name := List UInt8

def slash : UInt8 := 47
def dot : Name := [46]
def dotdot : Name := [46, 46]

inductive InodeType
  | free | dir | file | dev
  deriving DecidableEq

structure Dirent where
  inum : ℕ
  name : Name
  deriving DecidableEq

/-- The fields of an inode that system calls look at. -/
structure Info where
  type : InodeType
  major : ℤ
  minor : ℤ
  nlink : ℤ

structure Cache where
  ref : ℕ → ℕ
  valid : ℕ → Bool
  locked : ℕ → Bool
  room : ℕ

/-- What processes hold; `nfile` counts the free slots of the file table and `outstanding` the
operations of the log. Without `dup` and `fork` an open file has one descriptor. -/
structure Procs (P : Type) where
  cwd : P → ℕ
  ofile : P → Fin NOFILE → Option ℕ
  nfile : ℕ
  outstanding : ℕ

structure St (P D : Type) where
  disk : D
  procs : Procs P
  cache : Cache

inductive Panic
  | igetNoInodes | ilock | noType | iunlock | iallocNoInodes | outOfBlocks | freeingFree | bmapRange
  | dirlookupNotDir | dirlookupRead | dirlinkRead | dirlink | isdiremptyRead | unlinkNlink
  | unlinkWritei | createDots | createDirlink
  deriving DecidableEq

/-- How a call ends that does not return. -/
inductive Stop
  | panic (p : Panic)
  | deadlock
  deriving DecidableEq

/-- Link counts are `short`. -/
def wrap16 (n : ℤ) : ℤ := Int.bmod n (2 ^ 16)

def Info.link (x : Info) (n : ℤ) : Info := { x with nlink := wrap16 (x.nlink + n) }

abbrev DiskM (D α : Type) := StateT D (Except Stop) α

/-- The functions on the inodes of a disk `D`. A slot of a directory is known by its index. -/
class Files (D : Type) where
  /-- The inode in memory. -/
  info : D → ℕ → Info
  /-- What `ilock` does with an inode that is not valid. -/
  load : ℕ → DiskM D Unit
  /-- Fields are changed, then `iupdate`. -/
  iupdate : ℕ → (Info → Info) → DiskM D Unit
  /-- The loop of `dirlookup`: the inode and the slot. -/
  search : ℕ → Name → DiskM D (Option (ℕ × ℕ))
  /-- `dirlink` once the name is not there: whether the entry was written. -/
  enter : ℕ → Dirent → DiskM D Bool
  /-- `unlink` clearing a slot. -/
  clear : ℕ → ℕ → DiskM D Bool
  isdirempty : ℕ → DiskM D Bool
  /-- `itrunc`, then the type `0` and `iupdate`. -/
  itrunc : ℕ → DiskM D Unit
  /-- The loop of `ialloc`. -/
  ialloc : InodeType → DiskM D ℕ
  /-- `readi`, of an inode that is no device. -/
  readi : ℕ → ℕ → ℕ → DiskM D Unit

/-! ### The inode cache -/

section Programs

variable {P D : Type}

abbrev FsM (P D α : Type) := StateT (St P D) (Except Stop) α

def stop {α : Type} (p : Panic) : FsM P D α := throw (.panic p)

def onDisk {α : Type} (x : DiskM D α) : FsM P D α := do
  let s ← get
  match x s.disk with
  | .ok (a, d) =>
    set { s with disk := d }
    pure a
  | .error e => throw e

def setCache (f : Cache → Cache) : FsM P D Unit := modify fun s => { s with cache := f s.cache }

def setProcs (f : Procs P → Procs P) : FsM P D Unit := modify fun s => { s with procs := f s.procs }

def Procs.beginOp (p : Procs P) : Procs P := { p with outstanding := p.outstanding + 1 }

def Procs.endOp (p : Procs P) : Procs P := { p with outstanding := p.outstanding - 1 }

def beginOp : FsM P D Unit := setProcs Procs.beginOp

def endOp : FsM P D Unit := setProcs Procs.endOp

def Cache.setRef (c : Cache) (i n : ℕ) : Cache := { c with ref := Function.update c.ref i n }

def Cache.setValid (c : Cache) (i : ℕ) (b : Bool) : Cache :=
  { c with valid := Function.update c.valid i b }

def Cache.setLocked (c : Cache) (i : ℕ) (b : Bool) : Cache :=
  { c with locked := Function.update c.locked i b }

/-- One reference more, in a new slot if there was none. -/
def Cache.hold (c : Cache) (i : ℕ) : Cache :=
  if 0 < c.ref i then c.setRef i (c.ref i + 1)
  else { (c.setRef i 1).setValid i false with room := c.room - 1 }

/-- One reference less. -/
def Cache.drop (c : Cache) (i : ℕ) : Cache :=
  { c.setRef i (c.ref i - 1) with room := if c.ref i = 1 then c.room + 1 else c.room }

def iget (i : ℕ) : FsM P D Unit := do
  let c := (← get).cache
  if c.ref i = 0 ∧ c.room = 0 then stop .igetNoInodes else setCache fun c => c.hold i

def idup (i : ℕ) : FsM P D Unit := setCache fun c => c.setRef i (c.ref i + 1)

def acquiresleep (i : ℕ) : FsM P D Unit := do
  let c := (← get).cache
  if c.locked i then throw .deadlock else setCache fun c => c.setLocked i true

def releasesleep (i : ℕ) : FsM P D Unit := setCache fun c => c.setLocked i false

variable [Files D]

/-- `*ip`. -/
def inode (i : ℕ) : FsM P D Info := do
  return Files.info (← get).disk i

def ilock (i : ℕ) : FsM P D Unit := do
  let c := (← get).cache
  if c.ref i < 1 then stop .ilock
  else
    acquiresleep i
    if c.valid i then pure ()
    else
      onDisk (Files.load i)
      setCache fun c => c.setValid i true
      if (← inode i).type = .free then stop .noType else pure ()

def iunlock (i : ℕ) : FsM P D Unit := do
  let c := (← get).cache
  if c.locked i = false ∨ c.ref i < 1 then stop .iunlock else releasesleep i

def iput (i : ℕ) : FsM P D Unit := do
  acquiresleep i
  let c := (← get).cache
  if c.valid i ∧ (← inode i).nlink = 0 ∧ c.ref i = 1 then
    onDisk (Files.itrunc i)
    setCache fun c => c.setValid i false
    releasesleep i
  else releasesleep i
  setCache fun c => c.drop i

def iunlockput (i : ℕ) : FsM P D Unit := do
  iunlock i
  iput i

def ialloc (type : InodeType) : FsM P D ℕ := do
  let i ← onDisk (Files.ialloc type)
  iget i
  pure i

/-! ### Directories -/

def namecmp (s t : Name) : Bool := s.take DIRSIZ = t.take DIRSIZ

def dirlookup (dp : ℕ) (name : Name) : FsM P D (Option (ℕ × ℕ)) := do
  if (← inode dp).type ≠ .dir then stop .dirlookupNotDir
  else
    match ← onDisk (Files.search dp name) with
    | some (i, off) =>
      iget i
      pure (some (i, off))
    | none => pure none

def dirlink (dp : ℕ) (name : Name) (inum : ℕ) : FsM P D ℤ := do
  match ← dirlookup dp name with
  | some (i, _) =>
    iput i
    pure (-1)
  | none =>
    if ← onDisk (Files.enter dp ⟨inum % 2 ^ 16, name.take DIRSIZ⟩) then pure 0
    else stop .dirlink

/-! ### Paths -/

def skipelem (path : List UInt8) : Option (Name × List UInt8) :=
  let s := path.dropWhile (· = slash)
  if s = [] then none
  else
    some ((s.takeWhile (· ≠ slash)).take DIRSIZ, (s.dropWhile (· ≠ slash)).dropWhile (· = slash))

lemma skipelem_length {path rest : List UInt8} {name : Name}
    (h : skipelem path = some (name, rest)) : rest.length < path.length := by
  unfold skipelem at h
  dsimp only at h
  split_ifs at h with hs
  cases h
  obtain ⟨b, t, hbt⟩ := List.exists_cons_of_ne_nil hs
  have hb : b ≠ slash := by
    have := List.head?_dropWhile_not (· = slash) path
    rw [hbt] at this
    simpa using this
  have h1 : t.length < path.length := by
    have := (List.dropWhile_sublist (l := path) (· = slash)).length_le
    rw [hbt, List.length_cons] at this
    omega
  have h2 := (List.dropWhile_sublist (l := t.dropWhile (· ≠ slash)) (· = slash)).length_le
  have h3 := (List.dropWhile_sublist (l := t) (· ≠ slash)).length_le
  rw [hbt, List.dropWhile_cons_of_pos (by simpa using hb)]
  omega

/-- The loop of `namex` from inode `ip` on, with the name that is left in the buffer. -/
def namexFrom (nameiparent : Bool) (ip : ℕ) (path : List UInt8) : FsM P D (Option (ℕ × Name)) :=
  match _h : skipelem path with
  | none =>
    if nameiparent then do
      iput ip
      pure none
    else pure (some (ip, []))
  | some (name, rest) => do
    ilock ip
    if (← inode ip).type ≠ .dir then
      iunlockput ip
      pure none
    else if nameiparent ∧ rest = [] then
      iunlock ip
      pure (some (ip, name))
    else
      match ← dirlookup ip name with
      | none =>
        iunlockput ip
        pure none
      | some (next, _) =>
        iunlockput ip
        namexFrom nameiparent next rest
termination_by path.length
decreasing_by exact skipelem_length _h

def namex (me : P) (path : List UInt8) (nameiparent : Bool) : FsM P D (Option (ℕ × Name)) := do
  if path.head? = some slash then
    iget ROOTINO
    namexFrom nameiparent ROOTINO path
  else
    let ip := (← get).procs.cwd me
    idup ip
    namexFrom nameiparent ip path

def namei (me : P) (path : List UInt8) : FsM P D (Option ℕ) := do
  return (← namex me path false).map Prod.fst

def nameiparent (me : P) (path : List UInt8) : FsM P D (Option (ℕ × Name)) := namex me path true

end Programs

section Rules

open Xv6.Lib.Wp

variable {P D α : Type} {d : D} {pr : Procs P} {c : Cache} {E : Stop → Prop}

lemma wp_onDisk {x : DiskM D α} {Q : α → St P D → Prop}
    (h : wp x (fun a d' => Q a ⟨d', pr, c⟩) E d) : wp (onDisk x) Q E ⟨d, pr, c⟩ := by
  unfold onDisk
  refine wp_bind (wp_get ?_)
  unfold wp at h
  dsimp only
  rcases hx : x d with e | ⟨a, d'⟩
  · rw [hx] at h
    exact wp_throw h
  · rw [hx] at h
    exact wp_bind (wp_set (wp_pure h))

lemma wp_setCache {f : Cache → Cache} {Q : Unit → St P D → Prop} (h : Q () ⟨d, pr, f c⟩) :
    wp (setCache f) Q E ⟨d, pr, c⟩ := h

lemma wp_setProcs {f : Procs P → Procs P} {Q : Unit → St P D → Prop} (h : Q () ⟨d, f pr, c⟩) :
    wp (setProcs f) Q E ⟨d, pr, c⟩ := h

lemma wp_inode [Files D] {i : ℕ} {Q : Info → St P D → Prop} (h : Q (Files.info d i) ⟨d, pr, c⟩) :
    wp (inode i) Q E ⟨d, pr, c⟩ := h

end Rules

end Xv6.Fs
