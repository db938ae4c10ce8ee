import Xv6.FsCalls

/-!
A disk on which a directory is the list of its entries; of its other contents, and of those of
files, only the number of blocks is kept. The copy of an inode in memory and the one on disk are
one. `mkfs` makes the first such disk.
-/

namespace Xv6.Fs

/-- `blocks` is the number of blocks in use, the indirect one included. -/
structure Inode where
  type : InodeType
  major : ℤ
  minor : ℤ
  nlink : ℤ
  ents : List Dirent
  blocks : ℕ

/-- `space` is the number of free data blocks. -/
structure Disk where
  inode : ℕ → Inode
  space : ℕ
  ninodes : ℕ

def Inode.info (x : Inode) : Info := ⟨x.type, x.major, x.minor, x.nlink⟩

def Inode.setInfo (x : Inode) (f : Info) : Inode :=
  { x with type := f.type, major := f.major, minor := f.minor, nlink := f.nlink }

def Disk.set (d : Disk) (i : ℕ) (x : Inode) : Disk := { d with inode := Function.update d.inode i x }

/-- The inode with its link count changed by `n`. -/
def Inode.link (x : Inode) (n : ℤ) : Inode := { x with nlink := wrap16 (x.nlink + n) }

/-- What `ialloc` writes. -/
def Inode.new (type : InodeType) : Inode := ⟨type, 0, 0, 0, [], 0⟩

/-- `itrunc`, and the type that `iput` writes after it. -/
def Disk.free (d : Disk) (i : ℕ) : Disk :=
  { d.set i { d.inode i with type := .free, ents := [], blocks := 0 } with
    space := d.space + (d.inode i).blocks }

/-- The blocks `bmap` allocates for entry `k`, when the directory ends there: one for the first
entry of a block, and the indirect block with the first that needs it. -/
def newBlocks (k : ℕ) : ℕ :=
  if k * DIRENT % BSIZE = 0 then if k * DIRENT / BSIZE = NDIRECT then 2 else 1 else 0

/-- Entry `k` written, at the end of the directory or before. -/
def Disk.putEnt (d : Disk) (i k : ℕ) (e : Dirent) : Disk :=
  let x := d.inode i
  if k < x.ents.length then d.set i { x with ents := x.ents.set k e }
  else
    { d.set i { x with ents := x.ents ++ [e], blocks := x.blocks + newBlocks k } with
      space := d.space - newBlocks k }

/-- The first free inode. -/
def freeInode (d : Disk) : Option ℕ :=
  ((List.range d.ninodes).drop 1).find? fun i => (d.inode i).type = .free

/-- The loop of `dirlookup` from slot `k` on: the inode and the slot. -/
def findFrom (name : Name) (k : ℕ) : List Dirent → Option (ℕ × ℕ)
  | [] => none
  | e :: es =>
    if e.inum ≠ 0 ∧ namecmp name e.name then some (e.inum, k) else findFrom name (k + 1) es

def find (name : Name) (es : List Dirent) : Option (ℕ × ℕ) := findFrom name 0 es

/-- The slot `dirlink` writes to. -/
def freeSlot (es : List Dirent) : ℕ := es.findIdx fun e => e.inum = 0

def isdirempty (x : Inode) : Bool := (x.ents.drop 2).all fun e => e.inum = 0

def setDisk (f : Disk → Disk) : DiskM Disk Unit := modify f

/-- `writei` of one entry to a directory: whether all of it was written. -/
def writei (dp k : ℕ) (e : Dirent) : DiskM Disk Bool := do
  let d ← get
  if (k + 1) * DIRENT > MAXFILE * BSIZE then pure false
  else if (d.inode dp).ents.length ≤ k ∧ d.space < newBlocks k then throw (.panic .outOfBlocks)
  else
    setDisk fun d => d.putEnt dp k e
    pure true

instance : Files Disk where
  info d i := (d.inode i).info
  load _ := pure ()
  iupdate i f := setDisk fun d => d.set i ((d.inode i).setInfo (f (d.inode i).info))
  search dp name := do return find name ((← get).inode dp).ents
  enter dp e := do writei dp (freeSlot ((← get).inode dp).ents) e
  clear dp k := writei dp k ⟨0, []⟩
  isdirempty i := do return isdirempty ((← get).inode i)
  itrunc i := setDisk fun d => d.free i
  ialloc type := do
    match freeInode (← get) with
    | some i =>
      setDisk fun d => d.set i (.new type)
      pure i
    | none => throw (.panic .iallocNoInodes)
  readi _ _ _ := pure ()

/-! ### A new file system -/

/-- A file that `mkfs` has copied: its name and its blocks. -/
structure Copied where
  name : Name
  blocks : ℕ

/-- The root directory: its entries, then empty ones to the end of the block. -/
def rootEnts (files : List Copied) : List Dirent :=
  [⟨ROOTINO, dot⟩, ⟨ROOTINO, dotdot⟩] ++
    (files.zipIdx 2).map (fun f => ⟨f.2, f.1.name⟩) ++
      List.replicate (32 - (files.length + 2) % 32) ⟨0, []⟩

def rootBlocks (files : List Copied) : ℕ :=
  (rootEnts files).length / 32 + if (rootEnts files).length / 32 > NDIRECT then 1 else 0

/-- What `mkfs` makes of the files, on a disk with `space` blocks left. -/
def mkfs (files : List Copied) (space ninodes : ℕ) : Disk where
  inode i :=
    if i = ROOTINO then ⟨.dir, 0, 0, 1, rootEnts files, rootBlocks files⟩
    else
      match (if i < 2 then none else files[i - 2]?) with
      | some f => ⟨.file, 0, 0, 1, [], f.blocks⟩
      | none => ⟨.free, 0, 0, 0, [], 0⟩
  space := space
  ninodes := ninodes

/-- Every process is in the root directory. -/
def fresh {P : Type} [Fintype P] (d : Disk) : Machine P Disk where
  st :=
    { disk := d
      procs := ⟨fun _ => ROOTINO, fun _ _ => none, NFILE, 0⟩
      cache := ⟨fun i => if i = ROOTINO then Fintype.card P else 0, fun _ => false, fun _ => false,
        NINODE - 1⟩ }
  halted := none

end Xv6.Fs
