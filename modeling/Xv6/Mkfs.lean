import Xv6.Block
import Xv6.Lib.Memory

/-!
`mkfs.c`: the image of a new file system with files of the host in its root directory.

The host has the byte order of the image, so that `xshort` and `xint` change nothing. Its own
failures are left out: the files can be opened and read, and the image can be written.
-/

namespace Xv6.Mkfs

open Xv6.Lib.Bytes Xv6.Lib.Memory
open Xv6.Fs (BSIZE NDIRECT NINDIRECT MAXFILE DIRSIZ ROOTINO FSSIZE IPB Name slash dot dotdot)

def NINODES : ℕ := 200
def LOGSIZE : ℕ := 30
def T_DIR : ℕ := 1
def T_FILE : ℕ := 2

def nbitmap : ℕ := FSSIZE / (BSIZE * 8) + 1
def ninodeblocks : ℕ := NINODES / IPB + 1
def nlog : ℕ := LOGSIZE
def nmeta : ℕ := 2 + nlog + ninodeblocks + nbitmap
def nblocks : ℕ := FSSIZE - nmeta

/-- `sb.inodestart`. -/
def inodestart : ℕ := 2 + nlog

/-- `sb.bmapstart`. -/
def bmapstart : ℕ := 2 + nlog + ninodeblocks

/-- The image with its length, and the two counters. -/
structure St where
  img : Mem
  len : ℕ
  freeinode : ℕ
  freeblock : ℕ

/-- An assertion fails, or a read or a write does. -/
inductive Exit
  | assert | error
  deriving DecidableEq

abbrev MkfsM := StateT St (Except Exit)

/-! ### Sectors -/

/-- `sec * BSIZE`, a `uint`. -/
def offset (sec : ℕ) : ℕ := sec * BSIZE % 2 ^ 32

def wsect (sec : ℕ) (buf : Mem) : MkfsM Unit :=
  modify fun s =>
    { s with
      img := put s.img (offset sec) (get buf 0 BSIZE)
      len := max s.len (offset sec + BSIZE) }

/-- At the end of the image `read` returns less. -/
def rsect (sec : ℕ) : MkfsM Mem := do
  let s ← get
  if offset sec + BSIZE ≤ s.len then pure fun j => s.img (offset sec + j) else throw .error

/-! ### Inodes

`struct dinode` by its bytes: where the fields are. -/

def DINODE : ℕ := 64
def typeAt : ℕ := 0
def nlinkAt : ℕ := 6
def sizeAt : ℕ := 8
def addrAt (k : ℕ) : ℕ := 12 + 4 * k

def winode (inum : ℕ) (din : Mem) : MkfsM Unit := do
  let bn := inum / IPB + inodestart
  let buf ← rsect bn
  wsect bn (put buf (inum % IPB * DINODE) (get din 0 DINODE))

def rinode (inum : ℕ) : MkfsM Mem := do
  let buf ← rsect (inum / IPB + inodestart)
  pure fun j => buf (inum % IPB * DINODE + j)

/-- The inode `ialloc` writes. -/
def newInode (type : ℕ) : Mem :=
  putNum (putNum (putNum (fun _ => 0) typeAt 2 type) nlinkAt 2 1) sizeAt 4 0

def ialloc (type : ℕ) : MkfsM ℕ := do
  let inum := (← get).freeinode
  modify fun s => { s with freeinode := inum + 1 }
  winode inum (newInode type)
  pure inum

/-! ### Appending -/

/-- `freeblock++`. -/
def nextBlock : MkfsM ℕ := do
  let b := (← get).freeblock
  modify fun s => { s with freeblock := b + 1 }
  pure b

/-- The inode with a block in `addrs[k]`. -/
def fillAddr (din : Mem) (k : ℕ) : MkfsM Mem := do
  if num din (addrAt k) 4 = 0 then
    let b ← nextBlock
    pure (putNum din (addrAt k) 4 b)
  else pure din

/-- The indirect block `a` with a block in entry `k`. -/
def fillEntry (a k : ℕ) : MkfsM Mem := do
  let indirect ← rsect a
  if num indirect (4 * k) 4 = 0 then
    let b ← nextBlock
    wsect a (putNum indirect (4 * k) 4 b)
    pure (putNum indirect (4 * k) 4 b)
  else pure indirect

/-- The block `x` of `iappend`, with the inode. -/
def blockFor (din : Mem) (fbn : ℕ) : MkfsM (ℕ × Mem) := do
  if fbn < NDIRECT then
    let din ← fillAddr din fbn
    pure (num din (addrAt fbn) 4, din)
  else
    let din ← fillAddr din NDIRECT
    let indirect ← fillEntry (num din (addrAt NDIRECT) 4) (fbn - NDIRECT)
    pure (num indirect (4 * (fbn - NDIRECT)) 4, din)

/-- The loop of `iappend`: the offset behind the last byte and the inode. -/
def appendFrom (din : Mem) (off : ℕ) (p : List UInt8) : MkfsM (ℕ × Mem) := do
  if p.length = 0 then pure (off, din)
  else
    let fbn := off / BSIZE
    if fbn < MAXFILE then
      let (x, din) ← blockFor din fbn
      let n1 := min p.length ((fbn + 1) * BSIZE - off)
      let buf ← rsect x
      wsect x (put buf (off - fbn * BSIZE) (p.take n1))
      appendFrom din (off + n1) (p.drop n1)
    else throw .assert
termination_by p.length
decreasing_by
  have : off < (off / BSIZE + 1) * BSIZE := Nat.lt_mul_of_div_lt (Nat.lt_succ_self _) (by decide)
  rw [List.length_drop]
  omega

def iappend (inum : ℕ) (p : List UInt8) : MkfsM Unit := do
  let din ← rinode inum
  let (off, din) ← appendFrom din (num din sizeAt 4) p
  winode inum (putNum din sizeAt 4 off)

/-! ### The bitmap -/

/-- The bitmap with the bit of block `i` set. -/
def setBit (buf : Mem) (i : ℕ) : Mem :=
  Function.update buf (i / 8) (buf (i / 8) ||| 1 <<< UInt8.ofNat (i % 8))

def bitmap (used : ℕ) : Mem := (List.range used).foldl setBit fun _ => 0

def balloc (used : ℕ) : MkfsM Unit := do
  if used < BSIZE * 8 then wsect bmapstart (bitmap used) else throw .assert

/-! ### `main` -/

/-- A file of the host: its name, and what `read` returns of it, call after call. -/
structure HostFile where
  name : List UInt8
  reads : List (List UInt8)
  nul : 0 ∉ name
  sized : ∀ c ∈ reads, 0 < c.length ∧ c.length ≤ BSIZE

def HostFile.contents (f : HostFile) : List UInt8 := f.reads.flatten

/-- The name in the image: a leading `_` is dropped. -/
def HostFile.stored (f : HostFile) : Name :=
  if f.name.head? = some 95 then f.name.drop 1 else f.name

/-- `struct dirent`; `strncpy` fills the name with NULs. -/
def dirent (inum : ℕ) (name : Name) : List UInt8 :=
  leBytes 2 inum ++ (name.take DIRSIZ ++ List.replicate (DIRSIZ - name.length) 0)

/-- `struct superblock`. -/
def superblock : List UInt8 :=
  [FSSIZE, nblocks, NINODES, nlog, 2, inodestart, bmapstart].flatMap (leBytes 4)

def clearSectors : List ℕ → MkfsM Unit
  | [] => pure ()
  | sec :: secs => do
    wsect sec fun _ => 0
    clearSectors secs

@[irreducible] def clearImage : MkfsM Unit := clearSectors (List.range FSSIZE)

def copyReads (inum : ℕ) : List (List UInt8) → MkfsM Unit
  | [] => pure ()
  | c :: cs => do
    iappend inum c
    copyReads inum cs

def copyFile (rootino : ℕ) (f : HostFile) : MkfsM Unit := do
  if slash ∈ f.name then throw .assert
  else
    let inum ← ialloc T_FILE
    iappend rootino (dirent inum f.stored)
    copyReads inum f.reads

def copyFiles (rootino : ℕ) : List HostFile → MkfsM Unit
  | [] => pure ()
  | f :: fs => do
    copyFile rootino f
    copyFiles rootino fs

/-- The size of the root directory is rounded up. -/
def fixRoot (rootino : ℕ) : MkfsM Unit := do
  let din ← rinode rootino
  let off := num din sizeAt 4
  winode rootino (putNum din sizeAt 4 ((off / BSIZE + 1) * BSIZE))

def main (files : List HostFile) : MkfsM Unit := do
  modify fun s => { s with freeblock := nmeta }
  clearImage
  wsect 1 (put (fun _ => 0) 0 superblock)
  let rootino ← ialloc T_DIR
  if rootino ≠ ROOTINO then throw .assert
  else
    iappend rootino (dirent rootino dot)
    iappend rootino (dirent rootino dotdot)
    copyFiles rootino files
    fixRoot rootino
    balloc (← get).freeblock

/-- The state in which `mkfs` starts: the image is empty. -/
def St.init : St := ⟨fun _ => 0, 0, 1, 0⟩

/-- The state in which `mkfs` exits with status `0`. -/
def mkfs (files : List HostFile) : Except Exit St := (main files St.init).map Prod.snd

end Xv6.Mkfs
