import Xv6.FsCalls

/-!
The blocks of the disk: the bitmap, the inodes, and what the blocks of files and directories hold,
with the buffers that a process has locked. The bitmap and the inode blocks are kept as the bits and
inodes they hold; a block is taken with `bread` before it is looked at all the same. `iupdate`
writes an inode through, so that there is one copy of it.
-/

namespace Xv6.Fs

/-- The fields of the super block that `fs.c` uses. -/
structure Super where
  size : ℕ
  ninodes : ℕ
  inodestart : ℕ
  bmapstart : ℕ

def BPB : ℕ := BSIZE * 8

/-- `BSIZE / sizeof(struct dinode)`. -/
def IPB : ℕ := BSIZE / 64

def IBLOCK (i : ℕ) (sb : Super) : ℕ := i / IPB + sb.inodestart

def BBLOCK (b : ℕ) (sb : Super) : ℕ := b / BPB + sb.bmapstart

/-- The bytes of a block. -/
abbrev Block := ℕ → UInt8

/-- Entry `k` of an indirect block. -/
def word (b : Block) (k : ℕ) : ℕ :=
  (b (4 * k)).toNat + 2 ^ 8 * (b (4 * k + 1)).toNat + 2 ^ 16 * (b (4 * k + 2)).toNat +
    2 ^ 24 * (b (4 * k + 3)).toNat

def setWord (b : Block) (k v : ℕ) : Block := fun j =>
  if j / 4 = k then UInt8.ofNat (v / 2 ^ (8 * (j % 4))) else b j

structure Dinode where
  type : InodeType
  major : ℤ
  minor : ℤ
  nlink : ℤ
  size : ℕ
  addrs : ℕ → ℕ

/-- `held` are the buffers that the process has locked, and `logged` the block numbers that it has
passed to `log_write` since `begin_op`. -/
structure Blk where
  sb : Super
  used : ℕ → Bool
  dinode : ℕ → Dinode
  block : ℕ → Block
  held : List ℕ
  logged : List ℕ := []

def Blk.setUsed (s : Blk) (b : ℕ) (v : Bool) : Blk := { s with used := Function.update s.used b v }

def Blk.setDinode (s : Blk) (i : ℕ) (x : Dinode) : Blk :=
  { s with dinode := Function.update s.dinode i x }

def Blk.setBlock (s : Blk) (b : ℕ) (x : Block) : Blk := { s with block := Function.update s.block b x }

def Blk.setHeld (s : Blk) (held : List ℕ) : Blk := { s with held := held }

def Blk.setLogged (s : Blk) (logged : List ℕ) : Blk := { s with logged := logged }

def Blk.log (s : Blk) (b : ℕ) : Blk := s.setLogged (b :: s.logged)

/-- `ip->addrs[k] = a`. -/
def Blk.setAddr (s : Blk) (i k a : ℕ) : Blk :=
  s.setDinode i { s.dinode i with addrs := Function.update (s.dinode i).addrs k a }

def Blk.setSize (s : Blk) (i n : ℕ) : Blk := s.setDinode i { s.dinode i with size := n }

/-! ### Blocks -/

/-- A buffer that the process has locked already is its own: it would sleep for ever. -/
def bread (b : ℕ) : DiskM Blk Unit := do
  let s ← get
  if b ∈ s.held then throw .deadlock else set (s.setHeld (b :: s.held))

def brelse (b : ℕ) : DiskM Blk Unit := modify fun s => s.setHeld (s.held.erase b)

def logWrite (b : ℕ) : DiskM Blk Unit := modify fun s => s.log b

def readsb : DiskM Blk Unit := do
  bread 1
  brelse 1

def bzero (b : ℕ) : DiskM Blk Unit := do
  bread b
  modify fun s => s.setBlock b fun _ => 0
  logWrite b
  brelse b

/-- The first free block from `b` on, among those whose bit is in the same block of the bitmap. -/
def freeBit (used : ℕ → Bool) (b size : ℕ) : Option ℕ :=
  (List.range' b (min BPB (size - b))).find? fun i => used i = false

/-- The loop of `balloc` from block `b` on. -/
def ballocFrom (sb : Super) (b : ℕ) : DiskM Blk ℕ := do
  if b < sb.size then
    bread (BBLOCK b sb)
    match freeBit (← get).used b sb.size with
    | some i =>
      modify fun s => s.setUsed i true
      logWrite (BBLOCK b sb)
      brelse (BBLOCK b sb)
      bzero i
      pure i
    | none =>
      brelse (BBLOCK b sb)
      ballocFrom sb (b + BPB)
  else throw (.panic .outOfBlocks)
termination_by sb.size - b
decreasing_by
  simp only [BPB, BSIZE]
  omega

def balloc : DiskM Blk ℕ := do
  ballocFrom (← get).sb 0

def bfree (b : ℕ) : DiskM Blk Unit := do
  readsb
  let sb := (← get).sb
  bread (BBLOCK b sb)
  if (← get).used b = false then throw (.panic .freeingFree)
  else
    modify fun s => s.setUsed b false
    logWrite (BBLOCK b sb)
    brelse (BBLOCK b sb)

/-! ### Inodes -/

/-- The inode has been changed. -/
def iupdate (i : ℕ) : DiskM Blk Unit := do
  let sb := (← get).sb
  bread (IBLOCK i sb)
  logWrite (IBLOCK i sb)
  brelse (IBLOCK i sb)

/-- `ip->addrs[k]`, with a new block if there is none. -/
def bmapAddr (ip k : ℕ) : DiskM Blk ℕ := do
  let addr := ((← get).dinode ip).addrs k
  if addr = 0 then
    let b ← balloc
    modify fun s => s.setAddr ip k b
    pure b
  else pure addr

/-- Entry `k` of the indirect block `addr`, with a new block if there is none. -/
def bmapEntry (addr k : ℕ) : DiskM Blk ℕ := do
  let a := word ((← get).block addr) k
  if a = 0 then
    let b ← balloc
    modify fun s => s.setBlock addr (setWord (s.block addr) k b)
    logWrite addr
    pure b
  else pure a

def bmap (ip bn : ℕ) : DiskM Blk ℕ := do
  if bn < NDIRECT then bmapAddr ip bn
  else if bn - NDIRECT < NINDIRECT then
    let addr ← bmapAddr ip NDIRECT
    bread addr
    let a ← bmapEntry addr (bn - NDIRECT)
    brelse addr
    pure a
  else throw (.panic .bmapRange)

/-- One turn of the first loop of `itrunc`. -/
def freeAddr (ip k : ℕ) : DiskM Blk Unit := do
  let a := ((← get).dinode ip).addrs k
  if a = 0 then pure ()
  else
    bfree a
    modify fun s => s.setAddr ip k 0

def freeAddrs (ip : ℕ) : List ℕ → DiskM Blk Unit
  | [] => pure ()
  | k :: ks => do
    freeAddr ip k
    freeAddrs ip ks

/-- One turn of the second. -/
def freeEntry (addr k : ℕ) : DiskM Blk Unit := do
  let a := word ((← get).block addr) k
  if a = 0 then pure () else bfree a

def freeEntries (addr : ℕ) : List ℕ → DiskM Blk Unit
  | [] => pure ()
  | k :: ks => do
    freeEntry addr k
    freeEntries addr ks

/-- `itrunc` with the indirect block. -/
def freeIndirect (ip : ℕ) : DiskM Blk Unit := do
  let addr := ((← get).dinode ip).addrs NDIRECT
  if addr = 0 then pure ()
  else
    bread addr
    freeEntries addr (List.range NINDIRECT)
    brelse addr
    bfree addr
    modify fun s => s.setAddr ip NDIRECT 0

def itrunc (ip : ℕ) : DiskM Blk Unit := do
  freeAddrs ip (List.range NDIRECT)
  freeIndirect ip
  modify fun s => s.setSize ip 0
  iupdate ip

/-- What `iput` does with an inode that has no links and no other references. -/
def ifree (ip : ℕ) : DiskM Blk Unit := do
  itrunc ip
  modify fun s => s.setDinode ip { s.dinode ip with type := .free }
  iupdate ip

/-- What `ialloc` writes. -/
def Dinode.new (type : InodeType) : Dinode := ⟨type, 0, 0, 0, 0, fun _ => 0⟩

/-- The loop of `ialloc`. -/
def iallocFrom (type : InodeType) : List ℕ → DiskM Blk ℕ
  | [] => throw (.panic .iallocNoInodes)
  | i :: is => do
    let s ← get
    bread (IBLOCK i s.sb)
    if (s.dinode i).type = .free then
      modify fun s => s.setDinode i (.new type)
      logWrite (IBLOCK i s.sb)
      brelse (IBLOCK i s.sb)
      pure i
    else
      brelse (IBLOCK i s.sb)
      iallocFrom type is

def Blk.ialloc (type : InodeType) : DiskM Blk ℕ := do
  iallocFrom type ((List.range (← get).sb.ninodes).drop 1)

/-! ### Contents -/

/-- The loop of `readi`: `n` bytes from offset `off` on. -/
def readBytes (ip off n : ℕ) : DiskM Blk (List UInt8) := do
  if n = 0 then pure []
  else
    let addr ← bmap ip (off / BSIZE)
    bread addr
    let m := min n (BSIZE - off % BSIZE)
    let s ← get
    brelse addr
    let rest ← readBytes ip (off + m) (n - m)
    pure ((List.range m).map (fun k => s.block addr (off % BSIZE + k)) ++ rest)
termination_by n
decreasing_by
  have := Nat.mod_lt off (show 0 < BSIZE by decide)
  omega

/-- `readi`, of an inode that is no device; `none` is `-1`. -/
def readi (ip off n : ℕ) : DiskM Blk (Option (List UInt8)) := do
  let size := ((← get).dinode ip).size
  if off > size ∨ (off + n) % 2 ^ 32 < off then pure none
  else
    let bytes ← readBytes ip off (if off + n > size then size - off else n)
    pure (some bytes)

/-- `m` bytes of `src` copied to a block, from `off` on. -/
def copyIn (b : Block) (off m : ℕ) (src : List UInt8) : Block := fun j =>
  if off ≤ j ∧ j < off + m then src.getD (j - off) 0 else b j

/-- The loop of `writei`: the offset behind the last byte. -/
def writeBytes (ip off : ℕ) (src : List UInt8) : DiskM Blk ℕ := do
  if src.length = 0 then pure off
  else
    let addr ← bmap ip (off / BSIZE)
    bread addr
    let m := min src.length (BSIZE - off % BSIZE)
    modify fun s => s.setBlock addr (copyIn (s.block addr) (off % BSIZE) m src)
    logWrite addr
    brelse addr
    writeBytes ip (off + m) (src.drop m)
termination_by src.length
decreasing_by
  have := Nat.mod_lt off (show 0 < BSIZE by decide)
  rw [List.length_drop]
  omega

/-- `writei`, of an inode that is no device; `none` is `-1`. -/
def Blk.writei (ip off : ℕ) (src : List UInt8) : DiskM Blk (Option ℕ) := do
  let size := ((← get).dinode ip).size
  if off > size ∨ (off + src.length) % 2 ^ 32 < off then pure none
  else if off + src.length > MAXFILE * BSIZE then pure none
  else
    let last ← writeBytes ip off src
    if 0 < src.length ∧ last > size then
      modify fun s => s.setSize ip last
      iupdate ip
    else pure ()
    pure (some src.length)

/-! ### Directories -/

/-- The number and the name of an entry, up to the first NUL. -/
def decode (bytes : List UInt8) : Dirent :=
  ⟨(bytes.getD 0 0).toNat + 2 ^ 8 * (bytes.getD 1 0).toNat,
    ((bytes.drop 2).take DIRSIZ).takeWhile (· ≠ 0)⟩

/-- `strncpy` fills the name with NULs. -/
def encode (e : Dirent) : List UInt8 :=
  [UInt8.ofNat e.inum, UInt8.ofNat (e.inum / 2 ^ 8)] ++
    (e.name.take DIRSIZ ++ List.replicate (DIRSIZ - e.name.length) 0)

def readEnt (dp k : ℕ) (p : Panic) : DiskM Blk Dirent := do
  match ← readi dp (k * DIRENT) DIRENT with
  | some bytes => if bytes.length = DIRENT then pure (decode bytes) else throw (.panic p)
  | none => throw (.panic p)

/-- The slots of a directory. -/
def slots (x : Dinode) : List ℕ := List.range ((x.size + DIRENT - 1) / DIRENT)

/-- The loop of `dirlookup`. -/
def searchFrom (dp : ℕ) (name : Name) : List ℕ → DiskM Blk (Option (ℕ × ℕ))
  | [] => pure none
  | k :: ks => do
    let e ← readEnt dp k .dirlookupRead
    if e.inum ≠ 0 ∧ namecmp name e.name then pure (some (e.inum, k)) else searchFrom dp name ks

/-- The loop of `dirlink`: the first slot that is free, or the one behind the last. -/
def slotFrom (dp n : ℕ) : List ℕ → DiskM Blk ℕ
  | [] => pure n
  | k :: ks => do
    let e ← readEnt dp k .dirlinkRead
    if e.inum = 0 then pure k else slotFrom dp n ks

/-- The loop of `isdirempty`. -/
def emptyFrom (dp : ℕ) : List ℕ → DiskM Blk Bool
  | [] => pure true
  | k :: ks => do
    let e ← readEnt dp k .isdiremptyRead
    if e.inum ≠ 0 then pure false else emptyFrom dp ks

/-- `writei` of one entry: whether all of it was written. -/
def writeEnt (dp k : ℕ) (bytes : List UInt8) : DiskM Blk Bool := do
  let r ← Blk.writei dp (k * DIRENT) bytes
  pure (r = some DIRENT)

def Dinode.info (x : Dinode) : Info := ⟨x.type, x.major, x.minor, x.nlink⟩

def Dinode.setInfo (x : Dinode) (f : Info) : Dinode :=
  { x with type := f.type, major := f.major, minor := f.minor, nlink := f.nlink }

instance : Files Blk where
  info s i := (s.dinode i).info
  load i := do
    let sb := (← get).sb
    bread (IBLOCK i sb)
    brelse (IBLOCK i sb)
  iupdate i f := do
    modify fun s => s.setDinode i ((s.dinode i).setInfo (f (s.dinode i).info))
    iupdate i
  search dp name := do searchFrom dp name (slots ((← get).dinode dp))
  enter dp e := do
    let ks := slots ((← get).dinode dp)
    let k ← slotFrom dp ks.length ks
    writeEnt dp k (encode e)
  clear dp k := writeEnt dp k (List.replicate DIRENT 0)
  isdirempty dp := do emptyFrom dp ((slots ((← get).dinode dp)).drop 2)
  itrunc i := ifree i
  ialloc type := Blk.ialloc type
  readi i off n := do
    let _ ← readi i off n
    pure ()

end Xv6.Fs
