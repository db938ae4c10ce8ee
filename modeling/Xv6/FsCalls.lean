import Xv6.Inode

/-!
The system calls of `sysfile.c` that change the tree of directories or what processes hold of it,
each run to its end by one process.
-/

namespace Xv6.Fs

section Calls

variable {P D : Type} [Files D]

/-- `ip->nlink += n; iupdate(ip)`. -/
def addLink (i : ℕ) (n : ℤ) : FsM P D Unit := onDisk (Files.iupdate i fun x => x.link n)

/-- The code at `bad`. -/
def linkBad (ip : ℕ) : FsM P D ℤ := do
  ilock ip
  addLink ip (-1)
  iunlockput ip
  endOp
  pure (-1)

/-- `sys_link` after `begin_op`. -/
def linkOp (me : P) (old new : List UInt8) : FsM P D ℤ := do
  match ← namei me old with
  | none =>
    endOp
    pure (-1)
  | some ip =>
    ilock ip
    if (← inode ip).type = .dir then
      iunlockput ip
      endOp
      pure (-1)
    else
      addLink ip 1
      iunlock ip
      match ← nameiparent me new with
      | none => linkBad ip
      | some (dp, name) =>
        ilock dp
        if (← dirlink dp name ip) < 0 then
          iunlockput dp
          linkBad ip
        else
          iunlockput dp
          iput ip
          endOp
          pure 0

def sysLink (me : P) (old new : List UInt8) : FsM P D ℤ := do
  beginOp
  linkOp me old new

/-- Whether the inode is a directory that is not empty. -/
def hasEntries (ip : ℕ) (x : Info) : FsM P D Bool := do
  if x.type = .dir then
    let empty ← onDisk (Files.isdirempty ip)
    pure !empty
  else pure false

/-- The code of `unlink` at `bad`. -/
def unlinkBad (dp : ℕ) : FsM P D ℤ := do
  iunlockput dp
  endOp
  pure (-1)

/-- `sys_unlink` after `begin_op`. -/
def unlinkOp (me : P) (path : List UInt8) : FsM P D ℤ := do
  match ← nameiparent me path with
  | none =>
    endOp
    pure (-1)
  | some (dp, name) =>
    ilock dp
    if namecmp name dot ∨ namecmp name dotdot then unlinkBad dp
    else
      match ← dirlookup dp name with
      | none => unlinkBad dp
      | some (ip, off) =>
        ilock ip
        let x ← inode ip
        if x.nlink < 1 then stop .unlinkNlink
        else
          if ← hasEntries ip x then
            iunlockput ip
            unlinkBad dp
          else
            if ← onDisk (Files.clear dp off) then
              if x.type = .dir then addLink dp (-1) else pure ()
              iunlockput dp
              addLink ip (-1)
              iunlockput ip
              endOp
              pure 0
            else stop .unlinkWritei

def sysUnlink (me : P) (path : List UInt8) : FsM P D ℤ := do
  beginOp
  unlinkOp me path

/-- The new inode, with the fields that `create` sets. -/
def Info.init (x : Info) (major minor : ℤ) : Info :=
  { x with major := major, minor := minor, nlink := 1 }

/-- The entries `.` and `..`. -/
def createDots (ip dp : ℕ) : FsM P D Unit := do
  addLink dp 1
  if (← dirlink ip dot ip) < 0 then stop .createDots
  else if (← dirlink ip dotdot dp) < 0 then stop .createDots
  else pure ()

/-- The inode is returned locked. -/
def create (me : P) (path : List UInt8) (type : InodeType) (major minor : ℤ) : FsM P D (Option ℕ) := do
  match ← nameiparent me path with
  | none => pure none
  | some (dp, name) =>
    ilock dp
    match ← dirlookup dp name with
    | some (ip, _) =>
      iunlockput dp
      ilock ip
      if type = .file ∧ (← inode ip).type = .file then pure (some ip)
      else
        iunlockput ip
        pure none
    | none =>
      let ip ← ialloc type
      ilock ip
      onDisk (Files.iupdate ip fun x => x.init major minor)
      if type = .dir then createDots ip dp else pure ()
      if (← dirlink dp name ip) < 0 then stop .createDirlink
      else
        iunlockput dp
        pure (some ip)

/-- The first descriptor that is free. -/
def freeFd (ofile : Fin NOFILE → Option ℕ) : Option (Fin NOFILE) :=
  (List.finRange NOFILE).find? fun fd => ofile fd = none

variable [DecidableEq P]

/-- The descriptor `fd` refers to an inode, or to none; `n` more slots of the file table are
free. -/
def Procs.setFd (p : Procs P) (me : P) (fd : Fin NOFILE) (i : Option ℕ) (nfile : ℕ) : Procs P :=
  { p with
    ofile := Function.update p.ofile me (Function.update (p.ofile me) fd i)
    nfile := nfile }

/-- `sys_open` after the inode is found and locked. -/
def openInode (me : P) (ip : ℕ) : FsM P D ℤ := do
  let p := (← get).procs
  match freeFd (p.ofile me) with
  | some fd =>
    if p.nfile = 0 then
      iunlockput ip
      endOp
      pure (-1)
    else
      iunlock ip
      endOp
      setProcs fun p => p.setFd me fd (some ip) (p.nfile - 1)
      pure fd
  | none =>
    iunlockput ip
    endOp
    pure (-1)

/-- `sys_open` after `begin_op`. -/
def openOp (me : P) (path : List UInt8) (omode : ℕ) : FsM P D ℤ := do
  if omode &&& O_CREATE ≠ 0 then
    match ← create me path .file 0 0 with
    | none =>
      endOp
      pure (-1)
    | some ip => openInode me ip
  else
    match ← namei me path with
    | none =>
      endOp
      pure (-1)
    | some ip =>
      ilock ip
      if (← inode ip).type = .dir ∧ omode ≠ O_RDONLY then
        iunlockput ip
        endOp
        pure (-1)
      else openInode me ip

def sysOpen (me : P) (path : List UInt8) (omode : ℕ) : FsM P D ℤ := do
  beginOp
  openOp me path omode

/-- `sys_mkdir` and `sys_mknod` after `begin_op`. -/
def makeOp (me : P) (path : List UInt8) (type : InodeType) (major minor : ℤ) : FsM P D ℤ := do
  match ← create me path type major minor with
  | none =>
    endOp
    pure (-1)
  | some ip =>
    iunlockput ip
    endOp
    pure 0

def sysMkdir (me : P) (path : List UInt8) : FsM P D ℤ := do
  beginOp
  makeOp me path .dir 0 0

def sysMknod (me : P) (path : List UInt8) (major minor : ℤ) : FsM P D ℤ := do
  beginOp
  makeOp me path .dev (wrap16 major) (wrap16 minor)

def Procs.setCwd (p : Procs P) (me : P) (i : ℕ) : Procs P :=
  { p with cwd := Function.update p.cwd me i }

/-- `sys_chdir` after `begin_op`. -/
def chdirOp (me : P) (path : List UInt8) : FsM P D ℤ := do
  match ← namei me path with
  | none =>
    endOp
    pure (-1)
  | some ip =>
    ilock ip
    if (← inode ip).type ≠ .dir then
      iunlockput ip
      endOp
      pure (-1)
    else
      iunlock ip
      iput ((← get).procs.cwd me)
      endOp
      setProcs fun p => p.setCwd me ip
      pure 0

def sysChdir (me : P) (path : List UInt8) : FsM P D ℤ := do
  beginOp
  chdirOp me path

/-- `sys_close` and `fileclose`. -/
def sysClose (me : P) (fd : Fin NOFILE) : FsM P D ℤ := do
  match (← get).procs.ofile me fd with
  | none => pure (-1)
  | some ip =>
    setProcs fun p => p.setFd me fd none (p.nfile + 1)
    beginOp
    iput ip
    endOp
    pure 0

/-- The reads of `exec` and `loaduvm`. Reading the console gives up the lock and takes it again. -/
def execReads (ip : ℕ) : List (ℕ × ℕ) → FsM P D Unit
  | [] => pure ()
  | (off, n) :: reads => do
    let x ← inode ip
    if x.type = .dev then
      if x.major = CONSOLE then
        iunlock ip
        ilock ip
      else pure ()
    else onDisk (Files.readi ip off n)
    execReads ip reads

/-- What `exec` does with inodes, after `begin_op`: `reads` is what it reads of the file before it
fails or has read all, and `loads` whether the rest of it succeeds. -/
def execOp (me : P) (path : List UInt8) (reads : List (ℕ × ℕ)) (loads : Bool) : FsM P D ℤ := do
  match ← namei me path with
  | none =>
    endOp
    pure (-1)
  | some ip =>
    ilock ip
    execReads ip reads
    iunlockput ip
    endOp
    pure (if loads then 0 else -1)

def exec (me : P) (path : List UInt8) (reads : List (ℕ × ℕ)) (loads : Bool) : FsM P D ℤ := do
  beginOp
  execOp me path reads loads

/-- A call and its arguments. -/
inductive Call
  | openFile (path : List UInt8) (omode : ℕ)
  | mkdir (path : List UInt8)
  | mknod (path : List UInt8) (major minor : ℤ)
  | link (old new : List UInt8)
  | unlink (path : List UInt8)
  | chdir (path : List UInt8)
  | close (fd : Fin NOFILE)
  | exec (path : List UInt8) (reads : List (ℕ × ℕ)) (loads : Bool)

def call (me : P) : Call → FsM P D ℤ
  | .openFile path omode => sysOpen me path omode
  | .mkdir path => sysMkdir me path
  | .mknod path major minor => sysMknod me path major minor
  | .link old new => sysLink me old new
  | .unlink path => sysUnlink me path
  | .chdir path => sysChdir me path
  | .close fd => sysClose me fd
  | .exec path reads loads => exec me path reads loads

/-! ### Runs -/

/-- The file system between calls, or how the last one stopped. -/
structure Machine (P D : Type) where
  st : St P D
  halted : Option Stop

/-- One call by one process, to its end. -/
def next (m : Machine P D) (a : P × Call) : Option (Machine P D) :=
  if m.halted.isSome then none else
  match call a.1 a.2 m.st with
  | .ok (_, s) => some { m with st := s }
  | .error e => some { m with halted := some e }

/-- A call of a kind that `ok` allows. -/
def Step (ok : St P D → P → Call → Prop) (m : Machine P D) (a : P × Call) (m' : Machine P D) : Prop :=
  ok m.st a.1 a.2 ∧ next m a = some m'

end Calls

end Xv6.Fs
