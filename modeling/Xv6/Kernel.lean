import Xv6.ExecImage
import Xv6.Lib.Threads
import Xv6.ProcTable

/-!
The system calls that move pages: `fork`, `exec`, `exit`, `wait`, `sbrk`, and the pipe and file
descriptor calls of `pipe.c`, `file.c` and `sysfile.c`, as programs of the kernel thread of a
process slot. A step of a program is a critical section, a call of `kalloc` or `kfree`, or a step
on what only the thread can reach, so that the threads interleave as the locks let them.

What a slot of the process table holds is in the memory of the thread that works on it: the thread
of the process, the parent that is forking it, or the one that is reaping it. Inodes and the
contents of files do not appear, except for what `exec` reads.
-/

namespace Xv6.Kernel

open Xv6.Lib.Own Xv6.Lib.Threads Xv6.PageTable Xv6.ProcTable
open Function (update)

def NOFILE : ℕ := 16
def NFILE : ℕ := 100

abbrev Fd := Fin NOFILE
abbrev FileId := Fin NFILE

/-- `type`, with `pipe` and `writable` where they are used. The address of a pipe is the page that
holds it. -/
inductive FileType
  | none
  | pipe (page : ℕ) (writable : Bool)
  | inode
  deriving DecidableEq

structure File where
  ref : ℕ
  type : FileType

structure Pipe where
  page : ℕ
  readopen : Bool
  writeopen : Bool

/-- A process that no thread works on. -/
structure Image where
  vm : Vm
  sz : ℕ
  kstack : Option ℕ
  ofile : Fd → Option FileId
  eip : ℕ
  esp : ℕ

/-- A slot of `ptable`. A `ready` process is runnable and has not run yet; a `live` one is runnable,
running or sleeping; one that is `reaping` is still a zombie in the table. -/
inductive Entry
  | unused
  | embryo
  | ready (img : Image)
  | live
  | zombie (vm : Vm) (kstack : Option ℕ)
  | reaping

def Entry.isUnused : Entry → Bool
  | .unused => true
  | _ => false

def Entry.isReady : Entry → Bool
  | .ready _ => true
  | _ => false

/-- `lock` is the holder of `ptable.lock` where it is held across steps. -/
structure Shared where
  proc : Slot → Entry
  parent : Slot → Option Slot
  lock : Option Slot
  file : FileId → File
  pipes : List Pipe

/-- The variables for files: `f0` and `f1` hold files without a type yet, `rf` and `wf` those that
`pipealloc` has returned. -/
inductive Var
  | f0 | f1 | rf | wf
  deriving DecidableEq

instance : Fintype Var := ⟨{.f0, .f1, .rf, .wf}, fun v => by cases v <;> decide⟩

/-- What only one thread can reach: its process, and the local variables of the system call. `tmp`
is a directory that is being built or taken down, `child` the slot that goes with it, `stack` and
`cofile` its kernel stack and files; `var` are the files held in variables, and `ff` is the end of a
pipe that `fileclose` goes on to close. -/
structure Task where
  self : Option Slot
  vm : Vm
  sz : ℕ
  kstack : Option ℕ
  ofile : Fd → Option FileId
  eip : ℕ
  esp : ℕ
  tmp : Vm
  child : Option Slot
  stack : Option ℕ
  cofile : Fd → Option FileId
  var : Var → Option FileId
  ff : Option (ℕ × Bool)

/-- A thread without a process. -/
def Task.idle : Task where
  self := none
  vm := Vm.null
  sz := 0
  kstack := none
  ofile _ := none
  eip := 0
  esp := 0
  tmp := Vm.null
  child := none
  stack := none
  cofile _ := none
  var _ := none
  ff := none

def Task.setVar (l : Task) (v : Var) (f : Option FileId) : Task :=
  { l with var := update l.var v f }

def Task.setFf (l : Task) (e : Option (ℕ × Bool)) : Task := { l with ff := e }

abbrev KProg (α : Type) := Prog Shared Task ℕ Panic α

def Shared.setProc (s : Shared) (p : Slot) (e : Entry) : Shared :=
  { s with proc := update s.proc p e }

def Shared.setFile (s : Shared) (f : FileId) (x : File) : Shared :=
  { s with file := update s.file f x }

/-- `initproc` is the first slot `allocproc` finds. -/
def initproc : Slot := ⟨0, NPROC_pos⟩

/-- A step on the shared state that cannot fail. -/
def atomic (guard : Shared → Bool) (u : Shared → Task → Shared × Task) : KProg Unit :=
  .act (fun s _ => guard s) u fun _ _ => .ret ()

/-- `ptable.lock` is free. -/
def Shared.unlocked (s : Shared) : Bool := s.lock.isNone

def always : Shared → Bool := fun _ => true

def onVm {α : Type} (p : VmProg Shared α) : KProg α :=
  p.zoom Task.vm fun v l => { l with vm := v }

def onTmp {α : Type} (p : VmProg Shared α) : KProg α :=
  p.zoom Task.tmp fun v l => { l with tmp := v }

/-! ### `file.c` and `pipe.c` -/

def Pipe.closeEnd (p : Pipe) (writable : Bool) : Pipe :=
  if writable then { p with writeopen := false } else { p with readopen := false }

def Pipe.dead (p : Pipe) : Bool := !p.readopen && !p.writeopen

/-- The pipes without the one at `page`. -/
def otherPipes (pipes : List Pipe) (page : ℕ) : List Pipe := pipes.eraseP fun p => p.page = page

/-- The pipe at `page` after an end of it has been closed. -/
def closedPipe (pipes : List Pipe) (page : ℕ) (writable : Bool) : Option Pipe :=
  (pipes.find? fun p => p.page = page).map fun p => p.closeEnd writable

/-- `pipeclose` up to `kfree`. -/
def closePipe (s : Shared) (page : ℕ) (writable : Bool) : Shared :=
  match closedPipe s.pipes page writable with
  | some p => { s with
      pipes := if p.dead then otherPipes s.pipes page else p :: otherPipes s.pipes page }
  | none => s

def pipeclose (kend page : ℕ) (writable : Bool) : KProg Unit :=
  .act (fun _ _ => true) (fun s l => (closePipe s page writable, l.setFf none)) fun s _ =>
    match closedPipe s.pipes page writable with
    | some p => if p.dead then kfree kend page id else .ret ()
    | none => .ret ()

/-- The first file that is not in use. -/
def freeFile (s : Shared) : Option FileId :=
  (List.finRange NFILE).find? fun f => (s.file f).ref = 0

/-- `filealloc`, with the write of the caller that keeps the file. -/
def filealloc (keep : FileId → Task → Task) : KProg (Option FileId) :=
  .act (fun _ _ => true)
    (fun s l => match freeFile s with
      | some f => (s.setFile f { s.file f with ref := 1 }, keep f l)
      | none => (s, l))
    fun s _ => .ret (freeFile s)

/-- `filedup`, with the write of the caller that keeps the new reference. -/
def filedup (f : FileId) (keep : Task → Task) : KProg Unit :=
  .act (fun _ _ => true)
    (fun s l => if (s.file f).ref < 1 then (s, l)
      else (s.setFile f { s.file f with ref := (s.file f).ref + 1 }, keep l))
    fun s _ => if (s.file f).ref < 1 then .halt .filedup else .ret ()

/-- The end of a pipe that goes with the last reference to a file. -/
def lastEnd (x : File) : Option (ℕ × Bool) :=
  if x.ref = 1 then
    match x.type with
    | .pipe page writable => some (page, writable)
    | _ => none
  else none

/-- The file after `--f->ref`. -/
def File.drop (x : File) : File := if x.ref = 1 then ⟨0, .none⟩ else { x with ref := x.ref - 1 }

/-- `fileclose`, with the write of the caller that forgets the reference. -/
def fileclose (kend : ℕ) (f : FileId) (forget : Task → Task) : KProg Unit :=
  .act (fun _ _ => true)
    (fun s l => if (s.file f).ref < 1 then (s, l)
      else (s.setFile f (s.file f).drop, (forget l).setFf (lastEnd (s.file f))))
    fun s _ => if (s.file f).ref < 1 then .halt .fileclose
      else match lastEnd (s.file f) with
        | some (page, writable) => pipeclose kend page writable
        | none => .ret ()

/-- The pipe at `page` with its files. -/
def newPipe (s : Shared) (f0 f1 : FileId) (page : ℕ) : Shared :=
  { (s.setFile f0 { s.file f0 with type := .pipe page false }).setFile f1
      { s.file f1 with type := .pipe page true } with
    pipes := ⟨page, true, true⟩ :: s.pipes }

/-- `pipealloc`. At `bad` there is no page yet. -/
def pipealloc (kend : ℕ) : KProg (Option (FileId × FileId)) := do
  match ← filealloc fun f l => l.setVar .f0 (some f) with
  | none => pure none
  | some f0 =>
    match ← filealloc fun f l => l.setVar .f1 (some f) with
    | none =>
      fileclose kend f0 fun l => l.setVar .f0 none
      pure none
    | some f1 =>
      match ← Prog.new with
      | none =>
        fileclose kend f0 fun l => l.setVar .f0 none
        fileclose kend f1 fun l => l.setVar .f1 none
        pure none
      | some p =>
        atomic always fun s l =>
          (newPipe s f0 f1 p,
            (((l.setVar .f0 none).setVar .f1 none).setVar .rf (some f0)).setVar .wf (some f1))
        pure (some (f0, f1))

/-- The descriptor `fdalloc` takes. -/
def freeFd (ofile : Fd → Option FileId) : Option Fd :=
  (List.finRange NOFILE).find? fun fd => (ofile fd).isNone

def setFd (l : Task) (fd : Fd) (f : Option FileId) : Task :=
  { l with ofile := update l.ofile fd f }

/-- `sys_pipe` after its arguments have been checked. -/
def pipe (kend : ℕ) : KProg Bool := do
  match ← pipealloc kend with
  | none => pure false
  | some (rf, wf) =>
    match freeFd (← Prog.get).ofile with
    | none =>
      fileclose kend rf fun l => l.setVar .rf none
      fileclose kend wf fun l => l.setVar .wf none
      pure false
    | some fd0 =>
      Prog.modify fun l => setFd (l.setVar .rf none) fd0 (some rf)
      match freeFd (← Prog.get).ofile with
      | none =>
        fileclose kend rf fun l => setFd l fd0 none
        fileclose kend wf fun l => l.setVar .wf none
        pure false
      | some fd1 =>
        Prog.modify fun l => setFd (l.setVar .wf none) fd1 (some wf)
        pure true

/-- The file descriptor part of `sys_open`; until the call returns only this process knows the
file, so the descriptor and the type are written together. -/
def openFile (kend : ℕ) : KProg Bool := do
  match ← filealloc fun f l => l.setVar .f0 (some f) with
  | none => pure false
  | some f =>
    match freeFd (← Prog.get).ofile with
    | none =>
      fileclose kend f fun l => l.setVar .f0 none
      pure false
    | some fd =>
      atomic always fun s l =>
        (s.setFile f { s.file f with type := .inode }, setFd (l.setVar .f0 none) fd (some f))
      pure true

/-- `sys_close`. -/
def close (kend : ℕ) (fd : Fd) : KProg Bool := do
  match (← Prog.get).ofile fd with
  | none => pure false
  | some f =>
    fileclose kend f fun l => setFd l fd none
    pure true

/-- `sys_dup`; the new descriptor is written together with the new reference. -/
def dup (fd : Fd) : KProg Bool := do
  let l ← Prog.get
  match l.ofile fd, freeFd l.ofile with
  | some f, some fd' =>
    filedup f fun l => setFd l fd' (some f)
    pure true
  | _, _ => pure false

/-! ### `proc.c` -/

/-- The slot `allocproc` takes. -/
def unusedSlot (s : Shared) : Option Slot := first fun p => (s.proc p).isUnused

/-- `np->state = UNUSED` of a process that was being made. -/
def dropSlot (np : Slot) : KProg Unit :=
  atomic always fun s l => (s.setProc np .unused, { l with child := none })

def allocproc : KProg (Option Slot) :=
  .act (fun s _ => s.unlocked)
    (fun s l => match unusedSlot s with
      | some np => (s.setProc np .embryo, { l with child := some np })
      | none => (s, l))
    fun s _ => match unusedSlot s with
      | none => .ret none
      | some np => do
        match ← Prog.new with
        | none =>
          dropSlot np
          pure none
        | some kstack =>
          Prog.modify fun l => { l with stack := some kstack }
          pure (some np)

/-- `kfree` of the kernel stack of the child. -/
def kfreeStack (kend : ℕ) : KProg Unit := do
  match (← Prog.get).stack with
  | some pa => kfree kend pa fun l => { l with stack := none }
  | none => .halt .kfree

/-- The loop of `fork` over the open files. -/
def dupFiles : List Fd → KProg Unit
  | [] => pure ()
  | fd :: rest => do
    match (← Prog.get).ofile fd with
    | some f => filedup f fun l => { l with cofile := update l.cofile fd (some f) }
    | none => pure ()
    dupFiles rest

/-- `np->state = RUNNABLE`: the new process is left to its own thread. -/
def release (np : Slot) (sz eip esp : ℕ) : KProg Unit :=
  atomic Shared.unlocked fun s l =>
    (s.setProc np (.ready ⟨l.tmp, sz, l.stack, l.cofile, eip, esp⟩),
      { l with tmp := Vm.null, child := none, stack := none, cofile := fun _ => none })

def fork (kend : ℕ) (kmap : List Kmap) (me : Slot) : KProg Bool := do
  match ← allocproc with
  | none => pure false
  | some np =>
    let l ← Prog.get
    if ← onTmp (copyuvm kend kmap l.vm l.sz) then
      atomic always fun s l => ({ s with parent := update s.parent np (some me) }, l)
      dupFiles (List.finRange NOFILE)
      release np l.sz l.eip l.esp
      pure true
    else
      kfreeStack kend
      dropSlot np
      pure false

/-- The scheduler switches to a new process for the first time. -/
def forkret (me : Slot) : KProg Unit :=
  .act (fun s _ => s.unlocked && (s.proc me).isReady)
    (fun s l => match s.proc me with
      | .ready img => (s.setProc me .live, { l with
          self := some me
          vm := img.vm
          sz := img.sz
          kstack := img.kstack
          ofile := img.ofile
          eip := img.eip
          esp := img.esp })
      | _ => (s, l))
    fun _ _ => .ret ()

/-- The loop of `exit` over the open files. -/
def closeFiles (kend : ℕ) : List Fd → KProg Unit
  | [] => pure ()
  | fd :: rest => do
    match (← Prog.get).ofile fd with
    | some f => fileclose kend f fun l => setFd l fd none
    | none => pure ()
    closeFiles kend rest

def exit (kend : ℕ) (me : Slot) : KProg Unit :=
  if me = initproc then .halt .initExiting
  else do
    closeFiles kend (List.finRange NOFILE)
    atomic Shared.unlocked fun s l =>
      ({ s.setProc me (.zombie l.vm l.kstack) with
          parent := fun p => if s.parent p = some me then some initproc else s.parent p },
        { l with self := none, vm := Vm.null, sz := 0, kstack := none })

/-- The zombie that the scan of `wait` finds. -/
def zombieChild (s : Shared) (me : Slot) : Option (Slot × Vm × Option ℕ) :=
  (List.finRange NPROC).findSome? fun p =>
    if s.parent p = some me then
      match s.proc p with
      | .zombie vm kstack => some (p, vm, kstack)
      | _ => none
    else none

def hasKids (s : Shared) (me : Slot) : Bool := (first fun p => s.parent p = some me).isSome

/-- `wait`. As long as there is only to sleep nothing changes, so the loop is a wait for the
condition on which it ends. -/
def wait (kend : ℕ) (me : Slot) (killed : Bool) : KProg Bool :=
  .act (fun s _ => s.unlocked && ((zombieChild s me).isSome || !hasKids s me || killed))
    (fun s l => match zombieChild s me with
      | some (p, vm, kstack) => ({ s.setProc p .reaping with lock := some me },
          { l with child := some p, tmp := vm, stack := kstack })
      | none => (s, l))
    fun s _ => match zombieChild s me with
      | none => .ret false
      | some (p, _, _) => do
        kfreeStack kend
        onTmp (freevm kend)
        atomic always fun s l =>
          ({ s.setProc p .unused with parent := update s.parent p none, lock := none },
            { l with child := none })
        pure true

/-- `growproc`. -/
def growproc (kend : ℕ) (n : ℤ) : KProg ℤ := do
  let sz := (← Prog.get).sz
  let newsz := ((sz + n) % 2 ^ 32).toNat
  if n > 0 then
    let sz ← onVm (allocuvm kend sz newsz)
    if sz = 0 then pure (-1)
    else
      Prog.modify fun l => { l with sz := sz }
      pure 0
  else if n < 0 then
    let sz ← onVm (deallocuvm kend sz newsz)
    if sz = 0 then pure (-1)
    else
      Prog.modify fun l => { l with sz := sz }
      pure 0
  else
    Prog.modify fun l => { l with sz := sz }
    pure 0

/-- The word at address `0` of the process. -/
def zeroWord (l : Vm) : Option ℕ :=
  if present (l.dir.pte 0) then
    some (field ((List.range 4).map (l.mem (pteAddr (l.dir.pte 0)))) 0 4)
  else none

/-- `exec` of a file that reads as `ip`, or that `namei` does not find. -/
def exec (kend : ℕ) (kmap : List Kmap) (ip : Option Readi) (argv : List (List UInt8)) : KProg Bool :=
  match ip with
  | none => pure false
  | some ip => do
    let l ← Prog.get
    match ← onTmp (execImage kend kmap (zeroWord l.vm) ip argv) with
    | none => pure false
    | some c =>
      Prog.modify fun l => { l with vm := l.tmp, tmp := l.vm, sz := c.sz, eip := c.entry, esp := c.sp }
      onTmp (freevm kend)
      pure true

/-- `userinit`: the first process is left to be scheduled. -/
def userinit (kend : ℕ) (kmap : List Kmap) (init : List UInt8) : KProg Unit := do
  match ← allocproc with
  | none => .halt .nullDeref
  | some p =>
    if ← onTmp (setupkvm kend kmap) then
      onTmp (inituvm init)
      release p PGSIZE 0 PGSIZE
    else .halt .userinitMemory

inductive Call
  | forkret
  | fork
  | exec (ip : Option Readi) (argv : List (List UInt8))
  | exit
  | wait (killed : Bool)
  | sbrk (n : ℤ)
  | pipe
  | openFile
  | close (fd : Fd)
  | dup (fd : Fd)

/-- What the thread of slot `me` runs. -/
def body (kend : ℕ) (kmap : List Kmap) (me : Slot) : Call → KProg Unit
  | .forkret => forkret me
  | .fork => do let _ ← fork kend kmap me
  | .exec ip argv => do let _ ← exec kend kmap ip argv
  | .exit => exit kend me
  | .wait killed => do let _ ← wait kend me killed
  | .sbrk n => do let _ ← growproc kend n
  | .pipe => do let _ ← pipe kend
  | .openFile => do let _ ← openFile kend
  | .close fd => do let _ ← close kend fd
  | .dup fd => do let _ ← dup fd

/-- Only a process makes system calls; `argint` gives a C `int`. -/
def may (_ : Slot) (l : Task) : Call → Bool
  | .forkret => l.self.isNone
  | .sbrk n => l.self.isSome && decide (-2 ^ 31 ≤ n ∧ n < 2 ^ 31)
  | _ => l.self.isSome

/-! ### Boot -/

/-- The loop of `freerange`, with the free list so far. -/
def freeFrom (p vend : ℕ) (free : List ℕ) : List ℕ :=
  if p + PGSIZE ≤ vend then freeFrom (p + PGSIZE) vend (p :: free) else free
termination_by vend - p
decreasing_by unfold PGSIZE at *; omega

def freerange (vstart vend : ℕ) (free : List ℕ) : List ℕ := freeFrom (pgroundup vstart) vend free

/-- `kinit1` and `kinit2`. -/
def kinit (kend : ℕ) : List ℕ := freerange (4 * 1024 * 1024) PHYSTOP (freerange kend (4 * 1024 * 1024) [])

/-- An empty process table, and no open files. -/
def Shared.empty : Shared where
  proc _ := .unused
  parent _ := none
  lock := none
  file _ := ⟨0, .none⟩
  pipes := []

/-- The kernel at the call of `userinit`, which the thread of the first slot makes. -/
def boot (kend : ℕ) (kmap : List Kmap) (init : List UInt8) (free : List ℕ) :
    Machine Slot Shared Task ℕ Panic where
  free := free
  shared := Shared.empty
  loc _ := Task.idle
  prog t := if t = initproc then userinit kend kmap init else .ret ()
  halted := none

end Xv6.Kernel
