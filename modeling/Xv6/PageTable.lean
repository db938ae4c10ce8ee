import Xv6.Lib.Own

/-!
The address spaces of `vm.c`: page directories, page tables and user pages, as programs over the
page allocator of `kalloc.c`.

A directory is a tree: a present directory entry holds its page table together with the physical
address of the page it is in, and a page table holds its 1024 entries as words. The contents of
user pages are kept by physical address. Page addresses are physical, so `V2P` and `P2V` do not
appear. `kfree` and the write that forgets the freed page are one step.
-/

namespace Xv6.PageTable

open Xv6.Lib.Own

def PGSIZE : ℕ := 4096
def KERNBASE : ℕ := 0x80000000
def PHYSTOP : ℕ := 0x20000000
def DEVSPACE : ℕ := 0xFE000000
def NPDENTRIES : ℕ := 1024

def PTE_P : ℕ := 1
def PTE_W : ℕ := 2
def PTE_U : ℕ := 4

/-- `PGROUNDUP` on 32-bit words. -/
def pgroundup (sz : ℕ) : ℕ := (sz + (PGSIZE - 1)) % 2 ^ 32 / PGSIZE * PGSIZE

def pgrounddown (a : ℕ) : ℕ := a / PGSIZE * PGSIZE

def pdx (va : ℕ) : ℕ := va / 2 ^ 22 % 1024

def ptx (va : ℕ) : ℕ := va / 2 ^ 12 % 1024

def pteAddr (w : ℕ) : ℕ := w / PGSIZE * PGSIZE

def pteFlags (w : ℕ) : ℕ := w % PGSIZE

/-- `w & PTE_P`. -/
def present (w : ℕ) : Prop := w % 2 = 1

instance (w : ℕ) : Decidable (present w) := inferInstanceAs (Decidable (w % 2 = 1))

/-- The word `mappages` writes. -/
def pteWord (pa perm : ℕ) : ℕ := pa ||| perm ||| PTE_P

/-- The ways the kernel stops: its panics, and `nullDeref` for the accesses through a null pointer
of `uva2ka` and `inituvm`, after which nothing is known. -/
inductive Panic
  | remap | kfree | freevmNoPgdir | physTooHigh | loaduvmAligned | loaduvmExist | clearpteu
  | copyuvmExist | copyuvmPresent | inituvmPage | filedup | fileclose | initExiting
  | userinitMemory | nullDeref
  deriving DecidableEq

structure Table where
  page : ℕ
  pte : ℕ → ℕ

/-- A page directory; a null pointer is one without a page. -/
structure Dir where
  page : Option ℕ
  tab : ℕ → Option Table

abbrev Page := ℕ → UInt8

structure Vm where
  dir : Dir
  mem : ℕ → Page

def Dir.null : Dir := ⟨none, fun _ => none⟩

def Vm.null : Vm := ⟨Dir.null, fun _ _ => 0⟩

/-- The word `*pte` that `walkpgdir` points to, `0` when there is no page table. -/
def Dir.pte (d : Dir) (va : ℕ) : ℕ :=
  match d.tab (pdx va) with
  | some t => t.pte (ptx va)
  | none => 0

def Table.set (t : Table) (i w : ℕ) : Table := { t with pte := Function.update t.pte i w }

def Dir.setTab (d : Dir) (i : ℕ) (t : Option Table) : Dir := { d with tab := Function.update d.tab i t }

/-- `*pte = w`. -/
def Dir.setPte (d : Dir) (va w : ℕ) : Dir :=
  d.setTab (pdx va) ((d.tab (pdx va)).map fun t => t.set (ptx va) w)

def Vm.setTab (l : Vm) (i : ℕ) (t : Option Table) : Vm := { l with dir := l.dir.setTab i t }

def Vm.setPte (l : Vm) (va w : ℕ) : Vm := { l with dir := l.dir.setPte va w }

def Vm.setMem (l : Vm) (pa : ℕ) (c : Page) : Vm := { l with mem := Function.update l.mem pa c }

variable {G : Type}

/-- Programs on one address space. -/
abbrev VmProg (G α : Type) := Prog G Vm ℕ Panic α

def kalloc : VmProg G (Option ℕ) := Prog.new

/-- `kend` is the physical address of the kernel's `end`. -/
def validPage (kend pa : ℕ) : Prop := pa % PGSIZE = 0 ∧ kend ≤ pa ∧ pa < PHYSTOP

instance (kend pa : ℕ) : Decidable (validPage kend pa) :=
  inferInstanceAs (Decidable (_ ∧ _ ∧ _))

/-- `kfree`, with the write of the caller that forgets the page. -/
def kfree {L : Type} (kend pa : ℕ) (forget : L → L) : Prog G L ℕ Panic Unit :=
  if validPage kend pa then .free pa forget (.ret ()) else .halt .kfree

/-- Whether there is an entry to point to. -/
def walkpgdir (va : ℕ) (alloc : Bool) : VmProg G Bool := do
  match (← Prog.get).dir.tab (pdx va) with
  | some _ => pure true
  | none =>
    if alloc then
      match ← kalloc with
      | none => pure false
      | some pgtab =>
        Prog.modify fun l => l.setTab (pdx va) (some ⟨pgtab, fun _ => 0⟩)
        pure true
    else pure false

/-- One turn of the loop of `mappages`. -/
def mapPage (a pa perm : ℕ) : VmProg G Bool := do
  if ← walkpgdir a true then
    if present ((← Prog.get).dir.pte a) then .halt .remap
    else
      Prog.modify fun l => l.setPte a (pteWord pa perm)
      pure true
  else pure false

/-- The loop of `mappages` with `n` turns after this one. -/
def mapFrom (perm : ℕ) : ℕ → ℕ → ℕ → VmProg G Bool
  | 0, a, pa => mapPage a pa perm
  | n + 1, a, pa => do
    if ← mapPage a pa perm then mapFrom perm n ((a + PGSIZE) % 2 ^ 32) ((pa + PGSIZE) % 2 ^ 32)
    else pure false

/-- Whether it returns `0`. The loop ends when `a` equals `last`, going round if need be. -/
def mappages (va size pa perm : ℕ) : VmProg G Bool :=
  let a := pgrounddown va
  let last := pgrounddown ((va + size + (2 ^ 32 - 1)) % 2 ^ 32)
  mapFrom perm ((last + 2 ^ 32 - a) % 2 ^ 32 / PGSIZE) a pa

/-- The loop of `deallocuvm`; no caller passes an `oldsz` above `KERNBASE`, so `a` does not wrap. -/
def deallocFrom (kend oldsz a : ℕ) : VmProg G Unit :=
  if h : a < oldsz ∧ a < 2 ^ 32 then do
    if ← walkpgdir a false then
      let w := (← Prog.get).dir.pte a
      if present w then
        if pteAddr w = 0 then .halt .kfree
        else kfree kend (pteAddr w) fun l => l.setPte a 0
      deallocFrom kend oldsz (a + PGSIZE)
    else deallocFrom kend oldsz ((pdx a + 1) * 2 ^ 22 - PGSIZE + PGSIZE)
  else pure ()
termination_by oldsz - a
decreasing_by
  · unfold PGSIZE; omega
  · unfold PGSIZE pdx; omega

def deallocuvm (kend oldsz newsz : ℕ) : VmProg G ℕ :=
  if newsz ≥ oldsz then pure oldsz
  else do
    deallocFrom kend oldsz (pgroundup newsz)
    pure newsz

/-- The loop of `allocuvm`. -/
def allocFrom (kend oldsz newsz a : ℕ) : VmProg G ℕ :=
  if a < newsz then do
    match ← kalloc with
    | none =>
      let _ ← deallocuvm kend newsz oldsz
      pure 0
    | some mem =>
      Prog.modify fun l => l.setMem mem fun _ => 0
      if ← mappages a PGSIZE mem (PTE_W ||| PTE_U) then allocFrom kend oldsz newsz (a + PGSIZE)
      else
        let _ ← deallocuvm kend newsz oldsz
        kfree kend mem id
        pure 0
  else pure newsz
termination_by newsz - a
decreasing_by unfold PGSIZE; omega

@[irreducible] def allocuvm (kend oldsz newsz : ℕ) : VmProg G ℕ :=
  if newsz ≥ KERNBASE then pure 0
  else if newsz < oldsz then pure oldsz
  else allocFrom kend oldsz newsz (pgroundup oldsz)

/-- The loop of `freevm` over the directory entries; the directory is not used again. -/
def freeTabs (kend : ℕ) : List ℕ → VmProg G Unit
  | [] => pure ()
  | i :: rest => do
    match (← Prog.get).dir.tab i with
    | some t => kfree kend t.page fun l => l.setTab i none
    | none => pure ()
    freeTabs kend rest

def freevm (kend : ℕ) : VmProg G Unit := do
  match (← Prog.get).dir.page with
  | none => .halt .freevmNoPgdir
  | some pgdir =>
    let _ ← deallocuvm kend KERNBASE 0
    freeTabs kend (List.range NPDENTRIES)
    kfree kend pgdir fun l => { l with dir := { l.dir with page := none } }

/-- A row of `kmap`. -/
structure Kmap where
  virt : ℕ
  physStart : ℕ
  physEnd : ℕ
  perm : ℕ

def mapKernel (kend : ℕ) : List Kmap → VmProg G Bool
  | [] => pure true
  | k :: rest => do
    if ← mappages k.virt ((k.physEnd + 2 ^ 32 - k.physStart) % 2 ^ 32) k.physStart k.perm then
      mapKernel kend rest
    else
      freevm kend
      pure false

/-- `setupkvm`; `kmap` depends on the kernel's `data` symbol and on the frame buffer. -/
def setupkvm (kend : ℕ) (kmap : List Kmap) : VmProg G Bool := do
  match ← kalloc with
  | none => pure false
  | some pgdir =>
    Prog.modify fun l => { l with dir := ⟨some pgdir, fun _ => none⟩ }
    if KERNBASE + PHYSTOP > DEVSPACE then .halt .physTooHigh
    else mapKernel kend kmap

/-- The loop of `copyuvm`, which reads the address space of the parent. -/
def copyFrom (kend : ℕ) (parent : Vm) (sz i : ℕ) : VmProg G Bool :=
  if i < sz then
    match parent.dir.tab (pdx i) with
    | none => .halt .copyuvmExist
    | some t =>
      if present (t.pte (ptx i)) then do
        let pa := pteAddr (t.pte (ptx i))
        let flags := pteFlags (t.pte (ptx i))
        match ← kalloc with
        | none =>
          freevm kend
          pure false
        | some mem =>
          Prog.modify fun l => l.setMem mem (parent.mem pa)
          if ← mappages i PGSIZE mem flags then copyFrom kend parent sz (i + PGSIZE)
          else
            freevm kend
            pure false
      else .halt .copyuvmPresent
  else pure true
termination_by sz - i
decreasing_by unfold PGSIZE; omega

/-- Whether it returns a directory, which is then the one of the address space. -/
def copyuvm (kend : ℕ) (kmap : List Kmap) (parent : Vm) (sz : ℕ) : VmProg G Bool := do
  if ← setupkvm kend kmap then copyFrom kend parent sz 0 else pure false

/-- What `readi(ip, dst, off, n)` stores at `dst`; the return value is its length. -/
abbrev Readi := ℕ → ℕ → List UInt8

/-- `memmove(c + off, bs, n)`. -/
def blit (c : Page) (off : ℕ) (bs : List UInt8) : Page := fun i =>
  if off ≤ i ∧ i < off + bs.length then bs.getD (i - off) 0 else c i

/-- The loop of `loaduvm`. -/
def loadFrom (ip : Readi) (addr offset sz i : ℕ) : VmProg G Bool :=
  if i < sz then do
    match (← Prog.get).dir.tab (pdx (addr + i)) with
    | none => .halt .loaduvmExist
    | some t =>
      let pa := pteAddr (t.pte (ptx (addr + i)))
      let n := if sz - i < PGSIZE then sz - i else PGSIZE
      let bs := ip ((offset + i) % 2 ^ 32) n
      Prog.modify fun l => l.setMem pa (blit (l.mem pa) 0 bs)
      if bs.length ≠ n then pure false else loadFrom ip addr offset sz (i + PGSIZE)
  else pure true
termination_by sz - i
decreasing_by unfold PGSIZE; omega

/-- Whether it returns `0`. -/
def loaduvm (ip : Readi) (addr offset sz : ℕ) : VmProg G Bool :=
  if addr % PGSIZE ≠ 0 then .halt .loaduvmAligned else loadFrom ip addr offset sz 0

/-- `w & PTE_U`. -/
def user (w : ℕ) : Prop := w / PTE_U % 2 = 1

instance (w : ℕ) : Decidable (user w) := inferInstanceAs (Decidable (w / PTE_U % 2 = 1))

/-- `w & ~PTE_U`. -/
def clearU (w : ℕ) : ℕ := w - w / PTE_U % 2 * PTE_U

def clearpteu (uva : ℕ) : VmProg G Unit := do
  let d := (← Prog.get).dir
  if (d.tab (pdx uva)).isSome then Prog.modify fun l => l.setPte uva (clearU (d.pte uva))
  else .halt .clearpteu

/-- `copyout`, with `uva2ka` in its place. Where there is no page table `uva2ka` reads through a
null pointer: `zero` is the word at address `0` of the running process, if a page is mapped there,
and a page found by way of it could be any page of the machine. -/
def copyout (zero : Option ℕ) (va : ℕ) (p : List UInt8) : VmProg G Bool :=
  if h : p = [] then pure true
  else do
    let va0 := pgrounddown va
    let l ← Prog.get
    if (l.dir.tab (pdx va0)).isSome then
      let w := l.dir.pte va0
      if present w ∧ user w then
        let pa0 := pteAddr w
        let n := min (PGSIZE - (va - va0)) p.length
        Prog.modify fun l => l.setMem pa0 (blit (l.mem pa0) (va - va0) (p.take n))
        copyout zero ((va0 + PGSIZE) % 2 ^ 32) (p.drop n)
      else pure false
    else
      match zero with
      | none => .halt .nullDeref
      | some w => if present w ∧ user w then .halt .nullDeref else pure false
termination_by p.length
decreasing_by
  have hpos : 0 < p.length := List.length_pos_iff.mpr h
  have hoff : va - pgrounddown va < PGSIZE := by
    unfold pgrounddown PGSIZE
    omega
  rw [List.length_drop]
  omega

/-- `inituvm`. It ignores what `mappages` returns. -/
def inituvm (init : List UInt8) : VmProg G Unit :=
  if init.length ≥ PGSIZE then .halt .inituvmPage
  else do
    match ← kalloc with
    | none => .halt .nullDeref
    | some mem =>
      Prog.modify fun l => l.setMem mem fun _ => 0
      let _ ← mappages 0 PGSIZE mem (PTE_W ||| PTE_U)
      Prog.modify fun l => l.setMem mem (blit (l.mem mem) 0 init)

end Xv6.PageTable
