import Xv6.VmRun
import Xv6.Sbrk

/-!
What a `fork` that fails leaves behind. Whatever `kalloc` refuses, the process table, the files and
the inodes are as before; but when it refuses a page table for a copied page, `copyuvm` forgets the
page it has just filled.
-/

namespace Xv6.Kernel

open Xv6.Lib.Own Xv6.PageTable Xv6.ProcTable

/-- The shared state with the reference counts of the inodes. -/
abbrev World := Shared × (ℕ → ℕ)

def idup (ip : ℕ) : Prog World Task ℕ Panic Unit :=
  .act (fun _ _ => true) (fun w l => ((w.1, Function.update w.2 ip (w.2 ip + 1)), l))
    fun _ _ => .ret ()

/-- `fork` once it has a slot. -/
def forkInto (kend : ℕ) (kmap : List Kmap) (me np : Slot) (cwd : ℕ) :
    Prog World Task ℕ Panic Bool := do
  let l ← Prog.get
  if ← (onTmp (copyuvm kend kmap l.vm l.sz)).onFst then
    (atomic always fun s l =>
      ({ s with parent := Function.update s.parent np (some me) }, l)).onFst
    (dupFiles (List.finRange NOFILE)).onFst
    idup cwd
    (release np l.sz l.eip l.esp).onFst
    pure true
  else
    (kfreeStack kend).onFst
    (dropSlot np).onFst
    pure false

/-- `fork` of a process with the working directory `cwd`. -/
def forkCwd (kend : ℕ) (kmap : List Kmap) (me : Slot) (cwd : ℕ) : Prog World Task ℕ Panic Bool := do
  match ← allocproc.onFst with
  | none => pure false
  | some np => forkInto kend kmap me np cwd

/-- `fork` up to the copy of the address space, with the reason why that fails. -/
def forkCopy (kend : ℕ) (kmap : List Kmap) : KProg (Option CopyFail) := do
  match ← allocproc with
  | none => pure none
  | some _ =>
    let l ← Prog.get
    let r ← onTmp (copyuvmWhy kend kmap l.vm l.sz)
    pure r.2

/-- Nothing has changed: the same pages are free, the slot that was taken is unused and without a
kernel stack, and no process, file or inode is different. -/
structure NoTrace (h : Heap ℕ) (w : World) (l : Task) (r : Result World Task ℕ Panic Bool) :
    Prop where
  free : r.heap.free.Perm h.free
  slot : ∀ np, unusedSlot w.1 = some np → (r.shared.1.proc np).isUnused ∧ r.loc.stack = none
  shared : r.shared = w
  task : r.loc = { l with tmp := r.loc.tmp }

lemma noTrace_iff {h h' : Heap ℕ} {w : World} {l : Task} (hl : l.stack = none) {v : Vm} {b : Bool} :
    NoTrace h w l ⟨.done b, h', w, { l with tmp := v }⟩ ↔ h'.free.Perm h.free := by
  refine ⟨NoTrace.free, fun hperm => ⟨hperm, fun np hu => ⟨first_some hu, hl⟩, rfl, rfl⟩⟩

section Fail

variable {kend : ℕ} {kmap : List Kmap} {fails : ℕ → Bool} {h : Heap ℕ} {s : Shared} {l : Task}

lemma unusedSlot_proc {np : Slot} (h : unusedSlot s = some np) : s.proc np = .unused := by
  have hu := first_some h
  revert hu
  rcases s.proc np <;> simp [Entry.isUnused]

/-- A slot that was taken and given back. -/
lemma setProc_back {np : Slot} (h : unusedSlot s = some np) :
    (s.setProc np .embryo).setProc np .unused = s := by
  unfold Shared.setProc
  dsimp only
  rw [Function.update_idem, ← unusedSlot_proc h, Function.update_eq_self]

/-- What `allocproc` can do: wait for the lock, fail without a trace, or take a slot and a page. -/
lemma run_allocproc (fails : ℕ → Bool) (h : Heap ℕ) (s : Shared) (hl : l.child = none) :
    run fails allocproc h s l = ⟨.blocked, h, s, l⟩ ∨
      (∃ h', run fails allocproc h s l = ⟨.done none, h', s, l⟩ ∧ h'.free = h.free) ∨
      ∃ np kstack h', unusedSlot s = some np ∧ h.free = kstack :: h'.free ∧
        run fails allocproc h s l = ⟨.done (some np), h', s.setProc np .embryo,
          { l with child := some np, stack := some kstack }⟩ := by
  unfold allocproc
  rw [run]
  split_ifs
  · right
    rcases hu : unusedSlot s with _ | np
    · exact Or.inl ⟨h, rfl, rfl⟩
    dsimp only
    rw [run_bind]
    change (∃ h', run fails _ (h.alloc fails).2 _ _ = _ ∧ _) ∨
      ∃ np' kstack h', _ ∧ _ ∧ run fails _ (h.alloc fails).2 _ _ = _
    rcases h.alloc_cases fails with ⟨hr, hfree⟩ | ⟨kstack, rest, hfree, hr, hrest⟩
    · rw [hr]
      refine Or.inl ⟨(h.alloc fails).2, ?_, hfree⟩
      change Result.mk _ _ ((s.setProc np .embryo).setProc np .unused) { l with child := none } = _
      rw [setProc_back hu, ← hl]
    · rw [hr]
      exact Or.inr ⟨np, kstack, (h.alloc fails).2, rfl, by rw [hrest, hfree], rfl⟩
  · exact Or.inl rfl

/-- The run of `copyuvm` that fails gives all pages back, unless it is for a page table. -/
lemma copyuvm_fails (hk : 0 < kend) (hkmap : ∀ k ∈ kmap, k.high) (hn : h.free.Nodup)
    (hv : ∀ pa ∈ h.free, validPage kend pa) {parent v : Vm} {sz : ℕ} (hsz : sz < KERNBASE)
    (hpages : pages v.dir = 0) {r : Option CopyFail}
    (hout : (run fails (copyuvmWhy kend kmap parent sz) h s v).out = .done (false, r)) :
    let c := run fails (copyuvmWhy kend kmap parent sz) h s v
    c.shared = s ∧ pages c.loc.dir = 0 ∧
      if r = some .table then ∃ mem, mem ::ₘ (c.heap.free : Multiset ℕ) = h.free
      else c.heap.free.Perm h.free := by
  have halone : Alone kend h.free v := by
    refine ⟨?_, ?_⟩
    · rw [hpages, add_zero]
      exact Multiset.coe_nodup.mpr hn
    · rw [hpages, add_zero]
      exact hv
  have hS : VmSpec kend (soloSpec kend (fun _ => True) (fun _ => True) s v.mem) :=
    vmSpec_soloSpec hk
  have hwp : wp (soloSpec kend (fun _ => True) (fun _ => True) s v.mem)
      (copyuvmWhy kend kmap parent sz)
      (fun r l' o => r.1 = false → pages l'.dir = 0 ∧
        if r.2 = some .table then ∃ mem, o = {mem} else o = 0) v 0 := by
    refine wp_copyuvmWhy hS hkmap (Or.inl trivial) hsz hpages (Or.inl ⟨trivial, trivial⟩)
      (fun _ _ _ _ _ _ hf => absurd hf.symm Bool.false_ne_true) (fun r l' hr hl' _ _ => ?_)
      fun l' mem hl' _ _ => ?_
    · exact ⟨hl', by rw [if_neg hr]⟩
    · exact ⟨hl', by rw [if_pos rfl]; exact ⟨mem, rfl⟩⟩
  have hends := halone.run fails (fun _ _ => trivial) hwp
  generalize run fails (copyuvmWhy kend kmap parent sz) h s v = c at hout hends ⊢
  intro c'
  unfold AloneEnds at hends
  rw [hout, hpages, add_zero] at hends
  obtain ⟨o, hq, hshared, hall, -⟩ := hends
  obtain ⟨hdir, ho⟩ := hq rfl
  rw [hdir, zero_add] at hall
  refine ⟨hshared, hdir, ?_⟩
  split_ifs with hr
  · rw [if_pos hr] at ho
    obtain ⟨mem, rfl⟩ := ho
    exact ⟨mem, by rw [← hall, ← Multiset.singleton_add, add_comm]⟩
  · rw [if_neg hr] at ho
    rw [ho, add_zero] at hall
    exact Multiset.coe_eq_coe.mp hall

lemma run_kfreeStack {pa : ℕ} (hstack : l.stack = some pa) (hv : validPage kend pa) :
    run fails (kfreeStack kend) h s l =
      ⟨.done (), { h with free := pa :: h.free }, s, { l with stack := none }⟩ := by
  unfold kfreeStack
  rw [run_get_bind, hstack]
  unfold kfree
  dsimp only
  rw [if_pos hv]
  rfl

/-- The rest of a `fork` that has not got its copy. -/
lemma run_undo {np : Slot} {kstack : ℕ} {iref : ℕ → ℕ} (hu : unusedSlot s = some np)
    (hstack : l.stack = some kstack) (hv : validPage kend kstack) :
    run fails (do
      (kfreeStack kend).onFst
      (dropSlot np).onFst
      pure false) h (s.setProc np .embryo, iref) l =
      ⟨.done false, { h with free := kstack :: h.free }, (s, iref),
        { l with stack := none, child := none }⟩ := by
  rw [run_bind_done (run_onFst_eq iref (run_kfreeStack hstack hv))]
  change Result.mk _ _ ((s.setProc np .embryo).setProc np .unused, iref) _ = _
  rw [setProc_back hu]

/-- A `fork` with a slot fails for want of a copy. -/
lemma forkInto_fails (hk : 0 < kend) (hkmap : ∀ k ∈ kmap, k.high) (hn : h.free.Nodup)
    (hv : ∀ pa ∈ h.free, validPage kend pa) (hsz : l.sz < KERNBASE) (htmp : pages l.tmp.dir = 0)
    {me np : Slot} {kstack cwd : ℕ} {iref : ℕ → ℕ} (hu : unusedSlot s = some np)
    (hstack : l.stack = some kstack) (hkstack : validPage kend kstack)
    (hout : (run fails (forkInto kend kmap me np cwd) h (s.setProc np .embryo, iref) l).out =
      .done false) :
    ∃ h' v r, run fails (forkInto kend kmap me np cwd) h (s.setProc np .embryo, iref) l =
        ⟨.done false, { h' with free := kstack :: h'.free }, (s, iref),
          { l with tmp := v, stack := none, child := none }⟩ ∧
      run fails (onTmp (copyuvmWhy kend kmap l.vm l.sz)) h (s.setProc np .embryo) l =
        ⟨.done (false, r), h', s.setProc np .embryo, { l with tmp := v }⟩ ∧
      if r = some .table then ∃ mem, mem ::ₘ (h'.free : Multiset ℕ) = h.free
      else h'.free.Perm h.free := by
  unfold forkInto at hout ⊢
  rw [run_get_bind] at hout ⊢
  rcases hc : run fails (copyuvmWhy kend kmap l.vm l.sz) h (s.setProc np .embryo) l.tmp with
    ⟨⟨b, r⟩ | e | -, h', s', v⟩
  · have hcopy : run fails (copyuvm kend kmap l.vm l.sz) h (s.setProc np .embryo) l.tmp =
        ⟨.done b, h', s', v⟩ := by
      rw [copyuvm_why, run_bind_done hc]
      rfl
    rw [run_bind_done (run_onFst_eq iref (run_onTmp hcopy))] at hout ⊢
    cases b
    · obtain ⟨hs, -, hfree⟩ := copyuvm_fails hk hkmap hn hv hsz htmp (by rw [hc])
      rw [hc] at hs hfree
      dsimp only at hs hfree
      subst hs
      exact ⟨h', v, r, run_undo hu hstack hkstack, run_onTmp hc, hfree⟩
    · -- with its copy `fork` goes on to return the child
      obtain ⟨_, _, _, _, -, hout⟩ := done_of_bind hout
      obtain ⟨_, _, _, _, -, hout⟩ := done_of_bind hout
      obtain ⟨_, _, _, _, -, hout⟩ := done_of_bind hout
      obtain ⟨_, _, _, _, -, hout⟩ := done_of_bind hout
      cases hout
  · have hcopy : run fails (copyuvm kend kmap l.vm l.sz) h (s.setProc np .embryo) l.tmp =
        ⟨.halted e, h', s', v⟩ := by rw [copyuvm_why, run_bind_halted hc]
    rw [run_bind_halted (run_onFst_eq iref (run_onTmp hcopy))] at hout
    cases hout
  · have hcopy : run fails (copyuvm kend kmap l.vm l.sz) h (s.setProc np .embryo) l.tmp =
        ⟨.blocked, h', s', v⟩ := by rw [copyuvm_why, run_bind_blocked hc]
    rw [run_bind_blocked (run_onFst_eq iref (run_onTmp hcopy))] at hout
    cases hout

end Fail

/-! ### A process of one page forks -/

lemma small_alive : Alive False initproc small where
  clean := small_starts.alive.clean
  self := rfl
  page := rfl
  sz := small_starts.alive.sz
  exact := False.elim

/-- The process is the only one, and its working directory the only inode in use. -/
def smallWorld : World := (Shared.empty.setProc initproc .live, fun ip => if ip = 1 then 1 else 0)

def smallKmap : List Kmap := [⟨KERNBASE, 0, PGSIZE, PTE_W⟩]

end Xv6.Kernel
