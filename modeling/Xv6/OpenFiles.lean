import Xv6.PageSafety

/-!
The reference counts of open files and the pages of pipes. Between two system calls a file has as
many references as there are descriptors for it, in any process. The page of a pipe is in use as
long as a file refers to it: the thread that takes away the last such file goes on to free the page.
-/

namespace Xv6.Kernel

open Xv6.Lib.Own Xv6.Lib.Threads Xv6.Lib.Run Xv6.PageTable Xv6.ProcTable

/-! ### What an action does to the pipes -/

/-- An action leaves the pipes alone, makes one, or closes an end of one; when both ends are closed
the page is freed next. -/
inductive PipeEvent (kend : ℕ) (s s' : Shared) : Option ℕ → Prop
  | same (h : s'.pipes = s.pipes) : PipeEvent kend s s' none
  | made (page : ℕ) (h : s'.pipes = ⟨page, true, true⟩ :: s.pipes) : PipeEvent kend s s' none
  | closed (page : ℕ) (w : Bool) (q : Pipe) (hq : closedPipe s.pipes page w = some q)
      (h : s' = closePipe s page w) :
      PipeEvent kend s s' (if q.dead ∧ validPage kend page then some page else none)

section Programs

variable {kend : ℕ} {kmap : List Kmap} {D : Shared → Shared → Option ℕ → Prop}

-- programs put together from what keeps to `D` keep to it
attribute [local grind ←] acts_bind acts_zoom acts_pure acts_get acts_modify acts_new

variable {L α : Type} {u : Shared → Task → Shared × Task}

@[local grind ←] lemma acts_halt (e : Panic) :
    Acts D (.halt e : Prog Shared L ℕ Panic α) := trivial

@[local grind ←] lemma acts_ret (a : α) :
    Acts D (.ret a : Prog Shared L ℕ Panic α) := trivial

@[local grind =] lemma setProc_pipes (s : Shared) (p : Slot) (e : Entry) :
    (s.setProc p e).pipes = s.pipes := rfl

@[local grind =] lemma setFile_pipes (s : Shared) (f : FileId) (x : File) :
    (s.setFile f x).pipes = s.pipes := rfl

@[local grind ←] lemma acts_kfree (kend pa : ℕ) (forget : L → L) :
    Acts D (kfree kend pa forget : Prog Shared L ℕ Panic Unit) := by
  unfold kfree
  split_ifs <;> trivial

/-! The programs on one address space do not act on the shared state. -/

@[local grind ←] lemma acts_walkpgdir (va : ℕ) (alloc : Bool) :
    Acts D (walkpgdir va alloc : VmProg Shared Bool) := by
  grind [walkpgdir, kalloc]

@[local grind ←] lemma acts_mapPage (a pa perm : ℕ) :
    Acts D (mapPage a pa perm : VmProg Shared Bool) := by
  grind [mapPage]

@[local grind ←] lemma acts_mappages (va size pa perm : ℕ) :
    Acts D (mappages va size pa perm : VmProg Shared Bool) := by
  have hloop (n a pa : ℕ) : Acts D (mapFrom perm n a pa : VmProg Shared Bool) := by
    induction n generalizing a pa with grind [mapFrom]
  exact hloop _ _ _

@[local grind ←] lemma acts_deallocuvm (oldsz newsz : ℕ) :
    Acts D (deallocuvm kend oldsz newsz : VmProg Shared ℕ) := by
  have hloop (a : ℕ) : Acts D (deallocFrom kend oldsz a : VmProg Shared Unit) := by
    fun_induction deallocFrom kend oldsz a (G := Shared) with grind
  grind [deallocuvm]

@[local grind ←] lemma acts_allocuvm (oldsz newsz : ℕ) :
    Acts D (allocuvm kend oldsz newsz : VmProg Shared ℕ) := by
  have hloop (a : ℕ) : Acts D (allocFrom kend oldsz newsz a : VmProg Shared ℕ) := by
    fun_induction allocFrom kend oldsz newsz a (G := Shared) with grind [kalloc]
  grind [allocuvm]

@[local grind ←] lemma acts_freevm : Acts D (freevm kend : VmProg Shared Unit) := by
  have hloop (is : List ℕ) : Acts D (freeTabs kend is : VmProg Shared Unit) := by
    induction is with grind [freeTabs]
  grind [freevm]

@[local grind ←] lemma acts_setupkvm : Acts D (setupkvm kend kmap : VmProg Shared Bool) := by
  have hloop (rows : List Kmap) : Acts D (mapKernel kend rows : VmProg Shared Bool) := by
    induction rows with grind [mapKernel]
  grind [setupkvm, kalloc]

@[local grind ←] lemma acts_copyuvm (parent : Vm) (sz : ℕ) :
    Acts D (copyuvm kend kmap parent sz : VmProg Shared Bool) := by
  have hloop (i : ℕ) : Acts D (copyFrom kend parent sz i : VmProg Shared Bool) := by
    fun_induction copyFrom kend parent sz i (G := Shared) with grind [kalloc]
  grind [copyuvm]

@[local grind ←] lemma acts_loaduvm (ip : Readi) (addr offset sz : ℕ) :
    Acts D (loaduvm ip addr offset sz : VmProg Shared Bool) := by
  have hloop (i : ℕ) : Acts D (loadFrom ip addr offset sz i : VmProg Shared Bool) := by
    fun_induction loadFrom ip addr offset sz i (G := Shared) with grind
  grind [loaduvm]

@[local grind ←] lemma acts_loadSegs (ip : Readi) (n off sz : ℕ) :
    Acts D (loadSegs kend ip n off sz : VmProg Shared (Option ℕ)) := by
  induction n generalizing off sz with grind [loadSegs]

@[local grind ←] lemma acts_copyout (zero : Option ℕ) (va : ℕ) (p : List UInt8) :
    Acts D (copyout zero va p : VmProg Shared Bool) := by
  fun_induction copyout zero va p (G := Shared) with grind

@[local grind ←] lemma acts_pushArgs (zero : Option ℕ) (argv : List (List UInt8)) (sp : ℕ)
    (ustack : List ℕ) :
    Acts D (pushArgs zero argv sp ustack : VmProg Shared (Option (ℕ × List ℕ))) := by
  induction argv generalizing sp ustack with grind [pushArgs]

@[local grind ←] lemma acts_setupStack (zero : Option ℕ) (argv : List (List UInt8)) (sz : ℕ) :
    Acts D (setupStack kend zero argv sz : VmProg Shared (Option (ℕ × ℕ))) := by
  grind [setupStack, clearpteu]

@[local grind ←] lemma acts_execImage (zero : Option ℕ) (ip : Readi) (argv : List (List UInt8)) :
    Acts D (execImage kend kmap zero ip argv : VmProg Shared (Option Committed)) := by
  unfold execImage
  dsimp only
  split_ifs
  · grind
  · grind
  · refine acts_bind acts_setupkvm fun b => ?_
    split_ifs
    · refine acts_bind (acts_loadSegs _ _ _ _) fun r => ?_
      grind
    · grind

@[local grind ←] lemma acts_inituvm (init : List UInt8) :
    Acts D (inituvm init : VmProg Shared Unit) := by
  grind [inituvm, kalloc]

/-! The calls. -/

@[local grind ←] lemma acts_pipeclose (page : ℕ) (w : Bool) : Acts (PipeEvent kend) (pipeclose kend page w) := by
  intro s l _
  dsimp only
  rcases hq : closedPipe s.pipes page w with _ | q
  · exact ⟨⟨none, .same (by simp [closePipe, hq]), by simp⟩, trivial⟩
  · refine ⟨⟨_, .closed page w q hq rfl, fun r hr => ?_⟩, acts_ite (acts_kfree _ _ _) trivial⟩
    split_ifs at hr with h
    · cases hr
      dsimp only
      rw [if_pos h.1, kfree, if_pos h.2]
      exact ⟨_, _, rfl⟩
    · simp at hr

/-- An action that leaves the pipes alone. -/
lemma acts_act {g : Shared → Task → Bool} {k : Shared → Task → KProg α}
    (hu : ∀ s l, (u s l).1.pipes = s.pipes) (hk : ∀ s l, Acts (PipeEvent kend) (k s l)) :
    Acts (PipeEvent kend) (.act g u k) :=
  fun s l _ => ⟨⟨none, .same (hu s l), by simp⟩, hk s l⟩

@[local grind ←] lemma acts_atomic {g : Shared → Bool} (hu : ∀ s l, (u s l).1.pipes = s.pipes) :
    Acts (PipeEvent kend) (atomic g u) :=
  acts_act hu fun _ _ => trivial

@[local grind ←] lemma acts_filealloc (keep : FileId → Task → Task) : Acts (PipeEvent kend) (filealloc keep) := by
  refine acts_act (fun s l => ?_) fun s l => trivial
  rcases freeFile s with _ | f <;> rfl

@[local grind ←] lemma acts_filedup (f : FileId) (keep : Task → Task) : Acts (PipeEvent kend) (filedup f keep) := by
  refine acts_act (fun s l => ?_) fun s l => acts_ite trivial trivial
  dsimp only
  split_ifs <;> rfl

@[local grind ←] lemma acts_fileclose (f : FileId) (forget : Task → Task) :
    Acts (PipeEvent kend) (fileclose kend f forget) := by
  refine acts_act (fun s l => ?_) fun s l => acts_ite trivial ?_
  · split_ifs <;> rfl
  · rcases lastEnd (s.file f) with _ | ⟨page, w⟩
    · trivial
    · exact acts_pipeclose page w

@[local grind ←] lemma acts_pipealloc : Acts (PipeEvent kend) (pipealloc kend) := by
  unfold pipealloc
  refine acts_bind (acts_filealloc _) fun f0 => ?_
  rcases f0 with _ | f0
  · exact acts_pure _
  refine acts_bind (acts_filealloc _) fun f1 => ?_
  rcases f1 with _ | f1
  · grind
  refine acts_bind acts_new fun p => ?_
  rcases p with _ | p
  · grind
  · exact acts_bind (fun s l _ => ⟨⟨none, .made p rfl, by simp⟩, trivial⟩) fun _ => acts_pure _

@[local grind ←] lemma acts_pipe : Acts (PipeEvent kend) (pipe kend) := by
  unfold pipe
  refine acts_bind acts_pipealloc fun r => ?_
  rcases r with _ | ⟨rf, wf⟩
  · grind
  refine acts_bind acts_get fun l => ?_
  rcases freeFd l.ofile with _ | fd0 <;> grind

@[local grind ←] lemma acts_openFile : Acts (PipeEvent kend) (openFile kend) := by
  unfold openFile
  refine acts_bind (acts_filealloc _) fun r => ?_
  rcases r with _ | f <;> grind

@[local grind ←] lemma acts_close (fd : Fd) : Acts (PipeEvent kend) (close kend fd) := by
  grind [close]

@[local grind ←] lemma acts_dup (fd : Fd) : Acts (PipeEvent kend) (dup fd) := by
  grind [dup]

@[local grind ←] lemma acts_dropSlot (np : Slot) : Acts (PipeEvent kend) (dropSlot np) :=
  acts_atomic fun _ _ => rfl

@[local grind ←] lemma acts_release (np : Slot) (sz eip esp : ℕ) :
    Acts (PipeEvent kend) (release np sz eip esp) :=
  acts_atomic fun _ _ => rfl

@[local grind ←] lemma acts_allocproc : Acts (PipeEvent kend) allocproc := by
  refine acts_act (fun s l => ?_) fun s l => ?_
  · rcases unusedSlot s with _ | np <;> rfl
  · grind

@[local grind ←] lemma acts_kfreeStack : Acts (PipeEvent kend) (kfreeStack kend) := by
  grind [kfreeStack]

@[local grind ←] lemma acts_dupFiles (fds : List Fd) : Acts (PipeEvent kend) (dupFiles fds) := by
  induction fds with grind [dupFiles]

@[local grind ←] lemma acts_fork (me : Slot) : Acts (PipeEvent kend) (fork kend kmap me) := by
  unfold fork onTmp
  refine acts_bind acts_allocproc fun r => ?_
  rcases r with _ | np
  · grind
  refine acts_bind acts_get fun l => acts_bind (acts_zoom (acts_copyuvm _ _)) fun b => ?_
  split_ifs
  · exact acts_bind (acts_atomic fun _ _ => rfl) fun _ => by grind
  · grind

@[local grind ←] lemma acts_forkret (me : Slot) : Acts (PipeEvent kend) (forkret me) := by
  refine acts_act (fun s l => ?_) fun s l => trivial
  rcases s.proc me <;> rfl

@[local grind ←] lemma acts_closeFiles (fds : List Fd) :
    Acts (PipeEvent kend) (closeFiles kend fds) := by
  induction fds with grind [closeFiles]

@[local grind ←] lemma acts_exit (me : Slot) : Acts (PipeEvent kend) (exit kend me) := by
  grind [exit]

@[local grind ←] lemma acts_wait (me : Slot) (killed : Bool) :
    Acts (PipeEvent kend) (wait kend me killed) := by
  refine acts_act (fun s l => ?_) fun s l => ?_
  · rcases zombieChild s me with _ | ⟨p, vm, kstack⟩ <;> rfl
  · grind [onTmp]

@[local grind ←] lemma acts_growproc (n : ℤ) : Acts (PipeEvent kend) (growproc kend n) := by
  grind [growproc, onVm]

@[local grind ←] lemma acts_exec (ip : Option Readi) (argv : List (List UInt8)) :
    Acts (PipeEvent kend) (exec kend kmap ip argv) := by
  unfold exec
  rcases ip with _ | ip
  · grind
  refine acts_bind acts_get fun l => acts_bind (acts_zoom (acts_execImage _ _ _)) fun r => ?_
  rcases r with _ | c
  · grind
  · exact acts_bind (acts_modify _) fun _ => acts_bind (acts_zoom acts_freevm) fun _ => acts_pure _

lemma acts_userinit (init : List UInt8) : Acts (PipeEvent kend) (userinit kend kmap init) := by
  grind [userinit, onTmp]

/-- Every call does to the pipes what a `PipeEvent` is. -/
lemma acts_body (me : Slot) (c : Call) : Acts (PipeEvent kend) (body kend kmap me c) := by
  cases c <;> grind [body]

end Programs

section Pipes

variable {kend page : ℕ} {s s' : Shared} {freed : Option ℕ}

/-- No pipe has both ends closed. -/
def Open (s : Shared) : Prop := ∀ p ∈ s.pipes, ¬p.dead

lemma PipeEvent.isOpen (h : PipeEvent kend s s' freed) (ho : Open s) : Open s' := by
  intro p hp
  cases h with
  | same h =>
    rw [h] at hp
    exact ho p hp
  | made page h =>
    rw [h] at hp
    rcases List.mem_cons.mp hp with rfl | hp
    · simp [Pipe.dead]
    · exact ho p hp
  | closed page w q hq h =>
    have hother : p ∈ otherPipes s.pipes page → ¬p.dead := fun hin =>
      ho p (List.mem_of_mem_eraseP hin)
    rw [h, closePipe, hq] at hp
    dsimp only at hp
    split_ifs at hp with hd
    · exact hother hp
    · rcases List.mem_cons.mp hp with rfl | hp
      · exact hd
      · exact hother hp

/-- A page that is no longer one of a pipe is freed next. -/
lemma PipeEvent.left (h : PipeEvent kend s s' freed) (hv : validPage kend page)
    (hin : page ∈ pipePages s.pipes) (hout : page ∉ pipePages s'.pipes) : freed = some page := by
  cases h with
  | same h =>
    rw [h] at hout
    exact absurd hin hout
  | made page' h =>
    rw [h] at hout
    exact absurd (List.mem_cons_of_mem _ hin) hout
  | closed page' w q hq h =>
    rw [pipePages_closePipe hq, ← h, Multiset.mem_add] at hin
    have hq' := hin.resolve_right hout
    split_ifs at hq' with hd
    · obtain rfl := Multiset.mem_singleton.mp hq'
      rw [if_pos ⟨hd, hv⟩]
    · simp at hq'

lemma Pipe.exists_end {p : Pipe} (h : ¬p.dead) : ∃ w, (p.page, w) ∈ p.ends := by
  obtain ⟨page, r, w⟩ := p
  cases r <;> cases w <;> simp_all [Pipe.dead, Pipe.ends]

variable {A : Multiset Tok}

/-- A file or someone who has to close an end refers to the page of a pipe. -/
lemma FileInv.referred (h : FileInv s A) (ho : Open s) (hpage : page ∈ pipePages s.pipes) :
    (∃ f w, (s.file f).type = .pipe page w) ∨ ∃ w, Tok.pend page w ∈ A := by
  obtain ⟨p, hp, rfl⟩ := List.mem_map.mp hpage
  obtain ⟨w, hw⟩ := Pipe.exists_end (ho p hp)
  have hpos : 0 < (openEnds s.pipes).count (p.page, w) :=
    List.count_pos_iff.mpr (List.mem_flatMap.mpr ⟨p, hp, hw⟩)
  have hends := h.ends p.page w
  by_cases hcard : 0 < (endFiles s p.page w).card
  · obtain ⟨f, hf⟩ := Finset.card_pos.mp hcard
    exact Or.inl ⟨f, w, (Finset.mem_filter.mp hf).2⟩
  · exact Or.inr ⟨w, Multiset.count_pos.mp (by omega)⟩

/-- A file refers only to a page of a pipe. -/
lemma FileInv.page_of_type (h : FileInv s A) {f : FileId} {w : Bool}
    (hf : (s.file f).type = .pipe page w) : page ∈ pipePages s.pipes := by
  have hpos : 0 < (endFiles s page w).card :=
    Finset.card_pos.mpr ⟨f, Finset.mem_filter.mpr ⟨Finset.mem_univ f, hf⟩⟩
  have hends := h.ends page w
  exact mem_openEnds (w := w) (List.count_pos_iff.mp (by omega))

end Pipes

/-! ### Between two calls -/

def atRest : KProg Unit → Bool
  | .ret _ => true
  | _ => false

/-- No thread is in a system call. -/
def Between (m : State) : Prop := ∀ t, atRest (m.prog t)

instance (m : State) : Decidable (Between m) := inferInstanceAs (Decidable (∀ _, _))

/-- The descriptors of a slot: the entry has them until the process runs, then its thread. -/
def ofileOf (m : State) (p : Slot) : Fd → Option FileId :=
  match m.shared.proc p with
  | .ready img => img.ofile
  | _ => (m.loc p).ofile

/-- The descriptors that hold a file. -/
def holders (m : State) (f : FileId) : Finset (Slot × Fd) :=
  Finset.univ.filter fun x => ofileOf m x.1 x.2 = some f

section Between

variable {kend : ℕ} {exact : Prop} {m : State} {o : Slot → Multiset ℕ}

lemma Between.rest (hs : Sound (kspec kend exact) (Rest exact) m o) (hb : Between m) (t : Slot) :
    Rest exact t (m.loc t) := by
  have hwp := hs.wp t
  have ht := hb t
  generalize m.prog t = p at hwp ht
  cases p with
  | ret a => exact hwp (hs.ctx t)
  | _ => simp [atRest] at ht

variable {l : Task} {t : Tok}

lemma Rest.clean {me : Slot} (h : Rest exact me l) : Clean l :=
  h.elim Alive.clean Idle.clean

/-- At rest a thread has a slot and descriptors only. -/
lemma Clean.tok (h : Clean l) : l.tok = one (l.self.map .slot) + fileToks l.ofile := by
  simp [Task.tok, h.child, h.cofile, h.var, h.ff, fileToks_none]

lemma count_one {α β : Type} [DecidableEq β] (x : Option α) (g : α → β) (b : β) :
    (one (x.map g)).count b = if x.map g = some b then 1 else 0 := by
  cases x with
  | none => simp
  | some a => simp [Multiset.count_singleton, eq_comm]

lemma count_fileToks (ofile : Fd → Option FileId) (f : FileId) :
    (fileToks ofile).count (.file f) = ∑ fd, if ofile fd = some f then 1 else 0 := by
  rw [fileToks, Multiset.count_sum']
  refine Finset.sum_congr rfl fun fd _ => ?_
  rw [count_one]
  cases ofile fd <;> simp

lemma notMem_fileToks {ofile : Fd → Option FileId} (ht : ∀ f, t ≠ .file f) :
    t ∉ fileToks ofile := by
  intro h
  obtain ⟨fd, -, hfd⟩ := Multiset.mem_sum.mp h
  rcases hf : ofile fd with _ | f
  · simp [hf] at hfd
  · exact ht f (by simpa [hf] using hfd)

/-- The table has slots and descriptors only. -/
lemma notMem_tok {s : Shared} (hslot : ∀ p, t ≠ .slot p) (hfile : ∀ f, t ≠ .file f) :
    t ∉ s.tok := by
  intro h
  obtain ⟨p, -, hp⟩ := Multiset.mem_sum.mp h
  rcases he : s.proc p with _ | _ | img | _ | ⟨vm, kstack⟩ | _ <;>
    rw [he] at hp <;> simp only [Entry.tok, Multiset.mem_singleton, Multiset.mem_cons,
      Multiset.notMem_zero] at hp
  · exact hslot p hp
  · exact hp.elim (hslot p) (notMem_fileToks hfile)
  · exact hslot p hp

/-- The thread of a process that has not run yet has no descriptors. -/
lemma ofile_of_ready (hs : Sound (kspec kend exact) (Rest exact) m o) (hb : Between m) {p : Slot}
    {img : Image} (hp : m.shared.proc p = .ready img) : (m.loc p).ofile = fun _ => none := by
  rcases hb.rest hs p with ha | hi
  · have hinv : KInv exact m.shared (∑ t, (m.loc t).tok) := hs.inv
    rw [sum_split _ p, add_comm] at hinv
    have hslot : Tok.slot p ∈ (m.loc p).tok := by simp [ha.clean.tok, ha.self]
    have h0 := (hinv.held hslot).1
    rw [hp] at h0
    exact absurd h0 (by simp [Entry.tok])
  · exact hi.ofile

/-- What one slot counts for. -/
lemma count_slot (hs : Sound (kspec kend exact) (Rest exact) m o) (hb : Between m) (p : Slot)
    (f : FileId) : (m.loc p).tok.count (.file f) + ((m.shared.proc p).tok p).count (.file f) =
      ∑ fd, if ofileOf m p fd = some f then 1 else 0 := by
  have hself : (one ((m.loc p).self.map Tok.slot)).count (.file f) = 0 := by
    rw [count_one]
    cases (m.loc p).self <;> simp
  rw [(hb.rest hs p).clean.tok, Multiset.count_add, hself, zero_add, count_fileToks]
  rcases he : m.shared.proc p with _ | _ | img | _ | ⟨vm, kstack⟩ | _
  case ready =>
    simp [ofileOf, he, ofile_of_ready hs hb he, Entry.tok, count_fileToks]
  all_goals simp [ofileOf, he, Entry.tok]

lemma count_holders (hs : Sound (kspec kend exact) (Rest exact) m o) (hb : Between m) (f : FileId) :
    (∑ t, (m.loc t).tok + m.shared.tok).count (.file f) = (holders m f).card := by
  rw [Multiset.count_add, Shared.tok, Multiset.count_sum', Multiset.count_sum',
    ← Finset.sum_add_distrib, holders, Finset.card_filter, Fintype.sum_prod_type]
  exact Finset.sum_congr rfl fun p _ => count_slot hs hb p f

lemma ff_of_pend {page : ℕ} {w : Bool} (h : Tok.pend page w ∈ l.tok) : l.ff = some (page, w) := by
  have hvar : Tok.pend page w ∉ ∑ v, one ((l.var v).map v.tok) := by
    intro h
    obtain ⟨v, -, hv⟩ := Multiset.mem_sum.mp h
    rcases hf : l.var v with _ | f
    · simp [hf] at hv
    · cases v <;> simp [hf, Var.tok] at hv
  have hone (x : Option Slot) : Tok.pend page w ∉ one (x.map Tok.slot) := by cases x <;> simp
  simp only [Task.tok, Multiset.mem_add, hvar, hone, notMem_fileToks (t := .pend page w) (by simp),
    false_or] at h
  rcases hff : l.ff with _ | ⟨page', w'⟩
  · simp [hff] at h
  · simpa [hff, eq_comm] using h

/-- Nobody has a new file or an end to close. -/
lemma notMem_between (hs : Sound (kspec kend exact) (Rest exact) m o) (hb : Between m)
    (hslot : ∀ p, t ≠ .slot p) (hfile : ∀ f, t ≠ .file f) :
    t ∉ ∑ t, (m.loc t).tok + m.shared.tok := by
  intro h
  rcases Multiset.mem_add.mp h with h | h
  · obtain ⟨p, -, hp⟩ := Multiset.mem_sum.mp h
    rw [(hb.rest hs p).clean.tok] at hp
    rcases Multiset.mem_add.mp hp with hp | hp
    · cases hself : (m.loc p).self with
      | none => simp [hself] at hp
      | some q => exact hslot q (by simpa [hself] using hp)
    · exact notMem_fileToks hfile hp
  · exact notMem_tok hslot hfile h

end Between

/-! ### Every run -/

section Runs

variable {kend : ℕ} {kmap : List Kmap} {init : List UInt8} {free : List ℕ} {m : State}

/-- In every state of every run the programs act on the pipes as they should. -/
lemma acts_reach (hr : Reach (Step (body kend kmap) may) (boot kend kmap init free) m) :
    (∀ t, Acts (PipeEvent kend) (m.prog t)) ∧ Open m.shared := by
  refine hr.inv (P := fun m : State => (∀ t, Acts (PipeEvent kend) (m.prog t)) ∧ Open m.shared)
    ⟨fun t => acts_ite (acts_userinit init) trivial, ?_⟩ fun m a m' ⟨hacts, hopen⟩ hst => ?_
  · intro p hp
    simp [boot, Shared.empty] at hp
  · obtain ⟨hacts', he | ⟨freed, he, -⟩⟩ := acts_step acts_body hacts hst
    · exact ⟨hacts', he ▸ hopen⟩
    · exact ⟨hacts', he.isOpen hopen⟩

/-- **The references to open files and the pages of pipes.** In every state reached a file without
references has no type, and between two calls a file has as many references as descriptors hold it.
The page of a pipe is not on the free list, nobody is about to free it, and a file refers to it
unless someone is about to close its end; when it stops being the page of a pipe no file refers to
it, and the thread that took the last file away frees it next. -/
theorem open_file_references (hk : 0 < kend) (hend : kend ≤ 4 * 1024 * 1024)
    (hkmap : ∀ k ∈ kmap, k.high) (hfree : free.Subperm (kinit kend))
    (hr : Reach (Step (body kend kmap) may) (boot kend kmap init free) m) :
    (∀ f, (m.shared.file f).ref = 0 → (m.shared.file f).type = .none) ∧
      (Between m → ∀ f, (m.shared.file f).ref = (holders m f).card) ∧
      (Between m → ∀ page, page ∈ pipePages m.shared.pipes ↔
        ∃ f w, (m.shared.file f).type = .pipe page w) ∧ (pipePages m.shared.pipes).Nodup ∧
      (∀ page ∈ pipePages m.shared.pipes, page ∉ m.free ∧ (∀ t u k, m.prog t ≠ .free page u k) ∧
        ((∃ f w, (m.shared.file f).type = .pipe page w) ∨ ∃ t w, (m.loc t).ff = some (page, w))) ∧
      ∀ a m', Step (body kend kmap) may m a m' →
        ∀ page ∈ pipePages m.shared.pipes, page ∉ pipePages m'.shared.pipes →
          (∀ f w, (m'.shared.file f).type ≠ .pipe page w) ∧ page ∉ m'.free ∧
            ∃ u k, m'.prog a.1 = .free page u k := by
  obtain ⟨o, hs⟩ := sound_reach hk hend hkmap hfree hr
  obtain ⟨hacts, hopen⟩ := acts_reach hr
  have hinv : FileInv m.shared (∑ t, (m.loc t).tok + m.shared.tok) := hs.inv.files
  have hshared {page : ℕ} (h : page ∈ pipePages m.shared.pipes) : page ∈ m.shared.pages :=
    Multiset.mem_add.mpr (Or.inr h)
  refine ⟨hinv.types, fun hb f => ?_, fun hb page => ⟨fun hp => ?_, fun ⟨f, w, hf⟩ => ?_⟩, ?_,
    fun page hp => ⟨fun hin => ?_, fun t u k hprog => ?_, ?_⟩, fun a m' hst page hin hout => ?_⟩
  · have hfresh : (∑ t, (m.loc t).tok + m.shared.tok).count (.fresh f) = 0 :=
      Multiset.count_eq_zero.mpr (notMem_between hs hb (by simp) (by simp))
    rw [hinv.refs f, hfresh, count_holders hs hb f, add_zero]
  · refine (hinv.referred hopen hp).resolve_right fun ⟨w, hw⟩ => ?_
    exact notMem_between hs hb (by simp) (by simp) hw
  · exact hinv.page_of_type hf
  · refine Multiset.nodup_of_le ?_ hs.nodup
    rw [Machine.all]
    refine le_trans ?_ (Multiset.le_add_right _ _)
    exact le_trans (Multiset.le_add_left _ _) (Multiset.le_add_left _ _)
  · exact (hs.shared_fresh (hshared hp)).1 hin
  · exact (hs.shared_fresh (hshared hp)).2 t (hs.owned hprog)
  · refine (hinv.referred hopen hp).imp_right fun ⟨w, hw⟩ => ?_
    rcases Multiset.mem_add.mp hw with hw | hw
    · obtain ⟨t, -, ht⟩ := Multiset.mem_sum.mp hw
      exact ⟨t, w, ff_of_pend ht⟩
    · exact absurd hw (notMem_tok (by simp) (by simp))
  · obtain ⟨-, he | ⟨freed, he, hfrees⟩⟩ := acts_step acts_body hacts hst
    · rw [he] at hout
      exact absurd hin hout
    · have hv : validPage kend page := hs.valid page (by
        rw [Machine.all, Multiset.mem_add, Multiset.mem_add]
        exact Or.inl (Or.inr (hshared hin)))
      obtain ⟨u, k, hprog⟩ := hfrees page (he.left hv hin hout)
      obtain ⟨o', hs'⟩ := sound_reach hk hend hkmap hfree (hr.tail hst)
      refine ⟨fun f w hf => hout (hs'.inv.files.page_of_type hf), fun hfr => ?_, u, k, hprog⟩
      exact (hs'.free_fresh hfr).2 _ (hs'.owned hprog)

end Runs


/-- The boot of the first process, a pipe, and a copy of its reading end. -/
def pipeRun : List (Slot × Move Call) :=
  List.replicate 14 (initproc, .run) ++ [(initproc, .call .forkret), (initproc, .run),
    (initproc, .call .pipe)] ++ List.replicate 8 (initproc, .run) ++
    [(initproc, .call (.dup ⟨0, by decide⟩)), (initproc, .run), (initproc, .run)]

def file0 : FileId := ⟨0, by decide⟩

theorem open_file_references_dup : ∃ m : State,
    Reach (Step (body 0x100000 []) may) (boot 0x100000 [] [] bootFree) m ∧ Between m ∧
      (m.shared.file file0).ref = 2 ∧ (holders m file0).card = 2 ∧
      0x404000 ∈ pipePages m.shared.pipes := by
  refine reach_any (P := fun m => Between m ∧ (m.shared.file file0).ref = 2 ∧
    (m.shared.file file0).type = .pipe 0x404000 false) pipeRun (by decide +kernel) ?_
  intro m hreach ⟨hbetween, href, htype⟩
  obtain ⟨-, hrefs, hpages, -⟩ :=
    open_file_references (by decide) (by decide) (by simp) bootFree_kinit hreach
  exact ⟨hbetween, href, (hrefs hbetween file0).symm.trans href,
    (hpages hbetween _).mpr ⟨file0, false, htype⟩⟩
end Xv6.Kernel
