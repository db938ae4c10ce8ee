import Xv6.VmRun
import Xv6.Sbrk

/-!
`exec` of a regular file. Whatever bytes are in the file and whatever `kalloc` refuses, it reaches
no panic, and it either leaves the process as it was or gives it the address space that the file
describes.
-/

namespace Xv6.Kernel

open Xv6.Lib.Own Xv6.PageTable Xv6.ProcTable

/-- `readi` of a regular file; where it returns `-1` nothing is read. -/
def readFile (file : List UInt8) : Readi := fun off n =>
  if off > file.length ∨ (off + n) % 2 ^ 32 < off then [] else (file.drop off).take n

/-- The last segment of the file that has bytes for `va`. -/
def segmentAt (phs : List Phdr) (va : ℕ) : Option Phdr :=
  phs.reverse.find? fun ph => ph.isLoad ∧ ph.vaddr ≤ va ∧ va < ph.vaddr + ph.filesz

/-- What the file asks for at `va`. -/
def fileByte (file : List UInt8) (phs : List Phdr) (va : ℕ) : UInt8 :=
  match segmentAt phs va with
  | some ph => file.getD (ph.off + (va - ph.vaddr)) 0
  | none => 0

/-! ### The process with its name -/

structure Named where
  task : Task
  name : List UInt8

def onTask {α : Type} (p : KProg α) : Prog Shared Named ℕ Panic α :=
  p.zoom Named.task fun t x => { x with task := t }

/-- `last`, with the rest of the path to look at. -/
def lastName : List UInt8 → List UInt8 → List UInt8
  | last, [] => last
  | last, c :: s => if c = 47 then lastName s s else lastName last s

/-- What `safestrcpy(s, t, n)` leaves at `s`. -/
def safestrcpy (t : List UInt8) (n : ℕ) : List UInt8 := t.take (n - 1)

/-- `exec` of the file at `path`, with the name of the process. -/
def execNamed (kend : ℕ) (kmap : List Kmap) (path : List UInt8) (ip : Option Readi)
    (argv : List (List UInt8)) : Prog Shared Named ℕ Panic Bool :=
  match ip with
  | none => pure false
  | some ip => do
    let l ← onTask Prog.get
    match ← onTask (onTmp (execImage kend kmap (zeroWord l.vm) ip argv)) with
    | none => pure false
    | some c =>
      Prog.modify fun x => { x with name := safestrcpy (lastName path path) 16 }
      onTask (Prog.modify fun l =>
        { l with vm := l.tmp, tmp := l.vm, sz := c.sz, eip := c.entry, esp := c.sp })
      onTask (onTmp (freevm kend))
      pure true

lemma hides_onTask {α : Type} (p : KProg α) : Hides id Named.task (onTask p) p := by
  have hview : ∀ (t : Task) (x : Named), Named.task { x with task := t } = t := fun _ _ => rfl
  exact hides_zoom hview (fun _ _ _ => rfl) (fun _ => rfl) p

section File

variable {file : List UInt8}

lemma readFile_full {off n : ℕ} (hn : 0 < n) (h : (readFile file off n).length = n) :
    off + n ≤ file.length ∧ readFile file off n = (file.drop off).take n := by
  unfold readFile at h ⊢
  split_ifs at h ⊢ with hbad
  · rw [List.length_nil] at h
    omega
  · rw [List.length_take, List.length_drop] at h
    exact ⟨by omega, rfl⟩

/-- A segment that is read in full lies in the file, and no offset wraps round. -/
lemma readFull_page {off sz : ℕ} (hfile : file.length < 2 ^ 32) (hoff : off < 2 ^ 32)
    (h : ReadFull (readFile file) off sz 0) (j : ℕ) (hj : j < sz) (hal : j % 4096 = 0) :
    off + j + min (sz - j) 4096 ≤ file.length := by
  induction j using Nat.strong_induction_on with
  | h j ih =>
  have hlt : off + j < 2 ^ 32 := by
    rcases Nat.eq_zero_or_pos j with h0 | hpos
    · omega
    · -- the page before ends where this one starts
      have hprev := ih (j - 4096) (by omega) (by omega) (by omega)
      omega
  have hfull := h j (Nat.zero_le _) hj hal
  rw [Nat.mod_eq_of_lt hlt] at hfull
  exact (readFile_full (by unfold PGSIZE; omega) hfull).1

lemma segByte_file {addr off sz va : ℕ} (hfile : file.length < 2 ^ 32) (hoff : off < 2 ^ 32)
    (h : ReadFull (readFile file) off sz 0) (h1 : addr ≤ va) (h2 : va < addr + sz) :
    segByte (readFile file) addr off sz va = file.getD (off + (va - addr)) 0 := by
  have hm : (va - addr) / 4096 * 4096 < sz := by omega
  have hin := readFull_page hfile hoff h _ hm (by omega)
  have hfull := h _ (Nat.zero_le _) hm (by omega)
  rw [Nat.mod_eq_of_lt (by omega)] at hfull
  have hread := (readFile_full (by unfold PGSIZE; omega) hfull).2
  have hidx : (va - addr) % 4096 < min (sz - (va - addr) / 4096 * 4096) PGSIZE := by
    unfold PGSIZE
    omega
  unfold segByte
  rw [Nat.mod_eq_of_lt (by omega), hread, List.getD_eq_getElem?_getD, List.getElem?_take_of_lt hidx,
    List.getElem?_drop, ← List.getD_eq_getElem?_getD]
  congr 1
  omega

/-- The last segment that has the byte is the one that is seen. -/
lemma segsByte_file {phs : List Phdr} (hfile : file.length < 2 ^ 32)
    (hphs : ∀ ph ∈ phs, ph.isLoad → ph.off < 2 ^ 32 ∧
      ReadFull (readFile file) ph.off ph.filesz 0) (va : ℕ) :
    segsByte (readFile file) va 0 phs = fileByte file phs va := by
  induction phs using List.reverseRecOn with
  | nil => rfl
  | append_singleton phs ph ih =>
    have hprev := ih fun q hq => hphs q (List.mem_append_left _ hq)
    unfold segsByte at hprev ⊢
    unfold fileByte segmentAt at hprev ⊢
    rw [List.foldl_append, List.foldl_cons, List.foldl_nil, List.reverse_append,
      List.reverse_singleton, List.singleton_append, List.find?_cons, Phdr.put]
    by_cases hin : ph.isLoad ∧ ph.vaddr ≤ va ∧ va < ph.vaddr + ph.filesz
    · obtain ⟨hoff, hfull⟩ := hphs ph (by simp) hin.1
      rw [if_pos hin, decide_eq_true hin]
      exact segByte_file hfile hoff hfull hin.2.1 hin.2.2
    · rw [if_neg hin, decide_eq_false hin]
      exact hprev

lemma phdrs_off (ip : Readi) (n off : ℕ) : ∀ ph ∈ phdrs ip n off, ph.off < 2 ^ 32 := by
  induction n generalizing off with
  | zero => simp [phdrs]
  | succ n ih =>
    intro ph hph
    rcases List.mem_cons.mp hph with rfl | hph
    · exact field_lt (ip off proghdrSize) 4 4
    · exact ih _ ph hph

/-- Strings that fit on the stack page do not reach down to the end of memory. -/
lemma stackMapped_of_fit {argv : List (List UInt8)} (h : argsSize argv ≤ PGSIZE) (kmap : List Kmap)
    (ip : Readi) : StackMapped kmap ip argv := by
  intro r hr k hk
  left
  have htop : 8192 ≤ stackTop ip ∧ stackTop ip % 4096 = 0 := by
    unfold stackTop pgroundup PGSIZE
    omega
  generalize stackTop ip = top at hr htop ⊢
  by_cases hwrap : 2 ^ 32 ≤ top
  · exact lt_of_lt_of_le (Nat.mod_lt _ (by decide)) hwrap
  have hfit : argsSize argv ≤ 4096 := h
  obtain ⟨hranges, hsp⟩ := @argRanges_fit top argv (by omega) (by omega) (by omega)
  have hin : r.1 + r.2 ≤ top := by
    rcases List.mem_append.mp hr with hr | hr
    · exact (hranges r hr).2
    · split_ifs at hr with hmax
      · have hmax' : argv.length ≤ 32 := hmax
        rw [List.mem_singleton.mp hr, hsp]
        unfold sub32
        dsimp only
        omega
      · simp at hr
  exact lt_of_le_of_lt (Nat.mod_le _ _) (by omega)

end File

/-! ### The call -/

/-- `exec` has failed: the directory, the size, the trap frame and the name are as before, and the
same pages are free. -/
structure ExecFailed (h : Heap ℕ) (s : Shared) (x : Named) (r : Result Shared Named ℕ Panic Bool) :
    Prop where
  task : r.loc.task = { x.task with tmp := r.loc.task.tmp }
  name : r.loc.name = x.name
  free : r.heap.free.Perm h.free
  shared : r.shared = s

/-- The process runs the program of the file, in pages that were free; its old ones are free now. -/
structure Replaced (file path : List UInt8) (h : Heap ℕ) (s : Shared) (x : Named)
    (r : Result Shared Named ℕ Panic Bool) : Prop where
  present : ∀ va < r.loc.task.sz, present (r.loc.task.vm.dir.pte va)
  aligned : r.loc.task.sz % PGSIZE = 0
  low : r.loc.task.sz < KERNBASE
  guard : ¬ user (r.loc.task.vm.dir.pte (r.loc.task.sz - 2 * PGSIZE))
  segs : ∀ ph ∈ execPhdrs (readFile file), ph.isLoad →
    ph.filesz ≤ ph.memsz ∧ ph.vaddr + ph.memsz ≤ r.loc.task.sz - 2 * PGSIZE ∧
      (0 < ph.filesz → ph.off + ph.filesz ≤ file.length)
  byte : ∀ va < r.loc.task.sz - 2 * PGSIZE,
    byte r.loc.task.vm va = fileByte file (execPhdrs (readFile file)) va
  eip : r.loc.task.eip = field (file.take elfhdrSize) 24 4
  name : r.loc.name = safestrcpy (lastName path path) 16
  free : (r.heap.free + pages r.loc.task.vm.dir : Multiset ℕ) = h.free + pages x.task.vm.dir
  shared : r.shared = s

/-- What `exec` commits is what the file asks for. -/
lemma image_file {file : List UInt8} (hfile : file.length < 2 ^ 32) {argv : List (List UInt8)}
    {c : Committed} {v : Vm} (hi : PageTable.Image (readFile file) argv c v) :
    (∀ ph ∈ execPhdrs (readFile file), ph.isLoad →
      ph.filesz ≤ ph.memsz ∧ ph.vaddr + ph.memsz ≤ c.sz - 2 * PGSIZE ∧
        (0 < ph.filesz → ph.off + ph.filesz ≤ file.length)) ∧
      ∀ va < c.sz - 2 * PGSIZE, byte v va = fileByte file (execPhdrs (readFile file)) va := by
  have hoff (ph : Phdr) (hph : ph ∈ execPhdrs (readFile file)) : ph.off < 2 ^ 32 :=
    phdrs_off _ _ _ ph hph
  refine ⟨fun ph hph hload => ?_, fun va hva => ?_⟩
  · have hok := hi.ok ph hph hload
    have hlow : segsSize 0 (execPhdrs (readFile file)) < 2147483648 := hi.low
    refine ⟨hok.filesz, hok.fits.trans ?_, fun hpos => ?_⟩
    · rw [hi.sz, stackTop, Nat.add_sub_cancel, pgroundup_eq hi.low.le]
      omega
    · have hlast := readFull_page hfile (hoff ph hph) hok.full ((ph.filesz - 1) / 4096 * 4096)
        (by omega) (by omega)
      omega
  · rw [hi.byte va hva]
    exact segsByte_file hfile (fun ph hph hload => ⟨hoff ph hph, (hi.ok ph hph hload).full⟩) va

section Call

variable {kend : ℕ} {kmap : List Kmap} (fails : ℕ → Bool) {h : Heap ℕ} {s : Shared} {x : Named}

lemma run_onTask {fails : ℕ → Bool} {α : Type} {p : KProg α} {r : Outcome Panic α} {h' : Heap ℕ}
    {s' : Shared} {t : Task} (hp : run fails p h s x.task = ⟨r, h', s', t⟩) :
    run fails (onTask p) h s x = ⟨r, h', s', { x with task := t }⟩ := by
  have hview : ∀ (t : Task) (x : Named), Named.task { x with task := t } = t := fun _ _ => rfl
  unfold onTask
  rw [run_zoom fails hview (fun _ _ _ => rfl) fun _ => rfl, hp]

lemma Consistent.alone {l : Task} {free free' : List ℕ} {v : Vm} (hc : Consistent kend free s l)
    (hle : (free' + pages v.dir : Multiset ℕ) ≤ free + s.pages + l.own) : Alone kend free' v :=
  ⟨Multiset.nodup_of_le hle hc.nodup, fun pa hpa => hc.valid pa (Multiset.mem_of_le hle hpa)⟩

/-- The part of `exec` up to the commit. -/
lemma run_execImage (hk : 0 < kend) (hkmap : ∀ k ∈ kmap, k.high) (hapart : kmap.Pairwise Kmap.apart)
    {v : Vm} (halone : Alone kend h.free v) (s : Shared) (hv : pages v.dir = 0) (zero : Option ℕ)
    {ip : Readi} {argv : List (List UInt8)} (hstack : StackMapped kmap ip argv) :
    ∃ c h' v', run fails (execImage kend kmap zero ip argv) h s v = ⟨.done c, h', s, v'⟩ ∧
      (h'.free + pages v'.dir : Multiset ℕ) = h.free ∧
      match c with
      | none => pages v'.dir = 0
      | some c => PageTable.Image ip argv c v' := by
  have hS : VmSpec kend (soloSpec kend (fun _ => True) (fun _ => False) s v.mem) :=
    vmSpec_soloSpec hk
  have hexec : wp (soloSpec kend (fun _ => True) (fun _ => False) s v.mem)
      (execImage kend kmap zero ip argv) (fun c v' o => o = 0 ∧ match c with
        | none => pages v'.dir = 0
        | some c => PageTable.Image ip argv c v') v 0 :=
    wp_execImage hS hkmap (Or.inr hapart) (Or.inr hstack) (Or.inl blind_soloSpec) hv
      (fun _ _ himage _ => ⟨rfl, himage⟩) fun _ hpages _ => ⟨rfl, hpages⟩
  obtain ⟨c, h', v', o, hrun, ⟨rfl, hq⟩, hall⟩ := halone.run_done fails hexec
  rw [add_zero, hv, add_zero] at hall
  exact ⟨c, h', v', hrun, hall, hq⟩

/-- The old directory is given back. -/
lemma run_freevm (hk : 0 < kend) {v : Vm} (halone : Alone kend h.free v) (s : Shared)
    (hv : v.dir.page.isSome) :
    ∃ h' v', run fails (freevm kend) h s v = ⟨.done (), h', s, v'⟩ ∧
      (h'.free : Multiset ℕ) = h.free + pages v.dir := by
  have hS : VmSpec kend (soloSpec kend (fun _ => True) (fun _ => False) s v.mem) :=
    vmSpec_soloSpec hk
  have hfree : wp (soloSpec kend (fun _ => True) (fun _ => False) s v.mem) (freevm kend)
      (fun _ v' o => o = 0 ∧ pages v'.dir = 0) v 0 :=
    wp_freevm hS hv fun _ hpages _ => ⟨rfl, hpages⟩
  obtain ⟨_, h', v', o, hrun, ⟨rfl, hpages⟩, hall⟩ := halone.run_done fails hfree
  rw [hpages, add_zero, add_zero] at hall
  exact ⟨h', v', hrun, hall⟩

/-- **`exec` is all or nothing**, for every file and every pattern of failures of `kalloc`. -/
theorem exec_all_or_nothing (hk : 0 < kend) (hkmap : ∀ k ∈ kmap, k.high)
    (hapart : kmap.Pairwise Kmap.apart) {me : Slot} (hx : Alive False me x.task)
    (hc : Consistent kend h.free s x.task) (path : List UInt8) {file : List UInt8}
    (hfile : file.length < 2 ^ 32) {argv : List (List UInt8)} (hargv : argsSize argv ≤ PGSIZE) :
    let r := run fails (execNamed kend kmap path (some (readFile file)) argv) h s x
    r.out = .done false ∧ ExecFailed h s x r ∨
      r.out = .done true ∧ Replaced file path h s x r := by
  intro r
  have hget : run fails (onTask Prog.get) h s x = ⟨.done x.task, h, s, x⟩ := run_onTask rfl
  have halone : Alone kend h.free x.task.tmp := by
    refine hc.alone ?_
    rw [hx.clean.tmp, add_zero, add_assoc]
    exact Multiset.le_add_right _ _
  obtain ⟨c, h₁, v, hrun, hall, hq⟩ := run_execImage fails hk hkmap hapart halone s hx.clean.tmp
    (zeroWord x.task.vm) (stackMapped_of_fit hargv kmap (readFile file))
  have hr : r = run fails (execNamed kend kmap path (some (readFile file)) argv) h s x := rfl
  unfold execNamed at hr
  dsimp only at hr
  rw [run_bind_done hget, run_bind_done (run_onTask (run_onTmp hrun))] at hr
  rcases c with _ | c
  · rw [hr]
    rw [hq, add_zero] at hall
    exact Or.inl ⟨rfl, rfl, rfl, Multiset.coe_eq_coe.mp hall, rfl⟩
  · -- the old directory is still that of the process
    have hold : Alone kend h₁.free x.task.vm := by
      refine hc.alone ?_
      calc (h₁.free + pages x.task.vm.dir : Multiset ℕ)
          ≤ h.free + x.task.own := by
            refine add_le_add (hall ▸ Multiset.le_add_right _ _) ?_
            rw [Task.own, add_assoc, add_assoc]
            exact Multiset.le_add_right _ _
        _ ≤ h.free + s.pages + x.task.own := by
            rw [add_assoc]
            exact Multiset.add_le_add_left (Multiset.le_add_left _ _)
    obtain ⟨h₂, v', hfree, hfree'⟩ := run_freevm fails hk hold s hx.page
    let y : Named := ⟨{ x.task with
      vm := v, tmp := x.task.vm, sz := c.sz, eip := c.entry, esp := c.sp },
      safestrcpy (lastName path path) 16⟩
    have hlast : run fails (onTask (onTmp (freevm kend))) h₁ s y =
        ⟨.done (), h₂, s, { y with task := { y.task with tmp := v' } }⟩ :=
      run_onTask (run_onTmp hfree)
    have hend : r = ⟨.done true, h₂, s, { y with task := { y.task with tmp := v' } }⟩ := by
      rw [hr]
      change run fails (onTask (onTmp (freevm kend)) >>= fun _ => pure true) h₁ s y = _
      rw [run_bind_done hlast]
      rfl
    have himage : PageTable.Image (readFile file) argv c v := hq
    obtain ⟨hsegs, hbytes⟩ := image_file hfile himage
    have hentry : readFile file 0 elfhdrSize = file.take elfhdrSize := by
      unfold readFile
      rw [if_neg (by omega), List.drop_zero]
    rw [hend]
    refine Or.inr ⟨rfl, fun va hva => himage.filling.2.below hva, ?_, himage.filling.2.1,
      himage.guard, hsegs, hbytes, ?_, rfl, ?_, rfl⟩
    · change c.sz % PGSIZE = 0
      rw [himage.sz]
      unfold stackTop pgroundup PGSIZE
      omega
    · change c.entry = _
      rw [himage.entry, hentry]
    · change (h₂.free + pages v.dir : Multiset ℕ) = _
      rw [hfree', add_right_comm, hall]

end Call

/-! ### A program of four bytes -/

/-- A file with one segment, which starts with four bytes and goes on with as many zeros. -/
def tinyFile : List UInt8 :=
  [0x7F, 0x45, 0x4C, 0x46] ++ List.replicate 24 0 ++ [52, 0, 0, 0] ++ List.replicate 12 0 ++ [1, 0] ++
    List.replicate 6 0 ++ ([1, 84, 0, 0, 4, 8, 0, 0].flatMap fun w => [w, 0, 0, 0]) ++ [1, 2, 3, 4]

def tinyFree : List ℕ := [0x404000, 0x405000, 0x406000, 0x407000, 0x408000]

/-- A process without user pages. -/
def bare : Task :=
  { Task.idle with
    self := some initproc
    vm := ⟨⟨some 0x400000, fun _ => none⟩, fun _ _ => 0⟩
    kstack := some 0x403000 }

lemma bare_alive : Alive False initproc bare :=
  ⟨⟨pages_null, rfl, rfl, rfl, rfl, rfl⟩, rfl, rfl, by decide, False.elim⟩

lemma bare_consistent : Consistent 0x100000 tinyFree Shared.empty bare := by
  have hall : (tinyFree : Multiset ℕ) + Shared.empty.pages + bare.own =
      {0x404000, 0x405000, 0x406000, 0x407000, 0x408000, 0x400000, 0x403000} := by
    rw [empty_pages, Task.own, show pages bare.vm.dir = {0x400000} from pages_dir _,
      show pages bare.tmp.dir = 0 from pages_null]
    decide
  refine ⟨?_, ?_⟩
  · rw [hall]
    decide
  · rw [hall]
    decide

theorem exec_all_or_nothing_tiny :
    let r := run (fun _ => false) (execNamed 0x100000 [] [47, 97] (some (readFile tinyFile)) [[97]])
      ⟨tinyFree, 0⟩ Shared.empty ⟨bare, []⟩
    r.out = .done true ∧ Replaced tinyFile [47, 97] ⟨tinyFree, 0⟩ Shared.empty ⟨bare, []⟩ r := by
  have hout : (run (fun _ => false)
      (execNamed 0x100000 [] [47, 97] (some (readFile tinyFile)) [[97]])
      ⟨tinyFree, 0⟩ Shared.empty ⟨bare, []⟩).out = .done true := by decide +kernel
  have hk : 0 < 0x100000 := by decide
  have hkmap : ∀ k ∈ ([] : List Kmap), k.high := by simp
  have hfile : tinyFile.length < 2 ^ 32 := by decide
  have hargv : argsSize [[97]] ≤ PGSIZE := by decide
  rcases exec_all_or_nothing (h := ⟨tinyFree, 0⟩) (x := ⟨bare, []⟩) (fun _ => false) hk hkmap
    List.Pairwise.nil bare_alive bare_consistent [47, 97] hfile hargv with ⟨hno, -⟩ | hyes
  · rw [hout] at hno
    cases hno
  · exact hyes

end Xv6.Kernel
