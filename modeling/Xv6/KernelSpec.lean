import Xv6.KernelOwn

/-!
One specification for each system call of the kernel: it gives back only pages it owns, and it
leaves the thread as it found it, whatever `kalloc` answers and whatever the other threads do.
-/

namespace Xv6.Kernel

open Xv6.Lib.Own Xv6.Lib.Threads Xv6.PageTable Xv6.ProcTable

variable {kend : ℕ} {exact : Prop} {l : Task} {o : Multiset ℕ} {α : Type}

/-! ### Programs on an address space -/

/-- What a program on an address space of the thread sees. -/
abbrev vspec (kend : ℕ) (exact : Prop) (m : Multiset Tok) : Spec Shared Vm ℕ Panic Tok :=
  (kspec kend exact).part (fun v => pages v.dir) m

lemma vmSpec_part (hk : 0 < kend) (m : Multiset Tok) : VmSpec kend (vspec kend exact m) :=
  ⟨fun _ => rfl, fun _ _ _ => rfl, fun _ _ _ _ _ _ => rfl, fun _ => id, hk⟩

lemma blind_part (m : Multiset Tok) : Blind (vspec kend exact m) := fun _ _ => rfl

variable {p : VmProg Shared α} {f : FileId} {Q : Unit → Task → Multiset ℕ → Prop} {fd : Fd}

lemma wp_onVm {S : Spec Shared Task ℕ Panic Tok} (hown : S.own = Task.own) (htok : S.tok = Task.tok)
    {Q : α → Task → Multiset ℕ → Prop} (h : wp (S.part (fun v => pages v.dir) l.tok) p
      (fun a v o => Q a { l with vm := v } o) l.vm o) : wp S (onVm p) Q l o := by
  unfold onVm
  rw [← htok] at h
  refine wp_zoom (fun l => pages l.tmp.dir + one l.kstack + one l.stack) ?_ ?_ ?_ ?_ ?_ ?_ h
  · exact fun _ _ => rfl
  · exact fun _ _ _ => rfl
  · exact fun _ _ => rfl
  · exact fun _ => rfl
  · intro x
    rw [hown, Task.own]
    abel
  · intro v x
    rw [htok]
    rfl

lemma wp_onTmp {Q : α → Task → Multiset ℕ → Prop}
    (h : wp (vspec kend exact l.tok) p (fun a v o => Q a { l with tmp := v } o) l.tmp o) :
    wp (kspec kend exact) (onTmp p) Q l o := by
  unfold onTmp
  refine wp_zoom (fun l => pages l.vm.dir + one l.kstack + one l.stack) ?_ ?_ ?_ ?_ ?_ ?_ h
  · exact fun _ _ => rfl
  · exact fun _ _ _ => rfl
  · exact fun _ _ => rfl
  · exact fun _ => rfl
  · intro x
    change Task.own x = _
    unfold Task.own
    abel
  · exact fun _ _ => rfl

variable {s s' : Shared}

lemma run_onTmp {fails : ℕ → Bool} {r : Outcome Panic α} {h h' : Heap ℕ} {v : Vm}
    (hp : run fails p h s l.tmp = ⟨r, h', s', v⟩) :
    run fails (onTmp p) h s l = ⟨r, h', s', { l with tmp := v }⟩ := by
  have hview : ∀ (v : Vm) (l : Task), Task.tmp { l with tmp := v } = v := fun _ _ => rfl
  unfold onTmp
  rw [run_zoom fails hview (fun _ _ _ => rfl) fun _ => rfl, hp]

/-! ### Files -/

lemma KInv.of_files {F m m' A : Multiset Tok} (h : KInv exact s (F + m)) (hproc : s'.proc = s.proc)
    (hA : A = F + m' + s.tok) (hf : FileInv s' A) :
    KInv exact s' (F + m') := by
  have htok : s'.tok = s.tok := by rw [Shared.tok, hproc, Shared.tok]
  refine ⟨?_, fun p => ?_⟩
  · rw [htok, ← hA]
    exact hf
  · rw [hproc]
    exact h.entries p

lemma wp_filealloc {keep : FileId → Task → Task} {Q : Option FileId → Task → Multiset ℕ → Prop}
    (htok : ∀ f, (keep f l).tok = .fresh f ::ₘ l.tok) (hown : ∀ f, (keep f l).own = l.own)
    (hnone : Q none l o) (hsome : ∀ f, Q (some f) (keep f l) o) :
    wp (kspec kend exact) (filealloc keep) Q l o := by
  refine wp_act trivial fun s F hs _ _ => ?_
  dsimp only
  rcases hf : freeFile s with _ | f
  · exact ⟨hs, o, rfl, fun _ => hnone⟩
  have href : (s.file f).ref = 0 := by simpa using List.find?_some hf
  refine ⟨KInv.of_files hs rfl ?_ (hs.files.alloc href), o, ?_, fun _ => hsome f⟩
  · change Tok.fresh f ::ₘ (F + l.tok + s.tok) = F + (keep f l).tok + s.tok
    rw [htok, Multiset.add_cons, Multiset.cons_add]
  · change s.pages + (keep f l).own + o = s.pages + l.own + o
    rw [hown]

lemma wp_filedup {keep : Task → Task} (hmem : .file f ∈ l.tok)
    (htok : (keep l).tok = .file f ::ₘ l.tok) (hown : (keep l).own = l.own) (h : Q () (keep l) o) :
    wp (kspec kend exact) (filedup f keep) Q l o := by
  refine wp_act trivial fun s F hs _ _ => ?_
  have hin : Tok.file f ∈ F + l.tok + s.tok :=
    Multiset.mem_add.mpr (Or.inl (Multiset.mem_add.mpr (Or.inr hmem)))
  have hpos : ¬ (s.file f).ref < 1 := by
    have h1 := hs.files.refs f
    have h2 := Multiset.count_pos.mpr hin
    change (s.file f).ref = (F + l.tok + s.tok).count _ + (F + l.tok + s.tok).count _ at h1
    omega
  dsimp only
  rw [if_neg hpos, if_neg hpos]
  refine ⟨KInv.of_files hs rfl ?_ (hs.files.dup hin), o, ?_, fun _ => h⟩
  · change Tok.file f ::ₘ (F + l.tok + s.tok) = F + (keep l).tok + s.tok
    rw [htok, Multiset.add_cons, Multiset.cons_add]
  · change s.pages + (keep l).own + o = s.pages + l.own + o
    rw [hown]

lemma tok_setFf (l : Task) (e : Option (ℕ × Bool)) :
    (l.setFf e).tok = pendTok e + (l.setFf none).tok := by
  simp only [Task.tok, Task.setFf, pendTok, Option.map_none, one_none, add_zero]
  abel

lemma setFf_eq {e : Option (ℕ × Bool)} (h : l.ff = e) : l.setFf e = l := by
  rw [← h]
  rfl

lemma wp_pipeclose {page : ℕ} {w : Bool} (hff : l.ff = some (page, w)) (h : Q () (l.setFf none) o) :
    wp (kspec kend exact) (pipeclose kend page w) Q l o := by
  refine wp_act trivial fun s F hs hn _ => ?_
  have htok : l.tok = .pend page w ::ₘ (l.setFf none).tok := by
    rw [← Multiset.singleton_add, ← setFf_eq hff, tok_setFf]
    rfl
  have hfiles : FileInv s (.pend page w ::ₘ (F + (l.setFf none).tok + s.tok)) := by
    have := hs.files
    change FileInv s (F + l.tok + s.tok) at this
    rwa [htok, Multiset.add_cons, Multiset.cons_add] at this
  have hpipes : (pipePages s.pipes).Nodup := by
    refine Multiset.nodup_of_le ?_ hn
    exact le_trans (Multiset.le_add_left _ _) (Multiset.le_add_right _ _)
  obtain ⟨q, hq, hf, hpages⟩ := hfiles.closePipe hpipes
  have hproc : (closePipe s page w).proc = s.proc := by
    unfold closePipe
    split <;> rfl
  have hshared : s.pages = (if q.dead then {page} else 0) + (closePipe s page w).pages := by
    unfold Shared.pages
    rw [hproc, hpages]
    abel
  dsimp only
  rw [hq]
  refine ⟨KInv.of_files hs hproc rfl hf, (if q.dead then {page} else 0) + o, ?_, ?_⟩
  · change (closePipe s page w).pages + l.own + _ = s.pages + l.own + o
    rw [hshared]
    abel
  · dsimp only
    split_ifs
    · refine wp_kfree' (fun _ => id) o rfl ?_ fun _ => h
      rw [Multiset.singleton_add]
      rfl
    · rw [zero_add]
      exact fun _ => h

/-- `fileclose` by the holder of a reference. -/
lemma wp_fileclose {forget : Task → Task} {t : Tok} (ht : t = .file f ∨ t = .fresh f)
    (hff : (forget l).ff = none) (htok : l.tok = t ::ₘ (forget l).tok)
    (hown : (forget l).own = l.own) (h : Q () (forget l) o) :
    wp (kspec kend exact) (fileclose kend f forget) Q l o := by
  refine wp_act trivial fun s F hs _ _ => ?_
  have hfiles : FileInv s (t ::ₘ (F + (forget l).tok + s.tok)) := by
    have := hs.files
    change FileInv s (F + l.tok + s.tok) at this
    rwa [htok, Multiset.add_cons, Multiset.cons_add] at this
  have hself := setFf_eq hff
  obtain ⟨hpos, hf⟩ := hfiles.close ht
  have hpos' : ¬ (s.file f).ref < 1 := by omega
  rw [if_neg hpos', if_neg hpos']
  refine ⟨KInv.of_files hs rfl ?_ hf, o, ?_, ?_⟩
  · change _ = F + ((forget l).setFf (lastEnd (s.file f))).tok + s.tok
    rw [tok_setFf, hself]
    abel
  · change s.pages + (forget l).own + o = s.pages + l.own + o
    rw [hown]
  · rcases he : lastEnd (s.file f) with _ | ⟨page, w⟩
    · rw [hself]
      exact fun _ => h
    · refine wp_pipeclose rfl ?_
      change Q () ((forget l).setFf none) o
      rwa [hself]

/-- A step of the thread on its own memory. -/
lemma wp_set {u : Task → Task} (htok : (u l).tok = l.tok) (hown : (u l).own = l.own)
    (h : Q () (u l) o) :
    wp (kspec kend exact) (Prog.modify u : KProg Unit) Q l o :=
  wp_modify o htok (congrArg (· + o) hown) fun _ => h

lemma fileToks_update (ofile : Fd → Option FileId) (fd : Fd) (x : Option FileId) :
    fileToks (Function.update ofile fd x) + one ((ofile fd).map Tok.file) =
      fileToks ofile + one (x.map Tok.file) :=
  sum_update_add (fun _ f => one (Option.map Tok.file f)) ofile fd x

/-- A free descriptor is given a file. -/
lemma tok_setFd_some (hfd : l.ofile fd = none) (f : FileId) :
    (setFd l fd (some f)).tok = .file f ::ₘ l.tok := by
  have h := fileToks_update l.ofile fd (some f)
  simp only [hfd, Option.map_none, one_none, add_zero, Option.map_some, one_some] at h
  simp only [Task.tok, setFd, h, ← Multiset.singleton_add]
  abel

/-- A descriptor is closed. -/
lemma tok_setFd_none (hfd : l.ofile fd = some f) : l.tok = .file f ::ₘ (setFd l fd none).tok := by
  have h := fileToks_update l.ofile fd none
  simp only [hfd, Option.map_none, one_none, add_zero, Option.map_some, one_some] at h
  simp only [Task.tok, setFd, ← h, ← Multiset.singleton_add]
  abel

lemma freeFd_none {ofile : Fd → Option FileId} (h : freeFd ofile = some fd) :
    ofile fd = none := by simpa using List.find?_some h

/-! ### The thread between two calls -/

/-- The local variables of the system calls are not in use. -/
structure Clean (l : Task) : Prop where
  tmp : pages l.tmp.dir = 0
  child : l.child = none
  stack : l.stack = none
  cofile : l.cofile = fun _ => none
  var : l.var = fun _ => none
  ff : l.ff = none

/-- The thread has a process. -/
structure Alive (exact : Prop) (me : Slot) (l : Task) : Prop where
  clean : Clean l
  self : l.self = some me
  page : l.vm.dir.page.isSome
  sz : l.sz < KERNBASE
  exact : exact → Exact l.vm l.sz

/-- The thread has none. -/
structure Idle (l : Task) : Prop where
  clean : Clean l
  self : l.self = none
  vm : pages l.vm.dir = 0
  kstack : l.kstack = none
  ofile : l.ofile = fun _ => none

def Rest (exact : Prop) (me : Slot) (l : Task) : Prop := Alive exact me l ∨ Idle l

section Descriptors

variable {me : Slot}

/-- Between calls only the descriptors have changed. -/
lemma Alive.setFd (h : Alive exact me l) (fd : Fd) (f : Option FileId) :
    Alive exact me (setFd l fd f) :=
  ⟨⟨h.clean.tmp, h.clean.child, h.clean.stack, h.clean.cofile, h.clean.var, h.clean.ff⟩, h.self,
    h.page, h.sz, h.exact⟩

lemma wp_close (h : Alive exact me l) (fd : Fd) :
    wp (kspec kend exact) (close kend fd) (fun _ l _ => Alive exact me l) l o := by
  unfold close
  refine wp_bind (wp_get fun _ => ?_)
  rcases hf : l.ofile fd with _ | f
  · exact wp_pure fun _ => h
  · refine wp_bind (wp_fileclose (t := .file f) (Or.inl rfl) h.clean.ff (tok_setFd_none hf) rfl ?_)
    exact wp_pure fun _ => h.setFd fd none

lemma wp_dup (h : Alive exact me l) (fd : Fd) :
    wp (kspec kend exact) (dup fd) (fun _ l _ => Alive exact me l) l o := by
  unfold dup
  refine wp_bind (wp_get fun _ => ?_)
  rcases hf : l.ofile fd with _ | f
  · exact wp_pure fun _ => h
  rcases hfd : freeFd l.ofile with _ | fd'
  · exact wp_pure fun _ => h
  have hmem : Tok.file f ∈ l.tok := by
    rw [tok_setFd_none hf]
    exact Multiset.mem_cons_self _ _
  refine wp_bind (wp_filedup hmem (tok_setFd_some (freeFd_none hfd) f) rfl ?_)
  exact wp_pure fun _ => h.setFd fd' (some f)

lemma tok_setVar (v : Var) (x : Option FileId) :
    (l.setVar v x).tok + one ((l.var v).map v.tok) = l.tok + one (x.map v.tok) := by
  have h := sum_update_add (fun v f => one (Option.map v.tok f)) l.var v x
  simp only [Task.tok, Task.setVar]
  calc _ = ∑ u, one (Option.map u.tok (Function.update l.var v x u)) + one ((l.var v).map v.tok) +
        (one (l.self.map .slot) + one (l.child.map .slot) + fileToks l.ofile + fileToks l.cofile +
          one (l.ff.map fun e => .pend e.1 e.2)) := by abel
    _ = _ := by
        rw [h]
        abel

variable {v : Var} {f : FileId}

/-- A variable is given a file. -/
lemma tok_setVar_some (h : l.var v = none) (f : FileId) :
    (l.setVar v (some f)).tok = v.tok f ::ₘ l.tok := by
  have := tok_setVar (l := l) v (some f)
  simp only [h, Option.map_none, one_none, add_zero, Option.map_some, one_some] at this
  rw [this, ← Multiset.singleton_add, add_comm]

/-- A variable is given up. -/
lemma tok_setVar_none (h : l.var v = some f) : l.tok = v.tok f ::ₘ (l.setVar v none).tok := by
  have := tok_setVar (l := l) v none
  simp only [h, Option.map_none, one_none, add_zero, Option.map_some, one_some] at this
  rw [← this, ← Multiset.singleton_add, add_comm]

/-- `fdalloc` of the file in a variable. -/
lemma tok_fdalloc {fd : Fd} (hv : l.var v = some f) (hvf : v.tok f = .file f)
    (hfd : l.ofile fd = none) : (setFd (l.setVar v none) fd (some f)).tok = l.tok := by
  rw [tok_setVar_none hv, hvf]
  exact tok_setFd_some (l := l.setVar v none) hfd f

/-- `fileclose` of the file in a variable. -/
lemma wp_closeVar {Q : Unit → Task → Multiset ℕ → Prop} (hv : l.var v = some f) (hff : l.ff = none)
    (h : Q () (l.setVar v none) o) :
    wp (kspec kend exact) (fileclose kend f fun l => l.setVar v none) Q l o := by
  refine wp_fileclose (t := v.tok f) ?_ hff (tok_setVar_none hv) rfl h
  cases v
  · exact Or.inr rfl
  · exact Or.inr rfl
  · exact Or.inl rfl
  · exact Or.inl rfl

/-- All variables at once. -/
def setVars (l : Task) (g : Var → Option FileId) : Task := { l with var := g }

section Vars

variable (l : Task) (g g' : Var → Option FileId) (v : Var) (x : Option FileId) (fd : Fd)

lemma setVar_eq : l.setVar v x = setVars l (Function.update l.var v x) := rfl
lemma setVars_var : (setVars l g).var = g := rfl
lemma setVars_setVars : setVars (setVars l g) g' = setVars l g' := rfl
lemma setFd_var : (setFd l fd x).var = l.var := rfl
lemma setFd_setFd (y : Option FileId) : setFd (setFd l fd y) fd x = setFd l fd x := by simp [setFd]
lemma setVars_setFd : setVars (setFd l fd x) g = setFd (setVars l g) fd x := rfl

variable {l g}

lemma setVars_self (h : ∀ v, g v = l.var v) : setVars l g = l := by
  rw [funext h]
  rfl

end Vars

lemma wp_pipealloc (hvar : l.var = fun _ => none) (hff : l.ff = none)
    {Q : Option (FileId × FileId) → Task → Multiset ℕ → Prop} (hnone : Q none l o)
    (hsome : ∀ f0 f1, Q (some (f0, f1)) ((l.setVar .rf (some f0)).setVar .wf (some f1)) o) :
    wp (kspec kend exact) (pipealloc kend) Q l o := by
  unfold pipealloc
  refine wp_bind (wp_filealloc (tok_setVar_some (by rw [hvar])) (fun _ => rfl)
    (wp_pure fun _ => hnone) fun a => ?_)
  have hv1 : (l.setVar .f0 (some a)).var .f1 = none := by simp [Task.setVar, hvar]
  refine wp_bind (wp_filealloc (tok_setVar_some hv1) (fun _ => rfl) ?_ fun b => ?_)
  · -- no second file
    refine wp_bind (wp_closeVar (by simp [Task.setVar]) hff (wp_pure fun _ => ?_))
    have he : (l.setVar .f0 (some a)).setVar .f0 none = l := by
      simp only [setVar_eq, setVars_setVars, setVars_var]
      exact setVars_self fun v => by cases v <;> simp [hvar]
    rwa [he]
  refine wp_bind (wp_new (fun _ => ?_) fun p _ _ _ => ?_)
  · -- no page
    refine wp_bind (wp_closeVar (by simp [Task.setVar]) hff ?_)
    refine wp_bind (wp_closeVar (by simp [Task.setVar]) hff (wp_pure fun _ => ?_))
    have he : (((l.setVar .f0 (some a)).setVar .f1 (some b)).setVar .f0 none).setVar .f1 none =
      l := by
      simp only [setVar_eq, setVars_setVars, setVars_var]
      exact setVars_self fun v => by cases v <;> simp [hvar]
    rwa [he]
  · have he :
      (((((l.setVar .f0 (some a)).setVar .f1 (some b)).setVar .f0 none).setVar .f1 none).setVar
        .rf (some a)).setVar .wf (some b) = (l.setVar .rf (some a)).setVar .wf (some b) := by
      simp only [setVar_eq, setVars_setVars, setVars_var]
      exact congrArg (setVars l) (funext fun v => by cases v <;> simp [hvar])
    have hbefore : ((l.setVar .f0 (some a)).setVar .f1 (some b)).tok =
        .fresh a ::ₘ .fresh b ::ₘ l.tok := by
      rw [tok_setVar_some hv1, tok_setVar_some (by rw [hvar]), Multiset.cons_swap]
      rfl
    have hafter : ((l.setVar .rf (some a)).setVar .wf (some b)).tok =
        .file a ::ₘ .file b ::ₘ l.tok := by
      rw [tok_setVar_some (by simp [Task.setVar, hvar]), tok_setVar_some (by rw [hvar]),
        Multiset.cons_swap]
      rfl
    refine wp_bind (wp_act trivial fun s F hs _ _ => ?_)
    have hfiles : FileInv s (.fresh a ::ₘ .fresh b ::ₘ (F + l.tok + s.tok)) := by
      have := hs.files
      change FileInv s (F + ((l.setVar .f0 (some a)).setVar .f1 (some b)).tok + s.tok) at this
      rwa [hbefore, Multiset.add_cons, Multiset.add_cons, Multiset.cons_add,
        Multiset.cons_add] at this
    dsimp only
    rw [he]
    refine ⟨KInv.of_files hs rfl ?_ (hfiles.newPipe p), o, ?_, fun _ => wp_pure fun _ => hsome a b⟩
    · change _ = F + ((l.setVar .rf (some a)).setVar .wf (some b)).tok + s.tok
      rw [hafter, Multiset.add_cons, Multiset.add_cons, Multiset.cons_add, Multiset.cons_add]
    · change ∑ q, (s.proc q).pages + (p ::ₘ pipePages s.pipes) + l.own + o =
        ∑ q, (s.proc q).pages + pipePages s.pipes + l.own + p ::ₘ o
      rw [Multiset.add_cons, Multiset.add_cons, Multiset.cons_add, Multiset.cons_add]

lemma wp_pipe (h : Alive exact me l) :
    wp (kspec kend exact) (pipe kend) (fun _ l _ => Alive exact me l) l o := by
  have hvar := h.clean.var
  unfold pipe
  refine wp_bind (wp_pipealloc hvar h.clean.ff (wp_pure fun _ => h) fun a b => ?_)
  refine wp_bind (wp_get fun _ => ?_)
  have hwf : ((l.setVar .rf (some a)).setVar .wf (some b)).var .rf = some a := by
    simp [Task.setVar]
  rcases hfd : freeFd ((l.setVar .rf (some a)).setVar .wf (some b)).ofile with _ | fd0
  · refine wp_bind (wp_closeVar hwf h.clean.ff ?_)
    refine wp_bind (wp_closeVar (by simp [Task.setVar]) h.clean.ff (wp_pure fun _ => ?_))
    have he : (((l.setVar .rf (some a)).setVar .wf (some b)).setVar .rf none).setVar .wf none =
      l := by
      simp only [setVar_eq, setVars_setVars, setVars_var]
      exact setVars_self fun v => by cases v <;> simp [hvar]
    rwa [he]
  have hfree := freeFd_none hfd
  -- the file goes over from the variable to the descriptor
  have he0 : ((l.setVar .rf (some a)).setVar .wf (some b)).setVar .rf none =
      l.setVar .wf (some b) := by
    simp only [setVar_eq, setVars_setVars, setVars_var]
    exact congrArg (setVars l) (funext fun v => by cases v <;> simp [hvar])
  refine wp_bind (wp_set ?_ rfl ?_)
  · exact tok_fdalloc hwf rfl hfree
  rw [he0]
  refine wp_bind (wp_get fun _ => ?_)
  rcases hfd1 : freeFd (setFd (l.setVar .wf (some b)) fd0 (some a)).ofile with _ | fd1
  · refine wp_bind (wp_fileclose (t := .file a) (Or.inl rfl) h.clean.ff (tok_setFd_none ?_) rfl ?_)
    · simp [setFd]
    refine wp_bind (wp_closeVar (by simp [setFd, Task.setVar]) h.clean.ff (wp_pure fun _ => ?_))
    have he : (setFd (setFd (l.setVar .wf (some b)) fd0 (some a)) fd0 none).setVar .wf none =
        setFd l fd0 none := by
      simp only [setVar_eq, setVars_setVars, setVars_var, setFd_var, setVars_setFd, setFd_setFd]
      rw [setVars_self fun v => by cases v <;> simp [hvar]]
    rw [he]
    exact h.setFd fd0 none
  · refine wp_bind (wp_set ?_ rfl (wp_pure fun _ => ?_))
    · exact tok_fdalloc (by simp [setFd, Task.setVar]) rfl (freeFd_none hfd1)
    · have he : setFd ((setFd (l.setVar .wf (some b)) fd0 (some a)).setVar .wf none) fd1 (some b) =
          setFd (setFd l fd0 (some a)) fd1 (some b) := by
        simp only [setVar_eq, setVars_setVars, setVars_var, setFd_var, setVars_setFd]
        rw [setVars_self fun v => by cases v <;> simp [hvar]]
      rw [he]
      exact (h.setFd fd0 (some a)).setFd fd1 (some b)

lemma wp_openFile (h : Alive exact me l) :
    wp (kspec kend exact) (openFile kend) (fun _ l _ => Alive exact me l) l o := by
  have hvar := h.clean.var
  unfold openFile
  refine wp_bind (wp_filealloc (tok_setVar_some (by rw [hvar])) (fun _ => rfl)
    (wp_pure fun _ => h) fun a => ?_)
  have he : (l.setVar .f0 (some a)).setVar .f0 none = l := by
    simp only [setVar_eq, setVars_setVars, setVars_var]
    exact setVars_self fun v => by cases v <;> simp [hvar]
  refine wp_bind (wp_get fun _ => ?_)
  rcases hfd : freeFd (l.setVar .f0 (some a)).ofile with _ | fd
  · refine wp_bind (wp_closeVar (by simp [Task.setVar]) h.clean.ff (wp_pure fun _ => ?_))
    rwa [he]
  refine wp_bind (wp_act trivial fun s F hs _ _ => ?_)
  have hfiles : FileInv s (.fresh a ::ₘ (F + l.tok + s.tok)) := by
    have := hs.files
    change FileInv s (F + (l.setVar .f0 (some a)).tok + s.tok) at this
    rw [tok_setVar_some (by rw [hvar]), Multiset.add_cons, Multiset.cons_add] at this
    exact this
  dsimp only
  rw [he]
  refine ⟨KInv.of_files hs rfl ?_ (hfiles.setType .inode rfl fun page w => ?_), o, rfl,
    fun _ => wp_pure fun _ => h.setFd fd (some a)⟩
  · have hfree : l.ofile fd = none := freeFd_none hfd
    change _ = F + (setFd l fd (some a)).tok + s.tok
    rw [tok_setFd_some hfree, Multiset.add_cons, Multiset.cons_add]
  · simp [Shared.setFile]

end Descriptors

end Xv6.Kernel
