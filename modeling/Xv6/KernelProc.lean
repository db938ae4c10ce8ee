import Xv6.KernelSpec

/-!
The specifications of the calls that make, change and end processes.
-/

namespace Xv6.Kernel

open Xv6.Lib.Own Xv6.Lib.Threads Xv6.PageTable Xv6.ProcTable

variable {kend : ℕ} {exact : Prop} {l : Task} {o : Multiset ℕ} {me : Slot} {kmap : List Kmap}

/-! ### Slots -/

variable {s : Shared} {guard : Shared → Bool} {u : Shared → Task → Shared × Task} {fds : List Fd}

lemma pages_congr {s' : Shared} (hproc : s'.proc = s.proc) (hpipes : s'.pipes = s.pipes) :
    s'.pages = s.pages := by rw [Shared.pages, hproc, hpipes, Shared.pages]

variable {p np : Slot} {Q : Unit → Task → Multiset ℕ → Prop}

/-- The holder of a slot changes it. -/
lemma wp_setProc {l' : Task} {e : Entry} (hproc : ∀ s, (u s l).1.proc = (s.setProc p e).proc)
    (hfile : ∀ s, (u s l).1.file = s.file) (hpipes : ∀ s, (u s l).1.pipes = s.pipes)
    (hl : ∀ s, (u s l).2 = l') (hheld : .slot p ∈ l.tok) (htok : l'.tok + e.tok p = l.tok)
    (hown : e.pages + l'.own = l.own) (hok : e.ok exact) (h : Q () l' o) :
    wp (kspec kend exact) (atomic guard u) Q l o := by
  refine wp_act trivial fun s F hs _ _ => ?_
  obtain ⟨h1, h2⟩ := KInv.held hs hheld
  rw [hl s]
  refine ⟨KInv.setProc hs (hproc s) (hfile s) (hpipes s) ?_ hok, o, ?_, fun _ => h⟩
  · rw [h1, add_zero]
    exact htok
  · have hpages : (u s l).1.pages = s.pages + e.pages := by
      rw [← pages_setProc, h2, add_zero]
      exact pages_congr (hproc s) (hpipes s)
    change (u s l).1.pages + l'.own + o = s.pages + l.own + o
    rw [hpages, ← hown]
    abel

/-- A step on the shared state that matters to nobody's pages. -/
lemma wp_frame (hproc : ∀ s, (u s l).1.proc = s.proc) (hfile : ∀ s, (u s l).1.file = s.file)
    (hpipes : ∀ s, (u s l).1.pipes = s.pipes) (hl : ∀ s, (u s l).2 = l) (h : Q () l o) :
    wp (kspec kend exact) (atomic guard u) Q l o := by
  refine wp_act trivial fun s F hs _ _ => ?_
  rw [hl s]
  refine ⟨KInv.of_files hs (hproc s) rfl (hs.files.congr (hfile s) (hpipes s)), o, ?_, fun _ => h⟩
  change (u s l).1.pages + l.own + o = s.pages + l.own + o
  rw [pages_congr (hproc s) (hpipes s)]

lemma tok_child (l : Task) (c : Option Slot) :
    ({ l with child := c } : Task).tok =
      one (c.map .slot) + ({ l with child := none } : Task).tok := by
  simp only [Task.tok, Option.map_none, one_none, add_zero]
  abel

lemma child_mem (h : l.child = some p) : .slot p ∈ l.tok := by
  simp [Task.tok, h]

/-- `np->state = UNUSED`. -/
lemma wp_dropSlot (hc : l.child = some np) (h : Q () { l with child := none } o) :
    wp (kspec kend exact) (dropSlot np) Q l o := by
  refine wp_setProc (fun _ => rfl) (fun _ => rfl) (fun _ => rfl) (fun _ => rfl) (child_mem hc) ?_ ?_
    trivial h
  · have hl : l.tok = one (l.child.map .slot) + ({ l with child := none } : Task).tok :=
      tok_child l l.child
    rw [hl, hc, add_comm]
    rfl
  · exact zero_add _

lemma wp_allocproc {Q : Option Slot → Task → Multiset ℕ → Prop} (hc : l.child = none)
    (hs : l.stack = none) (hnone : Q none l o)
    (hsome : ∀ np kstack, Q (some np) { l with child := some np, stack := some kstack } o) :
    wp (kspec kend exact) allocproc Q l o := by
  refine wp_act trivial fun s F hinv _ _ => ?_
  rcases hu : unusedSlot s with _ | np
  · exact ⟨hinv, o, rfl, fun _ => hnone⟩
  have hunused : s.proc np = .unused := by
    have := first_some hu
    rcases he : s.proc np <;> simp_all [Entry.isUnused]
  have htok : ({ l with child := some np } : Task).tok = {.slot np} + l.tok := by
    rw [tok_child]
    congr 2
    rw [← hc]
  refine ⟨KInv.setProc hinv rfl rfl rfl ?_ trivial, o, ?_, ?_⟩
  · rw [hunused]
    exact (add_zero _).trans (htok.trans (add_comm _ _))
  · have hpages := pages_setProc (s := s) (p := np) (e := .embryo)
    rw [hunused] at hpages
    have hp : (s.setProc np .embryo).pages = s.pages := add_right_cancel hpages
    change (s.setProc np .embryo).pages + l.own + o = s.pages + l.own + o
    rw [hp]
  · refine wp_bind (wp_new (fun _ => ?_) fun kstack _ _ _ => ?_)
    · refine wp_bind (wp_dropSlot rfl (wp_pure fun _ => ?_))
      have he : ({ ({ l with child := some np } : Task) with child := none } : Task) = l := by
        rw [← hc]
      exact he ▸ hnone
    · refine wp_bind (wp_modify o rfl ?_ fun _ => wp_pure fun _ => hsome np kstack)
      change Task.own { l with child := some np, stack := some kstack } + o = l.own + kstack ::ₘ o
      simp only [Task.own, hs, one_some, one_none, ← Multiset.singleton_add]
      abel

lemma wp_kfreeStack (h : Q () { l with stack := none } o) :
    wp (kspec kend exact) (kfreeStack kend) Q l o := by
  unfold kfreeStack
  refine wp_bind (wp_get fun _ => ?_)
  rcases hs : l.stack with _ | pa
  · exact fun _ _ => ⟨by simp, by simp⟩
  · refine wp_kfree' (fun _ => id) o rfl ?_ fun _ => h
    change Task.own { l with stack := none } + pa ::ₘ o = l.own + o
    simp only [Task.own, hs, one_some, one_none, ← Multiset.singleton_add]
    abel

/-! ### `fork` -/

lemma wp_dupFiles (hnd : fds.Nodup) (hco : ∀ fd ∈ fds, l.cofile fd = none)
    (h : ∀ cofile, Q () { l with cofile := cofile } o) :
    wp (kspec kend exact) (dupFiles fds) Q l o := by
  induction fds generalizing l with
  | nil => exact wp_pure fun _ => h l.cofile
  | cons fd rest ih =>
    have hrest := (List.nodup_cons.mp hnd).2
    unfold dupFiles
    refine wp_bind (wp_get fun _ => ?_)
    rcases hf : l.ofile fd with _ | f
    · exact ih hrest (fun g hg => hco g (by simp [hg])) h
    have hmem : Tok.file f ∈ l.tok := by
      rw [tok_setFd_none hf]
      exact Multiset.mem_cons_self _ _
    refine wp_bind (wp_filedup hmem ?_ rfl ?_)
    · have h1 := fileToks_update l.cofile fd (some f)
      simp only [hco fd (by simp), Option.map_none, one_none, add_zero, Option.map_some,
        one_some] at h1
      simp only [Task.tok, h1, ← Multiset.singleton_add]
      abel
    · refine ih hrest (fun g hg => ?_) fun cofile => h cofile
      have hne : g ≠ fd := fun e => (List.nodup_cons.mp hnd).1 (e ▸ hg)
      change Function.update l.cofile fd (some f) g = none
      rw [Function.update_of_ne hne]
      exact hco g (by simp [hg])

lemma fileToks_none : fileToks (fun _ => none) = 0 := Finset.sum_eq_zero fun _ _ => rfl

/-- The new process is left to its thread. -/
lemma wp_release {sz eip esp : ℕ} (hc : l.child = some np) (hpage : l.tmp.dir.page.isSome)
    (hsz : sz < KERNBASE) (hex : exact → Exact l.tmp sz)
    (h : Q () { l with tmp := Vm.null, child := none, stack := none, cofile := fun _ => none } o) :
    wp (kspec kend exact) (release np sz eip esp) Q l o := by
  refine wp_setProc (fun _ => rfl) (fun _ => rfl) (fun _ => rfl) (fun _ => rfl) (child_mem hc) ?_ ?_
    ⟨hpage, hsz, hex⟩ h
  · simp only [Task.tok, Entry.tok, fileToks_none, hc, Option.map_some, Option.map_none, one_some,
      one_none, ← Multiset.singleton_add]
    abel
  · simp only [Task.own, Entry.pages, Vm.null, pages_null, one_none]
    abel

lemma halts_of {e : Panic} (h1 : e ≠ .copyuvmExist) (h2 : e ≠ .copyuvmPresent) (m : Multiset Tok) :
    (vspec kend exact m).halts e := fun _ => ⟨h1, h2⟩

/-- The thread while it makes the child in slot `np`. -/
structure Forking (exact : Prop) (me np : Slot) (l : Task) : Prop where
  tmp : pages l.tmp.dir = 0
  child : l.child = some np
  cofile : l.cofile = fun _ => none
  var : l.var = fun _ => none
  ff : l.ff = none
  self : l.self = some me
  page : l.vm.dir.page.isSome
  sz : l.sz < KERNBASE
  exact : exact → Exact l.vm l.sz

/-- `fork` without `allocproc`. -/
lemma wp_forkCopy (hk : 0 < kend) (hkmap : ∀ k ∈ kmap, k.high) (h : Forking exact me np l) :
    wp (kspec kend exact) (do
      if ← onTmp (copyuvm kend kmap l.vm l.sz) then
        atomic always fun s l => ({ s with parent := Function.update s.parent np (some me) }, l)
        dupFiles (List.finRange NOFILE)
        release np l.sz l.eip l.esp
        pure true
      else
        kfreeStack kend
        dropSlot np
        pure false) (fun _ l _ => Alive exact me l) l o := by
  have hpanics : ((vspec kend exact l.tok).halts .copyuvmExist ∧
      (vspec kend exact l.tok).halts .copyuvmPresent) ∨
        ∀ va < pgroundup l.sz, present (l.vm.dir.pte va) := by
    by_cases hex : exact
    · exact Or.inr (Exact.all_present (h.exact hex))
    · exact Or.inl ⟨fun he => absurd he hex, fun he => absurd he hex⟩
  refine wp_bind (wp_onTmp (wp_copyuvm (vmSpec_part hk _) hkmap
    (Or.inl (halts_of (by simp) (by simp) _)) h.sz h.tmp hpanics (fun l₀ v hl₀ _ hv _ => ?_)
    fun v o' hv _ _ => ?_))
  · -- the child is complete
    rw [if_pos rfl]
    refine wp_bind (wp_frame (fun _ => rfl) (fun _ => rfl) (fun _ => rfl) (fun _ => rfl) ?_)
    refine wp_bind (wp_dupFiles (List.nodup_finRange _) (fun fd _ => ?_) fun cofile => ?_)
    · exact congrFun h.cofile fd
    refine wp_bind
      (wp_release h.child ?_ h.sz (fun _ => hl₀.exact_copy h.sz hv) (wp_pure fun _ => ?_))
    · change v.dir.page.isSome
      rw [hv.keeps.page]
      exact hl₀.1
    · exact ⟨⟨pages_null, rfl, rfl, rfl, h.var, h.ff⟩, h.self, h.page, h.sz, h.exact⟩
  · -- out of memory
    rw [if_neg Bool.false_ne_true]
    refine wp_bind (wp_kfreeStack (wp_bind (wp_dropSlot h.child (wp_pure fun _ => ?_))))
    exact ⟨⟨hv, rfl, rfl, h.cofile, h.var, h.ff⟩, h.self, h.page, h.sz, h.exact⟩

lemma wp_fork (hk : 0 < kend) (hkmap : ∀ k ∈ kmap, k.high) (h : Alive exact me l) :
    wp (kspec kend exact) (fork kend kmap me) (fun _ l _ => Alive exact me l) l o := by
  have hclean := h.clean
  unfold fork
  refine wp_bind (wp_allocproc hclean.child hclean.stack (wp_pure fun _ => h) fun np kstack => ?_)
  refine wp_bind (wp_get fun _ => ?_)
  exact wp_forkCopy hk hkmap ⟨hclean.tmp, rfl, hclean.cofile, hclean.var, hclean.ff, h.self, h.page,
    h.sz, h.exact⟩

/-- The first run of a new process. -/
lemma wp_forkret (h : Idle l) :
    wp (kspec kend exact) (forkret me) (fun _ l _ => Alive exact me l) l o := by
  refine wp_act trivial fun s F hs _ hg => ?_
  have hready : (s.proc me).isReady := by
    simp only [Bool.and_eq_true] at hg
    exact hg.2
  obtain ⟨img, himg⟩ : ∃ img, s.proc me = .ready img := by
    rcases he : s.proc me <;> simp_all [Entry.isReady]
  have hok : (s.proc me).ok exact := hs.entries me
  rw [himg] at hok ⊢
  obtain ⟨h1, h2, h3⟩ := hok
  refine ⟨KInv.setProc hs rfl rfl rfl ?_ trivial, o, ?_, fun _ => ?_⟩
  · rw [himg]
    change Task.tok _ + 0 = Task.tok l + _
    simp only [Task.tok, Entry.tok, h.self, h.ofile, fileToks_none, Option.map_some,
      Option.map_none,
      one_some, one_none, ← Multiset.singleton_add]
    abel
  · have hpages := pages_setProc (s := s) (p := me) (e := .live)
    rw [himg] at hpages
    change (s.setProc me .live).pages + Task.own _ + o = s.pages + Task.own l + o
    have hlive : s.pages = (s.setProc me .live).pages + (pages img.vm.dir + one img.kstack) := by
      rw [← add_zero s.pages]
      exact hpages.symm
    rw [hlive]
    simp only [Task.own, h.vm, h.kstack, one_none]
    abel
  · exact ⟨⟨h.clean.tmp, h.clean.child, h.clean.stack, h.clean.cofile, h.clean.var, h.clean.ff⟩,
      rfl,
      h1, h2, h3⟩

/-! ### `exit` and `wait` -/

lemma wp_closeFiles (hff : l.ff = none)
    (h : ∀ ofile, (∀ fd, fd ∈ fds ∨ l.ofile fd = none → ofile fd = none) →
      Q () { l with ofile := ofile } o) :
    wp (kspec kend exact) (closeFiles kend fds) Q l o := by
  induction fds generalizing l with
  | nil => exact wp_pure fun _ => h l.ofile fun fd hfd => hfd.resolve_left (by simp)
  | cons fd rest ih =>
    unfold closeFiles
    refine wp_bind (wp_get fun _ => ?_)
    rcases hf : l.ofile fd with _ | f
    · refine ih hff fun ofile hof => h ofile fun g hg => hof g ?_
      rcases hg with hg | hg
      · rcases List.mem_cons.mp hg with rfl | hg
        · exact Or.inr hf
        · exact Or.inl hg
      · exact Or.inr hg
    · refine wp_bind (wp_fileclose (t := .file f) (Or.inl rfl) hff (tok_setFd_none hf) rfl ?_)
      refine ih hff fun ofile hof => h ofile fun g hg => hof g ?_
      by_cases hgf : g = fd
      · exact Or.inr (by simp [setFd, hgf])
      · refine hg.imp (fun hg => (List.mem_cons.mp hg).resolve_left hgf) fun hg => ?_
        simpa [setFd, hgf] using hg

lemma wp_exit (h : Alive exact me l) :
    wp (kspec kend exact) (exit kend me) (fun _ l _ => Rest exact me l) l o := by
  unfold exit
  split_ifs
  · exact fun _ _ => ⟨by simp, by simp⟩
  refine wp_bind (wp_closeFiles h.clean.ff fun ofile hof => ?_)
  have hnone : ofile = fun _ => none := funext fun fd => hof fd (Or.inl (List.mem_finRange fd))
  subst hnone
  refine wp_setProc (fun _ => rfl) (fun _ => rfl) (fun _ => rfl) (fun _ => rfl) ?_ ?_ ?_ h.page ?_
  · simp [Task.tok, h.self]
  · simp only [Task.tok, Entry.tok, h.self, Option.map_some, Option.map_none, one_some, one_none]
    abel
  · simp only [Task.own, Entry.pages, Vm.null, pages_null, one_none]
    abel
  · exact Or.inr
      ⟨⟨h.clean.tmp, h.clean.child, h.clean.stack, h.clean.cofile, h.clean.var, h.clean.ff⟩,
      rfl, pages_null, rfl, rfl⟩

lemma zombieChild_some {vm : Vm} {kstack : Option ℕ} (h : zombieChild s me = some (p, vm, kstack)) :
    s.proc p = .zombie vm kstack := by
  obtain ⟨q, -, hq⟩ := List.exists_of_findSome?_eq_some h
  split_ifs at hq
  rcases he : s.proc q <;> simp_all

lemma wp_wait (hk : 0 < kend) (h : Alive exact me l) (killed : Bool) :
    wp (kspec kend exact) (wait kend me killed) (fun _ l _ => Alive exact me l) l o := by
  refine wp_act trivial fun s F hs _ _ => ?_
  rcases hz : zombieChild s me with _ | ⟨p, vm, kstack⟩
  · exact ⟨hs, o, rfl, fun _ => h⟩
  have hproc := zombieChild_some hz
  have hpage : vm.dir.page.isSome := by
    have := hs.entries p
    rwa [hproc] at this
  refine ⟨KInv.setProc hs rfl rfl rfl ?_ trivial, o, ?_, ?_⟩
  · rw [hproc]
    change Task.tok _ + 0 = Task.tok l + _
    simp only [Task.tok, Entry.tok, h.clean.child, Option.map_some, Option.map_none, one_some,
      one_none]
    abel
  · have hpages := pages_setProc (s := s) (p := p) (e := .reaping)
    rw [hproc] at hpages
    change (s.setProc p .reaping).pages + Task.own _ + o = s.pages + Task.own l + o
    have hreap : s.pages = (s.setProc p .reaping).pages + (pages vm.dir + one kstack) := by
      rw [← add_zero s.pages]
      exact hpages.symm
    rw [hreap]
    simp only [Task.own, h.clean.tmp, h.clean.stack, one_none]
    abel
  · refine wp_bind (wp_kfreeStack ?_)
    refine wp_bind (wp_onTmp (wp_freevm (vmSpec_part hk _) hpage fun v hv _ => ?_))
    refine wp_bind (wp_setProc (p := p) (e := .unused) (fun _ => rfl) (fun _ => rfl) (fun _ => rfl)
      (fun _ => rfl) (child_mem rfl) ?_ (zero_add _) trivial (wp_pure fun _ => ?_))
    · simp only [Task.tok, Entry.tok, Option.map_some, Option.map_none, one_some, one_none]
      abel
    · exact ⟨⟨hv, rfl, rfl, h.clean.cofile, h.clean.var, h.clean.ff⟩, h.self, h.page, h.sz, h.exact⟩

/-! ### `exec` -/

lemma wp_exec (hk : 0 < kend) (hkmap : ∀ k ∈ kmap, k.high) (h : Alive exact me l)
    (ip : Option Readi) (argv : List (List UInt8)) :
    wp (kspec kend exact) (exec kend kmap ip argv) (fun _ l _ => Alive exact me l) l o := by
  have hclean := h.clean
  unfold exec
  rcases ip with _ | ip
  · exact wp_pure fun _ => h
  refine wp_bind (wp_get fun _ => ?_)
  refine wp_bind (wp_onTmp (wp_execImage (vmSpec_part hk _) hkmap
    (Or.inl (halts_of (by simp) (by simp) _)) (Or.inl (halts_of (by simp) (by simp) _))
    (Or.inl (blind_part _)) hclean.tmp (fun c v hv _ => ?_) fun v hv _ => ?_))
  · -- the old address space is taken down
    refine wp_bind (wp_set rfl ?_ ?_)
    · simp only [Task.own]
      abel
    · refine wp_bind
        (wp_onTmp (wp_freevm (vmSpec_part hk _) h.page fun v' hv' _ => wp_pure fun _ => ?_))
      exact ⟨⟨hv', hclean.child, hclean.stack, hclean.cofile, hclean.var, hclean.ff⟩, h.self,
        hv.filling.1, hv.filling.2.1, fun _ => hv.filling.2⟩
  · exact wp_pure fun _ =>
      ⟨⟨hv, hclean.child, hclean.stack, hclean.cofile, hclean.var, hclean.ff⟩, h.self, h.page, h.sz,
        h.exact⟩

/-! ### `growproc` -/

section Growproc

variable {S : Spec Shared Task ℕ Panic Tok}

/-- **What `growproc` does**, for every `int` and every answer of `kalloc`. -/
lemma wp_growproc (hS : VmSpec kend (S.part (fun v => pages v.dir) l.tok)) (hown : S.own = Task.own)
    (htok : S.tok = Task.tok) {n : ℤ} (hn : -2 ^ 31 ≤ n) (hn' : n < 2 ^ 31) (hsz : l.sz < KERNBASE)
    (hremap : S.halts .remap ∨
      ∀ va, pgroundup l.sz ≤ va → va < KERNBASE → ¬ present (l.vm.dir.pte va))
    {Q : ℤ → Task → Multiset ℕ → Prop} (hsame : n = 0 → Q 0 l o)
    (hbig : 0 < n → KERNBASE ≤ l.sz + n → Q (-1) l o)
    (hgrow : 0 < n → l.sz + n < KERNBASE → ∀ v,
      Zeroed l.vm v (pgroundup l.sz) (pgroundup (l.sz + n).toNat) →
      Q 0 { l with vm := v, sz := (l.sz + n).toNat } o)
    (hfail : 0 < n → l.sz + n < KERNBASE → ∀ v,
      Cleared l.vm v (pgroundup l.sz) (pgroundup (l.sz + n).toNat) → Q (-1) { l with vm := v } o)
    (hshrink : n < 0 → 0 < l.sz + n → ∀ v,
      Cleared l.vm v (pgroundup (l.sz + n).toNat) (pgroundup l.sz) →
      Q 0 { l with vm := v, sz := (l.sz + n).toNat } o)
    (hzero : n < 0 → l.sz + n = 0 → ∀ v, Cleared l.vm v 0 (pgroundup l.sz) →
      Q (-1) { l with vm := v } o)
    (hwrap : n < 0 → l.sz + n < 0 → Q (if l.sz = 0 then -1 else 0) l o) :
    wp S (growproc kend n) Q l o := by
  have hk : l.sz < 2147483648 := hsz
  have hset (v : Vm) (sz : ℕ) (h : Q 0 { l with vm := v, sz := sz } o) :
      wp S (do
        Prog.modify fun l => { l with sz := sz }
        pure 0) Q { l with vm := v } o := by
    refine wp_bind (wp_modify o ?_ ?_ fun _ => wp_pure fun _ => h)
    · rw [htok]
      rfl
    · rw [hown]
      rfl
  unfold growproc
  refine wp_bind (wp_get fun _ => ?_)
  dsimp only
  split_ifs with h1 h2
  · -- the new size is below `2 ^ 32`
    have hnew : (((l.sz : ℤ) + n) % 2 ^ 32).toNat = (l.sz + n).toNat := by omega
    have hbound (hlt : (l.sz + n).toNat < KERNBASE) : l.sz + n < (KERNBASE : ℤ) := by
      have hlt' : (l.sz + n).toNat < 2147483648 := hlt
      change _ < ((2147483648 : ℕ) : ℤ)
      omega
    rw [hnew]
    refine wp_bind (wp_onVm hown htok (wp_allocuvm hS ?_ (fun hge _ => ?_) (fun hlt _ _ => ?_)
      (fun hle hlt v hv _ => ?_) fun hle hlt v hv _ => ?_))
    · refine hremap.imp_right fun habs hlt va hlo hhi => habs va hlo ?_
      have hlt' : (l.sz + n).toNat < 2147483648 := hlt
      rw [pgroundup_eq hlt.le] at hhi
      unfold KERNBASE
      omega
    · have hge' : 2147483648 ≤ (l.sz + n).toNat := hge
      rw [if_pos rfl]
      refine wp_pure fun _ => hbig h1 ?_
      change ((2147483648 : ℕ) : ℤ) ≤ _
      omega
    · omega
    · rw [if_neg (by omega)]
      exact hset v _ (hgrow h1 (hbound hlt) v hv)
    · rw [if_pos rfl]
      exact wp_pure fun _ => hfail h1 (hbound hlt) v hv
  · rcases lt_trichotomy ((l.sz : ℤ) + n) 0 with hneg | hz | hpos
    · -- the size wraps round to something larger
      have hge : l.sz ≤ (((l.sz : ℤ) + n) % 2 ^ 32).toNat := by omega
      refine wp_bind
        (wp_onVm hown htok (wp_deallocuvm hS hsz.le (fun _ _ => ?_) fun hlt => by omega))
      have hQ := hwrap h2 hneg
      split_ifs at hQ ⊢ with h0
      · exact wp_pure fun _ => hQ
      · exact hset l.vm l.sz hQ
    · have hnew : (((l.sz : ℤ) + n) % 2 ^ 32).toNat = 0 := by omega
      rw [hnew]
      refine wp_bind (wp_onVm hown htok (wp_deallocuvm hS hsz.le (fun _ _ => by omega)
        fun _ v hv _ => ?_))
      rw [if_pos rfl]
      rw [pgroundup_eq (Nat.zero_le _)] at hv
      exact wp_pure fun _ => hzero h2 hz v hv
    · have hnew : (((l.sz : ℤ) + n) % 2 ^ 32).toNat = (l.sz + n).toNat := by omega
      rw [hnew]
      refine wp_bind (wp_onVm hown htok (wp_deallocuvm hS hsz.le (fun _ _ => by omega)
        fun _ v hv _ => ?_))
      rw [if_neg (by omega)]
      exact hset v _ (hshrink h2 hpos v hv)
  · exact hset l.vm l.sz (hsame (by omega))

end Growproc

/-- The calls of `growproc` that keep to what it promises. -/
def SbrkOk (sz : ℕ) (n : ℤ) : Prop := 0 ≤ n ∨ sz = 0 ∨ 0 < sz + n

instance (sz : ℕ) (n : ℤ) : Decidable (SbrkOk sz n) := inferInstanceAs (Decidable (_ ∨ _ ∨ _))

lemma wp_sbrk (hk : 0 < kend) (h : Alive exact me l) {n : ℤ} (hn : -2 ^ 31 ≤ n) (hn' : n < 2 ^ 31)
    (hok : exact → SbrkOk l.sz n) :
    wp (kspec kend exact) (growproc kend n) (fun _ l _ => Alive exact me l) l o := by
  have hclean := h.clean
  -- only the address space and its size change
  have halive (v : Vm) (sz : ℕ) (hpage : v.dir.page = l.vm.dir.page) (hsz : sz < KERNBASE)
      (hex : exact → Exact v sz) : Alive exact me { l with vm := v, sz := sz } :=
    ⟨⟨hclean.tmp, hclean.child, hclean.stack, hclean.cofile, hclean.var, hclean.ff⟩, h.self,
      by rw [hpage]; exact h.page, hsz, hex⟩
  refine wp_growproc (vmSpec_part hk _) rfl rfl hn hn' h.sz (Or.inl fun _ => ⟨by simp, by simp⟩)
    (fun _ => h) (fun _ _ => h) (fun h1 h2 v hv => ?_) (fun h1 h2 v hv => ?_) (fun h1 h2 v hv => ?_)
    (fun h1 h2 v hv => ?_) fun _ _ => h
  · have hlt : (l.sz + n).toNat < KERNBASE := by omega
    exact halive v _ hv.keeps.page hlt fun he => (h.exact he).fill (by omega) hlt hv
  · exact halive v _ hv.keeps.page h.sz fun he => (h.exact he).clear_above hv
  · exact halive v _ hv.keeps.page (lt_of_le_of_lt (by omega) h.sz) fun he =>
      (h.exact he).clear (by omega) hv
  · refine halive v _ hv.keeps.page h.sz fun he => ?_
    rcases hok he with hc | hc | hc
    · omega
    · omega
    · omega

/-! ### All calls -/

lemma wp_userinit (hk : 0 < kend) (hkmap : ∀ k ∈ kmap, k.high) (init : List UInt8) (h : Idle l) :
    wp (kspec kend False) (userinit kend kmap init) (fun _ l _ => Rest False me l) l o := by
  have hclean := h.clean
  have hany {m : Multiset Tok} (e : Panic) : (vspec kend False m).halts e := fun hf => hf.elim
  unfold userinit
  refine wp_bind (wp_allocproc hclean.child hclean.stack (fun _ hf => hf.elim) fun p kstack => ?_)
  refine wp_bind (wp_onTmp (wp_setupkvm (vmSpec_part hk _) hkmap (Or.inl (hany _)) hclean.tmp
    (fun v hv _ _ => ?_) fun _ _ _ _ hf => hf.elim))
  rw [if_pos rfl]
  refine wp_bind (wp_onTmp (wp_inituvm (vmSpec_part hk _) (hany _) (hany _) (hany _)
    fun v' o' hv' _ _ => ?_))
  refine wp_release rfl ?_ (by decide) (fun hf => hf.elim) ?_
  · change v'.dir.page.isSome
    rw [hv']
    exact hv.1
  · exact Or.inr
      ⟨⟨pages_null, rfl, rfl, rfl, hclean.var, hclean.ff⟩, h.self, h.vm, h.kstack, h.ofile⟩

/-- **Every call is fine by itself**, the calls of `sbrk` with care when `exact` is asked for. -/
theorem wp_body (hk : 0 < kend) (hkmap : ∀ k ∈ kmap, k.high) (c : Call) (h : Rest exact me l)
    (hmay : may me l c) (hok : exact → ∀ n, c = .sbrk n → SbrkOk l.sz n) :
    wp (kspec kend exact) (body kend kmap me c) (fun _ l _ => Rest exact me l) l o := by
  rcases h with h | h
  · have hrest {p : KProg Bool} (hp : wp (kspec kend exact) p (fun _ l _ => Alive exact me l) l o) :
        wp (kspec kend exact) (do let _ ← p) (fun _ l _ => Rest exact me l) l o :=
      wp_bind (wp_mono (fun _ _ _ _ ha => wp_pure fun _ => Or.inl ha) hp)
    cases c with
    | forkret => simp [may, h.self] at hmay
    | fork => exact hrest (wp_fork hk hkmap h)
    | exec ip argv => exact hrest (wp_exec hk hkmap h ip argv)
    | exit => exact wp_exit h
    | wait killed => exact hrest (wp_wait hk h killed)
    | sbrk n =>
      simp only [may, Bool.and_eq_true, decide_eq_true_eq] at hmay
      refine wp_bind (wp_mono (fun _ _ _ _ ha => wp_pure fun _ => Or.inl ha) ?_)
      exact wp_sbrk hk h hmay.2.1 hmay.2.2 fun he => hok he n rfl
    | pipe => exact hrest (wp_pipe h)
    | openFile => exact hrest (wp_openFile h)
    | close fd => exact hrest (wp_close h fd)
    | dup fd => exact hrest (wp_dup h fd)
  · cases c with
    | forkret => exact wp_mono (fun _ _ _ _ ha => Or.inl ha) (wp_forkret h)
    | sbrk n => simp [may, h.self] at hmay
    | fork => simp [may, h.self] at hmay
    | exec ip argv => simp [may, h.self] at hmay
    | exit => simp [may, h.self] at hmay
    | wait killed => simp [may, h.self] at hmay
    | pipe => simp [may, h.self] at hmay
    | openFile => simp [may, h.self] at hmay
    | close fd => simp [may, h.self] at hmay
    | dup fd => simp [may, h.self] at hmay

end Xv6.Kernel
