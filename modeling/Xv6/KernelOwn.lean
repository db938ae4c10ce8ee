import Xv6.Kernel

/-!
Who owns what in the kernel: pages, and tokens for what a thread may rely on between two critical
sections. A token for a slot is held by the thread that works on the process, and by the table
otherwise; one for a file goes with every reference to it; one for the end of a pipe with the duty
to close it.
-/

namespace Xv6.Kernel

open Xv6.Lib.Own Xv6.Lib.Threads Xv6.PageTable Xv6.ProcTable

inductive Tok
  | slot (p : Slot)
  /-- a reference to a file that has no type yet -/
  | fresh (f : FileId)
  | file (f : FileId)
  | pend (page : ℕ) (writable : Bool)
  deriving DecidableEq

section One

variable {α : Type}

def one : Option α → Multiset α
  | some a => {a}
  | none => 0

@[simp] lemma one_some (a : α) : one (some a) = {a} := rfl
@[simp] lemma one_none : one (none : Option α) = 0 := rfl

end One

/-! ### Pages -/

def Entry.pages : Entry → Multiset ℕ
  | .ready img => PageTable.pages img.vm.dir + one img.kstack
  | .zombie vm kstack => PageTable.pages vm.dir + one kstack
  | _ => 0

def pipePages (ps : List Pipe) : Multiset ℕ := (ps.map Pipe.page : Multiset ℕ)

def Shared.pages (s : Shared) : Multiset ℕ := ∑ p, (s.proc p).pages + pipePages s.pipes

def Task.own (l : Task) : Multiset ℕ :=
  PageTable.pages l.vm.dir + PageTable.pages l.tmp.dir + one l.kstack + one l.stack

/-! ### Tokens -/

def fileToks (ofile : Fd → Option FileId) : Multiset Tok := ∑ fd, one ((ofile fd).map Tok.file)

def Entry.tok (p : Slot) : Entry → Multiset Tok
  | .unused => {.slot p}
  | .ready img => .slot p ::ₘ fileToks img.ofile
  | .zombie _ _ => {.slot p}
  | _ => 0

def Shared.tok (s : Shared) : Multiset Tok := ∑ p, (s.proc p).tok p

/-- What a variable holds a file by. -/
def Var.tok : Var → FileId → Tok
  | .f0 | .f1 => .fresh
  | .rf | .wf => .file

def Task.tok (l : Task) : Multiset Tok :=
  one (l.self.map .slot) + one (l.child.map .slot) + fileToks l.ofile + fileToks l.cofile +
    ∑ v, one ((l.var v).map v.tok) + one (l.ff.map fun e => .pend e.1 e.2)

/-- The ends of a pipe that are open. -/
def Pipe.ends (p : Pipe) : List (ℕ × Bool) :=
  (if p.readopen then [(p.page, false)] else []) ++ if p.writeopen then [(p.page, true)] else []

def openEnds (pipes : List Pipe) : List (ℕ × Bool) := pipes.flatMap Pipe.ends

/-- The files whose type is an end of a pipe. -/
def endFiles (s : Shared) (page : ℕ) (writable : Bool) : Finset FileId :=
  Finset.univ.filter fun f => (s.file f).type = .pipe page writable

/-- The file table and the pipes, given all tokens `A` of threads and table. -/
structure FileInv (s : Shared) (A : Multiset Tok) : Prop where
  slots : ∀ p, A.count (.slot p) = 1
  refs : ∀ f, (s.file f).ref = A.count (.file f) + A.count (.fresh f)
  types : ∀ f, (s.file f).ref = 0 → (s.file f).type = .none
  fresh : ∀ f, .fresh f ∈ A → (s.file f).type = .none ∧ (s.file f).ref = 1
  ends : ∀ page w, (endFiles s page w).card + A.count (.pend page w) =
    (openEnds s.pipes).count (page, w)

/-- A process that is ready has the pages of its size, if that is asked for. -/
def Entry.ok (exact : Prop) : Entry → Prop
  | .ready img => img.vm.dir.page.isSome ∧ img.sz < KERNBASE ∧ (exact → Exact img.vm img.sz)
  | .zombie vm _ => vm.dir.page.isSome
  | _ => True

structure KInv (exact : Prop) (s : Shared) (M : Multiset Tok) : Prop where
  files : FileInv s (M + s.tok)
  entries : ∀ p, (s.proc p).ok exact

/-- The kernel as seen by one thread. With `exact` the panics of `copyuvm` are not allowed. -/
def kspec (kend : ℕ) (exact : Prop) : Spec Shared Task ℕ Panic Tok where
  own := Task.own
  tok := Task.tok
  shared := Shared.pages
  inv := KInv exact
  valid := validPage kend
  halts e := exact → e ≠ .copyuvmExist ∧ e ≠ .copyuvmPresent
  waits := True

/-! ### Slots -/

section Slots

variable {s : Shared} {p : Slot} {e : Entry} {exact : Prop} {F m : Multiset Tok}

lemma setProc_proc : (s.setProc p e).proc = Function.update s.proc p e := rfl

lemma tok_setProc : (s.setProc p e).tok + (s.proc p).tok p = s.tok + e.tok p := by
  have h := sum_update_add (fun q e => Entry.tok q e) s.proc p e
  rwa [← setProc_proc] at h

lemma pages_setProc : (s.setProc p e).pages + (s.proc p).pages = s.pages + e.pages := by
  have h := sum_update_add (fun _ e => e.pages) s.proc p e
  unfold Shared.pages
  calc _ = ∑ q, (Function.update s.proc p e q).pages + (s.proc p).pages + pipePages s.pipes := by
        rw [add_right_comm]
        rfl
    _ = _ := by rw [h, add_right_comm]

lemma Entry.tok_le (s : Shared) (p : Slot) : (s.proc p).tok p ≤ s.tok := by
  rw [Shared.tok, sum_split _ p]
  exact Multiset.le_add_right _ _

/-- The holder of a slot finds nothing in the table. -/
lemma KInv.held (h : KInv exact s (F + m)) (hm : .slot p ∈ m) :
    (s.proc p).tok p = 0 ∧ (s.proc p).pages = 0 := by
  have h1 := h.files.slots p
  have h2 : 0 < m.count (.slot p) := Multiset.count_pos.mpr hm
  have h3 := Multiset.count_le_of_le (.slot p) (Entry.tok_le s p)
  rw [Multiset.count_add, Multiset.count_add] at h1
  have h4 : ((s.proc p).tok p).count (.slot p) = 0 := by omega
  cases he : s.proc p <;> simp_all [Entry.tok, Entry.pages]

lemma FileInv.congr {s s' : Shared} {A : Multiset Tok} (h : FileInv s A) (hfile : s'.file = s.file)
    (hpipes : s'.pipes = s.pipes) : FileInv s' A := by
  obtain ⟨h1, h2, h3, h4, h5⟩ := h
  refine ⟨h1, fun f => ?_, fun f => ?_, fun f => ?_, fun page w => ?_⟩
  · rw [hfile, h2 f]
  · rw [hfile]
    exact h3 f
  · rw [hfile]
    exact h4 f
  · rw [hpipes, ← h5 page w, endFiles, endFiles, hfile]

/-- A slot changes hands. -/
lemma KInv.setProc {m' : Multiset Tok} {s' : Shared} (h : KInv exact s (F + m))
    (hproc : s'.proc = (s.setProc p e).proc) (hfile : s'.file = s.file)
    (hpipes : s'.pipes = s.pipes) (htok : m' + e.tok p = m + (s.proc p).tok p) (hok : e.ok exact) :
    KInv exact s' (F + m') := by
  have htok' : s'.tok = (s.setProc p e).tok := by rw [Shared.tok, hproc, Shared.tok]
  have hall : F + m' + s'.tok = F + m + s.tok := by
    apply add_right_cancel (b := (s.proc p).tok p)
    calc F + m' + s'.tok + (s.proc p).tok p = F + m' + (s'.tok + (s.proc p).tok p) := by abel
      _ = F + (m' + e.tok p) + s.tok := by
          rw [htok', tok_setProc]
          abel
      _ = _ := by
          rw [htok]
          abel
  refine ⟨?_, fun q => ?_⟩
  · rw [hall]
    exact h.files.congr hfile hpipes
  · rw [hproc, setProc_proc]
    by_cases hq : q = p
    · rw [hq, Function.update_self]
      exact hok
    · rw [Function.update_of_ne hq]
      exact h.entries q

end Slots

/-! ### Files -/

section Files

variable {s s' : Shared} {A A' B : Multiset Tok} {f : FileId} {x : File}

lemma card_endFiles (hfile : s'.file = Function.update s.file f x) (page : ℕ) (w : Bool) :
    (endFiles s' page w).card + (if (s.file f).type = .pipe page w then 1 else 0) =
      (endFiles s page w).card + if x.type = .pipe page w then 1 else 0 := by
  have h := sum_update_add (fun (_ : FileId) y => if y.type = .pipe page w then 1 else 0) s.file f x
  unfold endFiles
  rw [hfile, Finset.card_filter, Finset.card_filter]
  exact h

/-- One file changes, and with it the references to it and perhaps the pipes. -/
lemma FileInv.update (h : FileInv s A) (hfile : s'.file = Function.update s.file f x)
    (hslot : ∀ p, A'.count (.slot p) = A.count (.slot p))
    (hother : ∀ g ≠ f, A'.count (.file g) = A.count (.file g) ∧
      A'.count (.fresh g) = A.count (.fresh g))
    (href : x.ref = A'.count (.file f) + A'.count (.fresh f)) (htype : x.ref = 0 → x.type = .none)
    (hfresh : .fresh f ∈ A' → x.type = .none ∧ x.ref = 1)
    (hends : ∀ page w, (if x.type = .pipe page w then 1 else 0) + A'.count (.pend page w) +
        (openEnds s.pipes).count (page, w) =
      (if (s.file f).type = .pipe page w then 1 else 0) + A.count (.pend page w) +
        (openEnds s'.pipes).count (page, w)) : FileInv s' A' := by
  refine ⟨fun p => (hslot p).trans (h.slots p), fun g => ?_, fun g => ?_, fun g hg => ?_,
    fun page w => ?_⟩
  · rw [hfile]
    by_cases hg : g = f
    · rw [hg, Function.update_self, href]
    · rw [Function.update_of_ne hg, h.refs, (hother g hg).1, (hother g hg).2]
  · rw [hfile]
    by_cases hg : g = f
    · rw [hg, Function.update_self]
      exact htype
    · rw [Function.update_of_ne hg]
      exact h.types g
  · rw [hfile]
    by_cases hgf : g = f
    · rw [hgf, Function.update_self]
      exact hfresh (hgf ▸ hg)
    · rw [Function.update_of_ne hgf]
      refine h.fresh g (Multiset.count_pos.mp ?_)
      rw [← (hother g hgf).2]
      exact Multiset.count_pos.mpr hg
  · have h1 := card_endFiles hfile page w
    have h2 := h.ends page w
    have h3 := hends page w
    omega

/-- `filealloc`. -/
lemma FileInv.alloc (h : FileInv s A) (hf : (s.file f).ref = 0) :
    FileInv (s.setFile f { s.file f with ref := 1 }) (.fresh f ::ₘ A) := by
  have href := h.refs f
  refine h.update rfl (fun p => by simp) (fun g hg => by simp [hg]) ?_ (fun h1 => by simp at h1)
    (fun _ => ⟨h.types f hf, rfl⟩) fun page w => ?_
  · simp only [Multiset.count_cons_self, Multiset.count_cons_of_ne
      (show Tok.file f ≠ .fresh f by simp)]
    omega
  · simp [Shared.setFile]

/-- `filedup` by the holder of a reference. -/
lemma FileInv.dup (h : FileInv s A) (hf : .file f ∈ A) :
    FileInv (s.setFile f { s.file f with ref := (s.file f).ref + 1 }) (.file f ::ₘ A) := by
  have href := h.refs f
  have hpos : 0 < A.count (.file f) := Multiset.count_pos.mpr hf
  refine h.update rfl (fun p => by simp) (fun g hg => by simp [hg]) ?_ (fun h1 => by simp at h1)
    (fun hfr => ?_) fun page w => ?_
  · simp only [Multiset.count_cons_self, Multiset.count_cons_of_ne
      (show Tok.fresh f ≠ .file f by simp)]
    omega
  · -- a file without a type has one reference only
    have hfr' : Tok.fresh f ∈ A := by simpa using hfr
    have h1 := (h.fresh f hfr').2
    have h2 : 0 < A.count (.fresh f) := Multiset.count_pos.mpr hfr'
    omega
  · simp [Shared.setFile]

/-- The file gets its type. -/
lemma FileInv.setType (h : FileInv s (.fresh f ::ₘ B)) (t : FileType)
    (hfile : s'.file = Function.update s.file f { s.file f with type := t })
    (hends : ∀ page w, (if t = .pipe page w then 1 else 0) + (openEnds s.pipes).count (page, w) =
      (openEnds s'.pipes).count (page, w)) : FileInv s' (.file f ::ₘ B) := by
  obtain ⟨htype, hone⟩ := h.fresh f (Multiset.mem_cons_self _ _)
  have href := h.refs f
  simp only [Multiset.count_cons_self, Multiset.count_cons_of_ne
    (show Tok.file f ≠ .fresh f by simp)]
    at href
  refine h.update hfile (fun p => by simp) (fun g hg => by simp [hg]) ?_ (fun h0 => ?_)
    (fun hfr => ?_) fun page w => ?_
  · simp only [Multiset.count_cons_self, Multiset.count_cons_of_ne
      (show Tok.fresh f ≠ .file f by simp)]
    omega
  · exact absurd h0 (by change (s.file f).ref ≠ 0; omega)
  · have hfr' : Tok.fresh f ∈ B := by simpa using hfr
    have : 0 < B.count (.fresh f) := Multiset.count_pos.mpr hfr'
    omega
  · have hold : (if (s.file f).type = .pipe page w then 1 else 0) = 0 := by simp [htype]
    have hnew := hends page w
    rw [hold, Multiset.count_cons_of_ne (by simp), Multiset.count_cons_of_ne (by simp)]
    change (if t = .pipe page w then 1 else 0) + _ + _ = _
    omega

/-- The duty to close the end of a pipe. -/
def pendTok (e : Option (ℕ × Bool)) : Multiset Tok := one (e.map fun e => .pend e.1 e.2)

variable {t : Tok}

lemma mem_pendTok {e : Option (ℕ × Bool)} (h : t ∈ pendTok e) : ∃ page w, t = .pend page w := by
  rcases e with _ | ⟨page, w⟩
  · simp [pendTok] at h
  · exact ⟨page, w, by simpa [pendTok] using h⟩

lemma count_pendTok {e : Option (ℕ × Bool)} (h : ∀ page w, t ≠ .pend page w) :
    (pendTok e).count t = 0 :=
  Multiset.count_eq_zero.mpr fun hm =>
    let ⟨page, w, he⟩ := mem_pendTok hm
    h page w he

/-- The end goes over from the file to the one who closes it. -/
lemma count_lastEnd (x : File) (page : ℕ) (w : Bool) :
    (if x.drop.type = .pipe page w then 1 else 0) + (pendTok (lastEnd x)).count (.pend page w) =
      if x.type = .pipe page w then 1 else 0 := by
  rcases x with ⟨ref, type⟩
  by_cases h1 : ref = 1
  · rcases type with _ | ⟨page', w'⟩ | _
    · simp [File.drop, lastEnd, pendTok, h1]
    · simp [File.drop, lastEnd, pendTok, h1, Multiset.count_singleton, eq_comm]
    · simp [File.drop, lastEnd, pendTok, h1]
  · simp [File.drop, lastEnd, pendTok, h1]

/-- `fileclose` up to the pipe. -/
lemma FileInv.close (ht : t = .file f ∨ t = .fresh f) (h : FileInv s (t ::ₘ B)) :
    0 < (s.file f).ref ∧
      FileInv (s.setFile f (s.file f).drop) (pendTok (lastEnd (s.file f)) + B) := by
  have href := h.refs f
  have hcount : (t ::ₘ B).count (.file f) + (t ::ₘ B).count (.fresh f) =
      B.count (.file f) + B.count (.fresh f) + 1 := by
    rcases ht with rfl | rfl
    · simp only [Multiset.count_cons_self,
        Multiset.count_cons_of_ne (show Tok.fresh f ≠ .file f by simp)]
      omega
    · simp only [Multiset.count_cons_self,
        Multiset.count_cons_of_ne (show Tok.file f ≠ .fresh f by simp)]
      omega
  have hne {u : Tok} (h1 : u ≠ .file f) (h2 : u ≠ .fresh f) : (t ::ₘ B).count u = B.count u := by
    rcases ht with rfl | rfl
    · exact Multiset.count_cons_of_ne h1 B
    · exact Multiset.count_cons_of_ne h2 B
  have hB {u : Tok} (hu : ∀ page w, u ≠ .pend page w) :
      (pendTok (lastEnd (s.file f)) + B).count u = B.count u := by
    rw [Multiset.count_add, count_pendTok hu, zero_add]
  refine ⟨by omega, h.update rfl (fun p => ?_) (fun g hg => ?_) ?_ ?_ (fun hfr => ?_) fun page w =>
    ?_⟩
  · rw [hB (by simp), hne (by simp) (by simp)]
  · rw [hB (by simp), hB (by simp), hne (by simp [hg]) (by simp), hne (by simp) (by simp [hg])]
    exact ⟨rfl, rfl⟩
  · rw [hB (by simp), hB (by simp), File.drop]
    split_ifs
    · change 0 = _
      omega
    · change (s.file f).ref - 1 = _
      omega
  · rw [File.drop]
    split_ifs
    · exact fun _ => rfl
    · intro h0
      change (s.file f).ref - 1 = 0 at h0
      omega
  · have hfr' : 0 < B.count (.fresh f) := by
      rw [← hB (by simp)]
      exact Multiset.count_pos.mpr hfr
    have h1 := (h.fresh f (by
      rcases ht with rfl | rfl
      · exact Multiset.mem_cons_of_mem (Multiset.count_pos.mp hfr')
      · exact Multiset.mem_cons_self _ _)).2
    omega
  · rw [Multiset.count_add, hne (by simp) (by simp)]
    have hend := count_lastEnd (s.file f) page w
    change _ + _ + (openEnds s.pipes).count (page, w) = _ + _ + (openEnds s.pipes).count (page, w)
    omega

end Files

/-! ### Pipes -/

section Pipes

variable {s : Shared} {B : Multiset Tok} {page : ℕ} {w : Bool}

lemma perm_of_find {α : Type} {q : α → Bool} {l : List α} {a : α} (h : l.find? q = some a) :
    l.Perm (a :: l.eraseP q) := by
  induction l with
  | nil => simp at h
  | cons b l ih =>
    by_cases hb : q b
    · rw [List.find?_cons_of_pos hb] at h
      cases h
      rw [List.eraseP_cons_of_pos hb]
    · rw [List.find?_cons_of_neg hb] at h
      rw [List.eraseP_cons_of_neg hb]
      exact ((ih h).cons b).trans (List.Perm.swap a b _)

lemma Pipe.mem_ends {p : Pipe} {e : ℕ × Bool} (h : e ∈ p.ends) : e.1 = p.page := by
  unfold Pipe.ends at h
  rcases List.mem_append.mp h with h | h
  · split_ifs at h
    · rw [List.mem_singleton.mp h]
    · simp at h
  · split_ifs at h
    · rw [List.mem_singleton.mp h]
    · simp at h

lemma mem_openEnds {pipes : List Pipe} (h : (page, w) ∈ openEnds pipes) :
    page ∈ pipePages pipes := by
  obtain ⟨p, hp, he⟩ := List.mem_flatMap.mp h
  exact List.mem_map.mpr ⟨p, hp, (Pipe.mem_ends he).symm⟩

/-- Closing an end of a pipe. -/
lemma Pipe.count_closeEnd {p : Pipe} (h : (p.page, w) ∈ p.ends) (e : ℕ × Bool) :
    p.ends.count e = (p.closeEnd w).ends.count e + if e = (p.page, w) then 1 else 0 := by
  obtain ⟨page, r, wr⟩ := p
  obtain ⟨page', w'⟩ := e
  cases r <;> cases wr <;> cases w <;> simp [Pipe.ends] at h <;>
    simp [Pipe.ends, Pipe.closeEnd, List.count_cons, @eq_comm _ page, add_comm]

lemma Pipe.ends_dead {p : Pipe} (h : p.dead) : p.ends = [] := by
  obtain ⟨page, r, wr⟩ := p
  cases r <;> cases wr <;> simp_all [Pipe.ends, Pipe.dead]

lemma count_openEnds_cons (p : Pipe) (ps : List Pipe) (e : ℕ × Bool) :
    (openEnds (p :: ps)).count e = p.ends.count e + (openEnds ps).count e := by
  rw [openEnds, List.flatMap_cons, List.count_append, openEnds]

variable {ps : List Pipe} {q : Pipe}

lemma count_openEnds_perm {ps' : List Pipe} (h : ps.Perm ps') (e : ℕ × Bool) :
    (openEnds ps).count e = (openEnds ps').count e :=
  (h.flatMap_right _).count_eq e

lemma Pipe.closeEnd_page (p : Pipe) (w : Bool) : (p.closeEnd w).page = p.page := by
  unfold Pipe.closeEnd
  split_ifs <;> rfl

/-- The pipe an end of which is closed, and the others. -/
lemma closedPipe_some (h : closedPipe ps page w = some q) :
    ∃ p, ps.Perm (p :: otherPipes ps page) ∧ p.page = page ∧ q = p.closeEnd w := by
  obtain ⟨p, hp, rfl⟩ := Option.map_eq_some_iff.mp h
  exact ⟨p, perm_of_find hp, by simpa using List.find?_some hp, rfl⟩

lemma pipePages_perm {qs : List Pipe} {p : Pipe} (h : ps.Perm (p :: qs)) (hp : p.page = page) :
    pipePages ps = page ::ₘ pipePages qs := by
  have hmap := h.map Pipe.page
  rw [List.map_cons, hp] at hmap
  exact Multiset.coe_eq_coe.mpr hmap

/-- With the second end the page is given up. -/
lemma pipePages_closePipe (h : closedPipe s.pipes page w = some q) :
    pipePages s.pipes = (if q.dead then {page} else 0) + pipePages (closePipe s page w).pipes := by
  obtain ⟨p, hperm, hpage, rfl⟩ := closedPipe_some h
  rw [pipePages_perm hperm hpage, closePipe, h]
  dsimp only
  split_ifs
  · rfl
  · rw [zero_add, ← hpage, ← p.closeEnd_page w]
    rfl

/-- `pipeclose` by the one who has to close the end: the pipe is there, and its page is given up
with the second end. -/
lemma FileInv.closePipe (h : FileInv s (.pend page w ::ₘ B)) (hn : (pipePages s.pipes).Nodup) :
    ∃ q, closedPipe s.pipes page w = some q ∧ FileInv (closePipe s page w) B ∧
      pipePages s.pipes = (if q.dead then {page} else 0) +
        pipePages (closePipe s page w).pipes := by
  have hends := h.ends page w
  rw [Multiset.count_cons_self] at hends
  have hmem : (page, w) ∈ openEnds s.pipes := List.count_pos_iff.mp (by omega)
  obtain ⟨p₀, hp₀, hpe₀⟩ := List.mem_flatMap.mp hmem
  have hfind : (s.pipes.find? fun p => p.page = page).isSome :=
    List.find?_isSome.mpr ⟨p₀, hp₀, by simpa using (Pipe.mem_ends hpe₀).symm⟩
  obtain ⟨q, hclosed⟩ : ∃ q, closedPipe s.pipes page w = some q :=
    Option.isSome_iff_exists.mp (by rwa [closedPipe, Option.isSome_map])
  obtain ⟨p, hperm, hpage, rfl⟩ := closedPipe_some hclosed
  -- no other pipe is on the page, so the open end is one of this pipe
  have hend : (p.page, w) ∈ p.ends := by
    rw [hpage]
    have hcount := count_openEnds_perm hperm (page, w)
    rw [count_openEnds_cons] at hcount
    rw [pipePages_perm hperm hpage] at hn
    have hno : (openEnds (otherPipes s.pipes page)).count (page, w) = 0 :=
      List.count_eq_zero.mpr fun hin => (Multiset.nodup_cons.mp hn).1 (mem_openEnds hin)
    exact List.count_pos_iff.mp (by omega)
  have hs' : Kernel.closePipe s page w = { s with
      pipes := if (p.closeEnd w).dead then otherPipes s.pipes page
        else p.closeEnd w :: otherPipes s.pipes page } := by rw [Kernel.closePipe, hclosed]
  refine ⟨_, hclosed, ?_, pipePages_closePipe hclosed⟩
  obtain ⟨h1, h2, h3, h4, h5⟩ := h
  rw [hs']
  refine ⟨fun q => ?_, fun f => ?_, h3, fun f hf => h4 f (Multiset.mem_cons_of_mem hf),
    fun page' w' => ?_⟩
  · rw [← h1 q, Multiset.count_cons_of_ne (by simp)]
  · rw [h2 f, Multiset.count_cons_of_ne (by simp), Multiset.count_cons_of_ne (by simp)]
  · have h6 := h5 page' w'
    rw [count_openEnds_perm hperm, count_openEnds_cons, Pipe.count_closeEnd hend, hpage,
      Multiset.count_cons] at h6
    have h7 : (openEnds (if (p.closeEnd w).dead then otherPipes s.pipes page
        else p.closeEnd w :: otherPipes s.pipes page)).count (page', w') =
        (p.closeEnd w).ends.count (page', w') +
          (openEnds (otherPipes s.pipes page)).count (page', w') := by
      split_ifs with hd
      · simp [Pipe.ends_dead hd]
      · exact count_openEnds_cons _ _ _
    change (endFiles s page' w').card + _ = _
    rw [h7]
    have h8 : (if Tok.pend page' w' = .pend page w then 1 else 0) =
        if (page', w') = (page, w) then 1 else 0 := by simp
    omega

/-- `pipealloc` gives two new files their types. -/
lemma FileInv.newPipe {f0 f1 : FileId} (h : FileInv s (.fresh f0 ::ₘ .fresh f1 ::ₘ B)) (p : ℕ) :
    FileInv (newPipe s f0 f1 p) (.file f0 ::ₘ .file f1 ::ₘ B) := by
  have hne : f1 ≠ f0 := by
    rintro rfl
    have h1 := h.refs f1
    rw [(h.fresh f1 (Multiset.mem_cons_self _ _)).2] at h1
    simp only [Multiset.count_cons_self] at h1
    omega
  -- first the reading end, then the other
  have h1 : FileInv { s.setFile f0 { s.file f0 with type := .pipe p false } with
      pipes := ⟨p, true, false⟩ :: s.pipes } (.file f0 ::ₘ .fresh f1 ::ₘ B) := by
    refine h.setType _ rfl fun page w => ?_
    rw [count_openEnds_cons]
    simp [Pipe.ends, List.count_cons]
  rw [Multiset.cons_swap] at h1 ⊢
  refine h1.setType (.pipe p true) ?_ fun page w => ?_
  · simp [Kernel.newPipe, Shared.setFile, Function.update_of_ne hne]
  · change _ + (openEnds (⟨p, true, false⟩ :: s.pipes)).count _ =
      (openEnds (⟨p, true, true⟩ :: s.pipes)).count _
    rw [count_openEnds_cons, count_openEnds_cons, ← add_assoc]
    simp [Pipe.ends, List.count_cons]

end Pipes

end Xv6.Kernel
