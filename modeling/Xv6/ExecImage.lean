import Xv6.VmImage

/-!
The part of `exec` that builds the new address space from an ELF file and the arguments. It works
on the directory `pgdir` alone; the process gets it afterwards.
-/

namespace Xv6.PageTable

open Xv6.Lib.Own

def ELF_MAGIC : ℕ := 0x464C457F
def ELF_PROG_LOAD : ℕ := 1
def MAXARG : ℕ := 32

/-- `sizeof(struct elfhdr)` and `sizeof(struct proghdr)`. -/
def elfhdrSize : ℕ := 52
def proghdrSize : ℕ := 32

/-- The little-endian number in the `n` bytes from `off` on. -/
def field (bs : List UInt8) (off n : ℕ) : ℕ :=
  ((bs.drop off).take n).foldr (fun b acc => b.toNat + 256 * acc) 0

/-- A word as its bytes in memory. -/
def bytes (w : ℕ) : List UInt8 := (List.range 4).map fun i => UInt8.ofNat (w / 256 ^ i)

variable {G : Type}

/-- The loop over the program headers, with `n` to go; the size, unless something is wrong. -/
def loadSegs (kend : ℕ) (ip : Readi) : ℕ → ℕ → ℕ → VmProg G (Option ℕ)
  | 0, _, sz => pure (some sz)
  | n + 1, off, sz =>
    let ph := ip off proghdrSize
    if ph.length ≠ proghdrSize then pure none
    else if field ph 0 4 ≠ ELF_PROG_LOAD then loadSegs kend ip n ((off + proghdrSize) % 2 ^ 32) sz
    else
      let offset := field ph 4 4
      let vaddr := field ph 8 4
      let filesz := field ph 16 4
      let memsz := field ph 20 4
      if memsz < filesz then pure none
      else if (vaddr + memsz) % 2 ^ 32 < vaddr then pure none
      else do
        let sz ← allocuvm kend sz ((vaddr + memsz) % 2 ^ 32)
        if sz = 0 then pure none
        else if vaddr % PGSIZE ≠ 0 then pure none
        else if ← loaduvm ip vaddr offset filesz then
          loadSegs kend ip n ((off + proghdrSize) % 2 ^ 32) sz
        else pure none

/-- Subtraction of 32-bit words. -/
def sub32 (a b : ℕ) : ℕ := (a + 2 ^ 32 - b % 2 ^ 32) % 2 ^ 32

/-- The loop that pushes the argument strings; `ustack` are the addresses so far. -/
def pushArgs (zero : Option ℕ) : List (List UInt8) → ℕ → List ℕ → VmProg G (Option (ℕ × List ℕ))
  | [], sp, ustack => pure (some (sp, ustack))
  | arg :: rest, sp, ustack =>
    if ustack.length ≥ MAXARG then pure none
    else do
      let sp := sub32 sp (arg.length + 1) / 4 * 4
      if ← copyout zero sp (arg ++ [0]) then pushArgs zero rest sp (ustack ++ [sp]) else pure none

/-- The stack page and the arguments; the new size and stack pointer. -/
def setupStack (kend : ℕ) (zero : Option ℕ) (argv : List (List UInt8)) (sz : ℕ) :
    VmProg G (Option (ℕ × ℕ)) := do
  let sz := pgroundup sz
  let sz ← allocuvm kend sz ((sz + 2 * PGSIZE) % 2 ^ 32)
  if sz = 0 then pure none
  else
    clearpteu (sz - 2 * PGSIZE)
    match ← pushArgs zero argv sz [] with
    | none => pure none
    | some (sp, ustack) =>
      let argc := ustack.length
      let words := [0xffffffff, argc, sub32 sp ((argc + 1) * 4)] ++ ustack ++ [0]
      let sp := sub32 sp ((3 + argc + 1) * 4)
      if ← copyout zero sp (words.flatMap bytes) then pure (some (sz, sp)) else pure none

/-- What `exec` commits. -/
structure Committed where
  sz : ℕ
  entry : ℕ
  sp : ℕ

/-- `exec` up to the commit: a new directory, or none on every error. -/
def execImage (kend : ℕ) (kmap : List Kmap) (zero : Option ℕ) (ip : Readi)
    (argv : List (List UInt8)) : VmProg G (Option Committed) := do
  let elf := ip 0 elfhdrSize
  if elf.length ≠ elfhdrSize then pure none
  else if field elf 0 4 ≠ ELF_MAGIC then pure none
  else if ← setupkvm kend kmap then
    match ← loadSegs kend ip (field elf 44 2) (field elf 28 4) 0 with
    | none =>
      freevm kend
      pure none
    | some sz =>
      match ← setupStack kend zero argv sz with
      | none =>
        freevm kend
        pure none
      | some (sz, sp) => pure (some ⟨sz, field elf 24 4, sp⟩)
  else pure none

/-! ### What the file and the arguments ask for -/

structure Phdr where
  type : ℕ
  off : ℕ
  vaddr : ℕ
  filesz : ℕ
  memsz : ℕ

def phdr (ip : Readi) (off : ℕ) : Phdr :=
  let ph := ip off proghdrSize
  ⟨field ph 0 4, field ph 4 4, field ph 8 4, field ph 16 4, field ph 20 4⟩

/-- The `n` program headers from `off` on. -/
def phdrs (ip : Readi) : ℕ → ℕ → List Phdr
  | 0, _ => []
  | n + 1, off => phdr ip off :: phdrs ip n ((off + proghdrSize) % 2 ^ 32)

/-- The program headers of the file. -/
def execPhdrs (ip : Readi) : List Phdr :=
  phdrs ip (field (ip 0 elfhdrSize) 44 2) (field (ip 0 elfhdrSize) 28 4)

def Phdr.isLoad (ph : Phdr) : Prop := ph.type = ELF_PROG_LOAD

instance (ph : Phdr) : Decidable ph.isLoad := inferInstanceAs (Decidable (_ = _))

/-- The size with one more segment. -/
def Phdr.grow (sz : ℕ) (ph : Phdr) : ℕ := if ph.isLoad then max sz (ph.vaddr + ph.memsz) else sz

/-- What is at `va` with one more segment. -/
def Phdr.put (ip : Readi) (va : ℕ) (b : UInt8) (ph : Phdr) : UInt8 :=
  if ph.isLoad ∧ ph.vaddr ≤ va ∧ va < ph.vaddr + ph.filesz then
    segByte ip ph.vaddr ph.off ph.filesz va
  else b

/-- The size of the segments. -/
def segsSize (sz : ℕ) (phs : List Phdr) : ℕ := phs.foldl Phdr.grow sz

/-- The byte that the segments put at `va`, the last one that has it. -/
def segsByte (ip : Readi) (va : ℕ) (b : UInt8) (phs : List Phdr) : UInt8 :=
  phs.foldl (Phdr.put ip va) b

/-- Where the stack page ends. -/
def stackTop (ip : Readi) : ℕ := pgroundup (segsSize 0 (execPhdrs ip)) + 2 * PGSIZE

/-- Where an argument string goes. -/
def argSp (sp : ℕ) (arg : List UInt8) : ℕ := sub32 sp (arg.length + 1) / 4 * 4

/-- Where the strings go, and how long they are. -/
def argRanges : List (List UInt8) → ℕ → List (ℕ × ℕ)
  | [], _ => []
  | arg :: rest, sp => (argSp sp arg, arg.length + 1) :: argRanges rest (argSp sp arg)

/-- The strings, then the block of pointers below them. -/
def stackRanges (argv : List (List UInt8)) (sp : ℕ) : List (ℕ × ℕ) :=
  argRanges argv sp ++ if argv.length ≤ MAXARG then
    [(sub32 (argv.foldl argSp sp) ((3 + argv.length + 1) * 4), (3 + argv.length + 1) * 4)] else []

/-- What the strings take of the stack. -/
def argsSize (argv : List (List UInt8)) : ℕ := (argv.map fun arg => (arg.length + 4) / 4 * 4).sum

section Spec

variable {K : Type} {S : Spec G Vm ℕ Panic K} {kend : ℕ} {l l' : Vm} {o : Multiset ℕ}

/-- The directory that `exec` fills, up to `sz`. -/
def Filling (l : Vm) (sz : ℕ) : Prop := l.dir.page.isSome ∧ Exact l sz

variable {sz sz' va up sp : ℕ} {ip : Readi} {l₁ : Vm} {argv : List (List UInt8)} {zero : Option ℕ}

lemma Filling.of_dir {l' : Vm} (h : Filling l sz) (hd : l'.dir = l.dir) : Filling l' sz := by
  unfold Filling Exact at *
  rwa [hd]

/-- The kernel half is the same. -/
def SameKernel (l l' : Vm) : Prop :=
  ∀ va, KERNBASE ≤ va → va < 2 ^ 32 → l'.dir.pte va = l.dir.pte va

lemma SameKernel.of_dir (h : l'.dir = l.dir) : SameKernel l l' := fun _ _ _ => by rw [h]

lemma SameKernel.trans {l'' : Vm} (h : SameKernel l l') (h' : SameKernel l' l'') :
    SameKernel l l'' := fun va h1 h2 => (h' va h1 h2).trans (h va h1 h2)

lemma Supervisor.of_same (hs : Supervisor l) (h : SameKernel l l') : Supervisor l' :=
  fun va h1 h2 hacc => hs va h1 h2 (by rwa [accessible, h va h1 h2] at hacc)

/-- `allocuvm` on the way up: the old pages are kept and the new ones zero. -/
structure Grows (l l' : Vm) (sz sz' : ℕ) : Prop where
  filling : Filling l' sz'
  kernel : SameKernel l l'
  byte : ∀ va < pgroundup sz', byte l' va = if va < pgroundup sz then PageTable.byte l va else 0

lemma Grows.refl (h : Filling l sz) : Grows l l sz sz :=
  ⟨h, fun _ _ _ => rfl, fun va hva => by rw [if_pos hva]⟩

lemma Filling.grows (h : Filling l sz) (hsz : sz ≤ sz') (hsz' : sz' < KERNBASE)
    (hz : Zeroed l l' (pgroundup sz) (pgroundup sz')) : Grows l l' sz sz' := by
  have hup := pgroundup_le hsz'
  refine ⟨⟨by rw [hz.keeps.page]; exact h.1, h.2.fill hsz hsz' hz⟩, fun va h1 h2 => ?_,
    fun va hva => ?_⟩
  · exact hz.keeps.pte va h2 (by omega)
  · split_ifs with hlt
    · have hk : va < KERNBASE := lt_of_lt_of_le hva hup
      exact (keeps_byte hz.keeps hk (by omega) ((h.2.2 va hk).mpr hlt)).2
    · obtain ⟨pa, hpa, hpte, hmem⟩ := hz.fill va (not_lt.mp hlt) hva
      rw [PageTable.byte, hpte, pteWord_addr hpa (by decide), hmem]

lemma wp_allocuvm_filling (hS : VmSpec kend S) {oldsz newsz : ℕ} (hl : Filling l oldsz)
    {Q : ℕ → Vm → Multiset ℕ → Prop}
    (h : ∀ l', max oldsz newsz ≠ 0 → newsz < KERNBASE → Grows l l' oldsz (max oldsz newsz) →
      S.Ctx l' o → Q (max oldsz newsz) l' o)
    (h0 : ∀ l', l'.dir.page.isSome → S.Ctx l' o → Q 0 l' o) :
    wp S (allocuvm kend oldsz newsz) Q l o := by
  have habs : newsz < KERNBASE →
      ∀ va, pgroundup oldsz ≤ va → va < pgroundup newsz → ¬ present (l.dir.pte va) :=
    fun hnew va h1 h2 hp => absurd ((hl.2.2 va (lt_of_lt_of_le h2 (pgroundup_le hnew))).mp hp)
      (by omega)
  refine wp_allocuvm hS (Or.inr habs) (fun _ => h0 l hl.1) (fun hlt hnew _ => ?_)
    (fun hle hnew l' hl' => ?_) fun _ _ l' hl' => h0 l' (by rw [hl'.keeps.page]; exact hl.1)
  · have hmax : max oldsz newsz = oldsz := max_eq_left hlt.le
    have hq := h l (by omega) hnew
    rw [hmax] at hq
    exact hq (Grows.refl hl) ‹_›
  · have hmax : max oldsz newsz = newsz := max_eq_right hle
    by_cases hz : newsz = 0
    · rw [hz]
      exact h0 l' (by rw [hl'.keeps.page]; exact hl.1)
    · have hq := h l' (by omega) hnew
      rw [hmax] at hq
      exact hq (hl.grows hle hnew hl')

lemma tab_of_present {d : Dir} (h : present (d.pte va)) : (d.tab (pdx va)).isSome := by
  rcases ht : d.tab (pdx va) with _ | t
  · rw [pte_of_tab_none ht] at h
    exact absurd h not_present_zero
  · rfl

/-- Below the size every page is there. -/
lemma Exact.below (h : Exact l sz) (hva : va < sz) : present (l.dir.pte va) := by
  refine (h.2 va (hva.trans h.1)).mpr ?_
  rw [pgroundup_eq h.1.le]
  omega

lemma field_lt (bs : List UInt8) (off n : ℕ) : field bs off n < 256 ^ n := by
  have h (cs : List UInt8) : cs.foldr (fun b acc => b.toNat + 256 * acc) 0 < 256 ^ cs.length := by
    induction cs with
    | nil => simp
    | cons c cs ih =>
      have := UInt8.toNat_lt c
      rw [List.foldr_cons, List.length_cons, pow_succ]
      omega
  exact (h _).trans_le (Nat.pow_le_pow_right (by decide) (by simp))

/-! ### The segments -/

/-- What `exec` has checked of a segment that it has loaded. -/
structure Phdr.Ok (ip : Readi) (sz : ℕ) (ph : Phdr) : Prop where
  aligned : ph.vaddr % PGSIZE = 0
  filesz : ph.filesz ≤ ph.memsz
  fits : ph.vaddr + ph.memsz ≤ sz
  full : ReadFull ip ph.off ph.filesz 0

/-- The segments have been loaded. -/
structure Segments (ip : Readi) (phs : List Phdr) (l l' : Vm) (sz sz' : ℕ) : Prop where
  filling : Filling l' sz'
  size : sz' = segsSize sz phs
  kernel : SameKernel l l'
  ok : ∀ ph ∈ phs, ph.isLoad → ph.Ok ip sz'
  byte : ∀ va < pgroundup sz', byte l' va =
    segsByte ip va (if va < pgroundup sz then PageTable.byte l va else 0) phs

lemma Segments.nil (h : Filling l sz) : Segments ip [] l l sz sz :=
  ⟨h, rfl, fun _ _ _ => rfl, by simp, fun va hva => by rw [if_pos hva]; rfl⟩

lemma le_segsSize (sz : ℕ) (phs : List Phdr) : sz ≤ segsSize sz phs := by
  induction phs generalizing sz with
  | nil => exact le_rfl
  | cons ph phs ih =>
    refine le_trans ?_ (ih (ph.grow sz))
    unfold Phdr.grow
    split_ifs
    · exact le_max_left _ _
    · exact le_rfl

variable {ph : Phdr} {phs : List Phdr} {l₂ : Vm} {n e : ℕ} {p : List UInt8} {us : List ℕ}
  {Q : Option (ℕ × ℕ) → Vm → Multiset ℕ → Prop}

/-- A header that is not for a segment. -/
lemma Segments.skip (hph : ¬ ph.isLoad) (h : Segments ip phs l l' sz sz') :
    Segments ip (ph :: phs) l l' sz sz' := by
  refine ⟨h.filling, ?_, h.kernel, fun q hq hload => ?_, fun va hva => ?_⟩
  · rw [segsSize, List.foldl_cons, Phdr.grow, if_neg hph]
    exact h.size
  · exact h.ok q ((List.mem_cons.mp hq).resolve_left fun e => hph (e ▸ hload)) hload
  · rw [segsByte, List.foldl_cons, Phdr.put, if_neg fun hc => hph hc.1]
    exact h.byte va hva

/-- A segment, then the rest. -/
lemma Segments.cons (hph : ph.isLoad) (hal : ph.vaddr % PGSIZE = 0) (hfile : ph.filesz ≤ ph.memsz)
    (h₁ : Grows l l₁ sz (max sz (ph.vaddr + ph.memsz)))
    (h₂ : Loaded ip ph.vaddr ph.off ph.filesz 0 l₁ l₂)
    (h : Segments ip phs l₂ l' (max sz (ph.vaddr + ph.memsz)) sz') :
    Segments ip (ph :: phs) l l' sz sz' := by
  have hgrow : ph.grow sz = max sz (ph.vaddr + ph.memsz) := if_pos hph
  have hle : max sz (ph.vaddr + ph.memsz) ≤ sz' := by
    rw [h.size]
    exact le_segsSize _ _
  have hk := h₁.filling.2.1
  refine ⟨h.filling, ?_, (h₁.kernel.trans (.of_dir h₂.dir)).trans h.kernel, fun q hq hload => ?_,
    fun va hva => ?_⟩
  · rw [segsSize, List.foldl_cons, hgrow]
    exact h.size
  · rcases List.mem_cons.mp hq with rfl | hq
    · exact ⟨hal, hfile, (le_max_right _ _).trans hle, h₂.full⟩
    · exact h.ok q hq hload
  · rw [h.byte va hva, segsByte, segsByte, List.foldl_cons]
    congr 1
    rw [Phdr.put]
    have hup := pgroundup_eq hk.le
    by_cases hin : va < pgroundup (max sz (ph.vaddr + ph.memsz))
    · have hva' : va < KERNBASE := lt_of_lt_of_le hin (pgroundup_le hk)
      have hp : present (l₁.dir.pte va) := (h₁.filling.2.2 va hva').mpr hin
      rw [if_pos hin, h₂.byte va hva' hp, h₁.byte va hin, add_zero]
      simp only [hph, true_and]
    · rw [if_neg hin, if_neg (by omega), if_neg]
      have hup' := pgroundup_eq (le_trans (le_max_left sz (ph.vaddr + ph.memsz)) hk.le)
      omega

lemma wp_loadSegs (hS : VmSpec kend S) {off : ℕ} (hl : Filling l sz)
    {Q : Option ℕ → Vm → Multiset ℕ → Prop}
    (hok : ∀ sz' l', Segments ip (phdrs ip n off) l l' sz sz' → S.Ctx l' o → Q (some sz') l' o)
    (hbad : ∀ l', l'.dir.page.isSome → S.Ctx l' o → Q none l' o) :
    wp S (loadSegs kend ip n off sz) Q l o := by
  induction n generalizing off sz l with
  | zero => exact wp_pure (hok sz l (Segments.nil hl))
  | succ n ih =>
    rw [loadSegs]
    have hv : (phdr ip off).vaddr < 2 ^ 32 := field_lt (ip off proghdrSize) 8 4
    have hm : (phdr ip off).memsz < 2 ^ 32 := field_lt (ip off proghdrSize) 20 4
    rw [phdrs] at hok
    -- the fields of the header under their names
    have htype : (field (ip off proghdrSize) 0 4 ≠ ELF_PROG_LOAD) = ¬ (phdr ip off).isLoad := rfl
    have hvaddr : field (ip off proghdrSize) 8 4 = (phdr ip off).vaddr := rfl
    have hmemsz : field (ip off proghdrSize) 20 4 = (phdr ip off).memsz := rfl
    have hfilesz : field (ip off proghdrSize) 16 4 = (phdr ip off).filesz := rfl
    have hoff : field (ip off proghdrSize) 4 4 = (phdr ip off).off := rfl
    simp only [hvaddr, hmemsz, hfilesz, hoff]
    generalize phdr ip off = ph at *
    refine wp_ite (fun _ => wp_pure (hbad l hl.1)) fun _ => ?_
    refine wp_ite (fun hskip => ?_) fun hload => ?_
    · rw [htype] at hskip
      exact ih hl fun sz' l' hl' => hok sz' l' (hl'.skip hskip)
    rw [htype, not_not] at hload
    refine wp_ite (fun _ => wp_pure (hbad l hl.1)) fun hfile => ?_
    refine wp_ite (fun _ => wp_pure (hbad l hl.1)) fun hwrap => ?_
    have hsum : (ph.vaddr + ph.memsz) % 2 ^ 32 = ph.vaddr + ph.memsz := by omega
    rw [hsum]
    -- the alignment is checked after the pages have been allocated
    refine wp_bind (wp_allocuvm_filling hS hl (fun l₁ hz hnew hl₁ _ => ?_)
      fun l₁ hl₁ _ => wp_pure (hbad l₁ hl₁))
    rw [if_neg hz]
    refine wp_ite (fun _ => wp_pure (hbad l₁ hl₁.filling.1)) fun hal => ?_
    have hex : ∀ j < ph.filesz, ph.vaddr + j < KERNBASE ∧ present (l₁.dir.pte (ph.vaddr + j)) :=
      fun j hj => by
        have hlt : ph.vaddr + j < max sz (ph.vaddr + ph.memsz) :=
          lt_of_lt_of_le (by omega) (le_max_right _ _)
        exact ⟨hlt.trans hl₁.filling.2.1, Exact.below hl₁.filling.2 hlt⟩
    refine wp_bind (wp_loaduvm hS (not_not.mp hal) hex (fun l₂ hl₂ _ => ?_) fun l₂ hl₂ _ => ?_)
    · exact wp_pure (hbad l₂ (by rw [hl₂]; exact hl₁.filling.1))
    · rw [if_pos rfl]
      exact ih (hl₁.filling.of_dir hl₂.dir) fun sz' l' hl' =>
        hok sz' l' (hl'.cons hload (not_not.mp hal) (not_lt.mp hfile) hl₁ hl₂)

/-! ### The stack -/

/-- Two pages have been added at `up` and the lower one is out of reach of user programs. -/
structure Stack (l : Vm) (up : ℕ) : Prop where
  nodup : (pages l.dir).Nodup
  aligned : up % 4096 = 0
  exact : Exact l (up + 8192)
  guard : ¬ accessible l.dir up

lemma Stack.of_dir (h : Stack l up) (hd : l'.dir = l.dir) : Stack l' up := by
  obtain ⟨h1, h2, h3, h4⟩ := h
  unfold Exact at h3
  rw [← hd] at h1 h3 h4
  exact ⟨h1, h2, h3, h4⟩

/-- Bytes that end at most three below `sp`, and can all be written, do not get out of the stack
page: they would come through the guard page. -/
lemma Stack.room (h : Stack l up) (hlow : up + 4096 ≤ sp) (htop : sp ≤ up + 8192) (hal : sp % 4 = 0)
    (hn : 0 < n) (he : e < 4) (hva : va < 2 ^ 32) (hend : (va + n + e) % 2 ^ 32 = sp)
    (hacc : ∀ k < n, accessible l.dir ((va + k) % 2 ^ 32)) :
    up + 4096 + (n + e) ≤ sp ∧ va + (n + e) = sp := by
  have hk : up + 8192 < 2147483648 := h.exact.1
  have hup := h.aligned
  have hroom : up + 4096 + (n + e) ≤ sp := by
    by_contra hlt
    refine h.guard ?_
    have hbad := hacc (n - 1 - (sp - (up + 4096) - e)) (by omega)
    rwa [accessible_same_page (show (va + (n - 1 - (sp - (up + 4096) - e))) % 2 ^ 32 / 4096 =
      up / 4096 by omega)] at hbad
  exact ⟨hroom, by omega⟩

/-- Bytes have been written from `va` on, and nowhere else. -/
structure Stored (va : ℕ) (p : List UInt8) (l l' : Vm) : Prop where
  dir : l'.dir = l.dir
  bytes : peek l' va p.length = p
  other : ∀ v < KERNBASE, present (l.dir.pte v) → ¬ (va ≤ v ∧ v < va + p.length) →
    byte l' v = byte l v

lemma Stack.stored (h : Stack l up) (htop : va + p.length ≤ up + 8192) :
    Stored va p l { l with mem := pokes l.dir va p l.mem } := by
  have hk := h.exact.1
  have hp (v : ℕ) (hv : v < va + p.length) : present (l.dir.pte v) :=
    h.exact.below (by omega)
  have hbyte {v : ℕ} (hv : v < KERNBASE) (hpv : present (l.dir.pte v)) :=
    byte_pokes_apply h.nodup va p (by omega) (fun k hk => hp _ (by omega)) hv hpv
  refine ⟨rfl, peek_eq fun v h1 h2 => ?_, fun v hv hpv hout => ?_⟩
  · rw [hbyte (by omega) (hp v h2), if_pos ⟨h1, h2⟩]
  · rw [hbyte hv hpv, if_neg hout]

/-- The strings are in memory between `sp'` and `sp`, at the addresses `us`. -/
structure Laid (up : ℕ) (argv : List (List UInt8)) (us : List ℕ) (sp sp' : ℕ) (l l' : Vm) :
    Prop where
  dir : l'.dir = l.dir
  low : up + 4096 ≤ sp'
  le : sp' ≤ sp
  aligned : sp' % 4 = 0
  strs : List.Forall₂ (fun arg p => (sp' ≤ p ∧ p + (arg.length + 1) ≤ sp) ∧
    peek l' p (arg.length + 1) = arg ++ [0]) argv us
  other : ∀ v < KERNBASE, present (l.dir.pte v) → v < sp' ∨ sp ≤ v → byte l' v = byte l v

lemma Laid.nil (hlow : up + 4096 ≤ sp) (hal : sp % 4 = 0) : Laid up [] [] sp sp l l :=
  ⟨rfl, hlow, le_rfl, hal, .nil, fun _ _ _ _ => rfl⟩

/-- Strings keep their place while something is written below them. -/
lemma Stack.strs_keep {lo lo' : ℕ} (h : Stack l up) (htop : sp ≤ up + 8192) (hlo : lo' ≤ lo)
    (hkeep : ∀ v < KERNBASE, present (l.dir.pte v) → lo ≤ v → byte l' v = byte l v)
    (hstrs : List.Forall₂ (fun arg p => (lo ≤ p ∧ p + (arg.length + 1) ≤ sp) ∧
      peek l p (arg.length + 1) = arg ++ [0]) argv us) :
    List.Forall₂ (fun arg p => (lo' ≤ p ∧ p + (arg.length + 1) ≤ sp) ∧
      peek l' p (arg.length + 1) = arg ++ [0]) argv us := by
  have hk := h.exact.1
  refine hstrs.imp fun arg p ⟨hin, hpeek⟩ => ⟨⟨hlo.trans hin.1, hin.2⟩, ?_⟩
  rw [← hpeek]
  exact peek_congr fun v h1 h2 => hkeep v (by omega) (h.exact.below (by omega)) (by omega)

/-- A string, then those below it. -/
lemma Laid.cons {sp' p : ℕ} {arg : List UInt8} (hst : Stack l up) (htop : sp ≤ up + 8192)
    (hp : p + (arg.length + 1) ≤ sp) (h₁ : Stored p (arg ++ [0]) l l₁)
    (h : Laid up argv us p sp' l₁ l') :
    Laid up (arg :: argv) (p :: us) sp sp' l l' := by
  have hlen : (arg ++ [0]).length = arg.length + 1 := List.length_append
  have hst₁ := hst.of_dir h₁.dir
  have hle := h.le
  refine ⟨h.dir.trans h₁.dir, h.low, by omega, h.aligned, .cons ⟨⟨hle, hp⟩, ?_⟩ ?_,
    fun v hv hpv hout => ?_⟩
  · have hk := hst.exact.1
    have hbytes := h₁.bytes
    rw [hlen] at hbytes
    exact (peek_congr fun v h1 h2 => h.other v (by omega) (hst₁.exact.below (by omega))
      (.inr h1)).trans hbytes
  · exact h.strs.imp fun a q hq => ⟨⟨hq.1.1, by omega⟩, hq.2⟩
  · rw [h.other v hv (by rwa [h₁.dir]) (by omega), h₁.other v hv hpv (by omega)]

/-- The page tables for the ranges are there. -/
def HasTabs (l : Vm) (ranges : List (ℕ × ℕ)) : Prop :=
  ∀ r ∈ ranges, ∀ k < r.2, (l.dir.tab (pdx ((r.1 + k) % 2 ^ 32))).isSome

lemma sub32_lt (a b : ℕ) : sub32 a b < 2 ^ 32 := Nat.mod_lt _ (by decide)

lemma argSp_lt (sp : ℕ) (arg : List UInt8) : argSp sp arg < 2 ^ 32 := by
  unfold argSp sub32
  omega

/-- `copyout` of bytes that end at most three below `sp`. -/
lemma wp_copyout_stack (hS : VmSpec kend S) (hst : Stack l up) (hlow : up + 4096 ≤ sp)
    (htop : sp ≤ up + 8192) (hal : sp % 4 = 0) (hp : 0 < p.length) (he : e < 4) (hva : va < 2 ^ 32)
    (hend : (va + p.length + e) % 2 ^ 32 = sp)
    (hnull : S.halts .nullDeref ∨ HasTabs l [(va, p.length)]) (hsup : Blind S ∨ Supervisor l)
    {Q : Bool → Vm → Multiset ℕ → Prop} (hbad : ∀ l', l'.dir = l.dir → S.Ctx l' o → Q false l' o)
    (hok : ∀ l', Stored va p l l' → up + 4096 + (p.length + e) ≤ sp → va + (p.length + e) = sp →
      S.Ctx l' o → Q true l' o) :
    wp S (copyout zero va p) Q l o := by
  refine wp_copyout hS hva (hnull.imp_right fun h => h _ (List.mem_singleton_self _)) hsup
    fun n hn => ?_
  by_cases hall : n = p.length
  · subst hall
    obtain ⟨hroom, heq⟩ := hst.room hlow htop hal hp he hva hend hn.acc
    rw [decide_eq_true rfl, List.take_length]
    exact hok _ (hst.stored (by omega)) hroom heq
  · rw [decide_eq_false hall]
    exact hbad _ rfl

lemma wp_pushArgs (hS : VmSpec kend S) {ustack : List ℕ} (hst : Stack l up) (hlow : up + 4096 ≤ sp)
    (htop : sp ≤ up + 8192) (hal : sp % 4 = 0)
    (hnull : S.halts .nullDeref ∨ HasTabs l (argRanges argv sp)) (hsup : Blind S ∨ Supervisor l)
    {Q : Option (ℕ × List ℕ) → Vm → Multiset ℕ → Prop}
    (hbad : ∀ l', l'.dir = l.dir → S.Ctx l' o → Q none l' o)
    (hok : ∀ us l', (ustack.length ≤ MAXARG → ustack.length + argv.length ≤ MAXARG) →
      Laid up argv us sp (argv.foldl argSp sp) l l' → S.Ctx l' o →
      Q (some (argv.foldl argSp sp, ustack ++ us)) l' o) :
    wp S (pushArgs zero argv sp ustack) Q l o := by
  induction argv generalizing sp ustack l with
  | nil =>
    have hq := hok [] l id (Laid.nil hlow hal)
    rw [List.append_nil] at hq
    exact wp_pure hq
  | cons arg rest ih =>
    rw [pushArgs]
    refine wp_ite (fun _ => wp_pure (hbad l rfl)) fun hmax => ?_
    have hlen : (arg ++ [0]).length = arg.length + 1 := List.length_append
    have hk : up + 8192 < 2147483648 := hst.exact.1
    have hend : (argSp sp arg + (arg ++ [0]).length + sub32 sp (arg.length + 1) % 4) % 2 ^ 32 =
        sp := by
      rw [hlen]
      unfold argSp sub32
      omega
    refine wp_bind (wp_copyout_stack hS hst hlow htop hal (by omega)
      (Nat.mod_lt (sub32 sp (arg.length + 1)) (by decide)) (argSp_lt sp arg) hend
      (hnull.imp_right fun h r hr => ?_) hsup (fun l' hl' _ => wp_pure (hbad l' hl'))
      fun l₁ hl₁ hroom heq _ => ?_)
    · refine h r ?_
      rw [hlen] at hr
      rw [List.mem_singleton.mp hr]
      exact List.mem_cons_self
    · rw [if_pos rfl]
      rw [hlen] at hroom heq
      have hlow' : up + 4096 ≤ argSp sp arg := by omega
      have htop' : argSp sp arg ≤ up + 8192 := by omega
      refine ih (hst.of_dir hl₁.dir) hlow' htop' (Nat.mul_mod_left _ _)
        (hnull.imp_right fun h r hr => ?_) (hsup.imp_right fun h => ?_)
        (fun l' hl' => hbad l' (hl'.trans hl₁.dir)) fun us l' hcount hl' => ?_
      · rw [hl₁.dir]
        exact h r (List.mem_cons_of_mem _ hr)
      · exact h.of_same (.of_dir hl₁.dir)
      · have hcount' : ustack.length + (arg :: rest).length ≤ MAXARG := by
          rw [List.length_append, List.length_singleton] at hcount
          rw [List.length_cons]
          omega
        have hq := hok (argSp sp arg :: us) l' (fun _ => hcount')
          (.cons hst htop (by omega) hl₁ hl')
        rwa [List.append_cons] at hq

lemma bytes_flatMap_length (ws : List ℕ) : (ws.flatMap bytes).length = ws.length * 4 := by
  induction ws with
  | nil => rfl
  | cons w ws ih =>
    rw [List.flatMap_cons, List.length_append, ih, List.length_cons, bytes, List.length_map,
      List.length_range]
    omega

/-! Arguments that fit lie below the top of the stack. -/

lemma argSp_eq (arg : List UInt8) (hsp : sp % 4 = 0) (hsp' : sp < 2 ^ 32)
    (hle : (arg.length + 4) / 4 * 4 ≤ sp) : argSp sp arg = sp - (arg.length + 4) / 4 * 4 := by
  unfold argSp sub32
  omega

lemma argRanges_fit (hsp : sp % 4 = 0) (hsp' : sp < 2 ^ 32) (hle : argsSize argv ≤ sp) :
    (∀ r ∈ argRanges argv sp, sp - argsSize argv ≤ r.1 ∧ r.1 + r.2 ≤ sp) ∧
      argv.foldl argSp sp = sp - argsSize argv := by
  induction argv generalizing sp with
  | nil => exact ⟨by simp [argRanges], rfl⟩
  | cons arg rest ih =>
    have hsum : argsSize (arg :: rest) = (arg.length + 4) / 4 * 4 + argsSize rest := by
      simp [argsSize]
    rw [hsum] at hle ⊢
    have heq := argSp_eq arg hsp hsp' (by omega)
    obtain ⟨h1, h2⟩ := @ih (argSp sp arg) (by omega) (by omega) (by omega)
    refine ⟨fun r hr => ?_, ?_⟩
    · rcases List.mem_cons.mp hr with rfl | hr
      · dsimp only
        omega
      · have := h1 r hr
        omega
    · rw [List.foldl_cons, h2]
      omega

/-- What the program finds on its stack: the fake return address, `argc`, the address of the array
`us` that follows, and the strings above it. -/
structure Passed (argv : List (List UInt8)) (us : List ℕ) (up esp : ℕ) (l : Vm) : Prop where
  low : up + 4096 ≤ esp
  high : esp + (4 + argv.length) * 4 ≤ up + 8192
  block : peek l esp ((4 + argv.length) * 4) =
    ([0xffffffff, argv.length, esp + 12] ++ us ++ [0]).flatMap bytes
  strs : List.Forall₂ (fun arg p => (up + 4096 ≤ p ∧ p + (arg.length + 1) ≤ up + 8192) ∧
    peek l p (arg.length + 1) = arg ++ [0]) argv us

/-- The strings and the block of words, from the top of the stack page down. -/
lemma wp_stackArgs (hS : VmSpec kend S) (hst : Stack l up)
    (hnull : S.halts .nullDeref ∨ HasTabs l (stackRanges argv (up + 2 * PGSIZE)))
    (hsup : Blind S ∨ Supervisor l) (hbad : ∀ l', l'.dir = l.dir → S.Ctx l' o → Q none l' o)
    (hok : ∀ us sp l', l'.dir = l.dir → (∀ v < up + PGSIZE, byte l' v = byte l v) →
      Passed argv us up sp l' → S.Ctx l' o → Q (some (up + 2 * PGSIZE, sp)) l' o) :
    wp S (do
      match ← pushArgs zero argv (up + 2 * PGSIZE) [] with
      | none => pure none
      | some (sp, ustack) =>
        let argc := ustack.length
        let words := [0xffffffff, argc, sub32 sp ((argc + 1) * 4)] ++ ustack ++ [0]
        let sp := sub32 sp ((3 + argc + 1) * 4)
        if ← copyout zero sp (words.flatMap bytes) then pure (some (up + 2 * PGSIZE, sp))
        else pure none) Q l o := by
  have hk : up + 8192 < 2147483648 := hst.exact.1
  have htwo : up + 2 * PGSIZE = up + 8192 := rfl
  have hup := hst.aligned
  refine wp_bind (wp_pushArgs hS hst (by omega) htwo.le (by omega)
    (hnull.imp_right fun h r hr => h r (List.mem_append_left _ hr)) hsup
    (fun l' hl' _ => wp_pure (hbad l' hl')) fun us l₁ hcount hl₁ _ => ?_)
  have hcount' : argv.length ≤ MAXARG := by
    have := hcount (Nat.zero_le _)
    rwa [List.length_nil, zero_add] at this
  have hmax : argv.length ≤ 32 := hcount'
  have hargc : us.length = argv.length := hl₁.strs.length_eq.symm
  have hst₁ := hst.of_dir hl₁.dir
  obtain ⟨hdir, hlow, hle, hal, hstrs, hother⟩ := hl₁
  have hle : argv.foldl argSp (up + 2 * PGSIZE) ≤ up + 8192 := hle
  dsimp only
  rw [List.nil_append, hargc]
  set sp := argv.foldl argSp (up + 2 * PGSIZE) with hsp
  set p := ([0xffffffff, argv.length, sub32 sp ((argv.length + 1) * 4)] ++ us ++ [0]).flatMap
    bytes with hpdef
  have hlen : p.length = (3 + argv.length + 1) * 4 := by
    rw [hpdef, bytes_flatMap_length]
    simp only [List.length_append, List.length_cons, List.length_nil, hargc]
  have hend : (sub32 sp ((3 + argv.length + 1) * 4) + p.length + 0) % 2 ^ 32 = sp := by
    rw [hlen]
    unfold sub32
    omega
  refine wp_bind (wp_copyout_stack hS hst₁ hlow hle hal (by omega) (by decide)
    (sub32_lt _ _) hend ?_ (hsup.imp_right fun h => h.of_same (.of_dir hdir))
    (fun l' hl' _ => wp_pure (hbad l' (hl'.trans hdir)))
    fun l₂ hl₂ hroom heq _ => wp_pure (hok us _ l₂ (hl₂.dir.trans hdir) (fun v hv => ?_) ?_))
  · refine hnull.imp_right fun h r hr => ?_
    rw [hlen] at hr
    rw [hdir]
    exact h r (List.mem_append_right _ (by rwa [if_pos hcount']))
  · have hv' : v < up + 4096 := hv
    have hpv := hst.exact.below (show v < up + 8192 by omega)
    have hvk : v < KERNBASE := by
      unfold KERNBASE
      omega
    rw [hl₂.other v hvk (by rwa [hdir]) (by omega), hother v hvk hpv (.inl (by omega))]
  · rw [hlen] at hroom heq
    have hptr : sub32 sp ((argv.length + 1) * 4) = sub32 sp ((3 + argv.length + 1) * 4) + 12 := by
      unfold sub32
      omega
    refine ⟨by omega, by omega, ?_, ?_⟩
    · rw [show (4 + argv.length) * 4 = p.length by omega, hl₂.bytes, hpdef, hptr]
    · refine hst₁.strs_keep le_rfl hlow (fun v hv hpv hle => hl₂.other v hv hpv (by omega)) ?_
      exact hstrs

/-- The process has its stack with the arguments: the page below it is out of reach and has not been
written to, and what was there before still is. -/
structure Stacked (argv : List (List UInt8)) (l l' : Vm) (sz sp : ℕ) : Prop where
  filling : Filling l' (pgroundup sz + 2 * PGSIZE)
  guard : ¬ user (l'.dir.pte (pgroundup sz))
  zero : ∀ va, pgroundup sz ≤ va → va < pgroundup sz + PGSIZE → byte l' va = 0
  byte : ∀ va < pgroundup sz, byte l' va = PageTable.byte l va
  passed : ∃ us, Passed argv us (pgroundup sz) sp l'

lemma wp_setupStack (hS : VmSpec kend S) (hl : Filling l sz)
    (hnull : S.halts .nullDeref ∨ ∀ r ∈ stackRanges argv (pgroundup sz + 2 * PGSIZE), ∀ k < r.2,
      (r.1 + k) % 2 ^ 32 < pgroundup sz + 2 * PGSIZE ∨ KERNBASE ≤ (r.1 + k) % 2 ^ 32 ∧
      present (l.dir.pte ((r.1 + k) % 2 ^ 32))) (hsup : Blind S ∨ Supervisor l)
    (hok : ∀ sp l', Stacked argv l l' sz sp → S.Ctx l' o →
      Q (some (pgroundup sz + 2 * PGSIZE, sp)) l' o)
    (hbad : ∀ l', l'.dir.page.isSome → S.Ctx l' o → Q none l' o) :
    wp S (setupStack kend zero argv sz) Q l o := by
  have hk : sz < 2147483648 := hl.2.1
  have hup := pgroundup_eq hl.2.1.le
  -- rounding up the size maps nothing new
  have hup2 : pgroundup (pgroundup sz) = pgroundup sz := by
    unfold pgroundup PGSIZE
    omega
  have hround : pgroundup sz < KERNBASE → Filling l (pgroundup sz) := fun hlt =>
    ⟨hl.1, hlt, fun va hva => by rw [hup2]; exact hl.2.2 va hva⟩
  unfold setupStack
  rcases Nat.lt_or_ge (pgroundup sz) KERNBASE with hlt | hge
  swap
  · -- the two pages would end above `KERNBASE`
    refine wp_bind ?_
    rw [allocuvm, if_pos]
    · exact wp_pure fun hc => wp_pure (hbad l hl.1)
    · have : 2147483648 ≤ pgroundup sz := hge
      unfold KERNBASE PGSIZE
      omega
  have hlt' : pgroundup sz < 2147483648 := hlt
  have hmod : (pgroundup sz + 2 * PGSIZE) % 2 ^ 32 = pgroundup sz + 2 * PGSIZE := by
    unfold PGSIZE
    omega
  have hmax : max (pgroundup sz) (pgroundup sz + 2 * PGSIZE) = pgroundup sz + 2 * PGSIZE :=
    max_eq_right (Nat.le_add_right _ _)
  have hsub : pgroundup sz + 2 * PGSIZE - 2 * PGSIZE = pgroundup sz := Nat.add_sub_cancel _ _
  dsimp only
  rw [hmod]
  refine wp_bind (wp_allocuvm_filling hS (hround hlt) (fun l₁ hz hnew hl₁ _ => ?_)
    fun l' hl' _ => wp_pure (hbad l' hl'))
  rw [if_neg hz]
  rw [hmax] at hl₁ ⊢
  rw [hsub]
  have hpres : present (l₁.dir.pte (pgroundup sz)) :=
    Exact.below hl₁.filling.2 (by unfold PGSIZE; omega)
  have hva₁ {va : ℕ} (hva : va < pgroundup sz + PGSIZE) :
      va < pgroundup (pgroundup sz + 2 * PGSIZE) := by
    rw [pgroundup_eq hnew.le]
    unfold PGSIZE at *
    omega
  refine wp_bind (wp_clearpteu hS (by omega) (Or.inr (tab_of_present hpres)) fun l₂ hl₂ hctx => ?_)
  have hfill₂ : Filling l₂ (pgroundup sz + 2 * PGSIZE) :=
    ⟨by rw [hl₂.page]; exact hl₁.filling.1, hl₁.filling.2.of_present fun va hva =>
      hl₂.present (by unfold KERNBASE at hva; omega)⟩
  have hker₂ : SameKernel l l₂ := fun va h1 h2 => by
    have h1' : 2147483648 ≤ va := h1
    rw [hl₂.other va h2 (by omega), hl₁.kernel va h1 h2]
  have hsup₂ : Blind S ∨ Supervisor l₂ := hsup.imp_right fun h => h.of_same hker₂
  have htabs : S.halts .nullDeref ∨ HasTabs l₂ (stackRanges argv (pgroundup sz + 2 * PGSIZE)) := by
    refine hnull.imp_right fun h r hr k hkr => ?_
    rcases h r hr k hkr with hlow | ⟨hhigh, hp⟩
    · exact tab_of_present (Exact.below hfill₂.2 hlow)
    · refine tab_of_present ?_
      rwa [hker₂ _ hhigh (Nat.mod_lt _ (by decide))]
  have hguard : ¬ user (l₂.dir.pte (pgroundup sz)) := by
    rw [hl₂.self]
    exact clearU_user _
  have hst : Stack l₂ (pgroundup sz) := by
    refine ⟨?_, by omega, hfill₂.2, fun ha => hguard ha.2⟩
    rw [← hS.own]
    exact Multiset.nodup_of_le (Multiset.le_add_right _ _) hctx.nodup
  refine wp_stackArgs hS hst htabs hsup₂ (fun l' hl' => hbad l' (hfill₂.of_dir hl').1)
    fun us sp l₃ hdir hbyte hpassed => hok sp l₃ ⟨hfill₂.of_dir hdir, ?_, fun va h1 h2 => ?_,
      fun va hva => ?_, us, hpassed⟩
  · rwa [hdir]
  · rw [hbyte va h2, hl₂.byte (by omega), hl₁.byte va (hva₁ (by omega)), hup2,
      if_neg (not_lt.mpr h1)]
  · rw [hbyte va (by omega), hl₂.byte (by omega), hl₁.byte va (hva₁ (by omega)), hup2, if_pos hva]

/-- The address space that `exec` commits. -/
structure Image (ip : Readi) (argv : List (List UInt8)) (c : Committed) (l : Vm) : Prop where
  filling : Filling l c.sz
  sz : c.sz = stackTop ip
  low : segsSize 0 (execPhdrs ip) < KERNBASE
  entry : c.entry = field (ip 0 elfhdrSize) 24 4
  guard : ¬ user (l.dir.pte (c.sz - 2 * PGSIZE))
  ok : ∀ ph ∈ execPhdrs ip, ph.isLoad → ph.Ok ip (segsSize 0 (execPhdrs ip))
  byte : ∀ va < c.sz - 2 * PGSIZE, byte l va = segsByte ip va 0 (execPhdrs ip)
  zero : ∀ va, c.sz - 2 * PGSIZE ≤ va → va < c.sz - PGSIZE → PageTable.byte l va = 0
  passed : ∃ us, Passed argv us (c.sz - 2 * PGSIZE) c.sp l

lemma Segments.image (h₁ : Segments ip (execPhdrs ip) l l₁ 0 sz) (h₂ : Stacked argv l₁ l₂ sz sp) :
    Image ip argv ⟨pgroundup sz + 2 * PGSIZE, field (ip 0 elfhdrSize) 24 4, sp⟩ l₂ := by
  have hsub : pgroundup sz + 2 * PGSIZE - 2 * PGSIZE = pgroundup sz := Nat.add_sub_cancel _ _
  have h0 : pgroundup 0 = 0 := by rw [pgroundup_eq (Nat.zero_le _)]
  have hsub' : pgroundup sz + 2 * PGSIZE - PGSIZE = pgroundup sz + PGSIZE := by
    unfold PGSIZE
    omega
  refine ⟨h₂.filling, by rw [stackTop, ← h₁.size], by rw [← h₁.size]; exact h₁.filling.2.1, rfl, ?_,
    by rw [← h₁.size]; exact h₁.ok, fun va hva => ?_, ?_, ?_⟩ <;> dsimp only at *
  · rw [hsub]
    exact h₂.guard
  · rw [hsub] at hva
    rw [h₂.byte va hva, h₁.byte va hva, h0, if_neg (Nat.not_lt_zero va)]
  · rw [hsub, hsub']
    exact h₂.zero
  · rw [hsub]
    exact h₂.passed

/-- The rows or the new pages have the page tables for what goes to the stack. -/
def StackMapped (kmap : List Kmap) (ip : Readi) (argv : List (List UInt8)) : Prop :=
  ∀ r ∈ stackRanges argv (stackTop ip), ∀ k < r.2,
    (r.1 + k) % 2 ^ 32 < stackTop ip ∨ ∃ row ∈ kmap, row.covers ((r.1 + k) % 2 ^ 32)

/-- **`exec` builds the address space that the file asks for, or gives everything back.** -/
lemma wp_execImage (hS : VmSpec kend S) {kmap : List Kmap} (hkmap : ∀ k ∈ kmap, k.high)
    (hremap : S.halts .remap ∨ kmap.Pairwise Kmap.apart)
    (hnull : S.halts .nullDeref ∨ StackMapped kmap ip argv)
    (hsup : Blind S ∨ ∀ k ∈ kmap, k.supervisor) (hl : pages l.dir = 0)
    {Q : Option Committed → Vm → Multiset ℕ → Prop}
    (hok : ∀ c l', Image ip argv c l' → S.Ctx l' o → Q (some c) l' o)
    (hbad : ∀ l', pages l'.dir = 0 → S.Ctx l' o → Q none l' o) :
    wp S (execImage kend kmap zero ip argv) Q l o := by
  have hfree (l' : Vm) (h : l'.dir.page.isSome) :
      wp S (do freevm kend; pure none) Q l' o :=
    wp_bind (wp_freevm hS h fun l₂ hl₂ _ => wp_pure (hbad l₂ hl₂))
  unfold execImage
  refine wp_ite (fun _ => wp_pure (hbad l hl)) fun _ => ?_
  refine wp_ite (fun _ => wp_pure (hbad l hl)) fun _ => ?_
  refine wp_bind (wp_setupkvm hS hkmap hremap hl (fun l₀ hl₀ hrows _ => ?_) fun l₁ hl₁ _ => ?_)
  · rw [if_pos rfl]
    refine wp_bind (wp_loadSegs hS ⟨hl₀.1, exact_zero hl₀.2⟩ (fun sz l₁ hl₁ _ => ?_)
      fun l₁ hl₁ _ => hfree l₁ hl₁)
    have hsegs : Segments ip (execPhdrs ip) l₀ l₁ 0 sz := hl₁
    have htop : stackTop ip = pgroundup sz + 2 * PGSIZE := by rw [stackTop, ← hsegs.size]
    refine wp_bind (wp_setupStack hS hsegs.filling (hnull.imp_right fun h r hr k hk => ?_)
      (hsup.imp_right fun h => (hrows.supervisor h).of_same hsegs.kernel) (fun sp l₂ hl₂ _ => ?_)
      fun l₂ hl₂ _ => hfree l₂ hl₂)
    · rw [← htop] at hr ⊢
      refine (h r hr k hk).imp_right fun ⟨row, hrow, hcov⟩ => ?_
      obtain ⟨h1, h2⟩ := (hkmap row hrow).bounds hcov
      exact ⟨h1, by rw [hsegs.kernel _ h1 h2]; exact hrows.row row hrow _ hcov⟩
    · exact wp_pure (hok _ l₂ (hsegs.image hl₂))
  · exact wp_pure (hbad l₁ hl₁)

end Spec

end Xv6.PageTable
