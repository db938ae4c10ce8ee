import Xv6.Lib.Monitor

/-!
The line discipline of `console.c`, with `cons.lock` as the lock of a monitor: `consoleintr` runs as
an interrupt handler, `consoleread` as a process that has not been killed. Output to the screen is
left out.
-/

namespace Xv6.Console

open Xv6.Lib.Run Xv6.Lib.Monitor
open Function (update update_of_ne update_self update_idem)

def INPUT_BUF : UInt32 := 128

/-- `C(x)`, Control-x. -/
def ctrl (x : UInt8) : UInt8 := x - 64

/-- `'\n'` -/
def NL : UInt8 := 10

/-- `'\r'` -/
def CR : UInt8 := 13

def DEL : UInt8 := 0x7f

/-- `C('D')`, `C('H')`, `C('P')` and `C('U')`. -/
def EOT : UInt8 := ctrl 68
def BS : UInt8 := ctrl 72
def PROCS : UInt8 := ctrl 80
def KILL : UInt8 := ctrl 85

structure Input where
  buf : ℕ → UInt8
  r : UInt32
  w : UInt32
  e : UInt32

/-- The loop that kills a line; `n` is `input.e - input.w`. -/
def killLoop (d : Input) : ℕ → Input
  | 0 => d
  | n + 1 =>
    if d.e ≠ d.w ∧ d.buf ((d.e - 1) % INPUT_BUF).toNat ≠ NL then killLoop { d with e := d.e - 1 } n
    else d

def killLine (d : Input) : Input := killLoop d (d.e - d.w).toNat

def backspace (d : Input) : Input := if d.e ≠ d.w then { d with e := d.e - 1 } else d

/-- `input.buf[input.e++ % INPUT_BUF] = c` -/
def Input.put (d : Input) (c : UInt8) : Input :=
  { d with buf := update d.buf (d.e % INPUT_BUF).toNat c, e := d.e + 1 }

/-- `c = (c == '\r') ? '\n' : c` -/
def newline (c : UInt8) : UInt8 := if c = CR then NL else c

/-- A character other than `C('P')` in `consoleintr`: what becomes of `input`, and whether
`wakeup(&input.r)` is called. -/
def intrChar (d : Input) (c : UInt8) : Input × Bool :=
  if c = KILL then (killLine d, false)
  else if c = BS ∨ c = DEL then (backspace d, false)
  else if c ≠ 0 ∧ d.e - d.r < INPUT_BUF then
    let c := newline c
    let d := d.put c
    if c = NL ∨ c = EOT ∨ d.e = d.r + INPUT_BUF then ({ d with w := d.e }, true) else (d, false)
  else (d, false)

/-! ### What the discipline is for -/

/-- A call of `consoleread` that has returned: what it asked for, what it got, and how many
characters had been read when it returned. -/
structure Return (A : Type*) where
  who : A
  n : ℤ
  bytes : List UInt8
  pos : ℕ

/-- The buffer of `console.c`, and history: the line being typed, what has been committed, which
characters were read and by whom, and the calls of `consoleread` that have returned. -/
structure Cons (A : Type*) where
  input : Input
  line : List UInt8
  committed : List UInt8
  taken : List (A × UInt8)
  returned : List (Return A)

variable {A : Type*}

/-- What a character that is typed does to the line. -/
def Cons.type (d : Cons A) (c : UInt8) : Cons A :=
  if c = KILL then { d with line := [] }
  else if c = BS ∨ c = DEL then { d with line := d.line.dropLast }
  else if c ≠ 0 ∧ d.committed.length + d.line.length < d.taken.length + 128 then
    if newline c = NL ∨ newline c = EOT ∨
        d.committed.length + d.line.length + 1 = d.taken.length + 128 then
      { d with committed := d.committed ++ (d.line ++ [newline c]), line := [] }
    else { d with line := d.line ++ [newline c] }
  else d

def start (buf : ℕ → UInt8) : Cons A := ⟨⟨buf, 0, 0, 0⟩, [], [], [], []⟩

inductive Call
  | intr (chars : List UInt8)
  | read (n : ℤ)

/-- The loop of `consoleintr`, with what `getc` is going to return, and that of `consoleread`, with
what has been copied to `dst`. -/
inductive Code
  | intr (chars : List UInt8) (doprocdump : Bool)
  | read (target n : ℤ) (dst : List UInt8)

inductive Result
  | intr (doprocdump : Bool)
  | read (r : ℤ)

/-- A call of `consoleread` returns. -/
def Cons.ret (d : Cons A) (a : A) (target : ℤ) (dst : List UInt8) : Cons A :=
  { d with returned := d.returned ++ [⟨a, target, dst, d.taken.length⟩] }

/-- The character at `input.buf[input.r % INPUT_BUF]`. -/
def Cons.front (d : Cons A) : UInt8 := d.input.buf (d.input.r % INPUT_BUF).toNat

/-- That character has been read. -/
def Cons.take (d : Cons A) (a : A) : Cons A :=
  { d with
    input := { d.input with r := d.input.r + 1 }
    taken := d.taken ++ [(a, d.front)] }

def code (a : A) : Code → Cons A → Cmd Code Result Unit × Cons A
  | .intr [] doprocdump, d => (.release (.intr doprocdump), d)
  | .intr (c :: chars) doprocdump, d =>
    if c = PROCS then (.goto (.intr chars true), d)
    else
      let (input, wake) := intrChar d.input c
      let d := { d.type c with input := input }
      if wake then (.wakeup () (.intr chars doprocdump), d)
      else (.goto (.intr chars doprocdump), d)
  | .read target n dst, d =>
    if n > 0 then
      if d.input.r = d.input.w then (.sleep () (.read target n dst), d)
      else if d.front = EOT then
        -- `input.r--` if something has been read
        if n < target then (.release (.read (target - n)), d.ret a target dst)
        else (.release (.read (target - n)), (d.take a).ret a target dst)
      else
        let dst := dst ++ [d.front]
        if d.front = NL then (.release (.read (target - (n - 1))), (d.take a).ret a target dst)
        else (.goto (.read target (n - 1) dst), d.take a)
    else (.release (.read (target - n)), d.ret a target dst)

/-- `consoleintr` and `consoleread`. -/
def console : Client A Call Empty Code Result Unit (Cons A) where
  enter _
    | .intr chars, d => some (.intr chars false, d)
    | .read n, d => some (.read n n [], d)
  code := code
  env e := e.elim

/-- What the buffer has from one index to another. -/
def Input.between (d : Input) (i j : UInt32) : List UInt8 :=
  (List.range (j - i).toNat).map fun k => d.buf ((i + .ofNat k) % INPUT_BUF).toNat

section Delivery

variable [DecidableEq A]

/-- What a call consumed: one that asked for something and got nothing has read `C('D')`. -/
def Return.chars (q : Return A) : List UInt8 := if q.bytes = [] ∧ 0 < q.n then [EOT] else q.bytes

/-- What a call in progress has read. -/
def progress : Option Code → List UInt8
  | some (.read _ _ dst) => dst
  | _ => []

/-- What a process has read. -/
def Cons.takenBy (d : Cons A) (a : A) : List UInt8 :=
  (d.taken.filter fun x => x.1 = a).map Prod.snd

/-- What the calls of a process that have returned account for. -/
def Cons.consumed (d : Cons A) (a : A) : List UInt8 :=
  (d.returned.filter fun q => q.who = a).flatMap Return.chars

/-- What a call may return, and why it may return less than it was asked for: at the end of a line,
or at `C('D')`, which is read if nothing comes before it and is left in the buffer otherwise. -/
structure Return.Ok (q : Return A) (committed : List UInt8) : Prop where
  len : q.bytes.length ≤ q.n.toNat
  eot : EOT ∉ q.bytes
  nl : NL ∉ q.bytes.dropLast
  short : q.bytes.length < q.n.toNat → NL ∈ q.bytes ∨
    (q.bytes ≠ [] ∧ committed[q.pos]? = some EOT) ∨
      q.bytes = [] ∧ ∃ j, q.pos = j + 1 ∧ committed[j]? = some EOT

/-- Every `C('D')` that has been read made a call return nothing. -/
def Cons.Eofs (d : Cons A) : Prop :=
  ∀ j a, d.taken[j]? = some (a, EOT) →
    ∃ q ∈ d.returned, q.who = a ∧ q.bytes = [] ∧ 0 < q.n ∧ q.pos = j + 1

end Delivery

/-! ### The buffer -/

/-- The indices count the characters, modulo `2 ^ 32`, and the buffer has those that are committed
and not read, and the line. -/
structure Rel (d : Cons A) : Prop where
  r : d.input.r = .ofNat d.taken.length
  w : d.input.w = .ofNat d.committed.length
  e : d.input.e = .ofNat (d.committed.length + d.line.length)
  le : d.taken.length ≤ d.committed.length
  room : d.committed.length + d.line.length ≤ d.taken.length + 128
  buf : ∀ j, d.taken.length ≤ j → j < d.committed.length + d.line.length →
    (d.committed ++ d.line)[j]? = some (d.input.buf (j % 128))
  taken : d.taken.map Prod.snd = d.committed.take d.taken.length

lemma slot_ofNat (n : ℕ) : ((UInt32.ofNat n) % INPUT_BUF).toNat = n % 128 := by
  have h : INPUT_BUF.toNat = 128 := rfl
  rw [UInt32.toNat_mod, UInt32.toNat_ofNat', h]
  omega

variable {b : ℕ} {l : List UInt8} {x : UInt8}

lemma sub_ofNat {a : ℕ} (h : a ≤ b) (hb : b ≤ a + 128) :
    (UInt32.ofNat b - UInt32.ofNat a).toNat = b - a := by
  rw [UInt32.toNat_sub, UInt32.toNat_ofNat', UInt32.toNat_ofNat']
  omega

lemma ofNat_eq_iff {a : ℕ} (h : a ≤ b) (hb : b ≤ a + 128) :
    UInt32.ofNat a = UInt32.ofNat b ↔ a = b := by
  rw [← UInt32.toNat_inj, UInt32.toNat_ofNat', UInt32.toNat_ofNat']
  omega

lemma ofNat_add_one (n : ℕ) : UInt32.ofNat n + 1 = UInt32.ofNat (n + 1) := by
  rw [← UInt32.toNat_inj, UInt32.toNat_add, UInt32.toNat_ofNat', UInt32.toNat_ofNat']
  change (n % 2 ^ 32 + 1) % 2 ^ 32 = (n + 1) % 2 ^ 32
  omega

lemma ofNat_succ_sub_one (n : ℕ) : UInt32.ofNat (n + 1) - 1 = UInt32.ofNat n := by
  rw [← ofNat_add_one, UInt32.add_sub_cancel]

lemma rel_start (buf : ℕ → UInt8) : Rel (start buf : Cons A) where
  r := rfl
  w := rfl
  e := rfl
  le := le_rfl
  room := by simp [start]
  buf j _ hj := by simp [start] at hj
  taken := rfl

variable {d : Cons A} {a : A} {c : UInt8}

lemma Rel.e_eq_w (h : Rel d) : d.input.e = d.input.w ↔ d.line = [] := by
  have hroom := h.room
  have hle := h.le
  rw [h.e, h.w, eq_comm, ofNat_eq_iff (by omega) (by omega), ← List.length_eq_zero_iff]
  omega

lemma Rel.sub_w (h : Rel d) : (d.input.e - d.input.w).toNat = d.line.length := by
  have hroom := h.room
  have hle := h.le
  rw [h.e, h.w, sub_ofNat (by omega) (by omega)]
  omega

lemma Rel.e_sub_r (h : Rel d) :
    (d.input.e - d.input.r).toNat = d.committed.length + d.line.length - d.taken.length := by
  have hle := h.le
  rw [h.e, h.r, sub_ofNat (by omega) h.room]

lemma Rel.w_sub_r (h : Rel d) :
    (d.input.w - d.input.r).toNat = d.committed.length - d.taken.length := by
  have hroom := h.room
  rw [h.w, h.r, sub_ofNat h.le (by omega)]

lemma Rel.r_eq_w (h : Rel d) : d.input.r = d.input.w ↔ d.taken.length = d.committed.length := by
  have hroom := h.room
  rw [h.r, h.w, ofNat_eq_iff h.le (by omega)]

/-- The last character of the line, in the buffer. -/
lemma Rel.last (h : Rel d) (hl : d.line = l ++ [x]) :
    d.input.e - 1 = .ofNat (d.committed.length + l.length) ∧
      d.input.buf ((d.input.e - 1) % INPUT_BUF).toNat = x := by
  have hlen : d.line.length = l.length + 1 := by simp [hl]
  have he : d.input.e - 1 = .ofNat (d.committed.length + l.length) := by
    rw [h.e, hlen, ← Nat.add_assoc, ofNat_succ_sub_one]
  have hle := h.le
  have hb := h.buf (d.committed.length + l.length) (by omega) (by omega)
  rw [hl, ← List.append_assoc, List.getElem?_append_right (by simp)] at hb
  refine ⟨he, ?_⟩
  rw [he, slot_ofNat]
  simpa using hb.symm

/-- The last character of the line is taken back. -/
lemma Rel.dropLast (h : Rel d) (hl : d.line = l ++ [x]) :
    Rel { d with line := l, input := { d.input with e := d.input.e - 1 } } := by
  have hlen : d.line.length = l.length + 1 := by simp [hl]
  have hroom := h.room
  refine ⟨h.r, h.w, (h.last hl).1, h.le, by dsimp only; omega, fun j h1 h2 => ?_, h.taken⟩
  dsimp only at h1 h2 ⊢
  have hb := h.buf j h1 (by omega)
  rwa [hl, ← List.append_assoc, List.getElem?_append_left (by simpa using h2)] at hb

lemma Rel.backspace (h : Rel d) :
    Rel { d with line := d.line.dropLast, input := backspace d.input } := by
  unfold Console.backspace
  rcases List.eq_nil_or_concat' d.line with hl | ⟨l, x, hl⟩
  · rw [if_neg fun hne => hne (h.e_eq_w.mpr hl)]
    obtain ⟨input, line, committed, taken, returned⟩ := d
    obtain rfl : line = [] := hl
    exact h
  · have hne : d.input.e ≠ d.input.w := fun he => by simp [h.e_eq_w.mp he] at hl
    rw [if_pos hne, hl, List.dropLast_concat]
    exact h.dropLast hl

/-- The line has no newline, so all of it is killed. -/
lemma Rel.killLoop (l : List UInt8) : ∀ {d : Cons A}, Rel d → d.line = l → NL ∉ l →
    Rel { d with line := [], input := killLoop d.input l.length } := by
  induction l using List.reverseRecOn with
  | nil =>
    intro d h hl _
    obtain ⟨input, line, committed, taken, returned⟩ := d
    obtain rfl : line = [] := hl
    exact h
  | append_singleton l x ih =>
    intro d h hl hplain
    have hne : d.input.e ≠ d.input.w := fun he => by simp [h.e_eq_w.mp he] at hl
    have hx : d.input.buf ((d.input.e - 1) % INPUT_BUF).toNat ≠ NL := by
      rw [(h.last hl).2]
      rintro rfl
      simp at hplain
    rw [List.length_append, List.length_singleton, Console.killLoop, if_pos ⟨hne, hx⟩]
    exact ih (h.dropLast hl) rfl fun hm => hplain (by simp [hm])

lemma Rel.killLine (h : Rel d) (hplain : NL ∉ d.line) :
    Rel { d with line := [], input := killLine d.input } := by
  rw [Console.killLine, h.sub_w]
  exact h.killLoop d.line rfl hplain

/-- A character is put into a buffer that is not full. -/
lemma Rel.put (h : Rel d) (hroom : d.committed.length + d.line.length < d.taken.length + 128)
    (c : UInt8) : Rel { d with line := d.line ++ [c], input := d.input.put c } := by
  have hslot : (d.input.e % INPUT_BUF).toNat = (d.committed.length + d.line.length) % 128 := by
    rw [h.e, slot_ofNat]
  refine ⟨h.r, h.w, ?_, h.le, ?_, fun j h1 h2 => ?_, h.taken⟩
  · change d.input.e + 1 = _
    rw [h.e, ofNat_add_one, List.length_append, List.length_singleton, Nat.add_assoc]
  · simp only [List.length_append, List.length_singleton]
    omega
  · simp only [List.length_append, List.length_singleton] at h2
    change (d.committed ++ (d.line ++ [c]))[j]? =
      some (update d.input.buf (d.input.e % INPUT_BUF).toNat c (j % 128))
    rw [← List.append_assoc, hslot]
    by_cases hj : j = d.committed.length + d.line.length
    · rw [hj, update_self, List.getElem?_append_right (by simp)]
      simp
    · -- another slot than those of the last 128 characters
      have hne : j % 128 ≠ (d.committed.length + d.line.length) % 128 := by
        dsimp only at h1
        omega
      rw [update_of_ne hne, List.getElem?_append_left (by simp; omega)]
      exact h.buf j h1 (by omega)

lemma Rel.commit (h : Rel d) :
    Rel { d with
      committed := d.committed ++ d.line, line := [], input :=
        { d.input with w := d.input.e } } := by
  have hle := h.le
  refine ⟨h.r, ?_, ?_, ?_, ?_, fun j h1 h2 => ?_, ?_⟩
  · simpa using h.e
  · simpa using h.e
  · simp
    omega
  · simpa using h.room
  · simpa using h.buf j h1 (by simpa using h2)
  · rw [h.taken]
    exact (List.take_append_of_le_length h.le).symm

lemma Rel.take (h : Rel d) (hne : d.input.r ≠ d.input.w) (a : A) :
    d.committed[d.taken.length]? = some d.front ∧ Rel (d.take a) := by
  have hlt : d.taken.length < d.committed.length :=
    lt_of_le_of_ne h.le fun he => hne (h.r_eq_w.mpr he)
  have hfront : d.committed[d.taken.length]? = some d.front := by
    have hb := h.buf d.taken.length le_rfl (by omega)
    rw [List.getElem?_append_left hlt] at hb
    rw [hb, Cons.front, h.r, slot_ofNat]
  have hroom := h.room
  have hlen : (d.take a).taken.length = d.taken.length + 1 := by simp [Cons.take]
  refine ⟨hfront, ?_, h.w, h.e, ?_, ?_, fun j h1 h2 => ?_, ?_⟩
  · rw [hlen, ← ofNat_add_one, ← h.r]
    rfl
  · rw [hlen]
    exact hlt
  · rw [hlen]
    exact h.room.trans (by omega)
  · exact h.buf j (by omega) h2
  · rw [hlen, List.take_add_one]
    change (d.taken ++ [(a, d.front)]).map Prod.snd = _
    rw [List.map_append, h.taken]
    exact congrArg _ (by rw [show (d.take a).committed = d.committed from rfl, hfront]; rfl)

/-! ### The code -/

/-- The buffer agrees with history, and the line is not finished. -/
structure Good (d : Cons A) : Prop extends Rel d where
  plain : NL ∉ d.line

lemma good_start (buf : ℕ → UInt8) : Good (start buf : Cons A) :=
  ⟨rel_start buf, by simp [start]⟩

/-- A character in `consoleintr` does to the buffer what it does to the line. -/
lemma Good.type (h : Good d) (c : UInt8) :
    Good { d.type c with input := (intrChar d.input c).1 } := by
  unfold Cons.type intrChar
  by_cases hkill : c = KILL
  · simp only [if_pos hkill]
    exact ⟨h.toRel.killLine h.plain, by simp⟩
  by_cases hbs : c = BS ∨ c = DEL
  · simp only [if_neg hkill, if_pos hbs]
    exact ⟨h.toRel.backspace, fun hm => h.plain (List.mem_of_mem_dropLast hm)⟩
  have hcount : d.input.e - d.input.r < INPUT_BUF ↔
      d.committed.length + d.line.length < d.taken.length + 128 := by
    have hsize : INPUT_BUF.toNat = 128 := rfl
    have hle := h.le
    rw [UInt32.lt_iff_toNat_lt, h.e_sub_r, hsize]
    omega
  by_cases hput : c ≠ 0 ∧ d.committed.length + d.line.length < d.taken.length + 128
  · have hput' : c ≠ 0 ∧ d.input.e - d.input.r < INPUT_BUF := ⟨hput.1, hcount.mpr hput.2⟩
    have hrel := h.toRel.put hput.2 (newline c)
    have hfull : (d.input.put (newline c)).e = (d.input.put (newline c)).r + INPUT_BUF ↔
        d.committed.length + d.line.length + 1 = d.taken.length + 128 := by
      have he : (d.input.put (newline c)).e = .ofNat (d.committed.length + d.line.length + 1) := by
        simpa [Nat.add_assoc] using hrel.e
      have hr : (d.input.put (newline c)).r + INPUT_BUF = .ofNat (d.taken.length + 128) := by
        change d.input.r + INPUT_BUF = _
        rw [h.r]
        exact (UInt32.ofNat_add ..).symm
      have hle := h.le
      rw [he, hr, ofNat_eq_iff (by omega) (by omega)]
    simp only [if_neg hkill, if_neg hbs, if_pos hput, if_pos hput', hfull]
    split_ifs with hend
    · exact ⟨hrel.commit, by simp⟩
    · refine ⟨hrel, fun hm => ?_⟩
      rcases List.mem_append.mp hm with hm | hm
      · exact h.plain hm
      · exact hend (Or.inl (List.mem_singleton.mp hm).symm)
  · have hput' : ¬ (c ≠ 0 ∧ d.input.e - d.input.r < INPUT_BUF) := fun h' =>
      hput ⟨h'.1, hcount.mp h'.2⟩
    simp only [if_neg hkill, if_neg hbs, if_neg hput, if_neg hput']
    exact h

/-- What is in the buffer between the indices that stand for two counts. -/
lemma Rel.between (h : Rel d) {i j : ℕ} (hi : d.taken.length ≤ i) (hij : i ≤ j)
    (hj : j ≤ d.committed.length + d.line.length) :
    d.input.between (.ofNat i) (.ofNat j) = ((d.committed ++ d.line).take j).drop i := by
  have hroom := h.room
  unfold Input.between
  rw [sub_ofNat hij (by omega)]
  apply List.ext_getElem?
  intro k
  rw [List.getElem?_drop, List.getElem?_take, List.getElem?_map]
  by_cases hk : k < j - i
  · rw [List.getElem?_range hk, if_pos (by omega), h.buf (i + k) (by omega) (by omega)]
    rw [Option.map_some, ← UInt32.ofNat_add, slot_ofNat]
  · rw [List.getElem?_eq_none (by simpa using hk), if_neg (by omega)]
    rfl

lemma Rel.unread (h : Rel d) :
    d.committed = d.taken.map Prod.snd ++ d.input.between d.input.r d.input.w := by
  rw [h.r, h.w, h.between le_rfl h.le (Nat.le_add_right _ _), List.take_left, h.taken,
    List.take_append_drop]

lemma Rel.unfinished (h : Rel d) : d.line = d.input.between d.input.w d.input.e := by
  rw [h.w, h.e, h.between h.le (Nat.le_add_right _ _) le_rfl, ← List.length_append,
    List.take_length, List.drop_left]

lemma type_fields (d : Cons A) (c : UInt8) :
    (d.type c).taken = d.taken ∧ (d.type c).returned = d.returned ∧
      d.committed <+: (d.type c).committed := by
  unfold Cons.type
  split_ifs
  · exact ⟨rfl, rfl, List.prefix_rfl⟩
  · exact ⟨rfl, rfl, List.prefix_rfl⟩
  · exact ⟨rfl, rfl, List.prefix_append _ _⟩
  · exact ⟨rfl, rfl, List.prefix_rfl⟩
  · exact ⟨rfl, rfl, List.prefix_rfl⟩

lemma killLoop_fields (d : Input) (n : ℕ) :
    (killLoop d n).buf = d.buf ∧ (killLoop d n).r = d.r ∧ (killLoop d n).w = d.w := by
  induction n generalizing d with
  | zero => exact ⟨rfl, rfl, rfl⟩
  | succ n ih =>
    unfold killLoop
    split_ifs
    · exact ih _
    · exact ⟨rfl, rfl, rfl⟩

/-- The characters that edit the line. -/
def Edits (c : UInt8) : Prop := c = KILL ∨ c = BS ∨ c = DEL

lemma intrChar_edits (d : Input) {c : UInt8} (hc : Edits c) :
    (intrChar d c).1.buf = d.buf ∧ (intrChar d c).1.r = d.r ∧ (intrChar d c).1.w = d.w := by
  unfold intrChar
  by_cases hkill : c = KILL
  · rw [if_pos hkill]
    exact killLoop_fields d _
  · rw [if_neg hkill, if_pos (hc.resolve_left hkill)]
    unfold Console.backspace
    dsimp only
    split_ifs
    · exact ⟨rfl, rfl, rfl⟩
    · exact ⟨rfl, rfl, rfl⟩

/-- Without a wakeup, there is nothing more to read. -/
lemma intrChar_quiet (d : Input) (c : UInt8) (h : (intrChar d c).2 = false) :
    (intrChar d c).1.r = d.r ∧ (intrChar d c).1.w = d.w := by
  by_cases hc : Edits c
  · exact (intrChar_edits d hc).2
  · have hkill : ¬ c = KILL := fun e => hc (Or.inl e)
    have hbs : ¬ (c = BS ∨ c = DEL) := fun e => hc (Or.inr e)
    unfold intrChar at h ⊢
    rw [if_neg hkill, if_neg hbs] at h ⊢
    dsimp only at h ⊢
    split_ifs at h ⊢
    · exact ⟨rfl, rfl⟩
    · exact ⟨rfl, rfl⟩

/-- The line gets no longer. -/
lemma type_edits (d : Cons A) {c : UInt8} (hc : Edits c) :
    (d.type c).committed = d.committed ∧ (d.type c).line.length ≤ d.line.length := by
  unfold Cons.type
  by_cases hkill : c = KILL
  · rw [if_pos hkill]
    exact ⟨rfl, Nat.zero_le _⟩
  · rw [if_neg hkill, if_pos (hc.resolve_left hkill)]
    exact ⟨rfl, by simp⟩

/-- What is known at a point of `consoleread`. -/
def Code.Fits : Code → Prop
  | .intr _ _ => True
  | .read target n dst => n = target - dst.length ∧ (0 ≤ n ∨ dst = []) ∧ EOT ∉ dst ∧ NL ∉ dst

lemma fits_code {k : Code} (hk : k.Fits) : ∀ k', (code a k d).1.point = some k' → k'.Fits := by
  intro k' hk'
  cases k with
  | intr chars doprocdump =>
    cases chars with
    | nil => cases hk'
    | cons c chars =>
      unfold code at hk'
      dsimp only at hk'
      split_ifs at hk'
      all_goals
        cases hk'
        trivial
  | read target n dst =>
    obtain ⟨hn, hge, heot, hnl⟩ := hk
    unfold code at hk'
    dsimp only at hk'
    split_ifs at hk' with hpos hrw hd hlt hline
    all_goals try cases hk'
    · exact ⟨hn, hge, heot, hnl⟩
    · refine ⟨by simp; omega, Or.inl (by omega), fun hm => ?_, fun hm => ?_⟩
      · exact (List.mem_append.mp hm).elim heot fun he => hd (List.mem_singleton.mp he).symm
      · exact (List.mem_append.mp hm).elim hnl fun he => hline (List.mem_singleton.mp he).symm

/-- A process that goes to sleep has nothing to read, and what there is to read comes with a
wakeup. -/
lemma code_keeps (a : A) (k : Code) (d : Cons A) :
    Keeps (fun _ d => d.input.r = d.input.w) d (code a k d) := by
  cases k with
  | intr chars doprocdump =>
    cases chars with
    | nil => exact fun _ => id
    | cons c chars =>
      unfold code
      dsimp only
      split_ifs with hp hw
      · exact fun _ => id
      · exact fun chan hne => (hne (Subsingleton.elim _ _)).elim
      · obtain ⟨hr, hw'⟩ := intrChar_quiet d.input c (by simpa using hw)
        intro _ h
        exact hr.trans (h.trans hw'.symm)
  | read target n dst =>
    unfold code
    dsimp only
    split_ifs with hpos hrw
    · exact ⟨hrw, fun _ => id⟩
    all_goals first | exact fun _ => id | exact fun _ h => (hrw h).elim

/-! ### What is delivered -/

lemma Return.Ok.mono {q : Return A} {l' : List UInt8} (h : q.Ok l) (hl : l <+: l') : q.Ok l' := by
  refine ⟨h.len, h.eot, h.nl, fun hs => ?_⟩
  rcases h.short hs with hnl | ⟨hne, hj⟩ | ⟨he, j, hpos, hj⟩
  · exact Or.inl hnl
  · exact Or.inr (Or.inl ⟨hne, getElem?_of_prefix hj hl⟩)
  · exact Or.inr (Or.inr ⟨he, j, hpos, getElem?_of_prefix hj hl⟩)

section Delivery

variable [DecidableEq A] {pts : A → Option Code} {target n : ℤ} {dst : List UInt8} {k : Code}

/-- What has been read by a process is what its calls have returned, and what the one in progress
has. -/
structure History (pts : A → Option Code) (d : Cons A) : Prop where
  good : Good d
  per : ∀ a, d.takenBy a = d.consumed a ++ progress (pts a)
  returned : ∀ q ∈ d.returned, q.Ok d.committed
  eofs : d.Eofs

lemma takenBy_take (d : Cons A) (a b : A) :
    (d.take a).takenBy b = d.takenBy b ++ if a = b then [d.front] else [] := by
  unfold Cons.takenBy Cons.take
  rw [List.filter_append, List.map_append]
  by_cases hab : a = b
  · simp [hab]
  · simp [hab]

lemma consumed_ret (d : Cons A) (a b : A) (target : ℤ) (dst : List UInt8) :
    (d.ret a target dst).consumed b = d.consumed b ++
      if a = b then Return.chars ⟨a, target, dst, d.taken.length⟩ else [] := by
  unfold Cons.consumed Cons.ret
  rw [List.filter_append, List.flatMap_append]
  by_cases hab : a = b
  · simp [hab]
  · simp [hab]

/-- Nothing is read and no call returns. -/
lemma History.quiet (h : History pts d) {d' : Cons A} {p : Option Code} (hgood : Good d')
    (ht : d'.taken = d.taken) (hr : d'.returned = d.returned)
    (hc : d.committed <+: d'.committed) (hp : progress p = progress (pts a)) :
    History (update pts a p) d' := by
  refine ⟨hgood, fun b => ?_, fun q hq => ?_, ?_⟩
  · have hper := h.per b
    unfold Cons.takenBy Cons.consumed at hper ⊢
    rw [ht, hr, hper]
    by_cases hba : b = a
    · rw [hba, update_self, hp]
    · rw [update_of_ne hba]
  · exact (h.returned q (hr ▸ hq)).mono hc
  · unfold Cons.Eofs
    rw [ht, hr]
    exact h.eofs

/-- A character that is not `C('D')` is read. -/
lemma History.take (h : History pts d) (hp : pts a = some (.read target n dst))
    (hne : d.input.r ≠ d.input.w) (heot : d.front ≠ EOT) (m : ℤ) :
    History (update pts a (some (.read target m (dst ++ [d.front])))) (d.take a) := by
  refine ⟨⟨(h.good.toRel.take hne a).2, h.good.plain⟩, fun b => ?_, h.returned, fun j b hj => ?_⟩
  · rw [takenBy_take, h.per b]
    change d.consumed b ++ _ ++ _ = d.consumed b ++ _
    by_cases hab : a = b
    · subst hab
      simp [hp, progress]
    · rw [if_neg hab, update_of_ne (Ne.symm hab), List.append_nil]
  · rcases getElem?_concat_cases hj with hold | ⟨-, hnew⟩
    · exact h.eofs j b hold
    · exact (heot (Prod.mk.inj hnew).2.symm).elim

/-- A call returns what it has read. -/
lemma History.ret (h : History pts d) (hp : pts a = some (.read target n dst))
    (hok : Return.Ok ⟨a, target, dst, d.taken.length⟩ d.committed) (hn : dst = [] → target ≤ 0) :
    History (update pts a none) (d.ret a target dst) := by
  refine ⟨⟨⟨h.good.r, h.good.w, h.good.e, h.good.le, h.good.room, h.good.buf, h.good.taken⟩,
    h.good.plain⟩, fun b => ?_, fun q hq => ?_, fun j b hj => ?_⟩
  · have hchars : Return.chars ⟨a, target, dst, d.taken.length⟩ = dst :=
      if_neg fun hc => absurd (hn hc.1) (not_le.mpr hc.2)
    rw [consumed_ret, hchars]
    change d.takenBy b = _
    rw [h.per b]
    by_cases hab : a = b
    · subst hab
      simp [hp, progress]
    · rw [if_neg hab, update_of_ne (Ne.symm hab), List.append_nil]
  · rcases List.mem_append.mp hq with hq | hq
    · exact h.returned q hq
    · exact List.mem_singleton.mp hq ▸ hok
  · obtain ⟨q, hq, hrest⟩ := h.eofs j b hj
    exact ⟨q, List.mem_append_left _ hq, hrest⟩

/-- `C('D')` is read first, and the call returns nothing. -/
lemma History.eof (h : History pts d) (hp : pts a = some (.read target n []))
    (hne : d.input.r ≠ d.input.w) (heot : d.front = EOT) (hn : 0 < target) :
    History (update pts a none) ((d.take a).ret a target []) := by
  obtain ⟨hfront, hrel⟩ := h.good.toRel.take hne a
  have hlen : (d.take a).taken.length = d.taken.length + 1 := by simp [Cons.take]
  refine ⟨⟨⟨hrel.r, hrel.w, hrel.e, hrel.le, hrel.room, hrel.buf, hrel.taken⟩, h.good.plain⟩,
    fun b => ?_, fun q hq => ?_, fun j b hj => ?_⟩
  · rw [consumed_ret, show ((d.take a).ret a target []).takenBy b = (d.take a).takenBy b from rfl,
      takenBy_take, h.per b]
    change d.consumed b ++ _ ++ _ = d.consumed b ++ _ ++ _
    by_cases hab : a = b
    · subst hab
      simp [hp, progress, Return.chars, heot, hn]
    · rw [if_neg hab, if_neg hab, update_of_ne (Ne.symm hab)]
      simp
  · rcases List.mem_append.mp hq with hq | hq
    · exact h.returned q hq
    · rw [List.mem_singleton.mp hq]
      refine ⟨by simp, by simp, by simp, fun _ => Or.inr (Or.inr ⟨rfl, d.taken.length, hlen, ?_⟩)⟩
      exact hfront.trans (congrArg some heot)
  · rcases getElem?_concat_cases hj with hold | ⟨rfl, hnew⟩
    · obtain ⟨q, hq, hrest⟩ := h.eofs j b hold
      exact ⟨q, List.mem_append_left _ hq, hrest⟩
    · refine ⟨_, List.mem_append_right _ (List.mem_singleton_self _), ?_, rfl, hn, hlen⟩
      exact (Prod.mk.inj hnew).1.symm

/-- One step of the code. -/
lemma History.code (h : History pts d) (hfits : ∀ a k, pts a = some k → k.Fits)
    (hp : pts a = some k) :
    History (update pts a (code a k d).1.point) (code a k d).2 := by
  cases k with
  | intr chars doprocdump =>
    have hprog {chars' : List UInt8} {b : Bool} :
        progress (some (.intr chars' b)) = progress (pts a) := by rw [hp]; rfl
    cases chars with
    | nil => exact h.quiet h.good rfl rfl List.prefix_rfl (by rw [hp]; rfl)
    | cons c chars =>
      unfold Console.code
      obtain ⟨ht, hr, hc⟩ := type_fields d c
      dsimp only
      split_ifs
      · exact h.quiet h.good rfl rfl List.prefix_rfl hprog
      · exact h.quiet (h.good.type c) ht hr hc hprog
      · exact h.quiet (h.good.type c) ht hr hc hprog
  | read target n dst =>
    obtain ⟨hn, hge, heot, hnl⟩ := hfits a _ hp
    have hdst : dst = [] ↔ target ≤ n := by
      rw [← List.length_eq_zero_iff]
      omega
    rw [← List.length_eq_zero_iff] at hge
    have hnl' : NL ∉ dst.dropLast := fun hm => hnl (List.mem_of_mem_dropLast hm)
    unfold Console.code
    dsimp only
    by_cases hpos : n > 0
    · rw [if_pos hpos]
      by_cases hrw : d.input.r = d.input.w
      · rw [if_pos hrw]
        exact h.quiet h.good rfl rfl List.prefix_rfl (by rw [hp]; rfl)
      rw [if_neg hrw]
      have hfront := (h.good.toRel.take hrw a).1
      by_cases hd : d.front = EOT
      · rw [if_pos hd]
        rw [hd] at hfront
        by_cases hlt : n < target
        · have hne : dst ≠ [] := fun he => absurd (hdst.mp he) (not_le.mpr hlt)
          rw [if_pos hlt]
          exact h.ret hp ⟨by dsimp only; omega, heot, hnl', fun _ => Or.inr (Or.inl ⟨hne, hfront⟩)⟩
            fun he => (hne he).elim
        · obtain rfl : dst = [] := hdst.mpr (not_lt.mp hlt)
          rw [if_neg hlt]
          exact h.eof hp hrw hd (by simp at hn; omega)
      · rw [if_neg hd]
        have htake := h.take hp hrw hd (n - 1)
        have hnot : EOT ∉ dst ++ [d.front] := fun hm =>
          (List.mem_append.mp hm).elim heot fun he => hd (List.mem_singleton.mp he).symm
        split_ifs with hline
        · have hok : Return.Ok ⟨a, target, dst ++ [d.front], (d.take a).taken.length⟩
              (d.take a).committed :=
            ⟨by simp; omega, hnot, by simpa using hnl, fun _ => Or.inl (by simp [hline])⟩
          have hret := htake.ret (update_self ..) hok (by simp)
          rwa [update_idem] at hret
        · exact htake
    · rw [if_neg hpos]
      exact h.ret hp ⟨by dsimp only; omega, heot, hnl', fun hs => absurd hs (by dsimp only; omega)⟩
        fun he => (hdst.mp he).trans (not_lt.mp hpos)

/-- Runs. -/
lemma history {buf : ℕ → UInt8} {s : St A Code Result Unit (Cons A)}
    (h : Reach (Step console) (init (start buf)) s) : History s.points s.data := by
  refine (coarse_inv (I := fun pts d => History pts d ∧ ∀ a k, pts a = some k → k.Fits) h
    ⟨⟨good_start buf, fun _ => rfl, fun q hq => ?_, fun j a hj => ?_⟩, fun _ _ hk => nomatch hk⟩
    ?_ ?_ fun _ _ e => e.elim).1
  · cases hq
  · cases hj
  · rintro pts d a i k d' ⟨hI, hF⟩ hnone he
    have hnew : d' = d ∧ k.Fits ∧ progress (some k) = [] := by
      cases i with
      | intr chars =>
        cases he
        exact ⟨rfl, trivial, rfl⟩
      | read n =>
        cases he
        exact ⟨rfl, ⟨by simp, Or.inr rfl, by simp, by simp⟩, rfl⟩
    obtain ⟨rfl, hk, hprog⟩ := hnew
    refine ⟨hI.quiet hI.good rfl rfl List.prefix_rfl (by rw [hprog, hnone]; rfl), ?_⟩
    intro b k' hb
    by_cases hba : b = a
    · rw [hba, update_self] at hb
      exact Option.some.inj hb ▸ hk
    · rw [update_of_ne hba] at hb
      exact hF b k' hb
  · rintro pts d a k ⟨hI, hF⟩ hp
    refine ⟨hI.code hF hp, fun b k' hb => ?_⟩
    by_cases hba : b = a
    · rw [hba, update_self] at hb
      exact fits_code (hF a k hp) k' hb
    · rw [update_of_ne hba] at hb
      exact hF b k' hb

end Delivery

/-- A process asks for four characters and goes to sleep, the keyboard sends two and `C('D')`, and
the process returns. -/
def readTwo : List (Act Bool Call Empty) :=
  [.call true (.read 4), .step true, .step true, .step true, .step true, .step true, .tableRelease,
    .call false (.intr [104, 105, EOT]), .step false, .step false, .step false, .step false,
    .step false, .step false, .step true, .step true, .step true, .step true]

end Xv6.Console
