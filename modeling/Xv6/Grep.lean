import Mathlib.Data.List.Basic
import Mathlib.Tactic.Common

/-!
`grep.c`: the matcher for regular expressions, and the loop that reads a file through a buffer of
1024 bytes. A string is the list of its characters, without the NUL behind it.
-/

namespace Xv6.Grep

def CARET : UInt8 := 94
def DOLLAR : UInt8 := 36
def DOT : UInt8 := 46
def STAR : UInt8 := 42

/-! ### The matcher -/

mutual

/-- Search for `re` at the beginning of `text`. -/
def matchhere (re text : List UInt8) : Bool :=
  match re with
  | [] => true
  | c :: re =>
    if re.head? = some STAR then matchstar c re.tail text
    else if c = DOLLAR ∧ re = [] then text.isEmpty
    else
      match text with
      | [] => false
      | t :: text => if c = DOT ∨ c = t then matchhere re text else false
termination_by (re.length, text.length, 0)

/-- Search for `c*re` at the beginning of `text`. -/
def matchstar (c : UInt8) (re text : List UInt8) : Bool :=
  if matchhere re text then true
  else
    match text with
    | [] => false
    | t :: text => if t = c ∨ c = DOT then matchstar c re text else false
termination_by (re.length, text.length, 1)

end

/-- The loop of `match`. -/
def matchFrom (re : List UInt8) : List UInt8 → Bool
  | [] => matchhere re []
  | t :: text => if matchhere re (t :: text) then true else matchFrom re text

/-- `match` of the source. -/
def matchRe (re text : List UInt8) : Bool :=
  if re.head? = some CARET then matchhere re.tail text else matchFrom re text

/-! ### What patterns mean -/

inductive Item
  | char (c : UInt8)
  | star (c : UInt8)

/-- The items of a pattern, and whether a `$` ends it. -/
def items : List UInt8 → List Item × Bool
  | [] => ([], false)
  | [c] => if c = DOLLAR then ([], true) else ([.char c], false)
  | c :: d :: re =>
    if d = STAR then (.star c :: (items re).1, (items re).2)
    else (.char c :: (items (d :: re)).1, (items (d :: re)).2)

def Stands (c t : UInt8) : Prop := c = DOT ∨ c = t

def Item.Denotes : Item → List UInt8 → Prop
  | .char c, w => ∃ t, w = [t] ∧ Stands c t
  | .star c, w => ∀ t ∈ w, Stands c t

/-- The words of one item after the other. -/
def Denotes : List Item → List UInt8 → Prop
  | [], w => w = []
  | i :: is, w => ∃ u v, w = u ++ v ∧ i.Denotes u ∧ Denotes is v

/-- A prefix of the text, or all of it, is a word of the items. -/
def Begins (is : List Item) (stop : Bool) (text : List UInt8) : Prop :=
  ∃ w v, text = w ++ v ∧ Denotes is w ∧ (stop → v = [])

/-- A part of the text is a word of the pattern, where a leading `^` and a final `$` say. -/
def Contains (re text : List UInt8) : Prop :=
  ∃ u w v, text = u ++ w ++ v ∧ (re.head? = some CARET → u = []) ∧
    let (is, stop) := items (if re.head? = some CARET then re.tail else re)
    Denotes is w ∧ (stop → v = [])

variable {c : UInt8} {re text : List UInt8} {is : List Item} {stop : Bool}

lemma begins_nil : Begins [] stop text ↔ (stop → text = []) := by
  simp [Begins, Denotes]

lemma begins_char :
    Begins (.char c :: is) stop text ↔ ∃ t ts, text = t :: ts ∧ Stands c t ∧ Begins is stop ts := by
  constructor
  · rintro ⟨_, v, rfl, ⟨_, w, rfl, ⟨t, rfl, ht⟩, hw⟩, hv⟩
    exact ⟨t, w ++ v, rfl, ht, w, v, rfl, hw, hv⟩
  · rintro ⟨t, _, rfl, ht, w, v, rfl, hw, hv⟩
    exact ⟨t :: w, v, rfl, ⟨[t], w, rfl, ⟨t, rfl, ht⟩, hw⟩, hv⟩

/-- A star stands for nothing, or for one character and a star. -/
lemma begins_star : Begins (.star c :: is) stop text ↔ Begins is stop text ∨
    ∃ t ts, text = t :: ts ∧ Stands c t ∧ Begins (.star c :: is) stop ts := by
  constructor
  · rintro ⟨_, v, rfl, ⟨u, w, rfl, hu, hw⟩, hv⟩
    cases u with
    | nil => exact .inl ⟨w, v, rfl, hw, hv⟩
    | cons t u =>
      rw [Item.Denotes, List.forall_mem_cons] at hu
      exact .inr ⟨t, u ++ w ++ v, rfl, hu.1, u ++ w, v, rfl, ⟨u, w, rfl, hu.2, hw⟩, hv⟩
  · rintro (⟨w, v, rfl, hw, hv⟩ | ⟨t, _, rfl, ht, _, v, rfl, ⟨u, w, rfl, hu, hw⟩, hv⟩)
    · exact ⟨w, v, rfl, ⟨[], w, rfl, List.forall_mem_nil _, hw⟩, hv⟩
    · exact ⟨t :: u ++ w, v, rfl, ⟨t :: u, w, rfl, List.forall_mem_cons.mpr ⟨ht, hu⟩, hw⟩, hv⟩

lemma matchstar_iff (h : ∀ text, matchhere re text ↔ Begins is stop text) :
    matchstar c re text ↔ Begins (.star c :: is) stop text := by
  induction text with
  | nil =>
    rw [matchstar, begins_star, ← h]
    simp
  | cons t text ih =>
    rw [matchstar, begins_star, ← h]
    by_cases hhere : matchhere re (t :: text)
    · simp [hhere]
    · have hstands : (t = c ∨ c = DOT) ↔ Stands c t := by
        unfold Stands
        tauto
      simp [hhere, hstands, ih]

lemma matchhere_iff : matchhere re text ↔ Begins (items re).1 (items re).2 text := by
  fun_induction items re generalizing text with
  | case1 => simp [matchhere, begins_nil]
  | case2 =>
    rw [matchhere.eq_def]
    simp [begins_nil]
  | case3 c hc => cases text <;> simp [matchhere, hc, begins_nil, begins_char, Stands]
  | case4 c re ih =>
    rw [matchhere.eq_def]
    exact matchstar_iff fun text => ih
  | case5 c d re hd ih =>
    cases text with
    | nil => simp [matchhere, hd, begins_char]
    | cons t text => simp [matchhere, hd, begins_char, Stands, ← ih]

lemma matchFrom_iff :
    matchFrom re text ↔ ∃ u v, text = u ++ v ∧ Begins (items re).1 (items re).2 v := by
  induction text with
  | nil => simp [matchFrom, matchhere_iff]
  | cons t text ih =>
    simp only [matchFrom, Bool.if_true_left, Bool.or_eq_true, decide_eq_true_eq, matchhere_iff, ih]
    constructor
    · rintro (h | ⟨u, v, rfl, h⟩)
      · exact ⟨[], _, rfl, h⟩
      · exact ⟨t :: u, v, rfl, h⟩
    · rintro ⟨_ | ⟨_, u⟩, v, heq, h⟩
      · exact .inl (heq ▸ h)
      · cases heq
        exact .inr ⟨u, v, rfl, h⟩

/-- **The matcher is correct**: it returns `1` for the texts that contain a word of the pattern. -/
theorem matchRe_correct (re text : List UInt8) : matchRe re text = true ↔ Contains re text := by
  unfold matchRe Contains
  split_ifs with h
  · rw [matchhere_iff]
    constructor
    · rintro ⟨w, v, rfl, hw, hv⟩
      exact ⟨[], w, v, rfl, fun _ => rfl, hw, hv⟩
    · rintro ⟨u, w, v, rfl, hu, hw, hv⟩
      exact ⟨w, v, by rw [hu h]; rfl, hw, hv⟩
  · rw [matchFrom_iff]
    constructor
    · rintro ⟨u, _, rfl, w, v, rfl, hw, hv⟩
      exact ⟨u, w, v, (List.append_assoc ..).symm, fun h' => absurd h' h, hw, hv⟩
    · rintro ⟨u, w, v, rfl, -, hw, hv⟩
      exact ⟨u, w ++ v, List.append_assoc .., w, v, rfl, hw, hv⟩

/-! ### The loop -/

def NEWLINE : UInt8 := 10

/-- The inner loop from `p` on, with the `line` that `strchr` has passed: what is written, and the
line that is left. -/
def scan (pattern : List UInt8) : List UInt8 → List UInt8 → List (List UInt8) × List UInt8
  | line, [] => ([], line)
  | line, c :: p =>
    if c = NEWLINE then
      let r := scan pattern [] p
      (if matchRe pattern line then (line ++ [NEWLINE]) :: r.1 else r.1, r.2)
    else scan pattern (line ++ [c]) p

/-- One turn for each `read`: what it has read, and what is written. `read` returns `size k` bytes
in turn `k`, if there is that much to read and room for it in the buffer. -/
def turns (pattern : List UInt8) (size : ℕ → ℕ) (k : ℕ) (input buf : List UInt8) :
    List (List UInt8 × List (List UInt8)) :=
  let n := min (size k) (min (1024 - buf.length - 1) input.length)
  if 0 < n then
    let buf := buf ++ input.take n
    let (out, p) := scan pattern [] buf
    (input.take n, out) :: turns pattern size (k + 1) (input.drop n)
      (if p.length = buf.length then [] else p)
  else []
termination_by input.length
decreasing_by simp; omega

/-- What `grep` writes. -/
def grep (pattern : List UInt8) (size : ℕ → ℕ) (input : List UInt8) : List (List UInt8) :=
  (turns pattern size 0 input []).flatMap Prod.snd

/-- The lines of a text that goes on with `line`, each with the newline that ends it; the last may
have none. -/
def lines : List UInt8 → List UInt8 → List (List UInt8)
  | line, [] => if line = [] then [] else [line]
  | line, c :: text =>
    if c = NEWLINE then (line ++ [NEWLINE]) :: lines [] text else lines (line ++ [c]) text

/-- The lines that should be written. -/
def matching (pattern line text : List UInt8) : List (List UInt8) :=
  (lines line text).filter fun l => matchRe pattern (l.takeWhile (· ≠ NEWLINE))

/-- Every line is ended by a newline. -/
def Ended (text : List UInt8) : Prop := text = [] ∨ text.getLast? = some NEWLINE

variable {pattern line : List UInt8}

lemma takeWhile_line (h : NEWLINE ∉ line) : (line ++ [NEWLINE]).takeWhile (· ≠ NEWLINE) = line := by
  rw [List.takeWhile_append_of_pos (by grind)]
  simp

/-- The lines of the buffer are written where they match, and what follows them is left. -/
lemma scan_spec (h : NEWLINE ∉ line) (buf rest : List UInt8) :
    NEWLINE ∉ (scan pattern line buf).2 ∧ (scan pattern line buf).2 <:+ line ++ buf ∧
      matching pattern line (buf ++ rest) =
        (scan pattern line buf).1 ++ matching pattern (scan pattern line buf).2 rest ∧
      (NEWLINE ∈ buf → (scan pattern line buf).2.length < (line ++ buf).length) := by
  induction buf generalizing line with
  | nil => exact ⟨h, ⟨[], by simp [scan]⟩, rfl, nofun⟩
  | cons c p ih =>
    by_cases hc : c = NEWLINE
    · subst hc
      obtain ⟨h1, h2, h3, -⟩ := ih (List.not_mem_nil : NEWLINE ∉ [])
      have hle := h2.length_le
      simp only [scan, if_true]
      refine ⟨h1, h2.trans ⟨line ++ [NEWLINE], by simp⟩, ?_, fun _ => by simp at hle ⊢; omega⟩
      simp only [matching, List.cons_append, lines, if_true, List.filter_cons, takeWhile_line h]
      split_ifs
      · exact congrArg _ h3
      · exact h3
    · obtain ⟨h1, h2, h3, h4⟩ := ih (by simp [h, Ne.symm hc] : NEWLINE ∉ line ++ [c])
      simp only [scan, hc, if_false]
      refine ⟨h1, by simpa using h2, ?_, fun hm => ?_⟩
      · simpa [matching, lines, hc] using h3
      · simpa using h4 (by simpa [Ne.symm hc] using hm)

lemma matching_append {p : List UInt8} (h : NEWLINE ∉ p) (rest : List UInt8) :
    matching pattern [] (p ++ rest) = matching pattern p rest := by
  have hlines (line : List UInt8) : lines line (p ++ rest) = lines (line ++ p) rest := by
    induction p generalizing line with
    | nil => simp
    | cons c p ih =>
      have hc : c ≠ NEWLINE := by grind
      simp [lines, hc, ih (by grind)]
  rw [matching, hlines]
  rfl

lemma Ended.suffix {text text' : List UInt8} (h : Ended text) (hs : text' <:+ text) :
    Ended text' := by
  obtain ⟨a, rfl⟩ := hs
  unfold Ended at *
  cases text' <;> simp_all [List.getLast?_append]

lemma turns_spec {size : ℕ → ℕ} (hsize : ∀ k, 0 < size k) {k : ℕ} {input buf : List UInt8}
    (hbuf : NEWLINE ∉ buf) (hlen : buf.length < 1023) (hend : Ended (buf ++ input))
    (hread : ∀ e ∈ turns pattern size k input buf, NEWLINE ∈ e.1) :
    (turns pattern size k input buf).flatMap Prod.snd = matching pattern [] (buf ++ input) := by
  induction hn : input.length using Nat.strongRecOn generalizing k input buf with
  | ind m ih =>
  have hs := hsize k
  rw [turns] at hread ⊢
  set n := min (size k) (min (1024 - buf.length - 1) input.length) with hdef
  by_cases hpos : 0 < n
  · simp only [hpos, if_true, List.forall_mem_cons, List.flatMap_cons] at hread ⊢
    obtain ⟨h1, h2, h3, h4⟩ := @scan_spec pattern [] List.not_mem_nil
      (buf ++ input.take n) (input.drop n)
    have hlt := h4 (List.mem_append_right _ hread.1)
    rw [List.nil_append] at h2 hlt
    have hle : (buf ++ input.take n).length ≤ 1023 := by simp; omega
    rw [if_neg (by omega)] at hread ⊢
    rw [ih (input.drop n).length (by simp; omega) h1 (by omega) ?_ hread.2 rfl]
    · rw [matching_append h1, ← h3, List.append_assoc, List.take_append_drop]
    · refine hend.suffix ?_
      obtain ⟨a, ha⟩ := h2
      exact ⟨a, by rw [← List.append_assoc, ha, List.append_assoc, List.take_append_drop]⟩
  · obtain rfl : input = [] := List.length_eq_zero_iff.mp (by omega)
    obtain rfl : buf = [] := by
      rcases hend with h | h
      · simpa using h
      · exact absurd (List.mem_of_getLast? (by simpa using h)) hbuf
    simp [hpos, matching, lines]

end Xv6.Grep
