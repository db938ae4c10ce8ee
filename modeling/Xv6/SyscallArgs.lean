import Mathlib
import Xv6.PageTable

/-!
How the kernel fetches the arguments of a system call: `fetchint`, `fetchstr`, `argint`, `argptr`
and `argstr` of `syscall.c`, on 32-bit words.

The kernel runs on the page table of the process, so an address is one of the process. A call
gives what it returns, with `none` for `-1`, and the addresses at which it has read memory.
-/

namespace Xv6.Syscall

open Xv6.PageTable (KERNBASE)

/-- What the calls read of the process: `sz`, the `esp` that the trap saved, and its memory. -/
structure Proc where
  sz : ℕ
  esp : ℕ
  mem : ℕ → UInt8

structure Fetched (α : Type) where
  ret : Option α
  reads : List ℕ

/-- The addresses of the `int` at `addr`. -/
def wordAddrs (addr : ℕ) : List ℕ := (List.range 4).map fun i => (addr + i) % 2 ^ 32

/-- `*(int*)(addr)` as a word. -/
def Proc.word (p : Proc) (addr : ℕ) : ℕ :=
  (wordAddrs addr).foldr (fun a acc => (p.mem a).toNat + 256 * acc) 0

def fetchint (p : Proc) (addr : ℕ) : Fetched ℕ :=
  if addr ≥ p.sz ∨ (addr + 4) % 2 ^ 32 > p.sz then ⟨none, []⟩
  else ⟨some (p.word addr), wordAddrs addr⟩

/-- The loop of `fetchstr` from `s` on. -/
def findNul (p : Proc) (s : ℕ) : Fetched ℕ :=
  if s < p.sz then
    if p.mem s = 0 then ⟨some s, [s]⟩
    else ⟨(findNul p (s + 1)).ret, s :: (findNul p (s + 1)).reads⟩
  else ⟨none, []⟩
termination_by p.sz - s

/-- `*pp` and the length. -/
def fetchstr (p : Proc) (addr : ℕ) : Fetched (ℕ × ℕ) :=
  if addr ≥ p.sz then ⟨none, []⟩
  else ⟨(findNul p addr).ret.map fun s => (addr, s - addr), (findNul p addr).reads⟩

/-- Where the argument `n` is. -/
def argAddr (p : Proc) (n : ℕ) : ℕ := (p.esp + 4 + 4 * n) % 2 ^ 32

def argint (p : Proc) (n : ℕ) : Fetched ℕ := fetchint p (argAddr p n)

/-- `*pp`; the argument `size` is a C `int`, and the sum with it one of words. -/
def argptr (p : Proc) (n : ℕ) (size : ℤ) : Fetched ℕ :=
  match (argint p n).ret with
  | none => ⟨none, (argint p n).reads⟩
  | some i =>
    if size < 0 ∨ i ≥ p.sz ∨ ((i + size) % 2 ^ 32).toNat > p.sz then ⟨none, (argint p n).reads⟩
    else ⟨some i, (argint p n).reads⟩

def argstr (p : Proc) (n : ℕ) : Fetched (ℕ × ℕ) :=
  match (argint p n).ret with
  | none => ⟨none, (argint p n).reads⟩
  | some addr => ⟨(fetchstr p addr).ret, (argint p n).reads ++ (fetchstr p addr).reads⟩

/-! ### What they accept -/

/-- A string of `len` characters at `addr`, with its nul, inside the memory of the process. -/
structure StringAt (p : Proc) (addr len : ℕ) : Prop where
  inside : addr + len < p.sz
  nul : p.mem (addr + len) = 0
  chars : ∀ i < len, p.mem (addr + i) ≠ 0

/-- The bytes `[addr, addr + n)` are memory of the process. -/
def Inside (p : Proc) (addr n : ℕ) : Prop := addr + n ≤ p.sz

variable {p : Proc} {addr n : ℕ}

lemma fetchint_spec (hsz : p.sz < KERNBASE) (v : ℕ) :
    (fetchint p addr).ret = some v ↔ Inside p addr 4 ∧ p.word addr = v := by
  have hk : p.sz < 2147483648 := hsz
  unfold fetchint Inside
  split_ifs with h
  · -- below `sz` the sum does not wrap
    have hout : ¬ addr + 4 ≤ p.sz := by omega
    simp [hout]
  · have hin : addr + 4 ≤ p.sz := by omega
    simp [hin]

lemma fetchint_reads (hsz : p.sz < KERNBASE) : ∀ a ∈ (fetchint p addr).reads, a < p.sz := by
  have hk : p.sz < 2147483648 := hsz
  unfold fetchint
  split_ifs with h
  · simp
  · intro a ha
    obtain ⟨i, hi, rfl⟩ := List.mem_map.mp ha
    have := List.mem_range.mp hi
    omega

lemma findNul_spec {s : ℕ} (e : ℕ) :
    (findNul p s).ret = some e ↔
      s ≤ e ∧ e < p.sz ∧ p.mem e = 0 ∧ ∀ a, s ≤ a → a < e → p.mem a ≠ 0 := by
  -- on the number of characters left
  induction hn : p.sz - s generalizing s with
  | zero =>
    unfold findNul
    rw [if_neg (by omega)]
    refine iff_of_false nofun ?_
    rintro ⟨h1, h2, -⟩
    omega
  | succ m ih =>
    unfold findNul
    rw [if_pos (by omega)]
    split_ifs with h0
    · constructor
      · intro h
        cases h
        exact ⟨le_rfl, by omega, h0, fun a h1 h2 => by omega⟩
      · rintro ⟨h1, h2, h3, h4⟩
        rcases Nat.eq_or_lt_of_le h1 with rfl | hlt
        · rfl
        · exact absurd h0 (h4 s le_rfl hlt)
    · rw [ih (by omega)]
      constructor
      · rintro ⟨h1, h2, h3, h4⟩
        refine ⟨by omega, h2, h3, fun a h5 h6 => ?_⟩
        rcases Nat.eq_or_lt_of_le h5 with rfl | hlt
        · exact h0
        · exact h4 a hlt h6
      · rintro ⟨h1, h2, h3, h4⟩
        refine ⟨?_, h2, h3, fun a h5 h6 => h4 a (by omega) h6⟩
        rcases Nat.eq_or_lt_of_le h1 with rfl | hlt
        · exact absurd h3 h0
        · exact hlt

lemma findNul_reads {s : ℕ} : ∀ a ∈ (findNul p s).reads, a < p.sz := by
  induction hn : p.sz - s generalizing s with
  | zero =>
    unfold findNul
    rw [if_neg (by omega)]
    simp
  | succ m ih =>
    unfold findNul
    rw [if_pos (by omega)]
    split_ifs
    · intro a ha
      obtain rfl := List.mem_singleton.mp ha
      omega
    · intro a ha
      rcases List.mem_cons.mp ha with rfl | ha
      · omega
      · exact ih (s := s + 1) (by omega) a ha

lemma fetchstr_spec (pp len : ℕ) :
    (fetchstr p addr).ret = some (pp, len) ↔ pp = addr ∧ StringAt p addr len := by
  unfold fetchstr
  split_ifs with h
  · refine iff_of_false nofun ?_
    rintro ⟨-, hs⟩
    have := hs.inside
    omega
  rw [Option.map_eq_some_iff]
  constructor
  · rintro ⟨e, he, hpair⟩
    cases hpair
    obtain ⟨h1, h2, h3, h4⟩ := (findNul_spec e).mp he
    have hsum : addr + (e - addr) = e := by omega
    refine ⟨rfl, ⟨by omega, by rwa [hsum], fun i hi => h4 _ (by omega) (by omega)⟩⟩
  · rintro ⟨rfl, hs⟩
    refine ⟨pp + len, (findNul_spec _).mpr ⟨by omega, hs.inside, hs.nul, fun a h1 h2 => ?_⟩, ?_⟩
    · have := hs.chars (a - pp) (by omega)
      rwa [show pp + (a - pp) = a by omega] at this
    · simp

lemma fetchstr_reads : ∀ a ∈ (fetchstr p addr).reads, a < p.sz := by
  unfold fetchstr
  split_ifs
  · simp
  · exact findNul_reads

lemma argptr_spec (hsz : p.sz < KERNBASE) {size : ℤ} (hint : size < 2 ^ 31) (q : ℕ) :
    (argptr p n size).ret = some q ↔
      (argint p n).ret = some q ∧ 0 ≤ size ∧ q < p.sz ∧ q + size ≤ p.sz := by
  have hk : p.sz < 2147483648 := hsz
  unfold argptr
  rcases (argint p n).ret with _ | i
  · simp
  · dsimp only
    split_ifs with h
    · refine iff_of_false nofun ?_
      rintro ⟨hq, h1, h2, h3⟩
      cases hq
      omega
    · refine ⟨fun hq => ⟨hq, ?_⟩, fun hq => hq.1⟩
      cases hq
      omega

lemma argptr_reads (hsz : p.sz < KERNBASE) (size : ℤ) :
    ∀ a ∈ (argptr p n size).reads, a < p.sz := by
  have harg : ∀ a ∈ (argint p n).reads, a < p.sz := fetchint_reads hsz
  unfold argptr
  split
  · exact harg
  · split_ifs <;> exact harg

lemma argstr_spec (pp len : ℕ) :
    (argstr p n).ret = some (pp, len) ↔ (argint p n).ret = some pp ∧ StringAt p pp len := by
  unfold argstr
  rcases (argint p n).ret with _ | addr
  · simp
  · dsimp only
    rw [fetchstr_spec]
    constructor
    · rintro ⟨rfl, hs⟩
      exact ⟨rfl, hs⟩
    · rintro ⟨he, hs⟩
      cases he
      exact ⟨rfl, hs⟩

lemma argstr_reads (hsz : p.sz < KERNBASE) : ∀ a ∈ (argstr p n).reads, a < p.sz := by
  have harg : ∀ a ∈ (argint p n).reads, a < p.sz := fetchint_reads hsz
  unfold argstr
  split
  · exact harg
  · intro a ha
    exact (List.mem_append.mp ha).elim (harg a) (fetchstr_reads a)

/-- **Arguments of system calls.** Below `KERNBASE` nothing wraps round: `fetchint` and `argint`
succeed exactly when the four bytes are memory of the process, `argptr` when besides the block is,
`fetchstr` and `argstr` when there is a string with its nul, whose length they return; else they
return `-1`. Whatever they return, they have read memory of the process only. -/
theorem syscall_args_confined (p : Proc) (hsz : p.sz < KERNBASE) :
    (∀ addr v, (fetchint p addr).ret = some v ↔ Inside p addr 4 ∧ p.word addr = v) ∧
    (∀ n v, (argint p n).ret = some v ↔ Inside p (argAddr p n) 4 ∧ p.word (argAddr p n) = v) ∧
    (∀ n size q, -2 ^ 31 ≤ size → size < 2 ^ 31 → ((argptr p n size).ret = some q ↔
      (argint p n).ret = some q ∧ 0 ≤ size ∧ q < p.sz ∧ Inside p q size.toNat)) ∧
    (∀ addr pp len, (fetchstr p addr).ret = some (pp, len) ↔ pp = addr ∧ StringAt p addr len) ∧
    (∀ n pp len, (argstr p n).ret = some (pp, len) ↔
      (argint p n).ret = some pp ∧ StringAt p pp len) ∧
    ∀ addr n size a, a ∈ (fetchint p addr).reads ∨ a ∈ (fetchstr p addr).reads ∨
      a ∈ (argint p n).reads ∨ a ∈ (argptr p n size).reads ∨ a ∈ (argstr p n).reads → a < p.sz := by
  refine ⟨fun _ => fetchint_spec hsz, fun _ => fetchint_spec hsz, fun n size q _ hint => ?_,
    fun _ => fetchstr_spec, fun _ => argstr_spec, ?_⟩
  · rw [argptr_spec hsz hint, Inside]
    refine and_congr_right fun _ => and_congr_right fun _ => and_congr_right fun _ => ?_
    omega
  · rintro addr n size a (h | h | h | h | h)
    · exact fetchint_reads hsz a h
    · exact fetchstr_reads a h
    · exact fetchint_reads hsz a h
    · exact argptr_reads hsz size a h
    · exact argstr_reads hsz a h

/-- Two pages of memory, the string `hi` at `16`, and a stack with its address. -/
def smallProc : Proc where
  sz := 8192
  esp := 8180
  mem a := if a = 16 then 104 else if a = 17 then 105 else if a = 8184 then 16 else 0

theorem syscall_args_confined_hi : smallProc.sz < KERNBASE ∧
    (argint smallProc 0).ret = some 16 ∧ StringAt smallProc 16 2 ∧
    (argstr smallProc 0).ret = some (16, 2) := by
  have hsz : smallProc.sz < KERNBASE := by decide
  have hword : (argint smallProc 0).ret = some 16 := by decide +kernel
  have hstr : StringAt smallProc 16 2 := ⟨by decide, by decide, by decide⟩
  exact ⟨hsz, hword, hstr,
    ((syscall_args_confined smallProc hsz).2.2.2.2.1 0 16 2).mpr ⟨hword, hstr⟩⟩

end Xv6.Syscall
