import Xv6.Lib.Memory

/-!
The table of interrupt controllers (MADT) of the firmware: the loop of `mpinit_uefi` over its
entries, which finds the processors, and the loop of the loader, which prints them.
-/

namespace Xv6.Madt

open Xv6.Lib.Memory

/-- `madt->len`, where memory is counted from the start of the table. -/
def len (m : Mem) : ℕ := (word m 4).toNat

/-- Where a loop stands, which bytes and entries it has looked at, and what it keeps. -/
structure Walk (σ : Type) where
  i : ℕ
  reads : List ℕ
  seen : List ℕ
  kept : σ

/-- What a loop does at an entry: the fields that it reads apart from the type and the length, and
what it makes of them. -/
structure Visit (σ : Type) where
  fields : σ → UInt8 → List ℕ
  note : σ → Mem → σ

section Loop

variable {σ : Type} (w : ℕ) (v : Visit σ) (m : Mem)

/-- The next `i`, in `w` bits. There is no `default` in the `switch`. -/
def advance (i : ℕ) : ℕ :=
  if m i ∈ [0, 1, 2, 4] then (i + (m (i + 1)).toNat) % 2 ^ w
  else if m i = 5 then (i + 0xC) % 2 ^ w
  else i

def turn (s : Walk σ) : Walk σ where
  i := advance w m s.i
  reads := s.reads ++ (0 :: v.fields s.kept (m s.i) ++
    if m s.i ∈ [0, 1, 2, 4] then [1] else []).map (s.i + ·)
  seen := s.seen ++ [s.i]
  kept := v.note s.kept fun k => m (s.i + k)

/-- The loop, for a number of turns. -/
def scan : ℕ → Walk σ → Option (Walk σ)
  | 0, _ => none
  | n + 1, s =>
    let s := { s with reads := s.reads ++ [4, 5, 6, 7] }
    if s.i < len m then scan n (turn w v m s) else some s

end Loop

def NCPU : ℕ := 4

/-- `cpus[i].apicid` for the `i` below `ncpu`, and `ioapicid`. -/
structure Mp where
  cpus : List UInt8
  ioapicid : UInt8
deriving DecidableEq

def mpEntry : Visit Mp where
  fields s type :=
    if type = 0 then if s.cpus.length < NCPU then [3] else []
    else if type = 1 then [2] else []
  note s entry :=
    if entry 0 = 0 then
      if s.cpus.length < NCPU then { s with cpus := s.cpus ++ [entry 3] } else s
    else if entry 0 = 1 then { s with ioapicid := entry 2 } else s

def mpinitUefi (m : Mem) (n : ℕ) : Option (Walk Mp) :=
  scan 32 mpEntry m n ⟨44, [36, 37, 38, 39], [], ⟨[], 0⟩⟩

/-- The fields that the loader prints. -/
def printed (type : UInt8) : List ℕ :=
  if type = 0 then [2, 3, 4, 5, 6, 7]
  else if type = 1 then [2, 4, 5, 6, 7]
  else if type = 2 then [2, 3]
  else if type = 4 then [2] else []

def uefiMain (m : Mem) (n : ℕ) : Option (Walk Unit) :=
  scan 64 ⟨fun _ => printed, fun _ _ => ()⟩ m n ⟨0x2C, [], [], ()⟩

/-! ### The table -/

/-- The entries from `i` on start at these offsets and fill the table. -/
inductive Tiles (m : Mem) : ℕ → List ℕ → Prop
  | done : Tiles m (len m) []
  | entry {i : ℕ} {is : List ℕ} (h2 : 2 ≤ (m (i + 1)).toNat)
      (h : Tiles m (i + (m (i + 1)).toNat) is) : Tiles m i (i :: is)

/-- An entry of a type that the loops know, with all the fields that they read. -/
def Listed (m : Mem) (i : ℕ) : Prop :=
  (m i ∈ [0, 1, 2, 4] ∨ m i = 5 ∧ m (i + 1) = 0xC) ∧
    ∀ k ∈ printed (m i), k < (m (i + 1)).toNat

instance (m : Mem) (i : ℕ) : Decidable (Listed m i) := by unfold Listed; infer_instance

section Scan

variable {σ : Type} {w i : ℕ} {v : Visit σ} {m : Mem} {is : List ℕ}

lemma Tiles.le (h : Tiles m i is) : i ≤ len m := by
  induction h with
  | done => exact le_rfl
  | entry h2 _ ih => omega

lemma Listed.advance (h : Listed m i) (hw : i + (m (i + 1)).toNat < 2 ^ w) :
    advance w m i = i + (m (i + 1)).toNat := by
  unfold Madt.advance
  rcases h.1 with ht | ⟨ht, hlen⟩
  · rw [if_pos ht, Nat.mod_eq_of_lt hw]
  · rw [hlen] at hw ⊢
    rw [if_neg (by rw [ht]; decide), if_pos ht]
    exact Nat.mod_eq_of_lt hw

/-- The loop's test reads the length. -/
lemma test_inside {reads : List ℕ} (h44 : 44 ≤ len m) (hr : ∀ r ∈ reads, r < len m) :
    ∀ r ∈ reads ++ [4, 5, 6, 7], r < len m := by
  intro r h
  rcases List.mem_append.mp h with h | h
  · exact hr r h
  · simp only [List.mem_cons, List.not_mem_nil, or_false] at h
    omega

lemma turn_inside {s : Walk σ} (hv : ∀ k ∈ v.fields s.kept (m s.i), k ∈ printed (m s.i))
    (hi : Listed m s.i) (h2 : 2 ≤ (m (s.i + 1)).toNat) (hle : s.i + (m (s.i + 1)).toNat ≤ len m)
    (hr : ∀ r ∈ s.reads, r < len m) : ∀ r ∈ (turn w v m s).reads, r < len m := by
  intro r h
  rcases List.mem_append.mp h with h | h
  · exact hr r h
  obtain ⟨k, hk, rfl⟩ := List.mem_map.mp h
  suffices hlt : k < (m (s.i + 1)).toNat by
    show s.i + k < len m
    omega
  rcases List.mem_append.mp hk with hk | hk
  · rcases List.mem_cons.mp hk with rfl | hk
    · omega
    · exact hi.2 k (hv k hk)
  · split_ifs at hk
    · rw [List.mem_singleton.mp hk]
      omega
    · cases hk

/-- On entries that it knows a loop looks at each of them once and stays inside the table. -/
lemma scan_listed (hv : ∀ s type, ∀ k ∈ v.fields s type, k ∈ printed type) (h44 : 44 ≤ len m)
    (hw : len m < 2 ^ w) {s : Walk σ} (ht : Tiles m s.i is) (hl : ∀ j ∈ is, Listed m j)
    (hr : ∀ r ∈ s.reads, r < len m) :
    ∃ t, scan w v m (is.length + 1) s = some t ∧ t.seen = s.seen ++ is ∧
      (∀ r ∈ t.reads, r < len m) ∧
      t.kept = is.foldl (fun x j => v.note x fun k => m (j + k)) s.kept := by
  generalize hs : s.i = i at ht
  have hr' := test_inside h44 hr
  induction ht generalizing s with
  | done =>
    have hstop : ¬ s.i < len m := hs.not_lt
    exact ⟨{ s with reads := s.reads ++ [4, 5, 6, 7] }, if_neg hstop, (List.append_nil _).symm, hr',
      rfl⟩
  | entry h2 ht ih =>
    subst hs
    have hle := ht.le
    have hi := hl _ List.mem_cons_self
    have hin := turn_inside (w := w) (s := { s with reads := s.reads ++ [4, 5, 6, 7] })
      (hv _ _) hi h2 hle hr'
    obtain ⟨t, hscan, hseen, hreads, hkept⟩ := ih (fun j hj => hl j (List.mem_cons_of_mem _ hj))
      hin (hi.advance (by omega)) (test_inside h44 hin)
    refine ⟨t, ?_, by rw [hseen]; exact List.append_assoc .., hreads, hkept⟩
    rw [List.length_cons, scan]
    exact (if_pos (show s.i < len m by omega)).trans hscan

lemma mpEntry_printed (s : Mp) (type : UInt8) : ∀ k ∈ mpEntry.fields s type, k ∈ printed type := by
  intro k hk
  unfold printed
  simp only [mpEntry] at hk
  split_ifs at hk ⊢ <;> simp_all

lemma len_lt (m : Mem) : len m < 2 ^ 32 := UInt32.toNat_lt _

lemma mpinitUefi_listed (ht : Tiles m 44 is) (hl : ∀ j ∈ is, Listed m j) :
    ∃ n s, mpinitUefi m n = some s ∧ s.seen = is ∧ (∀ r ∈ s.reads, r < len m) ∧
      s.kept = is.foldl (fun x j => mpEntry.note x fun k => m (j + k)) ⟨[], 0⟩ := by
  have h44 := ht.le
  refine ⟨_, scan_listed (s := ⟨44, [36, 37, 38, 39], [], ⟨[], 0⟩⟩) mpEntry_printed h44 (len_lt m)
    ht hl fun r hr => ?_⟩
  simp only [List.mem_cons, List.not_mem_nil, or_false] at hr
  omega

end Scan

/-- A table of 44 bytes and these. -/
def table (entries : List UInt8) : Mem := fun k =>
  if k < 44 then if k = 4 then .ofNat (44 + entries.length) else 0 else (entries[k - 44]?).getD 0

def oneProcessor : Mem := table [0, 8, 0, 0, 1, 0, 0, 0]

lemma tiles_oneProcessor : Tiles oneProcessor 44 [44] :=
  .entry (by decide) (show Tiles oneProcessor (len oneProcessor) [] from .done)

/-- An entry of type 9, the x2APIC of a processor. -/
def x2apic : Mem := table [9, 16, 0, 0, 0, 0, 0, 0, 1, 0, 0, 0, 0, 0, 0, 0]

/-- At a type that is not listed a loop stays where it is. -/
lemma scan_stuck {σ : Type} {w : ℕ} {v : Visit σ} {m : Mem} (n : ℕ) {s : Walk σ}
    (hi : s.i < len m) (hstay : advance w m s.i = s.i) : scan w v m n s = none := by
  induction n generalizing s with
  | zero => rfl
  | succ n ih =>
    rw [scan]
    dsimp only
    rw [if_pos hi]
    refine ih ?_ ?_
    · exact hstay.trans_lt hi
    · show advance w m (advance w m s.i) = advance w m s.i
      rw [hstay, hstay]

def processors (m : Mem) (is : List ℕ) : List ℕ := is.filter fun i => m i = 0

def lapicId (m : Mem) (i : ℕ) : UInt8 := m (i + 3)

/-- Bit 0 of `flags`. -/
def enabled (m : Mem) (i : ℕ) : Bool := m (i + 4) % 2 = 1

/-- The index in `cpus`, if the processor does not panic. -/
def mycpu (cpus : List UInt8) (apicid : UInt8) : Option ℕ := cpus.findIdx? (· = apicid)

/-- The processors that `startothers` starts and waits for, on the processor `apicid`. -/
def startothers (cpus : List UInt8) (apicid : UInt8) : Option (List UInt8) :=
  if cpus = [] then some [] else (mycpu cpus apicid).map cpus.eraseIdx

lemma mpEntry_cpus (m : Mem) (is : List ℕ) (s : Mp) :
    (is.foldl (fun x j => mpEntry.note x fun k => m (j + k)) s).cpus =
      s.cpus ++ ((processors m is).map (lapicId m)).take (NCPU - s.cpus.length) := by
  induction is generalizing s with
  | nil => simp [processors]
  | cons i is ih =>
    rw [List.foldl_cons, ih]
    by_cases h0 : m i = 0
    · have hp : processors m (i :: is) = i :: processors m is := by simp [processors, h0]
      by_cases hlt : s.cpus.length < NCPU
      · have hn : NCPU - s.cpus.length = NCPU - (s.cpus.length + 1) + 1 := by omega
        simp [mpEntry, h0, hlt, hp, hn, lapicId]
      · have hn : NCPU - s.cpus.length = 0 := by omega
        simp [mpEntry, h0, hlt, hn]
    · have hp : processors m (i :: is) = processors m is := by simp [processors, h0]
      have hc : (mpEntry.note s fun k => m (i + k)).cpus = s.cpus := by
        simp only [mpEntry, Nat.add_zero, if_neg h0]
        split_ifs <;> rfl
      rw [hp, hc]

/-- If the first `n` elements pass, then the filter keeps them first. -/
lemma take_filter {α : Type} {p : α → Bool} {n : ℕ} {l : List α} (h : ∀ x ∈ l.take n, p x) :
    (l.filter p).take n = l.take n := by
  induction l generalizing n with
  | nil => rfl
  | cons x l ih =>
    cases n with
    | zero => rfl
    | succ n =>
      rw [List.take_succ_cons] at h ⊢
      rw [List.filter_cons_of_pos (h x List.mem_cons_self), List.take_succ_cons,
        ih fun y hy => h y (List.mem_cons_of_mem x hy)]

lemma mycpu_mem {cpus : List UInt8} {apicid : UInt8} (h : apicid ∈ cpus) :
    ∃ k, mycpu cpus apicid = some k ∧ cpus[k]? = some apicid := by
  have hsome : (mycpu cpus apicid).isSome := by
    rw [mycpu, List.findIdx?_isSome]
    exact List.any_eq_true.mpr ⟨_, h, by simp⟩
  obtain ⟨k, hk⟩ := Option.isSome_iff_exists.mp hsome
  obtain ⟨hlt, hp, -⟩ := List.findIdx?_eq_some_iff_getElem.mp hk
  exact ⟨k, hk, by rw [List.getElem?_eq_getElem hlt, of_decide_eq_true hp]⟩

/-- A processor that is enabled, and one that is not. -/
def twoProcessors : Mem := table [0, 8, 0, 0, 1, 0, 0, 0, 0, 8, 1, 1, 0, 0, 0, 0]

end Xv6.Madt
