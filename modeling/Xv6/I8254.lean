import Xv6.Lib.Fifo
import Xv6.Lib.Run

/-!
The descriptor rings of the network card, `i8254.c`: the driver and the card take turns in any
order, the card filling or sending the buffers between head and tail.

Registers are 32-bit words that are read back as written. A step of the driver is one statement
that reads a register the card changes, or one that writes memory the card reads. Of a receive
descriptor only the address of its buffer matters to the driver.
-/

namespace Xv6.I8254

open Xv6.Lib.Fifo Xv6.Lib.Run
open Function (update update_of_ne update_self)

def RECV_DESC_NUM : ℕ := 256
def SEND_DESC_NUM : ℕ := 256

/-- The loop of `i8254_init_recv` and `i8254_init_send` that gives out the buffers. It allocates a
page for every second descriptor, but it counts by one, so the second half of a page goes to the
descriptor that gets the next page. `page` is what `kalloc` returns in each turn. -/
def allotBufs (page : ℕ → Option ℕ) : List ℕ → (ℕ → ℕ) → ℕ → ℕ
  | [], buf => buf
  | i :: rest, buf =>
    match page i with
    | none => buf
    | some a =>
      allotBufs page rest (update (update buf i a) (i + 1) ((a + 0x800) % 2 ^ 32))

/-- What the buffers of a ring of `num` descriptors are, if `kalloc` never fails. -/
lemma allotBufs_range {page : ℕ → Option ℕ} {addr : ℕ → ℕ} (hpage : ∀ i, page i = some (addr i))
    (k n : ℕ) (buf : ℕ → ℕ) (j : ℕ) :
    allotBufs page (List.range' k n) buf j = if k ≤ j ∧ j < k + n then addr j
      else if j = k + n ∧ 0 < n then (addr (k + n - 1) + 0x800) % 2 ^ 32 else buf j := by
  induction n generalizing k buf with
  | zero =>
    rw [if_neg (by omega), if_neg (by omega)]
    rfl
  | succ n ih =>
    rw [List.range'_succ, allotBufs, hpage]
    dsimp only
    rw [ih]
    by_cases h1 : j = k
    · subst h1
      have hne : j ≠ j + 1 := by omega
      rw [if_neg (by omega), if_neg (by omega), if_pos (by omega), update_of_ne hne,
        update_self]
    by_cases h2 : k + 1 ≤ j ∧ j < k + 1 + n
    · rw [if_pos h2, if_pos (by omega)]
    rw [if_neg h2, if_neg (show ¬ (k ≤ j ∧ j < k + (n + 1)) by omega)]
    by_cases h3 : j = k + 1 + n ∧ 0 < n
    · rw [if_pos h3, if_pos (by omega), show k + 1 + n - 1 = k + (n + 1) - 1 by omega]
    rw [if_neg h3]
    by_cases h4 : j = k + 1
    · rw [h4, update_self, if_pos (by omega), show k + (n + 1) - 1 = k by omega]
    · rw [update_of_ne h4, update_of_ne h1, if_neg (by omega)]

/-! ### Receiving -/

/-- Where the loop of `i8254_recv` is: before the computation of `rx_available`, before it takes a
descriptor, before the call of `eth_proc`, or before the test of its last lines. -/
inductive RxPc
  | top
  | take
  | proc (buffer : ℕ)
  | test
  deriving DecidableEq

/-- `mem` is the frame in the buffer at an address. The last three fields are history: the
descriptors the driver has used, what it has passed to `eth_proc`, and what the card has stored. -/
structure Rx (F : Type*) where
  rdh : ℕ
  rdt : ℕ
  buf : ℕ → ℕ
  mem : ℕ → Option F
  pc : RxPc
  used : List ℕ
  passed : List (Option F)
  stored : List F

variable {F : Type*}

/-- `i8254_init_recv`, and the loop about to start; `junk` is what the descriptors held. -/
def initRecv (page : ℕ → Option ℕ) (junk : ℕ → ℕ) : Rx F where
  rdh := 0
  rdt := RECV_DESC_NUM
  buf := allotBufs page (List.range (RECV_DESC_NUM / 2)) junk
  mem _ := none
  pc := .top
  used := []
  passed := []
  stored := []

inductive RxAct (F : Type*)
  | arrive (f : F)
  | available
  | take
  | proc
  | test

/-- `rx_available`. -/
def rxAvailable (s : Rx F) : ℤ := (RECV_DESC_NUM - s.rdt + s.rdh) % 2 ^ 32 % RECV_DESC_NUM

/-- The card stores a frame unless head and tail are equal; the rest is `i8254_recv`. -/
def rxNext (s : Rx F) : RxAct F → Option (Rx F)
  | .arrive f =>
    if s.rdh = s.rdt then none
    else some { s with
      mem := update s.mem (s.buf s.rdh) (some f)
      rdh := (s.rdh + 1) % RECV_DESC_NUM
      stored := s.stored ++ [f] }
  | .available =>
    if s.pc = .top then some { s with pc := if rxAvailable s > 0 then .take else .test } else none
  | .take =>
    if s.pc = .take then some { s with
      used := s.used ++ [s.rdt]
      pc := .proc (s.buf s.rdt)
      rdt := (s.rdt + 1) % 2 ^ 32 % RECV_DESC_NUM }
    else none
  | .proc =>
    match s.pc with
    | .proc buffer => some { s with passed := s.passed ++ [s.mem buffer], pc := .test }
    | _ => none
  | .test =>
    if s.pc = .test then some { s with
      rdt := if s.rdt = s.rdh then (s.rdt + (2 ^ 32 - 1)) % 2 ^ 32 else s.rdt
      pc := .top }
    else none

def RxStep (s : Rx F) (a : RxAct F) (t : Rx F) : Prop := rxNext s a = some t

/-- Each descriptor used is one of the ring, and `eth_proc` has got the frames that were stored,
each once and in order. -/
def Delivers (s : Rx F) : Prop :=
  (∀ i ∈ s.used, i < RECV_DESC_NUM) ∧ s.passed <+: s.stored.map some

/-- A step that computes `rx_available` only while the card's head is where it started. -/
def CalmStep (s : Rx F) (a : RxAct F) (t : Rx F) : Prop :=
  RxStep s a t ∧ (a = .available → s.rdh = 0)

/-- The driver has done nothing yet. -/
structure Waiting (s : Rx F) : Prop where
  rdt : s.rdt = RECV_DESC_NUM
  rdh : s.rdh < RECV_DESC_NUM
  pc : s.pc = .top ∨ s.pc = .test
  used : s.used = []
  passed : s.passed = []

lemma waiting_init (page : ℕ → Option ℕ) (junk : ℕ → ℕ) : Waiting (initRecv page junk : Rx F) :=
  ⟨rfl, Nat.zero_lt_succ _, Or.inl rfl, rfl, rfl⟩

lemma Waiting.available {s : Rx F} (h : Waiting s) : rxAvailable s = s.rdh := by
  have hlt : s.rdh < 256 := h.rdh
  unfold rxAvailable
  rw [h.rdt]
  unfold RECV_DESC_NUM
  omega

lemma Waiting.step {s t : Rx F} {a : RxAct F} (hs : Waiting s) (h : CalmStep s a t) :
    Waiting t := by
  obtain ⟨hst, hcalm⟩ := h
  have htail : s.rdt ≠ s.rdh := by
    rw [hs.rdt]
    exact hs.rdh.ne'
  cases a with
  | arrive f =>
    rw [RxStep, rxNext, if_neg htail.symm] at hst
    cases hst
    exact ⟨hs.rdt, Nat.mod_lt _ (by decide), hs.pc, hs.used, hs.passed⟩
  | available =>
    have h0 : ¬ rxAvailable s > 0 := by
      rw [hs.available, hcalm rfl]
      decide
    rw [RxStep, rxNext, if_neg h0] at hst
    split_ifs at hst
    cases hst
    exact ⟨hs.rdt, hs.rdh, Or.inr rfl, hs.used, hs.passed⟩
  | take =>
    rw [RxStep, rxNext] at hst
    rcases hs.pc with hpc | hpc <;> simp [hpc] at hst
  | proc =>
    rw [RxStep, rxNext] at hst
    rcases hs.pc with hpc | hpc <;> simp [hpc] at hst
  | test =>
    rw [RxStep, rxNext, if_neg htail] at hst
    split_ifs at hst
    cases hst
    exact ⟨hs.rdt, hs.rdh, Or.inl rfl, hs.used, hs.passed⟩

/-- `struct i8254_send_desc`. -/
structure SendDesc where
  bufAddr : ℕ
  padding : ℕ
  len : ℕ
  cso : ℕ
  cmd : ℕ
  sta : ℕ
  css : ℕ
  special : ℕ

/-- Where a call of `i8254_send` is: before `memmove`, before the descriptor is filled in, or before
the tail is moved. -/
inductive TxPc
  | idle
  | copy (pkt : List UInt8) (index : ℕ)
  | fill (pkt : List UInt8) (index : ℕ)
  | bump (pkt : List UInt8)
  deriving DecidableEq

/-- `mem` is the memory that buffers are in. The last three fields are history: the packets for
which `i8254_send` has returned their length, those for which it has returned `-1`, and what the
card has transmitted. -/
structure Tx where
  tdh : ℕ
  tdt : ℕ
  desc : ℕ → SendDesc
  mem : ℕ → UInt8
  pc : TxPc
  sent : List (List UInt8)
  refused : List (List UInt8)
  wire : List (List UInt8)

/-- `i8254_init_send`; `junk` is what the address fields of the descriptors held. -/
def initSend (page : ℕ → Option ℕ) (junk : ℕ → ℕ) (mem : ℕ → UInt8) : Tx where
  tdh := 0
  tdt := 0
  desc i := ⟨allotBufs page (List.range (SEND_DESC_NUM / 2)) junk i, 0, 0, 0, 0, 0, 0, 0⟩
  mem := mem
  pc := .idle
  sent := []
  refused := []
  wire := []

inductive TxAct
  | call (pkt : List UInt8)
  | copy
  | fill
  | bump
  | transmit
  deriving DecidableEq

/-- `tx_available`. -/
def txAvailable (s : Tx) : ℤ :=
  SEND_DESC_NUM - (SEND_DESC_NUM - s.tdh + s.tdt) % 2 ^ 32 % SEND_DESC_NUM

/-- `memmove(b, pkt, len)`. -/
def memmove (mem : ℕ → UInt8) (b : ℕ) (pkt : List UInt8) : ℕ → UInt8 := fun a =>
  if b ≤ a ∧ a < b + pkt.length then pkt.getD (a - b) 0 else mem a

/-- The packet of a descriptor, as the card reads it. -/
def Tx.packet (s : Tx) (i : ℕ) : List UInt8 :=
  (List.range (s.desc i).len).map fun k => s.mem ((s.desc i).bufAddr + k)

/-- The packets that are queued. -/
def Tx.pending (s : Tx) : List (List UInt8) := entries SEND_DESC_NUM s.packet s.tdh s.tdt

/-- The card transmits the descriptor at its head; the rest is `i8254_send`. The length of a
descriptor is a `ushort`. -/
def txNext (s : Tx) : TxAct → Option Tx
  | .call pkt =>
    if s.pc = .idle then
      if txAvailable s > 0 then some { s with pc := .copy pkt (s.tdt % SEND_DESC_NUM) }
      else some { s with refused := s.refused ++ [pkt] }
    else none
  | .copy =>
    match s.pc with
    | .copy pkt index => some { s with
        mem := memmove s.mem (s.desc index).bufAddr pkt
        pc := .fill pkt index }
    | _ => none
  | .fill =>
    match s.pc with
    | .fill pkt index => some { s with
        desc := update s.desc index { s.desc index with
          len := pkt.length % 2 ^ 16
          sta := 0
          css := 0
          cmd := 0xb
          special := 0
          cso := 0 }
        pc := .bump pkt }
    | _ => none
  | .bump =>
    match s.pc with
    | .bump pkt => some { s with
        tdt := (s.tdt + 1) % 2 ^ 32 % SEND_DESC_NUM
        sent := s.sent ++ [pkt]
        pc := .idle }
    | _ => none
  | .transmit =>
    if s.tdh = s.tdt then none
    else some { s with
      wire := s.wire ++ [s.packet s.tdh]
      tdh := (s.tdh + 1) % SEND_DESC_NUM }

def TxStep (s : Tx) (a : TxAct) (t : Tx) : Prop := txNext s a = some t

/-- `n` bytes at `a` and `m` bytes at `b` do not overlap. -/
def Apart (a n b m : ℕ) : Prop := a + n ≤ b ∨ b + m ≤ a

instance (a n b m : ℕ) : Decidable (Apart a n b m) := inferInstanceAs (Decidable (_ ∨ _))

/-- Queueing another descriptor would make the tail equal to the head. -/
def Tx.full (s : Tx) : Prop := (s.tdt + 1) % SEND_DESC_NUM = s.tdh

/-- The descriptors that the card has still to transmit. -/
def Tx.queued (s : Tx) : List ℕ := slots SEND_DESC_NUM s.tdh s.tdt

/-- The buffer at `b` is none of those the card has still to read from. -/
def Tx.Spare (s : Tx) (b n : ℕ) : Prop :=
  ∀ i ∈ s.queued, Apart (s.desc i).bufAddr (s.desc i).len b n

/-- A call that the driver can serve: the ring is not full, the length fits the descriptor, and the
buffer of the next descriptor is not in use. -/
structure Ready (s : Tx) (pkt : List UInt8) : Prop where
  room : ¬ s.full
  short : pkt.length < 2 ^ 16
  spare : s.Spare (s.desc s.tdt).bufAddr pkt.length

instance (s : Tx) (pkt : List UInt8) : Decidable (Ready s pkt) :=
  decidable_of_iff (¬ (s.tdt + 1) % SEND_DESC_NUM = s.tdh ∧ pkt.length < 2 ^ 16 ∧
      ∀ i ∈ s.queued, Apart (s.desc i).bufAddr (s.desc i).len (s.desc s.tdt).bufAddr pkt.length)
    ⟨fun h => ⟨h.1, h.2.1, h.2.2⟩, fun h => ⟨h.room, h.short, h.spare⟩⟩

/-- The packet that a step calls `i8254_send` with. -/
def TxAct.pkt : TxAct → Option (List UInt8)
  | .call pkt => some pkt
  | _ => none

/-- A call of `i8254_send` is one that can be served. -/
def Served (s : Tx) (a : TxAct) : Prop := ∀ pkt ∈ a.pkt, Ready s pkt

instance (s : Tx) (a : TxAct) : Decidable (Served s a) :=
  inferInstanceAs (Decidable (∀ pkt ∈ a.pkt, Ready s pkt))

def ReadyStep (s : Tx) (a : TxAct) (t : Tx) : Prop := TxStep s a t ∧ Served s a

section Packet

variable {mem : ℕ → UInt8} {b : ℕ} {pkt : List UInt8}

/-- Reading back what was copied. -/
lemma memmove_read : (List.range pkt.length).map (fun k => memmove mem b pkt (b + k)) = pkt := by
  refine List.ext_getElem (by simp) fun k h1 h2 => ?_
  rw [List.getElem_map, List.getElem_range, memmove, if_pos (by omega), Nat.add_sub_cancel_left,
    List.getD_eq_getElem?_getD, List.getElem?_eq_getElem h2, Option.getD_some]

/-- A buffer that does not overlap is not changed. -/
lemma memmove_apart {a n : ℕ} (h : Apart a n b pkt.length) :
    (List.range n).map (fun k => memmove mem b pkt (a + k)) =
      (List.range n).map fun k => mem (a + k) := by
  refine List.map_congr_left fun k hk => ?_
  have hk' := List.mem_range.mp hk
  unfold Apart at h
  rw [memmove, if_neg (by omega)]

end Packet

/-! ### What is queued is what was sent -/

/-- The state of a call in progress. -/
def TxPc.Good (s : Tx) : TxPc → Prop
  | .idle => True
  | .copy pkt i => i = s.tdt ∧ Ready s pkt
  | .fill pkt i => i = s.tdt ∧ Ready s pkt ∧
      (List.range pkt.length).map (fun k => s.mem ((s.desc i).bufAddr + k)) = pkt
  | .bump pkt => ¬ s.full ∧ s.packet s.tdt = pkt

structure TxInv (s : Tx) : Prop where
  head : s.tdh < SEND_DESC_NUM
  tail : s.tdt < SEND_DESC_NUM
  order : s.wire ++ s.pending = s.sent
  none : s.refused = []
  call : s.pc.Good s

lemma txInv_init (page : ℕ → Option ℕ) (junk : ℕ → ℕ) (mem : ℕ → UInt8) :
    TxInv (initSend page junk mem) :=
  ⟨Nat.zero_lt_succ _, Nat.zero_lt_succ _,
    (List.nil_append _).trans (entries_self (h := 0) (by decide)), rfl, trivial⟩

/-- `i8254_send` finds a free descriptor whatever the registers hold. -/
lemma txAvailable_pos (s : Tx) : 0 < txAvailable s := by
  unfold txAvailable SEND_DESC_NUM
  omega

variable {s t : Tx} {a : TxAct}

/-- The card transmits: there is room as before, and fewer descriptors are queued. -/
lemma TxInv.transmit (hs : TxInv s) (hne : s.tdh ≠ s.tdt) :
    TxInv { s with
      wire := s.wire ++ [s.packet s.tdh]
      tdh := (s.tdh + 1) % SEND_DESC_NUM } := by
  have hh := hs.head
  have ht := hs.tail
  have hroom (hr : ¬ s.full) : (s.tdt + 1) % SEND_DESC_NUM ≠ (s.tdh + 1) % SEND_DESC_NUM := by
    unfold SEND_DESC_NUM at *
    omega
  have hready {pkt : List UInt8} (hr : Ready s pkt) (pc : TxPc) : Ready { s with
      pc := pc
      wire := s.wire ++ [s.packet s.tdh]
      tdh := (s.tdh + 1) % SEND_DESC_NUM } pkt :=
    ⟨hroom hr.room, hr.short, fun i hi => hr.spare i (mem_slots_pop hh ht hne hi)⟩
  refine ⟨Nat.mod_lt _ (by decide), ht, ?_, hs.none, ?_⟩
  · have horder := hs.order
    rw [Tx.pending, entries_pop hh ht hne] at horder
    rw [← horder, List.append_assoc]
    rfl
  · have hcall := hs.call
    change TxPc.Good _ s.pc
    cases hpc : s.pc with
    | idle => trivial
    | copy pkt i =>
      rw [hpc] at hcall
      exact ⟨hcall.1, hready hcall.2 _⟩
    | fill pkt i =>
      rw [hpc] at hcall
      exact ⟨hcall.1, hready hcall.2.1 _, hcall.2.2⟩
    | bump pkt =>
      rw [hpc] at hcall
      exact ⟨hroom hcall.1, hcall.2⟩

lemma TxInv.step (hs : TxInv s) (h : ReadyStep s a t) : TxInv t := by
  obtain ⟨hst, hready⟩ := h
  have hh := hs.head
  have ht := hs.tail
  have hcall := hs.call
  have htail : s.tdt ∉ s.queued := tail_notMem hh ht
  cases a with
  | call pkt =>
    rw [TxStep, txNext, if_pos (txAvailable_pos s)] at hst
    split_ifs at hst
    cases hst
    have hr := hready pkt rfl
    exact ⟨hh, ht, hs.order, hs.none, Nat.mod_eq_of_lt ht, hr.room, hr.short, hr.spare⟩
  | copy =>
    rw [TxStep, txNext] at hst
    cases hpc : s.pc <;> simp only [hpc, reduceCtorEq] at hst hcall
    rename_i pkt i
    cases hst
    obtain ⟨rfl, hr⟩ := hcall
    refine ⟨hh, ht, ?_, hs.none, rfl, ⟨hr.room, hr.short, hr.spare⟩, memmove_read⟩
    rw [← hs.order]
    exact congrArg _ (entries_congr fun i hi => memmove_apart (hr.spare i hi))
  | fill =>
    rw [TxStep, txNext] at hst
    cases hpc : s.pc <;> simp only [hpc, reduceCtorEq] at hst hcall
    rename_i pkt i
    cases hst
    obtain ⟨rfl, hr, hpkt⟩ := hcall
    refine ⟨hh, ht, ?_, hs.none, hr.room, ?_⟩
    · rw [← hs.order]
      refine congrArg _ (entries_congr fun i hi => ?_)
      have hne : i ≠ s.tdt := fun e => htail (e ▸ hi)
      simp only [Tx.packet, update_of_ne hne]
    · simp only [Tx.packet, update_self, Nat.mod_eq_of_lt hr.short]
      exact hpkt
  | bump =>
    rw [TxStep, txNext] at hst
    cases hpc : s.pc <;> simp only [hpc, reduceCtorEq] at hst hcall
    rename_i pkt
    cases hst
    obtain ⟨hroom, hpkt⟩ := hcall
    have hmod : (s.tdt + 1) % 2 ^ 32 % SEND_DESC_NUM = (s.tdt + 1) % SEND_DESC_NUM := by
      unfold SEND_DESC_NUM at *
      omega
    refine ⟨hh, Nat.mod_lt _ (by decide), ?_, hs.none, trivial⟩
    change s.wire ++ entries SEND_DESC_NUM s.packet s.tdh ((s.tdt + 1) % 2 ^ 32 % SEND_DESC_NUM) = _
    rw [hmod, entries_push hh ht hroom, ← List.append_assoc, hpkt]
    exact congrArg (· ++ [pkt]) hs.order
  | transmit =>
    rw [TxStep, txNext] at hst
    split_ifs at hst with hne
    cases hst
    exact hs.transmit hne

/-- Memory in which every `kalloc` succeeds. -/
def freshSend : Tx :=
  initSend (fun i => some (0x400000 + i * 4096)) (fun _ => 0x01010101) fun _ => 0

def sendRun (pkt : List UInt8) : List TxAct := [.call pkt, .copy, .fill, .bump]

/-- The address in a descriptor of the receive ring or of the send ring. -/
def bufAddr (rx : Rx F) (tx : Tx) : Bool → ℕ → ℕ
  | false, i => rx.buf i
  | true, i => (tx.desc i).bufAddr

/-- Each of the first `n` descriptors of both rings has a buffer in one of the pages `page` that
were allocated for its ring, and no two of these buffers overlap. -/
structure Owns (n : ℕ) (page buf : Bool → ℕ → ℕ) : Prop where
  inside : ∀ r, ∀ i < n, ∃ k < 128, page r k ≤ buf r i ∧ buf r i + 0x800 ≤ page r k + 4096
  apart : ∀ r r', ∀ i < n, ∀ j < n, (r, i) ≠ (r', j) → Apart (buf r i) 0x800 (buf r' j) 0x800

/-- The descriptors up to the middle one of a ring get a page each, the middle one shares the last
page, and the others keep what they held. -/
lemma bufAddr_init (page junk : Bool → ℕ → ℕ) (mem : ℕ → UInt8) (r : Bool) (i : ℕ) :
    bufAddr (initRecv (fun k => some (page false k)) (junk false) : Rx F)
      (initSend (fun k => some (page true k)) (junk true) mem) r i = if i < 128 then page r i
      else if i = 128 then (page r 127 + 0x800) % 2 ^ 32 else junk r i := by
  have h := allotBufs_range (fun _ => rfl : ∀ k, some (page r k) = _) 0 128 (junk r) i
  rw [← List.range_eq_range'] at h
  cases r <;> simpa [bufAddr, initRecv, initSend, RECV_DESC_NUM, SEND_DESC_NUM] using h

/-- Pages one after the other, those of the send ring behind those of the receive ring. -/
def somePages (r : Bool) (k : ℕ) : ℕ := 0x400000 + 4096 * (k + 1024 * r.toNat)

/-- Free pages are filled with ones, and so are the rings before they are set up. -/
def someBufs : Bool → ℕ → ℕ :=
  bufAddr (initRecv (fun k => some (somePages false k)) fun _ => 0x01010101 : Rx ℕ)
    (initSend (fun k => some (somePages true k)) (fun _ => 0x01010101) fun _ => 0)

end Xv6.I8254
