import Xv6.Net
import Xv6.Lib.Run

/-!
Address resolution, `arp.c`: the table of the addresses that ARP replies have announced.

`arp_table_search` gives one number for three outcomes: the slot that holds the address, the first
free slot negated and shifted by one, or, if the table is full, `0`, which is also a slot.
-/

namespace Xv6.Arp

open Xv6.Net Xv6.Lib.Run
open Function (update update_of_ne update_self update_eq_self)

def ARP_TABLE_MAX : ℕ := 64
def ARP_HARDWARE_TYPE : UInt16 := 0x0100
def ARP_PROTOCOL_TYPE : UInt16 := 0x0008
def ARP_OPS_REQUEST : UInt16 := 0x0100
def ARP_OPS_REPLY : UInt16 := 0x0200
def ARP_UPDATED_TABLE : ℤ := 1
def ARP_CREATED_REPLY : ℤ := 2

/-- The multi-byte fields are as the processor loads them. `dst_ip` is declared with six bytes, of
which four are used. -/
structure ArpPkt where
  hrdType : UInt16
  proType : UInt16
  hrdLen : UInt8
  proLen : UInt8
  op : UInt16
  srcMac : Mac
  srcIp : Ip
  dstMac : Mac
  dstIp : Ip
  deriving DecidableEq

structure ArpEntry where
  ip : Ip
  mac : Mac
  use : UInt8
  deriving DecidableEq

/-- `arp_table`; only the first `ARP_TABLE_MAX` entries exist. -/
abbrev ArpTable := ℕ → ArpEntry

/-- `{0}` -/
def noIp : Ip := Vector.replicate 4 0

def emptyTable : ArpTable := fun _ => ⟨noIp, Vector.replicate 6 0, 0⟩

/-- The loop of `arp_table_search` from the slots that are left, and what follows it. -/
def searchLoop (t : ArpTable) (ip : Ip) : List ℕ → ℤ → ℤ
  | [], empty => empty - 1
  | i :: rest, empty =>
    if (t i).ip = ip then i
    else searchLoop t ip rest (if (t i).use = 0 ∧ empty = 1 then -(i : ℤ) else empty)

def arpTableSearch (t : ArpTable) (ip : Ip) : ℤ :=
  searchLoop t ip (List.range' 0 ARP_TABLE_MAX) 1

def arpTableUpdate (t : ArpTable) (recvArp : ArpPkt) : ArpTable :=
  let index := arpTableSearch t recvArp.srcIp
  if index > -1 then
    update t index.toNat { t index.toNat with mac := recvArp.srcMac }
  else
    let index := -(index + 1)
    update t index.toNat ⟨recvArp.srcIp, recvArp.srcMac, 1⟩

section Proc

variable (macAddr : Mac) (myIp : Ip)

def arpReplyPktCreate (arpRecv : ArpPkt) : EthPkt × ArpPkt :=
  (⟨arpRecv.srcMac, macAddr, #v[0x08, 0x06]⟩,
   { hrdType := ARP_HARDWARE_TYPE
     proType := ARP_PROTOCOL_TYPE
     hrdLen := 6
     proLen := 4
     op := ARP_OPS_REPLY
     dstMac := arpRecv.srcMac
     dstIp := arpRecv.srcIp
     srcMac := macAddr
     srcIp := myIp })

/-- What `arp_proc` returns, the table it leaves, and the packet it hands to `i8254_send`. -/
def arpProc (t : ArpTable) (p : ArpPkt) : ℤ × ArpTable × Option (EthPkt × ArpPkt) :=
  if p.hrdType ≠ ARP_HARDWARE_TYPE then (-1, t, none)
  else if p.proType ≠ ARP_PROTOCOL_TYPE then (-1, t, none)
  else if p.hrdLen ≠ 6 then (-1, t, none)
  else if p.proLen ≠ 4 then (-1, t, none)
  else if myIp ≠ p.dstIp ∧ myIp ≠ p.srcIp then (-1, t, none)
  else if p.op = ARP_OPS_REQUEST ∧ myIp = p.dstIp then
    (ARP_CREATED_REPLY, t, some (arpReplyPktCreate macAddr myIp p))
  else if p.op = ARP_OPS_REPLY ∧ myIp = p.dstIp then
    (ARP_UPDATED_TABLE, arpTableUpdate t p, none)
  else (-1, t, none)

/-- `replies` is history: the replies that were processed, in order. -/
structure State where
  table : ArpTable
  replies : List ArpPkt

def init : State := ⟨emptyTable, []⟩

/-- A packet has been received. -/
def next (s : State) (p : ArpPkt) : State :=
  let r := arpProc macAddr myIp s.table p
  ⟨r.2.1, if r.1 = ARP_UPDATED_TABLE then s.replies ++ [p] else s.replies⟩

def Step (s : State) (p : ArpPkt) (t : State) : Prop := t = next macAddr myIp s p

end Proc

/-! ### What the table is for -/

def InUse (t : ArpTable) (i : ℕ) : Prop := i < ARP_TABLE_MAX ∧ (t i).use ≠ 0

/-- Some reply announced `mac` for `ip`, and no later one announced another. -/
def Latest (rs : List ArpPkt) (ip : Ip) (mac : Mac) : Prop :=
  ∃ rs₁ r rs₂, rs = rs₁ ++ r :: rs₂ ∧ r.srcIp = ip ∧ r.srcMac = mac ∧
    ∀ q ∈ rs₂, q.srcIp = ip → q.srcMac = mac

structure Sound (t : ArpTable) (rs : List ArpPkt) : Prop where
  distinct : ∀ i j, InUse t i → InUse t j → (t i).ip = (t j).ip → i = j
  announced : ∀ i, InUse t i → Latest rs (t i).ip (t i).mac

/-- Every entry for an address other than `ip` keeps its pair or is gone as a whole. -/
def Keeps (t t' : ArpTable) (ip : Ip) : Prop :=
  ∀ i, InUse t i → (t i).ip ≠ ip →
    (∃ j, InUse t' j ∧ (t' j).ip = (t i).ip ∧ (t' j).mac = (t i).mac) ∨
    ∀ j, InUse t' j → (t' j).ip ≠ (t i).ip

variable {ip : Ip}

/-- What the last reply says of an address. -/
lemma latest_snoc {rs : List ArpPkt} {p : ArpPkt} {mac : Mac} :
    Latest (rs ++ [p]) ip mac ↔ if p.srcIp = ip then p.srcMac = mac else Latest rs ip mac := by
  constructor
  · rintro ⟨rs₁, r, rs₂, hrs, hip, hmac, hlater⟩
    rcases List.eq_nil_or_concat' rs₂ with rfl | ⟨rs₂, q, rfl⟩
    · obtain ⟨-, rfl⟩ := List.append_inj' hrs rfl |>.imp_right List.singleton_inj.mp
      rw [if_pos hip]
      exact hmac
    · rw [← List.cons_append, ← List.append_assoc] at hrs
      obtain ⟨rfl, hpq⟩ := List.append_inj' hrs rfl
      obtain rfl := List.singleton_inj.mp hpq
      split_ifs with hp
      · exact hlater p (by simp) hp
      · exact ⟨rs₁, r, rs₂, rfl, hip, hmac, fun q hq => hlater q (by simp [hq])⟩
  · intro h
    split_ifs at h with hp
    · exact ⟨rs, p, [], rfl, hp, h, by simp⟩
    · obtain ⟨rs₁, r, rs₂, rfl, hip, hmac, hlater⟩ := h
      refine ⟨rs₁, r, rs₂ ++ [p], by simp, hip, hmac, fun q hq => ?_⟩
      rcases List.mem_append.mp hq with hq | hq
      · exact hlater q hq
      · obtain rfl := List.mem_singleton.mp hq
        exact fun e => absurd e hp

/-- The last announcement for an address is one. -/
lemma Latest.unique {rs : List ArpPkt} {m m' : Mac} (h : Latest rs ip m) (h' : Latest rs ip m') :
    m = m' := by
  induction rs using List.reverseRecOn with
  | nil =>
    obtain ⟨rs₁, r, rs₂, hrs, -⟩ := h
    simp at hrs
  | append_singleton rs p ih =>
    rw [latest_snoc] at h h'
    split_ifs at h h'
    · exact h.symm.trans h'
    · exact ih h h'

/-! ### The outcome of a search -/

inductive Found (t : ArpTable) (ip : Ip) : ℤ → Prop
  | hit (i : ℕ) (hi : i < ARP_TABLE_MAX) (hip : (t i).ip = ip) : Found t ip i
  | free (i : ℕ) (hi : i < ARP_TABLE_MAX) (huse : (t i).use = 0)
      (hmiss : ∀ j < ARP_TABLE_MAX, (t j).ip ≠ ip) : Found t ip (-(i : ℤ) - 1)
  | full (huse : ∀ j < ARP_TABLE_MAX, (t j).use ≠ 0)
      (hmiss : ∀ j < ARP_TABLE_MAX, (t j).ip ≠ ip) : Found t ip 0

/-- What `empty` is when the first `k` slots have been looked at. -/
def EmptyAt (t : ArpTable) (k : ℕ) (empty : ℤ) : Prop :=
  (∀ j < k, (t j).use ≠ 0) ∧ empty = 1 ∨ ∃ i < k, (t i).use = 0 ∧ empty = -(i : ℤ)

lemma EmptyAt.succ {t : ArpTable} {k : ℕ} {empty : ℤ} (h : EmptyAt t k empty) :
    EmptyAt t (k + 1) (if (t k).use = 0 ∧ empty = 1 then -(k : ℤ) else empty) := by
  rcases h with ⟨hused, he⟩ | ⟨i, hi, huse, he⟩
  · by_cases hk : (t k).use = 0
    · rw [if_pos ⟨hk, he⟩]
      exact Or.inr ⟨k, k.lt_succ_self, hk, rfl⟩
    · rw [if_neg fun h => hk h.1]
      refine Or.inl ⟨fun j hj => ?_, he⟩
      rcases Nat.lt_succ_iff_lt_or_eq.mp hj with hj | rfl
      · exact hused j hj
      · exact hk
  · have hne : empty ≠ 1 := by omega
    rw [if_neg fun h => hne h.2]
    exact Or.inr ⟨i, hi.trans k.lt_succ_self, huse, he⟩

lemma searchLoop_found {t : ArpTable} (n k : ℕ) (empty : ℤ) (hk : k + n = ARP_TABLE_MAX)
    (hmiss : ∀ j < k, (t j).ip ≠ ip) (he : EmptyAt t k empty) :
    Found t ip (searchLoop t ip (List.range' k n) empty) := by
  induction n generalizing k empty with
  | zero =>
    obtain rfl : k = ARP_TABLE_MAX := hk
    rcases he with ⟨hused, rfl⟩ | ⟨i, hi, huse, rfl⟩
    · exact .full hused hmiss
    · exact .free i hi huse hmiss
  | succ n ih =>
    rw [List.range'_succ, searchLoop]
    by_cases hip : (t k).ip = ip
    · rw [if_pos hip]
      exact .hit k (by omega) hip
    · rw [if_neg hip]
      refine ih (k + 1) _ (by omega) (fun j hj => ?_) he.succ
      rcases Nat.lt_succ_iff_lt_or_eq.mp hj with hj | rfl
      · exact hmiss j hj
      · exact hip

lemma arpTableSearch_found (t : ArpTable) (ip : Ip) : Found t ip (arpTableSearch t ip) :=
  searchLoop_found ARP_TABLE_MAX 0 1 (by simp) (by simp) (Or.inl ⟨by simp, rfl⟩)

/-- What `arp_table_update` does: it changes the hardware address of the slot that holds the
address, takes a free slot, or, in a full table, changes the hardware address of slot `0`. -/
lemma arpTableUpdate_cases (t : ArpTable) (p : ArpPkt) :
    (∃ i < ARP_TABLE_MAX, (t i).ip = p.srcIp ∧
      arpTableUpdate t p = update t i { t i with mac := p.srcMac }) ∨
    (∀ j < ARP_TABLE_MAX, (t j).ip ≠ p.srcIp) ∧
      ((∃ i < ARP_TABLE_MAX, (t i).use = 0 ∧
        arpTableUpdate t p = update t i ⟨p.srcIp, p.srcMac, 1⟩) ∨
      (∀ j < ARP_TABLE_MAX, (t j).use ≠ 0) ∧
        arpTableUpdate t p = update t 0 { t 0 with mac := p.srcMac }) := by
  have h := arpTableSearch_found t p.srcIp
  unfold arpTableUpdate
  generalize arpTableSearch t p.srcIp = index at h
  cases h with
  | hit i hi hip =>
    refine Or.inl ⟨i, hi, hip, ?_⟩
    rw [if_pos (by omega), Int.toNat_natCast]
  | free i hi huse hmiss =>
    refine Or.inr ⟨hmiss, Or.inl ⟨i, hi, huse, ?_⟩⟩
    dsimp only
    rw [if_neg (by omega), show -(-(i : ℤ) - 1 + 1) = i by omega, Int.toNat_natCast]
  | full huse hmiss =>
    refine Or.inr ⟨hmiss, Or.inr ⟨huse, ?_⟩⟩
    rw [if_pos (by omega), Int.toNat_zero]

/-! ### Runs -/

section Run

variable {macAddr : Mac} {myIp : Ip}

/-- `arp_proc` updates the table, or leaves it alone and returns something else. -/
lemma arpProc_cases (macAddr : Mac) (myIp : Ip) (t : ArpTable) (p : ArpPkt) :
    arpProc macAddr myIp t p = (ARP_UPDATED_TABLE, arpTableUpdate t p, none) ∨
    (arpProc macAddr myIp t p).1 ≠ ARP_UPDATED_TABLE ∧ (arpProc macAddr myIp t p).2.1 = t := by
  have hfail : (-1 : ℤ) ≠ ARP_UPDATED_TABLE := by decide
  have hreq : ARP_CREATED_REPLY ≠ ARP_UPDATED_TABLE := by decide
  unfold arpProc
  split_ifs
  all_goals first
    | exact Or.inr ⟨hfail, rfl⟩
    | exact Or.inr ⟨hreq, rfl⟩
    | exact Or.inl rfl

variable {s : State}

lemma next_updated {p : ArpPkt}
    (h : arpProc macAddr myIp s.table p = (ARP_UPDATED_TABLE, arpTableUpdate s.table p, none)) :
    next macAddr myIp s p = ⟨arpTableUpdate s.table p, s.replies ++ [p]⟩ := by
  simp [next, h]

lemma next_ignored {p : ArpPkt} (h : (arpProc macAddr myIp s.table p).1 ≠ ARP_UPDATED_TABLE)
    (ht : (arpProc macAddr myIp s.table p).2.1 = s.table) : next macAddr myIp s p = s := by
  simp [next, h, ht]

/-- A reply that is processed finds its address or a free slot in the table; if it finds neither,
it announces what slot `0` holds. -/
def RoomFor (macAddr : Mac) (myIp : Ip) (s : State) (p : ArpPkt) : Prop :=
  (arpProc macAddr myIp s.table p).1 = ARP_UPDATED_TABLE →
    (∃ i < ARP_TABLE_MAX, (s.table i).ip = p.srcIp ∨ (s.table i).use = 0) ∨
    (s.table 0).mac = p.srcMac

instance (macAddr : Mac) (myIp : Ip) (s : State) (p : ArpPkt) :
    Decidable (RoomFor macAddr myIp s p) :=
  inferInstanceAs (Decidable (_ → _ ∨ _))

def RoomStep (macAddr : Mac) (myIp : Ip) (s : State) (p : ArpPkt) (t : State) : Prop :=
  Step macAddr myIp s p t ∧ RoomFor macAddr myIp s p

/-- The slots that are not in use hold no address, and those in use hold one; so a search for
`0.0.0.0` finds a slot that is not in use as long as there is one. -/
structure Inv (t : ArpTable) (rs : List ArpPkt) : Prop extends Sound t rs where
  blank : ∀ i < ARP_TABLE_MAX, (t i).use = 0 → (t i).ip = noIp
  named : ∀ i < ARP_TABLE_MAX, (t i).use ≠ 0 → (t i).ip ≠ noIp

lemma inv_init : Inv emptyTable [] where
  distinct _ _ hi := absurd rfl hi.2
  announced _ hi := absurd rfl hi.2
  blank _ _ _ := rfl
  named _ _ h := absurd rfl h

variable {t : ArpTable} {rs : List ArpPkt} {p : ArpPkt} {i : ℕ}

/-- The slot found is the only one in use with its address. -/
lemma Inv.only (h : Inv t rs) (hi : i < ARP_TABLE_MAX) {j : ℕ} (hj : InUse t j)
    (he : (t i).ip = (t j).ip) : i = j := by
  by_cases hu : (t i).use = 0
  · exact absurd (he ▸ h.blank i hi hu) (h.named j hj.1 hj.2)
  · exact h.distinct i j ⟨hi, hu⟩ hj he

/-- The slot with the address of the reply gets its hardware address. -/
lemma Inv.hit (h : Inv t rs) (hi : i < ARP_TABLE_MAX) (hip : (t i).ip = p.srcIp) :
    Inv (update t i { t i with mac := p.srcMac }) (rs ++ [p]) := by
  set t' := update t i { t i with mac := p.srcMac } with ht'
  have hip' : ∀ j, (t' j).ip = (t j).ip := fun j => by
    by_cases hj : j = i
    · subst hj; simp [ht']
    · simp [ht', hj]
  have huse' : ∀ j, (t' j).use = (t j).use := fun j => by
    by_cases hj : j = i
    · subst hj; simp [ht']
    · simp [ht', hj]
  have hin : ∀ {j}, InUse t' j → InUse t j := fun {j} hj => ⟨hj.1, huse' j ▸ hj.2⟩
  refine ⟨⟨fun j k hj hk he => ?_, fun j hj => ?_⟩, fun j hj hu => ?_, fun j hj hu => ?_⟩
  · rw [hip', hip'] at he
    exact h.distinct j k (hin hj) (hin hk) he
  · rw [latest_snoc, hip']
    by_cases hji : j = i
    · subst hji
      simp [hip, ht']
    · have hne : p.srcIp ≠ (t j).ip := fun e =>
        hji (h.only hi (hin hj) (hip.trans e)).symm
      rw [if_neg hne, ht', update_of_ne hji]
      exact h.announced j (hin hj)
  · rw [hip']
    exact h.blank j hj (huse' j ▸ hu)
  · rw [hip']
    exact h.named j hj (huse' j ▸ hu)

/-- A free slot gets the pair of the reply. -/
lemma Inv.record (h : Inv t rs) (hi : i < ARP_TABLE_MAX) (huse : (t i).use = 0)
    (hmiss : ∀ j < ARP_TABLE_MAX, (t j).ip ≠ p.srcIp) :
    Inv (update t i ⟨p.srcIp, p.srcMac, 1⟩) (rs ++ [p]) := by
  set t' := update t i ⟨p.srcIp, p.srcMac, 1⟩ with ht'
  have hself : t' i = ⟨p.srcIp, p.srcMac, 1⟩ := update_self ..
  have hother : ∀ {j}, j ≠ i → t' j = t j := fun hj => update_of_ne hj ..
  have hin : ∀ {j}, j ≠ i → InUse t' j → InUse t j := fun hj hu =>
    ⟨hu.1, hother hj ▸ hu.2⟩
  refine ⟨⟨fun j k hj hk he => ?_, fun j hj => ?_⟩, fun j hj hu => ?_, fun j hj hu => ?_⟩
  · by_cases hji : j = i <;> by_cases hki : k = i
    · exact hji.trans hki.symm
    · rw [hji, hself, hother hki] at he
      exact absurd he.symm (hmiss k hk.1)
    · rw [hki, hself, hother hji] at he
      exact absurd he (hmiss j hj.1)
    · rw [hother hji, hother hki] at he
      exact h.distinct j k (hin hji hj) (hin hki hk) he
  · rw [latest_snoc]
    by_cases hji : j = i
    · simp [hji, hself]
    · rw [hother hji, if_neg (hmiss j hj.1).symm]
      exact h.announced j (hin hji hj)
  · by_cases hji : j = i
    · simp [hji, hself] at hu
    · rw [hother hji] at hu ⊢
      exact h.blank j hj hu
  · by_cases hji : j = i
    · rw [hji, hself]
      -- no slot has the address, and the free one has none
      exact fun e => hmiss i hi ((h.blank i hi huse).trans e.symm)
    · rw [hother hji] at hu ⊢
      exact h.named j hj hu

/-- A reply that changes nothing. -/
lemma Inv.same (h : Inv t rs) (hmiss : ∀ j < ARP_TABLE_MAX, (t j).ip ≠ p.srcIp) :
    Inv t (rs ++ [p]) :=
  { h with
    announced := fun j hj => by
      rw [latest_snoc, if_neg (hmiss j hj.1).symm]
      exact h.announced j hj }

/-- An entry whose slot is left alone is kept. -/
lemma keeps_update {e : ArpEntry} {ip : Ip} (h : InUse t i → (t i).ip = ip) :
    Keeps t (update t i e) ip := by
  intro j hj hne
  have hji : j ≠ i := fun e => hne (e ▸ h (e ▸ hj))
  refine Or.inl ⟨j, ⟨hj.1, ?_⟩, ?_, ?_⟩
  all_goals rw [update_of_ne hji]
  exact hj.2

lemma keeps_refl (t : ArpTable) (ip : Ip) : Keeps t t ip := fun j hj _ =>
  Or.inl ⟨j, hj, rfl, rfl⟩

/-- A reply for which there is room leaves the table sound and the other entries alone. -/
lemma Inv.update (h : Inv t rs)
    (hroom : (∃ i < ARP_TABLE_MAX, (t i).ip = p.srcIp ∨ (t i).use = 0) ∨ (t 0).mac = p.srcMac) :
    Inv (arpTableUpdate t p) (rs ++ [p]) ∧ Keeps t (arpTableUpdate t p) p.srcIp := by
  rcases arpTableUpdate_cases t p with
    ⟨i, hi, hip, he⟩ | ⟨hmiss, ⟨i, hi, huse, he⟩ | ⟨hfull, he⟩⟩
  · rw [he]
    exact ⟨h.hit hi hip, keeps_update fun _ => hip⟩
  · rw [he]
    exact ⟨h.record hi huse hmiss, keeps_update fun hu => absurd huse hu.2⟩
  · have hmac : (t 0).mac = p.srcMac := by
      refine hroom.resolve_left ?_
      rintro ⟨i, hi, hip | huse⟩
      · exact hmiss i hi hip
      · exact hfull i hi huse
    have hsame : arpTableUpdate t p = t := by
      rw [he, ← hmac]
      exact update_eq_self 0 t
    rw [hsame]
    exact ⟨h.same hmiss, keeps_refl t _⟩

/-- A reply for which there is no room gives slot `0` a hardware address that was announced for
another address. -/
lemma Inv.overwrite (h : Inv t rs)
    (hroom : ¬ ((∃ i < ARP_TABLE_MAX, (t i).ip = p.srcIp ∨ (t i).use = 0) ∨ (t 0).mac = p.srcMac)) :
    ¬ Sound (arpTableUpdate t p) (rs ++ [p]) := by
  push Not at hroom
  obtain ⟨hno, hmac⟩ := hroom
  have h0 : 0 < ARP_TABLE_MAX := by decide
  rcases arpTableUpdate_cases t p with ⟨i, hi, hip, -⟩ | ⟨hmiss, ⟨i, hi, huse, -⟩ | ⟨hfull, he⟩⟩
  · exact absurd hip (hno i hi).1
  · exact absurd huse (hno i hi).2
  · intro hs
    have hnew := hs.announced 0 ⟨h0, by simpa [he] using hfull 0 h0⟩
    rw [he, update_self, latest_snoc, if_neg (hmiss 0 h0).symm] at hnew
    exact hmac ((h.announced 0 ⟨h0, hfull 0 h0⟩).unique hnew)

lemma Inv.step {t : State} (h : Inv s.table s.replies) (hst : RoomStep macAddr myIp s p t) :
    Inv t.table t.replies := by
  obtain ⟨rfl, hroom⟩ := hst
  rcases arpProc_cases macAddr myIp s.table p with hu | ⟨hne, ht⟩
  · rw [next_updated hu]
    exact (h.update (hroom (by rw [hu]))).1
  · rw [next_ignored hne ht]
    exact h

/-- **The ARP table** is sound after every sequence of packets in which each reply processed has
room, and then a reply leaves the entries of other addresses alone; a reply without room leaves an
entry with a hardware address that was never announced for it. -/
theorem arp_table_sound {s : State} (h : Reach (RoomStep macAddr myIp) init s) :
    Sound s.table s.replies ∧ ∀ p t, Step macAddr myIp s p t → if RoomFor macAddr myIp s p then
        Sound t.table t.replies ∧
        ((arpProc macAddr myIp s.table p).1 = ARP_UPDATED_TABLE → Keeps s.table t.table p.srcIp)
      else ¬ Sound t.table t.replies := by
  have hinv : Inv s.table s.replies := by
    apply h.inv (P := fun s => Inv s.table s.replies) inv_init
    intro s p t hs hst
    exact hs.step hst
  refine ⟨hinv.toSound, ?_⟩
  rintro p t rfl
  split_ifs with hroom
  · refine ⟨(hinv.step ⟨rfl, hroom⟩).toSound, fun hu => ?_⟩
    rcases arpProc_cases macAddr myIp s.table p with hp | ⟨hne, -⟩
    · rw [next_updated hp]
      exact (hinv.update (hroom hu)).2
    · exact absurd hu hne
  · obtain ⟨hu, hno⟩ := Classical.not_imp.mp hroom
    rcases arpProc_cases macAddr myIp s.table p with hp | ⟨hne, -⟩
    · rw [next_updated hp]
      exact hinv.overwrite hno
    · exact absurd hu hne

/-- A reply to `myIp`. -/
def replyFrom (myIp ip : Ip) (mac : Mac) : ArpPkt where
  hrdType := ARP_HARDWARE_TYPE
  proType := ARP_PROTOCOL_TYPE
  hrdLen := 6
  proLen := 4
  op := ARP_OPS_REPLY
  srcMac := mac
  srcIp := ip
  dstMac := Vector.replicate 6 0
  dstIp := myIp

/-- One host announces its address, and another `0.0.0.0`. -/
theorem arp_table_sound_two :
    ∃ s, Reach (RoomStep (Vector.replicate 6 0) #v[10, 0, 1, 10]) init s ∧
      Sound s.table s.replies ∧ s.replies.length = 2 := by
  have h : Reach (RoomStep (Vector.replicate 6 0) #v[10, 0, 1, 10]) init _ :=
    .tail (.tail .refl ⟨rfl, show RoomFor _ _ _
        (replyFrom #v[10, 0, 1, 10] #v[10, 0, 1, 2] #v[2, 0, 0, 0, 0, 1]) by decide +kernel⟩)
      ⟨rfl, show RoomFor _ _ _
        (replyFrom #v[10, 0, 1, 10] noIp #v[2, 0, 0, 0, 0, 2]) by decide +kernel⟩
  exact ⟨_, h, (arp_table_sound h).1, by decide +kernel⟩

/-- The hosts `10.0.2.k` announce their hardware addresses. -/
def flood (n : ℕ) : List ArpPkt :=
  (List.range n).map fun k =>
    replyFrom hostIp #v[10, 0, 2, .ofNat k] #v[2, 0, 0, 0, 0, .ofNat k]

/-- The reply of one host more than the table has slots changes the entry of the first. -/
theorem flood_overwrites_first :
    let s := (flood 65).foldl (next (Vector.replicate 6 0) #v[10, 0, 1, 10]) init
    s.replies = flood 65 ∧ (s.table 0).ip = #v[10, 0, 2, 0] ∧
      (s.table 0).mac = #v[2, 0, 0, 0, 0, 64] ∧ ¬ Sound s.table s.replies := by
  intro s
  have hrs : s.replies = flood 65 := by decide +kernel
  have h0 : s.table 0 = ⟨#v[10, 0, 2, 0], #v[2, 0, 0, 0, 0, 64], 1⟩ := by decide +kernel
  refine ⟨hrs, by rw [h0], by rw [h0], fun hs => ?_⟩
  obtain ⟨rs₁, r, rs₂, he, hip, hmac, -⟩ := hs.announced 0 ⟨by decide, by rw [h0]; decide⟩
  have hr : r ∈ flood 65 := by
    rw [← hrs, he]
    simp
  rw [h0] at hip hmac
  have hnone : ∀ r ∈ flood 65, r.srcIp = #v[10, 0, 2, 0] → r.srcMac ≠ #v[2, 0, 0, 0, 0, 64] := by
    decide +kernel
  exact hnone r hr hip hmac

end Run

end Xv6.Arp
