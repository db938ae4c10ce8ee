import Xv6.Tcp

/-!
Sequence and acknowledgement numbers of the TCP server on one connection.

A reply acknowledges `S + 1` whatever the length of the segment, with the `1` added to one byte of
the number; `seq_num` counts a page sent as `1` and a `FIN` not at all, and `H2N_uint` is right for
numbers below `16`.
-/

namespace Xv6.TcpStream

open Xv6.Net Xv6.Tcp Xv6.Lib.Bytes Xv6.Lib.Run

/-! ### Segments -/

/-- The sequence number of a segment received. -/
def segSeq (m : Mem) : ℕ := netUint (tcpRecv m).seqNum

/-- The bytes of a segment after both headers, with their options. -/
def segLen (m : Mem) : ℕ :=
  netUshort (ipv4PktAt m 14).totalLen - ((ipv4PktAt m 14).ver &&& 0xF).toNat * 4 -
    ((tcpRecv m).codeBits[0] >>> 4).toNat * 4

/-- `1` for `SYN` and `1` for `FIN`. -/
def flagSpace (flags : UInt8) : ℕ :=
  (if flags &&& TCP_CODEBITS_SYN ≠ 0 then 1 else 0) +
    if flags &&& TCP_CODEBITS_FIN ≠ 0 then 1 else 0

/-- The sequence space of a segment received. -/
def segSpace (m : Mem) : ℕ :=
  segLen m + flagSpace (getElem (tcpRecv m).codeBits 1 Nat.one_lt_two)

/-- The sequence space of a packet sent. -/
def space (p : Packet) : ℕ :=
  p.payload.length + flagSpace (getElem p.tcp.codeBits 1 Nat.one_lt_two)

/-- The replies to the segment `m` acknowledge all of it, and each continues the stream that started
at `first` and of which `used` numbers have been sent. -/
def RepliesOk (m : Mem) (first used : ℕ) : List Packet → Prop
  | [] => True
  | p :: ps =>
    netUint p.tcp.ackNum = (segSeq m + segSpace m) % 2 ^ 32 ∧
    netUint p.tcp.seqNum = (first + used) % 2 ^ 32 ∧ RepliesOk m first (used + space p) ps

instance decidableRepliesOk (m : Mem) (first : ℕ) :
    (used : ℕ) → (ps : List Packet) → Decidable (RepliesOk m first used ps)
  | _, [] => .isTrue trivial
  | used, p :: ps =>
    have := decidableRepliesOk m first (used + space p) ps
    inferInstanceAs (Decidable (_ ∧ _ ∧ _))

lemma netUint_lt (v : ℕ) : netUint v < 2 ^ 32 := by
  rw [netUint_eq]
  omega

lemma segSpace_lt (m : Mem) : segSpace m < 2 ^ 17 := by
  have h : netUshort (ipv4PktAt m 14).totalLen < 2 ^ 16 := by
    rw [netUshort_eq]
    omega
  have hf : flagSpace (tcpRecv m).codeBits[1] ≤ 2 := by
    unfold flagSpace
    split_ifs <;> omega
  unfold segSpace segLen
  omega

/-- The `1` is added to the last byte of the number, without a carry. -/
lemma netUint_add (r : ℕ) :
    netUint ((r + 1 <<< (8 * 3)) % 2 ^ 32) =
      if netUint r % 256 = 255 then netUint r - 255 else netUint r + 1 := by
  have hone : 1 <<< (8 * 3) = 16777216 := rfl
  rw [hone, netUint_eq, netUint_eq]
  have h0 : (r + 16777216) % 2 ^ 32 % 256 = r % 256 := by omega
  have h1 : (r + 16777216) % 2 ^ 32 / 256 % 256 = r / 256 % 256 := by omega
  have h2 : (r + 16777216) % 2 ^ 32 / 65536 % 256 = r / 65536 % 256 := by omega
  have h3 : (r + 16777216) % 2 ^ 32 / 16777216 % 256 = (r / 16777216 % 256 + 1) % 256 := by omega
  rw [h0, h1, h2, h3]
  generalize r % 256 = a
  generalize r / 256 % 256 = b
  generalize r / 65536 % 256 = c
  have hd : r / 16777216 % 256 < 256 := Nat.mod_lt _ (by decide)
  generalize r / 16777216 % 256 = d at hd
  have hlast : (a * 2 ^ 24 + b * 2 ^ 16 + c * 2 ^ 8 + d) % 256 = d := by omega
  rw [hlast]
  split_ifs with he
  · rw [he]
    omega
  · rw [Nat.mod_eq_of_lt (by omega)]
    omega

/-- When the acknowledgement is right. -/
lemma ack_iff (m : Mem) :
    netUint (((tcpRecv m).seqNum + 1 <<< (8 * 3)) % 2 ^ 32) = (segSeq m + segSpace m) % 2 ^ 32 ↔
      segSpace m = 1 ∧ segSeq m % 256 ≠ 255 := by
  have hs := segSpace_lt m
  have hS : segSeq m < 2 ^ 32 := netUint_lt _
  rw [netUint_add]
  change (if segSeq m % 256 = 255 then segSeq m - 255 else segSeq m + 1) = _ ↔ _
  split_ifs with h
  · omega
  · omega

/-! ### Runs -/

/-- The server on one connection; `sent` is history. -/
structure Conn where
  g : Globals
  sent : List Packet

/-- The sequence space sent. -/
def used (s : Conn) : ℕ := (s.sent.map space).sum

/-- Nothing but `SYN` and acknowledgements has been sent. -/
def Opening (s : Conn) : Prop :=
  ∀ p ∈ s.sent, p.payload = [] ∧ getElem p.tcp.codeBits 1 Nat.one_lt_two &&& TCP_CODEBITS_FIN = 0

section Run

variable (macAddr : Mac) (myIp : Ip)

def next (s : Conn) (m : Mem) : Conn :=
  ⟨(tcpProc macAddr myIp s.g m).1, s.sent ++ (tcpProc macAddr myIp s.g m).2⟩

/-- A segment that is answered takes one sequence number, which is not the last before a carry;
`seq_num` has one digit, and neither a page nor a `FIN` has been sent. -/
def Plain (s : Conn) (m : Mem) : Prop :=
  (tcpProc macAddr myIp s.g m).2 ≠ [] →
    segSpace m = 1 ∧ segSeq m % 256 ≠ 255 ∧ s.g.seqNum < 16 ∧ Opening s

instance (s : Conn) : Decidable (Opening s) :=
  inferInstanceAs (Decidable (∀ p ∈ s.sent, _ ∧ _))

instance (s : Conn) (m : Mem) : Decidable (Plain macAddr myIp s m) :=
  inferInstanceAs (Decidable (_ → _))

def PlainStep (c : Client) (s : Conn) (m : Mem) (t : Conn) : Prop :=
  t = next macAddr myIp s m ∧ client m = c ∧ Plain macAddr myIp s m

variable {macAddr myIp}

/-- What `tcp_proc` does: it opens a connection, sends a page, closes, or does nothing. -/
lemma tcpProc_cases (macAddr : Mac) (myIp : Ip) (g : Globals) (m : Mem) :
    tcpProc macAddr myIp g m =
      ({ g.sent with seqNum := (g.seqNum + 1) % 2 ^ 32 },
        [tcpPktCreate macAddr myIp g m (TCP_CODEBITS_ACK ||| TCP_CODEBITS_SYN) []]) ∨
    tcpProc macAddr myIp g m =
      ({ g.sent.sent with seqNum := (g.seqNum + 1) % 2 ^ 32, finFlag := 1 },
        [tcpPktCreate macAddr myIp g m TCP_CODEBITS_ACK [],
         tcpPktCreate macAddr myIp g.sent m (TCP_CODEBITS_ACK ||| TCP_CODEBITS_PSH) httpProc]) ∨
    tcpProc macAddr myIp g m =
      ({ g.sent with finFlag := 0 }, [tcpPktCreate macAddr myIp g m TCP_CODEBITS_FIN []]) ∨
    tcpProc macAddr myIp g m = (g, []) := by
  unfold tcpProc
  dsimp only
  split_ifs
  · exact Or.inl rfl
  · exact Or.inr (Or.inl rfl)
  · exact Or.inr (Or.inr (Or.inl rfl))
  · exact Or.inr (Or.inr (Or.inr rfl))
  · exact Or.inr (Or.inr (Or.inr rfl))

section Create

variable (g : Globals) (m : Mem) (pktType : UInt8) (payload : List UInt8)

@[simp] lemma seqNum_create :
    (tcpPktCreate macAddr myIp g m pktType payload).tcp.seqNum = h2nUint g.seqNum := rfl

@[simp] lemma ackNum_create :
    (tcpPktCreate macAddr myIp g m pktType payload).tcp.ackNum =
      ((tcpRecv m).seqNum + 1 <<< (8 * 3)) % 2 ^ 32 := rfl

@[simp] lemma space_create :
    space (tcpPktCreate macAddr myIp g m pktType payload) = payload.length + flagSpace pktType :=
  rfl

end Create

/-- All replies to a segment have the same numbers. -/
lemma repliesOk_iff (g : Globals) (m : Mem) (first n : ℕ) :
    RepliesOk m first n (tcpProc macAddr myIp g m).2 ↔ ((tcpProc macAddr myIp g m).2 ≠ [] →
        (segSpace m = 1 ∧ segSeq m % 256 ≠ 255) ∧
        netUint (h2nUint g.seqNum) = (first + n) % 2 ^ 32) := by
  rw [← ack_iff m]
  rcases tcpProc_cases macAddr myIp g m with h | h | h | h <;> rw [h]
  · simp [RepliesOk]
  · -- the acknowledgement takes no sequence space, so the page has its number
    have h0 : flagSpace TCP_CODEBITS_ACK = 0 := by decide
    have hsame : g.sent.seqNum = g.seqNum := rfl
    simp only [RepliesOk, seqNum_create, ackNum_create, space_create, List.length_nil, h0, hsame,
      add_zero, and_true]
    constructor
    · rintro ⟨h1, h2, -⟩ -
      exact ⟨h1, h2⟩
    · intro h
      obtain ⟨h1, h2⟩ := h (List.cons_ne_nil _ _)
      exact ⟨h1, h2, h1, h2⟩
  · simp [RepliesOk]
  · simp [RepliesOk]

/-- The numbers sent and `seq_num` agree until a page or a `FIN` has been sent, and after that they
differ. -/
def Inv (first : ℕ) (s : Conn) : Prop :=
  Opening s ∧ s.g.seqNum < 2 ^ 32 ∧ s.g.seqNum = first + used s ∨
  ¬ Opening s ∧ s.g.seqNum ≤ 16 ∧
    (first + used s = s.g.seqNum + 59 ∨ first + used s = s.g.seqNum + 1)

lemma inv_start {g : Globals} (h : g.seqNum < 2 ^ 32) : Inv g.seqNum ⟨g, []⟩ :=
  Or.inl ⟨by simp [Opening], h, rfl⟩

lemma used_append (g g' : Globals) (ps qs : List Packet) :
    used ⟨g, ps ++ qs⟩ = used ⟨g', ps⟩ + (qs.map space).sum := by
  simp [used]

lemma Inv.next_eq {first : ℕ} {s : Conn} (h : Inv first s) (ho : Opening s) :
    s.g.seqNum = first + used s :=
  (h.resolve_right fun h' => h'.1 ho).2.2

lemma Inv.step {first : ℕ} {s : Conn} {m : Mem} (h : Inv first s) (hp : Plain macAddr myIp s m) :
    Inv first (next macAddr myIp s m) := by
  obtain ⟨g, sent⟩ := s
  unfold Plain at hp
  unfold next
  dsimp only at hp ⊢
  rcases tcpProc_cases macAddr myIp g m with hr | hr | hr | hr <;> rw [hr] at hp ⊢
  · -- `SYN`: one number is used, and counted
    obtain ⟨-, -, hlt, hopen⟩ := hp (List.cons_ne_nil _ _)
    have heq := h.next_eq hopen
    have hsp : flagSpace (TCP_CODEBITS_ACK ||| TCP_CODEBITS_SYN) = 1 := by decide
    have hfin : (TCP_CODEBITS_ACK ||| TCP_CODEBITS_SYN) &&& TCP_CODEBITS_FIN = 0 := by decide
    refine Or.inl ⟨fun p hp => ?_, Nat.mod_lt _ (by decide), ?_⟩
    · rcases List.mem_append.mp hp with hp | hp
      · exact hopen p hp
      · obtain rfl := List.mem_singleton.mp hp
        exact ⟨rfl, hfin⟩
    · rw [used_append _ g]
      simp only [List.map_cons, List.map_nil, List.sum_singleton, space_create, List.length_nil,
        hsp]
      dsimp only at heq hlt
      omega
  · -- a page: sixty numbers are used, and one is counted
    obtain ⟨-, -, hlt, hopen⟩ := hp (List.cons_ne_nil _ _)
    have heq := h.next_eq hopen
    have hlen : httpProc.length = 60 := by decide +kernel
    have h0 : flagSpace TCP_CODEBITS_ACK = 0 := by decide
    have h1 : flagSpace (TCP_CODEBITS_ACK ||| TCP_CODEBITS_PSH) = 0 := by decide
    refine Or.inr ⟨fun ho => ?_, ?_, Or.inl ?_⟩
    · have hnil : httpProc = [] := (ho _ (List.mem_append_right _ (List.mem_cons_of_mem _
        (List.mem_singleton_self _)))).1
      rw [hnil] at hlen
      cases hlen
    · dsimp only at hlt ⊢
      omega
    · rw [used_append _ g]
      simp only [List.map_cons, List.map_nil, List.sum_cons, List.sum_nil, space_create,
        List.length_nil, h0, h1, hlen]
      dsimp only at heq hlt
      omega
  · -- `FIN`: one number is used, and none is counted
    obtain ⟨-, -, hlt, hopen⟩ := hp (List.cons_ne_nil _ _)
    have heq := h.next_eq hopen
    have hsp : flagSpace TCP_CODEBITS_FIN = 1 := by decide
    have hfin : TCP_CODEBITS_FIN &&& TCP_CODEBITS_FIN ≠ 0 := by decide
    refine Or.inr ⟨fun ho => ?_, le_of_lt hlt, Or.inr ?_⟩
    · exact hfin (ho _ (List.mem_append_right _ (List.mem_singleton_self _))).2
    · rw [used_append _ g]
      simp only [List.map_cons, List.map_nil, List.sum_singleton, space_create, List.length_nil,
        hsp]
      dsimp only [Globals.sent] at heq ⊢
      omega
  · rw [List.append_nil]
    exact h

/-- **Sequence arithmetic.** After segments of one connection that all were plain, the replies to
the next have the right numbers exactly if it is plain as well. -/
theorem sequence_numbers {c : Client} {g : Globals} {s : Conn} (hg : g.seqNum < 2 ^ 32)
    (h : Reach (PlainStep macAddr myIp c) ⟨g, []⟩ s) (m : Mem) :
    RepliesOk m g.seqNum (used s) (tcpProc macAddr myIp s.g m).2 ↔ Plain macAddr myIp s m := by
  have hinv : Inv g.seqNum s := by
    apply h.inv (inv_start hg)
    rintro s m t hs ⟨rfl, -, hp⟩
    exact hs.step hp
  rw [repliesOk_iff]
  refine forall_congr' fun _ => ?_
  rw [and_assoc, and_congr_right_iff]
  intro _
  rw [and_congr_right_iff]
  intro _
  rcases hinv with ⟨hopen, hlt, heq⟩ | ⟨hclosed, hle, hoff⟩
  · rw [← heq, Nat.mod_eq_of_lt hlt, netUint_h2nUint_iff]
    exact ⟨fun h => ⟨h, hopen⟩, fun h => h.1⟩
  · -- `seq_num` is at most `16`, and the number shown is not the next one
    refine ⟨fun h => ?_, fun h => absurd h.2 hclosed⟩
    rw [netUint_h2nUint] at h
    omega

end Run

/-- A connection is opened, and a request of one byte answered. -/
theorem sequence_numbers_byte :
    let run := next (Vector.replicate 6 0) #v[10, 0, 1, 10]
    let s := run ⟨⟨0, 0, 0⟩, []⟩ (segment #v[10, 0, 1, 2] 1 0 TCP_CODEBITS_SYN [])
    let m := segment #v[10, 0, 1, 2] 1 (h2nUint 1) (TCP_CODEBITS_PSH ||| TCP_CODEBITS_ACK) [71]
    RepliesOk m 0 (used s) (tcpProc (Vector.replicate 6 0) #v[10, 0, 1, 10] s.g m).2 := by
  intro run s m
  have hreach : Reach (PlainStep (Vector.replicate 6 0) #v[10, 0, 1, 10] (#v[10, 0, 1, 2], 1))
      ⟨⟨0, 0, 0⟩, []⟩ s :=
    .tail .refl ⟨rfl, by decide +kernel, by decide +kernel⟩
  exact (sequence_numbers (by decide) hreach m).mpr (by decide +kernel)

/-- A request of three bytes is acknowledged up to its first byte, and the `FIN` after the page has
the number of the second byte of the page. -/
theorem request_numbers_wrong :
    let proc := tcpProc (Vector.replicate 6 0) #v[10, 0, 1, 10]
    let run := next (Vector.replicate 6 0) #v[10, 0, 1, 10]
    let seg := segment #v[10, 0, 1, 2] 1
    let s₁ := run ⟨⟨0, 0, 0⟩, []⟩ (seg 0 TCP_CODEBITS_SYN [])
    let request := seg (h2nUint 1) (TCP_CODEBITS_PSH ||| TCP_CODEBITS_ACK) [71, 69, 84]
    let s₂ := run s₁ request
    let close := seg (h2nUint 4) TCP_CODEBITS_ACK []
    segSeq request + segSpace request = 4 ∧
    (proc s₁.g request).2.map (netUint ·.tcp.ackNum) = [2, 2] ∧
    ¬ RepliesOk request 0 (used s₁) (proc s₁.g request).2 ∧
    used s₂ = 61 ∧ (proc s₂.g close).2.map (netUint ·.tcp.seqNum) = [2] ∧
    ¬ RepliesOk close 0 (used s₂) (proc s₂.g close).2 := by
  decide +kernel

end Xv6.TcpStream
