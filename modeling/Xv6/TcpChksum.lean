import Xv6.Tcp
import Xv6.Lib.OnesSum

/-!
The checksum that `tcp_pkt_create` puts into a segment.

`tcp_chksum` takes the server's own address for both addresses of the pseudo-header, leaves out the
last byte of an odd length, and brings the carries back once; `tcp_pkt_create` then adds `8`.
-/

namespace Xv6.TcpChksum

open Xv6.Net Xv6.Tcp Xv6.Lib.Bytes Xv6.Lib.OnesSum

/-! ### What the receiver computes -/

/-- The pseudo-header of a packet, with the addresses it is sent from and to. -/
def pseudoHeader (p : Packet) : List UInt8 :=
  p.ipv4.srcIp.toList ++ p.ipv4.dstIp.toList ++ [0, p.ipv4.protocol] ++
    (leBytes 2 (20 + p.payload.length)).reverse

/-- The sum of pseudo-header and segment is all ones. -/
def Verifies (p : Packet) : Prop :=
  onesSum (words (pseudoHeader p ++ (p.tcp.bytes ++ p.payload))) = 0xFFFF

instance (p : Packet) : Decidable (Verifies p) := inferInstanceAs (Decidable (_ = _))

/-! ### Sums of words -/

def ipSum (ip : Ip) : ℕ := (words ip.toList).sum

/-- The part of a payload that `tcp_chksum` reads. -/
def evenPart (bs : List UInt8) : List UInt8 := bs.take (2 * (bs.length / 2))

/-- What the byte that it does not read counts for. -/
def oddPart (bs : List UInt8) : ℕ := (words (bs.drop (2 * (bs.length / 2)))).sum

lemma words_split (bs : List UInt8) : (words bs).sum = (words (evenPart bs)).sum + oddPart bs := by
  have heven : (evenPart bs).length % 2 = 0 := by
    rw [evenPart, List.length_take]
    omega
  rw [oddPart, ← List.sum_append, ← words_append _ _ heven, evenPart, List.take_append_drop]

lemma words_leBytes_two (v : ℕ) : words (leBytes 2 v) = [netUshort v] := by
  simp only [leBytes, words, netUshort_eq, UInt8.toNat_ofNat']

lemma words_leBytes_two_reverse {v : ℕ} (h : v < 2 ^ 16) : words (leBytes 2 v).reverse = [v] := by
  simp only [leBytes, words, List.reverse_cons, List.reverse_nil, List.nil_append,
    List.cons_append, UInt8.toNat_ofNat']
  rw [List.singleton_inj]
  omega

lemma sum_words_le (bs : List UInt8) : (words bs).sum ≤ (bs.length + 1) / 2 * 65535 := by
  induction bs using words.induct with
  | case1 => simp [words]
  | case2 a =>
    have := a.toNat_lt
    simp [words]
    omega
  | case3 a b rest ih =>
    have := a.toNat_lt
    have := b.toNat_lt
    simp only [words, List.sum_cons, List.length_cons]
    omega

variable {as bs : List UInt8} {k : ℕ} {ipv4 : Ipv4Pkt}

/-- A sequence counts for what it counts for with a zero in a field, and that field. -/
lemma sum_words_field (h : as.length % 2 = 0) (v : ℕ) (bs : List UInt8) :
    (words (as ++ leBytes 2 v ++ bs)).sum =
      (words (as ++ leBytes 2 0 ++ bs)).sum + netUshort v := by
  have hsplit (w : ℕ) : (words (as ++ leBytes 2 w ++ bs)).sum =
      (words as).sum + netUshort w + (words bs).sum := by
    rw [words_append _ _ (by simp; omega), words_append _ _ h, words_leBytes_two]
    simp [add_assoc]
  have hzero : netUshort 0 = 0 := by decide
  rw [hsplit, hsplit, hzero]
  omega

lemma sum_words_tcp (t : TcpPkt) :
    (words t.bytes).sum = (words { t with chkSum := 0 }.bytes).sum + netUshort t.chkSum :=
  sum_words_field (by simp) t.chkSum (leBytes 2 t.urgentPtr)

/-- One more word of a sequence. -/
lemma words_take_succ (h : 2 * (k + 1) ≤ bs.length) :
    (words (bs.take (2 * (k + 1)))).sum = (words (bs.take (2 * k))).sum +
        ((memOf bs (k * 2)).toNat * 256 + (memOf bs (k * 2 + 1)).toNat) := by
  have h1 : 2 * k < bs.length := by omega
  have h2 : 2 * k + 1 < bs.length := by omega
  have htake : bs.take (2 * (k + 1)) = bs.take (2 * k) ++ [bs[2 * k], bs[2 * k + 1]] := by
    rw [show 2 * (k + 1) = 2 * k + 1 + 1 by omega, List.take_succ_eq_append_getElem h2,
      List.take_succ_eq_append_getElem h1, List.append_assoc]
    rfl
  have hlen : (bs.take (2 * k)).length % 2 = 0 := by
    rw [List.length_take]
    omega
  rw [htake, words_append _ _ hlen, List.sum_append]
  simp [words, memOf, Nat.mul_comm k 2, h1, h2]

/-- The loops of `tcp_chksum`, as long as the sum fits. -/
lemma addWords_memOf {c : ℕ} (h : 2 * k ≤ bs.length)
    (hlt : c + (words (bs.take (2 * k))).sum < 2 ^ 32) :
    addWords (memOf bs) k c = c + (words (bs.take (2 * k))).sum := by
  induction k with
  | zero => simp [addWords, words]
  | succ k ih =>
    rw [words_take_succ h] at hlt ⊢
    have ih := ih (by omega) (by omega)
    unfold addWords at ih ⊢
    rw [List.range_succ, List.foldl_append, List.foldl_cons, List.foldl_nil, ih, Nat.shiftLeft_eq,
      Nat.mod_eq_of_lt (by omega)]
    omega

/-- What `tcp_chksum` adds up for the segment `bs`. -/
def chkInput (myIp : Ip) (bs : List UInt8) : ℕ :=
  ipSum myIp + ipSum myIp + 6 + bs.length + (words (evenPart bs)).sum

lemma ipSum_le (ip : Ip) : ipSum ip ≤ 131070 := by
  have h := sum_words_le ip.toList
  rw [Vector.length_toList] at h
  exact h

lemma chkInput_lt (myIp : Ip) (h : 20 + bs.length < 2 ^ 16) : chkInput myIp bs < 2 ^ 32 := by
  have hip := ipSum_le myIp
  have hbs := sum_words_le (evenPart bs)
  have hlen : (evenPart bs).length ≤ bs.length := by
    rw [evenPart, List.length_take]
    omega
  have hle : ((evenPart bs).length + 1) / 2 * 65535 ≤ 32768 * 65535 := by omega
  unfold chkInput
  omega

lemma sum_words_tcpDummy {myIp : Ip} {n : ℕ} (hsrc : ipv4.srcIp = myIp) (hn : n < 2 ^ 16) :
    (words (tcpDummy myIp ipv4 (h2nUshort n))).sum = ipSum myIp + ipSum myIp + 6 + n := by
  unfold tcpDummy
  rw [words_append _ _ (by simp), words_append _ _ (by simp), words_append _ _ (by simp),
    words_leBytes_two, netUshort_h2nUshort hn, hsrc]
  simp only [List.sum_append, List.sum_singleton, ipSum]
  rfl

/-- What `tcp_chksum` returns for the segment `bs` behind a header of the server. -/
lemma tcpChksum_eq {myIp : Ip} (hsrc : ipv4.srcIp = myIp)
    (htotal : ipv4.totalLen = h2nUshort (20 + bs.length)) (hlen : 20 + bs.length < 2 ^ 16) :
    tcpChksum myIp ipv4 (memOf bs) =
      notUshort ((chkInput myIp bs + chkInput myIp bs >>> 16) % 2 ^ 32) := by
  have hn : (n2hUshort ipv4.totalLen + 2 ^ 32 - 20) % 2 ^ 16 = bs.length := by
    rw [htotal, n2hUshort_h2nUshort hlen]
    omega
  have hdummy := sum_words_tcpDummy hsrc (n := bs.length) (by omega)
  have hlt := chkInput_lt myIp hlen
  have htake : (tcpDummy myIp ipv4 (h2nUshort bs.length)).take (2 * 6) =
      tcpDummy myIp ipv4 (h2nUshort bs.length) :=
    List.take_of_length_le (by simp [tcpDummy])
  have hfirst : addWords (memOf (tcpDummy myIp ipv4 (h2nUshort bs.length))) 6 0 =
      ipSum myIp + ipSum myIp + 6 + bs.length := by
    rw [addWords_memOf (by simp [tcpDummy]) (by rw [htake, hdummy]; unfold chkInput at hlt; omega),
      htake, hdummy, zero_add]
  unfold tcpChksum
  dsimp only
  rw [hn, hfirst, n2hUshort_h2nUshort (by omega), addWords_memOf (by omega) hlt]
  rfl

/-! ### The packet that is sent -/

/-- The carry that bringing the carries back once leaves out. -/
def lostCarry (s : ℕ) : ℕ := if s % 65536 + s / 65536 < 65536 then 0 else 1

/-- What the `8` counts for: one less if the sum wraps around. -/
def correction (s : ℕ) : ℕ := if 8 ≤ (s + s / 65536) % 65536 then 8 else 7

/-- The wrong address, the missing byte, the missing carry and the constant cancel out. -/
def Corrected (myIp peer : Ip) (s odd : ℕ) : Prop :=
  (ipSum peer + odd + (lostCarry s + correction s)) % 65535 = ipSum myIp % 65535

instance (myIp peer : Ip) (s odd : ℕ) : Decidable (Corrected myIp peer s odd) :=
  inferInstanceAs (Decidable (_ = _))

/-- A checksum `c` that complements `f` and has `8` added. -/
lemma complement_add {f : ℕ} (hf : f < 65536) :
    (f + (65535 - f + 8) % 2 ^ 16) % 65535 = if 8 ≤ f then 8 else 7 := by
  by_cases h8 : 8 ≤ f
  · rw [if_pos h8]
    have hc : (65535 - f + 8) % 2 ^ 16 = 65543 - f := by omega
    omega
  · rw [if_neg h8]
    have hc : (65535 - f + 8) % 2 ^ 16 = 7 - f := by omega
    omega

/-- What the sum and the checksum made from it amount to. -/
lemma sum_chksum {s : ℕ} (h : s < 2 ^ 32) :
    (s + (notUshort ((s + s >>> 16) % 2 ^ 32) + 8) % 2 ^ 16) % 65535 =
      (lostCarry s + correction s) % 65535 := by
  have hhigh : s >>> 16 = s / 65536 := Nat.shiftRight_eq_div_pow ..
  have hf : (s + s / 65536) % 65536 < 65536 := Nat.mod_lt _ (by decide)
  have hnot : notUshort ((s + s >>> 16) % 2 ^ 32) = 65535 - (s + s / 65536) % 65536 := by
    rw [hhigh, notUshort]
    omega
  have hsum : s % 65535 = ((s + s / 65536) % 65536 + lostCarry s) % 65535 := by
    unfold lostCarry
    split_ifs with hc
    · have : (s + s / 65536) % 65536 = s % 65536 + s / 65536 := by omega
      omega
    · have : (s + s / 65536) % 65536 = s % 65536 + s / 65536 - 65536 := by omega
      omega
  have hadd := complement_add hf
  rw [hnot]
  unfold correction
  generalize (s + s / 65536) % 65536 = f at *
  generalize (65535 - f + 8) % 2 ^ 16 = c at *
  rw [← hadd]
  omega

lemma oddPart_append (h : as.length % 2 = 0) : oddPart (as ++ bs) = oddPart bs := by
  have hdrop : 2 * ((as ++ bs).length / 2) = as.length + 2 * (bs.length / 2) := by
    rw [List.length_append]
    omega
  rw [oddPart, oddPart, hdrop, List.drop_append, List.drop_eq_nil_of_le (by omega),
    List.nil_append, Nat.add_sub_cancel_left]

section Create

variable {macAddr : Mac} {myIp : Ip} {g : Globals} {m : Mem} {pktType : UInt8}
  {payload : List UInt8}

/-- The segment before its checksum is stored. -/
def unsigned (p : Packet) : List UInt8 := { p.tcp with chkSum := 0 }.bytes ++ p.payload

variable (macAddr myIp g m pktType) in
lemma chkSum_create (h : 40 + payload.length < 2 ^ 16) :
    let p := tcpPktCreate macAddr myIp g m pktType payload
    let s := chkInput myIp (unsigned p)
    netUshort p.tcp.chkSum = (notUshort ((s + s >>> 16) % 2 ^ 32) + 8) % 2 ^ 16 := by
  intro p s
  have hlen : (unsigned p).length = 20 + payload.length := by
    rw [unsigned, List.length_append, TcpPkt.length_bytes]
    rfl
  have htotal : p.ipv4.totalLen = h2nUshort (20 + (unsigned p).length) := by
    rw [hlen, ← Nat.add_assoc, ← Nat.mod_eq_of_lt h]
    rfl
  have hchk := tcpChksum_eq (show p.ipv4.srcIp = myIp from rfl) htotal (by omega)
  have hfield : p.tcp.chkSum =
      h2nUshort ((tcpChksum myIp p.ipv4 (memOf (unsigned p)) + 8) % 2 ^ 16) := rfl
  rw [hfield, netUshort_h2nUshort (Nat.mod_lt _ (by decide)), hchk]

variable (macAddr myIp g m pktType) in
lemma sum_pseudoHeader (h : 40 + payload.length < 2 ^ 16) :
    (words (pseudoHeader (tcpPktCreate macAddr myIp g m pktType payload))).sum =
      ipSum myIp + ipSum (ipv4PktAt m 14).srcIp + 6 + (20 + payload.length) := by
  unfold pseudoHeader
  rw [words_append _ _ (by simp), words_append _ _ (by simp), words_append _ _ (by simp),
    words_leBytes_two_reverse (by change 20 + payload.length < 2 ^ 16; omega)]
  simp only [List.sum_append, List.sum_singleton, ipSum]
  rfl

/-- **The checksum** is right exactly if what `tcp_chksum` gets wrong cancels out. -/
theorem checksum_verifies_iff (h : 40 + payload.length < 2 ^ 16) :
    Verifies (tcpPktCreate macAddr myIp g m pktType payload) ↔ Corrected myIp (ipv4PktAt m 14).srcIp
        (chkInput myIp (unsigned (tcpPktCreate macAddr myIp g m pktType payload)))
        (oddPart payload) := by
  set p := tcpPktCreate macAddr myIp g m pktType payload
  have hpseudo := sum_pseudoHeader macAddr myIp g m pktType h
  have hchk : netUshort p.tcp.chkSum = _ := chkSum_create macAddr myIp g m pktType h
  have hlen : (unsigned p).length = 20 + payload.length := by simp [unsigned, p, tcpPktCreate]
  have hodd : oddPart (unsigned p) = oddPart payload := oddPart_append (by simp)
  have hsum := sum_chksum (chkInput_lt myIp (show 20 + (unsigned p).length < 2 ^ 16 by omega))
  have hbytes : (words (unsigned p)).sum + netUshort p.tcp.chkSum =
      (words (p.tcp.bytes ++ p.payload)).sum := by
    rw [unsigned, words_append _ _ (by simp), words_append _ _ (by simp), List.sum_append,
      List.sum_append, sum_words_tcp p.tcp]
    exact Nat.add_right_comm ..
  have hsplit := words_split (unsigned p)
  rw [Verifies, onesSum_eq_ones_iff (words_le _), words_append _ _ (by simp [pseudoHeader]),
    List.sum_append, ← hbytes, hsplit, hodd, Corrected, hpseudo, hchk]
  have hinput : chkInput myIp (unsigned p) = ipSum myIp + ipSum myIp + 6 + (20 + payload.length) +
      (words (evenPart (unsigned p))).sum := by
    rw [chkInput, hlen]
  generalize (notUshort _ + 8) % 2 ^ 16 = c at *
  generalize lostCarry _ + correction _ = k at *
  omega

end Create

/-- From `10.0.1.10` to `10.0.1.2` the addresses differ by the constant. -/
theorem checksum_verifies_neighbour :
    Verifies (tcpPktCreate (Vector.replicate 6 0) #v[10, 0, 1, 10] ⟨0, 0, 0⟩
      (segment #v[10, 0, 1, 2] 1 0 TCP_CODEBITS_SYN []) (TCP_CODEBITS_ACK ||| TCP_CODEBITS_SYN)
      []) :=
  (checksum_verifies_iff (by decide)).mpr (by decide +kernel)

/-- To `10.0.1.3` the same answer does not verify, and neither does an odd payload to `10.0.1.2`. -/
theorem checksum_fails :
    let create (peer : Ip) (payload : List UInt8) :=
      tcpPktCreate (Vector.replicate 6 0) #v[10, 0, 1, 10] ⟨0, 0, 0⟩
        (segment peer 1 0 TCP_CODEBITS_SYN []) (TCP_CODEBITS_ACK ||| TCP_CODEBITS_SYN) payload
    ¬ Verifies (create #v[10, 0, 1, 3] []) ∧ ¬ Verifies (create #v[10, 0, 1, 2] [72]) := by
  decide +kernel

end Xv6.TcpChksum
