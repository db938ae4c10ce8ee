import Xv6.TcpChksum

/-!
ICMP, `icmp.c`: the checksums of the IP header and of an echo message, and the answer to an echo
request.

The two checksums bring a carry back as soon as it appears; the textbook brings back the carries of
the whole sum at the end.
-/

namespace Xv6.Icmp

open Xv6.Net Xv6.Tcp Xv6.TcpChksum Xv6.Lib.Bytes Xv6.Lib.OnesSum

def ICMP_TYPE_ECHO_REQUEST : UInt8 := 0x8
def ICMP_TYPE_ECHO_REPLY : UInt8 := 0x0

structure IcmpEchoPkt where
  type : UInt8
  code : UInt8
  chkSum : ℕ
  id : ℕ
  seqNum : ℕ
  timeStamp : Vector UInt8 8
  data : Vector UInt8 48
  deriving DecidableEq

def icmpEchoPktAt (m : Mem) (a : ℕ) : IcmpEchoPkt where
  type := m a
  code := m (a + 1)
  chkSum := ushortAt m (a + 2)
  id := ushortAt m (a + 4)
  seqNum := ushortAt m (a + 6)
  timeStamp := bytesAt m (a + 8) 8
  data := bytesAt m (a + 16) 48

def IcmpEchoPkt.bytes (p : IcmpEchoPkt) : List UInt8 :=
  [p.type, p.code] ++ leBytes 2 p.chkSum ++
    (leBytes 2 p.id ++ leBytes 2 p.seqNum ++ p.timeStamp.toList ++ p.data.toList)

def icmpChksum (bin : Mem) : ℕ :=
  notUshort <| (List.range 32).foldl (fun chkSum i =>
    let chkSum := chkSum + (((bin (i * 2)).toNat <<< 8) + (bin (i * 2 + 1)).toNat)
    if chkSum > 0xFFFF then (chkSum &&& 0xFFFF) + 1 else chkSum) 0

/-- The frame of an answer, of `send_size` bytes. -/
structure Reply where
  eth : EthPkt
  ipv4 : Ipv4Pkt
  icmp : IcmpEchoPkt
  deriving DecidableEq

/-- Where the message of the frame received is, behind the header with its options. -/
def icmpAddr (m : Mem) : ℕ := 14 + ((ipv4PktAt m 14).ver &&& 0xF).toNat * 4

def icmpRecv (m : Mem) : IcmpEchoPkt := icmpEchoPktAt m (icmpAddr m)

section Proc

variable (macAddr : Mac) (myIp : Ip)

/-- It also increments `send_id`. -/
def icmpReplyPktCreate (sendId : ℕ) (m : Mem) : Reply :=
  let ipv4 : Ipv4Pkt :=
    { ver := ((0x4 : UInt8) <<< 4) + (((20 : UInt8) / 4) &&& 0xF)
      srvType := 0
      totalLen := h2nUshort (20 + 64)
      id := sendId
      fragment := h2nUshort 0x4000
      ttl := 255
      protocol := 0x1
      srcIp := myIp
      dstIp := (ipv4PktAt m 14).srcIp
      chkSum := 0 }
  let icmp : IcmpEchoPkt :=
    { type := ICMP_TYPE_ECHO_REPLY
      code := 0
      id := (icmpRecv m).id
      seqNum := (icmpRecv m).seqNum
      timeStamp := (icmpRecv m).timeStamp
      data := (icmpRecv m).data
      chkSum := 0 }
  { eth := ⟨(ethPktAt m 0).srcMac, macAddr, ethIpv4⟩
    ipv4 := { ipv4 with chkSum := h2nUshort (ipv4Chksum (memOf ipv4.bytes)) }
    icmp := { icmp with chkSum := h2nUshort (icmpChksum (memOf icmp.bytes)) } }

/-- The `send_id` that `icmp_proc` leaves and the packet it hands to `i8254_send`. -/
def icmpProc (sendId : ℕ) (m : Mem) : ℕ × Option Reply :=
  if (icmpRecv m).code = 0 ∧ (icmpRecv m).type = ICMP_TYPE_ECHO_REQUEST then
    ((sendId + 1) % 2 ^ 16, some (icmpReplyPktCreate macAddr myIp sendId m))
  else (sendId, none)

end Proc

/-! ### Checksums -/

/-- The loop of both checksums adds in ones' complement. -/
lemma foldl_words (bin : Mem) (k : ℕ) :
    (List.range k).foldl (fun chkSum i =>
      let chkSum := chkSum + (((bin (i * 2)).toNat <<< 8) + (bin (i * 2 + 1)).toNat)
      if chkSum > 0xFFFF then (chkSum &&& 0xFFFF) + 1 else chkSum) 0 =
    endAround (words (bytesAt bin 0 (2 * k)).toList).sum := by
  rw [← onesSum_eq (words_le _)]
  induction k with
  | zero => rfl
  | succ k ih =>
    have hbytes : (bytesAt bin 0 (2 * (k + 1))).toList =
        (bytesAt bin 0 (2 * k)).toList ++ [bin (k * 2), bin (k * 2 + 1)] := by
      simp only [bytesAt, Vector.toList_ofFn, Nat.zero_add, Nat.mul_comm k 2]
      exact (List.ofFn_succ_last).trans
        (by rw [List.ofFn_succ_last, List.append_assoc]; rfl)
    rw [List.range_succ, List.foldl_append, ih, hbytes, words_append _ _ (by simp), onesSum,
      onesSum, List.foldl_append]
    simp only [List.foldl_cons, List.foldl_nil, words, add, Nat.shiftLeft_eq]
    rw [Nat.and_two_pow_sub_one_eq_mod _ 16]

/-- The bytes of the header at the start of a buffer, as long as its first byte says. -/
def headerBytes (m : Mem) : List UInt8 := (bytesAt m 0 ((m 0).toNat % 16 * 4)).toList

/-- The receiver's test: the sum of all words, the checksum among them, is all ones. -/
def SumsUp (bs : List UInt8) : Prop := endAround (words bs).sum = 0xFFFF

lemma notUshort_endAround (s : ℕ) : notUshort (endAround s) = 0xFFFF - endAround s := by
  have h := (endAround_spec s).1
  unfold notUshort
  omega

lemma ipv4Chksum_eq (m : Mem) : ipv4Chksum m = 0xFFFF - endAround (words (headerBytes m)).sum := by
  have hmask : (m 0).toNat &&& 0xF = (m 0).toNat % 16 := Nat.and_two_pow_sub_one_eq_mod _ 4
  have hlen : 2 * ((m 0).toNat % 16 * 2) = (m 0).toNat % 16 * 4 := by omega
  rw [ipv4Chksum, hmask, foldl_words, notUshort_endAround, hlen, headerBytes]

lemma icmpChksum_eq (m : Mem) :
    icmpChksum m = 0xFFFF - endAround (words (bytesAt m 0 64).toList).sum := by
  rw [icmpChksum, foldl_words, notUshort_endAround]

lemma bytesAt_memOf {bs : List UInt8} {n : ℕ} (h : bs.length = n) :
    (bytesAt (memOf bs) 0 n).toList = bs := by
  subst h
  refine List.ext_getElem (by simp) fun i h1 h2 => ?_
  simp [bytesAt, memOf]

/-- A checksum that complements the sum of the rest makes the message verify. -/
lemma sumsUp_of_field (as bs : List UInt8) (h : as.length % 2 = 0) :
    SumsUp (as ++ leBytes 2 (h2nUshort
      (0xFFFF - endAround (words (as ++ leBytes 2 0 ++ bs)).sum)) ++ bs) := by
  rw [SumsUp, sum_words_field h, netUshort_h2nUshort (by omega)]
  exact endAround_complement _

/-- A header of five words with the checksum that is made for it. -/
lemma sumsUp_ipv4 {p : Ipv4Pkt} (hver : p.ver = 0x45) (hzero : p.chkSum = 0) :
    SumsUp { p with chkSum := h2nUshort (ipv4Chksum (memOf p.bytes)) }.bytes := by
  have hhead : headerBytes (memOf p.bytes) = p.bytes := by
    have hfirst : memOf p.bytes 0 = 0x45 := hver
    rw [headerBytes, hfirst]
    exact bytesAt_memOf p.length_bytes
  rw [ipv4Chksum_eq, hhead]
  have hfield := sumsUp_of_field ([p.ver, p.srvType] ++ leBytes 2 p.totalLen ++
    leBytes 2 p.id ++ leBytes 2 p.fragment ++ [p.ttl, p.protocol])
    (p.srcIp.toList ++ p.dstIp.toList) (by simp)
  simpa only [Ipv4Pkt.bytes, hzero, List.append_assoc] using hfield

lemma sumsUp_icmp {p : IcmpEchoPkt} (hzero : p.chkSum = 0) :
    SumsUp { p with chkSum := h2nUshort (icmpChksum (memOf p.bytes)) }.bytes := by
  obtain ⟨type, code, chkSum, id, seqNum, timeStamp, data⟩ := p
  obtain rfl : chkSum = 0 := hzero
  rw [icmpChksum_eq, bytesAt_memOf (by simp [IcmpEchoPkt.bytes])]
  exact sumsUp_of_field [type, code] _ (by simp)

/-- **The checksums** of IP headers and echo messages are those of the textbook, and what is built
with them verifies. -/
theorem checksums_verify :
    (∀ m, ipv4Chksum m = 0xFFFF - endAround (words (headerBytes m)).sum) ∧
    (∀ m, icmpChksum m = 0xFFFF - endAround (words (bytesAt m 0 64).toList).sum) ∧
    (∀ macAddr myIp sendId m, SumsUp (icmpReplyPktCreate macAddr myIp sendId m).ipv4.bytes ∧
      SumsUp (icmpReplyPktCreate macAddr myIp sendId m).icmp.bytes) ∧
    ∀ macAddr myIp g m pktType payload,
      SumsUp (tcpPktCreate macAddr myIp g m pktType payload).ipv4.bytes :=
  ⟨ipv4Chksum_eq, icmpChksum_eq, fun _ _ _ _ => ⟨sumsUp_ipv4 rfl rfl, sumsUp_icmp rfl⟩,
    fun _ _ _ _ _ _ => sumsUp_ipv4 rfl rfl⟩

/-! ### Echo -/

/-- The length of the message in the frame `m`, after its own header of eight bytes. -/
def payloadLen (m : Mem) : ℕ := netUshort (ipv4PktAt m 14).totalLen + 14 - icmpAddr m - 8

/-- The bytes that an echo request asks for. -/
def payload (m : Mem) : List UInt8 := (bytesAt m (icmpAddr m + 8) (payloadLen m)).toList

/-- A frame of `n` bytes is an echo request: its headers and the length it states lie within it. -/
structure EchoRequest (m : Mem) (n : ℕ) : Prop where
  eth : (ethPktAt m 0).type = #v[0x08, 0x00]
  version : (ipv4PktAt m 14).ver.toNat / 16 = 4
  header : 34 ≤ icmpAddr m
  protocol : (ipv4PktAt m 14).protocol = 0x1
  total : icmpAddr m + 8 ≤ netUshort (ipv4PktAt m 14).totalLen + 14
  within : netUshort (ipv4PktAt m 14).totalLen + 14 ≤ n
  type : (icmpRecv m).type = ICMP_TYPE_ECHO_REQUEST
  code : (icmpRecv m).code = 0

/-- The answer goes back to the sender, as a reply to the same request. -/
structure Answers (m : Mem) (r : Reply) : Prop where
  mac : r.eth.dstMac = (ethPktAt m 0).srcMac
  ip : r.ipv4.dstIp = (ipv4PktAt m 14).srcIp
  type : r.icmp.type = ICMP_TYPE_ECHO_REPLY
  id : r.icmp.id = (icmpRecv m).id
  seqNum : r.icmp.seqNum = (icmpRecv m).seqNum

/-- It carries what was asked for, and says so. -/
structure Echoes (m : Mem) (r : Reply) : Prop where
  payload : r.icmp.timeStamp.toList ++ r.icmp.data.toList = payload m
  total : netUshort r.ipv4.totalLen = 20 + 8 + payloadLen m

lemma Echoes.payloadLen {m : Mem} {r : Reply} (h : Echoes m r) : payloadLen m = 56 := by
  simpa [Icmp.payload] using (congrArg List.length h.payload).symm

lemma toList_bytesAt_append (m : Mem) (a k n : ℕ) :
    (bytesAt m a k).toList ++ (bytesAt m (a + k) n).toList = (bytesAt m a (k + n)).toList := by
  refine List.ext_getElem (by simp) fun i h1 h2 => ?_
  simp only [bytesAt, Vector.toList_ofFn, List.getElem_append, List.getElem_ofFn, List.length_ofFn]
  split_ifs with h
  · rfl
  · congr 1
    omega

/-- **The answer to an echo request** is always of the same length, so it mirrors the request
exactly if that has a payload of 56 bytes. -/
theorem echo_reply_mirrors_iff {m : Mem} {n : ℕ} (macAddr : Mac) (myIp : Ip) (sendId : ℕ)
    (h : EchoRequest m n) :
    ∃ r, (icmpProc macAddr myIp sendId m).2 = some r ∧ Answers m r ∧
      (Echoes m r ↔ payloadLen m = 56) := by
  have hproc : icmpProc macAddr myIp sendId m = (_, some _) := if_pos ⟨h.code, h.type⟩
  refine ⟨_, congrArg Prod.snd hproc, ⟨rfl, rfl, rfl, rfl, rfl⟩, Echoes.payloadLen, fun hlen => ?_⟩
  constructor
  · rw [payload, hlen]
    exact toList_bytesAt_append m (icmpAddr m + 8) 8 48
  · rw [hlen]
    exact netUshort_h2nUshort (by decide)

/-- A request with the payload `bs` and no options. -/
def request (bs : List UInt8) : List UInt8 :=
  List.replicate 12 0 ++ [0x08, 0x00] ++ [0x45, 0] ++ (leBytes 2 (28 + bs.length)).reverse ++
    [0, 1, 0, 0, 64, 1, 0, 0, 10, 0, 1, 2, 10, 0, 1, 10] ++ [8, 0, 0, 0, 0, 1, 0, 1] ++ bs

/-- A `ping` with its 56 bytes. -/
theorem echo_reply_mirrors_ping :
    let m := memOf (request (List.replicate 56 7))
    ∃ r, (icmpProc (Vector.replicate 6 0) #v[10, 0, 1, 10] 0 m).2 = some r ∧ Echoes m r := by
  intro m
  have hreq : EchoRequest m 98 := by constructor <;> decide +kernel
  obtain ⟨r, hr, -, he⟩ := echo_reply_mirrors_iff (Vector.replicate 6 0) #v[10, 0, 1, 10] 0 hreq
  exact ⟨r, hr, he.mpr (by decide +kernel)⟩

/-- A request without a payload is answered with 56 bytes of whatever follows it in the buffer, and
one with 57 bytes loses the last. -/
theorem echo_reply_other_lengths :
    let m₁ := memOf (request [] ++ List.replicate 56 0xAA)
    let m₂ := memOf (request (List.replicate 57 7))
    EchoRequest m₁ 42 ∧ EchoRequest m₂ 99 ∧ ∀ m ∈ [m₁, m₂],
      ∃ r, (icmpProc (Vector.replicate 6 0) #v[10, 0, 1, 10] 0 m).2 = some r ∧ ¬ Echoes m r := by
  refine ⟨by constructor <;> decide +kernel, by constructor <;> decide +kernel, ?_⟩
  intro m hm
  rcases List.mem_pair.mp hm with rfl | rfl
  · exact ⟨_, rfl, fun he => absurd he.payloadLen (by decide +kernel)⟩
  · exact ⟨_, rfl, fun he => absurd he.payloadLen (by decide +kernel)⟩

end Xv6.Icmp
