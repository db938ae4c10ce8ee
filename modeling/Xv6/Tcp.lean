import Xv6.Net
import Xv6.Lib.Run

/-!
The TCP server, `tcp.c` and `http.c`: what is sent in answer to a segment, and the state that the
server keeps for all its clients together.
-/

namespace Xv6.Tcp

open Xv6.Net Xv6.Lib.Bytes Xv6.Lib.Run

def TCP_CODEBITS_ACK : UInt8 := 0x10
def TCP_CODEBITS_PSH : UInt8 := 0x8
def TCP_CODEBITS_SYN : UInt8 := 0x2
def TCP_CODEBITS_FIN : UInt8 := 0x1
def IPV4_TYPE_TCP : UInt8 := 0x6

/-- `seq_num`, `fin_flag` and `send_id`. -/
structure Globals where
  seqNum : ℕ
  finFlag : ℕ
  sendId : ℕ
  deriving DecidableEq

structure Packet where
  eth : EthPkt
  ipv4 : Ipv4Pkt
  tcp : TcpPkt
  payload : List UInt8
  deriving DecidableEq

/-- `~v` as a `ushort`, for a `uint` `v`. -/
def notUshort (v : ℕ) : ℕ := (2 ^ 32 - 1 - v) % 2 ^ 16

def ipv4Chksum (bin : Mem) : ℕ :=
  let len := ((bin 0).toNat &&& 0xF) * 2
  notUshort <| (List.range len).foldl (fun chkSum i =>
    let chkSum := chkSum + (((bin (i * 2)).toNat <<< 8) + (bin (i * 2 + 1)).toNat)
    if chkSum > 0xFFFF then (chkSum &&& 0xFFFF) + 1 else chkSum) 0

/-- The loops of `tcp_chksum`: the next `n` words are added. -/
def addWords (bin : Mem) (n chkSum : ℕ) : ℕ :=
  (List.range n).foldl (fun chkSum i =>
    (chkSum + (((bin (i * 2)).toNat <<< 8) + (bin (i * 2 + 1)).toNat)) % 2 ^ 32) chkSum

/-- Memory that holds a list of bytes. -/
def memOf (bs : List UInt8) : Mem := fun i => bs.getD i 0

/-- `struct tcp_dummy`, as `tcp_chksum` fills it in. -/
def tcpDummy (myIp : Ip) (ipv4 : Ipv4Pkt) (tcpLen : ℕ) : List UInt8 :=
  myIp.toList ++ ipv4.srcIp.toList ++ [0, IPV4_TYPE_TCP] ++ leBytes 2 tcpLen

/-- `tcp_chksum` of the segment at `bin`, which follows the header `ipv4`. -/
def tcpChksum (myIp : Ip) (ipv4 : Ipv4Pkt) (bin : Mem) : ℕ :=
  let tcpLen := h2nUshort ((n2hUshort ipv4.totalLen + 2 ^ 32 - 20) % 2 ^ 16)
  let chkSum := addWords (memOf (tcpDummy myIp ipv4 tcpLen)) 6 0
  let chkSum := addWords bin (n2hUshort tcpLen / 2) chkSum
  notUshort ((chkSum + chkSum >>> 16) % 2 ^ 32)

/-- What `http_strcpy` copies. -/
def httpStrcpy (src : String) : List UInt8 := src.toList.map fun c => .ofNat c.toNat

/-- What `http_proc` writes; it also calls `tcp_fin`. -/
def httpProc : List UInt8 :=
  httpStrcpy "HTTP/1.0 200 OK \r\n" ++ httpStrcpy "Content-Type: text/html \r\n" ++
    httpStrcpy "\r\nHello World!\r\n"

/-- The header of the segment received, after that of `ipv4_pkt` with its options. -/
def tcpRecv (m : Mem) : TcpPkt := tcpPktAt m (14 + (((ipv4PktAt m 14).ver &&& 0xF).toNat * 4))

section Proc

variable (macAddr : Mac) (myIp : Ip)

/-- `tcp_pkt_create` in answer to the frame `m`. It increments `send_id`; the payload is in the
buffer already. -/
def tcpPktCreate (g : Globals) (m : Mem) (pktType : UInt8) (payload : List UInt8) : Packet :=
  let recv := tcpRecv m
  let ipv4 : Ipv4Pkt :=
    { ver := ((0x4 : UInt8) <<< 4) + (((20 : UInt8) / 4) &&& 0xF)
      srvType := 0
      totalLen := h2nUshort ((20 + 20 + payload.length) % 2 ^ 16)
      id := g.sendId
      fragment := h2nUshort 0x0000
      ttl := 255
      protocol := IPV4_TYPE_TCP
      chkSum := 0
      srcIp := myIp
      dstIp := (ipv4PktAt m 14).srcIp }
  let ipv4 := { ipv4 with chkSum := h2nUshort (ipv4Chksum (memOf ipv4.bytes)) }
  let tcp : TcpPkt :=
    { srcPort := recv.dstPort
      dstPort := recv.srcPort
      seqNum := h2nUint g.seqNum
      ackNum := (recv.seqNum + 1 <<< (8 * 3)) % 2 ^ 32
      codeBits := #v[(5 : UInt8) <<< 4, pktType]
      window := h2nUshort 14480
      urgentPtr := 0
      chkSum := 0 }
  let chkSum := tcpChksum myIp ipv4 (memOf (tcp.bytes ++ payload))
  { eth := ⟨(ethPktAt m 0).srcMac, macAddr, ethIpv4⟩
    ipv4 := ipv4
    tcp := { tcp with chkSum := h2nUshort ((chkSum + 8) % 2 ^ 16) }
    payload := payload }

/-- `send_id++` -/
def Globals.sent (g : Globals) : Globals := { g with sendId := (g.sendId + 1) % 2 ^ 16 }

/-- `tcp_proc`: the state it leaves and the packets it hands to `i8254_send`. A segment with the
flags `PSH` and `ACK` is answered the same way whether its payload starts with `GET` or not. -/
def tcpProc (g : Globals) (m : Mem) : Globals × List Packet :=
  let flags := (tcpRecv m).codeBits[1]
  let create (g : Globals) := tcpPktCreate macAddr myIp g m
  if flags &&& TCP_CODEBITS_SYN ≠ 0 then
    ({ g.sent with seqNum := (g.seqNum + 1) % 2 ^ 32 },
      [create g (TCP_CODEBITS_ACK ||| TCP_CODEBITS_SYN) []])
  else if flags = TCP_CODEBITS_PSH ||| TCP_CODEBITS_ACK then
    ({ g.sent.sent with seqNum := (g.seqNum + 1) % 2 ^ 32, finFlag := 1 },
      [create g TCP_CODEBITS_ACK [],
       create g.sent (TCP_CODEBITS_ACK ||| TCP_CODEBITS_PSH) httpProc])
  else if flags = TCP_CODEBITS_ACK then
    if g.finFlag = 1 then
      ({ g.sent with finFlag := 0 }, [create g TCP_CODEBITS_FIN []])
    else (g, [])
  else (g, [])

end Proc

/-! ### Several clients -/

/-- The address and port of a client. -/
abbrev Client := Ip × ℕ

def client (m : Mem) : Client := ((ipv4PktAt m 14).srcIp, (tcpRecv m).srcPort)

/-- The client a packet is sent to. -/
def Packet.client (p : Packet) : Client := (p.ipv4.dstIp, p.tcp.dstPort)

/-- A packet without its identification and the checksum of its IP header. -/
def Packet.view (p : Packet) : Packet :=
  { p with ipv4 := { p.ipv4 with id := 0, chkSum := 0 } }

section Clients

variable {macAddr : Mac} {myIp : Ip}

variable {g : Globals} {m : Mem} {c : Client}

lemma tcpProc_client {p : Packet} (h : p ∈ (tcpProc macAddr myIp g m).2) : p.client = client m := by
  unfold tcpProc at h
  dsimp only at h
  split_ifs at h
  all_goals
    simp only [List.mem_cons, List.not_mem_nil, or_false] at h
  · rw [h]; rfl
  · rcases h with h | h <;> rw [h] <;> rfl
  · rw [h]; rfl

/-- What an answer depends on: `H2N_uint` uses twelve bits of `seq_num`. -/
def Globals.key (g : Globals) : ℕ × ℕ := (g.seqNum % 2 ^ 12, g.finFlag)

lemma h2nUint_mod {v w : ℕ} (h : v % 2 ^ 12 = w % 2 ^ 12) : h2nUint v = h2nUint w := by
  have h0 : v % 16 = w % 16 := by omega
  have h1 : v / 16 % 16 = w / 16 % 16 := by omega
  have h2 : v / 256 % 16 = w / 256 % 16 := by omega
  rw [h2nUint_eq, h2nUint_eq, h0, h1, h2]

lemma tcpPktCreate_view {g' : Globals} (h : g.seqNum % 2 ^ 12 = g'.seqNum % 2 ^ 12) (m : Mem)
    (pktType : UInt8) (payload : List UInt8) :
    (tcpPktCreate macAddr myIp g m pktType payload).view =
      (tcpPktCreate macAddr myIp g' m pktType payload).view := by
  have hseq := h2nUint_mod h
  unfold tcpPktCreate Packet.view tcpChksum tcpDummy
  dsimp only
  rw [hseq]

/-- Two servers that agree on what answers depend on answer alike, and agree afterwards. -/
lemma tcpProc_congr (macAddr : Mac) (myIp : Ip) {g' : Globals} (h : g.key = g'.key) (m : Mem) :
    (tcpProc macAddr myIp g m).2.map Packet.view = (tcpProc macAddr myIp g' m).2.map Packet.view ∧
      (tcpProc macAddr myIp g m).1.key = (tcpProc macAddr myIp g' m).1.key := by
  obtain ⟨hseq, hfin⟩ := Prod.mk.inj h
  have hnext : (g.seqNum + 1) % 2 ^ 32 % 2 ^ 12 = (g'.seqNum + 1) % 2 ^ 32 % 2 ^ 12 := by omega
  unfold tcpProc
  dsimp only
  rw [hfin]
  split_ifs
  · exact ⟨by simp [tcpPktCreate_view hseq], Prod.ext hnext hfin⟩
  · have hsent : g.sent.seqNum % 2 ^ 12 = g'.sent.seqNum % 2 ^ 12 := hseq
    exact ⟨by simp [tcpPktCreate_view hseq, tcpPktCreate_view hsent], Prod.ext hnext rfl⟩
  · exact ⟨by simp [tcpPktCreate_view hseq], Prod.ext hseq rfl⟩
  · exact ⟨rfl, h⟩
  · exact ⟨rfl, h⟩

variable (macAddr myIp) in
/-- The frames received are processed one after the other. -/
def tcpRun (g : Globals) : List Mem → Globals × List Packet
  | [] => (g, [])
  | m :: ms =>
    let r := tcpProc macAddr myIp g m
    let q := tcpRun r.1 ms
    (q.1, r.2 ++ q.2)

variable (macAddr myIp) in
/-- Each segment of the client `c` finds `fin_flag` and the twelve bits of `seq_num` as the last
segment of `c` left them; `left` is what that was. -/
def Undisturbed (c : Client) (g : Globals) (left : ℕ × ℕ) : List Mem → Prop
  | [] => True
  | m :: ms =>
    let g' := (tcpProc macAddr myIp g m).1
    if client m = c then g.key = left ∧ Undisturbed c g' g'.key ms
    else Undisturbed c g' left ms

instance decidableUndisturbed (macAddr : Mac) (myIp : Ip) (c : Client) (g : Globals)
    (left : ℕ × ℕ) : (ms : List Mem) → Decidable (Undisturbed macAddr myIp c g left ms)
  | [] => .isTrue trivial
  | m :: ms =>
    have := decidableUndisturbed macAddr myIp c (tcpProc macAddr myIp g m).1
      (tcpProc macAddr myIp g m).1.key ms
    have := decidableUndisturbed macAddr myIp c (tcpProc macAddr myIp g m).1 left ms
    inferInstanceAs (Decidable (if client m = c then _ ∧ _ else _))

/-- The segments of other clients get no answer that goes to `c`. -/
lemma filter_tcpProc_other (h : client m ≠ c) :
    (tcpProc macAddr myIp g m).2.filter (·.client = c) = [] := by
  rw [List.filter_eq_nil_iff]
  intro p hp
  rw [tcpProc_client hp]
  simpa using h

lemma filter_tcpProc_self (h : client m = c) :
    (tcpProc macAddr myIp g m).2.filter (·.client = c) = (tcpProc macAddr myIp g m).2 := by
  rw [List.filter_eq_self]
  intro p hp
  rw [tcpProc_client hp]
  simpa using h

/-- A client is answered as by a server that is in the state its own last segment left and gets
its segments alone. -/
lemma tcpRun_filter (ms : List Mem) (g a : Globals) (h : Undisturbed macAddr myIp c g a.key ms) :
    ((tcpRun macAddr myIp g ms).2.filter (·.client = c)).map Packet.view =
      (tcpRun macAddr myIp a (ms.filter (client · = c))).2.map Packet.view := by
  induction ms generalizing g a with
  | nil => rfl
  | cons m ms ih =>
    rw [Undisturbed] at h
    rw [tcpRun, List.filter_append, List.map_append]
    by_cases hm : client m = c
    · rw [if_pos hm] at h
      obtain ⟨hsame, hafter⟩ := tcpProc_congr macAddr myIp h.1 m
      rw [filter_tcpProc_self hm, List.filter_cons_of_pos (by simpa using hm), tcpRun,
        List.map_append, hsame, ih _ _ (hafter ▸ h.2)]
    · rw [if_neg hm] at h
      rw [filter_tcpProc_other hm, List.filter_cons_of_neg (by simpa using hm), List.map_nil,
        List.nil_append, ih _ _ h]

/-- **Connections do not interfere** as long as the segments of others leave `fin_flag` and the
twelve bits of `seq_num` that answers show alone: what is sent to a client is what would be sent to
it if only its own segments had been received. -/
theorem connections_isolated {c : Client} {g : Globals} {ms : List Mem}
    (h : Undisturbed macAddr myIp c g g.key ms) :
    ((tcpRun macAddr myIp g ms).2.filter (·.client = c)).map Packet.view =
      (tcpRun macAddr myIp g (ms.filter (client · = c))).2.map Packet.view :=
  tcpRun_filter ms g g h

/-- A frame with a segment from `srcIp` and `srcPort`, without options. -/
def segment (srcIp : Ip) (srcPort seqNum : ℕ) (flags : UInt8) (payload : List UInt8) : Mem :=
  let ipv4 : Ipv4Pkt :=
    { ver := 0x45, srvType := 0, totalLen := h2nUshort (40 + payload.length), id := 0
      fragment := 0, ttl := 64, protocol := IPV4_TYPE_TCP, chkSum := 0
      srcIp := srcIp, dstIp := hostIp }
  let tcp : TcpPkt :=
    { srcPort := srcPort, dstPort := h2nUshort 80, seqNum := seqNum, ackNum := 0
      codeBits := #v[0x50, flags], window := 0, chkSum := 0, urgentPtr := 0 }
  memOf (List.replicate 14 0 ++ ipv4.bytes ++ tcp.bytes ++ payload)

/-- A request is served while another client sends segments that are not answered. -/
theorem connections_isolated_request :
    let ms := [segment #v[10, 0, 1, 2] 1 0 TCP_CODEBITS_SYN [],
      segment #v[10, 0, 1, 3] 1 0 TCP_CODEBITS_ACK [],
      segment #v[10, 0, 1, 2] 1 0 (TCP_CODEBITS_PSH ||| TCP_CODEBITS_ACK) [71, 69, 84],
      segment #v[10, 0, 1, 3] 1 0 TCP_CODEBITS_FIN [],
      segment #v[10, 0, 1, 2] 1 0 TCP_CODEBITS_ACK []]
    let run := tcpRun (Vector.replicate 6 0) #v[10, 0, 1, 10] ⟨0, 0, 0⟩
    ((run ms).2.filter (·.client = (#v[10, 0, 1, 2], 1))).map Packet.view =
      (run (ms.filter (client · = (#v[10, 0, 1, 2], 1)))).2.map Packet.view :=
  connections_isolated (by decide +kernel)

/-- Two clients open a connection one after the other: the second is answered with sequence number
`1`, and with `0` if it is alone. -/
theorem handshakes_interfere :
    let ms := [segment #v[10, 0, 1, 2] 1 0 TCP_CODEBITS_SYN [],
      segment #v[10, 0, 1, 3] 1 0 TCP_CODEBITS_SYN []]
    let run := tcpRun (Vector.replicate 6 0) #v[10, 0, 1, 10] ⟨0, 0, 0⟩
    let answers (ms : List Mem) := (run ms).2.filter (·.client = (#v[10, 0, 1, 3], 1))
    let alone := ms.filter (client · = (#v[10, 0, 1, 3], 1))
    (answers ms).map (netUint ·.tcp.seqNum) = [1] ∧
    (answers alone).map (netUint ·.tcp.seqNum) = [0] ∧
    (answers ms).map Packet.view ≠ (answers alone).map Packet.view := by
  decide +kernel

end Clients

end Xv6.Tcp
