import Xv6.Lib.Bytes

/-!
Packets of the network stack: the headers of `pkts_hdr.h`, and the conversions of `eth.c` between
the byte order of the network and that of the processor.

Arrays of bytes that the code compares with `memcmp` or copies with `memmove` as a whole are
vectors, so the first is equality and the second assignment. A field of two or four bytes has the
value the processor loads from it, so it is stored with the lowest byte first.
-/

namespace Xv6.Net

open Xv6.Lib.Bytes

abbrev Ip := Vector UInt8 4
abbrev Mac := Vector UInt8 6

structure EthPkt where
  dstMac : Mac
  srcMac : Mac
  type : Vector UInt8 2
  deriving DecidableEq

structure Ipv4Pkt where
  ver : UInt8
  srvType : UInt8
  totalLen : ℕ
  id : ℕ
  fragment : ℕ
  ttl : UInt8
  protocol : UInt8
  chkSum : ℕ
  srcIp : Ip
  dstIp : Ip
  deriving DecidableEq

structure TcpPkt where
  srcPort : ℕ
  dstPort : ℕ
  seqNum : ℕ
  ackNum : ℕ
  codeBits : Vector UInt8 2
  window : ℕ
  chkSum : ℕ
  urgentPtr : ℕ
  deriving DecidableEq

/-- An address of the machine. -/
def hostIp : Ip := #v[10, 0, 1, 10]

/-- The type of a frame that holds a packet of IPv4. -/
def ethIpv4 : Vector UInt8 2 := #v[0x08, 0x00]

/-- What memory holds from the start of a buffer. -/
abbrev Mem := ℕ → UInt8

def bytesAt (m : Mem) (a n : ℕ) : Vector UInt8 n := Vector.ofFn fun i => m (a + i)

def ushortAt (m : Mem) (a : ℕ) : ℕ := le [m a, m (a + 1)]

def uintAt (m : Mem) (a : ℕ) : ℕ := le [m a, m (a + 1), m (a + 2), m (a + 3)]

def ethPktAt (m : Mem) (a : ℕ) : EthPkt :=
  ⟨bytesAt m a 6, bytesAt m (a + 6) 6, bytesAt m (a + 12) 2⟩

def ipv4PktAt (m : Mem) (a : ℕ) : Ipv4Pkt where
  ver := m a
  srvType := m (a + 1)
  totalLen := ushortAt m (a + 2)
  id := ushortAt m (a + 4)
  fragment := ushortAt m (a + 6)
  ttl := m (a + 8)
  protocol := m (a + 9)
  chkSum := ushortAt m (a + 10)
  srcIp := bytesAt m (a + 12) 4
  dstIp := bytesAt m (a + 16) 4

def tcpPktAt (m : Mem) (a : ℕ) : TcpPkt where
  srcPort := ushortAt m a
  dstPort := ushortAt m (a + 2)
  seqNum := uintAt m (a + 4)
  ackNum := uintAt m (a + 8)
  codeBits := bytesAt m (a + 12) 2
  window := ushortAt m (a + 14)
  chkSum := ushortAt m (a + 16)
  urgentPtr := ushortAt m (a + 18)

def Ipv4Pkt.bytes (p : Ipv4Pkt) : List UInt8 :=
  [p.ver, p.srvType] ++ leBytes 2 p.totalLen ++ leBytes 2 p.id ++ leBytes 2 p.fragment ++
    [p.ttl, p.protocol] ++ leBytes 2 p.chkSum ++ p.srcIp.toList ++ p.dstIp.toList

def TcpPkt.bytes (p : TcpPkt) : List UInt8 :=
  leBytes 2 p.srcPort ++ leBytes 2 p.dstPort ++ leBytes 4 p.seqNum ++ leBytes 4 p.ackNum ++
    p.codeBits.toList ++ leBytes 2 p.window ++ leBytes 2 p.chkSum ++ leBytes 2 p.urgentPtr

@[simp] lemma Ipv4Pkt.length_bytes (p : Ipv4Pkt) : p.bytes.length = 20 := by
  simp [Ipv4Pkt.bytes]

@[simp] lemma TcpPkt.length_bytes (p : TcpPkt) : p.bytes.length = 20 := by
  simp [TcpPkt.bytes]

/-! ### Byte order -/

def n2hUshort (value : ℕ) : ℕ := ((value &&& 0xFF) <<< 8) + (value >>> 8)

def h2nUshort (value : ℕ) : ℕ := ((value &&& 0xFF) <<< 8) + (value >>> 8)

def h2nUint (value : ℕ) : ℕ :=
  ((value &&& 0xF) <<< 24) + ((value &&& 0xF0) <<< 8) + ((value &&& 0xF00) >>> 8) +
    ((value &&& 0xF000) >>> 24)

def n2hUint (value : ℕ) : ℕ :=
  ((value &&& 0xFF) <<< 24) + ((value &&& 0xFF00) <<< 8) + ((value &&& 0xFF0000) >>> 8) +
    ((value &&& 0xFF000000) >>> 24)

/-- What a field of two bytes stands for in the byte order of the network. -/
def netUshort (value : ℕ) : ℕ := be (leBytes 2 value)

/-- What a field of four bytes stands for in the byte order of the network. -/
def netUint (value : ℕ) : ℕ := be (leBytes 4 value)

lemma netUshort_eq (v : ℕ) : netUshort v = v % 256 * 256 + v / 256 % 256 := by
  simp only [netUshort, be, leBytes, le, List.reverse_cons, List.reverse_nil, List.nil_append,
    List.cons_append, UInt8.toNat_ofNat']
  omega

lemma netUint_eq (v : ℕ) :
    netUint v =
      v % 256 * 2 ^ 24 + v / 256 % 256 * 2 ^ 16 + v / 65536 % 256 * 2 ^ 8 + v / 16777216 % 256 := by
  simp only [netUint, be, leBytes, le, List.reverse_cons, List.reverse_nil, List.nil_append,
    List.cons_append, UInt8.toNat_ofNat', Nat.div_div_eq_div_mul, Nat.reduceMul, Nat.reducePow]
  ring

lemma h2nUshort_eq (v : ℕ) : h2nUshort v = v % 256 * 256 + v / 256 := by
  have h := and_field v 8 0
  norm_num at h
  simp [h2nUshort, h, Nat.shiftLeft_eq, Nat.shiftRight_eq_div_pow]

/-- `H2N_uint` keeps three digits of a number, not three bytes. -/
lemma h2nUint_eq (v : ℕ) : h2nUint v = v % 16 * 2 ^ 24 + v / 16 % 16 * 2 ^ 12 + v / 256 % 16 := by
  have h0 : v &&& 0xF = v % 16 := by simpa using and_field v 4 0
  have h1 : v &&& 0xF0 = v / 16 % 16 * 16 := by simpa using and_field v 4 4
  have h2 : v &&& 0xF00 = v / 256 % 16 * 256 := by simpa using and_field v 4 8
  have h3 : v &&& 0xF000 = v / 4096 % 16 * 4096 := by simpa using and_field v 4 12
  simp only [h2nUint, h0, h1, h2, h3, Nat.shiftLeft_eq, Nat.shiftRight_eq_div_pow]
  omega

/-- The two bytes are swapped. -/
lemma h2nUshort_bytes {v : ℕ} (h : v < 2 ^ 16) :
    h2nUshort v % 256 = v / 256 ∧ h2nUshort v / 256 = v % 256 := by
  rw [h2nUshort_eq]
  constructor <;> omega

lemma netUshort_h2nUshort {v : ℕ} (h : v < 2 ^ 16) : netUshort (h2nUshort v) = v := by
  obtain ⟨hlow, hhigh⟩ := h2nUshort_bytes h
  rw [netUshort_eq, hlow, hhigh]
  omega

lemma n2hUshort_h2nUshort {v : ℕ} (h : v < 2 ^ 16) : n2hUshort (h2nUshort v) = v := by
  obtain ⟨hlow, hhigh⟩ := h2nUshort_bytes h
  change h2nUshort (h2nUshort v) = v
  rw [h2nUshort_eq (h2nUshort v), hlow, hhigh]
  omega

/-- `N2H_uint` is the conversion it should be. -/
lemma n2hUint_eq (v : ℕ) : n2hUint v = netUint v := by
  have h0 : v &&& 0xFF = v % 256 := by simpa using and_field v 8 0
  have h1 : v &&& 0xFF00 = v / 256 % 256 * 256 := by simpa using and_field v 8 8
  have h2 : v &&& 0xFF0000 = v / 65536 % 256 * 65536 := by simpa using and_field v 8 16
  have h3 : v &&& 0xFF000000 = v / 16777216 % 256 * 16777216 := by simpa using and_field v 8 24
  rw [netUint_eq]
  simp only [n2hUint, h0, h1, h2, h3, Nat.shiftLeft_eq, Nat.shiftRight_eq_div_pow]
  omega

/-- The number that stands in a field after `H2N_uint`. -/
lemma netUint_h2nUint (v : ℕ) :
    netUint (h2nUint v) = v / 256 % 16 * 2 ^ 24 + v / 16 % 16 * 2 ^ 20 + v % 16 := by
  rw [netUint_eq, h2nUint_eq]
  have ha : v % 16 < 16 := Nat.mod_lt _ (by decide)
  have hb : v / 16 % 16 < 16 := Nat.mod_lt _ (by decide)
  have hc : v / 256 % 16 < 16 := Nat.mod_lt _ (by decide)
  generalize v % 16 = a at *
  generalize v / 16 % 16 = b at *
  generalize v / 256 % 16 = c at *
  have h0 : (a * 2 ^ 24 + b * 2 ^ 12 + c) % 256 = c := by omega
  have h1 : (a * 2 ^ 24 + b * 2 ^ 12 + c) / 256 % 256 = b * 16 := by omega
  have h2 : (a * 2 ^ 24 + b * 2 ^ 12 + c) / 65536 % 256 = 0 := by omega
  have h3 : (a * 2 ^ 24 + b * 2 ^ 12 + c) / 16777216 % 256 = a := by omega
  rw [h0, h1, h2, h3]
  omega

/-- `H2N_uint` is right for one digit only. -/
lemma netUint_h2nUint_iff (v : ℕ) : netUint (h2nUint v) = v ↔ v < 16 := by
  rw [netUint_h2nUint]
  omega

end Xv6.Net
