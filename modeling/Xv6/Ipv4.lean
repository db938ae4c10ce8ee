import Xv6.Icmp

/-!
Dispatch of IP packets, `ipv4.c`: a packet goes to `icmp_proc` or `tcp_proc` unless it repeats the
packet before it.

`ip_id` keeps the identification of the last packet of another host and nothing else of it, and the
destination of a packet is never looked at.
-/

namespace Xv6.Ipv4

open Xv6.Net Xv6.Tcp Xv6.Icmp

def IPV4_TYPE_ICMP : UInt8 := 0x1

/-- The function that `ipv4_proc` calls. -/
inductive Handler
  | icmpProc
  | tcpProc
  deriving DecidableEq

/-- The function for a protocol. -/
def handler (protocol : UInt8) : Option Handler :=
  if protocol = IPV4_TYPE_ICMP then some .icmpProc
  else if protocol = IPV4_TYPE_TCP then some .tcpProc
  else none

variable (myIp : Ip)

/-- The `ip_id` that `ipv4_proc` leaves, and the function it calls with the frame. -/
def ipv4Proc (ipId : ℤ) (m : Mem) : ℤ × Option Handler :=
  let p := ipv4PktAt m 14
  if ipId ≠ p.id ∧ myIp ≠ p.srcIp then (p.id, handler p.protocol) else (ipId, none)

/-- `ip_id` after the frames `ms`. -/
def ipIdAfter (ms : List Mem) : ℤ := ms.foldl (fun ipId m => (ipv4Proc myIp ipId m).1) (-1)

/-- What is called with the frame that comes after `ms`. -/
def handed (ms : List Mem) (m : Mem) : Option Handler := (ipv4Proc myIp (ipIdAfter myIp ms) m).2

/-! ### What is to be handed on -/

/-- The packet has the source, the identification and the protocol of `p`. -/
def Repeats (p q : Ipv4Pkt) : Prop := q.srcIp = p.srcIp ∧ q.id = p.id ∧ q.protocol = p.protocol

instance (p q : Ipv4Pkt) : Decidable (Repeats p q) := inferInstanceAs (Decidable (_ ∧ _))

/-- What should be called with the frame that comes after `ms`. -/
def due (ms : List Mem) (m : Mem) : Option Handler :=
  let q := ipv4PktAt m 14
  if q.dstIp = myIp ∧ ∀ p ∈ ms.getLast?, ¬ Repeats (ipv4PktAt p 14) q then handler q.protocol
  else none

/-- All packets are from other hosts, the last one is for this host, and an identification that
comes twice in a row is that of a repetition. -/
structure Plain (ms : List Mem) (m : Mem) : Prop where
  foreign : ∀ p ∈ ms ++ [m], (ipv4PktAt p 14).srcIp ≠ myIp
  mine : (ipv4PktAt m 14).dstIp = myIp
  distinct : ∀ p ∈ ms.getLast?, (ipv4PktAt m 14).id = (ipv4PktAt p 14).id →
    Repeats (ipv4PktAt p 14) (ipv4PktAt m 14)

variable {myIp}

/-- `ip_id` is the identification of the last packet, as long as all are from other hosts. -/
lemma ipIdAfter_eq {ms : List Mem} (h : ∀ p ∈ ms, (ipv4PktAt p 14).srcIp ≠ myIp) :
    ipIdAfter myIp ms = (ms.getLast?.map fun p => ((ipv4PktAt p 14).id : ℤ)).getD (-1) := by
  rcases List.eq_nil_or_concat' ms with rfl | ⟨ms, p, rfl⟩
  · rfl
  · have hp : myIp ≠ (ipv4PktAt p 14).srcIp := (h p (by simp)).symm
    rw [ipIdAfter, List.foldl_append, List.foldl_cons, List.foldl_nil, List.getLast?_concat]
    by_cases hid : ms.foldl (fun ipId m => (ipv4Proc myIp ipId m).1) (-1) = (ipv4PktAt p 14).id
    · rw [ipv4Proc, if_neg (fun hne => hne.1 hid)]
      exact hid
    · rw [ipv4Proc, if_pos ⟨hid, hp⟩]
      rfl

/-- **Dispatch** is right among packets of other hosts for this host that reuse no identification
at once. -/
theorem dispatch_plain {ms : List Mem} {m : Mem} (h : Plain myIp ms m) :
    handed myIp ms m = due myIp ms m := by
  have hsrc : myIp ≠ (ipv4PktAt m 14).srcIp := (h.foreign m (by simp)).symm
  have hlast : ipIdAfter myIp ms = _ :=
    ipIdAfter_eq fun p hp => h.foreign p (List.mem_append_left _ hp)
  rw [handed, due, ipv4Proc, hlast]
  rcases hms : ms.getLast? with _ | p
  · rw [if_pos ⟨by simp, hsrc⟩, if_pos ⟨h.mine, nofun⟩]
  · by_cases hid : (ipv4PktAt m 14).id = (ipv4PktAt p 14).id
    · rw [if_neg (by simp [hid]), if_neg]
      exact fun hdue => hdue.2 p rfl (h.distinct p hms hid)
    · have hnew : ∀ q ∈ some p, ¬ Repeats (ipv4PktAt q 14) (ipv4PktAt m 14) :=
        fun q hq hrep => hid (Option.mem_some.mp hq ▸ hrep.2.1)
      rw [if_pos ⟨by simpa using Ne.symm hid, hsrc⟩, if_pos ⟨h.mine, hnew⟩]

/-- The start of a frame with a packet of the protocol `protocol`. -/
def frame (srcIp dstIp : Ip) (id : UInt8) (protocol : UInt8) : Mem :=
  memOf (List.replicate 14 0 ++ [0x45, 0, 0, 84, 0, id, 0, 0, 64, protocol, 0, 0] ++
    srcIp.toList ++ dstIp.toList ++ [8, 0])

/-- A repetition is dropped, and the packet after it is handed on. -/
theorem dispatch_plain_ping :
    let f (id : UInt8) := frame #v[10, 0, 1, 2] #v[10, 0, 1, 10] id 1
    handed #v[10, 0, 1, 10] [f 1] (f 1) = none ∧
      handed #v[10, 0, 1, 10] [f 1, f 1] (f 2) = some .icmpProc := by
  intro f
  have h1 : Plain #v[10, 0, 1, 10] [f 1] (f 1) :=
    ⟨by decide +kernel, by decide +kernel, by decide +kernel⟩
  have h2 : Plain #v[10, 0, 1, 10] [f 1, f 1] (f 2) :=
    ⟨by decide +kernel, by decide +kernel, by decide +kernel⟩
  constructor
  · exact (dispatch_plain h1).trans (by decide +kernel)
  · exact (dispatch_plain h2).trans (by decide +kernel)

/-- Two hosts use the same identification: the second gets no answer. A request for another host
gets one. -/
theorem dispatch_conflates :
    let f (host : UInt8) := frame #v[10, 0, 1, host] #v[10, 0, 1, 10] 1 1
    let other := frame #v[10, 0, 1, 2] #v[10, 0, 1, 99] 1 1
    handed #v[10, 0, 1, 10] [f 2] (f 3) = none ∧
      due #v[10, 0, 1, 10] [f 2] (f 3) = some .icmpProc ∧
    handed #v[10, 0, 1, 10] [] other = some .icmpProc ∧ due #v[10, 0, 1, 10] [] other = none ∧
      (icmpProc (Vector.replicate 6 0) #v[10, 0, 1, 10] 0 other).2.isSome := by
  decide +kernel

end Xv6.Ipv4
