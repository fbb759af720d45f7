import StudyTips.RawServer

/-!
# `c/raw6/rawall.c`: sending whole packets

The program builds the IPv6 header itself, once, and sends two packets with contents of 512
and 2012 bytes, whose UDP header it fills again for each. The payload length in the IPv6
header is that of the first.

* `rawall_packets`: the two packets, for all addresses.
* `rawall_arrives`: what a receiver that goes by the IPv6 header gets of them: the first as
  it was sent, the second without its end.
* `server_ports`: the server prints the ports of the senders, whatever was in its buffer.
-/

namespace StudyTips

open Bytes

/-! ## The program -/

/-- The variables of the loop. -/
structure RawAllState : Type where
  /-- `abPktInfo` -/
  abPktInfo : Mem
  /-- `u16ContentLen` -/
  u16ContentLen : UInt16

variable (o : ByteOrder)

/-- One turn of the `do` loop; whether the packet could be sent changes a message only. -/
def rawallTurn (dst : sockaddr 16) (s : RawAllState) : Traced (SendCall 16) (RawAllState ⊕ Unit) :=
  let m := (fillUdp o s.abPktInfo IPv6_HEADER_t.sizeof
    (UDP_HEADER_t.sizeof + s.u16ContentLen.toNat)).val
  let reqLen := IPv6_HEADER_t.sizeof + UDP_HEADER_t.sizeof + s.u16ContentLen.toNat
  let u16ContentLen := s.u16ContentLen + 1500
  ⟨if u16ContentLen < 2048 then .inl ⟨m, u16ContentLen⟩ else .inr (), [sendto m 0 reqLen dst]⟩

/-- `main` behind `bind`: the header, which is that of `sendV6` for 512 bytes, in a buffer that
is cleared, and the loop. -/
def rawallMain (src dst : sockaddr 16) (fuel : ℕ) : Traced (SendCall 16) (Option Unit) :=
  let src := { src with port := 0 }
  let dst := { dst with port := 0 }
  Loop.run (rawallTurn o dst) fuel ⟨(fillV6 o src dst 512 fun _ => 0).val, 512⟩

/-! ## Fields of a packet -/

/-- The 16-bit field at offset `k` of a packet. -/
def field16 (data : List UInt8) (k : ℕ) : ℕ := beWord (data[k]?.getD 0) (data[k + 1]?.getD 0)

/-- The ports that the senders put into the UDP header at `udp`. -/
def PortsAt (m : Mem) (udp : ℕ) : Prop :=
  beWord (m udp) (m (udp + 1)) = 12760 ∧ beWord (m (udp + 2)) (m (udp + 3)) = 22760

theorem PortsAt.congr {m m' : Mem} {udp : ℕ} (h : PortsAt m udp)
    (heq : ∀ a, udp ≤ a → a < udp + u16Length → m' a = m a) : PortsAt m' udp := by
  have hbyte : ∀ k < 4, m' (udp + k) = m (udp + k) := fun k hk =>
    heq _ (Nat.le_add_right _ _) (Nat.add_lt_add_left hk _)
  rw [PortsAt, hbyte 1 (by decide), hbyte 2 (by decide), hbyte 3 (by decide),
    show m' udp = m udp from hbyte 0 (by decide)]
  exact h

/-- The UDP header that the programs fill: ports, length, no checksum. -/
def udpHeader (reqLen : ℕ) : List UInt8 :=
  ByteOrder.network16 12760 ++ ByteOrder.network16 22760 ++
    ByteOrder.network16 (UInt16.ofNat reqLen) ++ ByteOrder.network16 0

@[simp] theorem length_udpHeader (reqLen : ℕ) :
    (udpHeader reqLen).length = UDP_HEADER_t.sizeof := rfl

/-- A write right behind another is one with it. -/
theorem write_behind {m : Mem} {a b : ℕ} {bs cs : List UInt8} (hb : b = a + bs.length) :
    (m.write a bs).write b cs = m.write a (bs ++ cs) := by
  subst hb
  rw [ByteOrder.write_append]
  generalize hb : a + bs.length = b
  funext x
  by_cases hx : a ≤ x ∧ x < b
  · obtain ⟨i, rfl⟩ := Nat.exists_eq_add_of_le hx.1
    have hi : i < bs.length := by omega
    rw [Mem.write_outside (.inl hx.2), Mem.write_inside hi, Mem.write_inside hi]
  · have hsame : m.write a bs x = m x := Mem.write_outside (by omega)
    have hright : (m.write b cs).write a bs x = m.write b cs x := Mem.write_outside (by omega)
    rw [hright, Mem.write, hsame]
    rfl

/-- The four stores of `fillUdp` write the UDP header in one piece. -/
theorem fillUdp_eq (m : Mem) (udp reqLen : ℕ) :
    (fillUdp o m udp reqLen).val = m.write udp (udpHeader reqLen) := by
  have hzero : o.htons 0 = 0 := by cases o <;> rfl
  have hlast : ∀ m' : Mem, o.store16 m' (udp + u16CheckSum) 0 =
      m'.write (udp + u16CheckSum) (ByteOrder.network16 0) := fun m' => by
    rw [← o.store16_htons, hzero]
  simp only [fillUdp, Traced.bind_val, storeLen_val, Traced.pure_val, hlast, o.store16_htons]
  rw [write_behind (by rfl), write_behind (by rfl), write_behind (by rfl)]
  rfl

theorem fillUdp_ports (m : Mem) (udp reqLen : ℕ) : PortsAt (fillUdp o m udp reqLen).val udp := by
  have hbyte : ∀ k (hk : k < (udpHeader reqLen).length),
      m.write udp (udpHeader reqLen) (udp + k) = (udpHeader reqLen)[k] := fun k hk =>
    Mem.write_inside hk
  have hlt : ∀ k < 8, k < (udpHeader reqLen).length := fun k hk => hk
  rw [fillUdp_eq, PortsAt, hbyte 1 (hlt 1 (by decide)), hbyte 2 (hlt 2 (by decide)),
    hbyte 3 (hlt 3 (by decide)),
    show m.write udp (udpHeader reqLen) udp = _ from hbyte 0 (hlt 0 (by decide))]
  exact ⟨rfl, rfl⟩

/-! ## What the senders hand over -/

/-- The datagrams of a sending function start with a UDP header with the ports in it. -/
theorem sendUdp_ports {n : ℕ} {ip : IpLayout} {fill : Mem → Traced PacketEvent Mem} {m : Mem}
    {name : sockaddr n} {iovec_flag : Bool} {u16ContentLen : UInt16} {call : SendCall n}
    (hlen : UDP_HEADER_t.sizeof + u16ContentLen.toNat ≤ 65535)
    (hmem : call ∈ (sendUdp o ip fill m name iovec_flag u16ContentLen).val.2) :
    UDP_HEADER_t.sizeof ≤ call.data.length ∧
      field16 call.data u16SrcPort = 12760 ∧ field16 call.data u16DstPort = 22760 := by
  -- a checksum call leaves the ports
  have hsum : ∀ {m : Mem} {len : ℕ}, 8 ≤ len → len ≤ 65535 → PortsAt m ip.sizeof →
      PortsAt (udpHeaderChecksum o ip m 0 ip.sizeof len).val ip.sizeof := fun h8 hle hports =>
    hports.congr fun a _ ha =>
      (udpHeaderChecksum_completed o ip h8 hle (.inl (by omega))).frame a (.inl ha)
  have hprepare : PortsAt (prepare o ip fill m (UDP_HEADER_t.sizeof + u16ContentLen.toNat)).val
      ip.sizeof := by
    rw [prepare_val]
    exact hsum (Nat.le_add_right 8 _) hlen (fillUdp_ports o _ _ _)
  have hdata : ∀ {m : Mem} (k : ℕ) (rest : List UInt8), PortsAt m ip.sizeof →
      UDP_HEADER_t.sizeof ≤ (m.bytes ip.sizeof (UDP_HEADER_t.sizeof + k) ++ rest).length ∧
      field16 (m.bytes ip.sizeof (UDP_HEADER_t.sizeof + k) ++ rest) u16SrcPort = 12760 ∧
      field16 (m.bytes ip.sizeof (UDP_HEADER_t.sizeof + k) ++ rest) u16DstPort = 22760 := by
    intro m k rest hports
    have hget : ∀ i < 4, (m.bytes ip.sizeof (UDP_HEADER_t.sizeof + k) ++ rest)[i]? =
        some (m (ip.sizeof + i)) := fun i hi => by
      rw [List.getElem?_append_left (by simp [UDP_HEADER_t.sizeof]; omega),
        Mem.getElem?_bytes m (by simp [UDP_HEADER_t.sizeof]; omega)]
    refine ⟨by simp [Mem.length_bytes]; omega, ?_, ?_⟩
    · rw [field16, hget 0 (by decide), hget 1 (by decide)]
      exact hports.1
    · rw [field16, hget 2 (by decide), hget 3 (by decide)]
      exact hports.2
  cases iovec_flag with
  | false =>
    obtain rfl := List.mem_singleton.mp hmem
    have hd := hdata u16ContentLen.toNat [] hprepare
    simpa [sendto, sendmsg, iovec.bytes] using hd
  | true =>
    have hscattered : PortsAt (udpHeaderChecksum o ip (storeLen o (prepare o ip fill m
        (UDP_HEADER_t.sizeof + u16ContentLen.toNat)).val (ip.sizeof + u16Length)
          (UDP_HEADER_t.sizeof + helloWorld.length)).val 0 ip.sizeof
            (UDP_HEADER_t.sizeof + helloWorld.length)).val ip.sizeof := by
      refine hsum (by decide) (by decide) (hprepare.congr fun a _ ha => ?_)
      rw [storeLen_val]
      exact ByteOrder.write_network16_outside (.inl ha)
    have hd := hdata 0 helloWorld hscattered
    simp only [sendUdp, sendScattered, Traced.bind_val, Traced.pure_val, if_true, List.mem_cons,
      List.not_mem_nil, or_false] at hmem
    rcases hmem with rfl | rfl
    · rw [sendmsg_scattered_data]
      exact hd
    · rw [sendmsg_scattered_data]
      exact hd

/-! ## The packets -/

section Packets

variable (src dst : sockaddr 16)

/-- The IPv6 header, with the payload length of 512 bytes behind a UDP header. -/
def ipv6Header : List UInt8 :=
  [0x60, 0, 0, 0] ++ ByteOrder.network16 520 ++ [IPPROTO_UDP] ++ [128] ++ src.addr.toList ++
    dst.addr.toList

@[simp] theorem length_ipv6Header : (ipv6Header src dst).length = IPv6_HEADER_t.sizeof := by
  simp [ipv6Header, IPv6_HEADER_t]

/-- The packet with a content of `len` zero bytes. -/
def rawallPacket (len : ℕ) : List UInt8 :=
  ipv6Header src dst ++ udpHeader (UDP_HEADER_t.sizeof + len) ++ List.replicate len 0

theorem length_rawallPacket (len : ℕ) : (rawallPacket src dst len).length =
    IPv6_HEADER_t.sizeof + UDP_HEADER_t.sizeof + len := by
  simp only [rawallPacket, List.length_append, length_ipv6Header, length_udpHeader,
    List.length_replicate]

/-- Bytes that are zero. -/
theorem bytes_zero_eq {m : Mem} {a n : ℕ} (h : ∀ x, a ≤ x → m x = 0) :
    m.bytes a n = List.replicate n 0 := by
  induction n generalizing a with
  | zero => rfl
  | succ n ih =>
    rw [Mem.bytes_succ, List.replicate_succ, h a (le_refl a), ih fun x hx => h x (by omega)]

/-- The header that is filled before the loop. -/
theorem fillV6_bytes : (fillV6 o src dst 512 fun _ => 0).val.bytes 0 IPv6_HEADER_t.sizeof =
    ipv6Header src dst := by
  have hval : (fillV6 o src dst 512 fun _ => 0).val =
      (Mem.write (fun _ => 0) 0 (List.replicate IPv6_HEADER_t.sizeof 0)).write 0
        (ipv6Header src dst) := by
    have hstart : ∀ m : Mem, m 1 = 0 → m 2 = 0 → m 3 = 0 → m.write 0 [0x60] =
        m.write 0 [0x60, 0, 0, 0] := by
      intro m h1 h2 h3
      funext x
      match x with
      | 0 => rfl
      | 1 => exact h1
      | 2 => exact h2
      | 3 => exact h3
      | x + 4 => rfl
    simp only [fillV6, Traced.bind_val, storeLen_val, Traced.pure_val]
    have haddr : IPv6_HEADER_t.abDstAddr = IPv6_HEADER_t.abSrcAddr + src.addr.toList.length := by
      rw [Vector.length_toList]
      rfl
    rw [hstart _ rfl rfl rfl, write_behind haddr, write_behind (by rfl), write_behind (by rfl),
      write_behind (by rfl), write_behind (by rfl)]
    rfl
  rw [hval]
  exact Mem.bytes_write (length_ipv6Header src dst)

/-- The packet in a buffer that holds the header and zeros behind it. -/
theorem packet_bytes {m : Mem} (hheader : m.bytes 0 IPv6_HEADER_t.sizeof = ipv6Header src dst)
    (hzero : ∀ x, IPv6_HEADER_t.sizeof + UDP_HEADER_t.sizeof ≤ x → m x = 0) (len : ℕ) :
    (m.write IPv6_HEADER_t.sizeof (udpHeader (UDP_HEADER_t.sizeof + len))).bytes 0
      (IPv6_HEADER_t.sizeof + UDP_HEADER_t.sizeof + len) = rawallPacket src dst len := by
  rw [Mem.bytes_add, Mem.bytes_add, Nat.zero_add, Nat.zero_add, rawallPacket]
  congr 1
  · rw [Mem.bytes_write_of_disjoint (.inl (by simp)), hheader,
      Mem.bytes_write (length_udpHeader _)]
  · exact bytes_zero_eq fun x hx => by
      rw [Mem.write_outside (.inr (by simpa using hx)), hzero x hx]

/-- The call that hands over the packet with a content of `len` bytes. -/
def rawallCall (len : ℕ) : SendCall 16 where
  name := ⟨0, dst.addr⟩
  iov := [⟨.abPktInfo 0, IPv6_HEADER_t.sizeof + UDP_HEADER_t.sizeof + len⟩]
  data := rawallPacket src dst len

/-- What a turn of the loop sends. -/
theorem rawallTurn_log {m : Mem} (len : UInt16)
    (hheader : m.bytes 0 IPv6_HEADER_t.sizeof = ipv6Header src dst)
    (hzero : ∀ x, IPv6_HEADER_t.sizeof + UDP_HEADER_t.sizeof ≤ x → m x = 0) :
    (rawallTurn o ⟨0, dst.addr⟩ ⟨m, len⟩).log = [rawallCall src dst len.toNat] := by
  simp only [rawallTurn, fillUdp_eq, sendto, sendmsg, rawallCall]
  rw [List.flatMap_singleton]
  simp only [iovec.bytes, packet_bytes src dst hheader hzero]

/-- **The two packets** that the program hands over, for all addresses and on either host. -/
theorem rawall_packets {fuel : ℕ} (hfuel : 2 ≤ fuel) :
    rawallMain o src dst fuel = ⟨some (), [rawallCall src dst 512, rawallCall src dst 2012]⟩ := by
  obtain ⟨fuel, rfl⟩ : ∃ k, fuel = k + 2 := ⟨fuel - 2, by omega⟩
  have hheader := fillV6_bytes o ⟨0, src.addr⟩ ⟨0, dst.addr⟩
  have hframe := (fillV6_fills o ⟨0, src.addr⟩ ⟨0, dst.addr⟩ 512 fun _ => 0).frame
  rw [rawallMain]
  generalize (fillV6 o ⟨0, src.addr⟩ ⟨0, dst.addr⟩ 512 fun _ => 0).val = m at hheader hframe ⊢
  have hzero : ∀ x, IPv6_HEADER_t.sizeof + UDP_HEADER_t.sizeof ≤ x → m x = 0 := fun x hx =>
    hframe x (by omega)
  -- the memory at the second turn
  let m₁ := m.write IPv6_HEADER_t.sizeof (udpHeader (UDP_HEADER_t.sizeof + 512))
  have hturn : (rawallTurn o ⟨0, dst.addr⟩ ⟨m, 512⟩).val = .inl ⟨m₁, 2012⟩ := by
    simp only [rawallTurn, fillUdp_eq]
    rfl
  have hturn₁ : (rawallTurn o ⟨0, dst.addr⟩ ⟨m₁, 2012⟩).val = .inr () := by
    simp only [rawallTurn]
    rfl
  have hheader₁ : m₁.bytes 0 IPv6_HEADER_t.sizeof = ipv6Header src dst := by
    rw [Mem.bytes_write_of_disjoint (.inl (by simp)), hheader]
    rfl
  have hzero₁ : ∀ x, IPv6_HEADER_t.sizeof + UDP_HEADER_t.sizeof ≤ x → m₁ x = 0 := fun x hx => by
    exact (Mem.write_outside (.inr (by simpa using hx))).trans (hzero x hx)
  rw [Loop.run_inl hturn, Loop.run_inr hturn₁, rawallTurn_log o src dst 512 hheader hzero,
    rawallTurn_log o src dst 2012 hheader₁ hzero₁]
  rfl

/-! ## What arrives -/

/-- What is behind the header of an IPv6 packet, by its payload length; a packet that is
shorter is dropped. -/
def ipv6Payload (packet : List UInt8) : Option (List UInt8) :=
  if IPv6_HEADER_t.sizeof + field16 packet 4 ≤ packet.length then
    some ((packet.drop IPv6_HEADER_t.sizeof).take (field16 packet 4))
  else none

theorem field16_drop (data : List UInt8) (a k : ℕ) :
    field16 (data.drop a) k = field16 data (a + k) := by
  rw [field16, field16, List.getElem?_drop, List.getElem?_drop, Nat.add_assoc]

/-- The datagram in a packet. -/
theorem drop_rawallPacket (len : ℕ) : (rawallPacket src dst len).drop IPv6_HEADER_t.sizeof =
    udpHeader (UDP_HEADER_t.sizeof + len) ++ List.replicate len 0 := by
  rw [rawallPacket, List.append_assoc, List.drop_left' (length_ipv6Header src dst)]

theorem field16_payloadLen (len : ℕ) : field16 (rawallPacket src dst len) 4 = 520 := rfl

/-- The length field of a datagram behind a header that was filled for it. -/
theorem field16_udpLength {n : ℕ} (hn : n ≤ 65535) (rest : List UInt8) :
    field16 (udpHeader n ++ rest) u16Length = n := by
  have hfield : field16 (udpHeader n ++ rest) u16Length =
      beSum (ByteOrder.network16 (UInt16.ofNat n)) := rfl
  rw [hfield, beSum_network16, UInt16.toNat_ofNat', Nat.mod_eq_of_lt (by omega)]

/-- A packet of at least 512 bytes is delivered up to the payload length of the first. -/
theorem ipv6Payload_rawallPacket {len : ℕ} (hlen : 512 ≤ len) :
    ipv6Payload (rawallPacket src dst len) =
      some (udpHeader (UDP_HEADER_t.sizeof + len) ++ List.replicate 512 0) := by
  have htake : (udpHeader (UDP_HEADER_t.sizeof + len) ++ List.replicate len 0).take 520 =
      udpHeader (UDP_HEADER_t.sizeof + len) ++ List.replicate 512 0 := by
    rw [show 520 = (udpHeader (UDP_HEADER_t.sizeof + len)).length + 512 by rfl,
      List.take_length_add_append, List.take_replicate, Nat.min_eq_left hlen]
  rw [ipv6Payload, field16_payloadLen, length_rawallPacket, if_pos, drop_rawallPacket, htake]
  simp only [IPv6_HEADER_t, UDP_HEADER_t.sizeof]
  omega

/-- **What becomes of the two packets**, for all addresses: both are read from inside the
buffer and sent to the address given. The first carries a datagram whose length field is its
size; of the second, whose IPv6 header still has the payload length of the first, only 520
bytes arrive, with a length field of 2020. -/
theorem rawall_arrives {fuel : ℕ} (hfuel : 2 ≤ fuel) :
    ∃ first second d₁ d₂, (rawallMain o src dst fuel).val = some () ∧
      (rawallMain o src dst fuel).log = [first, second] ∧
      (∀ call ∈ [first, second], call.InPacket ∧ call.name = ⟨0, dst.addr⟩) ∧
      ipv6Payload first.data = some d₁ ∧ d₁ = first.data.drop IPv6_HEADER_t.sizeof ∧
        field16 d₁ u16Length = d₁.length ∧
      ipv6Payload second.data = some d₂ ∧ d₂.length = 520 ∧ field16 d₂ u16Length = 2020 ∧
        second.data.length = IPv6_HEADER_t.sizeof + 2020 := by
  have hrun := rawall_packets o src dst hfuel
  refine ⟨rawallCall src dst 512, rawallCall src dst 2012, _, _, by rw [hrun], by rw [hrun], ?_,
    ipv6Payload_rawallPacket src dst (le_refl _), ?_, ?_,
    ipv6Payload_rawallPacket src dst (by decide), ?_, ?_, ?_⟩
  · have hin : ∀ len ≤ 4000, (rawallCall src dst len).InPacket := by
      intro len hlen v hv
      obtain rfl := List.mem_singleton.mp hv
      intro i hi
      simp only [IPv6_HEADER_t, UDP_HEADER_t.sizeof] at hi
      simp only [abPktInfoSize]
      omega
    intro call hcall
    simp only [List.mem_cons, List.not_mem_nil, or_false] at hcall
    rcases hcall with rfl | rfl
    · exact ⟨hin _ (by decide), rfl⟩
    · exact ⟨hin _ (by decide), rfl⟩
  · exact (drop_rawallPacket src dst 512).symm
  · rw [field16_udpLength (by decide), List.length_append, length_udpHeader,
      List.length_replicate]
  · rw [List.length_append, length_udpHeader, List.length_replicate]
  · exact field16_udpLength (by decide) _
  · exact length_rawallPacket src dst 2012

/-- Both packets arrive with the addresses of the program. -/
theorem rawall_arrives_default : ∃ first second d₁ d₂,
    (rawallMain .little fromDefault toDefault 2).val = some () ∧
      (rawallMain .little fromDefault toDefault 2).log = [first, second] ∧
      (∀ call ∈ [first, second], call.InPacket ∧ call.name = ⟨0, toDefault.addr⟩) ∧
      ipv6Payload first.data = some d₁ ∧ d₁ = first.data.drop IPv6_HEADER_t.sizeof ∧
        field16 d₁ u16Length = d₁.length ∧
      ipv6Payload second.data = some d₂ ∧ d₂.length = 520 ∧ field16 d₂ u16Length = 2020 ∧
        second.data.length = IPv6_HEADER_t.sizeof + 2020 :=
  rawall_arrives .little fromDefault toDefault (le_refl 2)

end Packets

/-! ## What the server prints -/

/-- A word of the buffer, in host order. -/
theorem ntohsAt_eq (m : Mem) (a : ℕ) : (ntohsAt o m a).toNat = beWord (m a) (m (a + 1)) := by
  have hhi := (m a).toNat_lt
  have hlo := (m (a + 1)).toNat_lt
  rw [ntohsAt, beWord]
  cases o with
  | little =>
    have hword : (ByteOrder.little.load16 m a).toNat = (m a).toNat + 256 * (m (a + 1)).toNat := by
      rw [ByteOrder.load16, UInt16.toNat_ofNat']
      omega
    have hmod : ((m a).toNat + 256 * (m (a + 1)).toNat) % 256 = (m a).toNat := by omega
    have hdiv : ((m a).toNat + 256 * (m (a + 1)).toNat) / 256 = (m (a + 1)).toNat := by omega
    rw [ByteOrder.htons, hword, UInt16.toNat_ofNat', hmod, hdiv]
    omega
  | big =>
    rw [ByteOrder.htons, ByteOrder.load16, UInt16.toNat_ofNat']
    omega

/-- A field of the last packet received, where the packet reaches so far. -/
theorem ntohsAt_received {ps : List Received} {p : Received} {k : ℕ}
    (hk : k + 2 ≤ p.data.length) (hsize : k + 2 ≤ abPktInfoSize) :
    (ntohsAt o (received (ps ++ [p])) k).toNat = field16 p.data k := by
  have hbyte : ∀ i, i < k + 2 → received (ps ++ [p]) i = p.data[i]?.getD 0 := by
    intro i hi
    have hlen : i < (p.data.take abPktInfoSize).length := by
      rw [List.length_take]
      omega
    rw [received_last hlen, List.getElem_take, List.getElem?_eq_getElem (by omega),
      Option.getD_some]
  rw [ntohsAt_eq, hbyte k (by omega), hbyte (k + 1) (by omega), field16]

/-- A datagram that one of the senders hands over, as a receiver gets it. Those of `sendV4` do not
come to the server, whose socket is of the family `PF_INET6`; another receiver that prints
as the server does would show their ports as well. -/
def IsDatagram (d : List UInt8) : Prop :=
  (∃ o m src dst iovec_flag, ∃ u16ContentLen : UInt16, u16ContentLen.toNat ≤ 65527 ∧
    ∃ call ∈ (sendV6 o m src dst iovec_flag u16ContentLen).val.2, call.data = d) ∨
  (∃ o m src dst iovec_flag, ∃ u16ContentLen : UInt16, u16ContentLen.toNat ≤ 65527 ∧
    ∃ call ∈ (sendV4 o m src dst iovec_flag u16ContentLen).val.2, call.data = d) ∨
  ∃ o src dst fuel, 2 ≤ fuel ∧
    ∃ call ∈ (rawallMain o src dst fuel).log, ipv6Payload call.data = some d

/-- Datagrams of the senders start with their ports. -/
theorem IsDatagram.ports {d : List UInt8} (h : IsDatagram d) : UDP_HEADER_t.sizeof ≤ d.length ∧
    field16 d u16SrcPort = 12760 ∧ field16 d u16DstPort = 22760 := by
  rcases h with ⟨o, m, src, dst, iovec_flag, len, hlen, call, hmem, rfl⟩ |
    ⟨o, m, src, dst, iovec_flag, len, hlen, call, hmem, rfl⟩ |
    ⟨o, src, dst, fuel, hfuel, call, hmem, hpayload⟩
  · exact sendUdp_ports o (by simp only [UDP_HEADER_t.sizeof]; omega) hmem
  · exact sendUdp_ports o (by simp only [UDP_HEADER_t.sizeof]; omega) hmem
  · have hcall : ∃ len, 512 ≤ len ∧ call = rawallCall src dst len := by
      rw [rawall_packets o src dst hfuel] at hmem
      simp only [List.mem_cons, List.not_mem_nil, or_false] at hmem
      rcases hmem with rfl | rfl
      · exact ⟨512, le_refl _, rfl⟩
      · exact ⟨2012, by decide, rfl⟩
    obtain ⟨len, hlen, rfl⟩ := hcall
    obtain rfl := Option.some.inj ((ipv6Payload_rawallPacket src dst hlen).symm.trans hpayload)
    refine ⟨?_, rfl, rfl⟩
    rw [List.length_append, length_udpHeader]
    exact Nat.le_add_right _ _

/-- **From the senders to the server.** In every run of the server, whatever it has received
before, the line for a datagram of `sendV6` or `rawall` shows the ports of the sender where
no IP header is looked for, and so would one for a datagram of `sendV4`; and the line for a
whole packet of `rawall` shows them behind the IP header. The hosts may differ in byte
order. -/
theorem server_ports {recvfrom : ℕ → Option Received} {ps : List Received} {fuel : ℕ}
    (hps : ∀ k < ps.length, recvfrom k = ps[k]?) (hend : recvfrom ps.length = none)
    (hfuel : ps.length < fuel) {k : ℕ} {p : Received} (hp : ps[k]? = some p) :
    ∃ l, (serverLoop o recvfrom fuel).log[2 * k]? = some (.line l) ∧ l.peer = p.peer ∧
      (IsDatagram p.data → l.srcPort_NO_IPHDRINCL = 12760 ∧ l.dstPort_NO_IPHDRINCL = 22760) ∧
      ((∃ src dst len, p.data = rawallPacket src dst len) →
        l.srcPort = 12760 ∧ l.dstPort = 22760) := by
  have hk : k < ps.length := (List.getElem?_eq_some_iff.mp hp).1
  obtain ⟨_, _, hlines⟩ := server_lines o hps hend hfuel
  have htake : ps.take (k + 1) = ps.take k ++ [p] := by
    rw [List.take_add_one, hp]
    rfl
  have hport : ∀ {a : ℕ} {v : UInt16}, a + 2 ≤ p.data.length → a + 2 ≤ abPktInfoSize →
      field16 p.data a = v.toNat → ntohsAt o (received (ps.take (k + 1))) a = v := by
    intro a v hlen hsize hfield
    apply UInt16.toNat_inj.mp
    rw [htake, ntohsAt_received o hlen hsize, hfield]
  refine ⟨_, (hlines k p hp).1, rfl, fun hdatagram => ?_, ?_⟩
  · obtain ⟨hlen, hsrc, hdst⟩ := hdatagram.ports
    simp only [UDP_HEADER_t.sizeof] at hlen
    exact ⟨hport (by simp only [u16SrcPort]; omega) (by decide) hsrc,
      hport (by simp only [u16DstPort]; omega) (by decide) hdst⟩
  · rintro ⟨src, dst, len, hdata⟩
    have hlen : p.data.length = IPv6_HEADER_t.sizeof + UDP_HEADER_t.sizeof + len := by
      rw [hdata, length_rawallPacket]
    have hfield : ∀ k, field16 p.data (IPv6_HEADER_t.sizeof + k) =
        field16 (udpHeader (UDP_HEADER_t.sizeof + len) ++ List.replicate len 0) k := fun k => by
      rw [hdata, ← field16_drop, drop_rawallPacket]
    simp only [IPv6_HEADER_t, UDP_HEADER_t.sizeof] at hlen
    exact ⟨hport (by simp only [IPv6_HEADER_t, u16SrcPort]; omega) (by decide) (hfield u16SrcPort),
      hport (by simp only [IPv6_HEADER_t, u16DstPort]; omega) (by decide) (hfield u16DstPort)⟩

/-- A server that receives one whole packet. -/
def onePacket : List Received := [⟨fromDefault.addr, rawallPacket fromDefault toDefault 512⟩]

theorem server_ports_packet : ∃ l,
    (serverLoop .little (fun k => onePacket[k]?) 2).log[2 * 0]? = some (.line l) ∧
      l.srcPort = 12760 ∧ l.dstPort = 22760 := by
  have hps : ∀ k < onePacket.length, (fun k => onePacket[k]?) k = onePacket[k]? := fun _ _ => rfl
  have hfuel : onePacket.length < 2 := by decide
  obtain ⟨l, hline, _, _, hports⟩ := server_ports .little hps rfl hfuel (k := 0) rfl
  exact ⟨l, hline, hports ⟨_, _, _, rfl⟩⟩

end StudyTips
