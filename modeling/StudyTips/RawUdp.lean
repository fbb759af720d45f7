import StudyTips.Header

/-!
# `c/raw6/rawudp.c`: sending a datagram from the packet buffer

`sendV6` and `sendV4` build an IP header and a UDP header at the front of
`abPktInfo` and hand the datagram to the kernel, either as one range of the
buffer (`sendto`) or as two scattered pieces (`sendmsg`): the UDP header from the
buffer and the literal `"hello world"`. Memory is addressed from the start of
`abPktInfo`, whose 4096 bytes are the addresses below `abPktInfoSize`; what lies
behind it is memory of the program too, so that a read behind the buffer is seen
in the log and not lost.

The two functions differ only in how they fill the IP header. `sendUdp` is the
rest, for a header that `FillsHeader` describes.

* `sendUdp_wellFormed_iff`: what reaches the kernel is a well-formed datagram,
  except that the scattered one must happen to have the sum of the buffer bytes
  behind the UDP header, since these are summed and the literal is sent.
* `sendUdp_staysInPacket_iff`: reads stay inside the buffer, and stored lengths are
  not truncated, exactly up to the content length that fits.
-/

namespace StudyTips

open Bytes

/-! ## The data handed to the kernel -/

/-- `sizeof(abPktInfo)`. -/
abbrev abPktInfoSize : ℕ := 4096

/-- `IPPROTO_UDP`. -/
def IPPROTO_UDP : UInt8 := 17

/-- The literal `"hello world"` with its terminating NUL. -/
def helloWorld : List UInt8 :=
  [0x68, 0x65, 0x6c, 0x6c, 0x6f, 0x20, 0x77, 0x6f, 0x72, 0x6c, 0x64, 0x00]

/-- `struct sockaddr_in` (4 address bytes) and `struct sockaddr_in6` (16): the
fields the sending code reads or writes. -/
structure sockaddr (n : ℕ) : Type where
  /-- the port, as stored -/
  port : UInt16
  /-- the address, in network order -/
  addr : Vector UInt8 n

/-- Where a piece of a scattered datagram starts. -/
inductive IovBase : Type where
  /-- in the packet buffer, at an offset -/
  | abPktInfo (a : ℕ)
  /-- at the literal -/
  | helloWorld

/-- `struct iovec`. -/
structure iovec : Type where
  /-- `iov_base` -/
  base : IovBase
  /-- `iov_len` -/
  len : ℕ

/-- The bytes one piece stands for. -/
def iovec.bytes (m : Mem) (v : iovec) : List UInt8 :=
  match v.base with
  | .abPktInfo a => m.bytes a v.len
  | .helloWorld => StudyTips.helloWorld.take v.len

/-- One call of `sendto` or `sendmsg`: the address, the pieces, and the bytes the
kernel copies from them. -/
structure SendCall (n : ℕ) : Type where
  /-- the address the datagram is sent to -/
  name : sockaddr n
  /-- the pieces, in order -/
  iov : List iovec
  /-- the bytes of the pieces at the time of the call -/
  data : List UInt8

/-- Hand the pieces `iov` to the kernel. -/
def sendmsg {n : ℕ} (m : Mem) (name : sockaddr n) (iov : List iovec) : SendCall n :=
  ⟨name, iov, iov.flatMap fun v => v.bytes m⟩

/-- Hand one buffer to the kernel. -/
def sendto {n : ℕ} (m : Mem) (buf len : ℕ) (name : sockaddr n) : SendCall n :=
  sendmsg m name [⟨.abPktInfo buf, len⟩]

/-! ## The sending functions -/

/-- The IPv6 header `sendV6` builds at the start of the buffer. -/
def fillV6 (o : ByteOrder) (src dst : sockaddr 16) (u16ContentLen : UInt16) (m : Mem) :
    Traced PacketEvent Mem := do
  let m := m.write 0 (List.replicate IPv6_HEADER_t.sizeof 0)
  let m := m.write 0 [0x60]                                          -- abVTF[0]
  let m ← storeLen o m 4 (UDP_HEADER_t.sizeof + u16ContentLen.toNat) -- u16PayloadLen
  let m := m.write IPv6_HEADER_t.bProtocol [IPPROTO_UDP]
  let m := m.write 7 [128]                                           -- bHopLimit
  let m := m.write IPv6_HEADER_t.abSrcAddr src.addr.toList
  pure (m.write IPv6_HEADER_t.abDstAddr dst.addr.toList)

/-- The IPv4 header `sendV4` builds at the start of the buffer. -/
def fillV4 (o : ByteOrder) (src dst : sockaddr 4) (u16ContentLen : UInt16) (m : Mem) :
    Traced PacketEvent Mem := do
  let m := m.write 0 (List.replicate IPv4_HEADER_t.sizeof 0)
  let m := m.write 0 [0x45]                                          -- bVersionAndHeaderLen
  let m ← storeLen o m 2                                             -- u16TotalLenOfPacket
    (IPv4_HEADER_t.sizeof + UDP_HEADER_t.sizeof + u16ContentLen.toNat)
  let m := m.write IPv4_HEADER_t.bProtocol [IPPROTO_UDP]
  let m := m.write 8 [128]                                           -- bTTL
  let m := m.write IPv4_HEADER_t.abSrcAddr src.addr.toList
  pure (m.write IPv4_HEADER_t.abDstAddr dst.addr.toList)

/-- The UDP header both functions put behind the IP header, checksum still zero. -/
def fillUdp (o : ByteOrder) (m : Mem) (ptUdpHdr reqLen : ℕ) : Traced PacketEvent Mem := do
  let m := o.store16 m (ptUdpHdr + u16SrcPort) (o.htons 12760)
  let m := o.store16 m (ptUdpHdr + u16DstPort) (o.htons 22760)
  let m ← storeLen o m (ptUdpHdr + u16Length) reqLen
  pure (o.store16 m (ptUdpHdr + u16CheckSum) 0)

/-- The first half of both functions: the IP header, the UDP header behind it, and
the checksum of the datagram of `reqLen` bytes. -/
def prepare (o : ByteOrder) (ip : IpLayout) (fill : Mem → Traced PacketEvent Mem) (m : Mem)
    (reqLen : ℕ) : Traced PacketEvent Mem := do
  let m ← fill m
  let m ← fillUdp o m ip.sizeof reqLen
  udpHeaderChecksum o ip m 0 ip.sizeof reqLen

/-- The second half of both functions when `iovec_flag` is set: a new length, a
new checksum, and two calls with the two pieces. -/
def sendScattered {n : ℕ} (o : ByteOrder) (ip : IpLayout) (m : Mem) (dst : sockaddr n) :
    Traced PacketEvent (Mem × List (SendCall n)) := do
  let udpvec : List iovec :=
    [⟨.abPktInfo ip.sizeof, UDP_HEADER_t.sizeof⟩, ⟨.helloWorld, helloWorld.length⟩]
  let reqLen := UDP_HEADER_t.sizeof + helloWorld.length
  let m ← storeLen o m (ip.sizeof + u16Length) reqLen
  let m ← udpHeaderChecksum o ip m 0 ip.sizeof reqLen
  -- whether the first call fails changes nothing but a message
  pure (m, [sendmsg m { dst with port := 1234 } udpvec, sendmsg m dst udpvec])

/-- What `sendV6` and `sendV4` share: `fill` builds the IP header of layout `ip`
at the start of the buffer, the UDP header follows it. The memory afterwards and
the calls made are returned. -/
def sendUdp {n : ℕ} (o : ByteOrder) (ip : IpLayout) (fill : Mem → Traced PacketEvent Mem)
    (m : Mem) (dst : sockaddr n) (iovec_flag : Bool) (u16ContentLen : UInt16) :
    Traced PacketEvent (Mem × List (SendCall n)) := do
  let dst := { dst with port := 0 }
  let reqLen := UDP_HEADER_t.sizeof + u16ContentLen.toNat
  let m ← prepare o ip fill m reqLen
  if iovec_flag then
    sendScattered o ip m dst
  else
    pure (m, [sendto m ip.sizeof reqLen dst])

/-- `sendV6(tRawUDPSock, from, to, iovec_flag, u16ContentLen)`. -/
def sendV6 (o : ByteOrder) (m : Mem) (src dst : sockaddr 16) (iovec_flag : Bool)
    (u16ContentLen : UInt16) : Traced PacketEvent (Mem × List (SendCall 16)) :=
  sendUdp o IPv6_HEADER_t (fillV6 o src dst u16ContentLen) m dst iovec_flag u16ContentLen

/-- `sendV4(tRawUDPSock, from, to, iovec_flag, u16ContentLen)`. -/
def sendV4 (o : ByteOrder) (m : Mem) (src dst : sockaddr 4) (iovec_flag : Bool)
    (u16ContentLen : UInt16) : Traced PacketEvent (Mem × List (SendCall 4)) :=
  sendUdp o IPv4_HEADER_t (fillV4 o src dst u16ContentLen) m dst iovec_flag u16ContentLen

/-! ## What the memory holds -/

/-- The IP header at the start of the buffer carries these addresses and the UDP
protocol number. -/
def HasHeader (ip : IpLayout) (src dst : List UInt8) (m : Mem) : Prop :=
  ∀ len, ip.pseudoHeader m 0 len = pseudoHeader src dst IPPROTO_UDP len

/-- Writes behind the IP header leave it as it is. -/
theorem HasHeader.write {ip : IpLayout} {src dst : List UInt8} {m : Mem}
    (h : HasHeader ip src dst m) {a : ℕ} (ha : ip.sizeof ≤ a) (bs : List UInt8) :
    HasHeader ip src dst (m.write a bs) := by
  intro len
  rw [pseudoHeader_write ip (.inl (by omega)), h]

theorem HasHeader.congr {ip : IpLayout} {src dst : List UInt8} {m m' : Mem}
    (h : HasHeader ip src dst m) (heq : m'.bytes 0 ip.sizeof = m.bytes 0 ip.sizeof) :
    HasHeader ip src dst m' := by
  intro len
  rw [← h len]
  have hbyte : ∀ a < ip.sizeof, m' a = m a := by
    intro a ha
    have hget := congrArg (·[a]?) heq
    simp only [Mem.getElem?_bytes _ ha, Nat.zero_add] at hget
    exact Option.some.inj hget
  have hsrc := ip.abSrcAddr_le
  have hdst := ip.abDstAddr_le
  rw [IpLayout.pseudoHeader, IpLayout.pseudoHeader,
    Mem.bytes_congr fun x _ hx => hbyte x (by omega),
    Mem.bytes_congr fun x _ hx => hbyte x (by omega),
    hbyte _ (by have := ip.bProtocol_lt; omega)]

/-- What the rest of the code relies on in a function that builds the IP header:
the header is there afterwards and nothing behind it has changed. -/
structure FillsHeader (ip : IpLayout) (src dst : List UInt8) (m m' : Mem) : Prop where
  /-- the header carries the addresses -/
  header : HasHeader ip src dst m'
  /-- memory behind the header is untouched -/
  frame : ∀ a, ip.sizeof ≤ a → m' a = m a

/-- The last steps of both functions: over a header that has its protocol byte the
addresses are written, behind that byte and one behind the other. -/
theorem fillsHeader_addresses {ip : IpLayout} {src dst : List UInt8} {m m' : Mem}
    (hsrc : src.length = ip.addrLen) (hdst : dst.length = ip.addrLen)
    (hproto : m' ip.bProtocol = IPPROTO_UDP) (hbefore : ip.bProtocol < ip.abSrcAddr)
    (horder : ip.abSrcAddr + ip.addrLen ≤ ip.abDstAddr)
    (hframe : ∀ a, ip.sizeof ≤ a → m' a = m a) :
    FillsHeader ip src dst m ((m'.write ip.abSrcAddr src).write ip.abDstAddr dst) := by
  have hsrc' := ip.abSrcAddr_le
  have hdst' := ip.abDstAddr_le
  refine ⟨?_, ?_⟩
  · intro len
    rw [IpLayout.pseudoHeader, Nat.zero_add, Nat.zero_add, Nat.zero_add, Mem.bytes_write hdst,
      Mem.bytes_write_of_disjoint (.inl horder), Mem.bytes_write hsrc,
      Mem.write_outside (.inl (by omega)), Mem.write_outside (.inl hbefore), hproto]
  · intro a ha
    rw [Mem.write_outside (.inr (by omega)), Mem.write_outside (.inr (by omega)), hframe a ha]

theorem fillV6_fills (o : ByteOrder) (src dst : sockaddr 16) (len : UInt16) (m : Mem) :
    FillsHeader IPv6_HEADER_t src.addr.toList dst.addr.toList m (fillV6 o src dst len m).val := by
  simp only [fillV6, Traced.bind_val, storeLen_val, Traced.pure_val]
  refine fillsHeader_addresses src.addr.length_toList dst.addr.length_toList ?_ (by decide)
    (by decide) fun a ha => ?_
  · rw [Mem.write_outside (.inl (by decide))]
    rfl
  · simp only [IPv6_HEADER_t] at ha ⊢
    simp (disch := omega) only [Mem.write_byte_outside, ByteOrder.write_network16_outside]
    exact Mem.write_outside (.inr (by simpa using ha))

theorem fillV4_fills (o : ByteOrder) (src dst : sockaddr 4) (len : UInt16) (m : Mem) :
    FillsHeader IPv4_HEADER_t src.addr.toList dst.addr.toList m (fillV4 o src dst len m).val := by
  simp only [fillV4, Traced.bind_val, storeLen_val, Traced.pure_val]
  refine fillsHeader_addresses src.addr.length_toList dst.addr.length_toList ?_ (by decide)
    (by decide) fun a ha => ?_
  · -- `bTTL` lies before the protocol byte
    rw [Mem.write_outside (.inr (by decide))]
    rfl
  · simp only [IPv4_HEADER_t] at ha ⊢
    simp (disch := omega) only [Mem.write_byte_outside, ByteOrder.write_network16_outside]
    exact Mem.write_outside (.inr (by simpa using ha))

/-- The datagram of `len` bytes behind the IP header is complete. -/
structure Ready (ip : IpLayout) (src dst : List UInt8) (m : Mem) (len : ℕ) : Prop where
  /-- the IP header carries the addresses -/
  header : HasHeader ip src dst m
  /-- the length field holds the length -/
  length : beWord (m (ip.sizeof + u16Length)) (m (ip.sizeof + u16Length + 1)) = len
  /-- pseudo header and datagram add up to all ones -/
  sum : onesSum (pseudoHeader src dst IPPROTO_UDP len ++ beWords (m.bytes ip.sizeof len)) = 0xFFFF

/-- A checksum call over a buffer with its header in place makes the datagram
ready and touches nothing behind the UDP header. -/
theorem udpHeaderChecksum_ready (o : ByteOrder) {ip : IpLayout} {src dst : List UInt8} {m : Mem}
    {len : ℕ} (h : HasHeader ip src dst m) (h8 : 8 ≤ len) (hlen : len ≤ 65535) :
    Ready ip src dst (udpHeaderChecksum o ip m 0 ip.sizeof len).val len ∧
      ∀ a, ip.sizeof + UDP_HEADER_t.sizeof ≤ a →
        (udpHeaderChecksum o ip m 0 ip.sizeof len).val a = m a := by
  have hdone : Completed ip m (udpHeaderChecksum o ip m 0 ip.sizeof len).val 0 ip.sizeof len :=
    udpHeaderChecksum_completed o ip h8 hlen (.inl (by omega))
  refine ⟨⟨h.congr hdone.header, hdone.length, ?_⟩, fun a ha => hdone.frame a (.inr ha)⟩
  rw [← h len]
  exact hdone.sum

/-- Filling the UDP header leaves everything outside it. -/
theorem fillUdp_val (o : ByteOrder) {ip : IpLayout} {src dst : List UInt8} {m : Mem} (reqLen : ℕ)
    (h : HasHeader ip src dst m) :
    HasHeader ip src dst (fillUdp o m ip.sizeof reqLen).val ∧
      ∀ a, ip.sizeof + UDP_HEADER_t.sizeof ≤ a → (fillUdp o m ip.sizeof reqLen).val a = m a := by
  simp only [fillUdp, Traced.bind_val, storeLen_val, Traced.pure_val, u16SrcPort, u16DstPort,
    u16Length, u16CheckSum]
  refine ⟨(((h.write (by omega) _).write (by omega) _).write (by omega) _).write (by omega) _, ?_⟩
  intro a ha
  simp only [UDP_HEADER_t.sizeof] at ha
  simp (disch := omega) only [ByteOrder.store16_outside, ByteOrder.write_network16_outside]

/-! ## What the kernel is handed -/

/-- A well-formed UDP datagram between two addresses: its length field is its
size, and with its pseudo header it adds up to all ones. -/
structure WellFormedUdp (src dst data : List UInt8) : Prop where
  /-- the length field counts the bytes -/
  length : beSum ((data.drop u16Length).take 2) = data.length
  /-- the checksum is right for exactly these bytes -/
  sum : onesSum (pseudoHeader src dst IPPROTO_UDP data.length ++ beWords data) = 0xFFFF

/-- The last call made hands over a well-formed datagram. -/
def HandsOverWellFormed {n : ℕ} (src dst : List UInt8) (calls : List (SendCall n)) : Prop :=
  ∃ call, calls.getLast? = some call ∧ WellFormedUdp src dst call.data

/-- The length field in the bytes of a datagram in memory. -/
theorem beSum_lengthField (m : Mem) (a n : ℕ) (rest : List UInt8) :
    beSum (((m.bytes a (UDP_HEADER_t.sizeof + n) ++ rest).drop u16Length).take 2) =
      beWord (m (a + u16Length)) (m (a + u16Length + 1)) := by
  rw [show UDP_HEADER_t.sizeof + n = u16Length + (2 + (2 + n)) by
      simp only [UDP_HEADER_t.sizeof, u16Length]; omega,
    Mem.bytes_add, List.append_assoc, List.drop_left' (Mem.length_bytes ..), Mem.bytes_add,
    List.append_assoc, List.take_left' (Mem.length_bytes ..)]
  rfl

/-- The contiguous datagram is well formed as it stands. -/
theorem Ready.contiguous {ip : IpLayout} {src dst : List UInt8} {m : Mem} {n : ℕ}
    (h : Ready ip src dst m (UDP_HEADER_t.sizeof + n)) :
    WellFormedUdp src dst (m.bytes ip.sizeof (UDP_HEADER_t.sizeof + n)) := by
  have hfield := beSum_lengthField m ip.sizeof n []
  rw [List.append_nil] at hfield
  refine ⟨?_, ?_⟩
  · rw [hfield, h.length, Mem.length_bytes]
  · rw [Mem.length_bytes]
    exact h.sum

/-- **The scattered datagram**: the UDP header was summed with the buffer bytes
behind it and is sent with `text` instead, so the checksum is right exactly when
the two have the same sum modulo 65535. -/
theorem Ready.scattered {ip : IpLayout} {src dst : List UInt8} {m : Mem} {text : List UInt8}
    (h : Ready ip src dst m (UDP_HEADER_t.sizeof + text.length))
    (hlen : UDP_HEADER_t.sizeof + text.length ≤ 65535) :
    WellFormedUdp src dst (m.bytes ip.sizeof UDP_HEADER_t.sizeof ++ text) ↔
      beSum (m.bytes (ip.sizeof + UDP_HEADER_t.sizeof) text.length) ≡ beSum text [MOD 65535] := by
  have hdata : (m.bytes ip.sizeof UDP_HEADER_t.sizeof ++ text).length =
      UDP_HEADER_t.sizeof + text.length := by
    rw [List.length_append, Mem.length_bytes]
  have heven : Even (m.bytes ip.sizeof UDP_HEADER_t.sizeof).length := by
    rw [Mem.length_bytes]
    decide
  have hfield := beSum_lengthField m ip.sizeof 0 text
  rw [Nat.add_zero] at hfield
  have hsummed := h.sum
  rw [onesSum_datagram hlen, EndAround.rep_eq_top_iff (by decide), Mem.bytes_add,
    beSum_append _ heven] at hsummed
  have hsent : onesSum (pseudoHeader src dst IPPROTO_UDP (UDP_HEADER_t.sizeof + text.length) ++
      beWords (m.bytes ip.sizeof UDP_HEADER_t.sizeof ++ text)) = 0xFFFF ↔
        beSum (m.bytes (ip.sizeof + UDP_HEADER_t.sizeof) text.length) ≡ beSum text [MOD 65535] := by
    rw [onesSum_datagram hlen, EndAround.rep_eq_top_iff (by decide), beSum_append _ heven,
      Nat.ModEq]
    simp only [UDP_HEADER_t.sizeof] at hsummed ⊢
    omega
  refine ⟨?_, ?_⟩
  · intro hw
    have hsum := hw.sum
    rw [hdata] at hsum
    exact hsent.mp hsum
  · intro hmod
    exact ⟨by rw [hfield, h.length, hdata], by rw [hdata]; exact hsent.mpr hmod⟩

/-! ## The datagrams of `sendUdp` -/

section Send

variable {n : ℕ} (o : ByteOrder) {ip : IpLayout} {fill : Mem → Traced PacketEvent Mem}
  {src dst : List UInt8} {m : Mem} (name : sockaddr n) (u16ContentLen : UInt16)

theorem prepare_val (reqLen : ℕ) :
    (prepare o ip fill m reqLen).val =
      (udpHeaderChecksum o ip (fillUdp o (fill m).val ip.sizeof reqLen).val 0 ip.sizeof
        reqLen).val := by
  simp only [prepare, Traced.bind_val]

/-- **The first half** makes the datagram ready and leaves the memory behind the
UDP header as it was. -/
theorem prepare_ready {reqLen : ℕ} (hfill : FillsHeader ip src dst m (fill m).val)
    (h8 : 8 ≤ reqLen) (hlen : reqLen ≤ 65535) :
    Ready ip src dst (prepare o ip fill m reqLen).val reqLen ∧
      ∀ a, ip.sizeof + UDP_HEADER_t.sizeof ≤ a → (prepare o ip fill m reqLen).val a = m a := by
  obtain ⟨hhdr, hframe⟩ := fillUdp_val o reqLen hfill.header
  obtain ⟨hready, hframe'⟩ := udpHeaderChecksum_ready o hhdr h8 hlen
  rw [prepare_val]
  refine ⟨hready, fun a ha => ?_⟩
  rw [hframe' a ha, hframe a ha, hfill.frame a (by omega)]

/-- The pieces of the scattered datagram. -/
theorem sendmsg_scattered_data (m : Mem) :
    (sendmsg m name [⟨.abPktInfo ip.sizeof, UDP_HEADER_t.sizeof⟩,
      ⟨.helloWorld, helloWorld.length⟩]).data =
        m.bytes ip.sizeof UDP_HEADER_t.sizeof ++ helloWorld := by
  simp [sendmsg, iovec.bytes]

/-- **The second half** hands over a well-formed datagram exactly when the buffer
bytes behind the UDP header have the sum of the literal. -/
theorem sendScattered_wellFormed_iff (hhdr : HasHeader ip src dst m) :
    HandsOverWellFormed src dst (sendScattered o ip m name).val.2 ↔
      beSum (m.bytes (ip.sizeof + UDP_HEADER_t.sizeof) helloWorld.length) ≡
        beSum helloWorld [MOD 65535] := by
  -- the memory at the two calls: a new length, a new checksum
  let m₁ := (storeLen o m (ip.sizeof + u16Length) (UDP_HEADER_t.sizeof + helloWorld.length)).val
  let m₂ := (udpHeaderChecksum o ip m₁ 0 ip.sizeof (UDP_HEADER_t.sizeof + helloWorld.length)).val
  have hm₁ : HasHeader ip src dst m₁ := by
    simp only [m₁, storeLen_val]
    exact hhdr.write (by omega) _
  obtain ⟨hready, hframe⟩ : Ready ip src dst m₂ _ ∧ ∀ a, _ → m₂ a = m₁ a :=
    udpHeaderChecksum_ready o hm₁ (by decide) (by decide)
  have hresidue : m₂.bytes (ip.sizeof + UDP_HEADER_t.sizeof) helloWorld.length =
      m.bytes (ip.sizeof + UDP_HEADER_t.sizeof) helloWorld.length := by
    rw [Mem.bytes_congr fun a ha _ => hframe a ha]
    simp only [m₁, storeLen_val]
    rw [Mem.bytes_write_of_disjoint]
    simp only [u16Length, UDP_HEADER_t.sizeof, ByteOrder.length_network16]
    omega
  have hlast : (sendScattered o ip m name).val.2.getLast? = some (sendmsg m₂ name
      [⟨.abPktInfo ip.sizeof, UDP_HEADER_t.sizeof⟩, ⟨.helloWorld, helloWorld.length⟩]) := by
    simp only [sendScattered, Traced.bind_val, Traced.pure_val, List.getLast?_cons_cons,
      List.getLast?_singleton, m₂, m₁]
  rw [← hresidue, ← hready.scattered (by decide), ← sendmsg_scattered_data name]
  refine ⟨?_, ?_⟩
  · rintro ⟨call, hcall, hwell⟩
    rw [hlast] at hcall
    obtain rfl := Option.some.inj hcall
    exact hwell
  · exact fun hwell => ⟨_, hlast, hwell⟩

/-- **Every datagram handed over**: contiguous ones are well formed, scattered
ones exactly when the bytes behind the UDP header have the sum of the literal. -/
theorem sendUdp_wellFormed_iff (hfill : FillsHeader ip src dst m (fill m).val)
    (hlen : UDP_HEADER_t.sizeof + u16ContentLen.toNat ≤ 65535) (iovec_flag : Bool) :
    HandsOverWellFormed src dst (sendUdp o ip fill m name iovec_flag u16ContentLen).val.2 ↔
      iovec_flag = false ∨
        beSum (m.bytes (ip.sizeof + UDP_HEADER_t.sizeof) helloWorld.length) ≡
          beSum helloWorld [MOD 65535] := by
  obtain ⟨hready, hframe⟩ := prepare_ready o hfill (Nat.le_add_right 8 u16ContentLen.toNat) hlen
  cases iovec_flag with
  | false =>
    refine iff_of_true ⟨_, rfl, ?_⟩ (.inl rfl)
    simpa [sendto, sendmsg, iovec.bytes] using hready.contiguous
  | true =>
    have hresidue := Mem.bytes_congr (n := helloWorld.length) fun a ha _ => hframe a ha
    have hiff := sendScattered_wellFormed_iff o { name with port := 0 } hready.header
    rw [hresidue] at hiff
    simpa [sendUdp] using hiff

/-! ## What is read and what is stored -/

/-- An event that stays in order: a read inside the buffer, a length that was not
truncated on its way into its field. -/
def PacketEvent.InOrder : PacketEvent → Prop
  | .read a => a < abPktInfoSize
  | .storeLen _ size v => v.toNat = size

/-- Every byte the kernel copies from the buffer is inside it, and every byte it
copies from the literal is a byte of the literal. -/
def SendCall.InPacket (call : SendCall n) : Prop :=
  ∀ v ∈ call.iov, match v.base with
    | .abPktInfo a => ∀ i < v.len, a + i < abPktInfoSize
    | .helloWorld => v.len ≤ helloWorld.length

/-- A run of a sending function that reads the buffer only where it is and
truncates no length. -/
def StaysInPacket (r : Traced PacketEvent (Mem × List (SendCall n))) : Prop :=
  r.All PacketEvent.InOrder ∧ ∀ call ∈ r.val.2, call.InPacket

theorem inOrder_storeLen {a size : ℕ} :
    (PacketEvent.storeLen a size (UInt16.ofNat size)).InOrder ↔ size ≤ 65535 := by
  rw [PacketEvent.InOrder, UInt16.toNat_ofNat']
  omega

/-- A range is inside the buffer exactly when its end is. -/
theorem range_inPacket {a len : ℕ} (hlen : 0 < len) :
    (∀ i < len, a + i < abPktInfoSize) ↔ a + len ≤ abPktInfoSize := by
  refine ⟨?_, ?_⟩
  · intro h
    have := h (len - 1) (by omega)
    omega
  · intro h i hi
    omega

/-- The checksum of a datagram behind the IP header stays in order exactly when
the datagram ends inside the buffer. -/
theorem all_udpHeaderChecksum_inOrder {len : ℕ} (hip : ip.sizeof ≤ 40) (h8 : 8 ≤ len)
    (hlen : len < 2 ^ 32) :
    (udpHeaderChecksum o ip m 0 ip.sizeof len).All PacketEvent.InOrder ↔
      ip.sizeof + len ≤ abPktInfoSize := by
  have hsrc := ip.abSrcAddr_le
  have hdst := ip.abDstAddr_le
  rw [all_udpHeaderChecksum hlen, inOrder_storeLen]
  simp only [PacketEvent.InOrder]
  rw [range_inPacket (a := ip.sizeof) (by omega)]
  simp only [abPktInfoSize]
  refine ⟨?_, ?_⟩
  · exact fun h => h.2.2.2
  · exact fun h => ⟨by omega, fun i hi => by omega, fun i hi => by omega, h⟩

/-- The first half stays in order exactly when the IP header does and the
datagram ends inside the buffer. -/
theorem all_prepare_inOrder {reqLen : ℕ} (hip : ip.sizeof ≤ 40) (h8 : 8 ≤ reqLen)
    (hlen : reqLen < 2 ^ 32) :
    (prepare o ip fill m reqLen).All PacketEvent.InOrder ↔
      (fill m).All PacketEvent.InOrder ∧ ip.sizeof + reqLen ≤ abPktInfoSize := by
  simp only [prepare, fillUdp, Traced.all_bind, all_storeLen, inOrder_storeLen, Traced.all_pure,
    and_true, all_udpHeaderChecksum_inOrder o hip h8 hlen]
  simp only [abPktInfoSize]
  refine ⟨?_, ?_⟩
  · exact fun h => ⟨h.1, h.2.2⟩
  · exact fun h => ⟨h.1, by omega, h.2⟩

theorem sendto_inPacket_iff {a len : ℕ} (hlen : 0 < len) :
    (sendto m a len name).InPacket ↔ a + len ≤ abPktInfoSize := by
  simp only [SendCall.InPacket, sendto, sendmsg, List.forall_mem_singleton, range_inPacket hlen]

/-- The second half always stays in order: its datagram is short. -/
theorem sendScattered_staysInPacket (hip : ip.sizeof ≤ 40) :
    StaysInPacket (sendScattered o ip m name) := by
  have hlen : UDP_HEADER_t.sizeof + helloWorld.length = 20 := rfl
  have hcall : ∀ (m' : Mem) (name' : sockaddr n), (sendmsg m' name' [⟨.abPktInfo ip.sizeof,
      UDP_HEADER_t.sizeof⟩, ⟨.helloWorld, helloWorld.length⟩]).InPacket := by
    intro m' name' v hv
    simp only [sendmsg, List.mem_cons, List.not_mem_nil, or_false] at hv
    rcases hv with rfl | rfl
    · intro i hi
      simp only [UDP_HEADER_t.sizeof] at hi
      simp only [abPktInfoSize]
      omega
    · exact le_refl _
  refine ⟨?_, ?_⟩
  · simp only [sendScattered, Traced.all_bind, all_storeLen, inOrder_storeLen, Traced.all_pure,
      and_true, hlen]
    refine ⟨by decide, ?_⟩
    rw [all_udpHeaderChecksum_inOrder o hip (by decide) (by decide)]
    simp only [abPktInfoSize]
    omega
  · intro call hmem
    simp only [sendScattered, Traced.bind_val, Traced.pure_val, List.mem_cons, List.not_mem_nil,
      or_false] at hmem
    rcases hmem with rfl | rfl
    · exact hcall _ _
    · exact hcall _ _

/-- **Reads and stores of a sending function**: they stay in order exactly when
IP header, UDP header and content fit into the buffer together. -/
theorem sendUdp_staysInPacket_iff {k : ℕ} (hip : ip.sizeof ≤ 40) (hk : k ≤ 40)
    (hfill : (fill m).All PacketEvent.InOrder ↔ k + u16ContentLen.toNat ≤ 65535)
    (iovec_flag : Bool) :
    StaysInPacket (sendUdp o ip fill m name iovec_flag u16ContentLen) ↔
      ip.sizeof + (UDP_HEADER_t.sizeof + u16ContentLen.toNat) ≤ abPktInfoSize := by
  have hcl := u16ContentLen.toNat_lt
  have hfit : ip.sizeof + (UDP_HEADER_t.sizeof + u16ContentLen.toNat) ≤ abPktInfoSize →
      (fill m).All PacketEvent.InOrder := by
    intro h
    rw [hfill]
    simp only [UDP_HEADER_t.sizeof, abPktInfoSize] at h
    omega
  have hfirst : (prepare o ip fill m (UDP_HEADER_t.sizeof + u16ContentLen.toNat)).All
      PacketEvent.InOrder ↔
        ip.sizeof + (UDP_HEADER_t.sizeof + u16ContentLen.toNat) ≤ abPktInfoSize := by
    rw [all_prepare_inOrder o hip (by simp only [UDP_HEADER_t.sizeof]; omega)
      (by simp only [UDP_HEADER_t.sizeof]; omega)]
    exact ⟨fun h => h.2, fun h => ⟨hfit h, h⟩⟩
  cases iovec_flag with
  | false =>
    simp only [StaysInPacket, sendUdp, Bool.false_eq_true, if_false, Traced.all_bind,
      Traced.all_pure, and_true, Traced.bind_val, Traced.pure_val, List.forall_mem_singleton,
      hfirst]
    rw [sendto_inPacket_iff _ (by simp only [UDP_HEADER_t.sizeof]; omega), and_self]
  | true =>
    obtain ⟨hlog, hcalls⟩ := sendScattered_staysInPacket o (m := (prepare o ip fill m
      (UDP_HEADER_t.sizeof + u16ContentLen.toNat)).val) { name with port := 0 } hip
    simp only [StaysInPacket, sendUdp, if_true, Traced.all_bind, Traced.bind_val, hfirst]
    exact ⟨fun h => h.1.1, fun h => ⟨⟨h, hlog⟩, hcalls⟩⟩

end Send

theorem all_fillV6_inOrder {o : ByteOrder} {src dst : sockaddr 16} {len : UInt16} {m : Mem} :
    (fillV6 o src dst len m).All PacketEvent.InOrder ↔ 8 + len.toNat ≤ 65535 := by
  simp only [fillV6, Traced.all_bind, all_storeLen, inOrder_storeLen, Traced.all_pure, and_true]

theorem all_fillV4_inOrder {o : ByteOrder} {src dst : sockaddr 4} {len : UInt16} {m : Mem} :
    (fillV4 o src dst len m).All PacketEvent.InOrder ↔ 28 + len.toNat ≤ 65535 := by
  simp only [fillV4, Traced.all_bind, all_storeLen, inOrder_storeLen, Traced.all_pure, and_true]
  rfl

/-! ## The two functions -/

/-- **What `sendV6` and `sendV4` hand to the kernel**, for every datagram that fits
the buffer: a well-formed one on the contiguous path, and on the scattered path
only when the buffer bytes behind the UDP header happen to have the sum of the
literal that is sent in their place. -/
theorem send_handsOverWellFormed_iff (o : ByteOrder) (m : Mem) (src6 dst6 : sockaddr 16)
    (src4 dst4 : sockaddr 4) (iovec_flag : Bool) (u16ContentLen : UInt16) :
    (40 + 8 + u16ContentLen.toNat ≤ abPktInfoSize →
      (HandsOverWellFormed src6.addr.toList dst6.addr.toList
          (sendV6 o m src6 dst6 iovec_flag u16ContentLen).val.2 ↔
        iovec_flag = false ∨
          beSum (m.bytes 48 helloWorld.length) ≡ beSum helloWorld [MOD 65535])) ∧
    (20 + 8 + u16ContentLen.toNat ≤ abPktInfoSize →
      (HandsOverWellFormed src4.addr.toList dst4.addr.toList
          (sendV4 o m src4 dst4 iovec_flag u16ContentLen).val.2 ↔
        iovec_flag = false ∨
          beSum (m.bytes 28 helloWorld.length) ≡ beSum helloWorld [MOD 65535])) := by
  simp only [abPktInfoSize]
  refine ⟨?_, ?_⟩
  · intro hfit
    exact sendUdp_wellFormed_iff o dst6 u16ContentLen (fillV6_fills o src6 dst6 u16ContentLen m)
      (by simp only [UDP_HEADER_t.sizeof]; omega) iovec_flag
  · intro hfit
    exact sendUdp_wellFormed_iff o dst4 u16ContentLen (fillV4_fills o src4 dst4 u16ContentLen m)
      (by simp only [UDP_HEADER_t.sizeof]; omega) iovec_flag

/-- The default source address of the program. -/
def fromDefault : sockaddr 16 :=
  ⟨0, #v[0xFE, 0xC0, 0x20, 0x21, 0, 0, 0, 0, 0, 0, 0, 0, 192, 168, 31, 1]⟩

/-- The default destination address of the program. -/
def toDefault : sockaddr 16 :=
  ⟨0, #v[0xFE, 0xC0, 0x20, 0x21, 0, 0, 0, 0, 0, 0, 0, 0, 192, 168, 31, 2]⟩

/-- With the program's default addresses and content length, zero memory as a
static buffer has it, the scattered datagram carries a wrong checksum. -/
theorem sendV6_scattered_illFormed :
    ¬ HandsOverWellFormed fromDefault.addr.toList toDefault.addr.toList
      (sendV6 .little (fun _ => 0) fromDefault toDefault true 2049).val.2 := by
  rw [sendV6, sendUdp_wellFormed_iff .little toDefault 2049
    (fillV6_fills .little fromDefault toDefault 2049 _) (by decide)]
  decide

/-- The same datagram sent from one piece is well formed, and so is a scattered
IPv4 one over a buffer that already holds the literal. -/
theorem send_handsOverWellFormed_default :
    HandsOverWellFormed fromDefault.addr.toList toDefault.addr.toList
      (sendV6 .little (fun _ => 0) fromDefault toDefault false 2049).val.2 ∧
    HandsOverWellFormed [192, 168, 31, 1] [192, 168, 31, 2]
      (sendV4 .little (Mem.write (fun _ => 0) 28 helloWorld) ⟨0, #v[192, 168, 31, 1]⟩
        ⟨0, #v[192, 168, 31, 2]⟩ true 12).val.2 :=
  ⟨((send_handsOverWellFormed_iff .little (fun _ => 0) fromDefault toDefault
      ⟨0, #v[192, 168, 31, 1]⟩ ⟨0, #v[192, 168, 31, 2]⟩ false 2049).1 (by decide)).mpr
      (.inl rfl),
    ((send_handsOverWellFormed_iff .little (Mem.write (fun _ => 0) 28 helloWorld) fromDefault
      toDefault ⟨0, #v[192, 168, 31, 1]⟩ ⟨0, #v[192, 168, 31, 2]⟩ true 12).2 (by decide)).mpr
      (.inr (by decide))⟩

/-- `u16ContentLen = atoi(optarg)`: the integer is converted to 16 bits. -/
def contentLen (l : ℤ) : UInt16 := UInt16.ofInt l

theorem toNat_contentLen (l : ℤ) : ((contentLen l).toNat : ℤ) = l % 65536 := by
  have h := Int.emod_nonneg l (show (65536 : ℤ) ≠ 0 by decide)
  have h' := Int.emod_lt_of_pos l (show (0 : ℤ) < 65536 by decide)
  rw [contentLen, UInt16.ofInt, UInt16.toNat_ofNat']
  omega

/-- **Bounds and truncation for every `-l`**: reads stay inside the packet buffer
and lengths reach their fields whole exactly when the converted content length
leaves room for the headers, 4048 bytes behind IPv6 and 4068 behind IPv4. -/
theorem send_staysInPacket_iff (o : ByteOrder) (m : Mem) (src6 dst6 : sockaddr 16)
    (src4 dst4 : sockaddr 4) (iovec_flag : Bool) (l : ℤ) :
    (StaysInPacket (sendV6 o m src6 dst6 iovec_flag (contentLen l)) ↔ l % 65536 ≤ 4048) ∧
    (StaysInPacket (sendV4 o m src4 dst4 iovec_flag (contentLen l)) ↔ l % 65536 ≤ 4068) := by
  have hl := toNat_contentLen l
  refine ⟨?_, ?_⟩
  · rw [sendV6, sendUdp_staysInPacket_iff o dst6 (contentLen l) (by decide) (k := 8) (by decide)
      all_fillV6_inOrder]
    simp only [IPv6_HEADER_t, UDP_HEADER_t.sizeof, abPktInfoSize]
    omega
  · rw [sendV4, sendUdp_staysInPacket_iff o dst4 (contentLen l) (by decide) (k := 28) (by decide)
      all_fillV4_inOrder]
    simp only [IPv4_HEADER_t, UDP_HEADER_t.sizeof, abPktInfoSize]
    omega

/-- `-l 5000`: the checksum runs over the end of the buffer. -/
theorem sendV6_5000_leaves_packet :
    ¬ StaysInPacket (sendV6 .little (fun _ => 0) fromDefault toDefault false (contentLen 5000)) := by
  rw [sendV6, sendUdp_staysInPacket_iff .little toDefault (contentLen 5000) (by decide) (k := 8)
    (by decide) all_fillV6_inOrder]
  decide

end StudyTips
