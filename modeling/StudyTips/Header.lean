import StudyTips.EndAround
import StudyTips.Bytes
import StudyTips.Traced

/-!
# `c/common/header.h`: packet headers and the Internet checksum

The headers are packed structures in memory, so a field is an offset from the
address of its header. `Checksum` sums a buffer as big-endian words into 32 bits
and folds the carries; `udp4_header_checksum` and `udp6_header_checksum` chain
it over the pseudo header and the datagram and store the complement.

Every byte `Checksum` reads of a buffer is logged, as is every length stored in
a 16-bit field together with the size it was computed from.

* `Checksum_val`: as long as 32 bits hold the plain sum, `Checksum` returns its
  end-around representative modulo 65535.
* `Checksum_log`: it reads the bytes of its buffer, each once and in order.
* `udp_header_checksums_complete`: after either UDP function the length field holds
  the length, nothing but the two fields changed, and the one's-complement sum
  of pseudo header and datagram is all ones.
-/

namespace StudyTips

open Bytes

/-! ## Layouts

The structures are under `#pragma pack(1)`: offsets are sums of sizes. -/

/-- What the UDP checksum needs to know of an IP header: its size and where its
addresses and its protocol byte are. -/
structure IpLayout : Type where
  /-- `sizeof` the header -/
  sizeof : ℕ
  /-- offset of `abSrcAddr` -/
  abSrcAddr : ℕ
  /-- offset of `abDstAddr` -/
  abDstAddr : ℕ
  /-- bytes of one address -/
  addrLen : ℕ
  /-- offset of `bTypeOfProtocol`, of `bNextHeader` in version 6 -/
  bProtocol : ℕ
  /-- addresses are whole words -/
  addrLen_even : Even addrLen
  /-- addresses are summed at all -/
  addrLen_pos : 0 < addrLen
  /-- addresses are at most 16 bytes -/
  addrLen_le : addrLen ≤ 16
  /-- the source address is inside the header -/
  abSrcAddr_le : abSrcAddr + addrLen ≤ sizeof
  /-- the destination address is inside the header -/
  abDstAddr_le : abDstAddr + addrLen ≤ sizeof
  /-- the protocol byte is inside the header -/
  bProtocol_lt : bProtocol < sizeof

/-- `IPv4_HEADER_t`. -/
def IPv4_HEADER_t : IpLayout where
  sizeof := 20
  abSrcAddr := 12
  abDstAddr := 16
  addrLen := 4
  bProtocol := 9
  addrLen_even := by decide
  addrLen_pos := by decide
  addrLen_le := by decide
  abSrcAddr_le := by decide
  abDstAddr_le := by decide
  bProtocol_lt := by decide

/-- `IPv6_HEADER_t`. -/
def IPv6_HEADER_t : IpLayout where
  sizeof := 40
  abSrcAddr := 8
  abDstAddr := 24
  addrLen := 16
  bProtocol := 6
  addrLen_even := by decide
  addrLen_pos := by decide
  addrLen_le := by decide
  abSrcAddr_le := by decide
  abDstAddr_le := by decide
  bProtocol_lt := by decide

/-- Offset of `u16SrcPort` in `UDP_HEADER_t`. -/
abbrev u16SrcPort : ℕ := 0
/-- Offset of `u16DstPort` in `UDP_HEADER_t`. -/
abbrev u16DstPort : ℕ := 2
/-- Offset of `u16Length` in `UDP_HEADER_t`. -/
abbrev u16Length : ℕ := 4
/-- Offset of `u16CheckSum` in `UDP_HEADER_t`. -/
abbrev u16CheckSum : ℕ := 6
/-- `sizeof(UDP_HEADER_t)`. -/
abbrev UDP_HEADER_t.sizeof : ℕ := 8

/-! ## Events -/

/-- What the packet code does to memory that a reader may want to check. -/
inductive PacketEvent : Type where
  /-- `Checksum` reads the byte at an address -/
  | read (a : ℕ)
  /-- a 16-bit length field at `a` is stored from `size`; `v` is the 16-bit value
  that reaches it -/
  | storeLen (a size : ℕ) (v : UInt16)
  deriving DecidableEq

/-- Read one byte of a summed buffer. -/
def readByte (m : Mem) (a : ℕ) : Traced PacketEvent UInt8 := do
  Traced.emit (.read a)
  pure (m a)

/-- `field = htons(size)`: the argument is converted to 16 bits. -/
def storeLen (o : ByteOrder) (m : Mem) (a size : ℕ) : Traced PacketEvent Mem := do
  Traced.emit (.storeLen a size (UInt16.ofNat size))
  pure (o.store16 m a (o.htons (UInt16.ofNat size)))

@[simp] theorem readByte_val (m : Mem) (a : ℕ) : (readByte m a).val = m a := rfl

@[simp] theorem readByte_log (m : Mem) (a : ℕ) : (readByte m a).log = [.read a] := rfl

@[simp] theorem storeLen_val (o : ByteOrder) (m : Mem) (a size : ℕ) :
    (storeLen o m a size).val = m.write a (ByteOrder.network16 (UInt16.ofNat size)) :=
  o.store16_htons m a _

@[simp] theorem storeLen_log (o : ByteOrder) (m : Mem) (a size : ℕ) :
    (storeLen o m a size).log = [.storeLen a size (UInt16.ofNat size)] := rfl

/-! ## `Checksum` -/

/-- The summing loop of `Checksum` and the odd byte after it: `num` bytes of the
buffer at `p` are behind, `size` are left. -/
def sumWords (m : Mem) (p : ℕ) : (size num : ℕ) → UInt32 → Traced PacketEvent UInt32
  | size + 2, num, cksum => do
    let hi ← readByte m (p + num)
    let lo ← readByte m (p + num + 1)
    sumWords m p size (num + 2)
      (cksum + ((hi.toUInt32 <<< 8 &&& 0xff00) ||| (lo.toUInt32 &&& 0x00FF)))
  | 1, num, cksum => do
    let hi ← readByte m (p + num)
    pure (cksum + (hi.toUInt32 <<< 8 &&& 0xFFFF))
  | 0, _, cksum => pure cksum

theorem toNat_low16 (c : UInt32) : (c &&& (0xFFFF : UInt32)).toNat = c.toNat % 65536 := by
  rw [UInt32.toNat_and]
  exact Nat.and_two_pow_sub_one_eq_mod c.toNat 16

theorem toNat_high16 (c : UInt32) : (c >>> 16).toNat = c.toNat / 65536 := by
  rw [UInt32.toNat_shiftRight]
  exact Nat.shiftRight_eq_div_pow _ _

/-- The body of the folding loop is one round of end-around carry. -/
theorem toNat_fold (c : UInt32) :
    ((c &&& (0xFFFF : UInt32)) + (c >>> 16)).toNat = EndAround.carry 65535 c.toNat := by
  have hc := c.toNat_lt
  rw [UInt32.toNat_add, toNat_low16, toNat_high16, EndAround.carry]
  omega

theorem shiftRight16_eq_zero {c : UInt32} : c >>> 16 = 0 ↔ c.toNat ≤ 65535 := by
  rw [← UInt32.toNat_inj, toNat_high16, UInt32.toNat_zero]
  omega

/-- The folding loop of `Checksum`. -/
def foldCarries (cksum : UInt32) : UInt32 :=
  if cksum >>> 16 = 0 then cksum
  else foldCarries ((cksum &&& (0xFFFF : UInt32)) + (cksum >>> 16))
termination_by cksum.toNat
decreasing_by
  rename_i h
  rw [shiftRight16_eq_zero] at h
  rw [toNat_fold]
  exact EndAround.carry_lt (by decide) (by omega)

/-- `Checksum(cksum, pBuffer, size)`; `none` is the null pointer. -/
def Checksum (m : Mem) (cksum : UInt32) (pBuffer : Option ℕ) (size : UInt32) :
    Traced PacketEvent UInt32 :=
  match pBuffer with
  | none => pure cksum
  | some p =>
    if size = 0 then pure cksum
    else do
      let cksum ← sumWords m p size.toNat 0 cksum
      pure (foldCarries cksum)

/-! ### What `Checksum` computes -/

theorem toNat_shiftLeft8 (b : UInt8) : (b.toUInt32 <<< 8).toNat = b.toNat <<< 8 := by
  have hb := b.toNat_lt
  rw [UInt32.toNat_shiftLeft, UInt8.toNat_toUInt32, show (8 : UInt32).toNat % 32 = 8 from rfl,
    Nat.shiftLeft_eq]
  omega

/-- The high byte as the loop places it. -/
theorem toNat_hiByte (b : UInt8) :
    (b.toUInt32 <<< 8 &&& (0xff00 : UInt32)).toNat = 256 * b.toNat := by
  have hb := b.toNat_lt
  calc (b.toUInt32 <<< 8 &&& (0xff00 : UInt32)).toNat
      = b.toNat <<< 8 &&& 0xff <<< 8 := by rw [UInt32.toNat_and, toNat_shiftLeft8]; rfl
    _ = (b.toNat % 2 ^ 8) <<< 8 := by
        rw [← Nat.shiftLeft_and_distrib, ← Nat.and_two_pow_sub_one_eq_mod]
    _ = 256 * b.toNat := by rw [Nat.mod_eq_of_lt hb, Nat.shiftLeft_eq, Nat.mul_comm]

/-- The two bytes as the loop combines them are their big-endian word. -/
theorem toNat_word (hi lo : UInt8) :
    ((hi.toUInt32 <<< 8 &&& 0xff00) ||| (lo.toUInt32 &&& 0x00FF) : UInt32).toNat =
      beWord hi lo := by
  have hlo := lo.toNat_lt
  have hmask : lo.toNat &&& 0xff = lo.toNat % 2 ^ 8 := Nat.and_two_pow_sub_one_eq_mod _ 8
  rw [UInt32.toNat_or, toNat_hiByte, UInt32.toNat_and, UInt8.toNat_toUInt32,
    show UInt32.toNat 0x00FF = 0xff from rfl, hmask, Nat.mod_eq_of_lt hlo, beWord,
    show (256 : ℕ) = 2 ^ 8 from rfl, Nat.two_pow_add_eq_or_of_lt hlo]

/-- The odd last byte as the code places it is a word padded with zero. -/
theorem toNat_oddByte (hi : UInt8) :
    (hi.toUInt32 <<< 8 &&& (0xFFFF : UInt32)).toNat = beWord hi 0 := by
  have hhi := hi.toNat_lt
  rw [toNat_low16, toNat_shiftLeft8, Nat.shiftLeft_eq, beWord, UInt8.toNat_zero]
  omega

/-- The summing loop adds up the big-endian words, if 32 bits hold the sum. -/
theorem sumWords_val {m : Mem} {p : ℕ} : ∀ {size num : ℕ} {c : UInt32},
    c.toNat + beSum (m.bytes (p + num) size) < 2 ^ 32 →
      (sumWords m p size num c).val.toNat = c.toNat + beSum (m.bytes (p + num) size)
  | 0, _, c, _ => rfl
  | 1, num, c, h => by
    rw [Mem.bytes_succ, Mem.bytes_zero, beSum_singleton] at h ⊢
    simp only [sumWords, Traced.bind_val, readByte_val, Traced.pure_val]
    rw [UInt32.toNat_add, toNat_oddByte, Nat.mod_eq_of_lt h]
  | size + 2, num, c, h => by
    rw [Mem.bytes_succ, Mem.bytes_succ, beSum_cons_cons] at h ⊢
    simp only [sumWords, Traced.bind_val, readByte_val]
    have hc : (c + ((((m (p + num)).toUInt32 <<< 8 &&& 0xff00) |||
        ((m (p + num + 1)).toUInt32 &&& 0x00FF)) : UInt32)).toNat =
          c.toNat + beWord (m (p + num)) (m (p + num + 1)) := by
      rw [UInt32.toNat_add, toNat_word, Nat.mod_eq_of_lt (by omega)]
    rw [sumWords_val (by rw [hc, show p + (num + 2) = p + num + 1 + 1 by omega]; omega), hc,
      show p + (num + 2) = p + num + 1 + 1 by omega]
    omega

/-- The summing loop reads its buffer byte by byte. -/
theorem sumWords_log {m : Mem} {p : ℕ} : ∀ {size num : ℕ} {c : UInt32},
    (sumWords m p size num c).log = (List.range size).map fun i => .read (p + num + i)
  | 0, _, _ => rfl
  | 1, _, _ => rfl
  | size + 2, num, c => by
    simp only [sumWords, Traced.bind_log, readByte_log, sumWords_log,
      List.range_succ_eq_map, List.map_cons, List.map_map]
    rw [List.singleton_append, List.singleton_append]
    refine congrArg₂ _ rfl (congrArg₂ _ rfl (List.map_congr_left fun i _ => ?_))
    simp only [Function.comp_apply]
    exact congrArg _ (by omega)

theorem toNat_foldCarries (c : UInt32) : (foldCarries c).toNat = EndAround.rep 65535 c.toNat := by
  induction c using foldCarries.induct with
  | case1 c h =>
    rw [foldCarries, if_pos h, EndAround.rep_of_le (shiftRight16_eq_zero.mp h)]
  | case2 c h ih =>
    rw [foldCarries, if_neg h, ih, toNat_fold, EndAround.rep_carry]

/-- **What `Checksum` returns**: the end-around representative of the starting
value plus the words of the buffer, as long as 32 bits hold that sum. -/
theorem Checksum_val {m : Mem} {c : UInt32} {p : ℕ} {size : UInt32} (h0 : size ≠ 0)
    (h : c.toNat + beSum (m.bytes p size.toNat) < 2 ^ 32) :
    (Checksum m c (some p) size).val.toNat =
      EndAround.rep 65535 (c.toNat + beSum (m.bytes p size.toNat)) := by
  have hsum : (sumWords m p size.toNat 0 c).val.toNat = c.toNat + beSum (m.bytes p size.toNat) :=
    sumWords_val h
  simp only [Checksum, if_neg h0, Traced.bind_val, Traced.pure_val]
  rw [toNat_foldCarries, hsum]

/-- **What `Checksum` reads**: the bytes of its buffer, each once and in order. -/
theorem Checksum_log (m : Mem) (c : UInt32) (p : ℕ) (size : UInt32) :
    (Checksum m c (some p) size).log = (List.range size.toNat).map fun i => .read (p + i) := by
  by_cases h0 : size = 0
  · simp [Checksum, h0]
  · simp only [Checksum, if_neg h0, Traced.bind_log, Traced.pure_log, List.append_nil,
      sumWords_log, Nat.add_zero]

/-! ## The UDP checksum -/

/-- The pseudo header part of the UDP functions: length, addresses and protocol
byte, for the header of layout `ip` at `hdr`. -/
def pseudoChecksum (ip : IpLayout) (m : Mem) (hdr udpLen : ℕ) : Traced PacketEvent UInt32 := do
  let sum : UInt32 := 0
  let sum := sum + UInt32.ofNat udpLen
  let sum ← Checksum m sum (some (hdr + ip.abSrcAddr)) (UInt32.ofNat ip.addrLen)
  let sum ← Checksum m sum (some (hdr + ip.abDstAddr)) (UInt32.ofNat ip.addrLen)
  pure (sum + ((m (hdr + ip.bProtocol)).toUInt32 &&& 0x00FF))

/-- The body shared by `udp4_header_checksum` and `udp6_header_checksum`: the
header at `hdr` is of layout `ip`, the datagram of `udpLen` bytes is at `udp`. -/
def udpHeaderChecksum (o : ByteOrder) (ip : IpLayout) (m : Mem) (hdr udp udpLen : ℕ) :
    Traced PacketEvent Mem := do
  let m ← storeLen o m (udp + u16Length) udpLen
  let sum ← pseudoChecksum ip m hdr udpLen
  -- finish the pseudo header checksum; udp section
  let m := o.store16 m (udp + u16CheckSum) 0
  let sum ← Checksum m sum (some udp) (UInt32.ofNat udpLen)
  pure (o.store16 m (udp + u16CheckSum) (o.htons (~~~sum).toUInt16))

/-- `udp4_header_checksum(ptIPv4Header, ptUDPHeader, udpLen)`. -/
def udp4_header_checksum (o : ByteOrder) (m : Mem) (ptIPv4Header ptUDPHeader udpLen : ℕ) :
    Traced PacketEvent Mem :=
  udpHeaderChecksum o IPv4_HEADER_t m ptIPv4Header ptUDPHeader udpLen

/-- `udp6_header_checksum(pIpHeader, ptUDPHeader, udpLen)`. -/
def udp6_header_checksum (o : ByteOrder) (m : Mem) (pIpHeader ptUDPHeader udpLen : ℕ) :
    Traced PacketEvent Mem :=
  udpHeaderChecksum o IPv6_HEADER_t m pIpHeader ptUDPHeader udpLen

/-! ### What is summed -/

/-- The 16-bit one's-complement sum of a list of words. -/
def onesSum (ws : List ℕ) : ℕ := EndAround.sum 65535 ws

/-- The pseudo header as words: source address, destination address, the
protocol byte zero-extended, the length of the datagram. -/
def pseudoHeader (src dst : List UInt8) (proto : UInt8) (len : ℕ) : List ℕ :=
  beWords src ++ beWords dst ++ [proto.toNat, len]

/-- The pseudo header taken from an IP header in memory. -/
def IpLayout.pseudoHeader (ip : IpLayout) (m : Mem) (hdr len : ℕ) : List ℕ :=
  StudyTips.pseudoHeader (m.bytes (hdr + ip.abSrcAddr) ip.addrLen)
    (m.bytes (hdr + ip.abDstAddr) ip.addrLen) (m (hdr + ip.bProtocol)) len

theorem onesSum_eq_rep {ws : List ℕ} (h : ∀ w ∈ ws, w ≤ 65535) :
    onesSum ws = EndAround.rep 65535 ws.sum := EndAround.sum_eq_rep h

theorem pseudoHeader_le {src dst : List UInt8} {proto : UInt8} {len : ℕ} (hlen : len ≤ 65535) :
    ∀ w ∈ pseudoHeader src dst proto len, w ≤ 65535 := by
  intro w hw
  have hproto := proto.toNat_lt
  simp only [pseudoHeader, List.mem_append, List.mem_cons, List.not_mem_nil, or_false] at hw
  rcases hw with (hw | hw) | rfl | rfl
  · exact beWords_le _ w hw
  · exact beWords_le _ w hw
  · omega
  · exact hlen

theorem sum_pseudoHeader (src dst : List UInt8) (proto : UInt8) (len : ℕ) :
    (pseudoHeader src dst proto len).sum = beSum src + beSum dst + proto.toNat + len := by
  simp [pseudoHeader, beSum, Nat.add_assoc]

/-- The one's-complement sum over pseudo header and datagram is the end-around
representative of the plain sum. -/
theorem onesSum_datagram {src dst : List UInt8} {proto : UInt8} {len : ℕ} (hlen : len ≤ 65535)
    (bs : List UInt8) :
    onesSum (pseudoHeader src dst proto len ++ beWords bs) =
      EndAround.rep 65535 (beSum src + beSum dst + proto.toNat + len + beSum bs) := by
  have hle : ∀ w ∈ pseudoHeader src dst proto len ++ beWords bs, w ≤ 65535 := by
    intro w hw
    rcases List.mem_append.mp hw with hw | hw
    · exact pseudoHeader_le hlen w hw
    · exact beWords_le bs w hw
  rw [onesSum_eq_rep hle, List.sum_append, sum_pseudoHeader]
  rfl

/-- The memory over which the datagram is summed: the length field stored, the
checksum field zero. -/
def udpSummed (m : Mem) (udp udpLen : ℕ) : Mem :=
  (m.write (udp + u16Length) (ByteOrder.network16 (UInt16.ofNat udpLen))).write
    (udp + u16CheckSum) (ByteOrder.network16 0)

/-- The plain sum the UDP functions fold. -/
def udpSum (ip : IpLayout) (m : Mem) (hdr udp udpLen : ℕ) : ℕ :=
  (ip.pseudoHeader m hdr udpLen).sum + beSum ((udpSummed m udp udpLen).bytes udp udpLen)

/-- The value stored in the checksum field: the complement of the folded sum. -/
def udpCheck (ip : IpLayout) (m : Mem) (hdr udp udpLen : ℕ) : UInt16 :=
  UInt16.ofNat (65535 - EndAround.rep 65535 (udpSum ip m hdr udp udpLen))

/-- A folded sum fits 16 bits. -/
theorem rep16_le (s : ℕ) : EndAround.rep 65535 s ≤ 65535 := EndAround.rep_le (by decide) s

/-- `(uint16_t)(~sum)` of a folded sum is its complement to 65535. -/
theorem toUInt16_not {sum : UInt32} (h : sum.toNat ≤ 65535) :
    (~~~sum).toUInt16 = UInt16.ofNat (65535 - sum.toNat) := by
  apply UInt16.toNat_inj.mp
  rw [UInt32.toNat_toUInt16, UInt32.toNat_not, UInt16.toNat_ofNat']
  have := sum.toNat_lt
  simp only [UInt32.size]
  omega

theorem toNat_proto (b : UInt8) : (b.toUInt32 &&& (0x00FF : UInt32)).toNat = b.toNat := by
  have hb := b.toNat_lt
  have hmask : b.toNat &&& 0xff = b.toNat % 2 ^ 8 := Nat.and_two_pow_sub_one_eq_mod _ 8
  rw [UInt32.toNat_and, UInt8.toNat_toUInt32, show UInt32.toNat 0x00FF = 0xff from rfl, hmask,
    Nat.mod_eq_of_lt hb]

/-- Folding the next buffer into a partial sum `c` that stands for `s`. -/
theorem Checksum_chain {m : Mem} {c : UInt32} {p n s : ℕ} (hn : 0 < n) (hn' : n ≤ 65535)
    (hlt : c.toNat < 2 ^ 20) (hc : EndAround.rep 65535 c.toNat = EndAround.rep 65535 s) :
    (Checksum m c (some p) (UInt32.ofNat n)).val.toNat =
      EndAround.rep 65535 (s + beSum (m.bytes p n)) := by
  have hsize : (UInt32.ofNat n).toNat = n := by
    rw [UInt32.toNat_ofNat']
    omega
  have h0 : UInt32.ofNat n ≠ 0 := by
    intro h
    rw [h, UInt32.toNat_zero] at hsize
    omega
  have hbound : c.toNat + beSum (m.bytes p (UInt32.ofNat n).toNat) < 2 ^ 32 := by
    have hle := beSum_le (m.bytes p n)
    rw [Mem.length_bytes] at hle
    rw [hsize]
    omega
  rw [Checksum_val h0 hbound, hsize, ← EndAround.rep_rep_add, hc, EndAround.rep_rep_add]

/-- The pseudo header part stands for the plain sum of the pseudo header. -/
theorem pseudoChecksum_val (ip : IpLayout) (m : Mem) (hdr : ℕ) {udpLen : ℕ}
    (hlen : udpLen ≤ 65535) :
    (pseudoChecksum ip m hdr udpLen).val.toNat < 2 ^ 20 ∧
      EndAround.rep 65535 (pseudoChecksum ip m hdr udpLen).val.toNat =
        EndAround.rep 65535 (ip.pseudoHeader m hdr udpLen).sum := by
  have haddr := ip.addrLen_pos
  have haddr' := ip.addrLen_le
  have hstart : (0 + UInt32.ofNat udpLen).toNat = udpLen := by
    rw [UInt32.zero_add, UInt32.toNat_ofNat']
    omega
  -- each call folds, so the next one starts from at most 65535
  have hsrc := Checksum_chain (m := m) (p := hdr + ip.abSrcAddr) (c := 0 + UInt32.ofNat udpLen)
    (s := udpLen) haddr (by omega) (by omega) (by rw [hstart])
  have hdst := Checksum_chain (m := m) (p := hdr + ip.abDstAddr)
    (c := (Checksum m (0 + UInt32.ofNat udpLen) (some (hdr + ip.abSrcAddr))
      (UInt32.ofNat ip.addrLen)).val)
    (s := udpLen + beSum (m.bytes (hdr + ip.abSrcAddr) ip.addrLen)) haddr (by omega)
    (by have := rep16_le (udpLen + beSum (m.bytes (hdr + ip.abSrcAddr) ip.addrLen)); omega)
    (by rw [hsrc, EndAround.rep_rep])
  have hle := rep16_le (udpLen + beSum (m.bytes (hdr + ip.abSrcAddr) ip.addrLen) +
    beSum (m.bytes (hdr + ip.abDstAddr) ip.addrLen))
  have hb := (m (hdr + ip.bProtocol)).toNat_lt
  have hval : (pseudoChecksum ip m hdr udpLen).val.toNat =
      EndAround.rep 65535 (udpLen + beSum (m.bytes (hdr + ip.abSrcAddr) ip.addrLen) +
        beSum (m.bytes (hdr + ip.abDstAddr) ip.addrLen)) + (m (hdr + ip.bProtocol)).toNat := by
    simp only [pseudoChecksum, Traced.bind_val, Traced.pure_val]
    rw [UInt32.toNat_add, toNat_proto, hdst]
    omega
  rw [hval]
  refine ⟨by omega, ?_⟩
  rw [EndAround.rep_rep_add, IpLayout.pseudoHeader, sum_pseudoHeader]
  congr 1
  omega

/-- Storing the length does not touch the pseudo header. -/
theorem pseudoHeader_write (ip : IpLayout) {m : Mem} {hdr a : ℕ} {bs : List UInt8}
    (h : hdr + ip.sizeof ≤ a ∨ a + bs.length ≤ hdr) (len : ℕ) :
    ip.pseudoHeader (m.write a bs) hdr len = ip.pseudoHeader m hdr len := by
  have hsrc := ip.abSrcAddr_le
  have hdst := ip.abDstAddr_le
  have hproto := ip.bProtocol_lt
  rw [IpLayout.pseudoHeader, IpLayout.pseudoHeader, Mem.bytes_write_of_disjoint (by omega),
    Mem.bytes_write_of_disjoint (by omega), Mem.write_outside (by omega)]

/-- **What the UDP functions leave in memory**, when the IP header and the UDP
header do not overlap: the length field, and the complement of the folded sum. -/
theorem udpHeaderChecksum_val (o : ByteOrder) (ip : IpLayout) {m : Mem} {hdr udp udpLen : ℕ}
    (h8 : 8 ≤ udpLen) (hlen : udpLen ≤ 65535)
    (hdisj : hdr + ip.sizeof ≤ udp ∨ udp + UDP_HEADER_t.sizeof ≤ hdr) :
    (udpHeaderChecksum o ip m hdr udp udpLen).val =
      (udpSummed m udp udpLen).write (udp + u16CheckSum)
        (ByteOrder.network16 (udpCheck ip m hdr udp udpLen)) := by
  simp only [UDP_HEADER_t.sizeof] at hdisj
  set m₁ := m.write (udp + u16Length) (ByteOrder.network16 (UInt16.ofNat udpLen)) with hm₁
  have hpseudo : ip.pseudoHeader m₁ hdr udpLen = ip.pseudoHeader m hdr udpLen :=
    pseudoHeader_write ip (by simp only [u16Length, ByteOrder.length_network16]; omega) udpLen
  obtain ⟨hlt, hrep⟩ := pseudoChecksum_val ip m₁ hdr hlen
  rw [hpseudo] at hrep
  have hsum := Checksum_chain (m := udpSummed m udp udpLen) (p := udp) (by omega) hlen hlt hrep
  rw [← udpSum] at hsum
  have hfold : EndAround.rep 65535 (udpSum ip m hdr udp udpLen) ≤ 65535 := rep16_le _
  have hzero : ∀ mem : Mem, o.store16 mem (udp + u16CheckSum) 0 =
      mem.write (udp + u16CheckSum) (ByteOrder.network16 0) := fun mem => by cases o <;> rfl
  simp only [udpHeaderChecksum, Traced.bind_val, storeLen_val, Traced.pure_val, hzero,
    ByteOrder.store16_htons]
  rw [← hm₁, ← udpSummed.eq_1, toUInt16_not (by rw [hsum]; exact hfold), hsum, udpCheck]

/-! ### The completed datagram -/

/-- `m'` is `m` with the datagram of `udpLen` bytes at `udp` completed for the IP
header of layout `ip` at `hdr`. -/
structure Completed (ip : IpLayout) (m m' : Mem) (hdr udp udpLen : ℕ) : Prop where
  /-- the length field holds the length, in network order -/
  length : beWord (m' (udp + u16Length)) (m' (udp + u16Length + 1)) = udpLen
  /-- nothing changed but the length and the checksum field -/
  frame : ∀ a, a < udp + u16Length ∨ udp + UDP_HEADER_t.sizeof ≤ a → m' a = m a
  /-- the IP header is unchanged -/
  header : m'.bytes hdr ip.sizeof = m.bytes hdr ip.sizeof
  /-- pseudo header and datagram add up to all ones -/
  sum : onesSum (ip.pseudoHeader m hdr udpLen ++ beWords (m'.bytes udp udpLen)) = 0xFFFF

theorem toNat_udpCheck (ip : IpLayout) (m : Mem) (hdr udp udpLen : ℕ) :
    (udpCheck ip m hdr udp udpLen).toNat =
      65535 - EndAround.rep 65535 (udpSum ip m hdr udp udpLen) := by
  rw [udpCheck, UInt16.toNat_ofNat']
  omega

/-- The sum over the completed datagram: the checksum enters, a zero leaves. -/
theorem beSum_completed (m : Mem) {udp udpLen : ℕ} (h8 : 8 ≤ udpLen) (v : UInt16) :
    beSum (((udpSummed m udp udpLen).write (udp + u16CheckSum)
      (ByteOrder.network16 v)).bytes udp udpLen) =
      beSum ((udpSummed m udp udpLen).bytes udp udpLen) + v.toNat := by
  have h : beSum (((udpSummed m udp udpLen).write (udp + u16CheckSum)
      (ByteOrder.network16 v)).bytes udp udpLen) + beSum (ByteOrder.network16 0) =
        beSum ((udpSummed m udp udpLen).bytes udp udpLen) + beSum (ByteOrder.network16 v) :=
    beSum_bytes_rewrite rfl rfl (by decide) h8
  rwa [beSum_network16, beSum_network16] at h

/-- **The shared body completes the datagram.** -/
theorem udpHeaderChecksum_completed (o : ByteOrder) (ip : IpLayout) {m : Mem}
    {hdr udp udpLen : ℕ} (h8 : 8 ≤ udpLen) (hlen : udpLen ≤ 65535)
    (hdisj : hdr + ip.sizeof ≤ udp ∨ udp + UDP_HEADER_t.sizeof ≤ hdr) :
    Completed ip m (udpHeaderChecksum o ip m hdr udp udpLen).val hdr udp udpLen := by
  have hframe : ∀ a, a < udp + u16Length ∨ udp + UDP_HEADER_t.sizeof ≤ a →
      (udpHeaderChecksum o ip m hdr udp udpLen).val a = m a := by
    intro a ha
    simp only [u16Length, UDP_HEADER_t.sizeof] at ha
    rw [udpHeaderChecksum_val o ip h8 hlen hdisj, udpSummed]
    simp only [u16Length, u16CheckSum]
    simp (disch := omega) only [ByteOrder.write_network16_outside]
  refine ⟨?_, hframe, ?_, ?_⟩
  · -- the checksum field lies behind the length field
    rw [udpHeaderChecksum_val o ip h8 hlen hdisj, udpSummed]
    simp (disch := omega) only [u16Length, u16CheckSum, ByteOrder.write_network16_outside]
    rw [beWord_write_network16, UInt16.toNat_ofNat']
    omega
  · apply Mem.bytes_congr
    intro x hx hx'
    simp only [u16Length, UDP_HEADER_t.sizeof] at hframe hdisj
    exact hframe x (by omega)
  · -- the folded sum and its complement add up to all ones
    rw [udpHeaderChecksum_val o ip h8 hlen hdisj, IpLayout.pseudoHeader, onesSum_datagram hlen,
      beSum_completed m h8, toNat_udpCheck, ← sum_pseudoHeader, ← Nat.add_assoc]
    exact EndAround.rep_add_complement (by decide) _

/-- **Both UDP checksum functions complete their datagram**, on a host of either
byte order, for every length that fits the field. -/
theorem udp_header_checksums_complete (o : ByteOrder) (m : Mem) (hdr udp udpLen : ℕ)
    (h8 : 8 ≤ udpLen) (hlen : udpLen ≤ 65535) :
    (hdr + IPv4_HEADER_t.sizeof ≤ udp ∨ udp + UDP_HEADER_t.sizeof ≤ hdr →
      Completed IPv4_HEADER_t m (udp4_header_checksum o m hdr udp udpLen).val hdr udp udpLen) ∧
    (hdr + IPv6_HEADER_t.sizeof ≤ udp ∨ udp + UDP_HEADER_t.sizeof ≤ hdr →
      Completed IPv6_HEADER_t m (udp6_header_checksum o m hdr udp udpLen).val hdr udp udpLen) :=
  ⟨udpHeaderChecksum_completed o IPv4_HEADER_t h8 hlen,
    udpHeaderChecksum_completed o IPv6_HEADER_t h8 hlen⟩

/-- An odd datagram of nine bytes behind an IPv4 header, and behind an IPv6 one. -/
theorem udp_header_checksums_complete_nine :
    Completed IPv4_HEADER_t (fun a => UInt8.ofNat a)
      (udp4_header_checksum .little (fun a => UInt8.ofNat a) 0 20 9).val 0 20 9 ∧
    Completed IPv6_HEADER_t (fun a => UInt8.ofNat a)
      (udp6_header_checksum .little (fun a => UInt8.ofNat a) 0 40 9).val 0 40 9 :=
  ⟨(udp_header_checksums_complete .little _ 0 20 9 (by decide) (by decide)).1 (by decide),
    (udp_header_checksums_complete .little _ 0 40 9 (by decide) (by decide)).2 (by decide)⟩

/-! ### What the UDP functions touch -/

theorem all_Checksum {P : PacketEvent → Prop} {m : Mem} {c : UInt32} {p : ℕ} {size : UInt32} :
    (Checksum m c (some p) size).All P ↔ ∀ i < size.toNat, P (.read (p + i)) := by
  simp only [Traced.All, Checksum_log, List.mem_map, List.mem_range]
  exact ⟨fun h i hi => h _ ⟨i, hi, rfl⟩, by rintro h _ ⟨i, hi, rfl⟩; exact h i hi⟩

theorem all_storeLen {P : PacketEvent → Prop} {o : ByteOrder} {m : Mem} {a size : ℕ} :
    (storeLen o m a size).All P ↔ P (.storeLen a size (UInt16.ofNat size)) := by
  simp [Traced.All]

/-- **The events of the UDP functions**: the length store, and the reads of both
addresses and of the whole datagram. -/
theorem all_udpHeaderChecksum {P : PacketEvent → Prop} {o : ByteOrder} {ip : IpLayout} {m : Mem}
    {hdr udp udpLen : ℕ} (hlen : udpLen < 2 ^ 32) :
    (udpHeaderChecksum o ip m hdr udp udpLen).All P ↔
      P (.storeLen (udp + u16Length) udpLen (UInt16.ofNat udpLen)) ∧
        (∀ i < ip.addrLen, P (.read (hdr + ip.abSrcAddr + i))) ∧
        (∀ i < ip.addrLen, P (.read (hdr + ip.abDstAddr + i))) ∧
        ∀ i < udpLen, P (.read (udp + i)) := by
  have haddr : (UInt32.ofNat ip.addrLen).toNat = ip.addrLen := by
    have := ip.addrLen_le
    rw [UInt32.toNat_ofNat']
    omega
  have hudp : (UInt32.ofNat udpLen).toNat = udpLen := by
    rw [UInt32.toNat_ofNat']
    omega
  simp only [udpHeaderChecksum, pseudoChecksum, Traced.all_bind, all_storeLen, all_Checksum,
    haddr, hudp, Traced.all_pure, and_true, and_assoc]

end StudyTips
