import StudyTips.Header

/-!
# What the UDP checksum field says

The field stored by `udp4_header_checksum` and `udp6_header_checksum` is the complement of
an end-around representative, so it depends on the plain sum of pseudo header
and datagram only through its class modulo 65535.

* `beSum_bytes_change`: changing one byte changes the plain sum by 1 or 256 times the
  change, which is never a multiple of 65535; so the field changes
  (`one_byte_changes_checksum`).
* `checksum_nonzero_iff`: the field is zero exactly for the plain sums that are multiples of
  65535. Neither function replaces such a zero, which on the wire means
  that there is no checksum.
-/

namespace StudyTips

open Bytes

/-- The checksum field of the datagram at `udp`, as it goes over the wire. -/
def checksumField (m : Mem) (udp : ℕ) : ℕ :=
  beWord (m (udp + u16CheckSum)) (m (udp + u16CheckSum + 1))

theorem checksumField_udpHeaderChecksum (o : ByteOrder) (ip : IpLayout) {m : Mem}
    {hdr udp udpLen : ℕ} (h8 : 8 ≤ udpLen) (hlen : udpLen ≤ 65535)
    (hdisj : hdr + ip.sizeof ≤ udp ∨ udp + UDP_HEADER_t.sizeof ≤ hdr) :
    checksumField (udpHeaderChecksum o ip m hdr udp udpLen).val udp =
      65535 - EndAround.rep 65535 (udpSum ip m hdr udp udpLen) := by
  rw [udpHeaderChecksum_val o ip h8 hlen hdisj, checksumField, beWord_write_network16,
    toNat_udpCheck]

/-! ## One changed byte -/

/-- What a byte counts for at offset `i` of a sequence of big-endian words. -/
def byteWeight (i : ℕ) : ℕ := if i % 2 = 0 then 256 else 1

/-- **Changing one byte of a range**: its old value leaves the sum of the words with the
weight of its offset, and its new one enters. -/
theorem beSum_bytes_change {m m' : Mem} {a : ℕ} : ∀ {p n : ℕ}, p ≤ a → a < p + n →
    (∀ x, p ≤ x → x < p + n → x ≠ a → m x = m' x) →
      beSum (m'.bytes p n) + byteWeight (a - p) * (m a).toNat =
        beSum (m.bytes p n) + byteWeight (a - p) * (m' a).toNat
  | p, 0, hp, hn, _ => absurd hp (Nat.not_le.mpr hn)
  | p, 1, hp, hn, _ => by
    obtain rfl : a = p := by omega
    rw [Nat.sub_self, Mem.bytes_succ, Mem.bytes_succ, Mem.bytes_zero, Mem.bytes_zero,
      beSum_singleton, beSum_singleton, beWord, beWord, byteWeight, if_pos rfl]
    omega
  | p, n + 2, hp, hn, hsame => by
    rw [Mem.bytes_succ, Mem.bytes_succ, Mem.bytes_succ, Mem.bytes_succ, beSum_cons_cons,
      beSum_cons_cons, beWord, beWord]
    rcases Nat.lt_or_ge a (p + 1 + 1) with hword | hrest
    · -- the byte is in the first word, and the words behind it are the same
      have htail : m.bytes (p + 1 + 1) n = m'.bytes (p + 1 + 1) n :=
        Mem.bytes_congr fun x hx hx' => hsame x (by omega) (by omega) (by omega)
      rw [htail]
      rcases Nat.lt_or_ge a (p + 1) with hhi | hlo
      · obtain rfl : a = p := by omega
        have h1 := hsame (a + 1) (by omega) (by omega) (by omega)
        rw [h1, Nat.sub_self, byteWeight, if_pos rfl]
        omega
      · obtain rfl : a = p + 1 := by omega
        have h0 := hsame p (by omega) (by omega) (by omega)
        rw [h0, Nat.add_sub_cancel_left, byteWeight, if_neg (by decide)]
        omega
    · have h0 := hsame p (by omega) (by omega) (by omega)
      have h1 := hsame (p + 1) (by omega) (by omega) (by omega)
      have ih := beSum_bytes_change hrest (show a < p + 1 + 1 + n by omega)
        fun x hx hx' hne => hsame x (by omega) (by omega) hne
      have hweight : byteWeight (a - (p + 1 + 1)) = byteWeight (a - p) := by
        rw [byteWeight, byteWeight, show (a - (p + 1 + 1)) % 2 = (a - p) % 2 by omega]
      rw [hweight] at ih
      rw [h0, h1]
      omega

/-- **A change of one byte never merges two sums.** -/
theorem rep_ne_of_change {s s' i : ℕ} {b b' : UInt8} (hb : b ≠ b')
    (h : s' + byteWeight i * b.toNat = s + byteWeight i * b'.toNat) :
    EndAround.rep 65535 s ≠ EndAround.rep 65535 s' := by
  intro heq
  have hclass : s % 65535 = s' % 65535 := (EndAround.rep_eq_rep_iff.mp heq).1
  have hne : b.toNat ≠ b'.toNat := fun hnat => hb (UInt8.toNat_inj.mp hnat)
  have hlt := b.toNat_lt
  have hlt' := b'.toNat_lt
  rw [byteWeight] at h
  split at h
  next => omega
  next => omega

/-- The inputs of a UDP function in `m` and in `m'` differ in the byte at `a` and in no other,
and it is a byte the checksum covers: of an address, the protocol byte, or of the
datagram outside its length and its checksum field. -/
structure OneByte (ip : IpLayout) (m m' : Mem) (hdr udp udpLen a : ℕ) : Prop where
  /-- the checksum covers the byte -/
  covered : (hdr + ip.abSrcAddr ≤ a ∧ a < hdr + ip.abSrcAddr + ip.addrLen) ∨
    (hdr + ip.abDstAddr ≤ a ∧ a < hdr + ip.abDstAddr + ip.addrLen) ∨
    a = hdr + ip.bProtocol ∨
    (udp ≤ a ∧ a < udp + udpLen ∧ (a < udp + u16Length ∨ udp + UDP_HEADER_t.sizeof ≤ a))
  /-- the byte at `a` is different -/
  ne : m a ≠ m' a
  /-- the other bytes of the header are the same -/
  header : ∀ x, hdr ≤ x → x < hdr + ip.sizeof → x ≠ a → m x = m' x
  /-- the other bytes of the datagram are the same -/
  datagram : ∀ x, udp ≤ x → x < udp + udpLen → x ≠ a → m x = m' x

theorem udpSummed_outside {m : Mem} {udp udpLen x : ℕ}
    (h : x < udp + u16Length ∨ udp + UDP_HEADER_t.sizeof ≤ x) : udpSummed m udp udpLen x = m x := by
  simp only [u16Length, UDP_HEADER_t.sizeof] at h
  rw [udpSummed, ByteOrder.write_network16_outside (by simp only [u16CheckSum]; omega),
    ByteOrder.write_network16_outside (by simp only [u16Length]; omega)]

/-- What is summed differs only where the datagrams do. -/
theorem udpSummed_congr {m m' : Mem} {udp udpLen x : ℕ} (h : m x = m' x) :
    udpSummed m udp udpLen x = udpSummed m' udp udpLen x := by
  simp only [udpSummed, Mem.write, h]

/-- The plain sum of inputs that differ in one byte. -/
theorem OneByte.udpSum_change {ip : IpLayout} {m m' : Mem} {hdr udp udpLen a : ℕ}
    (h : OneByte ip m m' hdr udp udpLen a) (hproto : ip.bProtocol < ip.abSrcAddr)
    (haddr : ip.abSrcAddr + ip.addrLen ≤ ip.abDstAddr)
    (hdisj : hdr + ip.sizeof ≤ udp ∨ udp + udpLen ≤ hdr) :
    ∃ i, udpSum ip m' hdr udp udpLen + byteWeight i * (m a).toNat =
      udpSum ip m hdr udp udpLen + byteWeight i * (m' a).toNat := by
  obtain ⟨hcov, -, hhdr, hudp⟩ := h
  have hsrcLe := ip.abSrcAddr_le
  have hdstLe := ip.abDstAddr_le
  -- each part of the sum the byte is not in is the same
  have hdgram : a < udp ∨ udp + udpLen ≤ a →
      (udpSummed m udp udpLen).bytes udp udpLen = (udpSummed m' udp udpLen).bytes udp udpLen :=
    fun hout => Mem.bytes_congr fun x hx hx' => udpSummed_congr (hudp x hx hx' (by omega))
  have hsrc : a < hdr + ip.abSrcAddr ∨ hdr + ip.abSrcAddr + ip.addrLen ≤ a →
      m.bytes (hdr + ip.abSrcAddr) ip.addrLen = m'.bytes (hdr + ip.abSrcAddr) ip.addrLen :=
    fun hout => Mem.bytes_congr fun x hx hx' => hhdr x (by omega) (by omega) (by omega)
  have hdst : a < hdr + ip.abDstAddr ∨ hdr + ip.abDstAddr + ip.addrLen ≤ a →
      m.bytes (hdr + ip.abDstAddr) ip.addrLen = m'.bytes (hdr + ip.abDstAddr) ip.addrLen :=
    fun hout => Mem.bytes_congr fun x hx hx' => hhdr x (by omega) (by omega) (by omega)
  have hprot : a ≠ hdr + ip.bProtocol → m (hdr + ip.bProtocol) = m' (hdr + ip.bProtocol) :=
    fun hout => hhdr _ (by omega) (by omega) (Ne.symm hout)
  simp only [udpSum, IpLayout.pseudoHeader, sum_pseudoHeader]
  rcases hcov with ⟨hlo, hhi⟩ | ⟨hlo, hhi⟩ | rfl | ⟨hlo, hhi, hfields⟩
  · have hchange := beSum_bytes_change hlo hhi fun x hx hx' hne => hhdr x (by omega) (by omega) hne
    refine ⟨a - (hdr + ip.abSrcAddr), ?_⟩
    rw [hdgram (by omega), hdst (by omega), hprot (by omega)]
    omega
  · have hchange := beSum_bytes_change hlo hhi fun x hx hx' hne => hhdr x (by omega) (by omega) hne
    refine ⟨a - (hdr + ip.abDstAddr), ?_⟩
    rw [hdgram (by omega), hsrc (by omega), hprot (by omega)]
    omega
  · refine ⟨1, ?_⟩
    rw [hdgram (by omega), hsrc (by omega), hdst (by omega), byteWeight, if_neg (by decide)]
    omega
  · have hsame : ∀ x, udp ≤ x → x < udp + udpLen → x ≠ a →
        udpSummed m udp udpLen x = udpSummed m' udp udpLen x :=
      fun x hx hx' hne => udpSummed_congr (hudp x hx hx' hne)
    have hchange := beSum_bytes_change hlo hhi hsame
    rw [udpSummed_outside hfields, udpSummed_outside hfields] at hchange
    refine ⟨a - udp, ?_⟩
    rw [hsrc (by omega), hdst (by omega), hprot (by omega)]
    omega

/-- The shared body stores different checksums for inputs that differ in one byte. -/
theorem OneByte.checksumField_ne {ip : IpLayout} {m m' : Mem} {hdr udp udpLen a : ℕ}
    (h : OneByte ip m m' hdr udp udpLen a) (hproto : ip.bProtocol < ip.abSrcAddr)
    (haddr : ip.abSrcAddr + ip.addrLen ≤ ip.abDstAddr) (h8 : 8 ≤ udpLen) (hlen : udpLen ≤ 65535)
    (hdisj : hdr + ip.sizeof ≤ udp ∨ udp + udpLen ≤ hdr) (o : ByteOrder) :
    checksumField (udpHeaderChecksum o ip m hdr udp udpLen).val udp ≠
      checksumField (udpHeaderChecksum o ip m' hdr udp udpLen).val udp := by
  have hheader : hdr + ip.sizeof ≤ udp ∨ udp + UDP_HEADER_t.sizeof ≤ hdr := by
    simp only [UDP_HEADER_t.sizeof]
    omega
  obtain ⟨i, hchange⟩ := h.udpSum_change hproto haddr hdisj
  have hrep := rep_ne_of_change h.ne hchange
  have hm := rep16_le (udpSum ip m hdr udp udpLen)
  have hm' := rep16_le (udpSum ip m' hdr udp udpLen)
  rw [checksumField_udpHeaderChecksum o ip h8 hlen hheader,
    checksumField_udpHeaderChecksum o ip h8 hlen hheader]
  omega

/-- **A changed byte changes the checksum**, whichever it is of those both functions cover, at
every length, on a host of either byte order. -/
theorem one_byte_changes_checksum (o : ByteOrder) (m m' : Mem) (hdr udp udpLen a : ℕ)
    (h8 : 8 ≤ udpLen) (hlen : udpLen ≤ 65535) :
    (OneByte IPv4_HEADER_t m m' hdr udp udpLen a →
      hdr + IPv4_HEADER_t.sizeof ≤ udp ∨ udp + udpLen ≤ hdr →
      checksumField (udp4_header_checksum o m hdr udp udpLen).val udp ≠
        checksumField (udp4_header_checksum o m' hdr udp udpLen).val udp) ∧
    (OneByte IPv6_HEADER_t m m' hdr udp udpLen a →
      hdr + IPv6_HEADER_t.sizeof ≤ udp ∨ udp + udpLen ≤ hdr →
      checksumField (udp6_header_checksum o m hdr udp udpLen).val udp ≠
        checksumField (udp6_header_checksum o m' hdr udp udpLen).val udp) :=
  ⟨fun h hdisj => h.checksumField_ne (by decide) (by decide) h8 hlen hdisj o,
    fun h hdisj => h.checksumField_ne (by decide) (by decide) h8 hlen hdisj o⟩

/-- The odd last byte of a datagram of nine bytes, behind a header of either version. -/
theorem one_byte_changes_checksum_tail :
    checksumField (udp4_header_checksum .little (fun _ => 0) 0 20 9).val 20 ≠
      checksumField (udp4_header_checksum .little (Mem.write (fun _ => 0) 28 [1]) 0 20 9).val 20 ∧
    checksumField (udp6_header_checksum .little (fun _ => 0) 0 40 9).val 40 ≠
      checksumField (udp6_header_checksum .little (Mem.write (fun _ => 0) 48 [1]) 0 40 9).val 40 := by
  have hsame : ∀ a x : ℕ, x ≠ a → (0 : UInt8) = Mem.write (fun _ => 0) a [1] x := by
    intro a x hne
    rw [Mem.write_byte_outside (by omega)]
  have h4 : OneByte IPv4_HEADER_t (fun _ => 0) (Mem.write (fun _ => 0) 28 [1]) 0 20 9 28 :=
    ⟨by decide, by decide, fun x _ _ hne => hsame 28 x hne, fun x _ _ hne => hsame 28 x hne⟩
  have h6 : OneByte IPv6_HEADER_t (fun _ => 0) (Mem.write (fun _ => 0) 48 [1]) 0 40 9 48 :=
    ⟨by decide, by decide, fun x _ _ hne => hsame 48 x hne, fun x _ _ hne => hsame 48 x hne⟩
  exact ⟨(one_byte_changes_checksum .little _ _ 0 20 9 28 (by decide) (by decide)).1 h4 (by decide),
    (one_byte_changes_checksum .little _ _ 0 40 9 48 (by decide) (by decide)).2 h6 (by decide)⟩

/-! ## The zero checksum -/

theorem udpSum_pos (ip : IpLayout) (m : Mem) (hdr udp : ℕ) {udpLen : ℕ} (h8 : 8 ≤ udpLen) :
    udpSum ip m hdr udp udpLen ≠ 0 := by
  rw [udpSum, IpLayout.pseudoHeader, sum_pseudoHeader]
  omega

/-- The shared body stores zero for the multiples of 65535. -/
theorem checksumField_ne_zero_iff (o : ByteOrder) (ip : IpLayout) {m : Mem} {hdr udp udpLen : ℕ}
    (h8 : 8 ≤ udpLen) (hlen : udpLen ≤ 65535)
    (hdisj : hdr + ip.sizeof ≤ udp ∨ udp + UDP_HEADER_t.sizeof ≤ hdr) :
    checksumField (udpHeaderChecksum o ip m hdr udp udpLen).val udp ≠ 0 ↔
      ¬ 65535 ∣ udpSum ip m hdr udp udpLen := by
  have hle := rep16_le (udpSum ip m hdr udp udpLen)
  have htop : EndAround.rep 65535 (udpSum ip m hdr udp udpLen) = 65535 ↔
      65535 ∣ udpSum ip m hdr udp udpLen := by
    rw [EndAround.rep_eq_top_iff (by decide), and_iff_right (udpSum_pos ip m hdr udp h8)]
  rw [checksumField_udpHeaderChecksum o ip h8 hlen hdisj, ← htop]
  omega

/-- **The stored checksum is not zero exactly when the words of pseudo header and datagram do
not add up to a multiple of 65535**: nothing replaces a computed zero. -/
theorem checksum_nonzero_iff (o : ByteOrder) (m : Mem) (hdr udp udpLen : ℕ)
    (h8 : 8 ≤ udpLen) (hlen : udpLen ≤ 65535) :
    (hdr + IPv4_HEADER_t.sizeof ≤ udp ∨ udp + UDP_HEADER_t.sizeof ≤ hdr →
      (checksumField (udp4_header_checksum o m hdr udp udpLen).val udp ≠ 0 ↔
        ¬ 65535 ∣ udpSum IPv4_HEADER_t m hdr udp udpLen)) ∧
    (hdr + IPv6_HEADER_t.sizeof ≤ udp ∨ udp + UDP_HEADER_t.sizeof ≤ hdr →
      (checksumField (udp6_header_checksum o m hdr udp udpLen).val udp ≠ 0 ↔
        ¬ 65535 ∣ udpSum IPv6_HEADER_t m hdr udp udpLen)) :=
  ⟨checksumField_ne_zero_iff o IPv4_HEADER_t h8 hlen,
    checksumField_ne_zero_iff o IPv6_HEADER_t h8 hlen⟩

/-- A datagram of zeros is stored with a checksum, behind a header of either version. -/
theorem checksum_nonzero_iff_zeros :
    checksumField (udp4_header_checksum .little (fun _ => 0) 0 20 8).val 20 ≠ 0 ∧
      checksumField (udp6_header_checksum .little (fun _ => 0) 0 40 8).val 40 ≠ 0 :=
  ⟨((checksum_nonzero_iff .little _ 0 20 8 (by decide) (by decide)).1 (by decide)).mpr
      (by decide +kernel),
    ((checksum_nonzero_iff .little _ 0 40 8 (by decide) (by decide)).2 (by decide)).mpr
      (by decide +kernel)⟩

/-- An empty datagram from 127.0.0.1, port 423, to port 53 there, behind its header. -/
def loopback4 : Mem := Mem.write (fun _ => 0) 0
  [0x45, 0, 0, 28, 0, 0, 0, 0, 64, 17, 0, 0, 127, 0, 0, 1, 127, 0, 0, 1,
    0x01, 0xA7, 0, 53, 0, 0, 0, 0]

/-- An empty datagram from ::1, port 65447, to port 53 there, behind its header. -/
def loopback6 : Mem := Mem.write (fun _ => 0) 0
  [0x60, 0, 0, 0, 0, 8, 17, 128, 0, 0, 0, 0, 0, 0, 0, 0, 0, 0, 0, 0, 0, 0, 0, 1,
    0, 0, 0, 0, 0, 0, 0, 0, 0, 0, 0, 0, 0, 0, 0, 1, 0xFF, 0xA7, 0, 53, 0, 0, 0, 0]

/-- The two datagrams add up to all ones, and are stored with a checksum of zero. -/
theorem checksum_zero_loopback :
    checksumField (udp4_header_checksum .little loopback4 0 20 8).val 20 = 0 ∧
      checksumField (udp6_header_checksum .little loopback6 0 40 8).val 40 = 0 := by
  decide +kernel

end StudyTips
