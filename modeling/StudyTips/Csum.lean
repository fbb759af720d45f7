import StudyTips.ChecksumField

/-!
# `c/common/header.h`: the checksum over host words

`csum` sums a buffer as words in the byte order of the host, into an `unsigned long`, and
returns the complement of the folded sum. On a little-endian host its words are
the big-endian ones with their bytes swapped, and modulo 65535 swapping is
multiplying by 256.

* `csum_eq_htons_Checksum`: so `csum` is `Checksum`, complemented and in network order.
* `udp_header_checksum2_agree_iff`: the UDP functions built on `csum` assign to the
  sum where the others add to it. What they store is the datagram's sum alone,
  complemented twice and swapped, and the lemma says when that happens to be right.
-/

namespace StudyTips

open Bytes

/-! ## `csum` -/

/-- The summing loop of `csum` and the odd byte after it: `packlen` bytes are left at
`packet`. -/
def csumWords (o : ByteOrder) (m : Mem) : (packet packlen : ℕ) → UInt64 → UInt64
  | packet, packlen + 2, sum =>
    csumWords o m (packet + 2) packlen (sum + (o.load16 m packet).toUInt64)
  | packet, 1, sum => sum + (m packet).toUInt64
  | _, 0, sum => sum

theorem toNat_high48 (sum : UInt64) : (sum >>> 16).toNat = sum.toNat / 65536 := by
  rw [UInt64.toNat_shiftRight]
  exact Nat.shiftRight_eq_div_pow _ _

theorem toNat_fold64 (sum : UInt64) :
    ((sum &&& (0xffff : UInt64)) + (sum >>> 16)).toNat = EndAround.carry 65535 sum.toNat := by
  have hsum := sum.toNat_lt
  have hlow : (sum &&& (0xffff : UInt64)).toNat = sum.toNat % 65536 := by
    rw [UInt64.toNat_and]
    exact Nat.and_two_pow_sub_one_eq_mod sum.toNat 16
  rw [UInt64.toNat_add, hlow, toNat_high48, EndAround.carry]
  omega

theorem shiftRight16_eq_zero64 {sum : UInt64} : sum >>> 16 = 0 ↔ sum.toNat ≤ 65535 := by
  rw [← UInt64.toNat_inj, toNat_high48, UInt64.toNat_zero]
  omega

/-- The folding loop of `csum`. -/
def csumFold (sum : UInt64) : UInt64 :=
  if sum >>> 16 = 0 then sum else csumFold ((sum &&& (0xffff : UInt64)) + (sum >>> 16))
termination_by sum.toNat
decreasing_by
  rename_i h
  rw [shiftRight16_eq_zero64] at h
  rw [toNat_fold64]
  exact EndAround.carry_lt (by decide) (by omega)

/-- `csum(packet, packlen)`. Both loops of the source do nothing where `packlen`, an `int`,
is negative; `unsigned long` has 64 bits. -/
def csum (o : ByteOrder) (m : Mem) (packet : ℕ) (packlen : Int32) : UInt16 :=
  (~~~ csumFold (csumWords o m packet packlen.toInt.toNat 0)).toUInt16

theorem toNat_csumFold (sum : UInt64) : (csumFold sum).toNat = EndAround.rep 65535 sum.toNat := by
  induction sum using csumFold.induct with
  | case1 sum h => rw [csumFold, if_pos h, EndAround.rep_of_le (shiftRight16_eq_zero64.mp h)]
  | case2 sum h ih => rw [csumFold, if_neg h, ih, toNat_fold64, EndAround.rep_carry]

/-! ## Little-endian words -/

/-- The little-endian word of two bytes. -/
def leWord (lo hi : UInt8) : ℕ := lo.toNat + 256 * hi.toNat

/-- The plain sum of the little-endian words of a byte list; a last odd byte is the low
half of a word. -/
def leSum : List UInt8 → ℕ
  | lo :: hi :: rest => leWord lo hi + leSum rest
  | [lo] => leWord lo 0
  | [] => 0

theorem leSum_le : ∀ bs : List UInt8, leSum bs ≤ 65535 * ((bs.length + 1) / 2)
  | [] => by simp [leSum]
  | [lo] => by
    have hlo := lo.toNat_lt
    rw [leSum, leWord, UInt8.toNat_zero, List.length_singleton]
    omega
  | lo :: hi :: rest => by
    have hlo := lo.toNat_lt
    have hhi := hi.toNat_lt
    have ih := leSum_le rest
    rw [leSum, leWord, List.length_cons, List.length_cons]
    omega

/-- **Swapping the bytes of all words multiplies their sum by 256**, modulo 65535; and no
sum becomes zero by that. -/
theorem leSum_beSum : ∀ bs : List UInt8,
    leSum bs % 65535 = 256 * beSum bs % 65535 ∧ (leSum bs = 0 ↔ beSum bs = 0)
  | [] => ⟨rfl, Iff.rfl⟩
  | [lo] => by
    rw [leSum, leWord, beSum_singleton, beWord, UInt8.toNat_zero]
    omega
  | lo :: hi :: rest => by
    obtain ⟨hmod, hzero⟩ := leSum_beSum rest
    rw [leSum, leWord, beSum_cons_cons, beWord]
    omega

theorem rep_leSum (bs : List UInt8) :
    EndAround.rep 65535 (leSum bs) = EndAround.rep 65535 (256 * beSum bs) := by
  obtain ⟨hmod, hzero⟩ := leSum_beSum bs
  exact EndAround.rep_congr hmod (by omega)

/-- On a little-endian host the summing loop adds up the little-endian words. -/
theorem toNat_csumWords {m : Mem} : ∀ {packet packlen : ℕ} {sum : UInt64},
    sum.toNat + leSum (m.bytes packet packlen) < 2 ^ 64 →
      (csumWords .little m packet packlen sum).toNat = sum.toNat + leSum (m.bytes packet packlen)
  | _, 0, _, _ => rfl
  | packet, 1, sum, h => by
    rw [Mem.bytes_succ, Mem.bytes_zero, leSum, leWord, UInt8.toNat_zero] at h ⊢
    rw [csumWords, UInt64.toNat_add, UInt8.toNat_toUInt64, Nat.mod_eq_of_lt (by omega)]
    omega
  | packet, packlen + 2, sum, h => by
    rw [Mem.bytes_succ, Mem.bytes_succ, leSum, show packet + 1 + 1 = packet + 2 from rfl] at h ⊢
    have hlo := (m packet).toNat_lt
    have hhi := (m (packet + 1)).toNat_lt
    have hword : (ByteOrder.little.load16 m packet).toUInt64.toNat =
        leWord (m packet) (m (packet + 1)) := by
      rw [UInt16.toNat_toUInt64, ByteOrder.load16, UInt16.toNat_ofNat', leWord]
      omega
    have hsum : (sum + (ByteOrder.little.load16 m packet).toUInt64).toNat =
        sum.toNat + leWord (m packet) (m (packet + 1)) := by
      rw [UInt64.toNat_add, hword, Nat.mod_eq_of_lt (by omega)]
    rw [csumWords, toNat_csumWords (by rw [hsum]; omega), hsum]
    omega

/-! ## `csum` and `Checksum` -/

/-- A word with its bytes swapped. -/
def swap16 (v : ℕ) : ℕ := v % 256 * 256 + v / 256

/-- Folded, the sum of the swapped words is the swapped sum of the words. -/
theorem rep_swap16 (s : ℕ) :
    EndAround.rep 65535 (256 * s) = swap16 (EndAround.rep 65535 s) := by
  have hle := rep16_le s
  have hclass : EndAround.rep 65535 s % 65535 = s % 65535 := EndAround.rep_modEq s
  have hzero : EndAround.rep 65535 s = 0 ↔ s = 0 := EndAround.rep_eq_zero
  have hswap : 256 * s ≡ swap16 (EndAround.rep 65535 s) [MOD 65535] := by
    rw [Nat.ModEq, swap16]
    omega
  rw [EndAround.rep_congr hswap (by rw [swap16]; omega),
    EndAround.rep_of_le (by rw [swap16]; omega)]

/-- **What `csum` returns** on a little-endian host: the complement of the folded sum of the
big-endian words, swapped. -/
theorem toNat_csum {m : Mem} {packet n : ℕ} (hn : n < 2 ^ 31) :
    (csum .little m packet (Int32.ofNat n)).toNat =
      65535 - swap16 (EndAround.rep 65535 (beSum (m.bytes packet n))) := by
  have hpacklen : (Int32.ofNat n).toInt.toNat = n := by
    rw [Int32.toInt_ofNat_of_lt hn, Int.toNat_natCast]
  have hle := leSum_le (m.bytes packet n)
  rw [Mem.length_bytes] at hle
  have hsum : (csumFold (csumWords .little m packet n 0)).toNat =
      swap16 (EndAround.rep 65535 (beSum (m.bytes packet n))) := by
    rw [toNat_csumFold, toNat_csumWords (by rw [UInt64.toNat_zero]; omega), UInt64.toNat_zero,
      Nat.zero_add, rep_leSum, rep_swap16]
  have hfit : (csumFold (csumWords .little m packet n 0)).toNat ≤ 65535 := by
    rw [toNat_csumFold]
    exact rep16_le _
  rw [csum, hpacklen, ← hsum, UInt64.toNat_toUInt16, UInt64.toNat_not, UInt64.size]
  omega

/-- `htons` of a complement, on a little-endian host, is the complement of the swapped word. -/
theorem toNat_htons_not {v : ℕ} (hv : v ≤ 65535) :
    (ByteOrder.little.htons (UInt16.ofNat (65535 - v))).toNat = 65535 - swap16 v := by
  have hword : (UInt16.ofNat (65535 - v)).toNat = 65535 - v := by
    rw [UInt16.toNat_ofNat']
    omega
  have hlow : (65535 - v) % 256 = 255 - v % 256 := by omega
  have hhigh : (65535 - v) / 256 = 255 - v / 256 := by omega
  rw [ByteOrder.htons, hword, hlow, hhigh, UInt16.toNat_ofNat', swap16]
  omega

/-- **`csum` over a buffer is `Checksum` over it**, complemented and in network order, on a
little-endian host, as long as the 32 bits of `Checksum` hold the sum. -/
theorem csum_eq_htons_Checksum (m : Mem) (p : ℕ) {n : ℕ} (hn : n ≤ 131074) :
    csum .little m p (Int32.ofNat n) =
      ByteOrder.little.htons (~~~(Checksum m 0 (some p) (UInt32.ofNat n)).val).toUInt16 := by
  have hle := beSum_le (m.bytes p n)
  rw [Mem.length_bytes] at hle
  have hsize : (UInt32.ofNat n).toNat = n := by
    rw [UInt32.toNat_ofNat']
    omega
  have hrep := rep16_le (beSum (m.bytes p n))
  have hval : (Checksum m 0 (some p) (UInt32.ofNat n)).val.toNat =
      EndAround.rep 65535 (beSum (m.bytes p n)) := by
    by_cases h0 : UInt32.ofNat n = 0
    · -- the empty buffer, which `Checksum` does not look at
      rw [h0, UInt32.toNat_zero] at hsize
      obtain rfl : n = 0 := hsize.symm
      rfl
    · rw [Checksum_val h0 (by rw [hsize, UInt32.toNat_zero]; omega), hsize, UInt32.toNat_zero,
        Nat.zero_add]
  rw [← UInt16.toNat_inj, toNat_csum (by omega), toUInt16_not (by rw [hval]; exact hrep), hval,
    toNat_htons_not hrep]

/-- `csum` and `Checksum` agree on three bytes, of which the last one is odd. -/
theorem csum_eq_htons_Checksum_three :
    csum .little (fun a => UInt8.ofNat (200 + a)) 7 (Int32.ofNat 3) = ByteOrder.little.htons
      (~~~(Checksum (fun a => UInt8.ofNat (200 + a)) 0 (some 7) (UInt32.ofNat 3)).val).toUInt16 :=
  csum_eq_htons_Checksum _ 7 (by decide)

/-! ## The UDP checksum over host words -/

-- The source assigns to `sum` where its siblings add, so three of its values are never read.
set_option linter.unusedVariables false in
/-- The body shared by `udp4_header_checksum2` and `udp6_header_checksum2`: the header at
`hdr` is of layout `ip`, the datagram of `udpLen` bytes is at `udp`. -/
def udpHeaderChecksum2 (o : ByteOrder) (ip : IpLayout) (m : Mem) (hdr udp udpLen : ℕ) : Mem :=
  let sum : UInt32 := 0
  let m := o.store16 m (udp + u16Length) (o.htons (UInt16.ofNat udpLen))
  let sum := sum + UInt32.ofNat udpLen
  let sum := (csum o m (hdr + ip.abSrcAddr) (Int32.ofNat ip.addrLen)).toUInt32
  let sum := (csum o m (hdr + ip.abDstAddr) (Int32.ofNat ip.addrLen)).toUInt32
  let sum := sum + ((m (hdr + ip.bProtocol)).toUInt32 &&& 0x00FF)
  -- finish the pseudo header checksum; udp section
  let m := o.store16 m (udp + u16CheckSum) 0
  let sum := (csum o m udp (Int32.ofNat udpLen)).toUInt32
  o.store16 m (udp + u16CheckSum) (o.htons (~~~sum).toUInt16)

/-- `udp4_header_checksum2(pIPv4Header, ptUDPHeader, udpLen)`. -/
def udp4_header_checksum2 (o : ByteOrder) (m : Mem) (pIPv4Header ptUDPHeader udpLen : ℕ) : Mem :=
  udpHeaderChecksum2 o IPv4_HEADER_t m pIPv4Header ptUDPHeader udpLen

/-- `udp6_header_checksum2(pIPv6Header, ptUDPHeader, udpLen)`. -/
def udp6_header_checksum2 (o : ByteOrder) (m : Mem) (pIPv6Header ptUDPHeader udpLen : ℕ) : Mem :=
  udpHeaderChecksum2 o IPv6_HEADER_t m pIPv6Header ptUDPHeader udpLen

/-- The plain sum of the datagram alone. -/
def dgramSum (m : Mem) (udp udpLen : ℕ) : ℕ := beSum ((udpSummed m udp udpLen).bytes udp udpLen)

/-- **What the functions leave in memory** on a little-endian host: in the checksum field the
swapped sum of the datagram, without the pseudo header and not complemented. -/
theorem udpHeaderChecksum2_eq (ip : IpLayout) (m : Mem) (hdr udp : ℕ) {udpLen : ℕ}
    (hlen : udpLen ≤ 65535) :
    udpHeaderChecksum2 .little ip m hdr udp udpLen =
      (udpSummed m udp udpLen).write (udp + u16CheckSum) (ByteOrder.network16
        (UInt16.ofNat (EndAround.rep 65535 (256 * dgramSum m udp udpLen)))) := by
  have hzero : ∀ mem : Mem, ByteOrder.little.store16 mem (udp + u16CheckSum) 0 =
      mem.write (udp + u16CheckSum) (ByteOrder.network16 0) := fun _ => rfl
  have hle := rep16_le (256 * dgramSum m udp udpLen)
  have hcsum : (csum .little (udpSummed m udp udpLen) udp (Int32.ofNat udpLen)).toNat =
      65535 - EndAround.rep 65535 (256 * dgramSum m udp udpLen) := by
    rw [toNat_csum (by omega), ← rep_swap16, ← dgramSum]
  simp only [udpHeaderChecksum2, hzero, ByteOrder.store16_htons]
  rw [← udpSummed.eq_1, toUInt16_not (by rw [UInt16.toNat_toUInt32]; omega),
    UInt16.toNat_toUInt32, hcsum]
  congr 3
  omega

/-- The length field is part of the datagram. -/
theorem le_dgramSum (m : Mem) (udp : ℕ) {udpLen : ℕ} (h8 : 8 ≤ udpLen) (hlen : udpLen ≤ 65535) :
    udpLen ≤ dgramSum m udp udpLen := by
  have hfield : beSum (ByteOrder.network16 (UInt16.ofNat udpLen)) = udpLen := by
    rw [beSum_network16, UInt16.toNat_ofNat']
    omega
  rw [dgramSum, udpSummed, beSum_bytes_write rfl (by decide) h8,
    beSum_bytes_write rfl (by decide) (by decide), hfield]
  omega

/-- A datagram is written the same way by the same checksum only. -/
theorem bytes_write_checksum_inj {m : Mem} {udp udpLen : ℕ} (h8 : 8 ≤ udpLen) {v v' : UInt16} :
    (m.write (udp + u16CheckSum) (ByteOrder.network16 v)).bytes udp udpLen =
      (m.write (udp + u16CheckSum) (ByteOrder.network16 v')).bytes udp udpLen ↔ v = v' := by
  refine ⟨fun h => ?_, fun h => h ▸ rfl⟩
  have hbyte : ∀ i < udpLen, m.write (udp + u16CheckSum) (ByteOrder.network16 v) (udp + i) =
      m.write (udp + u16CheckSum) (ByteOrder.network16 v') (udp + i) := by
    intro i hi
    have := congrArg (·[i]?) h
    simpa only [Mem.getElem?_bytes _ hi, Option.some.injEq] using this
  rw [← UInt16.toNat_inj, ← beWord_write_network16 m (udp + u16CheckSum) v,
    ← beWord_write_network16 m (udp + u16CheckSum) v']
  exact congrArg₂ beWord (hbyte 6 (by omega)) (hbyte 7 (by omega))

/-- When the swapped sum of the datagram is the complement of the whole sum. -/
theorem rep_eq_complement_iff {p s : ℕ} (hs : s ≠ 0) :
    EndAround.rep 65535 (256 * s) = 65535 - EndAround.rep 65535 (p + s) ↔
      65535 ∣ p + 257 * s ∧ ¬ 65535 ∣ s := by
  have hle := rep16_le (p + s)
  have hcompl : EndAround.rep 65535 (256 * s) = 65535 - EndAround.rep 65535 (p + s) ↔
      EndAround.rep 65535 (256 * s) + EndAround.rep 65535 (p + s) = 65535 := by omega
  have htotal : 256 * s + (p + s) = p + 257 * s := by omega
  -- 256 is its own inverse modulo 65535
  have hunit : 65535 ∣ 256 * s ↔ 65535 ∣ s := Nat.Coprime.dvd_mul_left (by decide)
  rw [hcompl, EndAround.rep_add_rep_eq_top_iff (by decide) (by omega) (by omega), htotal, hunit]

/-- The shared bodies leave the same datagram under a condition on the sums. -/
theorem udpHeaderChecksum2_agrees_iff (ip : IpLayout) {m : Mem} {hdr udp udpLen : ℕ}
    (h8 : 8 ≤ udpLen) (hlen : udpLen ≤ 65535)
    (hdisj : hdr + ip.sizeof ≤ udp ∨ udp + UDP_HEADER_t.sizeof ≤ hdr) :
    (udpHeaderChecksum2 .little ip m hdr udp udpLen).bytes udp udpLen =
        (udpHeaderChecksum .little ip m hdr udp udpLen).val.bytes udp udpLen ↔
      65535 ∣ (ip.pseudoHeader m hdr udpLen).sum + 257 * dgramSum m udp udpLen ∧
        ¬ 65535 ∣ dgramSum m udp udpLen := by
  have hswap := rep16_le (256 * dgramSum m udp udpLen)
  have hpos := le_dgramSum m udp h8 hlen
  rw [udpHeaderChecksum2_eq ip m hdr udp hlen, udpHeaderChecksum_val .little ip h8 hlen hdisj,
    bytes_write_checksum_inj h8, ← UInt16.toNat_inj, toNat_udpCheck, UInt16.toNat_ofNat',
    Nat.mod_eq_of_lt (by omega)]
  exact rep_eq_complement_iff (by omega)

/-- **The functions built on `csum` leave the same datagram as the others exactly when** the sum
`P` of the pseudo header and the sum `S` of the datagram, its length stored and its
checksum field zero, have `P + 257 * S` a multiple of 65535, and `S` not. -/
theorem udp_header_checksum2_agree_iff (m : Mem) (hdr udp udpLen : ℕ)
    (h8 : 8 ≤ udpLen) (hlen : udpLen ≤ 65535) :
    (hdr + IPv4_HEADER_t.sizeof ≤ udp ∨ udp + UDP_HEADER_t.sizeof ≤ hdr →
      ((udp4_header_checksum2 .little m hdr udp udpLen).bytes udp udpLen =
          (udp4_header_checksum .little m hdr udp udpLen).val.bytes udp udpLen ↔
        65535 ∣ (IPv4_HEADER_t.pseudoHeader m hdr udpLen).sum + 257 * dgramSum m udp udpLen ∧
          ¬ 65535 ∣ dgramSum m udp udpLen)) ∧
    (hdr + IPv6_HEADER_t.sizeof ≤ udp ∨ udp + UDP_HEADER_t.sizeof ≤ hdr →
      ((udp6_header_checksum2 .little m hdr udp udpLen).bytes udp udpLen =
          (udp6_header_checksum .little m hdr udp udpLen).val.bytes udp udpLen ↔
        65535 ∣ (IPv6_HEADER_t.pseudoHeader m hdr udpLen).sum + 257 * dgramSum m udp udpLen ∧
          ¬ 65535 ∣ dgramSum m udp udpLen)) :=
  ⟨udpHeaderChecksum2_agrees_iff IPv4_HEADER_t h8 hlen,
    udpHeaderChecksum2_agrees_iff IPv6_HEADER_t h8 hlen⟩

/-- Empty datagrams of which the source address makes up for the difference. -/
theorem udp_header_checksum2_agree_iff_made_up :
    (udp4_header_checksum2 .little (Mem.write (fun _ => 0) 12 [0xF7, 0xEF]) 0 20 8).bytes 20 8 =
        (udp4_header_checksum .little (Mem.write (fun _ => 0) 12 [0xF7, 0xEF]) 0 20 8).val.bytes
          20 8 ∧
      (udp6_header_checksum2 .little (Mem.write (fun _ => 0) 8 [0xF7, 0xEF]) 0 40 8).bytes 40 8 =
        (udp6_header_checksum .little (Mem.write (fun _ => 0) 8 [0xF7, 0xEF]) 0 40 8).val.bytes
          40 8 :=
  ⟨((udp_header_checksum2_agree_iff _ 0 20 8 (by decide) (by decide)).1 (by decide)).mpr
      (by decide +kernel),
    ((udp_header_checksum2_agree_iff _ 0 40 8 (by decide) (by decide)).2 (by decide)).mpr
      (by decide +kernel)⟩

/-- The empty datagrams from the loopback addresses are not left the same. -/
theorem udp_header_checksum2_differ_loopback :
    (udp4_header_checksum2 .little loopback4 0 20 8).bytes 20 8 ≠
        (udp4_header_checksum .little loopback4 0 20 8).val.bytes 20 8 ∧
      (udp6_header_checksum2 .little loopback6 0 40 8).bytes 40 8 ≠
        (udp6_header_checksum .little loopback6 0 40 8).val.bytes 40 8 := by
  decide +kernel

end StudyTips
