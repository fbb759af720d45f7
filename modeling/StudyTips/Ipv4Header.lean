import StudyTips.ChecksumField

/-!
# `c/common/header.h`: the checksum of an IPv4 header

`ipv4_header_checksum` reads from the header how long it is, sums that many bytes with the
checksum field set to zero, and stores the complement in the field.

* `ipv4_header_checksum_val`: what it leaves in memory.
* `ipv4_header_checksum_verifies`: only the field changes, and what it is set to does
  not depend on what it held, so that a second call changes nothing; the header adds up to
  all ones, and no longer does once another of its bytes is replaced.
-/

namespace StudyTips

open Bytes

/-- Offset of `bVersionAndHeaderLen` in `IPv4_HEADER_t`. -/
abbrev bVersionAndHeaderLen : ℕ := 0

/-- Offset of `u16CheckSum` in `IPv4_HEADER_t`. -/
abbrev IPv4_HEADER_t.u16CheckSum : ℕ := 10

/-- `ipHeadLen`, in bytes. -/
def ipHeadLen (m : Mem) (pIpHeader : ℕ) : UInt8 :=
  (m (pIpHeader + bVersionAndHeaderLen) &&& 0x0F) <<< 2

/-- `ipv4_header_checksum(pIpHeader)`. -/
def ipv4_header_checksum (o : ByteOrder) (m : Mem) (pIpHeader : ℕ) : Traced PacketEvent Mem := do
  let headLen := ipHeadLen m pIpHeader
  let m := o.store16 m (pIpHeader + IPv4_HEADER_t.u16CheckSum) 0
  let sum ← Checksum m 0 (some pIpHeader) headLen.toUInt32
  pure (o.store16 m (pIpHeader + IPv4_HEADER_t.u16CheckSum) (o.htons (~~~sum).toUInt16))

/-! ## The header -/

/-- The header length the header at `hdr` states, in words of four bytes. -/
def headerNibble (m : Mem) (hdr : ℕ) : ℕ := (m (hdr + bVersionAndHeaderLen)).toNat % 16

/-- The bytes of the header at `hdr`, options included. -/
def headerBytes (m : Mem) (hdr : ℕ) : List UInt8 := m.bytes hdr (4 * headerNibble m hdr)

/-- The one's-complement sum of the header at `hdr`. -/
def headerSum (m : Mem) (hdr : ℕ) : ℕ := onesSum (beWords (headerBytes m hdr))

theorem headerSum_eq_rep (m : Mem) (hdr : ℕ) :
    headerSum m hdr = EndAround.rep 65535 (beSum (headerBytes m hdr)) :=
  onesSum_eq_rep (beWords_le _)

theorem headerNibble_lt (m : Mem) (hdr : ℕ) : headerNibble m hdr < 16 :=
  Nat.mod_lt _ (by decide)

theorem toNat_ipHeadLen (m : Mem) (hdr : ℕ) :
    (ipHeadLen m hdr).toUInt32.toNat = 4 * headerNibble m hdr := by
  have hmask : ∀ b : UInt8, (b &&& 0x0F).toNat = b.toNat % 16 := fun b => by
    rw [UInt8.toNat_and]
    exact Nat.and_two_pow_sub_one_eq_mod b.toNat 4
  have hnibble := headerNibble_lt m hdr
  rw [headerNibble] at hnibble ⊢
  rw [UInt8.toNat_toUInt32, ipHeadLen, UInt8.toNat_shiftLeft, hmask, Nat.shiftLeft_eq,
    show (2 : UInt8).toNat % 8 = 2 from rfl]
  omega

/-! ## What is stored -/

/-- The memory over which the header is summed: the checksum field zero. -/
def headerSummed (m : Mem) (hdr : ℕ) : Mem :=
  m.write (hdr + IPv4_HEADER_t.u16CheckSum) (ByteOrder.network16 0)

/-- The value stored in the checksum field: the complement of the folded sum. -/
def headerCheck (m : Mem) (hdr : ℕ) : UInt16 :=
  UInt16.ofNat (65535 - EndAround.rep 65535
    (beSum ((headerSummed m hdr).bytes hdr (4 * headerNibble m hdr))))

/-- **What `ipv4_header_checksum` leaves in memory.** -/
theorem ipv4_header_checksum_val (o : ByteOrder) {m : Mem} {hdr : ℕ} (h : headerNibble m hdr ≠ 0) :
    (ipv4_header_checksum o m hdr).val =
      (headerSummed m hdr).write (hdr + IPv4_HEADER_t.u16CheckSum)
        (ByteOrder.network16 (headerCheck m hdr)) := by
  have hnibble := headerNibble_lt m hdr
  have hlen := toNat_ipHeadLen m hdr
  have hle := beSum_le ((headerSummed m hdr).bytes hdr (4 * headerNibble m hdr))
  rw [Mem.length_bytes] at hle
  have h0 : (ipHeadLen m hdr).toUInt32 ≠ 0 := by
    intro hzero
    rw [hzero, UInt32.toNat_zero] at hlen
    omega
  have hsum : (Checksum (headerSummed m hdr) 0 (some hdr) (ipHeadLen m hdr).toUInt32).val.toNat =
      EndAround.rep 65535 (beSum ((headerSummed m hdr).bytes hdr (4 * headerNibble m hdr))) := by
    rw [Checksum_val h0 (by rw [hlen, UInt32.toNat_zero]; omega), hlen, UInt32.toNat_zero,
      Nat.zero_add]
  have hzero : o.store16 m (hdr + IPv4_HEADER_t.u16CheckSum) 0 = headerSummed m hdr := by
    cases o <;> rfl
  simp only [ipv4_header_checksum, Traced.bind_val, Traced.pure_val, hzero,
    ByteOrder.store16_htons]
  rw [toUInt16_not (by rw [hsum]; exact rep16_le _), hsum, headerCheck]

theorem headerSummed_outside {m : Mem} {hdr a : ℕ} (h : a < hdr + 10 ∨ hdr + 12 ≤ a) :
    headerSummed m hdr a = m a :=
  ByteOrder.write_network16_outside (by simp only [IPv4_HEADER_t.u16CheckSum]; omega)

/-- Headers that agree off the checksum field agree once it is zero. -/
theorem headerSummed_congr {m m' : Mem} {hdr n : ℕ}
    (h : ∀ a, hdr ≤ a → a < hdr + n → a < hdr + 10 ∨ hdr + 12 ≤ a → m a = m' a) :
    ∀ a, hdr ≤ a → a < hdr + n → headerSummed m hdr a = headerSummed m' hdr a := by
  intro a hlo hhi
  by_cases hout : a < hdr + 10 ∨ hdr + 12 ≤ a
  · rw [headerSummed_outside hout, headerSummed_outside hout, h a hlo hhi hout]
  · obtain ⟨i, rfl⟩ : ∃ i, a = hdr + IPv4_HEADER_t.u16CheckSum + i :=
      Nat.exists_eq_add_of_le (by simp only [IPv4_HEADER_t.u16CheckSum]; omega)
    have hi : i < (ByteOrder.network16 0).length := by
      simp only [IPv4_HEADER_t.u16CheckSum, ByteOrder.length_network16] at hout ⊢
      omega
    rw [headerSummed, headerSummed, Mem.write_inside hi, Mem.write_inside hi]

/-- The checksum stored depends on the header off its checksum field only. -/
theorem headerCheck_congr {m m' : Mem} {hdr : ℕ} (hnibble : headerNibble m hdr = headerNibble m' hdr)
    (h : ∀ a, hdr ≤ a → a < hdr + 4 * headerNibble m hdr → a < hdr + 10 ∨ hdr + 12 ≤ a →
      m a = m' a) : headerCheck m hdr = headerCheck m' hdr := by
  rw [headerCheck, headerCheck, ← hnibble, Mem.bytes_congr (headerSummed_congr h)]

/-- The sum over a header with its checksum stored: the checksum enters, a zero leaves. -/
theorem beSum_header_completed {m : Mem} {hdr n : ℕ} (h12 : 12 ≤ n) (v : UInt16) :
    beSum (((headerSummed m hdr).write (hdr + IPv4_HEADER_t.u16CheckSum)
      (ByteOrder.network16 v)).bytes hdr n) =
      beSum ((headerSummed m hdr).bytes hdr n) + v.toNat := by
  have h : beSum (((headerSummed m hdr).write (hdr + IPv4_HEADER_t.u16CheckSum)
      (ByteOrder.network16 v)).bytes hdr n) + beSum (ByteOrder.network16 0) =
        beSum ((headerSummed m hdr).bytes hdr n) + beSum (ByteOrder.network16 v) :=
    beSum_bytes_rewrite rfl rfl (by decide) h12
  rwa [beSum_network16, beSum_network16] at h

/-- Storing the checksum does not touch the length the header states. -/
theorem headerNibble_completed {m : Mem} {hdr : ℕ} (v : UInt16) :
    headerNibble ((headerSummed m hdr).write (hdr + IPv4_HEADER_t.u16CheckSum)
      (ByteOrder.network16 v)) hdr = headerNibble m hdr := by
  rw [headerNibble, headerNibble, bVersionAndHeaderLen,
    ByteOrder.write_network16_outside (by simp only [IPv4_HEADER_t.u16CheckSum]; omega),
    headerSummed_outside (by omega)]

section Completed

variable (o : ByteOrder) {m : Mem} {hdr : ℕ}

/-- Completing a header changes the two bytes of its checksum at most. -/
theorem ipv4_header_checksum_outside (h : headerNibble m hdr ≠ 0) {a : ℕ}
    (ha : a < hdr + 10 ∨ hdr + 12 ≤ a) : (ipv4_header_checksum o m hdr).val a = m a := by
  rw [ipv4_header_checksum_val o h, ByteOrder.write_network16_outside
    (by simp only [IPv4_HEADER_t.u16CheckSum]; omega), headerSummed_outside ha]

/-- Completing a header keeps its length. -/
theorem headerNibble_ipv4_header_checksum (h : headerNibble m hdr ≠ 0) :
    headerNibble (ipv4_header_checksum o m hdr).val hdr = headerNibble m hdr := by
  rw [ipv4_header_checksum_val o h, headerNibble_completed]

/-- **A completed header adds up to all ones.** -/
theorem headerSum_ipv4_header_checksum (h : 3 ≤ headerNibble m hdr) :
    headerSum (ipv4_header_checksum o m hdr).val hdr = 0xFFFF := by
  have h0 : headerNibble m hdr ≠ 0 := by omega
  have hcheck : (headerCheck m hdr).toNat = 65535 - EndAround.rep 65535
      (beSum ((headerSummed m hdr).bytes hdr (4 * headerNibble m hdr))) := by
    rw [headerCheck, UInt16.toNat_ofNat']
    omega
  rw [headerSum_eq_rep, headerBytes, headerNibble_ipv4_header_checksum o h0,
    ipv4_header_checksum_val o h0, beSum_header_completed (by omega), hcheck]
  exact EndAround.rep_add_complement (by decide) _

/-- A completed header is summed as it was before. -/
theorem headerSummed_ipv4_header_checksum (h : headerNibble m hdr ≠ 0) :
    headerSummed (ipv4_header_checksum o m hdr).val hdr = headerSummed m hdr := by
  have hover : ∀ v w : UInt16, (ByteOrder.network16 v).length = (ByteOrder.network16 w).length :=
    fun _ _ => rfl
  rw [ipv4_header_checksum_val o h, headerSummed, headerSummed, Mem.write_write (hover _ _),
    Mem.write_write (hover _ _)]

/-- **A completed header is left as it is.** -/
theorem ipv4_header_checksum_idem (h : headerNibble m hdr ≠ 0) :
    (ipv4_header_checksum o (ipv4_header_checksum o m hdr).val hdr).val =
      (ipv4_header_checksum o m hdr).val := by
  have hnibble := headerNibble_ipv4_header_checksum o h
  have hsummed := headerSummed_ipv4_header_checksum o h
  have hcheck : headerCheck (ipv4_header_checksum o m hdr).val hdr = headerCheck m hdr := by
    rw [headerCheck, headerCheck, hsummed, hnibble]
  rw [ipv4_header_checksum_val o (hnibble.trans_ne h), hsummed, hcheck,
    ← ipv4_header_checksum_val o h]

/-- **Headers that agree off their checksums are completed alike.** -/
theorem headerBytes_ipv4_header_checksum_congr {m' : Mem} (h : headerNibble m hdr ≠ 0)
    (hsame : ∀ a, hdr ≤ a → a < hdr + 4 * headerNibble m hdr → a < hdr + 10 ∨ hdr + 12 ≤ a →
      m' a = m a) :
    headerBytes (ipv4_header_checksum o m' hdr).val hdr =
      headerBytes (ipv4_header_checksum o m hdr).val hdr := by
  -- the byte that states the length is among those that agree
  have hnibble : headerNibble m' hdr = headerNibble m hdr := by
    rw [headerNibble, headerNibble, bVersionAndHeaderLen,
      hsame (hdr + 0) (by omega) (by omega) (by omega)]
  have hcheck : headerCheck m' hdr = headerCheck m hdr :=
    headerCheck_congr hnibble fun x hx hx' hout => hsame x hx (by omega) hout
  rw [headerBytes, headerBytes, ipv4_header_checksum_val o (hnibble.trans_ne h),
    ipv4_header_checksum_val o h, headerNibble_completed, headerNibble_completed, hnibble, hcheck]
  refine Mem.bytes_congr fun x hx hx' => ?_
  have hx'' : headerSummed m' hdr x = headerSummed m hdr x := headerSummed_congr hsame x hx hx'
  simp only [Mem.write, hx'']

end Completed

/-! ## What the checksum verifies -/

/-- `m'` is `m` with the header at `hdr` completed by a function `f` on memories. -/
structure HeaderVerifies (f : Mem → Mem) (m : Mem) (hdr : ℕ) : Prop where
  /-- nothing changes but the two bytes of the checksum -/
  frame : ∀ a, a < hdr + 10 ∨ hdr + 12 ≤ a → f m a = m a
  /-- what the field held does not matter -/
  independent : ∀ m₁ : Mem,
    (∀ a, hdr ≤ a → a < hdr + 4 * headerNibble m hdr → a < hdr + 10 ∨ hdr + 12 ≤ a →
      m₁ a = m a) → headerBytes (f m₁) hdr = headerBytes (f m) hdr
  /-- a second call changes nothing -/
  idempotent : f (f m) = f m
  /-- the header adds up to all ones -/
  sum : headerSum (f m) hdr = 0xFFFF
  /-- the header does not add up to all ones when one byte of it is replaced, other than the
  checksum's and without a change of the length it states -/
  detects : ∀ (m₁ : Mem) (a : ℕ), hdr ≤ a → a < hdr + 4 * headerNibble m hdr →
    a < hdr + 10 ∨ hdr + 12 ≤ a → m₁ a ≠ f m a →
    (∀ x, hdr ≤ x → x < hdr + 4 * headerNibble m hdr → x ≠ a → m₁ x = f m x) →
    headerNibble m₁ hdr = headerNibble m hdr → headerSum m₁ hdr ≠ 0xFFFF

/-- **`ipv4_header_checksum` completes every header**, options included, whatever its checksum
field held, on a host of either byte order. -/
theorem ipv4_header_checksum_verifies (o : ByteOrder) (m : Mem) (hdr : ℕ)
    (h5 : 5 ≤ headerNibble m hdr) :
    HeaderVerifies (fun m => (ipv4_header_checksum o m hdr).val) m hdr := by
  have h0 : headerNibble m hdr ≠ 0 := by omega
  have hsum : headerSum (ipv4_header_checksum o m hdr).val hdr = 0xFFFF :=
    headerSum_ipv4_header_checksum o (by omega)
  refine ⟨fun a ha => ipv4_header_checksum_outside o h0 ha, fun m₁ hsame => ?_,
    ipv4_header_checksum_idem o h0, hsum, fun m₁ a hlo hhi hout hne hsame hsameLen => ?_⟩
  · exact headerBytes_ipv4_header_checksum_congr o h0 hsame
  · -- the byte moves the sum by 1 or 256 times its change, and off the class of all ones
    have hchange := beSum_bytes_change hlo hhi fun x hx hx' hxa => (hsame x hx hx' hxa).symm
    have hrep := rep_ne_of_change hne.symm hchange
    rw [headerSum_eq_rep, headerBytes, headerNibble_ipv4_header_checksum o h0] at hsum
    rw [headerSum_eq_rep, headerBytes, hsameLen]
    exact fun heq => hrep (hsum.trans heq.symm)

/-- The longest header, of bytes that count up, its checksum field not zero. -/
theorem ipv4_header_checksum_verifies_fifteen :
    HeaderVerifies (fun m => (ipv4_header_checksum .little m 0).val)
      (fun a => UInt8.ofNat (0x4F + a)) 0 :=
  ipv4_header_checksum_verifies .little _ 0 (by decide)

end StudyTips
