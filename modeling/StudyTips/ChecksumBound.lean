import StudyTips.Ipv4Header

/-!
# `Checksum` within its 32 bits

`Checksum` adds words to a `uint32_t` it does not watch. As long as the starting value and
all ones for every word stay below `2 ^ 32`, nothing is lost.

* `sumWords_split`: the loop over a buffer is the loop over its first words, and then over the
  others.
* `Checksum_exact`: behind every word the accumulator is the plain sum, and what is
  returned is the only number of 16 bits in its class that is zero for zero; so the
  sums of two buffers can be chained, if the first is of whole words.
* `Calls.fit`: every call of the UDP and IPv4 functions is of that kind.
-/

namespace StudyTips

open Bytes

/-! ## The loop in parts -/

/-- **The loop goes on behind the first `k` words as if it started there.** -/
theorem sumWords_split (m : Mem) (p r : ℕ) : ∀ (k num : ℕ) (c : UInt32),
    sumWords m p (2 * k + r) num c =
      sumWords m p (2 * k) num c >>= fun c' => sumWords m p r (num + 2 * k) c'
  | 0, num, c => by
    rw [Nat.mul_zero, Nat.zero_add, Nat.add_zero, sumWords, pure_bind]
  | k + 1, num, c => by
    have hsize : 2 * (k + 1) + r = 2 * k + r + 2 := by omega
    have hnum : num + 2 * (k + 1) = num + 2 + 2 * k := by omega
    rw [hsize, hnum, Nat.mul_add, sumWords, sumWords]
    simp only [bind_assoc]
    congr 1; funext hi
    congr 1; funext lo
    exact sumWords_split m p r k _ _

/-! ## The bound -/

/-- The starting value `c` and the words of `n` bytes stay below `2 ^ 32`, whatever they are. -/
def Fits32 (c : UInt32) (n : ℕ) : Prop := c.toNat + 65535 * ((n + 1) / 2) < 2 ^ 32

/-- What `Checksum(c, p, n)` sums. -/
def plainSum (m : Mem) (c : UInt32) (p n : ℕ) : ℕ := c.toNat + beSum (m.bytes p n)

theorem Fits32.mono {c : UInt32} {n n' : ℕ} (h : Fits32 c n) (hle : n' ≤ n) : Fits32 c n' := by
  rw [Fits32] at h ⊢
  omega

theorem Fits32.toNat_ofNat {c : UInt32} {n : ℕ} (h : Fits32 c n) : (UInt32.ofNat n).toNat = n := by
  rw [Fits32] at h
  rw [UInt32.toNat_ofNat']
  omega

theorem Fits32.plainSum_lt {m : Mem} {c : UInt32} {p n : ℕ} (h : Fits32 c n) :
    plainSum m c p n < 2 ^ 32 := by
  have hle := beSum_le (m.bytes p n)
  rw [Mem.length_bytes] at hle
  rw [Fits32] at h
  rw [plainSum]
  omega

theorem Fits32.ofNat_ne_zero {c : UInt32} {n : ℕ} (h : Fits32 c n) (hn : 1 ≤ n) :
    UInt32.ofNat n ≠ 0 := by
  intro hzero
  have hsize := h.toNat_ofNat
  rw [hzero, UInt32.toNat_zero] at hsize
  omega

/-- The call returns the representative of the sum. -/
theorem Fits32.toNat_Checksum {m : Mem} {c : UInt32} {p n : ℕ} (h : Fits32 c n) (hn : 1 ≤ n) :
    (Checksum m c (some p) (UInt32.ofNat n)).val.toNat = EndAround.rep 65535 (plainSum m c p n) := by
  have hlt : plainSum m c p n < 2 ^ 32 := h.plainSum_lt
  rw [plainSum] at hlt ⊢
  rw [Checksum_val (h.ofNat_ne_zero hn) (by rwa [h.toNat_ofNat]), h.toNat_ofNat]

/-- `Checksum(c, p, n)` computes the sum of its buffer without losing a carry. -/
structure ChecksumExact (m : Mem) (c : UInt32) (p n : ℕ) : Prop where
  /-- behind the first `k` words the loop goes on with the plain sum of these -/
  sums : ∀ k, 2 * k ≤ n → ∃ c' : UInt32, c'.toNat = plainSum m c p (2 * k) ∧
    (sumWords m p n 0 c).val = (sumWords m p (n - 2 * k) (2 * k) c').val
  /-- the loop leaves with the plain sum of all its words -/
  total : (sumWords m p n 0 c).val.toNat = plainSum m c p n
  /-- a turn of the folding loop adds two numbers without a wrap -/
  folds : ∀ s : UInt32,
    ((s &&& (0xFFFF : UInt32)) + (s >>> 16)).toNat = (s &&& (0xFFFF : UInt32)).toNat + (s >>> 16).toNat
  /-- the bytes of the buffer are read, each once and in order -/
  reads : (Checksum m c (some p) (UInt32.ofNat n)).log = (List.range n).map fun i => .read (p + i)
  /-- what is returned has 16 bits -/
  le : (Checksum m c (some p) (UInt32.ofNat n)).val.toNat ≤ 65535
  /-- the checksum is in the class of the plain sum -/
  modEq : (Checksum m c (some p) (UInt32.ofNat n)).val.toNat ≡ plainSum m c p n [MOD 65535]
  /-- the checksum is zero only for a plain sum of zero -/
  zero_iff : (Checksum m c (some p) (UInt32.ofNat n)).val.toNat = 0 ↔ plainSum m c p n = 0
  /-- no other number up to 65535 is congruent to the plain sum and zero with it -/
  unique : ∀ r ≤ 65535, r ≡ plainSum m c p n [MOD 65535] → (r = 0 ↔ plainSum m c p n = 0) →
    r = (Checksum m c (some p) (UInt32.ofNat n)).val.toNat

theorem Fits32.exact {m : Mem} {c : UInt32} {p n : ℕ} (h : Fits32 c n) (hn : 1 ≤ n) :
    ChecksumExact m c p n := by
  have hloop : ∀ k ≤ n, (sumWords m p k 0 c).val.toNat = plainSum m c p k := by
    intro k hk
    have hlt : plainSum m c p k < 2 ^ 32 := (h.mono hk).plainSum_lt
    exact sumWords_val hlt
  have hval : (Checksum m c (some p) (UInt32.ofNat n)).val.toNat =
      EndAround.rep 65535 (plainSum m c p n) := h.toNat_Checksum hn
  refine ⟨fun k hk => ⟨_, hloop _ hk, ?_⟩, hloop n (le_refl n), fun s => ?_, ?_, ?_, ?_, ?_, ?_⟩
  · have hsplit : n = 2 * k + (n - 2 * k) := by omega
    have hrun := sumWords_split m p (n - 2 * k) k 0 c
    rw [← hsplit, Nat.zero_add] at hrun
    rw [hrun, Traced.bind_val]
  · rw [toNat_fold, EndAround.carry, toNat_low16, toNat_high16]
  · rw [Checksum_log, h.toNat_ofNat]
  · rw [hval]
    exact rep16_le _
  · rw [hval]
    exact EndAround.rep_modEq _
  · rw [hval, EndAround.rep_eq_zero]
  · intro r hr hclass hzero
    rw [hval, ← EndAround.rep_congr hclass hzero, EndAround.rep_of_le hr]

/-- **Sums are chained at even offsets**, wherever the two buffers lie. -/
theorem Fits32.chain {m : Mem} {c : UInt32} {p q r a b : ℕ} (h : Fits32 c (a + b)) (ha : 0 < a)
    (heven : Even a) (hbuf : m.bytes p (a + b) = m.bytes q a ++ m.bytes r b) :
    (Checksum m (Checksum m c (some q) (UInt32.ofNat a)).val (some r) (UInt32.ofNat b)).val =
      (Checksum m c (some p) (UInt32.ofNat (a + b))).val := by
  have hfirst : (Checksum m c (some q) (UInt32.ofNat a)).val.toNat = _ :=
    (h.mono (Nat.le_add_right a b)).toNat_Checksum ha
  have hwhole : plainSum m c p (a + b) = plainSum m c q a + beSum (m.bytes r b) := by
    have heven' : Even (m.bytes q a).length := by rwa [Mem.length_bytes]
    rw [plainSum, plainSum, hbuf, beSum_append _ heven', Nat.add_assoc]
  rw [← UInt32.toNat_inj, h.toNat_Checksum (by omega), hwhole, ← EndAround.rep_rep_add, ← hfirst]
  rcases Nat.eq_zero_or_pos b with rfl | hb
  · -- without a second buffer the first sum is returned as it is
    rw [Mem.bytes_zero, beSum_nil, Nat.add_zero, hfirst, EndAround.rep_rep]
    exact hfirst
  · have hsecond : Fits32 (Checksum m c (some q) (UInt32.ofNat a)).val b := by
      -- the first sum counts for no more than one of the words it is made of
      have hle := rep16_le (plainSum m c q a)
      obtain ⟨k, rfl⟩ := heven
      rw [Fits32] at h ⊢
      omega
    exact hsecond.toNat_Checksum hb

/-! ## The calls -/

/-- Whatever it starts from, a sum that is made of a byte at least has 16 bits. -/
theorem Checksum_le {m : Mem} {c : UInt32} {p : ℕ} {size : UInt32} (h0 : size ≠ 0) :
    (Checksum m c (some p) size).val.toNat ≤ 65535 := by
  simp only [Checksum, if_neg h0, Traced.bind_val, Traced.pure_val]
  rw [toNat_foldCarries]
  exact rep16_le _

/-- The calls of `Checksum` that the UDP functions make for a header of layout `ip` at `hdr`
in a memory `m`, and `ipv4_header_checksum` makes for it. -/
structure Calls.Fit (ip : IpLayout) (m : Mem) (hdr udpLen : ℕ) : Prop where
  /-- the sum over the source address fits -/
  src : Fits32 (0 + UInt32.ofNat udpLen) ip.addrLen
  /-- the sum over the destination address fits -/
  dst : Fits32 (Checksum m (0 + UInt32.ofNat udpLen) (some (hdr + ip.abSrcAddr))
    (UInt32.ofNat ip.addrLen)).val ip.addrLen
  /-- the sum over the datagram fits -/
  udp : Fits32 (pseudoChecksum ip m hdr udpLen).val udpLen
  /-- the sum over the IPv4 header fits -/
  ipv4 : Fits32 0 (ipHeadLen m hdr).toUInt32.toNat

/-- **Every call stays within the bound**, also for the longest datagram of a full buffer. -/
theorem Calls.fit (ip : IpLayout) (m : Mem) (hdr : ℕ) {udpLen : ℕ} (hlen : udpLen ≤ 65543) :
    Calls.Fit ip m hdr udpLen := by
  have hpos := ip.addrLen_pos
  have hle := ip.addrLen_le
  have hstart : (0 + UInt32.ofNat udpLen).toNat = udpLen := by
    rw [UInt32.zero_add, UInt32.toNat_ofNat']
    omega
  have hsrc : Fits32 (0 + UInt32.ofNat udpLen) ip.addrLen := by
    rw [Fits32, hstart]
    omega
  have haddr : UInt32.ofNat ip.addrLen ≠ 0 := hsrc.ofNat_ne_zero hpos
  refine ⟨hsrc, ?_, ?_, ?_⟩
  · have hfold : (Checksum m (0 + UInt32.ofNat udpLen) (some (hdr + ip.abSrcAddr))
        (UInt32.ofNat ip.addrLen)).val.toNat ≤ 65535 := Checksum_le haddr
    rw [Fits32]
    omega
  · have hfold := Checksum_le (m := m) (p := hdr + ip.abDstAddr)
      (c := (Checksum m (0 + UInt32.ofNat udpLen) (some (hdr + ip.abSrcAddr))
        (UInt32.ofNat ip.addrLen)).val) haddr
    have hb := (m (hdr + ip.bProtocol)).toNat_lt
    have hval : (pseudoChecksum ip m hdr udpLen).val.toNat ≤ 65535 + 255 := by
      simp only [pseudoChecksum, Traced.bind_val, Traced.pure_val]
      rw [UInt32.toNat_add, toNat_proto]
      omega
    rw [Fits32]
    omega
  · have hnibble := headerNibble_lt m hdr
    rw [toNat_ipHeadLen, Fits32, UInt32.toNat_zero]
    omega

/-- **`Checksum` within its bound**: it is exact and its sums can be chained, and all the calls
of the checksum functions are within it. -/
theorem Checksum_exact (m : Mem) (c : UInt32) (p n : ℕ) (hn : 1 ≤ n) (h : Fits32 c n) :
    ChecksumExact m c p n ∧
    (∀ q r a b : ℕ, a + b = n → 0 < a → Even a → m.bytes p n = m.bytes q a ++ m.bytes r b →
      (Checksum m (Checksum m c (some q) (UInt32.ofNat a)).val (some r) (UInt32.ofNat b)).val =
        (Checksum m c (some p) (UInt32.ofNat n)).val) ∧
    ∀ (ip : IpLayout) (hdr udpLen : ℕ), udpLen ≤ 65543 → Calls.Fit ip m hdr udpLen := by
  refine ⟨h.exact hn, ?_, fun ip hdr udpLen hlen => Calls.fit ip m hdr hlen⟩
  rintro q r a b rfl ha heven hbuf
  exact h.chain ha heven hbuf

/-- Five bytes, all ones, from a starting value of 20 bits. -/
theorem Checksum_exact_five : ChecksumExact (fun _ => 0xFF) 0xFFFFF 7 5 :=
  (Checksum_exact _ 0xFFFFF 7 5 (by decide)
    (show (0xFFFFF : UInt32).toNat + 65535 * ((5 + 1) / 2) < 2 ^ 32 by decide)).1

end StudyTips
