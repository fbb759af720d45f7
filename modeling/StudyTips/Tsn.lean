import StudyTips.Serial

/-!
# `c/tsn/main.c`: comparing TSNs and SSNs

The file has two generations of the kernel's comparisons, for transmission
sequence numbers of 32 bits and stream sequence numbers of 16 bits. The older
ones mask the sign bit of the difference, the newer ones convert the difference
to a signed type. Operands of type `uint16_t` are promoted to `int` before they
are subtracted, so that their difference may be negative.

`TSN_lt_iff` and its siblings say that all of them look at the sign of the
difference on the circle. What the file says of them follows from `Serial`: they
are interchangeable, they order windows, and the older ones are RFC 1982, which
the file quotes, except on opposite numbers.
-/

namespace StudyTips

open Serial

/-! ## The functions -/

/-- The `int` of a truth value. -/
def truth (p : Bool) : Int32 := if p then 1 else 0

/-- `1<<31` as an `int`. -/
def TSN_SIGN_BIT : Int32 := (1 : Int32) <<< 31

/-- The older `TSN_lt`: the mask is converted to `unsigned`, the result back to `int`. -/
def TSN_lt (s t : UInt32) : Int32 := ((s - t) &&& TSN_SIGN_BIT.toUInt32).toInt32

/-- The older `TSN_lte`. -/
def TSN_lte (s t : UInt32) : Int32 := truth (s = t || (s - t) &&& TSN_SIGN_BIT.toUInt32 ≠ 0)

/-- The newer `TSN_lt`. -/
def TSN_lt2 (s t : UInt32) : Int32 := truth ((s - t).toInt32 < 0)

/-- The newer `TSN_lte`. -/
def TSN_lte2 (s t : UInt32) : Int32 := truth ((s - t).toInt32 ≤ 0)

/-- `1<<15` as an `int`. -/
def SSN_SIGN_BIT : Int32 := (1 : Int32) <<< 15

/-- The promotion of an `uint16_t` to `int`. -/
def promote (s : UInt16) : Int32 := s.toUInt32.toInt32

/-- The older `SSN_lt`: the difference is an `int` and may be negative. -/
def SSN_lt (s t : UInt16) : Int32 := (promote s - promote t) &&& SSN_SIGN_BIT

/-- The older `SSN_lte`. -/
def SSN_lte (s t : UInt16) : Int32 :=
  truth (promote s = promote t || (promote s - promote t) &&& SSN_SIGN_BIT ≠ 0)

/-- The newer `SSN_lt`. -/
def SSN_lt2 (s t : UInt16) : Int32 := truth ((promote s - promote t).toInt16 < 0)

/-- The newer `SSN_lte`. -/
def SSN_lte2 (s t : UInt16) : Int32 := truth ((promote s - promote t).toInt16 ≤ 0)

/-! ## The sign of the difference -/

theorem truth_ne_zero {p : Bool} : truth p ≠ 0 ↔ p = true := by
  cases p with
  | false => decide
  | true => decide

/-- Masking one bit leaves something exactly when the bit is set. -/
theorem and_twoPow_ne_zero {w i : ℕ} (hi : i < w) (x : BitVec w) :
    x &&& BitVec.twoPow w i ≠ 0#w ↔ x.getLsbD i = true := by
  rw [BitVec.and_twoPow]
  split
  next hbit =>
    refine iff_of_true (fun h => ?_) hbit
    have := congrArg (BitVec.getLsbD · i) h
    simp [hi] at this
  next hbit => exact iff_of_false (fun h => h rfl) hbit

/-- A signed number is negative exactly when its top bit is set. -/
theorem toInt_neg_iff_msb {w : ℕ} {x : BitVec w} : x.toInt < 0 ↔ x.msb = true := by
  rw [← BitVec.slt_zero_iff_msb_cond, BitVec.slt_iff_toInt_lt, BitVec.toInt_zero]

theorem toInt_le_zero_iff {w : ℕ} {x : BitVec w} : x.toInt ≤ 0 ↔ x = 0#w ∨ x.msb = true := by
  rw [← toInt_neg_iff_msb, ← BitVec.toInt_inj, BitVec.toInt_zero]
  omega

theorem and_TSN_SIGN_BIT {d : UInt32} :
    d &&& TSN_SIGN_BIT.toUInt32 ≠ 0 ↔ d.toBitVec.msb = true := by
  rw [ne_eq, ← UInt32.toBitVec_inj, UInt32.toBitVec_and, BitVec.msb_eq_getLsbD_last]
  exact and_twoPow_ne_zero (by decide) d.toBitVec

/-- The bit is looked at in the promoted difference, which may be negative. -/
theorem and_SSN_SIGN_BIT {d : Int32} :
    d &&& SSN_SIGN_BIT ≠ 0 ↔ d.toInt16.toBitVec.msb = true := by
  rw [ne_eq, ← Int32.toBitVec_inj, Int32.toBitVec_and, Int32.toBitVec_toInt16,
    BitVec.msb_signExtend]
  exact and_twoPow_ne_zero (by decide) d.toBitVec

/-- Truncating the promoted difference gives the difference of 16 bits. -/
theorem toBitVec_promote_sub (s t : UInt16) :
    (promote s - promote t).toInt16.toBitVec = s.toBitVec - t.toBitVec := by
  have hs := s.toBitVec.isLt
  have ht := t.toBitVec.isLt
  rw [Int32.toBitVec_toInt16, BitVec.signExtend_eq_setWidth_of_le _ (by decide),
    Int32.toBitVec_sub]
  apply BitVec.eq_of_toNat_eq
  rw [BitVec.toNat_setWidth, BitVec.toNat_sub, BitVec.toNat_sub]
  simp only [promote, UInt32.toBitVec_toInt32, UInt16.toBitVec_toUInt32, BitVec.toNat_setWidth]
  omega

theorem promote_inj {s t : UInt16} : promote s = promote t ↔ s = t := by
  refine ⟨fun h => ?_, fun h => h ▸ rfl⟩
  have hsub := toBitVec_promote_sub s t
  rw [h, Int32.sub_self] at hsub
  exact UInt16.toBitVec_inj.mp (sub_eq_zero.mp hsub.symm)

/-! ## The comparisons -/

theorem TSN_lt_iff (s t : UInt32) : TSN_lt s t ≠ 0 ↔ Before s.toBitVec t.toBitVec := by
  rw [Before, ← UInt32.toBitVec_sub, ← and_TSN_SIGN_BIT, TSN_lt, ne_eq, ne_eq,
    ← Int32.toBitVec_inj, ← UInt32.toBitVec_inj]
  rfl

theorem TSN_lt2_iff (s t : UInt32) : TSN_lt2 s t ≠ 0 ↔ Before s.toBitVec t.toBitVec := by
  rw [TSN_lt2, truth_ne_zero, decide_eq_true_iff, Int32.lt_iff_toInt_lt, Before,
    ← toInt_neg_iff_msb]
  rfl

theorem TSN_lte_iff (s t : UInt32) :
    TSN_lte s t ≠ 0 ↔ s = t ∨ Before s.toBitVec t.toBitVec := by
  rw [TSN_lte, truth_ne_zero, Bool.or_eq_true, decide_eq_true_iff, decide_eq_true_iff,
    and_TSN_SIGN_BIT]
  rfl

theorem TSN_lte2_iff (s t : UInt32) :
    TSN_lte2 s t ≠ 0 ↔ s = t ∨ Before s.toBitVec t.toBitVec := by
  rw [TSN_lte2, truth_ne_zero, decide_eq_true_iff, Int32.le_iff_toInt_le, Before,
    ← UInt32.toBitVec_inj, ← sub_eq_zero (a := s.toBitVec)]
  exact toInt_le_zero_iff

theorem SSN_lt_iff (s t : UInt16) : SSN_lt s t ≠ 0 ↔ Before s.toBitVec t.toBitVec := by
  rw [SSN_lt, and_SSN_SIGN_BIT, toBitVec_promote_sub, Before]

theorem SSN_lt2_iff (s t : UInt16) : SSN_lt2 s t ≠ 0 ↔ Before s.toBitVec t.toBitVec := by
  rw [SSN_lt2, truth_ne_zero, decide_eq_true_iff, Int16.lt_iff_toInt_lt, Before,
    ← toInt_neg_iff_msb, ← toBitVec_promote_sub]
  rfl

theorem SSN_lte_iff (s t : UInt16) :
    SSN_lte s t ≠ 0 ↔ s = t ∨ Before s.toBitVec t.toBitVec := by
  rw [SSN_lte, truth_ne_zero, Bool.or_eq_true, decide_eq_true_iff, decide_eq_true_iff,
    promote_inj, and_SSN_SIGN_BIT, toBitVec_promote_sub, Before]

theorem SSN_lte2_iff (s t : UInt16) :
    SSN_lte2 s t ≠ 0 ↔ s = t ∨ Before s.toBitVec t.toBitVec := by
  rw [SSN_lte2, truth_ne_zero, decide_eq_true_iff, Int16.le_iff_toInt_le, Before,
    ← UInt16.toBitVec_inj, ← sub_eq_zero (a := s.toBitVec), ← toBitVec_promote_sub]
  exact toInt_le_zero_iff

/-- **The older and the newer comparisons are interchangeable.** -/
theorem older_newer_agree :
    (∀ s t : UInt32, (TSN_lt s t ≠ 0 ↔ TSN_lt2 s t ≠ 0) ∧ (TSN_lte s t ≠ 0 ↔ TSN_lte2 s t ≠ 0)) ∧
    ∀ s t : UInt16, (SSN_lt s t ≠ 0 ↔ SSN_lt2 s t ≠ 0) ∧ (SSN_lte s t ≠ 0 ↔ SSN_lte2 s t ≠ 0) := by
  refine ⟨fun s t => ⟨?_, ?_⟩, fun s t => ⟨?_, ?_⟩⟩
  · rw [TSN_lt_iff, TSN_lt2_iff]
  · rw [TSN_lte_iff, TSN_lte2_iff]
  · rw [SSN_lt_iff, SSN_lt2_iff]
  · rw [SSN_lte_iff, SSN_lte2_iff]

/-! ## Windows -/

/-- The TSN `d` increments behind `b`. -/
def TSN_plus (b : UInt32) (d : ℕ) : UInt32 := b + UInt32.ofNat d

/-- The SSN `d` increments behind `b`. -/
def SSN_plus (b : UInt16) (d : ℕ) : UInt16 := b + UInt16.ofNat d

/-- A pair of C comparisons orders the windows behind every number: as the distances
are ordered, and so totally. -/
structure OrdersAllWindows {S : Type} (bits : ℕ) (plus : S → ℕ → S) (lt lte : S → S → Int32) :
    Prop where
  /-- the order is that of the distances, also along runs of increments -/
  orders : OrdersWindows bits plus (fun s t => lt s t ≠ 0) (fun s t => lte s t ≠ 0)
  /-- on every window the order is total -/
  total : ∀ b, OrdersWindows.TotalOn (fun s t => lt s t ≠ 0) (fun s t => lte s t ≠ 0)
    (OrdersWindows.Window bits plus b)

/-- Comparing numbers by the sign of their difference orders windows. -/
theorem OrdersAllWindows.of_before {S : Type} {w : ℕ} (hw : 0 < w) {plus : S → ℕ → S}
    {lt lte : S → S → Int32} (val : S → BitVec w)
    (hplus : ∀ b d, val (plus b d) = val b + BitVec.ofNat w d)
    (hlt : ∀ s t, lt s t ≠ 0 ↔ Before (val s) (val t))
    (hlte : ∀ s t, lte s t ≠ 0 ↔ s = t ∨ Before (val s) (val t)) :
    OrdersAllWindows w plus lt lte := by
  have horders : OrdersWindows w plus (fun s t => lt s t ≠ 0) (fun s t => lte s t ≠ 0) :=
    OrdersWindows.of_before hw val hplus hlt hlte
  exact ⟨horders, horders.totalOn⟩

/-- **On windows of less than half the circle all four pairs of comparisons are the order
of the distances from the start of the window.** -/
theorem comparisons_order_windows :
    OrdersAllWindows 32 TSN_plus TSN_lt TSN_lte ∧ OrdersAllWindows 32 TSN_plus TSN_lt2 TSN_lte2 ∧
    OrdersAllWindows 16 SSN_plus SSN_lt SSN_lte ∧
    OrdersAllWindows 16 SSN_plus SSN_lt2 SSN_lte2 := by
  have htsn : ∀ b d, (TSN_plus b d).toBitVec = b.toBitVec + BitVec.ofNat 32 d := fun _ _ => rfl
  have hssn : ∀ b d, (SSN_plus b d).toBitVec = b.toBitVec + BitVec.ofNat 16 d := fun _ _ => rfl
  refine ⟨?_, ?_, ?_, ?_⟩
  · exact OrdersAllWindows.of_before (by decide) UInt32.toBitVec htsn TSN_lt_iff TSN_lte_iff
  · exact OrdersAllWindows.of_before (by decide) UInt32.toBitVec htsn TSN_lt2_iff TSN_lte2_iff
  · exact OrdersAllWindows.of_before (by decide) UInt16.toBitVec hssn SSN_lt_iff SSN_lte_iff
  · exact OrdersAllWindows.of_before (by decide) UInt16.toBitVec hssn SSN_lt2_iff SSN_lte2_iff

/-! ## RFC 1982 -/

/-- `lt` and `lte` are what RFC 1982 says of `s` and `t`, and `lt` holds one way at most. -/
structure MeetsRfc1982 {S : Type} {w : ℕ} (val : S → BitVec w) (lt lte : S → S → Int32)
    (s t : S) : Prop where
  /-- `lt` is "less than" -/
  lt_iff : lt s t ≠ 0 ↔ Less (val s) (val t)
  /-- `lte` is "equal to or less than" -/
  lte_iff : lte s t ≠ 0 ↔ s = t ∨ Less (val s) (val t)
  /-- no two numbers are less than each other -/
  asymm : ¬ (lt s t ≠ 0 ∧ lt t s ≠ 0)

/-- **The sign of the difference meets RFC 1982 exactly off opposite numbers.** -/
theorem meetsRfc1982_iff {S : Type} {w : ℕ} (hw : 0 < w) {val : S → BitVec w}
    {lt lte : S → S → Int32} (hlt : ∀ s t, lt s t ≠ 0 ↔ Before (val s) (val t))
    (hlte : ∀ s t, lte s t ≠ 0 ↔ s = t ∨ Before (val s) (val t)) {s t : S} :
    MeetsRfc1982 val lt lte s t ↔ ¬ Opposite (val s) (val t) := by
  refine ⟨fun h hopp => h.asymm ?_, fun hopp => ?_⟩
  · rw [hlt, hlt]
    exact (before_and_before_iff hw).mpr hopp
  · have hless : Before (val s) (val t) ↔ Less (val s) (val t) := by
      rw [before_iff hw, or_iff_left hopp]
    refine ⟨(hlt s t).trans hless, (hlte s t).trans (or_congr_right hless), fun hboth => hopp ?_⟩
    rw [hlt, hlt] at hboth
    exact (before_and_before_iff hw).mp hboth

/-- **Both older pairs meet the comparison the file quotes exactly where the numbers are not
half the circle apart.** -/
theorem comparisons_meet_rfc1982_iff (s t : UInt32) (s' t' : UInt16) :
    (MeetsRfc1982 UInt32.toBitVec TSN_lt TSN_lte s t ↔ s - t ≠ 0x80000000) ∧
    (MeetsRfc1982 UInt16.toBitVec SSN_lt SSN_lte s' t' ↔ s' - t' ≠ 0x8000) := by
  refine ⟨?_, ?_⟩
  · rw [meetsRfc1982_iff (by decide) TSN_lt_iff TSN_lte_iff]
    exact not_congr (UInt32.toNat_inj (b := 0x80000000))
  · rw [meetsRfc1982_iff (by decide) SSN_lt_iff SSN_lte_iff]
    exact not_congr (UInt16.toNat_inj (b := 0x8000))

/-- Half the circle apart `TSN_lt` holds both ways, and RFC 1982 has it neither way. -/
theorem TSN_lt_opposite :
    TSN_lt 0 0x80000000 ≠ 0 ∧ TSN_lt 0x80000000 0 ≠ 0 ∧
      ¬ MeetsRfc1982 UInt32.toBitVec TSN_lt TSN_lte 0 0x80000000 := by
  have hst : TSN_lt 0 0x80000000 ≠ 0 := by decide
  have hts : TSN_lt 0x80000000 0 ≠ 0 := by decide
  exact ⟨hst, hts, fun h => h.asymm ⟨hst, hts⟩⟩

end StudyTips
