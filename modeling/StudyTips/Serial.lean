import Mathlib.Data.BitVec

/-!
# Serial numbers: comparison on a circle

Serial numbers of `w` bits are numbers that are incremented modulo `2 ^ w`. Which
of two comes first depends on the shorter way around the circle. There are two
usual renderings of that, and they differ where both ways are equally long:

* `Less`: RFC 1982, by cases on which of the two integers is smaller.
* `Before`: the difference taken modulo `2 ^ w` has its top bit set.

`before_iff` says by how much they differ: on `Opposite` numbers each is before the
other, and none is less. Neither is transitive on the whole circle. On a window
of half its length both order the numbers as their distances from its start do
(`before_add_iff`), and `OrdersWindows` collects what follows from that.
-/

namespace Serial

variable {w : ℕ}

/-! ## Two comparisons -/

/-- `s₁` is less than `s₂`, of which `i₁` and `i₂` are the integers:
RFC 1982 with `SERIAL_BITS = w`. -/
def Less (s₁ s₂ : BitVec w) : Prop :=
  let i₁ := s₁.toNat
  let i₂ := s₂.toNat
  s₁ ≠ s₂ ∧ ((i₁ < i₂ ∧ i₂ - i₁ < 2 ^ (w - 1)) ∨ (i₁ > i₂ ∧ i₁ - i₂ > 2 ^ (w - 1)))

/-- The difference modulo `2 ^ w` is negative as a signed number. -/
def Before (s t : BitVec w) : Prop := (s - t).msb = true

/-- Both ways around the circle are equally long. -/
def Opposite (s t : BitVec w) : Prop := (s - t).toNat = 2 ^ (w - 1)

instance (s t : BitVec w) : Decidable (Before s t) := inferInstanceAs (Decidable (_ = _))
instance (s t : BitVec w) : Decidable (Opposite s t) := inferInstanceAs (Decidable (_ = _))

/-- The circle is twice as long as half of it. -/
theorem two_pow_eq (hw : 0 < w) : 2 ^ w = 2 ^ (w - 1) + 2 ^ (w - 1) := by
  rw [← Nat.two_mul, ← Nat.pow_succ', Nat.succ_eq_add_one, Nat.sub_add_cancel hw]

/-- The way from `t` to `s`, by cases on whether it passes zero. -/
theorem toNat_sub_cases (s t : BitVec w) :
    (t.toNat ≤ s.toNat ∧ (s - t).toNat = s.toNat - t.toNat) ∨
      (s.toNat < t.toNat ∧ (s - t).toNat = 2 ^ w - t.toNat + s.toNat) := by
  have ht := t.isLt
  rcases Nat.lt_or_ge s.toNat t.toNat with hlt | hle
  · refine .inr ⟨hlt, ?_⟩
    rw [BitVec.toNat_sub, Nat.mod_eq_of_lt (by omega)]
  · exact .inl ⟨hle, BitVec.toNat_sub_of_le (BitVec.le_def.mpr hle)⟩

theorem before_iff_le {s t : BitVec w} : Before s t ↔ 2 ^ (w - 1) ≤ (s - t).toNat := by
  rw [Before, BitVec.msb_eq_decide, decide_eq_true_iff]

/-- RFC 1982 in one comparison: more than half way around. -/
theorem less_iff_lt (hw : 0 < w) {s t : BitVec w} : Less s t ↔ 2 ^ (w - 1) < (s - t).toNat := by
  have hs := s.isLt
  have ht := t.isLt
  have htwo := two_pow_eq hw
  have hpos := Nat.two_pow_pos (w - 1)
  rw [Less, ne_eq, ← BitVec.toNat_inj]
  rcases toNat_sub_cases s t with ⟨hle, hsub⟩ | ⟨hlt, hsub⟩
  · rw [hsub]
    omega
  · rw [hsub]
    omega

/-- **What the sign of the difference says beyond RFC 1982**: opposite numbers, too, come
one before the other. -/
theorem before_iff (hw : 0 < w) {s t : BitVec w} : Before s t ↔ Less s t ∨ Opposite s t := by
  rw [before_iff_le, less_iff_lt hw, Opposite]
  omega

/-- The two ways between different numbers make up the circle. -/
theorem toNat_sub_add_toNat_sub {s t : BitVec w} (h : s ≠ t) :
    (s - t).toNat + (t - s).toNat = 2 ^ w := by
  have hs := s.isLt
  have ht := t.isLt
  have hne : s.toNat ≠ t.toNat := fun heq => h (BitVec.toNat_inj.mp heq)
  rcases toNat_sub_cases s t with ⟨hle, hsub⟩ | ⟨hlt, hsub⟩
  · rcases toNat_sub_cases t s with ⟨hle', hsub'⟩ | ⟨hlt', hsub'⟩
    · exact absurd (Nat.le_antisymm hle' hle) hne
    · omega
  · rcases toNat_sub_cases t s with ⟨hle', hsub'⟩ | ⟨hlt', hsub'⟩
    · omega
    · omega

/-- **Each of two numbers is before the other exactly when they are opposite.** -/
theorem before_and_before_iff (hw : 0 < w) {s t : BitVec w} :
    Before s t ∧ Before t s ↔ Opposite s t := by
  have htwo := two_pow_eq hw
  have hpos := Nat.two_pow_pos (w - 1)
  rw [before_iff_le, before_iff_le, Opposite]
  by_cases heq : s = t
  · rw [heq, BitVec.sub_self, BitVec.toNat_zero]
    omega
  · have hsum := toNat_sub_add_toNat_sub heq
    omega

/-! ## Windows -/

/-- Shifting both numbers changes nothing. -/
theorem before_add_left {b s t : BitVec w} : Before (b + s) (b + t) ↔ Before s t := by
  rw [Before, Before, add_sub_add_left_eq_sub]

/-- **On a window of half the circle the order is that of the distances from its start.** -/
theorem before_add_iff (hw : 0 < w) {b : BitVec w} {d e : ℕ} (hd : d < 2 ^ (w - 1))
    (he : e < 2 ^ (w - 1)) : Before (b + BitVec.ofNat w d) (b + BitVec.ofNat w e) ↔ d < e := by
  have htwo := two_pow_eq hw
  have hd' : (BitVec.ofNat w d).toNat = d := by
    rw [BitVec.toNat_ofNat, Nat.mod_eq_of_lt (by omega)]
  have he' : (BitVec.ofNat w e).toNat = e := by
    rw [BitVec.toNat_ofNat, Nat.mod_eq_of_lt (by omega)]
  rw [before_add_left, before_iff_le]
  rcases toNat_sub_cases (BitVec.ofNat w d) (BitVec.ofNat w e) with ⟨hle, hsub⟩ | ⟨hlt, hsub⟩
  · rw [hsub, hd', he']
    rw [hd', he'] at hle
    omega
  · rw [hsub, hd', he']
    rw [hd', he'] at hlt
    omega

/-- **What it takes to order windows**: `plus b d` is the serial number `d` increments
behind `b`, and the numbers less than half the circle behind any `b` are ordered
by `lt` and `lte` as their distances from it are. -/
structure OrdersWindows {S : Type} (bits : ℕ) (plus : S → ℕ → S) (lt lte : S → S → Prop) :
    Prop where
  /-- `lt` is the order of the distances -/
  lt_iff : ∀ b d e, d < 2 ^ (bits - 1) → e < 2 ^ (bits - 1) → (lt (plus b d) (plus b e) ↔ d < e)
  /-- `lte` is the order of the distances -/
  lte_iff : ∀ b d e, d < 2 ^ (bits - 1) → e < 2 ^ (bits - 1) → (lte (plus b d) (plus b e) ↔ d ≤ e)
  /-- in a run of increments an earlier number is less than one that is fewer steps later -/
  run : ∀ x : ℕ → S, (∀ n, x (n + 1) = plus (x n) 1) →
    ∀ i j, i < j → j - i < 2 ^ (bits - 1) → lt (x i) (x j)

namespace OrdersWindows

variable {S : Type} {bits : ℕ} {plus : S → ℕ → S} {lt lte : S → S → Prop}

/-- The numbers less than half the circle behind `b`. -/
def Window (bits : ℕ) (plus : S → ℕ → S) (b s : S) : Prop := ∃ d < 2 ^ (bits - 1), s = plus b d

/-- On a window `lt` is a strict total order and `lte` a total one. -/
structure TotalOn (lt lte : S → S → Prop) (W : S → Prop) : Prop where
  /-- `lt` is irreflexive -/
  irrefl : ∀ s, W s → ¬ lt s s
  /-- `lt` is transitive -/
  trans : ∀ s t u, W s → W t → W u → lt s t → lt t u → lt s u
  /-- different numbers are comparable -/
  total : ∀ s t, W s → W t → s = t ∨ lt s t ∨ lt t s
  /-- `lte` is reflexive -/
  lte_refl : ∀ s, W s → lte s s
  /-- `lte` is transitive -/
  lte_trans : ∀ s t u, W s → W t → W u → lte s t → lte t u → lte s u
  /-- any two numbers are comparable -/
  lte_total : ∀ s t, W s → W t → lte s t ∨ lte t s

/-- **Ordered windows are totally ordered.** -/
theorem totalOn (h : OrdersWindows bits plus lt lte) (b : S) :
    TotalOn lt lte (Window bits plus b) := by
  refine ⟨?_, ?_, ?_, ?_, ?_, ?_⟩
  · rintro _ ⟨d, hd, rfl⟩
    rw [h.lt_iff b d d hd hd]
    exact Nat.lt_irrefl d
  · rintro _ _ _ ⟨d, hd, rfl⟩ ⟨e, he, rfl⟩ ⟨f, hf, rfl⟩
    rw [h.lt_iff b d e hd he, h.lt_iff b e f he hf, h.lt_iff b d f hd hf]
    exact Nat.lt_trans
  · rintro _ _ ⟨d, hd, rfl⟩ ⟨e, he, rfl⟩
    rw [h.lt_iff b d e hd he, h.lt_iff b e d he hd]
    rcases Nat.lt_trichotomy d e with hlt | rfl | hgt
    · exact .inr (.inl hlt)
    · exact .inl rfl
    · exact .inr (.inr hgt)
  · rintro _ ⟨d, hd, rfl⟩
    exact (h.lte_iff b d d hd hd).mpr (Nat.le_refl d)
  · rintro _ _ _ ⟨d, hd, rfl⟩ ⟨e, he, rfl⟩ ⟨f, hf, rfl⟩
    rw [h.lte_iff b d e hd he, h.lte_iff b e f he hf, h.lte_iff b d f hd hf]
    exact Nat.le_trans
  · rintro _ _ ⟨d, hd, rfl⟩ ⟨e, he, rfl⟩
    rw [h.lte_iff b d e hd he, h.lte_iff b e d he hd]
    exact Nat.le_total d e

/-- **The sign of the difference orders windows**, on any representation of the numbers. -/
theorem of_before (hw : 0 < w) (val : S → BitVec w)
    (hplus : ∀ b d, val (plus b d) = val b + BitVec.ofNat w d)
    (hlt : ∀ s t, lt s t ↔ Before (val s) (val t))
    (hlte : ∀ s t, lte s t ↔ s = t ∨ Before (val s) (val t)) : OrdersWindows w plus lt lte := by
  have hlt_iff : ∀ b d e, d < 2 ^ (w - 1) → e < 2 ^ (w - 1) →
      (lt (plus b d) (plus b e) ↔ d < e) := by
    intro b d e hd he
    rw [hlt, hplus, hplus, before_add_iff hw hd he]
  refine ⟨hlt_iff, ?_, ?_⟩
  · intro b d e hd he
    rw [hlte, ← hlt, hlt_iff b d e hd he, Nat.le_iff_lt_or_eq, or_comm]
    refine or_congr_right ⟨fun heq => ?_, fun heq => heq ▸ rfl⟩
    -- equal numbers are not before each other, so neither distance is less
    have hde := hlt_iff b d e hd he
    have hed := hlt_iff b e d he hd
    rw [← heq, hlt, Before, BitVec.sub_self, BitVec.msb_zero] at hde hed
    have h1 : ¬ d < e := fun h => Bool.noConfusion (hde.mpr h)
    have h2 : ¬ e < d := fun h => Bool.noConfusion (hed.mpr h)
    omega
  · intro x hx i j hij hnear
    have hrun : ∀ k, val (x (i + k)) = val (x i) + BitVec.ofNat w k := by
      intro k
      induction k with
      | zero => exact (BitVec.add_zero _).symm
      | succ k ih => rw [← Nat.add_assoc, hx, hplus, ih, BitVec.add_assoc, BitVec.ofNat_add]
    have hj := hrun (j - i)
    rw [Nat.add_sub_cancel' (Nat.le_of_lt hij)] at hj
    have hbefore : Before (val (x i) + BitVec.ofNat w 0) (val (x i) + BitVec.ofNat w (j - i)) :=
      (before_add_iff hw (Nat.two_pow_pos _) hnear).mpr (Nat.sub_pos_of_lt hij)
    rw [hlt, hj]
    rwa [show BitVec.ofNat w 0 = 0#w from rfl, BitVec.add_zero] at hbefore

end OrdersWindows

end Serial
