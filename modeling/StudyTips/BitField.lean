import Mathlib.Algebra.Ring.Nat

/-!
# Bit-fields at the low end of a word

The low bits of a word are a number of their own, which is read by cutting the word down to
them and written without touching the bits above. Fields of different widths overlap: the
narrower one is what is left of the wider one modulo its own size.

* `get_set`, `get_get`: what is read behind a write, and through a wider field.
* `SameAbove`: the frame of a write (`sameAbove_set`), which runs of writes to fields of up to so
  many bits keep (`sameAbove_foldl`).
-/

namespace BitField

variable {m n k : ℕ}

/-- Read the low `n` bits of a word. -/
def get (n : ℕ) (w : BitVec m) : BitVec n := w.setWidth n

/-- Write the low `n` bits of a word. -/
def set (w : BitVec m) (v : BitVec n) : BitVec m := (w >>> n) <<< n ||| v.setWidth m

/-- Behind a write the low bits are those written, and the others those of the word. -/
theorem getLsbD_set (w : BitVec m) (v : BitVec n) {i : ℕ} (hi : i < m) :
    (set w v).getLsbD i = if i < n then v.getLsbD i else w.getLsbD i := by
  rw [set, BitVec.getLsbD_or, BitVec.getLsbD_shiftLeft, BitVec.getLsbD_setWidth,
    BitVec.getLsbD_ushiftRight]
  by_cases hlow : i < n
  · simp [hi, hlow]
  · have hge : n ≤ i := Nat.not_lt.mp hlow
    rw [if_neg hlow, BitVec.getLsbD_of_ge v i hge]
    simp [hi, hlow, Nat.add_sub_cancel' hge]

/-- A field holds what was written to it. -/
theorem get_set (h : n ≤ m) (w : BitVec m) (v : BitVec n) : get n (set w v) = v := by
  apply BitVec.eq_of_getLsbD_eq
  intro i hi
  rw [get, BitVec.getLsbD_setWidth, getLsbD_set w v (Nat.lt_of_lt_of_le hi h), if_pos hi]
  simp [hi]

/-- A narrower field is a field of the wider one. -/
theorem get_get (h : k ≤ n) (w : BitVec m) : get k (get n w) = get k w :=
  BitVec.setWidth_setWidth_of_le w h

theorem toNat_get (n : ℕ) (w : BitVec m) : (get n w).toNat = w.toNat % 2 ^ n :=
  BitVec.toNat_setWidth n w

/-- A field of `n` bits holds no more than they can. -/
theorem toNat_get_le (n : ℕ) (w : BitVec m) : (get n w).toNat ≤ 2 ^ n - 1 :=
  Nat.le_sub_one_of_lt (get n w).isLt

/-- The narrower field holds what the wider one does, modulo its own size. -/
theorem toNat_get_of_le (h : k ≤ n) (w : BitVec m) :
    (get k w).toNat = (get n w).toNat % 2 ^ k := by
  rw [← get_get h, toNat_get]

/-! ## The bits above -/

/-- Two words are the same from bit `n` on. -/
def SameAbove (n : ℕ) (w w' : BitVec m) : Prop := ∀ i, n ≤ i → w.getLsbD i = w'.getLsbD i

namespace SameAbove

theorem refl (n : ℕ) (w : BitVec m) : SameAbove n w w := fun _ _ => rfl

theorem trans {w w' w'' : BitVec m} (h : SameAbove n w w') (h' : SameAbove n w' w'') :
    SameAbove n w w'' := fun i hi => (h i hi).trans (h' i hi)

theorem mono {w w' : BitVec m} (hkn : k ≤ n) (h : SameAbove k w w') : SameAbove n w w' :=
  fun i hi => h i (Nat.le_trans hkn hi)

end SameAbove

/-- **A write keeps the bits above its field.** -/
theorem sameAbove_set (w : BitVec m) (v : BitVec n) : SameAbove n (set w v) w := by
  intro i hni
  rcases Nat.lt_or_ge i m with hi | hi
  · rw [getLsbD_set w v hi, if_neg (Nat.not_lt.mpr hni)]
  · rw [BitVec.getLsbD_of_ge _ i hi, BitVec.getLsbD_of_ge _ i hi]

/-- **Frame rule**: a run of steps that all keep the bits from `n` on keeps them. -/
theorem sameAbove_foldl {Op : Type} {step : BitVec m → Op → BitVec m}
    (hstep : ∀ w op, SameAbove n (step w op) w) (w : BitVec m) (ops : List Op) :
    SameAbove n (ops.foldl step w) w := by
  induction ops generalizing w with
  | nil => exact SameAbove.refl n w
  | cons op ops ih => exact (ih (step w op)).trans (hstep w op)

end BitField
