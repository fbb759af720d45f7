import Mathlib.Algebra.BigOperators.Fin
import Mathlib.Algebra.BigOperators.Intervals
import Mathlib.Tactic.Ring

/-!
# Horner's rule with a multiplier for every step

Many hashes multiply what they have by a number and add the next character. The number may
be another one in every step.

* `horner_eq_sum`: the closed form of such a run, every character times the multipliers of the
  steps behind it; `horner_const` for one multiplier.
* `horner_const_append`: with one multiplier, the value of a concatenation is made of the values
  of its parts.
* `map_horner`: a homomorphism of semirings takes runs to runs.
-/

namespace Horner

variable {R S χ : Type} [CommSemiring R] [CommSemiring S]

/-- From `h` on, step `k + i` multiplies by `mult (k + i)` and adds the value of its character. -/
def horner (mult : ℕ → R) (f : χ → R) : ℕ → R → List χ → R
  | _, h, [] => h
  | k, h, c :: cs => horner mult f (k + 1) (h * mult k + f c) cs

variable {mult : ℕ → R} {f : χ → R}

@[simp] theorem horner_nil (k : ℕ) (h : R) : horner mult f k h [] = h := rfl

@[simp] theorem horner_cons (k : ℕ) (h : R) (c : χ) (cs : List χ) :
    horner mult f k h (c :: cs) = horner mult f (k + 1) (h * mult k + f c) cs := rfl

/-- The first multiplier of a product of consecutive ones. -/
theorem prod_Ico_succ (mult : ℕ → R) (k n : ℕ) :
    ∏ j ∈ Finset.Ico k (k + (n + 1)), mult j =
      mult k * ∏ j ∈ Finset.Ico (k + 1) (k + 1 + n), mult j := by
  rw [Finset.prod_eq_prod_Ico_succ_bot (by omega), show k + (n + 1) = k + 1 + n by omega]

/-- A run over a concatenation goes on where the run over its first part ends. -/
theorem horner_append (cs ds : List χ) : ∀ (k : ℕ) (h : R),
    horner mult f k h (cs ++ ds) = horner mult f (k + cs.length) (horner mult f k h cs) ds := by
  induction cs with
  | nil => exact fun _ _ => rfl
  | cons c cs ih =>
    intro k h
    rw [List.cons_append, horner_cons, horner_cons, ih, List.length_cons,
      show k + 1 + cs.length = k + (cs.length + 1) by omega]

/-- **Every character counts times the multipliers behind it.** -/
theorem horner_eq_sum (cs : List χ) : ∀ (k : ℕ) (h : R),
    horner mult f k h cs =
      h * ∏ j ∈ Finset.Ico k (k + cs.length), mult j +
        ∑ i : Fin cs.length, f cs[i] * ∏ j ∈ Finset.Ico (k + (i + 1)) (k + cs.length), mult j := by
  induction cs with
  | nil =>
    intro k h
    simp
  | cons c cs ih =>
    intro k h
    -- the first character of the sum, and the others one step later
    have hsum : ∑ i : Fin (c :: cs).length, f (c :: cs)[i] *
          ∏ j ∈ Finset.Ico (k + (i + 1)) (k + (c :: cs).length), mult j =
        f c * ∏ j ∈ Finset.Ico (k + 1) (k + (cs.length + 1)), mult j +
          ∑ i : Fin cs.length, f cs[i] *
            ∏ j ∈ Finset.Ico (k + (i + 1 + 1)) (k + (cs.length + 1)), mult j :=
      Fin.sum_univ_succ _
    have hprod : ∏ j ∈ Finset.Ico k (k + (c :: cs).length), mult j =
        mult k * ∏ j ∈ Finset.Ico (k + 1) (k + 1 + cs.length), mult j :=
      prod_Ico_succ mult k cs.length
    have hlen : k + 1 + cs.length = k + (cs.length + 1) := by omega
    have htail : ∀ i : ℕ, k + 1 + (i + 1) = k + (i + 1 + 1) := fun i => by omega
    rw [horner_cons, ih (k + 1), hprod, hsum, hlen]
    simp only [htail]
    ring

/-- With one multiplier the products are powers. -/
theorem horner_const (a : R) (cs : List χ) (k : ℕ) (h : R) :
    horner (fun _ => a) f k h cs =
      h * a ^ cs.length + ∑ i : Fin cs.length, f cs[i] * a ^ (cs.length - 1 - i) := by
  have hcard : ∀ i : Fin cs.length, k + cs.length - (k + (i + 1)) = cs.length - 1 - i :=
    fun i => by omega
  simp only [horner_eq_sum, Finset.prod_const, Nat.card_Ico, Nat.add_sub_cancel_left, hcard]

/-- **Parts make the whole**: with one multiplier, a run over a concatenation is made of the runs
over its parts, whatever they start from. -/
theorem horner_const_append (a : R) (cs ds : List χ) (k : ℕ) (h h' : R) :
    horner (fun _ => a) f k h (cs ++ ds) + h' * a ^ ds.length =
      horner (fun _ => a) f k h cs * a ^ ds.length + horner (fun _ => a) f k h' ds := by
  rw [horner_append, horner_const a ds, horner_const a ds]
  ring

/-- **Homomorphisms take runs to runs.** -/
theorem map_horner (mult : ℕ → R) (f : χ → R) (φ : R →+* S) (cs : List χ) : ∀ (k : ℕ) (h : R),
    φ (horner mult f k h cs) = horner (fun j => φ (mult j)) (fun c => φ (f c)) k (φ h) cs := by
  induction cs with
  | nil => exact fun _ _ => rfl
  | cons c cs ih =>
    intro k h
    rw [horner_cons, horner_cons, ih, map_add, map_mul]

end Horner
