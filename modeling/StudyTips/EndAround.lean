import Mathlib.Data.Nat.ModEq
import Mathlib.Algebra.BigOperators.Group.List.Basic

/-!
# End-around carry: addition modulo `M` with two zeros

One's-complement sums add words modulo `M` (`M = 2 ^ w - 1` for `w`-bit words)
by feeding the carry back in at the low end. Every class modulo `M` has one
representative in `1 .. M`; the number `0` is represented by `0` only when
nothing but zeros was added, so a multiple of `M` shows up as `0` or as `M`
depending on how it arose. `rep` is that choice of representative.

* `rep_eq_rep_iff`: a representative is pinned down by its class and by whether
  the number is zero.
* `rep_carry`: one round of end-around carry does not move the representative,
  which is what makes a folding loop compute `rep`.
* `sum_eq_rep`: the word-by-word sum is the representative of the plain sum.
* `rep_add_complement`: adding the complement of the sum yields `M`, all ones.
-/

namespace EndAround

variable {M : ℕ}

/-! ## The representative -/

/-- The representative of `n` modulo `M` in `1 .. M`, with `0` kept for `0`. -/
def rep (M n : ℕ) : ℕ := if n = 0 then 0 else (n - 1) % M + 1

@[simp] theorem rep_zero : rep M 0 = 0 := rfl

/-- On positive numbers the representative is the shifted remainder. -/
theorem rep_of_ne_zero {n : ℕ} (hn : n ≠ 0) : rep M n = (n - 1) % M + 1 := if_neg hn

@[simp] theorem rep_eq_zero {n : ℕ} : rep M n = 0 ↔ n = 0 := by
  by_cases hn : n = 0
  · simp [hn]
  · simp [rep_of_ne_zero hn, hn]

theorem rep_le (hM : 0 < M) (n : ℕ) : rep M n ≤ M := by
  by_cases hn : n = 0
  · simp [hn]
  · rw [rep_of_ne_zero hn]
    exact Nat.mod_lt _ hM

/-- The representative stays in the class of the number. -/
theorem rep_modEq (n : ℕ) : rep M n ≡ n [MOD M] := by
  by_cases hn : n = 0
  · rw [hn, rep_zero]
  · have hstep : (n - 1) % M + 1 ≡ (n - 1) + 1 [MOD M] := (Nat.mod_modEq _ _).add_right 1
    rw [rep_of_ne_zero hn]
    rwa [Nat.sub_add_cancel (Nat.pos_of_ne_zero hn)] at hstep

/-- Numbers that already fit represent themselves. -/
theorem rep_of_le {n : ℕ} (h : n ≤ M) : rep M n = n := by
  by_cases hn : n = 0
  · rw [hn, rep_zero]
  · rw [rep_of_ne_zero hn, Nat.mod_eq_of_lt (by omega)]
    omega

/-- Numbers in the same class, both zero or both not, have one representative. -/
theorem rep_congr {a b : ℕ} (h : a ≡ b [MOD M]) (h0 : a = 0 ↔ b = 0) : rep M a = rep M b := by
  by_cases ha : a = 0
  · rw [ha, h0.mp ha]
  · have hb : b ≠ 0 := fun hb => ha (h0.mpr hb)
    have hpred : a - 1 ≡ b - 1 [MOD M] := by
      apply Nat.ModEq.add_right_cancel' 1
      rwa [Nat.sub_add_cancel (Nat.pos_of_ne_zero ha),
        Nat.sub_add_cancel (Nat.pos_of_ne_zero hb)]
    rw [rep_of_ne_zero ha, rep_of_ne_zero hb, hpred]

/-- Equality of representatives says the same class and the same zeroness. -/
theorem rep_eq_rep_iff {a b : ℕ} :
    rep M a = rep M b ↔ a ≡ b [MOD M] ∧ (a = 0 ↔ b = 0) := by
  refine ⟨?_, ?_⟩
  · intro h
    refine ⟨(rep_modEq a).symm.trans (h ▸ rep_modEq b), ?_⟩
    rw [← rep_eq_zero (M := M), h, rep_eq_zero]
  · rintro ⟨h, h0⟩
    exact rep_congr h h0

/-- The all-ones word represents the positive multiples of `M`. -/
theorem rep_eq_top_iff (hM : 0 < M) {n : ℕ} : rep M n = M ↔ n ≠ 0 ∧ M ∣ n := by
  have htop : rep M M = M := rep_of_le (le_refl M)
  rw [show rep M n = M ↔ rep M n = rep M M by rw [htop], rep_eq_rep_iff]
  have hM0 : M ≠ 0 := Nat.pos_iff_ne_zero.mp hM
  have hdvd : n ≡ M [MOD M] ↔ M ∣ n := by
    rw [Nat.ModEq, Nat.mod_self, Nat.dvd_iff_mod_eq_zero]
  rw [hdvd]
  tauto

/-- Two representatives add up to all ones exactly when the numbers add up to a multiple of `M`
and are not multiples themselves. -/
theorem rep_add_rep_eq_top_iff (hM : 0 < M) {a b : ℕ} (ha : a ≠ 0) (hb : b ≠ 0) :
    rep M a + rep M b = M ↔ M ∣ a + b ∧ ¬ M ∣ a := by
  have hclass : rep M a + rep M b ≡ a + b [MOD M] := (rep_modEq a).add (rep_modEq b)
  have hdvd : M ∣ rep M a + rep M b ↔ M ∣ a + b := hclass.dvd_iff (dvd_refl M)
  have htop : rep M a = M ↔ M ∣ a := by rw [rep_eq_top_iff hM, and_iff_right ha]
  have hale : rep M a ≤ M := rep_le hM a
  have hble : rep M b ≤ M := rep_le hM b
  have hbpos : rep M b ≠ 0 := fun h => hb (rep_eq_zero.mp h)
  rw [← hdvd, ← htop]
  refine ⟨fun h => ⟨by rw [h], by omega⟩, ?_⟩
  rintro ⟨⟨k, hk⟩, hne⟩
  -- the sum is a positive multiple of `M` below `2 * M`
  have hlt : M * k < M * 2 := by omega
  have hk2 : k < 2 := Nat.lt_of_mul_lt_mul_left hlt
  have hk0 : k ≠ 0 := by
    rintro rfl
    omega
  obtain rfl : k = 1 := by omega
  rw [hk, Nat.mul_one]

@[simp] theorem rep_rep (n : ℕ) : rep M (rep M n) = rep M n :=
  rep_congr (rep_modEq n) rep_eq_zero

/-- Folding a partial sum early does not change the representative. -/
@[simp] theorem rep_rep_add (a b : ℕ) : rep M (rep M a + b) = rep M (a + b) :=
  rep_congr ((rep_modEq a).add_right b) (by simp [Nat.add_eq_zero_iff])

/-! ## Folding the carry -/

/-- One round of end-around carry on base `M + 1`. -/
def carry (M n : ℕ) : ℕ := n % (M + 1) + n / (M + 1)

/-- What a round takes off is a multiple of `M`. -/
theorem carry_add_mul (n : ℕ) : carry M n + M * (n / (M + 1)) = n := by
  have hsplit : (M + 1) * (n / (M + 1)) + n % (M + 1) = n := Nat.div_add_mod n (M + 1)
  rw [Nat.add_mul, Nat.one_mul] at hsplit
  rw [carry]
  omega

/-- **A round of end-around carry keeps the representative.** -/
theorem rep_carry (n : ℕ) : rep M (carry M n) = rep M n := by
  refine rep_congr ?_ ⟨fun h => ?_, fun h => by simp [carry, h]⟩
  · -- the round has taken off a multiple of `M`
    have hmul : carry M n + M * (n / (M + 1)) ≡ carry M n + 0 [MOD M] :=
      Nat.ModEq.add_left _ (by simp [Nat.ModEq])
    rw [carry_add_mul] at hmul
    exact hmul.symm
  · -- nothing is left only where there was nothing
    have hq : n / (M + 1) = 0 := (Nat.add_eq_zero_iff.mp h).2
    rw [← carry_add_mul (M := M) n, h, hq, Nat.mul_zero]

/-- A round shrinks every number that has a carry to feed back. -/
theorem carry_lt {n : ℕ} (hM : 0 < M) (h : M < n) : carry M n < n := by
  have hq : 0 < n / (M + 1) := Nat.div_pos (by omega) (Nat.succ_pos M)
  have hpos : 0 < M * (n / (M + 1)) := Nat.mul_pos hM hq
  have := carry_add_mul (M := M) n
  omega

/-! ## One's-complement sums -/

/-- One's-complement addition of two words: add, then feed the carry back. -/
def add (M a b : ℕ) : ℕ := carry M (a + b)

/-- The one's-complement sum of a list of words, added from the left. -/
def sum (M : ℕ) (ws : List ℕ) : ℕ := ws.foldl (add M) 0

/-- For words one round is enough: the result fits again. -/
theorem add_eq_rep {a b : ℕ} (ha : a ≤ M) (hb : b ≤ M) : add M a b = rep M (a + b) := by
  have hfit : carry M (a + b) ≤ M := by
    by_cases h : a + b < M + 1
    · rw [carry, Nat.div_eq_of_lt h, Nat.mod_eq_of_lt h]
      omega
    · have hdiv : (a + b) / (M + 1) = 1 := Nat.div_eq_of_lt_le (by omega) (by omega)
      have := carry_add_mul (M := M) (a + b)
      rw [hdiv] at this
      omega
  rw [add, ← rep_carry, rep_of_le hfit]

theorem foldl_add_eq_rep {ws : List ℕ} :
    ∀ {a : ℕ}, a ≤ M → (∀ w ∈ ws, w ≤ M) → ws.foldl (add M) a = rep M (a + ws.sum) := by
  induction ws with
  | nil =>
    intro a ha _
    rw [List.foldl_nil, List.sum_nil, Nat.add_zero, rep_of_le ha]
  | cons w ws ih =>
    intro a ha hws
    have hw : w ≤ M := hws w (List.mem_cons_self ..)
    rw [List.foldl_cons, List.sum_cons, add_eq_rep ha hw]
    rcases Nat.eq_zero_or_pos M with rfl | hM
    · obtain rfl : a = 0 := Nat.le_zero.mp ha
      obtain rfl : w = 0 := Nat.le_zero.mp hw
      simpa using ih (le_refl 0) fun x hx => hws x (List.mem_cons_of_mem _ hx)
    · rw [ih (rep_le hM _) fun x hx => hws x (List.mem_cons_of_mem _ hx), rep_rep_add,
        Nat.add_assoc]

/-- **The word-by-word sum is the representative of the plain sum.** -/
theorem sum_eq_rep {ws : List ℕ} (hws : ∀ w ∈ ws, w ≤ M) : sum M ws = rep M ws.sum := by
  rw [sum, foldl_add_eq_rep (Nat.zero_le M) hws, Nat.zero_add]

/-- **Adding the complement of a sum gives all ones.** -/
theorem rep_add_complement (hM : 0 < M) (n : ℕ) : rep M (n + (M - rep M n)) = M := by
  have hle : rep M n ≤ M := rep_le hM n
  rw [← rep_rep_add, Nat.add_sub_cancel' hle, rep_of_le (le_refl M)]

end EndAround
