import Mathlib.Data.BitVec
import Mathlib.Data.Nat.ModEq
import Mathlib.Data.Nat.Prime.Basic
import Mathlib.Logic.Function.Iterate

/-!
# Hashes that take in one character a step

Such a hash is a fold of a step over the characters. Two strings that differ once
drive it through the same states up to the difference; from there on the question
is whether a step ever merges the two runs again.

* `foldl_apart`: the rule. A relation between states that holds behind the
  difference and is kept by every step holds at the end.
* `mul_left_injective`: multiplying by an odd number merges nothing.
* `xorShift_injective`: nor does `h ^ (h << a) ^ (h >> b)`, if no small set of
  candidates for a kernel survives a check. A number that is mapped to zero is
  determined by its `b` lowest bits, from which `refill` computes the others.
-/

namespace Mixing

/-! ## Strings that differ once -/

section Fold

variable {χ S : Type}

/-- Of equal length, and different at exactly one position. -/
def DifferOnce (xs ys : List χ) : Prop := xs.length = ys.length ∧ ∃! i : ℕ, xs[i]? ≠ ys[i]?

/-- Strings that differ once are equal before and behind the difference. -/
theorem DifferOnce.split {xs ys : List χ} (h : DifferOnce xs ys) :
    ∃ p x y s, x ≠ y ∧ xs = p ++ x :: s ∧ ys = p ++ y :: s := by
  obtain ⟨hlen, i, hi, honly⟩ := h
  have heq : ∀ j, j ≠ i → xs[j]? = ys[j]? := fun j hj => by_contra fun hne => hj (honly j hne)
  have hix : i < xs.length := by
    by_contra hge
    apply hi
    rw [List.getElem?_eq_none (by omega), List.getElem?_eq_none (by omega)]
  have hiy : i < ys.length := hlen ▸ hix
  have htake : xs.take i = ys.take i := by
    apply List.ext_getElem?
    intro j
    rw [List.getElem?_take, List.getElem?_take]
    split
    next hj => exact heq j (Nat.ne_of_lt hj)
    next => rfl
  have hdrop : xs.drop (i + 1) = ys.drop (i + 1) := by
    apply List.ext_getElem?
    intro j
    rw [List.getElem?_drop, List.getElem?_drop]
    exact heq _ (by omega)
  refine ⟨xs.take i, xs[i], ys[i], xs.drop (i + 1), ?_, ?_, ?_⟩
  · intro hxy
    apply hi
    rw [List.getElem?_eq_getElem hix, List.getElem?_eq_getElem hiy, hxy]
  · rw [← List.drop_eq_getElem_cons hix, List.take_append_drop]
  · rw [htake, hdrop, ← List.drop_eq_getElem_cons hiy, List.take_append_drop]

/-- **Runs that a difference drives apart stay apart**, if no step brings states that
are apart together. -/
theorem foldl_apart {step : S → χ → S} (Inv : S → Prop) (Apart : S → S → Prop)
    (hinv : ∀ s c, Inv s → Inv (step s c))
    (hsplit : ∀ s c c', Inv s → c ≠ c' → Apart (step s c) (step s c'))
    (hkeep : ∀ s t c, Apart s t → Apart (step s c) (step t c)) {s : S} (hs : Inv s)
    {xs ys : List χ} (h : DifferOnce xs ys) : Apart (xs.foldl step s) (ys.foldl step s) := by
  obtain ⟨p, x, y, suffix, hne, rfl, rfl⟩ := h.split
  have hp : Inv (p.foldl step s) := List.foldlRecOn p step hs fun t ht c _ => hinv t c ht
  have hsuffix : ∀ (zs : List χ) (t u : S), Apart t u → Apart (zs.foldl step t) (zs.foldl step u) := by
    intro zs
    induction zs with
    | nil => exact fun _ _ htu => htu
    | cons z zs ih => exact fun t u htu => ih _ _ (hkeep t u z htu)
  rw [List.foldl_append, List.foldl_append, List.foldl_cons, List.foldl_cons]
  exact hsuffix suffix _ _ (hsplit _ x y hp hne)

end Fold

variable {w : ℕ}

/-! ## Odd multipliers -/

/-- **Multiplication by an odd number merges nothing.** -/
theorem mul_left_injective {a : BitVec w} (ha : Odd a.toNat) : Function.Injective (· * a) := by
  intro x y hxy
  have hmod : x.toNat * a.toNat ≡ y.toNat * a.toNat [MOD 2 ^ w] := by
    have := congrArg BitVec.toNat hxy
    rwa [BitVec.toNat_mul, BitVec.toNat_mul] at this
  have hcoprime : Nat.gcd (2 ^ w) a.toNat = 1 := (Nat.coprime_two_left.mpr ha).pow_left w
  have hcancel := Nat.ModEq.cancel_right_of_coprime hcoprime hmod
  apply BitVec.eq_of_toNat_eq
  rwa [Nat.ModEq, Nat.mod_eq_of_lt x.isLt, Nat.mod_eq_of_lt y.isLt] at hcancel

/-! ## Xor of shifts -/

/-- A number mixed with itself shifted both ways. -/
def xorShift (a b : ℕ) (h : BitVec w) : BitVec w := h ^^^ (h <<< a) ^^^ (h >>> b)

theorem xorShift_xor (a b : ℕ) (x y : BitVec w) :
    xorShift a b (x ^^^ y) = xorShift a b x ^^^ xorShift a b y := by
  rw [xorShift, xorShift, xorShift, BitVec.shiftLeft_xor_distrib, BitVec.ushiftRight_xor_distrib]
  ac_rfl

/-- The bits from `b` on, from the bits below, where the mix is to be zero. -/
def refill (a b : ℕ) (seed h : BitVec w) : BitVec w := seed ^^^ (h ^^^ h <<< a) <<< b

/-- A number that is mixed to zero is refilled from its `b` lowest bits. -/
theorem refill_of_xorShift_eq_zero {a b : ℕ} {h : BitVec w} (hz : xorShift a b h = 0#w) :
    refill a b ((h.setWidth b).setWidth w) h = h := by
  apply BitVec.eq_of_getLsbD_eq
  intro n hn
  rw [refill, BitVec.getLsbD_xor, BitVec.getLsbD_setWidth, BitVec.getLsbD_setWidth,
    BitVec.getLsbD_shiftLeft]
  rcases Nat.lt_or_ge n b with hlow | hhigh
  · simp [hn, hlow]
  · -- the bit `n - b` of the mix is zero, so its last term is the xor of the others
    have hbit : (h ^^^ h <<< a).getLsbD (n - b) = h.getLsbD n := by
      have hcancel : h ^^^ h <<< a = h >>> b := BitVec.xor_eq_zero_iff.mp hz
      rw [hcancel, BitVec.getLsbD_ushiftRight, Nat.add_sub_cancel' hhigh]
    rw [hbit, decide_eq_false (Nat.not_lt.mpr hhigh), decide_eq_true hn]
    simp

/-- Every round of refilling from a number's lowest bits gets one bit more of it right. -/
theorem getLsbD_iterate_refill {a b : ℕ} (hb : 0 < b) {seed h : BitVec w}
    (hfix : refill a b seed h = h) (z : BitVec w) :
    ∀ k n, n < k → ((refill a b seed)^[k] z).getLsbD n = h.getLsbD n := by
  intro k
  induction k with
  | zero => exact fun n hn => absurd hn (Nat.not_lt_zero n)
  | succ k ih =>
    intro n hn
    rw [Function.iterate_succ_apply', ← hfix]
    -- a bit is refilled from bits at least `b` below it
    simp only [refill, BitVec.getLsbD_xor, BitVec.getLsbD_shiftLeft]
    rcases Nat.lt_or_ge n b with hlow | hhigh
    · simp [hlow]
    · rw [ih (n - b) (by omega), ih (n - b - a) (by omega)]

/-- **Mixing merges nothing**, if nothing but zero is refilled to a number mixed to zero. -/
theorem xorShift_injective {a b : ℕ} (hb : 0 < b)
    (hcheck : ∀ low : BitVec b, xorShift a b ((refill a b (low.setWidth w))^[w] 0#w) = 0#w →
      (refill a b (low.setWidth w))^[w] 0#w = 0#w) :
    Function.Injective (xorShift a b : BitVec w → BitVec w) := by
  intro x y hxy
  have hz : xorShift a b (x ^^^ y) = 0#w := by rw [xorShift_xor, hxy, BitVec.xor_self]
  have hrefill : (refill a b (((x ^^^ y).setWidth b).setWidth w))^[w] 0#w = x ^^^ y := by
    apply BitVec.eq_of_getLsbD_eq
    exact fun n hn => getLsbD_iterate_refill hb (refill_of_xorShift_eq_zero hz) _ w n hn
  have hzero := hcheck ((x ^^^ y).setWidth b)
  rw [hrefill] at hzero
  exact BitVec.xor_eq_zero_iff.mp (hzero hz)

end Mixing
