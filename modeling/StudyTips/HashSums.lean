import StudyTips.Hash
import StudyTips.Horner

/-!
# `java/hash.java`: the hashes that are sums

Four of the hashes multiply and add, in 32 bits that wrap: `BKDRHash`, and `DJBHash` and
`SDBMHash` in other words, with one multiplier, `RSHash` with one that changes on the
way. Before the reduction modulo `M` they are Horner's rule in the ring of 32-bit numbers.

* `string_hashes_closed`: so they are sums over the characters; and the accumulators of two
  strings make that of their concatenation, where there is one multiplier.
-/

namespace StudyTips

open Horner

/-! ## Wrapping sums -/

section Ring

open scoped UInt32.CommRing

/-- What 32 bits hold of a natural number. -/
theorem toNat_castRingHom (n : ℕ) : (Nat.castRingHom UInt32 n).toNat = n % 2 ^ 32 :=
  UInt32.toNat_ofNat'

theorem castRingHom_toNat (x : UInt32) : Nat.castRingHom UInt32 x.toNat = x := by
  rw [← UInt32.toNat_inj, toNat_castRingHom, Nat.mod_eq_of_lt x.toNat_lt]

variable {charSigned : Bool}

/-- **A run in 32 bits is what 32 bits hold of the run over the natural numbers.** -/
theorem toNat_horner (mult : ℕ → UInt32) (mult' : ℕ → ℕ)
    (hmult : ∀ j, mult j = Nat.castRingHom UInt32 (mult' j)) (e : UInt8 → UInt32) (k h : ℕ)
    (str : List UInt8) :
    (horner mult e k (Nat.castRingHom UInt32 h) str).toNat =
      horner mult' (fun c => (e c).toNat) k h str % 2 ^ 32 := by
  have hmap := map_horner mult' (fun c => (e c).toNat) (Nat.castRingHom UInt32) str k h
  simp only [castRingHom_toNat, ← hmult] at hmap
  rw [← toNat_castRingHom, hmap]

/-- Loops that multiply by a number and add the character. -/
theorem foldl_eq_horner {body : UInt32 → UInt8 → UInt32} {a : UInt32} {e : UInt8 → UInt32}
    (hbody : ∀ hash c, body hash c = hash * a + e c) (str : List UInt8) :
    ∀ (k : ℕ) (hash : UInt32), str.foldl body hash = horner (fun _ => a) e k hash str := by
  induction str with
  | nil => exact fun _ _ => rfl
  | cons c str ih =>
    intro k hash
    rw [List.foldl_cons, hbody, ih (k + 1)]
    rfl

/-- The loop of `RSHash`, in the turn behind `k` others. -/
theorem RSHash_foldl_eq_horner (str : List UInt8) : ∀ (k : ℕ) (hash : UInt32),
    (str.foldl (RSHash.body charSigned) ⟨63689 * 378551 ^ k, hash⟩).hash =
      horner (fun j => 63689 * 378551 ^ j) (charToUnsigned charSigned) k hash str := by
  induction str with
  | nil => exact fun _ _ => rfl
  | cons c str ih =>
    intro k hash
    have ha : (63689 : UInt32) * 378551 ^ k * 378551 = 63689 * 378551 ^ (k + 1) := by
      rw [pow_succ, mul_assoc]
    rw [List.foldl_cons, RSHash.body, ha, ih (k + 1)]
    rfl

/-- With one multiplier, the accumulator of a concatenation. -/
theorem foldl_append_eq {body : UInt32 → UInt8 → UInt32} {a : UInt32} {e : UInt8 → UInt32}
    (hbody : ∀ hash c, body hash c = hash * a + e c) (hash : UInt32) (u v : List UInt8) :
    (u ++ v).foldl body hash =
      u.foldl body hash * a ^ v.length + (v.foldl body hash - hash * a ^ v.length) := by
  have happend := horner_const_append (f := e) a u v 0 hash hash
  simp only [← foldl_eq_horner hbody] at happend
  rw [eq_sub_of_add_eq happend, add_sub_assoc]

/-- With one multiplier, the number that 32 bits hold of the accumulator. -/
theorem toNat_foldl {body : UInt32 → UInt8 → UInt32} {a : UInt32} {e : UInt8 → UInt32}
    (hbody : ∀ hash c, body hash c = hash * a + e c) (hash : UInt32) (str : List UInt8) :
    (str.foldl body hash).toNat =
      (hash.toNat * a.toNat ^ str.length +
        ∑ i : Fin str.length, (e str[i]).toNat * a.toNat ^ (str.length - 1 - i)) % 2 ^ 32 := by
  have hrun := toNat_horner (fun _ => a) (fun _ => a.toNat)
    (fun _ => (castRingHom_toNat a).symm) e 0 hash.toNat str
  rw [castRingHom_toNat] at hrun
  rw [foldl_eq_horner hbody str 0, hrun, horner_const]

theorem RSHash_multiplier (j : ℕ) :
    (63689 : UInt32) * 378551 ^ j = Nat.castRingHom UInt32 (63689 * 378551 ^ j) := by
  rw [map_mul, map_pow]
  rfl

/-- The number that 32 bits hold of what `RSHash` accumulates. -/
theorem RSHash_foldl_closed (charSigned : Bool) (str : List UInt8) :
    (str.foldl (RSHash.body charSigned) ⟨63689, 0⟩).hash.toNat =
      (∑ i : Fin str.length, (charToUnsigned charSigned str[i]).toNat *
        ∏ j ∈ Finset.Ico (i.val + 1) str.length, 63689 * 378551 ^ j) % 2 ^ 32 := by
  have hnat := toNat_horner _ _ RSHash_multiplier (charToUnsigned charSigned) 0 0 str
  rw [map_zero] at hnat
  have hrun : (str.foldl (RSHash.body charSigned) ⟨63689 * 378551 ^ 0, 0⟩).hash = _ :=
    RSHash_foldl_eq_horner str 0 0
  rw [pow_zero, mul_one] at hrun
  rw [hrun, hnat, horner_eq_sum]
  simp only [Nat.zero_mul, Nat.zero_add]

end Ring

/-! ## The hashes -/

/-- The value of a `char` modulo `2 ^ 32`: one with its top bit set is negative if it has a sign. -/
def charValue (charSigned : Bool) (c : UInt8) : ℕ :=
  if charSigned = true ∧ 128 ≤ c.toNat then c.toNat + (2 ^ 32 - 2 ^ 8) else c.toNat

theorem toNat_charToUnsigned (charSigned : Bool) (c : UInt8) :
    (charToUnsigned charSigned c).toNat = charValue charSigned c := by
  rw [charValue]
  cases charSigned with
  | false => simp [toNat_charToUnsigned_false]
  | true =>
    rcases toNat_charToUnsigned_true c with ⟨hsmall, heq⟩ | ⟨hlarge, heq⟩
    · rw [heq, if_neg fun h => absurd h.2 (Nat.not_le.mpr hsmall)]
    · rw [heq, if_pos ⟨rfl, hlarge⟩]

section Sums

variable (charSigned : Bool) (str : List UInt8)

/-- The characters of a string, each times `a` for every one behind it. -/
def charSum (a : ℕ) : ℕ :=
  ∑ i : Fin str.length, charValue charSigned str[i] * a ^ (str.length - 1 - i)

/-- The characters of a string, each times the multipliers of `RSHash` for those behind it. -/
def charSumRS : ℕ :=
  ∑ i : Fin str.length, charValue charSigned str[i] *
    ∏ j ∈ Finset.Ico (i.val + 1) str.length, 63689 * 378551 ^ j

end Sums

/-- **Four hashes are sums over the characters**, in 32 bits and then modulo `M`; and where there
is one multiplier, two accumulators and a length make the accumulator of the concatenation. -/
theorem string_hashes_closed (charSigned : Bool) {str str' : List UInt8} (h : 0 ∉ str)
    (h' : 0 ∉ str') :
    (BKDRHash charSigned str).toNat = charSum charSigned str 131 % 2 ^ 32 % 249997 ∧
    (SDBMHash charSigned str).toNat = charSum charSigned str 65599 % 2 ^ 32 % 249997 ∧
    (DJBHash charSigned str).toNat =
      (5381 * 33 ^ str.length + charSum charSigned str 33) % 2 ^ 32 % 249997 ∧
    (RSHash charSigned str).toNat = charSumRS charSigned str % 2 ^ 32 % 249997 ∧
    (BKDRHash.loop charSigned (str ++ str')).val =
      (BKDRHash.loop charSigned str).val * 131 ^ str'.length +
        (BKDRHash.loop charSigned str').val ∧
    (SDBMHash.loop charSigned (str ++ str')).val =
      (SDBMHash.loop charSigned str).val * 65599 ^ str'.length +
        (SDBMHash.loop charSigned str').val ∧
    (DJBHash.loop charSigned (str ++ str')).val =
      (DJBHash.loop charSigned str).val * 33 ^ str'.length +
        ((DJBHash.loop charSigned str').val - 5381 * 33 ^ str'.length) := by
  have happ : 0 ∉ str ++ str' := fun hmem => (List.mem_append.mp hmem).elim h h'
  have hM : M.toNat = 249997 := rfl
  simp only [BKDRHash, SDBMHash, DJBHash, RSHash, BKDRHash.loop, SDBMHash.loop, DJBHash.loop,
    RSHash.loop, whileStr_val h, whileStr_val h', whileStr_val happ, UInt32.toNat_mod, hM,
    charSum, charSumRS, ← toNat_charToUnsigned]
  have hbkdr : ∀ hash c, BKDRHash.body charSigned hash c = hash * 131 + charToUnsigned charSigned c :=
    fun _ _ => rfl
  have hzero : ∀ (a x : UInt32) (n : ℕ), x - 0 * a ^ n = x := fun a x n => by
    rw [UInt32.zero_mul, UInt32.sub_zero]
  have hsum : ∀ (n s : ℕ), (0 : UInt32).toNat * n + s = s := fun n s => by
    rw [UInt32.toNat_zero, Nat.zero_mul, Nat.zero_add]
  refine ⟨?_, ?_, ?_, ?_, ?_, ?_, ?_⟩
  · rw [toNat_foldl hbkdr, hsum]
    rfl
  · rw [toNat_foldl SDBMHash_body_eq, hsum]
    rfl
  · rw [toNat_foldl DJBHash_body_eq]
    rfl
  · rw [RSHash_foldl_closed]
  · rw [foldl_append_eq hbkdr, hzero]
  · rw [foldl_append_eq SDBMHash_body_eq, hzero]
  · rw [foldl_append_eq DJBHash_body_eq]

/-- The sums and the concatenation at two short strings, one with a negative `char`. -/
theorem string_hashes_closed_two :
    (RSHash true [0x61, 0xE9]).toNat = charSumRS true [0x61, 0xE9] % 2 ^ 32 % 249997 ∧
      (DJBHash.loop true ([0x61, 0xE9] ++ [0x62])).val = (DJBHash.loop true [0x61, 0xE9]).val * 33 ^ 1 +
        ((DJBHash.loop true [0x62]).val - 5381 * 33 ^ 1) := by
  obtain ⟨-, -, -, hrs, -, -, hdjb⟩ := string_hashes_closed true
    (show 0 ∉ [0x61, 0xE9] by decide) (show 0 ∉ [0x62] by decide)
  exact ⟨hrs, hdjb⟩

end StudyTips
