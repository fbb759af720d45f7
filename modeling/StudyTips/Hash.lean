import Mathlib.Data.Nat.Bitwise
import Mathlib.Data.UInt
import StudyTips.Mixing
import StudyTips.Traced

/-!
# `java/hash.java`: string hashes

The file holds C functions. Each walks a string, mixing one character a turn into
an accumulator of 32 bits, and returns it modulo `M`. A character is a `char`, signed or
not, and is promoted before it meets the accumulator. The runs log the accumulator
whenever the test of the loop is reached, that is behind every prefix of the string.

* `PJWHash_ELFHash_lockstep`: the two functions go through the same accumulators, all
  below `2 ^ 28`.
* `accumulators_differ`: two strings that differ once leave different accumulators, in
  every function but `JSHash`, which is not modelled. For `PJWHash` and
  `ELFHash`, whose step is not injective, the accumulators are close to each other
  behind the difference, and agree in the low nibble from the next character on.
-/

namespace StudyTips

open Mixing

/-! ## The functions -/

/-- `M`: the size of the table. -/
def M : UInt32 := 249997

/-- A `char` as an `unsigned int`: promoted to `int` and converted. -/
def charToUnsigned (charSigned : Bool) (c : UInt8) : UInt32 :=
  if charSigned then c.toInt8.toInt32.toUInt32 else c.toUInt32

/-- `while(*str)` with a body that reads `*str++` once. The list is the memory from `str`
on, up to the NUL or beyond; the state is logged at every test. -/
def whileStr {S : Type} (body : S → UInt8 → S) : S → List UInt8 → Traced S S
  | s, [] => do
    Traced.emit s
    pure s
  | s, c :: str => do
    Traced.emit s
    if c = 0 then pure s else whileStr body (body s c) str

section Functions

variable (charSigned : Bool)

/-- The locals of `RSHash` that change. -/
structure RSHash.Locals : Type where
  /-- `a` -/
  a : UInt32
  /-- `hash` -/
  hash : UInt32

/-- The body of the loop of `RSHash`, where `b=378551`. -/
def RSHash.body (s : RSHash.Locals) (c : UInt8) : RSHash.Locals where
  hash := s.hash * s.a + charToUnsigned charSigned c
  a := s.a * 378551

/-- The loop of `RSHash`. -/
def RSHash.loop (str : List UInt8) : Traced RSHash.Locals RSHash.Locals :=
  whileStr (RSHash.body charSigned) ⟨63689, 0⟩ str

/-- `RSHash(str)`. -/
def RSHash (str : List UInt8) : UInt32 := (RSHash.loop charSigned str).val.hash % M

/-- `BitsInUnignedInt` -/
def PJWHash.BitsInUnignedInt : UInt32 := 4 * 8

/-- `ThreeQuarters` -/
def PJWHash.ThreeQuarters : UInt32 := PJWHash.BitsInUnignedInt * 3 / 4

/-- `OneEighth` -/
def PJWHash.OneEighth : UInt32 := PJWHash.BitsInUnignedInt / 8

/-- `HighBits` -/
def PJWHash.HighBits : UInt32 := 0xFFFFFFFF <<< (PJWHash.BitsInUnignedInt - PJWHash.OneEighth)

/-- The body of the loop of `PJWHash`. -/
def PJWHash.body (hash : UInt32) (c : UInt8) : UInt32 :=
  let hash := (hash <<< PJWHash.OneEighth) + charToUnsigned charSigned c
  let test := hash &&& PJWHash.HighBits
  if test ≠ 0 then (hash ^^^ (test >>> PJWHash.ThreeQuarters)) &&& ~~~PJWHash.HighBits else hash

/-- The loop of `PJWHash`. -/
def PJWHash.loop (str : List UInt8) : Traced UInt32 UInt32 :=
  whileStr (PJWHash.body charSigned) 0 str

/-- `PJWHash(str)`. -/
def PJWHash (str : List UInt8) : UInt32 := (PJWHash.loop charSigned str).val % M

/-- The body of the loop of `ELFHash`. The mask `0xF0000000L` is a `long`, but what it leaves
of 32 bits fits 32 bits. -/
def ELFHash.body (hash : UInt32) (c : UInt8) : UInt32 :=
  let hash := (hash <<< 4) + charToUnsigned charSigned c
  let x := hash &&& 0xF0000000
  if x ≠ 0 then
    let hash := hash ^^^ (x >>> 24)
    hash &&& ~~~x
  else hash

/-- The loop of `ELFHash`. -/
def ELFHash.loop (str : List UInt8) : Traced UInt32 UInt32 :=
  whileStr (ELFHash.body charSigned) 0 str

/-- `ELFHash(str)`. -/
def ELFHash (str : List UInt8) : UInt32 := (ELFHash.loop charSigned str).val % M

/-- The body of the loop of `BKDRHash`, where `seed=131`. -/
def BKDRHash.body (hash : UInt32) (c : UInt8) : UInt32 :=
  hash * 131 + charToUnsigned charSigned c

/-- The loop of `BKDRHash`. -/
def BKDRHash.loop (str : List UInt8) : Traced UInt32 UInt32 :=
  whileStr (BKDRHash.body charSigned) 0 str

/-- `BKDRHash(str)`. -/
def BKDRHash (str : List UInt8) : UInt32 := (BKDRHash.loop charSigned str).val % M

/-- The body of the loop of `DJBHash`. -/
def DJBHash.body (hash : UInt32) (c : UInt8) : UInt32 :=
  hash + ((hash <<< 5) + charToUnsigned charSigned c)

/-- The loop of `DJBHash`. -/
def DJBHash.loop (str : List UInt8) : Traced UInt32 UInt32 :=
  whileStr (DJBHash.body charSigned) 5381 str

/-- `DJBHash(str)`. -/
def DJBHash (str : List UInt8) : UInt32 := (DJBHash.loop charSigned str).val % M

/-- The body of the loop of `SDBMHash`. -/
def SDBMHash.body (hash : UInt32) (c : UInt8) : UInt32 :=
  charToUnsigned charSigned c + (hash <<< 6) + (hash <<< 16) - hash

/-- The loop of `SDBMHash`. -/
def SDBMHash.loop (str : List UInt8) : Traced UInt32 UInt32 :=
  whileStr (SDBMHash.body charSigned) 0 str

/-- `SDBMHash(str)`. -/
def SDBMHash (str : List UInt8) : UInt32 := (SDBMHash.loop charSigned str).val % M

/-- The locals of `APHash`. -/
structure APHash.Locals : Type where
  /-- `i`; it wraps where the `int` of the source overflows, which keeps its parity -/
  i : Int32
  /-- `hash` -/
  hash : UInt32

/-- The body of the loop of `APHash`, and the `i++` behind it. -/
def APHash.body (s : APHash.Locals) (c : UInt8) : APHash.Locals where
  hash :=
    if s.i &&& 1 = 0 then
      s.hash ^^^ ((s.hash <<< 7) ^^^ charToUnsigned charSigned c ^^^ (s.hash >>> 3))
    else
      s.hash ^^^ ~~~((s.hash <<< 11) ^^^ charToUnsigned charSigned c ^^^ (s.hash >>> 5))
  i := s.i + 1

/-- The loop of `APHash`. -/
def APHash.loop (str : List UInt8) : Traced APHash.Locals APHash.Locals :=
  whileStr (APHash.body charSigned) ⟨0, 0⟩ str

/-- `APHash(str)`. -/
def APHash (str : List UInt8) : UInt32 := (APHash.loop charSigned str).val.hash % M

end Functions

/-! ## Runs over a string -/

section Run

variable {S : Type} {body : S → UInt8 → S}

/-- A turn that finds a character that is not the NUL. -/
theorem whileStr_cons {c : UInt8} (hc : c ≠ 0) (s : S) (str : List UInt8) :
    whileStr body s (c :: str) =
      ⟨(whileStr body (body s c) str).val, s :: (whileStr body (body s c) str).log⟩ := by
  apply Traced.ext
  · simp [whileStr, hc]
  · simp [whileStr, hc]

/-- On a string without a NUL the loop folds its body. -/
theorem whileStr_val {str : List UInt8} (h : 0 ∉ str) :
    ∀ s, (whileStr body s str).val = str.foldl body s := by
  induction str with
  | nil => exact fun _ => rfl
  | cons c str ih =>
    intro s
    obtain ⟨hc, hstr⟩ := not_or.mp (List.mem_cons.not.mp h)
    rw [whileStr_cons (Ne.symm hc), ih hstr, List.foldl_cons]

/-- Behind the prefix of `n` characters it has folded its body over them. -/
theorem whileStr_log {str : List UInt8} (h : 0 ∉ str) :
    ∀ s n, n ≤ str.length → (whileStr body s str).log[n]? = some ((str.take n).foldl body s) := by
  induction str with
  | nil =>
    intro s n hn
    obtain rfl : n = 0 := Nat.le_zero.mp hn
    rfl
  | cons c str ih =>
    intro s n hn
    obtain ⟨hc, hstr⟩ := not_or.mp (List.mem_cons.not.mp h)
    rw [whileStr_cons (Ne.symm hc)]
    cases n with
    | zero => rfl
    | succ n =>
      rw [List.getElem?_cons_succ, ih hstr _ n (Nat.le_of_succ_le_succ hn), List.take_succ_cons,
        List.foldl_cons]

end Run

/-! ## The character -/

theorem toNat_charToUnsigned_false (c : UInt8) : (charToUnsigned false c).toNat = c.toNat :=
  UInt8.toNat_toUInt32 c

/-- A `signed char` with its top bit set is small and negative. -/
theorem toNat_charToUnsigned_true (c : UInt8) :
    (c.toNat < 128 ∧ (charToUnsigned true c).toNat = c.toNat) ∨
      (128 ≤ c.toNat ∧ (charToUnsigned true c).toNat = c.toNat + (2 ^ 32 - 2 ^ 8)) := by
  have hc := c.toNat_lt
  have hzero : (c.toBitVec.setWidth 32).toNat = c.toNat := by
    rw [BitVec.toNat_setWidth, UInt8.toNat_toBitVec]
    omega
  have hmsb : c.toBitVec.msb = decide (128 ≤ c.toNat) := BitVec.msb_eq_decide c.toBitVec
  have hext : (charToUnsigned true c).toNat = (c.toBitVec.signExtend 32).toNat := rfl
  rw [hext, BitVec.toNat_signExtend, hzero, hmsb]
  by_cases h : 128 ≤ c.toNat
  · exact .inr ⟨h, by rw [if_pos (decide_eq_true h)]⟩
  · exact .inl ⟨Nat.not_le.mp h, by rw [if_neg (fun hd => h (of_decide_eq_true hd)), Nat.add_zero]⟩

theorem charToUnsigned_mod (charSigned : Bool) (c : UInt8) :
    (charToUnsigned charSigned c).toNat % 256 = c.toNat := by
  have hc := c.toNat_lt
  cases charSigned with
  | false => rw [toNat_charToUnsigned_false, Nat.mod_eq_of_lt hc]
  | true =>
    have := toNat_charToUnsigned_true c
    omega

/-- Promoted characters stay different. -/
theorem charToUnsigned_ne (charSigned : Bool) {c c' : UInt8} (h : c ≠ c') :
    charToUnsigned charSigned c ≠ charToUnsigned charSigned c' := by
  intro heq
  apply h
  rw [← UInt8.toNat_inj, ← charToUnsigned_mod charSigned c, heq, charToUnsigned_mod]

/-! ## Folding the top nibble -/

/-- What `PJWHash` and `ELFHash` make of 32 bits: the top nibble is taken off, and
folded into the last but one. -/
def foldNibble (t : ℕ) : ℕ := t % 2 ^ 28 ^^^ 16 * (t / 2 ^ 28)

theorem foldNibble_lt {t : ℕ} (ht : t < 2 ^ 32) : foldNibble t < 2 ^ 28 :=
  Nat.xor_lt_two_pow (Nat.mod_lt _ (Nat.two_pow_pos 28)) (by omega)

/-- Folding keeps the low nibble. -/
theorem foldNibble_mod (t : ℕ) : foldNibble t % 16 = t % 16 := by
  rw [foldNibble, show 16 = 2 ^ 4 from rfl, Nat.xor_mod_two_pow, Nat.mul_mod_right, Nat.xor_zero]
  omega

/-- Folding takes the top nibble into the second lowest one. -/
theorem foldNibble_div {t : ℕ} (ht : t < 2 ^ 32) :
    foldNibble t / 16 % 16 = t / 16 % 16 ^^^ t / 2 ^ 28 := by
  rw [foldNibble, show 16 = 2 ^ 4 from rfl, Nat.xor_div_two_pow, Nat.xor_mod_two_pow,
    Nat.mul_div_cancel_left _ (by decide)]
  congr 1
  · omega
  · omega

/-- Folding keeps the nibbles between. -/
theorem foldNibble_div_div {t : ℕ} (ht : t < 2 ^ 32) :
    foldNibble t / 256 = t % 2 ^ 28 / 256 := by
  rw [foldNibble, show 256 = 2 ^ 8 from rfl, Nat.xor_div_two_pow,
    Nat.div_eq_of_lt (show 16 * (t / 2 ^ 28) < 2 ^ 8 by omega), Nat.xor_zero]

/-- Different numbers that fold alike differ in their top nibbles and in those these are
folded into, and nowhere else. -/
theorem foldNibble_eq {t t' : ℕ} (ht : t < 2 ^ 32) (ht' : t' < 2 ^ 32)
    (h : foldNibble t = foldNibble t') (hne : t ≠ t') :
    t % 16 = t' % 16 ∧ t % 2 ^ 28 / 256 = t' % 2 ^ 28 / 256 ∧
      t / 16 % 16 ≠ t' / 16 % 16 ∧ t / 2 ^ 28 ≠ t' / 2 ^ 28 := by
  have hlow : t % 16 = t' % 16 := by rw [← foldNibble_mod, h, foldNibble_mod]
  have hmid : t % 2 ^ 28 / 256 = t' % 2 ^ 28 / 256 := by
    rw [← foldNibble_div_div ht, h, foldNibble_div_div ht']
  have hxor : t / 16 % 16 ^^^ t / 2 ^ 28 = t' / 16 % 16 ^^^ t' / 2 ^ 28 := by
    rw [← foldNibble_div ht, h, foldNibble_div ht']
  refine ⟨hlow, hmid, fun heq => hne ?_, fun heq => hne ?_⟩
  · have htop : t / 2 ^ 28 = t' / 2 ^ 28 := by
      rw [heq] at hxor
      exact Nat.xor_right_injective hxor
    omega
  · have hnext : t / 16 % 16 = t' / 16 % 16 := by
      rw [heq] at hxor
      exact Nat.xor_left_injective hxor
    omega

/-- Less than `d` apart on the circle of `m` numbers. -/
def Near (m d x y : ℕ) : Prop := (x + (m - y)) % m < d ∨ (y + (m - x)) % m < d

/-- Characters are near each other, with a sign or without. -/
theorem charToUnsigned_near (charSigned : Bool) (c c' : UInt8) :
    Near (2 ^ 32) 256 (charToUnsigned charSigned c).toNat (charToUnsigned charSigned c').toNat := by
  have hc := c.toNat_lt
  have hc' := c'.toNat_lt
  rw [Near]
  cases charSigned with
  | false =>
    rw [toNat_charToUnsigned_false, toNat_charToUnsigned_false]
    omega
  | true =>
    have := toNat_charToUnsigned_true c
    have := toNat_charToUnsigned_true c'
    omega

/-- **Folding merges no two numbers that are near each other.** -/
theorem foldNibble_ne {t t' : ℕ} (ht : t < 2 ^ 32) (ht' : t' < 2 ^ 32) (hne : t ≠ t')
    (hnear : Near (2 ^ 32) (2 ^ 24) t t') : foldNibble t ≠ foldNibble t' := by
  intro h
  obtain ⟨hlow, hmid, -, htop⟩ := foldNibble_eq ht ht' h hne
  rw [Near] at hnear
  omega

/-- Folding keeps numbers near each other. -/
theorem foldNibble_near {t t' : ℕ} (ht : t < 2 ^ 32) (ht' : t' < 2 ^ 32)
    (hnear : Near (2 ^ 32) 256 t t') : Near (2 ^ 28) 1024 (foldNibble t) (foldNibble t') := by
  have hdiv := foldNibble_div_div ht
  have hdiv' := foldNibble_div_div ht'
  rw [Near] at hnear ⊢
  omega

/-- One turn on a character of `e`: the accumulator moves up a nibble. -/
def pjwStep (h e : ℕ) : ℕ := foldNibble ((16 * h + e) % 2 ^ 32)

/-- What is left of a difference: accumulators of 28 bits that are different, and either
near each other or alike in the low nibble. -/
def PjwApart (h h' : ℕ) : Prop :=
  h < 2 ^ 28 ∧ h' < 2 ^ 28 ∧ h ≠ h' ∧ (Near (2 ^ 28) 1024 h h' ∨ h % 16 = h' % 16)

theorem pjwStep_lt (h e : ℕ) : pjwStep h e < 2 ^ 28 :=
  foldNibble_lt (Nat.mod_lt _ (Nat.two_pow_pos 32))

/-- Different characters of 256 drive the accumulators apart. -/
theorem pjwStep_split {h e e' : ℕ} (he : e < 2 ^ 32) (he' : e' < 2 ^ 32) (hne : e ≠ e')
    (hnear : Near (2 ^ 32) 256 e e') : PjwApart (pjwStep h e) (pjwStep h e') := by
  have ht : (16 * h + e) % 2 ^ 32 < 2 ^ 32 := Nat.mod_lt _ (Nat.two_pow_pos 32)
  have ht' : (16 * h + e') % 2 ^ 32 < 2 ^ 32 := Nat.mod_lt _ (Nat.two_pow_pos 32)
  have htt : Near (2 ^ 32) 256 ((16 * h + e) % 2 ^ 32) ((16 * h + e') % 2 ^ 32) := by
    rw [Near] at hnear ⊢
    omega
  refine ⟨foldNibble_lt ht, foldNibble_lt ht', foldNibble_ne ht ht' (by omega) ?_,
    .inl (foldNibble_near ht ht' htt)⟩
  rw [Near] at htt ⊢
  omega

/-- **No character brings them together again**: near accumulators are too close for the
folded nibble, and a common low nibble leaves no room for a difference to cancel. -/
theorem pjwStep_keep {h h' e : ℕ} (hap : PjwApart h h') :
    PjwApart (pjwStep h e) (pjwStep h' e) := by
  obtain ⟨hh, hh', hne, hcase⟩ := hap
  have ht : (16 * h + e) % 2 ^ 32 < 2 ^ 32 := Nat.mod_lt _ (Nat.two_pow_pos 32)
  have ht' : (16 * h' + e) % 2 ^ 32 < 2 ^ 32 := Nat.mod_lt _ (Nat.two_pow_pos 32)
  have htt : (16 * h + e) % 2 ^ 32 ≠ (16 * h' + e) % 2 ^ 32 := by omega
  refine ⟨pjwStep_lt h e, pjwStep_lt h' e, ?_, .inr ?_⟩
  · rcases hcase with hnear | hlow
    · refine foldNibble_ne ht ht' htt ?_
      rw [Near] at hnear ⊢
      omega
    · intro heq
      obtain ⟨-, -, hnext, -⟩ := foldNibble_eq ht ht' heq htt
      omega
  · rw [pjwStep, pjwStep, foldNibble_mod, foldNibble_mod]
    omega

/-! ### The bodies of the loops -/

theorem OneEighth_eq : PJWHash.OneEighth = 4 := by decide

theorem ThreeQuarters_eq : PJWHash.ThreeQuarters = 24 := by decide

theorem HighBits_eq : PJWHash.HighBits = 0xF0000000 := by decide

theorem getLsbD_HighBits {i : ℕ} (hi : i < 32) :
    PJWHash.HighBits.toBitVec.getLsbD i = !decide (i < 28) := by
  have h : PJWHash.HighBits.toBitVec = BitVec.allOnes 32 <<< 28 := by decide
  rw [h, BitVec.getLsbD_shiftLeft, BitVec.getLsbD_allOnes, decide_eq_true hi,
    decide_eq_true (show i - 28 < 32 by omega), Bool.true_and, Bool.and_true]

/-- `ELFHash` clears only the bits it has found set, `PJWHash` all of the top nibble. -/
theorem clear_found_eq (t : UInt32) :
    (t ^^^ ((t &&& PJWHash.HighBits) >>> 24)) &&& ~~~(t &&& PJWHash.HighBits) =
      (t ^^^ ((t &&& PJWHash.HighBits) >>> 24)) &&& ~~~PJWHash.HighBits := by
  rw [← UInt32.toBitVec_inj]
  apply BitVec.eq_of_getLsbD_eq
  intro i hi
  simp only [UInt32.toBitVec_and, UInt32.toBitVec_not, BitVec.getLsbD_and, BitVec.getLsbD_not,
    getLsbD_HighBits hi]
  rcases Nat.lt_or_ge i 28 with hlow | hhigh
  · simp [hlow]
  · -- nothing has been shifted into the top nibble
    have hshift : ((t &&& PJWHash.HighBits) >>> 24).toBitVec.getLsbD i = false := by
      rw [UInt32.toBitVec_shiftRight, show (24 : UInt32).toBitVec % 32 = 24#32 from rfl,
        BitVec.ushiftRight_eq', BitVec.getLsbD_ushiftRight]
      exact BitVec.getLsbD_of_ge _ _ (by simp; omega)
    rw [UInt32.toBitVec_xor, BitVec.getLsbD_xor, hshift, decide_eq_false (Nat.not_lt.mpr hhigh)]
    simp [hi]

theorem toNat_and_HighBits (t : UInt32) :
    (t &&& PJWHash.HighBits).toNat = 2 ^ 28 * (t.toNat / 2 ^ 28) := by
  have hmask : t &&& PJWHash.HighBits = (t >>> 28) <<< 28 := by
    rw [← UInt32.toBitVec_inj]
    apply BitVec.eq_of_getLsbD_eq
    intro i hi
    have h28 : (28 : UInt32).toBitVec % 32 = 28#32 := rfl
    rw [UInt32.toBitVec_and, BitVec.getLsbD_and, getLsbD_HighBits hi, UInt32.toBitVec_shiftLeft,
      UInt32.toBitVec_shiftRight, h28, BitVec.shiftLeft_eq', BitVec.ushiftRight_eq',
      BitVec.getLsbD_shiftLeft, BitVec.getLsbD_ushiftRight, decide_eq_true hi]
    rcases Nat.lt_or_ge i 28 with hlow | hhigh
    · simp [hlow]
    · simp [Nat.add_sub_cancel' hhigh, Nat.not_lt.mpr hhigh]
  have ht := t.toNat_lt
  rw [hmask, UInt32.toNat_shiftLeft, UInt32.toNat_shiftRight, Nat.shiftLeft_eq,
    Nat.shiftRight_eq_div_pow, show (28 : UInt32).toNat % 32 = 28 from rfl]
  omega

/-- **The loops of `PJWHash` and `ELFHash` have the same body.** -/
theorem ELFHash_body_eq (charSigned : Bool) : ELFHash.body charSigned = PJWHash.body charSigned := by
  funext hash c
  simp only [ELFHash.body, PJWHash.body, OneEighth_eq, ThreeQuarters_eq, ← HighBits_eq,
    clear_found_eq]

theorem toNat_PJWHash_body (charSigned : Bool) (hash : UInt32) (c : UInt8) :
    (PJWHash.body charSigned hash c).toNat =
      pjwStep hash.toNat (charToUnsigned charSigned c).toNat := by
  set t := (hash <<< PJWHash.OneEighth) + charToUnsigned charSigned c with ht
  have hval : t.toNat = (16 * hash.toNat + (charToUnsigned charSigned c).toNat) % 2 ^ 32 := by
    rw [ht, OneEighth_eq, UInt32.toNat_add, UInt32.toNat_shiftLeft, Nat.shiftLeft_eq,
      show (4 : UInt32).toNat % 32 = 4 from rfl]
    omega
  have hshift : ((t &&& PJWHash.HighBits) >>> PJWHash.ThreeQuarters).toNat =
      16 * (t.toNat / 2 ^ 28) := by
    rw [ThreeQuarters_eq, UInt32.toNat_shiftRight, toNat_and_HighBits, Nat.shiftRight_eq_div_pow,
      show (24 : UInt32).toNat % 32 = 24 from rfl]
    omega
  have hmask : ∀ x : UInt32, (x &&& ~~~PJWHash.HighBits).toNat = x.toNat % 2 ^ 28 := fun x => by
    rw [UInt32.toNat_and, show (~~~PJWHash.HighBits).toNat = 2 ^ 28 - 1 by decide,
      Nat.and_two_pow_sub_one_eq_mod]
  have hq : 16 * (t.toNat / 2 ^ 28) < 2 ^ 28 := by
    have := t.toNat_lt
    omega
  rw [pjwStep, ← hval, foldNibble]
  simp only [PJWHash.body, ← ht]
  split
  next => rw [hmask, UInt32.toNat_xor, hshift, Nat.xor_mod_two_pow, Nat.mod_eq_of_lt hq]
  next hzero =>
    -- where there is nothing to fold, folding changes nothing
    have hand := toNat_and_HighBits t
    rw [not_not.mp hzero, UInt32.toNat_zero] at hand
    have htop : t.toNat / 2 ^ 28 = 0 := by omega
    rw [htop, Nat.mul_zero, Nat.xor_zero]
    omega

/-- **`PJWHash` and `ELFHash` go in lockstep**: behind every prefix of a string both hold the
same accumulator, of 28 bits, and they return the same. -/
theorem PJWHash_ELFHash_lockstep (charSigned : Bool) {str : List UInt8} (h : 0 ∉ str) :
    PJWHash charSigned str = ELFHash charSigned str ∧
      ∀ n ≤ str.length, ∃ hash : UInt32, hash.toNat < 2 ^ 28 ∧
        (PJWHash.loop charSigned str).log[n]? = some hash ∧
        (ELFHash.loop charSigned str).log[n]? = some hash := by
  have hloop : ELFHash.loop charSigned str = PJWHash.loop charSigned str := by
    rw [ELFHash.loop, ELFHash_body_eq, PJWHash.loop]
  refine ⟨by rw [PJWHash, ELFHash, hloop], fun n hn => ?_⟩
  have hlog : (PJWHash.loop charSigned str).log[n]? =
      some ((str.take n).foldl (PJWHash.body charSigned) 0) := whileStr_log h 0 n hn
  refine ⟨_, ?_, hlog, by rw [hloop]; exact hlog⟩
  exact List.foldlRecOn (motive := fun hash : UInt32 => hash.toNat < 2 ^ 28) _ _ (by decide)
    fun hash _ c _ => by rw [toNat_PJWHash_body]; exact pjwStep_lt _ _

/-- Eight letters and a byte that is negative as a `signed char`: the top nibble is folded. -/
theorem PJWHash_ELFHash_lockstep_nine :
    PJWHash true (List.replicate 8 0x61 ++ [0xE9]) = ELFHash true (List.replicate 8 0x61 ++ [0xE9]) ∧
      ∃ hash : UInt32, hash.toNat < 2 ^ 28 ∧
        (PJWHash.loop true (List.replicate 8 0x61 ++ [0xE9])).log[9]? = some hash ∧
        (ELFHash.loop true (List.replicate 8 0x61 ++ [0xE9])).log[9]? = some hash := by
  obtain ⟨hvalue, hprefix⟩ := PJWHash_ELFHash_lockstep true
    (show 0 ∉ List.replicate 8 0x61 ++ [0xE9] by decide)
  exact ⟨hvalue, hprefix 9 (by decide)⟩

/-! ## One difference -/

section Differ

variable {charSigned : Bool}

/-- The loops of `PJWHash` and `ELFHash` keep apart what a difference has driven apart. -/
theorem PJWHash_foldl_ne {str str' : List UInt8} (h : DifferOnce str str') :
    str.foldl (PJWHash.body charSigned) 0 ≠ str'.foldl (PJWHash.body charSigned) 0 := by
  have hapart : PjwApart (str.foldl (PJWHash.body charSigned) 0).toNat
      (str'.foldl (PJWHash.body charSigned) 0).toNat := by
    refine foldl_apart (fun _ => True) (fun hash hash' : UInt32 => PjwApart hash.toNat hash'.toNat)
      (fun _ _ _ => trivial) ?_ ?_ trivial h
    · intro hash c c' _ hne
      have he : (charToUnsigned charSigned c).toNat ≠ (charToUnsigned charSigned c').toNat :=
        fun heq => charToUnsigned_ne charSigned hne (UInt32.toNat_inj.mp heq)
      rw [toNat_PJWHash_body, toNat_PJWHash_body]
      exact pjwStep_split (UInt32.toNat_lt _) (UInt32.toNat_lt _) he (charToUnsigned_near _ c c')
    · intro hash hash' c hap
      rw [toNat_PJWHash_body, toNat_PJWHash_body]
      exact pjwStep_keep hap
  obtain ⟨-, -, hne, -⟩ := hapart
  exact fun heq => hne (congrArg UInt32.toNat heq)

theorem mul_add_ne {a x y : UInt32} (ha : Odd a.toNat) (h : x ≠ y) (e : UInt32) :
    x * a + e ≠ y * a + e := by
  intro heq
  apply h
  have hmul : x.toBitVec * a.toBitVec = y.toBitVec * a.toBitVec := by
    have := UInt32.toBitVec_inj.mpr heq
    rw [UInt32.toBitVec_add, UInt32.toBitVec_add, BitVec.add_left_inj] at this
    exact this
  exact UInt32.toBitVec_inj.mp (mul_left_injective ha hmul)

/-- Loops that multiply by an odd number and add the character. -/
theorem mul_foldl_ne {body : UInt32 → UInt8 → UInt32} {a : UInt32} (ha : Odd a.toNat)
    (hbody : ∀ hash c, body hash c = hash * a + charToUnsigned charSigned c) (hash : UInt32)
    {str str' : List UInt8} (h : DifferOnce str str') :
    str.foldl body hash ≠ str'.foldl body hash := by
  refine foldl_apart (fun _ => True) (fun hash hash' => hash ≠ hash') (fun _ _ _ => trivial) ?_ ?_ trivial h
  · intro hash c c' _ hne
    rw [hbody, hbody]
    exact fun heq => charToUnsigned_ne charSigned hne (UInt32.add_right_inj _ |>.mp heq)
  · intro hash hash' c hne
    rw [hbody, hbody]
    exact mul_add_ne ha hne _

theorem DJBHash_body_eq (hash : UInt32) (c : UInt8) :
    DJBHash.body charSigned hash c = hash * 33 + charToUnsigned charSigned c := by
  rw [DJBHash.body, ← UInt32.toNat_inj]
  simp only [UInt32.toNat_add, UInt32.toNat_mul, UInt32.toNat_shiftLeft, Nat.shiftLeft_eq,
    show (5 : UInt32).toNat % 32 = 5 from rfl, show (33 : UInt32).toNat = 33 from rfl]
  omega

theorem SDBMHash_body_eq (hash : UInt32) (c : UInt8) :
    SDBMHash.body charSigned hash c = hash * 65599 + charToUnsigned charSigned c := by
  have hhash := hash.toNat_lt
  rw [SDBMHash.body, ← UInt32.toNat_inj]
  simp only [UInt32.toNat_add, UInt32.toNat_sub, UInt32.toNat_mul, UInt32.toNat_shiftLeft,
    Nat.shiftLeft_eq, show (6 : UInt32).toNat % 32 = 6 from rfl,
    show (16 : UInt32).toNat % 32 = 16 from rfl, show (65599 : UInt32).toNat = 65599 from rfl]
  omega

/-- Runs of `RSHash` that have been driven apart: the multipliers are the same, and odd. -/
def RsApart (s t : RSHash.Locals) : Prop := s.a = t.a ∧ Odd s.a.toNat ∧ s.hash ≠ t.hash

theorem RSHash_foldl_ne {str str' : List UInt8} (h : DifferOnce str str') :
    (str.foldl (RSHash.body charSigned) ⟨63689, 0⟩).hash ≠
      (str'.foldl (RSHash.body charSigned) ⟨63689, 0⟩).hash := by
  have hodd : ∀ (s : RSHash.Locals) c, Odd s.a.toNat → Odd (RSHash.body charSigned s c).a.toNat := by
    intro s c hs
    rw [RSHash.body, UInt32.toNat_mul, show (378551 : UInt32).toNat = 378551 from rfl]
    rw [Nat.odd_iff] at hs ⊢
    omega
  have hapart : RsApart (str.foldl (RSHash.body charSigned) ⟨63689, 0⟩)
      (str'.foldl (RSHash.body charSigned) ⟨63689, 0⟩) := by
    refine foldl_apart (fun s => Odd s.a.toNat) RsApart hodd ?_ ?_ (by decide) h
    · intro s c c' hs hne
      refine ⟨rfl, hodd s c hs, fun heq => charToUnsigned_ne charSigned hne ?_⟩
      exact (UInt32.add_right_inj _).mp heq
    · rintro s t c ⟨ha, hs, hne⟩
      refine ⟨congrArg (· * 378551) ha, hodd s c hs, ?_⟩
      simp only [RSHash.body]
      rw [← ha]
      exact mul_add_ne hs hne _
  exact hapart.2.2

theorem xorShift_seven_three : Function.Injective (xorShift 7 3 : BitVec 32 → BitVec 32) :=
  xorShift_injective (by decide) (by decide +kernel)

theorem xorShift_eleven_five : Function.Injective (xorShift 11 5 : BitVec 32 → BitVec 32) :=
  xorShift_injective (by decide) (by decide +kernel)

/-- The even turns of `APHash` mix with one pair of shifts, the odd ones with another and
complement the result. -/
theorem APHash_body_hash (s : APHash.Locals) (c : UInt8) :
    (APHash.body charSigned s c).hash.toBitVec =
      if s.i &&& 1 = 0 then
        xorShift 7 3 s.hash.toBitVec ^^^ (charToUnsigned charSigned c).toBitVec
      else ~~~(xorShift 11 5 s.hash.toBitVec ^^^ (charToUnsigned charSigned c).toBitVec) := by
  simp only [APHash.body]
  split
  next =>
    have h : (s.hash ^^^ ((s.hash <<< 7) ^^^ charToUnsigned charSigned c ^^^ (s.hash >>> 3))) =
        (s.hash ^^^ (s.hash <<< 7) ^^^ (s.hash >>> 3)) ^^^ charToUnsigned charSigned c := by
      ac_rfl
    rw [h]
    rfl
  next =>
    have h : (s.hash ^^^ ~~~((s.hash <<< 11) ^^^ charToUnsigned charSigned c ^^^ (s.hash >>> 5))) =
        ~~~((s.hash ^^^ (s.hash <<< 11) ^^^ (s.hash >>> 5)) ^^^ charToUnsigned charSigned c) := by
      rw [UInt32.xor_not]
      congr 1
      ac_rfl
    rw [h]
    rfl

/-- Runs of `APHash` that have been driven apart, in the same turn. -/
def ApApart (s t : APHash.Locals) : Prop := s.i = t.i ∧ s.hash ≠ t.hash

theorem APHash_foldl_ne {str str' : List UInt8} (h : DifferOnce str str') :
    (str.foldl (APHash.body charSigned) ⟨0, 0⟩).hash ≠
      (str'.foldl (APHash.body charSigned) ⟨0, 0⟩).hash := by
  have hapart : ApApart (str.foldl (APHash.body charSigned) ⟨0, 0⟩)
      (str'.foldl (APHash.body charSigned) ⟨0, 0⟩) := by
    refine foldl_apart (fun _ => True) ApApart (fun _ _ _ => trivial) ?_ ?_ trivial h
    · intro s c c' _ hne
      refine ⟨rfl, fun heq => charToUnsigned_ne charSigned hne (UInt32.toBitVec_inj.mp ?_)⟩
      rw [← UInt32.toBitVec_inj, APHash_body_hash, APHash_body_hash] at heq
      split at heq
      next => exact (BitVec.xor_right_inj _).mp heq
      next => exact (BitVec.xor_right_inj _).mp (BitVec.not_inj.mp heq)
    · rintro s t c ⟨hi, hne⟩
      refine ⟨congrArg (· + 1) hi, fun heq => hne (UInt32.toBitVec_inj.mp ?_)⟩
      rw [← UInt32.toBitVec_inj, APHash_body_hash, APHash_body_hash, hi] at heq
      split at heq
      next => exact xorShift_seven_three ((BitVec.xor_left_inj _).mp heq)
      next => exact xorShift_eleven_five ((BitVec.xor_left_inj _).mp (BitVec.not_inj.mp heq))
  exact hapart.2

end Differ

/-- **Strings that differ once leave different accumulators**, in all the functions. -/
theorem accumulators_differ (charSigned : Bool) {str str' : List UInt8} (hnul : 0 ∉ str)
    (hnul' : 0 ∉ str') (h : DifferOnce str str') :
    (RSHash.loop charSigned str).val.hash ≠ (RSHash.loop charSigned str').val.hash ∧
    (BKDRHash.loop charSigned str).val ≠ (BKDRHash.loop charSigned str').val ∧
    (DJBHash.loop charSigned str).val ≠ (DJBHash.loop charSigned str').val ∧
    (SDBMHash.loop charSigned str).val ≠ (SDBMHash.loop charSigned str').val ∧
    (APHash.loop charSigned str).val.hash ≠ (APHash.loop charSigned str').val.hash ∧
    (PJWHash.loop charSigned str).val ≠ (PJWHash.loop charSigned str').val ∧
    (ELFHash.loop charSigned str).val ≠ (ELFHash.loop charSigned str').val := by
  have hpjw : str.foldl (PJWHash.body charSigned) 0 ≠ str'.foldl (PJWHash.body charSigned) 0 :=
    PJWHash_foldl_ne h
  simp only [RSHash.loop, BKDRHash.loop, DJBHash.loop, SDBMHash.loop, APHash.loop, PJWHash.loop,
    ELFHash.loop, ELFHash_body_eq, whileStr_val hnul, whileStr_val hnul']
  refine ⟨RSHash_foldl_ne h, ?_, ?_, ?_, APHash_foldl_ne h, hpjw, hpjw⟩
  · exact mul_foldl_ne (a := 131) (by decide) (fun _ _ => rfl) 0 h
  · exact mul_foldl_ne (by decide) DJBHash_body_eq 5381 h
  · exact mul_foldl_ne (by decide) SDBMHash_body_eq 0 h

/-- Two strings of two characters that differ in the second, in its top bit only. -/
theorem accumulators_differ_two :
    (PJWHash.loop true [0x61, 0x62]).val ≠ (PJWHash.loop true [0x61, 0xE2]).val := by
  have hone : DifferOnce ([0x61, 0x62] : List UInt8) [0x61, 0xE2] := by
    refine ⟨rfl, 1, by decide, fun i hi => ?_⟩
    match i with
    | 0 => exact absurd rfl hi
    | 1 => rfl
    | i + 2 => exact absurd rfl hi
  exact (accumulators_differ true (by decide) (by decide) hone).2.2.2.2.2.1

end StudyTips
