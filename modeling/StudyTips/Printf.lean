import StudyTips.CString

/-!
# What `printf` makes of its directives

A number is printed in decimal, a string in a field of some width and up to some precision,
and `snprintf` keeps of all that what fits. Where the format is itself made at run time,
`format` is what is taken for a directive in it.

* `decimal_decimalText`: a number that was printed is read back.
* `format_string`: a width and a precision that were printed into a format are read back as
  such.
-/

namespace Printf

open CString

/-! ## Directives -/

/-- The bytes of a literal. -/
def text (s : String) : Str := s.toUTF8.data.toList

/-- A number in decimal. -/
def decimalText (n : ℕ) : Str := (Nat.toDigits 10 n).map fun c => UInt8.ofNat c.toNat

/-- A number in decimal, with a sign before what is below zero. -/
def signedText (n : ℤ) : Str :=
  if n < 0 then 0x2d :: decimalText n.natAbs else decimalText n.natAbs

/-- A field to be filled with blanks from the left. -/
def width (n : ℕ) (s : Str) : Str := s.leftpad n 0x20

/-- What `snprintf` leaves in so many bytes. -/
def snprintf (size : ℕ) (s : Str) : Str := s.take (size - 1)

/-! ## A format made at run time -/

/-- A number in a format, if there is one, and what is behind it. -/
def number (fmt : Str) : Option ℕ × Str :=
  let ds := fmt.takeWhile isdigit
  (if ds = [] then none else some (decimal ds), fmt.dropWhile isdigit)

/-- A precision, if there is one, and what is behind it; a dot alone is the precision zero. -/
def precision : Str → Option ℕ × Str
  | 0x2e :: fmt => (some ((number fmt).1.getD 0), (number fmt).2)
  | fmt => (none, fmt)

/-- A format of a single directive for a string, applied to it; none for any other. What
begins with a zero has a flag and no width. -/
def format (fmt s : Str) : Option Str :=
  match fmt with
  | 0x25 :: fmt =>
    if fmt.head? = some 0x30 then none
    else
      let (w, fmt) := number fmt
      let (p, fmt) := precision fmt
      if fmt = [0x73] then some (width (w.getD 0) ((p.map fun p => s.take p).getD s)) else none
  | _ => none

/-! ## Numbers are read back -/

/-- The digits that numbers are written with. -/
theorem digit_digitChar {d : ℕ} (hd : d < 10) :
    isdigit (UInt8.ofNat (Nat.digitChar d).toNat) = true ∧
      (UInt8.ofNat (Nat.digitChar d).toNat).toNat - 0x30 = d := by
  have hall : ∀ d < 10, isdigit (UInt8.ofNat (Nat.digitChar d).toNat) = true ∧
      (UInt8.ofNat (Nat.digitChar d).toNat).toNat - 0x30 = d := by decide
  exact hall d hd

/-- A number of several digits is a shorter one with a digit behind it. -/
theorem decimalText_of_le {n : ℕ} (hn : 10 ≤ n) :
    decimalText n = decimalText (n / 10) ++ [UInt8.ofNat (Nat.digitChar (n % 10)).toNat] := by
  rw [decimalText, Nat.toDigits_of_base_le (by decide) hn, List.map_append]
  rfl

/-- **A number is printed in digits, and these are read back.** -/
theorem decimal_decimalText (n : ℕ) :
    (∀ c ∈ decimalText n, isdigit c = true) ∧ decimal (decimalText n) = n := by
  induction n using Nat.strongRecOn with
  | ind n ih =>
    by_cases hn : n < 10
    · obtain ⟨hdigit, hvalue⟩ := digit_digitChar hn
      rw [decimalText, Nat.toDigits_of_lt_base hn, List.map_singleton]
      refine ⟨fun c hc => ?_, ?_⟩
      · rw [List.mem_singleton.mp hc]
        exact hdigit
      · rw [decimal, List.foldl_cons, List.foldl_nil, hvalue, Nat.mul_zero, Nat.zero_add]
    · obtain ⟨hdigit, hvalue⟩ := digit_digitChar (Nat.mod_lt n (by decide : 0 < 10))
      obtain ⟨hall, hrec⟩ := ih (n / 10) (by omega)
      rw [decimalText_of_le (by omega)]
      refine ⟨fun c hc => ?_, ?_⟩
      · rcases List.mem_append.mp hc with hc | hc
        · exact hall c hc
        · rw [List.mem_singleton.mp hc]
          exact hdigit
      · rw [decimal, List.foldl_append, ← decimal, hrec, List.foldl_cons, List.foldl_nil, hvalue]
        exact Nat.div_add_mod n 10

/-- The decimal text of a positive number does not begin with a zero. -/
theorem head?_decimalText {n : ℕ} (hn : 0 < n) :
    ∃ c, (decimalText n).head? = some c ∧ c ≠ 0x30 := by
  induction n using Nat.strongRecOn with
  | ind n ih =>
    by_cases hlt : n < 10
    · have hall : ∀ n < 10, 0 < n → UInt8.ofNat (Nat.digitChar n).toNat ≠ 0x30 := by decide
      rw [decimalText, Nat.toDigits_of_lt_base hlt]
      exact ⟨_, rfl, hall n hlt hn⟩
    · obtain ⟨c, hc, hne⟩ := ih (n / 10) (by omega) (by omega)
      rw [decimalText_of_le (by omega), List.head?_append, hc]
      exact ⟨c, rfl, hne⟩

/-- A number in a format is read up to what is no digit. -/
theorem number_decimalText (n : ℕ) {rest : Str} (hrest : ∀ c ∈ rest.head?, isdigit c = false) :
    number (decimalText n ++ rest) = (some n, rest) := by
  obtain ⟨hall, hvalue⟩ := decimal_decimalText n
  have hne : decimalText n ≠ [] := by
    rw [decimalText, Ne, List.map_eq_nil_iff]
    exact Nat.toDigits_ne_nil
  have htake : rest.takeWhile isdigit = [] ∧ rest.dropWhile isdigit = rest := by
    cases rest with
    | nil => exact ⟨rfl, rfl⟩
    | cons c rest =>
      have hc := hrest c rfl
      exact ⟨List.takeWhile_cons_of_neg (by simp [hc]), List.dropWhile_cons_of_neg (by simp [hc])⟩
  rw [number, List.takeWhile_append_of_pos hall, List.dropWhile_append_of_pos hall, htake.1,
    htake.2, List.append_nil, if_neg hne, hvalue]

/-- **A width and a precision printed into a format are read back from it.** -/
theorem format_string {w : ℕ} (hw : 0 < w) (p : ℕ) (s : Str) :
    format (0x25 :: (decimalText w ++ 0x2e :: (decimalText p ++ [0x73]))) s =
      some (width w (s.take p)) := by
  obtain ⟨c, hc, hne⟩ := head?_decimalText hw
  have hhead : ¬ (decimalText w ++ 0x2e :: (decimalText p ++ [0x73])).head? = some 0x30 := by
    rw [List.head?_append, hc]
    exact fun h => hne (Option.some.inj h)
  have hwidth : number (decimalText w ++ 0x2e :: (decimalText p ++ [0x73])) =
      (some w, 0x2e :: (decimalText p ++ [0x73])) := by
    refine number_decimalText w fun c hc => ?_
    obtain rfl := Option.some.inj hc
    decide
  have hprecision : precision (0x2e :: (decimalText p ++ [0x73])) = (some p, [0x73]) := by
    have hnumber : number (decimalText p ++ [0x73]) = (some p, [0x73]) := by
      refine number_decimalText p fun c hc => ?_
      obtain rfl := Option.some.inj hc
      decide
    rw [precision, hnumber]
    rfl
  rw [format, if_neg hhead, hwidth]
  dsimp only
  rw [hprecision]
  rfl

end Printf
