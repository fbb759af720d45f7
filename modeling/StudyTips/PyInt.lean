import Mathlib.Data.Int.Notation
import Mathlib.Data.List.TakeWhile

/-!
# Python's `int` of a text

`int(s)` takes a text for a number if it is a literal in decimal: digits, with single
underscores between them, perhaps behind a sign and in between of spaces. What is a space
and what a digit is a matter of the characters (`Characters`), of which the ASCII ones are
fixed.

* `Characters.int` reads as the interpreter does, one character after the other.
* `Characters.Literal` is the grammar, and `int_eq_some_iff` says that these texts are read,
  with that value, and no others.
* `literal_toDigits`: a number in decimal is read back.
-/

namespace PyText

/-- What is known of characters, and of how long a number may be. -/
structure Characters : Type where
  /-- whether a character is a space -/
  isspace : Char → Bool
  /-- the value of a character that is a digit -/
  decimal : Char → Option ℕ
  /-- `sys.get_int_max_str_digits()`, zero for no limit -/
  max_str_digits : ℕ
  /-- a digit is no space -/
  isspace_decimal : ∀ {x d}, decimal x = some d → isspace x = false
  /-- no graphic character of ASCII is a space -/
  isspace_ascii : ∀ x, 0x20 < x.toNat → x.toNat < 0x7f → isspace x = false
  /-- the digits of ASCII have their values, and its other characters none -/
  decimal_ascii : ∀ x, x.toNat < 0x80 →
    decimal x = if x.isDigit then some (x.toNat - 0x30) else none

/-- The sign of a number, if there is one. -/
inductive Sign : Type where
  /-- no sign -/
  | none
  /-- `+` -/
  | plus
  /-- `-` -/
  | minus

namespace Sign

/-- The text of a sign. -/
def text : Sign → List Char
  | none => []
  | plus => ['+']
  | minus => ['-']

/-- The number with its sign. -/
def apply : Sign → ℕ → ℤ
  | none, n => n
  | plus, n => n
  | minus, n => -n

/-- The sign a text begins with, and what is behind it. -/
def split : List Char → Sign × List Char
  | '-' :: s => (minus, s)
  | '+' :: s => (plus, s)
  | s => (none, s)

end Sign

namespace Characters

variable (c : Characters)

/-! ## The reader -/

/-- The digits at the front, and what is behind them; `prev` says that there must be another
one first. An underscore is followed by one, and so is the place where they start. -/
def digits (prev : Bool) : List Char → Option (List ℕ × List Char)
  | [] => if prev then none else some ([], [])
  | x :: s =>
    match c.decimal x with
    | some d => (digits false s).map fun p => (d :: p.1, p.2)
    | none =>
      if x = '_' then if prev then none else digits true s
      else if prev then none else some ([], x :: s)

/-- The number of some digits. -/
def value (ds : List ℕ) : ℕ := ds.foldl (fun n d => 10 * n + d) 0

/-- A number of `n` digits is not too long. -/
def Allows (n : ℕ) : Prop := c.max_str_digits = 0 ∨ n ≤ c.max_str_digits

instance (n : ℕ) : Decidable (c.Allows n) := inferInstanceAs (Decidable (_ ∨ _))

/-- What is read behind the sign. -/
def magnitude (s : List Char) : Option ℕ :=
  match c.digits true s with
  | none => none
  | some (ds, rest) =>
    if ¬ c.Allows ds.length then none
    else if (rest.dropWhile c.isspace).isEmpty then some (value ds) else none

/-- `int(s)`; none for a `ValueError`. -/
def int (s : List Char) : Option ℤ :=
  let p := Sign.split (s.dropWhile c.isspace)
  (c.magnitude p.2).map p.1.apply

/-! ## The grammar -/

/-- Digits with single underscores between them. -/
inductive Digits : List Char → List ℕ → Prop where
  /-- one digit -/
  | one {x : Char} {d : ℕ} : c.decimal x = some d → Digits [x] [d]
  /-- a digit and more digits -/
  | digit {x : Char} {d : ℕ} {s : List Char} {ds : List ℕ} :
      c.decimal x = some d → Digits s ds → Digits (x :: s) (d :: ds)
  /-- a digit, an underscore and more digits -/
  | underscore {x : Char} {d : ℕ} {s : List Char} {ds : List ℕ} :
      c.decimal x = some d → Digits s ds → Digits (x :: '_' :: s) (d :: ds)

/-- A text has spaces only. -/
def Spaces (s : List Char) : Prop := ∀ x ∈ s, c.isspace x = true

/-- **A literal** with its value. -/
def Literal (s : List Char) (n : ℤ) : Prop :=
  ∃ (lead : List Char) (sign : Sign) (body trail : List Char) (ds : List ℕ),
    s = lead ++ (sign.text ++ (body ++ trail)) ∧ c.Spaces lead ∧ c.Digits body ds ∧
      c.Spaces trail ∧ c.Allows ds.length ∧ n = sign.apply (value ds)

variable {c}

/-! ## Digits -/

/-- What is neither a sign nor a digit in ASCII is no digit at all. -/
theorem decimal_mark {x : Char} (hx : x.toNat < 0x80) (hdigit : x.isDigit = false) :
    c.decimal x = none := by
  rw [c.decimal_ascii x hx, hdigit, if_neg Bool.false_ne_true]

/-- The digits that numbers are written with. -/
theorem decimal_digitChar {d : ℕ} (hd : d < 10) : c.decimal (Nat.digitChar d) = some d := by
  have hascii : ∀ d < 10, (Nat.digitChar d).toNat < 0x80 ∧ (Nat.digitChar d).isDigit = true ∧
      (Nat.digitChar d).toNat - 0x30 = d := by decide
  obtain ⟨hx, hdigit, hvalue⟩ := hascii d hd
  rw [c.decimal_ascii _ hx, if_pos hdigit, hvalue]

/-- A text begins with neither a digit nor an underscore. -/
def Stops (c : Characters) (rest : List Char) : Prop :=
  ∀ x ∈ rest.head?, c.decimal x = none ∧ x ≠ '_'

/-- Where digits do not go on, none are read. -/
theorem digits_of_stops {rest : List Char} (h : c.Stops rest) :
    c.digits false rest = some ([], rest) := by
  cases rest with
  | nil => rfl
  | cons x rest =>
    obtain ⟨hx, hne⟩ := h x rfl
    rw [digits, hx]
    dsimp only
    rw [if_neg hne, if_neg Bool.false_ne_true]

/-- **Digits are read whole**, up to where they do not go on. -/
theorem Digits.digits_append {s rest : List Char} {ds : List ℕ} (h : c.Digits s ds)
    (hrest : c.Stops rest) (prev : Bool) : c.digits prev (s ++ rest) = some (ds, rest) := by
  induction h generalizing prev with
  | one hx =>
    rw [List.singleton_append, digits, hx]
    dsimp only
    rw [digits_of_stops hrest]
    rfl
  | digit hx _ ih =>
    rw [List.cons_append, digits, hx]
    dsimp only
    rw [ih]
    rfl
  | underscore hx _ ih =>
    rw [List.cons_append, digits, hx]
    dsimp only
    rw [List.cons_append, digits, decimal_mark (x := '_') (by decide) (by decide)]
    dsimp only
    rw [if_pos rfl, if_neg Bool.false_ne_true, ih]
    rfl

/-- **What is read are digits**, perhaps behind an underscore if some have gone before, or
nothing is. -/
theorem digits_sound {prev : Bool} {t : List Char} {ds : List ℕ} {rest : List Char}
    (h : c.digits prev t = some (ds, rest)) :
    c.Stops rest ∧ ((∃ s, t = s ++ rest ∧ c.Digits s ds) ∨
      prev = false ∧ ((t = rest ∧ ds = []) ∨ ∃ s, t = '_' :: (s ++ rest) ∧ c.Digits s ds)) := by
  induction t generalizing prev ds rest with
  | nil =>
    rw [digits] at h
    split at h
    · cases h
    · cases h
      exact ⟨nofun, .inr ⟨Bool.eq_false_iff.mpr ‹_›, .inl ⟨rfl, rfl⟩⟩⟩
  | cons x t ih =>
    rw [digits] at h
    split at h
    next d hx =>
      obtain ⟨⟨ds', rest'⟩, hds, heq⟩ := Option.map_eq_some_iff.mp h
      cases heq
      obtain ⟨hstops, ⟨s, rfl, hs⟩ | ⟨-, ⟨rfl, rfl⟩ | ⟨s, rfl, hs⟩⟩⟩ := ih hds
      · exact ⟨hstops, .inl ⟨x :: s, rfl, .digit hx hs⟩⟩
      · exact ⟨hstops, .inl ⟨[x], rfl, .one hx⟩⟩
      · exact ⟨hstops, .inl ⟨x :: '_' :: s, rfl, .underscore hx hs⟩⟩
    next hx =>
      split at h
      next hunderscore =>
        split at h
        · cases h
        · obtain ⟨hstops, ⟨s, rfl, hs⟩ | ⟨hfalse, -⟩⟩ := ih h
          · refine ⟨hstops, .inr ⟨Bool.eq_false_iff.mpr ‹_›, .inr ⟨s, ?_, hs⟩⟩⟩
            rw [hunderscore]
          · cases hfalse
      next hne =>
        split at h
        · cases h
        · cases h
          refine ⟨?_, .inr ⟨Bool.eq_false_iff.mpr ‹_›, .inl ⟨rfl, rfl⟩⟩⟩
          rintro y hy
          obtain rfl := Option.some.inj hy
          exact ⟨hx, hne⟩

/-! ## Literals -/

/-- Digits do not go on with spaces. -/
theorem Spaces.stops {s : List Char} (h : c.Spaces s) : c.Stops s := by
  intro x hx
  have hspace : c.isspace x = true := h x (List.mem_of_mem_head? hx)
  constructor
  · rw [Option.eq_none_iff_forall_ne_some]
    intro d hd
    rw [c.isspace_decimal hd] at hspace
    cases hspace
  · rintro rfl
    rw [c.isspace_ascii '_' (by decide) (by decide)] at hspace
    cases hspace

/-- What is read behind the sign: digits with spaces behind them. -/
theorem magnitude_eq_some_iff {s : List Char} {n : ℕ} : c.magnitude s = some n ↔
    ∃ body trail ds, s = body ++ trail ∧ c.Digits body ds ∧ c.Spaces trail ∧
      c.Allows ds.length ∧ n = value ds := by
  have hspaces : ∀ rest : List Char, (rest.dropWhile c.isspace).isEmpty = true ↔
      c.Spaces rest := fun rest => by rw [List.isEmpty_iff, List.dropWhile_eq_nil_iff, Spaces]
  constructor
  · intro h
    rw [magnitude] at h
    split at h
    next => cases h
    next ds rest hdigits =>
      obtain ⟨-, ⟨body, rfl, hbody⟩ | ⟨hfalse, -⟩⟩ := digits_sound hdigits
      · split at h
        · cases h
        · split at h
          · cases h
            exact ⟨body, rest, ds, rfl, hbody, (hspaces rest).mp ‹_›, not_not.mp ‹_›, rfl⟩
          · cases h
      · cases hfalse
  · rintro ⟨body, trail, ds, rfl, hbody, htrail, hallows, rfl⟩
    rw [magnitude, hbody.digits_append htrail.stops]
    dsimp only
    rw [if_neg (not_not.mpr hallows), if_pos ((hspaces trail).mpr htrail)]

/-- Digits begin with one. -/
theorem Digits.head {s : List Char} {ds : List ℕ} (h : c.Digits s ds) :
    ∃ x t d, s = x :: t ∧ c.decimal x = some d := by
  cases h with
  | one hx => exact ⟨_, _, _, rfl, hx⟩
  | digit hx _ => exact ⟨_, _, _, rfl, hx⟩
  | underscore hx _ => exact ⟨_, _, _, rfl, hx⟩

/-- Digits are digits and underscores. -/
theorem Digits.mem {s : List Char} {ds : List ℕ} (h : c.Digits s ds) {x : Char} (hx : x ∈ s) :
    c.decimal x ≠ none ∨ x ∈ ['+', '-', '_'] := by
  have hdigit : ∀ {y d}, c.decimal y = some d → x = y → c.decimal x ≠ none := by
    rintro y d hy rfl
    rw [hy]
    exact Option.some_ne_none d
  induction h with
  | one hy => exact .inl (hdigit hy (List.mem_singleton.mp hx))
  | digit hy _ ih =>
    rcases List.mem_cons.mp hx with hx | hx
    · exact .inl (hdigit hy hx)
    · exact ih hx
  | underscore hy _ ih =>
    rcases List.mem_cons.mp hx with hx | hx
    · exact .inl (hdigit hy hx)
    · rcases List.mem_cons.mp hx with rfl | hx
      · exact .inr (by decide)
      · exact ih hx

end Characters

/-- A sign is split off. -/
theorem Sign.split_text (sign : Sign) {s : List Char}
    (hs : ∀ x ∈ s.head?, x ≠ '-' ∧ x ≠ '+') : Sign.split (sign.text ++ s) = (sign, s) := by
  cases sign with
  | minus => rfl
  | plus => rfl
  | none =>
    rw [text, List.nil_append, split.eq_def]
    split
    next => exact absurd rfl (hs '-' rfl).1
    next => exact absurd rfl (hs '+' rfl).2
    next => rfl

/-- A text is its sign and what is split off it. -/
theorem Sign.text_split (s : List Char) : (Sign.split s).1.text ++ (Sign.split s).2 = s := by
  rw [split.eq_def]
  split
  next => rfl
  next => rfl
  next => rfl

namespace Characters

variable {c : Characters}

/-- **`int` reads the literals**, each with its value, and nothing else. -/
theorem int_eq_some_iff {s : List Char} {n : ℤ} : c.int s = some n ↔ c.Literal s n := by
  constructor
  · intro h
    obtain ⟨m, hm, rfl⟩ := Option.map_eq_some_iff.mp h
    obtain ⟨body, trail, ds, hs, hbody, htrail, hallows, rfl⟩ := magnitude_eq_some_iff.mp hm
    refine ⟨s.takeWhile c.isspace, (Sign.split (s.dropWhile c.isspace)).1, body, trail, ds, ?_, ?_,
      hbody, htrail, hallows, rfl⟩
    · rw [← hs, Sign.text_split, List.takeWhile_append_dropWhile]
    · exact fun x hx => List.mem_takeWhile_imp hx
  · rintro ⟨lead, sign, body, trail, ds, rfl, hlead, hbody, htrail, hallows, rfl⟩
    obtain ⟨x, t, d, rfl, hx⟩ := hbody.head
    -- behind the spaces comes the sign or the first digit
    have hdrop : (lead ++ (sign.text ++ (x :: t ++ trail))).dropWhile c.isspace =
        sign.text ++ (x :: t ++ trail) := by
      rw [List.dropWhile_append_of_pos hlead]
      cases sign with
      | none => exact List.dropWhile_cons_of_neg (by rw [c.isspace_decimal hx]; decide)
      | plus => exact List.dropWhile_cons_of_neg (by rw [c.isspace_ascii '+' (by decide) (by decide)]; decide)
      | minus => exact List.dropWhile_cons_of_neg (by rw [c.isspace_ascii '-' (by decide) (by decide)]; decide)
    have hsign : Sign.split (sign.text ++ (x :: t ++ trail)) = (sign, x :: t ++ trail) := by
      refine Sign.split_text sign ?_
      rintro y hy
      obtain rfl := Option.some.inj hy
      constructor
      · rintro rfl
        rw [decimal_mark (x := '-') (by decide) (by decide)] at hx
        cases hx
      · rintro rfl
        rw [decimal_mark (x := '+') (by decide) (by decide)] at hx
        cases hx
    rw [int, hdrop, hsign]
    refine Option.map_eq_some_iff.mpr ⟨value ds, ?_, rfl⟩
    exact magnitude_eq_some_iff.mpr ⟨x :: t, trail, ds, rfl, hbody, htrail, hallows, rfl⟩

/-- **What is in a literal**: spaces, digits, a sign and underscores. -/
theorem Literal.mem {s : List Char} {n : ℤ} (h : c.Literal s n) {x : Char} (hx : x ∈ s) :
    c.isspace x = true ∨ c.decimal x ≠ none ∨ x ∈ ['+', '-', '_'] := by
  obtain ⟨lead, sign, body, trail, ds, rfl, hlead, hbody, htrail, -⟩ := h
  rcases List.mem_append.mp hx with hx | hx
  · exact .inl (hlead x hx)
  · rcases List.mem_append.mp hx with hx | hx
    · refine .inr (.inr ?_)
      cases sign with
      | none => cases hx
      | plus => simpa [Sign.text] using Or.inl hx
      | minus => simpa [Sign.text] using Or.inr (Or.inl hx)
    · rcases List.mem_append.mp hx with hx | hx
      · exact .inr (hbody.mem hx)
      · exact .inl (htrail x hx)

/-! ## Numbers in decimal -/

/-- Digits with one more digit behind them are digits. -/
theorem Digits.concat {s : List Char} {ds : List ℕ} {x : Char} {d : ℕ} (h : c.Digits s ds)
    (hx : c.decimal x = some d) : c.Digits (s ++ [x]) (ds ++ [d]) := by
  induction h with
  | one hy => exact .digit hy (.one hx)
  | digit hy _ ih => exact .digit hy ih
  | underscore hy _ ih => exact .underscore hy ih

/-- A number in decimal is a number of digits with that value. -/
theorem digits_toDigits (n : ℕ) : ∃ ds, c.Digits (Nat.toDigits 10 n) ds ∧ value ds = n ∧
    ds.length = (Nat.toDigits 10 n).length := by
  induction n using Nat.strongRecOn with
  | ind n ih =>
    by_cases hn : n < 10
    · rw [Nat.toDigits_of_lt_base hn]
      exact ⟨[n], .one (decimal_digitChar hn), by simp [value], rfl⟩
    · obtain ⟨ds, hds, hvalue, hlen⟩ := ih (n / 10) (by omega)
      rw [Nat.toDigits_of_base_le (by decide) (by omega)]
      refine ⟨ds ++ [n % 10], hds.concat (decimal_digitChar (Nat.mod_lt n (by decide))), ?_, ?_⟩
      · rw [value, List.foldl_append, ← value, hvalue]
        exact Nat.div_add_mod n 10
      · rw [List.length_append, List.length_append, hlen]
        rfl

/-- **A number in decimal is read back**, if it is not too long. -/
theorem literal_toDigits {n : ℕ} (hallows : c.Allows (Nat.toDigits 10 n).length) :
    c.Literal (Nat.toDigits 10 n) n := by
  obtain ⟨ds, hds, hvalue, hlen⟩ := digits_toDigits (c := c) n
  refine ⟨[], .none, Nat.toDigits 10 n, [], ds, by simp [Sign.text], nofun, hds, nofun, ?_, ?_⟩
  · rw [hlen]
    exact hallows
  · rw [hvalue]
    rfl

end Characters

end PyText
