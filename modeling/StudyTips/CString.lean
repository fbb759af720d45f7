import Mathlib.Algebra.Ring.Int.Defs
import Mathlib.Algebra.Ring.Nat
import Mathlib.Data.Int.Init
import Mathlib.Data.List.TakeWhile

/-!
# C strings: `strtok` and `atoi`

A C string is the list of its bytes before the NUL. `strtok` hands out one token
a call and keeps the rest of the string for the next; `tokens` says what the
calls hand out together, and `strtok_eq_none`, `strtok_eq_some` connect the two.
`atoi` takes any string for a number; `number` is what a string says that is one,
and `atoi_of_number` says when the two agree.
-/

namespace CString

/-- A string without its NUL. -/
abbrev Str : Type := List UInt8

/-! ## Tokens -/

section Strtok

variable (delim : UInt8 → Bool)

/-- One call of `strtok` with the rest of the string that the last one left: the next
token and what is left behind the delimiter that ends it, or `none` if only
delimiters are left. -/
def strtok (s : Str) : Option (Str × Str) :=
  match s.dropWhile delim with
  | [] => none
  | c :: s' => some ((c :: s').takeWhile fun c => !delim c,
      ((c :: s').dropWhile fun c => !delim c).drop 1)

/-- The non-empty pieces of a string between delimiters. -/
def tokens (s : Str) : List Str := (s.splitOnP delim).filter fun tok => tok ≠ []

/-- Delimiters in front make no token. -/
theorem tokens_dropWhile (s : Str) : tokens delim (s.dropWhile delim) = tokens delim s := by
  induction s with
  | nil => rfl
  | cons c s ih =>
    by_cases hc : delim c
    · rw [List.dropWhile_cons_of_pos hc, ih, tokens, tokens,
        List.splitOnP_cons_eq_if_modifyHead, if_pos hc, List.filter_cons_of_neg (by simp)]
    · rw [List.dropWhile_cons_of_neg hc]

variable {delim}

/-- `strtok` is at its end when no token is left. -/
theorem strtok_eq_none {s : Str} (h : strtok delim s = none) : tokens delim s = [] := by
  rw [← tokens_dropWhile]
  rw [strtok] at h
  split at h
  next hnil => rw [hnil]; rfl
  next => cases h

/-- A string that does not start with a delimiter starts with a token, which the first
delimiter ends. -/
theorem tokens_eq_cons {c : UInt8} {s : Str} (hc : delim c = false) : tokens delim (c :: s) =
    ((c :: s).takeWhile fun c => !delim c) ::
      tokens delim (((c :: s).dropWhile fun c => !delim c).drop 1) := by
  have htok : ∀ x ∈ (c :: s).takeWhile fun c => !delim c, delim x = false := fun x hx => by
    simpa using List.mem_takeWhile_imp hx
  have hne : ((c :: s).takeWhile fun c => !delim c) ≠ [] := by simp [hc]
  have hsplit := List.takeWhile_append_dropWhile (p := fun c => !delim c) (l := c :: s)
  have hhead := List.head?_dropWhile_not (fun c => !delim c) (c :: s)
  generalize (c :: s).takeWhile (fun c => !delim c) = tok at *
  generalize (c :: s).dropWhile (fun c => !delim c) = after at *
  rw [← hsplit, tokens]
  cases after with
  | nil =>
    -- no delimiter is left, so the token goes on to the end
    rw [List.append_nil, List.splitOnP_eq_singleton htok]
    simp [tokens, hne]
  | cons sep rest =>
    have hsep : delim sep = true := by simpa using hhead
    rw [List.splitOnP_append_cons_of_forall_mem htok sep hsep,
      List.filter_cons_of_pos (by simpa using hne)]
    rfl

/-- **`strtok` hands out the tokens in order.** -/
theorem strtok_eq_some {s tok rest : Str} (h : strtok delim s = some (tok, rest)) :
    tokens delim s = tok :: tokens delim rest ∧ rest.length < s.length := by
  rw [strtok] at h
  split at h
  next => cases h
  next c s' hdrop =>
    obtain ⟨rfl, rfl⟩ := Prod.mk.inj (Option.some.inj h)
    have hc : delim c = false := by
      have hhead := List.head?_dropWhile_not delim s
      rw [hdrop] at hhead
      exact hhead
    have hle : (c :: s').length ≤ s.length := by
      rw [← hdrop]
      exact (List.dropWhile_suffix delim).length_le
    refine ⟨by rw [← tokens_dropWhile, hdrop, tokens_eq_cons hc], ?_⟩
    have hrest := (List.dropWhile_suffix (fun c => !delim c) (l := s')).length_le
    rw [List.dropWhile_cons_of_pos (by simp [hc]), List.length_drop]
    simp only [List.length_cons] at hle
    omega

/-- A token takes at least one character. -/
theorem length_tokens_le (s : Str) : (tokens delim s).length ≤ s.length := by
  induction hn : s.length using Nat.strongRecOn generalizing s with
  | ind n ih =>
    cases htok : strtok delim s with
    | none =>
      rw [strtok_eq_none htok]
      exact Nat.zero_le n
    | some p =>
      obtain ⟨tok, rest⟩ := p
      obtain ⟨htokens, hlt⟩ := strtok_eq_some htok
      have hrest := ih rest.length (hn ▸ hlt) rest rfl
      rw [htokens, List.length_cons]
      omega

end Strtok

/-! ## Numbers -/

/-- `isspace` in the C locale. -/
def isspace (c : UInt8) : Bool := c == 0x20 || (0x09 ≤ c && c ≤ 0x0d)

/-- `isdigit`. -/
def isdigit (c : UInt8) : Bool := 0x30 ≤ c && c ≤ 0x39

/-- The value of a string of decimal digits. -/
def decimal (ds : Str) : ℕ := ds.foldl (fun n d => 10 * n + (d.toNat - 0x30)) 0

/-- An optional sign, `true` for minus, and what is behind it. -/
def sign : Str → Bool × Str
  | 0x2d :: s => (true, s)
  | 0x2b :: s => (false, s)
  | s => (false, s)

/-- A magnitude with its sign. -/
def signed (neg : Bool) (n : ℕ) : ℤ := if neg then -n else n

/-- `strtol(s, NULL, 10)` with a 64-bit `long`: white space, a sign and as many digits as
follow are read, the value is clipped to the range of `long`. -/
def strtol (s : Str) : ℤ :=
  let (neg, s) := sign (s.dropWhile isspace)
  max (-2 ^ 63) (min (2 ^ 63 - 1) (signed neg (decimal (s.takeWhile isdigit))))

/-- `atoi`: `(int)strtol(s, NULL, 10)`. -/
def atoi (s : Str) : ℤ := (strtol s).bmod (2 ^ 32)

/-- The number a string is: white space, an optional sign, at least one digit, and
nothing else. -/
def number (s : Str) : Option ℤ :=
  let (neg, ds) := sign (s.dropWhile isspace)
  if ds ≠ [] ∧ ds.all isdigit then some (signed neg (decimal ds)) else none

/-- A value an `int` can have. -/
def IsInt (v : ℤ) : Prop := -2 ^ 31 ≤ v ∧ v < 2 ^ 31

instance (v : ℤ) : Decidable (IsInt v) := inferInstanceAs (Decidable (_ ∧ _))

theorem isInt_atoi (s : Str) : IsInt (atoi s) := by
  have hlow := Int.le_bmod (x := strtol s) (m := 2 ^ 32) (by decide)
  have hhigh := Int.bmod_lt (x := strtol s) (m := 2 ^ 32) (by decide)
  exact ⟨by simpa [atoi] using hlow, by simpa [atoi] using hhigh⟩

/-- **`atoi` of a number is the number**, if it is an `int`. -/
theorem atoi_of_number {s : Str} {v : ℤ} (h : number s = some v) (hv : IsInt v) : atoi s = v := by
  obtain ⟨hlow, hhigh⟩ := hv
  rw [number] at h
  rw [atoi, strtol]
  generalize sign (s.dropWhile isspace) = p at *
  obtain ⟨neg, ds⟩ := p
  dsimp only at h ⊢
  split at h
  next hds =>
    have hall : ds.takeWhile isdigit = ds :=
      List.takeWhile_eq_self_iff.mpr (List.all_eq_true.mp hds.2)
    rw [hall, Option.some.inj h]
    have hclip : max (-2 ^ 63) (min (2 ^ 63 - 1) v) = v := by omega
    rw [hclip]
    exact Int.bmod_eq_of_le (by omega) (by omega)
  next => cases h

end CString
