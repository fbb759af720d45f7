import Mathlib.Data.List.Basic
import Mathlib.Data.List.Infix
import Mathlib.Data.List.Pairwise

/-!
# Chains of length-prefixed records

An area holds records one behind the other. Each begins with a header of `hdr`
bytes that carries its own length `len`, header included, and the next one
starts at the next multiple of `unit` behind it, which may lie behind the end
`stop` of the area. Lengths come from whoever wrote the area, so a record counts
only when it `Fits`.

* `Chain o os e`: the records at the offsets `os`, the first at `o`, fit and
  follow each other up to `e`.
* `Longest o os e`: a chain that no record continues. There is exactly one
  (`Longest.unique`).
* `records o` and `rest o`: the longest chain from `o` and its end, computed
  (`longest_records`).
* `Chain.congr`: a chain depends on the lengths of its own records only.
-/

namespace Tlv

/-! ## Alignment -/

/-- The next multiple of `unit` from `n` on. -/
def alignUp (unit n : ℕ) : ℕ := (n + unit - 1) / unit * unit

theorem le_alignUp {unit : ℕ} (hunit : 0 < unit) (n : ℕ) : n ≤ alignUp unit n := by
  have hdiv := Nat.div_add_mod (n + unit - 1) unit
  have hmod := Nat.mod_lt (n + unit - 1) hunit
  rw [alignUp, Nat.mul_comm]
  omega

theorem alignUp_lt {unit : ℕ} (hunit : 0 < unit) (n : ℕ) : alignUp unit n < n + unit := by
  have hle := Nat.div_mul_le_self (n + unit - 1) unit
  rw [alignUp]
  omega

/-! ## Areas and records -/

/-- An area of records: the geometry, the length each header claims, and the end. -/
structure Area : Type where
  /-- bytes of a record header -/
  hdr : ℕ
  /-- alignment of the records -/
  unit : ℕ
  /-- the length the header at an offset claims -/
  len : ℕ → ℕ
  /-- the offset behind the last byte of the area -/
  stop : ℕ
  /-- headers are not empty -/
  hdr_pos : 0 < hdr
  /-- alignment is at least to bytes -/
  unit_pos : 0 < unit

namespace Area

variable (A : Area)

/-- The record at `o` has its header and its claimed length inside the area. -/
def Fits (o : ℕ) : Prop := o + A.hdr ≤ A.stop ∧ A.hdr ≤ A.len o ∧ o + A.len o ≤ A.stop

instance (o : ℕ) : Decidable (A.Fits o) := inferInstanceAs (Decidable (_ ∧ _ ∧ _))

/-- Where the record behind the one at `o` starts. -/
def next (o : ℕ) : ℕ := o + alignUp A.unit (A.len o)

/-- The records at `os` fit and follow each other from `o` up to `e`. -/
inductive Chain : ℕ → List ℕ → ℕ → Prop where
  /-- no record -/
  | nil (o : ℕ) : Chain o [] o
  /-- a record that fits, and the chain behind it -/
  | cons {o : ℕ} {os : List ℕ} {e : ℕ} : A.Fits o → Chain (A.next o) os e → Chain o (o :: os) e

/-- A chain that no record continues. -/
def Longest (o : ℕ) (os : List ℕ) (e : ℕ) : Prop := A.Chain o os e ∧ ¬ A.Fits e

variable {A}

/-- A record that fits has a next one further on. -/
theorem Fits.lt_next {o : ℕ} (h : A.Fits o) : o + A.hdr ≤ A.next o := by
  have := le_alignUp A.unit_pos (A.len o)
  have := h.2.1
  rw [next]
  omega

/-- Behind a record that fits less of the area is left. -/
theorem Fits.sub_lt {o : ℕ} (h : A.Fits o) : A.stop - A.next o < A.stop - o := by
  have := h.lt_next
  have := h.1
  have := A.hdr_pos
  omega

namespace Chain

/-- Every record of a chain fits. -/
theorem fits {o e : ℕ} {os : List ℕ} (h : A.Chain o os e) : ∀ r ∈ os, A.Fits r := by
  induction h with
  | nil o => intro r hr; cases hr
  | cons hfit _ ih =>
    intro r hr
    rcases List.mem_cons.mp hr with rfl | hr
    · exact hfit
    · exact ih r hr

theorem le {o e : ℕ} {os : List ℕ} (h : A.Chain o os e) : o ≤ e := by
  induction h with
  | nil o => exact le_refl o
  | cons hfit _ ih => exact le_trans (by have := hfit.lt_next; omega) ih

/-- The records of a chain lie between its ends, each with its next one. -/
theorem mem_bounds {o e : ℕ} {os : List ℕ} (h : A.Chain o os e) :
    ∀ r ∈ os, o ≤ r ∧ A.next r ≤ e := by
  induction h with
  | nil o => intro r hr; cases hr
  | cons hfit htail ih =>
    intro r hr
    rcases List.mem_cons.mp hr with rfl | hr
    · exact ⟨le_refl _, htail.le⟩
    · have := hfit.lt_next
      exact ⟨by have := (ih r hr).1; omega, (ih r hr).2⟩

/-- Of two records of a chain the later starts where the earlier has its next
one, or behind. -/
theorem pairwise {o e : ℕ} {os : List ℕ} (h : A.Chain o os e) :
    os.Pairwise fun r r' => A.next r ≤ r' := by
  induction h with
  | nil o => exact List.Pairwise.nil
  | cons _ htail ih =>
    exact List.pairwise_cons.mpr ⟨fun r hr => (htail.mem_bounds r hr).1, ih⟩

/-- Two records of a chain do not overlap. -/
theorem disjoint {o e : ℕ} {os : List ℕ} (h : A.Chain o os e) {r r' : ℕ} (hr : r ∈ os)
    (hr' : r' ∈ os) (hne : r ≠ r') : A.next r ≤ r' ∨ A.next r' ≤ r := by
  have hsymm : Std.Symm fun r r' => A.next r ≤ r' ∨ A.next r' ≤ r := ⟨fun _ _ => Or.symm⟩
  have hpair : os.Pairwise fun r r' => A.next r ≤ r' ∨ A.next r' ≤ r :=
    h.pairwise.imp fun hle => .inl hle
  exact hpair.forall hr hr' hne

/-- A chain has no more records than the area has bytes. -/
theorem length_le {o e : ℕ} {os : List ℕ} (h : A.Chain o os e) : os.length ≤ A.stop - o := by
  induction h with
  | nil o => exact Nat.zero_le _
  | cons hfit _ ih =>
    have := hfit.lt_next
    have := hfit.1
    have := A.hdr_pos
    rw [List.length_cons]
    omega

/-- **A chain depends on the lengths of its own records only.** -/
theorem congr {B : Area} (hhdr : B.hdr = A.hdr) (hunit : B.unit = A.unit)
    (hstop : B.stop = A.stop) {o e : ℕ} {os : List ℕ} (h : A.Chain o os e)
    (hlen : ∀ r ∈ os, B.len r = A.len r) : B.Chain o os e := by
  induction h with
  | nil o => exact .nil o
  | @cons o os e hfit _ ih =>
    have hlen₀ : B.len o = A.len o := hlen o (List.mem_cons_self ..)
    have hnext : B.next o = A.next o := by rw [next, next, hunit, hlen₀]
    refine .cons ?_ ?_
    · rw [Fits, hhdr, hstop, hlen₀]
      exact hfit
    · rw [hnext]
      exact ih fun r hr => hlen r (List.mem_cons_of_mem _ hr)

end Chain

/-- The longest chain ends in one place and has one list of records. -/
theorem Longest.unique {o e e' : ℕ} {os os' : List ℕ} (h : A.Longest o os e)
    (h' : A.Longest o os' e') : os = os' ∧ e = e' := by
  obtain ⟨hchain, hstop⟩ := h
  induction hchain generalizing os' with
  | nil o =>
    obtain ⟨hchain', -⟩ := h'
    cases hchain' with
    | nil => exact ⟨rfl, rfl⟩
    | cons hfit _ => exact absurd hfit hstop
  | cons hfit _ ih =>
    obtain ⟨hchain', hstop'⟩ := h'
    cases hchain' with
    | nil => exact absurd hfit hstop'
    | cons _ htail =>
      obtain ⟨hos, he⟩ := ih ⟨htail, hstop'⟩ hstop
      exact ⟨congrArg _ hos, he⟩

/-! ## The records of an area -/

variable (A)

/-- The records from `o` on, as long as they fit. -/
def records (o : ℕ) : List ℕ :=
  if A.Fits o then o :: records (A.next o) else []
termination_by A.stop - o
decreasing_by exact ‹A.Fits o›.sub_lt

/-- Where the records from `o` on end. -/
def rest (o : ℕ) : ℕ :=
  if A.Fits o then rest (A.next o) else o
termination_by A.stop - o
decreasing_by exact ‹A.Fits o›.sub_lt

/-- **The records from an offset on are the longest chain.** -/
theorem longest_records (o : ℕ) : A.Longest o (A.records o) (A.rest o) := by
  rw [records, rest]
  split
  next hfit =>
    obtain ⟨hchain, hstop⟩ := longest_records (A.next o)
    exact ⟨.cons hfit hchain, hstop⟩
  next hfit => exact ⟨.nil o, hfit⟩
termination_by A.stop - o
decreasing_by exact ‹A.Fits o›.sub_lt

variable {A}

/-- A longest chain is the records, and ends where they do. -/
theorem Longest.eq_records {o e : ℕ} {os : List ℕ} (h : A.Longest o os e) :
    A.records o = os ∧ A.rest o = e :=
  (A.longest_records o).unique h

end Area

end Tlv
