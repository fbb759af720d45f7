import StudyTips.Bytes
import StudyTips.Tlv

/-!
# Records as they are written

A writer puts records one behind the other and fills each of them up to the next
multiple of the unit. `pack` is what it writes, `placed` says which record it puts
where, and the two agree with what a reader finds: the records of an area that
holds a pack are the ones that were written (`Area.longest_pack`), and each lies
where it was put (`bytes_of_mem_placed`).

The records are of any type, with a function that gives their bytes.
-/

universe u

namespace Tlv

open Bytes

variable {α : Type u} (unit : ℕ) (enc : α → List UInt8)

/-- A record, filled up with zeros. -/
def padded (r : List UInt8) : List UInt8 :=
  r ++ List.replicate (alignUp unit r.length - r.length) 0

/-- Records one behind the other. -/
def pack (rs : List α) : List UInt8 := rs.flatMap fun r => padded unit (enc r)

/-- The records with where they start, the first one at `a`. -/
def placed : ℕ → List α → List (ℕ × α)
  | _, [] => []
  | a, r :: rs => (a, r) :: placed (a + alignUp unit (enc r).length) rs

variable {unit enc}

theorem length_padded (hunit : 0 < unit) (r : List UInt8) :
    (padded unit r).length = alignUp unit r.length := by
  have := le_alignUp hunit r.length
  rw [padded, List.length_append, List.length_replicate]
  omega

theorem pack_cons (r : α) (rs : List α) :
    pack unit enc (r :: rs) = padded unit (enc r) ++ pack unit enc rs := List.flatMap_cons ..

theorem length_pack_cons (hunit : 0 < unit) (r : α) (rs : List α) :
    (pack unit enc (r :: rs)).length =
      alignUp unit (enc r).length + (pack unit enc rs).length := by
  rw [pack_cons, List.length_append, length_padded hunit]

/-- Every record is placed once, in order. -/
@[simp] theorem map_snd_placed (a : ℕ) (rs : List α) :
    (placed unit enc a rs).map Prod.snd = rs := by
  induction rs generalizing a with
  | nil => rfl
  | cons r rs ih => rw [placed, List.map_cons, ih]

/-- A record ends where the pack does, or before. -/
theorem end_le_of_mem_placed (hunit : 0 < unit) {a : ℕ} {rs : List α} {p : ℕ × α}
    (h : p ∈ placed unit enc a rs) :
    p.1 + (enc p.2).length ≤ a + (pack unit enc rs).length := by
  induction rs generalizing a with
  | nil => cases h
  | cons r rs ih =>
    rw [length_pack_cons hunit]
    rcases List.mem_cons.mp h with rfl | h
    · have := le_alignUp hunit (enc r).length
      dsimp only
      omega
    · have := ih h
      omega

/-- **Each record lies where it was put.** -/
theorem bytes_of_mem_placed (hunit : 0 < unit) {m : Mem} {a : ℕ} {rs : List α}
    (h : m.bytes a (pack unit enc rs).length = pack unit enc rs) {p : ℕ × α}
    (hp : p ∈ placed unit enc a rs) : m.bytes p.1 (enc p.2).length = enc p.2 := by
  induction rs generalizing a with
  | nil => cases hp
  | cons r rs ih =>
    rw [pack_cons] at h
    obtain ⟨hhead, htail⟩ := Mem.bytes_eq_append.mp h
    rcases List.mem_cons.mp hp with rfl | hp
    · exact (Mem.bytes_eq_append.mp hhead).1
    · rw [length_padded hunit] at htail
      exact ih htail hp

/-- **The records of an area that holds a pack** are the ones that were written, up to the
end of it, if each has its header and says its own length there. -/
theorem Area.longest_pack {A : Area} {a : ℕ} {rs : List α}
    (hlen : ∀ p ∈ placed A.unit enc a rs,
      A.hdr ≤ (enc p.2).length ∧ A.len p.1 = (enc p.2).length)
    (hstop : A.stop = a + (pack A.unit enc rs).length) :
    A.Longest a ((placed A.unit enc a rs).map Prod.fst) A.stop := by
  refine ⟨?_, fun hfit => ?_⟩
  · induction rs generalizing a with
    | nil =>
      rw [hstop]
      exact .nil a
    | cons r rs ih =>
      obtain ⟨hhdr, hhead⟩ := hlen (a, r) (List.mem_cons_self ..)
      have hle := le_alignUp A.unit_pos (enc r).length
      rw [length_pack_cons A.unit_pos] at hstop
      dsimp only at hhdr hhead
      have hnext : A.next a = a + alignUp A.unit (enc r).length := by rw [next, hhead]
      refine .cons ⟨by omega, by rw [hhead]; exact hhdr, by rw [hhead]; omega⟩ ?_
      rw [hnext]
      exact ih (fun p hp => hlen p (List.mem_cons_of_mem _ hp)) (by omega)
  · have := hfit.1
    have := A.hdr_pos
    omega

end Tlv
