import Mathlib.Logic.Relation
import StudyTips.Traced

/-!
# Loops with several ways out, run on fuel

A loop is given by what one turn does: from a state it either goes round again
(`.inl`) or leaves with a result (`.inr`), logging events on the way. A `break`,
a `return` in the body and a false test all leave; falling off the end and
`continue` go round. `run` takes as many turns as it has fuel and answers `none`
when it runs out, so that a loop which never leaves is a loop that answers
`none` at every fuel.

* `Trail`: the states at which a run takes its turns, up to the one it leaves
  from. `Trail.run` reads result and events of a run off its trail;
  `Trail.forall_mem` is the invariant rule, and with `Trail.leaves` it speaks of
  the result; `exists_trail` is the way back, from a run that leaves to its trail.
* `exists_trail_of_measure`: the rule for termination.
* `all_run`: an invariant rule for what runs log, also those that never leave, and
  `run_history` one for the events in their order; `Reaches` are the states at the head of
  the loop they come to, from which they go on (`Reaches.run_add`).
* `run_eq_none`: the rule for a loop that never leaves.
-/

universe u v w

namespace Loop

variable {E : Type u} {S : Type v} {R : Type v}

/-- Run a loop on fuel: `none` when the fuel is spent before the loop leaves. -/
def run (turn : S → Traced E (S ⊕ R)) : ℕ → S → Traced E (Option R)
  | 0, _ => pure none
  | n + 1, s => turn s >>= fun next =>
    match next with
    | .inl s' => run turn n s'
    | .inr r => pure (some r)

variable {turn : S → Traced E (S ⊕ R)}

/-- A run whose first turn goes round goes on from there. -/
theorem run_inl {n : ℕ} {s s' : S} (h : (turn s).val = .inl s') :
    run turn (n + 1) s = ⟨(run turn n s').val, (turn s).log ++ (run turn n s').log⟩ := by
  apply Traced.ext
  · simp [run, h]
  · simp [run, h]

/-- A run whose first turn leaves ends with it. -/
theorem run_inr {n : ℕ} {s : S} {r : R} (h : (turn s).val = .inr r) :
    run turn (n + 1) s = ⟨some r, (turn s).log⟩ := by
  apply Traced.ext
  · simp [run, h]
  · simp [run, h]

/-- The states at which a run from a state takes its turns, the one it leaves from
last, and the result it leaves with. -/
inductive Trail (turn : S → Traced E (S ⊕ R)) : S → List S → R → Prop where
  /-- the turn leaves -/
  | leave {s : S} {r : R} : (turn s).val = .inr r → Trail turn s [s] r
  /-- the turn goes round -/
  | round {s s' : S} {ss : List S} {r : R} :
      (turn s).val = .inl s' → Trail turn s' ss r → Trail turn s (s :: ss) r

namespace Trail

/-- **A run follows its trail**, at every fuel that is enough for its turns. -/
theorem run {s : S} {ss : List S} {r : R} (h : Trail turn s ss r) :
    ∀ {n : ℕ}, ss.length ≤ n →
      Loop.run turn n s = ⟨some r, ss.flatMap fun x => (turn x).log⟩ := by
  induction h with
  | leave ht =>
    intro n hn
    obtain ⟨n, rfl⟩ : ∃ k, n = k + 1 := ⟨n - 1, by simp only [List.length_cons] at hn; omega⟩
    rw [run_inr ht, List.flatMap_cons, List.flatMap_nil, List.append_nil]
  | round ht _ ih =>
    intro n hn
    obtain ⟨n, rfl⟩ : ∃ k, n = k + 1 := ⟨n - 1, by simp only [List.length_cons] at hn; omega⟩
    rw [run_inl ht, ih (by simpa using hn), List.flatMap_cons]

/-- Behind a turn that goes round the trail goes on from the next state. -/
theorem of_inl {s s' : S} {ss : List S} {r : R} (h : Trail turn s ss r)
    (ht : (turn s).val = .inl s') : ∃ ss', ss = s :: ss' ∧ Trail turn s' ss' r := by
  cases h with
  | leave hleave =>
    rw [ht] at hleave
    cases hleave
  | round hround htail =>
    rw [ht] at hround
    obtain rfl := Sum.inl.inj hround
    exact ⟨_, rfl, htail⟩

/-- A turn that leaves is the last. -/
theorem of_inr {s : S} {ss : List S} {r r' : R} (h : Trail turn s ss r)
    (ht : (turn s).val = .inr r') : ss = [s] ∧ r = r' := by
  cases h with
  | leave hleave =>
    rw [ht] at hleave
    exact ⟨rfl, (Sum.inr.inj hleave).symm⟩
  | round hround _ =>
    rw [ht] at hround
    cases hround

/-- The result is that of the turn at one of the states, the last one. -/
theorem leaves {s : S} {ss : List S} {r : R} (h : Trail turn s ss r) :
    ∃ x ∈ ss, (turn x).val = .inr r := by
  induction h with
  | leave ht => exact ⟨_, List.mem_singleton_self _, ht⟩
  | round _ _ ih =>
    obtain ⟨x, hx, ht⟩ := ih
    exact ⟨x, List.mem_cons_of_mem _ hx, ht⟩

/-- **Invariant rule**: what one turn hands to the next holds all along a trail. -/
theorem forall_mem {Inv : S → Prop} (hround : ∀ s s', Inv s → (turn s).val = .inl s' → Inv s')
    {s : S} {ss : List S} {r : R} (h : Trail turn s ss r) (hs : Inv s) : ∀ x ∈ ss, Inv x := by
  induction h with
  | leave _ =>
    intro x hx
    obtain rfl := List.mem_singleton.mp hx
    exact hs
  | round ht _ ih =>
    intro x hx
    rcases List.mem_cons.mp hx with rfl | hx
    · exact hs
    · exact ih (hround _ _ hs ht) x hx

end Trail

/-- **Every run that leaves has a trail.** -/
theorem exists_trail : ∀ {n : ℕ} {s : S} {r : R}, (run turn n s).val = some r →
    ∃ ss, Trail turn s ss r ∧ ss.length ≤ n
  | 0, _, _, h => by cases h
  | n + 1, s, r, h => by
    rcases ht : (turn s).val with s' | r'
    · rw [run_inl ht] at h
      obtain ⟨ss, htrail, hlen⟩ := exists_trail h
      exact ⟨s :: ss, .round ht htrail, Nat.succ_le_succ hlen⟩
    · rw [run_inr ht] at h
      obtain rfl := Option.some.inj h
      exact ⟨[s], .leave ht, Nat.succ_le_succ (Nat.zero_le n)⟩

/-- A run that leaves does the same with more fuel. -/
theorem run_mono {n m : ℕ} {s : S} {r : R} (h : (run turn n s).val = some r) (hnm : n ≤ m) :
    run turn m s = run turn n s := by
  obtain ⟨ss, htrail, hlen⟩ := exists_trail h
  rw [htrail.run hlen, htrail.run (Nat.le_trans hlen hnm)]

/-- **Termination**: with an invariant and a measure that goes down at each turn that
goes round, a run leaves, in no more turns than the measure allows. -/
theorem exists_trail_of_measure {Inv : S → Prop} (μ : S → ℕ)
    (hround : ∀ s s', Inv s → (turn s).val = .inl s' → Inv s' ∧ μ s' < μ s) {s : S} (hs : Inv s) :
    ∃ ss r, Trail turn s ss r ∧ ss.length ≤ μ s + 1 := by
  induction hμ : μ s using Nat.strongRecOn generalizing s with
  | ind k ih =>
    rcases ht : (turn s).val with s' | r
    · obtain ⟨hs', hlt⟩ := hround s s' hs ht
      rw [hμ] at hlt
      obtain ⟨ss, r, htrail, hlen⟩ := ih (μ s') hlt hs' rfl
      exact ⟨s :: ss, r, .round ht htrail, by rw [List.length_cons]; omega⟩
    · exact ⟨[s], r, .leave ht, Nat.succ_le_succ (Nat.zero_le k)⟩

/-! ## All runs -/

/-- What every turn logs under an invariant, a run logs, however far it gets. -/
theorem all_run {P : E → Prop} {Inv : S → Prop} (hlog : ∀ s, Inv s → (turn s).All P)
    (hround : ∀ s s', Inv s → (turn s).val = .inl s' → Inv s') :
    ∀ (n : ℕ) {s : S}, Inv s → (run turn n s).All P
  | 0, _, _ => Traced.all_pure none
  | n + 1, s, hs => by
    refine Traced.all_bind.mpr ⟨hlog s hs, ?_⟩
    rcases ht : (turn s).val with s' | r
    · exact all_run hlog hround n (hround s s' hs ht)
    · exact Traced.all_pure (some r)

/-- **Invariant rule with history**: what holds of the events so far and the state at the head
of the loop, and is handed on by every turn that goes round, decides what holds of the
events and the result of a run, at every fuel. -/
theorem run_history (Inv : List E → S → Prop) (Post : List E → Option R → Prop)
    (hspent : ∀ l s, Inv l s → Post l none)
    (hround : ∀ l s s', Inv l s → (turn s).val = .inl s' → Inv (l ++ (turn s).log) s')
    (hleave : ∀ l s r, Inv l s → (turn s).val = .inr r → Post (l ++ (turn s).log) (some r)) :
    ∀ (n : ℕ) {l : List E} {s : S}, Inv l s → Post (l ++ (run turn n s).log) (run turn n s).val
  | 0, l, s, hs => by
    rw [run, Traced.pure_log, List.append_nil]
    exact hspent l s hs
  | n + 1, l, s, hs => by
    rcases ht : (turn s).val with s' | r
    · rw [run_inl ht, ← List.append_assoc]
      exact run_history Inv Post hspent hround hleave n (hround l s s' hs ht)
    · rw [run_inr ht]
      exact hleave l s r hs ht

/-- The states at the head of the loop that a run from a state comes to. -/
def Reaches (turn : S → Traced E (S ⊕ R)) : S → S → Prop :=
  Relation.ReflTransGen fun s s' => (turn s).val = .inl s'

/-- An invariant holds in every state reached. -/
theorem Reaches.inv {Inv : S → Prop} (hround : ∀ s s', Inv s → (turn s).val = .inl s' → Inv s')
    {s s' : S} (h : Reaches turn s s') (hs : Inv s) : Inv s' := by
  induction h with
  | refl => exact hs
  | tail _ hstep ih => exact hround _ _ ih hstep

/-- **A run that comes to a state goes on as a run from there**, with the fuel it has left. -/
theorem Reaches.run_add {s s' : S} (h : Reaches turn s s') : ∃ n l, ∀ m,
    run turn (m + n) s = ⟨(run turn m s').val, l ++ (run turn m s').log⟩ := by
  induction h using Relation.ReflTransGen.head_induction_on with
  | refl => exact ⟨0, [], fun m => rfl⟩
  | @head s s'' hstep _ ih =>
    obtain ⟨n, l, hn⟩ := ih
    refine ⟨n + 1, (turn s).log ++ l, fun m => ?_⟩
    rw [← Nat.add_assoc, run_inl hstep, hn, List.append_assoc]

/-- What the first turn logs comes first. -/
theorem exists_log_one (turn : S → Traced E (S ⊕ R)) (s : S) :
    ∃ l, (run turn 1 s).log = (turn s).log ++ l := by
  rcases ht : (turn s).val with s' | r
  · exact ⟨_, by rw [run_inl ht]⟩
  · exact ⟨[], by rw [run_inr ht, List.append_nil]⟩

/-- What the turn at a state reached logs, a run that gets there logs, in one piece. -/
theorem Reaches.log_infix {s s' : S} (h : Reaches turn s s') :
    ∃ n l l', (run turn n s).log = l ++ (turn s').log ++ l' := by
  obtain ⟨n, l, hn⟩ := h.run_add
  obtain ⟨l', hl'⟩ := exists_log_one turn s'
  exact ⟨1 + n, l, l', by rw [hn, hl', List.append_assoc]⟩

theorem Reaches.mem_log {s s' : S} (h : Reaches turn s s') {e : E} (he : e ∈ (turn s').log) :
    ∃ n, e ∈ (run turn n s).log := by
  obtain ⟨n, l, l', hlog⟩ := h.log_infix
  exact ⟨n, by rw [hlog]; exact List.mem_append_left _ (List.mem_append_right _ he)⟩

/-- **A loop that never leaves**: as long as every turn goes round to a state like
the one before, no fuel is enough. -/
theorem run_eq_none {Inv : S → Prop}
    (hround : ∀ s, Inv s → ∃ s', (turn s).val = .inl s' ∧ Inv s') :
    ∀ (n : ℕ) {s : S}, Inv s → (run turn n s).val = none
  | 0, _, _ => rfl
  | n + 1, s, hs => by
    obtain ⟨s', ht, hs'⟩ := hround s hs
    rw [run_inl ht]
    exact run_eq_none hround n hs'

end Loop
