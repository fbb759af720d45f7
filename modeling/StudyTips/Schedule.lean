import StudyTips.Traced

/-!
# Machines that take labelled steps

A machine is given by what it does at a label: no step, or a next state and the
events of the step. Who moves next is not the machine's to choose, so a run is
given by the labels it takes, its schedule, and what holds of every run holds
over every interleaving.

* `exec`: the run of a schedule, `none` if a step of it is not possible.
* `exec_inv`: the invariant rule, for the labels and events so far together with the state.
-/

universe u v w

namespace Schedule

variable {L : Type u} {S : Type v} {E : Type w}

/-- Take the steps of a schedule one after the other. -/
def exec (step : S → L → Option (Traced E S)) : List L → S → Option (Traced E S)
  | [], s => some ⟨s, []⟩
  | l :: ls, s =>
    (step s l).bind fun t => (exec step ls t.val).map fun t' => ⟨t'.val, t.log ++ t'.log⟩

variable {step : S → L → Option (Traced E S)}

/-- A run of one step more begins with that step. -/
theorem exec_cons {l : L} {ls : List L} {s : S} {t : Traced E S}
    (h : exec step (l :: ls) s = some t) : ∃ t₁ t₂, step s l = some t₁ ∧
      exec step ls t₁.val = some t₂ ∧ t = ⟨t₂.val, t₁.log ++ t₂.log⟩ := by
  obtain ⟨t₁, h₁, hmap⟩ := Option.bind_eq_some_iff.mp h
  obtain ⟨t₂, h₂, rfl⟩ := Option.map_eq_some_iff.mp hmap
  exact ⟨t₁, t₂, h₁, h₂, rfl⟩

/-- Runs are put together at a state. -/
theorem exec_append {ls ls' : List L} {s : S} {t t' : Traced E S} (h : exec step ls s = some t)
    (h' : exec step ls' t.val = some t') :
    exec step (ls ++ ls') s = some ⟨t'.val, t.log ++ t'.log⟩ := by
  induction ls generalizing s t with
  | nil =>
    obtain rfl := Option.some.inj h
    exact h'
  | cons l ls ih =>
    obtain ⟨t₁, t₂, h₁, h₂, rfl⟩ := exec_cons h
    rw [List.cons_append, exec, h₁, Option.bind_some, ih h₂ h', Option.map_some,
      List.append_assoc]

/-- What every step hands on, a run hands on. -/
theorem exec_keeps (Inv : List L → List E → S → Prop)
    (hstep : ∀ ls es s l t, Inv ls es s → step s l = some t → Inv (ls ++ [l]) (es ++ t.log) t.val)
    {ls ls' : List L} {es : List E} {s : S} {t : Traced E S} (hs : Inv ls es s)
    (h : exec step ls' s = some t) : Inv (ls ++ ls') (es ++ t.log) t.val := by
  induction ls' generalizing ls es s t with
  | nil =>
    obtain rfl := Option.some.inj h
    rwa [List.append_nil, List.append_nil]
  | cons l ls' ih =>
    obtain ⟨t₁, t₂, h₁, h₂, rfl⟩ := exec_cons h
    have htail := ih (hstep ls es s l t₁ hs h₁) h₂
    rwa [List.append_assoc, List.append_assoc] at htail

/-- **Invariant rule**: what holds at the start, with no labels and no events so far, and is
handed on by every step, holds at the end of every schedule. -/
theorem exec_inv (Inv : List L → List E → S → Prop)
    (hstep : ∀ ls es s l t, Inv ls es s → step s l = some t → Inv (ls ++ [l]) (es ++ t.log) t.val)
    {ls : List L} {s : S} {t : Traced E S} (hs : Inv [] [] s) (h : exec step ls s = some t) :
    Inv ls t.log t.val :=
  exec_keeps Inv hstep hs h

end Schedule
