import Mathlib.Data.List.Basic

/-!
# Computations that log what they touch

`Traced E X` is a value of type `X` together with the list of events the
computation went through, oldest first: the addresses it read, the calls it
made. A property of every event of a run (`All`) is proved along the program's
own structure, by `all_pure`, `all_bind` and `all_emit`; the value is read off
by `bind_val` without looking at the log.
-/

universe u v

/-- A value with the events met on the way to it, oldest first. -/
structure Traced (E : Type u) (X : Type v) : Type (max u v) where
  /-- the value returned -/
  val : X
  /-- the events, oldest first -/
  log : List E

namespace Traced

variable {E : Type u} {X Y : Type v}

/-- Two runs with the same value and the same events are equal. -/
theorem ext {m m' : Traced E X} (hv : m.val = m'.val) (hl : m.log = m'.log) : m = m' := by
  cases m; cases m'
  subst hv; subst hl
  rfl

/-- Return without an event. -/
protected def pure (x : X) : Traced E X := ⟨x, []⟩

/-- Sequencing: the events of the first computation come first. -/
protected def bind (m : Traced E X) (f : X → Traced E Y) : Traced E Y :=
  ⟨(f m.val).val, m.log ++ (f m.val).log⟩

instance : Monad (Traced E) where
  pure := Traced.pure
  bind := Traced.bind

/-- Log one event. -/
def emit (e : E) : Traced E PUnit.{v + 1} := ⟨⟨⟩, [e]⟩

-- The parentheses around `rfl` keep `simp` from using these as definitional
-- equations: comparing values must not make the kernel compare whole runs.

@[simp] theorem pure_val (x : X) : (pure x : Traced E X).val = x := (rfl)

@[simp] theorem pure_log (x : X) : (pure x : Traced E X).log = [] := (rfl)

@[simp] theorem bind_val (m : Traced E X) (f : X → Traced E Y) :
    (m >>= f).val = (f m.val).val := (rfl)

@[simp] theorem bind_log (m : Traced E X) (f : X → Traced E Y) :
    (m >>= f).log = m.log ++ (f m.val).log := (rfl)

@[simp] theorem map_val (f : X → Y) (m : Traced E X) : (f <$> m).val = f m.val := (rfl)

@[simp] theorem map_log (f : X → Y) (m : Traced E X) : (f <$> m).log = m.log :=
  List.append_nil m.log

@[simp] theorem emit_val (e : E) : (emit e : Traced E PUnit.{v + 1}).val = ⟨⟩ := (rfl)

@[simp] theorem emit_log (e : E) : (emit e : Traced E PUnit.{v + 1}).log = [e] := (rfl)

instance : LawfulMonad (Traced E) := LawfulMonad.mk' (Traced E)
  (fun m => ext rfl (List.append_nil m.log))
  (fun _ _ => rfl)
  (fun _ _ _ => ext rfl (List.append_assoc ..))

/-! ## Properties of every event -/

/-- Every event of the run satisfies `P`. -/
def All (P : E → Prop) (m : Traced E X) : Prop := ∀ e ∈ m.log, P e

variable {P : E → Prop}

theorem all_pure (x : X) : All P (pure x : Traced E X) := fun _ h => absurd h List.not_mem_nil

theorem all_emit {e : E} : All P (emit e : Traced E PUnit.{v + 1}) ↔ P e := by
  simp [All]

/-- A sequence satisfies `P` exactly when both parts do. -/
theorem all_bind {m : Traced E X} {f : X → Traced E Y} :
    All P (m >>= f) ↔ All P m ∧ All P (f m.val) := by
  simp only [All, bind_log, List.mem_append]
  exact ⟨fun h => ⟨fun e he => h e (.inl he), fun e he => h e (.inr he)⟩,
    fun ⟨hm, hf⟩ e he => he.elim (hm e) (hf e)⟩

end Traced
