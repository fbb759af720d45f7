import Mathlib.Data.Int.Notation
import Mathlib.Data.List.Basic
import Mathlib.Logic.Function.Basic
import StudyTips.Schedule

/-!
# Processes that print through buffers

What a process prints goes into a buffer of its own, from which it is written to the output
that the processes share: some of it at once, as the policy of the stream has it, and the
rest at the end. A process that is copied takes the buffer with it.

* `written_add_buffer`: what a process has written and what it still holds is what it held
  at first and has printed since. `written_byBlock`: how much of that it has written, if
  its stream writes whole blocks.
* `own_exec`: in every interleaving a process does what it does alone, so that the rules
  for one process are enough.
-/

universe u v w x

namespace Stdio

variable {α : Type u} {P : Type v} {E : Type w} {ι : Type x}

/-! ## A stream -/

/-- When a stream writes: how much of what its buffer holds, once something was put into it. -/
abbrev Policy (α : Type u) : Type u := List α → ℕ

/-- A stream to a terminal writes up to the last end of a line. -/
def byLine [DecidableEq α] (newline : α) : Policy α :=
  fun buffer => (buffer.reverse.dropWhile fun c => c ≠ newline).length

/-- The part of a length that lies in blocks with something behind them. -/
def blocks (size n : ℕ) : ℕ := (n - 1) / size * size

/-- A stream to a file writes a full block when more comes. -/
def byBlock (size : ℕ) : Policy α := fun buffer => blocks size buffer.length

theorem blocks_le (size n : ℕ) : blocks size n ≤ n :=
  Nat.le_trans (Nat.div_mul_le_self _ _) (Nat.sub_le _ _)

/-- **The blocks of a whole** are those in front, and the blocks of what is behind them. -/
theorem blocks_add {size w m : ℕ} (h : w = blocks size (w + m)) (n : ℕ) :
    blocks size (w + m + n) = w + blocks size (m + n) := by
  rcases Nat.eq_zero_or_pos m with rfl | hm
  · -- nothing is behind them, so there are none
    have hw : w ≤ w + 0 - 1 := Nat.le_trans (Nat.le_of_eq h) (Nat.div_mul_le_self _ _)
    obtain rfl : w = 0 := by omega
    simp only [Nat.zero_add]
  · rcases Nat.eq_zero_or_pos size with rfl | hsize
    · rw [blocks, Nat.mul_zero] at h
      subst h
      rw [Nat.zero_add, Nat.zero_add]
    · have hsplit : w + m + n - 1 = (m + n - 1) + (w + m - 1) / size * size := by
        rw [blocks] at h
        omega
      rw [blocks, hsplit, Nat.add_mul_div_right _ _ hsize, Nat.add_mul, blocks, Nat.add_comm]
      exact congrArg (· + _) h.symm

/-- What is behind the blocks of a whole has none of its own. -/
theorem blocks_sub (size n : ℕ) : blocks size (n - blocks size n) = 0 := by
  have hle := blocks_le size n
  have hwhole : blocks size n = blocks size (blocks size n + (n - blocks size n)) := by
    rw [Nat.add_sub_cancel' hle]
  have hadd := blocks_add hwhole 0
  rw [Nat.add_zero, Nat.add_zero, Nat.add_sub_cancel' hle] at hadd
  omega

/-- An output stream with its buffer. -/
structure Stream (α : Type u) : Type u where
  /-- the writes so far -/
  writes : List (List α)
  /-- what is not written yet -/
  buffer : List α

namespace Stream

/-- Put a text into a stream, and write what the policy says. -/
def put (policy : Policy α) (s : Stream α) (text : List α) : Stream α :=
  let buffer := s.buffer ++ text
  let n := policy buffer
  ⟨s.writes ++ [buffer.take n], buffer.drop n⟩

/-- All that was put into a stream. -/
def all (s : Stream α) : List α := s.writes.flatten ++ s.buffer

theorem all_put (policy : Policy α) (s : Stream α) (text : List α) :
    (s.put policy text).all = s.all ++ text := by
  simp [all, put]

/-- A line that was put into a stream to a terminal is written at once. -/
theorem buffer_put_byLine [DecidableEq α] (newline : α) (s : Stream α) (line : List α) :
    (s.put (byLine newline) (line ++ [newline])).buffer = [] := by
  have hall : byLine newline (s.buffer ++ (line ++ [newline])) =
      (s.buffer ++ (line ++ [newline])).length := by
    rw [byLine, ← List.append_assoc, List.reverse_append, List.reverse_singleton,
      List.singleton_append, List.dropWhile_cons_of_neg (by simp), List.length_cons,
      List.length_reverse]
    simp [Nat.add_assoc]
  rw [put]
  dsimp only
  rw [hall, List.drop_length]

/-- What the buffer holds is what was put into the stream behind what it has written. -/
theorem buffer_eq_drop (s : Stream α) : s.buffer = s.all.drop s.writes.flatten.length :=
  List.drop_left.symm

/-- **A stream to a file has written the blocks** of what was put into it. -/
theorem length_put_byBlock {size : ℕ} {s : Stream α}
    (h : s.writes.flatten.length = blocks size s.all.length) (text : List α) :
    (s.put (byBlock size) text).writes.flatten.length =
      blocks size (s.put (byBlock size) text).all.length := by
  rw [all, List.length_append] at h
  rw [all_put, all, List.length_append, List.length_append, blocks_add h, put]
  dsimp only
  rw [byBlock, List.flatten_append, List.length_append, List.flatten_singleton, List.length_take,
    Nat.min_eq_left (blocks_le _ _), List.length_append]

end Stream

/-! ## One process -/

/-- What a process does next. -/
inductive Act (P : Type v) (α : Type u) (E : Type w) : Type (max u v w) where
  /-- the process prints -/
  | print (text : List α) (next : P)
  /-- the process does something else -/
  | call (e : E) (next : P)
  /-- the process ends -/
  | exit (rc : ℤ)

/-- Where a process is behind what it does. -/
def Act.next : Act P α E → Option P
  | .print _ next => some next
  | .call _ next => some next
  | .exit _ => none

/-- What is seen of a process. -/
inductive Event (α : Type u) (E : Type w) : Type (max u w) where
  /-- a text is printed -/
  | printed (text : List α)
  /-- bytes are written -/
  | wrote (chunk : List α)
  /-- something else is done -/
  | called (e : E)
  /-- the process has ended -/
  | exited (rc : ℤ)

/-- A process that prints. -/
structure Proc (P : Type v) (α : Type u) : Type (max u v) where
  /-- where the process is, or how it has ended -/
  pc : P ⊕ ℤ
  /-- what is printed and not written yet -/
  buffer : List α

variable (policy : Policy α) (act : P → Act P α E)

/-- One step of a process. -/
def Proc.step (p : Proc P α) : Option (Traced (Event α E) (Proc P α)) :=
  match p.pc with
  | .inr _ => none
  | .inl pc =>
    match act pc with
    | .print text next =>
      let buffer := p.buffer ++ text
      let n := policy buffer
      some ⟨⟨.inl next, buffer.drop n⟩, [.printed text, .wrote (buffer.take n)]⟩
    | .call e next => some ⟨⟨.inl next, p.buffer⟩, [.called e]⟩
    | .exit rc => some ⟨⟨.inr rc, []⟩, [.wrote p.buffer, .exited rc]⟩

/-- `n` steps of a process alone. -/
def Proc.steps (n : ℕ) (p : Proc P α) : Option (Traced (Event α E) (Proc P α)) :=
  Schedule.exec (fun p _ => p.step policy act) (List.replicate n ()) p

/-- What is printed in a run. -/
def printedIn (l : List (Event α E)) : List α :=
  l.flatMap fun
    | .printed text => text
    | _ => []

/-- What is written in a run. -/
def writtenIn (l : List (Event α E)) : List α :=
  l.flatMap fun
    | .wrote chunk => chunk
    | _ => []

@[simp] theorem printedIn_nil : printedIn ([] : List (Event α E)) = [] := rfl

@[simp] theorem printedIn_cons_printed (text : List α) (l : List (Event α E)) :
    printedIn (.printed text :: l) = text ++ printedIn l := rfl

@[simp] theorem printedIn_cons_wrote (chunk : List α) (l : List (Event α E)) :
    printedIn (.wrote chunk :: l) = printedIn l := rfl

@[simp] theorem printedIn_cons_called (e : E) (l : List (Event α E)) :
    printedIn (.called e :: l) = printedIn l := rfl

@[simp] theorem printedIn_cons_exited (rc : ℤ) (l : List (Event α E)) :
    printedIn (.exited rc :: l) = printedIn l := rfl

@[simp] theorem writtenIn_nil : writtenIn ([] : List (Event α E)) = [] := rfl

@[simp] theorem writtenIn_cons_printed (text : List α) (l : List (Event α E)) :
    writtenIn (.printed text :: l) = writtenIn l := rfl

@[simp] theorem writtenIn_cons_wrote (chunk : List α) (l : List (Event α E)) :
    writtenIn (.wrote chunk :: l) = chunk ++ writtenIn l := rfl

@[simp] theorem writtenIn_cons_called (e : E) (l : List (Event α E)) :
    writtenIn (.called e :: l) = writtenIn l := rfl

@[simp] theorem writtenIn_cons_exited (rc : ℤ) (l : List (Event α E)) :
    writtenIn (.exited rc :: l) = writtenIn l := rfl

theorem printedIn_append (l l' : List (Event α E)) :
    printedIn (l ++ l') = printedIn l ++ printedIn l' :=
  List.flatMap_append

theorem writtenIn_append (l l' : List (Event α E)) :
    writtenIn (l ++ l') = writtenIn l ++ writtenIn l' :=
  List.flatMap_append

variable {policy act}

/-- **The steps of a process**: it prints, does something else, or ends. -/
theorem Proc.step_cases {p : Proc P α} {t : Traced (Event α E) (Proc P α)}
    (h : p.step policy act = some t) : ∃ pc, p.pc = .inl pc ∧
      ((∃ text next, act pc = .print text next ∧
          t = ⟨⟨.inl next, (p.buffer ++ text).drop (policy (p.buffer ++ text))⟩,
            [.printed text, .wrote ((p.buffer ++ text).take (policy (p.buffer ++ text)))]⟩) ∨
        (∃ e next, act pc = .call e next ∧ t = ⟨⟨.inl next, p.buffer⟩, [.called e]⟩) ∨
        ∃ rc, act pc = .exit rc ∧ t = ⟨⟨.inr rc, []⟩, [.wrote p.buffer, .exited rc]⟩) := by
  obtain ⟨pc, buffer⟩ := p
  cases pc with
  | inr rc => cases h
  | inl pc =>
    refine ⟨pc, rfl, ?_⟩
    rw [step] at h
    dsimp only at h
    cases hact : act pc with
    | print text next =>
      rw [hact] at h
      exact .inl ⟨text, next, rfl, (Option.some.inj h).symm⟩
    | call e next =>
      rw [hact] at h
      exact .inr (.inl ⟨e, next, rfl, (Option.some.inj h).symm⟩)
    | exit rc =>
      rw [hact] at h
      exact .inr (.inr ⟨rc, rfl, (Option.some.inj h).symm⟩)

/-- A process goes on to what is next, or ends. -/
theorem Proc.step_next {p : Proc P α} {t : Traced (Event α E) (Proc P α)}
    (h : p.step policy act = some t) : ∃ pc, p.pc = .inl pc ∧
      ∀ next, t.val.pc = .inl next → (act pc).next = some next := by
  obtain ⟨pc, hpc, ⟨text, next, hact, rfl⟩ | ⟨e, next, hact, rfl⟩ | ⟨rc, -, rfl⟩⟩ := step_cases h
  · refine ⟨pc, hpc, fun next' hnext => ?_⟩
    rw [hact]
    exact congrArg some (Sum.inl.inj hnext)
  · refine ⟨pc, hpc, fun next' hnext => ?_⟩
    rw [hact]
    exact congrArg some (Sum.inl.inj hnext)
  · exact ⟨pc, hpc, nofun⟩

/-- **Termination**: with a measure of where a process is, that goes down at each step, it takes
no more steps than that. -/
theorem Proc.steps_le (left : P → ℕ) (Inv : List (Event α E) → Proc P α → Prop)
    (hkeep : ∀ es p t, Inv es p → p.step policy act = some t → Inv (es ++ t.log) t.val)
    (hlt : ∀ es p pc next, Inv es p → p.pc = .inl pc → (act pc).next = some next →
      left next < left pc)
    (hpos : ∀ es p pc, Inv es p → p.pc = .inl pc → 0 < left pc) {n : ℕ} {p : Proc P α} {pc : P}
    (hp : Inv [] p) (hpc : p.pc = .inl pc) {t : Traced (Event α E) (Proc P α)}
    (h : p.steps policy act n = some t) : n ≤ left pc := by
  have hinv : Inv t.log t.val ∧ (List.replicate n ()).length +
      (match t.val.pc with | .inl pc => left pc | .inr _ => 0) ≤ left pc := by
    refine Schedule.exec_inv (fun ls es q => Inv es q ∧ ls.length +
      (match q.pc with | .inl pc => left pc | .inr _ => 0) ≤ left pc) ?_ ⟨hp, ?_⟩ h
    · rintro ls es q _ t' ⟨hq, hle⟩ hstep
      refine ⟨hkeep es q t' hq hstep, ?_⟩
      obtain ⟨qc, hqc, hnext⟩ := step_next hstep
      rw [hqc] at hle
      rw [List.length_append, List.length_singleton]
      dsimp only at hle
      cases hpc' : t'.val.pc with
      | inl next =>
        have := hlt es q qc next hq hqc (hnext next hpc')
        dsimp only
        omega
      | inr rc =>
        have := hpos es q qc hq hqc
        dsimp only
        omega
    · simp [hpc]
  rw [List.length_replicate] at hinv
  omega

/-- A step writes from what there is. -/
theorem Proc.step_written {p : Proc P α} {t : Traced (Event α E) (Proc P α)}
    (h : p.step policy act = some t) :
    writtenIn t.log ++ t.val.buffer = p.buffer ++ printedIn t.log := by
  obtain ⟨pc, -, ⟨text, next, -, rfl⟩ | ⟨e, next, -, rfl⟩ | ⟨rc, -, rfl⟩⟩ := step_cases h
  · simp
  · simp
  · simp

/-- What a run has written and what the buffer holds is what was printed, step by step. -/
theorem Proc.keeps_written {held : List α} {es : List (Event α E)} {p : Proc P α}
    {t : Traced (Event α E) (Proc P α)} (hp : writtenIn es ++ p.buffer = held ++ printedIn es)
    (h : p.step policy act = some t) :
    writtenIn (es ++ t.log) ++ t.val.buffer = held ++ printedIn (es ++ t.log) := by
  rw [writtenIn_append, printedIn_append, List.append_assoc, step_written h,
    ← List.append_assoc, hp, List.append_assoc]

/-- **Nothing is lost or doubled on the way through the buffer.** -/
theorem Proc.written_add_buffer {n : ℕ} {p : Proc P α} {t : Traced (Event α E) (Proc P α)}
    (h : p.steps policy act n = some t) :
    writtenIn t.log ++ t.val.buffer = p.buffer ++ printedIn t.log :=
  Schedule.exec_inv (fun _ es q => writtenIn es ++ q.buffer = p.buffer ++ printedIn es)
    (fun _ _ _ _ _ hq hstep => keeps_written hq hstep) (List.append_nil _).symm h

/-- A step of a process whose stream goes to a file writes blocks, unless it is the last. -/
theorem Proc.step_byBlock {size w : ℕ} {p : Proc P α} {t : Traced (Event α E) (Proc P α)}
    (hw : w = blocks size (w + p.buffer.length)) (h : p.step (byBlock size) act = some t) {pc : P}
    (hpc : t.val.pc = .inl pc) : w + (writtenIn t.log).length =
      blocks size (w + p.buffer.length + (printedIn t.log).length) := by
  rw [blocks_add hw]
  obtain ⟨-, -, ⟨text, next, -, rfl⟩ | ⟨e, next, -, rfl⟩ | ⟨rc, -, rfl⟩⟩ := step_cases h
  · simp only [writtenIn_cons_printed, writtenIn_cons_wrote, writtenIn_nil, List.append_nil,
      printedIn_cons_printed, printedIn_cons_wrote, printedIn_nil, List.length_take, byBlock,
      List.length_append]
    rw [Nat.min_eq_left (blocks_le _ _)]
  · have hnone := blocks_add hw 0
    rw [Nat.add_zero, ← hw] at hnone
    simpa using hnone
  · cases hpc

/-- **A process whose stream goes to a file has written the blocks** of what it held and has
printed, up to its end. -/
theorem Proc.written_byBlock {size n : ℕ} {p : Proc P α} {t : Traced (Event α E) (Proc P α)}
    (hp : blocks size p.buffer.length = 0) (h : p.steps (byBlock size) act n = some t) {pc : P}
    (hpc : t.val.pc = .inl pc) :
    writtenIn t.log = (p.buffer ++ printedIn t.log).take
      (blocks size (p.buffer ++ printedIn t.log).length) := by
  have hinv : writtenIn t.log ++ t.val.buffer = p.buffer ++ printedIn t.log ∧
      ∀ pc, t.val.pc = .inl pc →
        (writtenIn t.log).length = blocks size (p.buffer ++ printedIn t.log).length := by
    refine Schedule.exec_inv (fun _ es q => writtenIn es ++ q.buffer = p.buffer ++ printedIn es ∧
      ∀ pc, q.pc = .inl pc → (writtenIn es).length = blocks size (p.buffer ++ printedIn es).length)
      ?_ ⟨(List.append_nil _).symm, fun _ _ => ?_⟩ h
    · rintro _ es q _ t' ⟨hq, hblocks⟩ hstep
      refine ⟨keeps_written hq hstep, fun pc' hpc' => ?_⟩
      obtain ⟨pc, hpc, -⟩ := step_next hstep
      have hw := hblocks pc hpc
      rw [← hq, List.length_append] at hw
      rw [writtenIn_append, printedIn_append, ← List.append_assoc, ← hq, List.length_append,
        List.length_append, List.length_append]
      exact step_byBlock hw hstep hpc'
    · rw [printedIn_nil, List.append_nil, hp]
      rfl
  rw [← hinv.2 pc hpc, ← hinv.1, List.take_left]

/-- A process that has ended has nothing left to write. -/
theorem Proc.buffer_of_exited {n : ℕ} {p : Proc P α} {t : Traced (Event α E) (Proc P α)} {pc : P}
    {rc : ℤ} (hp : p.pc = .inl pc) (h : p.steps policy act n = some t) (hrc : t.val.pc = .inr rc) :
    t.val.buffer = [] := by
  have hinv : ∀ rc, t.val.pc = .inr rc → t.val.buffer = [] := by
    refine Schedule.exec_inv (fun _ _ (q : Proc P α) => ∀ rc, q.pc = .inr rc → q.buffer = [])
      (fun _ _ q _ t' _ hstep rc' hrc' => ?_) (fun rc hrc => ?_) h
    · obtain ⟨pc, -, ⟨text, next, -, rfl⟩ | ⟨e, next, -, rfl⟩ | ⟨rc, -, rfl⟩⟩ := step_cases hstep
      · cases hrc'
      · cases hrc'
      · rfl
    · rw [hp] at hrc
      cases hrc
  exact hinv rc hrc

/-! ## Several processes -/

section Several

variable [DecidableEq ι] (policy) (acts : ι → P → Act P α E)

/-- One step of the process `i`, if there is one. -/
def step (s : ι → Option (Proc P α)) (i : ι) :
    Option (Traced (ι × Event α E) (ι → Option (Proc P α))) :=
  (s i).bind fun p => (p.step policy (acts i)).map fun t =>
    ⟨Function.update s i (some t.val), t.log.map (Prod.mk i)⟩

/-- What is seen of the process `i`. -/
def own (i : ι) (l : List (ι × Event α E)) : List (Event α E) :=
  l.filterMap fun e => if e.1 = i then some e.2 else none

theorem own_map_self (i : ι) (l : List (Event α E)) : own i (l.map (Prod.mk i)) = l := by
  rw [own, List.filterMap_map]
  simp

theorem own_map_ne {i j : ι} (hij : j ≠ i) (l : List (Event α E)) :
    own i (l.map (Prod.mk j)) = [] := by
  rw [own, List.filterMap_map]
  simp [hij]

variable {policy acts}

/-- **A process does in every interleaving what it does alone**, in as many steps as it gets
there. -/
theorem own_exec {s : ι → Option (Proc P α)} {ls : List ι}
    {t : Traced (ι × Event α E) (ι → Option (Proc P α))}
    (h : Schedule.exec (step policy acts) ls s = some t) {i : ι} {p : Proc P α}
    (hp : s i = some p) : ∃ t', p.steps policy (acts i) (ls.count i) = some t' ∧
      t.val i = some t'.val ∧ own i t.log = t'.log := by
  refine Schedule.exec_inv (fun ls es s => ∃ t', p.steps policy (acts i) (ls.count i) = some t' ∧
    s i = some t'.val ∧ own i es = t'.log) ?_ ⟨⟨p, []⟩, rfl, hp, rfl⟩ h
  rintro ls es s j t₁ ⟨t', hsteps, hi, hown⟩ hstep
  obtain ⟨q, hq, hmap⟩ := Option.bind_eq_some_iff.mp hstep
  obtain ⟨t₂, hstep', rfl⟩ := Option.map_eq_some_iff.mp hmap
  have hownj : own i (es ++ t₂.log.map (Prod.mk j)) = own i es ++ own i (t₂.log.map (Prod.mk j)) :=
    List.filterMap_append
  by_cases hij : j = i
  · subst hij
    obtain rfl := Option.some.inj (hi.symm.trans hq)
    refine ⟨⟨t₂.val, t'.log ++ t₂.log⟩, ?_, ?_, ?_⟩
    · rw [List.count_append, List.count_singleton_self, Proc.steps, List.replicate_add]
      refine Schedule.exec_append hsteps ?_
      rw [List.replicate_one, Schedule.exec, hstep']
      simp [Schedule.exec]
    · exact Function.update_self ..
    · rw [hownj, own_map_self, hown]
  · refine ⟨t', ?_, ?_, ?_⟩
    · rw [List.count_append, List.count_singleton, if_neg (by simpa using hij), Nat.add_zero]
      exact hsteps
    · exact (Function.update_of_ne (Ne.symm hij) _ _).trans hi
    · rw [hownj, own_map_ne hij, List.append_nil, hown]

/-- There is no step of a process that is not there, and none comes to be. -/
theorem count_of_none {s : ι → Option (Proc P α)} {ls : List ι}
    {t : Traced (ι × Event α E) (ι → Option (Proc P α))}
    (h : Schedule.exec (step policy acts) ls s = some t) {i : ι} (hi : s i = none) :
    ls.count i = 0 ∧ t.val i = none := by
  refine Schedule.exec_inv (fun ls _ s => ls.count i = 0 ∧ s i = none) ?_ ⟨rfl, hi⟩ h
  rintro ls es s j t₁ ⟨hcount, hnone⟩ hstep
  obtain ⟨q, hq, hmap⟩ := Option.bind_eq_some_iff.mp hstep
  obtain ⟨t₂, -, rfl⟩ := Option.map_eq_some_iff.mp hmap
  have hij : j ≠ i := by
    rintro rfl
    rw [hnone] at hq
    cases hq
  refine ⟨?_, (Function.update_of_ne (Ne.symm hij) _ _).trans hnone⟩
  rw [List.count_append, hcount, List.count_singleton, if_neg (by simpa using hij)]

end Several

end Stdio
