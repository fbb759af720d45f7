import Mathlib.Data.List.TakeWhile
import StudyTips.Fgets

/-!
# `c/fgets/main.c`: both read loops of the parent

The first loop goes on while the child runs, the second until `fgets` returns `NULL`.
What `fgets` returns is no longer arbitrary here: the child writes its output into
the pipe over time, and each call takes the next line off what is there.

`NULL` may mean that nothing is there yet, and the first loop may be left at its
first iteration on a `chckpid` that was never assigned. `prints_all_iff` says that
this is the only way in which output is lost, and when: the second loop then
takes the next `NULL` for the end of file.
-/

namespace StudyTips

/-! ## The pipe -/

/-- The bytes up to the first newline, with it. -/
def upToNewline : List UInt8 → List UInt8
  | [] => []
  | c :: s => if c = 0x0a then [c] else c :: upToNewline s

/-- What `fgets` with a buffer of 512 bytes takes off the bytes there are. -/
def nextLine (avail : List UInt8) : Option (List UInt8) :=
  if avail = [] then none else some (upToNewline (avail.take 511))

/-- The lines and fragments the first `k` calls of `fgets` return. -/
def fragments (fgets : ℕ → Option (List UInt8)) (k : ℕ) : List (List UInt8) :=
  (List.range k).filterMap fgets

/-- A schedule in which the child writes its output into the pipe and exits, and the calls
of `fgets`, in both loops together, read it off. -/
structure PipeSchedule : Type extends Schedule where
  /-- the reading end is non-blocking -/
  nonblocking : Bool
  /-- all the child writes -/
  output : List UInt8
  /-- how much of the output is in the pipe, or read, when a call of `fgets` returns -/
  written : ℕ → ℕ
  /-- the writing end is closed when a call of `fgets` returns -/
  closed : ℕ → Bool
  /-- the child writes text -/
  no_nul : 0 ∉ output
  /-- what is written stays written -/
  written_mono : ∀ {j k : ℕ}, j ≤ k → written j ≤ written k
  /-- only the output is written -/
  written_le : ∀ k, written k ≤ output.length
  /-- all is written when the writing end is closed -/
  written_of_closed : ∀ k, closed k → written k = output.length
  /-- an exited child has closed the writing end -/
  closed_of_exited : ∀ k, exited k → closed (k + 1)
  /-- a call takes the next line off what is there, or returns `NULL` if nothing is -/
  fgets_eq : ∀ k, fgets k =
    nextLine ((output.take (written k)).drop (fragments fgets k).flatten.length)
  /-- on a blocking pipe a call waits for a full line or buffer, or the end of file -/
  blocks : nonblocking = false → ∀ k, closed k = false →
    ∃ line, fgets k = some line ∧ (line.length = 511 ∨ line.getLast? = some 0x0a)

/-! ## The parent -/

variable (sch : PipeSchedule)

/-- Where the parent is: at the head of the first loop, or at that of the second with the
number of the next call of `fgets`. -/
abbrev ParentState : Type := ReadState ⊕ ℕ

/-- One turn of either loop; leaving the first enters the second. -/
def parentTurn : ParentState → Traced ReadEvent (ParentState ⊕ Unit)
  | .inl s => do
    match ← readTurn sch.toSchedule s with
    | .inl s' => pure (.inl (.inl s'))
    | .inr _ => pure (.inl (.inr (s.k + 1)))
  | .inr k => do
    match sch.fgets k with
    | none => pure (.inr ()) -- break
    | some line => do
      .emit (.printed (upToNul line))
      -- the test `szLine != NULL` holds
      pure (.inl (.inr (k + 1)))

/-- The parent, from the first loop to its end. -/
def parent (fuel : ℕ) : Traced ReadEvent (Option Unit) :=
  Loop.run (parentTurn sch) fuel (.inl (ReadState.start sch.toSchedule))

/-- What a line event prints. -/
def ReadEvent.printed? : ReadEvent → Option (List UInt8)
  | .printed line => some line
  | .tested .. => none

/-- What a log prints. -/
def printedLines (log : List ReadEvent) : List (List UInt8) := log.filterMap ReadEvent.printed?

/-- Every run of the parent that reaches its end has printed what the calls of `fgets` up to
the last one returned, each once and in order, and that is all of the child's output. -/
def PrintsAll : Prop :=
  ∀ fuel, (parent sch fuel).val.isSome →
    (∃ n, sch.fgets n = none ∧ printedLines (parent sch fuel).log = fragments sch.fgets n) ∧
      (printedLines (parent sch fuel).log).flatten = sch.output

/-! ## Reading off -/

theorem upToNewline_isPrefix : ∀ s : List UInt8, upToNewline s <+: s
  | [] => List.prefix_rfl
  | c :: s => by
    rw [upToNewline]
    split
    next => exact ⟨s, rfl⟩
    next => exact (List.cons_prefix_cons).mpr ⟨rfl, upToNewline_isPrefix s⟩

theorem nextLine_eq_none {avail : List UInt8} : nextLine avail = none ↔ avail = [] := by
  rw [nextLine]
  split
  next h => exact iff_of_true rfl h
  next h => exact iff_of_false (Option.some_ne_none _) h

theorem nextLine_isPrefix {avail line : List UInt8} (h : nextLine avail = some line) :
    line <+: avail := by
  rw [nextLine] at h
  split at h
  next => cases h
  next =>
    obtain rfl := Option.some.inj h
    exact (upToNewline_isPrefix _).trans (List.take_prefix _ _)

theorem fragments_succ (fgets : ℕ → Option (List UInt8)) (k : ℕ) :
    fragments fgets (k + 1) = fragments fgets k ++ (fgets k).toList := by
  rw [fragments, List.range_succ, List.filterMap_append, ← fragments]
  cases h : fgets k with
  | none => simp [h]
  | some line => simp [h]

namespace PipeSchedule

variable {sch}

/-- **What has been read off is the output as far as it goes**, and no more than has been
written. -/
theorem flatten_fragments (k : ℕ) :
    (fragments sch.fgets k).flatten <+: sch.output ∧
      (fragments sch.fgets k).flatten.length ≤ sch.written k := by
  induction k with
  | zero => exact ⟨List.nil_prefix, Nat.zero_le _⟩
  | succ k ih =>
    obtain ⟨hpre, hle⟩ := ih
    have hmono : sch.written k ≤ sch.written (k + 1) := sch.written_mono (Nat.le_succ k)
    rw [fragments_succ, List.flatten_append]
    cases h : sch.fgets k with
    | none =>
      rw [Option.toList_none, List.flatten_nil, List.append_nil]
      exact ⟨hpre, Nat.le_trans hle hmono⟩
    | some line =>
      -- the line is a prefix of what is there behind what has been read off
      have hline : line <+: (sch.output.take (sch.written k)).drop
          (fragments sch.fgets k).flatten.length := nextLine_isPrefix (by rw [← sch.fgets_eq, h])
      have hread : (fragments sch.fgets k).flatten =
          (sch.output.take (sch.written k)).take (fragments sch.fgets k).flatten.length := by
        rw [List.take_take, Nat.min_eq_left hle]
        exact List.prefix_iff_eq_take.mp hpre
      have hwritten : (fragments sch.fgets k).flatten ++ line <+:
          sch.output.take (sch.written k) := by
        have happend := (List.prefix_append_right_inj (fragments sch.fgets k).flatten).mpr hline
        rwa [(congrArg (· ++ _) hread).trans (List.take_append_drop _ _)] at happend
      have hlen := hwritten.length_le
      rw [Option.toList_some, List.flatten_singleton]
      rw [List.length_take] at hlen
      exact ⟨hwritten.trans (List.take_prefix _ _), by omega⟩

/-- Nothing of a line is left out when it is printed. -/
theorem upToNul_eq {k : ℕ} {line : List UInt8} (h : sch.fgets k = some line) :
    upToNul line = line := by
  have hline : line <:+: sch.output := by
    obtain ⟨hpre, -⟩ := sch.flatten_fragments (k + 1)
    rw [fragments_succ, h, List.flatten_append, Option.toList_some, List.flatten_singleton] at hpre
    exact (List.suffix_append _ line).isInfix.trans hpre.isInfix
  refine List.takeWhile_eq_self_iff.mpr fun c hc => decide_eq_true ?_
  rintro rfl
  exact sch.no_nul (hline.subset hc)

/-- **At a `NULL` everything that has been written has been read**; so it is the whole output
exactly when all has been written. -/
theorem flatten_fragments_of_null {n : ℕ} (h : sch.fgets n = none) :
    (fragments sch.fgets n).flatten = sch.output ↔ sch.written n = sch.output.length := by
  obtain ⟨hpre, hle⟩ := sch.flatten_fragments n
  rw [sch.fgets_eq, nextLine_eq_none, List.drop_eq_nil_iff, List.length_take] at h
  have hwritten := sch.written_le n
  refine ⟨fun heq => ?_, fun hall => ?_⟩
  · rw [heq] at hle
    exact Nat.le_antisymm hwritten hle
  · exact hpre.eq_of_length_le (by omega)

/-- On a blocking pipe `NULL` is the end of file. -/
theorem written_of_null_of_blocking (hblock : sch.nonblocking = false) {n : ℕ}
    (h : sch.fgets n = none) : sch.written n = sch.output.length := by
  cases hclosed : sch.closed n with
  | true => exact sch.written_of_closed n hclosed
  | false =>
    obtain ⟨line, hline, -⟩ := sch.blocks hblock n hclosed
    rw [h] at hline
    cases hline

/-- Once the child has been seen to have exited, all is written at every later call. -/
theorem written_of_exited {j n : ℕ} (h : sch.exited j) (hjn : j < n) :
    sch.written n = sch.output.length := by
  have hexited : sch.exited (n - 1) := sch.exited_mono (by omega) h
  have hclosed := sch.closed_of_exited (n - 1) hexited
  rw [Nat.sub_add_cancel (by omega)] at hclosed
  exact sch.written_of_closed n hclosed

end PipeSchedule

/-! ## Turns -/

variable {sch}

/-- How many calls of `fgets` are behind. -/
def ParentState.calls : ParentState → ℕ
  | .inl s => s.k
  | .inr k => k

/-- A turn of the first loop that reads a line leaves it when the child has exited. -/
theorem parentTurn_inl_line {s : ReadState} {line : List UInt8} (h : sch.fgets s.k = some line) :
    parentTurn sch (.inl s) =
      ⟨.inl (if sch.exited s.k then .inr (s.k + 1) else .inl ⟨s.k + 1, ⟨0, some s.k⟩⟩),
      [.printed (upToNul line), .tested s.k (some s.k)]⟩ := by
  cases hexited : sch.exited s.k with
  | true =>
    exact Traced.ext (by simp [parentTurn, readTurn_line h, hexited])
      (by simp [parentTurn, readTurn_line h, hexited])
  | false =>
    exact Traced.ext (by simp [parentTurn, readTurn_line h, hexited])
      (by simp [parentTurn, readTurn_line h, hexited])

/-- A turn that reads nothing leaves it when it finds something else than zero. -/
theorem parentTurn_inl_null {s : ReadState} (h : sch.fgets s.k = none) :
    parentTurn sch (.inl s) =
      ⟨.inl (if s.chckpid.val = 0 then .inl ⟨s.k + 1, s.chckpid⟩ else .inr (s.k + 1)),
      [.tested s.k s.chckpid.source]⟩ := by
  by_cases hval : s.chckpid.val = 0
  · exact Traced.ext (by simp [parentTurn, readTurn_null h, hval])
      (by simp [parentTurn, readTurn_null h, hval])
  · exact Traced.ext (by simp [parentTurn, readTurn_null h, hval])
      (by simp [parentTurn, readTurn_null h, hval])

theorem parentTurn_inr_line {k : ℕ} {line : List UInt8} (h : sch.fgets k = some line) :
    parentTurn sch (.inr k) = ⟨.inl (.inr (k + 1)), [.printed (upToNul line)]⟩ :=
  Traced.ext (by simp [parentTurn, h]) (by simp [parentTurn, h])

theorem parentTurn_inr_null {k : ℕ} (h : sch.fgets k = none) :
    parentTurn sch (.inr k) = ⟨.inr (), []⟩ :=
  Traced.ext (by simp [parentTurn, h]) (by simp [parentTurn, h])

/-- **What a turn that goes round can do**: read a line in the first loop and ask, read nothing
there, or read a line in the second. -/
theorem parentTurn_inl {x x' : ParentState} (h : (parentTurn sch x).val = .inl x') :
    (∃ s line, x = .inl s ∧ sch.fgets s.k = some line ∧
      x' = if sch.exited s.k then .inr (s.k + 1) else .inl ⟨s.k + 1, ⟨0, some s.k⟩⟩) ∨
    (∃ s, x = .inl s ∧ sch.fgets s.k = none ∧
      x' = if s.chckpid.val = 0 then .inl ⟨s.k + 1, s.chckpid⟩ else .inr (s.k + 1)) ∨
    ∃ k line, x = .inr k ∧ sch.fgets k = some line ∧ x' = .inr (k + 1) := by
  rcases x with s | k
  · cases hfgets : sch.fgets s.k with
    | none =>
      rw [parentTurn_inl_null hfgets] at h
      exact .inr (.inl ⟨s, rfl, hfgets, (Sum.inl.inj h).symm⟩)
    | some line =>
      rw [parentTurn_inl_line hfgets] at h
      exact .inl ⟨s, line, rfl, hfgets, (Sum.inl.inj h).symm⟩
  · cases hfgets : sch.fgets k with
    | none =>
      rw [parentTurn_inr_null hfgets] at h
      cases h
    | some line =>
      rw [parentTurn_inr_line hfgets] at h
      exact .inr (.inr ⟨k, line, rfl, hfgets, (Sum.inl.inj h).symm⟩)

/-- The parent ends in the second loop, at a `NULL`. -/
theorem parentTurn_inr {x : ParentState} (h : (parentTurn sch x).val = .inr ()) :
    ∃ n, x = .inr n ∧ sch.fgets n = none := by
  rcases x with s | k
  · cases hfgets : sch.fgets s.k with
    | none =>
      rw [parentTurn_inl_null hfgets] at h
      cases h
    | some line =>
      rw [parentTurn_inl_line hfgets] at h
      cases h
  · cases hfgets : sch.fgets k with
    | none => exact ⟨k, rfl, hfgets⟩
    | some line =>
      rw [parentTurn_inr_line hfgets] at h
      cases h

/-- **A turn makes one call of `fgets`, and prints what it returns.** -/
theorem parentTurn_printed {x x' : ParentState} (h : (parentTurn sch x).val = .inl x') :
    printedLines (parentTurn sch x).log = (sch.fgets x.calls).toList ∧ x'.calls = x.calls + 1 := by
  rcases parentTurn_inl h with ⟨s, line, rfl, hfgets, rfl⟩ | ⟨s, rfl, hfgets, rfl⟩ |
      ⟨k, line, rfl, hfgets, rfl⟩
  · rw [parentTurn_inl_line hfgets, sch.upToNul_eq hfgets, ParentState.calls, hfgets]
    exact ⟨rfl, by split <;> rfl⟩
  · rw [parentTurn_inl_null hfgets, ParentState.calls, hfgets]
    exact ⟨rfl, by split <;> rfl⟩
  · rw [parentTurn_inr_line hfgets, sch.upToNul_eq hfgets, ParentState.calls, hfgets]
    exact ⟨rfl, rfl⟩

/-! ## Runs -/

theorem printed_append (log log' : List ReadEvent) :
    printedLines (log ++ log') = printedLines log ++ printedLines log' := List.filterMap_append

/-- **What a run to the end prints**: what the calls from its start to the `NULL` it ends at
return. In the second loop that is the first `NULL`. -/
theorem printed_trail {x : ParentState} {ss : List ParentState} {r : Unit}
    (h : Loop.Trail (parentTurn sch) x ss r) :
    ∃ n, sch.fgets n = none ∧ x.calls ≤ n ∧ .inr n ∈ ss ∧
      fragments sch.fgets x.calls ++ printedLines (ss.flatMap fun y => (parentTurn sch y).log) =
        fragments sch.fgets n ∧
      ∀ k, x = .inr k → ∀ j, k ≤ j → j < n → sch.fgets j ≠ none := by
  induction h with
  | leave hturn =>
    obtain ⟨n, rfl, hnull⟩ := parentTurn_inr hturn
    refine ⟨n, hnull, Nat.le_refl n, List.mem_singleton_self _, ?_, fun k hk j hj hjn => ?_⟩
    · rw [List.flatMap_cons, List.flatMap_nil, List.append_nil, parentTurn_inr_null hnull]
      exact List.append_nil _
    · obtain rfl := Sum.inr.inj hk
      exact absurd hj (Nat.not_le.mpr hjn)
  | @round x x' ss r hturn htail ih =>
    obtain ⟨n, hnull, hle, hmem, hprinted, hfirst⟩ := ih
    obtain ⟨hline, hcalls⟩ := parentTurn_printed hturn
    rw [hcalls] at hle hprinted
    refine ⟨n, hnull, Nat.le_of_succ_le hle, List.mem_cons_of_mem _ hmem, ?_,
      fun k hk j hj hjn => ?_⟩
    · rw [List.flatMap_cons, printed_append, hline, ← List.append_assoc, ← fragments_succ,
        hprinted]
    · -- a turn of the second loop that goes round has read a line
      subst hk
      obtain ⟨s, line, hs, -⟩ | ⟨s, hs, -⟩ | ⟨k', line, hk, hfgets, rfl⟩ := parentTurn_inl hturn
      · cases hs
      · cases hs
      · obtain rfl := Sum.inr.inj hk
        rcases Nat.eq_or_lt_of_le hj with rfl | hlt
        · rw [hfgets]
          exact Option.some_ne_none _
        · exact hfirst (k + 1) rfl j hlt hjn

/-- The second loop ends at the first `NULL`. -/
theorem exists_trail_leftover {k n : ℕ} (hkn : k ≤ n) (hnull : sch.fgets n = none)
    (hlines : ∀ j, k ≤ j → j < n → sch.fgets j ≠ none) :
    ∃ ss, Loop.Trail (parentTurn sch) (.inr k) ss () := by
  obtain ⟨d, rfl⟩ := Nat.exists_eq_add_of_le hkn
  induction d generalizing k with
  | zero =>
    rw [Nat.add_zero] at hnull
    refine ⟨_, .leave ?_⟩
    rw [parentTurn_inr_null hnull]
  | succ d ih =>
    obtain ⟨line, hline⟩ := Option.ne_none_iff_exists'.mp (hlines k (Nat.le_refl k) (by omega))
    rw [show k + (d + 1) = k + 1 + d by omega] at hnull hlines
    obtain ⟨ss, htail⟩ := ih (Nat.le_add_right _ d) hnull
      fun j hj hjn => hlines j (Nat.le_of_succ_le hj) hjn
    refine ⟨_, .round ?_ htail⟩
    rw [parentTurn_inr_line hline]

/-- The first loop can only be left by a child that has exited: it reads a line at its next
turn, or finds a zero. In the second loop such a child has written all. -/
def LeavesByExit (sch : PipeSchedule) : ParentState → Prop
  | .inl s => s.chckpid.val = 0 ∨ sch.fgets s.k ≠ none
  | .inr k => ∀ n ≥ k, sch.written n = sch.output.length

/-- **A turn of the first loop hands on that it is left by exit only.** -/
theorem LeavesByExit.round (x x' : ParentState) (h : LeavesByExit sch x)
    (hturn : (parentTurn sch x).val = .inl x') : LeavesByExit sch x' := by
  rcases parentTurn_inl hturn with ⟨s, line, rfl, hfgets, rfl⟩ | ⟨s, rfl, hfgets, rfl⟩ |
      ⟨k, line, rfl, hfgets, rfl⟩
  · split
    next hexited => exact fun n hn => sch.written_of_exited hexited hn
    next => exact .inl rfl
  · have hval : s.chckpid.val = 0 := h.resolve_right fun hne => hne hfgets
    rw [if_pos hval]
    exact .inl hval
  · exact fun n hn => h n (Nat.le_of_succ_le hn)

/-- The parent has nothing read and finds something in `chckpid` that nobody assigned. -/
def LeavesUnread (sch : PipeSchedule) : Prop := sch.fgets 0 = none ∧ sch.unassigned ≠ 0

/-- The second loop, entered at once, meets its first `NULL` when all has been written. -/
def CatchesUp (sch : PipeSchedule) : Prop :=
  ∀ n ≥ 1, sch.fgets n = none → (∀ j, 1 ≤ j → j < n → sch.fgets j ≠ none) →
    sch.written n = sch.output.length

/-- A run that leaves the first loop unread is in the second from the first call on. -/
theorem parentTurn_start (h : LeavesUnread sch) :
    parentTurn sch (.inl (ReadState.start sch.toSchedule)) = ⟨.inl (.inr 1), [.tested 0 none]⟩ := by
  have hnull : sch.fgets (ReadState.start sch.toSchedule).k = none := h.1
  have hval : (ReadState.start sch.toSchedule).chckpid.val ≠ 0 := h.2
  rw [parentTurn_inl_null hnull, if_neg hval]
  rfl

/-- A run that does not leave output unread is left by exit only. -/
theorem leavesByExit_start (h : ¬ LeavesUnread sch) :
    LeavesByExit sch (.inl (ReadState.start sch.toSchedule)) := by
  by_cases hval : sch.unassigned = 0
  · exact .inl hval
  · exact .inr fun hnull => h ⟨hnull, hval⟩

/-- **What a run of the parent to its end prints**: what the calls before the `NULL` it ends at
return. If it has left the first loop unread, that is the first `NULL` since; else
all has been written by then. -/
theorem parent_ends {fuel : ℕ} (hend : (parent sch fuel).val.isSome) :
    ∃ n, sch.fgets n = none ∧ printedLines (parent sch fuel).log = fragments sch.fgets n ∧
      (LeavesUnread sch → 1 ≤ n ∧ ∀ j, 1 ≤ j → j < n → sch.fgets j ≠ none) ∧
      (¬ LeavesUnread sch → sch.written n = sch.output.length) := by
  obtain ⟨ss, htrail, hlen⟩ := Loop.exists_trail (Option.eq_some_of_isSome hend)
  have hlog : (parent sch fuel).log = ss.flatMap fun x => (parentTurn sch x).log := by
    rw [parent, htrail.run hlen]
  by_cases hunread : LeavesUnread sch
  · -- the first turn prints nothing
    have hstart := parentTurn_start hunread
    obtain ⟨ss', rfl, htail⟩ := htrail.of_inl (congrArg Traced.val hstart)
    obtain ⟨n, hnull, hle, -, hprinted, hfirst⟩ := printed_trail htail
    have hnone : fragments sch.fgets (ParentState.calls (.inr 1)) = [] := by
      rw [ParentState.calls, fragments_succ, hunread.1]
      rfl
    rw [hnone, List.nil_append] at hprinted
    refine ⟨n, hnull, ?_, fun _ => ⟨hle, hfirst 1 rfl⟩, fun hnot => absurd hunread hnot⟩
    rw [hlog, List.flatMap_cons, hstart, printed_append, hprinted]
    rfl
  · obtain ⟨n, hnull, -, hmem, hprinted, -⟩ := printed_trail htrail
    have hexit := htrail.forall_mem LeavesByExit.round (leavesByExit_start hunread) _ hmem
    refine ⟨n, hnull, ?_, fun h => absurd h hunread, fun _ => hexit n (Nat.le_refl n)⟩
    rw [hlog, ← hprinted]
    rfl

/-- **The parent prints all of the child's output in every run that ends, exactly unless it
leaves the first loop unread and does not catch up in the second.** -/
theorem prints_all_iff (sch : PipeSchedule) :
    PrintsAll sch ↔ (LeavesUnread sch → CatchesUp sch) := by
  refine ⟨fun h hunread n hn hnull hfirst => ?_, fun h fuel hend => ?_⟩
  · -- there is a run through the second loop up to its first `NULL`
    obtain ⟨ss, htail⟩ := exists_trail_leftover hn hnull hfirst
    have htrail : Loop.Trail (parentTurn sch) (.inl (ReadState.start sch.toSchedule)) _ () :=
      .round (by rw [parentTurn_start hunread]) htail
    have hend : (parent sch (ss.length + 1)).val.isSome := by
      rw [parent, htrail.run (show _ ≤ ss.length + 1 from Nat.le_refl _)]
      rfl
    obtain ⟨n', hnull', hprinted, hsince, -⟩ := parent_ends hend
    obtain ⟨hn', hfirst'⟩ := hsince hunread
    obtain rfl : n' = n := by
      rcases Nat.lt_trichotomy n' n with hlt | heq | hgt
      · exact absurd hnull' (hfirst n' hn' hlt)
      · exact heq
      · exact absurd hnull (hfirst' n hn hgt)
    obtain ⟨-, hall⟩ := h _ hend
    rw [hprinted] at hall
    exact (sch.flatten_fragments_of_null hnull).mp hall
  · obtain ⟨n, hnull, hprinted, hsince, hexit⟩ := parent_ends hend
    refine ⟨⟨n, hnull, hprinted⟩, ?_⟩
    rw [hprinted, sch.flatten_fragments_of_null hnull]
    by_cases hunread : LeavesUnread sch
    · obtain ⟨hn, hfirst⟩ := hsince hunread
      exact h hunread n hn hnull hfirst
    · exact hexit hunread

/-- On a blocking pipe nothing is lost. -/
theorem prints_all_of_blocking (hblock : sch.nonblocking = false) : PrintsAll sch := by
  intro fuel hend
  obtain ⟨n, hnull, hprinted, -⟩ := parent_ends hend
  refine ⟨⟨n, hnull, hprinted⟩, ?_⟩
  rw [hprinted, sch.flatten_fragments_of_null hnull]
  exact sch.written_of_null_of_blocking hblock hnull

/-- Calls of `fgets` of which the third reads the only line. -/
def thirdLine : ℕ → Option (List UInt8)
  | 2 => some [0x68, 0x69, 0x0a]
  | _ => none

theorem fragments_thirdLine (k : ℕ) : fragments thirdLine (k + 3) = [[0x68, 0x69, 0x0a]] := by
  induction k with
  | zero => rfl
  | succ k ih =>
    rw [show k + 1 + 3 = k + 3 + 1 by omega, fragments_succ, ih]
    rfl

/-- A child that writes one line after the parent has looked twice, and exits. -/
def lateLine : PipeSchedule where
  fgets := thirdLine
  exited
    | 0 | 1 => false
    | _ + 2 => true
  waitpid
    | 0 | 1 => 0
    | _ + 2 => 4711
  unassigned := 1
  exited_mono {j k} hle hj := by
    match j, k with
    | 0, _ | 1, _ => cases hj
    | _ + 2, 0 => exact absurd hle (Nat.not_succ_le_zero _)
    | _ + 2, 1 => exact absurd (Nat.le_of_succ_le_succ hle) (Nat.not_succ_le_zero _)
    | _ + 2, _ + 2 => rfl
  waitpid_eq_zero
    | 0 | 1 => by decide
    | _ + 2 => by simp
  nonblocking := true
  output := [0x68, 0x69, 0x0a]
  written
    | 0 | 1 => 0
    | _ + 2 => 3
  closed
    | 0 | 1 | 2 => false
    | _ + 3 => true
  no_nul := by decide
  written_mono {j k} hle := by
    match j, k with
    | 0, _ | 1, _ => exact Nat.zero_le _
    | _ + 2, 0 => exact absurd hle (Nat.not_succ_le_zero _)
    | _ + 2, 1 => exact absurd (Nat.le_of_succ_le_succ hle) (Nat.not_succ_le_zero _)
    | _ + 2, _ + 2 => exact Nat.le_refl 3
  written_le
    | 0 | 1 => Nat.zero_le _
    | _ + 2 => Nat.le_refl 3
  written_of_closed
    | 0 | 1 | 2 => by simp
    | _ + 3 => fun _ => rfl
  closed_of_exited
    | 0 | 1 => by simp
    | _ + 2 => fun _ => rfl
  fgets_eq
    | 0 | 1 | 2 => by decide
    | k + 3 => by
      rw [fragments_thirdLine]
      rfl
  blocks h := by cases h

/-- The parent leaves the first loop at once, and has seen nothing when it ends. -/
theorem lateLine_lost : ¬ PrintsAll lateLine := by
  intro h
  have hall := (h 2 (by decide)).2
  exact absurd hall (by decide)

end StudyTips
