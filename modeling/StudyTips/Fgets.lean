import Mathlib.Data.Int.Notation
import StudyTips.Loop

/-!
# `c/fgets/main.c`: the first read loop of the parent

The parent reads lines from the child and asks after each line whether the child
still runs. At the end of file, and when there is no data on a non-blocking pipe,
`continue` goes to the test of the `do`-`while` without asking, and the test looks
at what an earlier iteration, or nobody, has left in `chckpid`. The value carries
the iteration whose `waitpid` produced it, so that the log of decisions shows how
old it is.

`decides_freshly_iff` says for which schedules of the system this never shows;
`stuck_of_eof` says that otherwise the loop does not end at all.
-/

namespace StudyTips

/-! ## The loop -/

/-- What the system does in each iteration of the loop. -/
structure Schedule : Type where
  /-- what `fgets` reads, `none` for `NULL` -/
  fgets : ℕ → Option (List UInt8)
  /-- the child has exited when the iteration would call `waitpid` -/
  exited : ℕ → Bool
  /-- what `waitpid` returns, if the iteration calls it -/
  waitpid : ℕ → ℤ
  /-- what `chckpid` holds before it is assigned -/
  unassigned : ℤ
  /-- a child that has exited stays so -/
  exited_mono : ∀ {j k : ℕ}, j ≤ k → exited j → exited k
  /-- `waitpid` with `WNOHANG` returns zero while the child runs -/
  waitpid_eq_zero : ∀ k, waitpid k = 0 ↔ exited k = false

/-- A value of `chckpid`. -/
structure Chckpid : Type where
  /-- the value of `chckpid` -/
  val : ℤ
  /-- the iteration whose `waitpid` produced the value, `none` if `chckpid` was never assigned -/
  source : Option ℕ

/-- What the loop does. -/
inductive ReadEvent : Type where
  /-- a line is printed -/
  | printed (line : List UInt8)
  /-- iteration `k` decides whether to go round again, on a value from `source` -/
  | tested (k : ℕ) (source : Option ℕ)
  deriving DecidableEq

/-- The state at the head of the loop. -/
structure ReadState : Type where
  /-- the number of the iteration -/
  k : ℕ
  /-- `chckpid` -/
  chckpid : Chckpid

variable (sch : Schedule)

/-- What `%s` prints of a line: the bytes before the first NUL. -/
def upToNul (line : List UInt8) : List UInt8 := line.takeWhile fun c => c ≠ 0

/-- One turn of the loop; it leaves with `chckpid`. -/
def readTurn (s : ReadState) : Traced ReadEvent (ReadState ⊕ Chckpid) := do
  let chckpid ← match sch.fgets s.k with
    | none => pure s.chckpid -- continue
    | some line => do
      .emit (.printed (upToNul line))
      pure ⟨sch.waitpid s.k, some s.k⟩
  .emit (.tested s.k chckpid.source)
  if chckpid.val = 0 then pure (.inl ⟨s.k + 1, chckpid⟩)
  else pure (.inr chckpid)

/-- The state before the loop. -/
def ReadState.start : ReadState := ⟨0, ⟨sch.unassigned, none⟩⟩

/-- The loop. -/
def readLoop (fuel : ℕ) : Traced ReadEvent (Option Chckpid) :=
  Loop.run (readTurn sch) fuel (ReadState.start sch)

/-! ## One turn -/

variable {sch}

/-- A turn that reads a line decides on its own `waitpid`. -/
theorem readTurn_line {s : ReadState} {line : List UInt8} (h : sch.fgets s.k = some line) :
    readTurn sch s =
      ⟨if sch.exited s.k then .inr ⟨sch.waitpid s.k, some s.k⟩
        else .inl ⟨s.k + 1, ⟨0, some s.k⟩⟩,
      [.printed (upToNul line), .tested s.k (some s.k)]⟩ := by
  have hzero := sch.waitpid_eq_zero s.k
  cases hexited : sch.exited s.k with
  | false =>
    have hwait : sch.waitpid s.k = 0 := hzero.mpr hexited
    exact Traced.ext (by simp [readTurn, h, hwait]) (by simp [readTurn, h, hwait])
  | true =>
    have hwait : sch.waitpid s.k ≠ 0 := fun hw => by
      rw [hzero.mp hw] at hexited
      cases hexited
    exact Traced.ext (by simp [readTurn, h, hwait]) (by simp [readTurn, h, hwait])

/-- A turn that reads nothing decides on what was there before. -/
theorem readTurn_null {s : ReadState} (h : sch.fgets s.k = none) :
    readTurn sch s =
      ⟨if s.chckpid.val = 0 then .inl ⟨s.k + 1, s.chckpid⟩ else .inr s.chckpid,
      [.tested s.k s.chckpid.source]⟩ := by
  by_cases hval : s.chckpid.val = 0
  · exact Traced.ext (by simp [readTurn, h, hval]) (by simp [readTurn, h, hval])
  · exact Traced.ext (by simp [readTurn, h, hval]) (by simp [readTurn, h, hval])

/-! ## Runs -/

/-- The iterations before `k` all read a line and find the child running: the loop
comes to iteration `k` without having met a `NULL`. -/
def LinesUntil (sch : Schedule) (k : ℕ) : Prop :=
  ∀ j < k, sch.fgets j ≠ none ∧ sch.exited j = false

/-- As long as lines come from a running child, the loop comes to every iteration, and
the last one has asked. -/
theorem reaches_of_linesUntil {k : ℕ} (h : LinesUntil sch k) :
    ∃ s, Loop.Reaches (readTurn sch) (ReadState.start sch) s ∧ s.k = k ∧
      s.chckpid.source ≠ some k := by
  induction k with
  | zero => exact ⟨_, .refl, rfl, Ne.symm (Option.some_ne_none 0)⟩
  | succ k ih =>
    obtain ⟨s, hreach, rfl, -⟩ := ih fun j hj => h j (Nat.lt_succ_of_lt hj)
    obtain ⟨hline, hrunning⟩ := h s.k (Nat.lt_succ_self _)
    obtain ⟨line, hline⟩ := Option.ne_none_iff_exists'.mp hline
    refine ⟨⟨s.k + 1, ⟨0, some s.k⟩⟩, hreach.tail ?_, rfl, ?_⟩
    · rw [readTurn_line hline, hrunning]
      rfl
    · simp

/-- Every decision is made on a value from a `waitpid` of the same iteration. -/
def DecidesFreshly (sch : Schedule) : Prop :=
  ∀ fuel k source, .tested k source ∈ (readLoop sch fuel).log → source = some k

/-- From every state the loop comes to in which the child has exited and `fgets` returns
`NULL` from then on, it ends. -/
def EndsAfterExit (sch : Schedule) : Prop :=
  ∀ s, Loop.Reaches (readTurn sch) (ReadState.start sch) s →
    sch.exited s.k → (∀ j ≥ s.k, sch.fgets j = none) →
    ∃ fuel, (Loop.run (readTurn sch) fuel s).val.isSome

/-- Every iteration the loop comes to reads a line. -/
def AlwaysLines (sch : Schedule) : Prop := ∀ k, LinesUntil sch k → sch.fgets k ≠ none

/-- Where every iteration reads a line, the next one is come to by lines only. -/
theorem AlwaysLines.round (h : AlwaysLines sch) (s s' : ReadState) (hs : LinesUntil sch s.k)
    (hturn : (readTurn sch s).val = .inl s') : LinesUntil sch s'.k := by
  obtain ⟨line, hline⟩ := Option.ne_none_iff_exists'.mp (h s.k hs)
  rw [readTurn_line hline] at hturn
  cases hexited : sch.exited s.k with
  | true =>
    rw [hexited] at hturn
    cases hturn
  | false =>
    rw [hexited] at hturn
    obtain rfl := Sum.inl.inj hturn
    intro j hj
    rcases Nat.lt_succ_iff_lt_or_eq.mp hj with hlt | rfl
    · exact hs j hlt
    · exact ⟨h s.k hs, hexited⟩

/-- **The loop decides freshly, and ends after the child has, exactly when no iteration
it comes to reads a `NULL`.** -/
theorem decides_freshly_iff (sch : Schedule) :
    (DecidesFreshly sch ∧ (∀ fuel k source, .tested k source ∈ (readLoop sch fuel).log →
        source ≠ none) ∧ EndsAfterExit sch) ↔ AlwaysLines sch := by
  refine ⟨?_, ?_⟩
  · rintro ⟨hfresh, -, -⟩ k hk hnull
    -- at a `NULL` the test finds what an earlier iteration has left, or nobody
    obtain ⟨s, hreach, rfl, hstale⟩ := reaches_of_linesUntil hk
    have htested : .tested s.k s.chckpid.source ∈ (readTurn sch s).log := by
      rw [readTurn_null hnull]
      exact List.mem_singleton_self _
    obtain ⟨fuel, hmem⟩ := hreach.mem_log htested
    exact hstale (hfresh fuel s.k _ hmem)
  · intro hlines
    have hstart : LinesUntil sch (ReadState.start sch).k := fun j hj => absurd hj (Nat.not_lt_zero j)
    have hfresh : DecidesFreshly sch := by
      intro fuel k source hmem
      refine Loop.all_run (P := fun e => ∀ k source, e = .tested k source → source = some k)
        ?_ hlines.round fuel hstart _ hmem k source rfl
      intro s hs e he k source heq
      obtain ⟨line, hline⟩ := Option.ne_none_iff_exists'.mp (hlines s.k hs)
      rw [readTurn_line hline] at he
      rcases List.mem_cons.mp he with rfl | he
      · cases heq
      · obtain rfl := List.mem_singleton.mp he
        obtain ⟨rfl, rfl⟩ := ReadEvent.tested.inj heq
        rfl
    refine ⟨hfresh, fun fuel k source hmem => ?_, fun s hreach _ hnull => ?_⟩
    · rw [hfresh fuel k source hmem]
      exact Option.some_ne_none k
    · -- the end of file is never come to
      exact absurd (hnull s.k (Nat.le_refl _)) (hlines s.k (hreach.inv hlines.round hstart))

/-- **Once `fgets` returns only `NULL`, a loop that has gone round never ends**: it goes on
testing the zero it has kept. -/
theorem stuck_of_eof {s : ReadState} (hval : s.chckpid.val = 0)
    (hnull : ∀ j ≥ s.k, sch.fgets j = none) (fuel : ℕ) :
    (Loop.run (readTurn sch) fuel s).val = none := by
  have hround : ∀ x : ReadState, x.chckpid.val = 0 ∧ s.k ≤ x.k →
      ∃ x', (readTurn sch x).val = .inl x' ∧ x'.chckpid.val = 0 ∧ s.k ≤ x'.k := by
    rintro x ⟨hx, hk⟩
    refine ⟨⟨x.k + 1, x.chckpid⟩, ?_, hx, Nat.le_succ_of_le hk⟩
    rw [readTurn_null (hnull x.k hk)]
    exact if_pos hx
  exact Loop.run_eq_none hround fuel ⟨hval, Nat.le_refl _⟩

/-- A child that prints one line and exits: the parent reads the line while the child
runs, and the end of file from then on. -/
def oneLine : Schedule where
  fgets
    | 0 => some [0x68, 0x69, 0x0a]
    | _ + 1 => none
  exited
    | 0 => false
    | _ + 1 => true
  waitpid
    | 0 => 0
    | _ + 1 => 4711
  unassigned := 0
  exited_mono {j k} hle hj := by
    cases k with
    | zero => rwa [Nat.le_zero.mp hle] at hj
    | succ k => rfl
  waitpid_eq_zero
    | 0 => by decide
    | _ + 1 => by simp

/-- The parent decides on a stale value, and never ends. -/
theorem oneLine_stuck : ¬ DecidesFreshly oneLine ∧ ¬ EndsAfterExit oneLine := by
  refine ⟨?_, ?_⟩
  · intro hfresh
    have hstale : .tested 1 (some 0) ∈ (readLoop oneLine 2).log := by decide
    exact absurd (hfresh 2 1 (some 0) hstale) (by decide)
  · intro hends
    have hreach : Loop.Reaches (readTurn oneLine) (ReadState.start oneLine) ⟨1, ⟨0, some 0⟩⟩ :=
      .single rfl
    have hnull : ∀ j ≥ 1, oneLine.fgets j = none := by
      rintro (_ | j) hj
      · cases hj
      · rfl
    obtain ⟨fuel, hsome⟩ := hends _ hreach rfl hnull
    rw [stuck_of_eof rfl hnull] at hsome
    cases hsome

end StudyTips
