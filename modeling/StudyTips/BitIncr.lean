import Mathlib.Data.Int.Notation
import Mathlib.Logic.Function.Iterate
import StudyTips.BitField
import StudyTips.Loop

/-!
# `c/bits/bitincr.c`: bit-fields that share a word

In a union of `seq : 20`, `pt : 12` and `guard` the first two are the low bits of the third. The
program increments each of them as often as a counter allows, and would leave its loops where one
exceeded its width.

* `fields_run`: what increments of and assignments to the two, in any order, leave of the word.
* `loop_exact`: a loop over any starting value never leaves early, and takes all its turns.
* `bitincr_fields`: both.
* `bitincrMain_returns`: so the program comes to its end.
-/

namespace StudyTips

open BitField Loop

/-! ## The union -/

/-- The bit-fields of the union. -/
inductive Member : Type where
  | seq
  | pt
  deriving DecidableEq

/-- The number of bits of a member. -/
def Member.width : Member → ℕ
  | seq => 20
  | pt => 12

/-- `guard`, all the bits of the union. -/
abbrev Guard : Type := BitVec 32

/-- The value of a bit-field. -/
def Member.read (f : Member) (guard : Guard) : BitVec 32 := (get f.width guard).setWidth 32

/-- Assign to a bit-field, which takes the low bits of the value. -/
def Member.assign (f : Member) (v : BitVec 32) (guard : Guard) : Guard :=
  set guard (get f.width v)

/-- `++` of a bit-field. -/
def Member.incr (f : Member) (guard : Guard) : Guard := f.assign (f.read guard + 1) guard

/-- What can be done to a bit-field. -/
inductive UnionOp : Type where
  /-- a bit-field is incremented -/
  | incr (f : Member)
  /-- a value is assigned to a bit-field -/
  | assign (f : Member) (v : BitVec 32)

namespace UnionOp

/-- The bit-field of an operation. -/
def member : UnionOp → Member
  | incr f => f
  | assign f _ => f

/-- What an operation does to the union. -/
def run (guard : Guard) : UnionOp → Guard
  | incr f => f.incr guard
  | assign f v => f.assign v guard

/-- What a sequence of operations does to the union. -/
def runAll (guard : Guard) (ops : List UnionOp) : Guard := ops.foldl run guard

end UnionOp

/-- What a sequence of increments and assignments leaves of a word. -/
structure FieldsKept (guard : Guard) (ops : List UnionOp) : Prop where
  /-- `seq` holds no more than its 20 bits can -/
  seq_le : (Member.seq.read (UnionOp.runAll guard ops)).toNat ≤ 2 ^ 20 - 1
  /-- `pt` holds no more than its 12 bits can -/
  pt_le : (Member.pt.read (UnionOp.runAll guard ops)).toNat ≤ 2 ^ 12 - 1
  /-- the bits that belong to neither bit-field are as at the start -/
  high : ∀ i, 20 ≤ i → i < 32 → (UnionOp.runAll guard ops).getLsbD i = guard.getLsbD i
  /-- an operation on `pt` that comes next leaves the bits that are not its own as they are -/
  pt_frame : ∀ op : UnionOp, op.member = .pt → ∀ i, 12 ≤ i → i < 32 →
    (op.run (UnionOp.runAll guard ops)).getLsbD i = (UnionOp.runAll guard ops).getLsbD i
  /-- `pt` is `seq` modulo the size of `pt` -/
  pt_eq : (Member.pt.read (UnionOp.runAll guard ops)).toNat =
    (Member.seq.read (UnionOp.runAll guard ops)).toNat % 2 ^ 12

theorem Member.width_le (f : Member) : f.width ≤ 20 := by
  cases f
  · exact Nat.le_refl 20
  · decide

theorem Member.toNat_read (f : Member) (guard : Guard) :
    (f.read guard).toNat = (get f.width guard).toNat := by
  have hwidth : f.width ≤ 32 := Nat.le_trans f.width_le (by decide)
  exact BitVec.toNat_setWidth_of_le hwidth

theorem Member.read_le (f : Member) (guard : Guard) :
    (f.read guard).toNat ≤ 2 ^ f.width - 1 := by
  rw [f.toNat_read]
  exact toNat_get_le f.width guard

/-- **What is assigned is read back**, as far as the width goes. -/
theorem Member.toNat_read_assign (f : Member) (v : BitVec 32) (guard : Guard) :
    (f.read (f.assign v guard)).toNat = v.toNat % 2 ^ f.width := by
  have hwidth : f.width ≤ 32 := Nat.le_trans f.width_le (by decide)
  rw [f.toNat_read, Member.assign, get_set hwidth, toNat_get]

/-- Increments go round at the width. -/
theorem Member.toNat_read_incr (f : Member) (guard : Guard) :
    (f.read (f.incr guard)).toNat = ((f.read guard).toNat + 1) % 2 ^ f.width := by
  have hone : (1 : BitVec 32).toNat = 1 := rfl
  have hpow : 2 ^ f.width ∣ 2 ^ 32 := Nat.pow_dvd_pow 2 (Nat.le_trans f.width_le (by decide))
  rw [Member.incr, f.toNat_read_assign, BitVec.toNat_add, hone, Nat.mod_mod_of_dvd _ hpow]

/-- What so many increments leave of a bit-field. -/
theorem Member.toNat_read_iterate_incr (f : Member) (n : ℕ) (guard : Guard) :
    (f.read (f.incr^[n] guard)).toNat = ((f.read guard).toNat + n) % 2 ^ f.width := by
  induction n with
  | zero =>
    have hlt : (f.read guard).toNat < 2 ^ f.width := by
      rw [f.toNat_read]
      exact (get f.width guard).isLt
    exact (Nat.mod_eq_of_lt hlt).symm
  | succ n ih =>
    rw [Function.iterate_succ_apply', f.toNat_read_incr, ih, Nat.mod_add_mod, Nat.add_assoc]

/-- **A step touches the bits of its bit-field only.** -/
theorem UnionOp.sameAbove_run (guard : Guard) (op : UnionOp) :
    SameAbove op.member.width (op.run guard) guard := by
  cases op with
  | incr f => exact sameAbove_set guard _
  | assign f v => exact sameAbove_set guard _

/-- **Any sequence of steps keeps the bit-fields apart from the rest of the word.** -/
theorem fields_run (guard : Guard) (ops : List UnionOp) : FieldsKept guard ops := by
  have hhigh : SameAbove 20 (UnionOp.runAll guard ops) guard :=
    sameAbove_foldl (fun w op => (op.sameAbove_run w).mono op.member.width_le) guard ops
  refine ⟨Member.seq.read_le _, Member.pt.read_le _, fun i hi _ => hhigh i hi, ?_, ?_⟩
  · intro op hop i hi _
    have hframe := op.sameAbove_run (UnionOp.runAll guard ops)
    rw [hop] at hframe
    exact hframe i hi
  · rw [Member.toNat_read, Member.toNat_read]
    exact toNat_get_of_le (by decide) _

/-! ## The program -/

/-- What the program does. -/
inductive BitEvent : Type where
  /-- `"Seq value beyond max one"` is printed, with `seq` and `pt` -/
  | beyond (seq pt : BitVec 32)
  /-- `sleep(seconds)` -/
  | sleep (seconds : ℕ)
  /-- a bit-field is incremented -/
  | incr (f : Member)
  /-- `"value next value"` is printed, with `seq`, `pt` and `guard` -/
  | next (f : Member) (seq pt guard : BitVec 32)
  /-- `"value reach max"` is printed -/
  | reachMax (f : Member) (v : BitVec 32)
  /-- `"exceed the threshold value"` is printed -/
  | exceed (f : Member) (v : BitVec 32)
  /-- `"Seq value after loop"` is printed -/
  | afterLoop (seq pt guard : BitVec 32)
  /-- `"Exit from program !"` is printed -/
  | exit
  deriving DecidableEq

/-- `UINT_MAX` -/
def UINT_MAX : ℕ := 2 ^ 32 - 1

/-- `USHRT_MAX` -/
def USHRT_MAX : ℕ := 2 ^ 16 - 1

/-- `SLEEP_SECONDS` -/
def SLEEP_SECONDS : ℕ := 8

/-- `BIT_SEQ_MAX` -/
def BIT_SEQ_MAX : BitVec 32 := (1 <<< 20) - 1

/-- `BIT_PT_MAX` -/
def BIT_PT_MAX : BitVec 32 := (1 <<< 12) - 1

/-- The variables of `main` that its loops share. -/
structure BitVars : Type where
  guard : Guard
  bNeetPrintNext : UInt8

/-- A loop of `main`: with a counter of `k` bits, `i`. -/
structure BitLoop (k : ℕ) : Type where
  i : BitVec k
  vars : BitVars

/-- The lines printed behind an increment; the value is `bNeetPrintNext`. -/
def printReached (f : Member) (max : BitVec 32) (guard : Guard) (bNeetPrintNext : UInt8) :
    Traced BitEvent UInt8 := do
  let bNeetPrintNext ←
    if bNeetPrintNext = 1 then do
      .emit (.next f (Member.seq.read guard) (Member.pt.read guard) guard)
      pure 0
    else pure bNeetPrintNext
  if max ≤ f.read guard then do
    .emit (.reachMax f (f.read guard))
    pure 1
  else pure bNeetPrintNext

/-- One turn of a loop that increments a bit-field while `i` is below `bound`; it leaves with the
variables. -/
def loopTurn (f : Member) (max : BitVec 32) (bound : ℕ) {k : ℕ} (s : BitLoop k) :
    Traced BitEvent (BitLoop k ⊕ BitVars) :=
  if s.i.toNat < bound then do
    let guard := f.incr s.vars.guard
    .emit (.incr f)
    let bNeetPrintNext ← printReached f max guard s.vars.bNeetPrintNext
    if max < f.read guard then do
      .emit (.exceed f (f.read guard))
      pure (.inr ⟨guard, bNeetPrintNext⟩)
    else pure (.inl ⟨s.i + 1, guard, bNeetPrintNext⟩)
  else pure (.inr s.vars)

/-- The first loop of `main`, with a counter of type `uint32_t`. -/
def seqLoop (fuel : ℕ) (vars : BitVars) : Traced BitEvent (Option BitVars) :=
  run (loopTurn .seq BIT_SEQ_MAX UINT_MAX) fuel (⟨0, vars⟩ : BitLoop 32)

/-- The second loop of `main`, with a counter of type `uint16_t`. -/
def ptLoop (fuel : ℕ) (vars : BitVars) : Traced BitEvent (Option BitVars) :=
  run (loopTurn .pt BIT_PT_MAX USHRT_MAX) fuel (⟨0, vars⟩ : BitLoop 16)

/-- The line behind either loop. -/
def afterLoop (guard : Guard) : Traced BitEvent PUnit :=
  .emit (.afterLoop (Member.seq.read guard) (Member.pt.read guard) guard)

/-- What `main` assigns before its loops. -/
def startGuard : Guard :=
  let guard := Member.seq.assign (BIT_SEQ_MAX + 2) 0
  Member.pt.assign 3 guard

/-- `main`, `none` while a loop still runs. -/
def bitincrMain (fuel : ℕ) : Traced BitEvent (Option ℤ) := do
  let guard := startGuard
  .emit (.beyond (Member.seq.read guard) (Member.pt.read guard))
  .emit (.sleep SLEEP_SECONDS)
  match ← seqLoop fuel ⟨guard, 0⟩ with
  | none => pure none
  | some vars => do
    afterLoop vars.guard
    .emit (.sleep SLEEP_SECONDS)
    match ← ptLoop fuel vars with
    | none => pure none
    | some vars => do
      afterLoop vars.guard
      .emit .exit
      pure (some 0)

/-! ## The loops -/

/-- A loop over a bit-field has taken all its turns, if it has left, and no exit before. -/
structure FullLoop (f : Member) (bound : ℕ) (vars : BitVars)
    (loop : ℕ → BitVars → Traced BitEvent (Option BitVars)) : Prop where
  /-- the exit of the loop is never reached -/
  unreachable : ∀ fuel g v, .exceed g v ∉ (loop fuel vars).log
  /-- the loop ends, with as many increments of the bit-field as the bound says, which add the
  bound to its value modulo its size -/
  ends : ∃ n vars', ∀ fuel ≥ n, (loop fuel vars).val = some vars' ∧
    (loop fuel vars).log.count (.incr f) = bound ∧ vars'.guard = f.incr^[bound] vars.guard ∧
    (f.read vars'.guard).toNat = ((f.read vars.guard).toNat + bound) % 2 ^ f.width

/-- A line that is printed where the bit-field has its greatest value. -/
def BitEvent.Reached : BitEvent → Prop
  | .next _ _ _ _ => True
  | .reachMax _ _ => True
  | _ => False

theorem reached_printReached (f : Member) (max : BitVec 32) (guard : Guard)
    (bNeetPrintNext : UInt8) : (printReached f max guard bNeetPrintNext).All BitEvent.Reached := by
  have hmax : ∀ flag : UInt8, (if max ≤ f.read guard then do
      .emit (.reachMax f (f.read guard))
      pure 1
    else pure flag : Traced BitEvent UInt8).All BitEvent.Reached := by
    intro flag
    split
    next => exact Traced.all_bind.mpr ⟨Traced.all_emit.mpr trivial, Traced.all_pure 1⟩
    next => exact Traced.all_pure flag
  rw [printReached]
  split
  next => exact Traced.all_bind.mpr ⟨Traced.all_emit.mpr trivial, hmax 0⟩
  next => exact hmax bNeetPrintNext

/-- **One turn** increments the bit-field, which does not exceed its width, and goes round. -/
theorem loopTurn_cases (f : Member) {max : BitVec 32} (hmax : ∀ guard, f.read guard ≤ max)
    (bound : ℕ) {k : ℕ} (s : BitLoop k) :
    (bound ≤ s.i.toNat ∧ loopTurn f max bound s = ⟨.inr s.vars, []⟩) ∨
    (s.i.toNat < bound ∧ ∃ flag l, (∀ e ∈ l, e.Reached) ∧
      loopTurn f max bound s = ⟨.inl ⟨s.i + 1, f.incr s.vars.guard, flag⟩, .incr f :: l⟩) := by
  by_cases hi : s.i.toNat < bound
  · have hbelow : ¬ max < f.read (f.incr s.vars.guard) := BitVec.not_lt.mpr (hmax _)
    refine .inr ⟨hi, (printReached f max (f.incr s.vars.guard) s.vars.bNeetPrintNext).val, _,
      reached_printReached f max (f.incr s.vars.guard) s.vars.bNeetPrintNext, ?_⟩
    apply Traced.ext
    · simp [loopTurn, hi, hbelow]
    · simp [loopTurn, hi, hbelow]
  · refine .inl ⟨Nat.not_lt.mp hi, ?_⟩
    rw [loopTurn, if_neg hi]
    rfl

/-- The head of a loop over a bit-field: every turn so far was one increment, and none left. -/
structure BitLoop.Inv (f : Member) (bound : ℕ) (guard : Guard) {k : ℕ} (l : List BitEvent)
    (s : BitLoop k) : Prop where
  le : s.i.toNat ≤ bound
  count : l.count (.incr f) = s.i.toNat
  below : ∀ g v, .exceed g v ∉ l
  guard : s.vars.guard = f.incr^[s.i.toNat] guard

section Turn

variable {f : Member} {max : BitVec 32} {bound k : ℕ} {guard : Guard}

/-- The lines printed are neither increments nor exits. -/
theorem count_of_reached {l : List BitEvent} (h : ∀ e ∈ l, e.Reached) : l.count (.incr f) = 0 :=
  List.count_eq_zero.mpr fun hmem => h _ hmem

/-- A turn that goes round keeps the invariant. -/
theorem BitLoop.Inv.round (hmax : ∀ guard, f.read guard ≤ max) (hbound : bound < 2 ^ k)
    {l : List BitEvent} {s s' : BitLoop k} (h : s.Inv f bound guard l)
    (hturn : (loopTurn f max bound s).val = .inl s') :
    s'.Inv f bound guard (l ++ (loopTurn f max bound s).log) ∧ s'.i.toNat = s.i.toNat + 1 := by
  rcases loopTurn_cases f hmax bound s with ⟨-, heq⟩ | ⟨hi, flag, lines, hlines, heq⟩
  · rw [heq] at hturn
    cases hturn
  · rw [heq] at hturn ⊢
    obtain rfl := Sum.inl.inj hturn
    have hnext : (s.i + 1).toNat = s.i.toNat + 1 := by
      have hsize : s.i.toNat + 1 < 2 ^ k := Nat.lt_of_le_of_lt hi hbound
      have hlarge : 1 < 2 ^ k := by omega
      have hone : (1 : BitVec k).toNat = 1 := Nat.mod_eq_of_lt hlarge
      rw [BitVec.toNat_add_of_lt (by rw [hone]; exact hsize), hone]
    refine ⟨⟨?_, ?_, fun g v hv => ?_, ?_⟩, hnext⟩
    · rw [hnext]
      exact hi
    · rw [List.count_append, h.count, List.count_cons_self, count_of_reached hlines, hnext]
    · rcases List.mem_append.mp hv with hmem | hmem
      · exact h.below g v hmem
      · rcases List.mem_cons.mp hmem with heq | hmem
        · cases heq
        · exact hlines _ hmem
    · rw [hnext, Function.iterate_succ_apply', ← h.guard]

/-- A turn that leaves is behind the last increment. -/
theorem BitLoop.Inv.leave (hmax : ∀ guard, f.read guard ≤ max) {l : List BitEvent} {s : BitLoop k}
    {vars : BitVars} (h : s.Inv f bound guard l)
    (hturn : (loopTurn f max bound s).val = .inr vars) :
    (loopTurn f max bound s).log = [] ∧ s.i.toNat = bound ∧ vars = s.vars := by
  rcases loopTurn_cases f hmax bound s with ⟨hi, heq⟩ | ⟨-, _, _, -, heq⟩
  · rw [heq] at hturn ⊢
    exact ⟨rfl, Nat.le_antisymm h.le hi, (Sum.inr.inj hturn).symm⟩
  · rw [heq] at hturn
    cases hturn

/-- What a run of a loop over a bit-field does: it prints no exit, and if it leaves it has taken
all its turns. -/
theorem loop_history (hmax : ∀ guard, f.read guard ≤ max) (hbound : bound < 2 ^ k) (fuel : ℕ)
    {s : BitLoop k} (hs : s.Inv f bound guard []) :
    (∀ g v, .exceed g v ∉ (run (loopTurn f max bound) fuel s).log) ∧
      ∀ vars, (run (loopTurn f max bound) fuel s).val = some vars →
        (run (loopTurn f max bound) fuel s).log.count (.incr f) = bound ∧
          vars.guard = f.incr^[bound] guard := by
  refine run_history (fun l (s : BitLoop k) => s.Inv f bound guard l)
    (fun l r => (∀ g v, .exceed g v ∉ l) ∧ ∀ vars, r = some vars →
      l.count (.incr f) = bound ∧ vars.guard = f.incr^[bound] guard)
    (fun _ _ h => ⟨h.below, nofun⟩) (fun _ _ _ h hturn => (h.round hmax hbound hturn).1)
    (fun l s vars h hturn => ?_) fuel hs
  obtain ⟨hlog, hi, rfl⟩ := h.leave hmax hturn
  rw [hlog, List.append_nil]
  refine ⟨h.below, ?_⟩
  rintro _ ⟨⟩
  exact ⟨by rw [h.count, hi], by rw [h.guard, hi]⟩

/-- **A loop over a bit-field that cannot exceed its width takes all its turns**, whatever it
starts from. -/
theorem loop_exact (hmax : ∀ guard, f.read guard ≤ max) (hbound : bound < 2 ^ k) (vars : BitVars) :
    FullLoop f bound vars fun fuel vars =>
      run (loopTurn f max bound) fuel (⟨0, vars⟩ : BitLoop k) := by
  have hstart : BitLoop.Inv f bound vars.guard [] (⟨0, vars⟩ : BitLoop k) := by
    have hzero : (0 : BitVec k).toNat = 0 := Nat.zero_mod _
    refine ⟨?_, ?_, nofun, ?_⟩
    · rw [hzero]
      exact Nat.zero_le bound
    · exact hzero.symm
    · rw [hzero]
      rfl
  refine ⟨fun fuel => (loop_history hmax hbound fuel hstart).1, ?_⟩
  -- the turns left go down with every turn
  have hround : ∀ s s' : BitLoop k, (∃ l, s.Inv f bound vars.guard l) →
      (loopTurn f max bound s).val = .inl s' →
      (∃ l, s'.Inv f bound vars.guard l) ∧ bound - s'.i.toNat < bound - s.i.toNat := by
    rintro s s' ⟨l, h⟩ hturn
    obtain ⟨hs', hnext⟩ := h.round hmax hbound hturn
    have hle := hs'.le
    exact ⟨⟨_, hs'⟩, by omega⟩
  obtain ⟨ss, vars', htrail, -⟩ := exists_trail_of_measure
    (fun s : BitLoop k => bound - s.i.toNat) hround ⟨[], hstart⟩
  refine ⟨ss.length, vars', fun fuel hfuel => ?_⟩
  have hval : (run (loopTurn f max bound) fuel (⟨0, vars⟩ : BitLoop k)).val = some vars' := by
    rw [htrail.run hfuel]
  obtain ⟨hcount, hguard⟩ := (loop_history hmax hbound fuel hstart).2 vars' hval
  exact ⟨hval, hcount, hguard, by rw [hguard, f.toNat_read_iterate_incr]⟩

end Turn

theorem seqLoop_exact (vars : BitVars) : FullLoop .seq UINT_MAX vars seqLoop :=
  loop_exact (fun guard => Member.seq.read_le guard) (by decide) vars

theorem ptLoop_exact (vars : BitVars) : FullLoop .pt USHRT_MAX vars ptLoop :=
  loop_exact (fun guard => Member.pt.read_le guard) (by decide) vars

/-- **Increments and assignments keep the bit-fields in their widths**, and so both loops take all
their turns: neither exit is ever reached. -/
theorem bitincr_fields (guard : Guard) : (∀ ops, FieldsKept guard ops) ∧
    ∀ bNeetPrintNext, FullLoop .seq UINT_MAX ⟨guard, bNeetPrintNext⟩ seqLoop ∧
      FullLoop .pt USHRT_MAX ⟨guard, bNeetPrintNext⟩ ptLoop :=
  ⟨fields_run guard, fun _ => ⟨seqLoop_exact _, ptLoop_exact _⟩⟩

/-! ## The whole program -/

/-- `main` prints neither exit. -/
theorem notExceed_bitincrMain (fuel : ℕ) : (bitincrMain fuel).All fun e => ∀ g v, e ≠ .exceed g v := by
  have hseq : ∀ vars, (seqLoop fuel vars).All fun e => ∀ g v, e ≠ .exceed g v :=
    fun vars _ he g v heq => (seqLoop_exact vars).unreachable fuel g v (heq ▸ he)
  have hpt : ∀ vars, (ptLoop fuel vars).All fun e => ∀ g v, e ≠ .exceed g v :=
    fun vars _ he g v heq => (ptLoop_exact vars).unreachable fuel g v (heq ▸ he)
  refine Traced.all_bind.mpr ⟨Traced.all_emit.mpr nofun, ?_⟩
  refine Traced.all_bind.mpr ⟨Traced.all_emit.mpr nofun, ?_⟩
  refine Traced.all_bind.mpr ⟨hseq _, ?_⟩
  split
  next => exact Traced.all_pure none
  next vars _ =>
    refine Traced.all_bind.mpr ⟨Traced.all_emit.mpr nofun, ?_⟩
    refine Traced.all_bind.mpr ⟨Traced.all_emit.mpr nofun, ?_⟩
    refine Traced.all_bind.mpr ⟨hpt vars, ?_⟩
    split
    next => exact Traced.all_pure none
    next =>
      refine Traced.all_bind.mpr ⟨Traced.all_emit.mpr nofun, ?_⟩
      exact Traced.all_bind.mpr ⟨Traced.all_emit.mpr nofun, Traced.all_pure (some 0)⟩

/-- **`main` returns**, and prints neither exit. -/
theorem bitincrMain_returns : (∀ fuel g v, .exceed g v ∉ (bitincrMain fuel).log) ∧
    ∃ n, ∀ fuel ≥ n, (bitincrMain fuel).val = some 0 := by
  constructor
  · intro fuel g v hmem
    exact notExceed_bitincrMain fuel _ hmem g v rfl
  · obtain ⟨n, vars, hseq⟩ := (seqLoop_exact ⟨startGuard, 0⟩).ends
    obtain ⟨n', vars', hpt⟩ := (ptLoop_exact vars).ends
    refine ⟨max n n', fun fuel hfuel => ?_⟩
    have hseq' := (hseq fuel (Nat.le_trans (Nat.le_max_left n n') hfuel)).1
    have hpt' := (hpt fuel (Nat.le_trans (Nat.le_max_right n n') hfuel)).1
    simp only [bitincrMain, Traced.bind_val, hseq', hpt']
    rfl

end StudyTips
