import StudyTips.CString
import StudyTips.Loop

/-!
# `c/ambient/main.c`: which capabilities are raised

`get_caplist` turns the value of `-c` into an array of `int` that ends with `-1`,
and `main` raises the entries up to the first `-1` before it executes the new
program. Without `-c`, and where `get_caplist` has nothing to list, the default
list is raised. The array is modelled cell by cell, `none` for a cell that
`realloc` has just added.

* `get_caplist_val`: the array is `stored`, the values of the tokens in order and
  `-1` behind them.
* `get_caplist_array`: every turn stores inside the array and loses no value of an earlier one.
* `ambientMain_ends`: the program gets to an end without a cell being read that is
  not there or holds nothing.
* `raises_named_iff`: what is raised is what the argument names exactly when the
  array, which has no other way to say so, neither ends too early nor is missing.
-/

namespace StudyTips

open CString

/-! ## The program -/

def CAP_NET_ADMIN : ℤ := 12
def CAP_NET_RAW : ℤ := 13
def CAP_SYS_NICE : ℤ := 23

/-- What the program does to memory and to itself. -/
inductive CapEvent : Type where
  /-- `list[index]` is written, in an array of `size` integers -/
  | store (index size : ℕ)
  /-- `cap` is raised in the ambient set -/
  | raised (cap : ℤ)
  deriving DecidableEq

/-- How the program ends before it executes the new one. -/
inductive Abort : Type where
  /-- the program exits with a code -/
  | exit (code : ℤ)
  /-- a cell is read that is not there or was never written -/
  | undefined
  deriving DecidableEq

/-- What the system answers, call by call. -/
structure CapSystem : Type where
  /-- whether the `i`-th `realloc` gets its memory -/
  realloc : ℕ → Bool
  /-- the return code of `capng_update` for the `i`-th entry -/
  capng_update : ℕ → ℤ → ℤ
  /-- the return code of `prctl` for the `i`-th entry -/
  prctl : ℕ → ℤ → ℤ

/-- The cells of an array of `int`. -/
abbrev Cells : Type := List (Option ℤ)

/-- `realloc` to `size` cells: the old ones stay, new ones hold nothing yet. -/
def Cells.realloc (list : Option Cells) (size : ℕ) : Cells :=
  let old := (list.getD []).take size
  old ++ List.replicate (size - old.length) none

/-- `default_caplist`. -/
def default_caplist : Cells := [some CAP_NET_RAW, some CAP_NET_ADMIN, some CAP_SYS_NICE, some (-1)]

/-- The delimiter of `strtok(dup, ",")`. -/
def comma (c : UInt8) : Bool := c == 0x2c

/-- The variables of the loop in `get_caplist`. -/
structure CaplistWalk : Type where
  /-- what `strtok` has left of `dup` -/
  rest : Str
  /-- `i` -/
  i : ℕ
  /-- `list`, `none` for `NULL` -/
  list : Option Cells

variable (sys : CapSystem)

/-- One turn of the loop in `get_caplist`; it leaves with the list, or exits. -/
def caplistTurn (s : CaplistWalk) :
    Traced CapEvent (CaplistWalk ⊕ Except Abort (Option Cells)) :=
  match strtok comma s.rest with
  | none => pure (.inr (.ok s.list))
  | some (tok, rest) =>
    if !sys.realloc s.i then pure (.inr (.error (.exit 1)))
    else do
      let list := Cells.realloc s.list (s.i + 1)
      .emit (.store (s.i - 1) list.length)
      let list := list.set (s.i - 1) (some (atoi tok))
      .emit (.store s.i list.length)
      let list := list.set s.i (some (-1))
      pure (.inl ⟨rest, s.i + 1, some list⟩)

/-- `get_caplist`, `none` while the loop still runs. -/
def get_caplist (fuel : ℕ) (arg : Str) :
    Traced CapEvent (Option (Except Abort (Option Cells))) :=
  Loop.run (caplistTurn sys) fuel ⟨arg, 1, none⟩

/-- `set_ambient_cap` for entry `i`: the exit code if it exits. -/
def set_ambient_cap (i : ℕ) (cap : ℤ) : Traced CapEvent (Option ℤ) :=
  if sys.capng_update i cap ≠ 0 then pure (some 2)
  else if sys.prctl i cap ≠ 0 then pure (some 1)
  else do
    .emit (.raised cap)
    pure none

/-- One turn of the loop over `caplist`; it leaves at the `-1`. -/
def raiseTurn (caplist : Cells) (i : ℕ) : Traced CapEvent (ℕ ⊕ Except Abort Unit) :=
  match caplist[i]? with
  | some (some cap) =>
    if cap = -1 then pure (.inr (.ok ()))
    else do
      match ← set_ambient_cap sys i cap with
      | none => pure (.inl (i + 1))
      | some code => pure (.inr (.error (.exit code)))
  | _ => pure (.inr (.error .undefined))

/-- `main` from the loop over `caplist` on: the index of the program it executes. -/
def raiseAndExec (fuel : ℕ) (caplist : Cells) (index : ℕ) :
    Traced CapEvent (Option (Except Abort ℕ)) := do
  match ← Loop.run (raiseTurn sys caplist) fuel 0 with
  | none => pure none
  | some (.error abort) => pure (some (.error abort))
  | some (.ok ()) => pure (some (.ok index))

/-- The literal `"-c"`. -/
def dashC : Str := [0x2d, 0x63]

/-- `main` up to the new program, whose index in `argv` it returns; `none` while a loop
still runs. -/
def ambientMain (fuel : ℕ) (argv : List Str) : Traced CapEvent (Option (Except Abort ℕ)) :=
  if argv.length < 2 then pure (some (.error (.exit 1)))
  else if argv[1]? = some dashC then
    if argv.length ≤ 3 then pure (some (.error (.exit 1)))
    else do
      match ← get_caplist sys fuel (argv[2]?.getD []) with
      | none => pure none
      | some (.error abort) => pure (some (.error abort))
      | some (.ok caplist) => raiseAndExec sys fuel (caplist.getD default_caplist) 3
  else raiseAndExec sys fuel default_caplist 1

/-! ## The list -/

/-- The array for some values: them and `-1`, or no array where there are none. -/
def stored : List ℤ → Option Cells
  | [] => none
  | v :: vs => some ((v :: vs).map some ++ [some (-1)])

@[simp] theorem Cells.length_realloc (list : Option Cells) (size : ℕ) :
    (Cells.realloc list size).length = size := by
  rw [Cells.realloc, List.length_append, List.length_replicate]
  exact Nat.add_sub_cancel' (List.length_take_le ..)

/-- What one turn does to the array: the value takes the place of the `-1`. -/
theorem stored_concat (vs : List ℤ) (v : ℤ) :
    some (((Cells.realloc (stored vs) (vs.length + 2)).set vs.length (some v)).set
      (vs.length + 1) (some (-1))) = stored (vs ++ [v]) := by
  cases vs with
  | nil => rfl
  | cons w vs =>
    have hold : Cells.realloc (stored (w :: vs)) ((w :: vs).length + 2) =
        (w :: vs).map some ++ [some (-1), none] := by
      have hfits : ((w :: vs).map some ++ [some (-1)]).length ≤ (w :: vs).length + 2 := by simp
      simp only [Cells.realloc, stored, Option.getD_some, List.take_of_length_le hfits]
      simp
    rw [hold]
    simp [stored]

variable {sys : CapSystem}

/-- A turn at a token stores its value. -/
theorem caplistTurn_token {vs : List ℤ} {s tok rest : Str} (hrealloc : sys.realloc (vs.length + 1))
    (htok : strtok comma s = some (tok, rest)) :
    (caplistTurn sys ⟨s, vs.length + 1, stored vs⟩).val =
      .inl ⟨rest, vs.length + 2, stored (vs ++ [atoi tok])⟩ := by
  rw [← stored_concat]
  simp [caplistTurn, htok, hrealloc]

/-- The list the loop leaves with: what was stored before and the values of the tokens
that are left. -/
theorem caplist_trail {s : CaplistWalk} {ss : List CaplistWalk} {caplist : Option Cells}
    (h : Loop.Trail (caplistTurn sys) s ss (.ok caplist)) {vs : List ℤ}
    (hi : s.i = vs.length + 1) (hlist : s.list = stored vs) :
    caplist = stored (vs ++ (tokens comma s.rest).map atoi) := by
  induction ss generalizing s vs with
  | nil => cases h
  | cons _ ss ih =>
    obtain ⟨rest, i, list⟩ := s
    obtain rfl : i = vs.length + 1 := hi
    obtain rfl : list = stored vs := hlist
    cases htok : strtok comma rest with
    | none =>
      -- no token is left: the loop leaves with what is stored
      have hturn : (caplistTurn sys ⟨rest, vs.length + 1, stored vs⟩).val =
          .inr (.ok (stored vs)) := by simp [caplistTurn, htok]
      rw [strtok_eq_none htok, List.map_nil, List.append_nil]
      exact Except.ok.inj (h.of_inr hturn).2
    | some p =>
      obtain ⟨tok, rest'⟩ := p
      by_cases hrealloc : sys.realloc (vs.length + 1)
      · obtain ⟨ss', heq, htrail⟩ := h.of_inl (caplistTurn_token hrealloc htok)
        obtain ⟨-, rfl⟩ := List.cons.inj heq
        rw [ih htrail (by simp) rfl, (strtok_eq_some htok).1]
        simp
      · -- without memory the program exits, and leaves no list
        have hturn : (caplistTurn sys ⟨rest, vs.length + 1, stored vs⟩).val =
            .inr (.error (.exit 1)) := by simp [caplistTurn, htok, hrealloc]
        cases (h.of_inr hturn).2

/-- **The list is the values of the tokens, in order, and `-1`**; there is none if there
are no tokens. -/
theorem get_caplist_val {fuel : ℕ} {arg : Str} {caplist : Option Cells}
    (h : (get_caplist sys fuel arg).val = some (.ok caplist)) :
    caplist = stored ((tokens comma arg).map atoi) := by
  obtain ⟨ss, htrail, -⟩ := Loop.exists_trail h
  have hstart : (none : Option Cells) = stored [] := rfl
  exact caplist_trail htrail rfl hstart

/-! ## What is raised -/

/-- The capabilities a run raises, in order. -/
def raised (l : List CapEvent) : List ℤ :=
  l.filterMap fun
    | .raised cap => some cap
    | .store _ _ => none

theorem raised_append (l l' : List CapEvent) : raised (l ++ l') = raised l ++ raised l' :=
  List.filterMap_append

/-- Making the list only stores, inside the array. -/
theorem get_caplist_stores (fuel : ℕ) (arg : Str) :
    (get_caplist sys fuel arg).All fun e => ∃ index size, e = .store index size ∧ index < size := by
  refine Loop.all_run (fun s _ => ?_) (fun _ _ _ _ => trivial) fuel trivial
  rw [caplistTurn]
  split
  · exact Traced.all_pure _
  · split
    · exact Traced.all_pure _
    · simp only [Traced.all_bind, Traced.all_emit, Traced.all_pure, and_true, List.length_set,
        Cells.length_realloc]
      exact ⟨⟨s.i - 1, s.i + 1, rfl, by omega⟩, ⟨s.i, s.i + 1, rfl, by omega⟩⟩

/-- Nothing is raised while the list is made. -/
theorem raised_get_caplist (fuel : ℕ) (arg : Str) : raised (get_caplist sys fuel arg).log = [] := by
  refine List.filterMap_eq_nil_iff.mpr fun e he => ?_
  obtain ⟨index, size, rfl, -⟩ := get_caplist_stores fuel arg e he
  rfl

/-- A turn at a capability either raises it and goes on, or exits. -/
theorem raiseTurn_cap {caplist : Cells} {i : ℕ} {cap : ℤ} (hcell : caplist[i]? = some (some cap))
    (hcap : cap ≠ -1) :
    raiseTurn sys caplist i = ⟨.inl (i + 1), [.raised cap]⟩ ∨
      ∃ code, (raiseTurn sys caplist i).val = .inr (.error (.exit code)) := by
  by_cases hupdate : sys.capng_update i cap = 0
  · by_cases hprctl : sys.prctl i cap = 0
    · refine .inl (Traced.ext ?_ ?_)
      · simp [raiseTurn, set_ambient_cap, hcell, hcap, hupdate, hprctl]
      · simp [raiseTurn, set_ambient_cap, hcell, hcap, hupdate, hprctl]
    · exact .inr ⟨1, by simp [raiseTurn, set_ambient_cap, hcell, hcap, hupdate, hprctl]⟩
  · exact .inr ⟨2, by simp [raiseTurn, set_ambient_cap, hcell, hcap, hupdate]⟩

/-- A turn at the `-1` leaves. -/
theorem raiseTurn_end {caplist : Cells} {i : ℕ} (hcell : caplist[i]? = some (some (-1))) :
    raiseTurn sys caplist i = ⟨.inr (.ok ()), []⟩ := by
  rw [raiseTurn, hcell]
  rfl

/-- The array of some values, with the `-1` behind them. -/
abbrev withEnd (vs : List ℤ) : Cells := vs.map some ++ [some (-1)]

/-- The loop over the list raises the values up to the first `-1`. -/
theorem raise_trail {vs : List ℤ} {i : ℕ} (hi : i ≤ vs.length) {ss : List ℕ}
    (h : Loop.Trail (raiseTurn sys (withEnd vs)) i ss (.ok ())) :
    raised (ss.flatMap fun i => (raiseTurn sys (withEnd vs) i).log) =
      (vs.drop i).takeWhile (· ≠ -1) := by
  induction ss generalizing i with
  | nil => cases h
  | cons _ ss ih =>
    rcases Nat.lt_or_eq_of_le hi with hlt | rfl
    · have hcell : (withEnd vs)[i]? = some (some vs[i]) := by
        rw [List.getElem?_append_left (by simpa using hlt)]
        simp [hlt]
      rw [List.drop_eq_getElem_cons hlt]
      by_cases hcap : vs[i] = -1
      · -- a `-1` among the values ends the loop as well
        have hturn : raiseTurn sys (withEnd vs) i = _ := raiseTurn_end (by rw [hcell, hcap])
        obtain ⟨heq, -⟩ := h.of_inr (congrArg Traced.val hturn)
        rw [heq, List.takeWhile_cons_of_neg (by simpa using hcap)]
        simp [hturn, raised]
      · rcases raiseTurn_cap hcell hcap with hturn | ⟨code, hturn⟩
        · obtain ⟨ss', heq, htrail⟩ := h.of_inl (congrArg Traced.val hturn)
          obtain ⟨rfl, rfl⟩ := List.cons.inj heq
          rw [List.flatMap_cons, raised_append, ih hlt htrail, hturn,
            List.takeWhile_cons_of_pos (by simpa using hcap)]
          rfl
        · cases (h.of_inr hturn).2
    · -- behind the values lies the `-1` that was put there to end them
      have hcell : (withEnd vs)[vs.length]? = some (some (-1)) := by simp [withEnd]
      have hturn : raiseTurn sys (withEnd vs) vs.length = _ := raiseTurn_end hcell
      obtain ⟨heq, -⟩ := h.of_inr (congrArg Traced.val hturn)
      rw [heq, List.drop_length]
      simp [hturn, raised]

/-- **`main` raises the entries of its list up to the first `-1`**, if it gets to execute
the new program. -/
theorem raised_raiseAndExec {fuel index index' : ℕ} {vs : List ℤ}
    (h : (raiseAndExec sys fuel (withEnd vs) index).val = some (.ok index')) :
    raised (raiseAndExec sys fuel (withEnd vs) index).log = vs.takeWhile (· ≠ -1) := by
  cases hrun : (Loop.run (raiseTurn sys (withEnd vs)) fuel 0).val with
  | none => simp [raiseAndExec, hrun] at h
  | some r =>
    cases r with
    | error abort => simp [raiseAndExec, hrun] at h
    | ok _ =>
      obtain ⟨ss, htrail, hlen⟩ := Loop.exists_trail hrun
      have hraised := raise_trail (Nat.zero_le _) htrail
      rw [List.drop_zero] at hraised
      rw [raiseAndExec, Traced.bind_log, htrail.run hlen]
      simpa using hraised

/-- The values `main` has to raise for an argument of `-c`: those of the tokens, or the
default where there is no token. -/
def values (arg : Str) : List ℤ :=
  if tokens comma arg = [] then [CAP_NET_RAW, CAP_NET_ADMIN, CAP_SYS_NICE]
  else (tokens comma arg).map atoi

theorem stored_values (arg : Str) :
    (stored ((tokens comma arg).map atoi)).getD default_caplist = withEnd (values arg) := by
  rw [values]
  cases tokens comma arg with
  | nil => rfl
  | cons tok toks => rfl

/-- With `-c`, an argument and a program `main` makes a list and raises it. -/
theorem ambientMain_dashC {fuel : ℕ} {prog arg cmd : Str} {rest : List Str} :
    ambientMain sys fuel (prog :: dashC :: arg :: cmd :: rest) =
      get_caplist sys fuel arg >>= fun list => match list with
        | none => pure none
        | some (.error abort) => pure (some (.error abort))
        | some (.ok caplist) => raiseAndExec sys fuel (caplist.getD default_caplist) 3 := by
  rw [ambientMain, if_neg (by simp), if_pos (by simp), if_neg (by simp)]
  rfl

/-- **What `-c` raises**: the values in order, up to a `-1` among them. -/
theorem raised_ambientMain {fuel index : ℕ} {prog arg cmd : Str} {rest : List Str}
    (h : (ambientMain sys fuel (prog :: dashC :: arg :: cmd :: rest)).val = some (.ok index)) :
    raised (ambientMain sys fuel (prog :: dashC :: arg :: cmd :: rest)).log =
      (values arg).takeWhile (· ≠ -1) := by
  rw [ambientMain_dashC] at h ⊢
  rw [Traced.bind_log, raised_append, raised_get_caplist, List.nil_append]
  rw [Traced.bind_val] at h
  cases hlist : (get_caplist sys fuel arg).val with
  | none => simp [hlist] at h
  | some r =>
    cases r with
    | error abort => simp [hlist] at h
    | ok caplist =>
      rw [hlist] at h
      obtain rfl := get_caplist_val hlist
      dsimp only at h ⊢
      rw [stored_values] at h ⊢
      exact raised_raiseAndExec h

/-! ## The program ends

The array is searched for a `-1` that `get_caplist` has put there, so `main` never
reads behind it. -/

/-- `get_caplist` returns or exits, after a turn for each token. -/
theorem get_caplist_ends {fuel : ℕ} {arg : Str} (hfuel : arg.length < fuel) :
    ∃ r, (get_caplist sys fuel arg).val = some r ∧ r ≠ .error .undefined := by
  have hround : ∀ s s' : CaplistWalk, True → (caplistTurn sys s).val = .inl s' →
      True ∧ s'.rest.length < s.rest.length := by
    intro s s' _ hturn
    rw [caplistTurn] at hturn
    split at hturn
    next => cases hturn
    next tok rest htok =>
      split at hturn
      next => cases hturn
      next =>
        obtain rfl := Sum.inl.inj hturn
        exact ⟨trivial, (strtok_eq_some htok).2⟩
  obtain ⟨ss, r, htrail, hlen⟩ :=
    Loop.exists_trail_of_measure (fun s : CaplistWalk => s.rest.length) hround trivial
  refine ⟨r, by rw [get_caplist, htrail.run (le_trans hlen hfuel)], ?_⟩
  obtain ⟨s, -, hleave⟩ := htrail.leaves
  rintro rfl
  rw [caplistTurn] at hleave
  split at hleave
  next => cases hleave
  next =>
    split at hleave
    next => cases hleave
    next => cases hleave

/-- The cells up to the `-1` are there, and hold a value. -/
theorem cell_withEnd {vs : List ℤ} {i : ℕ} (hi : i ≤ vs.length) :
    ∃ cap, (withEnd vs)[i]? = some (some cap) ∧ (i = vs.length → cap = -1) := by
  rcases Nat.lt_or_eq_of_le hi with hlt | rfl
  · refine ⟨vs[i], ?_, fun h => absurd h (Nat.ne_of_lt hlt)⟩
    rw [List.getElem?_append_left (by simpa using hlt)]
    simp [hlt]
  · exact ⟨-1, by simp [withEnd], fun _ => rfl⟩

/-- **The loop over the list ends**, with every capability raised or in `set_ambient_cap`. -/
theorem raise_ends {fuel : ℕ} {vs : List ℤ} (hfuel : vs.length < fuel) :
    ∃ r, (Loop.run (raiseTurn sys (withEnd vs)) fuel 0).val = some r ∧
      r ≠ .error .undefined := by
  have hround : ∀ i i' : ℕ, i ≤ vs.length → (raiseTurn sys (withEnd vs) i).val = .inl i' →
      i' ≤ vs.length ∧ vs.length - i' < vs.length - i := by
    intro i i' hi hturn
    obtain ⟨cap, hcell, hlast⟩ := cell_withEnd hi
    by_cases hcap : cap = -1
    · subst hcap
      rw [raiseTurn_end hcell] at hturn
      cases hturn
    · have hlt : i < vs.length := Nat.lt_of_le_of_ne hi fun h => hcap (hlast h)
      rcases raiseTurn_cap hcell hcap with hraised | ⟨code, hexit⟩
      · rw [hraised] at hturn
        obtain rfl := Sum.inl.inj hturn
        exact ⟨hlt, by omega⟩
      · rw [hexit] at hturn
        cases hturn
  obtain ⟨ss, r, htrail, hlen⟩ :=
    Loop.exists_trail_of_measure (fun i => vs.length - i) hround (Nat.zero_le _)
  refine ⟨r, by rw [htrail.run (le_trans hlen hfuel)], ?_⟩
  obtain ⟨i, hmem, hleave⟩ := htrail.leaves
  have hi := htrail.forall_mem (fun i i' hi ht => (hround i i' hi ht).1) (Nat.zero_le _) i hmem
  obtain ⟨cap, hcell, -⟩ := cell_withEnd hi
  rintro rfl
  by_cases hcap : cap = -1
  · subst hcap
    rw [raiseTurn_end hcell] at hleave
    cases hleave
  · rcases raiseTurn_cap hcell hcap with hraised | ⟨code, hexit⟩
    · rw [hraised] at hleave
      cases hleave
    · rw [hexit] at hleave
      cases hleave

/-- **`-c` never leads behind the list**: for every argument and whatever the system
answers, the program executes the new one or exits. -/
theorem ambientMain_ends (sys : CapSystem) {fuel : ℕ} {prog arg cmd : Str} {rest : List Str}
    (hfuel : arg.length + 3 < fuel) :
    ∃ r, (ambientMain sys fuel (prog :: dashC :: arg :: cmd :: rest)).val = some r ∧
      r ≠ .error .undefined := by
  rw [ambientMain_dashC]
  obtain ⟨r, hlist, hdefined⟩ : ∃ r, (get_caplist sys fuel arg).val = some r ∧ _ :=
    get_caplist_ends (by omega)
  rw [Traced.bind_val, hlist]
  cases r with
  | error abort =>
    refine ⟨.error abort, rfl, fun heq => hdefined ?_⟩
    obtain rfl := Except.error.inj heq
    rfl
  | ok caplist =>
    obtain rfl := get_caplist_val hlist
    dsimp only
    rw [stored_values]
    have hcount : (values arg).length < fuel := by
      have htokens : (tokens comma arg).length ≤ arg.length := length_tokens_le arg
      rw [values]
      split
      next => simp only [List.length_cons, List.length_nil]; omega
      next => rw [List.length_map]; omega
    obtain ⟨r, hrun, hdefined⟩ : ∃ r, (Loop.run (raiseTurn sys (withEnd (values arg))) fuel
        0).val = some r ∧ _ := raise_ends hcount
    rw [raiseAndExec, Traced.bind_val, hrun]
    cases r with
    | error abort =>
      refine ⟨.error abort, rfl, fun heq => hdefined ?_⟩
      obtain rfl := Except.error.inj heq
      rfl
    | ok _ => exact ⟨.ok 3, rfl, nofun⟩

/-! ## What the argument names -/

/-- What is raised is what the tokens name, in order and once per token. -/
def RaisesNamed (arg : Str) (l : List CapEvent) : Prop :=
  (raised l).map some = (tokens comma arg).map number

/-- The array can say what the argument names: there is a token, and every token is a
number that is an `int` other than the `-1` that ends the array. -/
def Listable (arg : Str) : Prop :=
  tokens comma arg ≠ [] ∧
    ∀ tok ∈ tokens comma arg, ∃ v, number tok = some v ∧ IsInt v ∧ v ≠ -1

/-- **The program raises what its argument names exactly when the array can say it.**
A token that is no number counts as some number, a `-1` cuts the list short, and no
token at all stands for the default list. -/
theorem raises_named_iff (sys : CapSystem) {fuel index : ℕ} {prog arg cmd : Str} {rest : List Str}
    (hexec : (ambientMain sys fuel (prog :: dashC :: arg :: cmd :: rest)).val =
      some (.ok index)) :
    RaisesNamed arg (ambientMain sys fuel (prog :: dashC :: arg :: cmd :: rest)).log ↔
      Listable arg := by
  rw [RaisesNamed, raised_ambientMain hexec, Listable, values]
  cases htokens : tokens comma arg with
  | nil => simp [CAP_NET_RAW, CAP_NET_ADMIN, CAP_SYS_NICE]
  | cons tok toks =>
    rw [if_neg (List.cons_ne_nil tok toks)]
    refine ⟨?_, ?_⟩
    · -- as many values as tokens are left before the first `-1`, so there is none
      intro hnamed
      have hall : ((tok :: toks).map atoi).takeWhile (· ≠ -1) = (tok :: toks).map atoi := by
        refine (List.takeWhile_prefix _).eq_of_length ?_
        have hlen := congrArg List.length hnamed
        simpa using hlen
      rw [hall, List.map_map] at hnamed
      refine ⟨List.cons_ne_nil tok toks, fun t ht => ⟨atoi t, ?_, isInt_atoi t, ?_⟩⟩
      · exact (List.map_inj_left.mp hnamed t ht).symm
      · have hne := List.takeWhile_eq_self_iff.mp hall (atoi t) (List.mem_map_of_mem ht)
        simpa using hne
    · rintro ⟨-, hnumber⟩
      have hatoi : ∀ t ∈ tok :: toks, number t = some (atoi t) ∧ atoi t ≠ -1 := by
        intro t ht
        obtain ⟨v, hv, hint, hne⟩ := hnumber t ht
        rw [atoi_of_number hv hint]
        exact ⟨hv, hne⟩
      have hall : ((tok :: toks).map atoi).takeWhile (· ≠ -1) = (tok :: toks).map atoi := by
        refine List.takeWhile_eq_self_iff.mpr fun v hv => ?_
        obtain ⟨t, ht, rfl⟩ := List.mem_map.mp hv
        simpa using (hatoi t ht).2
      rw [hall, List.map_map]
      exact List.map_congr_left fun t ht => (hatoi t ht).1.symm

/-- A system that grants everything. -/
def permissive : CapSystem := ⟨fun _ => true, fun _ _ => 0, fun _ _ => 0⟩

/-- `ambient -c 13,12 sh` raises the two capabilities it names. -/
theorem raises_named_two :
    RaisesNamed [0x31, 0x33, 0x2c, 0x31, 0x32]
      (ambientMain permissive 9 [[], dashC, [0x31, 0x33, 0x2c, 0x31, 0x32], [0x73, 0x68]]).log ↔
    Listable [0x31, 0x33, 0x2c, 0x31, 0x32] :=
  raises_named_iff permissive (show (ambientMain permissive 9 [[], dashC,
    [0x31, 0x33, 0x2c, 0x31, 0x32], [0x73, 0x68]]).val = some (.ok 3) by decide +kernel)

/-- `ambient -c , sh` names no capability and raises three. -/
theorem comma_raises_default :
    (ambientMain permissive 9 [[], dashC, [0x2c], [0x73, 0x68]]).val = some (.ok 3) ∧
      ¬ RaisesNamed [0x2c] (ambientMain permissive 9 [[], dashC, [0x2c], [0x73, 0x68]]).log := by
  rw [RaisesNamed]
  decide +kernel

/-! ## The array, turn by turn -/

/-- The head of the loop in `get_caplist`: `i - 1` values are stored, and `-1` behind them. -/
def CaplistWalk.Inv (s : CaplistWalk) : Prop := ∃ vs : List ℤ, s.i = vs.length + 1 ∧ s.list = stored vs

/-- One turn of the loop that goes round from `s` to `s'`, logging `log`. -/
structure CaplistTurn (s s' : CaplistWalk) (log : List CapEvent) : Prop where
  /-- the counter is the number of the turn -/
  pos : 1 ≤ s.i
  /-- both stores go to the array of `i + 1` integers just reallocated -/
  stores : log = [.store (s.i - 1) (s.i + 1), .store s.i (s.i + 1)]
  /-- both stores fall inside the array -/
  inside : s.i - 1 < s.i + 1 ∧ s.i < s.i + 1
  /-- the values stored by earlier turns stay -/
  kept : ∀ j < s.i - 1, ∃ v : ℤ, (s.list.getD [])[j]? = some (some v) ∧
    (s'.list.getD [])[j]? = some (some v)

/-- The values of an array are at its first indices. -/
theorem getElem?_stored {vs : List ℤ} {j : ℕ} (h : j < vs.length) :
    ((stored vs).getD [])[j]? = some (some vs[j]) := by
  cases vs with
  | nil => cases h
  | cons v vs =>
    rw [stored, Option.getD_some, List.getElem?_append_left (by simpa using h), List.getElem?_map,
      List.getElem?_eq_getElem h]
    rfl

/-- The `-1` of an array is at the index behind its values. -/
theorem getElem?_stored_length (vs : List ℤ) (h : vs ≠ []) :
    ((stored vs).getD [])[vs.length]? = some (some (-1)) := by
  cases vs with
  | nil => exact absurd rfl h
  | cons v vs => simp [stored]

/-- **A turn that goes round stores one value more**, and loses none. -/
theorem caplistTurn_keeps {s s' : CaplistWalk} (hs : s.Inv)
    (hturn : (caplistTurn sys s).val = .inl s') :
    s'.Inv ∧ CaplistTurn s s' (caplistTurn sys s).log := by
  obtain ⟨rest, i, list⟩ := s
  obtain ⟨vs, hi, hlist⟩ := hs
  obtain rfl : i = vs.length + 1 := hi
  obtain rfl : list = stored vs := hlist
  cases htok : strtok comma rest with
  | none => simp [caplistTurn, htok] at hturn
  | some p =>
    obtain ⟨tok, rest'⟩ := p
    by_cases hrealloc : sys.realloc (vs.length + 1)
    · rw [caplistTurn_token hrealloc htok] at hturn
      obtain rfl := Sum.inl.inj hturn
      refine ⟨⟨vs ++ [atoi tok], by simp, rfl⟩, by simp, ?_,
        ⟨Nat.lt_succ_of_le (Nat.sub_le _ 1), Nat.lt_succ_self _⟩, fun j hj => ?_⟩
      · simp [caplistTurn, htok, hrealloc]
      · have hlt : j < vs.length := by simpa using hj
        refine ⟨vs[j], getElem?_stored hlt, ?_⟩
        rw [getElem?_stored (by rw [List.length_append]; omega), List.getElem_append_left hlt]
    · simp [caplistTurn, htok, hrealloc] at hturn

/-- With memory for every `realloc` the loop leaves with a list. -/
theorem get_caplist_returns (hrealloc : ∀ i, sys.realloc i) {fuel : ℕ} {arg : Str}
    (hfuel : arg.length < fuel) :
    (get_caplist sys fuel arg).val = some (.ok (stored ((tokens comma arg).map atoi))) := by
  obtain ⟨r, hr, -⟩ : ∃ r, (get_caplist sys fuel arg).val = some r ∧ _ := get_caplist_ends hfuel
  cases r with
  | ok caplist => rw [hr, get_caplist_val hr]
  | error abort =>
    obtain ⟨ss, htrail, -⟩ := Loop.exists_trail hr
    obtain ⟨s, -, hleave⟩ := htrail.leaves
    rw [caplistTurn] at hleave
    split at hleave
    next => cases hleave
    next =>
      rw [if_neg (by simp [hrealloc])] at hleave
      cases hleave

/-- **What `get_caplist` makes of every argument**: `NULL`, or an array of the values of the
tokens and `-1`; and no turn on the way stores outside the array or loses a value. -/
theorem get_caplist_array (sys : CapSystem) (hrealloc : ∀ i, sys.realloc i) {fuel : ℕ} (arg : Str)
    (hfuel : arg.length < fuel) :
    (∃ caplist, (get_caplist sys fuel arg).val = some (.ok caplist) ∧
      (tokens comma arg = [] → caplist = none) ∧
      (tokens comma arg ≠ [] → ∃ list : Cells, caplist = some list ∧
        (∀ (j : ℕ) (tok : Str), (tokens comma arg)[j]? = some tok → list[j]? = some (some (atoi tok))) ∧
        list[(tokens comma arg).length]? = some (some (-1)))) ∧
    ∀ s s', Loop.Reaches (caplistTurn sys) ⟨arg, 1, none⟩ s → (caplistTurn sys s).val = .inl s' →
      CaplistTurn s s' (caplistTurn sys s).log := by
  refine ⟨⟨_, get_caplist_returns hrealloc hfuel, fun hnil => ?_, fun hne => ?_⟩,
    fun s s' hreach hturn => ?_⟩
  · rw [hnil, List.map_nil, stored]
  · obtain ⟨list, hlist⟩ : ∃ list, stored ((tokens comma arg).map atoi) = some list := by
      cases h : (tokens comma arg).map atoi with
      | nil => exact absurd (List.map_eq_nil_iff.mp h) hne
      | cons v vs => exact ⟨_, rfl⟩
    have hget : list = (stored ((tokens comma arg).map atoi)).getD [] := by
      rw [hlist, Option.getD_some]
    refine ⟨list, hlist, fun j tok htok => ?_, ?_⟩
    · obtain ⟨hj, rfl⟩ := List.getElem?_eq_some_iff.mp htok
      rw [hget, getElem?_stored (by rwa [List.length_map]), List.getElem_map]
    · have hlast := getElem?_stored_length ((tokens comma arg).map atoi)
        (fun h => hne (List.map_eq_nil_iff.mp h))
      rwa [List.length_map, ← hget] at hlast
  · have hstart : (⟨arg, 1, none⟩ : CaplistWalk).Inv := ⟨[], rfl, rfl⟩
    have hs : s.Inv := hreach.inv (fun _ _ hs hturn => (caplistTurn_keeps hs hturn).1) hstart
    exact (caplistTurn_keeps hs hturn).2

/-- The theorem at `,13,,12,`, which has two tokens. -/
theorem get_caplist_array_two :
    ∃ list : Cells, (get_caplist permissive 9 [0x2c, 0x31, 0x33, 0x2c, 0x2c, 0x31, 0x32, 0x2c]).val =
      some (.ok (some list)) ∧ list[2]? = some (some (-1)) := by
  have hlen : (tokens comma [0x2c, 0x31, 0x33, 0x2c, 0x2c, 0x31, 0x32, 0x2c]).length = 2 := by
    decide +kernel
  obtain ⟨⟨caplist, hval, -, harray⟩, -⟩ := get_caplist_array permissive (fun _ => rfl)
    [0x2c, 0x31, 0x33, 0x2c, 0x2c, 0x31, 0x32, 0x2c] (show _ < 9 by decide)
  obtain ⟨list, rfl, -, hlast⟩ := harray fun h => by rw [h] at hlen; cases hlen
  exact ⟨list, hval, hlen ▸ hlast⟩

end StudyTips
