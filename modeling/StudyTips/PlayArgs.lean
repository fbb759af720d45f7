import Mathlib.Data.List.Forall2
import StudyTips.Detect
import StudyTips.PyInt

/-!
# `python/playmusic.py` from its command line on

The timings are on the command line, one an argument, the hour before a colon and the
minute behind it. An argument that stands for none raises an exception, before anything is
played.

* `playmusicMain_ends`: which command lines play, which raise what, and which are told the
  usage.
* `playmusicMain_written`: timings that are written out are the timings it plays by.
* `playmusicMain_starts_iff`: for which readings of the clock a child is started.
* `playmusicMain_ever_starts_iff`: on which command lines there is such a reading at all.
-/

namespace StudyTips

open Calendar PyText

/-- What an argument can raise. -/
inductive ArgError : Type where
  /-- a text is no number -/
  | ValueError
  /-- a text has no minute -/
  | IndexError
  deriving DecidableEq

/-- How the program ends, or goes on. -/
inductive MainEnd : Type where
  /-- the usage is printed -/
  | usage
  /-- an exception ends the program -/
  | raised (e : ArgError)
  /-- `detect` runs -/
  | detecting (ended : Option Unit)
  deriving DecidableEq

section Main

variable (c : Characters)

/-- `parse_arg_list[i]`. -/
def listItem (parse_arg_list : List (List Char)) (i : ℕ) : Except ArgError (List Char) :=
  match parse_arg_list[i]? with
  | none => .error .IndexError
  | some s => .ok s

/-- `int(s)`. -/
def intOf (s : List Char) : Except ArgError ℤ :=
  match c.int s with
  | none => .error .ValueError
  | some n => .ok n

/-- The timing of an argument. -/
def parseArg (arg : List Char) : Except ArgError Timing := do
  let parse_arg_list := arg.splitOn ':'
  let hour ← intOf c (← listItem parse_arg_list 0)
  let minute ← intOf c (← listItem parse_arg_list 1)
  pure (hour, minute)

/-- The loop over the arguments, from an `argv_index` on. -/
def parseArgs : List (List Char) → List Timing → Except ArgError (List Timing)
  | [], timing_list => .ok timing_list
  | arg :: argv, timing_list => do
    let item ← parseArg c arg
    parseArgs argv (timing_list ++ [item])

/-- The program with its `sys.argv`, with fuel for a call of `play` and turns for `detect`. -/
def playmusicMain (sys : PlaySystem) (argv : List (List Char)) (fuel turns : ℕ) :
    Traced PlayEvent MainEnd :=
  if argv.length ≥ 2 then
    match parseArgs c (argv.drop 1) [] with
    | .error e => pure (.raised e)
    | .ok timing_list => .detecting <$> detect sys timing_list fuel turns
  else pure .usage

/-! ## One argument -/

/-- **An argument stands for a timing**: two literals with a colon between them, and perhaps
something behind another colon. -/
def Stands (arg : List Char) (t : Timing) : Prop :=
  ∃ hour minute rest, arg = hour ++ ':' :: (minute ++ rest) ∧ (∀ x ∈ rest.head?, x = ':') ∧
    c.Literal hour t.1 ∧ c.Literal minute t.2

/-- What an argument that stands for none raises: a number alone lacks its minute. -/
def Raises (arg : List Char) : ArgError → Prop
  | .IndexError => ∃ n, c.Literal arg n
  | .ValueError => (¬ ∃ t, Stands c arg t) ∧ ¬ ∃ n, c.Literal arg n

end Main

variable {c : Characters}

/-- There is no colon in a literal. -/
theorem colon_not_mem {s : List Char} {n : ℤ} (h : c.Literal s n) : ':' ∉ s := by
  intro hmem
  rcases h.mem hmem with hspace | hdigit | hmark
  · rw [c.isspace_ascii ':' (by decide) (by decide)] at hspace
    cases hspace
  · exact hdigit (Characters.decimal_mark (by decide) (by decide))
  · exact absurd hmark (by decide)

/-- An argument is split at its first colons. -/
theorem splitOn_stands {hour minute rest : List Char} (hhour : ':' ∉ hour)
    (hminute : ':' ∉ minute) (hrest : ∀ x ∈ rest.head?, x = ':') :
    ∃ l, (hour ++ ':' :: (minute ++ rest)).splitOn ':' = hour :: minute :: l := by
  rw [List.splitOn_append_cons_self_of_not_mem hhour]
  cases rest with
  | nil => exact ⟨[], by rw [List.append_nil, List.splitOn_eq_singleton hminute]⟩
  | cons x rest =>
    obtain rfl := hrest x rfl
    exact ⟨rest.splitOn ':', by rw [List.splitOn_append_cons_self_of_not_mem hminute]⟩

/-- What an argument was before it was split. -/
theorem eq_of_splitOn {arg hour minute : List Char} {l : List (List Char)}
    (h : arg.splitOn ':' = hour :: minute :: l) :
    ∃ rest, arg = hour ++ ':' :: (minute ++ rest) ∧ ∀ x ∈ rest.head?, x = ':' := by
  have harg : [':'].intercalate (arg.splitOn ':') = arg := List.intercalate_splitOn ':'
  rw [h] at harg
  cases l with
  | nil => exact ⟨[], by simpa [List.intercalate] using harg.symm, nofun⟩
  | cons s l =>
    refine ⟨':' :: [':'].intercalate (s :: l), ?_, fun x hx => (Option.some.inj hx).symm⟩
    rw [← harg]
    simp

/-- **An argument that stands for a timing is taken for it.** -/
theorem Stands.parseArg_eq {arg : List Char} {t : Timing} (h : Stands c arg t) :
    parseArg c arg = .ok t := by
  obtain ⟨hour, minute, rest, rfl, hrest, hhour, hminute⟩ := h
  obtain ⟨l, hl⟩ := splitOn_stands (colon_not_mem hhour) (colon_not_mem hminute) hrest
  have hhour' := Characters.int_eq_some_iff.mpr hhour
  have hminute' := Characters.int_eq_some_iff.mpr hminute
  rw [parseArg, hl]
  simp only [listItem, List.getElem?_cons_zero, List.getElem?_cons_succ, intOf, bind, Except.bind,
    hhour', hminute']
  rfl

/-- A number alone has no minute. -/
theorem parseArg_of_literal {arg : List Char} {n : ℤ} (h : c.Literal arg n) :
    parseArg c arg = .error .IndexError := by
  have hint := Characters.int_eq_some_iff.mpr h
  rw [parseArg, List.splitOn_eq_singleton (colon_not_mem h)]
  simp only [listItem, List.getElem?_cons_zero, intOf, bind, Except.bind, hint]
  rfl

/-- What is taken stands for it, and an argument that lacks its minute is a number alone. -/
theorem parseArg_sound (arg : List Char) :
    (∃ t, parseArg c arg = .ok t ∧ Stands c arg t) ∨ parseArg c arg = .error .ValueError ∨
      ∃ n, c.Literal arg n := by
  cases hsplit : arg.splitOn ':' with
  | nil => exact absurd hsplit (List.splitOn_ne_nil ':' arg)
  | cons hour l =>
    cases hhour : c.int hour with
    | none =>
      refine .inr (.inl ?_)
      rw [parseArg, hsplit]
      simp only [listItem, List.getElem?_cons_zero, intOf, bind, Except.bind, hhour]
    | some n =>
      have hn := Characters.int_eq_some_iff.mp hhour
      cases l with
      | nil =>
        have harg : [':'].intercalate (arg.splitOn ':') = arg := List.intercalate_splitOn ':'
        rw [hsplit] at harg
        obtain rfl : hour = arg := by simpa using harg
        exact .inr (.inr ⟨n, hn⟩)
      | cons minute l =>
        cases hminute : c.int minute with
        | none =>
          refine .inr (.inl ?_)
          rw [parseArg, hsplit]
          simp only [listItem, List.getElem?_cons_zero, List.getElem?_cons_succ, intOf, bind,
            Except.bind, hhour, hminute]
        | some m =>
          have hm := Characters.int_eq_some_iff.mp hminute
          obtain ⟨rest, harg, hrest⟩ := eq_of_splitOn hsplit
          have hstands : Stands c arg (n, m) := ⟨hour, minute, rest, harg, hrest, hn, hm⟩
          exact .inl ⟨(n, m), hstands.parseArg_eq, hstands⟩

/-- **An argument is taken for a timing** exactly if it stands for it. -/
theorem parseArg_eq_ok_iff {arg : List Char} {t : Timing} :
    parseArg c arg = .ok t ↔ Stands c arg t := by
  refine ⟨fun h => ?_, Stands.parseArg_eq⟩
  rcases parseArg_sound arg with ⟨t', ht', hstands⟩ | herror | ⟨n, hn⟩
  · rw [ht'] at h
    cases h
    exact hstands
  · rw [herror] at h
    cases h
  · rw [parseArg_of_literal hn] at h
    cases h

/-- An argument raises an exception exactly as `Raises` says. -/
theorem parseArg_eq_error_iff {arg : List Char} {e : ArgError} :
    parseArg c arg = .error e ↔ Raises c arg e := by
  cases e with
  | IndexError =>
    refine ⟨fun h => ?_, fun ⟨n, hn⟩ => parseArg_of_literal hn⟩
    rcases parseArg_sound arg with ⟨t, ht, -⟩ | herror | hliteral
    · rw [ht] at h
      cases h
    · rw [herror] at h
      cases h
    · exact hliteral
  | ValueError =>
    refine ⟨fun h => ⟨fun ⟨t, ht⟩ => ?_, fun ⟨n, hn⟩ => ?_⟩, fun ⟨hstands, hliteral⟩ => ?_⟩
    · rw [ht.parseArg_eq] at h
      cases h
    · rw [parseArg_of_literal hn] at h
      cases h
    · rcases parseArg_sound arg with ⟨t, -, ht⟩ | herror | hn
      · exact absurd ⟨t, ht⟩ hstands
      · exact herror
      · exact absurd hn hliteral

/-! ## The command line -/

/-- **All arguments are taken if each stands for a timing**, in their order. -/
theorem parseArgs_eq_ok_iff {argv : List (List Char)} {timing_list l : List Timing} :
    parseArgs c argv timing_list = .ok l ↔
      ∃ ts, l = timing_list ++ ts ∧ List.Forall₂ (Stands c) argv ts := by
  induction argv generalizing timing_list with
  | nil =>
    rw [parseArgs]
    constructor
    · rintro h
      cases h
      exact ⟨[], (List.append_nil _).symm, .nil⟩
    · rintro ⟨ts, rfl, hts⟩
      cases hts
      rw [List.append_nil]
  | cons arg argv ih =>
    rw [parseArgs]
    constructor
    · intro h
      cases harg : parseArg c arg with
      | error e =>
        rw [harg] at h
        cases h
      | ok t =>
        rw [harg] at h
        obtain ⟨ts, rfl, hts⟩ := ih.mp h
        exact ⟨t :: ts, by simp, .cons (parseArg_eq_ok_iff.mp harg) hts⟩
    · rintro ⟨ts, rfl, hts⟩
      cases hts with
      | cons ht hts =>
        rw [ht.parseArg_eq]
        exact ih.mpr ⟨_, by simp, hts⟩

/-- **The first argument that stands for none is what is raised.** -/
theorem parseArgs_eq_error_iff {argv : List (List Char)} {timing_list : List Timing}
    {e : ArgError} : parseArgs c argv timing_list = .error e ↔
      ∃ before arg behind, argv = before ++ arg :: behind ∧
        (∀ arg' ∈ before, ∃ t, Stands c arg' t) ∧ Raises c arg e := by
  induction argv generalizing timing_list with
  | nil =>
    constructor
    · intro h
      cases h
    · rintro ⟨before, arg, behind, h, -⟩
      cases before <;> cases h
  | cons arg argv ih =>
    rw [parseArgs]
    constructor
    · intro h
      cases harg : parseArg c arg with
      | error e' =>
        rw [harg] at h
        cases h
        exact ⟨[], arg, argv, rfl, nofun, parseArg_eq_error_iff.mp harg⟩
      | ok t =>
        rw [harg] at h
        obtain ⟨before, arg', behind, rfl, hbefore, hraises⟩ := ih.mp h
        refine ⟨arg :: before, arg', behind, rfl, ?_, hraises⟩
        exact List.forall_mem_cons.mpr ⟨⟨t, parseArg_eq_ok_iff.mp harg⟩, hbefore⟩
    · rintro ⟨before, arg', behind, h, hbefore, hraises⟩
      cases before with
      | nil =>
        cases h
        rw [parseArg_eq_error_iff.mpr hraises]
        rfl
      | cons arg'' before =>
        cases h
        obtain ⟨⟨t, ht⟩, hbefore⟩ := List.forall_mem_cons.mp hbefore
        rw [ht.parseArg_eq]
        exact ih.mpr ⟨before, arg', behind, rfl, hbefore, hraises⟩

/-- Every argument stands for one of the timings, and every timing comes from an argument. -/
theorem exists_of_stands {argv : List (List Char)} {ts : List Timing}
    (h : List.Forall₂ (Stands c) argv ts) : (∀ arg ∈ argv, ∃ t ∈ ts, Stands c arg t) ∧
      ∀ t ∈ ts, ∃ arg ∈ argv, Stands c arg t := by
  induction h with
  | nil => exact ⟨nofun, nofun⟩
  | cons ht _ ih =>
    refine ⟨List.forall_mem_cons.mpr ⟨⟨_, List.mem_cons_self, ht⟩, fun arg harg => ?_⟩,
      List.forall_mem_cons.mpr ⟨⟨_, List.mem_cons_self, ht⟩, fun t ht => ?_⟩⟩
    · obtain ⟨t, hmem, ht⟩ := ih.1 arg harg
      exact ⟨t, List.mem_cons_of_mem _ hmem, ht⟩
    · obtain ⟨arg, hmem, harg⟩ := ih.2 t ht
      exact ⟨arg, List.mem_cons_of_mem _ hmem, harg⟩

/-- What a command line comes to. -/
structure ComesTo (c : Characters) (argv : List (List Char)) (run : Traced PlayEvent MainEnd) :
    Prop where
  /-- the usage is printed exactly without arguments -/
  usage : run.val = .usage ↔ argv.length < 2
  /-- an exception is raised exactly by the first argument that stands for no timing -/
  raised : ∀ e, run.val = .raised e ↔ ∃ before arg behind, argv.tail = before ++ arg :: behind ∧
    (∀ arg' ∈ before, ∃ t, Stands c arg' t) ∧ Raises c arg e
  /-- `detect` runs exactly if there are arguments and all stand for timings -/
  detecting : (∃ ended, run.val = .detecting ended) ↔
    2 ≤ argv.length ∧ ∀ arg ∈ argv.tail, ∃ t, Stands c arg t
  /-- a program that does not come to `detect` does nothing -/
  quiet : (∀ ended, run.val ≠ .detecting ended) → run.log = []

/-- **What every command line comes to.** -/
theorem playmusicMain_ends (c : Characters) (sys : PlaySystem) (argv : List (List Char))
    (fuel turns : ℕ) : ComesTo c argv (playmusicMain c sys argv fuel turns) := by
  rw [playmusicMain, List.drop_one]
  by_cases hlen : argv.length ≥ 2
  case neg =>
    rw [if_neg hlen]
    have htail : argv.tail = [] := by
      rw [← List.length_eq_zero_iff, List.length_tail]
      omega
    refine ⟨⟨fun _ => by omega, fun _ => rfl⟩, fun e => ⟨nofun, ?_⟩, ⟨nofun, fun h => ?_⟩,
      fun _ => rfl⟩
    · rintro ⟨before, arg, behind, h, -⟩
      rw [htail] at h
      cases before <;> cases h
    · exact absurd h.1 hlen
  rw [if_pos hlen]
  cases hargs : parseArgs c argv.tail [] with
  | error e =>
    refine ⟨⟨nofun, fun h => by omega⟩, fun e' => ⟨?_, fun h => ?_⟩, ⟨nofun, fun ⟨_, hall⟩ => ?_⟩,
      fun _ => rfl⟩
    · intro h
      cases h
      exact parseArgs_eq_error_iff.mp hargs
    · have herror : parseArgs c argv.tail [] = .error e' := parseArgs_eq_error_iff.mpr h
      rw [hargs] at herror
      cases herror
      rfl
    · obtain ⟨before, arg, behind, htail, -, hraises⟩ := parseArgs_eq_error_iff.mp hargs
      obtain ⟨t, ht⟩ := hall arg (by rw [htail]; simp)
      rw [← parseArg_eq_error_iff, ht.parseArg_eq] at hraises
      cases hraises
  | ok l =>
    obtain ⟨ts, -, hts⟩ := parseArgs_eq_ok_iff.mp hargs
    have hall : ∀ arg ∈ argv.tail, ∃ t, Stands c arg t := fun arg harg => by
      obtain ⟨t, -, ht⟩ := (exists_of_stands hts).1 arg harg
      exact ⟨t, ht⟩
    refine ⟨⟨nofun, fun h => by omega⟩, fun e => ⟨nofun, fun h => ?_⟩,
      ⟨fun _ => ⟨hlen, hall⟩, fun _ => ⟨_, rfl⟩⟩, fun h => absurd rfl (h _)⟩
    have herror : parseArgs c argv.tail [] = .error e := parseArgs_eq_error_iff.mpr h
    rw [hargs] at herror
    cases herror

/-- A command line of timings goes on as `detect` with them. -/
theorem playmusicMain_eq {argv : List (List Char)} {l : List Timing} (hlen : 2 ≤ argv.length)
    (hargs : List.Forall₂ (Stands c) argv.tail l) (sys : PlaySystem) (fuel turns : ℕ) :
    playmusicMain c sys argv fuel turns = .detecting <$> detect sys l fuel turns := by
  have hparse : parseArgs c (argv.drop 1) [] = .ok l := by
    rw [List.drop_one]
    exact parseArgs_eq_ok_iff.mpr ⟨l, rfl, hargs⟩
  rw [playmusicMain, if_pos hlen, hparse]

/-- A time of day on the command line. -/
def written (t : ℕ × ℕ) : List Char := Nat.toDigits 10 t.1 ++ ':' :: Nat.toDigits 10 t.2

/-- What is written stands for the time. -/
theorem stands_written {t : ℕ × ℕ} (hhour : c.Allows (Nat.toDigits 10 t.1).length)
    (hminute : c.Allows (Nat.toDigits 10 t.2).length) : Stands c (written t) (t.1, t.2) :=
  ⟨Nat.toDigits 10 t.1, Nat.toDigits 10 t.2, [], by rw [List.append_nil]; rfl, nofun,
    Characters.literal_toDigits hhour, Characters.literal_toDigits hminute⟩

/-- **Times that are written on the command line are the timings played**, in their order. -/
theorem playmusicMain_written (sys : PlaySystem) (fuel turns : ℕ) (program : List Char)
    {ts : List (ℕ × ℕ)} (hne : ts ≠ []) (hallows : ∀ t ∈ ts,
      c.Allows (Nat.toDigits 10 t.1).length ∧ c.Allows (Nat.toDigits 10 t.2).length) :
    playmusicMain c sys (program :: ts.map written) fuel turns =
      .detecting <$> detect sys (ts.map fun t => ((t.1 : ℤ), (t.2 : ℤ))) fuel turns := by
  refine playmusicMain_eq ?_ ?_ sys fuel turns
  · have hlen := List.length_pos_iff.mpr hne
    rw [List.length_cons, List.length_map]
    omega
  · rw [List.tail_cons, List.forall₂_map_left_iff, List.forall₂_map_right_iff]
    exact List.forall₂_same.mpr fun t ht => stands_written (hallows t ht).1 (hallows t ht).2

/-- A space of ASCII comes before the graphic characters. -/
theorem toNat_le_of_isWhitespace {x : Char} (h : x.isWhitespace = true) : x.toNat ≤ 0x20 := by
  simp only [Char.isWhitespace, Bool.or_eq_true, decide_eq_true_eq] at h
  rcases h with ((rfl | rfl) | rfl) | rfl <;> decide

/-- The characters of ASCII only, and numbers of any length. -/
def ascii : Characters where
  isspace := Char.isWhitespace
  decimal x := if x.isDigit then some (x.toNat - 0x30) else none
  max_str_digits := 0
  isspace_decimal {x d} h := by
    by_contra hspace
    have hle := toNat_le_of_isWhitespace ((Bool.not_eq_false _).mp hspace)
    split at h
    next hdigit =>
      have hge : 0x30 ≤ x.toNat := (Char.isDigit_iff_toNat.mp hdigit).1
      omega
    next => cases h
  isspace_ascii x hx _ := by
    by_contra hspace
    have hle := toNat_le_of_isWhitespace ((Bool.not_eq_false _).mp hspace)
    omega
  decimal_ascii _ _ := rfl

/-- `8:0` and `10:4`. -/
theorem playmusicMain_written_two :
    playmusicMain ascii (stillClock newYear) ([] :: [(8, 0), (10, 4)].map written) 0 1 =
      .detecting <$> detect (stillClock newYear) [(8, 0), (10, 4)] 0 1 :=
  playmusicMain_written (stillClock newYear) 0 1 [] (by decide) fun _ _ => ⟨.inl rfl, .inl rfl⟩

/-! ## The children started -/

variable {sys : PlaySystem} {timing_list : List Timing} {fuel : ℕ}

/-- Music is due at a reading for a timing: at the time itself, or where it is put off to. -/
def DueFor (now : DateTime) (t : Timing) : Prop :=
  timeOf now = t ∨ Remembrance now.date ∧ timeOf now = (10, 5) ∧ t.1 = 10 ∧ t.2 < 5

/-- Music is due for a timing, outside the quiet minutes. -/
theorem isTiming_iff_dueFor {now : DateTime} : isTiming now timing_list = true ↔
    ¬ (Remembrance now.date ∧ timeOf now ∈ quietMinutes) ∧ ∃ t ∈ timing_list, DueFor now t := by
  rw [isTiming_eq_true, timeOf_mem_quietMinutes]
  refine and_congr_right fun _ => exists_congr fun t => and_congr_right fun _ => ?_
  rw [DueFor, timeOf_eq_ten_five, timeOf, Prod.ext_iff]
  constructor
  · rintro ⟨hhour, hminute | ⟨hdate, hten, hlt, hfive⟩⟩
    · exact .inl ⟨hhour, hminute⟩
    · refine .inr ⟨hdate, ⟨hten, hfive⟩, ?_, hlt⟩
      rw [← hhour, hten]
      rfl
  · rintro (⟨hhour, hminute⟩ | ⟨hdate, ⟨hten, hfive⟩, hhour, hlt⟩)
    · exact ⟨hhour, .inl hminute⟩
    · refine ⟨?_, .inr ⟨hdate, hten, hlt, hfive⟩⟩
      rw [hten, hhour]
      rfl

theorem mem_starts {now : DateTime} {l : List PlayEvent} : now ∈ starts l ↔ .start now ∈ l := by
  rw [starts, List.mem_filterMap]
  constructor
  · rintro ⟨e, he, hnow⟩
    cases e with
    | start now' =>
      obtain rfl := Option.some.inj hnow
      exact he
    | _ => cases hnow
  · exact fun h => ⟨.start now, h, rfl⟩

/-- A turn starts a child if music is due. -/
theorem starts_detectTurn (i : ℕ) : starts (detectTurn sys timing_list fuel i).log =
    if isTiming (sys.now i) timing_list then [sys.now i] else [] := by
  rcases detectTurn_cases sys timing_list fuel i with ⟨htiming, heq⟩ | ⟨htiming, -, heq⟩ |
    ⟨htiming, played, -, heq⟩
  · rw [heq, htiming]
    rfl
  · rw [heq, if_pos htiming]
    exact congrArg (sys.now i :: ·) (starts_play fuel)
  · have hplay : starts ((play sys fuel (sys.now i) (i + 1)).log ++ [.join]) = [] := by
      rw [starts_append, starts_play]
      rfl
    rw [heq, if_pos htiming]
    exact congrArg (sys.now i :: ·) hplay

/-- **Children are started for the readings of the loop at which music is due.** -/
theorem mem_starts_detect {now : DateTime} :
    (∃ turns, now ∈ starts (detect sys timing_list fuel turns).log) ↔
      (∃ i, Loop.Reaches (detectTurn sys timing_list fuel) 0 i ∧ sys.now i = now) ∧
        isTiming now timing_list = true := by
  have hturn : ∀ i, now ∈ starts (detectTurn sys timing_list fuel i).log ↔
      sys.now i = now ∧ isTiming now timing_list = true := by
    intro i
    rw [starts_detectTurn]
    split
    next h =>
      rw [List.mem_singleton]
      exact ⟨fun hnow => ⟨hnow.symm, hnow ▸ h⟩, fun h => h.1.symm⟩
    next h => exact ⟨nofun, fun ⟨hnow, htiming⟩ => absurd htiming (hnow ▸ h)⟩
  constructor
  · rintro ⟨turns, hmem⟩
    have hlog : ∀ i, Loop.Reaches (detectTurn sys timing_list fuel) 0 i →
        (detectTurn sys timing_list fuel i).All fun e => e = .start now →
          (∃ i, Loop.Reaches (detectTurn sys timing_list fuel) 0 i ∧ sys.now i = now) ∧
            isTiming now timing_list = true := by
      intro i hi e he hstart
      rw [hstart, ← mem_starts, hturn i] at he
      exact ⟨⟨i, hi, he.1⟩, he.2⟩
    have hall := Loop.all_run hlog (fun i i' hi hround => hi.tail hround) turns .refl
    exact hall _ (mem_starts.mp hmem) rfl
  · rintro ⟨⟨i, hreaches, hnow⟩, htiming⟩
    have hmem := mem_starts.mp ((hturn i).mpr ⟨hnow, htiming⟩)
    obtain ⟨turns, hlog⟩ := hreaches.mem_log hmem
    exact ⟨turns, mem_starts.mpr hlog⟩

/-- **The children of a whole run**, from the command line on: they are started for the readings
of the loop that are due for the timing of some argument, outside the quiet minutes, and for
every one of these. -/
theorem playmusicMain_starts_iff {argv : List (List Char)} {l : List Timing}
    (hlen : 2 ≤ argv.length) (hargs : List.Forall₂ (Stands c) argv.tail l) (sys : PlaySystem)
    (fuel : ℕ) (now : DateTime) :
    (∃ turns, now ∈ starts (playmusicMain c sys argv fuel turns).log) ↔
      (∃ i, Loop.Reaches (detectTurn sys l fuel) 0 i ∧ sys.now i = now) ∧
        ¬ (Remembrance now.date ∧ timeOf now ∈ quietMinutes) ∧
        ∃ arg ∈ argv.tail, ∃ t, Stands c arg t ∧ DueFor now t := by
  have hdue : (∃ t ∈ l, DueFor now t) ↔
      ∃ arg ∈ argv.tail, ∃ t, Stands c arg t ∧ DueFor now t := by
    constructor
    · rintro ⟨t, ht, hnow⟩
      obtain ⟨arg, harg, hstands⟩ := (exists_of_stands hargs).2 t ht
      exact ⟨arg, harg, t, hstands, hnow⟩
    · rintro ⟨arg, harg, t, hstands, hnow⟩
      obtain ⟨t', ht', hstands'⟩ := (exists_of_stands hargs).1 arg harg
      -- an argument stands for one timing only
      have heq := hstands.parseArg_eq.symm.trans hstands'.parseArg_eq
      cases heq
      exact ⟨t, ht', hnow⟩
  simp only [playmusicMain_eq hlen hargs, Traced.map_log]
  rw [mem_starts_detect, isTiming_iff_dueFor, hdue]

/-- A child is started at `8:00`. -/
theorem playmusicMain_starts_iff_eight : ∃ turns, newYear ∈ starts
    (playmusicMain ascii (stillClock newYear) [[], ['8', ':', '0', '0']] 0 turns).log := by
  have hstands : Stands ascii ['8', ':', '0', '0'] (8, 0) := parseArg_eq_ok_iff.mp rfl
  refine (playmusicMain_starts_iff (by decide) (.cons hstands .nil) (stillClock newYear) 0
    newYear).mpr ⟨⟨0, .refl, rfl⟩, fun ⟨hrem, _⟩ => absurd hrem.1 (by decide), ?_⟩
  exact ⟨_, List.mem_singleton_self _, (8, 0), hstands, .inl rfl⟩

/-! ## Timings that are never due -/

/-- There is a day with a time for which a timing is due: any time of day is, and behind the quiet
minutes of a day of remembrance also those before them. -/
theorem exists_due_iff (t : Timing) : (∃ now : DateTime,
    ¬ (Remembrance now.date ∧ timeOf now ∈ quietMinutes) ∧ DueFor now t) ↔
      t.Valid ∨ (t.1 = 10 ∧ t.2 < 0) := by
  constructor
  · rintro ⟨now, -, rfl | ⟨-, -, hten, hlt⟩⟩
    · have hhour := now.hour_lt
      have hminute := now.minute_lt
      refine .inl ⟨?_, ?_, ?_, ?_⟩ <;> dsimp only [timeOf] <;> omega
    · by_cases hneg : t.2 < 0
      · exact .inr ⟨hten, hneg⟩
      · exact .inl ⟨by omega, by omega, by omega, by omega⟩
  · rintro (hvalid | ⟨hten, hneg⟩)
    · -- on a day that is not one of remembrance
      obtain ⟨now, hdate, htime⟩ := exists_timeOf hvalid newYear.date
      refine ⟨now, fun ⟨hrem, _⟩ => ?_, .inl htime⟩
      rw [hdate] at hrem
      exact absurd hrem.1 (by decide)
    · obtain ⟨now, hdate, htime⟩ := exists_timeOf
        (by decide : Timing.Valid (10, 5)) december13
      refine ⟨now, fun ⟨_, hquiet⟩ => ?_, .inr ⟨?_, htime, hten, by omega⟩⟩
      · rw [htime] at hquiet
        exact absurd hquiet.2.2 (by decide)
      · rw [hdate]
        exact ⟨rfl, rfl⟩

/-- **Which command lines ever start a child**, on whatever system and however long they run: those
with an argument for a time of day, or for a minute below zero of the hour of remembrance. -/
theorem playmusicMain_ever_starts_iff {argv : List (List Char)} {l : List Timing}
    (hlen : 2 ≤ argv.length) (hargs : List.Forall₂ (Stands c) argv.tail l) :
    (∃ sys fuel turns, starts (playmusicMain c sys argv fuel turns).log ≠ []) ↔
      ∃ t ∈ l, t.Valid ∨ (t.1 = 10 ∧ t.2 < 0) := by
  constructor
  · rintro ⟨sys, fuel, turns, hne⟩
    obtain ⟨now, hnow⟩ := List.exists_mem_of_ne_nil _ hne
    rw [playmusicMain_eq hlen hargs, Traced.map_log] at hnow
    obtain ⟨-, htiming⟩ := mem_starts_detect.mp ⟨turns, hnow⟩
    obtain ⟨hloud, t, ht, hdue⟩ := isTiming_iff_dueFor.mp htiming
    exact ⟨t, ht, (exists_due_iff t).mp ⟨now, hloud, hdue⟩⟩
  · rintro ⟨t, ht, hdue⟩
    obtain ⟨now, hloud, hdue⟩ := (exists_due_iff t).mpr hdue
    -- the clock may stand at that time
    have hstarts : ∃ turns, now ∈ starts (detect (stillClock now) l 0 turns).log :=
      mem_starts_detect.mpr ⟨⟨0, .refl, rfl⟩, isTiming_iff_dueFor.mpr ⟨hloud, t, ht, hdue⟩⟩
    obtain ⟨turns, hmem⟩ := hstarts
    refine ⟨stillClock now, 0, turns, List.ne_nil_of_mem (a := now) ?_⟩
    rw [playmusicMain_eq hlen hargs, Traced.map_log]
    exact hmem

/-- `10:-3` stands for a timing. -/
theorem stands_tenMinusThree : Stands ascii ['1', '0', ':', '-', '3'] (10, -3) :=
  parseArg_eq_ok_iff.mp rfl

/-- `10:-3` starts one on some day. -/
theorem playmusicMain_ever_starts_iff_tenMinusThree : ∃ sys fuel turns,
    starts (playmusicMain ascii sys [[], ['1', '0', ':', '-', '3']] fuel turns).log ≠ [] :=
  (playmusicMain_ever_starts_iff (by decide) (.cons stands_tenMinusThree .nil)).mpr
    ⟨(10, -3), List.mem_singleton_self _, .inr (by decide)⟩

end StudyTips
