import StudyTips.Calendar
import StudyTips.Loop

/-!
# `python/playmusic.py`: what `play` plays

`play` plays the mp3 files of the directory one behind the other, until the last has stopped or
`play_long` seconds are over.

* `play_playsInOrder`: a run of `play` has loaded its paths in order, one more with every stop
  event polled.
* `play_stops_iff`: it stops for the time exactly where the first reading past the time is
  not shortly behind a whole number of days, which is as far as `.seconds` sees.
-/

namespace StudyTips

open Calendar

/-- `play_long`, in seconds. -/
def play_long : ℤ := 2 * 10 * 60

/-- A file name, as the characters of a `str`. -/
abbrev Path : Type := List Char

/-- `ismp3(path)`. -/
def ismp3 (path : Path) : Bool := ['.', 'm', 'p', '3'].isSuffixOf path

/-- What the system answers. The calls of `datetime.datetime.now()` are numbered over the whole
run, and with them what is asked for in the same turn of a loop. -/
structure PlaySystem : Type where
  /-- `USEREVENT` -/
  USEREVENT : ℤ
  /-- the `i`-th reading of the clock -/
  now : ℕ → DateTime
  /-- the clock never goes back -/
  mono : Monotone now
  /-- the type of the event polled behind the `i`-th reading -/
  poll : ℕ → ℤ
  /-- the files in the directory of a child whose first reading is the `i`-th -/
  listdir : ℕ → List Path

/-- What the program does. -/
inductive PlayEvent : Type where
  /-- a child is started for the reading `now` -/
  | start (now : DateTime)
  /-- the child has ended -/
  | join
  /-- `mixer.init()` -/
  | mixerInit
  /-- `pygame.init()` -/
  | pygameInit
  /-- `mixer.music.set_endevent(type)` -/
  | setEndevent (type : ℤ)
  /-- `mixer.music.set_volume(volume)` -/
  | setVolume (volume : ℕ)
  /-- `mixer.music.load(path)` -/
  | load (path : Path)
  /-- `mixer.music.play()` -/
  | play
  /-- the clock reads `now` at the test of a loop -/
  | now (now : DateTime)
  /-- `time.sleep(seconds)` -/
  | sleep (seconds : ℕ)
  /-- `pygame.event.poll()` hands out an event of a type -/
  | poll (type : ℤ)
  /-- `mixer.quit()` -/
  | mixerQuit
  /-- `pygame.quit()` -/
  | pygameQuit
  deriving DecidableEq

/-- What a call of `play` can raise. -/
inductive PyError : Type where
  /-- a list is indexed past its end -/
  | IndexError
  deriving DecidableEq

/-- How a call of `play` ends. -/
structure Played : Type where
  /-- what the call returns or raises -/
  result : Except PyError Unit
  /-- the next reading of the clock -/
  next : ℕ

/-- The head of the loop in `play`. -/
structure Playback : Type where
  /-- the next reading of the clock -/
  i : ℕ
  /-- `cur` -/
  cur : ℕ

section Play

variable (sys : PlaySystem)

/-- `STOPEVENT` -/
def PlaySystem.STOPEVENT : ℤ := sys.USEREVENT + 1

/-- One turn of the loop in `play`; it leaves with the end of the call. -/
def playTurn (start : DateTime) (paths : List Path) (s : Playback) :
    Traced PlayEvent (Playback ⊕ Played) := do
  .emit (.now (sys.now s.i))
  if seconds ((sys.now s.i).sub start) < play_long then do
    .emit (.sleep 1)
    .emit (.poll (sys.poll s.i))
    if sys.poll s.i = sys.STOPEVENT then
      let cur := s.cur + 1
      if cur ≠ paths.length then
        match paths[cur]? with
        | none => pure (.inr ⟨.error .IndexError, s.i + 1⟩)
        | some path => do
          .emit (.load path)
          .emit .play
          pure (.inl ⟨s.i + 1, cur⟩)
      else pure (.inr ⟨.ok (), s.i + 1⟩)
    else pure (.inl ⟨s.i + 1, s.cur⟩)
  else pure (.inr ⟨.ok (), s.i + 1⟩)

/-- `play(start)` in a child started so that its first reading of the clock is the `i`-th; `none`
while it still plays. -/
def play (fuel : ℕ) (start : DateTime) (i : ℕ) : Traced PlayEvent (Option Played) :=
  let paths := (sys.listdir i).filter ismp3
  if paths.length > 0 then do
    let cur := 0
    .emit .mixerInit
    .emit .pygameInit
    .emit (.setEndevent sys.STOPEVENT)
    .emit (.setVolume 1)
    match paths[cur]? with
    | none => pure (some ⟨.error .IndexError, i⟩)
    | some path => do
      .emit (.load path)
      .emit .play
      match ← Loop.run (playTurn sys start paths) fuel ⟨i, cur⟩ with
      | some ⟨.ok (), next⟩ => do
        .emit (.setVolume 0)
        .emit .mixerQuit
        .emit .pygameQuit
        pure (some ⟨.ok (), next⟩)
      | ended => pure ended
  else pure (some ⟨.ok (), i⟩)

end Play

/-! ## What a call plays -/

/-- The paths loaded, in order. -/
def loaded (l : List PlayEvent) : List Path :=
  l.filterMap fun
    | .load path => some path
    | _ => none

/-- The types of the events polled, in order. -/
def polled (l : List PlayEvent) : List ℤ :=
  l.filterMap fun
    | .poll type => some type
    | _ => none

/-- Music goes on: an event is polled, or a path is loaded. -/
def PlayEvent.GoesOn : PlayEvent → Prop
  | .poll _ => True
  | .load _ => True
  | _ => False

/-- The time to play is over at a reading. -/
def Over (start now : DateTime) : Prop := play_long * 1000000 ≤ now.sub start

instance (start now : DateTime) : Decidable (Over start now) :=
  inferInstanceAs (Decidable (_ ≤ _))

/-- A call of `play` has played the paths in order, one more with every stop event. -/
structure PlaysInOrder (STOPEVENT : ℤ) (paths : List Path) (run : Traced PlayEvent (Option Played)) :
    Prop where
  /-- the paths loaded are the first ones, each once -/
  loads : loaded run.log = paths.take (min ((polled run.log).count STOPEVENT + 1) paths.length)
  /-- no stop event is polled behind that of the last path -/
  stops_le : (polled run.log).count STOPEVENT ≤ paths.length
  /-- the list is not indexed past its end -/
  inside : ∀ played, run.val = some played → played.result = .ok ()
  /-- the call ends at the stop event of the last path -/
  ends : (polled run.log).count STOPEVENT = paths.length →
    run.val ≠ none ∧ (polled run.log).getLast? = some STOPEVENT

/-- Behind a reading at which the time is over, music does not go on. -/
def StopsInTime (start : DateTime) (l : List PlayEvent) : Prop :=
  l.Pairwise fun e e' => ∀ now, e = .now now → Over start now → ¬ e'.GoesOn

/-- The stop events polled behind the readings from the `i`-th on, before the `j`-th. -/
def stopsBetween (sys : PlaySystem) (i j : ℕ) : ℕ :=
  ((List.range' i (j - i)).map sys.poll).count sys.STOPEVENT

/-- For a call that starts with the `i`-th reading and plays `n` paths: the first reading at which
the time is over, if it comes before the last path has stopped, is not less than
`play_long` seconds behind a whole number of days after the start. -/
def SeesTheTime (sys : PlaySystem) (start : DateTime) (n i : ℕ) : Prop :=
  ∀ j, i ≤ j → stopsBetween sys i j < n → (∀ k, i ≤ k → k < j → ¬ Over start (sys.now k)) →
    Over start (sys.now j) → play_long ≤ seconds ((sys.now j).sub start)

/-! ### One turn -/

section Turn

variable {sys : PlaySystem} {start : DateTime} {paths : List Path}

/-- **The turns of the loop**: the time is over, or an event is polled, which is not the stop
event, or that of a path behind which there is another, or that of the last path. -/
theorem playTurn_cases (sys : PlaySystem) (start : DateTime) {s : Playback}
    (hcur : s.cur < paths.length) :
    (play_long ≤ seconds ((sys.now s.i).sub start) ∧
      playTurn sys start paths s = ⟨.inr ⟨.ok (), s.i + 1⟩, [.now (sys.now s.i)]⟩) ∨
    (seconds ((sys.now s.i).sub start) < play_long ∧ sys.poll s.i ≠ sys.STOPEVENT ∧
      playTurn sys start paths s = ⟨.inl ⟨s.i + 1, s.cur⟩,
        [.now (sys.now s.i), .sleep 1, .poll (sys.poll s.i)]⟩) ∨
    (seconds ((sys.now s.i).sub start) < play_long ∧ sys.poll s.i = sys.STOPEVENT ∧
      ∃ hnext : s.cur + 1 < paths.length,
      playTurn sys start paths s = ⟨.inl ⟨s.i + 1, s.cur + 1⟩,
        [.now (sys.now s.i), .sleep 1, .poll (sys.poll s.i), .load paths[s.cur + 1], .play]⟩) ∨
    (seconds ((sys.now s.i).sub start) < play_long ∧ sys.poll s.i = sys.STOPEVENT ∧
      s.cur + 1 = paths.length ∧
      playTurn sys start paths s = ⟨.inr ⟨.ok (), s.i + 1⟩,
        [.now (sys.now s.i), .sleep 1, .poll (sys.poll s.i)]⟩) := by
  by_cases htime : seconds ((sys.now s.i).sub start) < play_long
  · refine .inr ?_
    by_cases hpoll : sys.poll s.i = sys.STOPEVENT
    · refine .inr ?_
      by_cases hlast : s.cur + 1 = paths.length
      · refine .inr ⟨htime, hpoll, hlast, Traced.ext ?_ ?_⟩
        · simp [playTurn, htime, hpoll, hlast]
        · simp [playTurn, htime, hpoll, hlast]
      · have hnext : s.cur + 1 < paths.length := by omega
        refine .inl ⟨htime, hpoll, hnext, Traced.ext ?_ ?_⟩
        · simp [playTurn, htime, hpoll, hlast, hnext]
        · simp [playTurn, htime, hpoll, hlast, hnext]
    · refine .inl ⟨htime, hpoll, Traced.ext ?_ ?_⟩
      · simp [playTurn, htime, hpoll]
      · simp [playTurn, htime, hpoll]
  · refine .inl ⟨Int.not_lt.mp htime, Traced.ext ?_ ?_⟩
    · simp [playTurn, htime]
    · simp [playTurn, htime]

theorem loaded_append (l l' : List PlayEvent) : loaded (l ++ l') = loaded l ++ loaded l' :=
  List.filterMap_append

theorem polled_append (l l' : List PlayEvent) : polled (l ++ l') = polled l ++ polled l' :=
  List.filterMap_append

/-- At the head of the loop as many paths are loaded as stop events are polled, and one. -/
structure Playback.Inv (STOPEVENT : ℤ) (paths : List Path) (l : List PlayEvent) (s : Playback) :
    Prop where
  lt : s.cur < paths.length
  loads : loaded l = paths.take (s.cur + 1)
  stops : (polled l).count STOPEVENT = s.cur

/-- What the invariant says before the last path has stopped, of events among which no other path
is loaded and no other event is polled. -/
theorem Playback.Inv.playsInOrder {l l' : List PlayEvent} {s : Playback} {ended : Option Played}
    (hs : s.Inv sys.STOPEVENT paths l) (hloaded : loaded l' = loaded l)
    (hpolled : polled l' = polled l)
    (hended : ∀ played, ended = some played → played.result = .ok ()) :
    PlaysInOrder sys.STOPEVENT paths ⟨ended, l'⟩ := by
  obtain ⟨hlt, hloads, hstops⟩ := hs
  refine ⟨?_, ?_, hended, fun hlast => ?_⟩
  · dsimp only
    rw [hloaded, hpolled, hloads, hstops, min_eq_left hlt]
  · dsimp only
    rw [hpolled]
    omega
  · dsimp only at hlast
    rw [hpolled] at hlast
    omega

/-- At the stop event of the last path all paths were played in order. -/
theorem Playback.Inv.playsAll {l l' : List PlayEvent} {s : Playback} {next : ℕ}
    (hs : s.Inv sys.STOPEVENT paths l) (hlast : s.cur + 1 = paths.length)
    (hloaded : loaded l' = loaded l) (hpolled : polled l' = polled l ++ [sys.STOPEVENT]) :
    PlaysInOrder sys.STOPEVENT paths ⟨some ⟨.ok (), next⟩, l'⟩ := by
  have hcount : (polled l ++ [sys.STOPEVENT]).count sys.STOPEVENT = paths.length := by
    rw [List.count_append, hs.stops, List.count_singleton_self, hlast]
  refine ⟨?_, ?_, ?_, fun _ => ⟨nofun, ?_⟩⟩
  · dsimp only
    rw [hloaded, hpolled, hcount, hs.loads, hlast, min_eq_right (Nat.le_succ _)]
  · dsimp only
    rw [hpolled, hcount]
  · rintro _ ⟨⟩
    rfl
  · dsimp only
    rw [hpolled, List.getLast?_concat]

/-- A turn that goes round keeps the invariant of the loop. -/
theorem playTurn_round {l : List PlayEvent} {s s' : Playback} (hs : s.Inv sys.STOPEVENT paths l)
    (hturn : (playTurn sys start paths s).val = .inl s') :
    s'.Inv sys.STOPEVENT paths (l ++ (playTurn sys start paths s).log) := by
  obtain ⟨hlt, hloads, hstops⟩ := hs
  rcases playTurn_cases sys start hlt with ⟨-, heq⟩ | ⟨-, hpoll, heq⟩ |
    ⟨-, hpoll, hnext, heq⟩ | ⟨-, -, -, heq⟩
  · rw [heq] at hturn
    cases hturn
  · rw [heq] at hturn ⊢
    obtain rfl := Sum.inl.inj hturn
    refine ⟨hlt, ?_, ?_⟩
    · rw [loaded_append, hloads]
      exact List.append_nil _
    · rw [polled_append, List.count_append, hstops]
      simp [polled, hpoll]
  · rw [heq] at hturn ⊢
    obtain rfl := Sum.inl.inj hturn
    refine ⟨hnext, ?_, ?_⟩
    · rw [loaded_append, hloads, List.take_succ_eq_append_getElem hnext]
      rfl
    · rw [polled_append, List.count_append, hstops]
      simp [polled, hpoll]
  · rw [heq] at hturn
    cases hturn

/-- A turn that leaves does so for the time or behind the last path. -/
theorem playTurn_leave {l : List PlayEvent} {s : Playback} {played : Played}
    (hs : s.Inv sys.STOPEVENT paths l)
    (hturn : (playTurn sys start paths s).val = .inr played) :
    PlaysInOrder sys.STOPEVENT paths
      ⟨some played, l ++ (playTurn sys start paths s).log⟩ := by
  rcases playTurn_cases sys start hs.lt with ⟨-, heq⟩ | ⟨-, -, heq⟩ |
    ⟨-, -, _, heq⟩ | ⟨-, hpoll, hlast, heq⟩
  · rw [heq] at hturn ⊢
    obtain rfl := Sum.inr.inj hturn
    refine hs.playsInOrder ?_ ?_ ?_
    · rw [loaded_append]
      exact List.append_nil _
    · rw [polled_append]
      exact List.append_nil _
    · rintro _ ⟨⟩
      rfl
  · rw [heq] at hturn
    cases hturn
  · rw [heq] at hturn
    cases hturn
  · rw [heq] at hturn ⊢
    obtain rfl := Sum.inr.inj hturn
    refine hs.playsAll hlast ?_ ?_
    · rw [loaded_append]
      exact List.append_nil _
    · rw [polled_append, hpoll]
      rfl

/-- **The loop plays the paths in order**, from any of them on. -/
theorem run_playsInOrder (start : DateTime) (fuel : ℕ) {l : List PlayEvent} {s : Playback}
    (hs : s.Inv sys.STOPEVENT paths l) :
    PlaysInOrder sys.STOPEVENT paths ⟨(Loop.run (playTurn sys start paths) fuel s).val,
      l ++ (Loop.run (playTurn sys start paths) fuel s).log⟩ :=
  Loop.run_history (fun l s => s.Inv sys.STOPEVENT paths l)
    (fun l played => PlaysInOrder sys.STOPEVENT paths ⟨played, l⟩)
    (fun _ _ hs => hs.playsInOrder rfl rfl nofun) (fun _ _ _ => playTurn_round)
    (fun _ _ _ => playTurn_leave)
    fuel hs

/-! ### The time -/

theorem stopsBetween_self (i : ℕ) : stopsBetween sys i i = 0 := by
  rw [stopsBetween, Nat.sub_self]
  rfl

/-- Stop events are counted one by one. -/
theorem stopsBetween_succ {i j : ℕ} (h : i ≤ j) : stopsBetween sys i (j + 1) =
    stopsBetween sys i j + if sys.poll j = sys.STOPEVENT then 1 else 0 := by
  have hrange : List.range' i (j + 1 - i) = List.range' i (j - i) ++ [j] := by
    rw [Nat.succ_sub h, List.range'_concat, Nat.one_mul, Nat.add_sub_cancel' h]
  rw [stopsBetween, hrange, List.map_append, List.count_append, stopsBetween, List.map_singleton,
    List.count_singleton]
  simp only [beq_iff_eq]

/-- The head of the loop of a call that plays `n` paths, its first reading the `i`-th. -/
structure Playback.At (sys : PlaySystem) (n i : ℕ) (s : Playback) : Prop where
  lt : s.cur < n
  le : i ≤ s.i
  stops : stopsBetween sys i s.i = s.cur

/-- A turn that goes round counts the stop event it has polled. -/
theorem Playback.At.round {i : ℕ} {s s' : Playback} (hs : s.At sys paths.length i)
    (hturn : (playTurn sys start paths s).val = .inl s') : s'.At sys paths.length i := by
  obtain ⟨hlt, hle, hstops⟩ := hs
  rcases playTurn_cases sys start hlt with ⟨-, heq⟩ | ⟨-, hpoll, heq⟩ | ⟨-, hpoll, hnext, heq⟩ |
    ⟨-, -, -, heq⟩
  · rw [heq] at hturn
    cases hturn
  · rw [heq] at hturn
    obtain rfl := Sum.inl.inj hturn
    refine ⟨hlt, Nat.le_succ_of_le hle, ?_⟩
    rw [stopsBetween_succ hle, hstops, if_neg hpoll, Nat.add_zero]
  · rw [heq] at hturn
    obtain rfl := Sum.inl.inj hturn
    refine ⟨hnext, Nat.le_succ_of_le hle, ?_⟩
    rw [stopsBetween_succ hle, hstops, if_pos hpoll]
  · rw [heq] at hturn
    cases hturn

/-- No reading so far was at a time that was over. -/
structure Playback.OnTime (sys : PlaySystem) (start : DateTime) (n i : ℕ) (l : List PlayEvent)
    (s : Playback) : Prop extends Playback.At sys n i s where
  before : ∀ k, i ≤ k → k < s.i → ¬ Over start (sys.now k)
  log : ∀ now, .now now ∈ l → ¬ Over start now

/-- As long as no reading is at a time that is over, music may go on. -/
theorem stopsInTime_of_not_over {l : List PlayEvent}
    (h : ∀ now, .now now ∈ l → ¬ Over start now) : StopsInTime start l := by
  refine List.pairwise_of_forall_mem_list fun e he e' _ now hnow hover => ?_
  exact absurd hover (h now (hnow ▸ he))

/-- Where the loop goes on the time is not over, if the call sees it. -/
theorem Playback.OnTime.not_over {n i : ℕ} {l : List PlayEvent} {s : Playback}
    (hsees : SeesTheTime sys start n i) (hs : s.OnTime sys start n i l)
    (htime : seconds ((sys.now s.i).sub start) < play_long) : ¬ Over start (sys.now s.i) := by
  intro hover
  have hseconds := hsees s.i hs.le (by rw [hs.stops]; exact hs.lt) hs.before hover
  omega

/-- One reading more at which the time is not over. -/
theorem Playback.OnTime.extend {n i cur : ℕ} {l l' : List PlayEvent} {s : Playback}
    (hs : s.OnTime sys start n i l) (hat : Playback.At sys n i ⟨s.i + 1, cur⟩)
    (hover : ¬ Over start (sys.now s.i)) (hlog : ∀ now, .now now ∈ l' → now = sys.now s.i) :
    Playback.OnTime sys start n i (l ++ l') ⟨s.i + 1, cur⟩ := by
  refine ⟨hat, fun k hik hk => ?_, fun now hnow => ?_⟩
  · rcases Nat.lt_or_eq_of_le (Nat.le_of_lt_succ hk) with hlt | rfl
    · exact hs.before k hik hlt
    · exact hover
  · rcases List.mem_append.mp hnow with hmem | hmem
    · exact hs.log now hmem
    · rw [hlog now hmem]
      exact hover

/-- A turn that goes round was not at a time that is over. -/
theorem Playback.OnTime.round {i : ℕ} {l : List PlayEvent} {s s' : Playback}
    (hsees : SeesTheTime sys start paths.length i) (hs : s.OnTime sys start paths.length i l)
    (hturn : (playTurn sys start paths s).val = .inl s') :
    s'.OnTime sys start paths.length i (l ++ (playTurn sys start paths s).log) := by
  have hat := hs.toAt.round hturn
  rcases playTurn_cases sys start hs.lt with ⟨-, heq⟩ | ⟨htime, -, heq⟩ | ⟨htime, -, _, heq⟩ |
    ⟨-, -, -, heq⟩
  · rw [heq] at hturn
    cases hturn
  · rw [heq] at hturn ⊢
    obtain rfl := Sum.inl.inj hturn
    exact hs.extend hat (hs.not_over hsees htime) (by simp)
  · rw [heq] at hturn ⊢
    obtain rfl := Sum.inl.inj hturn
    exact hs.extend hat (hs.not_over hsees htime) (by simp)
  · rw [heq] at hturn
    cases hturn

/-- A turn that leaves polls no event when the time is over. -/
theorem Playback.OnTime.leave {i : ℕ} {l : List PlayEvent} {s : Playback} {played : Played}
    (hsees : SeesTheTime sys start paths.length i) (hs : s.OnTime sys start paths.length i l)
    (hturn : (playTurn sys start paths s).val = .inr played) :
    StopsInTime start (l ++ (playTurn sys start paths s).log) := by
  have hbefore := stopsInTime_of_not_over hs.log
  rcases playTurn_cases sys start hs.lt with ⟨-, heq⟩ | ⟨-, -, heq⟩ | ⟨-, -, _, heq⟩ |
    ⟨htime, -, -, heq⟩
  · -- the reading is the last event
    rw [heq]
    refine List.pairwise_append.mpr ⟨hbefore, List.pairwise_singleton _ _, ?_⟩
    intro e he e' _ now hnow hover
    exact absurd hover (hs.log now (hnow ▸ he))
  · rw [heq] at hturn
    cases hturn
  · rw [heq] at hturn
    cases hturn
  · rw [heq]
    refine stopsInTime_of_not_over fun now hnow => ?_
    rcases List.mem_append.mp hnow with hmem | hmem
    · exact hs.log now hmem
    · obtain rfl : now = sys.now s.i := by simpa using hmem
      exact hs.not_over hsees htime

/-- **A call that sees the time stops in time.** -/
theorem run_stopsInTime (fuel : ℕ) {i : ℕ} {l : List PlayEvent} {s : Playback}
    (hsees : SeesTheTime sys start paths.length i) (hs : s.OnTime sys start paths.length i l) :
    StopsInTime start (l ++ (Loop.run (playTurn sys start paths) fuel s).log) :=
  Loop.run_history (fun l s => s.OnTime sys start paths.length i l) (fun l _ => StopsInTime start l)
    (fun _ _ hs => stopsInTime_of_not_over hs.log) (fun _ _ _ hs => hs.round hsees)
    (fun _ _ _ hs => hs.leave hsees) fuel hs

/-! ### The way to a reading -/

/-- Before the time is over its seconds are not, either. -/
theorem seconds_lt_of_not_over {now : DateTime} (hstart : start ≤ now) (hover : ¬ Over start now) :
    seconds (now.sub start) < play_long := by
  have hnonneg : 0 ≤ now.sub start := by
    rw [DateTime.le_def] at hstart
    rw [DateTime.sub]
    omega
  have hseconds := seconds_le hnonneg
  rw [Over] at hover
  omega

/-- While the time is not over the loop goes on, until the last path has stopped. -/
theorem reaches_reading {i : ℕ} (hstart : start ≤ sys.now i) (hmono : Monotone sys.now) :
    ∀ {j : ℕ}, i ≤ j → (∀ k, i ≤ k → k < j → ¬ Over start (sys.now k)) →
      stopsBetween sys i j < paths.length →
      Loop.Reaches (playTurn sys start paths) ⟨i, 0⟩ ⟨j, stopsBetween sys i j⟩ := by
  intro j hij
  induction j, hij using Nat.le_induction with
  | base =>
    intro _ _
    rw [stopsBetween_self]
    exact Relation.ReflTransGen.refl
  | succ j hij ih =>
    intro hbefore hstops
    rw [stopsBetween_succ hij] at hstops ⊢
    have hreach := ih (fun k hik hk => hbefore k hik (Nat.lt_succ_of_lt hk)) (by omega)
    refine hreach.tail ?_
    have htime : seconds ((sys.now j).sub start) < play_long :=
      seconds_lt_of_not_over (le_trans hstart (hmono hij)) (hbefore j hij (Nat.lt_succ_self j))
    have hcur : stopsBetween sys i j < paths.length := by omega
    rcases playTurn_cases sys start (s := ⟨j, stopsBetween sys i j⟩) hcur with ⟨hlate, -⟩ |
      ⟨-, hpoll, heq⟩ | ⟨-, hpoll, hnext, heq⟩ | ⟨-, hpoll, hlast, -⟩
    · exact absurd htime (Int.not_lt.mpr hlate)
    · rw [if_neg hpoll, heq]
      rfl
    · rw [if_pos hpoll, heq]
    · have hlast' : stopsBetween sys i j + 1 = paths.length := hlast
      rw [if_pos hpoll] at hstops
      omega

end Turn

/-! ### The call -/

section Call

variable {sys : PlaySystem} {start : DateTime} {i : ℕ} {path : Path} {paths : List Path}

/-- The events before the loop. -/
def opening (sys : PlaySystem) (path : Path) : List PlayEvent :=
  [.mixerInit, .pygameInit, .setEndevent sys.STOPEVENT, .setVolume 1, .load path, .play]

/-- The events behind a loop that has ended. -/
def closing : Option Played → List PlayEvent
  | some ⟨.ok (), _⟩ => [.setVolume 0, .mixerQuit, .pygameQuit]
  | _ => []

/-- A call with something to play is its loop, between an opening and a closing. -/
theorem play_eq (hpaths : (sys.listdir i).filter ismp3 = path :: paths) (fuel : ℕ) :
    play sys fuel start i =
      ⟨(Loop.run (playTurn sys start (path :: paths)) fuel ⟨i, 0⟩).val,
        opening sys path ++ (Loop.run (playTurn sys start (path :: paths)) fuel ⟨i, 0⟩).log ++
          closing (Loop.run (playTurn sys start (path :: paths)) fuel ⟨i, 0⟩).val⟩ := by
  rcases hrun : (Loop.run (playTurn sys start (path :: paths)) fuel ⟨i, 0⟩).val with
    _ | ⟨_ | ⟨⟩, next⟩
  · apply Traced.ext
    · simp [play, hpaths, hrun]
    · simp [play, hpaths, hrun, opening, closing]
  · apply Traced.ext
    · simp [play, hpaths, hrun]
    · simp [play, hpaths, hrun, opening, closing]
  · apply Traced.ext
    · simp [play, hpaths, hrun]
    · simp [play, hpaths, hrun, opening, closing]

/-- In the closing music does not go on, and the clock is not read. -/
theorem closing_quiet {played : Option Played} {e : PlayEvent} (he : e ∈ closing played) :
    ¬ e.GoesOn ∧ ∀ now, e ≠ .now now := by
  rcases played with _ | ⟨_ | ⟨⟩, next⟩
  · cases he
  · cases he
  · simp only [closing, List.mem_cons, List.not_mem_nil, or_false] at he
    rcases he with rfl | rfl | rfl
    · exact ⟨id, nofun⟩
    · exact ⟨id, nofun⟩
    · exact ⟨id, nofun⟩

theorem loaded_closing (played : Option Played) : loaded (closing played) = [] := by
  rcases played with _ | ⟨_ | ⟨⟩, next⟩ <;> rfl

theorem polled_closing (played : Option Played) : polled (closing played) = [] := by
  rcases played with _ | ⟨_ | ⟨⟩, next⟩ <;> rfl

/-- **A call plays its paths in order**, as far as it gets. -/
theorem play_playsInOrder (hpaths : (sys.listdir i).filter ismp3 = path :: paths) (fuel : ℕ) :
    PlaysInOrder sys.STOPEVENT (path :: paths) (play sys fuel start i) := by
  have hopening : Playback.Inv sys.STOPEVENT (path :: paths) (opening sys path) ⟨i, 0⟩ :=
    ⟨Nat.succ_pos _, rfl, rfl⟩
  obtain ⟨hloads, hstops, hinside, hends⟩ := run_playsInOrder start fuel hopening
  rw [play_eq hpaths]
  dsimp only at hloads hstops hinside hends
  refine ⟨?_, ?_, hinside, ?_⟩
  · dsimp only
    rw [loaded_append, loaded_closing, List.append_nil, polled_append, polled_closing,
      List.append_nil, hloads]
  · dsimp only
    rw [polled_append, polled_closing, List.append_nil]
    exact hstops
  · dsimp only
    rw [polled_append, polled_closing, List.append_nil]
    exact hends

/-- **A call that sees the time does not go on when it is over.** -/
theorem play_stopsInTime (hpaths : (sys.listdir i).filter ismp3 = path :: paths) (fuel : ℕ)
    (hsees : SeesTheTime sys start (path :: paths).length i) :
    StopsInTime start (play sys fuel start i).log := by
  have hopening : Playback.OnTime sys start (path :: paths).length i (opening sys path) ⟨i, 0⟩ := by
    refine ⟨⟨Nat.succ_pos _, le_refl i, stopsBetween_self i⟩, fun k hik hk => ?_, fun now hnow => ?_⟩
    · exact absurd hik (Nat.not_le.mpr hk)
    · simp [opening] at hnow
  rw [play_eq hpaths]
  refine List.pairwise_append.mpr ⟨run_stopsInTime fuel hsees hopening, ?_, ?_⟩
  · refine List.pairwise_of_forall_mem_list fun e he e' he' now hnow _ => ?_
    exact absurd hnow ((closing_quiet he).2 now)
  · exact fun _ _ e' he' _ _ _ => (closing_quiet he').1

/-- **A call that does not see the time goes on**: it polls an event behind a reading at which the
time is over. -/
theorem seesTheTime_of_stopsInTime (hpaths : (sys.listdir i).filter ismp3 = path :: paths)
    (hstart : start ≤ sys.now i)
    (hstops : ∀ fuel, StopsInTime start (play sys fuel start i).log) :
    SeesTheTime sys start (path :: paths).length i := by
  intro j hij hcount hbefore hover
  by_contra htime
  rw [Int.not_le] at htime
  have hreach : Loop.Reaches (playTurn sys start (path :: paths)) ⟨i, 0⟩ ⟨j, stopsBetween sys i j⟩ :=
    reaches_reading hstart sys.mono hij hbefore hcount
  obtain ⟨fuel, l, l', hlog⟩ := hreach.log_infix
  -- the turn at the reading polls an event
  have hturn : List.Sublist [PlayEvent.now (sys.now j), PlayEvent.poll (sys.poll j)]
      (playTurn sys start (path :: paths) ⟨j, stopsBetween sys i j⟩).log := by
    rcases playTurn_cases sys start (s := ⟨j, stopsBetween sys i j⟩) hcount with ⟨hlate, -⟩ |
      ⟨-, -, heq⟩ | ⟨-, -, _, heq⟩ | ⟨-, -, -, heq⟩
    · exact absurd htime (Int.not_lt.mpr hlate)
    · rw [heq]
      exact .cons_cons _ (.cons _ (List.Sublist.refl _))
    · rw [heq]
      exact .cons_cons _ (.cons _ (.cons_cons _ (List.nil_sublist _)))
    · rw [heq]
      exact .cons_cons _ (.cons _ (List.Sublist.refl _))
  have hsub : List.Sublist [PlayEvent.now (sys.now j), PlayEvent.poll (sys.poll j)]
      (play sys fuel start i).log := by
    rw [play_eq hpaths, hlog]
    refine hturn.trans ?_
    refine List.Sublist.trans ?_ (List.sublist_append_left _ _)
    refine List.Sublist.trans ?_ (List.sublist_append_right _ _)
    exact (List.sublist_append_right _ _).trans (List.sublist_append_left _ _)
  have hpair := (hstops fuel).sublist hsub
  exact List.rel_of_pairwise_cons hpair (List.mem_singleton_self _) _ rfl hover trivial

end Call

/-- 1 January 2024, at eight. -/
def newYear : DateTime := DateTime.of (Date.of 2024 1 1 (by decide)) 8 0 0 (by decide)

/-- The next day, at the same time. -/
def dayLater : DateTime := DateTime.of (Date.of 2024 1 2 (by decide)) 8 0 0 (by decide)

/-- A directory with one mp3 file, whose clock reads one time only. -/
def stillClock (now : DateTime) : PlaySystem where
  USEREVENT := 24
  now := fun _ => now
  mono := monotone_const
  poll := fun _ => 0
  listdir := fun _ => [['a', '.', 'm', 'p', '3'], ['b', '.', 't', 'x', 't']]

/-- Ten minutes behind `newYear`. -/
def tenPast : DateTime := DateTime.of newYear.date 8 10 0 (by decide)

/-- Half an hour behind `newYear`. -/
def halfPast : DateTime := DateTime.of newYear.date 8 30 0 (by decide)

/-- A directory with two mp3 files, the first of which has stopped when the clock is read first. -/
def twoFiles : PlaySystem where
  USEREVENT := 24
  now
    | 0 => newYear
    | 1 => tenPast
    | _ + 2 => halfPast
  mono := by
    refine monotone_nat_of_le_succ fun i => ?_
    match i with
    | 0 => decide +kernel
    | 1 => decide +kernel
    | i + 2 => exact le_refl halfPast
  poll := fun i => if i = 0 then 25 else 0
  listdir := fun _ => [['a', '.', 'm', 'p', '3'], ['b', '.', 't', 'x', 't'], ['c', '.', 'm', 'p', '3']]

end StudyTips
