import StudyTips.PlayMusic
import StudyTips.Timing

/-!
# `python/playmusic.py`: the children started by `detect`

`detect` reads the clock over and over. Where music is due it starts a child that runs `play`,
and waits for it to end; else it sleeps for a second.

* `detect_oncePerMinute_iff`: no two children are started in the same calendar minute exactly
  where each child, as far as the readings show, plays on to the end of the minute it was
  started in. What ends a child sooner is a playlist that is over sooner, an empty one at once.
-/

namespace StudyTips

open Calendar

section Detect

variable (sys : PlaySystem) (timing_list : List Timing)

/-- One turn of the loop in `detect`, from the `i`-th reading of the clock on; it leaves with a
child that still plays when its fuel is spent. -/
def detectTurn (fuel i : ℕ) : Traced PlayEvent (ℕ ⊕ Unit) := do
  let now := sys.now i
  if isTiming now timing_list then do
    .emit (.start now)
    match ← play sys fuel now (i + 1) with
    | none => pure (.inr ())
    | some played => do
      .emit .join
      pure (.inl played.next)
  else do
    .emit (.sleep 1)
    pure (.inl (i + 1))

/-- `detect()`, which never returns, for so many turns. -/
def detect (fuel turns : ℕ) : Traced PlayEvent (Option Unit) :=
  Loop.run (detectTurn sys timing_list fuel) turns 0

end Detect

/-- The readings children are started for, in order. -/
def starts (l : List PlayEvent) : List DateTime :=
  l.filterMap fun
    | .start now => some now
    | _ => none

/-- No two children are started in the same calendar minute. -/
def OncePerMinute (l : List PlayEvent) : Prop :=
  (starts l).Pairwise fun now now' => ¬ SameMinute now now'

/-- At every later reading in the minute of the `i`-th, fewer stop events have been polled than a
child started for the `i`-th has paths to play. -/
def OutlastsMinute (sys : PlaySystem) (i : ℕ) : Prop :=
  ∀ j, i < j → SameMinute (sys.now i) (sys.now j) →
    stopsBetween sys (i + 1) j < ((sys.listdir (i + 1)).filter ismp3).length

/-! ## The end of a call -/

section Call

variable {sys : PlaySystem} {start : DateTime} {i : ℕ}

/-- A call ends behind a reading at which the time is over, or behind the last path. -/
theorem play_ended {fuel : ℕ} {played : Played}
    (h : (play sys fuel start i).val = some played) :
    (∃ j, i ≤ j ∧ played.next = j + 1 ∧ play_long ≤ seconds ((sys.now j).sub start)) ∨
      (i ≤ played.next ∧
        stopsBetween sys i played.next = ((sys.listdir i).filter ismp3).length) := by
  rcases hpaths : (sys.listdir i).filter ismp3 with _ | ⟨path, paths⟩
  · -- there is nothing to play
    have hempty : (play sys fuel start i).val = some ⟨.ok (), i⟩ := by simp [play, hpaths]
    rw [hempty] at h
    obtain rfl := Option.some.inj h
    exact .inr ⟨le_refl i, stopsBetween_self i⟩
  · rw [play_eq hpaths] at h
    obtain ⟨ss, htrail, -⟩ := Loop.exists_trail h
    have hopening : Playback.At sys (path :: paths).length i ⟨i, 0⟩ :=
      ⟨Nat.succ_pos _, le_refl i, stopsBetween_self i⟩
    obtain ⟨s, hmem, hturn⟩ := htrail.leaves
    obtain ⟨hlt, hle, hstops⟩ := htrail.forall_mem (fun _ _ hs => hs.round) hopening s hmem
    rcases playTurn_cases sys start hlt with ⟨htime, heq⟩ | ⟨-, -, heq⟩ | ⟨-, -, _, heq⟩ |
      ⟨-, hpoll, hlast, heq⟩
    · rw [heq] at hturn
      obtain rfl := Sum.inr.inj hturn
      exact .inl ⟨s.i, hle, rfl, htime⟩
    · rw [heq] at hturn
      cases hturn
    · rw [heq] at hturn
      cases hturn
    · rw [heq] at hturn
      obtain rfl := Sum.inr.inj hturn
      refine .inr ⟨Nat.le_succ_of_le hle, ?_⟩
      rw [stopsBetween_succ hle, hstops, if_pos hpoll, hlast]

/-- Where at least `n` stop events are polled, some poll gives the `n`-th. -/
theorem exists_last_stop {n j : ℕ} (hn : 0 < n) (hij : i ≤ j) (h : n ≤ stopsBetween sys i j) :
    ∃ k, i ≤ k ∧ k < j ∧ stopsBetween sys i k + 1 = n ∧ sys.poll k = sys.STOPEVENT := by
  induction j, hij using Nat.le_induction with
  | base =>
    rw [stopsBetween_self] at h
    omega
  | succ j hij ih =>
    by_cases hbefore : n ≤ stopsBetween sys i j
    · obtain ⟨k, hik, hkj, hstop⟩ := ih hbefore
      exact ⟨k, hik, Nat.lt_succ_of_lt hkj, hstop⟩
    · rw [stopsBetween_succ hij] at h
      by_cases hpoll : sys.poll j = sys.STOPEVENT
      · rw [if_pos hpoll] at h
        exact ⟨j, hij, Nat.lt_succ_self j, by omega, hpoll⟩
      · rw [if_neg hpoll] at h
        omega

/-- **A call ends behind its last stop event**, if the time is not over before. -/
theorem play_ends {k : ℕ} (hstart : start ≤ sys.now i) (hik : i ≤ k)
    (hbefore : ∀ k', i ≤ k' → k' ≤ k → ¬ Over start (sys.now k'))
    (hlast : stopsBetween sys i k + 1 = ((sys.listdir i).filter ismp3).length)
    (hpoll : sys.poll k = sys.STOPEVENT) :
    ∃ fuel, ∀ m, (play sys (m + fuel) start i).val = some ⟨.ok (), k + 1⟩ := by
  obtain ⟨path, paths, hpaths⟩ : ∃ path paths, (sys.listdir i).filter ismp3 = path :: paths := by
    apply List.exists_cons_of_length_pos
    omega
  rw [hpaths] at hlast
  have hcur : stopsBetween sys i k < (path :: paths).length := by omega
  have hreach : Loop.Reaches (playTurn sys start (path :: paths)) ⟨i, 0⟩ ⟨k, stopsBetween sys i k⟩ :=
    reaches_reading hstart sys.mono hik (fun k' hik' hk' => hbefore k' hik' (le_of_lt hk')) hcur
  -- the turn at the last stop event leaves
  have hturn : (playTurn sys start (path :: paths) ⟨k, stopsBetween sys i k⟩).val =
      .inr ⟨.ok (), k + 1⟩ := by
    have htime := seconds_lt_of_not_over (le_trans hstart (sys.mono hik)) (hbefore k hik (le_refl k))
    rcases playTurn_cases sys start (s := ⟨k, stopsBetween sys i k⟩) hcur with ⟨hlate, -⟩ |
      ⟨-, hnone, -⟩ | ⟨-, -, hnext, -⟩ | ⟨-, -, -, heq⟩
    · exact absurd htime (Int.not_lt.mpr hlate)
    · exact absurd hpoll hnone
    · exact absurd hlast (Nat.ne_of_lt hnext)
    · rw [heq]
  obtain ⟨n, l, hrun⟩ := hreach.run_add
  refine ⟨1 + n, fun m => ?_⟩
  rw [play_eq hpaths, ← Nat.add_assoc, hrun, Loop.run_inr hturn]

/-- A call that has ended ends with more fuel as well. -/
theorem play_mono {fuel fuel' : ℕ} {played : Played}
    (h : (play sys fuel start i).val = some played) (hle : fuel ≤ fuel') :
    (play sys fuel' start i).val = some played := by
  rcases hpaths : (sys.listdir i).filter ismp3 with _ | ⟨path, paths⟩
  · rw [← h]
    simp [play, hpaths]
  · rw [play_eq hpaths] at h ⊢
    rw [Loop.run_mono h hle]
    exact h

theorem starts_append (l l' : List PlayEvent) : starts (l ++ l') = starts l ++ starts l' :=
  List.filterMap_append

theorem starts_playTurn {paths : List Path} {s : Playback} (hcur : s.cur < paths.length) :
    starts (playTurn sys start paths s).log = [] := by
  rcases playTurn_cases sys start hcur with ⟨-, heq⟩ | ⟨-, -, heq⟩ | ⟨-, -, _, heq⟩ |
    ⟨-, -, -, heq⟩
  · rw [heq]
    rfl
  · rw [heq]
    rfl
  · rw [heq]
    rfl
  · rw [heq]
    rfl

theorem starts_closing (played : Option Played) : starts (closing played) = [] := by
  rcases played with _ | ⟨_ | ⟨⟩, next⟩ <;> rfl

/-- `play` starts no child. -/
theorem starts_play (fuel : ℕ) : starts (play sys fuel start i).log = [] := by
  rcases hpaths : (sys.listdir i).filter ismp3 with _ | ⟨path, paths⟩
  · simp [play, hpaths, starts]
  · have hloop : starts ([] ++ (Loop.run (playTurn sys start (path :: paths)) fuel ⟨i, 0⟩).log) =
        [] := by
      refine Loop.run_history (fun l s => starts l = [] ∧ s.At sys (path :: paths).length i)
        (fun l _ => starts l = []) (fun _ _ hs => hs.1) (fun l s s' hs hturn => ?_)
        (fun l s played hs _ => ?_) fuel ⟨rfl, Nat.succ_pos _, le_refl i, stopsBetween_self i⟩
      · exact ⟨by rw [starts_append, hs.1, starts_playTurn hs.2.lt]; rfl, hs.2.round hturn⟩
      · rw [starts_append, hs.1, starts_playTurn hs.2.lt]
        rfl
    rw [List.nil_append] at hloop
    rw [play_eq hpaths]
    dsimp only
    rw [starts_append, starts_append, hloop, starts_closing]
    rfl

end Call

/-! ## One turn -/

section Turn

variable {sys : PlaySystem} {timing_list : List Timing} {fuel i : ℕ}

/-- **The turns of `detect`**: music is not due, or a child is started, which still plays or has
ended. -/
theorem detectTurn_cases (sys : PlaySystem) (timing_list : List Timing) (fuel i : ℕ) :
    (isTiming (sys.now i) timing_list = false ∧
      detectTurn sys timing_list fuel i = ⟨.inl (i + 1), [.sleep 1]⟩) ∨
    (isTiming (sys.now i) timing_list = true ∧
      (play sys fuel (sys.now i) (i + 1)).val = none ∧
      detectTurn sys timing_list fuel i =
        ⟨.inr (), .start (sys.now i) :: (play sys fuel (sys.now i) (i + 1)).log⟩) ∨
    (isTiming (sys.now i) timing_list = true ∧ ∃ played,
      (play sys fuel (sys.now i) (i + 1)).val = some played ∧
      detectTurn sys timing_list fuel i = ⟨.inl played.next,
        .start (sys.now i) :: ((play sys fuel (sys.now i) (i + 1)).log ++ [.join])⟩) := by
  by_cases htiming : isTiming (sys.now i) timing_list = true
  · refine .inr ?_
    rcases hplay : (play sys fuel (sys.now i) (i + 1)).val with _ | played
    · refine .inl ⟨htiming, rfl, Traced.ext ?_ ?_⟩
      · simp [detectTurn, htiming, hplay]
      · simp [detectTurn, htiming, hplay]
    · refine .inr ⟨htiming, played, rfl, Traced.ext ?_ ?_⟩
      · simp [detectTurn, htiming, hplay]
      · simp [detectTurn, htiming, hplay]
  · rw [Bool.not_eq_true] at htiming
    refine .inl ⟨htiming, Traced.ext ?_ ?_⟩
    · simp [detectTurn, htiming]
    · simp [detectTurn, htiming]

/-- Whether music is due is the same all through a minute. -/
theorem isTiming_congr {now now' : DateTime} (h : SameMinute now now') :
    isTiming now timing_list = isTiming now' timing_list := by
  obtain ⟨hdate, hhour, hminute⟩ := h
  rw [Bool.eq_iff_iff, isTiming_eq_true, isTiming_eq_true, hdate, hhour, hminute]

/-- In the minute a call is started in, its time is not over. -/
theorem not_over_of_sameMinute {start now : DateTime} (h : SameMinute start now) :
    ¬ Over start now := by
  have hlt := h.sub_lt
  rw [Over, play_long]
  omega

/-- **A child that outlasts its minute ends in a later one.** -/
theorem play_outlasts {played : Played} (houtlasts : OutlastsMinute sys i)
    (h : (play sys fuel (sys.now i) (i + 1)).val = some played) :
    i < played.next ∧ ¬ SameMinute (sys.now i) (sys.now played.next) := by
  rcases play_ended h with ⟨j, hij, hnext, htime⟩ | ⟨hle, hstops⟩
  · have hlt : i < played.next := by omega
    refine ⟨hlt, fun hsame => ?_⟩
    -- the last reading was of that minute too, in which the time is not over
    have hj : i ≤ j := Nat.le_of_succ_le hij
    have hsamej : SameMinute (sys.now i) (sys.now j) :=
      hsame.between (sys.mono hj) (sys.mono (by omega))
    have hearly := seconds_lt_of_not_over (sys.mono hj) (not_over_of_sameMinute hsamej)
    omega
  · refine ⟨hle, fun hsame => ?_⟩
    exact absurd hstops (Nat.ne_of_lt (houtlasts played.next hle hsame))

/-! ## A whole run -/

/-- The head of the loop in `detect`: children were started in different minutes, and none in
that of the next reading. -/
structure Served (sys : PlaySystem) (timing_list : List Timing) (fuel : ℕ) (l : List PlayEvent)
    (i : ℕ) : Prop where
  reaches : Loop.Reaches (detectTurn sys timing_list fuel) 0 i
  once : OncePerMinute l
  le : ∀ now ∈ starts l, now ≤ sys.now i
  before : ∀ now ∈ starts l, ¬ SameMinute now (sys.now i)

/-- The children started so far were started before any later reading, in other minutes. -/
theorem Served.later {l : List PlayEvent} {i' : ℕ} (h : Served sys timing_list fuel l i)
    (hle : i ≤ i') {now : DateTime} (hnow : now ∈ starts l) :
    now ≤ sys.now i' ∧ ¬ SameMinute now (sys.now i') := by
  have hmono : sys.now i ≤ sys.now i' := sys.mono hle
  refine ⟨le_trans (h.le now hnow) hmono, fun hsame => ?_⟩
  exact h.before now hnow (hsame.between (h.le now hnow) hmono)

/-- One child more is started in a minute of its own. -/
theorem Served.started {l l' : List PlayEvent} (h : Served sys timing_list fuel l i)
    (hl' : starts l' = [sys.now i]) : OncePerMinute (l ++ l') := by
  rw [OncePerMinute, starts_append, hl']
  refine List.pairwise_append.mpr ⟨h.once, List.pairwise_singleton _ _, ?_⟩
  intro now hnow now' hnow'
  rw [List.mem_singleton.mp hnow']
  exact h.before now hnow

/-- The next reading is in no minute of a child if it is not in that of the last one. -/
theorem Served.next {l l' : List PlayEvent} {i' : ℕ} (h : Served sys timing_list fuel l i)
    (hreaches : Loop.Reaches (detectTurn sys timing_list fuel) 0 i') (hle : i ≤ i')
    (honce : OncePerMinute (l ++ l'))
    (hstarts : ∀ now ∈ starts l', now = sys.now i ∧ ¬ SameMinute now (sys.now i')) :
    Served sys timing_list fuel (l ++ l') i' := by
  refine ⟨hreaches, honce, fun now hnow => ?_, fun now hnow => ?_⟩
  · rw [starts_append] at hnow
    rcases List.mem_append.mp hnow with hmem | hmem
    · exact (h.later hle hmem).1
    · rw [(hstarts now hmem).1]
      exact sys.mono hle
  · rw [starts_append] at hnow
    rcases List.mem_append.mp hnow with hmem | hmem
    · exact (h.later hle hmem).2
    · exact (hstarts now hmem).2

/-- A turn that goes round keeps the minutes apart, if its child outlasts the minute. -/
theorem Served.round {l : List PlayEvent} {i' : ℕ}
    (houtlasts : isTiming (sys.now i) timing_list = true → OutlastsMinute sys i)
    (h : Served sys timing_list fuel l i)
    (hturn : (detectTurn sys timing_list fuel i).val = .inl i') :
    Served sys timing_list fuel (l ++ (detectTurn sys timing_list fuel i).log) i' := by
  have hreaches : Loop.Reaches (detectTurn sys timing_list fuel) 0 i' := h.reaches.tail hturn
  rcases detectTurn_cases sys timing_list fuel i with ⟨-, heq⟩ | ⟨-, -, heq⟩ |
    ⟨htiming, played, hplay, heq⟩
  · rw [heq] at hturn ⊢
    obtain rfl := Sum.inl.inj hturn
    refine h.next hreaches (Nat.le_succ i) ?_ nofun
    have hstarts : starts (l ++ [.sleep 1]) = starts l := by
      rw [starts_append]
      exact List.append_nil _
    rw [OncePerMinute, hstarts]
    exact h.once
  · rw [heq] at hturn
    cases hturn
  · rw [heq] at hturn ⊢
    obtain rfl := Sum.inl.inj hturn
    obtain ⟨hlt, hminute⟩ := play_outlasts (houtlasts htiming) hplay
    have hnone : starts ((play sys fuel (sys.now i) (i + 1)).log ++ [.join]) = [] := by
      rw [starts_append, starts_play]
      rfl
    have hstart : starts (.start (sys.now i) :: ((play sys fuel (sys.now i) (i + 1)).log ++ [.join])) =
        [sys.now i] := congrArg (sys.now i :: ·) hnone
    refine h.next hreaches (le_of_lt hlt) (h.started hstart) fun now hnow => ?_
    rw [hstart] at hnow
    obtain rfl := List.mem_singleton.mp hnow
    exact ⟨rfl, hminute⟩

/-- A turn that leaves has started its child in a minute of its own. -/
theorem Served.leave {l : List PlayEvent} {r : Unit} (h : Served sys timing_list fuel l i)
    (hturn : (detectTurn sys timing_list fuel i).val = .inr r) :
    OncePerMinute (l ++ (detectTurn sys timing_list fuel i).log) := by
  rcases detectTurn_cases sys timing_list fuel i with ⟨-, heq⟩ | ⟨-, -, heq⟩ | ⟨-, played, -, heq⟩
  · rw [heq] at hturn
    cases hturn
  · rw [heq]
    exact h.started (congrArg (sys.now i :: ·) (starts_play fuel))
  · rw [heq] at hturn
    cases hturn

/-- **Children that outlast their minutes are started once a minute.** -/
theorem detect_oncePerMinute (turns : ℕ)
    (houtlasts : ∀ i, Loop.Reaches (detectTurn sys timing_list fuel) 0 i →
      isTiming (sys.now i) timing_list = true → OutlastsMinute sys i) :
    OncePerMinute (detect sys timing_list fuel turns).log := by
  have hstart : Served sys timing_list fuel [] 0 :=
    ⟨Relation.ReflTransGen.refl, List.Pairwise.nil, nofun, nofun⟩
  exact Loop.run_history (fun l i => Served sys timing_list fuel l i)
    (fun l _ => OncePerMinute l) (fun _ _ h => h.once)
    (fun _ i _ h => h.round (houtlasts i h.reaches)) (fun _ _ _ h => h.leave) turns hstart

/-! ## A child too short -/

/-- With more fuel `detect` comes to the same readings. -/
theorem detect_reaches_mono {fuel' : ℕ} (hle : fuel ≤ fuel')
    (h : Loop.Reaches (detectTurn sys timing_list fuel) 0 i) :
    Loop.Reaches (detectTurn sys timing_list fuel') 0 i := by
  refine Relation.ReflTransGen.mono ?_ 0 i h
  intro j j' hturn
  rcases detectTurn_cases sys timing_list fuel j with ⟨htiming, heq⟩ | ⟨-, -, heq⟩ |
    ⟨htiming, played, hplay, heq⟩
  · rw [heq] at hturn
    rw [← hturn]
    simp [detectTurn, htiming]
  · rw [heq] at hturn
    cases hturn
  · rw [heq] at hturn
    rw [← hturn]
    simp [detectTurn, htiming, play_mono hplay hle]

/-- A child that does not outlast its minute ends in it. -/
theorem play_ends_early (hshort : ¬ OutlastsMinute sys i) :
    ∃ j, SameMinute (sys.now i) (sys.now j) ∧ ∃ fuel, ∀ m,
      (play sys (m + fuel) (sys.now i) (i + 1)).val = some ⟨.ok (), j⟩ := by
  simp only [OutlastsMinute, not_forall, Nat.not_lt] at hshort
  obtain ⟨j, hij, hsame, hstops⟩ := hshort
  rcases hpaths : (sys.listdir (i + 1)).filter ismp3 with _ | ⟨path, paths⟩
  · -- there is nothing to play
    have hnext : SameMinute (sys.now i) (sys.now (i + 1)) :=
      hsame.between (sys.mono (Nat.le_succ i)) (sys.mono hij)
    exact ⟨i + 1, hnext, 0, fun m => by simp [play, hpaths]⟩
  · obtain ⟨k, hik, hkj, hlast, hpoll⟩ : ∃ k, i + 1 ≤ k ∧ k < j ∧
        stopsBetween sys (i + 1) k + 1 = ((sys.listdir (i + 1)).filter ismp3).length ∧
        sys.poll k = sys.STOPEVENT := by
      refine exists_last_stop ?_ hij hstops
      rw [hpaths]
      exact Nat.succ_pos _
    have hminute : ∀ k', i ≤ k' → k' ≤ j → SameMinute (sys.now i) (sys.now k') :=
      fun k' hik' hk'j => hsame.between (sys.mono hik') (sys.mono hk'j)
    refine ⟨k + 1, hminute (k + 1) (by omega) hkj, ?_⟩
    refine play_ends (sys.mono (Nat.le_succ i)) hik (fun k' hik' hk' => ?_) hlast hpoll
    exact not_over_of_sameMinute (hminute k' (by omega) (by omega))

/-- A turn at a reading at which music is due starts a child. -/
theorem detectTurn_start (fuel : ℕ) (htiming : isTiming (sys.now i) timing_list = true) :
    ∃ l, (detectTurn sys timing_list fuel i).log = .start (sys.now i) :: l := by
  rcases detectTurn_cases sys timing_list fuel i with ⟨hnot, -⟩ | ⟨-, -, heq⟩ | ⟨-, _, -, heq⟩
  · rw [htiming] at hnot
    cases hnot
  · exact ⟨_, by rw [heq]⟩
  · exact ⟨_, by rw [heq]⟩

/-- **Behind a child that ends in the minute it was started in, another is started.** -/
theorem outlastsMinute_of_oncePerMinute
    (honce : ∀ fuel turns, OncePerMinute (detect sys timing_list fuel turns).log)
    (hreach : Loop.Reaches (detectTurn sys timing_list fuel) 0 i)
    (htiming : isTiming (sys.now i) timing_list = true) : OutlastsMinute sys i := by
  by_contra hshort
  obtain ⟨j, hsame, fuel', hplay⟩ := play_ends_early hshort
  -- with the fuel of the child, the run goes on from its end
  have hturn : (detectTurn sys timing_list (fuel + fuel') i).val = .inl j := by
    simp [detectTurn, htiming, hplay fuel]
  obtain ⟨n, l, hrun⟩ := (detect_reaches_mono (Nat.le_add_right fuel fuel') hreach).run_add
  -- there music is due again
  have htiming' : isTiming (sys.now j) timing_list = true := by
    rw [← isTiming_congr hsame]
    exact htiming
  obtain ⟨m, hm⟩ := detectTurn_start (fuel + fuel') htiming
  obtain ⟨m', hm'⟩ := detectTurn_start (fuel + fuel') htiming'
  obtain ⟨l', hl'⟩ := Loop.exists_log_one (detectTurn sys timing_list (fuel + fuel')) j
  have hlog : (detect sys timing_list (fuel + fuel') (2 + n)).log =
      l ++ (.start (sys.now i) :: m ++ (.start (sys.now j) :: m' ++ l')) := by
    rw [detect, hrun, Loop.run_inl hturn, hl', hm, hm']
  have hsub : List.Sublist [PlayEvent.start (sys.now i), PlayEvent.start (sys.now j)]
      (detect sys timing_list (fuel + fuel') (2 + n)).log := by
    rw [hlog]
    refine List.Sublist.trans ?_ (List.sublist_append_right _ _)
    refine .cons_cons _ (List.Sublist.trans ?_ (List.sublist_append_right _ _))
    exact .cons_cons _ (List.nil_sublist _)
  have hpair := List.Pairwise.sublist (hsub.filterMap _) (honce (fuel + fuel') (2 + n))
  exact List.rel_of_pairwise_cons hpair (List.mem_singleton_self _) hsame

end Turn

/-- Half a minute behind `newYear`. -/
def newYearHalf : DateTime := DateTime.of newYear.date 8 0 30 (by decide)

/-- A clock that reads `newYear`, and then `newYearHalf`, over a directory without mp3 files. -/
def emptyDirectory : PlaySystem where
  USEREVENT := 24
  now := fun i => if i = 0 then newYear else newYearHalf
  mono := by
    refine monotone_nat_of_le_succ fun i => ?_
    rw [if_neg (Nat.succ_ne_zero i)]
    split
    next => decide +kernel
    next => exact le_refl _
  poll := fun _ => 0
  listdir := fun _ => [['b', '.', 't', 'x', 't']]

end StudyTips
