import StudyTips.CustomSignal

/-!
# Every run of `c/signal/main.c`

One invariant carries the results: how far the handler has come over the whole run
(`Phase`) fixes what it has done, which calls of it there are and what is arranged for
the signal (`Handler`), where the threads can be (`Threads`), and how the process can
have ended (`Ends`). Each kind of step hands all three on.

* `handler_once`: over a whole run the handler is entered at most once, its custom
  logic runs at most once, and from then on the default action is arranged.
* `resent_stays`: a signal that was sent again is pending until it ends the process.
* `exit_of_wait`: what ends the wait of the child.
* `passed_defined`, `create_failure`: when the id of the child is safe to use.
* `moves_le_ten`: how long a run is.
-/

namespace StudyTips

namespace CustomSignal

open Signals hiding State

/-! ## How far the handler has come -/

/-- How far the handler has come over a whole run: whether it was entered, how, and where it
is, `none` when it has returned. -/
inductive Phase : Type where
  /-- the handler was not entered -/
  | armed
  /-- the handler was entered as `c` says and is at `pc` -/
  | fired (c : Catch) (pc : Option HandlerPc)

variable (g : Globals)

/-- The signals that the custom logic sends at its end. -/
def sends : List Event :=
  if g.g_thread_test then [.passed] else if g.g_no_pass_again then [] else [.resent]

/-- What the handler has done. -/
def Phase.events : Phase → List Event
  | .armed => []
  | .fired c (some .enter) => [.caught c]
  | .fired c (some .restore) | .fired c (some .again) => [.caught c, .custom c.thread]
  | .fired c (some .leave) | .fired c none => .caught c :: .custom c.thread :: sends g

/-- The calls of the handler that each thread is in. -/
def Phase.frames : Phase → Thread → List Frame
  | .fired c (some pc) => Function.update (fun _ => []) c.thread [⟨g.g_signumpara, c.waiting, pc⟩]
  | _ => fun _ => []

/-- What is arranged for the signal. -/
def Phase.arranged : Phase → Disposition Unit
  | .armed => .handler () true
  | .fired _ _ => .dfl

/-- The handler and what is arranged for the signals. -/
structure Handler (es : List Event) (s : State) (p : Phase) : Prop where
  /-- the events are those of the handler -/
  events : es = p.events g
  /-- the threads are in the calls of the handler -/
  frames : s.frames = p.frames g
  /-- what is arranged for the signal -/
  arranged : s.signals.disposition g.g_signumpara = p.arranged
  /-- no other signal has a handler -/
  others : ∀ x, x ≠ g.g_signumpara → ∀ h b, s.signals.disposition x ≠ .handler h b

/-- `main`, the child and the id of the child go together. -/
def State.Placed (s : State) : Prop :=
  match s.main with
  | .create => s.g_childThreadId = .zero ∧ s.child = .unborn
  | .store tid => s.g_childThreadId = .zero ∧
      (tid = .child ∧ s.child ≠ .unborn ∨ tid = .garbage ∧ s.child = .unborn)
  | .join => s.g_childThreadId = .child ∧ s.child ≠ .unborn ∨
      s.g_childThreadId = .garbage ∧ s.child = .unborn
  | .exiting => s.g_childThreadId = .child ∧ s.child = .done

/-- The child waits as `-e` says. -/
def Waits : ChildPc → Prop
  | .pause => g.g_epoll_blocked = 0xff
  | .epoll masked => g.g_epoll_blocked = if masked then 1 else 0
  | _ => True

/-- Where the threads can be. -/
structure Threads (s : State) (p : Phase) : Prop where
  /-- `main` and the child go together -/
  placed : s.Placed
  /-- the child waits as `-e` says -/
  waits : Waits g s.child
  /-- a handler in `main` keeps it where it is -/
  inMain : ∀ c pc, p = .fired c (some pc) → c.thread = .main → s.main = c.main
  /-- a handler in the child keeps it alive -/
  inChild : ∀ c pc, p = .fired c (some pc) → c.thread = .child →
    s.child ≠ .unborn ∧ s.child ≠ .done
  /-- a handler that was entered in `pthread_join` finds `main` there -/
  joining : ∀ c pc, p = .fired c (some pc) → c.main = .join → s.main = .join
  /-- only the child waits, and only where the signal is not blocked -/
  waiting : ∀ c pc, p = .fired c pc → c.waiting = true →
    c.thread = .child ∧ g.g_epoll_blocked ≠ 1
  /-- a `pause` ends with the handler -/
  paused : g.g_epoll_blocked = 0xff → s.child = .done →
    ∃ c, p = .fired c none ∧ c.thread = .child ∧ c.waiting = true

/-- How the process can have ended. -/
structure Ends (s : State) (p : Phase) : Prop where
  /-- a process that has exited has returned from `main` -/
  exited : ∀ code, s.status = .exited code → code = 0 ∧ s.main = .exiting
  /-- undefined behaviour comes from an id that names no thread -/
  undefined : s.status = .undefined → s.child = .unborn ∨
    g.g_thread_test = true ∧ ∃ c, p = .fired c (some .leave) ∧ c.main ≠ .join
  /-- a handler in `main` that was entered with no id to use does not return -/
  stuck : ∀ c pc, p = .fired c pc → g.g_thread_test = true → c.thread = .main → c.main ≠ .join →
    pc ≠ none ∧ (pc = some .leave → s.status = .undefined)
  /-- a signal that was sent again is pending until it ends the process -/
  resent : ∀ c pc, p = .fired c pc → g.g_thread_test = false → g.g_no_pass_again = false →
    rules.dfl g.g_signumpara = .terminate → pc = some .leave ∨ pc = none →
      g.g_signumpara ∈ s.signals.shared ∨ s.status = .killed g.g_signumpara

/-- The invariant of the runs: how far the handler has come, where the threads are, and how the
process ends. -/
structure Inv (es : List Event) (s : State) (p : Phase) : Prop where
  /-- the handler -/
  handler : Handler g es s p
  /-- the threads -/
  threads : Threads g s p
  /-- the end -/
  ends : Ends g s p

variable {g} {es : List Event} {s s' : State} {p : Phase}

/-- The invariant holds at the start. -/
theorem inv_start (ignored : ℤ → Bool) : Inv g [] (start g ignored) .armed where
  handler := {
    events := rfl
    frames := rfl
    arranged := by simp [start, Phase.arranged]
    others := by
      intro x hx h b
      rw [start]
      dsimp only
      rw [Function.update_of_ne hx]
      split
      · exact fun heq => by cases heq
      · exact fun heq => by cases heq }
  threads := {
    placed := ⟨rfl, rfl⟩
    waits := trivial
    inMain := fun _ _ h => by cases h
    inChild := fun _ _ h => by cases h
    joining := fun _ _ h => by cases h
    waiting := fun _ _ h => by cases h
    paused := fun _ h => by cases h }
  ends := {
    exited := fun _ h => by cases h
    undefined := fun h => by cases h
    stuck := fun _ _ h => by cases h
    resent := fun _ _ h => by cases h }

/-! ## Steps that leave the handler where it is -/

/-- `Handler` depends on the calls of the handler and on what is arranged for the signals only. -/
theorem Handler.congr (h : Handler g es s p) (hframes : s'.frames = s.frames)
    (hdisp : s'.signals.disposition = s.signals.disposition) : Handler g es s' p :=
  ⟨h.events, by rw [hframes, h.frames], by rw [hdisp, h.arranged], by rw [hdisp]; exact h.others⟩

/-- `Threads` depends on where `main` and the child are and on the id of the child only. -/
theorem Threads.congr (h : Threads g s p) (hmain : s'.main = s.main) (hchild : s'.child = s.child)
    (hid : s'.g_childThreadId = s.g_childThreadId) : Threads g s' p where
  placed := by
    have := h.placed
    rwa [State.Placed, hmain, hchild, hid]
  waits := by rw [hchild]; exact h.waits
  inMain := by rw [hmain]; exact h.inMain
  inChild := by rw [hchild]; exact h.inChild
  joining := by rw [hmain]; exact h.joining
  waiting := h.waiting
  paused := by rw [hchild]; exact h.paused

/-- A process that its threads or a signal can still change. -/
def State.Live (s : State) : Prop := s.status = .running ∨ s.status = .stopped

theorem State.Live.not_exited (h : s.Live) {code : ℤ} : s.status ≠ .exited code := by
  rcases h with h | h
  · rw [h]; exact fun heq => by cases heq
  · rw [h]; exact fun heq => by cases heq

theorem State.Live.not_undefined (h : s.Live) : s.status ≠ .undefined := by
  rcases h with h | h
  · rw [h]; exact fun heq => by cases heq
  · rw [h]; exact fun heq => by cases heq

theorem State.Live.not_killed (h : s.Live) {sig : ℤ} : s.status ≠ .killed sig := by
  rcases h with h | h
  · rw [h]; exact fun heq => by cases heq
  · rw [h]; exact fun heq => by cases heq

/-- A step that leaves the handler where it is and does not exit is about what is pending. -/
theorem Ends.of_live (h : Ends g s p) (hlive : s.Live) (hexited : ∀ code, s'.status ≠ .exited code)
    (hundefined : s'.status ≠ .undefined)
    (hshared : rules.dfl g.g_signumpara = .terminate → g.g_signumpara ∈ s.signals.shared →
      g.g_signumpara ∈ s'.signals.shared ∨ s'.status = .killed g.g_signumpara) : Ends g s' p where
  exited := fun code hcode => absurd hcode (hexited code)
  undefined := fun hundef => absurd hundef hundefined
  stuck := by
    intro c pc hp ht hthread hmain
    obtain ⟨hne, hleave⟩ := h.stuck c pc hp ht hthread hmain
    exact ⟨hne, fun hpc => absurd (hleave hpc) hlive.not_undefined⟩
  resent := by
    intro c pc hp ht hn hdfl hpc
    exact hshared hdfl ((h.resent c pc hp ht hn hdfl hpc).resolve_right hlive.not_killed)

/-- Sending the process a signal. -/
theorem Inv.send {t : Traced Event State} {sig : ℤ} (h : Inv g es s p)
    (hstep : send s sig = some t) : Inv g (es ++ t.log) t.val p := by
  rw [CustomSignal.send] at hstep
  split at hstep
  case isFalse => cases hstep
  case isTrue hlive =>
    have hshared : rules.dfl g.g_signumpara = .terminate → g.g_signumpara ∈ s.signals.shared →
      g.g_signumpara ∈ (s.signals.kill rules sig).shared := mem_shared_kill
    dsimp only at hstep
    split at hstep
    case isTrue =>
      obtain rfl := Option.some.inj hstep
      rw [List.append_nil]
      exact ⟨h.handler.congr rfl rfl, h.threads.congr rfl rfl rfl,
        h.ends.of_live hlive.1 (fun _ heq => by cases heq) (fun heq => by cases heq)
          fun hdfl hmem => .inl (hshared hdfl hmem)⟩
    case isFalse =>
      split at hstep
      case isTrue =>
        obtain rfl := Option.some.inj hstep
        rw [List.append_nil]
        exact ⟨h.handler.congr rfl rfl, h.threads.congr rfl rfl rfl,
          h.ends.of_live hlive.1 (fun _ heq => by cases heq) (fun heq => by cases heq)
            fun hdfl hmem => .inl (hshared hdfl hmem)⟩
      case isFalse =>
        obtain rfl := Option.some.inj hstep
        rw [List.append_nil]
        exact ⟨h.handler.congr rfl rfl, h.threads.congr rfl rfl rfl,
          h.ends.of_live hlive.1 (fun _ => State.Live.not_exited hlive.1)
            (State.Live.not_undefined hlive.1) fun hdfl hmem => .inl (hshared hdfl hmem)⟩

/-- A thread takes a signal that is not caught. -/
theorem Inv.acted {t : Thread} {sig : ℤ} {signals : Signals.State ℤ Thread Unit} {a : Action}
    {status : Status} (h : Inv g es s p) (hlive : s.Live)
    (ht : Taken rules t sig s.signals signals (.acted a))
    (hstatus : status = .killed sig ∨ (status = .stopped ∧ a ≠ .terminate) ∨
      (status = s.status ∧ a ≠ .terminate)) :
    Inv g es { s with signals := signals, status := status } p := by
  have hdisp := ht.disposition_eq
  refine ⟨h.handler.congr rfl hdisp, h.threads.congr rfl rfl rfl, h.ends.of_live hlive ?_ ?_ ?_⟩
  · rcases hstatus with rfl | ⟨rfl, _⟩ | ⟨rfl, _⟩
    · exact fun _ heq => by cases heq
    · exact fun _ heq => by cases heq
    · exact fun _ => hlive.not_exited
  · rcases hstatus with rfl | ⟨rfl, _⟩ | ⟨rfl, _⟩
    · exact fun heq => by cases heq
    · exact fun heq => by cases heq
    · exact hlive.not_undefined
  · intro hdfl hmem
    rcases eq_or_ne g.g_signumpara sig with rfl | hne
    · have harranged := h.handler.arranged
      cases p with
      | armed =>
        cases (ht.of_oneShot harranged).1
      | fired c pc =>
        -- the default action was taken, which ends the process
        obtain ⟨heffect, _⟩ := ht.of_dfl harranged
        rw [hdfl] at heffect
        obtain rfl := Effect.acted.inj heffect
        rcases hstatus with rfl | ⟨_, hne⟩ | ⟨_, hne⟩
        · exact .inr rfl
        · exact absurd rfl hne
        · exact absurd rfl hne
    · exact .inl (ht.shared _ hne hmem)

/-- Only the one signal is caught, and only once. -/
theorem Inv.armed_of_caught {t : Thread} {sig : ℤ} {signals : Signals.State ℤ Thread Unit}
    (h : Inv g es s p) (ht : Taken rules t sig s.signals signals (.caught ())) :
    sig = g.g_signumpara ∧ p = .armed := by
  obtain rfl : sig = g.g_signumpara := by
    by_contra hne
    exact ht.not_caught (h.handler.others sig hne) () rfl
  refine ⟨rfl, ?_⟩
  cases p with
  | armed => rfl
  | fired c pc => cases (ht.of_dfl h.handler.arranged).1

/-- The handler is entered. -/
theorem Inv.caught {t : Thread} {sig : ℤ} {signals : Signals.State ℤ Thread Unit}
    (h : Inv g es s p) (hlive : s.Live) (halive : s.Alive t) (hblocks : ¬ s.Blocks g t sig)
    (ht : Taken rules t sig s.signals signals (.caught ())) :
    Inv g (es ++ [.caught ⟨t, s.main, s.waits t⟩])
      (State.setFrames { s with signals := signals } t (⟨sig, s.waits t, .enter⟩ :: s.frames t))
      (.fired ⟨t, s.main, s.waits t⟩ (some .enter)) := by
  obtain ⟨rfl, rfl⟩ := h.armed_of_caught ht
  have hframes : s.frames = fun _ => [] := h.handler.frames
  have hwaits : s.waits t = true → t = .child ∧ g.g_epoll_blocked ≠ 1 := by
    intro hw
    cases t with
    | main => cases hw
    | child =>
      refine ⟨rfl, fun hmode => hblocks ⟨rfl, by rw [hframes], ?_, rfl⟩⟩
      have hwait := h.threads.waits
      rw [State.waits, Bool.and_eq_true] at hw
      cases hchild : s.child with
      | pause =>
        rw [hchild, Waits, hmode] at hwait
        cases hwait
      | epoll masked =>
        rw [hchild, Waits, hmode] at hwait
        cases masked with
        | true => rfl
        | false => cases hwait
      | unborn => simp [hchild] at hw
      | start => simp [hchild] at hw
      | done => simp [hchild] at hw
  refine ⟨⟨?_, ?_, ?_, ?_⟩, ⟨h.threads.placed, h.threads.waits, ?_, ?_, ?_, ?_, ?_⟩,
    ⟨?_, ?_, ?_, ?_⟩⟩
  · rw [h.handler.events]
    rfl
  · rw [State.setFrames]
    dsimp only [Phase.frames]
    rw [hframes]
  · exact (ht.of_oneShot h.handler.arranged).2
  · intro x hx f b
    exact (ht.others x hx).symm ▸ h.handler.others x hx f b
  · intro c pc hp _
    cases hp
    rfl
  · intro c pc hp hthread
    cases hp
    obtain rfl : t = .child := hthread
    exact halive
  · intro c pc hp hjoin
    cases hp
    exact hjoin
  · intro c pc hp hw
    cases hp
    exact hwaits hw
  · intro hmode hdone
    obtain ⟨c, hp, _⟩ := h.threads.paused hmode hdone
    cases hp
  · exact fun code hcode => absurd hcode hlive.not_exited
  · exact fun hundef => absurd hundef hlive.not_undefined
  · intro c pc hp _ _ _
    cases hp
    exact ⟨fun heq => (by cases heq), fun heq => (by cases heq)⟩
  · intro c pc hp _ _ _ hpc
    cases hp
    rcases hpc with hpc | hpc <;> cases hpc

/-- A thread takes a pending signal. -/
theorem Inv.deliver {t : Traced Event State} {th : Thread} {sig : ℤ} (h : Inv g es s p)
    (hstep : deliver g s th sig = some t) : ∃ p', Inv g (es ++ t.log) t.val p' := by
  rw [CustomSignal.deliver] at hstep
  split at hstep
  case isFalse => cases hstep
  case isTrue hcond =>
    obtain ⟨hrunning, halive, hblocks⟩ := hcond
    obtain ⟨⟨e, signals⟩, htake, heq⟩ := Option.map_eq_some_iff.mp hstep
    have htaken := take_taken htake
    dsimp only at heq
    split at heq
    case h_1 =>
      subst heq
      refine ⟨p, ?_⟩
      rw [List.append_nil]
      exact h.acted (.inl hrunning) htaken (.inl rfl)
    case h_2 =>
      subst heq
      refine ⟨p, ?_⟩
      rw [List.append_nil]
      exact h.acted (.inl hrunning) htaken (.inr (.inl ⟨rfl, by decide⟩))
    case h_3 =>
      subst heq
      refine ⟨p, ?_⟩
      rw [List.append_nil]
      exact h.acted (.inl hrunning) htaken (.inr (.inr ⟨rfl, by decide⟩))
    case h_4 =>
      subst heq
      refine ⟨p, ?_⟩
      rw [List.append_nil]
      exact h.acted (.inl hrunning) htaken (.inr (.inr ⟨rfl, by decide⟩))
    case h_5 =>
      subst heq
      exact ⟨_, h.caught (.inl hrunning) halive hblocks htaken⟩

/-! ## Steps of the handler -/

/-- A call of the handler is the one the phase is about. -/
theorem Handler.frame {t : Thread} {f : Frame} {fs : List Frame} (h : Handler g es s p)
    (hf : s.frames t = f :: fs) : ∃ c pc, p = .fired c (some pc) ∧ t = c.thread ∧
      f = ⟨g.g_signumpara, c.waiting, pc⟩ ∧ fs = [] := by
  rw [h.frames] at hf
  match p, hf with
  | .fired c (some pc), hf =>
    rcases eq_or_ne t c.thread with rfl | hne
    · rw [Phase.frames, Function.update_self] at hf
      obtain ⟨rfl, rfl⟩ := List.cons.inj hf
      exact ⟨c, pc, rfl, rfl, rfl, rfl⟩
    · rw [Phase.frames, Function.update_of_ne hne] at hf
      cases hf
  | .armed, hf => cases hf
  | .fired _ none, hf => cases hf

/-- Where the frames of a phase have the call at `pc`, they have it at `pc'` in the next. -/
theorem Phase.setFrames (hframes : s.frames = Phase.frames g (.fired c (some pc))) {fs : List Frame} :
    (s.setFrames c.thread fs).frames = Function.update (fun _ => []) c.thread fs := by
  rw [State.setFrames]
  dsimp only
  rw [hframes, Phase.frames, Function.update_idem]

/-- A call of the handler that goes on leaves the threads where they are. -/
theorem Threads.goOn {c : Catch} {pc pc' : HandlerPc} (h : Threads g s (.fired c (some pc)))
    (hmain : s'.main = s.main) (hchild : s'.child = s.child)
    (hid : s'.g_childThreadId = s.g_childThreadId) : Threads g s' (.fired c (some pc')) where
  placed := (h.congr hmain hchild hid).placed
  waits := (h.congr hmain hchild hid).waits
  inMain := by
    intro c' pc'' hp
    cases hp
    exact (h.congr hmain hchild hid).inMain c pc rfl
  inChild := by
    intro c' pc'' hp
    cases hp
    exact (h.congr hmain hchild hid).inChild c pc rfl
  joining := by
    intro c' pc'' hp
    cases hp
    exact (h.congr hmain hchild hid).joining c pc rfl
  waiting := by
    intro c' pc'' hp
    cases hp
    exact h.waiting c (some pc) rfl
  paused := by
    intro hmode hdone
    obtain ⟨c', hp, _⟩ := h.paused hmode (hchild ▸ hdone)
    cases hp

/-- A call that goes on to a place before its end has nothing to say about the end. -/
theorem Ends.goOn {c : Catch} {pc' : HandlerPc} (hlive : s'.Live) (hpc : pc' ≠ .leave) :
    Ends g s' (.fired c (some pc')) where
  exited := fun code hcode => absurd hcode hlive.not_exited
  undefined := fun hundef => absurd hundef hlive.not_undefined
  stuck := by
    intro c' pc'' hp _ _ _
    cases hp
    exact ⟨fun heq => (by cases heq), fun heq => absurd (Option.some.inj heq) hpc⟩
  resent := by
    intro c' pc'' hp _ _ _ hleave
    cases hp
    rcases hleave with heq | heq
    · exact absurd (Option.some.inj heq) hpc
    · cases heq

/-- What `pthread_kill` leaves. -/
structure PassedOn (g : Globals) (s s' : State) : Prop where
  /-- `main` stays where it is -/
  main : s'.main = s.main
  /-- the child stays where it is -/
  child : s'.child = s.child
  /-- the id of the child stays -/
  id : s'.g_childThreadId = s.g_childThreadId
  /-- the calls of the handler stay -/
  frames : s'.frames = s.frames
  /-- what is arranged for the signals stays -/
  disposition : s'.signals.disposition = s.signals.disposition
  /-- the id named the child, or the behaviour is undefined -/
  status : s'.status = s.status ∧ s.g_childThreadId = .child ∧ s.main ≠ .exiting ∨
    s'.status = .undefined ∧ (s.g_childThreadId = .child → s.main = .exiting)

theorem passOn_passedOn (s : State) : PassedOn g s (passOn g s) := by
  rw [passOn]
  split
  case h_1 hid =>
    split
    case isTrue hexit => exact ⟨rfl, rfl, rfl, rfl, rfl, .inr ⟨rfl, fun _ => hexit⟩⟩
    case isFalse hexit =>
      split
      case isTrue => exact ⟨rfl, rfl, rfl, rfl, rfl, .inl ⟨rfl, hid, hexit⟩⟩
      case isFalse => exact ⟨rfl, rfl, rfl, rfl, rfl, .inl ⟨rfl, hid, hexit⟩⟩
  case h_2 hid => exact ⟨rfl, rfl, rfl, rfl, rfl, .inr ⟨rfl, fun h => absurd h hid⟩⟩

/-- `custom_signal_handler` sends the signal again. -/
theorem Inv.again {c : Catch} (h : Inv g es s (.fired c (some .again))) (hlive : s.Live) :
    let t := handlerStep g s c.thread ⟨g.g_signumpara, c.waiting, .again⟩ []
    Inv g (es ++ t.log) t.val (.fired c (some .leave)) := by
  intro t
  let s₁ := s.setFrames c.thread [⟨g.g_signumpara, c.waiting, .leave⟩]
  have hhandler : ∀ {s' : State}, s'.frames = s₁.frames →
      s'.signals.disposition = s.signals.disposition →
        Handler g (es ++ sends g) s' (.fired c (some .leave)) := fun hframes hdisp =>
    ⟨by rw [h.handler.events]; rfl, by rw [hframes]; exact Phase.setFrames h.handler.frames,
      by rw [hdisp]; exact h.handler.arranged, by rw [hdisp]; exact h.handler.others⟩
  have ht : t = if g.g_thread_test then ⟨passOn g s₁, [.passed]⟩
      else if g.g_no_pass_again then ⟨s₁, []⟩
      else ⟨{ s₁ with signals := s₁.signals.kill rules g.g_signumpara }, [.resent]⟩ := rfl
  rw [ht]
  split
  case isTrue htest =>
    obtain ⟨hmain, hchild, hid, hframes, hdisp, hstatus⟩ := passOn_passedOn (g := g) s₁
    refine ⟨?_, h.threads.goOn hmain hchild hid, ?_, ?_, ?_, ?_⟩
    · have hsends : sends g = [.passed] := by rw [sends, if_pos htest]
      rw [← hsends]
      exact hhandler hframes hdisp
    · intro code hcode
      rcases hstatus with ⟨hsame, _⟩ | ⟨hundef, _⟩
      · exact absurd (hsame.symm.trans hcode) hlive.not_exited
      · cases hundef.symm.trans hcode
    · intro hundef
      have hbad : s.g_childThreadId = .child → s.main = .exiting := by
        rcases hstatus with ⟨hsame, _⟩ | ⟨_, hbad⟩
        · exact absurd (hsame.symm.trans hundef) hlive.not_undefined
        · exact hbad
      by_cases hjoin : c.main = .join
      · -- `main` is in `pthread_join`, so the id is that of no thread
        have hplaced := h.threads.placed
        have hmainJoin := h.threads.joining c .again rfl hjoin
        rw [State.Placed, hmainJoin] at hplaced
        rcases hplaced with ⟨hchildId, _⟩ | ⟨_, hunborn⟩
        · cases hmainJoin.symm.trans (hbad hchildId)
        · exact .inl (hchild.trans hunborn)
      · exact .inr ⟨htest, c, rfl, hjoin⟩
    · intro c' pc' hp _ hthread hne
      cases hp
      refine ⟨fun heq => (by cases heq), fun _ => ?_⟩
      rcases hstatus with ⟨_, hchildId, hexit⟩ | ⟨hundef, _⟩
      · -- the id is stored, and `main` has not moved since the handler was entered
        have hplaced := h.threads.placed
        have hsame := h.threads.inMain c .again rfl hthread
        rw [State.Placed] at hplaced
        split at hplaced
        next => cases hplaced.1.symm.trans hchildId
        next => cases hplaced.1.symm.trans hchildId
        next hmainJoin => exact absurd (hsame.symm.trans hmainJoin) hne
        next hmainExit => exact absurd hmainExit hexit
      · exact hundef
    · intro c' pc' hp htest' _ _ _
      rw [htest] at htest'
      cases htest'
  case isFalse htest =>
    split
    case isTrue hno =>
      have hsends : sends g = [] := by rw [sends, if_neg htest, if_pos hno]
      refine ⟨hsends ▸ hhandler rfl rfl, h.threads.goOn rfl rfl rfl, ?_, ?_, ?_, ?_⟩
      · exact fun code hcode => absurd hcode hlive.not_exited
      · exact fun hundef => absurd hundef hlive.not_undefined
      · exact fun _ _ _ htest' _ _ => absurd htest' htest
      · intro c' pc' _ _ hno' _ _
        rw [hno] at hno'
        cases hno'
    case isFalse hno =>
      have hsends : sends g = [.resent] := by rw [sends, if_neg htest, if_neg hno]
      refine ⟨hsends ▸ hhandler rfl rfl, h.threads.goOn rfl rfl rfl, ?_, ?_, ?_, ?_⟩
      · exact fun code hcode => absurd hcode hlive.not_exited
      · exact fun hundef => absurd hundef hlive.not_undefined
      · exact fun _ _ _ htest' _ _ => absurd htest' htest
      · exact fun _ _ _ _ _ _ _ => .inl mem_kill

/-- `custom_signal_handler` returns. -/
theorem Inv.leave {c : Catch} (h : Inv g es s (.fired c (some .leave))) (hlive : s.Live) :
    let t := handlerStep g s c.thread ⟨g.g_signumpara, c.waiting, .leave⟩ []
    Inv g (es ++ t.log) t.val (.fired c none) := by
  intro t
  have halive : c.waiting = true → s.child ≠ .unborn ∧ s.child ≠ .done := fun hw =>
    h.threads.inChild c _ rfl (h.threads.waiting c _ rfl hw).1
  have ht : t = ⟨{ s.setFrames c.thread [] with
      child := if c.waiting then .done else s.child }, []⟩ := by
    simp only [t, handlerStep]
    split <;> rfl
  rw [ht, List.append_nil]
  refine ⟨⟨h.handler.events, Phase.setFrames h.handler.frames |>.trans ?_, h.handler.arranged,
    h.handler.others⟩, ⟨?_, ?_, fun _ _ hp => (by cases hp), fun _ _ hp => (by cases hp),
      fun _ _ hp => (by cases hp), ?_, ?_⟩, ⟨?_, ?_, ?_, ?_⟩⟩
  · exact Function.update_eq_self c.thread fun _ => []
  · -- a child that was alive has returned
    have hplaced := h.threads.placed
    cases hw : c.waiting with
    | false => exact hplaced
    | true =>
      obtain ⟨hborn, hdone⟩ := halive hw
      rw [State.Placed] at hplaced ⊢
      dsimp only [State.setFrames]
      split at hplaced
      next => exact absurd hplaced.2 hborn
      next =>
        exact ⟨hplaced.1, .inl ⟨(hplaced.2.resolve_right fun hg => hborn hg.2).1,
          fun heq => by cases heq⟩⟩
      next => exact .inl ⟨(hplaced.resolve_right fun hg => hborn hg.2).1, fun heq => by cases heq⟩
      next => exact absurd hplaced.2 hdone
  · dsimp only
    split
    · trivial
    · exact h.threads.waits
  · intro c' pc' hp hw
    cases hp
    exact h.threads.waiting c _ rfl hw
  · intro hmode hdone
    dsimp only at hdone
    split at hdone
    next hw => exact ⟨c, rfl, (h.threads.waiting c _ rfl hw).1, hw⟩
    next =>
      obtain ⟨c', hp, _⟩ := h.threads.paused hmode hdone
      cases hp
  · exact fun code hcode => absurd hcode hlive.not_exited
  · exact fun hundef => absurd hundef hlive.not_undefined
  · intro c' pc' hp htest hthread hne
    cases hp
    obtain ⟨_, hundef⟩ := h.ends.stuck c _ rfl htest hthread hne
    exact absurd (hundef rfl) hlive.not_undefined
  · intro c' pc' hp htest hno hdfl _
    cases hp
    exact h.ends.resent c _ rfl htest hno hdfl (.inl rfl)

/-- The handler takes its next step. -/
theorem Inv.handlerStep {t : Thread} {f : Frame} {fs : List Frame} (h : Inv g es s p)
    (hlive : s.Live) (hf : s.frames t = f :: fs) :
    ∃ p', Inv g (es ++ (handlerStep g s t f fs).log) (handlerStep g s t f fs).val p' := by
  obtain ⟨c, pc, rfl, rfl, rfl, rfl⟩ := h.handler.frame hf
  cases pc with
  | enter =>
    refine ⟨.fired c (some .restore), ?_⟩
    rw [CustomSignal.handlerStep]
    dsimp only
    rw [if_neg (not_not.mpr rfl)]
    exact ⟨⟨by rw [h.handler.events]; rfl, Phase.setFrames h.handler.frames, h.handler.arranged,
      h.handler.others⟩, h.threads.goOn rfl rfl rfl, .goOn hlive fun heq => by cases heq⟩
  | restore =>
    refine ⟨.fired c (some .again), ?_⟩
    rw [CustomSignal.handlerStep]
    dsimp only
    rw [List.append_nil]
    exact ⟨⟨h.handler.events, Phase.setFrames h.handler.frames, sigaction_self _,
      fun x hx => (sigaction_of_ne (s := s.signals) hx).symm ▸ h.handler.others x hx⟩,
      h.threads.goOn rfl rfl rfl, .goOn hlive fun heq => by cases heq⟩
  | again => exact ⟨_, h.again hlive⟩
  | leave => exact ⟨_, h.leave hlive⟩

/-! ## Steps of the threads -/

/-- A thread with no call of the handler is not the one that entered it. -/
theorem Handler.thread_ne {t : Thread} {c : Catch} {pc : HandlerPc}
    (h : Handler g es s (.fired c (some pc))) (hf : s.frames t = []) : c.thread ≠ t := by
  rintro rfl
  rw [h.frames, Phase.frames, Function.update_self] at hf
  cases hf

/-- A step of `main` outside the handler. -/
theorem Inv.mainStep {ok : Bool} (h : Inv g es s p) (hlive : s.Live) (hf : s.frames .main = [])
    (hstep : mainStep s ok = some s') : Inv g es s' p := by
  have hplaced := h.threads.placed
  have hnot : ∀ c pc, p = .fired c (some pc) → c.thread ≠ .main := by
    rintro c pc rfl
    exact h.handler.thread_ne hf
  have hends : ∀ {s'' : State}, s''.signals = s.signals → s''.status = s.status → Ends g s'' p :=
    fun hsignals hstatus => h.ends.of_live hlive (fun _ => by rw [hstatus]; exact hlive.not_exited)
      (by rw [hstatus]; exact hlive.not_undefined) fun _ hmem => .inl (by rw [hsignals]; exact hmem)
  rw [CustomSignal.mainStep] at hstep
  rw [State.Placed] at hplaced
  split at hstep
  case h_1 hmain =>
    rw [hmain] at hplaced
    split at hstep
    case isTrue =>
      obtain rfl := Option.some.inj hstep
      refine ⟨h.handler.congr rfl rfl, ⟨⟨hplaced.1, .inl ⟨rfl, fun heq => by cases heq⟩⟩, trivial,
        fun c pc hp hthread => absurd hthread (hnot c pc hp), ?_, ?_, h.threads.waiting,
          fun _ hdone => by cases hdone⟩, hends rfl rfl⟩
      · intro c pc hp hthread
        exact absurd hplaced.2 (h.threads.inChild c pc hp hthread).1
      · intro c pc hp hjoin
        cases hmain.symm.trans (h.threads.joining c pc hp hjoin)
    case isFalse =>
      obtain rfl := Option.some.inj hstep
      refine ⟨h.handler.congr rfl rfl, ⟨⟨hplaced.1, .inr ⟨rfl, hplaced.2⟩⟩, h.threads.waits,
        fun c pc hp hthread => absurd hthread (hnot c pc hp), h.threads.inChild, ?_,
          h.threads.waiting, h.threads.paused⟩, hends rfl rfl⟩
      intro c pc hp hjoin
      cases hmain.symm.trans (h.threads.joining c pc hp hjoin)
  case h_2 tid hmain =>
    rw [hmain] at hplaced
    obtain rfl := Option.some.inj hstep
    exact ⟨h.handler.congr rfl rfl, ⟨hplaced.2, h.threads.waits,
      fun c pc hp hthread => absurd hthread (hnot c pc hp), h.threads.inChild,
        fun _ _ _ _ => rfl, h.threads.waiting, h.threads.paused⟩, hends rfl rfl⟩
  case h_3 hmain =>
    rw [hmain] at hplaced
    split at hstep
    case h_1 hid =>
      split at hstep
      case isTrue hdone =>
        obtain rfl := Option.some.inj hstep
        refine ⟨h.handler.congr rfl rfl, ⟨⟨hid, hdone⟩, h.threads.waits,
          fun c pc hp hthread => absurd hthread (hnot c pc hp), h.threads.inChild, ?_,
            h.threads.waiting, h.threads.paused⟩, hends rfl rfl⟩
        -- no handler is in the child either, since it has returned
        intro c pc hp _
        cases hthread : c.thread with
        | main => exact absurd hthread (hnot c pc hp)
        | child => exact absurd hdone (h.threads.inChild c pc hp hthread).2
      case isFalse => cases hstep
    case h_2 hid =>
      obtain rfl := Option.some.inj hstep
      have hunborn : s.child = .unborn := (hplaced.resolve_left fun hg => hid hg.1).2
      refine ⟨h.handler.congr rfl rfl, h.threads.congr rfl rfl rfl,
        ⟨fun _ hcode => (by cases hcode), fun _ => .inl hunborn, ?_, ?_⟩⟩
      · intro c pc hp htest hthread hne
        exact ⟨(h.ends.stuck c pc hp htest hthread hne).1, fun _ => rfl⟩
      · intro c pc hp htest hno hdfl hpc
        exact .inl ((h.ends.resent c pc hp htest hno hdfl hpc).resolve_right hlive.not_killed)
  case h_4 hmain =>
    obtain rfl := Option.some.inj hstep
    refine ⟨h.handler.congr rfl rfl, h.threads.congr rfl rfl rfl,
      ⟨fun code hcode => ?_, fun hundef => (by cases hundef), ?_, ?_⟩⟩
    · exact ⟨(Status.exited.inj hcode).symm, hmain⟩
    · intro c pc hp htest hthread hne
      obtain ⟨hpc, hundef⟩ := h.ends.stuck c pc hp htest hthread hne
      exact ⟨hpc, fun hleave => absurd (hundef hleave) hlive.not_undefined⟩
    · intro c pc hp htest hno hdfl hpc
      exact .inl ((h.ends.resent c pc hp htest hno hdfl hpc).resolve_right hlive.not_killed)

/-- The child moves to another place, one that is not behind a `pause`. -/
theorem Inv.moveChild {child : ChildPc} (h : Inv g es s p) (hlive : s.Live)
    (hf : s.frames .child = []) (hwaits : Waits g child) (hborn : s.child ≠ .unborn)
    (hdone : s.child ≠ .done) (hchild : child ≠ .unborn)
    (hpause : g.g_epoll_blocked = 0xff → child ≠ .done) :
    Inv g es { s with child := child } p := by
  have hplaced := h.threads.placed
  refine ⟨h.handler.congr rfl rfl, ⟨?_, hwaits, h.threads.inMain, ?_, h.threads.joining,
    h.threads.waiting, fun hmode hdone => absurd hdone (hpause hmode)⟩,
    h.ends.of_live hlive (fun _ => hlive.not_exited) hlive.not_undefined fun _ hmem => .inl hmem⟩
  · rw [State.Placed] at hplaced ⊢
    dsimp only
    split at hplaced
    next => exact absurd hplaced.2 hborn
    next => exact ⟨hplaced.1, .inl ⟨(hplaced.2.resolve_right fun hg => hborn hg.2).1, hchild⟩⟩
    next => exact .inl ⟨(hplaced.resolve_right fun hg => hborn hg.2).1, hchild⟩
    next => exact absurd hplaced.2 hdone
  · rintro c pc rfl hthread
    exact absurd hthread (h.handler.thread_ne hf)

/-- A step of the child outside the handler. -/
theorem Inv.thread_entry {ok : Bool} (h : Inv g es s p) (hlive : s.Live)
    (hf : s.frames .child = []) (hstep : thread_entry g s ok = some s') : Inv g es s' p := by
  have hwaits := h.threads.waits
  rw [CustomSignal.thread_entry] at hstep
  split at hstep
  case h_1 hchild =>
    have hmove : ∀ child, Waits g child → child ≠ .unborn →
        (g.g_epoll_blocked = 0xff → child ≠ .done) → Inv g es { s with child := child } p :=
      fun child hw hne => h.moveChild hlive hf hw (by rw [hchild]; exact fun heq => by cases heq)
        (by rw [hchild]; exact fun heq => by cases heq) hne
    split at hstep
    case isTrue hmode =>
      obtain rfl := Option.some.inj hstep
      exact hmove _ hmode (fun heq => by cases heq) fun _ heq => by cases heq
    case isFalse hmode =>
      split at hstep
      case isTrue =>
        obtain rfl := Option.some.inj hstep
        exact hmove _ trivial (fun heq => by cases heq) fun hpause => absurd hpause hmode
      case isFalse =>
        split at hstep
        case isTrue hmode0 =>
          obtain rfl := Option.some.inj hstep
          exact hmove _ hmode0 (fun heq => by cases heq) fun _ heq => by cases heq
        case isFalse =>
          split at hstep
          case isTrue hmode1 =>
            obtain rfl := Option.some.inj hstep
            exact hmove _ hmode1 (fun heq => by cases heq) fun _ heq => by cases heq
          case isFalse =>
            obtain rfl := Option.some.inj hstep
            exact hmove _ trivial (fun heq => by cases heq) fun hpause => absurd hpause hmode
  case h_2 masked hchild =>
    obtain rfl := Option.some.inj hstep
    rw [hchild, Waits] at hwaits
    refine h.moveChild hlive hf trivial (by rw [hchild]; exact fun heq => by cases heq)
      (by rw [hchild]; exact fun heq => by cases heq) (fun heq => by cases heq) fun hmode => ?_
    rw [hmode] at hwaits
    cases masked <;> cases hwaits
  all_goals cases hstep

/-- A thread takes its next step. -/
theorem Inv.move {t : Traced Event State} {th : Thread} {ok : Bool} (h : Inv g es s p)
    (hstep : move g s th ok = some t) : ∃ p', Inv g (es ++ t.log) t.val p' := by
  unfold CustomSignal.move at hstep
  split at hstep
  case isFalse => cases hstep
  case isTrue hrunning =>
    split at hstep
    case h_1 f fs hf =>
      obtain rfl := Option.some.inj hstep
      exact h.handlerStep (.inl hrunning) hf
    case h_2 hf =>
      obtain ⟨s', hs', rfl⟩ := Option.map_eq_some_iff.mp hstep
      refine ⟨p, ?_⟩
      rw [List.append_nil]
      cases th with
      | main => exact h.mainStep (.inl hrunning) hf hs'
      | child => exact h.thread_entry (.inl hrunning) hf hs'

/-- **Every step hands the invariant on.** -/
theorem Inv.step {t : Traced Event State} {l : Label} (h : Inv g es s p)
    (hstep : step g s l = some t) : ∃ p', Inv g (es ++ t.log) t.val p' := by
  cases l with
  | move th ok => exact h.move hstep
  | deliver th sig => exact h.deliver hstep
  | send sig => exact ⟨p, h.send hstep⟩

/-- **The invariant holds in every run.** -/
theorem Run.inv {ignored : ℤ → Bool} {ls : List Label} {t : Traced Event State}
    (h : Run g ignored ls t) : ∃ p, Inv g t.log t.val p :=
  Schedule.exec_inv (fun _ es s => ∃ p, Inv g es s p)
    (fun _ _ _ _ _ ⟨_, hinv⟩ hstep => hinv.step hstep) ⟨.armed, inv_start ignored⟩ h

/-! ## What holds of every run -/

/-- The handler was entered as the events of the run say. -/
theorem Handler.fired {c : Catch} (h : Handler g es s p) (hc : .caught c ∈ es) :
    ∃ pc, p = .fired c pc := by
  rw [h.events] at hc
  cases p with
  | armed => cases hc
  | fired c' pc =>
    refine ⟨pc, ?_⟩
    match pc with
    | none | some .enter | some .restore | some .again | some .leave =>
      simp only [Phase.events, sends] at hc
      grind

/-- The signal has been sent again, or passed to the child. -/
theorem Handler.sent {e : Event} (h : Handler g es s p) (he : e = .resent ∨ e = .passed)
    (hmem : e ∈ es) : e ∈ sends g ∧ ∃ c pc, p = .fired c pc ∧ (pc = some .leave ∨ pc = none) := by
  rw [h.events] at hmem
  match p, hmem with
  | .armed, hmem => cases hmem
  | .fired c (some .leave), hmem =>
    simp only [Phase.events] at hmem
    exact ⟨by grind, c, _, rfl, .inl rfl⟩
  | .fired c none, hmem =>
    simp only [Phase.events] at hmem
    exact ⟨by grind, c, _, rfl, .inr rfl⟩
  | .fired c (some .enter), hmem
  | .fired c (some .restore), hmem
  | .fired c (some .again), hmem =>
    simp only [Phase.events] at hmem
    grind

variable {ignored : ℤ → Bool} {ls : List Label} {t : Traced Event State}

/-- **The handler is entered at most once in a whole run**, in whatever order threads step and
signals arrive: what it has done is a beginning of one entry, one run of the custom logic and
what that sends, and from its entry on the default action is arranged. -/
theorem handler_once (h : Run g ignored ls t) :
    (t.log = [] ∧ t.val.signals.disposition g.g_signumpara = .handler () true) ∨
      ∃ c, t.log <+: .caught c :: .custom c.thread :: sends g ∧ t.log ≠ [] ∧
        t.val.signals.disposition g.g_signumpara = .dfl := by
  obtain ⟨p, hinv⟩ := h.inv
  have hevents := hinv.handler.events
  have harranged := hinv.handler.arranged
  match p with
  | .armed => exact .inl ⟨hevents, harranged⟩
  | .fired c none | .fired c (some .leave) =>
    exact .inr ⟨c, by rw [hevents]; exact List.prefix_refl _, by rw [hevents]; exact List.cons_ne_nil _ _,
      harranged⟩
  | .fired c (some .enter) =>
    exact .inr ⟨c, by rw [hevents]; exact ⟨_, rfl⟩, by rw [hevents]; exact List.cons_ne_nil _ _,
      harranged⟩
  | .fired c (some .restore) | .fired c (some .again) =>
    exact .inr ⟨c, by rw [hevents]; exact ⟨_, rfl⟩, by rw [hevents]; exact List.cons_ne_nil _ _,
      harranged⟩

/-- The child is interrupted in `pause`, returns, and the program exits, with `-n`. -/
def exitByInterrupt : List Label :=
  [.move .main true, .move .main true, .move .child true, .send SIGINT, .deliver .child SIGINT,
    .move .child true, .move .child true, .move .child true, .move .child true,
    .move .main true, .move .main true]

/-- The handler of a run in which `pause` is interrupted is called once. -/
theorem handler_once_interrupt : ∃ t, Run { defaults with g_no_pass_again := true }
    (fun _ => false) exitByInterrupt t ∧ t.log = [.caught ⟨.child, .join, true⟩, .custom .child] ∧
      ((t.log = [] ∧ t.val.signals.disposition SIGINT = .handler () true) ∨
        ∃ c, t.log <+: .caught c :: .custom c.thread :: sends { defaults with
          g_no_pass_again := true } ∧ t.log ≠ [] ∧
            t.val.signals.disposition SIGINT = .dfl) := by
  obtain ⟨t, ht, hlog⟩ := Option.map_eq_some_iff.mp
    (show (Schedule.exec (step { defaults with g_no_pass_again := true }) exitByInterrupt
      (start { defaults with g_no_pass_again := true } fun _ => false)).map (fun t => t.log) =
        some [.caught ⟨.child, .join, true⟩, .custom .child] from rfl)
  exact ⟨t, ht, hlog, handler_once ht⟩

/-- **What ends the wait of the child.** With `pause` the program exits only when the handler
was entered by the child while it waited; with a signal set for `epoll_pwait` no wait is
interrupted by the signal at all. -/
theorem exit_of_wait (h : Run g ignored ls t) :
    (g.g_epoll_blocked = 0xff → ∀ code, t.val.status = .exited code → code = 0 ∧
      ∃ c, t.log = .caught c :: .custom c.thread :: sends g ∧ c.thread = .child ∧
        c.waiting = true) ∧
    (g.g_epoll_blocked = 1 → ∀ c, .caught c ∈ t.log → c.waiting = false) := by
  obtain ⟨p, hinv⟩ := h.inv
  refine ⟨fun hmode code hcode => ?_, fun hmode c hc => ?_⟩
  · obtain ⟨rfl, hexit⟩ := hinv.ends.exited code hcode
    have hplaced := hinv.threads.placed
    rw [State.Placed, hexit] at hplaced
    obtain ⟨c, rfl, hthread, hwaiting⟩ := hinv.threads.paused hmode hplaced.2
    exact ⟨rfl, c, hinv.handler.events, hthread, hwaiting⟩
  · obtain ⟨pc, rfl⟩ := hinv.handler.fired hc
    by_contra hw
    exact (hinv.threads.waiting c pc rfl (by simpa using hw)).2 hmode

/-- The process exits in a run in which `pause` is interrupted. -/
theorem exit_of_wait_interrupt : ∃ t, Run { defaults with g_no_pass_again := true }
    (fun _ => false) exitByInterrupt t ∧ t.val.status = .exited 0 ∧
      ∃ c, t.log = .caught c :: .custom c.thread :: sends { defaults with
        g_no_pass_again := true } ∧ c.thread = .child ∧ c.waiting = true := by
  obtain ⟨t, ht, hstatus⟩ := Option.map_eq_some_iff.mp
    (show (Schedule.exec (step { defaults with g_no_pass_again := true }) exitByInterrupt
      (start { defaults with g_no_pass_again := true } fun _ => false)).map
        (fun t => t.val.status) = some (.exited 0) from rfl)
  exact ⟨t, ht, hstatus, ((exit_of_wait ht).1 rfl 0 hstatus).2⟩

/-- **When the id of the child is safe to use** (`-t`): entered while `main` is in
`pthread_join` of a thread there is, the handler leads to nothing undefined, in whatever
thread; entered by `main` before the id is stored or behind the join, it always does. -/
theorem passed_defined (h : Run g ignored ls t) (htest : g.g_thread_test = true) :
    ((∀ c, .caught c ∈ t.log → c.main = .join) → t.val.child ≠ .unborn →
      t.val.status ≠ .undefined) ∧
    ∀ c, .caught c ∈ t.log → c.thread = .main → c.main ≠ .join → .passed ∈ t.log →
      t.val.status = .undefined := by
  obtain ⟨p, hinv⟩ := h.inv
  refine ⟨fun hjoin hborn hundef => ?_, fun c hc hthread hne hpassed => ?_⟩
  · rcases hinv.ends.undefined hundef with hunborn | ⟨_, c, rfl, hne⟩
    · exact hborn hunborn
    · exact hne (hjoin c (by rw [hinv.handler.events]; exact List.mem_cons_self))
  · obtain ⟨pc, rfl⟩ := hinv.handler.fired hc
    obtain ⟨_, c', pc', hp, hpc⟩ := hinv.handler.sent (.inr rfl) hpassed
    obtain ⟨rfl, rfl⟩ := Phase.fired.inj hp
    obtain ⟨hnone, hundef⟩ := hinv.ends.stuck c pc rfl htest hthread hne
    exact hundef (hpc.resolve_right hnone)

/-- With `-t`, `main` takes the signal before it has created the thread. -/
theorem passed_defined_early : ∃ t, Run { defaults with g_thread_test := true } (fun _ => false)
    [.send SIGINT, .deliver .main SIGINT, .move .main true, .move .main true, .move .main true] t ∧
      t.val.status = .undefined := by
  obtain ⟨t, ht, hlog⟩ := Option.map_eq_some_iff.mp
    (show (Schedule.exec (step { defaults with g_thread_test := true }) [.send SIGINT,
      .deliver .main SIGINT, .move .main true, .move .main true, .move .main true]
        (start { defaults with g_thread_test := true } fun _ => false)).map (fun t => t.log) =
          some [.caught ⟨.main, .create, false⟩, .custom .main, .passed] from rfl)
  exact ⟨t, ht, (passed_defined ht rfl).2 ⟨.main, .create, false⟩ (by rw [hlog]; decide) rfl
    (by decide) (by rw [hlog]; decide)⟩

/-- **A thread that could not be created goes unnoticed**: the error is positive, so that the
program never exits, with 1 or otherwise, and `pthread_join` gets an id that is none. -/
theorem create_failure (h : Run g ignored ls t) (hfailed : t.val.child = .unborn) :
    (∀ code, t.val.status ≠ .exited code) ∧
      ∀ ok s', t.val.main = .join → mainStep t.val ok = some s' → s'.status = .undefined := by
  obtain ⟨p, hinv⟩ := h.inv
  have hplaced := hinv.threads.placed
  refine ⟨fun code hcode => ?_, fun ok s' hjoin hstep => ?_⟩
  · obtain ⟨_, hexit⟩ := hinv.ends.exited code hcode
    rw [State.Placed, hexit] at hplaced
    cases hfailed.symm.trans hplaced.2
  · rw [State.Placed, hjoin] at hplaced
    obtain ⟨hid, _⟩ := hplaced.resolve_left fun hg => hg.2 hfailed
    rw [mainStep, hjoin] at hstep
    dsimp only at hstep
    rw [hid] at hstep
    obtain rfl := Option.some.inj hstep
    rfl

/-- The thread could not be created, and `main` goes on to `pthread_join`. -/
theorem create_failure_join : ∃ t, Run defaults (fun _ => false)
    [.move .main false, .move .main true] t ∧ (∀ code, t.val.status ≠ .exited code) ∧
      ∀ ok s', t.val.main = .join → mainStep t.val ok = some s' → s'.status = .undefined := by
  obtain ⟨t, ht, hchild⟩ := Option.map_eq_some_iff.mp
    (show (Schedule.exec (step defaults) [.move .main false, .move .main true]
      (start defaults fun _ => false)).map (fun t => t.val.child) = some .unborn from rfl)
  exact ⟨t, ht, create_failure ht hchild⟩

/-! ## How long a run is -/

/-- How many steps are left to `main`. -/
def MainPc.left : MainPc → ℕ
  | .create => 4
  | .store _ => 3
  | .join => 2
  | .exiting => 1

/-- The steps left to the child. -/
def ChildPc.left : ChildPc → ℕ
  | .unborn | .start => 2
  | .pause | .epoll _ => 1
  | .done => 0

/-- The steps left to a call of the handler. -/
def HandlerPc.left : HandlerPc → ℕ
  | .enter => 4
  | .restore => 3
  | .again => 2
  | .leave => 1

/-- The steps left to the calls of the handler a thread is in. -/
def framesLeft (fs : List Frame) : ℕ := (fs.map fun f => f.pc.left).sum

/-- The steps left to a handler that was not entered yet. -/
def arrangedLeft : Disposition Unit → ℕ
  | .handler _ _ => 4
  | _ => 0

/-- How many steps are left to the threads, if they take any. -/
def State.sum (g : Globals) (s : State) : ℕ :=
  s.main.left + s.child.left + (framesLeft (s.frames .main) + framesLeft (s.frames .child)) +
    arrangedLeft (s.signals.disposition g.g_signumpara)

/-- How many steps are left to the threads of a process. -/
def State.left (g : Globals) (s : State) : ℕ :=
  if s.status = .running ∨ s.status = .stopped then s.sum g else 0

/-- A step of a thread. -/
def Label.isMove : Label → Bool
  | .move _ _ => true
  | _ => false

theorem State.Live.left (h : s.Live) : s.left g = s.sum g := if_pos h

/-- Nothing is left to a process that is over. -/
theorem State.left_le (s : State) : s.left g ≤ s.sum g := by
  rw [State.left]
  split
  · exact Nat.le_refl _
  · exact Nat.zero_le _

theorem State.left_of_not_live (h : ¬ s.Live) : s.left g = 0 := if_neg h

theorem arrangedLeft_sigaction (signals : Signals.State ℤ Thread Unit) (sig x : ℤ) :
    arrangedLeft ((signals.sigaction sig .dfl).disposition x) ≤
      arrangedLeft (signals.disposition x) := by
  rcases eq_or_ne x sig with rfl | hne
  · rw [sigaction_self]
    exact Nat.zero_le _
  · rw [sigaction_of_ne hne]

/-- The calls of one thread are exchanged for others. -/
theorem sum_setFrames (s : State) (t : Thread) (fs : List Frame) :
    (s.setFrames t fs).sum g + framesLeft (s.frames t) = s.sum g + framesLeft fs := by
  cases t <;> simp [State.sum, State.setFrames, Function.update] <;> omega

theorem framesLeft_cons (f : Frame) (fs : List Frame) :
    framesLeft (f :: fs) = f.pc.left + framesLeft fs := rfl

/-- The sum is about the threads and what is arranged. -/
theorem sum_congr (hmain : s'.main = s.main) (hchild : s'.child = s.child)
    (hframes : s'.frames = s.frames) (hdisp : s'.signals.disposition = s.signals.disposition) :
    s'.sum g = s.sum g := by
  simp only [State.sum, hmain, hchild, hframes, hdisp]

/-- A step of the handler uses up one of the steps left. -/
theorem sum_handlerStep {th : Thread} {f : Frame} {fs : List Frame} (hf : s.frames th = f :: fs) :
    (handlerStep g s th f fs).val.sum g + 1 ≤ s.sum g := by
  obtain ⟨signum, waiting, pc⟩ := f
  have hset := sum_setFrames (g := g) s th
  rw [hf] at hset
  cases pc with
  | enter =>
    rw [handlerStep]
    dsimp only
    split
    · have := hset (⟨signum, waiting, .leave⟩ :: fs)
      simp only [framesLeft_cons, HandlerPc.left] at this ⊢
      omega
    · have := hset (⟨signum, waiting, .restore⟩ :: fs)
      simp only [framesLeft_cons, HandlerPc.left] at this ⊢
      omega
  | restore =>
    have := hset (⟨signum, waiting, .again⟩ :: fs)
    have hle := arrangedLeft_sigaction s.signals signum g.g_signumpara
    simp only [framesLeft_cons, HandlerPc.left, handlerStep, State.sum, State.setFrames] at this ⊢
    omega
  | again =>
    have hagain := hset (⟨signum, waiting, .leave⟩ :: fs)
    have hsame : (handlerStep g s th ⟨signum, waiting, .again⟩ fs).val.sum g =
        (s.setFrames th (⟨signum, waiting, .leave⟩ :: fs)).sum g := by
      rw [handlerStep]
      dsimp only
      split
      · obtain ⟨hmain, hchild, _, hframes, hdisp, _⟩ :=
          passOn_passedOn (g := g) (s.setFrames th (⟨signum, waiting, .leave⟩ :: fs))
        exact sum_congr hmain hchild hframes hdisp
      · split
        · rfl
        · exact sum_congr rfl rfl rfl rfl
    simp only [framesLeft_cons, HandlerPc.left] at hagain
    omega
  | leave =>
    have hleave := hset fs
    simp only [framesLeft_cons, HandlerPc.left] at hleave
    rw [handlerStep]
    dsimp only
    split
    · simp only [State.sum, ChildPc.left] at hleave ⊢
      simp only [State.setFrames] at hleave ⊢
      omega
    · omega

/-- A step of `main` outside the handler uses one up. -/
theorem left_mainStep {ok : Bool} (hplaced : s.Placed) (hstep : mainStep s ok = some s') :
    s'.left g + 1 ≤ s.sum g := by
  have hle := State.left_le (g := g) s'
  rw [mainStep] at hstep
  split at hstep
  case h_1 hmain =>
    rw [State.Placed, hmain] at hplaced
    split at hstep
    all_goals
      obtain rfl := Option.some.inj hstep
      simp only [State.sum, hmain, hplaced.2, MainPc.left, ChildPc.left] at hle ⊢
      omega
  case h_2 hmain =>
    obtain rfl := Option.some.inj hstep
    simp only [State.sum, hmain, MainPc.left] at hle ⊢
    omega
  case h_3 hmain =>
    split at hstep
    · split at hstep
      · obtain rfl := Option.some.inj hstep
        simp only [State.sum, hmain, MainPc.left] at hle ⊢
        omega
      · cases hstep
    · obtain rfl := Option.some.inj hstep
      rw [State.left_of_not_live (by rintro (heq | heq) <;> cases heq), State.sum, hmain,
        MainPc.left]
      omega
  case h_4 hmain =>
    obtain rfl := Option.some.inj hstep
    rw [State.left_of_not_live (by rintro (heq | heq) <;> cases heq), State.sum, hmain,
      MainPc.left]
    omega

/-- A step of the child outside the handler uses one up. -/
theorem left_thread_entry {ok : Bool} (hstep : thread_entry g s ok = some s') :
    s'.left g + 1 ≤ s.sum g := by
  have hmove : ∀ child : ChildPc, child.left + 1 ≤ s.child.left →
      State.left g { s with child := child } + 1 ≤ s.sum g := by
    intro child hchild
    have hle := State.left_le (g := g) { s with child := child }
    simp only [State.sum] at hle ⊢
    omega
  rw [thread_entry] at hstep
  split at hstep
  case h_1 hchild =>
    have hstart : ∀ child : ChildPc, child.left ≤ 1 →
        State.left g { s with child := child } + 1 ≤ s.sum g := fun child hle =>
      hmove child (by rw [hchild]; exact Nat.succ_le_succ hle)
    split at hstep
    · obtain rfl := Option.some.inj hstep
      exact hstart _ (le_refl _)
    · split at hstep
      · obtain rfl := Option.some.inj hstep
        exact hstart _ (Nat.zero_le _)
      · split at hstep
        · obtain rfl := Option.some.inj hstep
          exact hstart _ (le_refl _)
        · split at hstep
          · obtain rfl := Option.some.inj hstep
            exact hstart _ (le_refl _)
          · obtain rfl := Option.some.inj hstep
            exact hstart _ (Nat.zero_le _)
  case h_2 hchild =>
    obtain rfl := Option.some.inj hstep
    exact hmove _ (by rw [hchild]; exact le_refl _)
  all_goals cases hstep

/-- Every step of a thread uses up one of the steps left. -/
theorem left_move {th : Thread} {ok : Bool} (hplaced : s.Placed)
    (hstep : move g s th ok = some t) :
    t.val.left g + 1 ≤ s.left g := by
  unfold move at hstep
  split at hstep
  case isFalse => cases hstep
  case isTrue hrunning =>
    rw [State.Live.left (.inl hrunning)]
    split at hstep
    case h_1 f fs hf =>
      obtain rfl := Option.some.inj hstep
      exact le_trans (Nat.succ_le_succ (State.left_le _)) (sum_handlerStep hf)
    case h_2 hf =>
      obtain ⟨s', hs', rfl⟩ := Option.map_eq_some_iff.mp hstep
      cases th with
      | main => exact left_mainStep hplaced hs'
      | child => exact left_thread_entry hs'

/-- A signal that is taken adds no steps: a handler that is entered was still to come. -/
theorem left_deliver {th : Thread} {sig : ℤ} (hinv : Inv g es s p)
    (hstep : deliver g s th sig = some t) : t.val.left g ≤ s.left g := by
  rw [deliver] at hstep
  split at hstep
  case isFalse => cases hstep
  case isTrue hcond =>
    obtain ⟨⟨e, signals⟩, htake, heq⟩ := Option.map_eq_some_iff.mp hstep
    have htaken := take_taken htake
    have hacted : ∀ (status : Status) {a : Action}, e = .acted a →
        State.left g { s with signals := signals, status := status } ≤ s.left g := by
      rintro status a rfl
      have hsum : State.sum g { s with signals := signals, status := status } = s.sum g :=
        sum_congr rfl rfl rfl htaken.disposition_eq
      rw [State.Live.left (.inl hcond.1), ← hsum]
      exact State.left_le _
    dsimp only at heq
    split at heq
    case h_1 =>
      subst heq
      exact hacted _ rfl
    case h_2 =>
      subst heq
      exact hacted _ rfl
    case h_3 =>
      subst heq
      exact hacted _ rfl
    case h_4 =>
      subst heq
      exact hacted _ rfl
    case h_5 =>
      subst heq
      obtain ⟨rfl, rfl⟩ := hinv.armed_of_caught htaken
      have harranged := hinv.handler.arranged
      have hset := sum_setFrames (g := g) { s with signals := signals } th
        (⟨g.g_signumpara, s.waits th, .enter⟩ :: s.frames th)
      have hle := State.left_le (g := g) (State.setFrames { s with signals := signals } th
        (⟨g.g_signumpara, s.waits th, .enter⟩ :: s.frames th))
      have hbefore : arrangedLeft (s.signals.disposition g.g_signumpara) = 4 := by
        rw [harranged]
        rfl
      have hafter : arrangedLeft (signals.disposition g.g_signumpara) = 0 := by
        rw [(htaken.of_oneShot harranged).2]
        rfl
      rw [State.Live.left (.inl hcond.1)]
      simp only [framesLeft_cons, HandlerPc.left] at hset
      simp only [State.sum] at hset hle ⊢
      omega

/-- Sending a signal adds no steps. -/
theorem left_send {sig : ℤ} (hstep : send s sig = some t) : t.val.left g ≤ s.left g := by
  rw [send] at hstep
  split at hstep
  case isFalse => cases hstep
  case isTrue hlive =>
    rw [State.Live.left hlive.1]
    dsimp only at hstep
    split at hstep
    · obtain rfl := Option.some.inj hstep
      exact State.left_le _
    · split at hstep
      · obtain rfl := Option.some.inj hstep
        exact State.left_le _
      · obtain rfl := Option.some.inj hstep
        exact State.left_le _

/-- A step of a thread uses one up, and no other step adds any. -/
theorem left_step {l : Label} (hinv : Inv g es s p) (hstep : step g s l = some t) :
    t.val.left g + (if l.isMove then 1 else 0) ≤ s.left g := by
  cases l with
  | move th ok => exact left_move hinv.threads.placed hstep
  | deliver th sig => exact left_deliver hinv hstep
  | send sig => exact left_send hstep

/-- A running process whose threads have no step to take waits for a signal. -/
theorem Inv.waits_of_stuck (h : Inv g es s p) (hrunning : s.status = .running)
    (hstuck : ∀ th ok, CustomSignal.move g s th ok = none) : s.main = .join ∧ s.child = .pause := by
  have hframes : ∀ th, s.frames th = [] := by
    intro th
    have hmove := hstuck th true
    unfold CustomSignal.move at hmove
    rw [if_pos hrunning] at hmove
    cases hf : s.frames th with
    | nil => rfl
    | cons f fs =>
      rw [hf] at hmove
      cases hmove
  have hmain : CustomSignal.mainStep s true = none := by
    have hmove := hstuck .main true
    unfold CustomSignal.move at hmove
    rw [if_pos hrunning, hframes .main] at hmove
    simpa using hmove
  have hchild : CustomSignal.thread_entry g s true = none := by
    have hmove := hstuck .child true
    unfold CustomSignal.move at hmove
    rw [if_pos hrunning, hframes .child] at hmove
    simpa using hmove
  have hplaced := h.threads.placed
  rw [CustomSignal.mainStep] at hmain
  split at hmain
  case h_1 => cases hmain
  case h_2 => cases hmain
  case h_4 => cases hmain
  case h_3 hjoin =>
    refine ⟨hjoin, ?_⟩
    rw [State.Placed, hjoin] at hplaced
    rcases hplaced with ⟨hid, hborn⟩ | ⟨hid, _⟩
    · rw [hid] at hmain
      dsimp only at hmain
      split at hmain
      case isTrue => cases hmain
      case isFalse hdone =>
        rw [CustomSignal.thread_entry] at hchild
        split at hchild
        case h_1 => grind
        case h_2 => cases hchild
        case h_3 hunborn => exact absurd hunborn hborn
        case h_4 hpause => exact hpause
        case h_5 hreturned => exact absurd hreturned hdone
    · rw [hid] at hmain
      cases hmain

/-- **No schedule keeps the program busy**: whatever signals arrive, and in whatever order its
threads step, they take at most ten steps. When a running process has none left to take, it
waits in `pause`, with `main` in `pthread_join`. -/
theorem moves_le_ten (h : Run g ignored ls t) : ls.countP Label.isMove ≤ 10 ∧
    (t.val.status = .running → (∀ th ok, move g t.val th ok = none) →
      t.val.main = .join ∧ t.val.child = .pause) := by
  have hcount := Schedule.exec_inv
    (fun ls es s => (∃ p, Inv g es s p) ∧ ls.countP Label.isMove + s.left g ≤ 10) (by
      rintro ls es s l t ⟨⟨p, hinv⟩, hle⟩ hstep
      refine ⟨hinv.step hstep, ?_⟩
      have hleft := left_step hinv hstep
      rw [List.countP_append, List.countP_singleton]
      omega) ⟨⟨.armed, inv_start ignored⟩, by
        simp [State.left, State.sum, start, framesLeft, arrangedLeft, MainPc.left,
          ChildPc.left]⟩ h
  obtain ⟨⟨p, hinv⟩, hle⟩ := hcount
  exact ⟨by omega, hinv.waits_of_stuck⟩

/-- The child waits in `pause` for good. -/
theorem moves_le_ten_waiting : ∃ t, Run defaults (fun _ => false)
    [.move .main true, .move .main true, .move .child true] t ∧
      ((t.val.status = .running → (∀ th ok, move defaults t.val th ok = none) →
        t.val.main = .join ∧ t.val.child = .pause)) := by
  obtain ⟨t, ht, _⟩ := Option.map_eq_some_iff.mp
    (show (Schedule.exec (step defaults) [.move .main true, .move .main true, .move .child true]
      (start defaults fun _ => false)).map (fun t => t.val.child) = some .pause from rfl)
  exact ⟨t, ht, (moves_le_ten ht).2⟩

end CustomSignal

end StudyTips
