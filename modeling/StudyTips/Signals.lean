import Mathlib.Data.List.Basic
import Mathlib.Logic.Function.Basic

/-!
# Signals of a process with several threads

The part of a process that signals are about: what it does with each signal, which
signals are pending for the process and which for one of its threads. Sending a
signal and taking a pending one are two steps, and any thread may take a signal that
is pending for the process.

* `mem_kill`: a signal that was sent is pending.
* `Taken`: what a thread that takes a signal does with it, and what is left as it was.
* `Taken.of_oneShot`, `Taken.of_dfl`: a handler that is reset when it is called is called
  once, and behind it the default action is taken.
-/

universe u v w

namespace Signals

/-- The default action of a signal. -/
inductive Action : Type where
  /-- the process ends -/
  | terminate
  /-- nothing happens -/
  | ignore
  /-- the process stops -/
  | stop
  /-- a stopped process goes on -/
  | resume
  deriving DecidableEq

/-- What is arranged for a signal. -/
inductive Disposition (H : Type w) : Type w where
  /-- `SIG_DFL` -/
  | dfl
  /-- `SIG_IGN` -/
  | ign
  /-- a handler, with or without `SA_RESETHAND` -/
  | handler (h : H) (resetHand : Bool)

/-- What a system says about each signal. -/
structure Rules (Sig : Type u) : Type u where
  /-- the default action of a signal -/
  dfl : Sig → Action
  /-- whether a signal is queued as often as it is sent -/
  queued : Sig → Bool

/-- What a process knows of its signals. -/
structure State (Sig : Type u) (T : Type v) (H : Type w) : Type (max u v w) where
  /-- what is arranged for each signal -/
  disposition : Sig → Disposition H
  /-- the signals pending for the process -/
  shared : List Sig
  /-- the signals pending for one thread -/
  own : T → List Sig

/-- What becomes of a thread that takes a signal. -/
inductive Effect (H : Type w) : Type w where
  /-- the action of the process -/
  | acted (a : Action)
  /-- the thread goes into a handler -/
  | caught (h : H)

variable {Sig : Type u} {T : Type v} {H : Type w} {r : Rules Sig} {s s' : State Sig T H} {t : T}
  {sig x : Sig}

/-- A stop signal discards what would resume the process, and the other way round. -/
def Rules.discards (r : Rules Sig) (sig x : Sig) : Bool :=
  (r.dfl sig = .stop && r.dfl x = .resume) || (r.dfl sig = .resume && r.dfl x = .stop)

/-- What sending a signal discards. -/
def Rules.clear (r : Rules Sig) (sig : Sig) (s : State Sig T H) : State Sig T H :=
  { s with
    shared := s.shared.filter fun x => !r.discards sig x
    own := fun t => (s.own t).filter fun x => !r.discards sig x }

/-- A signal that ends the process is not discarded. -/
theorem Rules.not_discards (hx : r.dfl x = .terminate) : r.discards sig x = false := by
  simp [discards, hx]

/-! ## What it is to take a signal -/

/-- What a thread that takes a signal does with it. -/
structure Taken (r : Rules Sig) (t : T) (sig : Sig) (s s' : State Sig T H) (e : Effect H) :
    Prop where
  /-- the effect is that of what is arranged -/
  effect : e = match s.disposition sig with
    | .dfl => .acted (r.dfl sig)
    | .ign => .acted .ignore
    | .handler h _ => .caught h
  /-- a handler that is to be reset is reset -/
  reset : ∀ h, s.disposition sig = .handler h true → s'.disposition sig = .dfl
  /-- nothing else arranged for the signal changes -/
  kept : (∀ h, s.disposition sig ≠ .handler h true) → s'.disposition sig = s.disposition sig
  /-- what is arranged for other signals does not change -/
  others : ∀ y, y ≠ sig → s'.disposition y = s.disposition y
  /-- other signals stay pending -/
  shared : ∀ y, y ≠ sig → y ∈ s.shared → y ∈ s'.shared
  /-- other signals stay pending for each thread too -/
  own : ∀ y t', y ≠ sig ∨ t' ≠ t → y ∈ s.own t' → y ∈ s'.own t'

/-- A handler that is reset is called, and what is arranged is the default action from
then on. -/
theorem Taken.of_oneShot {e : Effect H} {h : H} (ht : Taken r t sig s s' e)
    (hd : s.disposition sig = .handler h true) : e = .caught h ∧ s'.disposition sig = .dfl :=
  ⟨by rw [ht.effect, hd], ht.reset h hd⟩

/-- The default action is taken, and stays arranged. -/
theorem Taken.of_dfl {e : Effect H} (ht : Taken r t sig s s' e) (hd : s.disposition sig = .dfl) :
    e = .acted (r.dfl sig) ∧ s'.disposition sig = .dfl :=
  ⟨by rw [ht.effect, hd], by rw [ht.kept (by simp [hd]), hd]⟩

/-- A signal without a handler is not caught. -/
theorem Taken.not_caught {e : Effect H} (ht : Taken r t sig s s' e)
    (hd : ∀ h b, s.disposition sig ≠ .handler h b) : ∀ h, e ≠ .caught h := by
  intro h
  rw [ht.effect]
  cases hd' : s.disposition sig with
  | dfl => exact fun he => by cases he
  | ign => exact fun he => by cases he
  | handler h' b => exact absurd hd' (hd h' b)

/-- Where no handler is called, what is arranged stays. -/
theorem Taken.disposition_eq {a : Action} (ht : Taken r t sig s s' (.acted a)) :
    s'.disposition = s.disposition := by
  have hkept : s'.disposition sig = s.disposition sig := by
    refine ht.kept fun f hf => ?_
    have heffect := ht.effect
    rw [hf] at heffect
    cases heffect
  funext x
  by_cases hx : x = sig
  · rw [hx, hkept]
  · exact ht.others x hx

/-! ## Sending -/

variable [DecidableEq Sig]

/-- One more pending signal; one that is not queued is pending once. -/
def Rules.raise (r : Rules Sig) (sig : Sig) (l : List Sig) : List Sig :=
  if sig ∈ l ∧ r.queued sig = false then l else l ++ [sig]

/-- `sigaction`. -/
def State.sigaction (s : State Sig T H) (sig : Sig) (d : Disposition H) : State Sig T H :=
  { s with disposition := Function.update s.disposition sig d }

/-- `kill`: the signal is pending for the process. -/
def State.kill (r : Rules Sig) (s : State Sig T H) (sig : Sig) : State Sig T H :=
  let s := r.clear sig s
  { s with shared := r.raise sig s.shared }

theorem sigaction_self (d : Disposition H) : (s.sigaction sig d).disposition sig = d :=
  Function.update_self ..

theorem sigaction_of_ne {d : Disposition H} (hx : x ≠ sig) :
    (s.sigaction sig d).disposition x = s.disposition x :=
  Function.update_of_ne hx ..

@[simp] theorem sigaction_shared (d : Disposition H) : (s.sigaction sig d).shared = s.shared := rfl

@[simp] theorem sigaction_own (d : Disposition H) : (s.sigaction sig d).own = s.own := rfl

@[simp] theorem kill_disposition : (s.kill r sig).disposition = s.disposition := rfl

theorem Rules.mem_raise_self {l : List Sig} : sig ∈ r.raise sig l := by
  rw [raise]
  split
  next h => exact h.1
  next => exact List.mem_append_right _ (List.mem_singleton_self _)

theorem Rules.mem_raise {l : List Sig} (h : x ∈ l) : x ∈ r.raise sig l := by
  rw [raise]
  split
  next => exact h
  next => exact List.mem_append_left _ h

/-- **A signal that was sent is pending.** -/
theorem mem_kill : sig ∈ (s.kill r sig).shared := Rules.mem_raise_self

/-- What ends the process stays pending when more is sent. -/
theorem mem_shared_kill (hx : r.dfl x = .terminate) (h : x ∈ s.shared) :
    x ∈ (s.kill r sig).shared :=
  Rules.mem_raise (List.mem_filter.mpr ⟨h, by rw [Rules.not_discards hx]; rfl⟩)

variable [DecidableEq T]

/-- `pthread_kill`: the signal is pending for a thread. -/
def State.threadKill (r : Rules Sig) (s : State Sig T H) (t : T) (sig : Sig) : State Sig T H :=
  let s := r.clear sig s
  { s with own := Function.update s.own t (r.raise sig (s.own t)) }

@[simp] theorem threadKill_disposition : (s.threadKill r t sig).disposition = s.disposition := rfl

/-! ## Taking -/

/-- Take a signal out of what is pending, first out of what is pending for the thread. -/
def State.dequeue (s : State Sig T H) (t : T) (sig : Sig) : Option (State Sig T H) :=
  if sig ∈ s.own t then some { s with own := Function.update s.own t ((s.own t).erase sig) }
  else if sig ∈ s.shared then some { s with shared := s.shared.erase sig }
  else none

/-- A thread takes a pending signal. -/
def State.take (r : Rules Sig) (s : State Sig T H) (t : T) (sig : Sig) :
    Option (Effect H × State Sig T H) :=
  (s.dequeue t sig).map fun s =>
    match s.disposition sig with
    | .dfl => (.acted (r.dfl sig), s)
    | .ign => (.acted .ignore, s)
    | .handler h true => (.caught h, s.sigaction sig .dfl)
    | .handler h false => (.caught h, s)

/-- What taking a signal out of what is pending leaves as it was. -/
theorem dequeue_eq (h : s.dequeue t sig = some s') : s'.disposition = s.disposition ∧
    (∀ y, y ≠ sig → y ∈ s.shared → y ∈ s'.shared) ∧
      ∀ y t', y ≠ sig ∨ t' ≠ t → y ∈ s.own t' → y ∈ s'.own t' := by
  rw [State.dequeue] at h
  split at h
  next =>
    obtain rfl := Option.some.inj h
    refine ⟨rfl, fun _ _ hy => hy, fun y t' hne hy => ?_⟩
    rcases eq_or_ne t' t with rfl | ht
    · dsimp only
      rw [Function.update_self]
      exact (List.mem_erase_of_ne (hne.resolve_right (· rfl))).mpr hy
    · dsimp only
      rwa [Function.update_of_ne ht]
  next =>
    split at h
    next =>
      obtain rfl := Option.some.inj h
      exact ⟨rfl, fun y hne hy => (List.mem_erase_of_ne hne).mpr hy, fun _ _ _ hy => hy⟩
    next => cases h

/-- **Every signal taken is taken so.** -/
theorem take_taken {e : Effect H} (h : s.take r t sig = some (e, s')) : Taken r t sig s s' e := by
  obtain ⟨s₁, hdeq, hmatch⟩ := Option.map_eq_some_iff.mp h
  obtain ⟨hdisp, hshared, hown⟩ := dequeue_eq hdeq
  rw [hdisp] at hmatch
  cases hd : s.disposition sig with
  | dfl =>
    rw [hd] at hmatch
    obtain ⟨rfl, rfl⟩ := Prod.mk.inj hmatch
    exact ⟨by rw [hd], by simp [hd], fun _ => by rw [hdisp], fun y _ => by rw [hdisp],
      hshared, hown⟩
  | ign =>
    rw [hd] at hmatch
    obtain ⟨rfl, rfl⟩ := Prod.mk.inj hmatch
    exact ⟨by rw [hd], by simp [hd], fun _ => by rw [hdisp], fun y _ => by rw [hdisp],
      hshared, hown⟩
  | handler f resetHand =>
    rw [hd] at hmatch
    cases resetHand with
    | false =>
      obtain ⟨rfl, rfl⟩ := Prod.mk.inj hmatch
      exact ⟨by rw [hd], by simp [hd], fun _ => by rw [hdisp], fun y _ => by rw [hdisp],
        hshared, hown⟩
    | true =>
      obtain ⟨rfl, rfl⟩ := Prod.mk.inj hmatch
      exact ⟨by rw [hd], fun _ _ => sigaction_self _, fun hno => absurd hd (hno f),
        fun y hy => by rw [sigaction_of_ne hy, hdisp], hshared, hown⟩

end Signals
