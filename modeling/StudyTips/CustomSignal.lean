import StudyTips.Getopt
import StudyTips.Schedule
import StudyTips.Signals

/-!
# `c/signal/main.c`: a handler that restores the default action

The program installs `custom_signal_handler` for one signal with
`SA_NODEFER | SA_RESETHAND`, starts a thread that waits in `pause` or in
`epoll_pwait`, and joins it. The handler restores the default action itself too and
then sends the signal once more: to the process, to the child thread (`-t`), or not
at all (`-n`).

The two threads and the signals are one machine: a thread takes its next step, a
thread takes a pending signal, somebody sends the process a signal, in any order.
A state that the standards leave undefined is a status of its own, so that reaching it
can be excluded. The handler may be entered in either thread and at any point, and a
pending signal may be taken at any later point.

* `signalMain_starts`: what the command line makes of it: which signal, which way to wait,
  and when the program gets so far at all.
-/

namespace StudyTips

namespace CustomSignal

open Signals hiding State

/-! ## The system -/

/-- The threads of the process. -/
inductive Thread : Type where
  /-- the thread that runs `main` -/
  | main
  /-- the thread that runs `thread_entry` -/
  | child
  deriving DecidableEq

abbrev SIGINT : ℤ := 2
abbrev SIGKILL : ℤ := 9
abbrev SIGCHLD : ℤ := 17
abbrev SIGCONT : ℤ := 18
abbrev SIGSTOP : ℤ := 19
abbrev SIGTSTP : ℤ := 20
abbrev SIGTTIN : ℤ := 21
abbrev SIGTTOU : ℤ := 22
abbrev SIGURG : ℤ := 23
abbrev SIGWINCH : ℤ := 28

/-- The signals of the system: their default actions, and that those from 32 on queue. -/
def rules : Rules ℤ where
  dfl sig :=
    if sig = SIGCONT then .resume
    else if sig ∈ [SIGSTOP, SIGTSTP, SIGTTIN, SIGTTOU] then .stop
    else if sig ∈ [SIGCHLD, SIGURG, SIGWINCH] then .ignore
    else .terminate
  queued sig := 32 ≤ sig

/-- The signals `sigaction` takes: not those that cannot be caught, nor the two that the
thread library keeps for itself. -/
def Catchable (sig : ℤ) : Prop :=
  1 ≤ sig ∧ sig ≤ 64 ∧ sig ≠ SIGKILL ∧ sig ≠ SIGSTOP ∧ sig ≠ 32 ∧ sig ≠ 33

instance (sig : ℤ) : Decidable (Catchable sig) := inferInstanceAs (Decidable (_ ∧ _))

/-! ## The program -/

/-- The global variables that `main` sets from its options. -/
@[ext] structure Globals : Type where
  /-- `-t` -/
  g_thread_test : Bool
  /-- `-n` -/
  g_no_pass_again : Bool
  /-- `-e` -/
  g_epoll_blocked : UInt8
  /-- `-s` -/
  g_signumpara : ℤ

/-- A value of type `pthread_t`. -/
inductive ThreadId : Type where
  /-- the value of a global variable that nothing was stored in -/
  | zero
  /-- the id of the child thread -/
  | child
  /-- the value of a local variable that a failed `pthread_create` has left as it was -/
  | garbage
  deriving DecidableEq

/-- Where `main` is, behind `sigaction`. -/
inductive MainPc : Type where
  /-- before `pthread_create` -/
  | create
  /-- before `g_childThreadId = tid` -/
  | store (tid : ThreadId)
  /-- in `pthread_join` -/
  | join
  /-- behind `pthread_join` -/
  | exiting
  deriving DecidableEq

/-- Where the child thread is. -/
inductive ChildPc : Type where
  /-- there is no such thread -/
  | unborn
  /-- at the start of `thread_entry` -/
  | start
  /-- in `pause` -/
  | pause
  /-- in `epoll_pwait`, with the signal blocked or not -/
  | epoll (masked : Bool)
  /-- the thread has returned -/
  | done
  deriving DecidableEq

/-- Where a call of `custom_signal_handler` is. -/
inductive HandlerPc : Type where
  /-- at the start of the handler -/
  | enter
  /-- before `sigaction` -/
  | restore
  /-- before the signal is sent again -/
  | again
  /-- at the end of the handler -/
  | leave
  deriving DecidableEq

/-- A call of the handler. -/
structure Frame : Type where
  /-- the argument of the call -/
  signum : ℤ
  /-- whether the handler has interrupted a call that waits -/
  waiting : Bool
  /-- where the handler is -/
  pc : HandlerPc

/-- What has become of the process. -/
inductive Status : Type where
  /-- the threads take steps -/
  | running
  /-- a signal has stopped the process -/
  | stopped
  /-- the process has exited -/
  | exited (code : ℤ)
  /-- a signal has ended the process -/
  | killed (sig : ℤ)
  /-- a thread that does not exist was passed to the thread library -/
  | undefined
  deriving DecidableEq

/-- How the handler comes to be entered. -/
structure Catch : Type where
  /-- the thread that enters the handler -/
  thread : Thread
  /-- where `main` is -/
  main : MainPc
  /-- whether the handler interrupts a call that waits -/
  waiting : Bool
  deriving DecidableEq

/-- What the handler does. -/
inductive Event : Type where
  /-- the handler is entered -/
  | caught (c : Catch)
  /-- the custom logic starts -/
  | custom (t : Thread)
  /-- `kill(getpid(), signum)` -/
  | resent
  /-- `pthread_kill(g_childThreadId, g_signumpara)` -/
  | passed
  deriving DecidableEq

/-- The state of the process. -/
structure State : Type where
  /-- the signals of the process -/
  signals : Signals.State ℤ Thread Unit
  /-- where `main` is -/
  main : MainPc
  /-- where the child is -/
  child : ChildPc
  /-- `g_childThreadId` -/
  g_childThreadId : ThreadId
  /-- the calls of the handler each thread is in, the last one first -/
  frames : Thread → List Frame
  /-- whether the process is still there -/
  status : Status

/-- What is arranged for the signals when `main` has called `sigaction`: other signals may
have been ignored from the start. -/
def start (g : Globals) (ignored : ℤ → Bool) : State where
  signals := {
    disposition := Function.update (fun sig => if ignored sig then .ign else .dfl) g.g_signumpara
      (.handler () true)
    shared := []
    own := fun _ => [] }
  main := .create
  child := .unborn
  g_childThreadId := .zero
  frames := fun _ => []
  status := .running

variable (g : Globals)

namespace State

/-- A thread that can take steps or signals. -/
def Alive (s : State) : Thread → Prop
  | .main => True
  | .child => s.child ≠ .unborn ∧ s.child ≠ .done

/-- A thread in a call that a handler interrupts; `pthread_join` is none. -/
def waits (s : State) : Thread → Bool
  | .main => false
  | .child => (s.frames .child).isEmpty && match s.child with
    | .pause | .epoll _ => true
    | _ => false

/-- A thread that has a signal blocked: the child in an `epoll_pwait` with a signal set. -/
def Blocks (s : State) (t : Thread) (sig : ℤ) : Prop :=
  t = .child ∧ s.frames .child = [] ∧ s.child = .epoll true ∧ sig = g.g_signumpara

instance (s : State) (t : Thread) : Decidable (s.Alive t) :=
  match t with
  | .main => isTrue trivial
  | .child => inferInstanceAs (Decidable (_ ∧ _))

instance (fs : List Frame) : Decidable (fs = []) :=
  match fs with
  | [] => isTrue rfl
  | _ :: _ => isFalse (List.cons_ne_nil _ _)

instance (s : State) (t : Thread) (sig : ℤ) : Decidable (s.Blocks g t sig) :=
  inferInstanceAs (Decidable (_ ∧ _))

/-- Change the calls of the handler a thread is in. -/
def setFrames (s : State) (t : Thread) (fs : List Frame) : State :=
  { s with frames := Function.update s.frames t fs }

end State

/-- `pthread_kill(g_childThreadId, g_signumpara)`. -/
def passOn (s : State) : State :=
  match s.g_childThreadId with
  | .child =>
    if s.main = .exiting then { s with status := .undefined } -- it was joined
    else if s.child = .done then s
    else { s with signals := s.signals.threadKill rules .child g.g_signumpara }
  | _ => { s with status := .undefined }

/-- `custom_signal_handler(signum)`: the next step of the call `f`, on top of the calls `fs`. -/
def handlerStep (s : State) (t : Thread) (f : Frame) (fs : List Frame) : Traced Event State :=
  match f.pc with
  | .enter =>
    if g.g_signumpara ≠ f.signum then ⟨s.setFrames t ({ f with pc := .leave } :: fs), []⟩
    else ⟨s.setFrames t ({ f with pc := .restore } :: fs), [.custom t]⟩
  | .restore =>
    let s := { s with signals := s.signals.sigaction f.signum .dfl }
    ⟨s.setFrames t ({ f with pc := .again } :: fs), []⟩
  | .again =>
    let s := s.setFrames t ({ f with pc := .leave } :: fs)
    if g.g_thread_test then ⟨passOn g s, [.passed]⟩
    else if g.g_no_pass_again then ⟨s, []⟩
    else ⟨{ s with signals := s.signals.kill rules f.signum }, [.resent]⟩
  | .leave =>
    let s := s.setFrames t fs
    -- the call that was interrupted returns, and with it the thread
    ⟨if f.waiting then { s with child := .done } else s, []⟩

/-- `main`, behind `sigaction`; `ok` is whether the thread could be created. -/
def mainStep (s : State) (ok : Bool) : Option State :=
  match s.main with
  | .create =>
    if ok then some { s with main := .store .child, child := .start }
    else some { s with main := .store .garbage } -- the error is positive, `rc < 0` does not hold
  | .store tid => some { s with main := .join, g_childThreadId := tid }
  | .join =>
    match s.g_childThreadId with
    | .child => if s.child = .done then some { s with main := .exiting } else none
    | _ => some { s with status := .undefined }
  | .exiting => some { s with status := .exited 0 }

/-- `thread_entry`; `ok` is whether the descriptors could be made. -/
def thread_entry (s : State) (ok : Bool) : Option State :=
  match s.child with
  | .start =>
    if g.g_epoll_blocked = 0xff then some { s with child := .pause }
    else if !ok then some { s with child := .done }
    else if g.g_epoll_blocked = 0 then some { s with child := .epoll false }
    else if g.g_epoll_blocked = 1 then some { s with child := .epoll true }
    else some { s with child := .done }
  | .epoll _ => some { s with child := .done } -- the time is over
  | .unborn | .pause | .done => none

/-- A thread takes its next step. -/
def move (s : State) (t : Thread) (ok : Bool) : Option (Traced Event State) :=
  if s.status = .running then
    match s.frames t with
    | f :: fs => some (handlerStep g s t f fs)
    | [] => (match t with
      | .main => mainStep s ok
      | .child => thread_entry g s ok).map fun s => ⟨s, []⟩
  else none

/-- A thread takes a pending signal. -/
def deliver (s : State) (t : Thread) (sig : ℤ) : Option (Traced Event State) :=
  if s.status = .running ∧ s.Alive t ∧ ¬ s.Blocks g t sig then
    (s.signals.take rules t sig).map fun p =>
      let s' := { s with signals := p.2 }
      match p.1 with
      | .acted .terminate => ⟨{ s' with status := .killed sig }, []⟩
      | .acted .stop => ⟨{ s' with status := .stopped }, []⟩
      | .acted .ignore | .acted .resume => ⟨s', []⟩
      | .caught _ => ⟨s'.setFrames t (⟨sig, s.waits t, .enter⟩ :: s.frames t),
          [.caught ⟨t, s.main, s.waits t⟩]⟩
  else none

/-- Somebody sends the process a signal. -/
def send (s : State) (sig : ℤ) : Option (Traced Event State) :=
  if (s.status = .running ∨ s.status = .stopped) ∧ 1 ≤ sig ∧ sig ≤ 64 then
    let s' := { s with signals := s.signals.kill rules sig }
    if sig = SIGKILL then some ⟨{ s' with status := .killed SIGKILL }, []⟩
    else if sig = SIGCONT then some ⟨{ s' with status := .running }, []⟩
    else some ⟨s', []⟩
  else none

/-- What happens next. -/
inductive Label : Type where
  /-- a thread takes a step, with the system's answer -/
  | move (t : Thread) (ok : Bool)
  /-- a thread takes a pending signal -/
  | deliver (t : Thread) (sig : ℤ)
  /-- a signal is sent to the process -/
  | send (sig : ℤ)

/-- One step of the process. -/
def step (s : State) : Label → Option (Traced Event State)
  | .move t ok => move g s t ok
  | .deliver t sig => deliver g s t sig
  | .send sig => send s sig

/-- A run of the program from behind `sigaction`: what it comes to, and what the handler has
done on the way. -/
def Run (ignored : ℤ → Bool) (ls : List Label) (t : Traced Event State) : Prop :=
  Schedule.exec (step g) ls (start g ignored) = some t

/-! ## The command line -/

section CommandLine

open CString Getopt

/-- The option string `"tns:e:"`. -/
def optstring : Str := [0x74, 0x6e, 0x73, 0x3a, 0x65, 0x3a]

/-- The global variables before the options. -/
def defaults : Globals := ⟨false, false, 0xff, SIGINT⟩

/-- The body of the option loop; `unsigned char` keeps the low 8 bits of an `int`. -/
def option (g : Globals) (o : Opt) : Globals :=
  let optarg := o.2.getD []
  if o.1 = 0x74 then { g with g_thread_test := true }
  else if o.1 = 0x6e then { g with g_no_pass_again := true }
  else if o.1 = 0x65 then { g with g_epoll_blocked := UInt8.ofInt (atoi optarg) }
  else if o.1 = 0x73 then { g with g_signumpara := atoi optarg }
  else g

/-- `main` up to `pthread_create`: the return value if it does not get there, else the
variables it has set; `none` while the option loop runs. -/
def signalMain (permute : Bool) (argv : List Str) (fuel : ℕ) : Option (ℤ ⊕ Globals) :=
  (Getopt.optionLoop option permute optstring argv defaults fuel).map fun e =>
    if e.ok then if Catchable e.vars.g_signumpara then .inr e.vars else .inl 1
    else .inl 1 -- the usage message

/-- The number of the last `-s`. -/
def lastSignal (os : List Opt) : ℤ :=
  (os.filterMap fun o => if o.1 = 0x73 then some (atoi (o.2.getD [])) else none).getLast?.getD SIGINT

/-- The number of the last `-e`. -/
def lastWait (os : List Opt) : UInt8 :=
  (os.filterMap fun o => if o.1 = 0x65 then some (UInt8.ofInt (atoi (o.2.getD []))) else
    none).getLast?.getD 0xff

/-- The variables behind the options. -/
theorem options_eq (os : List Opt) : os.foldl option defaults = {
    g_thread_test := os.any fun o => o.1 = 0x74
    g_no_pass_again := os.any fun o => o.1 = 0x6e
    g_epoll_blocked := lastWait os
    g_signumpara := lastSignal os } := by
  have hflag : ∀ b : Bool, (if b = true then true else false) = b := fun b => by cases b <;> rfl
  apply Globals.ext
  · rw [← hflag (os.any fun o => o.1 = 0x74)]
    exact foldl_any (f := Globals.g_thread_test) (by grind [option]) os _
  · rw [← hflag (os.any fun o => o.1 = 0x6e)]
    exact foldl_any (f := Globals.g_no_pass_again) (by grind [option]) os _
  · exact foldl_getLast (f := Globals.g_epoll_blocked) (by grind [option]) os _
  · exact foldl_getLast (f := Globals.g_signumpara) (by grind [option]) os _

/-- **What a command line makes of the program**, whatever is on it: it starts its threads
exactly when all its options are known and the last `-s` is a signal that can be caught, and
then with the flags given, the last `-e` modulo 256 and that signal; else it returns 1. -/
theorem signalMain_starts (permute : Bool) (argv : List Str) {fuel : ℕ}
    (hfuel : (State.start argv).size < fuel) :
    ∃ os ok, Scan permute optstring (.start argv) os ok ∧
      signalMain permute argv fuel = some (
        if ok = true ∧ Catchable (lastSignal os) then .inr {
          g_thread_test := os.any fun o => o.1 = 0x74
          g_no_pass_again := os.any fun o => o.1 = 0x6e
          g_epoll_blocked := lastWait os
          g_signumpara := lastSignal os }
        else .inl 1) := by
  obtain ⟨os, ok, hscan⟩ : ∃ os ok, Scan permute optstring (.start argv) os ok := exists_scan _
  refine ⟨os, ok, hscan, ?_⟩
  obtain ⟨s', hloop⟩ := Getopt.optionLoop_eq option hscan (v := defaults) hfuel
  rw [signalMain, hloop, Option.map_some, options_eq]
  cases ok with
  | false => simp
  | true => simp

/-- `-s 9`: a signal that cannot be caught. -/
theorem signalMain_starts_kill : ∃ os ok,
    Scan true optstring (.start [[0x73], [0x2d, 0x73], [0x39]]) os ok ∧
      signalMain true [[0x73], [0x2d, 0x73], [0x39]] 10 = some (
        if ok = true ∧ Catchable (lastSignal os) then .inr {
          g_thread_test := os.any fun o => o.1 = 0x74
          g_no_pass_again := os.any fun o => o.1 = 0x6e
          g_epoll_blocked := lastWait os
          g_signumpara := lastSignal os }
        else .inl 1) :=
  signalMain_starts true _ (by decide)

end CommandLine

end CustomSignal

end StudyTips
