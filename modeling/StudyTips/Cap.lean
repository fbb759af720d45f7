import StudyTips.Getopt
import StudyTips.Printf
import StudyTips.Stdio

/-!
# `c/cap/main.c`: a process and its copy

The program reads its options, forks, and the two processes try for a raw socket, each
printing what it does. As a service the parent goes on for ever. What a stream writes at
once is up to it (`Policy`), and who runs when to the system.

* `cap_output`: what the two processes have printed, written and still hold, wherever they
  are in whatever interleaving. What the stream holds when the process forks, both have.
* `cap_ends`: without the option every run ends, with it the parent never does.
* `cap_usage_aligned`: the lines of the usage.
-/

namespace StudyTips

namespace Cap

open CString Getopt Printf Stdio

/-! ## The usage -/

/-- `usage(argv)`: what it prints to `stderr`. -/
def usage (argv0 : Str) : Option Str :=
  let szContinueSpaces : Str := List.replicate 127 0x20
  let szUsageHeader := snprintf 128 (text "Usage: " ++ argv0)
  let prefixLen := szUsageHeader.length
  let szOptionIndentFormatStr := snprintf 128
    (0x25 :: (decimalText prefixLen ++ 0x2e :: (decimalText prefixLen ++ [0x73]))) -- "%%%zu.%zus"
  (format szOptionIndentFormatStr szContinueSpaces).map fun indent =>
    let szOptionIndent := snprintf 128 indent
    text "Usage: " ++ argv0 ++ text " [-s]\n" ++
      szOptionIndent ++ text " with no option,proc will wait any key before exit\n" ++
      szOptionIndent ++ text " -s indicate proc to run infinitly\n"

/-! ## The options -/

/-- `"s"`. -/
def optstring : Str := [0x73]

/-- `"has set -s flag!\n"`. -/
def setS : Str := text "has set -s flag!" ++ [0x0a]

/-- The variables of `main`, and `stdout`. -/
structure Vars : Type where
  /-- `serviceFlag` -/
  serviceFlag : ℤ
  /-- `aFlagValue` -/
  aFlagValue : ℤ
  /-- `stdout` -/
  out : Stream UInt8

/-- The variables before the options. -/
def Vars.start : Vars := ⟨0, 0, ⟨[], []⟩⟩

section Options

variable (policy : Policy UInt8)

/-- What one option sets and prints. -/
def option (v : Vars) : Opt → Vars
  | (0x73, _) => { v with serviceFlag := 1, out := v.out.put policy setS }
  | (0x61, some optarg) =>
    { v with
      aFlagValue := atoi optarg
      out := v.out.put policy
        (text "has set -a value option with value: " ++ signedText (atoi optarg) ++ [0x0a]) }
  | _ => v

end Options

/-! ## The two processes -/

/-- The processes. -/
inductive Role : Type where
  /-- the process that forks -/
  | parent
  /-- the copy that `fork` makes -/
  | child
  deriving DecidableEq

/-- `szTips`. -/
def szTips : Role → Str
  | .parent => text "Parent"
  | .child => text "Child"

/-- What the processes do besides printing. -/
inductive Call : Type where
  /-- `socket` -/
  | socket (fd : ℤ)
  /-- `perror` -/
  | perror (s : Str)
  /-- a line to `stderr` -/
  | stderr (line : Str)
  /-- `close` -/
  | close (fd : ℤ)
  /-- `sleep` -/
  | sleep (seconds : ℕ)
  /-- `getchar` -/
  | getchar

/-- The places in the program behind `fork`. -/
inductive Pc : Type where
  /-- behind `fork`, before the first line -/
  | forked
  /-- before `socket` -/
  | socket
  /-- `socket` has failed -/
  | failed
  /-- `socket` has returned a descriptor -/
  | supported
  /-- before `close` -/
  | close
  /-- at the label `wait` -/
  | wait
  /-- behind `sleep`, before the line that asks for a key -/
  | ask
  /-- before `getchar` -/
  | getchar
  /-- at the head of the loop of the service -/
  | serve (count : UInt32)
  /-- before the `sleep` of the service -/
  | nap (count : UInt32)
  /-- before the end of `main` -/
  | exit

/-- The first line of a process. -/
def hello : Role → Str
  | .parent => szTips .parent ++ text " process continue to run ...\n"
  | .child => szTips .child ++ text " process begin to run ...\n"

/-- `"Parent role, enter any key to exit ...\n"`. -/
def askKey : Str := text "Parent role, enter any key to exit ...\n"

/-- `"Parent is running as service, count: %u ...\n"`. -/
def serving (count : UInt32) : Str :=
  text "Parent is running as service, count: " ++ decimalText count.toNat ++ text " ...\n"

/-- The last line of the child. -/
def goodbye (serviceFlag : ℤ) : Str :=
  if serviceFlag = 0 then text "Child will exit!\n"
  else text "Child will exit, only Parent is running as service!\n"

section Processes

variable (serviceFlag : ℤ) (fd : Role → ℤ)

/-- What a process does at the label `wait`. -/
def atWait : Role → Act Pc UInt8 Call
  | .parent =>
    if serviceFlag = 0 then .call (.sleep 1) .ask
    else .print (serving 0) (.nap 0)
  | .child => .print (goodbye serviceFlag) .exit

/-- What a process does next; `fd` is what its `socket` returns. -/
def act (r : Role) : Pc → Act Pc UInt8 Call
  | .forked => .print (hello r) .socket
  | .socket => .call (.socket (fd r)) (if fd r ≤ 0 then .failed else .supported)
  | .failed => .call (.perror (szTips r ++ text " check raw socket cap in failure! errorDesc")) .wait
  | .supported => .call (.stderr (szTips r ++ text " raw socket supported\n")) .close
  | .close => .call (.close (fd r)) .wait
  | .wait => atWait serviceFlag r
  | .ask => .print askKey .getchar
  | .getchar => .call .getchar .exit
  | .serve count => .print (serving count) (.nap count)
  | .nap count => .call (.sleep 1) (.serve count)
  | .exit => .exit 0

end Processes

/-- The processes behind `fork`, which may fail: each has the buffer of `stdout`. -/
def processes (v : Vars) (forks : Bool) : Role → Option (Proc Pc UInt8)
  | .parent => some ⟨.inl .forked, v.out.buffer⟩
  | .child => if forks then some ⟨.inl .forked, v.out.buffer⟩ else none

/-- What the program comes to. -/
inductive Started : Type where
  /-- the usage is printed, and 1 returned; `stdout` is written -/
  | usage (stderr : Option Str) (out : Stream UInt8)
  /-- the program forks -/
  | forked (v : Vars)

/-- `main`, up to `fork`; none while there are options. -/
def capMain (policy : Policy UInt8) (permute : Bool) (argv : List Str) (fuel : ℕ) :
    Option Started :=
  (Getopt.optionLoop (option policy) permute optstring argv .start fuel).map fun e =>
    if e.ok then .forked e.vars else .usage (usage (argv[0]?.getD [])) e.vars.out

/-- A run of the two processes. -/
def Run (policy : Policy UInt8) (fd : Role → ℤ) (v : Vars) (forks : Bool) (ls : List Role)
    (t : Traced (Role × Event UInt8 Call) (Role → Option (Proc Pc UInt8))) : Prop :=
  Schedule.exec (step policy (act v.serviceFlag fd)) ls (processes v forks) = some t

/-! ## The options of a command line -/

variable {policy : Policy UInt8} {permute : Bool} {argv : List Str} {fuel : ℕ}

/-- What is printed of so many options. -/
def said (k : ℕ) : Str := (List.replicate k setS).flatten

/-- The only option is `-s`: there is no `-a`, for all that there is a case for it. -/
theorem opt_eq {o : Opt} (h : arity optstring o.1 = some o.2.isSome) : o = (0x73, none) := by
  obtain ⟨c, arg⟩ := o
  by_cases hc : c = 0x73
  · subst hc
    cases arg with
    | none => rfl
    | some arg => cases h
  · have hnone : arity optstring c = none := by
      have hne : ¬ (0x73 : UInt8) = c := fun heq => hc heq.symm
      simp [arity, optstring, hne]
    rw [hnone] at h
    cases h

/-- The variables behind some options. -/
theorem foldl_option (policy : Policy UInt8) {os : List Opt} (h : ∀ o ∈ os, o = (0x73, none))
    (v : Vars) :
    (os.foldl (option policy) v).serviceFlag = (if os = [] then v.serviceFlag else 1) ∧
      (os.foldl (option policy) v).out.all = v.out.all ++ said os.length := by
  induction os generalizing v with
  | nil => exact ⟨rfl, (List.append_nil _).symm⟩
  | cons o os ih =>
    obtain ⟨rfl, hos⟩ := List.forall_mem_cons.mp h
    obtain ⟨hflag, hall⟩ := ih hos (option policy v (0x73, none))
    refine ⟨?_, ?_⟩
    · rw [List.foldl_cons, hflag, if_neg (List.cons_ne_nil _ _)]
      split
      · rfl
      · rfl
    · rw [List.foldl_cons, hall, option, Stream.all_put, List.append_assoc, said, said,
        List.length_cons, List.replicate_succ, List.flatten_cons]

/-- **What the program comes to**: all its options are `-s`, and it forks if there is nothing
else, and prints the usage if there is. -/
theorem capMain_eq {os : List Opt} {ok : Bool} (h : Scan permute optstring (.start argv) os ok)
    (hfuel : (Getopt.State.start argv).size < fuel) :
    (∀ o ∈ os, o = (0x73, none)) ∧
      capMain policy permute argv fuel = some (
        if ok then .forked (os.foldl (option policy) .start)
        else .usage (usage (argv[0]?.getD [])) (os.foldl (option policy) .start).out) := by
  obtain ⟨s', hloop⟩ := optionLoop_eq (option policy) h (v := .start) hfuel
  exact ⟨fun o ho => opt_eq (h.known o ho), by rw [capMain, hloop]; rfl⟩

/-! ## One process -/

section Process

variable {serviceFlag : ℤ} {fd : Role → ℤ} {r : Role}

/-- What a process prints up to its end. -/
def whole (serviceFlag : ℤ) : Role → Str
  | .parent => hello .parent ++ askKey
  | .child => hello .child ++ goodbye serviceFlag

/-- A number of lines of the service. -/
def served (n : ℕ) : Str := (List.replicate n (serving 0)).flatten

/-- What a process has printed where it is. -/
def PrintedAt (serviceFlag : ℤ) (r : Role) (s : Str) : Pc → Prop
  | .forked => s = []
  | .socket | .failed | .supported | .close | .wait => s = hello r
  | .ask => r = .parent ∧ serviceFlag = 0 ∧ s = hello r
  | .getchar => r = .parent ∧ serviceFlag = 0 ∧ s = whole serviceFlag r
  | .serve count | .nap count =>
    r = .parent ∧ serviceFlag ≠ 0 ∧ count = 0 ∧ ∃ n, s = hello r ++ served n
  | .exit => (r = .parent → serviceFlag = 0) ∧ s = whole serviceFlag r

/-- A number of lines of the service, and one more line. -/
theorem served_succ (n : ℕ) : served n ++ serving 0 = served (n + 1) := by
  rw [served, served, List.replicate_succ', List.flatten_append, List.flatten_singleton]

theorem printedAt_print {pc next : Pc} {line s : Str}
    (hact : act serviceFlag fd r pc = .print line next) (h : PrintedAt serviceFlag r s pc) :
    PrintedAt serviceFlag r (s ++ line) next := by
  cases pc with
  | forked =>
    cases hact
    rw [PrintedAt] at h
    rw [h]
    rfl
  | wait =>
    rw [PrintedAt] at h
    subst h
    rw [act] at hact
    cases r with
    | parent =>
      rw [atWait] at hact
      split at hact
      next => cases hact
      next hflag =>
        cases hact
        exact ⟨rfl, hflag, rfl, 1, by rw [← served_succ]; rfl⟩
    | child =>
      cases hact
      exact ⟨nofun, rfl⟩
  | ask =>
    cases hact
    obtain ⟨rfl, hflag, rfl⟩ := h
    exact ⟨rfl, hflag, rfl⟩
  | serve count =>
    cases hact
    obtain ⟨rfl, hflag, rfl, n, rfl⟩ := h
    exact ⟨rfl, hflag, rfl, n + 1, by rw [List.append_assoc, served_succ]⟩
  | _ => cases hact

theorem printedAt_call {pc next : Pc} {e : Call} {s : Str}
    (hact : act serviceFlag fd r pc = .call e next) (h : PrintedAt serviceFlag r s pc) :
    PrintedAt serviceFlag r s next := by
  cases pc with
  | socket =>
    cases hact
    split
    · exact h
    · exact h
  | wait =>
    rw [act] at hact
    cases r with
    | parent =>
      rw [atWait] at hact
      split at hact
      next hflag =>
        cases hact
        exact ⟨rfl, hflag, h⟩
      next => cases hact
    | child => cases hact
  | getchar =>
    cases hact
    exact ⟨fun _ => h.2.1, h.2.2⟩
  | failed =>
    cases hact
    exact h
  | supported =>
    cases hact
    exact h
  | close =>
    cases hact
    exact h
  | nap count =>
    cases hact
    exact h
  | _ => cases hact

/-- A process ends behind the last line of `main` only. -/
theorem act_exit {pc : Pc} {rc : ℤ} (hact : act serviceFlag fd r pc = .exit rc) :
    pc = .exit ∧ rc = 0 := by
  cases pc with
  | exit =>
    cases hact
    exact ⟨rfl, rfl⟩
  | wait =>
    rw [act] at hact
    cases r with
    | parent =>
      rw [atWait] at hact
      split at hact
      · cases hact
      · cases hact
    | child => cases hact
  | _ => cases hact

/-- What a process has printed, wherever it is, and how it ends. -/
def Printed (serviceFlag : ℤ) (r : Role) (s : Str) (p : Proc Pc UInt8) : Prop :=
  match p.pc with
  | .inl pc => PrintedAt serviceFlag r s pc
  | .inr rc => rc = 0 ∧ (r = .parent → serviceFlag = 0) ∧ s = whole serviceFlag r

theorem Printed.printedAt {s : Str} {p : Proc Pc UInt8} {pc : Pc} (h : Printed serviceFlag r s p)
    (hpc : p.pc = .inl pc) : PrintedAt serviceFlag r s pc := by
  rw [Printed, hpc] at h
  exact h

/-- A step prints what leads on to the place behind it. -/
theorem Printed.step {es : List (Event UInt8 Call)} {p : Proc Pc UInt8}
    {t : Traced (Event UInt8 Call) (Proc Pc UInt8)} (h : Printed serviceFlag r (printedIn es) p)
    (hstep : p.step policy (act serviceFlag fd r) = some t) :
    Printed serviceFlag r (printedIn (es ++ t.log)) t.val := by
  obtain ⟨pc, hpc, hcases⟩ := Proc.step_cases hstep
  have hat := h.printedAt hpc
  rw [printedIn_append]
  rcases hcases with ⟨line, next, hact, rfl⟩ | ⟨e, next, hact, rfl⟩ | ⟨rc, hact, rfl⟩
  · rw [printedIn_cons_printed, printedIn_cons_wrote, printedIn_nil, List.append_nil]
    exact printedAt_print hact hat
  · rw [printedIn_cons_called, printedIn_nil, List.append_nil]
    exact printedAt_call hact hat
  · obtain ⟨rfl, rfl⟩ := act_exit hact
    rw [printedIn_cons_wrote, printedIn_cons_exited, printedIn_nil, List.append_nil]
    exact ⟨rfl, hat.1, hat.2⟩

/-- Behind `fork` nothing is printed. -/
theorem printed_forked (buffer : Str) : Printed serviceFlag r
    (printedIn ([] : List (Event UInt8 Call))) ⟨.inl .forked, buffer⟩ := rfl

/-- **What a process prints on its way.** -/
theorem printed_steps {n : ℕ} {buffer : Str} {t : Traced (Event UInt8 Call) (Proc Pc UInt8)}
    (h : Proc.steps policy (act serviceFlag fd r) n ⟨.inl .forked, buffer⟩ = some t) :
    Printed serviceFlag r (printedIn t.log) t.val :=
  Schedule.exec_inv (fun _ es p => Printed serviceFlag r (printedIn es) p)
    (fun _ _ _ _ _ hp hstep => hp.step hstep) (printed_forked buffer) h

/-- How many steps a process has to go, but for the service. -/
def Pc.left : Pc → ℕ
  | .forked => 8
  | .socket => 7
  | .supported => 6
  | .failed | .close => 5
  | .wait => 4
  | .ask => 3
  | .getchar => 2
  | .serve _ | .nap _ => 0
  | .exit => 1

/-- A process that is no service gets nearer to its end. -/
theorem left_next {pc next : Pc} {s : Str} (hservice : r = .parent → serviceFlag = 0)
    (h : PrintedAt serviceFlag r s pc) (hnext : (act serviceFlag fd r pc).next = some next) :
    next.left < pc.left := by
  cases pc with
  | socket =>
    obtain rfl := Option.some.inj hnext
    split
    · decide
    · decide
  | wait =>
    rw [act] at hnext
    cases r with
    | parent =>
      rw [atWait, if_pos (hservice rfl)] at hnext
      obtain rfl := Option.some.inj hnext
      decide
    | child =>
      obtain rfl := Option.some.inj hnext
      decide
  | serve count => exact absurd (hservice h.1) h.2.1
  | nap count => exact absurd (hservice h.1) h.2.1
  | exit => cases hnext
  | _ =>
    obtain rfl := Option.some.inj hnext
    decide

/-- A process that is no service has a step to go. -/
theorem left_pos {pc : Pc} {s : Str} (hservice : r = .parent → serviceFlag = 0)
    (h : PrintedAt serviceFlag r s pc) : 0 < pc.left := by
  cases pc with
  | serve count => exact absurd (hservice h.1) h.2.1
  | nap count => exact absurd (hservice h.1) h.2.1
  | _ => decide

/-- **A process that is no service ends.** -/
theorem steps_le {n : ℕ} {buffer : Str} {t : Traced (Event UInt8 Call) (Proc Pc UInt8)}
    (hservice : r = .parent → serviceFlag = 0)
    (h : Proc.steps policy (act serviceFlag fd r) n ⟨.inl .forked, buffer⟩ = some t) : n ≤ 8 :=
  Proc.steps_le Pc.left (fun es p => Printed serviceFlag r (printedIn es) p)
    (fun _ _ _ hp hstep => hp.step hstep)
    (fun _ _ _ _ hp hpc hnext => left_next hservice (hp.printedAt hpc) hnext)
    (fun _ _ _ hp hpc => left_pos hservice (hp.printedAt hpc)) (printed_forked buffer) rfl h

end Process

/-! ## What is written -/

variable {fd : Role → ℤ} {v : Vars} {forks : Bool} {ls : List Role}
  {t : Traced (Role × Event UInt8 Call) (Role → Option (Proc Pc UInt8))}

/-- A process that is there was there behind `fork`, with the buffer of `stdout`. -/
theorem Run.steps (h : Run policy fd v forks ls t) {r : Role} {p : Proc Pc UInt8}
    (hp : t.val r = some p) : ∃ t' : Traced (Event UInt8 Call) (Proc Pc UInt8),
      Proc.steps policy (act v.serviceFlag fd r) (ls.count r) ⟨.inl .forked, v.out.buffer⟩ =
        some t' ∧ t'.val = p ∧ t'.log = own r t.log := by
  cases hr : processes v forks r with
  | none =>
    rw [(count_of_none h hr).2] at hp
    cases hp
  | some p₀ =>
    obtain ⟨t', hsteps, hval, hown⟩ := own_exec h hr
    have hstart : p₀ = ⟨.inl .forked, v.out.buffer⟩ := by
      cases r with
      | parent => exact (Option.some.inj hr).symm
      | child =>
        rw [processes] at hr
        split at hr
        · exact (Option.some.inj hr).symm
        · cases hr
    rw [hstart] at hsteps
    exact ⟨t', hsteps, Option.some.inj (hval.symm.trans hp), hown.symm⟩

/-- Every run has a parent. -/
theorem Run.exists_parent (h : Run policy fd v forks ls t) : ∃ p, t.val .parent = some p := by
  obtain ⟨t', -, hval, -⟩ := own_exec h (rfl : processes v forks .parent = some _)
  exact ⟨t'.val, hval⟩

/-- What a process has printed in a run. -/
theorem Run.printed (h : Run policy fd v forks ls t) {r : Role} {p : Proc Pc UInt8}
    (hp : t.val r = some p) : Printed v.serviceFlag r (printedIn (own r t.log)) p := by
  obtain ⟨t', hsteps, rfl, hlog⟩ := h.steps hp
  rw [← hlog]
  exact printed_steps hsteps

/-- What a stream to a terminal holds behind the options. -/
theorem buffer_byLine {os : List Opt} (h : ∀ o ∈ os, o = (0x73, none)) {v : Vars}
    (hv : v.out.buffer = []) : (os.foldl (option (byLine 0x0a)) v).out.buffer = [] := by
  induction os generalizing v with
  | nil => exact hv
  | cons o os ih =>
    obtain ⟨rfl, hos⟩ := List.forall_mem_cons.mp h
    exact ih hos (Stream.buffer_put_byLine 0x0a v.out _)

/-- What a stream to a file has written behind the options. -/
theorem writes_byBlock {size : ℕ} {os : List Opt} (h : ∀ o ∈ os, o = (0x73, none)) {v : Vars}
    (hv : v.out.writes.flatten.length = blocks size v.out.all.length) :
    (os.foldl (option (byBlock size)) v).out.writes.flatten.length =
      blocks size (os.foldl (option (byBlock size)) v).out.all.length := by
  induction os generalizing v with
  | nil => exact hv
  | cons o os ih =>
    obtain ⟨rfl, hos⟩ := List.forall_mem_cons.mp h
    exact ih hos (Stream.length_put_byBlock hv setS)

/-- What the program has printed before it forks, and how much of it the stream holds then. -/
structure Before (policy : Policy UInt8) (k : ℕ) (v : Vars) : Prop where
  /-- `serviceFlag` is set if there was an option -/
  flag : v.serviceFlag = if k = 0 then 0 else 1
  /-- a line was printed for each of `k` options -/
  all : v.out.all = said k
  /-- a stream to a terminal holds nothing -/
  line : policy = byLine 0x0a → v.out.buffer = []
  /-- a stream to a file holds what is behind the full blocks, and all if there are none -/
  block : ∀ size, policy = byBlock size →
    v.out.buffer = (said k).drop (blocks size (said k).length)

/-- A program that forks has read all its options. -/
theorem exists_options (hmain : capMain policy permute argv fuel = some (.forked v)) :
    ∃ os : List Opt, (∀ o ∈ os, o = (0x73, none)) ∧ v = os.foldl (option policy) .start := by
  obtain ⟨os, ok, hscan⟩ : ∃ os ok, Scan permute optstring (.start argv) os ok := exists_scan _
  obtain ⟨e, hloop, hforked⟩ := Option.map_eq_some_iff.mp hmain
  -- with more fuel the program does the same
  have hmore : capMain policy permute argv (fuel + ((Getopt.State.start argv).size + 1)) =
      some (.forked v) := by
    rw [capMain, optionLoop_mono (option policy) hloop (Nat.le_add_right _ _), Option.map_some,
      hforked]
  obtain ⟨hos, heq⟩ := capMain_eq hscan
    (show (Getopt.State.start argv).size < fuel + ((Getopt.State.start argv).size + 1) by omega)
  refine ⟨os, hos, ?_⟩
  rw [heq] at hmore
  cases ok with
  | true => exact (Started.forked.inj (Option.some.inj hmore)).symm
  | false => cases hmore

/-- What is printed before the fork. -/
theorem exists_before (hmain : capMain policy permute argv fuel = some (.forked v)) :
    ∃ k, Before policy k v := by
  obtain ⟨os, hos, rfl⟩ := exists_options hmain
  obtain ⟨hflag, hall⟩ := foldl_option policy hos .start
  refine ⟨os.length, ?_, hall, ?_, ?_⟩
  · rw [hflag]
    simp only [List.length_eq_zero_iff]
    rfl
  · rintro rfl
    exact buffer_byLine hos rfl
  · rintro size rfl
    have hstart : Vars.start.out.writes.flatten.length = blocks size Vars.start.out.all.length := by
      simp [Vars.start, Stream.all, blocks]
    rw [Stream.buffer_eq_drop, writes_byBlock hos hstart, hall]
    rfl

/-- What a process has printed, written and still holds, if it held `held` at first. -/
structure Output (policy : Policy UInt8) (serviceFlag : ℤ) (r : Role) (held : Str)
    (es : List (Event UInt8 Call)) (p : Proc Pc UInt8) : Prop where
  /-- the process has printed the lines up to where it is -/
  printed : Printed serviceFlag r (printedIn es) p
  /-- what was held and is printed is written or held -/
  written : writtenIn es ++ p.buffer = held ++ printedIn es
  /-- a process that runs has written to a file the full blocks of what was held and is printed -/
  block : ∀ size pc, policy = byBlock size → p.pc = .inl pc →
    writtenIn es = (held ++ printedIn es).take (blocks size (held ++ printedIn es).length)
  /-- a process that has ended holds nothing -/
  ended : ∀ rc, p.pc = .inr rc → p.buffer = []

/-- The variables behind `-s`, with `stdout` in a file. -/
def service : Vars := option (byBlock 4096) .start (0x73, none)

/-- The turns of a run that both have: the child gets to its end, and the parent into its loop. -/
def serviceTurns : List Role :=
  [.parent, .child, .child, .parent, .parent, .child, .parent, .parent, .child, .parent, .child,
    .child, .parent, .parent]

theorem exists_serviceRun :
    ∃ t, Run (byBlock 4096) (fun _ => 3) service true serviceTurns t ∧
      t.val .child = some ⟨.inr 0, []⟩ := by
  have hends : (Schedule.exec (step (byBlock 4096) (act service.serviceFlag fun _ => 3))
      serviceTurns (processes service true)).map (fun t => t.val .child) =
        some (some ⟨.inr 0, []⟩) := rfl
  obtain ⟨t, ht, hchild⟩ := Option.map_eq_some_iff.mp hends
  exact ⟨t, ht, hchild⟩

/-- A process takes no more than eight steps, but the parent of a service. -/
theorem Run.count_le (h : Run policy fd v forks ls t) {r : Role}
    (hservice : r = .parent → v.serviceFlag = 0) : ls.count r ≤ 8 := by
  cases hr : t.val r with
  | none =>
    cases hr₀ : processes v forks r with
    | none => rw [(count_of_none h hr₀).1]; exact Nat.zero_le 8
    | some p =>
      obtain ⟨t', -, hval, -⟩ := own_exec h hr₀
      rw [hr] at hval
      cases hval
  | some p =>
    obtain ⟨t', hsteps, -⟩ := h.steps hr
    exact steps_le hservice hsteps

/-- Every step is one of the parent or of the child. -/
theorem length_eq_count (ls : List Role) : ls.length = ls.count .parent + ls.count .child := by
  induction ls with
  | nil => rfl
  | cons r ls ih =>
    cases r with
    | parent =>
      rw [List.length_cons, List.count_cons_self, List.count_cons_of_ne (by decide), ih]
      omega
    | child =>
      rw [List.length_cons, List.count_cons_self, List.count_cons_of_ne (by decide), ih]
      omega

/-- **How runs end**: without the option a run has sixteen steps at most. With it the child has
eight, and the parent never ends: it goes on to print that it is running, and its count
stays zero. -/
theorem cap_ends (h : Run policy fd v forks ls t) :
    (v.serviceFlag = 0 → ls.length ≤ 16) ∧
      (v.serviceFlag ≠ 0 → ls.count .child ≤ 8 ∧ ∃ p pc, t.val .parent = some p ∧ p.pc = .inl pc ∧
        ∃ n, printedIn (own .parent t.log) <+: hello .parent ++ served n) := by
  refine ⟨fun hflag => ?_, fun hflag => ⟨h.count_le nofun, ?_⟩⟩
  · have hparent := h.count_le (r := .parent) fun _ => hflag
    have hchild := h.count_le (r := .child) nofun
    have hlength := length_eq_count ls
    omega
  · obtain ⟨p, hp⟩ := h.exists_parent
    have hprinted := h.printed hp
    rw [Printed] at hprinted
    cases hpc : p.pc with
    | inr rc =>
      rw [hpc] at hprinted
      exact absurd (hprinted.2.1 rfl) hflag
    | inl pc =>
      rw [hpc] at hprinted
      refine ⟨p, pc, hp, hpc, ?_⟩
      dsimp only at hprinted
      cases pc with
      | forked => exact ⟨0, by rw [hprinted]; exact List.nil_prefix⟩
      | ask => exact absurd hprinted.2.1 hflag
      | getchar => exact absurd hprinted.2.1 hflag
      | exit => exact absurd (hprinted.1 rfl) hflag
      | serve count =>
        obtain ⟨-, -, -, n, hn⟩ := hprinted
        exact ⟨n, hn ▸ List.prefix_refl _⟩
      | nap count =>
        obtain ⟨-, -, -, n, hn⟩ := hprinted
        exact ⟨n, hn ▸ List.prefix_refl _⟩
      | _ => exact ⟨0, by rw [hprinted]; exact List.prefix_append _ _⟩

/-- `cap -s > file`: the child ends, and the parent goes on. -/
theorem cap_ends_service : ∃ t, Run (byBlock 4096) (fun _ => 3) service true serviceTurns t ∧
    t.val .child = some ⟨.inr 0, []⟩ ∧
    ∃ p pc, t.val .parent = some p ∧ p.pc = .inl pc ∧
      ∃ n, printedIn (own .parent t.log) <+: hello .parent ++ served n := by
  obtain ⟨t, ht, hchild⟩ := exists_serviceRun
  exact ⟨t, ht, hchild, ((cap_ends ht).2 (by decide)).2⟩

/-! ## The lines of the usage -/

/-- The format that `usage` makes fits its buffer, and stands for a field as wide as it says. -/
theorem format_indent {n : ℕ} (hpos : 0 < n) (hle : n ≤ 127) :
    format (snprintf 128 (0x25 :: (decimalText n ++ 0x2e :: (decimalText n ++ [0x73]))))
      (List.replicate 127 0x20) = some (List.replicate n 0x20) := by
  have hdigits : (decimalText n).length ≤ 3 := by
    rw [decimalText, List.length_map]
    exact (Nat.length_toDigits_le_iff (by decide) (by decide)).mpr (by omega)
  have hfits : (0x25 :: (decimalText n ++ 0x2e :: (decimalText n ++ [0x73]))).length ≤ 127 := by
    simp only [List.length_cons, List.length_append, List.length_nil]
    omega
  rw [snprintf, List.take_of_length_le hfits, format_string hpos, width, List.take_replicate,
    Nat.min_eq_left hle, List.leftpad, List.length_replicate, Nat.sub_self, List.replicate_zero,
    List.nil_append]

/-- **The lines of the usage**, for every name of the program: both options are indented by the
width of what stands before them in the first line, as far as the buffers go. -/
theorem cap_usage_aligned (argv0 : Str) : ∃ indent : Str,
    usage argv0 = some (text "Usage: " ++ argv0 ++ text " [-s]\n" ++
      indent ++ text " with no option,proc will wait any key before exit\n" ++
      indent ++ text " -s indicate proc to run infinitly\n") ∧
    (∀ c ∈ indent, c = 0x20) ∧
    indent.length = min 127 (text "Usage: " ++ argv0).length ∧
    (indent.length = (text "Usage: " ++ argv0).length ↔ argv0.length ≤ 120) := by
  have hheader : (snprintf 128 (text "Usage: " ++ argv0)).length =
      min 127 (text "Usage: " ++ argv0).length := List.length_take
  have hlength : (text "Usage: " ++ argv0).length = 7 + argv0.length := List.length_append
  refine ⟨List.replicate (min 127 (text "Usage: " ++ argv0).length) 0x20, ?_,
    fun c hc => List.eq_of_mem_replicate hc, List.length_replicate, ?_⟩
  · rw [usage]
    dsimp only
    rw [hheader, format_indent (by omega) (Nat.min_le_left ..), Option.map_some, snprintf,
      List.take_of_length_le (by rw [List.length_replicate]; exact Nat.min_le_left ..)]
  · rw [List.length_replicate]
    omega

end Cap

end StudyTips
