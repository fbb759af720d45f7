import Mathlib.Algebra.BigOperators.Group.List.Basic
import StudyTips.CString
import StudyTips.Loop

/-!
# `getopt`

An option string names the options, with a colon behind those that take an argument:
the rest of the element of the command line, or the next element if there is no rest. A
call hands out one option, and a loop over the calls sets variables from them. The first
element that is no option ends the options, as POSIX has it, or the options behind it are
put before it (`permute`), as the GNU C library has it.

* `Scan`: the options a command line has, up to its end or to the first that is none.
  `optionLoop_eq`: a loop over the options is a fold over them, and comes to its end.
* `scan_render`: options written one an element are read back as they are, whatever their
  arguments hold.
* `optionLoop_args`: POSIX leaves the command line as it is. `optionLoop_used`: what was used
  of it begins with an option.
* `foldl_getLast`: a variable that options set has the value of the last that sets it.
-/

namespace Getopt

open CString

/-- An option with its argument. -/
abbrev Opt : Type := UInt8 × Option Str

/-- How far a command line is scanned. Behind the name of the program it consists of `used`,
`passed` and `rest`. -/
structure State : Type where
  /-- the elements that are used: options, their arguments, and `--` -/
  used : List Str
  /-- the operands that were passed over -/
  passed : List Str
  /-- what is not scanned of the last element that is used -/
  cluster : Str
  /-- the elements that were not looked at -/
  rest : List Str

/-- The state before the first call. -/
def State.start (argv : List Str) : State := ⟨[], [], [], argv.drop 1⟩

/-- The command line behind the name of the program, in the order that the scan has given it. -/
def State.args (s : State) : List Str := s.used ++ s.passed ++ s.rest

/-- `optind`, when the options have ended. -/
def State.optind (s : State) : ℕ := s.used.length + 1

/-- The character `-`. -/
def dash : UInt8 := 0x2d

/-- The character `:`. -/
def colon : UInt8 := 0x3a

/-- Whether an option takes an argument, `none` if it is not in the option string. -/
def arity (optstring : Str) (c : UInt8) : Option Bool :=
  if c = colon then none
  else match optstring.dropWhile fun x => x ≠ c with
    | [] => none
    | _ :: next => some (next.head? = some colon)

/-- What a call finds: an option, or one that is not in the option string or lacks its
argument. -/
inductive Found : Type where
  /-- an option -/
  | opt (o : Opt)
  /-- `?` -/
  | bad

/-- The option `c`, with the state behind its character. -/
def take (optstring : Str) (c : UInt8) (s : State) : State × Option Found :=
  match arity optstring c with
  | none => (s, some .bad)
  | some false => (s, some (.opt (c, none)))
  | some true =>
    if s.cluster ≠ [] then ({ s with cluster := [] }, some (.opt (c, some s.cluster)))
    else match s.rest with
      | [] => (s, some .bad)
      | arg :: rest => ({ s with used := s.used ++ [arg], rest := rest }, some (.opt (c, some arg)))

/-- An element that holds options, or is `--`. -/
def IsOption (arg : Str) : Prop := arg.head? = some dash ∧ arg ≠ [dash]

instance (arg : Str) : Decidable (IsOption arg) := inferInstanceAs (Decidable (_ ∧ _))

variable (permute : Bool) (optstring : Str)

/-- The next of such elements, with the operands before it and the elements behind it. -/
def nextElement : List Str → Option (List Str × Str × List Str)
  | [] => none
  | arg :: rest =>
    if IsOption arg then some ([], arg, rest)
    else if permute then (nextElement rest).map fun next => (arg :: next.1, next.2)
    else none

/-- One call: the state behind it and what it finds, `none` for `-1`. -/
def getopt (s : State) : State × Option Found :=
  match s.cluster with
  | c :: cs => take optstring c { s with cluster := cs }
  | [] =>
    match nextElement permute s.rest with
    | none => (s, none)
    | some (operands, arg, rest) =>
      let s : State := ⟨s.used ++ [arg], s.passed ++ operands, [], rest⟩
      if arg = [dash, dash] then (s, none)
      else match arg.tail with
        | c :: cs => take optstring c { s with cluster := cs }
        | [] => (s, none) -- `IsOption` excludes it

/-! ## The options of a command line -/

/-- The options of what is left of the command line, and whether its end is reached. -/
inductive Scan : State → List Opt → Bool → Prop where
  /-- there are no more options -/
  | ends {s s' : State} : getopt permute optstring s = (s', none) → Scan s [] true
  /-- the next option is not in the option string, or lacks its argument -/
  | bad {s s' : State} : getopt permute optstring s = (s', some .bad) → Scan s [] false
  /-- there is one more option -/
  | opt {s s' : State} {o : Opt} {os : List Opt} {ok : Bool} :
      getopt permute optstring s = (s', some (.opt o)) → Scan s' os ok → Scan s (o :: os) ok

/-- How much is left of the command line. -/
def State.size (s : State) : ℕ := s.cluster.length + (s.rest.map fun arg => arg.length + 1).sum

variable {permute optstring}

/-- **What is found at a character**: something that is no option, an option without an argument, or
one whose argument is the rest of the element or the next element. -/
theorem take_cases (optstring : Str) (c : UInt8) (s : State) :
    take optstring c s = (s, some .bad) ∨
    (arity optstring c = some false ∧ take optstring c s = (s, some (.opt (c, none)))) ∨
    (arity optstring c = some true ∧
      take optstring c s = ({ s with cluster := [] }, some (.opt (c, some s.cluster)))) ∨
    ∃ arg rest, arity optstring c = some true ∧ s.rest = arg :: rest ∧
      take optstring c s =
        ({ s with used := s.used ++ [arg], rest := rest }, some (.opt (c, some arg))) := by
  rw [take]
  cases arity optstring c with
  | none => exact .inl rfl
  | some hasArg =>
    cases hasArg with
    | false => exact .inr (.inl ⟨rfl, rfl⟩)
    | true =>
      dsimp only
      split
      case isTrue => exact .inr (.inr (.inl ⟨rfl, rfl⟩))
      case isFalse =>
        cases s.rest with
        | nil => exact .inl rfl
        | cons arg rest => exact .inr (.inr (.inr ⟨arg, rest, rfl, rfl, rfl⟩))

/-- An option uses up nothing but its argument. -/
theorem take_size (c : UInt8) (s : State) : (take optstring c s).1.size ≤ s.size := by
  rcases take_cases optstring c s with h | ⟨-, h⟩ | ⟨-, h⟩ | ⟨arg, rest, -, hrest, h⟩
  · rw [h]
  · rw [h]
  · rw [h]
    simp [State.size]
  · rw [h]
    simp [State.size, hrest]

/-- The next element is one of the command line, and the operands are those before it. -/
theorem nextElement_eq {args operands rest : List Str} {arg : Str}
    (h : nextElement permute args = some (operands, arg, rest)) :
    IsOption arg ∧ args = operands ++ arg :: rest ∧ (permute = false → operands = []) := by
  induction args generalizing operands with
  | nil => cases h
  | cons arg' args ih =>
    rw [nextElement] at h
    split at h
    case isTrue hoption =>
      cases h
      exact ⟨hoption, rfl, fun _ => rfl⟩
    case isFalse =>
      split at h
      case isTrue hpermute =>
        obtain ⟨⟨operands', arg₁, rest'⟩, hnext, heq⟩ := Option.map_eq_some_iff.mp h
        cases heq
        obtain ⟨hoption, rfl, -⟩ := ih hnext
        exact ⟨hoption, rfl, fun hno => by rw [hno] at hpermute; cases hpermute⟩
      case isFalse => cases h

/-- No element is found exactly where none of those looked at is an option. -/
theorem nextElement_eq_none_iff {args : List Str} : nextElement permute args = none ↔
    ∀ arg ∈ if permute then args else args.take 1, ¬ IsOption arg := by
  induction args with
  | nil => cases permute <;> simp [nextElement]
  | cons arg args ih =>
    rw [nextElement]
    by_cases hoption : IsOption arg
    · cases permute <;> simp [hoption]
    · cases permute with
      | false => simp [hoption]
      | true =>
        rw [if_neg hoption, if_pos rfl, Option.map_eq_none_iff, ih]
        simp [hoption]

/-- **What a call does**: it goes on in the element under way, ends the options, or goes on to the
next element that holds any. -/
theorem getopt_cases (permute : Bool) (optstring : Str) (s : State) :
    (∃ c cs, s.cluster = c :: cs ∧
      getopt permute optstring s = take optstring c { s with cluster := cs }) ∨
    (s.cluster = [] ∧ nextElement permute s.rest = none ∧
      getopt permute optstring s = (s, none)) ∨
    ∃ operands arg rest, s.cluster = [] ∧ nextElement permute s.rest = some (operands, arg, rest) ∧
      ((arg = [dash, dash] ∧ getopt permute optstring s =
          (⟨s.used ++ [arg], s.passed ++ operands, [], rest⟩, none)) ∨
        ∃ c cs, arg = dash :: c :: cs ∧ getopt permute optstring s =
          take optstring c ⟨s.used ++ [arg], s.passed ++ operands, cs, rest⟩) := by
  obtain ⟨used, passed, cluster, args⟩ := s
  cases cluster with
  | cons c cs => exact .inl ⟨c, cs, rfl, rfl⟩
  | nil =>
    refine .inr ?_
    rw [getopt]
    dsimp only
    cases hnext : nextElement permute args with
    | none => exact .inl ⟨rfl, rfl, rfl⟩
    | some next =>
      obtain ⟨operands, arg, rest⟩ := next
      refine .inr ⟨operands, arg, rest, rfl, rfl, ?_⟩
      obtain ⟨⟨hhead, hne⟩, -, -⟩ := nextElement_eq hnext
      match arg, hhead, hne with
      | [c], hhead, hne => exact absurd (congrArg (fun c => [c]) (Option.some.inj hhead)) hne
      | c :: c' :: cs, hhead, _ =>
        obtain rfl : c = dash := Option.some.inj hhead
        dsimp only
        split
        next hend => exact .inl ⟨hend, rfl⟩
        next => exact .inr ⟨c', cs, rfl, rfl⟩

/-- **A call that finds something uses up characters of the command line.** -/
theorem getopt_lt {s s' : State} {f : Found} (h : getopt permute optstring s = (s', some f)) :
    s'.size < s.size := by
  obtain ⟨c, cs, hcluster, heq⟩ | ⟨-, -, heq⟩ | ⟨operands, arg, rest, hcluster, hnext, hcase⟩ :=
    getopt_cases permute optstring s
  · obtain rfl : (take optstring c { s with cluster := cs }).1 = s' :=
      congrArg Prod.fst (heq.symm.trans h)
    refine lt_of_le_of_lt (take_size c _) ?_
    rw [State.size, State.size, hcluster, List.length_cons]
    dsimp only
    omega
  · rw [heq] at h
    cases h
  · obtain ⟨-, hargs, -⟩ := nextElement_eq hnext
    rcases hcase with ⟨-, heq⟩ | ⟨c, cs, rfl, heq⟩
    · rw [heq] at h
      cases h
    · obtain rfl := congrArg Prod.fst (heq.symm.trans h)
      refine lt_of_le_of_lt (take_size c _) ?_
      rw [State.size, State.size, hcluster, hargs]
      simp only [List.map_append, List.sum_append, List.map_cons, List.sum_cons, List.length_cons,
        List.length_nil]
      omega

/-- Every command line has its options. -/
theorem exists_scan (s : State) : ∃ os ok, Scan permute optstring s os ok := by
  induction hn : s.size using Nat.strongRecOn generalizing s with
  | ind n ih =>
    rcases hget : getopt permute optstring s with ⟨s', _ | f⟩
    · exact ⟨[], true, .ends hget⟩
    · cases f with
      | bad => exact ⟨[], false, .bad hget⟩
      | opt o =>
        obtain ⟨os, ok, hscan⟩ := ih s'.size (hn ▸ getopt_lt hget) s' rfl
        exact ⟨o :: os, ok, .opt hget hscan⟩

/-- **A command line has its options in one way.** -/
theorem Scan.unique {s : State} {os os' : List Opt} {ok ok' : Bool}
    (h : Scan permute optstring s os ok) (h' : Scan permute optstring s os' ok') :
    os = os' ∧ ok = ok' := by
  induction h generalizing os' ok' with
  | ends hget =>
    cases h' with
    | ends => exact ⟨rfl, rfl⟩
    | bad hget' => cases hget.symm.trans hget'
    | opt hget' => cases hget.symm.trans hget'
  | bad hget =>
    cases h' with
    | ends hget' => cases hget.symm.trans hget'
    | bad => exact ⟨rfl, rfl⟩
    | opt hget' => cases hget.symm.trans hget'
  | opt hget _ ih =>
    cases h' with
    | ends hget' => cases hget.symm.trans hget'
    | bad hget' => cases hget.symm.trans hget'
    | opt hget' hrest =>
      cases hget.symm.trans hget'
      obtain ⟨rfl, rfl⟩ := ih hrest
      exact ⟨rfl, rfl⟩

/-- What is found is in the option string, and has an argument as it says. -/
theorem take_known {c : UInt8} {s s' : State} {o : Opt}
    (h : take optstring c s = (s', some (.opt o))) : arity optstring o.1 = some o.2.isSome := by
  rcases take_cases optstring c s with heq | ⟨harity, heq⟩ | ⟨harity, heq⟩ | ⟨_, _, harity, -, heq⟩
  · cases heq.symm.trans h
  · cases heq.symm.trans h
    exact harity
  · cases heq.symm.trans h
    exact harity
  · cases heq.symm.trans h
    exact harity

/-- **The options of a command line are in the option string.** -/
theorem Scan.known {s : State} {os : List Opt} {ok : Bool} (h : Scan permute optstring s os ok) :
    ∀ o ∈ os, arity optstring o.1 = some o.2.isSome := by
  induction h with
  | ends => exact nofun
  | bad => exact nofun
  | @opt s s' o os ok hget _ ih =>
    refine List.forall_mem_cons.mpr ⟨?_, ih⟩
    obtain ⟨c, cs, -, heq⟩ | ⟨-, -, heq⟩ | ⟨operands, arg, rest, -, -, ⟨-, heq⟩ | ⟨c, cs, -, heq⟩⟩ :=
      getopt_cases permute optstring s
    · exact take_known (heq.symm.trans hget)
    · cases heq.symm.trans hget
    · cases heq.symm.trans hget
    · exact take_known (heq.symm.trans hget)

/-! ## The command line behind the options -/

/-- An argument stays where it is. -/
theorem take_args (c : UInt8) {s : State} (hs : s.passed = []) :
    (take optstring c s).1.passed = [] ∧ (take optstring c s).1.args = s.args := by
  rcases take_cases optstring c s with h | ⟨-, h⟩ | ⟨-, h⟩ | ⟨arg, rest, -, hrest, h⟩
  · rw [h]
    exact ⟨hs, rfl⟩
  · rw [h]
    exact ⟨hs, rfl⟩
  · rw [h]
    exact ⟨hs, rfl⟩
  · rw [h]
    exact ⟨hs, by simp [State.args, hs, hrest]⟩

/-- A call that does not permute leaves the command line as it is. -/
theorem getopt_args {s : State} (hs : s.passed = []) :
    (getopt false optstring s).1.passed = [] ∧ (getopt false optstring s).1.args = s.args := by
  obtain ⟨c, cs, -, heq⟩ | ⟨-, -, heq⟩ | ⟨operands, arg, rest, -, hnext, hcase⟩ :=
    getopt_cases false optstring s
  · rw [heq]
    exact take_args c hs
  · rw [heq]
    exact ⟨hs, rfl⟩
  · obtain ⟨-, hargs, hoperands⟩ := nextElement_eq hnext
    obtain rfl := hoperands rfl
    have hsame : (⟨s.used ++ [arg], s.passed ++ [], [], rest⟩ : State).args = s.args := by
      simp [State.args, hs, hargs]
    rcases hcase with ⟨-, heq⟩ | ⟨c, cs, -, heq⟩
    · rw [heq]
      exact ⟨by simp [hs], hsame⟩
    · rw [heq]
      have hpassed : (⟨s.used ++ [arg], s.passed ++ [], cs, rest⟩ : State).passed = [] := by
        simp [hs]
      exact ⟨(take_args c hpassed).1, (take_args c hpassed).2.trans hsame⟩

/-- The first element that was used is an option, or `--`. -/
def State.UsesOptions (s : State) : Prop := ∃ arg, s.used.head? = some arg ∧ IsOption arg

theorem take_usesOptions {c : UInt8} {s : State} (hs : s.UsesOptions) :
    (take optstring c s).1.UsesOptions := by
  obtain ⟨arg, hhead, hoption⟩ := hs
  rcases take_cases optstring c s with h | ⟨-, h⟩ | ⟨-, h⟩ | ⟨next, rest, -, -, h⟩
  · rw [h]
    exact ⟨arg, hhead, hoption⟩
  · rw [h]
    exact ⟨arg, hhead, hoption⟩
  · rw [h]
    exact ⟨arg, hhead, hoption⟩
  · rw [h]
    exact ⟨arg, by rw [List.head?_append, hhead]; rfl, hoption⟩

/-- What is used begins with an option or `--` behind every call that finds an element, and from
then on. -/
theorem getopt_usesOptions {s : State} (hs : s.UsesOptions ∨ s.used = [] ∧ s.cluster = [] ∧
    nextElement permute s.rest ≠ none) : (getopt permute optstring s).1.UsesOptions := by
  have hbegin : ∀ arg, IsOption arg → (s.UsesOptions ∨ s.used = []) →
      ∃ arg', (s.used ++ [arg]).head? = some arg' ∧ IsOption arg' := by
    rintro arg hoption (⟨arg', hhead, hoption'⟩ | hempty)
    · exact ⟨arg', by rw [List.head?_append, hhead]; rfl, hoption'⟩
    · exact ⟨arg, by rw [hempty]; rfl, hoption⟩
  obtain ⟨c, cs, hcluster, heq⟩ | ⟨-, hnone, heq⟩ | ⟨operands, arg, rest, -, hnext, hcase⟩ :=
    getopt_cases permute optstring s
  · rw [heq]
    rcases hs with hs | ⟨-, hempty, -⟩
    · exact take_usesOptions hs
    · rw [hempty] at hcluster
      cases hcluster
  · rw [heq]
    exact hs.resolve_right fun h => h.2.2 hnone
  · obtain ⟨hoption, -, -⟩ := nextElement_eq hnext
    have huses := hbegin arg hoption (hs.imp id And.left)
    rcases hcase with ⟨-, heq⟩ | ⟨c, cs, -, heq⟩
    · rw [heq]
      exact huses
    · rw [heq]
      exact take_usesOptions huses

/-! ## A loop over the options -/

section Loop

variable {V : Type} (handle : V → Opt → V)

/-- What a loop over the options leaves with. -/
structure Ended (V : Type) : Type where
  /-- the state behind the last call -/
  state : State
  /-- the variables that the options have set -/
  vars : V
  /-- whether the options have ended, and not broken off at something that is none -/
  ok : Bool

/-- One turn of `while ((opt = getopt(argc, argv, optstring)) != -1)` over variables `V`. -/
def optionTurn (permute : Bool) (optstring : Str) (s : State × V) :
    Traced Empty ((State × V) ⊕ Ended V) :=
  match getopt permute optstring s.1 with
  | (s', none) => pure (.inr ⟨s', s.2, true⟩)
  | (s', some .bad) => pure (.inr ⟨s', s.2, false⟩)
  | (s', some (.opt o)) => pure (.inl (s', handle s.2 o))

/-- The loop, `none` while it runs. -/
def optionLoop (permute : Bool) (optstring : Str) (argv : List Str) (v : V) (fuel : ℕ) :
    Option (Ended V) :=
  (Loop.run (optionTurn handle permute optstring) fuel (.start argv, v)).val

theorem run_scan {s : State} {os : List Opt} {ok : Bool} (h : Scan permute optstring s os ok) :
    ∀ {v : V} {fuel : ℕ}, s.size < fuel → ∃ s',
      (Loop.run (optionTurn handle permute optstring) fuel (s, v)).val =
        some ⟨s', os.foldl handle v, ok⟩ := by
  induction h with
  | @ends s s' hget =>
    rintro v (_ | fuel) hfuel
    · cases hfuel
    · exact ⟨s', by rw [Loop.run_inr (r := ⟨s', v, true⟩) (by simp [optionTurn, hget])]; rfl⟩
  | @bad s s' hget =>
    rintro v (_ | fuel) hfuel
    · cases hfuel
    · exact ⟨s', by rw [Loop.run_inr (r := ⟨s', v, false⟩) (by simp [optionTurn, hget])]; rfl⟩
  | @opt s s' o os ok hget _ ih =>
    rintro v (_ | fuel) hfuel
    · cases hfuel
    · have hturn : (optionTurn handle permute optstring (s, v)).val = .inl (s', handle v o) := by
        simp [optionTurn, hget]
      rw [Loop.run_inl hturn]
      exact ih (by have := getopt_lt hget; omega)

/-- **A loop over the options is a fold over them**, and comes to its end. -/
theorem optionLoop_eq {argv : List Str} {os : List Opt} {ok : Bool}
    (h : Scan permute optstring (.start argv) os ok) {v : V} {fuel : ℕ}
    (hfuel : (State.start argv).size < fuel) : ∃ s',
    optionLoop handle permute optstring argv v fuel = some ⟨s', os.foldl handle v, ok⟩ :=
  run_scan handle h hfuel

/-- A loop that has ended does the same with more fuel. -/
theorem optionLoop_mono {argv : List Str} {v : V} {fuel fuel' : ℕ} {e : Ended V}
    (h : optionLoop handle permute optstring argv v fuel = some e) (hle : fuel ≤ fuel') :
    optionLoop handle permute optstring argv v fuel' = some e := by
  rw [optionLoop] at h ⊢
  rw [Loop.run_mono h hle, h]

variable {handle}

/-- What every call leaves behind, the last call of a loop leaves behind. -/
theorem optionLoop_state (Inv Post : State → Prop) {argv : List Str} {v : V} {fuel : ℕ} {e : Ended V}
    (hstart : Inv (.start argv)) (hget : ∀ s, Inv s → Post (getopt permute optstring s).1)
    (hpost : ∀ s, Post s → Inv s)
    (h : optionLoop handle permute optstring argv v fuel = some e) : Post e.state := by
  obtain ⟨ss, htrail, -⟩ := Loop.exists_trail h
  have hround : ∀ x x' : State × V, Inv x.1 →
      (optionTurn handle permute optstring x).val = .inl x' → Inv x'.1 := by
    intro x x' hx hturn
    have hx' := hget x.1 hx
    rw [optionTurn] at hturn
    rcases hg : getopt permute optstring x.1 with ⟨s', _ | _ | _⟩
    · simp [hg] at hturn
    · rw [hg] at hturn hx'
      obtain rfl := Sum.inl.inj hturn
      exact hpost _ hx'
    · simp [hg] at hturn
  obtain ⟨x, hx, hleave⟩ := htrail.leaves
  have hpost' := hget x.1 (htrail.forall_mem hround hstart x hx)
  rw [optionTurn] at hleave
  rcases hg : getopt permute optstring x.1 with ⟨s', _ | _ | _⟩
  · rw [hg] at hleave hpost'
    obtain rfl := Sum.inr.inj hleave
    exact hpost'
  · simp [hg] at hleave
  · rw [hg] at hleave hpost'
    obtain rfl := Sum.inr.inj hleave
    exact hpost'

/-- **POSIX leaves the command line as it is.** -/
theorem optionLoop_args {argv : List Str} {v : V} {fuel : ℕ} {e : Ended V}
    (h : optionLoop handle false optstring argv v fuel = some e) :
    e.state.args = argv.drop 1 :=
  (optionLoop_state (fun s => s.passed = [] ∧ s.args = argv.drop 1)
    (fun s => s.passed = [] ∧ s.args = argv.drop 1) ⟨rfl, rfl⟩
    (fun _ hs => ⟨(getopt_args hs.1).1, (getopt_args hs.1).2.trans hs.2⟩) (fun _ hs => hs) h).2

/-- **Options are used first**: behind the loop the command line begins with an option or `--`, if
it had any that the calls have looked at, and is as it was if not. -/
theorem optionLoop_used {argv : List Str} {v : V} {fuel : ℕ} {e : Ended V}
    (h : optionLoop handle permute optstring argv v fuel = some e) :
    (nextElement permute (argv.drop 1) ≠ none → e.state.UsesOptions) ∧
      (nextElement permute (argv.drop 1) = none → e = ⟨.start argv, v, true⟩) := by
  refine ⟨fun hnext => ?_, fun hnext => ?_⟩
  · exact optionLoop_state _ State.UsesOptions (.inr ⟨rfl, rfl, hnext⟩)
      (fun _ hs => getopt_usesOptions hs) (fun _ hs => .inl hs) h
  · obtain ⟨ss, htrail, -⟩ := Loop.exists_trail h
    have hget : getopt permute optstring (.start argv) = (.start argv, none) := by
      rw [getopt]
      dsimp only [State.start]
      rw [hnext]
    have hleave : (optionTurn handle permute optstring (.start argv, v)).val =
        .inr ⟨.start argv, v, true⟩ := by simp [optionTurn, hget]
    exact (htrail.of_inr hleave).2

end Loop

/-- **A variable has the value of the last option that sets it**, or the one it had. -/
theorem foldl_getLast {V X O : Type} {handle : V → O → V} {f : V → X} {set : O → Option X}
    (h : ∀ v o, f (handle v o) = (set o).getD (f v)) (os : List O) (v : V) :
    f (os.foldl handle v) = ((os.filterMap set).getLast?).getD (f v) := by
  induction os generalizing v with
  | nil => rfl
  | cons o os ih =>
    rw [List.foldl_cons, ih, h]
    cases hset : set o with
    | none => rw [List.filterMap_cons_none hset, Option.getD_none]
    | some x =>
      rw [List.filterMap_cons_some hset, List.getLast?_cons, Option.getD_some, Option.getD_some]

/-- **A flag is set if any option sets it.** -/
theorem foldl_any {V X O : Type} {handle : V → O → V} {f : V → X} {p : O → Bool} {x : X}
    (h : ∀ v o, f (handle v o) = if p o then x else f v) (os : List O) (v : V) :
    f (os.foldl handle v) = if os.any p then x else f v := by
  induction os generalizing v with
  | nil => rfl
  | cons o os ih =>
    rw [List.foldl_cons, ih, h, List.any_cons]
    cases p o with
    | true => simp
    | false => simp

/-! ## Options written on the command line -/

/-- Options, each an element of its own, the arguments behind them. -/
def render : List Opt → List Str
  | [] => []
  | (c, none) :: os => [dash, c] :: render os
  | (c, some arg) :: os => [dash, c] :: arg :: render os

/-- The options are in the option string, and have arguments as it says. -/
def Known (optstring : Str) (os : List Opt) : Prop :=
  ∀ o ∈ os, o.1 ≠ dash ∧ arity optstring o.1 = some o.2.isSome

instance (optstring : Str) (os : List Opt) : Decidable (Known optstring os) :=
  inferInstanceAs (Decidable (∀ o ∈ os, _))

/-- Operands hold no options, as far as a call looks. -/
def NoOptions (permute : Bool) (operands : List Str) : Prop :=
  ∀ next ∈ nextElement permute operands, next.2.1 = [dash, dash]

instance (permute : Bool) (operands : List Str) : Decidable (NoOptions permute operands) :=
  inferInstanceAs (Decidable (∀ next ∈ nextElement permute operands, _))

/-- A call takes an element that is one option. -/
theorem getopt_element {c : UInt8} {used rest : List Str} (hc : c ≠ dash) :
    getopt permute optstring ⟨used, [], [], [dash, c] :: rest⟩ =
      take optstring c ⟨used ++ [[dash, c]], [], [], rest⟩ := by
  have hnext : nextElement permute ([dash, c] :: rest) = some ([], [dash, c], rest) := by
    rw [nextElement, if_pos ⟨rfl, by simp⟩]
  rw [getopt, hnext]
  dsimp only
  rw [if_neg (by simpa using hc)]
  rfl

/-- **Options are read back as they were written**, with any operands behind them. -/
theorem scan_render {os : List Opt} (h : Known optstring os) {operands : List Str}
    (hoperands : NoOptions permute operands) : ∀ {used : List Str},
    Scan permute optstring ⟨used, [], [], render os ++ operands⟩ os true := by
  induction os with
  | nil =>
    intro used
    rw [render, List.nil_append]
    cases hnext : nextElement permute operands with
    | none => exact .ends (by rw [getopt, hnext])
    | some next =>
      have hend : next.2.1 = [dash, dash] := hoperands next hnext
      exact .ends (by rw [getopt, hnext]; dsimp only; rw [if_pos hend])
  | cons o os ih =>
    intro used
    have htail : ∀ {used : List Str}, Scan permute optstring
        ⟨used, [], [], render os ++ operands⟩ os true :=
      ih fun o' ho' => h o' (List.mem_cons_of_mem _ ho')
    obtain ⟨hdash, harity⟩ := h o List.mem_cons_self
    obtain ⟨c, arg⟩ := o
    cases arg with
    | none =>
      have hget : getopt permute optstring
          ⟨used, [], [], render ((c, none) :: os) ++ operands⟩ =
            (⟨used ++ [[dash, c]], [], [], render os ++ operands⟩, some (.opt (c, none))) := by
        rw [render, List.cons_append, getopt_element hdash]
        simp [take, harity]
      exact .opt hget htail
    | some arg =>
      have hget : getopt permute optstring
          ⟨used, [], [], render ((c, some arg) :: os) ++ operands⟩ =
            (⟨used ++ [[dash, c]] ++ [arg], [], [], render os ++ operands⟩,
              some (.opt (c, some arg))) := by
        rw [render, List.cons_append, List.cons_append, getopt_element hdash]
        simp [take, harity]
      exact .opt hget htail

end Getopt
