import Mathlib.Algebra.Ring.Int.Defs
import Mathlib.Data.Multiset.Count
import Mathlib.Data.Nat.Count
import StudyTips.Loop

/-!
# `c/filefds/main.c`: two ways to count the open descriptors of a process

`count_open_files` counts the entries of `/proc/[pid]/fd`, `count_open_files_by_fcntl` tries
every number below the limit, which it takes to be an `int`.

* `OpenFds.run_probeTurn`: the numbers tried that are open are those of the descriptors below the
  limit as an `int`.
* `countsAgree_iff`: the two agree, up to the descriptor of the directory, exactly where all
  descriptors are below it.
-/

namespace StudyTips

open Loop

/-- `EBADF` -/
def EBADF : ℤ := 9

/-- `(int)n`. -/
def toInt (n : UInt64) : ℤ := (n.toNat : ℤ).bmod (2 ^ 32)

/-- `n + 1` in an `int`. It goes round at the end, where C leaves open what happens. -/
def succInt (n : ℤ) : ℤ := (n + 1).bmod (2 ^ 32)

/-- `struct rlimit` -/
structure Rlimit : Type where
  rlim_cur : UInt64
  rlim_max : UInt64

/-- What the system answers. -/
structure FdSystem : Type where
  /-- `getrlimit(RLIMIT_NOFILE, &rlim)`, `none` where it fails -/
  getrlimit : Option Rlimit
  /-- what `fcntl(fd, F_GETFD)` returns, and `errno` behind it -/
  fcntl : ℤ → ℤ × ℤ
  /-- the names `readdir` hands out of a directory, `none` where `opendir` fails -/
  opendir : List Char → Option (List (List Char))

/-- What the program does. -/
inductive FdEvent : Type where
  /-- the limits are printed, as `long long` -/
  | limits (soft hard : ℤ)
  /-- `perror(what)` -/
  | perror (what : String)
  /-- an entry of the directory is printed -/
  | opened (pid : ℤ) (d_name : List Char)
  /-- `fcntl(fd, F_GETFD)` -/
  | fcntl (fd : ℤ)

/-- The variables of the loop in `count_open_files_by_fcntl`. -/
structure Probe : Type where
  /-- `fd` -/
  fd : ℤ
  /-- `count` -/
  count : ℤ

/-- What a call of `count_open_files_by_fcntl` returns, and what it stores in `*maxfds`. -/
structure FdCount : Type where
  count : ℤ
  maxfds : Option ℤ

section Program

variable (sys : FdSystem)

/-- `path` in `count_open_files`. -/
def fdPath (pid : ℤ) : List Char := ("/proc/" ++ toString pid ++ "/fd").toList

/-- One turn of the loop in `count_open_files`. -/
def countEntry (pid count : ℤ) (d_name : List Char) : Traced FdEvent ℤ :=
  if d_name.head? = some '.' then pure count
  else do
    .emit (.opened pid d_name)
    pure (succInt count)

/-- `count_open_files(pid)`. -/
def count_open_files (pid : ℤ) : Traced FdEvent ℤ := do
  match sys.getrlimit with
  | some rlim => .emit (.limits rlim.rlim_cur.toInt64.toInt rlim.rlim_max.toInt64.toInt)
  | none => .emit (.perror "getrlimit failed")
  match sys.opendir (fdPath pid) with
  | none => do
    .emit (.perror "opendir failed")
    pure (-1)
  | some names => names.foldlM (countEntry pid) 0

/-- One turn of the loop in `count_open_files_by_fcntl`; it leaves with `count`. -/
def probeTurn (rl : Rlimit) (s : Probe) : Traced FdEvent (Probe ⊕ ℤ) :=
  if s.fd < toInt rl.rlim_cur then do
    .emit (.fcntl s.fd)
    let (ret, errno) := sys.fcntl s.fd
    let count := if ret ≠ -1 ∨ errno ≠ EBADF then succInt s.count else s.count
    pure (.inl ⟨succInt s.fd, count⟩)
  else pure (.inr s.count)

/-- `count_open_files_by_fcntl(maxfds)`, with a `maxfds` that is `NULL` or not; `none` while the
loop still runs. -/
def count_open_files_by_fcntl (maxfds : Bool) (fuel : ℕ) : Traced FdEvent (Option FdCount) :=
  match sys.getrlimit with
  | none => pure (some ⟨0xFFFFF, if maxfds then some 0xFFFFF else none⟩)
  | some rl => do
    match ← run (probeTurn sys rl) fuel ⟨0, 0⟩ with
    | none => pure none
    | some count => pure (some ⟨count, if maxfds then some (toInt rl.rlim_cur) else none⟩)

end Program

/-! ## The open descriptors -/

/-- The descriptors `S` are open, below the soft limit, and with `dirfd` while the directory is
read. -/
structure OpenFds (sys : FdSystem) (rlim_cur : UInt64) (S : Finset ℕ) (dirfd : ℕ) (pid : ℤ) :
    Prop where
  /-- the soft limit is `rlim_cur` -/
  limit : ∃ rlim_max, sys.getrlimit = some ⟨rlim_cur, rlim_max⟩
  /-- the descriptors of `S` are below the soft limit -/
  lt : ∀ fd ∈ S, fd < rlim_cur.toNat
  /-- `fcntl` fails with `EBADF` for the other ones -/
  fcntl : ∀ fd : ℕ, fd < 2 ^ 31 → (sys.fcntl fd = (-1, EBADF) ↔ fd ∉ S)
  /-- the descriptor of the directory is not in `S` -/
  notMem : dirfd ∉ S
  /-- the names listed are `.`, `..`, the descriptors of `S` and that of the directory -/
  listed : ∃ names, sys.opendir (fdPath pid) = some names ∧
    (names : Multiset (List Char)) =
      ['.'] ::ₘ ['.', '.'] ::ₘ (insert dirfd S).val.map (Nat.toDigits 10)

/-- Both ways of counting find the descriptors `S`. -/
structure CountsAgree (sys : FdSystem) (S : Finset ℕ) (pid : ℤ) : Prop where
  /-- trying every descriptor ends, counts those of `S`, and leaves no less than each of them in
  `*maxfds` -/
  byFcntl : ∀ maxfds, ∃ n, ∀ fuel ≥ n, ∃ c,
    (count_open_files_by_fcntl sys maxfds fuel).val = some c ∧ c.count = S.card ∧
      c.maxfds.isSome = maxfds ∧ ∀ max ∈ c.maxfds, ∀ fd ∈ S, (fd : ℤ) ≤ max
  /-- reading the directory counts one descriptor more, its own -/
  byProc : (count_open_files sys pid).val = S.card + 1

/-! ### Reading the directory -/

theorem succInt_bmod (n : ℤ) : succInt (n.bmod (2 ^ 32)) = (n + 1).bmod (2 ^ 32) :=
  Int.bmod_add_bmod

/-- The entries are counted that do not start with a dot. -/
theorem foldlM_countEntry (pid : ℤ) (names : List (List Char)) (n : ℤ) :
    (names.foldlM (countEntry pid) (n.bmod (2 ^ 32))).val =
      (n + names.countP (fun d_name => d_name.head? ≠ some '.')).bmod (2 ^ 32) := by
  induction names generalizing n with
  | nil => simp
  | cons d_name names ih =>
    rw [List.foldlM_cons, Traced.bind_val]
    by_cases hdot : d_name.head? = some '.'
    · have hskip : (countEntry pid (n.bmod (2 ^ 32)) d_name).val = n.bmod (2 ^ 32) := by
        simp [countEntry, hdot]
      rw [hskip, ih, List.countP_cons_of_neg (by simp [hdot])]
    · have hcount : (countEntry pid (n.bmod (2 ^ 32)) d_name).val = (n + 1).bmod (2 ^ 32) := by
        rw [countEntry, if_neg hdot, ← succInt_bmod]
        rfl
      rw [hcount, ih, List.countP_cons_of_pos (by simp [hdot])]
      congr 1
      omega

/-- A number does not start with a dot. -/
theorem head_toDigits (fd : ℕ) : (Nat.toDigits 10 fd).head? ≠ some '.' := by
  intro h
  have hdigit := Nat.isDigit_of_mem_toDigits (by decide) (by decide) (List.mem_of_head? h)
  exact absurd hdigit (by decide)

section Open

variable {sys : FdSystem} {rlim_cur : UInt64} {S : Finset ℕ} {dirfd : ℕ} {pid : ℤ}

/-- **The directory has one entry for each descriptor, and one for its own**, up to the size of an
`int`. -/
theorem OpenFds.count_open_files_val (h : OpenFds sys rlim_cur S dirfd pid) :
    (count_open_files sys pid).val = ((S.card : ℤ) + 1).bmod (2 ^ 32) := by
  obtain ⟨names, hnames, hlist⟩ := h.listed
  have hcount : names.countP (fun d_name => d_name.head? ≠ some '.') = S.card + 1 := by
    rw [← Finset.card_insert_of_notMem h.notMem]
    have hlist' := congrArg (Multiset.countP fun d_name => d_name.head? ≠ some '.') hlist
    rw [Multiset.coe_countP, Multiset.countP_cons_of_neg _ (by simp),
      Multiset.countP_cons_of_neg _ (by simp), Multiset.countP_map] at hlist'
    rw [Multiset.filter_eq_self.mpr fun fd _ => head_toDigits fd] at hlist'
    exact hlist'
  have hfold := foldlM_countEntry pid names 0
  rw [hcount, Int.zero_add, Int.zero_bmod] at hfold
  obtain ⟨rlim_max, hlimit⟩ := h.limit
  simp only [count_open_files, hlimit, hnames, Traced.bind_val]
  exact hfold

/-! ### Trying the numbers -/

/-- The limit as an `int` is one. -/
theorem toInt_lt (n : UInt64) : toInt n < 2 ^ 31 :=
  Int.bmod_lt (by decide)

theorem succInt_of_lt {n : ℕ} (h : (n : ℤ) < 2 ^ 31 - 1) : succInt n = (n + 1 : ℕ) :=
  Int.bmod_eq_of_le (by omega) (by omega)

/-- **A turn of the loop at a number below the limit** counts it if it is open. -/
theorem OpenFds.probeTurn_lt (h : OpenFds sys rlim_cur S dirfd pid) (rl : Rlimit) {n : ℕ}
    (hn : (n : ℤ) < toInt rl.rlim_cur) :
    (probeTurn sys rl ⟨n, Nat.count (· ∈ S) n⟩).val =
      .inl ⟨(n + 1 : ℕ), Nat.count (· ∈ S) (n + 1)⟩ := by
  have hlimit := toInt_lt rl.rlim_cur
  have hcount : Nat.count (· ∈ S) n ≤ n := Nat.count_le _
  have hopen : ((sys.fcntl n).1 ≠ -1 ∨ (sys.fcntl n).2 ≠ EBADF) ↔ n ∈ S := by
    have hfcntl := h.fcntl n (by omega)
    rw [Prod.ext_iff] at hfcntl
    rw [← not_and_or, hfcntl, not_not]
  have hfd : succInt n = (n + 1 : ℕ) := succInt_of_lt (by omega)
  rw [probeTurn, if_pos hn, Traced.bind_val, Nat.count_succ]
  simp only [hopen]
  by_cases hmem : n ∈ S
  · have hsucc : succInt (Nat.count (· ∈ S) n) = (Nat.count (· ∈ S) n + 1 : ℕ) :=
      succInt_of_lt (by omega)
    simp only [hmem, if_true, hfd, hsucc]
    rfl
  · simp only [hmem, if_false, hfd]
    rfl

/-- At the limit the loop leaves. -/
theorem probeTurn_ge (sys : FdSystem) (rl : Rlimit) {fd count : ℤ} (h : toInt rl.rlim_cur ≤ fd) :
    (probeTurn sys rl ⟨fd, count⟩).val = .inr count := by
  rw [probeTurn, if_neg (Int.not_lt.mpr h)]
  rfl

/-- **The loop leaves with the number of descriptors below the limit**, if that is one. -/
theorem OpenFds.run_probeTurn (h : OpenFds sys rlim_cur S dirfd pid) (rl : Rlimit) :
    ∃ n, ∀ fuel ≥ n, (run (probeTurn sys rl) fuel ⟨0, 0⟩).val =
      some (Nat.count (· ∈ S) (toInt rl.rlim_cur).toNat : ℤ) := by
  let Inv (s : Probe) : Prop :=
    ∃ n : ℕ, n ≤ (toInt rl.rlim_cur).toNat ∧ s = ⟨n, Nat.count (· ∈ S) n⟩
  have hround : ∀ s s', Inv s → (probeTurn sys rl s).val = .inl s' →
      Inv s' ∧ (toInt rl.rlim_cur - s'.fd).toNat < (toInt rl.rlim_cur - s.fd).toNat := by
    rintro _ s' ⟨n, hn, rfl⟩ hturn
    rcases Int.lt_or_le (n : ℤ) (toInt rl.rlim_cur) with hlt | hge
    · rw [h.probeTurn_lt rl hlt] at hturn
      obtain rfl := Sum.inl.inj hturn
      refine ⟨⟨n + 1, by omega, rfl⟩, ?_⟩
      dsimp only
      omega
    · rw [probeTurn_ge sys rl hge] at hturn
      cases hturn
  have hstart : Inv ⟨0, 0⟩ := ⟨0, Nat.zero_le _, by rw [Nat.count_zero]; rfl⟩
  obtain ⟨ss, r, htrail, -⟩ := exists_trail_of_measure
    (fun s : Probe => (toInt rl.rlim_cur - s.fd).toNat) hround hstart
  -- the turn that leaves is at the limit
  obtain ⟨s, hmem, hturn⟩ := htrail.leaves
  obtain ⟨n, hn, rfl⟩ := htrail.forall_mem (fun s s' hs ht => (hround s s' hs ht).1) hstart s hmem
  rcases Int.lt_or_le (n : ℤ) (toInt rl.rlim_cur) with hlt | hge
  · rw [h.probeTurn_lt rl hlt] at hturn
    cases hturn
  · rw [probeTurn_ge sys rl hge] at hturn
    have hlast : (toInt rl.rlim_cur).toNat = n := by omega
    refine ⟨ss.length, fun fuel hfuel => ?_⟩
    rw [htrail.run hfuel, hlast, Sum.inr.inj hturn]

theorem OpenFds.count_open_files_by_fcntl_val (h : OpenFds sys rlim_cur S dirfd pid)
    (maxfds : Bool) : ∃ n, ∀ fuel ≥ n, (count_open_files_by_fcntl sys maxfds fuel).val =
      some ⟨Nat.count (· ∈ S) (toInt rlim_cur).toNat,
        if maxfds then some (toInt rlim_cur) else none⟩ := by
  obtain ⟨rlim_max, hlimit⟩ := h.limit
  obtain ⟨n, hrun⟩ := h.run_probeTurn ⟨rlim_cur, rlim_max⟩
  refine ⟨n, fun fuel hfuel => ?_⟩
  simp only [count_open_files_by_fcntl, hlimit, Traced.bind_val, hrun fuel hfuel]
  rfl

end Open

/-! ### Both -/

/-- All of a set are counted below `n` exactly if all are below `n`. -/
theorem count_mem_eq_card {S : Finset ℕ} {n : ℕ} :
    Nat.count (· ∈ S) n = S.card ↔ ∀ fd ∈ S, fd < n := by
  have hfilter : (Finset.range n).filter (· ∈ S) = S.filter (· < n) := by
    ext fd
    rw [Finset.mem_filter, Finset.mem_filter, Finset.mem_range, and_comm]
  rw [Nat.count_eq_card_filter_range, hfilter, Finset.card_filter_eq_iff]

/-- **The two ways of counting agree exactly where the limit is above the descriptors as an `int`,
too**, and their number, and one, is an `int`. -/
theorem countsAgree_iff {sys : FdSystem} {rlim_cur : UInt64} {S : Finset ℕ} {dirfd : ℕ} {pid : ℤ}
    (h : OpenFds sys rlim_cur S dirfd pid) :
    CountsAgree sys S pid ↔ (∀ fd ∈ S, (fd : ℤ) < toInt rlim_cur) ∧ S.card + 1 < 2 ^ 31 := by
  have hbelow : (∀ fd ∈ S, (fd : ℤ) < toInt rlim_cur) ↔ ∀ fd ∈ S, fd < (toInt rlim_cur).toNat :=
    forall₂_congr fun fd _ => Int.lt_toNat.symm
  constructor
  · rintro ⟨hfcntl, hproc⟩
    constructor
    · obtain ⟨n, hcount⟩ := hfcntl true
      obtain ⟨n', hval⟩ := h.count_open_files_by_fcntl_val true
      obtain ⟨c, hc, hcard, -, -⟩ := hcount (max n n') (Nat.le_max_left n n')
      rw [hval (max n n') (Nat.le_max_right n n')] at hc
      obtain rfl := Option.some.inj hc
      rw [hbelow, ← count_mem_eq_card]
      exact Int.ofNat_inj.mp hcard
    · rw [h.count_open_files_val] at hproc
      have hlt : ((S.card : ℤ) + 1).bmod (2 ^ 32) < 2 ^ 31 := Int.bmod_lt (by decide)
      omega
  · rintro ⟨hlt, hcard⟩
    refine ⟨fun maxfds => ?_, ?_⟩
    · obtain ⟨n, hval⟩ := h.count_open_files_by_fcntl_val maxfds
      refine ⟨n, fun fuel hfuel => ⟨_, hval fuel hfuel, ?_, ?_, ?_⟩⟩
      · exact Int.ofNat_inj.mpr (count_mem_eq_card.mpr (hbelow.mp hlt))
      · cases maxfds
        · rfl
        · rfl
      · intro max hmax fd hfd
        cases maxfds
        · cases hmax
        · obtain rfl := Option.some.inj hmax
          exact le_of_lt (hlt fd hfd)
    · rw [h.count_open_files_val]
      exact Int.bmod_eq_of_le (by omega) (by omega)

/-- A process with three descriptors open, whose soft limit is `rlim_cur`. -/
def threeFds (rlim_cur : UInt64) : FdSystem where
  getrlimit := some ⟨rlim_cur, rlim_cur⟩
  fcntl fd := if 0 ≤ fd ∧ fd ≤ 2 then (0, 0) else (-1, EBADF)
  opendir path := if path = fdPath 77 then
    some [['.'], ['.', '.'], ['0'], ['1'], ['2'], ['3']] else none

theorem openFds_threeFds (rlim_cur : UInt64) (h : 2 < rlim_cur.toNat) :
    OpenFds (threeFds rlim_cur) rlim_cur {0, 1, 2} 3 77 where
  limit := ⟨rlim_cur, rfl⟩
  lt fd hfd := by
    simp only [Finset.mem_insert, Finset.mem_singleton] at hfd
    omega
  fcntl fd hfd := by
    simp only [threeFds, Finset.mem_insert, Finset.mem_singleton]
    split
    next => simp [EBADF]; omega
    next => simp; omega
  notMem := by decide
  listed := by
    refine ⟨[['.'], ['.', '.'], ['0'], ['1'], ['2'], ['3']], ?_, by decide⟩
    simp only [threeFds, if_true]

/-- Below a limit of 1024 the three are found both ways. -/
theorem countsAgree_iff_threeFds : CountsAgree (threeFds 1024) {0, 1, 2} 77 :=
  (countsAgree_iff (openFds_threeFds 1024 (by decide))).mpr ⟨by decide, by decide⟩

/-- Without a limit, which is `2 ^ 64 - 1`, none is found by trying. -/
theorem not_countsAgree_unlimited : OpenFds (threeFds 0xffffffffffffffff) 0xffffffffffffffff
    {0, 1, 2} 3 77 ∧ ¬ CountsAgree (threeFds 0xffffffffffffffff) {0, 1, 2} 77 := by
  have hopen := openFds_threeFds 0xffffffffffffffff (by decide)
  refine ⟨hopen, fun h => ?_⟩
  obtain ⟨n, hcount⟩ := h.byFcntl true
  obtain ⟨n', hval⟩ := hopen.count_open_files_by_fcntl_val true
  obtain ⟨c, hc, hcard, -⟩ := hcount (max n n') (Nat.le_max_left n n')
  rw [hval (max n n') (Nat.le_max_right n n')] at hc
  obtain rfl := Option.some.inj hc
  exact absurd hcard (by decide)

end StudyTips
