import StudyTips.SftpDir

/-!
# What a run of `sftpdir` tries and shows

The fifth argument and the list of the server decide which method is tried
(`method_authPw`), and a run tries no other (`sftpdir_tries`). Of what the server lists,
every entry is printed, and where it ends the program does (`sftpdir_lists`).
-/

namespace StudyTips

namespace SftpDir

open CString

/-! ## The method -/

/-- The name of a method in a list of methods. -/
def Method.name : Method → Str
  | .password => passwordName
  | .keyboardInteractive => keyboardInteractiveName
  | .publickey => publickeyName

/-- The method a fifth argument asks for. -/
def optionMethod (opt : Str) : Option Method :=
  if strcaseEq opt [0x2d, 0x70] then some .password
  else if strcaseEq opt [0x2d, 0x69] then some .keyboardInteractive
  else if strcaseEq opt [0x2d, 0x6b] then some .publickey
  else none

/-- **The method there ought to be**: the one the fifth argument asks for if it is offered,
else the first that is. -/
def preferred (userauthlist : Str) (option : Option Str) : Option Method :=
  ((option.bind optionMethod).filter fun m => strstr userauthlist m.name).or
    ([.password, .keyboardInteractive, .publickey].find? fun m : Method =>
      strstr userauthlist m.name)

/-- A text is equal to one only, up to case. -/
theorem strcaseEq_false {s t t' : Str} (h : strcaseEq s t = true)
    (hne : t.map strcaseEq.tolower ≠ t'.map strcaseEq.tolower) : strcaseEq s t' = false := by
  rw [strcaseEq, beq_iff_eq] at h
  rw [strcaseEq, h]
  exact beq_eq_false_iff_ne.mpr hne

/-- The fifth argument is the flag of the method it asks for, and of no other. -/
theorem strcaseEq_flags (opt : Str) :
    strcaseEq opt [0x2d, 0x70] = decide (optionMethod opt = some .password) ∧
      strcaseEq opt [0x2d, 0x69] = decide (optionMethod opt = some .keyboardInteractive) ∧
      strcaseEq opt [0x2d, 0x6b] = decide (optionMethod opt = some .publickey) := by
  rw [optionMethod]
  cases hp : strcaseEq opt [0x2d, 0x70] with
  | true =>
    have hi : strcaseEq opt [0x2d, 0x69] = false := strcaseEq_false hp (by decide)
    have hk : strcaseEq opt [0x2d, 0x6b] = false := strcaseEq_false hp (by decide)
    rw [hi, hk]
    decide
  | false =>
    cases hi : strcaseEq opt [0x2d, 0x69] with
    | true =>
      have hk : strcaseEq opt [0x2d, 0x6b] = false := strcaseEq_false hi (by decide)
      rw [hk]
      decide
    | false => cases strcaseEq opt [0x2d, 0x6b] <;> decide

/-- **The flags say which method is tried.** -/
theorem method_authPw (userauthlist : Str) (option : Option Str) :
    method (authPw userauthlist option) = preferred userauthlist option := by
  unfold authPw preferred
  cases option with
  | none =>
    dsimp only [List.find?, Method.name]
    cases strstr userauthlist passwordName <;>
      cases strstr userauthlist keyboardInteractiveName <;>
        cases strstr userauthlist publickeyName <;> rfl
  | some opt =>
    obtain ⟨hp, hi, hk⟩ := strcaseEq_flags opt
    rw [show (some opt).bind optionMethod = optionMethod opt from rfl]
    dsimp only
    rw [hp, hi, hk]
    -- what is left depends on the method asked for and on what the list offers
    rcases optionMethod opt with _ | _ | _ | _ <;>
      dsimp only [List.find?, Method.name, Option.filter_none, Option.filter_some] <;>
      cases strstr userauthlist passwordName <;>
        cases strstr userauthlist keyboardInteractiveName <;>
          cases strstr userauthlist publickeyName <;> decide

/-! ## The two parts of a run -/

variable {p : Peer} {s : Settings} {fuel : ℕ}

/-- The calls before a session is up. -/
def opening (p : Peer) (s : Settings) : List Call :=
  [.init p.init, .socket p.socket, .connect s.hostaddr (p.connect s.hostaddr),
    .session_init p.session_init, .handshake p.handshake]

/-- A session that comes up goes on to the login. -/
theorem sftpdir_connects (h : p.Connects s) :
    sftpdir p s fuel = ⟨(login p s fuel).val, opening p s ++ (login p s fuel).log⟩ := by
  obtain ⟨hinit, hconnect, hsession, hhandshake⟩ := h
  rw [sftpdir, if_neg (not_not.mpr hinit), if_neg (not_not.mpr hconnect), hsession,
    if_neg (by decide), if_neg (not_not.mpr hhandshake)]
  refine Traced.ext rfl ?_
  rw [opening, hsession]
  rfl

/-- A run in which no session comes up makes no call behind those of `opening`. -/
theorem sftpdir_connects_not (h : ¬ p.Connects s) :
    (sftpdir p s fuel).val = some (.returns (if p.init = 0 then -1 else 1)) ∧
      (sftpdir p s fuel).log <+: opening p s := by
  rw [sftpdir, opening]
  by_cases hinit : p.init = 0
  case neg =>
    rw [if_pos hinit, if_neg hinit]
    exact ⟨rfl, _, rfl⟩
  rw [if_neg (not_not.mpr hinit), if_pos hinit]
  by_cases hconnect : p.connect s.hostaddr = 0
  case neg =>
    rw [if_pos hconnect]
    exact ⟨rfl, _, rfl⟩
  rw [if_neg (not_not.mpr hconnect)]
  cases hsession : p.session_init with
  | false => exact ⟨rfl, _, rfl⟩
  | true =>
    have hhandshake : p.handshake ≠ 0 := fun h0 => h ⟨hinit, hconnect, hsession, h0⟩
    rw [if_neg (by decide), if_pos hhandshake]
    exact ⟨rfl, _, rfl⟩

/-- What the first part has none of, a run without a session has none of. -/
theorem filterMap_of_connects_not {X : Type} {f : Call → Option X} (h : ¬ p.Connects s)
    (hf : (opening p s).filterMap f = []) : (sftpdir p s fuel).log.filterMap f = [] :=
  List.prefix_nil.mp (hf ▸ (sftpdir_connects_not h).2.filterMap f)

/-! ## What is tried -/

/-- The attempt to authenticate that a call is. -/
def Call.attempt : Call → Option (Method × Str × ℤ)
  | .userauth method username rc => some (method, username, rc)
  | _ => none

/-- The method for what a session that came up offers. -/
def Peer.offers (p : Peer) (s : Settings) : Option Method :=
  if p.hostkey_hash = none then none
  else (p.userauth_list s.username).bind fun userauthlist => preferred userauthlist s.option

/-- Entries are read without an attempt. -/
theorem all_readTurn_attempt (fuel : ℕ) :
    (Loop.run (readTurn p) fuel 0).All fun c => c.attempt = none := by
  have hturn : ∀ i, True → (readTurn p i).All fun c => c.attempt = none := by
    intro i _
    rw [readTurn]
    refine Traced.all_bind.mpr ⟨Traced.all_emit.mpr rfl, ?_⟩
    split
    · exact Traced.all_bind.mpr ⟨Traced.all_emit.mpr rfl, Traced.all_pure _⟩
    · exact Traced.all_pure _
  exact Loop.all_run hturn (fun _ _ _ _ => trivial) fuel trivial

/-- Nothing is tried behind the authentication. -/
theorem attempts_list (fuel : ℕ) : (list p s fuel).log.filterMap Call.attempt = [] := by
  rw [list]
  cases p.sftp_init with
  | false => rfl
  | true =>
    cases hopen : p.sftp_opendir s.sftppath with
    | false => rfl
    | true =>
      have hloop : (Loop.run (readTurn p) fuel 0).log.filterMap Call.attempt = [] :=
        List.filterMap_eq_nil_iff.mpr (all_readTurn_attempt fuel)
      simp only [Bool.not_true, Bool.false_eq_true, if_false, Traced.bind_log, Traced.emit_log,
        List.filterMap_append, hloop]
      cases (Loop.run (readTurn p) fuel 0).val with
      | none => rfl
      | some u => rfl

/-- What is tried with a session that is up. -/
theorem attempts_login : (login p s fuel).log.filterMap Call.attempt =
    (p.offers s).toList.map fun m => (m, s.username, p.userauth s m) := by
  rw [login, Peer.offers]
  cases p.hostkey_hash with
  | none => rfl
  | some fingerprint =>
    rw [if_neg (Option.some_ne_none fingerprint)]
    cases p.userauth_list s.username with
    | none => rfl
    | some userauthlist =>
      dsimp only [Option.bind_some]
      rw [← method_authPw, authenticate]
      cases method (authPw userauthlist s.option) with
      | none => rfl
      | some m =>
        cases hok : p.userauth s m == 0 with
        | false =>
          simp only [Traced.bind_log, Traced.emit_log, Traced.bind_val, hok]
          rfl
        | true =>
          simp only [Traced.bind_log, Traced.emit_log, Traced.bind_val, hok, Traced.pure_val,
            if_true, Traced.pure_log, List.append_nil]
          exact congrArg (List.cons _) (attempts_list fuel)

/-- **Every run tries one method at most**: the preferred one of what the server offers, with
the user's name, once a session has come up. -/
theorem sftpdir_tries (p : Peer) (s : Settings) (fuel : ℕ) :
    (p.Connects s → (sftpdir p s fuel).log.filterMap Call.attempt =
      (p.offers s).toList.map fun m => (m, s.username, p.userauth s m)) ∧
    (¬ p.Connects s → (sftpdir p s fuel).log.filterMap Call.attempt = []) := by
  refine ⟨fun h => ?_, fun h => filterMap_of_connects_not h rfl⟩
  rw [sftpdir_connects h, List.filterMap_append, attempts_login]
  rfl

/-- A server that takes every password and lists a directory of two entries. -/
def twoEntries : Peer where
  init := 0
  socket := 3
  connect _ := 0
  session_init := true
  handshake := 0
  hostkey_hash := some (Vector.replicate 20 0)
  userauth_list _ := some passwordName
  userauth_password _ _ := 0
  userauth_keyboard_interactive _ _ := -1
  userauth_publickey_fromfile _ _ _ _ := -1
  sftp_init := true
  sftp_opendir _ := true
  readdir i := ⟨if i < 2 then 1 else 0, [0x61], [], attrSize, 10, 0, 0⟩
  connect_of_socket h := absurd h (by decide)

/-- The password is tried, and nothing else. -/
theorem sftpdir_tries_twoEntries :
    (sftpdir twoEntries (settings (fun _ => 0) 0 []) 3).log.filterMap Call.attempt =
      [(.password, defaultUsername, 0)] := by
  have hoffers : twoEntries.offers (settings (fun _ => 0) 0 []) = some .password := by decide
  rw [(sftpdir_tries twoEntries (settings (fun _ => 0) 0 []) 3).1 ⟨rfl, rfl, rfl, rfl⟩, hoffers]
  rfl

/-! ## What is shown -/

/-- The line that a call prints. -/
def Call.printed : Call → Option Str
  | .line text => some text
  | _ => none

/-- The run comes to the listing. -/
def Peer.Lists (p : Peer) (s : Settings) : Prop :=
  p.Connects s ∧ p.hostkey_hash ≠ none ∧ p.Authenticates s ∧ p.sftp_init = true ∧
    p.sftp_opendir s.sftppath = true

/-- How a run ends: by the session only, not by what is done with it. -/
def ending (p : Peer) (s : Settings) : Outcome :=
  if p.init ≠ 0 then .returns 1
  else if p.connect s.hostaddr ≠ 0 ∨ p.session_init = false ∨ p.handshake ≠ 0 then .returns (-1)
  else if p.hostkey_hash = none ∨ p.userauth_list s.username = none then .undefined
  else .returns 0

/-- The loop takes a turn for every entry, and one more. -/
theorem trail_readTurn {n : ℕ} (hentry : ∀ i < n, 0 < (p.readdir i).rc)
    (hend : (p.readdir n).rc ≤ 0) :
    ∀ k ≤ n, Loop.Trail (readTurn p) (n - k) (List.range' (n - k) (k + 1)) () := by
  intro k
  induction k with
  | zero =>
    intro _
    refine .leave ?_
    rw [Nat.sub_zero, readTurn, if_neg (by omega)]
    rfl
  | succ k ih =>
    intro hk
    have hnext : n - k = n - (k + 1) + 1 := by omega
    rw [List.range'_succ]
    refine .round ?_ (hnext ▸ ih (by omega))
    rw [readTurn, if_pos (hentry _ (by omega))]
    rfl

/-- What the turns print. -/
theorem printed_readTurn {n : ℕ} (hentry : ∀ i < n, 0 < (p.readdir i).rc)
    (hend : (p.readdir n).rc ≤ 0) :
    ((List.range (n + 1)).flatMap fun i => (readTurn p i).log).filterMap Call.printed =
      (List.range n).map fun i => entryLine (p.readdir i) := by
  have hlast : (readTurn p n).log.filterMap Call.printed = [] := by
    rw [readTurn, if_neg (by omega)]
    rfl
  have hturn : ∀ i ∈ List.range n, (readTurn p i).log.filterMap Call.printed =
      [entryLine (p.readdir i)] := fun i hi => by
    rw [readTurn, if_pos (hentry i (List.mem_range.mp hi))]
    rfl
  rw [List.range_succ, List.flatMap_append, List.filterMap_append, List.flatMap_singleton, hlast,
    List.append_nil, List.filterMap_flatMap, List.flatMap_congr hturn]
  exact List.flatMap_pure_eq_map ..

/-- What the part behind the authentication prints, and that it comes to its end. -/
theorem list_shows {n : ℕ} (hentry : ∀ i < n, 0 < (p.readdir i).rc) (hend : (p.readdir n).rc ≤ 0)
    (hfuel : n < fuel) :
    (list p s fuel).val = some (.returns 0) ∧ (list p s fuel).log.filterMap Call.printed =
      if p.sftp_init ∧ p.sftp_opendir s.sftppath then
        (List.range n).map fun i => entryLine (p.readdir i) else [] := by
  rw [list]
  cases p.sftp_init with
  | false => exact ⟨rfl, rfl⟩
  | true =>
    cases p.sftp_opendir s.sftppath with
    | false => exact ⟨rfl, rfl⟩
    | true =>
      have hrun : Loop.run (readTurn p) fuel 0 =
          ⟨some (), (List.range (n + 1)).flatMap fun i => (readTurn p i).log⟩ := by
        have htrail := trail_readTurn hentry hend n (Nat.le_refl n)
        rw [Nat.sub_self, ← List.range_eq_range'] at htrail
        exact htrail.run (by rw [List.length_range]; exact hfuel)
      rw [hrun]
      refine ⟨rfl, ?_⟩
      simp only [Bool.not_true, Bool.false_eq_true, if_false, Traced.bind_log, Traced.emit_log,
        List.filterMap_append, printed_readTurn hentry hend]
      exact List.append_nil _

/-- What is printed with a session that is up, and how it ends. -/
theorem login_shows {n : ℕ} (hentry : ∀ i < n, 0 < (p.readdir i).rc)
    (hend : (p.readdir n).rc ≤ 0) (hfuel : n < fuel) :
    (login p s fuel).val = some (if p.hostkey_hash = none ∨ p.userauth_list s.username = none then
        .undefined else .returns 0) ∧
      (p.hostkey_hash ≠ none ∧ p.Authenticates s ∧ p.sftp_init = true ∧
          p.sftp_opendir s.sftppath = true →
        (login p s fuel).log.filterMap Call.printed =
          (List.range n).map fun i => entryLine (p.readdir i)) ∧
      (¬ (p.hostkey_hash ≠ none ∧ p.Authenticates s ∧ p.sftp_init = true ∧
          p.sftp_opendir s.sftppath = true) →
        (login p s fuel).log.filterMap Call.printed = []) := by
  obtain ⟨hval, hlog⟩ := list_shows (s := s) hentry hend hfuel
  rw [login]
  cases p.hostkey_hash with
  | none => exact ⟨rfl, fun h => absurd rfl h.1, fun _ => rfl⟩
  | some fingerprint =>
    cases hlist : p.userauth_list s.username with
    | none =>
      refine ⟨rfl, ?_, fun _ => rfl⟩
      rintro ⟨-, ⟨userauthlist, hsome, -⟩, -⟩
      rw [hlist] at hsome
      cases hsome
    | some userauthlist =>
      have hauth : p.Authenticates s ↔ ∃ m, method (authPw userauthlist s.option) = some m ∧
          p.userauth s m = 0 := by simp [Peer.Authenticates, hlist]
      -- the attempt prints nothing, and its value says whether the user is let in
      have hprint : (authenticate p s (authPw userauthlist s.option)).log.filterMap Call.printed =
          [] := by
        rw [authenticate]
        cases method (authPw userauthlist s.option) with
        | none => rfl
        | some m => rfl
      obtain ⟨_, _, hok, -⟩ := keeps_authenticate s (authPw userauthlist s.option)
      rw [← hauth] at hok
      simp only [Traced.bind_log, Traced.bind_val, Traced.emit_log, List.filterMap_append, hprint]
      cases hgoes : (authenticate p s (authPw userauthlist s.option)).val with
      | false =>
        rw [hgoes] at hok
        exact ⟨rfl, fun h => absurd (hok.mpr h.2.1) (by decide), fun _ => rfl⟩
      | true =>
        rw [hgoes] at hok
        rw [if_pos rfl, hlog]
        refine ⟨hval, fun h => ?_, fun h => ?_⟩
        · rw [if_pos h.2.2]
          rfl
        · rw [if_neg fun hopen => h ⟨Option.some_ne_none fingerprint, hok.mp rfl, hopen⟩]
          rfl

/-- **The listing**: every entry up to the first call that gives none is printed, in order and
once, if the listing is come to, and nothing else is. How the program ends tells
nothing of it: that is decided by the session. -/
theorem sftpdir_lists (s : Settings) {n : ℕ} (hentry : ∀ i < n, 0 < (p.readdir i).rc)
    (hend : (p.readdir n).rc ≤ 0) (hfuel : n < fuel) :
    (p.Lists s → (sftpdir p s fuel).log.filterMap Call.printed =
      (List.range n).map fun i => entryLine (p.readdir i)) ∧
    (¬ p.Lists s → (sftpdir p s fuel).log.filterMap Call.printed = []) ∧
    (sftpdir p s fuel).val = some (ending p s) := by
  obtain ⟨hval, hlists, hnot⟩ := login_shows (s := s) hentry hend hfuel
  by_cases h : p.Connects s
  case neg =>
    refine ⟨fun hl => absurd hl.1 h, fun _ => filterMap_of_connects_not h rfl, ?_⟩
    rw [(sftpdir_connects_not h).1, ending]
    by_cases hinit : p.init = 0
    · rw [if_pos hinit, if_neg (not_not.mpr hinit), if_pos]
      by_contra hup
      simp only [not_or, not_not, Bool.not_eq_false] at hup
      exact h ⟨hinit, hup⟩
    · rw [if_neg hinit, if_pos hinit]
  rw [sftpdir_connects h, List.filterMap_append]
  refine ⟨fun hl => by rw [hlists hl.2]; rfl, fun hl => ?_, ?_⟩
  · rw [hnot fun hl' => hl ⟨h, hl'⟩]
    rfl
  · obtain ⟨hinit, hconnect, hsession, hhandshake⟩ := h
    have hup : ¬ (p.connect s.hostaddr ≠ 0 ∨ p.session_init = false ∨ p.handshake ≠ 0) := by
      simp [hconnect, hsession, hhandshake]
    rw [hval, ending, if_neg (not_not.mpr hinit), if_neg hup]

/-- Two lines, from a server that lists two entries. -/
theorem sftpdir_lists_twoEntries :
    (sftpdir twoEntries (settings (fun _ => 0) 0 []) 3).log.filterMap Call.printed =
      [entryLine (twoEntries.readdir 0), entryLine (twoEntries.readdir 1)] ∧
    (sftpdir twoEntries (settings (fun _ => 0) 0 []) 3).val = some (.returns 0) := by
  have hlists : twoEntries.Lists (settings (fun _ => 0) 0 []) :=
    ⟨⟨rfl, rfl, rfl, rfl⟩, Option.some_ne_none _, ⟨passwordName, rfl, .password, by decide, rfl⟩,
      rfl, rfl⟩
  have hentry : ∀ i < 2, 0 < (twoEntries.readdir i).rc := by decide
  obtain ⟨hlines, -, hval⟩ := sftpdir_lists (settings (fun _ => 0) 0 []) hentry (by decide)
    (Nat.lt_succ_self 2)
  exact ⟨hlines hlists, hval⟩

end SftpDir

end StudyTips
