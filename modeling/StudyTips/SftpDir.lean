import Mathlib.Data.List.Infix
import StudyTips.Printf
import StudyTips.Protocol

/-!
# `c/libssh2/sftpdir.c`: a directory listing over SFTP

The program connects, authenticates, lists a directory and takes everything down again.
What the network and the library answer is a parameter (`Peer`), and a run logs the calls
it makes with their results. Null pointers the program reads through are an outcome of
their own.

The calls of the library have an order: `allowed` says which one may be made with what is
held, and what is held behind it. `sftpdir_releases_iff` says that every run keeps to it,
and which runs give everything back.
-/

namespace StudyTips

namespace SftpDir

open CString Printf

/-! ## The command line -/

/-- The variables that `main` takes from its arguments. -/
structure Settings : Type where
  /-- `hostaddr` -/
  hostaddr : UInt32
  /-- `username` -/
  username : Str
  /-- `password` -/
  password : Str
  /-- `sftppath` -/
  sftppath : Str
  /-- `argv[5]`, if there is one -/
  option : Option Str

/-- `"username"`. -/
def defaultUsername : Str := [0x75, 0x73, 0x65, 0x72, 0x6e, 0x61, 0x6d, 0x65]

/-- `"password"`: the default password, and a name of a method. -/
def passwordName : Str := [0x70, 0x61, 0x73, 0x73, 0x77, 0x6f, 0x72, 0x64]

/-- `"/tmp/secretdir"`. -/
def defaultPath : Str :=
  [0x2f, 0x74, 0x6d, 0x70, 0x2f, 0x73, 0x65, 0x63, 0x72, 0x65, 0x74, 0x64, 0x69, 0x72]

/-- `"keyboard-interactive"`. -/
def keyboardInteractiveName : Str :=
  [0x6b, 0x65, 0x79, 0x62, 0x6f, 0x61, 0x72, 0x64, 0x2d, 0x69, 0x6e, 0x74, 0x65, 0x72, 0x61, 0x63,
    0x74, 0x69, 0x76, 0x65]

/-- `"publickey"`. -/
def publickeyName : Str := [0x70, 0x75, 0x62, 0x6c, 0x69, 0x63, 0x6b, 0x65, 0x79]

/-- `"~/.ssh/id_rsa"`. -/
def keyfile2 : Str := [0x7e, 0x2f, 0x2e, 0x73, 0x73, 0x68, 0x2f, 0x69, 0x64, 0x5f, 0x72, 0x73, 0x61]

/-- `"~/.ssh/id_rsa.pub"`. -/
def keyfile1 : Str := keyfile2 ++ [0x2e, 0x70, 0x75, 0x62]

/-- The arguments, with what is taken where they end; `loopback` is `htonl(0x7F000001)`. -/
def settings (inet_addr : Str → UInt32) (loopback : UInt32) (argv : List Str) : Settings where
  hostaddr := (argv[1]?.map inet_addr).getD loopback
  username := argv[2]?.getD defaultUsername
  password := argv[3]?.getD passwordName
  sftppath := argv[4]?.getD defaultPath
  option := argv[5]?

/-! ## The other side -/

/-- A method of authentication. -/
inductive Method : Type where
  /-- `libssh2_userauth_password` -/
  | password
  /-- `libssh2_userauth_keyboard_interactive` -/
  | keyboardInteractive
  /-- `libssh2_userauth_publickey_fromfile` -/
  | publickey
  deriving DecidableEq

/-- What `libssh2_sftp_readdir_ex` returns and stores. -/
structure ReadDir : Type where
  /-- the return value -/
  rc : ℤ
  /-- `mem` -/
  mem : Str
  /-- `longentry` -/
  longentry : Str
  /-- `attrs.flags` -/
  flags : UInt64
  /-- `attrs.filesize` -/
  filesize : UInt64
  /-- `attrs.uid` -/
  uid : UInt64
  /-- `attrs.gid` -/
  gid : UInt64

/-- What the system, the library and the server answer. -/
structure Peer : Type where
  /-- `libssh2_init` -/
  init : ℤ
  /-- `socket` -/
  socket : ℤ
  /-- `connect` -/
  connect : UInt32 → ℤ
  /-- whether `libssh2_session_init` returns a session -/
  session_init : Bool
  /-- `libssh2_session_handshake` -/
  handshake : ℤ
  /-- `libssh2_hostkey_hash` -/
  hostkey_hash : Option (Vector UInt8 20)
  /-- `libssh2_userauth_list` -/
  userauth_list : Str → Option Str
  /-- `libssh2_userauth_password` -/
  userauth_password : Str → Str → ℤ
  /-- `libssh2_userauth_keyboard_interactive`, with what the callback answers to a number
  of prompts -/
  userauth_keyboard_interactive : Str → (ℤ → Option Str) → ℤ
  /-- `libssh2_userauth_publickey_fromfile` -/
  userauth_publickey_fromfile : Str → Str → Str → Str → ℤ
  /-- whether `libssh2_sftp_init` returns a session -/
  sftp_init : Bool
  /-- whether `libssh2_sftp_opendir` returns a handle -/
  sftp_opendir : Str → Bool
  /-- the calls of `libssh2_sftp_readdir_ex`, one after the other -/
  readdir : ℕ → ReadDir
  /-- nothing is connected with a socket that could not be made -/
  connect_of_socket : socket < 0 → ∀ a, connect a ≠ 0

/-- `kbd_callback`: the answer to a single prompt is the password, to more there is none. -/
def kbd_callback (password : Str) (num_prompts : ℤ) : Option Str :=
  if num_prompts = 1 then some password else none

/-- A call, with its result. -/
inductive Call : Type where
  /-- `libssh2_init` -/
  | init (rc : ℤ)
  /-- `socket` -/
  | socket (sock : ℤ)
  /-- `connect` -/
  | connect (hostaddr : UInt32) (rc : ℤ)
  /-- `libssh2_session_init` -/
  | session_init (ok : Bool)
  /-- `libssh2_session_handshake` -/
  | handshake (rc : ℤ)
  /-- `libssh2_hostkey_hash` -/
  | hostkey_hash
  /-- `libssh2_userauth_list` -/
  | userauth_list (username : Str)
  /-- one of the three functions for authentication -/
  | userauth (method : Method) (username : Str) (rc : ℤ)
  /-- `libssh2_sftp_init` -/
  | sftp_init (ok : Bool)
  /-- `libssh2_session_set_blocking` -/
  | set_blocking
  /-- `libssh2_sftp_opendir` -/
  | sftp_opendir (path : Str) (ok : Bool)
  /-- `libssh2_sftp_readdir_ex` -/
  | sftp_readdir
  /-- `libssh2_sftp_closedir` -/
  | sftp_closedir
  /-- `libssh2_sftp_shutdown` -/
  | sftp_shutdown
  /-- `libssh2_session_disconnect` -/
  | session_disconnect
  /-- `libssh2_session_free` -/
  | session_free
  /-- `close` -/
  | close
  /-- `libssh2_exit` -/
  | exit
  /-- a line is printed -/
  | line (text : Str)

/-- How a run ends. -/
inductive Outcome : Type where
  /-- `main` returns -/
  | returns (rc : ℤ)
  /-- undefined behaviour: a null pointer is read through -/
  | undefined
  deriving DecidableEq

/-! ## Authentication -/

/-- `strcasecmp(s, t) == 0`, in the C locale. -/
def strcaseEq (s t : Str) : Bool :=
  s.map tolower == t.map tolower
where
  /-- `tolower` -/
  tolower (c : UInt8) : UInt8 := if 0x41 ≤ c ∧ c ≤ 0x5a then c + 32 else c

/-- `strstr(s, t) != NULL`. -/
def strstr (s t : Str) : Bool := decide (t <:+: s)

/-- `auth_pw` behind the list of methods and the fifth argument. -/
def authPw (userauthlist : Str) (option : Option Str) : UInt32 :=
  let auth_pw : UInt32 := 0
  let auth_pw := if strstr userauthlist passwordName then auth_pw ||| 1 else auth_pw
  let auth_pw := if strstr userauthlist keyboardInteractiveName then auth_pw ||| 2 else auth_pw
  let auth_pw := if strstr userauthlist publickeyName then auth_pw ||| 4 else auth_pw
  match option with
  | none => auth_pw
  | some opt =>
    let auth_pw :=
      if auth_pw &&& 1 ≠ 0 ∧ strcaseEq opt [0x2d, 0x70] then 1 else auth_pw -- "-p"
    let auth_pw :=
      if auth_pw &&& 2 ≠ 0 ∧ strcaseEq opt [0x2d, 0x69] then 2 else auth_pw -- "-i"
    if auth_pw &&& 4 ≠ 0 ∧ strcaseEq opt [0x2d, 0x6b] then 4 else auth_pw -- "-k"

variable (p : Peer)

/-- What a method returns. -/
def Peer.userauth (s : Settings) : Method → ℤ
  | .password => p.userauth_password s.username s.password
  | .keyboardInteractive => p.userauth_keyboard_interactive s.username (kbd_callback s.password)
  | .publickey => p.userauth_publickey_fromfile s.username keyfile1 keyfile2 s.password

/-- The method that is tried, if any. -/
def method (auth_pw : UInt32) : Option Method :=
  if auth_pw &&& 1 ≠ 0 then some .password
  else if auth_pw &&& 2 ≠ 0 then some .keyboardInteractive
  else if auth_pw &&& 4 ≠ 0 then some .publickey
  else none

/-- The attempt to authenticate: whether it goes on. -/
def authenticate (s : Settings) (auth_pw : UInt32) : Traced Call Bool :=
  match method auth_pw with
  | none => pure false
  | some m => do
    .emit (.userauth m s.username (p.userauth s m))
    pure (p.userauth s m == 0)

/-! ## The listing -/

/-- `LIBSSH2_SFTP_ATTR_SIZE`. -/
def attrSize : UInt64 := 1

/-- `LIBSSH2_SFTP_ATTR_UIDGID`. -/
def attrUidGid : UInt64 := 2

/-- `LIBSSH2_SFTP_ATTR_PERMISSIONS`. -/
def attrPermissions : UInt64 := 4

/-- What is printed of an entry. -/
def entryLine (e : ReadDir) : Str :=
  if e.longentry ≠ [] then e.longentry ++ [0x0a]
  else
    (if e.flags &&& attrPermissions ≠ 0 then
      [0x2d, 0x2d, 0x66, 0x69, 0x78, 0x2d, 0x2d, 0x2d, 0x2d, 0x2d, 0x20] -- "--fix----- "
    else List.replicate 10 0x2d ++ [0x20]) ++
    (if e.flags &&& attrUidGid ≠ 0 then
      width 4 (signedText e.uid.toInt64.toInt) ++ [0x20] ++
        width 4 (signedText e.gid.toInt64.toInt) ++ [0x20]
    else [0x20, 0x20, 0x20, 0x2d, 0x20, 0x20, 0x20, 0x20, 0x2d, 0x20]) ++ -- "   -    - "
    (if e.flags &&& attrSize ≠ 0 then width 8 (decimalText e.filesize.toNat) ++ [0x20] else []) ++
    e.mem ++ [0x0a]

/-- One turn of the loop over the entries; the state counts the calls. -/
def readTurn (i : ℕ) : Traced Call (ℕ ⊕ Unit) := do
  .emit .sftp_readdir
  if (p.readdir i).rc > 0 then
    .emit (.line (entryLine (p.readdir i)))
    pure (.inl (i + 1))
  else pure (.inr ())

/-! ## The program -/

/-- The part behind `shutdown`. -/
def shutdown : Traced Call Outcome := do
  .emit .session_disconnect
  .emit .session_free
  .emit .close
  .emit .exit
  pure (.returns 0)

/-- The part behind the authentication; `none` while entries are read. -/
def list (s : Settings) (fuel : ℕ) : Traced Call (Option Outcome) := do
  .emit (.sftp_init p.sftp_init)
  if !p.sftp_init then some <$> shutdown
  else
    .emit .set_blocking
    .emit (.sftp_opendir s.sftppath (p.sftp_opendir s.sftppath))
    if !p.sftp_opendir s.sftppath then some <$> shutdown
    else
      match ← Loop.run (readTurn p) fuel 0 with
      | none => pure none
      | some () =>
        .emit .sftp_closedir
        .emit .sftp_shutdown
        some <$> shutdown

/-- The part behind the handshake. -/
def login (s : Settings) (fuel : ℕ) : Traced Call (Option Outcome) := do
  .emit .hostkey_hash
  match p.hostkey_hash with
  | none => pure (some .undefined) -- `fingerprint[i]`
  | some _ =>
    .emit (.userauth_list s.username)
    match p.userauth_list s.username with
    | none => pure (some .undefined) -- `strstr(userauthlist, ..)`
    | some userauthlist =>
      if ← authenticate p s (authPw userauthlist s.option) then list p s fuel
      else some <$> shutdown

/-- `main` with the variables it has taken from its arguments. -/
def sftpdir (s : Settings) (fuel : ℕ) : Traced Call (Option Outcome) := do
  .emit (.init p.init)
  if p.init ≠ 0 then pure (some (.returns 1))
  else
    .emit (.socket p.socket)
    .emit (.connect s.hostaddr (p.connect s.hostaddr))
    if p.connect s.hostaddr ≠ 0 then pure (some (.returns (-1)))
    else
      .emit (.session_init p.session_init)
      if !p.session_init then pure (some (.returns (-1)))
      else
        .emit (.handshake p.handshake)
        if p.handshake ≠ 0 then pure (some (.returns (-1)))
        else login p s fuel

/-- `main`. -/
def sftpdirMain (inet_addr : Str → UInt32) (loopback : UInt32) (argv : List Str) (fuel : ℕ) :
    Traced Call (Option Outcome) :=
  sftpdir p (settings inet_addr loopback argv) fuel

/-! ## The protocol of the library -/

/-- How far a session is. -/
inductive Stage : Type where
  /-- `libssh2_session_init` has made the session -/
  | fresh
  /-- keys are exchanged -/
  | up
  /-- the server knows the user -/
  | authenticated
  deriving DecidableEq

/-- What the program has and has not given back. -/
structure Holding : Type where
  /-- the library is initialised -/
  lib : Bool
  /-- a socket is open -/
  sock : Bool
  /-- the socket is connected -/
  connected : Bool
  /-- the session, if there is one -/
  session : Option Stage
  /-- an SFTP session is open -/
  sftp : Bool
  /-- the handle of a directory is open -/
  handle : Bool
  deriving DecidableEq

/-- The program holds nothing before its first call. -/
def nothing : Holding := ⟨false, false, false, none, false, false⟩

/-- Which call may be made with what is held, and what is held behind it. An SFTP session lies on
a channel of its session: `libssh2_session_free` frees the channels, and each channel what
lies on it, so that the SFTP session goes with the session. A handle does not. -/
def allowed (h : Holding) : Call → Option Holding
  | .init rc => if h.lib then none else some { h with lib := rc = 0 }
  | .socket sock => if h.sock then none else some { h with sock := 0 ≤ sock }
  | .connect _ rc => if rc = 0 ∧ !h.sock then none else some { h with connected := rc = 0 }
  | .session_init ok =>
    if h.lib ∧ h.session = none then
      some { h with session := if ok then some .fresh else none } else none
  | .handshake rc =>
    if h.connected ∧ h.session = some .fresh then
      some { h with session := some (if rc = 0 then .up else .fresh) } else none
  | .hostkey_hash | .userauth_list _ => if h.session = some .up then some h else none
  | .userauth _ _ rc =>
    if h.session = some .up then
      some { h with session := some (if rc = 0 then .authenticated else .up) } else none
  | .sftp_init ok =>
    if h.session = some .authenticated ∧ !h.sftp then some { h with sftp := ok } else none
  | .set_blocking => if h.session ≠ none then some h else none
  | .sftp_opendir _ ok => if h.sftp ∧ !h.handle then some { h with handle := ok } else none
  | .sftp_readdir => if h.handle then some h else none
  | .sftp_closedir => if h.handle then some { h with handle := false } else none
  | .sftp_shutdown => if h.sftp ∧ !h.handle then some { h with sftp := false } else none
  | .session_disconnect => if h.session = none ∨ h.session = some .fresh then none else some h
  | .session_free =>
    if h.session ≠ none ∧ !h.handle then some { h with session := none, sftp := false } else none
  | .close =>
    if h.sock ∧ h.session = none then some { h with sock := false, connected := false } else none
  | .exit => if h.lib ∧ h.session = none then some { h with lib := false } else none
  | .line _ => some h

/-! ## What the other side has to do -/

/-- A session comes up: the library, the socket and the server take part. -/
def Peer.Connects (s : Settings) : Prop :=
  p.init = 0 ∧ p.connect s.hostaddr = 0 ∧ p.session_init = true ∧ p.handshake = 0

/-- The server lets the user in, by the method that is tried. -/
def Peer.Authenticates (s : Settings) : Prop :=
  ∃ userauthlist, p.userauth_list s.username = some userauthlist ∧
    ∃ m, method (authPw userauthlist s.option) = some m ∧ p.userauth s m = 0

open Protocol

variable {p} {s : Settings}

/-- A socket that is connected was made. -/
theorem Peer.socket_of_connect {a : UInt32} (h : p.connect a = 0) : 0 ≤ p.socket := by
  by_contra hneg
  exact p.connect_of_socket (by omega) a h

/-- With a session that is up, everything is given back, the SFTP session too. -/
theorem keeps_shutdown {stage : Stage} (hstage : stage ≠ .fresh) (sftp : Bool) :
    Keeps allowed ⟨true, true, true, some stage, sftp, false⟩ (some <$> shutdown)
      fun _ h => h = nothing := by
  refine ⟨nothing, ?_, rfl⟩
  cases stage with
  | fresh => exact absurd rfl hstage
  | up => rfl
  | authenticated => rfl

/-- The loop over the entries keeps the handle. -/
theorem keeps_readTurn (fuel : ℕ) {h : Holding} (hhandle : h.handle = true) :
    Keeps allowed h (Loop.run (readTurn p) fuel 0) fun _ h' => h' = h := by
  refine keeps_run (fun _ h' => h' = h) (fun _ _ h => h) ?_ fuel rfl
  rintro i _ rfl
  rw [readTurn]
  refine Keeps.emit _ (if_pos hhandle) ?_
  split
  · exact Keeps.emit _ rfl (keeps_pure rfl)
  · exact keeps_pure rfl

/-- The part behind the authentication gives everything back, if it comes to its end. -/
theorem keeps_list (s : Settings) (fuel : ℕ) :
    Keeps allowed ⟨true, true, true, some .authenticated, false, false⟩ (list p s fuel)
      fun v h => v ≠ none → h = nothing := by
  rw [list]
  refine Keeps.emit _ rfl ?_
  cases p.sftp_init with
  | false => exact (keeps_shutdown (by decide) false).mono fun _ _ h _ => h
  | true =>
    refine Keeps.emit _ rfl (Keeps.emit _ rfl ?_)
    cases p.sftp_opendir s.sftppath with
    | false => exact (keeps_shutdown (by decide) true).mono fun _ _ h _ => h
    | true =>
      refine (keeps_readTurn fuel rfl).bind ?_
      rintro v _ rfl
      cases v with
      | none => exact keeps_pure (absurd rfl)
      | some u =>
        exact Keeps.emit _ rfl
          (Keeps.emit _ rfl ((keeps_shutdown (by decide) false).mono fun _ _ h _ => h))

/-- The attempt to authenticate goes on exactly if the user is let in. -/
theorem keeps_authenticate (s : Settings) (auth_pw : UInt32) :
    Keeps allowed ⟨true, true, true, some .up, false, false⟩ (authenticate p s auth_pw)
      fun ok h => (ok = true ↔ ∃ m, method auth_pw = some m ∧ p.userauth s m = 0) ∧
        h = ⟨true, true, true, some (if ok then .authenticated else .up), false, false⟩ := by
  rw [authenticate]
  cases method auth_pw with
  | none => exact keeps_pure ⟨by simp, rfl⟩
  | some m =>
    refine Keeps.emit _ rfl (keeps_pure ⟨by simp, ?_⟩)
    by_cases hrc : p.userauth s m = 0
    · simp [hrc]
    · simp [hrc]

/-- Behind the handshake everything is given back by a run that returns. -/
theorem keeps_login (s : Settings) (fuel : ℕ) :
    Keeps allowed ⟨true, true, true, some .up, false, false⟩ (login p s fuel)
      fun v h => ∀ rc, v = some (.returns rc) → h = nothing := by
  rw [login]
  refine Keeps.emit _ rfl ?_
  cases p.hostkey_hash with
  | none => exact keeps_pure fun rc hrc => by cases hrc
  | some fingerprint =>
    refine Keeps.emit _ rfl ?_
    cases p.userauth_list s.username with
    | none => exact keeps_pure fun rc hrc => by cases hrc
    | some userauthlist =>
      refine (keeps_authenticate s (authPw userauthlist s.option)).bind ?_
      rintro ok _ ⟨-, rfl⟩
      cases ok with
      | true =>
        exact (keeps_list s fuel).mono fun v h hv rc hrc => hv (by rw [hrc]; exact nofun)
      | false => exact (keeps_shutdown (by decide) false).mono fun _ _ h _ _ => h

end SftpDir

end StudyTips
