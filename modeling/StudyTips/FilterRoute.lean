import Mathlib.Logic.Function.Basic
import StudyTips.Loop
import StudyTips.Netlink

/-!
# `nl_filter_route` (`c/netlink/getroute.c`): the attributes of one message

The function walks the attributes of a message, notes in `tb` where the last one
of each type lies, and then reads the payloads of five types. `attr_trail` says
that its loop takes one turn for each record of the message's attribute area and
one more to leave; from it come the two spec lemmas that everything else uses:

* `nl_filter_route_rejected`: a message of another type or without room for a
  `struct rtmsg` is left alone.
* `nl_filter_route_accepted`: any other message leaves `attrTable`, which holds
  for each type the last record of that type, and then the payloads `tb` points
  at are read, however short they are.
-/

namespace StudyTips

open Bytes

/-- What the C headers leave to the host the program is built for. -/
structure Host : Type where
  /-- the byte order -/
  order : ByteOrder
  /-- the largest attribute type the kernel headers know -/
  RTA_MAX : ℕ
  /-- the headers know the types the program prints, the largest being `RTA_TABLE` -/
  RTA_TABLE_le : RTA_TABLE ≤ RTA_MAX

variable (host : Host) (m : Mem)

/-! ## The function -/

/-- The variables of the attribute loop. -/
structure AttrWalk : Type where
  /-- `rta` and `len` -/
  cursor : Cursor
  /-- `tb`, `none` for `NULL` -/
  tb : ℕ → Option ℕ

/-- `if (rta->rta_type <= RTA_MAX) tb[rta->rta_type] = rta`. -/
def noteAttr (tb : ℕ → Option ℕ) (rta : ℕ) : Traced RouteEvent (ℕ → Option ℕ) :=
  let type := (rta_type host.order m rta).toNat
  if type ≤ host.RTA_MAX then do
    .emit (.tb type)
    pure (Function.update tb type (some rta))
  else pure tb

/-- One turn of `while (RTA_OK(rta, len))`. -/
def attrTurn (n : ℕ) (s : AttrWalk) : Traced RouteEvent (AttrWalk ⊕ (ℕ → Option ℕ)) := do
  if ← RTA_OK host.order m n s.cursor then
    let tb ← noteAttr host m s.tb s.cursor.pos
    pure (.inl ⟨RTA_NEXT host.order m s.cursor, tb⟩)
  else
    pure (.inr s.tb)

/-- `if (tb[type] != NULL)`, and the read of the payload behind it. -/
def printAttr (n : ℕ) (tb : ℕ → Option ℕ) (type : ℕ) (read : Payload) :
    Traced RouteEvent Unit := do
  .emit (.tb type)
  match tb type with
  | none => pure ()
  | some rta => .emit (.payload n rta read)

/-- `nl_filter_route`: what it returns, `none` while the loop still runs. -/
def nl_filter_route (fuel : ℕ) (family : UInt8) (n : ℕ) (expected_msgtype : UInt16) :
    Traced RouteEvent (Option ℤ) :=
  if nlmsg_type host.order m n ≠ expected_msgtype then pure (some (-1))
  else
    let len := int32 ((nlmsg_len host.order m n).toNat - NLMSG_LENGTH rtmsg.sizeof)
    if len < 0 then pure (some (-1)) -- no room for a `struct rtmsg`
    else do
      let rta := RTM_RTA (NLMSG_DATA n)
      match ← Loop.run (attrTurn host m n) fuel ⟨⟨rta, len⟩, fun _ => none⟩ with
      | none => pure none
      | some tb =>
        .emit (.table n tb)
        .emit (.rtmsg n)
        printAttr n tb RTA_TABLE .int
        printAttr n tb RTA_IIF .int
        printAttr n tb RTA_OIF .int
        printAttr n tb RTA_SRC .string
        printAttr n tb RTA_DST (.address family)
        pure (some 0)

/-! ## The table -/

/-- The last of some attributes that has a type. -/
def lastOfType (o : ByteOrder) (t : ℕ) (rtas : List ℕ) : Option ℕ :=
  (rtas.filter fun rta => (rta_type o m rta).toNat = t).getLast?

/-- The attributes of the message at `n`: the longest well-formed prefix of its
attribute area. -/
def attributes (o : ByteOrder) (n : ℕ) : List ℕ :=
  (attrArea o m n).records (n + 28)

/-- **The table the message at `n` ought to leave**: for each type the headers know
the last attribute of that type, nothing where there is none. -/
def attrTable (n : ℕ) : ℕ → Option ℕ := fun t =>
  if t ≤ host.RTA_MAX then lastOfType m host.order t (attributes m host.order n) else none

variable {m} in
theorem lastOfType_mem {o : ByteOrder} {t rta : ℕ} {rtas : List ℕ}
    (h : lastOfType m o t rtas = some rta) : rta ∈ rtas :=
  List.mem_of_mem_filter (List.mem_of_getLast? h)

theorem lastOfType_cons (o : ByteOrder) (t rta : ℕ) (rtas : List ℕ) :
    lastOfType m o t (rta :: rtas) = (lastOfType m o t rtas).or
      (if (rta_type o m rta).toNat = t then some rta else none) := by
  rw [lastOfType, lastOfType, List.filter_cons]
  by_cases htype : (rta_type o m rta).toNat = t
  · rw [if_pos (decide_eq_true htype), if_pos htype, List.getLast?_cons]
    cases (rtas.filter fun rta => (rta_type o m rta).toNat = t).getLast? with
    | none => rfl
    | some last => rfl
  · rw [if_neg (by simpa using htype), if_neg htype, Option.or_none]

/-- What one attribute does to the table. -/
theorem noteAttr_val (tb : ℕ → Option ℕ) (rta t : ℕ) (ht : t ≤ host.RTA_MAX) :
    (noteAttr host m tb rta).val t =
      if (rta_type host.order m rta).toNat = t then some rta else tb t := by
  rw [noteAttr]
  by_cases htype : (rta_type host.order m rta).toNat = t
  · -- `t` is a type the table has, so the attribute is noted
    subst htype
    simp [ht]
  · have hne : t ≠ (rta_type host.order m rta).toNat := Ne.symm htype
    rw [if_neg htype]
    split
    · simp [Function.update_of_ne hne]
    · rfl

/-- The table behind all attributes: the last one of each type stays. -/
theorem foldl_noteAttr (rtas : List ℕ) (tb : ℕ → Option ℕ) {t : ℕ} (ht : t ≤ host.RTA_MAX) :
    rtas.foldl (fun tb rta => (noteAttr host m tb rta).val) tb t =
      (lastOfType m host.order t rtas).or (tb t) := by
  induction rtas generalizing tb with
  | nil => rfl
  | cons rta rtas ih =>
    rw [List.foldl_cons, ih, lastOfType_cons, noteAttr_val host m tb rta t ht]
    split
    · rw [Option.or_assoc]; rfl
    · rw [Option.or_assoc]; rfl

/-- Entries behind the largest type are never written. -/
theorem foldl_noteAttr_of_lt (rtas : List ℕ) (tb : ℕ → Option ℕ) {t : ℕ}
    (ht : host.RTA_MAX < t) :
    rtas.foldl (fun tb rta => (noteAttr host m tb rta).val) tb t = tb t := by
  induction rtas generalizing tb with
  | nil => rfl
  | cons rta rtas ih =>
    rw [List.foldl_cons, ih, noteAttr]
    split
    next hle => exact Function.update_of_ne (by omega) ..
    next => rfl

theorem foldl_noteAttr_eq_attrTable (n : ℕ) :
    (attributes m host.order n).foldl (fun tb rta => (noteAttr host m tb rta).val)
      (fun _ => none) = attrTable host m n := by
  funext t
  rw [attrTable]
  split
  next ht => rw [foldl_noteAttr host m _ _ ht, Option.or_none]
  next ht => exact foldl_noteAttr_of_lt host m _ _ (by omega)

/-! ## The loop -/

/-- **The attribute loop takes one turn per attribute, and one to leave**, and has
then noted every attribute in the table. -/
theorem attr_trail {n : ℕ} (hstop : (attrArea host.order m n).stop < 2 ^ 31) {a e : ℕ}
    {rtas : List ℕ} (h : (attrArea host.order m n).Longest a rtas e) (tb : ℕ → Option ℕ) :
    ∃ ss, Loop.Trail (attrTurn host m n) ⟨.upTo (attrArea host.order m n).stop a, tb⟩ ss
        (rtas.foldl (fun tb rta => (noteAttr host m tb rta).val) tb) ∧
      ss.length = rtas.length + 1 := by
  obtain ⟨hchain, hend⟩ := h
  induction hchain generalizing tb with
  | nil a =>
    refine ⟨_, .leave ?_, rfl⟩
    have hok := mt RTA_OK_val.mp hend
    simp [attrTurn, hok]
  | @cons a rtas e hfit _ ih =>
    obtain ⟨ss, htrail, hlen⟩ := ih (noteAttr host m tb a).val hend
    refine ⟨_ :: ss, .round ?_ htrail, by rw [List.length_cons, List.length_cons, hlen]⟩
    have hok := RTA_OK_val.mpr hfit
    simp [attrTurn, hok, RTA_NEXT_eq hstop hfit]

/-- What the attribute loop over the message at `n` may log. -/
def AttrEvent (n : ℕ) : RouteEvent → Prop
  | .rtattr n' rta => n' = n ∧ n + 28 ≤ rta ∧ rta + 4 ≤ (attrArea host.order m n).stop
  | .tb type => type ≤ host.RTA_MAX
  | _ => False

/-- The loop stays at or behind the start of the attributes. -/
theorem attrTurn_keeps {n : ℕ} (hstop : (attrArea host.order m n).stop < 2 ^ 31)
    (s s' : AttrWalk)
    (hs : ∃ a, n + 28 ≤ a ∧ s.cursor = .upTo (attrArea host.order m n).stop a)
    (hturn : (attrTurn host m n s).val = .inl s') :
    ∃ a, n + 28 ≤ a ∧ s'.cursor = .upTo (attrArea host.order m n).stop a := by
  obtain ⟨a, ha, hcur⟩ := hs
  rw [attrTurn, Traced.bind_val, hcur] at hturn
  split at hturn
  next hok =>
    have hfit := RTA_OK_val.mp hok
    obtain rfl := Sum.inl.inj hturn
    exact ⟨_, le_trans ha (by have := hfit.lt_next; omega), RTA_NEXT_eq hstop hfit⟩
  next hok => cases hturn

/-- One turn looks at a header inside the message and at an entry of the table. -/
theorem attrTurn_log {n : ℕ} {s : AttrWalk} {a : ℕ} (ha : n + 28 ≤ a)
    (hcur : s.cursor = .upTo (attrArea host.order m n).stop a) :
    (attrTurn host m n s).All (AttrEvent host m n) := by
  rw [attrTurn, Traced.all_bind, hcur]
  refine ⟨?_, ?_⟩
  · intro e he
    rw [RTA_OK_log] at he
    split at he
    next hroom =>
      obtain rfl := List.mem_singleton.mp he
      exact ⟨rfl, ha, hroom⟩
    next => cases he
  · split
    · rw [Traced.all_bind, noteAttr]
      refine ⟨?_, Traced.all_pure _⟩
      split
      next hle => exact Traced.all_bind.mpr ⟨Traced.all_emit.mpr hle, Traced.all_pure _⟩
      next => exact Traced.all_pure _
    · exact Traced.all_pure _

/-- **The attribute loop**: it ends, leaves `attrTable`, and looks only at headers
of its own message and at entries the table has. -/
theorem attr_run {n fuel : ℕ} (hstop : (attrArea host.order m n).stop < 2 ^ 31)
    (hfuel : (nlmsg_len host.order m n).toNat < fuel) :
    ∃ l, (∀ e ∈ l, AttrEvent host m n e) ∧
      Loop.run (attrTurn host m n) fuel
        ⟨.upTo (attrArea host.order m n).stop (n + 28), fun _ => none⟩ =
        ⟨some (attrTable host m n), l⟩ := by
  have hlongest := (attrArea host.order m n).longest_records (n + 28)
  obtain ⟨ss, htrail, hlen⟩ := attr_trail host m hstop hlongest fun _ => none
  have hcount : (attributes m host.order n).length ≤ (nlmsg_len host.order m n).toNat := by
    have hle := hlongest.1.length_le
    rw [show (attrArea host.order m n).stop = n + (nlmsg_len host.order m n).toNat from rfl] at hle
    exact le_trans hle (by omega)
  refine ⟨ss.flatMap fun s => (attrTurn host m n s).log, ?_, ?_⟩
  · intro e he
    obtain ⟨s, hs, hse⟩ := List.mem_flatMap.mp he
    obtain ⟨a, ha, hcur⟩ := htrail.forall_mem (attrTurn_keeps host m hstop)
      ⟨n + 28, le_refl _, rfl⟩ s hs
    exact attrTurn_log host m ha hcur e hse
  · rw [htrail.run (by rw [hlen]; exact lt_of_le_of_lt hcount hfuel)]
    exact Traced.ext (congrArg some (foldl_noteAttr_eq_attrTable host m n)) rfl

/-! ## What the function does -/

/-- The message at `n` is one `nl_filter_route` takes: of the type it expects, and
long enough for a `struct rtmsg`. -/
def Accepts (o : ByteOrder) (n : ℕ) (expected_msgtype : UInt16) : Prop :=
  nlmsg_type o m n = expected_msgtype ∧ 28 ≤ (nlmsg_len o m n).toNat

instance (o : ByteOrder) (n : ℕ) (expected_msgtype : UInt16) :
    Decidable (Accepts m o n expected_msgtype) := inferInstanceAs (Decidable (_ ∧ _))

/-- The payloads read for a request of a family, with the type of each. -/
def payloadReads (family : UInt8) : List (ℕ × Payload) :=
  [(RTA_TABLE, .int), (RTA_IIF, .int), (RTA_OIF, .int), (RTA_SRC, .string),
    (RTA_DST, .address family)]

/-- What reading the payloads logs. -/
def printed (family : UInt8) (n : ℕ) (tb : ℕ → Option ℕ) : List RouteEvent :=
  (payloadReads family).flatMap fun p => (printAttr n tb p.1 p.2).log

/-- `len` at its start: what the message holds behind the `struct rtmsg`, negative
when it has no room for one. -/
theorem len_eq {n : ℕ} (hstop : (attrArea host.order m n).stop < 2 ^ 31) :
    int32 ((nlmsg_len host.order m n).toNat - NLMSG_LENGTH rtmsg.sizeof) =
      (Cursor.upTo (attrArea host.order m n).stop (n + 28)).len := by
  have hsize : (attrArea host.order m n).stop = n + (nlmsg_len host.order m n).toNat := rfl
  have hlen : NLMSG_LENGTH rtmsg.sizeof = 28 := rfl
  rw [hlen, int32_of_small (by omega) (by omega), Cursor.upTo_len]
  omega

/-- A message of another type, or too short, is rejected at once. -/
theorem nl_filter_route_rejected (fuel : ℕ) (family : UInt8) {n : ℕ} {expected_msgtype : UInt16}
    (hstop : (attrArea host.order m n).stop < 2 ^ 31)
    (h : ¬ Accepts m host.order n expected_msgtype) :
    nl_filter_route host m fuel family n expected_msgtype = pure (some (-1)) := by
  rw [nl_filter_route]
  split
  next => rfl
  next htype =>
    have hshort : (nlmsg_len host.order m n).toNat < 28 := by
      by_contra hlong
      exact h ⟨not_not.mp htype, by omega⟩
    have hsize : (attrArea host.order m n).stop = n + (nlmsg_len host.order m n).toNat := rfl
    have hneg : int32 ((nlmsg_len host.order m n).toNat - NLMSG_LENGTH rtmsg.sizeof) < 0 := by
      rw [len_eq host m hstop, Cursor.upTo_len]
      omega
    exact if_pos hneg

/-- **An accepted message leaves `attrTable`**, and the payloads the table points at
are read. -/
theorem nl_filter_route_accepted {fuel : ℕ} (family : UInt8) {n : ℕ} {expected_msgtype : UInt16}
    (hstop : (attrArea host.order m n).stop < 2 ^ 31)
    (hfuel : (nlmsg_len host.order m n).toNat < fuel)
    (h : Accepts m host.order n expected_msgtype) :
    ∃ l, (∀ e ∈ l, AttrEvent host m n e) ∧
      nl_filter_route host m fuel family n expected_msgtype =
        ⟨some 0, l ++ .table n (attrTable host m n) :: .rtmsg n ::
          printed family n (attrTable host m n)⟩ := by
  obtain ⟨htype, hlong⟩ := h
  obtain ⟨l, hl, hrun⟩ := attr_run host m hstop hfuel
  have hsize : (attrArea host.order m n).stop = n + (nlmsg_len host.order m n).toNat := rfl
  have hpos : ¬ (Cursor.upTo (attrArea host.order m n).stop (n + 28)).len < 0 := by
    rw [Cursor.upTo_len]
    omega
  refine ⟨l, hl, ?_⟩
  rw [nl_filter_route, if_neg (not_not.mpr htype)]
  simp only [len_eq host m hstop, if_neg hpos, NLMSG_DATA_eq, RTM_RTA_eq]
  rw [show (⟨n + 16 + 12, (Cursor.upTo (attrArea host.order m n).stop (n + 28)).len⟩ : Cursor) =
    .upTo (attrArea host.order m n).stop (n + 28) from rfl, hrun]
  apply Traced.ext
  · rfl
  · simp [printed, payloadReads]

/-- The function returns. -/
theorem nl_filter_route_val {fuel : ℕ} (family : UInt8) {n : ℕ} (expected_msgtype : UInt16)
    (hstop : (attrArea host.order m n).stop < 2 ^ 31)
    (hfuel : (nlmsg_len host.order m n).toNat < fuel) :
    ∃ rc, (nl_filter_route host m fuel family n expected_msgtype).val = some rc := by
  by_cases h : Accepts m host.order n expected_msgtype
  · obtain ⟨l, -, hrun⟩ := nl_filter_route_accepted host m family hstop hfuel h
    exact ⟨0, by rw [hrun]⟩
  · exact ⟨-1, by rw [nl_filter_route_rejected host m fuel family hstop h]; rfl⟩

/-- What the function logs for a message it accepts, and that it logs nothing else. -/
theorem of_mem_nl_filter_route {fuel : ℕ} {family : UInt8} {n : ℕ} {expected_msgtype : UInt16}
    (hstop : (attrArea host.order m n).stop < 2 ^ 31)
    (hfuel : (nlmsg_len host.order m n).toNat < fuel) {e : RouteEvent}
    (he : e ∈ (nl_filter_route host m fuel family n expected_msgtype).log) :
    Accepts m host.order n expected_msgtype ∧ (AttrEvent host m n e ∨
      e = .table n (attrTable host m n) ∨ e = .rtmsg n ∨
      e ∈ printed family n (attrTable host m n)) := by
  by_cases h : Accepts m host.order n expected_msgtype
  · obtain ⟨l, hl, hrun⟩ := nl_filter_route_accepted host m family hstop hfuel h
    rw [hrun] at he
    rcases List.mem_append.mp he with he | he
    · exact ⟨h, .inl (hl e he)⟩
    · rcases List.mem_cons.mp he with rfl | he
      · exact ⟨h, .inr (.inl rfl)⟩
      · rcases List.mem_cons.mp he with rfl | he
        · exact ⟨h, .inr (.inr (.inl rfl))⟩
        · exact ⟨h, .inr (.inr (.inr he))⟩
  · rw [nl_filter_route_rejected host m fuel family hstop h] at he
    cases he

/-- An accepted message has its table logged and its payloads read. -/
theorem mem_nl_filter_route {fuel : ℕ} {family : UInt8} {n : ℕ} {expected_msgtype : UInt16}
    (hstop : (attrArea host.order m n).stop < 2 ^ 31)
    (hfuel : (nlmsg_len host.order m n).toNat < fuel)
    (h : Accepts m host.order n expected_msgtype) {e : RouteEvent}
    (he : e = .table n (attrTable host m n) ∨ e ∈ printed family n (attrTable host m n)) :
    e ∈ (nl_filter_route host m fuel family n expected_msgtype).log := by
  obtain ⟨l, -, hrun⟩ := nl_filter_route_accepted host m family hstop hfuel h
  rw [hrun]
  rcases he with rfl | he
  · exact List.mem_append_right _ (List.mem_cons_self ..)
  · exact List.mem_append_right _ (List.mem_cons_of_mem _ (List.mem_cons_of_mem _ he))

/-! ## The payload reads -/

/-- The number of bytes `inet_ntop` reads for a family, zero for a family it refuses. -/
def addressSize (family : UInt8) : ℕ :=
  if family = AF_INET then 4 else if family = AF_INET6 then 16 else 0

/-- The read of a payload that starts at `data` takes its byte number `i`. -/
def Payload.Reads (data : ℕ) : Payload → ℕ → Prop
  | .int, i => i < 4
  | .string, i => ∀ j < i, m (data + j) ≠ 0
  | .address family, i => i < addressSize family

/-- The attribute at `rta` is long enough for a read: it holds a whole `int`, the
NUL of its string, or a whole address. -/
def Payload.Enough (o : ByteOrder) (rta : ℕ) : Payload → Prop
  | .int => rtattr.sizeof + 4 ≤ (rta_len o m rta).toNat
  | .string => ∃ i, rtattr.sizeof + i < (rta_len o m rta).toNat ∧ m (RTA_DATA rta + i) = 0
  | .address family => rtattr.sizeof + addressSize family ≤ (rta_len o m rta).toNat

/-- A read of a fixed number of bytes stays in the payload when they fit. -/
theorem forall_lt_add_lt {hdr size len : ℕ} (hlen : hdr ≤ len) :
    (∀ i, i < size → hdr + i < len) ↔ hdr + size ≤ len := by
  refine ⟨fun h => ?_, fun h i hi => by omega⟩
  rcases Nat.eq_zero_or_pos size with rfl | hpos
  · exact hlen
  · have := h (size - 1) (by omega)
    omega

/-- **A read stays inside the payload exactly when the attribute is long enough.** -/
theorem Payload.reads_within_iff {o : ByteOrder} {rta : ℕ}
    (hlen : rtattr.sizeof ≤ (rta_len o m rta).toNat) (read : Payload) :
    (∀ i, read.Reads m (RTA_DATA rta) i → rtattr.sizeof + i < (rta_len o m rta).toNat) ↔
      read.Enough m o rta := by
  cases read with
  | int => exact forall_lt_add_lt hlen
  | address family => exact forall_lt_add_lt hlen
  | string =>
    refine ⟨fun h => ?_, ?_⟩
    · -- without a NUL the byte behind the payload is read
      by_contra hno
      have hbehind := h ((rta_len o m rta).toNat - rtattr.sizeof) fun j hj hzero =>
        hno ⟨j, by omega, hzero⟩
      omega
    · rintro ⟨k, hk, hzero⟩ i hi
      have hle : i ≤ k := Nat.le_of_not_lt fun hlt => hi k hlt hzero
      omega

section Printed

variable {n : ℕ} {family : UInt8} {tb : ℕ → Option ℕ}

theorem mem_printAttr {type : ℕ} {read : Payload} {e : RouteEvent} :
    e ∈ (printAttr n tb type read).log ↔
      e = .tb type ∨ ∃ rta, tb type = some rta ∧ e = .payload n rta read := by
  rw [printAttr]
  cases htb : tb type with
  | none => simp
  | some rta => simp

/-- The payloads read are those the table points at. -/
theorem payload_mem_printed {n' rta : ℕ} {read : Payload} :
    .payload n' rta read ∈ printed family n tb ↔
      n' = n ∧ ∃ type, (type, read) ∈ payloadReads family ∧ tb type = some rta := by
  simp only [printed, List.mem_flatMap, mem_printAttr, reduceCtorEq, false_or]
  refine ⟨?_, ?_⟩
  · rintro ⟨⟨type, read'⟩, hmem, rta', htb, heq⟩
    obtain ⟨rfl, rfl, rfl⟩ := RouteEvent.payload.inj heq
    exact ⟨rfl, type, hmem, htb⟩
  · rintro ⟨rfl, type, hmem, htb⟩
    exact ⟨(type, read), hmem, rta, htb, rfl⟩

theorem type_le_of_mem_payloadReads {type : ℕ} {read : Payload}
    (hmem : (type, read) ∈ payloadReads family) : type ≤ RTA_TABLE := by
  simp only [payloadReads, List.mem_cons, Prod.mk.injEq, List.not_mem_nil, or_false] at hmem
  rcases hmem with ⟨rfl, -⟩ | ⟨rfl, -⟩ | ⟨rfl, -⟩ | ⟨rfl, -⟩ | ⟨rfl, -⟩ <;> decide

/-- Otherwise only entries up to `RTA_TABLE` are looked at. -/
theorem mem_printed {e : RouteEvent}
    (he : e ∈ printed family n tb) :
    (∃ type ≤ RTA_TABLE, e = .tb type) ∨ ∃ rta read, e = .payload n rta read := by
  obtain ⟨⟨type, read⟩, hmem, hlog⟩ := List.mem_flatMap.mp he
  rcases mem_printAttr.mp hlog with rfl | ⟨rta, -, rfl⟩
  · exact .inl ⟨type, type_le_of_mem_payloadReads hmem, rfl⟩
  · exact .inr ⟨rta, read, rfl⟩

end Printed

/-! ## The events of the function, by kind -/

section Events

variable {host m}
variable {fuel n : ℕ} {family : UInt8} {expected_msgtype : UInt16}
variable (hstop : (attrArea host.order m n).stop < 2 ^ 31)
variable (hfuel : (nlmsg_len host.order m n).toNat < fuel)

include hstop hfuel

theorem route_not_mem_nl_filter_route {n' : ℕ} :
    .nl_filter_route n' ∉ (nl_filter_route host m fuel family n expected_msgtype).log := by
  intro he
  obtain ⟨-, hattr | heq | heq | he⟩ := of_mem_nl_filter_route host m hstop hfuel he
  · exact hattr.elim
  · cases heq
  · cases heq
  · rcases mem_printed he with ⟨type, -, heq⟩ | ⟨rta, read, heq⟩
    · cases heq
    · cases heq

theorem table_mem_nl_filter_route {n' : ℕ} {tb : ℕ → Option ℕ} :
    .table n' tb ∈ (nl_filter_route host m fuel family n expected_msgtype).log ↔
      n' = n ∧ Accepts m host.order n expected_msgtype ∧ tb = attrTable host m n := by
  refine ⟨?_, ?_⟩
  · intro he
    obtain ⟨hacc, hattr | heq | heq | he⟩ := of_mem_nl_filter_route host m hstop hfuel he
    · exact hattr.elim
    · obtain ⟨rfl, rfl⟩ := RouteEvent.table.inj heq
      exact ⟨rfl, hacc, rfl⟩
    · cases heq
    · rcases mem_printed he with ⟨type, -, heq⟩ | ⟨rta, read, heq⟩
      · cases heq
      · cases heq
  · rintro ⟨rfl, hacc, rfl⟩
    exact mem_nl_filter_route host m hstop hfuel hacc (.inl rfl)

/-- The payloads read are those of the last attribute of each printed type. -/
theorem payload_mem_nl_filter_route {n' rta : ℕ} {read : Payload} :
    .payload n' rta read ∈ (nl_filter_route host m fuel family n expected_msgtype).log ↔
      n' = n ∧ Accepts m host.order n expected_msgtype ∧
        ∃ type, (type, read) ∈ payloadReads family ∧
          lastOfType m host.order type (attributes m host.order n) = some rta := by
  have htable : ∀ type, (type, read) ∈ payloadReads family →
      attrTable host m n type = lastOfType m host.order type (attributes m host.order n) :=
    fun type hmem => if_pos (le_trans (type_le_of_mem_payloadReads hmem) host.RTA_TABLE_le)
  refine ⟨?_, ?_⟩
  · intro he
    obtain ⟨hacc, hattr | heq | heq | he⟩ := of_mem_nl_filter_route host m hstop hfuel he
    · exact hattr.elim
    · cases heq
    · cases heq
    · obtain ⟨rfl, type, hmem, htb⟩ := payload_mem_printed.mp he
      exact ⟨rfl, hacc, type, hmem, by rw [← htable type hmem, htb]⟩
  · rintro ⟨rfl, hacc, type, hmem, hlast⟩
    refine mem_nl_filter_route host m hstop hfuel hacc (.inr ?_)
    exact payload_mem_printed.mpr ⟨rfl, type, hmem, by rw [htable type hmem, hlast]⟩

end Events

end StudyTips
