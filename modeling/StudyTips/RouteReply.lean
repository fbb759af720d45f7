import StudyTips.NetlinkWrite
import StudyTips.ReplyVerdict

/-!
# What `getroute` prints of what the kernel writes

A reply that carries messages is walked, and what the run prints of it is worked out from
the messages themselves, with no address in sight: for each route of its own the six
fields of the `struct rtmsg` and, for each of five types, the payload of the last
attribute of that type (`Route.lines`). `handleReply_shows` says that this is all, in
order, up to the first message that ends the walk, and what the program returns.

It takes payloads that can be read: a whole `int`, a string with its NUL, a whole
address (`Attr.Enough`). The walk itself works with any.
-/

namespace StudyTips

open Bytes

/-! ## What is printed -/

/-- What is printed behind the name of an attribute. -/
inductive Value : Type where
  /-- `%d` -/
  | int (v : Int32)
  /-- `%s` -/
  | string (s : List UInt8)
  /-- an address of a family, by `inet_ntop` -/
  | address (family : UInt8) (a : List UInt8)
  deriving DecidableEq

/-- What is printed of a route. -/
inductive Line : Type where
  /-- the fields of a `struct rtmsg` -/
  | rtmsg (family dst_len src_len table protocol scope : UInt8)
  /-- an attribute of a type -/
  | rta (type : ℕ) (v : Value)
  deriving DecidableEq

/-- What a read of the payload at `a` prints; none if a string has no NUL before `stop`. -/
def Payload.value (o : ByteOrder) (m : Mem) (stop a : ℕ) : Payload → Option Value
  | .int => some (.int (o.load32 m a).toInt32)
  | .string =>
    let bs := m.bytes a (stop - a)
    if 0 ∈ bs then some (.string (bs.takeWhile (· ≠ 0))) else none
  | .address family => some (.address family (m.bytes a (addressSize family)))

/-- What is printed at an event. -/
def lineAt (o : ByteOrder) (m : Mem) : RouteEvent → Option Line
  | .rtmsg n => some (.rtmsg (m (n + 16)) (m (n + 17)) (m (n + 18)) (m (n + 20)) (m (n + 21))
      (m (n + 22)))
  | .payload _ rta read =>
    (read.value o m bufSize (RTA_DATA rta)).map (.rta (rta_type o m rta).toNat)
  | _ => none

/-- What a run prints. -/
def shown (o : ByteOrder) (m : Mem) (l : List RouteEvent) : List Line := l.filterMap (lineAt o m)

/-! ## What there is to print -/

/-- An attribute is long enough for a read. -/
def Attr.Enough (a : Attr) : Payload → Prop
  | .int => 4 ≤ a.payload.length
  | .string => 0 ∈ a.payload
  | .address family => addressSize family ≤ a.payload.length

instance (a : Attr) : (read : Payload) → Decidable (a.Enough read)
  | .int => inferInstanceAs (Decidable (_ ≤ _))
  | .string => inferInstanceAs (Decidable (_ ∈ _))
  | .address _ => inferInstanceAs (Decidable (_ ≤ _))

/-- What a read prints of an attribute. -/
def Attr.value (o : ByteOrder) (a : Attr) : Payload → Value
  | .int => .int (o.load32 (fun i => a.payload.getD i 0) 0).toInt32
  | .string => .string (a.payload.takeWhile (· ≠ 0))
  | .address family => .address family (a.payload.take (addressSize family))

namespace Route

/-- The last attribute of a type. -/
def last (r : Route) (type : ℕ) : Option Attr :=
  (r.attrs.filter fun a => a.rta_type.toNat = type).getLast?

/-- The payloads that are read are long enough. -/
def Readable (family : UInt8) (r : Route) : Prop :=
  ∀ p ∈ payloadReads family, ∀ a ∈ r.last p.1, a.Enough p.2

instance (family : UInt8) (r : Route) : Decidable (r.Readable family) :=
  inferInstanceAs (Decidable (∀ p ∈ _, ∀ a ∈ _, _))

/-- The lines printed of a route. -/
def lines (o : ByteOrder) (family : UInt8) (r : Route) : List Line :=
  .rtmsg r.rtm.rtm_family r.rtm.rtm_dst_len r.rtm.rtm_src_len r.rtm.rtm_table
      r.rtm.rtm_protocol r.rtm.rtm_scope ::
    (payloadReads family).filterMap fun p => (r.last p.1).map fun a => .rta p.1 (a.value o p.2)

end Route

variable {o : ByteOrder} {m : Mem}

/-! ## One payload -/

/-- A word is read alike wherever it lies. -/
theorem load32_shift {m' : Mem} {a b : ℕ} (h : ∀ i < 4, m (a + i) = m' (b + i)) :
    o.load32 m a = o.load32 m' b := by
  have h0 : m a = m' b := h 0 (by decide)
  have h1 : m (a + 1) = m' (b + 1) := h 1 (by decide)
  have h2 : m (a + 2) = m' (b + 2) := h 2 (by decide)
  have h3 : m (a + 2 + 1) = m' (b + 2 + 1) := h 3 (by decide)
  simp only [ByteOrder.load32, ByteOrder.load16, h0, h1, h2, h3]

/-- What is taken of a list that has an end to it is taken of any longer one. -/
theorem takeWhile_append_of_mem {α : Type} {p : α → Bool} {x : α} {l l' : List α} (hx : x ∈ l)
    (hp : p x = false) : (l ++ l').takeWhile p = l.takeWhile p := by
  induction l with
  | nil => cases hx
  | cons y l ih =>
    rw [List.cons_append, List.takeWhile_cons, List.takeWhile_cons]
    rcases List.mem_cons.mp hx with rfl | hx
    · rw [hp]
      rfl
    · rw [ih hx]

/-- **A payload that is long enough is printed as it was written.** -/
theorem Attr.Lies.value_eq {x stop : ℕ} {a : Attr} {read : Payload} (h : a.Lies o m x)
    (henough : a.Enough read) (hstop : RTA_DATA x + a.payload.length ≤ stop) :
    read.value o m stop (RTA_DATA x) = some (a.value o read) := by
  have hbytes := h.payload
  cases read with
  | int =>
    have hword : o.load32 m (RTA_DATA x) = o.load32 (fun i => a.payload.getD i 0) 0 := by
      refine load32_shift fun i hi => ?_
      have hlt : i < a.payload.length := lt_of_lt_of_le hi henough
      have hget := m.getElem?_bytes (a := RTA_DATA x) hlt
      rw [hbytes] at hget
      rw [Nat.zero_add, List.getD_eq_getElem?_getD, hget, Option.getD_some]
    exact congrArg (fun w => some (Value.int w.toInt32)) hword
  | string =>
    have hlen : stop - RTA_DATA x =
        a.payload.length + (stop - RTA_DATA x - a.payload.length) := by omega
    have hsplit := m.bytes_add (RTA_DATA x) a.payload.length (stop - RTA_DATA x - a.payload.length)
    rw [← hlen, hbytes] at hsplit
    have hmem : 0 ∈ m.bytes (RTA_DATA x) (stop - RTA_DATA x) := by
      rw [hsplit]
      exact List.mem_append_left _ henough
    rw [Payload.value, if_pos hmem, hsplit, takeWhile_append_of_mem henough (by decide)]
    rfl
  | address family =>
    have hsplit := m.bytes_add (RTA_DATA x) (addressSize family)
      (a.payload.length - addressSize family)
    rw [Nat.add_sub_cancel' henough, hbytes] at hsplit
    rw [Payload.value, Attr.value]
    have htake : a.payload.take (addressSize family) =
        m.bytes (RTA_DATA x) (addressSize family) := by
      rw [hsplit, List.take_left' (Mem.length_bytes ..)]
    rw [htake]

/-! ## One route -/

section OneRoute

variable {n : ℕ} {msg : Message} {r : Route}

/-- What lies behind the `struct rtmsg` of a route. -/
theorem Message.Lies.attrs (h : msg.Lies o m n) (hbody : msg.body = .route r) :
    m.bytes (n + 28) (Tlv.pack 4 (Attr.record o) r.attrs).length =
      Tlv.pack 4 (Attr.record o) r.attrs := by
  have hpayload := h.payload
  rw [hbody] at hpayload
  obtain ⟨-, hattrs⟩ := Mem.bytes_eq_append.mp hpayload
  have hlen : (r.rtm.bytes o).length = 12 := by simp [Rtmsg.bytes]
  rw [hlen] at hattrs
  exact hattrs

/-- Each attribute of a route lies where it was put. -/
theorem Message.Lies.attr (h : msg.Lies o m n) (hbody : msg.body = .route r) {p : ℕ × Attr}
    (hp : p ∈ Tlv.placed 4 (Attr.record o) (n + 28) r.attrs) : p.2.Lies o m p.1 :=
  Attr.lies (Tlv.bytes_of_mem_placed align_pos (h.attrs hbody) hp)

/-- A route is as long as its header, its `struct rtmsg` and its attributes. -/
theorem Message.Lies.route_len (h : msg.Lies o m n) (hbody : msg.body = .route r) :
    (nlmsg_len o m n).toNat = 28 + (Tlv.pack 4 (Attr.record o) r.attrs).length := by
  rw [h.len, hbody, Body.payload, List.length_append]
  have hlen : (r.rtm.bytes o).length = 12 := by simp [Rtmsg.bytes]
  omega

/-- **The attributes that are found are the ones that were written.** -/
theorem Message.Lies.attributes_eq (h : msg.Lies o m n) (hbody : msg.body = .route r) :
    attributes m o n = (Tlv.placed 4 (Attr.record o) (n + 28) r.attrs).map Prod.fst := by
  have hlongest : (attrArea o m n).Longest (n + 28)
      ((Tlv.placed 4 (Attr.record o) (n + 28) r.attrs).map Prod.fst) (attrArea o m n).stop := by
    refine Tlv.Area.longest_pack (fun p hp => ?_) ?_
    · rw [Attr.length_record]
      exact ⟨Nat.le_add_right .., (h.attr hbody hp).len⟩
    · have hstop : (attrArea o m n).stop = n + (nlmsg_len o m n).toNat := rfl
      rw [hstop, h.route_len hbody, ← Nat.add_assoc]
      rfl
  exact hlongest.eq_records.1

/-- The last attribute of a type that is found is the last that was written. -/
theorem Message.Lies.last_eq (h : msg.Lies o m n) (hbody : msg.body = .route r) (t : ℕ) :
    ∃ c : Option (ℕ × Attr), lastOfType m o t (attributes m o n) = c.map Prod.fst ∧
      r.last t = c.map Prod.snd ∧
      ∀ p ∈ c, p ∈ Tlv.placed 4 (Attr.record o) (n + 28) r.attrs ∧ p.2.rta_type.toNat = t := by
  refine ⟨((Tlv.placed 4 (Attr.record o) (n + 28) r.attrs).filter fun p =>
    p.2.rta_type.toNat = t).getLast?, ?_, ?_, ?_⟩
  · rw [h.attributes_eq hbody, lastOfType, List.filter_map, List.getLast?_map]
    refine congrArg (fun l => Option.map Prod.fst (List.getLast? l)) (List.filter_congr ?_)
    intro p hp
    simp [(h.attr hbody hp).type]
  · have hattrs : (Tlv.placed 4 (Attr.record o) (n + 28) r.attrs).map Prod.snd = r.attrs :=
      Tlv.map_snd_placed ..
    rw [Route.last, ← hattrs, List.filter_map, List.getLast?_map, hattrs]
    rfl
  · intro p hp
    have hmem := List.mem_of_getLast? hp
    exact ⟨List.mem_of_mem_filter hmem, by simpa using List.of_mem_filter hmem⟩

/-- The fields of its `struct rtmsg` are printed as they were written. -/
theorem Message.Lies.lineAt_rtmsg (h : msg.Lies o m n) (hbody : msg.body = .route r) :
    lineAt o m (.rtmsg n) = some (.rtmsg r.rtm.rtm_family r.rtm.rtm_dst_len r.rtm.rtm_src_len
      r.rtm.rtm_table r.rtm.rtm_protocol r.rtm.rtm_scope) := by
  have hpayload := h.payload
  rw [hbody, Body.payload, Rtmsg.bytes, List.append_assoc] at hpayload
  obtain ⟨hfields, -⟩ := Mem.bytes_eq_append.mp hpayload
  simp only [List.length_cons, List.length_nil, Mem.bytes_succ, List.cons.injEq] at hfields
  obtain ⟨h0, h1, h2, -, h4, h5, h6, -⟩ := hfields
  rw [lineAt, h0, h1, h2, h4, h5, h6]

/-- **The payloads that are read are printed as they were written.** -/
theorem Message.Lies.shown_printed {host : Host} {family : UInt8} (h : msg.Lies host.order m n)
    (hbody : msg.body = .route r) (hreadable : r.Readable family)
    (hstop : (attrArea host.order m n).stop ≤ bufSize) :
    shown host.order m (printed family n (attrTable host m n)) =
      (payloadReads family).filterMap fun p =>
        (r.last p.1).map fun a => .rta p.1 (a.value host.order p.2) := by
  rw [shown, printed, List.filterMap_flatMap, List.filterMap_eq_flatMap_toList]
  refine List.flatMap_congr fun p hp => ?_
  obtain ⟨type, read⟩ := p
  obtain ⟨c, hfound, hlast, hc⟩ := h.last_eq hbody type
  have htable : attrTable host m n type = c.map Prod.fst := by
    rw [attrTable, if_pos (le_trans (type_le_of_mem_payloadReads hp) host.RTA_TABLE_le), hfound]
  have hreads := hreadable (type, read) hp
  dsimp only at hreads ⊢
  rw [hlast] at hreads ⊢
  cases c with
  | none =>
    rw [printAttr, htable]
    rfl
  | some q =>
    have hlog : (printAttr n (attrTable host m n) type read).log =
        [.tb type, .payload n q.1 read] := by
      rw [printAttr, htable]
      rfl
    obtain ⟨hq, htype⟩ := hc q rfl
    have hlies := h.attr hbody hq
    have hend := Tlv.end_le_of_mem_placed align_pos hq
    rw [Attr.length_record] at hend
    have harea : (attrArea host.order m n).stop = n + (nlmsg_len host.order m n).toNat := rfl
    have hlen := h.route_len hbody
    have hstop' : RTA_DATA q.1 + q.2.payload.length ≤ bufSize := by
      rw [RTA_DATA_eq]
      omega
    have hvalue := hlies.value_eq (hreads q.2 rfl) hstop'
    rw [hlog, List.filterMap_cons_none rfl, List.filterMap_cons, lineAt, hvalue, hlies.type, htype]
    rfl

/-- **What `nl_filter_route` prints of a route** is its lines. -/
theorem Message.Lies.shown_nl_filter_route {host : Host} {family : UInt8} {fuel : ℕ}
    (h : msg.Lies host.order m n) (hbody : msg.body = .route r)
    (hreadable : r.Readable family) (hstop : (attrArea host.order m n).stop ≤ bufSize)
    (hfuel : (nlmsg_len host.order m n).toNat < fuel) :
    shown host.order m (nl_filter_route host m fuel family n RTM_NEWROUTE).log =
      r.lines host.order family := by
  have haccept : Accepts m host.order n RTM_NEWROUTE := by
    refine ⟨by rw [h.type, hbody]; rfl, ?_⟩
    rw [h.route_len hbody]
    exact Nat.le_add_right ..
  obtain ⟨l, hl, hrun⟩ := nl_filter_route_accepted host m family
    (lt_of_le_of_lt hstop (by decide)) hfuel haccept
  have hquiet : shown host.order m l = [] := by
    refine List.filterMap_eq_nil_iff.mpr fun e he => ?_
    have hattr := hl e he
    cases e with
    | rtattr | tb => rfl
    | _ => exact hattr.elim
  rw [hrun, shown, List.filterMap_append, ← shown, hquiet, List.nil_append,
    List.filterMap_cons_none rfl, List.filterMap_cons_some (h.lineAt_rtmsg hbody), ← shown,
    h.shown_printed hbody hreadable hstop]
  rfl

end OneRoute

/-! ## The messages of a reply -/

/-- A reply carries messages. -/
structure Reply.Carries (host : Host) (r : Reply) (ms : List Message) : Prop where
  /-- the reply is as long as the messages packed -/
  recvlen : r.recvlen = (Tlv.pack 4 (Message.record host.order) ms).length
  /-- the buffer holds the messages packed -/
  bytes : r.buf.bytes 0 r.recvlen = Tlv.pack 4 (Message.record host.order) ms

/-- A body that ends the walk: a real error, or the end of several parts. -/
def Body.Final : Body → Prop
  | .route _ => False
  | .error code _ _ => code ≠ 0
  | .done _ => True

instance : (b : Body) → Decidable b.Final
  | .route _ => isFalse id
  | .error code _ _ => inferInstanceAs (Decidable (code ≠ 0))
  | .done _ => isTrue trivial

namespace Message

variable (q : Session) (msg : Message)

/-- The message carries the port of the request or of the process. -/
def IsOwn : Prop :=
  msg.nlmsg_pid ≠ 0 ∧ (msg.nlmsg_pid = q.nlmsg_pid ∨ msg.nlmsg_pid.toInt32 = q.self_pid)

/-- The message is an own one that ends the walk. -/
def Final : Prop := msg.IsOwn q ∧ msg.body.Final

instance : Decidable (msg.IsOwn q) := inferInstanceAs (Decidable (_ ∧ (_ ∨ _)))
instance : Decidable (msg.Final q) := inferInstanceAs (Decidable (_ ∧ _))

/-- The route in an own message. -/
def ownRoute : Option Route :=
  match msg.body with
  | .route r => if msg.IsOwn q then some r else none
  | _ => none

end Message

section OneMessage

variable {host : Host} {q : Session} {r : Reply} {h : ℕ} {msg : Message}

/-- The messages are the program's own or not as they were written. -/
theorem Message.Lies.own_iff (hlies : msg.Lies host.order r.buf h) :
    Own host q r h ↔ msg.IsOwn q := by
  rw [Own, Message.IsOwn, hlies.pid]

/-- An error is no acknowledgement exactly when it was written so. -/
theorem Message.Lies.badError_iff (hlies : msg.Lies host.order r.buf h) :
    BadError host r h ↔ ∃ code m rest, msg.body = .error code m rest ∧ code ≠ 0 := by
  have hpayload := hlies.payload
  have hlen := hlies.len
  rw [BadError, hlies.type]
  cases hbody : msg.body with
  | route r' => simp [Body.type, RTM_NEWROUTE, NLMSG_ERROR]
  | done p => simp [Body.type, NLMSG_DONE, NLMSG_ERROR]
  | error code m rest =>
    rw [hbody, Body.payload] at hpayload hlen
    have hcode : nlmsgerr_error host.order r.buf h = code.toInt32 :=
      congrArg UInt32.toInt32 (ByteOrder.load32_of_bytes (Mem.bytes_eq_append.mp hpayload).1)
    have hlong : ¬ (nlmsg_len host.order r.buf h).toNat < 36 := by
      simp only [List.length_append, ByteOrder.length_bytes32, Vector.length_toList] at hlen
      omega
    rw [hcode]
    simp only [Body.type, hlong, true_and, false_or, Body.error.injEq]
    refine ⟨fun hne => ⟨code, m, rest, ⟨rfl, rfl, rfl⟩, fun hzero => hne (by rw [hzero]; rfl)⟩, ?_⟩
    rintro ⟨_, _, _, ⟨rfl, -, -⟩, hne⟩ hzero
    exact hne (congrArg Int32.toUInt32 hzero)

/-- The messages end the walk as they were written. -/
theorem Message.Lies.ends_iff (hlies : msg.Lies host.order r.buf h) :
    Ends host q r h ↔ msg.Final q := by
  rw [Ends, Message.Final, hlies.own_iff, hlies.badError_iff, hlies.type]
  refine and_congr_right fun _ => ?_
  cases msg.body with
  | route r' => simp [Body.Final, Body.type, RTM_NEWROUTE, NLMSG_DONE]
  | done p => simp [Body.Final, Body.type]
  | error code m rest => simp [Body.Final, Body.type, NLMSG_ERROR, NLMSG_DONE]

/-- What goes to `nl_filter_route` is the own routes. -/
theorem Message.Lies.handled_iff (hlies : msg.Lies host.order r.buf h) :
    Handled host q r h ↔ ∃ rt, msg.ownRoute q = some rt := by
  rw [Handled, hlies.own_iff, hlies.type, Message.ownRoute]
  cases msg.body with
  | route r' => simp [Body.type, RTM_NEWROUTE, NLMSG_DONE, NLMSG_ERROR]
  | done p => simp [Body.type]
  | error code m rest => simp [Body.type]

theorem Message.body_of_ownRoute {rt : Route} (hroute : msg.ownRoute q = some rt) :
    msg.body = .route rt := by
  rw [ownRoute] at hroute
  split at hroute
  next r' hbody =>
    split at hroute
    next => rw [hbody, Option.some.inj hroute]
    next => cases hroute
  next => cases hroute

end OneMessage

/-! ## The whole reply -/

section WholeReply

variable {host : Host} {q : Session} {r : Reply} {ms : List Message}

/-- The messages of a reply with where they lie. -/
def messagesAt (host : Host) (ms : List Message) : List (ℕ × Message) :=
  Tlv.placed 4 (Message.record host.order) 0 ms

theorem map_snd_messagesAt (host : Host) (ms : List Message) :
    (messagesAt host ms).map Prod.snd = ms := Tlv.map_snd_placed 0 ms

theorem mem_of_mem_messagesAt {p : ℕ × Message} (hp : p ∈ messagesAt host ms) : p.2 ∈ ms := by
  rw [← map_snd_messagesAt host ms]
  exact List.mem_map_of_mem hp

namespace Reply.Carries

/-- The messages end inside the reply. -/
theorem end_le (h : r.Carries host ms) {p : ℕ × Message} (hp : p ∈ messagesAt host ms) :
    p.1 + (16 + (p.2.body.payload host.order).length) ≤ r.recvlen := by
  have hend := Tlv.end_le_of_mem_placed align_pos hp
  rw [Message.length_record, ← h.recvlen] at hend
  omega

/-- The messages are read as they were written. -/
theorem lies (h : r.Carries host ms) {p : ℕ × Message} (hp : p ∈ messagesAt host ms) :
    p.2.Lies host.order r.buf p.1 := by
  have hbytes := h.bytes
  rw [h.recvlen] at hbytes
  refine Message.lies (Tlv.bytes_of_mem_placed align_pos hbytes hp) ?_
  have hend := h.end_le hp
  have hsmall : r.recvlen ≤ 4096 := r.recvlen_le
  rw [Message.length_record]
  omega

/-- **The messages that are found are the ones that were written.** -/
theorem longest (h : r.Carries host ms) :
    (r.area host).Longest 0 ((messagesAt host ms).map Prod.fst) r.recvlen := by
  refine Tlv.Area.longest_pack (A := r.area host) (fun p hp => ?_) ?_
  · rw [Message.length_record]
    exact ⟨Nat.le_add_right .., (h.lies hp).len⟩
  · rw [Nat.zero_add]
    exact h.recvlen

theorem messages_eq (h : r.Carries host ms) :
    r.messages host = (messagesAt host ms).map Prod.fst := h.longest.eq_records.1

/-- The messages fit the reply. -/
theorem fits (h : r.Carries host ms) {p : ℕ × Message} (hp : p ∈ messagesAt host ms) :
    (r.area host).Fits p.1 := h.longest.1.fits _ (List.mem_map_of_mem hp)

/-- The walk gets past the messages before the first that ends it. -/
theorem passed_eq (h : r.Carries host ms) : passed host q r =
    ((messagesAt host ms).takeWhile fun p => ¬ p.2.Final q).map Prod.fst := by
  rw [passed, h.messages_eq, List.takeWhile_map]
  refine congrArg (List.map Prod.fst) (takeWhile_congr fun p hp => ?_)
  simp [(h.lies hp).ends_iff]

/-- Where the walk stops: at a message that ends it, or at the end. -/
theorem stopsAt_cases (h : r.Carries host ms) :
    (∃ p ∈ messagesAt host ms, p.2.Final q ∧ stopsAt host q r = p.1) ∨
      (∀ msg ∈ ms, ¬ msg.Final q) ∧ stopsAt host q r = r.recvlen := by
  rw [stopsAt, h.messages_eq]
  cases hfind : ((messagesAt host ms).map Prod.fst).find? fun x => Ends host q r x with
  | some x =>
    obtain ⟨p, hp, rfl⟩ := List.mem_map.mp (List.mem_of_find?_eq_some hfind)
    have hends : Ends host q r p.1 := by simpa using List.find?_some hfind
    exact .inl ⟨p, hp, (h.lies hp).ends_iff.mp hends, rfl⟩
  | none =>
    refine .inr ⟨fun msg hmsg hfinal => ?_, h.longest.eq_records.2⟩
    rw [← map_snd_messagesAt host ms] at hmsg
    obtain ⟨p, hp, rfl⟩ := List.mem_map.mp hmsg
    have hnone := List.find?_eq_none.mp hfind p.1 (List.mem_map_of_mem hp)
    exact hnone (decide_eq_true ((h.lies hp).ends_iff.mpr hfinal))

/-- **What a turn at a message prints** is its route, if it is an own one. -/
theorem shown_messageTurn (h : r.Carries host ms) {fuel : ℕ} (hfuel : r.recvlen < fuel)
    {p : ℕ × Message} (hp : p ∈ messagesAt host ms)
    (hreadable : ∀ rt ∈ p.2.ownRoute q, rt.Readable q.rtm_family) :
    shown host.order r.buf (messageTurn host q r fuel (.upTo r.recvlen p.1)).log =
      (p.2.ownRoute q).toList.flatMap (Route.lines host.order q.rtm_family) := by
  have hfit := h.fits hp
  have hlies := h.lies hp
  rw [messageTurn_eq hfuel hfit, shown, List.filterMap_cons_none rfl, messageLog]
  cases hroute : p.2.ownRoute q with
  | some rt =>
    have hstop : (attrArea host.order r.buf p.1).stop ≤ bufSize :=
      le_trans (attrArea_stop hfit).1 r.recvlen_le
    rw [if_pos (hlies.handled_iff.mpr ⟨rt, hroute⟩), List.filterMap_cons_none rfl, ← shown,
      hlies.shown_nl_filter_route (Message.body_of_ownRoute hroute) (hreadable rt hroute) hstop
        (len_lt_fuel hfuel hfit)]
    simp
  | none =>
    have hnot : ¬ Handled host q r p.1 := by simp [hlies.handled_iff, hroute]
    rw [if_neg hnot]
    split
    · rfl
    · rfl

end Reply.Carries

/-- Where nothing fits, a turn prints nothing. -/
theorem shown_messageTurn_of_not_fits {fuel h : ℕ} (hfit : ¬ (r.area host).Fits h) :
    shown host.order r.buf (messageTurn host q r fuel (.upTo r.recvlen h)).log = [] := by
  rw [messageTurn_of_not_fits hfit]
  dsimp only
  split
  · rfl
  · rfl

/-- A message that ends the walk carries no own route. -/
theorem Message.Final.ownRoute_eq {msg : Message} (h : msg.Final q) : msg.ownRoute q = none := by
  rw [ownRoute]
  split
  next rt hbody =>
    have hfinal := h.2
    rw [hbody] at hfinal
    exact hfinal.elim
  next => rfl

/-- What the kernel has to say in messages: the own routes up to the first message that ends
the walk. -/
def answers (q : Session) (ms : List Message) : List Route :=
  (ms.takeWhile fun msg => ¬ msg.Final q).filterMap (Message.ownRoute q)

/-- **What the walk over a reply prints** is the routes it answers with. -/
theorem Reply.Carries.shown_messageLoop (h : r.Carries host ms) {fuel : ℕ}
    (hfuel : r.recvlen < fuel)
    (hreadable : ∀ msg ∈ ms, ∀ rt ∈ msg.ownRoute q, rt.Readable q.rtm_family) :
    shown host.order r.buf (messageLoop host q r fuel).log =
      (answers q ms).flatMap (Route.lines host.order q.rtm_family) := by
  have hread : ∀ p ∈ messagesAt host ms, ∀ rt ∈ p.2.ownRoute q, rt.Readable q.rtm_family :=
    fun p hp => hreadable p.2 (mem_of_mem_messagesAt hp)
  have hstop : shown host.order r.buf
      (messageTurn host q r fuel (.upTo r.recvlen (stopsAt host q r))).log = [] := by
    rcases h.stopsAt_cases (q := q) with ⟨p, hp, hfinal, hstop⟩ | ⟨-, hstop⟩
    · rw [hstop, h.shown_messageTurn hfuel hp (hread p hp), hfinal.ownRoute_eq]
      rfl
    · rw [hstop]
      exact shown_messageTurn_of_not_fits h.longest.2
  rw [messageLoop_eq hfuel, shown, List.filterMap_flatMap, List.flatMap_append,
    List.flatMap_singleton, ← shown, hstop, List.append_nil, h.passed_eq, List.flatMap_map]
  have hturns : ∀ p ∈ (messagesAt host ms).takeWhile (fun p => ¬ p.2.Final q),
      shown host.order r.buf (messageTurn host q r fuel (.upTo r.recvlen p.1)).log =
        (p.2.ownRoute q).toList.flatMap (Route.lines host.order q.rtm_family) := by
    intro p hp
    have hp := (List.takeWhile_prefix _).subset hp
    exact h.shown_messageTurn hfuel hp (hread p hp)
  have hanswers : answers q ms = ((messagesAt host ms).takeWhile fun p =>
      ¬ p.2.Final q).flatMap fun p => (p.2.ownRoute q).toList := by
    calc answers q ms = answers q ((messagesAt host ms).map Prod.snd) := by
          rw [map_snd_messagesAt]
      _ = _ := by
          rw [answers, List.takeWhile_map, List.filterMap_map, List.filterMap_eq_flatMap_toList]
          rfl
  rw [hanswers, List.flatMap_assoc]
  exact List.flatMap_congr hturns

/-- **What is written is what is printed**: a reply that carries messages of the kernel is
printed as the routes in it for this program, each with the last attribute of every type
it asks for, up to the first message that ends the walk; and the program fails exactly if
there is such a message, be it an error or the regular end of several parts. -/
theorem handleReply_shows (h : r.Carries host ms) {fuel : ℕ} (hfuel : r.recvlen < fuel)
    (hreadable : ∀ msg ∈ ms, ∀ rt ∈ msg.ownRoute q, rt.Readable q.rtm_family) :
    shown host.order r.buf (handleReply host q r fuel).log =
        (answers q ms).flatMap (Route.lines host.order q.rtm_family) ∧
      (handleReply host q r fuel).val = some (if ∃ msg ∈ ms, msg.Final q then -1 else 0) := by
  rw [handleReply_eq hfuel]
  refine ⟨h.shown_messageLoop hfuel hreadable, congrArg some ?_⟩
  rcases h.stopsAt_cases (q := q) with ⟨p, hp, hfinal, hstop⟩ | ⟨hnone, hstop⟩
  · have hend := h.end_le hp
    rw [hstop, if_pos (by omega), if_pos ⟨p.2, mem_of_mem_messagesAt hp, hfinal⟩]
  · rw [hstop, if_neg (lt_irrefl _), if_neg fun ⟨msg, hmsg, hfinal⟩ => hnone msg hmsg hfinal]

end WholeReply

/-- The route of `oifReply`: out by the interface 2. -/
def oifRoute : Route where
  rtm := ⟨2, 32, 0, 0, 254, 0, 0, 1, 0⟩
  attrs := [⟨4, [2, 0, 0, 0], by decide⟩]

/-- The message of `oifReply`, as the kernel has written it. -/
def oifMessage : Message where
  nlmsg_flags := 0
  nlmsg_seq := 1
  nlmsg_pid := 1234
  body := .route oifRoute

theorem carries_oifMessage : oifReply.Carries linux [oifMessage] := ⟨by decide, by decide⟩

/-- A reply with a route out of an interface is printed with that interface. -/
theorem handleReply_shows_oifReply :
    shown linux.order oifReply.buf (handleReply linux inetSession oifReply 37).log =
        [.rtmsg 2 32 0 254 0 0, .rta RTA_OIF (.int 2)] ∧
      (handleReply linux inetSession oifReply 37).val = some 0 := by
  have hreadable : ∀ msg ∈ [oifMessage], ∀ rt ∈ msg.ownRoute inetSession,
      rt.Readable inetSession.rtm_family := by decide
  obtain ⟨hshown, hval⟩ := handleReply_shows carries_oifMessage
    (show oifReply.recvlen < 37 by decide) hreadable
  exact ⟨hshown, hval⟩

end StudyTips
