import StudyTips.Request
import StudyTips.RouteReply

/-!
# `getroute` and the kernel it asks

The program sends a request, the kernel decodes it, looks the destination up and answers
with the route or with an error, and the program prints the answer. A `Kernel` is its
routes; that it decodes a request is `Decodes`, the walks of the program itself, and that
its answer arrives is `Delivers`.

`getroute_prints_route` says what such a conversation comes to: the route of the kernel to
the operand is printed as it is, and a destination without a route makes the program
fail, if no option comes first. Where `getopt` puts the options before the operands, that is
a command line without options. On any other it is the route to `0.0.0.0`, whatever the
operand.
-/

namespace StudyTips

open Bytes CString Getopt

/-! ## The kernel -/

/-- A kernel that has routes. -/
structure Kernel : Type where
  /-- the route of the kernel to an address of a family -/
  lookup : UInt8 → List UInt8 → Option Route
  /-- the error of an answer about an address without a route -/
  error : UInt32
  /-- the error is none of the acknowledgements, which are 0 -/
  error_ne : error ≠ 0
  /-- the port of the socket the kernel answers to -/
  port : UInt32

namespace Kernel

variable (k : Kernel) (host : Host)

/-- What the kernel says about an address: its route, or the error with the request it is about. -/
def body (req : Sent) (family : UInt8) (addr : List UInt8) : Body :=
  match k.lookup family addr with
  | some rt => .route rt
  | none => .error k.error (Vector.ofFn fun i : Fin 16 => req.mem i)
      (req.mem.bytes 16 ((nlmsg_len host.order req.mem 0).toNat - 16))

/-- The kernel's answer to a request for an address. -/
def answer (req : Sent) (family : UInt8) (addr : List UInt8) : Message where
  nlmsg_flags := 0
  nlmsg_seq := host.order.load32 req.mem 8
  nlmsg_pid := k.port
  body := k.body host req family addr

/-- A message is the kernel's answer to what a request decodes to. -/
def Answers (req : Sent) (msg : Message) : Prop :=
  ∃ family addr, Decodes host.order req family addr ∧ msg = k.answer host req family addr

end Kernel

/-- What the program receives is a message. -/
structure Delivers (host : Host) (sys : System) (msg : Message) : Prop where
  /-- `recvfrom` returns the length of the message -/
  recvlen : sys.recvlen = (Tlv.pack 4 (Message.record host.order) [msg]).length
  /-- the message fits the buffer -/
  small : sys.recvlen ≤ bufSize
  /-- the buffer begins with the message -/
  bytes : sys.buf.bytes 0 sys.recvlen.toNat = Tlv.pack 4 (Message.record host.order) [msg]

/-- The port is one the program takes for its own. -/
def Kernel.OwnPort (k : Kernel) (sys : System) : Prop :=
  k.port ≠ 0 ∧ (k.port = 1234 ∨ k.port.toInt32 = sys.self_pid)

instance (k : Kernel) (sys : System) : Decidable (k.OwnPort sys) :=
  inferInstanceAs (Decidable (_ ∧ (_ ∨ _)))

/-! ## The conversation -/

variable {host : Host} {k : Kernel} {sys : System}

/-- The request carries the port it was given. -/
theorem nlmsg_pid_fillRequest (o : ByteOrder) (ack_flag : Bool) (family : UInt8)
    (addr : List UInt8) : nlmsg_pid o (fillRequest o ack_flag family addr) 0 = 1234 := by
  have hstart : nlmsg_pid o (fillRequest o ack_flag family addr) 0 =
      nlmsg_pid o (startRequest o ack_flag) 0 := by
    refine ByteOrder.load32_congr fun x hx hx' => ?_
    rw [fillRequest, ByteOrder.store32_outside (.inr (by omega)),
      Mem.write_outside (.inl (by omega)), ByteOrder.store16_outside (.inl (by omega)),
      Mem.write_byte_outside (.inl (by omega))]
  rw [hstart]
  cases o with
  | little => cases ack_flag <;> rfl
  | big => cases ack_flag <;> rfl

/-- What the program receives it walks over as a reply. -/
theorem Delivers.carries {msg : Message} (h : Delivers host sys msg)
    (hle : sys.recvlen.toNat ≤ bufSize) :
    Reply.Carries host ⟨sys.buf, sys.recvlen.toNat, hle⟩ [msg] :=
  ⟨(congrArg Int.toNat h.recvlen).trans (Int.toNat_natCast _), h.bytes⟩

/-- **One message as an answer**: an own route is printed, an own error fails, and an answer
to another port is passed over. -/
theorem handleReply_answer {q : Session} {r : Reply} {req : Sent} {family : UInt8}
    {addr : List UInt8} {fuel : ℕ} (hcarries : r.Carries host [k.answer host req family addr])
    (hfuel : r.recvlen < fuel) (hreadable : ∀ rt ∈ k.lookup family addr, rt.Readable q.rtm_family)
    (hown : (k.answer host req family addr).IsOwn q ↔ k.OwnPort sys) :
    shown host.order r.buf (handleReply host q r fuel).log =
        (if k.OwnPort sys then k.lookup family addr else none).toList.flatMap
          (Route.lines host.order q.rtm_family) ∧
      (handleReply host q r fuel).val =
        some (if k.OwnPort sys ∧ k.lookup family addr = none then -1 else 0) := by
  have hbody : (k.answer host req family addr).body = k.body host req family addr := rfl
  have hroute : (k.answer host req family addr).ownRoute q =
      if k.OwnPort sys then k.lookup family addr else none := by
    rw [Message.ownRoute, hbody, Kernel.body]
    cases k.lookup family addr with
    | some rt => simp [hown]
    | none => simp
  have hfinal : (k.answer host req family addr).Final q ↔
      k.OwnPort sys ∧ k.lookup family addr = none := by
    rw [Message.Final, hown, hbody, Kernel.body]
    cases k.lookup family addr with
    | some rt => simp [Body.Final]
    | none => simp [Body.Final, k.error_ne]
  obtain ⟨hshown, hval⟩ := handleReply_shows (q := q) hcarries hfuel (by
    intro msg hmsg rt hrt
    obtain rfl := List.mem_singleton.mp hmsg
    rw [hroute] at hrt
    split at hrt
    next => exact hreadable rt hrt
    next => cases hrt)
  refine ⟨?_, ?_⟩
  · rw [hshown, answers, ← hroute]
    by_cases hf : (k.answer host req family addr).Final q
    · rw [hf.ownRoute_eq]
      simp [hf]
    · simp [hf, List.filterMap_cons]
      cases (k.answer host req family addr).ownRoute q <;> simp
  · rw [hval]
    simp [hfinal]

/-- The program knows its own port. -/
theorem Kernel.isOwn_iff {ack_flag : Bool} {s : Str} {pton : InetPton} {req : Sent}
    {family : UInt8} {addr : List UInt8} {rtm_family : UInt8} :
    (k.answer host req family addr).IsOwn ⟨rtm_family,
      nlmsg_pid host.order (buildRequest host.order pton ack_flag s) 0, sys.self_pid⟩ ↔
        k.OwnPort sys := by
  rw [buildRequest_eq, nlmsg_pid_fillRequest]
  exact .rfl

/-- A run prints the kernel's route to an address, and fails if there is none. What is for
another port it passes over, and succeeds. -/
def ShowsRoute (host : Host) (k : Kernel) (sys : System) (run : MainRun) (family : UInt8)
    (addr : List UInt8) : Prop :=
  shown host.order sys.buf run.log =
      (if k.OwnPort sys then k.lookup family addr else none).toList.flatMap
        (Route.lines host.order family) ∧
    run.rc = some (if k.OwnPort sys ∧ k.lookup family addr = none then -1 else 0)

/-- **What a conversation comes to**, whatever is on the command line: the kernel is asked for
what `argv[1]` stands for, and its answer is printed. -/
theorem getroute_answered {pton : InetPton} {argv : List Str} {fuel : ℕ} {opts : Options}
    (haccept : optionLoop sys.permute argv fuel = some (some opts))
    (hoptind : opts.optind < opts.argv.length) (hsocket : 0 ≤ sys.socket) (hsend : 0 ≤ sys.send) (hpoll : 0 ≤ sys.poll)
    (hfuel : sys.recvlen < fuel)
    (hanswer : ∀ req, (getrouteMain host pton sys argv fuel).sent = some req →
      ∃ msg, k.Answers host req msg ∧ Delivers host sys msg)
    {family : UInt8} {addr : List UInt8}
    (hasked : requested pton (opts.argv[1]?.getD []) = (family, addr))
    (hreadable : ∀ rt ∈ k.lookup family addr, rt.Readable family) :
    ShowsRoute host k sys (getrouteMain host pton sys argv fuel) family addr := by
  obtain ⟨msg, ⟨family', addr', hdec, rfl⟩, hdelivers⟩ :=
    hanswer _ (sent_eq haccept hoptind hsocket)
  obtain ⟨rfl, rfl⟩ := (buildRequest_decodes_iff _ _ _ _).mp hdec
  rw [hasked] at hdelivers hdec
  have hrecv : 0 ≤ sys.recvlen := by rw [hdelivers.recvlen]; exact Int.natCast_nonneg _
  have hle : sys.recvlen.toNat ≤ bufSize := by
    have := hdelivers.small
    omega
  have hfamily : buildRequest host.order pton opts.ack_flag (opts.argv[1]?.getD []) getr =
      family :=
    hdec.rtm_family
  rw [getrouteMain, haccept]
  dsimp only
  rw [if_neg (Nat.not_le.mpr hoptind), if_neg (Int.not_lt.mpr hsocket),
    if_neg (Int.not_lt.mpr hsend), if_neg (Int.not_lt.mpr hpoll), if_neg (Int.not_lt.mpr hrecv),
    dif_pos hdelivers.small]
  subst hfamily
  exact handleReply_answer (hdelivers.carries hle) (by dsimp only; omega) hreadable
    Kernel.isOwn_iff

/-- A system that delivers a message. -/
def System.delivering (sys : System) (host : Host) (msg : Message) : System :=
  { sys with
    recvlen := (Tlv.pack 4 (Message.record host.order) [msg]).length
    buf := fun a => (Tlv.pack 4 (Message.record host.order) [msg]).getD a 0 }

theorem bytes_getD (bs : List UInt8) : Mem.bytes (fun a => bs.getD a 0) 0 bs.length = bs := by
  apply List.ext_getElem?
  intro i
  by_cases hi : i < bs.length
  · rw [Mem.getElem?_bytes _ hi, Nat.zero_add, List.getD_eq_getElem?_getD,
      List.getElem?_eq_getElem hi, Option.getD_some]
  · rw [List.getElem?_eq_none (by rw [Mem.length_bytes]; omega), List.getElem?_eq_none (by omega)]

theorem delivers_delivering (sys : System) (host : Host) {msg : Message}
    (hsmall : (Tlv.pack 4 (Message.record host.order) [msg]).length ≤ bufSize) :
    Delivers host (sys.delivering host msg) msg :=
  ⟨rfl, Int.ofNat_le.mpr hsmall, bytes_getD _⟩

/-- A kernel that has one way out. -/
def oneWayOut : Kernel where
  lookup family _ := if family = AF_INET then some oifRoute else none
  error := 0xffffff9b
  error_ne := by decide
  port := 4321

/-- The answer of `oneWayOut` about `10.0.0.1`. -/
def tenDotOneAnswer : Message :=
  oneWayOut.answer linux ⟨buildRequest .little knowsTenDotOne false tenDotOne, reqSize⟩ AF_INET
    [10, 0, 0, 1]

end StudyTips
