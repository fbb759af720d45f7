import StudyTips.Netlink
import StudyTips.TlvPack

/-!
# Netlink messages as the kernel writes them

The other side of the walks: a message is a header with its own length, the body, and
for a route a `struct rtmsg` with attributes behind it. `Attr.record` and
`Message.record` are their bytes in host order, and whatever memory holds such bytes
reads back as what was written (`Attr.lies`, `Message.lies`).

Three kinds of body answer a request for a route: the route, an error with the request
it is about (with error zero, an acknowledgement), and the end of several parts.
-/

namespace StudyTips

open Bytes

variable (o : ByteOrder)

/-! ## Attributes -/

/-- An attribute. -/
structure Attr : Type where
  /-- the type of the attribute -/
  rta_type : UInt16
  /-- the payload of the attribute -/
  payload : List UInt8
  /-- the attribute is short enough for a 16-bit length -/
  small : rtattr.sizeof + payload.length < 2 ^ 16

/-- The bytes of an attribute. -/
def Attr.record (a : Attr) : List UInt8 :=
  o.bytes16 (UInt16.ofNat (rtattr.sizeof + a.payload.length)) ++
    (o.bytes16 a.rta_type ++ a.payload)

variable {o} {m : Mem} {x : ℕ}

@[simp] theorem Attr.length_record (a : Attr) : (a.record o).length = 4 + a.payload.length := by
  simp [record]
  omega

/-- The memory holds an attribute at an address. -/
structure Attr.Lies (o : ByteOrder) (m : Mem) (x : ℕ) (a : Attr) : Prop where
  /-- the length read is that of the attribute -/
  len : (rta_len o m x).toNat = 4 + a.payload.length
  /-- the type read is that of the attribute -/
  type : StudyTips.rta_type o m x = a.rta_type
  /-- the bytes behind the header are the payload -/
  payload : m.bytes (RTA_DATA x) a.payload.length = a.payload

/-- **An attribute that was written is read.** -/
theorem Attr.lies {a : Attr} (h : m.bytes x (a.record o).length = a.record o) :
    a.Lies o m x := by
  have hsmall := a.small
  obtain ⟨hlen, hrest⟩ := Mem.bytes_eq_append.mp h
  obtain ⟨htype, hpayload⟩ := Mem.bytes_eq_append.mp hrest
  rw [ByteOrder.length_bytes16] at htype hpayload
  refine ⟨?_, ByteOrder.load16_of_bytes htype, ?_⟩
  · rw [rta_len, ByteOrder.load16_of_bytes hlen, UInt16.toNat_ofNat', Nat.mod_eq_of_lt hsmall]
  · rw [ByteOrder.length_bytes16] at hpayload
    exact hpayload

/-! ## Messages -/

/-- A `struct rtmsg`. -/
structure Rtmsg : Type where
  /-- address family -/
  rtm_family : UInt8
  /-- length of the destination -/
  rtm_dst_len : UInt8
  /-- length of the source -/
  rtm_src_len : UInt8
  /-- TOS filter -/
  rtm_tos : UInt8
  /-- routing table -/
  rtm_table : UInt8
  /-- routing protocol -/
  rtm_protocol : UInt8
  /-- distance to the destination -/
  rtm_scope : UInt8
  /-- kind of the route -/
  rtm_type : UInt8
  /-- flags -/
  rtm_flags : UInt32

/-- The bytes of a `struct rtmsg`. -/
def Rtmsg.bytes (o : ByteOrder) (r : Rtmsg) : List UInt8 :=
  [r.rtm_family, r.rtm_dst_len, r.rtm_src_len, r.rtm_tos, r.rtm_table, r.rtm_protocol,
    r.rtm_scope, r.rtm_type] ++ o.bytes32 r.rtm_flags

/-- A route with its attributes. -/
structure Route : Type where
  /-- the `struct rtmsg` -/
  rtm : Rtmsg
  /-- the attributes -/
  attrs : List Attr

/-- The body of a message. -/
inductive Body : Type where
  /-- `RTM_NEWROUTE` -/
  | route (r : Route)
  /-- `NLMSG_ERROR`: the error, and the header and the rest of the message it is about -/
  | error (code : UInt32) (msg : Vector UInt8 16) (rest : List UInt8)
  /-- `NLMSG_DONE` -/
  | done (payload : List UInt8)

/-- A message. -/
structure Message : Type where
  /-- additional flags -/
  nlmsg_flags : UInt16
  /-- sequence number -/
  nlmsg_seq : UInt32
  /-- port of the receiver -/
  nlmsg_pid : UInt32
  /-- the body of the message -/
  body : Body

namespace Body

/-- The type of a message. -/
def type : Body → UInt16
  | route _ => RTM_NEWROUTE
  | error .. => NLMSG_ERROR
  | done _ => NLMSG_DONE

/-- The bytes of a body. -/
def payload (o : ByteOrder) : Body → List UInt8
  | route r => r.rtm.bytes o ++ Tlv.pack 4 (Attr.record o) r.attrs
  | error code msg rest => o.bytes32 code ++ (msg.toList ++ rest)
  | done payload => payload

end Body

namespace Message

/-- The bytes of a message. -/
def record (o : ByteOrder) (msg : Message) : List UInt8 :=
  o.bytes32 (UInt32.ofNat (nlmsghdr.sizeof + (msg.body.payload o).length)) ++
    (o.bytes16 msg.body.type ++ (o.bytes16 msg.nlmsg_flags ++ (o.bytes32 msg.nlmsg_seq ++
      (o.bytes32 msg.nlmsg_pid ++ msg.body.payload o))))

theorem length_record (msg : Message) :
    (msg.record o).length = 16 + (msg.body.payload o).length := by
  simp [record]
  omega

/-- The memory holds a message at an address. -/
structure Lies (o : ByteOrder) (m : Mem) (x : ℕ) (msg : Message) : Prop where
  /-- the length read is that of the message -/
  len : (nlmsg_len o m x).toNat = 16 + (msg.body.payload o).length
  /-- the type read is that of the body -/
  type : nlmsg_type o m x = msg.body.type
  /-- the port read is that of the message -/
  pid : StudyTips.nlmsg_pid o m x = msg.nlmsg_pid
  /-- the bytes behind the header are the body -/
  payload : m.bytes (x + 16) (msg.body.payload o).length = msg.body.payload o

/-- **A message that was written is read**, if 32 bits count it. -/
theorem lies {msg : Message} (h : m.bytes x (msg.record o).length = msg.record o)
    (hsmall : (msg.record o).length < 2 ^ 32) : msg.Lies o m x := by
  rw [length_record] at hsmall
  obtain ⟨hlen, h⟩ := Mem.bytes_eq_append.mp h
  obtain ⟨htype, h⟩ := Mem.bytes_eq_append.mp h
  obtain ⟨_, h⟩ := Mem.bytes_eq_append.mp h
  obtain ⟨_, h⟩ := Mem.bytes_eq_append.mp h
  obtain ⟨hpid, hpayload⟩ := Mem.bytes_eq_append.mp h
  simp only [ByteOrder.length_bytes16, ByteOrder.length_bytes32, Nat.add_assoc,
    Nat.reduceAdd] at htype hpid hpayload
  refine ⟨?_, ?_, ?_, hpayload⟩
  · rw [nlmsg_len, ByteOrder.load32_of_bytes hlen, UInt32.toNat_ofNat', Nat.mod_eq_of_lt hsmall]
  · exact ByteOrder.load16_of_bytes (by simpa using htype)
  · exact ByteOrder.load32_of_bytes (by simpa using hpid)

end Message

end StudyTips
