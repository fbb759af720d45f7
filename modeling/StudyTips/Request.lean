import StudyTips.Getopt
import StudyTips.ReplyVerdict

/-!
# `c/netlink/getroute.c`: the request, and `main` as a whole

`main` scans its options, fills a request in place, sends it, and handles the
reply. `inet_pton` belongs to the C library: it is a parameter, and `Documented`
says what its manual promises of the texts it takes. `getopt` leaves the command line as it
is or puts the options first, as the system has it (`System.permute`).

The memory of the request has a `Layout` that does not depend on how it came
about, and a request of that layout decodes, by the walks that are used on
replies, to what was put in (`Layout.decodes_iff`). What is put in comes from
`argv[1]`, whichever element of `argv` the operand is: `request_decodes_iff`.
-/

namespace StudyTips

open Bytes CString Getopt

/-! ## `inet_pton` -/

/-- The texts `inet_pton` takes for addresses, and the addresses in network order. -/
structure InetPton : Type where
  /-- the address a text is for `AF_INET` -/
  inet : Str → Option (Vector UInt8 4)
  /-- the address a text is for `AF_INET6` -/
  inet6 : Str → Option (Vector UInt8 16)

/-- `isxdigit`. -/
def isxdigit (c : UInt8) : Bool :=
  isdigit c || (0x41 ≤ c && c ≤ 0x46) || (0x61 ≤ c && c ≤ 0x66)

/-- What the manual says of the texts that `inet_pton` takes. -/
structure InetPton.Documented (pton : InetPton) : Prop where
  /-- an IPv4 address is digits and dots -/
  inet_form : ∀ s a, pton.inet s = some a → s ≠ [] ∧ ∀ c ∈ s, isdigit c ∨ c = 0x2e
  /-- an IPv6 address is hexadecimal digits, colons and dots, with a colon -/
  inet6_form : ∀ s a, pton.inet6 s = some a →
    0x3a ∈ s ∧ ∀ c ∈ s, isxdigit c ∨ c = 0x3a ∨ c = 0x2e

/-- `inet_pton(family, src, dst)`: the memory behind the call and the return value. What
does not convert is not stored. -/
def InetPton.call (pton : InetPton) (family : UInt8) (src : Str) (m : Mem) (dst : ℕ) : Mem × ℤ :=
  if family = AF_INET then
    match pton.inet src with
    | some a => (m.write dst a.toList, 1)
    | none => (m, 0)
  else if family = AF_INET6 then
    match pton.inet6 src with
    | some a => (m.write dst a.toList, 1)
    | none => (m, 0)
  else (m, -1)

/-- The text `s` is the address `addr` of a family. -/
def InetPton.Denotes (pton : InetPton) (s : Str) (family : UInt8) (addr : List UInt8) : Prop :=
  (family = AF_INET ∧ ∃ a, pton.inet s = some a ∧ addr = a.toList) ∨
    (family = AF_INET6 ∧ ∃ a, pton.inet6 s = some a ∧ addr = a.toList)

/-! ## The request -/

/-- `sizeof(req)`: a message header, a `struct rtmsg`, an attribute header and 64 bytes. -/
abbrev reqSize : ℕ := nlmsghdr.sizeof + rtmsg.sizeof + rtattr.sizeof + 64

/-- The offset of `req.getr` in `req`. -/
abbrev getr : ℕ := nlmsghdr.sizeof

/-- The offset of `req.dst.h` in `req`. -/
abbrev dst : ℕ := nlmsghdr.sizeof + rtmsg.sizeof

variable (o : ByteOrder)

/-- The request up to the address: what does not depend on the operand. -/
def startRequest (ack_flag : Bool) : Mem :=
  let m : Mem := fun _ => 0
  let m := o.store16 m 4 RTM_GETROUTE
  let flags := NLM_F_REQUEST
  let flags := if ack_flag then flags ||| NLM_F_ACK else flags
  let m := o.store16 m 6 flags
  let m := o.store32 m 12 1234                        -- nlmsg_pid
  let m := o.store32 m 8 1                            -- nlmsg_seq
  let m := m.write getr [AF_INET6]                    -- rtm_family
  let m := m.write (getr + 4) [0]                     -- RT_TABLE_UNSPEC
  let m := m.write (getr + 5) [0]                     -- RTPROT_UNSPEC
  o.store16 m (dst + 2) (UInt16.ofNat RTA_DST)        -- rta_type

/-- The request `main` builds from `argv[1]`. -/
def buildRequest (pton : InetPton) (ack_flag : Bool) (argv1 : Str) : Mem :=
  let m := startRequest o ack_flag
  let in6Addr : Mem := fun _ => 0
  let rc := (pton.call AF_INET6 argv1 in6Addr 0).2
  let m :=
    -- what is no IPv6 address is taken for an IPv4 one
    if rc ≤ 0 then o.store16 (m.write getr [AF_INET]) dst (UInt16.ofNat (RTA_LENGTH 4))
    else o.store16 m dst (UInt16.ofNat (RTA_LENGTH 16))
  let m := (pton.call (m getr) argv1 m (RTA_DATA dst)).1
  o.store32 m 0 (UInt32.ofNat (NLMSG_LENGTH (rtmsg.sizeof + (rta_len o m dst).toNat)))

/-! ## What a request says -/

/-- A request handed to `send`: the memory it lies in, from address zero on, and its size. -/
structure Sent : Type where
  /-- the memory -/
  mem : Mem
  /-- the bytes sent -/
  size : ℕ

/-- **The request decodes** to one `RTM_GETROUTE` message for a family with one `RTA_DST`
attribute that holds an address of that family, by the walks used on replies; the
message length covers just that, and no more than is sent. -/
structure Decodes (s : Sent) (family : UInt8) (addr : List UInt8) : Prop where
  /-- there is one message -/
  one_message : (msgArea o s.mem s.size).records 0 = [0]
  /-- the message asks for a route -/
  getroute : nlmsg_type o s.mem 0 = RTM_GETROUTE
  /-- the message is about the family -/
  rtm_family : s.mem (NLMSG_DATA 0) = family
  /-- there is one attribute -/
  one_attribute : attributes s.mem o 0 = [dst]
  /-- the attribute is the destination -/
  destination : (rta_type o s.mem dst).toNat = RTA_DST
  /-- the attribute has the length of an address of the family -/
  attr_len : (rta_len o s.mem dst).toNat = RTA_LENGTH (addressSize family)
  /-- the attribute holds the address -/
  payload : s.mem.bytes (RTA_DATA dst) (addressSize family) = addr
  /-- the message is its header, the `struct rtmsg` and the attribute -/
  covers : (nlmsg_len o s.mem 0).toNat =
    NLMSG_LENGTH (rtmsg.sizeof + RTA_LENGTH (addressSize family))
  /-- all of the message is sent -/
  within : (nlmsg_len o s.mem 0).toNat ≤ s.size

/-- The memory of a request for an address of a family. -/
structure Layout (m : Mem) (family : UInt8) (addr : List UInt8) : Prop where
  /-- the address has the length of the family -/
  size : (family = AF_INET ∧ addr.length = 4) ∨ (family = AF_INET6 ∧ addr.length = 16)
  /-- `nlmsg_len` -/
  msg_len : (nlmsg_len o m 0).toNat = 32 + addr.length
  /-- `nlmsg_type` -/
  msg_type : nlmsg_type o m 0 = RTM_GETROUTE
  /-- `rtm_family` -/
  rtm_family : m 16 = family
  /-- `rta_len` -/
  attr_len : (rta_len o m 28).toNat = 4 + addr.length
  /-- `rta_type` -/
  attr_type : (rta_type o m 28).toNat = RTA_DST
  /-- the address -/
  payload : m.bytes 32 addr.length = addr
  /-- zeros are behind the address -/
  zero : ∀ x, 32 + addr.length ≤ x → x < reqSize → m x = 0

variable {o} {m : Mem} {family : UInt8} {addr : List UInt8}

theorem load32_zero {a : ℕ} (h : ∀ x, a ≤ x → x < a + 4 → m x = 0) : o.load32 m a = 0 := by
  have hzero : o.load32 m a = o.load32 (fun _ => 0) a := ByteOrder.load32_congr h
  rw [hzero]
  cases o <;> rfl

namespace Layout

theorem addressSize_eq (h : Layout o m family addr) : addressSize family = addr.length := by
  rcases h.size with ⟨rfl, hlen⟩ | ⟨rfl, hlen⟩
  · rw [hlen]; rfl
  · rw [hlen]; rfl

theorem length_cases (h : Layout o m family addr) : addr.length = 4 ∨ addr.length = 16 :=
  h.size.imp And.right And.right

/-- The walk over a request finds one message, and zeros behind it. -/
theorem one_message (h : Layout o m family addr) : (msgArea o m reqSize).records 0 = [0] := by
  have hmsg := h.msg_len
  have hcases := h.length_cases
  have hnext : (msgArea o m reqSize).next 0 = 32 + addr.length := by
    have hstep : (msgArea o m reqSize).next 0 = 0 + Tlv.alignUp 4 (nlmsg_len o m 0).toNat := rfl
    rw [hstep, hmsg, Tlv.alignUp]
    omega
  have hlongest : (msgArea o m reqSize).Longest 0 [0] (32 + addr.length) := by
    refine ⟨.cons ?_ (hnext ▸ .nil _), ?_⟩
    · rw [msgArea_fits, hmsg, reqSize]
      omega
    · have hzero : nlmsg_len o m (32 + addr.length) = 0 :=
        load32_zero fun x hx hx' => h.zero x hx (by rw [reqSize]; omega)
      rw [msgArea_fits, hzero]
      exact fun hfit => absurd hfit.2.1 (by decide)
  exact hlongest.eq_records.1

/-- The walk over its attributes finds one attribute, which ends the message. -/
theorem one_attribute (h : Layout o m family addr) : attributes m o 0 = [28] := by
  have hmsg := h.msg_len
  have hattr := h.attr_len
  have hcases := h.length_cases
  have hnext : (attrArea o m 0).next 28 = 32 + addr.length := by
    have hstep : (attrArea o m 0).next 28 = 28 + Tlv.alignUp 4 (rta_len o m 28).toNat := rfl
    rw [hstep, hattr, Tlv.alignUp]
    omega
  have hlongest : (attrArea o m 0).Longest (0 + 28) [28] (32 + addr.length) := by
    refine ⟨.cons ?_ (hnext ▸ .nil _), ?_⟩
    · rw [attrArea_fits, hmsg, hattr]
      omega
    · rw [attrArea_fits, hmsg]
      omega
  exact hlongest.eq_records.1

/-- **A request decodes to what was put in, and to nothing else.** -/
theorem decodes_iff (h : Layout o m family addr) {family' : UInt8} {addr' : List UInt8} :
    Decodes o ⟨m, reqSize⟩ family' addr' ↔ family' = family ∧ addr' = addr := by
  refine ⟨?_, ?_⟩
  · intro hdec
    have hfamily : family = family' := h.rtm_family.symm.trans hdec.rtm_family
    subst hfamily
    refine ⟨rfl, ?_⟩
    rw [← hdec.payload, h.addressSize_eq]
    exact h.payload
  · rintro ⟨rfl, rfl⟩
    have hsize := h.addressSize_eq
    have hcases := h.length_cases
    refine ⟨h.one_message, h.msg_type, h.rtm_family, h.one_attribute, h.attr_type, ?_, ?_, ?_, ?_⟩
    · rw [hsize]
      exact h.attr_len
    · rw [hsize]
      exact h.payload
    · rw [hsize, NLMSG_LENGTH_eq, RTA_LENGTH_eq, rtmsg.sizeof]
      have := h.msg_len
      dsimp only
      omega
    · have := h.msg_len
      dsimp only [reqSize]
      omega

end Layout

/-! ## The request that is built -/

/-- What `main` asks for when `argv[1]` is a text: its address, or the IPv4 address that
the cleared request already holds. -/
def requested (pton : InetPton) (s : Str) : UInt8 × List UInt8 :=
  match pton.inet6 s with
  | some a => (AF_INET6, a.toList)
  | none => (AF_INET, ((pton.inet s).map Vector.toList).getD [0, 0, 0, 0])

/-- The request for an address: the address and the lengths over the start. -/
def fillRequest (o : ByteOrder) (ack_flag : Bool) (family : UInt8) (addr : List UInt8) : Mem :=
  o.store32 ((o.store16 ((startRequest o ack_flag).write 16 [family]) 28
    (UInt16.ofNat (4 + addr.length))).write 32 addr) 0 (UInt32.ofNat (32 + addr.length))

/-- The start of the request ends with the attribute header. -/
theorem startRequest_zero (ack_flag : Bool) {x : ℕ} (hx : 32 ≤ x) :
    startRequest o ack_flag x = 0 := by
  simp only [startRequest, getr, dst, nlmsghdr.sizeof, rtmsg.sizeof]
  simp (disch := omega) only [ByteOrder.store16_outside, ByteOrder.store32_outside,
    Mem.write_byte_outside]

theorem startRequest_type (o : ByteOrder) (ack_flag : Bool) :
    nlmsg_type o (startRequest o ack_flag) 0 = RTM_GETROUTE := by
  cases o with
  | little => cases ack_flag <;> rfl
  | big => cases ack_flag <;> rfl

theorem startRequest_rta_type (o : ByteOrder) (ack_flag : Bool) :
    (rta_type o (startRequest o ack_flag) 28).toNat = RTA_DST := by
  cases o with
  | little => cases ack_flag <;> rfl
  | big => cases ack_flag <;> rfl

/-- **A filled request has the layout of what it was filled with.** -/
theorem fillRequest_layout (o : ByteOrder) (ack_flag : Bool)
    (hsize : (family = AF_INET ∧ addr.length = 4) ∨ (family = AF_INET6 ∧ addr.length = 16)) :
    Layout o (fillRequest o ack_flag family addr) family addr := by
  have hcases : addr.length = 4 ∨ addr.length = 16 := hsize.imp And.right And.right
  refine ⟨hsize, ?_, ?_, ?_, ?_, ?_, ?_, ?_⟩
  · rw [nlmsg_len, fillRequest, ByteOrder.store32, ByteOrder.load32_write, UInt32.toNat_ofNat']
    omega
  · rw [nlmsg_type, fillRequest, ByteOrder.store32, ByteOrder.store16,
      ByteOrder.load16_write_of_disjoint _ (.inr (by simp)),
      ByteOrder.load16_write_of_disjoint _ (.inl (by omega)),
      ByteOrder.load16_write_of_disjoint _ (.inl (by omega)),
      ByteOrder.load16_write_of_disjoint _ (.inl (by omega))]
    exact startRequest_type o ack_flag
  · rw [fillRequest, ByteOrder.store32_outside (.inr (by omega)),
      Mem.write_outside (.inl (by omega)), ByteOrder.store16_outside (.inl (by omega))]
    rfl
  · rw [rta_len, fillRequest, ByteOrder.store32, ByteOrder.store16,
      ByteOrder.load16_write_of_disjoint _ (.inr (by simp)),
      ByteOrder.load16_write_of_disjoint _ (.inl (by omega)), ByteOrder.load16_write,
      UInt16.toNat_ofNat']
    omega
  · rw [rta_type, fillRequest, ByteOrder.store32, ByteOrder.store16,
      ByteOrder.load16_write_of_disjoint _ (.inr (by simp)),
      ByteOrder.load16_write_of_disjoint _ (.inl (by omega)),
      ByteOrder.load16_write_of_disjoint _ (.inr (by simp)),
      ByteOrder.load16_write_of_disjoint _ (.inr (by simp))]
    exact startRequest_rta_type o ack_flag
  · rw [fillRequest, ByteOrder.store32, Mem.bytes_write_of_disjoint (.inr (by simp)),
      Mem.bytes_write rfl]
  · intro x hx _
    rw [fillRequest, ByteOrder.store32_outside (.inr (by omega)), Mem.write_outside (.inr hx),
      ByteOrder.store16_outside (.inr (by omega)), Mem.write_byte_outside (.inr (by omega))]
    exact startRequest_zero ack_flag (by omega)

/-- The last step of `main` over the attribute: the length of the message from that of the
attribute. -/
theorem msg_len_eq (m : Mem) (bs : List UInt8) {n : ℕ} (hn : n ≤ 16) :
    NLMSG_LENGTH (rtmsg.sizeof + (rta_len o
      ((o.store16 m dst (UInt16.ofNat (RTA_LENGTH n))).write (RTA_DATA dst) bs) dst).toNat) =
      32 + n := by
  have hload : o.load16 ((o.store16 m dst (UInt16.ofNat (RTA_LENGTH n))).write (RTA_DATA dst) bs)
      dst = UInt16.ofNat (RTA_LENGTH n) := by
    rw [ByteOrder.load16_write_of_disjoint _ (.inl (by rw [RTA_DATA_eq]; omega)),
      ByteOrder.store16, ByteOrder.load16_write]
  rw [rta_len, hload, UInt16.toNat_ofNat', NLMSG_LENGTH_eq, RTA_LENGTH_eq, rtmsg.sizeof]
  omega

theorem startRequest_family (o : ByteOrder) (ack_flag : Bool) :
    (startRequest o ack_flag).bytes 16 1 = [AF_INET6] := by
  cases o with
  | little => cases ack_flag <;> rfl
  | big => cases ack_flag <;> rfl

/-- The payload of the attribute is clear until an address is stored there. -/
theorem payload_zero (o : ByteOrder) (ack_flag : Bool) (v : UInt16) :
    (o.store16 ((startRequest o ack_flag).write getr [AF_INET]) dst v).bytes 32 4 =
      [0, 0, 0, 0] := by
  have hword : dst + (o.bytes16 v).length ≤ 32 := by rw [ByteOrder.length_bytes16]; decide
  have hfamily : getr + [AF_INET].length ≤ 32 := by decide
  rw [ByteOrder.store16, Mem.bytes_write_of_disjoint (.inr hword),
    Mem.bytes_write_of_disjoint (.inr hfamily)]
  simp [Mem.bytes_succ, startRequest_zero]

/-- `main` builds the request for what `argv[1]` is. -/
theorem buildRequest_eq (o : ByteOrder) (pton : InetPton) (ack_flag : Bool) (s : Str) :
    buildRequest o pton ack_flag s =
      fillRequest o ack_flag (requested pton s).1 (requested pton s).2 := by
  have hne : ¬ AF_INET6 = AF_INET := by decide
  cases h6 : pton.inet6 s with
  | some a =>
    have hcall : ∀ m d, pton.call AF_INET6 s m d = (m.write d a.toList, 1) := fun m d => by
      simp [InetPton.call, hne, h6]
    have hrc : ¬ (1 : ℤ) ≤ 0 := by decide
    -- the family is in place already
    have hsame : (startRequest o ack_flag).write 16 [AF_INET6] = startRequest o ack_flag :=
      Mem.write_eq_self (startRequest_family o ack_flag)
    have hfamily : o.store16 (startRequest o ack_flag) dst (UInt16.ofNat (RTA_LENGTH 16)) getr =
        AF_INET6 := by
      rw [ByteOrder.store16_outside (.inl (by decide))]
      exact List.head_eq_of_cons_eq (startRequest_family o ack_flag)
    simp only [buildRequest, hcall, if_neg hrc, hfamily, msg_len_eq _ _ (le_refl 16), requested,
      fillRequest, h6, hsame, Vector.length_toList]
    rfl
  | none =>
    have hcall6 : ∀ m d, pton.call AF_INET6 s m d = (m, 0) := fun m d => by
      simp [InetPton.call, hne, h6]
    have hrc : (0 : ℤ) ≤ 0 := le_refl 0
    have hfamily : o.store16 ((startRequest o ack_flag).write getr [AF_INET]) dst
        (UInt16.ofNat (RTA_LENGTH 4)) getr = AF_INET := by
      rw [ByteOrder.store16_outside (.inl (by decide))]
      rfl
    cases h4 : pton.inet s with
    | some a =>
      have hcall : ∀ m d, pton.call AF_INET s m d = (m.write d a.toList, 1) := fun m d => by
        simp [InetPton.call, h4]
      simp only [buildRequest, hcall6, hcall, if_pos hrc, hfamily,
        msg_len_eq _ _ (by decide : 4 ≤ 16), requested, fillRequest, h6, h4, Option.map_some,
        Option.getD_some, Vector.length_toList]
      rfl
    | none =>
      -- nothing is stored, and nothing was there
      have hcall : ∀ v, (pton.call AF_INET s
          (o.store16 ((startRequest o ack_flag).write getr [AF_INET]) dst v) (RTA_DATA dst)).1 =
          (o.store16 ((startRequest o ack_flag).write getr [AF_INET]) dst v).write (RTA_DATA dst)
            [0, 0, 0, 0] := fun v => by
        refine Eq.trans ?_ (Mem.write_eq_self (payload_zero o ack_flag v)).symm
        simp [InetPton.call, h4]
      simp only [buildRequest, hcall6, hcall, if_pos hrc, hfamily,
        msg_len_eq _ _ (by decide : 4 ≤ 16), requested, fillRequest, h6, h4, Option.map_none,
        Option.getD_none]
      rfl

/-- What is requested is an address of its family. -/
theorem requested_size (pton : InetPton) (s : Str) :
    ((requested pton s).1 = AF_INET ∧ (requested pton s).2.length = 4) ∨
      ((requested pton s).1 = AF_INET6 ∧ (requested pton s).2.length = 16) := by
  rw [requested]
  cases pton.inet6 s with
  | some a => exact .inr ⟨rfl, Vector.length_toList⟩
  | none =>
    refine .inl ⟨rfl, ?_⟩
    cases pton.inet s with
    | some a => exact Vector.length_toList
    | none => rfl

/-- **The request decodes to what was requested.** -/
theorem buildRequest_decodes_iff (o : ByteOrder) (pton : InetPton) (ack_flag : Bool) (s : Str)
    {family : UInt8} {addr : List UInt8} :
    Decodes o ⟨buildRequest o pton ack_flag s, reqSize⟩ family addr ↔
      family = (requested pton s).1 ∧ addr = (requested pton s).2 := by
  rw [buildRequest_eq]
  exact (fillRequest_layout o ack_flag (requested_size pton s)).decodes_iff

namespace InetPton

variable {pton : InetPton}

/-- No text is an address of both families. -/
theorem Documented.inet6_eq_none (hdoc : pton.Documented) {s : Str} {a : Vector UInt8 4}
    (h : pton.inet s = some a) : pton.inet6 s = none := by
  cases h6 : pton.inet6 s with
  | none => rfl
  | some b =>
    obtain ⟨hcolon, -⟩ := hdoc.inet6_form s b h6
    obtain ⟨-, hchars⟩ := hdoc.inet_form s a h
    rcases hchars 0x3a hcolon with hdigit | hdot
    · exact absurd hdigit (by decide)
    · exact absurd hdot (by decide)

/-- A text that begins like an option is no address. -/
theorem Documented.eq_none_of_dash (hdoc : pton.Documented) {s : Str}
    (hdash : s.head? = some dash) : pton.inet s = none ∧ pton.inet6 s = none := by
  have hmem : dash ∈ s := List.mem_of_head? hdash
  refine ⟨?_, ?_⟩
  · refine Option.eq_none_iff_forall_ne_some.mpr fun a h => ?_
    rcases (hdoc.inet_form s a h).2 dash hmem with hdigit | hdot
    · exact absurd hdigit (by decide)
    · exact absurd hdot (by decide)
  · refine Option.eq_none_iff_forall_ne_some.mpr fun a h => ?_
    rcases (hdoc.inet6_form s a h).2 dash hmem with hdigit | hcolon | hdot
    · exact absurd hdigit (by decide)
    · exact absurd hcolon (by decide)
    · exact absurd hdot (by decide)

/-- A text that is an address is what is requested. -/
theorem Documented.requested_eq (hdoc : pton.Documented) {s : Str} {family : UInt8}
    {addr : List UInt8} (h : pton.Denotes s family addr) : requested pton s = (family, addr) := by
  rcases h with ⟨rfl, a, ha, rfl⟩ | ⟨rfl, a, ha, rfl⟩
  · rw [requested, hdoc.inet6_eq_none ha, ha]
    rfl
  · rw [requested, ha]

end InetPton

/-! ## `main` -/

/-- What the system answers `main`. -/
structure System : Type where
  /-- whether `getopt` puts the options before the operands -/
  permute : Bool
  /-- the return value of `socket` -/
  socket : ℤ
  /-- the return value of `send` -/
  send : ℤ
  /-- the return value of `poll` -/
  poll : ℤ
  /-- the return value of `recvfrom` -/
  recvlen : ℤ
  /-- the memory at `buf` behind `recvfrom` -/
  buf : Mem
  /-- the return value of `getpid` -/
  self_pid : Int32

/-- What a run of `main` has done. -/
structure MainRun : Type where
  /-- the request sent, if there is one -/
  sent : Option Sent
  /-- what `main` returns, `none` while a loop still runs -/
  rc : Option ℤ
  /-- what `main` has looked at in the reply -/
  log : List RouteEvent

/-- What the options of a command line come to. -/
structure Options : Type where
  /-- `argv`, as `getopt` has left it -/
  argv : List Str
  /-- `optind` -/
  optind : ℕ
  /-- `ack_flag` -/
  ack_flag : Bool

/-- The body of the option loop: `-a` sets `ack_flag`. -/
def getrouteOption (ack_flag : Bool) (o : Opt) : Bool := if o.1 = 0x61 then true else ack_flag

/-- The option loop, over `"a"`; it gives no options where the usage message is printed. -/
def optionLoop (permute : Bool) (argv : List Str) (fuel : ℕ) : Option (Option Options) :=
  (Getopt.optionLoop getrouteOption permute [0x61] argv false fuel).map fun e =>
    if e.ok then some ⟨argv.take 1 ++ e.state.args, e.state.optind, e.vars⟩ else none

/-- `main`. -/
def getrouteMain (host : Host) (pton : InetPton) (sys : System) (argv : List Str) (fuel : ℕ) :
    MainRun :=
  match optionLoop sys.permute argv fuel with
  | none => ⟨none, none, []⟩
  | some none => ⟨none, some (-1), []⟩
  | some (some opts) =>
    if opts.argv.length ≤ opts.optind then ⟨none, some (-1), []⟩
    else if sys.socket < 0 then ⟨none, some (-1), []⟩
    else
      let req := buildRequest host.order pton opts.ack_flag (opts.argv[1]?.getD [])
      let sent := some ⟨req, reqSize⟩
      if sys.send < 0 then ⟨sent, some (-1), []⟩
      else if sys.poll < 0 then ⟨sent, some (-1), []⟩
      else if sys.recvlen < 0 then ⟨sent, some (-1), []⟩
      else if h : sys.recvlen ≤ bufSize then
        let session := ⟨req getr, nlmsg_pid host.order req 0, sys.self_pid⟩
        let reply := ⟨sys.buf, sys.recvlen.toNat, by omega⟩
        let run := handleReply host session reply fuel
        ⟨sent, run.val, run.log⟩
      else ⟨sent, some (-1), []⟩ -- truncated

/-- **The option loop ends**, in no more turns than the command line has characters. -/
theorem optionLoop_ends (permute : Bool) (argv : List Str) {fuel : ℕ}
    (hfuel : (State.start argv).size < fuel) : ∃ r, optionLoop permute argv fuel = some r := by
  obtain ⟨os, ok, hscan⟩ : ∃ os ok, Scan permute [0x61] (.start argv) os ok := exists_scan _
  obtain ⟨s', hloop⟩ := optionLoop_eq getrouteOption hscan (v := false) hfuel
  exact ⟨_, by rw [optionLoop, hloop]; rfl⟩

/-- No option comes before the operand, and no `--`: where `getopt` puts options first, there is
none on the whole command line. -/
def NoOptionFirst (permute : Bool) (argv : List Str) : Prop :=
  ∀ arg ∈ if permute then argv.drop 1 else (argv.drop 1).take 1, ¬ IsOption arg

instance (permute : Bool) (argv : List Str) : Decidable (NoOptionFirst permute argv) :=
  inferInstanceAs (Decidable (∀ arg ∈ _, _))

variable {permute : Bool} {argv : List Str} {fuel : ℕ} {opts : Options}

/-- The options of a command line are those of the last call of `getopt`. -/
theorem exists_ended (haccept : optionLoop permute argv fuel = some (some opts)) :
    ∃ e, Getopt.optionLoop getrouteOption permute [0x61] argv false fuel = some e ∧
      opts = ⟨argv.take 1 ++ e.state.args, e.state.optind, e.vars⟩ := by
  obtain ⟨e, he, hopts⟩ := Option.map_eq_some_iff.mp haccept
  refine ⟨e, he, ?_⟩
  split at hopts
  · exact (Option.some.inj hopts).symm
  · cases hopts

/-- **POSIX leaves the command line as it is**: the operand stands in it at `optind`. -/
theorem argv_eq (haccept : optionLoop false argv fuel = some (some opts)) : opts.argv = argv := by
  obtain ⟨e, he, rfl⟩ := exists_ended haccept
  dsimp only
  rw [optionLoop_args he, List.take_append_drop]

/-- On a command line that has no option first the operand is the first element. -/
theorem optind_eq_one (h : NoOptionFirst permute argv)
    (haccept : optionLoop permute argv fuel = some (some opts)) :
    opts.optind = 1 ∧ opts.argv = argv := by
  obtain ⟨e, he, rfl⟩ := exists_ended haccept
  obtain rfl := (optionLoop_used he).2 (nextElement_eq_none_iff.mpr h)
  exact ⟨rfl, List.take_append_drop 1 argv⟩

/-- On any other the first element is an option, or `--`, when `getopt` is done with it. -/
theorem isOption_of_not (h : ¬ NoOptionFirst permute argv)
    (haccept : optionLoop permute argv fuel = some (some opts)) :
    ∃ arg, opts.argv[1]? = some arg ∧ IsOption arg := by
  obtain ⟨e, he, rfl⟩ := exists_ended haccept
  have hnext : nextElement permute (argv.drop 1) ≠ none := mt nextElement_eq_none_iff.mp h
  obtain ⟨arg, hhead, hoption⟩ := (optionLoop_used he).1 hnext
  refine ⟨arg, ?_, hoption⟩
  have hprog : (argv.take 1).length = 1 := by
    cases argv with
    | nil => exact absurd rfl hnext
    | cons prog args => rfl
  obtain ⟨used, hused⟩ := List.head?_eq_some_iff.mp hhead
  dsimp only [State.args]
  rw [List.getElem?_append_right hprog.le, hprog, hused]
  rfl

/-- `main` sends what it builds from `argv[1]`. -/
theorem sent_eq {host : Host} {pton : InetPton} {sys : System}
    (haccept : optionLoop sys.permute argv fuel = some (some opts))
    (hoptind : opts.optind < opts.argv.length) (hsocket : 0 ≤ sys.socket) :
    (getrouteMain host pton sys argv fuel).sent =
      some ⟨buildRequest host.order pton opts.ack_flag (opts.argv[1]?.getD []), reqSize⟩ := by
  rw [getrouteMain, haccept]
  dsimp only
  rw [if_neg (Nat.not_le.mpr hoptind), if_neg (Int.not_lt.mpr hsocket)]
  split_ifs <;> rfl

/-- **What `argv[1]` stands for**: the operand if no option comes first, and else `0.0.0.0`, since
an option is no address. -/
theorem requested_argv {pton : InetPton} (hdoc : pton.Documented)
    (haccept : optionLoop permute argv fuel = some (some opts)) {operand : Str}
    (hoperand : opts.argv[opts.optind]? = some operand) {family : UInt8} {addr : List UInt8}
    (hvalid : pton.Denotes operand family addr) :
    (NoOptionFirst permute argv →
        requested pton (opts.argv[1]?.getD []) = (family, addr)) ∧
      (¬ NoOptionFirst permute argv →
        requested pton (opts.argv[1]?.getD []) = (AF_INET, [0, 0, 0, 0])) := by
  refine ⟨fun hfirst => ?_, fun hfirst => ?_⟩
  · rw [(optind_eq_one hfirst haccept).1] at hoperand
    rw [hoperand, Option.getD_some, hdoc.requested_eq hvalid]
  · obtain ⟨arg, harg, hdash, -⟩ := isOption_of_not hfirst haccept
    obtain ⟨h4, h6⟩ := hdoc.eq_none_of_dash hdash
    rw [harg, Option.getD_some, requested, h6, h4]
    rfl

/-- **The request asks for the operand exactly when no option comes first**, or when the
operand is `0.0.0.0`: behind an option `argv[1]` is the option, which is no address, and
the cleared payload of the request stands for an IPv4 address. -/
theorem request_decodes_iff (host : Host) {pton : InetPton} (hdoc : pton.Documented)
    (sys : System) (hsocket : 0 ≤ sys.socket) {argv : List Str} {fuel : ℕ} {opts : Options}
    (haccept : optionLoop sys.permute argv fuel = some (some opts)) {operand : Str}
    (hoperand : opts.argv[opts.optind]? = some operand) {family : UInt8} {addr : List UInt8}
    (hvalid : pton.Denotes operand family addr) :
    (∃ req, (getrouteMain host pton sys argv fuel).sent = some req ∧
        Decodes host.order req family addr) ↔
      NoOptionFirst sys.permute argv ∨ (family = AF_INET ∧ addr = [0, 0, 0, 0]) := by
  obtain ⟨hoptind, -⟩ := List.getElem?_eq_some_iff.mp hoperand
  obtain ⟨hoperand', hany⟩ := requested_argv hdoc haccept hoperand hvalid
  rw [sent_eq haccept hoptind hsocket]
  simp only [Option.some.injEq, exists_eq_left', buildRequest_decodes_iff]
  by_cases hfirst : NoOptionFirst sys.permute argv
  · -- the operand is `argv[1]`
    rw [hoperand' hfirst]
    exact ⟨fun _ => .inl hfirst, fun _ => ⟨rfl, rfl⟩⟩
  · -- `argv[1]` is an option
    rw [hany hfirst]
    exact ⟨.inr, fun h => h.resolve_left hfirst⟩

/-! ## Two command lines -/

/-- The text `10.0.0.1`. -/
def tenDotOne : Str := [0x31, 0x30, 0x2e, 0x30, 0x2e, 0x30, 0x2e, 0x31]

/-- An `inet_pton` that knows this text only. -/
def knowsTenDotOne : InetPton where
  inet s := if s = tenDotOne then some #v[10, 0, 0, 1] else none
  inet6 _ := none

theorem knowsTenDotOne_documented : knowsTenDotOne.Documented where
  inet_form s a h := by
    obtain ⟨rfl, -⟩ : s = tenDotOne ∧ _ := by simpa [knowsTenDotOne] using h
    have hall : (tenDotOne.all fun c => isdigit c || c == 0x2e) = true := rfl
    refine ⟨List.cons_ne_nil _ _, fun c hc => ?_⟩
    simpa using List.all_eq_true.mp hall c hc
  inet6_form s a h := by cases h

theorem knowsTenDotOne_denotes : knowsTenDotOne.Denotes tenDotOne AF_INET [10, 0, 0, 1] :=
  .inl ⟨rfl, #v[10, 0, 0, 1], rfl, rfl⟩

/-- A system where everything up to the reply works. -/
def answering : System := ⟨false, 3, 96, 1, 0, fun _ => 0, 4321⟩

/-- `getroute 10.0.0.1` sends a request for that address. -/
theorem request_decodes_tenDotOne :
    ∃ req, (getrouteMain linux knowsTenDotOne answering [[], tenDotOne] 20).sent = some req ∧
      Decodes linux.order req AF_INET [10, 0, 0, 1] :=
  (request_decodes_iff linux knowsTenDotOne_documented answering (by decide)
    (show optionLoop false [[], tenDotOne] 20 = some (some ⟨[[], tenDotOne], 1, false⟩) from rfl)
    rfl knowsTenDotOne_denotes).mpr (.inl (by decide))

/-- The operand of `getroute -a 10.0.0.1` is accepted, and `0.0.0.0` is asked for. -/
theorem ack_requests_any :
    optionLoop false [[], [0x2d, 0x61], tenDotOne] 20 =
        some (some ⟨[[], [0x2d, 0x61], tenDotOne], 2, true⟩) ∧
      knowsTenDotOne.Documented ∧ knowsTenDotOne.Denotes tenDotOne AF_INET [10, 0, 0, 1] ∧
      ¬ ∃ req, (getrouteMain linux knowsTenDotOne answering [[], [0x2d, 0x61], tenDotOne]
        20).sent = some req ∧ Decodes linux.order req AF_INET [10, 0, 0, 1] := by
  have haccept : optionLoop false [[], [0x2d, 0x61], tenDotOne] 20 =
      some (some ⟨[[], [0x2d, 0x61], tenDotOne], 2, true⟩) := rfl
  refine ⟨haccept, knowsTenDotOne_documented, knowsTenDotOne_denotes, ?_⟩
  rintro ⟨req, hsent, hdec⟩
  rw [sent_eq haccept (by decide) (by decide)] at hsent
  obtain rfl := Option.some.inj hsent
  obtain ⟨-, haddr⟩ := (buildRequest_decodes_iff _ _ _ _).mp hdec
  exact absurd haddr (by decide)

end StudyTips
