import StudyTips.Bytes
import StudyTips.Tlv
import StudyTips.Traced

/-!
# `linux/netlink.h` and `linux/rtnetlink.h`: headers and the walks over them

The part of the kernel's headers that the netlink program uses. Messages and
attributes lie in a byte memory in host order; a header is named by its address.
`NLMSG_OK` and `RTA_OK` look at a header only when the length left has room for
one, and log that they do.

The macros count the length left down, in `ssize_t` for messages and in `int` for
attributes, with `unsigned` alignment in between. `NLMSG_OK_val`, `NLMSG_NEXT_eq`
and their attribute twins say that as long as the buffer is small enough they
walk the records of `msgArea` and `attrArea`.
-/

namespace StudyTips

open Bytes

/-! ## The structures -/

/-- `sizeof(struct nlmsghdr)`. -/
abbrev nlmsghdr.sizeof : ℕ := 16

/-- `sizeof(struct nlmsgerr)`. -/
abbrev nlmsgerr.sizeof : ℕ := 20

/-- `sizeof(struct rtmsg)`. -/
abbrev rtmsg.sizeof : ℕ := 12

/-- `sizeof(struct rtattr)`. -/
abbrev rtattr.sizeof : ℕ := 4

def NLMSG_ERROR : UInt16 := 2
def NLMSG_DONE : UInt16 := 3
def RTM_NEWROUTE : UInt16 := 24
def RTM_GETROUTE : UInt16 := 26
def NLM_F_REQUEST : UInt16 := 1
def NLM_F_ACK : UInt16 := 4

abbrev RTA_DST : ℕ := 1
abbrev RTA_SRC : ℕ := 2
abbrev RTA_IIF : ℕ := 3
abbrev RTA_OIF : ℕ := 4
abbrev RTA_TABLE : ℕ := 15

def AF_INET : UInt8 := 2
def AF_INET6 : UInt8 := 10

section Fields

variable (o : ByteOrder) (m : Mem)

/-- `h->nlmsg_len`. -/
def nlmsg_len (h : ℕ) : UInt32 := o.load32 m h

/-- `h->nlmsg_type`. -/
def nlmsg_type (h : ℕ) : UInt16 := o.load16 m (h + 4)

/-- `h->nlmsg_pid`. -/
def nlmsg_pid (h : ℕ) : UInt32 := o.load32 m (h + 12)

/-- `rta->rta_len`. -/
def rta_len (rta : ℕ) : UInt16 := o.load16 m rta

/-- `rta->rta_type`. -/
def rta_type (rta : ℕ) : UInt16 := o.load16 m (rta + 2)

end Fields

/-! ## Alignment -/

/-- `((len) + to - 1) & ~(to - 1)`, in `unsigned`. -/
def alignTo (unit len : UInt32) : UInt32 := (len + unit - 1) &&& ~~~(unit - 1)

/-- `NLMSG_ALIGN`. -/
def NLMSG_ALIGN (len : UInt32) : UInt32 := alignTo 4 len

/-- `RTA_ALIGN`. -/
def RTA_ALIGN (len : UInt32) : UInt32 := alignTo 4 len

/-- Clearing the two low bits rounds down to a multiple of four. -/
theorem and_mask_eq {n : ℕ} (h : n < 2 ^ 32) : n &&& (2 ^ 32 - 4) = n / 4 * 4 := by
  have hmask : (2 ^ 32 - 4 : ℕ) = (2 ^ 30 - 1) <<< 2 := by decide
  have hn : n / 4 * 4 = n >>> 2 <<< 2 := by
    rw [Nat.shiftRight_eq_div_pow, Nat.shiftLeft_eq]
  rw [hmask, hn]
  apply Nat.eq_of_testBit_eq
  intro i
  rw [Nat.testBit_and, Nat.testBit_shiftLeft, Nat.testBit_shiftLeft, Nat.testBit_two_pow_sub_one,
    Nat.testBit_shiftRight]
  by_cases hi : 2 ≤ i
  · have hsum : 2 + (i - 2) = i := by omega
    by_cases hlt : i < 32
    · simp [hi, hsum, show i - 2 < 30 by omega]
    · have hbit : n.testBit i = false :=
        Nat.testBit_lt_two_pow (lt_of_lt_of_le h (Nat.pow_le_pow_right (by decide) (by omega)))
      simp [hsum, hbit]
  · simp [hi]

/-- **The kernel's mask is alignment to four**, short of the last word. -/
theorem alignTo_toNat {len : UInt32} (h : len.toNat + 3 < 2 ^ 32) :
    (alignTo 4 len).toNat = Tlv.alignUp 4 len.toNat := by
  have hsum : (len + 4 - 1).toNat = len.toNat + 3 := by
    rw [UInt32.toNat_sub, UInt32.toNat_add]
    simp only [UInt32.reduceToNat]
    omega
  have hmask : (~~~(4 - 1) : UInt32).toNat = 2 ^ 32 - 4 := by decide
  rw [alignTo, UInt32.toNat_and, hsum, hmask, and_mask_eq h, Tlv.alignUp,
    show len.toNat + 4 - 1 = len.toNat + 3 from rfl]

/-- `NLMSG_LENGTH`: a payload length with its message header. -/
def NLMSG_LENGTH (len : ℕ) : ℕ := len + (NLMSG_ALIGN nlmsghdr.sizeof.toUInt32).toNat

/-- `RTA_LENGTH`: a payload length with its attribute header. -/
def RTA_LENGTH (len : ℕ) : ℕ := (RTA_ALIGN rtattr.sizeof.toUInt32).toNat + len

@[simp] theorem NLMSG_LENGTH_eq (len : ℕ) : NLMSG_LENGTH len = len + 16 := rfl

@[simp] theorem RTA_LENGTH_eq (len : ℕ) : RTA_LENGTH len = 4 + len := rfl

/-- `NLMSG_DATA`: the payload of a message. -/
def NLMSG_DATA (h : ℕ) : ℕ := h + NLMSG_LENGTH 0

/-- `RTM_RTA`: the attributes behind a `struct rtmsg`. -/
def RTM_RTA (r : ℕ) : ℕ := r + (NLMSG_ALIGN rtmsg.sizeof.toUInt32).toNat

/-- `RTA_DATA`: the payload of an attribute. -/
def RTA_DATA (rta : ℕ) : ℕ := rta + RTA_LENGTH 0

@[simp] theorem NLMSG_DATA_eq (h : ℕ) : NLMSG_DATA h = h + 16 := rfl

@[simp] theorem RTM_RTA_eq (r : ℕ) : RTM_RTA r = r + 12 := rfl

@[simp] theorem RTA_DATA_eq (rta : ℕ) : RTA_DATA rta = rta + 4 := rfl

/-! ## The walks -/

/-- What a typed read takes from the payload of an attribute. -/
inductive Payload : Type where
  /-- an `int` -/
  | int
  /-- a string, up to its NUL -/
  | string
  /-- an address of a family -/
  | address (family : UInt8)
  deriving DecidableEq

/-- What a run over received messages looks at and does. -/
inductive RouteEvent : Type where
  /-- the header of the message at `h` is looked at -/
  | nlmsghdr (h : ℕ)
  /-- the `struct nlmsgerr` of the message at `h` is read -/
  | nlmsgerr (h : ℕ)
  /-- `nl_filter_route` is called on the message at `n` -/
  | nl_filter_route (n : ℕ)
  /-- the header of the attribute at `rta` of the message at `n` is looked at -/
  | rtattr (n rta : ℕ)
  /-- `tb[type]` is read or written -/
  | tb (type : ℕ)
  /-- the attribute loop over the message at `n` is over and has left `tb` so -/
  | table (n : ℕ) (tb : ℕ → Option ℕ)
  /-- the `struct rtmsg` of the message at `n` is read -/
  | rtmsg (n : ℕ)
  /-- the payload of the attribute at `rta` of the message at `n` is read -/
  | payload (n rta : ℕ) (read : Payload)

/-- The pointer and the length left that the macros move. -/
structure Cursor : Type where
  /-- `h` or `rta` -/
  pos : ℕ
  /-- `msglen` or `len` -/
  len : ℤ

/-- What is left of a buffer up to `stop` from `pos` on. -/
def Cursor.upTo (stop pos : ℕ) : Cursor := ⟨pos, stop - pos⟩

@[simp] theorem Cursor.upTo_pos (stop pos : ℕ) : (Cursor.upTo stop pos).pos = pos := rfl

theorem Cursor.upTo_len (stop pos : ℕ) : (Cursor.upTo stop pos).len = stop - pos := rfl

/-- The length left has room for `n` bytes exactly when the buffer has. -/
theorem Cursor.le_upTo_len {stop pos n : ℕ} :
    (n : ℤ) ≤ (Cursor.upTo stop pos).len ↔ pos + n ≤ stop := by
  rw [upTo_len]
  omega

/-- Moving on by `n` bytes. -/
theorem Cursor.upTo_add (stop pos n : ℕ) :
    (⟨pos + n, (Cursor.upTo stop pos).len - n⟩ : Cursor) = .upTo stop (pos + n) := by
  rw [upTo_len, upTo, Int.natCast_add, Int.sub_sub]

/-- Conversion to a 32-bit `int`. -/
def int32 (x : ℤ) : ℤ := x.bmod (2 ^ 32)

theorem int32_of_small {x : ℤ} (h : -2147483648 ≤ x) (h' : x < 2147483648) : int32 x = x :=
  Int.bmod_eq_of_le (by simpa using h) (by simpa using h')

section Walks

variable (o : ByteOrder) (m : Mem)

/-- `NLMSG_OK`. -/
def NLMSG_OK (c : Cursor) : Traced RouteEvent Bool :=
  if nlmsghdr.sizeof ≤ c.len then do
    .emit (.nlmsghdr c.pos)
    pure (decide (nlmsghdr.sizeof ≤ (nlmsg_len o m c.pos).toNat ∧
      (nlmsg_len o m c.pos).toNat ≤ c.len))
  else pure false

/-- `NLMSG_NEXT`. -/
def NLMSG_NEXT (c : Cursor) : Cursor :=
  let step := (NLMSG_ALIGN (nlmsg_len o m c.pos)).toNat
  ⟨c.pos + step, c.len - step⟩

/-- `RTA_OK`, on an attribute of the message at `n`. -/
def RTA_OK (n : ℕ) (c : Cursor) : Traced RouteEvent Bool :=
  if rtattr.sizeof ≤ c.len then do
    .emit (.rtattr n c.pos)
    pure (decide (rtattr.sizeof ≤ (rta_len o m c.pos).toNat ∧
      (rta_len o m c.pos).toNat ≤ c.len))
  else pure false

/-- `RTA_NEXT`: `len` is an `int`, the step `unsigned`. -/
def RTA_NEXT (c : Cursor) : Cursor :=
  let step := (RTA_ALIGN (rta_len o m c.pos).toUInt32).toNat
  ⟨c.pos + step, int32 (c.len - step)⟩

/-! ## The areas they walk -/

/-- Messages and attributes are aligned to four bytes. -/
theorem align_pos : 0 < 4 := by decide

/-- The messages of a buffer of `stop` bytes. -/
def msgArea (stop : ℕ) : Tlv.Area where
  hdr := nlmsghdr.sizeof
  unit := 4
  len h := (nlmsg_len o m h).toNat
  stop := stop
  hdr_pos := by decide
  unit_pos := align_pos

/-- The attributes of the message at `n`, which end where it does. -/
def attrArea (n : ℕ) : Tlv.Area where
  hdr := rtattr.sizeof
  unit := 4
  len rta := (rta_len o m rta).toNat
  stop := n + (nlmsg_len o m n).toNat
  hdr_pos := by decide
  unit_pos := align_pos

variable {o m}

theorem msgArea_fits {stop h : ℕ} : (msgArea o m stop).Fits h ↔
    h + 16 ≤ stop ∧ 16 ≤ (nlmsg_len o m h).toNat ∧ h + (nlmsg_len o m h).toNat ≤ stop := .rfl

theorem attrArea_fits {n rta : ℕ} : (attrArea o m n).Fits rta ↔
    rta + 4 ≤ n + (nlmsg_len o m n).toNat ∧ 4 ≤ (rta_len o m rta).toNat ∧
      rta + (rta_len o m rta).toNat ≤ n + (nlmsg_len o m n).toNat := .rfl

/-- **`NLMSG_OK` accepts the records of the buffer.** -/
theorem NLMSG_OK_val {stop h : ℕ} :
    (NLMSG_OK o m (.upTo stop h)).val = true ↔ (msgArea o m stop).Fits h := by
  rw [NLMSG_OK, msgArea_fits]
  split
  next hlen =>
    rw [Cursor.le_upTo_len] at hlen
    simp [Cursor.le_upTo_len, hlen]
  next hlen =>
    rw [Cursor.le_upTo_len] at hlen
    simp [hlen]

/-- `NLMSG_OK` looks at a header only if the buffer has room for it. -/
theorem NLMSG_OK_log {stop h : ℕ} :
    (NLMSG_OK o m (.upTo stop h)).log = if h + 16 ≤ stop then [.nlmsghdr h] else [] := by
  simp only [NLMSG_OK, Cursor.le_upTo_len]
  split
  · rfl
  · rfl

/-- **`NLMSG_NEXT` goes to the next record.** -/
theorem NLMSG_NEXT_eq {stop h : ℕ} (hstop : stop < 2 ^ 31) (hfit : (msgArea o m stop).Fits h) :
    NLMSG_NEXT o m (.upTo stop h) = .upTo stop ((msgArea o m stop).next h) := by
  obtain ⟨-, -, hlen⟩ := msgArea_fits.mp hfit
  have hstep : (NLMSG_ALIGN (nlmsg_len o m h)).toNat = Tlv.alignUp 4 (nlmsg_len o m h).toNat :=
    alignTo_toNat (by omega)
  rw [NLMSG_NEXT, Cursor.upTo_pos, hstep, Cursor.upTo_add]
  rfl

/-- **`RTA_OK` accepts the records of the attribute area.** -/
theorem RTA_OK_val {n rta : ℕ} :
    (RTA_OK o m n (.upTo (attrArea o m n).stop rta)).val = true ↔ (attrArea o m n).Fits rta := by
  rw [RTA_OK, attrArea_fits]
  split
  next hlen =>
    rw [Cursor.le_upTo_len, attrArea] at hlen
    simp [Cursor.le_upTo_len, hlen, attrArea]
  next hlen =>
    rw [Cursor.le_upTo_len, attrArea] at hlen
    simp [hlen]

/-- `RTA_OK` looks at a header only if the message has room for it. -/
theorem RTA_OK_log {n rta : ℕ} : (RTA_OK o m n (.upTo (attrArea o m n).stop rta)).log =
    if rta + 4 ≤ (attrArea o m n).stop then [.rtattr n rta] else [] := by
  simp only [RTA_OK, Cursor.le_upTo_len]
  split
  · rfl
  · rfl

/-- **`RTA_NEXT` goes to the next record**: the length left may go below zero,
but by the padding only. -/
theorem RTA_NEXT_eq {n rta : ℕ} (hstop : (attrArea o m n).stop < 2 ^ 31)
    (hfit : (attrArea o m n).Fits rta) :
    RTA_NEXT o m (.upTo (attrArea o m n).stop rta) =
      .upTo (attrArea o m n).stop ((attrArea o m n).next rta) := by
  obtain ⟨-, -, hlen⟩ := hfit
  have hlen' : (attrArea o m n).len rta = (rta_len o m rta).toNat := rfl
  rw [hlen'] at hlen
  have hstep : (RTA_ALIGN (rta_len o m rta).toUInt32).toNat =
      Tlv.alignUp 4 (rta_len o m rta).toNat :=
    alignTo_toNat (by rw [UInt16.toNat_toUInt32]; omega)
  have hpad := Tlv.alignUp_lt align_pos (rta_len o m rta).toNat
  have hint : int32 ((Cursor.upTo (attrArea o m n).stop rta).len -
      Tlv.alignUp 4 (rta_len o m rta).toNat) =
      (Cursor.upTo (attrArea o m n).stop rta).len - Tlv.alignUp 4 (rta_len o m rta).toNat := by
    rw [Cursor.upTo_len]
    exact int32_of_small (by omega) (by omega)
  simp only [RTA_NEXT, Cursor.upTo_pos, hstep, hint]
  exact Cursor.upTo_add ..

end Walks

end StudyTips
