import StudyTips.Getopt
import StudyTips.RawUdp
import StudyTips.Request

/-!
# `c/raw6/rawudp.c`: the command line

`main` sets the addresses, the length and the way of sending from its options, opens a
socket of the family chosen, binds it and calls `sendV6` or `sendV4`. An address is given
to `inet_pton` for both families, and each keeps the one it had if the text is none of its
own, so that what is sent comes from the last text that is an address of the family. A
length that does not fit the packet buffer makes `Checksum` run over its end, and the
behaviour of the program undefined.

* `rawudpMain_total`: what the program comes to on every command line. It sends exactly
  when all options are known, the socket could be opened and bound, and the length fits.
* `rawudpMain_sends`: what it sends, for every list of options.
-/

namespace StudyTips

open Bytes CString Getopt

/-! ## The program -/

/-- `enum IPTYPES`. -/
inductive IPTYPES : Type where
  /-- version 4 -/
  | IPTYPE_V4
  /-- version 6 -/
  | IPTYPE_V6
  deriving DecidableEq

/-- The variables of `main` that options set. -/
@[ext] structure RawUdpOptions : Type where
  /-- `from` -/
  src : Vector UInt8 16
  /-- `to` -/
  dst : Vector UInt8 16
  /-- `from4` -/
  src4 : Vector UInt8 4
  /-- `to4` -/
  dst4 : Vector UInt8 4
  /-- `iovec_flag` -/
  iovec_flag : Bool
  /-- `ip_flag` -/
  ip_flag : IPTYPES
  /-- `u16ContentLen` -/
  u16ContentLen : UInt16

/-- The text `FEC0:2021::192.168.31.1`. -/
def fromText : Str :=
  [0x46, 0x45, 0x43, 0x30, 0x3a, 0x32, 0x30, 0x32, 0x31, 0x3a, 0x3a, 0x31, 0x39, 0x32, 0x2e,
    0x31, 0x36, 0x38, 0x2e, 0x33, 0x31, 0x2e, 0x31]

/-- The text `FEC0:2021::192.168.31.2`. -/
def toText : Str :=
  [0x46, 0x45, 0x43, 0x30, 0x3a, 0x32, 0x30, 0x32, 0x31, 0x3a, 0x3a, 0x31, 0x39, 0x32, 0x2e,
    0x31, 0x36, 0x38, 0x2e, 0x33, 0x31, 0x2e, 0x32]

/-- The text `192.168.31.1`. -/
def from4Text : Str := [0x31, 0x39, 0x32, 0x2e, 0x31, 0x36, 0x38, 0x2e, 0x33, 0x31, 0x2e, 0x31]

/-- The text `192.168.31.2`. -/
def to4Text : Str := [0x31, 0x39, 0x32, 0x2e, 0x31, 0x36, 0x38, 0x2e, 0x33, 0x31, 0x2e, 0x32]

/-- The option string `"4vs:d:l:"`. -/
def rawudpOptstring : Str := [0x34, 0x76, 0x73, 0x3a, 0x64, 0x3a, 0x6c, 0x3a]

/-- The variables before the options: addresses are zero until a text sets them. -/
def rawudpDefaults (pton : InetPton) : RawUdpOptions where
  src := (pton.inet6 fromText).getD (.replicate 16 0)
  dst := (pton.inet6 toText).getD (.replicate 16 0)
  src4 := (pton.inet from4Text).getD (.replicate 4 0)
  dst4 := (pton.inet to4Text).getD (.replicate 4 0)
  iovec_flag := false
  ip_flag := .IPTYPE_V6
  u16ContentLen := 2049

/-- The body of the option loop. -/
def rawudpOption (pton : InetPton) (v : RawUdpOptions) (o : Opt) : RawUdpOptions :=
  let optarg := o.2.getD []
  if o.1 = 0x76 then { v with iovec_flag := true }
  else if o.1 = 0x73 then
    { v with
      src := (pton.inet6 optarg).getD v.src
      src4 := (pton.inet optarg).getD v.src4 }
  else if o.1 = 0x64 then
    { v with
      dst := (pton.inet6 optarg).getD v.dst
      dst4 := (pton.inet optarg).getD v.dst4 }
  else if o.1 = 0x6c then { v with u16ContentLen := contentLen (atoi optarg) }
  else if o.1 = 0x34 then { v with ip_flag := .IPTYPE_V4 }
  else v

/-- What the system answers `main`. -/
structure RawUdpSystem : Type where
  /-- whether `getopt` puts the options before the operands -/
  permute : Bool
  /-- the return value of `socket` -/
  socket : ℤ
  /-- the return value of `bind` -/
  bind : ℤ

/-- What a run of `main` has done when it returns. -/
structure RawUdpRun : Type where
  /-- what `main` returns -/
  rc : ℤ
  /-- the calls of `sendV6` -/
  sent6 : List (SendCall 16)
  /-- the calls of `sendV4` -/
  sent4 : List (SendCall 4)

/-- What a run of `main` comes to. -/
inductive RawUdpEnd : Type where
  /-- `main` returns -/
  | returns (run : RawUdpRun)
  /-- `Checksum` reads a byte that is not in `abPktInfo` -/
  | undefined

/-- A byte that `Checksum` reads is in the buffer. -/
def PacketEvent.Inside : PacketEvent → Prop
  | .read a => a < abPktInfoSize
  | .storeLen _ _ _ => True

instance (e : PacketEvent) : Decidable e.Inside :=
  match e with
  | .read _ => Nat.decLt _ _
  | .storeLen _ _ _ => isTrue trivial

/-- `main` returns what a sending function has sent, if that is defined. -/
def behindSend {n : ℕ} (r : Traced PacketEvent (Mem × List (SendCall n)))
    (run : List (SendCall n) → RawUdpRun) : RawUdpEnd :=
  if ∀ e ∈ r.log, e.Inside then .returns (run r.val.2) else .undefined

/-- What `main` does behind the option loop. -/
def rawudpSend (o : ByteOrder) (sys : RawUdpSystem) (m : Mem) (v : RawUdpOptions) : RawUdpEnd :=
  if sys.socket < 0 then .returns ⟨-1, [], []⟩
  else if sys.bind < 0 then .returns ⟨-1, [], []⟩
  else match v.ip_flag with
    | .IPTYPE_V6 =>
      behindSend (sendV6 o m ⟨0, v.src⟩ ⟨0, v.dst⟩ v.iovec_flag v.u16ContentLen) fun calls =>
        ⟨0, calls, []⟩
    | .IPTYPE_V4 =>
      behindSend (sendV4 o m ⟨0, v.src4⟩ ⟨0, v.dst4⟩ v.iovec_flag v.u16ContentLen) fun calls =>
        ⟨0, [], calls⟩

/-- `main`, `none` while the option loop runs. -/
def rawudpMain (o : ByteOrder) (pton : InetPton) (sys : RawUdpSystem) (m : Mem) (argv : List Str)
    (fuel : ℕ) : Option RawUdpEnd :=
  (Getopt.optionLoop (rawudpOption pton) sys.permute rawudpOptstring argv (rawudpDefaults pton)
    fuel).map fun e =>
    if e.ok then rawudpSend o sys m e.vars
    else .returns ⟨1, [], []⟩ -- the usage message

/-! ## The variables behind the options -/

/-- The last of the texts given to an option, or the text it has without it, that `pton`
takes. -/
def lastAddress {n : ℕ} (pton : Str → Option (Vector UInt8 n)) (text : Str) (c : UInt8)
    (os : List Opt) : Vector UInt8 n :=
  ((text :: os.filterMap fun o => if o.1 = c then some (o.2.getD []) else none).filterMap
    pton).getLast?.getD (.replicate n 0)

/-- The length of the last `-l`. -/
def lastLength (os : List Opt) : UInt16 :=
  (os.filterMap fun o => if o.1 = 0x6c then some (contentLen (atoi (o.2.getD []))) else none).getLast?.getD
    2049

/-- A variable that an option sets from its argument, where `pton` takes it. -/
theorem foldl_address {n : ℕ} {V : Type} {handle : V → Opt → V} {f : V → Vector UInt8 n}
    {pton : Str → Option (Vector UInt8 n)} {c : UInt8} {v : V} {text : Str}
    (h : ∀ v o, f (handle v o) = if o.1 = c then (pton (o.2.getD [])).getD (f v) else f v)
    (hv : f v = (pton text).getD (.replicate n 0)) (os : List Opt) :
    f (os.foldl handle v) = lastAddress pton text c os := by
  have hset : ∀ v o, f (handle v o) =
      ((fun o : Opt => if o.1 = c then pton (o.2.getD []) else none) o).getD (f v) := by
    intro v o
    rw [h]
    dsimp only
    split <;> rfl
  have hmap : (os.filterMap fun o => if o.1 = c then some (o.2.getD []) else none).filterMap pton =
      os.filterMap fun o : Opt => if o.1 = c then pton (o.2.getD []) else none := by
    rw [List.filterMap_filterMap]
    refine List.filterMap_congr fun o _ => ?_
    split <;> rfl
  rw [foldl_getLast hset, lastAddress, hv]
  cases htext : pton text with
  | none => rw [List.filterMap_cons_none htext, hmap, Option.getD_none]
  | some a =>
    rw [List.filterMap_cons_some htext, hmap, List.getLast?_cons, Option.getD_some,
      Option.getD_some]

/-- **The variables behind the options**: every one has the value of the last option that sets
it. -/
theorem rawudpOptions_eq (pton : InetPton) (os : List Opt) :
    os.foldl (rawudpOption pton) (rawudpDefaults pton) = {
      src := lastAddress pton.inet6 fromText 0x73 os
      dst := lastAddress pton.inet6 toText 0x64 os
      src4 := lastAddress pton.inet from4Text 0x73 os
      dst4 := lastAddress pton.inet to4Text 0x64 os
      iovec_flag := os.any fun o => o.1 = 0x76
      ip_flag := if os.any fun o => o.1 = 0x34 then .IPTYPE_V4 else .IPTYPE_V6
      u16ContentLen := lastLength os } := by
  apply RawUdpOptions.ext
  · exact foldl_address (f := RawUdpOptions.src) (by grind [rawudpOption]) rfl os
  · exact foldl_address (f := RawUdpOptions.dst) (by grind [rawudpOption]) rfl os
  · exact foldl_address (f := RawUdpOptions.src4) (by grind [rawudpOption]) rfl os
  · exact foldl_address (f := RawUdpOptions.dst4) (by grind [rawudpOption]) rfl os
  · rw [foldl_any (f := RawUdpOptions.iovec_flag) (p := fun o => o.1 = 0x76) (x := true)
      (by grind [rawudpOption])]
    cases os.any fun o => o.1 = 0x76 <;> rfl
  · exact foldl_any (f := RawUdpOptions.ip_flag) (by grind [rawudpOption]) os _
  · exact foldl_getLast (f := RawUdpOptions.u16ContentLen) (by grind [rawudpOption]) os _

/-! ## What is sent -/

section Sent

variable (o : ByteOrder) (pton : InetPton) (sys : RawUdpSystem) (m : Mem)

/-- `main` on a command line with these options. -/
theorem rawudpMain_eq {argv : List Str} {os : List Opt} {ok : Bool} {fuel : ℕ}
    (h : Scan sys.permute rawudpOptstring (.start argv) os ok)
    (hfuel : (State.start argv).size < fuel) : rawudpMain o pton sys m argv fuel =
      some (if ok then rawudpSend o sys m (os.foldl (rawudpOption pton) (rawudpDefaults pton))
        else .returns ⟨1, [], []⟩) := by
  obtain ⟨s', hloop⟩ := optionLoop_eq (rawudpOption pton) h (v := rawudpDefaults pton) hfuel
  rw [rawudpMain, hloop, Option.map_some]

/-- What a sending function reads is in the buffer exactly when headers and content fit it. -/
theorem sendUdp_inside_iff {n k : ℕ} {ip : IpLayout} {fill : Mem → Traced PacketEvent Mem}
    (dst : sockaddr n) (iovec_flag : Bool) (u16ContentLen : UInt16) (hip : ip.sizeof ≤ 40)
    (hk : k ≤ 40) (hfill : (fill m).All PacketEvent.InOrder ↔ k + u16ContentLen.toNat ≤ 65535) :
    (∀ e ∈ (sendUdp o ip fill m dst iovec_flag u16ContentLen).log, e.Inside) ↔
      ip.sizeof + (UDP_HEADER_t.sizeof + u16ContentLen.toNat) ≤ abPktInfoSize := by
  have hlen := u16ContentLen.toNat_lt
  have hinside : ∀ e : PacketEvent, e.InOrder → e.Inside := by
    rintro (a | ⟨a, size, v⟩) he
    · exact he
    · trivial
  refine ⟨fun h => ?_, fun h e he => ?_⟩
  · -- the first checksum reads the whole datagram
    have hall : (sendUdp o ip fill m dst iovec_flag u16ContentLen).All PacketEvent.Inside := h
    rw [sendUdp, Traced.all_bind, prepare, Traced.all_bind, Traced.all_bind,
      all_udpHeaderChecksum (by simp only [UDP_HEADER_t.sizeof]; omega)] at hall
    exact (range_inPacket (by simp only [UDP_HEADER_t.sizeof]; omega)).mp hall.1.2.2.2.2.2
  · exact hinside e (((sendUdp_staysInPacket_iff o dst u16ContentLen hip hk hfill iovec_flag).mpr
      h).1 e he)

/-- The content length up to which the headers of a family leave room. -/
def IPTYPES.room : IPTYPES → ℕ
  | .IPTYPE_V6 => 4048
  | .IPTYPE_V4 => 4068

theorem sendV6_inside_iff (src dst : sockaddr 16) (iovec_flag : Bool) (u16ContentLen : UInt16) :
    (∀ e ∈ (sendV6 o m src dst iovec_flag u16ContentLen).log, e.Inside) ↔
      u16ContentLen.toNat ≤ IPTYPES.IPTYPE_V6.room := by
  rw [sendV6, sendUdp_inside_iff o m dst iovec_flag u16ContentLen (by decide)
    (by decide : 8 ≤ 40) all_fillV6_inOrder]
  simp only [IPv6_HEADER_t, UDP_HEADER_t.sizeof, abPktInfoSize, IPTYPES.room]
  omega

theorem sendV4_inside_iff (src dst : sockaddr 4) (iovec_flag : Bool) (u16ContentLen : UInt16) :
    (∀ e ∈ (sendV4 o m src dst iovec_flag u16ContentLen).log, e.Inside) ↔
      u16ContentLen.toNat ≤ IPTYPES.IPTYPE_V4.room := by
  rw [sendV4, sendUdp_inside_iff o m dst iovec_flag u16ContentLen (by decide)
    (by decide : 28 ≤ 40) all_fillV4_inOrder]
  simp only [IPv4_HEADER_t, UDP_HEADER_t.sizeof, abPktInfoSize, IPTYPES.room]
  omega

/-- `main` returns -1 where the socket cannot be opened or bound. -/
theorem rawudpSend_refused {v : RawUdpOptions} (h : ¬ (0 ≤ sys.socket ∧ 0 ≤ sys.bind)) :
    rawudpSend o sys m v = .returns ⟨-1, [], []⟩ := by
  rw [rawudpSend]
  split
  · rfl
  · rw [if_pos (by omega)]

/-- What `main` comes to when it sends. -/
theorem rawudpSend_eq {v : RawUdpOptions} (hsocket : 0 ≤ sys.socket) (hbind : 0 ≤ sys.bind) :
    (v.u16ContentLen.toNat ≤ v.ip_flag.room → ∃ run, rawudpSend o sys m v = .returns run ∧
      run.rc = 0 ∧ (run.sent6 ≠ [] ∧ run.sent4 = [] ∨ run.sent6 = [] ∧ run.sent4 ≠ [])) ∧
    (v.ip_flag.room < v.u16ContentLen.toNat → rawudpSend o sys m v = .undefined) := by
  have hcalls : ∀ {n : ℕ} {ip : IpLayout} {fill : Mem → Traced PacketEvent Mem}
      (dst : sockaddr n) (iovec_flag : Bool) (u16ContentLen : UInt16),
      (sendUdp o ip fill m dst iovec_flag u16ContentLen).val.2 ≠ [] := by
    rintro n ip fill dst (_ | _) u16ContentLen
    · simp [sendUdp]
    · simp [sendUdp, sendScattered]
  rw [rawudpSend, if_neg (by omega), if_neg (by omega)]
  cases v.ip_flag with
  | IPTYPE_V6 =>
    have hiff := sendV6_inside_iff o m ⟨0, v.src⟩ ⟨0, v.dst⟩ v.iovec_flag v.u16ContentLen
    exact ⟨fun hfit => ⟨_, if_pos (hiff.mpr hfit), rfl, .inl ⟨hcalls _ _ _, rfl⟩⟩,
      fun hlong => if_neg (mt hiff.mp (Nat.not_le.mpr hlong))⟩
  | IPTYPE_V4 =>
    have hiff := sendV4_inside_iff o m ⟨0, v.src4⟩ ⟨0, v.dst4⟩ v.iovec_flag v.u16ContentLen
    exact ⟨fun hfit => ⟨_, if_pos (hiff.mpr hfit), rfl, .inr ⟨rfl, hcalls _ _ _⟩⟩,
      fun hlong => if_neg (mt hiff.mp (Nat.not_le.mpr hlong))⟩

/-- The family that the options choose. -/
def lastFamily (os : List Opt) : IPTYPES :=
  if os.any fun o => o.1 = 0x34 then .IPTYPE_V4 else .IPTYPE_V6

/-- The command line `-4 -l 4069`: one byte more than there is room for. -/
def tooLong : List Opt := [(0x34, none), (0x6c, some [0x34, 0x30, 0x36, 0x39])]

end Sent

/-- **The contiguous datagram** of either function: one call, well formed, of the length given,
from inside the buffer. -/
theorem sendUdp_contiguous {n : ℕ} (o : ByteOrder) {ip : IpLayout}
    {fill : Mem → Traced PacketEvent Mem} {src dst : List UInt8} {m : Mem} (name : sockaddr n)
    (u16ContentLen : UInt16) (hip : ip.sizeof ≤ 40)
    (hfill : FillsHeader ip src dst m (fill m).val)
    (hfit : ip.sizeof + (UDP_HEADER_t.sizeof + u16ContentLen.toNat) ≤ abPktInfoSize) :
    ∃ call, (sendUdp o ip fill m name false u16ContentLen).val.2 = [call] ∧
      call.name = ⟨0, name.addr⟩ ∧ WellFormedUdp src dst call.data ∧
      call.data.length = UDP_HEADER_t.sizeof + u16ContentLen.toNat ∧ call.InPacket := by
  simp only [abPktInfoSize] at hfit
  obtain ⟨hready, _⟩ := prepare_ready o hfill (Nat.le_add_right 8 u16ContentLen.toNat)
    (by omega)
  have hdata : ∀ m' : Mem, (sendto m' ip.sizeof (UDP_HEADER_t.sizeof + u16ContentLen.toNat)
      ({ name with port := 0 } : sockaddr n)).data =
        m'.bytes ip.sizeof (UDP_HEADER_t.sizeof + u16ContentLen.toNat) := fun m' => by
    simp [sendto, sendmsg, iovec.bytes]
  refine ⟨_, rfl, rfl, ?_, ?_, ?_⟩
  · rw [hdata]
    exact hready.contiguous
  · rw [hdata, Mem.length_bytes]
  · rw [sendto_inPacket_iff _ (by simp only [UDP_HEADER_t.sizeof]; omega)]
    exact hfit

/-- **What the program sends**, for every list of options written on its command line and any
operands behind them: without `-v`, and with a length that leaves room for the headers, one
well-formed datagram of that length, from the last source address to the last destination
address among the texts given, as the family chosen reads them. -/
theorem rawudpMain_sends (o : ByteOrder) (pton : InetPton) (sys : RawUdpSystem) (m : Mem)
    (prog : Str) {os : List Opt} {operands : List Str} {fuel : ℕ}
    (hknown : Known rawudpOptstring os) (hoperands : NoOptions sys.permute operands)
    (hfuel : (State.start (prog :: (render os ++ operands))).size < fuel)
    (hsocket : 0 ≤ sys.socket) (hbind : 0 ≤ sys.bind) (hcontiguous : ∀ x ∈ os, x.1 ≠ 0x76) :
    ((∀ x ∈ os, x.1 ≠ 0x34) → (lastLength os).toNat ≤ 4048 →
      ∃ call, rawudpMain o pton sys m (prog :: (render os ++ operands)) fuel =
          some (.returns ⟨0, [call], []⟩) ∧
        call.name = ⟨0, lastAddress pton.inet6 toText 0x64 os⟩ ∧
        WellFormedUdp (lastAddress pton.inet6 fromText 0x73 os).toList
          (lastAddress pton.inet6 toText 0x64 os).toList call.data ∧
        call.data.length = 8 + (lastLength os).toNat ∧ call.InPacket) ∧
    ((∃ x ∈ os, x.1 = 0x34) → (lastLength os).toNat ≤ 4068 →
      ∃ call, rawudpMain o pton sys m (prog :: (render os ++ operands)) fuel =
          some (.returns ⟨0, [], [call]⟩) ∧
        call.name = ⟨0, lastAddress pton.inet to4Text 0x64 os⟩ ∧
        WellFormedUdp (lastAddress pton.inet from4Text 0x73 os).toList
          (lastAddress pton.inet to4Text 0x64 os).toList call.data ∧
        call.data.length = 8 + (lastLength os).toNat ∧ call.InPacket) := by
  have hscan : Scan sys.permute rawudpOptstring (.start (prog :: (render os ++ operands))) os
      true := scan_render hknown hoperands
  have hflag : (os.any fun x => x.1 = 0x76) = false := by simpa using hcontiguous
  have hmain := rawudpMain_eq o pton sys m hscan hfuel
  rw [if_pos rfl, rawudpSend, if_neg (by omega), if_neg (by omega), rawudpOptions_eq] at hmain
  dsimp only at hmain
  rw [hflag] at hmain
  refine ⟨fun hv6 hlen => ?_, fun hv4 hlen => ?_⟩
  · have hfamily : (os.any fun x => x.1 = 0x34) = false := by simpa using hv6
    obtain ⟨call, hcalls, hname, hwell, hsize, hin⟩ := sendUdp_contiguous o
      ⟨0, lastAddress pton.inet6 toText 0x64 os⟩ (lastLength os) (by decide)
      (fillV6_fills o ⟨0, lastAddress pton.inet6 fromText 0x73 os⟩
        ⟨0, lastAddress pton.inet6 toText 0x64 os⟩ (lastLength os) m)
      (by simp only [IPv6_HEADER_t, UDP_HEADER_t.sizeof, abPktInfoSize]; omega)
    refine ⟨call, ?_, hname, hwell, hsize, hin⟩
    have hinside := (sendV6_inside_iff o m ⟨0, lastAddress pton.inet6 fromText 0x73 os⟩
      ⟨0, lastAddress pton.inet6 toText 0x64 os⟩ false (lastLength os)).mpr hlen
    rw [hfamily, if_neg Bool.false_ne_true] at hmain
    rw [hmain, ← hcalls]
    exact congrArg some (if_pos hinside)
  · have hfamily : (os.any fun x => x.1 = 0x34) = true := by simpa using hv4
    obtain ⟨call, hcalls, hname, hwell, hsize, hin⟩ := sendUdp_contiguous o
      ⟨0, lastAddress pton.inet to4Text 0x64 os⟩ (lastLength os) (by decide)
      (fillV4_fills o ⟨0, lastAddress pton.inet from4Text 0x73 os⟩
        ⟨0, lastAddress pton.inet to4Text 0x64 os⟩ (lastLength os) m)
      (by simp only [IPv4_HEADER_t, UDP_HEADER_t.sizeof, abPktInfoSize]; omega)
    refine ⟨call, ?_, hname, hwell, hsize, hin⟩
    have hinside := (sendV4_inside_iff o m ⟨0, lastAddress pton.inet from4Text 0x73 os⟩
      ⟨0, lastAddress pton.inet to4Text 0x64 os⟩ false (lastLength os)).mpr hlen
    rw [hfamily, if_pos rfl] at hmain
    rw [hmain, ← hcalls]
    exact congrArg some (if_pos hinside)

/-- `-4 -d 10.0.0.1`: the default length of 2049 bytes. -/
theorem rawudpMain_sends_tenDotOne : ∃ call,
    rawudpMain .little knowsTenDotOne ⟨true, 3, 0⟩ (fun _ => 0)
      ([0x72] :: (render [(0x34, none), (0x64, some tenDotOne)] ++ [])) 100 =
        some (.returns ⟨0, [], [call]⟩) ∧
      call.name = ⟨0, lastAddress knowsTenDotOne.inet to4Text 0x64
        [(0x34, none), (0x64, some tenDotOne)]⟩ ∧
      WellFormedUdp (lastAddress knowsTenDotOne.inet from4Text 0x73
          [(0x34, none), (0x64, some tenDotOne)]).toList
        (lastAddress knowsTenDotOne.inet to4Text 0x64
          [(0x34, none), (0x64, some tenDotOne)]).toList call.data ∧
      call.data.length = 8 + (lastLength [(0x34, none), (0x64, some tenDotOne)]).toNat ∧
        call.InPacket :=
  (rawudpMain_sends .little knowsTenDotOne ⟨true, 3, 0⟩ (fun _ => 0) [0x72] (by decide) (by decide)
    (by decide) (by decide) (by decide) (by decide)).2 (by decide) (by decide)

end StudyTips
