import StudyTips.Loop
import StudyTips.RawUdp

/-!
# `c/raw6/server.c`: the receiving side

The server receives into one buffer, looks for a UDP header at two places of it, behind
an IPv6 header and at the start, prints the ports found at both, and changes the socket
option between 0 and 1 behind every packet. The buffer is not cleared in between, so what
is behind the end of a packet is what earlier packets have left there.

* `foldl_write`: the buffer holds at each place the byte of the last packet that was long
  enough.
* `server_lines`: what a whole run prints, for every sequence of packets.
* `serverLoop_runs`: it does not end before `recvfrom` fails.
-/

namespace StudyTips

open Bytes

/-! ## The program -/

/-- A packet received. -/
structure Received : Type where
  /-- `from.sin6_addr` -/
  peer : Vector UInt8 16
  /-- the bytes of the packet -/
  data : List UInt8

/-- What is printed for a packet. -/
structure ServerLine : Type where
  /-- the address the packet comes from -/
  peer : Vector UInt8 16
  /-- `len` -/
  len : ℕ
  /-- `no`, the option in force -/
  no : Bool
  /-- `ptUDPHdr->u16SrcPort` -/
  srcPort : UInt16
  /-- `ptUDPHdr->u16DstPort` -/
  dstPort : UInt16
  /-- `ptUDPHdr_NO_IPHDRINCL->u16SrcPort` -/
  srcPort_NO_IPHDRINCL : UInt16
  /-- `ptUDPHdr_NO_IPHDRINCL->u16DstPort` -/
  dstPort_NO_IPHDRINCL : UInt16

/-- What the server does. -/
inductive ServerEvent : Type where
  /-- a line is printed -/
  | line (l : ServerLine)
  /-- `setsockopt(tRawUDPSock, IPPROTO_IPV6, IPV6_HDRINCL, &no, sizeof(no))` -/
  | setsockopt (no : Bool)

/-- The variables of the loop, and how many packets were received. -/
structure ServerState : Type where
  /-- `abPktInfo` -/
  abPktInfo : Mem
  /-- `no` -/
  no : Bool
  /-- the packets received -/
  count : ℕ

variable (o : ByteOrder)

/-- `ntohs` of the word at `a`. -/
def ntohsAt (m : Mem) (a : ℕ) : UInt16 := o.htons (o.load16 m a)

/-- The line printed for a packet that is in the buffer. -/
def serverLine (m : Mem) (p : Received) (no : Bool) : ServerLine where
  peer := p.peer
  len := min p.data.length abPktInfoSize
  no := no
  srcPort := ntohsAt o m (IPv6_HEADER_t.sizeof + u16SrcPort)
  dstPort := ntohsAt o m (IPv6_HEADER_t.sizeof + u16DstPort)
  srcPort_NO_IPHDRINCL := ntohsAt o m u16SrcPort
  dstPort_NO_IPHDRINCL := ntohsAt o m u16DstPort

/-- One turn of the loop; `recvfrom` answers with a packet or fails. -/
def serverTurn (recvfrom : ℕ → Option Received) (s : ServerState) :
    Traced ServerEvent (ServerState ⊕ Unit) :=
  match recvfrom s.count with
  | none => pure (.inr ())
  | some p => do
    let m := s.abPktInfo.write 0 (p.data.take abPktInfoSize)
    Traced.emit (.line (serverLine o m p s.no))
    let no := !s.no
    Traced.emit (.setsockopt no)
    pure (.inl ⟨m, no, s.count + 1⟩)

/-- The loop, with the buffer cleared and `no` zero before it. -/
def serverLoop (recvfrom : ℕ → Option Received) (fuel : ℕ) : Traced ServerEvent (Option Unit) :=
  Loop.run (serverTurn o recvfrom) fuel ⟨fun _ => 0, false, 0⟩

/-! ## What is in the buffer -/

/-- The byte at `i` of the last of several packets that are long enough, zero if none is. -/
def latest (ds : List (List UInt8)) (i : ℕ) : UInt8 :=
  ((ds.filterMap fun d => d[i]?).getLast?).getD 0

/-- **Packets written over each other** leave at each place the byte of the last that was long
enough. -/
theorem foldl_write (ds : List (List UInt8)) (m : Mem) (i : ℕ) :
    ds.foldl (fun m d => m.write 0 d) m i =
      ((ds.filterMap fun d => d[i]?).getLast?).getD (m i) := by
  induction ds generalizing m with
  | nil => rfl
  | cons d ds ih =>
    rw [List.foldl_cons, ih]
    cases hget : d[i]? with
    | none =>
      have hwrite : m.write 0 d i = m i := Mem.write_outside (.inr (by simpa using hget))
      simp only [List.filterMap_cons, hget, hwrite]
    | some b =>
      have hwrite : m.write 0 d i = b := by
        rw [Mem.write, if_pos (Nat.zero_le i), Nat.sub_zero, hget, Option.getD_some]
      simp only [List.filterMap_cons, hget, hwrite, List.getLast?_cons, Option.getD_some]

/-- What the buffer holds when packets have been received. -/
def received (ps : List Received) : Mem := latest (ps.map fun p => p.data.take abPktInfoSize)

theorem received_eq (ps : List Received) : received ps =
    (ps.map fun p => p.data.take abPktInfoSize).foldl (fun m d => Mem.write m 0 d)
      (fun _ => 0) := by
  funext i
  rw [foldl_write, received, latest]

/-- One more packet is received. -/
theorem received_append (ps : List Received) (p : Received) :
    received (ps ++ [p]) = (received ps).write 0 (p.data.take abPktInfoSize) := by
  rw [received_eq, received_eq, List.map_append, List.foldl_append]
  rfl

/-- A byte of the last packet is in the buffer. -/
theorem received_last {ps : List Received} {p : Received} {i : ℕ}
    (hi : i < (p.data.take abPktInfoSize).length) :
    received (ps ++ [p]) i = (p.data.take abPktInfoSize)[i] := by
  have hinside := Mem.write_inside (m := received ps) (a := 0) hi
  rwa [Nat.zero_add, ← received_append] at hinside

/-! ## What a run does -/

/-- What the server does for packets that it receives behind those in `before`. -/
def served (before : List Received) : List Received → List ServerEvent
  | [] => []
  | p :: ps =>
    .line (serverLine o (received (before ++ [p])) p (before.length % 2 = 1)) ::
      .setsockopt (before.length % 2 = 0) :: served (before ++ [p]) ps

/-- The state of the loop behind packets. -/
def ServerState.behind (before : List Received) : ServerState :=
  ⟨received before, before.length % 2 = 1, before.length⟩

/-- A turn that receives a packet. -/
theorem serverTurn_packet {recvfrom : ℕ → Option Received} {before : List Received} {p : Received}
    (h : recvfrom before.length = some p) :
    serverTurn o recvfrom (.behind before) = ⟨.inl (.behind (before ++ [p])),
      [.line (serverLine o (received (before ++ [p])) p (before.length % 2 = 1)),
        .setsockopt (before.length % 2 = 0)]⟩ := by
  have hno : (!decide (before.length % 2 = 1)) = decide (before.length % 2 = 0) := by
    grind
  have hno' : decide (before.length % 2 = 0) = decide ((before.length + 1) % 2 = 1) := by
    grind
  rw [serverTurn, ServerState.behind]
  dsimp only
  rw [h]
  apply Traced.ext
  · simp only [Traced.bind_val, Traced.pure_val, ServerState.behind, List.length_append,
      List.length_singleton, received_append, hno, hno']
  · simp only [Traced.bind_log, Traced.emit_log, Traced.pure_log, received_append, hno]
    rfl

/-- A run that receives packets and then fails to. -/
theorem run_served {recvfrom : ℕ → Option Received} :
    ∀ {ps before : List Received} {fuel : ℕ}, ps.length < fuel →
      (∀ k, recvfrom (before.length + k) = ps[k]? ∨ ps.length < k) →
        Loop.run (serverTurn o recvfrom) fuel (.behind before) = ⟨some (), served o before ps⟩
  | [], before, fuel + 1, _, h => by
    have hnone : recvfrom before.length = none := by simpa using h 0
    have hturn : (serverTurn o recvfrom (.behind before)) = pure (.inr ()) := by
      rw [serverTurn, ServerState.behind]
      dsimp only
      rw [hnone]
    rw [Loop.run_inr (r := ()) (by rw [hturn]; rfl), hturn]
    rfl
  | p :: ps, before, fuel + 1, hfuel, h => by
    have hp : recvfrom before.length = some p := by simpa using h 0
    have hturn := serverTurn_packet o hp
    have htail : ∀ k, recvfrom ((before ++ [p]).length + k) = ps[k]? ∨ ps.length < k := by
      intro k
      have hk := h (k + 1)
      rw [List.length_append, List.length_singleton, Nat.add_assoc, Nat.add_comm 1 k]
      simpa using hk
    rw [Loop.run_inl (by rw [hturn]), hturn, run_served (by simpa using hfuel) htail]
    rfl

/-- Two events stand for each packet. -/
theorem served_getElem : ∀ (before : List Received) {ps : List Received} {k : ℕ} {p : Received},
    ps[k]? = some p →
    (served o before ps)[2 * k]? = some (.line (serverLine o
      (received (before ++ ps.take (k + 1))) p ((before.length + k) % 2 = 1))) ∧
    (served o before ps)[2 * k + 1]? = some (.setsockopt ((before.length + k) % 2 = 0))
  | before, p :: ps, 0, _, h => by
    obtain rfl := Option.some.inj h
    exact ⟨rfl, rfl⟩
  | before, p :: ps, k + 1, q, h => by
    obtain ⟨hline, hopt⟩ := served_getElem (before ++ [p]) (show ps[k]? = some q from h)
    rw [List.length_append, List.length_singleton, Nat.add_assoc, Nat.add_comm 1 k] at hline hopt
    rw [List.append_assoc] at hline
    exact ⟨hline, hopt⟩

theorem length_served : ∀ (ps before : List Received), (served o before ps).length = 2 * ps.length
  | [], _ => rfl
  | p :: ps, before => by
    rw [served, List.length_cons, List.length_cons, length_served ps, List.length_cons]
    omega

/-- **What a run of the server does**, for every sequence of packets that ends with a failure of
`recvfrom`: it comes to its end, and has printed one line for each packet, in order, with the
ports that are in the buffer then, the option 0 and 1 in turn, and changed the option behind
each. -/
theorem server_lines {recvfrom : ℕ → Option Received} {ps : List Received} {fuel : ℕ}
    (hps : ∀ k < ps.length, recvfrom k = ps[k]?) (hend : recvfrom ps.length = none)
    (hfuel : ps.length < fuel) :
    (serverLoop o recvfrom fuel).val = some () ∧
      (serverLoop o recvfrom fuel).log.length = 2 * ps.length ∧
      ∀ k p, ps[k]? = some p →
        (serverLoop o recvfrom fuel).log[2 * k]? =
          some (.line (serverLine o (received (ps.take (k + 1))) p (k % 2 = 1))) ∧
        (serverLoop o recvfrom fuel).log[2 * k + 1]? = some (.setsockopt (k % 2 = 0)) := by
  have hrecv : ∀ k, recvfrom (([] : List Received).length + k) = ps[k]? ∨ ps.length < k := by
    intro k
    rw [List.length_nil, Nat.zero_add]
    rcases Nat.lt_trichotomy k ps.length with hlt | rfl | hgt
    · exact .inl (hps k hlt)
    · exact .inl (by rw [hend, List.getElem?_eq_none (Nat.le_refl _)])
    · exact .inr hgt
  have hrun : serverLoop o recvfrom fuel = ⟨some (), served o [] ps⟩ := run_served o hfuel hrecv
  rw [hrun]
  refine ⟨rfl, length_served o ps [], fun k p hp => ?_⟩
  have hk := served_getElem o [] hp
  rwa [List.length_nil, Nat.zero_add] at hk

/-- Two packets, of which the second is empty: its line shows what the first has left. -/
def twoPackets : List Received :=
  [⟨fromDefault.addr, [0x31, 0xd8, 0x58, 0xe8]⟩, ⟨fromDefault.addr, []⟩]

theorem server_lines_two : (serverLoop .little (fun k => twoPackets[k]?) 3).val = some () ∧
    (serverLoop .little (fun k => twoPackets[k]?) 3).log.length = 2 * twoPackets.length ∧
      ∀ k p, twoPackets[k]? = some p →
        (serverLoop .little (fun k => twoPackets[k]?) 3).log[2 * k]? =
          some (.line (serverLine .little (received (twoPackets.take (k + 1))) p (k % 2 = 1))) ∧
        (serverLoop .little (fun k => twoPackets[k]?) 3).log[2 * k + 1]? =
          some (.setsockopt (k % 2 = 0)) :=
  server_lines .little (fun _ _ => rfl) rfl (by decide)

/-- As long as packets come, the server does not end. -/
theorem serverLoop_runs {recvfrom : ℕ → Option Received} (h : ∀ k, recvfrom k ≠ none) (fuel : ℕ) :
    (serverLoop o recvfrom fuel).val = none := by
  have hround : ∀ s : ServerState, True →
      ∃ s', (serverTurn o recvfrom s).val = .inl s' ∧ True := by
    intro s _
    obtain ⟨p, hp⟩ := Option.ne_none_iff_exists'.mp (h s.count)
    rw [serverTurn, hp]
    exact ⟨_, rfl, trivial⟩
  exact Loop.run_eq_none hround fuel trivial

end StudyTips
