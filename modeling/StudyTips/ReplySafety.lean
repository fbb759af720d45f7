import StudyTips.GetRoute

/-!
# What a run over a reply touches

Every header `main` and `nl_filter_route` look at lies inside what was received,
whatever its bytes say, both loops end, and the table is right
(`handleReply_wellBehaved`). The reads of attribute payloads have no such
property: `payloads_within_iff` says for which replies they stay inside.
-/

namespace StudyTips

open Bytes

/-! ## Three replies

Each has a message of type `RTM_NEWROUTE` with the pid of the request, and an `RTA_OIF`
behind its `struct rtmsg`. -/

/-- A 64-bit PC. -/
def linux : Host := ⟨.little, 30, by decide⟩

/-- A request for an IPv4 route. -/
def inetSession : Session := ⟨AF_INET, 1234, 4321⟩

/-- The attribute holds an interface index. -/
def oifReply : Reply :=
  .ofBytes [36, 0, 0, 0, 24, 0, 0, 0, 1, 0, 0, 0, 0xd2, 4, 0, 0,
    2, 32, 0, 0, 254, 0, 0, 1, 0, 0, 0, 0, 8, 0, 4, 0, 2, 0, 0, 0] (by decide)

/-- The message of `oifReply`, and an acknowledgement behind it. -/
def ackedBytes : List UInt8 :=
  [36, 0, 0, 0, 24, 0, 0, 0, 1, 0, 0, 0, 0xd2, 4, 0, 0,
    2, 32, 0, 0, 254, 0, 0, 1, 0, 0, 0, 0, 8, 0, 4, 0, 2, 0, 0, 0,
    36, 0, 0, 0, 2, 0, 0, 0, 1, 0, 0, 0, 0xd2, 4, 0, 0, 0, 0, 0, 0,
    36, 0, 0, 0, 26, 0, 5, 0, 1, 0, 0, 0, 0xd2, 4, 0, 0]

/-- The attribute holds an interface index, and the kernel acknowledges the request. -/
def ackedReply : Reply := .ofBytes ackedBytes (by decide)

/-- The attribute is a header and nothing more. -/
def emptyOifReply : Reply :=
  .ofBytes [32, 0, 0, 0, 24, 0, 0, 0, 1, 0, 0, 0, 0xd2, 4, 0, 0,
    2, 32, 0, 0, 254, 0, 0, 1, 0, 0, 0, 0, 4, 0, 4, 0] (by decide)

variable {host : Host} {q : Session} {r : Reply}

/-! ## Headers and the table -/

/-- An event touches only what was received, and only entries `tb` has. -/
def Reply.Inside (host : Host) (r : Reply) : RouteEvent → Prop
  | .nlmsghdr h => h + nlmsghdr.sizeof ≤ r.recvlen
  | .nlmsgerr h => h + nlmsghdr.sizeof + nlmsgerr.sizeof ≤ r.recvlen
  | .rtmsg n => n + nlmsghdr.sizeof + rtmsg.sizeof ≤ r.recvlen
  | .rtattr n rta =>
    n + nlmsghdr.sizeof + rtmsg.sizeof ≤ rta ∧
      rta + rtattr.sizeof ≤ n + (nlmsg_len host.order r.buf n).toNat ∧
      n + (nlmsg_len host.order r.buf n).toNat ≤ r.recvlen
  | .tb type => type ≤ host.RTA_MAX
  | _ => True

/-- `nl_filter_route` on a message that fits stays inside it. -/
theorem nl_filter_route_inside {fuel n : ℕ} (hfuel : r.recvlen < fuel)
    (hfit : (r.area host).Fits n) {e : RouteEvent}
    (he : e ∈ (nl_filter_route host r.buf fuel q.rtm_family n RTM_NEWROUTE).log) :
    r.Inside host e := by
  obtain ⟨-, -, hlen⟩ := msgArea_fits.mp hfit
  obtain ⟨⟨-, hlong⟩, hcases⟩ :=
    of_mem_nl_filter_route host r.buf (attrArea_stop hfit).2 (len_lt_fuel hfuel hfit) he
  rcases hcases with hattr | rfl | rfl | he
  · cases e with
    | rtattr n' rta =>
      obtain ⟨rfl, hlow, hhigh⟩ := hattr
      exact ⟨hlow, hhigh, hlen⟩
    | tb type => exact hattr
    | _ => exact hattr.elim
  · trivial
  · exact le_trans (Nat.add_le_add_left hlong n) hlen
  · rcases mem_printed he with ⟨type, htype, rfl⟩ | ⟨rta, read, rfl⟩
    · exact le_trans htype host.RTA_TABLE_le
    · trivial

theorem messageLoop_inside {fuel : ℕ} (hfuel : r.recvlen < fuel) :
    ∀ e ∈ (messageLoop host q r fuel).log, r.Inside host e := by
  intro e he
  rcases (mem_messageLoop hfuel).mp he with
    ⟨h, -, hroom, rfl⟩ | ⟨h, -, hfit, -, -, hlong, rfl⟩ | ⟨n, hn, rfl | he⟩
  · exact hroom
  · exact le_trans (Nat.add_le_add_left hlong h) hfit.2.2
  · trivial
  · exact nl_filter_route_inside hfuel (routed_fits hn) he

/-- The messages passed on are the `routed` ones. -/
theorem route_mem_messageLoop {fuel : ℕ} (hfuel : r.recvlen < fuel) {n : ℕ} :
    .nl_filter_route n ∈ (messageLoop host q r fuel).log ↔ n ∈ routed host q r := by
  rw [mem_messageLoop hfuel]
  refine ⟨?_, ?_⟩
  · rintro (⟨h, -, -, heq⟩ | ⟨h, -, -, -, -, -, heq⟩ | ⟨n', hn, heq | he⟩)
    · cases heq
    · cases heq
    · obtain rfl := RouteEvent.nl_filter_route.inj heq
      exact hn
    · have hfit := routed_fits hn
      exact absurd he (route_not_mem_nl_filter_route (attrArea_stop hfit).2 (len_lt_fuel hfuel hfit))
  · exact fun hn => .inr (.inr ⟨n, hn, .inl rfl⟩)

/-- The tables logged are those of the messages passed on and accepted. -/
theorem table_mem_messageLoop {fuel : ℕ} (hfuel : r.recvlen < fuel) {n : ℕ}
    {tb : ℕ → Option ℕ} : .table n tb ∈ (messageLoop host q r fuel).log ↔
      n ∈ routed host q r ∧ Accepts r.buf host.order n RTM_NEWROUTE ∧
        tb = attrTable host r.buf n := by
  rw [called_mem_messageLoop hfuel (by simp) (by simp) (by simp)]
  refine ⟨?_, ?_⟩
  · rintro ⟨n', hn, he⟩
    have hfit := routed_fits hn
    obtain ⟨rfl, hacc, htb⟩ := (table_mem_nl_filter_route (attrArea_stop hfit).2
      (len_lt_fuel hfuel hfit)).mp he
    exact ⟨hn, hacc, htb⟩
  · rintro ⟨hn, hacc, htb⟩
    have hfit := routed_fits hn
    exact ⟨n, hn, (table_mem_nl_filter_route (attrArea_stop hfit).2
      (len_lt_fuel hfuel hfit)).mpr ⟨rfl, hacc, htb⟩⟩

/-- What a run over a reply owes: it ends, looks only at what was received, hands over the
messages it should, and fills the table as it should. -/
structure WellBehaved (host : Host) (q : Session) (r : Reply)
    (run : Traced RouteEvent (Option ℤ)) : Prop where
  /-- both loops end and the program returns -/
  returns : ∃ rc, run.val = some rc
  /-- message headers lie in the received bytes, attribute headers in their message, and
  no entry of `tb` behind `RTA_MAX` is touched -/
  inside : ∀ e ∈ run.log, r.Inside host e
  /-- the messages passed on are the own ones that are no end and no error, up to the first
  message that ends the loop -/
  passedOn : ∀ n, .nl_filter_route n ∈ run.log ↔ n ∈ routed host q r
  /-- a message passed on that is neither of another type nor too short leaves a table -/
  tabled : ∀ n ∈ routed host q r, Accepts r.buf host.order n RTM_NEWROUTE →
    ∃ tb, .table n tb ∈ run.log
  /-- a table holds for each type the last attribute of that type in the longest
  well-formed prefix of the attribute area, and nothing where there is none -/
  last : ∀ n tb, .table n tb ∈ run.log →
    ∃ rtas e, (attrArea host.order r.buf n).Longest (n + 28) rtas e ∧
      ∀ t ≤ host.RTA_MAX, tb t = lastOfType r.buf host.order t rtas

/-- **Both walks end, stay inside what was received, and leave the right table**,
whatever the bytes received. -/
theorem handleReply_wellBehaved (host : Host) (q : Session) (r : Reply) {fuel : ℕ}
    (hfuel : r.recvlen < fuel) : WellBehaved host q r (handleReply host q r fuel) := by
  rw [handleReply_eq hfuel]
  refine ⟨⟨_, rfl⟩, messageLoop_inside hfuel, fun n => route_mem_messageLoop hfuel, ?_, ?_⟩
  · exact fun n hn hacc => ⟨_, (table_mem_messageLoop hfuel).mpr ⟨hn, hacc, rfl⟩⟩
  · intro n tb htb
    obtain ⟨-, -, rfl⟩ := (table_mem_messageLoop hfuel).mp htb
    refine ⟨_, _, (attrArea host.order r.buf n).longest_records (n + 28), fun t ht => ?_⟩
    exact if_pos ht

/-- The route that an acknowledgement follows leaves a table, and nothing else is passed on. -/
theorem handleReply_wellBehaved_ackedReply :
    (∃ tb, .table 0 tb ∈ (handleReply linux inetSession ackedReply 73).log) ∧
      .nl_filter_route 36 ∉ (handleReply linux inetSession ackedReply 73).log := by
  have hwell := handleReply_wellBehaved linux inetSession ackedReply (show 72 < 73 by decide)
  refine ⟨hwell.tabled 0 (by decide +kernel) (by decide +kernel), ?_⟩
  rw [hwell.passedOn]
  decide +kernel

/-! ## Payloads -/

/-- Every byte read as the payload of an attribute lies inside that payload, and
inside what was received. -/
def PayloadsWithin (host : Host) (r : Reply) (l : List RouteEvent) : Prop :=
  ∀ n rta read, .payload n rta read ∈ l → ∀ i, read.Reads r.buf (RTA_DATA rta) i →
    rtattr.sizeof + i < (rta_len host.order r.buf rta).toNat ∧ RTA_DATA rta + i < r.recvlen

/-- The payloads read are those of the last attributes of the printed types. -/
theorem payload_mem_messageLoop {fuel : ℕ} (hfuel : r.recvlen < fuel) {n rta : ℕ}
    {read : Payload} : .payload n rta read ∈ (messageLoop host q r fuel).log ↔
      n ∈ routed host q r ∧ Accepts r.buf host.order n RTM_NEWROUTE ∧
        ∃ type, (type, read) ∈ payloadReads q.rtm_family ∧
          lastOfType r.buf host.order type (attributes r.buf host.order n) = some rta := by
  rw [called_mem_messageLoop hfuel (by simp) (by simp) (by simp)]
  refine ⟨?_, ?_⟩
  · rintro ⟨n', hn, he⟩
    have hfit := routed_fits hn
    obtain ⟨rfl, hacc, hlast⟩ := (payload_mem_nl_filter_route (attrArea_stop hfit).2
      (len_lt_fuel hfuel hfit)).mp he
    exact ⟨hn, hacc, hlast⟩
  · rintro ⟨hn, hacc, hlast⟩
    have hfit := routed_fits hn
    exact ⟨n, hn, (payload_mem_nl_filter_route (attrArea_stop hfit).2
      (len_lt_fuel hfuel hfit)).mpr ⟨rfl, hacc, hlast⟩⟩

/-- An attribute of a message that fits ends inside what was received. -/
theorem attribute_within {n rta : ℕ} (hfit : (r.area host).Fits n)
    (hrta : rta ∈ attributes r.buf host.order n) :
    rtattr.sizeof ≤ (rta_len host.order r.buf rta).toNat ∧
      rta + (rta_len host.order r.buf rta).toNat ≤ r.recvlen := by
  obtain ⟨-, hlen, hend⟩ :=
    attrArea_fits.mp (((attrArea host.order r.buf n).longest_records (n + 28)).1.fits rta hrta)
  exact ⟨hlen, le_trans hend hfit.2.2⟩

/-- The attribute each printed type is read from is long enough for the read, in every
message that is passed on and accepted. -/
def LongEnough (host : Host) (q : Session) (r : Reply) : Prop :=
  ∀ n ∈ routed host q r, Accepts r.buf host.order n RTM_NEWROUTE →
    ∀ type read, (type, read) ∈ payloadReads q.rtm_family →
      ∀ rta, lastOfType r.buf host.order type (attributes r.buf host.order n) = some rta →
        read.Enough r.buf host.order rta

/-- **Payload reads stay inside their attribute exactly when the attributes are long
enough**: the length of an attribute is never looked at before its payload is. -/
theorem payloads_within_iff (host : Host) (q : Session) (r : Reply) {fuel : ℕ}
    (hfuel : r.recvlen < fuel) :
    PayloadsWithin host r (handleReply host q r fuel).log ↔ LongEnough host q r := by
  rw [handleReply_eq hfuel]
  refine ⟨?_, ?_⟩
  · intro hwithin n hn hacc type read hmem rta hlast
    have hin := attribute_within (routed_fits hn) (lastOfType_mem hlast)
    refine (Payload.reads_within_iff r.buf hin.1 read).mp fun i hi => ?_
    exact (hwithin n rta read
      ((payload_mem_messageLoop hfuel).mpr ⟨hn, hacc, type, hmem, hlast⟩) i hi).1
  · -- a read that stays in its attribute stays in the message, and in the buffer
    intro hlong n rta read hread i hi
    obtain ⟨hn, hacc, type, hmem, hlast⟩ := (payload_mem_messageLoop hfuel).mp hread
    have hin := attribute_within (routed_fits hn) (lastOfType_mem hlast)
    have hpayload : 4 + i < (rta_len host.order r.buf rta).toNat :=
      (Payload.reads_within_iff r.buf hin.1 read).mpr
        (hlong n hn hacc type read hmem rta hlast) i hi
    refine ⟨hpayload, ?_⟩
    rw [RTA_DATA_eq]
    omega

/-- The route that an acknowledgement follows has a whole `RTA_OIF`. -/
theorem payloads_within_ackedReply :
    PayloadsWithin linux ackedReply (handleReply linux inetSession ackedReply 73).log := by
  refine (payloads_within_iff linux inetSession ackedReply (show 72 < 73 by decide)).mpr ?_
  have hrouted : routed linux inetSession ackedReply = [0] := by decide +kernel
  have hlast : ∀ p ∈ payloadReads AF_INET, ∀ rta ∈
      lastOfType ackedReply.buf .little p.1 (attributes ackedReply.buf .little 0),
      p = (RTA_OIF, .int) ∧ rta = 28 := by decide +kernel
  intro n hn _ type read hmem rta hrta
  rw [hrouted] at hn
  obtain rfl := List.mem_singleton.mp hn
  obtain ⟨hread, rfl⟩ := hlast (type, read) hmem rta hrta
  obtain ⟨-, rfl⟩ := Prod.mk.inj hread
  show 8 ≤ (rta_len .little ackedReply.buf 28).toNat
  decide

/-- A route message of 32 bytes whose last attribute is an `RTA_OIF` without payload:
the `int` behind its header lies behind the bytes received. -/
theorem emptyOifReply_leaves_payload :
    ¬ PayloadsWithin linux emptyOifReply
      (handleReply linux inetSession emptyOifReply 4097).log := by
  have hfuel : emptyOifReply.recvlen < 4097 := by decide
  have hread : .payload 0 28 .int ∈ (messageLoop linux inetSession emptyOifReply 4097).log :=
    (payload_mem_messageLoop hfuel).mpr
      ⟨by decide +kernel, by decide +kernel, RTA_OIF, by decide, by decide +kernel⟩
  intro hwithin
  rw [handleReply_eq hfuel] at hwithin
  have hin := (hwithin 0 28 .int hread 0 (show 0 < 4 by decide)).2
  exact absurd hin (by decide)

end StudyTips
