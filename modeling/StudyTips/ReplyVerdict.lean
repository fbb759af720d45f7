import Mathlib.Data.List.Find
import Mathlib.Data.List.TakeWhile
import StudyTips.ReplySafety

/-!
# Which messages of a reply are processed, and how the run ends

The messages passed to `nl_filter_route` are the program's own ones before the
first that ends the loop, and a message of somebody else is inert: what it says
changes nothing (`routes_messageLoop`). The length left behind the loop tells a
clean end from a remnant, except that leaving at `NLMSG_DONE` leaves a length
too, so that a reply closed in the regular way counts as one with a remnant
(`answersRight_iff`).
-/

namespace StudyTips

open Bytes

variable {host : Host} {q : Session} {r : Reply}

/-! ## The messages processed -/

/-- The messages a run passes to `nl_filter_route`, in order. -/
def routes (l : List RouteEvent) : List ℕ :=
  l.filterMap fun
    | .nl_filter_route n => some n
    | _ => none

/-- A turn passes on the message it is at, if that is one to pass on. -/
theorem routes_messageTurn {fuel h : ℕ} (hfuel : r.recvlen < fuel) :
    routes (messageTurn host q r fuel (.upTo r.recvlen h)).log =
      [h].filter fun h => (r.area host).Fits h ∧ Handled host q r h := by
  by_cases hfit : (r.area host).Fits h
  · rw [messageTurn_eq hfuel hfit]
    by_cases hhandled : Handled host q r h
    · have hnone : routes (nl_filter_route host r.buf fuel q.rtm_family h RTM_NEWROUTE).log = [] := by
        refine List.filterMap_eq_nil_iff.mpr fun e he => ?_
        cases e with
        | nl_filter_route n =>
          exact absurd he (route_not_mem_nl_filter_route (attrArea_stop hfit).2
            (len_lt_fuel hfuel hfit))
        | _ => rfl
      rw [messageLog, if_pos hhandled]
      simp only [routes, List.filterMap_cons] at hnone ⊢
      simp [hnone, hfit, hhandled]
    · rw [messageLog, if_neg hhandled]
      by_cases herror : Own host q r h ∧ nlmsg_type host.order r.buf h = NLMSG_ERROR ∧
          36 ≤ (nlmsg_len host.order r.buf h).toNat
      · simp [routes, hhandled, if_pos herror]
      · simp [routes, hhandled, if_neg herror]
  · rw [messageTurn_of_not_fits hfit]
    dsimp only
    split
    · simp [routes, hfit]
    · simp [routes, hfit]

/-- **The messages passed on are the `routed` ones, in order and once each.** -/
theorem routes_messageLoop {fuel : ℕ} (hfuel : r.recvlen < fuel) :
    routes (messageLoop host q r fuel).log = routed host q r := by
  have hpassed : ∀ h ∈ passed host q r, (r.area host).Fits h := fun h hh =>
    ((r.area host).longest_records 0).1.fits h ((List.takeWhile_prefix _).subset hh)
  -- where the loop stops there is no message, or one that ends it
  have hstop : ¬ ((r.area host).Fits (stopsAt host q r) ∧ Handled host q r (stopsAt host q r)) :=
    fun ⟨hfit, hhandled⟩ => (ends_stopsAt hfit).not_handled hhandled
  have hturn : ∀ h, routes (messageTurn host q r fuel (.upTo r.recvlen h)).log =
      [h].filter fun h => (r.area host).Fits h ∧ Handled host q r h :=
    fun h => routes_messageTurn hfuel
  have hflat : routes (messageLoop host q r fuel).log =
      (passed host q r ++ [stopsAt host q r]).filter
        fun h => (r.area host).Fits h ∧ Handled host q r h := by
    rw [messageLoop_eq hfuel, routes, List.filterMap_flatMap]
    simp only [routes] at hturn
    simp only [hturn, ← List.filter_flatMap, List.flatMap_singleton']
  rw [hflat, List.filter_append, routed,
    List.filter_cons_of_neg (by simpa using hstop), List.filter_nil, List.append_nil]
  refine List.filter_congr fun h hh => ?_
  simp [hpassed h hh]

/-! ## A message of somebody else is inert -/

/-- `r'` is the reply `r` with the message at `h` replaced: it belongs to somebody else
before and after, keeps its length, and nothing else changes. -/
structure Replaced (host : Host) (q : Session) (r r' : Reply) (h : ℕ) : Prop where
  /-- the message is one of the reply -/
  mem : h ∈ r.messages host
  /-- the message replaced carries no own pid -/
  foreign : ¬ Own host q r h
  /-- the message in its place carries no own pid either -/
  foreign' : ¬ Own host q r' h
  /-- as much is received -/
  recvlen : r'.recvlen = r.recvlen
  /-- bytes other than those behind its length field stay -/
  same : ∀ x, x < h + 4 ∨ (r.area host).next h ≤ x → r'.buf x = r.buf x

namespace Replaced

variable {r' : Reply} {h : ℕ}

/-- The header of another message is as before, and of what ends the messages. -/
theorem load_eq (hr : Replaced host q r r' h) {n k : ℕ}
    (hn : n + k ≤ h + 4 ∨ (r.area host).next h ≤ n) :
    ∀ x, n ≤ x → x < n + k → r'.buf x = r.buf x := by
  intro x hx hx'
  refine hr.same x ?_
  rcases hn with hn | hn
  · exact .inl (by omega)
  · exact .inr (by omega)

theorem len_eq (hr : Replaced host q r r' h) {n : ℕ}
    (hn : n ≤ h ∨ (r.area host).next h ≤ n) :
    nlmsg_len host.order r'.buf n = nlmsg_len host.order r.buf n :=
  ByteOrder.load32_congr (hr.load_eq (by omega))

/-- The messages are the same, and end in the same place. -/
theorem messages_eq (hr : Replaced host q r r' h) :
    r'.messages host = r.messages host ∧ (r'.area host).rest 0 = (r.area host).rest 0 := by
  obtain ⟨hchain, hend⟩ := (r.area host).longest_records 0
  have hhdr : (r'.area host).hdr = (r.area host).hdr := rfl
  have hunit : (r'.area host).unit = (r.area host).unit := rfl
  have hstop : (r'.area host).stop = (r.area host).stop := hr.recvlen
  have hlen : ∀ n ∈ r.messages host, (r'.area host).len n = (r.area host).len n := by
    intro n hn
    refine congrArg UInt32.toNat (hr.len_eq ?_)
    by_cases hne : n = h
    · exact .inl (le_of_eq hne)
    · rcases hchain.disjoint hn hr.mem hne with hle | hle
      · exact .inl (by have := (hchain.fits n hn).lt_next; omega)
      · exact .inr hle
  have hrest : (r'.area host).len ((r.area host).rest 0) = (r.area host).len ((r.area host).rest 0) :=
    congrArg UInt32.toNat (hr.len_eq (.inr (hchain.mem_bounds h hr.mem).2))
  have hlongest : (r'.area host).Longest 0 (r.messages host) ((r.area host).rest 0) := by
    refine ⟨hchain.congr hhdr hunit hstop hlen, ?_⟩
    rw [Tlv.Area.Fits, hrest, hstop]
    exact hend
  exact hlongest.eq_records

/-- A message ends the loop exactly if it did before the replacement. -/
theorem ends_iff (hr : Replaced host q r r' h) {n : ℕ} (hn : n ∈ r.messages host) :
    (Ends host q r' n ↔ Ends host q r n) ∧ (Handled host q r' n ↔ Handled host q r n) := by
  by_cases hne : n = h
  · -- the message itself ends nothing and is not handled, before and after
    subst hne
    simp [Ends, Handled, hr.foreign, hr.foreign']
  · -- any other lies apart from it, and reads as before
    have hchain := ((r.area host).longest_records 0).1
    have hfit := hchain.fits n hn
    have hnext := Tlv.le_alignUp (by decide : 0 < 4) (nlmsg_len host.order r.buf n).toNat
    have hnext' : (r.area host).next n = n + Tlv.alignUp 4 (nlmsg_len host.order r.buf n).toNat := rfl
    obtain ⟨-, hsize, -⟩ := msgArea_fits.mp hfit
    have hsep := hchain.disjoint hn hr.mem hne
    have hlen : nlmsg_len host.order r'.buf n = nlmsg_len host.order r.buf n :=
      hr.len_eq (by omega)
    have htype : nlmsg_type host.order r'.buf n = nlmsg_type host.order r.buf n :=
      ByteOrder.load16_congr (hr.load_eq (by omega))
    have hpid : nlmsg_pid host.order r'.buf n = nlmsg_pid host.order r.buf n :=
      ByteOrder.load32_congr (hr.load_eq (by omega))
    have hown : Own host q r' n ↔ Own host q r n := by rw [Own, Own, hpid]
    have hbad : BadError host r' n ↔ BadError host r n := by
      rw [BadError, BadError, hlen, htype]
      by_cases hshort : (nlmsg_len host.order r.buf n).toNat < 36
      · simp [hshort]
      · have herror : nlmsgerr_error host.order r'.buf n = nlmsgerr_error host.order r.buf n :=
          congrArg UInt32.toInt32 (ByteOrder.load32_congr
            (hr.load_eq (by rw [NLMSG_DATA_eq]; omega)))
        rw [herror]
    exact ⟨by rw [Ends, Ends, hown, htype, hbad], by rw [Handled, Handled, hown, htype]⟩

end Replaced

theorem takeWhile_congr {α : Type} {p p' : α → Bool} {l : List α} (h : ∀ x ∈ l, p x = p' x) :
    l.takeWhile p = l.takeWhile p' := by
  induction l with
  | nil => rfl
  | cons x l ih =>
    rw [List.takeWhile_cons, List.takeWhile_cons, h x (List.mem_cons_self ..),
      ih fun y hy => h y (List.mem_cons_of_mem _ hy)]

/-- **A message of somebody else is inert**: replacing it changes neither the messages
passed on nor where the loop stops. -/
theorem Replaced.inert {r' : Reply} {h : ℕ} (hr : Replaced host q r r' h) :
    routed host q r' = routed host q r ∧ stopsAt host q r' = stopsAt host q r := by
  obtain ⟨hmessages, hrest⟩ := hr.messages_eq
  have hpassed : passed host q r' = passed host q r := by
    rw [passed, passed, hmessages]
    exact takeWhile_congr fun n hn => by simp [(hr.ends_iff hn).1]
  refine ⟨?_, ?_⟩
  · rw [routed, routed, hpassed]
    refine List.filter_congr fun n hn => ?_
    simp [(hr.ends_iff ((List.takeWhile_prefix _).subset hn)).2]
  · rw [stopsAt, stopsAt, hmessages, hrest]
    congr 1
    exact List.find?_congr fun n hn => by simp [(hr.ends_iff hn).1]

/-- **Who is processed**: the messages passed to `nl_filter_route` are, in order and once
each, those with the pid of the request or of the process that are neither
`NLMSG_DONE` nor `NLMSG_ERROR` and come before the first such message that is
`NLMSG_DONE`, a truncated error or an error other than zero; and what a message of
somebody else says has no influence on them or on where the loop stops. -/
theorem handleReply_routes (host : Host) (q : Session) (r : Reply) {fuel : ℕ}
    (hfuel : r.recvlen < fuel) :
    routes (handleReply host q r fuel).log =
        ((r.messages host).takeWhile fun h => ¬ Ends host q r h).filter
          (fun h => Handled host q r h) ∧
      ∀ r' h, Replaced host q r r' h →
        routes (handleReply host q r' fuel).log = routes (handleReply host q r fuel).log ∧
          (messageLoop host q r' fuel).val = (messageLoop host q r fuel).val := by
  have hroutes : routes (handleReply host q r fuel).log = routed host q r := by
    rw [handleReply_eq hfuel, routes_messageLoop hfuel]
  refine ⟨hroutes, fun r' h hr => ?_⟩
  have hfuel' : r'.recvlen < fuel := by rw [hr.recvlen]; exact hfuel
  obtain ⟨hrouted, hstop⟩ := hr.inert
  refine ⟨?_, ?_⟩
  · rw [hroutes, handleReply_eq hfuel', routes_messageLoop hfuel', hrouted]
  · rw [messageLoop_eq hfuel', messageLoop_eq hfuel, hr.recvlen, hstop]

/-- A message of somebody else, of a given type, and behind it those of `ackedReply`. -/
def mixedReply (type : UInt8) : Reply :=
  .ofBytes ([16, 0, 0, 0, type, 0, 0, 0, 1, 0, 0, 0, 77, 0, 0, 0] ++ ackedBytes)
    (Nat.le_of_ble_eq_true rfl)

/-- The route is passed on behind a foreign `NLMSG_DONE`, and as well behind a foreign error. -/
theorem handleReply_routes_mixedReply :
    routes (handleReply linux inetSession (mixedReply 3) 89).log = [16] ∧
      routes (handleReply linux inetSession (mixedReply 2) 89).log = [16] := by
  obtain ⟨hroutes, hinert⟩ := handleReply_routes linux inetSession (mixedReply 3)
    (show 88 < 89 by decide)
  have hreplaced : Replaced linux inetSession (mixedReply 3) (mixedReply 2) 0 := by
    refine ⟨by decide +kernel, by decide +kernel, by decide +kernel, rfl, ?_⟩
    rintro x (hx | hx)
    · have hfront : ∀ y < 4, (mixedReply 2).buf y = (mixedReply 3).buf y := by decide +kernel
      exact hfront x hx
    · obtain ⟨k, rfl⟩ := Nat.exists_eq_add_of_le (show 16 ≤ x from hx)
      rw [Nat.add_comm]
      rfl
  have hfirst : routes (handleReply linux inetSession (mixedReply 3) 89).log = [16] := by
    rw [hroutes]
    decide +kernel
  exact ⟨hfirst, (hinert _ 0 hreplaced).1.trans hfirst⟩

/-! ## The verdict -/

/-- The messages of the reply belong to the program, none is an error other than an
acknowledgement, and `NLMSG_DONE` can only be the last of them. -/
structure OwnSequence (host : Host) (q : Session) (r : Reply) : Prop where
  /-- every message carries an own pid -/
  own : ∀ h ∈ r.messages host, Own host q r h
  /-- no error is truncated or other than zero -/
  noBadError : ∀ h ∈ r.messages host, ¬ BadError host r h
  /-- `NLMSG_DONE` closes the sequence -/
  doneLast : ∀ h ∈ (r.messages host).dropLast, nlmsg_type host.order r.buf h ≠ NLMSG_DONE

/-- The messages are the whole reply: no byte is left behind them. -/
def Complete (host : Host) (r : Reply) : Prop := r.recvlen ≤ (r.area host).rest 0

/-- No message is `NLMSG_DONE`. -/
def NoDone (host : Host) (r : Reply) : Prop :=
  ∀ h ∈ r.messages host, nlmsg_type host.order r.buf h ≠ NLMSG_DONE

/-- What a sequence of own messages is due: if it is the whole reply, every message but
`NLMSG_DONE` and the acknowledgements is passed on and the program succeeds; if
something else follows a sequence without `NLMSG_DONE`, the program fails. -/
def AnswersRight (host : Host) (q : Session) (r : Reply) (fuel : ℕ) : Prop :=
  (Complete host r →
    routes (handleReply host q r fuel).log = ((r.messages host).filter fun h =>
      nlmsg_type host.order r.buf h ≠ NLMSG_DONE ∧ ¬ Ack host r h) ∧
    (handleReply host q r fuel).val = some 0) ∧
  (NoDone host r → ¬ Complete host r → (handleReply host q r fuel).val = some (-1))

/-- Without `NLMSG_DONE` no message of such a sequence ends the loop. -/
theorem OwnSequence.not_ends (hseq : OwnSequence host q r) (hdone : NoDone host r) :
    ∀ h ∈ r.messages host, ¬ Ends host q r h := by
  rintro h hh ⟨-, hdone' | hbad⟩
  · exact hdone h hh hdone'
  · exact hseq.noBadError h hh hbad

/-- Without `NLMSG_DONE` the loop gets past every message, and stops where they end. -/
theorem OwnSequence.walk (hseq : OwnSequence host q r) (hdone : NoDone host r) :
    passed host q r = r.messages host ∧ stopsAt host q r = (r.area host).rest 0 := by
  have hends := hseq.not_ends hdone
  refine ⟨?_, ?_⟩
  · exact List.takeWhile_eq_self_iff.mpr fun h hh => by simpa using hends h hh
  · have hnone : ((r.messages host).find? fun h => Ends host q r h) = none :=
      List.find?_eq_none.mpr fun h hh => by simpa using hends h hh
    rw [stopsAt, hnone, Option.getD_none]

/-- What is passed on is then what is no acknowledgement. -/
theorem OwnSequence.routed_eq (hseq : OwnSequence host q r) (hdone : NoDone host r) :
    routed host q r = (r.messages host).filter fun h =>
      nlmsg_type host.order r.buf h ≠ NLMSG_DONE ∧ ¬ Ack host r h := by
  rw [routed, (hseq.walk hdone).1]
  refine List.filter_congr fun h hh => ?_
  have hown := hseq.own h hh
  have hbad := hseq.noBadError h hh
  simp [Handled, Ack, hown, hbad]

/-- **The verdict is right exactly on replies that `NLMSG_DONE` does not close**: behind a
closing `NLMSG_DONE` the length left still counts the message itself. -/
theorem answersRight_iff (host : Host) (q : Session) (r : Reply) {fuel : ℕ}
    (hfuel : r.recvlen < fuel) (hseq : OwnSequence host q r) :
    AnswersRight host q r fuel ↔ (Complete host r → NoDone host r) := by
  refine ⟨?_, ?_⟩
  · -- a message that is `NLMSG_DONE` is where the loop stops, inside the buffer
    rintro ⟨hright, -⟩ hcomplete h hh hdone
    obtain ⟨-, hval⟩ := hright hcomplete
    rw [handleReply_eq hfuel] at hval
    have hends : Ends host q r h := ⟨hseq.own h hh, .inl hdone⟩
    have hsome : ((r.messages host).find? fun h => Ends host q r h).isSome :=
      List.find?_isSome.mpr ⟨h, hh, decide_eq_true hends⟩
    obtain ⟨h', hfind⟩ := Option.isSome_iff_exists.mp hsome
    have hstop : stopsAt host q r = h' := by rw [stopsAt, hfind, Option.getD_some]
    have hfit := ((r.area host).longest_records 0).1.fits h' (List.mem_of_find?_eq_some hfind)
    have hlt : stopsAt host q r < r.recvlen := by
      have hroom : h' + 16 ≤ r.recvlen := hfit.1
      omega
    rw [if_pos hlt] at hval
    cases hval
  · intro himp
    refine ⟨?_, ?_⟩
    · intro hcomplete
      have hdone := himp hcomplete
      rw [handleReply_eq hfuel, routes_messageLoop hfuel, (hseq.walk hdone).2]
      exact ⟨hseq.routed_eq hdone, congrArg some (if_neg (Nat.not_lt.mpr hcomplete))⟩
    · intro hdone hcomplete
      rw [handleReply_eq hfuel, (hseq.walk hdone).2]
      exact congrArg some (if_pos (Nat.lt_of_not_le hcomplete))

/-- A route and an acknowledgement: the route is passed on, and the program succeeds. -/
theorem answersRight_ackedReply : OwnSequence linux inetSession ackedReply ∧
    AnswersRight linux inetSession ackedReply 73 := by
  have hseq : OwnSequence linux inetSession ackedReply :=
    ⟨by decide +kernel, by decide +kernel, by decide +kernel⟩
  have hdone : NoDone linux ackedReply := by
    rw [NoDone]
    decide +kernel
  exact ⟨hseq, (answersRight_iff linux inetSession ackedReply (by decide) hseq).mpr
    fun _ => hdone⟩

/-- A reply that is closed as it should be: `NLMSG_DONE` and nothing more. -/
def doneReply : Reply :=
  .ofBytes [16, 0, 0, 0, 3, 0, 0, 0, 1, 0, 0, 0, 0xd2, 4, 0, 0] (by decide)

/-- The program takes it for one with a remnant and fails. -/
theorem doneReply_fails : OwnSequence linux inetSession doneReply ∧ Complete linux doneReply ∧
    ¬ AnswersRight linux inetSession doneReply 17 := by
  have hcomplete : Complete linux doneReply := by
    rw [Complete]
    decide +kernel
  refine ⟨⟨by decide +kernel, by decide +kernel, by decide +kernel⟩, hcomplete, ?_⟩
  rintro ⟨hright, -⟩
  have hval := (hright hcomplete).2
  rw [handleReply_eq (by decide)] at hval
  have hstop : stopsAt linux inetSession doneReply < doneReply.recvlen := by decide +kernel
  rw [if_pos hstop] at hval
  cases hval

end StudyTips
