import StudyTips.FilterRoute

/-!
# `c/netlink/getroute.c`: the messages of a reply

`main` walks the messages of one datagram. A message that carries neither the
pid of the request nor the pid of the process is skipped; of the others
`NLMSG_DONE` and an error leave the loop, an acknowledgement is skipped, and the
rest goes to `nl_filter_route`. Behind the loop the length left decides whether
the program fails.

`messageLoop_eq` is the spec of the loop: it takes one turn for each message
before the first that `Ends` it, and stops there or where the messages do.
-/

namespace StudyTips

open Bytes

/-! ## The loop -/

/-- What `main` knows of itself when the answer comes. -/
structure Session : Type where
  /-- `req.getr.rtm_family` -/
  rtm_family : UInt8
  /-- `req.nlh.nlmsg_pid` -/
  nlmsg_pid : UInt32
  /-- `self_pid` -/
  self_pid : Int32

/-- `sizeof(buf)`. -/
abbrev bufSize : ℕ := 4096

/-- A datagram `main` has received and found to fit the buffer. Behind `recvlen` the
memory holds anything. -/
structure Reply : Type where
  /-- the memory from the start of `buf` on -/
  buf : Mem
  /-- the bytes received -/
  recvlen : ℕ
  /-- the bytes received fit the buffer -/
  recvlen_le : recvlen ≤ bufSize

/-- A reply from its bytes, with zeros behind. -/
def Reply.ofBytes (bs : List UInt8) (h : bs.length ≤ bufSize) : Reply :=
  ⟨fun a => bs.getD a 0, bs.length, h⟩

/-- `err->error` of the `struct nlmsgerr` in the message at `h`. -/
def nlmsgerr_error (o : ByteOrder) (m : Mem) (h : ℕ) : Int32 :=
  (o.load32 m (NLMSG_DATA h)).toInt32

variable (host : Host) (q : Session) (r : Reply)

/-- The test for a response `main` does not expect. -/
def unexpected (h : ℕ) : Bool :=
  let pid := nlmsg_pid host.order r.buf h
  pid == 0 || (pid != 0 && (pid != q.nlmsg_pid && pid.toInt32 != q.self_pid))

/-- One turn of `while (NLMSG_OK(h, msglen))`; it leaves with `msglen`, or with
`none` when `nl_filter_route` is still running. -/
def messageTurn (fuel : ℕ) (c : Cursor) : Traced RouteEvent (Cursor ⊕ Option ℤ) := do
  if ← NLMSG_OK host.order r.buf c then
    let h := c.pos
    let skip_it := NLMSG_NEXT host.order r.buf c
    if unexpected host q r h then
      pure (.inl skip_it) -- not for us
    else if nlmsg_type host.order r.buf h = NLMSG_DONE then
      pure (.inr (some c.len))
    else if nlmsg_type host.order r.buf h = NLMSG_ERROR then
      if (nlmsg_len host.order r.buf h).toNat < NLMSG_LENGTH nlmsgerr.sizeof then
        pure (.inr (some c.len)) -- truncated
      else
        .emit (.nlmsgerr h)
        if nlmsgerr_error host.order r.buf h = 0 then
          pure (.inl skip_it) -- an acknowledgement
        else
          pure (.inr (some c.len))
    else
      .emit (.nl_filter_route h)
      match ← nl_filter_route host r.buf fuel q.rtm_family h RTM_NEWROUTE with
      | none => pure (.inr none)
      | some _ => pure (.inl skip_it)
  else
    pure (.inr (some c.len))

/-- The loop over the messages: `msglen` behind it, `none` while it still runs. -/
def messageLoop (fuel : ℕ) : Traced RouteEvent (Option ℤ) := do
  match ← Loop.run (messageTurn host q r fuel) fuel ⟨0, r.recvlen⟩ with
  | none => pure none
  | some msglen => pure msglen

/-- `main` from the first message on: what it returns. -/
def handleReply (fuel : ℕ) : Traced RouteEvent (Option ℤ) := do
  match ← messageLoop host q r fuel with
  | none => pure none
  | some msglen =>
    if msglen > 0 then pure (some (-1)) -- remnant, fail_flow
    else pure (some 0)

/-! ## What the messages are to the loop -/

/-- The message at `h` carries the pid of the request or of the process. -/
def Own (h : ℕ) : Prop :=
  nlmsg_pid host.order r.buf h ≠ 0 ∧
    (nlmsg_pid host.order r.buf h = q.nlmsg_pid ∨
      (nlmsg_pid host.order r.buf h).toInt32 = q.self_pid)

/-- The message at `h` is an error message, truncated or with an error other than zero. -/
def BadError (h : ℕ) : Prop :=
  nlmsg_type host.order r.buf h = NLMSG_ERROR ∧
    ((nlmsg_len host.order r.buf h).toNat < 36 ∨ nlmsgerr_error host.order r.buf h ≠ 0)

/-- The message at `h` is an acknowledgement: an error message with error zero. -/
def Ack (h : ℕ) : Prop :=
  nlmsg_type host.order r.buf h = NLMSG_ERROR ∧ ¬ BadError host r h

/-- The message at `h` ends the loop. -/
def Ends (h : ℕ) : Prop :=
  Own host q r h ∧ (nlmsg_type host.order r.buf h = NLMSG_DONE ∨ BadError host r h)

/-- The message at `h` is handed to `nl_filter_route`. -/
def Handled (h : ℕ) : Prop :=
  Own host q r h ∧ nlmsg_type host.order r.buf h ≠ NLMSG_DONE ∧
    nlmsg_type host.order r.buf h ≠ NLMSG_ERROR

instance (h : ℕ) : Decidable (Own host q r h) := inferInstanceAs (Decidable (_ ∧ (_ ∨ _)))
instance (h : ℕ) : Decidable (BadError host r h) := inferInstanceAs (Decidable (_ ∧ (_ ∨ _)))
instance (h : ℕ) : Decidable (Ack host r h) := inferInstanceAs (Decidable (_ ∧ ¬ _))
instance (h : ℕ) : Decidable (Ends host q r h) := inferInstanceAs (Decidable (_ ∧ (_ ∨ _)))
instance (h : ℕ) : Decidable (Handled host q r h) := inferInstanceAs (Decidable (_ ∧ _ ∧ _))

/-- The buffer as an area of messages. -/
abbrev Reply.area : Tlv.Area := msgArea host.order r.buf r.recvlen

/-- The messages of the reply. -/
def Reply.messages : List ℕ := (r.area host).records 0

/-- The messages the loop gets past. -/
def passed : List ℕ := (r.messages host).takeWhile fun h => ¬ Ends host q r h

/-- Where the loop stops: at the first message that ends it, else where the messages end. -/
def stopsAt : ℕ := ((r.messages host).find? fun h => Ends host q r h).getD ((r.area host).rest 0)

/-- The messages for `nl_filter_route`. -/
def routed : List ℕ := (passed host q r).filter fun h => Handled host q r h

theorem unexpected_eq_true {h : ℕ} : unexpected host q r h = true ↔ ¬ Own host q r h := by
  simp only [unexpected, Own, Bool.or_eq_true, Bool.and_eq_true, beq_iff_eq, bne_iff_ne]
  tauto

variable {host q r}

/-- A message that fits ends before the buffer does, which an `int` can count. -/
theorem attrArea_stop {h : ℕ} (hfit : (r.area host).Fits h) :
    (attrArea host.order r.buf h).stop ≤ r.recvlen ∧
      (attrArea host.order r.buf h).stop < 2 ^ 31 := by
  obtain ⟨-, -, hle⟩ := msgArea_fits.mp hfit
  have hsmall : r.recvlen ≤ 4096 := r.recvlen_le
  have hstop : (attrArea host.order r.buf h).stop = h + (nlmsg_len host.order r.buf h).toNat := rfl
  exact ⟨by omega, by omega⟩

theorem len_lt_fuel {fuel h : ℕ} (hfuel : r.recvlen < fuel) (hfit : (r.area host).Fits h) :
    (nlmsg_len host.order r.buf h).toNat < fuel := by
  obtain ⟨-, -, hle⟩ := msgArea_fits.mp hfit
  omega

/-! ## One turn -/

/-- What a turn logs of a message once its header is accepted. -/
def messageLog (host : Host) (q : Session) (r : Reply) (fuel h : ℕ) : List RouteEvent :=
  if Handled host q r h then
    .nl_filter_route h :: (nl_filter_route host r.buf fuel q.rtm_family h RTM_NEWROUTE).log
  else if Own host q r h ∧ nlmsg_type host.order r.buf h = NLMSG_ERROR ∧
      36 ≤ (nlmsg_len host.order r.buf h).toNat then [.nlmsgerr h]
  else []

/-- **A turn at a message** leaves if the message ends the loop, and goes on to the
next message otherwise. -/
theorem messageTurn_eq {fuel h : ℕ} (hfuel : r.recvlen < fuel) (hfit : (r.area host).Fits h) :
    messageTurn host q r fuel (.upTo r.recvlen h) =
      ⟨if Ends host q r h then .inr (some (Cursor.upTo r.recvlen h).len)
        else .inl (.upTo r.recvlen ((r.area host).next h)),
      .nlmsghdr h :: messageLog host q r fuel h⟩ := by
  have hroom : h + 16 ≤ r.recvlen := hfit.1
  have hok : NLMSG_OK host.order r.buf (.upTo r.recvlen h) = ⟨true, [.nlmsghdr h]⟩ :=
    Traced.ext (NLMSG_OK_val.mpr hfit) (by rw [NLMSG_OK_log, if_pos hroom])
  have hnext := NLMSG_NEXT_eq (lt_of_le_of_lt r.recvlen_le (by decide)) hfit
  have hne : ¬ NLMSG_DONE = NLMSG_ERROR := by decide
  rw [messageTurn, hok]
  by_cases hown : Own host q r h
  · by_cases hdone : nlmsg_type host.order r.buf h = NLMSG_DONE
    · apply Traced.ext
      · simp [unexpected_eq_true, Ends, hown, hdone]
      · simp [unexpected_eq_true, messageLog, Handled, hown, hdone, hne]
    · by_cases herror : nlmsg_type host.order r.buf h = NLMSG_ERROR
      · by_cases hshort : (nlmsg_len host.order r.buf h).toNat < 36
        · apply Traced.ext
          · simp [unexpected_eq_true, Ends, BadError, hown, herror, Ne.symm hne, hshort]
          · simp [unexpected_eq_true, messageLog, Handled, hown, herror, Ne.symm hne, hshort]
        · by_cases hack : nlmsgerr_error host.order r.buf h = 0
          · apply Traced.ext
            · simp [unexpected_eq_true, Ends, BadError, hown, herror, Ne.symm hne, hshort, hack, hnext]
            · simp [unexpected_eq_true, messageLog, Handled, hown, herror, Ne.symm hne, hshort, hack]
          · apply Traced.ext
            · simp [unexpected_eq_true, Ends, BadError, hown, herror, Ne.symm hne, hshort, hack]
            · simp [unexpected_eq_true, messageLog, Handled, hown, herror, Ne.symm hne, hshort, hack]
      · -- the return code of `nl_filter_route` is thrown away
        obtain ⟨rc, hrc⟩ := nl_filter_route_val host r.buf q.rtm_family RTM_NEWROUTE
          (attrArea_stop hfit).2 (len_lt_fuel hfuel hfit)
        apply Traced.ext
        · simp [unexpected_eq_true, Ends, BadError, hown, hdone, herror, hrc, hnext]
        · simp [unexpected_eq_true, messageLog, Handled, hown, hdone, herror, hrc]
  · -- a message of somebody else is passed over, whatever it is
    apply Traced.ext
    · simp [unexpected_eq_true, Ends, hown, hnext]
    · simp [unexpected_eq_true, messageLog, Handled, hown]

/-- Where no message fits, the loop leaves, with what is left. -/
theorem messageTurn_of_not_fits {fuel h : ℕ} (hfit : ¬ (r.area host).Fits h) :
    messageTurn host q r fuel (.upTo r.recvlen h) =
      ⟨.inr (some (Cursor.upTo r.recvlen h).len),
        if h + 16 ≤ r.recvlen then [.nlmsghdr h] else []⟩ := by
  have hok := mt NLMSG_OK_val.mp hfit
  apply Traced.ext
  · simp [messageTurn, hok]
  · simp [messageTurn, hok, NLMSG_OK_log]

/-! ## The whole loop -/

/-- **The loop takes one turn for each message it gets past, and one to stop.** -/
theorem message_trail {fuel : ℕ} (hfuel : r.recvlen < fuel) {a e : ℕ} {hs : List ℕ}
    (h : (r.area host).Longest a hs e) :
    Loop.Trail (messageTurn host q r fuel) (.upTo r.recvlen a)
      ((hs.takeWhile (fun h => ¬ Ends host q r h) ++
        [(hs.find? fun h => Ends host q r h).getD e]).map (Cursor.upTo r.recvlen))
      (some (Cursor.upTo r.recvlen ((hs.find? fun h => Ends host q r h).getD e)).len) := by
  obtain ⟨hchain, hend⟩ := h
  induction hchain with
  | nil a => exact .leave (by rw [messageTurn_of_not_fits hend]; rfl)
  | @cons a hs e hfit _ ih =>
    by_cases hends : Ends host q r a
    · rw [List.takeWhile_cons_of_neg (by simpa using hends),
        List.find?_cons_of_pos (by simpa using hends)]
      exact .leave (by rw [messageTurn_eq hfuel hfit, if_pos hends]; rfl)
    · rw [List.takeWhile_cons_of_pos (by simpa using hends),
        List.find?_cons_of_neg (by simpa using hends)]
      exact .round (by rw [messageTurn_eq hfuel hfit, if_neg hends]) (ih hend)

/-- **The message loop ends** with enough fuel for one turn a byte, at the length
left behind `stopsAt`, after a turn at each message it gets past. -/
theorem messageLoop_eq {fuel : ℕ} (hfuel : r.recvlen < fuel) :
    messageLoop host q r fuel = ⟨some (r.recvlen - stopsAt host q r),
      (passed host q r ++ [stopsAt host q r]).flatMap fun h =>
        (messageTurn host q r fuel (.upTo r.recvlen h)).log⟩ := by
  have hlongest := (r.area host).longest_records 0
  have htrail := message_trail (q := q) hfuel hlongest
  have hcount : (passed host q r).length ≤ r.recvlen := by
    have hle := hlongest.1.length_le
    exact le_trans (List.takeWhile_prefix _).length_le hle
  have hrun := htrail.run (n := fuel) (by
    rw [List.length_map, List.length_append, List.length_singleton]
    exact lt_of_le_of_lt hcount hfuel)
  have hstart : (⟨0, r.recvlen⟩ : Cursor) = .upTo r.recvlen 0 := by
    simp [Cursor.upTo]
  rw [messageLoop, hstart, hrun]
  apply Traced.ext
  · rfl
  · simp [passed, stopsAt, Reply.messages, List.flatMap_map]

/-! ## What the loop logs -/

theorem routed_fits {n : ℕ} (hn : n ∈ routed host q r) : (r.area host).Fits n :=
  ((r.area host).longest_records 0).1.fits n
    ((List.takeWhile_prefix _).subset (List.mem_of_mem_filter hn))

/-- If a message fits where the loop stops, it has ended the loop. -/
theorem ends_stopsAt (hfit : (r.area host).Fits (stopsAt host q r)) :
    Ends host q r (stopsAt host q r) := by
  rw [stopsAt] at hfit ⊢
  cases hfind : (r.messages host).find? fun h => Ends host q r h with
  | none =>
    rw [hfind] at hfit
    exact absurd hfit ((r.area host).longest_records 0).2
  | some h => simpa using List.find?_some hfind

/-- A message that ends the loop is `NLMSG_DONE` or an error, so none for
`nl_filter_route`. -/
theorem Ends.not_handled {h : ℕ} (hends : Ends host q r h) : ¬ Handled host q r h := by
  obtain ⟨-, hdone | ⟨herror, -⟩⟩ := hends
  · exact fun hhandled => hhandled.2.1 hdone
  · exact fun hhandled => hhandled.2.2 herror

/-- The messages at which a turn is taken and which go to `nl_filter_route`. -/
theorem mem_routed_iff {n : ℕ} : n ∈ routed host q r ↔
    n ∈ passed host q r ++ [stopsAt host q r] ∧ (r.area host).Fits n ∧ Handled host q r n := by
  refine ⟨?_, ?_⟩
  · intro hn
    obtain ⟨hpassed, hhandled⟩ := List.mem_filter.mp hn
    exact ⟨List.mem_append_left _ hpassed, routed_fits hn, of_decide_eq_true hhandled⟩
  · rintro ⟨hmem, hfit, hhandled⟩
    rcases List.mem_append.mp hmem with hpassed | hstop
    · exact List.mem_filter.mpr ⟨hpassed, decide_eq_true hhandled⟩
    · obtain rfl := List.mem_singleton.mp hstop
      exact absurd hhandled (ends_stopsAt hfit).not_handled

theorem mem_messageLog {fuel h : ℕ} {e : RouteEvent} : e ∈ messageLog host q r fuel h ↔
    (Handled host q r h ∧ (e = .nl_filter_route h ∨
      e ∈ (nl_filter_route host r.buf fuel q.rtm_family h RTM_NEWROUTE).log)) ∨
    (Own host q r h ∧ nlmsg_type host.order r.buf h = NLMSG_ERROR ∧
      36 ≤ (nlmsg_len host.order r.buf h).toNat ∧ e = .nlmsgerr h) := by
  rw [messageLog]
  by_cases hhandled : Handled host q r h
  · have herror := hhandled.2.2
    simp [hhandled, herror]
  · rw [if_neg hhandled]
    split
    next h => simp [hhandled, h]
    next h =>
      simp only [List.not_mem_nil, hhandled, false_and, false_or, false_iff]
      exact fun ⟨hown, herror, hlen, _⟩ => h ⟨hown, herror, hlen⟩

/-- **What the loop logs**: the headers it looks at, the errors it reads, and what
`nl_filter_route` does with each of the `routed` messages. -/
theorem mem_messageLoop {fuel : ℕ} (hfuel : r.recvlen < fuel) {e : RouteEvent} :
    e ∈ (messageLoop host q r fuel).log ↔
      (∃ h ∈ passed host q r ++ [stopsAt host q r], h + 16 ≤ r.recvlen ∧ e = .nlmsghdr h) ∨
      (∃ h ∈ passed host q r ++ [stopsAt host q r], (r.area host).Fits h ∧ Own host q r h ∧
        nlmsg_type host.order r.buf h = NLMSG_ERROR ∧
        36 ≤ (nlmsg_len host.order r.buf h).toNat ∧ e = .nlmsgerr h) ∨
      ∃ n ∈ routed host q r, e = .nl_filter_route n ∨
        e ∈ (nl_filter_route host r.buf fuel q.rtm_family n RTM_NEWROUTE).log := by
  rw [messageLoop_eq hfuel, List.mem_flatMap]
  refine ⟨?_, ?_⟩
  · rintro ⟨h, hmem, he⟩
    by_cases hfit : (r.area host).Fits h
    · rw [messageTurn_eq hfuel hfit] at he
      rcases List.mem_cons.mp he with rfl | he
      · exact .inl ⟨h, hmem, hfit.1, rfl⟩
      · rcases mem_messageLog.mp he with ⟨hhandled, he⟩ | ⟨hown, herror, hlen, he⟩
        · exact .inr (.inr ⟨h, mem_routed_iff.mpr ⟨hmem, hfit, hhandled⟩, he⟩)
        · exact .inr (.inl ⟨h, hmem, hfit, hown, herror, hlen, he⟩)
    · rw [messageTurn_of_not_fits hfit] at he
      dsimp only at he
      split at he
      next hroom => exact .inl ⟨h, hmem, hroom, List.mem_singleton.mp he⟩
      next => cases he
  · rintro (⟨h, hmem, hroom, rfl⟩ | ⟨h, hmem, hfit, herr⟩ | ⟨n, hn, he⟩)
    · refine ⟨h, hmem, ?_⟩
      by_cases hfit : (r.area host).Fits h
      · rw [messageTurn_eq hfuel hfit]
        exact List.mem_cons_self ..
      · rw [messageTurn_of_not_fits hfit, if_pos hroom]
        exact List.mem_singleton_self _
    · refine ⟨h, hmem, ?_⟩
      rw [messageTurn_eq hfuel hfit]
      exact List.mem_cons_of_mem _ (mem_messageLog.mpr (.inr herr))
    · obtain ⟨hmem, hfit, hhandled⟩ := mem_routed_iff.mp hn
      refine ⟨n, hmem, ?_⟩
      rw [messageTurn_eq hfuel hfit]
      exact List.mem_cons_of_mem _ (mem_messageLog.mpr (.inl ⟨hhandled, he⟩))

/-- What is neither a look at a message nor a call happens in one of the calls. -/
theorem called_mem_messageLoop {fuel : ℕ} (hfuel : r.recvlen < fuel) {e : RouteEvent}
    (hheader : ∀ h, e ≠ .nlmsghdr h) (herror : ∀ h, e ≠ .nlmsgerr h)
    (hcall : ∀ n, e ≠ .nl_filter_route n) :
    e ∈ (messageLoop host q r fuel).log ↔ ∃ n ∈ routed host q r,
      e ∈ (nl_filter_route host r.buf fuel q.rtm_family n RTM_NEWROUTE).log := by
  rw [mem_messageLoop hfuel]
  refine ⟨?_, fun ⟨n, hn, he⟩ => .inr (.inr ⟨n, hn, .inr he⟩)⟩
  rintro (⟨h, -, -, heq⟩ | ⟨h, -, -, -, -, -, heq⟩ | ⟨n, hn, heq | he⟩)
  · exact absurd heq (hheader h)
  · exact absurd heq (herror h)
  · exact absurd heq (hcall n)
  · exact ⟨n, hn, he⟩

/-- Behind the loop nothing is looked at any more, and the program fails exactly when
bytes are left. -/
theorem handleReply_eq {fuel : ℕ} (hfuel : r.recvlen < fuel) : handleReply host q r fuel =
    ⟨some (if stopsAt host q r < r.recvlen then -1 else 0),
      (messageLoop host q r fuel).log⟩ := by
  have hval : (messageLoop host q r fuel).val =
      some ((r.recvlen : ℤ) - stopsAt host q r) := by
    rw [messageLoop_eq hfuel]
  -- the remnant is what lies behind the place where the loop stops
  by_cases hstop : stopsAt host q r < r.recvlen
  · apply Traced.ext
    · simp [handleReply, hval, hstop]
    · simp [handleReply, hval, hstop]
  · apply Traced.ext
    · simp [handleReply, hval, hstop]
    · simp [handleReply, hval, hstop]

end StudyTips
