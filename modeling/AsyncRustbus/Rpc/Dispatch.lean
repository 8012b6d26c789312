import AsyncRustbus.Conn.Accepted
import AsyncRustbus.Message.Reference
import AsyncRustbus.Routing.Send
import AsyncRustbus.Signals.Registry

set_option relaxedAutoImplicit false
set_option autoImplicit false

/-!
# Dispatching incoming messages (`lib.rs`)

Whichever task waits for a message reads the socket and handles what is not for it: signals go
to the queue of the first matching rule, replies through the channel of the request they
answer, calls into the hierarchy.  The loop of `RpcConn::queue_msg` handles one message after
the other; its body is a function of the shared data, of the predicate of the waiting task and
of the message.

## Main definitions

* `AsyncRustbus.RecvData` — the data behind the receive lock.
* `AsyncRustbus.Reader`, `Reader.pred` — the tasks that wait (`send_msg_w_rsp`, `get_signal` and
  `get_call`) and the predicates they build.
* `AsyncRustbus.queueMsgBody` — the body of the loop of `queue_msg`.
* `AsyncRustbus.Dispatchable` — the messages that can be handled.

## Main results

* `AsyncRustbus.queueMsgBody_ne_panic_iff` — handling a received message does not panic iff the
  message is dispatchable.
* `AsyncRustbus.queueMsgBody_reply_panics` — sixteen bytes that make the dispatcher panic.
-/

namespace AsyncRustbus

/-- `RecvData` without the parser state.  A `OneSender` is the identity of a channel. -/
structure RecvData (Q O : Type) where
  replyMap : List (NonZeroU32 × O)
  hierarchy : CallHierarchy Q
  sigMatches : SigMatches Q

/-- A task that waits in `get_msg`. -/
inductive Reader (Q : Type)
  /-- A response future of `send_msg_w_rsp`. -/
  | response (idx : NonZeroU32)
  /-- A task in `get_signal`. -/
  | signal (sigMatch : MatchRule Q)
  /-- A task in `get_call`. -/
  | call (path : ObjectPath)

/-- What the body of the loop does with a message. -/
inductive Handled (Q O : Type)
  /-- The predicate accepts it and the waiting task gets it. -/
  | taken
  /-- The hierarchy answers it and the waiting task sends the reply. -/
  | respond (reply : MarshalledMessage)
  /-- It is appended to a queue. -/
  | queued (q : Q)
  /-- It is sent through the channel of a request. -/
  | forwarded (o : O)
  /-- Nobody wants it. -/
  | dropped

variable {Q O : Type}

/-- `res_pred`, the predicate of a response future. -/
def resPred (idx : NonZeroU32) (msg : MarshalledMessage) : Res Empty Bool :=
  match msg.typ with
  | .reply | .error =>
    match msg.dynheader.responseSerial with
    | some resIdx => .ok (decide (resIdx = idx))
    | none => .panic
  | _ => .ok false

/-- `call_pred`, the predicate of `get_call`. -/
def callPred (path : ObjectPath) (msg : MarshalledMessage) (hierarchy : CallHierarchy Q) :
    Res Empty Bool :=
  match msg.typ with
  | .call =>
    match msg.dynheader.object with
    | none => .panic
    | some object =>
      match ObjectPath.fromStr object with
      | .error _ => .panic
      | .ok msgPath => .ok (hierarchy.isMatch path msgPath)
  | _ => .ok false

/-- The predicate of a waiting task. -/
def Reader.pred (reader : Reader Q) (msg : MarshalledMessage) (recvData : RecvData Q O) :
    Res Empty Bool :=
  match reader with
  | .response idx => resPred idx msg
  | .signal sigMatch => .ok (sigMatch.sigPred msg)
  | .call path => callPred path msg recvData.hierarchy

/-- The body of the loop of `RpcConn::queue_msg`, behind `get_next_message`.  Sending through
the channel of a request may fail, which is ignored. -/
def queueMsgBody (closed : Q → Bool) (reader : Reader Q) (recvData : RecvData Q O)
    (msg : MarshalledMessage) : Res Empty (Handled Q O) × RecvData Q O :=
  match reader.pred msg recvData with
  | .panic => (.panic, recvData)
  | .err e => nomatch e
  | .ok true => (.ok .taken, recvData)
  | .ok false =>
    match msg.typ with
    | .signal =>
      match recvData.sigMatches.queueSig msg with
      | .ok (some q) => (.ok (.queued q), recvData)
      | .ok none => (.ok .dropped, recvData)
      | .err e => nomatch e
      | .panic => (.panic, recvData)
    | .reply | .error =>
      match msg.dynheader.responseSerial with
      | none => (.panic, recvData)
      | some idx =>
        match AssocMap.get recvData.replyMap idx with
        | some sender => (.ok (.forwarded sender),
            { recvData with replyMap := AssocMap.remove recvData.replyMap idx })
        | none => (.ok .dropped, recvData)
    | .call =>
      match recvData.hierarchy.send closed msg with
      | .ok q => (.ok (.queued q), recvData)
      | .err reply => (.ok (.respond reply), recvData)
      | .panic => (.panic, recvData)
    | .invalid => (.panic, recvData)

/-! ## Panics -/

/-- The waiting task takes calls for the path. -/
def Reader.Awaits (reader : Reader Q) (recvData : RecvData Q O) (msgPath : ObjectPath) : Prop :=
  ∃ path, reader = .call path ∧ recvData.hierarchy.isMatch path msgPath = true

/-- The messages that can be handled: a reply or an error says which call it answers; a call
has an object path, names an interface where an `Intro` handler answers it, and has an open
queue where it is queued, unless the waiting task takes it. -/
structure Dispatchable (closed : Q → Bool) (reader : Reader Q) (recvData : RecvData Q O)
    (msg : MarshalledMessage) : Prop where
  reply : msg.typ = .reply ∨ msg.typ = .error → msg.dynheader.responseSerial.isSome = true
  call : msg.typ = .call → ∃ path : ObjectPath, msg.dynheader.object = some path.inner ∧
    (recvData.hierarchy.Introspects path.components → msg.dynheader.interface.isSome = true) ∧
    ∀ q, recvData.hierarchy.QueuesTo path.components q → closed q = true →
      reader.Awaits recvData path

section Panics

variable {closed : Q → Bool} {reader : Reader Q} {recvData : RecvData Q O}
  {msg : MarshalledMessage}

/-- Scanning rules that have queues does not panic. -/
private lemma queueSig_ne_panic {l : SigMatches Q} (h : ∀ r ∈ l, r.queue.isSome = true)
    (msg : MarshalledMessage) : l.queueSig msg ≠ .panic := by
  induction l with
  | nil => simp [SigMatches.queueSig]
  | cons r l ih =>
    unfold SigMatches.queueSig
    split_ifs
    · obtain ⟨q, hq⟩ := Option.isSome_iff_exists.mp (h r List.mem_cons_self)
      simp [hq]
    · exact ih fun r' hr' => h r' (List.mem_cons_of_mem r hr')

/-- A signal is always handled. -/
private lemma ne_panic_of_signal (htyp : msg.typ = .signal)
    (hsig : ∀ r ∈ recvData.sigMatches, r.queue.isSome = true) :
    (queueMsgBody closed reader recvData msg).1 ≠ .panic := by
  have hqueue := queueSig_ne_panic hsig msg
  have hpred : ∃ b, reader.pred msg recvData = .ok b := by
    cases reader with
    | response idx => exact ⟨false, by simp [Reader.pred, resPred, htyp]⟩
    | signal sigMatch => exact ⟨_, rfl⟩
    | call path => exact ⟨false, by simp [Reader.pred, callPred, htyp]⟩
  obtain ⟨b, hb⟩ := hpred
  unfold queueMsgBody
  rw [hb]
  cases b with
  | true => simp
  | false =>
    simp only [htyp]
    cases hscan : recvData.sigMatches.queueSig msg with
    | ok o => cases o <;> simp
    | err e => exact nomatch e
    | panic => exact absurd hscan hqueue

/-- A reply is handled iff it says which call it answers, whoever reads it.

**Proof sketch.** A reply matches no rule and no path. Without a response serial every reader
unwraps the missing number, in its predicate or in the handling. With one, a reader takes the reply
it waits for, and otherwise it is looked up in the map, which never panics. -/
private lemma ne_panic_iff_of_reply (htyp : msg.typ = .reply ∨ msg.typ = .error) :
    (queueMsgBody closed reader recvData msg).1 ≠ .panic ↔
      msg.dynheader.responseSerial.isSome = true := by
  have hsig : ∀ r : MatchRule Q, r.sigPred msg = false := by
    intro r
    rcases htyp with h | h <;> simp [MatchRule.sigPred, MatchRule.matchesMsg, h]
  cases hser : msg.dynheader.responseSerial with
  | none =>
    rcases htyp with h | h <;> cases reader <;>
      simp [queueMsgBody, Reader.pred, resPred, callPred, h, hser, hsig]
  | some resIdx =>
    have hrest : ∀ reader : Reader Q, reader.pred msg recvData = .ok false →
        (queueMsgBody closed reader recvData msg).1 ≠ .panic := by
      intro reader hpred
      rcases htyp with h | h <;> cases hmap : AssocMap.get recvData.replyMap resIdx <;>
        simp [queueMsgBody, hpred, h, hser, hmap]
    simp only [Option.isSome_some, iff_true]
    cases reader with
    | response idx =>
      by_cases hidx : resIdx = idx
      · rcases htyp with h | h <;> simp [queueMsgBody, Reader.pred, resPred, h, hser, hidx]
      · refine hrest _ ?_
        rcases htyp with h | h <;> simp [Reader.pred, resPred, h, hser, hidx]
    | signal sigMatch => exact hrest _ (by simp [Reader.pred, hsig])
    | call path =>
      refine hrest _ ?_
      rcases htyp with h | h <;> simp [Reader.pred, callPred, h]

/-- A call without an object is not handled, whoever reads it. -/
private lemma panic_of_no_object (htyp : msg.typ = .call)
    (hobj : msg.dynheader.object = none) :
    (queueMsgBody closed reader recvData msg).1 = .panic := by
  have hsig : ∀ r : MatchRule Q, r.sigPred msg = false := by
    intro r
    simp [MatchRule.sigPred, MatchRule.matchesMsg, htyp]
  cases reader <;>
    simp [queueMsgBody, Reader.pred, resPred, callPred, CallHierarchy.send, htyp, hobj, hsig]

/-- The predicate on a call with an object path: only `get_call` takes calls. -/
private lemma pred_of_call (reader : Reader Q) (recvData : RecvData Q O)
    (htyp : msg.typ = .call) {path : ObjectPath}
    (hobj : msg.dynheader.object = some path.inner) :
    ∃ b, reader.pred msg recvData = .ok b ∧ (b = true ↔ reader.Awaits recvData path) := by
  have hpath : ObjectPath.fromStr path.inner = .ok path :=
    (ObjectPath.fromStr_eq_ok_iff _ _).mpr rfl
  cases reader with
  | response idx => exact ⟨false, by simp [Reader.pred, resPred, htyp], by simp [Reader.Awaits]⟩
  | signal sigMatch =>
    refine ⟨false, ?_, by simp [Reader.Awaits]⟩
    simp [Reader.pred, MatchRule.sigPred, MatchRule.matchesMsg, htyp]
  | call tarPath =>
    refine ⟨recvData.hierarchy.isMatch tarPath path, ?_, by simp [Reader.Awaits]⟩
    simp [Reader.pred, callPred, htyp, hobj, hpath]

/-- A call with an object path is handled iff the waiting task takes it or the hierarchy can
deal with it.

**Proof sketch.** A reader that waits for the call takes it, and then the hierarchy describes
nothing there (`not_introspects_of_isMatch`). Otherwise the call is given to `send`, whose panics
are those of `send_ne_panic_iff`. -/
private lemma ne_panic_iff_of_call (htyp : msg.typ = .call)
    {path : ObjectPath} (hobj : msg.dynheader.object = some path.inner) :
    (queueMsgBody closed reader recvData msg).1 ≠ .panic ↔
      (recvData.hierarchy.Introspects path.components →
        msg.dynheader.interface.isSome = true) ∧
      ∀ q, recvData.hierarchy.QueuesTo path.components q → closed q = true →
        reader.Awaits recvData path := by
  obtain ⟨b, hpred, hb⟩ := pred_of_call reader recvData htyp hobj
  cases b with
  | true =>
    have hawaits := hb.mp rfl
    have htaken : (queueMsgBody closed reader recvData msg).1 = .ok .taken := by
      simp [queueMsgBody, hpred]
    obtain ⟨tarPath, -, hmatch⟩ := hawaits
    simp only [htaken, ne_eq, reduceCtorEq, not_false_eq_true, true_iff]
    refine ⟨?_, fun _ _ _ => hb.mp rfl⟩
    intro hintro
    exact absurd hintro (CallHierarchy.not_introspects_of_isMatch hmatch)
  | false =>
    have hnot : ¬ reader.Awaits recvData path := fun h => by simpa using hb.mpr h
    have hsend : (queueMsgBody closed reader recvData msg).1 ≠ .panic ↔
        recvData.hierarchy.send closed msg ≠ .panic := by
      cases hs : recvData.hierarchy.send closed msg <;> simp [queueMsgBody, hpred, htyp, hs]
    rw [hsend, CallHierarchy.send_ne_panic_iff closed hobj]
    refine and_congr_right fun _ => forall_congr' fun q => imp_congr_right fun _ => ?_
    simp [hnot]

/-- **The dispatcher panics exactly at the accepted messages that are not dispatchable.**

**Proof sketch.** By the type of the message.  The receiver has checked the fields that are
present but not which ones are, so each type comes down to the fields that its branch unwraps;
an `Invalid` type does not occur. -/
lemma ne_panic_iff_of_accepted {R : Rustbus} (hR : R.KnownTypes) {msg : MarshalledMessage}
    (hacc : Accepted R msg) (closed : Q → Bool) (reader : Reader Q) (recvData : RecvData Q O)
    (hsig : SigMatches.Queued recvData.sigMatches) :
    (queueMsgBody closed reader recvData msg).1 ≠ .panic ↔
      Dispatchable closed reader recvData msg := by
  cases htyp : msg.typ with
  | signal =>
    refine iff_of_true (ne_panic_of_signal htyp hsig.isSome) ⟨?_, ?_⟩ <;> simp [htyp]
  | reply =>
    rw [ne_panic_iff_of_reply (.inl htyp)]
    exact ⟨fun h => ⟨fun _ => h, by simp [htyp]⟩, fun h => h.reply (.inl htyp)⟩
  | error =>
    rw [ne_panic_iff_of_reply (.inr htyp)]
    exact ⟨fun h => ⟨fun _ => h, by simp [htyp]⟩, fun h => h.reply (.inr htyp)⟩
  | call =>
    cases hobj : msg.dynheader.object with
    | none =>
      refine iff_of_false (fun h => h (panic_of_no_object htyp hobj)) ?_
      intro h
      obtain ⟨path, hpath, -⟩ := h.call htyp
      rw [hobj] at hpath
      cases hpath
    | some object =>
      obtain ⟨path, rfl⟩ := hacc.object_valid hobj
      rw [ne_panic_iff_of_call htyp hobj]
      constructor
      · intro h
        exact ⟨by simp [htyp], fun _ => ⟨path, hobj, h⟩⟩
      · intro h
        obtain ⟨path', hpath', h'⟩ := h.call htyp
        rw [hobj, Option.some.injEq] at hpath'
        obtain rfl : path = path' := ObjectPath.ext' hpath'
        exact h'
  | invalid => exact absurd htyp (hacc.typ_ne_invalid hR)

/-- **The dispatcher panics exactly at the messages that are not dispatchable.**  The message is
any that `get_next_message` returns, the hierarchy is any, and the rules have their queues. -/
theorem queueMsgBody_ne_panic_iff {R : Rustbus} (hR : R.KnownTypes) (n : ℕ) (withFd : Bool)
    (remCap : ℕ) (sock : Socket) (msg : MarshalledMessage)
    (hmsg : RecvState.callResult R n (RecvState.new withFd remCap) sock = .ok msg)
    (closed : Q → Bool) (reader : Reader Q) (recvData : RecvData Q O)
    (hsig : SigMatches.Queued recvData.sigMatches) :
    (queueMsgBody closed reader recvData msg).1 ≠ .panic ↔
      Dispatchable closed reader recvData msg :=
  ne_panic_iff_of_accepted hR (RecvState.accepted_of_callResult n withFd remCap sock msg hmsg)
    closed reader recvData hsig

end Panics

/-! ### Two replies -/

/-- The reference decoder knows four message types. -/
lemma reference_knownTypes : Rustbus.reference.KnownTypes := by
  intro buf hdr h
  change Reference.unmarshalHeader buf = some hdr at h
  unfold Reference.unmarshalHeader at h
  split at h
  · obtain ⟨bo, -, h⟩ := Option.bind_eq_some_iff.mp h
    obtain ⟨typ, htyp, rfl⟩ := Option.map_eq_some_iff.mp h
    unfold Reference.typeOfByte at htyp
    show typ ≠ .invalid
    rintro rfl
    split_ifs at htyp <;> cases htyp
  · cases h

/-- A reply with the given header fields on the wire. -/
def replyBytes (fields : Bytes) : Bytes :=
  [108, 2, 0, 1, 0, 0, 0, 0, 1, 0, 0, 0, UInt8.ofNat fields.length, 0, 0, 0] ++ fields

/-- A socket that delivers the bytes. -/
def deliverySocket (input : Bytes) : Socket := ⟨input, [.data input.length []], false⟩

/-- A reply as the receiver returns it. -/
def receivedReply (responseSerial : Option NonZeroU32) : MarshalledMessage where
  body := .new
  dynheader := { DynamicHeader.default with
    serial := NonZeroU32.new 1, responseSerial := responseSerial }
  typ := .reply
  flags := 0

/-- The shared data of a new connection. -/
def RecvData.new : RecvData ℕ ℕ := ⟨[], .new, []⟩

/-- A reply with a response serial is handled. -/
theorem queueMsgBody_reply_handled :
    RecvState.callResult Rustbus.reference 0 (RecvState.new false 4096)
      (deliverySocket (replyBytes [5, 1, 117, 0, 7, 0, 0, 0])) =
        .ok (receivedReply (NonZeroU32.new 7)) ∧
    (queueMsgBody (fun _ => false) (.signal .empty) RecvData.new
      (receivedReply (NonZeroU32.new 7))).1 ≠ .panic := by
  have hmsg : RecvState.callResult Rustbus.reference 0 (RecvState.new false 4096)
      (deliverySocket (replyBytes [5, 1, 117, 0, 7, 0, 0, 0])) =
        .ok (receivedReply (NonZeroU32.new 7)) := by decide
  refine ⟨hmsg, ?_⟩
  refine (queueMsgBody_ne_panic_iff reference_knownTypes 0 false 4096 _ _ hmsg
    (fun _ => false) (.signal .empty) RecvData.new ⟨by simp [RecvData.new], ?_⟩).mpr ⟨?_, ?_⟩
  · simp [RecvData.new]
  · intro _
    decide
  · intro h
    cases h

/-- **A reply without a response serial makes the dispatcher panic**, whichever task reads it:
the receiver accepts the sixteen bytes. -/
theorem queueMsgBody_reply_panics :
    RecvState.callResult Rustbus.reference 0 (RecvState.new false 4096)
      (deliverySocket (replyBytes [])) = .ok (receivedReply none) ∧
    (∀ idx : NonZeroU32, (queueMsgBody (fun _ => false) (.response idx) RecvData.new
      (receivedReply none)).1 = .panic) ∧
    (queueMsgBody (fun _ => false) (.signal .empty) RecvData.new (receivedReply none)).1 =
      .panic ∧
    (∀ path : ObjectPath, (queueMsgBody (fun _ => false) (.call path) RecvData.new
      (receivedReply none)).1 = .panic) :=
  ⟨by decide, fun _ => rfl, rfl, fun _ => rfl⟩

end AsyncRustbus
