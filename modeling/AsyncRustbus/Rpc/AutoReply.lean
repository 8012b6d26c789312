import AsyncRustbus.Rpc.Dispatch

set_option relaxedAutoImplicit false
set_option autoImplicit false

/-!
# The replies the connection sends by itself

A call that no queue takes is answered by `CallHierarchy::send` with a reply that `get_msg` sends
on behalf of whatever task happens to read.  The reply is built in `routing.rs` and its names are
checked only when it is marshalled, so an invalid one fails the future of that task.
`make_intro_msg` answers a call of another interface than the one it describes with the error
name `UnknownInterface`, which is not an error name.

## Main definitions

* `AsyncRustbus.expectsReply` — `expects_reply`.
* `AsyncRustbus.Sendable` — a reply that can be sent and reaches its caller.
* `AsyncRustbus.Rustbus.ChecksErrorNames` — `validate_errorname` accepts the error names of the
  D-Bus specification.

## Main results

* `CallHierarchy.autoReply_sendable_iff` — every reply to a call can be sent unless the call is
  one for another interface that an `Intro` handler answers.
-/

namespace AsyncRustbus

/-- `NO_REPLY_EXPECTED`. -/
def noReplyExpected : UInt8 := 1

/-- `expects_reply`. -/
def expectsReply (msg : MarshalledMessage) : Bool :=
  msg.typ = .call && (msg.flags &&& noReplyExpected) = 0

/-- `validate_errorname` accepts exactly the error names: two or more elements separated by
dots. -/
def Rustbus.ChecksErrorNames (R : Rustbus) : Prop :=
  ∀ name, R.validateErrorname name = Reference.validateInterface name

/-- The reply can be sent with any serial, expects no reply itself, and is addressed to the
sender of the message with its serial. -/
structure Sendable (R : Rustbus) (msg reply : MarshalledMessage) : Prop where
  marshals : ∀ serial : NonZeroU32, ∃ buf, reply.marshalHeader R serial = .ok buf
  expects : expectsReply reply = false
  serial : reply.dynheader.responseSerial = msg.dynheader.serial
  destination : reply.dynheader.destination = msg.dynheader.sender

/-- The header of a response is marshalled iff its error name is one: the destination is the
sender that the receiver has checked. -/
private lemma validNames_responseHeader {R : Rustbus} {d : DynamicHeader}
    (h : d.validate R = true) (errorName : Option Str) :
    (d.responseHeader errorName).validNames R = checkField R.validateErrorname errorName := by
  simp only [DynamicHeader.validate, Bool.and_eq_true] at h
  simp [DynamicHeader.validNames, DynamicHeader.validate, DynamicHeader.responseHeader,
    DynamicHeader.default, checkField.eq_2, h.1.2]

/-- **A response can be sent** iff its error name is one. -/
lemma sendable_iff {R : Rustbus} {msg reply : MarshalledMessage}
    (hmsg : msg.dynheader.validate R = true) {errorName : Option Str}
    (hheader : reply.dynheader = msg.dynheader.responseHeader errorName)
    (htyp : reply.typ = .reply ∨ reply.typ = .error) :
    Sendable R msg reply ↔ checkField R.validateErrorname errorName = true := by
  have hnames : reply.dynheader.validNames R = checkField R.validateErrorname errorName := by
    rw [hheader, validNames_responseHeader hmsg]
  constructor
  · intro h
    obtain ⟨buf, hbuf⟩ := h.marshals ⟨1, by decide⟩
    rcases reply.marshalHeader_eq R ⟨1, by decide⟩ with ⟨-, hvalid, -⟩ | ⟨⟨e, he⟩, -⟩
    · rw [← hnames, hvalid]
    · rw [hbuf] at he
      cases he
  · intro hname
    refine ⟨?_, ?_, by rw [hheader]; rfl, by rw [hheader]; rfl⟩
    · intro serial
      rcases reply.marshalHeader_eq R serial with ⟨hok, -, -⟩ | ⟨-, hinvalid⟩
      · exact hok
      · rw [hnames, hname] at hinvalid
        cases hinvalid
    · rcases htyp with htyp | htyp <;> simp [expectsReply, htyp]

/-- The answer of an `Intro` handler can be sent iff the call is one for introspection. -/
private lemma makeIntroMsg_sendable_iff {R : Rustbus} (hR : R.ChecksErrorNames)
    {msg : MarshalledMessage} (hmsg : msg.dynheader.validate R = true) {interface : Str}
    (hiface : msg.dynheader.interface = some interface) {Q : Type}
    (keys : List (Str × CallHierarchy Q)) :
    (∀ reply, makeIntroMsg msg keys = .ok reply → Sendable R msg reply) ↔
      interface = "org.freedesktop.DBus.Introspectable".toList := by
  simp only [makeIntroMsg, hiface]
  split_ifs with hintro
  · refine iff_of_true ?_ hintro
    intro reply hreply
    rw [Res.ok.injEq] at hreply
    subst hreply
    exact (sendable_iff hmsg rfl (.inl rfl)).mpr rfl
  · refine iff_of_false ?_ hintro
    intro h
    have hname := (sendable_iff hmsg rfl (.inr rfl)).mp (h _ rfl)
    rw [checkField, hR] at hname
    exact absurd hname (by decide)

namespace CallHierarchy

variable {Q : Type}

/-- **When every reply of the hierarchy can be sent**: unless the call is one that an `Intro`
handler answers and its interface is not the one of introspection.  The message is any that
`get_next_message` returns, with an object path and an interface.

**Proof sketch.** By the answer of `send_inner`: the three kinds of reply are responses to the
message, with the error name `org.freedesktop.DBus.Error.UnknownObject`, with none, or with
`UnknownInterface`, of which only the last is not an error name. -/
theorem autoReply_sendable_iff {R : Rustbus} (hR : R.ChecksErrorNames) (n : ℕ) (withFd : Bool)
    (remCap : ℕ) (sock : Socket) (msg : MarshalledMessage)
    (hmsg : RecvState.callResult R n (RecvState.new withFd remCap) sock = .ok msg)
    (closed : Q → Bool) (h : CallHierarchy Q) (path : ObjectPath)
    (hobj : msg.dynheader.object = some path.inner) (interface : Str)
    (hiface : msg.dynheader.interface = some interface) :
    (∀ reply, h.send closed msg = .err reply → Sendable R msg reply) ↔
      (h.Introspects path.components →
        interface = "org.freedesktop.DBus.Introspectable".toList) := by
  have hvalid := (RecvState.accepted_of_callResult n withFd remCap sock msg hmsg).validate
  have hpath : ObjectPath.fromStr path.inner = .ok path :=
    (ObjectPath.fromStr_eq_ok_iff _ _).mpr rfl
  have hnotFound : Sendable R msg (makeObjectNotFound msg) := by
    refine (sendable_iff hvalid rfl (.inr rfl)).mpr ?_
    rw [checkField, hR]
    decide
  rw [← exists_sendInner_intro_iff]
  unfold send
  simp only [hobj, hpath]
  cases hst : sendInner path.components h with
  | queue q =>
    refine iff_of_true ?_ (by simp)
    intro reply hreply
    dsimp only at hreply
    split_ifs at hreply
  | dropped => exact iff_of_true (by simpa using hnotFound) (by simp)
  | unhandled keys => exact iff_of_true (by simpa using hnotFound) (by simp)
  | intro keys =>
    have hanswer := makeIntroMsg_sendable_iff hR hvalid hiface keys
    cases hmake : makeIntroMsg msg keys with
    | ok reply => simpa [hmake] using hanswer
    | err e => cases e
    | panic => simpa [hmake] using hanswer

/-! ### A call for another interface -/

/-- A call of the member `A` of the interface `a.b` of the root object on the wire. -/
def interfaceCallBytes : Bytes :=
  [108, 1, 0, 1, 0, 0, 0, 0, 1, 0, 0, 0, 42, 0, 0, 0,
    1, 1, 111, 0, 1, 0, 0, 0, 47, 0, 0, 0, 0, 0, 0, 0,
    2, 1, 115, 0, 3, 0, 0, 0, 97, 46, 98, 0, 0, 0, 0, 0,
    3, 1, 115, 0, 1, 0, 0, 0, 65, 0, 0, 0, 0, 0, 0, 0]

/-- The call as the receiver returns it. -/
def interfaceCall : MarshalledMessage where
  body := .new
  dynheader := { DynamicHeader.default with
    serial := NonZeroU32.new 1, object := some ['/'], interface := some ['a', '.', 'b'],
    member := some ['A'] }
  typ := .call
  flags := 0

/-- The receiver returns the call. -/
private lemma interfaceCall_received :
    RecvState.callResult Rustbus.reference 0 (RecvState.new false 4096)
      (deliverySocket interfaceCallBytes) = .ok interfaceCall := by
  decide

/-- A call of `Introspect` for the root object on the wire. -/
def introspectBytes : Bytes :=
  [108, 1, 0, 1, 0, 0, 0, 0, 1, 0, 0, 0, 83, 0, 0, 0,
    1, 1, 111, 0, 1, 0, 0, 0, 47, 0, 0, 0, 0, 0, 0, 0, 2, 1, 115, 0, 35, 0, 0, 0] ++
  toUtf8 "org.freedesktop.DBus.Introspectable".toList ++
  [0, 0, 0, 0, 0, 3, 1, 115, 0, 10, 0, 0, 0] ++ toUtf8 "Introspect".toList ++
  [0, 0, 0, 0, 0, 0]

/-- The call as the receiver returns it. -/
def introspectRoot : MarshalledMessage where
  body := .new
  dynheader := { DynamicHeader.default with
    serial := NonZeroU32.new 1, object := some ['/'],
    interface := some "org.freedesktop.DBus.Introspectable".toList,
    member := some "Introspect".toList }
  typ := .call
  flags := 0

/-- An `Intro` handler at the root, above a queue at `/a`, answers the call with a description
that can be sent. -/
theorem autoReply_sendable_introspect :
    let root : ObjectPath := ⟨['/'], by decide⟩
    let a : ObjectPath := ⟨['/', 'a'], by decide⟩
    let h : CallHierarchy ℕ := (CallHierarchy.new.insertPath root .intro 0).insertPath a .queue 1
    RecvState.callResult Rustbus.reference 0 (RecvState.new false 4096)
      (deliverySocket introspectBytes) = .ok introspectRoot ∧ h.Introspects root.components ∧
    ∃ reply, h.send (fun _ => false) introspectRoot = .err reply ∧ reply.typ = .reply ∧
      Sendable .reference introspectRoot reply := by
  intro root a h
  have hmsg : RecvState.callResult Rustbus.reference 0 (RecvState.new false 4096)
      (deliverySocket introspectBytes) = .ok introspectRoot := by
    decide +kernel
  have hintro : h.Introspects root.components := by
    rw [← exists_sendInner_intro_iff]
    exact ⟨_, rfl⟩
  have hsendable := (autoReply_sendable_iff (fun _ => rfl) 0 false 4096 _ _ hmsg (fun _ => false) h
    root rfl _ rfl).mpr fun _ => rfl
  exact ⟨hmsg, hintro, _, rfl, rfl, hsendable _ rfl⟩

/-- An `Intro` handler at the root answers the call with a reply that cannot be sent. -/
theorem autoReply_unknownInterface :
    RecvState.callResult Rustbus.reference 0 (RecvState.new false 4096)
      (deliverySocket interfaceCallBytes) = .ok interfaceCall ∧
    ∃ reply, (CallHierarchy.node [] .intro : CallHierarchy ℕ).send (fun _ => false) interfaceCall =
      .err reply ∧ ¬ Sendable .reference interfaceCall reply := by
  refine ⟨interfaceCall_received, interfaceCall.dynheader.makeErrorResponse
    "UnknownInterface".toList none, rfl, ?_⟩
  intro hsendable
  have hvalid := (RecvState.accepted_of_callResult 0 false 4096 _ _ interfaceCall_received).validate
  have hname := (sendable_iff hvalid rfl (.inr rfl)).mp hsendable
  exact absurd hname (by decide)

end CallHierarchy

end AsyncRustbus
