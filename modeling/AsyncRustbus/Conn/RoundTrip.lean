import AsyncRustbus.Conn.Chunking

set_option relaxedAutoImplicit false
set_option autoImplicit false

/-!
# Message round trip

A message that `marshal_header` accepts is received as it was sent: feeding its header and body
to a new receiver, in any pieces, returns exactly one message with the same contents.

## Main definitions

* `AsyncRustbus.MarshalledMessage.ReceivedAs` — what a received message shares with the one
  that was sent.

## Main results

* `AsyncRustbus.MarshalledMessage.decodeRaw_marshalled` — one-pass decoding of an encoded
  message.
* `AsyncRustbus.MarshalledMessage.marshal_receive` — the round trip.
-/

namespace AsyncRustbus

/-! ## Valid bodies -/

/-- The types of a body that is not empty use up bytes. -/
private lemma lt_of_validateTypes {R : Rustbus} (hR : R.Conforms) {bo : ByteOrder} {buf : Bytes}
    {types : List Str} {start used : ℕ} (h : validateTypes R bo buf types start = .ok used) :
    start ≤ used ∧ (types ≠ [] → start < used) := by
  induction types generalizing start with
  | nil =>
    simp only [validateTypes, Except.ok.injEq] at h
    exact ⟨h.le, fun hne => absurd rfl hne⟩
  | cons typ types ih =>
    simp only [validateTypes] at h
    cases hval : R.validateMarshalled bo start buf typ with
    | error e => simp [hval] at h
    | ok n =>
      simp only [hval] at h
      have hpos := hR.validateMarshalled_pos bo start buf typ n hval
      have hle := (ih h).1
      exact ⟨by omega, fun _ => by omega⟩

/-- A valid body without bytes has no signature. -/
lemma MarshalledMessageBody.sig_eq_nil_of_validate {R : Rustbus} (hR : R.Conforms)
    {b : MarshalledMessageBody} (h : b.validate R = .ok ()) (hbuf : b.buf = []) : b.sig = [] := by
  by_contra hsig
  unfold validate at h
  rw [if_neg (fun hnil => hsig hnil.1)] at h
  cases hparse : R.parseDescription b.sig with
  | error e => simp [hparse] at h
  | ok types =>
    cases htypes : validateTypes R b.byteorder b.buf types 0 with
    | error e => simp [hparse, htypes] at h
    | ok used =>
      have hlt := (lt_of_validateTypes hR htypes).2 (hR.parseDescription_ne_nil _ _ hparse hsig)
      have hne : used ≠ b.buf.length := by
        rw [hbuf, List.length_nil]
        omega
      simp [hparse, htypes, hne] at h

/-- The signature of a valid body with bytes is valid and short. -/
lemma MarshalledMessageBody.sig_valid_of_validate {R : Rustbus} (hR : R.Conforms)
    {b : MarshalledMessageBody} (h : b.validate R = .ok ()) (hbuf : b.buf ≠ []) :
    R.validateSignature b.sig = true ∧ (toUtf8 b.sig).length ≤ 255 := by
  unfold validate at h
  rw [if_neg (fun hnil => hbuf hnil.2)] at h
  cases hparse : R.parseDescription b.sig with
  | error e => simp [hparse] at h
  | ok types => exact hR.parseDescription_valid _ _ hparse

namespace MarshalledMessage

/-! ## Decoding an encoded message -/

/-- What a received message shares with the one that was sent. -/
structure ReceivedAs (m : MarshalledMessage) (serial : NonZeroU32) (m' : MarshalledMessage) :
    Prop where
  typ : m'.typ = m.typ
  flags : m'.flags = m.flags
  byteorder : m'.body.byteorder = m.body.byteorder
  buf : m'.body.buf = m.body.buf
  sig : m'.body.sig = m.body.sig
  interface : m'.dynheader.interface = m.dynheader.interface
  member : m'.dynheader.member = m.dynheader.member
  object : m'.dynheader.object = m.dynheader.object
  destination : m'.dynheader.destination = m.dynheader.destination
  sender : m'.dynheader.sender = m.dynheader.sender
  errorName : m'.dynheader.errorName = m.dynheader.errorName
  responseSerial : m'.dynheader.responseSerial = m.dynheader.responseSerial
  serial : m'.dynheader.serial = some serial
  signature : m'.dynheader.signature = if m.body.buf = [] then none else some m.body.sig

/-- The fixed header that the decoder sees. -/
def receivedHeader (m : MarshalledMessage) (serial : NonZeroU32) : Header :=
  ⟨m.body.byteorder, m.typ, m.flags, 1, UInt32.ofNat m.body.buf.length, serial.val⟩

/-- The message that the parser cuts off. -/
def received (m : MarshalledMessage) (serial : NonZeroU32) : RawMessage :=
  (m.receivedHeader serial, { m.decodedHeader with serial := some serial }, m.body.buf)

/-- The length of an encoded header, as the decoder computes it. -/
lemma totalHdrLen_headerBytes (m : MarshalledMessage) (serial : NonZeroU32)
    (hlen : m.fieldBytes.length < 2 ^ 32) (t : Bytes) :
    totalHdrLen m.body.byteorder (m.headerBytes serial ++ t) = (m.headerBytes serial).length := by
  have hnat : (UInt32.ofNat m.fieldBytes.length).toNat = m.fieldBytes.length := by
    rw [UInt32.toNat_ofNat']
    exact Nat.mod_eq_of_lt hlen
  have hlength : ((m.headerBytes serial ++ t).drop headerLen).take 4 =
      u32ToBytes m.body.byteorder (UInt32.ofNat m.fieldBytes.length) := by
    simp only [headerBytes, Wire.alignTo, List.append_assoc, headerLen]
    rw [List.drop_left' (m.length_fixedHeader serial), List.take_left' (by simp)]
  rw [totalHdrLen, hlength, parseU32_u32ToBytes, hnat, headerBytes, Wire.length_alignTo,
    List.length_append, List.length_append, length_fixedHeader, length_u32ToBytes, headerLen]

/-- The length of an encoded header is a multiple of eight. -/
private lemma alignTo_headerBytes (m : MarshalledMessage) (serial : NonZeroU32) :
    Wire.alignTo 8 (m.headerBytes serial) = m.headerBytes serial := by
  have hlen : alignNum (m.headerBytes serial).length 8 = (m.headerBytes serial).length := by
    rw [headerBytes, Wire.length_alignTo, alignNum_alignNum]
  rw [Wire.alignTo, Wire.padding, hlen, Nat.sub_self, List.replicate_zero, List.append_nil]

variable {R : Rustbus} (hR : R.Conforms) (m : MarshalledMessage) (serial : NonZeroU32)

include hR in
/-- The header checks accept an encoded header.

**Proof sketch.** The fields of the encoded header are unmarshalled as they were sent
(`unmarshal_headerBytes`), the padding ends with the header, the serial is not zero, and the number
of descriptors is one that the connection allows. -/
lemma parseDynHdr_headerBytes (withFd : Bool) (hnames : m.dynheader.validNames R = true)
    (hvalid : m.body.validate R = .ok ()) (hfds : withFd = true ∨ m.body.rawFds = [])
    (hlen : m.fieldBytes.length < 2 ^ 32) :
    parseDynHdr R withFd (m.receivedHeader serial) (m.headerBytes serial) =
      .ok { m.decodedHeader with serial := some serial } := by
  have hunmarshal := m.unmarshal_headerBytes hR serial hnames hlen
    (MarshalledMessageBody.sig_valid_of_validate hR hvalid)
  have hge : 12 ≤ (m.headerBytes serial).length := by
    rw [headerBytes, Wire.length_alignTo]
    have := le_alignNum (m.fixedHeader serial ++
      u32ToBytes m.body.byteorder (UInt32.ofNat m.fieldBytes.length) ++ m.fieldBytes).length 8
    simp only [List.length_append, length_fixedHeader] at this
    simp only [List.length_append, length_fixedHeader]
    omega
  have hpad := hR.alignOffset_alignTo (m.headerBytes serial) []
  rw [alignTo_headerBytes, List.append_nil] at hpad
  have hallowed : (decide (m.decodedHeader.numFds.getD 0 > 0) && !withFd) = false := by
    rcases hfds with rfl | hfds
    · simp
    · simp [decodedHeader, hfds]
  rw [parseDynHdr, show headerLen = 12 from rfl]
  simp only [receivedHeader, hunmarshal, NonZeroU32.new_val,
    show 12 + ((m.headerBytes serial).length - 12) = (m.headerBytes serial).length by omega,
    hpad, hallowed]
  rfl

include hR in
/-- One-pass decoding of an encoded message, which has descriptors only where the connection takes
them.

**Proof sketch.** The three lengths of the decoding are those of the encoding: the first twelve
bytes are the fixed header, the total length is that of the header, and the rest is the body, whose
length does not wrap. The header checks are passed by `parseDynHdr_headerBytes`. -/
lemma decodeRaw_headerBytes (withFd : Bool) (htyp : m.typ ≠ .invalid)
    (hnames : m.dynheader.validNames R = true) (hvalid : m.body.validate R = .ok ())
    (hfds : withFd = true ∨ m.body.rawFds = []) (hbody : m.body.buf.length < 2 ^ 32)
    (hlen : m.fieldBytes.length < 2 ^ 32) :
    decodeRaw R withFd (m.headerBytes serial ++ m.body.buf) = .raw (m.received serial) [] := by
  have hfixed : (m.headerBytes serial ++ m.body.buf).take 12 = m.fixedHeader serial := by
    simp only [headerBytes, Wire.alignTo, List.append_assoc]
    rw [List.take_left' (m.length_fixedHeader serial)]
  have hheader : R.unmarshalHeader (m.fixedHeader serial) = some (m.receivedHeader serial) :=
    hR.unmarshalHeader_fixed m serial htyp hbody
  have htotal : totalHdrLen (m.receivedHeader serial).byteorder
      (m.headerBytes serial ++ m.body.buf) = (m.headerBytes serial).length :=
    m.totalHdrLen_headerBytes serial hlen m.body.buf
  have h16 := le_totalHdrLen (m.receivedHeader serial).byteorder
    (m.headerBytes serial ++ m.body.buf)
  have hbodyLen : (m.receivedHeader serial).bodyLen.toNat = m.body.buf.length := by
    simp only [receivedHeader, UInt32.toNat_ofNat']
    exact Nat.mod_eq_of_lt hbody
  have hge : (m.headerBytes serial).length ≤ (m.headerBytes serial ++ m.body.buf).length := by
    simp
  rw [htotal] at h16
  rw [decodeRaw, if_neg (by omega), hfixed, hheader]
  simp only
  rw [decodeDynHdr, if_neg (by omega), htotal, if_neg (by omega), List.take_left,
    m.parseDynHdr_headerBytes hR serial withFd hnames hvalid hfds hlen]
  simp only
  rw [List.drop_left, decodeBody, hbodyLen, if_neg (by omega), List.take_length, List.drop_length]
  rfl

include hR in
/-- **One-pass decoding of an encoded message**: the message, and nothing is left. -/
theorem decodeRaw_marshalled (withFd : Bool) (htyp : m.typ ≠ .invalid)
    (hnames : m.dynheader.validNames R = true) (hvalid : m.body.validate R = .ok ())
    (hfds : m.body.rawFds = []) (hbody : m.body.buf.length < 2 ^ 32)
    (hlen : m.fieldBytes.length < 2 ^ 32) :
    decodeRaw R withFd (m.headerBytes serial ++ m.body.buf) = .raw (m.received serial) [] :=
  m.decodeRaw_headerBytes hR serial withFd htyp hnames hvalid (.inr hfds) hbody hlen

/-- The message that comes out of the parser. -/
lemma receivedAs_received (hR : R.Conforms) (hvalid : m.body.validate R = .ok ()) :
    m.ReceivedAs serial (RecvState.mmFromRaw (m.received serial) []) := by
  refine ⟨rfl, rfl, rfl, rfl, ?_, rfl, rfl, rfl, rfl, rfl, rfl, rfl, rfl, ?_⟩
  · change (m.decodedHeader.signature).getD [] = m.body.sig
    by_cases hbuf : m.body.buf = []
    · simp [decodedHeader, hbuf, MarshalledMessageBody.sig_eq_nil_of_validate hR hvalid hbuf]
    · simp [decodedHeader, hbuf]
  · change m.decodedHeader.signature = _
    by_cases hbuf : m.body.buf = [] <;> simp [decodedHeader, hbuf]

/-- It is returned. -/
lemma outcome_received (hR : R.Conforms) (withFd : Bool) (hvalid : m.body.validate R = .ok ())
    (hfds : m.body.rawFds = []) :
    outcome R withFd (m.received serial) = .ok (RecvState.mmFromRaw (m.received serial) []) := by
  have hsame := m.receivedAs_received serial hR hvalid
  have hbody : (RecvState.mmFromRaw (m.received serial) []).body = m.body := by
    change _ = (⟨m.body.buf, m.body.sig, m.body.rawFds, m.body.byteorder⟩ : MarshalledMessageBody)
    rw [hfds, ← hsame.sig]
    rfl
  have hnone : (m.received serial).2.1.numFds = none := by simp [received, decodedHeader, hfds]
  rw [outcome, hnone, if_neg (by simp), hbody, hvalid]

end MarshalledMessage

/-! ## Receiving one message -/

namespace RecvState

/-- Everything is consumed: the receiver is at the start of a message and no byte is left
anywhere. -/
def Consumed (s : RecvState) (sock : Socket) : Prop :=
  s.inState = .header [] ∧ s.leftover = [] ∧ sock.input = []

variable {R : Rustbus}

/-- A receiver that has consumed everything stays so and reports `WouldBlock`.

**Proof sketch.** The parser needs more bytes, so the call is the loop of reads. On an empty input a
read that blocks and one that gives nothing both end it with `WouldBlock`; a schedule has neither
end-of-file nor errors. -/
lemma getNextMessage_of_consumed {s : RecvState} {sock : Socket} (h : s.Consumed sock)
    (hshut : sock.shut = false) (hscript : IsSchedule s.withFd sock.script) :
    (getNextMessage R s sock).1 = .err .wouldBlock ∧
      (getNextMessage R s sock).2.1.Consumed (getNextMessage R s sock).2.2 ∧
      (getNextMessage R s sock).2.2.shut = false ∧
      IsSchedule s.withFd (getNextMessage R s sock).2.2.script ∧
      (getNextMessage R s sock).2.1.withFd = s.withFd := by
  obtain ⟨hstate, hleft, hinput⟩ := h
  obtain ⟨st, fds, rem, loc, fd, cap⟩ := s
  obtain ⟨input, script, shut⟩ := sock
  simp only at hstate hinput hshut hscript
  simp only [leftover] at hleft
  subst hstate hinput hshut
  have hext : extendMax [] rem loc headerLen = (false, [], loc) := by
    simp [extendMax, hleft, headerLen]
  have hloop : getNextMessage R ⟨.header [], fds, rem, loc, fd, cap⟩ ⟨[], script, false⟩ =
      recvLoop R script ⟨.header [], fds, rem, loc, fd, cap⟩ [] := by
    simp [getNextMessage, tryGetMsg, tryBlock, tryHeader, hext]
  rw [hloop]
  cases script with
  | nil => exact ⟨rfl, ⟨rfl, rfl, rfl⟩, rfl, hscript, rfl⟩
  | cons ev script =>
    have htail : IsSchedule fd script := fun e he => hscript e (by simp [he])
    cases ev with
    | eof => exact absurd (hscript .eof (by simp)) (by simp [RecvEvent.delivers])
    | err => exact absurd (hscript .err (by simp)) (by simp [RecvEvent.delivers])
    | wouldBlock => exact ⟨rfl, ⟨rfl, rfl, rfl⟩, rfl, htail, rfl⟩
    | data n fds' =>
      have hzero : recvLoop R (.data n fds' :: script) ⟨.header [], fds, rem, loc, fd, cap⟩ [] =
          (.err .wouldBlock, ⟨.header [], fds, [], 0, fd, cap⟩, ⟨[], script, false⟩) := by
        simp [recvLoop]
      rw [hzero]
      exact ⟨rfl, ⟨rfl, rfl, rfl⟩, rfl, htail, rfl⟩

/-- Further calls return nothing more. -/
lemma receiveAll_of_consumed (n : ℕ) {s : RecvState} {sock : Socket} (h : s.Consumed sock)
    (hshut : sock.shut = false) (hscript : IsSchedule s.withFd sock.script) :
    (receiveAll R n s sock).1 = [] ∧
      (receiveAll R n s sock).2.1.Consumed (receiveAll R n s sock).2.2 := by
  induction n generalizing s sock with
  | zero => exact ⟨rfl, h⟩
  | succ n ih =>
    obtain ⟨hblock, hcons, hshut', hscript', hfd⟩ := getNextMessage_of_consumed (R := R) h hshut
      hscript
    rcases hres : getNextMessage R s sock with ⟨r, s', sock'⟩
    rw [hres] at hblock hcons hshut' hscript' hfd
    dsimp only at hblock hcons hshut' hscript' hfd
    subst hblock
    have heq : receiveAll R (n + 1) s sock = receiveAll R n s' sock' := by
      simp only [receiveAll, hres]
    rw [heq]
    exact ih hcons hshut' (by rw [hfd]; exact hscript')

/-- **Receiving exactly one message.**  Where the bytes in front of the receiver are one message,
a sequence of calls returns nothing yet, or this message and everything is consumed.

**Proof sketch.** Induction on the number of calls: a call that would block leaves the message
in front of the receiver, the first one that does not returns it. -/
lemma receiveAll_single (hR : R.ReadsFixedPart) (n : ℕ) {s : RecvState} (h : s.Idle R)
    (sock : Socket) (hshut : sock.shut = false) (hscript : IsSchedule s.withFd sock.script)
    {raw : RawMessage} {msg : MarshalledMessage}
    (hd : s.inState.decode R s.withFd (s.leftover ++ sock.input) = .raw raw [])
    (hmsg : outcome R s.withFd raw = .ok msg) :
    (receiveAll R n s sock).1 = [] ∨ (receiveAll R n s sock).1 = [.ok msg] ∧
      (receiveAll R n s sock).2.1.Consumed (receiveAll R n s sock).2.2 := by
  induction n generalizing s sock with
  | zero => exact Or.inl rfl
  | succ n ih =>
    have hcall := getNextMessage_spec hR h hshut hscript
    rw [hd] at hcall
    generalize hres : getNextMessage R s sock = res at hcall
    cases hcall with
    | blocked s' sock' hready hfd hsock hd' hidle hless =>
      have heq : receiveAll R (n + 1) s sock = receiveAll R n s' sock' := by
        simp only [receiveAll, hres]
      rw [heq]
      refine ih ⟨hready, fun _ => ?_⟩ sock' hsock.shut ?_ ?_ ?_
      · rw [hfd]
        exact hidle.2
      · rw [hfd]
        exact hsock.schedule
      · rw [hfd]
        exact hd'
      · rw [hfd]
        exact hmsg
    | message raw' msg' s' sock' hready hfd hsock hd' hmsg' hstate =>
      simp only [Decoded.raw.injEq] at hd'
      obtain ⟨rfl, hnil⟩ := hd'
      obtain ⟨hleft, hinput⟩ := List.append_eq_nil_iff.mp hnil.symm
      have hsame : msg' = msg := by
        rw [hmsg'] at hmsg
        exact Res.ok.inj hmsg
      have hrest := receiveAll_of_consumed (R := R) n ⟨hstate, hleft, hinput⟩ hsock.shut
        (by rw [hfd]; exact hsock.schedule)
      have heq : receiveAll R (n + 1) s sock =
          (.ok msg' :: (receiveAll R n s' sock').1, (receiveAll R n s' sock').2) := by
        simp only [receiveAll, hres]
      rw [heq, hrest.1, hsame]
      exact Or.inr ⟨rfl, hrest.2⟩
    | refused raw' rest e s' sock' hd' hmsg' =>
      simp only [Decoded.raw.injEq] at hd'
      rw [← hd'.1, hmsg] at hmsg'
      cases hmsg'
    | failed e rest s' sock' hd' => cases hd'
    | panicked s' sock' hd' => cases hd'

end RecvState

namespace MarshalledMessage

open RecvState

/-- **Encode/decode round trip.**  `marshal_header` succeeds exactly when the names are valid;
then a new receiver that is fed header and body, in any pieces, returns exactly one message,
which is received as it was sent, and consumes all bytes.

**Proof sketch.** `marshalHeader_eq`: the header is `headerBytes` exactly when the names are valid.
Decoding it together with the body gives one message (`decodeRaw_marshalled`, `outcome_received`),
so that message is all that is to come; at rest it has been returned and everything is consumed
(`receiveAll_single`), and `atRest_receiveAll` says when the receiver comes to rest. -/
theorem marshal_receive {R : Rustbus} (hR : R.Conforms) (m : MarshalledMessage)
    (serial : NonZeroU32) (htyp : m.typ ≠ .invalid) (hvalid : m.body.validate R = .ok ())
    (hfds : m.body.rawFds = []) (hbody : m.body.buf.length < 2 ^ 32)
    (hlen : m.fieldBytes.length < 2 ^ 32) :
    ((∃ header, m.marshalHeader R serial = .ok header) ↔ m.dynheader.validNames R = true) ∧
    ∀ header, m.marshalHeader R serial = .ok header → ∀ withFd remCap script n,
      IsSchedule withFd script →
      (AtRest R (receiveAll R n (new withFd remCap) ⟨header ++ m.body.buf, script, false⟩) →
        ∃ m', (receiveAll R n (new withFd remCap) ⟨header ++ m.body.buf, script, false⟩).1 =
            [.ok m'] ∧
          m.ReceivedAs serial m' ∧
          (receiveAll R n (new withFd remCap) ⟨header ++ m.body.buf, script, false⟩).2.1.Consumed
            (receiveAll R n (new withFd remCap) ⟨header ++ m.body.buf, script, false⟩).2.2) ∧
      ((header ++ m.body.buf).length ≤ deliveries script → script.length + 1 < n →
        AtRest R (receiveAll R n (new withFd remCap) ⟨header ++ m.body.buf, script, false⟩)) := by
  rcases m.marshalHeader_eq R serial with ⟨hok, hnames, heq⟩ | ⟨⟨e, herr⟩, hnames⟩
  · refine ⟨⟨fun _ => hnames, fun _ => hok⟩, fun header hheader withFd remCap script n hs => ?_⟩
    have hbytes : header = m.headerBytes serial := by
      rw [heq] at hheader
      exact (Except.ok.inj hheader).symm
    subst hbytes
    have hidle : (new withFd remCap).Idle R := (ready_new withFd remCap).idle rfl
    have hraw := m.decodeRaw_marshalled hR serial withFd htyp hnames hvalid hfds hbody hlen
    have hout := m.outcome_received serial hR withFd hvalid hfds
    have htoCome : (new withFd remCap).toCome R
        ⟨m.headerBytes serial ++ m.body.buf, script, false⟩ =
        [.ok (mmFromRaw (m.received serial) [])] := by
      rw [toCome_new, decodeStream_eq, hraw, emit, hout, decodeStream_eq]
      rfl
    refine ⟨fun hrest => ?_, fun hcov hn => ?_⟩
    · have hall := receiveAll_of_atRest hR.reads_fixed_part n hidle
        ⟨m.headerBytes serial ++ m.body.buf, script, false⟩ rfl hs hrest
      rw [htoCome] at hall
      refine ⟨_, hall, m.receivedAs_received serial hR hvalid, ?_⟩
      rcases receiveAll_single hR.reads_fixed_part n hidle
        ⟨m.headerBytes serial ++ m.body.buf, script, false⟩ rfl hs hraw hout with
        hnone | ⟨-, hcons⟩
      · rw [hall] at hnone
        cases hnone
      · exact hcons
    · refine atRest_receiveAll hR.reads_fixed_part n hidle _ rfl hs hcov ?_
      rw [htoCome]
      exact hn
  · refine ⟨⟨?_, fun h => ?_⟩, fun header hheader => ?_⟩
    · rintro ⟨header, hheader⟩
      rw [herr] at hheader
      cases hheader
    · rw [hnames] at h
      cases h
    · rw [herr] at hheader
      cases hheader

/-- A call with an object, a member and a body of one string, sent in the big-endian byte
order. -/
theorem marshal_receive_call :
    let m : MarshalledMessage :=
      ⟨MarshalledMessageBody.pushStr (.withByteorder .bigEndian) ['h', 'i'],
        { DynamicHeader.default with object := some ['/', 'a'], member := some ['M'] }, .call, 2⟩
    let serial : NonZeroU32 := ⟨9, by decide⟩
    m.dynheader.validNames .reference = true ∧
    ∀ header, m.marshalHeader .reference serial = .ok header → ∀ withFd remCap script n,
      IsSchedule withFd script →
      AtRest .reference
        (receiveAll .reference n (new withFd remCap) ⟨header ++ m.body.buf, script, false⟩) →
      ∃ m', (receiveAll .reference n (new withFd remCap)
          ⟨header ++ m.body.buf, script, false⟩).1 = [.ok m'] ∧ m.ReceivedAs serial m' := by
  intro m serial
  obtain ⟨-, h⟩ := marshal_receive Rustbus.reference_conforms m serial (by decide) (by decide)
    rfl (by decide) (by decide)
  refine ⟨by decide, fun header hheader withFd remCap script n hs hrest => ?_⟩
  obtain ⟨m', hrun, hsame, -⟩ := (h header hheader withFd remCap script n hs).1 hrest
  exact ⟨m', hrun, hsame⟩

end MarshalledMessage

end AsyncRustbus
