import AsyncRustbus.Conn.Descriptors
import AsyncRustbus.Conn.FdChunking
import AsyncRustbus.Conn.RoundTrip

set_option relaxedAutoImplicit false
set_option autoImplicit false

/-!
# Two connections back to back

The sender of one connection and the receiver of another share a stream: what `sendmsg` accepts
is what `recvmsg` can return.  Calls of `write_next_message`, `finish_sending_next` and
`get_next_message` follow each other in any order, each with its own answers of the stream, so
that a message may be accepted in parts and received in other parts while further messages are
written.

## Main definitions

* `AsyncRustbus.Link` — the two parties, the bytes in flight, and what has been written and
  returned.
* `AsyncRustbus.Link.step` — one call on either side.
* `AsyncRustbus.MarshalledMessage.Deliverable` — the messages that the receiver can read.

## Main results

* `AsyncRustbus.RecvState.getNextMessage_frame` — a call does not depend on bytes behind those it
  reads.
* `AsyncRustbus.Link.run_delivers` — what is returned are the first of the messages written.
* `AsyncRustbus.Link.run_drains` — and all of them once the stream has passed everything on.
-/

namespace AsyncRustbus

/-! ## Bytes that are not read -/

/-- A read where `n` more bytes are to come. -/
def Read.behind (n : ℕ) (r : Read) : Read := { r with left := r.left + n }

namespace RecvState

variable {R : Rustbus}

/-- A pass of the loop leaves the socket as it is, but for shutting it down. -/
lemma handleChunk_socket (R : Rustbus) (s : RecvState) :
    ∃ result s' shut', ∀ input script,
      handleChunk R s ⟨input, script, false⟩ = (result, s', ⟨input, script, shut'⟩) := by
  unfold handleChunk
  split_ifs with hmany
  · exact ⟨_, _, _, fun _ _ => rfl⟩
  unfold tryGetMsg
  rcases tryBlock R s with ⟨(_ | raw) | e | _, s'⟩
  · exact ⟨_, _, _, fun _ _ => rfl⟩
  · by_cases hcount : s'.inFds.length ≠ (raw.2.1.numFds.getD 0).toNat
    · exact ⟨_, _, _, fun input script => by simp only [if_pos hcount]; rfl⟩
    · cases hval : (mmFromRaw raw s'.inFds).body.validate R with
      | ok u =>
        exact ⟨_, _, _, fun input script => by simp only [if_neg hcount, deliver, hval]; rfl⟩
      | error e =>
        exact ⟨_, _, _, fun input script => by
          simp only [if_neg hcount, deliver, hval, Socket.shutdown]; rfl⟩
  · exact ⟨_, _, _, fun _ _ => rfl⟩
  · exact ⟨_, _, _, fun _ _ => rfl⟩

/-- What a call does, and reads, where more bytes stand behind those to come and it reads the same
ones. -/
structure SameWith (call : Bytes → Res RecvError MarshalledMessage × RecvState × Socket)
    (reads : Bytes → List Read) (result : Res RecvError MarshalledMessage × RecvState × Socket)
    (read : List Read) : Prop where
  result : ∃ script', ∀ t,
    call t = (result.1, result.2.1, ⟨result.2.2.input ++ t, script', result.2.2.shut⟩)
  reads : ∀ t, reads t = read.map (Read.behind t.length)

/-- **The loop does not depend on bytes that it does not read.**

**Proof sketch.** Induction on the answers of the socket.  Each answer is replaced by one that
delivers just what was delivered, and the one that found nothing by `WouldBlock`. -/
lemma recvLoop_frame (script : List RecvEvent) (s : RecvState) (input : Bytes) :
    ∃ script₁, (∀ withFd, IsSchedule withFd script → IsSchedule withFd script₁) ∧
      SameWith (fun t => recvLoop R script₁ s (input ++ t))
        (fun t => loopReads R script₁ s (input ++ t)) (recvLoop R script s input)
        (loopReads R script s input) := by
  have hblocked : ∀ t : Bytes, [(⟨(input ++ t).length, s.offered, 0, []⟩ : Read)] =
      [⟨input.length, s.offered, 0, []⟩].map (Read.behind t.length) := by
    intro t
    rw [List.length_append]
    rfl
  induction script generalizing s input with
  | nil => exact ⟨[], fun _ h => h, ⟨[], fun _ => rfl⟩, hblocked⟩
  | cons ev script ih =>
    cases ev with
    | wouldBlock => exact ⟨.wouldBlock :: script, fun _ h => h, ⟨script, fun _ => rfl⟩, hblocked⟩
    | eof => exact ⟨.eof :: script, fun _ h => h, ⟨script, fun _ => rfl⟩, hblocked⟩
    | err => exact ⟨.err :: script, fun _ h => h, ⟨script, fun _ => rfl⟩, hblocked⟩
    | data n fds =>
      obtain ⟨k, hk⟩ : ∃ k, k = min (n + 1) (min s.offered input.length) := ⟨_, rfl⟩
      by_cases hzero : k = 0
      · refine ⟨[.wouldBlock], fun _ _ ev hev => ?_, ⟨[], fun t => ?_⟩, fun t => ?_⟩
        · rw [List.mem_singleton.mp hev]
          rfl
        · simp only [recvLoop, ← hk, if_pos hzero]
        · simp only [loopReads, ← hk, if_pos hzero]
          exact hblocked t
      · obtain ⟨result, s', shut', hchunk⟩ :=
          handleChunk_socket R (s.receive (input.take k) fds)
        obtain ⟨script₁, hsched, ⟨script', hsame⟩, hreads⟩ := ih s' (input.drop k)
          (fun t => by rw [List.length_append]; rfl)
        refine ⟨.data (k - 1) fds :: script₁, fun withFd h ev hev => ?_, ?_⟩
        · rcases List.mem_cons.mp hev with rfl | hev
          · exact h (.data n fds) List.mem_cons_self
          · exact hsched withFd (fun e he => h e (List.mem_cons_of_mem _ he)) ev hev
        · have hlen : ∀ t : Bytes,
              min (k - 1 + 1) (min s.offered (input ++ t).length) = k := by
            intro t
            rw [List.length_append]
            omega
          have htake : ∀ t : Bytes, (input ++ t).take k = input.take k :=
            fun t => List.take_append_of_le_length (by omega)
          have hdrop : ∀ t : Bytes, (input ++ t).drop k = input.drop k ++ t :=
            fun t => List.drop_append_of_le_length (by omega)
          have hfirst : ∀ t : Bytes, (⟨(input ++ t).length, s.offered, k, fds⟩ : Read) =
              Read.behind t.length ⟨input.length, s.offered, k, fds⟩ := by
            intro t
            rw [List.length_append]
            rfl
          cases result with
          | some r =>
            refine ⟨⟨script₁, fun t => ?_⟩, fun t => ?_⟩
            · simp only [recvLoop, hlen, ← hk, if_neg hzero, htake, hdrop, hchunk]
            · simp only [loopReads, hlen, ← hk, if_neg hzero, htake, hdrop, hchunk, hfirst,
                List.map_cons, List.map_nil]
          | none =>
            refine ⟨⟨script', fun t => ?_⟩, fun t => ?_⟩
            · simp only [recvLoop, hlen, ← hk, if_neg hzero, htake, hdrop, hchunk]
              exact hsame t
            · simp only [loopReads, hlen, ← hk, if_neg hzero, htake, hdrop, hchunk, hfirst,
                List.map_cons]
              rw [hreads t]

/-- **A call does not depend on bytes that it does not read.** -/
theorem getNextMessage_frame (s : RecvState) (sock : Socket) (hshut : sock.shut = false) :
    ∃ script₁, (∀ withFd, IsSchedule withFd sock.script → IsSchedule withFd script₁) ∧
      SameWith (fun t => getNextMessage R s ⟨sock.input ++ t, script₁, false⟩)
        (fun t => callReads R s ⟨sock.input ++ t, script₁, false⟩) (getNextMessage R s sock)
        (callReads R s sock) := by
  obtain ⟨input, script, shut⟩ := sock
  dsimp only at hshut
  subst hshut
  unfold getNextMessage callReads tryGetMsg
  rcases tryBlock R s with ⟨(_ | raw) | e | _, s'⟩
  · exact recvLoop_frame script s' input
  · cases hval : (mmFromRaw raw []).body.validate R with
    | ok u =>
      exact ⟨script, fun _ h => h, ⟨script, fun t => by simp only [deliver, hval]⟩, fun _ => rfl⟩
    | error e =>
      exact ⟨script, fun _ h => h,
        ⟨script, fun t => by simp only [deliver, hval, Socket.shutdown]⟩, fun _ => rfl⟩
  · exact ⟨script, fun _ h => h, ⟨script, fun _ => rfl⟩, fun _ => rfl⟩
  · exact ⟨script, fun _ h => h, ⟨script, fun _ => rfl⟩, fun _ => rfl⟩

end RecvState

/-! ## The bytes of a sequence of messages -/

namespace MarshalledMessage

/-- A message that the receiver can read: its type is known, its body is valid and its lengths
fit in thirty-two bits. -/
structure Deliverable (R : Rustbus) (m : MarshalledMessage) : Prop where
  typ : m.typ ≠ .invalid
  body : m.body.validate R = .ok ()
  bodyLen : m.body.buf.length < 2 ^ 32
  fieldLen : m.fieldBytes.length < 2 ^ 32

/-- A message as the receiver returns it. -/
def delivered (m : MarshalledMessage) (serial : NonZeroU32) : MarshalledMessage :=
  RecvState.mmFromRaw (m.received serial) []

end MarshalledMessage

/-- A message that has passed the checks of the sender. -/
structure Sent (R : Rustbus) (m : MarshalledMessage) : Prop extends m.Deliverable R where
  names : m.dynheader.validNames R = true

/-- The bytes of a message that has passed the checks. -/
lemma Sent.messageBytes_eq {R : Rustbus} {m : MarshalledMessage} (h : Sent R m)
    (serial : NonZeroU32) : messageBytes R m serial = m.headerBytes serial ++ m.body.buf := by
  rcases m.marshalHeader_eq R serial with ⟨-, -, heq⟩ | ⟨-, hnames⟩
  · rw [messageBytes, heq]
  · rw [h.names] at hnames
    cases hnames

/-- **One-pass decoding of the bytes of messages**: these messages, and then what stands behind
them.

**Proof sketch.** Induction on the messages; each is decoded as if it stood alone
(`decodeRaw_append`). -/
lemma decodeStream_messages {R : Rustbus} (hR : R.Conforms) (withFd : Bool)
    (written : List (MarshalledMessage × NonZeroU32))
    (h : ∀ w ∈ written, Sent R w.1 ∧ w.1.body.rawFds = []) (t : Bytes) :
    decodeStream R withFd ((written.map fun w => packet R w.1 w.2).flatMap Prod.fst ++ t) =
      (written.map fun w => .ok (w.1.delivered w.2)) ++ decodeStream R withFd t := by
  induction written with
  | nil => rfl
  | cons w written ih =>
    obtain ⟨m, serial⟩ := w
    obtain ⟨hm, hfds⟩ : Sent R m ∧ m.body.rawFds = [] := h (m, serial) List.mem_cons_self
    have hraw := m.decodeRaw_marshalled hR serial withFd hm.typ hm.names hm.body hfds hm.bodyLen
      hm.fieldLen
    have hout := m.outcome_received serial hR withFd hm.body hfds
    obtain ⟨rest, hrest⟩ : ∃ rest,
        rest = (written.map fun w => packet R w.1 w.2).flatMap Prod.fst ++ t := ⟨_, rfl⟩
    have hbytes : ((m, serial) :: written).map (fun w => packet R w.1 w.2) =
        packet R m serial :: written.map fun w => packet R w.1 w.2 := rfl
    have hfirst : (packet R m serial).1 = m.headerBytes serial ++ m.body.buf :=
      hm.messageBytes_eq serial
    rw [hbytes, List.flatMap_cons, List.append_assoc, ← hrest, hfirst, decodeStream_eq,
      decodeRaw_append R withFd _ _ (by rw [hraw]; simp), hraw]
    simp only [Decoded.followedBy, List.nil_append, emit, hout]
    rw [hrest, ih fun w hw => h w (List.mem_cons_of_mem _ hw)]
    rfl

/-! ## The two parties -/

/-- A sender and a receiver: what the stream has accepted and not passed on yet, whether the
receiver has shut it down, and the messages written and the results returned so far. -/
structure Link where
  sender : Tracked
  receiver : RecvState
  wire : Bytes
  shut : Bool
  written : List (MarshalledMessage × NonZeroU32)
  returned : List (Res RecvError MarshalledMessage)

/-- A call on either side, with the answers that the stream has for it. -/
inductive LinkOp
  | write (msg : MarshalledMessage) (serial : NonZeroU32) (answers : List SendEvent)
  | finish (answers : List SendEvent)
  | receive (answers : List RecvEvent)

/-- The sender with other answers of the stream to come. -/
def Tracked.answered (c : Tracked) (answers : List SendEvent) : Tracked :=
  { c with stream := ⟨c.stream.log, answers⟩ }

namespace Link

/-- Two new connections. -/
def new (withFd : Bool) (remCap : ℕ) : Link :=
  ⟨.new withFd [], .new withFd remCap, [], false, [], []⟩

/-- After a call of the sender: what was accepted of it is on its way. -/
def afterSend (l : Link) (c : Tracked) (messages : List (MarshalledMessage × NonZeroU32)) : Link :=
  { l with
    sender := c
    wire := l.wire ++ c.stream.sent.drop l.sender.stream.sent.length
    written := l.written ++ messages }

/-- What a call of `get_next_message` reports: a message or an error. -/
def report : Res RecvError MarshalledMessage → List (Res RecvError MarshalledMessage)
  | .err .wouldBlock => []
  | r => [r]

/-- One call. -/
def step (R : Rustbus) (l : Link) : LinkOp → Link
  | .write msg serial answers =>
    match (l.sender.answered answers).write R msg serial with
    | (.ok _, c) => l.afterSend c [(msg, serial)]
    | (.error _, c) => l.afterSend c []
  | .finish answers => l.afterSend (l.sender.answered answers).finish.2 []
  | .receive answers =>
    match RecvState.getNextMessage R l.receiver ⟨l.wire, answers, l.shut⟩ with
    | (r, s, sock) =>
      { l with receiver := s, wire := sock.input, shut := sock.shut,
               returned := l.returned ++ report r }

/-- A sequence of calls. -/
def run (R : Rustbus) (l : Link) (ops : List LinkOp) : Link := ops.foldl (step R) l

/-- The calls on a stream that works: messages that can be read are written, without descriptors
where the connection takes them, and the stream reports no error. -/
def Regular (R : Rustbus) (withFd : Bool) : LinkOp → Prop
  | .write msg _ answers => msg.Deliverable R ∧ (withFd = true → msg.body.rawFds = []) ∧
      ∀ ev ∈ answers, ev ≠ .err
  | .finish answers => ∀ ev ∈ answers, ev ≠ .err
  | .receive answers => IsSchedule withFd answers

/-- The invariant: both parties are sound, and what has been returned, followed by what the
receiver makes of the bytes in flight and any others behind them, is what one-pass decoding makes
of all that was accepted. -/
structure Delivers (R : Rustbus) (withFd : Bool) (l : Link) : Prop where
  balanced : l.sender.Balanced
  senderFd : l.sender.state.withFd = withFd
  messages : l.sender.messages = l.written.map fun w => packet R w.1 w.2
  sendable : ∀ w ∈ l.written, Sent R w.1 ∧ w.1.body.rawFds = []
  idle : l.receiver.Idle R
  receiverFd : l.receiver.withFd = withFd
  shut : l.shut = false
  decoded : ∀ t, l.returned ++ l.receiver.toCome R ⟨l.wire ++ t, [], false⟩ =
    decodeStream R withFd (l.sender.stream.sent ++ t)

variable {R : Rustbus} {withFd : Bool} {l : Link}

/-- The start. -/
lemma delivers_new (withFd : Bool) (remCap : ℕ) : (new withFd remCap).Delivers R withFd :=
  ⟨Tracked.balanced_new withFd (by simp), rfl, rfl, by simp [new],
    (RecvState.ready_new withFd remCap).idle rfl, rfl, rfl,
    fun t => RecvState.toCome_new R withFd remCap _⟩

/-- The other answers do not matter for the balance. -/
lemma Delivers.answered (h : l.Delivers R withFd) {answers : List SendEvent}
    (hanswers : ∀ ev ∈ answers, ev ≠ .err) : (l.sender.answered answers).Balanced :=
  ⟨h.balanced.ledger, hanswers, h.balanced.fds⟩

/-- **A call of the sender keeps the invariant**: the bytes that it had accepted are behind those
in flight. -/
lemma Delivers.afterSend (h : l.Delivers R withFd) {c : Tracked}
    {messages : List (MarshalledMessage × NonZeroU32)} (hbal : c.Balanced)
    (hfd : c.state.withFd = withFd) (hlog : l.sender.stream.log <+: c.stream.log)
    (hmessages : c.messages = l.sender.messages ++ messages.map fun w => packet R w.1 w.2)
    (hsent : ∀ w ∈ messages, Sent R w.1 ∧ w.1.body.rawFds = []) :
    (l.afterSend c messages).Delivers R withFd := by
  obtain ⟨more, hmore⟩ := hlog
  have hbytes : c.stream.sent = l.sender.stream.sent ++ more.flatMap Prod.fst := by
    rw [OutStream.sent, OutStream.sent, ← hmore, List.flatMap_append]
  refine ⟨hbal, hfd, ?_, ?_, h.idle, h.receiverFd, h.shut, fun t => ?_⟩
  · show c.messages = _
    rw [hmessages, h.messages]
    exact (List.map_append).symm
  · intro w hw
    rcases List.mem_append.mp hw with hw | hw
    · exact h.sendable w hw
    · exact hsent w hw
  · show l.returned ++ l.receiver.toCome R
        ⟨l.wire ++ c.stream.sent.drop l.sender.stream.sent.length ++ t, [], false⟩ =
      decodeStream R withFd (c.stream.sent ++ t)
    rw [hbytes, List.drop_left, List.append_assoc, List.append_assoc]
    exact h.decoded _

/-- No queued message has descriptors to send. -/
lemma Delivers.fdSafe (h : l.Delivers R withFd) : ∀ out ∈ l.sender.state.queue,
    out.fdsToSend = false := by
  intro out hout
  obtain ⟨done, hmsgs, -⟩ := h.balanced.ledger.split
  have hmem : out.message ∈ l.sender.messages := by
    rw [hmsgs]
    exact List.mem_append_right _ (List.mem_map_of_mem hout)
  rw [h.messages] at hmem
  obtain ⟨w, hw, heq⟩ := List.mem_map.mp hmem
  have hnil : out.fds = [] := by
    show out.message.2 = []
    rw [← heq, packet, (h.sendable w hw).2]
    rfl
  simp [RawOut.fdsToSend, hnil]

/-- The messages of the queue and those before it decode to the messages written. -/
lemma Delivers.all_decoded (h : l.Delivers R withFd) (hR : R.Conforms) :
    l.returned ++ l.receiver.toCome R ⟨l.wire ++ pending l.sender.state.queue, [], false⟩ =
      l.written.map fun w => .ok (w.1.delivered w.2) := by
  have hall := decodeStream_messages hR withFd l.written h.sendable []
  rw [List.append_nil, ← h.messages, ← h.balanced.ledger.bytes] at hall
  rw [h.decoded]
  refine hall.trans ?_
  rw [show decodeStream R withFd [] = [] from rfl, List.append_nil]

/-- A message that is written has passed the checks. -/
lemma prepare_of_write {c c' : Tracked} {msg : MarshalledMessage} {serial : NonZeroU32}
    {result : Option ℕ} (h : c.write R msg serial = (.ok result, c')) :
    msg.dynheader.validNames R = true ∧
      ∃ out, SendState.prepare R c.state msg serial = .ok out := by
  cases hprep : SendState.prepare R c.state msg serial with
  | error e => simp [Tracked.write, SendState.writeNextMessage, hprep] at h
  | ok out =>
    refine ⟨?_, out, rfl⟩
    rcases msg.marshalHeader_eq R serial with ⟨-, hnames, -⟩ | ⟨⟨e, herr⟩, -⟩
    · exact hnames
    · simp [SendState.prepare, herr] at hprep

/-- **A call of the receiver keeps the invariant.**

**Proof sketch.** The call does what it would do if more bytes stood behind those in flight
(`getNextMessage_frame`), so it takes the next result of every longer decoding.  It cannot stop
with an error: with the pending bytes behind it, the stream decodes to messages. -/
lemma Delivers.receive (h : l.Delivers R withFd) (hR : R.Conforms) {answers : List RecvEvent}
    (hanswers : IsSchedule withFd answers) : (l.step R (.receive answers)).Delivers R withFd := by
  obtain ⟨script₁, hsched, ⟨script', hsame⟩, -⟩ :=
    RecvState.getNextMessage_frame (R := R) l.receiver ⟨l.wire, answers, l.shut⟩ h.shut
  have hcall : ∀ t, RecvState.CallStep R l.receiver ⟨l.wire ++ t, script₁, false⟩
      (RecvState.getNextMessage R l.receiver ⟨l.wire ++ t, script₁, false⟩) := by
    intro t
    refine RecvState.getNextMessage_step hR.reads_fixed_part h.idle rfl ?_
    rw [h.receiverFd]
    exact hsched withFd hanswers
  have hall := h.all_decoded hR
  simp only [step]
  generalize RecvState.getNextMessage R l.receiver ⟨l.wire, answers, l.shut⟩ = res at hsame ⊢
  obtain ⟨r, s', input, script, shut⟩ := res
  simp only at hsame ⊢
  simp only [hsame] at hcall
  have hdecoded : ∀ t, report r ++ s'.toCome R ⟨input ++ t, [], false⟩ =
      l.receiver.toCome R ⟨l.wire ++ t, [], false⟩ ∧ s'.Idle R ∧ s'.withFd = withFd ∧
        shut = false := by
    intro t
    have hstep := hcall t
    generalize hres : (r, s', (⟨input ++ t, script', shut⟩ : Socket)) = res at hstep
    cases hstep with
    | blocked s'' sock'' hidle hfd hsock heq hnil hless =>
      obtain ⟨rfl, rfl, rfl⟩ := hres
      exact ⟨heq, hidle, hfd.trans h.receiverFd, hsock.shut⟩
    | message msg s'' sock'' hidle hfd hsock hnext =>
      obtain ⟨rfl, rfl, rfl⟩ := hres
      exact ⟨hnext.symm, hidle, hfd.trans h.receiverFd, hsock.shut⟩
    | stopped r'' s'' sock'' hmsg hblock hlast =>
      obtain ⟨rfl, rfl, rfl⟩ := hres
      -- the pending bytes complete the messages, so no call stops
      have hstop := hcall (pending l.sender.state.queue)
      generalize hres : (r, s', (⟨input ++ pending l.sender.state.queue, script', shut⟩ : Socket))
        = res at hstop
      cases hstop with
      | blocked => exact absurd (congrArg Prod.fst hres) hblock
      | message msg => exact absurd (congrArg Prod.fst hres) (hmsg msg)
      | stopped r'' s'' sock'' hmsg' hblock' hlast' =>
        obtain ⟨rfl, rfl, rfl⟩ := hres
        rw [show l.receiver.toCome R ⟨l.wire ++ pending l.sender.state.queue, [], false⟩ = [r] from
          hlast'] at hall
        have hmem : r ∈ l.written.map fun w =>
            (.ok (w.1.delivered w.2) : Res RecvError MarshalledMessage) := by
          rw [← hall]
          simp
        obtain ⟨w, -, hok⟩ := List.mem_map.mp hmem
        exact absurd hok.symm (hmsg _)
  refine ⟨h.balanced, h.senderFd, h.messages, h.sendable, (hdecoded []).2.1, (hdecoded []).2.2.1,
    (hdecoded []).2.2.2, fun t => ?_⟩
  show l.returned ++ report r ++ _ = _
  rw [List.append_assoc, (hdecoded t).1, h.decoded]

/-- **One regular call keeps the invariant.**

**Proof sketch.** By the call. `write_next_message` refuses the message, writes it or queues it
(`Tracked.write_cases`), and an accepted message has valid names and no descriptors;
`finish_sending_next` adds no message. Both are steps of `Delivers.afterSend`, and a call of the
receiver is `Delivers.receive`. -/
lemma Delivers.step (h : l.Delivers R withFd) (hR : R.Conforms) (op : LinkOp)
    (hop : Regular R withFd op) : (l.step R op).Delivers R withFd := by
  cases op with
  | write msg serial answers =>
    obtain ⟨hmsg, hfds, hanswers⟩ := hop
    obtain ⟨hbal, hlog, hcases⟩ := Tracked.write_cases (R := R) (h.answered hanswers) msg serial
      (.inr fun _ => h.fdSafe)
    rcases hcases with ⟨e, heq⟩ | ⟨stream, heq⟩ | ⟨queue, stream, -, -, heq⟩
    · have hstep : l.step R (.write msg serial answers) =
          l.afterSend (l.sender.answered answers) [] := by
        simp only [Link.step, heq]
      rw [hstep]
      exact h.afterSend (h.answered hanswers) h.senderFd List.prefix_rfl
        (List.append_nil _).symm (by simp)
    all_goals
      obtain ⟨hnames, out, hprep⟩ := prepare_of_write heq
      obtain ⟨-, -, hnofds, hoff⟩ := Sending.prepare_spec hprep
      have hnil : msg.body.rawFds = [] := by
        cases hfd : withFd with
        | false => exact hnofds (hoff (h.senderFd.trans hfd))
        | true => exact hfds hfd
      simp only [Link.step, heq]
      rw [heq] at hbal hlog
      exact h.afterSend hbal h.senderFd hlog rfl (by simpa using ⟨⟨hmsg, hnames⟩, hnil⟩)
  | finish answers =>
    obtain ⟨queue, stream, heq, hbal, hlog, -⟩ := Tracked.finish_cases (h.answered hop)
    simp only [Link.step]
    refine h.afterSend hbal ?_ ?_ ?_ (by simp)
    · rw [heq]
      exact h.senderFd
    · rw [heq]
      exact hlog
    · rw [heq]
      exact (List.append_nil _).symm
  | receive answers => exact h.receive hR hop

/-- A run of regular calls keeps the invariant. -/
lemma delivers_run (hR : R.Conforms) (ops : List LinkOp)
    (hops : ∀ op ∈ ops, Regular R withFd op) (h : l.Delivers R withFd) :
    (run R l ops).Delivers R withFd := by
  induction ops generalizing l with
  | nil => exact h
  | cons op ops ih =>
    exact ih (fun o ho => hops o (List.mem_cons_of_mem _ ho))
      (h.step hR op (hops op List.mem_cons_self))

/-! ## What arrives -/

/-- A result is the message that was written with a serial. -/
def Arrived (r : Res RecvError MarshalledMessage) (w : MarshalledMessage × NonZeroU32) : Prop :=
  ∃ m', r = .ok m' ∧ w.1.ReceivedAs w.2 m'

/-- Messages that are delivered have arrived. -/
lemma forall₂_arrived (hR : R.Conforms) {written : List (MarshalledMessage × NonZeroU32)}
    (h : ∀ w ∈ written, Sent R w.1 ∧ w.1.body.rawFds = []) :
    List.Forall₂ Arrived (written.map fun w => .ok (w.1.delivered w.2)) written := by
  rw [List.forall₂_map_left_iff, List.forall₂_same]
  intro w hw
  exact ⟨_, rfl, w.1.receivedAs_received w.2 hR (h w hw).1.body⟩

/-- **What is returned are the first of the messages written.**  In every run of two connections
on a stream that works, in which only messages are written that the receiver can read (`Regular`),
however the calls follow each other and the bytes are cut: no result is an error, and the messages
returned are the first of those whose writes succeeded, in order, each as it was written. -/
theorem run_delivers (hR : R.Conforms) (withFd : Bool) (remCap : ℕ) (ops : List LinkOp)
    (hops : ∀ op ∈ ops, Regular R withFd op) :
    ∃ got, got <+: (run R (new withFd remCap) ops).written ∧
      List.Forall₂ Arrived (run R (new withFd remCap) ops).returned got := by
  have h := delivers_run hR ops hops (delivers_new withFd remCap)
  generalize run R (new withFd remCap) ops = l at h
  have hreturned := List.prefix_iff_eq_take.mp ⟨_, h.all_decoded hR⟩
  rw [← List.map_take] at hreturned
  refine ⟨l.written.take l.returned.length, List.take_prefix _ _, ?_⟩
  rw [hreturned, List.length_map, List.length_take]
  by_cases hlen : l.returned.length ≤ l.written.length
  · rw [Nat.min_eq_left hlen]
    exact forall₂_arrived hR fun w hw => h.sendable w (List.mem_of_mem_take hw)
  · rw [Nat.min_eq_right (by omega), List.take_of_length_le (by omega : _ ≤ l.returned.length),
      List.take_of_length_le (Nat.le_refl _)]
    exact forall₂_arrived hR h.sendable

/-- A signal and a call without fields; the first bytes of the signal are received before the rest
is accepted, and the call is cut inside its header. -/
theorem run_delivers_two :
    let call : MarshalledMessage := ⟨.withByteorder .bigEndian, .default, .call, 2⟩
    let ops := [LinkOp.write (Sending.plainSignal []) ⟨1, by decide⟩ [.accept 4, .wouldBlock],
      .receive [.data 2 [], .data 9 []], .write call ⟨2, by decide⟩ [.accept 29],
      .receive [.data 40 []], .receive [.data 40 []], .finish [.accept 99],
      .receive [.data 40 [], .data 99 []]]
    (run .reference (new false 7) ops).returned.length = 2 ∧
      ∃ got, got <+: (run .reference (new false 7) ops).written ∧
        List.Forall₂ Arrived (run .reference (new false 7) ops).returned got := by
  intro call ops
  refine ⟨by decide, run_delivers Rustbus.reference_conforms false 7 ops ?_⟩
  have hsignal : (Sending.plainSignal []).Deliverable .reference :=
    ⟨by decide, by decide, by decide, by decide⟩
  have hcall : call.Deliverable .reference := ⟨by decide, by decide, by decide, by decide⟩
  simp [ops, Regular, hsignal, hcall, IsSchedule, RecvEvent.delivers]

/-- **Everything written is returned** in such a run, once the sender has nothing left in its queue
and the receiver has come to rest, which it does after as many deliveries as there are bytes in
flight.

**Proof sketch.** With an empty queue, everything that is not returned yet is what decoding the wire
gives (`Delivers.all_decoded`). At rest the receiver has returned all of that
(`receiveAll_of_atRest`); and a schedule with as many deliveries as bytes brings it to rest
(`atRest_receiveAll`). -/
theorem run_drains (hR : R.Conforms) (withFd : Bool) (remCap : ℕ) (ops : List LinkOp)
    (hops : ∀ op ∈ ops, Regular R withFd op)
    (hqueue : (run R (new withFd remCap) ops).sender.state.queue = [])
    (script : List RecvEvent) (hscript : IsSchedule withFd script) (n : ℕ) :
    let l := run R (new withFd remCap) ops
    let rest := RecvState.receiveAll R n l.receiver ⟨l.wire, script, l.shut⟩
    (RecvState.AtRest R rest → List.Forall₂ Arrived (l.returned ++ rest.1) l.written) ∧
      (l.wire.length ≤ deliveries script → script.length + l.written.length < n →
        RecvState.AtRest R rest) := by
  intro l rest
  have h : l.Delivers R withFd := delivers_run hR ops hops (delivers_new withFd remCap)
  have hall := h.all_decoded hR
  rw [show l.sender.state.queue = [] from hqueue, show pending [] = [] from rfl,
    List.append_nil] at hall
  have hschedule : IsSchedule l.receiver.withFd script := by
    rw [h.receiverFd]
    exact hscript
  refine ⟨fun hrest => ?_, fun hcovers hn => ?_⟩
  · have htoCome : rest.1 = l.receiver.toCome R ⟨l.wire, script, l.shut⟩ :=
      RecvState.receiveAll_of_atRest hR.reads_fixed_part n h.idle _ h.shut hschedule hrest
    rw [htoCome, show l.receiver.toCome R ⟨l.wire, script, l.shut⟩ =
      l.receiver.toCome R ⟨l.wire, [], false⟩ from rfl, hall]
    exact forall₂_arrived hR h.sendable
  · refine RecvState.atRest_receiveAll hR.reads_fixed_part n h.idle _ h.shut hschedule hcovers ?_
    have hlen := congrArg List.length hall
    rw [List.length_append, List.length_map] at hlen
    have hsame : (l.receiver.toCome R ⟨l.wire, script, l.shut⟩).length =
        (l.receiver.toCome R ⟨l.wire, [], false⟩).length := rfl
    show script.length + (l.receiver.toCome R ⟨l.wire, script, l.shut⟩).length < n
    omega

/-- The queue is sent while the receiver has seen four bytes. -/
theorem run_drains_one :
    let ops := [LinkOp.write (Sending.plainSignal []) ⟨1, by decide⟩ [.accept 4, .wouldBlock],
      .receive [.data 3 []], .finish [.accept 99]]
    let l := run .reference (new true 7) ops
    let rest := RecvState.receiveAll .reference 15 l.receiver
      ⟨l.wire, List.replicate 12 (.data 99 []), l.shut⟩
    l.wire.length = 12 ∧ RecvState.AtRest .reference rest ∧
      List.Forall₂ Arrived (l.returned ++ rest.1) l.written := by
  intro ops l rest
  have hsignal : (Sending.plainSignal []).Deliverable .reference :=
    ⟨by decide, by decide, by decide, by decide⟩
  have hfds : (Sending.plainSignal []).body.rawFds = [] := rfl
  have hlen : l.wire.length = 12 := by decide
  obtain ⟨hall, hrest⟩ := run_drains Rustbus.reference_conforms true 7 ops
    (by simp [ops, Regular, hsignal, hfds, IsSchedule, RecvEvent.delivers]) (by decide)
    (List.replicate 12 (.data 99 [])) (by decide) 15
  have hcome := hrest (by rw [hlen]; decide) (by decide)
  exact ⟨hlen, hcome, hall hcome⟩

end Link

end AsyncRustbus
