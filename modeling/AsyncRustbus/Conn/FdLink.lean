import AsyncRustbus.Conn.Link

set_option relaxedAutoImplicit false
set_option autoImplicit false

/-!
# Descriptors from end to end

A stream socket ties descriptors to a write: they are handed over with the read that has the first
byte of that write.  The sender puts the descriptors of a message into a write of its own, the
receiver asks for no byte behind the message it is reading, and so the descriptors of a message
arrive with it, however the writes are accepted in parts and the reads are cut.

## Main definitions

* `AsyncRustbus.fdsOfWrites` — the descriptors of the writes that start in a part of the stream.
* `AsyncRustbus.Link.HandsOver` — the stream hands them over with these bytes.
* `AsyncRustbus.Link.FdRegularRun` — the runs on a stream that works.

## Main results

* `AsyncRustbus.fdsBetween_eq_fdsOfWrites` — the discipline of the sender is what the receiver
  expects.
* `AsyncRustbus.Link.run_delivers_fds` — messages arrive in order with their own descriptors.
-/

namespace AsyncRustbus

open SendState

/-! ## The writes of the sender and the messages of the receiver -/

/-- The descriptors of the writes that start at a position from `start` on and before `stop`, as
the receiver gets them. -/
def fdsOfWrites (start stop : ℕ) (writes : List (ℕ × Bytes × List ℕ)) : List UnixFd :=
  (writes.filter fun w => start ≤ w.1 ∧ w.1 < stop).flatMap fun w =>
    w.2.2.map fun file => ⟨some file⟩

/-- A message of the receiver is one that the sender wrote. -/
structure Incoming.Of {R : Rustbus} (m : Incoming R) (w : MarshalledMessage × NonZeroU32) :
    Prop where
  bytes : m.bytes = (packet R w.1 w.2).1
  fds : m.fds = w.1.body.rawFds
  packetFds : m.fds = (packet R w.1 w.2).2.map fun file => ⟨some file⟩
  raw : m.raw = w.1.received w.2

/-- The bytes are the same. -/
lemma Incoming.wire_of {R : Rustbus} {ms : List (Incoming R)}
    {written : List (MarshalledMessage × NonZeroU32)} (h : List.Forall₂ Incoming.Of ms written) :
    wire ms = (written.map fun w => packet R w.1 w.2).flatMap Prod.fst := by
  induction h with
  | nil => rfl
  | @cons m w ms written hm _ ih =>
    rw [wire, List.flatMap_cons, List.map_cons, List.flatMap_cons, hm.bytes, ← ih]
    rfl

/-- **The descriptors of the messages that start in a read** are those of the packets that start
there.

**Proof sketch.** Induction on the messages.  The receiver counts the bytes to come, the sender
those accepted. -/
lemma fdsBetween_of {R : Rustbus} {ms : List (Incoming R)}
    {written : List (MarshalledMessage × NonZeroU32)} (h : List.Forall₂ Incoming.Of ms written)
    {off start stop left left' : ℕ} (hstart : start + left = off + (Incoming.wire ms).length)
    (hstop : stop + left' = off + (Incoming.wire ms).length) :
    fdsBetween left left' ms =
      fdsOfWrites start stop (carrying off (written.map fun w => packet R w.1 w.2)) := by
  induction h generalizing off with
  | nil => rfl
  | @cons m w ms written hm _ ih =>
    have hlen : (Incoming.wire (m :: ms)).length = m.bytes.length + (Incoming.wire ms).length := by
      simp [Incoming.wire]
    have hrest := @ih (off + m.bytes.length) (by omega) (by omega)
    have hcond : (left' < (Incoming.wire (m :: ms)).length ∧
        (Incoming.wire (m :: ms)).length ≤ left) ↔ start ≤ off ∧ off < stop := by omega
    rw [fdsBetween, hrest, List.map_cons, carrying, ← hm.bytes, fdsOfWrites, fdsOfWrites,
      List.filter_append, List.flatMap_append]
    congr 1
    by_cases hnil : (packet R w.1 w.2).2 = []
    · have hfds : m.fds = [] := by rw [hm.packetFds, hnil]; rfl
      simp [hnil, hfds]
    · by_cases hin : start ≤ off ∧ off < stop
      · rw [if_pos (hcond.mpr hin), if_neg hnil]
        simp [hin, hm.packetFds]
      · rw [if_neg fun hc => hin (hcond.mp hc), if_neg hnil]
        simp [hin]

/-- Writes that carry descriptors of messages hand over the same ones. -/
lemma fdsOfWrites_of_carries {writes messages : List (ℕ × Bytes × List ℕ)}
    (h : List.Forall₂ Carries writes messages) (start stop : ℕ) :
    fdsOfWrites start stop writes = fdsOfWrites start stop messages := by
  induction h with
  | nil => rfl
  | @cons w m writes messages hw _ ih =>
    simp only [fdsOfWrites] at ih ⊢
    rw [List.filter_cons, List.filter_cons, hw.start]
    split_ifs
    · rw [List.flatMap_cons, List.flatMap_cons, ih, hw.fds]
    · exact ih

/-- **The discipline of the sender is what the receiver expects**: in a read of accepted bytes,
the stream hands over the descriptors of the messages that start there.

**Proof sketch.** Both sides are the descriptors of the messages that start between two positions,
counted from the end of all bytes on the left and from their beginning on the right; the bytes sent
and those pending make up the messages (`Balanced`). `fdsBetween_of` turns the one count into the
other, and `fdsOfWrites_of_carries` reads the descriptors off the log. All positions lie in front of
the bytes accepted, so restricting the log to them changes nothing. -/
theorem fdsBetween_eq_fdsOfWrites {R : Rustbus} {c : Tracked} (hbal : c.Balanced)
    {ms : List (Incoming R)} {written : List (MarshalledMessage × NonZeroU32)}
    (h : List.Forall₂ Incoming.Of ms written)
    (hmessages : c.messages = written.map fun w => packet R w.1 w.2) {left gotten : ℕ}
    (hgotten : gotten ≤ left) (hleft : left ≤ c.stream.sent.length) :
    fdsBetween (left + (pending c.state.queue).length)
        (left + (pending c.state.queue).length - gotten) ms =
      fdsOfWrites (c.stream.sent.length - left) (c.stream.sent.length - left + gotten)
        (carrying 0 c.stream.log) := by
  have hbytes : c.stream.sent.length + (pending c.state.queue).length =
      (Incoming.wire ms).length := by
    rw [Incoming.wire_of h, ← hmessages, ← hbal.ledger.bytes, List.length_append]
    rfl
  have hmsgs := fdsBetween_of h
    (show c.stream.sent.length - left + (left + (pending c.state.queue).length) =
      0 + (Incoming.wire ms).length by omega)
    (show c.stream.sent.length - left + gotten + (left + (pending c.state.queue).length - gotten) =
      0 + (Incoming.wire ms).length by omega)
  rw [hmsgs, fdsOfWrites_of_carries hbal.fdDiscipline, ← hmessages]
  simp only [fdsOfWrites, List.filter_filter]
  congr 1
  refine List.filter_congr fun m _ => ?_
  have hstop : c.stream.sent.length - left + gotten ≤ c.stream.sent.length := by omega
  by_cases hm : m.1 < c.stream.sent.length - left + gotten
  · simp [hm, Nat.lt_of_lt_of_le hm hstop]
  · simp [hm]

/-! ## Messages with descriptors -/

/-- Descriptors that can be duplicated are there. -/
lemma eq_of_dupFds {fds : List UnixFd} {files : List ℕ} (h : dupFds fds = some files) :
    fds = files.map fun file => ⟨some file⟩ := by
  induction fds generalizing files with
  | nil =>
    simp only [dupFds, List.mapM_nil, Option.pure_def, Option.some.injEq] at h
    rw [← h]
    rfl
  | cons fd fds ih =>
    obtain ⟨_ | file⟩ := fd
    · simp [dupFds] at h
    · cases hdup : dupFds fds with
      | none =>
        rw [dupFds] at hdup
        simp [dupFds, hdup] at h
      | some rest =>
        rw [dupFds] at hdup
        simp only [dupFds, List.mapM_cons, hdup, Option.bind_eq_bind, Option.bind_some,
          Option.pure_def, Option.some.injEq] at h
        rw [← h, List.map_cons, ← ih hdup]

/-- **A message that passes the checks of the sender is one for the receiver**, with its
descriptors.

**Proof sketch.** `prepare` has marshalled the header, seen that there are not too many descriptors
and duplicated all of them. So the header of the message declares their number, which does not wrap;
the body that is received is the one that was sent and passes `validate`; and the bytes decode to
the message by `decodeRaw_headerBytes`. -/
lemma exists_incoming {R : Rustbus} (hR : R.Conforms) {s : SendState} {m : MarshalledMessage}
    {serial : NonZeroU32} {out : RawOut} (hprep : prepare R s m serial = .ok out)
    (hm : Sent R m) : ∃ i : Incoming R, i.Of (m, serial) := by
  have hheader : m.marshalHeader R serial = .ok (m.headerBytes serial) := by
    rcases m.marshalHeader_eq R serial with ⟨-, -, heq⟩ | ⟨-, hnames⟩
    · exact heq
    · rw [hm.names] at hnames
      cases hnames
  simp only [prepare, hheader] at hprep
  split_ifs at hprep with hmany
  have hfew : m.body.rawFds.length ≤ dbusMaxFdMessage := by
    by_contra hlt
    exact hmany (by simp; omega)
  cases hdup : dupFds m.body.rawFds with
  | none => simp [hdup] at hprep
  | some files =>
    have hdeclares : ((m.received serial).2.1.numFds.getD 0).toNat = m.body.rawFds.length := by
      have hlen : (UInt32.ofNat m.body.rawFds.length).toNat = m.body.rawFds.length := by
        rw [UInt32.toNat_ofNat']
        exact Nat.mod_eq_of_lt (Nat.lt_of_le_of_lt hfew (by decide))
      show (m.decodedHeader.numFds.getD 0).toNat = _
      by_cases hzero : UInt32.ofNat m.body.rawFds.length = 0
      · rw [← hlen, hzero]
        simp [MarshalledMessage.decodedHeader, hzero]
      · simp [MarshalledMessage.decodedHeader, hzero, hlen]
    have hvalid : (RecvState.mmFromRaw (m.received serial) m.body.rawFds).body.validate R =
        .ok () := by
      have hsig := (m.receivedAs_received serial hR hm.body).sig
      have hbody : (RecvState.mmFromRaw (m.received serial) m.body.rawFds).body = m.body := by
        show _ = (⟨m.body.buf, m.body.sig, m.body.rawFds, m.body.byteorder⟩ :
          MarshalledMessageBody)
        rw [← hsig]
        rfl
      rw [hbody]
      exact hm.body
    refine ⟨⟨m.headerBytes serial ++ m.body.buf, m.body.rawFds, m.received serial,
      m.decodeRaw_headerBytes hR serial true hm.typ hm.names hm.body (.inl rfl) hm.bodyLen
        hm.fieldLen, hdeclares, hfew, hvalid⟩, (hm.messageBytes_eq serial).symm, rfl, ?_, rfl⟩
    rw [packet, hdup]
    exact eq_of_dupFds hdup

/-- Messages that are written later stand behind those to come. -/
lemma RecvState.Midway.append {R : Rustbus} {s : RecvState} {got input : Bytes}
    {ms : List (Incoming R)} (h : RecvState.Midway R s got input ms) (more : List (Incoming R)) :
    RecvState.Midway R s got (input ++ Incoming.wire more) (ms ++ more) := by
  have hstream : got ++ (input ++ Incoming.wire more) = Incoming.wire (ms ++ more) := by
    rw [← List.append_assoc, h.stream]
    simp [Incoming.wire]
  cases ms with
  | nil =>
    have hnil : got = [] := (List.append_eq_nil_iff.mp h.stream).1
    refine ⟨h.withFd, h.left, h.remLoc, h.bounded, h.continues, h.need, hstream, fun m _ _ => ?_,
      h.noFds, fun _ _ _ hne => absurd hnil hne⟩
    rw [hnil]
    exact m.length_pos
  | cons m₀ ms =>
    refine ⟨h.withFd, h.left, h.remLoc, h.bounded, h.continues, h.need, hstream, ?_, h.noFds, ?_⟩
    · intro m ms' hm
      obtain ⟨rfl, -⟩ := List.cons.inj hm
      exact h.inside m₀ ms rfl
    · intro m ms' hm hne
      obtain ⟨rfl, -⟩ := List.cons.inj hm
      exact h.fds m₀ ms rfl hne

/-- A read takes bytes that are there.

**Proof sketch.** By induction on the script. A read takes at most the bytes that are there, and the
reads after it find the rest of them; a read that takes none is the last one. -/
lemma RecvState.left_of_mem_loopReads (R : Rustbus) (script : List RecvEvent) (s : RecvState)
    (input : Bytes) : ∀ r ∈ RecvState.loopReads R script s input,
      r.gotten ≤ r.left ∧ r.left ≤ input.length := by
  have hblocked : ∀ r ∈ [(⟨input.length, s.offered, 0, []⟩ : Read)],
      r.gotten ≤ r.left ∧ r.left ≤ input.length := by
    intro r hr
    rw [List.mem_singleton.mp hr]
    exact ⟨Nat.zero_le _, Nat.le_refl _⟩
  induction script generalizing s input with
  | nil => exact hblocked
  | cons ev script ih =>
    cases ev with
    | wouldBlock => exact hblocked
    | eof => exact hblocked
    | err => exact hblocked
    | data n fds =>
      obtain ⟨k, hk⟩ : ∃ k, k = min (n + 1) (min s.offered input.length) := ⟨_, rfl⟩
      by_cases hzero : k = 0
      · simp only [loopReads, ← hk, if_pos hzero]
        exact hblocked
      · obtain ⟨result, s', shut', hchunk⟩ :=
          handleChunk_socket R (s.receive (input.take k) fds)
        intro r hr
        simp only [loopReads, ← hk, if_neg hzero, hchunk] at hr
        rcases List.mem_cons.mp hr with rfl | hr
        · exact ⟨by dsimp only; omega, Nat.le_refl _⟩
        · cases result with
          | some res => cases hr
          | none =>
            have hrest := ih s' (input.drop k) (fun r hr => by
              rw [List.mem_singleton.mp hr]
              exact ⟨Nat.zero_le _, Nat.le_refl _⟩) r hr
            rw [List.length_drop] at hrest
            omega

/-- A read of a call takes bytes that are there. -/
lemma RecvState.left_of_mem_callReads (R : Rustbus) (s : RecvState) (sock : Socket) :
    ∀ r ∈ RecvState.callReads R s sock, r.gotten ≤ r.left ∧ r.left ≤ sock.input.length := by
  intro r hr
  unfold callReads tryGetMsg at hr
  generalize tryBlock R s = res at hr
  rcases res with ⟨(_ | raw) | e | _, s'⟩
  · simp only at hr
    split_ifs at hr
    · cases hr
    · exact left_of_mem_loopReads R _ s' sock.input r hr
  all_goals cases hr

/-! ## Runs -/

namespace Link

/-- The stream hands over the descriptors of a write with the read of its first byte. -/
def HandsOver (l : Link) (reads : List Read) : Prop :=
  ∀ r ∈ reads, r.fds = fdsOfWrites (l.sender.stream.sent.length - r.left)
    (l.sender.stream.sent.length - r.left + r.gotten) (carrying 0 l.sender.stream.log)

/-- A call on a stream that works: messages that can be read are written, one without descriptors
only while no queued message has descriptors to send, and the stream reports no error and hands
descriptors over. -/
def FdRegular (R : Rustbus) (l : Link) : LinkOp → Prop
  | .write msg serial answers => msg.Deliverable R ∧
      Tracked.FdSafe l.sender.state (.write msg serial) ∧ ∀ ev ∈ answers, ev ≠ .err
  | .finish answers => ∀ ev ∈ answers, ev ≠ .err
  | .receive answers => IsSchedule false answers ∧
      l.HandsOver (RecvState.callReads R l.receiver ⟨l.wire, answers, l.shut⟩)

/-- All calls of a run are such calls. -/
def FdRegularRun (R : Rustbus) : Link → List LinkOp → Prop
  | _, [] => True
  | l, op :: ops => FdRegular R l op ∧ FdRegularRun R (l.step R op) ops

/-- The invariant: the sender is sound, the messages written are those returned (`done`) and those
to come (`ms`), and the receiver is inside the first of the latter. -/
structure DeliversFds (R : Rustbus) (l : Link) (done ms : List (Incoming R)) (got : Bytes) :
    Prop where
  balanced : l.sender.Balanced
  senderFd : l.sender.state.withFd = true
  messages : l.sender.messages = l.written.map fun w => packet R w.1 w.2
  sent : ∀ w ∈ l.written, Sent R w.1
  incoming : List.Forall₂ Incoming.Of (done ++ ms) l.written
  returned : l.returned = done.map fun m => .ok m.message
  midway : RecvState.Midway R l.receiver got (l.wire ++ pending l.sender.state.queue) ms
  shut : l.shut = false

variable {R : Rustbus} {l : Link} {done ms : List (Incoming R)} {got : Bytes}

/-- The start. -/
lemma deliversFds_new (R : Rustbus) (remCap : ℕ) : DeliversFds R (new true remCap) [] [] [] :=
  ⟨Tracked.balanced_new true (by simp), rfl, rfl, by simp [new], .nil, rfl,
    RecvState.midway_new remCap [], rfl⟩

/-- **A call of the sender keeps the invariant**: new messages stand behind those to come, and the
bytes that it had accepted move from its queue to the stream.

**Proof sketch.** The bytes accepted by the call and those still pending are the ones that were
pending and the new messages, because the sender is balanced before and after. So the bytes in
flight and the pending ones get the new messages at their end, and the receiver is midway in a
longer stream (`Midway.append`). -/
lemma DeliversFds.afterSend (h : DeliversFds R l done ms got) {c : Tracked}
    {messages : List (MarshalledMessage × NonZeroU32)} {more : List (Incoming R)}
    (hbal : c.Balanced) (hfd : c.state.withFd = true) (hlog : l.sender.stream.log <+: c.stream.log)
    (hmessages : c.messages = l.sender.messages ++ messages.map fun w => packet R w.1 w.2)
    (hsent : ∀ w ∈ messages, Sent R w.1) (hmore : List.Forall₂ Incoming.Of more messages) :
    DeliversFds R (l.afterSend c messages) done (ms ++ more) got := by
  obtain ⟨log, hlog⟩ := hlog
  have hbytes : c.stream.sent = l.sender.stream.sent ++ log.flatMap Prod.fst := by
    rw [OutStream.sent, OutStream.sent, ← hlog, List.flatMap_append]
  -- the bytes accepted and those still pending are the former ones and the new messages
  have hpending : log.flatMap Prod.fst ++ pending c.state.queue =
      pending l.sender.state.queue ++ Incoming.wire more := by
    have hafter := hbal.ledger.bytes
    rw [hmessages, List.flatMap_append, ← h.balanced.ledger.bytes, ← Incoming.wire_of hmore,
      show logged c.stream.log = c.stream.sent from rfl, hbytes, List.append_assoc,
      List.append_assoc] at hafter
    exact List.append_cancel_left hafter
  have hwire : l.wire ++ c.stream.sent.drop l.sender.stream.sent.length ++ pending c.state.queue =
      l.wire ++ pending l.sender.state.queue ++ Incoming.wire more := by
    rw [hbytes, List.drop_left, List.append_assoc, hpending, List.append_assoc]
  refine ⟨hbal, hfd, ?_, ?_, ?_, h.returned, ?_, h.shut⟩
  · show c.messages = _
    rw [hmessages, h.messages]
    exact List.map_append.symm
  · intro w hw
    rcases List.mem_append.mp hw with hw | hw
    · exact h.sent w hw
    · exact hsent w hw
  · rw [← List.append_assoc]
    exact List.rel_append h.incoming hmore
  · show RecvState.Midway R l.receiver got
      (l.wire ++ c.stream.sent.drop l.sender.stream.sent.length ++ pending c.state.queue) _
    rw [hwire]
    exact h.midway.append more

/-- The bytes in flight have been accepted. -/
lemma DeliversFds.wire_le (h : DeliversFds R l done ms got) :
    l.wire.length ≤ l.sender.stream.sent.length := by
  have htotal := congrArg List.length (Incoming.wire_of h.incoming)
  have hms := congrArg List.length h.midway.stream
  rw [← h.messages, ← h.balanced.ledger.bytes] at htotal
  simp only [Incoming.wire, List.flatMap_append, List.length_append] at htotal hms
  show _ ≤ (logged l.sender.stream.log).length
  omega

/-- What the stream hands over is what the receiver expects. -/
lemma DeliversFds.handsOver (h : DeliversFds R l done ms got) {reads : List Read}
    (hreads : ∀ r ∈ reads, r.gotten ≤ r.left ∧ r.left ≤ l.wire.length) (hover : l.HandsOver reads) :
    RecvState.HandsOver (done ++ ms)
      (reads.map (Read.behind (pending l.sender.state.queue).length)) := by
  intro r hr
  obtain ⟨read, hread, rfl⟩ := List.mem_map.mp hr
  obtain ⟨hgotten, hleft⟩ := hreads read hread
  exact (hover read hread).trans (fdsBetween_eq_fdsOfWrites h.balanced h.incoming h.messages hgotten
    (hleft.trans h.wire_le)).symm

/-- **A call of the receiver keeps the invariant.**  It does what it would do with the pending
bytes of the sender behind those in flight (`getNextMessage_frame`), so it stays inside the
messages to come.

**Proof sketch.** By `getNextMessage_frame` the call is one on a longer input, of the bytes in
flight and the pending ones, on which the receiver is midway; the descriptors handed over are those
that it expects (`handsOver`). `getNextMessage_fds` gives the two ways the call ends: it blocks in
the middle, or it returns the first message to come. -/
lemma DeliversFds.receive (h : DeliversFds R l done ms got) (hR : R.Conforms)
    {answers : List RecvEvent} (hanswers : IsSchedule false answers)
    (hover : l.HandsOver (RecvState.callReads R l.receiver ⟨l.wire, answers, l.shut⟩)) :
    ∃ done ms got, DeliversFds R (l.step R (.receive answers)) done ms got := by
  obtain ⟨script₁, hsched, ⟨script', hsame⟩, hreads⟩ :=
    RecvState.getNextMessage_frame (R := R) l.receiver ⟨l.wire, answers, l.shut⟩ h.shut
  have hover' : RecvState.HandsOver (done ++ ms) (RecvState.callReads R l.receiver
      ⟨l.wire ++ pending l.sender.state.queue, script₁, false⟩) := by
    rw [hreads]
    exact h.handsOver (RecvState.left_of_mem_callReads R l.receiver _) hover
  have hmidway : RecvState.Midway R l.receiver got
      (⟨l.wire ++ pending l.sender.state.queue, script₁, false⟩ : Socket).input ms := h.midway
  obtain ⟨-, hcall⟩ := RecvState.getNextMessage_fds hR.reads_fixed_part done hmidway rfl
    (hsched false hanswers) hover'
  simp only [step]
  rw [hsame] at hcall
  generalize RecvState.getNextMessage R l.receiver ⟨l.wire, answers, l.shut⟩ = res at hcall ⊢
  obtain ⟨r, s', input, script, shut⟩ := res
  simp only at hcall ⊢
  generalize hres : (r, s', (⟨input ++ pending l.sender.state.queue, script', shut⟩ : Socket)) = res
    at hcall
  cases hcall with
  | blocked s'' got' sock'' hmid hsock hless =>
    obtain ⟨rfl, rfl, rfl⟩ := hres
    refine ⟨done, ms, got', h.balanced, h.senderFd, h.messages, h.sent, h.incoming, ?_, hmid,
      hsock.shut⟩
    rw [← h.returned]
    exact List.append_nil _
  | message m ms' s'' sock'' hms hmid hsock =>
    obtain ⟨rfl, rfl, rfl⟩ := hres
    subst hms
    refine ⟨done ++ [m], ms', [], h.balanced, h.senderFd, h.messages, h.sent, ?_, ?_, hmid,
      hsock.shut⟩
    · rw [List.append_assoc]
      exact h.incoming
    · rw [List.map_append, ← h.returned]
      rfl

/-- **One regular call keeps the invariant.**

**Proof sketch.** By the call. `write_next_message` refuses the message, writes it or queues it
(`Tracked.write_cases`), and an accepted message is one for the receiver (`exists_incoming`);
`finish_sending_next` adds no message. Both are steps of `DeliversFds.afterSend`, and a call of the
receiver is `DeliversFds.receive`. -/
lemma DeliversFds.step (h : DeliversFds R l done ms got) (hR : R.Conforms) (op : LinkOp)
    (hop : FdRegular R l op) : ∃ done ms got, DeliversFds R (l.step R op) done ms got := by
  have hanswered : ∀ {answers : List SendEvent}, (∀ ev ∈ answers, ev ≠ .err) →
      (l.sender.answered answers).Balanced :=
    fun hanswers => ⟨h.balanced.ledger, hanswers, h.balanced.fds⟩
  cases op with
  | write msg serial answers =>
    obtain ⟨hmsg, hsafe, hanswers⟩ := hop
    obtain ⟨hbal, hlog, hcases⟩ := Tracked.write_cases (R := R) (hanswered hanswers) msg serial
      (.inr hsafe)
    rcases hcases with ⟨e, heq⟩ | ⟨stream, heq⟩ | ⟨queue, stream, -, -, heq⟩
    · have hstep : l.step R (.write msg serial answers) =
          l.afterSend (l.sender.answered answers) [] := by
        simp only [Link.step, heq]
      rw [hstep]
      exact ⟨_, _, _, h.afterSend (hanswered hanswers) h.senderFd List.prefix_rfl
        (List.append_nil _).symm (by simp) .nil⟩
    all_goals
      obtain ⟨hnames, out, hprep⟩ := prepare_of_write heq
      obtain ⟨i, hi⟩ := exists_incoming hR hprep ⟨hmsg, hnames⟩
      simp only [Link.step, heq]
      rw [heq] at hbal hlog
      exact ⟨_, _, _, h.afterSend hbal h.senderFd hlog rfl (by simpa using ⟨hmsg, hnames⟩)
        (.cons hi .nil)⟩
  | finish answers =>
    obtain ⟨queue, stream, heq, hbal, hlog, -⟩ := Tracked.finish_cases (hanswered hop)
    simp only [Link.step]
    refine ⟨_, _, _, h.afterSend hbal ?_ ?_ ?_ (by simp) .nil⟩
    · rw [heq]
      exact h.senderFd
    · rw [heq]
      exact hlog
    · rw [heq]
      exact (List.append_nil _).symm
  | receive answers => exact h.receive hR hop.1 hop.2

/-- A run of regular calls keeps the invariant. -/
lemma deliversFds_run (hR : R.Conforms) (ops : List LinkOp) (hops : FdRegularRun R l ops)
    (h : DeliversFds R l done ms got) :
    ∃ done ms got, DeliversFds R (run R l ops) done ms got := by
  induction ops generalizing l done ms got with
  | nil => exact ⟨done, ms, got, h⟩
  | cons op ops ih =>
    obtain ⟨done', ms', got', h'⟩ := h.step hR op hops.1
    exact ih hops.2 h'

/-! ## What arrives -/

/-- A result is the message that was written with a serial, with its descriptors. -/
def ArrivedWithFds (r : Res RecvError MarshalledMessage) (w : MarshalledMessage × NonZeroU32) :
    Prop :=
  ∃ m', r = .ok m' ∧ w.1.ReceivedAs w.2 m' ∧ m'.body.rawFds = w.1.body.rawFds

/-- Messages that the receiver returns have arrived. -/
lemma forall₂_arrivedWithFds (hR : R.Conforms) {ms : List (Incoming R)}
    {written : List (MarshalledMessage × NonZeroU32)} (h : List.Forall₂ Incoming.Of ms written)
    (hsent : ∀ w ∈ written, Sent R w.1) :
    List.Forall₂ ArrivedWithFds (ms.map fun m => .ok m.message) written := by
  induction h with
  | nil => exact .nil
  | @cons m w ms written hm _ ih =>
    refine .cons ⟨m.message, rfl, ?_, hm.fds⟩ (ih fun w hw => hsent w (List.mem_cons_of_mem _ hw))
    have hsame := w.1.receivedAs_received w.2 hR (hsent w List.mem_cons_self).body
    rw [Incoming.message, hm.raw]
    exact ⟨hsame.typ, hsame.flags, hsame.byteorder, hsame.buf, hsame.sig, hsame.interface,
      hsame.member, hsame.object, hsame.destination, hsame.sender, hsame.errorName,
      hsame.responseSerial, hsame.serial, hsame.signature⟩

/-- A receiver that is inside a message has bytes to come. -/
lemma DeliversFds.eq_nil (h : DeliversFds R l done ms got)
    (hqueue : l.sender.state.queue = []) (hwire : l.wire = []) : ms = [] := by
  have hmid := h.midway
  rw [hqueue, hwire, show ([] : Bytes) ++ pending [] = [] from rfl] at hmid
  cases ms with
  | nil => rfl
  | cons m ms =>
    obtain ⟨rest, -, hne, hrest⟩ := hmid.rest
    exact absurd (List.append_eq_nil_iff.mp hrest.symm).1 hne

/-- **Messages arrive in order, each with its own descriptors.**  In every run of two connections
with descriptors on a stream that works, in which only messages are written that the receiver can
read and none without descriptors behind one that has some to send (`FdRegularRun`), however the
calls follow each other and the bytes are cut: no result is an error, and the messages returned
are the first of those whose writes succeeded, in order, each as it was written and with exactly
its descriptors; and they are all of them once nothing is queued or in flight. -/
theorem run_delivers_fds (hR : R.Conforms) (remCap : ℕ) (ops : List LinkOp)
    (hops : FdRegularRun R (new true remCap) ops) :
    let l := run R (new true remCap) ops
    ∃ got, got <+: l.written ∧ List.Forall₂ ArrivedWithFds l.returned got ∧
      (l.sender.state.queue = [] → l.wire = [] → got = l.written) := by
  intro l
  obtain ⟨done, ms, got, h⟩ : ∃ done ms got, DeliversFds R l done ms got :=
    deliversFds_run hR ops hops (deliversFds_new R remCap)
  have hdone : List.Forall₂ Incoming.Of done (l.written.take done.length) :=
    (List.forall₂_take_append _ _ _ h.incoming.flip).flip
  refine ⟨l.written.take done.length, List.take_prefix _ _, ?_, fun hqueue hwire => ?_⟩
  · rw [h.returned]
    exact forall₂_arrivedWithFds hR hdone fun w hw => h.sent w (List.mem_of_mem_take hw)
  · have hall := h.incoming.length_eq
    rw [h.eq_nil hqueue hwire, List.append_nil] at hall
    exact List.take_of_length_le (Nat.le_of_eq hall.symm)

/-- Two messages with a descriptor each, the second queued behind a part of the first; the reads
are cut inside both.

**Proof sketch.** The conditions on the six calls are decided one by one, and `run_delivers_fds` is
applied to the run. -/
theorem run_delivers_fds_two :
    let ops := [
      LinkOp.write (Sending.plainSignal [⟨some 7⟩]) ⟨1, by decide⟩ [.accept 3, .wouldBlock],
      .receive [.data 40 [⟨some 7⟩]],
      .write (Sending.plainSignal [⟨some 8⟩]) ⟨2, by decide⟩ [],
      .finish [.accept 100, .accept 100], .receive [.data 40 [], .data 40 []],
      .receive [.data 2 [⟨some 8⟩], .data 40 [], .data 40 []]]
    let l := run .reference (new true 0) ops
    l.returned.length = 2 ∧ ∃ got, got <+: l.written ∧ List.Forall₂ ArrivedWithFds l.returned got ∧
      (l.sender.state.queue = [] → l.wire = [] → got = l.written) := by
  intro ops l
  have hfirst : (Sending.plainSignal [⟨some 7⟩]).Deliverable .reference :=
    ⟨by decide, by decide, by decide, by decide⟩
  have hsecond : (Sending.plainSignal [⟨some 8⟩]).Deliverable .reference :=
    ⟨by decide, by decide, by decide, by decide⟩
  refine ⟨by decide, run_delivers_fds Rustbus.reference_conforms 0 ops ?_⟩
  refine ⟨⟨hfirst, nofun, by decide⟩, ⟨by decide, ?_⟩, ⟨hsecond, nofun, by decide⟩, ?_,
    ⟨by decide, ?_⟩, ⟨by decide, ?_⟩, trivial⟩
  · unfold HandsOver
    decide
  · unfold FdRegular
    decide
  · unfold HandsOver
    decide
  · unfold HandsOver
    decide

end Link

end AsyncRustbus
