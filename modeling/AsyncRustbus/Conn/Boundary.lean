import AsyncRustbus.Conn.Offered

set_option relaxedAutoImplicit false
set_option autoImplicit false

/-!
# Failed writes (`conn/sender.rs`)

`write_next_message` keeps the progress of its message in a local variable until the message goes
into the queue.  An error of the stream drops it, and with it the rest of a message of which the
stream may have accepted the first bytes.

## Main definitions

* `AsyncRustbus.SendState.msgAccepted` — how many bytes of the new message the stream accepts.
* `AsyncRustbus.Remainder` — what is left of a queue when some bytes of it are accepted.
* `AsyncRustbus.SendState.AtBoundary` — what a failed write should leave.
* `AsyncRustbus.SendState.StaysInQueue` — no answer of the stream reaches the new message.

## Main results

* `AsyncRustbus.SendState.msgAccepted_eq_zero_iff` — when no byte of the message is accepted.
* `AsyncRustbus.SendState.writeLoop_remainder` — what the queue keeps then.
* `AsyncRustbus.Sending.failedWrite_boundary` — when a failed write leaves the stream at a message
  boundary, and what that says about later calls.
-/

namespace AsyncRustbus

/-! ## What is left of a queue -/

/-- The stream has accepted `bytes` of `queue` and `queue'` is left: the messages at the front are
sent in full, the next one is as it was or short of its first unsent bytes, and the others are as
they were. -/
def Remainder (queue queue' : List RawOut) (bytes : Bytes) : Prop :=
  ∃ pre rest, queue = pre ++ rest ∧
    ((bytes = pending pre ∧ queue' = rest) ∨
      ∃ out tail n, rest = out :: tail ∧ 0 < n ∧ n < out.toWrite ∧
        bytes = pending pre ++ out.unsent.take n ∧
        queue' = { out with written := out.written + n } :: tail)

/-- Nothing is accepted. -/
lemma Remainder.refl (queue : List RawOut) : Remainder queue queue [] :=
  ⟨[], queue, rfl, .inl ⟨rfl, rfl⟩⟩

/-- Crediting a write leaves what is not accepted. -/
lemma Remainder.updateWritten (queue : List RawOut) {k : ℕ} (hk : k ≤ (pending queue).length) :
    Remainder queue (updateWritten queue k).2 ((pending queue).take k) := by
  obtain ⟨pre, rest, rfl, hcase⟩ := updateWritten_cases queue k hk
  refine ⟨pre, rest, rfl, ?_⟩
  rw [pending_append]
  rcases hcase with ⟨hlen, heq⟩ | ⟨out, tail, n, rfl, hn, hlt, hlen, heq⟩
  · exact .inl ⟨by rw [hlen, List.take_left], heq⟩
  · refine .inr ⟨out, tail, n, rfl, hn, hlt, ?_, heq⟩
    have hle : n ≤ out.unsent.length := by
      rw [out.length_unsent]
      omega
    rw [hlen, List.take_length_add_append]
    congr 1
    exact List.take_append_of_le_length hle

/-- The bytes accepted and those left of a queue whose messages `pre` are sent in full and whose
next message is credited in part. -/
private lemma pending_credited (pre tail : List RawOut) (out : RawOut) (n : ℕ) :
    pending pre ++ out.unsent.take n ++
        pending ({ out with written := out.written + n } :: tail) =
      pending (pre ++ out :: tail) := by
  show pending pre ++ out.unsent.take n ++
    (({ out with written := out.written + n } : RawOut).unsent ++ pending tail) = _
  rw [out.unsent_written, List.append_assoc, ← List.append_assoc (out.unsent.take n),
    List.take_append_drop, pending_append]
  rfl

/-- The bytes accepted and those left are the bytes of the queue. -/
lemma Remainder.append_pending {queue queue' : List RawOut} {bytes : Bytes}
    (h : Remainder queue queue' bytes) : bytes ++ pending queue' = pending queue := by
  obtain ⟨pre, rest, rfl, ⟨rfl, rfl⟩ | ⟨out, tail, n, rfl, -, -, rfl, rfl⟩⟩ := h
  · exact (pending_append _ _).symm
  · exact pending_credited pre tail out n

/-- What is left is left of what was left before.

**Proof sketch.** By cases on where the first part ends and whether the second part goes beyond
the message that the first one ends in. -/
lemma Remainder.trans {q₁ q₂ q₃ : List RawOut} {b₁ b₂ : Bytes} (h₁ : Remainder q₁ q₂ b₁)
    (h₂ : Remainder q₂ q₃ b₂) : Remainder q₁ q₃ (b₁ ++ b₂) := by
  obtain ⟨pre, rest, rfl, ⟨rfl, rfl⟩ | ⟨out, tail, n, rfl, hn, hlt, rfl, rfl⟩⟩ := h₁
  · obtain ⟨pre', rest', rfl, hcase⟩ := h₂
    refine ⟨pre ++ pre', rest', by rw [List.append_assoc], ?_⟩
    rw [pending_append]
    rcases hcase with ⟨rfl, rfl⟩ | ⟨out, tail, n, rfl, hn, hlt, rfl, rfl⟩
    · exact .inl ⟨rfl, rfl⟩
    · exact .inr ⟨out, tail, n, rfl, hn, hlt, by rw [List.append_assoc], rfl⟩
  · have hwrite := out.toWrite_written n
    obtain ⟨pre', rest', hsplit, hcase⟩ := h₂
    cases pre' with
    | nil =>
      -- the second part ends in the same message
      rw [List.nil_append] at hsplit
      subst hsplit
      rcases hcase with ⟨rfl, rfl⟩ | ⟨out', tail', n', hrest, hn', hlt', rfl, rfl⟩
      · exact ⟨pre, out :: tail, rfl, .inr ⟨out, tail, n, rfl, hn, hlt, by simp [pending], rfl⟩⟩
      · obtain ⟨rfl, rfl⟩ := List.cons.inj hrest
        refine ⟨pre, out :: tail, rfl, .inr ⟨out, tail, n + n', rfl, by omega, by omega, ?_, ?_⟩⟩
        · rw [out.unsent_written, List.take_add]
          simp [pending]
        · rw [Nat.add_assoc]
    | cons out' pre' =>
      rw [List.cons_append, List.cons.injEq] at hsplit
      obtain ⟨rfl, rfl⟩ := hsplit
      -- the message is completed and the second part goes on behind it
      have hsum := pending_credited pre pre' out n
      refine ⟨pre ++ out :: pre', rest', by simp, ?_⟩
      rcases hcase with ⟨rfl, rfl⟩ | ⟨o, tail', n', rfl, hn', hlt', rfl, rfl⟩
      · exact .inl ⟨hsum, rfl⟩
      · refine .inr ⟨o, tail', n', rfl, hn', hlt', ?_, rfl⟩
        rw [← List.append_assoc, hsum]

namespace SendState

/-! ## The new message -/

/-- The bytes of the queue in a write of `write_next_message`. -/
def queuedInWrite (queue : List RawOut) : ℕ := (populate 34 queue [] []).1.flatten.length

/-- The new message is offered behind the queue. -/
def OffersMessage (queue : List RawOut) (out : RawOut) : Prop :=
  (populate 34 queue [] []).1.length ≠ 34 ∧
    (out.fds.isEmpty ∨ (populate 34 queue [] []).1.isEmpty)

instance (queue : List RawOut) (out : RawOut) : Decidable (OffersMessage queue out) :=
  inferInstanceAs (Decidable (_ ∧ _))

/-- How many bytes of the new message the stream accepts in the `loop` of `write_next_message`:
in every write those behind the bytes of the queue. -/
def msgAccepted : List SendEvent → List RawOut → RawOut → ℕ
  | .accept n :: script, queue, out =>
    let k := min (n + 1) (writeBufs queue out).1.flatten.length
    let (written, queue') := updateWritten queue k
    k - queuedInWrite queue +
      if written = 0 then msgAccepted script queue' out
      else if out.written + written = out.header.length + out.body.length then 0
      else msgAccepted script queue' { out with written := out.written + written }
  | _, _, _ => 0

/-- No answer of the stream, up to the first one that is not an accepted write, reaches beyond the
bytes of the queue in a write that offers the new message behind them. -/
def StaysInQueue (out : RawOut) : List SendEvent → List RawOut → Prop
  | .accept n :: script, queue =>
    (OffersMessage queue out → n + 1 ≤ queuedInWrite queue) ∧
      StaysInQueue out script (updateWritten queue (min (n + 1) (queuedInWrite queue))).2
  | _, _ => True

/-- Whether the answers stay inside the queue can be computed. -/
def StaysInQueue.decidable (out : RawOut) :
    ∀ script queue, Decidable (StaysInQueue out script queue)
  | [], _ => .isTrue trivial
  | .wouldBlock :: _, _ => .isTrue trivial
  | .err :: _, _ => .isTrue trivial
  | .accept _ :: script, _ =>
    have := StaysInQueue.decidable out script
    inferInstanceAs (Decidable (_ ∧ _))

instance (out : RawOut) (script : List SendEvent) (queue : List RawOut) :
    Decidable (StaysInQueue out script queue) := StaysInQueue.decidable out script queue

/-- The bytes of the queue in a write are pending. -/
private lemma populate_le_pending (queue : List RawOut) :
    (populate 34 queue [] []).1.flatten <+: pending queue := by
  obtain ⟨-, -, t, hflat, -⟩ := populate_spec 34 queue [] [] (by simp)
  exact ⟨t, hflat⟩

/-- A write that does not offer the new message. -/
private lemma writeBufs_of_not {queue : List RawOut} {out : RawOut}
    (h : ¬ OffersMessage queue out) : writeBufs queue out = populate 34 queue [] [] := by
  simp only [writeBufs]
  exact if_neg h

/-- A write that does. -/
private lemma writeBufs_of_offers {queue : List RawOut} {out : RawOut}
    (h : OffersMessage queue out) :
    (writeBufs queue out).1 = pushBufs 34 out.outBufsLeft (populate 34 queue [] []).1 := by
  simp only [writeBufs]
  exact congrArg Prod.fst (if_pos h)

/-- The bytes of the queue come first in a write. -/
private lemma populate_prefix_writeBufs (queue : List RawOut) (out : RawOut) :
    (populate 34 queue [] []).1.flatten <+: (writeBufs queue out).1.flatten := by
  by_cases hoffers : OffersMessage queue out
  · obtain ⟨l, hl⟩ := prefix_pushBufs 34 out.outBufsLeft (populate 34 queue [] []).1
    rw [writeBufs_of_offers hoffers, ← hl, List.flatten_append]
    exact List.prefix_append _ _
  · rw [writeBufs_of_not hoffers]

/-- A write that offers the new message offers bytes of it. -/
private lemma queuedInWrite_lt {queue : List RawOut} {out : RawOut} (hout : out.Open)
    (hoffers : OffersMessage queue out) :
    queuedInWrite queue < (writeBufs queue out).1.flatten.length := by
  have hpos := List.length_pos_of_ne_nil (outBufsLeft_ne_nil hout.left)
  obtain ⟨t, ht⟩ := exists_pushBufs 34 out.outBufsLeft (populate 34 queue [] []).1
  rw [writeBufs_of_offers hoffers, queuedInWrite, ht]
  simp only [List.flatten_append, List.flatten_cons, List.length_append]
  omega

/-- An answer of the stream reaches no byte of the new message iff it stays inside the queue. -/
private lemma accepted_le_iff {queue : List RawOut} {out : RawOut} (hout : out.Open) (n : ℕ) :
    min (n + 1) (writeBufs queue out).1.flatten.length ≤ queuedInWrite queue ↔
      (OffersMessage queue out → n + 1 ≤ queuedInWrite queue) := by
  by_cases hoffers : OffersMessage queue out
  · have hlt := queuedInWrite_lt hout hoffers
    simp only [hoffers, forall_const]
    omega
  · simp only [hoffers, false_imp_iff, iff_true]
    rw [writeBufs_of_not hoffers]
    exact Nat.min_le_right _ _

/-- Then it accepts that many bytes of the queue. -/
private lemma accepted_eq {queue : List RawOut} {out : RawOut} {n : ℕ}
    (h : min (n + 1) (writeBufs queue out).1.flatten.length ≤ queuedInWrite queue) :
    min (n + 1) (writeBufs queue out).1.flatten.length = min (n + 1) (queuedInWrite queue) := by
  have hle : queuedInWrite queue ≤ (writeBufs queue out).1.flatten.length :=
    (populate_prefix_writeBufs queue out).length_le
  omega

/-- A write whose accepted bytes stay inside the queue leaves nothing over for the message. -/
private lemma updateWritten_left_eq_zero {queue : List RawOut} {k : ℕ}
    (hk : k ≤ queuedInWrite queue) : (updateWritten queue k).1 = 0 := by
  have hle : queuedInWrite queue ≤ (pending queue).length := (populate_le_pending queue).length_le
  rw [updateWritten_left]
  omega

/-- **No byte of the new message is accepted** iff no answer of the stream reaches it.

**Proof sketch.** Induction on the answers.  As long as nothing of the message is accepted, its
progress is what it was and the queue is credited with every accepted byte. -/
theorem msgAccepted_eq_zero_iff {out : RawOut} (hout : out.Open) (script : List SendEvent)
    (queue : List RawOut) : msgAccepted script queue out = 0 ↔ StaysInQueue out script queue := by
  induction script generalizing queue with
  | nil => simp [msgAccepted, StaysInQueue]
  | cons ev script ih =>
    cases ev with
    | wouldBlock => simp [msgAccepted, StaysInQueue]
    | err => simp [msgAccepted, StaysInQueue]
    | accept n =>
      simp only [msgAccepted, StaysInQueue]
      rw [Nat.add_eq_zero_iff, Nat.sub_eq_zero_iff_le, ← accepted_le_iff hout n]
      refine and_congr_right fun hle => ?_
      rw [if_pos (updateWritten_left_eq_zero hle), accepted_eq hle]
      exact ih _

/-- **What a failed loop leaves of the queue** where no answer of the stream reaches the message:
all that the stream accepts is taken off its front.

**Proof sketch.** Induction on the answers: what a write accepts are the first pending bytes, and
crediting them leaves the others. -/
theorem writeLoop_remainder {out : RawOut} (hout : out.Open) {script : List SendEvent}
    {queue queue' : List RawOut} {log : List (Bytes × List ℕ)} {stream' : OutStream}
    (hstays : StaysInQueue out script queue)
    (h : writeLoop script queue out log = (.failed, queue', stream')) :
    ∃ bytes, stream'.sent = logged log ++ bytes ∧ Remainder queue queue' bytes := by
  induction script generalizing queue log with
  | nil => cases h
  | cons ev script ih =>
    cases ev with
    | wouldBlock => cases h
    | err =>
      cases h
      exact ⟨[], (List.append_nil _).symm, .refl _⟩
    | accept n =>
      obtain ⟨hfirst, hrest⟩ := hstays
      have hle := (accepted_le_iff hout n).mpr hfirst
      have heq := accepted_eq hle
      have hqueued : min (n + 1) (queuedInWrite queue) ≤
          (populate 34 queue [] []).1.flatten.length := Nat.min_le_right _ _
      have htake : (writeBufs queue out).1.flatten.take (min (n + 1) (queuedInWrite queue)) =
          (pending queue).take (min (n + 1) (queuedInWrite queue)) := by
        obtain ⟨t, ht⟩ := populate_le_pending queue
        obtain ⟨t', ht'⟩ := populate_prefix_writeBufs queue out
        rw [← ht, ← ht', List.take_append_of_le_length hqueued,
          List.take_append_of_le_length hqueued]
      simp only [writeLoop] at h
      rw [if_pos (updateWritten_left_eq_zero hle), heq] at h
      obtain ⟨bytes, hsent, hrem⟩ := ih hrest h
      have hpend := hqueued.trans (populate_le_pending queue).length_le
      refine ⟨_, ?_, (Remainder.updateWritten queue hpend).trans hrem⟩
      rw [hsent, logged_accept, htake, List.append_assoc]

/-! ## A failed call -/

/-- How many bytes of its message the stream accepts in a call of `write_next_message`. -/
def msgBytesAccepted (R : Rustbus) (s : SendState) (stream : OutStream) (msg : MarshalledMessage)
    (serial : NonZeroU32) : ℕ :=
  match prepare R s msg serial with
  | .error _ => 0
  | .ok out => msgAccepted stream.script s.queue out

/-- What a failed `write_next_message` should leave.  No byte of the message is accepted; what is
accepted are bytes of the queue, which keeps the rest of them and does not hold the message; and
the tokens, which count the queue from its end, are what they were. -/
structure AtBoundary (R : Rustbus) (s : SendState) (stream : OutStream) (msg : MarshalledMessage)
    (serial : NonZeroU32) (s' : SendState) (stream' : OutStream) : Prop where
  message : msgBytesAccepted R s stream msg serial = 0
  queue : ∃ bytes, stream'.sent = stream.sent ++ bytes ∧ Remainder s.queue s'.queue bytes
  token : s'.idx = s.idx

/-- The answers of the stream to a call of `write_next_message` stay inside the queue. -/
def SparesMessage (R : Rustbus) (s : SendState) (stream : OutStream) (msg : MarshalledMessage)
    (serial : NonZeroU32) : Prop :=
  ∀ out, prepare R s msg serial = .ok out → StaysInQueue out stream.script s.queue

instance (R : Rustbus) (s : SendState) (stream : OutStream) (msg : MarshalledMessage)
    (serial : NonZeroU32) : Decidable (SparesMessage R s stream msg serial) :=
  match h : prepare R s msg serial with
  | .error _ => .isTrue fun _ hout => by simp [h] at hout
  | .ok out =>
    decidable_of_iff (StaysInQueue out stream.script s.queue) (by simp [SparesMessage, h])

/-- **When a failed write leaves the stream at a message boundary.**

**Proof sketch.** A message that `prepare` refuses writes nothing, and both sides hold. For a
prepared one the number of its bytes that are accepted is zero iff it stays in the queue
(`msgAccepted_eq_zero_iff`), which is one direction; for the other, `writeLoop_remainder` gives what
the stream ends with. -/
lemma atBoundary_iff_sparesMessage {R : Rustbus} {s s' : SendState} {stream stream' : OutStream}
    {msg : MarshalledMessage} {serial : NonZeroU32} {e : SendError}
    (h : s.writeNextMessage R stream msg serial = (.error e, s', stream')) :
    AtBoundary R s stream msg serial s' stream' ↔ SparesMessage R s stream msg serial := by
  cases hprep : prepare R s msg serial with
  | error e' =>
    have hout : SparesMessage R s stream msg serial := by
      intro out hout
      rw [hprep] at hout
      cases hout
    simp only [writeNextMessage, hprep] at h
    cases h
    refine iff_of_true ⟨?_, ⟨[], (List.append_nil _).symm, .refl _⟩, rfl⟩ hout
    simp only [msgBytesAccepted, hprep]
  | ok out =>
    have hopen := (Sending.prepare_spec hprep).1
    have hspares : SparesMessage R s stream msg serial ↔
        StaysInQueue out stream.script s.queue := by
      simp only [SparesMessage, hprep, Except.ok.injEq, forall_eq']
    have hcount : msgBytesAccepted R s stream msg serial =
        msgAccepted stream.script s.queue out := by
      simp only [msgBytesAccepted, hprep]
    rw [hspares]
    refine ⟨fun hb => ?_, fun hstays => ?_⟩
    · exact (msgAccepted_eq_zero_iff hopen _ _).mp (hcount ▸ hb.message)
    · rcases hloop : writeLoop stream.script s.queue out stream.log with ⟨wend, queue', st⟩
      simp only [writeNextMessage, hprep, hloop] at h
      cases wend with
      | written => cases h
      | blocked out' => cases h
      | failed =>
        cases h
        exact ⟨hcount.trans ((msgAccepted_eq_zero_iff hopen _ _).mpr hstays),
          writeLoop_remainder hopen hstays hloop, rfl⟩

end SendState

/-! ## Runs with failed writes -/

namespace Sending

/-- A write that fails has spared its message. -/
def SparesStep (R : Rustbus) (c : Sending) : SendOp → Prop
  | .write msg serial => ∀ e s' stream',
      c.state.writeNextMessage R c.stream msg serial = (.error e, s', stream') →
      c.state.SparesMessage R c.stream msg serial
  | .finish => True

/-- All failed writes of a run have. -/
def Spares (R : Rustbus) : Sending → List SendOp → Prop
  | _, [] => True
  | c, op :: ops => SparesStep R c op ∧ Spares R (step R c op) ops

variable {R : Rustbus} {c : Sending}

/-- A write that spares its message keeps the bytes of the queue. -/
lemma SparesStep.keepsBytes {op : SendOp} (h : SparesStep R c op) : KeepsBytes R c op := by
  cases op with
  | finish => trivial
  | write msg serial =>
    intro out queue' stream' hprep hfailed
    have hspares := h .io { c.state with queue := queue' } stream' (by
      simp only [SendState.writeNextMessage, hprep, hfailed])
    obtain ⟨bytes, hsent, hrem⟩ :=
      SendState.writeLoop_remainder (prepare_spec hprep).1 (hspares out hprep) hfailed
    rw [hsent, List.append_assoc, hrem.append_pending]
    rfl

/-- A run of careful calls whose failed writes spare their messages keeps the accepted bytes and
those pending the messages written. -/
lemma whole_run (ops : List SendOp) (h : c.Whole)
    (hcareful : c.state.withFd = false ∨ Careful R c ops) (hspares : Spares R c ops) :
    (run R c ops).Whole := by
  induction ops generalizing c with
  | nil => exact h
  | cons op ops ih =>
    obtain ⟨hwhole, hfd, -⟩ :=
      step_whole (R := R) h op (hcareful.imp id And.left) hspares.1.keepsBytes
    exact ih hwhole (hcareful.imp hfd.trans And.right) hspares.2

/-- **A failed write leaves the stream at a message boundary** iff no answer of the stream reaches
its message.  In a run in which this is so for every failed write, and which is careful with
descriptors, what the stream has accepted, followed by what is queued, is a sequence of whole
messages: nothing is ever put behind a truncated one. -/
theorem failedWrite_boundary (R : Rustbus) :
    (∀ (s s' : SendState) (stream stream' : OutStream) (msg : MarshalledMessage)
        (serial : NonZeroU32) (e : SendError),
      s.writeNextMessage R stream msg serial = (.error e, s', stream') →
        (s.AtBoundary R stream msg serial s' stream' ↔ s.SparesMessage R stream msg serial)) ∧
    ∀ (withFd : Bool) (script : List SendEvent) (ops : List SendOp),
      (withFd = false ∨ Careful R (new withFd script) ops) → Spares R (new withFd script) ops →
        (run R (new withFd script) ops).stream.sent ++
            pending (run R (new withFd script) ops).state.queue =
          (run R (new withFd script) ops).messages.flatten := by
  refine ⟨fun s s' stream stream' msg serial e h => SendState.atBoundary_iff_sparesMessage h, ?_⟩
  intro withFd script ops hcareful hspares
  have hnew : (new withFd script).Whole :=
    ⟨by simp [new, SendState.new], by simp [new, SendState.new], rfl⟩
  exact (whole_run ops hnew hcareful hspares).bytes

/-- The stream fails while a message waits in the queue: the second write leaves the stream at a
boundary, and the next call completes the first message. -/
theorem failedWrite_boundary_queued :
    let script := [SendEvent.accept 3, .wouldBlock, .accept 4, .err, .accept 100]
    let first := SendOp.write (plainSignal []) ⟨1, by decide⟩
    let c := step .reference (new false script) first
    let second := c.state.writeNextMessage .reference c.stream (plainSignal []) ⟨2, by decide⟩
    let c' := run .reference (new false script)
      [first, .write (plainSignal []) ⟨2, by decide⟩, .finish]
    second.1 = .error .io ∧
      c.state.AtBoundary .reference c.stream (plainSignal []) ⟨2, by decide⟩ second.2.1
        second.2.2 ∧
      c'.messages.length = 1 ∧
      c'.stream.sent ++ pending c'.state.queue = c'.messages.flatten := by
  refine ⟨by decide, ((failedWrite_boundary .reference).1 _ _ _ _ _ _ .io rfl).mpr (by decide),
    by decide, (failedWrite_boundary .reference).2 false _ _ (.inl rfl) ?_⟩
  refine ⟨?_, fun _ _ _ _ => by decide, trivial, trivial⟩
  -- the first write does not fail
  intro e s' stream' h
  have hok : Except.ok (some 0) = Except.error e := congrArg Prod.fst h
  cases hok

/-- **Bytes behind a truncated message.**  The stream accepts four bytes of the first message and
then fails; the call returns an error, and the next message is put behind the four bytes. -/
theorem failedWrite_truncates :
    let script := [SendEvent.accept 3, .err, .accept 100]
    let first := (new false script).state.writeNextMessage .reference (new false script).stream
      (plainSignal []) ⟨1, by decide⟩
    let c := run .reference (new false script) [.write (plainSignal []) ⟨1, by decide⟩,
      .write (plainSignal []) ⟨2, by decide⟩]
    first.1 = .error .io ∧
      ¬ (new false script).state.AtBoundary .reference (new false script).stream (plainSignal [])
        ⟨1, by decide⟩ first.2.1 first.2.2 ∧
      c.messages.length = 1 ∧ ¬ c.stream.sent <+: c.messages.flatten := by
  refine ⟨by decide, fun h => ?_, by decide, by decide⟩
  have hmessage := h.message
  revert hmessage
  decide

end Sending

end AsyncRustbus
