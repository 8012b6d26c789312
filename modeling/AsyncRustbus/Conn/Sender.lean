import AsyncRustbus.Message.Marshal

set_option relaxedAutoImplicit false
set_option autoImplicit false

/-!
# Sending messages (`conn/sender.rs`)

`SendState` keeps a queue of messages that the stream has not accepted in full.  Every write is
vectored: the buffers of the queue, and behind them those of a new message, are offered to
`sendmsg`, and the number of bytes it accepts is credited back to the queue by position.

## Main definitions

* `AsyncRustbus.RawOut`, `AsyncRustbus.SendState` — the queue.
* `AsyncRustbus.OutStream`, `AsyncRustbus.SendEvent` — the stream as the sender sees it.
* `AsyncRustbus.populate`, `AsyncRustbus.updateWritten` — filling a write and crediting it.
* `AsyncRustbus.SendState.finishSendingNext`, `AsyncRustbus.SendState.writeNextMessage`.
* `AsyncRustbus.pending` — the bytes of a queue that are still to be sent.

## Main results

* `AsyncRustbus.updateWritten_spec` — crediting `w` bytes drops the first `w` pending bytes.
* `AsyncRustbus.populate_spec` — the offered bytes are the first pending bytes, and all of them
  unless the vector is full or a message with descriptors stands behind other data.
-/

namespace AsyncRustbus

/-! ## The queue -/

/-- `RawOut`: a message on its way out, with the raw descriptors duplicated for it. -/
structure RawOut where
  written : ℕ
  header : Bytes
  body : Bytes
  fds : List ℕ
  deriving DecidableEq

/-- `bufs_left`. -/
def bufsLeft (written : ℕ) (header body : Bytes) : Bytes × Option Bytes :=
  if written < header.length then
    (header.drop written, if body.isEmpty then none else some body)
  else (body.drop (written - header.length), none)

namespace RawOut

/-- `RawOut::to_write`. -/
def toWrite (out : RawOut) : ℕ := out.header.length + out.body.length - out.written

/-- `RawOut::done`. -/
def done (out : RawOut) : Bool := out.toWrite = 0

/-- `RawOut::out_bufs_left`. -/
def outBufsLeft (out : RawOut) : Bytes × Option Bytes := bufsLeft out.written out.header out.body

/-- `RawOut::advance`: the bytes that are left over, and the message with the others
credited. -/
def advance (out : RawOut) (adv : ℕ) : ℕ × RawOut :=
  let firstRem := out.header.length - out.written
  let toAdv := min firstRem adv
  let adv := adv - toAdv
  let out := { out with written := out.written + toAdv }
  if adv = 0 then (0, out)
  else
    let toAdv := min out.toWrite adv
    (adv - toAdv, { out with written := out.written + toAdv })

/-- The bytes of a message that are still to be sent. -/
def unsent (out : RawOut) : Bytes := (out.header ++ out.body).drop out.written

/-- A message that carries descriptors and is not started: its descriptors are still to be
sent. -/
def fdsToSend (out : RawOut) : Bool := out.written = 0 && !out.fds.isEmpty

end RawOut

/-- The bytes of a queue that are still to be sent. -/
def pending (queue : List RawOut) : Bytes := queue.flatMap RawOut.unsent

/-- Push the buffers of a message, as far as they fit. -/
def pushBufs (cap : ℕ) (bufs : Bytes × Option Bytes) (ios : List Bytes) : List Bytes :=
  let ios := ios ++ [bufs.1]
  match bufs.2 with
  | some buf1 => if ios.length = cap then ios else ios ++ [buf1]
  | none => ios

/-- `populate` with room for `cap` buffers.  The descriptors of a message are only added where
its buffers come first. -/
def populate (cap : ℕ) : List RawOut → List Bytes → List ℕ → List Bytes × List ℕ
  | [], ios, anc => (ios, anc)
  | out :: queue, ios, anc =>
    if ios.length = cap then (ios, anc)
    else if out.fdsToSend then
      if ios.isEmpty then populate cap queue (pushBufs cap out.outBufsLeft ios) (anc ++ out.fds)
      else (ios, anc)
    else populate cap queue (pushBufs cap out.outBufsLeft ios) anc

/-- `update_written`: the bytes left over and the queue with the others credited. -/
def updateWritten : List RawOut → ℕ → ℕ × List RawOut
  | [], written => (written, [])
  | out :: queue, written =>
    match out.advance written with
    | (0, out) => (0, if out.done then queue else out :: queue)
    | (left + 1, _) => updateWritten queue (left + 1)

/-! ## The stream -/

/-- An answer of `sendmsg`. -/
inductive SendEvent
  /-- `n + 1` bytes are accepted, as far as they are offered. -/
  | accept (n : ℕ)
  /-- The stream is full. -/
  | wouldBlock
  /-- Another error. -/
  | err
  deriving DecidableEq

/-- The stream: the accepted writes, each with its descriptors, and the answers to come. -/
structure OutStream where
  log : List (Bytes × List ℕ)
  script : List SendEvent
  deriving DecidableEq

/-- The bytes accepted so far. -/
def OutStream.sent (stream : OutStream) : Bytes := stream.log.flatMap Prod.fst

/-- The log after `sendmsg` has accepted `k` bytes. -/
def accept (log : List (Bytes × List ℕ)) (ios : List Bytes) (anc : List ℕ) (k : ℕ) :
    List (Bytes × List ℕ) :=
  log ++ [(ios.flatten.take k, anc)]

/-- The errors of the sender, with their texts in the source. -/
inductive SendError
  /-- "Marshal Failure." -/
  | marshalFailure
  /-- "Too many Fds." -/
  | tooManyFds
  /-- "Fds already consumed!" -/
  | fdsConsumed
  /-- An error from `sendmsg`. -/
  | io
  deriving DecidableEq

/-! ## `SendState` -/

/-- `SendState`.  The counter `idx`, which has 64 bits in the source, is a natural number: it is
raised once for every message that is queued, and nothing else changes it. -/
structure SendState where
  withFd : Bool
  idx : ℕ
  queue : List RawOut
  deriving DecidableEq

namespace SendState

/-- The state of a new connection. -/
def new (withFd : Bool) : SendState := ⟨withFd, 0, []⟩

/-- `SendState::current_idx`. -/
def currentIdx (s : SendState) : ℕ := s.idx - s.queue.length

/-- The `while` loop of `finish_sending_next`: an error, or none, and the queue and the stream
that are left. -/
def finishLoop : List SendEvent → List RawOut → List (Bytes × List ℕ) →
    Option SendError × List RawOut × OutStream
  | script, [], log => (none, [], ⟨log, script⟩)
  | [], queue, log => (none, queue, ⟨log, []⟩)
  | .wouldBlock :: script, queue, log => (none, queue, ⟨log, script⟩)
  | .err :: script, queue, log => (some .io, queue, ⟨log, script⟩)
  | .accept n :: script, queue, log =>
    let (ios, anc) := populate 32 queue [] []
    let written := min (n + 1) ios.flatten.length
    finishLoop script (updateWritten queue written).2 (accept log ios anc written)

/-- `finish_sending_next`. -/
def finishSendingNext (s : SendState) (stream : OutStream) :
    Except SendError ℕ × SendState × OutStream :=
  match finishLoop stream.script s.queue stream.log with
  | (none, queue, stream) =>
    (.ok { s with queue := queue }.currentIdx, { s with queue := queue }, stream)
  | (some e, queue, stream) => (.error e, { s with queue := queue }, stream)

/-- The buffers of a write that starts with the queue and goes on with the new message. -/
def writeBufs (queue : List RawOut) (out : RawOut) : List Bytes × List ℕ :=
  let (ios, anc) := populate 34 queue [] []
  if ios.length ≠ 34 ∧ (out.fds.isEmpty ∨ ios.isEmpty) then
    (pushBufs 34 (bufsLeft out.written out.header out.body) ios,
      if out.fdsToSend then anc ++ out.fds else anc)
  else (ios, anc)

/-- How the `loop` of `write_next_message` ends. -/
inductive WriteEnd
  /-- The message is written. -/
  | written
  /-- The stream is full: what is left of the message goes into the queue. -/
  | blocked (out : RawOut)
  /-- An error of the stream. -/
  | failed
  deriving DecidableEq

/-- The `loop` of `write_next_message`. -/
def writeLoop : List SendEvent → List RawOut → RawOut → List (Bytes × List ℕ) →
    WriteEnd × List RawOut × OutStream
  | [], queue, out, log => (.blocked out, queue, ⟨log, []⟩)
  | .wouldBlock :: script, queue, out, log => (.blocked out, queue, ⟨log, script⟩)
  | .err :: script, queue, _, log => (.failed, queue, ⟨log, script⟩)
  | .accept n :: script, queue, out, log =>
    let (ios, anc) := writeBufs queue out
    let k := min (n + 1) ios.flatten.length
    let log := accept log ios anc k
    let (written, queue) := updateWritten queue k
    if written = 0 then writeLoop script queue out log
    else
      let out := { out with written := out.written + written }
      if out.written = out.header.length + out.body.length then (.written, queue, ⟨log, script⟩)
      else writeLoop script queue out log

/-- Duplicate the descriptors of a message; one that has been taken cannot be duplicated. -/
def dupFds (fds : List UnixFd) : Option (List ℕ) := fds.mapM UnixFd.file

/-- The checks of `write_next_message` before it writes: the message on its way out. -/
def prepare (R : Rustbus) (s : SendState) (msg : MarshalledMessage) (serial : NonZeroU32) :
    Except SendError RawOut :=
  match msg.marshalHeader R serial with
  | .error _ => .error .marshalFailure
  | .ok header =>
    if (!s.withFd && !msg.body.rawFds.isEmpty) || msg.body.rawFds.length > dbusMaxFdMessage then
      .error .tooManyFds
    else
      match dupFds msg.body.rawFds with
      | none => .error .fdsConsumed
      | some fds => .ok ⟨0, header, msg.body.buf, fds⟩

/-- `write_next_message`. -/
def writeNextMessage (R : Rustbus) (s : SendState) (stream : OutStream) (msg : MarshalledMessage)
    (serial : NonZeroU32) : Except SendError (Option ℕ) × SendState × OutStream :=
  match prepare R s msg serial with
  | .error e => (.error e, s, stream)
  | .ok out =>
    match writeLoop stream.script s.queue out stream.log with
    | (.written, queue, stream) => (.ok none, { s with queue := queue }, stream)
    | (.failed, queue, stream) => (.error .io, { s with queue := queue }, stream)
    | (.blocked out, queue, stream) =>
      (.ok (some s.idx), { s with queue := queue ++ [out], idx := s.idx + 1 }, stream)

end SendState

/-! ## Crediting a write -/

/-- A message in the queue: its header is not empty, and it is not sent in full. -/
structure RawOut.Open (out : RawOut) : Prop where
  header : out.header ≠ []
  left : out.written < out.header.length + out.body.length

/-- The length of what is left of a message. -/
lemma RawOut.length_unsent (out : RawOut) : out.unsent.length = out.toWrite := by
  simp [RawOut.unsent, RawOut.toWrite]

/-- `advance` credits as much as it can. -/
lemma RawOut.advance_eq (out : RawOut) (adv : ℕ) :
    out.advance adv =
      (adv - out.toWrite, { out with written := out.written + min adv out.toWrite }) := by
  unfold RawOut.advance RawOut.toWrite
  dsimp only
  split_ifs with hzero
  · refine Prod.ext ?_ ?_
    · show 0 = adv - (out.header.length + out.body.length - out.written)
      omega
    · show ({ out with written := _ } : RawOut) = { out with written := _ }
      congr 1
      omega
  · refine Prod.ext ?_ ?_
    · show _ - min _ _ = adv - (out.header.length + out.body.length - out.written)
      omega
    · show ({ out with written := _ } : RawOut) = { out with written := _ }
      congr 1
      omega

/-- A message is done when nothing is left of it. -/
lemma RawOut.done_iff (out : RawOut) : out.done = true ↔ out.toWrite = 0 := decide_eq_true_iff

/-- The number of bytes left after crediting some. -/
lemma RawOut.toWrite_written (out : RawOut) (n : ℕ) :
    ({ out with written := out.written + n } : RawOut).toWrite = out.toWrite - n := by
  show out.header.length + out.body.length - (out.written + n) = _ - n
  unfold RawOut.toWrite
  omega

/-- The bytes that are left after crediting some. -/
lemma RawOut.unsent_written (out : RawOut) (n : ℕ) :
    ({ out with written := out.written + n } : RawOut).unsent = out.unsent.drop n := by
  simp [RawOut.unsent]

/-- The bytes that are left over are those beyond the pending ones. -/
lemma updateWritten_left (queue : List RawOut) (w : ℕ) :
    (updateWritten queue w).1 = w - (pending queue).length := by
  induction queue generalizing w with
  | nil => simp [updateWritten, pending]
  | cons out queue ih =>
    have hlen : (pending (out :: queue)).length = out.toWrite + (pending queue).length := by
      rw [← out.length_unsent, ← List.length_append]
      rfl
    simp only [updateWritten, out.advance_eq w]
    cases hleft : w - out.toWrite with
    | zero =>
      show 0 = _
      omega
    | succ left =>
      show (updateWritten queue (left + 1)).1 = _
      rw [ih]
      omega

/-- **Crediting a write.**  The first `w` pending bytes are dropped; bytes beyond them are left
over.  What stays in the queue is its end, with only the front changed.

**Proof sketch.** Induction on the queue: a message that is credited in full is removed and the
rest of the count goes to the next one. -/
theorem updateWritten_spec (queue : List RawOut) (w : ℕ) (hopen : ∀ out ∈ queue, out.Open) :
    (updateWritten queue w).1 = w - (pending queue).length ∧
      pending (updateWritten queue w).2 = (pending queue).drop w ∧
      (∀ out ∈ (updateWritten queue w).2, out.Open) ∧
      (∀ out ∈ (updateWritten queue w).2.tail, out ∈ queue.tail) := by
  refine ⟨updateWritten_left queue w, ?_⟩
  induction queue generalizing w with
  | nil => simp [updateWritten, pending]
  | cons out queue ih =>
    have hout := hopen out (by simp)
    have hqueue : ∀ out ∈ queue, out.Open := fun o ho => hopen o (by simp [ho])
    have hlen := out.length_unsent
    have hpending : pending (out :: queue) = out.unsent ++ pending queue := rfl
    simp only [updateWritten, out.advance_eq w]
    by_cases hle : w ≤ out.toWrite
    · -- the write ends in this message
      have hmin : min w out.toWrite = w := Nat.min_eq_left hle
      rw [show w - out.toWrite = 0 by omega, hmin]
      dsimp only
      have hunsent := out.unsent_written w
      by_cases hdone : w = out.toWrite
      · have hflag : ({ out with written := out.written + w } : RawOut).done = true := by
          rw [RawOut.done_iff, out.toWrite_written]
          omega
        rw [if_pos hflag, hpending]
        refine ⟨?_, hqueue, fun o ho => List.mem_of_mem_tail ho⟩
        rw [List.drop_left' (by omega)]
      · have hflag : ¬ ({ out with written := out.written + w } : RawOut).done = true := by
          rw [RawOut.done_iff, out.toWrite_written]
          omega
        rw [if_neg hflag, hpending]
        refine ⟨?_, fun o ho => ?_, fun o ho => ho⟩
        · show ({ out with written := _ } : RawOut).unsent ++ pending queue = _
          rw [hunsent, List.drop_append_of_le_length (by omega)]
        · rcases List.mem_cons.mp ho with rfl | ho
          · refine ⟨hout.header, ?_⟩
            simp only [RawOut.toWrite] at hdone hle ⊢
            omega
          · exact hqueue o ho
    · -- the message is sent in full, the rest of the count goes on
      obtain ⟨left, hleft⟩ : ∃ left, w - out.toWrite = left + 1 := ⟨w - out.toWrite - 1, by omega⟩
      obtain ⟨hrest, hopen', htail⟩ := ih (left + 1) hqueue
      rw [hleft]
      dsimp only
      refine ⟨?_, hopen', fun o ho => List.mem_of_mem_tail (htail o ho)⟩
      have hsent : out.unsent.length ≤ w := by omega
      rw [hrest, hpending, List.drop_append, List.drop_eq_nil_of_le hsent, List.nil_append]
      congr 1
      omega

/-- The descriptors of the messages in `queue'` are those of messages in `queue`. -/
def FdsFrom (queue' queue : List RawOut) : Prop :=
  ∀ out ∈ queue', ∃ out' ∈ queue, out.fds = out'.fds

/-- A queue has its own descriptors. -/
lemma FdsFrom.refl (queue : List RawOut) : FdsFrom queue queue :=
  fun out hout => ⟨out, hout, rfl⟩

/-- Descriptors are passed on. -/
lemma FdsFrom.trans {q₁ q₂ q₃ : List RawOut} (h : FdsFrom q₁ q₂) (h' : FdsFrom q₂ q₃) :
    FdsFrom q₁ q₃ := by
  intro out hout
  obtain ⟨out', hout', heq⟩ := h out hout
  obtain ⟨out'', hout'', heq'⟩ := h' out' hout'
  exact ⟨out'', hout'', heq.trans heq'⟩

/-- A queue whose descriptors come from one without descriptors has none. -/
lemma FdsFrom.eq_nil {queue' queue : List RawOut} (h : FdsFrom queue' queue)
    (hnil : ∀ out ∈ queue, out.fds = []) : ∀ out ∈ queue', out.fds = [] := by
  intro out hout
  obtain ⟨out', hout', heq⟩ := h out hout
  rw [heq, hnil out' hout']

/-- Crediting changes no descriptors. -/
lemma updateWritten_fds (queue : List RawOut) (w : ℕ) :
    FdsFrom (updateWritten queue w).2 queue := by
  induction queue generalizing w with
  | nil => exact .refl []
  | cons o queue ih =>
    intro out hmem
    simp only [updateWritten, o.advance_eq w] at hmem
    cases hleft : w - o.toWrite with
    | zero =>
      simp only [hleft] at hmem
      split_ifs at hmem
      · exact ⟨out, by simp [hmem], rfl⟩
      · rcases List.mem_cons.mp hmem with rfl | hmem
        · exact ⟨o, by simp, rfl⟩
        · exact ⟨out, by simp [hmem], rfl⟩
    | succ left =>
      simp only [hleft] at hmem
      obtain ⟨out', hout', heq⟩ := ih (left + 1) out hmem
      exact ⟨out', by simp [hout'], heq⟩

/-! ## Filling a write -/

/-- The buffers left of a message are what is unsent of it. -/
lemma bufsLeft_flatten (written : ℕ) (header body : Bytes) :
    (bufsLeft written header body).1 ++ (bufsLeft written header body).2.getD [] =
      (header ++ body).drop written := by
  unfold bufsLeft
  split_ifs with hlt hempty
  · rw [List.isEmpty_iff.mp hempty]
    simp
  · rw [List.drop_append_of_le_length (by omega)]
    rfl
  · rw [List.drop_append, List.drop_eq_nil_of_le (by omega : header.length ≤ written)]
    simp

/-- Pushing the buffers of a message appends the first part of what is unsent of it, and all of
it unless the vector is full. -/
lemma pushBufs_spec {cap : ℕ} (ios : List Bytes) (hlt : ios.length < cap)
    (bufs : Bytes × Option Bytes) :
    (pushBufs cap bufs ios).length ≤ cap ∧ pushBufs cap bufs ios ≠ [] ∧
      ∃ t, (pushBufs cap bufs ios).flatten ++ t = ios.flatten ++ (bufs.1 ++ bufs.2.getD []) ∧
        ((pushBufs cap bufs ios).length ≠ cap → t = []) := by
  obtain ⟨buf0, buf1⟩ := bufs
  cases buf1 with
  | none =>
    refine ⟨?_, by simp [pushBufs], [], by simp [pushBufs], fun _ => rfl⟩
    simp only [pushBufs, List.length_append, List.length_singleton]
    omega
  | some buf1 =>
    by_cases hfull : (ios ++ [buf0]).length = cap
    · have heq : pushBufs cap (buf0, some buf1) ios = ios ++ [buf0] := if_pos hfull
      rw [heq]
      exact ⟨Nat.le_of_eq hfull, by simp, buf1, by simp, fun hne => absurd hfull hne⟩
    · have heq : pushBufs cap (buf0, some buf1) ios = ios ++ [buf0] ++ [buf1] := if_neg hfull
      rw [heq]
      refine ⟨?_, by simp, [], by simp, fun _ => rfl⟩
      simp only [List.length_append, List.length_singleton] at hfull ⊢
      omega

/-- **Filling a write.**  The offered bytes are the first pending bytes; they are all of them if
the vector is not full and no message behind the first one has descriptors to send.

**Proof sketch.** Induction on the queue, by `pushBufs_spec`. -/
theorem populate_spec (cap : ℕ) (queue : List RawOut) (ios : List Bytes) (anc : List ℕ)
    (hlen : ios.length ≤ cap) :
    (populate cap queue ios anc).1.length ≤ cap ∧
      (ios ≠ [] → (populate cap queue ios anc).1 ≠ []) ∧
      ∃ t, (populate cap queue ios anc).1.flatten ++ t = ios.flatten ++ pending queue ∧
        ((populate cap queue ios anc).1.length ≠ cap →
          (∀ out ∈ if ios.isEmpty then queue.tail else queue, out.fdsToSend = false) →
          t = []) := by
  induction queue generalizing ios anc with
  | nil => exact ⟨hlen, id, [], by simp [populate, pending], fun _ _ => rfl⟩
  | cons out queue ih =>
    have hpending : pending (out :: queue) = out.unsent ++ pending queue := rfl
    have hpush : ios.length ≠ cap → ∀ anc',
        (populate cap queue (pushBufs cap out.outBufsLeft ios) anc').1.length ≤ cap ∧
        (populate cap queue (pushBufs cap out.outBufsLeft ios) anc').1 ≠ [] ∧
        ∃ t, (populate cap queue (pushBufs cap out.outBufsLeft ios) anc').1.flatten ++ t =
            ios.flatten ++ pending (out :: queue) ∧
          ((populate cap queue (pushBufs cap out.outBufsLeft ios) anc').1.length ≠ cap →
            (∀ out ∈ queue, out.fdsToSend = false) → t = []) := by
      intro hroom anc'
      have hlt : ios.length < cap := by omega
      obtain ⟨hle, hne, t, hflat, ht⟩ := pushBufs_spec ios hlt out.outBufsLeft
      obtain ⟨hle', hne', t', hflat', ht'⟩ := ih (pushBufs cap out.outBufsLeft ios) anc' hle
      have hout : out.outBufsLeft.1 ++ out.outBufsLeft.2.getD [] = out.unsent :=
        bufsLeft_flatten _ _ _
      by_cases hfull : (pushBufs cap out.outBufsLeft ios).length = cap
      · -- the vector is full: nothing more is pushed
        have hstop : (populate cap queue (pushBufs cap out.outBufsLeft ios) anc').1 =
            pushBufs cap out.outBufsLeft ios := by
          cases queue with
          | nil => rfl
          | cons o q => simp [populate, hfull]
        refine ⟨hle', hne' hne, t ++ pending queue, ?_, fun hne => ?_⟩
        · rw [hstop, ← List.append_assoc, hflat, hout, hpending, List.append_assoc]
        · rw [hstop] at hne
          exact absurd hfull hne
      · have htnil := ht hfull
        rw [htnil, List.append_nil, hout] at hflat
        refine ⟨hle', hne' hne, t', ?_, fun hroom' hall => ht' hroom' ?_⟩
        · rw [hflat', hflat, hpending, List.append_assoc]
        · rw [if_neg (by simpa [List.isEmpty_iff] using hne)]
          exact hall
    by_cases hroom : ios.length = cap
    · have heq : populate cap (out :: queue) ios anc = (ios, anc) := by simp [populate, hroom]
      rw [heq]
      exact ⟨hlen, id, pending (out :: queue), rfl, fun hne => absurd hroom hne⟩
    by_cases hstop : out.fdsToSend = true ∧ ios.isEmpty = false
    · -- descriptors may only be sent with the first message
      have heq : populate cap (out :: queue) ios anc = (ios, anc) := by
        simp [populate, hroom, hstop.1, hstop.2]
      rw [heq]
      refine ⟨hlen, id, pending (out :: queue), rfl, fun _ hall => ?_⟩
      have hfalse := hall out (by simp [hstop.2])
      rw [hstop.1] at hfalse
      cases hfalse
    · obtain ⟨anc', heq⟩ : ∃ anc', populate cap (out :: queue) ios anc =
          populate cap queue (pushBufs cap out.outBufsLeft ios) anc' := by
        by_cases hfds : out.fdsToSend = true
        · have hempty : ios.isEmpty = true := by
            by_contra hne
            exact hstop ⟨hfds, by simpa using hne⟩
          exact ⟨anc ++ out.fds, by simp [populate, hroom, hfds, hempty]⟩
        · exact ⟨anc, by simp [populate, hroom, hfds]⟩
      obtain ⟨h1, h2, t, h3, h4⟩ := hpush hroom anc'
      rw [heq]
      refine ⟨h1, fun _ => h2, t, h3, fun hne hall => h4 hne fun o ho => hall o ?_⟩
      by_cases hempty : ios.isEmpty = true
      · simpa [hempty] using ho
      · simp [hempty, ho]

/-- A queue that is not empty fills a write with something. -/
lemma populate_ne_nil {cap : ℕ} (hcap : 0 < cap) (out : RawOut) (queue : List RawOut) :
    (populate cap (out :: queue) [] []).1 ≠ [] := by
  obtain ⟨hle, hne, -⟩ := pushBufs_spec [] hcap out.outBufsLeft
  have hcap' : ¬ 0 = cap := by omega
  obtain ⟨anc, heq⟩ : ∃ anc, populate cap (out :: queue) [] [] =
      populate cap queue (pushBufs cap out.outBufsLeft []) anc := by
    by_cases hfds : out.fdsToSend = true
    · exact ⟨out.fds, by simp [populate, hfds, hcap']⟩
    · exact ⟨[], by simp [populate, hfds, hcap']⟩
  rw [heq]
  exact (populate_spec cap queue _ anc hle).2.1 hne

end AsyncRustbus
