import AsyncRustbus.Conn.Sender
import AsyncRustbus.Message.Reference

set_option relaxedAutoImplicit false
set_option autoImplicit false

/-!
# The outgoing stream

Whatever the stream accepts at each write, the bytes it has accepted and the bytes still in the
queue should be the messages written so far, one after the other.  The code keeps this as long
as no message without descriptors is written while an unstarted message with descriptors waits
behind other data: there the new message is offered in its place.

## Main definitions

* `AsyncRustbus.SendOp`, `AsyncRustbus.Sending`, `AsyncRustbus.Sending.run` — runs of the sender.
* `AsyncRustbus.Sending.Careful` — no write of a run meets such a queue.

## Main results

* `AsyncRustbus.SendState.writeLoop_spec`, `AsyncRustbus.SendState.finishLoop_spec` — one call.
* `AsyncRustbus.Sending.step_whole` — one careful call, on any stream.
* `AsyncRustbus.Sending.run_integrity` — integrity of the outgoing stream along careful runs.
-/

namespace AsyncRustbus

namespace SendState

/-! ## One write -/

/-- The bytes accepted by a log. -/
def logged (log : List (Bytes × List ℕ)) : Bytes := log.flatMap Prod.fst

/-- A write that is accepted in part. -/
lemma logged_accept (log : List (Bytes × List ℕ)) (ios : List Bytes) (anc : List ℕ) (k : ℕ) :
    logged (accept log ios anc k) = logged log ++ ios.flatten.take k := by
  simp [logged, accept]

/-- Bytes taken from the front of two byte strings and credited to them in turn. -/
private lemma take_append_credit (P U : Bytes) (k : ℕ) :
    (P ++ U).take k ++ (P.drop k ++ U.drop (k - P.length)) = P ++ U := by
  by_cases hle : k ≤ P.length
  · rw [List.take_append_of_le_length hle, show k - P.length = 0 by omega, List.drop_zero,
      ← List.append_assoc, List.take_append_drop]
  · rw [List.drop_eq_nil_of_le (by omega : P.length ≤ k), List.nil_append, List.take_append,
      List.take_of_length_le (by omega), List.append_assoc, List.take_append_drop]

/-- The first bytes of a string are those of every string that it begins with. -/
private lemma take_of_prefix {flat t P : Bytes} (h : flat ++ t = P) {k : ℕ}
    (hk : k ≤ flat.length) : flat.take k = P.take k := by
  rw [← h, List.take_append_of_le_length hk]

/-- No message behind the first one has descriptors to send. -/
def NoFdsBehind (queue : List RawOut) : Prop := ∀ out ∈ queue.tail, out.fdsToSend = false

/-- A write of the queue and a new message offers the first bytes of both, unless the message
has no descriptors and one behind the front of the queue has.

**Proof sketch.** The slices of the queue are a first part of its bytes (`populate_spec`). The
message is pushed behind them only where it has no descriptors or there are no slices; in both cases
the whole queue is in front of it, because a queue without descriptors behind its front is left out
only for want of room. -/
lemma writeBufs_prefix {queue : List RawOut} {out : RawOut}
    (hcareful : out.fds = [] → NoFdsBehind queue) :
    ∃ t, (writeBufs queue out).1.flatten ++ t = pending queue ++ out.unsent := by
  obtain ⟨hle, -, t, hflat, ht⟩ := populate_spec 34 queue [] [] (by simp)
  simp only [List.flatten_nil, List.nil_append, List.isEmpty_nil, if_true] at hflat ht
  have hout : (bufsLeft out.written out.header out.body).1 ++
      (bufsLeft out.written out.header out.body).2.getD [] = out.unsent := bufsLeft_flatten _ _ _
  rcases hpop : populate 34 queue [] [] with ⟨ios, anc⟩
  rw [hpop] at hle hflat ht
  by_cases hpush : ios.length ≠ 34 ∧ (out.fds.isEmpty = true ∨ ios.isEmpty = true)
  · have heq : (writeBufs queue out).1 =
        pushBufs 34 (bufsLeft out.written out.header out.body) ios := by
      simp only [writeBufs, hpop, if_pos hpush]
    obtain ⟨hroom, hfds⟩ := hpush
    have hlt : ios.length < 34 := Nat.lt_of_le_of_ne hle hroom
    obtain ⟨-, -, t', hflat', -⟩ := pushBufs_spec ios hlt
      (bufsLeft out.written out.header out.body)
    -- the queue is offered in full before the new message
    have htnil : t = [] := by
      rcases hfds with hfds | hempty
      · exact ht hroom (hcareful (List.isEmpty_iff.mp hfds))
      · cases queue with
        | nil => exact (List.append_eq_nil_iff.mp hflat).2
        | cons o q =>
          have hne := populate_ne_nil (by omega : 0 < 34) o q
          rw [hpop] at hne
          exact absurd (List.isEmpty_iff.mp hempty) hne
    rw [htnil, List.append_nil] at hflat
    refine ⟨t', ?_⟩
    rw [heq, hflat', hflat, hout]
  · have heq : (writeBufs queue out).1 = ios := by
      simp only [writeBufs, hpop, if_neg hpush]
    exact ⟨t ++ out.unsent, by rw [heq, ← List.append_assoc, hflat]⟩

/-- A write that is accepted in part: what it credits beyond the queue goes to the message. -/
lemma writeLoop_accept {n k left : ℕ} {queue queue' : List RawOut} {out : RawOut}
    {ios : List Bytes} {anc : List ℕ} (hbufs : writeBufs queue out = (ios, anc))
    (hk : k = min (n + 1) ios.flatten.length) (hupd : updateWritten queue k = (left, queue'))
    (script : List SendEvent) (log : List (Bytes × List ℕ)) :
    writeLoop (.accept n :: script) queue out log =
      if left = 0 then writeLoop script queue' out (accept log ios anc k)
      else if out.written + left = out.header.length + out.body.length then
        (.written, queue', ⟨accept log ios anc k, script⟩)
      else writeLoop script queue' { out with written := out.written + left }
        (accept log ios anc k) := by
  simp only [writeLoop, hbufs, ← hk, hupd]

/-- A write of the queue that is accepted in part. -/
lemma finishLoop_accept {n k : ℕ} {out : RawOut} {queue : List RawOut} {ios : List Bytes}
    {anc : List ℕ} (hpop : populate 32 (out :: queue) [] [] = (ios, anc))
    (hk : k = min (n + 1) ios.flatten.length) (script : List SendEvent)
    (log : List (Bytes × List ℕ)) :
    finishLoop (.accept n :: script) (out :: queue) log =
      finishLoop script (updateWritten (out :: queue) k).2 (accept log ios anc k) := by
  simp only [finishLoop, hpop, ← hk]

/-- The loop of `write_next_message` fails only with the stream. -/
lemma err_mem_of_failed {script : List SendEvent} {queue queue' : List RawOut} {out : RawOut}
    {log : List (Bytes × List ℕ)} {stream' : OutStream}
    (h : writeLoop script queue out log = (.failed, queue', stream')) : .err ∈ script := by
  induction script generalizing queue out log with
  | nil => cases h
  | cons ev script ih =>
    cases ev with
    | wouldBlock => cases h
    | err => exact List.mem_cons_self
    | accept n =>
      simp only [writeLoop] at h
      split_ifs at h
      · exact List.mem_cons_of_mem _ (ih h)
      · cases h
      · exact List.mem_cons_of_mem _ (ih h)

/-- **The loop of `write_next_message`** neither loses, repeats nor reorders a byte: the bytes
accepted, those pending in the queue and those left of the message stay the same string.

**Proof sketch.** Induction on the answers of the stream.  The offered bytes are the first bytes
of queue and message, so those accepted are; they are credited to the queue first, and what is
left over to the message. -/
theorem writeLoop_spec (script : List SendEvent) (queue : List RawOut) (out : RawOut)
    (log : List (Bytes × List ℕ)) (hqueue : ∀ o ∈ queue, o.Open) (hout : out.Open)
    (hcareful : out.fds = [] → NoFdsBehind queue) :
    ∃ queue' stream', (∀ o ∈ queue', o.Open) ∧ stream'.script <:+ script ∧
      FdsFrom queue' queue ∧
      ((writeLoop script queue out log = (.written, queue', stream') ∧
        stream'.sent ++ pending queue' = logged log ++ pending queue ++ out.unsent) ∨
      ∃ out', out'.Open ∧ out'.fds = out.fds ∧
        (writeLoop script queue out log = (.blocked out', queue', stream') ∨
          writeLoop script queue out log = (.failed, queue', stream')) ∧
        stream'.sent ++ pending queue' ++ out'.unsent =
          logged log ++ pending queue ++ out.unsent) := by
  induction script generalizing queue out log with
  | nil =>
    exact ⟨queue, ⟨log, []⟩, hqueue, List.suffix_rfl, .refl _,
      Or.inr ⟨out, hout, rfl, Or.inl rfl, rfl⟩⟩
  | cons ev script ih =>
    have htail : script <:+ ev :: script := List.suffix_cons ev script
    cases ev with
    | err =>
      exact ⟨queue, ⟨log, script⟩, hqueue, htail, .refl _,
        Or.inr ⟨out, hout, rfl, Or.inr rfl, rfl⟩⟩
    | wouldBlock =>
      exact ⟨queue, ⟨log, script⟩, hqueue, htail, .refl _,
        Or.inr ⟨out, hout, rfl, Or.inl rfl, rfl⟩⟩
    | accept n =>
      obtain ⟨t, hprefix⟩ := writeBufs_prefix hcareful
      rcases hbufs : writeBufs queue out with ⟨ios, anc⟩
      rw [hbufs] at hprefix
      dsimp only at hprefix
      obtain ⟨k, hk⟩ : ∃ k, k = min (n + 1) ios.flatten.length := ⟨_, rfl⟩
      have hkle : k ≤ ios.flatten.length := by omega
      have htake := take_of_prefix hprefix hkle
      have hcredit := take_append_credit (pending queue) out.unsent k
      have hlen : ios.flatten.length ≤ (pending queue).length + out.unsent.length := by
        have := congrArg List.length hprefix
        simp only [List.length_append] at this
        omega
      obtain ⟨hleft, hpend, hopen, hsub⟩ := updateWritten_spec queue k hqueue
      have hfds := updateWritten_fds queue k
      rcases hupd : updateWritten queue k with ⟨left, queue₁⟩
      rw [hupd] at hleft hpend hopen hsub hfds
      dsimp only at hleft hpend hopen hsub hfds
      have hcareful₁ : ∀ o : RawOut, o.fds = out.fds → o.fds = [] → NoFdsBehind queue₁ :=
        fun o ho hnil x hx => hcareful (ho ▸ hnil) x (hsub x hx)
      have hsum : logged (accept log ios anc k) ++ pending queue₁ ++ out.unsent.drop left =
          logged log ++ pending queue ++ out.unsent := by
        rw [logged_accept, htake, hpend, hleft, List.append_assoc, List.append_assoc, hcredit,
          List.append_assoc]
      rw [writeLoop_accept hbufs hk hupd]
      by_cases hzero : left = 0
      · rw [if_pos hzero]
        rw [hzero, List.drop_zero] at hsum
        obtain ⟨q, st, h1, h2, h3, h4⟩ := ih queue₁ out (accept log ios anc k) hopen hout
          (hcareful₁ out rfl)
        rw [hsum] at h4
        exact ⟨q, st, h1, h2.trans htail, h3.trans hfds, h4⟩
      · rw [if_neg hzero]
        have hunsent := out.length_unsent
        have hwrite : out.toWrite = out.header.length + out.body.length - out.written := rfl
        have hleft' := hout.left
        by_cases hdone : out.written + left = out.header.length + out.body.length
        · rw [if_pos hdone]
          have hnil : out.unsent.drop left = [] := List.drop_eq_nil_of_le (by omega)
          rw [hnil, List.append_nil] at hsum
          exact ⟨queue₁, _, hopen, htail, hfds, Or.inl ⟨rfl, hsum⟩⟩
        · rw [if_neg hdone]
          have hout₁ : ({ out with written := out.written + left } : RawOut).Open := by
            refine ⟨hout.header, ?_⟩
            show out.written + left < out.header.length + out.body.length
            omega
          obtain ⟨q, st, h1, h2, h3, h4⟩ := ih queue₁ _ (accept log ios anc k) hopen hout₁
            (hcareful₁ _ rfl)
          rw [out.unsent_written, hsum] at h4
          exact ⟨q, st, h1, h2.trans htail, h3.trans hfds, h4⟩

/-- **The loop of `finish_sending_next`** neither loses, repeats nor reorders a byte.

**Proof sketch.** By induction on the answers of the stream. An accepted write takes a first part of
the bytes of the queue (`populate_spec`), and `updateWritten_spec` takes the same part off the
queue, so the bytes accepted and those pending stay together what they were. -/
theorem finishLoop_spec (script : List SendEvent) (queue : List RawOut)
    (log : List (Bytes × List ℕ)) (hqueue : ∀ o ∈ queue, o.Open) :
    ∃ result queue' stream', finishLoop script queue log = (result, queue', stream') ∧
      (∀ o ∈ queue', o.Open) ∧ stream'.script <:+ script ∧
      FdsFrom queue' queue ∧
      stream'.sent ++ pending queue' = logged log ++ pending queue := by
  induction script generalizing queue log with
  | nil =>
    refine ⟨none, queue, ⟨log, []⟩, ?_, hqueue, List.suffix_rfl, .refl _, rfl⟩
    cases queue <;> rfl
  | cons ev script ih =>
    have htail : script <:+ ev :: script := List.suffix_cons ev script
    cases queue with
    | nil =>
      exact ⟨none, [], ⟨log, ev :: script⟩, rfl, hqueue, List.suffix_rfl, .refl _, rfl⟩
    | cons out queue =>
      cases ev with
      | err =>
        exact ⟨some .io, out :: queue, ⟨log, script⟩, rfl, hqueue, htail, .refl _, rfl⟩
      | wouldBlock =>
        exact ⟨none, out :: queue, ⟨log, script⟩, rfl, hqueue, htail, .refl _, rfl⟩
      | accept n =>
        obtain ⟨-, -, t, hprefix, -⟩ := populate_spec 32 (out :: queue) [] [] (by simp)
        rcases hpop : populate 32 (out :: queue) [] [] with ⟨ios, anc⟩
        rw [hpop, List.flatten_nil, List.nil_append] at hprefix
        dsimp only at hprefix
        obtain ⟨k, hk⟩ : ∃ k, k = min (n + 1) ios.flatten.length := ⟨_, rfl⟩
        have htake := take_of_prefix hprefix (by omega : k ≤ ios.flatten.length)
        obtain ⟨-, hpend, hopen, -⟩ := updateWritten_spec (out :: queue) k hqueue
        have hfds := updateWritten_fds (out :: queue) k
        obtain ⟨result, q, st, h0, h1, h2, h3, h4⟩ := ih (updateWritten (out :: queue) k).2
          (accept log ios anc k) hopen
        refine ⟨result, q, st, (finishLoop_accept hpop hk script log).trans h0, h1, h2.trans htail,
          h3.trans hfds, ?_⟩
        rw [h4, logged_accept, htake, hpend, List.append_assoc, List.take_append_drop]

end SendState

/-! ## Runs -/

/-- A call on the sender. -/
inductive SendOp
  | write (msg : MarshalledMessage) (serial : NonZeroU32)
  | finish
  deriving DecidableEq

/-- A run of the sender: its state, the stream, and the bytes of the messages whose writes
succeeded, in order. -/
structure Sending where
  state : SendState
  stream : OutStream
  messages : List Bytes
  deriving DecidableEq

/-- The bytes of a message: its header and its body. -/
def messageBytes (R : Rustbus) (msg : MarshalledMessage) (serial : NonZeroU32) : Bytes :=
  match msg.marshalHeader R serial with
  | .ok header => header ++ msg.body.buf
  | .error _ => []

namespace Sending

/-- The start of a run. -/
def new (withFd : Bool) (script : List SendEvent) : Sending := ⟨.new withFd, ⟨[], script⟩, []⟩

/-- One call. -/
def step (R : Rustbus) (c : Sending) : SendOp → Sending
  | .write msg serial =>
    match c.state.writeNextMessage R c.stream msg serial with
    | (.ok _, state, stream) => ⟨state, stream, c.messages ++ [messageBytes R msg serial]⟩
    | (.error _, state, stream) => ⟨state, stream, c.messages⟩
  | .finish =>
    let r := c.state.finishSendingNext c.stream
    ⟨r.2.1, r.2.2, c.messages⟩

/-- A sequence of calls. -/
def run (R : Rustbus) (c : Sending) (ops : List SendOp) : Sending := ops.foldl (step R) c

/-- A call does not write a message without descriptors while one with descriptors waits behind
the front of the queue. -/
def CarefulStep (s : SendState) : SendOp → Prop
  | .write msg _ => msg.body.rawFds = [] → SendState.NoFdsBehind s.queue
  | .finish => True

/-- All calls of a run are so. -/
def Careful (R : Rustbus) : Sending → List SendOp → Prop
  | _, [] => True
  | c, op :: ops => CarefulStep c.state op ∧ Careful R (step R c op) ops

/-- The invariant of a run: the bytes accepted and those pending are the messages written. -/
structure Integrity (c : Sending) : Prop where
  queue : ∀ out ∈ c.state.queue, out.Open
  script : ∀ ev ∈ c.stream.script, ev ≠ .err
  fds : c.state.withFd = false → ∀ out ∈ c.state.queue, out.fds = []
  bytes : c.stream.sent ++ pending c.state.queue = c.messages.flatten

/-- The part of the invariant that also holds on a stream that reports errors. -/
structure Whole (c : Sending) : Prop where
  queue : ∀ out ∈ c.state.queue, out.Open
  fds : c.state.withFd = false → ∀ out ∈ c.state.queue, out.fds = []
  bytes : c.stream.sent ++ pending c.state.queue = c.messages.flatten

/-- If the loop of `write_next_message` fails, then the stream has accepted bytes of the queue and
the queue keeps the others. -/
def KeepsBytes (R : Rustbus) (c : Sending) : SendOp → Prop
  | .write msg serial => ∀ out queue' stream', SendState.prepare R c.state msg serial = .ok out →
      SendState.writeLoop c.stream.script c.state.queue out c.stream.log =
        (.failed, queue', stream') →
      stream'.sent ++ pending queue' = c.stream.sent ++ pending c.state.queue
  | .finish => True

variable {R : Rustbus} {c : Sending}

/-- Duplicating descriptors gives none only from none. -/
private lemma dupFds_eq_nil_iff {fds : List UnixFd} {raw : List ℕ}
    (h : SendState.dupFds fds = some raw) : raw = [] ↔ fds = [] := by
  rw [SendState.dupFds] at h
  cases fds with
  | nil =>
    simp only [List.mapM_nil, Option.pure_def, Option.some.injEq] at h
    simp [← h]
  | cons fd fds =>
    simp only [List.mapM_cons, Option.bind_eq_bind, Option.bind_eq_some_iff] at h
    obtain ⟨a, -, b, -, h⟩ := h
    simp only [Option.pure_def, Option.some.injEq] at h
    simp [← h]

/-- A header is not empty. -/
private lemma length_pos_of_marshalHeader {msg : MarshalledMessage} {serial : NonZeroU32}
    {header : Bytes} (h : msg.marshalHeader R serial = .ok header) : 0 < header.length := by
  rcases msg.marshalHeader_eq R serial with ⟨-, -, heq⟩ | ⟨⟨e, herr⟩, -⟩
  · rw [h, Except.ok.injEq] at heq
    rw [heq, MarshalledMessage.headerBytes, Wire.length_alignTo]
    refine Nat.lt_of_lt_of_le ?_ (le_alignNum _ 8)
    simp only [List.length_append, MarshalledMessage.length_fixedHeader]
    omega
  · rw [h] at herr
    cases herr

/-- A message that passes the checks: it is not started, and its bytes are header and body. -/
lemma prepare_spec {s : SendState} {msg : MarshalledMessage} {serial : NonZeroU32} {out : RawOut}
    (h : SendState.prepare R s msg serial = .ok out) :
    out.Open ∧ out.unsent = messageBytes R msg serial ∧ (out.fds = [] → msg.body.rawFds = []) ∧
      (s.withFd = false → out.fds = []) := by
  unfold SendState.prepare at h
  cases hheader : msg.marshalHeader R serial with
  | error e => simp [hheader] at h
  | ok header =>
    simp only [hheader] at h
    split_ifs at h with hmany
    cases hdup : SendState.dupFds msg.body.rawFds with
    | none => simp [hdup] at h
    | some fds =>
      simp only [hdup, Except.ok.injEq] at h
      subst h
      have hlen := length_pos_of_marshalHeader hheader
      have hnil := dupFds_eq_nil_iff hdup
      refine ⟨⟨List.ne_nil_of_length_pos hlen, ?_⟩, ?_, hnil.mp, fun hfd => hnil.mpr ?_⟩
      · show 0 < header.length + msg.body.buf.length
        omega
      · simp [RawOut.unsent, messageBytes, hheader]
      · by_contra hne
        exact hmany (by simp [hfd, hne])

/-- **One careful call** keeps the accepted bytes and those pending the messages written, if it
keeps the bytes of the queue where it fails.

**Proof sketch.** By the call. `finish_sending_next` is its loop (`finishLoop_spec`). A message that
`prepare` refuses changes nothing. A prepared one goes through the loop of `write_next_message`
(`writeLoop_spec`), whose condition is that of a careful call: it is written in full and counts as a
message, it joins the queue and counts too, or the call fails, where `hkeeps` says that the bytes of
the queue are kept. -/
theorem step_whole (h : c.Whole) (op : SendOp)
    (hcareful : c.state.withFd = false ∨ CarefulStep c.state op) (hkeeps : KeepsBytes R c op) :
    (step R c op).Whole ∧ (step R c op).state.withFd = c.state.withFd ∧
      (step R c op).stream.script <:+ c.stream.script := by
  cases op with
  | finish =>
    obtain ⟨result, queue', stream', heq, h1, h2, h3, h4⟩ := SendState.finishLoop_spec
      c.stream.script c.state.queue c.stream.log h.queue
    have hstep : step R c .finish = ⟨{ c.state with queue := queue' }, stream', c.messages⟩ := by
      cases result with
      | none => simp only [step, SendState.finishSendingNext, heq]
      | some e => simp only [step, SendState.finishSendingNext, heq]
    rw [hstep]
    refine ⟨⟨h1, fun hfd => h3.eq_nil (h.fds hfd), ?_⟩, rfl, h2⟩
    rw [← h.bytes]
    exact h4
  | write msg serial =>
    cases hprep : SendState.prepare R c.state msg serial with
    | error e =>
      have hstep : step R c (.write msg serial) = c := by
        simp only [step, SendState.writeNextMessage, hprep]
      rw [hstep]
      exact ⟨h, rfl, List.suffix_rfl⟩
    | ok out =>
      obtain ⟨hopen, hunsent, hnofds, hoff⟩ := prepare_spec hprep
      have hbehind : out.fds = [] → SendState.NoFdsBehind c.state.queue := by
        intro hnil
        rcases hcareful with hfd | hcareful
        · intro o ho
          simp [RawOut.fdsToSend, h.fds hfd o (List.mem_of_mem_tail ho)]
        · exact hcareful (hnofds hnil)
      obtain ⟨queue', stream', h1, h2, h3, hend⟩ := SendState.writeLoop_spec c.stream.script
        c.state.queue out c.stream.log h.queue hopen hbehind
      have hfds : c.state.withFd = false → ∀ o ∈ queue', o.fds = [] :=
        fun hfd => h3.eq_nil (h.fds hfd)
      have hbytes : SendState.logged c.stream.log ++ pending c.state.queue ++ out.unsent =
          (c.messages ++ [messageBytes R msg serial]).flatten := by
        rw [List.flatten_append, ← h.bytes, hunsent]
        simp [SendState.logged, OutStream.sent]
      rcases hend with ⟨heq, hsum⟩ | ⟨out', hopen', hsame, heq | heq, hsum⟩
      · have hstep : step R c (.write msg serial) = ⟨{ c.state with queue := queue' }, stream',
            c.messages ++ [messageBytes R msg serial]⟩ := by
          simp only [step, SendState.writeNextMessage, hprep, heq]
        rw [hstep]
        exact ⟨⟨h1, hfds, hsum.trans hbytes⟩, rfl, h2⟩
      · have hstep : step R c (.write msg serial) =
            ⟨{ c.state with queue := queue' ++ [out'], idx := c.state.idx + 1 }, stream',
              c.messages ++ [messageBytes R msg serial]⟩ := by
          simp only [step, SendState.writeNextMessage, hprep, heq]
        rw [hstep]
        refine ⟨⟨fun o ho => ?_, fun hfd o ho => ?_, ?_⟩, rfl, h2⟩
        · rcases List.mem_append.mp ho with ho | ho
          · exact h1 o ho
          · rw [List.mem_singleton.mp ho]
            exact hopen'
        · rcases List.mem_append.mp ho with ho | ho
          · exact hfds hfd o ho
          · rw [List.mem_singleton.mp ho, hsame, hoff hfd]
        · show stream'.sent ++ pending (queue' ++ [out']) = _
          rw [← hbytes, ← hsum]
          simp [pending]
      · have hstep : step R c (.write msg serial) = ⟨{ c.state with queue := queue' }, stream',
            c.messages⟩ := by
          simp only [step, SendState.writeNextMessage, hprep, heq]
        rw [hstep]
        exact ⟨⟨h1, hfds, (hkeeps out queue' stream' hprep heq).trans h.bytes⟩, rfl, h2⟩

/-- One careful call keeps the invariant. -/
lemma step_integrity (h : c.Integrity) (op : SendOp)
    (hcareful : c.state.withFd = false ∨ CarefulStep c.state op) :
    (step R c op).Integrity ∧ (step R c op).state.withFd = c.state.withFd := by
  have hkeeps : KeepsBytes R c op := by
    cases op with
    | finish => trivial
    | write msg serial =>
      intro out queue' stream' _ hfailed
      exact absurd rfl (h.script .err (SendState.err_mem_of_failed hfailed))
  obtain ⟨hwhole, hfd, hsuffix⟩ := step_whole ⟨h.queue, h.fds, h.bytes⟩ op hcareful hkeeps
  exact ⟨⟨hwhole.queue, fun ev hev => h.script ev (hsuffix.subset hev), hwhole.fds, hwhole.bytes⟩,
    hfd⟩

/-- A run of careful calls keeps the invariant. -/
lemma integrity_run (ops : List SendOp) (h : c.Integrity)
    (hcareful : c.state.withFd = false ∨ Careful R c ops) : (run R c ops).Integrity := by
  induction ops generalizing c with
  | nil => exact h
  | cons op ops ih =>
    obtain ⟨hint, hfd⟩ := step_integrity (R := R) h op (hcareful.imp id And.left)
    exact ih hint (hcareful.imp hfd.trans And.right)

/-- **Integrity of the outgoing stream.**  In every run on a stream that reports no error, with
or without descriptors, whose calls are careful (without descriptors every call is): the bytes
accepted so far, followed by the unsent parts of the queue, are the messages written so far. -/
theorem run_integrity (R : Rustbus) (withFd : Bool) (script : List SendEvent)
    (hscript : ∀ ev ∈ script, ev ≠ .err) (ops : List SendOp)
    (hcareful : withFd = false ∨ Careful R (new withFd script) ops) :
    (run R (new withFd script) ops).stream.sent ++
        pending (run R (new withFd script) ops).state.queue =
      (run R (new withFd script) ops).messages.flatten := by
  have hnew : (new withFd script).Integrity :=
    ⟨by simp [new, SendState.new], hscript, by simp [new, SendState.new], rfl⟩
  exact (integrity_run ops hnew hcareful).bytes

/-- A signal without fields. -/
def plainSignal (fds : List UnixFd) : MarshalledMessage :=
  ⟨⟨[], [], fds, .littleEndian⟩, .default, .signal, 0⟩

/-- A message with a descriptor behind one that is sent in part. -/
theorem run_integrity_fds :
    let script := [SendEvent.accept 3, .wouldBlock, .wouldBlock, .accept 100]
    let ops := [SendOp.write (plainSignal []) ⟨1, by decide⟩,
      .write (plainSignal [⟨some 7⟩]) ⟨2, by decide⟩, .finish]
    (run .reference (new true script) ops).stream.sent.length = 16 ∧
      (run .reference (new true script) ops).stream.sent ++
          pending (run .reference (new true script) ops).state.queue =
        (run .reference (new true script) ops).messages.flatten :=
  ⟨by decide, run_integrity .reference true _ (by decide) _ (Or.inr (by
    refine ⟨fun _ => ?_, fun h => ?_, trivial, trivial⟩
    · intro out hout
      cases hout
    · cases h))⟩

/-- A message without descriptors is written while one with a descriptor waits behind another:
its bytes are sent in the place of that one's. -/
theorem run_overtakes :
    let script := [SendEvent.wouldBlock, .wouldBlock, .accept 31, .wouldBlock]
    let ops := [SendOp.write (plainSignal []) ⟨1, by decide⟩,
      .write (plainSignal [⟨some 7⟩]) ⟨2, by decide⟩, .write (plainSignal []) ⟨3, by decide⟩]
    (∀ ev ∈ script, ev ≠ .err) ∧
    (run .reference (new true script) ops).stream.sent ++
        pending (run .reference (new true script) ops).state.queue ≠
      (run .reference (new true script) ops).messages.flatten ∧
    ¬ (run .reference (new true script) ops).stream.sent <+:
      (run .reference (new true script) ops).messages.flatten := by
  decide

end Sending

end AsyncRustbus
