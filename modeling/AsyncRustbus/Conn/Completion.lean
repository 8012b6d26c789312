import AsyncRustbus.Conn.Tokens

set_option relaxedAutoImplicit false
set_option autoImplicit false

/-!
# No sender is stuck (`conn/sender.rs`, `lib.rs`)

A task in `send_msg_loop` whose message is only written in part leaves the rest of it to whoever
calls the sender next.  Once the stream takes bytes again, however few at a time, every task that
is polled ends: the bytes that are in its way are sent by the tasks polled before it or by itself.
This holds after every run, also where the stream has reported errors and with descriptors.

## Main definitions

* `AsyncRustbus.Accepting` — a stream that takes bytes at each of its next answers.
* `AsyncRustbus.Senders.Steady` — the invariant of all runs.
* `AsyncRustbus.Senders.demand` — the bytes that are in the way of the tasks.
* `AsyncRustbus.SendTask.Ends` — how a task ends.

## Main results

* `AsyncRustbus.SendState.writeLoop_completes`, `AsyncRustbus.SendState.finishLoop_completes` — the
  loops end on such a stream.
* `AsyncRustbus.Senders.run_completes` — every task that is polled ends.
-/

namespace AsyncRustbus

open SendState

/-- The next `n` answers of the stream accept bytes, at least one each. -/
def Accepting (n : ℕ) (script : List SendEvent) : Prop :=
  n ≤ script.length ∧ ∀ ev ∈ script.take n, ∃ k, ev = .accept k

/-- Fewer answers are wanted. -/
lemma Accepting.mono {m n : ℕ} {script : List SendEvent} (h : Accepting n script) (hle : m ≤ n) :
    Accepting m script := by
  refine ⟨hle.trans h.1, fun ev hev => h.2 ev ?_⟩
  exact (List.take_prefix_take_left hle).subset hev

/-- The next answer accepts bytes. -/
lemma Accepting.next {n : ℕ} {ev : SendEvent} {script : List SendEvent}
    (h : Accepting n (ev :: script)) (hpos : 0 < n) :
    (∃ k, ev = .accept k) ∧ Accepting (n - 1) script := by
  obtain ⟨hlen, hall⟩ := h
  obtain ⟨m, rfl⟩ : ∃ m, n = m + 1 := ⟨n - 1, by omega⟩
  rw [List.take_succ_cons] at hall
  rw [List.length_cons] at hlen
  refine ⟨hall ev List.mem_cons_self, ?_, fun e he => hall e (List.mem_cons_of_mem _ he)⟩
  omega

/-! ## One write -/

/-- A queue that is not empty fills a write with bytes. -/
lemma populate_flatten_pos {cap : ℕ} (hcap : 0 < cap) {out : RawOut} (hout : out.Open)
    (queue : List RawOut) : 0 < (populate cap (out :: queue) [] []).1.flatten.length := by
  have hcap' : ¬ 0 = cap := by omega
  obtain ⟨anc, heq⟩ : ∃ anc, populate cap (out :: queue) [] [] =
      populate cap queue (pushBufs cap out.outBufsLeft []) anc := by
    by_cases hfds : out.fdsToSend = true
    · exact ⟨out.fds, by simp [populate, hfds, hcap']⟩
    · exact ⟨[], by simp [populate, hfds, hcap']⟩
  obtain ⟨l, hl⟩ := prefix_populate cap queue (pushBufs cap out.outBufsLeft []) anc
  obtain ⟨l', hl'⟩ := exists_pushBufs cap out.outBufsLeft []
  have hbuf := List.length_pos_of_ne_nil (outBufsLeft_ne_nil hout.left)
  rw [heq, ← hl, hl']
  simp only [List.nil_append, List.cons_append, List.flatten_cons, List.length_append]
  omega

/-- A write of the queue offers no more than is pending. -/
lemma length_populate_flatten (cap : ℕ) (queue : List RawOut) :
    (populate cap queue [] []).1.flatten.length ≤ (pending queue).length := by
  obtain ⟨-, -, t, hflat, -⟩ := populate_spec cap queue [] [] (Nat.zero_le _)
  have hlen := congrArg List.length hflat
  simp only [List.length_append, List.flatten_nil, List.nil_append] at hlen
  omega

/-- A write of the queue and a new message offers bytes, and no more than there are.

**Proof sketch.** The slices of the queue are no more than its bytes (`length_populate_flatten`) and
hold at least one byte if it is not empty (`populate_flatten_pos`). If the message is pushed behind
them, its slices hold a first part of what is left of it, and its first slice is not empty. If it is
not, the queue is not empty, because an empty queue leaves room for it. -/
lemma length_writeBufs_flatten {queue : List RawOut} {out : RawOut}
    (hqueue : ∀ o ∈ queue, o.Open) (hout : out.Open) :
    0 < (writeBufs queue out).1.flatten.length ∧
      (writeBufs queue out).1.flatten.length ≤ (pending queue).length + out.toWrite := by
  have hpop := length_populate_flatten 34 queue
  obtain ⟨hle, -⟩ := populate_spec 34 queue [] [] (Nat.zero_le _)
  have hfirst : queue ≠ [] → 0 < (populate 34 queue [] []).1.flatten.length := by
    intro hne
    cases queue with
    | nil => exact absurd rfl hne
    | cons o queue => exact populate_flatten_pos (by omega) (hqueue o List.mem_cons_self) queue
  rcases hios : populate 34 queue [] [] with ⟨ios, anc⟩
  rw [hios] at hpop hle hfirst
  dsimp only at hpop hle hfirst
  by_cases hpush : ios.length ≠ 34 ∧ (out.fds.isEmpty = true ∨ ios.isEmpty = true)
  · have heq : (writeBufs queue out).1 = pushBufs 34 out.outBufsLeft ios := by
      simp only [writeBufs, hios, if_pos hpush]
      rfl
    obtain ⟨-, -, t, hflat, -⟩ := pushBufs_spec ios (Nat.lt_of_le_of_ne hle hpush.1)
      out.outBufsLeft
    obtain ⟨l, hl⟩ := exists_pushBufs 34 out.outBufsLeft ios
    have hlen := congrArg List.length hflat
    have hbuf := List.length_pos_of_ne_nil (outBufsLeft_ne_nil hout.left)
    rw [List.length_append, List.length_append, out.length_outBufsLeft] at hlen
    rw [heq]
    refine ⟨?_, by omega⟩
    rw [hl, List.flatten_append, List.flatten_cons, List.length_append, List.length_append]
    omega
  · have heq : (writeBufs queue out).1 = ios := by
      simp only [writeBufs, hios, if_neg hpush]
    rw [heq]
    refine ⟨hfirst ?_, by omega⟩
    rintro rfl
    -- an empty queue leaves room for the message
    have hnil : ios = [] := (congrArg Prod.fst hios).symm
    exact hpush ⟨by rw [hnil]; decide, .inr (by rw [hnil]; rfl)⟩

namespace SendState

/-- **One accepted write of the queue** leaves less of it. -/
lemma finishLoop_progress {out : RawOut} {queue : List RawOut}
    (hqueue : ∀ o ∈ out :: queue, o.Open) (n : ℕ) (script : List SendEvent)
    (log : List (Bytes × List ℕ)) :
    ∃ queue' log', (∀ o ∈ queue', o.Open) ∧
      (pending queue').length < (pending (out :: queue)).length ∧
      finishLoop (.accept n :: script) (out :: queue) log = finishLoop script queue' log' := by
  have hpos := populate_flatten_pos (by omega : 0 < 32) (hqueue out List.mem_cons_self) queue
  have hle := length_populate_flatten 32 (out :: queue)
  rcases hpop : populate 32 (out :: queue) [] [] with ⟨ios, anc⟩
  rw [hpop] at hpos hle
  dsimp only at hpos hle
  obtain ⟨k, hk⟩ : ∃ k, k = min (n + 1) ios.flatten.length := ⟨_, rfl⟩
  obtain ⟨-, hpend, hopen, -⟩ := updateWritten_spec (out :: queue) k hqueue
  refine ⟨_, _, hopen, ?_, finishLoop_accept hpop hk script log⟩
  rw [hpend, List.length_drop]
  omega

/-- **One accepted write of the queue and a new message** leaves less of both; at last, the
message is written.

**Proof sketch.** The bytes offered are at least one and no more than there are, so the stream takes
between one and all of them. `updateWritten_spec` says how they are shared: what the queue does not
take is written of the message. If nothing is left over, the queue got shorter; otherwise the
message did, or it is complete. -/
lemma writeLoop_progress {queue : List RawOut} {out : RawOut} (hqueue : ∀ o ∈ queue, o.Open)
    (hout : out.Open) (n : ℕ) (script : List SendEvent) (log : List (Bytes × List ℕ)) :
    ∃ queue' log', (∀ o ∈ queue', o.Open) ∧
      ((∃ out' : RawOut, out'.Open ∧
        (pending queue').length + out'.toWrite < (pending queue).length + out.toWrite ∧
        writeLoop (.accept n :: script) queue out log = writeLoop script queue' out' log') ∨
      ((pending queue').length < (pending queue).length + out.toWrite ∧
        writeLoop (.accept n :: script) queue out log = (.written, queue', ⟨log', script⟩))) := by
  obtain ⟨hpos, hle⟩ := length_writeBufs_flatten hqueue hout
  rcases hbufs : writeBufs queue out with ⟨ios, anc⟩
  rw [hbufs] at hpos hle
  dsimp only at hpos hle
  obtain ⟨k, hk⟩ : ∃ k, k = min (n + 1) ios.flatten.length := ⟨_, rfl⟩
  obtain ⟨hleft, hpend, hopen, -⟩ := updateWritten_spec queue k hqueue
  rcases hupd : updateWritten queue k with ⟨left, queue'⟩
  rw [hupd] at hleft hpend hopen
  dsimp only at hleft hpend hopen
  have hlen := congrArg List.length hpend
  rw [List.length_drop] at hlen
  have hwrite : out.toWrite = out.header.length + out.body.length - out.written := rfl
  have hmore := hout.left
  refine ⟨queue', accept log ios anc k, hopen, ?_⟩
  rw [writeLoop_accept hbufs hk hupd]
  by_cases hzero : left = 0
  · rw [if_pos hzero]
    exact .inl ⟨out, hout, by omega, rfl⟩
  rw [if_neg hzero]
  by_cases hdone : out.written + left = out.header.length + out.body.length
  · rw [if_pos hdone]
    exact .inr ⟨by omega, rfl⟩
  · rw [if_neg hdone]
    refine .inl ⟨{ out with written := out.written + left }, ⟨hout.header, ?_⟩, ?_, rfl⟩
    · show out.written + left < out.header.length + out.body.length
      omega
    · rw [out.toWrite_written]
      omega

/-- **The loop of `write_next_message`** leaves messages in the queue that are not sent in full,
whatever the stream answers. -/
lemma writeLoop_open (script : List SendEvent) {queue : List RawOut} {out : RawOut}
    (hqueue : ∀ o ∈ queue, o.Open) (hout : out.Open) (log : List (Bytes × List ℕ)) :
    ∃ result queue' stream', writeLoop script queue out log = (result, queue', stream') ∧
      (∀ o ∈ queue', o.Open) ∧ ∀ out', result = .blocked out' → out'.Open := by
  have hblocked : ∀ out', WriteEnd.blocked out = .blocked out' → out'.Open := by
    rintro out' ⟨⟩
    exact hout
  induction script generalizing queue out log with
  | nil => exact ⟨_, _, _, rfl, hqueue, hblocked⟩
  | cons ev script ih =>
    cases ev with
    | wouldBlock => exact ⟨_, _, _, rfl, hqueue, hblocked⟩
    | err => exact ⟨_, _, _, rfl, hqueue, fun out' h => by cases h⟩
    | accept n =>
      obtain ⟨queue', log', hopen, ⟨out', hout', -, heq⟩ | ⟨-, heq⟩⟩ :=
        writeLoop_progress hqueue hout n script log
      · rw [heq]
        refine ih hopen hout' log' ?_
        rintro out'' ⟨⟩
        exact hout'
      · exact ⟨_, _, _, heq, hopen, fun out' h => by cases h⟩

/-- **The loop of `finish_sending_next` empties the queue** on a stream that accepts bytes.

**Proof sketch.** Induction on the answers: each one that is used makes the pending bytes fewer. -/
theorem finishLoop_completes (n : ℕ) (script : List SendEvent) {queue : List RawOut}
    (hqueue : ∀ o ∈ queue, o.Open) (log : List (Bytes × List ℕ))
    (haccept : Accepting ((pending queue).length + n) script) :
    ∃ stream', finishLoop script queue log = (none, [], stream') ∧
      Accepting n stream'.script := by
  induction script generalizing queue log with
  | nil =>
    cases queue with
    | nil => exact ⟨⟨log, []⟩, rfl, haccept.mono (by omega)⟩
    | cons out queue =>
      have hpos := (hqueue out List.mem_cons_self).toWrite_pos
      have hlen := haccept.1
      rw [length_pending_cons, List.length_nil] at hlen
      omega
  | cons ev script ih =>
    cases queue with
    | nil => exact ⟨⟨log, ev :: script⟩, rfl, haccept.mono (by omega)⟩
    | cons out queue =>
      have hpos := (hqueue out List.mem_cons_self).toWrite_pos
      have hlen := length_pending_cons out queue
      obtain ⟨⟨k, rfl⟩, hrest⟩ := haccept.next (by omega)
      obtain ⟨queue', log', hopen, hless, heq⟩ := finishLoop_progress hqueue k script log
      rw [heq]
      apply ih hopen log'
      apply hrest.mono
      omega

/-- **The loop of `write_next_message` writes the message** on a stream that accepts bytes. -/
theorem writeLoop_completes (n : ℕ) (script : List SendEvent) {queue : List RawOut} {out : RawOut}
    (hqueue : ∀ o ∈ queue, o.Open) (hout : out.Open) (log : List (Bytes × List ℕ))
    (haccept : Accepting ((pending queue).length + out.toWrite + n) script) :
    ∃ queue' stream', writeLoop script queue out log = (.written, queue', stream') ∧
      (∀ o ∈ queue', o.Open) ∧ Accepting ((pending queue').length + n) stream'.script := by
  have hpos := hout.toWrite_pos
  induction script generalizing queue out log with
  | nil =>
    have hlen := haccept.1
    rw [List.length_nil] at hlen
    omega
  | cons ev script ih =>
    obtain ⟨⟨k, rfl⟩, hrest⟩ := haccept.next (by omega)
    obtain ⟨queue', log', hopen, ⟨out', hout', hless, heq⟩ | ⟨hless, heq⟩⟩ :=
      writeLoop_progress hqueue hout k script log
    · rw [heq]
      apply ih hopen hout' log' _ hout'.toWrite_pos
      apply hrest.mono
      omega
    · exact ⟨queue', _, heq, hopen, hrest.mono (by omega)⟩

end SendState

/-! ## One call -/

namespace Tracked

variable {R : Rustbus} {c : Tracked}

/-- `finish_sending_next` leaves messages that are not sent in full, and issues no token. -/
lemma finish_open (hqueue : ∀ out ∈ c.state.queue, out.Open) :
    (∀ out ∈ c.finish.2.state.queue, out.Open) ∧ c.finish.2.state.idx = c.state.idx ∧
      c.finish.2.state.withFd = c.state.withFd := by
  obtain ⟨result, queue, stream, heq, hopen, -⟩ :=
    finishLoop_spec c.stream.script c.state.queue c.stream.log hqueue
  cases result with
  | none => simpa [finish, finishSendingNext, heq] using hopen
  | some e => simpa [finish, finishSendingNext, heq] using hopen

/-- `write_next_message` leaves messages that are not sent in full; the token that it returns is
below the next one.

**Proof sketch.** By the result of `prepare` and, for a prepared message, the end of the loop
(`writeLoop_open`). A message that blocks joins the queue, not sent in full, and its token is the
index before it is increased. -/
lemma write_open (hqueue : ∀ out ∈ c.state.queue, out.Open) (msg : MarshalledMessage)
    (serial : NonZeroU32) :
    (∀ out ∈ (c.write R msg serial).2.state.queue, out.Open) ∧
      c.state.idx ≤ (c.write R msg serial).2.state.idx ∧
      (c.write R msg serial).2.state.withFd = c.state.withFd ∧
      ∀ token, (c.write R msg serial).1 = .ok (some token) →
        token < (c.write R msg serial).2.state.idx := by
  cases hprep : prepare R c.state msg serial with
  | error e =>
    have heq : c.write R msg serial = (.error e, c) := by
      simp only [write, writeNextMessage, hprep]
    rw [heq]
    exact ⟨hqueue, Nat.le_refl _, rfl, fun token h => by cases h⟩
  | ok out =>
    obtain ⟨hout, -⟩ := Sending.prepare_spec hprep
    obtain ⟨result, queue, stream, heq, hopen, hblocked⟩ :=
      writeLoop_open c.stream.script hqueue hout c.stream.log
    cases result with
    | written =>
      simp only [write, writeNextMessage, hprep, heq]
      exact ⟨hopen, Nat.le_refl _, trivial, fun token h => by cases h⟩
    | failed =>
      simp only [write, writeNextMessage, hprep, heq]
      exact ⟨hopen, Nat.le_refl _, trivial, fun token h => by cases h⟩
    | blocked out' =>
      simp only [write, writeNextMessage, hprep, heq]
      refine ⟨fun o ho => ?_, Nat.le_succ _, trivial, ?_⟩
      · rcases List.mem_append.mp ho with ho | ho
        · exact hopen o ho
        · rw [List.mem_singleton.mp ho]
          exact hblocked out' rfl
      · rintro token ⟨⟩
        exact Nat.lt_succ_self _

/-- On a stream that accepts bytes, `finish_sending_next` empties the queue. -/
lemma finish_completes (hqueue : ∀ out ∈ c.state.queue, out.Open) {n : ℕ}
    (haccept : Accepting ((pending c.state.queue).length + n) c.stream.script) :
    ∃ stream, c.finish = (.ok c.state.idx, ⟨{ c.state with queue := [] }, stream, c.messages,
        c.results⟩) ∧ Accepting n stream.script := by
  obtain ⟨stream, heq, hrest⟩ := finishLoop_completes n c.stream.script hqueue c.stream.log haccept
  exact ⟨stream, by simp only [finish, finishSendingNext, heq]; rfl, hrest⟩

/-- On a stream that accepts bytes, `write_next_message` writes a message that passes the
checks. -/
lemma write_completes (hqueue : ∀ out ∈ c.state.queue, out.Open) {msg : MarshalledMessage}
    {serial : NonZeroU32} {out : RawOut} (hprep : prepare R c.state msg serial = .ok out) {n : ℕ}
    (haccept : Accepting ((pending c.state.queue).length + (messageBytes R msg serial).length + n)
      c.stream.script) :
    ∃ queue stream, c.write R msg serial = (.ok none, ⟨{ c.state with queue := queue }, stream,
        c.messages ++ [packet R msg serial], c.results ++ [none]⟩) ∧
      (∀ o ∈ queue, o.Open) ∧ Accepting ((pending queue).length + n) stream.script := by
  obtain ⟨hout, hbytes, -⟩ := Sending.prepare_spec hprep
  rw [← hbytes, out.length_unsent] at haccept
  obtain ⟨queue, stream, heq, hopen, hrest⟩ :=
    writeLoop_completes n c.stream.script hqueue hout c.stream.log haccept
  exact ⟨queue, stream, by simp only [write, writeNextMessage, hprep, heq], hopen, hrest⟩

end Tracked

/-! ## Tasks -/

/-- The bytes that a task has not handed to the sender yet. -/
def SendTask.demand (R : Rustbus) (task : SendTask) : ℕ :=
  match task.phase with
  | .start => (messageBytes R task.msg task.serial).length
  | _ => 0

/-- How a task ends that is polled while the stream accepts bytes: with its message written,
unless that does not pass the checks of the sender. -/
def SendTask.Ends (R : Rustbus) (s : SendState) (task task' : SendTask) : Prop :=
  match task.phase with
  | .start => (∃ number, task' = { task with phase := .returned number }) ∨
      (task' = { task with phase := .failed } ∧ ∃ e, s.prepare R task.msg task.serial = .error e)
  | .waiting _ number => task' = { task with phase := .returned number }
  | .returned _ => task' = task
  | .failed => task' = task

/-- A task that has ended is at its end. -/
lemma SendTask.Ends.settled {R : Rustbus} {s : SendState} {task task' : SendTask}
    (h : task.Ends R s task') :
    (∃ number, task'.phase = .returned number) ∨ task'.phase = .failed := by
  unfold SendTask.Ends at h
  cases hphase : task.phase with
  | start =>
    rw [hphase] at h
    rcases h with ⟨number, rfl⟩ | ⟨rfl, -⟩
    · exact .inl ⟨number, rfl⟩
    · exact .inr rfl
  | waiting token number =>
    rw [hphase] at h
    rw [h]
    exact .inl ⟨number, rfl⟩
  | returned number =>
    rw [hphase] at h
    rw [h]
    exact .inl ⟨number, hphase⟩
  | failed =>
    rw [hphase] at h
    rw [h]
    exact .inr hphase

/-- A task that is at its end stays as it is. -/
lemma SendTask.Ends.eq_of_settled {R : Rustbus} {s : SendState} {task task' : SendTask}
    (h : task.Ends R s task')
    (hsettled : (∃ number, task.phase = .returned number) ∨ task.phase = .failed) :
    task' = task := by
  unfold SendTask.Ends at h
  rcases hsettled with ⟨number, hphase⟩ | hphase
  · rw [hphase] at h
    exact h
  · rw [hphase] at h
    exact h

namespace Senders

variable {R : Rustbus} {s : Senders}

/-- The bytes of the messages of the tasks that are not written yet. -/
def unwritten (R : Rustbus) : List SendTask → ℕ
  | [] => 0
  | task :: tasks => task.demand R + unwritten R tasks

/-- The bytes that are in the way of the tasks: those of the queue and those of the messages that
are not written yet. -/
def demand (R : Rustbus) (s : Senders) : ℕ :=
  (pending s.sender.state.queue).length + unwritten R s.tasks

/-- What holds after every run: the messages of the queue are not sent in full, and the tokens of
the tasks have been issued. -/
structure Steady (s : Senders) : Prop where
  queue : ∀ out ∈ s.sender.state.queue, out.Open
  tokens : ∀ task ∈ s.tasks, ∀ token number, task.phase = .waiting token number →
    token < s.sender.state.idx

/-- The token of a task after a pass of its loop is issued.

**Proof sketch.** By the phase of the task. At the start it calls `write_next_message`, which issues
the token it returns (`Tracked.write_open`). A waiting task keeps its token while
`finish_sending_next` leaves the index as it is (`Tracked.finish_open`). A task that has ended does
nothing. -/
private lemma token_sendMsgLoopBody {c : Tracked} {task : SendTask}
    (hqueue : ∀ out ∈ c.state.queue, out.Open)
    (htoken : ∀ token number, task.phase = .waiting token number → token < c.state.idx) :
    (∀ out ∈ (sendMsgLoopBody R c task).2.state.queue, out.Open) ∧
      c.state.idx ≤ (sendMsgLoopBody R c task).2.state.idx ∧
      (sendMsgLoopBody R c task).2.state.withFd = c.state.withFd ∧
      ∀ token number, (sendMsgLoopBody R c task).1.phase = .waiting token number →
        token < (sendMsgLoopBody R c task).2.state.idx := by
  unfold sendMsgLoopBody
  cases hphase : task.phase with
  | start =>
    obtain ⟨hopen, hidx, hfd, hissued⟩ :=
      Tracked.write_open (R := R) hqueue task.msg task.serial
    generalize c.write R task.msg task.serial = r at hopen hidx hfd hissued ⊢
    obtain ⟨(e | (_ | token)), c'⟩ := r
    · exact ⟨hopen, hidx, hfd, fun token number h => by cases h⟩
    · exact ⟨hopen, hidx, hfd, fun token number h => by cases h⟩
    · refine ⟨hopen, hidx, hfd, ?_⟩
      rintro _ _ ⟨⟩
      exact hissued token rfl
  | waiting token number =>
    dsimp only
    split_ifs with hpassed
    · exact ⟨hqueue, Nat.le_refl _, rfl, fun token number h => by cases h⟩
    · obtain ⟨hopen, hidx, hfd⟩ := Tracked.finish_open hqueue
      generalize c.finish = r at hopen hidx hfd ⊢
      obtain ⟨(e | newIdx), c'⟩ := r
      · exact ⟨hopen, hidx.ge, hfd, fun token number h => by cases h⟩
      · dsimp only at hopen hidx hfd ⊢
        split_ifs with hnew
        · exact ⟨hopen, hidx.ge, hfd, fun token number h => by cases h⟩
        · refine ⟨hopen, hidx.ge, hfd, fun token' number' h => ?_⟩
          rw [hidx]
          exact htoken token' number' h
  | returned number =>
    exact ⟨hqueue, Nat.le_refl _, rfl, htoken⟩
  | failed => exact ⟨hqueue, Nat.le_refl _, rfl, htoken⟩

/-- One step keeps the invariant.

**Proof sketch.** By the kind of step. A new task waits for no token. A poll changes one task, and
`token_sendMsgLoopBody` says that its token is issued; the tokens of the others stay so, because the
index does not decrease. The same holds of a call without a task. -/
lemma Steady.step (h : s.Steady) (op : SendersOp) :
    (s.step R op).Steady ∧ (s.step R op).sender.state.withFd = s.sender.state.withFd := by
  cases op with
  | spawn msg serial =>
    refine ⟨⟨h.queue, fun task htask token number hphase => ?_⟩, rfl⟩
    rcases List.mem_append.mp htask with htask | htask
    · exact h.tokens task htask token number hphase
    · rw [List.mem_singleton.mp htask] at hphase
      cases hphase
  | poll t =>
    cases ht : s.tasks[t]? with
    | none =>
      have heq : s.step R (.poll t) = s := by simp only [Senders.step, ht]
      rw [heq]
      exact ⟨h, rfl⟩
    | some task =>
      have heq : s.step R (.poll t) = ⟨(sendMsgLoopBody R s.sender task).2,
          s.tasks.set t (sendMsgLoopBody R s.sender task).1⟩ := by
        simp only [Senders.step, ht]
      obtain ⟨hopen, hidx, hfd, htoken⟩ := token_sendMsgLoopBody (R := R) h.queue
        (h.tokens task (List.mem_of_getElem? ht))
      rw [heq]
      refine ⟨⟨hopen, fun task' htask' token number hphase => ?_⟩, hfd⟩
      rcases List.mem_or_eq_of_mem_set htask' with hold | rfl
      · exact (h.tokens task' hold token number hphase).trans_le hidx
      · exact htoken token number hphase
  | call op =>
    cases op with
    | write msg serial =>
      obtain ⟨hopen, hidx, hfd, -⟩ := Tracked.write_open (R := R) h.queue msg serial
      exact ⟨⟨hopen, fun task htask token number hphase =>
        (h.tokens task htask token number hphase).trans_le hidx⟩, hfd⟩
    | finish =>
      obtain ⟨hopen, hidx, hfd⟩ := Tracked.finish_open h.queue
      exact ⟨⟨hopen, fun task htask token number hphase =>
        (h.tokens task htask token number hphase).trans_le hidx.ge⟩, hfd⟩

/-- A run keeps the invariant. -/
lemma Steady.run (h : s.Steady) (ops : List SendersOp) : (s.run R ops).Steady := by
  induction ops generalizing s with
  | nil => exact h
  | cons op ops ih => exact ih (h.step op).1

/-- The invariant at the start. -/
lemma steady_new (withFd : Bool) (script : List SendEvent) : (new withFd script).Steady :=
  ⟨fun _ hout => absurd hout List.not_mem_nil, fun _ htask => absurd htask List.not_mem_nil⟩

/-- The demand after one task has ended. -/
private lemma unwritten_set {tasks : List SendTask} {t : ℕ} {task task' : SendTask}
    (ht : tasks[t]? = some task) (hzero : task'.demand R = 0) :
    unwritten R (tasks.set t task') + task.demand R = unwritten R tasks := by
  induction tasks generalizing t with
  | nil => cases ht
  | cons head tasks ih =>
    cases t with
    | zero =>
      obtain rfl : head = task := by simpa using ht
      simp only [List.set_cons_zero, unwritten, hzero]
      omega
    | succ t =>
      have hrest := ih (by simpa using ht)
      simp only [List.set_cons_succ, unwritten]
      omega

/-- A task that is at its end wants nothing. -/
private lemma demand_of_settled {task : SendTask}
    (h : (∃ number, task.phase = .returned number) ∨ task.phase = .failed) :
    task.demand R = 0 := by
  unfold SendTask.demand
  rcases h with ⟨number, hphase⟩ | hphase
  · rw [hphase]
  · rw [hphase]

/-- **One pass of the loop of `send_msg_loop` ends the task** on a stream that accepts the bytes
that are in its way.

**Proof sketch.** By the phase of the task. At the start the message is written with all that is in
front of it (`Tracked.write_completes`), unless `prepare` refuses it. A waiting task finds its token
passed, or it empties the queue (`Tracked.finish_completes`) and then every token is passed. A task
that has ended stays so. -/
lemma sendMsgLoopBody_ends {c : Tracked} {task : SendTask}
    (hqueue : ∀ out ∈ c.state.queue, out.Open)
    (htoken : ∀ token number, task.phase = .waiting token number → token < c.state.idx) {n : ℕ}
    (haccept : Accepting ((pending c.state.queue).length + task.demand R + n) c.stream.script) :
    task.Ends R c.state (sendMsgLoopBody R c task).1 ∧
      Accepting ((pending (sendMsgLoopBody R c task).2.state.queue).length + n)
        (sendMsgLoopBody R c task).2.stream.script := by
  unfold sendMsgLoopBody SendTask.Ends
  unfold SendTask.demand at haccept
  cases hphase : task.phase with
  | start =>
    rw [hphase] at haccept
    cases hprep : prepare R c.state task.msg task.serial with
    | error e =>
      have heq : c.write R task.msg task.serial = (.error e, c) := by
        simp only [Tracked.write, writeNextMessage, hprep]
      rw [heq]
      dsimp only at haccept ⊢
      exact ⟨.inr ⟨rfl, e, rfl⟩, haccept.mono (by omega)⟩
    | ok out =>
      obtain ⟨queue, stream, heq, -, hrest⟩ := Tracked.write_completes hqueue hprep haccept
      rw [heq]
      exact ⟨.inl ⟨_, rfl⟩, hrest⟩
  | waiting token number =>
    rw [hphase] at haccept
    dsimp only at haccept ⊢
    split_ifs with hpassed
    · exact ⟨rfl, haccept⟩
    · obtain ⟨stream, heq, hrest⟩ := Tracked.finish_completes hqueue haccept
      rw [heq]
      dsimp only
      rw [if_pos (htoken token number hphase)]
      exact ⟨rfl, hrest.mono (Nat.le_of_eq (Nat.zero_add n))⟩
  | returned number =>
    rw [hphase] at haccept
    exact ⟨rfl, haccept⟩
  | failed =>
    rw [hphase] at haccept
    exact ⟨rfl, haccept⟩

/-- **One poll ends its task** and leaves the others as they are; the stream still accepts the
bytes that are in their way.

**Proof sketch.** The demand is that of the queue, of the task and of the other tasks, so
`sendMsgLoopBody_ends` applies with the last as what is to be accepted later. The task has no demand
afterwards, and the others have the same as before (`unwritten_set`). -/
lemma Steady.poll (h : s.Steady) {t : ℕ} {task : SendTask} (ht : s.tasks[t]? = some task)
    (haccept : Accepting (s.demand R) s.sender.stream.script) :
    ∃ task', (s.step R (.poll t)).tasks = s.tasks.set t task' ∧
      task.Ends R s.sender.state task' ∧
      Accepting ((s.step R (.poll t)).demand R) (s.step R (.poll t)).sender.stream.script := by
  have heq : s.step R (.poll t) = ⟨(sendMsgLoopBody R s.sender task).2,
      s.tasks.set t (sendMsgLoopBody R s.sender task).1⟩ := by
    simp only [Senders.step, ht]
  -- what the other tasks want
  obtain ⟨n, hn⟩ : ∃ n, n + task.demand R = unwritten R s.tasks := by
    have hfailed : ({ task with phase := .failed } : SendTask).demand R = 0 := rfl
    exact ⟨_, unwritten_set ht hfailed⟩
  have hdemand : s.demand R = (pending s.sender.state.queue).length + task.demand R + n := by
    unfold demand
    omega
  rw [hdemand] at haccept
  obtain ⟨hends, hrest⟩ := sendMsgLoopBody_ends h.queue
    (h.tokens task (List.mem_of_getElem? ht)) haccept
  have hzero := demand_of_settled (R := R) hends.settled
  have hothers := unwritten_set (R := R) ht hzero
  rw [heq]
  refine ⟨_, rfl, hends, ?_⟩
  apply hrest.mono
  show (pending (sendMsgLoopBody R s.sender task).2.state.queue).length +
    unwritten R (s.tasks.set t (sendMsgLoopBody R s.sender task).1) ≤ _
  omega

/-- The checks of a message do not depend on what has been sent. -/
private lemma prepare_congr {s s' : SendState} (hfd : s.withFd = s'.withFd)
    (msg : MarshalledMessage) (serial : NonZeroU32) :
    s.prepare R msg serial = s'.prepare R msg serial := by
  unfold prepare
  rw [hfd]

/-- How a task ends does not depend on what has been sent. -/
private lemma ends_congr {s s' : SendState} (hfd : s.withFd = s'.withFd) {task task' : SendTask}
    (h : task.Ends R s task') : task.Ends R s' task' := by
  unfold SendTask.Ends at h ⊢
  rw [← prepare_congr hfd]
  exact h

/-- Polls one after the other: every task is left as it is or ends, and ends if it is polled.

**Proof sketch.** Induction on the polls.  A task that has ended before stays as it is. -/
lemma Steady.polls (h : s.Steady) (turns : List ℕ)
    (haccept : Accepting (s.demand R) s.sender.stream.script) {t : ℕ} {task : SendTask}
    (ht : s.tasks[t]? = some task) :
    ∃ task', (s.run R (turns.map .poll)).tasks[t]? = some task' ∧
      (task' = task ∨ task.Ends R s.sender.state task') ∧
      (t ∈ turns → task.Ends R s.sender.state task') := by
  induction turns generalizing s task with
  | nil => exact ⟨task, ht, .inl rfl, fun hmem => absurd hmem List.not_mem_nil⟩
  | cons turn turns ih =>
    obtain ⟨hsteady, hfd⟩ := h.step (R := R) (.poll turn)
    have hrun : s.run R ((turn :: turns).map .poll) =
        (s.step R (.poll turn)).run R (turns.map .poll) := rfl
    rw [hrun]
    cases hturn : s.tasks[turn]? with
    | none =>
      have heq : s.step R (.poll turn) = s := by simp only [Senders.step, hturn]
      have hne : t ≠ turn := by
        rintro rfl
        rw [hturn] at ht
        cases ht
      rw [heq]
      obtain ⟨task', htask', hkept, hends⟩ := ih h haccept ht
      refine ⟨task', htask', hkept, fun hmem => hends ?_⟩
      exact (List.mem_cons.mp hmem).resolve_left hne
    | some task₀ =>
      obtain ⟨task₁, htasks, hends₁, haccept'⟩ := h.poll hturn haccept
      by_cases hsame : t = turn
      · subst hsame
        obtain rfl : task₀ = task := by
          rw [hturn] at ht
          exact Option.some.inj ht
        have hnext : (s.step R (.poll t)).tasks[t]? = some task₁ := by
          rw [htasks, List.getElem?_set_self (List.getElem?_eq_some_iff.mp hturn).1]
        obtain ⟨task', htask', hkept, -⟩ := ih hsteady haccept' hnext
        have heq : task' = task₁ :=
          hkept.elim id fun hends => hends.eq_of_settled hends₁.settled
        rw [heq] at htask'
        exact ⟨task₁, htask', .inr hends₁, fun _ => hends₁⟩
      · have hnext : (s.step R (.poll turn)).tasks[t]? = some task := by
          rw [htasks, List.getElem?_set_ne (Ne.symm hsame), ht]
        obtain ⟨task', htask', hkept, hends⟩ := ih hsteady haccept' hnext
        refine ⟨task', htask', hkept.imp id (ends_congr hfd), fun hmem => ?_⟩
        exact ends_congr hfd (hends ((List.mem_cons.mp hmem).resolve_left hsame))

/-- **No sender is stuck.**  After every run of tasks in `send_msg_loop` and other calls, with or
without descriptors and whatever the stream has answered so far: if the stream now accepts at least
one byte at each of its next answers, as many as there are bytes in the way of the tasks, then in
every order every task that is polled ends.  It returns `Ok`, unless it had failed before or its
message does not pass the checks of the sender. -/
theorem run_completes (R : Rustbus) (withFd : Bool) (script : List SendEvent)
    (ops : List SendersOp) (turns : List ℕ)
    (haccept : Accepting (((new withFd script).run R ops).demand R)
      ((new withFd script).run R ops).sender.stream.script) :
    ∀ t ∈ turns, ∀ task, ((new withFd script).run R ops).tasks[t]? = some task →
      ∃ task', (((new withFd script).run R ops).run R (turns.map .poll)).tasks[t]? = some task' ∧
        task.Ends R ((new withFd script).run R ops).sender.state task' := by
  intro t ht task htask
  obtain ⟨task', htask', -, hends⟩ :=
    ((steady_new withFd script).run ops).polls turns haccept htask
  exact ⟨task', htask', hends ht⟩

/-- Two tasks that wait behind a third that is not polled: the stream takes one byte at a time. -/
theorem run_completes_three :
    let script := [SendEvent.accept 3, .wouldBlock, .wouldBlock] ++
      List.replicate 200 (SendEvent.accept 0)
    let ops := [SendersOp.spawn (Sending.plainSignal []) ⟨1, by decide⟩,
      .spawn (Sending.plainSignal []) ⟨2, by decide⟩,
      .spawn (Sending.plainSignal []) ⟨3, by decide⟩, .poll 0, .poll 1]
    let s := (new false script).run .reference ops
    s.tasks.map SendTask.phase = [.waiting 0 0, .waiting 1 1, .start] ∧
      ∀ t ∈ [2, 1], ∀ task, s.tasks[t]? = some task →
        ∃ task', (s.run .reference ([2, 1].map .poll)).tasks[t]? = some task' ∧
          task.Ends .reference s.sender.state task' := by
  intro script ops s
  refine ⟨by decide, run_completes .reference false script ops [2, 1] ?_⟩
  have hdemand : s.demand .reference ≤ 200 := by decide
  have hscript : s.sender.stream.script = List.replicate 200 (.accept 0) := rfl
  refine ⟨?_, fun ev hev => ⟨0, ?_⟩⟩
  · rw [hscript, List.length_replicate]
    exact hdemand
  · rw [hscript] at hev
    exact List.eq_of_mem_replicate (List.mem_of_mem_take hev)

end Senders

end AsyncRustbus
