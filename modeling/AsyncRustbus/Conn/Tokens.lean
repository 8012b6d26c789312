import AsyncRustbus.Conn.Ledger
import Mathlib.Data.List.ReduceOption

set_option relaxedAutoImplicit false
set_option autoImplicit false

/-!
# Completion tokens (`conn/sender.rs`, `lib.rs`)

`write_next_message` returns nothing when the message is written, and otherwise a token; a task
that holds a token waits until `current_idx` has passed it, which may be the work of other tasks.
On a connection without descriptors this is truthful in every interleaving: a token is passed
exactly when the stream has accepted its message.

## Main definitions

* `AsyncRustbus.Tracked.OnWire` — a message and all before it are accepted in full.
* `AsyncRustbus.Tracked.Truthful` — what the tokens promise.
* `AsyncRustbus.SendTask`, `AsyncRustbus.sendMsgLoopBody` — a task in `send_msg_loop` and the body
  of its loop.
* `AsyncRustbus.Senders` — tasks that share a connection.

## Main results

* `AsyncRustbus.Tracked.Tokens.truthful` — the invariant of the tokens makes them truthful.
* `AsyncRustbus.Senders.run_truthful` — they are, in every interleaving of tasks, and
  `send_msg_loop` returns only when its message is on the wire.
-/

namespace AsyncRustbus

namespace Tracked

/-! ## Tokens -/

/-- Every byte of message number `j` and of all earlier ones is accepted. -/
def OnWire (c : Tracked) (j : ℕ) : Prop :=
  (c.messages.take (j + 1)).flatMap Prod.fst <+: c.stream.sent

/-- The tokens are truthful: a write that returns none is on the wire; tokens increase; the
current index does not underflow; and it has passed a token iff its message is on the wire.  The
counter is at most the number of messages, so its 64 bits are enough for `2 ^ 64` of them. -/
structure Truthful (c : Tracked) : Prop where
  stream : c.stream.sent <+: c.messages.flatMap Prod.fst
  immediate : ∀ j : ℕ, c.results[j]? = some none → c.OnWire j
  increasing : c.results.reduceOption.Pairwise (· < ·)
  no_underflow : c.state.queue.length ≤ c.state.idx
  counted : c.state.idx ≤ c.messages.length
  token_iff : ∀ j i : ℕ, c.results[j]? = some (some i) → (i < c.state.currentIdx ↔ c.OnWire j)

/-- The invariant of the tokens: they are the numbers below `idx`; the messages of the queue have
the last ones, and the messages before the queue have smaller ones. -/
structure Tokens (c : Tracked) : Prop where
  balanced : c.Balanced
  withFd : c.state.withFd = false
  length : c.results.length = c.messages.length
  issued : c.results.reduceOption = List.range c.state.idx
  le : c.state.queue.length ≤ c.state.idx
  queued : ∀ j i : ℕ, j < c.messages.length → c.messages.length ≤ j + c.state.queue.length →
    i + c.messages.length = j + c.state.idx → c.results[j]? = some (some i)
  passed : ∀ j i : ℕ, j + c.state.queue.length < c.messages.length →
    c.results[j]? = some (some i) → i + c.state.queue.length < c.state.idx

variable {R : Rustbus} {c : Tracked}

/-- **A message is on the wire** iff it stands before the queue.

**Proof sketch.** The bytes sent are those of the messages in front of the queue and the start of
its first message, which is not sent in full. If the first `j + 1` messages are on the wire, a
length argument excludes that one of them is the front of the queue; and the messages in front of
the queue are on the wire. -/
lemma Balanced.onWire_iff (h : c.Balanced) {j : ℕ} (hj : j < c.messages.length) :
    c.OnWire j ↔ j < c.messages.length - c.state.queue.length := by
  obtain ⟨done, hmsgs, hlog⟩ := h.ledger.split
  have hdone : c.messages.length - c.state.queue.length = done.length := by
    rw [hmsgs, List.length_append, List.length_map]
    omega
  have hsent : c.stream.sent = done.flatMap Prod.fst ++ started c.state.queue := hlog
  rw [OnWire, hdone, hsent]
  constructor
  · intro hpre
    by_contra hle
    -- the front of the queue is among the first `j + 1` messages
    cases hq : c.state.queue with
    | nil =>
      rw [hmsgs, hq] at hj
      simp at hj
      omega
    | cons out queue =>
      obtain ⟨n, hn⟩ : ∃ n, j + 1 = done.length + (n + 1) := ⟨j - done.length, by omega⟩
      have hopen := h.ledger.opened out (by rw [hq]; exact List.mem_cons_self)
      have hlen := hpre.length_le
      have hwire : out.wire.length = out.header.length + out.body.length := by
        simp [RawOut.wire]
      have hleft := hopen.left
      rw [hmsgs, hq, hn, List.take_length_add_append] at hlen
      simp only [List.map_cons, List.take_succ_cons, List.flatMap_append, List.flatMap_cons,
        List.length_append, RawOut.message, started, List.length_take] at hlen
      omega
  · intro hlt
    refine List.IsPrefix.trans ?_ (List.prefix_append _ _)
    rw [hmsgs, List.take_append_of_le_length (by omega)]
    obtain ⟨t, ht⟩ := List.take_prefix (j + 1) done
    exact ⟨t.flatMap Prod.fst, by rw [← List.flatMap_append, ht]⟩

/-- A message of the queue has a token that is not passed. -/
lemma Tokens.not_passed (h : c.Tokens) {j : ℕ} {r : Option ℕ} (hr : c.results[j]? = some r)
    (hj : c.messages.length ≤ j + c.state.queue.length) :
    ∃ i, r = some i ∧ i + c.messages.length = j + c.state.idx := by
  have hlt := (List.getElem?_eq_some_iff.mp hr).1
  have hlength := h.length
  have hle := h.le
  obtain ⟨i, hi⟩ : ∃ i, i + c.messages.length = j + c.state.idx :=
    ⟨j + c.state.idx - c.messages.length, by omega⟩
  have htoken := h.queued j i (by omega) hj hi
  rw [hr, Option.some.injEq] at htoken
  exact ⟨i, htoken, hi⟩

/-- Behind the messages before the last `n` of the queue there are `n` larger tokens. -/
lemma Tokens.passed_of_le (h : c.Tokens) {j i n : ℕ} (hn : n ≤ c.state.queue.length)
    (hj : j + n < c.messages.length) (hr : c.results[j]? = some (some i)) :
    i + n < c.state.idx := by
  by_cases hold : j + c.state.queue.length < c.messages.length
  · have := h.passed j i hold hr
    omega
  · obtain ⟨i', hi', hsum⟩ := h.not_passed hr (by omega)
    rw [Option.some.injEq] at hi'
    omega

/-- **The invariant makes the tokens truthful.**

**Proof sketch.** Message `j` is on the wire iff it stands in front of the queue
(`Balanced.onWire_iff`). A message of the queue has a token that is not passed yet
(`Tokens.not_passed`), and one in front of it has none or one that is (`Tokens.passed`). Tokens are
issued in their order, one for each result, which also bounds the index. -/
theorem Tokens.truthful (h : c.Tokens) : c.Truthful := by
  have hle := h.le
  have hidx : c.state.currentIdx = c.state.idx - c.state.queue.length := rfl
  have hcounted : c.state.idx ≤ c.messages.length := by
    have hissued := List.reduceOption_length_le c.results
    rwa [h.issued, List.length_range, h.length] at hissued
  refine ⟨⟨_, h.balanced.ledger.bytes⟩, fun j hr => ?_, ?_, hle, hcounted, fun j i hr => ?_⟩
  · have hlt := (List.getElem?_eq_some_iff.mp hr).1
    rw [h.length] at hlt
    rw [h.balanced.onWire_iff hlt]
    by_contra hj
    obtain ⟨i, hi, -⟩ := h.not_passed hr (by omega)
    cases hi
  · rw [h.issued]
    exact List.pairwise_lt_range
  · have hlt := (List.getElem?_eq_some_iff.mp hr).1
    rw [h.length] at hlt
    rw [h.balanced.onWire_iff hlt, hidx]
    constructor
    · intro hi
      by_contra hj
      obtain ⟨i', hi', hsum⟩ := h.not_passed hr (by omega)
      rw [Option.some.injEq] at hi'
      omega
    · intro hj
      have := h.passed j i (by omega) hr
      omega

/-- A later state: messages, results and accepted writes are only added, and the current index has
not decreased. -/
structure Later (c c' : Tracked) : Prop where
  messages : c.messages <+: c'.messages
  results : c.results <+: c'.results
  log : c.stream.log <+: c'.stream.log
  currentIdx : c.state.currentIdx ≤ c'.state.currentIdx

/-- Nothing has happened. -/
lemma Later.refl (c : Tracked) : Later c c :=
  ⟨List.prefix_rfl, List.prefix_rfl, List.prefix_rfl, Nat.le_refl _⟩

/-- Later than later. -/
lemma Later.trans {c₁ c₂ c₃ : Tracked} (h : Later c₁ c₂) (h' : Later c₂ c₃) : Later c₁ c₃ :=
  ⟨h.messages.trans h'.messages, h.results.trans h'.results, h.log.trans h'.log,
    h.currentIdx.trans h'.currentIdx⟩

/-- What is recorded stays recorded. -/
lemma getElem?_of_prefix {α : Type} {l l' : List α} (h : l <+: l') {j : ℕ} {a : α}
    (hj : l[j]? = some a) : l'[j]? = some a := by
  obtain ⟨t, rfl⟩ := h
  rw [List.getElem?_append_left (List.getElem?_eq_some_iff.mp hj).1, hj]

/-- What is on the wire stays there. -/
lemma OnWire.later {c' : Tracked} {j : ℕ} (hj : j < c.messages.length) (h : c.OnWire j)
    (hlater : Later c c') : c'.OnWire j := by
  obtain ⟨t, ht⟩ := hlater.messages
  obtain ⟨l, hl⟩ := hlater.log
  have hsent : c.stream.sent <+: c'.stream.sent :=
    ⟨l.flatMap Prod.fst, by rw [OutStream.sent, ← List.flatMap_append, hl]; rfl⟩
  rw [OnWire, ← ht, List.take_append_of_le_length (by omega)]
  exact h.trans hsent

/-- The tokens at the start. -/
lemma tokens_new {script : List SendEvent} (hscript : ∀ ev ∈ script, ev ≠ .err) :
    (new false script).Tokens := by
  refine ⟨balanced_new false hscript, rfl, rfl, rfl, Nat.le_refl _, fun j i hj => ?_,
    fun j i hj => ?_⟩
  · cases hj
  · cases hj

/-- `finish_sending_next` keeps the invariant of the tokens. -/
lemma Tokens.finish (h : c.Tokens) : c.finish.2.Tokens ∧ Later c c.finish.2 := by
  obtain ⟨queue, stream, heq, hbal, hlog, hlen⟩ := finish_cases h.balanced
  rw [heq] at hbal ⊢
  refine ⟨⟨hbal, h.withFd, h.length, h.issued, hlen.trans h.le, fun j i hj hq hi => ?_,
    fun j i hj hr => ?_⟩, List.prefix_rfl, List.prefix_rfl, hlog, Nat.sub_le_sub_left hlen _⟩
  · exact h.queued j i hj (by dsimp only at hq; omega) hi
  · exact h.passed_of_le hlen hj hr

/-- `write_next_message` keeps the invariant of the tokens.

**Proof sketch.** The three cases of `write_cases`. A refused message changes nothing. One that is
written in full leaves an empty queue, so no message waits and all tokens are passed. One that is
queued has the next token; the messages in the queue keep theirs, and those that left it are passed.
-/
lemma Tokens.write (h : c.Tokens) (msg : MarshalledMessage) (serial : NonZeroU32) :
    (c.write R msg serial).2.Tokens ∧ Later c (c.write R msg serial).2 := by
  obtain ⟨hbal, hlog, hcase⟩ := write_cases h.balanced msg serial (.inl h.withFd)
  have hle := h.le
  have hlength := h.length
  rcases hcase with ⟨e, heq⟩ | ⟨stream, heq⟩ | ⟨queue, stream, hpos, hlen, heq⟩
  · rw [heq]
    exact ⟨h, .refl c⟩
  · rw [heq] at hbal hlog ⊢
    refine ⟨⟨hbal, h.withFd, by simp [hlength], ?_, Nat.zero_le _, fun j i hj hq hi => ?_,
      fun j i hj hr => ?_⟩, List.prefix_append _ _, List.prefix_append _ _, hlog,
      Nat.sub_le_sub_left (Nat.zero_le _) _⟩
    · rw [List.reduceOption_append, h.issued]
      exact List.append_nil _
    · dsimp only [List.length_nil] at hj hq
      omega
    · dsimp only at hr ⊢
      rw [List.getElem?_append] at hr
      split_ifs at hr with hlt
      · exact @Tokens.passed_of_le c h j i 0 (Nat.zero_le _) (by omega) hr
      · have hmem := List.mem_of_getElem? hr
        cases List.mem_singleton.mp hmem
  · rw [heq] at hbal hlog ⊢
    refine ⟨⟨hbal, h.withFd, by simp [hlength], ?_, ?_, fun j i hj hq hi => ?_,
      fun j i hj hr => ?_⟩, List.prefix_append _ _, List.prefix_append _ _, hlog, ?_⟩
    · rw [List.reduceOption_append, h.issued, List.range_succ]
      rfl
    · dsimp only
      omega
    · dsimp only at hj hq hi ⊢
      rw [List.length_append, List.length_singleton] at hj hq hi
      rw [List.getElem?_append]
      split_ifs with hlt
      · exact h.queued j i (by omega) (by omega) (by omega)
      · obtain rfl : i = c.state.idx := by omega
        rw [show j - c.results.length = 0 by omega]
        rfl
    · dsimp only at hj hr ⊢
      rw [List.length_append, List.length_singleton] at hj
      rw [List.getElem?_append_left (by omega)] at hr
      have := @Tokens.passed_of_le c h j i (queue.length - 1) (by omega) (by omega) hr
      omega
    · show c.state.idx - c.state.queue.length ≤ c.state.idx + 1 - queue.length
      omega

end Tracked

/-! ## Tasks in `send_msg_loop` -/

/-- Where a task in `send_msg_loop` is.  The number of its message in the stream is recorded
beside the token. -/
inductive SendPhase
  /-- `send_idx` is `None`: the message is not written yet. -/
  | start
  /-- `send_idx` is a token. -/
  | waiting (token number : ℕ)
  /-- It has returned `Ok`. -/
  | returned (number : ℕ)
  /-- It has returned an error. -/
  | failed
  deriving DecidableEq

/-- A task in `send_msg_loop`. -/
structure SendTask where
  msg : MarshalledMessage
  serial : NonZeroU32
  phase : SendPhase

/-- The body of the loop of `RpcConn::send_msg_loop`, which runs under the lock of the sender. -/
def sendMsgLoopBody (R : Rustbus) (c : Tracked) (task : SendTask) : SendTask × Tracked :=
  match task.phase with
  | .start =>
    match c.write R task.msg task.serial with
    | (.ok none, c') => ({ task with phase := .returned c.messages.length }, c')
    | (.ok (some token), c') => ({ task with phase := .waiting token c.messages.length }, c')
    | (.error _, c') => ({ task with phase := .failed }, c')
  | .waiting token number =>
    if token < c.state.currentIdx then ({ task with phase := .returned number }, c)
    else
      match c.finish with
      | (.ok newIdx, c') =>
        if token < newIdx then ({ task with phase := .returned number }, c') else (task, c')
      | (.error _, c') => ({ task with phase := .failed }, c')
  | .returned _ => (task, c)
  | .failed => (task, c)

/-- Tasks that share the sender of a connection. -/
structure Senders where
  sender : Tracked
  tasks : List SendTask

/-- What can happen next. -/
inductive SendersOp
  /-- A task enters `send_msg_loop`. -/
  | spawn (msg : MarshalledMessage) (serial : NonZeroU32)
  /-- A task takes the lock and runs the body of its loop. -/
  | poll (task : ℕ)
  /-- Somebody else takes the lock and calls the sender. -/
  | call (op : SendOp)

namespace Senders

/-- The start of a run. -/
def new (withFd : Bool) (script : List SendEvent) : Senders := ⟨.new withFd script, []⟩

/-- One step. -/
def step (R : Rustbus) (s : Senders) : SendersOp → Senders
  | .spawn msg serial => { s with tasks := s.tasks ++ [⟨msg, serial, .start⟩] }
  | .poll t =>
    match s.tasks[t]? with
    | some task =>
      let r := sendMsgLoopBody R s.sender task
      ⟨r.2, s.tasks.set t r.1⟩
    | none => s
  | .call op => { s with sender := s.sender.step R op }

/-- A sequence of steps. -/
def run (R : Rustbus) (s : Senders) (ops : List SendersOp) : Senders := ops.foldl (step R) s

/-- What a task knows about its message: a token is the one it got, and a task that has returned
has its message on the wire. -/
def TaskKnows (R : Rustbus) (c : Tracked) (task : SendTask) : Prop :=
  match task.phase with
  | .start => True
  | .waiting token number => c.results[number]? = some (some token) ∧
      c.messages[number]? = some (packet R task.msg task.serial)
  | .returned number => c.OnWire number ∧
      c.messages[number]? = some (packet R task.msg task.serial)
  | .failed => True

variable {R : Rustbus} {s : Senders} {c c' : Tracked} {task : SendTask}

/-- What a task knows stays true. -/
lemma TaskKnows.later (h : TaskKnows R c task) (hlater : c.Later c') : TaskKnows R c' task := by
  unfold TaskKnows at h ⊢
  cases hphase : task.phase with
  | start => trivial
  | failed => trivial
  | waiting token number =>
    rw [hphase] at h
    exact ⟨Tracked.getElem?_of_prefix hlater.results h.1,
      Tracked.getElem?_of_prefix hlater.messages h.2⟩
  | returned number =>
    rw [hphase] at h
    exact ⟨h.1.later (List.getElem?_eq_some_iff.mp h.2).1 hlater,
      Tracked.getElem?_of_prefix hlater.messages h.2⟩

/-- What is recorded next gets the next number. -/
private lemma getElem?_concat_length {α : Type} (l : List α) (a : α) :
    (l ++ [a])[l.length]? = some a := by
  simp

/-- **One pass of the loop of `send_msg_loop`** keeps the tokens and what the task knows.

**Proof sketch.** A write that returns none is on the wire at once, and a token that is passed,
before or after `finish_sending_next`, belongs to a message that is. -/
lemma sendMsgLoopBody_spec (h : c.Tokens) (hknows : TaskKnows R c task) :
    (sendMsgLoopBody R c task).2.Tokens ∧ c.Later (sendMsgLoopBody R c task).2 ∧
      TaskKnows R (sendMsgLoopBody R c task).2 (sendMsgLoopBody R c task).1 := by
  unfold sendMsgLoopBody
  cases hphase : task.phase with
  | start =>
    obtain ⟨htok, hlater⟩ := h.write (R := R) task.msg task.serial
    obtain ⟨-, -, hcase⟩ := Tracked.write_cases (R := R) h.balanced task.msg task.serial
      (.inl h.withFd)
    rcases hcase with ⟨e, heq⟩ | ⟨stream, heq⟩ | ⟨queue, stream, -, -, heq⟩
    · rw [heq]
      exact ⟨h, .refl c, trivial⟩
    · rw [heq] at htok hlater ⊢
      refine ⟨htok, hlater, htok.truthful.immediate _ ?_, getElem?_concat_length _ _⟩
      rw [← h.length]
      exact getElem?_concat_length _ _
    · rw [heq] at htok hlater ⊢
      refine ⟨htok, hlater, ?_, getElem?_concat_length _ _⟩
      rw [← h.length]
      exact getElem?_concat_length _ _
  | waiting token number =>
    have hold : c.results[number]? = some (some token) ∧
        c.messages[number]? = some (packet R task.msg task.serial) := by
      rw [TaskKnows, hphase] at hknows
      exact hknows
    dsimp only
    split_ifs with hpassed
    · exact ⟨h, .refl c, (h.truthful.token_iff _ _ hold.1).mp hpassed, hold.2⟩
    · obtain ⟨queue, stream, heq, -⟩ := Tracked.finish_cases h.balanced
      obtain ⟨htok, hlater⟩ := h.finish
      rw [heq] at htok hlater ⊢
      dsimp only
      split_ifs with hnew
      · exact ⟨htok, hlater, (htok.truthful.token_iff _ _ hold.1).mp hnew, hold.2⟩
      · exact ⟨htok, hlater, hknows.later hlater⟩
  | returned number => exact ⟨h, .refl c, hknows⟩
  | failed => exact ⟨h, .refl c, hknows⟩

/-- The invariant of a run: the tokens are kept and every task knows the truth. -/
structure Sound (R : Rustbus) (s : Senders) : Prop where
  tokens : s.sender.Tokens
  tasks : ∀ task ∈ s.tasks, TaskKnows R s.sender task

/-- One step keeps the invariant.

**Proof sketch.** By the kind of step. A new task knows nothing yet. A poll changes one task as
`sendMsgLoopBody_spec` says, and what the others know stays true of a later state of the sender. So
it does after a call without a task, which keeps the tokens. -/
lemma Sound.step (h : s.Sound R) (op : SendersOp) :
    (s.step R op).Sound R ∧ s.sender.Later (s.step R op).sender := by
  cases op with
  | spawn msg serial =>
    refine ⟨⟨h.tokens, fun task htask => ?_⟩, .refl _⟩
    rcases List.mem_append.mp htask with htask | htask
    · exact h.tasks task htask
    · rw [List.mem_singleton.mp htask]
      trivial
  | poll t =>
    cases ht : s.tasks[t]? with
    | none =>
      have heq : s.step R (.poll t) = s := by simp only [Senders.step, ht]
      rw [heq]
      exact ⟨h, .refl _⟩
    | some task =>
      have heq : s.step R (.poll t) = ⟨(sendMsgLoopBody R s.sender task).2,
          s.tasks.set t (sendMsgLoopBody R s.sender task).1⟩ := by
        simp only [Senders.step, ht]
      rw [heq]
      obtain ⟨htok, hlater, hknows⟩ :=
        sendMsgLoopBody_spec h.tokens (h.tasks task (List.mem_of_getElem? ht))
      refine ⟨⟨htok, fun task' htask' => ?_⟩, hlater⟩
      rcases List.mem_or_eq_of_mem_set htask' with hold | rfl
      · exact (h.tasks task' hold).later hlater
      · exact hknows
  | call op =>
    have hcall : (s.sender.step R op).Tokens ∧ s.sender.Later (s.sender.step R op) := by
      cases op with
      | write msg serial => exact h.tokens.write msg serial
      | finish => exact h.tokens.finish
    exact ⟨⟨hcall.1, fun task htask => (h.tasks task htask).later hcall.2⟩, hcall.2⟩

/-- A sequence of steps keeps the invariant. -/
lemma Sound.run (h : s.Sound R) (ops : List SendersOp) :
    (s.run R ops).Sound R ∧ s.sender.Later (s.run R ops).sender := by
  induction ops generalizing s with
  | nil => exact ⟨h, .refl _⟩
  | cons op ops ih =>
    obtain ⟨hstep, hlater⟩ := h.step op
    obtain ⟨hrun, hlater'⟩ := ih hstep
    exact ⟨hrun, hlater.trans hlater'⟩

/-- **Completion tokens are truthful.**  On a connection without descriptors, for every stream that
reports no error and every interleaving of tasks in `send_msg_loop` and other calls: in every
state the tokens are truthful; nothing recorded changes later and the current index does not
decrease; and a task whose `send_msg_loop` has returned `Ok` has its message on the wire. -/
theorem run_truthful (R : Rustbus) (script : List SendEvent) (hscript : ∀ ev ∈ script, ev ≠ .err)
    (ops ops' : List SendersOp) :
    ((new false script).run R ops).sender.Truthful ∧
      ((new false script).run R ops).sender.Later
        (((new false script).run R ops).run R ops').sender ∧
      ∀ task ∈ ((new false script).run R ops).tasks, ∀ number, task.phase = .returned number →
        ((new false script).run R ops).sender.OnWire number ∧
          ((new false script).run R ops).sender.messages[number]? =
            some (packet R task.msg task.serial) := by
  have hnew : (new false script).Sound R := by
    refine ⟨Tracked.tokens_new hscript, fun task htask => ?_⟩
    cases htask
  obtain ⟨hsound, -⟩ := hnew.run ops
  obtain ⟨-, hlater⟩ := hsound.run ops'
  refine ⟨hsound.tokens.truthful, hlater, fun task htask number hphase => ?_⟩
  have hknows := hsound.tasks task htask
  rw [TaskKnows, hphase] at hknows
  exact hknows

/-- Two tasks: the message of the first one is completed by the second. -/
theorem run_truthful_two :
    let script := [SendEvent.accept 3, .wouldBlock, .wouldBlock, .accept 100]
    let ops := [SendersOp.spawn (Sending.plainSignal []) ⟨1, by decide⟩,
      .spawn (Sending.plainSignal []) ⟨2, by decide⟩, .poll 0, .poll 1, .poll 1, .poll 0]
    let s := (new false script).run .reference ops
    s.tasks.map SendTask.phase = [.returned 0, .returned 1] ∧
      s.sender.results = [some 0, some 1] ∧ s.sender.Truthful :=
  ⟨by decide, by decide, (run_truthful .reference _ (by decide) _ []).1⟩

end Senders

end AsyncRustbus
