import AsyncRustbus.Conn.Tokens
import AsyncRustbus.Rpc.Reply

set_option relaxedAutoImplicit false
set_option autoImplicit false

/-!
# Tasks in `get_msg` (`lib.rs`)

Any number of tasks wait in `get_msg`, each for messages of its own.  A task polls its queue or
channel; finding nothing it waits until the socket is readable, polls again and takes the receive
lock; with the lock it handles what it reads, until a message is for it, a call has to be answered
or the socket is empty.  To answer a call it gives the lock back first and sends the reply itself.
Between any two of these steps other tasks run, and at an `await` the task may be cancelled.

## Main definitions

* `AsyncRustbus.Place` — a queue or a reply channel.
* `AsyncRustbus.GetMsgPoint`, `AsyncRustbus.RecvTask` — where a task is.
* `AsyncRustbus.Receivers` — tasks that share a connection.  The messages read are numbered;
  `reads`, `returns`, `discarded` and `handed` record what happened and are read by no step.
* `AsyncRustbus.ReceiversOp`, `Receivers.step`, `Receivers.run` — the steps.
* `Receivers.ReachableBy` — the states of the runs whose steps are allowed.

## Main results

* `Receivers.queueMsgBody_spec` — what becomes of a message, and why.
* `Receivers.step_spec` — what a step can do, which is all that the invariants use.
-/

namespace AsyncRustbus

/-- Where a message waits for a task: in a `MsgQueue`, or in the channel of a request. -/
inductive Place (Q O : Type)
  | queue (q : Q)
  | channel (o : O)
  deriving DecidableEq

/-- Where a task in `get_msg` is. -/
inductive GetMsgPoint
  /-- Before `poll_once`. -/
  | entered
  /-- At `readable().await`. -/
  | waiting
  /-- In the `select!`, before `msg_fut` is polled. -/
  | selecting
  /-- In the `select!`, behind a poll of `msg_fut` that found nothing. -/
  | polled
  /-- In the loop of `queue_msg`, with the lock. -/
  | reading
  /-- In `send_msg_wo_rsp`, with the reply to the message of that number. -/
  | replying (number : ℕ) (task : SendTask)

/-- The points at which the future can be dropped. -/
def GetMsgPoint.isAwait : GetMsgPoint → Bool
  | polled => false
  | reading => false
  | _ => true

/-- A task, in `get_msg` or not. -/
inductive RecvTask (Q O : Type)
  | idle
  | getMsg (reader : Reader Q) (place : Place Q O) (point : GetMsgPoint)

namespace RecvTask

variable {Q O : Type}

/-- The task has the lock. -/
def isReading : RecvTask Q O → Bool
  | getMsg _ _ .reading => true
  | _ => false

/-- The reply that a task is to send and that `SendState` has not got, with the number of the
message it answers. -/
def inHand : RecvTask Q O → Option (ℕ × MarshalledMessage)
  | getMsg _ _ (.replying number task) =>
    match task.phase with
    | .start => some (number, task.msg)
    | _ => none
  | _ => none

end RecvTask

/-- A message that was read, and by which task with which data. -/
structure MessageRead (Q O : Type) where
  task : ℕ
  reader : Reader Q
  recvData : RecvData Q O
  /-- The queues whose channels are closed. -/
  closed : Q → Bool
  /-- The reply channels whose receiving ends exist. -/
  listening : O → Bool
  msg : MarshalledMessage

/-- A message that `get_msg` has returned, with the place it was taken from, or none if the task
has read it itself. -/
structure MessageReturned (Q O : Type) where
  task : ℕ
  number : ℕ
  source : Option (Place Q O)
  deriving DecidableEq

/-- Tasks that share a connection. -/
structure Receivers (Q O : Type) where
  recvData : RecvData Q O
  sender : Tracked
  /-- The task that has the lock of `recv_data`. -/
  lock : Option ℕ
  tasks : List (RecvTask Q O)
  /-- The numbers of the messages in the queues and channels, in the order of arrival. -/
  store : List (Place Q O × ℕ)
  reads : List (MessageRead Q O)
  returns : List (MessageReturned Q O)
  discarded : List ℕ
  /-- The replies that `SendState` has got. -/
  handed : List (ℕ × MarshalledMessage)

/-- What can happen next. -/
inductive ReceiversOp (Q O : Type)
  /-- A new task. -/
  | spawn
  /-- `get_signal` or `get_call`: the receiving end of the queue is cloned under the lock. -/
  | enter (t : ℕ) (reader : Reader Q)
  /-- A response future begins to wait on its channel. -/
  | awaitReply (t : ℕ) (idx : NonZeroU32) (o : O)
  /-- `poll_once(msg_fut)`. -/
  | pollOnce (t : ℕ)
  /-- `readable()` is resolved. -/
  | readable (t : ℕ)
  /-- The `select!` polls `msg_fut`. -/
  | poll (t : ℕ)
  /-- The `select!` polls the lock and is pending. -/
  | pending (t : ℕ)
  /-- The `select!` takes the lock. -/
  | acquire (t : ℕ)
  /-- `get_next_message` returns a message, and the body of the loop of `queue_msg` runs.  The
  serial is the one that `allocate_idx` returns if there is a reply to send. -/
  | read (t : ℕ) (closed : Q → Bool) (listening : O → Bool) (serial : NonZeroU32)
      (msg : MarshalledMessage)
  /-- `get_next_message` would block, and the lock is released. -/
  | block (t : ℕ)
  /-- The body of the loop of `send_msg_loop`. -/
  | send (t : ℕ)
  /-- `get_msg` returns an error. -/
  | fail (t : ℕ)
  /-- The future is dropped. -/
  | cancel (t : ℕ)
  /-- Somebody else uses the sender. -/
  | callSender (op : SendOp)
  /-- Somebody else changes the shared data under the lock: call paths, match rules, requests. -/
  | configure (recvData : RecvData Q O)

/-- The place where `get_signal` and `get_call` wait. -/
def RecvData.receiverOf {Q O : Type} (recvData : RecvData Q O) : Reader Q → Option (Place Q O)
  | .call path => (recvData.hierarchy.getQueue path).map .queue
  | .signal sigMatch =>
    match recvData.sigMatches.getSignalQueue sigMatch with
    | .ok q => some (.queue q)
    | _ => none
  | .response _ => none

namespace Receivers

variable {Q O : Type}

/-- The start of a run: nobody waits. -/
def new (recvData : RecvData Q O) (withFd : Bool) (script : List SendEvent) : Receivers Q O where
  recvData := recvData
  sender := .new withFd script
  lock := none
  tasks := []
  store := []
  reads := []
  returns := []
  discarded := []
  handed := []

/-- Replace a task. -/
def setTask (st : Receivers Q O) (t : ℕ) (task : RecvTask Q O) : Receivers Q O :=
  { st with tasks := st.tasks.set t task }

/-- Replace the task that has the lock and release it. -/
def release (st : Receivers Q O) (t : ℕ) (task : RecvTask Q O) : Receivers Q O :=
  { st with tasks := st.tasks.set t task, lock := none }

/-- A step of a task in `get_msg`. -/
def onTask (st : Receivers Q O) (t : ℕ)
    (f : Reader Q → Place Q O → GetMsgPoint → Option (Receivers Q O)) : Option (Receivers Q O) :=
  match st.tasks[t]? with
  | some (.getMsg reader place point) => f reader place point
  | _ => none

/-- What became of the message `number` in the body of the loop of `queue_msg`.  A panic unwinds
the task and the guard with it. -/
def settle (st : Receivers Q O) (t : ℕ) (reader : Reader Q) (place : Place Q O)
    (listening : O → Bool) (serial : NonZeroU32) (number : ℕ) :
    Res Empty (Handled Q O) → Receivers Q O
  | .ok .taken =>
    { st.release t .idle with returns := st.returns ++ [⟨t, number, none⟩] }
  | .ok (.respond reply) =>
    st.release t (.getMsg reader place (.replying number ⟨reply, serial, .start⟩))
  | .ok (.queued q) => { st with store := st.store ++ [(.queue q, number)] }
  | .ok (.forwarded o) =>
    if listening o then { st with store := st.store ++ [(.channel o, number)] }
    else { st with discarded := st.discarded ++ [number] }
  | .ok .dropped => { st with discarded := st.discarded ++ [number] }
  | .err e => nomatch e
  | .panic => st.release t .idle

/-- A message is read. -/
def read (st : Receivers Q O) (t : ℕ) (reader : Reader Q) (place : Place Q O) (closed : Q → Bool)
    (listening : O → Bool) (serial : NonZeroU32) (msg : MarshalledMessage) : Receivers Q O :=
  let res := queueMsgBody closed reader st.recvData msg
  settle { st with
    recvData := res.2
    reads := st.reads ++ [⟨t, reader, st.recvData, closed, listening, msg⟩] }
    t reader place listening serial st.reads.length res.1

/-- The task behind one pass of the loop of `send_msg_loop`: a reply that is sent takes it back
to the loop of `get_msg`, and an error out of it. -/
def afterSend (reader : Reader Q) (place : Place Q O) (number : ℕ) (task : SendTask) :
    RecvTask Q O :=
  match task.phase with
  | .returned _ => .getMsg reader place .waiting
  | .failed => .idle
  | _ => .getMsg reader place (.replying number task)

/-- One pass of the loop of `send_msg_loop`. -/
def send (R : Rustbus) (st : Receivers Q O) (t : ℕ) (reader : Reader Q) (place : Place Q O)
    (number : ℕ) (task : SendTask) : Receivers Q O :=
  let res := sendMsgLoopBody R st.sender task
  { st with
    sender := res.2
    tasks := st.tasks.set t (afterSend reader place number res.1)
    handed := if task.phase = .start ∧ res.1.phase ≠ .failed then
      st.handed ++ [(number, task.msg)] else st.handed }

section Step

variable [DecidableEq Q] [DecidableEq O]

/-- A poll of `msg_fut`: the first message of the place is returned; without one the task goes
on. -/
def pollPlace (st : Receivers Q O) (t : ℕ) (reader : Reader Q) (place : Place Q O)
    (next : GetMsgPoint) : Receivers Q O :=
  match st.store.find? fun e => decide (e.1 = place) with
  | some e =>
    { st.setTask t .idle with
      store := st.store.eraseP fun e => decide (e.1 = place)
      returns := st.returns ++ [⟨t, e.2, some place⟩] }
  | none => st.setTask t (.getMsg reader place next)

/-- One step.  A step that is not possible in the state has no result. -/
def step (R : Rustbus) (st : Receivers Q O) : ReceiversOp Q O → Option (Receivers Q O)
  | .spawn => some { st with tasks := st.tasks ++ [.idle] }
  | .enter t reader =>
    match st.lock, st.tasks[t]?, st.recvData.receiverOf reader with
    | none, some .idle, some place => some (st.setTask t (.getMsg reader place .entered))
    | _, _, _ => none
  | .awaitReply t idx o =>
    match st.tasks[t]? with
    | some .idle => some (st.setTask t (.getMsg (.response idx) (.channel o) .entered))
    | _ => none
  | .pollOnce t => st.onTask t fun reader place point =>
    match point with
    | .entered => some (st.pollPlace t reader place .waiting)
    | _ => none
  | .readable t => st.onTask t fun reader place point =>
    match point with
    | .waiting => some (st.setTask t (.getMsg reader place .selecting))
    | _ => none
  | .poll t => st.onTask t fun reader place point =>
    match point with
    | .selecting => some (st.pollPlace t reader place .polled)
    | _ => none
  | .pending t => st.onTask t fun reader place point =>
    match point with
    | .polled => some (st.setTask t (.getMsg reader place .selecting))
    | _ => none
  | .acquire t => st.onTask t fun reader place point =>
    match point, st.lock with
    | .polled, none => some { st.setTask t (.getMsg reader place .reading) with lock := some t }
    | _, _ => none
  | .read t closed listening serial msg => st.onTask t fun reader place point =>
    match point with
    | .reading => some (st.read t reader place closed listening serial msg)
    | _ => none
  | .block t => st.onTask t fun reader place point =>
    match point with
    | .reading => some (st.release t (.getMsg reader place .waiting))
    | _ => none
  | .send t => st.onTask t fun reader place point =>
    match point with
    | .replying number task => some (st.send R t reader place number task)
    | _ => none
  | .fail t => st.onTask t fun _ _ point =>
    match point with
    | .polled => none
    | .reading => some (st.release t .idle)
    | _ => some (st.setTask t .idle)
  | .cancel t => st.onTask t fun _ _ point =>
    if point.isAwait then some (st.setTask t .idle) else none
  | .callSender op => some { st with sender := st.sender.step R op }
  | .configure recvData => if st.lock = none then some { st with recvData := recvData } else none

/-- A sequence of steps. -/
def run (R : Rustbus) (st : Receivers Q O) (ops : List (ReceiversOp Q O)) :
    Option (Receivers Q O) :=
  ops.foldlM (step R) st

/-- The states of the runs from `start` whose steps are allowed. -/
inductive ReachableBy (R : Rustbus) (allowed : Receivers Q O → ReceiversOp Q O → Prop)
    (start : Receivers Q O) : Receivers Q O → Prop
  | start : ReachableBy R allowed start start
  | step {st st' : Receivers Q O} (op : ReceiversOp Q O) : ReachableBy R allowed start st →
      allowed st op → st.step R op = some st' → ReachableBy R allowed start st'

/-- Allowing more. -/
lemma ReachableBy.mono {R : Rustbus} {allowed allowed' : Receivers Q O → ReceiversOp Q O → Prop}
    {start st : Receivers Q O} (h : ReachableBy R allowed start st)
    (hle : ∀ st op, allowed st op → allowed' st op) : ReachableBy R allowed' start st := by
  induction h with
  | start => exact .start
  | step op _ hop hstep ih => exact ih.step op (hle _ op hop) hstep

/-- A sequence of steps that are allowed in any state. -/
lemma ReachableBy.run {R : Rustbus} {allowed : Receivers Q O → ReceiversOp Q O → Prop}
    {start st st' : Receivers Q O} (h : ReachableBy R allowed start st)
    {ops : List (ReceiversOp Q O)} (hops : ∀ op ∈ ops, ∀ st, allowed st op)
    (hrun : st.run R ops = some st') : ReachableBy R allowed start st' := by
  induction ops generalizing st with
  | nil =>
    cases hrun
    exact h
  | cons op ops ih =>
    obtain ⟨st₁, hstep, hrest⟩ := Option.bind_eq_some_iff.mp hrun
    exact ih (h.step op (hops op List.mem_cons_self st) hstep)
      (fun op' hop' => hops op' (List.mem_cons_of_mem op hop')) hrest

end Step

/-! ## What a step can do -/

/-- What the body of the loop of `queue_msg` does with a message, and why. -/
inductive BodySpec (closed : Q → Bool) (reader : Reader Q) (recvData : RecvData Q O)
    (msg : MarshalledMessage) : Res Empty (Handled Q O) × RecvData Q O → Prop
  | taken (hpred : reader.pred msg recvData = .ok true) :
      BodySpec closed reader recvData msg (.ok .taken, recvData)
  | signal (q : Q) (hpred : reader.pred msg recvData = .ok false) (htyp : msg.typ = .signal)
      (hscan : recvData.sigMatches.queueSig msg = .ok (some q)) :
      BodySpec closed reader recvData msg (.ok (.queued q), recvData)
  | noRule (hpred : reader.pred msg recvData = .ok false) (htyp : msg.typ = .signal)
      (hscan : recvData.sigMatches.queueSig msg = .ok none) :
      BodySpec closed reader recvData msg (.ok .dropped, recvData)
  | forwarded (s : NonZeroU32) (o : O) (hpred : reader.pred msg recvData = .ok false)
      (hreply : msg.IsReplyTo s) (hget : AssocMap.get recvData.replyMap s = some o) :
      BodySpec closed reader recvData msg (.ok (.forwarded o),
        { recvData with replyMap := AssocMap.remove recvData.replyMap s })
  | noRequest (s : NonZeroU32) (hpred : reader.pred msg recvData = .ok false)
      (hreply : msg.IsReplyTo s) (hget : AssocMap.get recvData.replyMap s = none) :
      BodySpec closed reader recvData msg (.ok .dropped, recvData)
  | call (q : Q) (hpred : reader.pred msg recvData = .ok false) (htyp : msg.typ = .call)
      (hsend : recvData.hierarchy.send closed msg = .ok q) :
      BodySpec closed reader recvData msg (.ok (.queued q), recvData)
  | respond (reply : MarshalledMessage) (hpred : reader.pred msg recvData = .ok false)
      (htyp : msg.typ = .call) (hsend : recvData.hierarchy.send closed msg = .err reply) :
      BodySpec closed reader recvData msg (.ok (.respond reply), recvData)
  | panic : BodySpec closed reader recvData msg (.panic, recvData)

/-- A reply or an error, behind the predicate. -/
private lemma bodySpec_reply {closed : Q → Bool} {reader : Reader Q} {recvData : RecvData Q O}
    {msg : MarshalledMessage} (hpred : reader.pred msg recvData = .ok false)
    (htyp : msg.typ = .reply ∨ msg.typ = .error) :
    BodySpec closed reader recvData msg (queueMsgBody closed reader recvData msg) := by
  cases hser : msg.dynheader.responseSerial with
  | none =>
    have heq : queueMsgBody closed reader recvData msg = (.panic, recvData) := by
      rcases htyp with h | h <;> simp [queueMsgBody, hpred, h, hser]
    rw [heq]
    exact .panic
  | some s =>
    cases hget : AssocMap.get recvData.replyMap s with
    | none =>
      have heq : queueMsgBody closed reader recvData msg = (.ok .dropped, recvData) := by
        rcases htyp with h | h <;> simp [queueMsgBody, hpred, h, hser, hget]
      rw [heq]
      exact .noRequest s hpred ⟨htyp, hser⟩ hget
    | some o =>
      have heq : queueMsgBody closed reader recvData msg = (.ok (.forwarded o),
          { recvData with replyMap := AssocMap.remove recvData.replyMap s }) := by
        rcases htyp with h | h <;> simp [queueMsgBody, hpred, h, hser, hget]
      rw [heq]
      exact .forwarded s o hpred ⟨htyp, hser⟩ hget

/-- The body of the loop of `queue_msg` follows `BodySpec`.

**Proof sketch.** By the predicate of the reader, the type of the message and what the rules or the
hierarchy answer: each branch is one constructor. -/
theorem queueMsgBody_spec (closed : Q → Bool) (reader : Reader Q) (recvData : RecvData Q O)
    (msg : MarshalledMessage) :
    BodySpec closed reader recvData msg (queueMsgBody closed reader recvData msg) := by
  cases hpred : reader.pred msg recvData with
  | err e => cases e
  | panic =>
    rw [show queueMsgBody closed reader recvData msg = (.panic, recvData) by
      simp [queueMsgBody, hpred]]
    exact .panic
  | ok b =>
    cases b with
    | true =>
      rw [show queueMsgBody closed reader recvData msg = (.ok .taken, recvData) by
        simp [queueMsgBody, hpred]]
      exact .taken hpred
    | false =>
      cases htyp : msg.typ with
      | signal =>
        simp only [queueMsgBody, hpred, htyp]
        cases hscan : recvData.sigMatches.queueSig msg with
        | ok o =>
          cases o with
          | some q => exact .signal q hpred htyp hscan
          | none => exact .noRule hpred htyp hscan
        | err e => cases e
        | panic => exact .panic
      | call =>
        simp only [queueMsgBody, hpred, htyp]
        cases hsend : recvData.hierarchy.send closed msg with
        | ok q => exact .call q hpred htyp hsend
        | err reply => exact .respond reply hpred htyp hsend
        | panic => exact .panic
      | reply => exact bodySpec_reply hpred (.inl htyp)
      | error => exact bodySpec_reply hpred (.inr htyp)
      | invalid =>
        simp only [queueMsgBody, hpred, htyp]
        exact .panic

/-- The dispatcher does not touch the tree and the registry. -/
lemma queueMsgBody_keeps (closed : Q → Bool) (reader : Reader Q)
    (recvData : RecvData Q O) (msg : MarshalledMessage) :
    (queueMsgBody closed reader recvData msg).2.hierarchy = recvData.hierarchy ∧
      (queueMsgBody closed reader recvData msg).2.sigMatches = recvData.sigMatches := by
  have hspec := queueMsgBody_spec closed reader recvData msg
  generalize queueMsgBody closed reader recvData msg = res at hspec ⊢
  cases hspec <;> exact ⟨rfl, rfl⟩

/-- A step of a task that changes nothing but the task and the lock. -/
structure Move (st : Receivers Q O) (op : ReceiversOp Q O) (t : ℕ) (task task' : RecvTask Q O)
    (lock' : Option ℕ) : Prop where
  /-- A reply is lost only if the task leaves `get_msg` with it. -/
  inHand : task.inHand = none ∨ op = .cancel t ∨ op = .fail t
  inHand' : task'.inHand = none
  /-- A task keeps to its place. -/
  place : ∀ reader place point, task' = .getMsg reader place point →
    (∃ point', task = .getMsg reader place point') ∨
      (op = .enter t reader ∧ st.recvData.receiverOf reader = some place) ∨
      ∃ idx o, op = .awaitReply t idx o
  /-- The lock is taken if it is free, and released by the task that has it. -/
  lock : (task'.isReading = true ∧ op = .acquire t ∧ st.lock = none ∧ lock' = some t) ∨
    (task'.isReading = false ∧ task.isReading = false ∧ lock' = st.lock) ∨
    (task'.isReading = false ∧ task.isReading = true ∧ lock' = none)

/-- A task begins to read by taking the lock. -/
lemma Move.acquired {st : Receivers Q O} {op : ReceiversOp Q O} {t : ℕ}
    {task task' : RecvTask Q O} {lock' : Option ℕ} (h : Move st op t task task' lock')
    (hread : task'.isReading = true) : op = .acquire t ∧ st.lock = none ∧ lock' = some t := by
  rcases h.lock with ⟨-, hacquire⟩ | ⟨hnot, -⟩ | ⟨hnot, -⟩
  · exact hacquire
  · rw [hread] at hnot
    cases hnot
  · rw [hread] at hnot
    cases hnot

/-- **What a step can do.** -/
inductive StepSpec [DecidableEq Q] [DecidableEq O] (R : Rustbus) (st : Receivers Q O) :
    ReceiversOp Q O → Receivers Q O → Prop
  | spawn : StepSpec R st .spawn { st with tasks := st.tasks ++ [.idle] }
  | move (op : ReceiversOp Q O) (t : ℕ) (task task' : RecvTask Q O) (lock' : Option ℕ)
      (ht : st.tasks[t]? = some task) (h : Move st op t task task' lock') :
      StepSpec R st op { st with tasks := st.tasks.set t task', lock := lock' }
  /-- A task returns the first message of its place. -/
  | take (op : ReceiversOp Q O) (t : ℕ) (reader : Reader Q) (place : Place Q O)
      (point : GetMsgPoint) (e : Place Q O × ℕ)
      (ht : st.tasks[t]? = some (.getMsg reader place point))
      (hpoint : point = .entered ∨ point = .selecting)
      (he : st.store.find? (fun e => decide (e.1 = place)) = some e) :
      StepSpec R st op { st.setTask t .idle with
        store := st.store.eraseP fun e => decide (e.1 = place)
        returns := st.returns ++ [⟨t, e.2, some place⟩] }
  | read (t : ℕ) (reader : Reader Q) (place : Place Q O) (closed : Q → Bool)
      (listening : O → Bool) (serial : NonZeroU32) (msg : MarshalledMessage)
      (ht : st.tasks[t]? = some (.getMsg reader place .reading)) :
      StepSpec R st (.read t closed listening serial msg)
        (st.read t reader place closed listening serial msg)
  | send (t : ℕ) (reader : Reader Q) (place : Place Q O) (number : ℕ) (task : SendTask)
      (ht : st.tasks[t]? = some (.getMsg reader place (.replying number task))) :
      StepSpec R st (.send t) (st.send R t reader place number task)
  | callSender (op : SendOp) :
      StepSpec R st (.callSender op) { st with sender := st.sender.step R op }
  | configure (recvData : RecvData Q O) (hlock : st.lock = none) :
      StepSpec R st (.configure recvData) { st with recvData := recvData }

/-- A task that can make a step. -/
private lemma onTask_eq_some {st st' : Receivers Q O} {t : ℕ}
    {f : Reader Q → Place Q O → GetMsgPoint → Option (Receivers Q O)}
    (h : st.onTask t f = some st') :
    ∃ reader place point, st.tasks[t]? = some (.getMsg reader place point) ∧
      f reader place point = some st' := by
  unfold onTask at h
  split at h
  · rename_i reader place point ht
    exact ⟨reader, place, point, ht, h⟩
  · cases h

section Spec

variable [DecidableEq Q] [DecidableEq O] {R : Rustbus} {st st' : Receivers Q O}

/-- A step that leaves the lock alone, of a task that does not have it. -/
private lemma stepSpec_setTask {op : ReceiversOp Q O} {t : ℕ} {reader : Reader Q}
    {place : Place Q O} {point point' : GetMsgPoint}
    (ht : st.tasks[t]? = some (.getMsg reader place point))
    (hhand : (RecvTask.getMsg reader place point).inHand = none)
    (hhand' : (RecvTask.getMsg reader place point').inHand = none)
    (hread : (RecvTask.getMsg reader place point).isReading = false)
    (hread' : (RecvTask.getMsg reader place point').isReading = false) :
    StepSpec R st op (st.setTask t (.getMsg reader place point')) := by
  refine .move op t _ (.getMsg reader place point') st.lock ht ⟨.inl hhand, hhand', ?_, ?_⟩
  · intro reader' place' point'' heq
    cases heq
    exact .inl ⟨point, rfl⟩
  · exact .inr (.inl ⟨hread', hread, rfl⟩)

/-- A task that leaves `get_msg` without the lock. -/
private lemma stepSpec_leave {op : ReceiversOp Q O} {t : ℕ} {reader : Reader Q}
    {place : Place Q O} {point : GetMsgPoint} (hop : op = .cancel t ∨ op = .fail t)
    (ht : st.tasks[t]? = some (.getMsg reader place point))
    (hread : (RecvTask.getMsg reader place point).isReading = false) :
    StepSpec R st op (st.setTask t .idle) := by
  refine .move op t _ .idle st.lock ht ⟨.inr hop, rfl, ?_, .inr (.inl ⟨rfl, hread, rfl⟩)⟩
  intro _ _ _ heq
  cases heq

/-- A poll of `msg_fut`. -/
private lemma stepSpec_pollPlace {op : ReceiversOp Q O} {t : ℕ} {reader : Reader Q}
    {place : Place Q O} {point next : GetMsgPoint}
    (ht : st.tasks[t]? = some (.getMsg reader place point))
    (hpoint : point = .entered ∨ point = .selecting) (hnext : next = .waiting ∨ next = .polled) :
    StepSpec R st op (st.pollPlace t reader place next) := by
  unfold pollPlace
  split
  · rename_i e he
    exact .take op t reader place point e ht hpoint he
  · refine stepSpec_setTask ht ?_ ?_ ?_ ?_
    · rcases hpoint with rfl | rfl <;> rfl
    · rcases hnext with rfl | rfl <;> rfl
    · rcases hpoint with rfl | rfl <;> rfl
    · rcases hnext with rfl | rfl <;> rfl

/-- **Every step follows `StepSpec`.**

**Proof sketch.** By the operation, which is possible only at its point of the task
(`onTask_eq_some`). Entering, waiting and locking move the task and perhaps the lock; polling looks
into the place (`stepSpec_pollPlace`); reading and sending have constructors of their own; a failed
or cancelled call leaves (`stepSpec_leave`). -/
theorem step_spec {op : ReceiversOp Q O} (h : st.step R op = some st') : StepSpec R st op st' := by
  cases op with
  | spawn =>
    cases h
    exact .spawn
  | enter t reader =>
    simp only [step] at h
    split at h
    · rename_i place hlock ht hplace
      cases h
      refine .move _ t .idle (.getMsg reader place .entered) st.lock ht ⟨.inl rfl, rfl, ?_,
        .inr (.inl ⟨rfl, rfl, rfl⟩)⟩
      intro reader' place' point heq
      cases heq
      exact .inr (.inl ⟨rfl, hplace⟩)
    · cases h
  | awaitReply t idx o =>
    simp only [step] at h
    split at h
    · rename_i ht
      cases h
      refine .move _ t .idle (.getMsg (.response idx) (.channel o) .entered) st.lock ht
        ⟨.inl rfl, rfl, ?_, .inr (.inl ⟨rfl, rfl, rfl⟩)⟩
      intro reader' place' point heq
      exact .inr (.inr ⟨idx, o, rfl⟩)
    · cases h
  | pollOnce t =>
    simp only [step] at h
    obtain ⟨reader, place, point, ht, h⟩ := onTask_eq_some h
    cases point <;> cases h
    exact stepSpec_pollPlace ht (.inl rfl) (.inl rfl)
  | readable t =>
    simp only [step] at h
    obtain ⟨reader, place, point, ht, h⟩ := onTask_eq_some h
    cases point <;> cases h
    exact stepSpec_setTask ht rfl rfl rfl rfl
  | poll t =>
    simp only [step] at h
    obtain ⟨reader, place, point, ht, h⟩ := onTask_eq_some h
    cases point <;> cases h
    exact stepSpec_pollPlace ht (.inr rfl) (.inr rfl)
  | pending t =>
    simp only [step] at h
    obtain ⟨reader, place, point, ht, h⟩ := onTask_eq_some h
    cases point <;> cases h
    exact stepSpec_setTask ht rfl rfl rfl rfl
  | acquire t =>
    simp only [step] at h
    obtain ⟨reader, place, point, ht, h⟩ := onTask_eq_some h
    split at h
    · rename_i hlock
      cases h
      refine .move _ t _ (.getMsg reader place .reading) (some t) ht
        ⟨.inl rfl, rfl, ?_, .inl ⟨rfl, rfl, hlock, rfl⟩⟩
      intro reader' place' point' heq
      cases heq
      exact .inl ⟨_, rfl⟩
    · cases h
  | read t closed listening serial msg =>
    simp only [step] at h
    obtain ⟨reader, place, point, ht, h⟩ := onTask_eq_some h
    cases point <;> cases h
    exact .read t reader place closed listening serial msg ht
  | block t =>
    simp only [step] at h
    obtain ⟨reader, place, point, ht, h⟩ := onTask_eq_some h
    cases point <;> cases h
    refine .move _ t _ (.getMsg reader place .waiting) none ht
      ⟨.inl rfl, rfl, ?_, .inr (.inr ⟨rfl, rfl, rfl⟩)⟩
    intro reader' place' point' heq
    cases heq
    exact .inl ⟨_, rfl⟩
  | send t =>
    simp only [step] at h
    obtain ⟨reader, place, point, ht, h⟩ := onTask_eq_some h
    cases point <;> cases h
    exact .send t reader place _ _ ht
  | fail t =>
    simp only [step] at h
    obtain ⟨reader, place, point, ht, h⟩ := onTask_eq_some h
    cases point with
    | polled => cases h
    | reading =>
      cases h
      refine .move _ t _ .idle none ht ⟨.inl rfl, rfl, ?_, .inr (.inr ⟨rfl, rfl, rfl⟩)⟩
      intro _ _ _ heq
      cases heq
    | entered =>
      cases h
      exact stepSpec_leave (.inr rfl) ht rfl
    | waiting =>
      cases h
      exact stepSpec_leave (.inr rfl) ht rfl
    | selecting =>
      cases h
      exact stepSpec_leave (.inr rfl) ht rfl
    | replying number task =>
      cases h
      exact stepSpec_leave (.inr rfl) ht rfl
  | cancel t =>
    simp only [step] at h
    obtain ⟨reader, place, point, ht, h⟩ := onTask_eq_some h
    split_ifs at h with hawait
    cases h
    refine stepSpec_leave (.inl rfl) ht ?_
    cases point with
    | reading => cases hawait
    | entered => rfl
    | waiting => rfl
    | selecting => rfl
    | polled => rfl
    | replying number task => rfl
  | callSender op =>
    cases h
    exact .callSender op
  | configure recvData =>
    simp only [step] at h
    split_ifs at h with hlock
    cases h
    exact .configure recvData hlock

end Spec

end Receivers

/-! ### Calls to the root object -/

/-- A call of the member `A` of the root object on the wire. -/
def callBytes (serial : UInt8) : Bytes :=
  [108, 1, 0, 1, 0, 0, 0, 0, serial, 0, 0, 0, 26, 0, 0, 0,
    1, 1, 111, 0, 1, 0, 0, 0, 47, 0, 0, 0, 0, 0, 0, 0,
    3, 1, 115, 0, 1, 0, 0, 0, 65, 0, 0, 0, 0, 0, 0, 0]

/-- The call as the receiver returns it. -/
def receivedCall (serial : UInt32) : MarshalledMessage where
  body := .new
  dynheader := { DynamicHeader.default with
    serial := NonZeroU32.new serial, object := some "/".toList, member := some "A".toList }
  typ := .call
  flags := 0

/-- The path of the root object. -/
def rootPath : ObjectPath := ⟨"/".toList, by decide⟩

/-- The serial of a request whose reply is awaited. -/
def awaitedSerial : NonZeroU32 := ⟨7, by decide⟩

/-- The serial of the next message that is sent. -/
def nextSerial : NonZeroU32 := ⟨9, by decide⟩

end AsyncRustbus
