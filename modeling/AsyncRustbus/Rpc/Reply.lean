import AsyncRustbus.Rpc.Dispatch

set_option relaxedAutoImplicit false
set_option autoImplicit false

/-!
# Requests and their replies (`lib.rs`)

A connection with any number of tasks, as a step function.  `send_msg_w_rsp` draws a serial,
puts the sending end of a channel into `reply_map`, sends the message and returns a response
future; whoever holds the receive lock reads messages and gives replies away, to itself if it
is the future they answer, else through `reply_map`; a future looks into its channel when it is
polled and takes its entry out of `reply_map` when it is dropped, later if the lock is taken.

Drawing a serial and inserting the sender are two steps here, as in the source: other tasks can
run while the inserting one waits for the lock.

## Main definitions

* `AsyncRustbus.Phase`, `AsyncRustbus.Request`, `AsyncRustbus.RpcState` — a request, and a
  connection with its requests.  `allocs`, `received`, `handed` and `panicked` record what
  happened and are read by no step.
* `RpcState.process` — a message is read by a waiting task.
* `AsyncRustbus.Action`, `RpcState.step`, `RpcState.Reachable` — the steps, and the states that
  are reached while the serials in use do not wrap around (`RpcState.InWindow`).

## Main results

* `AsyncRustbus.queueMsgBody_cases`, `RpcState.process_spec` — what becomes of a message.
* `RpcState.step_spec` — what a step can do, which is all that the invariants use.
-/

namespace AsyncRustbus

/-- A `Reply` or an `Error` that answers the call with the serial `s`. -/
def MarshalledMessage.IsReplyTo (msg : MarshalledMessage) (s : NonZeroU32) : Prop :=
  (msg.typ = .reply ∨ msg.typ = .error) ∧ msg.dynheader.responseSerial = some s

/-- The predicate of a waiting task accepts a reply iff the task is the future it answers. -/
private lemma pred_of_isReplyTo {Q O : Type} {msg : MarshalledMessage} {s : NonZeroU32}
    (h : msg.IsReplyTo s) (reader : Reader Q) (recvData : RecvData Q O) :
    (reader = .response s ∧ reader.pred msg recvData = .ok true) ∨
      (reader ≠ .response s ∧ reader.pred msg recvData = .ok false) := by
  obtain ⟨htyp, hser⟩ := h
  cases reader with
  | response idx =>
    by_cases hidx : s = idx
    · subst hidx
      left
      rcases htyp with h | h <;> simp [Reader.pred, resPred, h, hser]
    · right
      refine ⟨fun heq => hidx (Reader.response.inj heq).symm, ?_⟩
      rcases htyp with h | h <;> simp [Reader.pred, resPred, h, hser, hidx]
  | signal sigMatch =>
    right
    rcases htyp with h | h <;>
      simp [Reader.pred, MatchRule.sigPred, MatchRule.matchesMsg, h]
  | call path =>
    right
    rcases htyp with h | h <;> simp [Reader.pred, callPred, h]

/-- A response future takes nothing but its replies. -/
private lemma isReplyTo_of_pred {Q O : Type} {msg : MarshalledMessage} {idx : NonZeroU32}
    {recvData : RecvData Q O} (h : (Reader.response idx : Reader Q).pred msg recvData = .ok true) :
    msg.IsReplyTo idx := by
  cases htyp : msg.typ <;> cases hser : msg.dynheader.responseSerial <;>
    simp_all [Reader.pred, resPred, MarshalledMessage.IsReplyTo]

/-- A message that answers nobody and that the reader does not want leaves the data alone.

**Proof sketch.** By the type of the message. Signals and calls are given to the rules and the
hierarchy, whose answers leave the data alone; a reply that answers nobody has no response serial,
and then the dispatcher panics. -/
private lemma queueMsgBody_of_not_reply {Q O : Type} (closed : Q → Bool) {reader : Reader Q}
    {recvData : RecvData Q O} {msg : MarshalledMessage}
    (hpred : reader.pred msg recvData = .ok false) (hreply : ¬∃ s, msg.IsReplyTo s) :
    ∃ res, queueMsgBody closed reader recvData msg = (res, recvData) ∧ res ≠ .ok .taken ∧
      ∀ o, res ≠ .ok (.forwarded o) := by
  cases htyp : msg.typ with
  | signal =>
    cases hscan : recvData.sigMatches.queueSig msg with
    | ok o =>
      cases o with
      | some q => exact ⟨.ok (.queued q), by simp [queueMsgBody, hpred, htyp, hscan], by simp,
          by simp⟩
      | none => exact ⟨.ok .dropped, by simp [queueMsgBody, hpred, htyp, hscan], by simp, by simp⟩
    | err e => cases e
    | panic => exact ⟨.panic, by simp [queueMsgBody, hpred, htyp, hscan], by simp, by simp⟩
  | call =>
    cases hsend : recvData.hierarchy.send closed msg with
    | ok q => exact ⟨.ok (.queued q), by simp [queueMsgBody, hpred, htyp, hsend], by simp, by simp⟩
    | err reply => exact ⟨.ok (.respond reply), by simp [queueMsgBody, hpred, htyp, hsend],
        by simp, by simp⟩
    | panic => exact ⟨.panic, by simp [queueMsgBody, hpred, htyp, hsend], by simp, by simp⟩
  | reply =>
    cases hser : msg.dynheader.responseSerial with
    | none => exact ⟨.panic, by simp [queueMsgBody, hpred, htyp, hser], by simp, by simp⟩
    | some s => exact absurd ⟨s, .inl htyp, hser⟩ hreply
  | error =>
    cases hser : msg.dynheader.responseSerial with
    | none => exact ⟨.panic, by simp [queueMsgBody, hpred, htyp, hser], by simp, by simp⟩
    | some s => exact absurd ⟨s, .inr htyp, hser⟩ hreply
  | invalid => exact ⟨.panic, by simp [queueMsgBody, hpred, htyp], by simp, by simp⟩

/-- **What the dispatcher does with a message**: it gives it to the reader, sends it through
the channel of the request that it answers, or leaves the map of the requests alone; the last
happens to a reply only if the reader is not the future it answers and the map has no entry for
it.

**Proof sketch.** By the predicate of the reader. If it holds, the reader takes the message, and a
reader that takes a reply is the future it answers (`isReplyTo_of_pred`). Otherwise a reply is
looked up in the map, and any other message is dealt with by `queueMsgBody_of_not_reply`. -/
theorem queueMsgBody_cases {Q O : Type} (closed : Q → Bool) (reader : Reader Q)
    (recvData : RecvData Q O) (msg : MarshalledMessage) :
    (queueMsgBody closed reader recvData msg = (.ok .taken, recvData) ∧
      (∀ idx, reader = .response idx → msg.IsReplyTo idx) ∧
      ∀ s, msg.IsReplyTo s → reader = .response s) ∨
    (∃ s o, msg.IsReplyTo s ∧ AssocMap.get recvData.replyMap s = some o ∧
      reader ≠ .response s ∧ queueMsgBody closed reader recvData msg = (.ok (.forwarded o),
        { recvData with replyMap := AssocMap.remove recvData.replyMap s })) ∨
    (∃ res, queueMsgBody closed reader recvData msg = (res, recvData) ∧ res ≠ .ok .taken ∧
      (∀ o, res ≠ .ok (.forwarded o)) ∧
      ∀ s, msg.IsReplyTo s → reader ≠ .response s ∧ AssocMap.get recvData.replyMap s = none) := by
  cases hpred : reader.pred msg recvData with
  | err e => cases e
  | panic =>
    refine .inr (.inr ⟨.panic, by simp [queueMsgBody, hpred], by simp, by simp, ?_⟩)
    intro s hs
    rcases pred_of_isReplyTo hs reader recvData with ⟨-, h⟩ | ⟨-, h⟩ <;> simp [hpred] at h
  | ok b =>
    cases b with
    | true =>
      refine .inl ⟨by simp [queueMsgBody, hpred], ?_, ?_⟩
      · rintro idx rfl
        exact isReplyTo_of_pred hpred
      · intro s hs
        rcases pred_of_isReplyTo hs reader recvData with ⟨heq, -⟩ | ⟨-, h⟩
        · exact heq
        · simp [hpred] at h
    | false =>
      by_cases hreply : ∃ s, msg.IsReplyTo s
      · obtain ⟨s, hs⟩ := hreply
        have hne : reader ≠ .response s := by
          rcases pred_of_isReplyTo hs reader recvData with ⟨-, h⟩ | ⟨hne, -⟩
          · simp [hpred] at h
          · exact hne
        cases hget : AssocMap.get recvData.replyMap s with
        | some o =>
          refine .inr (.inl ⟨s, o, hs, hget, hne, ?_⟩)
          rcases hs.1 with h | h <;> simp [queueMsgBody, hpred, h, hs.2, hget]
        | none =>
          refine .inr (.inr ⟨.ok .dropped, ?_, by simp, by simp, ?_⟩)
          · rcases hs.1 with h | h <;> simp [queueMsgBody, hpred, h, hs.2, hget]
          · intro s' hs'
            have heq := hs.2
            rw [hs'.2, Option.some.injEq] at heq
            rw [heq]
            exact ⟨hne, hget⟩
      · obtain ⟨res, heq, htaken, hforwarded⟩ := queueMsgBody_of_not_reply closed hpred hreply
        exact .inr (.inr ⟨res, heq, htaken, hforwarded, fun s hs => absurd ⟨s, hs⟩ hreply⟩)

/-- How far a request has come. -/
inductive Phase
  /-- It has its serial, and its sender is not in `reply_map` yet. -/
  | allocated
  /-- Its sender was inserted, and `send_msg_loop` is running. -/
  | sending
  /-- The message was sent, and the response future has not been resolved. -/
  | awaiting
  /-- The response future has been resolved, with a message or with an error. -/
  | resolved (res : Option MarshalledMessage)
  /-- `send_msg_w_rsp` was cancelled or failed, so there is no response future. -/
  | failed
  /-- The response future was dropped; `true` while the removal of its entry is pending. -/
  | dropped (removing : Bool)
  deriving DecidableEq

namespace Phase

/-- The receiving end of the channel exists. -/
def listening : Phase → Bool
  | sending => true
  | awaiting => true
  | _ => false

/-- The response future exists. -/
def hasFuture : Phase → Bool
  | awaiting => true
  | resolved _ => true
  | _ => false

/-- The request is outstanding, or the removal of its entry is pending.  A resolved request is
outstanding until its future is dropped, because only then its entry is removed. -/
def active : Phase → Bool
  | failed => false
  | dropped removing => removing
  | _ => true

/-- A request that listens is outstanding. -/
lemma active_of_listening {p : Phase} (h : p.listening = true) : p.active = true := by
  cases p with
  | sending => rfl
  | awaiting => rfl
  | allocated => rfl
  | resolved res => rfl
  | failed => cases h
  | dropped removing => cases h

end Phase

/-- A call of `send_msg_w_rsp`: the number of its serial in the order of allocation, the
serial, and what its channel holds. -/
structure Request where
  number : ℕ
  serial : NonZeroU32
  phase : Phase
  chan : Option MarshalledMessage
  deriving DecidableEq

/-- A connection.  A request is named by its index. -/
structure RpcState (Q : Type) where
  serial : UInt32
  recvData : RecvData Q ℕ
  requests : List Request
  /-- The serials that were handed out. -/
  allocs : List NonZeroU32
  /-- The number of messages that were read. -/
  received : ℕ
  /-- The messages that were given to response futures. -/
  handed : List (ℕ × ℕ)
  /-- A future has found its channel closed. -/
  panicked : Bool

/-- A task that waits for a message. -/
inductive Task (Q : Type)
  | future (o : ℕ)
  | signal (sigMatch : MatchRule Q)
  | call (path : ObjectPath)

/-- The steps of a connection. -/
inductive Action (Q : Type)
  /-- `allocate_idx` draws the zero and tries again. -/
  | fetchZero
  /-- `allocate_idx` of a `send_msg_wo_rsp`. -/
  | allocateWoRsp
  /-- `allocate_idx` of a `send_msg_w_rsp`. -/
  | allocateWRsp
  /-- `get_recv_and_insert_sender`. -/
  | insertSender (o : ℕ)
  /-- `send_msg_loop` returns. -/
  | finishSend (o : ℕ)
  /-- `send_msg_w_rsp` is cancelled, or `send_msg_loop` fails. -/
  | failSend (o : ℕ)
  /-- A task that waits reads a message. -/
  | process (closed : Q → Bool) (task : Task Q) (msg : MarshalledMessage)
  /-- A response future looks into its channel. -/
  | poll (o : ℕ)
  /-- A response future is resolved with an error of the socket. -/
  | ioError (o : ℕ)
  /-- A response future is dropped, while the receive lock is free or taken. -/
  | drop (o : ℕ) (locked : Bool)
  /-- The deferred removal of an entry. -/
  | runRemoval (o : ℕ)
  /-- The call paths and match rules are changed. -/
  | configure (hierarchy : CallHierarchy Q) (sigMatches : SigMatches Q)

namespace RpcState

variable {Q : Type}

/-- A new connection. -/
def new : RpcState Q := ⟨1, ⟨[], .new, []⟩, [], [], 0, [], false⟩

/-- The map of the requests that wait for replies. -/
def replyMap (st : RpcState Q) : List (NonZeroU32 × ℕ) := st.recvData.replyMap

/-- Replace a request. -/
def setRequest (st : RpcState Q) (o : ℕ) (r : Request) : RpcState Q :=
  { st with requests := st.requests.set o r }

/-- Replace the map of the requests. -/
def setReplyMap (st : RpcState Q) (replyMap : List (NonZeroU32 × ℕ)) : RpcState Q :=
  { st with recvData := { st.recvData with replyMap := replyMap } }

/-- Hand out a serial. -/
def allocate (st : RpcState Q) (idx : NonZeroU32) : RpcState Q :=
  { st with serial := st.serial + 1, allocs := st.allocs ++ [idx] }

/-- The predicate of a waiting task is that of its reader; a response future waits when its
message was sent. -/
def reader (st : RpcState Q) : Task Q → Option (Reader Q)
  | .future o =>
    match st.requests[o]? with
    | some r => if r.phase = .awaiting then some (.response r.serial) else none
    | none => none
  | .signal sigMatch => some (.signal sigMatch)
  | .call path => some (.call path)

/-- `sender.send(msg).ok()`: the channel takes the message if its receiving end exists. -/
def forward (st : RpcState Q) (o : ℕ) (msg : MarshalledMessage) : RpcState Q :=
  match st.requests[o]? with
  | some r =>
    if r.phase.listening then
      { st.setRequest o { r with chan := some msg } with
        handed := st.handed ++ [(st.received, o)] }
    else st
  | none => st

/-- The response future that reads the socket returns the message. -/
def take (st : RpcState Q) (o : ℕ) (msg : MarshalledMessage) : RpcState Q :=
  match st.requests[o]? with
  | some r =>
    { st.setRequest o { r with phase := .resolved (some msg) } with
      handed := st.handed ++ [(st.received, o)] }
  | none => st

/-- What reading a message does to the requests. -/
def deliver (st : RpcState Q) (task : Task Q) (msg : MarshalledMessage) :
    Res Empty (Handled Q ℕ) → RpcState Q
  | .ok .taken =>
    match task with
    | .future o => st.take o msg
    | _ => st
  | .ok (.forwarded o) => st.forward o msg
  | _ => st

/-- A message is read under the receive lock by a waiting task. -/
def process (st : RpcState Q) (closed : Q → Bool) (task : Task Q) (msg : MarshalledMessage) :
    Option (RpcState Q) :=
  match st.reader task with
  | none => none
  | some reader =>
    let res := queueMsgBody closed reader st.recvData msg
    let st' := ({ st with recvData := res.2 } : RpcState Q).deliver task msg res.1
    some { st' with received := st.received + 1 }

/-- A step of the request `o`, possible in some phases. -/
def onRequest (st : RpcState Q) (o : ℕ) (allowed : Phase → Bool) (f : Request → RpcState Q) :
    Option (RpcState Q) :=
  match st.requests[o]? with
  | some r => if allowed r.phase then some (f r) else none
  | none => none

/-- Polling the receiving end of the channel: it panics if the channel is closed, which it is
if the sender was dropped without sending.  The sender is in the map or it was dropped. -/
def pollChan (st : RpcState Q) (o : ℕ) (r : Request) : RpcState Q :=
  match r.chan with
  | some msg => st.setRequest o { r with phase := .resolved (some msg) }
  | none => if st.replyMap.any fun e => decide (e.2 = o) then st else { st with panicked := true }

/-- `reply_map.remove(&idx)` for a request whose response future is gone. -/
def removeEntry (st : RpcState Q) (o : ℕ) (r : Request) : RpcState Q :=
  (st.setRequest o { r with phase := .dropped false }).setReplyMap
    (AssocMap.remove st.replyMap r.serial)

/-- One step.  A step that is not possible in the state has no result. -/
def step (st : RpcState Q) : Action Q → Option (RpcState Q)
  | .fetchZero => if st.serial = 0 then some { st with serial := st.serial + 1 } else none
  | .allocateWoRsp =>
    if h : st.serial ≠ 0 then some (st.allocate ⟨st.serial, h⟩) else none
  | .allocateWRsp =>
    if h : st.serial ≠ 0 then
      some { st.allocate ⟨st.serial, h⟩ with
        requests := st.requests ++ [⟨st.allocs.length, ⟨st.serial, h⟩, .allocated, none⟩] }
    else none
  | .insertSender o => st.onRequest o (fun p => decide (p = .allocated)) fun r =>
    (st.setRequest o { r with phase := .sending }).setReplyMap
      (AssocMap.insert st.replyMap r.serial o)
  | .finishSend o => st.onRequest o (fun p => decide (p = .sending)) fun r =>
    st.setRequest o { r with phase := .awaiting }
  | .failSend o => st.onRequest o (fun p => decide (p = .allocated ∨ p = .sending)) fun r =>
    st.setRequest o { r with phase := .failed }
  | .process closed task msg => st.process closed task msg
  | .poll o => st.onRequest o (fun p => decide (p = .awaiting)) (st.pollChan o)
  | .ioError o => st.onRequest o (fun p => decide (p = .awaiting)) fun r =>
    st.setRequest o { r with phase := .resolved none }
  | .drop o locked => st.onRequest o Phase.hasFuture fun r =>
    if locked then st.setRequest o { r with phase := .dropped true } else st.removeEntry o r
  | .runRemoval o => st.onRequest o (fun p => decide (p = .dropped true)) (st.removeEntry o)
  | .configure hierarchy sigMatches =>
    some { st with recvData := { st.recvData with
      hierarchy := hierarchy, sigMatches := sigMatches } }

/-- Fewer than `2 ^ 32 - 1` serials have been allocated since any request that is outstanding
or whose entry is still to be removed. -/
def InWindow (st : RpcState Q) : Prop :=
  ∀ r ∈ st.requests, r.phase.active = true → st.allocs.length - (r.number + 1) < 2 ^ 32 - 1

/-- The states of the runs that stay in the window. -/
inductive Reachable : RpcState Q → Prop
  | new : Reachable new
  | step {st st' : RpcState Q} (a : Action Q) : Reachable st → st.step a = some st' →
      st'.InWindow → Reachable st'

/-- A run stays in the window. -/
lemma Reachable.inWindow {st : RpcState Q} (h : st.Reachable) : st.InWindow := by
  cases h with
  | new => simp [InWindow, RpcState.new]
  | step a _ _ hwin => exact hwin

/-- A request that can make a step. -/
lemma onRequest_eq_some {st st' : RpcState Q} {o : ℕ} {allowed : Phase → Bool}
    {f : Request → RpcState Q} (h : st.onRequest o allowed f = some st') :
    ∃ r, st.requests[o]? = some r ∧ allowed r.phase = true ∧ f r = st' := by
  unfold onRequest at h
  split at h
  · rename_i r hr
    split_ifs at h with ha
    exact ⟨r, hr, ha, Option.some.inj h⟩
  · cases h

/-- What reading a message does to a connection. -/
inductive ProcessSpec (st : RpcState Q) (task : Task Q) (msg : MarshalledMessage) :
    RpcState Q → Prop
  /-- Nothing happens to the requests; a reply is one that no request waits for. -/
  | other (hno : ∀ s, msg.IsReplyTo s → (∀ o r, task = .future o → st.requests[o]? = some r →
      r.serial ≠ s) ∧ AssocMap.get st.replyMap s = none) :
      ProcessSpec st task msg { st with received := st.received + 1 }
  /-- The response future that reads the message is the one it answers. -/
  | taken (o : ℕ) (r : Request) (htask : task = .future o) (hr : st.requests[o]? = some r)
      (hphase : r.phase = .awaiting) (hreply : msg.IsReplyTo r.serial) :
      ProcessSpec st task msg { st with
        requests := st.requests.set o { r with phase := .resolved (some msg) }
        handed := st.handed ++ [(st.received, o)]
        received := st.received + 1 }
  /-- The message is sent to the request that it answers. -/
  | forwarded (s : NonZeroU32) (o : ℕ) (r : Request) (hreply : msg.IsReplyTo s)
      (hget : AssocMap.get st.replyMap s = some o) (hr : st.requests[o]? = some r)
      (hlisten : r.phase.listening = true) :
      ProcessSpec st task msg { st with
        recvData := { st.recvData with replyMap := AssocMap.remove st.replyMap s }
        requests := st.requests.set o { r with chan := some msg }
        handed := st.handed ++ [(st.received, o)]
        received := st.received + 1 }
  /-- The request that the message answers does not listen any more. -/
  | lost (s : NonZeroU32) (o : ℕ) (hreply : msg.IsReplyTo s)
      (hget : AssocMap.get st.replyMap s = some o)
      (hdeaf : ∀ r, st.requests[o]? = some r → r.phase.listening = false) :
      ProcessSpec st task msg { st with
        recvData := { st.recvData with replyMap := AssocMap.remove st.replyMap s }
        received := st.received + 1 }

/-- Reading a message follows `ProcessSpec`.

**Proof sketch.** The three outcomes of `queueMsgBody_cases`. A message that is taken answers the
request whose future reads. One that is forwarded goes through the channel of a request that still
listens, or is lost with its entry. Every other message changes nothing, and if it is a reply, it is
one that nobody waits for. -/
theorem process_spec {st st' : RpcState Q} {closed : Q → Bool} {task : Task Q}
    {msg : MarshalledMessage} (h : st.process closed task msg = some st') :
    ProcessSpec st task msg st' := by
  unfold process at h
  split at h
  · cases h
  · rename_i reader hreader
    -- a future that reads is the reader of its own serial
    have hfuture : ∀ o, task = .future o → ∃ r, st.requests[o]? = some r ∧
        r.phase = .awaiting ∧ reader = .response r.serial := by
      rintro o rfl
      simp only [RpcState.reader] at hreader
      split at hreader
      · rename_i r hr
        split_ifs at hreader with hphase
        exact ⟨r, hr, hphase, (Option.some.inj hreader).symm⟩
      · cases hreader
    cases h
    rcases queueMsgBody_cases closed reader st.recvData msg with
      ⟨hres, htaken, hown⟩ | ⟨s, o, hs, hget, hne, hres⟩ | ⟨res, hres, hnt, hnf, hno⟩
    · rw [hres]
      cases task with
      | future o =>
        obtain ⟨r, hr, hphase, hreader'⟩ := hfuture o rfl
        simp only [RpcState.deliver, take, hr]
        exact .taken o r rfl hr hphase (htaken _ hreader')
      | signal sigMatch =>
        refine .other ?_
        intro s hs
        cases hreader
        cases hown s hs
      | call path =>
        refine .other ?_
        intro s hs
        cases hreader
        cases hown s hs
    · rw [hres]
      simp only [RpcState.deliver, forward]
      cases hr : st.requests[o]? with
      | none =>
        refine .lost s o hs hget ?_
        intro r hr'
        rw [hr] at hr'
        cases hr'
      | some r =>
        by_cases hlisten : r.phase.listening = true
        · simp only [hlisten, if_true]
          exact .forwarded s o r hs hget hr hlisten
        · simp only [hlisten]
          refine .lost s o hs hget ?_
          intro r' hr'
          rw [hr, Option.some.injEq] at hr'
          simpa [hr'] using hlisten
    · rw [hres]
      have hdeliver : ({ st with recvData := st.recvData } : RpcState Q).deliver task msg res =
          st := by
        unfold RpcState.deliver
        split
        · exact absurd rfl hnt
        · rename_i o
          exact absurd rfl (hnf o)
        · rfl
      rw [hdeliver]
      refine .other ?_
      intro s hs
      refine ⟨?_, (hno s hs).2⟩
      intro o r htask hr hser
      obtain ⟨r', hr', -, hreader'⟩ := hfuture o htask
      rw [hr, Option.some.injEq] at hr'
      subst hr'
      rw [hser] at hreader'
      exact (hno s hs).1 hreader'

/-- A change of phase alone: nobody begins to listen, and a message that a request is resolved
with comes out of its channel. -/
structure PhaseStep (r : Request) (p : Phase) : Prop where
  listen : p.listening = true → r.phase.listening = true
  result : ∀ msg, p = .resolved (some msg) → r.chan = some msg

/-- **What a step can do.** -/
inductive StepSpec (st : RpcState Q) : RpcState Q → Prop
  | fetchZero (hz : st.serial = 0) : StepSpec st { st with serial := st.serial + 1 }
  | allocate (hz : st.serial ≠ 0) : StepSpec st (st.allocate ⟨st.serial, hz⟩)
  | request (hz : st.serial ≠ 0) : StepSpec st { st.allocate ⟨st.serial, hz⟩ with
      requests := st.requests ++ [⟨st.allocs.length, ⟨st.serial, hz⟩, .allocated, none⟩] }
  | phase (o : ℕ) (r : Request) (p : Phase) (hr : st.requests[o]? = some r)
      (hp : PhaseStep r p) : StepSpec st (st.setRequest o { r with phase := p })
  | insert (o : ℕ) (r : Request) (hr : st.requests[o]? = some r) (hphase : r.phase = .allocated) :
      StepSpec st ((st.setRequest o { r with phase := .sending }).setReplyMap
        (AssocMap.insert st.replyMap r.serial o))
  | remove (o : ℕ) (r : Request) (hr : st.requests[o]? = some r)
      (hactive : r.phase.active = true) : StepSpec st (st.removeEntry o r)
  | process (task : Task Q) (msg : MarshalledMessage) (st' : RpcState Q)
      (h : ProcessSpec st task msg st') : StepSpec st st'
  | pending : StepSpec st st
  | closed (o : ℕ) (r : Request) (hr : st.requests[o]? = some r) (hphase : r.phase = .awaiting)
      (hchan : r.chan = none) (hgone : ∀ e ∈ st.replyMap, e.2 ≠ o) :
      StepSpec st { st with panicked := true }
  | configure (hierarchy : CallHierarchy Q) (sigMatches : SigMatches Q) :
      StepSpec st { st with recvData := { st.recvData with
        hierarchy := hierarchy, sigMatches := sigMatches } }

/-- Every step follows `StepSpec`.

**Proof sketch.** By the action, which is possible only in certain phases of its request
(`onRequest_eq_some`). Most of them set the phase; inserting and removing change the map as well;
reading a message is `process_spec`. -/
theorem step_spec {st st' : RpcState Q} {a : Action Q} (h : st.step a = some st') :
    StepSpec st st' := by
  cases a with
  | fetchZero =>
    simp only [step] at h
    split_ifs at h with hz
    cases h
    exact .fetchZero hz
  | allocateWoRsp =>
    simp only [step] at h
    split_ifs at h with hz
    cases h
    exact .allocate hz
  | allocateWRsp =>
    simp only [step] at h
    split_ifs at h with hz
    cases h
    exact .request hz
  | insertSender o =>
    simp only [step] at h
    obtain ⟨r, hr, hphase, rfl⟩ := onRequest_eq_some h
    exact .insert o r hr (of_decide_eq_true hphase)
  | finishSend o =>
    simp only [step] at h
    obtain ⟨r, hr, hphase, rfl⟩ := onRequest_eq_some h
    have hsending : r.phase = .sending := of_decide_eq_true hphase
    exact .phase o r _ hr ⟨fun _ => by rw [hsending]; rfl, by simp⟩
  | failSend o =>
    simp only [step] at h
    obtain ⟨r, hr, -, rfl⟩ := onRequest_eq_some h
    exact .phase o r _ hr ⟨by simp [Phase.listening], by simp⟩
  | process closed task msg => exact .process task msg st' (process_spec h)
  | poll o =>
    simp only [step] at h
    obtain ⟨r, hr, hphase, rfl⟩ := onRequest_eq_some h
    have hawaiting : r.phase = .awaiting := of_decide_eq_true hphase
    unfold pollChan
    split
    · rename_i msg hchan
      refine .phase o r _ hr ⟨by simp [Phase.listening], ?_⟩
      intro msg' hmsg'
      cases hmsg'
      exact hchan
    · rename_i hchan
      split_ifs with hany
      · exact .pending
      · refine .closed o r hr hawaiting hchan ?_
        intro e he heo
        exact hany (List.any_eq_true.mpr ⟨e, he, decide_eq_true heo⟩)
  | ioError o =>
    simp only [step] at h
    obtain ⟨r, hr, -, rfl⟩ := onRequest_eq_some h
    exact .phase o r _ hr ⟨by simp [Phase.listening], by simp⟩
  | drop o locked =>
    simp only [step] at h
    obtain ⟨r, hr, hfuture, rfl⟩ := onRequest_eq_some h
    split_ifs
    · exact .phase o r _ hr ⟨by simp [Phase.listening], by simp⟩
    · refine .remove o r hr ?_
      cases hphase : r.phase <;> simp_all [Phase.hasFuture, Phase.active]
  | runRemoval o =>
    simp only [step] at h
    obtain ⟨r, hr, hphase, rfl⟩ := onRequest_eq_some h
    have hdropped : r.phase = .dropped true := of_decide_eq_true hphase
    exact .remove o r hr (by rw [hdropped]; rfl)
  | configure hierarchy sigMatches =>
    cases h
    exact .configure hierarchy sigMatches

end RpcState

end AsyncRustbus
