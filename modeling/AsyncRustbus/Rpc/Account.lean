import AsyncRustbus.Lib.Arrivals
import AsyncRustbus.Rpc.Receivers

set_option relaxedAutoImplicit false
set_option autoImplicit false

/-!
# What becomes of the messages that are read (`lib.rs`)

The task that reads a message is usually not the one it is for.  What it does with a message is
decided under the lock, before the task can be cancelled: the message is returned, goes to a queue
or a reply channel, is discarded, or is a call that has to be answered.  The reply to such a call
is the one thing that a task carries over an `await`.  A task that is cancelled or fails there loses
the reply; and a message that makes the dispatcher panic is lost as well.  Apart from these two,
every message that is read has exactly one fate, in every interleaving.

## Main definitions

* `AsyncRustbus.Fate`, `MessageRead.fate` — what becomes of a message, as decided under the lock.
* `MessageRead.Justifies` — the reasons for a fate.
* `Receivers.custody` — where the messages are, all places together.
* `Receivers.Configured`, `Receivers.Dispatches`, `Receivers.KeepsReplies` — the setting, and the
  conditions.

## Main results

* `Receivers.custody_perm` — messages are where their fates say.
* `Receivers.custody_once` — every message that was read has exactly one fate.
* `Receivers.custody_cancelled` — a cancelled task loses the reply to a call.
-/

namespace AsyncRustbus

/-- What becomes of a message. -/
inductive Fate (Q O : Type)
  /-- The task that has read it returns it. -/
  | returned (t : ℕ)
  /-- It goes to a queue or a channel. -/
  | placed (place : Place Q O)
  /-- Nobody wants it. -/
  | discarded
  /-- It is answered. -/
  | answered (reply : MarshalledMessage)
  deriving DecidableEq

variable {Q O : Type}

namespace MessageRead

/-- The fate of a message; none if the dispatcher panics. -/
def fate (r : MessageRead Q O) : Option (Fate Q O) :=
  match (queueMsgBody r.closed r.reader r.recvData r.msg).1 with
  | .ok .taken => some (.returned r.task)
  | .ok (.respond reply) => some (.answered reply)
  | .ok (.queued q) => some (.placed (.queue q))
  | .ok (.forwarded o) => if r.listening o then some (.placed (.channel o)) else some .discarded
  | .ok .dropped => some .discarded
  | .err e => nomatch e
  | .panic => none

/-- The reasons for a fate: the predicate of the task accepts the message; the message is routed to
the queue; a request waits for the reply; the signal matches no rule, or nobody waits for the
reply; the call is answered by the tree. -/
def Justifies (r : MessageRead Q O) : Fate Q O → Prop
  | .returned t => r.task = t ∧ r.reader.pred r.msg r.recvData = .ok true
  | .placed (.queue q) =>
    (r.msg.typ = .signal ∧ r.recvData.sigMatches.queueSig r.msg = .ok (some q)) ∨
      (r.msg.typ = .call ∧ r.recvData.hierarchy.send r.closed r.msg = .ok q)
  | .placed (.channel o) => ∃ s, r.msg.IsReplyTo s ∧
      AssocMap.get r.recvData.replyMap s = some o ∧ r.listening o = true
  | .discarded =>
    (r.msg.typ = .signal ∧ ∀ rule ∈ r.recvData.sigMatches, rule.matchesMsg r.msg = false) ∨
      ∃ s, r.msg.IsReplyTo s ∧
        ∀ o, AssocMap.get r.recvData.replyMap s = some o → r.listening o = false
  | .answered reply =>
    r.msg.typ = .call ∧ r.recvData.hierarchy.send r.closed r.msg = .err reply

/-- A signal that goes to no queue matches no rule. -/
private lemma matchesMsg_of_queueSig {l : SigMatches Q} {msg : MarshalledMessage}
    (h : l.queueSig msg = .ok none) : ∀ rule ∈ l, rule.matchesMsg msg = false := by
  induction l with
  | nil => simp
  | cons a l ih =>
    unfold SigMatches.queueSig at h
    split_ifs at h with ha
    · split at h <;> cases h
    · intro rule hrule
      rcases List.mem_cons.mp hrule with rfl | hrule
      · simpa using ha
      · exact ih h rule hrule

/-- **A fate has its reason.**

**Proof sketch.** By the outcomes of `queueMsgBody` (`Receivers.queueMsgBody_spec`). Each of them
gives one fate, whose reason is what was tested on the way to it. -/
lemma justifies_of_fate {r : MessageRead Q O} {f : Fate Q O} (h : r.fate = some f) :
    r.Justifies f := by
  have hspec := Receivers.queueMsgBody_spec r.closed r.reader r.recvData r.msg
  unfold fate at h
  generalize queueMsgBody r.closed r.reader r.recvData r.msg = res at h hspec
  cases hspec with
  | taken hpred =>
    cases h
    exact ⟨rfl, hpred⟩
  | signal q hpred htyp hscan =>
    cases h
    exact .inl ⟨htyp, hscan⟩
  | noRule hpred htyp hscan =>
    cases h
    exact .inl ⟨htyp, matchesMsg_of_queueSig hscan⟩
  | forwarded s o hpred hreply hget =>
    dsimp only at h
    split_ifs at h with hlisten
    · cases h
      exact ⟨s, hreply, hget, hlisten⟩
    · cases h
      refine .inr ⟨s, hreply, fun o' ho' => ?_⟩
      rw [hget, Option.some.injEq] at ho'
      simpa [ho'] using hlisten
  | noRequest s hpred hreply hget =>
    cases h
    refine .inr ⟨s, hreply, fun o ho => ?_⟩
    rw [hget] at ho
    cases ho
  | call q hpred htyp hsend =>
    cases h
    exact .inr ⟨htyp, hsend⟩
  | respond reply hpred htyp hsend =>
    cases h
    exact ⟨htyp, hsend⟩
  | panic => cases h

/-- A message has a fate unless the dispatcher panics. -/
lemma fate_isSome {r : MessageRead Q O}
    (h : (queueMsgBody r.closed r.reader r.recvData r.msg).1 ≠ .panic) :
    r.fate.isSome = true := by
  unfold fate
  cases hres : (queueMsgBody r.closed r.reader r.recvData r.msg).1 with
  | panic => exact absurd hres h
  | err e => cases e
  | ok handled =>
    cases handled with
    | taken => rfl
    | respond reply => rfl
    | queued q => rfl
    | forwarded o =>
      dsimp only
      split_ifs <;> rfl
    | dropped => rfl

end MessageRead

/-- The fate of a message that was returned. -/
def MessageReturned.fate (r : MessageReturned Q O) : Fate Q O :=
  match r.source with
  | some place => .placed place
  | none => .returned r.task

/-- The message whose reply a task has in hand. -/
def RecvTask.held (task : RecvTask Q O) : Option (ℕ × Fate Q O) :=
  task.inHand.map fun e => (e.1, .answered e.2)

namespace Receivers

/-! ## Custody -/

/-- Where the messages are: returned, waiting, discarded, answered, or calls whose replies are in
the hands of tasks. -/
def custody (st : Receivers Q O) : List (ℕ × Fate Q O) :=
  st.returns.map (fun r => (r.number, r.fate)) ++ st.store.map (fun e => (e.2, .placed e.1)) ++
    st.discarded.map (fun n => (n, .discarded)) ++
    st.handed.map (fun e => (e.1, .answered e.2)) ++ st.tasks.filterMap RecvTask.held

/-- The fates of the messages that were read. -/
def fates (st : Receivers Q O) : List (ℕ × Fate Q O) :=
  st.reads.zipIdx.filterMap fun e => e.1.fate.map fun f => (e.2, f)

/-- Replacing an element, seen through `filterMap`. -/
private lemma filterMap_set_perm {α β : Type} (f : α → Option β) {l : List α} {i : ℕ} {a : α}
    (h : l[i]? = some a) (b : α) :
    ((l.set i b).filterMap f ++ (f a).toList).Perm (l.filterMap f ++ (f b).toList) := by
  classical
  have hcons : ∀ (c : α) (l : List α), (c :: l).filterMap f = (f c).toList ++ l.filterMap f := by
    intro c l
    rw [List.filterMap_cons]
    cases f c <;> rfl
  induction l generalizing i with
  | nil => cases h
  | cons c l ih =>
    rw [List.perm_iff_count]
    intro x
    cases i with
    | zero =>
      rw [List.getElem?_cons_zero, Option.some.injEq] at h
      subst h
      simp only [List.set_cons_zero, hcons, List.count_append]
      omega
    | succ i =>
      have htail := (ih h).count_eq x
      simp only [List.set_cons_succ, hcons, List.count_append] at htail ⊢
      omega

/-- The fates, when one more message is read. -/
private lemma fates_concat {st st' : Receivers Q O} {r : MessageRead Q O}
    (h : st'.reads = st.reads ++ [r]) :
    st'.fates = st.fates ++ (r.fate.map fun f => (st.reads.length, f)).toList := by
  unfold fates
  rw [h, List.zipIdx_append, List.filterMap_append]
  congr 1
  cases hf : r.fate <;> simp [hf]

/-- A task that leaves the reply to nobody. -/
private lemma filterMap_held_set {tasks : List (RecvTask Q O)} {t : ℕ} {task task' : RecvTask Q O}
    (ht : tasks[t]? = some task) (hheld : task.held = none) (hheld' : task'.held = none) :
    ((tasks.set t task').filterMap RecvTask.held).Perm (tasks.filterMap RecvTask.held) := by
  have hperm := filterMap_set_perm RecvTask.held ht task'
  rw [hheld, hheld'] at hperm
  simpa using hperm

section Custody

variable {st st' : Receivers Q O}

/-- Only the replies in the hands of tasks change. -/
private lemma custody_perm_of_tasks {new : List (ℕ × Fate Q O)}
    (hreturns : st'.returns = st.returns) (hstore : st'.store = st.store)
    (hdiscarded : st'.discarded = st.discarded) (hhanded : st'.handed = st.handed)
    (htasks : (st'.tasks.filterMap RecvTask.held).Perm
      (st.tasks.filterMap RecvTask.held ++ new)) :
    st'.custody.Perm (st.custody ++ new) := by
  unfold custody
  rw [hreturns, hstore, hdiscarded, hhanded]
  refine (htasks.append_left _).trans (.of_eq ?_)
  simp only [List.append_assoc]

/-- One more message is returned. -/
private lemma custody_concat_returns (r : MessageReturned Q O)
    (hreturns : st'.returns = st.returns ++ [r]) (hstore : st'.store = st.store)
    (hdiscarded : st'.discarded = st.discarded) (hhanded : st'.handed = st.handed)
    (htasks : (st'.tasks.filterMap RecvTask.held).Perm (st.tasks.filterMap RecvTask.held)) :
    st'.custody.Perm (st.custody ++ [(r.number, r.fate)]) := by
  classical
  rw [List.perm_iff_count]
  intro x
  have hcount := htasks.count_eq x
  unfold custody
  rw [hreturns, hstore, hdiscarded, hhanded]
  simp only [List.map_append, List.map_cons, List.map_nil, List.count_append]
  omega

/-- One more message waits. -/
private lemma custody_concat_store (place : Place Q O) (n : ℕ) :
    custody { st with store := st.store ++ [(place, n)] } |>.Perm
      (st.custody ++ [(n, .placed place)]) := by
  classical
  rw [List.perm_iff_count]
  intro x
  simp only [custody, List.map_append, List.map_cons, List.map_nil, List.count_append]
  omega

/-- One more message is discarded. -/
private lemma custody_concat_discarded (n : ℕ) :
    custody { st with discarded := st.discarded ++ [n] } |>.Perm
      (st.custody ++ [(n, .discarded)]) := by
  classical
  rw [List.perm_iff_count]
  intro x
  simp only [custody, List.map_append, List.map_cons, List.map_nil, List.count_append]
  omega

/-- A message goes from its place to the task. -/
private lemma custody_take [DecidableEq Q] [DecidableEq O] {t : ℕ} {reader : Reader Q}
    {place : Place Q O} {point : GetMsgPoint} {e : Place Q O × ℕ}
    (ht : st.tasks[t]? = some (.getMsg reader place point))
    (hpoint : point = .entered ∨ point = .selecting)
    (he : st.store.find? (fun e => decide (e.1 = place)) = some e) :
    custody { st.setTask t .idle with
      store := st.store.eraseP fun e => decide (e.1 = place)
      returns := st.returns ++ [⟨t, e.2, some place⟩] } |>.Perm st.custody := by
  obtain ⟨hplace, l₁, l₂, hsplit, herase, -⟩ := Arrivals.split_of_find? he
  have hheld : (RecvTask.getMsg reader place point).held = none := by
    rcases hpoint with rfl | rfl <;> rfl
  have htasks := filterMap_held_set ht hheld (rfl : (RecvTask.idle : RecvTask Q O).held = none)
  have hfate : (MessageReturned.mk t e.2 (some place)).fate = .placed e.1 := by
    rw [of_decide_eq_true hplace]
    rfl
  rw [List.perm_iff_count]
  intro x
  have hcount := htasks.count_eq x
  unfold custody
  rw [herase, hsplit]
  simp only [setTask, List.map_append, List.map_cons, List.map_nil, List.count_append, hfate,
    List.count_cons, List.count_nil]
  omega

/-- **A message that is read** comes into custody with its fate.

**Proof sketch.** By the outcome of `queueMsgBody`: the message is returned by the task, which
holds nothing else, goes into a queue or a channel, is answered by the task or is discarded. Each
adds one entry to one of the places; a panic adds none and gives no fate. -/
private lemma custody_read {t : ℕ} {reader : Reader Q} {place : Place Q O}
    (ht : st.tasks[t]? = some (.getMsg reader place .reading)) (closed : Q → Bool)
    (listening : O → Bool) (serial : NonZeroU32) (msg : MarshalledMessage) :
    (st.read t reader place closed listening serial msg).custody.Perm
      (st.custody ++ ((MessageRead.mk t reader st.recvData closed listening msg).fate.map
        fun f => (st.reads.length, f)).toList) := by
  have hidle : ((st.tasks.set t .idle).filterMap RecvTask.held).Perm
      (st.tasks.filterMap RecvTask.held) := filterMap_held_set ht rfl rfl
  unfold Receivers.read MessageRead.fate
  rcases queueMsgBody closed reader st.recvData msg with ⟨res, recvData'⟩
  dsimp only
  cases res with
  | err e => cases e
  | panic =>
    rw [← List.append_nil (st.tasks.filterMap RecvTask.held)] at hidle
    exact custody_perm_of_tasks rfl rfl rfl rfl hidle
  | ok handled =>
    cases handled with
    | taken => exact custody_concat_returns ⟨t, st.reads.length, none⟩ rfl rfl rfl rfl hidle
    | respond reply =>
      have htask := filterMap_set_perm RecvTask.held ht (.getMsg reader place
        (.replying st.reads.length ⟨reply, serial, .start⟩))
      have hreading : (RecvTask.getMsg reader place .reading).held = none := rfl
      rw [hreading, Option.toList_none, List.append_nil] at htask
      exact custody_perm_of_tasks rfl rfl rfl rfl htask
    | queued q => exact custody_concat_store (.queue q) st.reads.length
    | forwarded o =>
      simp only [settle]
      split_ifs
      · exact custody_concat_store (.channel o) st.reads.length
      · exact custody_concat_discarded st.reads.length
    | dropped => exact custody_concat_discarded st.reads.length

/-- A pass of the loop of `send_msg_loop` does not leave the message unwritten, unless
`write_next_message` fails. -/
private lemma sendMsgLoopBody_phase (R : Rustbus) (c : Tracked) (task : SendTask) :
    (sendMsgLoopBody R c task).1.phase ≠ .start ∧
      (task.phase = .start → (∀ e, (c.write R task.msg task.serial).1 ≠ .error e) →
        (sendMsgLoopBody R c task).1.phase ≠ .failed) := by
  unfold sendMsgLoopBody
  cases hphase : task.phase with
  | start =>
    rcases hwrite : c.write R task.msg task.serial with ⟨result, c'⟩
    cases result with
    | error e => exact ⟨by simp, fun _ hok => absurd rfl (hok e)⟩
    | ok token => cases token <;> simp
  | waiting token number =>
    dsimp only
    split_ifs
    · simp
    · rcases c.finish with ⟨result, c'⟩
      cases result with
      | error e => simp
      | ok newIdx =>
        dsimp only
        split_ifs <;> simp [hphase]
  | returned number => simp [hphase]
  | failed => simp [hphase]

/-- A task whose reply `SendState` has got has nothing in hand. -/
private lemma held_of_ne_start {reader : Reader Q} {place : Place Q O} {number : ℕ}
    {task : SendTask} (h : task.phase ≠ .start) :
    (RecvTask.getMsg reader place (.replying number task)).held = none := by
  cases hphase : task.phase with
  | start => exact absurd hphase h
  | waiting token n => simp [RecvTask.held, RecvTask.inHand, hphase]
  | returned n => simp [RecvTask.held, RecvTask.inHand, hphase]
  | failed => simp [RecvTask.held, RecvTask.inHand, hphase]

/-- **A reply goes from the hands of the task to `SendState`.**

**Proof sketch.** By counting. A reply that is still to be written is in the hands of the task
before the pass and with `SendState` after it, since the write does not fail (`hok`); a reply that
has been written is in its place already. -/
private lemma custody_send {R : Rustbus} {t : ℕ} {reader : Reader Q} {place : Place Q O}
    {number : ℕ} {task : SendTask}
    (ht : st.tasks[t]? = some (.getMsg reader place (.replying number task)))
    (hok : task.phase = .start → ∀ e, (st.sender.write R task.msg task.serial).1 ≠ .error e) :
    (st.send R t reader place number task).custody.Perm st.custody := by
  obtain ⟨hstart, hfailed⟩ := sendMsgLoopBody_phase R st.sender task
  have hafter : (afterSend reader place number (sendMsgLoopBody R st.sender task).1).held =
      none := by
    unfold afterSend
    split
    · rfl
    · rfl
    · exact held_of_ne_start hstart
  have htask := filterMap_set_perm RecvTask.held ht
    (afterSend reader place number (sendMsgLoopBody R st.sender task).1)
  rw [hafter, Option.toList_none, List.append_nil] at htask
  classical
  rw [List.perm_iff_count]
  intro x
  have hcount := htask.count_eq x
  by_cases hphase : task.phase = .start
  · have hheld : (RecvTask.getMsg reader place (.replying number task)).held =
        some (number, .answered task.msg) := by
      simp [RecvTask.held, RecvTask.inHand, hphase]
    have hnot := hfailed hphase (hok hphase)
    rw [hheld, Option.toList_some] at hcount
    simp only [send, custody, hphase, ne_eq, hnot, not_false_eq_true, and_self, if_true,
      List.map_append, List.map_cons, List.map_nil, List.count_append] at hcount ⊢
    omega
  · rw [held_of_ne_start hphase, Option.toList_none, List.append_nil] at hcount
    simp only [send, custody, hphase, false_and, if_false, List.count_append] at hcount ⊢
    omega

end Custody

/-! ## Runs -/

/-- A message that `get_next_message` returns. -/
def Received (R : Rustbus) (msg : MarshalledMessage) : Prop :=
  ∃ n withFd remCap sock, RecvState.callResult R n (RecvState.new withFd remCap) sock = .ok msg

/-- The setting: messages are what the receiver returns, and rules have their queues. -/
structure Configured (R : Rustbus) (op : ReceiversOp Q O) : Prop where
  read : ∀ t closed listening serial msg, op = .read t closed listening serial msg →
    Received R msg
  configure : ∀ recvData, op = .configure recvData →
    SigMatches.Queued recvData.sigMatches

/-- A message that is read can be handled. -/
def Dispatches (st : Receivers Q O) (op : ReceiversOp Q O) : Prop :=
  ∀ t closed listening serial msg reader place, op = .read t closed listening serial msg →
    st.tasks[t]? = some (.getMsg reader place .reading) →
    Dispatchable closed reader st.recvData msg

/-- No reply is lost: a task that is cancelled or fails has none in hand, and a reply is not
refused by `write_next_message`. -/
structure KeepsReplies (R : Rustbus) (st : Receivers Q O) (op : ReceiversOp Q O) : Prop where
  leave : ∀ t task, op = .cancel t ∨ op = .fail t → st.tasks[t]? = some task →
    task.inHand = none
  send : ∀ t reader place number task, op = .send t →
    st.tasks[t]? = some (.getMsg reader place (.replying number task)) → task.phase = .start →
    ∀ e, (st.sender.write R task.msg task.serial).1 ≠ .error e

/-- Handling a message does not touch the records and the shared data. -/
private lemma settle_keeps (st : Receivers Q O) (t : ℕ) (reader : Reader Q)
    (place : Place Q O) (listening : O → Bool) (serial : NonZeroU32) (number : ℕ)
    (res : Res Empty (Handled Q O)) :
    (st.settle t reader place listening serial number res).reads = st.reads ∧
      (st.settle t reader place listening serial number res).recvData = st.recvData := by
  cases res with
  | err e => cases e
  | panic => exact ⟨rfl, rfl⟩
  | ok handled =>
    cases handled with
    | taken => exact ⟨rfl, rfl⟩
    | respond reply => exact ⟨rfl, rfl⟩
    | queued q => exact ⟨rfl, rfl⟩
    | forwarded o =>
      simp only [settle]
      split_ifs <;> exact ⟨rfl, rfl⟩
    | dropped => exact ⟨rfl, rfl⟩

section Run

variable [DecidableEq Q] [DecidableEq O] {R : Rustbus} {st st' : Receivers Q O}

/-- **A step conserves the messages.**

**Proof sketch.** By the kind of step (`step_spec`). Reading adds the message to custody and to the
fates (`custody_read`); taking one from a queue and sending a reply move it from one place to
another (`custody_take`, `custody_send`); a task that goes on has nothing in its hands, as no reply
is dropped (`hkeep`); the other steps touch no message. -/
private lemma custody_step {op : ReceiversOp Q O} (h : st.custody.Perm st.fates)
    (hkeep : KeepsReplies R st op) (hstep : st.step R op = some st') :
    st'.custody.Perm st'.fates := by
  cases step_spec hstep with
  | spawn =>
    have hspawn : custody { st with tasks := st.tasks ++ [.idle] } = st.custody := by
      simp [custody, RecvTask.held, RecvTask.inHand]
    rw [hspawn]
    exact h
  | move op t task task' lock' ht hmove =>
    have hhand : task.inHand = none := by
      rcases hmove.inHand with hnone | hleave
      · exact hnone
      · exact hkeep.leave t task hleave ht
    have hperm := filterMap_held_set ht (by rw [RecvTask.held, hhand]; rfl)
      (by rw [RecvTask.held, hmove.inHand']; rfl : task'.held = none)
    exact (hperm.append_left _).trans h
  | take op t reader place point e ht hpoint he => exact (custody_take ht hpoint he).trans h
  | read t reader place closed listening serial msg ht =>
    have hreads : (st.read t reader place closed listening serial msg).reads =
        st.reads ++ [⟨t, reader, st.recvData, closed, listening, msg⟩] :=
      (settle_keeps _ t reader place listening serial st.reads.length _).1
    rw [fates_concat hreads]
    exact (custody_read ht closed listening serial msg).trans (h.append_right _)
  | send t reader place number task ht =>
    have hok := hkeep.send t reader place number task rfl ht
    exact (custody_send ht hok).trans h
  | callSender op => exact h
  | configure recvData hlock => exact h

/-- **Messages are conserved**: in every run that loses no reply, the messages are where their
fates say. -/
theorem custody_perm {recvData : RecvData Q O} {withFd : Bool} {script : List SendEvent}
    {allowed : Receivers Q O → ReceiversOp Q O → Prop}
    (hallowed : ∀ st op, allowed st op → KeepsReplies R st op)
    (h : ReachableBy R allowed (new recvData withFd script) st) : st.custody.Perm st.fates := by
  induction h with
  | start => exact .refl _
  | step op _ hop hstep ih => exact custody_step ih (hallowed _ _ hop) hstep

/-- The shared data is configured, and the messages that were read have fates. -/
structure Settled (st : Receivers Q O) : Prop where
  rules : SigMatches.Queued st.recvData.sigMatches
  fate : ∀ r ∈ st.reads, r.fate.isSome = true

/-- **A step leaves no message without a fate.**

**Proof sketch.** By the kind of step (`step_spec`). Only reading adds a message: it passed the
checks of the receiver, so by `ne_panic_iff_of_accepted` its handling does not panic where `hdisp`
holds, and then it has a fate. Only configuring changes the rules, and there `hconf` says that they
have queues. -/
private lemma Settled.step (hR : R.KnownTypes) {op : ReceiversOp Q O} (h : st.Settled)
    (hconf : Configured R op) (hdisp : Dispatches st op) (hstep : st.step R op = some st') :
    st'.Settled := by
  cases step_spec hstep with
  | spawn => exact ⟨h.rules, h.fate⟩
  | move op t task task' lock' ht hmove => exact ⟨h.rules, h.fate⟩
  | take op t reader place point e ht hpoint he => exact ⟨h.rules, h.fate⟩
  | read t reader place closed listening serial msg ht =>
    obtain ⟨hreads, hdata⟩ := settle_keeps { st with
      recvData := (queueMsgBody closed reader st.recvData msg).2
      reads := st.reads ++ [⟨t, reader, st.recvData, closed, listening, msg⟩] }
      t reader place listening serial st.reads.length
      (queueMsgBody closed reader st.recvData msg).1
    obtain ⟨-, hrules⟩ := queueMsgBody_keeps closed reader st.recvData msg
    obtain ⟨n, withFd, remCap, sock, hmsg⟩ := hconf.read t closed listening serial msg rfl
    have hacc := RecvState.accepted_of_callResult n withFd remCap sock msg hmsg
    have hpanic := (ne_panic_iff_of_accepted hR hacc closed reader st.recvData h.rules).mpr
      (hdisp t closed listening serial msg reader place rfl ht)
    refine ⟨?_, fun r hr => ?_⟩
    · rw [Receivers.read, hdata, hrules]
      exact h.rules
    · rw [Receivers.read, hreads] at hr
      rcases List.mem_append.mp hr with hold | hnew
      · exact h.fate r hold
      · rw [List.mem_singleton.mp hnew]
        exact MessageRead.fate_isSome hpanic
  | send t reader place number task ht => exact ⟨h.rules, h.fate⟩
  | callSender op => exact ⟨h.rules, h.fate⟩
  | configure recvData hlock => exact ⟨hconf.configure recvData rfl, h.fate⟩

/-- In every run whose messages can be handled, they have fates. -/
private lemma settled_of_reachableBy (hR : R.KnownTypes) {recvData : RecvData Q O}
    (hrules : SigMatches.Queued recvData.sigMatches)
    {withFd : Bool} {script : List SendEvent} {allowed : Receivers Q O → ReceiversOp Q O → Prop}
    (hallowed : ∀ st op, allowed st op → Configured R op ∧ Dispatches st op)
    (h : ReachableBy R allowed (new recvData withFd script) st) : st.Settled := by
  induction h with
  | start =>
    refine ⟨hrules, fun r hr => ?_⟩
    cases hr
  | step op _ hop hstep ih =>
    obtain ⟨hconf, hdisp⟩ := hallowed _ _ hop
    exact ih.step hR hconf hdisp hstep

end Run

/-- The fate of one message, behind the first `k` ones.

**Proof sketch.** By induction on the messages: the first one has the number `k`, and all others
have greater ones. -/
private lemma filter_zipIdx_fate (l : List (MessageRead Q O)) (k i : ℕ) :
    ((l.zipIdx k).filterMap fun e => e.1.fate.map fun f => (e.2, f)).filter
      (fun e => decide (e.1 = k + i)) =
        ((l[i]?.bind MessageRead.fate).map fun f => (k + i, f)).toList := by
  induction l generalizing k i with
  | nil => simp
  | cons r l ih =>
    rw [List.zipIdx_cons]
    cases i with
    | zero =>
      -- the other messages have greater numbers
      have hrest : ((l.zipIdx (k + 1)).filterMap fun e => e.1.fate.map fun f => (e.2, f)).filter
          (fun e => decide (e.1 = k + 0)) = [] := by
        rw [List.filter_eq_nil_iff]
        intro e he
        obtain ⟨e', he', hmap⟩ := List.mem_filterMap.mp he
        obtain ⟨f, -, rfl⟩ := Option.map_eq_some_iff.mp hmap
        have hle := List.le_snd_of_mem_zipIdx he'
        simp only [decide_eq_true_eq]
        omega
      cases hf : r.fate with
      | none => simpa [hf] using hrest
      | some f => simpa [hf] using hrest
    | succ i =>
      have hne : k ≠ k + (i + 1) := by omega
      have hrest := ih (k + 1) i
      rw [show k + 1 + i = k + (i + 1) by omega] at hrest
      cases hf : r.fate with
      | none => simpa [hf] using hrest
      | some f => simpa [hf, hne] using hrest

/-- The message with the number `n` has one entry among the fates. -/
private lemma filter_fates {st : Receivers Q O} {n : ℕ} {r : MessageRead Q O} {f : Fate Q O}
    (hn : st.reads[n]? = some r) (hf : r.fate = some f) :
    st.fates.filter (fun e => decide (e.1 = n)) = [(n, f)] := by
  have hfilter := filter_zipIdx_fate st.reads 0 n
  simp only [Nat.zero_add, hn, Option.bind_some, hf, Option.map_some, Option.toList_some] at hfilter
  exact hfilter

/-- An answered message whose reply nobody has in hand is with `SendState`.

**Proof sketch.** In custody the message stands in one place. Nobody has it in hand, and what was
returned, stored or discarded is no answered message, so it is with `SendState`. -/
private lemma filter_handed {st : Receivers Q O} {n : ℕ} {reply : MarshalledMessage}
    (h : st.custody.filter (fun e => decide (e.1 = n)) = [(n, .answered reply)])
    (hhand : ∀ task ∈ st.tasks, task.inHand = none) :
    st.handed.filter (fun e => decide (e.1 = n)) = [(n, reply)] := by
  have hheld : st.tasks.filterMap RecvTask.held = [] :=
    List.filterMap_eq_nil_iff.mpr fun task ht => by rw [RecvTask.held, hhand task ht]; rfl
  unfold custody at h
  rw [hheld, List.append_nil, List.filter_append] at h
  rcases List.append_eq_singleton_iff.mp h with ⟨-, hlast⟩ | ⟨hfirst, -⟩
  · rw [List.filter_map] at hlast
    obtain ⟨⟨m, reply'⟩, he, hx⟩ := List.map_eq_singleton_iff.mp hlast
    cases hx
    exact he
  · -- the other places hold no answered messages
    have hmem := List.mem_singleton_self ((n, .answered reply) : ℕ × Fate Q O)
    rw [← hfirst] at hmem
    rcases List.mem_append.mp (List.mem_of_mem_filter hmem) with hmem | hmem
    · rcases List.mem_append.mp hmem with hmem | hmem
      · obtain ⟨r, -, hr⟩ := List.mem_map.mp hmem
        have hfate := congrArg Prod.snd hr
        dsimp only [MessageReturned.fate] at hfate
        split at hfate <;> cases hfate
      · obtain ⟨e, -, he⟩ := List.mem_map.mp hmem
        cases congrArg Prod.snd he
    · obtain ⟨m, -, hm⟩ := List.mem_map.mp hmem
      cases congrArg Prod.snd hm

/-- **Every message that is read is accounted for exactly once.**  In every interleaving of tasks
in which the messages that are read can be handled and no reply is lost, every message that was
read has one fate, for which there is a reason; it is in one place according to that fate, once;
and if it is answered, `SendState` has got its reply once as soon as no task has it in hand. -/
theorem custody_once [DecidableEq Q] [DecidableEq O] (R : Rustbus) (hR : R.KnownTypes)
    (recvData : RecvData Q O) (hrules : SigMatches.Queued recvData.sigMatches) (withFd : Bool)
    (script : List SendEvent) (st : Receivers Q O)
    (h : ReachableBy R (fun st op => Configured R op ∧ Dispatches st op ∧ KeepsReplies R st op)
      (new recvData withFd script) st) (n : ℕ) (r : MessageRead Q O)
    (hn : st.reads[n]? = some r) :
    ∃ f, r.Justifies f ∧ st.custody.filter (fun e => decide (e.1 = n)) = [(n, f)] ∧
      ∀ reply, f = .answered reply → (∀ task ∈ st.tasks, task.inHand = none) →
        st.handed.filter (fun e => decide (e.1 = n)) = [(n, reply)] := by
  have hperm := custody_perm (fun _ _ hop => hop.2.2) h
  have hsettled := settled_of_reachableBy hR hrules (fun _ _ hop => ⟨hop.1, hop.2.1⟩) h
  obtain ⟨f, hf⟩ := Option.isSome_iff_exists.mp (hsettled.fate r (List.mem_of_getElem? hn))
  have hfilter := hperm.filter fun e => decide (e.1 = n)
  rw [filter_fates hn hf] at hfilter
  have hone := List.perm_singleton.mp hfilter
  refine ⟨f, MessageRead.justifies_of_fate hf, hone, ?_⟩
  rintro reply rfl hhand
  exact filter_handed hone hhand

/-! ### A call that nobody handles -/

/-- A response future that is about to read. -/
def aboutToRead : Receivers ℕ ℕ :=
  { new RecvData.new false [] with
    lock := some 0
    tasks := [.getMsg (.response awaitedSerial) (.channel 0) .reading] }

/-- It reads a call to an object that does not exist. -/
def readsCall : ReceiversOp ℕ ℕ :=
  .read 0 (fun _ => false) (fun _ => true) nextSerial (receivedCall 1)

/-- It has the reply to the call in hand. -/
def withReply : Receivers ℕ ℕ :=
  { new RecvData.new false [] with
    tasks := [.getMsg (.response awaitedSerial) (.channel 0)
      (.replying 0 ⟨makeObjectNotFound (receivedCall 1), nextSerial, .start⟩)]
    reads := [⟨0, .response awaitedSerial, RecvData.new, fun _ => false, fun _ => true,
      receivedCall 1⟩] }

/-- The receiver returns the call. -/
private lemma receivedCall_one : RecvState.callResult .reference 0 (RecvState.new false 4096)
    (deliverySocket (callBytes 1)) = .ok (receivedCall 1) := by decide

/-- The rules of a new connection. -/
private lemma queued_nil : SigMatches.Queued RecvData.new.sigMatches :=
  ⟨by simp [RecvData.new], by simp [RecvData.new]⟩

/-- The call can be handled. -/
private lemma dispatches_readsCall : Dispatches aboutToRead readsCall := by
  intro t closed listening serial msg reader place hop ht
  cases hop
  cases ht
  have hacc := RecvState.accepted_of_callResult 0 false 4096 _ _ receivedCall_one
  refine (ne_panic_iff_of_accepted reference_knownTypes hacc (fun _ => false)
    (.response awaitedSerial) RecvData.new queued_nil).mp ?_
  have hres : (queueMsgBody (fun _ => false) (.response awaitedSerial) RecvData.new
      (receivedCall 1)).1 = .ok (.respond (makeObjectNotFound (receivedCall 1))) := rfl
  rw [hres]
  simp

/-- A step that neither reads nor configures. -/
private lemma configured_of_ne (st : Receivers ℕ ℕ) (op : ReceiversOp ℕ ℕ)
    (hread : ∀ t closed listening serial msg, op ≠ .read t closed listening serial msg)
    (hconf : ∀ recvData, op ≠ .configure recvData) :
    Configured .reference op ∧ Dispatches st op := by
  refine ⟨⟨?_, ?_⟩, ?_⟩
  · exact fun t closed listening serial msg hop => absurd hop (hread t closed listening serial msg)
  · exact fun recvData hop => absurd hop (hconf recvData)
  · exact fun t closed listening serial msg _ _ hop =>
      absurd hop (hread t closed listening serial msg)

/-- Reading the call is allowed. -/
private lemma allowed_readsCall : Configured .reference readsCall ∧
    Dispatches aboutToRead readsCall ∧ KeepsReplies .reference aboutToRead readsCall := by
  refine ⟨⟨?_, ?_⟩, dispatches_readsCall, ?_, ?_⟩
  · intro t closed listening serial msg hop
    cases hop
    exact ⟨0, false, 4096, _, receivedCall_one⟩
  · intro recvData hop
    cases hop
  · rintro t task (hop | hop)
    · cases hop
    · cases hop
  · intro t reader place number task hop
    cases hop

/-- A run in which the future gets the reply in hand. -/
private lemma reachableBy_withReply : ReachableBy .reference (fun st op =>
    Configured .reference op ∧ Dispatches st op ∧ KeepsReplies .reference st op)
    (new RecvData.new false []) withReply := by
  have hrun : run .reference (new RecvData.new false []) [.spawn, .awaitReply 0 awaitedSerial 0,
      .pollOnce 0, .readable 0, .poll 0, .acquire 0] = some aboutToRead := rfl
  refine .step readsCall (ReachableBy.start.run ?_ hrun) allowed_readsCall rfl
  intro op hop st
  have hquiet : (∀ t closed listening serial msg, op ≠ .read t closed listening serial msg) ∧
      (∀ recvData, op ≠ .configure recvData) ∧ KeepsReplies .reference st op := by
    simp only [List.mem_cons, List.not_mem_nil, or_false] at hop
    rcases hop with rfl | rfl | rfl | rfl | rfl | rfl <;>
      exact ⟨by simp, by simp, by simp, by simp⟩
  obtain ⟨hread, hconf, hkeep⟩ := hquiet
  obtain ⟨hconfigured, hdispatches⟩ := configured_of_ne st op hread hconf
  exact ⟨hconfigured, hdispatches, hkeep⟩

/-- The reply goes to `SendState`, which keeps it until the stream takes it. -/
theorem custody_once_reply : ∃ st : Receivers ℕ ℕ, ReachableBy .reference (fun st op =>
      Configured .reference op ∧ Dispatches st op ∧ KeepsReplies .reference st op)
      (new RecvData.new false []) st ∧
    st.sender.state.queue.length = 1 ∧
    ∃ r, st.reads[0]? = some r ∧ ∃ f, r.Justifies f ∧
      st.custody.filter (fun e => decide (e.1 = 0)) = [(0, f)] ∧
      ∀ reply, f = .answered reply → (∀ task ∈ st.tasks, task.inHand = none) →
        st.handed.filter (fun e => decide (e.1 = 0)) = [(0, reply)] := by
  have hwrite : (withReply.sender.write .reference (makeObjectNotFound (receivedCall 1))
      nextSerial).1 = .ok (some 0) := by decide
  obtain ⟨hconf, hdisp⟩ := configured_of_ne withReply (.send 0) (by simp) (by simp)
  have hkeep : KeepsReplies .reference withReply (.send 0) := by
    refine ⟨by simp, ?_⟩
    intro t reader place number task hop ht _ e
    cases hop
    cases ht
    rw [hwrite]
    simp
  have hreach := reachableBy_withReply.step (.send 0) ⟨hconf, hdisp, hkeep⟩ rfl
  refine ⟨_, hreach, by decide, _, rfl, ?_⟩
  exact custody_once .reference reference_knownTypes RecvData.new queued_nil false [] _ hreach
    0 _ rfl

/-- **A cancelled task loses the reply to a call.**  The receiver returns the call; a response
future reads it and is dropped before `SendState` has got the reply: the message is nowhere. -/
theorem custody_cancelled :
    RecvState.callResult .reference 0 (RecvState.new false 4096) (deliverySocket (callBytes 1)) =
      .ok (receivedCall 1) ∧
    ∃ st : Receivers ℕ ℕ, ReachableBy .reference (fun st op =>
        Configured .reference op ∧ Dispatches st op) (new RecvData.new false []) st ∧
      st.reads.map MessageRead.msg = [receivedCall 1] ∧ st.handed = [] ∧
      ¬ ∃ f, st.custody.filter (fun e => decide (e.1 = 0)) = [(0, f)] := by
  refine ⟨receivedCall_one, { withReply with tasks := [.idle] }, ?_, rfl, rfl, ?_⟩
  · have hreach : ReachableBy .reference (fun st op => Configured .reference op ∧
        Dispatches st op) (new RecvData.new false []) withReply :=
      reachableBy_withReply.mono fun _ _ hop => ⟨hop.1, hop.2.1⟩
    exact hreach.step (.cancel 0) (configured_of_ne _ _ (by simp) (by simp)) rfl
  · rintro ⟨f, hf⟩
    cases hf

end Receivers

end AsyncRustbus
