import AsyncRustbus.Lib.Arrivals
import AsyncRustbus.Rpc.Receivers

set_option relaxedAutoImplicit false
set_option autoImplicit false

/-!
# The order in which a task gets its messages (`lib.rs`)

One task awaits the calls of one path, or the signals of one rule.  A message for it comes through
its queue if another task has read it, and past the queue if the task reads it itself.  The task
looks into its queue before it takes the lock, but not again when it has it: a message that another
task queues between the two is overtaken by the next one, which the task reads itself.  If the
queue is empty whenever the task takes the lock, the messages come in the order of arrival.

## Main definitions

* `RecvData.OwnQueues` — no two handlers or rules share a queue.
* `RecvData.Registered` — the queue of a path or of a rule.
* `Receivers.deliveredTo` — the numbers of the messages that a task has got.
* `Receivers.Consumes` — the setting: the task awaits nothing else, and its queue stays registered.
* `Receivers.EmptyAtLock` — the queue is empty when the task takes the lock.

## Main results

* `Receivers.deliveredTo_increasing` — then messages come in the order of arrival, in every
  interleaving.
* `Receivers.deliveredTo_overtaken` — two calls in the wrong order.
-/

namespace AsyncRustbus

variable {Q O : Type}

/-- A `MsgQueue` is owned by one handler or by one rule. -/
structure RecvData.OwnQueues (recvData : RecvData Q O) : Prop where
  calls : recvData.hierarchy.OwnQueues
  signals : SigMatches.Queued recvData.sigMatches
  apart : ∀ cs q, CallHierarchy.queueAt cs recvData.hierarchy = some q →
    ∀ r ∈ recvData.sigMatches, r.queue ≠ some q

/-- `q` is the queue that a task in `get_call` or `get_signal` waits on. -/
def RecvData.Registered (recvData : RecvData Q O) (q : Q) : Reader Q → Prop
  | .call path => recvData.hierarchy.getQueue path = some q
  | .signal sigMatch => (∃ r ∈ recvData.sigMatches, r.eq sigMatch = true) ∧
      ∀ r ∈ recvData.sigMatches, r.eq sigMatch = true → r.queue = some q
  | .response _ => False

namespace RecvData

variable {recvData : RecvData Q O} {reader : Reader Q} {q : Q}

/-- A task waits on the queue that is registered for it. -/
lemma Registered.receiverOf (h : recvData.Registered q reader) {place : Place Q O}
    (hplace : recvData.receiverOf reader = some place) : place = .queue q := by
  cases reader with
  | response idx => cases hplace
  | call path =>
    have hq : recvData.hierarchy.getQueue path = some q := h
    simp only [RecvData.receiverOf, hq, Option.map_some, Option.some.injEq] at hplace
    exact hplace.symm
  | signal sigMatch =>
    simp only [RecvData.receiverOf, SigMatches.getSignalQueue] at hplace
    cases hsearch : recvData.sigMatches.binarySearch sigMatch with
    | error i => simp [hsearch] at hplace
    | ok idx =>
      obtain ⟨r, hr, hcmp⟩ := BinarySearch.search_eq_ok hsearch
      have hqueue := h.2 r (List.mem_of_getElem? hr) ((MatchRule.cmp_eq_iff r sigMatch).mp hcmp)
      simp only [hsearch, hr, hqueue, Option.some.injEq] at hplace
      exact hplace.symm

/-- A call that is queued has a path that leads to the queue.

**Proof sketch.** Following `send`: of its outcomes only a queue that takes the call gives `ok`, and
it is reached with the path of the message and the status of `send_inner`. -/
private lemma sendInner_of_send {closed : Q → Bool} {h : CallHierarchy Q}
    {msg : MarshalledMessage} (hsend : h.send closed msg = .ok q) :
    ∃ path : ObjectPath, msg.dynheader.object = some path.inner ∧
      CallHierarchy.sendInner path.components h = .queue q := by
  unfold CallHierarchy.send at hsend
  cases hobj : msg.dynheader.object with
  | none => simp [hobj] at hsend
  | some object =>
    cases hpath : ObjectPath.fromStr object with
    | error e => simp [hobj, hpath] at hsend
    | ok path =>
      have hinner := (ObjectPath.fromStr_eq_ok_iff _ _).mp hpath
      refine ⟨path, by rw [hinner], ?_⟩
      simp only [hobj, hpath] at hsend
      cases hinn : CallHierarchy.sendInner path.components h with
      | queue q' =>
        simp only [hinn] at hsend
        split_ifs at hsend
        cases hsend
        rfl
      | intro keys =>
        simp only [hinn] at hsend
        cases hmake : makeIntroMsg msg keys with
        | ok reply => simp [hmake] at hsend
        | err e => cases e
        | panic => simp [hmake] at hsend
      | unhandled keys => simp [hinn] at hsend
      | dropped => simp [hinn] at hsend

/-- **A task never queues a message for itself**: what would go to its queue satisfies its
predicate.

**Proof sketch.** A call goes to a queue of the tree and a signal to a queue of the registry, and
these are different queues.  A call that `send_inner` gives to the queue at `path` is accepted by
`is_match`; a signal that goes to the queue of a rule matches the rule. -/
lemma Registered.queued_ne (h : recvData.Registered q reader) (hown : recvData.OwnQueues)
    {closed : Q → Bool} {msg : MarshalledMessage} {q' : Q} {recvData' : RecvData Q O}
    (heq : queueMsgBody closed reader recvData msg = (.ok (.queued q'), recvData')) :
    q' ≠ q := by
  have hspec := Receivers.queueMsgBody_spec closed reader recvData msg
  rw [heq] at hspec
  rintro rfl
  cases hspec with
  | signal q' hpred htyp hscan =>
    cases reader with
    | response idx => exact h
    | call path =>
      obtain ⟨r, hr, hrq⟩ := SigMatches.exists_mem_of_queueSig hscan
      exact hown.apart path.components q' h r hr hrq
    | signal sigMatch =>
      obtain ⟨⟨r, hr, hrule⟩, hqueue⟩ := h
      obtain ⟨before, after, hsplit⟩ := List.mem_iff_append.mp hr
      have hsignals := hown.signals
      rw [hsplit] at hscan hsignals
      have hmatch := ((SigMatches.queueSig_eq_some_iff hsignals (hqueue r hr hrule) msg).mp
        hscan).1
      rw [MatchRule.matchesMsg_congr hrule] at hmatch
      simp [Reader.pred, MatchRule.sigPred, hmatch] at hpred
  | call q' hpred htyp hsend =>
    obtain ⟨path, hobj, hinner⟩ := sendInner_of_send hsend
    cases reader with
    | response idx => exact h
    | call tarPath =>
      have hmatch := CallHierarchy.isMatch_of_sendInner hown.calls h hinner
      have hpath : ObjectPath.fromStr path.inner = .ok path :=
        (ObjectPath.fromStr_eq_ok_iff _ _).mpr rfl
      simp [Reader.pred, callPred, htyp, hobj, hpath, hmatch] at hpred
    | signal sigMatch =>
      obtain ⟨⟨r, hr, hrule⟩, hqueue⟩ := h
      obtain ⟨cs, -, hcs⟩ := CallHierarchy.queueAt_of_sendInner _ _ _ hinner
      exact hown.apart cs q' hcs r hr (hqueue r hr hrule)

/-- The dispatcher leaves the queues with their owners. -/
lemma OwnQueues.queueMsgBody (h : recvData.OwnQueues) (closed : Q → Bool) (reader : Reader Q)
    (msg : MarshalledMessage) : (queueMsgBody closed reader recvData msg).2.OwnQueues := by
  obtain ⟨htree, hrules⟩ := Receivers.queueMsgBody_keeps closed reader recvData msg
  refine ⟨?_, ?_, ?_⟩
  · rw [htree]
    exact h.calls
  · rw [hrules]
    exact h.signals
  · rw [htree, hrules]
    exact h.apart

/-- The dispatcher leaves the queue of a task registered. -/
lemma Registered.queueMsgBody (h : recvData.Registered q reader) (closed : Q → Bool)
    (reader' : Reader Q) (msg : MarshalledMessage) :
    (queueMsgBody closed reader' recvData msg).2.Registered q reader := by
  obtain ⟨htree, hrules⟩ := Receivers.queueMsgBody_keeps closed reader' recvData msg
  cases reader with
  | response idx => exact h
  | call path =>
    rw [Registered, htree]
    exact h
  | signal sigMatch =>
    rw [Registered, hrules]
    exact h

end RecvData

namespace Receivers

/-! ## One consumer -/

/-- The numbers of the messages that `get_msg` has returned to the task, in that order. -/
def deliveredTo (st : Receivers Q O) (t : ℕ) : List ℕ :=
  (st.returns.filter fun r => decide (r.task = t)).map MessageReturned.number

/-- The setting: the task `t` awaits nothing but `reader`, for which the queue `q` stays
registered. -/
structure Consumes (t : ℕ) (reader : Reader Q) (q : Q) (op : ReceiversOp Q O) : Prop where
  enter : ∀ reader', op = .enter t reader' → reader' = reader
  awaitReply : ∀ idx o, op ≠ .awaitReply t idx o
  configure : ∀ recvData, op = .configure recvData →
    recvData.OwnQueues ∧ recvData.Registered q reader

/-- When the task takes the lock, nothing waits in its queue. -/
def EmptyAtLock (t : ℕ) (q : Q) (st : Receivers Q O) (op : ReceiversOp Q O) : Prop :=
  op = .acquire t → ∀ m, (.queue q, m) ∉ st.store

/-- The invariant: a task that reads has the lock, and while the consumer reads, nothing waits in
its queue. -/
structure Ordered (t : ℕ) (reader : Reader Q) (q : Q) (st : Receivers Q O) : Prop where
  own : st.recvData.OwnQueues
  registered : st.recvData.Registered q reader
  lock : ∀ t' task, st.tasks[t']? = some task → task.isReading = true → st.lock = some t'
  consumer : ∀ reader' place point, st.tasks[t]? = some (.getMsg reader' place point) →
    reader' = reader ∧ place = .queue q
  inOrder : Arrivals.InOrder (.queue q) st.reads.length st.store (st.deliveredTo t)
  empty : ∀ task, st.tasks[t]? = some task → task.isReading = true →
    ∀ m, (.queue q, m) ∉ st.store

section Invariant

variable {t : ℕ} {reader : Reader Q} {q : Q} {st st' : Receivers Q O}

/-- Looking up a task where one was replaced. -/
private lemma getElem?_set_task {l : List (RecvTask Q O)} {i j : ℕ} {task task' : RecvTask Q O}
    (h : (l.set i task')[j]? = some task) :
    (j = i ∧ task = task') ∨ (j ≠ i ∧ l[j]? = some task) := by
  by_cases hij : i = j
  · subst hij
    have hlt := (List.getElem?_eq_some_iff.mp h).1
    rw [List.length_set] at hlt
    rw [List.getElem?_set_self hlt, Option.some.injEq] at h
    exact .inl ⟨rfl, h.symm⟩
  · rw [List.getElem?_set_ne hij] at h
    exact .inr ⟨Ne.symm hij, h⟩

/-- Looking up a task where one was added. -/
private lemma getElem?_append_idle {l : List (RecvTask Q O)} {j : ℕ} {task : RecvTask Q O}
    (h : (l ++ [.idle])[j]? = some task) : l[j]? = some task ∨ task = .idle := by
  rcases Nat.lt_or_ge j l.length with hlt | hge
  · rw [List.getElem?_append_left hlt] at h
    exact .inl h
  · rw [List.getElem?_append_right hge] at h
    exact .inr (List.mem_singleton.mp (List.mem_of_getElem? h))

/-- A message more for the task. -/
private lemma deliveredTo_append (r : MessageReturned Q O)
    (h : st'.returns = st.returns ++ [r]) :
    st'.deliveredTo t =
      if r.task = t then st.deliveredTo t ++ [r.number] else st.deliveredTo t := by
  unfold deliveredTo
  rw [h, List.filter_append, List.map_append]
  split_ifs with hr <;> simp [hr]

/-- **A step of one task.**

**Proof sketch.** The parts one by one, each by whether the task is the one that changed
(`getElem?_set_task`). Another task that reads had the lock before and has it still, and what it
found empty is empty, since nothing has been added to the queue. -/
private lemma Ordered.update (h : Ordered t reader q st) (t₀ : ℕ) (task' : RecvTask Q O)
    (hown : st'.recvData.OwnQueues) (hreg : st'.recvData.Registered q reader)
    (htasks : st'.tasks = st.tasks.set t₀ task')
    (hself : task'.isReading = true →
      st'.lock = some t₀ ∧ (t₀ = t → ∀ m, (.queue q, m) ∉ st'.store))
    (hothers : st'.lock = st.lock ∨ ∀ t', t' ≠ t₀ → st.lock ≠ some t')
    (hconsumer : t₀ = t → ∀ reader' place point, task' = .getMsg reader' place point →
      reader' = reader ∧ place = .queue q)
    (horder : Arrivals.InOrder (.queue q) st'.reads.length st'.store (st'.deliveredTo t))
    (hsub : ∀ m, (.queue q, m) ∈ st'.store → (.queue q, m) ∈ st.store) :
    Ordered t reader q st' := by
  refine ⟨hown, hreg, fun t' task ht' hread => ?_, fun reader' place point ht => ?_, horder,
    fun task ht hread m hm => ?_⟩
  · rw [htasks] at ht'
    rcases getElem?_set_task ht' with ⟨rfl, rfl⟩ | ⟨hne, hold⟩
    · exact (hself hread).1
    · have hlock := h.lock t' task hold hread
      rcases hothers with hsame | hnone
      · rw [hsame, hlock]
      · exact absurd hlock (hnone t' hne)
  · rw [htasks] at ht
    rcases getElem?_set_task ht with ⟨rfl, heq⟩ | ⟨-, hold⟩
    · exact hconsumer rfl reader' place point heq.symm
    · exact h.consumer reader' place point hold
  · rw [htasks] at ht
    rcases getElem?_set_task ht with ⟨rfl, rfl⟩ | ⟨-, hold⟩
    · exact (hself hread).2 rfl m hm
    · exact h.empty task hold hread m (hsub m hm)

/-- A step of a task that changes the task and the lock alone.

**Proof sketch.** `Ordered.update`. The lock changes in three ways (`Move.lock`): the task takes it
while it is free, and then the queue is empty by `hempty`; nobody does anything to it; or the task
that reads gives it up, and it is the only one that has it. -/
private lemma Ordered.move (h : Ordered t reader q st) {op : ReceiversOp Q O} {t₀ : ℕ}
    {task task' : RecvTask Q O} {lock' : Option ℕ} (ht : st.tasks[t₀]? = some task)
    (hmove : Move st op t₀ task task' lock') (hop : Consumes t reader q op)
    (hempty : EmptyAtLock t q st op) :
    Ordered t reader q { st with tasks := st.tasks.set t₀ task', lock := lock' } := by
  refine h.update t₀ task' h.own h.registered rfl ?_ ?_ ?_ h.inOrder (fun m hm => hm)
  · intro hread
    obtain ⟨rfl, -, rfl⟩ := hmove.acquired hread
    refine ⟨rfl, ?_⟩
    rintro rfl
    exact hempty rfl
  · rcases hmove.lock with ⟨-, -, hfree, -⟩ | ⟨-, -, hlock⟩ | ⟨-, hread, -⟩
    · right
      intro t' _
      rw [hfree]
      simp
    · exact .inl hlock
    · right
      intro t' hne hlock
      rw [h.lock t₀ task ht hread, Option.some.injEq] at hlock
      exact hne hlock.symm
  · rintro rfl reader' place point hget
    rcases hmove.place reader' place point hget with ⟨point', rfl⟩ | ⟨rfl, hplace⟩ | ⟨idx, o, rfl⟩
    · exact h.consumer reader' place point' ht
    · have hreader := hop.enter reader' rfl
      subst hreader
      exact ⟨rfl, h.registered.receiverOf hplace⟩
    · exact absurd rfl (hop.awaitReply idx o)

/-- A task takes the first message of its place. -/
private lemma Ordered.take [DecidableEq Q] [DecidableEq O] (h : Ordered t reader q st) {t₀ : ℕ}
    {reader' : Reader Q} {place : Place Q O} {point : GetMsgPoint} {e : Place Q O × ℕ}
    (ht : st.tasks[t₀]? = some (.getMsg reader' place point))
    (he : st.store.find? (fun e => decide (e.1 = place)) = some e) :
    Ordered t reader q { st.setTask t₀ .idle with
      store := st.store.eraseP fun e => decide (e.1 = place)
      returns := st.returns ++ [⟨t₀, e.2, some place⟩] } := by
  refine h.update t₀ .idle h.own h.registered rfl ?_ (.inl rfl) ?_ ?_
    (fun m hm => List.mem_of_mem_eraseP hm)
  · intro hread
    cases hread
  · intro _ _ _ _ heq
    cases heq
  · rw [deliveredTo_append ⟨t₀, e.2, some place⟩ rfl]
    split_ifs with hown
    · obtain ⟨-, rfl⟩ := h.consumer reader' place point (hown ▸ ht)
      exact h.inOrder.takeOwn he
    · exact h.inOrder.takeOther List.eraseP_sublist

/-- The task that reads goes on without the lock. -/
private lemma Ordered.release (h : Ordered t reader q st) {t₀ : ℕ} {reader' : Reader Q}
    {place : Place Q O} {task' : RecvTask Q O}
    (ht : st.tasks[t₀]? = some (.getMsg reader' place .reading))
    (hown : st'.recvData.OwnQueues) (hreg : st'.recvData.Registered q reader)
    (htasks : st'.tasks = st.tasks.set t₀ task') (hstore : st'.store = st.store)
    (hread : task'.isReading = false)
    (hplace : ∀ reader'' place' point, task' = .getMsg reader'' place' point →
      reader'' = reader' ∧ place' = place)
    (horder : Arrivals.InOrder (.queue q) st'.reads.length st'.store (st'.deliveredTo t)) :
    Ordered t reader q st' := by
  refine h.update t₀ task' hown hreg htasks ?_ ?_ ?_ horder ?_
  · intro htrue
    rw [hread] at htrue
    cases htrue
  · right
    intro t' hne heq
    rw [h.lock t₀ _ ht rfl, Option.some.injEq] at heq
    exact hne heq.symm
  · rintro rfl reader'' place' point heq
    obtain ⟨rfl, rfl⟩ := hplace reader'' place' point heq
    exact h.consumer _ _ _ ht
  · intro m hm
    rwa [hstore] at hm

/-- The task that reads keeps the lock. -/
private lemma Ordered.keep (h : Ordered t reader q st)
    (hown : st'.recvData.OwnQueues) (hreg : st'.recvData.Registered q reader)
    (htasks : st'.tasks = st.tasks) (hlock : st'.lock = st.lock)
    (horder : Arrivals.InOrder (.queue q) st'.reads.length st'.store (st'.deliveredTo t))
    (hempty : ∀ task, st.tasks[t]? = some task → task.isReading = true →
      ∀ m, (.queue q, m) ∉ st'.store) : Ordered t reader q st' := by
  refine ⟨hown, hreg, ?_, ?_, horder, ?_⟩
  · rw [htasks, hlock]
    exact h.lock
  · rw [htasks]
    exact h.consumer
  · rw [htasks]
    exact hempty

/-- **Reading a message.**

**Proof sketch.** A message that the consumer takes is newer than all it has got, and nothing
waits for it, because it has the lock.  A message that it queues goes to another queue. -/
private lemma Ordered.read (h : Ordered t reader q st) {t₀ : ℕ} {reader' : Reader Q}
    {place : Place Q O} (ht : st.tasks[t₀]? = some (.getMsg reader' place .reading))
    (closed : Q → Bool) (listening : O → Bool) (serial : NonZeroU32) (msg : MarshalledMessage) :
    Ordered t reader q (st.read t₀ reader' place closed listening serial msg) := by
  have hown := h.own.queueMsgBody closed reader' msg
  have hreg := h.registered.queueMsgBody closed reader' msg
  -- only one task reads
  have hone : ∀ task, st.tasks[t]? = some task → task.isReading = true → t₀ = t := by
    intro task htask hread
    have hlock := h.lock t task htask hread
    rw [h.lock t₀ _ ht rfl, Option.some.injEq] at hlock
    exact hlock
  obtain ⟨record, hrecord⟩ : ∃ r : MessageRead Q O,
      r = ⟨t₀, reader', st.recvData, closed, listening, msg⟩ := ⟨_, rfl⟩
  have hlen : (st.reads ++ [record]).length = st.reads.length + 1 := by simp
  have hpass := h.inOrder.pass
  rw [← hlen] at hpass
  rcases hbody : queueMsgBody closed reader' st.recvData msg with ⟨res, recvData'⟩
  rw [hbody] at hown hreg
  have heq : st.read t₀ reader' place closed listening serial msg = settle { st with
      recvData := recvData'
      reads := st.reads ++ [record] }
      t₀ reader' place listening serial st.reads.length res := by
    simp only [Receivers.read, hbody, hrecord]
  rw [heq]
  cases res with
  | err e => cases e
  | panic => exact h.release ht hown hreg rfl rfl rfl (fun _ _ _ heq => by cases heq) hpass
  | ok handled =>
    cases handled with
    | taken =>
      refine h.release ht hown hreg rfl rfl rfl (fun _ _ _ heq => by cases heq) ?_
      rw [deliveredTo_append ⟨t₀, st.reads.length, none⟩ rfl]
      split_ifs with hself
      · have hsame : t₀ = t := hself
        subst hsame
        have hdeliver := h.inOrder.deliver (h.empty _ ht rfl)
        rw [← hlen] at hdeliver
        exact hdeliver
      · exact hpass
    | respond reply =>
      refine h.release ht hown hreg rfl rfl rfl (fun _ _ _ heq => ?_) hpass
      cases heq
      exact ⟨rfl, rfl⟩
    | queued q' =>
      have hstore := h.inOrder.store (.queue q')
      rw [← hlen] at hstore
      refine h.keep hown hreg rfl rfl hstore fun task htask hread m hm => ?_
      obtain rfl := hone task htask hread
      obtain ⟨rfl, -⟩ := h.consumer reader' place .reading ht
      rcases List.mem_append.mp hm with hold | hnew
      · exact h.empty task htask hread m hold
      · have hq : (Place.queue q, m) = ((.queue q', st.reads.length) : Place Q O × ℕ) :=
          List.mem_singleton.mp hnew
        cases hq
        exact h.registered.queued_ne h.own hbody rfl
    | forwarded o =>
      simp only [settle]
      split_ifs
      · have hstore := h.inOrder.store (.channel o)
        rw [← hlen] at hstore
        refine h.keep hown hreg rfl rfl hstore fun task htask hread m hm => ?_
        rcases List.mem_append.mp hm with hold | hnew
        · exact h.empty task htask hread m hold
        · cases List.mem_singleton.mp hnew
      · exact h.keep hown hreg rfl rfl hpass h.empty
    | dropped => exact h.keep hown hreg rfl rfl hpass h.empty

/-- One pass of the loop of `send_msg_loop`. -/
private lemma Ordered.send (h : Ordered t reader q st) {R : Rustbus} {t₀ : ℕ}
    {reader' : Reader Q} {place : Place Q O} {number : ℕ} {task : SendTask}
    (ht : st.tasks[t₀]? = some (.getMsg reader' place (.replying number task))) :
    Ordered t reader q (st.send R t₀ reader' place number task) := by
  have hafter : ∀ sent : SendTask,
      (afterSend reader' place number sent).isReading = false ∧
      ∀ reader'' place' point, afterSend reader' place number sent = .getMsg reader'' place' point →
        reader'' = reader' ∧ place' = place := by
    intro sent
    unfold afterSend
    split
    · exact ⟨rfl, fun _ _ _ heq => by cases heq; exact ⟨rfl, rfl⟩⟩
    · exact ⟨rfl, fun _ _ _ heq => by cases heq⟩
    · exact ⟨rfl, fun _ _ _ heq => by cases heq; exact ⟨rfl, rfl⟩⟩
  obtain ⟨hread, hplace⟩ := hafter (sendMsgLoopBody R st.sender task).1
  refine h.update t₀ _ h.own h.registered rfl ?_ (.inl rfl) ?_ h.inOrder (fun m hm => hm)
  · intro htrue
    rw [hread] at htrue
    cases htrue
  · rintro rfl reader'' place' point heq
    obtain ⟨rfl, rfl⟩ := hplace reader'' place' point heq
    exact h.consumer _ _ _ ht

/-- **A step keeps the order.**

**Proof sketch.** By the kind of step (`step_spec`). A new task waits for nothing. Moving, taking,
reading and sending are the steps of one task; a call to the sender touches neither lock nor queues;
and configuring keeps the registration of the consumer, by `hop`. -/
lemma Ordered.step [DecidableEq Q] [DecidableEq O] (h : Ordered t reader q st) {R : Rustbus}
    {op : ReceiversOp Q O} (hop : Consumes t reader q op) (hempty : EmptyAtLock t q st op)
    (hstep : st.step R op = some st') : Ordered t reader q st' := by
  cases step_spec hstep with
  | spawn =>
    refine ⟨h.own, h.registered, fun t' task ht' hread => ?_, fun reader' place point ht => ?_,
      h.inOrder, fun task ht hread => ?_⟩
    · rcases getElem?_append_idle ht' with hold | rfl
      · exact h.lock t' task hold hread
      · cases hread
    · rcases getElem?_append_idle ht with hold | hidle
      · exact h.consumer reader' place point hold
      · cases hidle
    · rcases getElem?_append_idle ht with hold | rfl
      · exact h.empty task hold hread
      · cases hread
  | move op t₀ task task' lock' ht hmove => exact h.move ht hmove hop hempty
  | take op t₀ reader' place point e ht hpoint he => exact h.take ht he
  | read t₀ reader' place closed listening serial msg ht =>
    exact h.read ht closed listening serial msg
  | send t₀ reader' place number task ht => exact h.send ht
  | callSender op => exact h.keep h.own h.registered rfl rfl h.inOrder h.empty
  | configure recvData hlock =>
    obtain ⟨hown, hreg⟩ := hop.configure recvData rfl
    exact h.keep hown hreg rfl rfl h.inOrder h.empty

/-- A run keeps the order. -/
lemma ReachableBy.ordered [DecidableEq Q] [DecidableEq O] {R : Rustbus} {start : Receivers Q O}
    (hstart : Ordered t reader q start)
    (h : ReachableBy R (fun st op => Consumes t reader q op ∧ EmptyAtLock t q st op) start st) :
    Ordered t reader q st := by
  induction h with
  | start => exact hstart
  | step op _ hop hstep ih => exact ih.step hop.1 hop.2 hstep

/-- The order at the start. -/
lemma ordered_new {recvData : RecvData Q O} (hown : recvData.OwnQueues)
    (hreg : recvData.Registered q reader) (withFd : Bool) (script : List SendEvent) :
    Ordered t reader q (new recvData withFd script) := by
  refine ⟨hown, hreg, ?_, ?_, .nil _, ?_⟩
  · intro t' task ht'
    cases ht'
  · intro reader' place point ht
    cases ht
  · intro task ht
    cases ht

end Invariant

/-- **Messages come in the order of arrival.**  Let the task `t` await the calls of a path or the
signals of a rule, for which the queue `q` is registered, and let any number of other tasks do
what they like.  In every interleaving in which nothing waits in `q` whenever `t` takes the lock,
the messages that `t` has got are in the order in which they were read from the socket. -/
theorem deliveredTo_increasing [DecidableEq Q] [DecidableEq O] (R : Rustbus) (t : ℕ)
    (reader : Reader Q) (q : Q) (recvData : RecvData Q O) (hown : recvData.OwnQueues)
    (hreg : recvData.Registered q reader) (withFd : Bool) (script : List SendEvent)
    (st : Receivers Q O)
    (h : ReachableBy R (fun st op => Consumes t reader q op ∧ EmptyAtLock t q st op)
      (new recvData withFd script) st) : (st.deliveredTo t).Pairwise (· < ·) :=
  (h.ordered (ordered_new hown hreg withFd script)).inOrder.increasing

/-! ### Two calls -/

/-- A connection on which the calls of all objects are queued. -/
def rootQueue : RecvData ℕ ℕ := ⟨[], CallHierarchy.new.insertPath rootPath .queue 0, []⟩

/-- Its only queue has one owner. -/
private lemma ownQueues_rootQueue : rootQueue.OwnQueues := by
  refine ⟨CallHierarchy.ownQueues_new.insertPath rootPath .queue ?_, ⟨?_, ?_⟩, ?_⟩
  · intro p hp
    rw [CallHierarchy.queueAt_new] at hp
    cases hp
  · simp [rootQueue]
  · simp [rootQueue]
  · intro _ _ _ r hr
    simp [rootQueue] at hr

/-- Task 0 awaits calls and has found none.  Task 1 awaits a reply and is about to take the lock. -/
def bothWait : List (ReceiversOp ℕ ℕ) :=
  [.spawn, .spawn, .enter 0 (.call rootPath), .pollOnce 0,
    .awaitReply 1 awaitedSerial 0, .pollOnce 1, .readable 1, .poll 1]

/-- Task 0 looks into its queue in the `select!`. -/
def consumerPolls : List (ReceiversOp ℕ ℕ) := [.readable 0, .poll 0]

/-- Task 1 reads the first call and queues it. -/
def otherReads : List (ReceiversOp ℕ ℕ) :=
  [.acquire 1, .read 1 (fun _ => false) (fun _ => true) nextSerial (receivedCall 1), .block 1]

/-- Task 0 reads the second call and returns it. -/
def consumerReads : List (ReceiversOp ℕ ℕ) :=
  [.acquire 0, .read 0 (fun _ => false) (fun _ => true) nextSerial (receivedCall 2)]

/-- Task 0 awaits the next call. -/
def consumerEnters : List (ReceiversOp ℕ ℕ) := [.enter 0 (.call rootPath), .pollOnce 0]

/-- Task 0 awaits nothing but calls. -/
private lemma consumes_ops : ∀ op ∈ bothWait ++ consumerPolls ++ otherReads ++ consumerReads ++
    consumerEnters, Consumes 0 (.call rootPath) 0 op := by
  intro op hop
  simp only [bothWait, consumerPolls, otherReads, consumerReads, consumerEnters, List.cons_append,
    List.nil_append, List.mem_cons, List.not_mem_nil, or_false] at hop
  rcases hop with rfl | rfl | rfl | rfl | rfl | rfl | rfl | rfl | rfl | rfl | rfl | rfl | rfl |
    rfl | rfl | rfl | rfl <;> exact ⟨by simp [eq_comm], by simp, by simp⟩

/-- The consumer finds the first call in its queue before it takes the lock and reads the second
one.

**Proof sketch.** The run is computed: what it delivers, and that the queue is empty before the lock
is taken. So each step of it meets the conditions, and `deliveredTo_increasing` applies to the state
that it reaches. -/
theorem deliveredTo_two : ∃ st : Receivers ℕ ℕ,
    ReachableBy .reference (fun st op => Consumes 0 (.call rootPath) 0 op ∧
      EmptyAtLock 0 0 st op) (new rootQueue false []) st ∧
    st.deliveredTo 0 = [0, 1] ∧ (st.deliveredTo 0).Pairwise (· < ·) := by
  let ops := bothWait ++ otherReads ++ consumerPolls ++ consumerEnters ++ consumerPolls
  have hops : ∀ op ∈ ops, ∀ st, Consumes 0 (.call rootPath) 0 op ∧ EmptyAtLock 0 0 st op := by
    intro op hop st
    refine ⟨consumes_ops op ?_, ?_⟩
    · simp only [ops, List.mem_append] at hop ⊢
      tauto
    · rintro rfl
      simp [ops, bothWait, otherReads, consumerPolls, consumerEnters] at hop
  have hrun : ((run .reference (new rootQueue false []) ops).bind fun st₁ =>
      run .reference st₁ consumerReads).map (fun st => st.deliveredTo 0) = some [0, 1] := by decide
  have hstore : (run .reference (new rootQueue false []) ops).map store = some [] := by decide
  obtain ⟨st, hst, hdelivered⟩ := Option.map_eq_some_iff.mp hrun
  obtain ⟨st₁, h₁, h₂⟩ := Option.bind_eq_some_iff.mp hst
  rw [h₁, Option.map_some, Option.some.injEq] at hstore
  obtain ⟨st₂, hacq, hread⟩ := Option.bind_eq_some_iff.mp h₂
  have hlast : run .reference st₂ consumerReads.tail = some st := hread
  have hreach₁ := ReachableBy.start.run hops h₁
  have hreach₂ := hreach₁.step (.acquire 0)
    ⟨consumes_ops _ (by simp [consumerReads]), fun _ m hm => by simp [hstore] at hm⟩ hacq
  have hreach := hreach₂.run (fun op hop st => ?_) hlast
  · have hreg : rootQueue.hierarchy.getQueue rootPath = some 0 := by decide
    exact ⟨st, hreach, hdelivered, deliveredTo_increasing .reference 0 (.call rootPath) 0 rootQueue
      ownQueues_rootQueue hreg false [] st hreach⟩
  · refine ⟨consumes_ops op ?_, ?_⟩
    · have hmem := List.mem_of_mem_tail hop
      simp [hmem]
    · rintro rfl
      simp [consumerReads] at hop

/-- **A call is overtaken.**  Task 0 awaits the calls of the root object; both calls are what the
receiver returns.  Task 0 has found its queue empty; task 1 reads the first call and queues it;
task 0 takes the lock, reads the second call and returns it; its next `get_call` returns the
first. -/
theorem deliveredTo_overtaken :
    (∀ serial ∈ ([1, 2] : List ℕ), RecvState.callResult .reference 0 (RecvState.new false 4096)
      (deliverySocket (callBytes (.ofNat serial))) = .ok (receivedCall (.ofNat serial))) ∧
    ∃ st : Receivers ℕ ℕ,
      ReachableBy .reference (fun _ op => Consumes 0 (.call rootPath) 0 op)
        (new rootQueue false []) st ∧
      st.deliveredTo 0 = [1, 0] ∧ ¬ (st.deliveredTo 0).Pairwise (· < ·) := by
  refine ⟨by decide, ?_⟩
  have hrun : (run .reference (new rootQueue false []) (bothWait ++ consumerPolls ++ otherReads ++
      consumerReads ++ consumerEnters)).map (fun st => st.deliveredTo 0) = some [1, 0] := by decide
  obtain ⟨st, hst, hdelivered⟩ := Option.map_eq_some_iff.mp hrun
  refine ⟨st, ReachableBy.start.run (fun op hop _ => consumes_ops op hop) hst, hdelivered, ?_⟩
  rw [hdelivered]
  decide

end Receivers

end AsyncRustbus
