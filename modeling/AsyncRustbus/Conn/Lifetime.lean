import AsyncRustbus.Conn.SendRun
import AsyncRustbus.Lib.Handles
import Mathlib.Logic.Function.Basic

set_option relaxedAutoImplicit false
set_option autoImplicit false

/-!
# The lifetime of outgoing descriptors (`conn/sender.rs`)

`write_next_message` duplicates the descriptors of a message.  The duplicates are raw descriptors:
nothing but the `Drop` of `RawOut` closes them.  A message on its way out is dropped when it is
written, when an error ends the call that writes it (also one from `dup` itself, with the
duplicates made so far), when it leaves the queue, and with the connection.

`SendState` names descriptors by their files.  Here they are numbers that the system hands out; it
may hand out a number again once it is closed.

## Main definitions

* `AsyncRustbus.FdSystem`, `AsyncRustbus.FdProcess` — the system and its table of the descriptors
  that the sender has opened.
* `AsyncRustbus.FdSender`, `FdSender.writeNextMessage`, `FdSender.finishSendingNext`,
  `FdSender.drop` — the sender with raw descriptors.
* `FdSender.forget` — the same sender, descriptors named by their files.

## Main results

* `FdSender.writeNextMessage_forget`, `FdSender.finishSendingNext_forget`, `FdSender.run_forget` —
  the sender with raw descriptors does what `SendState` does.
* `FdSender.run_owns` — in every run exactly the descriptors of the queue are open, none is closed
  twice, none is sent when it is closed, and dropping the connection closes all.
-/

namespace AsyncRustbus

/-! ## Raw descriptors -/

/-- The system: what it answers to each call of `dup`, the number of a new descriptor or a refusal.
It is not the number of an open one. -/
structure FdSystem where
  fresh : ℕ → List ℕ → Option ℕ
  fresh_notMem : ∀ call opened n, fresh call opened = some n → n ∉ opened

/-- The descriptors that the sender has opened, the files behind the numbers, and how often it has
called `dup`. -/
structure FdProcess where
  handles : Handles ℕ
  file : ℕ → ℕ
  calls : ℕ

namespace FdProcess

/-- `fd.dup()` and `take_raw_fd`.  A descriptor that has been taken cannot be duplicated. -/
def dup (S : FdSystem) (p : FdProcess) (fd : UnixFd) : Option ℕ × FdProcess :=
  match fd.file with
  | none => (none, p)
  | some file =>
    match S.fresh p.calls p.handles.opened with
    | none => (none, { p with calls := p.calls + 1 })
    | some n => (some n, ⟨p.handles.acquire n, Function.update p.file n file, p.calls + 1⟩)

/-- The `Drop` of a `RawOut` with these descriptors. -/
def dropFds (p : FdProcess) (fds : List ℕ) : FdProcess :=
  { p with handles := p.handles.closeAll fds }

/-- `sendmsg` with these descriptors. -/
def sendFds (p : FdProcess) (fds : List ℕ) : FdProcess := { p with handles := p.handles.use fds }

end FdProcess

/-- The loop of `write_next_message` over the descriptors: whether all were duplicated, and the
duplicates. -/
def dupLoop (S : FdSystem) : List UnixFd → List ℕ → FdProcess → Bool × List ℕ × FdProcess
  | [], fds, p => (true, fds, p)
  | fd :: rest, fds, p =>
    match p.dup S fd with
    | (none, p) => (false, fds, p)
    | (some n, p) => dupLoop S rest (fds ++ [n]) p

/-- `update_written`, where the messages that leave the queue are dropped. -/
def updateWrittenFds (p : FdProcess) : List RawOut → ℕ → ℕ × List RawOut × FdProcess
  | [], written => (written, [], p)
  | out :: queue, written =>
    match out.advance written with
    | (0, out) => if out.done then (0, queue, p.dropFds out.fds) else (0, out :: queue, p)
    | (left + 1, out) => updateWrittenFds (p.dropFds out.fds) queue (left + 1)

/-- The sender with raw descriptors. -/
structure FdSender where
  process : FdProcess
  state : SendState
  stream : OutStream

namespace FdSender

/-- A new connection, in a process whose other descriptors are not the sender's. -/
def new (withFd : Bool) (script : List SendEvent) : FdSender :=
  ⟨⟨.empty, id, 0⟩, .new withFd, ⟨[], script⟩⟩

/-- The `while` loop of `finish_sending_next`. -/
def finishLoop : List SendEvent → FdProcess → List RawOut → List (Bytes × List ℕ) →
    Option SendError × FdProcess × List RawOut × OutStream
  | script, p, [], log => (none, p, [], ⟨log, script⟩)
  | script, p, out :: queue, log =>
    let (ios, anc) := populate 32 (out :: queue) [] []
    let p := p.sendFds anc
    match script with
    | [] => (none, p, out :: queue, ⟨log, []⟩)
    | .wouldBlock :: script => (none, p, out :: queue, ⟨log, script⟩)
    | .err :: script => (some .io, p, out :: queue, ⟨log, script⟩)
    | .accept n :: script =>
      let written := min (n + 1) ios.flatten.length
      let (_, queue, p') := updateWrittenFds p (out :: queue) written
      finishLoop script p' queue (accept log ios (anc.map p.file) written)

/-- `finish_sending_next`. -/
def finishSendingNext (s : FdSender) : Except SendError ℕ × FdSender :=
  match finishLoop s.stream.script s.process s.state.queue s.stream.log with
  | (none, p, queue, stream) =>
    (.ok { s.state with queue := queue }.currentIdx, ⟨p, { s.state with queue := queue }, stream⟩)
  | (some e, p, queue, stream) => (.error e, ⟨p, { s.state with queue := queue }, stream⟩)

/-- The `loop` of `write_next_message`. -/
def writeLoop : List SendEvent → FdProcess → List RawOut → RawOut → List (Bytes × List ℕ) →
    SendState.WriteEnd × FdProcess × List RawOut × OutStream
  | script, p, queue, out, log =>
    let (ios, anc) := SendState.writeBufs queue out
    let p := p.sendFds anc
    match script with
    | [] => (.blocked out, p, queue, ⟨log, []⟩)
    | .wouldBlock :: script => (.blocked out, p, queue, ⟨log, script⟩)
    | .err :: script => (.failed, p.dropFds out.fds, queue, ⟨log, script⟩)
    | .accept n :: script =>
      let k := min (n + 1) ios.flatten.length
      let log := accept log ios (anc.map p.file) k
      let (written, queue, p') := updateWrittenFds p queue k
      if written = 0 then writeLoop script p' queue out log
      else
        let out := { out with written := out.written + written }
        if out.written = out.header.length + out.body.length then
          (.written, p'.dropFds out.fds, queue, ⟨log, script⟩)
        else writeLoop script p' queue out log

/-- `write_next_message` before it writes. -/
def prepare (S : FdSystem) (R : Rustbus) (s : FdSender) (msg : MarshalledMessage)
    (serial : NonZeroU32) : Except SendError RawOut × FdProcess :=
  match msg.marshalHeader R serial with
  | .error _ => (.error .marshalFailure, s.process)
  | .ok header =>
    if (!s.state.withFd && !msg.body.rawFds.isEmpty) ||
        msg.body.rawFds.length > dbusMaxFdMessage then
      (.error .tooManyFds, s.process)
    else
      match dupLoop S msg.body.rawFds [] s.process with
      | (true, fds, p) => (.ok ⟨0, header, msg.body.buf, fds⟩, p)
      | (false, fds, p) => (.error .fdsConsumed, p.dropFds fds)

/-- `write_next_message`. -/
def writeNextMessage (S : FdSystem) (R : Rustbus) (s : FdSender) (msg : MarshalledMessage)
    (serial : NonZeroU32) : Except SendError (Option ℕ) × FdSender :=
  match prepare S R s msg serial with
  | (.error e, p) => (.error e, { s with process := p })
  | (.ok out, p) =>
    match writeLoop s.stream.script p s.state.queue out s.stream.log with
    | (.written, p, queue, stream) => (.ok none, ⟨p, { s.state with queue := queue }, stream⟩)
    | (.failed, p, queue, stream) => (.error .io, ⟨p, { s.state with queue := queue }, stream⟩)
    | (.blocked out, p, queue, stream) =>
      (.ok (some s.state.idx),
        ⟨p, { s.state with queue := queue ++ [out], idx := s.state.idx + 1 }, stream⟩)

/-- The connection is dropped, and its queue with it. -/
def drop (s : FdSender) : FdProcess :=
  s.state.queue.foldl (fun p out => p.dropFds out.fds) s.process

/-- One call. -/
def step (S : FdSystem) (R : Rustbus) (s : FdSender) : SendOp → FdSender
  | .write msg serial => (s.writeNextMessage S R msg serial).2
  | .finish => s.finishSendingNext.2

/-- A run. -/
def run (S : FdSystem) (R : Rustbus) (ops : List SendOp) (s : FdSender) : FdSender :=
  ops.foldl (step S R) s

end FdSender

/-! ## Ownership -/

/-- The descriptors of a queue. -/
def queueFds (queue : List RawOut) : List ℕ := queue.flatMap RawOut.fds

/-- Exactly these descriptors are open, and none was misused. -/
def FdProcess.Owns (p : FdProcess) (fds : List ℕ) : Prop := p.handles.Owns fds

namespace FdProcess

variable {p : FdProcess} {fds fds' : List ℕ}

/-- Dropping a message closes its descriptors. -/
lemma Owns.dropFds (h : p.Owns (fds ++ fds')) : (p.dropFds fds).Owns fds' := h.closeAll

/-- Sending open descriptors misuses nothing. -/
lemma Owns.sendFds (h : p.Owns fds) (hsub : fds' ⊆ fds) : p.sendFds fds' = p :=
  congrArg (fun handles => (⟨handles, p.file, p.calls⟩ : FdProcess)) (h.use hsub)

/-- **What `dup` does**: it fails and opens nothing, or it makes a descriptor of the same file that
was not open. -/
lemma dup_cases (S : FdSystem) (p : FdProcess) (fd : UnixFd) :
    (∃ calls, p.dup S fd = (none, { p with calls := calls }) ∧
      (fd.file = none ∨ S.fresh p.calls p.handles.opened = none)) ∨
    ∃ file n, fd.file = some file ∧ n ∉ p.handles.opened ∧
      p.dup S fd = (some n, ⟨p.handles.acquire n, Function.update p.file n file, p.calls + 1⟩) := by
  cases hfile : fd.file with
  | none => exact .inl ⟨p.calls, by simp only [dup, hfile], .inl rfl⟩
  | some file =>
    cases hfresh : S.fresh p.calls p.handles.opened with
    | none => exact .inl ⟨p.calls + 1, by simp only [dup, hfile, hfresh], .inr rfl⟩
    | some n =>
      exact .inr ⟨file, n, rfl, S.fresh_notMem _ _ n hfresh, by simp only [dup, hfile, hfresh]⟩

/-- A duplicate is one more open descriptor. -/
lemma Owns.acquire {n : ℕ} (h : p.Owns (fds ++ fds')) (hnew : n ∉ p.handles.opened)
    (file : ℕ → ℕ) (calls : ℕ) :
    (⟨p.handles.acquire n, file, calls⟩ : FdProcess).Owns (fds ++ [n] ++ fds') := by
  refine Handles.Owns.of_perm (Handles.Owns.acquire h hnew) ?_
  rw [List.append_assoc]
  exact List.perm_middle.symm

/-- **Duplicating the descriptors of a message**, all of them or not. -/
lemma Owns.dupLoop {S : FdSystem} (rawFds : List UnixFd) (h : p.Owns (fds ++ fds')) :
    (dupLoop S rawFds fds p).2.2.Owns ((AsyncRustbus.dupLoop S rawFds fds p).2.1 ++ fds') := by
  induction rawFds generalizing fds p with
  | nil => exact h
  | cons fd rest ih =>
    rw [AsyncRustbus.dupLoop]
    rcases dup_cases S p fd with ⟨calls, hdup, -⟩ | ⟨file, n, -, hnew, hdup⟩
    · rw [hdup]
      exact h
    · rw [hdup]
      exact ih (h.acquire hnew _ _)

end FdProcess

/-- Crediting a message keeps its descriptors. -/
lemma RawOut.advance_fds (out : RawOut) (adv : ℕ) : (out.advance adv).2.fds = out.fds := by
  rw [RawOut.advance_eq]

/-- **Crediting a write** closes the descriptors of the messages that leave the queue. -/
lemma FdProcess.Owns.updateWrittenFds {p : FdProcess} {others : List ℕ} (queue : List RawOut)
    (w : ℕ) (h : p.Owns (queueFds queue ++ others)) :
    (updateWrittenFds p queue w).2.2.Owns
      (queueFds (AsyncRustbus.updateWrittenFds p queue w).2.1 ++ others) := by
  induction queue generalizing p w with
  | nil => exact h
  | cons out queue ih =>
    have hfds := out.advance_fds w
    have hcons : ∀ out : RawOut, queueFds (out :: queue) ++ others =
        out.fds ++ (queueFds queue ++ others) := fun _ => List.append_assoc _ _ _
    rw [hcons] at h
    rw [AsyncRustbus.updateWrittenFds]
    rcases hadv : out.advance w with ⟨left, out'⟩
    rw [hadv] at hfds
    rw [← show out'.fds = out.fds from hfds] at h
    cases left with
    | zero =>
      dsimp only
      split_ifs
      · exact h.dropFds
      · show p.Owns (queueFds (out' :: queue) ++ others)
        rwa [hcons]
    | succ left => exact ih (left + 1) h.dropFds

/-- A write carries descriptors of the queue. -/
lemma populate_fds_subset (cap : ℕ) (queue : List RawOut) (ios : List Bytes) (anc : List ℕ) :
    (populate cap queue ios anc).2 ⊆ anc ++ queueFds queue := by
  induction queue generalizing ios anc with
  | nil =>
    rw [populate]
    exact List.subset_append_left _ _
  | cons out queue ih =>
    have hcons : queueFds (out :: queue) = out.fds ++ queueFds queue := rfl
    rw [populate, hcons]
    split_ifs
    · exact List.subset_append_left _ _
    · have := ih (pushBufs cap out.outBufsLeft ios) (anc ++ out.fds)
      rwa [List.append_assoc] at this
    · exact List.subset_append_left _ _
    · intro n hn
      rcases List.mem_append.mp (ih _ anc hn) with hn | hn
      · exact List.mem_append_left _ hn
      · exact List.mem_append_right _ (List.mem_append_right _ hn)

/-- A write that goes on with a new message carries descriptors of the queue and the message. -/
lemma writeBufs_fds_subset (queue : List RawOut) (out : RawOut) :
    (SendState.writeBufs queue out).2 ⊆ queueFds queue ++ out.fds := by
  have hsub := populate_fds_subset 34 queue [] []
  rw [List.nil_append] at hsub
  rw [SendState.writeBufs]
  rcases hpop : populate 34 queue [] [] with ⟨ios, anc⟩
  rw [hpop] at hsub
  have hanc : anc ⊆ queueFds queue ++ out.fds := fun n hn => List.mem_append_left _ (hsub hn)
  dsimp only
  split_ifs
  · exact List.append_subset.mpr ⟨hanc, List.subset_append_right _ _⟩
  · exact hanc
  · exact hanc

namespace FdSender

/-- A write of `finish_sending_next` that is accepted. -/
lemma finishLoop_accept {n k left : ℕ} {script : List SendEvent} {p p' : FdProcess} {out : RawOut}
    {queue queue' : List RawOut} {log : List (Bytes × List ℕ)} {ios : List Bytes} {anc : List ℕ}
    (hbufs : populate 32 (out :: queue) [] [] = (ios, anc)) (hsend : p.sendFds anc = p)
    (hk : min (n + 1) ios.flatten.length = k)
    (hcredit : updateWrittenFds p (out :: queue) k = (left, queue', p')) :
    finishLoop (.accept n :: script) p (out :: queue) log =
      finishLoop script p' queue' (accept log ios (anc.map p.file) k) := by
  rw [finishLoop, hbufs]
  dsimp only
  rw [hsend, hk, hcredit]

/-- A write of `write_next_message` that is accepted. -/
lemma writeLoop_accept {n k written : ℕ} {script : List SendEvent} {p p' : FdProcess}
    {out : RawOut} {queue queue' : List RawOut} {log : List (Bytes × List ℕ)} {ios : List Bytes}
    {anc : List ℕ} (hbufs : SendState.writeBufs queue out = (ios, anc)) (hsend : p.sendFds anc = p)
    (hk : min (n + 1) ios.flatten.length = k)
    (hcredit : updateWrittenFds p queue k = (written, queue', p')) :
    writeLoop (.accept n :: script) p queue out log =
      if written = 0 then writeLoop script p' queue' out (accept log ios (anc.map p.file) k)
      else if out.written + written = out.header.length + out.body.length then
        (.written, p'.dropFds out.fds, queue', ⟨accept log ios (anc.map p.file) k, script⟩)
      else writeLoop script p' queue' { out with written := out.written + written }
        (accept log ios (anc.map p.file) k) := by
  rw [writeLoop, hbufs]
  dsimp only
  rw [hsend, hk, hcredit]

/-- **`finish_sending_next`** closes the descriptors of the messages that leave the queue.

**Proof sketch.** By induction on the answers of the stream. A write sends descriptors of the queue
only, which are open (`Owns.sendFds`). An accepted one closes those of the messages that leave the
queue (`Owns.updateWrittenFds`), and every other answer ends the loop. -/
lemma finishLoop_owns (script : List SendEvent) {p : FdProcess} {queue : List RawOut}
    (log : List (Bytes × List ℕ)) (h : p.Owns (queueFds queue)) :
    (finishLoop script p queue log).2.1.Owns (queueFds (finishLoop script p queue log).2.2.1) := by
  induction script generalizing p queue log with
  | nil =>
    cases queue with
    | nil => exact h
    | cons out queue =>
      have hsub := populate_fds_subset 32 (out :: queue) [] []
      simp only [finishLoop, h.sendFds hsub]
      exact h
  | cons ev script ih =>
    cases queue with
    | nil => exact h
    | cons out queue =>
      have hsub := populate_fds_subset 32 (out :: queue) [] []
      rcases hbufs : populate 32 (out :: queue) [] [] with ⟨ios, anc⟩
      rw [hbufs] at hsub
      have hsend : p.sendFds anc = p := h.sendFds hsub
      cases ev with
      | wouldBlock =>
        rw [finishLoop, hbufs]
        dsimp only
        rwa [hsend]
      | err =>
        rw [finishLoop, hbufs]
        dsimp only
        rwa [hsend]
      | accept n =>
        rw [← List.append_nil (queueFds _)] at h
        have hcredit := h.updateWrittenFds (out :: queue) (min (n + 1) ios.flatten.length)
        rcases hnext : updateWrittenFds p (out :: queue) (min (n + 1) ios.flatten.length) with
          ⟨left, queue', p'⟩
        rw [hnext, List.append_nil] at hcredit
        rw [finishLoop_accept hbufs hsend rfl hnext]
        exact ih _ hcredit

/-- What the sender has open when the `loop` of `write_next_message` ends. -/
def endFds : SendState.WriteEnd → List ℕ
  | .blocked out => out.fds
  | _ => []

/-- **The `loop` of `write_next_message`** closes the descriptors of the message unless it goes into
the queue.

**Proof sketch.** By induction on the answers of the stream, with the descriptors of the message
behind those of the queue. An accepted write closes those of the messages that leave the queue
(`Owns.updateWrittenFds`). When the loop ends with the message written or failed, its descriptors
are dropped (`hdrop`); when it blocks, they are still owned. -/
lemma writeLoop_owns (script : List SendEvent) {p : FdProcess} {queue : List RawOut}
    {out : RawOut} (log : List (Bytes × List ℕ)) (h : p.Owns (queueFds queue ++ out.fds)) :
    (writeLoop script p queue out log).2.1.Owns
      (queueFds (writeLoop script p queue out log).2.2.1 ++
        endFds (writeLoop script p queue out log).1) := by
  have hdrop : ∀ {p : FdProcess} {queue : List RawOut} {fds : List ℕ},
      p.Owns (queueFds queue ++ fds) → (p.dropFds fds).Owns (queueFds queue ++ []) := by
    intro p queue fds h
    rw [List.append_nil]
    exact FdProcess.Owns.dropFds (Handles.Owns.of_perm h List.perm_append_comm)
  induction script generalizing p queue out log with
  | nil =>
    simp only [writeLoop, h.sendFds (writeBufs_fds_subset queue out)]
    exact h
  | cons ev script ih =>
    have hsub := writeBufs_fds_subset queue out
    rcases hbufs : SendState.writeBufs queue out with ⟨ios, anc⟩
    rw [hbufs] at hsub
    have hsend : p.sendFds anc = p := h.sendFds hsub
    cases ev with
    | wouldBlock =>
      rw [writeLoop, hbufs]
      dsimp only
      rwa [hsend]
    | err =>
      rw [writeLoop, hbufs]
      dsimp only
      rw [hsend]
      exact hdrop h
    | accept n =>
      have hcredit := h.updateWrittenFds queue (min (n + 1) ios.flatten.length)
      rcases hnext : updateWrittenFds p queue (min (n + 1) ios.flatten.length) with
        ⟨written, queue', p'⟩
      rw [hnext] at hcredit
      rw [writeLoop_accept hbufs hsend rfl hnext]
      split_ifs
      · exact ih _ hcredit
      · exact hdrop hcredit
      · exact @ih p' queue' { out with written := out.written + written } _ hcredit

variable {S : FdSystem} {R : Rustbus} {s : FdSender}

/-- Exactly the descriptors of the queue are open, and none was misused. -/
def Owns (s : FdSender) : Prop := s.process.Owns (queueFds s.state.queue)

/-- Nothing is open at the start. -/
lemma owns_new (withFd : Bool) (script : List SendEvent) : (new withFd script).Owns :=
  Handles.owns_empty

/-- `finish_sending_next` keeps ownership, also when it fails. -/
lemma Owns.finish (h : s.Owns) : s.finishSendingNext.2.Owns := by
  have hloop := finishLoop_owns s.stream.script s.stream.log h
  rw [finishSendingNext]
  generalize finishLoop s.stream.script s.process s.state.queue s.stream.log = result at hloop ⊢
  rcases result with ⟨_ | e, p, queue, stream⟩
  · exact hloop
  · exact hloop

/-- What stands before the writes: the duplicates of a message that is to be written are open, and
an error leaves none behind.

**Proof sketch.** A message whose header is refused or that has too many descriptors leaves the
table as it is. `dupLoop` owns the duplicates it has made (`Owns.dupLoop`); if one is refused they
are dropped again, and otherwise they are those of the message. -/
lemma Owns.prepare (h : s.Owns) (msg : MarshalledMessage) (serial : NonZeroU32) :
    (∀ e p, prepare S R s msg serial = (.error e, p) → p.Owns (queueFds s.state.queue)) ∧
      ∀ out p, FdSender.prepare S R s msg serial = (.ok out, p) →
        p.Owns (queueFds s.state.queue ++ out.fds) := by
  unfold FdSender.prepare
  cases msg.marshalHeader R serial with
  | error e =>
    refine ⟨fun e p heq => ?_, nofun⟩
    obtain rfl := congrArg Prod.snd heq
    exact h
  | ok header =>
    dsimp only
    split_ifs
    · refine ⟨fun e p heq => ?_, nofun⟩
      obtain rfl := congrArg Prod.snd heq
      exact h
    have hnone : s.process.Owns ([] ++ queueFds s.state.queue) := h
    have hdup := hnone.dupLoop (S := S) msg.body.rawFds
    generalize dupLoop S msg.body.rawFds [] s.process = result at hdup ⊢
    rcases result with ⟨_ | _, fds, p⟩
    · refine ⟨fun e p' heq => ?_, nofun⟩
      obtain rfl := congrArg Prod.snd heq
      exact FdProcess.Owns.dropFds hdup
    · refine ⟨nofun, fun out p' heq => ?_⟩
      obtain rfl := congrArg Prod.snd heq
      obtain rfl := Except.ok.inj (congrArg Prod.fst heq)
      exact Handles.Owns.of_perm hdup List.perm_append_comm

/-- **`write_next_message` keeps ownership**, also when it fails. -/
lemma Owns.write (h : s.Owns) (msg : MarshalledMessage) (serial : NonZeroU32) :
    (s.writeNextMessage S R msg serial).2.Owns := by
  obtain ⟨herror, hok⟩ := Owns.prepare (S := S) (R := R) h msg serial
  rw [writeNextMessage]
  rcases hprepare : FdSender.prepare S R s msg serial with ⟨e | out, p⟩
  · exact herror e p hprepare
  · have hloop := writeLoop_owns s.stream.script s.stream.log (hok out p hprepare)
    dsimp only
    generalize writeLoop s.stream.script p s.state.queue out s.stream.log = result at hloop ⊢
    rcases result with ⟨_ | out' | _, p', queue, stream⟩
    · exact Handles.Owns.of_perm hloop (List.Perm.of_eq (List.append_nil _))
    · refine Handles.Owns.of_perm hloop ?_
      show (queueFds queue ++ out'.fds).Perm (queueFds (queue ++ [out']))
      rw [queueFds, queueFds, List.flatMap_append, List.flatMap_singleton]
    · exact Handles.Owns.of_perm hloop (List.Perm.of_eq (List.append_nil _))

/-- One call keeps ownership. -/
lemma Owns.step (h : s.Owns) (op : SendOp) : (s.step S R op).Owns := by
  cases op with
  | write msg serial => exact h.write msg serial
  | finish => exact h.finish

/-- A run keeps ownership. -/
lemma Owns.run (h : s.Owns) (ops : List SendOp) : (s.run S R ops).Owns := by
  induction ops generalizing s with
  | nil => exact h
  | cons op ops ih => exact ih (h.step op)

/-- Dropping the connection closes what is open. -/
lemma Owns.drop (h : s.Owns) : s.drop.Owns [] := by
  have hqueue : ∀ (queue : List RawOut) (p : FdProcess), p.Owns (queueFds queue) →
      (queue.foldl (fun p out => p.dropFds out.fds) p).Owns [] := by
    intro queue
    induction queue with
    | nil => exact fun p h => h
    | cons out queue ih => exact fun p h => ih _ (FdProcess.Owns.dropFds h)
  exact hqueue _ _ h

/-! ## Descriptors and files -/

end FdSender

/-- The message with its descriptors named by `f`. -/
def RawOut.mapFds (f : ℕ → ℕ) (out : RawOut) : RawOut := { out with fds := out.fds.map f }

section Files

variable (f : ℕ → ℕ)

/-- Whether descriptors are to be sent does not depend on their names. -/
lemma RawOut.fdsToSend_mapFds (out : RawOut) : (out.mapFds f).fdsToSend = out.fdsToSend := by
  show (decide (out.written = 0) && !(out.fds.map f).isEmpty) = _
  rw [List.isEmpty_map]
  rfl

/-- Filling a write does not look at the names of the descriptors. -/
lemma populate_mapFds (cap : ℕ) (queue : List RawOut) (ios : List Bytes) (anc : List ℕ) :
    populate cap (queue.map (RawOut.mapFds f)) ios (anc.map f) =
      ((populate cap queue ios anc).1, (populate cap queue ios anc).2.map f) := by
  induction queue generalizing ios anc with
  | nil => rfl
  | cons out queue ih =>
    rw [List.map_cons, populate, populate, out.fdsToSend_mapFds]
    split_ifs
    · rfl
    · rw [← ih, List.map_append]
      rfl
    · rfl
    · exact ih _ anc

/-- Nor does a write that goes on with a new message. -/
lemma writeBufs_mapFds (queue : List RawOut) (out : RawOut) :
    SendState.writeBufs (queue.map (RawOut.mapFds f)) (out.mapFds f) =
      ((SendState.writeBufs queue out).1, (SendState.writeBufs queue out).2.map f) := by
  have hempty : (out.mapFds f).fds.isEmpty = out.fds.isEmpty := List.isEmpty_map
  have hpop := populate_mapFds f 34 queue [] []
  rw [List.map_nil] at hpop
  rw [SendState.writeBufs, SendState.writeBufs, hpop, out.fdsToSend_mapFds, hempty]
  rcases populate 34 queue [] [] with ⟨ios, anc⟩
  dsimp only
  split_ifs
  · exact Prod.ext rfl List.map_append.symm
  · rfl
  · rfl

/-- Nor does crediting a write. -/
lemma updateWritten_mapFds (p : FdProcess) (queue : List RawOut) (w : ℕ) :
    updateWritten (queue.map (RawOut.mapFds f)) w =
        ((updateWrittenFds p queue w).1,
          (updateWrittenFds p queue w).2.1.map (RawOut.mapFds f)) ∧
      (updateWrittenFds p queue w).2.2.file = p.file := by
  induction queue generalizing p w with
  | nil => exact ⟨rfl, rfl⟩
  | cons out queue ih =>
    have hadv : (out.mapFds f).advance w = ((out.advance w).1, (out.advance w).2.mapFds f) := by
      rw [RawOut.advance_eq, RawOut.advance_eq]
      rfl
    rw [List.map_cons, updateWritten, updateWrittenFds, hadv]
    rcases out.advance w with ⟨_ | left, out'⟩
    · have hdone : (out'.mapFds f).done = out'.done := rfl
      dsimp only
      rw [hdone]
      split_ifs
      · exact ⟨rfl, rfl⟩
      · exact ⟨rfl, rfl⟩
    · exact ih (p.dropFds out'.fds) (left + 1)

end Files

namespace FdSender

/-- **The loop of `finish_sending_next`**, descriptors named by their files.

**Proof sketch.** By induction on the answers of the stream. Naming descriptors by their files
changes neither the bytes of a write (`populate_mapFds`) nor what is credited
(`updateWritten_mapFds`), and sending and closing descriptors leaves the files of the others as they
are. -/
lemma finishLoop_forget (script : List SendEvent) (p : FdProcess) (queue : List RawOut)
    (log : List (Bytes × List ℕ)) :
    let r := finishLoop script p queue log
    SendState.finishLoop script (queue.map (RawOut.mapFds p.file)) log =
      (r.1, r.2.2.1.map (RawOut.mapFds p.file), r.2.2.2) ∧ r.2.1.file = p.file := by
  induction script generalizing p queue log with
  | nil =>
    cases queue with
    | nil => exact ⟨rfl, rfl⟩
    | cons out queue => exact ⟨rfl, rfl⟩
  | cons ev script ih =>
    cases queue with
    | nil => exact ⟨rfl, rfl⟩
    | cons out queue =>
      cases ev with
      | wouldBlock => exact ⟨rfl, rfl⟩
      | err => exact ⟨rfl, rfl⟩
      | accept n =>
        have hpop := populate_mapFds p.file 32 (out :: queue) [] []
        rcases hbufs : populate 32 (out :: queue) [] [] with ⟨ios, anc⟩
        rw [List.map_nil, hbufs] at hpop
        obtain ⟨k, hk⟩ : ∃ k, k = min (n + 1) ios.flatten.length := ⟨_, rfl⟩
        obtain ⟨hcredit, hfile⟩ := updateWritten_mapFds p.file (p.sendFds anc) (out :: queue) k
        have hstep : finishLoop (.accept n :: script) p (out :: queue) log =
            finishLoop script (updateWrittenFds (p.sendFds anc) (out :: queue) k).2.2
              (updateWrittenFds (p.sendFds anc) (out :: queue) k).2.1
              (accept log ios (anc.map p.file) k) := by
          rw [finishLoop, hbufs, hk]
          rfl
        have hspec : SendState.finishLoop (.accept n :: script)
            ((out :: queue).map (RawOut.mapFds p.file)) log =
            SendState.finishLoop script
              (updateWritten ((out :: queue).map (RawOut.mapFds p.file)) k).2
              (accept log ios (anc.map p.file) k) :=
          SendState.finishLoop_accept hpop hk script log
        have hfile' : (updateWrittenFds (p.sendFds anc) (out :: queue) k).2.2.file = p.file := hfile
        rw [hstep, hspec, hcredit, ← hfile']
        exact ih _ _ _

/-- How a loop of `write_next_message` ends, descriptors named by `f`. -/
def mapEnd (f : ℕ → ℕ) : SendState.WriteEnd → SendState.WriteEnd
  | .blocked out => .blocked (out.mapFds f)
  | .written => .written
  | .failed => .failed

/-- **The loop of `write_next_message`**, descriptors named by their files.

**Proof sketch.** By induction on the answers of the stream. An accepted write offers the same bytes
on both sides (`writeBufs_mapFds`) and is credited to the same messages (`updateWritten_mapFds`), so
both loops go on or end in the same way; the files stay as they are. -/
lemma writeLoop_forget (script : List SendEvent) (p : FdProcess) (queue : List RawOut)
    (out : RawOut) (log : List (Bytes × List ℕ)) :
    let r := writeLoop script p queue out log
    SendState.writeLoop script (queue.map (RawOut.mapFds p.file)) (out.mapFds p.file) log =
      (mapEnd p.file r.1, r.2.2.1.map (RawOut.mapFds p.file), r.2.2.2) ∧ r.2.1.file = p.file := by
  induction script generalizing p queue out log with
  | nil => exact ⟨rfl, rfl⟩
  | cons ev script ih =>
    cases ev with
    | wouldBlock => exact ⟨rfl, rfl⟩
    | err => exact ⟨rfl, rfl⟩
    | accept n =>
      have hpop := writeBufs_mapFds p.file queue out
      rcases hbufs : SendState.writeBufs queue out with ⟨ios, anc⟩
      rw [hbufs] at hpop
      obtain ⟨k, hk⟩ : ∃ k, k = min (n + 1) ios.flatten.length := ⟨_, rfl⟩
      obtain ⟨hcredit, hfile⟩ := updateWritten_mapFds p.file (p.sendFds anc) queue k
      have hstep : writeLoop (.accept n :: script) p queue out log =
          let (written, queue', p') := updateWrittenFds (p.sendFds anc) queue k
          if written = 0 then writeLoop script p' queue' out (accept log ios (anc.map p.file) k)
          else if out.written + written = out.header.length + out.body.length then
            (.written, p'.dropFds out.fds, queue', ⟨accept log ios (anc.map p.file) k, script⟩)
          else writeLoop script p' queue' { out with written := out.written + written }
            (accept log ios (anc.map p.file) k) := by
        rw [writeLoop, hbufs, hk]
        rfl
      have hspec := SendState.writeLoop_accept hpop hk hcredit script log
      rw [hstep, hspec]
      generalize updateWrittenFds (p.sendFds anc) queue k = result at hfile ⊢
      rcases result with ⟨written, queue', p'⟩
      have hfile' : p'.file = p.file := hfile
      dsimp only
      rw [← hfile']
      by_cases hzero : written = 0
      · rw [if_pos hzero, if_pos hzero]
        exact ih _ _ _ _
      rw [if_neg hzero, if_neg hzero]
      by_cases hdone : out.written + written = out.header.length + out.body.length
      · have hdone' : (out.mapFds p'.file).written + written =
          (out.mapFds p'.file).header.length + (out.mapFds p'.file).body.length := hdone
        rw [if_pos hdone, if_pos hdone']
        exact ⟨rfl, rfl⟩
      · have hdone' : ¬ (out.mapFds p'.file).written + written =
          (out.mapFds p'.file).header.length + (out.mapFds p'.file).body.length := hdone
        rw [if_neg hdone, if_neg hdone']
        exact ih p' queue' { out with written := out.written + written } _

variable {S : FdSystem} {R : Rustbus} {s : FdSender}

/-- The duplicates are descriptors of the same files, and the descriptors that were open stay
descriptors of theirs.  Only a descriptor that has been taken stops the loop, where the system has
a number for each duplicate.

**Proof sketch.** By induction on the descriptors of the message. A descriptor that has been taken
stops both loops. Otherwise the duplicate is a number that was not open, so the files of those that
were stay as they are, and its own file is that of the descriptor. -/
lemma dupLoop_files (hfresh : ∀ call opened, (S.fresh call opened).isSome) (rawFds : List UnixFd)
    {p : FdProcess} {fds others : List ℕ} (h : p.Owns (fds ++ others)) :
    let r := dupLoop S rawFds fds p
    (SendState.dupFds rawFds).map (fds.map p.file ++ ·) =
        (if r.1 then some (r.2.1.map r.2.2.file) else none) ∧
      ∀ n ∈ others, r.2.2.file n = p.file n := by
  induction rawFds generalizing p fds with
  | nil =>
    refine ⟨?_, fun n _ => rfl⟩
    show some (fds.map p.file ++ []) = _
    rw [List.append_nil]
    rfl
  | cons fd rest ih =>
    have hcons : SendState.dupFds (fd :: rest) =
        fd.file.bind fun file => (SendState.dupFds rest).map (file :: ·) := by
      rw [SendState.dupFds, List.mapM_cons]
      cases fd.file with
      | none => rfl
      | some file =>
        rw [SendState.dupFds]
        cases rest.mapM UnixFd.file with
        | none => rfl
        | some files => rfl
    rw [hcons, dupLoop]
    rcases p.dup_cases S fd with ⟨calls, hdup, hfile | hnone⟩ | ⟨file, n, hfile, hn, hdup⟩
    · rw [hdup, hfile]
      exact ⟨rfl, fun n _ => rfl⟩
    · have hsome := hfresh p.calls p.handles.opened
      rw [hnone] at hsome
      cases hsome
    · have hnew : ∀ k ∈ fds ++ others, Function.update p.file n file k = p.file k := by
        intro k hk
        refine Function.update_of_ne ?_ _ _
        rintro rfl
        exact hn (h.perm.mem_iff.mpr hk)
      obtain ⟨hmap, hothers⟩ := ih (h.acquire hn (Function.update p.file n file) (p.calls + 1))
      have hfds : (fds ++ [n]).map (Function.update p.file n file) = fds.map p.file ++ [file] := by
        rw [List.map_append, List.map_congr_left fun k hk => hnew k (List.mem_append_left _ hk),
          List.map_singleton, Function.update_self]
      rw [hdup, hfile]
      refine ⟨?_, fun k hk => (hothers k hk).trans (hnew k (List.mem_append_right _ hk))⟩
      rw [← hmap, hfds, Option.bind_some, Option.map_map]
      congr 1
      funext files
      exact (List.append_assoc _ [file] files).symm

/-- The state, descriptors named by their files. -/
def forget (s : FdSender) : SendState :=
  { s.state with queue := s.state.queue.map (RawOut.mapFds s.process.file) }

/-- **`finish_sending_next` with raw descriptors** does what it does with files. -/
theorem finishSendingNext_forget (s : FdSender) :
    s.forget.finishSendingNext s.stream =
      (s.finishSendingNext.1, s.finishSendingNext.2.forget, s.finishSendingNext.2.stream) := by
  obtain ⟨hloop, hfile⟩ := finishLoop_forget s.stream.script s.process s.state.queue s.stream.log
  have hspec : SendState.finishLoop s.stream.script s.forget.queue s.stream.log = _ := hloop
  rw [SendState.finishSendingNext, finishSendingNext, hspec]
  generalize finishLoop s.stream.script s.process s.state.queue s.stream.log = result at hfile ⊢
  rcases result with ⟨_ | e, p, queue, stream⟩
  · have hfile' : p.file = s.process.file := hfile
    dsimp only
    rw [forget, ← hfile']
    refine Prod.ext ?_ rfl
    simp [SendState.currentIdx]
  · have hfile' : p.file = s.process.file := hfile
    dsimp only
    rw [forget, ← hfile']
    rfl

/-- **`write_next_message` with raw descriptors** does what it does with files, where the system
has a number for each duplicate.

**Proof sketch.** What stands before `dup` is the same on both sides. `dupLoop_files` says that the
duplicates name the files of the message and that those of the queue keep theirs, so
`writeLoop_forget` applies to the queue and the message. -/
theorem writeNextMessage_forget (hfresh : ∀ call opened, (S.fresh call opened).isSome) (h : s.Owns)
    (msg : MarshalledMessage) (serial : NonZeroU32) :
    s.forget.writeNextMessage R s.stream msg serial =
      ((s.writeNextMessage S R msg serial).1, (s.writeNextMessage S R msg serial).2.forget,
        (s.writeNextMessage S R msg serial).2.stream) := by
  rw [SendState.writeNextMessage, writeNextMessage, SendState.prepare, prepare]
  cases msg.marshalHeader R serial with
  | error e => rfl
  | ok header =>
    have hfd : s.forget.withFd = s.state.withFd := rfl
    dsimp only
    rw [hfd]
    split_ifs
    · rfl
    obtain ⟨hmap, hothers⟩ := dupLoop_files hfresh msg.body.rawFds
      (show s.process.Owns ([] ++ queueFds s.state.queue) from h)
    have hnil : (fun files : List ℕ => ([] : List ℕ).map s.process.file ++ files) = id := rfl
    rw [hnil, Option.map_id, id] at hmap
    rw [hmap]
    generalize dupLoop S msg.body.rawFds [] s.process = result at hothers ⊢
    -- the queue keeps its files
    have hqueue : s.state.queue.map (RawOut.mapFds s.process.file) =
        s.state.queue.map (RawOut.mapFds result.2.2.file) := by
      refine List.map_congr_left fun out hout => ?_
      rw [RawOut.mapFds, RawOut.mapFds, List.map_congr_left fun n hn =>
        (hothers n (List.mem_flatMap.mpr ⟨out, hout, hn⟩)).symm]
    rcases result with ⟨_ | _, fds, p⟩
    · refine Prod.ext rfl (Prod.ext ?_ rfl)
      rw [forget, hqueue]
      rfl
    · obtain ⟨hloop, hfile⟩ := writeLoop_forget s.stream.script p s.state.queue
        ⟨0, header, msg.body.buf, fds⟩ s.stream.log
      have hqueue' : s.forget.queue = s.state.queue.map (RawOut.mapFds p.file) := hqueue
      rw [← hqueue'] at hloop
      change SendState.writeLoop _ _ ⟨0, header, msg.body.buf, fds.map p.file⟩ _ = _ at hloop
      dsimp only
      rw [if_pos rfl]
      dsimp only
      rw [hloop]
      generalize writeLoop s.stream.script p s.state.queue ⟨0, header, msg.body.buf, fds⟩
        s.stream.log = result at hfile ⊢
      rcases result with ⟨_ | out | _, p', queue, stream⟩
      · rw [← show p'.file = p.file from hfile]
        rfl
      · rw [← show p'.file = p.file from hfile]
        simp only [mapEnd, forget, List.map_append, List.map_singleton]
      · rw [← show p'.file = p.file from hfile]
        rfl

/-- One call on both senders. -/
lemma step_forget (hfresh : ∀ call opened, (S.fresh call opened).isSome) (h : s.Owns) {c : Sending}
    (hstate : c.state = s.forget) (hstream : c.stream = s.stream) (op : SendOp) :
    (c.step R op).state = (s.step S R op).forget ∧
      (c.step R op).stream = (s.step S R op).stream := by
  cases op with
  | write msg serial =>
    have hwrite := writeNextMessage_forget (R := R) hfresh h msg serial
    rw [← hstate, ← hstream] at hwrite
    rw [Sending.step, hwrite, step]
    rcases s.writeNextMessage S R msg serial with ⟨_ | _, s'⟩
    · exact ⟨rfl, rfl⟩
    · exact ⟨rfl, rfl⟩
  | finish =>
    have hfinish := finishSendingNext_forget s
    rw [← hstate, ← hstream] at hfinish
    have hstep : c.step R .finish = ⟨(c.state.finishSendingNext c.stream).2.1,
        (c.state.finishSendingNext c.stream).2.2, c.messages⟩ := rfl
    rw [hstep, hfinish]
    exact ⟨rfl, rfl⟩

/-- **A run of the sender with raw descriptors** is one of the sender with files. -/
theorem run_forget (hfresh : ∀ call opened, (S.fresh call opened).isSome) (withFd : Bool)
    (script : List SendEvent) (ops : List SendOp) :
    let s := (new withFd script).run S R ops
    ((Sending.new withFd script).run R ops).state = s.forget ∧
      ((Sending.new withFd script).run R ops).stream = s.stream := by
  have hrun : ∀ (ops : List SendOp) (s : FdSender) (c : Sending), s.Owns → c.state = s.forget →
      c.stream = s.stream → (c.run R ops).state = (s.run S R ops).forget ∧
        (c.run R ops).stream = (s.run S R ops).stream := by
    intro ops
    induction ops with
    | nil => exact fun s c _ hstate hstream => ⟨hstate, hstream⟩
    | cons op ops ih =>
      intro s c h hstate hstream
      obtain ⟨hstate', hstream'⟩ := step_forget (R := R) hfresh h hstate hstream op
      exact ih _ _ (h.step op) hstate' hstream'
  exact hrun ops _ _ (owns_new withFd script) rfl rfl

/-! ## Runs -/

/-- **Outgoing descriptors are closed exactly once.**  In every run of the sender, whatever the
stream answers and the system hands out, and also where calls fail: exactly the descriptors of the
messages in the queue are open, each of them once; no descriptor was closed or sent that was not
open; and when the connection is dropped none is left open. -/
theorem run_owns (S : FdSystem) (R : Rustbus) (withFd : Bool) (script : List SendEvent)
    (ops : List SendOp) :
    let s := (new withFd script).run S R ops
    s.process.handles.opened.Perm (queueFds s.state.queue) ∧ s.process.handles.opened.Nodup ∧
      s.process.handles.misused = false ∧ s.drop.handles.opened = [] ∧
      s.drop.handles.misused = false := by
  have h := Owns.run (S := S) (R := R) (owns_new withFd script) ops
  have hdrop := h.drop
  exact ⟨h.perm, h.nodup, h.sound, hdrop.perm.eq_nil, hdrop.sound⟩

end FdSender

end AsyncRustbus
