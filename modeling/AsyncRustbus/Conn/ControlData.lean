import AsyncRustbus.Conn.Ancillary
import AsyncRustbus.Conn.Link

set_option relaxedAutoImplicit false
set_option autoImplicit false

/-!
# Descriptors in control data (`conn/sender.rs`, `conn/recv.rs`)

`SendState` and `RecvState` name the descriptors of a write and of a read as lists.  The code has
buffers of 256 bytes: each loop declares one, puts a `SocketAncillary` around it anew for every
call of `sendmsg` and `recvmsg`, and never clears it.  The sender asserts that descriptors find
room; the receiver does not look at the flag that says that some did not.

## Main definitions

* `AsyncRustbus.populateAnc`, `ControlSending` — the sender with its buffers.
* `AsyncRustbus.ControlStream.Shows` — what its writes pass are the descriptors of the writes of
  `SendState`.
* `AsyncRustbus.RightsStore` — what `recvmsg` promises about descriptors that may not find room.
* `AsyncRustbus.ControlSocket`, `getNextMessageAnc` — the receiver with its buffer.

## Main results

* `ControlSending.run_shows` — the assertion holds in every run, and the sender with buffers does
  what `SendState` does.
* `getNextMessageAnc_eq` — so does the receiver: control data that is cut off is never taken for
  all of it.
-/

namespace AsyncRustbus

/-- The buffer of a loop. -/
def ancData : Bytes := List.replicate 256 0

/-- The control data that `sendmsg` is given. -/
def SocketAncillary.control (anc : SocketAncillary) : Bytes := anc.buffer.take anc.length

/-- The answers to come, and the accepted writes with their control data. -/
structure ControlStream where
  log : List (Bytes × Bytes)
  script : List SendEvent

section Sender

variable (L : CmsgLayout) (bo : ByteOrder) (raw : ℕ → RawFd)

/-! ## The sender -/

/-- `populate` with the buffer for the control data, unless the assertion fails. -/
def populateAnc (cap : ℕ) : List RawOut → List Bytes → SocketAncillary →
    Option (List Bytes × SocketAncillary)
  | [], ios, anc => some (ios, anc)
  | out :: queue, ios, anc =>
    if ios.length = cap then some (ios, anc)
    else if out.fdsToSend then
      if ios.isEmpty then
        match anc.addFds L bo (out.fds.map raw) with
        | (true, anc) => populateAnc cap queue (pushBufs cap out.outBufsLeft ios) anc
        | (false, _) => none
      else some (ios, anc)
    else populateAnc cap queue (pushBufs cap out.outBufsLeft ios) anc

/-- The buffers of a write that starts with the queue and goes on with the new message. -/
def writeBufsAnc (queue : List RawOut) (out : RawOut) (buffer : Bytes) :
    Option (List Bytes × SocketAncillary) :=
  match populateAnc L bo raw 34 queue [] (.new buffer) with
  | none => none
  | some (ios, anc) =>
    if ios.length ≠ 34 ∧ (out.fds.isEmpty ∨ ios.isEmpty) then
      if out.fdsToSend then
        match anc.addFds L bo (out.fds.map raw) with
        | (true, anc) => some (pushBufs 34 (bufsLeft out.written out.header out.body) ios, anc)
        | (false, _) => none
      else some (pushBufs 34 (bufsLeft out.written out.header out.body) ios, anc)
    else some (ios, anc)

/-- The `while` loop of `finish_sending_next`. -/
def finishLoopAnc : List SendEvent → List RawOut → Bytes → List (Bytes × Bytes) →
    Option (Option SendError × List RawOut × ControlStream)
  | script, [], _, log => some (none, [], ⟨log, script⟩)
  | script, out :: queue, buffer, log =>
    match populateAnc L bo raw 32 (out :: queue) [] (.new buffer) with
    | none => none
    | some (ios, anc) =>
      match script with
      | [] => some (none, out :: queue, ⟨log, []⟩)
      | .wouldBlock :: script => some (none, out :: queue, ⟨log, script⟩)
      | .err :: script => some (some .io, out :: queue, ⟨log, script⟩)
      | .accept n :: script =>
        let written := min (n + 1) ios.flatten.length
        finishLoopAnc script (updateWritten (out :: queue) written).2 anc.buffer
          (log ++ [(ios.flatten.take written, anc.control)])

/-- The `loop` of `write_next_message`. -/
def writeLoopAnc : List SendEvent → List RawOut → RawOut → Bytes → List (Bytes × Bytes) →
    Option (SendState.WriteEnd × List RawOut × ControlStream)
  | script, queue, out, buffer, log =>
    match writeBufsAnc L bo raw queue out buffer with
    | none => none
    | some (ios, anc) =>
      match script with
      | [] => some (.blocked out, queue, ⟨log, []⟩)
      | .wouldBlock :: script => some (.blocked out, queue, ⟨log, script⟩)
      | .err :: script => some (.failed, queue, ⟨log, script⟩)
      | .accept n :: script =>
        let k := min (n + 1) ios.flatten.length
        let log := log ++ [(ios.flatten.take k, anc.control)]
        let (written, queue) := updateWritten queue k
        if written = 0 then writeLoopAnc script queue out anc.buffer log
        else
          let out := { out with written := out.written + written }
          if out.written = out.header.length + out.body.length then
            some (.written, queue, ⟨log, script⟩)
          else writeLoopAnc script queue out anc.buffer log

/-- The sender and its stream. -/
structure ControlSending where
  state : SendState
  stream : ControlStream

namespace ControlSending

/-- A new connection. -/
def new (withFd : Bool) (script : List SendEvent) : ControlSending := ⟨.new withFd, ⟨[], script⟩⟩

/-- One call, unless an assertion fails. -/
def step (R : Rustbus) (c : ControlSending) : SendOp → Option ControlSending
  | .write msg serial =>
    match SendState.prepare R c.state msg serial with
    | .error _ => some c
    | .ok out =>
      match writeLoopAnc L bo raw c.stream.script c.state.queue out ancData c.stream.log with
      | none => none
      | some (.written, queue, stream) => some ⟨{ c.state with queue := queue }, stream⟩
      | some (.failed, queue, stream) => some ⟨{ c.state with queue := queue }, stream⟩
      | some (.blocked out, queue, stream) =>
        some ⟨{ c.state with queue := queue ++ [out], idx := c.state.idx + 1 }, stream⟩
  | .finish =>
    match finishLoopAnc L bo raw c.stream.script c.state.queue ancData c.stream.log with
    | none => none
    | some (_, queue, stream) => some ⟨{ c.state with queue := queue }, stream⟩

/-- A run. -/
def run (R : Rustbus) (c : ControlSending) (ops : List SendOp) : Option ControlSending :=
  ops.foldlM (step L bo raw R) c

end ControlSending

/-! ## Both senders -/

/-- Control data that is read back as these descriptors. -/
def ShowsFds (control : Bytes) (fds : List ℕ) : Prop :=
  SocketAncillary.messages L bo ⟨control, control.length, false⟩ =
    if fds = [] then [] else [.ok (fds.map raw)]

/-- The same answers, and the same writes. -/
structure ControlStream.Shows (c : ControlStream) (stream : OutStream) : Prop where
  script : c.script = stream.script
  log : List.Forall₂ (fun w w' => w.1 = w'.1 ∧ ShowsFds L bo raw w.2 w'.2) c.log stream.log

/-- The messages of a queue have no more descriptors than one may have. -/
def FewFds (queue : List RawOut) : Prop := ∀ out ∈ queue, out.fds.length ≤ dbusMaxFdMessage

/-- The buffer has its length and holds these descriptors. -/
structure SocketAncillary.HoldsFds (anc : SocketAncillary) (fds : List ℕ) : Prop where
  length : anc.capacity = 256
  holds : anc.Holds L (if fds = [] then [] else [rights bo (fds.map raw)])

variable {L bo raw}

/-- The control data of a buffer hold what the buffer holds. -/
lemma SocketAncillary.Holds.control {anc : SocketAncillary} {ms : List ControlMessage}
    (h : anc.Holds L ms) :
    (⟨anc.control, anc.control.length, false⟩ : SocketAncillary).Holds L ms :=
  ⟨Nat.le_refl _, (List.take_of_length_le (Nat.le_refl _)).trans h.used, h.fits⟩

/-- The control data of a buffer with descriptors are read back as these. -/
lemma SocketAncillary.HoldsFds.shows {anc : SocketAncillary} {fds : List ℕ}
    (h : anc.HoldsFds L bo raw fds) : ShowsFds L bo raw anc.control fds := by
  have hread := h.holds.control.messages bo
  rw [ShowsFds, hread]
  split_ifs with hnil
  · rfl
  · rw [List.map_singleton, ancillaryData_rights]

/-- A buffer that is used anew holds no descriptors. -/
lemma holdsFds_new {buffer : Bytes} (h : buffer.length = 256) :
    (SocketAncillary.new buffer).HoldsFds L bo raw [] :=
  ⟨h, SocketAncillary.holds_new buffer⟩

variable (bo raw) in
/-- **The assertion holds**: the descriptors of a message find room. -/
lemma addFds_new (hroom : L.space (4 * dbusMaxFdMessage) ≤ 256) {buffer : Bytes}
    (hbuffer : buffer.length = 256) {fds : List ℕ} (hne : fds ≠ [])
    (hfew : fds.length ≤ dbusMaxFdMessage) :
    ∃ anc, (SocketAncillary.new buffer).addFds L bo (fds.map raw) = (true, anc) ∧
      anc.HoldsFds L bo raw fds := by
  have hspace : L.space (4 * (fds.map raw).length) ≤ 256 := by
    rw [List.length_map]
    exact (L.space_mono (by omega)).trans hroom
  have hadd := (@SocketAncillary.holds_new L buffer).addFds bo (fds.map raw) (by omega)
  have hcapacity : (SocketAncillary.new buffer).capacity = 256 := hbuffer
  have hused : (SocketAncillary.new buffer).length = 0 := rfl
  rw [hcapacity, hused, if_neg (by omega)] at hadd
  obtain ⟨htrue, -, hcap, hholds⟩ := hadd
  refine ⟨_, Prod.ext htrue rfl, hcap, ?_⟩
  rw [if_neg hne]
  exact hholds

/-- Something is pushed. -/
lemma pushBufs_ne_nil (cap : ℕ) (bufs : Bytes × Option Bytes) (ios : List Bytes) :
    pushBufs cap bufs ios ≠ [] := by
  obtain ⟨buf0, _ | buf1⟩ := bufs
  · simp [pushBufs]
  · unfold pushBufs
    dsimp only
    split_ifs <;> simp

variable (L bo raw) in
/-- Behind other buffers no descriptors are added. -/
lemma populateAnc_of_ne_nil (cap : ℕ) (queue : List RawOut) {ios : List Bytes} (hne : ios ≠ [])
    (anc : SocketAncillary) (fds : List ℕ) :
    populateAnc L bo raw cap queue ios anc = some ((populate cap queue ios fds).1, anc) ∧
      (populate cap queue ios fds).2 = fds := by
  induction queue generalizing ios with
  | nil => exact ⟨rfl, rfl⟩
  | cons out queue ih =>
    have hempty : ios.isEmpty = false := by simpa [List.isEmpty_iff] using hne
    rw [populateAnc, populate, hempty]
    split_ifs with hfull hfds hfalse
    · exact ⟨rfl, rfl⟩
    · cases hfalse
    · exact ⟨rfl, rfl⟩
    · exact ih (pushBufs_ne_nil cap out.outBufsLeft ios)

variable (bo raw) in
/-- **Filling a write**: the assertion holds, and the buffer holds the descriptors of the write.

**Proof sketch.** Only the first message of the queue can bring descriptors, as the buffer is empty
before it and the slices are not empty behind it (`populateAnc_of_ne_nil`). It has no more than a
message may have, so they fit into the buffer (`addFds_new`). -/
lemma populateAnc_spec (hroom : L.space (4 * dbusMaxFdMessage) ≤ 256) {cap : ℕ} (hcap : 0 < cap)
    {queue : List RawOut} (hfew : FewFds queue) {buffer : Bytes} (hbuffer : buffer.length = 256) :
    ∃ anc, populateAnc L bo raw cap queue [] (.new buffer) =
        some ((populate cap queue [] []).1, anc) ∧
      anc.HoldsFds L bo raw (populate cap queue [] []).2 := by
  have hzero : ¬ ([] : List Bytes).length = cap := Nat.ne_of_lt hcap
  cases queue with
  | nil => exact ⟨_, rfl, holdsFds_new hbuffer⟩
  | cons out queue =>
    have hne := pushBufs_ne_nil cap out.outBufsLeft []
    rw [populateAnc, populate, if_neg hzero, if_neg hzero]
    by_cases hfds : out.fdsToSend = true
    · have hout : out.fds ≠ [] := by
        simp only [RawOut.fdsToSend, Bool.and_eq_true, Bool.not_eq_true'] at hfds
        exact List.isEmpty_eq_false_iff.mp hfds.2
      obtain ⟨anc, hadd, hholds⟩ := addFds_new bo raw hroom hbuffer hout
        (hfew out List.mem_cons_self)
      obtain ⟨hpop, hanc⟩ := populateAnc_of_ne_nil L bo raw cap queue hne
        anc out.fds
      refine ⟨anc, ?_, ?_⟩
      · simp only [if_pos hfds, List.isEmpty_nil, if_true, hadd, List.nil_append]
        exact hpop
      · simp only [if_pos hfds, List.isEmpty_nil, if_true, List.nil_append]
        rw [hanc]
        exact hholds
    · obtain ⟨hpop, hanc⟩ := populateAnc_of_ne_nil L bo raw cap queue hne
        (.new buffer) []
      refine ⟨.new buffer, ?_, ?_⟩
      · rw [if_neg hfds, if_neg hfds]
        exact hpop
      · rw [if_neg hfds, hanc]
        exact holdsFds_new hbuffer

variable (bo raw) in
/-- The same for a write that goes on with a new message.

**Proof sketch.** The queue is filled in as `populateAnc_spec` says. A message with descriptors is
pushed only where the slices are empty, and then the queue is empty and the buffer new, so the
descriptors fit (`addFds_new`); any other message leaves the buffer as it is. -/
lemma writeBufsAnc_spec (hroom : L.space (4 * dbusMaxFdMessage) ≤ 256) {queue : List RawOut}
    {out : RawOut} (hfew : FewFds queue) (hout : out.fds.length ≤ dbusMaxFdMessage)
    {buffer : Bytes} (hbuffer : buffer.length = 256) :
    ∃ anc, writeBufsAnc L bo raw queue out buffer =
        some ((SendState.writeBufs queue out).1, anc) ∧
      anc.HoldsFds L bo raw (SendState.writeBufs queue out).2 := by
  obtain ⟨anc, hpop, hholds⟩ := populateAnc_spec bo raw hroom
    (show 0 < 34 by decide) hfew hbuffer
  have hempty : (populate 34 queue [] []).1 = [] → queue = [] := by
    intro hnil
    cases queue with
    | nil => rfl
    | cons o queue => exact absurd hnil (populate_ne_nil (by decide) o queue)
  rw [writeBufsAnc, SendState.writeBufs, hpop]
  generalize hres : populate 34 queue [] [] = res at hpop hholds hempty ⊢
  obtain ⟨ios, fds⟩ := res
  dsimp only at hpop hholds hempty ⊢
  by_cases hpush : ios.length ≠ 34 ∧ (out.fds.isEmpty = true ∨ ios.isEmpty = true)
  · rw [if_pos hpush, if_pos hpush]
    by_cases hfds : out.fdsToSend = true
    · have hne : out.fds ≠ [] := by
        simp only [RawOut.fdsToSend, Bool.and_eq_true, Bool.not_eq_true'] at hfds
        exact List.isEmpty_eq_false_iff.mp hfds.2
      -- the message comes first in the write
      have hios : ios = [] := by
        rcases hpush.2 with hnil | hnil
        · exact absurd (List.isEmpty_iff.mp hnil) hne
        · exact List.isEmpty_iff.mp hnil
      have hqueue := hempty hios
      subst hqueue
      simp only [populate, Prod.mk.injEq] at hres
      obtain ⟨rfl, rfl⟩ := hres
      have hanc : anc = .new buffer := by
        simp only [populateAnc, Option.some.injEq, Prod.mk.injEq] at hpop
        exact hpop.2.symm
      obtain ⟨anc', hadd, hholds'⟩ := addFds_new bo raw hroom hbuffer hne
        hout
      refine ⟨anc', ?_, ?_⟩
      · rw [if_pos hfds, hanc, hadd]
      · rw [if_pos hfds, List.nil_append]
        exact hholds'
    · refine ⟨anc, ?_, ?_⟩
      · rw [if_neg hfds]
      · rw [if_neg hfds]
        exact hholds
  · rw [if_neg hpush, if_neg hpush]
    exact ⟨anc, rfl, hholds⟩

/-! ## Runs of the sender -/

/-- Crediting a write leaves messages of the queue. -/
lemma FewFds.updateWritten {queue : List RawOut} (h : FewFds queue) (w : ℕ) :
    FewFds (updateWritten queue w).2 := by
  intro out hout
  obtain ⟨out', hout', heq⟩ := updateWritten_fds queue w out hout
  rw [heq]
  exact h out' hout'

/-- One more write that shows its descriptors. -/
lemma forall₂_shows_concat {log : List (Bytes × Bytes)} {log' : List (Bytes × List ℕ)}
    (h : List.Forall₂ (fun w w' => w.1 = w'.1 ∧ ShowsFds L bo raw w.2 w'.2) log log')
    (bytes : Bytes) {control : Bytes} {fds : List ℕ} (hshows : ShowsFds L bo raw control fds) :
    List.Forall₂ (fun w w' => w.1 = w'.1 ∧ ShowsFds L bo raw w.2 w'.2)
      (log ++ [(bytes, control)]) (log' ++ [(bytes, fds)]) :=
  List.rel_append h (.cons ⟨rfl, hshows⟩ .nil)

variable (bo raw) in
/-- **The loop of `finish_sending_next`** with its buffer does what it does without.

**Proof sketch.** Induction on the answers of the stream: the buffer keeps its length, whatever
stands in it. -/
lemma finishLoopAnc_spec (hroom : L.space (4 * dbusMaxFdMessage) ≤ 256)
    (script : List SendEvent) {queue : List RawOut} (hfew : FewFds queue) {buffer : Bytes}
    (hbuffer : buffer.length = 256) {log : List (Bytes × Bytes)} {log' : List (Bytes × List ℕ)}
    (hlog : List.Forall₂ (fun w w' => w.1 = w'.1 ∧ ShowsFds L bo raw w.2 w'.2) log log') :
    ∃ c, finishLoopAnc L bo raw script queue buffer log =
        some ((SendState.finishLoop script queue log').1,
          (SendState.finishLoop script queue log').2.1, c) ∧
      c.Shows L bo raw (SendState.finishLoop script queue log').2.2 ∧
      FewFds (SendState.finishLoop script queue log').2.1 := by
  induction script generalizing queue buffer log log' with
  | nil =>
    cases queue with
    | nil => exact ⟨⟨log, []⟩, by simp [finishLoopAnc, SendState.finishLoop], ⟨rfl, hlog⟩, hfew⟩
    | cons out queue =>
      obtain ⟨anc, hpop, -⟩ := populateAnc_spec bo raw hroom (show 0 < 32 by decide) hfew hbuffer
      refine ⟨⟨log, []⟩, ?_, ⟨rfl, hlog⟩, hfew⟩
      rw [finishLoopAnc, hpop]
      rfl
  | cons ev script ih =>
    cases queue with
    | nil =>
      exact ⟨⟨log, ev :: script⟩, by simp [finishLoopAnc, SendState.finishLoop], ⟨rfl, hlog⟩, hfew⟩
    | cons out queue =>
      obtain ⟨anc, hpop, hholds⟩ :=
        populateAnc_spec bo raw hroom (show 0 < 32 by decide) hfew hbuffer
      rw [finishLoopAnc, hpop]
      cases ev with
      | wouldBlock => exact ⟨⟨log, script⟩, rfl, ⟨rfl, hlog⟩, hfew⟩
      | err => exact ⟨⟨log, script⟩, rfl, ⟨rfl, hlog⟩, hfew⟩
      | accept n =>
        exact ih
          (hfew.updateWritten (min (n + 1) (populate 32 (out :: queue) [] []).1.flatten.length))
          hholds.length (forall₂_shows_concat hlog _ hholds.shows)

variable (bo raw) in
/-- **The loop of `write_next_message`** with its buffer does what it does without.

**Proof sketch.** By induction on the answers of the stream. Both loops offer the same slices, and
the buffer shows the descriptors of the write (`writeBufsAnc_spec`). An accepted write adds the same
entry to both logs and shortens the same messages, whose descriptors stay few
(`FewFds.updateWritten`); any other answer ends both loops. -/
lemma writeLoopAnc_spec (hroom : L.space (4 * dbusMaxFdMessage) ≤ 256)
    (script : List SendEvent) {queue : List RawOut} {out : RawOut} (hfew : FewFds queue)
    (hout : out.fds.length ≤ dbusMaxFdMessage) {buffer : Bytes} (hbuffer : buffer.length = 256)
    {log : List (Bytes × Bytes)} {log' : List (Bytes × List ℕ)}
    (hlog : List.Forall₂ (fun w w' => w.1 = w'.1 ∧ ShowsFds L bo raw w.2 w'.2) log log') :
    ∃ c, writeLoopAnc L bo raw script queue out buffer log =
        some ((SendState.writeLoop script queue out log').1,
          (SendState.writeLoop script queue out log').2.1, c) ∧
      c.Shows L bo raw (SendState.writeLoop script queue out log').2.2 ∧
      FewFds (SendState.writeLoop script queue out log').2.1 ∧
      ∀ out', (SendState.writeLoop script queue out log').1 = .blocked out' →
        out'.fds.length ≤ dbusMaxFdMessage := by
  induction script generalizing queue out buffer log log' with
  | nil =>
    obtain ⟨anc, hbufs, -⟩ := writeBufsAnc_spec bo raw hroom hfew hout hbuffer
    refine ⟨⟨log, []⟩, ?_, ⟨rfl, hlog⟩, hfew, ?_⟩
    · rw [writeLoopAnc, hbufs]
      rfl
    · rintro out' ⟨⟩
      exact hout
  | cons ev script ih =>
    obtain ⟨anc, hbufs, hholds⟩ := writeBufsAnc_spec bo raw hroom hfew hout hbuffer
    rw [writeLoopAnc, hbufs]
    cases ev with
    | wouldBlock =>
      refine ⟨⟨log, script⟩, rfl, ⟨rfl, hlog⟩, hfew, ?_⟩
      rintro out' ⟨⟩
      exact hout
    | err => exact ⟨⟨log, script⟩, rfl, ⟨rfl, hlog⟩, hfew, fun out' h => by cases h⟩
    | accept n =>
      have hlog' := forall₂_shows_concat hlog ((SendState.writeBufs queue out).1.flatten.take
        (min (n + 1) (SendState.writeBufs queue out).1.flatten.length)) hholds.shows
      have hfew' := hfew.updateWritten
        (min (n + 1) (SendState.writeBufs queue out).1.flatten.length)
      simp only [SendState.writeLoop, accept]
      generalize updateWritten queue
        (min (n + 1) (SendState.writeBufs queue out).1.flatten.length) = res at hfew' ⊢
      obtain ⟨written, queue'⟩ := res
      dsimp only at hfew' ⊢
      split_ifs with hzero hdone
      · exact ih hfew' hout hholds.length hlog'
      · exact ⟨⟨_, script⟩, rfl, ⟨rfl, hlog'⟩, hfew', fun out' h => by cases h⟩
      · have hsame : ({ out with written := out.written + written } : RawOut).fds.length ≤
            dbusMaxFdMessage := hout
        exact ih hfew' hsame hholds.length hlog'

/-- As many descriptors as the message has are duplicated. -/
lemma length_dupFds {fds : List UnixFd} {files : List ℕ}
    (h : SendState.dupFds fds = some files) : files.length = fds.length := by
  induction fds generalizing files with
  | nil =>
    simp only [SendState.dupFds, List.mapM_nil, Option.pure_def, Option.some.injEq] at h
    rw [← h]
    rfl
  | cons fd fds ih =>
    simp only [SendState.dupFds, List.mapM_cons, Option.bind_eq_bind, Option.bind_eq_some_iff,
      Option.pure_def, Option.some.injEq] at h
    obtain ⟨file, -, rest, hrest, rfl⟩ := h
    rw [List.length_cons, List.length_cons, ih hrest]

/-- A message that passes the checks has no more descriptors than one may have. -/
lemma fds_le_of_prepare {R : Rustbus} {s : SendState} {msg : MarshalledMessage}
    {serial : NonZeroU32} {out : RawOut} (h : SendState.prepare R s msg serial = .ok out) :
    out.fds.length ≤ dbusMaxFdMessage := by
  unfold SendState.prepare at h
  cases hheader : msg.marshalHeader R serial with
  | error e => simp [hheader] at h
  | ok header =>
    simp only [hheader] at h
    split_ifs at h with hmany
    cases hdup : SendState.dupFds msg.body.rawFds with
    | none => simp [hdup] at h
    | some fds =>
      simp only [hdup, Except.ok.injEq] at h
      rw [← h]
      simp only [gt_iff_lt, Bool.or_eq_true, decide_eq_true_eq, not_or, not_lt] at hmany
      exact (length_dupFds hdup).trans_le hmany.2

namespace ControlSending

variable (L bo raw) in
/-- The sender with buffers is in the state of the one without. -/
structure Agrees (c : ControlSending) (s : Sending) : Prop where
  state : c.state = s.state
  stream : c.stream.Shows L bo raw s.stream
  few : FewFds s.state.queue

/-- **One call**: no assertion fails, and both senders do the same.

**Proof sketch.** By the call. `finish_sending_next` is its loop (`finishLoopAnc_spec`).
`write_next_message` prepares the message, which has few descriptors then, and goes through its loop
(`writeLoopAnc_spec`); a message that blocks joins both queues. -/
lemma Agrees.step {R : Rustbus} (hroom : L.space (4 * dbusMaxFdMessage) ≤ 256)
    {c : ControlSending} {s : Sending} (h : Agrees L bo raw c s) (op : SendOp) :
    ∃ c', c.step L bo raw R op = some c' ∧ Agrees L bo raw c' (s.step R op) := by
  have hdata : ancData.length = 256 := List.length_replicate
  obtain ⟨state, ⟨log, script⟩⟩ := c
  obtain ⟨hstate, ⟨hscript, hlog⟩, hfew⟩ := h
  dsimp only at hstate hscript hlog
  subst hstate hscript
  cases op with
  | finish =>
    obtain ⟨c, hloop, hshows, hfew'⟩ := finishLoopAnc_spec bo raw hroom s.stream.script hfew hdata
      hlog
    refine ⟨⟨{ s.state with queue := (SendState.finishLoop s.stream.script s.state.queue
      s.stream.log).2.1 }, c⟩, ?_, ?_⟩
    · simp only [ControlSending.step, hloop]
    · simp only [Sending.step, SendState.finishSendingNext]
      generalize SendState.finishLoop s.stream.script s.state.queue s.stream.log = res
        at hshows hfew' ⊢
      obtain ⟨_ | e, queue, stream⟩ := res
      · exact ⟨rfl, hshows, hfew'⟩
      · exact ⟨rfl, hshows, hfew'⟩
  | write msg serial =>
    cases hprep : SendState.prepare R s.state msg serial with
    | error e =>
      refine ⟨⟨s.state, ⟨log, s.stream.script⟩⟩, ?_, ?_⟩
      · simp only [ControlSending.step, hprep]
      · simp only [Sending.step, SendState.writeNextMessage, hprep]
        exact ⟨rfl, ⟨rfl, hlog⟩, hfew⟩
    | ok out =>
      have hout := fds_le_of_prepare hprep
      obtain ⟨c, hloop, hshows, hfew', hblocked⟩ := writeLoopAnc_spec bo raw hroom s.stream.script
        hfew hout hdata hlog
      simp only [ControlSending.step, hprep, hloop, Sending.step, SendState.writeNextMessage]
      generalize SendState.writeLoop s.stream.script s.state.queue out s.stream.log = res
        at hshows hfew' hblocked ⊢
      obtain ⟨fin, queue, stream⟩ := res
      cases fin with
      | written => exact ⟨_, rfl, rfl, hshows, hfew'⟩
      | failed => exact ⟨_, rfl, rfl, hshows, hfew'⟩
      | blocked out' =>
        refine ⟨_, rfl, rfl, hshows, fun o ho => ?_⟩
        rcases List.mem_append.mp ho with ho | ho
        · exact hfew' o ho
        · rw [List.mem_singleton.mp ho]
          exact hblocked out' rfl

/-- A run. -/
lemma Agrees.run {R : Rustbus} (hroom : L.space (4 * dbusMaxFdMessage) ≤ 256) (ops : List SendOp)
    {c : ControlSending} {s : Sending} (h : Agrees L bo raw c s) :
    ∃ c', c.run L bo raw R ops = some c' ∧ Agrees L bo raw c' (s.run R ops) := by
  induction ops generalizing c s with
  | nil => exact ⟨c, rfl, h⟩
  | cons op ops ih =>
    obtain ⟨c₁, hstep, hagrees⟩ := h.step (R := R) hroom op
    obtain ⟨c', hrun, hagrees'⟩ := ih hagrees
    refine ⟨c', ?_, hagrees'⟩
    rw [ControlSending.run, List.foldlM_cons, hstep]
    exact hrun

/-- **The sender with its buffers does what the sender does that names descriptors as lists.**  In
every run, whatever the stream answers: the assertion that the descriptors of a message find room
never fails, although the buffers are not cleared, and the control data of each write are read
back as exactly the descriptors of the message that the write begins with, if it has some. -/
theorem run_shows (L : CmsgLayout) (bo : ByteOrder) (raw : ℕ → RawFd)
    (hroom : L.space (4 * dbusMaxFdMessage) ≤ 256) (R : Rustbus) (withFd : Bool)
    (script : List SendEvent) (ops : List SendOp) :
    ∃ c, run L bo raw R (new withFd script) ops = some c ∧
      c.state = (Sending.run R (.new withFd script) ops).state ∧
      c.stream.Shows L bo raw (Sending.run R (.new withFd script) ops).stream := by
  have hnew : Agrees L bo raw (new withFd script) (.new withFd script) :=
    ⟨rfl, ⟨rfl, .nil⟩, fun out hout => by cases hout⟩
  obtain ⟨c, hrun, hagrees⟩ := hnew.run (R := R) hroom ops
  exact ⟨c, hrun, hagrees.state, hagrees.stream⟩

/-- A signal with two descriptors whose first bytes are accepted, and the rest later. -/
theorem run_shows_linux64 :
    let ops := [SendOp.write (Sending.plainSignal [⟨some 3⟩, ⟨some 4⟩]) ⟨1, by decide⟩, .finish]
    let script := [SendEvent.accept 4, .wouldBlock, .accept 99]
    (Sending.run .reference (.new true script) ops).stream.log.map Prod.snd = [[3, 4], []] ∧
      ∃ c, run .linux64 .littleEndian Int32.ofNat .reference (new true script) ops = some c ∧
        c.state = (Sending.run .reference (.new true script) ops).state ∧
        c.stream.Shows .linux64 .littleEndian Int32.ofNat
          (Sending.run .reference (.new true script) ops).stream :=
  ⟨by decide, run_shows .linux64 .littleEndian Int32.ofNat (by decide) .reference true _ _⟩

end ControlSending

end Sender

/-! ## The receiver -/

/-- An answer of `recvmsg` with what it stores in the buffer for the control data. -/
inductive ControlEvent
  | data (n : ℕ) (control : Bytes) (truncated : Bool)
  | wouldBlock
  | eof
  | err

/-- The stream as the receiver with its buffer sees it. -/
structure ControlSocket where
  input : Bytes
  script : List ControlEvent
  shut : Bool

/-- The descriptors of the messages: `in_fds.extend`.  A message that is not known is a panic. -/
def ancFds : List (Res AncillaryError (List RawFd)) → Option (List RawFd)
  | [] => some []
  | .ok fds :: rest => (ancFds rest).map (fds ++ ·)
  | .err _ :: _ => none
  | .panic :: _ => none

section Receiver

variable (L : CmsgLayout) (bo : ByteOrder) (file : RawFd → ℕ)

/-- The descriptors of one read, and the buffer.  Without descriptors the buffer is empty and is
not looked at. -/
def readAnc (withFd : Bool) (buffer control : Bytes) (truncated : Bool) :
    Option (List RawFd) × Bytes :=
  if withFd then
    let anc := (SocketAncillary.new buffer).received control truncated
    (ancFds (anc.messages L bo), anc.buffer)
  else (some [], buffer)

/-- The `loop` of `get_next_message`. -/
def recvLoopAnc (R : Rustbus) : List ControlEvent → RecvState → Bytes → Bytes →
    Res RecvError MarshalledMessage × RecvState × ControlSocket
  | [], s, input, _ =>
    (.err .wouldBlock, { s with remaining := [], remLoc := 0 }, ⟨input, [], false⟩)
  | .wouldBlock :: script, s, input, _ =>
    (.err .wouldBlock, { s with remaining := [], remLoc := 0 }, ⟨input, script, false⟩)
  | .eof :: script, s, input, _ =>
    (.err .hungUp, { s with remaining := [], remLoc := 0 }, ⟨input, script, false⟩)
  | .err :: script, s, input, _ =>
    (.err .io, { s with remaining := [], remLoc := 0 }, ⟨input, script, false⟩)
  | .data n control truncated :: script, s, input, buffer =>
    let gotten := min (n + 1) (min s.offered input.length)
    -- nothing is left to receive
    if gotten = 0 then
      (.err .wouldBlock, { s with remaining := [], remLoc := 0 }, ⟨input, script, false⟩)
    else
      match readAnc L bo s.withFd buffer control truncated with
      | (none, _) => (.panic, s.receive (input.take gotten) [], ⟨input.drop gotten, script, false⟩)
      | (some fds, buffer) =>
        match RecvState.handleChunk R
            (s.receive (input.take gotten) (fds.map fun fd => ⟨some (file fd)⟩))
            ⟨input.drop gotten, [], false⟩ with
        | (some r, s, sock) => (r, s, ⟨sock.input, script, sock.shut⟩)
        | (none, s, sock) => recvLoopAnc R script s sock.input buffer

/-- `get_next_message`. -/
def getNextMessageAnc (R : Rustbus) (s : RecvState) (sock : ControlSocket) :
    Res RecvError MarshalledMessage × RecvState × ControlSocket :=
  match RecvState.tryGetMsg R s ⟨sock.input, [], sock.shut⟩ with
  | (.err e, s, sock') => (.err e, s, ⟨sock'.input, sock.script, sock'.shut⟩)
  | (.panic, s, sock') => (.panic, s, ⟨sock'.input, sock.script, sock'.shut⟩)
  | (.ok (some raw), s, sock') =>
    match RecvState.deliver R raw [] s sock' with
    | (r, s, sock') => (r, s, ⟨sock'.input, sock.script, sock'.shut⟩)
  | (.ok none, s, sock') =>
    if sock'.shut then
      (.err .hungUp, { s with remaining := [], remLoc := 0 },
        ⟨sock'.input, sock.script, sock'.shut⟩)
    else recvLoopAnc L bo file R sock.script s sock'.input ancData

/-! ## What the system stores -/

/-- What `recvmsg` promises about a buffer of `cap` bytes for the descriptors that come with the
bytes: it keeps the first of them, drops one only where the buffer has no room for it, and stores
those that it keeps as one message, whose padding may be cut off.  It may set `MSG_CTRUNC`. -/
structure RightsStore where
  kept : ℕ → List RawFd → ℕ
  control : ℕ → List RawFd → Bytes
  truncated : ℕ → List RawFd → Bool
  kept_le : ∀ cap fds, kept cap fds ≤ fds.length
  room : ∀ cap fds, kept cap fds < fds.length → cap < L.headerLen + 4 * (kept cap fds + 1)
  bounded : ∀ cap fds, (control cap fds).length ≤ cap
  control_nil : ∀ cap fds, kept cap fds = 0 → control cap fds = []
  control_block : ∀ cap fds, kept cap fds ≠ 0 → ∃ n, L.headerLen + 4 * kept cap fds ≤ n ∧
    control cap fds = (L.block (rights bo (fds.take (kept cap fds)))).take n

variable {L bo}

/-- An answer of `recvmsg` by the descriptors that are passed on with the bytes. -/
inductive PassedEvent
  | data (n : ℕ) (fds : List RawFd)
  | wouldBlock
  | eof
  | err

/-- The answer with what is stored in the buffer. -/
def PassedEvent.stored (K : RightsStore L bo) (withFd : Bool) : PassedEvent → ControlEvent
  | .data n fds =>
    let cap := if withFd then 256 else 0
    .data n (K.control cap fds) (K.truncated cap fds)
  | .wouldBlock => .wouldBlock
  | .eof => .eof
  | .err => .err

/-- The answer with the descriptors themselves. -/
def PassedEvent.listed : PassedEvent → RecvEvent
  | .data n fds => .data n (fds.map fun fd => ⟨some (file fd)⟩)
  | .wouldBlock => .wouldBlock
  | .eof => .eof
  | .err => .err

/-- Both receivers did the same and have the same answers to come. -/
def SameOutcome (K : RightsStore L bo) (withFd : Bool)
    (res : Res RecvError MarshalledMessage × RecvState × ControlSocket)
    (res' : Res RecvError MarshalledMessage × RecvState × Socket) : Prop :=
  ∃ r s input shut, ∃ rest : List PassedEvent,
    res = (r, s, ⟨input, rest.map (PassedEvent.stored K withFd), shut⟩) ∧
    res' = (r, s, ⟨input, rest.map (PassedEvent.listed file), shut⟩)

variable (K : RightsStore L bo)

/-- Storing descriptors in the buffer of the receiver and reading them: all of them, or more than
a message may have.

**Proof sketch.** The number `k` of descriptors that are kept is what the store says. With none the
control data is empty; otherwise it is the block of one message, perhaps without the end of its
padding, and the walk over the headers finds that message and no other (`CmsgLayout.messages_cut`).
Where some were cut off, the room of the store says that more than a message may have were kept. -/
lemma readAnc_control (hroom : L.headerLen + 4 * (dbusMaxFdMessage + 1) ≤ 256)
    (hfits : L.space 256 < 2 ^ 32) {buffer : Bytes} (hbuffer : buffer.length = 256)
    (fds : List RawFd) :
    ∃ k buffer', readAnc L bo true buffer (K.control 256 fds) (K.truncated 256 fds) =
        (some (fds.take k), buffer') ∧ buffer'.length = 256 ∧
      (fds.length ≤ k ∨ dbusMaxFdMessage < k) := by
  obtain ⟨k, hk⟩ : ∃ k, k = K.kept 256 fds := ⟨_, rfl⟩
  have hle := K.bounded 256 fds
  have hkept := K.kept_le 256 fds
  have hcut := K.room 256 fds
  rw [← hk] at hkept hcut
  have hread : ancFds ((L.headers (K.control 256 fds)).map
      (tryFromCmsghdr L bo (K.control 256 fds))) = some (fds.take k) := by
    by_cases hzero : k = 0
    · rw [K.control_nil 256 fds (hk ▸ hzero), hzero, CmsgLayout.headers_nil]
      rfl
    · obtain ⟨n, hn, hcontrol⟩ := K.control_block 256 fds (hk ▸ hzero)
      rw [← hk] at hn hcontrol
      have hdata : (rights bo (fds.take k)).data.length = 4 * k := by
        rw [length_data_rights, List.length_take, Nat.min_eq_left hkept]
      have hlen : L.len (4 * k) ≤ 256 := by
        have hspace := L.len_le_space (4 * k)
        rw [hcontrol, List.length_take, CmsgLayout.length_block, hdata] at hle
        rw [L.len_eq] at hspace ⊢
        omega
      have hfits' : L.Fits (rights bo (fds.take k)) := by
        rw [L.len_eq] at hlen
        rw [CmsgLayout.Fits, hdata]
        exact (L.space_mono (by omega)).trans_lt hfits
      obtain ⟨hheaders, hmessage⟩ := CmsgLayout.messages_cut hfits' (n := n) (by
        rw [hdata, L.len_eq]
        exact hn)
      rw [hcontrol, hheaders, List.map_singleton, tryFromCmsghdr, hmessage]
      simp only [ancillaryData_rights, ancFds, Option.map_some, List.append_nil]
  generalize K.control 256 fds = control at hle hread ⊢
  generalize K.truncated 256 fds = truncated
  have hbuffer' : overwrite buffer 0 control = control ++ buffer.drop control.length := by
    simp [overwrite]
  have hlength : (overwrite buffer 0 control).length = 256 := by
    rw [hbuffer', List.length_append, List.length_drop]
    omega
  refine ⟨k, overwrite buffer 0 control, ?_, hlength, by omega⟩
  have hanc := SocketAncillary.messages_eq L bo
    ((SocketAncillary.new buffer).received control truncated)
    (show control.length ≤ (overwrite buffer 0 control).length by omega)
  have hused : (overwrite buffer 0 control).take control.length = control := by
    rw [hbuffer', List.take_left]
  rw [readAnc, if_pos rfl]
  dsimp only
  rw [hanc]
  show (ancFds ((L.headers ((overwrite buffer 0 control).take control.length)).map
    (tryFromCmsghdr L bo ((overwrite buffer 0 control).take control.length))), _) = _
  rw [hused, hread]
  rfl

/-- **Descriptors that are cut off make no difference**: there were too many anyway.

**Proof sketch.** If `k` covers all descriptors there is nothing to show. Otherwise both receivers
hold more than a message may have, and each returns `TooManyFds` and forgets them. -/
lemma handleChunk_take {R : Rustbus} {s : RecvState} (hfd : s.withFd = true) (chunk : Bytes)
    {fds : List UnixFd} {k : ℕ} (hk : fds.length ≤ k ∨ dbusMaxFdMessage < k) (sock : Socket) :
    RecvState.handleChunk R (s.receive chunk (fds.take k)) sock =
      RecvState.handleChunk R (s.receive chunk fds) sock := by
  by_cases hall : fds.length ≤ k
  · rw [List.take_of_length_le hall]
  · have hmany : ∀ fds' : List UnixFd, dbusMaxFdMessage < fds'.length →
        RecvState.handleChunk R (s.receive chunk fds') sock =
          (some (.err .tooManyFds),
            { s.receive chunk [] with
              inState := (s.receive chunk []).inState.intoHdr, inFds := [] }, sock) := by
      intro fds' hlen
      have hinFds : (s.receive chunk fds').inFds = s.inFds ++ fds' := by
        rw [RecvState.receive]
        exact if_pos hfd
      have hover : ((s.receive chunk fds').withFd &&
          decide ((s.receive chunk fds').inFds.length > dbusMaxFdMessage)) = true := by
        have hsame : (s.receive chunk fds').withFd = true := hfd
        rw [hsame, hinFds, List.length_append, Bool.true_and, decide_eq_true_eq]
        omega
      rw [RecvState.handleChunk, if_pos hover]
      rfl
    have htake : (fds.take k).length = k := by
      rw [List.length_take, Nat.min_eq_left (by omega)]
    rw [hmany (fds.take k) (by omega), hmany fds (by omega)]

/-! ## Both receivers -/

/-- The parser does not change whether descriptors are received.

**Proof sketch.** By the state of the parser: each branch updates the state, what remains and the
position only. The branch of the header ends in that of the header fields, and this one in that of
the body. -/
lemma withFd_tryBlock (R : Rustbus) (s : RecvState) :
    (RecvState.tryBlock R s).2.withFd = s.withFd := by
  have hfinishing : ∀ (s : RecvState) hdr dynhdr buf,
      (RecvState.tryFinishing s hdr dynhdr buf).2.withFd = s.withFd := by
    intro s hdr dynhdr buf
    unfold RecvState.tryFinishing
    split <;> rfl
  have hdynHdr : ∀ (s : RecvState) hdr buf,
      (RecvState.tryDynHdr R s hdr buf).2.withFd = s.withFd := by
    intro s hdr buf
    unfold RecvState.tryDynHdr
    split
    · rfl
    split
    · rfl
    dsimp only
    split
    · rfl
    · rfl
    · exact hfinishing _ _ _ _
  unfold RecvState.tryBlock
  cases s.inState with
  | header buf =>
    show (RecvState.tryHeader R s buf).2.withFd = s.withFd
    unfold RecvState.tryHeader
    split
    · rfl
    dsimp only
    split
    · rfl
    · exact hdynHdr _ _ _
  | dynHdr hdr buf => exact hdynHdr s hdr buf
  | finishing hdr dynhdr buf => exact hfinishing s hdr dynhdr buf

/-- Neither does a pass of the loop that goes on. -/
lemma withFd_handleChunk {R : Rustbus} {s s' : RecvState} {sock sock' : Socket}
    (h : RecvState.handleChunk R s sock = (none, s', sock')) : s'.withFd = s.withFd := by
  have hblock := withFd_tryBlock R s
  unfold RecvState.handleChunk at h
  split_ifs at h with hmany
  · cases h
  unfold RecvState.tryGetMsg at h
  generalize RecvState.tryBlock R s = res at h hblock
  obtain ⟨(_ | raw) | e | _, s₁⟩ := res
  · simp only [Prod.mk.injEq] at h
    rw [← h.2.1]
    exact hblock
  · dsimp only at h
    split_ifs at h
    · cases h
    · cases h
  · cases h
  · cases h

/-- What both receivers do with the descriptors of one read. -/
lemma readAnc_stored (hroom : L.headerLen + 4 * (dbusMaxFdMessage + 1) ≤ 256)
    (hfits : L.space 256 < 2 ^ 32) {buffer : Bytes} (hbuffer : buffer.length = 256) (R : Rustbus)
    (s : RecvState) (chunk : Bytes) (fds : List RawFd) :
    ∃ fds' buffer', readAnc L bo s.withFd buffer (K.control (if s.withFd then 256 else 0) fds)
        (K.truncated (if s.withFd then 256 else 0) fds) = (some fds', buffer') ∧
      buffer'.length = 256 ∧
      ∀ sock, RecvState.handleChunk R (s.receive chunk (fds'.map fun fd => ⟨some (file fd)⟩)) sock =
        RecvState.handleChunk R (s.receive chunk (fds.map fun fd => ⟨some (file fd)⟩)) sock := by
  cases hfd : s.withFd with
  | false =>
    refine ⟨[], buffer, rfl, hbuffer, fun sock => ?_⟩
    have hsame : ∀ fds' : List UnixFd, s.receive chunk fds' = s.receive chunk [] := by
      intro fds'
      simp only [RecvState.receive, hfd]
      rfl
    rw [hsame, hsame (fds.map _)]
  | true =>
    obtain ⟨k, buffer', hread, hbuffer', hk⟩ := readAnc_control K hroom hfits hbuffer fds
    refine ⟨fds.take k, buffer', hread, hbuffer', fun sock => ?_⟩
    rw [List.map_take]
    exact handleChunk_take hfd chunk (by simpa using hk) sock

/-- **The loop of the receiver with its buffer** does what it does without.

**Proof sketch.** Induction on the answers of the socket. -/
lemma recvLoopAnc_eq (hroom : L.headerLen + 4 * (dbusMaxFdMessage + 1) ≤ 256)
    (hfits : L.space 256 < 2 ^ 32) (R : Rustbus) (script : List PassedEvent) (s : RecvState)
    (input : Bytes) {buffer : Bytes} (hbuffer : buffer.length = 256) :
    SameOutcome file K s.withFd
      (recvLoopAnc L bo file R (script.map (PassedEvent.stored K s.withFd)) s input buffer)
      (RecvState.recvLoop R (script.map (PassedEvent.listed file)) s input) := by
  induction script generalizing s input buffer with
  | nil => exact ⟨_, _, _, _, [], rfl, rfl⟩
  | cons ev script ih =>
    cases ev with
    | wouldBlock => exact ⟨_, _, _, _, script, rfl, rfl⟩
    | eof => exact ⟨_, _, _, _, script, rfl, rfl⟩
    | err => exact ⟨_, _, _, _, script, rfl, rfl⟩
    | data n fds =>
      simp only [List.map_cons, PassedEvent.stored, PassedEvent.listed, recvLoopAnc,
        RecvState.recvLoop]
      generalize min (n + 1) (min s.offered input.length) = gotten
      by_cases hzero : gotten = 0
      · rw [if_pos hzero, if_pos hzero]
        exact ⟨_, _, _, _, script, rfl, rfl⟩
      · obtain ⟨fds', buffer', hread, hbuffer', hsame⟩ := readAnc_stored file K hroom hfits hbuffer
          R s (input.take gotten) fds
        obtain ⟨result, s', shut', hchunk⟩ := RecvState.handleChunk_socket R
          (s.receive (input.take gotten) (fds.map fun fd => ⟨some (file fd)⟩))
        rw [if_neg hzero, if_neg hzero, hread]
        simp only [hsame, hchunk]
        cases result with
        | some r => exact ⟨_, _, _, _, script, rfl, rfl⟩
        | none =>
          have hfd : s'.withFd = s.withFd := (withFd_handleChunk (hchunk [] [])).trans rfl
          rw [← hfd]
          exact ih s' (input.drop gotten) hbuffer'

/-- **The receiver with its buffer does what the receiver does that is given descriptors as lists.**
For every state and all answers of the socket, whatever descriptors come with the bytes: those that
do not find room in the buffer of 256 bytes are cut off and the flag for that is not looked at, but
then there were more than a message may have, and the call fails just as it does when it is given
them all. -/
theorem getNextMessageAnc_eq (L : CmsgLayout) (bo : ByteOrder) (K : RightsStore L bo)
    (file : RawFd → ℕ) (hroom : L.headerLen + 4 * (dbusMaxFdMessage + 1) ≤ 256)
    (hfits : L.space 256 < 2 ^ 32) (R : Rustbus) (s : RecvState) (input : Bytes)
    (script : List PassedEvent) (shut : Bool) :
    SameOutcome file K s.withFd
      (getNextMessageAnc L bo file R s ⟨input, script.map (PassedEvent.stored K s.withFd), shut⟩)
      (RecvState.getNextMessage R s ⟨input, script.map (PassedEvent.listed file), shut⟩) := by
  have hdata : ancData.length = 256 := List.length_replicate
  have hfd := withFd_tryBlock R s
  unfold getNextMessageAnc RecvState.getNextMessage RecvState.tryGetMsg
  generalize RecvState.tryBlock R s = res at hfd
  obtain ⟨(_ | raw) | e | _, s'⟩ := res
  · dsimp only at hfd ⊢
    cases shut with
    | true => exact ⟨_, _, _, _, script, rfl, rfl⟩
    | false =>
      rw [← hfd]
      exact recvLoopAnc_eq file K hroom hfits R script s' input hdata
  · dsimp only [RecvState.deliver]
    cases (RecvState.mmFromRaw raw []).body.validate R with
    | ok u => exact ⟨_, _, _, _, script, rfl, rfl⟩
    | error e => exact ⟨_, _, _, _, script, rfl, rfl⟩
  · exact ⟨_, _, _, _, script, rfl, rfl⟩
  · exact ⟨_, _, _, _, script, rfl, rfl⟩

/-- A system that keeps as many descriptors as find room, pads its message as far as the buffer
goes, and reports what is cut off. -/
def RightsStore.padded (L : CmsgLayout) (bo : ByteOrder) : RightsStore L bo where
  kept cap fds := min fds.length ((cap - L.headerLen) / 4)
  control cap fds :=
    let k := min fds.length ((cap - L.headerLen) / 4)
    if k = 0 then [] else (L.block (rights bo (fds.take k))).take cap
  truncated cap fds := decide ((cap - L.headerLen) / 4 < fds.length)
  kept_le cap fds := Nat.min_le_left _ _
  room cap fds h := by omega
  bounded cap fds := by
    dsimp only
    split_ifs
    · exact Nat.zero_le _
    · exact List.length_take_le _ _
  control_nil cap fds h := if_pos h
  control_block cap fds h := ⟨cap, by omega, if_neg h⟩

/-- Seventy descriptors with the first byte of a message: sixty find room. -/
theorem getNextMessageAnc_eq_linux64 :
    let K := RightsStore.padded .linux64 .littleEndian
    let s := RecvState.new true 4096
    let script := [PassedEvent.data 0 (List.replicate 70 3)]
    K.kept 256 (List.replicate 70 3) = 60 ∧ K.truncated 256 (List.replicate 70 3) = true ∧
      (RecvState.getNextMessage .reference s
        ⟨[108], script.map (PassedEvent.listed Int32.toNatClampNeg), false⟩).1 =
          .err .tooManyFds ∧
      SameOutcome Int32.toNatClampNeg K s.withFd
        (getNextMessageAnc .linux64 .littleEndian Int32.toNatClampNeg .reference s
          ⟨[108], script.map (PassedEvent.stored K s.withFd), false⟩)
        (RecvState.getNextMessage .reference s
          ⟨[108], script.map (PassedEvent.listed Int32.toNatClampNeg), false⟩) := by
  intro K s script
  have hsame := getNextMessageAnc_eq .linux64 .littleEndian K Int32.toNatClampNeg (by decide)
    (by decide) .reference s [108] script false
  exact ⟨by decide, by decide, by decide, hsame⟩

end Receiver

end AsyncRustbus
