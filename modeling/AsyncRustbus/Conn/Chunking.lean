import AsyncRustbus.Conn.Decode
import AsyncRustbus.Message.Reference

set_option relaxedAutoImplicit false
set_option autoImplicit false

/-!
# Chunking does not matter

However the socket cuts a byte string into pieces, and however often it has nothing to read,
the results of `get_next_message` are those of decoding the byte string in one pass.

## Main definitions

* `AsyncRustbus.RecvState.receiveAll` — call `get_next_message` again and again.
* `AsyncRustbus.RecvState.AtRest` — everything has been received and returned.
* `AsyncRustbus.RecvState.Ready` — the invariant of a receiver between two calls.

## Main results

* `AsyncRustbus.RecvState.getNextMessage_spec` — one call follows the decoding.
* `AsyncRustbus.RecvState.receiveAll_spec` — so does a sequence of calls.
* `AsyncRustbus.RecvState.receiveAll_chunking` — chunking invariance.
-/

namespace AsyncRustbus

/-! ## Schedules -/

/-- An answer that delivers bytes, without descriptors where the connection takes them, or has
nothing to deliver. -/
def RecvEvent.delivers (withFd : Bool) : RecvEvent → Bool
  | .data _ fds => !withFd || fds.isEmpty
  | .wouldBlock => true
  | _ => false

/-- A schedule: a list of such answers. -/
def IsSchedule (withFd : Bool) (script : List RecvEvent) : Prop :=
  ∀ ev ∈ script, ev.delivers withFd = true

/-- Being a schedule is decidable. -/
instance (withFd : Bool) (script : List RecvEvent) : Decidable (IsSchedule withFd script) :=
  inferInstanceAs (Decidable (∀ ev ∈ script, ev.delivers withFd = true))

/-- The number of answers that deliver bytes. -/
def deliveries (script : List RecvEvent) : ℕ :=
  script.countP fun ev => match ev with
    | .data _ _ => true
    | _ => false

namespace RecvState

/-- Call `get_next_message` up to `n` times: the results up to and including the first error
other than `WouldBlock`, and what is left. -/
def receiveAll (R : Rustbus) : ℕ → RecvState → Socket →
    List (Res RecvError MarshalledMessage) × RecvState × Socket
  | 0, s, sock => ([], s, sock)
  | n + 1, s, sock =>
    match getNextMessage R s sock with
    | (.ok msg, s, sock) =>
      let run := receiveAll R n s sock
      (.ok msg :: run.1, run.2)
    | (.err .wouldBlock, s, sock) => receiveAll R n s sock
    | (r, s, sock) => ([r], s, sock)

/-- The run has come to rest: it ended with an error, or all bytes are received and the next
call has nothing to return. -/
def AtRest (R : Rustbus) (run : List (Res RecvError MarshalledMessage) × RecvState × Socket) :
    Prop :=
  (∃ r ∈ run.1, ∀ msg, r ≠ .ok msg) ∨
    run.2.2.input = [] ∧ (getNextMessage R run.2.1 run.2.2).1 = .err .wouldBlock

/-! ## One call -/

/-- The invariant of a receiver between two calls, while no descriptors arrive: with
descriptors nothing is read ahead. -/
structure Ready (s : RecvState) : Prop where
  remLoc : s.remLoc ≤ s.remaining.length
  bounded : s.inState.Bounded s.withFd
  noFds : s.inFds = []
  noReadAhead : s.withFd = true → s.remaining = []

/-- A new receiver is ready. -/
lemma ready_new (withFd : Bool) (remCap : ℕ) : (new withFd remCap).Ready :=
  ⟨le_refl _, Nat.zero_le _, rfl, fun _ => rfl⟩

/-- The socket stays on schedule, and the deliveries cover the bytes to come if they did. -/
structure OnSchedule (withFd : Bool) (sock sock' : Socket) : Prop where
  shut : sock'.shut = false
  schedule : IsSchedule withFd sock'.script
  length : sock'.script.length ≤ sock.script.length
  input : sock'.input.length ≤ sock.input.length
  covers : sock.input.length ≤ deliveries sock.script →
    sock'.input.length ≤ deliveries sock'.script

/-- Socket steps compose. -/
lemma OnSchedule.trans {withFd : Bool} {sock sock₁ sock₂ : Socket}
    (h : OnSchedule withFd sock sock₁) (h' : OnSchedule withFd sock₁ sock₂) :
    OnSchedule withFd sock sock₂ :=
  ⟨h'.shut, h'.schedule, h'.length.trans h.length, h'.input.trans h.input,
    fun hc => h'.covers (h.covers hc)⟩

/-- What a call of `get_next_message` does where the bytes in front of the receiver decode
to `d`. -/
inductive CallSpec (R : Rustbus) (withFd : Bool) (sock : Socket) (d : Decoded) :
    Res RecvError MarshalledMessage × RecvState × Socket → Prop
  | blocked (s' : RecvState) (sock' : Socket) (hready : s'.Ready) (hfd : s'.withFd = withFd)
      (hsock : OnSchedule withFd sock sock')
      (hd : s'.inState.decode R withFd (s'.leftover ++ sock'.input) = d)
      (hidle : s'.leftover = [] ∧ s'.inState.decode R withFd [] = .more)
      (hless : sock.script = [] ∨ sock'.script.length < sock.script.length) :
      CallSpec R withFd sock d (.err .wouldBlock, s', sock')
  | message (raw : RawMessage) (msg : MarshalledMessage) (s' : RecvState) (sock' : Socket)
      (hready : s'.Ready) (hfd : s'.withFd = withFd) (hsock : OnSchedule withFd sock sock')
      (hd : d = .raw raw (s'.leftover ++ sock'.input)) (hmsg : outcome R withFd raw = .ok msg)
      (hstate : s'.inState = .header []) : CallSpec R withFd sock d (.ok msg, s', sock')
  | refused (raw : RawMessage) (rest : Bytes) (e : RecvError) (s' : RecvState) (sock' : Socket)
      (hd : d = .raw raw rest) (hmsg : outcome R withFd raw = .err e) :
      CallSpec R withFd sock d (.err e, s', sock')
  | failed (e : RecvError) (rest : Bytes) (s' : RecvState) (sock' : Socket)
      (hd : d = .fail e rest) : CallSpec R withFd sock d (.err e, s', sock')
  | panicked (s' : RecvState) (sock' : Socket) (hd : d = .panic) :
      CallSpec R withFd sock d (.panic, s', sock')

variable {R : Rustbus}

/-- A call on a socket that is further on. -/
lemma CallSpec.of_onSchedule {withFd : Bool} {sock sock₁ : Socket} {d : Decoded}
    {res : Res RecvError MarshalledMessage × RecvState × Socket}
    (h : CallSpec R withFd sock₁ d res) (hsock : OnSchedule withFd sock sock₁)
    (hless : sock₁.script.length < sock.script.length) : CallSpec R withFd sock d res := by
  cases h with
  | blocked s' sock' hready hfd hsock' hd hidle _ =>
    exact .blocked s' sock' hready hfd (hsock.trans hsock') hd hidle
      (Or.inr (lt_of_le_of_lt hsock'.length hless))
  | message raw msg s' sock' hready hfd hsock' hd hmsg hstate =>
    exact .message raw msg s' sock' hready hfd (hsock.trans hsock') hd hmsg hstate
  | refused raw rest e s' sock' hd hmsg => exact .refused raw rest e s' sock' hd hmsg
  | failed e rest s' sock' hd => exact .failed e rest s' sock' hd
  | panicked s' sock' hd => exact .panicked s' sock' hd

/-- Storing a chunk: the parser state is extended by what it needs, and stays bounded. -/
lemma bounded_extend {withFd : Bool} {st : InState} {bytes : Bytes}
    (h : st.Bounded withFd) (hlen : bytes.length ≤ st.bytesNeededForNext) :
    (st.extend bytes).Bounded withFd := by
  cases st with
  | header b =>
    simp only [InState.bytesNeededForNext, headerLen] at hlen
    simp only [InState.Bounded, InState.extend, List.length_append] at h ⊢
    omega
  | dynHdr hdr b =>
    simp only [InState.bytesNeededForNext] at hlen
    simp only [InState.Bounded, InState.extend, List.length_append] at h ⊢
    split_ifs at hlen with h16
    · exact Or.inl (by omega)
    · rw [totalHdrLen_append _ _ _ (by omega)]
      have := le_totalHdrLen hdr.byteorder b
      omega
  | finishing hdr dynhdr b =>
    simp only [InState.bytesNeededForNext] at hlen
    simp only [InState.Bounded, InState.extend, List.length_append] at h ⊢
    exact ⟨by omega, h.2⟩

/-- A message that the loop cuts off is delivered as `outcome` says. -/
lemma deliver_eq_outcome (raw : RawMessage) (withFd : Bool) (s : RecvState) (sock : Socket)
    (hfds : (raw.2.1.numFds.getD 0).toNat = 0) :
    (∃ msg, outcome R withFd raw = .ok msg ∧ deliver R raw [] s sock = (.ok msg, s, sock)) ∨
      ∃ e, outcome R withFd raw = .err e ∧
        deliver R raw [] s sock = (.err e, s, sock.shutdown) := by
  have hnot : ¬ (withFd = true ∧ (raw.2.1.numFds.getD 0).toNat ≠ 0) := by simp [hfds]
  simp only [outcome, deliver, if_neg hnot]
  cases (mmFromRaw raw []).body.validate R with
  | ok u => exact Or.inl ⟨_, rfl, rfl⟩
  | error e => exact Or.inr ⟨_, rfl, rfl⟩

/-- A state of the receiver that waits for bytes. -/
structure Waiting (R : Rustbus) (s : RecvState) : Prop extends s.Ready where
  left : s.leftover = []
  more : s.inState.decode R s.withFd [] = .more
  need : 0 < s.inState.bytesNeededForNext

/-- A waiting receiver whose `remaining` is cleared. -/
lemma Waiting.clear {s : RecvState} (h : s.Waiting R) :
    { s with remaining := [], remLoc := 0 : RecvState }.Waiting R :=
  ⟨⟨le_refl _, h.bounded, h.noFds, fun _ => rfl⟩, rfl, h.more, h.need⟩

/-- A waiting receiver reports `WouldBlock` without losing anything. -/
lemma Waiting.blocked {s : RecvState} (h : s.Waiting R) {sock sock' : Socket}
    (hsock : OnSchedule s.withFd sock sock') (hinput : sock'.input = sock.input)
    (hless : sock.script = [] ∨ sock'.script.length < sock.script.length) :
    CallSpec R s.withFd sock (s.inState.decode R s.withFd sock.input)
      (.err .wouldBlock, { s with remaining := [], remLoc := 0 }, sock') :=
  .blocked _ _ h.clear.toReady rfl hsock (by rw [hinput]; rfl) ⟨rfl, h.more⟩ hless

/-- A ready receiver whose parser needs more bytes waits for them. -/
lemma Ready.waiting {s s' : RecvState} (h : s.Ready) (hkeeps : s.Keeps s')
    (hf : s.inState.decode R s.withFd s.leftover = .more) (hleft : s'.leftover = [])
    (hres : ∀ t, s'.inState.decode R s.withFd t = s.inState.decode R s.withFd (s.leftover ++ t))
    (hbounded : s'.inState.Bounded s.withFd) (hneed : 0 < s'.inState.bytesNeededForNext) :
    s'.Waiting R := by
  refine ⟨⟨hkeeps.remLoc, ?_, ?_, fun hfd => ?_⟩, hleft, ?_, hneed⟩
  · rw [hkeeps.withFd]
    exact hbounded
  · rw [hkeeps.inFds, h.noFds]
  · rw [hkeeps.remaining]
    exact h.noReadAhead (hkeeps.withFd.symm.trans hfd)
  · rw [hkeeps.withFd, hres, List.append_nil, hf]

/-- A ready receiver that has cut off a message is ready for the next one. -/
lemma Ready.next {s s' : RecvState} (h : s.Ready) (hkeeps : s.Keeps s')
    (hstate : s'.inState = .header []) : s'.Ready := by
  refine ⟨hkeeps.remLoc, ?_, ?_, fun hfd => ?_⟩
  · rw [hstate]
    exact Nat.zero_le _
  · rw [hkeeps.inFds, h.noFds]
  · rw [hkeeps.remaining]
    exact h.noReadAhead (hkeeps.withFd.symm.trans hfd)

/-- Dropping an answer that delivers nothing. -/
private lemma onSchedule_tail {withFd : Bool} {ev : RecvEvent} {script : List RecvEvent}
    {input : Bytes} (hs : IsSchedule withFd (ev :: script))
    (hcovers : input.length ≤ deliveries (ev :: script) → input.length ≤ deliveries script) :
    OnSchedule withFd ⟨input, ev :: script, false⟩ ⟨input, script, false⟩ :=
  ⟨rfl, fun e he => hs e (by simp [he]), by simp, le_refl _, hcovers⟩

/-- Receiving a chunk does not change the decoding: it is cut at another place. -/
lemma receive_spec {s : RecvState} (h : s.Waiting R) (chunk : Bytes) (fds : List UnixFd)
    (hlen : chunk.length ≤ s.offered) (hfds : s.withFd = true → fds = []) :
    (s.receive chunk fds).Ready ∧ ∀ t, (s.receive chunk fds).inState.decode R s.withFd
      ((s.receive chunk fds).leftover ++ t) = s.inState.decode R s.withFd (chunk ++ t) := by
  refine ⟨⟨Nat.zero_le _, ?_, ?_, fun hfd => ?_⟩, fun t => ?_⟩
  · exact bounded_extend h.bounded (by simp)
  · simp only [receive, h.noFds, List.nil_append]
    split_ifs with hfd
    · exact hfds hfd
    · rfl
  · have hoffered : s.offered = s.inState.bytesNeededForNext := if_pos hfd
    exact List.drop_eq_nil_of_le (by omega)
  · change (s.inState.extend (chunk.take s.inState.bytesNeededForNext)).decode R s.withFd
      ((chunk.drop s.inState.bytesNeededForNext).drop 0 ++ t) = _
    rw [InState.decode_extend, List.drop_zero, ← List.append_assoc, List.take_append_drop]

/-- What a pass of the loop does behind `recvmsg`: a result as specified, or the receiver waits
for more.

**Proof sketch.** The receiver holds no descriptors, so the count is not exceeded, and
`tryBlock_spec` says what the parser does with the bytes in front of it. If it needs more, the
receiver waits. An error or a panic of the decoding stays one with the bytes still to come
(`InState.decode_append`). A complete message is delivered or refused as `outcome` says, since
descriptors that a header asks for are missing here. -/
lemma handleChunk_spec (hR : R.ReadsFixedPart) {s : RecvState} (h : s.Ready) (sock : Socket)
    (hshut : sock.shut = false) (hscript : IsSchedule s.withFd sock.script) :
    (∃ r s' sock', handleChunk R s sock = (some r, s', sock') ∧
      CallSpec R s.withFd sock (s.inState.decode R s.withFd (s.leftover ++ sock.input))
        (r, s', sock')) ∨
    ∃ s', handleChunk R s sock = (none, s', sock) ∧ s'.Waiting R ∧ s'.withFd = s.withFd ∧
      ∀ t, s'.inState.decode R s.withFd t = s.inState.decode R s.withFd (s.leftover ++ t) := by
  have hfew : ¬ (s.withFd && decide (s.inFds.length > dbusMaxFdMessage)) = true := by
    simp [h.noFds]
  have hself : OnSchedule s.withFd sock sock := ⟨hshut, hscript, le_refl _, le_refl _, id⟩
  have htry := tryBlock_spec hR h.remLoc h.bounded
  simp only [handleChunk, if_neg hfew, tryGetMsg]
  generalize tryBlock R s = res at htry
  cases htry with
  | more s' hf hkeeps hleft hres hbounded hneed =>
    exact Or.inr ⟨s', rfl, h.waiting hkeeps hf hleft hres hbounded hneed, hkeeps.withFd, hres⟩
  | fail e rest s' hf hkeeps hleft =>
    refine Or.inl ⟨_, _, _, rfl, .failed e (rest ++ sock.input) _ _ ?_⟩
    rw [InState.decode_append R _ _ _ _ (by rw [hf]; simp), hf]
    rfl
  | panic s' hf hkeeps hres hbounded =>
    refine Or.inl ⟨_, _, _, rfl, .panicked _ _ ?_⟩
    rw [InState.decode_append R _ _ _ _ (by rw [hf]; simp), hf]
    rfl
  | raw msg rest s' hf hkeeps hstate hleft hfds =>
    have hd : s.inState.decode R s.withFd (s.leftover ++ sock.input) =
        .raw msg (s'.leftover ++ sock.input) := by
      rw [InState.decode_append R _ _ _ _ (by rw [hf]; simp), hf, hleft]
      rfl
    have hready := h.next hkeeps hstate
    have hcleared : { s' with inFds := [] } = s' := by
      obtain ⟨st, fds, rem, loc, fd, cap⟩ := s'
      simp only [RecvState.mk.injEq, true_and, and_true]
      exact hready.noFds.symm
    dsimp only
    rw [hready.noFds, List.length_nil, hcleared]
    by_cases hzero : (msg.2.1.numFds.getD 0).toNat = 0
    · rw [if_neg (by simp [hzero])]
      rcases deliver_eq_outcome (R := R) msg s.withFd s' sock hzero with
        ⟨m, hout, hdel⟩ | ⟨e, hout, hdel⟩
      · rw [hdel]
        exact Or.inl ⟨_, _, _, rfl, .message msg m _ _ hready hkeeps.withFd hself hd hout hstate⟩
      · rw [hdel]
        exact Or.inl ⟨_, _, _, rfl, .refused msg _ e _ _ hd hout⟩
    · rw [if_pos (fun heq => hzero heq.symm)]
      have hfd : s.withFd = true := by
        by_contra hfd
        rw [hfds (by simpa using hfd)] at hzero
        exact hzero rfl
      refine Or.inl ⟨_, _, _, rfl, .refused msg _ .unexpectedFds _ _ hd ?_⟩
      rw [outcome, if_pos ⟨hfd, hzero⟩]

/-- **The loop of `get_next_message` follows the decoding.**

**Proof sketch.** Induction on the answers of the socket.  A chunk extends the parser state by
what it needs and fills `remaining` with the rest, so the decoding in front of the receiver is
the same as before, cut at another place; then `try_get_msg` follows it. -/
lemma recvLoop_spec (hR : R.ReadsFixedPart) (script : List RecvEvent) (s : RecvState)
    (input : Bytes) (hwait : s.Waiting R) (hscript : IsSchedule s.withFd script) :
    CallSpec R s.withFd ⟨input, script, false⟩ (s.inState.decode R s.withFd input)
      (recvLoop R script s input) := by
  induction script generalizing s input with
  | nil => exact hwait.blocked ⟨rfl, hscript, le_refl _, le_refl _, id⟩ rfl (Or.inl rfl)
  | cons ev script ih =>
    cases ev with
    | eof => exact absurd (hscript .eof (by simp)) (by simp [RecvEvent.delivers])
    | err => exact absurd (hscript .err (by simp)) (by simp [RecvEvent.delivers])
    | wouldBlock =>
      exact hwait.blocked (onSchedule_tail hscript (by simp [deliveries])) rfl (Or.inr (by simp))
    | data n fds =>
      have hfds : s.withFd = true → fds = [] := by
        intro hfd
        simpa [RecvEvent.delivers, hfd] using hscript (.data n fds) (by simp)
      have htail : IsSchedule s.withFd script := fun e he => hscript e (by simp [he])
      have hneed := hwait.need
      have hoffered : 0 < s.offered := by
        simp only [offered]
        split_ifs <;> omega
      obtain ⟨gotten, hgotten⟩ : ∃ k, k = min (n + 1) (min s.offered input.length) := ⟨_, rfl⟩
      simp only [recvLoop, ← hgotten]
      split_ifs with hzero
      · -- nothing is left to receive
        have hempty : input = [] := List.length_eq_zero_iff.mp (by omega)
        subst hempty
        exact hwait.blocked (onSchedule_tail hscript (by simp)) rfl (Or.inr (by simp))
      · have hsock : OnSchedule s.withFd ⟨input, .data n fds :: script, false⟩
            ⟨input.drop gotten, script, false⟩ := by
          refine ⟨rfl, htail, by simp, by simp, fun hc => ?_⟩
          simp only [deliveries, List.countP_cons, List.length_drop] at hc ⊢
          simp only [if_true] at hc
          omega
        obtain ⟨hready, hdecode⟩ := receive_spec hwait (input.take gotten) fds
          (by rw [List.length_take]; omega) hfds
        have hsame := hdecode (input.drop gotten)
        rw [List.take_append_drop] at hsame
        rw [← hsame]
        rcases handleChunk_spec hR hready ⟨input.drop gotten, script, false⟩ rfl htail with
          ⟨r, s', sock', heq, hspec⟩ | ⟨s', heq, hwait', hfd, hres⟩
        · rw [heq]
          exact hspec.of_onSchedule hsock (by simp)
        · rw [heq]
          have hloop := ih s' (input.drop gotten) hwait' (by rw [hfd]; exact htail)
          rw [hfd] at hloop
          rw [show (s.receive (input.take gotten) fds).withFd = s.withFd from rfl] at hres hloop
          rw [← hres]
          exact hloop.of_onSchedule hsock (by simp)

/-- A receiver between two calls.  With descriptors nothing is read ahead, so the parser has
nothing to return before it reads. -/
structure Idle (R : Rustbus) (s : RecvState) : Prop extends s.Ready where
  idle : s.withFd = true → s.inState.decode R s.withFd [] = .more

/-- A ready receiver at the start of a message is between two calls. -/
lemma Ready.idle {s : RecvState} (h : s.Ready) (hstate : s.inState = .header []) : s.Idle R :=
  ⟨h, fun _ => by rw [hstate]; rfl⟩

/-- **One call of `get_next_message` follows the decoding** of the bytes in front of the
receiver: those left in `remaining` and those still to come.

**Proof sketch.** The cases of the parser on what is left (`tryBlock_spec`). If it needs more, the
loop goes on with a receiver that waits (`recvLoop_spec`). If it fails or panics, so does the
decoding of all bytes. If it has a message already, the receiver reads ahead, so that no descriptors
are asked for, and the message is delivered as `outcome` says. -/
theorem getNextMessage_spec (hR : R.ReadsFixedPart) {s : RecvState} (h : s.Idle R) {sock : Socket}
    (hshut : sock.shut = false) (hscript : IsSchedule s.withFd sock.script) :
    CallSpec R s.withFd sock (s.inState.decode R s.withFd (s.leftover ++ sock.input))
      (getNextMessage R s sock) := by
  have hself : OnSchedule s.withFd sock sock := ⟨hshut, hscript, le_refl _, le_refl _, id⟩
  have htry := tryBlock_spec hR h.remLoc h.bounded
  simp only [getNextMessage, tryGetMsg]
  generalize tryBlock R s = res at htry
  cases htry with
  | more s' hf hkeeps hleft hres hbounded hneed =>
    have hwait := h.toReady.waiting hkeeps hf hleft hres hbounded hneed
    have hloop := recvLoop_spec hR sock.script s' sock.input hwait
      (by rw [hkeeps.withFd]; exact hscript)
    rw [hkeeps.withFd, hres] at hloop
    obtain ⟨input, script, shut⟩ := sock
    simp only at hshut
    subst hshut
    exact hloop
  | fail e rest s' hf hkeeps hleft =>
    refine .failed e (rest ++ sock.input) _ _ ?_
    rw [InState.decode_append R _ _ _ _ (by rw [hf]; simp), hf]
    rfl
  | panic s' hf hkeeps hres hbounded =>
    refine .panicked _ _ ?_
    rw [InState.decode_append R _ _ _ _ (by rw [hf]; simp), hf]
    rfl
  | raw msg rest s' hf hkeeps hstate hleft hfds =>
    have hd : s.inState.decode R s.withFd (s.leftover ++ sock.input) =
        .raw msg (s'.leftover ++ sock.input) := by
      rw [InState.decode_append R _ _ _ _ (by rw [hf]; simp), hf, hleft]
      rfl
    -- a buffered message exists only where the receiver reads ahead
    have hfd : s.withFd = false := by
      by_contra hfd
      have hfd' : s.withFd = true := by simpa using hfd
      have hempty : s.leftover = [] := by simp [leftover, h.noReadAhead hfd']
      rw [hempty, h.idle hfd'] at hf
      cases hf
    have hzero : (msg.2.1.numFds.getD 0).toNat = 0 := by
      rw [hfds hfd]
      rfl
    dsimp only
    rcases deliver_eq_outcome (R := R) msg s.withFd s' sock hzero with
      ⟨m, hout, hdel⟩ | ⟨e, hout, hdel⟩
    · rw [hdel]
      exact .message msg m _ _ (h.toReady.next hkeeps hstate) hkeeps.withFd hself hd hout hstate
    · rw [hdel]
      exact .refused msg _ e _ _ hd hout

/-! ## A sequence of calls -/

/-- The results that are still to come. -/
def toCome (R : Rustbus) (s : RecvState) (sock : Socket) : List (Res RecvError MarshalledMessage) :=
  emit R s.withFd (decodeStream R s.withFd)
    (s.inState.decode R s.withFd (s.leftover ++ sock.input))

/-- For a new receiver these are the results of one-pass decoding. -/
lemma toCome_new (R : Rustbus) (withFd : Bool) (remCap : ℕ) (sock : Socket) :
    (new withFd remCap).toCome R sock = decodeStream R withFd sock.input := by
  rw [decodeStream_eq]
  rfl

/-- A message is returned, or refused with a protocol violation. -/
lemma isViolation_of_outcome {withFd : Bool} {raw : RawMessage} {e : RecvError}
    (h : outcome R withFd raw = .err e) : e.isViolation = true := by
  unfold outcome at h
  split_ifs at h
  · cases h
    rfl
  · cases hval : (mmFromRaw raw []).body.validate R with
    | ok u => simp [hval] at h
    | error e' =>
      simp only [hval, Res.err.injEq] at h
      rw [← h]
      rfl

/-- What one call means for the results to come. -/
inductive CallStep (R : Rustbus) (s : RecvState) (sock : Socket) :
    Res RecvError MarshalledMessage × RecvState × Socket → Prop
  | blocked (s' : RecvState) (sock' : Socket) (hidle : s'.Idle R) (hfd : s'.withFd = s.withFd)
      (hsock : OnSchedule s.withFd sock sock') (hsame : s'.toCome R sock' = s.toCome R sock)
      (hnil : sock'.input = [] → s'.toCome R sock' = [])
      (hless : sock.script = [] ∨ sock'.script.length < sock.script.length) :
      CallStep R s sock (.err .wouldBlock, s', sock')
  | message (msg : MarshalledMessage) (s' : RecvState) (sock' : Socket) (hidle : s'.Idle R)
      (hfd : s'.withFd = s.withFd) (hsock : OnSchedule s.withFd sock sock')
      (hnext : s.toCome R sock = .ok msg :: s'.toCome R sock') :
      CallStep R s sock (.ok msg, s', sock')
  | stopped (r : Res RecvError MarshalledMessage) (s' : RecvState) (sock' : Socket)
      (hmsg : ∀ msg, r ≠ .ok msg) (hblock : r ≠ .err .wouldBlock) (hlast : s.toCome R sock = [r]) :
      CallStep R s sock (r, s', sock')

/-- One call takes the next result, if it can.

**Proof sketch.** Each outcome of `getNextMessage_spec` is one of `CallStep`: a call that blocks
leaves what is to come as it is, a message is the first of what is to come, and an error or a panic
is the last of it. An error of the decoding is a violation, so it is not `WouldBlock`. -/
lemma getNextMessage_step (hR : R.ReadsFixedPart) {s : RecvState} (h : s.Idle R) {sock : Socket}
    (hshut : sock.shut = false) (hscript : IsSchedule s.withFd sock.script) :
    CallStep R s sock (getNextMessage R s sock) := by
  have hcall := getNextMessage_spec hR h hshut hscript
  have hne : ∀ e : RecvError, e.isViolation = true →
      (.err e : Res RecvError MarshalledMessage) ≠ .err .wouldBlock := by
    rintro e he heq
    cases heq
    cases he
  generalize hres : getNextMessage R s sock = res at hcall
  cases hcall with
  | blocked s' sock' hready hfd hsock hd hidle hless =>
    refine .blocked s' sock' ⟨hready, fun _ => ?_⟩ hfd hsock ?_ (fun hnil => ?_) hless
    · rw [hfd]
      exact hidle.2
    · rw [toCome, toCome, hfd, hd]
    · rw [toCome, hfd, hidle.1, hnil, List.append_nil, hidle.2]
      rfl
  | message raw msg s' sock' hready hfd hsock hd hmsg hstate =>
    refine .message msg s' sock' (hready.idle hstate) hfd hsock ?_
    rw [toCome, hd, emit, hmsg, toCome, hstate, hfd]
    simp only [InState.decode, List.nil_append, ← decodeStream_eq]
  | refused raw rest e s' sock' hd hmsg =>
    refine .stopped _ s' sock' (by simp) (hne e (isViolation_of_outcome hmsg)) ?_
    rw [toCome, hd, emit, hmsg]
  | failed e rest s' sock' hd =>
    have hv := RecvError.isViolation_of_shutsDown (InState.shutsDown_of_decode hd)
    refine .stopped _ s' sock' (by simp) (hne e hv) ?_
    rw [toCome, hd]
    rfl
  | panicked s' sock' hd =>
    refine .stopped _ s' sock' (by simp) (by simp) ?_
    rw [toCome, hd]
    rfl

/-- A call that stops the run. -/
lemma receiveAll_succ_of_stopped (R : Rustbus) (n : ℕ) {s s' : RecvState} {sock sock' : Socket}
    {r : Res RecvError MarshalledMessage} (hcall : getNextMessage R s sock = (r, s', sock'))
    (hmsg : ∀ msg, r ≠ .ok msg) (hblock : r ≠ .err .wouldBlock) :
    receiveAll R (n + 1) s sock = ([r], s', sock') := by
  rw [receiveAll, hcall]
  cases r with
  | ok msg => exact absurd rfl (hmsg msg)
  | err e => cases e <;> first | rfl | exact absurd rfl hblock
  | panic => rfl

/-- **A sequence of calls follows the decoding**: it returns all that was to come and ends with
an error, or it returns messages from the front of it and the rest is still to come.

**Proof sketch.** Induction on the number of calls, by `getNextMessage_step`. -/
theorem receiveAll_spec (hR : R.ReadsFixedPart) (n : ℕ) {s : RecvState} (h : s.Idle R)
    (sock : Socket) (hshut : sock.shut = false) (hscript : IsSchedule s.withFd sock.script) :
    ((∃ r ∈ (receiveAll R n s sock).1, ∀ msg, r ≠ .ok msg) ∧
      s.toCome R sock = (receiveAll R n s sock).1) ∨
    ((∀ r ∈ (receiveAll R n s sock).1, ∃ msg, r = .ok msg) ∧
      (receiveAll R n s sock).2.1.Idle R ∧
      (receiveAll R n s sock).2.1.withFd = s.withFd ∧
      OnSchedule s.withFd sock (receiveAll R n s sock).2.2 ∧
      s.toCome R sock = (receiveAll R n s sock).1 ++
        (receiveAll R n s sock).2.1.toCome R (receiveAll R n s sock).2.2) := by
  induction n generalizing s sock with
  | zero =>
    refine Or.inr ⟨by simp [receiveAll], h, rfl, ⟨hshut, hscript, le_refl _, le_refl _, id⟩, ?_⟩
    simp [receiveAll]
  | succ n ih =>
    have hstep := getNextMessage_step hR h hshut hscript
    generalize hres : getNextMessage R s sock = res at hstep
    cases hstep with
    | blocked s' sock' hidle hfd hsock hsame hnil hless =>
      have heq : receiveAll R (n + 1) s sock = receiveAll R n s' sock' := by
        simp only [receiveAll, hres]
      rw [heq, ← hsame]
      rcases ih hidle sock' hsock.shut (by rw [hfd]; exact hsock.schedule) with
        hstop | ⟨hall, hidle', hfd', hsock', hrest⟩
      · exact Or.inl hstop
      · rw [hfd] at hfd' hsock'
        exact Or.inr ⟨hall, hidle', hfd', hsock.trans hsock', hrest⟩
    | message msg s' sock' hidle hfd hsock hnext =>
      have heq : receiveAll R (n + 1) s sock =
          (.ok msg :: (receiveAll R n s' sock').1, (receiveAll R n s' sock').2) := by
        simp only [receiveAll, hres]
      rw [heq, hnext]
      rcases ih hidle sock' hsock.shut (by rw [hfd]; exact hsock.schedule) with
        ⟨⟨r, hr, hmsg⟩, hrest⟩ | ⟨hall, hidle', hfd', hsock', hrest⟩
      · exact Or.inl ⟨⟨r, List.mem_cons_of_mem _ hr, hmsg⟩, by rw [hrest]⟩
      · rw [hfd] at hfd' hsock'
        refine Or.inr ⟨fun r hr => ?_, hidle', hfd', hsock.trans hsock', ?_⟩
        · rcases List.mem_cons.mp hr with rfl | hr
          · exact ⟨msg, rfl⟩
          · exact hall r hr
        · rw [hrest, List.cons_append]
    | stopped r s' sock' hmsg hblock hlast =>
      rw [receiveAll_succ_of_stopped R n hres hmsg hblock]
      exact Or.inl ⟨⟨r, by simp, hmsg⟩, hlast⟩

/-- At rest nothing is to come. -/
lemma receiveAll_of_atRest (hR : R.ReadsFixedPart) (n : ℕ) {s : RecvState} (h : s.Idle R)
    (sock : Socket) (hshut : sock.shut = false) (hscript : IsSchedule s.withFd sock.script)
    (hrest : AtRest R (receiveAll R n s sock)) :
    (receiveAll R n s sock).1 = s.toCome R sock := by
  rcases receiveAll_spec hR n h sock hshut hscript with
    ⟨-, hall⟩ | ⟨hall, hidle, hfd, hsock, htoCome⟩
  · exact hall.symm
  · rcases hrest with ⟨r, hr, hmsg⟩ | ⟨hinput, hblock⟩
    · obtain ⟨msg, rfl⟩ := hall r hr
      exact absurd rfl (hmsg msg)
    · have hstep := getNextMessage_step hR hidle hsock.shut (by rw [hfd]; exact hsock.schedule)
      generalize hres : getNextMessage R (receiveAll R n s sock).2.1
        (receiveAll R n s sock).2.2 = res at hstep hblock
      cases hstep with
      | blocked s' sock' hidle' hfd' hsock' hsame hnil hless =>
        have hlen := hsock'.input
        rw [hinput, List.length_nil, Nat.le_zero, List.length_eq_zero_iff] at hlen
        rw [htoCome, ← hsame, hnil hlen, List.append_nil]
      | message msg s' sock' _ _ _ _ => cases hblock
      | stopped r s' sock' _ hne _ => exact absurd hblock hne

/-- A receiver with nothing to come stays at rest when the schedule is used up. -/
lemma atRest_of_empty (hR : R.ReadsFixedPart) (n : ℕ) {s : RecvState} (h : s.Idle R)
    (sock : Socket) (hshut : sock.shut = false) (hscript : IsSchedule s.withFd sock.script)
    (hcovers : sock.input.length ≤ deliveries sock.script) (hempty : sock.script = [])
    (hnil : sock.input = [] → s.toCome R sock = []) : AtRest R (receiveAll R n s sock) := by
  have hinput : sock.input = [] := by
    rw [hempty] at hcovers
    exact List.length_eq_zero_iff.mp (Nat.le_zero.mp hcovers)
  rcases receiveAll_spec hR n h sock hshut hscript with
    ⟨hstop, -⟩ | ⟨-, hidle, hfd, hsock, htoCome⟩
  · exact Or.inl hstop
  · have hinput' := hsock.input
    rw [hinput, List.length_nil, Nat.le_zero, List.length_eq_zero_iff] at hinput'
    refine Or.inr ⟨hinput', ?_⟩
    rw [hnil hinput] at htoCome
    have hnone := (List.append_eq_nil_iff.mp htoCome.symm).2
    have hstep := getNextMessage_step hR hidle hsock.shut (by rw [hfd]; exact hsock.schedule)
    generalize getNextMessage R (receiveAll R n s sock).2.1 (receiveAll R n s sock).2.2 = res
      at hstep
    cases hstep with
    | blocked s' sock' _ _ _ _ _ _ => rfl
    | message msg s' sock' _ _ _ hnext => simp [hnone] at hnext
    | stopped r s' sock' _ _ hlast => simp [hnone] at hlast

/-- A schedule whose deliveries cover the bytes to come brings the receiver to rest.

**Proof sketch.** By induction on the number of calls, which exceeds the deliveries and the messages
together. A call that blocks uses up a delivery, unless nothing is to be read, and then the receiver
is at rest (`atRest_of_empty`); a message shortens what is to come, and any other result is the
last. -/
lemma atRest_receiveAll (hR : R.ReadsFixedPart) (n : ℕ) {s : RecvState} (h : s.Idle R)
    (sock : Socket) (hshut : sock.shut = false) (hscript : IsSchedule s.withFd sock.script)
    (hcovers : sock.input.length ≤ deliveries sock.script)
    (hn : sock.script.length + (s.toCome R sock).length < n) :
    AtRest R (receiveAll R n s sock) := by
  induction n generalizing s sock with
  | zero => omega
  | succ n ih =>
    have hstep := getNextMessage_step hR h hshut hscript
    generalize hres : getNextMessage R s sock = res at hstep
    cases hstep with
    | blocked s' sock' hidle hfd hsock hsame hnil hless =>
      have heq : receiveAll R (n + 1) s sock = receiveAll R n s' sock' := by
        simp only [receiveAll, hres]
      have hschedule : IsSchedule s'.withFd sock'.script := by
        rw [hfd]
        exact hsock.schedule
      rw [heq]
      rcases hless with hempty | hless
      · exact atRest_of_empty hR n hidle sock' hsock.shut hschedule (hsock.covers hcovers)
          (List.length_eq_zero_iff.mp (by have := hsock.length; simp_all)) hnil
      · exact ih hidle sock' hsock.shut hschedule (hsock.covers hcovers) (by rw [hsame]; omega)
    | message msg s' sock' hidle hfd hsock hnext =>
      have heq : receiveAll R (n + 1) s sock =
          (.ok msg :: (receiveAll R n s' sock').1, (receiveAll R n s' sock').2) := by
        simp only [receiveAll, hres]
      have hlen := hsock.length
      rw [hnext, List.length_cons] at hn
      rw [heq]
      rcases ih hidle sock' hsock.shut (by rw [hfd]; exact hsock.schedule) (hsock.covers hcovers)
        (by omega) with ⟨r, hr, hmsg⟩ | hrest
      · exact Or.inl ⟨r, List.mem_cons_of_mem _ hr, hmsg⟩
      · exact Or.inr hrest
    | stopped r s' sock' hmsg hblock hlast =>
      rw [receiveAll_succ_of_stopped R n hres hmsg hblock]
      exact Or.inl ⟨r, by simp, hmsg⟩

/-- **Chunking invariance.**  Whatever a schedule delivers first, the results of
`get_next_message` are a first part of one-pass decoding; two schedules that deliver everything
give the same results, those of one-pass decoding; and a schedule with as many deliveries as
there are bytes delivers everything.

**Proof sketch.** `receiveAll_spec` for a new receiver, of which everything is still to come: the
results are all of it or a first part. At rest they are all of it (`receiveAll_of_atRest`), so two
schedules agree; and `atRest_receiveAll` says when a schedule brings the receiver there. -/
theorem receiveAll_chunking (hR : R.ReadsFixedPart) (remCap : ℕ) (S : Bytes) :
    (∀ script n, IsSchedule false script →
      (receiveAll R n (new false remCap) ⟨S, script, false⟩).1 <+: decodeStream R false S) ∧
    (∀ script n script' n', IsSchedule false script → IsSchedule false script' →
      AtRest R (receiveAll R n (new false remCap) ⟨S, script, false⟩) →
      AtRest R (receiveAll R n' (new false remCap) ⟨S, script', false⟩) →
      (receiveAll R n (new false remCap) ⟨S, script, false⟩).1 =
          (receiveAll R n' (new false remCap) ⟨S, script', false⟩).1 ∧
        (receiveAll R n (new false remCap) ⟨S, script, false⟩).1 = decodeStream R false S) ∧
    ∀ script n, IsSchedule false script → S.length ≤ deliveries script →
      script.length + (decodeStream R false S).length < n →
      AtRest R (receiveAll R n (new false remCap) ⟨S, script, false⟩) := by
  have hidle : (new false remCap).Idle R := (ready_new false remCap).idle rfl
  have htoCome : ∀ script, (new false remCap).toCome R ⟨S, script, false⟩ =
      decodeStream R false S := fun script => toCome_new R false remCap _
  refine ⟨fun script n hs => ?_, fun script n script' n' hs hs' hr hr' => ?_,
    fun script n hs hlen hn => ?_⟩
  · rw [← htoCome script]
    rcases receiveAll_spec hR n hidle ⟨S, script, false⟩ rfl hs with
      ⟨-, hall⟩ | ⟨-, -, -, -, hrest⟩
    · rw [hall]
    · exact ⟨_, hrest.symm⟩
  · have h := receiveAll_of_atRest hR n hidle ⟨S, script, false⟩ rfl hs hr
    have h' := receiveAll_of_atRest hR n' hidle ⟨S, script', false⟩ rfl hs' hr'
    rw [htoCome] at h h'
    exact ⟨h.trans h'.symm, h⟩
  · exact atRest_receiveAll hR n hidle ⟨S, script, false⟩ rfl hs hlen (by rw [htoCome]; exact hn)

/-- Two signals without fields, cut inside the first fixed header and then delivered at once, or
delivered byte by byte at first. -/
theorem receiveAll_chunking_signals :
    let S : Bytes := [108, 4, 0, 1, 0, 0, 0, 0, 7, 0, 0, 0, 0, 0, 0, 0,
      108, 4, 0, 1, 0, 0, 0, 0, 8, 0, 0, 0, 0, 0, 0, 0]
    let run := receiveAll .reference 5 (new false 4096)
      ⟨S, [.data 4 [], .wouldBlock, .data 40 []], false⟩
    let run' := receiveAll .reference 8 (new false 4096)
      ⟨S, [.data 0 [], .data 0 [], .data 12 [], .wouldBlock, .data 1 [], .data 40 []], false⟩
    run.1.length = 2 ∧ run.1 = run'.1 ∧ run.1 = decodeStream .reference false S :=
  ⟨by decide, (receiveAll_chunking Reference.readsFixedPart 4096 _).2.1 _ 5 _ 8 (by decide)
    (by decide) (Or.inr ⟨by decide, by decide⟩) (Or.inr ⟨by decide, by decide⟩)⟩

end RecvState

end AsyncRustbus
