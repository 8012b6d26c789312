import AsyncRustbus.Conn.RoundTrip

set_option relaxedAutoImplicit false
set_option autoImplicit false

/-!
# After a protocol violation

Once `get_next_message` has returned an error caused by what was received, nothing should be
returned any more.  The code shuts the stream down after most violations, but it keeps what it
has read ahead, and it does not shut the stream down after a wrong number of descriptors.  So a
violation ends the stream exactly when the stream was shut down and the read-ahead buffer holds
no message.

## Main definitions

* `AsyncRustbus.RecvState.afterCalls`, `AsyncRustbus.RecvState.callResult` — sequences of calls.
* `AsyncRustbus.holdsMessage` — a byte string holds a message that would be returned, where
  decoding restarts behind each violation.

## Main results

* `AsyncRustbus.RecvState.getNextMessage_afterCall` — what a call leaves behind, whatever the
  socket does.
* `AsyncRustbus.RecvState.afterCalls_readAhead` — which bytes are read ahead.
* `AsyncRustbus.RecvState.violation_ends_iff` — when a violation ends the stream.
-/

namespace AsyncRustbus

/-! ## What the read-ahead buffer holds -/

/-- Whether a message is found, with a bound on the number of violations skipped. -/
def holdsMessageFuel (R : Rustbus) (withFd : Bool) : ℕ → Bytes → Bool
  | 0, _ => false
  | fuel + 1, bytes =>
    match decodeRaw R withFd bytes with
    | .more => false
    | .panic => false
    | .fail _ rest => holdsMessageFuel R withFd fuel rest
    | .raw raw rest =>
      match (RecvState.mmFromRaw raw []).body.validate R with
      | .ok _ => true
      | .error _ => holdsMessageFuel R withFd fuel rest

/-- A byte string holds a message: decoding it, and restarting behind each violation, finds a
message with a valid body. -/
def holdsMessage (R : Rustbus) (withFd : Bool) (bytes : Bytes) : Bool :=
  holdsMessageFuel R withFd bytes.length bytes

/-- A larger bound changes nothing.

**Proof sketch.** By induction on the fuel. An error and a refused body both go on with the rest,
which is shorter (`decodeRaw_restLt`); every other result ends the search. -/
lemma holdsMessageFuel_eq (R : Rustbus) (withFd : Bool) (fuel fuel' : ℕ) (bytes : Bytes)
    (h : bytes.length ≤ fuel) (h' : bytes.length ≤ fuel') :
    holdsMessageFuel R withFd fuel bytes = holdsMessageFuel R withFd fuel' bytes := by
  induction fuel generalizing fuel' bytes with
  | zero =>
    have hnil : bytes = [] := List.length_eq_zero_iff.mp (by omega)
    subst hnil
    cases fuel' <;> rfl
  | succ fuel ih =>
    cases fuel' with
    | zero =>
      have hnil : bytes = [] := List.length_eq_zero_iff.mp (by omega)
      subst hnil
      rfl
    | succ fuel' =>
      have hrest := decodeRaw_restLt R withFd bytes
      simp only [holdsMessageFuel]
      cases hd : decodeRaw R withFd bytes with
      | more => rfl
      | panic => rfl
      | fail e rest =>
        simp only [hd, Decoded.RestLt] at hrest
        exact ih fuel' rest (by omega) (by omega)
      | raw raw rest =>
        simp only [hd, Decoded.RestLt] at hrest
        dsimp only
        cases (RecvState.mmFromRaw raw []).body.validate R with
        | ok u => rfl
        | error e => exact ih fuel' rest (by omega) (by omega)

/-- `holdsMessage` without fuel.

**Proof sketch.** One unfolding of the search. The rest is shorter than the bytes
(`decodeRaw_restLt`), so the fuel that is left is enough for it (`holdsMessageFuel_eq`). -/
lemma holdsMessage_eq (R : Rustbus) (withFd : Bool) (bytes : Bytes) :
    holdsMessage R withFd bytes =
      match decodeRaw R withFd bytes with
      | .more => false
      | .panic => false
      | .fail _ rest => holdsMessage R withFd rest
      | .raw raw rest =>
        match (RecvState.mmFromRaw raw []).body.validate R with
        | .ok _ => true
        | .error _ => holdsMessage R withFd rest := by
  have hrest := decodeRaw_restLt R withFd bytes
  rw [holdsMessage, holdsMessageFuel_eq R withFd bytes.length (bytes.length + 1) bytes (by omega)
    (by omega), holdsMessageFuel]
  cases hd : decodeRaw R withFd bytes with
  | more => rfl
  | panic => rfl
  | fail e rest =>
    simp only [hd, Decoded.RestLt] at hrest
    exact holdsMessageFuel_eq R withFd bytes.length rest.length rest (by omega) (by omega)
  | raw raw rest =>
    simp only [hd, Decoded.RestLt] at hrest
    dsimp only
    cases (RecvState.mmFromRaw raw []).body.validate R with
    | ok u => rfl
    | error e =>
      exact holdsMessageFuel_eq R withFd bytes.length rest.length rest (by omega) (by omega)

namespace RecvState

/-! ## Sequences of calls -/

/-- The receiver and the socket after `n` calls of `get_next_message`. -/
def afterCalls (R : Rustbus) : ℕ → RecvState → Socket → RecvState × Socket
  | 0, s, sock => (s, sock)
  | n + 1, s, sock => afterCalls R n (getNextMessage R s sock).2.1 (getNextMessage R s sock).2.2

/-- The result of call number `n`, counted from zero. -/
def callResult (R : Rustbus) (n : ℕ) (s : RecvState) (sock : Socket) :
    Res RecvError MarshalledMessage :=
  (getNextMessage R (afterCalls R n s sock).1 (afterCalls R n s sock).2).1

/-- The calls behind the first one. -/
lemma callResult_succ (R : Rustbus) (n : ℕ) (s : RecvState) (sock : Socket) :
    callResult R (n + 1) s sock =
      callResult R n (getNextMessage R s sock).2.1 (getNextMessage R s sock).2.2 := rfl

/-- One call more. -/
lemma afterCalls_succ (R : Rustbus) (n : ℕ) (s : RecvState) (sock : Socket) :
    afterCalls R (n + 1) s sock =
      (getNextMessage R (afterCalls R n s sock).1 (afterCalls R n s sock).2).2 := by
  induction n generalizing s sock with
  | zero => rfl
  | succ n ih => exact ih _ _

/-! ## What a call leaves behind -/

/-- The invariant of a receiver behind `recvmsg`. -/
structure Stored (s : RecvState) : Prop where
  remLoc : s.remLoc ≤ s.remaining.length
  bounded : s.inState.Bounded s.withFd
  noReadAhead : s.withFd = true → s.remaining = []
  noFds : s.withFd = false → s.inFds = []

/-- The invariant of a receiver between two calls: with descriptors no complete message is
buffered. -/
structure Sound (R : Rustbus) (s : RecvState) : Prop extends s.Stored where
  quiet : s.withFd = true → ∀ raw rest, s.inState.decode R s.withFd [] ≠ .raw raw rest

/-- The receiver is at the start of a message and holds no descriptors. -/
structure Ended (s : RecvState) : Prop extends s.Stored where
  state : s.inState = .header []
  fds : s.inFds = []

variable {R : Rustbus}

/-- A receiver at the start of a message is between two calls. -/
lemma Stored.sound {s : RecvState} (h : s.Stored) (hstate : s.inState = .header []) :
    s.Sound R := by
  refine ⟨h, fun _ raw rest hd => ?_⟩
  rw [hstate] at hd
  cases hd

/-- The invariant does not depend on the parser state, as long as that is bounded. -/
lemma Stored.of_keeps {s s' : RecvState} (h : s.Stored) (hkeeps : s.Keeps s')
    (hbounded : s'.inState.Bounded s.withFd) : s'.Stored := by
  refine ⟨hkeeps.remLoc, ?_, fun hfd => ?_, fun hfd => ?_⟩
  · rw [hkeeps.withFd]
    exact hbounded
  · rw [hkeeps.remaining]
    exact h.noReadAhead (hkeeps.withFd.symm.trans hfd)
  · rw [hkeeps.inFds]
    exact h.noFds (hkeeps.withFd.symm.trans hfd)

/-- What `try_get_msg` leaves behind. -/
inductive TryLeaves (R : Rustbus) (s : RecvState) (sock : Socket) :
    Res RecvError (Option RawMessage) × RecvState × Socket → Prop
  | more (s' : RecvState) (hsound : s'.Sound R) (hfd : s'.withFd = s.withFd) :
      TryLeaves R s sock (.ok none, s', sock)
  | panic (s' : RecvState) (hsound : s'.Sound R) (hfd : s'.withFd = s.withFd) :
      TryLeaves R s sock (.panic, s', sock)
  | fail (e : RecvError) (s' : RecvState) (hend : s'.Ended) (hfd : s'.withFd = s.withFd)
      (hshut : e.shutsDown = true) : TryLeaves R s sock (.err e, s', sock.shutdown)
  | raw (msg : RawMessage) (s' : RecvState) (hstored : s'.Stored)
      (hstate : s'.inState = .header []) (hfd : s'.withFd = s.withFd)
      (hfds : s.withFd = false → msg.2.1.numFds.getD 0 = 0)
      (hd : ∃ rest, s.inState.decode R s.withFd s.leftover = .raw msg rest) :
      TryLeaves R s sock (.ok (some msg), s', sock)

/-- `try_get_msg` keeps the invariant; an error leaves a receiver at the start of a message and
a stream that is shut down. -/
lemma tryGetMsg_leaves (hR : R.ReadsFixedPart) {s : RecvState} (h : s.Stored) (sock : Socket) :
    TryLeaves R s sock (tryGetMsg R s sock) := by
  have htry := tryBlock_spec hR h.remLoc h.bounded
  rw [tryGetMsg]
  generalize tryBlock R s = res at htry
  cases htry with
  | more s' hf hkeeps hleft hres hbounded hneed =>
    refine .more s' ⟨h.of_keeps hkeeps hbounded, fun _ raw rest hd => ?_⟩ hkeeps.withFd
    rw [hkeeps.withFd, hres, List.append_nil, hf] at hd
    cases hd
  | fail e rest s' hf hkeeps hleft =>
    refine .fail e _ ⟨⟨hkeeps.remLoc, Nat.zero_le _, fun hfd => ?_, fun _ => rfl⟩, rfl, rfl⟩
      hkeeps.withFd (InState.shutsDown_of_decode hf)
    exact hkeeps.remaining.trans (h.noReadAhead (hkeeps.withFd.symm.trans hfd))
  | panic s' hf hkeeps hres hbounded =>
    refine .panic s' ⟨h.of_keeps hkeeps hbounded, fun _ raw rest hd => ?_⟩ hkeeps.withFd
    rw [hkeeps.withFd, hres] at hd
    cases hd
  | raw msg rest s' hf hkeeps hstate hleft hfds =>
    refine .raw msg s' (h.of_keeps hkeeps ?_) hstate hkeeps.withFd hfds ⟨rest, hf⟩
    rw [hstate]
    exact Nat.zero_le _

/-- What a call of `get_next_message` leaves behind: the receiver is between two calls; behind a
violation it is at the start of a message, and the stream is shut down unless the number of
descriptors was wrong. -/
structure AfterCall (R : Rustbus) (withFd : Bool)
    (res : Res RecvError MarshalledMessage × RecvState × Socket) : Prop where
  sound : res.2.1.Sound R
  sameFd : res.2.1.withFd = withFd
  ended : ∀ e, res.1 = .err e → e.isViolation = true → res.2.1.Ended
  shut : ∀ e, res.1 = .err e → e.isViolation = true → res.2.2.shut = e.shutsDown
  fds : ∀ e, res.1 = .err e → e.isViolation = true → e.shutsDown = false → withFd = true

/-- A call that returns something else than a violation. -/
private lemma afterCall_of_sound {withFd : Bool} {r : Res RecvError MarshalledMessage}
    {s' : RecvState} {sock' : Socket} (hsound : s'.Sound R) (hfd : s'.withFd = withFd)
    (hr : ∀ e, r = .err e → e.isViolation = false) : AfterCall R withFd (r, s', sock') := by
  refine ⟨hsound, hfd, fun e he hv => ?_, fun e he hv => ?_, fun e he hv => ?_⟩
  all_goals
    rw [hr e he] at hv
    cases hv

/-- A call that returns a violation. -/
private lemma afterCall_of_ended {withFd : Bool} {e : RecvError} {s' : RecvState}
    {sock' : Socket} (hend : s'.Ended) (hfd : s'.withFd = withFd) (hshut : sock'.shut = e.shutsDown)
    (hfds : e.shutsDown = false → withFd = true) : AfterCall R withFd (.err e, s', sock') := by
  refine ⟨hend.toStored.sound hend.state, hfd, fun _ _ _ => hend, fun e' he _ => ?_,
    fun e' he _ => ?_⟩
  · cases he
    exact hshut
  · cases he
    exact hfds

/-- Delivering a message keeps the receiver between two calls. -/
lemma deliver_afterCall {raw : RawMessage} {fds : List UnixFd} {s : RecvState} {sock : Socket}
    (h : s.Stored) (hstate : s.inState = .header []) (hfds : s.inFds = []) :
    AfterCall R s.withFd (deliver R raw fds s sock) := by
  rw [deliver]
  cases (mmFromRaw raw fds).body.validate R with
  | ok u => exact afterCall_of_sound (h.sound hstate) rfl (fun e he => by cases he)
  | error e =>
    exact afterCall_of_ended ⟨h, hstate, hfds⟩ rfl rfl (fun hne => by cases hne)

/-- Receiving a chunk keeps the invariant. -/
lemma receive_stored {s : RecvState} (h : s.Sound R) (chunk : Bytes) (fds : List UnixFd)
    (hlen : chunk.length ≤ s.offered) : (s.receive chunk fds).Stored := by
  refine ⟨Nat.zero_le _, bounded_extend h.bounded (by simp), fun hfd => ?_, fun hfd => ?_⟩
  · have hoffered : s.offered = s.inState.bytesNeededForNext := if_pos hfd
    exact List.drop_eq_nil_of_le (by omega)
  · have hoff : s.withFd = false := hfd
    simp only [receive, hoff]
    exact h.noFds hoff

/-- What a pass of the loop leaves behind.

**Proof sketch.** Too many descriptors end the call with a new parser and the stream open. Otherwise
by the outcome of `try_get_msg` (`tryGetMsg_leaves`): it waits for more, it fails or panics, or
there is a message, which is refused for a wrong number of descriptors or delivered
(`deliver_afterCall`). -/
lemma handleChunk_leaves (hR : R.ReadsFixedPart) {s : RecvState} (h : s.Stored) (sock : Socket)
    (hshut : sock.shut = false) :
    (∃ r s' sock', handleChunk R s sock = (some r, s', sock') ∧
      AfterCall R s.withFd (r, s', sock')) ∨
    ∃ s', handleChunk R s sock = (none, s', sock) ∧ s'.Sound R ∧ s'.withFd = s.withFd := by
  rw [handleChunk]
  split_ifs with hmany
  · -- too many descriptors: the stream stays open
    simp only [Bool.and_eq_true] at hmany
    refine Or.inl ⟨_, _, _, rfl, afterCall_of_ended ⟨⟨h.remLoc, Nat.zero_le _, h.noReadAhead,
      fun _ => rfl⟩, rfl, rfl⟩ rfl hshut fun _ => hmany.1⟩
  · have htry := tryGetMsg_leaves hR h sock
    generalize tryGetMsg R s sock = res at htry
    cases htry with
    | more s' hsound hfd => exact Or.inr ⟨s', rfl, hsound, hfd⟩
    | panic s' hsound hfd =>
      exact Or.inl ⟨_, _, _, rfl, afterCall_of_sound hsound hfd (fun e he => by cases he)⟩
    | fail e s' hend hfd hsd =>
      exact Or.inl ⟨_, _, _, rfl, afterCall_of_ended hend hfd hsd.symm
        (fun hne => by rw [hsd] at hne; cases hne)⟩
    | raw msg s' hstored hstate hfd hfds hd =>
      have hcleared : ({ s' with inFds := [] } : RecvState).Stored :=
        ⟨hstored.remLoc, hstored.bounded, hstored.noReadAhead, fun _ => rfl⟩
      dsimp only
      split_ifs with hne
      · -- a wrong number of descriptors: the stream stays open
        refine Or.inl ⟨_, _, _, rfl, afterCall_of_ended ⟨hcleared, hstate, rfl⟩ hfd hshut
          fun _ => ?_⟩
        by_contra hoff
        have hoff' : s.withFd = false := by simpa using hoff
        rw [hfds hoff', hstored.noFds (hfd.trans hoff')] at hne
        exact hne rfl
      · refine Or.inl ⟨_, _, _, rfl, ?_⟩
        rw [← hfd]
        exact deliver_afterCall hcleared hstate rfl

/-- What the loop of `get_next_message` leaves behind.

**Proof sketch.** Induction on the answers of the socket. -/
lemma recvLoop_afterCall (hR : R.ReadsFixedPart) (script : List RecvEvent) {s : RecvState}
    (input : Bytes) (h : s.Sound R) : AfterCall R s.withFd (recvLoop R script s input) := by
  have hclear : ∀ s : RecvState, s.Sound R →
      ({ s with remaining := [], remLoc := 0 } : RecvState).Sound R := fun s h =>
    ⟨⟨le_refl _, h.bounded, fun _ => rfl, h.noFds⟩, h.quiet⟩
  induction script generalizing s input with
  | nil => exact afterCall_of_sound (hclear s h) rfl (fun e he => by cases he; rfl)
  | cons ev script ih =>
    cases ev with
    | wouldBlock => exact afterCall_of_sound (hclear s h) rfl (fun e he => by cases he; rfl)
    | eof => exact afterCall_of_sound (hclear s h) rfl (fun e he => by cases he; rfl)
    | err => exact afterCall_of_sound (hclear s h) rfl (fun e he => by cases he; rfl)
    | data n fds =>
      simp only [recvLoop]
      split_ifs with hzero
      · exact afterCall_of_sound (hclear s h) rfl (fun e he => by cases he; rfl)
      · have hstored := receive_stored h (input.take (min (n + 1) (min s.offered input.length))) fds
          (by rw [List.length_take]; omega)
        rcases handleChunk_leaves hR hstored
          ⟨input.drop (min (n + 1) (min s.offered input.length)), script, false⟩ rfl with
          ⟨r, s', sock', heq, hafter⟩ | ⟨s', heq, hsound, hfd⟩
        · rw [heq]
          exact hafter
        · rw [heq]
          have hloop := ih (input.drop (min (n + 1) (min s.offered input.length))) hsound
          rw [hfd] at hloop
          exact hloop

/-- **What a call of `get_next_message` leaves behind**, whatever the socket does.

**Proof sketch.** By the outcome of `try_get_msg` on what is left (`tryGetMsg_leaves`). If it needs
more, the call ends on a stream that is shut down and goes on with the loop otherwise
(`recvLoop_afterCall`). If it has a message already, the receiver reads ahead, so no descriptors are
asked for, and the message is delivered. -/
theorem getNextMessage_afterCall (hR : R.ReadsFixedPart) {s : RecvState} (h : s.Sound R)
    (sock : Socket) : AfterCall R s.withFd (getNextMessage R s sock) := by
  have htry := tryGetMsg_leaves hR h.toStored sock
  rw [getNextMessage]
  generalize tryGetMsg R s sock = res at htry
  cases htry with
  | more s' hsound hfd =>
    dsimp only
    split_ifs with hshut
    · exact afterCall_of_sound ⟨⟨le_refl _, hsound.bounded, fun _ => rfl, hsound.noFds⟩,
        hsound.quiet⟩ hfd (fun e he => by cases he; rfl)
    · rw [← hfd]
      exact recvLoop_afterCall hR _ _ hsound
  | panic s' hsound hfd => exact afterCall_of_sound hsound hfd (fun e he => by cases he)
  | fail e s' hend hfd hsd =>
    exact afterCall_of_ended hend hfd hsd.symm (fun hne => by rw [hsd] at hne; cases hne)
  | raw msg s' hstored hstate hfd hfds hd =>
    obtain ⟨rest, hd⟩ := hd
    -- a buffered message exists only where the receiver reads ahead
    have hoff : s.withFd = false := by
      by_contra hon
      have hon' : s.withFd = true := by simpa using hon
      have hleft : s.leftover = [] := by simp [leftover, h.noReadAhead hon']
      rw [hleft] at hd
      exact h.quiet hon' _ _ hd
    dsimp only
    rw [← hfd]
    exact deliver_afterCall hstored hstate (hstored.noFds (hfd.trans hoff))

/-- A new receiver is between two calls. -/
lemma sound_new (R : Rustbus) (withFd : Bool) (remCap : ℕ) : (new withFd remCap).Sound R :=
  Stored.sound ⟨le_refl _, Nat.zero_le _, fun _ => rfl, fun _ => rfl⟩ rfl

/-- The invariant holds along every sequence of calls. -/
lemma afterCalls_sound (hR : R.ReadsFixedPart) (n : ℕ) {s : RecvState} (h : s.Sound R)
    (sock : Socket) :
    (afterCalls R n s sock).1.Sound R ∧ (afterCalls R n s sock).1.withFd = s.withFd := by
  induction n generalizing s sock with
  | zero => exact ⟨h, rfl⟩
  | succ n ih =>
    have hafter := getNextMessage_afterCall hR h sock
    obtain ⟨hsound, hfd⟩ := ih hafter.sound (getNextMessage R s sock).2.2
    exact ⟨hsound, hfd.trans hafter.sameFd⟩

/-! ## What is read ahead -/

/-- The `Finishing` branch leaves `remaining` as it is. -/
private lemma tryFinishing_remaining (s : RecvState) (hdr : Header) (dynhdr : DynamicHeader)
    (bodyBuf : Bytes) : (tryFinishing s hdr dynhdr bodyBuf).2.remaining = s.remaining := by
  unfold tryFinishing
  split <;> rfl

/-- The `DynHdr` branch leaves `remaining` as it is. -/
private lemma tryDynHdr_remaining (s : RecvState) (hdr : Header) (dynBuf : Bytes) :
    (tryDynHdr R s hdr dynBuf).2.remaining = s.remaining := by
  unfold tryDynHdr
  split
  · rfl
  · split
    · rfl
    · dsimp only
      split
      · rfl
      · rfl
      · exact tryFinishing_remaining _ _ _ _

/-- The parser leaves `remaining` as it is, in states too that `tryBlock_spec` says nothing of. -/
private lemma tryBlock_remaining (s : RecvState) :
    (tryBlock R s).2.remaining = s.remaining := by
  unfold tryBlock
  split
  · unfold tryHeader
    split
    · rfl
    · dsimp only
      split
      · rfl
      · exact tryDynHdr_remaining _ _ _
  · exact tryDynHdr_remaining _ _ _
  · exact tryFinishing_remaining _ _ _ _

/-- `try_get_msg` takes nothing from the socket. -/
private lemma tryGetMsg_readAhead (s : RecvState) (sock : Socket) :
    (tryGetMsg R s sock).2.1.remaining = s.remaining ∧
      (tryGetMsg R s sock).2.2.input = sock.input := by
  have hsame := tryBlock_remaining (R := R) s
  unfold tryGetMsg
  generalize tryBlock R s = res at hsame ⊢
  obtain ⟨(_ | raw) | e | _, s'⟩ := res
  all_goals exact ⟨hsame, rfl⟩

/-- Delivering a message takes nothing from the socket. -/
private lemma deliver_readAhead (raw : RawMessage) (fds : List UnixFd) (s : RecvState)
    (sock : Socket) : (deliver R raw fds s sock).2.1 = s ∧
      (deliver R raw fds s sock).2.2.input = sock.input := by
  unfold deliver
  dsimp only
  split
  · exact ⟨rfl, rfl⟩
  · exact ⟨rfl, rfl⟩

/-- A pass of the loop takes nothing further from the socket. -/
private lemma handleChunk_readAhead (s : RecvState) (sock : Socket) :
    (handleChunk R s sock).2.1.remaining = s.remaining ∧
      (handleChunk R s sock).2.2.input = sock.input := by
  unfold handleChunk
  split_ifs
  · exact ⟨rfl, rfl⟩
  · have htry := tryGetMsg_readAhead (R := R) s sock
    generalize tryGetMsg R s sock = res at htry ⊢
    obtain ⟨(_ | raw) | e | _, s', sock'⟩ := res
    · exact htry
    · dsimp only
      split_ifs
      · exact htry
      · obtain ⟨hstate, hinput⟩ := deliver_readAhead (R := R) raw s'.inFds
          { s' with inFds := [] } sock'
        exact ⟨(congrArg remaining hstate).trans htry.1, hinput.trans htry.2⟩
    · exact htry
    · exact htry

/-- What is read ahead in the loop was taken from the socket just before what it still holds.

**Proof sketch.** Induction on the answers of the socket.  A chunk fills the buffer of the parser
first, and what is left of it stands in front of the bytes that were not received. -/
private lemma recvLoop_readAhead (script : List RecvEvent) (s : RecvState) (input : Bytes) :
    (recvLoop R script s input).2.1.remaining ++ (recvLoop R script s input).2.2.input <:+
      input := by
  induction script generalizing s input with
  | nil => exact List.suffix_rfl
  | cons ev script ih =>
    cases ev with
    | wouldBlock => exact List.suffix_rfl
    | eof => exact List.suffix_rfl
    | err => exact List.suffix_rfl
    | data n fds =>
      simp only [recvLoop]
      split_ifs with hzero
      · exact List.suffix_rfl
      · obtain ⟨k, hk⟩ : ∃ k, k = min (n + 1) (min s.offered input.length) := ⟨_, rfl⟩
        rw [← hk]
        have hchunk := handleChunk_readAhead (R := R) (s.receive (input.take k) fds)
          ⟨input.drop k, script, false⟩
        generalize handleChunk R (s.receive (input.take k) fds) ⟨input.drop k, script, false⟩ = res
          at hchunk ⊢
        obtain ⟨_ | r, s', sock'⟩ := res
        · dsimp only at hchunk ⊢
          rw [hchunk.2]
          exact (ih s' (input.drop k)).trans (List.drop_suffix k input)
        · dsimp only at hchunk ⊢
          rw [hchunk.1, hchunk.2]
          obtain ⟨front, hfront⟩ := List.drop_suffix s.inState.bytesNeededForNext (input.take k)
          refine ⟨front, ?_⟩
          rw [show (s.receive (input.take k) fds).remaining =
              (input.take k).drop s.inState.bytesNeededForNext from rfl,
            ← List.append_assoc, hfront, List.take_append_drop]

/-- What a call leaves in `remaining` was taken from the socket just before what it still holds. -/
lemma getNextMessage_readAhead (s : RecvState) (sock : Socket) :
    (getNextMessage R s sock).2.1.remaining ++ (getNextMessage R s sock).2.2.input <:+
      s.remaining ++ sock.input := by
  have htry := tryGetMsg_readAhead (R := R) s sock
  unfold getNextMessage
  generalize tryGetMsg R s sock = res at htry ⊢
  obtain ⟨(_ | raw) | e | _, s', sock'⟩ := res
  · dsimp only at htry ⊢
    split_ifs
    · rw [← htry.2]
      exact List.suffix_append _ _
    · rw [← htry.2]
      exact (recvLoop_readAhead sock'.script s' sock'.input).trans (List.suffix_append _ _)
  · obtain ⟨hstate, hinput⟩ := deliver_readAhead (R := R) raw [] s' sock'
    dsimp only at htry ⊢
    rw [hstate, hinput, htry.1, htry.2]
  · dsimp only at htry ⊢
    rw [htry.1, htry.2]
  · dsimp only at htry ⊢
    rw [htry.1, htry.2]

/-- The bytes that were read ahead, after any calls. -/
theorem afterCalls_readAhead (n : ℕ) (s : RecvState) (sock : Socket) :
    (afterCalls R n s sock).1.remaining ++ (afterCalls R n s sock).2.input <:+
      s.remaining ++ sock.input := by
  induction n generalizing s sock with
  | zero => exact List.suffix_rfl
  | succ n ih => exact (ih _ _).trans (getNextMessage_readAhead s sock)

/-! ## A stream that is shut down -/

/-- A receiver that waits for bytes that never come, or that panics whatever comes. -/
structure Stuck (R : Rustbus) (s : RecvState) : Prop where
  remLoc : s.remLoc ≤ s.remaining.length
  bounded : s.inState.Bounded s.withFd
  never : (s.leftover = [] ∧ s.inState.decode R s.withFd [] = .more) ∨
    ∀ t, s.inState.decode R s.withFd t = .panic

/-- Where the parser needs more bytes or panics, the stream that is shut down gives no message,
and the receiver is stuck.

**Proof sketch.** Of the outcomes of `tryBlock_spec` two are left. If the parser needs more, the
stream that is shut down ends the call, and the same bytes are still too few the next time. If it
panics, it will panic again. -/
lemma getNextMessage_stuck (hR : R.ReadsFixedPart) {s : RecvState} {sock : Socket}
    (hloc : s.remLoc ≤ s.remaining.length) (hbounded : s.inState.Bounded s.withFd)
    (hshut : sock.shut = true)
    (hd : s.inState.decode R s.withFd s.leftover = .more ∨
      s.inState.decode R s.withFd s.leftover = .panic) :
    (∀ msg, (getNextMessage R s sock).1 ≠ .ok msg) ∧ (getNextMessage R s sock).2.1.Stuck R ∧
      (getNextMessage R s sock).2.2.shut = true := by
  have htry := tryBlock_spec hR hloc hbounded
  rw [getNextMessage, tryGetMsg]
  generalize tryBlock R s = res at htry
  cases htry with
  | more s' hf hkeeps hleft hres hbounded' hneed =>
    rw [← hkeeps.withFd] at hbounded'
    simp only [hshut, if_true]
    refine ⟨by simp, ⟨le_refl _, hbounded', Or.inl ⟨rfl, ?_⟩⟩, trivial⟩
    rw [hkeeps.withFd, hres, List.append_nil, hf]
  | fail e rest s' hf hkeeps hleft =>
    rw [hf] at hd
    rcases hd with hd | hd <;> cases hd
  | panic s' hf hkeeps hres hbounded' =>
    rw [← hkeeps.withFd] at hbounded' hres
    exact ⟨by simp, ⟨hkeeps.remLoc, hbounded', Or.inr hres⟩, hshut⟩
  | raw msg rest s' hf hkeeps hstate hleft hfds =>
    rw [hf] at hd
    rcases hd with hd | hd <;> cases hd

/-- A stuck receiver stays stuck. -/
lemma Stuck.step (hR : R.ReadsFixedPart) {s : RecvState} {sock : Socket} (h : s.Stuck R)
    (hshut : sock.shut = true) :
    (∀ msg, (getNextMessage R s sock).1 ≠ .ok msg) ∧ (getNextMessage R s sock).2.1.Stuck R ∧
      (getNextMessage R s sock).2.2.shut = true := by
  refine getNextMessage_stuck hR h.remLoc h.bounded hshut ?_
  rcases h.never with ⟨hleft, hmore⟩ | hpanic
  · rw [hleft]
    exact Or.inl hmore
  · exact Or.inr (hpanic _)

/-- A stuck receiver on a stream that is shut down returns no message. -/
lemma Stuck.callResult_ne_ok (hR : R.ReadsFixedPart) (n : ℕ) {s : RecvState} {sock : Socket}
    (h : s.Stuck R) (hshut : sock.shut = true) (msg : MarshalledMessage) :
    callResult R n s sock ≠ .ok msg := by
  obtain ⟨hne, hstuck, hshut'⟩ := h.step hR hshut
  induction n generalizing s sock with
  | zero => exact hne msg
  | succ n ih =>
    obtain ⟨hne', hstuck', hshut''⟩ := hstuck.step hR hshut'
    exact ih hstuck hshut' hne' hstuck' hshut''

/-- A message is returned at once or by a later call. -/
private lemma exists_callResult_iff {s : RecvState} {sock : Socket}
    {r : Res RecvError MarshalledMessage} {s' : RecvState} {sock' : Socket}
    (hcall : getNextMessage R s sock = (r, s', sock')) (hr : ∀ msg, r ≠ .ok msg) :
    (∃ n msg, callResult R n s sock = .ok msg) ↔ ∃ n msg, callResult R n s' sock' = .ok msg := by
  constructor
  · rintro ⟨n, msg, hn⟩
    cases n with
    | zero =>
      simp only [callResult, afterCalls, hcall] at hn
      exact absurd hn (hr msg)
    | succ n =>
      rw [callResult_succ, hcall] at hn
      exact ⟨n, msg, hn⟩
  · rintro ⟨n, msg, hn⟩
    refine ⟨n + 1, msg, ?_⟩
    rw [callResult_succ, hcall]
    exact hn

/-- **A stream that is shut down still returns a message exactly when the read-ahead buffer
holds one.**

**Proof sketch.** Induction on the length of the buffer.  Each call decodes the bytes left in
it: too few of them are consumed and the stream then reports its end; a violation restarts the
parser behind it; a message is returned if its body is valid. -/
lemma exists_callResult_iff_holdsMessage (hR : R.ReadsFixedPart) (len : ℕ) {s : RecvState}
    (sock : Socket) (h : s.Stored) (hstate : s.inState = .header []) (hshut : sock.shut = true)
    (hlen : s.leftover.length ≤ len) :
    (∃ n msg, callResult R n s sock = .ok msg) ↔ holdsMessage R s.withFd s.leftover = true := by
  induction len using Nat.strong_induction_on generalizing s sock with
  | _ len ih =>
    have htry := tryBlock_spec hR h.remLoc h.bounded
    have hraw : ∀ t, s.inState.decode R s.withFd t = decodeRaw R s.withFd t := by
      intro t
      rw [hstate]
      rfl
    have hrest := decodeRaw_restLt R s.withFd s.leftover
    have hstuck : s.inState.decode R s.withFd s.leftover = .more ∨
        s.inState.decode R s.withFd s.leftover = .panic →
        ¬ ∃ n msg, callResult R n s sock = .ok msg := by
      rintro hd ⟨n, msg, hn⟩
      obtain ⟨hne, hst, hshut'⟩ := getNextMessage_stuck hR h.remLoc h.bounded hshut hd
      cases n with
      | zero => exact hne msg hn
      | succ n => exact hst.callResult_ne_ok hR n hshut' msg hn
    rw [holdsMessage_eq]
    rcases hcall : getNextMessage R s sock with ⟨r, s₁, sock₁⟩
    have hcall' := hcall
    rw [getNextMessage, tryGetMsg] at hcall
    generalize tryBlock R s = res at htry hcall
    cases htry with
    | more s' hf hkeeps hleft hres hbounded hneed =>
      have hd := hf
      rw [hraw] at hd
      simpa [hd] using hstuck (Or.inl hf)
    | panic s' hf hkeeps hres hbounded =>
      have hd := hf
      rw [hraw] at hd
      simpa [hd] using hstuck (Or.inr hf)
    | fail e rest s' hf hkeeps hleft =>
      rw [hraw] at hf
      rw [hf] at hrest ⊢
      simp only [Decoded.RestLt] at hrest
      simp only [Prod.mk.injEq] at hcall
      obtain ⟨rfl, rfl, rfl⟩ := hcall
      have hleft' := hleft (by rw [hstate]; exact Nat.zero_le _)
      have hstored : ({ s' with inFds := [], inState := s'.inState.intoHdr } : RecvState).Stored :=
        ⟨hkeeps.remLoc, Nat.zero_le _, fun hfd => hkeeps.remaining.trans
          (h.noReadAhead (hkeeps.withFd.symm.trans hfd)), fun _ => rfl⟩
      rw [exists_callResult_iff hcall' (by simp)]
      rw [ih rest.length (by omega) _ hstored rfl rfl (by rw [← hleft']; rfl)]
      change holdsMessage R s'.withFd s'.leftover = true ↔ _
      rw [hleft', hkeeps.withFd]
    | raw msg rest s' hf hkeeps hst hleft hfds =>
      rw [hraw] at hf
      rw [hf] at hrest ⊢
      simp only [Decoded.RestLt] at hrest
      dsimp only at hcall ⊢
      rw [deliver] at hcall
      cases hval : (mmFromRaw msg []).body.validate R with
      | ok u =>
        simp only [hval, Prod.mk.injEq] at hcall
        obtain ⟨rfl, -, -⟩ := hcall
        refine iff_of_true ⟨0, mmFromRaw msg [], ?_⟩ rfl
        simp only [callResult, afterCalls, hcall']
      | error e =>
        simp only [hval, Prod.mk.injEq] at hcall
        obtain ⟨rfl, rfl, rfl⟩ := hcall
        have hstored : s'.Stored := by
          refine h.of_keeps hkeeps ?_
          rw [hst]
          exact Nat.zero_le _
        rw [exists_callResult_iff hcall' (by simp)]
        rw [ih rest.length (by omega) _ hstored hst rfl (by rw [hleft]), hleft, hkeeps.withFd]

/-! ## A stream that is still open -/

/-- A message of a sequence of calls is the result of one of them.

**Proof sketch.** By induction on the number of calls. The message is the result of the first call,
or one of the sequence of calls behind it, which are the later calls here. -/
lemma exists_callResult_of_mem (n : ℕ) (s : RecvState) (sock : Socket) (msg : MarshalledMessage)
    (h : .ok msg ∈ (receiveAll R n s sock).1) : ∃ k, callResult R k s sock = .ok msg := by
  induction n generalizing s sock with
  | zero => simp [receiveAll] at h
  | succ n ih =>
    rcases hcall : getNextMessage R s sock with ⟨r, s', sock'⟩
    have hlater : .ok msg ∈ (receiveAll R n s' sock').1 →
        ∃ k, callResult R k s sock = .ok msg := by
      intro hmem
      obtain ⟨k, hk⟩ := ih s' sock' hmem
      exact ⟨k + 1, by rw [callResult_succ, hcall]; exact hk⟩
    have hnow : r = .ok msg → ∃ k, callResult R k s sock = .ok msg := by
      intro hr
      exact ⟨0, by rw [callResult, afterCalls, hcall, hr]⟩
    rw [receiveAll, hcall] at h
    split at h
    · rename_i m _ _ heq
      simp only [Prod.mk.injEq] at heq
      obtain ⟨rfl, rfl, rfl⟩ := heq
      rcases List.mem_cons.mp h with heq | hmem
      · exact hnow heq.symm
      · exact hlater hmem
    · rename_i heq
      simp only [Prod.mk.injEq] at heq
      obtain ⟨-, rfl, rfl⟩ := heq
      exact hlater h
    · rename_i heq
      simp only [Prod.mk.injEq] at heq
      obtain ⟨rfl, -, -⟩ := heq
      exact hnow (List.mem_singleton.mp h).symm

/-- A stream that is still open can go on with a message.

**Proof sketch.** A signal without header fields and body is a message that the receiver accepts
(`decodeRaw_marshalled`, `outcome_received`). Its bytes, delivered one by one, bring the receiver to
rest (`atRest_receiveAll`), so it is returned, by one of the calls (`exists_callResult_of_mem`). -/
lemma exists_callResult_of_open (hR : R.Conforms) {s : RecvState} (h : s.Idle R)
    (hstate : s.inState = .header []) (hleft : s.leftover = []) :
    ∃ input script n msg, callResult R n s ⟨input, script, false⟩ = .ok msg := by
  obtain ⟨m, hm⟩ : ∃ m : MarshalledMessage, m = ⟨.new, .default, .signal, 0⟩ := ⟨_, rfl⟩
  obtain ⟨serial, hserial⟩ : ∃ serial : NonZeroU32, serial = ⟨1, by decide⟩ := ⟨_, rfl⟩
  have hnames : m.dynheader.validNames R = true := by
    rw [hm]
    rfl
  have hvalid : m.body.validate R = .ok () := by
    rw [hm]
    rfl
  have hfields : m.fieldBytes = [] := by
    rw [hm]
    decide
  have hraw := m.decodeRaw_marshalled hR serial s.withFd (by rw [hm]; decide) hnames hvalid
    (by rw [hm]; rfl) (by rw [hm]; decide) (by rw [hfields]; decide)
  have hout := m.outcome_received serial hR s.withFd hvalid (by rw [hm]; rfl)
  obtain ⟨input, hinput⟩ : ∃ input, input = m.headerBytes serial ++ m.body.buf := ⟨_, rfl⟩
  obtain ⟨script, hscript⟩ : ∃ script, script = List.replicate input.length (RecvEvent.data 0 []) :=
    ⟨_, rfl⟩
  have htoCome : s.toCome R ⟨input, script, false⟩ =
      [.ok (mmFromRaw (m.received serial) [])] := by
    rw [toCome, hstate, hleft]
    simp only [InState.decode, List.nil_append]
    rw [hinput, hraw, emit, hout, decodeStream_eq]
    rfl
  have hsched : IsSchedule s.withFd script := by
    intro ev hev
    rw [hscript] at hev
    rw [(List.mem_replicate.mp hev).2]
    simp [RecvEvent.delivers]
  have hcover : input.length ≤ deliveries script := by
    rw [hscript, deliveries, List.countP_replicate]
    simp
  have hrest := atRest_receiveAll hR.reads_fixed_part (script.length + 2) h ⟨input, script, false⟩
    rfl hsched hcover (by rw [htoCome]; simp)
  have hall := receiveAll_of_atRest hR.reads_fixed_part (script.length + 2) h
    ⟨input, script, false⟩ rfl hsched hrest
  obtain ⟨k, hk⟩ := exists_callResult_of_mem (script.length + 2) s ⟨input, script, false⟩
    (mmFromRaw (m.received serial) []) (by rw [hall, htoCome]; simp)
  exact ⟨input, script, k, _, hk⟩

/-- **When a violation ends the stream.**  In every run of calls, whatever arrives and however it
is cut: after a call that returned a violation, no later call returns a message, whatever the
stream does from then on, exactly if the stream was shut down and the read-ahead buffer holds no
message.  The stream was shut down unless the number of descriptors was wrong; nothing is read
ahead where descriptors are taken, and otherwise the buffer holds what was received in front of the
bytes that the socket still has.

**Proof sketch.** On a stream that was shut down the calls decode the read-ahead buffer
(`exists_callResult_iff_holdsMessage`).  A stream that is still open can go on with a message
(`exists_callResult_of_open`), since nothing was read ahead. -/
theorem violation_ends_iff (hR : R.Conforms) (withFd : Bool) (remCap : ℕ) (input : Bytes)
    (script : List RecvEvent) (k : ℕ) (e : RecvError)
    (hcall : callResult R k (new withFd remCap) ⟨input, script, false⟩ = .err e)
    (hv : e.isViolation = true) (s : RecvState) (sock : Socket)
    (hafter : afterCalls R (k + 1) (new withFd remCap) ⟨input, script, false⟩ = (s, sock)) :
    ((∀ input' script' n msg, callResult R n s ⟨input', script', sock.shut⟩ ≠ .ok msg) ↔
      sock.shut = true ∧ holdsMessage R withFd s.leftover = false) ∧
    sock.shut = e.shutsDown ∧ (withFd = true → s.leftover = []) ∧
      s.leftover ++ sock.input <:+ input := by
  obtain ⟨hsound, hfd⟩ := afterCalls_sound hR.reads_fixed_part k (sound_new R withFd remCap)
    ⟨input, script, false⟩
  have hleaves := getNextMessage_afterCall hR.reads_fixed_part hsound
    (afterCalls R k (new withFd remCap) ⟨input, script, false⟩).2
  have hread : s.remaining ++ sock.input <:+ input := by
    have h := afterCalls_readAhead (R := R) (k + 1) (new withFd remCap) ⟨input, script, false⟩
    rw [hafter] at h
    exact h
  rw [hfd] at hleaves
  rw [afterCalls_succ] at hafter
  rw [callResult] at hcall
  generalize getNextMessage R (afterCalls R k (new withFd remCap) ⟨input, script, false⟩).1
    (afterCalls R k (new withFd remCap) ⟨input, script, false⟩).2 = res at hleaves hafter hcall
  obtain ⟨r, s', sock'⟩ := res
  cases hafter
  have hend := hleaves.ended e hcall hv
  have hshut := hleaves.shut e hcall hv
  have hsame : s.withFd = withFd := hleaves.sameFd
  have hfds := hleaves.fds e hcall hv
  have hnone : withFd = true → s.leftover = [] := by
    intro hon
    rw [leftover, hend.noReadAhead (hsame.trans hon), List.drop_nil]
  refine ⟨?_, hshut, hnone, ?_⟩
  swap
  · obtain ⟨front, hfront⟩ := hread
    refine ⟨front ++ s.remaining.take s.remLoc, ?_⟩
    rw [leftover, List.append_assoc, ← List.append_assoc (s.remaining.take s.remLoc),
      List.take_append_drop]
    exact hfront
  cases hsd : sock.shut with
  | true =>
    have hiff := fun input' script' => exists_callResult_iff_holdsMessage hR.reads_fixed_part
      s.leftover.length ⟨input', script', true⟩ hend.toStored hend.state rfl (le_refl _)
    rw [hsame] at hiff
    constructor
    · intro hnever
      refine ⟨rfl, ?_⟩
      by_contra hholds
      obtain ⟨n, msg, hn⟩ := (hiff [] []).mpr (by simpa using hholds)
      exact hnever [] [] n msg hn
    · rintro ⟨-, hholds⟩ input' script' n msg hn
      have := (hiff input' script').mp ⟨n, msg, hn⟩
      rw [hholds] at this
      cases this
  | false =>
    -- the stream is still open, and nothing was read ahead
    have hleft : s.leftover = [] := hnone (hfds (by rw [← hshut]; exact hsd))
    have hready : s.Ready := ⟨hend.remLoc, hend.bounded, hend.fds, hend.noReadAhead⟩
    refine iff_of_false (fun hnever => ?_) (by simp)
    obtain ⟨input', script', n, msg, hn⟩ := exists_callResult_of_open hR (hready.idle hend.state)
      hend.state hleft
    exact hnever input' script' n msg hn

/-- Sixteen zero bytes are refused, and the start of a signal that was read ahead behind them is
never completed. -/
theorem violation_ends_partial :
    let input : Bytes := List.replicate 16 0 ++ [108, 4, 0, 1, 0, 0, 0, 0, 7]
    let sock : Socket := ⟨input, [.data 24 []], false⟩
    callResult .reference 0 (new false 4096) sock = .err .badFixedHeader ∧
      (afterCalls .reference 1 (new false 4096) sock).1.leftover = [108, 4, 0, 1, 0, 0, 0, 0, 7] ∧
      ∀ input' script' n msg, callResult .reference n
        (afterCalls .reference 1 (new false 4096) sock).1
        ⟨input', script', (afterCalls .reference 1 (new false 4096) sock).2.shut⟩ ≠ .ok msg := by
  intro input sock
  refine ⟨by decide, by decide, ?_⟩
  exact (violation_ends_iff Rustbus.reference_conforms false 4096 input [.data 24 []] 0
    .badFixedHeader (by decide) rfl _ _ rfl).1.mpr ⟨by decide, by decide⟩

/-- Sixteen zero bytes are refused, but the signal that was read ahead behind them is returned
by the next call. -/
theorem violation_then_message :
    let input : Bytes := List.replicate 16 0 ++
      [108, 4, 0, 1, 0, 0, 0, 0, 7, 0, 0, 0, 0, 0, 0, 0]
    let sock : Socket := ⟨input, [.data 31 []], false⟩
    callResult .reference 0 (new false 4096) sock = .err .badFixedHeader ∧
      RecvError.isViolation .badFixedHeader = true ∧
      callResult .reference 1 (new false 4096) sock = .ok ⟨.new,
        { DynamicHeader.default with serial := some ⟨7, by decide⟩ }, .signal, 0⟩ := by
  decide

end RecvState

end AsyncRustbus
