import AsyncRustbus.Conn.Violation

set_option relaxedAutoImplicit false
set_option autoImplicit false

/-!
# The messages a connection can receive

What the checks of the receiver say about a message that `get_next_message` returns, however
its bytes were split and whatever happened before on the stream: its fixed header was read by
`unmarshal_header` and its fields passed the checks of the `DynHdr` branch.  Which fields are
present is *not* checked.

## Main definitions

* `AsyncRustbus.Accepted` — a message that passed the checks.
* `AsyncRustbus.Rustbus.KnownTypes` — `unmarshal_header` rejects unknown message types.

## Main results

* `RecvState.accepted_of_callResult` — every message that is returned was accepted.
* `Accepted.object_valid`, `Accepted.serial_isSome`, `Accepted.typ_ne_invalid` — what that
  says.
-/

namespace AsyncRustbus

/-- `unmarshal_header` rejects a message type other than the four of the specification. -/
def Rustbus.KnownTypes (R : Rustbus) : Prop :=
  ∀ buf hdr, R.unmarshalHeader buf = some hdr → hdr.typ ≠ .invalid

/-- The fixed header was read and the header fields passed the checks. -/
def HeaderChecked (R : Rustbus) (hdr : Header) (dynhdr : DynamicHeader) : Prop :=
  (∃ buf, R.unmarshalHeader buf = some hdr) ∧
    ∃ withFd buf, parseDynHdr R withFd hdr buf = .ok dynhdr

/-- A message with a checked header. -/
def Accepted (R : Rustbus) (m : MarshalledMessage) : Prop :=
  ∃ hdr dynhdr body fds, HeaderChecked R hdr dynhdr ∧
    m = RecvState.mmFromRaw (hdr, dynhdr, body) fds

/-- What the parser state has read was checked. -/
def InState.Checked (R : Rustbus) : InState → Prop
  | .header _ => True
  | .dynHdr hdr _ => ∃ buf, R.unmarshalHeader buf = some hdr
  | .finishing hdr dynhdr _ => HeaderChecked R hdr dynhdr

/-! ## What the checks say -/

section Accepted

variable {R : Rustbus}

/-- The checks of the header fields pass fields that `unmarshal` validated, and store the
serial. -/
private lemma parseDynHdr_ok {withFd : Bool} {hdr : Header} {buf : Bytes} {d : DynamicHeader}
    (h : parseDynHdr R withFd hdr buf = .ok d) :
    d.validate R = true ∧ d.serial.isSome = true := by
  unfold parseDynHdr at h
  split at h
  · cases h
  · cases h
  · rename_i used dynhdr hun
    have hvalid := DynamicHeader.validate_of_unmarshal R _ _ _ _ _ hun
    split at h
    · cases h
    · split at h
      · cases h
      · split_ifs at h
        cases h
        exact ⟨hvalid, rfl⟩

variable {m : MarshalledMessage}

/-- The fields that are present are valid. -/
lemma Accepted.validate (h : Accepted R m) : m.dynheader.validate R = true := by
  obtain ⟨hdr, dynhdr, body, fds, ⟨-, withFd, buf, hparse⟩, rfl⟩ := h
  exact (parseDynHdr_ok hparse).1

/-- An object path that is present is one. -/
theorem Accepted.object_valid (h : Accepted R m) {object : Str}
    (hobj : m.dynheader.object = some object) : ∃ p : ObjectPath, p.inner = object := by
  have hvalid := h.validate
  simp only [DynamicHeader.validate, Bool.and_eq_true, hobj, checkField] at hvalid
  exact (validateObject_iff object).mp hvalid.1.1.1.1.1.2

/-- A received message has its serial. -/
theorem Accepted.serial_isSome (h : Accepted R m) : m.dynheader.serial.isSome = true := by
  obtain ⟨hdr, dynhdr, body, fds, ⟨-, withFd, buf, hparse⟩, rfl⟩ := h
  exact (parseDynHdr_ok hparse).2

/-- A received message has one of the four types. -/
theorem Accepted.typ_ne_invalid (h : Accepted R m) (hR : R.KnownTypes) : m.typ ≠ .invalid := by
  obtain ⟨hdr, dynhdr, body, fds, ⟨⟨buf, hhdr⟩, -⟩, rfl⟩ := h
  exact hR buf hdr hhdr

end Accepted

/-! ## Every returned message was accepted -/

namespace RecvState

variable {R : Rustbus}

/-- The parser keeps the state checked and returns checked headers. -/
private def TryChecked (R : Rustbus)
    (res : Res RecvError (Option RawMessage) × RecvState) : Prop :=
  res.2.inState.Checked R ∧
    ∀ raw, res.1 = .ok (some raw) → HeaderChecked R raw.1 raw.2.1

/-- The `Finishing` branch. -/
private lemma tryFinishing_checked (s : RecvState) {hdr : Header} {dynhdr : DynamicHeader}
    (h : HeaderChecked R hdr dynhdr) (bodyBuf : Bytes) :
    TryChecked R (tryFinishing s hdr dynhdr bodyBuf) := by
  unfold tryFinishing
  split
  · exact ⟨h, by simp⟩
  · refine ⟨trivial, ?_⟩
    intro raw hraw
    cases hraw
    exact h

/-- The `DynHdr` branch. -/
private lemma tryDynHdr_checked (s : RecvState) {hdr : Header}
    (h : ∃ buf, R.unmarshalHeader buf = some hdr) (dynBuf : Bytes) :
    TryChecked R (tryDynHdr R s hdr dynBuf) := by
  unfold tryDynHdr
  split
  · exact ⟨h, by simp⟩
  · split
    · exact ⟨h, by simp⟩
    · rename_i buf loc _
      dsimp only
      cases hparse : parseDynHdr R s.withFd hdr buf with
      | err e => exact ⟨h, by simp⟩
      | panic => exact ⟨h, by simp⟩
      | ok dynhdr => exact tryFinishing_checked _ ⟨h, s.withFd, buf, hparse⟩ []

/-- The `try_block`. -/
private lemma tryBlock_checked {s : RecvState} (h : s.inState.Checked R) :
    TryChecked R (tryBlock R s) := by
  unfold tryBlock
  split
  · rename_i hdrBuf _
    unfold tryHeader
    split
    · exact ⟨trivial, by simp⟩
    · rename_i buf loc _
      dsimp only
      cases hhdr : R.unmarshalHeader buf with
      | none => exact ⟨trivial, by simp⟩
      | some hdr => exact tryDynHdr_checked _ ⟨buf, hhdr⟩ buf
  · rename_i hdr dynBuf hstate
    rw [hstate] at h
    exact tryDynHdr_checked s h dynBuf
  · rename_i hdr dynhdr bodyBuf hstate
    rw [hstate] at h
    exact tryFinishing_checked s h bodyBuf

/-- `try_get_msg`: an error leaves a new header. -/
private lemma tryGetMsg_checked {s : RecvState} (h : s.inState.Checked R) (sock : Socket) :
    (tryGetMsg R s sock).2.1.inState.Checked R ∧
      ∀ raw, (tryGetMsg R s sock).1 = .ok (some raw) → HeaderChecked R raw.1 raw.2.1 := by
  have hblock := tryBlock_checked h
  unfold tryGetMsg
  split
  · exact ⟨trivial, by simp⟩
  · rename_i r s' _ heq
    rw [heq] at hblock
    exact hblock

/-- What a call of `get_next_message` leaves and returns. -/
private def CallChecked (R : Rustbus) (res : Res RecvError MarshalledMessage × RecvState × Socket) :
    Prop :=
  res.2.1.inState.Checked R ∧ ∀ m, res.1 = .ok m → Accepted R m

/-- Delivering a message with a checked header. -/
private lemma deliver_checked {raw : RawMessage} (hraw : HeaderChecked R raw.1 raw.2.1)
    (fds : List UnixFd) {s : RecvState} (h : s.inState.Checked R) (sock : Socket) :
    CallChecked R (deliver R raw fds s sock) := by
  unfold deliver
  dsimp only
  split
  · refine ⟨h, ?_⟩
    intro m hm
    cases hm
    exact ⟨raw.1, raw.2.1, raw.2.2, fds, hraw, rfl⟩
  · exact ⟨h, by simp⟩

/-- One pass of the loop.

**Proof sketch.** `try_get_msg` keeps the state checked and gives only checked parts
(`tryGetMsg_checked`). Every other outcome returns no message; a complete one goes through
`deliver_checked`, unless its number of descriptors is wrong. -/
private lemma handleChunk_checked {s : RecvState} (h : s.inState.Checked R) (sock : Socket) :
    (handleChunk R s sock).2.1.inState.Checked R ∧
      ∀ m, (handleChunk R s sock).1 = some (.ok m) → Accepted R m := by
  have htry := tryGetMsg_checked h sock
  unfold handleChunk
  split_ifs with hfds
  · exact ⟨trivial, by simp⟩
  · split
    · rename_i e s' sock' heq
      rw [heq] at htry
      exact ⟨htry.1, by simp⟩
    · rename_i s' sock' heq
      rw [heq] at htry
      exact ⟨htry.1, by simp⟩
    · rename_i s' sock' heq
      rw [heq] at htry
      exact ⟨htry.1, by simp⟩
    · rename_i raw s' sock' heq
      rw [heq] at htry
      split_ifs with hcount
      · exact ⟨htry.1, by simp⟩
      · obtain ⟨hstate, hok⟩ := deliver_checked (htry.2 raw rfl) s'.inFds
          (s := { s' with inFds := [] }) htry.1 sock'
        refine ⟨hstate, ?_⟩
        intro m hm
        exact hok m (by simpa using hm)

/-- Filling the buffer of the parser state keeps it checked. -/
private lemma receive_checked {s : RecvState} (h : s.inState.Checked R) (chunk : Bytes)
    (fds : List UnixFd) : (s.receive chunk fds).inState.Checked R := by
  unfold receive InState.extend
  cases hstate : s.inState with
  | header b => trivial
  | dynHdr hdr b =>
    rw [hstate] at h
    exact h
  | finishing hdr dynhdr b =>
    rw [hstate] at h
    exact h

/-- The loop.

**Proof sketch.** Induction on the answers of the socket: every pass keeps the parser state
checked and returns accepted messages only. -/
private lemma recvLoop_checked (script : List RecvEvent) {s : RecvState}
    (h : s.inState.Checked R) (input : Bytes) : CallChecked R (recvLoop R script s input) := by
  induction script generalizing s input with
  | nil => exact ⟨h, by simp [recvLoop]⟩
  | cons ev script ih =>
    cases ev with
    | wouldBlock => exact ⟨h, by simp [recvLoop]⟩
    | eof => exact ⟨h, by simp [recvLoop]⟩
    | err => exact ⟨h, by simp [recvLoop]⟩
    | data n fds =>
      simp only [recvLoop]
      split_ifs with hzero
      · exact ⟨h, by simp⟩
      · have hrecv := receive_checked h
          (input.take (min (n + 1) (min s.offered input.length))) fds
        obtain ⟨hstate, hok⟩ := handleChunk_checked hrecv
          ⟨input.drop (min (n + 1) (min s.offered input.length)), script, false⟩
        split
        · rename_i r s' sock' heq
          rw [heq] at hstate hok
          exact ⟨hstate, fun m hm => hok m (congrArg some hm)⟩
        · rename_i s' sock' heq
          rw [heq] at hstate
          exact ih hstate _

/-- A call of `get_next_message` keeps the state checked and returns an accepted message. -/
private lemma getNextMessage_checked {s : RecvState} (h : s.inState.Checked R)
    (sock : Socket) : CallChecked R (getNextMessage R s sock) := by
  have htry := tryGetMsg_checked h sock
  unfold getNextMessage
  split
  · rename_i e s' sock' heq
    rw [heq] at htry
    exact ⟨htry.1, by simp⟩
  · rename_i s' sock' heq
    rw [heq] at htry
    exact ⟨htry.1, by simp⟩
  · rename_i raw s' sock' heq
    rw [heq] at htry
    exact deliver_checked (htry.2 raw rfl) [] htry.1 sock'
  · rename_i s' sock' heq
    rw [heq] at htry
    split_ifs
    · exact ⟨htry.1, by simp⟩
    · exact recvLoop_checked _ htry.1 _

/-- **Every message that a connection receives was accepted**, whatever the socket does and
whatever was received before. -/
theorem accepted_of_callResult (n : ℕ) (withFd : Bool) (remCap : ℕ) (sock : Socket)
    (m : MarshalledMessage) (h : callResult R n (new withFd remCap) sock = .ok m) :
    Accepted R m := by
  have hrun : ∀ n s sock, s.inState.Checked R → (afterCalls R n s sock).1.inState.Checked R := by
    intro n
    induction n with
    | zero => exact fun _ _ hs => hs
    | succ n ih => exact fun s sock hs => ih _ _ (getNextMessage_checked hs sock).1
  have hnew : (new withFd remCap).inState.Checked R := trivial
  exact (getNextMessage_checked (hrun n _ sock hnew) _).2 m h

end RecvState

end AsyncRustbus
