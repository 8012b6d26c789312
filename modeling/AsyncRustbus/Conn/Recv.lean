import AsyncRustbus.Message.Unmarshal

set_option relaxedAutoImplicit false
set_option autoImplicit false

/-!
# Receiving messages (`conn/recv.rs`)

`RecvState` is a resumable parser with two sources of bytes: the socket reads directly into the
buffer of the current parser state, and whatever exceeds it lands in `remaining`, which the
next calls consume first.  The socket is modelled by the bytes that are still to come and the
list of its answers to `recvmsg`.

## Main definitions

* `AsyncRustbus.InState`, `AsyncRustbus.RecvState` — the state of the parser.
* `AsyncRustbus.Socket`, `AsyncRustbus.RecvEvent` — the stream as the receiver sees it.
* `AsyncRustbus.RecvState.tryGetMsg` — `try_get_msg`.
* `AsyncRustbus.RecvState.getNextMessage` — `get_next_message`.
-/

namespace AsyncRustbus

/-- The errors of `get_next_message`, with their texts in the source. -/
inductive RecvError
  /-- "Bad header!", from `unmarshal_header`. -/
  | badFixedHeader
  /-- "Bad header!: ..", from `DynamicHeader::unmarshal`. -/
  | badHeader (e : UnmarshalError)
  /-- "Serial was zero!" -/
  | serialZero
  /-- "Data in offset!" -/
  | dataInOffset
  /-- "Bad header!", for descriptors on a connection without them. -/
  | forbiddenFds
  /-- "Bad message body!: .." -/
  | badBody (e : UnmarshalError)
  /-- "Too many unix fds received!" -/
  | tooManyFds
  /-- "Unepexted number of fds received!" -/
  | unexpectedFds
  /-- `ErrorKind::WouldBlock` from `recvmsg`. -/
  | wouldBlock
  /-- "DBus daemon hung up!" -/
  | hungUp
  /-- Any other error from `recvmsg`. -/
  | io
  deriving DecidableEq

/-- The errors that are caused by what was received. -/
def RecvError.isViolation : RecvError → Bool
  | .wouldBlock | .hungUp | .io => false
  | _ => true

/-- The violations for which the stream is shut down: all but a wrong number of
descriptors. -/
def RecvError.shutsDown : RecvError → Bool
  | .tooManyFds | .unexpectedFds => false
  | e => e.isViolation

/-- They are violations. -/
lemma RecvError.isViolation_of_shutsDown {e : RecvError} (h : e.shutsDown = true) :
    e.isViolation = true := by
  cases e <;> first | rfl | exact h

/-! ## The socket -/

/-- An answer of `recvmsg`. -/
inductive RecvEvent
  /-- The next `n + 1` bytes, as far as they are there and fit, and descriptors. -/
  | data (n : ℕ) (fds : List UnixFd)
  /-- Nothing to read now. -/
  | wouldBlock
  /-- End of file. -/
  | eof
  /-- Another error. -/
  | err
  deriving DecidableEq

/-- The stream: the bytes still to come, the answers to come, and whether `shutdown` was
called. -/
structure Socket where
  input : Bytes
  script : List RecvEvent
  shut : Bool
  deriving DecidableEq

/-- `stream.shutdown(Shutdown::Both)`. -/
def Socket.shutdown (sock : Socket) : Socket := { sock with shut := true }

/-! ## The parser state -/

/-- `InState`. -/
inductive InState
  | header (buf : Bytes)
  | dynHdr (hdr : Header) (buf : Bytes)
  | finishing (hdr : Header) (dynhdr : DynamicHeader) (buf : Bytes)
  deriving DecidableEq

namespace InState

/-- `InState::default`. -/
def default : InState := .header []

/-- `InState::into_hdr`: the header state with the cleared buffer. -/
def intoHdr (_ : InState) : InState := .header []

/-- The buffer of the state. -/
def buf : InState → Bytes
  | .header b | .dynHdr _ b | .finishing _ _ b => b

/-- Append to the buffer that `get_mut_buf` returns. -/
def extend (st : InState) (bytes : Bytes) : InState :=
  match st with
  | .header b => .header (b ++ bytes)
  | .dynHdr hdr b => .dynHdr hdr (b ++ bytes)
  | .finishing hdr dynhdr b => .finishing hdr dynhdr (b ++ bytes)

end InState

/-- `HEADER_LEN`. -/
def headerLen : ℕ := 12

/-- The length of a whole header, from the array length in its bytes `12..16`. -/
def totalHdrLen (bo : ByteOrder) (buf : Bytes) : ℕ :=
  alignNum (headerLen + 4 + (parseU32 ((buf.drop headerLen).take 4) bo).toNat) 8

/-- `InState::bytes_needed_for_next`. -/
def InState.bytesNeededForNext : InState → ℕ
  | .header b => headerLen + 4 - b.length
  | .dynHdr hdr b =>
    if b.length < 16 then 16 - b.length else totalHdrLen hdr.byteorder b - b.length
  | .finishing hdr _ b => hdr.bodyLen.toNat - b.length

/-- `RecvState`, with the capacity of its `remaining` buffer. -/
structure RecvState where
  inState : InState
  inFds : List UnixFd
  remaining : Bytes
  remLoc : ℕ
  withFd : Bool
  remCap : ℕ
  deriving DecidableEq

/-- The state of a new connection. -/
def RecvState.new (withFd : Bool) (remCap : ℕ) : RecvState :=
  ⟨.header [], [], [], 0, withFd, remCap⟩

/-- The part of `remaining` that is not consumed yet. -/
def RecvState.leftover (s : RecvState) : Bytes := s.remaining.drop s.remLoc

/-- `extend_max`: move bytes of `buf` from `loc` on to `vec` until it has `target` bytes. -/
def extendMax (vec buf : Bytes) (loc target : ℕ) : Bool × Bytes × ℕ :=
  if vec.length ≥ target then (true, vec, loc)
  else
    let needed := target - vec.length
    if needed > (buf.drop loc).length then (false, vec ++ buf.drop loc, loc + (buf.drop loc).length)
    else (true, vec ++ (buf.drop loc).take needed, loc + needed)

/-! ## `try_get_msg` -/

/-- A message as the parser returns it: fixed header, dynamic header and body. -/
abbrev RawMessage := Header × DynamicHeader × Bytes

/-- The checks of the `DynHdr` branch on a complete header. -/
def parseDynHdr (R : Rustbus) (withFd : Bool) (hdr : Header) (dynBuf : Bytes) :
    Res RecvError DynamicHeader :=
  match DynamicHeader.unmarshal R hdr.byteorder dynBuf headerLen with
  | .panic => .panic
  | .err e => .err (.badHeader e)
  | .ok (used, dynhdr) =>
    match NonZeroU32.new hdr.serial with
    | none => .err .serialZero
    | some serial =>
      match R.alignOffset 8 dynBuf (headerLen + used) with
      | .error _ => .err .dataInOffset
      | .ok _ =>
        if dynhdr.numFds.getD 0 > 0 && !withFd then .err .forbiddenFds
        else .ok { dynhdr with serial := some serial }

namespace RecvState

/-- The `Finishing` branch. -/
def tryFinishing (s : RecvState) (hdr : Header) (dynhdr : DynamicHeader) (bodyBuf : Bytes) :
    Res RecvError (Option RawMessage) × RecvState :=
  match extendMax bodyBuf s.remaining s.remLoc hdr.bodyLen.toNat with
  | (false, bodyBuf, loc) =>
    (.ok none, { s with inState := .finishing hdr dynhdr bodyBuf, remLoc := loc })
  | (true, bodyBuf, loc) =>
    (.ok (some (hdr, dynhdr, bodyBuf)), { s with inState := .default, remLoc := loc })

/-- The `DynHdr` branch. -/
def tryDynHdr (R : Rustbus) (s : RecvState) (hdr : Header) (dynBuf : Bytes) :
    Res RecvError (Option RawMessage) × RecvState :=
  match extendMax dynBuf s.remaining s.remLoc (headerLen + 4) with
  | (false, dynBuf, loc) => (.ok none, { s with inState := .dynHdr hdr dynBuf, remLoc := loc })
  | (true, dynBuf, loc) =>
    match extendMax dynBuf s.remaining loc (totalHdrLen hdr.byteorder dynBuf) with
    | (false, dynBuf, loc) => (.ok none, { s with inState := .dynHdr hdr dynBuf, remLoc := loc })
    | (true, dynBuf, loc) =>
      let s := { s with inState := .dynHdr hdr dynBuf, remLoc := loc }
      match parseDynHdr R s.withFd hdr dynBuf with
      | .err e => (.err e, s)
      | .panic => (.panic, s)
      | .ok dynhdr => tryFinishing s hdr dynhdr []

/-- The `Header` branch. -/
def tryHeader (R : Rustbus) (s : RecvState) (hdrBuf : Bytes) :
    Res RecvError (Option RawMessage) × RecvState :=
  match extendMax hdrBuf s.remaining s.remLoc headerLen with
  | (false, hdrBuf, loc) => (.ok none, { s with inState := .header hdrBuf, remLoc := loc })
  | (true, hdrBuf, loc) =>
    let s := { s with inState := .header hdrBuf, remLoc := loc }
    match R.unmarshalHeader hdrBuf with
    | none => (.err .badFixedHeader, s)
    | some hdr => tryDynHdr R s hdr hdrBuf

/-- The `try_block` of `try_get_msg`, with its recursive calls in place.  An error of a
recursive call is handled by each of the enclosing calls in the same way, which changes nothing
further. -/
def tryBlock (R : Rustbus) (s : RecvState) : Res RecvError (Option RawMessage) × RecvState :=
  match s.inState with
  | .header hdrBuf => tryHeader R s hdrBuf
  | .dynHdr hdr dynBuf => tryDynHdr R s hdr dynBuf
  | .finishing hdr dynhdr bodyBuf => tryFinishing s hdr dynhdr bodyBuf

/-- `try_get_msg`: an error closes the stream.  No error of the parser is a `WouldBlock`. -/
def tryGetMsg (R : Rustbus) (s : RecvState) (sock : Socket) :
    Res RecvError (Option RawMessage) × RecvState × Socket :=
  match tryBlock R s with
  | (.err e, s) => (.err e, { s with inFds := [], inState := s.inState.intoHdr }, sock.shutdown)
  | (r, s) => (r, s, sock)

/-! ## `get_next_message` -/

/-- `mm_from_raw`. -/
def mmFromRaw (raw : RawMessage) (fds : List UnixFd) : MarshalledMessage where
  typ := raw.1.typ
  flags := raw.1.flags
  body := ⟨raw.2.2, raw.2.1.signature.getD [], fds, raw.1.byteorder⟩
  dynheader := raw.2.1

/-- Validate the body and return the message, or close the stream. -/
def deliver (R : Rustbus) (raw : RawMessage) (fds : List UnixFd) (s : RecvState) (sock : Socket) :
    Res RecvError MarshalledMessage × RecvState × Socket :=
  let msg := mmFromRaw raw fds
  match msg.body.validate R with
  | .ok _ => (.ok msg, s, sock)
  | .error e => (.err (.badBody e), s, sock.shutdown)

/-- The space offered to `recvmsg`: what the parser needs next, and without descriptors also
the `remaining` buffer. -/
def offered (s : RecvState) : ℕ :=
  if s.withFd then s.inState.bytesNeededForNext else s.inState.bytesNeededForNext + s.remCap

/-- Store what `recvmsg` returned: the buffer of the parser state is filled first, the rest is
the new `remaining`; descriptors are kept where the connection takes them. -/
def receive (s : RecvState) (chunk : Bytes) (fds : List UnixFd) : RecvState :=
  let needed := s.inState.bytesNeededForNext
  { s with
    inState := s.inState.extend (chunk.take needed)
    remaining := chunk.drop needed
    remLoc := 0
    inFds := if s.withFd then s.inFds ++ fds else s.inFds }

/-- The body of the `loop` behind `recvmsg`: a result, or nothing if the loop goes on. -/
def handleChunk (R : Rustbus) (s : RecvState) (sock : Socket) :
    Option (Res RecvError MarshalledMessage) × RecvState × Socket :=
  if s.withFd && s.inFds.length > dbusMaxFdMessage then
    (some (.err .tooManyFds), { s with inState := s.inState.intoHdr, inFds := [] }, sock)
  else
    match tryGetMsg R s sock with
    | (.err e, s, sock) => (some (.err e), s, sock)
    | (.panic, s, sock) => (some .panic, s, sock)
    | (.ok none, s, sock) => (none, s, sock)
    | (.ok (some raw), s, sock) =>
      if s.inFds.length ≠ (raw.2.1.numFds.getD 0).toNat then
        (some (.err .unexpectedFds), { s with inFds := [] }, sock)
      else
        let r := deliver R raw s.inFds { s with inFds := [] } sock
        (some r.1, r.2)

/-- The `loop` of `get_next_message` on a stream that is not shut down.  Every pass consumes an
answer of the socket. -/
def recvLoop (R : Rustbus) : List RecvEvent → RecvState → Bytes →
    Res RecvError MarshalledMessage × RecvState × Socket
  | [], s, input => (.err .wouldBlock, { s with remaining := [], remLoc := 0 }, ⟨input, [], false⟩)
  | .wouldBlock :: script, s, input =>
    (.err .wouldBlock, { s with remaining := [], remLoc := 0 }, ⟨input, script, false⟩)
  | .eof :: script, s, input =>
    (.err .hungUp, { s with remaining := [], remLoc := 0 }, ⟨input, script, false⟩)
  | .err :: script, s, input =>
    (.err .io, { s with remaining := [], remLoc := 0 }, ⟨input, script, false⟩)
  | .data n fds :: script, s, input =>
    let gotten := min (n + 1) (min s.offered input.length)
    -- nothing is left to receive
    if gotten = 0 then
      (.err .wouldBlock, { s with remaining := [], remLoc := 0 }, ⟨input, script, false⟩)
    else
      match handleChunk R (s.receive (input.take gotten) fds)
          ⟨input.drop gotten, script, false⟩ with
      | (some r, s, sock) => (r, s, sock)
      | (none, s, sock) => recvLoop R script s sock.input

/-- `get_next_message`.  A stream that was shut down reports the end of file. -/
def getNextMessage (R : Rustbus) (s : RecvState) (sock : Socket) :
    Res RecvError MarshalledMessage × RecvState × Socket :=
  match tryGetMsg R s sock with
  | (.err e, s, sock) => (.err e, s, sock)
  | (.panic, s, sock) => (.panic, s, sock)
  | (.ok (some raw), s, sock) => deliver R raw [] s sock
  | (.ok none, s, sock) =>
    if sock.shut then (.err .hungUp, { s with remaining := [], remLoc := 0 }, sock)
    else recvLoop R sock.script s sock.input

end RecvState

end AsyncRustbus
