import AsyncRustbus.Conn.Recv
import AsyncRustbus.Message.RoundTrip

set_option relaxedAutoImplicit false
set_option autoImplicit false

/-!
# Decoding in one pass

The parser of `conn/recv.rs` resumes at arbitrary points.  Here is what it computes, without
its buffers: `decodeRaw` cuts one message off the front of a byte string, and `decodeStream`
cuts off one after the other.  Every parser state continues such a decoding
(`InState.decode`), and `RecvState.tryBlock_spec` says that `try_get_msg` follows it.

## Main definitions

* `AsyncRustbus.decodeRaw` — the first message of a byte string.
* `AsyncRustbus.decodeStream` — all messages of a byte string.
* `AsyncRustbus.InState.decode` — the decoding that a parser state continues.
* `AsyncRustbus.InState.Bounded` — the parser state holds no byte it does not need.

## Main results

* `AsyncRustbus.decodeRaw_append` — a decoding that has ended does not depend on what follows.
* `AsyncRustbus.decodeStream_eq` — `decodeStream` without fuel.
* `AsyncRustbus.RecvState.tryBlock_spec` — `try_get_msg` follows the decoding.
-/

namespace AsyncRustbus

/-- The outcome of decoding the first message of a byte string. -/
inductive Decoded
  /-- More bytes are needed. -/
  | more
  /-- The bytes violate the protocol; `rest` stands behind what was looked at. -/
  | fail (e : RecvError) (rest : Bytes)
  /-- The code panics. -/
  | panic
  /-- A message, and what stands behind it. -/
  | raw (msg : RawMessage) (rest : Bytes)

/-- The body: `body_len` bytes. -/
def decodeBody (hdr : Header) (dynhdr : DynamicHeader) (bytes : Bytes) : Decoded :=
  if bytes.length < hdr.bodyLen.toNat then .more
  else .raw (hdr, dynhdr, bytes.take hdr.bodyLen.toNat) (bytes.drop hdr.bodyLen.toNat)

/-- The header fields behind a fixed header (which `bytes` starts with), then the body. -/
def decodeDynHdr (R : Rustbus) (withFd : Bool) (hdr : Header) (bytes : Bytes) : Decoded :=
  if bytes.length < 16 then .more
  else if bytes.length < totalHdrLen hdr.byteorder bytes then .more
  else
    match parseDynHdr R withFd hdr (bytes.take (totalHdrLen hdr.byteorder bytes)) with
    | .err e => .fail e (bytes.drop (totalHdrLen hdr.byteorder bytes))
    | .panic => .panic
    | .ok dynhdr => decodeBody hdr dynhdr (bytes.drop (totalHdrLen hdr.byteorder bytes))

/-- The first message of a byte string. -/
def decodeRaw (R : Rustbus) (withFd : Bool) (bytes : Bytes) : Decoded :=
  if bytes.length < 12 then .more
  else
    match R.unmarshalHeader (bytes.take 12) with
    | none => .fail .badFixedHeader (bytes.drop 12)
    | some hdr => decodeDynHdr R withFd hdr bytes

/-- What becomes of a message that came without descriptors. -/
def outcome (R : Rustbus) (withFd : Bool) (raw : RawMessage) : Res RecvError MarshalledMessage :=
  if withFd ∧ (raw.2.1.numFds.getD 0).toNat ≠ 0 then .err .unexpectedFds
  else
    match (RecvState.mmFromRaw raw []).body.validate R with
    | .ok _ => .ok (RecvState.mmFromRaw raw [])
    | .error e => .err (.badBody e)

/-- The results that a decoding stands for, when `next` gives those of the rest. -/
def emit (R : Rustbus) (withFd : Bool) (next : Bytes → List (Res RecvError MarshalledMessage)) :
    Decoded → List (Res RecvError MarshalledMessage)
  | .more => []
  | .fail e _ => [.err e]
  | .panic => [.panic]
  | .raw raw rest =>
    match outcome R withFd raw with
    | .ok msg => .ok msg :: next rest
    | r => [r]

/-- Decode with a bound on the number of messages. -/
def decodeStreamFuel (R : Rustbus) (withFd : Bool) :
    ℕ → Bytes → List (Res RecvError MarshalledMessage)
  | 0, _ => []
  | fuel + 1, bytes => emit R withFd (decodeStreamFuel R withFd fuel) (decodeRaw R withFd bytes)

/-- **One-pass decoding**: all messages of a byte string, up to and including the first
violation.  A message has at least sixteen bytes, so the length is bound enough. -/
def decodeStream (R : Rustbus) (withFd : Bool) (bytes : Bytes) :
    List (Res RecvError MarshalledMessage) :=
  decodeStreamFuel R withFd bytes.length bytes

/-! ## Lengths -/

/-- A header has at least sixteen bytes. -/
lemma le_totalHdrLen (bo : ByteOrder) (buf : Bytes) : 16 ≤ totalHdrLen bo buf := by
  have h := le_alignNum (headerLen + 4 + (parseU32 ((buf.drop headerLen).take 4) bo).toNat) 8
  have hlen : headerLen = 12 := rfl
  unfold totalHdrLen
  omega

/-- The length of a header is fixed by its first sixteen bytes. -/
lemma totalHdrLen_append (bo : ByteOrder) (buf t : Bytes) (h : 16 ≤ buf.length) :
    totalHdrLen bo (buf ++ t) = totalHdrLen bo buf := by
  have h12 : headerLen ≤ buf.length := by
    unfold headerLen
    omega
  have h4 : 4 ≤ (buf.drop headerLen).length := by
    unfold headerLen
    rw [List.length_drop]
    omega
  rw [totalHdrLen, List.drop_append_of_le_length h12, List.take_append_of_le_length h4]
  rfl

/-- The length of a header is read from a prefix of at least sixteen bytes. -/
lemma totalHdrLen_take (bo : ByteOrder) (buf : Bytes) (n : ℕ) (h : 16 ≤ n)
    (hn : n ≤ buf.length) : totalHdrLen bo (buf.take n) = totalHdrLen bo buf := by
  conv_rhs => rw [← List.take_append_drop n buf]
  rw [totalHdrLen_append bo (buf.take n) (buf.drop n) (by simp; omega)]

/-- What stands behind a message or a violation is shorter. -/
def Decoded.RestLt (n : ℕ) : Decoded → Prop
  | .raw _ rest | .fail _ rest => rest.length < n
  | _ => True

/-- Decoding consumes bytes.

**Proof sketch.** Following the decoding: a failed header takes the twelve bytes, a failed list of
header fields takes the header, and a message takes the header and the body. The header is at least
sixteen bytes long (`le_totalHdrLen`). -/
lemma decodeRaw_restLt (R : Rustbus) (withFd : Bool) (bytes : Bytes) :
    (decodeRaw R withFd bytes).RestLt bytes.length := by
  unfold decodeRaw
  split_ifs with h12
  · trivial
  · cases R.unmarshalHeader (bytes.take 12) with
    | none =>
      simp only [Decoded.RestLt, List.length_drop]
      omega
    | some hdr =>
      have hle := le_totalHdrLen hdr.byteorder bytes
      simp only [decodeDynHdr]
      split_ifs
      · trivial
      · trivial
      · cases parseDynHdr R withFd hdr (bytes.take (totalHdrLen hdr.byteorder bytes)) with
        | err e =>
          simp only [Decoded.RestLt, List.length_drop]
          omega
        | panic => trivial
        | ok dynhdr =>
          simp only [decodeBody]
          split_ifs
          · trivial
          · simp only [Decoded.RestLt, List.length_drop]
            omega

/-- A larger bound changes nothing.

**Proof sketch.** By induction on the fuel. A message takes at least one byte (`decodeRaw_restLt`),
so both bounds still cover the rest; every other result ends the decoding. -/
lemma decodeStreamFuel_eq (R : Rustbus) (withFd : Bool) (fuel fuel' : ℕ) (bytes : Bytes)
    (h : bytes.length ≤ fuel) (h' : bytes.length ≤ fuel') :
    decodeStreamFuel R withFd fuel bytes = decodeStreamFuel R withFd fuel' bytes := by
  induction fuel generalizing fuel' bytes with
  | zero =>
    have hnil : bytes = [] := List.length_eq_zero_iff.mp (by omega)
    subst hnil
    cases fuel' with
    | zero => rfl
    | succ fuel' => rfl
  | succ fuel ih =>
    cases fuel' with
    | zero =>
      have hnil : bytes = [] := List.length_eq_zero_iff.mp (by omega)
      subst hnil
      rfl
    | succ fuel' =>
      have hrest := decodeRaw_restLt R withFd bytes
      simp only [decodeStreamFuel]
      cases hd : decodeRaw R withFd bytes with
      | more => rfl
      | fail e rest => rfl
      | panic => rfl
      | raw raw rest =>
        rw [hd] at hrest
        simp only [Decoded.RestLt] at hrest
        simp only [emit]
        rw [ih fuel' rest (by omega) (by omega)]

/-- One-pass decoding without fuel. -/
theorem decodeStream_eq (R : Rustbus) (withFd : Bool) (bytes : Bytes) :
    decodeStream R withFd bytes =
      emit R withFd (decodeStream R withFd) (decodeRaw R withFd bytes) := by
  have hrest := decodeRaw_restLt R withFd bytes
  rw [decodeStream, decodeStreamFuel_eq R withFd bytes.length (bytes.length + 1) bytes (by omega)
    (by omega), decodeStreamFuel]
  cases hd : decodeRaw R withFd bytes with
  | more => rfl
  | fail e rest => rfl
  | panic => rfl
  | raw raw rest =>
    rw [hd] at hrest
    simp only [Decoded.RestLt] at hrest
    simp only [emit]
    rw [decodeStream, decodeStreamFuel_eq R withFd bytes.length rest.length rest (by omega)
      (by omega)]

/-! ## What follows does not matter -/

/-- A decoding with `t` behind the bytes that were not looked at. -/
def Decoded.followedBy (t : Bytes) : Decoded → Decoded
  | .more => .more
  | .fail e rest => .fail e (rest ++ t)
  | .panic => .panic
  | .raw msg rest => .raw msg (rest ++ t)

/-- A body that has ended does not depend on what follows. -/
lemma decodeBody_append (hdr : Header) (dynhdr : DynamicHeader) (bytes t : Bytes)
    (h : decodeBody hdr dynhdr bytes ≠ .more) :
    decodeBody hdr dynhdr (bytes ++ t) = (decodeBody hdr dynhdr bytes).followedBy t := by
  unfold decodeBody at h ⊢
  split_ifs at h with hlen
  · exact absurd rfl h
  · rw [if_neg (by rw [List.length_append]; omega), if_neg hlen,
      List.take_append_of_le_length (by omega), List.drop_append_of_le_length (by omega)]
    rfl

/-- Header fields that have ended do not depend on what follows. -/
lemma decodeDynHdr_append (R : Rustbus) (withFd : Bool) (hdr : Header) (bytes t : Bytes)
    (h : decodeDynHdr R withFd hdr bytes ≠ .more) :
    decodeDynHdr R withFd hdr (bytes ++ t) = (decodeDynHdr R withFd hdr bytes).followedBy t := by
  by_cases h16 : bytes.length < 16
  · exact absurd (by rw [decodeDynHdr, if_pos h16]) h
  by_cases htotal : bytes.length < totalHdrLen hdr.byteorder bytes
  · exact absurd (by rw [decodeDynHdr, if_neg h16, if_pos htotal]) h
  have h16' : ¬ (bytes ++ t).length < 16 := by
    rw [List.length_append]
    omega
  have htotal' : ¬ (bytes ++ t).length < totalHdrLen hdr.byteorder bytes := by
    rw [List.length_append]
    omega
  unfold decodeDynHdr at h ⊢
  rw [if_neg h16, if_neg htotal] at h
  rw [if_neg h16, if_neg htotal, if_neg h16', totalHdrLen_append _ _ _ (by omega), if_neg htotal',
    List.take_append_of_le_length (by omega), List.drop_append_of_le_length (by omega)]
  cases hparse : parseDynHdr R withFd hdr (bytes.take (totalHdrLen hdr.byteorder bytes)) with
  | err e => rfl
  | panic => rfl
  | ok dynhdr =>
    rw [hparse] at h
    exact decodeBody_append hdr dynhdr _ t h

/-- The fixed header is decoded, then the header fields are. -/
lemma decodeRaw_eq_decodeDynHdr {R : Rustbus} {bytes : Bytes} {hdr : Header}
    (h12 : 12 ≤ bytes.length) (hhdr : R.unmarshalHeader (bytes.take 12) = some hdr)
    (withFd : Bool) (t : Bytes) :
    decodeRaw R withFd (bytes ++ t) = decodeDynHdr R withFd hdr (bytes ++ t) := by
  have h12' : ¬ (bytes ++ t).length < 12 := by
    rw [List.length_append]
    omega
  rw [decodeRaw, if_neg h12', List.take_append_of_le_length h12, hhdr]

/-- **A decoding that has ended does not depend on what follows.** -/
theorem decodeRaw_append (R : Rustbus) (withFd : Bool) (bytes t : Bytes)
    (h : decodeRaw R withFd bytes ≠ .more) :
    decodeRaw R withFd (bytes ++ t) = (decodeRaw R withFd bytes).followedBy t := by
  by_cases h12 : bytes.length < 12
  · exact absurd (by rw [decodeRaw, if_pos h12]) h
  have h12' : ¬ (bytes ++ t).length < 12 := by
    rw [List.length_append]
    omega
  unfold decodeRaw at h ⊢
  rw [if_neg h12] at h
  rw [if_neg h12, if_neg h12', List.take_append_of_le_length (by omega),
    List.drop_append_of_le_length (by omega)]
  cases hhdr : R.unmarshalHeader (bytes.take 12) with
  | none => rfl
  | some hdr =>
    rw [hhdr] at h
    exact decodeDynHdr_append R withFd hdr bytes t h

/-- The errors of the header checks shut the stream down. -/
lemma shutsDown_of_parseDynHdr {R : Rustbus} {withFd : Bool} {hdr : Header} {buf : Bytes}
    {e : RecvError} (h : parseDynHdr R withFd hdr buf = .err e) : e.shutsDown = true := by
  unfold parseDynHdr at h
  repeat' split at h
  all_goals cases h
  all_goals rfl

/-- The errors of decoding header fields shut the stream down. -/
lemma shutsDown_of_decodeDynHdr {R : Rustbus} {withFd : Bool} {hdr : Header}
    {bytes rest : Bytes} {e : RecvError} (h : decodeDynHdr R withFd hdr bytes = .fail e rest) :
    e.shutsDown = true := by
  unfold decodeDynHdr at h
  split_ifs at h
  cases hparse : parseDynHdr R withFd hdr (bytes.take (totalHdrLen hdr.byteorder bytes)) with
  | err e' =>
    simp only [hparse, Decoded.fail.injEq] at h
    exact h.1 ▸ shutsDown_of_parseDynHdr hparse
  | panic => simp [hparse] at h
  | ok dynhdr =>
    simp only [hparse, decodeBody] at h
    split_ifs at h

/-! ## Parser states -/

namespace InState

/-- The decoding that a parser state continues. -/
def decode (R : Rustbus) (withFd : Bool) : InState → Bytes → Decoded
  | .header b, t => decodeRaw R withFd (b ++ t)
  | .dynHdr hdr b, t => decodeDynHdr R withFd hdr (b ++ t)
  | .finishing hdr dynhdr b, t => decodeBody hdr dynhdr (b ++ t)

/-- The parser state holds no byte it does not need, and without descriptors its header
announces none. -/
def Bounded (withFd : Bool) : InState → Prop
  | .header b => b.length ≤ 16
  | .dynHdr hdr b => b.length ≤ 16 ∨ b.length ≤ totalHdrLen hdr.byteorder b
  | .finishing hdr dynhdr b =>
    b.length ≤ hdr.bodyLen.toNat ∧ (withFd = false → dynhdr.numFds.getD 0 = 0)

/-- A decoding that has ended does not depend on what follows. -/
lemma decode_append (R : Rustbus) (withFd : Bool) (st : InState) (bytes t : Bytes)
    (h : st.decode R withFd bytes ≠ .more) :
    st.decode R withFd (bytes ++ t) = (st.decode R withFd bytes).followedBy t := by
  cases st with
  | header b =>
    simp only [decode, ← List.append_assoc] at h ⊢
    exact decodeRaw_append R withFd _ t h
  | dynHdr hdr b =>
    simp only [decode, ← List.append_assoc] at h ⊢
    exact decodeDynHdr_append R withFd hdr _ t h
  | finishing hdr dynhdr b =>
    simp only [decode, ← List.append_assoc] at h ⊢
    exact decodeBody_append hdr dynhdr _ t h

/-- The errors of decoding shut the stream down. -/
lemma shutsDown_of_decode {R : Rustbus} {withFd : Bool} {st : InState} {bytes rest : Bytes}
    {e : RecvError} (h : st.decode R withFd bytes = .fail e rest) : e.shutsDown = true := by
  cases st with
  | header b =>
    simp only [decode, decodeRaw] at h
    split_ifs at h
    cases hhdr : R.unmarshalHeader ((b ++ bytes).take 12) with
    | none =>
      simp only [hhdr, Decoded.fail.injEq] at h
      rw [← h.1]
      rfl
    | some hdr =>
      simp only [hhdr] at h
      exact shutsDown_of_decodeDynHdr h
  | dynHdr hdr b => exact shutsDown_of_decodeDynHdr h
  | finishing hdr dynhdr b =>
    simp only [decode, decodeBody] at h
    split_ifs at h

/-- A state whose buffer is extended continues behind the new bytes. -/
lemma decode_extend (R : Rustbus) (withFd : Bool) (st : InState) (bytes t : Bytes) :
    (st.extend bytes).decode R withFd t = st.decode R withFd (bytes ++ t) := by
  cases st <;> simp [extend, decode]

end InState

/-! ## `try_get_msg` follows the decoding -/

/-- `extend_max` on the buffer and what is left: it takes everything if that is too little, and
otherwise cuts at the target (or at the end of the buffer, where that lies behind).

**Proof sketch.** By the three cases of the function: the buffer reaches the target already, what is
left is too little, or the missing bytes are taken from it. The lengths give which side of the
statement holds. -/
lemma extendMax_spec (vec buf : Bytes) (loc target : ℕ) (hloc : loc ≤ buf.length) :
    ((vec ++ buf.drop loc).length < target ∧
      extendMax vec buf loc target = (false, vec ++ buf.drop loc, buf.length)) ∨
    (target ≤ (vec ++ buf.drop loc).length ∧ ∃ loc' ≤ buf.length,
      extendMax vec buf loc target =
        (true, (vec ++ buf.drop loc).take (max target vec.length), loc') ∧
      buf.drop loc' = (vec ++ buf.drop loc).drop (max target vec.length)) := by
  unfold extendMax
  have hlen : (buf.drop loc).length = buf.length - loc := List.length_drop
  by_cases hge : vec.length ≥ target
  · refine Or.inr ⟨by rw [List.length_append]; omega, loc, hloc, ?_, ?_⟩
    · rw [if_pos hge, max_eq_right hge, List.take_left]
    · rw [max_eq_right hge, List.drop_left]
  · have hmax : max target vec.length = target := max_eq_left (by omega)
    rw [if_neg hge, hmax]
    by_cases hfew : target - vec.length > (buf.drop loc).length
    · refine Or.inl ⟨by rw [List.length_append]; omega, ?_⟩
      simp only [if_pos hfew]
      rw [hlen, show loc + (buf.length - loc) = buf.length by omega]
    · refine Or.inr ⟨by rw [List.length_append]; omega, loc + (target - vec.length), by omega, ?_,
        ?_⟩
      · simp only [if_neg hfew, List.take_append]
        rw [List.take_of_length_le (by omega : vec.length ≤ target)]
      · rw [List.drop_append, List.drop_eq_nil_of_le (by omega : vec.length ≤ target),
          List.nil_append, List.drop_drop]

namespace RecvState

/-- Only the parser state and the position in `remaining` change. -/
structure Keeps (s s' : RecvState) : Prop where
  inFds : s'.inFds = s.inFds
  remaining : s'.remaining = s.remaining
  withFd : s'.withFd = s.withFd
  remCap : s'.remCap = s.remCap
  remLoc : s'.remLoc ≤ s'.remaining.length

/-- What `try_get_msg` does where `f` decodes the bytes in front of it.  A fixed header that is
refused is dropped with the whole buffer, so what is left behind it is only determined where
the buffer holds nothing behind the fixed header (`small`). -/
inductive TrySpec (R : Rustbus) (s : RecvState) (f : Bytes → Decoded) (small : Prop) :
    Res RecvError (Option RawMessage) × RecvState → Prop
  | more (s' : RecvState) (hf : f s.leftover = .more) (hkeeps : s.Keeps s')
      (hleft : s'.leftover = [])
      (hres : ∀ t, s'.inState.decode R s.withFd t = f (s.leftover ++ t))
      (hbounded : s'.inState.Bounded s.withFd) (hneed : 0 < s'.inState.bytesNeededForNext) :
      TrySpec R s f small (.ok none, s')
  | fail (e : RecvError) (rest : Bytes) (s' : RecvState) (hf : f s.leftover = .fail e rest)
      (hkeeps : s.Keeps s') (hleft : small → s'.leftover = rest) : TrySpec R s f small (.err e, s')
  | panic (s' : RecvState) (hf : f s.leftover = .panic) (hkeeps : s.Keeps s')
      (hres : ∀ t, s'.inState.decode R s.withFd t = .panic)
      (hbounded : s'.inState.Bounded s.withFd) : TrySpec R s f small (.panic, s')
  | raw (msg : RawMessage) (rest : Bytes) (s' : RecvState) (hf : f s.leftover = .raw msg rest)
      (hkeeps : s.Keeps s') (hstate : s'.inState = .header []) (hleft : s'.leftover = rest)
      (hfds : s.withFd = false → msg.2.1.numFds.getD 0 = 0) :
      TrySpec R s f small (.ok (some msg), s')

variable {R : Rustbus} {s : RecvState}

/-- Steps that keep the buffers compose. -/
lemma Keeps.trans {s₁ s₂ : RecvState} (h : s.Keeps s₁) (h' : s₁.Keeps s₂) : s.Keeps s₂ :=
  ⟨h'.inFds.trans h.inFds, h'.remaining.trans h.remaining, h'.withFd.trans h.withFd,
    h'.remCap.trans h.remCap, h'.remLoc⟩

/-- A branch that hands over to the next one does what that one does. -/
lemma TrySpec.of_keeps {s₁ : RecvState} {f g : Bytes → Decoded} {small small' : Prop}
    {res : Res RecvError (Option RawMessage) × RecvState} (h : TrySpec R s₁ g small' res)
    (hkeeps : s.Keeps s₁) (hfg : ∀ t, f (s.leftover ++ t) = g (s₁.leftover ++ t))
    (hsmall : small → small') : TrySpec R s f small res := by
  have hfg₀ : f s.leftover = g s₁.leftover := by simpa using hfg []
  have hfd := hkeeps.withFd
  cases h with
  | more s' hf hkeeps' hleft hres hbounded hneed =>
    rw [hfd] at hres hbounded
    exact .more s' (hfg₀.trans hf) (hkeeps.trans hkeeps') hleft
      (fun t => (hres t).trans (hfg t).symm) hbounded hneed
  | fail e rest s' hf hkeeps' hleft =>
    exact .fail e rest s' (hfg₀.trans hf) (hkeeps.trans hkeeps') fun h => hleft (hsmall h)
  | panic s' hf hkeeps' hres hbounded =>
    rw [hfd] at hres hbounded
    exact .panic s' (hfg₀.trans hf) (hkeeps.trans hkeeps') hres hbounded
  | raw msg rest s' hf hkeeps' hstate hleft hfds =>
    rw [hfd] at hfds
    exact .raw msg rest s' (hfg₀.trans hf) (hkeeps.trans hkeeps') hstate hleft hfds

/-- The `Finishing` branch decodes the body. -/
lemma tryFinishing_spec {hdr : Header} {dynhdr : DynamicHeader} {bodyBuf : Bytes}
    (hloc : s.remLoc ≤ s.remaining.length) (hlen : bodyBuf.length ≤ hdr.bodyLen.toNat)
    (hfds : s.withFd = false → dynhdr.numFds.getD 0 = 0) (small : Prop) :
    TrySpec R s (fun t => decodeBody hdr dynhdr (bodyBuf ++ t)) small
      (tryFinishing s hdr dynhdr bodyBuf) := by
  unfold tryFinishing
  rcases extendMax_spec bodyBuf s.remaining s.remLoc hdr.bodyLen.toNat hloc with
    ⟨hfew, hext⟩ | ⟨henough, loc', hloc', hext, hdrop⟩
  · rw [hext]
    refine .more _ ?_ ⟨rfl, rfl, rfl, rfl, le_refl _⟩ (by simp [leftover]) ?_ ⟨hfew.le, hfds⟩ ?_
    · exact if_pos hfew
    · intro t
      simp only [InState.decode, leftover, List.append_assoc]
    · exact Nat.sub_pos_of_lt hfew
  · rw [max_eq_left hlen] at hext hdrop
    rw [hext]
    refine .raw _ _ _ ?_ ⟨rfl, rfl, rfl, rfl, hloc'⟩ rfl hdrop hfds
    exact if_neg (by simpa [leftover] using henough)

/-- Without descriptors a header that announces some is refused. -/
lemma numFds_of_parseDynHdr {withFd : Bool} {hdr : Header} {buf : Bytes} {d : DynamicHeader}
    (h : parseDynHdr R withFd hdr buf = .ok d) (hfd : withFd = false) : d.numFds.getD 0 = 0 := by
  subst hfd
  unfold parseDynHdr at h
  repeat' split at h
  all_goals cases h
  rename_i hnot
  simpa using hnot

/-- The `DynHdr` branch behind a complete header: it is checked, and the body follows.

**Proof sketch.** `H`, the header that is complete, determines what the decoding does with it and
any bytes `t` behind it: it parses `H` and goes on with `t` as the body. The branch does the same:
an error or a panic of the parser is that of the decoding, and after a success the body is left to
`tryFinishing_spec`. -/
lemma tryParsed_spec {hdr : Header} {T : Bytes}
    (hloc : s.remLoc ≤ s.remaining.length) (htotal : totalHdrLen hdr.byteorder T ≤ T.length)
    (hstate : s.inState = .dynHdr hdr (T.take (totalHdrLen hdr.byteorder T))) (small : Prop) :
    TrySpec R s
      (fun t => decodeDynHdr R s.withFd hdr (T.take (totalHdrLen hdr.byteorder T) ++ t)) small
      (match parseDynHdr R s.withFd hdr (T.take (totalHdrLen hdr.byteorder T)) with
        | .err e => (.err e, s)
        | .panic => (.panic, s)
        | .ok dynhdr => tryFinishing s hdr dynhdr []) := by
  obtain ⟨H, hH⟩ : ∃ H, H = T.take (totalHdrLen hdr.byteorder T) := ⟨_, rfl⟩
  have hle := le_totalHdrLen hdr.byteorder T
  have hHtotal : totalHdrLen hdr.byteorder H = totalHdrLen hdr.byteorder T := by
    rw [hH, totalHdrLen_take _ _ _ hle htotal]
  have hHlen : H.length = totalHdrLen hdr.byteorder H := by
    rw [hHtotal, hH, List.length_take]
    omega
  have hkeeps : s.Keeps s := ⟨rfl, rfl, rfl, rfl, hloc⟩
  rw [← hH] at hstate ⊢
  -- what decoding does behind the header
  have hdecode : ∀ t, decodeDynHdr R s.withFd hdr (H ++ t) =
      match parseDynHdr R s.withFd hdr H with
      | .err e => .fail e t
      | .panic => .panic
      | .ok dynhdr => decodeBody hdr dynhdr t := by
    intro t
    have h16' : ¬ (H ++ t).length < 16 := by
      rw [List.length_append]
      omega
    have htotal' : ¬ (H ++ t).length < totalHdrLen hdr.byteorder H := by
      rw [List.length_append]
      omega
    rw [decodeDynHdr, if_neg h16', totalHdrLen_append _ _ _ (by omega), if_neg htotal', ← hHlen,
      List.take_left, List.drop_left]
  cases hparse : parseDynHdr R s.withFd hdr H with
  | err e =>
    rw [hparse] at hdecode
    exact .fail e _ _ (hdecode _) hkeeps fun _ => rfl
  | panic =>
    rw [hparse] at hdecode
    refine .panic _ (hdecode _) hkeeps (fun t => ?_) ?_
    · rw [hstate]
      exact hdecode t
    · rw [hstate]
      exact Or.inr hHlen.le
  | ok dynhdr =>
    rw [hparse] at hdecode
    refine (tryFinishing_spec hloc (Nat.zero_le _) (numFds_of_parseDynHdr hparse) small).of_keeps
      hkeeps (fun t => ?_) id
    exact hdecode _

/-- The `DynHdr` branch decodes the header fields and the body.

**Proof sketch.** Let `T` be the buffer and what is left. The first `extend_max` (`extendMax_spec`)
fails iff `T` is shorter than sixteen bytes, and then the decoding waits as well. Otherwise it cuts
at sixteen, or at the end of the buffer where that lies behind; the total length can be read there
and is that of `T` (`totalHdrLen_take`). The second one fails iff `T` is shorter than that length;
otherwise the buffer is the header, what is left is the rest of `T`, and `tryParsed_spec` does the
remaining part. -/
lemma tryDynHdr_spec {hdr : Header} {dynBuf : Bytes} (hloc : s.remLoc ≤ s.remaining.length)
    (hlen : dynBuf.length ≤ 16 ∨ dynBuf.length ≤ totalHdrLen hdr.byteorder dynBuf)
    (small : Prop) :
    TrySpec R s (fun t => decodeDynHdr R s.withFd hdr (dynBuf ++ t)) small
      (tryDynHdr R s hdr dynBuf) := by
  obtain ⟨T, hT⟩ : ∃ T, T = dynBuf ++ s.remaining.drop s.remLoc := ⟨_, rfl⟩
  have hTlen : dynBuf.length ≤ T.length := by simp [hT]
  have hle16 := le_totalHdrLen hdr.byteorder T
  have hstop : ∀ t, decodeDynHdr R s.withFd hdr (T ++ t) =
      decodeDynHdr R s.withFd hdr (dynBuf ++ (s.leftover ++ t)) := by
    intro t
    rw [hT, leftover, List.append_assoc]
  unfold tryDynHdr
  rcases extendMax_spec dynBuf s.remaining s.remLoc (headerLen + 4) hloc with
    ⟨hfew, hext⟩ | ⟨henough, loc₁, hloc₁, hext, hdrop₁⟩
  · -- the array length is not there yet
    rw [← hT, show headerLen + 4 = 16 from rfl] at hfew
    rw [hext, ← hT]
    refine .more _ ?_ ⟨rfl, rfl, rfl, rfl, le_refl _⟩ (by simp [leftover]) hstop
      (Or.inl hfew.le) ?_
    · rw [leftover, ← hT, decodeDynHdr, if_pos hfew]
    · simp only [InState.bytesNeededForNext]
      rw [if_pos hfew]
      omega
  rw [← hT, show headerLen + 4 = 16 from rfl] at henough hext hdrop₁
  obtain ⟨n, hn⟩ : ∃ n, n = max 16 dynBuf.length := ⟨_, rfl⟩
  rw [← hn] at hext hdrop₁
  have htotal : totalHdrLen hdr.byteorder (T.take n) = totalHdrLen hdr.byteorder T :=
    totalHdrLen_take _ _ _ (by omega) (by omega)
  have hnle : n ≤ totalHdrLen hdr.byteorder T := by
    rcases hlen with hlen | hlen
    · omega
    · by_cases h16 : dynBuf.length ≤ 16
      · omega
      · rw [hT, totalHdrLen_append _ _ _ (by omega), hn]
        omega
  have hcut : T.take n ++ s.remaining.drop loc₁ = T := by rw [hdrop₁, List.take_append_drop]
  rw [show headerLen + 4 = 16 from rfl, hext]
  dsimp only
  rcases extendMax_spec (T.take n) s.remaining loc₁ (totalHdrLen hdr.byteorder (T.take n))
    hloc₁ with ⟨hfew, hext₂⟩ | ⟨henough₂, loc₂, hloc₂, hext₂, hdrop₂⟩
  · -- the header is not complete yet
    rw [hcut, htotal] at hfew
    rw [hext₂, hcut]
    refine .more _ ?_ ⟨rfl, rfl, rfl, rfl, le_refl _⟩ (by simp [leftover]) hstop
      (Or.inr hfew.le) ?_
    · rw [leftover, ← hT, decodeDynHdr, if_neg (by omega), if_pos hfew]
    · simp only [InState.bytesNeededForNext]
      rw [if_neg (by omega)]
      omega
  · rw [hcut, htotal] at henough₂
    have hmax : max (totalHdrLen hdr.byteorder (T.take n)) (T.take n).length =
        totalHdrLen hdr.byteorder T := by
      rw [htotal, List.length_take]
      omega
    rw [hcut, hmax] at hext₂ hdrop₂
    rw [hext₂]
    dsimp only
    refine (tryParsed_spec (s := { s with
      inState := .dynHdr hdr (T.take (totalHdrLen hdr.byteorder T)), remLoc := loc₂ })
      hloc₂ henough₂ rfl small).of_keeps ⟨rfl, rfl, rfl, rfl, hloc₂⟩
      (fun t => ?_) id
    change decodeDynHdr R s.withFd hdr (dynBuf ++ (s.leftover ++ t)) =
      decodeDynHdr R s.withFd hdr (_ ++ (s.remaining.drop loc₂ ++ t))
    rw [hdrop₂, ← List.append_assoc (T.take _), List.take_append_drop, hstop]

/-- The `Header` branch decodes a whole message.

**Proof sketch.** Let `T` be the buffer and what is left. `extend_max` (`extendMax_spec`) fails iff
`T` is shorter than twelve bytes, and then the decoding waits as well. Otherwise the fixed part is
parsed from twelve bytes or a few more, which makes no difference by `hR`. An error is that of the
decoding, and a header goes on to `tryDynHdr_spec`. -/
lemma tryHeader_spec (hR : R.ReadsFixedPart) {hdrBuf : Bytes}
    (hloc : s.remLoc ≤ s.remaining.length) (hlen : hdrBuf.length ≤ 16) :
    TrySpec R s (fun t => decodeRaw R s.withFd (hdrBuf ++ t)) (hdrBuf.length ≤ 12)
      (tryHeader R s hdrBuf) := by
  obtain ⟨T, hT⟩ : ∃ T, T = hdrBuf ++ s.remaining.drop s.remLoc := ⟨_, rfl⟩
  have hTlen : hdrBuf.length ≤ T.length := by simp [hT]
  unfold tryHeader
  rcases extendMax_spec hdrBuf s.remaining s.remLoc headerLen hloc with
    ⟨hfew, hext⟩ | ⟨henough, loc₁, hloc₁, hext, hdrop₁⟩
  · rw [← hT, show headerLen = 12 from rfl] at hfew
    rw [hext, ← hT]
    refine .more _ ?_ ⟨rfl, rfl, rfl, rfl, le_refl _⟩ (by simp [leftover]) (fun t => ?_) ?_ ?_
    · rw [leftover, ← hT, decodeRaw, if_pos hfew]
    · simp only [InState.decode, hT, leftover, List.append_assoc]
    · simp only [InState.Bounded]
      omega
    · simp only [InState.bytesNeededForNext, headerLen]
      omega
  rw [← hT, show headerLen = 12 from rfl] at henough hext hdrop₁
  obtain ⟨n, hn⟩ : ∃ n, n = max 12 hdrBuf.length := ⟨_, rfl⟩
  rw [← hn] at hext hdrop₁
  have hbuf : (T.take n).length = n := by
    rw [List.length_take]
    omega
  have hfixed : R.unmarshalHeader (T.take n) = R.unmarshalHeader (T.take 12) := by
    rw [hR (T.take n) (by omega), List.take_take, min_eq_left (by omega)]
  have hcut : T.take n ++ s.remaining.drop loc₁ = T := by rw [hdrop₁, List.take_append_drop]
  rw [show headerLen = 12 from rfl, hext]
  dsimp only
  rw [hfixed]
  cases hhdr : R.unmarshalHeader (T.take 12) with
  | none =>
    refine .fail _ (T.drop 12) _ ?_ ⟨rfl, rfl, rfl, rfl, hloc₁⟩ fun hsmall => ?_
    · rw [leftover, ← hT, decodeRaw, if_neg (by omega), hhdr]
    · rw [leftover, hdrop₁, hn, max_eq_left hsmall]
  | some hdr =>
    refine (tryDynHdr_spec (s := { s with inState := .header (T.take n), remLoc := loc₁ })
      hloc₁ (Or.inl (by omega)) (hdrBuf.length ≤ 12)).of_keeps ⟨rfl, rfl, rfl, rfl, hloc₁⟩
      (fun t => ?_) id
    change decodeRaw R s.withFd (hdrBuf ++ (s.leftover ++ t)) =
      decodeDynHdr R s.withFd hdr (T.take n ++ (s.remaining.drop loc₁ ++ t))
    rw [← List.append_assoc (T.take n), hcut, ← decodeRaw_eq_decodeDynHdr henough hhdr, hT,
      leftover, List.append_assoc]

/-- **`try_get_msg` follows the decoding** that the parser state continues, on the bytes left
in `remaining`. -/
theorem tryBlock_spec (hR : R.ReadsFixedPart) (hloc : s.remLoc ≤ s.remaining.length)
    (hbounded : s.inState.Bounded s.withFd) :
    TrySpec R s (s.inState.decode R s.withFd) (s.inState.buf.length ≤ 12) (tryBlock R s) := by
  unfold tryBlock
  cases hst : s.inState with
  | header b =>
    rw [hst] at hbounded
    exact tryHeader_spec hR hloc hbounded
  | dynHdr hdr b =>
    rw [hst] at hbounded
    exact tryDynHdr_spec hloc hbounded _
  | finishing hdr dynhdr b =>
    rw [hst] at hbounded
    exact tryFinishing_spec hloc hbounded.1 hbounded.2 _

end RecvState

end AsyncRustbus
