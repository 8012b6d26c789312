import AsyncRustbus.Conn.Chunking

set_option relaxedAutoImplicit false
set_option autoImplicit false

/-!
# Descriptors of incoming messages

Descriptors arrive beside the bytes and are tied to a message only by the read they come with.
On a connection with descriptors the receiver asks for no byte behind the message it is reading,
so the descriptors that have arrived when a message is complete are its own, however the stream
is cut.

## Main definitions

* `AsyncRustbus.Incoming` — a well-formed message with its descriptors.
* `AsyncRustbus.Read`, `AsyncRustbus.RecvState.runReads` — the calls of `recvmsg` of a run.
* `AsyncRustbus.currentLeft`, `AsyncRustbus.fdsBetween` — the rest of the current message, and the
  descriptors whose messages start in a read.

## Main results

* `AsyncRustbus.InState.bytesNeededForNext_le` — the parser needs no byte behind the message.
* `AsyncRustbus.RecvState.receiveAll_fds` — descriptors are received with their message.
-/

namespace AsyncRustbus

/-! ## Messages with descriptors -/

/-- A well-formed message with its descriptors: its bytes are one message, which declares that
many descriptors, at most 32, and has a valid body. -/
structure Incoming (R : Rustbus) where
  bytes : Bytes
  fds : List UnixFd
  raw : RawMessage
  decodes : decodeRaw R true bytes = .raw raw []
  declares : (raw.2.1.numFds.getD 0).toNat = fds.length
  few : fds.length ≤ dbusMaxFdMessage
  valid : (RecvState.mmFromRaw raw fds).body.validate R = .ok ()

variable {R : Rustbus}

namespace Incoming

/-- The message that should be returned: it has its own descriptors. -/
def message (m : Incoming R) : MarshalledMessage := RecvState.mmFromRaw m.raw m.fds

/-- The bytes of messages, one after the other. -/
def wire (ms : List (Incoming R)) : Bytes := ms.flatMap bytes

/-- A message is not empty. -/
lemma length_pos (m : Incoming R) : 0 < m.bytes.length := by
  by_contra hlen
  have hnil : m.bytes = [] := List.length_eq_zero_iff.mp (by omega)
  have hdec := m.decodes
  rw [hnil] at hdec
  cases hdec

/-- A first part of a message is not yet a message, unless it is all of it. -/
lemma decodeRaw_of_prefix (m : Incoming R) {got rest : Bytes} (h : got ++ rest = m.bytes) :
    decodeRaw R true got = .more ∨ (decodeRaw R true got = .raw m.raw [] ∧ rest = []) := by
  by_cases hmore : decodeRaw R true got = .more
  · exact .inl hmore
  · have hdec := m.decodes
    rw [← h, decodeRaw_append R true got rest hmore] at hdec
    cases hd : decodeRaw R true got with
    | more => exact .inl rfl
    | fail e rest' =>
      rw [hd] at hdec
      cases hdec
    | panic =>
      rw [hd] at hdec
      cases hdec
    | raw raw rest' =>
      rw [hd] at hdec
      simp only [Decoded.followedBy, Decoded.raw.injEq, List.append_eq_nil_iff] at hdec
      obtain ⟨rfl, rfl, rfl⟩ := hdec
      exact .inr ⟨rfl, rfl⟩

/-- A first part of a message does not violate the protocol, and the code does not panic on it. -/
lemma decodeRaw_ne_of_prefix (m : Incoming R) {got rest : Bytes} (h : got ++ rest = m.bytes) :
    (∀ e rest', decodeRaw R true got ≠ .fail e rest') ∧ decodeRaw R true got ≠ .panic := by
  rcases m.decodeRaw_of_prefix h with hmore | ⟨hraw, -⟩
  · rw [hmore]
    exact ⟨nofun, nofun⟩
  · rw [hraw]
    exact ⟨nofun, nofun⟩

end Incoming

open Incoming

/-- How many of the bytes to come belong to the message that is being read, when `left` bytes of
the stream are to come. -/
def currentLeft : List (Incoming R) → ℕ → ℕ
  | [], _ => 0
  | _ :: ms, left =>
    if left ≤ (wire ms).length then currentLeft ms left else left - (wire ms).length

/-- The descriptors that come with a read before which `left` bytes of the stream are to come and
after which `left'` are: those of the messages whose first byte is read. -/
def fdsBetween (left left' : ℕ) : List (Incoming R) → List UnixFd
  | [] => []
  | m :: ms =>
    (if left' < (wire (m :: ms)).length ∧ (wire (m :: ms)).length ≤ left then m.fds else []) ++
      fdsBetween left left' ms

/-- No message starts in a read of what is before them. -/
lemma fdsBetween_eq_nil {ms : List (Incoming R)} {left' : ℕ} (h : (wire ms).length ≤ left')
    (left : ℕ) : fdsBetween left left' ms = [] := by
  induction ms with
  | nil => rfl
  | cons m ms ih =>
    have hlen : (wire (m :: ms)).length = m.bytes.length + (wire ms).length := by simp [wire]
    rw [fdsBetween, if_neg (by omega), ih (by omega)]
    rfl

/-- Messages that have been read do not start again. -/
lemma fdsBetween_append (done : List (Incoming R)) {ms : List (Incoming R)} {left : ℕ}
    (h : left ≤ (wire ms).length) (left' : ℕ) :
    fdsBetween left left' (done ++ ms) = fdsBetween left left' ms := by
  induction done with
  | nil => rfl
  | cons m done ih =>
    have hlen : (wire (m :: (done ++ ms))).length =
        m.bytes.length + ((wire done).length + (wire ms).length) := by
      simp [wire]
    have hpos := m.length_pos
    rw [List.cons_append, fdsBetween, if_neg (by omega), ih]
    rfl

/-- Messages that have been read are not the current one. -/
lemma currentLeft_append (done : List (Incoming R)) {ms : List (Incoming R)} {left : ℕ}
    (h : left ≤ (wire ms).length) : currentLeft (done ++ ms) left = currentLeft ms left := by
  induction done with
  | nil => rfl
  | cons m done ih =>
    have hlen : (wire (done ++ ms)).length = (wire done).length + (wire ms).length := by
      simp [wire]
    rw [List.cons_append, currentLeft, if_pos (by omega), ih]

/-! ## What the parser asks for -/

/-- **The parser needs no byte behind the message**: where the bytes in front of it complete a
message, it needs no more than these.

**Proof sketch.** A message is decoded only if the header fields are complete (`hdyn`) and the body
is. By the state of the parser: the next boundary is the end of the fixed part, of the array length,
of the header or of the body, and each of them lies within the bytes. -/
theorem InState.bytesNeededForNext_le {withFd : Bool} {st : InState} {bytes rest : Bytes}
    {raw : RawMessage} (h : st.decode R withFd bytes = .raw raw rest) :
    st.bytesNeededForNext ≤ bytes.length := by
  -- the header fields are complete
  have hdyn : ∀ (hdr : Header) (b : Bytes), decodeDynHdr R withFd hdr b = .raw raw rest →
      16 ≤ b.length ∧ totalHdrLen hdr.byteorder b ≤ b.length := by
    intro hdr b hb
    unfold decodeDynHdr at hb
    split_ifs at hb with h16 htotal
    exact ⟨by omega, by omega⟩
  cases st with
  | header b =>
    simp only [decode, decodeRaw] at h
    split_ifs at h
    cases hhdr : R.unmarshalHeader ((b ++ bytes).take 12) with
    | none => simp [hhdr] at h
    | some hdr =>
      simp only [hhdr] at h
      have hlen := (hdyn hdr _ h).1
      rw [List.length_append] at hlen
      simp only [bytesNeededForNext, headerLen]
      omega
  | dynHdr hdr b =>
    obtain ⟨h16, htotal⟩ := hdyn hdr _ h
    rw [List.length_append] at h16 htotal
    simp only [bytesNeededForNext]
    split_ifs with hb
    · omega
    · rw [totalHdrLen_append _ _ _ (by omega)] at htotal
      omega
  | finishing hdr dynhdr b =>
    simp only [decode, decodeBody] at h
    split_ifs at h with hlen
    rw [List.length_append] at hlen
    simp only [bytesNeededForNext]
    omega

/-! ## The reads of a run -/

/-- A call of `recvmsg`: how many bytes of the stream were to come, how many it asked for, how many
it got, and the descriptors that came with them. -/
structure Read where
  left : ℕ
  requested : ℕ
  gotten : ℕ
  fds : List UnixFd

namespace RecvState

/-- The calls of `recvmsg` in the loop of `get_next_message`. -/
def loopReads (R : Rustbus) : List RecvEvent → RecvState → Bytes → List Read
  | .data n fds :: script, s, input =>
    let gotten := min (n + 1) (min s.offered input.length)
    if gotten = 0 then [⟨input.length, s.offered, 0, []⟩]
    else
      ⟨input.length, s.offered, gotten, fds⟩ ::
        match handleChunk R (s.receive (input.take gotten) fds)
            ⟨input.drop gotten, script, false⟩ with
        | (some _, _, _) => []
        | (none, s, sock) => loopReads R script s sock.input
  | _, s, input => [⟨input.length, s.offered, 0, []⟩]

/-- The calls of `recvmsg` in `get_next_message`. -/
def callReads (R : Rustbus) (s : RecvState) (sock : Socket) : List Read :=
  match tryGetMsg R s sock with
  | (.ok none, s, sock) => if sock.shut then [] else loopReads R sock.script s sock.input
  | _ => []

/-- The calls of `recvmsg` in `receiveAll`. -/
def runReads (R : Rustbus) : ℕ → RecvState → Socket → List Read
  | 0, _, _ => []
  | n + 1, s, sock =>
    callReads R s sock ++
      match getNextMessage R s sock with
      | (.ok _, s, sock) => runReads R n s sock
      | (.err .wouldBlock, s, sock) => runReads R n s sock
      | _ => []

/-- The stream hands the descriptors of each message over with the read that has its first
byte. -/
def HandsOver (ms : List (Incoming R)) (reads : List Read) : Prop :=
  ∀ r ∈ reads, r.fds = fdsBetween r.left (r.left - r.gotten) ms

/-- No read asks for a byte behind the message that is being read. -/
def StaysInMessage (ms : List (Incoming R)) (reads : List Read) : Prop :=
  ∀ r ∈ reads, 0 < r.left → r.requested ≤ currentLeft ms r.left

/-! ## One call -/

/-- The receiver is inside the first of the messages to come: it has read `got` of it, and its
descriptors if that is not nothing. -/
structure Midway (R : Rustbus) (s : RecvState) (got input : Bytes) (ms : List (Incoming R)) :
    Prop where
  withFd : s.withFd = true
  left : s.leftover = []
  remLoc : s.remLoc ≤ s.remaining.length
  bounded : s.inState.Bounded true
  continues : ∀ t, s.inState.decode R true t = decodeRaw R true (got ++ t)
  need : 0 < s.inState.bytesNeededForNext
  stream : got ++ input = wire ms
  inside : ∀ m ms', ms = m :: ms' → got.length < m.bytes.length
  noFds : got = [] → s.inFds = []
  fds : ∀ m ms', ms = m :: ms' → got ≠ [] → s.inFds = m.fds

/-- A receiver between two messages has read nothing of the next one. -/
lemma midway_of_header {s : RecvState} (hfd : s.withFd = true) (hleft : s.leftover = [])
    (hloc : s.remLoc ≤ s.remaining.length) (hstate : s.inState = .header [])
    (hfds : s.inFds = []) (ms : List (Incoming R)) : Midway R s [] (wire ms) ms := by
  refine ⟨hfd, hleft, hloc, ?_, fun t => ?_, ?_, rfl, fun m _ _ => m.length_pos, fun _ => hfds,
    fun _ _ _ hne => absurd rfl hne⟩
  · rw [hstate]
    exact Nat.zero_le _
  · rw [hstate]
    rfl
  · rw [hstate]
    exact Nat.zero_lt_succ 15

/-- A new receiver has read nothing. -/
lemma midway_new (remCap : ℕ) (ms : List (Incoming R)) :
    Midway R (new true remCap) [] (wire ms) ms :=
  midway_of_header rfl rfl (Nat.le_refl _) rfl rfl ms

variable {s : RecvState} {got input : Bytes} {m : Incoming R} {ms : List (Incoming R)}

/-- The bytes to come are the rest of the message and those of the messages behind it. -/
lemma Midway.rest (h : Midway R s got input (m :: ms)) :
    ∃ rest, got ++ rest = m.bytes ∧ rest ≠ [] ∧ input = rest ++ wire ms := by
  have hlt := h.inside m ms rfl
  rcases List.append_eq_append_iff.mp h.stream with ⟨t, hbytes, hinput⟩ | ⟨t, hgot, -⟩
  · refine ⟨t, hbytes.symm, ?_, hinput⟩
    rintro rfl
    rw [hbytes, List.append_nil] at hlt
    exact absurd hlt (lt_irrefl _)
  · rw [hgot, List.length_append] at hlt
    omega

/-- The receiver needs no byte behind the message. -/
lemma Midway.needed_le (h : Midway R s got input (m :: ms)) {rest : Bytes}
    (hrest : got ++ rest = m.bytes) : s.inState.bytesNeededForNext ≤ rest.length := by
  have hdec := h.continues rest
  rw [hrest, m.decodes] at hdec
  exact InState.bytesNeededForNext_le hdec

/-- The descriptors that come with a read inside the message: its own with the first one. -/
lemma Midway.fdsBetween_eq (h : Midway R s got input (m :: ms)) {k : ℕ} (hk0 : 0 < k)
    (hk : k ≤ s.inState.bytesNeededForNext) :
    s.inFds ++ fdsBetween input.length (input.length - k) (m :: ms) = m.fds := by
  obtain ⟨rest, hrest, -, hinput⟩ := h.rest
  have hneed := h.needed_le hrest
  have hlen : (wire (m :: ms)).length = got.length + input.length := by
    rw [← h.stream, List.length_append]
  have hin : input.length = rest.length + (wire ms).length := by
    rw [hinput, List.length_append]
  rw [fdsBetween, fdsBetween_eq_nil (by omega), List.append_nil]
  by_cases hgot : got = []
  · have hzero : got.length = 0 := by simp [hgot]
    rw [if_pos (by omega), h.noFds hgot, List.nil_append]
  · have hpos : 0 < got.length := List.length_pos_of_ne_nil hgot
    rw [if_neg (by omega), List.append_nil]
    exact h.fds m ms rfl hgot

/-- The receiver has a part `got` of the message and its descriptors, and has not looked at them
yet. -/
structure Loaded (R : Rustbus) (s : RecvState) (got : Bytes) (m : Incoming R) : Prop where
  withFd : s.withFd = true
  remaining : s.remaining = []
  remLoc : s.remLoc = 0
  bounded : s.inState.Bounded true
  continues : ∀ t, s.inState.decode R true t = decodeRaw R true (got ++ t)
  fds : s.inFds = m.fds

/-- A read inside a message brings a part of it, and all its descriptors. -/
private lemma Midway.receive (h : Midway R s got input (m :: ms)) {k : ℕ} (hk0 : 0 < k)
    (hk : k ≤ s.inState.bytesNeededForNext) :
    Loaded R (s.receive (input.take k) (fdsBetween input.length (input.length - k) (m :: ms)))
      (got ++ input.take k) m := by
  have hlen : (input.take k).length ≤ s.inState.bytesNeededForNext :=
    (List.length_take_le k input).trans hk
  have hstate : (s.receive (input.take k)
      (fdsBetween input.length (input.length - k) (m :: ms))).inState =
        s.inState.extend (input.take k) := by
    show s.inState.extend ((input.take k).take s.inState.bytesNeededForNext) = _
    rw [List.take_of_length_le hlen]
  refine ⟨h.withFd, List.drop_eq_nil_of_le hlen, rfl, ?_, fun t => ?_, ?_⟩
  · rw [hstate]
    exact bounded_extend h.bounded hlen
  · rw [hstate, InState.decode_extend, h.continues, List.append_assoc]
  · show (if s.withFd = true then _ else _) = _
    rw [if_pos h.withFd, h.fdsBetween_eq hk0 hk]

/-- **A read inside a message**: it is continued, or complete and returned with its descriptors.

**Proof sketch.** The chunk ends inside the message, and the descriptors that have arrived are
those of the message.  `try_get_msg` follows the decoding of what has been read
(`tryBlock_spec`), which is the message or a first part of it. -/
lemma Midway.handleChunk (hR : R.ReadsFixedPart) (h : Midway R s got input (m :: ms)) {k : ℕ}
    (hk0 : 0 < k) (hk : k ≤ s.inState.bytesNeededForNext) (script : List RecvEvent) :
    ∃ s', s'.withFd = true ∧
      ((RecvState.handleChunk R (s.receive (input.take k)
          (fdsBetween input.length (input.length - k) (m :: ms))) ⟨input.drop k, script, false⟩ =
            (none, s', ⟨input.drop k, script, false⟩) ∧
        Midway R s' (got ++ input.take k) (input.drop k) (m :: ms)) ∨
      (RecvState.handleChunk R (s.receive (input.take k)
          (fdsBetween input.length (input.length - k) (m :: ms))) ⟨input.drop k, script, false⟩ =
            (some (.ok m.message), s', ⟨input.drop k, script, false⟩) ∧
        Midway R s' [] (input.drop k) ms)) := by
  obtain ⟨rest, hrest, hne, hinput⟩ := h.rest
  have hneed := h.needed_le hrest
  have htake : input.take k = rest.take k := by
    rw [hinput, List.take_append_of_le_length (by omega)]
  have hdrop : input.drop k = rest.drop k ++ wire ms := by
    rw [hinput, List.drop_append_of_le_length (by omega)]
  have hchunk : (got ++ input.take k) ++ rest.drop k = m.bytes := by
    rw [htake, List.append_assoc, List.take_append_drop, hrest]
  have hlen : (input.take k).length = k := by
    rw [htake, List.length_take]
    omega
  have hload := h.receive hk0 hk
  generalize s.receive (input.take k) (fdsBetween input.length (input.length - k) (m :: ms)) = s₁
    at hload ⊢
  have hleftover : s₁.leftover = [] := by simp [leftover, hload.remaining]
  have htry := tryBlock_spec hR (Nat.le_of_eq (by rw [hload.remLoc, hload.remaining]; rfl))
    (by rw [hload.withFd]; exact hload.bounded)
  have hfew : ¬ (s₁.withFd && decide (s₁.inFds.length > dbusMaxFdMessage)) = true := by
    have := m.few
    simp [hload.fds, this]
  simp only [RecvState.handleChunk, if_neg hfew, tryGetMsg]
  have hdecode : s₁.inState.decode R s₁.withFd s₁.leftover =
      decodeRaw R true (got ++ input.take k) := by
    rw [hload.withFd, hleftover, hload.continues, List.append_nil]
  generalize tryBlock R s₁ = res at htry
  cases htry with
  | more s' hf hkeeps hleft hres hbounded hneed' =>
    rw [hload.withFd] at hres hbounded
    refine ⟨s', hkeeps.withFd.trans hload.withFd, .inl ⟨rfl, ?_⟩⟩
    refine ⟨hkeeps.withFd.trans hload.withFd, hleft, hkeeps.remLoc, hbounded, fun t => ?_, hneed',
      ?_, ?_, fun hnil => ?_, fun m' ms' hm _ => ?_⟩
    · rw [hres, hleftover, List.nil_append, hload.continues]
    · rw [List.append_assoc, List.take_append_drop]
      exact h.stream
    · intro m' ms' hm
      obtain ⟨rfl, -⟩ := List.cons.inj hm
      by_contra hle
      have hnil : rest.drop k = [] := by
        have hlen' := congrArg List.length hchunk
        rw [List.length_append] at hlen'
        exact List.length_eq_zero_iff.mp (by omega)
      rw [hdecode] at hf
      rw [hnil, List.append_nil] at hchunk
      rw [hchunk, m.decodes] at hf
      cases hf
    · have hzero := congrArg List.length hnil
      rw [List.length_append, hlen, List.length_nil] at hzero
      omega
    · obtain ⟨rfl, -⟩ := List.cons.inj hm
      rw [hkeeps.inFds, hload.fds]
  | fail e rest' s' hf hkeeps hleft =>
    rw [hdecode] at hf
    exact absurd hf ((m.decodeRaw_ne_of_prefix hchunk).1 e rest')
  | panic s' hf hkeeps hres hbounded =>
    rw [hdecode] at hf
    exact absurd hf (m.decodeRaw_ne_of_prefix hchunk).2
  | raw raw rest' s' hf hkeeps hstate hleft hnofds =>
    rw [hdecode] at hf
    rcases m.decodeRaw_of_prefix hchunk with hmore | ⟨hraw, hnil⟩
    · rw [hmore] at hf
      cases hf
    rw [hraw, Decoded.raw.injEq] at hf
    obtain ⟨rfl, rfl⟩ := hf
    have hcount : ¬ s'.inFds.length ≠ (m.raw.2.1.numFds.getD 0).toNat := by
      rw [hkeeps.inFds, hload.fds, m.declares]
      exact fun hne => hne rfl
    refine ⟨{ s' with inFds := [] }, hkeeps.withFd.trans hload.withFd, .inr ⟨?_, ?_⟩⟩
    · simp only [if_neg hcount, deliver]
      rw [hkeeps.inFds, hload.fds, m.valid]
      rfl
    · have hnext : input.drop k = wire ms := by rw [hdrop, hnil, List.nil_append]
      rw [hnext]
      exact @midway_of_header R { s' with inFds := [] } (hkeeps.withFd.trans hload.withFd) hleft
        hkeeps.remLoc hstate rfl ms

/-- What a call of `get_next_message` does inside the messages to come. -/
inductive FdCall (R : Rustbus) (ms : List (Incoming R)) (sock : Socket) :
    Res RecvError MarshalledMessage × RecvState × Socket → Prop
  | blocked (s' : RecvState) (got : Bytes) (sock' : Socket)
      (hmid : Midway R s' got sock'.input ms) (hsock : OnSchedule false sock sock')
      (hless : sock.script = [] ∨ sock'.script.length < sock.script.length) :
      FdCall R ms sock (.err .wouldBlock, s', sock')
  | message (m : Incoming R) (ms' : List (Incoming R)) (s' : RecvState) (sock' : Socket)
      (hms : ms = m :: ms') (hmid : Midway R s' [] sock'.input ms')
      (hsock : OnSchedule false sock sock') : FdCall R ms sock (.ok m.message, s', sock')

/-- A call on a socket that is further on. -/
lemma FdCall.of_onSchedule {sock sock₁ : Socket}
    {res : Res RecvError MarshalledMessage × RecvState × Socket} (h : FdCall R ms sock₁ res)
    (hsock : OnSchedule false sock sock₁) (hless : sock₁.script.length < sock.script.length) :
    FdCall R ms sock res := by
  cases h with
  | blocked s' got sock' hmid hsock' _ =>
    exact .blocked s' got sock' hmid (hsock.trans hsock')
      (.inr (lt_of_le_of_lt hsock'.length hless))
  | message m ms' s' sock' hms hmid hsock' =>
    exact .message m ms' s' sock' hms hmid (hsock.trans hsock')

/-- Clearing `remaining`, which is empty. -/
lemma Midway.clear (h : Midway R s got input ms) :
    Midway R { s with remaining := [], remLoc := 0 } got input ms :=
  ⟨h.withFd, rfl, Nat.le_refl _, h.bounded, h.continues, h.need, h.stream, h.inside, h.noFds, h.fds⟩

/-- The receiver asks for no byte behind the message. -/
lemma Midway.requested_le (h : Midway R s got input ms) (done : List (Incoming R))
    (hpos : 0 < input.length) : s.offered ≤ currentLeft (done ++ ms) input.length := by
  have hle : input.length ≤ (wire ms).length := by
    rw [← h.stream, List.length_append]
    omega
  rw [currentLeft_append done hle, offered, if_pos h.withFd]
  cases ms with
  | nil =>
    have hnil := (List.append_eq_nil_iff.mp h.stream).2
    rw [hnil] at hpos
    cases hpos
  | cons m ms =>
    obtain ⟨rest, hrest, hne, hinput⟩ := h.rest
    have hneed := h.needed_le hrest
    have hrest0 := List.length_pos_of_ne_nil hne
    have hin : input.length = rest.length + (wire ms).length := by
      rw [hinput, List.length_append]
    rw [currentLeft, if_neg (by omega)]
    omega

/-- A read that gets nothing. -/
private lemma staysInMessage_blocked (h : Midway R s got input ms) (done : List (Incoming R)) :
    StaysInMessage (done ++ ms) [⟨input.length, s.offered, 0, []⟩] := by
  intro r hr hpos
  rw [List.mem_singleton.mp hr] at hpos ⊢
  exact h.requested_le done hpos

/-- **The loop of `get_next_message` stays in the message** and returns it with its descriptors.

**Proof sketch.** Induction on the answers of the socket, by `Midway.handleChunk`. -/
lemma recvLoop_fds (hR : R.ReadsFixedPart) (done : List (Incoming R)) (script : List RecvEvent)
    {s : RecvState} {got input : Bytes} (h : Midway R s got input ms)
    (hscript : IsSchedule false script)
    (hover : HandsOver (done ++ ms) (loopReads R script s input)) :
    StaysInMessage (done ++ ms) (loopReads R script s input) ∧
      FdCall R ms ⟨input, script, false⟩ (recvLoop R script s input) := by
  induction script generalizing s got input with
  | nil =>
    refine ⟨staysInMessage_blocked h done, ?_⟩
    exact .blocked _ got _ h.clear ⟨rfl, hscript, le_refl _, le_refl _, id⟩ (.inl rfl)
  | cons ev script ih =>
    have htail : IsSchedule false script := fun e he => hscript e (List.mem_cons_of_mem _ he)
    cases ev with
    | eof => exact absurd (hscript .eof List.mem_cons_self) (by simp [RecvEvent.delivers])
    | err => exact absurd (hscript .err List.mem_cons_self) (by simp [RecvEvent.delivers])
    | wouldBlock =>
      refine ⟨staysInMessage_blocked h done, ?_⟩
      exact .blocked _ got _ h.clear ⟨rfl, htail, by simp, le_refl _, by simp [deliveries]⟩
        (.inr (by simp))
    | data n fds =>
      have hneed := h.need
      have hoffered : s.offered = s.inState.bytesNeededForNext := if_pos h.withFd
      obtain ⟨k, hk⟩ : ∃ k, k = min (n + 1) (min s.offered input.length) := ⟨_, rfl⟩
      by_cases hzero : k = 0
      · -- nothing is left to receive
        have hempty : input = [] := List.length_eq_zero_iff.mp (by omega)
        have hreads : loopReads R (.data n fds :: script) s input =
            [⟨input.length, s.offered, 0, []⟩] := by
          simp only [loopReads, ← hk, if_pos hzero]
        have hloop : recvLoop R (.data n fds :: script) s input = (.err .wouldBlock,
            { s with remaining := [], remLoc := 0 }, ⟨input, script, false⟩) := by
          simp only [recvLoop, ← hk, if_pos hzero]
        rw [hreads, hloop]
        refine ⟨staysInMessage_blocked h done, ?_⟩
        exact .blocked _ got _ h.clear ⟨rfl, htail, by simp, le_refl _, by simp [hempty]⟩
          (.inr (by simp))
      · have hsock : OnSchedule false ⟨input, .data n fds :: script, false⟩
            ⟨input.drop k, script, false⟩ := by
          refine ⟨rfl, htail, by simp, by simp, fun hc => ?_⟩
          simp only [deliveries, List.countP_cons, List.length_drop] at hc ⊢
          simp only [if_true] at hc
          omega
        cases ms with
        | nil =>
          have hnil := (List.append_eq_nil_iff.mp h.stream).2
          rw [hnil, List.length_nil] at hk
          omega
        | cons m ms =>
          have hle : input.length ≤ (wire (m :: ms)).length := by
            rw [← h.stream, List.length_append]
            omega
          have hfds : fds = fdsBetween input.length (input.length - k) (m :: ms) := by
            have hfirst := hover ⟨input.length, s.offered, k, fds⟩ (by
              simp only [loopReads, ← hk, if_neg hzero]
              exact List.mem_cons_self)
            rwa [fdsBetween_append done hle] at hfirst
          have hfirst : s.offered ≤ currentLeft (done ++ m :: ms) input.length :=
            h.requested_le done (by omega)
          obtain ⟨s', -, hcase⟩ := h.handleChunk hR (by omega : 0 < k) (by omega) script
          rw [← hfds] at hcase
          rcases hcase with ⟨heq, hmid⟩ | ⟨heq, hmid⟩
          · have hreads : loopReads R (.data n fds :: script) s input =
                ⟨input.length, s.offered, k, fds⟩ :: loopReads R script s' (input.drop k) := by
              simp only [loopReads, ← hk, if_neg hzero, heq]
            have hloop : recvLoop R (.data n fds :: script) s input =
                recvLoop R script s' (input.drop k) := by
              simp only [recvLoop, ← hk, if_neg hzero, heq]
            rw [hreads] at hover ⊢
            rw [hloop]
            obtain ⟨hstay, hcall⟩ := ih hmid htail fun r hr => hover r (List.mem_cons_of_mem _ hr)
            refine ⟨fun r hr hpos => ?_, hcall.of_onSchedule hsock (by simp)⟩
            rcases List.mem_cons.mp hr with rfl | hr
            · exact hfirst
            · exact hstay r hr hpos
          · have hreads : loopReads R (.data n fds :: script) s input =
                [⟨input.length, s.offered, k, fds⟩] := by
              simp only [loopReads, ← hk, if_neg hzero, heq]
            have hloop : recvLoop R (.data n fds :: script) s input =
                (.ok m.message, s', ⟨input.drop k, script, false⟩) := by
              simp only [recvLoop, ← hk, if_neg hzero, heq]
            rw [hreads, hloop]
            refine ⟨fun r hr hpos => ?_, .message m ms s' _ rfl hmid hsock⟩
            rw [List.mem_singleton.mp hr]
            exact hfirst

/-- What has been read is not yet a message. -/
lemma Midway.more (h : Midway R s got input ms) : decodeRaw R true got = .more := by
  cases ms with
  | nil =>
    rw [(List.append_eq_nil_iff.mp h.stream).1]
    rfl
  | cons m ms =>
    obtain ⟨rest, hrest, hne, -⟩ := h.rest
    rcases m.decodeRaw_of_prefix hrest with hmore | ⟨-, hnil⟩
    · exact hmore
    · exact absurd hnil hne

/-- **One call of `get_next_message` stays in the message** and returns it with its descriptors.
Before it reads, the parser has nothing to return.

**Proof sketch.** The receiver stands inside a message, so decoding what is left gives nothing
(`hmore`); of the outcomes of `tryBlock_spec` only the one that needs more is left. It keeps the
receiver midway, and both the reads and the result are those of the loop (`recvLoop_fds`). -/
lemma getNextMessage_fds (hR : R.ReadsFixedPart) (done : List (Incoming R)) {sock : Socket}
    (h : Midway R s got sock.input ms) (hshut : sock.shut = false)
    (hscript : IsSchedule false sock.script)
    (hover : HandsOver (done ++ ms) (callReads R s sock)) :
    StaysInMessage (done ++ ms) (callReads R s sock) ∧
      FdCall R ms sock (getNextMessage R s sock) := by
  obtain ⟨input, script, shut⟩ := sock
  dsimp only at h hshut hscript
  subst hshut
  have hbounded : s.inState.Bounded s.withFd := by rw [h.withFd]; exact h.bounded
  have htry := tryBlock_spec hR h.remLoc hbounded
  have hmore : s.inState.decode R s.withFd s.leftover = .more := by
    rw [h.withFd, h.left, h.continues, List.append_nil, h.more]
  generalize hres : tryBlock R s = res at htry
  cases htry with
  | more s' hf hkeeps hleft hcont hbounded' hneed =>
    rw [h.withFd] at hcont hbounded'
    have hmid : Midway R s' got input ms := by
      refine ⟨hkeeps.withFd.trans h.withFd, hleft, hkeeps.remLoc, hbounded', fun t => ?_, hneed,
        h.stream, h.inside, fun hnil => ?_, fun m ms' hms hne => ?_⟩
      · rw [hcont, h.left, List.nil_append, h.continues]
      · rw [hkeeps.inFds, h.noFds hnil]
      · rw [hkeeps.inFds, h.fds m ms' hms hne]
    have hreads : callReads R s ⟨input, script, false⟩ = loopReads R script s' input := by
      simp only [callReads, tryGetMsg, hres]
      rfl
    have hcall : getNextMessage R s ⟨input, script, false⟩ = recvLoop R script s' input := by
      simp only [getNextMessage, tryGetMsg, hres]
      rfl
    rw [hreads] at hover ⊢
    rw [hcall]
    exact recvLoop_fds hR done script hmid hscript hover
  | fail e rest s' hf hkeeps hleft =>
    rw [hmore] at hf
    cases hf
  | panic s' hf hkeeps hcont hbounded' =>
    rw [hmore] at hf
    cases hf
  | raw msg rest s' hf hkeeps hstate hleft hfds =>
    rw [hmore] at hf
    cases hf

/-! ## A sequence of calls -/

/-- A sequence of calls inside the messages to come.

**Proof sketch.** Induction on the number of calls.  A call that is blocked uses up an answer of
the socket, or there is none left and then no byte is to come. -/
lemma receiveAll_fds_spec (hR : R.ReadsFixedPart) (n : ℕ) (done : List (Incoming R))
    {s : RecvState} {got : Bytes} {ms : List (Incoming R)} {sock : Socket}
    (h : Midway R s got sock.input ms) (hshut : sock.shut = false)
    (hscript : IsSchedule false sock.script)
    (hover : HandsOver (done ++ ms) (runReads R n s sock)) :
    StaysInMessage (done ++ ms) (runReads R n s sock) ∧
      (∃ k, (receiveAll R n s sock).1 = (ms.take k).map fun m => .ok m.message) ∧
      (sock.input.length ≤ deliveries sock.script → sock.script.length + ms.length < n →
        (receiveAll R n s sock).1 = ms.map fun m => .ok m.message) := by
  induction n generalizing done s got ms sock with
  | zero =>
    refine ⟨fun r hr => ?_, ⟨0, rfl⟩, fun _ hn => ?_⟩
    · cases hr
    · omega
  | succ n ih =>
    have hover₁ : HandsOver (done ++ ms) (callReads R s sock) :=
      fun r hr => hover r (List.mem_append_left _ hr)
    obtain ⟨hstay, hcall⟩ := getNextMessage_fds hR done h hshut hscript hover₁
    generalize hres : getNextMessage R s sock = res at hcall
    cases hcall with
    | blocked s' got' sock' hmid hsock hless =>
      have hreads : runReads R (n + 1) s sock = callReads R s sock ++ runReads R n s' sock' := by
        simp only [runReads, hres]
      have hall : receiveAll R (n + 1) s sock = receiveAll R n s' sock' := by
        simp only [receiveAll, hres]
      rw [hreads] at hover ⊢
      rw [hall]
      obtain ⟨hstay', hprefix, hcomplete⟩ := ih done hmid hsock.shut hsock.schedule
        fun r hr => hover r (List.mem_append_right _ hr)
      refine ⟨fun r hr => ?_, hprefix, fun hcovers hn => ?_⟩
      · rcases List.mem_append.mp hr with hr | hr
        · exact hstay r hr
        · exact hstay' r hr
      · rcases hless with hempty | hless
        · -- no answer is left, so no byte is to come
          have hinput : sock.input = [] := by
            rw [hempty] at hcovers
            exact List.length_eq_zero_iff.mp (Nat.le_zero.mp hcovers)
          cases ms with
          | nil =>
            obtain ⟨k, hk⟩ := hprefix
            simpa using hk
          | cons m ms =>
            obtain ⟨rest, -, hne, hrest⟩ := h.rest
            rw [hinput] at hrest
            exact absurd (List.append_eq_nil_iff.mp hrest.symm).1 hne
        · exact hcomplete (hsock.covers hcovers) (by omega)
    | message m ms' s' sock' hms hmid hsock =>
      subst hms
      have hreads : runReads R (n + 1) s sock = callReads R s sock ++ runReads R n s' sock' := by
        simp only [runReads, hres]
      have hall : receiveAll R (n + 1) s sock =
          (.ok m.message :: (receiveAll R n s' sock').1, (receiveAll R n s' sock').2) := by
        simp only [receiveAll, hres]
      have hsplit : done ++ m :: ms' = (done ++ [m]) ++ ms' := by simp
      rw [hreads] at hover ⊢
      rw [hall]
      obtain ⟨hstay', ⟨k, hk⟩, hcomplete⟩ := ih (done ++ [m]) hmid hsock.shut hsock.schedule
        fun r hr => hsplit ▸ hover r (List.mem_append_right _ hr)
      rw [← hsplit] at hstay'
      refine ⟨fun r hr => ?_, ⟨k + 1, ?_⟩, fun hcovers hn => ?_⟩
      · rcases List.mem_append.mp hr with hr | hr
        · exact hstay r hr
        · exact hstay' r hr
      · rw [hk]
        rfl
      · have hlen := hsock.length
        rw [List.length_cons] at hn
        rw [hcomplete (hsock.covers hcovers) (by omega)]
        rfl

/-- **Received descriptors belong to their message.**  On a connection with descriptors, for every
sequence of well-formed messages and every way to cut their bytes into reads, where the stream
hands the descriptors of a message over with the read of its first byte: no read asks for a byte
behind the message that is being read; the results are the messages, in order, each with its own
descriptors; and enough deliveries and calls return all of them. -/
theorem receiveAll_fds (hR : R.ReadsFixedPart) (remCap n : ℕ) (ms : List (Incoming R))
    (script : List RecvEvent) (hscript : IsSchedule false script)
    (hover : HandsOver ms (runReads R n (new true remCap) ⟨wire ms, script, false⟩)) :
    StaysInMessage ms (runReads R n (new true remCap) ⟨wire ms, script, false⟩) ∧
      (∃ k, (receiveAll R n (new true remCap) ⟨wire ms, script, false⟩).1 =
        (ms.take k).map fun m => .ok m.message) ∧
      ((wire ms).length ≤ deliveries script → script.length + ms.length < n →
        (receiveAll R n (new true remCap) ⟨wire ms, script, false⟩).1 =
          ms.map fun m => .ok m.message) :=
  receiveAll_fds_spec hR n [] (midway_new remCap ms) rfl hscript hover

/-- Two signals with a descriptor each, cut inside the first fixed header.

**Proof sketch.** The reads are computed, and with them the hypothesis on the stream;
`receiveAll_fds` then gives that they stay in their messages. -/
theorem receiveAll_fds_two :
    let header : UInt32 → Header := fun serial => ⟨.littleEndian, .signal, 0, 1, 0, serial⟩
    let fields : NonZeroU32 → DynamicHeader := fun serial =>
      { DynamicHeader.default with serial := some serial, numFds := some 1 }
    let m₁ : Incoming .reference := ⟨[108, 4, 0, 1, 0, 0, 0, 0, 7, 0, 0, 0, 8, 0, 0, 0,
      9, 1, 117, 0, 1, 0, 0, 0], [⟨some 3⟩], (header 7, fields ⟨7, by decide⟩, []), rfl, rfl,
      by decide, rfl⟩
    let m₂ : Incoming .reference := ⟨[108, 4, 0, 1, 0, 0, 0, 0, 8, 0, 0, 0, 8, 0, 0, 0,
      9, 1, 117, 0, 1, 0, 0, 0], [⟨some 5⟩], (header 8, fields ⟨8, by decide⟩, []), rfl, rfl,
      by decide, rfl⟩
    let script := [RecvEvent.data 3 [⟨some 3⟩], .wouldBlock, .data 40 [], .data 40 [],
      .data 40 [⟨some 5⟩], .data 40 []]
    let reads := runReads .reference 5 (new true 4096) ⟨wire [m₁, m₂], script, false⟩
    reads.map (fun r => (r.left, r.requested, r.gotten)) =
        [(48, 16, 4), (44, 12, 0), (44, 12, 12), (32, 8, 8), (24, 16, 16), (8, 8, 8), (0, 16, 0),
          (0, 16, 0)] ∧
      StaysInMessage [m₁, m₂] reads ∧ m₁.message.body.rawFds = [⟨some 3⟩] ∧
      (receiveAll .reference 5 (new true 4096) ⟨wire [m₁, m₂], script, false⟩).1 =
        [.ok m₁.message, .ok m₂.message] := by
  intro header fields m₁ m₂ script reads
  have hover : HandsOver [m₁, m₂] reads := by
    unfold HandsOver
    decide
  obtain ⟨hstay, -⟩ := receiveAll_fds Reference.readsFixedPart 4096 5 [m₁, m₂] script
    (by decide) hover
  exact ⟨by decide, hstay, rfl, by decide⟩

end RecvState

end AsyncRustbus
