import AsyncRustbus.Conn.Chunking

set_option relaxedAutoImplicit false
set_option autoImplicit false

/-!
# The assertions of the receive loop

`get_next_message` reads from the socket only after `try_get_msg` has returned `Ok(None)`.  At the
head of its loop it asserts that `remaining` is used up and still has its capacity, and that the
parser state needs a positive number of bytes; the subtractions of `bytes_needed_for_next` are
checked in the same builds.  Here the calls are those of such a build, where each of these checks
is a panic, and the answers of the socket are arbitrary in every call.

## Main definitions

* `AsyncRustbus.InState.target`, `AsyncRustbus.InState.checkedNeeded` — how long the buffer of a
  stage is to become, and `bytes_needed_for_next` with checked subtractions.
* `AsyncRustbus.RecvState.getNextMessageChecked` — `get_next_message` with its assertions.
* `AsyncRustbus.RecvState.callHeads` — the states in which the passes of the loop begin.
* `AsyncRustbus.RecvState.Reached` — the states that calls lead to.
* `AsyncRustbus.RecvState.Drained` — a state that `try_get_msg` may leave with `Ok(None)`.

## Main results

* `AsyncRustbus.RecvState.tryBlock_ends` — `try_get_msg` stays within the bounds of the parser
  state, whatever `rustbus` makes of the bytes.
* `AsyncRustbus.RecvState.Reached.unchecked` — the states are those that calls lead to in a build
  without the assertions.
* `AsyncRustbus.RecvState.assertions_hold` — no assertion fails, and no read is empty.
-/

namespace AsyncRustbus

/-! ## The checks -/

/-- `usize::checked_sub`. -/
def checkedSub (a b : ℕ) : Option ℕ := if b ≤ a then some (a - b) else none

/-- The difference to a greater number is positive. -/
lemma checkedSub_of_lt {a b : ℕ} (h : b < a) : checkedSub a b = some (a - b) ∧ 0 < a - b :=
  ⟨if_pos h.le, Nat.sub_pos_of_lt h⟩

namespace InState

/-- The length up to which `try_get_msg` extends the buffer next. -/
def target : InState → ℕ
  | .header _ => headerLen
  | .dynHdr hdr b =>
    if b.length < headerLen + 4 then headerLen + 4 else totalHdrLen hdr.byteorder b
  | .finishing hdr _ _ => hdr.bodyLen.toNat

/-- `bytes_needed_for_next` in a build with overflow checks. -/
def checkedNeeded : InState → Option ℕ
  | .header b => checkedSub (headerLen + 4) b.length
  | .dynHdr hdr b =>
    if b.length < 16 then checkedSub 16 b.length
    else checkedSub (totalHdrLen hdr.byteorder b) b.length
  | .finishing hdr _ b => checkedSub hdr.bodyLen.toNat b.length

/-- A buffer that is shorter than its target needs a positive number of bytes. -/
lemma checkedNeeded_of_short {st : InState} (h : st.buf.length < st.target) :
    st.checkedNeeded = some st.bytesNeededForNext ∧ 0 < st.bytesNeededForNext := by
  cases st with
  | header b =>
    have hlt : b.length < headerLen + 4 := Nat.lt_add_right 4 h
    exact checkedSub_of_lt hlt
  | dynHdr hdr b =>
    simp only [buf, target] at h
    simp only [checkedNeeded, bytesNeededForNext]
    by_cases h16 : b.length < 16
    · rw [if_pos h16, if_pos h16]
      exact checkedSub_of_lt h16
    · rw [show headerLen + 4 = 16 from rfl, if_neg h16] at h
      rw [if_neg h16, if_neg h16]
      exact checkedSub_of_lt h
  | finishing hdr dynhdr b => exact checkedSub_of_lt h

end InState

namespace RecvState

/-- The assertions at the head of the loop: `remaining` is used up, it has its capacity, and
`bytes_needed_for_next` returns a positive number.  The one behind them, that `remaining` is empty,
follows a `clear` of it. -/
def headChecks (s : RecvState) : Bool :=
  s.remaining.length = s.remLoc && 4096 ≤ s.remCap &&
    match s.inState.checkedNeeded with
    | some needed => 0 < needed
    | none => false

/-- The `loop` of `get_next_message` in a build with these checks. -/
def recvLoopChecked (R : Rustbus) : List RecvEvent → RecvState → Bytes →
    Res RecvError MarshalledMessage × RecvState × Socket
  | .data n fds :: script, s, input =>
    if s.headChecks then
      let gotten := min (n + 1) (min s.offered input.length)
      -- nothing is left to receive
      if gotten = 0 then
        (.err .wouldBlock, { s with remaining := [], remLoc := 0 }, ⟨input, script, false⟩)
      else
        match handleChunk R (s.receive (input.take gotten) fds)
            ⟨input.drop gotten, script, false⟩ with
        | (some r, s, sock) => (r, s, sock)
        | (none, s, sock) => recvLoopChecked R script s sock.input
    else (.panic, s, ⟨input, .data n fds :: script, false⟩)
  | script, s, input =>
    if s.headChecks then recvLoop R script s input else (.panic, s, ⟨input, script, false⟩)

/-- `get_next_message` in a build with these checks. -/
def getNextMessageChecked (R : Rustbus) (s : RecvState) (sock : Socket) :
    Res RecvError MarshalledMessage × RecvState × Socket :=
  match tryGetMsg R s sock with
  | (.err e, s, sock) => (.err e, s, sock)
  | (.panic, s, sock) => (.panic, s, sock)
  | (.ok (some raw), s, sock) => deliver R raw [] s sock
  | (.ok none, s, sock) =>
    if sock.shut then
      if s.headChecks then (.err .hungUp, { s with remaining := [], remLoc := 0 }, sock)
      else (.panic, s, sock)
    else recvLoopChecked R sock.script s sock.input

/-- The states in which the passes of the loop begin. -/
def loopHeads (R : Rustbus) : List RecvEvent → RecvState → Bytes → List RecvState
  | .data n fds :: script, s, input =>
    let gotten := min (n + 1) (min s.offered input.length)
    if gotten = 0 then [s]
    else
      s :: match handleChunk R (s.receive (input.take gotten) fds)
          ⟨input.drop gotten, script, false⟩ with
        | (some _, _, _) => []
        | (none, s, sock) => loopHeads R script s sock.input
  | _, s, _ => [s]

/-- The states in which the passes of the loop of `get_next_message` begin: those that
`try_get_msg` leaves each time it returns `Ok(None)`. -/
def callHeads (R : Rustbus) (s : RecvState) (sock : Socket) : List RecvState :=
  match tryGetMsg R s sock with
  | (.ok none, s, sock) => if sock.shut then [s] else loopHeads R sock.script s sock.input
  | _ => []

/-- The states that calls of `get_next_message` lead to from that of a new connection, which makes
`remaining` with a capacity of at least 4096.  The socket is another one for every call, so that
its answers are not bound by anything before. -/
inductive Reached (R : Rustbus) : RecvState → Prop
  | new (withFd : Bool) {remCap : ℕ} (hcap : 4096 ≤ remCap) : Reached R (.new withFd remCap)
  | call {s : RecvState} (sock : Socket) :
      Reached R s → Reached R (getNextMessageChecked R s sock).2.1

/-- A state in which the parser has used up all bytes and waits for more: the buffer is shorter
than its target, the number of bytes needed is computed without underflow and positive, and so is
the space that is offered to `recvmsg`. -/
structure Drained (s : RecvState) : Prop where
  consumed : s.remaining.length = s.remLoc
  capacity : 4096 ≤ s.remCap
  short : s.inState.buf.length < s.inState.target
  needed : ∃ n, s.inState.checkedNeeded = some n ∧ 0 < n
  offered : 0 < s.offered

/-- The assertions hold in a drained state. -/
lemma Drained.headChecks {s : RecvState} (h : s.Drained) : s.headChecks = true := by
  obtain ⟨n, hn, hpos⟩ := h.needed
  simp [RecvState.headChecks, h.consumed, h.capacity, hn, hpos]

/-! ## What `try_get_msg` leaves -/

/-- What a branch of `try_get_msg` leaves, whatever it decodes: where it fails the parser state is
thrown away, and otherwise it is bounded; where more bytes are needed, all have been consumed and
the buffer is shorter than its target. -/
structure TryEnds (s : RecvState) (res : Res RecvError (Option RawMessage) × RecvState) :
    Prop where
  keeps : s.Keeps res.2
  bounded : (∀ e, res.1 ≠ .err e) → res.2.inState.Bounded s.withFd
  left : res.1 = .ok none → res.2.leftover = []
  short : res.1 = .ok none → res.2.inState.buf.length < res.2.inState.target

variable {R : Rustbus} {s : RecvState}

/-- A branch that hands over to the next one leaves what that one leaves. -/
lemma TryEnds.of_keeps {s₁ : RecvState} {res : Res RecvError (Option RawMessage) × RecvState}
    (h : s₁.TryEnds res) (hkeeps : s.Keeps s₁) : s.TryEnds res :=
  ⟨hkeeps.trans h.keeps, fun hne => hkeeps.withFd ▸ h.bounded hne, h.left, h.short⟩

/-- A branch that follows a decoding keeps to the bounds. -/
lemma TrySpec.ends {f : Bytes → Decoded} {small : Prop}
    {res : Res RecvError (Option RawMessage) × RecvState} (h : TrySpec R s f small res)
    (hshort : res.1 = .ok none → res.2.inState.buf.length < res.2.inState.target) :
    s.TryEnds res := by
  cases h with
  | more s' hf hkeeps hleft hres hbounded hneed =>
    exact ⟨hkeeps, fun _ => hbounded, fun _ => hleft, hshort⟩
  | fail e rest s' hf hkeeps hleft =>
    exact ⟨hkeeps, fun hne => absurd rfl (hne e), fun h => (by cases h), hshort⟩
  | panic s' hf hkeeps hres hbounded =>
    exact ⟨hkeeps, fun _ => hbounded, fun h => (by cases h), hshort⟩
  | raw msg rest s' hf hkeeps hstate hleft hfds =>
    refine ⟨hkeeps, fun _ => ?_, fun h => (by cases h), hshort⟩
    show s'.inState.Bounded s.withFd
    rw [hstate]
    exact Nat.zero_le _

/-- `extend_max` returns `false` on a buffer that stays too short, and has used up the other. -/
lemma extendMax_eq_false {vec buf vec' : Bytes} {loc target loc' : ℕ}
    (hloc : loc ≤ buf.length) (h : extendMax vec buf loc target = (false, vec', loc')) :
    vec'.length < target ∧ vec' = vec ++ buf.drop loc ∧ loc' = buf.length := by
  rcases extendMax_spec vec buf loc target hloc with ⟨hfew, hext⟩ | ⟨-, loc₁, -, hext, -⟩
  · rw [hext, Prod.mk.injEq, Prod.mk.injEq] at h
    obtain ⟨-, rfl, rfl⟩ := h
    exact ⟨hfew, rfl, rfl⟩
  · rw [hext, Prod.mk.injEq] at h
    cases h.1

/-- `extend_max` returns `true` on a buffer that has reached its target. -/
lemma extendMax_eq_true {vec buf vec' : Bytes} {loc target loc' : ℕ}
    (hloc : loc ≤ buf.length) (h : extendMax vec buf loc target = (true, vec', loc')) :
    target ≤ vec'.length ∧ vec'.length ≤ max target vec.length ∧ loc' ≤ buf.length := by
  rcases extendMax_spec vec buf loc target hloc with ⟨-, hext⟩ | ⟨henough, loc₁, hloc₁, hext, -⟩
  · rw [hext, Prod.mk.injEq] at h
    cases h.1
  · rw [hext, Prod.mk.injEq, Prod.mk.injEq] at h
    obtain ⟨-, rfl, rfl⟩ := h
    rw [List.length_append] at henough
    rw [List.length_take, List.length_append]
    omega

/-- The `Finishing` branch waits for more only with a body that is not complete. -/
lemma tryFinishing_short {hdr : Header} {dynhdr : DynamicHeader} {bodyBuf : Bytes}
    (hloc : s.remLoc ≤ s.remaining.length)
    (h : (tryFinishing s hdr dynhdr bodyBuf).1 = .ok none) :
    (tryFinishing s hdr dynhdr bodyBuf).2.inState.buf.length <
      (tryFinishing s hdr dynhdr bodyBuf).2.inState.target := by
  unfold tryFinishing at h ⊢
  rcases hext : extendMax bodyBuf s.remaining s.remLoc hdr.bodyLen.toNat with ⟨_ | _, buf, loc⟩
  · exact (extendMax_eq_false hloc hext).1
  · rw [hext] at h
    cases h

/-- The `DynHdr` branch waits for more with a header or a body that is not complete.

**Proof sketch.** Following the branch: without the array length the target is the sixteen bytes,
and without the whole header it is the total length, which the bytes behind do not change
(`totalHdrLen_append`). A header that is parsed leaves the body, by `tryFinishing_short`; a parse
error is no `Ok(None)`. -/
lemma tryDynHdr_short {hdr : Header} {dynBuf : Bytes} (hloc : s.remLoc ≤ s.remaining.length)
    (h : (tryDynHdr R s hdr dynBuf).1 = .ok none) :
    (tryDynHdr R s hdr dynBuf).2.inState.buf.length <
      (tryDynHdr R s hdr dynBuf).2.inState.target := by
  unfold tryDynHdr at h ⊢
  rcases hext : extendMax dynBuf s.remaining s.remLoc (headerLen + 4) with ⟨_ | _, buf, loc⟩
  · -- the array length is not there yet
    have hlt := (extendMax_eq_false hloc hext).1
    simpa [InState.buf, InState.target, if_pos hlt] using hlt
  rw [hext] at h
  dsimp only at h ⊢
  obtain ⟨h16, -, hloc₁⟩ := extendMax_eq_true hloc hext
  rcases hext₂ : extendMax buf s.remaining loc (totalHdrLen hdr.byteorder buf) with
    ⟨_ | _, buf₂, loc₂⟩
  · -- the header is not complete yet
    obtain ⟨hlt, hbuf, -⟩ := extendMax_eq_false hloc₁ hext₂
    have hlong : ¬ buf₂.length < headerLen + 4 := by
      rw [hbuf, List.length_append]
      omega
    have htotal : totalHdrLen hdr.byteorder buf₂ = totalHdrLen hdr.byteorder buf := by
      rw [hbuf]
      exact totalHdrLen_append _ _ _ h16
    simpa [InState.buf, InState.target, if_neg hlong, htotal] using hlt
  rw [hext₂] at h
  dsimp only at h ⊢
  obtain ⟨-, -, hloc₂⟩ := extendMax_eq_true hloc₁ hext₂
  cases hparse : parseDynHdr R s.withFd hdr buf₂ with
  | err e =>
    rw [hparse] at h
    cases h
  | panic =>
    rw [hparse] at h
    cases h
  | ok dynhdr =>
    rw [hparse] at h
    exact tryFinishing_short hloc₂ h

/-- The `Header` branch keeps to the bounds: a buffer that is handed on has at most the sixteen
bytes that one read may have brought.

**Proof sketch.** Where the fixed header is accepted, the `DynHdr` branch goes on with a buffer of
at most sixteen bytes. -/
lemma tryHeader_ends {hdrBuf : Bytes} (hloc : s.remLoc ≤ s.remaining.length)
    (hlen : hdrBuf.length ≤ 16) : s.TryEnds (tryHeader R s hdrBuf) := by
  unfold tryHeader
  rcases hext : extendMax hdrBuf s.remaining s.remLoc headerLen with ⟨_ | _, buf, loc⟩
  · obtain ⟨hlt, -, hloc'⟩ := extendMax_eq_false hloc hext
    refine ⟨⟨rfl, rfl, rfl, rfl, hloc'.le⟩, fun _ => ?_, fun _ => ?_, fun _ => hlt⟩
    · show buf.length ≤ 16
      have : headerLen = 12 := rfl
      omega
    · simp [leftover, hloc']
  dsimp only
  obtain ⟨-, hmax, hloc₁⟩ := extendMax_eq_true hloc hext
  have hkeeps : s.Keeps { s with inState := .header buf, remLoc := loc } :=
    ⟨rfl, rfl, rfl, rfl, hloc₁⟩
  cases hhdr : R.unmarshalHeader buf with
  | none =>
    exact ⟨hkeeps, fun hne => absurd rfl (hne _), fun h => (by cases h), fun h => (by cases h)⟩
  | some hdr =>
    have h16 : buf.length ≤ 16 := by
      have : headerLen = 12 := rfl
      omega
    have hspec := @tryDynHdr_spec R { s with inState := .header buf, remLoc := loc } hdr buf
      hloc₁ (.inl h16) True
    exact (hspec.ends (tryDynHdr_short hloc₁)).of_keeps hkeeps

/-- **`try_get_msg` keeps to the bounds** of the parser state. -/
theorem tryBlock_ends (hloc : s.remLoc ≤ s.remaining.length)
    (hbounded : s.inState.Bounded s.withFd) : s.TryEnds (tryBlock R s) := by
  unfold tryBlock
  cases hst : s.inState with
  | header b =>
    rw [hst] at hbounded
    exact tryHeader_ends hloc hbounded
  | dynHdr hdr b =>
    rw [hst] at hbounded
    exact (tryDynHdr_spec hloc hbounded True).ends (tryDynHdr_short hloc)
  | finishing hdr dynhdr b =>
    rw [hst] at hbounded
    exact (@tryFinishing_spec R s hdr dynhdr b hloc hbounded.1 hbounded.2 True).ends
      (tryFinishing_short hloc)

/-! ## The calls -/

/-- The invariant of the receiver, between calls and within one. -/
structure InBounds (s : RecvState) : Prop where
  remLoc : s.remLoc ≤ s.remaining.length
  bounded : s.inState.Bounded s.withFd
  capacity : 4096 ≤ s.remCap

/-- A new receiver is in bounds. -/
lemma inBounds_new (withFd : Bool) {remCap : ℕ} (hcap : 4096 ≤ remCap) :
    (new withFd remCap).InBounds :=
  ⟨le_rfl, Nat.zero_le _, hcap⟩

/-- Dropping what was read ahead keeps the bounds. -/
lemma InBounds.clear (h : s.InBounds) :
    ({ s with remaining := [], remLoc := 0 } : RecvState).InBounds :=
  ⟨le_rfl, h.bounded, h.capacity⟩

/-- Storing a chunk keeps the bounds, since the parser state gets no more than it needs. -/
lemma InBounds.receive (h : s.InBounds) (chunk : Bytes) (fds : List UnixFd) :
    (s.receive chunk fds).InBounds :=
  ⟨Nat.zero_le _, bounded_extend h.bounded (by simp), h.capacity⟩

/-- A state in bounds without leftover bytes and with a short buffer is drained. -/
lemma InBounds.drained (h : s.InBounds) (hleft : s.leftover = [])
    (hshort : s.inState.buf.length < s.inState.target) : s.Drained := by
  obtain ⟨hneeded, hpos⟩ := InState.checkedNeeded_of_short hshort
  have hconsumed : s.remaining.length ≤ s.remLoc := List.drop_eq_nil_iff.mp hleft
  refine ⟨Nat.le_antisymm hconsumed h.remLoc, h.capacity, hshort, ⟨_, hneeded, hpos⟩, ?_⟩
  unfold offered
  split_ifs
  · exact hpos
  · omega

/-- **`try_get_msg` keeps the bounds**, and leaves a drained state with `Ok(None)`. -/
lemma tryGetMsg_inBounds (h : s.InBounds) (sock : Socket) :
    (tryGetMsg R s sock).2.1.InBounds ∧
      ((tryGetMsg R s sock).1 = .ok none → (tryGetMsg R s sock).2.1.Drained) := by
  have hends := @tryBlock_ends R s h.remLoc h.bounded
  unfold tryGetMsg
  generalize tryBlock R s = res at hends ⊢
  obtain ⟨r, s'⟩ := res
  have hcap : 4096 ≤ s'.remCap := by
    rw [hends.keeps.remCap]
    exact h.capacity
  have hin : (∀ e, r ≠ .err e) → s'.InBounds := by
    intro hne
    have hbounded := hends.bounded hne
    rw [← hends.keeps.withFd] at hbounded
    exact ⟨hends.keeps.remLoc, hbounded, hcap⟩
  cases r with
  | ok raw =>
    have hin' := hin fun e he => (by cases he)
    exact ⟨hin', fun hnone => hin'.drained (hends.left hnone) (hends.short hnone)⟩
  | err e => exact ⟨⟨hends.keeps.remLoc, Nat.zero_le _, hcap⟩, fun hnone => (by cases hnone)⟩
  | panic => exact ⟨hin fun e he => (by cases he), fun hnone => (by cases hnone)⟩

/-- Delivering a message leaves the receiver as it is. -/
lemma deliver_state (raw : RawMessage) (fds : List UnixFd) (s : RecvState) (sock : Socket) :
    (deliver R raw fds s sock).2.1 = s := by
  simp only [deliver]
  cases (mmFromRaw raw fds).body.validate R <;> rfl

/-- A pass of the loop keeps the bounds, and the next one begins in a drained state. -/
lemma handleChunk_inBounds (h : s.InBounds) (sock : Socket) :
    (handleChunk R s sock).2.1.InBounds ∧
      ((handleChunk R s sock).1 = none → (handleChunk R s sock).2.1.Drained) := by
  unfold handleChunk
  split_ifs with hmany
  · exact ⟨⟨h.remLoc, Nat.zero_le _, h.capacity⟩, fun hnone => (by cases hnone)⟩
  · obtain ⟨hin, hdrained⟩ := @tryGetMsg_inBounds R s h sock
    generalize tryGetMsg R s sock = res at hin hdrained ⊢
    rcases res with ⟨(_ | raw) | e | _, s', sock'⟩
    · exact ⟨hin, fun _ => hdrained rfl⟩
    · have hcleared : ({ s' with inFds := [] } : RecvState).InBounds :=
        ⟨hin.remLoc, hin.bounded, hin.capacity⟩
      dsimp only
      split_ifs
      · exact ⟨hcleared, fun hnone => (by cases hnone)⟩
      · refine ⟨?_, fun hnone => (by cases hnone)⟩
        rw [deliver_state]
        exact hcleared
    · exact ⟨hin, fun hnone => (by cases hnone)⟩
    · exact ⟨hin, fun hnone => (by cases hnone)⟩

/-- The loop keeps the bounds. -/
lemma recvLoop_inBounds (script : List RecvEvent) (input : Bytes) (h : s.InBounds) :
    (recvLoop R script s input).2.1.InBounds := by
  induction script generalizing s input with
  | nil => exact h.clear
  | cons ev script ih =>
    cases ev with
    | wouldBlock => exact h.clear
    | eof => exact h.clear
    | err => exact h.clear
    | data n fds =>
      simp only [recvLoop]
      split_ifs with hzero
      · exact h.clear
      · obtain ⟨hin, -⟩ := @handleChunk_inBounds R _ (h.receive
          (input.take (min (n + 1) (min s.offered input.length))) fds)
          ⟨input.drop (min (n + 1) (min s.offered input.length)), script, false⟩
        generalize handleChunk R _ _ = res at hin ⊢
        rcases res with ⟨_ | r, s', sock'⟩
        · exact ih sock'.input hin
        · exact hin

/-- **The passes of the loop begin in drained states.**

**Proof sketch.** Induction on the answers of the socket: a pass that does not end the call has
left a drained state. -/
lemma loopHeads_drained (script : List RecvEvent) (input : Bytes) (h : s.InBounds)
    (hdrained : s.Drained) : ∀ head ∈ loopHeads R script s input, head.Drained := by
  have hone : ∀ head ∈ [s], head.Drained := by simpa using hdrained
  induction script generalizing s input with
  | nil => exact hone
  | cons ev script ih =>
    cases ev with
    | wouldBlock => exact hone
    | eof => exact hone
    | err => exact hone
    | data n fds =>
      simp only [loopHeads]
      split_ifs with hzero
      · exact hone
      · obtain ⟨hin, hnext⟩ := @handleChunk_inBounds R _ (h.receive
          (input.take (min (n + 1) (min s.offered input.length))) fds)
          ⟨input.drop (min (n + 1) (min s.offered input.length)), script, false⟩
        generalize handleChunk R _ _ = res at hin hnext ⊢
        rw [List.forall_mem_cons]
        refine ⟨hdrained, ?_⟩
        rcases res with ⟨_ | r, s', sock'⟩
        · have hs' := hnext rfl
          exact ih sock'.input hin hs' (by simpa using hs')
        · simp

/-- Where the assertions hold at every head, the loop with them is the loop without them. -/
lemma recvLoopChecked_eq (script : List RecvEvent) (s : RecvState) (input : Bytes)
    (hheads : ∀ head ∈ loopHeads R script s input, head.headChecks = true) :
    recvLoopChecked R script s input = recvLoop R script s input := by
  induction script generalizing s input with
  | nil => exact if_pos (hheads s List.mem_cons_self)
  | cons ev script ih =>
    cases ev with
    | wouldBlock => exact if_pos (hheads s List.mem_cons_self)
    | eof => exact if_pos (hheads s List.mem_cons_self)
    | err => exact if_pos (hheads s List.mem_cons_self)
    | data n fds =>
      simp only [loopHeads] at hheads
      simp only [recvLoopChecked, recvLoop]
      split_ifs at hheads with hzero
      · rw [if_pos (hheads s List.mem_cons_self), if_pos hzero, if_pos hzero]
      · rw [if_pos (hheads s List.mem_cons_self), if_neg hzero, if_neg hzero]
        generalize handleChunk R _ _ = res at hheads ⊢
        rcases res with ⟨_ | r, s', sock'⟩
        · exact ih s' sock'.input fun head hhead => hheads head (List.mem_cons_of_mem _ hhead)
        · rfl

/-- The passes of the loop in a call begin in drained states. -/
lemma callHeads_drained (h : s.InBounds) (sock : Socket) :
    ∀ head ∈ callHeads R s sock, head.Drained := by
  obtain ⟨hin, hdrained⟩ := @tryGetMsg_inBounds R s h sock
  unfold callHeads
  generalize tryGetMsg R s sock = res at hin hdrained ⊢
  rcases res with ⟨(_ | raw) | e | _, s', sock'⟩
  · dsimp only
    split_ifs
    · simpa using hdrained rfl
    · exact loopHeads_drained sock'.script sock'.input hin (hdrained rfl)
  · simp
  · simp
  · simp

/-- Where the assertions hold at every head, the call with them is the call without them. -/
lemma getNextMessageChecked_eq (s : RecvState) (sock : Socket)
    (hheads : ∀ head ∈ callHeads R s sock, head.headChecks = true) :
    getNextMessageChecked R s sock = getNextMessage R s sock := by
  unfold callHeads at hheads
  unfold getNextMessageChecked getNextMessage
  generalize tryGetMsg R s sock = res at hheads ⊢
  rcases res with ⟨(_ | raw) | e | _, s', sock'⟩
  · dsimp only at hheads ⊢
    split_ifs at hheads with hshut
    · rw [if_pos hshut, if_pos hshut, if_pos (hheads s' List.mem_cons_self)]
    · rw [if_neg hshut, if_neg hshut]
      exact recvLoopChecked_eq sock'.script s' sock'.input hheads
  · rfl
  · rfl
  · rfl

/-- A call keeps the bounds. -/
lemma getNextMessage_inBounds (h : s.InBounds) (sock : Socket) :
    (getNextMessage R s sock).2.1.InBounds := by
  obtain ⟨hin, -⟩ := @tryGetMsg_inBounds R s h sock
  unfold getNextMessage
  generalize tryGetMsg R s sock = res at hin ⊢
  rcases res with ⟨(_ | raw) | e | _, s', sock'⟩
  · dsimp only
    split_ifs
    · exact hin.clear
    · exact recvLoop_inBounds sock'.script sock'.input hin
  · dsimp only
    rw [deliver_state]
    exact hin
  · exact hin
  · exact hin

/-- In a state in bounds the assertions change nothing. -/
lemma InBounds.checked_eq (h : s.InBounds) (sock : Socket) :
    getNextMessageChecked R s sock = getNextMessage R s sock :=
  getNextMessageChecked_eq s sock fun head hhead => (callHeads_drained h sock head hhead).headChecks

/-- **Every reached state is in bounds.** -/
lemma Reached.inBounds (h : Reached R s) : s.InBounds := by
  induction h with
  | new withFd hcap => exact inBounds_new withFd hcap
  | call sock _ ih =>
    rw [ih.checked_eq sock]
    exact getNextMessage_inBounds ih sock

/-- **Calls of a build without the assertions** lead to the same states. -/
theorem Reached.unchecked (h : Reached R s) (sock : Socket) :
    Reached R (getNextMessage R s sock).2.1 := by
  rw [← h.inBounds.checked_eq sock]
  exact h.call sock

/-- **The assertions of the receive loop hold.**  In every state that calls lead to, whatever the
socket answers: each time `try_get_msg` returns `Ok(None)` it leaves a drained state, from which
the loop goes on; and so the call with the assertions is the call without them. -/
theorem assertions_hold (h : Reached R s) (sock : Socket) :
    (∀ head ∈ callHeads R s sock, head.Drained) ∧
      getNextMessageChecked R s sock = getNextMessage R s sock :=
  ⟨callHeads_drained h.inBounds sock, h.inBounds.checked_eq sock⟩

/-- A call that reads two bytes, then one, and then nothing: its loop begins three times. -/
theorem assertions_hold_three :
    let sock : Socket := ⟨[108, 1, 0], [.data 1 [], .data 0 [], .wouldBlock], false⟩
    (callHeads .reference (new true 4096) sock).length = 3 ∧
      (∀ head ∈ callHeads .reference (new true 4096) sock, head.Drained) ∧
      getNextMessageChecked .reference (new true 4096) sock =
        getNextMessage .reference (new true 4096) sock := by
  intro sock
  exact ⟨by decide, assertions_hold (.new true le_rfl) sock⟩

end RecvState

end AsyncRustbus
