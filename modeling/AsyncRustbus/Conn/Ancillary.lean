import AsyncRustbus.Lib.ControlMessages
import AsyncRustbus.Utils

set_option relaxedAutoImplicit false
set_option autoImplicit false

/-!
# Control messages (`conn/ancillary.rs`)

Descriptors are passed in control messages.  `SocketAncillary` puts them into a buffer of the
caller for `sendmsg`, and finds in it what `recvmsg` has left there.  The buffer is not cleared
between two uses: a new message is written over what stands there, and found as the last one that
the macros of `libc` visit.

## Main definitions

* `AsyncRustbus.Plain` — a type that is copied as bytes.
* `AsyncRustbus.SocketAncillary`, `SocketAncillary.addFds`, `SocketAncillary.messages` — the buffer.
* `AsyncRustbus.SocketAncillary.Holds` — the invariant: messages stand at the front of the buffer.
* `AsyncRustbus.fitting` — which slices of descriptors find room.

## Main results

* `SocketAncillary.addToAncillaryData_spec` — a message is added, or nothing is changed.
* `SocketAncillary.Holds.messages` — reading back.
* `SocketAncillary.run_messages` — what is read are the slices that found room, whatever stood in
  the buffer before.
-/

namespace AsyncRustbus

/-! ## Values as bytes -/

/-- A type whose values are copied as they stand in memory: `size_of`, `memcpy` and
`read_unaligned`. -/
structure Plain (T : Type) where
  size : ℕ
  bytes : T → Bytes
  read : Bytes → T
  size_pos : 0 < size
  length_bytes : ∀ t, (bytes t).length = size
  read_bytes : ∀ t, read (bytes t) = t

/-- `RawFd`, an `int`. -/
abbrev RawFd := Int32

/-- A `RawFd` in the byte order of the machine. -/
def Plain.rawFd (bo : ByteOrder) : Plain RawFd where
  size := 4
  bytes fd := u32ToBytes bo fd.toUInt32
  read bytes := (parseU32 bytes bo).toInt32
  size_pos := by decide
  length_bytes fd := length_u32ToBytes bo fd.toUInt32
  read_bytes fd := congrArg UInt32.toInt32 (parseU32_u32ToBytes bo fd.toUInt32)

/-- What an iterator returns, up to `n` items. -/
def collect {α S : Type} (next : S → Option (α × S)) : ℕ → S → List α
  | 0, _ => []
  | n + 1, s =>
    match next s with
    | none => []
    | some (a, s) => a :: collect next n s

namespace Plain

variable {T : Type} (P : Plain T)

/-- The bytes of a slice. -/
def sliceBytes (source : List T) : Bytes := source.flatMap P.bytes

/-- `AncillaryDataIter::next`. -/
def next (data : Bytes) : Option (T × Bytes) :=
  if P.size ≤ data.length then some (P.read (data.take P.size), data.drop P.size) else none

/-- All values of an `AncillaryDataIter`: each takes at least one byte. -/
def values (data : Bytes) : List T := collect P.next data.length data

/-- The length of a slice in bytes. -/
@[simp] lemma length_sliceBytes (source : List T) :
    (P.sliceBytes source).length = source.length * P.size := by
  induction source with
  | nil => simp [sliceBytes]
  | cons t source ih =>
    rw [sliceBytes, List.flatMap_cons, List.length_append, P.length_bytes, List.length_cons,
      Nat.add_mul, Nat.one_mul, Nat.add_comm]
    exact congrArg (· + P.size) ih

/-- Reading a slice back. -/
lemma collect_sliceBytes (source : List T) (n : ℕ) (hn : source.length ≤ n) :
    collect P.next n (P.sliceBytes source) = source := by
  induction source generalizing n with
  | nil =>
    have hnone : P.next [] = none := if_neg (Nat.not_le.mpr P.size_pos)
    cases n with
    | zero => rfl
    | succ n => simp [collect, sliceBytes, hnone]
  | cons t source ih =>
    obtain ⟨k, rfl⟩ : ∃ k, n = k + 1 := ⟨n - 1, by simp at hn; omega⟩
    have hbytes : P.sliceBytes (t :: source) = P.bytes t ++ P.sliceBytes source := rfl
    have hnext : P.next (P.sliceBytes (t :: source)) = some (t, P.sliceBytes source) := by
      rw [next, hbytes, if_pos (by simp [P.length_bytes]), List.take_left' (P.length_bytes t),
        List.drop_left' (P.length_bytes t), P.read_bytes]
    rw [collect, hnext]
    exact congrArg (t :: ·) (ih k (by simpa using hn))

/-- **The values of a slice are the slice.** -/
@[simp] lemma values_sliceBytes (source : List T) : P.values (P.sliceBytes source) = source := by
  refine P.collect_sliceBytes source _ ?_
  rw [length_sliceBytes]
  exact Nat.le_mul_of_pos_right _ P.size_pos

end Plain

/-! ## Writing into a buffer -/

/-- The buffer with these bytes from a place on. -/
def overwrite (buffer : Bytes) (start : ℕ) (bytes : Bytes) : Bytes :=
  buffer.take start ++ bytes ++ buffer.drop (start + bytes.length)

/-- The part of a buffer between two others. -/
lemma overwrite_append (pre old post bytes : Bytes) (h : old.length = bytes.length) :
    overwrite (pre ++ old ++ post) pre.length bytes = pre ++ bytes ++ post := by
  have htake : (pre ++ old ++ post).take pre.length = pre := by
    rw [List.append_assoc, List.take_left]
  have hdrop : (pre ++ old ++ post).drop (pre.length + bytes.length) = post := by
    rw [← h, ← List.length_append, List.drop_left]
  rw [overwrite, htake, hdrop]

/-! ## `SocketAncillary` -/

/-- `SOL_SOCKET`. -/
def solSocket : Int32 := 1

/-- `SCM_RIGHTS`. -/
def scmRights : Int32 := 1

/-- `AncillaryError`. -/
inductive AncillaryError
  | unknown (cmsgLevel cmsgType : Int32)
  deriving DecidableEq

/-- `SocketAncillary`. -/
structure SocketAncillary where
  buffer : Bytes
  length : ℕ
  truncated : Bool
  deriving DecidableEq

/-- `Messages`: the used part of the buffer and the header of the last message returned. -/
structure Messages where
  buffer : Bytes
  current : Option ℕ

section Layout

variable (L : CmsgLayout) (bo : ByteOrder)

/-- `add_to_ancillary_data`: whether the message was added, the buffer and its used length.  The
macros return a `c_uint`, and a header is written with zeroes in its padding. -/
def addToAncillaryData {T : Type} (P : Plain T) (buffer : Bytes) (length : ℕ) (source : List T)
    (cmsgLevel cmsgType : Int32) : Bool × Bytes × ℕ :=
  let sourceLen := source.length * P.size
  if 2 ^ 32 ≤ sourceLen then (false, buffer, length)
  else
    let additionalSpace := L.space sourceLen % 2 ^ 32
    let newLength := additionalSpace + length
    if buffer.length < newLength then (false, buffer, length)
    else
      let buffer := overwrite buffer length (List.replicate additionalSpace 0)
      -- the last header that the macros visit
      match (L.headers (buffer.take newLength)).getLast? with
      | none => (false, buffer, newLength)
      | some cmsg =>
        let buffer := overwrite buffer cmsg
          (L.header (L.len sourceLen % 2 ^ 32) cmsgLevel cmsgType)
        (true, overwrite buffer (cmsg + L.headerLen) (P.sliceBytes source), newLength)

/-- The end of `AncillaryData::try_from_cmsghdr`, with the descriptors of a `ScmRights`. -/
def ancillaryData (m : ControlMessage) : Res AncillaryError (List RawFd) :=
  if m.level = solSocket then
    if m.typ = scmRights then .ok ((Plain.rawFd bo).values m.data)
    else .err (.unknown solSocket m.typ)
  else .err (.unknown m.level m.typ)

/-- `AncillaryData::try_from_cmsghdr`.  The length of the data is a checked subtraction. -/
def tryFromCmsghdr (control : Bytes) (cmsg : ℕ) : Res AncillaryError (List RawFd) :=
  match L.messageAt control cmsg with
  | none => .panic
  | some m => ancillaryData bo m

/-- The header that `Messages::next` comes to. -/
def Messages.cmsg (m : Messages) : Option ℕ :=
  match m.current with
  | some current => L.nxtHdr m.buffer current
  | none => L.firstHdr m.buffer.length

/-- `Messages::next`. -/
def Messages.next (m : Messages) : Option (Res AncillaryError (List RawFd) × Messages) :=
  match m.cmsg L with
  | none => none
  | some cmsg => some (tryFromCmsghdr L bo m.buffer cmsg, { m with current := some cmsg })

namespace SocketAncillary

/-- `SocketAncillary::new`. -/
def new (buffer : Bytes) : SocketAncillary := ⟨buffer, 0, false⟩

/-- `SocketAncillary::capacity`. -/
def capacity (anc : SocketAncillary) : ℕ := anc.buffer.length

/-- The items of `SocketAncillary::messages`: every header takes at least one byte. -/
def messages (anc : SocketAncillary) : List (Res AncillaryError (List RawFd)) :=
  collect (Messages.next L bo) (anc.length + 1) ⟨anc.buffer.take anc.length, none⟩

/-- `SocketAncillary::add_fds`. -/
def addFds (anc : SocketAncillary) (fds : List RawFd) : Bool × SocketAncillary :=
  match addToAncillaryData L (Plain.rawFd bo) anc.buffer anc.length fds solSocket scmRights with
  | (added, buffer, length) => (added, ⟨buffer, length, false⟩)

/-- What `recv_vectored_with_ancillary` does with the control data that `recvmsg` has stored. -/
def received (anc : SocketAncillary) (control : Bytes) (truncated : Bool) : SocketAncillary :=
  ⟨overwrite anc.buffer 0 control, control.length, truncated⟩

/-- A sequence of `add_fds` calls. -/
def addAll (anc : SocketAncillary) : List (List RawFd) → List Bool × SocketAncillary
  | [] => ([], anc)
  | fds :: rest =>
    let (added, anc) := anc.addFds L bo fds
    let (results, anc) := anc.addAll rest
    (added :: results, anc)

end SocketAncillary

/-! ## Reading the messages -/

/-- The iterator follows the macros. -/
lemma collect_messages_next (m : Messages) (n : ℕ) :
    collect (Messages.next L bo) n m =
      (L.headersFrom m.buffer n (m.cmsg L)).map (tryFromCmsghdr L bo m.buffer) := by
  induction n generalizing m with
  | zero => rfl
  | succ n ih =>
    rw [collect, Messages.next]
    cases m.cmsg L with
    | none => rfl
    | some cmsg =>
      simp only [CmsgLayout.headersFrom, List.map_cons, ih]
      rfl

/-- The items are those of the headers of the used part. -/
lemma SocketAncillary.messages_eq (anc : SocketAncillary)
    (h : anc.length ≤ anc.buffer.length) :
    anc.messages L bo = (L.headers (anc.buffer.take anc.length)).map
      (tryFromCmsghdr L bo (anc.buffer.take anc.length)) := by
  rw [messages, collect_messages_next, CmsgLayout.headers, List.length_take, Nat.min_eq_left h,
    Messages.cmsg, List.length_take, Nat.min_eq_left h]

/-! ## The buffer of messages -/

/-- The message that passes descriptors. -/
def rights (fds : List RawFd) : ControlMessage :=
  ⟨solSocket, scmRights, (Plain.rawFd bo).sliceBytes fds⟩

/-- The length of the data of such a message. -/
@[simp] lemma length_data_rights (fds : List RawFd) :
    (rights bo fds).data.length = 4 * fds.length := by
  rw [rights, Plain.length_sliceBytes, Nat.mul_comm]
  rfl

/-- The used part of the buffer consists of these messages. -/
structure SocketAncillary.Holds (anc : SocketAncillary) (ms : List ControlMessage) : Prop where
  le : anc.length ≤ anc.buffer.length
  used : anc.buffer.take anc.length = ms.flatMap L.block
  fits : ∀ m ∈ ms, L.Fits m

variable {L}

/-- A message written into zeroes. -/
lemma overwrite_block (pre : Bytes) (m : ControlMessage) (post : Bytes) :
    overwrite (overwrite (pre ++ List.replicate (L.space m.data.length) 0 ++ post) pre.length
      (L.header (L.len m.data.length) m.level m.typ)) (pre.length + L.headerLen) m.data =
      pre ++ L.block m ++ post := by
  have hfit := L.le_alignUp m.data.length
  have hzero : List.replicate (L.space m.data.length) (0 : UInt8) =
      List.replicate L.headerLen 0 ++ (List.replicate m.data.length 0 ++
        List.replicate (L.alignUp m.data.length - m.data.length) 0) := by
    rw [List.replicate_append_replicate, List.replicate_append_replicate, L.space_eq]
    congr 1
    omega
  have hheader := L.length_header (L.len m.data.length) m.level m.typ
  have hfirst := overwrite_append pre (List.replicate L.headerLen 0)
    (List.replicate m.data.length 0 ++
      List.replicate (L.alignUp m.data.length - m.data.length) 0 ++ post)
    (L.header (L.len m.data.length) m.level m.typ) (by rw [List.length_replicate, hheader])
  have hsecond := overwrite_append (pre ++ L.header (L.len m.data.length) m.level m.typ)
    (List.replicate m.data.length 0)
    (List.replicate (L.alignUp m.data.length - m.data.length) 0 ++ post) m.data (by simp)
  simp only [List.append_assoc, List.length_append, hheader] at hfirst hsecond
  rw [hzero, CmsgLayout.block]
  simp only [List.append_assoc]
  rw [hfirst, hsecond]

/-- **A message is added where it finds room**, behind those that are there, and otherwise nothing
is changed.

**Proof sketch.** The lengths do not wrap, so the test is the one of the statement. With room, the
buffer is what is used, the place of the new message and what is behind it. The function clears that
place, and there the walk over the headers ends (`CmsgLayout.headers_zero`); the header and the data
are written over it, which is the block of the message (`overwrite_block`). -/
lemma addToAncillaryData_spec {T : Type} (P : Plain T) {buffer : Bytes}
    {ms : List ControlMessage} (hle : (ms.flatMap L.block).length ≤ buffer.length)
    (hused : buffer.take (ms.flatMap L.block).length = ms.flatMap L.block)
    (hfits : ∀ m ∈ ms, L.Fits m) (source : List T) (level typ : Int32)
    (hspace : L.space (source.length * P.size) < 2 ^ 32) :
    addToAncillaryData L P buffer (ms.flatMap L.block).length source level typ =
      if buffer.length < (ms.flatMap L.block).length + L.space (source.length * P.size) then
        (false, buffer, (ms.flatMap L.block).length)
      else (true, (ms ++ [(⟨level, typ, P.sliceBytes source⟩ : ControlMessage)]).flatMap L.block ++
          buffer.drop ((ms.flatMap L.block).length + L.space (source.length * P.size)),
        (ms.flatMap L.block).length + L.space (source.length * P.size)) := by
  obtain ⟨pre, hpre⟩ : ∃ pre, pre = ms.flatMap L.block := ⟨_, rfl⟩
  obtain ⟨m, hm⟩ : ∃ m : ControlMessage, m = ⟨level, typ, P.sliceBytes source⟩ := ⟨_, rfl⟩
  have hdata : m.data.length = source.length * P.size := by
    rw [hm]
    exact P.length_sliceBytes source
  have hlen := L.len_le_space (source.length * P.size)
  have hsource := L.len_eq (source.length * P.size)
  have hnew : L.space (source.length * P.size) + pre.length =
      pre.length + L.space (source.length * P.size) := Nat.add_comm _ _
  rw [addToAncillaryData, if_neg (by omega), Nat.mod_eq_of_lt hspace,
    Nat.mod_eq_of_lt (by omega : L.len (source.length * P.size) < 2 ^ 32)]
  rw [← hpre] at hle hused ⊢
  dsimp only
  rw [hnew]
  by_cases hroom : buffer.length < pre.length + L.space (source.length * P.size)
  · rw [if_pos hroom, if_pos hroom]
  · rw [if_neg hroom, if_neg hroom]
    -- the buffer: what is used, the place of the message, what is behind it
    obtain ⟨old, post, hbuffer, hold⟩ : ∃ old post, buffer = pre ++ old ++ post ∧
        old.length = L.space (source.length * P.size) := by
      refine ⟨(buffer.drop pre.length).take (L.space (source.length * P.size)),
        (buffer.drop pre.length).drop (L.space (source.length * P.size)), ?_, ?_⟩
      · rw [List.append_assoc, List.take_append_drop]
        conv_lhs => rw [← List.take_append_drop pre.length buffer, hused]
      · rw [List.length_take, List.length_drop]
        omega
    have hzero := overwrite_append pre old post
      (List.replicate (L.space (source.length * P.size)) 0) (by rw [hold, List.length_replicate])
    have htake : (pre ++ List.replicate (L.space (source.length * P.size)) 0 ++ post).take
        (pre.length + L.space (source.length * P.size)) =
          ms.flatMap L.block ++ List.replicate (L.space (source.length * P.size)) 0 := by
      rw [← hpre]
      exact List.take_left' (by simp)
    have hlast := CmsgLayout.headers_zero ms hfits
      (show L.headerLen ≤ L.space (source.length * P.size) by omega)
    have hdrop : buffer.drop (pre.length + L.space (source.length * P.size)) = post := by
      rw [hbuffer]
      exact List.drop_left' (by simp [hold])
    have hblock := overwrite_block (L := L) pre m post
    rw [hdata, hm] at hblock
    rw [hdrop, hbuffer, hzero, htake, hlast]
    simp only [← hpre]
    rw [hblock, List.flatMap_append, ← hpre, List.flatMap_singleton]

/-- **Adding descriptors.**

**Proof sketch.** `addToAncillaryData_spec` for descriptors of four bytes. What is used stays the
blocks of the messages, with the one of the new message at the end, and the buffer keeps its length.
-/
lemma SocketAncillary.Holds.addFds {anc : SocketAncillary} {ms : List ControlMessage}
    (h : anc.Holds L ms) (fds : List RawFd) (hspace : L.space (4 * fds.length) < 2 ^ 32) :
    if anc.capacity < anc.length + L.space (4 * fds.length) then
      anc.addFds L bo fds = (false, { anc with truncated := false })
    else
      (anc.addFds L bo fds).1 = true ∧
        (anc.addFds L bo fds).2.length = anc.length + L.space (4 * fds.length) ∧
        (anc.addFds L bo fds).2.capacity = anc.capacity ∧
        (anc.addFds L bo fds).2.Holds L (ms ++ [rights bo fds]) := by
  have hlength : anc.length = (ms.flatMap L.block).length := by
    rw [← h.used, List.length_take, Nat.min_eq_left h.le]
  have hsize : fds.length * (Plain.rawFd bo).size = 4 * fds.length := Nat.mul_comm _ _
  have hle : (ms.flatMap L.block).length ≤ anc.buffer.length := by
    rw [← hlength]
    exact h.le
  have hused : anc.buffer.take (ms.flatMap L.block).length = ms.flatMap L.block := by
    rw [← hlength]
    exact h.used
  have hspec := addToAncillaryData_spec (Plain.rawFd bo) hle hused h.fits fds solSocket scmRights
    (by rw [hsize]; exact hspace)
  rw [← hlength, hsize] at hspec
  rw [capacity, SocketAncillary.addFds, hspec]
  by_cases hroom : anc.buffer.length < anc.length + L.space (4 * fds.length)
  · rw [if_pos hroom, if_pos hroom]
  · rw [if_neg hroom, if_neg hroom]
    have hblocks : ((ms ++ [rights bo fds]).flatMap L.block).length =
        anc.length + L.space (4 * fds.length) := by
      rw [List.flatMap_append, List.length_append, ← hlength, List.flatMap_singleton,
        CmsgLayout.length_block, length_data_rights]
    have hwhole : ((ms ++ [rights bo fds]).flatMap L.block ++
        anc.buffer.drop (anc.length + L.space (4 * fds.length))).length = anc.buffer.length := by
      rw [List.length_append, hblocks, List.length_drop]
      omega
    refine ⟨rfl, rfl, hwhole, ⟨?_, List.take_left' hblocks, ?_⟩⟩
    · have hroom' : anc.length + L.space (4 * fds.length) ≤ anc.buffer.length := by omega
      exact hroom'.trans_eq hwhole.symm
    · intro m hm
      rcases List.mem_append.mp hm with hm | hm
      · exact h.fits m hm
      · rw [List.mem_singleton.mp hm, CmsgLayout.Fits, length_data_rights]
        exact hspace

/-- An empty buffer holds no message, whatever stands in it. -/
lemma SocketAncillary.holds_new (buffer : Bytes) : (new buffer).Holds L [] :=
  ⟨Nat.zero_le _, List.take_zero, by simp⟩

/-- **Reading back what the buffer holds.** -/
theorem SocketAncillary.Holds.messages {anc : SocketAncillary} {ms : List ControlMessage}
    (h : anc.Holds L ms) : anc.messages L bo = ms.map (ancillaryData bo) := by
  have hread : tryFromCmsghdr L bo (ms.flatMap L.block) =
      (fun m => Option.elim m .panic (ancillaryData bo)) ∘ L.messageAt (ms.flatMap L.block) := by
    funext cmsg
    rw [tryFromCmsghdr, Function.comp_apply]
    cases L.messageAt (ms.flatMap L.block) cmsg with
    | none => rfl
    | some m => rfl
  rw [anc.messages_eq L bo h.le, h.used, hread, ← List.map_map,
    CmsgLayout.messages_blocks ms h.fits, List.map_map]
  rfl

/-- A message with descriptors is read as these. -/
@[simp] lemma ancillaryData_rights (fds : List RawFd) :
    ancillaryData bo (rights bo fds) = .ok fds := by
  have hvalues := (Plain.rawFd bo).values_sliceBytes fds
  show Res.ok ((Plain.rawFd bo).values ((Plain.rawFd bo).sliceBytes fds)) = .ok fds
  rw [hvalues]

/-! ## A sequence of calls -/

/-- Which slices find room behind `used` bytes. -/
def fitting (L : CmsgLayout) (capacity : ℕ) : ℕ → List (List RawFd) → List Bool
  | _, [] => []
  | used, fds :: rest =>
    if capacity < used + L.space (4 * fds.length) then false :: fitting L capacity used rest
    else true :: fitting L capacity (used + L.space (4 * fds.length)) rest

/-- The slices whose call returned `true`. -/
def accepted (calls : List (List RawFd)) (results : List Bool) : List (List RawFd) :=
  ((calls.zip results).filter Prod.snd).map Prod.fst

/-- **A sequence of calls** on a buffer that holds messages with descriptors.

**Proof sketch.** Induction on the calls; each adds its message or leaves the buffer. -/
lemma SocketAncillary.Holds.addAll (calls : List (List RawFd))
    (hcalls : ∀ fds ∈ calls, L.space (4 * fds.length) < 2 ^ 32) {anc : SocketAncillary}
    {held : List (List RawFd)} (h : anc.Holds L (held.map (rights bo))) :
    (anc.addAll L bo calls).1 = fitting L anc.capacity anc.length calls ∧
      (anc.addAll L bo calls).2.Holds L
        ((held ++ accepted calls (anc.addAll L bo calls).1).map (rights bo)) ∧
      (anc.addAll L bo calls).2.capacity = anc.capacity := by
  induction calls generalizing anc held with
  | nil =>
    refine ⟨rfl, ?_, rfl⟩
    show anc.Holds L ((held ++ []).map (rights bo))
    rw [List.append_nil]
    exact h
  | cons fds calls ih =>
    have hrest : ∀ fds ∈ calls, L.space (4 * fds.length) < 2 ^ 32 :=
      fun fds hfds => hcalls fds (List.mem_cons_of_mem _ hfds)
    have hadd := h.addFds bo fds (hcalls fds List.mem_cons_self)
    rw [SocketAncillary.addAll, fitting]
    by_cases hroom : anc.capacity < anc.length + L.space (4 * fds.length)
    · rw [if_pos hroom] at hadd
      have hsame : ({ anc with truncated := false } : SocketAncillary).Holds L
          (held.map (rights bo)) := ⟨h.le, h.used, h.fits⟩
      obtain ⟨hresults, hholds, hcapacity⟩ := ih hrest hsame
      rw [if_pos hroom, hadd]
      exact ⟨congrArg (false :: ·) hresults, hholds, hcapacity⟩
    · rw [if_neg hroom] at hadd
      obtain ⟨htrue, hlength, hcap, hmore⟩ := hadd
      rw [if_neg hroom]
      generalize anc.addFds L bo fds = res at htrue hlength hcap hmore ⊢
      obtain ⟨added, anc'⟩ := res
      dsimp only at htrue hlength hcap hmore ⊢
      subst htrue
      have hholds : anc'.Holds L ((held ++ [fds]).map (rights bo)) := by
        rw [List.map_append]
        exact hmore
      obtain ⟨hresults, hholds', hcapacity⟩ := ih hrest hholds
      refine ⟨?_, ?_, hcapacity.trans hcap⟩
      · rw [hresults, hcap, hlength]
      · rw [List.append_assoc] at hholds'
        exact hholds'

/-- **What is read are the slices that found room.**  A buffer of any contents is used from its
start.  Each `add_fds` call adds its slice if it finds room behind those added before, and changes
nothing otherwise; `messages` returns the slices added, in order, and never fails. -/
theorem SocketAncillary.run_messages (L : CmsgLayout) (bo : ByteOrder) (buffer : Bytes)
    (calls : List (List RawFd)) (hcalls : ∀ fds ∈ calls, L.space (4 * fds.length) < 2 ^ 32) :
    let run := (SocketAncillary.new buffer).addAll L bo calls
    run.1 = fitting L buffer.length 0 calls ∧
      run.2.messages L bo = (accepted calls run.1).map Res.ok ∧
      run.2.length ≤ run.2.capacity ∧ run.2.capacity = buffer.length := by
  have hnew : (SocketAncillary.new buffer).Holds L (([] : List (List RawFd)).map (rights bo)) :=
    SocketAncillary.holds_new buffer
  obtain ⟨hresults, hholds, hcapacity⟩ := hnew.addAll bo calls hcalls
  refine ⟨hresults, ?_, hholds.le, hcapacity⟩
  rw [hholds.messages, List.nil_append, List.map_map]
  exact List.map_congr_left fun fds _ => ancillaryData_rights bo fds

/-- Forty descriptors, thirty for which no room is left, and two. -/
theorem SocketAncillary.run_messages_linux64 :
    let calls : List (List RawFd) := [List.replicate 40 3, List.replicate 30 4, [5, 6]]
    fitting .linux64 256 0 calls = [true, false, true] ∧
      ((SocketAncillary.new (List.replicate 256 7)).addAll .linux64 .littleEndian calls).2.messages
        .linux64 .littleEndian = [.ok (List.replicate 40 3), .ok [5, 6]] := by
  intro calls
  have hfit : fitting .linux64 256 0 calls = [true, false, true] := by decide
  obtain ⟨hresults, hmessages, -⟩ := SocketAncillary.run_messages .linux64 .littleEndian
    (List.replicate 256 7) calls (by decide)
  refine ⟨hfit, ?_⟩
  rw [hmessages, hresults, List.length_replicate, hfit]
  rfl

end Layout

end AsyncRustbus
