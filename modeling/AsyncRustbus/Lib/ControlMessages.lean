import Mathlib.Algebra.Group.Nat.Defs
import Mathlib.Data.List.Basic
import Mathlib.Order.Basic
import Mathlib.Tactic.Common

set_option relaxedAutoImplicit false
set_option autoImplicit false

/-!
# Buffers of control messages

The control messages of a socket stand in one buffer, each a header with its length, its level and
its type, then its data, then padding.  A program finds them with the macros of `cmsg(3)`: the
first header, the header behind another one, the data of a header, and the space that data of a
length take.  How wide the fields are and how messages are aligned depends on the system.

## Main definitions

* `CmsgLayout` — a layout of headers and its alignment.
* `CmsgLayout.linux64` — the one of Linux on machines with sixty-four bits.
* `CmsgLayout.firstHdr`, `CmsgLayout.nxtHdr`, `CmsgLayout.space`, `CmsgLayout.len` — the macros.
* `CmsgLayout.headers` — the headers that the macros visit.
* `CmsgLayout.block` — one message in a buffer.

## Main results

* `CmsgLayout.headers_complete` — the walk over the headers ends by itself.
* `CmsgLayout.headersFrom_blocks` — it visits message by message.
* `CmsgLayout.messages_blocks` — and reads back what stands there.
* `CmsgLayout.messages_cut` — also where the padding of the last message is cut off.
* `CmsgLayout.headers_zero` — a zeroed place behind the messages is the last header visited.
-/

/-- How control messages are laid out: aligned headers of a fixed length.  A header that is all
zero says that its length is zero. -/
structure CmsgLayout where
  align : ℕ
  headerLen : ℕ
  header : ℕ → Int32 → Int32 → List UInt8
  readHeader : List UInt8 → ℕ × Int32 × Int32
  align_pos : 0 < align
  header_pos : 0 < headerLen
  align_dvd : align ∣ headerLen
  length_header : ∀ len level typ, (header len level typ).length = headerLen
  readHeader_header : ∀ len level typ rest, len < 2 ^ 32 →
    readHeader (header len level typ ++ rest) = (len, level, typ)
  readHeader_zero : ∀ rest, (readHeader (List.replicate headerLen 0 ++ rest)).1 = 0

/-- A control message: its level, its type and its data. -/
structure ControlMessage where
  level : Int32
  typ : Int32
  data : List UInt8
  deriving DecidableEq

namespace CmsgLayout

/-! ## Sixty-four bits, least significant byte first -/

/-- The low bytes of a number, least significant first. -/
def leBytes : ℕ → ℕ → List UInt8
  | 0, _ => []
  | k + 1, n => UInt8.ofNat (n % 256) :: leBytes k (n / 256)

/-- The number of some bytes. -/
def leNat : List UInt8 → ℕ
  | [] => 0
  | b :: bs => b.toNat + 256 * leNat bs

/-- Bytes are counted. -/
@[simp] lemma length_leBytes (k n : ℕ) : (leBytes k n).length = k := by
  induction k generalizing n with
  | zero => rfl
  | succ k ih => rw [leBytes, List.length_cons, ih]

/-- Reading bytes back. -/
lemma leNat_leBytes (k n : ℕ) (h : n < 256 ^ k) : leNat (leBytes k n) = n := by
  induction k generalizing n with
  | zero =>
    rw [Nat.pow_zero, Nat.lt_one_iff] at h
    rw [h]
    rfl
  | succ k ih =>
    have hrest := ih (n / 256) (by rw [Nat.pow_succ] at h; omega)
    rw [leBytes, leNat, hrest, UInt8.toNat_ofNat']
    omega

/-- Reading a number that stands behind other bytes. -/
lemma leNat_field (pre : List UInt8) (k n : ℕ) (post : List UInt8) (h : n < 256 ^ k) :
    leNat (((pre ++ (leBytes k n ++ post)).drop pre.length).take k) = n := by
  rw [List.drop_left, List.take_left' (length_leBytes k n), leNat_leBytes k n h]

/-- Zeroes are zero. -/
lemma leNat_zero (k : ℕ) : leNat (List.replicate k 0) = 0 := by
  induction k with
  | zero => rfl
  | succ k ih => rw [List.replicate_succ, leNat, ih]; rfl

/-- The layout of Linux on little-endian machines with sixty-four bits: a `size_t` and two
`int`s. -/
def linux64 : CmsgLayout where
  align := 8
  headerLen := 16
  header len level typ :=
    leBytes 8 len ++ leBytes 4 level.toUInt32.toNat ++ leBytes 4 typ.toUInt32.toNat
  readHeader bytes :=
    (leNat (bytes.take 8), ⟨UInt32.ofNat (leNat ((bytes.drop 8).take 4))⟩,
      ⟨UInt32.ofNat (leNat ((bytes.drop 12).take 4))⟩)
  align_pos := by decide
  header_pos := by decide
  align_dvd := by decide
  length_header _ _ _ := by simp
  readHeader_header len level typ rest h := by
    have hlen := leNat_field [] 8 len (leBytes 4 level.toUInt32.toNat ++
      (leBytes 4 typ.toUInt32.toNat ++ rest)) (by omega)
    have hlevel := leNat_field (leBytes 8 len) 4 level.toUInt32.toNat
      (leBytes 4 typ.toUInt32.toNat ++ rest) level.toUInt32.toNat_lt
    have htyp := leNat_field (leBytes 8 len ++ leBytes 4 level.toUInt32.toNat) 4
      typ.toUInt32.toNat rest typ.toUInt32.toNat_lt
    simp only [List.length_append, length_leBytes, List.nil_append, List.length_nil,
      List.drop_zero, List.append_assoc] at hlen hlevel htyp ⊢
    rw [hlen, hlevel, htyp]
    simp
  readHeader_zero rest := by
    rw [List.take_append_of_le_length (by simp), List.take_replicate]
    exact leNat_zero _

/-! ## The macros -/

variable (L : CmsgLayout)

/-- `CMSG_ALIGN`. -/
def alignUp (n : ℕ) : ℕ := (n + L.align - 1) / L.align * L.align

/-- `CMSG_SPACE`: what data of `n` bytes take with their header. -/
def space (n : ℕ) : ℕ := L.alignUp n + L.alignUp L.headerLen

/-- `CMSG_LEN`: the length in the header of data of `n` bytes. -/
def len (n : ℕ) : ℕ := L.alignUp L.headerLen + n

/-- `CMSG_FIRSTHDR` of a buffer of this length. -/
def firstHdr (controllen : ℕ) : Option ℕ := if L.headerLen ≤ controllen then some 0 else none

/-- `CMSG_NXTHDR`: none behind a header that is too short, and none that does not fit. -/
def nxtHdr (control : List UInt8) (cmsg : ℕ) : Option ℕ :=
  let cmsgLen := (L.readHeader (control.drop cmsg)).1
  if cmsgLen < L.headerLen then none
  else
    let next := cmsg + L.alignUp cmsgLen
    if control.length < next + L.headerLen ∨
        control.length < next + L.alignUp (L.readHeader (control.drop next)).1 then none
    else some next

/-- The headers from one on, at most `n` of them. -/
def headersFrom (control : List UInt8) : ℕ → Option ℕ → List ℕ
  | 0, _ => []
  | _ + 1, none => []
  | n + 1, some cmsg => cmsg :: headersFrom control n (L.nxtHdr control cmsg)

/-- All headers of a buffer. -/
def headers (control : List UInt8) : List ℕ :=
  L.headersFrom control (control.length + 1) (L.firstHdr control.length)

/-- The message at a header, if its length is one. -/
def messageAt (control : List UInt8) (cmsg : ℕ) : Option ControlMessage :=
  let hdr := L.readHeader (control.drop cmsg)
  if hdr.1 < L.len 0 then none
  else some ⟨hdr.2.1, hdr.2.2, (control.drop (cmsg + L.headerLen)).take (hdr.1 - L.len 0)⟩

/-! ## Alignment -/

/-- Aligning never decreases. -/
lemma le_alignUp (n : ℕ) : n ≤ L.alignUp n := by
  have hpos := L.align_pos
  have hdiv := Nat.div_add_mod (n + L.align - 1) L.align
  have hmod := Nat.mod_lt (n + L.align - 1) hpos
  rw [Nat.mul_comm] at hdiv
  unfold alignUp
  omega

/-- What is aligned stays. -/
lemma alignUp_eq_self {n : ℕ} (h : L.align ∣ n) : L.alignUp n = n := by
  obtain ⟨k, rfl⟩ := h
  have hpos := L.align_pos
  have hdiv : (L.align * k + L.align - 1) / L.align = k := by
    rw [Nat.add_sub_assoc hpos, Nat.mul_add_div hpos, Nat.div_eq_of_lt (by omega), Nat.add_zero]
  rw [alignUp, hdiv, Nat.mul_comm]

/-- Headers are aligned. -/
@[simp] lemma alignUp_headerLen : L.alignUp L.headerLen = L.headerLen :=
  L.alignUp_eq_self L.align_dvd

/-- Nothing takes no place. -/
@[simp] lemma alignUp_zero : L.alignUp 0 = 0 := L.alignUp_eq_self (Nat.dvd_zero _)

/-- Data behind a header. -/
lemma alignUp_add_headerLen (n : ℕ) :
    L.alignUp (L.headerLen + n) = L.headerLen + L.alignUp n := by
  obtain ⟨k, hk⟩ := L.align_dvd
  have hpos := L.align_pos
  have hsplit : L.headerLen + n + L.align - 1 = L.align * k + (n + L.align - 1) := by omega
  rw [alignUp, hsplit, Nat.mul_add_div hpos, Nat.add_mul, alignUp, hk, Nat.mul_comm]

/-- The length in a header. -/
lemma len_eq (n : ℕ) : L.len n = L.headerLen + n := by rw [len, alignUp_headerLen]

/-- The space is the aligned length. -/
lemma space_eq (n : ℕ) : L.space n = L.headerLen + L.alignUp n := by
  rw [space, alignUp_headerLen, Nat.add_comm]

/-- The space of data is that of their length in the header. -/
lemma alignUp_len (n : ℕ) : L.alignUp (L.len n) = L.space n := by
  rw [len_eq, space_eq, alignUp_add_headerLen]

/-- Data fit into their space. -/
lemma len_le_space (n : ℕ) : L.len n ≤ L.space n := by
  have h := L.le_alignUp n
  rw [len_eq, space_eq]
  omega

/-- More data take more space. -/
lemma space_mono {n m : ℕ} (h : n ≤ m) : L.space n ≤ L.space m := by
  have hdiv : (n + L.align - 1) / L.align ≤ (m + L.align - 1) / L.align :=
    Nat.div_le_div_right (by omega)
  have hmul := Nat.mul_le_mul_right L.align hdiv
  rw [space_eq, space_eq]
  exact Nat.add_le_add_left hmul _

/-! ## The walk over the headers -/

/-- The next header is behind this one and in the buffer. -/
lemma nxtHdr_some {control : List UInt8} {cmsg next : ℕ} (h : L.nxtHdr control cmsg = some next) :
    cmsg + L.headerLen ≤ next ∧ next + L.headerLen ≤ control.length := by
  simp only [nxtHdr] at h
  split_ifs at h with hshort hfit
  have hle := L.le_alignUp (L.readHeader (control.drop cmsg)).1
  simp only [Option.some.injEq] at h
  omega

/-- A walk that is not cut off ends where no header follows.

**Proof sketch.** Induction on the number of steps: each moves on by at least a header. -/
lemma headersFrom_last {control : List UInt8} (n : ℕ) {cmsg : ℕ}
    (hn : control.length < n + cmsg) :
    ∃ last, (L.headersFrom control n (some cmsg)).getLast? = some last ∧
        L.nxtHdr control last = none ∨ n = 0 := by
  induction n generalizing cmsg with
  | zero => exact ⟨0, .inr rfl⟩
  | succ n ih =>
    cases hnext : L.nxtHdr control cmsg with
    | none =>
      refine ⟨cmsg, .inl ⟨?_, hnext⟩⟩
      rw [headersFrom, hnext]
      cases n <;> rfl
    | some next =>
      have hpos := L.header_pos
      obtain ⟨hmove, hin⟩ := L.nxtHdr_some hnext
      obtain ⟨last, ⟨hlast, hend⟩ | hzero⟩ := ih (show control.length < n + next by omega)
      · refine ⟨last, .inl ⟨?_, hend⟩⟩
        rw [headersFrom, hnext, List.getLast?_cons, hlast]
        rfl
      · omega

/-- **The walk over the headers ends by itself**: no header follows the last one visited. -/
theorem headers_complete {control : List UInt8} {last : ℕ}
    (h : (L.headers control).getLast? = some last) : L.nxtHdr control last = none := by
  unfold headers at h
  cases hfirst : L.firstHdr control.length with
  | none =>
    rw [hfirst] at h
    cases h
  | some cmsg =>
    rw [hfirst] at h
    obtain ⟨last', ⟨hlast, hend⟩ | hzero⟩ :=
      L.headersFrom_last (control.length + 1)
        (show control.length < control.length + 1 + cmsg by omega)
    · rw [h, Option.some.injEq] at hlast
      rw [hlast]
      exact hend
    · omega

/-! ## Messages in a buffer -/

/-- A message in a buffer. -/
def block (m : ControlMessage) : List UInt8 :=
  L.header (L.len m.data.length) m.level m.typ ++ m.data ++
    List.replicate (L.alignUp m.data.length - m.data.length) 0

/-- The length in the header of the message has its place there. -/
def Fits (m : ControlMessage) : Prop := L.space m.data.length < 2 ^ 32

variable {L}

/-- A message takes its space. -/
@[simp] lemma length_block (m : ControlMessage) : (L.block m).length = L.space m.data.length := by
  have h := L.le_alignUp m.data.length
  simp only [block, List.length_append, L.length_header, List.length_replicate, L.space_eq]
  omega

/-- Reading the header of a message. -/
lemma readHeader_block {m : ControlMessage} (h : L.Fits m) (post : List UInt8) :
    L.readHeader (L.block m ++ post) = (L.len m.data.length, m.level, m.typ) := by
  have hlen := L.len_le_space m.data.length
  unfold Fits at h
  rw [block, List.append_assoc, List.append_assoc]
  exact L.readHeader_header _ _ _ _ (by omega)

variable (L) in
/-- A header that the macros accept stands at the front. -/
def Starts (post : List UInt8) : Prop :=
  L.headerLen ≤ post.length ∧ L.alignUp (L.readHeader post).1 ≤ post.length

instance (post : List UInt8) : Decidable (L.Starts post) :=
  inferInstanceAs (Decidable (_ ∧ _))

/-- A message has a header at its front. -/
lemma starts_block {m : ControlMessage} (h : L.Fits m) (post : List UInt8) :
    L.Starts (L.block m ++ post) := by
  have hspace := L.space_eq m.data.length
  rw [Starts, readHeader_block h, alignUp_len, List.length_append, length_block]
  omega

/-- Zeroes with room for a header are one. -/
lemma starts_zero {n : ℕ} (h : L.headerLen ≤ n) : L.Starts (List.replicate n 0) := by
  have hsplit : List.replicate n (0 : UInt8) =
      List.replicate L.headerLen 0 ++ List.replicate (n - L.headerLen) 0 := by
    rw [List.replicate_append_replicate, Nat.add_sub_cancel' h]
  refine ⟨by simpa using h, ?_⟩
  rw [hsplit, L.readHeader_zero, alignUp_zero]
  exact Nat.zero_le _

/-- Without any bytes there is no header. -/
lemma not_starts_nil : ¬ L.Starts [] := by
  have hpos := L.header_pos
  rintro ⟨h, -⟩
  simp only [List.length_nil] at h
  omega

/-- **The header behind a message** is at its end, if there is one. -/
lemma nxtHdr_block (pre : List UInt8) {m : ControlMessage} (h : L.Fits m) (post : List UInt8) :
    L.nxtHdr (pre ++ L.block m ++ post) pre.length =
      if L.Starts post then some (pre ++ L.block m).length else none := by
  have hread := readHeader_block h post
  have hend : pre.length + L.space m.data.length = (pre ++ L.block m).length := by simp
  have hshort : ¬ L.len m.data.length < L.headerLen := by
    rw [L.len_eq]
    omega
  rw [nxtHdr]
  simp only [List.append_assoc pre, List.drop_left, hread]
  rw [if_neg hshort, alignUp_len, hend, ← List.append_assoc, List.drop_left,
    List.length_append]
  by_cases hstarts : L.Starts post
  · rw [if_pos hstarts, if_neg]
    obtain ⟨hroom, hfit⟩ := hstarts
    omega
  · rw [if_neg hstarts, if_pos]
    rw [Starts] at hstarts
    omega

variable (L) in
/-- Where the messages of a buffer begin. -/
def offsets : ℕ → List ControlMessage → List ℕ
  | _, [] => []
  | start, m :: ms => start :: offsets (start + L.space m.data.length) ms

/-- **The walk visits message by message**, and goes on behind them.

**Proof sketch.** Induction on the messages: the macros find the one behind another. -/
theorem headersFrom_blocks (pre : List UInt8) (ms : List ControlMessage) (post : List UInt8)
    (h : ∀ m ∈ ms, L.Fits m) (n : ℕ) :
    L.headersFrom (pre ++ ms.flatMap L.block ++ post) (ms.length + n)
        (if L.Starts (ms.flatMap L.block ++ post) then some pre.length else none) =
      L.offsets pre.length ms ++
        L.headersFrom (pre ++ ms.flatMap L.block ++ post) n
          (if L.Starts post then some (pre ++ ms.flatMap L.block).length else none) := by
  induction ms generalizing pre with
  | nil => simp [offsets]
  | cons m ms ih =>
    have hm : L.Fits m := h m List.mem_cons_self
    have hrest := ih (pre ++ L.block m) (fun m hm => h m (List.mem_cons_of_mem _ hm))
    have hstarts : L.Starts ((m :: ms).flatMap L.block ++ post) := by
      rw [List.flatMap_cons, List.append_assoc]
      exact starts_block hm _
    have hlen : pre.length + L.space m.data.length = (pre ++ L.block m).length := by simp
    have hassoc : pre ++ (m :: ms).flatMap L.block ++ post =
        pre ++ L.block m ++ (ms.flatMap L.block ++ post) := by simp
    have hassoc' : pre ++ L.block m ++ ms.flatMap L.block ++ post =
        pre ++ L.block m ++ (ms.flatMap L.block ++ post) := by simp
    rw [hassoc'] at hrest
    rw [if_pos hstarts, hassoc, List.length_cons, Nat.add_right_comm, headersFrom,
      nxtHdr_block pre hm, hrest, offsets, hlen]
    simp

/-- The message at the front of what stands behind others. -/
lemma messageAt_block (pre : List UInt8) {m : ControlMessage} (h : L.Fits m)
    (post : List UInt8) : L.messageAt (pre ++ L.block m ++ post) pre.length = some m := by
  have hread := readHeader_block h post
  have hlen : L.len m.data.length - L.len 0 = m.data.length := by
    rw [L.len_eq, L.len_eq]
    omega
  have hshort : ¬ L.len m.data.length < L.len 0 := by
    rw [L.len_eq, L.len_eq]
    omega
  have hdata : (L.block m ++ post).drop L.headerLen =
      m.data ++ (List.replicate (L.alignUp m.data.length - m.data.length) 0 ++ post) := by
    rw [block, List.append_assoc, List.append_assoc,
      List.drop_left' (L.length_header (L.len m.data.length) m.level m.typ)]
  simp only [messageAt]
  rw [List.append_assoc, ← List.drop_drop, List.drop_left, hread, if_neg hshort, hlen, hdata,
    List.take_left]

/-- The messages at the places where they begin. -/
lemma map_messageAt_offsets (pre : List UInt8) (ms : List ControlMessage) (post : List UInt8)
    (h : ∀ m ∈ ms, L.Fits m) :
    (L.offsets pre.length ms).map (L.messageAt (pre ++ ms.flatMap L.block ++ post)) =
      ms.map some := by
  induction ms generalizing pre with
  | nil => rfl
  | cons m ms ih =>
    have hm : L.Fits m := h m List.mem_cons_self
    have hrest := ih (pre ++ L.block m) (fun m hm => h m (List.mem_cons_of_mem _ hm))
    have hlen : (pre ++ L.block m).length = pre.length + L.space m.data.length := by simp
    have hassoc : pre ++ (m :: ms).flatMap L.block ++ post =
        pre ++ L.block m ++ (ms.flatMap L.block ++ post) := by simp
    have hassoc' : pre ++ L.block m ++ ms.flatMap L.block ++ post =
        pre ++ L.block m ++ (ms.flatMap L.block ++ post) := by simp
    rw [hassoc', hlen] at hrest
    rw [hassoc, offsets, List.map_cons, messageAt_block pre hm, hrest, List.map_cons]

/-- Every message takes a place of its own. -/
lemma length_le_blocks (ms : List ControlMessage) : ms.length ≤ (ms.flatMap L.block).length := by
  induction ms with
  | nil => exact Nat.le_refl _
  | cons m ms ih =>
    have hpos := L.header_pos
    have hspace := L.space_eq m.data.length
    rw [List.flatMap_cons, List.length_append, length_block, List.length_cons]
    omega

/-- **The headers of a buffer of messages**, with what may stand behind them.

**Proof sketch.** A first header is found iff the buffer starts with one. The fuel covers the
messages, since each takes at least one byte; the walk passes their blocks (`headersFrom_blocks`)
and comes to what stands behind them, where `hlast` says that it ends. -/
lemma headers_blocks (ms : List ControlMessage) (post : List UInt8) (h : ∀ m ∈ ms, L.Fits m)
    (hfirst : ms = [] → L.headerLen ≤ post.length → L.Starts post)
    (hlast : L.Starts post → L.nxtHdr (ms.flatMap L.block ++ post)
      (ms.flatMap L.block).length = none) :
    L.headers (ms.flatMap L.block ++ post) =
      L.offsets 0 ms ++ if L.Starts post then [(ms.flatMap L.block).length] else [] := by
  have hstart : L.firstHdr (ms.flatMap L.block ++ post).length =
      if L.Starts (ms.flatMap L.block ++ post) then some 0 else none := by
    by_cases hstarts : L.Starts (ms.flatMap L.block ++ post)
    · rw [if_pos hstarts, firstHdr, if_pos hstarts.1]
    · rw [if_neg hstarts, firstHdr, if_neg]
      intro hroom
      cases ms with
      | nil => exact hstarts (hfirst rfl hroom)
      | cons m ms =>
        rw [List.flatMap_cons, List.append_assoc] at hstarts
        exact hstarts (starts_block (h m List.mem_cons_self) _)
  obtain ⟨n, hn⟩ : ∃ n, (ms.flatMap L.block ++ post).length + 1 = ms.length + (n + 1) := by
    have hlen := length_le_blocks (L := L) ms
    rw [List.length_append]
    exact ⟨(ms.flatMap L.block).length + post.length - ms.length, by omega⟩
  have hwalk := headersFrom_blocks [] ms post h (n + 1)
  simp only [List.nil_append, List.length_nil] at hwalk
  rw [headers, hstart, hn, hwalk]
  by_cases hpost : L.Starts post
  · rw [if_pos hpost, if_pos hpost, headersFrom, hlast hpost]
    cases n <;> rfl
  · rw [if_neg hpost, if_neg hpost]
    rfl

/-- An empty buffer has no header. -/
@[simp] lemma headers_nil : L.headers [] = [] := by
  have hnone : L.firstHdr ([] : List UInt8).length = none := if_neg (Nat.not_le.mpr L.header_pos)
  rw [headers, hnone]
  rfl

/-- **Reading back what stands in a buffer.** -/
theorem messages_blocks (ms : List ControlMessage) (h : ∀ m ∈ ms, L.Fits m) :
    (L.headers (ms.flatMap L.block)).map (L.messageAt (ms.flatMap L.block)) = ms.map some := by
  have hheaders := headers_blocks ms [] h
    (fun _ hroom => absurd (Nat.le_zero.mp hroom) (Nat.ne_of_gt L.header_pos))
    (fun hstarts => absurd hstarts not_starts_nil)
  have hread := map_messageAt_offsets [] ms [] h
  rw [if_neg not_starts_nil, List.append_nil, List.append_nil] at hheaders
  rw [List.append_nil] at hread
  rw [hheaders]
  exact hread

/-- **A message whose padding is cut off** is read all the same.

**Proof sketch.** The cut leaves the header and the data, and a part of the padding. So the header
is read as it was written and the data behind it; and the next header would stand behind the
padding, where the buffer has ended. -/
theorem messages_cut {m : ControlMessage} (h : L.Fits m) {n : ℕ} (hn : L.len m.data.length ≤ n) :
    L.headers ((L.block m).take n) = [0] ∧ L.messageAt ((L.block m).take n) 0 = some m := by
  have hpos := L.header_pos
  have hlen := L.len_eq m.data.length
  have hzero := L.len_eq 0
  have hheader := L.length_header (L.len m.data.length) m.level m.typ
  have hspace := L.len_le_space m.data.length
  -- the header and the data are there
  obtain ⟨pad, hpad⟩ : ∃ pad, (L.block m).take n =
      L.header (L.len m.data.length) m.level m.typ ++ (m.data ++ pad) := by
    refine ⟨(List.replicate (L.alignUp m.data.length - m.data.length) 0).take
      (n - L.len m.data.length), ?_⟩
    rw [block, List.take_append, List.take_of_length_le (by
      rw [List.length_append, hheader]
      omega), List.length_append, hheader, ← hlen, List.append_assoc]
  have hread : L.readHeader ((L.block m).take n) = (L.len m.data.length, m.level, m.typ) := by
    rw [hpad]
    unfold Fits at h
    exact L.readHeader_header _ _ _ _ (by omega)
  have hcut : ((L.block m).take n).length ≤ L.space m.data.length := by
    rw [List.length_take, length_block]
    exact Nat.min_le_right _ _
  have hroom : L.headerLen ≤ ((L.block m).take n).length := by
    rw [hpad, List.length_append, hheader]
    exact Nat.le_add_right _ _
  have hnone : L.nxtHdr ((L.block m).take n) 0 = none := by
    rw [nxtHdr]
    simp only [List.drop_zero, hread, Nat.zero_add]
    rw [if_neg (by omega), alignUp_len, if_pos (.inl (by omega))]
  constructor
  · obtain ⟨k, hk⟩ : ∃ k, ((L.block m).take n).length = k + 1 :=
      ⟨((L.block m).take n).length - 1, by omega⟩
    rw [headers, firstHdr, if_pos hroom, headersFrom, hnone, hk]
    rfl
  · rw [messageAt]
    simp only [List.drop_zero, hread, Nat.zero_add]
    rw [if_neg (by omega), hpad, List.drop_left' hheader,
      show L.len m.data.length - L.len 0 = m.data.length by omega, List.take_left]

/-- **The last header of a buffer with zeroes behind its messages** is where the zeroes begin. -/
theorem headers_zero (ms : List ControlMessage) (h : ∀ m ∈ ms, L.Fits m) {n : ℕ}
    (hn : L.headerLen ≤ n) :
    (L.headers (ms.flatMap L.block ++ List.replicate n 0)).getLast? =
      some (ms.flatMap L.block).length := by
  have hzero : (L.readHeader (List.replicate n 0)).1 = 0 := by
    rw [← Nat.add_sub_cancel' hn, ← List.replicate_append_replicate, L.readHeader_zero]
  have hlast : L.nxtHdr (ms.flatMap L.block ++ List.replicate n 0)
      (ms.flatMap L.block).length = none := by
    rw [nxtHdr, List.drop_left, hzero]
    exact if_pos L.header_pos
  rw [headers_blocks ms _ h (fun _ _ => starts_zero hn) (fun _ => hlast), if_pos (starts_zero hn),
    List.getLast?_concat]

end CmsgLayout
