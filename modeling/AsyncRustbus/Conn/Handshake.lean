import AsyncRustbus.Utils

set_option relaxedAutoImplicit false
set_option autoImplicit false

/-!
# The lines of the handshake (`starts_with`)

Before messages are exchanged the two sides exchange lines.  `starts_with` reads from the stream
into a buffer of 512 bytes until the line has ended, and looks for an expected prefix of the
line.  A stream that has ended gives reads of zero bytes, which the loop does not tell from
others.

## Main definitions

* `AsyncRustbus.ByteStream` — what the reads of a stream return.
* `AsyncRustbus.findLineEnding`, `AsyncRustbus.startsWithStep`, `AsyncRustbus.startsWith` — the
  code.
* `AsyncRustbus.ReadsLine` — the call returns, and for the line that was sent.
* `AsyncRustbus.LineEnds` — the line ends, or is too long, within 512 bytes.

## Main results

* `AsyncRustbus.startsWith_eq` — the result depends on the data only, not on the reads.
* `AsyncRustbus.readsLine_iff` — the call returns exactly when the line ends.
-/

namespace AsyncRustbus

/-! ## The stream -/

/-- What the reads of a stream return: some bytes for each chunk, which a read with less room
takes in several parts, and no bytes when the chunks are used up. -/
structure ByteStream where
  chunks : List Bytes
  nonempty : ∀ c ∈ chunks, c ≠ []

namespace ByteStream

/-- The bytes that are still to be read. -/
def data (s : ByteStream) : Bytes := s.chunks.flatten

/-- A read into a buffer of `room` bytes. -/
def read (s : ByteStream) (room : ℕ) : Bytes × ByteStream :=
  match s with
  | ⟨[], h⟩ => ([], ⟨[], h⟩)
  | ⟨c :: cs, h⟩ =>
    if hroom : room < c.length then
      (c.take room, ⟨c.drop room :: cs, by
        rw [List.forall_mem_cons] at h ⊢
        exact ⟨by simpa using hroom, h.2⟩⟩)
    else (c, ⟨cs, (List.forall_mem_cons.mp h).2⟩)

/-- A read takes bytes from the front of the data. -/
lemma read_append (s : ByteStream) (room : ℕ) :
    (s.read room).1 ++ (s.read room).2.data = s.data := by
  obtain ⟨_ | ⟨c, cs⟩, h⟩ := s
  · rfl
  · rw [read]
    split_ifs
    · simp [data, ← List.append_assoc]
    · simp [data]

/-- A read stays within its buffer. -/
lemma length_read_le (s : ByteStream) (room : ℕ) : (s.read room).1.length ≤ room := by
  obtain ⟨_ | ⟨c, cs⟩, h⟩ := s
  · exact Nat.zero_le room
  · rw [read]
    split_ifs with hroom
    · exact List.length_take_le room c
    · exact Nat.le_of_not_lt hroom

/-- A read returns bytes while there are some. -/
lemma read_ne_nil {s : ByteStream} {room : ℕ} (hroom : 0 < room) (h : s.data ≠ []) :
    (s.read room).1 ≠ [] := by
  obtain ⟨_ | ⟨c, cs⟩, hne⟩ := s
  · exact absurd rfl h
  · have hc := (List.forall_mem_cons.mp hne).1
    rw [read]
    split_ifs
    · simpa [hc] using Nat.ne_of_gt hroom
    · exact hc

end ByteStream

/-! ## The code -/

/-- `DBUS_LINE_END`. -/
def dbusLineEnd : Bytes := [13, 10]

/-- `find_line_ending`: the position of the first window of two bytes that is a line ending. -/
def findLineEnding : Bytes → Option ℕ
  | a :: b :: rest =>
    if [a, b] = dbusLineEnd then some 0 else (findLineEnding (b :: rest)).map (· + 1)
  | _ => none

/-- The variables of the loop of `starts_with`: `read_buf[..pos]` and the stream. -/
structure LineRead where
  readBuf : Bytes
  stream : ByteStream

/-- The length of `read_buf`. -/
def lineCapacity : ℕ := 512

/-- The loop body of `starts_with`: the result when it returns, the variables when it goes on. -/
def startsWithStep (buf : Bytes) (s : LineRead) : Option Bytes ⊕ LineRead :=
  match findLineEnding s.readBuf with
  | some loc =>
    if buf.length > loc then .inl none
    else if s.readBuf.take buf.length = buf then .inl (some ((s.readBuf.take loc).drop buf.length))
    else .inl none
  | none =>
    if s.readBuf.length = lineCapacity then .inl none
    else
      let read := s.stream.read (lineCapacity - s.readBuf.length)
      .inr ⟨s.readBuf ++ read.1, read.2⟩

/-- The loop of `starts_with`, with fuel for its iterations: `none` when it is still running. -/
def startsWithLoop (buf : Bytes) : ℕ → LineRead → Option (Option Bytes)
  | 0, _ => none
  | fuel + 1, s =>
    match startsWithStep buf s with
    | .inl result => some result
    | .inr s => startsWithLoop buf fuel s

/-- `starts_with`, which has a debug assertion on the length of the prefix. -/
def startsWith (debugAssertions : Bool) (buf : Bytes) (fuel : ℕ) (stream : ByteStream) :
    Option (Res Unit (Option Bytes)) :=
  if debugAssertions ∧ ¬ buf.length ≤ 510 then some .panic
  else (startsWithLoop buf fuel ⟨[], stream⟩).map .ok

/-! ## Line endings -/

/-- A line ending stays where it is when more is read. -/
lemma findLineEnding_append {a : Bytes} {loc : ℕ} (h : findLineEnding a = some loc) (b : Bytes) :
    findLineEnding (a ++ b) = some loc := by
  fun_induction findLineEnding a generalizing loc with
  | case1 x y rest hend =>
    rw [List.cons_append, List.cons_append, findLineEnding, if_pos hend]
    exact h
  | case2 x y rest hend ih =>
    obtain ⟨loc', hloc, rfl⟩ := Option.map_eq_some_iff.mp h
    have hlater := ih hloc
    rw [List.cons_append] at hlater
    rw [List.cons_append, List.cons_append, findLineEnding, if_neg hend, hlater]
    rfl
  | case3 a hshort => cases h

/-- A line ending is found within the bytes. -/
lemma findLineEnding_le {a : Bytes} {loc : ℕ} (h : findLineEnding a = some loc) :
    loc + 2 ≤ a.length := by
  fun_induction findLineEnding a generalizing loc with
  | case1 x y rest hend =>
    cases h
    simp
  | case2 x y rest hend ih =>
    obtain ⟨loc', hloc, rfl⟩ := Option.map_eq_some_iff.mp h
    have := ih hloc
    simp only [List.length_cons] at this ⊢
    omega
  | case3 a hshort => cases h

/-- No line ending is found where none is. -/
lemma findLineEnding_eq_none_iff (a : Bytes) :
    findLineEnding a = none ↔ ¬ dbusLineEnd <:+: a := by
  fun_induction findLineEnding a with
  | case1 x y rest hend =>
    simp only [reduceCtorEq, false_iff, not_not]
    exact ⟨[], rest, by rw [← hend]; rfl⟩
  | case2 x y rest hend ih =>
    have hhead : ¬ dbusLineEnd <+: x :: y :: rest := by
      rintro ⟨post, hpost⟩
      simp only [dbusLineEnd, List.cons_append, List.nil_append, List.cons.injEq] at hpost
      exact hend (by rw [dbusLineEnd, ← hpost.1, ← hpost.2.1])
    have hcons : dbusLineEnd <:+: x :: y :: rest ↔
        dbusLineEnd <+: x :: y :: rest ∨ dbusLineEnd <:+: y :: rest := List.infix_cons_iff
    rw [Option.map_eq_none_iff, ih, hcons, or_iff_right hhead]
  | case3 a hshort =>
    simp only [true_iff]
    intro hcontains
    have hlen := hcontains.length_le
    rcases a with _ | ⟨x, _ | ⟨y, rest⟩⟩
    · exact absurd hlen (by decide)
    · exact absurd hlen (by simp [dbusLineEnd])
    · exact hshort x y rest rfl

/-- The ending of a line without another one is found at its end. -/
lemma findLineEnding_line {line : Bytes} (h : ¬ dbusLineEnd <:+: line) :
    findLineEnding (line ++ dbusLineEnd) = some line.length := by
  induction line with
  | nil => rfl
  | cons x line ih =>
    have htail := ih fun hcontains => h (hcontains.trans (List.suffix_cons x line).isInfix)
    have hhead : ∀ y rest, line ++ dbusLineEnd = y :: rest → [x, y] ≠ dbusLineEnd := by
      intro y rest hsplit hend
      cases line with
      | nil =>
        cases hsplit
        simp [dbusLineEnd] at hend
      | cons z line =>
        cases hsplit
        exact h ⟨[], line, by rw [← hend]; rfl⟩
    cases hsplit : line ++ dbusLineEnd with
    | nil => simp [dbusLineEnd] at hsplit
    | cons y rest =>
      rw [hsplit] at htail
      rw [List.cons_append, hsplit, findLineEnding, if_neg (hhead y rest hsplit), htail]
      rfl

/-! ## The loop -/

/-- The line ends within the first 512 bytes of the data, or there are that many bytes. -/
def LineEnds (data : Bytes) : Prop :=
  (∃ pre post, data = pre ++ dbusLineEnd ++ post ∧ pre.length + 2 ≤ lineCapacity) ∨
    lineCapacity ≤ data.length

/-- What `starts_with` returns for the bytes that fill its buffer. -/
def lineResult (buf head : Bytes) : Option Bytes :=
  match findLineEnding head with
  | some loc =>
    if buf.length > loc then none
    else if head.take buf.length = buf then some ((head.take loc).drop buf.length)
    else none
  | none => none

/-- What the loop has read is the beginning of the data, at most 512 bytes of it. -/
structure LineRead.Of (data : Bytes) (s : LineRead) : Prop where
  split : s.readBuf ++ s.stream.data = data
  le : s.readBuf.length ≤ lineCapacity

variable {buf data : Bytes} {s s' : LineRead}

/-- The buffer is the beginning of the data that fits. -/
lemma LineRead.Of.head (h : s.Of data) :
    ∃ more, data.take lineCapacity = s.readBuf ++ more := by
  refine ⟨s.stream.data.take (lineCapacity - s.readBuf.length), ?_⟩
  rw [← h.split, List.take_append, List.take_of_length_le h.le]

/-- **Where the loop returns**, the result is that for the whole of the data.

**Proof sketch.** The buffer is a first part of the data. If it holds a line end, that is the first
one of the data too (`findLineEnding_append`), and the line in front of it is the same. If it holds
none and the loop returns, the buffer is full, and then it is all of the data that counts. -/
lemma LineRead.Of.result (h : s.Of data) {r : Option Bytes}
    (hstep : startsWithStep buf s = .inl r) : r = lineResult buf (data.take lineCapacity) := by
  obtain ⟨more, hmore⟩ := h.head
  rw [hmore, lineResult]
  unfold startsWithStep at hstep
  cases hloc : findLineEnding s.readBuf with
  | some loc =>
    have hle := findLineEnding_le hloc
    simp only [hloc] at hstep
    rw [findLineEnding_append hloc]
    dsimp only
    split_ifs at hstep with hlong hstart
    · rw [if_pos hlong]
      exact (Sum.inl.inj hstep).symm
    · rw [if_neg hlong, List.take_append_of_le_length (by omega), if_pos hstart,
        List.take_append_of_le_length (by omega)]
      exact (Sum.inl.inj hstep).symm
    · rw [if_neg hlong, List.take_append_of_le_length (by omega), if_neg hstart]
      exact (Sum.inl.inj hstep).symm
  | none =>
    simp only [hloc] at hstep
    split_ifs at hstep with hfull
    -- The buffer is full, so that nothing else fits.
    have hlen := congrArg List.length hmore
    rw [List.length_take, List.length_append, hfull] at hlen
    have hnil : more = [] := List.eq_nil_of_length_eq_zero (by omega)
    rw [hnil, List.append_nil, hloc]
    exact (Sum.inl.inj hstep).symm

/-- The loop returns only on a line that ends. -/
lemma LineRead.Of.lineEnds (h : s.Of data) {r : Option Bytes}
    (hstep : startsWithStep buf s = .inl r) : LineEnds data := by
  cases hloc : findLineEnding s.readBuf with
  | some loc =>
    have hcontains : dbusLineEnd <:+: s.readBuf := by
      by_contra hnot
      rw [(findLineEnding_eq_none_iff s.readBuf).mpr hnot] at hloc
      cases hloc
    obtain ⟨pre, post, hsplit⟩ := hcontains
    have hlen := congrArg List.length hsplit
    have hle := h.le
    simp only [List.length_append, dbusLineEnd, List.length_cons, List.length_nil] at hlen
    refine .inl ⟨pre, post ++ s.stream.data, ?_, by omega⟩
    rw [← h.split, ← hsplit]
    simp only [List.append_assoc]
  | none =>
    right
    unfold startsWithStep at hstep
    simp only [hloc] at hstep
    split_ifs at hstep with hfull
    rw [← h.split, List.length_append, hfull]
    exact Nat.le_add_right _ _

/-- **Where the loop goes on**, the buffer holds no line ending and is not full, and it has taken
what the read returned. -/
lemma LineRead.Of.next (h : s.Of data) (hstep : startsWithStep buf s = .inr s') :
    s'.Of data ∧ findLineEnding s.readBuf = none ∧ s.readBuf.length < lineCapacity ∧
      s'.readBuf = s.readBuf ++ (s.stream.read (lineCapacity - s.readBuf.length)).1 := by
  unfold startsWithStep at hstep
  split at hstep
  · split_ifs at hstep
  · rename_i hnone
    split_ifs at hstep with hfull
    have hlt : s.readBuf.length < lineCapacity := Nat.lt_of_le_of_ne h.le hfull
    obtain rfl := (Sum.inr.inj hstep).symm
    refine ⟨⟨?_, ?_⟩, hnone, hlt, rfl⟩
    · rw [List.append_assoc, ByteStream.read_append, h.split]
    · have hread := s.stream.length_read_le (lineCapacity - s.readBuf.length)
      rw [List.length_append]
      omega

/-- **Progress**: while a line that ends has not ended yet, a read returns something. -/
lemma LineRead.Of.lt (h : s.Of data) (hends : LineEnds data)
    (hstep : startsWithStep buf s = .inr s') : s.readBuf.length < s'.readBuf.length := by
  obtain ⟨-, hnone, hlt, hread⟩ := h.next hstep
  have hmore : s.stream.data ≠ [] := by
    intro hnil
    have hall := h.split
    rw [hnil, List.append_nil] at hall
    rcases hends with ⟨pre, post, hdata, -⟩ | hlong
    · rw [hall] at hnone
      exact (findLineEnding_eq_none_iff data).mp hnone ⟨pre, post, hdata.symm⟩
    · rw [hall] at hlt
      omega
  have hpos := List.length_pos_iff.mpr
    (ByteStream.read_ne_nil (Nat.sub_pos_of_lt hlt) hmore)
  rw [hread, List.length_append]
  omega

/-- The loop returns within as many iterations as bytes fit. -/
lemma LineRead.Of.returns (h : s.Of data) (hends : LineEnds data) (fuel : ℕ)
    (hfuel : lineCapacity < s.readBuf.length + fuel) :
    startsWithLoop buf fuel s = some (lineResult buf (data.take lineCapacity)) := by
  induction fuel generalizing s with
  | zero =>
    have := h.le
    omega
  | succ fuel ih =>
    rw [startsWithLoop]
    cases hstep : startsWithStep buf s with
    | inl r => exact congrArg some (h.result hstep)
    | inr s' =>
      have hlt := h.lt hends hstep
      exact ih (h.next hstep).1 (by omega)

/-- Whenever the loop returns, the result is that for the whole of the data. -/
lemma LineRead.Of.loop_eq (h : s.Of data) {fuel : ℕ} {r : Option Bytes}
    (hloop : startsWithLoop buf fuel s = some r) :
    r = lineResult buf (data.take lineCapacity) := by
  induction fuel generalizing s with
  | zero => cases hloop
  | succ fuel ih =>
    rw [startsWithLoop] at hloop
    cases hstep : startsWithStep buf s with
    | inl r' =>
      rw [hstep] at hloop
      rw [← Option.some.inj hloop]
      exact h.result hstep
    | inr s' =>
      rw [hstep] at hloop
      exact ih (h.next hstep).1 hloop

/-- **The loop never returns** on a stream that ends before the line does. -/
lemma LineRead.Of.loop_eq_none (h : s.Of data) (hends : ¬ LineEnds data) (fuel : ℕ) :
    startsWithLoop buf fuel s = none := by
  induction fuel generalizing s with
  | zero => rfl
  | succ fuel ih =>
    rw [startsWithLoop]
    cases hstep : startsWithStep buf s with
    | inl r => exact absurd (h.lineEnds hstep) hends
    | inr s' => exact ih (h.next hstep).1

/-! ## `starts_with` -/

/-- The variables that the loop of `starts_with` comes to. -/
inductive LineRun (buf : Bytes) (stream : ByteStream) : LineRead → Prop
  | start : LineRun buf stream ⟨[], stream⟩
  | next {s s' : LineRead} (h : LineRun buf stream s) (hstep : startsWithStep buf s = .inr s') :
      LineRun buf stream s'

/-- The loop starts at the front of the data. -/
lemma LineRead.of_start (stream : ByteStream) : LineRead.Of stream.data ⟨[], stream⟩ :=
  ⟨rfl, Nat.zero_le _⟩

/-- What the loop has read is always the beginning of the data. -/
lemma LineRun.of {stream : ByteStream} (h : LineRun buf stream s) : s.Of stream.data := by
  induction h with
  | start => exact LineRead.of_start stream
  | next _ hstep ih => exact (ih.next hstep).1

/-- **`starts_with` reads its line**: it returns after finitely many reads, every iteration that
does not return reads something into the 512 bytes, and for a line that was sent alone, ends
within 512 bytes and has no other line ending, it returns what follows the prefix if and only if
the line starts with the prefix. -/
structure ReadsLine (buf : Bytes) (stream : ByteStream) : Prop where
  returns : ∀ debugAssertions, ∃ fuel result,
    startsWith debugAssertions buf fuel stream = some (.ok result)
  progress : ∀ s, LineRun buf stream s → s.readBuf.length ≤ 512 ∧
    ∀ s', startsWithStep buf s = .inr s' → s.readBuf.length < s'.readBuf.length
  line : ∀ line, stream.data = line ++ dbusLineEnd → ¬ dbusLineEnd <:+: line →
    stream.data.length ≤ 512 → ∀ debugAssertions fuel result,
      startsWith debugAssertions buf fuel stream = some (.ok result) →
      ∀ rest, result = some rest ↔ line = buf ++ rest

/-- The result for a line that fits. -/
lemma lineResult_line {line : Bytes} (h : ¬ dbusLineEnd <:+: line) (rest : Bytes) :
    lineResult buf (line ++ dbusLineEnd) = some rest ↔ line = buf ++ rest := by
  rw [lineResult, findLineEnding_line h]
  dsimp only
  constructor
  · intro hresult
    split_ifs at hresult with hlong hstart
    rw [List.take_append_of_le_length (Nat.le_of_not_lt hlong)] at hstart
    rw [List.take_left] at hresult
    have hsplit := List.take_append_drop buf.length line
    rw [hstart, Option.some.inj hresult] at hsplit
    exact hsplit.symm
  · rintro rfl
    rw [if_neg (by simp), if_pos (by simp), List.take_left, List.drop_left]

/-- **The result depends on the data only**: where the line ends, `starts_with` returns the same
for all ways in which the data can be read. -/
theorem startsWith_eq (debugAssertions : Bool) (hbuf : buf.length ≤ 510) {stream : ByteStream}
    (hends : LineEnds stream.data) (fuel : ℕ) (hfuel : 512 < fuel) :
    startsWith debugAssertions buf fuel stream =
      some (.ok (lineResult buf (stream.data.take 512))) := by
  have hloop : startsWithLoop buf fuel ⟨[], stream⟩ =
      some (lineResult buf (stream.data.take lineCapacity)) :=
    (LineRead.of_start stream).returns hends fuel (by simpa [lineCapacity] using hfuel)
  rw [startsWith, if_neg (fun h => h.2 hbuf), hloop]
  rfl

/-- **Exactly when `starts_with` reads its line**: when the line ends, or is too long, within the
first 512 bytes.  On a stream that ends earlier the loop goes on for ever.

**Proof sketch.** The bytes read and those still to be read are the data.  While the line has not
ended and the buffer is not full, bytes are left, and a read takes some.  A stream that has ended
gives reads that change nothing. -/
theorem readsLine_iff (hbuf : buf.length ≤ 510) (stream : ByteStream) :
    ReadsLine buf stream ↔ LineEnds stream.data := by
  constructor
  · intro h
    by_contra hends
    obtain ⟨fuel, result, hreturns⟩ := h.returns true
    rw [startsWith, if_neg (fun hdebug => hdebug.2 hbuf),
      (LineRead.of_start stream).loop_eq_none hends fuel] at hreturns
    cases hreturns
  · intro hends
    refine ⟨?_, ?_, ?_⟩
    · intro debugAssertions
      exact ⟨513, _, startsWith_eq debugAssertions hbuf hends 513 (by decide)⟩
    · intro s hrun
      exact ⟨hrun.of.le, fun s' hstep => hrun.of.lt hends hstep⟩
    · intro line hdata hline hlen debugAssertions fuel result hresult rest
      rw [startsWith, if_neg (fun hdebug => hdebug.2 hbuf), Option.map_eq_some_iff] at hresult
      obtain ⟨r, hloop, hr⟩ := hresult
      have hhead : stream.data.take lineCapacity = line ++ dbusLineEnd := by
        rw [← hdata]
        exact List.take_of_length_le hlen
      rw [← Res.ok.inj hr, (LineRead.of_start stream).loop_eq hloop, hhead]
      exact lineResult_line hline rest

/-- `starts_with` reads `OK` and a line ending that are sent in two parts. -/
theorem readsLine_ok : ReadsLine [79, 75] ⟨[[79, 75, 13], [10]], by decide⟩ :=
  (readsLine_iff (by decide) _).mpr (.inl ⟨[79, 75], [], by decide, by decide⟩)

/-- `starts_with` does not return when the stream ends at once. -/
theorem not_readsLine : ¬ ∀ buf stream, buf.length ≤ 510 → ReadsLine buf stream := by
  intro h
  have hends : ¬ LineEnds [] := by
    rintro (⟨pre, post, hdata, -⟩ | hlong)
    · simp [dbusLineEnd] at hdata
    · exact absurd hlong (by decide)
  obtain ⟨fuel, result, hreturns⟩ := (h [79, 75] ⟨[], by simp⟩ (by decide)).returns true
  have hloop : startsWithLoop [79, 75] fuel ⟨[], ⟨[], by simp⟩⟩ = none :=
    (LineRead.of_start ⟨[], by simp⟩).loop_eq_none hends fuel
  rw [startsWith, if_neg (by decide), hloop] at hreturns
  cases hreturns

end AsyncRustbus
