import AsyncRustbus.Utils

set_option relaxedAutoImplicit false
set_option autoImplicit false

/-!
# The D-Bus wire format

The encodings of the D-Bus specification that message headers are made of, as functions that
append to a buffer (alignment is relative to its start), and readers that work at an offset of
a buffer.  Every reader inverts its writer at any offset, whatever follows in the buffer.

## Main definitions

* `Wire.alignTo`, `Wire.marshalU32`, `Wire.marshalStr`, `Wire.marshalSignature` — the writers.
* `Wire.skipPadding`, `Wire.readU32`, `Wire.readStr`, `Wire.readSignature` — the readers.

## Main results

* `Wire.skipPadding_alignTo`, `Wire.readU32_marshalU32`, `Wire.readStr_marshalStr`,
  `Wire.readSignature_marshalSignature` — reading what was written.
-/

namespace AsyncRustbus

namespace Wire

/-! ## Writers -/

/-- The zero bytes that align an offset. -/
def padding (alignment offset : ℕ) : Bytes := List.replicate (alignNum offset alignment - offset) 0

/-- Pad a buffer with zero bytes. -/
def alignTo (alignment : ℕ) (buf : Bytes) : Bytes := buf ++ padding alignment buf.length

/-- UINT32: aligned to four bytes, in the byte order of the message. -/
def marshalU32 (bo : ByteOrder) (n : UInt32) (buf : Bytes) : Bytes :=
  alignTo 4 buf ++ u32ToBytes bo n

/-- STRING and OBJECT_PATH: the length in bytes as a UINT32, the UTF-8 text, a zero byte. -/
def marshalStr (bo : ByteOrder) (s : Str) (buf : Bytes) : Bytes :=
  marshalU32 bo (UInt32.ofNat (toUtf8 s).length) buf ++ (toUtf8 s ++ [0])

/-- SIGNATURE: the length in one byte, the text, a zero byte. -/
def marshalSignature (s : Str) (buf : Bytes) : Bytes :=
  buf ++ (UInt8.ofNat (toUtf8 s).length :: (toUtf8 s ++ [0]))

/-- The length of a padded buffer is the aligned length. -/
@[simp] lemma length_alignTo (alignment : ℕ) (buf : Bytes) :
    (alignTo alignment buf).length = alignNum buf.length alignment := by
  have := le_alignNum buf.length alignment
  simp only [alignTo, padding, List.length_append, List.length_replicate]
  omega

/-! ## Readers -/

/-- The offset behind the padding at `offset`, if the padding is there and is zero. -/
def skipPadding (alignment : ℕ) (buf : Bytes) (offset : ℕ) : Option ℕ :=
  if (buf.drop offset).take (alignNum offset alignment - offset) = padding alignment offset then
    some (alignNum offset alignment)
  else none

/-- Read `n` bytes: the bytes and the offset behind them. -/
def readBytes (n : ℕ) (buf : Bytes) (offset : ℕ) : Option (Bytes × ℕ) :=
  if offset + n ≤ buf.length then some ((buf.drop offset).take n, offset + n) else none

/-- Read a UINT32. -/
def readU32 (bo : ByteOrder) (buf : Bytes) (offset : ℕ) : Option (UInt32 × ℕ) := do
  let offset ← skipPadding 4 buf offset
  let (bytes, offset) ← readBytes 4 buf offset
  return (parseU32 bytes bo, offset)

/-- Read `n` bytes of UTF-8 text and a zero byte. -/
def readText (n : ℕ) (buf : Bytes) (offset : ℕ) : Option (Str × ℕ) := do
  let (bytes, offset) ← readBytes n buf offset
  let (nul, offset) ← readBytes 1 buf offset
  if nul = [0] then
    let s ← fromUtf8 bytes
    return (s, offset)
  else none

/-- Read a STRING. -/
def readStr (bo : ByteOrder) (buf : Bytes) (offset : ℕ) : Option (Str × ℕ) := do
  let (n, offset) ← readU32 bo buf offset
  readText n.toNat buf offset

/-- Read a SIGNATURE. -/
def readSignature (buf : Bytes) (offset : ℕ) : Option (Str × ℕ) := do
  let (len, offset) ← readBytes 1 buf offset
  readText (len.headD 0).toNat buf offset

/-! ## Reading what was written -/

/-- Reading the bytes behind a prefix. -/
lemma readBytes_append (pre b post : Bytes) :
    readBytes b.length (pre ++ (b ++ post)) pre.length = some (b, pre.length + b.length) := by
  have h : pre.length + b.length ≤ (pre ++ (b ++ post)).length := by
    simp only [List.length_append]
    omega
  rw [readBytes, if_pos h, List.drop_left, List.take_left]

/-- The reader skips the padding the writer put there. -/
theorem skipPadding_alignTo (alignment : ℕ) (pre post : Bytes) :
    skipPadding alignment (alignTo alignment pre ++ post) pre.length =
      some (alignTo alignment pre).length := by
  have hle := le_alignNum pre.length alignment
  have hpad : (padding alignment pre.length).length =
      alignNum pre.length alignment - pre.length := by simp [padding]
  rw [skipPadding, if_pos, length_alignTo]
  rw [alignTo, List.append_assoc, List.drop_left, ← hpad, List.take_left]

/-- A UINT32 is read back. -/
theorem readU32_marshalU32 (bo : ByteOrder) (n : UInt32) (pre post : Bytes) :
    readU32 bo (marshalU32 bo n pre ++ post) pre.length =
      some (n, (marshalU32 bo n pre).length) := by
  have hbytes := readBytes_append (alignTo 4 pre) (u32ToBytes bo n) post
  rw [length_u32ToBytes] at hbytes
  rw [readU32, marshalU32, List.append_assoc, skipPadding_alignTo]
  simp only [Option.bind_eq_bind, Option.bind_some, hbytes, parseU32_u32ToBytes, Option.pure_def,
    List.length_append, length_u32ToBytes]

/-- A text with its zero byte is read back. -/
lemma readText_append (s : Str) (pre post : Bytes) :
    readText (toUtf8 s).length (pre ++ (toUtf8 s ++ [0] ++ post)) pre.length =
      some (s, (pre ++ (toUtf8 s ++ [0])).length) := by
  have h1 := readBytes_append pre (toUtf8 s) ([0] ++ post)
  have h2 := readBytes_append (pre ++ toUtf8 s) [0] post
  simp only [List.length_append, List.append_assoc, List.length_singleton] at h1 h2
  rw [readText, List.append_assoc, h1]
  simp only [Option.bind_eq_bind, Option.bind_some, h2]
  simp [Nat.add_assoc]

/-- A STRING of less than `2 ^ 32` bytes is read back. -/
theorem readStr_marshalStr (bo : ByteOrder) (s : Str) (pre post : Bytes)
    (h : (toUtf8 s).length < 2 ^ 32) :
    readStr bo (marshalStr bo s pre ++ post) pre.length =
      some (s, (marshalStr bo s pre).length) := by
  have hlen : (UInt32.ofNat (toUtf8 s).length).toNat = (toUtf8 s).length := by
    rw [UInt32.toNat_ofNat']
    exact Nat.mod_eq_of_lt h
  have hu32 := readU32_marshalU32 bo (UInt32.ofNat (toUtf8 s).length) pre
    (toUtf8 s ++ [0] ++ post)
  have htext := readText_append s (marshalU32 bo (UInt32.ofNat (toUtf8 s).length) pre) post
  rw [readStr, marshalStr, List.append_assoc, hu32]
  simp only [Option.bind_eq_bind, Option.bind_some, hlen]
  exact htext

/-- A SIGNATURE of less than `2 ^ 8` bytes is read back. -/
theorem readSignature_marshalSignature (s : Str) (pre post : Bytes)
    (h : (toUtf8 s).length < 2 ^ 8) :
    readSignature (marshalSignature s pre ++ post) pre.length =
      some (s, (marshalSignature s pre).length) := by
  have hlen : (UInt8.ofNat (toUtf8 s).length).toNat = (toUtf8 s).length := by
    rw [UInt8.toNat_ofNat']
    exact Nat.mod_eq_of_lt h
  have hbyte := readBytes_append pre [UInt8.ofNat (toUtf8 s).length] (toUtf8 s ++ [0] ++ post)
  have htext := readText_append s (pre ++ [UInt8.ofNat (toUtf8 s).length]) post
  have hshape : marshalSignature s pre ++ post =
      pre ++ ([UInt8.ofNat (toUtf8 s).length] ++ (toUtf8 s ++ [0] ++ post)) := by
    simp [marshalSignature]
  have hshape' : pre ++ ([UInt8.ofNat (toUtf8 s).length] ++ (toUtf8 s ++ [0] ++ post)) =
      pre ++ [UInt8.ofNat (toUtf8 s).length] ++ (toUtf8 s ++ [0] ++ post) := by simp
  rw [hshape, readSignature]
  rw [List.length_singleton] at hbyte
  rw [hbyte]
  simp only [Option.bind_eq_bind, Option.bind_some, List.headD_cons, hlen]
  rw [hshape']
  rw [List.length_append, List.length_singleton] at htext
  rw [htext]
  simp [marshalSignature, Nat.add_comm]

end Wire

end AsyncRustbus
