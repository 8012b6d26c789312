import Mathlib.Algebra.Group.Nat.Defs
import Mathlib.Data.Nat.Basic
import Mathlib.Data.List.Basic
import Mathlib.Tactic.Common

set_option relaxedAutoImplicit false
set_option autoImplicit false

/-!
# Bytes, texts and `utils.rs`

The machine-level vocabulary of the development.  A Rust `Vec<u8>` or `&[u8]` is a list of
`UInt8`, a Rust `str` is the list of its Unicode scalar values (`Char` in both languages), a
`u32` is a `UInt32`, and a `usize` is a natural number: the code runs on 64-bit targets and
every length it adds up is far below `2 ^ 64`.

## Main definitions

* `AsyncRustbus.Res` — the outcome of a Rust call: a value, an error or a panic.
* `AsyncRustbus.ByteOrder` — the two byte orders of the wire.
* `AsyncRustbus.u32ToBytes`, `AsyncRustbus.parseU32` — a `u32` on the wire.
* `AsyncRustbus.alignNum` — `align_num`, the next multiple of an alignment.
* `AsyncRustbus.NonZeroU32` — `std::num::NonZeroU32`.
* `AsyncRustbus.toUtf8`, `AsyncRustbus.fromUtf8` — texts as UTF-8.

## Main results

* `AsyncRustbus.parseU32_u32ToBytes` — `parse_u32` inverts the encoding in both byte orders.
* `AsyncRustbus.alignNum_spec` — `align_num` is the least multiple not below its argument.
* `AsyncRustbus.fromUtf8_toUtf8` — decoding the UTF-8 bytes of a text gives the text back.
-/

namespace AsyncRustbus

/-- A byte string. -/
abbrev Bytes := List UInt8

/-- A Rust `str`: the list of its Unicode scalar values. -/
abbrev Str := List Char

/-- The outcome of a Rust call. -/
inductive Res (ε α : Type)
  | ok (a : α)
  | err (e : ε)
  | panic
  deriving DecidableEq

/-- `rustbus::ByteOrder`. -/
inductive ByteOrder
  | littleEndian
  | bigEndian
  deriving DecidableEq, Repr

/-! ## Numbers on the wire -/

/-- The four bytes of `n`, least significant first. -/
def u32ToLeBytes (n : UInt32) : Bytes :=
  [UInt8.ofNat n.toNat, UInt8.ofNat (n.toNat / 256), UInt8.ofNat (n.toNat / 65536),
    UInt8.ofNat (n.toNat / 16777216)]

/-- The four bytes of `n` in the byte order `bo`. -/
def u32ToBytes (bo : ByteOrder) (n : UInt32) : Bytes :=
  match bo with
  | .littleEndian => u32ToLeBytes n
  | .bigEndian => (u32ToLeBytes n).reverse

/-- `u32::from_le_bytes`. -/
def u32FromLeBytes (b₀ b₁ b₂ b₃ : UInt8) : UInt32 :=
  UInt32.ofNat (b₀.toNat + 256 * b₁.toNat + 65536 * b₂.toNat + 16777216 * b₃.toNat)

/-- `parse_u32`.  The source converts the slice to `[u8; 4]` with `unwrap`; every caller
passes a slice of exactly four bytes, so the last branch is never taken. -/
def parseU32 (number : Bytes) (bo : ByteOrder) : UInt32 :=
  match number, bo with
  | [b₀, b₁, b₂, b₃], .littleEndian => u32FromLeBytes b₀ b₁ b₂ b₃
  | [b₀, b₁, b₂, b₃], .bigEndian => u32FromLeBytes b₃ b₂ b₁ b₀
  | _, _ => 0

/-- A `u32` occupies four bytes. -/
@[simp] lemma length_u32ToBytes (bo : ByteOrder) (n : UInt32) :
    (u32ToBytes bo n).length = 4 := by
  cases bo <;> rfl

/-- The little-endian bytes of `n` assemble to `n`. -/
private lemma u32FromLeBytes_split (n : UInt32) :
    u32FromLeBytes (UInt8.ofNat n.toNat) (UInt8.ofNat (n.toNat / 256))
      (UInt8.ofNat (n.toNat / 65536)) (UInt8.ofNat (n.toNat / 16777216)) = n := by
  apply UInt32.toNat_inj.mp
  have hn := n.toNat_lt
  simp only [u32FromLeBytes, UInt32.toNat_ofNat', UInt8.toNat_ofNat']
  omega

/-- `parse_u32` inverts the encoding of a `u32`, in both byte orders. -/
@[simp] theorem parseU32_u32ToBytes (bo : ByteOrder) (n : UInt32) :
    parseU32 (u32ToBytes bo n) bo = n := by
  cases bo
  · exact u32FromLeBytes_split n
  · exact u32FromLeBytes_split n

/-! ## Alignment -/

/-- `align_num`. -/
def alignNum (num alignment : ℕ) : ℕ :=
  (alignment - num % alignment) % alignment + num

/-- `align_num` never decreases its argument. -/
lemma le_alignNum (num alignment : ℕ) : num ≤ alignNum num alignment :=
  Nat.le_add_left _ _

/-- `align_num num 8` is the multiple of `8` in `[num, num + 8)`. -/
theorem alignNum_spec (num : ℕ) :
    num ≤ alignNum num 8 ∧ alignNum num 8 < num + 8 ∧ alignNum num 8 % 8 = 0 := by
  unfold alignNum
  omega

/-- Aligning an aligned number changes nothing. -/
lemma alignNum_eq_self {num : ℕ} (h : num % 8 = 0) : alignNum num 8 = num := by
  unfold alignNum
  omega

/-- Aligning to `8` twice is aligning once. -/
lemma alignNum_alignNum (num : ℕ) : alignNum (alignNum num 8) 8 = alignNum num 8 :=
  alignNum_eq_self (alignNum_spec num).2.2

/-! ## Nonzero numbers -/

/-- `std::num::NonZeroU32`. -/
structure NonZeroU32 where
  /-- The number. -/
  val : UInt32
  /-- It is not zero. -/
  ne : val ≠ 0
  deriving DecidableEq

/-- `NonZeroU32::new`. -/
def NonZeroU32.new (n : UInt32) : Option NonZeroU32 :=
  if h : n ≠ 0 then some ⟨n, h⟩ else none

/-- `NonZeroU32::new` accepts the value of a nonzero number. -/
@[simp] lemma NonZeroU32.new_val (n : NonZeroU32) : NonZeroU32.new n.val = some n := by
  simp [NonZeroU32.new, n.ne]

/-! ## Text as UTF-8 -/

/-- `str::as_bytes`: the UTF-8 encoding of a text. -/
def toUtf8 (s : Str) : Bytes := s.flatMap String.utf8EncodeChar

/-- `std::str::from_utf8`: the text a byte string encodes, if it is valid UTF-8. -/
def fromUtf8 (b : Bytes) : Option Str := b.toByteArray.utf8Decode?.map Array.toList

/-- Decoding the UTF-8 bytes of a text gives the text back. -/
@[simp] theorem fromUtf8_toUtf8 (s : Str) : fromUtf8 (toUtf8 s) = some s := by
  have h : (toUtf8 s).toByteArray = s.utf8Encode := rfl
  simp [fromUtf8, h, List.utf8Decode?_utf8Encode]

/-- The bytes of two texts, one behind the other. -/
lemma toUtf8_append (s t : Str) : toUtf8 (s ++ t) = toUtf8 s ++ toUtf8 t := List.flatMap_append

/-- Different texts have different bytes. -/
lemma toUtf8_injective : Function.Injective toUtf8 := by
  intro s t h
  have hst : fromUtf8 (toUtf8 s) = fromUtf8 (toUtf8 t) := by rw [h]
  simpa using hst

/-- Only the empty text has no bytes. -/
@[simp] lemma length_toUtf8_eq_zero_iff (s : Str) : (toUtf8 s).length = 0 ↔ s = [] := by
  rw [List.length_eq_zero_iff]
  constructor
  · intro h
    exact toUtf8_injective h
  · rintro rfl
    rfl

end AsyncRustbus
