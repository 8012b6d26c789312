import AsyncRustbus.Path
import AsyncRustbus.Wire

set_option relaxedAutoImplicit false
set_option autoImplicit false

/-!
# Messages (`rustbus_core/message_builder`)

The message types of the crate, the validation of headers and bodies, and the responses made
from a header.  The `rustbus` crate is a dependency whose source is not part of the repository:
the functions of it that the code calls are the fields of the structure `Rustbus`, and what the
code relies on about them is stated in `Rustbus.Conforms`.

## Main definitions

* `AsyncRustbus.MessageType`, `DynamicHeader`, `MarshalledMessageBody`, `MarshalledMessage`,
  `HdrVar`, `Header` — the types.
* `AsyncRustbus.Rustbus` — the functions of the `rustbus` crate.
* `DynamicHeader.validate`, `MarshalledMessageBody.validate` — the validations.
* `DynamicHeader.makeErrorResponse`, `DynamicHeader.makeResponse` — responses.
-/

namespace AsyncRustbus

/-- `rustbus::message_builder::MessageType`. -/
inductive MessageType
  | signal
  | error
  | call
  | reply
  | invalid
  deriving DecidableEq, Repr

/-- `rustbus::wire::unmarshal::Header`: the fixed part of a header. -/
structure Header where
  byteorder : ByteOrder
  typ : MessageType
  flags : UInt8
  version : UInt8
  bodyLen : UInt32
  serial : UInt32
  deriving DecidableEq

/-- The errors of `rustbus::wire::unmarshal`: the ones the crate itself returns, and the
others. -/
inductive UnmarshalError
  | notEnoughBytes
  | notEnoughBytesForCollection
  | invalidHeaderField
  | notAllBytesUsed
  | other (name : Str)
  deriving DecidableEq

/-- `HdrVar`: the variant values of header fields.  `catchall` is the variant that the macro
adds for values of any other type, with the signature of that type. -/
inductive HdrVar
  | path (p : ObjectPath)
  | str (s : Str)
  | u32 (n : UInt32)
  | sig (s : Str)
  | catchall (signature : Str)
  deriving DecidableEq

/-- `rustbus::wire::UnixFd`: an owned file descriptor, or what is left of one whose raw
descriptor has been taken.  Descriptors duplicated from one another refer to the same open
file, which is what the number stands for. -/
structure UnixFd where
  file : Option ℕ
  deriving DecidableEq

/-- `DBUS_MAX_FD_MESSAGE`: the largest number of descriptors of a message. -/
def dbusMaxFdMessage : ℕ := 32

/-- `MarshalledMessageBody`. -/
structure MarshalledMessageBody where
  buf : Bytes
  sig : Str
  rawFds : List UnixFd
  byteorder : ByteOrder
  deriving DecidableEq

/-- `DynamicHeader`: the header fields of a message. -/
structure DynamicHeader where
  interface : Option Str
  member : Option Str
  object : Option Str
  destination : Option Str
  serial : Option NonZeroU32
  sender : Option Str
  signature : Option Str
  errorName : Option Str
  responseSerial : Option NonZeroU32
  numFds : Option UInt32
  deriving DecidableEq

/-- `MarshalledMessage`. -/
structure MarshalledMessage where
  body : MarshalledMessageBody
  dynheader : DynamicHeader
  typ : MessageType
  flags : UInt8
  deriving DecidableEq

/-! ## The `rustbus` crate -/

/-- The functions of the `rustbus` crate that decode and validate. -/
structure Rustbus where
  /-- `wire::unmarshal::unmarshal_header` at offset `0`. -/
  unmarshalHeader : Bytes → Option Header
  /-- `<(u8, HdrVar)>::unmarshal` at an offset: the number of bytes consumed (padding
  included), the field code and the value. -/
  unmarshalField : ByteOrder → Bytes → ℕ → Except UnmarshalError (ℕ × UInt8 × HdrVar)
  /-- A field starts with a byte, so it consumes something. -/
  unmarshalField_pos : ∀ bo buf offset used code var,
    unmarshalField bo buf offset = .ok (used, code, var) → 0 < used
  /-- `wire::util::align_offset`: the length of the padding at an offset. -/
  alignOffset : ℕ → Bytes → ℕ → Except UnmarshalError ℕ
  /-- `validate_interface`. -/
  validateInterface : Str → Bool
  /-- `validate_membername`. -/
  validateMembername : Str → Bool
  /-- `validate_errorname`. -/
  validateErrorname : Str → Bool
  /-- `validate_busname`. -/
  validateBusname : Str → Bool
  /-- `validate_signature`. -/
  validateSignature : Str → Bool
  /-- `signature::Type::parse_description`: the complete types of a signature, as texts. -/
  parseDescription : Str → Except UnmarshalError (List Str)
  /-- `validate_raw::validate_marshalled`: the length of the value of a type at an offset. -/
  validateMarshalled : ByteOrder → ℕ → Bytes → Str → Except UnmarshalError ℕ

/-! ## Headers -/

/-- The header with no field: `DynamicHeader::default`. -/
def DynamicHeader.default : DynamicHeader :=
  ⟨none, none, none, none, none, none, none, none, none, none⟩

/-- An absent field passes every check, a present one is checked. -/
def checkField (valid : Str → Bool) (field : Option Str) : Bool :=
  match field with
  | some s => valid s
  | none => true

/-- `ObjectPath::from_str(..).is_ok()`. -/
def validateObject (s : Str) : Bool :=
  match ObjectPath.fromStr s with
  | .ok _ => true
  | .error _ => false

/-- `DynamicHeader::validate`. -/
def DynamicHeader.validate (R : Rustbus) (d : DynamicHeader) : Bool :=
  checkField R.validateInterface d.interface && checkField validateObject d.object &&
    checkField R.validateMembername d.member && checkField R.validateErrorname d.errorName &&
    checkField R.validateBusname d.destination && checkField R.validateBusname d.sender &&
    checkField R.validateSignature d.signature

/-- `validateObject` is the validation of the path grammar. -/
lemma validateObject_iff (s : Str) : validateObject s = true ↔ ∃ p : ObjectPath, p.inner = s := by
  unfold validateObject
  cases hs : ObjectPath.fromStr s with
  | ok p =>
    simp only [true_iff]
    exact ⟨p, (ObjectPath.fromStr_eq_ok_iff s p).mp hs⟩
  | error e =>
    simp only [Bool.false_eq_true, false_iff, not_exists]
    intro p hp
    rw [(ObjectPath.fromStr_eq_ok_iff s p).mpr hp] at hs
    cases hs

/-! ## Bodies -/

/-- `MarshalledMessageBody::with_byteorder`. -/
def MarshalledMessageBody.withByteorder (bo : ByteOrder) : MarshalledMessageBody :=
  ⟨[], [], [], bo⟩

/-- `MarshalledMessageBody::new`. -/
def MarshalledMessageBody.new : MarshalledMessageBody := .withByteorder .littleEndian

/-- The loop of `MarshalledMessageBody::validate` over the types of the signature. -/
def validateTypes (R : Rustbus) (bo : ByteOrder) (buf : Bytes) :
    List Str → ℕ → Except UnmarshalError ℕ
  | [], used => .ok used
  | typ :: types, used =>
    match R.validateMarshalled bo used buf typ with
    | .error e => .error e
    | .ok n => validateTypes R bo buf types (used + n)

/-- `MarshalledMessageBody::validate`. -/
def MarshalledMessageBody.validate (R : Rustbus) (b : MarshalledMessageBody) :
    Except UnmarshalError Unit :=
  if b.sig = [] ∧ b.buf = [] then .ok ()
  else
    match R.parseDescription b.sig with
    | .error e => .error e
    | .ok types =>
      match validateTypes R b.byteorder b.buf types 0 with
      | .error e => .error e
      | .ok used => if used = b.buf.length then .ok () else .error .notAllBytesUsed

/-- `push_param` of a `String` on a body without parameters. -/
def MarshalledMessageBody.pushStr (b : MarshalledMessageBody) (s : Str) : MarshalledMessageBody :=
  { b with buf := Wire.marshalStr b.byteorder s b.buf, sig := b.sig ++ ['s'] }

/-! ## Responses -/

/-- The header of a response: addressed to the sender, with the serial of the call. -/
def DynamicHeader.responseHeader (d : DynamicHeader) (errorName : Option Str) : DynamicHeader :=
  { DynamicHeader.default with
    destination := d.sender, responseSerial := d.serial, errorName := errorName }

/-- `DynamicHeader::make_error_response`. -/
def DynamicHeader.makeErrorResponse (d : DynamicHeader) (errorName : Str)
    (errorMsg : Option Str) : MarshalledMessage where
  typ := .error
  dynheader := d.responseHeader (some errorName)
  flags := 0
  body := match errorMsg with
    | some text => MarshalledMessageBody.new.pushStr text
    | none => .new

/-- `DynamicHeader::make_response`. -/
def DynamicHeader.makeResponse (d : DynamicHeader) : MarshalledMessage where
  typ := .reply
  dynheader := d.responseHeader none
  flags := 0
  body := .new

end AsyncRustbus
