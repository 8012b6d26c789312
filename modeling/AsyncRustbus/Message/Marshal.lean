import AsyncRustbus.Message.Basic

set_option relaxedAutoImplicit false
set_option autoImplicit false

/-!
# Encoding headers (`MarshalledMessage::marshal_header`)

The encoder writes the twelve fixed bytes, a zero array length, the present fields, then goes
back to patch the array length and finally pads to eight bytes.  `marshalHeader_eq` puts this
into one closed form that the decoder is compared with.

## Main definitions

* `AsyncRustbus.marshalField` — `(u8, HdrVar)::marshal`.
* `AsyncRustbus.MarshalledMessage.marshalHeader` — `marshal_header`.
* `AsyncRustbus.MarshalledMessage.headerFields` — the fields it writes, in order.

## Main results

* `AsyncRustbus.MarshalledMessage.marshalHeader_eq` — `marshal_header` succeeds exactly when
  the names of the header are valid, and then writes the fixed header, the length of the field
  array, the fields and the padding.
-/

namespace AsyncRustbus

/-- The validation errors that `marshal_header` returns. -/
inductive ValidationError
  | invalidObjectPath
  | invalidInterface
  | invalidMembername
  | invalidErrorname
  | invalidBusname
  deriving DecidableEq

/-- The signature of a variant value. -/
def HdrVar.signatureText : HdrVar → Str
  | .path _ => ['o']
  | .str _ => ['s']
  | .u32 _ => ['u']
  | .sig _ => ['g']
  | .catchall s => s

/-- The value inside a variant.  The encoder never writes a `catchall`. -/
def HdrVar.marshalValue (bo : ByteOrder) (buf : Bytes) : HdrVar → Bytes
  | .path p => Wire.marshalStr bo p.inner buf
  | .str s => Wire.marshalStr bo s buf
  | .u32 n => Wire.marshalU32 bo n buf
  | .sig s => Wire.marshalSignature s buf
  | .catchall _ => buf

/-- `<(u8, HdrVar)>::marshal`: a struct, aligned to eight bytes, of a byte and a variant. -/
def marshalField (bo : ByteOrder) (code : UInt8) (var : HdrVar) (buf : Bytes) : Bytes :=
  var.marshalValue bo (Wire.marshalSignature var.signatureText (Wire.alignTo 8 buf ++ [code]))

/-- A field holding a name: checked, then written. -/
def marshalName (valid : Str → Bool) (error : ValidationError) (bo : ByteOrder) (code : UInt8)
    (name : Option Str) (buf : Bytes) : Except ValidationError Bytes :=
  match name with
  | none => .ok buf
  | some s => if valid s then .ok (marshalField bo code (.str s) buf) else .error error

/-- The object path field: checked, then written. -/
def marshalObject (bo : ByteOrder) (object : Option Str) (buf : Bytes) :
    Except ValidationError Bytes :=
  match object with
  | none => .ok buf
  | some s =>
    match ObjectPath.fromStr s with
    | .ok path => .ok (marshalField bo 1 (.path path) buf)
    | .error _ => .error .invalidObjectPath

/-- The byte of a byte order. -/
def byteorderByte : ByteOrder → UInt8
  | .littleEndian => 108 -- `b'l'`
  | .bigEndian => 66 -- `b'B'`

/-- The byte of a message type. -/
def typeByte : MessageType → UInt8
  | .invalid => 0
  | .call => 1
  | .reply => 2
  | .error => 3
  | .signal => 4

namespace MarshalledMessage

/-- The fixed twelve bytes of the header. -/
def fixedHeader (m : MarshalledMessage) (serial : NonZeroU32) : Bytes :=
  let bo := m.body.byteorder
  Wire.marshalU32 bo serial.val (Wire.marshalU32 bo (UInt32.ofNat m.body.buf.length)
    [byteorderByte bo, typeByte m.typ, m.flags, 1])

/-- `MarshalledMessage::marshal_header`. -/
def marshalHeader (R : Rustbus) (m : MarshalledMessage) (serial : NonZeroU32) :
    Except ValidationError Bytes := do
  let bo := m.body.byteorder
  let d := m.dynheader
  let buf := Wire.marshalU32 bo 0 (m.fixedHeader serial)
  let buf ← marshalObject bo d.object buf
  let buf ← marshalName R.validateInterface .invalidInterface bo 2 d.interface buf
  let buf ← marshalName R.validateMembername .invalidMembername bo 3 d.member buf
  let buf ← marshalName R.validateErrorname .invalidErrorname bo 4 d.errorName buf
  let buf := match d.responseSerial with
    | some rspIdx => marshalField bo 5 (.u32 rspIdx.val) buf
    | none => buf
  let buf ← marshalName R.validateBusname .invalidBusname bo 6 d.destination buf
  let buf ← marshalName R.validateBusname .invalidBusname bo 7 d.sender buf
  let buf := if m.body.buf ≠ [] then marshalField bo 8 (.sig m.body.sig) buf else buf
  let fdCnt := UInt32.ofNat m.body.rawFds.length
  let buf := if fdCnt ≠ 0 then marshalField bo 9 (.u32 fdCnt) buf else buf
  -- the array length is patched into the four bytes behind the fixed header
  let len := UInt32.ofNat (buf.length - 16)
  return Wire.alignTo 8 (buf.take 12 ++ u32ToBytes bo len ++ buf.drop 16)

/-! ## The fields in order -/

/-- The present fields of a header and the fields computed from the body, in the order in which
the encoder writes them. -/
def headerFields (m : MarshalledMessage) : List (UInt8 × HdrVar) :=
  let d := m.dynheader
  ((d.object.bind fun s => (ObjectPath.fromStr s).toOption).map
    fun p => (1, HdrVar.path p)).toList ++
  (d.interface.map fun s => (2, HdrVar.str s)).toList ++
  (d.member.map fun s => (3, HdrVar.str s)).toList ++
  (d.errorName.map fun s => (4, HdrVar.str s)).toList ++
  (d.responseSerial.map fun n => (5, HdrVar.u32 n.val)).toList ++
  (d.destination.map fun s => (6, HdrVar.str s)).toList ++
  (d.sender.map fun s => (7, HdrVar.str s)).toList ++
  (if m.body.buf ≠ [] then [(8, HdrVar.sig m.body.sig)] else []) ++
  (if UInt32.ofNat m.body.rawFds.length ≠ 0 then
    [(9, HdrVar.u32 (UInt32.ofNat m.body.rawFds.length))] else [])

end MarshalledMessage

/-- Write a list of fields. -/
def marshalFields (bo : ByteOrder) (fields : List (UInt8 × HdrVar)) (buf : Bytes) : Bytes :=
  fields.foldl (fun buf f => marshalField bo f.1 f.2 buf) buf

/-- Writing a concatenation of lists. -/
lemma marshalFields_append (bo : ByteOrder) (fs gs : List (UInt8 × HdrVar)) (buf : Bytes) :
    marshalFields bo (fs ++ gs) buf = marshalFields bo gs (marshalFields bo fs buf) := by
  simp [marshalFields]

/-- The names that `marshal_header` checks: those of `DynamicHeader::validate` without the
signature. -/
def DynamicHeader.validNames (R : Rustbus) (d : DynamicHeader) : Bool :=
  { d with signature := none }.validate R

/-- A name field in closed form. -/
private lemma marshalName_eq (valid : Str → Bool) (error : ValidationError) (bo : ByteOrder)
    (code : UInt8) (name : Option Str) (buf : Bytes) :
    marshalName valid error bo code name buf = if checkField valid name then
      .ok (marshalFields bo (name.map fun s => (code, HdrVar.str s)).toList buf)
      else .error error := by
  cases name <;> rfl

/-- The object field in closed form. -/
private lemma marshalObject_eq (bo : ByteOrder) (object : Option Str) (buf : Bytes) :
    marshalObject bo object buf = if checkField validateObject object then
      .ok (marshalFields bo ((object.bind fun s => (ObjectPath.fromStr s).toOption).map
        fun p => (1, HdrVar.path p)).toList buf)
      else .error .invalidObjectPath := by
  cases object with
  | none => rfl
  | some s =>
    cases hs : ObjectPath.fromStr s with
    | ok path =>
      simp [marshalObject, checkField, validateObject, hs, Except.toOption, marshalFields]
    | error e => simp [marshalObject, checkField, validateObject, hs]

/-! ## Writers append -/

/-- A writer appends bytes that depend only on the length of the buffer. -/
def Appends (w : Bytes → Bytes) : Prop := ∃ f : ℕ → Bytes, ∀ buf, w buf = buf ++ f buf.length

/-- Padding appends. -/
lemma appends_alignTo (alignment : ℕ) : Appends (Wire.alignTo alignment) :=
  ⟨Wire.padding alignment, fun _ => rfl⟩

/-- Appending fixed bytes appends. -/
lemma appends_const (b : Bytes) : Appends (· ++ b) := ⟨fun _ => b, fun _ => rfl⟩

/-- Writers compose. -/
lemma Appends.comp {v w : Bytes → Bytes} (hv : Appends v) (hw : Appends w) :
    Appends fun buf => v (w buf) := by
  obtain ⟨f, hf⟩ := hv
  obtain ⟨g, hg⟩ := hw
  refine ⟨fun n => g n ++ f (n + (g n).length), fun buf => ?_⟩
  simp only [hf, hg, List.append_assoc, List.length_append]

/-- A UINT32 appends. -/
lemma appends_marshalU32 (bo : ByteOrder) (n : UInt32) : Appends (Wire.marshalU32 bo n) :=
  (appends_const (u32ToBytes bo n)).comp (appends_alignTo 4)

/-- A STRING appends. -/
lemma appends_marshalStr (bo : ByteOrder) (s : Str) : Appends (Wire.marshalStr bo s) :=
  (appends_const (toUtf8 s ++ [0])).comp (appends_marshalU32 bo _)

/-- A SIGNATURE appends. -/
lemma appends_marshalSignature (s : Str) : Appends (Wire.marshalSignature s) :=
  appends_const _

/-- The value of a variant appends. -/
lemma appends_marshalValue (bo : ByteOrder) (var : HdrVar) :
    Appends fun buf => var.marshalValue bo buf := by
  cases var with
  | path p => exact appends_marshalStr bo p.inner
  | str s => exact appends_marshalStr bo s
  | u32 n => exact appends_marshalU32 bo n
  | sig s => exact appends_marshalSignature s
  | catchall s => exact ⟨fun _ => [], fun buf => (List.append_nil buf).symm⟩

/-- A header field appends. -/
lemma appends_marshalField (bo : ByteOrder) (code : UInt8) (var : HdrVar) :
    Appends (marshalField bo code var) :=
  (appends_marshalValue bo var).comp
    ((appends_marshalSignature _).comp ((appends_const [code]).comp (appends_alignTo 8)))

/-- A list of header fields appends. -/
lemma appends_marshalFields (bo : ByteOrder) (fields : List (UInt8 × HdrVar)) :
    Appends (marshalFields bo fields) := by
  induction fields with
  | nil => exact ⟨fun _ => [], fun buf => (List.append_nil buf).symm⟩
  | cons f fields ih => exact ih.comp (appends_marshalField bo f.1 f.2)

/-! ## The closed form -/

/-- The fixed header has twelve bytes. -/
@[simp] lemma MarshalledMessage.length_fixedHeader (m : MarshalledMessage)
    (serial : NonZeroU32) : (m.fixedHeader serial).length = 12 := by
  simp only [fixedHeader, Wire.marshalU32, List.length_append, Wire.length_alignTo,
    length_u32ToBytes, List.length_cons, List.length_nil]
  decide

/-- The array length behind the fixed header needs no padding. -/
lemma MarshalledMessage.marshalU32_fixedHeader (m : MarshalledMessage) (serial : NonZeroU32)
    (bo : ByteOrder) (n : UInt32) :
    Wire.marshalU32 bo n (m.fixedHeader serial) = m.fixedHeader serial ++ u32ToBytes bo n := by
  have hpad : Wire.padding 4 12 = [] := by decide
  simp [Wire.marshalU32, Wire.alignTo, hpad]

/-- The bytes of the field array: what `marshalFields` appends at offset `16`. -/
def MarshalledMessage.fieldBytes (m : MarshalledMessage) : Bytes :=
  (marshalFields m.body.byteorder m.headerFields (List.replicate 16 0)).drop 16

/-- Writing the fields behind any sixteen bytes appends the field array. -/
lemma MarshalledMessage.marshalFields_headerFields (m : MarshalledMessage) {buf : Bytes}
    (h : buf.length = 16) :
    marshalFields m.body.byteorder m.headerFields buf = buf ++ m.fieldBytes := by
  obtain ⟨f, hf⟩ := appends_marshalFields m.body.byteorder m.headerFields
  have hdrop : (List.replicate 16 (0 : UInt8) ++ f 16).drop 16 = f 16 := by
    rw [List.drop_left' (by simp)]
  rw [fieldBytes, hf, hf, h, List.length_replicate, hdrop]

/-- The header that the encoder writes: the fixed header, the length of the field array, the
fields, and the padding to eight bytes. -/
def MarshalledMessage.headerBytes (m : MarshalledMessage) (serial : NonZeroU32) : Bytes :=
  Wire.alignTo 8 (m.fixedHeader serial ++
    u32ToBytes m.body.byteorder (UInt32.ofNat m.fieldBytes.length) ++ m.fieldBytes)

/-- **`marshal_header` in closed form.**  It succeeds exactly when the names are valid.

**Proof sketch.** Each field is checked and then appended, so the checks can be collected in
front; the patched bytes lie behind the fixed header and before the fields, which depend only
on their offset. -/
theorem MarshalledMessage.marshalHeader_eq (R : Rustbus) (m : MarshalledMessage)
    (serial : NonZeroU32) :
    (∃ buf, m.marshalHeader R serial = .ok buf) ∧ m.dynheader.validNames R = true ∧
        m.marshalHeader R serial = .ok (m.headerBytes serial) ∨
      (∃ e, m.marshalHeader R serial = .error e) ∧ m.dynheader.validNames R = false := by
  have hclosed : ∀ buf₀ : Bytes, buf₀.length = 16 → buf₀.take 12 = m.fixedHeader serial →
      Wire.alignTo 8 ((marshalFields m.body.byteorder m.headerFields buf₀).take 12 ++
        u32ToBytes m.body.byteorder (UInt32.ofNat
          ((marshalFields m.body.byteorder m.headerFields buf₀).length - 16)) ++
        (marshalFields m.body.byteorder m.headerFields buf₀).drop 16) = m.headerBytes serial := by
    intro buf₀ hlen htake
    rw [m.marshalFields_headerFields hlen, headerBytes]
    have hsub : (buf₀ ++ m.fieldBytes).length - 16 = m.fieldBytes.length := by
      simp [hlen]
    rw [hsub, List.take_append_of_le_length (by omega), htake, List.drop_left' hlen]
  have hstart : (Wire.marshalU32 m.body.byteorder 0 (m.fixedHeader serial)).length = 16 := by
    simp [m.marshalU32_fixedHeader]
  have htake : (Wire.marshalU32 m.body.byteorder 0 (m.fixedHeader serial)).take 12 =
      m.fixedHeader serial := by
    rw [m.marshalU32_fixedHeader, List.take_left' (by simp)]
  have hok := hclosed _ hstart htake
  have hrsp : ∀ buf : Bytes, (match m.dynheader.responseSerial with
      | some rspIdx => marshalField m.body.byteorder 5 (.u32 rspIdx.val) buf
      | none => buf) = marshalFields m.body.byteorder
        (m.dynheader.responseSerial.map fun n => (5, HdrVar.u32 n.val)).toList buf := by
    intro buf
    cases m.dynheader.responseSerial <;> rfl
  have hsig : ∀ buf : Bytes, (if m.body.buf ≠ [] then
      marshalField m.body.byteorder 8 (.sig m.body.sig) buf else buf) =
        marshalFields m.body.byteorder
          (if m.body.buf ≠ [] then [(8, HdrVar.sig m.body.sig)] else []) buf := by
    intro buf
    split_ifs <;> rfl
  have hfds : ∀ buf : Bytes, (if UInt32.ofNat m.body.rawFds.length ≠ 0 then
      marshalField m.body.byteorder 9 (.u32 (UInt32.ofNat m.body.rawFds.length)) buf else buf) =
        marshalFields m.body.byteorder (if UInt32.ofNat m.body.rawFds.length ≠ 0 then
          [(9, HdrVar.u32 (UInt32.ofNat m.body.rawFds.length))] else []) buf := by
    intro buf
    split_ifs <;> rfl
  simp only [headerFields, marshalFields_append] at hok
  simp only [marshalHeader, marshalObject_eq, marshalName_eq, hrsp, hsig, hfds,
    DynamicHeader.validNames, DynamicHeader.validate, Bool.and_eq_true, checkField.eq_2]
  -- the checks fail in the order of the encoder or all succeed
  by_cases h1 : checkField validateObject m.dynheader.object = true
  on_goal 2 => simp [h1, Bind.bind, Except.bind]
  by_cases h2 : checkField R.validateInterface m.dynheader.interface = true
  on_goal 2 => simp [h1, h2, Bind.bind, Except.bind]
  by_cases h3 : checkField R.validateMembername m.dynheader.member = true
  on_goal 2 => simp [h1, h2, h3, Bind.bind, Except.bind]
  by_cases h4 : checkField R.validateErrorname m.dynheader.errorName = true
  on_goal 2 => simp [h1, h2, h3, h4, Bind.bind, Except.bind]
  by_cases h5 : checkField R.validateBusname m.dynheader.destination = true
  on_goal 2 => simp [h1, h2, h3, h4, h5, Bind.bind, Except.bind]
  by_cases h6 : checkField R.validateBusname m.dynheader.sender = true
  on_goal 2 => simp [h1, h2, h3, h4, h5, h6, Bind.bind, Except.bind]
  left
  simp only [h1, h2, h3, h4, h5, h6, if_true, Bind.bind, Except.bind, Pure.pure, Except.pure, hok]
  simp

end AsyncRustbus
