import AsyncRustbus.Message.RoundTrip

set_option relaxedAutoImplicit false
set_option autoImplicit false

/-!
# A concrete `rustbus`

An executable instance of the functions the crate takes from `rustbus`, after the D-Bus
specification.  It decodes fixed headers and the header fields in full; bodies may hold bytes,
numbers and texts (the types `y`, `u`, `s`, `o` and `g`), everything else is refused.

## Main definitions

* `AsyncRustbus.Rustbus.reference` — the instance.

## Main results

* `AsyncRustbus.Rustbus.reference_conforms` — it meets the assumptions of the development.
-/

namespace AsyncRustbus

namespace Reference

/-! ## Fixed headers -/

/-- The byte order of a byte. -/
def byteorderOfByte (b : UInt8) : Option ByteOrder :=
  if b = 108 then some .littleEndian else if b = 66 then some .bigEndian else none

/-- The message type of a byte. -/
def typeOfByte (b : UInt8) : Option MessageType :=
  if b = 1 then some .call
  else if b = 2 then some .reply
  else if b = 3 then some .error
  else if b = 4 then some .signal
  else none

/-- `unmarshal_header`. -/
def unmarshalHeader (buf : Bytes) : Option Header :=
  match buf with
  | b₀ :: b₁ :: flags :: version :: l₀ :: l₁ :: l₂ :: l₃ :: s₀ :: s₁ :: s₂ :: s₃ :: _ =>
    (byteorderOfByte b₀).bind fun bo => (typeOfByte b₁).map fun typ =>
      ⟨bo, typ, flags, version, parseU32 [l₀, l₁, l₂, l₃] bo, parseU32 [s₀, s₁, s₂, s₃] bo⟩
  | _ => none

/-! ## Names and signatures -/

/-- A name element: letters, digits and underscores, not starting with a digit. -/
def isElement (s : Str) : Bool :=
  s ≠ [] && s.all (fun c => c.isAlphanum || c = '_') && !(s.headD 'a').isDigit

/-- An interface or error name: two or more elements separated by dots. -/
def validateInterface (s : Str) : Bool :=
  decide (s.length ≤ 255) && decide (2 ≤ (s.splitOn '.').length) && (s.splitOn '.').all isElement

/-- A member name: one element. -/
def validateMembername (s : Str) : Bool := decide (s.length ≤ 255) && isElement s

/-- A bus name: a unique name starting with a colon, or a well-known name. -/
def validateBusname (s : Str) : Bool :=
  match s with
  | ':' :: rest => decide (rest.length ≤ 254) && decide (2 ≤ (rest.splitOn '.').length) &&
      (rest.splitOn '.').all fun e => e ≠ [] && e.all fun c => c.isAlphanum || c = '_' || c = '-'
  | _ => validateInterface s

/-- The types of the values in bodies. -/
def isBodyType (c : Char) : Bool := c = 'y' || c = 'u' || c = 's' || c = 'o' || c = 'g'

/-- A signature of such types. -/
def validateSignature (s : Str) : Bool := decide ((toUtf8 s).length ≤ 255) && s.all isBodyType

/-- `parse_description`. -/
def parseDescription (s : Str) : Except UnmarshalError (List Str) :=
  if validateSignature s then .ok (s.map fun c => [c])
  else .error (.other "InvalidSignature".toList)

/-! ## Values -/

/-- The value of a variant with signature `sig`, and the offset behind it. -/
def readVariant (sig : Str) (bo : ByteOrder) (buf : Bytes) (offset : ℕ) : Option (HdrVar × ℕ) :=
  if sig = ['o'] then
    (Wire.readStr bo buf offset).bind fun (s, pos) =>
      (ObjectPath.fromStr s).toOption.map fun p => (.path p, pos)
  else if sig = ['s'] then (Wire.readStr bo buf offset).map fun (s, pos) => (.str s, pos)
  else if sig = ['u'] then (Wire.readU32 bo buf offset).map fun (n, pos) => (.u32 n, pos)
  else if sig = ['g'] then
    (Wire.readSignature buf offset).bind fun (s, pos) =>
      if validateSignature s then some (.sig s, pos) else none
  else none

/-- A header field and the offset behind it. -/
def readField (bo : ByteOrder) (buf : Bytes) (offset : ℕ) : Option (UInt8 × HdrVar × ℕ) :=
  (Wire.skipPadding 8 buf offset).bind fun pos =>
    (Wire.readBytes 1 buf pos).bind fun (code, pos) =>
      (Wire.readSignature buf pos).bind fun (sig, pos) =>
        (readVariant sig bo buf pos).map fun (var, pos) => (code.headD 0, var, pos)

/-- `<(u8, HdrVar)>::unmarshal`. -/
def unmarshalField (bo : ByteOrder) (buf : Bytes) (offset : ℕ) :
    Except UnmarshalError (ℕ × UInt8 × HdrVar) :=
  match readField bo buf offset with
  | some (code, var, pos) =>
    if offset < pos then .ok (pos - offset, code, var) else .error .notEnoughBytes
  | none => .error .notEnoughBytes

/-- `align_offset`. -/
def alignOffset (alignment : ℕ) (buf : Bytes) (offset : ℕ) : Except UnmarshalError ℕ :=
  match Wire.skipPadding alignment buf offset with
  | some pos => .ok (pos - offset)
  | none => .error (.other "PaddingContainedData".toList)

/-- The offset behind a value of a body. -/
def skipValue (bo : ByteOrder) (buf : Bytes) (typ : Str) (offset : ℕ) : Option ℕ :=
  if typ = ['y'] then (Wire.readBytes 1 buf offset).map Prod.snd
  else (readVariant typ bo buf offset).map Prod.snd

/-- `validate_marshalled`. -/
def validateMarshalled (bo : ByteOrder) (offset : ℕ) (buf : Bytes) (typ : Str) :
    Except UnmarshalError ℕ :=
  match skipValue bo buf typ offset with
  | some pos => if offset < pos then .ok (pos - offset) else .error .notEnoughBytes
  | none => .error .notEnoughBytes

end Reference

/-- A `rustbus` after the D-Bus specification. -/
def Rustbus.reference : Rustbus where
  unmarshalHeader := Reference.unmarshalHeader
  unmarshalField := Reference.unmarshalField
  unmarshalField_pos bo buf offset used code var h := by
    unfold Reference.unmarshalField at h
    repeat' split at h
    all_goals cases h
    omega
  alignOffset := Reference.alignOffset
  validateInterface := Reference.validateInterface
  validateMembername := Reference.validateMembername
  validateErrorname := Reference.validateInterface
  validateBusname := Reference.validateBusname
  validateSignature := Reference.validateSignature
  parseDescription := Reference.parseDescription
  validateMarshalled := Reference.validateMarshalled

/-! ## The assumptions hold -/

namespace Reference

/-- The fixed part of a header is its first twelve bytes. -/
lemma readsFixedPart : Rustbus.reference.ReadsFixedPart := by
  intro buf h
  match buf, h with
  | b₀ :: b₁ :: flags :: version :: l₀ :: l₁ :: l₂ :: l₃ :: s₀ :: s₁ :: s₂ :: s₃ :: rest, _ => rfl

/-- A `u32` of two byte orders, as a list of its bytes. -/
private lemma exists_u32ToBytes (bo : ByteOrder) (n : UInt32) :
    ∃ a b c d, u32ToBytes bo n = [a, b, c, d] := by
  cases bo
  · exact ⟨_, _, _, _, rfl⟩
  · exact ⟨_, _, _, _, rfl⟩

/-- Fixed headers are decoded. -/
private lemma unmarshalHeader_fixed (m : MarshalledMessage) (serial : NonZeroU32)
    (htyp : m.typ ≠ .invalid) :
    unmarshalHeader (m.fixedHeader serial) = some ⟨m.body.byteorder, m.typ, m.flags, 1,
      UInt32.ofNat m.body.buf.length, serial.val⟩ := by
  obtain ⟨l₀, l₁, l₂, l₃, hl⟩ := exists_u32ToBytes m.body.byteorder
    (UInt32.ofNat m.body.buf.length)
  obtain ⟨s₀, s₁, s₂, s₃, hs⟩ := exists_u32ToBytes m.body.byteorder serial.val
  have hfixed : m.fixedHeader serial = [byteorderByte m.body.byteorder, typeByte m.typ, m.flags,
      1, l₀, l₁, l₂, l₃, s₀, s₁, s₂, s₃] := by
    have h4 : Wire.padding 4 4 = [] := by decide
    have h8 : Wire.padding 4 8 = [] := by decide
    simp [MarshalledMessage.fixedHeader, Wire.marshalU32, Wire.alignTo, hl, hs, h4, h8]
  have hbo : byteorderOfByte (byteorderByte m.body.byteorder) = some m.body.byteorder := by
    cases m.body.byteorder <;> rfl
  have htype : typeOfByte (typeByte m.typ) = some m.typ := by
    cases hm : m.typ with
    | invalid => exact absurd hm htyp
    | _ => rfl
  rw [hfixed]
  simp only [unmarshalHeader, hbo, htype, Option.bind_some, Option.map_some, ← hl, ← hs,
    parseU32_u32ToBytes]

/-- The value of a variant is read back. -/
private lemma readVariant_marshalValue (bo : ByteOrder) (var : HdrVar) (pre post : Bytes)
    (h : var.Writable Rustbus.reference) :
    readVariant var.signatureText bo (var.marshalValue bo pre ++ post) pre.length =
      some (var, (var.marshalValue bo pre).length) := by
  cases var with
  | path p =>
    have hp := (ObjectPath.fromStr_eq_ok_iff p.inner p).mpr rfl
    simp [readVariant, HdrVar.signatureText, HdrVar.marshalValue,
      Wire.readStr_marshalStr bo p.inner pre post h, hp, Except.toOption]
  | str s =>
    simp [readVariant, HdrVar.signatureText, HdrVar.marshalValue,
      Wire.readStr_marshalStr bo s pre post h]
  | u32 n =>
    simp [readVariant, HdrVar.signatureText, HdrVar.marshalValue,
      Wire.readU32_marshalU32 bo n pre post]
  | sig s =>
    have hvalid : validateSignature s = true := h.2
    simp [readVariant, HdrVar.signatureText, HdrVar.marshalValue,
      Wire.readSignature_marshalSignature s pre post h.1, hvalid]
  | catchall s => exact h.elim

/-- A header field is read back.

**Proof sketch.** The encoded field is padding, its code, a signature and a value, and each is read
from where the one before it ends: `skipPadding_alignTo`, `readBytes_append`,
`readSignature_marshalSignature` and `readVariant_marshalValue`. -/
private lemma readField_marshalField (bo : ByteOrder) (code : UInt8) (var : HdrVar)
    (pre post : Bytes) (h : var.Writable Rustbus.reference) :
    readField bo (marshalField bo code var pre ++ post) pre.length =
      some (code, var, (marshalField bo code var pre).length) := by
  obtain ⟨f, hf⟩ := appends_marshalValue bo var
  dsimp only at hf
  obtain ⟨b, hb⟩ : ∃ b, b = Wire.alignTo 8 pre ++ [code] := ⟨_, rfl⟩
  obtain ⟨c, hc⟩ : ∃ c, c = Wire.marshalSignature var.signatureText b := ⟨_, rfl⟩
  have hsiglen : (toUtf8 var.signatureText).length < 2 ^ 8 := by
    cases var with
    | catchall s => exact h.elim
    | path p => exact (by decide : (toUtf8 ['o']).length < 2 ^ 8)
    | str s => exact (by decide : (toUtf8 ['s']).length < 2 ^ 8)
    | u32 n => exact (by decide : (toUtf8 ['u']).length < 2 ^ 8)
    | sig s => exact (by decide : (toUtf8 ['g']).length < 2 ^ 8)
  have hfield : marshalField bo code var pre = var.marshalValue bo c := by
    rw [hc, hb]
    rfl
  -- the same buffer, cut behind the padding, the code and the signature
  have hcut : marshalField bo code var pre ++ post =
      Wire.marshalSignature var.signatureText b ++ (f c.length ++ post) := by
    rw [hfield, ← hc, hf c, List.append_assoc]
  have hcut' : marshalField bo code var pre ++ post = Wire.alignTo 8 pre ++ ([code] ++
      (UInt8.ofNat (toUtf8 var.signatureText).length :: (toUtf8 var.signatureText ++ [0]) ++
        (f c.length ++ post))) := by
    rw [hcut, Wire.marshalSignature, hb]
    simp
  have hpad : Wire.skipPadding 8 (marshalField bo code var pre ++ post) pre.length =
      some (Wire.alignTo 8 pre).length := by
    rw [hcut', Wire.skipPadding_alignTo]
  have hcode : Wire.readBytes 1 (marshalField bo code var pre ++ post)
      (Wire.alignTo 8 pre).length = some ([code], b.length) := by
    have hread := Wire.readBytes_append (Wire.alignTo 8 pre) [code]
    rw [List.length_singleton] at hread
    rw [hcut', hread, hb, List.length_append, List.length_singleton]
  have hsig : Wire.readSignature (marshalField bo code var pre ++ post) b.length =
      some (var.signatureText, c.length) := by
    rw [hcut, Wire.readSignature_marshalSignature _ b _ hsiglen, hc]
  have hval : readVariant var.signatureText bo (marshalField bo code var pre ++ post) c.length =
      some (var, (marshalField bo code var pre).length) := by
    rw [hfield, readVariant_marshalValue bo var c post h]
  rw [readField, hpad]
  simp only [Option.bind_some, hcode, hsig, hval, Option.map_some, List.headD_cons]

end Reference

/-- **The concrete `rustbus` meets the assumptions.**

**Proof sketch.** The fields one by one, each by the definition of the reference that it is about. A
header field is read back by `readField_marshalField` and takes at least one byte. -/
theorem Rustbus.reference_conforms : Rustbus.reference.Conforms where
  reads_fixed_part := Reference.readsFixedPart
  unmarshalHeader_fixed m serial htyp _ := Reference.unmarshalHeader_fixed m serial htyp
  unmarshalField_marshalField bo code var pre post h := by
    have hread := Reference.readField_marshalField bo code var pre post h
    have hlt : pre.length < (marshalField bo code var pre).length := by
      obtain ⟨f, hf⟩ := appends_marshalValue bo var
      have h8 := le_alignNum pre.length 8
      simp only [marshalField, hf, Wire.marshalSignature, List.length_append,
        Wire.length_alignTo, List.length_cons]
      omega
    change Reference.unmarshalField bo _ _ = _
    rw [Reference.unmarshalField, hread]
    exact if_pos hlt
  alignOffset_alignTo pre post := by
    change Reference.alignOffset 8 _ _ = _
    rw [Reference.alignOffset, Wire.skipPadding_alignTo]
  parseDescription_valid s types h := by
    change Reference.parseDescription s = _ at h
    unfold Reference.parseDescription at h
    split_ifs at h with hvalid
    refine ⟨hvalid, ?_⟩
    simp only [Reference.validateSignature, Bool.and_eq_true, decide_eq_true_eq] at hvalid
    exact hvalid.1
  parseDescription_ne_nil s types h hs := by
    change Reference.parseDescription s = _ at h
    unfold Reference.parseDescription at h
    split_ifs at h
    cases h
    simpa using hs
  validateMarshalled_pos bo offset buf typ n h := by
    change Reference.validateMarshalled bo offset buf typ = _ at h
    unfold Reference.validateMarshalled at h
    repeat' split at h
    all_goals cases h
    omega

end AsyncRustbus
