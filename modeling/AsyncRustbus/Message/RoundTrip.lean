import AsyncRustbus.Message.Unmarshal
import Mathlib.Data.Fintype.Basic
import Mathlib.Tactic.FinCases

set_option relaxedAutoImplicit false
set_option autoImplicit false

/-!
# Header round trip

What the crate relies on about `rustbus`, a concrete `rustbus` that meets it, and the round
trip of message headers: decoding an encoded header gives its fields back.

## Main definitions

* `AsyncRustbus.Rustbus.ReadsFixedPart`, `AsyncRustbus.Rustbus.Conforms` — the assumptions.
* `AsyncRustbus.MarshalledMessage.decodedHeader` — the header that the decoder returns.

## Main results

* `AsyncRustbus.MarshalledMessage.unmarshal_headerBytes` — the header round trip.
-/

namespace AsyncRustbus

/-! ## The assumptions -/

/-- `unmarshal_header` reads the first twelve bytes only. -/
def Rustbus.ReadsFixedPart (R : Rustbus) : Prop :=
  ∀ buf : Bytes, 12 ≤ buf.length → R.unmarshalHeader buf = R.unmarshalHeader (buf.take 12)

/-- The values that can be written into a variant and read back: texts whose length fits into
the length field, and valid signatures. -/
def HdrVar.Writable (R : Rustbus) : HdrVar → Prop
  | .path p => (toUtf8 p.inner).length < 2 ^ 32
  | .str s => (toUtf8 s).length < 2 ^ 32
  | .u32 _ => True
  | .sig s => (toUtf8 s).length < 2 ^ 8 ∧ R.validateSignature s = true
  | .catchall _ => False

/-- What the crate relies on about `rustbus`: the primitives decode the encoding of the D-Bus
specification, and a body is validated by parsing its signature. -/
structure Rustbus.Conforms (R : Rustbus) : Prop where
  /-- `unmarshal_header` reads twelve bytes. -/
  reads_fixed_part : R.ReadsFixedPart
  /-- `unmarshal_header` decodes a fixed header. -/
  unmarshalHeader_fixed : ∀ (m : MarshalledMessage) (serial : NonZeroU32), m.typ ≠ .invalid →
    m.body.buf.length < 2 ^ 32 →
    R.unmarshalHeader (m.fixedHeader serial) = some ⟨m.body.byteorder, m.typ, m.flags, 1,
      UInt32.ofNat m.body.buf.length, serial.val⟩
  /-- The tuple and variant decoders invert the encoder, wherever the field stands. -/
  unmarshalField_marshalField : ∀ (bo : ByteOrder) (code : UInt8) (var : HdrVar)
    (pre post : Bytes), var.Writable R →
    R.unmarshalField bo (marshalField bo code var pre ++ post) pre.length =
      .ok ((marshalField bo code var pre).length - pre.length, code, var)
  /-- `align_offset` accepts zero padding. -/
  alignOffset_alignTo : ∀ pre post : Bytes,
    R.alignOffset 8 (Wire.alignTo 8 pre ++ post) pre.length =
      .ok ((Wire.alignTo 8 pre).length - pre.length)
  /-- `parse_description` accepts valid signatures only, which have at most 255 bytes. -/
  parseDescription_valid : ∀ (s : Str) (types : List Str), R.parseDescription s = .ok types →
    R.validateSignature s = true ∧ (toUtf8 s).length ≤ 255
  /-- A signature that is not empty has a type. -/
  parseDescription_ne_nil : ∀ (s : Str) (types : List Str), R.parseDescription s = .ok types →
    s ≠ [] → types ≠ []
  /-- Every value occupies at least one byte. -/
  validateMarshalled_pos : ∀ (bo : ByteOrder) (offset : ℕ) (buf : Bytes) (typ : Str) (n : ℕ),
    R.validateMarshalled bo offset buf typ = .ok n → 0 < n

/-! ## The fields in the slots -/

/-- Store a list of fields. -/
def storeFields (slots : FieldSlots) : List (UInt8 × HdrVar) → Option FieldSlots
  | [] => some slots
  | (code, var) :: fields => (storeField slots code var).bind fun slots => storeFields slots fields

/-- The decoder loop reads back a list of fields that the encoder wrote.

**Proof sketch.** Induction on the fields: the decoder inverts the encoder of the first one, at
the offset where the encoder stood, and the rest of the array follows it in the buffer. -/
lemma unmarshalFields_marshalFields {R : Rustbus} (hR : R.Conforms) (bo : ByteOrder)
    (fields : List (UInt8 × HdrVar)) (pre post : Bytes) (len arrayUsed fuel : ℕ)
    (slots slots' : FieldSlots) (hwrite : ∀ f ∈ fields, f.2.Writable R)
    (hlen : len = arrayUsed + ((marshalFields bo fields pre).length - pre.length))
    (hfuel : len - arrayUsed ≤ fuel) (hstore : storeFields slots fields = some slots') :
    unmarshalFields R bo (marshalFields bo fields pre ++ post) len fuel pre.length arrayUsed
      slots = .ok ((marshalFields bo fields pre).length, len, slots') := by
  induction fields generalizing pre arrayUsed slots with
  | nil =>
    simp only [storeFields, Option.some.injEq] at hstore
    have hused : len = arrayUsed := by simpa [marshalFields] using hlen
    rw [unmarshalFields_done _ _ _ _ _ _ _ _ (by omega), hused, hstore]
    rfl
  | cons f fields ih =>
    obtain ⟨code, var⟩ := f
    obtain ⟨slots₁, hslots₁, hrest⟩ := Option.bind_eq_some_iff.mp hstore
    obtain ⟨g, hg⟩ := appends_marshalFields bo fields
    -- the field is followed by the rest of the array and what stands behind it
    have hbuf : marshalFields bo ((code, var) :: fields) pre =
        marshalFields bo fields (marshalField bo code var pre) := rfl
    have hfield : R.unmarshalField bo (marshalFields bo ((code, var) :: fields) pre ++ post)
        pre.length = .ok ((marshalField bo code var pre).length - pre.length, code, var) := by
      rw [hbuf, hg, List.append_assoc]
      exact hR.unmarshalField_marshalField bo code var pre _ (hwrite (code, var) (by simp))
    have hpos := R.unmarshalField_pos _ _ _ _ _ _ hfield
    have hle : (marshalField bo code var pre).length ≤
        (marshalFields bo fields (marshalField bo code var pre)).length := by
      rw [hg, List.length_append]
      omega
    rw [hbuf] at hlen hfield ⊢
    rw [unmarshalFields_step R bo _ len fuel pre.length arrayUsed _ slots slots₁ code var
      (by omega) hfuel hfield hslots₁,
      show pre.length + ((marshalField bo code var pre).length - pre.length) =
        (marshalField bo code var pre).length by omega]
    exact ih (marshalField bo code var pre) _ slots₁ (fun f hf => hwrite f (by simp [hf]))
      (by omega) (by omega) hrest

namespace MarshalledMessage

/-! ## The header that comes back -/

/-- The header that the decoder returns for an encoded message, before the serial is set: the
fields of the message, with the signature and the number of descriptors of its body. -/
def decodedHeader (m : MarshalledMessage) : DynamicHeader :=
  { m.dynheader with
    serial := none
    signature := if m.body.buf ≠ [] then some m.body.sig else none
    numFds := if UInt32.ofNat m.body.rawFds.length ≠ 0 then
      some (UInt32.ofNat m.body.rawFds.length) else none }

/-- The slots of an encoded message. -/
def headerSlots (m : MarshalledMessage) : FieldSlots := fun i =>
  match i with
  | 0 => none
  | 1 => (m.dynheader.object.bind fun s => (ObjectPath.fromStr s).toOption).map HdrVar.path
  | 2 => m.dynheader.interface.map HdrVar.str
  | 3 => m.dynheader.member.map HdrVar.str
  | 4 => m.dynheader.errorName.map HdrVar.str
  | 5 => m.dynheader.responseSerial.map fun n => HdrVar.u32 n.val
  | 6 => m.dynheader.destination.map HdrVar.str
  | 7 => m.dynheader.sender.map HdrVar.str
  | 8 => if m.body.buf ≠ [] then some (HdrVar.sig m.body.sig) else none
  | 9 => if UInt32.ofNat m.body.rawFds.length ≠ 0 then
      some (HdrVar.u32 (UInt32.ofNat m.body.rawFds.length)) else none

end MarshalledMessage

/-- Store an optional field. -/
private lemma storeFields_toList (slots : FieldSlots) (code : UInt8) (h : code.toNat < 10)
    (var : Option HdrVar) (hslot : slots ⟨code.toNat, h⟩ = none)
    (rest : List (UInt8 × HdrVar)) :
    storeFields slots ((var.map fun v => (code, v)).toList ++ rest) =
      storeFields (Function.update slots ⟨code.toNat, h⟩ var) rest := by
  cases var with
  | none =>
    have hupd : Function.update slots ⟨code.toNat, h⟩ none = slots := by
      rw [← hslot, Function.update_eq_self]
    simp [hupd]
  | some v => simp [storeFields, storeField, h]

/-- The present fields of a message, as the occupied slots in order. -/
private lemma headerFields_eq (m : MarshalledMessage) : m.headerFields =
    ((m.headerSlots 1).map fun v => ((1 : UInt8), v)).toList ++
    (((m.headerSlots 2).map fun v => (2, v)).toList ++
    (((m.headerSlots 3).map fun v => (3, v)).toList ++
    (((m.headerSlots 4).map fun v => (4, v)).toList ++
    (((m.headerSlots 5).map fun v => (5, v)).toList ++
    (((m.headerSlots 6).map fun v => (6, v)).toList ++
    (((m.headerSlots 7).map fun v => (7, v)).toList ++
    (((m.headerSlots 8).map fun v => (8, v)).toList ++
    (((m.headerSlots 9).map fun v => (9, v)).toList ++ [])))))))) := by
  simp only [MarshalledMessage.headerFields, MarshalledMessage.headerSlots, Option.map_map,
    List.append_assoc, List.append_nil, Function.comp_def]
  split_ifs <;> rfl

/-- Storing the fields of a message fills its slots. -/
lemma MarshalledMessage.storeFields_headerFields (m : MarshalledMessage) :
    storeFields (fun _ => none) m.headerFields = some m.headerSlots := by
  rw [headerFields_eq]
  rw [storeFields_toList _ 1 (by decide) _ rfl]
  rw [storeFields_toList _ 2 (by decide) _ (by simp [Function.update])]
  rw [storeFields_toList _ 3 (by decide) _ (by simp [Function.update])]
  rw [storeFields_toList _ 4 (by decide) _ (by simp [Function.update])]
  rw [storeFields_toList _ 5 (by decide) _ (by simp [Function.update])]
  rw [storeFields_toList _ 6 (by decide) _ (by simp [Function.update])]
  rw [storeFields_toList _ 7 (by decide) _ (by simp [Function.update])]
  rw [storeFields_toList _ 8 (by decide) _ (by simp [Function.update])]
  rw [storeFields_toList _ 9 (by decide) _ (by simp [Function.update])]
  refine congrArg some (funext fun i => ?_)
  fin_cases i <;> rfl

/-- Reading an optional value back from its slot. -/
private lemma typedField_map {α : Type} (as : HdrVar → Option α) (var : α → HdrVar)
    (h : ∀ a, as (var a) = some a) (o : Option α) : typedField as (o.map var) = .ok o := by
  cases o with
  | none => rfl
  | some a => simp [typedField, h]

/-- Reading the object path back from its slot. -/
private lemma typedField_object (object : Option Str)
    (h : checkField validateObject object = true) :
    typedField HdrVar.asPath ((object.bind fun s => (ObjectPath.fromStr s).toOption).map
      HdrVar.path) = .ok object := by
  cases object with
  | none => rfl
  | some s =>
    cases hs : ObjectPath.fromStr s with
    | ok p =>
      have hp := (ObjectPath.fromStr_eq_ok_iff s p).mp hs
      simp [hs, Except.toOption, typedField, HdrVar.asPath, hp]
    | error e => simp [checkField, validateObject, hs] at h

/-- The slots of a message hold its decoded header.

**Proof sketch.** Each slot holds its field or nothing and is read back as such; the object is
checked on the way, which it passes since the names are valid. The header that results is validated,
which is the check of the names and of the signature, if there is a body. -/
lemma MarshalledMessage.headerOfFields_headerSlots {R : Rustbus} (m : MarshalledMessage)
    (hnames : m.dynheader.validNames R = true)
    (hsig : m.body.buf ≠ [] → R.validateSignature m.body.sig = true) :
    headerOfFields R m.headerSlots = .ok m.decodedHeader := by
  have hvalid : m.decodedHeader.validate R = true := by
    simp only [DynamicHeader.validNames, DynamicHeader.validate, Bool.and_eq_true] at hnames ⊢
    refine ⟨hnames.1, ?_⟩
    by_cases hbuf : m.body.buf = []
    · simp [decodedHeader, hbuf, checkField]
    · simpa [decodedHeader, hbuf, checkField] using hsig hbuf
  have hobject : checkField validateObject m.dynheader.object = true := by
    simp only [DynamicHeader.validNames, DynamicHeader.validate, Bool.and_eq_true] at hnames
    exact hnames.1.1.1.1.1.2
  have hserial : ∀ o : Option NonZeroU32,
      typedField HdrVar.asSerial (o.map fun n => HdrVar.u32 n.val) = .ok o :=
    typedField_map _ _ NonZeroU32.new_val
  have hslot8 : typedField HdrVar.asSig (m.headerSlots 8) = .ok m.decodedHeader.signature := by
    by_cases hbuf : m.body.buf = [] <;> simp [headerSlots, decodedHeader, hbuf, typedField,
      HdrVar.asSig]
  have hslot9 : typedField HdrVar.asU32 (m.headerSlots 9) = .ok m.decodedHeader.numFds := by
    by_cases hfds : UInt32.ofNat m.body.rawFds.length = 0 <;> simp [headerSlots, decodedHeader,
      hfds, typedField, HdrVar.asU32]
  have hstr : ∀ o : Option Str, typedField HdrVar.asStr (o.map HdrVar.str) = .ok o :=
    typedField_map _ _ fun _ => rfl
  have hslot1 : typedField HdrVar.asPath (m.headerSlots 1) = .ok m.dynheader.object :=
    typedField_object _ hobject
  have hslot5 : typedField HdrVar.asSerial (m.headerSlots 5) = .ok m.dynheader.responseSerial :=
    hserial _
  simp only [headerOfFields, hslot1, hslot5, hslot8, hslot9,
    show m.headerSlots 2 = m.dynheader.interface.map HdrVar.str from rfl,
    show m.headerSlots 3 = m.dynheader.member.map HdrVar.str from rfl,
    show m.headerSlots 4 = m.dynheader.errorName.map HdrVar.str from rfl,
    show m.headerSlots 6 = m.dynheader.destination.map HdrVar.str from rfl,
    show m.headerSlots 7 = m.dynheader.sender.map HdrVar.str from rfl, hstr, Bind.bind,
    Except.bind]
  exact if_pos hvalid

/-! ## Texts fit -/

/-- The text inside a path or string value. -/
def HdrVar.text : HdrVar → Str
  | .path p => p.inner
  | .str s => s
  | _ => []

/-- A field is at least as long as its text.

**Proof sketch.** By the kind of the value. Paths and strings write their text, and a padding only
adds to the length; of the other values the text counts as empty, and marshalling appends. -/
private lemma le_length_marshalField (bo : ByteOrder) (code : UInt8) (var : HdrVar)
    (buf : Bytes) :
    buf.length + (toUtf8 var.text).length ≤ (marshalField bo code var buf).length := by
  have h8 := le_alignNum buf.length 8
  have h4 := fun n => le_alignNum n 4
  cases var with
  | path p =>
    have := h4 (Wire.marshalSignature ['o'] (Wire.alignTo 8 buf ++ [code])).length
    simp only [marshalField, HdrVar.marshalValue, HdrVar.signatureText, HdrVar.text,
      Wire.marshalStr, Wire.marshalU32, List.length_append, Wire.length_alignTo,
      Wire.marshalSignature] at this ⊢
    omega
  | str s =>
    have := h4 (Wire.marshalSignature ['s'] (Wire.alignTo 8 buf ++ [code])).length
    simp only [marshalField, HdrVar.marshalValue, HdrVar.signatureText, HdrVar.text,
      Wire.marshalStr, Wire.marshalU32, List.length_append, Wire.length_alignTo,
      Wire.marshalSignature] at this ⊢
    omega
  | u32 n =>
    obtain ⟨f, hf⟩ := appends_marshalField bo code (.u32 n)
    simp [hf, HdrVar.text, toUtf8]
  | sig s =>
    obtain ⟨f, hf⟩ := appends_marshalField bo code (.sig s)
    simp [hf, HdrVar.text, toUtf8]
  | catchall s =>
    obtain ⟨f, hf⟩ := appends_marshalField bo code (.catchall s)
    simp [hf, HdrVar.text, toUtf8]

/-- The field array is at least as long as every text in it. -/
private lemma le_length_marshalFields (bo : ByteOrder) (fields : List (UInt8 × HdrVar))
    (buf : Bytes) (f : UInt8 × HdrVar) (hf : f ∈ fields) :
    buf.length + (toUtf8 f.2.text).length ≤ (marshalFields bo fields buf).length := by
  induction fields generalizing buf with
  | nil => simp at hf
  | cons g fields ih =>
    obtain ⟨h, hh⟩ := appends_marshalFields bo fields
    have hcons : marshalFields bo (g :: fields) buf =
        marshalFields bo fields (marshalField bo g.1 g.2 buf) := rfl
    have hle := le_length_marshalField bo g.1 g.2 buf
    rw [hcons]
    rcases List.mem_cons.mp hf with rfl | hmem
    · rw [hh, List.length_append]
      omega
    · have := ih (marshalField bo g.1 g.2 buf) hmem
      omega

/-- The fields of a message whose field array is shorter than `2 ^ 32` bytes can be read
back.

**Proof sketch.** Each field of the message is one of the nine optional ones. Its text is no longer
than the array of fields (`le_length_marshalFields`), so its length fits; the signature is the one
of the body, for which `hsig` gives the conditions. -/
lemma MarshalledMessage.headerFields_writable {R : Rustbus} (m : MarshalledMessage)
    (hlen : m.fieldBytes.length < 2 ^ 32)
    (hsig : m.body.buf ≠ [] → R.validateSignature m.body.sig = true ∧
      (toUtf8 m.body.sig).length ≤ 255) :
    ∀ f ∈ m.headerFields, f.2.Writable R := by
  intro f hf
  have htext := le_length_marshalFields m.body.byteorder m.headerFields
    (List.replicate 16 0) f hf
  rw [m.marshalFields_headerFields (by simp), List.length_append] at htext
  simp only [headerFields, List.mem_append, Option.mem_toList,
    Option.map_eq_some_iff] at hf
  rcases hf with (((((((⟨p, -, rfl⟩ | ⟨s, -, rfl⟩) | ⟨s, -, rfl⟩) | ⟨s, -, rfl⟩) |
    ⟨n, -, rfl⟩) | ⟨s, -, rfl⟩) | ⟨s, -, rfl⟩) | hsigf) | hfdf
  case inr =>
    split_ifs at hfdf
    · rw [List.mem_singleton.mp hfdf]
      trivial
    · simp at hfdf
  case inl.inr =>
    split_ifs at hsigf with hbuf
    · rw [List.mem_singleton.mp hsigf]
      exact ⟨Nat.lt_succ_of_le (hsig hbuf).2, (hsig hbuf).1⟩
    · simp at hsigf
  all_goals simp only [HdrVar.Writable, HdrVar.text] at htext ⊢
  all_goals omega

/-! ## The round trip -/

/-- **Header round trip.**  Decoding an encoded header gives the fields of the message back and
uses up the header.

**Proof sketch.** The array length is read behind the fixed header; the fields follow it at the
offset where the encoder wrote them, so the loop stores exactly the fields of the message; the
slots hold the decoded header, and the padding is skipped. -/
theorem MarshalledMessage.unmarshal_headerBytes {R : Rustbus} (hR : R.Conforms)
    (m : MarshalledMessage) (serial : NonZeroU32) (hnames : m.dynheader.validNames R = true)
    (hlen : m.fieldBytes.length < 2 ^ 32)
    (hsig : m.body.buf ≠ [] → R.validateSignature m.body.sig = true ∧
      (toUtf8 m.body.sig).length ≤ 255) :
    DynamicHeader.unmarshal R m.body.byteorder (m.headerBytes serial) 12 =
      .ok ((m.headerBytes serial).length - 12, m.decodedHeader) := by
  obtain ⟨bo, hbo⟩ : ∃ bo, bo = m.body.byteorder := ⟨_, rfl⟩
  obtain ⟨len, hlen'⟩ : ∃ len, len = UInt32.ofNat m.fieldBytes.length := ⟨_, rfl⟩
  have htoNat : len.toNat = m.fieldBytes.length := by
    rw [hlen', UInt32.toNat_ofNat']
    exact Nat.mod_eq_of_lt hlen
  obtain ⟨pre, hpre⟩ : ∃ pre, pre = m.fixedHeader serial ++ u32ToBytes bo len := ⟨_, rfl⟩
  have hpre16 : pre.length = 16 := by simp [hpre]
  have harray : marshalFields bo m.headerFields pre = pre ++ m.fieldBytes := by
    rw [hbo, m.marshalFields_headerFields hpre16]
  have hbytes : m.headerBytes serial = Wire.alignTo 8 (marshalFields bo m.headerFields pre) := by
    rw [harray, headerBytes, hpre, hlen', hbo]
  have hread : Wire.readU32 bo (m.headerBytes serial) 12 = some (len, 16) := by
    have h := Wire.readU32_marshalU32 bo len (m.fixedHeader serial)
      (m.fieldBytes ++ Wire.padding 8 (pre ++ m.fieldBytes).length)
    rw [m.marshalU32_fixedHeader, m.length_fixedHeader, ← hpre, hpre16] at h
    rw [hbytes, harray, Wire.alignTo, List.append_assoc]
    exact h
  have hend : alignNum (16 + len.toNat) 8 = (m.headerBytes serial).length := by
    rw [hbytes, harray, Wire.length_alignTo, List.length_append, hpre16, htoNat]
  have hloop : unmarshalFields R bo (m.headerBytes serial) len.toNat len.toNat 16 0
      (fun _ => none) =
        .ok ((marshalFields bo m.headerFields pre).length, len.toNat, m.headerSlots) := by
    have h := unmarshalFields_marshalFields hR bo m.headerFields pre
      (Wire.padding 8 (marshalFields bo m.headerFields pre).length) len.toNat 0 len.toNat
      (fun _ => none) m.headerSlots (m.headerFields_writable hlen hsig)
      (by rw [harray, List.length_append, htoNat]; omega) (by omega)
      m.storeFields_headerFields
    rw [hpre16] at h
    rw [hbytes]
    exact h
  have hpad := hR.alignOffset_alignTo (marshalFields bo m.headerFields pre) []
  rw [List.append_nil] at hpad
  have hle : (marshalFields bo m.headerFields pre).length ≤ (m.headerBytes serial).length := by
    rw [hbytes, Wire.length_alignTo]
    exact le_alignNum _ _
  have hslots := m.headerOfFields_headerSlots hnames fun hbuf => (hsig hbuf).1
  have hused : (marshalFields bo m.headerFields pre).length + ((m.headerBytes serial).length -
      (marshalFields bo m.headerFields pre).length) - 12 = (m.headerBytes serial).length - 12 := by
    omega
  rw [← hbytes] at hpad
  rw [← hbo]
  simp only [DynamicHeader.unmarshal, hread, hend, gt_iff_lt, Nat.lt_irrefl, if_false, hloop,
    ne_eq, not_true_eq_false, hslots, hpad, hused]

end AsyncRustbus
