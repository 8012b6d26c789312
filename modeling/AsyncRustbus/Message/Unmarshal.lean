import AsyncRustbus.Message.Marshal

set_option relaxedAutoImplicit false
set_option autoImplicit false

/-!
# Decoding headers (`<DynamicHeader as Unmarshal>::unmarshal`)

The decoder reads the length of the field array, collects the fields in an array of ten slots,
and turns the slots into a header.  A field code above nine is out of the bounds of that array:
the code panics there.

## Main definitions

* `AsyncRustbus.unmarshalFields` — the loop over the fields.
* `AsyncRustbus.headerOfFields` — the header in the ten slots.
* `AsyncRustbus.DynamicHeader.unmarshal` — the decoder.

## Main results

* `AsyncRustbus.unmarshalFields_step` — one pass of the loop, without fuel.
* `AsyncRustbus.headerOfFields_validate` — a decoded header passes `validate`.
-/

namespace AsyncRustbus

/-! ## The slots -/

/-- `[Option<HdrVar>; 10]`. -/
abbrev FieldSlots := Fin 10 → Option HdrVar

/-- `fields[idx as usize] = Some(var)`, unless `idx` is out of bounds. -/
def storeField (fields : FieldSlots) (idx : UInt8) (var : HdrVar) : Option FieldSlots :=
  if h : idx.toNat < 10 then some (Function.update fields ⟨idx.toNat, h⟩ (some var)) else none

/-- The loop of the decoder: it runs until `len` bytes of the array are used, and returns the
offset, the bytes used and the slots.  Every field uses at least one byte, so `len` is fuel
enough. -/
def unmarshalFields (R : Rustbus) (bo : ByteOrder) (buf : Bytes) (len : ℕ) :
    ℕ → ℕ → ℕ → FieldSlots → Res UnmarshalError (ℕ × ℕ × FieldSlots)
  | 0, offset, arrayUsed, fields => .ok (offset, arrayUsed, fields)
  | fuel + 1, offset, arrayUsed, fields =>
    if arrayUsed < len then
      match R.unmarshalField bo buf offset with
      | .error e => .err e
      | .ok (used, idx, var) =>
        match storeField fields idx var with
        | none => .panic -- index out of bounds
        | some fields =>
          unmarshalFields R bo buf len fuel (offset + used) (arrayUsed + used) fields
    else .ok (offset, arrayUsed, fields)

/-- More fuel than the bytes left changes nothing.

**Proof sketch.** By induction on the fuel. A field takes at least one byte (`unmarshalField_pos`),
so the fuel that is left still covers the bytes left. -/
lemma unmarshalFields_fuel (R : Rustbus) (bo : ByteOrder) (buf : Bytes) (len : ℕ)
    (fuel fuel' offset arrayUsed : ℕ) (fields : FieldSlots) (h : len - arrayUsed ≤ fuel)
    (h' : len - arrayUsed ≤ fuel') :
    unmarshalFields R bo buf len fuel offset arrayUsed fields =
      unmarshalFields R bo buf len fuel' offset arrayUsed fields := by
  induction fuel generalizing fuel' offset arrayUsed fields with
  | zero =>
    have hge : ¬ arrayUsed < len := by omega
    cases fuel' <;> simp [unmarshalFields, hge]
  | succ fuel ih =>
    cases fuel' with
    | zero =>
      have hge : ¬ arrayUsed < len := by omega
      simp [unmarshalFields, hge]
    | succ fuel' =>
      simp only [unmarshalFields]
      split_ifs with hlt
      · cases hfield : R.unmarshalField bo buf offset with
        | error e => rfl
        | ok r =>
          obtain ⟨used, idx, var⟩ := r
          have hpos := R.unmarshalField_pos bo buf offset used idx var hfield
          dsimp only
          cases storeField fields idx var with
          | none => rfl
          | some fields' =>
            exact ih fuel' (offset + used) (arrayUsed + used) fields' (by omega) (by omega)
      · rfl

/-- One pass of the loop: a field is read and stored. -/
theorem unmarshalFields_step (R : Rustbus) (bo : ByteOrder) (buf : Bytes) (len fuel offset
    arrayUsed used : ℕ) (fields fields' : FieldSlots) (idx : UInt8) (var : HdrVar)
    (hlt : arrayUsed < len) (hfuel : len - arrayUsed ≤ fuel)
    (hfield : R.unmarshalField bo buf offset = .ok (used, idx, var))
    (hstore : storeField fields idx var = some fields') :
    unmarshalFields R bo buf len fuel offset arrayUsed fields =
      unmarshalFields R bo buf len fuel (offset + used) (arrayUsed + used) fields' := by
  have hpos := R.unmarshalField_pos bo buf offset used idx var hfield
  rw [unmarshalFields_fuel R bo buf len fuel (fuel + 1) offset arrayUsed fields hfuel (by omega)]
  simp only [unmarshalFields, if_pos hlt, hfield, hstore]

/-- The loop ends when the array is used up. -/
lemma unmarshalFields_done (R : Rustbus) (bo : ByteOrder) (buf : Bytes) (len fuel offset
    arrayUsed : ℕ) (fields : FieldSlots) (hge : len ≤ arrayUsed) :
    unmarshalFields R bo buf len fuel offset arrayUsed fields =
      .ok (offset, arrayUsed, fields) := by
  cases fuel <;> simp [unmarshalFields, Nat.not_lt.mpr hge]

/-! ## From slots to a header -/

namespace HdrVar

/-- The text of `HdrVar::Path`. -/
def asPath : HdrVar → Option Str
  | .path p => some p.inner
  | _ => none

/-- The text of `HdrVar::Str`. -/
def asStr : HdrVar → Option Str
  | .str s => some s
  | _ => none

/-- The number of `HdrVar::U32`. -/
def asU32 : HdrVar → Option UInt32
  | .u32 n => some n
  | _ => none

/-- The number of `HdrVar::U32`, if it is not zero. -/
def asSerial : HdrVar → Option NonZeroU32
  | .u32 n => NonZeroU32.new n
  | _ => none

/-- The text of `HdrVar::Sig`. -/
def asSig : HdrVar → Option Str
  | .sig s => some s
  | _ => none

end HdrVar

/-- An empty slot is an absent field; a slot with a value of another type is an error. -/
def typedField {α : Type} (as : HdrVar → Option α) :
    Option HdrVar → Except UnmarshalError (Option α)
  | none => .ok none
  | some var =>
    match as var with
    | some a => .ok (some a)
    | none => .error .invalidHeaderField

/-- The header in the slots, if every field has its type and `validate` accepts them. -/
def headerOfFields (R : Rustbus) (fields : FieldSlots) : Except UnmarshalError DynamicHeader := do
  let object ← typedField HdrVar.asPath (fields 1)
  let interface ← typedField HdrVar.asStr (fields 2)
  let member ← typedField HdrVar.asStr (fields 3)
  let errorName ← typedField HdrVar.asStr (fields 4)
  let responseSerial ← typedField HdrVar.asSerial (fields 5)
  let destination ← typedField HdrVar.asStr (fields 6)
  let sender ← typedField HdrVar.asStr (fields 7)
  let signature ← typedField HdrVar.asSig (fields 8)
  let numFds ← typedField HdrVar.asU32 (fields 9)
  let ret : DynamicHeader :=
    { interface, member, object, destination, serial := none, sender, signature, errorName,
      responseSerial, numFds }
  if ret.validate R then .ok ret else .error .invalidHeaderField

/-- A decoded header passes `validate`. -/
theorem headerOfFields_validate (R : Rustbus) (fields : FieldSlots) (d : DynamicHeader)
    (h : headerOfFields R fields = .ok d) : d.validate R = true := by
  simp only [headerOfFields, Bind.bind, Except.bind] at h
  repeat' split at h
  all_goals cases h
  assumption

/-- `DynamicHeader::unmarshal` at an offset: the bytes used and the header. -/
def DynamicHeader.unmarshal (R : Rustbus) (bo : ByteOrder) (buf : Bytes) (start : ℕ) :
    Res UnmarshalError (ℕ × DynamicHeader) :=
  match Wire.readU32 bo buf start with
  | none => .err .notEnoughBytes
  | some (len, offset) =>
    if alignNum (offset + len.toNat) 8 > buf.length then .err .notEnoughBytes
    else
      match unmarshalFields R bo buf len.toNat len.toNat offset 0 fun _ => none with
      | .err e => .err e
      | .panic => .panic
      | .ok (offset, arrayUsed, fields) =>
        if arrayUsed ≠ len.toNat then .err .notEnoughBytesForCollection
        else
          match headerOfFields R fields with
          | .error e => .err e
          | .ok ret =>
            match R.alignOffset 8 buf offset with
            | .error e => .err e
            | .ok pad => .ok (offset + pad - start, ret)

/-- A header that `unmarshal` returns passes `validate`. -/
lemma DynamicHeader.validate_of_unmarshal (R : Rustbus) (bo : ByteOrder) (buf : Bytes)
    (start used : ℕ) (d : DynamicHeader)
    (h : DynamicHeader.unmarshal R bo buf start = .ok (used, d)) : d.validate R = true := by
  simp only [DynamicHeader.unmarshal] at h
  repeat' split at h
  all_goals cases h
  exact headerOfFields_validate R _ _ ‹_›

end AsyncRustbus
