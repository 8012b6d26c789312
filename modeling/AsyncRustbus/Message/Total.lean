import AsyncRustbus.Message.Reference

set_option relaxedAutoImplicit false
set_option autoImplicit false

/-!
# Where header decoding is total

The fields of a header come from the other side of the connection, their codes included.  A
decoder that skips the fields it does not know is total; `DynamicHeader::unmarshal` stores every
field in an array of ten slots, so it agrees with that decoder exactly as long as no field it
reads has a code above nine.

## Main definitions

* `AsyncRustbus.readFields`, `AsyncRustbus.storeKnown` — the fields of the array, and the slots
  filled with the fields whose codes are known.
* `DynamicHeader.decodeSkipping` — the decoder that skips unknown fields.
* `AsyncRustbus.headerFieldCodes` — the codes of the fields that the loop reads.

## Main results

* `DynamicHeader.unmarshal_total_iff` — where the two agree.
-/

namespace AsyncRustbus

/-! ## Skipping what is unknown -/

/-- The fields of an array of `len` bytes, read one after the other. -/
def readFields (R : Rustbus) (bo : ByteOrder) (buf : Bytes) (len : ℕ) :
    ℕ → ℕ → ℕ → Except UnmarshalError (ℕ × ℕ × List (UInt8 × HdrVar))
  | 0, offset, arrayUsed => .ok (offset, arrayUsed, [])
  | fuel + 1, offset, arrayUsed =>
    if arrayUsed < len then
      match R.unmarshalField bo buf offset with
      | .error e => .error e
      | .ok (used, idx, var) =>
        match readFields R bo buf len fuel (offset + used) (arrayUsed + used) with
        | .error e => .error e
        | .ok (offset, arrayUsed, fields) => .ok (offset, arrayUsed, (idx, var) :: fields)
    else .ok (offset, arrayUsed, [])

/-- The slots after the fields with known codes were stored, in order. -/
def storeKnown (slots : FieldSlots) (fields : List (UInt8 × HdrVar)) : FieldSlots :=
  (fields.filter (·.1 ≤ 9)).foldl (fun slots f => (storeField slots f.1 f.2).getD slots) slots

/-- The decoder that skips the fields it does not know.  It has no way to panic. -/
def DynamicHeader.decodeSkipping (R : Rustbus) (bo : ByteOrder) (buf : Bytes) (start : ℕ) :
    Except UnmarshalError (ℕ × DynamicHeader) :=
  match Wire.readU32 bo buf start with
  | none => .error .notEnoughBytes
  | some (len, offset) =>
    if alignNum (offset + len.toNat) 8 > buf.length then .error .notEnoughBytes
    else
      match readFields R bo buf len.toNat len.toNat offset 0 with
      | .error e => .error e
      | .ok (offset, arrayUsed, fields) =>
        if arrayUsed ≠ len.toNat then .error .notEnoughBytesForCollection
        else
          match headerOfFields R (storeKnown (fun _ => none) fields) with
          | .error e => .error e
          | .ok ret =>
            match R.alignOffset 8 buf offset with
            | .error e => .error e
            | .ok pad => .ok (offset + pad - start, ret)

/-- A result as the outcome of a call that does not panic. -/
def Res.ofExcept {ε α : Type} : Except ε α → Res ε α
  | .ok a => .ok a
  | .error e => .err e

/-! ## The codes that are read -/

/-- The codes of the well-formed fields that the array starts with: the fields the loop gets to
read. -/
def fieldCodes (R : Rustbus) (bo : ByteOrder) (buf : Bytes) (len : ℕ) : ℕ → ℕ → ℕ → List UInt8
  | 0, _, _ => []
  | fuel + 1, offset, arrayUsed =>
    if arrayUsed < len then
      match R.unmarshalField bo buf offset with
      | .error _ => []
      | .ok (used, idx, _) =>
        idx :: fieldCodes R bo buf len fuel (offset + used) (arrayUsed + used)
    else []

/-- The codes of the fields that are read of a header at `start`. -/
def headerFieldCodes (R : Rustbus) (bo : ByteOrder) (buf : Bytes) (start : ℕ) : List UInt8 :=
  match Wire.readU32 bo buf start with
  | none => []
  | some (len, offset) =>
    if alignNum (offset + len.toNat) 8 > buf.length then []
    else fieldCodes R bo buf len.toNat len.toNat offset 0

/-! ## The loop -/

/-- A field with a known code is stored. -/
lemma storeField_of_le (slots : FieldSlots) {idx : UInt8} (h : idx ≤ 9) (var : HdrVar) :
    ∃ slots', storeField slots idx var = some slots' := by
  have hlt : idx.toNat < 10 := Nat.lt_succ_of_le (UInt8.le_iff_toNat_le.mp h)
  exact ⟨_, by rw [storeField, dif_pos hlt]⟩

/-- A field with an unknown code is out of bounds. -/
lemma storeField_of_not_le (slots : FieldSlots) {idx : UInt8} (h : ¬ idx ≤ 9) (var : HdrVar) :
    storeField slots idx var = none := by
  have hlt : ¬ idx.toNat < 10 := fun hlt => h (UInt8.le_iff_toNat_le.mpr (Nat.le_of_lt_succ hlt))
  rw [storeField, dif_neg hlt]

/-- A known field is stored in front of the others. -/
lemma storeKnown_cons {slots slots' : FieldSlots} {idx : UInt8} {var : HdrVar} (h : idx ≤ 9)
    (hstore : storeField slots idx var = some slots') (fields : List (UInt8 × HdrVar)) :
    storeKnown slots ((idx, var) :: fields) = storeKnown slots' fields := by
  simp [storeKnown, h, hstore]

/-- **The loop** reads the fields and stores them, as long as all the codes it reads are known.

**Proof sketch.** Induction on the fuel, which is on the passes of the loop: one pass reads the
field that `readFields` reads and stores it where `storeKnown` does. -/
lemma unmarshalFields_of_known (R : Rustbus) (bo : ByteOrder) (buf : Bytes) (len fuel offset
    arrayUsed : ℕ) (slots : FieldSlots)
    (h : ∀ code ∈ fieldCodes R bo buf len fuel offset arrayUsed, code ≤ 9) :
    unmarshalFields R bo buf len fuel offset arrayUsed slots =
      match readFields R bo buf len fuel offset arrayUsed with
      | .error e => .err e
      | .ok (offset, arrayUsed, fields) => .ok (offset, arrayUsed, storeKnown slots fields) := by
  induction fuel generalizing offset arrayUsed slots with
  | zero => rfl
  | succ fuel ih =>
    simp only [unmarshalFields, readFields]
    simp only [fieldCodes] at h
    split_ifs at h ⊢ with hlt
    · cases hfield : R.unmarshalField bo buf offset with
      | error e => rfl
      | ok r =>
        obtain ⟨used, idx, var⟩ := r
        simp only [hfield, List.forall_mem_cons] at h ⊢
        obtain ⟨slots', hstore⟩ := storeField_of_le slots h.1 var
        rw [hstore]
        simp only [ih _ _ slots' h.2]
        cases readFields R bo buf len fuel (offset + used) (arrayUsed + used) with
        | error e => rfl
        | ok r => simp only [storeKnown_cons h.1 hstore]
    · rfl

/-- The loop panics at the first unknown code. -/
lemma unmarshalFields_of_unknown (R : Rustbus) (bo : ByteOrder) (buf : Bytes) (len fuel offset
    arrayUsed : ℕ) (slots : FieldSlots)
    (h : ¬ ∀ code ∈ fieldCodes R bo buf len fuel offset arrayUsed, code ≤ 9) :
    unmarshalFields R bo buf len fuel offset arrayUsed slots = .panic := by
  induction fuel generalizing offset arrayUsed slots with
  | zero => simp [fieldCodes] at h
  | succ fuel ih =>
    simp only [unmarshalFields]
    simp only [fieldCodes] at h
    split_ifs at h ⊢ with hlt
    · cases hfield : R.unmarshalField bo buf offset with
      | error e => simp [hfield] at h
      | ok r =>
        obtain ⟨used, idx, var⟩ := r
        simp only [hfield, List.forall_mem_cons, not_and] at h ⊢
        by_cases hidx : idx ≤ 9
        · obtain ⟨slots', hstore⟩ := storeField_of_le slots hidx var
          rw [hstore]
          exact ih _ _ slots' (h hidx)
        · rw [storeField_of_not_le slots hidx]
    · simp at h

/-! ## The decoder -/

/-- The decoder that skips unknown fields does not panic. -/
lemma Res.ofExcept_ne_panic {ε α : Type} (r : Except ε α) : Res.ofExcept r ≠ .panic := by
  cases r <;> simp [Res.ofExcept]

/-- The decoder, where all the codes it reads are known.

**Proof sketch.** The decoder stores the fields that it reads, and with known codes the store never
fails (`unmarshalFields_of_known`), so it does what reading all fields and then storing them does.
What follows is the same on both sides. -/
private lemma unmarshal_of_known (R : Rustbus) (bo : ByteOrder) (buf : Bytes) (start : ℕ)
    (h : ∀ code ∈ headerFieldCodes R bo buf start, code ≤ 9) :
    DynamicHeader.unmarshal R bo buf start =
      .ofExcept (DynamicHeader.decodeSkipping R bo buf start) := by
  unfold headerFieldCodes at h
  unfold DynamicHeader.unmarshal DynamicHeader.decodeSkipping
  cases hlen : Wire.readU32 bo buf start with
  | none => rfl
  | some r =>
    obtain ⟨len, offset⟩ := r
    simp only [hlen] at h ⊢
    split_ifs at h ⊢ with hend
    · rfl
    · rw [unmarshalFields_of_known R bo buf _ _ _ _ _ h]
      cases readFields R bo buf len.toNat len.toNat offset 0 with
      | error e => rfl
      | ok r =>
        obtain ⟨offset', arrayUsed, fields⟩ := r
        dsimp only
        split_ifs with hused
        · rfl
        · cases headerOfFields R (storeKnown (fun _ => none) fields) with
          | error e => rfl
          | ok ret =>
            dsimp only
            cases R.alignOffset 8 buf offset' with
            | error e => rfl
            | ok pad => rfl

/-- The decoder, where it reads an unknown code. -/
private lemma unmarshal_of_unknown (R : Rustbus) (bo : ByteOrder) (buf : Bytes) (start : ℕ)
    (h : ¬ ∀ code ∈ headerFieldCodes R bo buf start, code ≤ 9) :
    DynamicHeader.unmarshal R bo buf start = .panic := by
  unfold headerFieldCodes at h
  unfold DynamicHeader.unmarshal
  cases hlen : Wire.readU32 bo buf start with
  | none => simp [hlen] at h
  | some r =>
    obtain ⟨len, offset⟩ := r
    simp only [hlen] at h ⊢
    split_ifs at h ⊢ with hend
    · simp at h
    · rw [unmarshalFields_of_unknown R bo buf _ _ _ _ _ h]

/-- **Where header decoding is total.**  For every byte order and every buffer, the loop over the
fields ends after at most as many passes as the array has bytes, and `DynamicHeader::unmarshal`
returns what the decoder that skips unknown fields returns, and so does not panic, exactly when
no field it reads has a code above nine. -/
theorem DynamicHeader.unmarshal_total_iff (R : Rustbus) (bo : ByteOrder) (buf : Bytes)
    (start : ℕ) :
    (∀ len fuel offset : ℕ, len ≤ fuel →
      unmarshalFields R bo buf len fuel offset 0 (fun _ => none) =
        unmarshalFields R bo buf len len offset 0 fun _ => none) ∧
    (DynamicHeader.unmarshal R bo buf start =
        .ofExcept (DynamicHeader.decodeSkipping R bo buf start) ↔
      ∀ code ∈ headerFieldCodes R bo buf start, code ≤ 9) := by
  refine ⟨?_, ?_, unmarshal_of_known R bo buf start⟩
  · intro len fuel offset hfuel
    exact unmarshalFields_fuel R bo buf len fuel len offset 0 _ (by omega) (by omega)
  · intro htotal
    by_contra hunknown
    rw [unmarshal_of_unknown R bo buf start hunknown] at htotal
    exact Res.ofExcept_ne_panic _ htotal.symm

/-- A little-endian header with the field `10` of type UINT32, and nothing else. -/
def unknownFieldHeader : Bytes :=
  [108, 1, 0, 1, 0, 0, 0, 0, 1, 0, 0, 0, 8, 0, 0, 0, 10, 1, 117, 0, 0, 0, 0, 0]

/-- The field `10` of a well-formed value makes the decoder panic instead of being skipped. -/
theorem unmarshal_unknown_field_panics :
    ¬ ∀ (R : Rustbus) (bo : ByteOrder) (buf : Bytes) (start : ℕ),
      DynamicHeader.unmarshal R bo buf start =
        .ofExcept (DynamicHeader.decodeSkipping R bo buf start) := by
  intro h
  have hpanic :
      DynamicHeader.unmarshal .reference .littleEndian unknownFieldHeader 12 = .panic := by
    decide
  rw [h] at hpanic
  exact Res.ofExcept_ne_panic _ hpanic

end AsyncRustbus
