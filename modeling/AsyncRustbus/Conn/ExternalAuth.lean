import AsyncRustbus.Conn.Handshake
import Mathlib.Algebra.Divisibility.Basic

set_option relaxedAutoImplicit false
set_option autoImplicit false

/-!
# The request of the EXTERNAL authentication (`do_external_auth`)

The uid is sent as the hexadecimal encoding of its decimal text.  A first loop multiplies a power
of ten until it has the order of the leading digit, a second one divides it down again and peels
off a digit each time.  The multiplication is one of `u32`: a build with overflow checks panics
when it overflows, a build without them goes on with what is left modulo `2 ^ 32`.

## Main definitions

* `AsyncRustbus.orderLoop`, `AsyncRustbus.digitLoop` — the two loops.
* `AsyncRustbus.externalAuthLine` — the bytes that `do_external_auth` writes.
* `AsyncRustbus.hexEncode` — the hexadecimal encoding of bytes.
* `AsyncRustbus.SendsUid` — the right bytes are written, in every build.

## Main results

* `AsyncRustbus.orderLoop_returns` — the first loop always ends.
* `AsyncRustbus.digitLoop_eq` — the second loop writes the decimal text.
* `AsyncRustbus.sendsUid_iff` — the request is right exactly for uids below `10 ^ 9`.
-/

namespace AsyncRustbus

/-! ## The code -/

/-- `order * 10` on `u32`; `none` is the panic of a build with overflow checks. -/
def mulTen (overflowChecks : Bool) (order : UInt32) : Option UInt32 :=
  if overflowChecks ∧ order.toNat * 10 ≥ 2 ^ 32 then none else some (order * 10)

/-- The first loop, with fuel for its iterations: `none` when it is still running, a panic on an
overflow that is checked and on a division by zero. -/
def orderLoop (overflowChecks : Bool) (pid : UInt32) : ℕ → UInt32 → Option (Res Unit UInt32)
  | 0, _ => none
  | fuel + 1, order =>
    match mulTen overflowChecks order with
    | none => some .panic
    | some next =>
      if next = 0 then some .panic
      else if pid / next = 0 then some (.ok order)
      else orderLoop overflowChecks pid fuel next

/-- The second loop, which pushes the two hexadecimal characters of a digit in each iteration.
The subtraction and the product in it cannot overflow; `0x30 + digit as u8` could, which `none`
stands for. -/
def digitLoop (overflowChecks : Bool) (pid order : UInt32) : Option Bytes :=
  if 0 < order then
    let digit := pid / order
    if overflowChecks ∧ 0x30 + digit.toUInt8.toNat ≥ 256 then none
    else (digitLoop overflowChecks (pid - digit * order) (order / 10)).map
      ([0x33, 0x30 + digit.toUInt8] ++ ·)
  else some []
termination_by order.toNat
decreasing_by
  rename_i horder _
  have hpos : 0 < order.toNat := UInt32.lt_iff_toNat_lt.mp horder
  rw [UInt32.toNat_div]
  exact Nat.div_lt_self hpos (by decide)

/-- `b"AUTH EXTERNAL "`. -/
def authExternal : Bytes := toUtf8 "AUTH EXTERNAL ".toList

/-- The bytes that `do_external_auth` writes, with fuel for the first loop. -/
def externalAuthLine (overflowChecks : Bool) (fuel : ℕ) (pid : UInt32) :
    Option (Res Unit Bytes) :=
  match orderLoop overflowChecks pid fuel 1 with
  | none => none
  | some (.ok order) =>
    match digitLoop overflowChecks pid order with
    | none => some .panic
    | some digits => some (.ok (authExternal ++ digits ++ dbusLineEnd))
  | some _ => some .panic

/-! ## What is to be sent -/

/-- The character of a hexadecimal digit. -/
def hexDigit (n : ℕ) : UInt8 := UInt8.ofNat (Nat.digitChar n).toNat

/-- The hexadecimal encoding: two characters for each byte. -/
def hexEncode (b : Bytes) : Bytes :=
  b.flatMap fun x => [hexDigit (x.toNat / 16), hexDigit (x.toNat % 16)]

/-- **The request carries the uid**: in every build the loops return, and between the command and
the end of the line stands the hexadecimal encoding of the decimal text of the uid. -/
def SendsUid (uid : UInt32) : Prop :=
  ∀ overflowChecks, ∃ fuel, externalAuthLine overflowChecks fuel uid =
    some (.ok (authExternal ++ hexEncode (toUtf8 (Nat.toDigits 10 uid.toNat)) ++ dbusLineEnd))

/-! ## Decimal texts -/

/-- The `k + 1` last decimal digits of a number, from the highest to the lowest. -/
def paddedDigits : ℕ → ℕ → Str
  | 0, n => [n.digitChar]
  | k + 1, n => (n / 10 ^ (k + 1)).digitChar :: paddedDigits k (n % 10 ^ (k + 1))

/-- The lowest digit comes off the end. -/
lemma paddedDigits_succ (k n : ℕ) :
    paddedDigits (k + 1) n = paddedDigits k (n / 10) ++ [(n % 10).digitChar] := by
  induction k generalizing n with
  | zero => simp [paddedDigits]
  | succ k ih =>
    have hhigh : n / 10 / 10 ^ (k + 1) = n / 10 ^ (k + 2) := by
      rw [Nat.div_div_eq_div_mul, ← Nat.pow_succ']
    have hrest : n % 10 ^ (k + 2) / 10 = n / 10 % 10 ^ (k + 1) := by
      rw [Nat.pow_succ', Nat.mod_mul_right_div_self]
    have hlow : n % 10 ^ (k + 2) % 10 = n % 10 := by
      rw [Nat.mod_mod_of_dvd _ (dvd_pow_self 10 (by omega))]
    rw [paddedDigits, ih, paddedDigits, hhigh, hrest, hlow, List.cons_append]

/-- The decimal text of a number of `k + 1` digits. -/
lemma toDigits_eq_paddedDigits {k n : ℕ} (hlow : 10 ^ k ≤ n ∨ k = 0) (hhigh : n < 10 ^ (k + 1)) :
    Nat.toDigits 10 n = paddedDigits k n := by
  induction k generalizing n with
  | zero =>
    rw [Nat.toDigits_of_lt_base (by simpa using hhigh)]
    rfl
  | succ k ih =>
    have hle : 10 ^ (k + 1) ≤ n := hlow.resolve_right (by omega)
    have hten : 10 ≤ n := Nat.le_trans (Nat.le_self_pow (by omega) 10) hle
    have hlow' : 10 ^ k ≤ n / 10 := by
      rw [Nat.le_div_iff_mul_le (by decide), ← Nat.pow_succ]
      exact hle
    have hhigh' : n / 10 < 10 ^ (k + 1) := by
      rw [Nat.div_lt_iff_lt_mul (by decide), ← Nat.pow_succ]
      exact hhigh
    rw [Nat.toDigits_of_base_le (by decide) hten, ih (.inl hlow') hhigh', paddedDigits_succ]

/-- The hexadecimal encoding of the character of a decimal digit. -/
lemma hexEncode_digitChar {d : UInt32} (h : d.toNat < 10) :
    hexEncode (toUtf8 [d.toNat.digitChar]) = [0x33, 0x30 + d.toUInt8] := by
  have hdigit : ∀ n < 10, hexEncode (toUtf8 [n.digitChar]) = [0x33, 0x30 + UInt8.ofNat n] := by
    decide
  have hbyte : d.toUInt8 = UInt8.ofNat d.toNat := by
    apply UInt8.toNat_inj.mp
    rw [UInt32.toNat_toUInt8, UInt8.toNat_ofNat']
  rw [hdigit d.toNat h, hbyte]

/-- The encoding of two byte strings, one behind the other. -/
lemma hexEncode_append (a b : Bytes) : hexEncode (a ++ b) = hexEncode a ++ hexEncode b :=
  List.flatMap_append

/-! ## The second loop -/

/-- What is left when a digit is taken off. -/
lemma sub_div_mul (pid order : UInt32) : pid - pid / order * order = pid % order := by
  have hle : pid.toNat / order.toNat * order.toNat ≤ pid.toNat := Nat.div_mul_le_self _ _
  have hlt := pid.toNat_lt
  have hprod : (pid / order * order).toNat = pid.toNat / order.toNat * order.toNat := by
    rw [UInt32.toNat_mul, UInt32.toNat_div, Nat.mod_eq_of_lt (by omega)]
  apply UInt32.toNat_inj.mp
  rw [UInt32.toNat_sub_of_le _ _ (UInt32.le_iff_toNat_le.mpr (by rw [hprod]; exact hle)), hprod,
    UInt32.toNat_mod, Nat.mod_eq_sub_div_mul]

/-- A power of ten that fits. -/
lemma toNat_tenPow {k : ℕ} (hk : k ≤ 9) : (UInt32.ofNat (10 ^ k)).toNat = 10 ^ k := by
  have hle : 10 ^ k ≤ 10 ^ 9 := Nat.pow_le_pow_right (by decide) hk
  rw [UInt32.toNat_ofNat', Nat.mod_eq_of_lt (by omega)]

/-- One iteration of the second loop writes the digit of its order. -/
lemma digitLoop_step (overflowChecks : Bool) {k : ℕ} (hk : k ≤ 9) {pid : UInt32}
    (h : pid.toNat < 10 ^ (k + 1)) :
    digitLoop overflowChecks pid (UInt32.ofNat (10 ^ k)) =
      (digitLoop overflowChecks (pid % UInt32.ofNat (10 ^ k)) (UInt32.ofNat (10 ^ k) / 10)).map
        (hexEncode (toUtf8 [(pid.toNat / 10 ^ k).digitChar]) ++ ·) := by
  have htenPow := toNat_tenPow hk
  have hpow : 0 < 10 ^ k := Nat.pow_pos (by decide)
  have hpos : 0 < UInt32.ofNat (10 ^ k) := by
    rw [UInt32.lt_iff_toNat_lt, htenPow]
    exact hpow
  have hquot : (pid / UInt32.ofNat (10 ^ k)).toNat = pid.toNat / 10 ^ k := by
    rw [UInt32.toNat_div, htenPow]
  have hten : (pid / UInt32.ofNat (10 ^ k)).toNat < 10 := by
    rw [hquot, Nat.div_lt_iff_lt_mul hpow, ← Nat.pow_succ']
    exact h
  have hfits : ¬ (overflowChecks = true ∧
      0x30 + (pid / UInt32.ofNat (10 ^ k)).toUInt8.toNat ≥ 256) := by
    rw [UInt32.toNat_toUInt8]
    omega
  rw [digitLoop, if_pos hpos]
  dsimp only
  rw [if_neg hfits, sub_div_mul, ← hexEncode_digitChar hten, hquot]

/-- **The second loop writes the digits** from the order it starts with down to the lowest. -/
theorem digitLoop_eq (overflowChecks : Bool) {k : ℕ} (hk : k ≤ 9) {pid : UInt32}
    (h : pid.toNat < 10 ^ (k + 1)) : digitLoop overflowChecks pid (UInt32.ofNat (10 ^ k)) =
      some (hexEncode (toUtf8 (paddedDigits k pid.toNat))) := by
  induction k generalizing pid with
  | zero =>
    have hend : digitLoop overflowChecks (pid % UInt32.ofNat (10 ^ 0))
        (UInt32.ofNat (10 ^ 0) / 10) = some [] := by
      rw [digitLoop, if_neg (by decide)]
    rw [digitLoop_step overflowChecks hk h, hend, Nat.pow_zero, Nat.div_one, Option.map_some,
      List.append_nil, paddedDigits]
  | succ k ih =>
    have horder : UInt32.ofNat (10 ^ (k + 1)) / 10 = UInt32.ofNat (10 ^ k) := by
      apply UInt32.toNat_inj.mp
      rw [UInt32.toNat_div, toNat_tenPow hk, toNat_tenPow (by omega), Nat.pow_succ]
      exact Nat.mul_div_cancel _ (by decide)
    have hrest : (pid % UInt32.ofNat (10 ^ (k + 1))).toNat = pid.toNat % 10 ^ (k + 1) := by
      rw [UInt32.toNat_mod, toNat_tenPow hk]
    have hlt : (pid % UInt32.ofNat (10 ^ (k + 1))).toNat < 10 ^ (k + 1) := by
      rw [hrest]
      exact Nat.mod_lt _ (Nat.pow_pos (by decide))
    rw [digitLoop_step overflowChecks hk h, horder, ih (by omega) hlt, hrest, paddedDigits,
      Option.map_some, ← hexEncode_append, ← toUtf8_append]
    rfl

/-! ## The first loop -/

/-- The next order is ten times the order, where that fits. -/
lemma mulTen_tenPow (overflowChecks : Bool) {k : ℕ} (hk : k ≤ 8) :
    mulTen overflowChecks (UInt32.ofNat (10 ^ k)) = some (UInt32.ofNat (10 ^ (k + 1))) := by
  have hle : 10 ^ k ≤ 10 ^ 8 := Nat.pow_le_pow_right (by decide) hk
  have hten : UInt32.ofNat (10 ^ k) * 10 = UInt32.ofNat (10 ^ (k + 1)) := by
    rw [Nat.pow_succ, UInt32.ofNat_mul]
    rfl
  rw [mulTen, toNat_tenPow (by omega), hten, if_neg (by omega)]

/-- One iteration of the first loop stops at the order of the leading digit. -/
lemma orderLoop_step (overflowChecks : Bool) (pid : UInt32) (fuel : ℕ) {k : ℕ} (hk : k ≤ 8) :
    orderLoop overflowChecks pid (fuel + 1) (UInt32.ofNat (10 ^ k)) =
      if pid.toNat < 10 ^ (k + 1) then some (.ok (UInt32.ofNat (10 ^ k)))
      else orderLoop overflowChecks pid fuel (UInt32.ofNat (10 ^ (k + 1))) := by
  have htenPow : (UInt32.ofNat (10 ^ (k + 1))).toNat = 10 ^ (k + 1) := toNat_tenPow (by omega)
  have hpow : 0 < 10 ^ (k + 1) := Nat.pow_pos (by decide)
  have hne : UInt32.ofNat (10 ^ (k + 1)) ≠ 0 := by
    intro hzero
    rw [hzero] at htenPow
    exact absurd htenPow (Nat.ne_of_lt hpow)
  have hquot : pid / UInt32.ofNat (10 ^ (k + 1)) = 0 ↔ pid.toNat < 10 ^ (k + 1) := by
    rw [← UInt32.toNat_inj, UInt32.toNat_div, htenPow]
    exact Nat.div_eq_zero_iff_lt hpow
  rw [orderLoop, mulTen_tenPow overflowChecks hk]
  simp only [hne, if_false, hquot]

/-- **The first loop finds the order of the leading digit** of a number that is not too large. -/
lemma orderLoop_eq (overflowChecks : Bool) {pid : UInt32} {j k : ℕ} (hjk : j ≤ k) (hk : k ≤ 8)
    (hlow : 10 ^ k ≤ pid.toNat ∨ k = 0) (hhigh : pid.toNat < 10 ^ (k + 1)) :
    orderLoop overflowChecks pid (k - j + 1) (UInt32.ofNat (10 ^ j)) =
      some (.ok (UInt32.ofNat (10 ^ k))) := by
  induction hjk using Nat.decreasingInduction with
  | self => rw [orderLoop_step overflowChecks pid _ hk, if_pos hhigh]
  | of_succ j hj ih =>
    have hle : 10 ^ (j + 1) ≤ pid.toNat := by
      have hpow : 10 ^ (j + 1) ≤ 10 ^ k := Nat.pow_le_pow_right (by decide) hj
      have := hlow.resolve_right (by omega)
      omega
    have hfuel : k - j + 1 = (k - (j + 1) + 1) + 1 := by omega
    rw [hfuel, orderLoop_step overflowChecks pid _ (by omega), if_neg (Nat.not_lt.mpr hle), ih]

/-- **The first loop ends** after at most 32 iterations, with an order or a panic: without overflow
checks it comes to `10 ^ 32`, which is zero modulo `2 ^ 32`.

**Proof sketch.** In the iteration that starts with `k`, the order is `10 ^ k` modulo `2 ^ 32`; by
induction on the fuel this leaves `31 - k` further iterations. In the last one the multiplication
overflows or gives zero, and the loop ends either way. -/
theorem orderLoop_returns (overflowChecks : Bool) (pid : UInt32) :
    orderLoop overflowChecks pid 32 1 ≠ none := by
  have hfrom : ∀ fuel k, fuel + k = 31 →
      orderLoop overflowChecks pid (fuel + 1) (UInt32.ofNat (10 ^ k)) ≠ none := by
    intro fuel
    induction fuel with
    | zero =>
      intro k hk
      obtain rfl : k = 31 := by omega
      have hzero : mulTen overflowChecks (UInt32.ofNat (10 ^ 31)) = none ∨
          mulTen overflowChecks (UInt32.ofNat (10 ^ 31)) = some 0 := by
        cases overflowChecks <;> decide
      rcases hzero with hnone | hzero
      · rw [orderLoop, hnone]
        simp
      · rw [orderLoop, hzero]
        simp
    | succ fuel ih =>
      intro k hk
      rw [orderLoop]
      split
      · simp
      · rename_i next hnext
        have hten : next = UInt32.ofNat (10 ^ (k + 1)) := by
          unfold mulTen at hnext
          split_ifs at hnext
          rw [← Option.some.inj hnext, Nat.pow_succ, UInt32.ofNat_mul]
          rfl
        split_ifs
        · simp
        · simp
        · rw [hten]
          exact ih (k + 1) (by omega)
  exact hfrom 31 0 rfl

/-- A number below `10 ^ 9` has at most nine digits. -/
lemma exists_order {n : ℕ} (h : n < 10 ^ 9) :
    ∃ k ≤ 8, (10 ^ k ≤ n ∨ k = 0) ∧ n < 10 ^ (k + 1) := by
  have hbelow : ∀ m, n < 10 ^ (m + 1) → ∃ k ≤ m, (10 ^ k ≤ n ∨ k = 0) ∧ n < 10 ^ (k + 1) := by
    intro m
    induction m with
    | zero => exact fun hlt => ⟨0, le_rfl, .inr rfl, hlt⟩
    | succ m ih =>
      intro hlt
      by_cases hm : n < 10 ^ (m + 1)
      · obtain ⟨k, hk, horder⟩ := ih hm
        exact ⟨k, by omega, horder⟩
      · exact ⟨m + 1, le_rfl, .inl (Nat.le_of_not_lt hm), hlt⟩
  exact hbelow 8 h

/-- The line for a number whose order the first loop finds. -/
lemma externalAuthLine_eq {overflowChecks : Bool} {fuel k : ℕ} {pid : UInt32} (hk : k ≤ 9)
    (hlow : 10 ^ k ≤ pid.toNat ∨ k = 0) (hhigh : pid.toNat < 10 ^ (k + 1))
    (horder : orderLoop overflowChecks pid fuel 1 = some (.ok (UInt32.ofNat (10 ^ k)))) :
    externalAuthLine overflowChecks fuel pid = some (.ok (authExternal ++
      hexEncode (toUtf8 (Nat.toDigits 10 pid.toNat)) ++ dbusLineEnd)) := by
  rw [externalAuthLine, horder]
  simp only [digitLoop_eq overflowChecks hk hhigh, toDigits_eq_paddedDigits hlow hhigh]

/-- In a build with overflow checks the first loop panics on the numbers from `10 ^ 9` on. -/
lemma orderLoop_overflow {pid : UInt32} (h : 10 ^ 9 ≤ pid.toNat) (fuel : ℕ) {j : ℕ} (hj : j ≤ 9)
    (order : UInt32) : orderLoop true pid fuel (UInt32.ofNat (10 ^ j)) ≠ some (.ok order) := by
  induction fuel generalizing j with
  | zero => simp [orderLoop]
  | succ fuel ih =>
    by_cases hlast : j = 9
    · subst hlast
      have hnone : mulTen true (UInt32.ofNat (10 ^ 9)) = none := by decide
      rw [orderLoop, hnone]
      simp
    · have hle : 10 ^ (j + 1) ≤ 10 ^ 9 := Nat.pow_le_pow_right (by decide) (by omega)
      rw [orderLoop_step true pid fuel (by omega), if_neg (by omega)]
      exact ih (by omega)

/-- So a build with overflow checks writes nothing for these numbers. -/
lemma externalAuthLine_overflow {pid : UInt32} (h : 10 ^ 9 ≤ pid.toNat) (fuel : ℕ)
    (line : Bytes) : externalAuthLine true fuel pid ≠ some (.ok line) := by
  intro hline
  unfold externalAuthLine at hline
  split at hline
  · cases hline
  · rename_i order horder
    exact orderLoop_overflow h fuel (Nat.zero_le 9) order horder
  · cases hline

/-- **Exactly which uids are sent right**: those below `10 ^ 9`.

**Proof sketch.** Below `10 ^ 9` every power of ten that the first loop makes fits, and it stops
at the order of the leading digit.  From `10 ^ 9` on it multiplies `10 ^ 9` by ten. -/
theorem sendsUid_iff (uid : UInt32) : SendsUid uid ↔ uid < 1000000000 := by
  rw [UInt32.lt_iff_toNat_lt]
  constructor
  · intro h
    obtain ⟨fuel, hline⟩ := h true
    by_contra hlarge
    exact externalAuthLine_overflow (Nat.le_of_not_lt hlarge) fuel _ hline
  · intro h overflowChecks
    obtain ⟨k, hk, hlow, hhigh⟩ := exists_order h
    exact ⟨k - 0 + 1, externalAuthLine_eq (by omega) hlow hhigh
      (orderLoop_eq overflowChecks (Nat.zero_le k) hk hlow hhigh)⟩

/-- The uid `10 ^ 9` is not sent by a build with overflow checks. -/
theorem not_sendsUid : ¬ ∀ uid, SendsUid uid := by
  intro h
  obtain ⟨fuel, hline⟩ := h 1000000000 true
  exact externalAuthLine_overflow (by decide) fuel _ hline

end AsyncRustbus
