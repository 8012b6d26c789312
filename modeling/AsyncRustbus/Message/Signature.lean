import AsyncRustbus.Utils

set_option relaxedAutoImplicit false
set_option autoImplicit false

/-!
# The validation of signatures (`validate_sig_str`)

`validate_sig_str` reads a signature from left to right with a stack of the containers that are
open, an array being open until its element type is complete.  The guards of its match pop the
stack as a side effect.  The stack has room for 64 entries and panics when it is full.

## Main definitions

* `AsyncRustbus.SigErr`, `AsyncRustbus.Nest`, `AsyncRustbus.SigScan` — the errors and the state
  of the scan.
* `SigScan.step`, `SigScan.scan`, `AsyncRustbus.validateSigStr` — the scan.
* `AsyncRustbus.SigType`, `SigType.text` — the complete types of the D-Bus grammar and their
  spelling, with `SigType.arrayDepth` and `SigType.structDepth`.
* `AsyncRustbus.SigParse` — a parse of what a scan has read, of which the state of the scan is
  the shadow.

## Main results

* `SigScan.scan_text` — the scan reads any complete type.
* `SigParse.of_scan` — what the scan has read is a sequence of complete types followed by the
  beginnings of the containers on its stack.
* `AsyncRustbus.validateSigStr_ok_iff` — the accepted language.
-/

namespace AsyncRustbus

/-! ## The scan -/

/-- `SigErr`. -/
inductive SigErr
  | tooLong
  | nonBaseDictKey
  | arraysTooNested
  | structsTooNested
  | unexpectedClosingParenthesis
  | unexpectedClosingBracket
  | dictEntryNotInArray
  | unknownCharacter
  | unclosedStruct
  | unclosedDictEntry
  | arrayWithNoType
  | tooManyTypesInDictEntry
  deriving DecidableEq, Repr

/-- `MAX_NESTING_DEPTH`. -/
def maxNestingDepth : ℕ := 32

/-- The capacity of the stack. -/
def nestCapacity : ℕ := 64

/-- `Nest`: an open container, with the number of elements of a dict entry and whether a struct
has elements. -/
inductive Nest
  | array
  | dictEntry (cnt : ℕ)
  | struct (nonEmpty : Bool)
  deriving DecidableEq

/-- The variables of the loop.  The top of the stack is the head of the list; the counters are
`u8` and never leave `0..=32`. -/
structure SigScan where
  stack : List Nest
  aCnt : ℕ
  bCnt : ℕ
  deriving DecidableEq

namespace SigScan

/-- `stack.push`, which panics when the stack is full. -/
def push (s : SigScan) (nest : Nest) : Res SigErr SigScan :=
  if s.stack.length < nestCapacity then .ok { s with stack := nest :: s.stack } else .panic

/-- The `while` loop: the arrays on top of the stack have got their element type.  The counter
would underflow, and the code panic, if it were behind the stack. -/
def popArrays : List Nest → ℕ → Option (List Nest × ℕ)
  | .array :: _, 0 => none
  | .array :: stack, aCnt + 1 => popArrays stack aCnt
  | stack, aCnt => some (stack, aCnt)

/-- The end of the loop body: a type is complete. -/
def complete (s : SigScan) : Res SigErr SigScan :=
  match popArrays s.stack s.aCnt with
  | none => .panic
  | some (.dictEntry cnt :: stack, aCnt) =>
    if cnt ≥ 2 then .err .tooManyTypesInDictEntry
    else .ok ⟨.dictEntry (cnt + 1) :: stack, aCnt, s.bCnt⟩
  | some (.struct _ :: stack, aCnt) => .ok ⟨.struct true :: stack, aCnt, s.bCnt⟩
  | some (stack, aCnt) => .ok ⟨stack, aCnt, s.bCnt⟩

/-- The codes of the basic types. -/
def basicCodes : List Char := ['y', 'b', 'n', 'q', 'i', 'u', 'x', 't', 'd', 's', 'o', 'g', 'h']

/-- The loop body on one character, the arms in the order of the source. -/
def step (s : SigScan) (c : Char) : Res SigErr SigScan :=
  if c ∈ ['v', 'a', '{', '('] ∧ s.stack.head? = some (.dictEntry 0) then .err .nonBaseDictKey
  else if c = 'a' then
    if s.aCnt ≥ maxNestingDepth then .err .arraysTooNested
    else { s with aCnt := s.aCnt + 1 }.push .array
  else if c = '(' then
    if s.bCnt ≥ maxNestingDepth then .err .structsTooNested
    else { s with bCnt := s.bCnt + 1 }.push (.struct false)
  else if c = ')' then
    if s.stack.head? ≠ some (.struct true) then .err .unexpectedClosingParenthesis
    else if s.bCnt = 0 then .panic
    else complete { s with stack := s.stack.tail, bCnt := s.bCnt - 1 }
  else if c = '{' then
    if s.stack.head? ≠ some .array then .err .dictEntryNotInArray else s.push (.dictEntry 0)
  else if c = '}' then
    if s.stack.head? ≠ some (.dictEntry 2) then .err .unexpectedClosingBracket
    else complete { s with stack := s.stack.tail }
  else if c = 'v' ∨ c ∈ basicCodes then complete s
  else .err .unknownCharacter

/-- The loop. -/
def scan : SigScan → Str → Res SigErr SigScan
  | s, [] => .ok s
  | s, c :: cs =>
    match s.step c with
    | .ok s => scan s cs
    | .err e => .err e
    | .panic => .panic

/-- The end of the function: every container has to be closed. -/
def finish (debugAssertions : Bool) (s : SigScan) : Res SigErr Unit :=
  match s.stack with
  | [] => if debugAssertions ∧ (s.aCnt ≠ 0 ∨ s.bCnt ≠ 0) then .panic else .ok ()
  | .struct _ :: _ => .err .unclosedStruct
  | .dictEntry _ :: _ => .err .unclosedDictEntry
  | .array :: _ => .err .arrayWithNoType

end SigScan

/-- `validate_sig_str`. -/
def validateSigStr (debugAssertions : Bool) (sig : Str) : Res SigErr Unit :=
  if (toUtf8 sig).length > 255 then .err .tooLong
  else
    match SigScan.scan ⟨[], 0, 0⟩ sig with
    | .ok s => s.finish debugAssertions
    | .err e => .err e
    | .panic => .panic

/-! ## The grammar -/

/-- The code of a basic type. -/
structure BasicCode where
  code : Char
  isBasic : code ∈ SigScan.basicCodes

/-- A complete type: a basic type, a variant, an array, a dict, or a struct of at least one
type. -/
inductive SigType
  | basic (b : BasicCode)
  | variant
  | array (elem : SigType)
  | dict (key : BasicCode) (value : SigType)
  | struct (first : SigType) (rest : List SigType)

mutual

/-- The spelling of a complete type. -/
def SigType.text : SigType → Str
  | .basic b => [b.code]
  | .variant => ['v']
  | .array elem => 'a' :: elem.text
  | .dict key value => 'a' :: '{' :: key.code :: (value.text ++ ['}'])
  | .struct first rest => '(' :: (first.text ++ (SigType.texts rest ++ [')']))

/-- The spelling of a sequence of complete types. -/
def SigType.texts : List SigType → Str
  | [] => []
  | t :: ts => t.text ++ SigType.texts ts

end

mutual

/-- The largest number of open array codes that a position of the spelling lies inside. -/
def SigType.arrayDepth : SigType → ℕ
  | .basic _ => 0
  | .variant => 0
  | .array elem => elem.arrayDepth + 1
  | .dict _ value => value.arrayDepth + 1
  | .struct first rest => max first.arrayDepth (SigType.arrayDepths rest)

/-- The same for a sequence of complete types. -/
def SigType.arrayDepths : List SigType → ℕ
  | [] => 0
  | t :: ts => max t.arrayDepth (SigType.arrayDepths ts)

end

mutual

/-- The largest number of open parentheses that a position of the spelling lies inside. -/
def SigType.structDepth : SigType → ℕ
  | .basic _ => 0
  | .variant => 0
  | .array elem => elem.structDepth
  | .dict _ value => value.structDepth
  | .struct first rest => max first.structDepth (SigType.structDepths rest) + 1

/-- The same for a sequence of complete types. -/
def SigType.structDepths : List SigType → ℕ
  | [] => 0
  | t :: ts => max t.structDepth (SigType.structDepths ts)

end

/-! ## Sequences of types -/

namespace SigType

/-- The spelling of two sequences, one behind the other. -/
lemma texts_append (ts us : List SigType) : texts (ts ++ us) = texts ts ++ texts us := by
  induction ts with
  | nil => simp [texts]
  | cons t ts ih => simp [texts, ih]

/-- A sequence is at most as deep as a bound when all its types are. -/
lemma arrayDepths_le_iff (ts : List SigType) (n : ℕ) :
    arrayDepths ts ≤ n ↔ ∀ t ∈ ts, t.arrayDepth ≤ n := by
  induction ts with
  | nil => simp [arrayDepths]
  | cons t ts ih => simp only [arrayDepths, Nat.max_le, ih, List.forall_mem_cons]

/-- The same for parentheses. -/
lemma structDepths_le_iff (ts : List SigType) (n : ℕ) :
    structDepths ts ≤ n ↔ ∀ t ∈ ts, t.structDepth ≤ n := by
  induction ts with
  | nil => simp [structDepths]
  | cons t ts ih => simp only [structDepths, Nat.max_le, ih, List.forall_mem_cons]

end SigType

/-! ## One character -/

namespace SigScan

variable {s : SigScan}

/-- A basic type is complete, also as the key of a dict entry. -/
lemma step_basic (s : SigScan) (b : BasicCode) : s.step b.code = s.complete := by
  obtain ⟨c, hc⟩ := b
  have hnot : ∀ c ∈ basicCodes, c ∉ ['v', 'a', '{', '('] ∧ c ≠ 'a' ∧ c ≠ '(' ∧ c ≠ ')' ∧
      c ≠ '{' ∧ c ≠ '}' := by simp [basicCodes]
  obtain ⟨hkey, h1, h2, h3, h4, h5⟩ := hnot c hc
  simp only [step, hkey, h1, h2, h3, h4, h5, hc, false_and, if_false, or_true, if_true]

/-- A variant is complete, where a key is not expected. -/
lemma step_variant (hkey : s.stack.head? ≠ some (.dictEntry 0)) : s.step 'v' = s.complete := by
  simp [step, hkey]

/-- An array opens. -/
lemma step_array (hkey : s.stack.head? ≠ some (.dictEntry 0)) (ha : s.aCnt < maxNestingDepth) :
    s.step 'a' = { s with aCnt := s.aCnt + 1 }.push .array := by
  simp [step, hkey, Nat.not_le.mpr ha]

/-- A struct opens. -/
lemma step_open (hkey : s.stack.head? ≠ some (.dictEntry 0)) (hb : s.bCnt < maxNestingDepth) :
    s.step '(' = { s with bCnt := s.bCnt + 1 }.push (.struct false) := by
  simp [step, hkey, Nat.not_le.mpr hb]

/-- A struct with elements closes. -/
lemma step_close (stack : List Nest) (aCnt bCnt : ℕ) :
    step ⟨.struct true :: stack, aCnt, bCnt + 1⟩ ')' = complete ⟨stack, aCnt, bCnt⟩ := by
  simp [step]

/-- A dict entry opens in an array. -/
lemma step_openEntry (stack : List Nest) (aCnt bCnt : ℕ) :
    step ⟨.array :: stack, aCnt, bCnt⟩ '{' = push ⟨.array :: stack, aCnt, bCnt⟩ (.dictEntry 0) := by
  simp [step]

/-- A dict entry of two types closes. -/
lemma step_closeEntry (stack : List Nest) (aCnt bCnt : ℕ) :
    step ⟨.dictEntry 2 :: stack, aCnt, bCnt⟩ '}' = complete ⟨stack, aCnt, bCnt⟩ := by
  simp [step]

/-- Completing the element of an array completes the array. -/
@[simp] lemma complete_array (stack : List Nest) (aCnt bCnt : ℕ) :
    complete ⟨.array :: stack, aCnt + 1, bCnt⟩ = complete ⟨stack, aCnt, bCnt⟩ := by
  simp [complete, popArrays]

/-- A type completed in a dict entry is counted. -/
@[simp] lemma complete_dictEntry (cnt : ℕ) (stack : List Nest) (aCnt bCnt : ℕ) :
    complete ⟨.dictEntry cnt :: stack, aCnt, bCnt⟩ =
      if cnt ≥ 2 then .err .tooManyTypesInDictEntry
      else .ok ⟨.dictEntry (cnt + 1) :: stack, aCnt, bCnt⟩ := by
  simp [complete, popArrays]

/-- A struct in which a type was completed is not empty. -/
@[simp] lemma complete_struct (nonEmpty : Bool) (stack : List Nest) (aCnt bCnt : ℕ) :
    complete ⟨.struct nonEmpty :: stack, aCnt, bCnt⟩ = .ok ⟨.struct true :: stack, aCnt, bCnt⟩ := by
  simp [complete, popArrays]

/-- A type completed at the top level changes nothing. -/
@[simp] lemma complete_nil (aCnt bCnt : ℕ) :
    complete ⟨[], aCnt, bCnt⟩ = .ok ⟨[], aCnt, bCnt⟩ := by
  simp [complete, popArrays]

/-- Opening a container succeeds with the container on the stack. -/
lemma push_eq_ok {nest : Nest} {s' : SigScan} (h : s.push nest = .ok s') :
    s' = { s with stack := nest :: s.stack } := by
  unfold push at h
  split_ifs at h
  exact (Res.ok.inj h).symm

/-- **What one character can do**: open an array, a struct or a dict entry, or complete a type,
which a closing bracket does for the container it closes.

**Proof sketch.** The branches of the step that do not fail. Where a container opens, the push has
succeeded, the counter is below its limit and no key is expected; where one closes, it stands on the
top of the stack. -/
lemma step_cases {c : Char} {s' : SigScan} (h : s.step c = .ok s') :
    (c = 'a' ∧ s.stack.head? ≠ some (.dictEntry 0) ∧ s.aCnt < maxNestingDepth ∧
      s' = ⟨.array :: s.stack, s.aCnt + 1, s.bCnt⟩) ∨
    (c = '(' ∧ s.stack.head? ≠ some (.dictEntry 0) ∧ s.bCnt < maxNestingDepth ∧
      s' = ⟨.struct false :: s.stack, s.aCnt, s.bCnt + 1⟩) ∨
    (c = '{' ∧ (∃ stack, s.stack = .array :: stack) ∧
      s' = ⟨.dictEntry 0 :: s.stack, s.aCnt, s.bCnt⟩) ∨
    (c = ')' ∧ ∃ stack, s.stack = .struct true :: stack ∧ s.bCnt ≠ 0 ∧
      complete ⟨stack, s.aCnt, s.bCnt - 1⟩ = .ok s') ∨
    (c = '}' ∧ ∃ stack, s.stack = .dictEntry 2 :: stack ∧
      complete ⟨stack, s.aCnt, s.bCnt⟩ = .ok s') ∨
    (c = 'v' ∧ s.stack.head? ≠ some (.dictEntry 0) ∧ s.complete = .ok s') ∨
    (c ∈ basicCodes ∧ s.complete = .ok s') := by
  unfold step at h
  split_ifs at h with hkey h1 ha h2 hb h3 hclose hzero h4 hentry h5 hclose h6
  · have hkey' : s.stack.head? ≠ some (.dictEntry 0) := fun hhead => hkey ⟨by simp [h1], hhead⟩
    exact .inl ⟨h1, hkey', Nat.lt_of_not_le ha, push_eq_ok h⟩
  · have hkey' : s.stack.head? ≠ some (.dictEntry 0) := fun hhead => hkey ⟨by simp [h2], hhead⟩
    exact .inr (.inl ⟨h2, hkey', Nat.lt_of_not_le hb, push_eq_ok h⟩)
  · obtain ⟨stack, hstack⟩ := List.head?_eq_some_iff.mp (not_not.mp hclose)
    rw [hstack] at h
    exact .inr (.inr (.inr (.inl ⟨h3, stack, hstack, hzero, h⟩)))
  · obtain ⟨stack, hstack⟩ := List.head?_eq_some_iff.mp (not_not.mp hentry)
    exact .inr (.inr (.inl ⟨h4, ⟨stack, hstack⟩, push_eq_ok h⟩))
  · obtain ⟨stack, hstack⟩ := List.head?_eq_some_iff.mp (not_not.mp hclose)
    rw [hstack] at h
    exact .inr (.inr (.inr (.inr (.inl ⟨h5, stack, hstack, h⟩))))
  · rcases h6 with h6 | h6
    · have hkey' : s.stack.head? ≠ some (.dictEntry 0) := fun hhead => hkey ⟨by simp [h6], hhead⟩
      exact .inr (.inr (.inr (.inr (.inr (.inl ⟨h6, hkey', h⟩)))))
    · exact .inr (.inr (.inr (.inr (.inr (.inr ⟨h6, h⟩)))))

/-! ## The scan reads complete types -/

/-- The scan goes on from the outcome of a step. -/
def resume (r : Res SigErr SigScan) (cs : Str) : Res SigErr SigScan :=
  match r with
  | .ok s => s.scan cs
  | .err e => .err e
  | .panic => .panic

/-- The scan takes a step and goes on. -/
lemma scan_cons (s : SigScan) (c : Char) (cs : Str) : s.scan (c :: cs) = resume (s.step c) cs :=
  rfl

/-- Two outcomes are the same, unless the stack was full before. -/
def PanicsOr (r r' : Res SigErr SigScan) : Prop := r = .panic ∨ r = r'

/-- Outcomes that are the same up to a full stack can be chained. -/
lemma PanicsOr.trans {r r' r'' : Res SigErr SigScan} (h : PanicsOr r r') (h' : PanicsOr r' r'') :
    PanicsOr r r'' := by
  rcases h with h | rfl
  · exact .inl h
  · exact h'

/-- Opening a container goes on with the container on the stack. -/
lemma resume_push (s : SigScan) (nest : Nest) (cs : Str) :
    PanicsOr (resume (s.push nest) cs) (scan { s with stack := nest :: s.stack } cs) := by
  unfold push
  split_ifs
  · exact .inr rfl
  · exact .inl rfl

mutual

/-- **The scan reads a complete type**: behind it the scan goes on where a type has just been
completed, if the type is not too deep for the containers already open.

**Proof sketch.** By recursion on the type, together with its fields. The first character of a
container pushes a frame, the contained types are scanned above it and are completed in it, and the
last character closes it. The counters bound the depth, so a step fails only where the stack is
full, and then the scan panics (`PanicsOr`). -/
theorem scan_text (t : SigType) (s : SigScan) (rest : Str)
    (ha : s.aCnt + t.arrayDepth ≤ maxNestingDepth) (hb : s.bCnt + t.structDepth ≤ maxNestingDepth)
    (hkey : s.stack.head? = some (.dictEntry 0) → ∃ b, t = .basic b) :
    PanicsOr (s.scan (t.text ++ rest)) (resume s.complete rest) := by
  cases t with
  | basic b =>
    right
    rw [SigType.text, List.singleton_append, scan_cons, step_basic]
  | variant =>
    have hkey' : s.stack.head? ≠ some (.dictEntry 0) := fun h => by simpa using hkey h
    right
    rw [SigType.text, List.singleton_append, scan_cons, step_variant hkey']
  | array elem =>
    have hkey' : s.stack.head? ≠ some (.dictEntry 0) := fun h => by simpa using hkey h
    simp only [SigType.arrayDepth, SigType.structDepth] at ha hb
    rw [SigType.text, List.cons_append, scan_cons, step_array hkey' (by omega)]
    refine (resume_push _ _ _).trans ?_
    have helem := scan_text elem ⟨.array :: s.stack, s.aCnt + 1, s.bCnt⟩ rest
      (by simp only; omega) hb (by simp)
    rwa [complete_array] at helem
  | dict key value =>
    have hkey' : s.stack.head? ≠ some (.dictEntry 0) := fun h => by simpa using hkey h
    simp only [SigType.arrayDepth, SigType.structDepth] at ha hb
    simp only [SigType.text, List.cons_append, List.append_assoc]
    rw [scan_cons, step_array hkey' (by omega)]
    refine (resume_push _ _ _).trans ?_
    rw [scan_cons, step_openEntry]
    refine (resume_push _ _ _).trans ?_
    rw [scan_cons, step_basic, complete_dictEntry, if_neg (by decide)]
    have hvalue := scan_text value ⟨.dictEntry 1 :: .array :: s.stack, s.aCnt + 1, s.bCnt⟩
      ('}' :: rest) (by simp only; omega) hb (by simp)
    refine PanicsOr.trans hvalue ?_
    rw [complete_dictEntry, if_neg (by decide)]
    right
    rw [resume, scan_cons, step_closeEntry, complete_array]
  | struct first fields =>
    have hkey' : s.stack.head? ≠ some (.dictEntry 0) := fun h => by simpa using hkey h
    simp only [SigType.arrayDepth, SigType.structDepth] at ha hb
    simp only [SigType.text, List.cons_append, List.append_assoc]
    rw [scan_cons, step_open hkey' (by omega)]
    refine (resume_push _ _ _).trans ?_
    refine PanicsOr.trans (scan_text first ⟨.struct false :: s.stack, s.aCnt, s.bCnt + 1⟩ _
      (by simp only; omega) (by simp only; omega) (by simp)) ?_
    rw [complete_struct]
    refine PanicsOr.trans (scan_texts fields ⟨.struct true :: s.stack, s.aCnt, s.bCnt + 1⟩ _
      (by simp only; omega) (by simp only; omega) (complete_struct _ _ _ _) (by simp)) ?_
    right
    rw [List.nil_append, scan_cons, step_close]

/-- Where completing a type changes nothing, the scan reads a whole sequence of types. -/
theorem scan_texts (ts : List SigType) (s : SigScan) (rest : Str)
    (ha : s.aCnt + SigType.arrayDepths ts ≤ maxNestingDepth)
    (hb : s.bCnt + SigType.structDepths ts ≤ maxNestingDepth) (hfix : s.complete = .ok s)
    (hkey : s.stack.head? ≠ some (.dictEntry 0)) :
    PanicsOr (s.scan (SigType.texts ts ++ rest)) (s.scan rest) := by
  cases ts with
  | nil => exact .inr rfl
  | cons t ts =>
    simp only [SigType.arrayDepths, SigType.structDepths] at ha hb
    rw [SigType.texts, List.append_assoc]
    refine PanicsOr.trans (scan_text t s _ (by omega) (by omega) fun h => absurd h hkey) ?_
    rw [hfix]
    exact scan_texts ts s rest (by omega) (by omega) hfix hkey

end

end SigScan

/-! ## What was read so far -/

/-- An open container with the types it has so far. -/
inductive SigFrame
  | array
  | entry
  | entryKey (key : BasicCode)
  | entryValue (key : BasicCode) (value : SigType)
  | struct (fields : List SigType)

namespace SigFrame

/-- The entry of the stack for a container. -/
def nest : SigFrame → Nest
  | .array => .array
  | .entry => .dictEntry 0
  | .entryKey _ => .dictEntry 1
  | .entryValue _ _ => .dictEntry 2
  | .struct fields => .struct (!fields.isEmpty)

/-- What was read of a container. -/
def text : SigFrame → Str
  | .array => ['a']
  | .entry => ['{']
  | .entryKey key => ['{', key.code]
  | .entryValue key value => '{' :: key.code :: value.text
  | .struct fields => '(' :: SigType.texts fields

/-- What was read of the containers on the stack. -/
def texts : List SigFrame → Str
  | [] => []
  | f :: fs => texts fs ++ f.text

/-- The number of open arrays. -/
def arrays : List SigFrame → ℕ
  | [] => 0
  | .array :: fs => arrays fs + 1
  | _ :: fs => arrays fs

/-- The number of open structs. -/
def structs : List SigFrame → ℕ
  | [] => 0
  | .struct _ :: fs => structs fs + 1
  | _ :: fs => structs fs

/-- A type that is not too deep behind `a` open arrays and `b` open structs. -/
def Fits (a b : ℕ) (t : SigType) : Prop :=
  a + t.arrayDepth ≤ maxNestingDepth ∧ b + t.structDepth ≤ maxNestingDepth

/-- What is known of a container above the containers `fs`: an entry is in an array, nothing but
a basic type is a key, and the types fit. -/
def Sits (fs : List SigFrame) : SigFrame → Prop
  | .array => fs.head? ≠ some .entry
  | .entry => ∃ fs', fs = .array :: fs'
  | .entryKey _ => ∃ fs', fs = .array :: fs'
  | .entryValue _ value => (∃ fs', fs = .array :: fs') ∧ Fits (arrays fs) (structs fs) value
  | .struct fields => fs.head? ≠ some .entry ∧ ∀ t ∈ fields, Fits (arrays fs) (structs fs + 1) t

/-- The containers on the stack sit on one another. -/
def WellFormed : List SigFrame → Prop
  | [] => True
  | f :: fs => f.Sits fs ∧ WellFormed fs

/-- The state of the scan with these containers open. -/
def state (fs : List SigFrame) : SigScan := ⟨fs.map nest, arrays fs, structs fs⟩

/-- The entry of the stack tells the container. -/
lemma nest_eq_entry {f : SigFrame} : f.nest = .dictEntry 0 ↔ f = .entry := by
  cases f <;> simp [nest]

/-- A struct with types is one with a first type. -/
lemma nest_eq_struct {f : SigFrame} (h : f.nest = .struct true) :
    ∃ first rest, f = .struct (first :: rest) := by
  cases f with
  | struct fields =>
    cases fields with
    | nil => simp [nest] at h
    | cons first rest => exact ⟨first, rest, rfl⟩
  | _ => simp [nest] at h

/-- An entry of two types has a key and a value. -/
lemma nest_eq_entryValue {f : SigFrame} (h : f.nest = .dictEntry 2) :
    ∃ key value, f = .entryValue key value := by
  cases f with
  | entryValue key value => exact ⟨key, value, rfl⟩
  | _ => simp [nest] at h

/-- The top of the stack is the entry of the container on top. -/
lemma state_stack_eq_cons {fs : List SigFrame} {n : Nest} {stack : List Nest}
    (h : (state fs).stack = n :: stack) :
    ∃ f fs', fs = f :: fs' ∧ f.nest = n ∧ fs'.map nest = stack :=
  List.map_eq_cons_iff.mp h

/-- Types that fit behind open containers are together no deeper than the limits. -/
lemma Fits.depths {a b : ℕ} {ts : List SigType} (ha : a ≤ maxNestingDepth)
    (hb : b ≤ maxNestingDepth) (h : ∀ t ∈ ts, Fits a b t) :
    a + SigType.arrayDepths ts ≤ maxNestingDepth ∧
      b + SigType.structDepths ts ≤ maxNestingDepth := by
  have harrays : SigType.arrayDepths ts ≤ maxNestingDepth - a := by
    rw [SigType.arrayDepths_le_iff]
    intro t ht
    have := (h t ht).1
    omega
  have hstructs : SigType.structDepths ts ≤ maxNestingDepth - b := by
    rw [SigType.structDepths_le_iff]
    intro t ht
    have := (h t ht).2
    omega
  omega

/-- A struct fits where its types fit behind one more open struct. -/
lemma Fits.struct {a b : ℕ} {first : SigType} {rest : List SigType}
    (h : ∀ t ∈ first :: rest, Fits a (b + 1) t) : Fits a b (.struct first rest) := by
  have hfirst := h first (by simp)
  obtain ⟨harrays, hstructs⟩ := Fits.depths (Nat.le_of_add_right_le hfirst.1)
    (Nat.le_of_add_right_le hfirst.2) h
  simp only [SigType.arrayDepths, SigType.structDepths] at harrays hstructs
  simp only [Fits, SigType.arrayDepth, SigType.structDepth]
  omega

/-- A key is expected in the state exactly when an entry without types is on top. -/
lemma head?_state_stack (fs : List SigFrame) :
    (state fs).stack.head? = some (.dictEntry 0) ↔ fs.head? = some .entry := by
  cases fs with
  | nil => simp [state]
  | cons f fs => simp [state, nest_eq_entry]

end SigFrame

/-- A scan that has read `text`: the types completed at the top level, and the containers that
are open. -/
structure SigParse (text : Str) (s : SigScan) where
  types : List SigType
  frames : List SigFrame
  text_eq : text = SigType.texts types ++ SigFrame.texts frames
  state_eq : s = SigFrame.state frames
  fits : ∀ t ∈ types, SigFrame.Fits 0 0 t
  wellFormed : SigFrame.WellFormed frames
  arrays_le : SigFrame.arrays frames ≤ maxNestingDepth
  structs_le : SigFrame.structs frames ≤ maxNestingDepth

namespace SigParse

open SigFrame

/-- **Completing a type** puts it into the container on top of the stack, completing the arrays
that waited for it.

**Proof sketch.** Induction on the open containers.  An array is completed by the type, so the
array is the type to put into the container below it; any other container takes the type. -/
lemma of_complete (types : List SigType) (frames : List SigFrame) (t : SigType) (s : SigScan)
    (htypes : ∀ t ∈ types, Fits 0 0 t) (hwf : WellFormed frames)
    (ha : arrays frames ≤ maxNestingDepth) (hb : structs frames ≤ maxNestingDepth)
    (hfits : Fits (arrays frames) (structs frames) t)
    (hkey : frames.head? = some .entry → ∃ b, t = .basic b)
    (h : (state frames).complete = .ok s) :
    Nonempty (SigParse (SigType.texts types ++ (SigFrame.texts frames ++ t.text)) s) := by
  induction frames generalizing t with
  | nil =>
    simp only [state, List.map_nil, SigScan.complete_nil, Res.ok.injEq] at h
    refine ⟨types ++ [t], [], ?_, h.symm, ?_, trivial, ha, hb⟩
    · simp [SigType.texts_append, SigType.texts, SigFrame.texts]
    · intro u hu
      rcases List.mem_append.mp hu with hu | hu
      · exact htypes u hu
      · rw [List.mem_singleton.mp hu]
        exact hfits
  | cons f fs ih =>
    obtain ⟨hsits, hwf⟩ := hwf
    cases f with
    | array =>
      simp only [state, List.map_cons, nest, arrays, structs, SigScan.complete_array] at h
      simp only [arrays, structs] at ha hb hfits
      have harray := ih (.array t) hwf (by omega) hb
        ⟨by simp only [SigType.arrayDepth]; have := hfits.1; omega, hfits.2⟩
        (fun hentry => absurd hentry hsits) h
      simpa [SigFrame.texts, SigFrame.text, SigType.text] using harray
    | entry =>
      obtain ⟨b, rfl⟩ := hkey rfl
      simp only [state, List.map_cons, nest, SigScan.complete_dictEntry] at h
      rw [if_neg (by decide), Res.ok.injEq] at h
      refine ⟨types, .entryKey b :: fs, ?_, h.symm, htypes, ⟨hsits, hwf⟩, ha, hb⟩
      simp [SigFrame.texts, SigFrame.text, SigType.text]
    | entryKey key =>
      simp only [state, List.map_cons, nest, SigScan.complete_dictEntry] at h
      rw [if_neg (by decide), Res.ok.injEq] at h
      refine ⟨types, .entryValue key t :: fs, ?_, h.symm, htypes, ⟨⟨hsits, hfits⟩, hwf⟩, ha, hb⟩
      simp [SigFrame.texts, SigFrame.text]
    | entryValue key value =>
      simp only [state, List.map_cons, nest, SigScan.complete_dictEntry] at h
      rw [if_pos le_rfl] at h
      cases h
    | struct fields =>
      simp only [state, List.map_cons, nest, SigScan.complete_struct, Res.ok.injEq] at h
      refine ⟨types, .struct (fields ++ [t]) :: fs, ?_, ?_, htypes, ⟨⟨hsits.1, ?_⟩, hwf⟩, ha, hb⟩
      · simp [SigFrame.texts, SigFrame.text, SigType.texts_append, SigType.texts]
      · simp [← h, state, nest, arrays, structs]
      · intro u hu
        rcases List.mem_append.mp hu with hu | hu
        · exact hsits.2 u hu
        · rw [List.mem_singleton.mp hu]
          exact hfits

/-- **One character** is read into a parse.

**Proof sketch.** By what the character does (`SigScan.step_cases`). An opening one adds a frame to
the parse. A closing one turns the frame, with what it holds, into a type that fits the containers
around it, and completes that (`of_complete`); so do a variant and a basic type. -/
lemma of_step {text : Str} {s s' : SigScan} (p : SigParse text s) (c : Char)
    (h : s.step c = .ok s') : Nonempty (SigParse (text ++ [c]) s') := by
  obtain ⟨types, frames, rfl, rfl, htypes, hwf, ha, hb⟩ := p
  have hleaf : ∀ t : SigType, t.arrayDepth = 0 → t.structDepth = 0 →
      Fits (arrays frames) (structs frames) t := by
    intro t h1 h2
    rw [Fits, h1, h2]
    exact ⟨ha, hb⟩
  obtain ⟨rfl, hkey, hlt, rfl⟩ | ⟨rfl, hkey, hlt, rfl⟩ | ⟨rfl, ⟨stack, hstack⟩, rfl⟩ |
    ⟨rfl, stack, hstack, hpos, hc⟩ | ⟨rfl, stack, hstack, hc⟩ | ⟨rfl, hkey, hc⟩ | ⟨hbasic, hc⟩ :=
    SigScan.step_cases h
  · -- An array opens.
    rw [ne_eq, head?_state_stack] at hkey
    refine ⟨types, .array :: frames, ?_, rfl, htypes, ⟨hkey, hwf⟩, hlt, hb⟩
    simp [SigFrame.texts, SigFrame.text]
  · -- A struct opens.
    rw [ne_eq, head?_state_stack] at hkey
    refine ⟨types, .struct [] :: frames, ?_, rfl, htypes, ⟨⟨hkey, by simp⟩, hwf⟩, ha, hlt⟩
    simp [SigFrame.texts, SigFrame.text, SigType.texts]
  · -- A dict entry opens in an array.
    obtain ⟨f, fs, rfl, hf, -⟩ := state_stack_eq_cons hstack
    have harray : f = .array := by
      cases f <;> simp_all [nest]
    subst harray
    refine ⟨types, .entry :: .array :: fs, ?_, rfl, htypes, ⟨⟨fs, rfl⟩, hwf⟩, ha, hb⟩
    simp [SigFrame.texts, SigFrame.text]
  · -- A struct closes.
    obtain ⟨f, fs, rfl, hf, rfl⟩ := state_stack_eq_cons hstack
    obtain ⟨first, rest, rfl⟩ := nest_eq_struct hf
    obtain ⟨⟨hkey, hfields⟩, hwf⟩ := hwf
    have hstruct := of_complete types fs (.struct first rest) s' htypes hwf ha
      (Nat.le_of_succ_le hb) (Fits.struct hfields) (fun hentry => absurd hentry hkey) hc
    simpa [SigFrame.texts, SigFrame.text, SigType.texts, SigType.text] using hstruct
  · -- A dict entry closes, and with it the array it is in.
    obtain ⟨f, fs, rfl, hf, rfl⟩ := state_stack_eq_cons hstack
    obtain ⟨key, value, rfl⟩ := nest_eq_entryValue hf
    obtain ⟨⟨⟨fs, rfl⟩, hvalue⟩, hkey, hwf⟩ := hwf
    have hfits : Fits (arrays fs) (structs fs) (.dict key value) := by
      simp only [Fits, arrays, structs, SigType.arrayDepth, SigType.structDepth] at hvalue ⊢
      omega
    have hdict := of_complete types fs (.dict key value) s' htypes hwf (Nat.le_of_succ_le ha) hb
      hfits (fun hentry => absurd hentry hkey)
      (by simpa [state, nest, arrays, structs] using hc)
    simpa [SigFrame.texts, SigFrame.text, SigType.text] using hdict
  · have hvariant := of_complete types frames .variant s' htypes hwf ha hb (hleaf _ rfl rfl)
      (fun hentry => absurd ((head?_state_stack frames).mpr hentry) hkey) hc
    simpa [SigType.text] using hvariant
  · have hbase := of_complete types frames (.basic ⟨c, hbasic⟩) s' htypes hwf ha hb
      (hleaf _ rfl rfl) (fun _ => ⟨_, rfl⟩) hc
    simpa [SigType.text] using hbase

/-- **A whole scan** is read into a parse. -/
theorem of_scan {text : Str} {s s' : SigScan} (p : SigParse text s) (cs : Str)
    (h : s.scan cs = .ok s') : Nonempty (SigParse (text ++ cs) s') := by
  induction cs generalizing text s with
  | nil =>
    cases h
    rw [List.append_nil]
    exact ⟨p⟩
  | cons c cs ih =>
    rw [SigScan.scan_cons] at h
    cases hstep : s.step c with
    | ok s₁ =>
      rw [hstep] at h
      obtain ⟨p₁⟩ := p.of_step c hstep
      simpa using ih p₁ h
    | err e =>
      rw [hstep] at h
      cases h
    | panic =>
      rw [hstep] at h
      cases h

end SigParse

/-! ## The accepted language -/

/-- A signature of the D-Bus specification: at most 255 bytes, a sequence of complete types, none
of them inside more than 32 arrays or 32 structs. -/
def IsSignature (sig : Str) : Prop :=
  (toUtf8 sig).length ≤ 255 ∧ ∃ ts : List SigType, sig = SigType.texts ts ∧
    ∀ t ∈ ts, t.arrayDepth ≤ 32 ∧ t.structDepth ≤ 32

/-- The scan of an accepted text ends with an empty stack. -/
lemma isSignature_of_validateSigStr {debugAssertions : Bool} {sig : Str}
    (h : validateSigStr debugAssertions sig = .ok ()) : IsSignature sig := by
  unfold validateSigStr at h
  split_ifs at h with hlen
  refine ⟨Nat.le_of_not_lt hlen, ?_⟩
  have start : SigParse [] ⟨[], 0, 0⟩ :=
    ⟨[], [], rfl, rfl, by simp, trivial, by decide, by decide⟩
  cases hscan : SigScan.scan ⟨[], 0, 0⟩ sig with
  | err e => simp [hscan] at h
  | panic => simp [hscan] at h
  | ok s =>
    rw [hscan] at h
    obtain ⟨types, frames, htext, rfl, hfits, -, -, -⟩ := start.of_scan sig hscan
    cases frames with
    | nil =>
      refine ⟨types, by simpa [SigFrame.texts] using htext, ?_⟩
      simpa [SigFrame.Fits, maxNestingDepth] using hfits
    | cons f fs => cases f <;> simp [SigScan.finish, SigFrame.state, SigFrame.nest] at h

/-- A signature is read to its end, unless the stack is full before. -/
private lemma ok_or_panic_of_isSignature (debugAssertions : Bool) {sig : Str}
    (h : IsSignature sig) :
    validateSigStr debugAssertions sig = .panic ∨ validateSigStr debugAssertions sig = .ok () := by
  obtain ⟨hlen, ts, rfl, hdepth⟩ := h
  have hfits : ∀ t ∈ ts, SigFrame.Fits 0 0 t := by
    intro t ht
    simpa [SigFrame.Fits, maxNestingDepth] using hdepth t ht
  obtain ⟨ha, hb⟩ := SigFrame.Fits.depths (Nat.zero_le _) (Nat.zero_le _) hfits
  have hscan := SigScan.scan_texts ts ⟨[], 0, 0⟩ [] ha hb (SigScan.complete_nil 0 0) (by simp)
  rw [List.append_nil] at hscan
  rw [validateSigStr, if_neg (Nat.not_lt.mpr hlen)]
  rcases hscan with hscan | hscan
  · left
    rw [hscan]
  · right
    rw [hscan]
    simp [SigScan.scan, SigScan.finish]

/-- **The accepted language of `validate_sig_str`**: where it returns, it accepts exactly the
signatures of the D-Bus grammar. -/
theorem validateSigStr_ok_iff (debugAssertions : Bool) (sig : Str)
    (h : validateSigStr debugAssertions sig ≠ .panic) :
    validateSigStr debugAssertions sig = .ok () ↔ IsSignature sig :=
  ⟨isSignature_of_validateSigStr, fun hsig =>
    (ok_or_panic_of_isSignature debugAssertions hsig).resolve_left h⟩

/-- `validate_sig_str` returns on `a{s(v)}`, which is a signature. -/
theorem validateSigStr_dict : validateSigStr true ['a', '{', 's', '(', 'v', ')', '}'] ≠ .panic ∧
    IsSignature ['a', '{', 's', '(', 'v', ')', '}'] := by
  have hreturns : validateSigStr true ['a', '{', 's', '(', 'v', ')', '}'] ≠ .panic := by decide
  exact ⟨hreturns, (validateSigStr_ok_iff true _ hreturns).mp (by decide)⟩

end AsyncRustbus
