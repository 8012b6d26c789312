import AsyncRustbus.Utils

set_option relaxedAutoImplicit false
set_option autoImplicit false

/-!
# Object paths (`rustbus_core/path.rs`)

`std::path::Path` splits any text into components; an `ObjectPath` is a text that passed the
validation of the D-Bus grammar.  The call hierarchy works on the components of object paths
and the match rules on the components of arbitrary texts.

## Main definitions

* `AsyncRustbus.Component`, `AsyncRustbus.pathComponents`, `AsyncRustbus.pathStartsWith` —
  `std::path::Component`, `Path::components` and `Path::starts_with` on Unix.
* `AsyncRustbus.validateSkipRoot`, `AsyncRustbus.validateStr` — the validation of
  `ObjectPath::from_str`.
* `AsyncRustbus.ObjectPath` — a validated text, with `ObjectPath.fromStr` and
  `ObjectPath.components`.

## Main results

* `AsyncRustbus.validateStr_ok_iff` — the texts accepted are `/` and the nonempty
  concatenations of `/`-led segments of `[A-Za-z0-9_]`.
* `AsyncRustbus.ObjectPath.pathComponents_eq` — the components of an object path are a root
  directory followed by normal components, so the `unreachable!` of `components` is one.
* `AsyncRustbus.ObjectPath.components_injective` — a path is determined by its components.
-/

namespace AsyncRustbus

/-! ## `std::path` -/

/-- `std::path::Component` without the Windows prefixes. -/
inductive Component
  | rootDir
  | curDir
  | parentDir
  | normal (name : Str)
  deriving DecidableEq

/-- One piece between separators: empty pieces and `.` are skipped. -/
def parseSingleComponent (piece : Str) : Option Component :=
  if piece = [] then none
  else if piece = ['.'] then none
  else if piece = ['.', '.'] then some .parentDir
  else some (.normal piece)

/-- What `Path::components` yields first: the root directory of an absolute path, the current
directory of a relative path whose first piece is `.`. -/
def leadingComponent : Str → List Component
  | '/' :: _ => [.rootDir]
  | ['.'] => [.curDir]
  | '.' :: '/' :: _ => [.curDir]
  | _ => []

/-- `Path::components` on Unix. -/
def pathComponents (path : Str) : List Component :=
  leadingComponent path ++ (path.splitOn '/').filterMap parseSingleComponent

/-- `Path::starts_with`: whole components are compared, not characters. -/
def pathStartsWith (path base : Str) : Bool :=
  (pathComponents base).isPrefixOf (pathComponents path)

/-! ## Validation -/

/-- `path::InvalidObjectPath`. -/
inductive InvalidObjectPath
  | noRoot
  | containsInvalidCharacters
  | consecutiveSlashes
  | trailingSlash
  deriving DecidableEq, Repr

/-- The characters of a path element: `[A-Z][a-z][0-9]_`. -/
def isElementChar (c : Char) : Bool :=
  ('A' ≤ c && c ≤ 'Z') || ('a' ≤ c && c ≤ 'z') || ('0' ≤ c && c ≤ '9') || c == '_'

/-- The character loop of `validate_skip_root`, entered with its `last_was_sep`. -/
def validateChars : Bool → Str → Except InvalidObjectPath Unit
  | _, [] => .ok ()
  | lastWasSep, c :: cs =>
    if isElementChar c then validateChars false cs
    else if c = '/' then
      if lastWasSep then .error .consecutiveSlashes else validateChars true cs
    else .error .containsInvalidCharacters

/-- `ObjectPath::validate_skip_root`. -/
def validateSkipRoot (path : Str) : Except InvalidObjectPath Unit :=
  match validateChars false path with
  | .error e => .error e
  | .ok () =>
    if (toUtf8 path).length ≠ 1 ∧ path.getLast? = some '/' then .error .trailingSlash else .ok ()

/-- `ObjectPath::validate_str`. -/
def validateStr (path : Str) : Except InvalidObjectPath Unit :=
  if path.head? = some '/' then validateSkipRoot path else .error .noRoot

/-! ## The accepted grammar -/

/-- A path element: nonempty, of element characters only. -/
def IsSegment (w : Str) : Prop := w ≠ [] ∧ ∀ c ∈ w, isElementChar c = true

/-- The text `/w₁/w₂…` of a list of segments. -/
def joinSegments (segs : List Str) : Str := segs.flatMap ('/' :: ·)

/-- The text of the path with the given segments: `/` when there are none. -/
def segmentsText (segs : List Str) : Str := if segs = [] then ['/'] else joinSegments segs

/-- The separator is not an element character. -/
private lemma isElementChar_slash : isElementChar '/' = false := by decide

/-- A segment contains no separator. -/
lemma slash_notMem {w : Str} (h : ∀ c ∈ w, isElementChar c = true) : '/' ∉ w := by
  intro hmem
  have := h _ hmem
  rw [isElementChar_slash] at this
  exact absurd this (by decide)

/-- Behind a separator the loop only adds that the next character is not a separator. -/
private lemma validateChars_true_iff (cs : Str) :
    validateChars true cs = .ok () ↔ validateChars false cs = .ok () ∧ cs.head? ≠ some '/' := by
  cases cs with
  | nil => simp [validateChars]
  | cons c cs =>
    by_cases hc : isElementChar c = true
    · have hne : c ≠ '/' := by
        rintro rfl
        rw [isElementChar_slash] at hc
        exact absurd hc (by decide)
      simp [validateChars, hc, hne]
    · by_cases hs : c = '/'
      · simp [validateChars, hs, isElementChar_slash]
      · simp [validateChars, hc, hs]

/-- What the loop accepts, up to a trailing separator, is one run of element characters
followed by segments.

**Proof sketch.** Induction on the text.  An element character extends the first run.  A
separator is followed by something (no trailing separator) that is not a separator, so the
first run of the rest is nonempty and becomes a segment. -/
private lemma exists_segments_of_validateChars (cs : Str)
    (h : validateChars false cs = .ok ()) (hlast : cs.getLast? ≠ some '/') :
    ∃ w segs, (∀ c ∈ w, isElementChar c = true) ∧ (∀ s ∈ segs, IsSegment s) ∧
      cs = w ++ joinSegments segs := by
  induction cs with
  | nil => exact ⟨[], [], by simp, by simp, by simp [joinSegments]⟩
  | cons c cs ih =>
    by_cases hc : isElementChar c = true
    · simp only [validateChars, hc, if_true] at h
      have hlast' : cs.getLast? ≠ some '/' := by
        cases cs with
        | nil => simp
        | cons d ds => simpa [List.getLast?_cons_cons] using hlast
      obtain ⟨w, segs, hw, hsegs, rfl⟩ := ih h hlast'
      exact ⟨c :: w, segs, by simpa [hc] using hw, hsegs, rfl⟩
    · by_cases hs : c = '/'
      · subst hs
        simp only [validateChars, isElementChar_slash, Bool.false_eq_true, if_false, if_true] at h
        obtain ⟨hok, hhead⟩ := (validateChars_true_iff cs).mp h
        cases cs with
        | nil => simp at hlast
        | cons d ds =>
          have hlast' : (d :: ds).getLast? ≠ some '/' := by
            simpa [List.getLast?_cons_cons] using hlast
          obtain ⟨w, segs, hw, hsegs, heq⟩ := ih hok hlast'
          have hne : w ≠ [] := by
            rintro rfl
            cases segs with
            | nil => simp [joinSegments] at heq
            | cons s segs => exact hhead (by rw [heq]; simp [joinSegments])
          refine ⟨[], w :: segs, by simp, ?_, by simp [joinSegments, heq]⟩
          intro s hs
          rcases List.mem_cons.mp hs with rfl | hs
          · exact ⟨hne, hw⟩
          · exact hsegs s hs
      · simp [validateChars, hc, hs] at h

/-- The loop accepts a run of element characters followed by segments.

**Proof sketch.** By induction on the segments, and for each on the run in front of it. The
separator is followed by the first character of a segment, which is not a separator; the rest of the
segment is a run in front of the other segments. -/
private lemma validateChars_append_joinSegments (segs : List Str)
    (hsegs : ∀ s ∈ segs, IsSegment s) :
    ∀ w : Str, (∀ c ∈ w, isElementChar c = true) →
      validateChars false (w ++ joinSegments segs) = .ok () := by
  induction segs with
  | nil =>
    intro w hw
    induction w with
    | nil => simp [joinSegments, validateChars]
    | cons c w ih =>
      have hc := hw c (by simp)
      simpa [validateChars, hc, joinSegments] using ih fun d hd => hw d (by simp [hd])
  | cons s segs ih =>
    have hs := hsegs s (by simp)
    have hrest := ih (fun t ht => hsegs t (by simp [ht])) s hs.2
    intro w hw
    induction w with
    | nil =>
      have hhead : (s ++ joinSegments segs).head? ≠ some '/' := by
        obtain ⟨c, s', rfl⟩ := List.exists_cons_of_ne_nil hs.1
        intro h
        simp only [List.cons_append, List.head?_cons, Option.some.injEq] at h
        exact slash_notMem hs.2 (by simp [h])
      have := (validateChars_true_iff _).mpr ⟨hrest, hhead⟩
      simpa [joinSegments, validateChars, isElementChar_slash] using this
    | cons c w ihw =>
      have hc := hw c (by simp)
      simpa [validateChars, hc] using ihw fun d hd => hw d (by simp [hd])

/-- The last character of a nonempty list of segments is not a separator. -/
lemma getLast?_joinSegments_ne {segs : List Str} (hne : segs ≠ [])
    (hsegs : ∀ s ∈ segs, IsSegment s) : (joinSegments segs).getLast? ≠ some '/' := by
  obtain ⟨init, s, rfl⟩ : ∃ init s, segs = init ++ [s] :=
    ⟨segs.dropLast, segs.getLast hne, (List.dropLast_append_getLast hne).symm⟩
  have hs := hsegs s (by simp)
  obtain ⟨init', c, rfl⟩ : ∃ init' c, s = init' ++ [c] :=
    ⟨s.dropLast, s.getLast hs.1, (List.dropLast_append_getLast hs.1).symm⟩
  intro h
  have hlast : (joinSegments (init ++ [init' ++ [c]])).getLast? = some c := by
    simp [joinSegments, List.getLast?_cons]
  rw [hlast, Option.some.injEq] at h
  exact slash_notMem hs.2 (by simp [h])

/-- A text of at least two characters has at least two bytes. -/
private lemma length_toUtf8_ne_one (c d : Char) (cs : Str) :
    (toUtf8 (c :: d :: cs)).length ≠ 1 := by
  have hc := c.utf8Size_pos
  have hd := d.utf8Size_pos
  simp only [toUtf8, List.flatMap_cons, List.length_append, String.length_utf8EncodeChar]
  omega

/-- **The grammar of `validate_str`**: it accepts `/` and the nonempty concatenations of
segments, nothing else.

**Proof sketch.** Both directions follow the character loop.  An accepted text starts with a
separator and, unless it is `/`, does not end with one, so `exists_segments_of_validateChars`
cuts it into segments; conversely the loop accepts segments and their last character is no
separator. -/
theorem validateStr_ok_iff (s : Str) :
    validateStr s = .ok () ↔ ∃ segs, (∀ w ∈ segs, IsSegment w) ∧ s = segmentsText segs := by
  constructor
  · intro h
    unfold validateStr at h
    split_ifs at h with hroot
    unfold validateSkipRoot at h
    split at h
    · cases h
    · rename_i hchars
      obtain ⟨cs, rfl⟩ : ∃ cs, s = '/' :: cs := by
        cases s with
        | nil => simp at hroot
        | cons c cs => exact ⟨cs, by simpa using hroot⟩
      cases cs with
      | nil => exact ⟨[], by simp, by simp [segmentsText]⟩
      | cons d ds =>
        split_ifs at h with htrail
        have hlast : ('/' :: d :: ds).getLast? ≠ some '/' := fun hl =>
          htrail ⟨length_toUtf8_ne_one _ _ _, hl⟩
        obtain ⟨w, segs, hw, hsegs, heq⟩ := exists_segments_of_validateChars _ hchars hlast
        have hwnil : w = [] := by
          cases w with
          | nil => rfl
          | cons c w =>
            simp only [List.cons_append, List.cons.injEq] at heq
            exact absurd (heq.1 ▸ List.mem_cons_self) (slash_notMem hw)
        subst hwnil
        refine ⟨segs, hsegs, ?_⟩
        have hne : segs ≠ [] := by
          rintro rfl
          simp [joinSegments] at heq
        simpa [segmentsText, hne] using heq
  · rintro ⟨segs, hsegs, rfl⟩
    by_cases hne : segs = []
    · subst hne
      decide
    · have hroot : (joinSegments segs).head? = some '/' := by
        obtain ⟨s, segs', rfl⟩ := List.exists_cons_of_ne_nil hne
        simp [joinSegments]
      have hchars := validateChars_append_joinSegments segs hsegs [] (by simp)
      rw [List.nil_append] at hchars
      simp [segmentsText, hne, validateStr, hroot, validateSkipRoot, hchars,
        getLast?_joinSegments_ne hne hsegs]

/-- On a relative text `validate_skip_root` decides whether the text is empty or becomes valid
with a root in front. -/
lemma validateSkipRoot_ok_iff_of_relative {s : Str} (h : s.head? ≠ some '/') :
    validateSkipRoot s = .ok () ↔ s = [] ∨ validateStr ('/' :: s) = .ok () := by
  cases s with
  | nil => simp [validateSkipRoot, validateChars]
  | cons c cs =>
    have hc : c ≠ '/' := by simpa using h
    have hchars : validateChars false ('/' :: c :: cs) = validateChars false (c :: cs) := by
      simp [validateChars, isElementChar_slash, hc]
    have htrail : (toUtf8 (c :: cs)).length ≠ 1 ∧ (c :: cs).getLast? = some '/' ↔
        (c :: cs).getLast? = some '/' := by
      refine and_iff_right_of_imp fun hlast => ?_
      cases cs with
      | nil => exact absurd hlast h
      | cons d ds => exact length_toUtf8_ne_one c d ds
    simp only [validateStr, validateSkipRoot, List.head?_cons, if_true, List.getLast?_cons_cons,
      length_toUtf8_ne_one, ne_eq, not_false_eq_true, true_and, reduceCtorEq, false_or, hchars]
    simp only [← ne_eq, htrail]

/-! ## Object paths -/

/-- `ObjectPath`: a text that passed the validation. -/
structure ObjectPath where
  /-- The text of the path. -/
  inner : Str
  /-- It is a valid object path. -/
  valid : validateStr inner = .ok ()
  deriving DecidableEq

namespace ObjectPath

/-- `ObjectPath::from_str`. -/
def fromStr (s : Str) : Except InvalidObjectPath ObjectPath :=
  match h : validateStr s with
  | .ok () => .ok ⟨s, h⟩
  | .error e => .error e

/-- `ObjectPath::components`: the pieces behind the root directory.  The source declares the
other kinds of component unreachable (`pathComponents_eq`). -/
def components (p : ObjectPath) : List Str :=
  (pathComponents p.inner).tail.filterMap fun
    | .normal name => some name
    | _ => none

/-- Two paths with the same text are equal. -/
lemma ext' {p q : ObjectPath} (h : p.inner = q.inner) : p = q := by
  cases p
  cases q
  simpa using h

/-- `from_str` accepts exactly the texts that `validate_str` accepts, and keeps the text. -/
lemma fromStr_eq_ok_iff (s : Str) (p : ObjectPath) : fromStr s = .ok p ↔ p.inner = s := by
  unfold fromStr
  split
  · rename_i h
    simp only [Except.ok.injEq]
    exact ⟨fun h => h ▸ rfl, fun h => ext' h.symm⟩
  · rename_i e h
    simp only [reduceCtorEq, false_iff]
    rintro rfl
    rw [p.valid] at h
    cases h

/-- A piece that is a segment is a normal component. -/
lemma parseSingleComponent_segment {w : Str} (h : IsSegment w) :
    parseSingleComponent w = some (.normal w) := by
  have hdot : '.' ∉ w := fun hmem => absurd (h.2 _ hmem) (by decide)
  have h1 : w ≠ ['.'] := by rintro rfl; simp at hdot
  have h2 : w ≠ ['.', '.'] := by rintro rfl; simp at hdot
  simp [parseSingleComponent, h.1, h1, h2]

/-- The components of pieces that are segments. -/
lemma filterMap_segments {segs : List Str} (hsegs : ∀ s ∈ segs, IsSegment s) :
    segs.filterMap parseSingleComponent = segs.map .normal := by
  rw [← List.filterMap_eq_map]
  exact List.filterMap_congr fun s hs => parseSingleComponent_segment (hsegs s hs)

/-- Cutting a run without separators followed by segments gives back the run and the
segments. -/
lemma splitOn_append_joinSegments {segs : List Str} (hsegs : ∀ s ∈ segs, IsSegment s) :
    ∀ w : Str, '/' ∉ w → (w ++ joinSegments segs).splitOn '/' = w :: segs := by
  induction segs with
  | nil =>
    intro w hw
    simpa [joinSegments] using List.splitOn_eq_singleton hw
  | cons s segs ih =>
    intro w hw
    have hs := hsegs s (by simp)
    have hrest := ih (fun t ht => hsegs t (by simp [ht])) s (slash_notMem hs.2)
    have hshape : w ++ joinSegments (s :: segs) = w ++ '/' :: (s ++ joinSegments segs) := by
      simp [joinSegments]
    rw [hshape, List.splitOn_append_cons_self_of_not_mem hw, hrest]

/-- The components of the text of a list of segments. -/
lemma pathComponents_segmentsText {segs : List Str} (hsegs : ∀ s ∈ segs, IsSegment s) :
    pathComponents (segmentsText segs) = .rootDir :: segs.map .normal := by
  by_cases hne : segs = []
  · subst hne
    decide
  · have hlead : leadingComponent (joinSegments segs) = [.rootDir] := by
      obtain ⟨s, segs', rfl⟩ := List.exists_cons_of_ne_nil hne
      simp [joinSegments, leadingComponent]
    have hsplit := splitOn_append_joinSegments hsegs [] (by simp)
    rw [List.nil_append] at hsplit
    simp [segmentsText, hne, pathComponents, hlead, hsplit, parseSingleComponent,
      filterMap_segments hsegs]

/-- The segments of a path, and what they determine: the text and the components. -/
lemma exists_segments (p : ObjectPath) :
    (∀ w ∈ p.components, IsSegment w) ∧ p.inner = segmentsText p.components ∧
      pathComponents p.inner = .rootDir :: p.components.map .normal := by
  obtain ⟨segs, hsegs, htext⟩ := (validateStr_ok_iff p.inner).mp p.valid
  have hcomp := pathComponents_segmentsText hsegs
  rw [← htext] at hcomp
  have hsame : p.components = segs := by
    simp [components, hcomp, List.filterMap_map]
  rw [hsame]
  exact ⟨hsegs, htext, hcomp⟩

/-- All components of an object path behind the root directory are normal. -/
theorem pathComponents_eq (p : ObjectPath) :
    pathComponents p.inner = .rootDir :: p.components.map .normal :=
  p.exists_segments.2.2

/-- **A path is determined by its components.** -/
theorem components_injective : Function.Injective components := by
  intro p q h
  apply ext'
  rw [p.exists_segments.2.1, q.exists_segments.2.1, h]

/-- The path with the given segments. -/
def ofSegments (segs : List Str) (h : ∀ w ∈ segs, IsSegment w) : ObjectPath :=
  ⟨segmentsText segs, (validateStr_ok_iff _).mpr ⟨segs, h, rfl⟩⟩

/-- The components of the path with the given segments are the segments. -/
@[simp] lemma components_ofSegments (segs : List Str) (h : ∀ w ∈ segs, IsSegment w) :
    (ofSegments segs h).components = segs := by
  simp [components, ofSegments, pathComponents_segmentsText h, List.filterMap_map]

end ObjectPath

end AsyncRustbus
