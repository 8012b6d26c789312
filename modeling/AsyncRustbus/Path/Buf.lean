import AsyncRustbus.Path.Algebra

set_option relaxedAutoImplicit false
set_option autoImplicit false

/-!
# `ObjectPathBuf`

An owned object path is an optional `PathBuf`; no buffer stands for the root path.  `deref`
declares the text of the buffer an object path without validation, so every mutator has to leave
a valid one.  `clear` leaves an empty text in the buffer and `reserve_exact` puts an empty buffer
where there was none: neither is an object path.

Requests for more memory than there is abort before the path changes and are not modelled.

## Main definitions

* `AsyncRustbus.ObjectPathBuf` — the buffer, with the constructors and the mutators.
* `ObjectPathBuf.ChecksAsDocumented`, `ObjectPathBuf.IsMended` — what `push_path_checked`
  documents, and the texts on which it does something else.

## Main results

* `ObjectPathBuf.push_eq` — `push` appends components.
* `ObjectPathBuf.path_algebra` — the laws of `push`, `strip_prefix`, `pop`, `parent` and
  `file_name`.
* `ObjectPathBuf.checksAsDocumented_iff` — when `push_path_checked` does what it documents:
  unless `strip_prefix` mends the spelling of an absolute text.
* `ObjectPathBuf.pushPathChecked_valid` — it leaves a valid path in any case.
-/

namespace AsyncRustbus

/-- `ObjectPathBuf`: the buffer of a path, or none for the root path. -/
structure ObjectPathBuf where
  inner : Option Str
  deriving DecidableEq

namespace ObjectPathBuf

/-! ## Constructors -/

/-- `<ObjectPathBuf as Deref>::deref`, as the text of the path. -/
def deref (b : ObjectPathBuf) : Str :=
  match b.inner with
  | some buf => buf
  | none => ['/']

/-- The text of a buffer is the path. -/
@[simp] lemma deref_some (buf : Str) : deref ⟨some buf⟩ = buf := rfl

/-- No buffer is the root path. -/
@[simp] lemma deref_none : deref ⟨none⟩ = ['/'] := rfl

/-- `ObjectPathBuf::new`, which is also the `Default`. -/
def new : ObjectPathBuf := ⟨none⟩

/-- `ObjectPathBuf::with_capacity`. -/
def withCapacity (capacity : ℕ) : ObjectPathBuf :=
  if capacity = 0 then ⟨none⟩ else ⟨some (PathBuf.push [] ['/'])⟩

/-- `ObjectPathBuf::from_path_buf`. -/
def fromPathBuf (pb : Str) : ObjectPathBuf := ⟨some pb⟩

/-- `From<&ObjectPath>`: the root path needs no buffer. -/
def fromObjectPath (debugAssertions : Bool) (path : ObjectPath) : Res Empty ObjectPathBuf :=
  let ret := if pathComponents path.inner = pathComponents ObjectPath.rootPath.inner then new
    else fromPathBuf path.inner
  if ObjectPath.debugAssertValidity debugAssertions ret.deref then .ok ret else .panic

/-- `TryFrom<OsString>`, `TryFrom<String>` and `TryFrom<PathBuf>`: an owned text is kept. -/
def tryFromOwned (value : Str) : Except InvalidObjectPath ObjectPathBuf :=
  match ObjectPath.validate value with
  | .error e => .error e
  | .ok () => .ok (fromPathBuf value)

/-- A conversion that borrows an object path first and copies it. -/
def tryFromBorrowed (debugAssertions : Bool) (path : Except InvalidObjectPath ObjectPath) :
    Res InvalidObjectPath ObjectPathBuf :=
  match path with
  | .error e => .err e
  | .ok p =>
    match fromObjectPath debugAssertions p with
    | .ok b => .ok b
    | .err e => nomatch e
    | .panic => .panic

/-- `TryFrom<&str>`, through `FromStr`. -/
def tryFromStr (debugAssertions : Bool) (value : Str) : Res InvalidObjectPath ObjectPathBuf :=
  tryFromBorrowed debugAssertions (ObjectPath.fromStr value)

/-- `TryFrom<&OsStr>` and `TryFrom<&Path>`. -/
def tryFromPath (debugAssertions : Bool) (value : Str) : Res InvalidObjectPath ObjectPathBuf :=
  tryFromBorrowed debugAssertions (ObjectPath.fromPath value)

/-! ## Mutators -/

/-- `ObjectPathBuf::clear`. -/
def clear (b : ObjectPathBuf) : ObjectPathBuf := ⟨b.inner.map fun _ => []⟩

/-- `ObjectPathBuf::reserve`. -/
def reserve (b : ObjectPathBuf) (additional : ℕ) : ObjectPathBuf :=
  if additional = 0 then b
  else
    match b.inner with
    | some buf => ⟨some buf⟩
    | none => withCapacity (additional + 1)

/-- `ObjectPathBuf::reserve_exact`. -/
def reserveExact (b : ObjectPathBuf) (additional : ℕ) : ObjectPathBuf :=
  if additional = 0 then b
  else
    match b.inner with
    | some buf => ⟨some buf⟩
    | none => ⟨some []⟩

/-- `ObjectPathBuf::push_path_unchecked`. -/
def pushPathUnchecked (debugAssertions : Bool) (b : ObjectPathBuf) (path : Str) :
    Res Empty ObjectPathBuf :=
  let len := (toUtf8 path).length
  if len = 0 then .ok b
  else
    match (b.reserve (len + 1)).inner with
    | none => .panic
    | some inner =>
      let ret : ObjectPathBuf := ⟨some (PathBuf.push inner path)⟩
      if ObjectPath.debugAssertValidity debugAssertions ret.deref then .ok ret else .panic

/-- `ObjectPathBuf::push`. -/
def push (debugAssertions : Bool) (b : ObjectPathBuf) (path : ObjectPath) :
    Res Empty ObjectPathBuf :=
  match Path.stripPrefix path.inner ['/'] with
  | none => .panic
  | some path => b.pushPathUnchecked debugAssertions path

/-- `ObjectPathBuf::push_path_checked`: the result, and the buffer afterwards. -/
def pushPathChecked (debugAssertions : Bool) (b : ObjectPathBuf) (path : Str) :
    Res Empty (Except InvalidObjectPath Unit × ObjectPathBuf) :=
  let path := (Path.stripPrefix path ['/']).getD path
  match validateSkipRoot path with
  | .error e => .ok (.error e, b)
  | .ok () =>
    match b.pushPathUnchecked debugAssertions path with
    | .ok b => .ok (.ok (), b)
    | .err e => nomatch e
    | .panic => .panic

/-- `ObjectPathBuf::pop`: whether the path changed, and the buffer afterwards. -/
def pop (b : ObjectPathBuf) : Bool × ObjectPathBuf :=
  match b.inner with
  | none => (false, b)
  | some buf => ((PathBuf.pop buf).1, ⟨some (PathBuf.pop buf).2⟩)

/-! ## Appending -/

/-- Reserving some space makes sure that there is a buffer, with the text of the path. -/
lemma reserve_inner (b : ObjectPathBuf) {additional : ℕ} (h : additional ≠ 0) :
    (b.reserve additional).inner = some b.deref := by
  rw [reserve, if_neg h, deref]
  cases b.inner with
  | some buf => rfl
  | none => rfl

/-- Reserving does not change the path. -/
lemma deref_reserve (b : ObjectPathBuf) (additional : ℕ) :
    (b.reserve additional).deref = b.deref := by
  by_cases h : additional = 0
  · rw [reserve, if_pos h]
  · rw [deref, reserve_inner b h]

/-- **Appending joined segments** to a valid path: the segments are appended to its
components, and the assertion of debug builds holds. -/
lemma pushPathUnchecked_joinPieces (debugAssertions : Bool) {b : ObjectPathBuf} {p : ObjectPath}
    (hb : b.deref = p.inner) {segs : List Str} (hsegs : ∀ w ∈ segs, IsSegment w) :
    ∃ (c : ObjectPathBuf) (o : ObjectPath),
      b.pushPathUnchecked debugAssertions (Path.joinPieces segs) = .ok c ∧ c.deref = o.inner ∧
        o.components = p.components ++ segs := by
  obtain ⟨hcomp, htext, -⟩ := p.exists_segments
  have happ : ∀ w ∈ p.components ++ segs, IsSegment w := by
    intro w hw
    rcases List.mem_append.mp hw with hw | hw
    · exact hcomp w hw
    · exact hsegs w hw
  by_cases hne : segs = []
  · subst hne
    exact ⟨b, p, rfl, hb, (List.append_nil _).symm⟩
  · have hlen : (toUtf8 (Path.joinPieces segs)).length ≠ 0 := by
      rwa [ne_eq, length_toUtf8_eq_zero_iff, Path.joinPieces_eq_nil_iff hsegs]
    have hpush := PathBuf.push_segmentsText hcomp hsegs hne
    rw [← htext, ← hb] at hpush
    refine ⟨⟨some (segmentsText (p.components ++ segs))⟩, .ofSegments _ happ, ?_, rfl,
      ObjectPath.components_ofSegments _ _⟩
    simp only [pushPathUnchecked, if_neg hlen, reserve_inner b (Nat.succ_ne_zero _), hpush,
      deref_some, ObjectPath.debugAssertValidity_segmentsText debugAssertions happ, if_true]

/-- What `push` strips from its argument leaves the joined components. -/
private lemma stripPrefix_root_inner (q : ObjectPath) :
    Path.stripPrefix q.inner ['/'] = some (Path.joinPieces q.components) := by
  obtain ⟨hsegs, htext, -⟩ := q.exists_segments
  have hroot : Path.hasRoot q.inner = true := by
    rw [htext, Path.segmentsText_eq]
    rfl
  have hstrip := Path.stripPrefix_segmentsText hsegs ['/']
  rw [← htext, Path.pathStartsWith_root, hroot] at hstrip
  simpa using hstrip

/-- **`push` appends the components** of its argument. -/
theorem push_eq (debugAssertions : Bool) {b : ObjectPathBuf} {p : ObjectPath}
    (hb : b.deref = p.inner) (q : ObjectPath) :
    ∃ (c : ObjectPathBuf) (o : ObjectPath), b.push debugAssertions q = .ok c ∧
      c.deref = o.inner ∧ o.components = p.components ++ q.components := by
  simp only [push, stripPrefix_root_inner]
  exact pushPathUnchecked_joinPieces debugAssertions hb q.exists_segments.1

/-- `pop` drops the last component, if there is one. -/
lemma pop_eq {b : ObjectPathBuf} {p : ObjectPath} (hb : b.deref = p.inner) :
    b.pop.1 = !p.components.isEmpty ∧ b.pop.2.deref = segmentsText p.components.dropLast := by
  obtain ⟨hsegs, htext, -⟩ := p.exists_segments
  obtain ⟨inner⟩ := b
  cases inner with
  | none =>
    have hroot : p.components = [] := ObjectPath.components_eq_of_inner (by simp) hb.symm
    rw [hroot]
    exact ⟨rfl, rfl⟩
  | some buf =>
    have hparent := Path.parent_segmentsText hsegs
    rw [← htext, ← hb, deref_some] at hparent
    simp only [pop, PathBuf.pop, hparent, deref_some]
    cases hcomp : p.components with
    | nil =>
      rw [deref_some, htext, hcomp] at hb
      simp [hb]
    | cons s segs => simp

/-- A path is the root exactly when it has no components. -/
lemma deref_eq_root_iff {b : ObjectPathBuf} {p : ObjectPath} (hb : b.deref = p.inner) :
    b.deref = ['/'] ↔ p.components = [] := by
  constructor
  · intro hroot
    exact ObjectPath.components_eq_of_inner (by simp) (hb ▸ hroot)
  · intro hroot
    rw [hb, p.exists_segments.2.1, hroot]
    rfl

/-- **`pop`, `parent` and `file_name` agree**: on the root there is nothing to take, otherwise
all three split off the last component. -/
lemma pop_agrees (debugAssertions : Bool) {b : ObjectPathBuf} {p : ObjectPath}
    (hb : b.deref = p.inner) :
    (b.pop.1 = false ↔ b.deref = ['/']) ∧
    (b.pop.1 = false →
      b.pop.2.deref = b.deref ∧ p.parent debugAssertions = .ok none ∧ p.fileName = none) ∧
    (b.pop.1 = true → ∃ init last, p.components = init ++ [last] ∧
      (∃ q : ObjectPath, q.inner = b.pop.2.deref ∧ q.components = init) ∧
      p.parent debugAssertions = .ok (some b.pop.2.deref) ∧ p.fileName = some last) := by
  obtain ⟨hpop, hderef⟩ := pop_eq hb
  rw [deref_eq_root_iff hb, hpop, hderef, ObjectPath.parent_eq, ObjectPath.fileName_eq]
  refine ⟨by simp, ?_, ?_⟩
  · intro hempty
    have hroot : p.components = [] := by simpa using hempty
    rw [hb, p.exists_segments.2.1, hroot]
    exact ⟨rfl, rfl, rfl⟩
  · intro hsome
    have hne : p.components ≠ [] := by simpa using hsome
    have hinit : ∀ w ∈ p.components.dropLast, IsSegment w := fun w hw =>
      p.exists_segments.1 w (List.dropLast_subset _ hw)
    refine ⟨p.components.dropLast, p.components.getLast hne,
      (List.dropLast_append_getLast hne).symm, ?_, ?_, ?_⟩
    · exact ⟨.ofSegments _ hinit, rfl, ObjectPath.components_ofSegments _ _⟩
    · rw [if_neg hne]
    · exact List.getLast?_eq_some_getLast hne

/-! ## The laws -/

/-- **The algebra of object paths.**  Pushing appends components; `strip_prefix` undoes it, is
defined exactly on the prefixes and is undone by pushing onto the prefix; `pop` fails exactly on
the root and otherwise takes off the last component, as `parent` and `file_name` do.

**Proof sketch.** `push_eq` gives the pushed path, whose components are those of both. By
`stripPrefix_inner` a prefix is stripped exactly where its components come first, and the components
that are left are those of a path; pushing them onto the prefix gives the components of the whole,
which determine the path. `pop_agrees` is the last part. -/
theorem path_algebra (debugAssertions : Bool) (a b : ObjectPath) (buf : ObjectPathBuf)
    (hbuf : buf.deref = a.inner) :
    ∃ (c : ObjectPathBuf) (o : ObjectPath),
      buf.push debugAssertions b = .ok c ∧ c.deref = o.inner ∧
      o.components = a.components ++ b.components ∧
      o.stripPrefix debugAssertions a.inner = .ok b.inner ∧
      (∀ p : ObjectPath,
        ((∃ r, o.stripPrefix debugAssertions p.inner = .ok r) ↔
          p.components <+: o.components) ∧
        ∀ r, o.stripPrefix debugAssertions p.inner = .ok r →
          ∃ q : ObjectPath, q.inner = r ∧
            ∀ pbuf : ObjectPathBuf, pbuf.deref = p.inner →
              ∃ c', pbuf.push debugAssertions q = .ok c' ∧ c'.deref = c.deref) ∧
      (c.pop.1 = false ↔ c.deref = ['/']) ∧
      (c.pop.1 = false →
        c.pop.2.deref = c.deref ∧ o.parent debugAssertions = .ok none ∧ o.fileName = none) ∧
      (c.pop.1 = true → ∃ init last, o.components = init ++ [last] ∧
        (∃ q : ObjectPath, q.inner = c.pop.2.deref ∧ q.components = init) ∧
        o.parent debugAssertions = .ok (some c.pop.2.deref) ∧ o.fileName = some last) := by
  obtain ⟨c, o, hpush, ho, hcomp⟩ := push_eq debugAssertions hbuf b
  refine ⟨c, o, hpush, ho, hcomp, ?_, ?_, pop_agrees debugAssertions ho⟩
  · rw [ObjectPath.stripPrefix_inner, hcomp, if_pos (List.prefix_append _ _), List.drop_left,
      ← b.exists_segments.2.1]
  · intro p
    rw [ObjectPath.stripPrefix_inner]
    refine ⟨by split_ifs with hpre <;> simp [hpre], ?_⟩
    intro r hr
    split_ifs at hr with hpre
    obtain ⟨rest, hrest⟩ := hpre
    have hq : ∀ w ∈ rest, IsSegment w := fun w hw =>
      o.exists_segments.1 w (by simp [← hrest, hw])
    refine ⟨.ofSegments rest hq, ?_, ?_⟩
    · simpa [ObjectPath.ofSegments, ← hrest] using hr
    · intro pbuf hp
      obtain ⟨c', o', hc', ho', hcomp'⟩ := push_eq debugAssertions hp (.ofSegments rest hq)
      rw [ObjectPath.components_ofSegments, hrest] at hcomp'
      exact ⟨c', hc', by rw [ho', ho, ObjectPath.components_injective hcomp']⟩

/-- The laws at `/a` and `/b`, from the buffer that holds `/a`. -/
theorem path_algebra_slash_a : (⟨some ['/', 'a']⟩ : ObjectPathBuf).deref = ['/', 'a'] ∧
    ∃ (c : ObjectPathBuf) (o : ObjectPath),
      ObjectPathBuf.push true ⟨some ['/', 'a']⟩ ⟨['/', 'b'], by decide⟩ = .ok c ∧
      c.deref = o.inner ∧ o.components = [['a'], ['b']] := by
  refine ⟨rfl, ?_⟩
  obtain ⟨c, o, hpush, ho, hcomp, -⟩ :=
    path_algebra true ⟨['/', 'a'], by decide⟩ ⟨['/', 'b'], by decide⟩ ⟨some ['/', 'a']⟩ rfl
  exact ⟨c, o, hpush, ho, hcomp.trans (by decide)⟩

/-! ## `push_path_checked` -/

/-- The absolute texts whose spelling `Path::strip_prefix` mends: segments with empty pieces or
pieces `.` in front of the first or behind the last of them. -/
def IsMended (t : Str) : Prop :=
  t ≠ ['/'] ∧ ∃ lead segs trail, lead ++ trail ≠ [] ∧ (∀ w ∈ lead ++ trail, w = [] ∨ w = ['.']) ∧
    (∀ w ∈ segs, IsSegment w) ∧ t = joinSegments (lead ++ segs ++ trail)

/-- A mended spelling is absolute. -/
private lemma IsMended.head?_eq {t : Str} (h : IsMended t) : t.head? = some '/' := by
  obtain ⟨-, lead, segs, trail, hne, -, -, rfl⟩ := h
  have hpieces : lead ++ segs ++ trail ≠ [] := by
    intro hnil
    simp_all
  rw [Path.joinSegments_eq hpieces, List.head?_cons]

/-- The first piece of what is left of a text without its root is not empty. -/
private lemma head_trim_ne_nil {rest w : Str}
    (h : w ∈ (Path.trimRight (Path.trimLeft (rest.splitOn '/'))).head?) : w ≠ [] := by
  obtain ⟨ws, hws⟩ := List.head?_eq_some_iff.mp h
  have hpre : w :: ws <+: Path.trimLeft (rest.splitOn '/') := by
    rw [← hws]
    exact List.rdropWhile_prefix _ _
  obtain ⟨ws', hws'⟩ := hpre
  have hskip := List.head?_dropWhile_not Path.isSkipped (rest.splitOn '/')
  rw [← Path.trimLeft, ← hws'] at hskip
  rintro rfl
  simp [Path.isSkipped, parseSingleComponent] at hskip

/-- Joined pieces pass `validate_skip_root` exactly when all of them are segments. -/
private lemma validateSkipRoot_joinPieces {pieces : List Str} (hsep : ∀ w ∈ pieces, '/' ∉ w)
    (hhead : ∀ w ∈ pieces.head?, w ≠ []) :
    validateSkipRoot (Path.joinPieces pieces) = .ok () ↔ ∀ w ∈ pieces, IsSegment w := by
  cases pieces with
  | nil => simp [Path.joinPieces, validateSkipRoot, validateChars]
  | cons w ws =>
    have hstart := Path.head?_joinPieces (hhead w rfl) ws
    have hne : Path.joinPieces (w :: ws) ≠ [] := by
      rw [ne_eq, ← List.head?_eq_none_iff, hstart, List.head?_eq_none_iff]
      exact hhead w rfl
    have hrel : (Path.joinPieces (w :: ws)).head? ≠ some '/' := by
      rw [hstart]
      intro hslash
      exact hsep w (by simp) (List.mem_of_mem_head? hslash)
    have hpieces : (Path.joinPieces (w :: ws)).splitOn '/' = w :: ws :=
      List.splitOn_intercalate '/' hsep (by simp)
    rw [validateSkipRoot_ok_iff_of_relative hrel, or_iff_right hne, Path.validateStr_slash_iff,
      or_iff_right hne, hpieces]

/-- The pieces of a text contain no separator. -/
private lemma slash_notMem_splitOn {text w : Str} (h : w ∈ text.splitOn '/') : '/' ∉ w := by
  induction text generalizing w with
  | nil =>
    rw [List.splitOn_nil, List.mem_singleton] at h
    simp [h]
  | cons c text ih =>
    rw [List.splitOn_cons_eq_if_modifyHead] at h
    split_ifs at h with hc
    · rcases List.mem_cons.mp h with rfl | h
      · simp
      · exact ih h
    · obtain ⟨v, vs, hv⟩ := List.exists_cons_of_ne_nil (List.splitOn_ne_nil '/' text)
      rw [hv, List.modifyHead_cons] at h
      rcases List.mem_cons.mp h with rfl | h
      · have hv' : '/' ∉ v := ih (by simp [hv])
        have hne : '/' ≠ c := fun heq => hc (by simp [← heq])
        simp [hv', hne]
      · exact ih (by simp [hv, h])

/-- What is left of an absolute text without its root passes `validate_skip_root` exactly when
its pieces are segments. -/
private lemma validateSkipRoot_trim_iff (rest : Str) :
    validateSkipRoot (Path.joinPieces (Path.trimRight (Path.trimLeft (rest.splitOn '/')))) =
      .ok () ↔ ∀ w ∈ Path.trimRight (Path.trimLeft (rest.splitOn '/')), IsSegment w := by
  exact validateSkipRoot_joinPieces (fun w hw => slash_notMem_splitOn (Path.mem_of_mem_trim hw))
    fun w hw => head_trim_ne_nil hw

/-- **Mended spellings**: what is left of the text without its root is made of segments, and the
text itself is not an object path.

**Proof sketch.** The pieces between the separators are the parts of the spelling, of which trimming
takes off those that are skipped at both ends (`trim_append_segments`). A text with a skipped piece
is no object path, since its pieces would all be segments; conversely a text that is none has such a
piece, or it would be valid. -/
private lemma isMended_slash_iff (rest : Str) :
    IsMended ('/' :: rest) ↔
      (∀ w ∈ Path.trimRight (Path.trimLeft (rest.splitOn '/')), IsSegment w) ∧
        validateStr ('/' :: rest) ≠ .ok () := by
  constructor
  · rintro ⟨hroot, lead, segs, trail, hne, hskip, hsegs, htext⟩
    have hpieces : lead ++ segs ++ trail ≠ [] := by
      intro hnil
      simp_all
    have hskip' : ∀ w ∈ lead ++ trail, Path.isSkipped w = true := fun w hw =>
      (Path.isSkipped_iff w).mpr (hskip w hw)
    have hsep : ∀ w ∈ lead ++ segs ++ trail, '/' ∉ w := by
      intro w hw
      have hw' : w ∈ lead ++ trail ∨ w ∈ segs := by
        simp only [List.mem_append] at hw ⊢
        tauto
      rcases hw' with hw | hw
      · rcases hskip w hw with rfl | rfl <;> decide
      · exact slash_notMem (hsegs w hw).2
    have hrest : rest.splitOn '/' = lead ++ segs ++ trail := by
      rw [Path.joinSegments_eq hpieces, List.cons.injEq] at htext
      rw [htext.2]
      exact List.splitOn_intercalate '/' hsep hpieces
    refine ⟨?_, ?_⟩
    · rw [hrest, Path.trim_append_segments hskip' hsegs]
      exact hsegs
    · rw [ne_eq, Path.validateStr_slash_iff, not_or]
      refine ⟨fun hnil => hroot (by rw [hnil]), fun hall => ?_⟩
      obtain ⟨w, hw⟩ := List.exists_mem_of_ne_nil _ hne
      have hseg : IsSegment w := by
        refine hall w ?_
        rw [hrest]
        simp only [List.mem_append] at hw ⊢
        tauto
      simpa [hskip' w hw] using Path.isSkipped_segment hseg
  · rintro ⟨hsegs, hinvalid⟩
    obtain ⟨lead, trail, hskip, hpieces⟩ := Path.exists_trim (rest.splitOn '/')
    refine ⟨?_, lead, _, trail, ?_, fun w hw => (Path.isSkipped_iff w).mp (hskip w hw), hsegs, ?_⟩
    · intro hroot
      rw [hroot] at hinvalid
      exact hinvalid (by decide)
    · intro hnil
      obtain ⟨rfl, rfl⟩ := List.append_eq_nil_iff.mp hnil
      rw [List.nil_append, List.append_nil] at hpieces
      exact hinvalid ((Path.validateStr_slash_iff rest).mpr (.inr (hpieces ▸ hsegs)))
    · rw [← hpieces, Path.joinSegments_eq (List.splitOn_ne_nil _ _), Path.joinPieces_splitOn]

/-- A text that passes the check of `push_path_checked` leaves joined segments. -/
private lemma exists_segments_of_check {t : Str}
    (h : validateSkipRoot ((Path.stripPrefix t ['/']).getD t) = .ok ()) :
    ∃ segs, (∀ w ∈ segs, IsSegment w) ∧
      (Path.stripPrefix t ['/']).getD t = Path.joinPieces segs := by
  by_cases hroot : t.head? = some '/'
  · obtain ⟨rest, rfl⟩ := List.head?_eq_some_iff.mp hroot
    rw [Path.stripPrefix_root, Option.getD_some] at h ⊢
    exact ⟨_, (validateSkipRoot_trim_iff rest).mp h, rfl⟩
  · have hrel : Path.hasRoot t = false := by
      rwa [Bool.eq_false_iff, ne_eq, Path.hasRoot_iff]
    rw [Path.stripPrefix_root_of_relative hrel, Option.getD_none] at h ⊢
    rcases (validateSkipRoot_ok_iff_of_relative hroot).mp h with rfl | hvalid
    · exact ⟨[], by simp, rfl⟩
    · obtain ⟨segs, hsegs, htext⟩ := (validateStr_ok_iff _).mp hvalid
      rw [Path.segmentsText_eq, List.cons.injEq] at htext
      exact ⟨segs, hsegs, htext.2⟩

/-- `push_path_checked` of a text that leaves joined segments succeeds and appends them. -/
private lemma pushPathChecked_of_segments (debugAssertions : Bool) {c : ObjectPathBuf}
    {p : ObjectPath} (hc : c.deref = p.inner) {t : Str} {segs : List Str}
    (hsegs : ∀ w ∈ segs, IsSegment w)
    (ht : (Path.stripPrefix t ['/']).getD t = Path.joinPieces segs) :
    ∃ (c' : ObjectPathBuf) (o : ObjectPath),
      c.pushPathChecked debugAssertions t = .ok (.ok (), c') ∧ c'.deref = o.inner ∧
        o.components = p.components ++ segs := by
  obtain ⟨c', o, hpush, hderef, hcomp⟩ := pushPathUnchecked_joinPieces debugAssertions hc hsegs
  have hvalid : validateSkipRoot (Path.joinPieces segs) = .ok () :=
    (validateSkipRoot_joinPieces (fun w hw => slash_notMem (hsegs w hw).2)
      fun w hw => (hsegs w (List.mem_of_mem_head? hw)).1).mpr hsegs
  exact ⟨c', o, by simp only [pushPathChecked, ht, hvalid, hpush], hderef, hcomp⟩

/-- `push_path_checked` of a text that leaves something invalid changes nothing. -/
private lemma pushPathChecked_of_error (debugAssertions : Bool) (c : ObjectPathBuf) {t : Str}
    {e : InvalidObjectPath}
    (ht : validateSkipRoot ((Path.stripPrefix t ['/']).getD t) = .error e) :
    c.pushPathChecked debugAssertions t = .ok (.error e, c) := by
  simp only [pushPathChecked, ht]

/-- Whatever its argument, `push_path_checked` leaves a valid path. -/
theorem pushPathChecked_valid (debugAssertions : Bool) {c : ObjectPathBuf} {p : ObjectPath}
    (hc : c.deref = p.inner) (t : Str) :
    ∃ res c', c.pushPathChecked debugAssertions t = .ok (res, c') ∧
      ∃ o : ObjectPath, c'.deref = o.inner := by
  cases hcheck : validateSkipRoot ((Path.stripPrefix t ['/']).getD t) with
  | error e => exact ⟨.error e, c, pushPathChecked_of_error debugAssertions c hcheck, p, hc⟩
  | ok u =>
    obtain ⟨segs, hsegs, hleft⟩ := exists_segments_of_check hcheck
    obtain ⟨c', o, hpush, ho, -⟩ := pushPathChecked_of_segments debugAssertions hc hsegs hleft
    exact ⟨.ok (), c', hpush, o, ho⟩

/-- What `push_path_checked` documents: the empty text, object paths and texts that are object
paths behind a root are appended, everything else is refused and changes nothing. -/
def ChecksAsDocumented (debugAssertions : Bool) (c : ObjectPathBuf) (t : Str) : Prop :=
  ∃ res c', c.pushPathChecked debugAssertions t = .ok (res, c') ∧
    (res = .ok () ↔
      t = [] ∨ ObjectPath.validate t = .ok () ∨ ObjectPath.validate ('/' :: t) = .ok ()) ∧
    (res = .ok () → pathComponents c'.deref =
      pathComponents c.deref ++ (pathComponents t).filter (· ≠ .rootDir)) ∧
    ∀ e, res = .error e → c' = c

/-- Appended segments are appended components. -/
private lemma pathComponents_append {c c' : ObjectPathBuf} {p o : ObjectPath} {segs : List Str}
    (hc : c.deref = p.inner) (ho : c'.deref = o.inner)
    (hcomp : o.components = p.components ++ segs) :
    pathComponents c'.deref = pathComponents c.deref ++ segs.map .normal := by
  rw [hc, ho, p.pathComponents_eq, o.pathComponents_eq, hcomp]
  simp

/-- Normal components are kept when the root is left out. -/
private lemma filter_ne_rootDir (segs : List Str) :
    (segs.map Component.normal).filter (· ≠ .rootDir) = segs.map .normal := by
  rw [List.filter_eq_self]
  simp

/-- A relative text is validated as it stands. -/
private lemma checksAsDocumented_of_relative (debugAssertions : Bool) {c : ObjectPathBuf}
    {p : ObjectPath} (hc : c.deref = p.inner) {t : Str} (hrel : t.head? ≠ some '/') :
    ChecksAsDocumented debugAssertions c t := by
  have hroot : Path.hasRoot t = false := by
    rwa [Bool.eq_false_iff, ne_eq, Path.hasRoot_iff]
  have hstrip : (Path.stripPrefix t ['/']).getD t = t := by
    rw [Path.stripPrefix_root_of_relative hroot, Option.getD_none]
  have hself : validateStr t ≠ .ok () := by simp [validateStr, hrel]
  have hdoc := validateSkipRoot_ok_iff_of_relative hrel
  cases hcheck : validateSkipRoot t with
  | error e =>
    rw [hcheck] at hdoc
    refine ⟨.error e, c, pushPathChecked_of_error debugAssertions c (by rw [hstrip, hcheck]), ?_,
      by simp, by simp⟩
    rw [ObjectPath.validate_eq, ObjectPath.validate_eq, or_iff_right hself, ← hdoc]
  | ok u =>
    obtain ⟨segs, hsegs, hleft⟩ := exists_segments_of_check (hstrip.symm ▸ hcheck)
    obtain ⟨c', o, hpush, ho, hcomp⟩ := pushPathChecked_of_segments debugAssertions hc hsegs hleft
    refine ⟨.ok (), c', hpush, ?_, ?_, by simp⟩
    · rw [ObjectPath.validate_eq, ObjectPath.validate_eq, or_iff_right hself, ← hdoc, hcheck]
    · rw [hstrip] at hleft
      rw [pathComponents_append hc ho hcomp, hleft, Path.pathComponents_joinPieces hsegs,
        filter_ne_rootDir]
      simp

/-- Of an absolute text the pieces between its first and last component are validated.

**Proof sketch.** `std` takes the root off and skips pieces at both ends, and the rest is what is
validated. If all pieces of it are segments, they are pushed, and the documentation asks that the
text itself be valid. Otherwise the check fails and so does the documentation: neither the text nor
the one with a second separator is valid. -/
private lemma checksAsDocumented_slash_iff (debugAssertions : Bool) {c : ObjectPathBuf}
    {p : ObjectPath} (hc : c.deref = p.inner) (rest : Str) :
    ChecksAsDocumented debugAssertions c ('/' :: rest) ↔
      ((∀ w ∈ Path.trimRight (Path.trimLeft (rest.splitOn '/')), IsSegment w) →
        validateStr ('/' :: rest) = .ok ()) := by
  have hstrip : (Path.stripPrefix ('/' :: rest) ['/']).getD ('/' :: rest) =
      Path.joinPieces (Path.trimRight (Path.trimLeft (rest.splitOn '/'))) := by
    rw [Path.stripPrefix_root, Option.getD_some]
  have hdouble : validateStr ('/' :: '/' :: rest) ≠ .ok () := by
    simp [validateStr, validateSkipRoot, validateChars, isElementChar]
  by_cases hsegs : ∀ w ∈ Path.trimRight (Path.trimLeft (rest.splitOn '/')), IsSegment w
  · obtain ⟨c', o, hpush, ho, hcomp⟩ :=
      pushPathChecked_of_segments debugAssertions hc hsegs hstrip
    have hfilter : (pathComponents ('/' :: rest)).filter (· ≠ .rootDir) =
        (Path.trimRight (Path.trimLeft (rest.splitOn '/'))).map .normal := by
      rw [Path.pathComponents_slash, Path.filterMap_trim, ObjectPath.filterMap_segments hsegs,
        List.filter_cons_of_neg (by simp), filter_ne_rootDir]
    rw [forall_prop_of_true hsegs]
    constructor
    · rintro ⟨res, c'', hres, hdoc, -, -⟩
      obtain ⟨rfl, rfl⟩ : res = .ok () ∧ c'' = c' := by simpa [hpush, eq_comm] using hres
      simpa [ObjectPath.validate_eq, hdouble] using hdoc
    · intro hvalid
      refine ⟨.ok (), c', hpush, ?_, fun _ => ?_, by simp⟩
      · simp [ObjectPath.validate_eq, hvalid]
      · rw [pathComponents_append hc ho hcomp, hfilter]
  · refine iff_of_true ?_ fun hall => absurd hall hsegs
    have hself : validateStr ('/' :: rest) ≠ .ok () := by
      rw [ne_eq, Path.validateStr_slash_iff, not_or]
      refine ⟨?_, fun hall => hsegs fun w hw => hall w (Path.mem_of_mem_trim hw)⟩
      rintro rfl
      exact hsegs (by simp [Path.trimLeft, Path.trimRight, Path.isSkipped, parseSingleComponent])
    cases hcheck : validateSkipRoot (Path.joinPieces
        (Path.trimRight (Path.trimLeft (rest.splitOn '/')))) with
    | ok u => exact absurd ((validateSkipRoot_trim_iff rest).mp hcheck) hsegs
    | error e =>
      refine ⟨.error e, c, pushPathChecked_of_error debugAssertions c (by rw [hstrip, hcheck]), ?_,
        by simp, by simp⟩
      simp [ObjectPath.validate_eq, hself, hdouble]

/-- **When `push_path_checked` does what it documents**: on every text except the mended
spellings, which it accepts although they are not object paths.

**Proof sketch.** A relative text is validated as it stands, and `validate_skip_root` asks of it
what the documentation says.  Of an absolute text the pieces between the first and the last
component are validated, so it is accepted when they are segments; whether the text is then an
object path is what `isMended_slash_iff` decides. -/
theorem checksAsDocumented_iff (debugAssertions : Bool) (c : ObjectPathBuf) (p : ObjectPath)
    (hc : c.deref = p.inner) (t : Str) :
    ChecksAsDocumented debugAssertions c t ↔ ¬ IsMended t := by
  by_cases hroot : t.head? = some '/'
  · obtain ⟨rest, rfl⟩ := List.head?_eq_some_iff.mp hroot
    rw [checksAsDocumented_slash_iff debugAssertions hc, isMended_slash_iff, not_and, not_not]
  · exact iff_of_true (checksAsDocumented_of_relative debugAssertions hc hroot)
      fun h => hroot h.head?_eq

/-- None of `c/d`, `/c` and `c//d` is a mended spelling, so the buffer that holds `/a/b` takes the
first two and refuses the third as documented. -/
theorem checksAsDocumented_ab :
    let c : ObjectPathBuf := ⟨some "/a/b".toList⟩
    ChecksAsDocumented true c "c/d".toList ∧ ChecksAsDocumented true c "/c".toList ∧
      ChecksAsDocumented true c "c//d".toList := by
  intro c
  let p : ObjectPath := ⟨"/a/b".toList, by decide⟩
  have hrelative : ¬ IsMended "c/d".toList := fun h => absurd h.head?_eq (by decide)
  have hdouble : ¬ IsMended "c//d".toList := fun h => absurd h.head?_eq (by decide)
  have habsolute : ¬ IsMended "/c".toList := by
    change ¬ IsMended ('/' :: ['c'])
    rw [isMended_slash_iff]
    rintro ⟨-, hinvalid⟩
    exact hinvalid (by decide)
  exact ⟨(checksAsDocumented_iff true c p rfl _).mpr hrelative,
    (checksAsDocumented_iff true c p rfl _).mpr habsolute,
    (checksAsDocumented_iff true c p rfl _).mpr hdouble⟩

/-- The text `//a` is not an object path, yet `push_path_checked` appends its component. -/
theorem pushPathChecked_double_slash :
    ¬ ∀ (debugAssertions : Bool) (c : ObjectPathBuf) (p : ObjectPath), c.deref = p.inner →
      ∀ t : Str, ChecksAsDocumented debugAssertions c t := by
  intro h
  obtain ⟨res, c', hres, hdoc, -, -⟩ := h true ⟨none⟩ .rootPath rfl ['/', '/', 'a']
  have hok : (⟨none⟩ : ObjectPathBuf).pushPathChecked true ['/', '/', 'a'] =
      .ok (.ok (), ⟨some ['/', 'a']⟩) := by decide
  rw [hok] at hres
  obtain ⟨rfl, -⟩ : res = .ok () ∧ c' = ⟨some ['/', 'a']⟩ := by simpa [eq_comm] using hres
  exact absurd (hdoc.mp rfl) (by decide)

end ObjectPathBuf

end AsyncRustbus
