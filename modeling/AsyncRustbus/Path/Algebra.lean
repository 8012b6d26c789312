import AsyncRustbus.Path.Std

set_option relaxedAutoImplicit false
set_option autoImplicit false

/-!
# The methods of `ObjectPath`

`strip_prefix` and `parent` cut a slice out of a path with the operations of `std::path` and
declare it an object path without validation; a debug build asserts its validity.  The slice of
`strip_prefix` starts one byte before what `std` leaves, to take in the separator there.

## Main definitions

* `ObjectPath.validate`, `ObjectPath.fromPath` — the validation of paths.
* `ObjectPath.debugAssertValidity` — the assertion of debug builds.
* `ObjectPath.stripPrefix`, `ObjectPath.parent`, `ObjectPath.fileName` — the methods.

## Main results

* `ObjectPath.accepted_iff_grammar` — `from_str` and `from_path` accept the same texts, those of
  the grammar, and `components` yields their segments.
* `ObjectPath.stripPrefix_eq` — what `strip_prefix` returns, for any prefix.
* `ObjectPath.stripPrefix_total_iff` — it is total except on the empty prefix, where `std` leaves
  the whole path and the slice would start in front of it.
-/

namespace AsyncRustbus

/-- `std::path::StripPrefixError`. -/
inductive StripPrefixError
  | notAPrefix
  deriving DecidableEq

namespace ObjectPath

/-! ## Validation -/

/-- `ObjectPath::validate`.  The paths of the model are texts, so `to_str` succeeds. -/
def validate (path : Str) : Except InvalidObjectPath Unit :=
  if Path.hasRoot path then validateSkipRoot path else .error .noRoot

/-- `ObjectPath::debug_assert_validitity`: whether the assertion lets the caller go on. -/
def debugAssertValidity (debugAssertions : Bool) (path : Str) : Bool :=
  !debugAssertions || validate path = .ok ()

/-- Both validations agree. -/
lemma validate_eq (path : Str) : validate path = validateStr path := by
  simp only [validate, validateStr, Path.hasRoot_iff]

/-- `ObjectPath::from_path`. -/
def fromPath (p : Str) : Except InvalidObjectPath ObjectPath :=
  match h : validate p with
  | .ok () => .ok ⟨p, validate_eq p ▸ h⟩
  | .error e => .error e

/-- `from_path` accepts exactly the texts of object paths, as `from_str` does. -/
lemma fromPath_eq_ok_iff (s : Str) (p : ObjectPath) : fromPath s = .ok p ↔ p.inner = s := by
  unfold fromPath
  split
  · rename_i h
    simp only [Except.ok.injEq]
    exact ⟨fun h => h ▸ rfl, fun h => ext' h.symm⟩
  · rename_i e h
    simp only [reduceCtorEq, false_iff]
    rintro rfl
    rw [validate_eq, p.valid] at h
    cases h

/-- The assertion holds of the text of an object path. -/
@[simp] lemma debugAssertValidity_inner (debugAssertions : Bool) (p : ObjectPath) :
    debugAssertValidity debugAssertions p.inner = true := by
  simp [debugAssertValidity, validate_eq, p.valid]

/-- The assertion holds of a text made of segments. -/
lemma debugAssertValidity_segmentsText (debugAssertions : Bool) {segs : List Str}
    (h : ∀ w ∈ segs, IsSegment w) :
    debugAssertValidity debugAssertions (segmentsText segs) = true :=
  debugAssertValidity_inner debugAssertions (ofSegments segs h)

/-! ## The methods -/

/-- `ObjectPath::root_path`. -/
def rootPath : ObjectPath := ⟨['/'], by decide⟩

/-- `ObjectPath::strip_prefix`.  The subtraction underflows when `std` leaves more than all but
one byte of the path: a debug build panics there and a release build at the slicing that
follows. -/
def stripPrefix (debugAssertions : Bool) (o : ObjectPath) (p : Str) : Res StripPrefixError Str :=
  match Path.stripPrefix o.inner p with
  | none => .err .notAPrefix
  | some stripped =>
    if pathComponents stripped = pathComponents [] then .ok ['/']
    else
      let selfBytes := toUtf8 o.inner
      let strippedLen := (toUtf8 stripped).length
      if selfBytes.length < 1 + strippedLen then .panic
      else
        match fromUtf8 (selfBytes.drop (selfBytes.length - 1 - strippedLen)) with
        | none => .panic
        | some ret => if debugAssertValidity debugAssertions ret then .ok ret else .panic

/-- `ObjectPath::parent`. -/
def parent (debugAssertions : Bool) (o : ObjectPath) : Res Empty (Option Str) :=
  match Path.parent o.inner with
  | none => .ok none
  | some pp => if debugAssertValidity debugAssertions pp then .ok (some pp) else .panic

/-- `ObjectPath::file_name`. -/
def fileName (o : ObjectPath) : Option Str := Path.fileName o.inner

/-- `parent` drops the last component; the root has no parent. -/
lemma parent_eq (debugAssertions : Bool) (o : ObjectPath) :
    o.parent debugAssertions =
      .ok (if o.components = [] then none else some (segmentsText o.components.dropLast)) := by
  obtain ⟨hsegs, htext, -⟩ := o.exists_segments
  have hinit : ∀ w ∈ o.components.dropLast, IsSegment w := fun w hw =>
    hsegs w (List.dropLast_subset _ hw)
  have hparent := Path.parent_segmentsText hsegs
  rw [← htext] at hparent
  rw [parent, hparent]
  split_ifs with hne
  · rfl
  · simp only [debugAssertValidity_segmentsText debugAssertions hinit, if_true]

/-- `file_name` is the last component. -/
lemma fileName_eq (o : ObjectPath) : o.fileName = o.components.getLast? := by
  obtain ⟨hsegs, htext, -⟩ := o.exists_segments
  have hname := Path.fileName_segmentsText hsegs
  rwa [← htext] at hname

/-! ## The grammar -/

/-- A text accepted by either validation is made of segments, and the components of the path
are the segments. -/
lemma components_eq_of_inner {p : ObjectPath} {segs : List Str} (hsegs : ∀ w ∈ segs, IsSegment w)
    (hp : p.inner = segmentsText segs) : p.components = segs := by
  have hof : p = ofSegments segs hsegs := ext' hp
  rw [hof, components_ofSegments]

/-- **The grammar of object paths.**  Both validations accept a text if and only if it is `/` or
a nonempty sequence of segments led by separators.  The components of an accepted text are its
segments in order, none of them of the kinds that `components` declares unreachable, and joining
them gives the text back.

**Proof sketch.** Both validations accept the texts of object paths, and these are the root and the
joined segments: a path has segments (`exists_segments`), and `ofSegments` makes a path of any. The
components are determined by the text (`components_eq_of_inner`). -/
theorem accepted_iff_grammar (s : Str) :
    ((∃ p, fromStr s = .ok p) ↔
      s = ['/'] ∨ ∃ segs, segs ≠ [] ∧ (∀ w ∈ segs, IsSegment w) ∧ s = joinSegments segs) ∧
    ((∃ p, fromPath s = .ok p) ↔
      s = ['/'] ∨ ∃ segs, segs ≠ [] ∧ (∀ w ∈ segs, IsSegment w) ∧ s = joinSegments segs) ∧
    ∀ p, fromStr s = .ok p ∨ fromPath s = .ok p →
      pathComponents p.inner = .rootDir :: p.components.map .normal ∧
      (s = ['/'] → p.components = []) ∧
      (∀ segs, segs ≠ [] → (∀ w ∈ segs, IsSegment w) → s = joinSegments segs →
        p.components = segs) ∧
      s = '/' :: Path.joinPieces p.components := by
  have hgrammar : (∃ p : ObjectPath, p.inner = s) ↔
      s = ['/'] ∨ ∃ segs, segs ≠ [] ∧ (∀ w ∈ segs, IsSegment w) ∧ s = joinSegments segs := by
    constructor
    · rintro ⟨p, rfl⟩
      obtain ⟨hsegs, htext, -⟩ := p.exists_segments
      by_cases hne : p.components = []
      · left
        rw [htext, hne]
        rfl
      · right
        exact ⟨p.components, hne, hsegs, by rw [htext, segmentsText, if_neg hne]⟩
    · rintro (rfl | ⟨segs, hne, hsegs, rfl⟩)
      · exact ⟨ofSegments [] (by simp), rfl⟩
      · exact ⟨ofSegments segs hsegs, by simp [ofSegments, segmentsText, hne]⟩
  refine ⟨?_, ?_, ?_⟩
  · simpa only [fromStr_eq_ok_iff] using hgrammar
  · simpa only [fromPath_eq_ok_iff] using hgrammar
  · intro p hp
    rw [fromStr_eq_ok_iff, fromPath_eq_ok_iff, or_self] at hp
    subst hp
    refine ⟨p.pathComponents_eq, ?_, ?_, ?_⟩
    · intro hroot
      exact components_eq_of_inner (by simp) hroot
    · intro segs hne hsegs hs
      exact components_eq_of_inner hsegs (by rw [hs, segmentsText, if_neg hne])
    · rw [← Path.segmentsText_eq]
      exact p.exists_segments.2.1

/-! ## Stripping a prefix -/

/-- The separator is one byte. -/
private lemma length_toUtf8_slash (s : Str) :
    (toUtf8 ('/' :: s)).length = 1 + (toUtf8 s).length := by
  have h : (String.utf8EncodeChar '/').length = 1 := by decide
  simp [toUtf8, h]

/-- A path is the segments in front of any cut followed by those behind it. -/
private lemma inner_eq_append (o : ObjectPath) {n : ℕ} (hne : o.components.drop n ≠ []) :
    o.inner = joinSegments (o.components.take n) ++ segmentsText (o.components.drop n) := by
  have hcomp : o.components ≠ [] := by
    intro h
    simp [h] at hne
  rw [o.exists_segments.2.1, segmentsText, if_neg hcomp, segmentsText, if_neg hne, joinSegments,
    joinSegments, joinSegments, ← List.flatMap_append, List.take_append_drop]

/-- **The slice of `strip_prefix`.**  When components are left behind the cut, the slice starts
at the separator in front of the first of them. -/
private lemma slice_eq (o : ObjectPath) {n : ℕ} (hne : o.components.drop n ≠ []) :
    1 + (toUtf8 (Path.joinPieces (o.components.drop n))).length ≤ (toUtf8 o.inner).length ∧
    (toUtf8 o.inner).drop ((toUtf8 o.inner).length - 1 -
        (toUtf8 (Path.joinPieces (o.components.drop n))).length) =
      toUtf8 (segmentsText (o.components.drop n)) := by
  have hinner : toUtf8 o.inner = toUtf8 (joinSegments (o.components.take n)) ++
      toUtf8 (segmentsText (o.components.drop n)) := by
    rw [inner_eq_append o hne, toUtf8, toUtf8, toUtf8, List.flatMap_append]
  have hlen : (toUtf8 (segmentsText (o.components.drop n))).length =
      1 + (toUtf8 (Path.joinPieces (o.components.drop n))).length := by
    rw [Path.segmentsText_eq, length_toUtf8_slash]
  have hself := congrArg List.length hinner
  rw [List.length_append, hlen] at hself
  refine ⟨by omega, ?_⟩
  have hstart : (toUtf8 o.inner).length - 1 -
      (toUtf8 (Path.joinPieces (o.components.drop n))).length =
      (toUtf8 (joinSegments (o.components.take n))).length := by omega
  rw [hstart, hinner, List.drop_left]

/-- **What `strip_prefix` returns.**  The empty prefix makes it panic; another prefix leaves the
path of the components behind it.

**Proof sketch.** `stripPrefix_segmentsText` says what `std` leaves. For the empty prefix it leaves
the whole path, and the subtraction is of one byte more than there are. For another one it leaves
the joined segments behind the prefix, and the slice that starts one byte in front of them is their
path (`slice_eq`). -/
theorem stripPrefix_eq (debugAssertions : Bool) (o : ObjectPath) (p : Str) :
    o.stripPrefix debugAssertions p =
      if pathStartsWith o.inner p then
        if p = [] then .panic
        else .ok (segmentsText (o.components.drop ((pathComponents p).length - 1)))
      else .err .notAPrefix := by
  obtain ⟨hsegs, htext, hcomps⟩ := o.exists_segments
  have hnil : pathComponents [] = [] := (Path.pathComponents_eq_nil_iff []).mpr rfl
  have hstrip := Path.stripPrefix_segmentsText hsegs p
  rw [← htext] at hstrip
  rw [stripPrefix, hstrip]
  split_ifs with hstart hp
  · -- `std` leaves the whole path, one byte more than the subtraction can take.
    have hroot : pathComponents o.inner ≠ pathComponents [] := by simp [hcomps, hnil]
    have hlt : (toUtf8 o.inner).length < 1 + (toUtf8 o.inner).length := by omega
    simp only [if_neg hroot, if_pos hlt]
  · generalize (pathComponents p).length - 1 = n
    have hrest : ∀ w ∈ o.components.drop n, IsSegment w := fun w hw =>
      hsegs w (List.mem_of_mem_drop hw)
    simp only [hnil, Path.pathComponents_eq_nil_iff, Path.joinPieces_eq_nil_iff hrest]
    by_cases hne : o.components.drop n = []
    · rw [if_pos hne, hne]
      rfl
    · obtain ⟨hle, hslice⟩ := slice_eq o hne
      simp only [if_neg hne, if_neg (Nat.not_lt.mpr hle), hslice, fromUtf8_toUtf8,
        debugAssertValidity_segmentsText debugAssertions hrest, if_true]
  · rfl

/-- **`strip_prefix` is total except on the empty prefix.**  On every other text it returns, and
what it returns is an object path whose components are a suffix of those of the path. -/
theorem stripPrefix_total_iff (debugAssertions : Bool) (o : ObjectPath) (p : Str) :
    (o.stripPrefix debugAssertions p ≠ .panic ∧
      ∀ r, o.stripPrefix debugAssertions p = .ok r →
        ∃ q : ObjectPath, q.inner = r ∧ q.components <:+ o.components) ↔ p ≠ [] := by
  rw [stripPrefix_eq]
  constructor
  · rintro ⟨hpanic, -⟩ rfl
    have hstart : pathStartsWith o.inner [] = true := by
      simp [pathStartsWith, (Path.pathComponents_eq_nil_iff []).mpr rfl]
    simp [hstart] at hpanic
  · intro hp
    rw [if_neg hp]
    split_ifs with hstart
    · refine ⟨by simp, ?_⟩
      intro r hr
      have hrest : ∀ w ∈ o.components.drop ((pathComponents p).length - 1), IsSegment w :=
        fun w hw => o.exists_segments.1 w (List.mem_of_mem_drop hw)
      refine ⟨ofSegments _ hrest, by simpa [ofSegments] using hr, ?_⟩
      rw [components_ofSegments]
      exact List.drop_suffix _ _
    · simp

/-- Stripping the empty prefix from `/a` panics, in a release build too. -/
theorem stripPrefix_empty_panics :
    ¬ ∀ (debugAssertions : Bool) (o : ObjectPath) (p : Str),
      o.stripPrefix debugAssertions p ≠ .panic ∧
      ∀ r, o.stripPrefix debugAssertions p = .ok r →
        ∃ q : ObjectPath, q.inner = r ∧ q.components <:+ o.components := by
  intro h
  refine (h false ⟨['/', 'a'], by decide⟩ []).1 ?_
  decide

/-- Stripping an object path: the prefix is one of components, and the rest are the components
behind it. -/
lemma stripPrefix_inner (debugAssertions : Bool) (o p : ObjectPath) :
    o.stripPrefix debugAssertions p.inner =
      if p.components <+: o.components then
        .ok (segmentsText (o.components.drop p.components.length))
      else .err .notAPrefix := by
  have hstart : pathStartsWith o.inner p.inner = true ↔ p.components <+: o.components := by
    have hinj : Function.Injective Component.normal := fun _ _ h => Component.normal.inj h
    rw [pathStartsWith, List.isPrefixOf_iff_prefix, o.pathComponents_eq, p.pathComponents_eq,
      List.cons_prefix_cons, List.prefix_map_iff_of_injective hinj, eq_self, true_and]
  have hne : p.inner ≠ [] := by simp [p.exists_segments.2.1, Path.segmentsText_eq]
  simp only [stripPrefix_eq, hstart, if_neg hne, p.pathComponents_eq, List.length_cons,
    List.length_map, Nat.add_sub_cancel]

end ObjectPath

end AsyncRustbus
