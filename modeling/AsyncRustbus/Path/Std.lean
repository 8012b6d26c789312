import AsyncRustbus.Path
import Mathlib.Data.List.DropRight

set_option relaxedAutoImplicit false
set_option autoImplicit false

/-!
# `std::path` on Unix

The operations of `Path` and `PathBuf` that object paths are built on.  A path is cut at its
separators into pieces; `Components` skips the empty pieces and the pieces `.`, and
`Components::as_path` gives back the text of the components that are left, without the skipped
pieces at its ends.  Pieces skipped in the middle stay in the text.

## Main definitions

* `Path.hasRoot`, `Path.bodyPieces` — a path as its root and its pieces.
* `Path.stripPrefix`, `Path.parent`, `Path.fileName` — `Path::strip_prefix`, `Path::parent` and
  `Path::file_name`.
* `PathBuf.push`, `PathBuf.pop` — the mutators of `PathBuf`.

## Main results

* `Path.stripPrefix_root` — what stripping `/` from any text leaves.
* `Path.stripPrefix_segmentsText`, `Path.parent_segmentsText`, `Path.fileName_segmentsText` —
  the operations on a text made of segments.
-/

namespace AsyncRustbus

namespace Path

/-! ## Pieces -/

/-- The pieces for which `Components` yields nothing: the empty one and `.`. -/
def isSkipped (piece : Str) : Bool := (parseSingleComponent piece).isNone

/-- `Path::has_root`, which is `Path::is_absolute` on Unix. -/
def hasRoot (path : Str) : Bool := leadingComponent path = [.rootDir]

/-- The pieces behind the leading component. -/
def bodyPieces (path : Str) : List Str :=
  if leadingComponent path = [] then path.splitOn '/' else (path.splitOn '/').tail

/-- The text of consecutive pieces. -/
def joinPieces (pieces : List Str) : Str := ['/'].intercalate pieces

/-- The text of the leading component of `path` and of pieces behind it. -/
def withLeading (path : Str) (body : List Str) : Str :=
  match leadingComponent path with
  | [] => joinPieces body
  | .rootDir :: _ => '/' :: joinPieces body
  | _ :: _ => joinPieces (['.'] :: body)

/-- `Components::trim_right`. -/
def trimRight (pieces : List Str) : List Str := pieces.rdropWhile isSkipped

/-- `Components::trim_left`. -/
def trimLeft (pieces : List Str) : List Str := pieces.dropWhile isSkipped

/-- The pieces left after `Components::next` has yielded `n` components of the body. -/
def dropComponents : ℕ → List Str → List Str
  | 0, pieces => pieces
  | _ + 1, [] => []
  | n + 1, piece :: pieces =>
    if isSkipped piece then dropComponents (n + 1) pieces else dropComponents n pieces

/-! ## The operations -/

/-- `Path::strip_prefix`.  The components of `base` are taken from the front of `path` and
the rest is read off with `as_path`.  An iterator that has not moved is still in front of the
leading component, so an empty `base` leaves that component in the rest. -/
def stripPrefix (path base : Str) : Option Str :=
  if pathStartsWith path base then
    if pathComponents base = [] then some (withLeading path (trimRight (bodyPieces path)))
    else
      let n := (pathComponents base).length - (leadingComponent path).length
      some (joinPieces (trimRight (trimLeft (dropComponents n (bodyPieces path)))))
  else none

/-- `Path::parent`: the path without its last component, unless that is the root. -/
def parent (path : Str) : Option Str :=
  match trimRight (bodyPieces path) with
  | [] => if leadingComponent path = [.curDir] then some [] else none
  | piece :: pieces => some (withLeading path (trimRight (piece :: pieces).dropLast))

/-- `Path::file_name`: the last component, if it is a normal one. -/
def fileName (path : Str) : Option Str :=
  match (pathComponents path).getLast? with
  | some (.normal name) => some name
  | _ => none

end Path

namespace PathBuf

/-- `PathBuf::push`: an absolute path replaces the buffer; otherwise a separator is put
between, unless the buffer is empty or ends with one. -/
def push (buf path : Str) : Str :=
  if Path.hasRoot path then path
  else if buf.getLast?.any (· ≠ '/') then buf ++ '/' :: path
  else buf ++ path

/-- `PathBuf::pop`: truncate to the parent, and whether there was one. -/
def pop (buf : Str) : Bool × Str :=
  match Path.parent buf with
  | some p => (true, p)
  | none => (false, buf)

end PathBuf

namespace Path

/-! ## Absolute texts -/

/-- A text has a root when it starts with a separator. -/
lemma hasRoot_iff (path : Str) : hasRoot path = true ↔ path.head? = some '/' := by
  simp only [hasRoot, decide_eq_true_eq]
  constructor
  · intro h
    unfold leadingComponent at h
    split at h
    · rfl
    all_goals simp at h
  · intro h
    obtain ⟨rest, rfl⟩ := List.head?_eq_some_iff.mp h
    rfl

/-- The leading component of an absolute text. -/
@[simp] lemma leadingComponent_slash (rest : Str) :
    leadingComponent ('/' :: rest) = [.rootDir] := rfl

/-- In front of a leading separator there is an empty piece. -/
@[simp] lemma splitOn_slash (rest : Str) :
    ('/' :: rest).splitOn '/' = [] :: rest.splitOn '/' := by
  have h : ([] ++ '/' :: rest).splitOn '/' = [] :: rest.splitOn '/' :=
    List.splitOn_append_cons_self_of_not_mem (by simp) rest
  rwa [List.nil_append] at h

/-- The pieces behind the root are the pieces of the text behind the first separator. -/
@[simp] lemma bodyPieces_slash (rest : Str) : bodyPieces ('/' :: rest) = rest.splitOn '/' := by
  simp [bodyPieces]

/-- The components of an absolute text are the root and those of the pieces behind it. -/
lemma pathComponents_slash (rest : Str) : pathComponents ('/' :: rest) =
    .rootDir :: (rest.splitOn '/').filterMap parseSingleComponent := by
  simp [pathComponents, parseSingleComponent]

/-- Joining the pieces of a text gives the text back. -/
@[simp] lemma joinPieces_splitOn (path : Str) : joinPieces (path.splitOn '/') = path :=
  List.intercalate_splitOn '/'

/-- The text of segments is the joined pieces behind a separator. -/
lemma joinSegments_eq {segs : List Str} (hne : segs ≠ []) :
    joinSegments segs = '/' :: joinPieces segs := by
  induction segs with
  | nil => exact absurd rfl hne
  | cons s segs ih =>
    cases segs with
    | nil => simp [joinSegments, joinPieces]
    | cons t segs =>
      have hrest := ih (by simp)
      simp only [joinSegments, List.flatMap_cons] at hrest ⊢
      rw [hrest]
      simp [joinPieces, List.intercalate_cons_cons]

/-- Only the empty text has no components: the first piece of a relative text is skipped only
when it is `.`, and then it is the leading component. -/
lemma pathComponents_eq_nil_iff (path : Str) : pathComponents path = [] ↔ path = [] := by
  constructor
  · intro h
    obtain ⟨hlead, hbody⟩ := List.append_eq_nil_iff.mp h
    obtain ⟨w, ws, hw⟩ := List.exists_cons_of_ne_nil (List.splitOn_ne_nil '/' path)
    have hpath : joinPieces (w :: ws) = path := hw ▸ joinPieces_splitOn path
    rw [hw, List.filterMap_eq_nil_iff] at hbody
    have hskip : w = [] ∨ w = ['.'] := by
      have hnone := hbody w (by simp)
      unfold parseSingleComponent at hnone
      split_ifs at hnone with h1 h2
      · exact .inl h1
      · exact .inr h2
    subst hpath
    rcases hskip with rfl | rfl
    · cases ws with
      | nil => rfl
      | cons v ws => simp [joinPieces, List.intercalate_cons_cons] at hlead
    · cases ws with
      | nil => simp [joinPieces, leadingComponent] at hlead
      | cons v ws => simp [joinPieces, List.intercalate_cons_cons, leadingComponent] at hlead
  · rintro rfl
    decide

/-! ## Trimming -/

/-- A segment is not skipped. -/
@[simp] lemma isSkipped_segment {w : Str} (h : IsSegment w) : isSkipped w = false := by
  simp [isSkipped, ObjectPath.parseSingleComponent_segment h]

/-- Pieces that are skipped are the empty ones and `.`. -/
lemma isSkipped_iff (w : Str) : isSkipped w = true ↔ w = [] ∨ w = ['.'] := by
  unfold isSkipped parseSingleComponent
  split_ifs <;> simp_all

/-- Segments are not trimmed on the right. -/
lemma trimRight_segments {segs : List Str} (h : ∀ w ∈ segs, IsSegment w) :
    trimRight segs = segs := by
  rw [trimRight, List.rdropWhile_eq_self_iff]
  intro hne
  simp [isSkipped_segment (h _ (List.getLast_mem hne))]

/-- Segments are not trimmed on the left. -/
lemma trimLeft_segments {segs : List Str} (h : ∀ w ∈ segs, IsSegment w) :
    trimLeft segs = segs := by
  cases segs with
  | nil => rfl
  | cons s segs => simp [trimLeft, isSkipped_segment (h s (by simp))]

/-- Taking components from segments takes segments. -/
lemma dropComponents_segments {segs : List Str} (h : ∀ w ∈ segs, IsSegment w) (n : ℕ) :
    dropComponents n segs = segs.drop n := by
  induction segs generalizing n with
  | nil => cases n <;> simp [dropComponents]
  | cons s segs ih =>
    cases n with
    | zero => simp [dropComponents]
    | succ n =>
      simpa [dropComponents, isSkipped_segment (h s (by simp))] using
        ih (fun w hw => h w (by simp [hw])) n

/-- Trimming cuts off pieces that are skipped. -/
lemma exists_trim (pieces : List Str) :
    ∃ lead trail, (∀ w ∈ lead ++ trail, isSkipped w = true) ∧
      pieces = lead ++ trimRight (trimLeft pieces) ++ trail := by
  refine ⟨pieces.takeWhile isSkipped, (trimLeft pieces).rtakeWhile isSkipped, ?_, ?_⟩
  · intro w hw
    rcases List.mem_append.mp hw with hw | hw
    · exact List.mem_takeWhile_imp hw
    · exact List.mem_rtakeWhile_imp hw
  · rw [List.append_assoc, trimRight, List.rdropWhile_append_rtakeWhile, trimLeft,
      List.takeWhile_append_dropWhile]

/-- Trimming does not change the components. -/
lemma filterMap_trim (pieces : List Str) :
    pieces.filterMap parseSingleComponent =
      (trimRight (trimLeft pieces)).filterMap parseSingleComponent := by
  obtain ⟨lead, trail, hskip, hpieces⟩ := exists_trim pieces
  have hnone : ∀ ws : List Str, (∀ w ∈ ws, w ∈ lead ++ trail) →
      ws.filterMap parseSingleComponent = [] := by
    intro ws hws
    rw [List.filterMap_eq_nil_iff]
    intro w hw
    simpa [isSkipped] using hskip w (hws w hw)
  conv_lhs => rw [hpieces]
  rw [List.filterMap_append, List.filterMap_append, hnone lead (by simp +contextual),
    hnone trail (by simp +contextual), List.nil_append, List.append_nil]

/-- Skipped pieces around segments are trimmed. -/
lemma trim_append_segments {lead segs trail : List Str}
    (hskip : ∀ w ∈ lead ++ trail, isSkipped w = true) (hsegs : ∀ w ∈ segs, IsSegment w) :
    trimRight (trimLeft (lead ++ segs ++ trail)) = segs := by
  have hlead : ∀ w ∈ lead, isSkipped w = true := fun w hw => hskip w (by simp [hw])
  have htrail : ∀ w ∈ trail, isSkipped w = true := fun w hw => hskip w (by simp [hw])
  have hright : trimRight (segs ++ trail) = trimRight segs := by
    rw [trimRight, trimRight, List.rdropWhile, List.reverse_append,
      List.dropWhile_append_of_pos (by simpa using htrail), ← List.rdropWhile]
  rw [trimLeft, List.append_assoc, List.dropWhile_append_of_pos hlead]
  cases segs with
  | nil =>
    rw [List.nil_append, List.dropWhile_eq_nil_iff.mpr htrail]
    rfl
  | cons s segs =>
    rw [List.cons_append, List.dropWhile_cons_of_neg (by simp [hsegs s]), ← List.cons_append,
      hright, trimRight_segments hsegs]

/-! ## Texts made of segments -/

/-- Trimming only takes pieces out. -/
lemma mem_of_mem_trim {pieces : List Str} {w : Str} (h : w ∈ trimRight (trimLeft pieces)) :
    w ∈ pieces := by
  obtain ⟨lead, trail, -, hpieces⟩ := exists_trim pieces
  rw [hpieces]
  simp [h]

/-- The text of segments is the joined pieces behind the root. -/
lemma segmentsText_eq (segs : List Str) : segmentsText segs = '/' :: joinPieces segs := by
  by_cases hne : segs = []
  · subst hne
    rfl
  · rw [segmentsText, if_neg hne, joinSegments_eq hne]

/-- The pieces behind the root: the segments, or one empty piece when there are none. -/
lemma bodyPieces_segmentsText {segs : List Str} (h : ∀ w ∈ segs, IsSegment w) :
    bodyPieces (segmentsText segs) = if segs = [] then [[]] else segs := by
  rw [segmentsText_eq, bodyPieces_slash]
  split_ifs with hne
  · subst hne
    rfl
  · exact List.splitOn_intercalate '/' (fun w hw => slash_notMem (h w hw).2) hne

/-- An absolute text is an object path iff the pieces behind its root are segments. -/
lemma validateStr_slash_iff (rest : Str) :
    validateStr ('/' :: rest) = .ok () ↔ rest = [] ∨ ∀ w ∈ rest.splitOn '/', IsSegment w := by
  rw [validateStr_ok_iff]
  constructor
  · rintro ⟨segs, hsegs, htext⟩
    have hpieces := bodyPieces_segmentsText hsegs
    rw [← htext, bodyPieces_slash] at hpieces
    split_ifs at hpieces with hnil
    · rw [segmentsText_eq, hnil, List.cons.injEq] at htext
      exact .inl htext.2
    · exact .inr (hpieces ▸ hsegs)
  · rintro (rfl | hsegs)
    · exact ⟨[], by simp, rfl⟩
    · exact ⟨rest.splitOn '/', hsegs, by rw [segmentsText_eq, joinPieces_splitOn]⟩

/-- What `as_path` leaves when `n` components behind the root were taken. -/
lemma trim_dropComponents_segmentsText {segs : List Str} (h : ∀ w ∈ segs, IsSegment w)
    (n : ℕ) :
    trimRight (trimLeft (dropComponents n (bodyPieces (segmentsText segs)))) = segs.drop n := by
  rw [bodyPieces_segmentsText h]
  split_ifs with hne
  · subst hne
    cases n <;> simp [dropComponents, trimLeft, trimRight, isSkipped, parseSingleComponent]
  · have hdrop : ∀ w ∈ segs.drop n, IsSegment w := fun w hw => h w (List.mem_of_mem_drop hw)
    rw [dropComponents_segments h, trimLeft_segments hdrop, trimRight_segments hdrop]

/-- Behind the root there is nothing to trim on the right but the empty piece of `/`. -/
lemma trimRight_bodyPieces_segmentsText {segs : List Str} (h : ∀ w ∈ segs, IsSegment w) :
    trimRight (bodyPieces (segmentsText segs)) = segs := by
  rw [bodyPieces_segmentsText h]
  split_ifs with hne
  · subst hne
    decide
  · exact trimRight_segments h

/-- Pieces put back behind the root of a text made of segments. -/
lemma withLeading_segmentsText (segs body : List Str) :
    withLeading (segmentsText segs) body = '/' :: joinPieces body := by
  simp [withLeading, segmentsText_eq]

/-- **Stripping a prefix from a text made of segments.**  An empty prefix leaves the whole
text, root included; any other prefix leaves the segments behind it. -/
theorem stripPrefix_segmentsText {segs : List Str} (h : ∀ w ∈ segs, IsSegment w) (base : Str) :
    stripPrefix (segmentsText segs) base =
      if pathStartsWith (segmentsText segs) base then
        if base = [] then some (segmentsText segs)
        else some (joinPieces (segs.drop ((pathComponents base).length - 1)))
      else none := by
  have hlead : (leadingComponent (segmentsText segs)).length = 1 := by
    rw [segmentsText_eq, leadingComponent_slash, List.length_singleton]
  simp only [stripPrefix, pathComponents_eq_nil_iff, hlead, trim_dropComponents_segmentsText h,
    trimRight_bodyPieces_segmentsText h, withLeading_segmentsText, ← segmentsText_eq]

/-- The parent of a text made of segments. -/
theorem parent_segmentsText {segs : List Str} (h : ∀ w ∈ segs, IsSegment w) :
    parent (segmentsText segs) = if segs = [] then none else some (segmentsText segs.dropLast) := by
  have hinit : ∀ w ∈ segs.dropLast, IsSegment w := fun w hw => h w (List.dropLast_subset segs hw)
  rw [parent, trimRight_bodyPieces_segmentsText h]
  cases segs with
  | nil => decide
  | cons s segs =>
    simp only [trimRight_segments hinit, withLeading_segmentsText, ← segmentsText_eq,
      List.cons_ne_nil, if_false]

/-- The file name of a text made of segments is the last one. -/
theorem fileName_segmentsText {segs : List Str} (h : ∀ w ∈ segs, IsSegment w) :
    fileName (segmentsText segs) = segs.getLast? := by
  rw [fileName, ObjectPath.pathComponents_segmentsText h]
  cases hlast : segs.getLast? with
  | none =>
    rw [List.getLast?_eq_none_iff.mp hlast]
    rfl
  | some s =>
    rw [List.getLast?_cons, List.getLast?_map, hlast]
    rfl

/-! ## Stripping the root -/

/-- The components of `/`. -/
@[simp] lemma pathComponents_root : pathComponents ['/'] = [.rootDir] := by decide

/-- The components of a text start with the root when the text has one.

**Proof sketch.** A piece between separators is never the root component, and the leading components
are at most one. So a list that starts with the root has it as its leading component, which is there
iff the text has a root. -/
lemma pathStartsWith_root (path : Str) : pathStartsWith path ['/'] = hasRoot path := by
  rw [Bool.eq_iff_iff, pathStartsWith, pathComponents_root, List.isPrefixOf_iff_prefix, hasRoot,
    decide_eq_true_eq]
  constructor
  · intro hpre
    -- A piece is never the root, so the root can only be the leading component.
    have hbody : Component.rootDir ∉ (path.splitOn '/').filterMap parseSingleComponent := by
      intro hmem
      obtain ⟨piece, -, hpiece⟩ := List.mem_filterMap.mp hmem
      unfold parseSingleComponent at hpiece
      split_ifs at hpiece <;> simp at hpiece
    obtain ⟨rest, hrest⟩ := hpre
    rw [pathComponents] at hrest
    cases hlead : leadingComponent path with
    | nil =>
      rw [hlead, List.nil_append] at hrest
      exact absurd (hrest ▸ List.mem_cons_self) hbody
    | cons c cs =>
      have hlen : (leadingComponent path).length ≤ 1 := by
        unfold leadingComponent
        split <;> simp
      rw [hlead] at hrest hlen
      obtain rfl : cs = [] := by simpa using hlen
      rw [List.singleton_append, List.singleton_append, List.cons.injEq] at hrest
      rw [hrest.1]
  · intro hlead
    rw [pathComponents, hlead]
    exact List.prefix_append _ _

/-- A relative text has no root to strip. -/
lemma stripPrefix_root_of_relative {path : Str} (h : hasRoot path = false) :
    stripPrefix path ['/'] = none := by
  simp [stripPrefix, pathStartsWith_root, h]

/-- **Stripping the root** of an absolute text trims the pieces that are skipped from both
ends of the rest. -/
theorem stripPrefix_root (rest : Str) :
    stripPrefix ('/' :: rest) ['/'] =
      some (joinPieces (trimRight (trimLeft (rest.splitOn '/')))) := by
  have hroot : hasRoot ('/' :: rest) = true := rfl
  simp [stripPrefix, pathStartsWith_root, hroot, dropComponents]

/-- Joined pieces start as the first of them does, unless that is empty. -/
lemma head?_joinPieces {w : Str} (hw : w ≠ []) (ws : List Str) :
    (joinPieces (w :: ws)).head? = w.head? := by
  obtain ⟨c, w', rfl⟩ := List.exists_cons_of_ne_nil hw
  cases ws <;> simp [joinPieces, List.intercalate_cons_cons]

/-- Joined segments are an empty text only when there are none. -/
lemma joinPieces_eq_nil_iff {segs : List Str} (h : ∀ w ∈ segs, IsSegment w) :
    joinPieces segs = [] ↔ segs = [] := by
  cases segs with
  | nil => simp [joinPieces]
  | cons s segs =>
    have hs := (h s (by simp)).1
    rw [← List.head?_eq_none_iff, head?_joinPieces hs, List.head?_eq_none_iff]
    simp [hs]

/-- Joined segments are a relative text, and do not start with a dot. -/
lemma leadingComponent_joinPieces {segs : List Str} (h : ∀ w ∈ segs, IsSegment w) :
    leadingComponent (joinPieces segs) = [] := by
  cases segs with
  | nil => rfl
  | cons s segs =>
    have hs := h s (by simp)
    obtain ⟨c, s', rfl⟩ := List.exists_cons_of_ne_nil hs.1
    obtain ⟨rest, hrest⟩ := List.head?_eq_some_iff.mp (head?_joinPieces hs.1 segs)
    have hc := hs.2 c (by simp)
    have hslash : c ≠ '/' := by
      rintro rfl
      exact absurd hc (by decide)
    have hdot : c ≠ '.' := by
      rintro rfl
      exact absurd hc (by decide)
    rw [hrest]
    unfold leadingComponent
    split <;> simp_all

/-- Joined segments are a relative text. -/
lemma hasRoot_joinPieces {segs : List Str} (h : ∀ w ∈ segs, IsSegment w) :
    hasRoot (joinPieces segs) = false := by
  simp [hasRoot, leadingComponent_joinPieces h]

/-- The components of joined segments are the segments. -/
lemma pathComponents_joinPieces {segs : List Str} (h : ∀ w ∈ segs, IsSegment w) :
    pathComponents (joinPieces segs) = segs.map .normal := by
  have hroot := ObjectPath.pathComponents_segmentsText h
  rw [segmentsText_eq, pathComponents_slash, List.cons.injEq] at hroot
  rw [pathComponents, leadingComponent_joinPieces h, List.nil_append, hroot.2]

end Path

namespace PathBuf

/-- Pushing the joined segments of a path appends the segments. -/
lemma push_segmentsText {as bs : List Str} (ha : ∀ w ∈ as, IsSegment w)
    (hb : ∀ w ∈ bs, IsSegment w) (hne : bs ≠ []) :
    push (segmentsText as) (Path.joinPieces bs) = segmentsText (as ++ bs) := by
  rw [push, Path.hasRoot_joinPieces hb, if_neg Bool.false_ne_true]
  by_cases has : as = []
  · subst has
    have hsep : (segmentsText []).getLast?.any (· ≠ '/') = false := by decide
    rw [hsep, if_neg Bool.false_ne_true, List.nil_append, Path.segmentsText_eq bs]
    rfl
  · have hsep : (joinSegments as).getLast?.any (· ≠ '/') = true := by
      have hlast := getLast?_joinSegments_ne has ha
      have hsome : joinSegments as ≠ [] := by simp [Path.joinSegments_eq has]
      rw [List.getLast?_eq_some_getLast hsome] at hlast ⊢
      simpa using hlast
    have happ : as ++ bs ≠ [] := List.append_ne_nil_of_right_ne_nil as hne
    rw [segmentsText, if_neg has, hsep, if_pos rfl, ← Path.joinSegments_eq hne, segmentsText,
      if_neg happ, joinSegments, joinSegments, joinSegments, List.flatMap_append]

end PathBuf

end AsyncRustbus
