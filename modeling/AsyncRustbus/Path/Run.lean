import AsyncRustbus.Path.Buf

set_option relaxedAutoImplicit false
set_option autoImplicit false

/-!
# Runs of an `ObjectPathBuf`

An `ObjectPathBuf` is obtained from one of its constructors and changed by any sequence of its
mutators.  The path seen through `deref` stays valid as long as no step is a `clear` of a buffer
that is there or a `reserve_exact` on one that is not: these two leave an empty text.

## Main definitions

* `ObjectPathBuf.Obtained` — what the public constructors return.
* `AsyncRustbus.BufOp`, `BufOp.apply` — the mutators as steps.
* `BufOp.LosesRoot` — the steps that leave an empty text.
* `ObjectPathBuf.AlwaysValid`, `ObjectPathBuf.KeepsRoot` — the properties of a whole run.

## Main results

* `BufOp.apply_of_keepsRoot`, `BufOp.apply_of_losesRoot` — what one step does.
* `ObjectPathBuf.alwaysValid_iff_keepsRoot` — what a run does.
-/

namespace AsyncRustbus

/-- The mutators of `ObjectPathBuf`, with their arguments. -/
inductive BufOp
  | clear
  | push (path : ObjectPath)
  | pushPathChecked (path : Str)
  | pop
  | reserve (additional : ℕ)
  | reserveExact (additional : ℕ)

namespace BufOp

/-- The buffer after a step. -/
def apply (debugAssertions : Bool) (b : ObjectPathBuf) : BufOp → Res Empty ObjectPathBuf
  | .clear => .ok b.clear
  | .push path => b.push debugAssertions path
  | .pushPathChecked path =>
    match b.pushPathChecked debugAssertions path with
    | .ok (_, b) => .ok b
    | .err e => nomatch e
    | .panic => .panic
  | .pop => .ok b.pop.2
  | .reserve additional => .ok (b.reserve additional)
  | .reserveExact additional => .ok (b.reserveExact additional)

/-- The steps that leave an empty text: `clear` when there is a buffer, and `reserve_exact` of
some space when there is none. -/
def LosesRoot (b : ObjectPathBuf) : BufOp → Prop
  | .clear => b.inner ≠ none
  | .reserveExact additional => additional ≠ 0 ∧ b.inner = none
  | _ => False

/-- What a step promises about the path: `clear` makes it the root, `reserve` and
`reserve_exact` leave it alone. -/
def Promised (b b' : ObjectPathBuf) : BufOp → Prop
  | .clear => b'.deref = ['/']
  | .reserve _ => b'.deref = b.deref
  | .reserveExact _ => b'.deref = b.deref
  | _ => True

/-- **A step that keeps the root** leaves a valid path and what it promised, and does not
panic.

**Proof sketch.** By the operation. `clear` and `reserve_exact` lose the root only where the
condition says so, and otherwise leave the buffer as it is or clear one that is not allocated.
`push` and `push_path_checked` give the text of a path, `pop` that of the components without the
last one, and `reserve` keeps the text. -/
theorem apply_of_keepsRoot (debugAssertions : Bool) {b : ObjectPathBuf} {p : ObjectPath}
    (hb : b.deref = p.inner) {op : BufOp} (hop : ¬ op.LosesRoot b) :
    ∃ b', op.apply debugAssertions b = .ok b' ∧ op.Promised b b' ∧
      ∃ p' : ObjectPath, b'.deref = p'.inner := by
  cases op with
  | clear =>
    have hnone : b.inner = none := not_not.mp hop
    refine ⟨b.clear, rfl, ?_, .rootPath, ?_⟩
    all_goals simp [Promised, ObjectPathBuf.clear, hnone, ObjectPath.rootPath]
  | push path =>
    obtain ⟨c, o, hpush, ho, -⟩ := ObjectPathBuf.push_eq debugAssertions hb path
    exact ⟨c, hpush, trivial, o, ho⟩
  | pushPathChecked path =>
    obtain ⟨res, c, hpush, o, ho⟩ := ObjectPathBuf.pushPathChecked_valid debugAssertions hb path
    exact ⟨c, by simp only [apply, hpush], trivial, o, ho⟩
  | pop =>
    have hinit : ∀ w ∈ p.components.dropLast, IsSegment w := fun w hw =>
      p.exists_segments.1 w (List.dropLast_subset _ hw)
    exact ⟨b.pop.2, rfl, trivial, .ofSegments _ hinit, (ObjectPathBuf.pop_eq hb).2⟩
  | reserve additional =>
    have hsame : (b.reserve additional).deref = b.deref := ObjectPathBuf.deref_reserve b additional
    exact ⟨_, rfl, hsame, p, hsame.trans hb⟩
  | reserveExact additional =>
    have hsame : b.reserveExact additional = b := by
      by_cases hzero : additional = 0
      · rw [ObjectPathBuf.reserveExact, if_pos hzero]
      · have hsome : b.inner ≠ none := fun hnone => hop ⟨hzero, hnone⟩
        obtain ⟨buf, hbuf⟩ := Option.ne_none_iff_exists'.mp hsome
        obtain rfl : b = ⟨some buf⟩ := by rw [← hbuf]
        rw [ObjectPathBuf.reserveExact, if_neg hzero]
    exact ⟨b, by rw [apply, hsame], rfl, p, hb⟩

/-- **A step that loses the root** leaves the empty text, which is not an object path. -/
theorem apply_of_losesRoot (debugAssertions : Bool) {b : ObjectPathBuf} {op : BufOp}
    (hop : op.LosesRoot b) : op.apply debugAssertions b = .ok ⟨some []⟩ := by
  cases op with
  | clear =>
    obtain ⟨buf, hbuf⟩ := Option.ne_none_iff_exists'.mp hop
    simp [apply, ObjectPathBuf.clear, hbuf]
  | reserveExact additional =>
    obtain ⟨hpos, hnone⟩ := hop
    simp [apply, ObjectPathBuf.reserveExact, hpos, hnone]
  | _ => exact absurd hop id

end BufOp

namespace ObjectPathBuf

/-- What the public constructors return. -/
inductive Obtained (debugAssertions : Bool) : ObjectPathBuf → Prop
  | new : Obtained debugAssertions new
  | withCapacity (capacity : ℕ) : Obtained debugAssertions (withCapacity capacity)
  | tryFromOwned (value : Str) (b : ObjectPathBuf) (h : tryFromOwned value = .ok b) :
    Obtained debugAssertions b
  | tryFromStr (value : Str) (b : ObjectPathBuf) (h : tryFromStr debugAssertions value = .ok b) :
    Obtained debugAssertions b
  | tryFromPath (value : Str) (b : ObjectPathBuf)
    (h : tryFromPath debugAssertions value = .ok b) : Obtained debugAssertions b
  | fromObjectPath (path : ObjectPath) (b : ObjectPathBuf)
    (h : fromObjectPath debugAssertions path = .ok b) : Obtained debugAssertions b

/-- The path is valid in every state of a run, no step panics, and every step keeps its
promise. -/
def AlwaysValid (debugAssertions : Bool) : ObjectPathBuf → List BufOp → Prop
  | b, [] => ObjectPath.validate b.deref = .ok ()
  | b, op :: ops => ObjectPath.validate b.deref = .ok () ∧
    ∃ b', op.apply debugAssertions b = .ok b' ∧ op.Promised b b' ∧
      AlwaysValid debugAssertions b' ops

/-- No step of a run loses the root in the state it is taken in. -/
def KeepsRoot (debugAssertions : Bool) : ObjectPathBuf → List BufOp → Prop
  | _, [] => True
  | b, op :: ops => ¬ op.LosesRoot b ∧
    ∀ b', op.apply debugAssertions b = .ok b' → KeepsRoot debugAssertions b' ops

/-- Copying an object path gives a buffer with its text. -/
lemma fromObjectPath_eq (debugAssertions : Bool) (p : ObjectPath) :
    ∃ b, fromObjectPath debugAssertions p = .ok b ∧ b.deref = p.inner := by
  by_cases hroot : pathComponents p.inner = pathComponents ObjectPath.rootPath.inner
  · have hcomp : p.components = [] := by
      rw [p.pathComponents_eq, ObjectPath.rootPath, Path.pathComponents_root] at hroot
      simpa using hroot
    have hinner : new.deref = p.inner := by
      rw [p.exists_segments.2.1, hcomp]
      rfl
    refine ⟨new, ?_, hinner⟩
    simp only [fromObjectPath, if_pos hroot, hinner, ObjectPath.debugAssertValidity_inner, if_true]
  · refine ⟨fromPathBuf p.inner, ?_, rfl⟩
    simp only [fromObjectPath, if_neg hroot, fromPathBuf, deref_some,
      ObjectPath.debugAssertValidity_inner, if_true]

/-- A conversion that borrows an object path returns a buffer with its text. -/
private lemma tryFromBorrowed_valid {debugAssertions : Bool}
    {path : Except InvalidObjectPath ObjectPath} {b : ObjectPathBuf}
    (h : tryFromBorrowed debugAssertions path = .ok b) : ∃ p : ObjectPath, b.deref = p.inner := by
  cases path with
  | error e => cases h
  | ok p =>
    obtain ⟨b', hb', hinner⟩ := fromObjectPath_eq debugAssertions p
    simp only [tryFromBorrowed, hb', Res.ok.injEq] at h
    exact ⟨p, h ▸ hinner⟩

/-- The constructors return valid paths. -/
lemma Obtained.valid {debugAssertions : Bool} {b : ObjectPathBuf}
    (h : Obtained debugAssertions b) : ∃ p : ObjectPath, b.deref = p.inner := by
  cases h with
  | new => exact ⟨.rootPath, rfl⟩
  | withCapacity capacity =>
    refine ⟨.rootPath, ?_⟩
    unfold ObjectPathBuf.withCapacity
    split_ifs <;> rfl
  | tryFromOwned value _ h =>
    cases hvalid : ObjectPath.validate value with
    | error e => simp [ObjectPathBuf.tryFromOwned, hvalid] at h
    | ok u =>
      simp only [ObjectPathBuf.tryFromOwned, hvalid, Except.ok.injEq] at h
      exact ⟨⟨value, ObjectPath.validate_eq value ▸ hvalid⟩, h ▸ rfl⟩
  | tryFromStr value _ h => exact tryFromBorrowed_valid h
  | tryFromPath value _ h => exact tryFromBorrowed_valid h
  | fromObjectPath path _ h =>
    obtain ⟨b', hb', hinner⟩ := fromObjectPath_eq debugAssertions path
    rw [hb', Res.ok.injEq] at h
    exact ⟨path, h ▸ hinner⟩

/-- The empty text is not valid. -/
private lemma not_alwaysValid_empty (debugAssertions : Bool) (ops : List BufOp) :
    ¬ AlwaysValid debugAssertions ⟨some []⟩ ops := by
  have hempty : ObjectPath.validate (⟨some []⟩ : ObjectPathBuf).deref ≠ .ok () := by decide
  cases ops with
  | nil => exact hempty
  | cons op ops => exact fun h => hempty h.1

/-- **Runs from a valid path**: the path stays valid exactly as long as no step loses the root.

**Proof sketch.** Induction on the run.  A step that keeps the root leads to a valid path, from
where the rest of the run is judged; a step that loses it leads to the empty text. -/
lemma alwaysValid_iff_of_valid (debugAssertions : Bool) {b : ObjectPathBuf} {p : ObjectPath}
    (hb : b.deref = p.inner) (ops : List BufOp) :
    AlwaysValid debugAssertions b ops ↔ KeepsRoot debugAssertions b ops := by
  have hvalid : ∀ {b : ObjectPathBuf} {p : ObjectPath}, b.deref = p.inner →
      ObjectPath.validate b.deref = .ok () := by
    intro b p hb
    rw [hb, ObjectPath.validate_eq, p.valid]
  induction ops generalizing b p with
  | nil => exact iff_of_true (hvalid hb) trivial
  | cons op ops ih =>
    by_cases hop : op.LosesRoot b
    · refine iff_of_false ?_ fun h => h.1 hop
      rintro ⟨-, b', hb', -, hrest⟩
      rw [BufOp.apply_of_losesRoot debugAssertions hop] at hb'
      cases hb'
      exact not_alwaysValid_empty debugAssertions ops hrest
    · obtain ⟨b', hstep, hpromise, p', hp'⟩ := BufOp.apply_of_keepsRoot debugAssertions hb hop
      have hrest := ih hp'
      constructor
      · rintro ⟨-, b'', hb'', -, hvalid'⟩
        rw [hstep] at hb''
        cases hb''
        refine ⟨hop, ?_⟩
        rintro c hc
        rw [hstep] at hc
        cases hc
        exact hrest.mp hvalid'
      · rintro ⟨-, hkeeps⟩
        exact ⟨hvalid hb, b', hstep, hpromise, hrest.mpr (hkeeps b' hstep)⟩

/-- **Runs of an `ObjectPathBuf`.**  From whatever the constructors return, in every run, the
path is valid in every state exactly when no step is a `clear` of an allocated buffer or a
`reserve_exact` without one. -/
theorem alwaysValid_iff_keepsRoot (debugAssertions : Bool) (b : ObjectPathBuf)
    (h : Obtained debugAssertions b) (ops : List BufOp) :
    AlwaysValid debugAssertions b ops ↔ KeepsRoot debugAssertions b ops := by
  obtain ⟨p, hp⟩ := h.valid
  exact alwaysValid_iff_of_valid debugAssertions hp ops

/-- A run that keeps the root: paths are pushed onto an allocated buffer and popped until nothing is
left. -/
theorem alwaysValid_push_pop :
    let a : ObjectPath := ⟨"/a".toList, by decide⟩
    let ops := [.push a, .pushPathChecked "b/c".toList, .reserveExact 2, .pop, .pop, .pop, .pop,
      .reserve 3]
    Obtained true (withCapacity 4) ∧ KeepsRoot true (withCapacity 4) ops ∧
      AlwaysValid true (withCapacity 4) ops := by
  intro a ops
  have hpush : BufOp.apply true (withCapacity 4) (.push a) = .ok ⟨some "/a".toList⟩ := by decide
  have hchecked : BufOp.apply true ⟨some "/a".toList⟩ (.pushPathChecked "b/c".toList) =
      .ok ⟨some "/a/b/c".toList⟩ := by decide
  have hkeeps : KeepsRoot true (withCapacity 4) ops := by
    refine ⟨id, fun b hb => ⟨id, fun b' hb' => ⟨?_, ?_⟩⟩⟩
    · -- the buffer is allocated
      rw [hpush, Res.ok.injEq] at hb
      subst hb
      rw [hchecked, Res.ok.injEq] at hb'
      subst hb'
      rintro ⟨-, hnone⟩
      cases hnone
    · exact fun _ _ => ⟨id, fun _ _ => ⟨id, fun _ _ => ⟨id, fun _ _ => ⟨id, fun _ _ =>
        ⟨id, fun _ _ => trivial⟩⟩⟩⟩⟩
  exact ⟨.withCapacity 4, hkeeps,
    (alwaysValid_iff_keepsRoot true _ (.withCapacity 4) _).mpr hkeeps⟩

/-- Clearing `with_capacity(1)` leaves the empty text. -/
theorem clear_with_capacity_invalid :
    ¬ ∀ (debugAssertions : Bool) (b : ObjectPathBuf), Obtained debugAssertions b →
      ∀ ops : List BufOp, AlwaysValid debugAssertions b ops := by
  intro h
  obtain ⟨-, b', hb', hclear, -⟩ := h false (withCapacity 1) (.withCapacity 1) [.clear]
  cases hb'
  have hempty : (withCapacity 1).clear.deref ≠ ['/'] := by decide
  exact hempty hclear

end ObjectPathBuf

end AsyncRustbus
