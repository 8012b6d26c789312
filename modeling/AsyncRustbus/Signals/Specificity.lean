import AsyncRustbus.Lib.Tiebreak
import AsyncRustbus.Signals.MatchRule

set_option relaxedAutoImplicit false
set_option autoImplicit false

/-!
# Specificity of match rules

The ordering of match rules is documented as an order by specificity.  It puts a rule before
every rule that it refines.  It is not transitive: the inclusion of namespaces is only a partial
order, and the later steps decide about namespaces of which neither lies inside the other.

## Main definitions

* `MatchRule.coarseCmp`, `MatchRule.laterCmp` — the ordering as a partial comparison with a
  tie-break.
* `MatchRule.Straddles` — three rules on which the ordering runs in a circle.
* `MatchRule.Refines` — a rule that asks for more than another one.

## Main results

* `MatchRule.cmp_totalOrder_iff` — on which rules the ordering is a total order.
* `MatchRule.refines_specific` — a rule that refines another one selects fewer signals and comes
  first.
-/

namespace AsyncRustbus

/-! ## Inclusion of namespaces -/

/-- A path is less in the loop of `path_subset` iff the other is a proper prefix of it. -/
lemma subsetLoop_eq_lt_iff (l r : List Component) :
    subsetLoop l r = some .lt ↔ r <+: l ∧ l ≠ r := by
  induction l generalizing r with
  | nil =>
    cases r with
    | nil => simp [subsetLoop]
    | cons rComp rPath => simp [subsetLoop]
  | cons lComp lPath ih =>
    cases r with
    | nil => simp [subsetLoop]
    | cons rComp rPath =>
      by_cases hc : lComp = rComp
      · simp [subsetLoop, hc, ih]
      · simp [subsetLoop, hc, Ne.symm hc]

/-- Paths are undecided in the loop of `path_subset` iff they are equal or none is a prefix of
the other. -/
lemma subsetLoop_eq_none_iff (l r : List Component) :
    subsetLoop l r = none ↔ l = r ∨ (¬ l <+: r ∧ ¬ r <+: l) := by
  induction l generalizing r with
  | nil =>
    cases r with
    | nil => simp [subsetLoop]
    | cons rComp rPath => simp [subsetLoop]
  | cons lComp lPath ih =>
    cases r with
    | nil => simp [subsetLoop]
    | cons rComp rPath =>
      by_cases hc : lComp = rComp
      · simp [subsetLoop, hc, ih]
      · simp [subsetLoop, hc, Ne.symm hc]

/-- The step that decides by the presence of a field, as a comparison. -/
lemma optionOrd_getD {α : Type} (a b : Option α) (rest : Ordering) :
    (optionOrd a b).getD rest = (compare a.isNone b.isNone).then rest := by
  cases a <;> cases b <;> rfl

/-- A step that decides by the presence of a field keeps the rest transitive. -/
private lemma optionOrd_or_trans {α : Type} {a b c : Option α} {ab bc ac : Option Ordering}
    (h : ab = some .lt → bc = some .lt → ac = some .lt)
    (hab : (optionOrd a b).or ab = some .lt) (hbc : (optionOrd b c).or bc = some .lt) :
    (optionOrd a c).or ac = some .lt := by
  cases a <;> cases b <;> cases c <;> simp_all [optionOrd]

/-- A field does not decide by its presence iff both rules have it or none has. -/
lemma optionOrd_eq_none_iff {α : Type} (a b : Option α) :
    optionOrd a b = none ↔ a.isSome = b.isSome := by
  cases a <;> cases b <;> simp [optionOrd]

/-- Two namespaces are compared by their components. -/
lemma pathSubset_some (l r : Str) :
    pathSubset (some l) (some r) = subsetLoop (pathComponents l) (pathComponents r) := rfl

/-- The inclusion of namespaces is transitive; a present namespace lies inside an absent one. -/
lemma pathSubset_trans {a b c : Option Str} (hab : pathSubset a b = some .lt)
    (hbc : pathSubset b c = some .lt) : pathSubset a c = some .lt := by
  rcases a with _ | a <;> rcases b with _ | b <;> rcases c with _ | c <;>
    simp only [pathSubset, optionOrd, Option.some.injEq, reduceCtorEq] at hab hbc ⊢
  rw [subsetLoop_eq_lt_iff] at hab hbc ⊢
  refine ⟨hbc.1.trans hab.1, fun heq => ?_⟩
  rw [heq] at hab
  exact hab.2 (hbc.1.eq_of_length_le hab.1.length_le)

namespace MatchRule

variable {Q : Type}

/-! ## The ordering as a comparison with a tie-break -/

/-- The steps of the ordering up to the inclusion of namespaces. -/
def coarseCmp (a b : MatchRule Q) : Option Ordering :=
  (optionOrd a.sender b.sender).or <|
  (optionOrd a.path b.path).or <|
  pathSubset a.pathNamespace b.pathNamespace

/-- The steps of the ordering behind the inclusion of namespaces. -/
def laterCmp (a b : MatchRule Q) : Ordering :=
  (optionOrd a.interface b.interface).getD <|
  (optionOrd a.member b.member).getD <|
  (strCmp a.sender b.sender).then <|
  (strCmp a.path b.path).then <|
  (strCmp a.pathNamespace b.pathNamespace).then <|
  (strCmp a.interface b.interface).then <|
  strCmp a.member b.member

/-- The ordering is the two together. -/
lemma cmp_eq_tiebreak (a b : MatchRule Q) : a.cmp b = Tiebreak.cmp coarseCmp laterCmp a b := by
  unfold cmp Tiebreak.cmp coarseCmp laterCmp
  cases optionOrd a.sender b.sender <;> cases optionOrd a.path b.path <;>
    cases pathSubset a.pathNamespace b.pathNamespace <;> rfl

/-- The later steps compare the presence of two fields and the texts of five. -/
private lemma laterCmp_eq_lex : (laterCmp : MatchRule Q → MatchRule Q → Ordering) =
    compareLex (compareOn fun r => r.interface.isNone) (compareLex
      (compareOn fun r => r.member.isNone) (compareLex
      (compareOn fun r => r.sender.map toUtf8) (compareLex
      (compareOn fun r => r.path.map toUtf8) (compareLex
      (compareOn fun r => r.pathNamespace.map toUtf8) (compareLex
      (compareOn fun r => r.interface.map toUtf8)
      (compareOn fun r => r.member.map toUtf8)))))) := by
  funext a b
  simp only [laterCmp, optionOrd_getD, compareLex, compareOn, strCmp]

instance : Std.TransCmp (laterCmp : MatchRule Q → MatchRule Q → Ordering) := by
  rw [laterCmp_eq_lex]
  infer_instance

/-- The later steps identify only equal rules. -/
lemma laterCmp_eq_eq_iff (a b : MatchRule Q) : a.laterCmp b = .eq ↔ a.clone = b.clone := by
  constructor
  · intro h
    simp only [laterCmp, getD_eq_eq_iff (optionOrd_ne_eq _ _), Ordering.then_eq_eq,
      strCmp_eq_iff] at h
    simp [clone, h]
  · intro h
    simp only [clone, mk.injEq] at h
    simp [laterCmp, h, (strCmp_eq_iff _ _).mpr]

/-- The first steps are a partial order. -/
lemma coarseCmp_partial :
    Tiebreak.Partial (coarseCmp : MatchRule Q → MatchRule Q → Option Ordering) laterCmp where
  ne_eq a b := by
    intro h
    simp only [coarseCmp, Option.or_eq_some_iff] at h
    rcases h with h | ⟨-, h | ⟨-, h⟩⟩
    · exact optionOrd_ne_eq _ _ h
    · exact optionOrd_ne_eq _ _ h
    · exact pathSubset_ne_eq _ _ h
  swap a b := by
    unfold coarseCmp
    rw [optionOrd_swap a.sender, optionOrd_swap a.path, pathSubset_swap a.pathNamespace]
    simp only [Option.map_or]
  trans a b c hab hbc :=
    optionOrd_or_trans (optionOrd_or_trans pathSubset_trans) hab hbc
  congr a b c h := by
    rw [laterCmp_eq_eq_iff] at h
    simp only [clone, mk.injEq] at h
    simp [coarseCmp, h]

/-- All three rules name a namespace and agree in whether they name a sender and a path; the
namespace of `x` lies inside that of `y`, that of `z` neither inside nor around one of them; and
the later steps put `y` before `z` and `z` before `x`. -/
def Straddles (x y z : MatchRule Q) : Prop :=
  (x.sender.isSome = y.sender.isSome ∧ y.sender.isSome = z.sender.isSome) ∧
  (x.path.isSome = y.path.isSome ∧ y.path.isSome = z.path.isSome) ∧
  (∃ nx ny nz, x.pathNamespace = some nx ∧ y.pathNamespace = some ny ∧
    z.pathNamespace = some nz ∧ pathComponents ny <+: pathComponents nx ∧
    pathComponents nx ≠ pathComponents ny ∧
    (¬ pathComponents ny <+: pathComponents nz ∧ ¬ pathComponents nz <+: pathComponents ny) ∧
    ¬ pathComponents nz <+: pathComponents nx ∧ ¬ pathComponents nx <+: pathComponents nz) ∧
  y.laterCmp z = .lt ∧ z.laterCmp x = .lt

/-- The rules that cross each other in the sense of a tie-break.

**Proof sketch.** The coarse comparison is undecided iff senders and paths agree in being there and
neither namespace lies inside the other. In a circle one step is decided by the namespaces and two
are not, so all three namespaces are there; two that are equal would contradict the first step,
which leaves the ones that lie apart. -/
lemma crosses_iff (x y z : MatchRule Q) :
    Tiebreak.Crosses coarseCmp laterCmp x y z ↔ x.Straddles y z := by
  constructor
  · rintro ⟨hxy, hyz, hzx, htyz, htzx⟩
    simp only [coarseCmp, Option.or_eq_none_iff, optionOrd_eq_none_iff] at hyz hzx
    obtain ⟨hsyz, hpyz, hnyz⟩ := hyz
    obtain ⟨hszx, hpzx, hnzx⟩ := hzx
    have hsxy : x.sender.isSome = y.sender.isSome := (hsyz.trans hszx).symm
    have hpxy : x.path.isSome = y.path.isSome := (hpyz.trans hpzx).symm
    have hnxy : pathSubset x.pathNamespace y.pathNamespace = some .lt := by
      rw [← optionOrd_eq_none_iff] at hsxy hpxy
      simpa [coarseCmp, hsxy, hpxy] using hxy
    -- a namespace that is absent is undecided only against an absent one
    rcases hx : x.pathNamespace with _ | nx <;> rcases hy : y.pathNamespace with _ | ny <;>
      rcases hz : z.pathNamespace with _ | nz <;>
      simp only [hx, hy, hz, pathSubset, optionOrd, reduceCtorEq] at hnxy hnyz hnzx
    rw [subsetLoop_eq_lt_iff] at hnxy
    rw [subsetLoop_eq_none_iff] at hnyz hnzx
    obtain ⟨hin, hne⟩ := hnxy
    have hapart : ¬ pathComponents ny <+: pathComponents nz ∧
        ¬ pathComponents nz <+: pathComponents ny := by
      rcases hnyz with heq | hapart
      · rw [← heq] at hnzx
        rcases hnzx with heq' | ⟨hnot, -⟩
        · exact absurd heq'.symm hne
        · exact absurd hin hnot
      · exact hapart
    have hapart' : ¬ pathComponents nz <+: pathComponents nx ∧
        ¬ pathComponents nx <+: pathComponents nz := by
      rcases hnzx with heq | hapart'
      · rw [heq] at hapart
        exact absurd hin hapart.1
      · exact hapart'
    exact ⟨⟨hsxy, hsyz⟩, ⟨hpxy, hpyz⟩, ⟨nx, ny, nz, hx, hy, hz, hin, hne, hapart, hapart'⟩,
      htyz, htzx⟩
  · rintro ⟨⟨hsxy, hsyz⟩, ⟨hpxy, hpyz⟩, ⟨nx, ny, nz, hx, hy, hz, hin, hne, hapart, hapart'⟩,
      htyz, htzx⟩
    have hszx := (hsxy.trans hsyz).symm
    have hpzx := (hpxy.trans hpyz).symm
    rw [← optionOrd_eq_none_iff] at hsxy hsyz hszx hpxy hpyz hpzx
    refine ⟨?_, ?_, ?_, htyz, htzx⟩
    · have hlt := (subsetLoop_eq_lt_iff _ _).mpr ⟨hin, hne⟩
      simpa [coarseCmp, hsxy, hpxy, hx, hy, pathSubset_some] using hlt
    · have hnone := (subsetLoop_eq_none_iff _ _).mpr (.inr hapart)
      simpa [coarseCmp, hsyz, hpyz, hy, hz, pathSubset_some] using hnone
    · have hnone := (subsetLoop_eq_none_iff _ _).mpr (.inr hapart')
      simpa [coarseCmp, hszx, hpzx, hz, hx, pathSubset_some] using hnone

/-- **On which rules the ordering is a total order.**  It is antisymmetric and consistent with
`==`; it is transitive on three rules unless the namespaces of two of them lie one inside the
other, that of the third neither inside nor around them, and the later steps put the third one
behind the outer and before the inner one. -/
theorem cmp_totalOrder_iff (a b c : MatchRule Q) :
    (a.cmp b = (b.cmp a).swap ∧ (a.cmp b = .eq ↔ a.eq b = true) ∧
      (a.cmp b = .lt → b.cmp c = .lt → a.cmp c = .lt)) ↔
    ¬ (a.Straddles b c ∨ b.Straddles c a ∨ c.Straddles a b) := by
  simp only [← crosses_iff]
  rw [← coarseCmp_partial.trans_iff]
  simp only [← cmp_eq_tiebreak]
  constructor
  · rintro ⟨-, -, htrans⟩
    exact htrans
  · intro htrans
    exact ⟨cmp_swap a b, cmp_eq_iff a b, htrans⟩

/-- **The ordering is not transitive**: the rule for `/a` comes before the one for `/m`, that one
before the rule for `/a/b`, which names no interface, and that one before the rule for `/a`. -/
theorem cmp_cycle :
    let a : MatchRule ℕ := ⟨none, none, some ['/', 'a'], some ['x', '.', 'Y'], none, none⟩
    let b : MatchRule ℕ := ⟨none, none, some ['/', 'm'], some ['x', '.', 'Y'], none, none⟩
    let c : MatchRule ℕ := ⟨none, none, some ['/', 'a', '/', 'b'], none, none, none⟩
    a.cmp b = .lt ∧ b.cmp c = .lt ∧ a.cmp c = .gt := by
  decide

/-! ## Rules that ask for more -/

/-- `r₁` refines `r₂`: it asks for everything that `r₂` asks for, where a path or a namespace
inside a namespace asks for more than that namespace. -/
structure Refines (r₁ r₂ : MatchRule Q) : Prop where
  sender : r₂.sender = none ∨ r₂.sender = r₁.sender
  path : r₂.path = none ∨ r₂.path = r₁.path
  interface : r₂.interface = none ∨ r₂.interface = r₁.interface
  member : r₂.member = none ∨ r₂.member = r₁.member
  pathNamespace : ∀ n, r₂.pathNamespace = some n →
    (∃ n', r₁.pathNamespace = some n' ∧ pathComponents n <+: pathComponents n') ∨
    ∃ p, r₁.path = some p ∧ pathComponents n <+: pathComponents p

/-- A field that is absent or the same accepts what the other accepts. -/
private lemma fieldMatches_of_refines {accepts : Str → Str → Bool} {self other m : Option Str}
    (h : other = none ∨ other = self) (hm : fieldMatches accepts self m = true) :
    fieldMatches accepts other m = true := by
  rcases h with rfl | rfl
  · cases m <;> rfl
  · exact hm

/-- A rule selects what the rules that refine it select. -/
lemma Refines.matchesMsg {r₁ r₂ : MatchRule Q} (h : r₁.Refines r₂) {m : MarshalledMessage}
    (hm : r₁.matchesMsg m = true) : r₂.matchesMsg m = true := by
  simp only [MatchRule.matchesMsg, Bool.and_eq_true] at hm ⊢
  obtain ⟨⟨⟨⟨⟨htyp, hsender⟩, hpath⟩, hns⟩, hiface⟩, hmember⟩ := hm
  refine ⟨⟨⟨⟨⟨htyp, fieldMatches_of_refines h.sender hsender⟩,
    fieldMatches_of_refines h.path hpath⟩, ?_⟩, fieldMatches_of_refines h.interface hiface⟩,
    fieldMatches_of_refines h.member hmember⟩
  rcases hn : r₂.pathNamespace with _ | n
  · cases m.dynheader.object <;> rfl
  · rcases h.pathNamespace n hn with ⟨n', hn', hpre⟩ | ⟨p, hp, hpre⟩
    · cases hobj : m.dynheader.object with
      | none => simp [hn', hobj, fieldMatches] at hns
      | some object =>
        simp only [hn', hobj, fieldMatches, pathStartsWith, List.isPrefixOf_iff_prefix] at hns ⊢
        exact hpre.trans hns
    · cases hobj : m.dynheader.object with
      | none => simp [hp, hobj, fieldMatches] at hpath
      | some object =>
        simp only [hp, hobj, fieldMatches, decide_eq_true_eq] at hpath
        simp only [fieldMatches, pathStartsWith, List.isPrefixOf_iff_prefix, ← hpath]
        exact hpre

/-- A field that is absent or the same is not decided against the rule that refines the
other: it puts that rule first or is the same. -/
private lemma optionOrd_of_refines {self other : Option Str}
    (h : other = none ∨ other = self) : optionOrd self other = some .lt ∨ other = self := by
  rcases h with rfl | rfl
  · cases self with
    | none => exact .inr rfl
    | some s => exact .inl rfl
  · exact .inr rfl

/-- A rule comes before the rules that it refines and that do not refine it.

**Proof sketch.** Follow the steps of the ordering.  The presence of a field decides for the
refining rule or the field is the same.  A namespace that lies inside a path decides at the step
before, because the other rule has no path; a namespace that lies inside a namespace decides
unless the components are the same.  If nothing is decided when the texts are to be compared, the
other rule refines this one as well. -/
lemma Refines.cmp_eq_lt {r₁ r₂ : MatchRule Q} (h : r₁.Refines r₂) (hnot : ¬ r₂.Refines r₁)
    (hex : r₂.Exclusive) : r₁.cmp r₂ = .lt := by
  unfold cmp
  rcases optionOrd_of_refines h.sender with hs | hs
  · rw [hs]
    rfl
  rcases optionOrd_of_refines h.path with hp | hp
  · simp [hs, hp]
  rw [hs, hp, optionOrd_self, optionOrd_self]
  -- the namespaces
  have hns : pathSubset r₁.pathNamespace r₂.pathNamespace = some .lt ∨
      (pathSubset r₁.pathNamespace r₂.pathNamespace = none ∧
        ∀ n, r₁.pathNamespace = some n →
          ∃ n', r₂.pathNamespace = some n' ∧ pathComponents n <+: pathComponents n') := by
    rcases hn₂ : r₂.pathNamespace with _ | n₂
    · cases r₁.pathNamespace with
      | none => exact .inr ⟨rfl, by simp⟩
      | some n => exact .inl rfl
    · rcases h.pathNamespace n₂ hn₂ with ⟨n₁, hn₁, hpre⟩ | ⟨p, hp₁, -⟩
      · rw [hn₁, pathSubset_some, subsetLoop_eq_lt_iff, subsetLoop_eq_none_iff]
        by_cases heq : pathComponents n₁ = pathComponents n₂
        · refine .inr ⟨.inl heq, ?_⟩
          rintro n ⟨rfl⟩
          exact ⟨n₂, rfl, heq ▸ List.prefix_rfl⟩
        · exact .inl ⟨hpre, heq⟩
      · refine absurd ⟨?_, ?_⟩ hex
        · rw [hp, hp₁]
          rfl
        · rw [hn₂]
          rfl
  rcases hns with hns | ⟨hns, hsame⟩
  · simp [hns]
  rcases optionOrd_of_refines h.interface with hi | hi
  · simp [hns, hi]
  rcases optionOrd_of_refines h.member with hm | hm
  · simp [hns, hi, hm]
  exact absurd ⟨.inr hs.symm, .inr hp.symm, .inr hi.symm, .inr hm.symm,
    fun n hn => .inl (hsame n hn)⟩ hnot

/-- **Specificity.**  A rule that refines another one selects fewer signals, and it comes before
the other one unless the other one refines it as well. -/
theorem refines_specific (r₁ r₂ : MatchRule Q) (hex : r₂.Exclusive) (m : MarshalledMessage) :
    (r₁.Refines r₂ → r₁.matchesMsg m = true → r₂.matchesMsg m = true) ∧
      (r₁.Refines r₂ → ¬ r₂.Refines r₁ → r₁.cmp r₂ = .lt) :=
  ⟨fun h hm => h.matchesMsg hm, fun h hnot => h.cmp_eq_lt hnot hex⟩

/-- A rule for the path `/a/b` comes before the one for the namespace `/a`. -/
theorem refines_specific_path :
    let r₁ : MatchRule ℕ := ⟨none, some ['/', 'a', '/', 'b'], none, none, none, none⟩
    let r₂ : MatchRule ℕ := ⟨none, none, some ['/', 'a'], none, none, none⟩
    r₂.Exclusive ∧ r₁.Refines r₂ ∧ ¬ r₂.Refines r₁ ∧ r₁.cmp r₂ = .lt := by
  intro r₁ r₂
  have hex : r₂.Exclusive := by simp [Exclusive, r₂]
  have h : r₁.Refines r₂ := by
    refine ⟨.inl rfl, .inl rfl, .inl rfl, .inl rfl, ?_⟩
    rintro n ⟨rfl⟩
    exact .inr ⟨_, rfl, by decide⟩
  have hnot : ¬ r₂.Refines r₁ := by
    intro h'
    rcases h'.path with hp | hp <;> cases hp
  exact ⟨hex, h, hnot, (refines_specific r₁ r₂ hex ⟨.new, .default, .signal, 0⟩).2 h hnot⟩

end MatchRule

end AsyncRustbus
