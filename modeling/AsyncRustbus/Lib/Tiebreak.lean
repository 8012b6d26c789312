import Mathlib.Order.Basic
import Mathlib.Tactic.Common

set_option relaxedAutoImplicit false
set_option autoImplicit false

/-!
# A partial comparison with a tie-break

A comparison is often written as a partial one, which may leave two elements undecided, followed
by a total one that decides the rest.  Even if the first is a partial order and the second a
total one, the combination need not be transitive: two elements that the first one decides can
both be undecided against a third one, and the tie-break can put that one on the wrong side of
them.  This is the only way in which transitivity fails.

## Main definitions

* `Tiebreak.cmp` — the combination.
* `Tiebreak.Partial` — the partial comparison is a strict partial order that does not distinguish
  elements which the tie-break identifies.
* `Tiebreak.Crosses` — a third element that the tie-break puts on the wrong side.

## Main results

* `Tiebreak.trans_iff` — the combination is transitive on three elements iff none of them crosses
  the other two.
-/

namespace Tiebreak

variable {α : Type*}

/-- The partial comparison `p`, and where it does not decide the comparison `t`. -/
def cmp (p : α → α → Option Ordering) (t : α → α → Ordering) (a b : α) : Ordering :=
  (p a b).getD (t a b)

/-- The comparison `p` is a strict partial order; it never says that two elements are equal, and
it does not distinguish elements that are equal for `t`. -/
structure Partial (p : α → α → Option Ordering) (t : α → α → Ordering) : Prop where
  ne_eq : ∀ a b, p a b ≠ some .eq
  swap : ∀ a b, p a b = (p b a).map Ordering.swap
  trans : ∀ a b c, p a b = some .lt → p b c = some .lt → p a c = some .lt
  congr : ∀ a b c, t a b = .eq → p a c = p b c

/-- `x` stands before `y` in the partial order, `z` is undecided against both, and the tie-break
puts `z` behind `y` and before `x`. -/
def Crosses (p : α → α → Option Ordering) (t : α → α → Ordering) (x y z : α) : Prop :=
  p x y = some .lt ∧ p y z = none ∧ p z x = none ∧ t y z = .lt ∧ t z x = .lt

variable {p : α → α → Option Ordering} {t : α → α → Ordering}

/-- Undecided elements are so in both orders. -/
lemma Partial.none_comm (h : Partial p t) {a b : α} (hab : p a b = none) : p b a = none := by
  rw [h.swap, hab]
  rfl

/-- The elements in the other order. -/
lemma Partial.lt_iff_gt (h : Partial p t) (a b : α) : p a b = some .lt ↔ p b a = some .gt := by
  rw [h.swap b a]
  cases p a b with
  | none => simp
  | some ord => cases ord <;> simp [Ordering.swap]

/-- An element is undecided, smaller or greater. -/
lemma Partial.cases (h : Partial p t) (a b : α) :
    p a b = none ∨ p a b = some .lt ∨ p b a = some .lt := by
  rw [h.lt_iff_gt b a]
  cases hab : p a b with
  | none => exact .inl rfl
  | some ord =>
    cases ord with
    | lt => exact .inr (.inl rfl)
    | eq => exact absurd hab (h.ne_eq a b)
    | gt => exact .inr (.inr rfl)

/-- When an element is smaller: the partial comparison says so, or it leaves it to the
tie-break. -/
lemma cmp_eq_lt_iff (a b : α) :
    cmp p t a b = .lt ↔ p a b = some .lt ∨ (p a b = none ∧ t a b = .lt) := by
  unfold cmp
  cases p a b <;> simp

/-- Three elements one of which crosses the other two are a cycle. -/
lemma cycle_of_crosses {x y z : α} (hc : Crosses p t x y z) :
    cmp p t x y = .lt ∧ cmp p t y z = .lt ∧ cmp p t z x = .lt := by
  obtain ⟨hxy, hyz, hzx, htyz, htzx⟩ := hc
  simp only [cmp_eq_lt_iff]
  exact ⟨.inl hxy, .inr ⟨hyz, htyz⟩, .inr ⟨hzx, htzx⟩⟩

/-- The combination is antisymmetric. -/
lemma Partial.cmp_swap (h : Partial p t) [Std.OrientedCmp t] (a b : α) :
    cmp p t a b = (cmp p t b a).swap := by
  have htie : t a b = (t b a).swap := Std.OrientedCmp.eq_swap
  unfold cmp
  rw [h.swap a b, htie]
  cases p b a <;> rfl

/-- Elements of a cycle are not transitive. -/
private lemma not_lt_of_cycle (h : Partial p t) [Std.OrientedCmp t] {a c : α}
    (hca : cmp p t c a = .lt) : cmp p t a c ≠ .lt := by
  rw [h.cmp_swap, hca]
  simp

/-- Of two elements that the partial comparison distinguishes, the tie-break puts one first. -/
lemma Partial.tie_lt (h : Partial p t) [Std.OrientedCmp t] {x y z : α} (hxy : t x y ≠ .lt)
    (hz : p x z ≠ p y z) : t y x = .lt := by
  cases hyx : t y x with
  | lt => rfl
  | eq => exact absurd (h.congr y x z hyx).symm hz
  | gt => exact absurd (Std.OrientedCmp.lt_of_gt hyx) hxy

/-- **Transitivity of a comparison with a tie-break** on three elements: it fails exactly if one
of them crosses the other two.

**Proof sketch.** Let `a < b < c`.  If the partial comparison decides both, it is transitive.  If
it decides one of them, it cannot say that `c` is smaller than `a`; so either it says that `a` is
smaller, or the tie-break decides, and then the third element crosses the two decided ones.  If
it decides neither, the tie-break says that `a` is smaller than `c`, and that counts unless the
partial comparison says the opposite: then `b` crosses `c` and `a`. -/
lemma Partial.trans_iff (h : Partial p t) [Std.TransCmp t] (a b c : α) :
    (cmp p t a b = .lt → cmp p t b c = .lt → cmp p t a c = .lt) ↔
      ¬ (Crosses p t a b c ∨ Crosses p t b c a ∨ Crosses p t c a b) := by
  constructor
  · rintro htrans (hc | hc | hc)
    · obtain ⟨hab, hbc, hca⟩ := cycle_of_crosses hc
      exact not_lt_of_cycle h hca (htrans hab hbc)
    · obtain ⟨hbc, hca, hab⟩ := cycle_of_crosses hc
      exact not_lt_of_cycle h hca (htrans hab hbc)
    · obtain ⟨hca, hab, hbc⟩ := cycle_of_crosses hc
      exact not_lt_of_cycle h hca (htrans hab hbc)
  · intro hno hab hbc
    rw [cmp_eq_lt_iff] at hab hbc ⊢
    rcases hab with hab | ⟨hab, htab⟩ <;> rcases hbc with hbc | ⟨hbc, htbc⟩
    · exact .inl (h.trans a b c hab hbc)
    · rcases h.cases a c with hac | hac | hca
      · by_contra hnot
        have htac : t a c ≠ .lt := fun hlt => hnot (.inr ⟨hac, hlt⟩)
        have hne : p a b ≠ p c b := by
          rw [hab, h.none_comm hbc]
          simp
        exact hno (.inl ⟨hab, hbc, h.none_comm hac, htbc, h.tie_lt htac hne⟩)
      · exact .inl hac
      · have hcb := h.trans c a b hca hab
        rw [h.none_comm hbc] at hcb
        cases hcb
    · rcases h.cases a c with hac | hac | hca
      · by_contra hnot
        have htac : t a c ≠ .lt := fun hlt => hnot (.inr ⟨hac, hlt⟩)
        have hne : p a b ≠ p c b := by
          rw [hab, h.swap c b, hbc]
          simp
        exact hno (.inr (.inl ⟨hbc, h.none_comm hac, hab, h.tie_lt htac hne, htab⟩))
      · exact .inl hac
      · have hba := h.trans b c a hbc hca
        rw [h.none_comm hab] at hba
        cases hba
    · have htac : t a c = .lt := Std.TransCmp.lt_trans htab htbc
      rcases h.cases a c with hac | hac | hca
      · exact .inr ⟨hac, htac⟩
      · exact .inl hac
      · exact absurd (.inr (.inr ⟨hca, hab, hbc, htab, htbc⟩)) hno

end Tiebreak
