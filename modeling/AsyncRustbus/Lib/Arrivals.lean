import Mathlib.Data.List.Basic
import Mathlib.Tactic.Common

set_option relaxedAutoImplicit false
set_option autoImplicit false

/-!
# Numbered arrivals in several mailboxes

Items are numbered as they arrive.  One list holds what waits in all mailboxes, each item with the
name of its mailbox, in the order of arrival; taking the first item of a mailbox out of the list
makes each of them a queue.  One consumer gets the items of one mailbox, and may also get an item
at the moment it arrives.

## Main definitions

* `Arrivals.InOrder` — what the consumer has got is increasing, and comes before what waits for it.

## Main results

* `Arrivals.split_of_find?` — taking the first item of a mailbox.
* `InOrder.store`, `InOrder.pass`, `InOrder.deliver`, `InOrder.takeOwn`, `InOrder.takeOther` — the
  order is kept by arrivals and by taking; an item that is delivered at its arrival keeps it if
  nothing waits.
-/

namespace Arrivals

/-- Taking the first element with a property splits the list there. -/
theorem split_of_find? {α : Type*} {p : α → Bool} {l : List α} {a : α}
    (h : l.find? p = some a) :
    p a = true ∧ ∃ l₁ l₂, l = l₁ ++ a :: l₂ ∧ l.eraseP p = l₁ ++ l₂ ∧ ∀ b ∈ l₁, p b = false := by
  obtain ⟨ha, l₁, l₂, rfl, hl₁⟩ := List.find?_eq_some_iff_append.mp h
  have hnot : ∀ b ∈ l₁, p b = false := fun b hb => by simpa using hl₁ b hb
  refine ⟨ha, l₁, l₂, rfl, ?_, hnot⟩
  rw [List.eraseP_append_right _ (fun b hb => by simp [hnot b hb]), List.eraseP_cons_of_pos ha]

/-- The items below `size` have arrived; those in `waiting` wait in the order of arrival; and the
consumer of the mailbox `box` has got the items `got` in increasing order, all of them before the
ones that wait for it. -/
structure InOrder {α : Type*} (box : α) (size : ℕ) (waiting : List (α × ℕ)) (got : List ℕ) :
    Prop where
  arrived : ∀ e ∈ waiting, e.2 < size
  sorted : waiting.Pairwise fun e e' => e.2 < e'.2
  bounded : ∀ n ∈ got, n < size
  increasing : got.Pairwise (· < ·)
  before : ∀ n ∈ got, ∀ m, (box, m) ∈ waiting → n < m

namespace InOrder

variable {α : Type*} {box : α} {size : ℕ} {waiting : List (α × ℕ)} {got : List ℕ}

/-- At the start. -/
lemma nil (box : α) : InOrder box 0 [] [] := by
  constructor <;> simp

/-- An item that goes to nobody. -/
theorem pass (h : InOrder box size waiting got) : InOrder box (size + 1) waiting got where
  arrived := fun e he => Nat.lt_succ_of_lt (h.arrived e he)
  sorted := h.sorted
  bounded := fun n hn => Nat.lt_succ_of_lt (h.bounded n hn)
  increasing := h.increasing
  before := h.before

/-- An item that goes to a mailbox. -/
theorem store (h : InOrder box size waiting got) (a : α) :
    InOrder box (size + 1) (waiting ++ [(a, size)]) got where
  arrived := by
    intro e he
    rcases List.mem_append.mp he with hold | hnew
    · exact Nat.lt_succ_of_lt (h.arrived e hold)
    · rw [List.mem_singleton.mp hnew]
      exact Nat.lt_succ_self size
  sorted := by
    refine List.pairwise_append.mpr ⟨h.sorted, by simp, fun e he e' he' => ?_⟩
    rw [List.mem_singleton.mp he']
    exact h.arrived e he
  bounded := h.pass.bounded
  increasing := h.increasing
  before := by
    intro n hn m hm
    rcases List.mem_append.mp hm with hold | hnew
    · exact h.before n hn m hold
    · obtain ⟨-, rfl⟩ := Prod.mk.inj (List.mem_singleton.mp hnew)
      exact h.bounded n hn

/-- An item that the consumer gets at its arrival, while nothing waits for it. -/
theorem deliver (h : InOrder box size waiting got) (hempty : ∀ m, (box, m) ∉ waiting) :
    InOrder box (size + 1) waiting (got ++ [size]) where
  arrived := h.pass.arrived
  sorted := h.sorted
  bounded := by
    intro n hn
    rcases List.mem_append.mp hn with hold | hnew
    · exact h.pass.bounded n hold
    · rw [List.mem_singleton.mp hnew]
      exact Nat.lt_succ_self size
  increasing := by
    refine List.pairwise_append.mpr ⟨h.increasing, by simp, fun n hn m hm => ?_⟩
    rw [List.mem_singleton.mp hm]
    exact h.bounded n hn
  before := fun _ _ m hm => absurd hm (hempty m)

/-- Taking items away from the mailboxes. -/
theorem takeOther (h : InOrder box size waiting got) {waiting' : List (α × ℕ)}
    (hsub : waiting'.Sublist waiting) : InOrder box size waiting' got where
  arrived := fun e he => h.arrived e (hsub.subset he)
  sorted := h.sorted.sublist hsub
  bounded := h.bounded
  increasing := h.increasing
  before := fun n hn m hm => h.before n hn m (hsub.subset hm)

/-- The consumer takes the first item of its mailbox.

**Proof sketch.** Nothing of the mailbox stands in front of its first item. The consumer got only
smaller numbers before, so it gets increasing ones still; and what is left of the mailbox stands
behind the item and has larger numbers, since the waiting items are sorted. -/
theorem takeOwn [DecidableEq α] (h : InOrder box size waiting got) {e : α × ℕ}
    (he : waiting.find? (fun e => decide (e.1 = box)) = some e) :
    InOrder box size (waiting.eraseP fun e => decide (e.1 = box)) (got ++ [e.2]) := by
  obtain ⟨hbox, l₁, l₂, hsplit, herase, hl₁⟩ := split_of_find? he
  have hmem : (box, e.2) ∈ waiting := by
    rw [hsplit, ← of_decide_eq_true hbox]
    simp
  refine ⟨?_, ?_, ?_, ?_, ?_⟩
  · exact (h.takeOther List.eraseP_sublist).arrived
  · exact (h.takeOther List.eraseP_sublist).sorted
  · intro n hn
    rcases List.mem_append.mp hn with hold | hnew
    · exact h.bounded n hold
    · rw [List.mem_singleton.mp hnew]
      exact h.arrived (box, e.2) hmem
  · refine List.pairwise_append.mpr ⟨h.increasing, by simp, fun n hn m hm => ?_⟩
    rw [List.mem_singleton.mp hm]
    exact h.before n hn e.2 hmem
  · intro n hn m hm
    rcases List.mem_append.mp hn with hold | hnew
    · exact h.before n hold m (List.mem_of_mem_eraseP hm)
    · -- what is left of the mailbox stands behind the first item
      rw [List.mem_singleton.mp hnew]
      rw [herase] at hm
      rcases List.mem_append.mp hm with hfirst | hrest
      · have := hl₁ _ hfirst
        simp at this
      · have hsorted := h.sorted
        rw [hsplit, List.pairwise_append] at hsorted
        exact (List.pairwise_cons.mp hsorted.2.1).1 _ hrest

end InOrder

end Arrivals
