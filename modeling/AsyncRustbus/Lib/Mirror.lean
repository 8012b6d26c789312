import Mathlib.Algebra.Order.Group.Multiset
import Mathlib.Data.Multiset.MapFold
import Mathlib.Data.Multiset.AddSub

set_option relaxedAutoImplicit false
set_option autoImplicit false

/-!
# A collection and its remote copy

A party keeps items, and a remote party keeps a key for each of them.  The party changes its items
first and tells the other one afterwards, by calls that are served in any order; the remote party
may refuse an addition, and then the item is taken out again.

## Main definitions

* `Mirror` — the two collections agree up to the additions and removals that are on
  their way.

## Main results

* `Mirror.add`, `Mirror.remove`, `Mirror.accept`, `Mirror.giveUp`, `Mirror.takeBack` — each step
  keeps them in agreement.
* `Mirror.key_mem` — a removal that is served finds its key.
* `Mirror.remote_eq` — when nothing is on its way, the remote collection is the copy.
* `Multiset.coe_filterMap_set`, `Multiset.coe_filterMap_concat`, `Multiset.coe_map_eraseIdx` — the
  collection of what the entries of a table hold.
-/

variable {α β K : Type}

/-- The remote keys are those of the items, up to the items whose addition is on its way or has been
refused and those whose removal is on its way.  An item that is being added is not removed. -/
structure Mirror (key : α → K) (remote : Multiset K) (items adding removing : Multiset α) :
    Prop where
  adding_le : adding ≤ items
  balance : remote + adding.map key = items.map key + removing.map key

namespace Mirror

variable {key : α → K} {remote : Multiset K} {items adding removing : Multiset α} {a : α}

/-- Nothing yet. -/
lemma empty : Mirror key 0 0 0 0 := ⟨le_rfl, rfl⟩

/-- An item is added, and the remote party is to be told. -/
theorem add (h : Mirror key remote items adding removing) (a : α) :
    Mirror key remote (a ::ₘ items) (a ::ₘ adding) removing where
  adding_le := (Multiset.cons_le_cons_iff a).mpr h.adding_le
  balance := by
    rw [Multiset.map_cons, Multiset.map_cons, Multiset.add_cons, Multiset.cons_add, h.balance]

/-- An item that is not being added is removed, and the remote party is to be told. -/
theorem remove (h : Mirror key remote (a ::ₘ items) adding removing) (ha : a ∉ adding) :
    Mirror key remote items adding (a ::ₘ removing) where
  adding_le := (Multiset.le_cons_of_notMem ha).mp h.adding_le
  balance := by
    have hbalance := h.balance
    rwa [Multiset.map_cons, Multiset.cons_add, ← Multiset.add_cons, ← Multiset.map_cons] at hbalance

/-- The remote party accepts an addition. -/
theorem accept (h : Mirror key remote items (a ::ₘ adding) removing) :
    Mirror key (key a ::ₘ remote) items adding removing where
  adding_le := le_trans (Multiset.le_cons_self adding a) h.adding_le
  balance := by
    have hbalance := h.balance
    rwa [Multiset.map_cons, Multiset.add_cons, ← Multiset.cons_add] at hbalance

/-- An addition that was refused is taken back. -/
theorem takeBack (h : Mirror key remote (a ::ₘ items) (a ::ₘ adding) removing) :
    Mirror key remote items adding removing where
  adding_le := (Multiset.cons_le_cons_iff a).mp h.adding_le
  balance := by
    have hbalance := h.balance
    rwa [Multiset.map_cons, Multiset.map_cons, Multiset.add_cons, Multiset.cons_add,
      Multiset.cons_inj_right] at hbalance

/-- **The remote party has every key that it is to give up.**

**Proof sketch.** Beside the items it lacks only those that are being added. -/
lemma removing_le (h : Mirror key remote items adding removing) :
    removing.map key ≤ remote := by
  obtain ⟨others, rfl⟩ := Multiset.le_iff_exists_add.mp h.adding_le
  have hbalance := h.balance
  rw [Multiset.map_add, add_comm remote, add_assoc, add_right_inj] at hbalance
  rw [hbalance]
  exact Multiset.le_add_left _ _

/-- A removal that is served finds its key. -/
theorem key_mem (h : Mirror key remote items adding (a ::ₘ removing)) : key a ∈ remote := by
  refine Multiset.mem_of_le h.removing_le ?_
  rw [Multiset.map_cons]
  exact Multiset.mem_cons_self _ _

/-- The remote party serves a removal. -/
theorem giveUp (h : Mirror key (key a ::ₘ remote) items adding (a ::ₘ removing)) :
    Mirror key remote items adding removing where
  adding_le := h.adding_le
  balance := by
    have hbalance := h.balance
    rwa [Multiset.map_cons, Multiset.add_cons, Multiset.cons_add, Multiset.cons_inj_right]
      at hbalance

/-- **When nothing is on its way, the remote collection is the copy.** -/
theorem remote_eq (h : Mirror key remote items 0 0) : remote = items.map key := by
  have hbalance := h.balance
  rwa [Multiset.map_zero, add_zero, add_zero] at hbalance

end Mirror

/-! ## Tables -/

namespace Multiset

variable {l : List α} {i : ℕ} {a : α}

/-- An entry and the others, and the table with another entry in its place. -/
lemma exists_perm_cons (h : l[i]? = some a) :
    ∃ rest, l.Perm (a :: rest) ∧ ∀ b, (l.set i b).Perm (b :: rest) := by
  obtain ⟨hi, rfl⟩ := List.getElem?_eq_some_iff.mp h
  refine ⟨l.eraseIdx i, (List.getElem_cons_eraseIdx_perm hi).symm, fun b => ?_⟩
  have hset := (List.getElem_cons_eraseIdx_perm (l := l.set i b) (by simpa using hi)).symm
  rwa [List.getElem_set_self, List.eraseIdx_set_eq] at hset

/-- What an entry holds, and more. -/
def consOption (o : Option β) (rest : Multiset β) : Multiset β := o.elim rest (· ::ₘ rest)

/-- The first entry. -/
lemma coe_filterMap_cons (f : α → Option β) (a : α) (l : List α) :
    ((a :: l).filterMap f : Multiset β) = consOption (f a) (l.filterMap f : Multiset β) := by
  rw [List.filterMap_cons]
  cases f a with
  | none => rfl
  | some b => rfl

/-- **An entry is replaced**: what the others hold stays. -/
theorem coe_filterMap_set (h : l[i]? = some a) (f : α → Option β) (b : α) :
    ∃ rest : Multiset β, (l.filterMap f : Multiset β) = consOption (f a) rest ∧
      ((l.set i b).filterMap f : Multiset β) = consOption (f b) rest := by
  obtain ⟨rest, hl, hset⟩ := exists_perm_cons h
  refine ⟨(rest.filterMap f : List β), ?_, ?_⟩
  · rw [← coe_filterMap_cons]
    exact Multiset.coe_eq_coe.mpr (hl.filterMap f)
  · rw [← coe_filterMap_cons]
    exact Multiset.coe_eq_coe.mpr ((hset b).filterMap f)

/-- An entry is added. -/
theorem coe_filterMap_concat (l : List α) (f : α → Option β) (a : α) :
    ((l ++ [a]).filterMap f : Multiset β) = consOption (f a) (l.filterMap f : Multiset β) := by
  rw [← coe_filterMap_cons]
  exact Multiset.coe_eq_coe.mpr ((List.perm_append_singleton a l).filterMap f)

/-- An entry is taken out. -/
theorem coe_map_eraseIdx (h : l[i]? = some a) (f : α → β) :
    (l.map f : Multiset β) = f a ::ₘ ((l.eraseIdx i).map f : Multiset β) := by
  obtain ⟨hi, rfl⟩ := List.getElem?_eq_some_iff.mp h
  exact Multiset.coe_eq_coe.mpr ((List.getElem_cons_eraseIdx_perm hi).symm.map f)

end Multiset
