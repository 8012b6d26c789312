import Mathlib.Data.List.Basic
import Mathlib.Tactic.Common

set_option relaxedAutoImplicit false
set_option autoImplicit false

/-!
# Finite maps as association lists

A hash map is used only through lookup, insertion, removal and a test for emptiness; its
iteration order is not specified.  The representation is a list of pairs in which `remove`
drops every pair with the key, so that the laws of the operations need no invariant on the
list.  A bare list of pairs (rather than `AList`) can occur inside an inductive type.

## Main definitions

* `AssocMap.get`, `AssocMap.remove`, `AssocMap.insert` — the operations.

## Main results

* `AssocMap.get_insert`, `AssocMap.get_remove` — a point update is one.
* `AssocMap.eq_nil_iff` — a map is empty iff it has no binding.
* `AssocMap.nodup_keys_insert`, `AssocMap.nodup_keys_remove` — the keys stay distinct.
-/

namespace AssocMap

variable {κ α : Type*} [DecidableEq κ]

/-- The value bound to `k`. -/
def get (m : List (κ × α)) (k : κ) : Option α := m.lookup k

/-- The map without a binding for `k`. -/
def remove (m : List (κ × α)) (k : κ) : List (κ × α) := m.filter fun e => decide (e.1 ≠ k)

/-- The map with `k` bound to `v`. -/
def insert (m : List (κ × α)) (k : κ) (v : α) : List (κ × α) := (k, v) :: remove m k

/-- The empty map binds nothing. -/
@[simp] lemma get_nil (k : κ) : get ([] : List (κ × α)) k = none := rfl

/-- Lookup in a map with a first pair. -/
lemma get_cons (e : κ × α) (m : List (κ × α)) (k : κ) :
    get (e :: m) k = if k = e.1 then some e.2 else get m k := by
  obtain ⟨k', v⟩ := e
  by_cases h : k = k'
  · simp [get, h]
  · simp [get, List.lookup_cons, h, beq_eq_false_iff_ne.mpr h]

/-- Removal unbinds the key and nothing else. -/
@[simp] theorem get_remove (m : List (κ × α)) (k k' : κ) :
    get (remove m k) k' = if k' = k then none else get m k' := by
  induction m with
  | nil => simp [remove]
  | cons e m ih =>
    simp only [remove] at ih
    by_cases he : e.1 = k
    · simp only [remove, List.filter_cons, he, ne_eq, not_true_eq_false, decide_false,
        Bool.false_eq_true, if_false, ih, get_cons]
      by_cases hk : k' = k <;> simp [hk]
    · simp only [remove, List.filter_cons, ne_eq, he, not_false_eq_true, decide_true, if_true,
        get_cons, ih]
      by_cases hk : k' = e.1
      · simp [hk, he]
      · simp [hk]

/-- Insertion binds the key and changes nothing else. -/
@[simp] theorem get_insert (m : List (κ × α)) (k k' : κ) (v : α) :
    get (insert m k v) k' = if k' = k then some v else get m k' := by
  rw [insert, get_cons, get_remove]
  by_cases h : k' = k <;> simp [h]

/-- A binding is a pair of the list. -/
lemma mem_of_get {m : List (κ × α)} {k : κ} {v : α} (h : get m k = some v) : (k, v) ∈ m := by
  induction m with
  | nil => simp at h
  | cons e m ih =>
    rw [get_cons] at h
    split_ifs at h with hk
    · obtain rfl : e.2 = v := by simpa using h
      simp [hk]
    · exact List.mem_cons_of_mem _ (ih h)

/-- A pair of a list with distinct keys is a binding. -/
lemma get_of_mem {m : List (κ × α)} (h : (m.map Prod.fst).Nodup) {k : κ} {v : α}
    (hmem : (k, v) ∈ m) : get m k = some v := by
  induction m with
  | nil => cases hmem
  | cons e m ih =>
    rw [List.map_cons, List.nodup_cons] at h
    rw [get_cons]
    rcases List.mem_cons.mp hmem with rfl | hmem
    · exact if_pos rfl
    · have hne : k ≠ e.1 := by
        rintro rfl
        exact h.1 (List.mem_map.mpr ⟨_, hmem, rfl⟩)
      rw [if_neg hne]
      exact ih h.2 hmem

/-- The key of a pair of the list is bound. -/
lemma exists_get_of_mem {m : List (κ × α)} {e : κ × α} (h : e ∈ m) : ∃ v, get m e.1 = some v := by
  induction m with
  | nil => simp at h
  | cons e' m ih =>
    rw [get_cons]
    split_ifs with hk
    · exact ⟨e'.2, rfl⟩
    · rcases List.mem_cons.mp h with rfl | h
      · exact absurd rfl hk
      · exact ih h

/-- A map is empty iff it has no binding. -/
theorem eq_nil_iff (m : List (κ × α)) : m = [] ↔ ∀ k, get m k = none := by
  cases m with
  | nil => simp
  | cons e m =>
    simp only [reduceCtorEq, false_iff, not_forall]
    exact ⟨e.1, by simp [get_cons]⟩

/-- A nonempty map has a binding. -/
lemma exists_get_of_ne_nil {m : List (κ × α)} (h : m ≠ []) : ∃ k v, get m k = some v := by
  by_contra hnone
  push Not at hnone
  exact h ((eq_nil_iff m).mpr fun k => Option.eq_none_iff_forall_ne_some.mpr (hnone k))

/-- Removal keeps the keys distinct. -/
theorem nodup_keys_remove {m : List (κ × α)} (h : (m.map Prod.fst).Nodup) (k : κ) :
    ((remove m k).map Prod.fst).Nodup :=
  h.sublist (List.filter_sublist.map Prod.fst)

/-- Insertion keeps the keys distinct. -/
theorem nodup_keys_insert {m : List (κ × α)} (h : (m.map Prod.fst).Nodup) (k : κ) (v : α) :
    ((insert m k v).map Prod.fst).Nodup := by
  refine List.nodup_cons.mpr ⟨?_, nodup_keys_remove h k⟩
  simp [remove]

/-- Inserting makes a map nonempty. -/
@[simp] lemma insert_ne_nil (m : List (κ × α)) (k : κ) (v : α) : insert m k v ≠ [] := by
  simp [insert]

end AssocMap
