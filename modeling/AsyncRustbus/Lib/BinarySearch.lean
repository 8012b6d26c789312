import Mathlib.Data.List.Basic
import Mathlib.Order.Basic
import Mathlib.Tactic.Common

set_option relaxedAutoImplicit false
set_option autoImplicit false

/-!
# Binary search over a slice

The search of the Rust standard library (`slice::binary_search_by`) over an arbitrary
comparison, and the sorted vectors that are maintained with it.  The comparison is not assumed
to be transitive: what the search needs is that the elements are ordered *relative to the
target*, and what an insertion needs is that the new element closes no cycle with two elements
of the vector.

## Main definitions

* `BinarySearch.search` — `slice::binary_search_by`.
* `BinarySearch.Partitioned` — elements below the target come first, elements above it last.
* `BinarySearch.Sorted`, `BinarySearch.ClosesCycle` — a vector every two elements of which
  stand in increasing order, and the new elements that cannot be placed in one.

## Main results

* `BinarySearch.search_eq_ok`, `BinarySearch.le_length_of_search` — an index that is returned is
  one of an equal element, and an insertion point is one of the vector, whatever the vector.
* `BinarySearch.search_eq_error` — over a partitioned vector an insertion point separates the
  smaller from the larger elements.
* `BinarySearch.Sorted.exists_search_ok_iff`, `BinarySearch.Sorted.insertIdx`,
  `BinarySearch.Sorted.search_insertIdx` — in a sorted vector the search finds what is there;
  inserting where the search says keeps the vector sorted, and the search then finds the new
  element, unless it closes a cycle.
-/

namespace BinarySearch

variable {α : Type*}

/-! ## The search -/

/-- The loop of the search: `base` moves up to the middle of the remaining `size` elements
unless the middle one is greater than the target.  The first argument bounds the number of
rounds. -/
def narrow (f : α → Ordering) (l : List α) : ℕ → ℕ → ℕ → ℕ
  | 0, base, _ => base
  | fuel + 1, base, size =>
    if size ≤ 1 then base
    else
      let half := size / 2
      let mid := base + half
      let base := match l[mid]? with
        | some x => if f x = .gt then base else mid
        | none => base
      narrow f l fuel base (size - half)

/-- `slice::binary_search_by`: `ok` with the index of an element that `f` maps to `eq`, `error`
with the index at which such an element could be inserted. -/
def search (f : α → Ordering) (l : List α) : Except ℕ ℕ :=
  let base := narrow f l l.length 0 l.length
  match l[base]? with
  | none => .error 0
  | some x =>
    match f x with
    | .eq => .ok base
    | .lt => .error (base + 1)
    | .gt => .error base

/-- The elements below the target come first and the elements above it last. -/
def Partitioned (f : α → Ordering) (l : List α) : Prop :=
  l.Pairwise fun a b => (f b = .lt → f a = .lt) ∧ (f a = .gt → f b = .gt)

/-- The index that is returned is one of an element that `f` maps to `eq`. -/
theorem search_eq_ok {f : α → Ordering} {l : List α} {i : ℕ} (h : search f l = .ok i) :
    ∃ x, l[i]? = some x ∧ f x = .eq := by
  unfold search at h
  dsimp only at h
  split at h
  · cases h
  · rename_i x hx
    split at h
    · rename_i heq
      cases h
      exact ⟨x, hx, heq⟩
    · cases h
    · cases h

/-- The insertion point lies inside the vector or at its end, whatever the vector. -/
theorem le_length_of_search {f : α → Ordering} {l : List α} {i : ℕ} (h : search f l = .error i) :
    i ≤ l.length := by
  unfold search at h
  dsimp only at h
  split at h
  · cases h
    exact Nat.zero_le _
  · rename_i x hx
    obtain ⟨hlt, -⟩ := List.getElem?_eq_some_iff.mp hx
    split at h
    · cases h
    · cases h
      exact hlt
    · cases h
      exact Nat.le_of_lt hlt

/-- What the loop maintains: the elements from `base + size` on are greater than the target,
and the element at `base` is not, unless `base` has not moved.

**Proof sketch.** By induction on the fuel, which covers the size. If the middle element is greater
than the target, so is everything behind it, and the upper half is cut off; otherwise the base moves
to it, and it is not greater. With one element left the invariant is the statement. -/
private lemma narrow_spec {f : α → Ordering} {l : List α} (hp : Partitioned f l) :
    ∀ fuel base size, size ≤ fuel + 1 → 0 < size → base + size ≤ l.length →
      (∀ j x, base + size ≤ j → l[j]? = some x → f x = .gt) →
      (∀ x, l[base]? = some x → f x = .gt → base = 0) →
      narrow f l fuel base size < l.length ∧
      (∀ j x, narrow f l fuel base size < j → l[j]? = some x → f x = .gt) ∧
      (∀ x, l[narrow f l fuel base size]? = some x → f x = .gt →
        narrow f l fuel base size = 0) := by
  have hmono := List.pairwise_iff_getElem.mp hp
  intro fuel
  induction fuel with
  | zero =>
    intro base size hfuel hpos hlen habove hbase
    have hsize : size = 1 := by omega
    subst hsize
    exact ⟨by simp only [narrow]; omega, habove, hbase⟩
  | succ fuel ih =>
    intro base size hfuel hpos hlen habove hbase
    by_cases hsize : size ≤ 1
    · have hone : size = 1 := by omega
      subst hone
      rw [narrow, if_pos hsize]
      exact ⟨by omega, habove, hbase⟩
    · have hmid : base + size / 2 < l.length := by omega
      simp only [narrow, hsize, if_false, List.getElem?_eq_getElem hmid]
      by_cases hgt : f l[base + size / 2] = .gt
      · -- the middle element and everything behind it is greater
        simp only [hgt, if_true]
        refine ih base (size - size / 2) (by omega) (by omega) (by omega) ?_ hbase
        intro j x hj hx
        obtain ⟨hjl, rfl⟩ := List.getElem?_eq_some_iff.mp hx
        rcases Nat.lt_or_ge (base + size / 2) j with hlt | hge
        · exact (hmono _ _ hmid hjl hlt).2 hgt
        · have heq : j = base + size / 2 := by omega
          subst heq
          exact hgt
      · simp only [hgt, if_false]
        refine ih (base + size / 2) (size - size / 2) (by omega) (by omega) (by omega) ?_ ?_
        · intro j x hj hx
          exact habove j x (by omega) hx
        · intro x hx hxgt
          rw [List.getElem?_eq_getElem hmid, Option.some.injEq] at hx
          exact absurd (hx ▸ hxgt) hgt

/-- **The insertion point of a partitioned vector**: what stands before it is smaller than the
target and what stands from it on is greater.

**Proof sketch.** The loop ends at an element behind which everything is greater (`narrow_spec`). If
it is smaller than the target, so is everything in front of it, and the insertion point is behind
it. If it is greater, the base has not moved, so everything is greater and the insertion point is
the front. -/
theorem search_eq_error {f : α → Ordering} {l : List α} (hp : Partitioned f l) {i : ℕ}
    (h : search f l = .error i) :
    i ≤ l.length ∧ (∀ j x, j < i → l[j]? = some x → f x = .lt) ∧
      (∀ j x, i ≤ j → l[j]? = some x → f x = .gt) := by
  have hmono := List.pairwise_iff_getElem.mp hp
  unfold search at h
  dsimp only at h
  rcases Nat.eq_zero_or_pos l.length with hnil | hpos
  · rw [List.length_eq_zero_iff] at hnil
    subst hnil
    simp only [List.getElem?_nil, Except.error.injEq] at h
    subst h
    simp
  · obtain ⟨hlt, habove, hzero⟩ := narrow_spec hp l.length 0 l.length (by omega) hpos (by omega)
      (fun j x hj hx => by
        rw [List.getElem?_eq_none (by omega)] at hx
        cases hx)
      (fun _ _ _ => rfl)
    generalize narrow f l l.length 0 l.length = base at h hlt habove hzero
    rw [List.getElem?_eq_getElem hlt] at h hzero
    dsimp only at h
    split at h
    · cases h
    · rename_i hf
      cases h
      refine ⟨hlt, ?_, habove⟩
      intro j x hj hx
      obtain ⟨hjl, rfl⟩ := List.getElem?_eq_some_iff.mp hx
      rcases Nat.lt_or_ge j base with hjb | hjb
      · exact (hmono _ _ hjl hlt hjb).1 hf
      · have heq : j = base := by omega
        subst heq
        exact hf
    · rename_i hf
      cases h
      have hbase := hzero _ rfl hf
      subst hbase
      refine ⟨by omega, fun j x hj => by omega, ?_⟩
      intro j x _ hx
      rcases Nat.eq_zero_or_pos j with rfl | hj
      · rw [List.getElem?_eq_getElem hlt, Option.some.injEq] at hx
        exact hx ▸ hf
      · exact habove j x hj hx

/-! ## Sorted vectors -/

section Sorted

variable (cmp : α → α → Ordering)

/-- Every two elements stand in increasing order. -/
def Sorted (l : List α) : Prop := l.Pairwise fun a b => cmp a b = .lt

/-- The new element `x` is below `a`, which is below `b`, which is below `x`. -/
def ClosesCycle (l : List α) (x : α) : Prop :=
  ∃ a ∈ l, ∃ b ∈ l, cmp x a = .lt ∧ cmp a b = .lt ∧ cmp b x = .lt

instance (l : List α) (x : α) : Decidable (ClosesCycle cmp l x) :=
  inferInstanceAs (Decidable (∃ a ∈ l, ∃ b ∈ l, _ ∧ _ ∧ _))

variable {cmp} [Std.OrientedCmp cmp]
  (hcongr : ∀ {a b : α}, cmp a b = .eq → ∀ c, cmp a c = cmp b c)

/-- Increasing order is the order of the indices. -/
private lemma Sorted.lt_of_cmp_lt {l : List α} (hs : Sorted cmp l) {i j : ℕ}
    (hi : i < l.length) (hj : j < l.length) (h : cmp l[i] l[j] = .lt) : i < j := by
  have hmono := List.pairwise_iff_getElem.mp hs
  rcases Nat.lt_trichotomy i j with hlt | heq | hgt
  · exact hlt
  · subst heq
    have hself : cmp l[i] l[i] = .eq := Std.ReflCmp.compare_self
    rw [hself] at h
    cases h
  · exact absurd (hmono j i hj hi hgt) (Std.OrientedCmp.not_lt_of_lt h)

include hcongr

/-- An element that is already there closes no cycle. -/
lemma Sorted.not_closesCycle {l : List α} (hs : Sorted cmp l) {c x : α} (hc : c ∈ l)
    (hcx : cmp c x = .eq) : ¬ ClosesCycle cmp l x := by
  rintro ⟨a, ha, b, hb, hxa, hab, hbx⟩
  have hca : cmp c a = .lt := by rw [hcongr hcx, hxa]
  have hbc : cmp b c = .lt := by
    rw [← Std.OrientedCmp.gt_iff_lt, hcongr hcx, Std.OrientedCmp.gt_iff_lt, hbx]
  obtain ⟨i, hi, rfl⟩ := List.getElem_of_mem ha
  obtain ⟨j, hj, rfl⟩ := List.getElem_of_mem hb
  obtain ⟨k, hk, rfl⟩ := List.getElem_of_mem hc
  have h₁ := hs.lt_of_cmp_lt hk hi hca
  have h₂ := hs.lt_of_cmp_lt hi hj hab
  have h₃ := hs.lt_of_cmp_lt hj hk hbc
  omega

/-- A sorted vector is partitioned by every target that closes no cycle with it. -/
lemma Sorted.partitioned {l : List α} (hs : Sorted cmp l) {x : α}
    (hx : ¬ ClosesCycle cmp l x) : Partitioned (cmp · x) l := by
  refine List.Pairwise.imp_of_mem ?_ hs
  intro a b ha hb hab
  constructor
  · intro hbx
    show cmp a x = .lt
    cases hax : cmp a x with
    | lt => rfl
    | eq =>
      have hxb : cmp x b = .lt := by rw [← hcongr hax, hab]
      exact absurd hbx (Std.OrientedCmp.not_lt_of_lt hxb)
    | gt => exact absurd ⟨a, ha, b, hb, Std.OrientedCmp.lt_of_gt hax, hab, hbx⟩ hx
  · intro (hax : cmp a x = .gt)
    show cmp b x = .gt
    cases hbx : cmp b x with
    | lt => exact absurd ⟨a, ha, b, hb, Std.OrientedCmp.lt_of_gt hax, hab, hbx⟩ hx
    | eq =>
      have hba : cmp b a = .lt := by rw [hcongr hbx, ← Std.OrientedCmp.gt_iff_lt, hax]
      exact absurd hab (Std.OrientedCmp.not_lt_of_lt hba)
    | gt => rfl

/-- **In a sorted vector the search finds exactly what is there.** -/
theorem Sorted.exists_search_ok_iff {l : List α} (hs : Sorted cmp l) (x : α) :
    (∃ i, search (cmp · x) l = .ok i) ↔ ∃ a ∈ l, cmp a x = .eq := by
  constructor
  · rintro ⟨i, hi⟩
    obtain ⟨a, ha, hax⟩ := search_eq_ok hi
    exact ⟨a, List.mem_of_getElem? ha, hax⟩
  · rintro ⟨a, ha, hax⟩
    cases hsearch : search (cmp · x) l with
    | ok i => exact ⟨i, rfl⟩
    | error i =>
      have hp := hs.partitioned hcongr (hs.not_closesCycle hcongr ha hax)
      obtain ⟨-, hbelow, habove⟩ := search_eq_error hp hsearch
      obtain ⟨j, hj, rfl⟩ := List.getElem_of_mem ha
      rcases Nat.lt_or_ge j i with hlt | hge
      · have := hbelow j _ hlt (List.getElem?_eq_getElem hj)
        rw [hax] at this
        cases this
      · have := habove j _ hge (List.getElem?_eq_getElem hj)
        rw [hax] at this
        cases this

omit [Std.OrientedCmp cmp] hcongr in
/-- `Vec::insert` cuts the vector in two. -/
private lemma insertIdx_eq_take_append_drop (x : α) :
    ∀ {i : ℕ} {l : List α}, i ≤ l.length → l.insertIdx i x = l.take i ++ x :: l.drop i
  | 0, _, _ => by simp
  | i + 1, [], h => by simp at h
  | i + 1, a :: l, h => by
    simp [List.insertIdx_succ_cons, insertIdx_eq_take_append_drop x (Nat.le_of_succ_le_succ h)]

/-- **Inserting where the search says keeps the vector sorted**, unless the new element closes
a cycle. -/
theorem Sorted.insertIdx {l : List α} (hs : Sorted cmp l) {x : α} (hx : ¬ ClosesCycle cmp l x)
    {i : ℕ} (h : search (cmp · x) l = .error i) : Sorted cmp (l.insertIdx i x) := by
  obtain ⟨hi, hbelow, habove⟩ := search_eq_error (hs.partitioned hcongr hx) h
  rw [insertIdx_eq_take_append_drop x hi]
  have hbefore : ∀ a ∈ l.take i, cmp a x = .lt := by
    intro a ha
    obtain ⟨j, hj, rfl⟩ := List.mem_take_iff_getElem.mp ha
    exact hbelow j _ (by omega) (List.getElem?_eq_getElem (by omega))
  have hbehind : ∀ b ∈ l.drop i, cmp x b = .lt := by
    intro b hb
    obtain ⟨j, hj, rfl⟩ := List.mem_drop_iff_getElem.mp hb
    exact Std.OrientedCmp.lt_of_gt (habove (i + j) _ (by omega)
      (List.getElem?_eq_getElem (by omega)))
  have hsplit : Sorted cmp (l.take i ++ l.drop i) := by rwa [List.take_append_drop]
  obtain ⟨htake, hdrop, hcross⟩ := List.pairwise_append.mp hsplit
  refine List.pairwise_append.mpr ⟨htake, List.pairwise_cons.mpr ⟨hbehind, hdrop⟩, ?_⟩
  intro a ha b hb
  rcases List.mem_cons.mp hb with rfl | hb
  · exact hbefore a ha
  · exact hcross a ha b hb

/-- **What was inserted is found where it was inserted.**

**Proof sketch.** The vector is still sorted, so the search finds an equal element; in a sorted
vector no element before or behind the new one is equal to it. -/
theorem Sorted.search_insertIdx {l : List α} (hs : Sorted cmp l) {x : α}
    (hx : ¬ ClosesCycle cmp l x) {i : ℕ} (h : search (cmp · x) l = .error i) :
    search (cmp · x) (l.insertIdx i x) = .ok i := by
  have hsorted := hs.insertIdx hcongr hx h
  have hmono := List.pairwise_iff_getElem.mp hsorted
  have hget : (l.insertIdx i x)[i]? = some x := by
    rw [List.getElem?_insertIdx_self, if_pos (le_length_of_search h)]
  have hself : cmp x x = .eq := Std.ReflCmp.compare_self
  obtain ⟨j, hj⟩ := (hsorted.exists_search_ok_iff hcongr x).mpr
    ⟨x, List.mem_of_getElem? hget, hself⟩
  obtain ⟨a, ha, hax⟩ := search_eq_ok hj
  obtain ⟨hil, hxi⟩ := List.getElem?_eq_some_iff.mp hget
  obtain ⟨hjl, haj⟩ := List.getElem?_eq_some_iff.mp ha
  rw [hj]
  congr 1
  rcases Nat.lt_trichotomy j i with hlt | heq | hgt
  · have hjx := hmono j i hjl hil hlt
    rw [haj, hxi, hax] at hjx
    cases hjx
  · exact heq
  · have hxj := hmono i j hil hjl hgt
    rw [haj, hxi, ← Std.OrientedCmp.gt_iff_lt, hax] at hxj
    cases hxj

end Sorted

end BinarySearch
