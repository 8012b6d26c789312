import Mathlib.Data.List.Perm.Basic
import Mathlib.Tactic.Common

set_option relaxedAutoImplicit false
set_option autoImplicit false

/-!
# Handles that are opened and closed

A table records which handles are open, and whether a handle was ever closed or used that was not.
A part of a program owns handles when exactly these are open and nothing was misused.

## Main definitions

* `Handles` — the table; `Handles.acquire`, `Handles.close`, `Handles.closeAll`, `Handles.use`.
* `Handles.Owns` — exactly these handles are open, each once, and none was misused.

## Main results

* `Owns.acquire`, `Owns.close`, `Owns.closeAll`, `Owns.use` — how ownership changes.
-/

/-- The open handles, and whether one was closed or used that was not open. -/
structure Handles (H : Type) where
  opened : List H
  misused : Bool

namespace Handles

variable {H : Type} [DecidableEq H]

/-- No handle is open. -/
def empty : Handles H := ⟨[], false⟩

/-- A handle is opened. -/
def acquire (t : Handles H) (h : H) : Handles H := { t with opened := h :: t.opened }

/-- A handle is closed. -/
def close (t : Handles H) (h : H) : Handles H where
  opened := t.opened.erase h
  misused := t.misused || decide (h ∉ t.opened)

/-- Handles are closed one after the other. -/
def closeAll (t : Handles H) (hs : List H) : Handles H := hs.foldl close t

/-- Handles are used. -/
def use (t : Handles H) (hs : List H) : Handles H :=
  { t with misused := t.misused || decide (∃ h ∈ hs, h ∉ t.opened) }

/-- Exactly these handles are open, each of them once, and none was misused. -/
structure Owns (t : Handles H) (hs : List H) : Prop where
  sound : t.misused = false
  perm : t.opened.Perm hs
  nodup : t.opened.Nodup

variable {t : Handles H} {h : H} {hs hs' : List H}

omit [DecidableEq H] in
/-- Nothing is open. -/
lemma owns_empty : Owns (empty : Handles H) [] := ⟨rfl, .rfl, .nil⟩

omit [DecidableEq H] in
/-- The order does not matter. -/
lemma Owns.of_perm (ht : t.Owns hs) (hperm : hs.Perm hs') : t.Owns hs' :=
  ⟨ht.sound, ht.perm.trans hperm, ht.nodup⟩

omit [DecidableEq H] in
/-- A new handle is owned. -/
theorem Owns.acquire (ht : t.Owns hs) (hnew : h ∉ t.opened) : (t.acquire h).Owns (h :: hs) :=
  ⟨ht.sound, ht.perm.cons h, List.nodup_cons.mpr ⟨hnew, ht.nodup⟩⟩

/-- A handle that is closed is not owned any more. -/
theorem Owns.close (ht : t.Owns (h :: hs)) : (t.close h).Owns hs where
  sound := by
    have hmem : h ∈ t.opened := ht.perm.mem_iff.mpr List.mem_cons_self
    rw [Handles.close, ht.sound, Bool.false_or, decide_eq_false_iff_not]
    exact not_not.mpr hmem
  perm := by
    have herase := ht.perm.erase h
    rwa [List.erase_cons_head] at herase
  nodup := ht.nodup.erase h

/-- Handles that are closed are not owned any more. -/
theorem Owns.closeAll (ht : t.Owns (hs ++ hs')) : (t.closeAll hs).Owns hs' := by
  induction hs generalizing t with
  | nil => exact ht
  | cons h hs ih => exact ih ht.close

/-- Using handles that are owned changes nothing. -/
theorem Owns.use (ht : t.Owns hs) (hsub : hs' ⊆ hs) : t.use hs' = t := by
  have hnone : ¬ ∃ h ∈ hs', h ∉ t.opened := by
    rintro ⟨h, hh, hnot⟩
    exact hnot (ht.perm.mem_iff.mpr (hsub hh))
  rw [Handles.use, decide_eq_false hnone, Bool.or_false]

end Handles
