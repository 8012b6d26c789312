import Mathlib.Data.List.Basic
import Mathlib.Order.Lattice
import Mathlib.Tactic.Common

set_option relaxedAutoImplicit false
set_option autoImplicit false

/-!
# Threads that take turns

Threads run the same code over a shared state.  A turn is one atomic action of one thread; turns
follow each other in any order.  A fair order is a sequence of rounds in each of which every thread
has at least one turn.

## Main definitions

* `Threads`, `Threads.turn`, `Threads.run` — threads and their turns.
* `Threads.Round` — every thread has a turn.

## Main results

* `Threads.run_induction` — what every turn keeps holds in every run.
* `Threads.le_rank_of_rounds` — points that each turn moves up have moved up by the number of
  rounds.
-/

/-- A shared state, and for each thread the point in its code at which it is. -/
structure Threads (S P : Type) where
  shared : S
  points : List P

namespace Threads

variable {S P : Type} (f : S → P → S × P)

/-- A turn of a thread: the action at its point. -/
def turn (st : Threads S P) (t : ℕ) : Threads S P :=
  match st.points[t]? with
  | none => st
  | some p => ⟨(f st.shared p).1, st.points.set t (f st.shared p).2⟩

/-- A sequence of turns. -/
def run (st : Threads S P) (turns : List ℕ) : Threads S P := turns.foldl (turn f) st

/-- A sequence of turns in which each of `n` threads has one. -/
def Round (n : ℕ) (turns : List ℕ) : Prop := ∀ t < n, t ∈ turns

variable {f}

/-- A turn of a thread that is there. -/
lemma turn_of_some {st : Threads S P} {t : ℕ} {p : P} (h : st.points[t]? = some p) :
    st.turn f t = ⟨(f st.shared p).1, st.points.set t (f st.shared p).2⟩ := by
  rw [turn, h]

/-- A turn of no thread. -/
lemma turn_of_none {st : Threads S P} {t : ℕ} (h : st.points[t]? = none) : st.turn f t = st := by
  rw [turn, h]

/-- Two sequences of turns. -/
lemma run_append (st : Threads S P) (turns turns' : List ℕ) :
    st.run f (turns ++ turns') = (st.run f turns).run f turns' := List.foldl_append

/-- No turn adds or removes a thread. -/
@[simp] lemma length_points_turn (st : Threads S P) (t : ℕ) :
    (st.turn f t).points.length = st.points.length := by
  cases h : st.points[t]? with
  | none => rw [turn_of_none h]
  | some p => rw [turn_of_some h, List.length_set]

/-- Neither does a run. -/
@[simp] lemma length_points_run (st : Threads S P) (turns : List ℕ) :
    (st.run f turns).points.length = st.points.length := by
  induction turns generalizing st with
  | nil => rfl
  | cons t turns ih =>
    show ((st.turn f t).run f turns).points.length = _
    rw [ih, length_points_turn]

/-- **What every turn keeps holds in every run.** -/
theorem run_induction {I : Threads S P → Prop}
    (hturn : ∀ (st : Threads S P) t p, I st → st.points[t]? = some p →
      I ⟨(f st.shared p).1, st.points.set t (f st.shared p).2⟩)
    {st : Threads S P} (h : I st) (turns : List ℕ) : I (st.run f turns) := by
  induction turns generalizing st with
  | nil => exact h
  | cons t turns ih =>
    refine ih ?_
    cases hp : st.points[t]? with
    | none =>
      rw [turn_of_none hp]
      exact h
    | some p =>
      rw [turn_of_some hp]
      exact hturn st t p h hp

/-- The points of the threads after one of them has moved. -/
lemma getElem?_set_point {points : List P} {t t' : ℕ} {p p' q : P} (hp : points[t]? = some p)
    (hq : (points.set t p')[t']? = some q) :
    t' = t ∧ q = p' ∨ t' ≠ t ∧ points[t']? = some q := by
  obtain ⟨hlt, -⟩ := List.getElem?_eq_some_iff.mp hp
  by_cases heq : t = t'
  · subst heq
    rw [List.getElem?_set_self hlt, Option.some.injEq] at hq
    exact .inl ⟨rfl, hq.symm⟩
  · rw [List.getElem?_set_ne heq] at hq
    exact .inr ⟨fun h => heq h.symm, hq⟩

section Rounds

variable {C : S → Prop} {rank : P → ℕ} {bound : ℕ}

/-- **The turns of a round**: each thread that has had its turn has moved up.

**Proof sketch.** Induction on the turns.  No turn moves a thread below where it was. -/
lemma le_rank_of_turns (hC : ∀ s p, C s → C (f s p).1)
    (hrank : ∀ s p, C s → min bound (rank p + 1) ≤ rank (f s p).2) {base : ℕ} (turns : List ℕ)
    {st : Threads S P} (hs : C st.shared) (had : ℕ → Prop)
    (hbase : ∀ (t : ℕ) p, st.points[t]? = some p → min bound base ≤ rank p)
    (hhad : ∀ (t : ℕ) p, st.points[t]? = some p → had t → min bound (base + 1) ≤ rank p) :
    C (st.run f turns).shared ∧
      ∀ (t : ℕ) p, (st.run f turns).points[t]? = some p → min bound base ≤ rank p ∧
        (had t ∨ t ∈ turns → min bound (base + 1) ≤ rank p) := by
  induction turns generalizing st had with
  | nil =>
    refine ⟨hs, fun t p hp => ⟨hbase t p hp, fun h => ?_⟩⟩
    rcases h with h | h
    · exact hhad t p hp h
    · cases h
  | cons t turns ih =>
    show C ((st.turn f t).run f turns).shared ∧ ∀ (t' : ℕ) p,
      ((st.turn f t).run f turns).points[t']? = some p → _
    cases hp : st.points[t]? with
    | none =>
      rw [turn_of_none hp]
      obtain ⟨hs', hpoints⟩ := ih hs had hbase hhad
      refine ⟨hs', fun t' p' hp' => ⟨(hpoints t' p' hp').1, fun h => ?_⟩⟩
      rcases h with h | h
      · exact (hpoints t' p' hp').2 (.inl h)
      · rcases List.mem_cons.mp h with rfl | h
        · -- this thread is not there
          have hlt := (List.getElem?_eq_some_iff.mp hp').1
          rw [length_points_run] at hlt
          rw [List.getElem?_eq_getElem hlt] at hp
          cases hp
        · exact (hpoints t' p' hp').2 (.inr h)
    | some p =>
      rw [turn_of_some hp]
      have hup := hrank st.shared p hs
      have hfrom := hbase t p hp
      obtain ⟨hs', hpoints⟩ := @ih
        ⟨(f st.shared p).1, st.points.set t (f st.shared p).2⟩ (hC st.shared p hs)
        (fun t' => had t' ∨ t' = t)
        (by
          intro t' q hq
          rcases getElem?_set_point hp hq with ⟨-, rfl⟩ | ⟨-, hold⟩
          · omega
          · exact hbase t' q hold)
        (by
          intro t' q hq h
          rcases getElem?_set_point hp hq with ⟨-, rfl⟩ | ⟨hne, hold⟩
          · omega
          · rcases h with h | h
            · exact hhad t' q hold h
            · exact absurd h hne)
      refine ⟨hs', fun t' p' hp' => ⟨(hpoints t' p' hp').1, fun h => (hpoints t' p' hp').2 ?_⟩⟩
      rcases h with h | h
      · exact .inl (.inl h)
      · rcases List.mem_cons.mp h with h | h
        · exact .inl (.inr h)
        · exact .inr h

/-- **Points move up round by round**, as far as every turn moves its thread up. -/
theorem le_rank_of_rounds (hC : ∀ s p, C s → C (f s p).1)
    (hrank : ∀ s p, C s → min bound (rank p + 1) ≤ rank (f s p).2) (rounds : List (List ℕ))
    {st : Threads S P} (hrounds : ∀ turns ∈ rounds, Round st.points.length turns)
    (hs : C st.shared) (base : ℕ) (hbase : ∀ p ∈ st.points, min bound base ≤ rank p) :
    ∀ p ∈ (st.run f rounds.flatten).points, min bound (base + rounds.length) ≤ rank p := by
  induction rounds generalizing st base with
  | nil => exact hbase
  | cons turns rounds ih =>
    have hround : Round st.points.length turns := hrounds turns List.mem_cons_self
    obtain ⟨hs', hpoints⟩ := le_rank_of_turns hC hrank turns hs (fun _ => False)
      (fun t p hp => hbase p (List.mem_of_getElem? hp)) (fun _ _ _ h => h.elim)
    have hup : ∀ p ∈ (st.run f turns).points, min bound (base + 1) ≤ rank p := by
      intro p hp
      obtain ⟨t, ht⟩ := List.mem_iff_getElem?.mp hp
      have hlt := (List.getElem?_eq_some_iff.mp ht).1
      rw [length_points_run] at hlt
      exact (hpoints t p ht).2 (.inr (hround t hlt))
    have hrest := @ih (st.run f turns)
      (fun turns' h => by
        rw [length_points_run]
        exact hrounds turns' (List.mem_cons_of_mem _ h)) hs' (base + 1) hup
    rw [List.flatten_cons, run_append, List.length_cons, Nat.add_comm rounds.length 1,
      ← Nat.add_assoc]
    exact hrest

end Rounds

end Threads
