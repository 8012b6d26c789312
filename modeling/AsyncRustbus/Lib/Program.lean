import Mathlib.Data.List.Basic
import Mathlib.Tactic.Common

set_option relaxedAutoImplicit false
set_option autoImplicit false

/-!
# Programs that may stop

A program works on a state and returns a value, or stops for a reason.  It is described by triples:
from states with one property it comes to states with another, which may depend on the value or on
the reason for which it stopped.

## Main definitions

* `Program` — programs, with the `do` notation of the standard transformers.
* `Program.Triple` — what a program does from the states with a property.

## Main results

* `Program.Triple.bind`, `Program.Triple.attempt` — the rules of composition.
* `Program.Triple.final` — reading a triple of a program off a run.
-/

/-- A program on states of type `σ` that may stop for a reason of type `ε`. -/
abbrev Program (σ ε : Type) := ExceptT ε (StateM σ)

namespace Program

variable {σ ε α β : Type}

/-- A program given by what it does. -/
def of (f : σ → Except ε α × σ) : Program σ ε α := ExceptT.mk f

/-- Run a program: the value or the reason, and the state that is left. -/
def exec (m : Program σ ε α) (s : σ) : Except ε α × σ := (ExceptT.run m).run s

/-- Running a program given by what it does. -/
@[simp] lemma exec_of (f : σ → Except ε α × σ) (s : σ) : (of f).exec s = f s := rfl

/-- Running a program that returns at once. -/
@[simp] lemma exec_pure (a : α) (s : σ) : (pure a : Program σ ε α).exec s = (.ok a, s) := rfl

/-- Running a program that stops at once. -/
@[simp] lemma exec_throw (e : ε) (s : σ) :
    (throw e : Program σ ε α).exec s = (.error e, s) := rfl

/-- Running two programs in a row. -/
lemma exec_bind (m : Program σ ε α) (k : α → Program σ ε β) (s : σ) :
    (m >>= k).exec s =
      match m.exec s with
      | (.ok a, s) => (k a).exec s
      | (.error e, s) => (.error e, s) := by
  simp only [exec, ExceptT.run, StateT.run, Bind.bind, ExceptT.bind, ExceptT.mk, StateT.bind]
  rcases m s with ⟨_ | _, s'⟩
  · rfl
  · rfl

/-- Running a program behind one that returns. -/
lemma exec_bind_ok {m : Program σ ε α} {k : α → Program σ ε β} {s s' : σ} {a : α}
    (h : m.exec s = (.ok a, s')) : (m >>= k).exec s = (k a).exec s' := by
  rw [exec_bind, h]

/-- Go on where the reason is one that is handled. -/
def attempt {ε' : Type} (handled : ε → Option ε') (m : Program σ ε α) :
    Program σ ε (Except ε' α) :=
  of fun s =>
    match m.exec s with
    | (.ok a, s) => (.ok (.ok a), s)
    | (.error e, s) =>
      match handled e with
      | some e' => (.ok (.error e'), s)
      | none => (.error e, s)

/-! ## Triples -/

/-- From states with `P` the program returns values and states with `Q`, or it stops for reasons
and in states with `E`. -/
def Triple (P : σ → Prop) (m : Program σ ε α) (Q : α → σ → Prop) (E : ε → σ → Prop) : Prop :=
  ∀ s, P s →
    match m.exec s with
    | (.ok a, s') => Q a s'
    | (.error e, s') => E e s'

namespace Triple

variable {P P' : σ → Prop} {Q Q' : α → σ → Prop} {E E' : ε → σ → Prop}

/-- A program that returns at once. -/
lemma pure {a : α} (h : ∀ s, P s → Q a s) : Triple P (Pure.pure a : Program σ ε α) Q E := h

/-- A program that stops at once. -/
lemma throw {e : ε} (h : ∀ s, P s → E e s) :
    Triple P (MonadExcept.throw e : Program σ ε α) Q E := h

/-- Two programs in a row, where the first one's reasons to stop are reasons of both. -/
theorem bind {m : Program σ ε α} {k : α → Program σ ε β} {R : α → σ → Prop} {Q : β → σ → Prop}
    (hm : Triple P m R E) (hk : ∀ a, Triple (R a) (k a) Q E) : Triple P (m >>= k) Q E := by
  intro s hs
  have hfirst := hm s hs
  rw [exec_bind]
  generalize m.exec s = res at hfirst ⊢
  obtain ⟨_ | _, s'⟩ := res
  · exact hfirst
  · exact hk _ s' hfirst

/-- Other properties that follow. -/
lemma mono {m : Program σ ε α} (h : Triple P m Q E) (hP : ∀ s, P' s → P s)
    (hQ : ∀ a s, Q a s → Q' a s) (hE : ∀ e s, E e s → E' e s) : Triple P' m Q' E' := by
  intro s hs
  have hrun := h s (hP s hs)
  generalize m.exec s = res at hrun ⊢
  obtain ⟨_ | _, s'⟩ := res
  · exact hE _ _ hrun
  · exact hQ _ _ hrun

/-- Going on where a reason is handled. -/
theorem attempt {ε' : Type} {handled : ε → Option ε'} {m : Program σ ε α}
    {R : Except ε' α → σ → Prop} (hm : Triple P m (fun a => R (.ok a)) fun e s =>
      match handled e with
      | some e' => R (.error e') s
      | none => E e s) : Triple P (m.attempt handled) R E := by
  intro s hs
  have hrun := hm s hs
  rw [Program.attempt, exec_of]
  generalize m.exec s = res at hrun ⊢
  obtain ⟨e | a, s'⟩ := res
  · simp only at hrun ⊢
    cases hhandled : handled e with
    | some e' =>
      rw [hhandled] at hrun
      exact hrun
    | none =>
      rw [hhandled] at hrun
      exact hrun
  · exact hrun

/-- Reading a triple off a run. -/
theorem final {m : Program σ ε α} (h : Triple P m Q E) {s : σ} (hs : P s) :
    (∃ a, (m.exec s).1 = .ok a ∧ Q a (m.exec s).2) ∨
      ∃ e, (m.exec s).1 = .error e ∧ E e (m.exec s).2 := by
  have hrun := h s hs
  rcases hres : m.exec s with ⟨e | a, s'⟩
  · rw [hres] at hrun
    exact .inr ⟨e, rfl, hrun⟩
  · rw [hres] at hrun
    exact .inl ⟨a, rfl, hrun⟩

end Triple

end Program
