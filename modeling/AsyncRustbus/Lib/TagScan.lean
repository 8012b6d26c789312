import Mathlib.Data.List.Basic
import Mathlib.Data.List.Infix
import Mathlib.Tactic.Common

set_option relaxedAutoImplicit false
set_option autoImplicit false

/-!
# Reading tagged values out of a text

A text over any alphabet holds values between a tag and a stop letter, as the attributes of markup
do.  The reader collects the values behind all occurrences of the tag.  A part of a text in which
no occurrence can start does not matter to it.

## Main definitions

* `TagScan.scan` — the values behind a tag.
* `TagScan.quiet` — no occurrence of the tag starts in a part of a text, whatever follows it.

## Main results

* `TagScan.scan_append_of_quiet` — such a part is skipped.
* `TagScan.scan_tag` — a tagged value is read.
-/

namespace TagScan

variable {α : Type} [DecidableEq α]

/-- The values between the occurrences of `tag` and the next letter `stop` each. -/
def scan (tag : List α) (stop : α) : List α → List (List α)
  | [] => []
  | c :: cs =>
    if tag.isPrefixOf (c :: cs) then
      ((c :: cs).drop tag.length).takeWhile (· ≠ stop) :: scan tag stop cs
    else scan tag stop cs

/-- No occurrence of the tag starts in the text, even if it goes on behind it. -/
def quiet (tag : List α) : List α → Bool
  | [] => true
  | c :: cs => !tag.isPrefixOf (c :: cs) && !(c :: cs).isPrefixOf tag && quiet tag cs

variable {tag : List α} {stop : α}

/-- A text without the first letter of the tag is quiet. -/
lemma quiet_of_notMem {d : α} {tag a : List α} (h : d ∉ a) : quiet (d :: tag) a = true := by
  induction a with
  | nil => rfl
  | cons c a ih =>
    rw [List.mem_cons, not_or] at h
    have hne : (d == c) = false := beq_eq_false_iff_ne.mpr h.1
    have hne' : (c == d) = false := beq_eq_false_iff_ne.mpr (Ne.symm h.1)
    simp only [quiet, List.isPrefixOf, hne, hne', Bool.false_and, Bool.not_false, Bool.true_and]
    exact ih h.2

/-- **A quiet part of a text is skipped.** -/
theorem scan_append_of_quiet {a : List α} (h : quiet tag a = true) (b : List α) :
    scan tag stop (a ++ b) = scan tag stop b := by
  induction a with
  | nil => rfl
  | cons c a ih =>
    simp only [quiet, Bool.and_eq_true, Bool.not_eq_true', ← Bool.not_eq_true,
      List.isPrefixOf_iff_prefix] at h
    obtain ⟨⟨htag, htext⟩, hrest⟩ := h
    have hnot : ¬ tag.isPrefixOf (c :: (a ++ b)) = true := by
      rw [List.isPrefixOf_iff_prefix]
      intro hpre
      rcases List.prefix_or_prefix_of_prefix hpre (List.prefix_append (c :: a) b) with h | h
      · exact htag h
      · exact htext h
    rw [List.cons_append, scan, if_neg hnot, ih hrest]

/-- A text of which all is quiet has no values. -/
lemma scan_of_quiet {a : List α} (h : quiet tag a = true) : scan tag stop a = [] := by
  have hscan : scan tag stop (a ++ []) = scan tag stop [] := scan_append_of_quiet h []
  rwa [List.append_nil] at hscan

/-- **A tagged value is read**, if what stands behind the first letter of the tag is quiet. -/
theorem scan_tag {d : α} {tag value : List α} (hvalue : stop ∉ value)
    (hquiet : quiet (d :: tag) (tag ++ value) = true) (rest : List α) :
    scan (d :: tag) stop (d :: tag ++ value ++ stop :: rest) =
      value :: scan (d :: tag) stop (stop :: rest) := by
  have hpre : (d :: tag).isPrefixOf (d :: (tag ++ value ++ stop :: rest)) = true := by
    rw [List.isPrefixOf_iff_prefix]
    exact ⟨value ++ stop :: rest, by simp⟩
  have hdrop : (d :: (tag ++ value ++ stop :: rest)).drop (d :: tag).length =
      value ++ stop :: rest := by
    simp
  have htake : (value ++ stop :: rest).takeWhile (· ≠ stop) = value := by
    rw [List.takeWhile_append_of_pos]
    · simp
    · intro c hc
      simp only [ne_eq, decide_not, Bool.not_eq_true', decide_eq_false_iff_not]
      rintro rfl
      exact hvalue hc
  rw [List.cons_append, List.cons_append, scan, if_pos hpre, hdrop, htake]
  rw [scan_append_of_quiet hquiet]

end TagScan
