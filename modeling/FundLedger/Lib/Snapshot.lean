import Mathlib.Algebra.Order.BigOperators.Group.List
import Mathlib.Algebra.Order.Group.Nat
import Mathlib.Data.Nat.Find
import Mathlib.Tactic.Common

/-!
# Reading at different times

A value that develops over time is read through several questions, each asked
at a time of its own.  `Unskewed` says that who sees a change misses no earlier
one.  Then the answers are those of one moment: of the time right after the
last change that was seen.
-/

namespace Lib

variable {ι : Type} {β : ι → Type}

/-- The answer to the question changes after time `t`. -/
def ChangesAt (answer : (i : ι) → ℕ → β i) (i : ι) (t : ℕ) : Prop :=
  answer i (t + 1) ≠ answer i t

/-- An answer that shows a change goes with answers that show the changes up to
it. -/
def Unskewed (answer : (i : ι) → ℕ → β i) (readAt : ι → ℕ) (questions : List ι) (start : ℕ) :
    Prop :=
  ∀ i ∈ questions, ∀ j ∈ questions, ∀ t u, start ≤ t → t ≤ u → ChangesAt answer i t →
    ChangesAt answer j u → u < readAt j → t < readAt i

/-- Without a change in between, an answer is the same at both times. -/
theorem eq_of_not_changesAt {answer : (i : ι) → ℕ → β i} {i : ι} {s t : ℕ} (hst : s ≤ t)
    (h : ∀ u, s ≤ u → u < t → ¬ChangesAt answer i u) : answer i t = answer i s := by
  induction t, hst using Nat.le_induction with
  | base => rfl
  | succ t hst ih =>
    have hlast : answer i (t + 1) = answer i t := not_not.mp (h t hst (by omega))
    rw [hlast]
    apply ih
    intro u hsu hut
    exact h u hsu (by omega)

/-- A property of times that fails late enough holds last at some time. -/
theorem exists_last {P : ℕ → Prop} {bound : ℕ} (hbound : ∀ t, P t → t < bound) :
    (∀ t, ¬P t) ∨ ∃ t, P t ∧ ∀ u, P u → u ≤ t := by
  classical
  by_cases hnone : ∀ t, ¬P t
  · exact .inl hnone
  · obtain ⟨t, ht⟩ := not_forall_not.mp hnone
    refine .inr ⟨Nat.findGreatest P bound, ?_, fun u hu => ?_⟩
    · exact Nat.findGreatest_spec (hbound t ht).le ht
    · exact Nat.le_findGreatest (hbound u hu).le hu

/-- **Unskewed answers are a snapshot**, taken at the start or after a change
that was seen. -/
theorem Unskewed.exists_snapshot {answer : (i : ι) → ℕ → β i} {readAt : ι → ℕ}
    {questions : List ι} {start : ℕ} (h : Unskewed answer readAt questions start)
    (hstart : ∀ i ∈ questions, start ≤ readAt i) :
    ∃ t, start ≤ t ∧ (t = start ∨ ∃ i ∈ questions, t ≤ readAt i) ∧
      ∀ i ∈ questions, answer i (readAt i) = answer i t := by
  -- the changes that are seen
  let Seen : ℕ → Prop := fun t => start ≤ t ∧ ∃ i ∈ questions, ChangesAt answer i t ∧ t < readAt i
  have hbound : ∀ t, Seen t → t < (questions.map readAt).sum := by
    rintro t ⟨-, i, hi, -, hlt⟩
    exact hlt.trans_le (List.single_le_sum (by simp) _ (List.mem_map_of_mem hi))
  rcases exists_last hbound with hnone | ⟨last, ⟨hle, j, hj, hchange, hlt⟩, hlast⟩
  · refine ⟨start, le_rfl, .inl rfl, fun i hi => ?_⟩
    apply eq_of_not_changesAt (hstart i hi)
    intro u hsu hur hu
    exact hnone u ⟨hsu, i, hi, hu, hur⟩
  · refine ⟨last + 1, by omega, .inr ⟨j, hj, hlt⟩, fun i hi => ?_⟩
    by_cases horder : readAt i ≤ last + 1
    · symm
      apply eq_of_not_changesAt horder
      intro u hru hul hu
      have hseen := h i hi j hj u last ((hstart i hi).trans hru) (by omega) hu hchange hlt
      omega
    · apply eq_of_not_changesAt (by omega)
      intro u hlu hur hu
      have hlate := hlast u ⟨by omega, i, hi, hu, hur⟩
      omega

end Lib
