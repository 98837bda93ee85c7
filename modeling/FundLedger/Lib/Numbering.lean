import Mathlib

/-!
# Numbering rows

Rows belong to groups and carry a number.  A new row of a group gets the
largest number of the group plus one.  If that is how the rows were numbered,
each group has the numbers from one on, in order and without a gap.
-/

namespace Lib

section

variable {ρ κ : Type} [DecidableEq κ] (group : ρ → κ) (number : ρ → ℕ)

/-- The numbers of a group, in the order of the rows. -/
def numbersIn (rows : List ρ) (k : κ) : List ℕ := (rows.filter fun r => group r = k).map number

/-- `MAX + 1`. -/
def nextNumber (rows : List ρ) (k : κ) : ℕ := (numbersIn group number rows k).max?.getD 0 + 1

/-- Each group is numbered from one on. -/
def Gapless (rows : List ρ) : Prop :=
  ∀ k, numbersIn group number rows k = List.range' 1 (numbersIn group number rows k).length

variable {group number}

theorem max?_range' (n : ℕ) : (List.range' 1 n).max?.getD 0 = n := by
  cases n with
  | zero => rfl
  | succ n =>
    have hmax : (List.range' 1 (n + 1)).max? = some (n + 1) := by
      apply List.max?_eq_some_iff.mpr
      refine ⟨?_, fun b hb => ?_⟩
      · rw [List.mem_range'_1]
        omega
      · rw [List.mem_range'_1] at hb
        omega
    rw [hmax, Option.getD_some]

theorem Gapless.nil : Gapless group number ([] : List ρ) := fun _ => rfl

/-- The next number continues the row of numbers. -/
theorem Gapless.nextNumber_eq {rows : List ρ} (h : Gapless group number rows) (k : κ) :
    nextNumber group number rows k = (numbersIn group number rows k).length + 1 := by
  rw [nextNumber, h k, max?_range', List.length_range']

theorem numbersIn_append (rows : List ρ) (r : ρ) (k : κ) :
    numbersIn group number (rows ++ [r]) k =
      numbersIn group number rows k ++ if group r = k then [number r] else [] := by
  rw [numbersIn, numbersIn, List.filter_append, List.map_append]
  congr 1
  by_cases hk : group r = k <;> simp [hk]

/-- **A row with the next number** leaves no gap. -/
theorem Gapless.append {rows : List ρ} (h : Gapless group number rows) {r : ρ}
    (hr : number r = nextNumber group number rows (group r)) :
    Gapless group number (rows ++ [r]) := by
  intro k
  rw [numbersIn_append]
  by_cases hk : group r = k
  · subst hk
    rw [if_pos rfl, hr, h.nextNumber_eq, List.length_append, List.length_singleton,
      List.range'_concat, ← h (group r)]
    congr 2
    omega
  · rw [if_neg hk, List.append_nil]
    exact h k

end

end Lib
