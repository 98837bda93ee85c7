import Mathlib

/-!
# Rows under a transaction

What a transaction sees of a table while its changes are not committed, and
the locks on rows.

* `overlay base edits` is the table of the committed rows `base` with the
  changes `edits` of one transaction.  A key that the transaction changed looks
  the same whatever is committed meanwhile (`overlay_of_mem`), and any other key
  shows the committed row (`overlay_of_not_mem`).
* `RowLock.Conflicts` is the table of conflicts of the four row-level locks.
-/

namespace Lib

/-! ## Changes that are not committed -/

section

variable {κ α : Type} [DecidableEq κ]

/-- The committed rows with the changes of a transaction, oldest first.  A
change to `none` deletes the row. -/
def overlay (base : κ → Option α) (edits : List (κ × Option α)) : κ → Option α :=
  edits.foldl (fun rows e => Function.update rows e.1 e.2) base

@[simp] theorem overlay_nil (base : κ → Option α) : overlay base [] = base := rfl

theorem overlay_cons (base : κ → Option α) (e : κ × Option α) (edits : List (κ × Option α)) :
    overlay base (e :: edits) = overlay (Function.update base e.1 e.2) edits := rfl

theorem overlay_append (base : κ → Option α) (edits more : List (κ × Option α)) :
    overlay base (edits ++ more) = overlay (overlay base edits) more :=
  List.foldl_append

/-- A key that is not changed. -/
theorem overlay_of_not_mem {base : κ → Option α} {edits : List (κ × Option α)} {k : κ}
    (h : k ∉ edits.map Prod.fst) : overlay base edits k = base k := by
  induction edits generalizing base with
  | nil => rfl
  | cons e edits ih =>
    simp only [List.map_cons, List.mem_cons, not_or] at h
    rw [overlay_cons, ih h.2, Function.update_of_ne h.1]

/-- A key shows the same row over two tables that agree on it. -/
theorem overlay_congr {base base' : κ → Option α} {k : κ} (h : base k = base' k)
    (edits : List (κ × Option α)) : overlay base edits k = overlay base' edits k := by
  induction edits generalizing base base' with
  | nil => exact h
  | cons e edits ih =>
    apply ih
    by_cases hk : k = e.1
    · subst hk
      simp
    · simp [hk, h]

/-- A key that is changed does not show what is committed. -/
theorem overlay_of_mem {base base' : κ → Option α} {edits : List (κ × Option α)} {k : κ}
    (h : k ∈ edits.map Prod.fst) : overlay base edits k = overlay base' edits k := by
  induction edits generalizing base base' with
  | nil => simp at h
  | cons e edits ih =>
    rw [overlay_cons, overlay_cons]
    by_cases hk : k = e.1
    · apply overlay_congr
      simp [hk]
    · simp only [List.map_cons, List.mem_cons, hk, false_or] at h
      exact ih h

end

/-! ## Locks on rows -/

/-- `FOR KEY SHARE`, `FOR SHARE`, `FOR NO KEY UPDATE` and `FOR UPDATE`. -/
inductive RowLock
  | keyShare
  | share
  | noKeyUpdate
  | update
  deriving DecidableEq

namespace RowLock

def rank : RowLock → ℕ
  | keyShare => 0
  | share => 1
  | noKeyUpdate => 2
  | update => 3

/-- The table of conflicts: a lock conflicts with those that are strong enough. -/
def Conflicts (a b : RowLock) : Prop := 3 ≤ a.rank + b.rank

instance (a b : RowLock) : Decidable (a.Conflicts b) := inferInstanceAs (Decidable (3 ≤ _))

theorem Conflicts.symm {a b : RowLock} (h : a.Conflicts b) : b.Conflicts a := by
  unfold Conflicts at h ⊢
  omega

theorem update_conflicts (a : RowLock) : update.Conflicts a := by
  show 3 ≤ 3 + a.rank
  omega

theorem noKeyUpdate_conflicts {a : RowLock} (h : a ≠ keyShare) : noKeyUpdate.Conflicts a := by
  cases a with
  | keyShare => exact absurd rfl h
  | share | noKeyUpdate | update => decide

end RowLock

end Lib
