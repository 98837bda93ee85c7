import Mathlib

/-!
# Keyed tables

A table is a list of rows in insertion order.  The primary key is carried as
a field: no two rows of a `Table` share a key, so a lookup by key finds the
row or there is none, and no later proof has to argue about duplicates.

`insert` is the only operation that can fail, exactly as an `INSERT` fails on
a primary key that is in use.  `update` keeps the key of every row by
construction, and `restrict` drops rows.
-/

namespace Lib

variable {α κ : Type} {key : α → κ}

/-- Rows in insertion order, no two of which share a key. -/
structure Table (α : Type) {κ : Type} (key : α → κ) where
  rows : List α
  nodup : (rows.map key).Nodup

namespace Table

@[ext] theorem ext {t u : Table α key} (h : t.rows = u.rows) : t = u := by
  cases t; cases u; cases h; rfl

instance : Membership α (Table α key) where
  mem t r := r ∈ t.rows

@[simp] theorem mem_rows {t : Table α key} {r : α} : r ∈ t.rows ↔ r ∈ t := Iff.rfl

/-- The table with no rows. -/
def empty : Table α key := ⟨[], by simp⟩

@[simp] theorem rows_empty : (empty : Table α key).rows = [] := rfl

/-- Two rows of a table with the same key are the same row. -/
theorem eq_of_key_eq {t : Table α key} {r s : α} (hr : r ∈ t) (hs : s ∈ t)
    (h : key r = key s) : r = s :=
  List.inj_on_of_nodup_map t.nodup hr hs h

section Lookup

variable [DecidableEq κ]

/-- The row with key `k`, if there is one. -/
def get? (t : Table α key) (k : κ) : Option α :=
  t.rows.find? fun r => decide (key r = k)

theorem get?_eq_some {t : Table α key} {k : κ} {r : α} :
    t.get? k = some r ↔ r ∈ t ∧ key r = k := by
  constructor
  · intro h
    exact ⟨List.mem_of_find?_eq_some h, by simpa using List.find?_some h⟩
  · rintro ⟨hr, rfl⟩
    cases hf : t.get? (key r) with
    | none =>
      have hnone := List.find?_eq_none.mp hf r hr
      simp at hnone
    | some s =>
      have hs : s ∈ t := List.mem_of_find?_eq_some hf
      have hk : key s = key r := by simpa using List.find?_some hf
      rw [eq_of_key_eq hs hr hk]

theorem get?_of_mem {t : Table α key} {r : α} (hr : r ∈ t) :
    t.get? (key r) = some r :=
  get?_eq_some.mpr ⟨hr, rfl⟩

theorem get?_eq_none {t : Table α key} {k : κ} :
    t.get? k = none ↔ ∀ r ∈ t, key r ≠ k := by
  simp [get?, List.find?_eq_none]

theorem mem_of_get? {t : Table α key} {k : κ} {r : α} (h : t.get? k = some r) :
    r ∈ t :=
  (get?_eq_some.mp h).1

theorem key_of_get? {t : Table α key} {k : κ} {r : α} (h : t.get? k = some r) :
    key r = k :=
  (get?_eq_some.mp h).2

/-- A lookup does not depend on the order of the rows. -/
theorem get?_perm {t u : Table α key} (h : t.rows.Perm u.rows) (k : κ) : t.get? k = u.get? k := by
  cases hk : u.get? k with
  | some r =>
    obtain ⟨hr, rfl⟩ := get?_eq_some.mp hk
    exact get?_of_mem (h.mem_iff.mpr hr)
  | none => exact get?_eq_none.mpr fun r hr => get?_eq_none.mp hk r (h.mem_iff.mp hr)

/-- Append a row whose key is not in use yet. -/
def insert (t : Table α key) (r : α) : Option (Table α key) :=
  if h : key r ∈ t.rows.map key then none
  else some ⟨t.rows ++ [r], by
    rw [List.map_append, List.nodup_append]
    refine ⟨t.nodup, by simp, ?_⟩
    intro a ha b hb hab
    rw [List.map_cons, List.map_nil, List.mem_singleton] at hb
    exact h (hb ▸ hab ▸ ha)⟩

theorem insert_eq_some {t t' : Table α key} {r : α} :
    t.insert r = some t' ↔ (∀ s ∈ t, key s ≠ key r) ∧ t'.rows = t.rows ++ [r] := by
  unfold insert
  split
  · rename_i h
    simp only [reduceCtorEq, false_iff, not_and]
    intro hfresh
    obtain ⟨s, hs, hk⟩ := List.mem_map.mp h
    exact absurd hk (hfresh s hs)
  · rename_i h
    rw [Option.some.injEq]
    constructor
    · rintro rfl
      exact ⟨fun s hs hk => h (List.mem_map.mpr ⟨s, hs, hk⟩), rfl⟩
    · rintro ⟨-, hrows⟩
      exact ext hrows.symm

theorem insert_eq_none {t : Table α key} {r : α} :
    t.insert r = none ↔ ∃ s ∈ t, key s = key r := by
  unfold insert
  split
  · rename_i h
    simpa using List.mem_map.mp h
  · rename_i h
    simp only [reduceCtorEq, false_iff, not_exists, not_and]
    exact fun s hs hk => h (List.mem_map.mpr ⟨s, hs, hk⟩)

theorem get?_insert {t t' : Table α key} {r : α} (h : t.insert r = some t') (k : κ) :
    t'.get? k = if key r = k then some r else t.get? k := by
  obtain ⟨hfresh, hrows⟩ := insert_eq_some.mp h
  unfold get?
  rw [hrows, List.find?_append]
  by_cases hk : key r = k
  · have hnone : t.rows.find? (fun s => decide (key s = k)) = none := by
      rw [List.find?_eq_none]
      intro s hs
      simpa [hk] using hfresh s hs
    simp [hnone, hk]
  · simp [hk]

/-- A lookup that succeeds keeps its answer after an insert. -/
theorem get?_insert_of_some {t t' : Table α key} {r s : α} {k : κ}
    (h : t.insert r = some t') (hs : t.get? k = some s) : t'.get? k = some s := by
  rw [get?_insert h, if_neg, hs]
  obtain ⟨hmem, hk⟩ := get?_eq_some.mp hs
  exact fun hr => (insert_eq_some.mp h).1 s hmem (hk.trans hr.symm)

end Lookup

/-- Rewrite the rows that satisfy `p` by a function that keeps the key. -/
def update (t : Table α key) (p : α → Bool) (f : α → α)
    (hf : ∀ r, key (f r) = key r) : Table α key :=
  ⟨t.rows.map fun r => if p r then f r else r, by
    have hmap : (t.rows.map fun r => if p r then f r else r).map key = t.rows.map key := by
      rw [List.map_map]
      refine List.map_congr_left fun r _ => ?_
      by_cases hp : p r <;> simp [hp, hf]
    rw [hmap]
    exact t.nodup⟩

@[simp] theorem rows_update (t : Table α key) (p : α → Bool) (f : α → α)
    (hf : ∀ r, key (f r) = key r) :
    (t.update p f hf).rows = t.rows.map fun r => if p r then f r else r := rfl

theorem mem_update {t : Table α key} {p : α → Bool} {f : α → α}
    {hf : ∀ r, key (f r) = key r} {r : α} :
    r ∈ t.update p f hf ↔ ∃ s ∈ t, (if p s then f s else s) = r := by
  rw [← mem_rows, rows_update, List.mem_map]
  rfl

theorem get?_update [DecidableEq κ] (t : Table α key) (p : α → Bool) (f : α → α)
    (hf : ∀ r, key (f r) = key r) (k : κ) :
    (t.update p f hf).get? k = (t.get? k).map fun r => if p r then f r else r := by
  unfold get?
  rw [rows_update, List.find?_map]
  congr 2
  funext r
  by_cases hp : p r <;> simp [hp, hf]

/-- The rows that satisfy `p`. -/
def restrict (t : Table α key) (p : α → Bool) : Table α key :=
  ⟨t.rows.filter p, t.nodup.sublist (List.filter_sublist.map key)⟩

@[simp] theorem rows_restrict (t : Table α key) (p : α → Bool) :
    (t.restrict p).rows = t.rows.filter p := rfl

@[simp] theorem mem_restrict {t : Table α key} {p : α → Bool} {r : α} :
    r ∈ t.restrict p ↔ r ∈ t ∧ p r = true := by
  rw [← mem_rows, rows_restrict, List.mem_filter]
  rfl

theorem get?_restrict [DecidableEq κ] (t : Table α key) (p : α → Bool) (k : κ) :
    (t.restrict p).get? k = (t.get? k).filter p := by
  cases h : t.get? k with
  | none =>
    rw [Option.filter_none, get?_eq_none]
    intro r hr
    exact get?_eq_none.mp h r (mem_restrict.mp hr).1
  | some r =>
    obtain ⟨hr, hk⟩ := get?_eq_some.mp h
    by_cases hp : p r
    · rw [Option.filter_some_pos hp, get?_eq_some]
      exact ⟨mem_restrict.mpr ⟨hr, hp⟩, hk⟩
    · rw [Option.filter_some_neg (Bool.eq_false_iff.mpr hp), get?_eq_none]
      intro s hs hks
      obtain ⟨hst, hps⟩ := mem_restrict.mp hs
      exact hp (eq_of_key_eq hst hr (hks.trans hk.symm) ▸ hps)

end Table

end Lib
