import FundLedger.Lib.Table

/-!
# Dictionaries

A dictionary lists its items in insertion order, with distinct keys.  It is a
`Table` of pairs, so that lookups and their lemmas are those of tables.
Setting a key that is in use overwrites its value and keeps its place.
-/

namespace Lib

variable {κ α β : Type}

/-- Items in insertion order, with distinct keys. -/
abbrev Dict (κ α : Type) : Type := Table (κ × α) Prod.fst

namespace Dict

def keys (d : Dict κ α) : List κ := d.rows.map Prod.fst

def values (d : Dict κ α) : List α := d.rows.map Prod.snd

theorem nodup_keys (d : Dict κ α) : d.keys.Nodup := d.nodup

/-- Replace every value by one computed from its item. -/
def mapItems (f : κ → α → β) (d : Dict κ α) : Dict κ β :=
  ⟨d.rows.map fun i => (i.1, f i.1 i.2), by
    have hkeys : (d.rows.map fun i => (i.1, f i.1 i.2)).map Prod.fst = d.rows.map Prod.fst := by
      simp
    rw [hkeys]
    exact d.nodup⟩

@[simp] theorem rows_mapItems (f : κ → α → β) (d : Dict κ α) :
    (mapItems f d).rows = d.rows.map fun i => (i.1, f i.1 i.2) := rfl

@[simp] theorem keys_mapItems (f : κ → α → β) (d : Dict κ α) : keys (mapItems f d) = keys d := by
  simp [keys]

variable [DecidableEq κ]

/-- `d[k] = a`. -/
def set (d : Dict κ α) (k : κ) (a : α) : Dict κ α :=
  match d.insert (k, a) with
  | some d' => d'
  | none => d.update (fun i => i.1 = k) (fun i => (i.1, a)) fun _ => rfl

/-- `{k: a for k, a in items}`. -/
def ofList (items : List (κ × α)) : Dict κ α :=
  items.foldl (fun d i => d.set i.1 i.2) Table.empty

theorem get?_mapItems (f : κ → α → β) (d : Dict κ α) (k : κ) :
    (mapItems f d).get? k = (d.get? k).map fun i => (i.1, f i.1 i.2) := by
  unfold Table.get?
  rw [rows_mapItems, List.find?_map]
  rfl

private theorem rows_foldl_set (items : List (κ × α)) :
    ∀ d : Dict κ α, (d.keys ++ items.map Prod.fst).Nodup →
      (items.foldl (fun d i => set d i.1 i.2) d).rows = d.rows ++ items := by
  induction items with
  | nil => intro d _; simp
  | cons i items ih =>
    intro d hnd
    have hfresh : ∀ j ∈ d, j.1 ≠ i.1 := by
      intro j hj hji
      rw [List.nodup_append] at hnd
      exact hnd.2.2 _ (List.mem_map.mpr ⟨j, hj, rfl⟩) _ List.mem_cons_self hji
    obtain ⟨d', hd'⟩ : ∃ d', d.insert (i.1, i.2) = some d' := by
      cases h : d.insert (i.1, i.2) with
      | some d' => exact ⟨d', rfl⟩
      | none =>
        obtain ⟨j, hj, hji⟩ := Table.insert_eq_none.mp h
        exact absurd hji (hfresh j hj)
    have hrows := (Table.insert_eq_some.mp hd').2
    have hset : set d i.1 i.2 = d' := by simp only [set, hd']
    rw [List.foldl_cons, hset, ih d', hrows]
    · simp
    · simpa [keys, hrows] using hnd

theorem mem_set {d : Dict κ α} {k : κ} {a : α} {i : κ × α} (h : i ∈ d.set k a) :
    i ∈ d ∨ i = (k, a) := by
  unfold set at h
  split at h
  · rename_i d' hins
    rw [← Table.mem_rows, (Table.insert_eq_some.mp hins).2, List.mem_append,
      List.mem_singleton] at h
    exact h
  · obtain ⟨j, hj, hij⟩ := Table.mem_update.mp h
    simp only [decide_eq_true_eq] at hij
    split at hij
    · rename_i hjk
      exact .inr (by rw [← hij, hjk])
    · exact .inl (hij ▸ hj)

/-- A comprehension has no items of its own. -/
theorem mem_ofList {items : List (κ × α)} {i : κ × α} (h : i ∈ ofList items) : i ∈ items := by
  have hfold : ∀ (items : List (κ × α)) (d : Dict κ α),
      i ∈ items.foldl (fun d i => d.set i.1 i.2) d → i ∈ d ∨ i ∈ items := by
    intro items
    induction items with
    | nil => exact fun d h => .inl h
    | cons j items ih =>
      intro d h
      rcases ih _ h with h | h
      · rcases mem_set h with h | rfl
        · exact .inl h
        · exact .inr List.mem_cons_self
      · exact .inr (List.mem_cons_of_mem j h)
  refine (hfold items Table.empty h).resolve_left fun hempty => ?_
  cases hempty

/-- A comprehension over distinct keys keeps its items as they are. -/
theorem rows_ofList {items : List (κ × α)} (h : (items.map Prod.fst).Nodup) :
    (ofList items).rows = items := by
  rw [ofList, rows_foldl_set items Table.empty (by simpa [keys] using h)]
  simp

theorem get?_ofList {items : List (κ × α)} (h : (items.map Prod.fst).Nodup) {i : κ × α}
    (hi : i ∈ items) : (ofList items).get? i.1 = some i := by
  refine Table.get?_of_mem ?_
  rw [← Table.mem_rows, rows_ofList h]
  exact hi

/-- Every key of the items is a key of the comprehension. -/
theorem exists_mem_ofList {items : List (κ × α)} {k : κ} (hk : k ∈ items.map Prod.fst) :
    ∃ i ∈ ofList items, i.1 = k := by
  have hkeys : ∀ (d : Dict κ α) (j : κ × α), k ∈ d.keys ∨ k = j.1 → k ∈ (d.set j.1 j.2).keys := by
    intro d j h
    unfold set
    split
    · rename_i d' hins
      rw [keys, (Table.insert_eq_some.mp hins).2, List.map_append, List.mem_append]
      exact h.imp_right fun h => by simp [h]
    · rename_i hnone
      obtain ⟨i, hi, hij⟩ := Table.insert_eq_none.mp hnone
      have hsame : keys (d.update (fun i => i.1 = j.1) (fun i => (i.1, j.2)) fun _ => rfl) =
          keys d := by
        rw [keys, Table.rows_update, List.map_map]
        refine List.map_congr_left fun i _ => ?_
        simp only [Function.comp_apply]
        split <;> rfl
      rw [hsame]
      exact h.elim id fun h => List.mem_map.mpr ⟨i, hi, hij.trans h.symm⟩
  have hfold : ∀ (items : List (κ × α)) (d : Dict κ α), k ∈ d.keys ∨ k ∈ items.map Prod.fst →
      k ∈ (items.foldl (fun d i => d.set i.1 i.2) d).keys := by
    intro items
    induction items with
    | nil => exact fun d h => h.elim id fun h => by simp at h
    | cons j items ih =>
      intro d h
      refine ih _ ?_
      rw [List.map_cons, List.mem_cons] at h
      rcases h with h | h | h
      · exact .inl (hkeys d j (.inl h))
      · exact .inl (hkeys d j (.inr h))
      · exact .inr h
  exact List.mem_map.mp (hfold items Table.empty (.inr hk))

/-- `{k: f(k) for k in ks}`, looked up at one of the keys. -/
theorem get?_ofList_map {f : κ → α} {ks : List κ} {k : κ} (hk : k ∈ ks) :
    (ofList (ks.map fun k => (k, f k))).get? k = some (k, f k) := by
  have hkeys : k ∈ (ks.map fun k => (k, f k)).map Prod.fst := by
    rw [List.map_map]
    exact List.mem_map.mpr ⟨k, hk, rfl⟩
  obtain ⟨i, hi, hik⟩ := exists_mem_ofList hkeys
  obtain ⟨j, -, hj⟩ := List.mem_map.mp (mem_ofList hi)
  subst hj
  dsimp only at hik
  subst hik
  exact Table.get?_of_mem hi

end Dict

end Lib
