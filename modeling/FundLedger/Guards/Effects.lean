import FundLedger.Guards.Statements

/-!
# What any statement does

`Statement.run_lawful` is the one lemma about `Statement.run` that the rest
needs: whatever the statement, what it changes it has locked, a period that it
touches is not closed unless it is deleted, and what could dangle is left to a
check.
-/

namespace FundLedger.Guards

open Lib

/-! ## Keys and closed periods -/

/-- The rows that are changed, by key. -/
def Changes.rows (c : Changes) : List RowId :=
  c.periods.map (fun e => .period e.1) ++ c.accounts.map fun e => .account e.1

/-- There is a closed period with this id. -/
def Tables.Closed (T : Tables) (id : Uuid) : Prop :=
  ∃ p, T.periods id = some p ∧ p.status = .CLOSED

section

variable {T : Tables} {c d : Changes}

@[simp] theorem Tables.apply_none (T : Tables) : T.apply {} = T := by
  cases T
  simp [Tables.apply]

theorem Tables.apply_append (T : Tables) (c d : Changes) :
    T.apply (c.append d) = (T.apply c).apply d := by
  simp [Tables.apply, Changes.append, overlay_append]

theorem Changes.mem_rows_period {id : Uuid} :
    .period id ∈ c.rows ↔ id ∈ c.periods.map Prod.fst := by
  simp [Changes.rows]

theorem Changes.mem_rows_account {id : Uuid} :
    .account id ∈ c.rows ↔ id ∈ c.accounts.map Prod.fst := by
  simp [Changes.rows]

theorem Changes.rows_append {x : RowId} :
    x ∈ (c.append d).rows ↔ x ∈ c.rows ∨ x ∈ d.rows := by
  simp only [Changes.rows, Changes.append, List.map_append, List.mem_append]
  tauto

theorem Changes.mem_deleted {id : Uuid} : id ∈ c.deleted ↔ (id, none) ∈ c.periods := by
  simp [Changes.deleted]

theorem Changes.deleted_append (c d : Changes) :
    (c.append d).deleted = c.deleted ++ d.deleted :=
  List.filterMap_append

theorem Ref.usedBy_append (r : Ref) (ts ts' : List Transfer) (es es' : List Entry) :
    r.UsedBy (ts ++ ts') (es ++ es') ↔ r.UsedBy ts es ∨ r.UsedBy ts' es' := by
  cases r with
  | period id => simp [Ref.UsedBy, or_and_right, exists_or]
  | account id currency => simp [Ref.UsedBy, or_and_right, exists_or]

theorem imbalanceOf_append (es es' : List Entry) (t : Uuid) :
    imbalanceOf (es ++ es') t = imbalanceOf es t + imbalanceOf es' t := by
  rw [imbalanceOf, group_append, sumBy_append]
  rfl

/-- A row that is not changed has the key that it had. -/
theorem Tables.has_apply {r : Ref} (h : r.row ∉ c.rows) : (T.apply c).Has r ↔ T.Has r := by
  cases r with
  | period id =>
    rw [Ref.row, Changes.mem_rows_period] at h
    show (overlay T.periods c.periods id).isSome ↔ _
    rw [overlay_of_not_mem h]
    rfl
  | account id currency =>
    rw [Ref.row, Changes.mem_rows_account] at h
    show (overlay T.accounts c.accounts id).map Account.currency = _ ↔ _
    rw [overlay_of_not_mem h]
    rfl

/-- The same changes over tables that agree on the row. -/
theorem Tables.has_congr {T' : Tables} {r : Ref}
    (hperiods : ∀ id, r.row = .period id → T.periods id = T'.periods id)
    (haccounts : ∀ id, r.row = .account id → T.accounts id = T'.accounts id) :
    (T.apply c).Has r ↔ (T'.apply c).Has r := by
  cases r with
  | period id =>
    show (overlay T.periods c.periods id).isSome ↔ (overlay T'.periods c.periods id).isSome
    rw [overlay_congr (hperiods id rfl)]
  | account id currency =>
    show (overlay T.accounts c.accounts id).map _ = _ ↔ (overlay T'.accounts c.accounts id).map _ = _
    rw [overlay_congr (haccounts id rfl)]

end

/-! ## Changes under locks -/

/-- A period that is touched is locked, and it is not closed unless it is
deleted. -/
structure Touches (T : Tables) (locks : List (RowId × RowLock)) (deleted : List Uuid)
    (id : Uuid) : Prop where
  locked : ∃ m, m ≠ .keyShare ∧ (.period id, m) ∈ locks
  closed : T.Closed id → id ∈ deleted

/-- The changes are covered by the locks. -/
structure Covered (T : Tables) (c : Changes) (locks : List (RowId × RowLock)) : Prop where
  unique : (T.transfers.map Transfer.id).Nodup → ((T.apply c).transfers.map Transfer.id).Nodup
  transfers : ∀ t ∈ c.transfers, (.transfer t.id, .update) ∈ locks
  entries : ∀ e ∈ c.entries, ∃ t ∈ (T.apply c).transfers, t.id = e.transfer ∧
    Touches T locks c.deleted t.period
  periods : ∀ id ∈ c.periods.map Prod.fst, Touches T locks c.deleted id
  rows : ∀ r : Ref, r.row ∈ c.rows → (r.row, .update) ∈ locks ∨
    (r.row, .noKeyUpdate) ∈ locks ∧ ((T.apply c).Has r ↔ T.Has r)

section

variable {T : Tables} {c d : Changes} {ls ls' : List (RowId × RowLock)}

theorem covered_none (T : Tables) : Covered T {} [] where
  unique h := by simpa using h
  transfers t ht := by cases ht
  entries e he := by cases he
  periods id hid := by cases hid
  rows r hr := by cases hr

theorem Touches.mono {ds ds' : List Uuid} {id : Uuid} (h : Touches T ls ds id) (hls : ls ⊆ ls')
    (hds : ds ⊆ ds') : Touches T ls' ds' id := by
  obtain ⟨m, hm, hmem⟩ := h.locked
  exact ⟨⟨m, hm, hls hmem⟩, fun hclosed => hds (h.closed hclosed)⟩

/-- A period that is not closed after the first changes. -/
theorem Covered.touches (h : Covered T c ls) {id : Uuid}
    (ht : Touches (T.apply c) ls' d.deleted id) :
    Touches T (ls ++ ls') (c.append d).deleted id := by
  obtain ⟨m, hm, hmem⟩ := ht.locked
  refine ⟨⟨m, hm, List.mem_append_right _ hmem⟩, fun hclosed => ?_⟩
  rw [Changes.deleted_append]
  by_cases hid : id ∈ c.periods.map Prod.fst
  · exact List.mem_append_left _ ((h.periods id hid).closed hclosed)
  · apply List.mem_append_right
    apply ht.closed
    obtain ⟨p, hp, hstatus⟩ := hclosed
    refine ⟨p, ?_, hstatus⟩
    rw [← hp]
    exact overlay_of_not_mem hid

/-- One after the other. -/
theorem Covered.append (h : Covered T c ls) (h' : Covered (T.apply c) d ls') :
    Covered T (c.append d) (ls ++ ls') := by
  have hdeleted : c.deleted ⊆ (c.append d).deleted := by
    rw [Changes.deleted_append]
    exact List.subset_append_left _ _
  have hls : ls ⊆ ls ++ ls' := List.subset_append_left _ _
  constructor
  · intro hnodup
    rw [Tables.apply_append]
    exact h'.unique (h.unique hnodup)
  · intro t ht
    rcases List.mem_append.mp ht with hold | hnew
    · exact List.mem_append_left _ (h.transfers t hold)
    · exact List.mem_append_right _ (h'.transfers t hnew)
  · intro e he
    rw [Tables.apply_append]
    rcases List.mem_append.mp he with hold | hnew
    · obtain ⟨t, ht, hid, htouch⟩ := h.entries e hold
      exact ⟨t, List.mem_append_left _ ht, hid, htouch.mono hls hdeleted⟩
    · obtain ⟨t, ht, hid, htouch⟩ := h'.entries e hnew
      exact ⟨t, ht, hid, h.touches htouch⟩
  · intro id hid
    simp only [Changes.append, List.map_append, List.mem_append] at hid
    rcases hid with hold | hnew
    · exact (h.periods id hold).mono hls hdeleted
    · exact h.touches (h'.periods id hnew)
  · intro r hr
    rw [Tables.apply_append]
    by_cases hold : r.row ∈ c.rows
    · rcases h.rows r hold with hupdate | hkey
      · exact .inl (List.mem_append_left _ hupdate)
      · by_cases hnew : r.row ∈ d.rows
        · rcases h'.rows r hnew with hupdate | hkey'
          · exact .inl (List.mem_append_right _ hupdate)
          · exact .inr ⟨List.mem_append_left _ hkey.1, hkey'.2.trans hkey.2⟩
        · exact .inr ⟨List.mem_append_left _ hkey.1, (Tables.has_apply hnew).trans hkey.2⟩
    · have hnew : r.row ∈ d.rows := (Changes.rows_append.mp hr).resolve_left hold
      rcases h'.rows r hnew with hupdate | hkey
      · exact .inl (List.mem_append_right _ hupdate)
      · exact .inr ⟨List.mem_append_right _ hkey.1, hkey.2.trans (Tables.has_apply hold)⟩

end

/-! ## Effects -/

/-- What is known of an effect on the tables. -/
structure Effect.Lawful (T : Tables) (eff : Effect) : Prop where
  covered : Covered T eff.changes eff.locks
  balance : ∀ e ∈ eff.changes.entries, .balance e.transfer ∈ eff.checks
  present : ∀ r : Ref, r.UsedBy eff.changes.transfers eff.changes.entries →
    .present r ∈ eff.checks
  refs : ∀ r, T.Has r → (T.apply eff.changes).Has r ∨ .unused r ∈ eff.checks

section

variable {T : Tables}

theorem not_usedBy_nil {r : Ref} : ¬r.UsedBy [] [] := by
  cases r <;> simp [Ref.UsedBy]

/-- Nothing is done. -/
theorem lawful_none (T : Tables) : Effect.Lawful T {} where
  covered := covered_none T
  balance e he := by cases he
  present r hr := absurd hr not_usedBy_nil
  refs r hr := .inl (by simpa using hr)

/-- One after the other. -/
theorem Effect.Lawful.append {eff eff' : Effect} (h : eff.Lawful T)
    (h' : eff'.Lawful (T.apply eff.changes)) :
    Effect.Lawful T ⟨eff.changes.append eff'.changes, eff.locks ++ eff'.locks,
      eff.checks ++ eff'.checks⟩ where
  covered := h.covered.append h'.covered
  balance e he := by
    rcases List.mem_append.mp he with hold | hnew
    · exact List.mem_append_left _ (h.balance e hold)
    · exact List.mem_append_right _ (h'.balance e hnew)
  present r hr := by
    rcases (Ref.usedBy_append r _ _ _ _).mp hr with hold | hnew
    · exact List.mem_append_left _ (h.present r hold)
    · exact List.mem_append_right _ (h'.present r hnew)
  refs r hr := by
    rw [Tables.apply_append]
    rcases h.refs r hr with hhas | hcheck
    · rcases h'.refs r hhas with hhas' | hcheck
      · exact .inl hhas'
      · exact .inr (List.mem_append_right _ hcheck)
    · exact .inr (List.mem_append_left _ hcheck)

theorem not_closed_of_none {id : Uuid} (h : T.periods id = none) : ¬T.Closed id := by
  intro hclosed
  obtain ⟨p, hp, -⟩ := hclosed
  simp [h] at hp

/-- A period gets a new row, or loses the one it has. -/
theorem lawful_period {id : Uuid} {row : Option Period} {m : RowLock} {checks : List Check}
    (hlock : m = .update ∨ m = .noKeyUpdate ∧ (row.isSome ↔ (T.periods id).isSome))
    (hclosed : T.Closed id → row = none)
    (hcheck : row = none → .unused (.period id) ∈ checks) :
    Effect.Lawful T ⟨{ periods := [(id, row)] }, [(.period id, m)], checks⟩ := by
  have hhas : (T.apply { periods := [(id, row)] }).Has (.period id) ↔ row.isSome := by
    show (Function.update T.periods id row id).isSome ↔ _
    rw [Function.update_self]
  constructor
  · constructor
    · intro hnodup
      simpa [Tables.apply] using hnodup
    · intro t ht
      cases ht
    · intro e he
      cases he
    · intro i hi
      obtain rfl : i = id := by simpa using hi
      refine ⟨⟨m, ?_, List.mem_singleton_self _⟩, fun h => ?_⟩
      · rcases hlock with rfl | hlock
        · simp
        · simp [hlock.1]
      · rw [Changes.mem_deleted, hclosed h]
        exact List.mem_singleton_self _
    · intro r hr
      cases r with
      | account i currency => simp [Changes.rows, Ref.row] at hr
      | period i =>
        obtain rfl : i = id := by simpa [Changes.rows, Ref.row] using hr
        rcases hlock with rfl | hlock
        · exact .inl (List.mem_singleton_self _)
        · exact .inr ⟨by simp [Ref.row, hlock.1], hhas.trans hlock.2⟩
  · intro e he
    cases he
  · intro r hr
    exact absurd hr not_usedBy_nil
  · intro r hr
    by_cases hrow : r = .period id
    · subst hrow
      cases row with
      | none => exact .inr (hcheck rfl)
      | some p => exact .inl (hhas.mpr rfl)
    · refine .inl ((Tables.has_apply ?_).mpr hr)
      cases r with
      | account i currency => simp [Changes.rows, Ref.row]
      | period i => simpa [Changes.rows, Ref.row] using hrow

/-- An account gets a new row, or loses the one it has. -/
theorem lawful_account {id : Uuid} {row : Option Account} {m : RowLock} {checks : List Check}
    (hlock : m = .update ∨
      m = .noKeyUpdate ∧ row.map Account.currency = (T.accounts id).map Account.currency)
    (hcheck : ∀ old ∈ T.accounts id, .unused (.account id old.currency) ∈ checks) :
    Effect.Lawful T ⟨{ accounts := [(id, row)] }, [(.account id, m)], checks⟩ := by
  have hhas : ∀ currency, (T.apply { accounts := [(id, row)] }).Has (.account id currency) ↔
      row.map Account.currency = some currency := by
    intro currency
    show (Function.update T.accounts id row id).map Account.currency = _ ↔ _
    rw [Function.update_self]
  constructor
  · constructor
    · intro hnodup
      simpa [Tables.apply] using hnodup
    · intro t ht
      cases ht
    · intro e he
      cases he
    · intro i hi
      cases hi
    · intro r hr
      cases r with
      | period i => simp [Changes.rows, Ref.row] at hr
      | account i currency =>
        obtain rfl : i = id := by simpa [Changes.rows, Ref.row] using hr
        rcases hlock with rfl | hlock
        · exact .inl (List.mem_singleton_self _)
        · refine .inr ⟨by simp [Ref.row, hlock.1], (hhas currency).trans ?_⟩
          rw [hlock.2]
          rfl
  · intro e he
    cases he
  · intro r hr
    exact absurd hr not_usedBy_nil
  · intro r hr
    by_cases hrow : r.row = .account id
    · cases r with
      | period i => simp [Ref.row] at hrow
      | account i currency =>
        obtain rfl : i = id := by simpa [Ref.row] using hrow
        obtain ⟨old, hold, rfl⟩ := Option.map_eq_some_iff.mp hr
        exact .inr (hcheck old hold)
    · refine .inl ((Tables.has_apply ?_).mpr hr)
      simpa [Changes.rows] using hrow

/-! ## Statements -/

theorem assertPeriodOpen_ok {transfer period : Uuid}
    (h : assertPeriodOpen T transfer = .ok period) :
    ∃ t ∈ T.transfers, t.id = transfer ∧ t.period = period ∧ ¬T.Closed period := by
  simp only [assertPeriodOpen, except_bind_ok, orRaise_eq_ok, require_eq_ok, except_pure] at h
  obtain ⟨t, ht, p, hp, -, hopen, rfl⟩ := h
  have hid := List.find?_some ht
  refine ⟨t, List.mem_of_find?_eq_some ht, by simpa using hid, rfl, fun hclosed => ?_⟩
  obtain ⟨q, hq, hstatus⟩ := hclosed
  rw [hp] at hq
  cases hq
  rw [hopen] at hstatus
  cases hstatus

/-- **Whatever the statement is**, if the server lets it pass. -/
theorem Statement.run_lawful {grants : Grants} {stmt : Statement} {eff : Effect}
    (h : stmt.run grants T = .ok eff) : eff.Lawful T := by
  cases stmt with
  | insertPeriod p =>
    simp only [Statement.run, except_bind_ok, require_eq_ok, except_pure] at h
    obtain ⟨-, -, -, -, -, hnone, rfl⟩ := h
    exact lawful_period (.inl rfl) (fun hclosed => absurd hclosed (not_closed_of_none hnone))
      (fun hrow => by cases hrow)
  | updatePeriod id row =>
    simp only [Statement.run, except_bind_ok] at h
    obtain ⟨-, -, h⟩ := h
    cases hold : T.periods id with
    | none =>
      rw [hold] at h
      cases h
      exact lawful_none T
    | some old =>
      rw [hold] at h
      simp only [except_bind_ok, forbidPeriodReopen, require_eq_ok] at h
      obtain ⟨-, hopen, -, -, h⟩ := h
      have hclosed : ¬T.Closed id := by
        intro hclosed
        obtain ⟨p, hp, hstatus⟩ := hclosed
        rw [hold] at hp
        cases hp
        exact hopen hstatus
      by_cases hid : row.id = id
      · rw [if_pos hid, except_pure] at h
        cases h
        exact lawful_period (.inr ⟨rfl, by simp [hold]⟩) (fun h => absurd h hclosed)
          (fun hrow => by cases hrow)
      · rw [if_neg hid] at h
        simp only [except_bind_ok, require_eq_ok, except_pure] at h
        obtain ⟨-, hnone, rfl⟩ := h
        have hdelete : Effect.Lawful T ⟨{ periods := [(id, none)] }, [(.period id, .update)],
            [.unused (.period id)]⟩ :=
          lawful_period (.inl rfl) (fun _ => rfl) (fun _ => List.mem_singleton_self _)
        have hnone' : (T.apply { periods := [(id, none)] }).periods row.id = none := by
          show Function.update T.periods id none row.id = none
          rw [Function.update_of_ne hid, hnone]
        exact hdelete.append (lawful_period (.inl rfl)
          (fun hclosed => absurd hclosed (not_closed_of_none hnone')) (fun hrow => by cases hrow))
  | deletePeriod id =>
    simp only [Statement.run, except_bind_ok] at h
    obtain ⟨-, -, h⟩ := h
    cases hold : T.periods id with
    | none =>
      rw [hold] at h
      cases h
      exact lawful_none T
    | some old =>
      rw [hold] at h
      cases h
      exact lawful_period (.inl rfl) (fun _ => rfl) (fun _ => List.mem_singleton_self _)
  | insertAccount a =>
    simp only [Statement.run, except_bind_ok, require_eq_ok, except_pure] at h
    obtain ⟨-, -, -, -, -, hnone, rfl⟩ := h
    exact lawful_account (.inl rfl) (fun old hold => by simp [hnone] at hold)
  | updateAccount id row =>
    simp only [Statement.run, except_bind_ok] at h
    obtain ⟨-, -, h⟩ := h
    cases hold : T.accounts id with
    | none =>
      rw [hold] at h
      cases h
      exact lawful_none T
    | some old =>
      rw [hold] at h
      simp only [except_bind_ok] at h
      obtain ⟨-, -, h⟩ := h
      have hcheck : ∀ a ∈ T.accounts id,
          Check.unused (.account id a.currency) ∈ [Check.unused (.account id old.currency)] := by
        intro a ha
        rw [hold] at ha
        cases ha
        exact List.mem_singleton_self _
      by_cases hid : row.id = id
      · rw [if_pos hid, except_pure] at h
        cases h
        refine lawful_account ?_ hcheck
        unfold keyLock
        by_cases hcurrency : old.currency = row.currency
        · exact .inr ⟨if_pos hcurrency, by simp [hold, hcurrency]⟩
        · exact .inl (if_neg hcurrency)
      · rw [if_neg hid] at h
        simp only [except_bind_ok, require_eq_ok, except_pure] at h
        obtain ⟨-, hnone, rfl⟩ := h
        have hdelete : Effect.Lawful T ⟨{ accounts := [(id, none)] }, [(.account id, .update)],
            [.unused (.account id old.currency)]⟩ :=
          lawful_account (.inl rfl) hcheck
        have hnone' : (T.apply { accounts := [(id, none)] }).accounts row.id = none := by
          show Function.update T.accounts id none row.id = none
          rw [Function.update_of_ne hid, hnone]
        exact hdelete.append (lawful_account (.inl rfl) (fun a ha => by simp [hnone'] at ha))
  | deleteAccount id =>
    simp only [Statement.run, except_bind_ok] at h
    obtain ⟨-, -, h⟩ := h
    cases hold : T.accounts id with
    | none =>
      rw [hold] at h
      cases h
      exact lawful_none T
    | some old =>
      rw [hold] at h
      cases h
      refine lawful_account (.inl rfl) fun a ha => ?_
      rw [hold] at ha
      cases ha
      exact List.mem_singleton_self _
  | insertTransfer t =>
    simp only [Statement.run, except_bind_ok, require_eq_ok, except_pure] at h
    obtain ⟨-, -, -, -, -, hfresh, rfl⟩ := h
    constructor
    · constructor
      · intro hnodup
        show ((T.transfers ++ [t]).map Transfer.id).Nodup
        rw [List.map_append, List.nodup_append]
        refine ⟨hnodup, by simp, fun a ha b hb => ?_⟩
        obtain ⟨u, hu, rfl⟩ := List.mem_map.mp ha
        obtain rfl : b = t.id := by simpa using hb
        exact hfresh u hu
      · intro u hu
        rw [List.mem_singleton.mp hu]
        exact List.mem_singleton_self _
      · intro e he
        cases he
      · intro id hid
        cases hid
      · intro r hr
        cases hr
    · intro e he
      cases he
    · intro r hr
      cases r with
      | period id =>
        obtain ⟨u, hu, rfl⟩ := hr
        rw [List.mem_singleton.mp hu]
        exact List.mem_singleton_self _
      | account id currency =>
        obtain ⟨e, he, -⟩ := hr
        cases he
    · intro r hr
      exact .inl ((Tables.has_apply (by simp [Changes.rows])).mpr hr)
  | insertEntry e =>
    simp only [Statement.run, except_bind_ok, except_pure] at h
    obtain ⟨-, -, period, hopen, -, -, rfl⟩ := h
    obtain ⟨t, ht, hid, rfl, hclosed⟩ := assertPeriodOpen_ok hopen
    constructor
    · constructor
      · intro hnodup
        simpa [Tables.apply] using hnodup
      · intro u hu
        cases hu
      · intro f hf
        rw [List.mem_singleton.mp hf]
        exact ⟨t, List.mem_append_left _ ht, hid,
          ⟨.share, by simp, List.mem_singleton_self _⟩, fun h => absurd h hclosed⟩
      · intro id hid
        cases hid
      · intro r hr
        cases hr
    · intro f hf
      rw [List.mem_singleton.mp hf]
      exact List.mem_cons_self
    · intro r hr
      cases r with
      | period id =>
        obtain ⟨u, hu, -⟩ := hr
        cases hu
      | account id currency =>
        obtain ⟨f, hf, rfl, rfl⟩ := hr
        rw [List.mem_singleton.mp hf]
        simp
    · intro r hr
      exact .inl ((Tables.has_apply (by simp [Changes.rows])).mpr hr)
  | updateTransfer | deleteTransfer | updateEntry | deleteEntry =>
    simp only [Statement.run, except_bind_ok, except_pure] at h
    obtain ⟨-, -, -, -, rfl⟩ := h
    exact lawful_none T

end

end FundLedger.Guards
