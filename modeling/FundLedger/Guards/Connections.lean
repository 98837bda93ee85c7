import FundLedger.Guards.Effects

/-!
# Guarded transactions

`Txn.Guarded` is the invariant of one open transaction over the committed
tables: its changes are covered by its locks; of every transfer, either a check
of the balance is pending or its own entries sum to zero; and of every key that
a row refers to, either it is there or a check is pending.

`Txn.Guarded.execute` and `Txn.Guarded.check` are the steps of the transaction
itself, `Txn.Guarded.commit` is what its commit makes of the tables, and
`Txn.Guarded.beside` is what the commit of another transaction leaves of it.
-/

namespace FundLedger.Guards

open Lib Relation

/-- What holds of the committed tables. -/
structure Tables.Intact (T : Tables) : Prop where
  balanced : ∀ t, T.imbalance t = 0
  unique : (T.transfers.map Transfer.id).Nodup
  refs : ∀ r, T.Uses r → T.Has r
  entries : ∀ e ∈ T.entries, ∃ t ∈ T.transfers, t.id = e.transfer

structure Txn.Guarded (T : Tables) (u : Txn) : Prop where
  covered : Covered T u.changes u.locks
  balanced : ∀ t, .balance t ∈ u.pending ∨ imbalanceOf u.changes.entries t = 0
  users : ∀ r : Ref, r.UsedBy u.changes.transfers u.changes.entries →
    .present r ∈ u.pending ∨ (r.row, .keyShare) ∈ u.locks
  refs : ∀ r, (T.apply u.changes).Uses r →
    (T.apply u.changes).Has r ∨ .present r ∈ u.pending ∨ .unused r ∈ u.pending

/-! ## The steps of a transaction -/

section

variable {T : Tables} {u v : Txn} {eff : Effect}

theorem guarded_none (intact : T.Intact) : Txn.Guarded T {} where
  covered := covered_none T
  balanced t := .inr rfl
  users r hr := absurd hr not_usedBy_nil
  refs r hr := by
    rw [Tables.apply_none] at hr ⊢
    exact .inl (intact.refs r hr)

theorem imbalanceOf_eq_zero {es : List Entry} {t : Uuid} (h : ∀ e ∈ es, e.transfer ≠ t) :
    imbalanceOf es t = 0 := by
  rw [imbalanceOf, group_eq_nil h, sumBy_nil]

/-- One more statement. -/
theorem Txn.Guarded.execute (h : u.Guarded T) (lawful : eff.Lawful (T.apply u.changes)) :
    (u.add eff).Guarded T := by
  constructor
  · exact h.covered.append lawful.covered
  · intro t
    by_cases hnew : ∃ e ∈ eff.changes.entries, e.transfer = t
    · obtain ⟨e, he, rfl⟩ := hnew
      exact .inl (List.mem_append_right _ (lawful.balance e he))
    · have hzero : imbalanceOf eff.changes.entries t = 0 :=
        imbalanceOf_eq_zero fun e he heq => hnew ⟨e, he, heq⟩
      rcases h.balanced t with hpending | hown
      · exact .inl (List.mem_append_left _ hpending)
      · right
        show imbalanceOf (u.changes.entries ++ eff.changes.entries) t = 0
        rw [imbalanceOf_append, hown, hzero, add_zero]
  · intro r hr
    rcases (Ref.usedBy_append r _ _ _ _).mp hr with hold | hnew
    · rcases h.users r hold with hpending | hlock
      · exact .inl (List.mem_append_left _ hpending)
      · exact .inr (List.mem_append_left _ hlock)
    · exact .inl (List.mem_append_right _ (lawful.present r hnew))
  · intro r hr
    show (T.apply (u.changes.append eff.changes)).Has r ∨ _
    have huses : ((T.apply u.changes).apply eff.changes).Uses r := by
      rw [← Tables.apply_append]
      exact hr
    rw [Tables.apply_append]
    rcases (Ref.usedBy_append r _ _ _ _).mp huses with hold | hnew
    · rcases h.refs r hold with hhas | hpresent | hunused
      · rcases lawful.refs r hhas with hhas' | hunused
        · exact .inl hhas'
        · exact .inr (.inr (List.mem_append_right _ hunused))
      · exact .inr (.inl (List.mem_append_left _ hpresent))
      · exact .inr (.inr (List.mem_append_left _ hunused))
    · exact .inr (.inl (List.mem_append_right _ (lawful.present r hnew)))

/-- What is pending, but for one check. -/
theorem mem_pending {pending done todo : List Check} {c d : Check}
    (next : pending = done ++ c :: todo) (h : d ∈ pending) : d = c ∨ d ∈ done ++ todo := by
  subst next
  simp only [List.mem_append, List.mem_cons] at h ⊢
  tauto

theorem Covered.of_subset {c : Changes} {ls ls' : List (RowId × RowLock)} (h : Covered T c ls)
    (hls : ls ⊆ ls') : Covered T c ls' where
  unique := h.unique
  transfers t ht := hls (h.transfers t ht)
  entries e he := by
    obtain ⟨t, ht, hid, htouch⟩ := h.entries e he
    exact ⟨t, ht, hid, htouch.mono hls (List.Subset.refl _)⟩
  periods id hid := (h.periods id hid).mono hls (List.Subset.refl _)
  rows r hr := by
    rcases h.rows r hr with hupdate | hkey
    · exact .inl (hls hupdate)
    · exact .inr ⟨hls hkey.1, hkey.2⟩

/-- One of the checks is passed. -/
theorem Txn.Guarded.check (intact : T.Intact) (h : u.Guarded T) {done todo : List Check} {c : Check}
    (next : u.pending = done ++ c :: todo) (passed : c.run (T.apply u.changes) = .ok ()) :
    Txn.Guarded T { u with locks := u.locks ++ c.locks, pending := done ++ todo } := by
  constructor
  · exact h.covered.of_subset (List.subset_append_left _ _)
  · intro t
    rcases h.balanced t with hpending | hown
    · rcases mem_pending next hpending with rfl | hrest
      · right
        -- the committed entries sum to zero, so the rest of the sum is the transaction's own
        simp only [Check.run, require_eq_ok] at passed
        have hsum : imbalanceOf (T.entries ++ u.changes.entries) t = 0 := passed
        have hcommitted : imbalanceOf T.entries t = 0 := intact.balanced t
        rw [imbalanceOf_append, hcommitted, zero_add] at hsum
        exact hsum
      · exact .inl hrest
    · exact .inr hown
  · intro r hr
    rcases h.users r hr with hpending | hlock
    · rcases mem_pending next hpending with rfl | hrest
      · exact .inr (List.mem_append_right _ (List.mem_singleton_self _))
      · exact .inl hrest
    · exact .inr (List.mem_append_left _ hlock)
  · intro r hr
    rcases h.refs r hr with hhas | hpresent | hunused
    · exact .inl hhas
    · rcases mem_pending next hpresent with rfl | hrest
      · simp only [Check.run, require_eq_ok] at passed
        exact .inl passed
      · exact .inr (.inl hrest)
    · rcases mem_pending next hunused with rfl | hrest
      · simp only [Check.run, require_eq_ok] at passed
        exact .inl (passed.resolve_right (not_not_intro hr))
      · exact .inr (.inr hrest)

/-- **The commit**, when no check is pending. -/
theorem Txn.Guarded.commit (intact : T.Intact) (h : u.Guarded T) (checked : u.pending = []) :
    (T.apply u.changes).Intact := by
  constructor
  · intro t
    show imbalanceOf (T.entries ++ u.changes.entries) t = 0
    have hcommitted : imbalanceOf T.entries t = 0 := intact.balanced t
    have hown := h.balanced t
    rw [checked] at hown
    rw [imbalanceOf_append, hcommitted, hown.resolve_left List.not_mem_nil, add_zero]
  · exact h.covered.unique intact.unique
  · intro r hr
    have hrefs := h.refs r hr
    rw [checked] at hrefs
    exact hrefs.resolve_right (by simp)
  · intro e he
    rcases List.mem_append.mp he with hold | hnew
    · obtain ⟨t, ht, hid⟩ := intact.entries e hold
      exact ⟨t, List.mem_append_left _ ht, hid⟩
    · obtain ⟨t, ht, hid, -⟩ := h.covered.entries e hnew
      exact ⟨t, ht, hid⟩

/-! ## The commit of another transaction -/

/-- No lock of the one conflicts with a lock of the other. -/
def Txn.Apart (u v : Txn) : Prop :=
  ∀ l ∈ u.locks, ∀ m ∈ v.locks, ¬(l.1 = m.1 ∧ l.2.Conflicts m.2)

/-- A row that is changed has a key, and is locked. -/
theorem Covered.locked {c : Changes} {ls : List (RowId × RowLock)} (h : Covered T c ls)
    {x : RowId} (hx : x ∈ c.rows) :
    (∃ r : Ref, r.row = x) ∧ ((x, .update) ∈ ls ∨ (x, .noKeyUpdate) ∈ ls) := by
  have hrow : ∃ r : Ref, r.row = x := by
    cases x with
    | period id => exact ⟨.period id, rfl⟩
    | account id => exact ⟨.account id "", rfl⟩
    | transfer id => simp [Changes.rows] at hx
  refine ⟨hrow, ?_⟩
  obtain ⟨r, rfl⟩ := hrow
  rcases h.rows r hx with hupdate | hkey
  · exact .inl hupdate
  · exact .inr hkey.1

/-- A row that one transaction has locked `FOR SHARE` at least is not changed by
another one. -/
theorem Txn.Apart.not_changed (apart : u.Apart v) (hu : u.Guarded T) {x : RowId} {m : RowLock}
    (hm : m ≠ .keyShare) (hlock : (x, m) ∈ v.locks) : x ∉ u.changes.rows := by
  intro hx
  rcases (hu.covered.locked hx).2 with hupdate | hkey
  · exact apart _ hupdate _ hlock ⟨rfl, RowLock.update_conflicts m⟩
  · exact apart _ hkey _ hlock ⟨rfl, RowLock.noKeyUpdate_conflicts hm⟩

theorem Txn.Apart.not_both (apart : u.Apart v) (hu : u.Guarded T) (hv : v.Guarded T) {x : RowId}
    (hx : x ∈ v.changes.rows) : x ∉ u.changes.rows := by
  rcases (hv.covered.locked hx).2 with hupdate | hkey
  · exact apart.not_changed hu (by simp) hupdate
  · exact apart.not_changed hu (by simp) hkey

/-- A key that one transaction has locked `FOR KEY SHARE` stays. -/
theorem Txn.Apart.has_iff (apart : u.Apart v) (hu : u.Guarded T) {r : Ref}
    (hlock : (r.row, .keyShare) ∈ v.locks) : (T.apply u.changes).Has r ↔ T.Has r := by
  by_cases hr : r.row ∈ u.changes.rows
  · rcases hu.covered.rows r hr with hupdate | hkey
    · exact absurd ⟨rfl, RowLock.update_conflicts _⟩ (apart _ hupdate _ hlock)
    · exact hkey.2
  · exact Tables.has_apply hr

theorem periods_of_not_changed {c : Changes} {id : Uuid} (h : .period id ∉ c.rows) :
    (T.apply c).periods id = T.periods id :=
  overlay_of_not_mem fun hid => h (Changes.mem_rows_period.mpr hid)

theorem accounts_of_not_changed {c : Changes} {id : Uuid} (h : .account id ∉ c.rows) :
    (T.apply c).accounts id = T.accounts id :=
  overlay_of_not_mem fun hid => h (Changes.mem_rows_account.mpr hid)

/-- A row that only the second transaction changes looks the same to it. -/
theorem has_beside {c d : Changes} {r : Ref} (h : r.row ∉ c.rows) :
    ((T.apply c).apply d).Has r ↔ (T.apply d).Has r := by
  apply Tables.has_congr
  · intro id hid
    exact periods_of_not_changed (hid ▸ h)
  · intro id hid
    exact accounts_of_not_changed (hid ▸ h)

theorem Txn.Apart.touches (apart : u.Apart v) (hu : u.Guarded T) {ds : List Uuid} {id : Uuid}
    (h : Touches T v.locks ds id) : Touches (T.apply u.changes) v.locks ds id := by
  obtain ⟨m, hm, hmem⟩ := h.locked
  refine ⟨h.locked, fun hclosed => h.closed ?_⟩
  obtain ⟨p, hp, hstatus⟩ := hclosed
  rw [periods_of_not_changed (apart.not_changed hu hm hmem)] at hp
  exact ⟨p, hp, hstatus⟩

theorem Txn.Guarded.covered_beside (hu : u.Guarded T) (hv : v.Guarded T) (apart : u.Apart v) :
    Covered (T.apply u.changes) v.changes v.locks := by
  constructor
  · intro hnodup
    have hold : (T.transfers.map Transfer.id).Nodup :=
      hnodup.sublist ((List.sublist_append_left _ _).map _)
    have hown := hv.covered.unique hold
    simp only [Tables.apply, List.map_append] at hnodup hown ⊢
    rw [List.nodup_append] at hown ⊢
    refine ⟨hnodup, hown.2.1, fun a ha b hb heq => ?_⟩
    rcases List.mem_append.mp ha with hold | hnew
    · exact hown.2.2 a hold b hb heq
    · obtain ⟨t, ht, rfl⟩ := List.mem_map.mp hnew
      obtain ⟨t', ht', rfl⟩ := List.mem_map.mp hb
      exact apart _ (hu.covered.transfers t ht) _ (hv.covered.transfers t' ht')
        ⟨congrArg RowId.transfer heq, RowLock.update_conflicts _⟩
  · exact hv.covered.transfers
  · intro e he
    obtain ⟨t, ht, hid, htouch⟩ := hv.covered.entries e he
    refine ⟨t, ?_, hid, apart.touches hu htouch⟩
    rcases List.mem_append.mp ht with hold | hnew
    · exact List.mem_append_left _ (List.mem_append_left _ hold)
    · exact List.mem_append_right _ hnew
  · intro id hid
    exact apart.touches hu (hv.covered.periods id hid)
  · intro r hr
    have hnot := apart.not_both hu hv hr
    rcases hv.covered.rows r hr with hupdate | hkey
    · exact .inl hupdate
    · exact .inr ⟨hkey.1, (has_beside hnot).trans (hkey.2.trans (Tables.has_apply hnot).symm)⟩

/-- **Another transaction commits.** -/
theorem Txn.Guarded.beside (hu : u.Guarded T) (checked : u.pending = []) (hv : v.Guarded T)
    (apart : u.Apart v) : v.Guarded (T.apply u.changes) := by
  refine ⟨hu.covered_beside hv apart, hv.balanced, hv.users, fun r hr => ?_⟩
  rcases (Ref.usedBy_append r _ _ _ _).mp hr with hcommitted | hown
  · -- a committed row refers to the key, so it was there at the commit
    have hhas : (T.apply u.changes).Has r := by
      have hrefs := hu.refs r hcommitted
      rw [checked] at hrefs
      exact hrefs.resolve_right (by simp)
    by_cases hchanged : r.row ∈ v.changes.rows
    · have hnot := apart.not_both hu hv hchanged
      rw [has_beside hnot]
      rcases hv.covered.rows r hchanged with hupdate | hkey
      · rcases (Ref.usedBy_append r _ _ _ _).mp hcommitted with hold | hnew
        · exact hv.refs r ((Ref.usedBy_append r _ _ _ _).mpr (.inl hold))
        · -- the other transaction has locked the key of its own row
          have hlock := hu.users r hnew
          rw [checked] at hlock
          exact absurd ⟨rfl, (RowLock.update_conflicts _).symm⟩
            (apart _ (hlock.resolve_left List.not_mem_nil) _ hupdate)
      · exact .inl (hkey.2.mpr ((Tables.has_apply hnot).mp hhas))
    · exact .inl ((Tables.has_apply hchanged).mpr hhas)
  · -- a row of this transaction refers to the key
    rcases hv.refs r ((Ref.usedBy_append r _ _ _ _).mpr (.inr hown)) with hhas | hpending
    · rcases hv.users r hown with hpresent | hlock
      · exact .inr (.inl hpresent)
      · left
        by_cases hchanged : r.row ∈ v.changes.rows
        · exact (has_beside (apart.not_both hu hv hchanged)).mpr hhas
        · rw [Tables.has_apply hchanged, apart.has_iff hu hlock]
          exact (Tables.has_apply hchanged).mp hhas
    · exact .inr hpending

end

/-! ## Connections -/

section

variable {P : Type} [DecidableEq P] {grants : Grants} {T : Tables}
  {s s' : Sessions P Server Connection}

/-- No connection has begun anything. -/
def freshConnections (T : Tables) : Sessions P Server Connection := ⟨⟨T, []⟩, fun _ => {}⟩

theorem txns_none {u : Txn} (h : u ∈ ({} : Connection).txns) : u = {} := by
  simpa [Connection.txns] using h

theorem guarded_sound (grants : Grants) : (connections grants).Sound (fun s => s.tables.Intact)
    fun s c => ∀ u ∈ c.txns, u.Guarded s.tables := by
  constructor
  · intro free s c s' c' moved intact hc
    cases moved with
    | @execute u sps stmt eff ran unlocked =>
      refine ⟨intact, fun v hv => ?_⟩
      rcases List.mem_cons.mp hv with rfl | hold
      · exact (hc u List.mem_cons_self).execute (stmt.run_lawful ran)
      · exact hc v (List.mem_cons_of_mem _ hold)
    | @check u sps done todo c next passed unlocked =>
      refine ⟨intact, fun v hv => ?_⟩
      rcases List.mem_cons.mp hv with rfl | hold
      · exact (hc u List.mem_cons_self).check intact next passed
      · exact hc v (List.mem_cons_of_mem _ hold)
    | savepoint name =>
      refine ⟨intact, fun v hv => hc v ?_⟩
      simpa [Connection.txns] using hv
    | rollbackTo name | release name =>
      refine ⟨intact, fun v hv => hc v ?_⟩
      simp only [Connection.txns, List.map_cons, List.map_append, List.mem_cons,
        List.mem_append] at hv ⊢
      tauto
    | @commit u sps checked =>
      have hcommit := (hc u List.mem_cons_self).commit intact checked
      refine ⟨hcommit, fun v hv => ?_⟩
      rw [txns_none hv]
      exact guarded_none hcommit
    | rollback =>
      refine ⟨intact, fun v hv => ?_⟩
      rw [txns_none hv]
      exact guarded_none intact
  · intro free s c s' c' d moved intact hc apart _ hd
    cases moved with
    | @commit u sps checked =>
      intro v hv
      apply (hc u List.mem_cons_self).beside checked (hd v hv)
      intro l hl m hm
      exact apart l ⟨u, List.mem_cons_self, hl⟩ m ⟨v, hv, hm⟩
    | _ => exact hd
  · intro s s' changed
    exact changed.elim

theorem guarded_run (intact : T.Intact)
    (hrun : (connections grants).Run (freshConnections T) s) :
    Protocol.Holding (connections grants) (fun s => s.tables.Intact)
      (fun s c => ∀ u ∈ c.txns, u.Guarded s.tables) s := by
  refine (guarded_sound grants).run (connections_disciplined grants) ⟨?_, intact, ?_⟩ hrun
  · intro p q _ l hl
    obtain ⟨u, hu, hmem⟩ := hl
    rw [txns_none hu] at hmem
    cases hmem
  · intro p u hu
    rw [txns_none hu]
    exact guarded_none intact

end

end FundLedger.Guards
