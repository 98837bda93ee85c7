import FundLedger.Operations.PartnerStatements

/-!
# A period that nothing is posted to

`FrozenIn db db' period` says that the entries of the period are the same in
both databases, each with the same account and the same effective type.  Every
figure that is derived from the entries of the period is then the same too.

A posting into another period, and any change that posts nothing, leaves a
period frozen.
-/

namespace FundLedger

open Lib

structure FrozenIn (db db' : Db) (period : Uuid) : Prop where
  entries : entriesIn db' period = entriesIn db period
  type : ∀ e ∈ entriesIn db period, entryType db' e = entryType db e
  account : ∀ e ∈ entriesIn db period, db'.accounts.get? e.account = db.accounts.get? e.account

theorem FrozenIn.refl (db : Db) (period : Uuid) : FrozenIn db db period :=
  ⟨rfl, fun _ _ => rfl, fun _ _ => rfl⟩

theorem FrozenIn.trans {a b c : Db} {period : Uuid} (h : FrozenIn a b period)
    (h' : FrozenIn b c period) : FrozenIn a c period := by
  refine ⟨h'.entries.trans h.entries, fun e he => ?_, fun e he => ?_⟩
  · exact (h'.type e (h.entries ▸ he)).trans (h.type e he)
  · exact (h'.account e (h.entries ▸ he)).trans (h.account e he)

/-- The periods up to a start date stay the same, but for their status. -/
theorem periodsThrough_of_rows {db db' : Db} {f : Period → Period} (hf : KeepsOutline f)
    (hrows : db'.periods.rows = db.periods.rows.map f) (fund : Uuid) (start : Date) :
    periodsThrough db' fund start = (periodsThrough db fund start).map f := by
  have hfilter : (db'.periods.rows.filter fun p => p.fund = fund ∧ p.startDate ≤ start) =
      (db.periods.rows.filter fun p => p.fund = fund ∧ p.startDate ≤ start).map f := by
    rw [hrows, List.filter_map]
    congr 1
    refine List.filter_congr fun p _ => ?_
    simp only [Function.comp_apply, (hf p).2.1, (hf p).2.2.1]
  rw [periodsThrough, periodsThrough, hfilter]
  refine (List.map_insertionSort _ _ _ _ fun p _ q _ => ?_).symm
  rw [(hf p).2.2.1, (hf q).2.2.1]

/-! ## Figures of the period -/

theorem periodEntries_eq (db : Db) (account period : Uuid) :
    periodEntries db account period =
      (entriesIn db period).filter fun e => e.account = account := by
  rw [periodEntries, entriesIn, group, List.filter_filter]
  refine List.filter_congr fun e _ => ?_
  rw [Bool.decide_and]

namespace FrozenIn

variable {db db' : Db} {period : Uuid}

theorem accountTotal (h : FrozenIn db db' period) (account : Uuid) :
    accountTotal db' period account = FundLedger.accountTotal db period account := by
  rw [FundLedger.accountTotal, FundLedger.accountTotal, h.entries]

theorem lpLedgerMovement (h : FrozenIn db db' period) (account : Uuid) :
    lpLedgerMovement db' account period = FundLedger.lpLedgerMovement db account period := by
  have hrows : periodEntries db' account period = periodEntries db account period := by
    rw [periodEntries_eq, periodEntries_eq, h.entries]
  have htype : ∀ e ∈ periodEntries db account period, entryType db' e = entryType db e := by
    intro e he
    rw [periodEntries_eq] at he
    exact h.type e (List.mem_of_mem_filter he)
  rw [FundLedger.lpLedgerMovement, FundLedger.lpLedgerMovement]
  congr 1
  unfold movementRows
  dsimp only
  rw [hrows, List.filterMap_congr htype]
  refine List.map_congr_left fun t _ => ?_
  rw [List.filter_congr fun e he => by rw [htype e he]]

theorem fundTotal (h : FrozenIn db db' period) (fund : Uuid) (t : AccountType) :
    fundTotal db' fund period t = FundLedger.fundTotal db fund period t := by
  have hrows : ∀ d : Db, (d.entries.rows.filter fun e => entryFund d e = some fund ∧
      entryAccountType d e = some t ∧ entryPeriod d e = some period) =
      (entriesIn d period).filter fun e => entryFund d e = some fund ∧
        entryAccountType d e = some t := by
    intro d
    rw [entriesIn, group, List.filter_filter]
    refine List.filter_congr fun e _ => ?_
    rw [← Bool.decide_and]
    exact decide_eq_decide.mpr (and_assoc.symm)
  rw [FundLedger.fundTotal, FundLedger.fundTotal, hrows, hrows, h.entries]
  congr 2
  refine List.filter_congr fun e he => ?_
  rw [entryFund, entryAccountType, h.account e he]
  rfl

end FrozenIn

/-! ## What freezes a period -/

/-- The transfers that are reversed are there. -/
def ReversalTargets (db : Db) : Prop :=
  ∀ t ∈ db.transfers, ∀ o ∈ t.reverses, ∃ u ∈ db.transfers, u.id = o

theorem Genesis.reversalTargets {db : Db} (h : Genesis db) : ReversalTargets db := by
  intro t ht
  rw [← Table.mem_rows, h.transfers] at ht
  cases ht

theorem Posted.reversalTargets {env : Env} {a : Posting} {db db' : Db} {es : List Entry}
    (h : Posted env a db db' es) (ht : ReversalTargets db) : ReversalTargets db' := by
  have hmem : ∀ {t : Transfer}, t ∈ db'.transfers ↔ t ∈ db.transfers ∨ t = transferFor env a := by
    intro t
    rw [← Table.mem_rows, h.transfers_eq, List.mem_append, List.mem_singleton]
    rfl
  intro t htm o ho
  obtain ⟨u, hu, huo⟩ : ∃ u ∈ db.transfers, u.id = o := by
    rcases hmem.mp htm with hold | rfl
    · exact ht t hold o ho
    · exact h.reverses_exists o ho
  exact ⟨u, hmem.mpr (.inl hu), huo⟩

theorem Keeps.reversalTargets {db db' : Db} (h : Keeps db db') (ht : ReversalTargets db) :
    ReversalTargets db' := by
  rw [ReversalTargets, h.transfers]
  exact ht

/-- The account of an entry of the books is found again. -/
theorem Books.account_get? {db db' : Db} (hb : Books db)
    (haccounts : ∀ a ∈ db.accounts, a ∈ db'.accounts) {e : Entry} (he : e ∈ db.entries) :
    db'.accounts.get? e.account = db.accounts.get? e.account := by
  obtain ⟨t, ht, hte⟩ := hb.entry_transfer e he
  obtain ⟨p, -, -, hsame⟩ := (hb.transfer_books t ht).same_fund
  obtain ⟨a, ha, hae, -⟩ := hsame e (mem_group.mpr ⟨he, hte.symm⟩)
  rw [← hae, Table.get?_of_mem ha, Table.get?_of_mem (haccounts a ha)]

/-- A change that posts nothing freezes every period. -/
theorem Keeps.frozenIn {db db' : Db} (h : Keeps db db') (hb : Books db) (period : Uuid) :
    FrozenIn db db' period := by
  have hperiod : entryPeriod db' = entryPeriod db := by
    funext e
    rw [entryPeriod, entryPeriod, h.transfers]
  have heffective : effectiveType db' = effectiveType db := by
    funext t
    rw [effectiveType, effectiveType, h.transfers]
  refine ⟨?_, fun e _ => ?_, fun e he => ?_⟩
  · rw [entriesIn, entriesIn, h.entries, hperiod]
  · rw [entryType, entryType, h.transfers, heffective]
  · exact hb.account_get? h.accounts (mem_entriesIn.mp he).1

/-- A posting into another period freezes a period. -/
theorem Posted.frozenIn {env : Env} {a : Posting} {db db' : Db} {es : List Entry}
    (h : Posted env a db db' es) (hb : Books db) (targets : ReversalTargets db) {period : Uuid}
    (hother : a.period.id ≠ period) : FrozenIn db db' period := by
  obtain ⟨transfers, entries, htrows, herows, hdb'⟩ := h.appended
  have hprefix : db.transfers.rows <+: db'.transfers.rows := ⟨_, h.transfers_eq.symm⟩
  have hget : ∀ {i t}, db.transfers.get? i = some t → db'.transfers.get? i = some t := fun ht =>
    find?_of_prefix hprefix ht
  have hold : ∀ e ∈ db.entries, entryPeriod db' e = entryPeriod db e ∧
      entryType db' e = entryType db e := by
    intro e he
    obtain ⟨t, ht, hte⟩ := hb.entry_transfer e he
    have hgett : db.transfers.get? e.transfer = some t := Table.get?_eq_some.mpr ⟨ht, hte⟩
    have heffective : effectiveType db' t = effectiveType db t := by
      rw [effectiveType, effectiveType]
      cases hrev : t.reverses with
      | none => rfl
      | some o =>
        obtain ⟨u, hu, rfl⟩ := targets t ht o hrev
        rw [Option.bind_some, Option.bind_some, Table.get?_of_mem hu, hget (Table.get?_of_mem hu)]
    rw [entryPeriod, entryPeriod, entryType, entryType, hgett, hget hgett, Option.map_some,
      Option.map_some, heffective]
    exact ⟨rfl, rfl⟩
  have hnew : ∀ e ∈ es, entryPeriod db' e = some a.period.id := by
    intro e he
    have hmem : transferFor env a ∈ db'.transfers := by
      rw [← Table.mem_rows, h.transfers_eq]
      exact List.mem_append_right _ (List.mem_singleton_self _)
    have hte : (transferFor env a).id = e.transfer := (h.entry_transfer he).symm
    rw [entryPeriod, Table.get?_eq_some.mpr ⟨hmem, hte⟩]
    rfl
  have haccounts : db'.accounts = db.accounts := by rw [hdb']
  refine ⟨?_, fun e he => (hold e (mem_entriesIn.mp he).1).2, fun e _ => by rw [haccounts]⟩
  have hnil : group (entryPeriod db') (some period) es = [] :=
    group_eq_nil fun e he hp => hother (Option.some.inj ((hnew e he).symm.trans hp))
  rw [entriesIn, h.entries_eq, group_append, hnil, List.append_nil, entriesIn]
  exact List.filter_congr fun e he => by rw [(hold e he).1]

end FundLedger
