import FundLedger.Operations.Factories

/-!
# The trial balance

`Books` is the invariant of every run.  Each transfer has entries on both
sides, on accounts of its own fund only, which sum to zero; and no entry is
without its transfer.  Each of the five kinds of change keeps it.

The reconciliation figures follow.  They group the same rows in three ways: by
the period of the transfer, by the fund of the account, and not at all.  In
each case a whole transfer falls into one group, because its accounts are all
in the fund of its period.
-/

namespace FundLedger

open Lib

/-- A transfer whose books are in order. -/
structure TransferBooks (db : Db) (t : Transfer) : Prop where
  two_le_length : 2 ≤ (entriesOf db t.id).length
  exists_direction : ∀ d : Direction, ∃ e ∈ entriesOf db t.id, e.direction = d
  same_fund : ∃ p ∈ db.periods, p.id = t.period ∧
    ∀ e ∈ entriesOf db t.id, ∃ a ∈ db.accounts, a.id = e.account ∧ a.fund = p.fund
  sum_zero : sumBy Entry.signedBaseAmount (entriesOf db t.id) = 0

/-- The invariant. -/
structure Books (db : Db) : Prop where
  entry_transfer : ∀ e ∈ db.entries, ∃ t ∈ db.transfers, t.id = e.transfer
  transfer_books : ∀ t ∈ db.transfers, TransferBooks db t

/-! ## Every change keeps the books -/

/-- What a change that does not post leaves behind: the same transfers and
entries, the accounts there were, and the periods with their funds. -/
structure Keeps (db db' : Db) : Prop where
  transfers : db'.transfers = db.transfers
  entries : db'.entries = db.entries
  accounts : ∀ a ∈ db.accounts, a ∈ db'.accounts
  periods : ∀ p ∈ db.periods, ∃ q ∈ db'.periods, q.id = p.id ∧ q.fund = p.fund ∧
    q.startDate = p.startDate

theorem updatePeriod_ok {db db' : Db} {period : Uuid} {now : Timestamp} {closedBy : String}
    (h : updatePeriod db period now closedBy = .ok db') :
    (∀ p ∈ db.periods, p.id = period → p.status ≠ .CLOSED) ∧
    db' = { db with periods :=
      db.periods.update (fun p => p.id = period) (·.close now closedBy) fun _ => rfl } := by
  simp only [updatePeriod, except_bind_ok, require_eq_ok, except_pure] at h
  obtain ⟨_, _, _, hopen, rfl⟩ := h
  exact ⟨hopen, rfl⟩

theorem Change.posted_or_keeps {Q : Db → Posting → Prop} {db db' : Db} (h : Change Q db db') :
    (∃ env a es, Q db a ∧ Holds db a.period ∧ Posted env a db db' es) ∨ Keeps db db' := by
  have hself : ∀ p ∈ db.periods, ∃ q ∈ db.periods, q.id = p.id ∧ q.fund = p.fund ∧
      q.startDate = p.startDate := fun p hp => ⟨p, hp, rfl, rfl, rfl⟩
  cases h with
  | posted known held posted => exact .inl ⟨_, _, _, known, held, posted⟩
  | accountOpened inserted =>
    obtain ⟨-, -, -, -, -, accounts, hins, rfl⟩ := insertAccount_ok inserted
    refine .inr ⟨rfl, rfl, fun a ha => ?_, hself⟩
    rw [← Table.mem_rows, (Table.insert_eq_some.mp hins).2]
    exact List.mem_append_left _ ha
  | capitalCall inserted =>
    obtain ⟨-, -, calls, -, rfl⟩ := insertCapitalCall_ok inserted
    exact .inr ⟨rfl, rfl, fun _ ha => ha, hself⟩
  | distribution inserted =>
    obtain ⟨-, -, dists, -, rfl⟩ := insertDistribution_ok inserted
    exact .inr ⟨rfl, rfl, fun _ ha => ha, hself⟩
  | periodClosed updated =>
    obtain ⟨-, rfl⟩ := updatePeriod_ok updated
    refine .inr ⟨rfl, rfl, fun _ ha => ha, fun p hp => ?_⟩
    refine ⟨_, List.mem_map_of_mem hp, ?_⟩
    split <;> exact ⟨rfl, rfl, rfl⟩

theorem TransferBooks.of_keeps {db db' : Db} (h : Keeps db db') {t : Transfer}
    (ht : TransferBooks db t) : TransferBooks db' t := by
  have hentries : entriesOf db' t.id = entriesOf db t.id := by
    rw [entriesOf, entriesOf, h.entries]
  obtain ⟨p, hp, hpt, haccounts⟩ := ht.same_fund
  obtain ⟨q, hq, hqp, hqf, -⟩ := h.periods p hp
  refine ⟨hentries ▸ ht.two_le_length, hentries ▸ ht.exists_direction, ?_, hentries ▸ ht.sum_zero⟩
  refine ⟨q, hq, hqp.trans hpt, fun e he => ?_⟩
  obtain ⟨a, ha, hae, haf⟩ := haccounts e (hentries ▸ he)
  exact ⟨a, h.accounts a ha, hae, haf.trans hqf.symm⟩

theorem Books.of_keeps {db db' : Db} (h : Keeps db db') (hb : Books db) : Books db' := by
  constructor
  · rw [h.transfers, h.entries]
    exact hb.entry_transfer
  · rw [h.transfers]
    exact fun t ht => (hb.transfer_books t ht).of_keeps h

/-- An earlier transfer gets no entries from a later posting. -/
theorem Posted.entriesOf_of_mem {env : Env} {a : Posting} {db db' : Db} {es : List Entry}
    (h : Posted env a db db' es) {t : Transfer} (ht : t ∈ db.transfers) :
    entriesOf db' t.id = entriesOf db t.id := by
  have hnil : group Entry.transfer t.id es = [] := by
    refine group_eq_nil fun e he hte => ?_
    exact h.id_fresh t ht (hte.symm.trans (h.entry_transfer he))
  rw [entriesOf, entriesOf, h.entries_eq, group_append, hnil, List.append_nil]

/-- The entries of the new transfer are the ones that were posted. -/
theorem Posted.entriesOf_new {env : Env} {a : Posting} {db db' : Db} {es : List Entry}
    (h : Posted env a db db' es) (hb : Books db) :
    entriesOf db' (transferFor env a).id = es := by
  have hnil : group Entry.transfer (transferFor env a).id db.entries.rows = [] := by
    refine group_eq_nil fun e he hte => ?_
    obtain ⟨t, ht, hid⟩ := hb.entry_transfer e he
    exact h.id_fresh t ht (hid.trans hte)
  rw [entriesOf, h.entries_eq, group_append, hnil, List.nil_append]
  exact group_eq_self fun e he => h.entry_transfer he

theorem Posted.books {env : Env} {a : Posting} {db db' : Db} {es : List Entry}
    (h : Posted env a db db' es) (held : Holds db a.period) (hb : Books db) : Books db' := by
  obtain ⟨transfers, entries, htrows, herows, hdb'⟩ := h.appended
  have haccounts : db'.accounts = db.accounts := by rw [hdb']
  have hperiods : db'.periods = db.periods := by rw [hdb']
  have hmem : ∀ {t : Transfer}, t ∈ db'.transfers ↔ t ∈ db.transfers ∨ t = transferFor env a := by
    intro t
    rw [← Table.mem_rows, h.transfers_eq, List.mem_append, List.mem_singleton]
    rfl
  constructor
  · intro e he
    rw [← Table.mem_rows, h.entries_eq, List.mem_append] at he
    rcases he with he | he
    · obtain ⟨t, ht, hte⟩ := hb.entry_transfer e he
      exact ⟨t, hmem.mpr (.inl ht), hte⟩
    · exact ⟨_, hmem.mpr (.inr rfl), (h.entry_transfer he).symm⟩
  · intro t ht
    rcases hmem.mp ht with hold | rfl
    · have hbooks := hb.transfer_books t hold
      have hentries := h.entriesOf_of_mem hold
      refine ⟨hentries ▸ hbooks.two_le_length, hentries ▸ hbooks.exists_direction, ?_,
        hentries ▸ hbooks.sum_zero⟩
      rw [hperiods, haccounts, hentries]
      exact hbooks.same_fund
    · have hentries := h.entriesOf_new hb
      refine ⟨hentries ▸ h.two_le_length, hentries ▸ h.exists_direction, ?_, h.balanced⟩
      obtain ⟨q, hq, hqid, hqfund⟩ := held
      rw [hperiods, haccounts, hentries]
      refine ⟨q, hq, hqid, fun e he => ?_⟩
      obtain ⟨c, hc, hce, hcf⟩ := h.exists_account he
      exact ⟨c, hc, hce, hcf.trans hqfund.symm⟩

/-- **One step**: a change keeps the books. -/
theorem Books.change {Q : Db → Posting → Prop} {db db' : Db} (hb : Books db)
    (h : Change Q db db') : Books db' := by
  obtain ⟨env, a, es, -, held, posted⟩ | keeps := h.posted_or_keeps
  · exact posted.books held hb
  · exact hb.of_keeps keeps

theorem Genesis.books {db : Db} (h : Genesis db) : Books db := by
  constructor
  · intro e he
    rw [← Table.mem_rows, h.entries] at he
    cases he
  · intro t ht
    rw [← Table.mem_rows, h.transfers] at ht
    cases ht

/-- **A whole run**: the books are in order after any sequence of calls. -/
theorem Genesis.books_afterCalls {db : Db} (h : Genesis db) (calls : List Call) :
    Books (afterCalls db calls) :=
  (afterCalls_changes calls db).invariant (fun _ _ hb hc => hb.change hc) h.books

/-! ## Reconciliation -/

namespace Books

variable {db : Db}

/-- Every group of entries with one transfer id sums to zero. -/
theorem sum_group (hb : Books db) (x : Uuid) :
    sumBy Entry.signedBaseAmount (group Entry.transfer x db.entries.rows) = 0 := by
  by_cases hx : ∃ t ∈ db.transfers, t.id = x
  · obtain ⟨t, ht, rfl⟩ := hx
    exact (hb.transfer_books t ht).sum_zero
  · rw [group_eq_nil, sumBy_nil]
    rintro e he rfl
    exact hx (hb.entry_transfer e he)

/-- An entry's period is that of its transfer. -/
theorem entryPeriod_eq {e : Entry} {t : Transfer} (ht : t ∈ db.transfers)
    (hte : t.id = e.transfer) : entryPeriod db e = some t.period := by
  rw [entryPeriod, Table.get?_eq_some.mpr ⟨ht, hte⟩]
  rfl

/-- An entry's fund is that of its transfer's period. -/
theorem entryFund_eq (hb : Books db) {e : Entry} (he : e ∈ db.entries) {t : Transfer}
    (ht : t ∈ db.transfers) (hte : t.id = e.transfer) :
    ∃ p ∈ db.periods, p.id = t.period ∧ entryFund db e = some p.fund := by
  obtain ⟨p, hp, hpt, haccounts⟩ := (hb.transfer_books t ht).same_fund
  obtain ⟨a, ha, hae, haf⟩ := haccounts e (mem_group.mpr ⟨he, hte.symm⟩)
  refine ⟨p, hp, hpt, ?_⟩
  rw [entryFund, Table.get?_eq_some.mpr ⟨ha, hae⟩, Option.map_some, haf]

/-- The entries of one transfer have the same period and the same fund. -/
theorem same_period_fund (hb : Books db) {e f : Entry} (he : e ∈ db.entries)
    (hf : f ∈ db.entries) (h : e.transfer = f.transfer) :
    entryPeriod db e = entryPeriod db f ∧ entryFund db e = entryFund db f := by
  obtain ⟨t, ht, hte⟩ := hb.entry_transfer e he
  have htf : t.id = f.transfer := hte.trans h
  obtain ⟨p, hp, hpt, hpe⟩ := hb.entryFund_eq he ht hte
  obtain ⟨q, hq, hqt, hqf⟩ := hb.entryFund_eq hf ht htf
  have hpq : p = q := Table.eq_of_key_eq hp hq (hpt.trans hqt.symm)
  exact ⟨(entryPeriod_eq ht hte).trans (entryPeriod_eq ht htf).symm,
    hpe.trans (hpq ▸ hqf.symm)⟩

/-- A sum over whole transfers is zero: over those that a test on the period
and the fund of an entry selects. -/
theorem sum_filter (hb : Books db) (p : Entry → Bool)
    (hp : ∀ e ∈ db.entries, ∀ f ∈ db.entries, e.transfer = f.transfer → p e = p f) :
    sumBy Entry.signedBaseAmount (db.entries.rows.filter p) = 0 :=
  sumBy_filter_eq_zero_of_groups _ Entry.transfer p _ hb.sum_group hp

theorem totalImbalance_eq_zero (hb : Books db) : totalImbalance db = 0 :=
  hb.sum_filter _ fun _ _ _ _ _ => rfl

theorem periodImbalance_eq_zero (hb : Books db) (period : Uuid) :
    periodImbalance db period = 0 := by
  refine hb.sum_filter _ fun e he f hf hef => ?_
  rw [(hb.same_period_fund he hf hef).1]

theorem fundImbalance_eq_zero (hb : Books db) (fund : Uuid) : fundImbalance db fund = 0 := by
  refine hb.sum_filter _ fun e he f hf hef => ?_
  rw [(hb.same_period_fund he hf hef).2]

/-- The rows that a report on a fund counts are whole transfers. -/
theorem fundEntries_eq_filter (hb : Books db) (fund : Option Uuid) :
    ∃ p : Entry → Bool,
      (∀ e ∈ db.entries, ∀ f ∈ db.entries, e.transfer = f.transfer → p e = p f) ∧
      fundEntries db fund = db.entries.rows.filter p := by
  cases fund with
  | none => exact ⟨fun _ => true, fun _ _ _ _ _ => rfl, by simp [fundEntries]⟩
  | some f =>
    refine ⟨fun e => entryFund db e = some f, fun e he g hg heg => ?_, rfl⟩
    dsimp only
    rw [(hb.same_period_fund he hg heg).2]

theorem unbalancedTransfers_eq_nil (hb : Books db) (fund : Option Uuid) (limit : ℕ) :
    unbalancedTransfers db fund limit = [] := by
  obtain ⟨p, hp, hrows⟩ := hb.fundEntries_eq_filter fund
  have hsum : ∀ t, sumBy Entry.signedBaseAmount
      (group Entry.transfer t (fundEntries db fund)) = 0 := by
    intro t
    rw [hrows, group, List.filter_filter]
    refine hb.sum_filter _ fun e he f hf hef => ?_
    rw [hp e he f hf hef, hef]
  unfold unbalancedTransfers
  dsimp only
  rw [List.filter_eq_nil_iff.mpr, List.take_nil]
  intro s hs
  obtain ⟨t, -, rfl⟩ := List.mem_map.mp hs
  simp [hsum]

/-- The message of a period that does not reconcile. -/
def doesNotReconcile (imbalance : Dec) : Exc :=
  .ledger .PeriodNotClosable
    [.lit "period does not reconcile (imbalance ", .dec imbalance, .lit ")"]

/-- The check of a closing never fails for the imbalance. -/
theorem checkClosable_ne (hb : Books db) (fundId : Uuid) (period : Period) (x : Dec) :
    checkClosable db fundId period ≠ .error (doesNotReconcile x) := by
  intro h
  rcases except_bind_error.mp h with h | ⟨_, -, h⟩
  · have := (require_eq_error.mp h).2
    simp [doesNotReconcile] at this
  · exact (require_eq_error.mp h).1 (hb.periodImbalance_eq_zero period.id)

theorem closePeriod_ne (hb : Books db) (env : Env) (fundId periodId : Uuid) (closedBy : String)
    (x : Dec) : (closePeriod env fundId periodId closedBy db).1 ≠ .error (doesNotReconcile x) := by
  intro h
  have hrun : closePeriod env fundId periodId closedBy db =
      (.error (doesNotReconcile x), (closePeriod env fundId periodId closedBy db).2) :=
    Prod.ext h rfl
  obtain ⟨⟨db₁, hbody⟩, -⟩ := Tx.atomic_error.mp hrun
  rw [Tx.read_bind] at hbody
  rcases Tx.bind_error.mp hbody with hlift | ⟨period, db₂, hlift, hrest⟩
  · have := (Tx.lift_eq.mp hlift).1
    rw [periodOfFund, eq_comm, orRaise_eq_error] at this
    simp [doesNotReconcile] at this
  · obtain ⟨-, hdb₂⟩ := Tx.lift_eq.mp hlift
    subst hdb₂
    split at hrest
    · cases (Tx.pure_eq.mp hrest).1
    · rcases Tx.bind_error.mp hrest with hlift₂ | ⟨_, db₃, hlift₂, hrest₂⟩
      · exact hb.checkClosable_ne fundId period x (Tx.lift_eq.mp hlift₂).1.symm
      · rcases Tx.bind_error.mp hrest₂ with hst | ⟨_, db₄, -, hret⟩
        · have hupdate := (Tx.statement_error.mp hst).1
          rcases except_bind_error.mp hupdate with h | ⟨_, -, h⟩
          · have := (require_eq_error.mp h).2
            simp [doesNotReconcile] at this
          · rcases except_bind_error.mp h with h | ⟨_, -, h⟩
            · have := (require_eq_error.mp h).2
              simp [doesNotReconcile] at this
            · cases h
        · cases (Tx.pure_eq.mp hret).1

end Books

/-- **The trial balance.**  From a database without transfers, whatever is
called in whatever order: the books are in order, every figure of the
reconciliation is zero, and no closing is refused for an imbalance. -/
theorem trialBalance {db : Db} (h : Genesis db) (calls : List Call) :
    let now := afterCalls db calls
    (∀ t ∈ now.transfers, TransferBooks now t) ∧
    totalImbalance now = 0 ∧
    (∀ fund, fundImbalance now fund = 0) ∧
    (∀ period, periodImbalance now period = 0) ∧
    (∀ fund limit, unbalancedTransfers now fund limit = []) ∧
    (∀ env fundId periodId closedBy x,
      (closePeriod env fundId periodId closedBy now).1 ≠ .error (Books.doesNotReconcile x)) := by
  have hb : Books (afterCalls db calls) := h.books_afterCalls calls
  exact ⟨hb.transfer_books, hb.totalImbalance_eq_zero, hb.fundImbalance_eq_zero,
    hb.periodImbalance_eq_zero, hb.unbalancedTransfers_eq_nil, hb.closePeriod_ne⟩

/-- The run of one capital call posts one transfer, and its four entries sum
to zero. -/
theorem trialBalance_callOf100 :
    (afterCalls buildPeFund [callOf100]).transfers.rows.length = 1 ∧
    (afterCalls buildPeFund [callOf100]).entries.rows.length = 4 ∧
    totalImbalance (afterCalls buildPeFund [callOf100]) = 0 :=
  ⟨by decide +kernel, by decide +kernel, (trialBalance genesis_buildPeFund [callOf100]).2.1⟩

end FundLedger
