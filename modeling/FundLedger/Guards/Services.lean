import FundLedger.Guards.Ledger
import FundLedger.Concurrency.Overdraft
import FundLedger.Operations.ClosedStatements

/-!
# The services under the guards

The role of the application can do its whole job.  Each change that a service
makes to the four tables is one transaction under `applyGrants`: no statement
of it is refused, and every check passes.  So the committed states of the
services, however they run, are those of guarded connections, and no row of a
period is ever deleted (`app_role_suffices`).
-/

namespace FundLedger.Guards

open Lib Relation

/-- The stored periods satisfy `period_end_not_before_start`. -/
def DatesInOrder (db : Db) : Prop := ∀ p ∈ db.periods, p.startDate ≤ p.endDate

/-! ## The statements of a posting -/

section

variable {T : Tables} {u : Txn} {t : Transfer} {p : Period} {e : Entry} {es : List Entry}

theorem assertPeriodOpen_of (hfind : T.transfers.find? (fun x => x.id = t.id) = some t)
    (hperiod : T.periods t.period = some p) (hopen : p.status = .OPEN) :
    assertPeriodOpen T t.id = .ok t.period := by
  simp only [assertPeriodOpen, except_bind_ok, orRaise_eq_ok, require_eq_ok, except_pure]
  exact ⟨t, hfind, p, hperiod, (), hopen, rfl⟩

/-- What inserting an entry does. -/
def entryEffect (period : Uuid) (e : Entry) : Effect where
  changes := { entries := [e] }
  locks := [(.period period, .share)]
  checks := [.balance e.transfer, .present (.account e.account e.currency)]

theorem apply_add_entry (T : Tables) (u : Txn) (period : Uuid) (e : Entry) :
    (T.apply (u.add (entryEffect period e)).changes).transfers = (T.apply u.changes).transfers ∧
    (T.apply (u.add (entryEffect period e)).changes).periods = (T.apply u.changes).periods := by
  simp [Txn.add, entryEffect, Changes.append, Tables.apply]

theorem execute_entry (hfind : (T.apply u.changes).transfers.find? (fun x => x.id = t.id) = some t)
    (hperiod : (T.apply u.changes).periods t.period = some p) (hopen : p.status = .OPEN)
    (htransfer : e.transfer = t.id) (hchecked : checkEntry e = .ok ()) :
    u.execute applyGrants T (.insertEntry e) = .ok (u.add (entryEffect t.period e)) := by
  have hassert : assertPeriodOpen (T.apply u.changes) e.transfer = .ok t.period :=
    htransfer ▸ assertPeriodOpen_of hfind hperiod hopen
  simp only [Txn.execute, Statement.run, except_bind_ok, except_pure, checkGranted, require_eq_ok]
  exact ⟨_, ⟨(), rfl, t.period, hassert, (), hchecked, rfl⟩, rfl⟩

/-- The entries of one transfer. -/
theorem execute_entries
    (hfind : (T.apply u.changes).transfers.find? (fun x => x.id = t.id) = some t)
    (hperiod : (T.apply u.changes).periods t.period = some p) (hopen : p.status = .OPEN)
    (hes : ∀ e ∈ es, e.transfer = t.id ∧ checkEntry e = .ok ()) :
    ∃ v, (es.map Statement.insertEntry).foldlM (Txn.execute applyGrants T) u = .ok v ∧
      v.changes = { u.changes with entries := u.changes.entries ++ es } ∧
      ∀ c ∈ v.pending, c ∈ u.pending ∨ c = .balance t.id ∨
        ∃ e ∈ es, c = .present (.account e.account e.currency) := by
  induction es generalizing u with
  | nil => exact ⟨u, rfl, by simp, fun c hc => .inl hc⟩
  | cons e es ih =>
    obtain ⟨htransfer, hchecked⟩ := hes e List.mem_cons_self
    have hfirst := execute_entry hfind hperiod hopen htransfer hchecked
    obtain ⟨htransfers, hperiods⟩ := apply_add_entry T u t.period e
    obtain ⟨v, hv, hchanges, hpending⟩ := ih (u := u.add (entryEffect t.period e))
      (by rw [htransfers]; exact hfind) (by rw [hperiods]; exact hperiod)
      fun f hf => hes f (List.mem_cons_of_mem _ hf)
    refine ⟨v, ?_, ?_, fun c hc => ?_⟩
    · rw [List.map_cons, List.foldlM_cons, hfirst]
      exact hv
    · rw [hchanges]
      simp [Txn.add, entryEffect, Changes.append]
    · rcases hpending c hc with hold | rfl | ⟨f, hf, rfl⟩
      · rcases List.mem_append.mp hold with hold | hnew
        · exact .inl hold
        · have hcases : c = .balance e.transfer ∨ c = .present (.account e.account e.currency) := by
            simpa [entryEffect] using hnew
          rcases hcases with rfl | rfl
          · exact .inr (.inl (by rw [htransfer]))
          · exact .inr (.inr ⟨e, List.mem_cons_self, rfl⟩)
      · exact .inr (.inl rfl)
      · exact .inr (.inr ⟨f, List.mem_cons_of_mem _ hf, rfl⟩)

end

/-! ## Each change is a transaction -/

section

variable {Q : Db → Posting → Prop} {db db' : Db}

/-- Something that a transaction does to the tables, without a deletion. -/
def Transacted (T T' : Tables) : Prop :=
  ∃ stmts c, transact applyGrants T stmts = .ok c ∧ T.apply c = T' ∧ c.deleted = []

theorem transacted_refl (T : Tables) : Transacted T T :=
  ⟨[], {}, rfl, T.apply_none, rfl⟩

theorem transacted_posted {env : Env} {a : Posting} {es : List Entry}
    (posted : Posted env a db db' es) : Transacted (.ofDb db) (.ofDb db') := by
  obtain ⟨transfers, entries, htransfers, hentries, rfl⟩ := posted.appended
  obtain ⟨p, hp, hid, hopen⟩ := posted.period_open
  let t := transferFor env a
  let u : Txn := Txn.add {} ⟨{ transfers := [t] }, [(.transfer t.id, .update)],
    [.present (.period t.period)]⟩
  have hperiod : db.periods.get? t.period = some p := Table.get?_eq_some.mpr ⟨hp, hid⟩
  have hinsert : Txn.execute applyGrants (.ofDb db) {} (.insertTransfer t) = .ok u := by
    simp only [Txn.execute, Statement.run, except_bind_ok, except_pure, checkGranted, checkTransfer,
      require_eq_ok, Tables.apply_none]
    exact ⟨_, ⟨(), rfl, (), ⟨(), posted.key_present, (), posted.reverses_type,
      posted.reversal_target⟩, (), posted.id_fresh, rfl⟩, rfl⟩
  have happly : Tables.apply (.ofDb db) u.changes =
      ⟨db.periods.get?, db.accounts.get?, db.transfers.rows ++ [t], db.entries.rows⟩ := by
    simp [u, Txn.add, Changes.append, Tables.apply, Tables.ofDb]
  have hfind : (Tables.apply (.ofDb db) u.changes).transfers.find? (fun x => x.id = t.id) =
      some t := by
    have hnone : db.transfers.rows.find? (fun x => decide (x.id = t.id)) = none := by
      rw [List.find?_eq_none]
      intro x hx
      simpa using posted.id_fresh x hx
    rw [happly]
    simp [List.find?_append, hnone]
  obtain ⟨v, hv, hchanges, hpending⟩ := execute_entries hfind
    (by rw [happly]; exact hperiod) hopen fun e he => by
      obtain ⟨hamount, hbase, hiso, hrate, -⟩ := posted.accepted e he
      refine ⟨posted.entry_transfer he, ?_⟩
      simp only [checkEntry, except_bind_ok, require_eq_ok]
      exact ⟨(), hamount, (), hbase, (), hiso, hrate⟩
  have hafter : Tables.apply (.ofDb db) v.changes = .ofDb { db with transfers, entries } := by
    rw [hchanges]
    simp [u, Txn.add, Changes.append, Tables.apply, Tables.ofDb, htransfers, hentries, t]
  refine ⟨.insertTransfer t :: es.map .insertEntry, v.changes, ?_, hafter, ?_⟩
  · simp only [transact, List.foldlM_cons, except_bind_ok, except_pure]
    refine ⟨v, ⟨u, hinsert, hv⟩, (), ?_, rfl⟩
    rw [hafter]
    refine forM_except_ok.mpr fun c hc => ?_
    rcases hpending c hc with hold | rfl | ⟨e, he, rfl⟩
    · obtain rfl : c = .present (.period t.period) := by simpa [u, Txn.add] using hold
      simp only [Check.run, require_eq_ok]
      show (db.periods.get? t.period).isSome
      rw [hperiod]
      rfl
    · simp only [Check.run, require_eq_ok]
      exact posted.balanced
    · obtain ⟨-, -, -, -, account, hmem, haccount, hcurrency⟩ := posted.accepted e he
      simp only [Check.run, require_eq_ok]
      show (db.accounts.get? e.account).map Account.currency = some e.currency
      rw [Table.get?_eq_some.mpr ⟨hmem, haccount⟩, ← hcurrency]
      rfl
  · rw [hchanges]
    rfl

theorem transacted_accountOpened {a : Account} (inserted : insertAccount db a = .ok db') :
    Transacted (.ofDb db) (.ofDb db') := by
  obtain ⟨-, hiso, howner, -, -, accounts, hinsert, rfl⟩ := insertAccount_ok inserted
  have hnone : db.accounts.get? a.id = none :=
    Table.get?_eq_none.mpr (Table.insert_eq_some.mp hinsert).1
  refine ⟨[.insertAccount a], { accounts := [(a.id, some a)] }, ?_, ?_, rfl⟩
  · simp only [transact, List.foldlM_cons, List.foldlM_nil, Txn.execute, Statement.run,
      except_bind_ok, except_pure, checkGranted, checkAccount, require_eq_ok, Tables.apply_none]
    exact ⟨_, ⟨_, ⟨_, ⟨(), rfl, (), ⟨(), hiso, howner⟩, (), hnone, rfl⟩, rfl⟩, rfl⟩, (), rfl, rfl⟩
  · have haccounts : Function.update db.accounts.get? a.id (some a) = accounts.get? := by
      funext id
      rw [Table.get?_insert hinsert]
      by_cases hid : id = a.id
      · simp [hid]
      · rw [Function.update_of_ne hid, if_neg (Ne.symm hid)]
    simp [Tables.apply, Tables.ofDb, overlay_cons, haccounts]

theorem transacted_periodClosed {id : Uuid} {now : Timestamp} {closedBy : String}
    (dates : DatesInOrder db) (updated : updatePeriod db id now closedBy = .ok db') :
    Transacted (.ofDb db) (.ofDb db') := by
  obtain ⟨hopen, rfl⟩ := updatePeriod_ok updated
  cases hget : db.periods.get? id with
  | none =>
    -- the `UPDATE` hits no row
    have hsame : (db.periods.update (fun p => p.id = id) (·.close now closedBy)
        (Period.close_id now closedBy)).get? = db.periods.get? := by
      funext k
      rw [Table.get?_update]
      cases hk : db.periods.get? k with
      | none => rfl
      | some p =>
        obtain ⟨hp, rfl⟩ := Table.get?_eq_some.mp hk
        have hne : p.id ≠ id := Table.get?_eq_none.mp hget p hp
        simp [hne]
    have hrefl := transacted_refl (.ofDb db)
    simp only [Tables.ofDb] at hrefl ⊢
    rw [hsame]
    exact hrefl
  | some p =>
    obtain ⟨hp, rfl⟩ := Table.get?_eq_some.mp hget
    have hrow : (p.close now closedBy).id = p.id := rfl
    refine ⟨[.updatePeriod p.id (p.close now closedBy)],
      { periods := [(p.id, some (p.close now closedBy))] }, ?_, ?_, rfl⟩
    · have hrun : Statement.run applyGrants (.ofDb db) (.updatePeriod p.id (p.close now closedBy)) =
          .ok { changes := { periods := [(p.id, some (p.close now closedBy))] }
                locks := [(.period p.id, .noKeyUpdate)] } := by
        have hold : (Tables.ofDb db).periods p.id = some p := hget
        simp only [Statement.run, hold, hrow, if_true, except_bind_ok, except_pure, checkGranted,
          forbidPeriodReopen, checkPeriod, require_eq_ok]
        exact ⟨(), rfl, (), hopen p hp rfl, (), ⟨(), dates p hp, by simp [Period.close]⟩, trivial⟩
      simp only [transact, List.foldlM_cons, List.foldlM_nil, Txn.execute, except_bind_ok,
        except_pure, Tables.apply_none]
      exact ⟨_, ⟨_, ⟨_, hrun, rfl⟩, rfl⟩, (), rfl, rfl⟩
    · have hperiods : Function.update db.periods.get? p.id (some (p.close now closedBy)) =
          (db.periods.update (fun q => q.id = p.id) (·.close now closedBy)
            (Period.close_id now closedBy)).get? := by
        funext k
        rw [Table.get?_update]
        by_cases hk : k = p.id
        · subst hk
          simp [hget]
        · rw [Function.update_of_ne hk]
          cases hq : db.periods.get? k with
          | none => rfl
          | some q =>
            obtain ⟨-, rfl⟩ := Table.get?_eq_some.mp hq
            simp [hk]
      simp [Tables.apply, Tables.ofDb, overlay_cons, hperiods]

/-- **Each change** of the services is a transaction. -/
theorem Change.transacted (h : Change Q db db') (dates : DatesInOrder db) :
    Transacted (.ofDb db) (.ofDb db') := by
  cases h with
  | posted known held posted => exact transacted_posted posted
  | accountOpened inserted => exact transacted_accountOpened inserted
  | capitalCall inserted =>
    obtain ⟨-, -, calls, -, rfl⟩ := insertCapitalCall_ok inserted
    exact transacted_refl _
  | distribution inserted =>
    obtain ⟨-, -, dists, -, rfl⟩ := insertDistribution_ok inserted
    exact transacted_refl _
  | periodClosed updated => exact transacted_periodClosed dates updated

theorem DatesInOrder.change (h : DatesInOrder db) (hc : Change Q db db') : DatesInOrder db' := by
  rcases hc.periods_cases with heq | ⟨period, now, closedBy, updated⟩
  · unfold DatesInOrder
    rw [heq]
    exact h
  · obtain ⟨-, rfl⟩ := updatePeriod_ok updated
    intro p hp
    have hmem : p ∈ db.periods.update (fun p => p.id = period) (·.close now closedBy)
        (Period.close_id now closedBy) := hp
    obtain ⟨q, hq, rfl⟩ := Table.mem_update.mp hmem
    have hdates := h q hq
    split
    · exact hdates
    · exact hdates

variable {P : Type} [DecidableEq P] [Nonempty P]

theorem Transacted.run {T T' : Tables} (h : Transacted T T') :
    (connections applyGrants).Run (freshConnections T : Sessions P Server Connection)
      (freshConnections T') := by
  obtain ⟨stmts, c, hok, rfl, hdeleted⟩ := h
  have hrun := run_transact (P := P) [] hok
  rw [hdeleted] at hrun
  exact hrun

/-- A sequence of changes is a run of guarded connections. -/
theorem run_changes (h : FundLedger.Changes Q db db') (dates : DatesInOrder db) :
    (connections applyGrants).Run (freshConnections (.ofDb db) : Sessions P Server Connection)
      (freshConnections (.ofDb db')) ∧ DatesInOrder db' := by
  induction h with
  | refl => exact ⟨.refl, dates⟩
  | tail _ hlast ih => exact ⟨ih.1.trans (Change.transacted hlast ih.2).run, ih.2.change hlast⟩

end

/-- **The role of the application can do its whole job.**  What concurrent
services commit, connections of that role commit under the guards, in
transactions of which no statement is refused, and without deleting a period. -/
theorem app_role_suffices {P R : Type} [DecidableEq P] [DecidableEq R] [Nonempty R]
    {Q : Db → Posting → Prop} {start : Db} {clock : Timestamp} {s : Sessions P World Session}
    (genesis : Genesis start) (dates : DatesInOrder start)
    (hQ : ∀ db a, Q db a → Holds db a.period)
    (hrun : (services Q).Run (freshSessions start clock) s) :
    (connections applyGrants).Run
      (freshConnections (.ofDb start) : Sessions R Server Connection)
      (freshConnections (.ofDb s.shared.db)) := by
  have hserial := (concurrent_serial genesis.funded.linked hrun).shared.serial
  exact (run_changes (hserial.changes hQ) dates).1

/-- The deposit, as the services commit it. -/
theorem app_role_suffices_depositOf100 :
    (afterSteps 9 depositBegun).1.db.transfers.rows.length = 1 ∧
    (connections applyGrants).Run
      (freshConnections (.ofDb buildPeFund) : Sessions Unit Server Connection)
      (freshConnections (.ofDb (afterSteps 9 depositBegun).1.db)) := by
  have hheld : Holds buildPeFund depositOf100.period :=
    ⟨h1, show h1 ∈ buildPeFund.periods.rows by decide +kernel, rfl, rfl⟩
  have hdates : DatesInOrder buildPeFund :=
    show ∀ p ∈ buildPeFund.periods.rows, p.startDate ≤ p.endDate by decide +kernel
  have hsteps : (steps 9 depositBegun).isSome := by decide +kernel
  have hrun := run_deposit (Q := fun db a => Holds db a.period) hheld hsteps
  exact ⟨by decide +kernel,
    app_role_suffices genesis_buildPeFund hdates (fun _ _ h => h) hrun⟩

end FundLedger.Guards
