import FundLedger.Guards.Connections
import FundLedger.Operations.Factories

/-!
# What the database alone guarantees

Three results about any number of connections that issue any statements.

* `balanced_and_appended`: every committed transfer balances, and a committed
  transfer or entry stays as it is.
* `references_hold`: every transfer is in a period that exists, and every entry
  in an account that exists and has the currency of the entry.
* `closed_until_deleted`: a closed period stays closed, with its entries, until
  a transaction deletes its row.  `reopened_by_deletion` shows that the role of
  the application may do that, and write an open row with the same id.

`transact` runs a transaction that nobody is in the way of.
-/

namespace FundLedger.Guards

open Lib Relation

section

variable {P : Type} [DecidableEq P] {grants : Grants} {T : Tables}
  {s s' : Sessions P Server Connection}

/-! ## A transaction on its own -/

def Txn.execute (grants : Grants) (T : Tables) (u : Txn) (stmt : Statement) :
    Except SqlError Txn := do
  let eff ← stmt.run grants (T.apply u.changes)
  return u.add eff

/-- Some statements, all checks, and the commit. -/
def transact (grants : Grants) (T : Tables) (stmts : List Statement) : Except SqlError Changes := do
  let u ← stmts.foldlM (Txn.execute grants T) {}
  u.pending.forM (Check.run (T.apply u.changes))
  return u.changes

/-- Everybody but `p` is idle. -/
def onlyOn (p : P) (x : Server) (c : Connection) : Sessions P Server Connection :=
  ⟨x, Function.update (fun _ => {}) p c⟩

theorem free_onlyOn (p : P) (x : Server) (c : Connection) (l : RowId × RowLock) :
    (connections grants).Free (onlyOn p x c).locals p l := by
  intro q hq m hm
  simp only [onlyOn, Function.update_of_ne hq] at hm
  obtain ⟨u, hu, hmem⟩ := hm
  rw [txns_none hu] at hmem
  cases hmem

theorem step_onlyOn {p : P} {x x' : Server} {c c' : Connection}
    (moved : ConnectionMove grants (fun _ => True) x c x' c') :
    (connections grants).Step (onlyOn p x c) (onlyOn p x' c') := by
  have hmoved : (connections grants).move ((connections grants).Free (onlyOn p x c).locals p)
      x c x' c' := by
    cases moved with
    | execute stmt ran _ => exact .execute stmt ran fun l _ => free_onlyOn p x _ l
    | check d next passed _ => exact .check d next passed fun l _ => free_onlyOn p x _ l
    | savepoint name => exact .savepoint name
    | rollbackTo name => exact .rollbackTo name
    | release name => exact .release name
    | commit checked => exact .commit checked
    | rollback => exact .rollback
  have hlocal : (onlyOn p x c).locals p = c := by simp [onlyOn]
  have hstep : (connections grants).Step (onlyOn p x c)
      ⟨x', Function.update (onlyOn p x c).locals p c'⟩ := by
    apply Protocol.Step.move
    rw [hlocal]
    exact hmoved
  simpa [onlyOn] using hstep

theorem run_statements {p : P} {x : Server} {u v : Txn} {stmts : List Statement}
    (h : stmts.foldlM (Txn.execute grants x.tables) u = .ok v) :
    (connections grants).Run (onlyOn p x ⟨u, []⟩) (onlyOn p x ⟨v, []⟩) := by
  induction stmts generalizing u with
  | nil =>
    cases h
    exact .refl
  | cons stmt stmts ih =>
    rw [List.foldlM_cons, except_bind_ok] at h
    obtain ⟨w, hw, hrest⟩ := h
    simp only [Txn.execute, except_bind_ok, except_pure] at hw
    obtain ⟨eff, hran, rfl⟩ := hw
    exact .head (step_onlyOn (.execute stmt hran fun _ _ => trivial)) (ih hrest)

/-- All checks, in the order in which they were left. -/
theorem run_checks {p : P} {x : Server} {u : Txn}
    (h : u.pending.forM (Check.run (x.tables.apply u.changes)) = .ok ()) :
    ∃ v : Txn, v.changes = u.changes ∧ v.pending = [] ∧
      (connections grants).Run (onlyOn p x ⟨u, []⟩) (onlyOn p x ⟨v, []⟩) := by
  obtain ⟨changes, locks, pending⟩ := u
  dsimp only at h
  induction pending generalizing locks with
  | nil => exact ⟨_, rfl, rfl, .refl⟩
  | cons c todo ih =>
    rw [List.forM_eq_forM, List.forM_cons, except_bind_ok] at h
    obtain ⟨⟨⟩, hpassed, hrest⟩ := h
    obtain ⟨v, hchanges, hpending, hrun⟩ := ih (locks ++ c.locks) hrest
    refine ⟨v, hchanges, hpending, .head (step_onlyOn ?_) hrun⟩
    exact .check (s := x) (u := ⟨changes, locks, c :: todo⟩) c (List.nil_append _).symm hpassed
      fun _ _ => trivial

theorem onlyOn_idle (p : P) (x : Server) : onlyOn p x {} = ⟨x, fun _ => {}⟩ := by
  simp [onlyOn]

/-- What `transact` computes is a run. -/
theorem run_transact [Nonempty P] (ds : List Uuid) {stmts : List Statement} {c : Changes}
    (h : transact grants T stmts = .ok c) :
    (connections grants).Run (⟨⟨T, ds⟩, fun _ => {}⟩ : Sessions P Server Connection)
      ⟨⟨T.apply c, ds ++ c.deleted⟩, fun _ => {}⟩ := by
  have p : P := Classical.arbitrary P
  simp only [transact, except_bind_ok, except_pure] at h
  obtain ⟨u, hu, ⟨⟩, hchecks, rfl⟩ := h
  obtain ⟨v, hchanges, hpending, hrun⟩ : ∃ v : Txn, v.changes = u.changes ∧ v.pending = [] ∧
      (connections grants).Run (onlyOn p ⟨T, ds⟩ ⟨u, []⟩) (onlyOn p ⟨T, ds⟩ ⟨v, []⟩) :=
    run_checks (x := ⟨T, ds⟩) hchecks
  rw [← onlyOn_idle p, ← onlyOn_idle p, ← hchanges]
  exact ((run_statements (x := ⟨T, ds⟩) hu).trans hrun).tail (step_onlyOn (.commit hpending))

/-! ## Balanced, and for good -/

/-- A committed transfer or entry stays as it is. -/
theorem appended_step (hstep : (connections grants).Step s s') :
    s.shared.tables.transfers <+: s'.shared.tables.transfers ∧
    s.shared.tables.entries <+: s'.shared.tables.entries := by
  cases hstep with
  | environment changed => exact changed.elim
  | @move p x c moved =>
    obtain ⟨⟨T, ds⟩, locals⟩ := s
    dsimp only at moved ⊢
    generalize locals p = c₀ at moved
    cases moved with
    | commit checked => exact ⟨List.prefix_append _ _, List.prefix_append _ _⟩
    | _ => exact ⟨List.prefix_refl _, List.prefix_refl _⟩

theorem appended (hrun : (connections grants).Run s s') :
    s.shared.tables.transfers <+: s'.shared.tables.transfers ∧
    s.shared.tables.entries <+: s'.shared.tables.entries := by
  induction hrun with
  | refl => exact ⟨List.prefix_refl _, List.prefix_refl _⟩
  | tail _ hlast ih =>
    have hstep := appended_step hlast
    exact ⟨ih.1.trans hstep.1, ih.2.trans hstep.2⟩

/-- **The database alone keeps the books**: whatever the role, the statements,
the savepoints and the order, every committed transfer balances, and nothing
that was committed to the ledger changes or goes away. -/
theorem balanced_and_appended (intact : T.Intact)
    (hrun : (connections grants).Run (freshConnections T) s)
    (hlater : (connections grants).Run s s') :
    (∀ t, s.shared.tables.imbalance t = 0) ∧
    s.shared.tables.transfers <+: s'.shared.tables.transfers ∧
    s.shared.tables.entries <+: s'.shared.tables.entries :=
  ⟨(guarded_run intact hrun).shared.balanced, appended hlater⟩

/-! ## References -/

/-- **References hold**, whatever is done to the periods and the accounts. -/
theorem references_hold (intact : T.Intact)
    (hrun : (connections grants).Run (freshConnections T) s) :
    (∀ t ∈ s.shared.tables.transfers, (s.shared.tables.periods t.period).isSome) ∧
    ∀ e ∈ s.shared.tables.entries,
      (∃ t ∈ s.shared.tables.transfers, t.id = e.transfer) ∧
      ∃ a, s.shared.tables.accounts e.account = some a ∧ a.currency = e.currency := by
  have hintact := (guarded_run intact hrun).shared
  constructor
  · intro t ht
    exact hintact.refs (.period t.period) ⟨t, ht, rfl⟩
  · intro e he
    refine ⟨hintact.entries e he, ?_⟩
    exact Option.map_eq_some_iff.mp (hintact.refs (.account e.account e.currency) ⟨e, he, rfl, rfl⟩)

/-! ## Closed periods -/

/-- The period has the row that it had, and new entries are not for it. -/
structure Kept (id : Uuid) (T T' : Tables) : Prop where
  row : T'.periods id = T.periods id
  transfers : T.transfers <+: T'.transfers
  entries : ∃ more, T'.entries = T.entries ++ more ∧
    ∀ e ∈ more, ∃ t ∈ T'.transfers, t.id = e.transfer ∧ t.period ≠ id

theorem Kept.refl (id : Uuid) (T : Tables) : Kept id T T :=
  ⟨rfl, List.prefix_refl _, [], (List.append_nil _).symm, fun e he => by cases he⟩

theorem Kept.trans {id : Uuid} {T T' T'' : Tables} (h : Kept id T T') (h' : Kept id T' T'') :
    Kept id T T'' := by
  obtain ⟨more, hmore, helsewhere⟩ := h.entries
  obtain ⟨more', hmore', helsewhere'⟩ := h'.entries
  refine ⟨h'.row.trans h.row, h.transfers.trans h'.transfers, more ++ more', ?_, fun e he => ?_⟩
  · rw [hmore', hmore, List.append_assoc]
  · rcases List.mem_append.mp he with hold | hnew
    · obtain ⟨t, ht, hid⟩ := helsewhere e hold
      exact ⟨t, h'.transfers.subset ht, hid⟩
    · exact helsewhere' e hnew

/-- A commit that does not delete the row of a closed period. -/
theorem Txn.Guarded.kept {u : Txn} {id : Uuid} (h : u.Guarded T) (closed : T.Closed id)
    (hkept : id ∉ u.changes.deleted) : Kept id T (T.apply u.changes) := by
  refine ⟨overlay_of_not_mem fun hid => ?_, List.prefix_append _ _, u.changes.entries, rfl,
    fun e he => ?_⟩
  · exact hkept ((h.covered.periods id hid).closed closed)
  · obtain ⟨t, ht, hid, htouch⟩ := h.covered.entries e he
    refine ⟨t, ht, hid, fun heq => ?_⟩
    subst heq
    exact hkept (htouch.closed closed)

theorem Tables.Closed.kept {id : Uuid} {T' : Tables} (h : T.Closed id) (kept : Kept id T T') :
    T'.Closed id := by
  obtain ⟨p, hp, hstatus⟩ := h
  exact ⟨p, kept.row.trans hp, hstatus⟩

theorem kept_step {id : Uuid} (hs : ∀ p, ∀ u ∈ (s.locals p).txns, u.Guarded s.shared.tables)
    (closed : s.shared.tables.Closed id) (hstep : (connections grants).Step s s') :
    ∃ more, s'.shared.deleted = s.shared.deleted ++ more ∧
      (id ∉ more → Kept id s.shared.tables s'.shared.tables) := by
  cases hstep with
  | environment changed => exact changed.elim
  | @move p x c moved =>
    have hp := hs p
    obtain ⟨⟨T, ds⟩, locals⟩ := s
    dsimp only at moved hp closed ⊢
    generalize locals p = c₀ at moved hp
    cases moved with
    | @commit u sps checked =>
      exact ⟨_, rfl, fun hkept => (hp u List.mem_cons_self).kept closed hkept⟩
    | _ => exact ⟨[], (List.append_nil _).symm, fun _ => .refl id T⟩

theorem kept_run {id : Uuid} (intact : T.Intact)
    (hrun : (connections grants).Run (freshConnections T) s)
    (closed : s.shared.tables.Closed id) (hlater : (connections grants).Run s s') :
    ∃ more, s'.shared.deleted = s.shared.deleted ++ more ∧
      (id ∉ more → Kept id s.shared.tables s'.shared.tables) := by
  induction hlater with
  | refl => exact ⟨[], (List.append_nil _).symm, fun _ => .refl id _⟩
  | @tail b c hbefore hlast ih =>
    obtain ⟨more, hdeleted, hkept⟩ := ih
    by_cases hid : id ∈ more
    · -- the row was deleted earlier
      obtain ⟨more', hdeleted'⟩ : ∃ more', c.shared.deleted = b.shared.deleted ++ more' := by
        cases hlast with
        | environment changed => exact changed.elim
        | @move p x c moved =>
          obtain ⟨⟨T', ds⟩, locals⟩ := b
          dsimp only at moved ⊢
          generalize locals p = c₀ at moved
          cases moved with
          | commit checked => exact ⟨_, rfl⟩
          | _ => exact ⟨[], (List.append_nil _).symm⟩
      refine ⟨more ++ more', by rw [hdeleted', hdeleted, List.append_assoc], fun hnot => ?_⟩
      exact absurd (List.mem_append_left _ hid) hnot
    · have hb := (guarded_run intact (hrun.trans hbefore)).each
      obtain ⟨more', hdeleted', hkept'⟩ := kept_step hb (closed.kept (hkept hid)) hlast
      refine ⟨more ++ more', by rw [hdeleted', hdeleted, List.append_assoc], fun hnot => ?_⟩
      exact (hkept hid).trans (hkept' fun h => hnot (List.mem_append_right _ h))

/-- **Closed until deleted.**  Unless a transaction that deletes the row of a
closed period commits, the row stays as it is, and every transfer of the period
keeps the entries that it has. -/
theorem closed_until_deleted {id : Uuid} (intact : T.Intact)
    (hrun : (connections grants).Run (freshConnections T) s)
    (closed : s.shared.tables.Closed id) (hlater : (connections grants).Run s s')
    (kept : id ∉ s'.shared.deleted.drop s.shared.deleted.length) :
    s'.shared.tables.periods id = s.shared.tables.periods id ∧
    ∀ t ∈ s'.shared.tables.transfers, t.period = id →
      group Entry.transfer t.id s'.shared.tables.entries =
        group Entry.transfer t.id s.shared.tables.entries := by
  obtain ⟨more, hdeleted, hkept⟩ := kept_run intact hrun closed hlater
  have hk : Kept id s.shared.tables s'.shared.tables := by
    apply hkept
    rwa [hdeleted, List.drop_left] at kept
  obtain ⟨new, hnew, helsewhere⟩ := hk.entries
  refine ⟨hk.row, fun t ht hperiod => ?_⟩
  rw [hnew, group_append, group_eq_nil (l := new), List.append_nil]
  intro e he heq
  obtain ⟨t', ht', hid', hperiod'⟩ := helsewhere e he
  have hunique := (guarded_run intact (hrun.trans hlater)).shared.unique
  have hsame : t' = t := List.inj_on_of_nodup_map hunique ht' ht (hid'.trans heq)
  exact hperiod' (hsame ▸ hperiod)

end

/-! ## A closed period, and the same one reopened -/

theorem intact_ofDb {db : Db} (genesis : Genesis db) : (Tables.ofDb db).Intact where
  balanced t := by
    show imbalanceOf db.entries.rows t = 0
    rw [genesis.entries]
    rfl
  unique := db.transfers.nodup
  refs r hr := by
    have huses : r.UsedBy db.transfers.rows db.entries.rows := hr
    rw [genesis.transfers, genesis.entries] at huses
    exact absurd huses not_usedBy_nil
  entries e he := by
    have hmem : e ∈ db.entries.rows := he
    rw [genesis.entries] at hmem
    cases hmem

def depositRow : Transfer where
  id := 1001
  idempotencyKey := "deposit"
  requestHash := .blank
  transferType := .ADJUSTMENT
  reverses := none
  period := 21
  description := []
  createdBy := ""
  createdAt := 1

def depositEntry (id account : Uuid) (direction : Direction) : Entry where
  id
  transfer := 1001
  account
  direction
  amount := 1000000
  currency := "GBP"
  fxRate := none
  baseAmount := 1000000
  createdAt := 1

/-- A deposit of 100, and the period closed after it. -/
def depositAndClose : List Statement := [
  .insertTransfer depositRow,
  .insertEntry (depositEntry 1201 100 .DEBIT),
  .insertEntry (depositEntry 1202 104 .CREDIT),
  .updatePeriod 21 (h1.close 5 "controller")]

def depositAndCloseChanges : Changes where
  periods := [(21, some (h1.close 5 "controller"))]
  transfers := [depositRow]
  entries := [depositEntry 1201 100 .DEBIT, depositEntry 1202 104 .CREDIT]

/-- The tables after the deposit. -/
def closedTables : Tables := (Tables.ofDb buildPeFund).apply depositAndCloseChanges

theorem closed_closedTables : closedTables.Closed 21 :=
  ⟨h1.close 5 "controller", rfl, rfl⟩

theorem run_depositAndClose :
    (connections applyGrants).Run (freshConnections (Tables.ofDb buildPeFund))
      (⟨⟨closedTables, []⟩, fun _ => {}⟩ : Sessions Unit Server Connection) := by
  have hok : transact applyGrants (Tables.ofDb buildPeFund) depositAndClose =
      .ok depositAndCloseChanges := by
    decide +kernel
  exact run_transact [] hok

/-- A transfer without entries is let into the closed period. -/
def laterChanges : Changes where
  transfers := [{ depositRow with id := 1002, idempotencyKey := "later" }]

theorem run_later :
    (connections applyGrants).Run (⟨⟨closedTables, []⟩, fun _ => {}⟩ : Sessions Unit Server Connection)
      ⟨⟨closedTables.apply laterChanges, []⟩, fun _ => {}⟩ := by
  have hok : transact applyGrants closedTables
      [.insertTransfer { depositRow with id := 1002, idempotencyKey := "later" }] =
      .ok laterChanges := by
    decide +kernel
  exact run_transact [] hok

/-- The deposit is balanced, and still there later. -/
theorem balanced_and_appended_deposit : closedTables.imbalance 1001 = 0 ∧
    closedTables.transfers <+: (closedTables.apply laterChanges).transfers := by
  have hresult := balanced_and_appended (intact_ofDb genesis_buildPeFund) run_depositAndClose
    run_later
  exact ⟨hresult.1 1001, hresult.2.1⟩

/-- The entries of the deposit are in accounts of their currency. -/
theorem references_hold_deposit :
    ∃ a, closedTables.accounts 100 = some a ∧ a.currency = "GBP" :=
  ((references_hold (intact_ofDb genesis_buildPeFund) run_depositAndClose).2
    (depositEntry 1201 100 .DEBIT) (by decide +kernel)).2

/-- The deposit keeps its entries while nothing is deleted. -/
theorem closed_until_deleted_deposit :
    (closedTables.apply laterChanges).periods 21 = closedTables.periods 21 ∧
    group Entry.transfer 1001 (closedTables.apply laterChanges).entries =
      group Entry.transfer 1001 closedTables.entries := by
  have hresult := closed_until_deleted (intact_ofDb genesis_buildPeFund) run_depositAndClose
    closed_closedTables run_later (by decide)
  exact ⟨hresult.1, hresult.2 depositRow (by decide +kernel) rfl⟩

/-- The row of the closed period, deleted and written again. -/
def reopening : List Statement := [.deletePeriod 21, .insertPeriod h1]

/-- The role of the application can reopen a closed period that has entries:
the foreign key is not checked until the id is back. -/
theorem reopened_by_deletion : ∃ s : Sessions Unit Server Connection,
    (connections applyGrants).Run (⟨⟨closedTables, []⟩, fun _ => {}⟩) s ∧
    ∃ p, s.shared.tables.periods 21 = some p ∧ p.status = .OPEN := by
  have hok : transact applyGrants closedTables reopening =
      .ok { periods := [(21, none), (21, some h1)] } := by
    decide +kernel
  exact ⟨_, run_transact [] hok, h1, rfl, rfl⟩

end FundLedger.Guards
