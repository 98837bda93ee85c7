import FundLedger.Lib.Transactions
import FundLedger.Lib.Interleaving
import FundLedger.Database

/-!
# What the database itself guards

The triggers of migrations 0002 and 0003, the foreign keys under them and the
grants of `db_roles.py`, against any statements whatever: an `INSERT`,
`UPDATE` or `DELETE` of any row of the periods, the accounts, the transfers and
the entries, in any order, from any number of connections, with savepoints.
Here nobody goes through the services.

`Statement.run` is one statement with its `BEFORE` triggers and its `CHECK`
constraints.  It says which rows change, which rows are locked, and which
checks are left for later: the balance of a transfer, and the foreign keys.  A
check may be run at any time before the commit, which is what `SET CONSTRAINTS`
decides on the server.  A refused statement has no effect.

An index other than that of a primary key, and a foreign key of another table,
can only refuse a statement; they are left out.
-/

namespace FundLedger.Guards

open Lib

/-! ## Tables -/

/-- The four tables.  Nothing is ever removed from the last two. -/
structure Tables where
  periods : Uuid → Option Period
  accounts : Uuid → Option Account
  transfers : List Transfer
  entries : List Entry

/-- What a transaction has changed, oldest first. -/
structure Changes where
  periods : List (Uuid × Option Period) := []
  accounts : List (Uuid × Option Account) := []
  transfers : List Transfer := []
  entries : List Entry := []
  deriving DecidableEq

namespace Changes

def append (c d : Changes) : Changes where
  periods := c.periods ++ d.periods
  accounts := c.accounts ++ d.accounts
  transfers := c.transfers ++ d.transfers
  entries := c.entries ++ d.entries

end Changes

namespace Tables

/-- The tables as the transaction sees them. -/
def apply (T : Tables) (c : Changes) : Tables where
  periods := overlay T.periods c.periods
  accounts := overlay T.accounts c.accounts
  transfers := T.transfers ++ c.transfers
  entries := T.entries ++ c.entries

/-- The four tables of a database. -/
def ofDb (db : Db) : Tables where
  periods := db.periods.get?
  accounts := db.accounts.get?
  transfers := db.transfers.rows
  entries := db.entries.rows

end Tables

/-- A row that can be locked. -/
inductive RowId
  | period (id : Uuid)
  | account (id : Uuid)
  | transfer (id : Uuid)
  deriving DecidableEq

/-- What a foreign key refers to: the period of a transfer, or the account of
an entry together with its currency. -/
inductive Ref
  | period (id : Uuid)
  | account (id : Uuid) (currency : String)
  deriving DecidableEq

/-- The row with this key. -/
def Ref.row : Ref → RowId
  | .period id => .period id
  | .account id _ => .account id

/-- The name of the foreign key. -/
def Ref.constraint : Ref → String
  | .period _ => "ledger_transfer_period_id_fk"
  | .account _ _ => "entry_currency_matches_account"

/-- One of these rows refers to the key. -/
def Ref.UsedBy (transfers : List Transfer) (entries : List Entry) : Ref → Prop
  | .period id => ∃ t ∈ transfers, t.period = id
  | .account id currency => ∃ e ∈ entries, e.account = id ∧ e.currency = currency

instance (r : Ref) (transfers : List Transfer) (entries : List Entry) :
    Decidable (r.UsedBy transfers entries) := by
  cases r <;> (unfold Ref.UsedBy; infer_instance)

/-- What the entries of one transfer sum to. -/
def imbalanceOf (entries : List Entry) (transfer : Uuid) : Money :=
  sumBy Entry.signedBaseAmount (group Entry.transfer transfer entries)

namespace Tables

/-- There is a row with this key. -/
def Has (T : Tables) : Ref → Prop
  | .period id => (T.periods id).isSome
  | .account id currency => (T.accounts id).map Account.currency = some currency

instance (T : Tables) (r : Ref) : Decidable (T.Has r) := by
  cases r <;> (unfold Has; infer_instance)

/-- Some row refers to this key. -/
def Uses (T : Tables) (r : Ref) : Prop := r.UsedBy T.transfers T.entries

instance (T : Tables) (r : Ref) : Decidable (T.Uses r) :=
  inferInstanceAs (Decidable (r.UsedBy _ _))

def imbalance (T : Tables) (transfer : Uuid) : Money := imbalanceOf T.entries transfer

end Tables

/-! ## Checks that are left for later -/

inductive SqlError
  /-- the role lacks the privilege -/
  | permissionDenied (table : String)
  /-- a violated constraint, or what a trigger raises, by name -/
  | violation (constraint : String)
  deriving DecidableEq

inductive Check
  /-- `assert_transfer_balances`, for an inserted entry of the transfer -/
  | balance (transfer : Uuid)
  /-- a row that refers to the key was inserted -/
  | present (r : Ref)
  /-- the row with the key was deleted, or got another key -/
  | unused (r : Ref)
  deriving DecidableEq

namespace Check

def run (T : Tables) : Check → Except SqlError Unit
  | .balance transfer => require (T.imbalance transfer = 0) (.violation "transfer_balanced")
  | .present r => require (T.Has r) (.violation r.constraint)
  -- `NO ACTION`: the key may be back by now
  | .unused r => require (T.Has r ∨ ¬T.Uses r) (.violation r.constraint)

/-- A row that is referred to is locked, so that its key stays. -/
def locks : Check → List (RowId × RowLock)
  | .present r => [(r.row, .keyShare)]
  | _ => []

end Check

/-! ## Roles -/

inductive TableName
  | funds_period
  | ledger_account
  | ledger_transfer
  | ledger_entry
  deriving DecidableEq

def TableName.value : TableName → String
  | .funds_period => "funds_period"
  | .ledger_account => "ledger_account"
  | .ledger_transfer => "ledger_transfer"
  | .ledger_entry => "ledger_entry"

inductive Privilege
  | INSERT
  | UPDATE
  | DELETE
  deriving DecidableEq

/-- What a role may do. -/
abbrev Grants := TableName → Privilege → Bool

def appendOnlyTables : List TableName := [.ledger_entry, .ledger_transfer]

/-- `apply_grants`: everything is granted, then `UPDATE` and `DELETE` on the
append-only tables are revoked. -/
def applyGrants : Grants := fun table privilege =>
  !(privilege ∈ [.UPDATE, .DELETE] && table ∈ appendOnlyTables)

def checkGranted (grants : Grants) (table : TableName) (privilege : Privilege) :
    Except SqlError Unit :=
  require (grants table privilege) (.permissionDenied table.value)

/-! ## Triggers and `CHECK` constraints -/

/-- `assert_period_open`: the id of the period, which the trigger locks. -/
def assertPeriodOpen (T : Tables) (transfer : Uuid) : Except SqlError Uuid := do
  let t ← orRaise (T.transfers.find? fun t => t.id = transfer) (.violation "period_open")
  let p ← orRaise (T.periods t.period) (.violation "period_open")
  require (p.status = .OPEN) (.violation "period_open")
  return t.period

/-- `forbid_mutation`, which fires for every row that is hit. -/
def forbidMutation {α : Type} (hit : List α) : Except SqlError Unit :=
  require (hit.length = 0) (.violation "append_only")

/-- `forbid_period_reopen`. -/
def forbidPeriodReopen (old : Period) : Except SqlError Unit :=
  require (old.status ≠ .CLOSED) (.violation "period_closed_is_final")

def checkPeriod (p : Period) : Except SqlError Unit := do
  require (p.startDate ≤ p.endDate) (.violation "period_end_not_before_start")
  require ((p.status = .CLOSED) = p.closedAt.isSome) (.violation "period_closed_at_matches_status")

def checkAccount (a : Account) : Except SqlError Unit := do
  require (isIso4217 a.currency) (.violation "account_currency_iso4217")
  require (a.accountType = .LP_CAPITAL ↔ a.ownerLp.isSome)
    (.violation "account_owner_lp_iff_lp_capital")

def checkTransfer (t : Transfer) : Except SqlError Unit := do
  require (t.idempotencyKey ≠ "") (.violation "transfer_idempotency_key_present")
  require (t.reverses = none ∨ t.transferType = .REVERSAL)
    (.violation "transfer_only_reversals_reverse")
  require (t.transferType = .REVERSAL → t.reverses ≠ none)
    (.violation "transfer_reversal_has_target")

def checkEntry (e : Entry) : Except SqlError Unit := do
  require (0 < e.amount) (.violation "entry_amount_positive")
  require (0 < e.baseAmount) (.violation "entry_base_amount_positive")
  require (isIso4217 e.currency) (.violation "entry_currency_iso4217")
  require (∀ r ∈ e.fxRate, 0 < r) (.violation "entry_fx_rate_positive")

/-! ## Statements -/

/-- A statement about one row; one about several rows is several of these. -/
inductive Statement
  | insertPeriod (p : Period)
  | updatePeriod (id : Uuid) (row : Period)
  | deletePeriod (id : Uuid)
  | insertAccount (a : Account)
  | updateAccount (id : Uuid) (row : Account)
  | deleteAccount (id : Uuid)
  | insertTransfer (t : Transfer)
  | updateTransfer (id : Uuid) (row : Transfer)
  | deleteTransfer (id : Uuid)
  | insertEntry (e : Entry)
  | updateEntry (id : Uuid) (row : Entry)
  | deleteEntry (id : Uuid)

/-- What a statement does: the rows it changes, the locks it takes and the
checks it leaves. -/
structure Effect where
  changes : Changes := {}
  locks : List (RowId × RowLock) := []
  checks : List Check := []
  deriving DecidableEq

/-- A row whose key stays is locked `FOR NO KEY UPDATE`, one whose key changes
`FOR UPDATE`, and so is the new key. -/
def keyLock {κ : Type} [DecidableEq κ] (old new : κ) : RowLock :=
  if old = new then .noKeyUpdate else .update

namespace Statement

def run (grants : Grants) (T : Tables) : Statement → Except SqlError Effect
  | .insertPeriod p => do
    checkGranted grants .funds_period .INSERT
    checkPeriod p
    require (T.periods p.id = none) (.violation "funds_period_pkey")
    return {
      changes := { periods := [(p.id, some p)] }
      locks := [(.period p.id, .update)] }
  | .updatePeriod id row => do
    checkGranted grants .funds_period .UPDATE
    match T.periods id with
    | none => return {}
    | some old =>
      forbidPeriodReopen old
      checkPeriod row
      if row.id = id then
        return {
          changes := { periods := [(id, some row)] }
          locks := [(.period id, .noKeyUpdate)] }
      else
        require (T.periods row.id = none) (.violation "funds_period_pkey")
        return {
          changes := { periods := [(id, none), (row.id, some row)] }
          locks := [(.period id, .update), (.period row.id, .update)]
          checks := [.unused (.period id)] }
  | .deletePeriod id => do
    checkGranted grants .funds_period .DELETE
    match T.periods id with
    | none => return {}
    | some _ =>
      return {
        changes := { periods := [(id, none)] }
        locks := [(.period id, .update)]
        checks := [.unused (.period id)] }
  | .insertAccount a => do
    checkGranted grants .ledger_account .INSERT
    checkAccount a
    require (T.accounts a.id = none) (.violation "ledger_account_pkey")
    return {
      changes := { accounts := [(a.id, some a)] }
      locks := [(.account a.id, .update)] }
  | .updateAccount id row => do
    checkGranted grants .ledger_account .UPDATE
    match T.accounts id with
    | none => return {}
    | some old =>
      checkAccount row
      if row.id = id then
        return {
          changes := { accounts := [(id, some row)] }
          locks := [(.account id, keyLock old.currency row.currency)]
          checks := [.unused (.account id old.currency)] }
      else
        require (T.accounts row.id = none) (.violation "ledger_account_pkey")
        return {
          changes := { accounts := [(id, none), (row.id, some row)] }
          locks := [(.account id, .update), (.account row.id, .update)]
          checks := [.unused (.account id old.currency)] }
  | .deleteAccount id => do
    checkGranted grants .ledger_account .DELETE
    match T.accounts id with
    | none => return {}
    | some old =>
      return {
        changes := { accounts := [(id, none)] }
        locks := [(.account id, .update)]
        checks := [.unused (.account id old.currency)] }
  | .insertTransfer t => do
    checkGranted grants .ledger_transfer .INSERT
    checkTransfer t
    require (∀ u ∈ T.transfers, u.id ≠ t.id) (.violation "ledger_transfer_pkey")
    return {
      changes := { transfers := [t] }
      locks := [(.transfer t.id, .update)]
      checks := [.present (.period t.period)] }
  | .updateTransfer id _ => do
    checkGranted grants .ledger_transfer .UPDATE
    forbidMutation (T.transfers.filter fun t => t.id = id)
    return {}
  | .deleteTransfer id => do
    checkGranted grants .ledger_transfer .DELETE
    forbidMutation (T.transfers.filter fun t => t.id = id)
    return {}
  | .insertEntry e => do
    checkGranted grants .ledger_entry .INSERT
    let period ← assertPeriodOpen T e.transfer
    checkEntry e
    return {
      changes := { entries := [e] }
      locks := [(.period period, .share)]
      checks := [.balance e.transfer, .present (.account e.account e.currency)] }
  | .updateEntry id _ => do
    checkGranted grants .ledger_entry .UPDATE
    forbidMutation (T.entries.filter fun e => e.id = id)
    return {}
  | .deleteEntry id => do
    checkGranted grants .ledger_entry .DELETE
    forbidMutation (T.entries.filter fun e => e.id = id)
    return {}

end Statement

/-! ## Connections -/

/-- A transaction: its changes, its locks, and the checks it still has to pass. -/
structure Txn where
  changes : Changes := {}
  locks : List (RowId × RowLock) := []
  pending : List Check := []

def Txn.add (u : Txn) (eff : Effect) : Txn where
  changes := u.changes.append eff.changes
  locks := u.locks ++ eff.locks
  pending := u.pending ++ eff.checks

/-- A connection, with the transaction that runs on it and the savepoints of
that, newest first.  `ROLLBACK TO` brings back the checks, and gives up the
locks, of what came later. -/
structure Connection where
  txn : Txn := {}
  savepoints : List (String × Txn) := []

/-- The transaction as it is, and as it was at its savepoints. -/
def Connection.txns (c : Connection) : List Txn := c.txn :: c.savepoints.map Prod.snd

def Connection.Claims (c : Connection) (l : RowId × RowLock) : Prop :=
  ∃ u ∈ c.txns, l ∈ u.locks

/-- The committed tables, and for the record the ids of the periods that a
committed transaction has deleted or given another id. -/
structure Server where
  tables : Tables
  deleted : List Uuid

/-- The ids that a change to `none` stands for. -/
def Changes.deleted (c : Changes) : List Uuid :=
  c.periods.filterMap fun e => if e.2.isNone then some e.1 else none

inductive ConnectionMove (grants : Grants) (free : RowId × RowLock → Prop) :
    Server → Connection → Server → Connection → Prop
  | execute {s : Server} {u : Txn} {sps} (stmt : Statement) {eff : Effect}
      (ran : stmt.run grants (s.tables.apply u.changes) = .ok eff)
      (unlocked : ∀ l ∈ eff.locks, free l) :
      ConnectionMove grants free s ⟨u, sps⟩ s ⟨u.add eff, sps⟩
  | check {s : Server} {u : Txn} {sps} {done todo : List Check} (c : Check)
      (next : u.pending = done ++ c :: todo)
      (passed : c.run (s.tables.apply u.changes) = .ok ())
      (unlocked : ∀ l ∈ c.locks, free l) :
      ConnectionMove grants free s ⟨u, sps⟩ s
        ⟨{ u with locks := u.locks ++ c.locks, pending := done ++ todo }, sps⟩
  | savepoint {s : Server} {u : Txn} {sps} (name : String) :
      ConnectionMove grants free s ⟨u, sps⟩ s ⟨u, (name, u) :: sps⟩
  | rollbackTo {s : Server} {u v : Txn} {newer older} (name : String) :
      ConnectionMove grants free s ⟨u, newer ++ (name, v) :: older⟩ s ⟨v, (name, v) :: older⟩
  | release {s : Server} {u v : Txn} {newer older} (name : String) :
      ConnectionMove grants free s ⟨u, newer ++ (name, v) :: older⟩ s ⟨u, older⟩
  | commit {s : Server} {u : Txn} {sps} (checked : u.pending = []) :
      ConnectionMove grants free s ⟨u, sps⟩
        ⟨s.tables.apply u.changes, s.deleted ++ u.changes.deleted⟩ {}
  | rollback {s : Server} {c : Connection} : ConnectionMove grants free s c s {}

/-- Any number of connections of one role. -/
def connections (grants : Grants) : Protocol Server Connection (RowId × RowLock) where
  claims := Connection.Claims
  Clash l m := l.1 = m.1 ∧ l.2.Conflicts m.2
  move := ConnectionMove grants
  environment _ _ := False

theorem connections_disciplined (grants : Grants) : (connections grants).Disciplined := by
  constructor
  · intro l m hclash
    exact ⟨hclash.1.symm, hclash.2.symm⟩
  · intro free s c s' c' moved l hl
    obtain ⟨v, hv, hlv⟩ := hl
    cases moved with
    | @execute u sps stmt eff ran unlocked =>
      rcases List.mem_cons.mp hv with rfl | hold
      · rcases List.mem_append.mp hlv with hold | hnew
        · exact .inl ⟨u, List.mem_cons_self, hold⟩
        · exact .inr (unlocked l hnew)
      · exact .inl ⟨v, List.mem_cons_of_mem _ hold, hlv⟩
    | @check u sps done todo c next passed unlocked =>
      rcases List.mem_cons.mp hv with rfl | hold
      · rcases List.mem_append.mp hlv with hold | hnew
        · exact .inl ⟨u, List.mem_cons_self, hold⟩
        · exact .inr (unlocked l hnew)
      · exact .inl ⟨v, List.mem_cons_of_mem _ hold, hlv⟩
    | savepoint name =>
      refine .inl ⟨v, ?_, hlv⟩
      simpa [Connection.txns] using hv
    | rollbackTo name =>
      refine .inl ⟨v, ?_, hlv⟩
      simp only [Connection.txns, List.map_cons, List.map_append, List.mem_cons,
        List.mem_append] at hv ⊢
      tauto
    | release name =>
      refine .inl ⟨v, ?_, hlv⟩
      simp only [Connection.txns, List.map_cons, List.map_append, List.mem_cons,
        List.mem_append] at hv ⊢
      tauto
    | commit checked =>
      simp only [Connection.txns, List.map_nil, List.mem_singleton] at hv
      subst hv
      simp at hlv
    | rollback =>
      simp only [Connection.txns, List.map_nil, List.mem_singleton] at hv
      subst hv
      simp at hlv

end FundLedger.Guards
