import FundLedger.Lib.Checks
import FundLedger.Lib.Sums
import FundLedger.Lib.Tx
import FundLedger.Ledger.Models

/-!
# The database

`Db` holds the tables the application reads and writes.  Every write goes
through one of the `insert` functions below, which apply the constraints of
the migrations in the order the server does: first the column types, then the
`CHECK` constraints and row triggers, then the unique indexes and the foreign
keys.  A refused statement raises and changes nothing.

Foreign keys are checked when the row is inserted.  The server checks them at
commit; inside one service call the two are the same, because nothing is ever
deleted and the referenced row is always written first.

`insertEntry` contains the trigger `assert_period_open` of migration 0003, and
`assertTransferBalances` is the deferred trigger of migration 0002.
-/

namespace FundLedger

open Lib

structure Db where
  funds : Table Fund Fund.id
  lps : Table LimitedPartner LimitedPartner.id
  commitments : Table Commitment Commitment.id
  periods : Table Period Period.id
  fxRates : Table FxRate FxRate.id
  accounts : Table Account Account.id
  transfers : Table Transfer Transfer.id
  entries : Table Entry Entry.id
  capitalCalls : Table CapitalCall CapitalCall.id
  distributions : Table Distribution Distribution.id
  memberships : Table FundMembership FundMembership.id

/-- The empty database. -/
def Db.empty : Db :=
  ⟨.empty, .empty, .empty, .empty, .empty, .empty, .empty, .empty, .empty, .empty, .empty⟩

/-- A service call: it runs against the database. -/
abbrev M := Tx Db Exc

/-- The order in which a query without `ORDER BY` hands out its rows. -/
structure RowOrder (α : Type) where
  order : List α → List α
  perm : ∀ l, (order l).Perm l

/-- The rows as they were inserted. -/
def RowOrder.insertion (α : Type) : RowOrder α := ⟨id, fun _ => .refl _⟩

/-- The rows for which one call draws a random id. -/
inductive Draw
  | account (index : ℕ)
  | transfer
  | entry (index : ℕ)
  | document
  deriving DecidableEq

/-- What a call reads that is neither an argument nor in the database: the
calendar day, the clock, the random ids it draws and the order of an unordered
query. -/
structure Env where
  today : Date
  now : Timestamp
  uuid4 : Draw → Uuid
  commitmentOrder : RowOrder Commitment := .insertion Commitment

/-! ## Inserting rows -/

def insertAccount (db : Db) (a : Account) : Except Exc Db := do
  require (a.code.length ≤ 64 ∧ a.currency.length ≤ 3) .data
  require (isIso4217 a.currency) (.integrity "account_currency_iso4217")
  require (a.accountType = .LP_CAPITAL ↔ a.ownerLp.isSome)
    (.integrity "account_owner_lp_iff_lp_capital")
  let accounts ← orRaise (db.accounts.insert a) (.integrity "ledger_account_pkey")
  require (∀ b ∈ db.accounts.rows, ¬(b.fund = a.fund ∧ b.code = a.code))
    (.integrity "account_code_unique_per_fund")
  require (∀ b ∈ db.accounts.rows, ¬(b.accountType = .LP_CAPITAL ∧ a.accountType = .LP_CAPITAL ∧
      b.fund = a.fund ∧ b.ownerLp = a.ownerLp ∧ b.currency = a.currency))
    (.integrity "account_one_lp_capital_per_lp_currency")
  return { db with accounts }

def insertTransfer (db : Db) (t : Transfer) : Except Exc Db := do
  require (t.idempotencyKey.length ≤ 255 ∧ t.createdBy.length ≤ 255) .data
  require (t.idempotencyKey ≠ "") (.integrity "transfer_idempotency_key_present")
  require (t.reverses = none ∨ t.transferType = .REVERSAL)
    (.integrity "transfer_only_reversals_reverse")
  require (t.transferType = .REVERSAL → t.reverses ≠ none)
    (.integrity "transfer_reversal_has_target")
  let transfers ← orRaise (db.transfers.insert t) (.integrity "ledger_transfer_pkey")
  require (∀ u ∈ db.transfers.rows, u.idempotencyKey ≠ t.idempotencyKey)
    (.integrity "transfer_idempotency_key_unique")
  require (∀ u ∈ db.transfers.rows, ¬(t.reverses.isSome ∧ u.reverses = t.reverses))
    (.integrity "transfer_reverses_unique")
  require (∃ p ∈ db.periods.rows, p.id = t.period)
    (.integrity "ledger_transfer_period_id_fk")
  require (∀ o ∈ t.reverses, ∃ u ∈ db.transfers.rows, u.id = o)
    (.integrity "ledger_transfer_reverses_id_fk")
  return { db with transfers }

/-- The status that `assert_period_open` reads: that of the period of the
entry's transfer, when there is such a transfer and such a period. -/
def periodStatusOf (db : Db) (transfer : Uuid) : Option PeriodStatus := do
  let t ← db.transfers.get? transfer
  let p ← db.periods.get? t.period
  return p.status

def insertEntry (db : Db) (e : Entry) : Except Exc Db := do
  require (periodStatusOf db e.transfer = some .OPEN) (.integrity "period_open")
  require (0 < e.amount) (.integrity "entry_amount_positive")
  require (0 < e.baseAmount) (.integrity "entry_base_amount_positive")
  require (isIso4217 e.currency) (.integrity "entry_currency_iso4217")
  require (∀ r ∈ e.fxRate, 0 < r) (.integrity "entry_fx_rate_positive")
  let entries ← orRaise (db.entries.insert e) (.integrity "ledger_entry_pkey")
  require (∃ a ∈ db.accounts.rows, a.id = e.account ∧ a.currency = e.currency)
    (.integrity "entry_currency_matches_account")
  return { db with entries }

def insertEntries (db : Db) (es : List Entry) : Except Exc Db := es.foldlM insertEntry db

def insertCapitalCall (db : Db) (c : CapitalCall) : Except Exc Db := do
  require (0 < c.totalAmount) (.integrity "capital_call_positive")
  require (c.noticeDate ≤ c.dueDate) (.integrity "capital_call_due_after_notice")
  let capitalCalls ← orRaise (db.capitalCalls.insert c) (.integrity "operations_capitalcall_pkey")
  require (∀ d ∈ db.capitalCalls.rows, ¬(d.fund = c.fund ∧ d.callNumber = c.callNumber))
    (.integrity "capital_call_number_unique")
  require (∀ d ∈ db.capitalCalls.rows, d.transfer ≠ c.transfer)
    (.integrity "operations_capitalcall_transfer_id_key")
  return { db with capitalCalls }

def insertDistribution (db : Db) (c : Distribution) : Except Exc Db := do
  require (0 < c.totalAmount) (.integrity "distribution_positive")
  let distributions ←
    orRaise (db.distributions.insert c) (.integrity "operations_distribution_pkey")
  require (∀ d ∈ db.distributions.rows,
      ¬(d.fund = c.fund ∧ d.distributionNumber = c.distributionNumber))
    (.integrity "distribution_number_unique")
  require (∀ d ∈ db.distributions.rows, d.transfer ≠ c.transfer)
    (.integrity "operations_distribution_transfer_id_key")
  return { db with distributions }

/-! ## The deferred balance trigger -/

/-- The entries of one transfer. -/
def entriesOf (db : Db) (transfer : Uuid) : List Entry :=
  group Entry.transfer transfer db.entries.rows

/-- `assert_transfer_balances`: the entries of the transfer sum to zero. -/
def assertTransferBalances (db : Db) (transfer : Uuid) : Except Exc Unit :=
  require (sumBy Entry.signedBaseAmount (entriesOf db transfer) = 0)
    (.integrity "transfer_balanced")

/-! ## What a successful insert did -/

theorem insertAccount_ok {db db' : Db} {a : Account} (h : insertAccount db a = .ok db') :
    (a.code.length ≤ 64 ∧ a.currency.length ≤ 3) ∧ isIso4217 a.currency ∧
    (a.accountType = .LP_CAPITAL ↔ a.ownerLp.isSome) ∧
    (∀ b ∈ db.accounts.rows, ¬(b.fund = a.fund ∧ b.code = a.code)) ∧
    (∀ b ∈ db.accounts.rows, ¬(b.accountType = .LP_CAPITAL ∧ a.accountType = .LP_CAPITAL ∧
      b.fund = a.fund ∧ b.ownerLp = a.ownerLp ∧ b.currency = a.currency)) ∧
    ∃ accounts, db.accounts.insert a = some accounts ∧ db' = { db with accounts } := by
  simp only [insertAccount, except_bind_ok, require_eq_ok, orRaise_eq_ok, except_pure] at h
  obtain ⟨_, h1, _, h2, _, h3, accounts, h4, _, h5, _, h6, rfl⟩ := h
  exact ⟨h1, h2, h3, h5, h6, accounts, h4, rfl⟩

theorem insertTransfer_ok {db db' : Db} {t : Transfer} (h : insertTransfer db t = .ok db') :
    t.idempotencyKey ≠ "" ∧
    (t.reverses = none ∨ t.transferType = .REVERSAL) ∧
    (t.transferType = .REVERSAL → t.reverses ≠ none) ∧
    (∀ u ∈ db.transfers.rows, u.idempotencyKey ≠ t.idempotencyKey) ∧
    (∀ u ∈ db.transfers.rows, ¬(t.reverses.isSome ∧ u.reverses = t.reverses)) ∧
    (∃ p ∈ db.periods.rows, p.id = t.period) ∧
    (∀ o ∈ t.reverses, ∃ u ∈ db.transfers.rows, u.id = o) ∧
    ∃ transfers, db.transfers.insert t = some transfers ∧ db' = { db with transfers } := by
  simp only [insertTransfer, except_bind_ok, require_eq_ok, orRaise_eq_ok, except_pure] at h
  obtain ⟨_, _, _, h2, _, h3, _, h4, transfers, h5, _, h6, _, h7, _, h8, _, h9, rfl⟩ := h
  exact ⟨h2, h3, h4, h6, h7, h8, h9, transfers, h5, rfl⟩

theorem insertEntry_ok {db db' : Db} {e : Entry} (h : insertEntry db e = .ok db') :
    periodStatusOf db e.transfer = some .OPEN ∧
    0 < e.amount ∧ 0 < e.baseAmount ∧ isIso4217 e.currency ∧
    (∀ r ∈ e.fxRate, 0 < r) ∧
    (∃ a ∈ db.accounts.rows, a.id = e.account ∧ a.currency = e.currency) ∧
    ∃ entries, db.entries.insert e = some entries ∧ db' = { db with entries } := by
  simp only [insertEntry, except_bind_ok, require_eq_ok, orRaise_eq_ok, except_pure] at h
  obtain ⟨_, h1, _, h2, _, h3, _, h4, _, h5, entries, h6, _, h7, rfl⟩ := h
  exact ⟨h1, h2, h3, h4, h5, h7, entries, h6, rfl⟩

theorem insertCapitalCall_ok {db db' : Db} {c : CapitalCall}
    (h : insertCapitalCall db c = .ok db') :
    (∀ d ∈ db.capitalCalls.rows, ¬(d.fund = c.fund ∧ d.callNumber = c.callNumber)) ∧
    (∀ d ∈ db.capitalCalls.rows, d.transfer ≠ c.transfer) ∧
    ∃ capitalCalls, db.capitalCalls.insert c = some capitalCalls ∧
      db' = { db with capitalCalls } := by
  simp only [insertCapitalCall, except_bind_ok, require_eq_ok, orRaise_eq_ok, except_pure] at h
  obtain ⟨_, _, _, _, calls, h3, _, h4, _, h5, rfl⟩ := h
  exact ⟨h4, h5, calls, h3, rfl⟩

theorem insertDistribution_ok {db db' : Db} {c : Distribution}
    (h : insertDistribution db c = .ok db') :
    (∀ d ∈ db.distributions.rows,
      ¬(d.fund = c.fund ∧ d.distributionNumber = c.distributionNumber)) ∧
    (∀ d ∈ db.distributions.rows, d.transfer ≠ c.transfer) ∧
    ∃ distributions, db.distributions.insert c = some distributions ∧
      db' = { db with distributions } := by
  simp only [insertDistribution, except_bind_ok, require_eq_ok, orRaise_eq_ok, except_pure] at h
  obtain ⟨_, _, dists, h3, _, h4, _, h5, rfl⟩ := h
  exact ⟨h4, h5, dists, h3, rfl⟩

end FundLedger
