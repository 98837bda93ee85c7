import FundLedger.Database

/-!
# Queries over entries

`ledger/queries.py` and `ledger/reconciliation.py`.  A balance is a sum over
the entries of an account; the reconciliation figures sum the same signed base
amounts over all entries, over the entries of a period's transfers, and over
the entries on a fund's accounts.
-/

namespace FundLedger

open Lib

/-- The entries with `created_at` up to the cut, all of them without a cut. -/
def asOfCut (asOf : Option Timestamp) (e : Entry) : Bool :=
  match asOf with
  | none => true
  | some t => e.createdAt ≤ t

/-- The entries of an account. -/
def accountEntries (db : Db) (account : Uuid) (asOf : Option Timestamp := none) : List Entry :=
  db.entries.rows.filter fun e => e.account = account ∧ asOfCut asOf e

/-- Balance in the account's own currency, debit-positive.  This is what
overdraft checks use. -/
def nativeBalance (db : Db) (account : Uuid) (asOf : Option Timestamp := none) : Money :=
  sumBy Entry.signedAmount (accountEntries db account asOf)

/-- Balance in the fund's base currency, at the rates captured when each entry
was booked. -/
def baseBalance (db : Db) (account : Uuid) (asOf : Option Timestamp := none) : Money :=
  sumBy Entry.signedBaseAmount (accountEntries db account asOf)

/-- A reversal counts as whatever kind of transfer it reverses. -/
def effectiveType (db : Db) (t : Transfer) : TransferType :=
  match t.reverses.bind db.transfers.get? with
  | some original => original.transferType
  | none => t.transferType

/-! ## Joins -/

/-- `transfer__period`: the period of the entry's transfer. -/
def entryPeriod (db : Db) (e : Entry) : Option Uuid :=
  (db.transfers.get? e.transfer).map Transfer.period

/-- `account__fund`: the fund of the entry's account. -/
def entryFund (db : Db) (e : Entry) : Option Uuid :=
  (db.accounts.get? e.account).map Account.fund

/-! ## Reconciliation -/

/-- System-wide sum of signed base amounts. -/
def totalImbalance (db : Db) (asOf : Option Timestamp := none) : Money :=
  sumBy Entry.signedBaseAmount (db.entries.rows.filter (asOfCut asOf))

def periodImbalance (db : Db) (period : Uuid) : Money :=
  sumBy Entry.signedBaseAmount
    (db.entries.rows.filter fun e => entryPeriod db e = some period)

def fundImbalance (db : Db) (fund : Uuid) : Money :=
  sumBy Entry.signedBaseAmount
    (db.entries.rows.filter fun e => entryFund db e = some fund)

/-- The entries on a fund's accounts, all of them without a fund. -/
def fundEntries (db : Db) (fund : Option Uuid) : List Entry :=
  match fund with
  | none => db.entries.rows
  | some f => db.entries.rows.filter fun e => entryFund db e = some f

/-- The transfers whose signed base amounts do not sum to zero, in id order.
With a fund, only entries on that fund's accounts count. -/
def unbalancedTransfers (db : Db) (fund : Option Uuid := none) (limit : ℕ := 100) :
    List (Uuid × Money) :=
  let rows := fundEntries db fund
  let sums := ((rows.map Entry.transfer).dedup.insertionSort (· ≤ ·)).map fun t =>
    (t, sumBy Entry.signedBaseAmount (group Entry.transfer t rows))
  (sums.filter fun s => s.2 ≠ 0).take limit

end FundLedger
