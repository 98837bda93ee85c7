import FundLedger.Ledger.Queries

/-!
# Accounting periods

`operations/periods.py`: the period that covers a date, and closing a period.
-/

namespace FundLedger

open Lib

/-- The first period, by start date, that covers the day. -/
def periodFor (db : Db) (fund : Uuid) (onDate : Date) : Except Exc Period :=
  let covering := db.periods.rows.filter fun p =>
    p.fund = fund ∧ p.startDate ≤ onDate ∧ onDate ≤ p.endDate
  orRaise (covering.argmin Period.startDate)
    (.ledger .NoPeriod [.lit "no accounting period covers ", .date onDate])

def Period.close (p : Period) (now : Timestamp) (closedBy : String) : Period :=
  { p with status := .CLOSED, closedAt := some now, closedBy }

theorem Period.close_id (now : Timestamp) (closedBy : String) (p : Period) :
    (p.close now closedBy).id = p.id := rfl

/-- The `UPDATE` of a period that is being closed, with the trigger
`forbid_period_reopen`. -/
def updatePeriod (db : Db) (period : Uuid) (now : Timestamp) (closedBy : String) :
    Except Exc Db := do
  require (closedBy.length ≤ 150) .data
  require (∀ p ∈ db.periods.rows, p.id = period → p.status ≠ .CLOSED)
    (.integrity "period_closed_is_final")
  return { db with
    periods := db.periods.update (fun p => p.id = period) (·.close now closedBy)
      (Period.close_id now closedBy) }

/-- What `close_period` checks about an open period. -/
def checkClosable (db : Db) (fundId : Uuid) (period : Period) : Except Exc Unit := do
  require (∀ p ∈ db.periods.rows,
      ¬(p.fund = fundId ∧ p.startDate < period.startDate ∧ p.status = .OPEN))
    (.ledger .PeriodNotClosable [.lit "close earlier periods first"])
  let imbalance := periodImbalance db period.id
  require (imbalance = 0)
    (.ledger .PeriodNotClosable
      [.lit "period does not reconcile (imbalance ", .dec imbalance.toDec, .lit ")"])

/-- `Period.objects.get(id=period_id, fund_id=fund_id)`. -/
def periodOfFund (db : Db) (fundId periodId : Uuid) : Except Exc Period :=
  orRaise ((db.periods.get? periodId).filter fun p => p.fund = fundId) (.doesNotExist "Period")

/-- Close a period.  The flag says whether anything changed: closing a closed
period does nothing. -/
def closePeriod (env : Env) (fundId periodId : Uuid) (closedBy : String := "") :
    M (Period × Bool) :=
  Tx.atomic do
    let db ← Tx.read
    let period ← Tx.lift (periodOfFund db fundId periodId)
    if period.status = .CLOSED then return (period, false)
    else
      Tx.lift (checkClosable db fundId period)
      Tx.statement fun db => updatePeriod db period.id env.now closedBy
      return (period.close env.now closedBy, true)

end FundLedger
