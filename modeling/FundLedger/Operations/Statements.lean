import FundLedger.Operations.Services

/-!
# Capital account statements and net asset value

`operations/statements.py`.  Nothing here is stored: a statement and a net
asset value are derived from the entries each time.  A statement adds up a
partner's own ledger movements and its share of the fund's gains and fees,
period by period; the net asset value adds up cash and investments.
-/

namespace FundLedger

open Lib

structure Movement where
  contributions : Dec := .zero
  distributions : Dec := .zero
  other : Dec := .zero
  allocatedGains : Dec := .zero
  allocatedFees : Dec := .zero

def Movement.net (m : Movement) : Dec :=
  m.contributions - m.distributions + m.other + m.allocatedGains - m.allocatedFees

structure CapitalAccountStatement where
  fundId : Uuid
  lpId : Uuid
  lpName : String
  periodStart : Date
  periodEnd : Date
  currency : String
  openingBalance : Dec
  contributions : Dec
  distributions : Dec
  otherAdjustments : Dec
  allocatedGains : Dec
  allocatedFees : Dec
  closingBalance : Dec
  commitment : Dec
  contributedToDate : Dec
  unfundedCommitment : Dec
  deriving DecidableEq

/-- The entries of an account in a period. -/
def periodEntries (db : Db) (account period : Uuid) : List Entry :=
  db.entries.rows.filter fun e => e.account = account ∧ entryPeriod db e = some period

/-- The totals of the entries by effective type. -/
def movementRows (db : Db) (account period : Uuid) : List (TransferType × Money) :=
  let entries := periodEntries db account period
  ((entries.filterMap (entryType db)).dedup).map fun t =>
    (t, sumBy Entry.signedBaseAmount (entries.filter fun e => entryType db e = some t))

/-- One row of the grouped query.  Capital is credit-normal. -/
def addRow (m : Movement) (row : TransferType × Money) : Movement :=
  let creditPositive := -row.2.toDec
  match row.1 with
  | .CAPITAL_CALL => { m with contributions := m.contributions + creditPositive }
  | .DISTRIBUTION => { m with distributions := m.distributions - creditPositive }
  | _ => { m with other := m.other + creditPositive }

def lpLedgerMovement (db : Db) (lpAccount period : Uuid) : Movement :=
  (movementRows db lpAccount period).foldl addRow {}

/-- The type of the account of an entry. -/
def entryAccountType (db : Db) (e : Entry) : Option AccountType :=
  (db.accounts.get? e.account).map Account.accountType

def fundTotal (db : Db) (fund period : Uuid) (accountType : AccountType) : Dec :=
  Money.orZero (sumBy Entry.signedBaseAmount (db.entries.rows.filter fun e =>
    entryFund db e = some fund ∧ entryAccountType db e = some accountType ∧
      entryPeriod db e = some period))

/-- The periods of a fund up to a start date, in order. -/
def periodsThrough (db : Db) (fund : Uuid) (start : Date) : List Period :=
  (db.periods.rows.filter fun p => p.fund = fund ∧ p.startDate ≤ start).insertionSort
    fun p q => p.startDate ≤ q.startDate

/-- The whole movement of a partner in a period: its own entries, and its
share of the fund's gains and fees. -/
def lpMovement (db : Db) (fund : Fund) (weights : Dict Uuid Dec) (lp lpAccount period : Uuid) :
    Except Exc Movement := do
  let movement := lpLedgerMovement db lpAccount period
  let gains := -fundTotal db fund.id period .GAIN_LOSS
  let fees := fundTotal db fund.id period .FEE_EXPENSE
  let allocatedGains ← lookup (← orValueError (allocate (id : Uuid → ℕ) gains weights fourDp)) lp
  let allocatedFees ← lookup (← orValueError (allocate (id : Uuid → ℕ) fees weights fourDp)) lp
  return { movement with allocatedGains, allocatedFees }
where
  /-- A `ValueError` that nothing catches. -/
  orValueError {α : Type} : Except Message α → Except Exc α
    | .ok a => .ok a
    | .error _ => .error .valueError

/-- What the loop over the periods has added up. -/
structure Running where
  opening : Dec := .zero
  contributedToDate : Dec := .zero
  current : Movement := {}

def addPeriod (current : Uuid) (r : Running) (p : Period) (m : Movement) : Running :=
  let contributedToDate := r.contributedToDate + m.contributions
  if p.id = current then { r with contributedToDate, current := m }
  else { r with contributedToDate, opening := r.opening + m.net }

def lpStatement (db : Db) (order : RowOrder Commitment) (fund : Fund) (lp : LimitedPartner)
    (period : Period) : Except Exc CapitalAccountStatement := do
  let commitments := commitmentWeights (order.order (commitmentsOf db fund.id))
  let commitment ← Prod.snd <$> orRaise (commitments.get? lp.id) (.doesNotExist "Commitment")
  let lpAccount ← lookup (lpCapitalAccounts db fund) lp.id
  let run ← (periodsThrough db fund.id period.startDate).foldlM (fun r p => do
    let movement ← lpMovement db fund commitments lp.id lpAccount.id p.id
    return addPeriod period.id r p movement) ({} : Running)
  return {
    fundId := fund.id
    lpId := lp.id
    lpName := lp.name
    periodStart := period.startDate
    periodEnd := period.endDate
    currency := fund.baseCurrency
    openingBalance := run.opening
    contributions := run.current.contributions
    distributions := run.current.distributions
    otherAdjustments := run.current.other
    allocatedGains := run.current.allocatedGains
    allocatedFees := run.current.allocatedFees
    closingBalance := run.opening + run.current.net
    commitment
    contributedToDate := run.contributedToDate
    unfundedCommitment := commitment - run.contributedToDate }

/-- The start of the period of an entry's transfer. -/
def entryPeriodStart (db : Db) (e : Entry) : Option Date := do
  let t ← db.transfers.get? e.transfer
  let p ← db.periods.get? t.period
  return p.startDate

/-- The entries of the periods that start no later than the given one. -/
def throughCut (db : Db) (throughPeriod : Option Period) (e : Entry) : Bool :=
  match throughPeriod with
  | none => true
  | some p => (entryPeriodStart db e).any fun start => start ≤ p.startDate

/-- Cash plus investments, in base currency. -/
def nav (db : Db) (fund : Fund) (throughPeriod : Option Period := none) : Dec :=
  Money.orZero (sumBy Entry.signedBaseAmount (db.entries.rows.filter fun e =>
    entryFund db e = some fund.id ∧
    (entryAccountType db e = some .CASH ∨ entryAccountType db e = some .INVESTMENT) ∧
    throughCut db throughPeriod e))

end FundLedger
