import FundLedger.Ledger.Services
import FundLedger.Operations.Allocation
import FundLedger.Operations.Chart
import FundLedger.Operations.Periods
import FundLedger.Operations.Queries

/-!
# Business operations

`operations/services.py`.  Each operation works out amounts and then calls the
ledger engine.  What a capital call or a distribution works out before it
posts only reads the database, so it is a plan: a pure function of its own.

`recordInvestment` opens the account of a new currency before it calls the
engine, and not inside the engine's transaction block.
-/

namespace FundLedger

open Lib

/-- `Fund.objects.get(id=fund_id)`. -/
def getFund (db : Db) (fundId : Uuid) : Except Exc Fund :=
  orRaise (db.funds.get? fundId) (.doesNotExist "Fund")

/-- The committed amounts by partner, in the order the query returned. -/
def commitmentWeights (commitments : List Commitment) : Dict Uuid Dec :=
  Dict.ofList (commitments.map fun c => (c.lp, c.committedAmount.toDec))

/-- The message of a `ValueError`, raised again as `InvalidTransfer`. -/
def orInvalidTransfer {α : Type} : Except Message α → Except Exc α
  | .ok a => .ok a
  | .error message => .error (invalidTransfer message)

/-- `_pro_rata`.  A partner's id is its text, for ordering purposes.  The
fraction of a NaN does not exist, and an amount that is neither finite nor NaN
does not get here. -/
def proRata (env : Env) (db : Db) (fund : Fund) (total : Amount) :
    Except Exc (List Commitment × Dict Uuid Dec) := do
  let commitments := env.commitmentOrder.order (commitmentsOf db fund.id)
  require (commitments ≠ [])
    (invalidTransfer [.lit "fund ", .str fund.name, .lit " has no commitments"])
  let weights := commitmentWeights commitments
  match total with
  | .finite d =>
    let shares ← orInvalidTransfer (allocate (id : Uuid → ℕ) d weights)
    return (commitments, shares)
  | _ =>
    orInvalidTransfer (checkWeights weights)
    .error (invalidTransfer [.lit "Cannot convert NaN to integer ratio"])

/-- `d[key]`. -/
def lookup {α : Type} (d : Dict Uuid α) (key : Uuid) : Except Exc α :=
  Prod.snd <$> orRaise (d.get? key) .keyError

/-- The items in the order of the text of their keys. -/
def sortedItems (shares : Dict Uuid Dec) : List (Uuid × Dec) :=
  shares.rows.insertionSort fun a b => a.1 ≤ b.1

/-- The two legs of each share that is not zero: from `debit` to `credit`. -/
def shareLegs (debit credit : Uuid → Except Exc Uuid) (shares : Dict Uuid Dec) :
    Except Exc (List Leg) :=
  List.flatten <$> ((sortedItems shares).filter fun i => i.2.coeff ≠ 0).mapM fun i => do
    let d ← debit i.1
    let c ← credit i.1
    return [
      { accountId := d, direction := Direction.DEBIT.value, amount := .finite i.2 },
      { accountId := c, direction := Direction.CREDIT.value, amount := .finite i.2 }]

/-- What posting a document needs: the period, the legs, and the number. -/
structure Plan where
  period : Period
  legs : List Leg
  number : ℕ

/-! ## Capital calls -/

/-- No partner may be called beyond its commitment. -/
def checkUnfunded (db : Db) (commitments : List Commitment) (lpAccounts : Dict Uuid Account)
    (shares : Dict Uuid Dec) : Except Exc Unit :=
  commitments.forM fun c => do
    let account ← lookup lpAccounts c.lp
    let unfunded := c.committedAmount.toDec - (contributed db account.id).toDec
    let share ← lookup shares c.lp
    require (¬unfunded < share)
      (.ledger .CommitmentExceeded [.lit "LP ", .uuid c.lp, .lit " would be called ", .dec share,
        .lit ", unfunded is ", .dec unfunded])

def nextCallNumber (db : Db) (fund : Uuid) : ℕ :=
  (((db.capitalCalls.rows.filter fun c => c.fund = fund).map CapitalCall.callNumber).max?).getD 0
    + 1

def planCapitalCall (env : Env) (db : Db) (fundId : Uuid) (totalAmount : Amount)
    (noticeDate : Date) : Except Exc Plan := do
  let fund ← getFund db fundId
  let period ← periodFor db fund.id noticeDate
  let (commitments, shares) ← proRata env db fund totalAmount
  let lpAccounts := lpCapitalAccounts db fund
  checkUnfunded db commitments lpAccounts shares
  let cash ← getAccount db fund .CASH
  let legs ← shareLegs (fun _ => .ok cash.id) (fun lp => Account.id <$> lookup lpAccounts lp) shares
  return { period, legs, number := nextCallNumber db fund.id }

/-- Storing the amount of a document. -/
def storedAmount : Amount → Except Exc Money
  | .finite d => orRaise (Money.ofDec? d) .data
  | _ => .error .data

/-- The posting of a capital call. -/
def capitalCallPosting (plan : Plan) (idempotencyKey : String) (requestHash : RequestHash)
    (createdBy : String) : Posting where
  idempotencyKey
  legs := plan.legs
  period := plan.period
  transferType := .CAPITAL_CALL
  description := [.lit "Capital call #", .nat plan.number]
  requestHash
  createdBy

/-- `create` of a capital call. -/
def postCapitalCall (env : Env) (fundId : Uuid) (idempotencyKey : String) (totalAmount : Amount)
    (noticeDate dueDate : Date) (createdBy : String) (requestHash : RequestHash) :
    M CapitalCall := do
  let db ← Tx.read
  let plan ← Tx.lift (planCapitalCall env db fundId totalAmount noticeDate)
  let transfer ← postTransfer env (capitalCallPosting plan idempotencyKey requestHash createdBy)
  let totalAmount ← Tx.lift (storedAmount totalAmount)
  let call : CapitalCall := {
    id := env.uuid4 .document
    fund := fundId
    callNumber := plan.number
    noticeDate
    dueDate
    totalAmount
    transfer := transfer.id }
  Tx.statement fun db => insertCapitalCall db call
  return call

/-- `CapitalCall.objects.get(transfer=transfer)`. -/
def capitalCallOf (transfer : Transfer) : M CapitalCall := do
  let db ← Tx.read
  Tx.lift (orRaise (db.capitalCalls.rows.find? fun c => c.transfer = transfer.id)
    (.doesNotExist "CapitalCall"))

def createCapitalCall (env : Env) (fundId : Uuid) (idempotencyKey : String)
    (totalAmount : Amount) (noticeDate dueDate : Date) (createdBy : String := "") :
    M (CapitalCall × Bool) := do
  let total ← Tx.lift (moneyStr totalAmount)
  let requestHash := RequestHash.capitalCall fundId total noticeDate dueDate
  runIdempotent idempotencyKey requestHash
    (postCapitalCall env fundId idempotencyKey totalAmount noticeDate dueDate createdBy requestHash)
    capitalCallOf

/-! ## Distributions -/

def nextDistributionNumber (db : Db) (fund : Uuid) : ℕ :=
  (((db.distributions.rows.filter fun d => d.fund = fund).map
    Distribution.distributionNumber).max?).getD 0 + 1

def planDistribution (env : Env) (db : Db) (fundId : Uuid) (totalAmount : Amount)
    (paymentDate : Date) : Except Exc Plan := do
  let fund ← getFund db fundId
  let period ← periodFor db fund.id paymentDate
  let (_, shares) ← proRata env db fund totalAmount
  let lpAccounts := lpCapitalAccounts db fund
  let cash ← getAccount db fund .CASH
  let legs ← shareLegs (fun lp => Account.id <$> lookup lpAccounts lp) (fun _ => .ok cash.id) shares
  return { period, legs, number := nextDistributionNumber db fund.id }

def DistributionClassification.value : DistributionClassification → String
  | .RETURN_OF_CAPITAL => "RETURN_OF_CAPITAL"
  | .GAIN => "GAIN"
  | .INCOME => "INCOME"

/-- The posting of a distribution. -/
def distributionPosting (plan : Plan) (classification : DistributionClassification)
    (idempotencyKey : String) (requestHash : RequestHash) (createdBy : String) : Posting where
  idempotencyKey
  legs := plan.legs
  period := plan.period
  transferType := .DISTRIBUTION
  description := [.lit "Distribution #", .nat plan.number, .lit " (",
    .lit classification.value, .lit ")"]
  requestHash
  createdBy

/-- `create` of a distribution. -/
def postDistribution (env : Env) (fundId : Uuid) (idempotencyKey : String)
    (totalAmount : Amount) (paymentDate : Date) (classification : DistributionClassification)
    (createdBy : String) (requestHash : RequestHash) : M Distribution := do
  let db ← Tx.read
  let plan ← Tx.lift (planDistribution env db fundId totalAmount paymentDate)
  let transfer ← postTransfer env
    (distributionPosting plan classification idempotencyKey requestHash createdBy)
  let totalAmount ← Tx.lift (storedAmount totalAmount)
  let distribution : Distribution := {
    id := env.uuid4 .document
    fund := fundId
    distributionNumber := plan.number
    paymentDate
    totalAmount
    classification
    transfer := transfer.id }
  Tx.statement fun db => insertDistribution db distribution
  return distribution

/-- `Distribution.objects.get(transfer=transfer)`. -/
def distributionOf (transfer : Transfer) : M Distribution := do
  let db ← Tx.read
  Tx.lift (orRaise (db.distributions.rows.find? fun d => d.transfer = transfer.id)
    (.doesNotExist "Distribution"))

def createDistribution (env : Env) (fundId : Uuid) (idempotencyKey : String)
    (totalAmount : Amount) (paymentDate : Date) (classification : DistributionClassification)
    (createdBy : String := "") : M (Distribution × Bool) := do
  let total ← Tx.lift (moneyStr totalAmount)
  let requestHash := RequestHash.distribution fundId total paymentDate classification
  runIdempotent idempotencyKey requestHash
    (postDistribution env fundId idempotencyKey totalAmount paymentDate classification createdBy
      requestHash)
    distributionOf

/-! ## Investments, fees and valuations -/

/-- Cash moves in pennies. -/
def costOf (amount : Amount) (rate : Dec) : Except Exc Amount :=
  match amount with
  | .finite d => .finite <$> orRaise (Dec.quantize 28 2 (Dec.mul 28 d rate)) .decimal
  | .infinite _ => .error .decimal
  | .nan => .ok .nan
  | .notDecimal _ => .error .typeError

/-- The legs of a purchase, paid from base-currency cash at the day's rate. -/
def investmentLegs (db : Db) (fund : Fund) (investment cash : Account) (amount : Amount)
    (currency : String) (onDate : Date) : Except Exc (List Leg) :=
  if currency = fund.baseCurrency then
    .ok [
      { accountId := investment.id, direction := Direction.DEBIT.value, amount },
      { accountId := cash.id, direction := Direction.CREDIT.value, amount }]
  else do
    let rate ← fxRateFor db currency fund.baseCurrency onDate
    let cost ← costOf amount rate
    return [
      { accountId := investment.id, direction := Direction.DEBIT.value, amount
        fxRate := some (.finite rate), baseAmount := some cost },
      { accountId := cash.id, direction := Direction.CREDIT.value, amount := cost }]

/-- Buy a holding in `currency`. -/
def recordInvestment (env : Env) (fundId : Uuid) (idempotencyKey : String) (amount : Amount)
    (currency : String) (onDate : Date) : M (Transfer × Bool) := do
  let db ← Tx.read
  let fund ← Tx.lift (getFund db fundId)
  let period ← Tx.lift (periodFor db fund.id onDate)
  let investment ← ensureAccount env 0 fund .INVESTMENT currency
  let db ← Tx.read
  let cash ← Tx.lift (getAccount db fund .CASH)
  let legs ← Tx.lift (investmentLegs db fund investment cash amount currency onDate)
  postTransferIdempotent env {
    idempotencyKey
    legs
    period
    transferType := .INVESTMENT
    description := [.lit "Investment ", amount.piece, .lit " ", .str currency]
    fxDate := onDate }

def feePosting (db : Db) (fundId : Uuid) (idempotencyKey : String) (amount : Amount)
    (onDate : Date) : Except Exc Posting := do
  let fund ← getFund db fundId
  let expense ← getAccount db fund .FEE_EXPENSE
  let cash ← getAccount db fund .CASH
  let period ← periodFor db fund.id onDate
  return {
    idempotencyKey
    legs := [
      { accountId := expense.id, direction := Direction.DEBIT.value, amount },
      { accountId := cash.id, direction := Direction.CREDIT.value, amount }]
    period
    transferType := .FEE
    description := [.lit "Management fee"] }

def chargeFee (env : Env) (fundId : Uuid) (idempotencyKey : String) (amount : Amount)
    (onDate : Date) : M (Transfer × Bool) := do
  let db ← Tx.read
  let posting ← Tx.lift (feePosting db fundId idempotencyKey amount onDate)
  postTransferIdempotent env posting

/-- `change > 0` and `abs(change)`.  Comparing a NaN raises. -/
def changeSize : Amount → Except Exc (Bool × Amount)
  | .finite d => .ok (decide (0 < d.coeff), .finite d.abs)
  | .infinite negative => .ok (!negative, .infinite false)
  | .nan => .error .decimal
  | .notDecimal _ => .error .typeError

/-- `change == 0`. -/
def Amount.isZero : Amount → Bool
  | .finite d => d.coeff = 0
  | _ => false

def valuationPosting (db : Db) (fundId : Uuid) (idempotencyKey : String) (change : Amount)
    (onDate : Date) : Except Exc Posting := do
  require (¬change.isZero)
    (invalidTransfer [.lit "a valuation change of zero is not a transfer"])
  let fund ← getFund db fundId
  let investment ← getAccount db fund .INVESTMENT
  let gainLoss ← getAccount db fund .GAIN_LOSS
  let (up, size) ← changeSize change
  let (debit, credit) := if up then (investment, gainLoss) else (gainLoss, investment)
  let period ← periodFor db fund.id onDate
  return {
    idempotencyKey
    legs := [
      { accountId := debit.id, direction := Direction.DEBIT.value, amount := size },
      { accountId := credit.id, direction := Direction.CREDIT.value, amount := size }]
    period
    transferType := .ADJUSTMENT
    description := [.lit "Valuation change"] }

/-- Mark the portfolio up or down, in base currency. -/
def recordValuation (env : Env) (fundId : Uuid) (idempotencyKey : String) (change : Amount)
    (onDate : Date) : M (Transfer × Bool) := do
  let db ← Tx.read
  let posting ← Tx.lift (valuationPosting db fundId idempotencyKey change onDate)
  postTransferIdempotent env posting

end FundLedger
