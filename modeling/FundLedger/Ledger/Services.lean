import FundLedger.Ledger.Idempotency
import FundLedger.Ledger.Queries

/-!
# The ledger engine

`ledger/services.py`.  `postTransfer` is the only code path that writes
entries: it validates the legs, locks the accounts, checks the context, prices
the legs, checks the balance and the funds, and then inserts the transfer, its
entries, and fires the deferred balance check.  `postTransferIdempotent` and
`reverseTransfer` run it under an idempotency key.

Every check is a definition of its own that reads a database and either passes
or raises, so that the sequential service here and the step relation of
concurrent postings share them.
-/

namespace FundLedger

open Lib

/-- The keyword arguments of `post_transfer`.  The period is the object the
caller holds, so its status may be out of date. -/
structure Posting where
  idempotencyKey : String
  legs : List Leg
  period : Period
  transferType : TransferType
  description : Message := []
  reverses : Option Uuid := none
  requestHash : RequestHash := .blank
  createdBy : String := ""
  fxDate : Option Date := none

/-! ## The checks -/

/-- The accounts of the legs in ascending primary-key order, which is the
order in which they are locked. -/
def lockOrder (legs : List ValidLeg) : List Uuid :=
  (legs.map ValidLeg.accountId).dedup.insertionSort (· ≤ ·)

/-- Lock every account the transfer touches, in ascending primary-key order. -/
def lockAccounts (db : Db) (legs : List ValidLeg) : Except Exc (List Account) :=
  let ids := lockOrder legs
  let locked := ids.filterMap db.accounts.get?
  if locked.length ≠ ids.length then
    .error (.ledger .UnknownAccount [.lit "unknown account(s): ",
      .uuids (ids.filter fun i => (db.accounts.get? i).isNone)])
  else .ok locked

/-- `str(period)`. -/
def Period.pieces (p : Period) : Message :=
  [.date p.startDate, .lit "..", .date p.endDate,
    .lit (match p.status with | .OPEN => " (OPEN)" | .CLOSED => " (CLOSED)")]

/-- A friendly early error.  The guarantee is the period trigger. -/
def validateContext (period : Period) (accounts : List Account) : Except Exc Unit :=
  if period.status ≠ .OPEN then
    .error (.ledger .ClosedPeriod ([.lit "period "] ++ period.pieces ++ [.lit " is closed"]))
  else
    let foreign := accounts.filter fun a => a.fund ≠ period.fund
    if foreign ≠ [] then
      .error (invalidTransfer [.lit "accounts ",
        .strs ((foreign.map Account.code).insertionSort (· ≤ ·)),
        .lit " do not belong to this period's fund"])
    else .ok ()

/-- `period.fund.base_currency`. -/
def baseCurrencyOf (db : Db) (period : Period) : Except Exc String :=
  Fund.baseCurrency <$> orRaise (db.funds.get? period.fund) (.doesNotExist "Fund")

/-- A friendly early error.  The guarantee is the deferred balance trigger. -/
def checkBalanced (priced : List PricedLeg) : Except Exc Unit :=
  let debits := sideTotal .DEBIT priced
  let credits := sideTotal .CREDIT priced
  require (debits.eqv credits)
    (.ledger .UnbalancedTransfer [.lit "debits ", .dec debits, .lit " != credits ", .dec credits])

/-- `deltas[account] += x`, with the keys in the order of their first use. -/
def bump : List (Uuid × Dec) → Uuid → Dec → List (Uuid × Dec)
  | [], a, x => [(a, Dec.zero + x)]
  | (b, y) :: rest, a, x =>
    if b = a then (b, y + x) :: rest else (b, y) :: bump rest a x

/-- `+amount` for a debit, `-amount` for a credit. -/
def PricedLeg.signedAmount (p : PricedLeg) : Dec :=
  match p.direction with
  | .DEBIT => p.amount
  | .CREDIT => -p.amount

/-- The net movement of each guarded account. -/
def fundDeltas (priced : List PricedLeg) : List (Uuid × Dec) :=
  priced.foldl (fun deltas p =>
    if p.account.accountType ∈ nonNegativeTypes then
      bump deltas p.account.id p.signedAmount
    else deltas) []

/-- The overdraft check, given the balances it reads. -/
def checkSufficientFunds (balance : Uuid → Money) (priced : List PricedLeg) : Except Exc Unit :=
  (fundDeltas priced).forM fun d =>
    if 0 ≤ d.2.coeff then .ok ()
    else
      let available := (balance d.1).toDec
      require (0 ≤ (available + d.2).coeff)
        (.ledger .InsufficientFunds [.lit "account ", .uuid d.1, .lit " holds ",
          .dec available, .lit ", needs ", .dec (-d.2)])

/-! ## Writing -/

/-- Storing the rate of a leg that has one. -/
def storedRate : Option Dec → Except Exc (Option Rate)
  | none => .ok none
  | some r => some <$> orRaise (Rate.ofDec? r) .data

/-- The row of one priced leg.  A value that its column cannot hold is a
`DataError`. -/
def entryOf (env : Env) (transfer : Uuid) (p : PricedLeg) (index : ℕ) : Except Exc Entry := do
  let amount ← orRaise (Money.ofDec? p.amount) .data
  let fxRate ← storedRate p.fxRate
  let baseAmount ← orRaise (Money.ofDec? p.baseAmount) .data
  return {
    id := env.uuid4 (.entry index)
    transfer
    account := p.account.id
    direction := p.direction
    amount
    currency := p.currency
    fxRate
    baseAmount
    createdAt := env.now }

def entriesFor (env : Env) (transfer : Uuid) (priced : List PricedLeg) :
    Except Exc (List Entry) :=
  priced.zipIdx.mapM fun c => entryOf env transfer c.1 c.2

/-- The transfer row of a posting. -/
def transferFor (env : Env) (a : Posting) : Transfer where
  id := env.uuid4 .transfer
  idempotencyKey := a.idempotencyKey
  requestHash := a.requestHash
  transferType := a.transferType
  reverses := a.reverses
  period := a.period.id
  description := a.description
  createdBy := a.createdBy
  createdAt := env.now

/-- Everything `post_transfer` reads and checks before it writes. -/
def preparePosting (env : Env) (db : Db) (a : Posting) (legs : List ValidLeg) :
    Except Exc (List PricedLeg) := do
  let accounts ← lockAccounts db legs
  validateContext a.period accounts
  let baseCurrency ← baseCurrencyOf db a.period
  let priced ← priceLegs db legs accounts baseCurrency (a.fxDate.getD env.today)
  checkBalanced priced
  checkSufficientFunds (fun account => nativeBalance db account) priced
  return priced

def postTransfer (env : Env) (a : Posting) : M Transfer := do
  let legs ← Tx.lift (validateLegs a.legs)
  Tx.atomic do
    let db ← Tx.read
    let priced ← Tx.lift (preparePosting env db a legs)
    let transfer := transferFor env a
    Tx.statement fun db => insertTransfer db transfer
    let entries ← Tx.lift (entriesFor env transfer.id priced)
    Tx.statement fun db => insertEntries db entries
    -- The deferred balance trigger runs now instead of at the eventual commit.
    let db ← Tx.read
    Tx.lift (assertTransferBalances db transfer.id)
    return transfer

/-! ## Posting under a key -/

/-- The triple that a leg contributes to the fingerprint. -/
def legFingerprint (leg : ValidLeg) : Except Exc (Uuid × Direction × ℤ) := do
  let units ← moneyUnits leg.amount
  return (leg.accountId, leg.direction, units)

/-- The order in which fingerprint triples are listed.  It only serves to make
the list canonical: account first, then direction, then amount. -/
def fingerprintLe (a b : Uuid × Direction × ℤ) : Prop :=
  let rank : Direction → ℕ := fun d => match d with | .CREDIT => 0 | .DEBIT => 1
  a.1 < b.1 ∨ a.1 = b.1 ∧ (rank a.2.1 < rank b.2.1 ∨ a.2.1 = b.2.1 ∧ a.2.2 ≤ b.2.2)

instance : DecidableRel fingerprintLe := fun a b => by
  unfold fingerprintLe
  exact inferInstance

/-- `request_fingerprint(kind="transfer", ...)`. -/
def transferFingerprint (a : Posting) (legs : List ValidLeg) : Except Exc RequestHash := do
  let triples ← legs.mapM legFingerprint
  return .transfer a.transferType a.period.id (triples.insertionSort fingerprintLe)

/-- `reverses` and `requestHash` of the posting are not arguments here. -/
def postTransferIdempotent (env : Env) (a : Posting) : M (Transfer × Bool) := do
  let legs ← Tx.lift (validateLegs a.legs)
  let requestHash ← Tx.lift (transferFingerprint a legs)
  runIdempotent a.idempotencyKey requestHash
    (postTransfer env { a with reverses := none, requestHash })
    pure

def reversesConstraint : String := "transfer_reverses_unique"

def Direction.flip : Direction → Direction
  | .DEBIT => .CREDIT
  | .CREDIT => .DEBIT

/-- `original.reversals.first()`. -/
def reversalOf (db : Db) (original : Uuid) : Option Transfer :=
  db.transfers.rows.find? fun t => t.reverses = some original

/-- The flipped leg of an entry, keeping its original rate and base amount. -/
def flippedLeg (e : Entry) : Leg where
  accountId := e.account
  direction := e.direction.flip.value
  amount := .finite e.amount.toDec
  fxRate := e.fxRate.map fun r => .finite r.toDec
  baseAmount := some (.finite e.baseAmount.toDec)

/-- `original.entries.order_by("id")`. -/
def entriesById (db : Db) (transfer : Uuid) : List Entry :=
  (entriesOf db transfer).insertionSort fun a b => a.id ≤ b.id

/-- Post a new transfer that exactly cancels `transferId`.  Never touches the
original. -/
def reverseTransfer (env : Env) (transferId : Uuid) (idempotencyKey : String)
    (period : Period) (createdBy : String := "") : M (Transfer × Bool) := do
  let db ← Tx.read
  let original ← Tx.lift (orRaise (db.transfers.get? transferId) (.doesNotExist "Transfer"))
  Tx.lift (require (original.transferType ≠ .REVERSAL) (invalidTransfer
    [.lit "a reversal cannot itself be reversed; post a new transfer instead"]))
  Tx.lift (match reversalOf db original.id with
    | none => .ok ()
    | some existing => require (existing.idempotencyKey = idempotencyKey)
        (.ledger .AlreadyReversed [.lit "transfer ", .uuid original.id,
          .lit " was already reversed by ", .uuid existing.id]))
  let requestHash := RequestHash.reversal original.id period.id
  tryCatch
    (runIdempotent idempotencyKey requestHash
      (postTransfer env {
        idempotencyKey
        legs := (entriesById db original.id).map flippedLeg
        period
        transferType := .REVERSAL
        description := [.lit "Reversal of ", .uuid original.id]
        reverses := some original.id
        requestHash
        createdBy })
      pure)
    fun e =>
      -- Lost a race with a concurrent reversal using a different key.
      if e = .integrity reversesConstraint then
        throw (.ledger .AlreadyReversed [.lit "transfer ", .uuid original.id,
          .lit " was already reversed"])
      else throw e

end FundLedger
