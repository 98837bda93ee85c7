import FundLedger.Api.Entries
import FundLedger.Api.Requests
import FundLedger.Api.Reversal
import FundLedger.Lib.Projection

/-!
# The views

`access/permissions.py` and the views of `api/views.py`.  `serve` answers one
request: who is asking, which fund the path leads to, what the caller may do
there, and then the view.  The views that write hand over to the services, which
have a transaction of their own; nothing is put around them.

A view that only reads is a function of the database.  Rate limits, content
negotiation and the rendering as CSV are left out.
-/

namespace FundLedger.Api

open Lib

/-- A page of rows, with the cursors of the links to the next and the previous one. -/
structure EntryPage where
  rows : List Entry
  next : Option String
  previous : Option String

/-- What the views read beside the database: the framework's parser of points in
time and its paginator, which gets the rows and the cursor, the collation of the
text columns, and the orders of the queries without `ORDER BY`. -/
structure ApiEnv extends Env where
  parseDatetime : String → Except Unit (Option Instant)
  paginate : List Entry → Option String → Except String EntryPage
  textLe : String → String → Bool
  entryOrder : RowOrder Entry := .insertion Entry
  membershipOrder : RowOrder FundMembership := .insertion FundMembership

/-! ## Permissions -/

/-- `ROLE_RANK`. -/
def roleRank : Role → ℕ
  | .LP => 0
  | .VIEWER => 1
  | .OPERATOR => 2
  | .CONTROLLER => 3

/-- `required_role` of each view. -/
def FundRequest.requiredRole : FundRequest → Role
  | .fundAccounts _ => .VIEWER
  | .fundPeriods _ => .LP
  | .capitalCalls .. => .OPERATOR
  | .distributions .. => .OPERATOR
  | .reverseTransfer .. => .OPERATOR
  | .accountBalance .. => .VIEWER
  | .accountEntries .. => .VIEWER
  | .closePeriod .. => .CONTROLLER
  | .lpStatement .. => .LP
  | .fundReconciliation _ => .VIEWER

/-- `NotFound()`. -/
def notFound : ApiExc := .notFound "Not found."

/-- The fund of the account in a path. -/
def accountFundId (db : Db) (accountId : Uuid) : Option Uuid :=
  (db.accounts.get? accountId).map Account.fund

/-- The fund of the transfer in a path, through its period. -/
def transferFundId (db : Db) (transferId : Uuid) : Option Uuid := do
  let t ← db.transfers.get? transferId
  let p ← db.periods.get? t.period
  return p.fund

/-- `get_fund_id`: the fund of the path, or that of the account or the transfer
in it. -/
def FundRequest.fundId (db : Db) : FundRequest → Except ApiExc Uuid
  | .fundAccounts fundId => .ok fundId
  | .fundPeriods fundId => .ok fundId
  | .capitalCalls fundId _ _ => .ok fundId
  | .distributions fundId _ _ => .ok fundId
  | .reverseTransfer transferId _ _ => orRaise (transferFundId db transferId) notFound
  | .accountBalance accountId _ => orRaise (accountFundId db accountId) notFound
  | .accountEntries accountId _ => orRaise (accountFundId db accountId) notFound
  | .closePeriod fundId _ => .ok fundId
  | .lpStatement fundId _ _ => .ok fundId
  | .fundReconciliation fundId => .ok fundId

/-- The membership of a user on a fund. -/
def membershipOf (db : Db) (user fund : Uuid) : Option FundMembership :=
  db.memberships.rows.find? fun m => m.user = user ∧ m.fund = fund

/-- `FundRolePermission.has_permission`. -/
def hasPermission (db : Db) (caller : Option User) (r : FundRequest) :
    Except ApiExc (User × FundMembership) := do
  let user ← orRaise caller .notAuthenticated
  let fundId ← r.fundId db
  let membership ← orRaise (membershipOf db user.id fundId) notFound
  require (roleRank r.requiredRole ≤ roleRank membership.role) .permissionDenied
  return (user, membership)

/-! ## Views that read -/

/-- `get_object_or_404`. -/
def getObjectOr404 {α : Type} (model : String) (x : Option α) : Except ApiExc α :=
  orRaise x (.notFound ("No " ++ model ++ " matches the given query."))

/-- What a query raised. -/
def orService {α : Type} : Except Exc α → Except ApiExc α
  | .ok a => .ok a
  | .error e => .error (.service e)

def meView (env : ApiEnv) (user : User) (db : Db) : Content :=
  let memberships := env.membershipOrder.order (db.memberships.rows.filter fun m => m.user = user.id)
  let rows := memberships.filterMap fun m => (db.funds.get? m.fund).map fun f =>
    ({ fund := m.fund, fundName := f.name, role := m.role, lp := m.lp } : MembershipData)
  .me user.username (rows.insertionSort fun a b => env.textLe a.fundName b.fundName)

def fundAccountsView (env : ApiEnv) (fundId : Uuid) (db : Db) : Content :=
  .accounts (((db.accounts.rows.filter fun a => a.fund = fundId).insertionSort fun a b =>
    env.textLe a.code b.code).map accountData)

def fundPeriodsView (fundId : Uuid) (db : Db) : Content :=
  .periods (((db.periods.rows.filter fun p => p.fund = fundId).insertionSort fun p q =>
    p.startDate ≤ q.startDate).map periodData)

def accountBalanceView (env : ApiEnv) (accountId : Uuid) (asOf : Option String) (db : Db) :
    Except ApiExc Content := do
  let account ← getObjectOr404 "Account" (db.accounts.get? accountId)
  let asOf ← parseAsOf env.parseDatetime asOf
  return .balance {
    account := account.id
    currency := account.currency
    balance := Money.orZero (nativeBalance db account.id (asOf.map Instant.timestamp))
    baseBalance := Money.orZero (baseBalance db account.id (asOf.map Instant.timestamp))
    asOf := asOf.map Instant.isoformat }

def accountEntriesView (env : ApiEnv) (accountId : Uuid) (cursor : Option String) (db : Db) :
    Except ApiExc Content :=
  match env.paginate (viewEntries db accountId) cursor with
  | .ok page => .ok (.entries (page.rows.map entryData) page.next page.previous)
  | .error text => .error (.notFound text)

/-- A partner may see its own statement only. -/
def lpStatementView (env : ApiEnv) (membership : FundMembership) (fundId lpId : Uuid)
    (period : Option Uuid) (db : Db) : Except ApiExc Content := do
  require (¬(membership.role = .LP ∧ membership.lp ≠ some lpId)) notFound
  let fund ← getObjectOr404 "Fund" (db.funds.get? fundId)
  let lp ← getObjectOr404 "LimitedPartner" (db.lps.get? lpId)
  let periodId ← orRaise period
    (.validation [("period", .text "A period id (UUID) is required.")])
  let period ← getObjectOr404 "Period"
    ((db.periods.get? periodId).filter fun p => p.fund = fund.id)
  let statement ← orService (lpStatement db env.commitmentOrder fund lp period)
  return .statement statement

def fundReconciliationView (fundId : Uuid) (db : Db) : Content :=
  .reconciliation (fundReconciliation db fundId)

/-! ## Views that write -/

/-- A view runs against the database and may raise. -/
abbrev View := Tx Db ApiExc Response

def reading (f : Db → Except ApiExc Content) : View := do
  let db ← Tx.read
  let content ← Tx.lift (f db)
  return ⟨200, content⟩

/-- A service called by a view. -/
def service {α : Type} (m : M α) : Tx Db ApiExc α := Tx.mapError .service m

def createdOrReplayed (content : Content) (created : Bool) : Response :=
  ⟨if created then 201 else 200, content⟩

def capitalCallsView (env : ApiEnv) (user : User) (fundId : Uuid) (header : Option String)
    (body : Body CapitalCallBody) : View := do
  let key ← Tx.lift (idempotencyKey header)
  let body ← Tx.lift (readBody body)
  let attrs ← Tx.lift body.validate
  let (call, created) ← service (createCapitalCall env.toEnv fundId key attrs.totalAmount.amount
    attrs.noticeDate attrs.dueDate user.username)
  return createdOrReplayed (.capitalCall call) created

def distributionsView (env : ApiEnv) (user : User) (fundId : Uuid) (header : Option String)
    (body : Body DistributionBody) : View := do
  let key ← Tx.lift (idempotencyKey header)
  let body ← Tx.lift (readBody body)
  let attrs ← Tx.lift body.validate
  let (distribution, created) ← service (createDistribution env.toEnv fundId key
    attrs.totalAmount.amount attrs.paymentDate attrs.classification user.username)
  return createdOrReplayed (.distribution distribution) created

/-- The transfer as it is shown, with its entries. -/
def transferData (env : ApiEnv) (db : Db) (t : Transfer) : TransferData where
  id := t.id
  idempotencyKey := t.idempotencyKey
  transferType := t.transferType
  reverses := t.reverses
  period := t.period
  description := t.description
  entries := (env.entryOrder.order (entriesOf db t.id)).map entryData

def reverseTransferView (env : ApiEnv) (user : User) (transferId : Uuid) (header : Option String)
    (body : Body ReverseBody) : View := do
  let key ← Tx.lift (idempotencyKey header)
  let db ← Tx.read
  let _ ← Tx.lift (orService (orRaise (db.transfers.get? transferId) (.doesNotExist "Transfer")))
  let body ← Tx.lift (readBody body)
  let onDate ← Tx.lift body.validate
  let (reversal, created) ← service (postReversal env.toEnv transferId key onDate user.username)
  let db ← Tx.read
  return createdOrReplayed (.transfer (transferData env db reversal)) created

def closePeriodView (env : ApiEnv) (user : User) (fundId periodId : Uuid) : View := do
  let (period, _) ← service (closePeriod env.toEnv fundId periodId user.username)
  return ⟨200, .period (periodData period)⟩

/-! ## Serving a request -/

def FundRequest.view (env : ApiEnv) (user : User) (membership : FundMembership) :
    FundRequest → View
  | .fundAccounts fundId => reading fun db => .ok (fundAccountsView env fundId db)
  | .fundPeriods fundId => reading fun db => .ok (fundPeriodsView fundId db)
  | .capitalCalls fundId header body => capitalCallsView env user fundId header body
  | .distributions fundId header body => distributionsView env user fundId header body
  | .reverseTransfer transferId header body => reverseTransferView env user transferId header body
  | .accountBalance accountId asOf => reading (accountBalanceView env accountId asOf)
  | .accountEntries accountId cursor => reading (accountEntriesView env accountId cursor)
  | .closePeriod fundId periodId => closePeriodView env user fundId periodId
  | .lpStatement fundId lpId period => reading (lpStatementView env membership fundId lpId period)
  | .fundReconciliation fundId => reading fun db => .ok (fundReconciliationView fundId db)

/-- The permission check, and then the view. -/
def dispatch (env : ApiEnv) (q : Incoming) : View :=
  match q.request with
  | .me => do
    let user ← Tx.lift (orRaise q.caller .notAuthenticated)
    reading fun db => .ok (meView env user db)
  | .fundScoped r => do
    let db ← Tx.read
    let (user, membership) ← Tx.lift (hasPermission db q.caller r)
    r.view env user membership

/-- The response and the database after a request. -/
def serve (env : ApiEnv) (q : Incoming) (db : Db) : Response × Db :=
  match dispatch env q db with
  | (.ok response, db') => (response, db')
  | (.error e, db') => (exceptionHandler q.requestId e, db')

end FundLedger.Api
