import FundLedger.Lib.Interleaving
import FundLedger.Operations.Services

/-!
# Concurrent service calls

The services once more, cut into the steps at which another transaction can
come in between.  A step runs one statement, or a few that only read what
cannot change, with the checks of the sequential services.  Isolation is
`READ COMMITTED`: a statement sees the committed rows and those of its own
transaction, which together are a `view`.

A transaction holds its row locks and its uncommitted rows until it ends.  It
waits while another one holds a lock it wants, or has an uncommitted row with
the same value in a unique index.  It can fail at any point, and then nothing
of it is left.

Both `INSERT` statements of a posting get the instant at which the second one
starts, since nothing reads the `created_at` of a transfer.  The exchange
rates are those of the start.
-/

namespace FundLedger

open Lib

/-! ## Locks and uncommitted rows -/

/-- A row that a transaction locks. -/
inductive Resource
  | fund (id : Uuid)
  | account (id : Uuid)
  | period (id : Uuid)
  deriving DecidableEq

/-- `FOR SHARE` or `FOR UPDATE`. -/
inductive LockMode
  | share
  | update
  deriving DecidableEq

/-- What a statement writes. -/
inductive Write
  | transfer (t : Transfer)
  | entry (e : Entry)
  | capitalCall (c : CapitalCall)
  | distribution (d : Distribution)
  | closed (period : Uuid) (now : Timestamp) (closedBy : String)

namespace Write

/-- The statement, with the checks of the server. -/
def run (db : Db) : Write → Except Exc Db
  | .transfer t => insertTransfer db t
  | .entry e => insertEntry db e
  | .capitalCall c => insertCapitalCall db c
  | .distribution d => insertDistribution db d
  | .closed period now closedBy => updatePeriod db period now closedBy

/-- The row that the statement left, added to a database without any check. -/
def store (db : Db) : Write → Db
  | .transfer t => { db with transfers := (db.transfers.insert t).getD db.transfers }
  | .entry e => { db with entries := (db.entries.insert e).getD db.entries }
  | .capitalCall c => { db with capitalCalls := (db.capitalCalls.insert c).getD db.capitalCalls }
  | .distribution d =>
    { db with distributions := (db.distributions.insert d).getD db.distributions }
  | .closed period now closedBy =>
    { db with
      periods := db.periods.update (fun p => p.id = period) (·.close now closedBy)
        (Period.close_id now closedBy) }

/-- Two rows with the same value in a unique index. -/
def Clash : Write → Write → Prop
  | .transfer t, .transfer u => t.id = u.id ∨ t.idempotencyKey = u.idempotencyKey ∨
      (t.reverses.isSome ∧ u.reverses = t.reverses)
  | .entry e, .entry f => e.id = f.id
  | .capitalCall c, .capitalCall d => c.id = d.id ∨
      (c.fund = d.fund ∧ c.callNumber = d.callNumber) ∨ c.transfer = d.transfer
  | .distribution c, .distribution d => c.id = d.id ∨
      (c.fund = d.fund ∧ c.distributionNumber = d.distributionNumber) ∨ c.transfer = d.transfer
  | _, _ => False

end Write

/-- The committed rows and those of one transaction. -/
def view (db : Db) (writes : List Write) : Db := writes.foldl Write.store db

/-- What a transaction may have to wait for. -/
inductive Demand
  | lock (r : Resource) (mode : LockMode)
  | row (w : Write)

def Demand.Clash : Demand → Demand → Prop
  | .lock r m, .lock r' m' => r = r' ∧ ¬(m = .share ∧ m' = .share)
  | .row w, .row x => w.Clash x
  | _, _ => False

/-! ## What a transaction is about -/

/-- The document of a capital call or a distribution, as it was asked for. -/
inductive DocumentRequest
  | capitalCall (fundId : Uuid) (totalAmount : Amount) (noticeDate dueDate : Date)
  | distribution (fundId : Uuid) (totalAmount : Amount) (paymentDate : Date)
      (classification : DistributionClassification)

namespace DocumentRequest

def fundId : DocumentRequest → Uuid
  | .capitalCall fundId .. => fundId
  | .distribution fundId .. => fundId

def totalAmount : DocumentRequest → Amount
  | .capitalCall _ totalAmount .. => totalAmount
  | .distribution _ totalAmount .. => totalAmount

def plan (env : Env) (db : Db) : DocumentRequest → Except Exc Plan
  | .capitalCall fundId totalAmount noticeDate _ =>
    planCapitalCall env db fundId totalAmount noticeDate
  | .distribution fundId totalAmount paymentDate _ =>
    planDistribution env db fundId totalAmount paymentDate

/-- `MAX + 1` of the numbers of the fund. -/
def nextNumber (db : Db) : DocumentRequest → ℕ
  | .capitalCall fundId .. => nextCallNumber db fundId
  | .distribution fundId .. => nextDistributionNumber db fundId

def posting (plan : Plan) (idempotencyKey : String) (requestHash : RequestHash)
    (createdBy : String) : DocumentRequest → Posting
  | .capitalCall .. => capitalCallPosting plan idempotencyKey requestHash createdBy
  | .distribution _ _ _ classification =>
    distributionPosting plan classification idempotencyKey requestHash createdBy

/-- The row of the document. -/
def row (id : Uuid) (number : ℕ) (totalAmount : Money) (transfer : Uuid) : DocumentRequest → Write
  | .capitalCall fundId _ noticeDate dueDate => .capitalCall {
      id
      fund := fundId
      callNumber := number
      noticeDate
      dueDate
      totalAmount
      transfer }
  | .distribution fundId _ paymentDate classification => .distribution {
      id
      fund := fundId
      distributionNumber := number
      paymentDate
      totalAmount
      classification
      transfer }

theorem legs_posting (d : DocumentRequest) (plan : Plan) (key : String) (requestHash : RequestHash)
    (createdBy : String) : (d.posting plan key requestHash createdBy).legs = plan.legs := by
  cases d <;> rfl

end DocumentRequest

/-- A run of `create` of `create_capital_call` or `create_distribution`. -/
structure DocumentCall where
  env : Env
  document : DocumentRequest
  idempotencyKey : String
  requestHash : RequestHash
  createdBy : String

/-- A run of `post_transfer` whose legs have been validated, with the document
it is for and the number of that. -/
structure Ticket where
  env : Env
  posting : Posting
  legs : List ValidLeg
  valid : validateLegs posting.legs = .ok legs
  document : Option (DocumentRequest × ℕ)

/-- `post_transfer` for a document. -/
def DocumentCall.ticket (c : DocumentCall) (plan : Plan) (number : ℕ) (legs : List ValidLeg)
    (valid : validateLegs plan.legs = .ok legs) : Ticket where
  env := c.env
  posting := c.document.posting { plan with number } c.idempotencyKey c.requestHash c.createdBy
  legs
  valid := by rw [DocumentRequest.legs_posting]; exact valid
  document := some (c.document, number)

namespace Ticket

/-- The instant of the `INSERT` statements. -/
def stamp (t : Ticket) (now : Timestamp) : Ticket := { t with env := { t.env with now } }

/-- The row of the transfer. -/
def transfer (t : Ticket) : Transfer := transferFor t.env t.posting

end Ticket

/-- A run of `close_period`. -/
structure Closing where
  env : Env
  fundId : Uuid
  periodId : Uuid
  closedBy : String

/-! ## Checks between the steps -/

/-- What `post_transfer` reads and checks before it looks at balances. -/
def pricePosting (env : Env) (db : Db) (a : Posting) (legs : List ValidLeg) :
    Except Exc (List PricedLeg) := do
  let accounts ← lockAccounts db legs
  validateContext a.period accounts
  let baseCurrency ← baseCurrencyOf db a.period
  let priced ← priceLegs db legs accounts baseCurrency (a.fxDate.getD env.today)
  checkBalanced priced
  return priced

/-- The overdraft check on one account. -/
def checkDelta (balance : Uuid → Money) (d : Uuid × Dec) : Except Exc Unit :=
  if 0 ≤ d.2.coeff then .ok ()
  else
    let available := (balance d.1).toDec
    require (0 ≤ (available + d.2).coeff)
      (.ledger .InsufficientFunds [.lit "account ", .uuid d.1, .lit " holds ",
        .dec available, .lit ", needs ", .dec (-d.2)])

theorem checkSufficientFunds_eq (balance : Uuid → Money) (priced : List PricedLeg) :
    checkSufficientFunds balance priced = (fundDeltas priced).forM (checkDelta balance) := rfl

theorem preparePosting_eq (env : Env) (db : Db) (a : Posting) (legs : List ValidLeg) :
    preparePosting env db a legs = do
      let priced ← pricePosting env db a legs
      checkSufficientFunds (fun account => nativeBalance db account) priced
      return priced := by
  simp only [preparePosting, pricePosting, bind_assoc, pure_bind]

/-- No earlier period of the fund is open. -/
def EarlierClosed (db : Db) (fundId : Uuid) (period : Period) : Prop :=
  ∀ p ∈ db.periods.rows, ¬(p.fund = fundId ∧ p.startDate < period.startDate ∧ p.status = .OPEN)

/-! ## Sessions -/

/-- How far a transaction has got. -/
inductive Phase
  | idle
  /-- `create` has begun; the fund row comes next -/
  | begun (c : DocumentCall)
  /-- the fund row is locked -/
  | planning (c : DocumentCall)
  /-- the shares are known and the partners' commitments suffice -/
  | numbering (c : DocumentCall) (plan : Plan)
  /-- `post_transfer` locks the accounts `todo` -/
  | locking (t : Ticket) (todo : List Uuid)
  /-- the legs are priced; the balances for `todo` are still to be checked -/
  | checking (t : Ticket) (priced : List PricedLeg) (todo : List (Uuid × Dec))
  /-- the transfer is inserted, and the entries but for `todo` -/
  | inserting (t : Ticket) (priced : List PricedLeg) (todo : List Entry)
  /-- `post_transfer` has returned -/
  | posted (t : Ticket) (priced : List PricedLeg)
  /-- the document is inserted -/
  | documented (t : Ticket) (priced : List PricedLeg)
  /-- `close_period` has begun; the period row comes next -/
  | closingBegun (c : Closing)
  /-- the period row is locked and read -/
  | closing (c : Closing) (period : Period)
  /-- the earlier periods are closed -/
  | inOrder (c : Closing) (period : Period)
  /-- the period reconciles -/
  | reconciled (c : Closing) (period : Period)
  /-- the period is updated -/
  | closed (c : Closing) (period : Period)

/-- A connection, with the transaction that runs on it. -/
structure Session where
  phase : Phase
  locks : List (Resource × LockMode)
  writes : List Write

def Session.idle : Session := ⟨.idle, [], []⟩

/-- What a session holds until its transaction ends. -/
def Session.Claims (s : Session) : Demand → Prop
  | .lock r mode => (r, mode) ∈ s.locks
  | .row w => w ∈ s.writes

/-- What happened, for the record: a commit, or a refusal by the overdraft
check. -/
inductive Event
  | posted (t : Ticket)
  | refused (t : Ticket) (e : Exc)
  | closed (c : Closing)
  | opened (a : Account)

/-- The committed database, the clock of the server, and the events so far. -/
structure World where
  db : Db
  clock : Timestamp
  log : List Event

/-- A commit. -/
def World.commit (w : World) (writes : List Write) (e : Event) : World :=
  { w with db := view w.db writes, log := w.log ++ [e] }

/-- The steps of one session.  `Q` is what is known about the arguments of a
plain posting when it begins, and `free` says what need not be waited for. -/
inductive Move (Q : Db → Posting → Prop) (free : Demand → Prop) :
    World → Session → World → Session → Prop
  | beginPosting {w : World} {env : Env} {a : Posting} {legs : List ValidLeg} (known : Q w.db a)
      (valid : validateLegs a.legs = .ok legs) :
      Move Q free w .idle w
        ⟨.locking { env, posting := a, legs, valid, document := none } (lockOrder legs), [], []⟩
  | beginDocument {w : World} {c : DocumentCall} : Move Q free w .idle w ⟨.begun c, [], []⟩
  | lockFund {w : World} {c : DocumentCall} {ls ws} {fund : Fund}
      (found : getFund w.db c.document.fundId = .ok fund)
      (unlocked : free (.lock (.fund c.document.fundId) .update)) :
      Move Q free w ⟨.begun c, ls, ws⟩
        w ⟨.planning c, (.fund c.document.fundId, .update) :: ls, ws⟩
  | plan {w : World} {c : DocumentCall} {ls ws} {plan : Plan}
      (planned : c.document.plan c.env w.db = .ok plan) :
      Move Q free w ⟨.planning c, ls, ws⟩ w ⟨.numbering c plan, ls, ws⟩
  | number {w : World} {c : DocumentCall} {ls ws} {plan : Plan} {legs : List ValidLeg}
      (valid : validateLegs plan.legs = .ok legs) :
      Move Q free w ⟨.numbering c plan, ls, ws⟩ w
        ⟨.locking (c.ticket plan (c.document.nextNumber w.db) legs valid) (lockOrder legs), ls, ws⟩
  | lockAccount {w : World} {t : Ticket} {ls ws} {a : Account} {todo : List Uuid}
      (found : a ∈ w.db.accounts) (unlocked : free (.lock (.account a.id) .update)) :
      Move Q free w ⟨.locking t (a.id :: todo), ls, ws⟩
        w ⟨.locking t todo, (.account a.id, .update) :: ls, ws⟩
  | price {w : World} {t : Ticket} {ls ws} {priced : List PricedLeg}
      (checked : pricePosting t.env w.db t.posting t.legs = .ok priced) :
      Move Q free w ⟨.locking t [], ls, ws⟩ w ⟨.checking t priced (fundDeltas priced), ls, ws⟩
  | checkFunds {w : World} {t : Ticket} {ls ws} {priced : List PricedLeg} {d : Uuid × Dec}
      {todo : List (Uuid × Dec)}
      (enough : checkDelta (fun account => nativeBalance w.db account) d = .ok ()) :
      Move Q free w ⟨.checking t priced (d :: todo), ls, ws⟩ w ⟨.checking t priced todo, ls, ws⟩
  | refuse {w : World} {t : Ticket} {ls ws} {priced : List PricedLeg} {d : Uuid × Dec}
      {todo : List (Uuid × Dec)} {e : Exc}
      (short : checkDelta (fun account => nativeBalance w.db account) d = .error e) :
      Move Q free w ⟨.checking t priced (d :: todo), ls, ws⟩
        { w with log := w.log ++ [.refused t e] } .idle
  | insertTransfer {w : World} {t : Ticket} {ls ws} {priced : List PricedLeg} {es : List Entry}
      {db : Db}
      (inserted : (Write.transfer (t.stamp w.clock).transfer).run (view w.db ws) = .ok db)
      (unclaimed : free (.row (.transfer (t.stamp w.clock).transfer)))
      (rows : entriesFor (t.stamp w.clock).env (t.stamp w.clock).transfer.id priced = .ok es) :
      Move Q free w ⟨.checking t priced [], ls, ws⟩
        w ⟨.inserting (t.stamp w.clock) priced es, ls, ws ++ [.transfer (t.stamp w.clock).transfer]⟩
  | insertEntry {w : World} {t : Ticket} {ls ws} {priced : List PricedLeg} {e : Entry}
      {todo : List Entry} {db : Db}
      (unlocked : free (.lock (.period t.posting.period.id) .share))
      (inserted : (Write.entry e).run (view w.db ws) = .ok db)
      (unclaimed : free (.row (.entry e))) :
      Move Q free w ⟨.inserting t priced (e :: todo), ls, ws⟩
        w ⟨.inserting t priced todo, (.period t.posting.period.id, .share) :: ls, ws ++ [.entry e]⟩
  | checkBalance {w : World} {t : Ticket} {ls ws} {priced : List PricedLeg}
      (balanced : assertTransferBalances (view w.db ws) t.transfer.id = .ok ()) :
      Move Q free w ⟨.inserting t priced [], ls, ws⟩ w ⟨.posted t priced, ls, ws⟩
  | insertDocument {w : World} {t : Ticket} {ls ws} {priced : List PricedLeg} {d : DocumentRequest}
      {number : ℕ} {units : Money} {db : Db} (document : t.document = some (d, number))
      (stored : storedAmount d.totalAmount = .ok units)
      (inserted : (d.row (t.env.uuid4 .document) number units t.transfer.id).run (view w.db ws) =
        .ok db)
      (unclaimed : free (.row (d.row (t.env.uuid4 .document) number units t.transfer.id))) :
      Move Q free w ⟨.posted t priced, ls, ws⟩ w ⟨.documented t priced, ls,
        ws ++ [d.row (t.env.uuid4 .document) number units t.transfer.id]⟩
  | commitPosting {w : World} {t : Ticket} {ls ws} {priced : List PricedLeg}
      (plain : t.document = none) :
      Move Q free w ⟨.posted t priced, ls, ws⟩ (w.commit ws (.posted t)) .idle
  | commitDocument {w : World} {t : Ticket} {ls ws} {priced : List PricedLeg} :
      Move Q free w ⟨.documented t priced, ls, ws⟩ (w.commit ws (.posted t)) .idle
  | beginClosing {w : World} {c : Closing} : Move Q free w .idle w ⟨.closingBegun c, [], []⟩
  | lockPeriod {w : World} {c : Closing} {ls ws} {period : Period}
      (unlocked : free (.lock (.period c.periodId) .update))
      (found : periodOfFund w.db c.fundId c.periodId = .ok period) :
      Move Q free w ⟨.closingBegun c, ls, ws⟩
        w ⟨.closing c period, (.period c.periodId, .update) :: ls, ws⟩
  | alreadyClosed {w : World} {c : Closing} {ls ws} {period : Period}
      (closed : period.status = .CLOSED) :
      Move Q free w ⟨.closing c period, ls, ws⟩ w .idle
  | checkEarlier {w : World} {c : Closing} {ls ws} {period : Period}
      (isOpen : period.status ≠ .CLOSED) (earlier : EarlierClosed w.db c.fundId period) :
      Move Q free w ⟨.closing c period, ls, ws⟩ w ⟨.inOrder c period, ls, ws⟩
  | checkImbalance {w : World} {c : Closing} {ls ws} {period : Period}
      (zero : periodImbalance w.db period.id = 0) :
      Move Q free w ⟨.inOrder c period, ls, ws⟩ w ⟨.reconciled c period, ls, ws⟩
  | close {w : World} {c : Closing} {ls ws} {period : Period} {db : Db}
      (updated : (Write.closed period.id c.env.now c.closedBy).run (view w.db ws) = .ok db)
      (unclaimed : free (.row (.closed period.id c.env.now c.closedBy))) :
      Move Q free w ⟨.reconciled c period, ls, ws⟩
        w ⟨.closed c period, ls, ws ++ [.closed period.id c.env.now c.closedBy]⟩
  | commitClosing {w : World} {c : Closing} {ls ws} {period : Period} :
      Move Q free w ⟨.closed c period, ls, ws⟩ (w.commit ws (.closed c)) .idle
  | rollback {w : World} {s : Session} : Move Q free w s w .idle

/-- The clock goes on, and accounts are opened, each in a transaction of one
statement. -/
inductive Environment : World → World → Prop
  | tick {w : World} {now : Timestamp} (later : w.clock ≤ now) :
      Environment w { w with clock := now }
  | accountOpened {w : World} {a : Account} {db : Db} (inserted : insertAccount w.db a = .ok db)
      (standard : accountCode a.accountType a.currency a.ownerLp = .ok a.code) :
      Environment w { w with db, log := w.log ++ [.opened a] }

/-- The services, run concurrently. -/
def services (Q : Db → Posting → Prop) : Protocol World Session Demand where
  claims := Session.Claims
  Clash := Demand.Clash
  move := Move Q
  environment := Environment

end FundLedger
