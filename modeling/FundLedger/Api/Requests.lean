import FundLedger.Ledger.Queries
import FundLedger.Ledger.Reconcile
import FundLedger.Operations.Statements

/-!
# Requests and responses

What reaches a view and what it answers: `api/urls.py`, the helpers of
`api/views.py`, the request serializers of `api/serializers.py` and
`api/exceptions.py`.

A body arrives as the framework's fields have parsed it: each field is its
value or the texts of its refusal.  What the fields guarantee of a value is
carried by its type (`MoneyIn`).  The checks that this program adds to the
framework's are here: the header of the idempotency key, the order of the two
dates, and the text of `as_of`.

Every exception becomes a response in `exceptionHandler`.  It never reads the
database, and its last case is the internal error.
-/

namespace FundLedger.Api

open Lib

/-! ## The caller -/

/-- An authenticated user. -/
structure User where
  id : Uuid
  username : String
  username_fits : username.length ≤ 150

/-! ## Bodies -/

/-- What the framework made of one field of a body. -/
abbrev Field (α : Type) := Except (List String) α

/-- A `DecimalField(**MONEY_IN)`: it hands over a positive number of hundredths
with at most 18 digits. -/
structure MoneyIn where
  hundredths : ℕ
  min_value : 0 < hundredths
  max_digits : hundredths < 10 ^ 18

def MoneyIn.amount (m : MoneyIn) : Amount := .finite ⟨m.hundredths, -2⟩

structure CapitalCallBody where
  totalAmount : Field MoneyIn
  noticeDate : Field Date
  dueDate : Field Date

structure DistributionBody where
  totalAmount : Field MoneyIn
  paymentDate : Field Date
  classification : Field DistributionClassification

/-- `on_date` may be left out. -/
structure ReverseBody where
  onDate : Field (Option Date)

/-- A body that the framework cannot hand over as an object, with its texts. -/
inductive Unreadable
  /-- `ParseError`. -/
  | malformed (detail : String)
  /-- `UnsupportedMediaType`. -/
  | mediaType (detail : String)
  /-- It can be read and is not an object. -/
  | notAnObject (messages : List String)

abbrev Body (α : Type) := Except Unreadable α

/-! ## Requests -/

/-- The routes of the `FundScoped` views, with the ids of the path and what else
the view reads. -/
inductive FundRequest
  | fundAccounts (fundId : Uuid)
  | fundPeriods (fundId : Uuid)
  | capitalCalls (fundId : Uuid) (idempotencyKey : Option String) (body : Body CapitalCallBody)
  | distributions (fundId : Uuid) (idempotencyKey : Option String) (body : Body DistributionBody)
  | reverseTransfer (transferId : Uuid) (idempotencyKey : Option String) (body : Body ReverseBody)
  | accountBalance (accountId : Uuid) (asOf : Option String)
  | accountEntries (accountId : Uuid) (cursor : Option String)
  | closePeriod (fundId periodId : Uuid)
  /-- `period` is the query parameter, when it is a UUID. -/
  | lpStatement (fundId lpId : Uuid) (period : Option Uuid)
  | fundReconciliation (fundId : Uuid)

inductive Request
  | me
  | fundScoped (request : FundRequest)

/-- A request with who makes it. -/
structure Incoming where
  caller : Option User
  requestId : Option String
  request : Request

/-! ## Exceptions -/

/-- The errors of one field: a text, or the list of texts of a serializer. -/
inductive Detail
  | text (message : String)
  | texts (messages : List String)
  deriving DecidableEq

/-- What a view can raise. -/
inductive ApiExc
  | notAuthenticated
  | permissionDenied
  /-- `NotFound`, and `Http404` with its own text. -/
  | notFound (detail : String)
  | validation (fields : List (String × Detail))
  | unreadable (refusal : Unreadable)
  /-- What a service raised. -/
  | service (e : Exc)

/-! ## Parsing -/

def idempotencyHeader : String := "Idempotency-Key"

/-- The blanks that `str.strip` removes, among the characters of a header. -/
def isBlank (c : Char) : Bool :=
  c.toNat ∈ [0x09, 0x0a, 0x0b, 0x0c, 0x0d, 0x1c, 0x1d, 0x1e, 0x1f, 0x20, 0x85, 0xa0]

/-- `s.strip()`. -/
def strip (s : String) : String :=
  String.ofList (((s.toList.dropWhile isBlank).reverse.dropWhile isBlank).reverse)

/-- The characters of `IDEMPOTENCY_KEY_PATTERN`. -/
def isKeyChar (c : Char) : Bool := c.isAlphanum || c = '.' || c = '_' || c = ':' || c = '-'

/-- `IDEMPOTENCY_KEY_PATTERN.fullmatch(key)`. -/
def matchesKeyPattern (key : String) : Bool :=
  decide (1 ≤ key.length) && decide (key.length ≤ 255) && key.toList.all isKeyChar

def idempotencyKey (header : Option String) : Except ApiExc String := do
  let key := strip (header.getD "")
  require (key ≠ "") (.validation
    [(idempotencyHeader, .text "This header is required on mutating requests.")])
  require (matchesKeyPattern key) (.validation
    [(idempotencyHeader, .text "Use 1-255 of these characters: A-Z a-z 0-9 . _ : -")])
  return key

/-- A point in time and its ISO text. -/
structure Instant where
  timestamp : Timestamp
  isoformat : String

/-- `parse_as_of`.  The framework's `parse_datetime` hands over nothing for a text
that does not look like a point in time and raises for one that looks like it
and is none. -/
def parseAsOf (parseDatetime : String → Except Unit (Option Instant)) :
    Option String → Except ApiExc (Option Instant)
  | none => .ok none
  | some raw =>
    match parseDatetime raw with
    | .error _ => .error (.service .valueError)
    | .ok none => .error (.validation
        [("as_of", .text "Expected ISO-8601, e.g. 2026-06-30T23:59:59Z")])
    | .ok (some t) => .ok (some t)

/-- The refusals of a field. -/
def refusals {α : Type} (name : String) : Field α → List (String × Detail)
  | .ok _ => []
  | .error texts => [(name, .texts texts)]

def readBody {α : Type} (body : Body α) : Except ApiExc α :=
  match body with
  | .ok b => .ok b
  | .error refusal => .error (.unreadable refusal)

/-- `validated_data` of a capital call. -/
structure CapitalCallAttrs where
  totalAmount : MoneyIn
  noticeDate : Date
  dueDate : Date

/-- The serializer of a capital call: its fields, and then its own check. -/
def CapitalCallBody.validate (b : CapitalCallBody) : Except ApiExc CapitalCallAttrs :=
  match b.totalAmount, b.noticeDate, b.dueDate with
  | .ok totalAmount, .ok noticeDate, .ok dueDate =>
    if dueDate < noticeDate then
      .error (.validation
        [("non_field_errors", .texts ["due_date must not precede notice_date"])])
    else .ok { totalAmount, noticeDate, dueDate }
  | totalAmount, noticeDate, dueDate =>
    .error (.validation (refusals "total_amount" totalAmount ++ refusals "notice_date" noticeDate ++
      refusals "due_date" dueDate))

/-- `validated_data` of a distribution. -/
structure DistributionAttrs where
  totalAmount : MoneyIn
  paymentDate : Date
  classification : DistributionClassification

def DistributionBody.validate (b : DistributionBody) : Except ApiExc DistributionAttrs :=
  match b.totalAmount, b.paymentDate, b.classification with
  | .ok totalAmount, .ok paymentDate, .ok classification =>
    .ok { totalAmount, paymentDate, classification }
  | totalAmount, paymentDate, classification =>
    .error (.validation (refusals "total_amount" totalAmount ++
      refusals "payment_date" paymentDate ++ refusals "classification" classification))

def ReverseBody.validate (b : ReverseBody) : Except ApiExc (Option Date) :=
  match b.onDate with
  | .ok onDate => .ok onDate
  | .error texts => .error (.validation (refusals "on_date" (.error texts : Field (Option Date))))

/-! ## Responses -/

/-- `AccountSerializer`. -/
structure AccountData where
  id : Uuid
  code : String
  accountType : AccountType
  currency : String
  ownerLp : Option Uuid
  deriving DecidableEq

def accountData (a : Account) : AccountData :=
  { id := a.id, code := a.code, accountType := a.accountType, currency := a.currency
    ownerLp := a.ownerLp }

/-- `PeriodSerializer`. -/
structure PeriodData where
  id : Uuid
  fund : Uuid
  startDate : Date
  endDate : Date
  status : PeriodStatus
  closedAt : Option Timestamp
  deriving DecidableEq

def periodData (p : Period) : PeriodData :=
  { id := p.id, fund := p.fund, startDate := p.startDate, endDate := p.endDate
    status := p.status, closedAt := p.closedAt }

/-- `EntrySerializer`: the columns and the two generated ones. -/
structure EntryData where
  entry : Entry
  signedAmount : Money
  signedBaseAmount : Money
  deriving DecidableEq

def entryData (e : Entry) : EntryData := ⟨e, e.signedAmount, e.signedBaseAmount⟩

/-- `TransferSerializer`. -/
structure TransferData where
  id : Uuid
  idempotencyKey : String
  transferType : TransferType
  reverses : Option Uuid
  period : Uuid
  description : Message
  entries : List EntryData
  deriving DecidableEq

/-- One item of the memberships of `MeView`. -/
structure MembershipData where
  fund : Uuid
  fundName : String
  role : Role
  lp : Option Uuid
  deriving DecidableEq

/-- `BalanceSerializer`. -/
structure BalanceData where
  account : Uuid
  currency : String
  balance : Dec
  baseBalance : Dec
  asOf : Option String
  deriving DecidableEq

inductive Content
  | me (username : String) (memberships : List MembershipData)
  | accounts (accounts : List AccountData)
  | periods (periods : List PeriodData)
  | period (period : PeriodData)
  | capitalCall (call : CapitalCall)
  | distribution (distribution : Distribution)
  | transfer (transfer : TransferData)
  | balance (balance : BalanceData)
  | entries (results : List EntryData) (next previous : Option String)
  | statement (statement : CapitalAccountStatement)
  | reconciliation (report : FundReconciliation)
  /-- `{"error": code, "detail": detail}`. -/
  | error (code : String) (detail : Message)
  | internalError (requestId : Option String)
  /-- `{"detail": text}`. -/
  | detail (text : String)
  | invalid (fields : List (String × Detail))

structure Response where
  status : ℕ
  content : Content

/-! ## The exception handler -/

def constraintErrors (constraint : String) : Option Response :=
  if constraint = "period_open" then
    some ⟨409, .error "period_closed" [.lit "The accounting period is closed."]⟩
  else if constraint = "transfer_reverses_unique" then
    some ⟨409, .error "already_reversed" [.lit "This transfer has already been reversed."]⟩
  else none

/-- Everything that nothing else answers. -/
def internalError (requestId : Option String) : Response := ⟨500, .internalError requestId⟩

def exceptionHandler (requestId : Option String) : ApiExc → Response
  | .service (.ledger cls detail) => ⟨cls.httpStatus, .error cls.code detail⟩
  | .service (.doesNotExist _) => ⟨404, .error "not_found" [.lit "Not found."]⟩
  | .service (.integrity constraint) =>
    (constraintErrors constraint).getD (internalError requestId)
  | .notAuthenticated => ⟨401, .detail "Authentication credentials were not provided."⟩
  | .permissionDenied => ⟨403, .detail "Your role on this fund does not allow this action."⟩
  | .notFound detail => ⟨404, .detail detail⟩
  | .validation fields => ⟨400, .invalid fields⟩
  | .unreadable (.malformed detail) => ⟨400, .detail detail⟩
  | .unreadable (.mediaType detail) => ⟨415, .detail detail⟩
  | .unreadable (.notAnObject messages) =>
    ⟨400, .invalid [("non_field_errors", .texts messages)]⟩
  | .service _ => internalError requestId

end FundLedger.Api
