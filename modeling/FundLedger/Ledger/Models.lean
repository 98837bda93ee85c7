import FundLedger.Ledger.Errors

/-!
# Accounts, transfers and entries

The rows of `ledger/models.py`.  An account has no balance column: a balance
is a sum over entries.  `signedAmount` and `signedBaseAmount` are the two
generated columns of an entry, and the one place where the sign convention is
defined.
-/

namespace FundLedger

open Lib

inductive AccountType
  | CASH
  | INVESTMENT
  | FEE_EXPENSE
  | GAIN_LOSS
  | LP_CAPITAL
  | GP_CAPITAL
  deriving DecidableEq

def AccountType.value : AccountType → String
  | .CASH => "CASH"
  | .INVESTMENT => "INVESTMENT"
  | .FEE_EXPENSE => "FEE_EXPENSE"
  | .GAIN_LOSS => "GAIN_LOSS"
  | .LP_CAPITAL => "LP_CAPITAL"
  | .GP_CAPITAL => "GP_CAPITAL"

/-- Account types whose native balance may never go below zero. -/
def nonNegativeTypes : List AccountType := [.CASH]

inductive Direction
  | DEBIT
  | CREDIT
  deriving DecidableEq

def Direction.value : Direction → String
  | .DEBIT => "DEBIT"
  | .CREDIT => "CREDIT"

inductive TransferType
  | CAPITAL_CALL
  | DISTRIBUTION
  | FEE
  | INVESTMENT
  | REVERSAL
  | ADJUSTMENT
  deriving DecidableEq

/-- A bucket of value. -/
structure Account where
  id : Uuid
  fund : Uuid
  code : String
  accountType : AccountType
  ownerLp : Option Uuid
  currency : String
  deriving DecidableEq

/-- Canonical text of a money argument.  It shows four places, so it is
determined by the number of units. -/
inductive MoneyStr
  | units (n : ℤ)
  | nan
  deriving DecidableEq

inductive DistributionClassification
  | RETURN_OF_CAPITAL
  | GAIN
  | INCOME
  deriving DecidableEq

/-- `request_hash`.  The digest of a canonical payload is identified with the
payload itself, which is what a hash without collisions amounts to; `blank`
is the column default.  A leg contributes its account, its direction and its
amount in ten-thousandths. -/
inductive RequestHash
  | blank
  | transfer (transferType : TransferType) (period : Uuid)
      (legs : List (Uuid × Direction × ℤ))
  | reversal (reverses period : Uuid)
  | capitalCall (fund : Uuid) (total : MoneyStr) (noticeDate dueDate : Date)
  | distribution (fund : Uuid) (total : MoneyStr) (paymentDate : Date)
      (classification : DistributionClassification)
  deriving DecidableEq

/-- One unit of business intent. -/
structure Transfer where
  id : Uuid
  idempotencyKey : String
  requestHash : RequestHash
  transferType : TransferType
  reverses : Option Uuid
  period : Uuid
  description : Message
  createdBy : String
  createdAt : Timestamp
  deriving DecidableEq

/-- One debit or credit line. -/
structure Entry where
  id : Uuid
  transfer : Uuid
  account : Uuid
  direction : Direction
  amount : Money
  currency : String
  fxRate : Option Rate
  baseAmount : Money
  createdAt : Timestamp
  deriving DecidableEq

/-- `+x` for a debit, `-x` for a credit. -/
def signed (d : Direction) (x : ℤ) : ℤ :=
  match d with
  | .DEBIT => x
  | .CREDIT => -x

def Entry.signedAmount (e : Entry) : Money := signed e.direction e.amount

def Entry.signedBaseAmount (e : Entry) : Money := signed e.direction e.baseAmount

/-- The business document of a capital call.  The money lives in `transfer`. -/
structure CapitalCall where
  id : Uuid
  fund : Uuid
  callNumber : ℕ
  noticeDate : Date
  dueDate : Date
  totalAmount : Money
  transfer : Uuid
  deriving DecidableEq

/-- The business document of a distribution. -/
structure Distribution where
  id : Uuid
  fund : Uuid
  distributionNumber : ℕ
  paymentDate : Date
  totalAmount : Money
  classification : DistributionClassification
  transfer : Uuid
  deriving DecidableEq

inductive Role
  | LP
  | VIEWER
  | OPERATOR
  | CONTROLLER
  deriving DecidableEq

/-- What a user may do on one fund. -/
structure FundMembership where
  id : Uuid
  user : Uuid
  fund : Uuid
  role : Role
  lp : Option Uuid
  deriving DecidableEq

end FundLedger
