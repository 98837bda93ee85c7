import FundLedger.Funds.Models

/-!
# Exceptions

`LedgerError` is the base of the expected, business-level failures of
`ledger/errors.py` and `operations/errors.py`; each class carries its own code
and HTTP status.  `Exc` is everything a service call can raise.

A message is kept as its pieces: the literal text of the format string and the
values interpolated into it, before they are rendered.
-/

namespace FundLedger

open Lib

/-- One part of a formatted message. -/
inductive Piece
  | lit (text : String)
  | str (value : String)
  | strs (values : List String)
  | uuid (value : Uuid)
  | uuids (values : List Uuid)
  | dec (value : Dec)
  | nat (value : ℕ)
  | date (value : Date)
  deriving DecidableEq

abbrev Message := List Piece

inductive ErrorClass
  | LedgerError
  | InvalidTransfer
  | UnbalancedTransfer
  | UnknownAccount
  | InsufficientFunds
  | ClosedPeriod
  | IdempotencyConflict
  | AlreadyReversed
  | MissingFxRate
  | CommitmentExceeded
  | NoPeriod
  | PeriodNotClosable
  deriving DecidableEq

def ErrorClass.code : ErrorClass → String
  | .LedgerError => "ledger_error"
  | .InvalidTransfer => "invalid_transfer"
  | .UnbalancedTransfer => "unbalanced_transfer"
  | .UnknownAccount => "unknown_account"
  | .InsufficientFunds => "insufficient_funds"
  | .ClosedPeriod => "period_closed"
  | .IdempotencyConflict => "idempotency_conflict"
  | .AlreadyReversed => "already_reversed"
  | .MissingFxRate => "missing_fx_rate"
  | .CommitmentExceeded => "commitment_exceeded"
  | .NoPeriod => "no_period"
  | .PeriodNotClosable => "period_not_closable"

def ErrorClass.httpStatus : ErrorClass → ℕ
  | .LedgerError | .InvalidTransfer | .UnbalancedTransfer | .UnknownAccount => 400
  | .InsufficientFunds | .ClosedPeriod | .AlreadyReversed => 409
  | .CommitmentExceeded | .NoPeriod | .PeriodNotClosable => 409
  | .IdempotencyConflict | .MissingFxRate => 422

/-- What a service call can raise. -/
inductive Exc
  /-- A `LedgerError`, with its class and message. -/
  | ledger (cls : ErrorClass) (detail : Message)
  /-- `Model.DoesNotExist`. -/
  | doesNotExist (model : String)
  /-- `IntegrityError`, with the name of the constraint behind it. -/
  | integrity (constraint : String)
  /-- `DataError`: a value that its column cannot hold. -/
  | data
  /-- `decimal.InvalidOperation`. -/
  | decimal
  /-- An operation on a value of the wrong type. -/
  | typeError
  /-- A missing key of a dictionary. -/
  | keyError
  /-- A `ValueError` that nothing catches. -/
  | valueError
  /-- A failed `assert`. -/
  | assertionError
  deriving DecidableEq

end FundLedger
