import FundLedger.Operations.Services

/-!
# Reversing through the API

The body of `ReverseTransferView.post`, once the request has been authorised
and parsed.  A request may leave the date out; the reversal is then posted
into the period of the day on which the request is served.
-/

namespace FundLedger

open Lib

/-- The fund of a transfer, through its period. -/
def fundOfTransfer (db : Db) (t : Transfer) : Except Exc Uuid :=
  Period.fund <$> orRaise (db.periods.get? t.period) (.doesNotExist "Period")

/-- `on_date or timezone.localdate()`. -/
def reversalDate (env : Env) (onDate : Option Date) : Date := onDate.getD env.today

def postReversal (env : Env) (transferId : Uuid) (key : String) (onDate : Option Date)
    (actor : String) : M (Transfer × Bool) := do
  let db ← Tx.read
  let original ← Tx.lift (orRaise (db.transfers.get? transferId) (.doesNotExist "Transfer"))
  let fund ← Tx.lift (fundOfTransfer db original)
  let period ← Tx.lift (periodFor db fund (reversalDate env onDate))
  reverseTransfer env original.id key period actor

end FundLedger
