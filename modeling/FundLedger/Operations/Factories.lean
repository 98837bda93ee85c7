import FundLedger.Operations.Runs

/-!
# A fund to try things on

The fund of `tests/factories.py`, with two partners instead of ten: two
commitments, two half-year periods and the full chart of accounts.  Days are
counted from 1 January.
-/

namespace FundLedger

open Lib

def makeFund : Fund := { id := 1, name := "Test Fund 1", baseCurrency := "GBP" }

def h1 : Period :=
  { id := 21, fund := 1, startDate := 1, endDate := 181, status := .OPEN, closedAt := none
    closedBy := "" }

def h2 : Period :=
  { id := 22, fund := 1, startDate := 182, endDate := 365, status := .OPEN, closedAt := none
    closedBy := "" }

/-- Commitments of 600 and 400. -/
def peCommitments : List Commitment := [
  { id := 31, fund := 1, lp := 11, committedAmount := 6000000 },
  { id := 32, fund := 1, lp := 12, committedAmount := 4000000 }]

/-- The environment of one call: `n` tells its random ids from those of other
calls. -/
def envOf (n : ℕ) (today : Date := 32) : Env where
  today
  now := n
  uuid4 := fun d => match d with
    | .account i => 1000 * n + 100 + i
    | .transfer => 1000 * n + 1
    | .entry i => 1000 * n + 200 + i
    | .document => 1000 * n + 2

/-- The fund without its accounts. -/
def peFundBare : Db where
  funds := ⟨[makeFund], by decide⟩
  lps := ⟨[{ id := 11, name := "LP 1" }, { id := 12, name := "LP 2" }], by decide⟩
  commitments := ⟨peCommitments, by decide⟩
  periods := ⟨[h1, h2], by decide⟩
  fxRates := ⟨[{ id := 41, fromCurrency := "USD", toCurrency := "GBP", rate := 7900000000
                 asOfDate := 1 }], by decide⟩
  accounts := .empty
  transfers := .empty
  entries := .empty
  capitalCalls := .empty
  distributions := .empty
  memberships := .empty

/-- `build_pe_fund`. -/
def buildPeFund : Db := (openFundAccounts (envOf 0) makeFund peFundBare).2

/-- A capital call of 100. -/
def callOf100 : Call where
  env := envOf 1
  op := .createCapitalCall 1 "call" (.finite ⟨10000, -2⟩) 32 46 ""

/-- A call, a fee, a gain that does not split evenly, the fee reversed in the
next period, and the first period closed. -/
def callsOfAYear : List Call := [
  callOf100,
  { env := envOf 2 40, op := .chargeFee 1 "fee" (.finite ⟨333, -2⟩) 40 },
  { env := envOf 3 190, op := .recordValuation 1 "mark" (.finite ⟨100001, -4⟩) 190 },
  { env := envOf 4 200, op := .reverseTransfer 2001 "undo" 22 .OPEN "" },
  { env := envOf 5 200, op := .closePeriod 1 21 "" }]

/-- A call in the second period, taken back into the first. -/
def callTakenBackEarlier : List Call := [
  { env := envOf 1 200, op := .createCapitalCall 1 "call" (.finite ⟨10000, -2⟩) 200 214 "" },
  { env := envOf 2 200, op := .reverseTransfer 1001 "undo" 21 .OPEN "" }]

/-- The whole commitment called in the first period, taken back into the
second, and called in the first again. -/
def calledAgain : List Call := [
  { env := envOf 1, op := .createCapitalCall 1 "call" (.finite ⟨1000, 0⟩) 32 46 "" },
  { env := envOf 2 200, op := .reverseTransfer 1001 "undo" 22 .OPEN "" },
  { env := envOf 3 200, op := .createCapitalCall 1 "again" (.finite ⟨1000, 0⟩) 40 54 "" }]

/-- A rate of 0.80 as of day 20; the fund has worked with 0.79 so far. -/
def rateOf80 : FxRate where
  id := 42
  fromCurrency := "USD"
  toCurrency := "GBP"
  rate := 8000000000
  asOfDate := 20

theorem genesis_buildPeFund : Genesis buildPeFund := by
  refine ⟨?_, ?_, ?_, ?_, ?_⟩ <;> decide +kernel

/-- A run that created something, from the flag it returned. -/
theorem created_of_snd {α : Type} {m : M (α × Bool)} {db : Db}
    (h : Prod.snd <$> (m db).1 = .ok true) : ∃ d, m db = (.ok (d, true), (m db).2) := by
  obtain ⟨r, hr⟩ : ∃ r, (m db).1 = r := ⟨_, rfl⟩
  rw [hr] at h
  cases r with
  | error e => cases h
  | ok r =>
    obtain ⟨d, b⟩ := r
    obtain rfl : b = true := Except.ok.inj h
    exact ⟨d, Prod.ext hr rfl⟩

end FundLedger
