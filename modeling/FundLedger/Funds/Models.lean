import FundLedger.Lib.Decimal
import FundLedger.Lib.Table

/-!
# Funds, partners, periods and rates

The rows of `funds/models.py`, with the columns the services read.  Money is
stored as a whole number of ten-thousandths, which is what a `NUMERIC(20, 4)`
column holds, and a rate as a whole number of `10 ^ -10` units.
-/

namespace FundLedger

open Lib

/-- A 128-bit identifier.  Its text is fixed-width hexadecimal, so ordering
texts and ordering numbers is the same thing. -/
abbrev Uuid := ℕ

/-- A calendar day, as its proleptic ordinal. -/
abbrev Date := ℕ

/-- An instant on the database clock. -/
abbrev Timestamp := ℕ

/-- A `NUMERIC(20, 4)` value in units of `0.0001`. -/
abbrev Money := ℤ

/-- A `NUMERIC(20, 10)` value in units of `10 ^ -10`. -/
abbrev Rate := ℤ

/-- The decimal a money column hands to Python. -/
def Money.toDec (m : Money) : Dec := Dec.ofUnits 4 m

/-- The decimal a rate column hands to Python. -/
def Rate.toDec (r : Rate) : Dec := Dec.ofUnits 10 r

/-- Storing a decimal in a money column. -/
def Money.ofDec? (d : Dec) : Option Money := Dec.toNumeric 20 4 d

/-- Storing a decimal in a rate column. -/
def Rate.ofDec? (d : Dec) : Option Rate := Dec.toNumeric 20 10 d

theorem Money.val_toDec (m : Money) : m.toDec.val = m / (10 : ℚ) ^ 4 := Dec.val_ofUnits 4 m

/-- Storing what a money column handed out gives the same units back. -/
theorem Money.ofDec?_toDec {m : Money} (h : m.natAbs < 10 ^ 20) :
    Money.ofDec? m.toDec = some m :=
  Dec.toNumeric_ofUnits h

/-- `^[A-Z]{3}$`. -/
def isIso4217 (currency : String) : Bool :=
  currency.length = 3 && currency.toList.all fun c => 'A' ≤ c && c ≤ 'Z'

structure Fund where
  id : Uuid
  name : String
  baseCurrency : String
  deriving DecidableEq

structure LimitedPartner where
  id : Uuid
  name : String
  deriving DecidableEq

/-- An LP's legal promise to provide up to `committedAmount` when called. -/
structure Commitment where
  id : Uuid
  fund : Uuid
  lp : Uuid
  committedAmount : Money
  deriving DecidableEq

inductive PeriodStatus
  | OPEN
  | CLOSED
  deriving DecidableEq

/-- An accounting period.  Once `CLOSED`, nothing may be posted into it. -/
structure Period where
  id : Uuid
  fund : Uuid
  startDate : Date
  endDate : Date
  status : PeriodStatus
  closedAt : Option Timestamp
  closedBy : String
  deriving DecidableEq

/-- Rate to convert one unit of `fromCurrency` into `toCurrency`, valid from
`asOfDate`. -/
structure FxRate where
  id : Uuid
  fromCurrency : String
  toCurrency : String
  rate : Rate
  asOfDate : Date
  deriving DecidableEq

end FundLedger
