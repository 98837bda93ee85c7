import FundLedger.Ledger.Queries
import FundLedger.Lib.Dict

/-!
# The chart of accounts

`operations/chart.py`: the code of each standard account of a fund, opening
the accounts, and looking them up.  An account is found by its code, except
the capital accounts of the partners, which are found by type and currency.
-/

namespace FundLedger

open Lib

/-- One hexadecimal digit. -/
def hexDigit (n : ℕ) : Char := "0123456789abcdef".toList.getD n '0'

/-- `UUID.hex`: 32 hexadecimal digits. -/
def Uuid.hex (u : Uuid) : String :=
  String.ofList (((Nat.digits 16 u).rightpad 32 0).reverse.map hexDigit)

def accountCode (accountType : AccountType) (currency : String) (lp : Option Uuid := none) :
    Except Exc String :=
  match accountType, lp with
  | .LP_CAPITAL, some lp => .ok ("LP-" ++ Uuid.hex lp)
  | .LP_CAPITAL, none => .error .assertionError
  | .CASH, _ => .ok ("CASH-" ++ currency)
  | .INVESTMENT, _ => .ok ("INVESTMENT-" ++ currency)
  | t, _ => .ok t.value

/-- `currency or fund.base_currency`. -/
def currencyOrBase (fund : Fund) (currency : Option String) : String :=
  match currency with
  | none => fund.baseCurrency
  | some c => if c = "" then fund.baseCurrency else c

def findAccount (db : Db) (fund : Uuid) (code : String) : Option Account :=
  db.accounts.rows.find? fun a => a.fund = fund ∧ a.code = code

/-- `Account.objects.get_or_create`, where `defaults` is the row to create. -/
def getOrCreateAccount (defaults : Account) : M Account := do
  let db ← Tx.read
  match findAccount db defaults.fund defaults.code with
  | some account => return account
  | none =>
    Tx.statement fun db => insertAccount db defaults
    return defaults

def ensureAccount (env : Env) (index : ℕ) (fund : Fund) (accountType : AccountType)
    (currency : Option String := none) : M Account := do
  let currency := currencyOrBase fund currency
  let code ← Tx.lift (accountCode accountType currency)
  getOrCreateAccount {
    id := env.uuid4 (.account index)
    fund := fund.id
    code
    accountType
    ownerLp := none
    currency }

/-- The account types that every fund has, apart from the partners' capital. -/
def standardTypes : List AccountType := [.CASH, .INVESTMENT, .FEE_EXPENSE, .GAIN_LOSS, .GP_CAPITAL]

/-- Open the capital account of one partner. -/
def ensureLpAccount (env : Env) (index : ℕ) (fund : Fund) (lp : Uuid) : M Account := do
  let code ← Tx.lift (accountCode .LP_CAPITAL fund.baseCurrency (some lp))
  getOrCreateAccount {
    id := env.uuid4 (.account index)
    fund := fund.id
    code
    accountType := .LP_CAPITAL
    ownerLp := some lp
    currency := fund.baseCurrency }

def commitmentsOf (db : Db) (fund : Uuid) : List Commitment :=
  db.commitments.rows.filter fun c => c.fund = fund

/-- Create the fund's standard accounts.  Running it again opens nothing new. -/
def openFundAccounts (env : Env) (fund : Fund) : M Unit := do
  standardTypes.zipIdx.forM fun t => do
    let _ ← ensureAccount env t.2 fund t.1
  let db ← Tx.read
  (env.commitmentOrder.order (commitmentsOf db fund.id)).zipIdx.forM fun c => do
    let _ ← ensureLpAccount env (standardTypes.length + c.2) fund c.1.lp

def getAccount (db : Db) (fund : Fund) (accountType : AccountType)
    (currency : Option String := none) : Except Exc Account := do
  let code ← accountCode accountType (currencyOrBase fund currency)
  orRaise (findAccount db fund.id code) (.doesNotExist "Account")

/-- The capital accounts in the base currency, by owner. -/
def lpCapitalAccounts (db : Db) (fund : Fund) : Dict Uuid Account :=
  let accounts := db.accounts.rows.filter fun a =>
    a.fund = fund.id ∧ a.accountType = .LP_CAPITAL ∧ a.currency = fund.baseCurrency
  Dict.ofList (accounts.filterMap fun a => a.ownerLp.map fun lp => (lp, a))

/-! ## Opening an account -/

theorem findAccount_eq_some {db : Db} {fund : Uuid} {code : String} {a : Account}
    (h : findAccount db fund code = some a) :
    a ∈ db.accounts ∧ a.fund = fund ∧ a.code = code := by
  have hcode := List.find?_some h
  simp only [Bool.decide_and, Bool.and_eq_true, decide_eq_true_eq] at hcode
  exact ⟨List.mem_of_find?_eq_some h, hcode⟩

/-- A get-or-create that succeeded found the account or inserted it, and the
account is there afterwards. -/
theorem getOrCreateAccount_ok {defaults a : Account} {db db' : Db}
    (h : getOrCreateAccount defaults db = (.ok a, db')) :
    findAccount db' defaults.fund defaults.code = some a ∧
    (db' = db ∨ findAccount db defaults.fund defaults.code = none ∧ a = defaults ∧
      insertAccount db defaults = .ok db') := by
  rw [getOrCreateAccount, Tx.read_bind] at h
  cases hfind : findAccount db defaults.fund defaults.code with
  | some account =>
    rw [hfind] at h
    obtain ⟨hok, hdb⟩ := Tx.pure_eq.mp h
    cases hok
    subst hdb
    exact ⟨hfind, .inl rfl⟩
  | none =>
    rw [hfind] at h
    obtain ⟨_, db₁, hins, hret⟩ := Tx.bind_ok.mp h
    obtain ⟨hok, hdb⟩ := Tx.pure_eq.mp hret
    cases hok
    subst hdb
    have hins := Tx.statement_ok.mp hins
    refine ⟨?_, .inr ⟨rfl, rfl, hins⟩⟩
    obtain ⟨-, -, -, -, -, accounts, hacc, hdb'⟩ := insertAccount_ok hins
    unfold findAccount at hfind ⊢
    rw [hdb', (Table.insert_eq_some.mp hacc).2, List.find?_append, hfind]
    simp

theorem ensureAccount_ok {env : Env} {index : ℕ} {fund : Fund} {accountType : AccountType}
    {currency : Option String} {a : Account} {db db' : Db}
    (h : ensureAccount env index fund accountType currency db = (.ok a, db')) :
    ∃ code, accountCode accountType (currencyOrBase fund currency) = .ok code ∧
      findAccount db' fund.id code = some a ∧
      (db' = db ∨ findAccount db fund.id code = none ∧
        insertAccount db {
          id := env.uuid4 (.account index), fund := fund.id, code, accountType, ownerLp := none
          currency := currencyOrBase fund currency } = .ok db') := by
  obtain ⟨code, db₁, hlift, hget⟩ := Tx.bind_ok.mp h
  obtain ⟨hcode, hdb⟩ := Tx.lift_eq.mp hlift
  subst hdb
  obtain ⟨hfind, hcase⟩ := getOrCreateAccount_ok hget
  refine ⟨code, hcode.symm, hfind, hcase.imp_right ?_⟩
  rintro ⟨hnone, rfl, hins⟩
  exact ⟨hnone, hins⟩

end FundLedger
