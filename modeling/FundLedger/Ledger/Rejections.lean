import FundLedger.Ledger.Acceptance
import FundLedger.Ledger.Worth

/-!
# How a posting is rejected

The callers of `post_transfer` are promised a `LedgerError` when it rejects
their legs.  What it validates are the native amounts; what the columns of an
entry constrain are the base amounts as well.  So some legs pass every check and
are then refused by the database, and some amounts are too long for the decimal
context that validates them.

`postTransferIn` is `post_transfer` with every sum in the 28-digit context of
the process, as the amounts here are arbitrary.  `LegsFit` says which legs the
checks let through and the columns hold, in terms of the amounts, the rates and
the residual, and `postTransferIn_keeps_promise_iff` that the promise is kept for
exactly these.
-/

namespace FundLedger

open Lib

/-! ## The checks in a context -/

/-- `+amount` for a debit, `-amount` for a credit.  The minus sign rounds. -/
def PricedLeg.signedAmountIn (p : PricedLeg) : Dec :=
  match p.direction with
  | .DEBIT => p.amount
  | .CREDIT => Dec.fix 28 (-p.amount)

/-- `deltas[account] += x`. -/
def bumpIn : List (Uuid × Dec) → Uuid → Dec → List (Uuid × Dec)
  | [], a, x => [(a, Dec.fix 28 (Dec.zero + x))]
  | (b, y) :: rest, a, x =>
    if b = a then (b, Dec.fix 28 (y + x)) :: rest else (b, y) :: bumpIn rest a x

/-- The net movement of each guarded account. -/
def fundDeltasIn (priced : List PricedLeg) : List (Uuid × Dec) :=
  priced.foldl (fun deltas p =>
    if p.account.accountType ∈ nonNegativeTypes then
      bumpIn deltas p.account.id p.signedAmountIn
    else deltas) []

def checkSufficientFundsIn (balance : Uuid → Money) (priced : List PricedLeg) : Except Exc Unit :=
  (fundDeltasIn priced).forM fun d =>
    if 0 ≤ d.2.coeff then .ok ()
    else
      let available := (balance d.1).toDec
      require (0 ≤ (Dec.fix 28 (available + d.2)).coeff)
        (.ledger .InsufficientFunds [.lit "account ", .uuid d.1, .lit " holds ",
          .dec available, .lit ", needs ", .dec (Dec.fix 28 (-d.2))])

def preparePostingIn (env : Env) (db : Db) (a : Posting) (legs : List ValidLeg) :
    Except Exc (List PricedLeg) := do
  let accounts ← lockAccounts db legs
  validateContext a.period accounts
  let baseCurrency ← baseCurrencyOf db a.period
  let priced ← priceLegsIn db legs accounts baseCurrency (a.fxDate.getD env.today)
  checkBalancedIn priced
  checkSufficientFundsIn (fun account => nativeBalance db account) priced
  return priced

/-- `post_transfer`, in the default decimal context. -/
def postTransferIn (env : Env) (a : Posting) : M Transfer := do
  let legs ← Tx.lift (validateLegs a.legs)
  Tx.atomic do
    let db ← Tx.read
    let priced ← Tx.lift (preparePostingIn env db a legs)
    writePosting env a priced

/-! ## The condition -/

/-- The candidate that absorbs the residual, if one does. -/
def absorber (priced : List PricedLeg) : Option ℕ :=
  if (residualIn priced).coeff = 0 then none
  else match priced.zipIdx.filter fun c => c.1.adjustable with
    | [] => none
    | first :: rest =>
      if Dec.mul 28 fourDp (.ofInt (rest.length + 1)) < (residualIn priced).abs then none
      else some (rest.foldl largerCandidate first).2

theorem absorbIn_eq (priced : List PricedLeg) : absorbRoundingResidualIn priced =
    match absorber priced with
    | none => priced
    | some i => priced.modify i fun p => p.adjusted (residualIn priced) := by
  unfold absorbRoundingResidualIn absorber
  dsimp only
  by_cases hzero : (residualIn priced).coeff = 0
  · rw [if_pos hzero, if_pos hzero]
  · rw [if_neg hzero, if_neg hzero]
    cases priced.zipIdx.filter fun c => c.1.adjustable with
    | nil => rfl
    | cons first rest =>
      dsimp only
      by_cases hlarge : Dec.mul 28 fourDp (.ofInt (rest.length + 1)) < (residualIn priced).abs
      · rw [if_pos hlarge, if_pos hlarge]
      · rw [if_neg hlarge, if_neg hlarge]

/-- What a residual takes from a leg that absorbs it. -/
def PricedLeg.taken (p : PricedLeg) (residual : ℚ) : ℚ :=
  if p.direction = .DEBIT then residual else -residual

/-- The value of each leg rounds to more than zero, and the leg that absorbs is
larger than what it absorbs. -/
structure Positive (plain : List PricedLeg) : Prop where
  own : ∀ i p, plain[i]? = some p → absorber plain ≠ some i → 1 / 20000 < p.exact
  absorbing : ∀ i p, plain[i]? = some p → absorber plain = some i →
    p.taken (residualIn plain).val < p.baseAmount.val

/-- What a money column holds. -/
def columnBound : ℚ := 10 ^ 16

/-- The values stay below what the columns hold, and the sides agree exactly. -/
structure InRange (plain : List PricedLeg) : Prop where
  amounts : ∀ p ∈ plain, p.amount.val < columnBound
  own : ∀ i p, plain[i]? = some p → absorber plain ≠ some i → p.exact < columnBound - 1 / 20000
  absorbing : ∀ i p, plain[i]? = some p → absorber plain = some i →
    p.baseAmount.val - p.taken (residualIn plain).val < columnBound
  balanced : (sideTotal .DEBIT (absorbRoundingResidualIn plain)).val =
    (sideTotal .CREDIT (absorbRoundingResidualIn plain)).val

/-- There are two legs, in known directions, on both sides. -/
def WellShaped (legs : List Leg) : Prop :=
  2 ≤ legs.length ∧ (∀ leg ∈ legs, ∃ d : Direction, leg.direction = d.value) ∧
  Direction.DEBIT.value ∈ legs.map Leg.direction ∧ Direction.CREDIT.value ∈ legs.map Leg.direction

/-- **The legs that post or are rejected as promised.**  `short`: no amount that
validation gets to needs more than 24 digits before the point.  `positive`: legs
that balance have positive base amounts.  `inRange`: legs that pass all checks
fit the columns. -/
structure LegsFit (env : Env) (db : Db) (a : Posting) : Prop where
  short : WellShaped a.legs → ∀ before leg after d, a.legs = before ++ leg :: after →
    (∀ l ∈ before, ∃ v, validateLeg l = .ok v) → leg.amount = .finite d → d.val < 10 ^ 24 - 1 / 20000
  positive : ∀ plain, plainLegs env db a = .ok plain →
    checkBalancedIn (absorbRoundingResidualIn plain) = .ok () → Positive plain
  inRange : ∀ plain, plainLegs env db a = .ok plain →
    (∃ legs priced, validateLegs a.legs = .ok legs ∧ preparePostingIn env db a legs = .ok priced) →
    InRange plain

/-! ## What validation raises -/

/-- Quantizing fails when four decimal places leave more than 28 digits. -/
theorem quantize_eq_none_iff {d : Dec} (hpos : 0 < d.val) :
    Dec.quantize 28 4 d = none ↔ 10 ^ 24 - 1 / 20000 ≤ d.val := by
  have hlow : -2 < (Dec.rescale .halfEven d (-(4 : ℕ))).coeff := by
    rw [Dec.lt_rescale_iff (by norm_num)]
    norm_num
    linarith
  have hhigh : (Dec.rescale .halfEven d (-(4 : ℕ))).coeff < 10 ^ 28 ↔
      d.val < 10 ^ 24 - 1 / 20000 := by
    rw [Dec.rescale_lt_iff (by norm_num)]
    norm_num
  rw [← not_lt, ← hhigh]
  unfold Dec.quantize
  dsimp only
  split
  · rename_i h
    simp only [reduceCtorEq, false_iff, not_not]
    omega
  · rename_i h
    simp only [true_iff]
    omega

theorem validateLeg_error {leg : Leg} {e : Exc} (h : validateLeg leg = .error e) :
    (∃ detail, e = .ledger .InvalidTransfer detail) ∨
    (e = .decimal ∧ ∃ d, leg.amount = .finite d ∧ 10 ^ 24 - 1 / 20000 ≤ d.val) := by
  unfold validateLeg at h
  split at h
  · cases h
    exact .inl ⟨_, rfl⟩
  · cases h
    exact .inl ⟨_, rfl⟩
  · rename_i d direction hamount hdir
    split at h
    · rename_i hpos
      split at h
      · rename_i hq
        cases h
        exact .inr ⟨rfl, d, hamount, (quantize_eq_none_iff hpos).mp hq⟩
      · split at h
        · cases h
        · cases h
          exact .inl ⟨_, rfl⟩
    · cases h
      exact .inl ⟨_, rfl⟩
  · cases h
    exact .inl ⟨_, rfl⟩

/-- An amount that is too long is not reported as an `InvalidTransfer`. -/
theorem validateLeg_decimal {leg : Leg} {d : Dec} {direction : Direction}
    (hamount : leg.amount = .finite d) (hdir : leg.direction = direction.value)
    (hlong : 10 ^ 24 - 1 / 20000 ≤ d.val) : validateLeg leg = .error .decimal := by
  have hpos : 0 < d.val := lt_of_lt_of_le (by norm_num) hlong
  have hnone := (quantize_eq_none_iff hpos).mpr hlong
  unfold validateLeg
  rw [hamount, hdir, Direction.ofString?_value]
  dsimp only
  rw [dif_pos hpos]
  split
  · rfl
  · rename_i q hq
    rw [hnone] at hq
    cases hq

theorem ofString?_isNone {s : String} :
    (Direction.ofString? s).isNone = false ↔ ∃ d : Direction, s = d.value := by
  constructor
  · intro h
    unfold Direction.ofString? at h
    split_ifs at h with hdebit hcredit
    · exact ⟨_, hdebit⟩
    · exact ⟨_, hcredit⟩
    · cases h
  · rintro ⟨d, rfl⟩
    rw [Direction.ofString?_value]
    rfl

/-- The checks on the legs as a whole come before those on each leg. -/
theorem validateLegs_of_shape {legs : List Leg} (h : WellShaped legs) :
    validateLegs legs = legs.mapM validateLeg := by
  obtain ⟨hlen, hknown, hdebit, hcredit⟩ := h
  have hnone : (legs.map Leg.direction).filter (fun d => (Direction.ofString? d).isNone) = [] := by
    rw [List.filter_eq_nil_iff]
    intro s hs
    obtain ⟨leg, hleg, rfl⟩ := List.mem_map.mp hs
    rw [ofString?_isNone.mpr (hknown leg hleg)]
    exact Bool.false_ne_true
  unfold validateLegs
  dsimp only
  rw [if_neg (by omega), hnone, if_neg (by simp), if_neg (not_not.mpr ⟨hdebit, hcredit⟩)]

theorem validateLegs_of_not_shape {legs : List Leg} (h : ¬WellShaped legs) :
    ∃ detail, validateLegs legs = .error (.ledger .InvalidTransfer detail) := by
  unfold validateLegs
  dsimp only
  by_cases hlen : legs.length < 2
  · rw [if_pos hlen]
    exact ⟨_, rfl⟩
  · rw [if_neg hlen]
    by_cases hknown : (legs.map Leg.direction).filter (fun d => (Direction.ofString? d).isNone) ≠ []
    · rw [if_pos hknown]
      exact ⟨_, rfl⟩
    · rw [if_neg hknown]
      rw [not_not, List.filter_eq_nil_iff] at hknown
      refine ⟨_, if_pos fun hsides => h ⟨by omega, fun leg hleg => ?_, hsides⟩⟩
      apply ofString?_isNone.mp
      exact Bool.not_eq_true _ ▸ hknown _ (List.mem_map_of_mem hleg)

/-- **What validation raises**: `InvalidTransfer`, or a bare decimal exception
when it gets to an amount that is too long. -/
theorem validateLegs_error {legs : List Leg} {e : Exc} (h : validateLegs legs = .error e) :
    (∃ detail, e = .ledger .InvalidTransfer detail) ∨
    (e = .decimal ∧ WellShaped legs ∧ ∃ before leg after d, legs = before ++ leg :: after ∧
      (∀ l ∈ before, ∃ v, validateLeg l = .ok v) ∧ leg.amount = .finite d ∧
      10 ^ 24 - 1 / 20000 ≤ d.val) := by
  by_cases hshape : WellShaped legs
  · rw [validateLegs_of_shape hshape] at h
    obtain ⟨before, leg, after, hlegs, hbefore, herror⟩ := mapM_except_error.mp h
    rcases validateLeg_error herror with hledger | ⟨he, d, hamount, hlong⟩
    · exact .inl hledger
    · exact .inr ⟨he, hshape, before, leg, after, d, hlegs, hbefore, hamount, hlong⟩
  · obtain ⟨detail, hdetail⟩ := validateLegs_of_not_shape hshape
    rw [hdetail] at h
    exact .inl ⟨detail, (Except.error.inj h).symm⟩

theorem validateLegs_decimal {legs before after : List Leg} {leg : Leg} {d : Dec}
    (hshape : WellShaped legs) (hlegs : legs = before ++ leg :: after)
    (hbefore : ∀ l ∈ before, ∃ v, validateLeg l = .ok v) (hamount : leg.amount = .finite d)
    (hlong : 10 ^ 24 - 1 / 20000 ≤ d.val) : validateLegs legs = .error .decimal := by
  have hmem : leg ∈ legs := by
    rw [hlegs]
    simp
  obtain ⟨direction, hdir⟩ := hshape.2.1 leg hmem
  rw [validateLegs_of_shape hshape]
  exact mapM_except_error.mpr
    ⟨before, leg, after, hlegs, hbefore, validateLeg_decimal hamount hdir hlong⟩

/-! ## What pricing raises -/

/-- The assumptions on the state and on the call: the transfer row is one that
the table takes, the legs name existing accounts and have no overrides, and the
rates are positive numbers of their column. -/
structure Callable (env : Env) (db : Db) (a : Posting) : Prop where
  accepted : TransferAccepted db a
  fresh : FreshIds env db
  accounts : ∀ leg ∈ a.legs, ∃ c ∈ db.accounts, c.id = leg.accountId
  fund : ∃ f ∈ db.funds, f.id = a.period.fund
  currencies : ∀ c ∈ db.accounts, isIso4217 c.currency
  rates : ∀ r ∈ db.fxRates, 0 < r.rate ∧ r.rate.natAbs < 10 ^ 20
  noOverride : ∀ leg ∈ a.legs, leg.fxRate = none ∧ leg.baseAmount = none

/-- A published rate fits its column, and none is a `MissingFxRate`. -/
theorem fxRateFor_spec {db : Db} (hrates : ∀ r ∈ db.fxRates, 0 < r.rate ∧ r.rate.natAbs < 10 ^ 20)
    (fromCurrency toCurrency : String) (on : Date) :
    (∃ r : Rate, fxRateFor db fromCurrency toCurrency on = .ok r.toDec ∧ 0 < r ∧
      r.natAbs < 10 ^ 20) ∨
    ∃ detail, fxRateFor db fromCurrency toCurrency on = .error (.ledger .MissingFxRate detail) := by
  unfold fxRateFor
  dsimp only
  cases hmax : (db.fxRates.rows.filter fun r => r.fromCurrency = fromCurrency ∧
      r.toCurrency = toCurrency ∧ r.asOfDate ≤ on).argmax FxRate.asOfDate with
  | none => exact .inr ⟨_, rfl⟩
  | some r =>
    have hmem : r ∈ db.fxRates := List.mem_of_mem_filter (List.argmax_mem hmax)
    exact .inl ⟨r.rate, rfl, hrates r hmem⟩

theorem fitsRate_toDec {r : Rate} (hpos : 0 < r) (hfits : r.natAbs < 10 ^ 20) : FitsRate r.toDec :=
  ⟨(Dec.val_pos_iff _).mpr hpos, r, Dec.val_ofUnits 10 r, hfits⟩

/-- A conversion at such a rate does not fail. -/
theorem convert_isOk {amount rate : Dec} {n : ℤ} (hamount : amount.val = n / (10 : ℚ) ^ 4)
    (hn : n.natAbs < 10 ^ 28) (hpos : 0 < amount.val) (hrate : FitsRate rate) :
    ∃ q, convert amount rate = some q := by
  obtain ⟨hproduct, hbound⟩ := val_product hamount hn hrate
  have hvalue := mul_pos hpos hrate.1
  rw [abs_of_pos hvalue] at hbound
  have hlow : -2 < (Dec.rescale .halfEven (Dec.mul 50 amount rate) (-(4 : ℕ))).coeff := by
    rw [Dec.lt_rescale_iff (by norm_num), hproduct]
    norm_num
    linarith
  have hhigh : (Dec.rescale .halfEven (Dec.mul 50 amount rate) (-(4 : ℕ))).coeff < 10 ^ 50 := by
    rw [Dec.rescale_lt_iff (by norm_num), hproduct]
    refine hbound.trans ?_
    norm_num
  refine ⟨_, Dec.quantize_eq_some.mpr ⟨rfl, ?_⟩⟩
  omega

/-- Where the rounded value of a conversion is. -/
theorem convert_bounds {amount rate q : Dec} {n : ℤ} (hamount : amount.val = n / (10 : ℚ) ^ 4)
    (hn : n.natAbs < 10 ^ 28) (hrate : FitsRate rate) (h : convert amount rate = some q) :
    (0 < q.val ↔ 1 / 20000 < amount.val * rate.val) ∧
    (q.val < columnBound ↔ amount.val * rate.val < columnBound - 1 / 20000) := by
  have hproduct := (val_product hamount hn hrate).1
  have hunits : q.val = q.coeff / (10 : ℚ) ^ 4 := Dec.val_of_quantize h
  obtain ⟨hq, -⟩ := Dec.quantize_eq_some.mp h
  have hlow := @Dec.lt_rescale_iff (Dec.mul 50 amount rate) (-(4 : ℕ)) 0 (by norm_num)
  have hhigh := @Dec.rescale_lt_iff (Dec.mul 50 amount rate) (-(4 : ℕ)) (10 ^ 20) (by norm_num)
  rw [← hq, hproduct] at hlow hhigh
  constructor
  · rw [Dec.val_pos_iff, hlow]
    norm_num
  · have hcolumn : q.val < columnBound ↔ q.coeff < 10 ^ 20 := by
      rw [hunits, columnBound, div_lt_iff₀ (by norm_num)]
      norm_num
      norm_cast
    rw [hcolumn, hhigh, columnBound]
    norm_num

/-- What is known of a leg that was priced on its own. -/
structure PricedOn (db : Db) (p : PricedLeg) : Prop where
  account_mem : p.account ∈ db.accounts
  currency_eq : p.currency = p.account.currency
  amount_units : InUnits p.amount.val
  amount_pos : 0 < p.amount.val
  base_units : InUnits p.baseAmount.val
  base_nonneg : 0 ≤ p.baseAmount.val
  positive_iff : 0 < p.baseAmount.val ↔ 1 / 20000 < p.exact
  below_iff : p.baseAmount.val < columnBound ↔ p.exact < columnBound - 1 / 20000
  rate : ∃ rate, storedRate p.fxRate = .ok rate ∧ ∀ r ∈ rate, 0 < r

/-- A number of units is below a bound by a whole unit. -/
theorem InUnits.lt_iff {x : ℚ} (h : InUnits x) : x < columnBound ↔ x < columnBound - 1 / 20000 := by
  obtain ⟨n, rfl⟩ := h
  have hcast : ((n : ℚ) / (10 : ℚ) ^ 4 < columnBound ↔ n < 10 ^ 20) ∧
      ((n : ℚ) / (10 : ℚ) ^ 4 < columnBound - 1 / 20000 ↔ 2 * n < 2 * 10 ^ 20 - 1) := by
    unfold columnBound
    constructor
    · rw [div_lt_iff₀ (by norm_num)]
      norm_num
      norm_cast
    · have hq : (n : ℚ) / (10 : ℚ) ^ 4 < 10 ^ 16 - 1 / 20000 ↔ (2 * n : ℚ) < 2 * 10 ^ 20 - 1 := by
        rw [div_lt_iff₀ (by norm_num)]
        constructor <;> intro h <;> linarith
      rw [hq]
      exact_mod_cast Iff.rfl
  rw [hcast.1, hcast.2]
  omega

theorem InUnits.pos_iff {x : ℚ} (h : InUnits x) : 0 < x ↔ 1 / 20000 < x := by
  obtain ⟨n, rfl⟩ := h
  constructor
  · intro hpos
    have hn : (0 : ℚ) < n := by
      have := (div_pos_iff_of_pos_right (by norm_num : (0 : ℚ) < (10 : ℚ) ^ 4)).mp hpos
      exact this
    have hn : (1 : ℤ) ≤ n := by
      have : (0 : ℤ) < n := by exact_mod_cast hn
      omega
    have hn : (1 : ℚ) ≤ n := by exact_mod_cast hn
    rw [lt_div_iff₀ (by norm_num)]
    norm_num
    linarith
  · intro h
    exact lt_trans (by norm_num) h

section

variable {db : Db} {accounts : List Account} {baseCurrency : String} {fxDate : Date}

/-- **A leg is priced, or its rate is missing.** -/
theorem priceLeg_spec {leg : Leg} {v : ValidLeg} (valid : validateLeg leg = .ok v)
    (hnone : v.NoOverride) (hrates : ∀ r ∈ db.fxRates, 0 < r.rate ∧ r.rate.natAbs < 10 ^ 20)
    (haccounts : ∀ c ∈ accounts, c ∈ db.accounts)
    (hfound : ∃ c ∈ accounts, c.id = v.accountId) :
    (∃ p, priceLeg db accounts baseCurrency fxDate v = .ok p ∧ PricedOn db p) ∨
    ∃ detail, priceLeg db accounts baseCurrency fxDate v = .error (.ledger .MissingFxRate detail) := by
  obtain ⟨n, hn, hfits⟩ := validateLeg_bound valid
  have hpos := v.amount_pos
  obtain ⟨c, hc⟩ : ∃ c, accounts.find? (fun a => decide (a.id = v.accountId)) = some c := by
    obtain ⟨c, hc, hid⟩ := hfound
    cases hfind : accounts.find? (fun a => decide (a.id = v.accountId)) with
    | some d => exact ⟨d, rfl⟩
    | none =>
      rw [List.find?_eq_none] at hfind
      exact absurd hid (by simpa using hfind c hc)
  have hcmem : c ∈ db.accounts := haccounts c (List.mem_of_find?_eq_some hc)
  unfold priceLeg
  rw [hc]
  show (∃ p, (legRate db baseCurrency fxDate c.currency v >>= _) = _ ∧ _) ∨
    ∃ detail, (legRate db baseCurrency fxDate c.currency v >>= _) = _
  by_cases hcur : c.currency = baseCurrency
  · -- worth its own amount
    have hrate : legRate db baseCurrency fxDate c.currency v = .ok none := if_pos hcur
    have hbase : legBase v none = .ok (v.amount, false) := by
      unfold legBase
      rw [hnone.2]
      rfl
    left
    rw [hrate]
    show ∃ p, (legBase v none >>= _) = _ ∧ _
    rw [hbase]
    have hunits : InUnits v.amount.val := ⟨n, hn⟩
    exact ⟨_, rfl, hcmem, rfl, hunits, hpos, hunits, hpos.le, hunits.pos_iff, hunits.lt_iff, none,
      rfl, by simp⟩
  · have hrate : legRate db baseCurrency fxDate c.currency v =
        some <$> fxRateFor db c.currency baseCurrency fxDate := by
      unfold legRate
      rw [if_neg hcur, hnone.1]
    rw [hrate]
    rcases fxRateFor_spec hrates c.currency baseCurrency fxDate with
      ⟨r, hr, hrpos, hrfits⟩ | ⟨detail, hr⟩
    · have hfitsRate := fitsRate_toDec hrpos hrfits
      obtain ⟨q, hq⟩ := convert_isOk hn hfits hpos hfitsRate
      have hbase : legBase v (some r.toDec) = .ok (q, true) := by
        unfold legBase
        rw [hnone.2]
        dsimp only
        rw [hq]
        rfl
      left
      rw [hr]
      show ∃ p, (legBase v (some r.toDec) >>= _) = _ ∧ _
      rw [hbase]
      obtain ⟨-, hunits, hnonneg⟩ := convert_error hn hfits hpos hfitsRate hq
      obtain ⟨hpositive, hbelow⟩ := convert_bounds hn hfits hfitsRate hq
      have hstored : storedRate (some r.toDec) = .ok (some r) := by
        have hcolumn : Rate.ofDec? r.toDec = some r := Dec.toNumeric_ofUnits hrfits
        show some <$> orRaise (Rate.ofDec? r.toDec) Exc.data = _
        rw [hcolumn]
        rfl
      refine ⟨_, rfl, hcmem, rfl, ⟨n, hn⟩, hpos, hunits, hnonneg, hpositive, hbelow, some r,
        hstored, ?_⟩
      intro r' hr'
      obtain rfl : r = r' := Option.some.inj hr'
      exact hrpos
    · right
      rw [hr]
      exact ⟨detail, rfl⟩

end

/-! ## The legs of a call -/

section

variable {env : Env} {db : Db} {a : Posting} {legs : List ValidLeg}

theorem noOverride_of_valid (h : ∀ leg ∈ a.legs, leg.fxRate = none ∧ leg.baseAmount = none)
    (valid : validateLegs a.legs = .ok legs) {v : ValidLeg} (hv : v ∈ legs) : v.NoOverride := by
  obtain ⟨leg, hleg, hok⟩ := forall₂_exists_left (mapM_except_ok.mp (validateLegs_ok valid).2.2.2) hv
  obtain ⟨-, -, -, hrate, hbase⟩ := validateLeg_ok hok
  exact ⟨hrate.trans (h leg hleg).1, hbase.trans (h leg hleg).2⟩

/-- The accounts of a call are locked. -/
theorem Callable.locked (h : Callable env db a) (valid : validateLegs a.legs = .ok legs) :
    ∃ accounts, lockAccounts db legs = .ok accounts ∧ (∀ c ∈ accounts, c ∈ db.accounts) ∧
      ∀ v ∈ legs, ∃ c ∈ accounts, c.id = v.accountId := by
  have hexists : ∀ v ∈ legs, ∃ c ∈ db.accounts, c.id = v.accountId := by
    intro v hv
    obtain ⟨leg, hleg, hok⟩ :=
      forall₂_exists_left (mapM_except_ok.mp (validateLegs_ok valid).2.2.2) hv
    rw [(validateLeg_ok hok).1]
    exact h.accounts leg hleg
  obtain ⟨accounts, hlock, hmem⟩ := lockAccounts_isOk hexists
  refine ⟨accounts, hlock, fun c hc => ((hmem c).mp hc).1, fun v hv => ?_⟩
  obtain ⟨c, hc, hid⟩ := hexists v hv
  exact ⟨c, (hmem c).mpr ⟨hc, v, hv, hid.symm⟩, hid⟩

theorem Callable.baseCurrency (h : Callable env db a) :
    ∃ base, baseCurrencyOf db a.period = .ok base := by
  obtain ⟨f, hf, hid⟩ := h.fund
  have hget : db.funds.get? a.period.fund = some f := Table.get?_eq_some.mpr ⟨hf, hid⟩
  rw [baseCurrencyOf, hget]
  exact ⟨f.baseCurrency, rfl⟩

/-- **Valid legs are priced, or a rate is missing.** -/
theorem Callable.plainLegs_spec (h : Callable env db a) (valid : validateLegs a.legs = .ok legs) :
    (∃ plain, plainLegs env db a = .ok plain ∧ ∀ p ∈ plain, PricedOn db p) ∨
    ∃ detail, plainLegs env db a = .error (.ledger .MissingFxRate detail) := by
  obtain ⟨accounts, hlock, haccounts, hfound⟩ := h.locked valid
  obtain ⟨base, hbase⟩ := h.baseCurrency
  have hplain : plainLegs env db a =
      legs.mapM (priceLeg db accounts base (a.fxDate.getD env.today)) := by
    rw [plainLegs, valid]
    show (lockAccounts db legs >>= _) = _
    rw [hlock]
    show (baseCurrencyOf db a.period >>= _) = _
    rw [hbase]
    rfl
  have hone : ∀ v ∈ legs, (∃ p, priceLeg db accounts base (a.fxDate.getD env.today) v = .ok p ∧
      PricedOn db p) ∨ ∃ detail, priceLeg db accounts base (a.fxDate.getD env.today) v =
        .error (.ledger .MissingFxRate detail) := by
    intro v hv
    obtain ⟨leg, -, hok⟩ :=
      forall₂_exists_left (mapM_except_ok.mp (validateLegs_ok valid).2.2.2) hv
    exact priceLeg_spec hok (noOverride_of_valid h.noOverride valid hv) h.rates haccounts
      (hfound v hv)
  rw [hplain]
  cases hmap : legs.mapM (priceLeg db accounts base (a.fxDate.getD env.today)) with
  | ok plain =>
    left
    refine ⟨plain, rfl, fun p hp => ?_⟩
    obtain ⟨v, hv, hpv⟩ := forall₂_exists_left (mapM_except_ok.mp hmap) hp
    rcases hone v hv with ⟨q, hq, hpriced⟩ | ⟨detail, herror⟩
    · obtain rfl : p = q := Except.ok.inj (hpv.symm.trans hq)
      exact hpriced
    · rw [herror] at hpv
      cases hpv
  | error e =>
    right
    obtain ⟨before, v, after, hlegs, -, herror⟩ := mapM_except_error.mp hmap
    have hv : v ∈ legs := by
      rw [hlegs]
      simp
    rcases hone v hv with ⟨q, hq, -⟩ | ⟨detail, hmissing⟩
    · rw [hq] at herror
      cases herror
    · rw [hmissing] at herror
      cases herror
      exact ⟨detail, rfl⟩

theorem checkBalancedIn_error {priced : List PricedLeg} {e : Exc}
    (h : checkBalancedIn priced = .error e) : ∃ detail, e = .ledger .UnbalancedTransfer detail := by
  unfold checkBalancedIn at h
  exact ⟨_, (require_eq_error.mp h).2.symm⟩

theorem checkSufficientFundsIn_error {balance : Uuid → Money} {priced : List PricedLeg} {e : Exc}
    (h : checkSufficientFundsIn balance priced = .error e) :
    ∃ detail, e = .ledger .InsufficientFunds detail := by
  unfold checkSufficientFundsIn at h
  generalize fundDeltasIn priced = deltas at h
  induction deltas with
  | nil => cases h
  | cons d deltas ih =>
    rcases except_bind_error.mp h with hd | ⟨_, -, hrest⟩
    · dsimp only at hd
      split at hd
      · cases hd
      · exact ⟨_, (require_eq_error.mp hd).2.symm⟩
    · exact ih hrest

theorem validateContext_error {period : Period} {accounts : List Account} {e : Exc}
    (h : validateContext period accounts = .error e) : ∃ cls detail, e = .ledger cls detail := by
  unfold validateContext at h
  dsimp only at h
  split at h
  · cases h
    exact ⟨_, _, rfl⟩
  · split at h
    · cases h
      exact ⟨_, _, rfl⟩
    · cases h

/-- **What the checks raise is business**, and what passes them is the legs of
the call with the residual absorbed. -/
theorem Callable.preparePostingIn_spec (h : Callable env db a)
    (valid : validateLegs a.legs = .ok legs) :
    (∃ cls detail, preparePostingIn env db a legs = .error (.ledger cls detail)) ∨
    ∃ plain, plainLegs env db a = .ok plain ∧ (∀ p ∈ plain, PricedOn db p) ∧
      checkBalancedIn (absorbRoundingResidualIn plain) = .ok () ∧
      preparePostingIn env db a legs = .ok (absorbRoundingResidualIn plain) := by
  obtain ⟨accounts, hlock, -, -⟩ := h.locked valid
  obtain ⟨base, hbase⟩ := h.baseCurrency
  have hplain : plainLegs env db a =
      legs.mapM (priceLeg db accounts base (a.fxDate.getD env.today)) := by
    rw [plainLegs, valid]
    show (lockAccounts db legs >>= _) = _
    rw [hlock]
    show (baseCurrencyOf db a.period >>= _) = _
    rw [hbase]
    rfl
  have hunfold : preparePostingIn env db a legs = (do
      validateContext a.period accounts
      let priced ← absorbRoundingResidualIn <$> plainLegs env db a
      checkBalancedIn priced
      checkSufficientFundsIn (fun account => nativeBalance db account) priced
      return priced) := by
    rw [preparePostingIn, hlock]
    show (validateContext a.period accounts >>= fun _ => baseCurrencyOf db a.period >>= _) = _
    rw [hbase, hplain]
    rfl
  rw [hunfold]
  cases hcontext : validateContext a.period accounts with
  | error e =>
    obtain ⟨cls, detail, rfl⟩ := validateContext_error hcontext
    exact .inl ⟨cls, detail, rfl⟩
  | ok u =>
    rcases h.plainLegs_spec valid with ⟨plain, hok, hpriced⟩ | ⟨detail, hmissing⟩
    · rw [hok]
      show (∃ cls detail, (checkBalancedIn (absorbRoundingResidualIn plain) >>= _) = _) ∨
        ∃ plain', _ ∧ _ ∧ _ ∧ (checkBalancedIn (absorbRoundingResidualIn plain) >>= _) = _
      cases hbalanced : checkBalancedIn (absorbRoundingResidualIn plain) with
      | error e =>
        obtain ⟨detail, rfl⟩ := checkBalancedIn_error hbalanced
        exact .inl ⟨_, detail, rfl⟩
      | ok u =>
        show (∃ cls detail, (checkSufficientFundsIn _ (absorbRoundingResidualIn plain) >>= _) = _) ∨
          ∃ plain', _ ∧ _ ∧ _ ∧ (checkSufficientFundsIn _ (absorbRoundingResidualIn plain) >>= _) = _
        cases hfunds : checkSufficientFundsIn (fun account => nativeBalance db account)
            (absorbRoundingResidualIn plain) with
        | error e =>
          obtain ⟨detail, rfl⟩ := checkSufficientFundsIn_error hfunds
          exact .inl ⟨_, detail, rfl⟩
        | ok u => exact .inr ⟨plain, rfl, hpriced, hbalanced, rfl⟩
    · rw [hmissing]
      exact .inl ⟨_, detail, rfl⟩

end

/-! ## What absorbing makes of the legs -/

/-- Rounding does not change the sign. -/
theorem fix_pos_iff (d : Dec) : 0 < (Dec.fix 28 d).val ↔ 0 < d.val := by
  have herror := Dec.fix_error (by norm_num : 0 < 28) d
  constructor
  · intro h
    by_contra hneg
    rw [not_lt] at hneg
    rw [abs_of_nonpos hneg] at herror
    have hhigh := (abs_le.mp herror).2
    linarith
  · intro h
    rw [abs_of_pos h] at herror
    have hlow := (abs_le.mp herror).1
    linarith

/-- Rounding a number of units does not take it across the bound. -/
theorem fix_lt_iff {d : Dec} (h : InUnits d.val) :
    (Dec.fix 28 d).val < columnBound ↔ d.val < columnBound := by
  by_cases hsmall : |d.val| < contextBound
  · rw [val_fix_of_inUnits h hsmall]
  · rw [not_lt] at hsmall
    have herror := Dec.fix_error (by norm_num : 0 < 28) d
    unfold contextBound at hsmall
    unfold columnBound
    rcases le_total 0 d.val with hpos | hneg
    · rw [abs_of_nonneg hpos] at herror hsmall
      have hlow := (abs_le.mp herror).1
      constructor <;> intro hlt <;> norm_num at hsmall <;> linarith
    · rw [abs_of_nonpos hneg] at herror hsmall
      have hhigh := (abs_le.mp herror).2
      constructor <;> intro hlt <;> norm_num at hsmall <;> linarith

/-- A number with at most four decimal places is a number of units. -/
theorem inUnits_of_exp {d : Dec} (h : -4 ≤ d.exp) : InUnits d.val := by
  refine ⟨d.coeff * 10 ^ (d.exp + 4).toNat, ?_⟩
  have hexp : d.exp = ((d.exp + 4).toNat : ℤ) - 4 := by omega
  rw [Dec.val_eq]
  conv_lhs => rw [hexp]
  rw [zpow_sub₀ (by norm_num), zpow_natCast]
  push_cast
  norm_num
  ring

theorem exp_le_fix (prec : ℕ) (d : Dec) : d.exp ≤ (Dec.fix prec d).exp := by
  unfold Dec.fix
  dsimp only
  split_ifs
  · exact le_rfl
  · rw [Dec.rescale_exp]
    omega
  · show d.exp ≤ (Dec.rescale .halfEven d _).exp + 1
    rw [Dec.rescale_exp]
    omega

/-- A rounded number of units is a number of units. -/
theorem InUnits.fix {d : Dec} (h : InUnits d.val) : InUnits (Dec.fix 28 d).val := by
  obtain ⟨n, hn⟩ := h
  have hval : d.val = (Dec.ofUnits 4 n).val := by rw [hn, Dec.val_ofUnits]
  rw [Dec.val_fix_congr (by norm_num) hval]
  exact inUnits_of_exp (le_trans le_rfl (exp_le_fix 28 (Dec.ofUnits 4 n)))

theorem InUnits.sumIn {l : List Dec} (h : ∀ d ∈ l, InUnits d.val) : InUnits (Dec.sumIn 28 l).val := by
  have hfold : ∀ (l : List Dec) (a : Dec), (∀ d ∈ l, InUnits d.val) → InUnits a.val →
      InUnits (l.foldl (fun a d => Dec.fix 28 (a + d)) a).val := by
    intro l
    induction l with
    | nil => exact fun a _ ha => ha
    | cons d l ih =>
      intro a hl ha
      obtain ⟨hd, hl⟩ := List.forall_mem_cons.mp hl
      refine ih _ hl (InUnits.fix ?_)
      rw [Dec.val_add]
      exact ha.add hd
  exact hfold l Dec.zero h ⟨0, by simp⟩

section

variable {db : Db} {plain : List PricedLeg}

theorem inUnits_residual (h : ∀ p ∈ plain, PricedOn db p) : InUnits (residualIn plain).val := by
  have hside : ∀ direction, InUnits (sideTotalIn direction plain).val := by
    intro direction
    refine InUnits.sumIn fun d hd => ?_
    obtain ⟨p, hp, rfl⟩ := List.mem_map.mp hd
    exact (h p (List.mem_of_mem_filter hp)).base_units
  refine InUnits.fix ?_
  rw [Dec.val_sub, sub_eq_add_neg]
  exact (hside _).add (hside _).neg

/-- The base amount of the leg that absorbs, before the context rounds it. -/
theorem val_adjusting (p : PricedLeg) (residual : Dec) :
    (p.baseAmount + if p.direction = .DEBIT then -residual else residual).val =
      p.baseAmount.val - p.taken residual.val := by
  unfold PricedLeg.taken
  rw [Dec.val_add]
  split
  · rw [Dec.val_neg]
    ring
  · ring

theorem adjusted_pos_iff (p : PricedLeg) (residual : Dec) :
    0 < (p.adjusted residual).baseAmount.val ↔ p.taken residual.val < p.baseAmount.val := by
  show 0 < (Dec.fix 28 (p.baseAmount + if p.direction = .DEBIT then -residual else residual)).val ↔ _
  rw [fix_pos_iff, val_adjusting, sub_pos]

theorem inUnits_adjusting {p : PricedLeg} {residual : Dec} (hp : InUnits p.baseAmount.val)
    (hresidual : InUnits residual.val) :
    InUnits (p.baseAmount + if p.direction = .DEBIT then -residual else residual).val := by
  rw [Dec.val_add]
  refine hp.add ?_
  split
  · rw [Dec.val_neg]
    exact hresidual.neg
  · exact hresidual

theorem adjusted_lt_iff {p : PricedLeg} {residual : Dec} (hp : InUnits p.baseAmount.val)
    (hresidual : InUnits residual.val) : (p.adjusted residual).baseAmount.val < columnBound ↔
      p.baseAmount.val - p.taken residual.val < columnBound := by
  show (Dec.fix 28 (p.baseAmount + if p.direction = .DEBIT then -residual else residual)).val <
    columnBound ↔ _
  rw [fix_lt_iff (inUnits_adjusting hp hresidual), val_adjusting]

/-- Each leg afterwards is a leg of before, or the one that absorbed. -/
theorem forall_mem_absorbIn {P : PricedLeg → Prop} :
    (∀ q ∈ absorbRoundingResidualIn plain, P q) ↔ ∀ i p, plain[i]? = some p →
      (absorber plain ≠ some i → P p) ∧
      (absorber plain = some i → P (p.adjusted (residualIn plain))) := by
  have hmem : ∀ l : List PricedLeg, (∀ q ∈ l, P q) ↔ ∀ (i : ℕ) q, l[i]? = some q → P q := by
    intro l
    constructor
    · exact fun h i q hq => h q (List.mem_of_getElem? hq)
    · intro h q hq
      obtain ⟨i, hi⟩ := List.mem_iff_getElem?.mp hq
      exact h i q hi
  rw [hmem, absorbIn_eq]
  cases hwhich : absorber plain with
  | none =>
    constructor
    · exact fun h i p hp => ⟨fun _ => h i p hp, fun hsome => nomatch hsome⟩
    · exact fun h i p hp => (h i p hp).1 (by simp)
  | some j =>
    dsimp only
    constructor
    · intro h i p hp
      constructor
      · intro hne
        have hji : ¬j = i := fun heq => hne (congrArg some heq)
        refine h i p ?_
        rw [List.getElem?_modify, hp]
        simp [hji]
      · intro heq
        obtain rfl : j = i := Option.some.inj heq
        refine h j _ ?_
        rw [List.getElem?_modify, hp]
        simp
    · intro h i q hq
      rw [List.getElem?_modify] at hq
      obtain ⟨p, hp, hpq⟩ := Option.map_eq_some_iff.mp hq
      by_cases hji : j = i
      · rw [if_pos hji] at hpq
        rw [← hpq]
        exact (h i p hp).2 (congrArg some hji)
      · rw [if_neg hji] at hpq
        rw [← hpq]
        exact (h i p hp).1 fun heq => hji (Option.some.inj heq)

/-- **When the base amounts come out positive.** -/
theorem positive_iff (h : ∀ p ∈ plain, PricedOn db p) :
    (∀ q ∈ absorbRoundingResidualIn plain, 0 < q.baseAmount.val) ↔ Positive plain := by
  rw [forall_mem_absorbIn]
  constructor
  · intro hall
    refine ⟨fun i p hp hne => ?_, fun i p hp heq => ?_⟩
    · exact (h p (List.mem_of_getElem? hp)).positive_iff.mp ((hall i p hp).1 hne)
    · exact (adjusted_pos_iff p _).mp ((hall i p hp).2 heq)
  · intro hpositive i p hp
    refine ⟨fun hne => ?_, fun heq => ?_⟩
    · exact (h p (List.mem_of_getElem? hp)).positive_iff.mpr (hpositive.own i p hp hne)
    · exact (adjusted_pos_iff p _).mpr (hpositive.absorbing i p hp heq)

/-- **When amounts and base amounts stay below the bound**, and the sides agree. -/
theorem inRange_iff (h : ∀ p ∈ plain, PricedOn db p) :
    ((∀ q ∈ absorbRoundingResidualIn plain,
        q.amount.val < columnBound ∧ q.baseAmount.val < columnBound) ∧
      (sideTotal .DEBIT (absorbRoundingResidualIn plain)).val =
        (sideTotal .CREDIT (absorbRoundingResidualIn plain)).val) ↔ InRange plain := by
  rw [forall_mem_absorbIn]
  have hresidual := inUnits_residual h
  constructor
  · rintro ⟨hall, hbalanced⟩
    refine ⟨fun p hp => ?_, fun i p hp hne => ?_, fun i p hp heq => ?_, hbalanced⟩
    · obtain ⟨i, hi⟩ := List.mem_iff_getElem?.mp hp
      by_cases heq : absorber plain = some i
      · exact ((hall i p hi).2 heq).1
      · exact ((hall i p hi).1 heq).1
    · exact (h p (List.mem_of_getElem? hp)).below_iff.mp ((hall i p hp).1 hne).2
    · exact (adjusted_lt_iff (h p (List.mem_of_getElem? hp)).base_units hresidual).mp
        ((hall i p hp).2 heq).2
  · intro hrange
    refine ⟨fun i p hp => ⟨fun hne => ⟨?_, ?_⟩, fun heq => ⟨?_, ?_⟩⟩, hrange.balanced⟩
    · exact hrange.amounts p (List.mem_of_getElem? hp)
    · exact (h p (List.mem_of_getElem? hp)).below_iff.mpr (hrange.own i p hp hne)
    · exact hrange.amounts p (List.mem_of_getElem? hp)
    · exact (adjusted_lt_iff (h p (List.mem_of_getElem? hp)).base_units hresidual).mpr
        (hrange.absorbing i p hp heq)

end

/-! ## What writing raises -/

/-- The base amounts of absorbed legs are numbers of units. -/
theorem inUnits_absorbed {db : Db} {plain : List PricedLeg} (h : ∀ p ∈ plain, PricedOn db p) :
    ∀ q ∈ absorbRoundingResidualIn plain, InUnits q.baseAmount.val := by
  rw [forall_mem_absorbIn]
  intro i p hp
  have hunits := (h p (List.mem_of_getElem? hp)).base_units
  exact ⟨fun _ => hunits, fun _ => (inUnits_adjusting hunits (inUnits_residual h)).fix⟩

/-- Absorbing keeps the account, the currency, the amount and the rate. -/
theorem kept_absorbed {db : Db} {plain : List PricedLeg} (h : ∀ p ∈ plain, PricedOn db p) :
    ∀ q ∈ absorbRoundingResidualIn plain, q.account ∈ db.accounts ∧
      q.currency = q.account.currency ∧ InUnits q.amount.val ∧ 0 < q.amount.val ∧
      ∃ rate, storedRate q.fxRate = .ok rate ∧ ∀ r ∈ rate, 0 < r := by
  rw [forall_mem_absorbIn]
  intro i p hp
  have hpriced := h p (List.mem_of_getElem? hp)
  exact ⟨fun _ => ⟨hpriced.account_mem, hpriced.currency_eq, hpriced.amount_units,
    hpriced.amount_pos, hpriced.rate⟩, fun _ => ⟨hpriced.account_mem, hpriced.currency_eq,
    hpriced.amount_units, hpriced.amount_pos, hpriced.rate⟩⟩

/-- A positive number of units below the bound is stored as it is. -/
theorem stored_of_units {d : Dec} (h : InUnits d.val) (hpos : 0 < d.val) (hlt : d.val < columnBound) :
    ∃ m : Money, Money.ofDec? d = some m ∧ d.val = m / (10 : ℚ) ^ 4 ∧ 0 < m := by
  obtain ⟨n, hn⟩ := h
  have hn0 : 0 < n := by
    rw [hn] at hpos
    have := (div_pos_iff_of_pos_right (by norm_num : (0 : ℚ) < (10 : ℚ) ^ 4)).mp hpos
    exact_mod_cast this
  have hbound : n < 10 ^ 20 := by
    rw [hn, columnBound, div_lt_iff₀ (by norm_num)] at hlt
    norm_num at hlt
    exact_mod_cast hlt
  exact ⟨n, Dec.toNumeric_isSome hn (by omega), hn, hn0⟩

theorem storable_of_bounds {q : PricedLeg} (hiso : isIso4217 q.currency)
    (hamount : InUnits q.amount.val) (hpos : 0 < q.amount.val)
    (hrate : ∃ rate, storedRate q.fxRate = .ok rate ∧ ∀ r ∈ rate, 0 < r)
    (hbase : InUnits q.baseAmount.val) (hbpos : 0 < q.baseAmount.val)
    (hlt : q.amount.val < columnBound) (hblt : q.baseAmount.val < columnBound) : Storable q := by
  obtain ⟨amount, ham, -, hampos⟩ := stored_of_units hamount hpos hlt
  obtain ⟨base, hb, hbval, hbasepos⟩ := stored_of_units hbase hbpos hblt
  obtain ⟨rate, hr, hrpos⟩ := hrate
  exact ⟨amount, base, rate, ham, hb, hbval, hr, hampos, hbasepos, hrpos, hiso⟩

/-- What a money column holds is below the bound. -/
theorem lt_of_stored {d : Dec} {m : Money} (h : InUnits d.val) (hm : Money.ofDec? d = some m) :
    d.val = m / (10 : ℚ) ^ 4 ∧ m.natAbs < 10 ^ 20 ∧ d.val < columnBound := by
  obtain ⟨n, hn⟩ := h
  have hm' : m = n := Dec.toNumeric_of_val hn hm
  have hbound : n.natAbs < 10 ^ 20 := hm' ▸ (Dec.toNumeric_eq_some.mp hm).2
  rw [hm']
  refine ⟨hn, hbound, ?_⟩
  have hlt : n < 10 ^ 20 := by omega
  have hcast : (n : ℚ) < 10 ^ 20 := by exact_mod_cast hlt
  rw [hn, columnBound, div_lt_iff₀ (by norm_num)]
  norm_num
  norm_num at hcast
  exact hcast

/-- The exception is not a business error. -/
def NotBusiness (e : Exc) : Prop := ∀ cls detail, e ≠ .ledger cls detail

theorem insertTransfer_error {db : Db} {t : Transfer} {e : Exc}
    (h : insertTransfer db t = .error e) : NotBusiness e := by
  simp only [insertTransfer, except_bind_error, require_eq_error, orRaise_eq_error] at h
  intro cls detail he
  subst he
  simp [pure, Except.pure] at h

theorem insertEntry_error {db : Db} {t : Entry} {e : Exc}
    (h : insertEntry db t = .error e) : NotBusiness e := by
  simp only [insertEntry, except_bind_error, require_eq_error, orRaise_eq_error] at h
  intro cls detail he
  subst he
  simp [pure, Except.pure] at h

theorem insertEntries_error : ∀ {es : List Entry} {db : Db} {e : Exc},
    insertEntries db es = .error e → NotBusiness e
  | [], db, e, h => nomatch h
  | f :: es, db, e, h => by
    rw [insertEntries, List.foldlM_cons] at h
    rcases except_bind_error.mp h with hf | ⟨db₁, -, hrest⟩
    · exact insertEntry_error hf
    · exact insertEntries_error hrest

theorem entriesFor_error {env : Env} {transfer : Uuid} {priced : List PricedLeg} {e : Exc}
    (h : entriesFor env transfer priced = .error e) : NotBusiness e := by
  obtain ⟨before, c, after, -, -, herror⟩ := mapM_except_error.mp h
  intro cls detail he
  subst he
  simp only [entryOf, except_bind_error, orRaise_eq_error] at herror
  rcases herror with ⟨-, hdata⟩ | ⟨amount, -, hrate | ⟨rate, -, ⟨-, hdata⟩ | ⟨base, -, hret⟩⟩⟩
  · cases hdata
  · unfold storedRate at hrate
    split at hrate
    · cases hrate
    · rename_i r _
      cases hr : Rate.ofDec? r with
      | none =>
        rw [hr] at hrate
        cases hrate
      | some x =>
        rw [hr] at hrate
        cases hrate
  · cases hdata
  · cases hret

theorem writePosting_error {env : Env} {a : Posting} {priced : List PricedLeg} {db db' : Db}
    {e : Exc} (h : writePosting env a priced db = (.error e, db')) : NotBusiness e := by
  unfold writePosting at h
  rcases Tx.bind_error.mp h with hins | ⟨_, db₁, -, h⟩
  · exact insertTransfer_error (Tx.statement_error.mp hins).1
  · rcases Tx.bind_error.mp h with hes | ⟨es, db₂, -, h⟩
    · exact entriesFor_error (Tx.lift_eq.mp hes).1.symm
    · rcases Tx.bind_error.mp h with hentries | ⟨_, db₃, -, h⟩
      · exact insertEntries_error (Tx.statement_error.mp hentries).1
      · rw [Tx.read_bind] at h
        rcases Tx.bind_error.mp h with hbalance | ⟨_, db₄, -, h⟩
        · have hassert := (Tx.lift_eq.mp hbalance).1.symm
          unfold assertTransferBalances at hassert
          intro cls detail he
          subst he
          cases (require_eq_error.mp hassert).2
        · cases (Tx.pure_eq.mp h).1

/-! ## The promise -/

/-- The constraints on the row of an entry. -/
def FitsRow (e : Entry) : Prop :=
  0 < e.amount ∧ e.amount.natAbs < 10 ^ 20 ∧ 0 < e.baseAmount ∧ e.baseAmount.natAbs < 10 ^ 20 ∧
    ∀ r ∈ e.fxRate, 0 < r

/-- What callers of `post_transfer` rely on: it stores entries that satisfy the
constraints or raises a `LedgerError`, and balanced legs have positive base
amounts. -/
structure KeepsPromise (env : Env) (db : Db) (a : Posting) : Prop where
  outcome : (∃ t db' es, postTransferIn env a db = (.ok t, db') ∧
      db'.entries.rows = db.entries.rows ++ es ∧ ∀ e ∈ es, FitsRow e) ∨
    ∃ cls detail, (postTransferIn env a db).1 = .error (.ledger cls detail)
  positive : ∀ legs accounts base priced, validateLegs a.legs = .ok legs →
    lockAccounts db legs = .ok accounts → baseCurrencyOf db a.period = .ok base →
    priceLegsIn db legs accounts base (a.fxDate.getD env.today) = .ok priced →
    checkBalancedIn priced = .ok () → ∀ p ∈ priced, 0 < p.baseAmount.val

section

variable {env : Env} {db : Db} {a : Posting}

/-- The priced legs are the plain ones with the residual absorbed. -/
theorem plainLegs_eq_ok {plain : List PricedLeg} : plainLegs env db a = .ok plain ↔
    ∃ legs accounts base, validateLegs a.legs = .ok legs ∧ lockAccounts db legs = .ok accounts ∧
      baseCurrencyOf db a.period = .ok base ∧
      legs.mapM (priceLeg db accounts base (a.fxDate.getD env.today)) = .ok plain := by
  simp only [plainLegs, except_bind_ok]
  constructor
  · rintro ⟨legs, hlegs, accounts, haccounts, base, hbase, hplain⟩
    exact ⟨legs, accounts, base, hlegs, haccounts, hbase, hplain⟩
  · rintro ⟨legs, accounts, base, hlegs, haccounts, hbase, hplain⟩
    exact ⟨legs, hlegs, accounts, haccounts, base, hbase, hplain⟩

/-- The legs of a call are priced on accounts of the database. -/
theorem Callable.pricedOn (h : Callable env db a) {plain : List PricedLeg}
    (hplain : plainLegs env db a = .ok plain) : ∀ p ∈ plain, PricedOn db p := by
  obtain ⟨legs, -, -, valid, -⟩ := plainLegs_eq_ok.mp hplain
  rcases h.plainLegs_spec valid with ⟨plain', hok, hpriced⟩ | ⟨detail, herror⟩
  · obtain rfl : plain = plain' := Except.ok.inj (hplain.symm.trans hok)
    exact hpriced
  · rw [herror] at hplain
    cases hplain

/-- **The base amounts of balanced legs are positive exactly when the values
are.** -/
theorem Callable.positive_iff (h : Callable env db a) :
    (∀ legs accounts base priced, validateLegs a.legs = .ok legs →
      lockAccounts db legs = .ok accounts → baseCurrencyOf db a.period = .ok base →
      priceLegsIn db legs accounts base (a.fxDate.getD env.today) = .ok priced →
      checkBalancedIn priced = .ok () → ∀ p ∈ priced, 0 < p.baseAmount.val) ↔
    ∀ plain, plainLegs env db a = .ok plain →
      checkBalancedIn (absorbRoundingResidualIn plain) = .ok () → Positive plain := by
  constructor
  · intro hall plain hplain hbalanced
    obtain ⟨legs, accounts, base, valid, hlock, hbase, hmap⟩ := plainLegs_eq_ok.mp hplain
    have hpriced : priceLegsIn db legs accounts base (a.fxDate.getD env.today) =
        .ok (absorbRoundingResidualIn plain) := by
      rw [priceLegsIn, hmap]
      rfl
    exact (FundLedger.positive_iff (h.pricedOn hplain)).mp
      (hall legs accounts base _ valid hlock hbase hpriced hbalanced)
  · intro hall legs accounts base priced valid hlock hbase hpriced hbalanced
    unfold priceLegsIn at hpriced
    cases hmap : legs.mapM (priceLeg db accounts base (a.fxDate.getD env.today)) with
    | error e =>
      rw [hmap] at hpriced
      cases hpriced
    | ok plain =>
      rw [hmap] at hpriced
      obtain rfl : absorbRoundingResidualIn plain = priced := Except.ok.inj hpriced
      have hplain : plainLegs env db a = .ok plain :=
        plainLegs_eq_ok.mpr ⟨legs, accounts, base, valid, hlock, hbase, hmap⟩
      exact (FundLedger.positive_iff (h.pricedOn hplain)).mpr (hall plain hplain hbalanced)

/-- With the legs validated, the outcome is that of the checks and of writing. -/
theorem postTransferIn_apply {legs : List ValidLeg} (valid : validateLegs a.legs = .ok legs) :
    postTransferIn env a db = Tx.atomic (do
      let priced ← Tx.lift (preparePostingIn env db a legs)
      writePosting env a priced) db := by
  rw [postTransferIn, Tx.bind_apply, Tx.lift, valid]
  rfl

/-- **What writing balanced legs comes to.** -/
theorem Callable.writePosting_iff (h : Callable env db a) {plain : List PricedLeg}
    (hpriced : ∀ p ∈ plain, PricedOn db p) (hpositive : Positive plain) :
    (∃ t db' es, writePosting env a (absorbRoundingResidualIn plain) db = (.ok t, db') ∧
      db'.entries.rows = db.entries.rows ++ es ∧ ∀ e ∈ es, FitsRow e) ↔ InRange plain := by
  have hkept := kept_absorbed hpriced
  have hunits := inUnits_absorbed hpriced
  have hbpos := (FundLedger.positive_iff hpriced).mpr hpositive
  rw [← inRange_iff hpriced]
  generalize absorbRoundingResidualIn plain = priced at hkept hunits hbpos ⊢
  constructor
  · rintro ⟨t, db', es, hwrite, -⟩
    obtain ⟨rfl, db₁, es', hins, hes, hentries, hbalance⟩ := writePosting_ok.mp hwrite
    have hrows := entriesFor_ok hes
    have hbounds : ∀ q ∈ priced, q.amount.val < columnBound ∧ q.baseAmount.val < columnBound := by
      intro q hq
      obtain ⟨e, -, hrow⟩ := forall₂_exists_right hrows hq
      obtain ⟨-, -, hamount, -⟩ := hkept q hq
      exact ⟨(lt_of_stored hamount hrow.amount_eq).2.2,
        (lt_of_stored (hunits q hq) hrow.baseAmount_eq).2.2⟩
    refine ⟨hbounds, ?_⟩
    -- the entries of the new transfer are the rows of the legs
    obtain ⟨-, -, -, -, -, -, -, transfers, htins, hdb₁⟩ := insertTransfer_ok hins
    obtain ⟨-, entries, herows, hdb'⟩ := insertEntries_ok hentries
    have hgroup : entriesOf db' (transferFor env a).id = es' := by
      have hold : group Entry.transfer (transferFor env a).id db.entries.rows = [] :=
        group_eq_nil fun f hf => h.fresh.no_entries f hf
      rw [entriesOf, hdb']
      show group _ _ entries.rows = _
      rw [herows, hdb₁, group_append, hold, List.nil_append]
      refine group_eq_self fun e he => ?_
      obtain ⟨p, -, hrow⟩ := forall₂_exists_left hrows he
      exact hrow.transfer_eq
    rw [assertTransferBalances, hgroup, require_eq_ok] at hbalance
    have hvalues : ∀ {ps : List PricedLeg} {fs : List Entry},
        List.Forall₂ (RowOf env (transferFor env a).id) ps fs → (∀ q ∈ ps, q ∈ priced) →
        ((sumBy Entry.signedBaseAmount fs : ℤ) : ℚ) / 10 ^ 4 =
          (sideTotal .DEBIT ps).val - (sideTotal .CREDIT ps).val := by
      intro ps fs hforall hmem
      induction hforall with
      | nil => simp [sideTotal, Dec.sum]
      | @cons p e ps fs hrow _ ih =>
        obtain ⟨hp, hps⟩ := List.forall_mem_cons.mp hmem
        have hval := (lt_of_stored (hunits p hp) hrow.baseAmount_eq).1
        rw [val_sideTotal_cons, val_sideTotal_cons, sumBy_cons, Entry.signedBaseAmount,
          hrow.direction_eq, hval]
        push_cast
        rw [add_div, ih hps]
        cases p.direction <;> simp [signed] <;> ring
    have hsides := hvalues hrows fun _ hq => hq
    rw [hbalance, Int.cast_zero, zero_div] at hsides
    exact (sub_eq_zero.mp hsides.symm)
  · rintro ⟨hbounds, hbalanced⟩
    have hstorable : ∀ q ∈ priced, Storable q := by
      intro q hq
      obtain ⟨haccount, hcurrency, hamount, hpos, hrate⟩ := hkept q hq
      exact storable_of_bounds (hcurrency ▸ h.currencies _ haccount) hamount hpos hrate
        (hunits q hq) (hbpos q hq) (hbounds q hq).1 (hbounds q hq).2
    obtain ⟨db', hwrite⟩ := writePosting_isOk
      (fun q hq => ⟨(hkept q hq).1, (hkept q hq).2.1⟩) hstorable hbalanced h.accepted h.fresh
    obtain ⟨-, db₁, es, hins, hes, hentries, -⟩ := writePosting_ok.mp hwrite
    have hrows := entriesFor_ok hes
    obtain ⟨-, -, -, -, -, -, -, transfers, htins, hdb₁⟩ := insertTransfer_ok hins
    obtain ⟨hacc, entries, herows, hdb'⟩ := insertEntries_ok hentries
    refine ⟨_, db', es, hwrite, ?_, fun e he => ?_⟩
    · rw [hdb']
      show entries.rows = _
      rw [herows, hdb₁]
    · obtain ⟨q, hq, hrow⟩ := forall₂_exists_left hrows he
      obtain ⟨-, -, hamount, -⟩ := hkept q hq
      have haccepted := hacc e he
      exact ⟨haccepted.amount_pos, (lt_of_stored hamount hrow.amount_eq).2.1,
        haccepted.baseAmount_pos, (lt_of_stored (hunits q hq) hrow.baseAmount_eq).2.1,
        haccepted.fxRate_pos⟩

end

/-! ## A fund that invests in Japan -/

/-- A fund in pounds with two accounts in yen; 1000 yen are 5.20 pounds. -/
def yenFund : Db where
  funds := ⟨[{ id := 1, name := "Japan Fund", baseCurrency := "GBP" }], by decide⟩
  lps := .empty
  commitments := .empty
  periods := ⟨[{ id := 2, fund := 1, startDate := 1, endDate := 365, status := .OPEN
                 closedAt := none, closedBy := "" }], by decide⟩
  fxRates := ⟨[{ id := 3, fromCurrency := "JPY", toCurrency := "GBP", rate := 52000000
                 asOfDate := 1 }], by decide⟩
  accounts := ⟨[
    { id := 4, fund := 1, code := "INVESTMENT-JPY", accountType := .INVESTMENT, ownerLp := none
      currency := "JPY" },
    { id := 5, fund := 1, code := "GAIN_LOSS-JPY", accountType := .GAIN_LOSS, ownerLp := none
      currency := "JPY" }], by decide⟩
  transfers := .empty
  entries := .empty
  capitalCalls := .empty
  distributions := .empty
  memberships := .empty

/-- A gain on a holding in yen. -/
def yenGain (amount : Amount) : Posting where
  idempotencyKey := "gain"
  legs := [
    { accountId := 4, direction := "DEBIT", amount },
    { accountId := 5, direction := "CREDIT", amount }]
  period := { id := 2, fund := 1, startDate := 1, endDate := 365, status := .OPEN
              closedAt := none, closedBy := "" }
  transferType := .ADJUSTMENT

def yenEnv : Env where
  today := 32
  now := 1
  uuid4 := fun d => match d with
    | .transfer => 11
    | .entry i => 100 + i
    | .account i => 200 + i
    | .document => 12

theorem callable_yenGain (amount : Amount) : Callable yenEnv yenFund (yenGain amount) where
  accepted := by
    constructor
    · show "gain".length ≤ 255
      decide
    · show "".length ≤ 255
      decide
    · show "gain" ≠ ""
      decide
    · exact fun u hu => nomatch hu
    · exact .inl rfl
    · exact fun h => nomatch h
    · exact fun u hu => nomatch hu
    · exact fun o ho => nomatch ho
    · exact ⟨_, List.mem_cons_self, rfl, rfl⟩
  fresh := by
    constructor
    · exact fun t ht => nomatch ht
    · exact fun e he => nomatch he
    · intro i j h
      change 100 + i = 100 + j at h
      omega
    · exact fun e he => nomatch he
  accounts := by
    intro leg hleg
    simp only [yenGain, List.mem_cons, List.not_mem_nil, or_false] at hleg
    rcases hleg with rfl | rfl
    · exact ⟨_, List.mem_cons_self, rfl⟩
    · exact ⟨_, List.mem_cons_of_mem _ List.mem_cons_self, rfl⟩
  fund := ⟨_, List.mem_cons_self, rfl⟩
  currencies := by decide
  rates := by decide
  noOverride := by
    intro leg hleg
    simp only [yenGain, List.mem_cons, List.not_mem_nil, or_false] at hleg
    rcases hleg with rfl | rfl <;> exact ⟨rfl, rfl⟩

end FundLedger
