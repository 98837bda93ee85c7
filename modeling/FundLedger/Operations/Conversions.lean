import FundLedger.Lib.HalfEven
import FundLedger.Ledger.Residual
import FundLedger.Operations.Fingerprints

/-!
# How conversions are rounded

An amount in a foreign currency is converted in two places.  `convert` works in
a context of 50 digits, so that its product is exact and is rounded once, to
four places.  `record_investment` works in the default context of 28 digits and
rounds to pennies afterwards, and a product can have 30 digits: then it is
rounded twice.

`MovedToTie` says for which products that makes a difference, and
`conversions_rounded_iff` that everything is rounded correctly, and the holding
is stored at what it cost, for all the others.
-/

namespace FundLedger

open Lib

/-! ## The product -/

/-- The last place of the product that 28 digits keep, in units of 10^-14. -/
def lastKept (product : ℤ) : ℕ := 10 ^ (Nat.log 10 product.natAbs + 1 - 28)

/-- The product, in units of 10^-14, is next to the middle between two pennies,
so near that 28 digits do not tell it from the middle, and the even penny is on
the other side. -/
def MovedToTie (product : ℤ) : Prop := DoublyRounded (lastKept product) (10 ^ 12) product

instance (product : ℤ) : Decidable (MovedToTie product) := by
  unfold MovedToTie
  exact inferInstance

section

variable {amount : Dec} {n : ℤ} {rate : Rate}

theorem val_rate (rate : Rate) : rate.toDec.val = rate / (10 : ℚ) ^ 10 := Dec.val_ofUnits 10 rate

/-- The product of an amount and a rate, in units of 10^-14. -/
theorem val_mul_rate (hamount : amount.val = n / (10 : ℚ) ^ 4) :
    amount.val * rate.toDec.val = (n * rate : ℤ) / (10 : ℚ) ^ 14 := by
  rw [hamount, val_rate]
  push_cast
  ring

/-- The product in the default context. -/
theorem val_mul_default (rate : Rate) (hamount : amount.val = n / (10 : ℚ) ^ 4) :
    (Dec.mul 28 amount rate.toDec).val = (Dec.rescale .halfEven ⟨n * rate, -14⟩
      (-14 + (Nat.log 10 (n * rate : ℤ).natAbs + 1 - 28 : ℕ))).val := by
  have hunits : amount.val = (Dec.ofUnits 4 n).val := by rw [hamount, Dec.val_ofUnits]
  have hproduct : (⟨(Dec.ofUnits 4 n).coeff * rate.toDec.coeff,
      (Dec.ofUnits 4 n).exp + rate.toDec.exp⟩ : Dec) = ⟨n * rate, -14⟩ := rfl
  rw [Dec.val_mul_congr (by norm_num) hunits, Dec.mul, hproduct, Dec.val_fix (by norm_num)]

/-- **The cost in pennies** is rounded from the digits that were kept. -/
theorem cost_coeff (rate : Rate) (hamount : amount.val = n / (10 : ℚ) ^ 4)
    (hfits : (n * rate : ℤ).natAbs < 10 ^ 30) : ∃ u : ℕ, 0 < u ∧ u % 4 = 0 ∧
      lastKept (n * rate) * u = 10 ^ 12 ∧
      (Dec.rescale .halfEven (Dec.mul 28 amount rate.toDec) (-(2 : ℕ))).coeff =
        divRound .halfEven (divRound .halfEven (n * rate) (lastKept (n * rate))) u := by
  have hdigits : Nat.log 10 (n * rate : ℤ).natAbs < 30 := by
    by_cases hzero : (n * rate : ℤ).natAbs = 0
    · rw [hzero, Nat.log_zero_right]
      norm_num
    · exact Nat.log_lt_of_lt_pow hzero hfits
  have hvalue := val_mul_default rate hamount
  unfold lastKept
  generalize hk : Nat.log 10 (n * rate : ℤ).natAbs + 1 - 28 = k at hvalue
  have hk2 : k ≤ 2 := by omega
  refine ⟨10 ^ (12 - k), by positivity, ?_, ?_, ?_⟩
  · interval_cases k <;> norm_num
  · rw [← pow_add]
    congr 1
    omega
  · have hexp : (-14 : ℤ) ≤ -14 + k := by omega
    rw [Dec.rescale_congr _ hvalue, Dec.rescale_coeff, Dec.rescale_coeff .halfEven hexp,
      Dec.rescale_exp]
    · have hfirst : ((-14 : ℤ) + k - -14).toNat = k := by omega
      have hsecond : (-((2 : ℕ) : ℤ) - (-14 + k)).toNat = 12 - k := by omega
      rw [hfirst, hsecond]
    · rw [Dec.rescale_exp]
      omega

/-- The cost of a foreign purchase can be worked out. -/
theorem costOf_isOk (rate : Rate) (hamount : amount.val = n / (10 : ℚ) ^ 4)
    (hpos : 0 ≤ (n * rate : ℤ)) (hfits : (n * rate : ℤ).natAbs < 10 ^ 30) :
    ∃ c, costOf (.finite amount) rate.toDec = .ok (.finite c) ∧
      c = Dec.rescale .halfEven (Dec.mul 28 amount rate.toDec) (-(2 : ℕ)) := by
  have hproduct := Dec.val_product_exact amount rate.toDec
  have herror := Dec.fix_error (by norm_num : 0 < 28)
    ⟨amount.coeff * rate.toDec.coeff, amount.exp + rate.toDec.exp⟩
  have hnonneg : 0 ≤ amount.val * rate.toDec.val := by
    rw [val_mul_rate hamount]
    have hcast : (0 : ℚ) ≤ (n * rate : ℤ) := by exact_mod_cast hpos
    positivity
  have hlt : amount.val * rate.toDec.val < 10 ^ 16 := by
    rw [val_mul_rate hamount, div_lt_iff₀ (by norm_num)]
    have hcast : ((n * rate : ℤ) : ℚ) < 10 ^ 30 := by
      have hint : (n * rate : ℤ) < 10 ^ 30 := by
        zify at hfits
        exact lt_of_le_of_lt (le_abs_self _) hfits
      exact_mod_cast hint
    refine hcast.trans_le ?_
    norm_num
  rw [hproduct, abs_of_nonneg hnonneg] at herror
  obtain ⟨hlow, hhigh⟩ := abs_le.mp herror
  have hq : Dec.quantize 28 2 (Dec.mul 28 amount rate.toDec) =
      some (Dec.rescale .halfEven (Dec.mul 28 amount rate.toDec) (-(2 : ℕ))) := by
    apply Dec.quantize_isSome_of_lt (by norm_num)
    · show 0 ≤ (Dec.fix 28 _).val
      linarith
    · show (Dec.fix 28 _).val < _
      norm_num
      linarith
  refine ⟨_, ?_, rfl⟩
  show Amount.finite <$> orRaise (Dec.quantize 28 2 (Dec.mul 28 amount rate.toDec)) Exc.decimal = _
  rw [hq]
  rfl

/-- **The cost is rounded correctly unless the first rounding moved the product
to a tie.** -/
theorem cost_rounded_iff (hamount : amount.val = n / (10 : ℚ) ^ 4)
    (hfits : (n * rate : ℤ).natAbs < 10 ^ 30) :
    HalfEven 2 (amount.val * rate.toDec.val)
      (Dec.rescale .halfEven (Dec.mul 28 amount rate.toDec) (-(2 : ℕ))).val ↔
    ¬MovedToTie (n * rate) := by
  obtain ⟨u, hu, hfour, hunit, hcoeff⟩ := cost_coeff rate hamount hfits
  have hkept : 0 < lastKept (n * rate) := by
    unfold lastKept
    positivity
  have htwice := divRound_divRound_iff (n * rate) hkept hu hfour
  rw [hunit, ← hcoeff] at htwice
  have hpennies : amount.val * rate.toDec.val * (10 : ℚ) ^ 2 = (n * rate : ℤ) / ((10 ^ 12 : ℕ) : ℚ) := by
    rw [val_mul_rate hamount]
    push_cast
    ring
  have hround := divRound_roundsTo (n * rate) (d := 10 ^ 12) (by norm_num)
  rw [← hpennies] at hround
  have hvalue : (Dec.rescale .halfEven (Dec.mul 28 amount rate.toDec) (-(2 : ℕ))).val =
      (Dec.rescale .halfEven (Dec.mul 28 amount rate.toDec) (-(2 : ℕ))).coeff / (10 : ℚ) ^ 2 := by
    rw [Dec.val_eq, Dec.rescale_exp, zpow_neg, zpow_natCast]
    rfl
  unfold MovedToTie
  rw [← htwice]
  constructor
  · rintro ⟨c, hc, hnear⟩
    rw [hvalue, div_left_inj' (by norm_num), Int.cast_inj] at hc
    rw [hc]
    exact hnear.unique hround
  · intro h
    refine ⟨_, hvalue, ?_⟩
    rw [h]
    exact hround

end

/-! ## What a purchase stores -/

/-- A base amount that the caller supplied is the one of the priced leg. -/
theorem priceLegs_override {db : Db} {legs : List ValidLeg} {accounts : List Account}
    {baseCurrency : String} {fxDate : Date} {priced : List PricedLeg}
    (h : priceLegs db legs accounts baseCurrency fxDate = .ok priced) :
    List.Forall₂ (fun v p => p.direction = v.direction ∧ p.amount = v.amount ∧
      ∀ b, v.baseAmount = some (.finite b) → p.baseAmount = b) legs priced := by
  unfold priceLegs at h
  cases hplain : legs.mapM (priceLeg db accounts baseCurrency fxDate) with
  | error e =>
    rw [hplain] at h
    cases h
  | ok plain =>
    rw [hplain] at h
    obtain rfl : absorbRoundingResidual plain = priced := Except.ok.inj h
    apply forall₂_comp (mapM_except_ok.mp hplain) (absorbRoundingResidual_fixed plain)
    intro v _ p q hp ⟨hsame, hfixed⟩
    obtain ⟨-, -, hdir, hamount, -⟩ := priceLeg_ok hp
    rw [SameLeg] at hsame
    refine ⟨?_, ?_, fun b hb => ?_⟩
    · rw [hsame]
      exact hdir
    · rw [hsame]
      exact hamount
    · have hbase := legBase_of_override hb (priceLeg_values hp).2
      rw [hfixed (congrArg Prod.snd hbase)]
      exact congrArg Prod.fst hbase

/-- The entry of a leg has its amount, and its base amount if the caller supplied
one. -/
structure StoredLeg (leg : Leg) (e : Entry) : Prop where
  direction_eq : leg.direction = e.direction.value
  amount_eq : ∀ x, leg.amount = .finite x → Money.ofDec? x = some e.amount
  baseAmount_eq : ∀ b, leg.baseAmount = some (.finite b) → Money.ofDec? b = some e.baseAmount

theorem Posted.storedLegs {env : Env} {a : Posting} {db db' : Db} {es : List Entry}
    (h : Posted env a db db' es) : List.Forall₂ StoredLeg a.legs es := by
  obtain ⟨vs, accounts, priced, valid, hprepared, hrows⟩ := h.prepared
  obtain ⟨base, -, hpriced⟩ := hprepared.pricedBy
  have hvalid := mapM_except_ok.mp (validateLegs_ok valid).2.2.2
  have hstored : List.Forall₂ (fun v (e : Entry) => e.direction = v.direction ∧
      Money.ofDec? v.amount = some e.amount ∧
      ∀ b, v.baseAmount = some (.finite b) → Money.ofDec? b = some e.baseAmount) vs es := by
    apply forall₂_comp (priceLegs_override hpriced) hrows
    intro v _ p e ⟨hdir, hamount, hbase⟩ hrow
    refine ⟨?_, ?_, fun b hb => ?_⟩
    · rw [hrow.direction_eq, hdir]
    · rw [← hrow.amount_eq, hamount]
    · rw [← hrow.baseAmount_eq, hbase b hb]
  apply forall₂_comp hvalid hstored
  intro leg _ v e hv ⟨hdir, hamount, hbase⟩
  obtain ⟨-, hvdir, hvamount, -, hvbase⟩ := validateLeg_ok hv
  constructor
  · rw [hvdir, hdir]
  · intro x hx
    rw [hvamount] at hx
    cases hx
    exact hamount
  · intro b hb
    exact hbase b (hvbase.trans hb)

/-- **The entries of a foreign purchase**: the holding at its cost, and the
cash. -/
theorem recordInvestment_entries {env : Env} {fundId : Uuid} {key : String} {amount : Amount}
    {currency : String} {onDate : Date} {db db' : Db} {t : Transfer} {fund : Fund} {rate c : Dec}
    (h : recordInvestment env fundId key amount currency onDate db = (.ok (t, true), db'))
    (hfund : getFund db fundId = .ok fund) (hforeign : currency ≠ fund.baseCurrency)
    (hrate : fxRateFor db currency fund.baseCurrency onDate = .ok rate)
    (hcost : costOf amount rate = .ok (.finite c)) :
    ∃ holding cash, addedEntries db db' = [holding, cash] ∧ holding.direction = .DEBIT ∧
      cash.direction = .CREDIT ∧ Money.ofDec? c = some holding.baseAmount ∧
      Money.ofDec? c = some cash.amount := by
  obtain ⟨fund', period, investment, dₐ, cashAccount, legs, hfund', -, -, -, hlegs, hpost, -, hrates,
    -, hentries⟩ := recordInvestment_ok h
  obtain rfl : fund = fund' := Except.ok.inj (hfund.symm.trans hfund')
  have hrateₐ : fxRateFor dₐ currency fund.baseCurrency onDate = .ok rate := by
    rw [fxRateFor, hrates]
    exact hrate
  rw [investmentLegs, if_neg hforeign, hrateₐ] at hlegs
  obtain ⟨rate', hrate', hlegs⟩ := except_bind_ok.mp hlegs
  obtain rfl : rate = rate' := Except.ok.inj hrate'
  obtain ⟨cost, hcost', hlegs⟩ := except_bind_ok.mp hlegs
  obtain rfl : Amount.finite c = cost := Except.ok.inj (hcost.symm.trans hcost')
  obtain ⟨requestHash, es, -, hposted⟩ := postTransferIdempotent_posted hpost
  have hadded : addedEntries db db' = es := by
    rw [← hposted.addedEntries_eq, addedEntries, addedEntries, hentries]
  have hstored := hposted.storedLegs
  change List.Forall₂ StoredLeg legs es at hstored
  rw [← Except.ok.inj hlegs] at hstored
  cases hstored with
  | cons hholding hrest =>
    cases hrest with
    | cons hcash hnil =>
      cases hnil
      exact ⟨_, _, hadded, (Direction.value_injective hholding.direction_eq).symm,
        (Direction.value_injective hcash.direction_eq).symm, hholding.baseAmount_eq c rfl,
        hcash.amount_eq c rfl⟩

/-! ## Both paths -/

/-- The promise for an amount and a rate: both conversions are the product
rounded half to even, and a purchase stores the holding at what it costs in
cash, half a penny from the product at most. -/
structure CorrectlyRounded (amount : Dec) (rate : Rate) : Prop where
  convert : ∃ q, FundLedger.convert amount rate.toDec = some q ∧
    HalfEven 4 (amount.val * rate.toDec.val) q.val
  cost : ∃ c, costOf (.finite amount) rate.toDec = .ok (.finite c) ∧
    HalfEven 2 (amount.val * rate.toDec.val) c.val
  stored : ∀ (env : Env) (fundId : Uuid) (key currency : String) (onDate : Date) (db db' : Db)
    (t : Transfer) (fund : Fund), getFund db fundId = .ok fund → currency ≠ fund.baseCurrency →
    fxRateFor db currency fund.baseCurrency onDate = .ok rate.toDec →
    recordInvestment env fundId key (.finite amount) currency onDate db = (.ok (t, true), db') →
    ∃ holding cash, addedEntries db db' = [holding, cash] ∧ holding.direction = .DEBIT ∧
      cash.direction = .CREDIT ∧ holding.baseAmount = cash.amount ∧
      |holding.baseAmount.toDec.val - amount.val * rate.toDec.val| ≤ 5 / 1000

section

variable {amount : Dec} {n : ℤ} {rate : Rate}

/-- What a column stores of a number of pennies. -/
theorem val_stored_pennies {c : Dec} {m : Money} {x : ℚ} (hc : HalfEven 2 x c.val)
    (hm : Money.ofDec? c = some m) : m.toDec.val = c.val := by
  obtain ⟨k, hk, -⟩ := hc
  have hunits : c.val = (100 * k : ℤ) / (10 : ℚ) ^ 4 := by
    rw [hk]
    push_cast
    ring
  rw [Money.val_toDec, Dec.toNumeric_of_val hunits hm, hunits]

/-- **`convert` rounds correctly**: fifty digits hold the product. -/
theorem convert_rounded (hamount : amount.val = n / (10 : ℚ) ^ 4) (hn : n.natAbs < 10 ^ 20)
    (hpos : 0 < rate) (hrate : rate.natAbs < 10 ^ 20) :
    ∃ q, convert amount rate.toDec = some q ∧
      HalfEven 4 (amount.val * rate.toDec.val) q.val := by
  have hunits : amount.val = (Money.toDec n).val := by rw [hamount, Money.val_toDec]
  have hfits : FitsRate rate.toDec := by
    constructor
    · exact (Dec.val_pos_iff _).mpr hpos
    · exact ⟨rate, val_rate rate, hrate⟩
  obtain ⟨q, hq⟩ := convert_isSome hn hrate
  rw [← convert_congr hunits] at hq
  refine ⟨q, hq, ?_⟩
  rw [← (val_product hamount (hn.trans (by norm_num)) hfits).1]
  exact Dec.quantize_halfEven hq

/-- **Conversions are rounded correctly on both paths exactly when the first
rounding of the cost does not move the product to a tie.** -/
theorem conversions_rounded_iff (hamount : amount.val = n / (10 : ℚ) ^ 4) (hn : 0 < n)
    (hcolumn : n.natAbs < 10 ^ 20) (hrate : 0 < rate) (hrateColumn : rate.natAbs < 10 ^ 20)
    (hfits : amount.val * rate.toDec.val < 10 ^ 16) :
    CorrectlyRounded amount rate ↔ ¬MovedToTie (n * rate) := by
  have hpos : 0 < (n * rate : ℤ) := mul_pos hn hrate
  have hdigits : (n * rate : ℤ).natAbs < 10 ^ 30 := by
    rw [val_mul_rate hamount, div_lt_iff₀ (by norm_num)] at hfits
    norm_num at hfits
    zify
    rw [abs_of_pos hpos]
    exact_mod_cast hfits
  obtain ⟨c, hcost, rfl⟩ := costOf_isOk rate hamount hpos.le hdigits
  constructor
  · intro h
    obtain ⟨c', hc', hround⟩ := h.cost
    rw [hcost] at hc'
    cases hc'
    exact (cost_rounded_iff hamount hdigits).mp hround
  · intro hnot
    have hround := (cost_rounded_iff hamount hdigits).mpr hnot
    refine ⟨convert_rounded hamount hcolumn hrate hrateColumn, ⟨_, hcost, hround⟩, ?_⟩
    intro env fundId key currency onDate db db' t fund hfund hforeign hpublished hrun
    obtain ⟨holding, cash, hadded, hdebit, hcredit, hbase, hpaid⟩ :=
      recordInvestment_entries hrun hfund hforeign hpublished hcost
    refine ⟨holding, cash, hadded, hdebit, hcredit, ?_, ?_⟩
    · exact Option.some.inj (hbase.symm.trans hpaid)
    · rw [val_stored_pennies hround hbase]
      refine hround.error.trans ?_
      norm_num

end

/-- 100 dollars at 1.2345. -/
theorem conversions_rounded_hundred :
    CorrectlyRounded ⟨100, 0⟩ (12345000000 : ℤ) ↔ ¬MovedToTie (1000000 * 12345000000) :=
  conversions_rounded_iff (by rw [Dec.val_eq]; norm_num) (by norm_num) (by norm_num)
    (by norm_num [Rate]) (by norm_num [Rate]) (by rw [val_rate, Dec.val_eq]; norm_num)

/-- **A cost on the wrong side of the middle**: 100000049000000.0001 at a rate of
1.0000000001 is worth a little more than 100000049010000.005, which 28 digits do
not show. -/
theorem cost_rounded_down :
    costOf (.finite ⟨1000000490000000001, -4⟩) (Rate.toDec 10000000001) =
      .ok (.finite ⟨10000004901000000, -2⟩) ∧
    ¬CorrectlyRounded ⟨1000000490000000001, -4⟩ (10000000001 : ℤ) := by
  have hcost : costOf (.finite ⟨1000000490000000001, -4⟩) (Rate.toDec 10000000001) =
      .ok (.finite ⟨10000004901000000, -2⟩) := by decide +kernel
  refine ⟨hcost, fun h => ?_⟩
  obtain ⟨c, hc, hround⟩ := h.cost
  rw [hcost] at hc
  obtain rfl : (⟨10000004901000000, -2⟩ : Dec) = c := Amount.finite.inj (Except.ok.inj hc)
  have herror := hround.error
  rw [val_rate, Dec.val_eq, Dec.val_eq] at herror
  norm_num [abs_le] at herror

end FundLedger
