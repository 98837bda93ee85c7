import FundLedger.Ledger.Legs

/-!
# Pricing

`ledger/pricing.py`: the currency, the rate and the base-currency amount of
each leg, and the absorption of an FX rounding residual.

A leg on a base-currency account is worth its own amount.  A leg on a foreign
account is converted, unless the caller supplied the base amount.  When
converted legs leave a residual no larger than one ten-thousandth for each of
them, the largest one absorbs it.
-/

namespace FundLedger

open Lib

/-- `Decimal("0.0001")`. -/
def fourDp : Dec := ⟨1, -4⟩

/-- Latest published rate on or before `on`. -/
def fxRateFor (db : Db) (fromCurrency toCurrency : String) (on : Date) : Except Exc Dec :=
  let published := db.fxRates.rows.filter fun r =>
    r.fromCurrency = fromCurrency ∧ r.toCurrency = toCurrency ∧ r.asOfDate ≤ on
  match published.argmax FxRate.asOfDate with
  | some r => .ok r.rate.toDec
  | none => .error (.ledger .MissingFxRate
      [.lit "no ", .str fromCurrency, .lit "->", .str toCurrency,
        .lit " rate on or before ", .date on])

/-- No intermediate rounding before the result is quantized: the context has
50 digits. -/
def convert (amount rate : Dec) : Option Dec :=
  Dec.quantize 50 4 (Dec.mul 50 amount rate)

/-- An override as a number.  One that is not finite never gets stored: the
sums turn into NaN or infinity and the call ends in `UnbalancedTransfer`, in
`decimal.InvalidOperation` or in the refusal of the column.  One exception
stands for all three. -/
def Amount.finite? : Amount → Except Exc Dec
  | .finite d => .ok d
  | _ => .error .decimal

/-- The rate of a leg: none on a base-currency account, else the caller's
override, else the published one. -/
def legRate (db : Db) (baseCurrency : String) (fxDate : Date) (currency : String)
    (leg : ValidLeg) : Except Exc (Option Dec) :=
  if currency = baseCurrency then .ok none
  else match leg.fxRate with
    | some r => some <$> r.finite?
    | none => some <$> fxRateFor db currency baseCurrency fxDate

/-- The base amount of a leg, and whether it may absorb a residual.  A base
amount that the caller supplied is used verbatim. -/
def legBase (leg : ValidLeg) (rate : Option Dec) : Except Exc (Dec × Bool) := do
  let converted ← match rate with
    | none => .ok (leg.amount, false)
    | some r => (·, true) <$> orRaise (convert leg.amount r) .decimal
  match leg.baseAmount with
  | some b => (·, false) <$> b.finite?
  | none => .ok converted

def priceLeg (db : Db) (accounts : List Account) (baseCurrency : String) (fxDate : Date)
    (leg : ValidLeg) : Except Exc PricedLeg := do
  let account ← orRaise (accounts.find? fun a => decide (a.id = leg.accountId)) .keyError
  let fxRate ← legRate db baseCurrency fxDate account.currency leg
  let base ← legBase leg fxRate
  return {
    account
    direction := leg.direction
    amount := leg.amount
    currency := account.currency
    fxRate
    baseAmount := base.1
    adjustable := base.2 }

/-- The base amounts on one side. -/
def sideTotal (direction : Direction) (priced : List PricedLeg) : Dec :=
  Dec.sum ((priced.filter fun p => p.direction = direction).map PricedLeg.baseAmount)

theorem val_sideTotal_cons (direction : Direction) (p : PricedLeg) (priced : List PricedLeg) :
    (sideTotal direction (p :: priced)).val =
      (if p.direction = direction then p.baseAmount.val else 0) +
        (sideTotal direction priced).val := by
  rw [sideTotal, sideTotal, Dec.val_sum, Dec.val_sum, List.filter_cons]
  by_cases h : p.direction = direction <;> simp [h]

/-- The later of two candidates when the base amounts tie, else the larger. -/
def largerCandidate (best next : PricedLeg × ℕ) : PricedLeg × ℕ :=
  if best.1.baseAmount ≤ next.1.baseAmount then next else best

def absorbRoundingResidual (priced : List PricedLeg) : List PricedLeg :=
  let residual := sideTotal .DEBIT priced - sideTotal .CREDIT priced
  if residual.coeff = 0 then priced
  else match priced.zipIdx.filter fun c => c.1.adjustable with
    | [] => priced
    | first :: rest =>
      -- Not a rounding artefact: let `checkBalanced` reject it.
      if Dec.mul 28 fourDp (.ofInt (rest.length + 1)) < residual.abs then priced
      else
        let chosen := rest.foldl largerCandidate first
        let adjustment := if chosen.1.direction = .DEBIT then -residual else residual
        priced.modify chosen.2 fun p => { p with baseAmount := p.baseAmount + adjustment }

def priceLegs (db : Db) (legs : List ValidLeg) (accounts : List Account)
    (baseCurrency : String) (fxDate : Date) : Except Exc (List PricedLeg) :=
  absorbRoundingResidual <$> legs.mapM (priceLeg db accounts baseCurrency fxDate)

/-! ## What pricing keeps -/

/-- `q` is `p` up to the base amount. -/
def SameLeg (p q : PricedLeg) : Prop := q = { p with baseAmount := q.baseAmount }

private theorem forall₂_modify {α : Type} {R : α → α → Prop} (hrefl : ∀ a, R a a)
    {f : α → α} (hf : ∀ a, R a (f a)) :
    ∀ (l : List α) (i : ℕ), List.Forall₂ R l (l.modify i f)
  | [], i => by simp
  | a :: l, 0 => by
    rw [List.modify_zero_cons]
    exact .cons (hf a) (List.forall₂_same.mpr fun b _ => hrefl b)
  | a :: l, i + 1 => by
    rw [List.modify_succ_cons]
    exact .cons (hrefl a) (forall₂_modify hrefl hf l i)

/-- Absorbing a residual changes base amounts only. -/
theorem absorbRoundingResidual_sameLeg (priced : List PricedLeg) :
    List.Forall₂ SameLeg priced (absorbRoundingResidual priced) := by
  have hrefl : List.Forall₂ SameLeg priced priced :=
    List.forall₂_same.mpr fun _ _ => rfl
  have hmod : ∀ (i : ℕ) (x : Dec), List.Forall₂ SameLeg priced
      (priced.modify i fun p => { p with baseAmount := p.baseAmount + x }) := by
    intro i x
    refine forall₂_modify ?_ ?_ priced i
    · exact fun _ => rfl
    · exact fun _ => rfl
  unfold absorbRoundingResidual
  dsimp only
  split_ifs
  · exact hrefl
  · split
    · exact hrefl
    · split_ifs
      · exact hrefl
      · exact hmod _ _
      · exact hmod _ _

theorem priceLeg_ok {db : Db} {accounts : List Account} {baseCurrency : String}
    {fxDate : Date} {leg : ValidLeg} {p : PricedLeg}
    (h : priceLeg db accounts baseCurrency fxDate leg = .ok p) :
    p.account ∈ accounts ∧ p.account.id = leg.accountId ∧ p.direction = leg.direction ∧
    p.amount = leg.amount ∧ p.currency = p.account.currency := by
  simp only [priceLeg, except_bind_ok, orRaise_eq_ok, except_pure] at h
  obtain ⟨account, hfind, rate, -, base, -, rfl⟩ := h
  exact ⟨List.mem_of_find?_eq_some hfind, by simpa using List.find?_some hfind, rfl, rfl, rfl⟩

/-- Where the rate and the base amount of a leg come from. -/
theorem priceLeg_values {db : Db} {accounts : List Account} {baseCurrency : String}
    {fxDate : Date} {leg : ValidLeg} {p : PricedLeg}
    (h : priceLeg db accounts baseCurrency fxDate leg = .ok p) :
    legRate db baseCurrency fxDate p.currency leg = .ok p.fxRate ∧
    legBase leg p.fxRate = .ok (p.baseAmount, p.adjustable) := by
  simp only [priceLeg, except_bind_ok, orRaise_eq_ok, except_pure] at h
  obtain ⟨account, -, rate, hrate, base, hbase, rfl⟩ := h
  exact ⟨hrate, hbase⟩

/-- A leg has a rate when its account is in a foreign currency. -/
theorem legRate_eq_none {db : Db} {baseCurrency : String} {fxDate : Date} {currency : String}
    {leg : ValidLeg} {rate : Option Dec}
    (h : legRate db baseCurrency fxDate currency leg = .ok rate) :
    rate = none ↔ currency = baseCurrency := by
  have hmap : ∀ x : Except Exc Dec, some <$> x = .ok rate → rate ≠ none := by
    rintro (e | r) hx
    · cases hx
    · cases hx
      exact Option.some_ne_none r
  unfold legRate at h
  split at h
  · rename_i hbase
    cases h
    exact iff_of_true rfl hbase
  · rename_i hforeign
    split at h
    · exact iff_of_false (hmap _ h) hforeign
    · exact iff_of_false (hmap _ h) hforeign

/-- A base amount that the caller supplied is used, and absorbs nothing. -/
theorem legBase_of_override {leg : ValidLeg} {rate : Option Dec} {b : Dec} {base : Dec × Bool}
    (hb : leg.baseAmount = some (.finite b)) (h : legBase leg rate = .ok base) :
    base = (b, false) := by
  unfold legBase at h
  rw [hb] at h
  cases rate with
  | none =>
    cases h
    rfl
  | some r =>
    obtain ⟨converted, -, hret⟩ := except_bind_ok.mp h
    cases hret
    rfl

/-- Without a leg that may absorb it, a residual stays. -/
theorem absorbRoundingResidual_of_fixed {priced : List PricedLeg}
    (h : ∀ p ∈ priced, p.adjustable = false) : absorbRoundingResidual priced = priced := by
  have hnone : (priced.zipIdx.filter fun c => c.1.adjustable) = [] := by
    refine List.filter_eq_nil_iff.mpr fun c hc => ?_
    rw [h c.1 (List.fst_mem_of_mem_zipIdx hc)]
    exact Bool.false_ne_true
  unfold absorbRoundingResidual
  dsimp only
  rw [hnone]
  split <;> rfl

/-- What a money column and a rate column hold can be converted. -/
theorem convert_isSome {m : Money} {r : Rate} (hm : m.natAbs < 10 ^ 20) (hr : r.natAbs < 10 ^ 20) :
    ∃ d, convert m.toDec r.toDec = some d := by
  have hprod : (m * r).natAbs < 10 ^ 50 := by
    calc (m * r).natAbs = m.natAbs * r.natAbs := Int.natAbs_mul m r
      _ ≤ 10 ^ 20 * 10 ^ 20 := Nat.mul_le_mul hm.le hr.le
      _ < 10 ^ 50 := by norm_num
  have hexp : (-(4 : ℕ) : ℤ) + -(10 : ℕ) ≤ -(4 : ℕ) := by norm_num
  rw [convert, Dec.mul, Dec.fix_of_lt (by norm_num) hprod]
  exact Dec.quantize_isSome hexp hprod

/-- What pricing keeps of each leg. -/
def PricedAs (accounts : List Account) (leg : ValidLeg) (p : PricedLeg) : Prop :=
  p.account ∈ accounts ∧ p.account.id = leg.accountId ∧ p.direction = leg.direction ∧
  p.amount = leg.amount ∧ p.currency = p.account.currency

theorem priceLegs_ok {db : Db} {legs : List ValidLeg} {accounts : List Account}
    {baseCurrency : String} {fxDate : Date} {priced : List PricedLeg}
    (h : priceLegs db legs accounts baseCurrency fxDate = .ok priced) :
    List.Forall₂ (PricedAs accounts) legs priced := by
  unfold priceLegs at h
  rcases hm : legs.mapM (priceLeg db accounts baseCurrency fxDate) with e | plain
  · rw [hm] at h; cases h
  · rw [hm] at h
    cases h
    have h1 := mapM_except_ok.mp hm
    have h2 := absorbRoundingResidual_sameLeg plain
    generalize absorbRoundingResidual plain = final at h2
    clear hm
    induction h1 generalizing final with
    | nil => cases h2; exact .nil
    | cons hp _ ih =>
      cases h2 with
      | cons hsame hrest =>
        refine .cons ?_ (ih _ hrest)
        have hpr := priceLeg_ok hp
        rw [SameLeg] at hsame
        rw [hsame]
        exact hpr

/-- The rates of the priced legs. -/
theorem priceLegs_rates {db : Db} {legs : List ValidLeg} {accounts : List Account}
    {baseCurrency : String} {fxDate : Date} {priced : List PricedLeg}
    (h : priceLegs db legs accounts baseCurrency fxDate = .ok priced) :
    ∀ p ∈ priced, p.fxRate = none ↔ p.currency = baseCurrency := by
  unfold priceLegs at h
  rcases hm : legs.mapM (priceLeg db accounts baseCurrency fxDate) with e | plain
  · rw [hm] at h; cases h
  · rw [hm] at h
    cases h
    intro p hp
    obtain ⟨q, hq, hsame⟩ := forall₂_exists_left (absorbRoundingResidual_sameLeg plain) hp
    obtain ⟨leg, -, hleg⟩ := forall₂_exists_left (mapM_except_ok.mp hm) hq
    have hrate := legRate_eq_none (priceLeg_values hleg).1
    rw [SameLeg] at hsame
    rw [hsame]
    exact hrate

/-- When no leg may absorb a residual, each is priced on its own. -/
theorem priceLegs_of_fixed {db : Db} {legs : List ValidLeg} {accounts : List Account}
    {baseCurrency : String} {fxDate : Date}
    (hfixed : ∀ leg ∈ legs, ∀ p, priceLeg db accounts baseCurrency fxDate leg = .ok p →
      p.adjustable = false) :
    priceLegs db legs accounts baseCurrency fxDate =
      legs.mapM (priceLeg db accounts baseCurrency fxDate) := by
  unfold priceLegs
  rcases hm : legs.mapM (priceLeg db accounts baseCurrency fxDate) with e | plain
  · rfl
  · have hplain : ∀ p ∈ plain, p.adjustable = false := by
      intro p hp
      obtain ⟨leg, hleg, hok⟩ := forall₂_exists_left (mapM_except_ok.mp hm) hp
      exact hfixed leg hleg p hok
    show Except.ok (absorbRoundingResidual plain) = _
    rw [absorbRoundingResidual_of_fixed hplain]

/-- When the caller supplied every base amount, nothing is absorbed. -/
theorem priceLegs_of_overrides {db : Db} {legs : List ValidLeg} {accounts : List Account}
    {baseCurrency : String} {fxDate : Date}
    (hover : ∀ leg ∈ legs, ∃ b, leg.baseAmount = some (.finite b)) :
    priceLegs db legs accounts baseCurrency fxDate =
      legs.mapM (priceLeg db accounts baseCurrency fxDate) := by
  refine priceLegs_of_fixed fun leg hleg p hp => ?_
  obtain ⟨b, hb⟩ := hover leg hleg
  exact congrArg Prod.snd (legBase_of_override hb (priceLeg_values hp).2)

/-- A leg on a base-currency account, without a base amount of the caller, is
worth its own amount. -/
theorem priceLeg_of_base {db : Db} {accounts : List Account} {baseCurrency : String}
    {fxDate : Date} {leg : ValidLeg} {p : PricedLeg}
    (h : priceLeg db accounts baseCurrency fxDate leg = .ok p) (hnone : leg.baseAmount = none)
    (hcur : p.currency = baseCurrency) :
    p.fxRate = none ∧ p.baseAmount = leg.amount ∧ p.adjustable = false := by
  obtain ⟨hrate, hbase⟩ := priceLeg_values h
  have hfx : p.fxRate = none := (legRate_eq_none hrate).mpr hcur
  rw [hfx] at hbase
  unfold legBase at hbase
  rw [hnone] at hbase
  obtain ⟨hamount, hadjust⟩ := Prod.mk.inj (Except.ok.inj hbase)
  exact ⟨hfx, hamount.symm, hadjust.symm⟩

end FundLedger
