import FundLedger.Ledger.Acceptance
import FundLedger.Ledger.Funds
import FundLedger.Ledger.PlainLegs

/-!
# The obvious bank

What the engine is for, without tables: a bank keeps the exact balance of each
account, a request is a list of legs, and an accepted request adds the net
movement of each account.  `Accepts` says when a request is accepted.

On accounts in the base currency the engine is that bank.  It keeps no
balances; it sums entries again each time, and it only looks at the guarded
accounts that a request lowers.  `postTransfer_isOk_iff` is one request, and
`engine_refines_bank` is any sequence of them.
-/

namespace FundLedger

open Lib

/-! ## The bank -/

/-- The exact balance of each account. -/
abbrev Balances := Uuid → ℚ

/-- The amount of a leg, as a number. -/
def Leg.value (leg : Leg) : ℚ :=
  match leg.amount with
  | .finite d => d.val
  | _ => 0

/-- The amounts on one side. -/
def sideValue (direction : Direction) (legs : List Leg) : ℚ :=
  sumBy (fun leg => if leg.direction = direction.value then leg.value else 0) legs

/-- A positive decimal with at most four places, on one of the two sides. -/
structure ProperLeg (leg : Leg) : Prop where
  side : ∃ d : Direction, leg.direction = d.value
  amount : ∃ d n, leg.amount = .finite d ∧ 0 < d.val ∧ d.val = (n : ℤ) / (10 : ℚ) ^ 4

/-- The request is accepted, where `cash` are the accounts that may not go
below zero. -/
structure Accepts (cash : Uuid → Prop) (m : Balances) (legs : List Leg) : Prop where
  two_legs : 2 ≤ legs.length
  both_sides : ∀ d : Direction, d.value ∈ legs.map Leg.direction
  proper : ∀ leg ∈ legs, ProperLeg leg
  balanced : sideValue .DEBIT legs = sideValue .CREDIT legs
  covered : ∀ account, cash account → 0 ≤ m account + sumBy (legMove account) legs

open Classical in
/-- One request. -/
noncomputable def bankStep (cash : Uuid → Prop) (m : Balances) (legs : List Leg) : Balances :=
  if Accepts cash m legs then fun account => m account + sumBy (legMove account) legs else m

/-- Any sequence of requests, from the empty bank. -/
noncomputable def bankAfter (cash : Uuid → Prop) (requests : List (List Leg)) : Balances :=
  requests.foldl (bankStep cash) fun _ => 0

/-- What a request that is not accepted leaves covered, and one that is. -/
theorem bankStep_covered {cash : Uuid → Prop} {m : Balances} {legs : List Leg}
    (h : ∀ account, cash account → 0 ≤ m account) :
    ∀ account, cash account → 0 ≤ bankStep cash m legs account := by
  intro account hcash
  unfold bankStep
  split
  · rename_i haccepts
    exact haccepts.covered account hcash
  · exact h account hcash

/-! ## Validation -/

/-- The legs that validation lets through are the proper ones. -/
theorem ProperLeg.of_validateLeg {leg : Leg} {v : ValidLeg} (h : validateLeg leg = .ok v) :
    ProperLeg leg := by
  obtain ⟨-, hdir, hamount, -, -⟩ := validateLeg_ok h
  obtain ⟨n, hn⟩ := v.amount_places
  exact ⟨⟨v.direction, hdir⟩, v.amount, n, hamount, v.amount_pos, hn⟩

/-- The amount fits a `NUMERIC(20, 4)` column. -/
def Leg.InRange (leg : Leg) : Prop := ∀ d, leg.amount = .finite d → |d.val| < 10 ^ 16

theorem natAbs_units_lt {x : ℚ} {n : ℤ} (hx : |x| < 10 ^ 16) (hn : x = n / (10 : ℚ) ^ 4) :
    n.natAbs < 10 ^ 20 := by
  rw [hn, abs_div, abs_of_pos (by norm_num : (0 : ℚ) < 10 ^ 4), div_lt_iff₀ (by norm_num)] at hx
  have hcast : ((n.natAbs : ℕ) : ℚ) < 10 ^ 20 := by
    rw [Nat.cast_natAbs, Int.cast_abs]
    exact hx.trans_eq (by norm_num)
  exact_mod_cast hcast

theorem ProperLeg.validateLeg {leg : Leg} (h : ProperLeg leg) (hrange : leg.InRange) :
    ∃ v, FundLedger.validateLeg leg = .ok v := by
  obtain ⟨direction, hdir⟩ := h.side
  obtain ⟨d, n, hamount, hpos, hn⟩ := h.amount
  have hunits := natAbs_units_lt (hrange d hamount) hn
  obtain ⟨q, hq, hval⟩ := @Dec.quantize_of_val 28 4 d n hn (hunits.trans (by norm_num))
  unfold FundLedger.validateLeg
  rw [hamount, hdir, Direction.ofString?_value]
  dsimp only
  rw [dif_pos hpos]
  split
  · rename_i hnone
    cases hnone.symm.trans hq
  · rename_i q' hsome
    obtain rfl : q = q' := Option.some.inj (hq.symm.trans hsome)
    rw [dif_pos ((Dec.eqv_iff d q).mpr hval.symm)]
    exact ⟨_, rfl⟩

/-! ## Pricing -/

/-- `p` is `leg`, priced at its own amount. -/
structure PlainPriced (db : Db) (leg : Leg) (p : PricedLeg) : Prop where
  account_mem : p.account ∈ db.accounts
  account_eq : p.account.id = leg.accountId
  direction_eq : leg.direction = p.direction.value
  amount_eq : leg.amount = .finite p.amount
  baseAmount_eq : p.baseAmount = p.amount
  fxRate_eq : p.fxRate = none
  currency_eq : p.currency = p.account.currency

theorem priceLeg_isOk {db : Db} {accounts : List Account} {base : String} {fxDate : Date}
    {v : ValidLeg} {a : Account} (ha : a ∈ accounts) (hid : a.id = v.accountId)
    (hcurrency : ∀ b ∈ accounts, b.id = v.accountId → b.currency = base)
    (hnone : v.baseAmount = none) : ∃ p, priceLeg db accounts base fxDate v = .ok p := by
  obtain ⟨account, hfind⟩ : ∃ account,
      accounts.find? (fun b => decide (b.id = v.accountId)) = some account := by
    cases hfind : accounts.find? fun b => decide (b.id = v.accountId) with
    | some account => exact ⟨account, rfl⟩
    | none => exact absurd (decide_eq_true hid) (List.find?_eq_none.mp hfind a ha)
  have hfound : account.id = v.accountId := by simpa using List.find?_some hfind
  have hcur : account.currency = base :=
    hcurrency account (List.mem_of_find?_eq_some hfind) hfound
  have hrate : legRate db base fxDate account.currency v = .ok none := if_pos hcur
  have hbase : legBase v none = .ok (v.amount, false) := by
    unfold legBase
    rw [hnone]
    rfl
  exact ⟨_, except_bind_ok.mpr ⟨account, orRaise_eq_ok.mpr hfind, except_bind_ok.mpr ⟨none, hrate,
    except_bind_ok.mpr ⟨_, hbase, rfl⟩⟩⟩⟩

/-- **Legs in the base currency can be priced**, each at its own amount. -/
theorem priceLegs_plain_isOk {db : Db} {legs : List Leg} {vs : List ValidLeg}
    {accounts : List Account} {base : String} {fxDate : Date}
    (hplain : ∀ leg ∈ legs, PlainLeg db base leg) (haccounts : ∀ a ∈ accounts, a ∈ db.accounts)
    (hlocked : ∀ v ∈ vs, ∃ a ∈ accounts, a.id = v.accountId)
    (hvalid : legs.mapM validateLeg = .ok vs) : ∃ priced,
    priceLegs db vs accounts base fxDate = .ok priced ∧
      List.Forall₂ (PlainPriced db) legs priced := by
  obtain ⟨hmap, -⟩ := @priceLegs_plain db legs vs accounts base fxDate hplain haccounts hvalid
  have hvs := mapM_except_ok.mp hvalid
  obtain ⟨priced, hpriced⟩ := mapM_isOk fun v hv => by
    obtain ⟨leg, hleg, hok⟩ := forall₂_exists_left hvs hv
    obtain ⟨hacc, -, -, -, hover⟩ := validateLeg_ok hok
    obtain ⟨a, ha, hid⟩ := hlocked v hv
    exact @priceLeg_isOk db accounts base fxDate v a ha hid
      (fun b hb hbid => (hplain leg hleg).currency b (haccounts b hb) (hbid.trans hacc))
      (hover.trans (hplain leg hleg).no_override)
  refine ⟨priced, hmap.trans hpriced, forall₂_comp hvs (mapM_except_ok.mp hpriced) ?_⟩
  intro leg hleg v p hv hp
  obtain ⟨hacc, hdir, hamount, -, hover⟩ := validateLeg_ok hv
  obtain ⟨hpa, hpid, hpd, hpamount, hpc⟩ := priceLeg_ok hp
  have hcur := (hplain leg hleg).currency _ (haccounts _ hpa) (hpid.trans hacc)
  obtain ⟨hrate, hbase, -⟩ :=
    priceLeg_of_base hp (hover.trans (hplain leg hleg).no_override) (hpc.trans hcur)
  exact ⟨haccounts _ hpa, hpid.trans hacc, hpd ▸ hdir, hpamount ▸ hamount,
    hbase.trans hpamount.symm, hrate, hpc⟩

/-! ## The checks -/

theorem PlainPriced.value {db : Db} {leg : Leg} {p : PricedLeg} (h : PlainPriced db leg p) :
    leg.value = p.baseAmount.val := by
  rw [Leg.value, h.amount_eq, h.baseAmount_eq]

theorem val_sideTotal_plain {db : Db} {legs : List Leg} {priced : List PricedLeg}
    (h : List.Forall₂ (PlainPriced db) legs priced) (direction : Direction) :
    (sideTotal direction priced).val = sideValue direction legs := by
  induction h with
  | nil => simp [sideTotal, sideValue, Dec.sum]
  | @cons leg p legs priced hp _ ih =>
    rw [val_sideTotal_cons, ih, sideValue, sideValue, sumBy_cons, hp.value, hp.direction_eq]
    by_cases hd : p.direction = direction
    · rw [if_pos hd, if_pos (congrArg Direction.value hd)]
    · rw [if_neg hd, if_neg fun heq => hd (Direction.value_injective heq)]

/-- The accounts that may not go below zero. -/
def cashOf (db : Db) (account : Uuid) : Prop :=
  ∃ a ∈ db.accounts, a.id = account ∧ a.accountType = .CASH

theorem guardedDelta_plain {db : Db} {legs : List Leg} {priced : List PricedLeg}
    (h : List.Forall₂ (PlainPriced db) legs priced) {account : Uuid} (hcash : cashOf db account) :
    guardedDelta priced account = sumBy (legMove account) legs := by
  obtain ⟨a, ha, rfl, htype⟩ := hcash
  have hguarded : a.IsGuarded := Account.isGuarded_iff.mpr htype
  induction h with
  | nil => rfl
  | @cons leg p legs priced hp _ ih =>
    have ih : sumBy _ priced = _ := ih
    rw [guardedDelta, sumBy_cons, sumBy_cons, ih, legMove, hp.amount_eq, ← hp.account_eq,
      hp.direction_eq]
    dsimp only
    by_cases hid : p.account.id = a.id
    · have hsame : p.account = a := Table.eq_of_key_eq hp.account_mem ha hid
      rw [if_pos ⟨hsame ▸ hguarded, hid⟩, if_pos hid, PricedLeg.signedAmount]
      cases p.direction with
      | DEBIT => simp
      | CREDIT => simp [Direction.value]
    · rw [if_neg fun hboth => hid hboth.2, if_neg hid]

/-- **The overdraft check is the bank's.** -/
theorem checkSufficientFunds_plain {db : Db} {legs : List Leg} {priced : List PricedLeg}
    (h : List.Forall₂ (PlainPriced db) legs priced) {m : Balances}
    (hbalance : ∀ account, (nativeBalance db account).toDec.val = m account)
    (hcovered : ∀ account, cashOf db account → 0 ≤ m account) :
    checkSufficientFunds (fun account => nativeBalance db account) priced = .ok () ↔
      ∀ account, cashOf db account → 0 ≤ m account + sumBy (legMove account) legs := by
  rw [checkSufficientFunds_ok]
  constructor
  · intro hok account hcash
    rw [← guardedDelta_plain h hcash]
    by_cases htouched : ∃ p ∈ priced, p.account.IsGuarded ∧ p.account.id = account
    · obtain ⟨p, hp, hguarded, rfl⟩ := htouched
      rcases hok p hp hguarded with hdelta | hsum
      · exact add_nonneg (hcovered _ hcash) hdelta
      · rwa [hbalance] at hsum
    · have hzero : guardedDelta priced account = 0 := sumBy_eq_zero fun p hp =>
        if_neg fun hboth => htouched ⟨p, hp, hboth⟩
      rw [hzero, add_zero]
      exact hcovered account hcash
  · intro hall p hp hguarded
    obtain ⟨leg, -, hplain⟩ := forall₂_exists_left h hp
    have hcash : cashOf db p.account.id :=
      ⟨p.account, hplain.account_mem, rfl, Account.isGuarded_iff.mp hguarded⟩
    right
    rw [hbalance, guardedDelta_plain h hcash]
    exact hall _ hcash

/-- The values of such a leg fit their columns. -/
theorem PlainPriced.storable {db : Db} {leg : Leg} {p : PricedLeg} (h : PlainPriced db leg p)
    (hproper : ProperLeg leg) (hrange : leg.InRange) (hiso : isIso4217 p.account.currency) :
    Storable p := by
  obtain ⟨d, n, hamount, hpos, hn⟩ := hproper.amount
  obtain rfl : p.amount = d := Amount.finite.inj (h.amount_eq.symm.trans hamount)
  have hunits := natAbs_units_lt (hrange _ hamount) hn
  have hstored : Money.ofDec? p.amount = some n := Dec.toNumeric_isSome hn hunits
  have hnpos : 0 < n := by
    rw [hn] at hpos
    exact_mod_cast (div_pos_iff_of_pos_right (by norm_num : (0 : ℚ) < 10 ^ 4)).mp hpos
  refine ⟨n, n, none, hstored, h.baseAmount_eq ▸ hstored, h.baseAmount_eq ▸ hn, ?_, hnpos, hnpos,
    ?_, h.currency_eq ▸ hiso⟩
  · rw [h.fxRate_eq]
    rfl
  · intro r hr
    cases hr

/-! ## Requests -/

/-- One call of `post_transfer`. -/
structure Request where
  env : Env
  posting : Posting

/-- The database after the call, whether it returned or raised. -/
def Request.run (r : Request) (db : Db) : Db := (postTransfer r.env r.posting db).2

/-- The call returned. -/
def Request.Accepted (r : Request) (db : Db) : Prop :=
  ∃ t, (postTransfer r.env r.posting db).1 = .ok t

def afterRequests (db : Db) (requests : List Request) : Db :=
  requests.foldl (fun db r => r.run db) db

/-- A call on an open period of the fund, over accounts of the fund in its base
currency, without overrides, with amounts and texts that the columns hold.  A
transfer of type `REVERSAL` names one that can be reversed. -/
structure Admissible (fund : Fund) (db : Db) (r : Request) : Prop where
  period_mem : r.posting.period ∈ db.periods
  period_open : r.posting.period.status = .OPEN
  period_fund : r.posting.period.fund = fund.id
  accounts : ∀ leg ∈ r.posting.legs, ∃ a ∈ db.accounts, a.id = leg.accountId ∧ a.fund = fund.id ∧
    a.currency = fund.baseCurrency
  no_overrides : ∀ leg ∈ r.posting.legs, leg.fxRate = none ∧ leg.baseAmount = none
  in_range : ∀ leg ∈ r.posting.legs, leg.InRange
  key_present : r.posting.idempotencyKey ≠ ""
  key_length : r.posting.idempotencyKey.length ≤ 255
  createdBy_length : r.posting.createdBy.length ≤ 255
  target : r.posting.transferType ≠ .REVERSAL ∧ r.posting.reverses = none ∨
    r.posting.transferType = .REVERSAL ∧ ∃ o ∈ db.transfers, r.posting.reverses = some o.id ∧
      ∀ u ∈ db.transfers, u.reverses ≠ some o.id
  fresh_ids : FreshIds r.env db

/-- Each call of a sequence is admissible when it is its turn. -/
def AllAdmissible (fund : Fund) : Db → List Request → Prop
  | _, [] => True
  | db, r :: requests => Admissible fund db r ∧ AllAdmissible fund (r.run db) requests

/-- The engine holds the balances of the bank. -/
structure Follows (fund : Fund) (db : Db) (m : Balances) : Prop where
  fund_mem : fund ∈ db.funds
  currencies : ∀ a ∈ db.accounts, isIso4217 a.currency
  balance : ∀ account, (nativeBalance db account).toDec.val = m account
  covered : ∀ account, cashOf db account → 0 ≤ m account

namespace Follows

variable {fund : Fund} {db : Db} {m : Balances} {r : Request}

theorem plainLeg (hadm : Admissible fund db r) {leg : Leg} (hleg : leg ∈ r.posting.legs) :
    PlainLeg db fund.baseCurrency leg := by
  refine ⟨(hadm.no_overrides leg hleg).2, fun b hb hid => ?_⟩
  obtain ⟨a, ha, hal, -, hcur⟩ := hadm.accounts leg hleg
  rwa [Table.eq_of_key_eq hb ha (hid.trans hal.symm)]

theorem baseCurrency (h : Follows fund db m) (hadm : Admissible fund db r) :
    baseCurrencyOf db r.posting.period = .ok fund.baseCurrency := by
  rw [baseCurrencyOf, hadm.period_fund, Table.get?_of_mem h.fund_mem]
  rfl

/-- **What the engine checks** once the legs have been validated. -/
theorem preparePosting (h : Follows fund db m) (hadm : Admissible fund db r) {vs : List ValidLeg}
    (hvalid : r.posting.legs.mapM validateLeg = .ok vs) : ∃ priced,
    List.Forall₂ (PlainPriced db) r.posting.legs priced ∧
    ∀ priced', FundLedger.preparePosting r.env db r.posting vs = .ok priced' ↔
      priced' = priced ∧ sideValue .DEBIT r.posting.legs = sideValue .CREDIT r.posting.legs ∧
        ∀ account, cashOf db account → 0 ≤ m account + sumBy (legMove account) r.posting.legs := by
  have hvs := mapM_except_ok.mp hvalid
  have hexists : ∀ v ∈ vs, ∃ a ∈ db.accounts, a.id = v.accountId ∧ a.fund = fund.id := by
    intro v hv
    obtain ⟨leg, hleg, hok⟩ := forall₂_exists_left hvs hv
    obtain ⟨a, ha, hid, hf, -⟩ := hadm.accounts leg hleg
    exact ⟨a, ha, hid.trans (validateLeg_ok hok).1.symm, hf⟩
  obtain ⟨accounts, hlock, hmem⟩ := lockAccounts_isOk fun v hv => by
    obtain ⟨a, ha, hid, -⟩ := hexists v hv
    exact ⟨a, ha, hid⟩
  have hcontext : validateContext r.posting.period accounts = .ok () := by
    refine validateContext_ok.mpr ⟨hadm.period_open, fun a ha => ?_⟩
    obtain ⟨ha, v, hv, hva⟩ := (hmem a).mp ha
    obtain ⟨b, hb, hid, hf⟩ := hexists v hv
    rw [Table.eq_of_key_eq ha hb (hva.symm.trans hid.symm), hf, hadm.period_fund]
  obtain ⟨priced, hprice, hplain⟩ := @priceLegs_plain_isOk db r.posting.legs vs accounts
    fund.baseCurrency (r.posting.fxDate.getD r.env.today) (fun _ => plainLeg hadm)
    (fun a ha => ((hmem a).mp ha).1) (fun v hv => by
      obtain ⟨a, ha, hid, -⟩ := hexists v hv
      exact ⟨a, (hmem a).mpr ⟨ha, v, hv, hid.symm⟩, hid⟩) hvalid
  refine ⟨priced, hplain, fun priced' => ?_⟩
  rw [← checkSufficientFunds_plain hplain h.balance h.covered, ← val_sideTotal_plain hplain,
    ← val_sideTotal_plain hplain, ← checkBalanced_ok (u := ())]
  simp only [FundLedger.preparePosting, except_bind_ok, except_pure]
  constructor
  · rintro ⟨accounts', hlock', _, -, base, hbase, priced₁, hp, ⟨⟩, hbal, ⟨⟩, hfunds, rfl⟩
    obtain rfl : accounts = accounts' := Except.ok.inj (hlock.symm.trans hlock')
    obtain rfl : fund.baseCurrency = base :=
      Except.ok.inj ((h.baseCurrency hadm).symm.trans hbase)
    obtain rfl : priced = priced₁ := Except.ok.inj (hprice.symm.trans hp)
    exact ⟨rfl, hbal, hfunds⟩
  · rintro ⟨rfl, hbal, hfunds⟩
    exact ⟨accounts, hlock, (), hcontext, _, h.baseCurrency hadm, priced', hprice, (), hbal, (),
      hfunds, rfl⟩

/-- **One request**: the engine accepts what the bank accepts. -/
theorem accepted_iff (h : Follows fund db m) (hadm : Admissible fund db r)
    (key_fresh : ∀ u ∈ db.transfers, u.idempotencyKey ≠ r.posting.idempotencyKey) :
    r.Accepted db ↔ Accepts (cashOf db) m r.posting.legs := by
  constructor
  · rintro ⟨t, hok⟩
    have hrun : postTransfer r.env r.posting db = (.ok t, (postTransfer r.env r.posting db).2) :=
      Prod.ext hok rfl
    obtain ⟨-, es, posted⟩ := postTransfer_ok hrun
    obtain ⟨vs, -, -, hvalid, -⟩ := posted.prepared
    obtain ⟨hlen, hdebit, hcredit, hmap⟩ := validateLegs_ok hvalid
    obtain ⟨priced, -, hprepare⟩ := h.preparePosting hadm hmap
    obtain ⟨priced', hprep⟩ : ∃ priced', FundLedger.preparePosting r.env db r.posting vs =
        .ok priced' := by
      cases hprep : FundLedger.preparePosting r.env db r.posting vs with
      | ok priced' => exact ⟨priced', rfl⟩
      | error e =>
        rw [postTransfer_error hvalid hprep] at hok
        cases hok
    obtain ⟨-, hbalanced, hcovered⟩ := (hprepare priced').mp hprep
    refine ⟨hlen, fun d => ?_, fun leg hleg => ?_, hbalanced, hcovered⟩
    · cases d with
      | DEBIT => exact hdebit
      | CREDIT => exact hcredit
    · obtain ⟨v, -, hv⟩ := forall₂_exists_right (mapM_except_ok.mp hmap) hleg
      exact ProperLeg.of_validateLeg hv
  · intro haccepts
    obtain ⟨vs, hmap⟩ := mapM_isOk fun leg hleg =>
      (haccepts.proper leg hleg).validateLeg (hadm.in_range leg hleg)
    have hvalid := validateLegs_of_mapM haccepts.two_legs (haccepts.both_sides .DEBIT)
      (haccepts.both_sides .CREDIT) hmap
    obtain ⟨priced, hplain, hprepare⟩ := h.preparePosting hadm hmap
    have hprep := (hprepare priced).mpr ⟨rfl, haccepts.balanced, haccepts.covered⟩
    have hstorable : ∀ p ∈ priced, Storable p := by
      intro p hp
      obtain ⟨leg, hleg, hlp⟩ := forall₂_exists_left hplain hp
      exact hlp.storable (haccepts.proper leg hleg) (hadm.in_range leg hleg)
        (h.currencies _ hlp.account_mem)
    have haccepted : TransferAccepted db r.posting := by
      refine ⟨hadm.key_length, hadm.createdBy_length, hadm.key_present, key_fresh, ?_, ?_, ?_, ?_,
        ⟨_, hadm.period_mem, rfl, hadm.period_open⟩⟩
      · exact hadm.target.imp And.right And.left
      · rintro hkind hnone
        obtain ⟨hne, -⟩ | ⟨-, o, -, hrev, -⟩ := hadm.target
        · exact hne hkind
        · cases hnone.symm.trans hrev
      · rintro u hu ⟨hsome, hsame⟩
        obtain ⟨-, hnone⟩ | ⟨-, o, -, hrev, hfree⟩ := hadm.target
        · rw [hnone] at hsome
          cases hsome
        · exact hfree u hu (hsame.trans hrev)
      · intro o ho
        obtain ⟨-, hnone⟩ | ⟨-, o', ho', hrev, -⟩ := hadm.target
        · cases hnone.symm.trans ho
        · exact ⟨o', ho', Option.some.inj (hrev.symm.trans ho)⟩
    obtain ⟨db', hrun⟩ := postTransfer_isOk_of_prepared hvalid hprep hstorable haccepted
      hadm.fresh_ids
    exact ⟨_, congrArg Prod.fst hrun⟩

theorem nativeBalance_eq (db : Db) (account : Uuid) :
    nativeBalance db account =
      sumBy Entry.signedAmount (group Entry.account account db.entries.rows) := by
  rw [nativeBalance, accountEntries, group]
  simp [asOfCut]

/-- **One step**: what a posting moves an account by is what its legs say. -/
theorem posted (h : Follows fund db m) (hadm : Admissible fund db r) {db' : Db} {es : List Entry}
    (hposted : Posted r.env r.posting db db' es) (account : Uuid) :
    (nativeBalance db' account).toDec.val = m account + sumBy (legMove account) r.posting.legs := by
  have hrows := hposted.legRows (h.baseCurrency hadm) fun _ => plainLeg hadm
  rw [sumBy_legMove hrows, ← h.balance, nativeBalance_eq, nativeBalance_eq, hposted.entries_eq,
    group_append, sumBy_append, Money.val_toDec, Money.val_toDec, ← add_div]
  push_cast
  rfl

theorem run (h : Follows fund db m) (hadm : Admissible fund db r)
    (key_fresh : ∀ u ∈ db.transfers, u.idempotencyKey ≠ r.posting.idempotencyKey) :
    Follows fund (r.run db) (bankStep (cashOf db) m r.posting.legs) ∧
      (r.run db).accounts = db.accounts ∧
      ∀ u ∈ (r.run db).transfers, u ∈ db.transfers ∨
        u.idempotencyKey = r.posting.idempotencyKey := by
  have hiff := h.accepted_iff hadm key_fresh
  rcases hrun : postTransfer r.env r.posting db with ⟨e | t, db'⟩
  · -- a request that is not accepted changes nothing
    have hsame : r.run db = db := by
      rw [Request.run, hrun]
      exact postTransfer_failSafe r.env r.posting db e db' hrun
    have hnot : ¬Accepts (cashOf db) m r.posting.legs := by
      rw [← hiff]
      rintro ⟨t, ht⟩
      rw [hrun] at ht
      cases ht
    rw [hsame, bankStep, if_neg hnot]
    exact ⟨h, rfl, fun u hu => .inl hu⟩
  · obtain ⟨-, es, hposted⟩ := postTransfer_ok hrun
    have haccepts : Accepts (cashOf db) m r.posting.legs :=
      hiff.mp ⟨t, congrArg Prod.fst hrun⟩
    have hdb' : r.run db = db' := congrArg Prod.snd hrun
    obtain ⟨transfers, entries, htrows, -, hkeep⟩ := hposted.appended
    have haccounts : db'.accounts = db.accounts := by rw [hkeep]
    have hfunds : db'.funds = db.funds := by rw [hkeep]
    rw [hdb', bankStep, if_pos haccepts]
    refine ⟨⟨hfunds ▸ h.fund_mem, haccounts ▸ h.currencies, h.posted hadm hposted, ?_⟩, haccounts,
      fun u hu => ?_⟩
    · intro account hcash
      rw [cashOf, haccounts] at hcash
      exact haccepts.covered account hcash
    · rw [← Table.mem_rows, hposted.transfers_eq, List.mem_append, List.mem_singleton] at hu
      exact hu.imp_right fun heq => congrArg Transfer.idempotencyKey heq

end Follows

/-! ## Any sequence of requests -/

/-- Nothing has been posted. -/
structure EmptyLedger (fund : Fund) (db : Db) : Prop where
  fund_mem : fund ∈ db.funds
  currencies : ∀ a ∈ db.accounts, isIso4217 a.currency
  transfers : db.transfers.rows = []
  entries : db.entries.rows = []

theorem EmptyLedger.follows {fund : Fund} {db : Db} (h : EmptyLedger fund db) :
    Follows fund db fun _ => 0 := by
  refine ⟨h.fund_mem, h.currencies, fun account => ?_, fun _ _ => le_rfl⟩
  rw [Follows.nativeBalance_eq, h.entries, Money.val_toDec]
  simp [group]

/-- **A whole run** keeps to the bank. -/
theorem Follows.afterRequests {fund : Fund} : ∀ {requests : List Request} {db : Db} {m : Balances},
    Follows fund db m → AllAdmissible fund db requests →
    (requests.map fun r => r.posting.idempotencyKey).Nodup →
    (∀ u ∈ db.transfers, ∀ r ∈ requests, u.idempotencyKey ≠ r.posting.idempotencyKey) →
    ∀ {done rest : List Request}, requests = done ++ rest →
      Follows fund (afterRequests db done)
        ((done.map fun r => r.posting.legs).foldl (bankStep (cashOf db)) m) ∧
      cashOf (FundLedger.afterRequests db done) = cashOf db ∧
      ∀ r ∈ rest.head?, Admissible fund (FundLedger.afterRequests db done) r ∧
        ∀ u ∈ (FundLedger.afterRequests db done).transfers,
          u.idempotencyKey ≠ r.posting.idempotencyKey := by
  intro requests
  induction requests with
  | nil =>
    intro db m h _ _ _ done rest hsplit
    obtain ⟨rfl, rfl⟩ := List.append_eq_nil_iff.mp hsplit.symm
    exact ⟨h, rfl, fun r hr => by cases hr⟩
  | cons r requests ih =>
    intro db m h hadm hnodup hfresh done rest hsplit
    obtain ⟨hnew, hnodup⟩ := List.nodup_cons.mp hnodup
    have hkey : ∀ u ∈ db.transfers, u.idempotencyKey ≠ r.posting.idempotencyKey := fun u hu =>
      hfresh u hu r List.mem_cons_self
    cases done with
    | nil =>
      refine ⟨h, rfl, fun r' hr' => ?_⟩
      rw [List.nil_append] at hsplit
      rw [← hsplit] at hr'
      cases hr'
      exact ⟨hadm.1, hkey⟩
    | cons r' done =>
      obtain ⟨rfl, htail⟩ := List.cons.inj hsplit
      obtain ⟨hstep, haccounts, htransfers⟩ := h.run hadm.1 hkey
      have hcash : cashOf (r.run db) = cashOf db := by
        unfold cashOf
        rw [haccounts]
      have hrest := ih hstep hadm.2 hnodup (fun u hu s hs => ?_) htail
      · rw [hcash] at hrest
        exact hrest
      · rcases htransfers u hu with hold | hsame
        · exact hfresh u hold s (List.mem_cons_of_mem r hs)
        · exact fun heq => hnew (List.mem_map.mpr ⟨s, hs, heq.symm.trans hsame⟩)

/-- **The engine refines the bank**: over any sequence of requests with
distinct keys, after each of them the balances are the bank's, and the next
request is accepted exactly when the bank accepts it. -/
theorem engine_refines_bank {fund : Fund} {db : Db} (empty : EmptyLedger fund db)
    {requests : List Request} (distinct : (requests.map fun r => r.posting.idempotencyKey).Nodup)
    (admissible : AllAdmissible fund db requests) {done rest : List Request}
    (split : requests = done ++ rest) :
    let bank := bankAfter (cashOf db) (done.map fun r => r.posting.legs)
    (∀ account, (nativeBalance (afterRequests db done) account).toDec.val = bank account) ∧
    ∀ r ∈ rest.head?, r.Accepted (afterRequests db done) ↔
      Accepts (cashOf db) bank r.posting.legs := by
  have hnone : ∀ u ∈ db.transfers, ∀ r ∈ requests,
      u.idempotencyKey ≠ r.posting.idempotencyKey := by
    intro u hu
    rw [← Table.mem_rows, empty.transfers] at hu
    cases hu
  obtain ⟨hfollows, hcash, hnext⟩ :=
    empty.follows.afterRequests admissible distinct hnone split
  refine ⟨hfollows.balance, fun r hr => ?_⟩
  obtain ⟨hadm, hkey⟩ := hnext r hr
  rw [hfollows.accepted_iff hadm hkey, hcash]
  rfl

/-! ## A deposit and an overdraft -/

def smallFund : Fund := { id := 1, name := "Small Fund", baseCurrency := "GBP" }

def smallPeriod : Period :=
  { id := 21, fund := 1, startDate := 1, endDate := 181, status := .OPEN, closedAt := none
    closedBy := "" }

/-- A cash account and a capital account of the manager. -/
def smallLedger : Db :=
  { Db.empty with
    funds := ⟨[smallFund], by decide⟩
    periods := ⟨[smallPeriod], by decide⟩
    accounts := ⟨[
      { id := 101, fund := 1, code := "CASH-GBP", accountType := .CASH, ownerLp := none
        currency := "GBP" },
      { id := 102, fund := 1, code := "GP_CAPITAL", accountType := .GP_CAPITAL, ownerLp := none
        currency := "GBP" }], by decide⟩ }

/-- Move an amount from one account to another, with ids that depend on `n`. -/
def move (n : ℕ) (key : String) (debit credit : Uuid) (amount : Dec) : Request where
  env :=
    { today := 32, now := n
      uuid4 := fun d => match d with
        | .account i => 1000 * n + 100 + i
        | .transfer => 1000 * n + 1
        | .entry i => 1000 * n + 200 + i
        | .document => 1000 * n + 2 }
  posting :=
    { idempotencyKey := key
      legs := [
        { accountId := debit, direction := Direction.DEBIT.value, amount := .finite amount },
        { accountId := credit, direction := Direction.CREDIT.value, amount := .finite amount }]
      period := smallPeriod
      transferType := .ADJUSTMENT }

def depositAndOverdraw : List Request :=
  [move 1 "deposit" 101 102 ⟨100, 0⟩, move 2 "overdraw" 102 101 ⟨1505, -1⟩]

theorem admissible_move {db : Db} {n : ℕ} {key : String} {debit credit : Uuid} {amount : Dec}
    (hperiod : smallPeriod ∈ db.periods.rows)
    (haccounts : ∀ i ∈ [debit, credit], ∃ a ∈ db.accounts.rows, a.id = i ∧ a.fund = 1 ∧
      a.currency = "GBP")
    (hamount : |amount.val| < 10 ^ 16) (hkey : key ≠ "" ∧ key.length ≤ 255)
    (htransfers : ∀ t ∈ db.transfers.rows, t.id < 1000 * n + 1)
    (hentries : ∀ e ∈ db.entries.rows, e.id < 1000 * n + 200 ∧ e.transfer < 1000 * n + 1) :
    Admissible smallFund db (move n key debit credit amount) where
  period_mem := hperiod
  period_open := rfl
  period_fund := rfl
  accounts := by
    intro leg hleg
    simp only [move, List.mem_cons, List.not_mem_nil, or_false] at hleg
    rcases hleg with rfl | rfl
    · exact haccounts debit List.mem_cons_self
    · exact haccounts credit (List.mem_cons_of_mem _ List.mem_cons_self)
  no_overrides := by
    intro leg hleg
    simp only [move, List.mem_cons, List.not_mem_nil, or_false] at hleg
    rcases hleg with rfl | rfl <;> exact ⟨rfl, rfl⟩
  in_range := by
    intro leg hleg d hd
    simp only [move, List.mem_cons, List.not_mem_nil, or_false] at hleg
    rcases hleg with rfl | rfl <;> cases hd <;> exact hamount
  key_present := hkey.1
  key_length := hkey.2
  createdBy_length := Nat.zero_le _
  target := .inl ⟨TransferType.noConfusion, rfl⟩
  fresh_ids := {
    transfer := fun t ht => (htransfers t ht).ne
    entry := fun e he i => (lt_of_lt_of_le (hentries e he).1 (Nat.le_add_right _ i)).ne
    entry_injective := fun i j hij => Nat.add_left_cancel hij
    no_entries := fun e he => (hentries e he).2.ne }

/-- The deposit is accepted and the larger withdrawal is not. -/
theorem engine_refines_bank_depositAndOverdraw :
    let bank := bankAfter (cashOf smallLedger) [(move 1 "deposit" 101 102 ⟨100, 0⟩).posting.legs]
    (∀ account, (nativeBalance (afterRequests smallLedger [move 1 "deposit" 101 102 ⟨100, 0⟩])
      account).toDec.val = bank account) ∧
    ∀ r ∈ [move 2 "overdraw" 102 101 ⟨1505, -1⟩].head?,
      r.Accepted (afterRequests smallLedger [move 1 "deposit" 101 102 ⟨100, 0⟩]) ↔
        Accepts (cashOf smallLedger) bank r.posting.legs := by
  have hcurrencies : ∀ a ∈ smallLedger.accounts.rows, isIso4217 a.currency := by decide
  have hempty : EmptyLedger smallFund smallLedger :=
    ⟨List.mem_singleton_self _, hcurrencies, rfl, rfl⟩
  have hamount : |(⟨100, 0⟩ : Dec).val| < 10 ^ 16 := by norm_num [Dec.val]
  have hamount' : |(⟨1505, -1⟩ : Dec).val| < 10 ^ 16 := by
    rw [Dec.val_eq]
    norm_num
  have hfirst : Admissible smallFund smallLedger (move 1 "deposit" 101 102 ⟨100, 0⟩) :=
    admissible_move (List.mem_singleton_self _) (by decide) hamount (by decide) (by decide)
      (by decide)
  have hperiods : smallPeriod ∈
      ((move 1 "deposit" 101 102 ⟨100, 0⟩).run smallLedger).periods.rows := by decide +kernel
  have haccounts : ∀ i ∈ [102, 101], ∃ a ∈
      ((move 1 "deposit" 101 102 ⟨100, 0⟩).run smallLedger).accounts.rows, a.id = i ∧ a.fund = 1 ∧
        a.currency = "GBP" := by decide +kernel
  have htransfers : ∀ t ∈ ((move 1 "deposit" 101 102 ⟨100, 0⟩).run smallLedger).transfers.rows,
      t.id < 1000 * 2 + 1 := by decide +kernel
  have hentries : ∀ e ∈ ((move 1 "deposit" 101 102 ⟨100, 0⟩).run smallLedger).entries.rows,
      e.id < 1000 * 2 + 200 ∧ e.transfer < 1000 * 2 + 1 := by decide +kernel
  have hsecond : Admissible smallFund ((move 1 "deposit" 101 102 ⟨100, 0⟩).run smallLedger)
      (move 2 "overdraw" 102 101 ⟨1505, -1⟩) :=
    admissible_move hperiods haccounts hamount' (by decide) htransfers hentries
  have hdistinct : (depositAndOverdraw.map fun r => r.posting.idempotencyKey).Nodup := by decide
  exact engine_refines_bank hempty hdistinct ⟨hfirst, hsecond, trivial⟩ rfl

end FundLedger
