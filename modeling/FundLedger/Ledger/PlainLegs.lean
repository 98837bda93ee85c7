import FundLedger.Ledger.Posting

/-!
# Legs in the base currency

Most postings have neither a foreign account nor an override.  Their legs are
priced at their own amounts and nothing is absorbed, so each entry is its leg:
`LegRow`.  What such a posting moves an account by can then be read off the
legs, which is `legMove`.
-/

namespace FundLedger

open Lib

/-- No base amount was supplied, and the account is in the base currency. -/
structure PlainLeg (db : Db) (base : String) (leg : Leg) : Prop where
  no_override : leg.baseAmount = none
  currency : ∀ a ∈ db.accounts, a.id = leg.accountId → a.currency = base

/-- `e` is the row of `leg`. -/
structure LegRow (leg : Leg) (e : Entry) : Prop where
  account_eq : e.account = leg.accountId
  direction_eq : leg.direction = e.direction.value
  amount_eq : ∃ d, leg.amount = .finite d ∧ d.val = e.amount / (10 : ℚ) ^ 4
  baseAmount_eq : e.baseAmount = e.amount

theorem priceLegs_plain {db : Db} {legs : List Leg} {vs : List ValidLeg} {accounts : List Account}
    {base : String} {fxDate : Date} (hplain : ∀ leg ∈ legs, PlainLeg db base leg)
    (haccounts : ∀ a ∈ accounts, a ∈ db.accounts) (hvalid : legs.mapM validateLeg = .ok vs) :
    priceLegs db vs accounts base fxDate = vs.mapM (priceLeg db accounts base fxDate) ∧
    ∀ v ∈ vs, ∀ p, priceLeg db accounts base fxDate v = .ok p →
      p.fxRate = none ∧ p.baseAmount = v.amount ∧ p.adjustable = false := by
  have hone : ∀ v ∈ vs, ∀ p, priceLeg db accounts base fxDate v = .ok p →
      p.fxRate = none ∧ p.baseAmount = v.amount ∧ p.adjustable = false := by
    intro v hv p hp
    obtain ⟨leg, hleg, hok⟩ := forall₂_exists_left (mapM_except_ok.mp hvalid) hv
    obtain ⟨hacc, -, -, -, hover⟩ := validateLeg_ok hok
    obtain ⟨hpa, hpid, -, -, hpc⟩ := priceLeg_ok hp
    have hcur := (hplain leg hleg).currency _ (haccounts _ hpa) (hpid.trans hacc)
    exact priceLeg_of_base hp (hover.trans (hplain leg hleg).no_override) (hpc.trans hcur)
  exact ⟨priceLegs_of_fixed fun v hv p hp => (hone v hv p hp).2.2, hone⟩

/-- **The entries of a posting with plain legs are its legs.** -/
theorem Posted.legRows {env : Env} {a : Posting} {db db' : Db} {es : List Entry}
    (h : Posted env a db db' es) {base : String} (hbase : baseCurrencyOf db a.period = .ok base)
    (hplain : ∀ leg ∈ a.legs, PlainLeg db base leg) : List.Forall₂ LegRow a.legs es := by
  obtain ⟨vs, accounts, priced, hvalid, hprep, hrows⟩ := h.prepared
  obtain ⟨base', hbase', hprice⟩ := hprep.pricedBy
  obtain rfl : base = base' := Except.ok.inj (hbase.symm.trans hbase')
  have hvs := (validateLegs_ok hvalid).2.2.2
  obtain ⟨hmap, hone⟩ := @priceLegs_plain db a.legs vs accounts base (a.fxDate.getD env.today)
    hplain (lockAccounts_ok hprep.locked).2 hvs
  rw [hmap] at hprice
  have hpriced : List.Forall₂ (fun v e => ∃ p, priceLeg db accounts base (a.fxDate.getD env.today) v =
      .ok p ∧ p.fxRate = none ∧ p.baseAmount = v.amount ∧ RowOf env (transferFor env a).id p e)
      vs es :=
    forall₂_comp (mapM_except_ok.mp hprice) hrows fun v hv p e hp hrow => by
      obtain ⟨hrate, hamount, -⟩ := hone v hv p hp
      exact ⟨p, hp, hrate, hamount, hrow⟩
  refine forall₂_comp (mapM_except_ok.mp hvs) hpriced fun leg _ v e hv hpe => ?_
  obtain ⟨p, hp, -, hbaseAmount, hrow⟩ := hpe
  obtain ⟨hacc, hdir, hamount, -, -⟩ := validateLeg_ok hv
  obtain ⟨-, hpid, hpd, hpamount, -⟩ := priceLeg_ok hp
  obtain ⟨n, hn⟩ := v.amount_places
  have hstored : ∀ d m, d = v.amount → Money.ofDec? d = some m → m = n := fun d m hd hm =>
    Dec.toNumeric_of_val (hd ▸ hn) hm
  have hunits : e.amount = n := hstored _ _ hpamount hrow.amount_eq
  refine ⟨hrow.account_eq.trans (hpid.trans hacc), ?_, ⟨v.amount, hamount, ?_⟩, ?_⟩
  · rw [hdir, hrow.direction_eq, hpd]
  · rw [hn, hunits]
  · rw [hunits, hstored _ _ hbaseAmount hrow.baseAmount_eq]

/-- What a leg moves an account by, as a debit. -/
def legMove (account : Uuid) (leg : Leg) : ℚ :=
  match leg.amount with
  | .finite d =>
    if leg.accountId = account then
      if leg.direction = Direction.DEBIT.value then d.val else -d.val
    else 0
  | _ => 0

theorem LegRow.legMove {leg : Leg} {e : Entry} (h : LegRow leg e) (account : Uuid) :
    legMove account leg = (if e.account = account then e.signedAmount else 0 : ℤ) / (10 : ℚ) ^ 4 := by
  obtain ⟨d, hd, hval⟩ := h.amount_eq
  unfold FundLedger.legMove
  rw [hd, h.direction_eq, h.account_eq, Entry.signedAmount]
  dsimp only
  by_cases hacc : leg.accountId = account
  · rw [if_pos hacc, if_pos hacc, hval]
    cases e.direction
    · rfl
    · simp [Direction.value, signed, neg_div]
  · rw [if_neg hacc, if_neg hacc]
    simp

theorem LegRow.signedBaseAmount {leg : Leg} {e : Entry} (h : LegRow leg e) :
    e.signedBaseAmount = e.signedAmount := by
  rw [Entry.signedBaseAmount, Entry.signedAmount, h.baseAmount_eq]

/-- The legs on an account sum to its entries. -/
theorem sumBy_legMove {legs : List Leg} {es : List Entry} (h : List.Forall₂ LegRow legs es)
    (account : Uuid) : sumBy (legMove account) legs =
      ((sumBy Entry.signedAmount (group Entry.account account es) : ℤ) : ℚ) / (10 : ℚ) ^ 4 := by
  induction h with
  | nil => simp [group]
  | @cons leg e legs es hrow _ ih =>
    rw [sumBy_cons, ih, hrow.legMove, group, group, List.filter_cons, ← add_div]
    by_cases hacc : e.account = account
    · simp [hacc]
    · simp [hacc]

end FundLedger
