import FundLedger.Ledger.Residual
import FundLedger.Operations.CapitalCalls
import FundLedger.Operations.Openings
import FundLedger.Operations.Partners
import FundLedger.Operations.Reversals
import FundLedger.Operations.Statements

/-!
# Native and base balances

An entry on an account in the base currency of its fund is worth its own
amount.  The engine does not see to that by itself: `priceLeg` uses a base
amount of the caller verbatim, on any account.  So it takes the services, of
which only `recordInvestment` and `reverseTransfer` supply base amounts:

* a purchase supplies one for the account of a foreign currency only, because
  the code of an `INVESTMENT` account contains its currency;
* a reversal supplies what the entries of its original have.

`AtPar` is the invariant, `Issued` is what the services post, and
`native_agrees_with_base` is the result for whole runs.
-/

namespace FundLedger

open Lib Relation

/-! ## What the services post -/

/-- What a service posts, when the currency of a purchase is an ISO 4217 code. -/
def Issued (db : Db) (a : Posting) : Prop :=
  Business db a ∧ a.transferType ≠ .INVESTMENT ∨
    ∃ currency, isIso4217 currency ∧ Purchase db a currency

theorem issues_issued {type : TransferType} (h : type ≠ .INVESTMENT) : Issues Issued type :=
  fun _ _ hbusiness htype => .inl ⟨hbusiness, htype ▸ h⟩

/-- The currency of a purchase is an ISO 4217 code. -/
def Op.InIso : Op → Prop
  | .recordInvestment _ _ _ currency _ => isIso4217 currency
  | _ => True

theorem Op.run_issued {env : Env} {op : Op} (hop : op.IsBusiness) (hiso : op.InIso) (db : Db) :
    Changes Issued db (op.run env db).2 := by
  have hdrop : ∀ {α : Type} {m : M α}, Changes Issued db (m db).2 →
      Changes Issued db ((m >>= fun _ => pure PUnit.unit : M Unit) db).2 := by
    intro α m h
    rwa [Tx.bind_readOnly_snd fun _ => Tx.readOnly_pure _]
  cases op with
  | postTransfer => exact hop.elim
  | postTransferIdempotent => exact hop.elim
  | reverseTransfer =>
    rw [Op.run, Tx.read_bind]
    exact Tx.lift_bind_rel .refl fun period hp =>
      hdrop (reverseTransfer_changes_of (issues_issued (by decide)) (loadedPeriod_holds hp))
  | createCapitalCall => exact hdrop (createCapitalCall_changes_of (issues_issued (by decide)))
  | createDistribution => exact hdrop (createDistribution_changes_of (issues_issued (by decide)))
  | recordInvestment => exact hdrop (recordInvestment_changes_of fun _ _ h => .inr ⟨_, hiso, h⟩)
  | chargeFee => exact hdrop (chargeFee_changes_of (issues_issued (by decide)))
  | recordValuation => exact hdrop (recordValuation_changes_of (issues_issued (by decide)))
  | closePeriod => exact hdrop closePeriod_changes_of

/-! ## One posting -/

/-- The caller supplied no base amount, or the account is in a foreign
currency. -/
def FairLeg (db : Db) (base : String) (leg : Leg) : Prop :=
  leg.baseAmount = none ∨ ∀ a ∈ db.accounts, a.id = leg.accountId → a.currency ≠ base

/-- **The entries of fair legs on base-currency accounts are worth their own
amounts.**  The residual is absorbed by a foreign leg, if at all. -/
theorem Posted.at_par {env : Env} {p : Posting} {db db' : Db} {es : List Entry}
    (h : Posted env p db db' es) {base : String} (hbase : baseCurrencyOf db p.period = .ok base)
    (hfair : ∀ leg ∈ p.legs, FairLeg db base leg) {e : Entry} (he : e ∈ es) {a : Account}
    (ha : a ∈ db.accounts) (hid : a.id = e.account) (hcur : a.currency = base) :
    e.baseAmount = e.amount := by
  obtain ⟨vs, accounts, priced, hvalid, hprep, hrows⟩ := h.prepared
  obtain ⟨base', hbase', hprice⟩ := hprep.pricedBy
  obtain rfl : base = base' := Except.ok.inj (hbase.symm.trans hbase')
  obtain ⟨q, hq, hrow⟩ := forall₂_exists_left hrows he
  cases hplain : vs.mapM (priceLeg db accounts base (p.fxDate.getD env.today)) with
  | error e =>
    rw [priceLegs, hplain] at hprice
    cases hprice
  | ok plain =>
    rw [priceLegs, hplain] at hprice
    obtain rfl : absorbRoundingResidual plain = priced := Except.ok.inj hprice
    obtain ⟨r, hr, hsame, hfixed⟩ := forall₂_exists_left (absorbRoundingResidual_fixed plain) hq
    obtain ⟨v, hv, hprice₁⟩ := forall₂_exists_left (mapM_except_ok.mp hplain) hr
    obtain ⟨leg, hleg, hok⟩ :=
      forall₂_exists_left (mapM_except_ok.mp (validateLegs_ok hvalid).2.2.2) hv
    obtain ⟨hlegId, -, -, -, hover⟩ := validateLeg_ok hok
    obtain ⟨hmem, hrid, -, hamount, hrcur⟩ := priceLeg_ok hprice₁
    -- `a` is the account of the leg
    have haccount : q.account = r.account := by
      rw [SameLeg] at hsame
      rw [hsame]
    have hra : r.account = a := by
      refine Table.eq_of_key_eq ((lockAccounts_ok hprep.locked).2 _ hmem) ha ?_
      rw [hid, hrow.account_eq, haccount]
    have hnone : v.baseAmount = none := by
      rcases hfair leg hleg with hnone | hforeign
      · exact hover.trans hnone
      · exact absurd hcur (hforeign a ha (hra ▸ hrid.trans hlegId))
    obtain ⟨-, hvalue, hadjustable⟩ :=
      priceLeg_of_base hprice₁ hnone (hrcur.trans (hra.symm ▸ hcur))
    obtain rfl : q = r := hfixed hadjustable
    have hstored := hrow.baseAmount_eq
    rw [hvalue, ← hamount, hrow.amount_eq] at hstored
    exact (Option.some.inj hstored).symm

theorem shareLegs_noOverride {debit credit : Uuid → Except Exc Uuid} {shares : Dict Uuid Dec}
    {legs : List Leg} (h : shareLegs debit credit shares = .ok legs) :
    ∀ leg ∈ legs, leg.baseAmount = none := by
  obtain ⟨pairs, rfl, hpairs⟩ := shareLegs_ok h
  intro leg hleg
  obtain ⟨pair, hpair, hmem⟩ := List.mem_flatten.mp hleg
  obtain ⟨i, hi, d, c, -, -, rfl⟩ := forall₂_exists_left hpairs hpair
  simp only [sharePair, List.mem_cons, List.not_mem_nil, or_false] at hmem
  rcases hmem with rfl | rfl <;> rfl

/-- An account of the portfolio is found under its currency. -/
theorem Charted.investment_currency {db : Db} {fund : Uuid} (h : Charted db fund)
    {currency : String} {a : Account}
    (ha : findAccount db fund ("INVESTMENT-" ++ currency) = some a) : a.currency = currency := by
  obtain ⟨hmem, hf, hcode⟩ := findAccount_eq_some ha
  have hasked : accountCode .INVESTMENT currency = .ok ("INVESTMENT-" ++ currency) := rfl
  have hown := h a hmem hf
  rw [h.type_of_code hasked ha] at hown
  have hsame : "INVESTMENT-" ++ a.currency = "INVESTMENT-" ++ currency :=
    (Except.ok.inj hown).trans hcode
  exact String.append_right_inj _ |>.mp hsame

theorem currencyOrBase_of_iso {fund : Fund} {currency : String} (h : isIso4217 currency) :
    currencyOrBase fund currency = currency := by
  have hne : currency ≠ "" := by
    intro hempty
    rw [hempty] at h
    exact absurd h (by decide)
  exact if_neg hne

/-- The legs of a purchase are fair. -/
theorem Purchase.fair {db : Db} {p : Posting} {currency base : String}
    (h : Purchase db p currency) (hiso : isIso4217 currency) (charted : ∀ fund, Charted db fund)
    (hbase : baseCurrencyOf db p.period = .ok base) : ∀ leg ∈ p.legs, FairLeg db base leg := by
  obtain ⟨fund, investment, cash, amount, onDate, hmem, hopened, hpaid, hlegs, hperiod⟩ := h.bought
  have hfund : fund.baseCurrency = base := by
    rw [baseCurrencyOf, (periodFor_mem hperiod).2.1, Table.get?_of_mem hmem] at hbase
    exact Except.ok.inj hbase
  unfold investmentLegs at hlegs
  intro leg hleg
  split at hlegs
  · rw [← Except.ok.inj hlegs] at hleg
    simp only [List.mem_cons, List.not_mem_nil, or_false] at hleg
    rcases hleg with rfl | rfl <;> exact .inl rfl
  · rename_i hforeign
    simp only [except_bind_ok, except_pure] at hlegs
    obtain ⟨rate, -, cost, -, hlegs⟩ := hlegs
    rw [← hlegs] at hleg
    simp only [List.mem_cons, List.not_mem_nil, or_false] at hleg
    rcases hleg with rfl | rfl
    · right
      intro a ha hid
      rw [InvestmentAccount, currencyOrBase_of_iso hiso] at hopened
      obtain rfl : a = investment := Table.eq_of_key_eq ha (findAccount_eq_some hopened).1 hid
      rw [(charted fund.id).investment_currency hopened, ← hfund]
      exact hforeign
    · exact .inl rfl

/-- Apart from reversals, the services post fair legs. -/
theorem Issued.fair {db : Db} {p : Posting} {base : String} (h : Issued db p)
    (hkind : p.transferType ≠ .REVERSAL) (charted : ∀ fund, Charted db fund)
    (hbase : baseCurrencyOf db p.period = .ok base) : ∀ leg ∈ p.legs, FairLeg db base leg := by
  have hpair : ∀ x y : Leg, p.legs = [x, y] → x.baseAmount = none → y.baseAmount = none →
      ∀ leg ∈ p.legs, FairLeg db base leg := by
    intro x y hlegs hx hy leg hleg
    rw [hlegs] at hleg
    simp only [List.mem_cons, List.not_mem_nil, or_false] at hleg
    rcases hleg with rfl | rfl
    · exact .inl hx
    · exact .inl hy
  obtain ⟨hbusiness, htype⟩ | ⟨currency, hiso, hpurchase⟩ := h
  · cases hbusiness with
    | capitalCall env fundId total noticeDate plan planned legs =>
      obtain ⟨fund, commitments, shares, cash, -, -, -, -, -, hlegs, -⟩ := planCapitalCall_ok planned
      exact fun leg hleg => .inl (shareLegs_noOverride hlegs leg (legs ▸ hleg))
    | distribution env fundId total paymentDate plan planned legs =>
      obtain ⟨fund, commitments, shares, cash, -, -, -, -, hlegs, -⟩ := planDistribution_ok planned
      exact fun leg hleg => .inl (shareLegs_noOverride hlegs leg (legs ▸ hleg))
    | investment _ _ _ _ _ _ _ _ _ _ _ type => exact absurd type htype
    | fee fundId key amount onDate q planned legs =>
      obtain ⟨fund, expense, cash, -, -, -, -, -, -, -, hlegs⟩ := feePosting_ok planned
      exact hpair _ _ (legs.trans hlegs) rfl rfl
    | valuation fundId key change onDate q planned legs =>
      obtain ⟨fund, investment, gainLoss, debit, credit, size, -, -, -, -, -, -, -, -, hlegs⟩ :=
        valuationPosting_ok planned
      exact hpair _ _ (legs.trans hlegs) rfl rfl
    | reversal original mem not_reversal legs type => exact absurd type hkind
  · exact hpurchase.fair hiso charted hbase

theorem Issued.business {db : Db} {p : Posting} (h : Issued db p) : Business db p := by
  obtain ⟨hbusiness, -⟩ | ⟨currency, -, hpurchase⟩ := h
  · exact hbusiness
  · exact hpurchase.business

/-! ## The invariant -/

/-- `a` is held in the base currency of its fund. -/
def HeldInBase (db : Db) (a : Account) : Prop :=
  ∃ f ∈ db.funds, f.id = a.fund ∧ a.currency = f.baseCurrency

/-- Entries on base-currency accounts are worth their own amounts. -/
def AtPar (db : Db) : Prop :=
  ∀ e ∈ db.entries, ∀ a ∈ db.accounts, a.id = e.account → HeldInBase db a →
    e.baseAmount = e.amount

/-- Cash is held in the base currency. -/
def CashInBase (db : Db) : Prop :=
  ∀ a ∈ db.accounts, a.accountType = .CASH → HeldInBase db a

/-- What every change keeps. -/
structure Denominated (db : Db) : Prop where
  sound : SoundEntries db
  charted : ∀ fund, Charted db fund
  at_par : AtPar db

theorem HeldInBase.of_funds {db db' : Db} {a : Account} (hf : db'.funds = db.funds)
    (h : HeldInBase db' a) : HeldInBase db a := by
  rwa [HeldInBase, hf] at h

/-- An account that is new has no entries yet. -/
theorem AtPar.keeps {db db' : Db} (h : AtPar db) (sound : SoundEntries db)
    (hf : db'.funds = db.funds) (ha : ∀ a ∈ db.accounts, a ∈ db'.accounts)
    (he : db'.entries = db.entries) : AtPar db' := by
  intro e hmem a haccount hid hbase
  rw [he] at hmem
  obtain ⟨b, hb, hbid, -⟩ := (sound e hmem).account
  obtain rfl : a = b := Table.eq_of_key_eq haccount (ha b hb) (hid.trans hbid.symm)
  exact h e hmem a hb hid (hbase.of_funds hf)

/-- **One posting keeps the entries at par.** -/
theorem Denominated.posted {env : Env} {p : Posting} {db db' : Db} {es : List Entry}
    (h : Denominated db) (known : Issued db p) (posted : Posted env p db db' es) : AtPar db' := by
  intro e he a ha hid hbase
  obtain ⟨transfers, entries, -, hrows, rfl⟩ := posted.appended
  rw [← Table.mem_rows, hrows, List.mem_append] at he
  rcases he with he | he
  · exact h.at_par e he a ha hid hbase
  · by_cases hkind : p.transferType = .REVERSAL
    · obtain ⟨o, -, -, hlegs, -⟩ := known.business.original hkind
      obtain ⟨e₀, he₀, hflip⟩ := forall₂_exists_left (posted.flipped hlegs h.sound) he
      rw [hflip.baseAmount_eq, hflip.amount_eq]
      apply h.at_par e₀ (mem_group.mp (mem_entriesById.mp he₀)).1 a ha _ hbase
      exact hid.trans hflip.account_eq
    · obtain ⟨c, hc, hcid, hcfund⟩ := posted.exists_account he
      obtain rfl : a = c := Table.eq_of_key_eq ha hc (hid.trans hcid.symm)
      obtain ⟨f, hf, hfa, hcur⟩ := hbase
      have hbaseOf : baseCurrencyOf db p.period = .ok f.baseCurrency := by
        rw [baseCurrencyOf, ← hcfund, ← hfa, Table.get?_of_mem hf]
        rfl
      exact posted.at_par hbaseOf (known.fair hkind h.charted hbaseOf) he hc hid hcur

theorem Denominated.change {db db' : Db} (h : Denominated db) (hc : Change Issued db db') :
    Denominated db' := by
  have hx := hc.extends
  have hold : db'.entries = db.entries → AtPar db' := fun he =>
    h.at_par.keeps h.sound hx.funds (fun a ha => hx.accounts.subset ha) he
  refine ⟨h.sound.later (Changes.later (.single hc)), fun f => (h.charted f).change hc, ?_⟩
  cases hc with
  | posted known held posted => exact h.posted known posted
  | accountOpened inserted =>
    obtain ⟨-, -, -, -, -, accounts, -, rfl⟩ := insertAccount_ok inserted
    exact hold rfl
  | capitalCall inserted =>
    obtain ⟨-, -, calls, -, rfl⟩ := insertCapitalCall_ok inserted
    exact hold rfl
  | distribution inserted =>
    obtain ⟨-, -, dists, -, rfl⟩ := insertDistribution_ok inserted
    exact hold rfl
  | periodClosed updated =>
    obtain ⟨-, rfl⟩ := updatePeriod_ok updated
    exact hold rfl

/-- Nothing else matters than the funds, the accounts and the entries. -/
theorem Denominated.aside {db db' : Db} (h : Denominated db) (hf : db'.funds = db.funds)
    (ha : db'.accounts = db.accounts) (he : db'.entries = db.entries) : Denominated db' := by
  refine ⟨fun e hmem => ?_, fun fund => ?_, ?_⟩
  · rw [he] at hmem
    have hsound := h.sound e hmem
    exact { hsound with account := by rw [hf, ha]; exact hsound.account }
  · rw [Charted, ha]
    exact h.charted fund
  · exact h.at_par.keeps h.sound hf (fun a hmem => ha ▸ hmem) he

theorem CashInBase.opens {P : Account → Prop} {db db' : Db} (h : CashInBase db)
    (ho : Opens P db db') (hP : ∀ a, P a → a.accountType = .CASH → HeldInBase db a) :
    CashInBase db' := by
  intro a ha htype
  rw [HeldInBase, ho.funds]
  rcases ho.accounts a ha with ha | ha
  · exact h a ha htype
  · exact hP a ha htype

/-! ## Runs -/

/-- What happens to a fund: an action, the opening of its accounts, or a new
table of exchange rates. -/
inductive Occurrence
  | action (a : Action)
  | openAccounts (env : Env) (fundId : Uuid)
  | rates (fxRates : Table FxRate FxRate.id)

/-- `open_fund_accounts` on a stored fund. -/
def openAccountsOf (env : Env) (fundId : Uuid) : M Unit := do
  let db ← Tx.read
  let fund ← Tx.lift (getFund db fundId)
  openFundAccounts env fund

def Occurrence.run : Occurrence → Db → Db
  | .action a, db => a.run db
  | .openAccounts env fundId, db => (openAccountsOf env fundId db).2
  | .rates fxRates, db => { db with fxRates }

/-- Postings come from the services, and purchases are in ISO 4217
currencies. -/
def Occurrence.Proper : Occurrence → Prop
  | .action (.call c) => c.op.IsBusiness ∧ c.op.InIso
  | _ => True

def afterOccurrences (db : Db) (os : List Occurrence) : Db := os.foldl (fun db o => o.run db) db

/-- The invariant of a run. -/
structure Kept (db : Db) : Prop extends Denominated db where
  cash : CashInBase db

theorem Kept.aside {db db' : Db} (h : Kept db) (hf : db'.funds = db.funds)
    (ha : db'.accounts = db.accounts) (he : db'.entries = db.entries) : Kept db' :=
  ⟨h.toDenominated.aside hf ha he, h.cash.opens (P := fun _ => False) (.of_eq hf ha) nofun⟩

theorem Kept.openAccountsOf {db : Db} (h : Kept db) (env : Env) (fundId : Uuid) :
    Kept (openAccountsOf env fundId db).2 := by
  rw [FundLedger.openAccountsOf, Tx.read_bind]
  refine Tx.lift_bind_rel (R := fun d d' => Kept d → Kept d') id (fun fund hfund hd => ?_) h
  have hmem : fund ∈ db.funds := Table.mem_of_get? (orRaise_eq_ok.mp hfund)
  refine ⟨?_, hd.cash.opens (openFundAccounts_opens env fund db) fun a ha _ => ?_⟩
  · exact Changes.invariant (I := Denominated) (fun _ _ hI hc => hI.change hc)
      (openFundAccounts_changes Issued env fund db) hd.toDenominated
  · exact ⟨fund, hmem, ha.1.symm, ha.2⟩

/-- **One step of a run.** -/
theorem Kept.run {db : Db} (h : Kept db) {o : Occurrence} (proper : o.Proper) : Kept (o.run db) := by
  cases o with
  | openAccounts env fundId => exact h.openAccountsOf env fundId
  | rates fxRates => exact h.aside rfl rfl rfl
  | action a =>
    cases a with
    | call c =>
      obtain ⟨hop, hiso⟩ := proper
      refine ⟨?_, h.cash.opens (Op.run_opens hop db) fun a ha htype => absurd htype ha⟩
      exact Changes.invariant (I := Denominated) (fun _ _ hI hc => hI.change hc)
        (Op.run_issued hop hiso db) h.toDenominated
    | publish r =>
      refine Tx.statement_rel (R := fun d d' => Kept d → Kept d') id (fun db' hins hd => ?_) h
      simp only [insertFxRate, except_bind_ok, except_pure] at hins
      obtain ⟨_, -, _, -, _, -, fxRates, -, _, -, rfl⟩ := hins
      exact hd.aside rfl rfl rfl
    | newPartner lp =>
      refine Tx.statement_rel (R := fun d d' => Kept d → Kept d') id (fun db' hins hd => ?_) h
      obtain ⟨lps, -, rfl⟩ := insertLp_ok hins
      exact hd.aside rfl rfl rfl
    | commit env c =>
      refine Tx.bind_rel (R := fun d d' => Kept d → Kept d') (fun _ _ _ h₁ h₂ hd => h₂ (h₁ hd)) ?_
        (fun _ db₁ _ hd => ?_) h
      · refine Tx.statement_rel (R := fun d d' => Kept d → Kept d') id fun db' hins hd => ?_
        obtain ⟨-, -, -, commitments, -, rfl⟩ := insertCommitment_ok hins
        exact hd.aside rfl rfl rfl
      · exact hd.openAccountsOf env c.fund

theorem Kept.afterOccurrences {os : List Occurrence} (proper : ∀ o ∈ os, o.Proper) :
    ∀ {db : Db}, Kept db → Kept (afterOccurrences db os) := by
  induction os with
  | nil => exact fun h => h
  | cons o os ih =>
    intro db h
    exact ih (fun p hp => proper p (List.mem_cons_of_mem o hp)) (h.run (proper o List.mem_cons_self))

/-- An empty ledger: no accounts, and nothing posted. -/
theorem Genesis.kept {db : Db} (h : Genesis db) (bare : db.accounts.rows = []) : Kept db := by
  have hnone : ∀ a, a ∉ db.accounts := by
    intro a ha
    rw [← Table.mem_rows, bare] at ha
    cases ha
  refine ⟨⟨h.soundEntries, fun fund a ha => absurd ha (hnone a), ?_⟩, fun a ha => absurd ha (hnone a)⟩
  exact fun e _ a ha => absurd ha (hnone a)

/-! ## Balances -/

theorem signedBaseAmount_of_par {e : Entry} (h : e.baseAmount = e.amount) :
    e.signedBaseAmount = e.signedAmount := by
  rw [Entry.signedBaseAmount, Entry.signedAmount, h]

/-- The entries on accounts of one type that `nav` counts. -/
def navEntries (db : Db) (fund : Fund) (accountType : AccountType)
    (throughPeriod : Option Period) : List Entry :=
  db.entries.rows.filter fun e => entryFund db e = some fund.id ∧
    entryAccountType db e = some accountType ∧ throughCut db throughPeriod e

/-- `nav` is cash plus investments. -/
theorem nav_eq (db : Db) (fund : Fund) (throughPeriod : Option Period) :
    nav db fund throughPeriod = Money.orZero
      (sumBy Entry.signedBaseAmount (navEntries db fund .CASH throughPeriod) +
        sumBy Entry.signedBaseAmount (navEntries db fund .INVESTMENT throughPeriod)) := by
  rw [nav, navEntries, navEntries]
  congr 1
  simp only [sumBy_filter, ← sumBy_add]
  refine sumBy_congr fun e _ => ?_
  by_cases hcash : entryAccountType db e = some .CASH
  · simp [hcash]
  · simp [hcash]

/-- The native and the base amounts of an entry, according to the currency of
its account. -/
def WellDenominated (db : Db) (e : Entry) : Prop :=
  ∃ a ∈ db.accounts, ∃ f ∈ db.funds, a.id = e.account ∧ f.id = a.fund ∧
    (a.currency = f.baseCurrency → e.fxRate = none ∧ e.baseAmount = e.amount) ∧
    (a.currency ≠ f.baseCurrency → (∃ r, e.fxRate = some r ∧ 0 < r) ∧ 0 < e.baseAmount)

theorem Denominated.entry {db : Db} (h : Denominated db) {e : Entry} (he : e ∈ db.entries) :
    WellDenominated db e := by
  have hsound := h.sound e he
  obtain ⟨a, ha, hid, hcur, f, hf, hfa, hrate⟩ := hsound.account
  refine ⟨a, ha, f, hf, hid, hfa, fun hbase => ⟨hrate.mpr (hcur.symm.trans hbase), ?_⟩,
    fun hforeign => ⟨?_, hsound.baseAmount_pos⟩⟩
  · exact h.at_par e he a ha hid ⟨f, hf, hfa, hbase⟩
  · cases hr : e.fxRate with
    | none => exact absurd (hcur.trans (hrate.mp hr)) hforeign
    | some r => exact ⟨r, rfl, hsound.fxRate_pos r hr⟩

theorem Denominated.balance {db : Db} (h : Denominated db) {a : Account} (ha : a ∈ db.accounts)
    (hbase : HeldInBase db a) (asOf : Option Timestamp) :
    nativeBalance db a.id asOf = baseBalance db a.id asOf := by
  refine sumBy_congr fun e he => ?_
  simp only [accountEntries, List.mem_filter, Bool.decide_and, Bool.and_eq_true,
    decide_eq_true_eq] at he
  obtain ⟨hmem, hid, -⟩ := he
  exact (signedBaseAmount_of_par (h.at_par e hmem a ha hid.symm hbase)).symm

/-- The cash in `nav` is the cash of the overdraft check. -/
theorem Kept.nav_cash {db : Db} (h : Kept db) (fund : Fund) (throughPeriod : Option Period) :
    sumBy Entry.signedBaseAmount (navEntries db fund .CASH throughPeriod) =
      sumBy Entry.signedAmount (navEntries db fund .CASH throughPeriod) := by
  refine sumBy_congr fun e he => ?_
  simp only [navEntries, List.mem_filter, Bool.decide_and, Bool.and_eq_true,
    decide_eq_true_eq] at he
  obtain ⟨hmem, -, htype, -⟩ := he
  obtain ⟨a, hget, hcash⟩ := Option.map_eq_some_iff.mp htype
  obtain ⟨ha, hid⟩ := Table.get?_eq_some.mp hget
  exact signedBaseAmount_of_par (h.at_par e hmem a ha hid (h.cash a ha hcash))

/-- **Native and base balances agree where they must.**  From an empty ledger,
after any sequence of services, reversals, closings, new partners and changes
of the exchange rates: an entry on a base-currency account has no rate and is
worth its own amount, and one on a foreign account has a positive rate and a
positive base amount.  So the two balances of a base-currency account are the
same at every cut; cash is always in the base currency, and the cash that `nav`
counts is native cash. -/
theorem native_agrees_with_base {start : Db} (genesis : Genesis start)
    (bare : start.accounts.rows = []) {os : List Occurrence} (proper : ∀ o ∈ os, o.Proper)
    {db : Db} (hdb : db = afterOccurrences start os) :
    (∀ e ∈ db.entries, WellDenominated db e) ∧
    (∀ a ∈ db.accounts, HeldInBase db a → ∀ asOf,
      nativeBalance db a.id asOf = baseBalance db a.id asOf) ∧
    (∀ a ∈ db.accounts, a.accountType = .CASH → HeldInBase db a) ∧
    ∀ fund throughPeriod, nav db fund throughPeriod = Money.orZero
      (sumBy Entry.signedAmount (navEntries db fund .CASH throughPeriod) +
        sumBy Entry.signedBaseAmount (navEntries db fund .INVESTMENT throughPeriod)) := by
  have h : Kept db := hdb ▸ (genesis.kept bare).afterOccurrences proper
  refine ⟨fun e he => h.entry he, fun a ha hbase asOf => h.balance ha hbase asOf, h.cash,
    fun fund throughPeriod => ?_⟩
  rw [nav_eq, h.nav_cash]

/-- A fund is set up, calls capital, buys in dollars, and takes the purchase
back when the dollar has risen. -/
def yearInDollars : List Occurrence := [
  .openAccounts (envOf 0) 1,
  .action (.call callOf100),
  .action (.call { env := envOf 2, op := .recordInvestment 1 "inv" (.finite ⟨1001, -2⟩) "USD" 32 }),
  .rates ⟨[rateOf80], by decide⟩,
  .action (.call { env := envOf 3, op := .reverseTransfer 2001 "undo" 21 .OPEN "" })]

theorem native_agrees_with_base_inDollars :
    (∃ e ∈ (afterOccurrences peFundBare yearInDollars).entries,
      WellDenominated (afterOccurrences peFundBare yearInDollars) e ∧ e.fxRate = some 7900000000) ∧
    nativeBalance (afterOccurrences peFundBare yearInDollars) 100 =
      baseBalance (afterOccurrences peFundBare yearInDollars) 100 := by
  have hgenesis : Genesis peFundBare := by
    refine ⟨?_, ?_, ?_, ?_, ?_⟩ <;> decide +kernel
  have hproper : ∀ o ∈ yearInDollars, o.Proper := by
    simp only [yearInDollars, List.forall_mem_cons, List.not_mem_nil, false_implies, implies_true,
      and_true]
    have hdollar : isIso4217 "USD" := by decide
    exact ⟨trivial, ⟨trivial, trivial⟩, ⟨trivial, hdollar⟩, trivial, ⟨trivial, trivial⟩⟩
  have hentry : ∃ e ∈ (afterOccurrences peFundBare yearInDollars).entries.rows,
      e.fxRate = some 7900000000 ∧ e.transfer = 3001 := by decide +kernel
  have hcash : ∃ a ∈ (afterOccurrences peFundBare yearInDollars).accounts.rows,
      a.id = 100 ∧ a.accountType = .CASH := by decide +kernel
  obtain ⟨hentries, hbalances, hcashInBase, -⟩ :=
    native_agrees_with_base hgenesis rfl hproper (Eq.refl (afterOccurrences peFundBare yearInDollars))
  generalize afterOccurrences peFundBare yearInDollars = db at *
  obtain ⟨e, he, hrate, -⟩ := hentry
  obtain ⟨a, ha, hid, htype⟩ := hcash
  refine ⟨⟨e, he, hentries e he, hrate⟩, ?_⟩
  rw [← hid]
  exact hbalances a ha (hcashInBase a ha htype) none

end FundLedger
