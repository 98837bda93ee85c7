import FundLedger.Operations.PartnerStatements
import FundLedger.Operations.SettingUp

/-!
# Partners' capital

The closing balances of the partners' statements add up to the net asset value
of the fund.  The argument is about one period at a time.  The entries of the
period sum to zero.  They are on cash, investments, gains, fees and the
capital accounts of the partners; so cash and investments are what the
partners' movements, the gains and the fees come to, with the sign changed.
The allocations split gains and fees exactly, and each partner's own
allocation is the same as everybody else's, whatever the order of the rows.
-/

namespace FundLedger

open Lib

/-! ## The net asset value -/

namespace Accounted

variable {db : Db} {fund : Fund}

/-- Cash and investments of one period. -/
theorem sum_cash_investment (h : Accounted db fund) {p : Period} (hp : p ∈ db.periods)
    (hf : p.fund = fund.id) :
    sumBy Entry.signedBaseAmount ((entriesIn db p.id).filter fun e =>
      entryFund db e = some fund.id ∧ (entryAccountType db e = some .CASH ∨
        entryAccountType db e = some .INVESTMENT)) =
      typeTotal db p.id .CASH + typeTotal db p.id .INVESTMENT := by
  rw [typeTotal, typeTotal, group, group, sumBy_filter, sumBy_filter, sumBy_filter, ← sumBy_add]
  refine sumBy_congr fun e he => ?_
  obtain ⟨a, ha, hae, haf, -⟩ := h.account_of_entriesIn hp hf he
  have hfund : entryFund db e = some fund.id := by rw [(entry_of_account ha hae).2, haf]
  by_cases hc : entryAccountType db e = some .CASH
  · simp [hc, hfund]
  · by_cases hi : entryAccountType db e = some .INVESTMENT <;> simp [hc, hi, hfund]

/-- **The net asset value through a period** is cash and investments of the
periods up to it. -/
theorem val_nav (h : Accounted db fund) (period : Period) :
    (nav db fund (some period)).val =
      sumBy (fun p => Money.worth (typeTotal db p.id .CASH + typeTotal db p.id .INVESTMENT))
        (periodsThrough db fund.id period.startDate) := by
  let held : Entry → Bool := fun e => entryFund db e = some fund.id ∧
    (entryAccountType db e = some .CASH ∨ entryAccountType db e = some .INVESTMENT)
  have hheld : ∀ e ∈ db.entries, held e → entryFund db e = some fund.id := fun e _ he =>
    (of_decide_eq_true he).1
  have hrows : (db.entries.rows.filter fun e => entryFund db e = some fund.id ∧
      (entryAccountType db e = some .CASH ∨ entryAccountType db e = some .INVESTMENT) ∧
      throughCut db (some period) e) =
      db.entries.rows.filter fun e => held e && throughCut db (some period) e := by
    refine List.filter_congr fun e _ => ?_
    rw [Bool.eq_iff_iff]
    simp [held, and_assoc]
  rw [nav, Money.val_orZero, hrows, h.sum_through hheld, ← sumBy_hom Money.worth]
  refine sumBy_congr fun p hpm => ?_
  rw [h.sum_cash_investment (mem_periodsThrough.mp hpm).1 (mem_periodsThrough.mp hpm).2.1]

/-- **One period of the argument**: what the partners' capital changes by is
what cash and investments change by. -/
theorem sum_netOf (h : Accounted db fund) (hpartners : partnerIds db fund ≠ []) {p : Period}
    (hp : p ∈ db.periods) (hf : p.fund = fund.id) :
    sumBy (fun lp => netOf db fund lp p.id) (partnerIds db fund) =
      Money.worth (typeTotal db p.id .CASH + typeTotal db p.id .INVESTMENT) := by
  have hgains : (gainsOf db fund p.id).val = -Money.worth (typeTotal db p.id .GAIN_LOSS) := by
    rw [gainsOf, Dec.val_neg, h.val_fundTotal hp hf]
  have hfees : (feesOf db fund p.id).val = Money.worth (typeTotal db p.id .FEE_EXPENSE) :=
    h.val_fundTotal hp hf _
  have hcapital : sumBy (fun lp => -Money.worth (accountTotal db p.id
      (capitalAccountId db fund lp))) (partnerIds db fund) =
      -Money.worth (typeTotal db p.id .LP_CAPITAL) := by
    rw [← h.sum_accountTotal hp hf]
    exact sumBy_hom (-Money.worth) _ _
  have hfeesneg : sumBy (fun lp => -(portion db fund (feesOf db fund p.id) lp).val)
      (partnerIds db fund) = -(feesOf db fund p.id).val := by
    rw [← h.ready.sum_portion hpartners (congrArg abs hfees)]
    exact sumBy_hom (-AddMonoidHom.id ℚ) _ _
  have hzero : Money.worth (sumBy (typeTotal db p.id) types) = 0 := by
    rw [h.sum_typeTotal hp hf, map_zero]
  simp only [types, sumBy_cons, sumBy_nil, map_add, map_zero] at hzero
  simp only [netOf, sub_eq_add_neg, sumBy_add]
  rw [hcapital, h.ready.sum_portion hpartners (by rw [hgains, abs_neg]), hfeesneg, hgains, hfees,
    map_add]
  linarith

end Accounted

/-! ## Partners' capital and net asset value -/

/-- The partners with a commitment to the fund. -/
def partners (db : Db) (fund : Fund) : List LimitedPartner :=
  db.lps.rows.filter fun lp => lp.id ∈ partnerIds db fund

theorem mem_partners {db : Db} {fund : Fund} {lp : LimitedPartner} :
    lp ∈ partners db fund ↔ lp ∈ db.lps ∧ lp.id ∈ partnerIds db fund := by
  rw [partners, List.mem_filter, decide_eq_true_eq]
  rfl

theorem Ready.partners_perm {db : Db} {fund : Fund} (h : Ready db fund) :
    ((partners db fund).map LimitedPartner.id).Perm (partnerIds db fund) := by
  have hnodup : ((partners db fund).map LimitedPartner.id).Nodup :=
    db.lps.nodup.sublist (List.filter_sublist.map _)
  refine (List.perm_ext_iff_of_nodup hnodup h.one_commitment).mpr fun i => ?_
  constructor
  · intro hi
    obtain ⟨lp, hlp, rfl⟩ := List.mem_map.mp hi
    exact (mem_partners.mp hlp).2
  · intro hi
    obtain ⟨c, hc, rfl⟩ := List.mem_map.mp hi
    obtain ⟨lp, hlp, hid⟩ := h.partner c hc
    exact List.mem_map.mpr ⟨lp, mem_partners.mpr ⟨hlp, hid ▸ hi⟩, hid⟩

/-- The statements of all the partners, each with its own order of the rows. -/
def statements (db : Db) (order : LimitedPartner → RowOrder Commitment) (fund : Fund)
    (period : Period) : Except Exc (List CapitalAccountStatement) :=
  (partners db fund).mapM fun lp => lpStatement db (order lp) fund lp period

theorem Accounted.statements_ok {db : Db} {fund : Fund} (h : Accounted db fund)
    (hpartners : partnerIds db fund ≠ []) (order : LimitedPartner → RowOrder Commitment)
    {period : Period} (hp : period ∈ db.periods) (hf : period.fund = fund.id) :
    ∃ all, statements db order fund period = .ok all ∧
      (Dec.sum (all.map CapitalAccountStatement.closingBalance)).val =
        (nav db fund (some period)).val := by
  have hone : ∀ lp ∈ partners db fund, ∃ s, lpStatement db (order lp) fund lp period = .ok s ∧
      s.closingBalance.val = sumBy (fun p => netOf db fund lp.id p.id)
        (periodsThrough db fund.id period.startDate) := fun lp hlp =>
    h.lpStatement_ok (order lp) (mem_partners.mp hlp).2 hp hf
  obtain ⟨all, hall, hsum⟩ : ∃ all, statements db order fund period = .ok all ∧
      sumBy (fun s => s.closingBalance.val) all = sumBy (fun lp => sumBy
        (fun p => netOf db fund lp.id p.id) (periodsThrough db fund.id period.startDate))
        (partners db fund) := mapM_sum_of_forall hone
  refine ⟨all, hall, ?_⟩
  rw [Dec.val_sum, List.map_map]
  refine hsum.trans ?_
  rw [← sumBy_map (fun lp => sumBy (fun p => netOf db fund lp p.id)
    (periodsThrough db fund.id period.startDate)), sumBy_perm h.ready.partners_perm, sumBy_comm,
    h.val_nav]
  exact sumBy_congr fun p hpm => h.sum_netOf hpartners (mem_periodsThrough.mp hpm).1
    (mem_periodsThrough.mp hpm).2.1

/-- **Partners' capital equals net asset value.**  Whatever calls of the
business operations, reversals and closings a fund with partners has seen, and
in whatever order each statement reads the commitments: every statement can be
made, and the closing balances add up to the net asset value exactly. -/
theorem partners_capital_equals_nav {db : Db} {fund : Fund} (genesis : Genesis db)
    (ready : Ready db fund) (hpartners : commitmentsOf db fund.id ≠ []) {calls : List Call}
    (business : ∀ c ∈ calls, c.op.IsBusiness) (order : LimitedPartner → RowOrder Commitment)
    {period : Period} (hp : period ∈ (afterCalls db calls).periods) (hf : period.fund = fund.id) :
    ∃ all, statements (afterCalls db calls) order fund period = .ok all ∧
      (Dec.sum (all.map CapitalAccountStatement.closingBalance)).val =
        (nav (afterCalls db calls) fund (some period)).val := by
  have h : Accounted (afterCalls db calls) fund := (genesis.accounted ready).afterCalls business
  have hsame : commitmentsOf (afterCalls db calls) fund.id = commitmentsOf db fund.id := by
    rw [commitmentsOf, commitmentsOf, (later_afterCalls db calls).extends.commitments]
  refine h.statements_ok ?_ order hp hf
  rw [partnerIds, hsame]
  simpa using hpartners

theorem partners_capital_callsOfAYear :
    nav (afterCalls buildPeFund callsOfAYear) makeFund (some h2) = ⟨1100001, -4⟩ ∧
    ∃ all, statements (afterCalls buildPeFund callsOfAYear) (fun _ => .insertion _) makeFund h2 =
        .ok all ∧
      (Dec.sum (all.map CapitalAccountStatement.closingBalance)).val =
        (nav (afterCalls buildPeFund callsOfAYear) makeFund (some h2)).val := by
  have hpartners : commitmentsOf buildPeFund makeFund.id ≠ [] := by decide +kernel
  have hbusiness : ∀ c ∈ callsOfAYear, c.op.IsBusiness := by
    simp [callsOfAYear, callOf100, Op.IsBusiness]
  have hperiod : h2 ∈ (afterCalls buildPeFund callsOfAYear).periods.rows := by decide +kernel
  exact ⟨by decide +kernel, partners_capital_equals_nav genesis_buildPeFund ready_buildPeFund
    hpartners hbusiness _ hperiod rfl⟩

/-- The same fund without a commitment. -/
def unpartneredBare : Db := { peFundBare with commitments := .empty }

def unpartneredFund : Db := (openFundAccounts (envOf 0) makeFund unpartneredBare).2

/-- Marking the portfolio up by 50. -/
def markUp : Call :=
  { env := envOf 3 40, op := .recordValuation 1 "mark" (.finite ⟨5000, -2⟩) 40 }

/-- **Without partners there is no partners' capital**, and a valuation still
moves the net asset value. -/
theorem unpartnered_capital_ne_nav :
    Genesis unpartneredFund ∧ Ready unpartneredFund makeFund ∧
    statements (afterCalls unpartneredFund [markUp]) (fun _ => .insertion _) makeFund h1 = .ok [] ∧
    nav (afterCalls unpartneredFund [markUp]) makeFund (some h1) = ⟨500000, -4⟩ ∧
    (Dec.sum []).val ≠ (nav (afterCalls unpartneredFund [markUp]) makeFund (some h1)).val := by
  have hrun : openFundAccounts (envOf 0) makeFund unpartneredBare = (.ok (), unpartneredFund) :=
    openFundAccounts_of_ok (by decide +kernel)
  have hfund : makeFund ∈ unpartneredBare.funds.rows := by decide
  have hbare : ∀ a ∈ unpartneredBare.accounts.rows, a.fund ≠ makeFund.id := by decide
  have hnone : commitmentsOf unpartneredBare makeFund.id = [] := rfl
  have hready : Ready unpartneredFund makeFund := by
    refine ready_openFundAccounts hfund ?_ ?_ ?_ hbare hrun <;> simp [hnone]
  have hgenesis : Genesis unpartneredFund := by
    refine ⟨?_, ?_, ?_, ?_, ?_⟩ <;> decide +kernel
  have hnav : nav (afterCalls unpartneredFund [markUp]) makeFund (some h1) = ⟨500000, -4⟩ := by
    decide +kernel
  refine ⟨hgenesis, hready, by decide +kernel, hnav, ?_⟩
  rw [hnav, Ne, eq_comm, Dec.val_sum, List.map_nil, List.sum_nil, Dec.val_eq_zero_iff]
  decide

end FundLedger
