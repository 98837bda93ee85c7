import FundLedger.Operations.PartnerStatements
import FundLedger.Operations.SettingUp

/-!
# Statements chain

Three code paths add up the same money.  A statement groups the entries of a
partner period by period and by effective type; `contributed_by_account` groups
the entries of capital calls over the whole history; and a balance is a plain
sum over an account.  This module shows that they agree, after any run.

* The opening balance of a statement is the closing balance of the one before,
  and the first one opens at zero.
* The closing balance is the balance of the partner's capital account through
  the period, together with the gains and fees that the statements allocated.
* The contributions that the last statement shows are those that the check of
  a capital call reads, so what it shows as unfunded is what the check compares
  a share with.
-/

namespace FundLedger

open Lib

/-! ## The order of the periods -/

/-- The constraint `period_unique_start`: no two periods of a fund start on the
same day. -/
def UniqueStarts (db : Db) : Prop :=
  ∀ p ∈ db.periods, ∀ q ∈ db.periods, p.fund = q.fund → p.startDate = q.startDate → p = q

theorem UniqueStarts.of_periods {db db' : Db} (h : UniqueStarts db)
    (hperiods : ∃ f, KeepsOutline f ∧ db'.periods.rows = db.periods.rows.map f) :
    UniqueStarts db' := by
  obtain ⟨f, hf, hrows⟩ := hperiods
  have hold : ∀ p ∈ db'.periods, ∃ p₀ ∈ db.periods, f p₀ = p := by
    intro p hp
    rw [← Table.mem_rows, hrows] at hp
    exact List.mem_map.mp hp
  intro p hp q hq hfund hstart
  obtain ⟨p₀, hp₀, rfl⟩ := hold p hp
  obtain ⟨q₀, hq₀, rfl⟩ := hold q hq
  rw [(hf p₀).2.1, (hf q₀).2.1] at hfund
  rw [(hf p₀).2.2.1, (hf q₀).2.2.1] at hstart
  rw [h p₀ hp₀ q₀ hq₀ hfund hstart]

structure FirstPeriod (db : Db) (fund : Uuid) (p : Period) : Prop where
  mem : p ∈ db.periods
  fund_eq : p.fund = fund
  first : ∀ q ∈ db.periods, q.fund = fund → p.startDate ≤ q.startDate

structure LastPeriod (db : Db) (fund : Uuid) (p : Period) : Prop where
  mem : p ∈ db.periods
  fund_eq : p.fund = fund
  last : ∀ q ∈ db.periods, q.fund = fund → q.startDate ≤ p.startDate

/-- `q` is the next period of the fund after `p`. -/
structure NextPeriod (db : Db) (fund : Uuid) (p q : Period) : Prop where
  mem : p ∈ db.periods
  fund_eq : p.fund = fund
  next_mem : q ∈ db.periods
  next_fund : q.fund = fund
  before : p.startDate < q.startDate
  between : ∀ r ∈ db.periods, r.fund = fund → r.startDate ≤ p.startDate ∨ q.startDate ≤ r.startDate

theorem nodup_rows_periodsThrough (db : Db) (fund : Uuid) (start : Date) :
    (periodsThrough db fund start).Nodup := (nodup_periodsThrough db fund start).of_map _

/-- The periods through the first one. -/
theorem FirstPeriod.periodsThrough {db : Db} {fund : Uuid} {p : Period}
    (h : FirstPeriod db fund p) (starts : UniqueStarts db) :
    (FundLedger.periodsThrough db fund p.startDate).Perm [p] := by
  refine (List.perm_ext_iff_of_nodup (nodup_rows_periodsThrough db fund p.startDate)
    (List.nodup_singleton p)).mpr fun r => ?_
  rw [mem_periodsThrough, List.mem_singleton]
  constructor
  · rintro ⟨hr, hf, hle⟩
    have hstart : r.startDate = p.startDate := le_antisymm hle (h.first r hr hf)
    exact starts r hr p h.mem (hf.trans h.fund_eq.symm) hstart
  · rintro rfl
    exact ⟨h.mem, h.fund_eq, le_rfl⟩

/-- The periods through the next one. -/
theorem NextPeriod.periodsThrough {db : Db} {fund : Uuid} {p q : Period}
    (h : NextPeriod db fund p q) (starts : UniqueStarts db) :
    (FundLedger.periodsThrough db fund q.startDate).Perm
      (q :: FundLedger.periodsThrough db fund p.startDate) := by
  have hnew : q ∉ FundLedger.periodsThrough db fund p.startDate := fun hmem =>
    absurd (mem_periodsThrough.mp hmem).2.2 (not_le.mpr h.before)
  refine (List.perm_ext_iff_of_nodup (nodup_rows_periodsThrough db fund q.startDate)
    (List.nodup_cons.mpr ⟨hnew, nodup_rows_periodsThrough db fund p.startDate⟩)).mpr fun r => ?_
  rw [List.mem_cons, mem_periodsThrough, mem_periodsThrough]
  constructor
  · rintro ⟨hr, hf, hle⟩
    rcases h.between r hr hf with hp | hq
    · exact .inr ⟨hr, hf, hp⟩
    · have hstart : r.startDate = q.startDate := le_antisymm hle hq
      exact .inl (starts r hr q h.next_mem (hf.trans h.next_fund.symm) hstart)
  · rintro (rfl | ⟨hr, hf, hle⟩)
    · exact ⟨h.next_mem, h.next_fund, le_rfl⟩
    · exact ⟨hr, hf, hle.trans h.before.le⟩

/-! ## Contributions -/

/-- `e` is on the account, and belongs to a capital call or to the reversal of
one. -/
def isCallOn (db : Db) (account : Uuid) (e : Entry) : Bool :=
  e.account = account ∧ entryType db e = some .CAPITAL_CALL

/-- What the capital calls of a period moved an account by. -/
def callTotal (db : Db) (period account : Uuid) : Money :=
  sumBy Entry.signedBaseAmount ((entriesIn db period).filter (isCallOn db account))

theorem contributions_foldl_addRow (rows : List (TransferType × Money)) :
    ∀ m : Movement, (rows.foldl addRow m).contributions.val = m.contributions.val -
      sumBy (fun r => if .CAPITAL_CALL = r.1 then Money.worth r.2 else 0) rows := by
  induction rows with
  | nil => simp
  | cons r rows ih =>
    intro m
    have hrow : (addRow m r).contributions.val =
        m.contributions.val - if .CAPITAL_CALL = r.1 then Money.worth r.2 else 0 := by
      obtain ⟨type, total⟩ := r
      cases type <;>
        simp [addRow, Dec.val_add, Dec.val_neg, Money.val_toDec_eq, sub_eq_add_neg]
    rw [List.foldl_cons, ih, hrow, sumBy_cons]
    ring

/-- **The contributions of a movement** are the capital calls of the period,
reversed ones taken off.  Capital is credit-normal. -/
theorem contributions_lpLedgerMovement (db : Db) (account period : Uuid) :
    (lpLedgerMovement db account period).contributions.val =
      -Money.worth (callTotal db period account) := by
  let types := ((periodEntries db account period).filterMap (entryType db)).dedup
  let total (t : TransferType) : Money :=
    sumBy Entry.signedBaseAmount ((periodEntries db account period).filter
      fun e => entryType db e = some t)
  have hcalls : total .CAPITAL_CALL = callTotal db period account := by
    show sumBy _ _ = _
    rw [callTotal]
    congr 1
    simp only [periodEntries, entriesIn, group, List.filter_filter]
    refine List.filter_congr fun e _ => ?_
    rw [Bool.eq_iff_iff]
    simp [isCallOn]
    tauto
  have habsent : .CAPITAL_CALL ∉ types → total .CAPITAL_CALL = 0 := by
    intro hnot
    refine sumBy_eq_zero fun e he => absurd ?_ hnot
    obtain ⟨he, htype⟩ := List.mem_filter.mp he
    exact List.mem_dedup.mpr (List.mem_filterMap.mpr ⟨e, he, of_decide_eq_true htype⟩)
  have hsum : sumBy (fun t => if .CAPITAL_CALL = t then Money.worth (total t) else 0) types =
      Money.worth (callTotal db period account) := by
    have hone : ∀ t ∈ types, (if .CAPITAL_CALL = t then Money.worth (total t) else 0) =
        if .CAPITAL_CALL = t then Money.worth (total .CAPITAL_CALL) else 0 := by
      intro t _
      by_cases ht : .CAPITAL_CALL = t
      · rw [← ht]
      · rw [if_neg ht, if_neg ht]
    rw [sumBy_congr hone, sumBy_ite_eq (List.nodup_dedup _), ← hcalls]
    by_cases hmem : .CAPITAL_CALL ∈ types
    · rw [if_pos hmem]
    · rw [if_neg hmem, habsent hmem, map_zero]
  have hrows : movementRows db account period = types.map fun t => (t, total t) := rfl
  rw [lpLedgerMovement, contributions_foldl_addRow, hrows, sumBy_map, hsum, Dec.val_zero, zero_sub]

namespace Accounted

variable {db : Db} {fund : Fund} {lp : Uuid} {a : Account}

/-- The entries on the capital account of a partner are the fund's. -/
theorem entryFund_of_capital (ha : a ∈ db.accounts) (hca : CapitalAccount fund lp a) {e : Entry}
    (hea : e.account = a.id) : entryFund db e = some fund.id := by
  rw [(entry_of_account ha hea.symm).2, hca.fund_eq]

/-- **The contributions to date**, through a period. -/
theorem sum_contributions (h : Accounted db fund) (ha : a ∈ db.accounts)
    (hca : CapitalAccount fund lp a) (period : Period) :
    sumBy (fun p => (lpLedgerMovement db a.id p.id).contributions.val)
        (periodsThrough db fund.id period.startDate) =
      -Money.worth (sumBy Entry.signedBaseAmount (db.entries.rows.filter fun e =>
        isCallOn db a.id e && throughCut db (some period) e)) := by
  have hfund : ∀ e ∈ db.entries, isCallOn db a.id e → entryFund db e = some fund.id :=
    fun e _ he => entryFund_of_capital ha hca (of_decide_eq_true he).1
  rw [h.sum_through hfund, sumBy_congr fun p _ => contributions_lpLedgerMovement db a.id p.id]
  exact sumBy_hom (-Money.worth) _ _

/-- Through the last period of a fund there are all the entries of the fund. -/
theorem throughCut_last (h : Accounted db fund) {period : Period}
    (hlast : LastPeriod db fund.id period) {e : Entry} (he : e ∈ db.entries)
    (hf : entryFund db e = some fund.id) : throughCut db (some period) e = true := by
  obtain ⟨p, hp, hpf, -, hcut⟩ := h.exists_period he hf
  rw [hcut]
  exact decide_eq_true (hlast.last p hp hpf)

/-- **Through the last period** they are what the partner has paid in. -/
theorem sum_contributions_last (h : Accounted db fund) (ha : a ∈ db.accounts)
    (hca : CapitalAccount fund lp a) {period : Period} (hlast : LastPeriod db fund.id period) :
    sumBy (fun p => (lpLedgerMovement db a.id p.id).contributions.val)
        (periodsThrough db fund.id period.startDate) = Money.worth (contributed db a.id) := by
  rw [h.sum_contributions ha hca, contributed, map_neg]
  congr 3
  refine List.filter_congr fun e he => ?_
  cases hcall : isCallOn db a.id e with
  | false =>
    rw [Bool.false_and, ← hcall]
    rfl
  | true =>
    have hf := entryFund_of_capital ha hca (of_decide_eq_true hcall).1
    rw [h.throughCut_last hlast he hf, Bool.true_and, ← hcall]
    rfl

end Accounted

/-! ## The chain -/

/-- The balance of an account in base currency, over the periods up to one. -/
def baseBalanceThrough (db : Db) (account : Uuid) (period : Period) : Money :=
  sumBy Entry.signedBaseAmount (db.entries.rows.filter fun e =>
    e.account = account ∧ throughCut db (some period) e)

/-- The statements of one partner, `statement` for each period, in relation to
each other, to the ledger and to the check of a capital call.  `c` is the
commitment of the partner and `a` its capital account. -/
structure Chained (db : Db) (fund : Fund) (c : Commitment) (lp : LimitedPartner) (a : Account)
    (statement : Period → CapitalAccountStatement) : Prop where
  account : lookup (lpCapitalAccounts db fund) c.lp = .ok a
  made : ∀ p ∈ db.periods, p.fund = fund.id → ∀ order,
    lpStatement db order fund lp p = .ok (statement p)
  opens_at_zero : ∀ p, FirstPeriod db fund.id p → (statement p).openingBalance.val = 0
  opens_at_closing : ∀ p q, NextPeriod db fund.id p q →
    (statement q).openingBalance.val = (statement p).closingBalance.val
  closing : ∀ p ∈ db.periods, p.fund = fund.id → (statement p).closingBalance.val =
    -Money.worth (baseBalanceThrough db a.id p) + sumBy
      (fun r => (statement r).allocatedGains.val - (statement r).allocatedFees.val)
      (periodsThrough db fund.id p.startDate)
  paid_in : ∀ p, LastPeriod db fund.id p → ∀ lpAccounts, a ∈ lpAccounts →
    ∃ paidIn, (contributedByAccount db lpAccounts).get? a.id = some (a.id, paidIn) ∧
      (statement p).contributedToDate.val = paidIn.val ∧
      (statement p).unfundedCommitment.val = (c.committedAmount.toDec - paidIn).val
  checked : ∀ p, LastPeriod db fund.id p → ∀ shares share, lookup shares c.lp = .ok share →
    (checkUnfunded db [c] (lpCapitalAccounts db fund) shares = .ok () ↔
      ¬(statement p).unfundedCommitment < share)

/-- What the check of a capital call compares, for one commitment. -/
theorem checkUnfunded_singleton {db : Db} {c : Commitment} {lpAccounts : Dict Uuid Account}
    {shares : Dict Uuid Dec} {a : Account} {share : Dec} (ha : lookup lpAccounts c.lp = .ok a)
    (hshare : lookup shares c.lp = .ok share) :
    checkUnfunded db [c] lpAccounts shares = .ok () ↔
      ¬c.committedAmount.toDec - (contributed db a.id).toDec < share := by
  rw [checkUnfunded, forM_except_ok, List.forall_mem_singleton, ha, hshare]
  exact require_eq_ok

/-- **The statements of a partner chain**, whenever the invariant holds. -/
theorem Accounted.chained {db : Db} {fund : Fund} (h : Accounted db fund) (starts : UniqueStarts db)
    {c : Commitment} (hc : c ∈ commitmentsOf db fund.id) {lp : LimitedPartner} (hlp : c.lp = lp.id) :
    ∃ a statement, Chained db fund c lp a statement := by
  have hpartner : lp.id ∈ partnerIds db fund := hlp ▸ List.mem_map_of_mem hc
  obtain ⟨a, ha, hca, hlook⟩ := h.ready.exists_capital hpartner
  have hid : capitalAccountId db fund lp.id = a.id := capitalAccountId_of_lookup hlook
  let run (p : Period) : Running := runningOf db fund lp.id p
  let closing (p : Period) : ℚ :=
    sumBy (fun r => netOf db fund lp.id r.id) (periodsThrough db fund.id p.startDate)
  have hclosing : ∀ p ∈ db.periods, p.fund = fund.id →
      ((run p).opening + (run p).current.net).val = closing p := fun p hp hf =>
    h.closing_runningOf lp.id hp hf
  -- a statement opens at the sum of the earlier periods
  have hopening : ∀ p ∈ db.periods, p.fund = fund.id →
      (run p).opening.val = closing p - netOf db fund lp.id p.id := by
    intro p hp hf
    rw [← hclosing p hp hf, Dec.val_add, ← h.val_net_movementOf, ← current_runningOf lp.id hp hf]
    exact (add_sub_cancel_right _ _).symm
  have hcontributed : ∀ p, LastPeriod db fund.id p →
      (run p).contributedToDate.val = Money.worth (contributed db a.id) := by
    intro p hlast
    rw [← h.sum_contributions_last ha hca hlast, ← hid]
    exact contributedToDate_runningOf lp.id
  refine ⟨a, fun p => statementOf fund lp p c.committedAmount.toDec (run p), ?_, ?_, ?_, ?_, ?_, ?_,
    ?_⟩
  · rw [hlp]
    exact hlook
  · exact fun p _ _ order => h.lpStatement_eq order hc hlp p
  · intro p hfirst
    show (run p).opening.val = 0
    rw [hopening p hfirst.mem hfirst.fund_eq]
    show sumBy _ _ - _ = _
    rw [sumBy_perm (hfirst.periodsThrough starts), sumBy_cons, sumBy_nil, add_zero, sub_self]
  · intro p q hnext
    show (run q).opening.val = ((run p).opening + (run p).current.net).val
    rw [hopening q hnext.next_mem hnext.next_fund, hclosing p hnext.mem hnext.fund_eq]
    show sumBy _ _ - _ = sumBy _ _
    rw [sumBy_perm (hnext.periodsThrough starts), sumBy_cons, add_sub_cancel_left]
  · intro p hp hf
    have hbalance : Money.worth (baseBalanceThrough db a.id p) = sumBy
        (fun r => Money.worth (accountTotal db r.id a.id))
        (periodsThrough db fund.id p.startDate) := by
      have hfund : ∀ e ∈ db.entries, decide (e.account = a.id) →
          entryFund db e = some fund.id := fun e _ he =>
        entryFund_of_capital ha hca (of_decide_eq_true he)
      rw [sumBy_hom Money.worth, baseBalanceThrough]
      simp only [Bool.decide_and, Bool.decide_eq_true]
      rw [h.sum_through hfund]
      rfl
    have hshare : ∀ r ∈ periodsThrough db fund.id p.startDate, netOf db fund lp.id r.id =
        -Money.worth (accountTotal db r.id a.id) +
          ((run r).current.allocatedGains.val - (run r).current.allocatedFees.val) := by
      intro r hrm
      obtain ⟨hr, hrf, -⟩ := mem_periodsThrough.mp hrm
      rw [netOf, hid]
      show _ = _ + ((runningOf db fund lp.id r).current.allocatedGains.val -
        (runningOf db fund lp.id r).current.allocatedFees.val)
      rw [current_runningOf lp.id hr hrf, add_sub_assoc]
      rfl
    refine (hclosing p hp hf).trans ?_
    show sumBy _ _ = _
    rw [sumBy_congr hshare, sumBy_add, hbalance]
    congr 1
    exact sumBy_hom (-AddMonoidHom.id ℚ) _ _
  · intro p hlast lpAccounts hmem
    refine ⟨_, get?_contributedByAccount db hmem, ?_, ?_⟩
    · show (run p).contributedToDate.val = _
      rw [hcontributed p hlast, Dec.val_neg, Money.val_orZero, map_neg, neg_neg]
    · show (c.committedAmount.toDec - (run p).contributedToDate).val = _
      rw [Dec.val_sub, Dec.val_sub, hcontributed p hlast, Dec.val_neg, Money.val_orZero, map_neg,
        neg_neg]
  · intro p hlast shares share hshare
    rw [checkUnfunded_singleton (hlp ▸ hlook) hshare, Dec.lt_iff, Dec.lt_iff]
    show _ ↔ ¬(c.committedAmount.toDec - (run p).contributedToDate).val < share.val
    rw [Dec.val_sub, Dec.val_sub, hcontributed p hlast, Money.val_toDec_eq (contributed db a.id)]

/-- **Statements chain and agree with the ledger and with the commitment
check**, after any calls of the business operations, reversals and closings. -/
theorem statements_chain {db : Db} {fund : Fund} (genesis : Genesis db) (ready : Ready db fund)
    (starts : UniqueStarts db) {calls : List Call} (business : ∀ c ∈ calls, c.op.IsBusiness)
    {c : Commitment} (hc : c ∈ commitmentsOf db fund.id) {lp : LimitedPartner} (hlp : c.lp = lp.id) :
    ∃ a statement, Chained (afterCalls db calls) fund c lp a statement := by
  have h : Accounted (afterCalls db calls) fund := (genesis.accounted ready).afterCalls business
  have hx : Extends db (afterCalls db calls) := (later_afterCalls db calls).extends
  refine h.chained (starts.of_periods hx.periods) ?_ hlp
  rwa [commitmentsOf, hx.commitments]

theorem statements_chain_callsOfAYear : ∃ a statement,
    Chained (afterCalls buildPeFund callsOfAYear) makeFund
      { id := 31, fund := 1, lp := 11, committedAmount := 6000000 } { id := 11, name := "LP 1" }
      a statement := by
  have hstarts : UniqueStarts buildPeFund := by
    show ∀ p ∈ buildPeFund.periods.rows, ∀ q ∈ buildPeFund.periods.rows, _
    decide +kernel
  have hbusiness : ∀ c ∈ callsOfAYear, c.op.IsBusiness := by
    simp [callsOfAYear, callOf100, Op.IsBusiness]
  have hcommitment : { id := 31, fund := 1, lp := 11, committedAmount := 6000000 } ∈
      commitmentsOf buildPeFund makeFund.id := by decide +kernel
  exact statements_chain genesis_buildPeFund ready_buildPeFund hstarts hbusiness hcommitment rfl

end FundLedger
