import FundLedger.Operations.CalledCapital
import FundLedger.Operations.CapitalCalls

/-!
# Unfunded commitments

`create_capital_call` compares a share with the unfunded amount over the whole
history.  So the total that a partner has contributed is never negative and
never more than the commitment, and this is what the statement of the last
period shows.

An earlier statement shows a part of the history only.  `InOrder` is the
condition under which the bounds hold for it too: nothing up to the period
takes back a later call, and no call is posted up to the period after one of
its calls has been taken back later.  Without it they fail, since the engine
accepts a reversal into any open period.
-/

namespace FundLedger

open Lib

/-! ## The total -/

/-- The books as they concern the capital account `a` of the partner with the
commitment `c`. -/
structure PartnerBooks (db : Db) (fund : Fund) (c : Commitment) (a : Account) : Prop where
  accounted : Accounted db fund
  sound : SoundEntries db
  reversals : ReversalBooks db
  commitment : c ∈ commitmentsOf db fund.id
  account : a ∈ db.accounts
  capital : CapitalAccount fund c.lp a
  calls : ∀ t ∈ db.transfers, t.transferType = .CAPITAL_CALL → 0 ≤ paidIn db a.id t.id
  bounded : contributed db a.id ≤ c.committedAmount

/-- What is paid in on an account by credits only. -/
theorem paidIn_nonneg_of_credits {es : List Entry} {account : Uuid}
    (hpos : ∀ e ∈ es, 0 < e.baseAmount)
    (hcredit : ∀ e ∈ es, e.account = account → e.direction = .CREDIT) :
    0 ≤ -sumBy Entry.signedBaseAmount (group Entry.account account es) := by
  have hsum : -sumBy Entry.signedBaseAmount (group Entry.account account es) =
      sumBy (fun e => -e.signedBaseAmount) (group Entry.account account es) :=
    (sumBy_hom (-AddMonoidHom.id ℤ) _ _).symm
  rw [hsum]
  refine sumBy_nonneg fun e he => ?_
  obtain ⟨he, hacc⟩ := mem_group.mp he
  rw [Entry.signedBaseAmount, hcredit e he hacc, signed, neg_neg]
  exact (hpos e he).le

namespace PartnerBooks

variable {db db' : Db} {fund : Fund} {c : Commitment} {a : Account}

/-- **A posted capital call** pays in no less than nothing and no more than
what is unfunded, as of when the call was planned. -/
theorem paidIn_call (h : PartnerBooks db fund c a) {env env' : Env} {p : Posting} {es : List Entry}
    (posted : Posted env p db db' es) {fundId : Uuid} {total : Amount} {noticeDate : Date}
    {plan : Plan} (planned : planCapitalCall env' db fundId total noticeDate = .ok plan)
    (legs : p.legs = plan.legs) (period : p.period = plan.period) :
    0 ≤ paidIn db' a.id (transferFor env p).id ∧
      contributed db a.id + paidIn db' a.id (transferFor env p).id ≤ c.committedAmount := by
  rw [posted.paidIn_new h.accounted.books]
  obtain ⟨fund', -, -, -, hfund', hperiod, -⟩ := planCapitalCall_ok planned
  have hpf : p.period.fund = fund'.id := by
    rw [period]
    exact (periodFor_mem hperiod).2.1
  obtain ⟨hfm, hfid⟩ := Table.get?_eq_some.mp (orRaise_eq_ok.mp hfund')
  by_cases hsame : fund'.id = fund.id
  · obtain rfl := h.accounted.ready.eq_of_id hfm hsame.symm
    obtain ⟨hplain, hcredits, share, hshare, hmove⟩ :=
      h.accounted.ready.planCapitalCall_legs hfund' planned h.commitment h.account h.capital
    rw [← legs] at hplain hcredits hmove
    have hbase : baseCurrencyOf db p.period = .ok fund'.baseCurrency := by
      rw [baseCurrencyOf, hpf, Table.get?_of_mem hfm]
      rfl
    have hrows := posted.legRows hbase hplain
    constructor
    · refine paidIn_nonneg_of_credits (fun e he => (posted.accepted e he).2.1) fun e he hacc => ?_
      obtain ⟨leg, hleg, hrow⟩ := forall₂_exists_left hrows he
      have hdir := hcredits leg hleg (hrow.account_eq.symm.trans hacc)
      exact Direction.value_injective (hrow.direction_eq.symm.trans hdir)
    · have hnative : sumBy Entry.signedBaseAmount (group Entry.account a.id es) =
          sumBy Entry.signedAmount (group Entry.account a.id es) := by
        refine sumBy_congr fun e he => ?_
        obtain ⟨leg, -, hrow⟩ := forall₂_exists_left hrows (mem_group.mp he).1
        exact hrow.signedBaseAmount
      rw [sumBy_legMove hrows, ← hnative] at hmove
      have hpaid : ((-sumBy Entry.signedBaseAmount (group Entry.account a.id es) : ℤ) : ℚ) /
          10 ^ 4 = share.val := by
        push_cast
        rw [neg_div, hmove, neg_neg]
      rw [← hpaid, Money.val_toDec, Money.val_toDec, ← sub_div,
        div_le_div_iff_of_pos_right (by norm_num)] at hshare
      have hle : -sumBy Entry.signedBaseAmount (group Entry.account a.id es) ≤
          c.committedAmount - contributed db a.id := by exact_mod_cast hshare
      show contributed db a.id + _ ≤ _
      exact le_sub_iff_add_le'.mp hle
  · -- a call of another fund has no entry on the account
    have hnil : group Entry.account a.id es = [] := by
      refine group_eq_nil fun e he hacc => hsame ?_
      obtain ⟨b, hb, hbe, hbf⟩ := posted.exists_account he
      obtain rfl : b = a := Table.eq_of_key_eq hb h.account (hbe.trans hacc)
      exact (hbf.trans hpf).symm.trans h.capital.fund_eq
    rw [hnil, sumBy_nil, neg_zero, add_zero]
    exact ⟨le_rfl, h.bounded⟩

/-- **One step**: a change that comes from a business operation or a reversal
keeps the books. -/
theorem change (h : PartnerBooks db fund c a) (hc : Change Business db db') :
    PartnerBooks db' fund c a := by
  have hx := hc.extends
  have haccounted := h.accounted.change hc
  have hsound : SoundEntries db' := h.sound.later (Changes.later (.single hc))
  have hcommitment : c ∈ commitmentsOf db' fund.id := by
    rw [commitmentsOf, hx.commitments]
    exact h.commitment
  have haccount : a ∈ db'.accounts := hx.accounts.subset h.account
  obtain ⟨env, p, es, business, -, posted⟩ | keeps := hc.posted_or_keeps
  · have hreversals := posted.reversalBooks business.knownReversal h.accounted.books h.sound
      h.reversals
    have htotal := h.reversals.contributed_eq h.accounted.books a.id
    have htotal' := hreversals.contributed_eq haccounted.books a.id
    have hnew : p.transferType = .CAPITAL_CALL →
        0 ≤ paidIn db' a.id (transferFor env p).id ∧
          contributed db a.id + paidIn db' a.id (transferFor env p).id ≤ c.committedAmount := by
      intro hcall
      obtain ⟨env', fundId, total, noticeDate, plan, planned, legs, period⟩ := business.planned hcall
      exact h.paidIn_call posted planned legs period
    refine ⟨haccounted, hsound, hreversals, hcommitment, haccount, h.capital, ?_, ?_⟩
    · intro t ht hcall
      rcases posted.mem_transfers.mp ht with hold | rfl
      · rw [posted.paidIn_of_mem a.id hold]
        exact h.calls t hold hcall
      · exact (hnew hcall).1
    · by_cases hcall : p.transferType = .CAPITAL_CALL
      · rw [htotal', posted.netPaidIn_call h.reversals hcall, if_pos rfl, ← htotal]
        exact (hnew hcall).2
      · rw [htotal']
        exact (posted.netPaidIn_le h.reversals business.knownReversal hcall h.calls _).trans
          (htotal ▸ h.bounded)
  · have hreversals := keeps.reversalBooks h.reversals
    refine ⟨haccounted, hsound, hreversals, hcommitment, haccount, h.capital, ?_, ?_⟩
    · intro t ht hcall
      rw [keeps.paidIn]
      exact h.calls t (keeps.transfers ▸ ht) hcall
    · rw [hreversals.contributed_eq haccounted.books, keeps.netPaidIn,
        ← h.reversals.contributed_eq h.accounted.books]
      exact h.bounded

theorem contributed_nonneg (h : PartnerBooks db fund c a) : 0 ≤ contributed db a.id := by
  rw [h.reversals.contributed_eq h.accounted.books]
  exact h.reversals.netPaidIn_nonneg h.calls fun _ _ _ _ _ _ _ => rfl

end PartnerBooks

theorem Genesis.partnerBooks {db : Db} {fund : Fund} (h : Genesis db) (ready : Ready db fund)
    {c : Commitment} (hc : c ∈ commitmentsOf db fund.id) :
    ∃ a, PartnerBooks db fund c a := by
  obtain ⟨a, ha, hca⟩ := ready.capital_account c hc
  have hnone : contributed db a.id = 0 := by
    rw [contributed, h.entries]
    rfl
  refine ⟨a, h.accounted ready, h.soundEntries, h.reversalBooks, hc, ha, hca, ?_, ?_⟩
  · intro t ht
    rw [← Table.mem_rows, h.transfers] at ht
    cases ht
  · rw [hnone]
    exact (ready.positive c hc).le

/-! ## A part of the history -/

/-- The period starts after the given one, and is in the same fund. -/
def startsAfter (db : Db) (period : Period) (p : Uuid) : Bool :=
  (db.periods.get? p).any fun q => q.fund = period.fund ∧ period.startDate < q.startDate

/-- The period is one of the fund. -/
def inFund (db : Db) (fund : Uuid) (p : Uuid) : Bool :=
  (db.periods.get? p).any fun q => q.fund = fund

/-- The transfers up to a period are posted in order: nothing there takes back
a later call, and no call is posted there after one of its calls has been taken
back later. -/
structure InOrder (db : Db) (period : Period) : Prop where
  reversals : ∀ t ∈ db.transfers, ∀ o ∈ db.transfers, t.reverses = some o.id →
    o.transferType = .CAPITAL_CALL → startsAfter db period o.period → startsAfter db period t.period
  calls : db.transfers.rows.Pairwise fun t u => u.transferType = .CAPITAL_CALL →
    inFund db period.fund u.period → ¬startsAfter db period u.period →
    ∀ o ∈ db.transfers, t.reverses = some o.id → o.transferType = .CAPITAL_CALL →
      startsAfter db period t.period → startsAfter db period o.period

/-- Nothing starts after the last period. -/
theorem LastPeriod.inOrder {db : Db} {fund : Uuid} {period : Period}
    (h : LastPeriod db fund period) : InOrder db period := by
  have hnone : ∀ p, startsAfter db period p = false := by
    intro p
    unfold startsAfter
    cases hget : db.periods.get? p with
    | none => rfl
    | some q =>
      refine decide_eq_false fun hq => ?_
      exact absurd hq.2 (not_lt.mpr (h.last q (Table.mem_of_get? hget) (hq.1.trans h.fund_eq)))
  refine ⟨fun t _ o _ _ _ hafter => ?_, List.pairwise_of_forall fun t u _ _ _ o _ _ _ hafter => ?_⟩
  · rw [hnone] at hafter
    cases hafter
  · rw [hnone] at hafter
    cases hafter

/-- Periods keep their start. -/
theorem Extends.startsAfter {db db' : Db} (hx : Extends db db') (period : Period) (p : Uuid) :
    FundLedger.startsAfter db' period p = FundLedger.startsAfter db period p := by
  obtain ⟨f, hf, hget⟩ := hx.getPeriod_map
  rw [FundLedger.startsAfter, FundLedger.startsAfter, hget, Option.any_map]
  congr 1
  funext q
  rw [(hf q).2.1, (hf q).2.2.1]

theorem Extends.inFund {db db' : Db} (hx : Extends db db') (fund p : Uuid) :
    FundLedger.inFund db' fund p = FundLedger.inFund db fund p := by
  obtain ⟨f, hf, hget⟩ := hx.getPeriod_map
  rw [FundLedger.inFund, FundLedger.inFund, hget, Option.any_map]
  congr 1
  funext q
  rw [(hf q).2.1]

/-- What is in order now was in order before. -/
theorem InOrder.of_extends {db db' : Db} {period : Period} (h : InOrder db' period)
    (hx : Extends db db') : InOrder db period := by
  have hold : ∀ t ∈ db.transfers, t ∈ db'.transfers := fun t ht => hx.transfers.subset ht
  refine ⟨fun t ht o ho hto hcall hafter => ?_, ?_⟩
  · rw [← hx.startsAfter] at hafter ⊢
    exact h.reversals t (hold t ht) o (hold o ho) hto hcall hafter
  · refine (h.calls.sublist hx.transfers.sublist).imp fun htu hcall hin hnot o ho => ?_
    rw [← hx.inFund] at hin
    rw [← hx.startsAfter] at hnot ⊢
    rw [← hx.startsAfter]
    exact htu hcall hin hnot o (hold o ho)

/-! ## The bounds -/

/-- A call of another fund pays nothing in on the account. -/
theorem PartnerBooks.paidIn_other_fund {db db' : Db} {fund : Fund} {c : Commitment} {a : Account}
    (h : PartnerBooks db fund c a) {env : Env} {p : Posting} {es : List Entry}
    (posted : Posted env p db db' es) (hother : p.period.fund ≠ fund.id) :
    paidIn db' a.id (transferFor env p).id = 0 := by
  rw [posted.paidIn_new h.accounted.books]
  have hnil : group Entry.account a.id es = [] := by
    refine group_eq_nil fun e he hacc => hother ?_
    obtain ⟨b, hb, hbe, hbf⟩ := posted.exists_account he
    obtain rfl : b = a := Table.eq_of_key_eq hb h.account (hbe.trans hacc)
    exact hbf.symm.trans h.capital.fund_eq
  rw [hnil, sumBy_nil, neg_zero]

/-- What was contributed up to a period. -/
def contributedThrough (db : Db) (account : Uuid) (period : Period) : Money :=
  netPaidIn db account fun p => !startsAfter db period p

theorem Extends.contributedThrough {db db' : Db} (hx : Extends db db') (account : Uuid)
    (period : Period) : FundLedger.contributedThrough db' account period =
      netPaidIn db' account fun p => !FundLedger.startsAfter db period p := by
  rw [FundLedger.contributedThrough]
  congr 1
  funext p
  rw [hx.startsAfter]

namespace PartnerBooks

variable {db : Db} {fund : Fund} {c : Commitment} {a : Account} {period : Period}

/-- Nothing up to the period takes back a later call. -/
theorem contributedThrough_nonneg (h : PartnerBooks db fund c a) (horder : InOrder db period) :
    0 ≤ contributedThrough db a.id period := by
  refine h.reversals.netPaidIn_nonneg h.calls fun t ht o ho hto hcall hin => ?_
  rw [Bool.not_eq_true'] at hin ⊢
  rw [Bool.eq_false_iff] at hin ⊢
  exact fun hafter => hin (horder.reversals t ht o ho hto hcall hafter)

/-- **One step**: the bound of a part of the history is kept. -/
theorem contributedThrough_change {db' : Db} (h : PartnerBooks db fund c a)
    (hc : Change Business db db') (hperiod : period.fund = fund.id) (horder : InOrder db' period)
    (hbound : contributedThrough db a.id period ≤ c.committedAmount) :
    contributedThrough db' a.id period ≤ c.committedAmount := by
  have hx := hc.extends
  have h' := h.change hc
  obtain ⟨env, p, es, business, ⟨q, hq, hqp, hqf⟩, posted⟩ | keeps := hc.posted_or_keeps
  · by_cases hcall : p.transferType = .CAPITAL_CALL
    · have hnew := posted.netPaidIn_call h.reversals hcall a.id fun p => !startsAfter db period p
      by_cases hin : !startsAfter db period p.period.id
      · by_cases hfund : p.period.fund = fund.id
        · -- what is contributed later cannot be less than nothing
          have hlater : 0 ≤ netPaidIn db' a.id fun p => !!startsAfter db' period p := by
            refine h'.reversals.netPaidIn_nonneg h'.calls fun t ht o ho hto hocall hafter => ?_
            rw [Bool.not_not] at hafter ⊢
            have hinFund : inFund db' period.fund p.period.id := by
              rw [hx.inFund, inFund, ← hqp, Table.get?_of_mem hq]
              exact decide_eq_true (hqf.trans (hfund.trans hperiod.symm))
            have hnot : ¬startsAfter db' period p.period.id := by
              rw [hx.startsAfter]
              exact Bool.eq_false_iff.mp (Bool.not_eq_true' _ ▸ hin)
            rcases posted.mem_transfers.mp ht with hold | rfl
            · have hpairs := horder.calls
              rw [posted.transfers_eq, List.pairwise_append] at hpairs
              exact hpairs.2.2 t hold _ (List.mem_singleton_self _) hcall hinFund hnot o ho hto
                hocall hafter
            · exact absurd hafter hnot
          have htotal := netPaidIn_add_compl h'.reversals h'.accounted.books a.id
            fun p => !startsAfter db' period p
          exact le_trans (le_of_add_le_of_nonneg_left htotal.le hlater) h'.bounded
        · rw [hx.contributedThrough, hnew, if_pos hin, h.paidIn_other_fund posted hfund, add_zero]
          exact hbound
      · rw [hx.contributedThrough, hnew, if_neg hin, add_zero]
        exact hbound
    · rw [hx.contributedThrough]
      exact (posted.netPaidIn_le h.reversals business.knownReversal hcall h.calls _).trans hbound
  · rw [hx.contributedThrough, keeps.netPaidIn]
    exact hbound

/-- **The whole run.** -/
theorem contributedThrough_le {db' : Db} (h : PartnerBooks db fund c a)
    (hrun : Changes Business db db') (hperiod : period.fund = fund.id)
    (hstart : contributedThrough db a.id period ≤ c.committedAmount)
    (horder : InOrder db' period) :
    PartnerBooks db' fund c a ∧ contributedThrough db' a.id period ≤ c.committedAmount := by
  induction hrun with
  | refl => exact ⟨h, hstart⟩
  | tail _ hlast ih =>
    obtain ⟨hmid, hbound⟩ := ih (horder.of_extends hlast.extends)
    exact ⟨hmid.change hlast, hmid.contributedThrough_change hlast hperiod horder hbound⟩

/-- What a statement shows as contributed to date. -/
theorem contributedToDate (h : PartnerBooks db fund c a) {lp : Uuid} (hlp : c.lp = lp)
    (hperiod : period.fund = fund.id) :
    (runningOf db fund lp period).contributedToDate.val =
      Money.worth (contributedThrough db a.id period) := by
  subst hlp
  have hlook := h.accounted.ready.lookup_capital h.account h.capital
  rw [Accounted.contributedToDate_runningOf]
  have hsum := h.accounted.sum_contributions h.account h.capital period
  have hid : capitalAccountId db fund c.lp = a.id := capitalAccountId_of_lookup hlook
  rw [← hid] at hsum
  refine hsum.trans ?_
  rw [hid, contributedThrough, ← h.reversals.sum_callEntries h.accounted.books, map_neg]
  congr 3
  refine List.filter_congr fun e he => ?_
  cases hcall : isCallOn db a.id e with
  | false => rw [Bool.false_and, Bool.false_and]
  | true =>
    have hf := Accounted.entryFund_of_capital h.account h.capital (of_decide_eq_true hcall).1
    obtain ⟨r, hr, hrf, her, hcut⟩ := h.accounted.exists_period he hf
    rw [hcut, her, Option.any_some, startsAfter, Table.get?_of_mem hr, Option.any_some,
      Bool.true_and, Bool.true_and, ← decide_not]
    exact decide_eq_decide.mpr ⟨fun hle hboth => absurd hboth.2 (not_lt.mpr hle),
      fun hnot => not_lt.mp fun hlt => hnot ⟨hrf.trans hperiod.symm, hlt⟩⟩

end PartnerBooks

theorem Genesis.contributedThrough {db : Db} (h : Genesis db) (account : Uuid) (period : Period) :
    contributedThrough db account period = 0 := by
  unfold FundLedger.contributedThrough netPaidIn callsMade callsReversed
  rw [h.transfers]
  rfl

/-! ## The statements -/

/-- A statement with a possible unfunded commitment. -/
structure WithinCommitment (s : CapitalAccountStatement) : Prop where
  contributed_nonneg : 0 ≤ s.contributedToDate.val
  contributed_le : s.contributedToDate.val ≤ s.commitment.val
  unfunded_nonneg : 0 ≤ s.unfundedCommitment.val
  unfunded_le : s.unfundedCommitment.val ≤ s.commitment.val

theorem PartnerBooks.withinCommitment {db : Db} {fund : Fund} {c : Commitment} {a : Account}
    {period : Period} (h : PartnerBooks db fund c a) (hperiod : period.fund = fund.id)
    (horder : InOrder db period)
    (hbound : FundLedger.contributedThrough db a.id period ≤ c.committedAmount)
    {lp : LimitedPartner} (hlp : c.lp = lp.id) :
    WithinCommitment (statementOf fund lp period c.committedAmount.toDec
      (runningOf db fund lp.id period)) := by
  have hdate := h.contributedToDate hlp hperiod
  have hnonneg : 0 ≤ Money.worth (FundLedger.contributedThrough db a.id period) := by
    rw [← map_zero Money.worth]
    exact Money.worth_le.mpr (h.contributedThrough_nonneg horder)
  have hle : Money.worth (FundLedger.contributedThrough db a.id period) ≤
      c.committedAmount.toDec.val := by
    rw [Money.val_toDec_eq]
    exact Money.worth_le.mpr hbound
  rw [← hdate] at hnonneg hle
  refine ⟨hnonneg, hle, ?_, ?_⟩
  · show 0 ≤ (c.committedAmount.toDec - (runningOf db fund lp.id period).contributedToDate).val
    rw [Dec.val_sub]
    exact sub_nonneg.mpr hle
  · show (c.committedAmount.toDec - (runningOf db fund lp.id period).contributedToDate).val ≤
      c.committedAmount.toDec.val
    rw [Dec.val_sub]
    exact sub_le_self _ hnonneg

/-- **What a statement shows as unfunded is possible**: for the last period
always, and for any period up to which the transfers were posted in order. -/
theorem unfunded_within_commitment {db : Db} {fund : Fund} (genesis : Genesis db)
    (ready : Ready db fund) {calls : List Call} (business : ∀ c ∈ calls, c.op.IsBusiness)
    {c : Commitment} (hc : c ∈ commitmentsOf db fund.id) {lp : LimitedPartner} (hlp : c.lp = lp.id) :
    ∃ statement : Period → CapitalAccountStatement,
      (∀ p ∈ (afterCalls db calls).periods, p.fund = fund.id → ∀ order,
        lpStatement (afterCalls db calls) order fund lp p = .ok (statement p)) ∧
      (∀ p, LastPeriod (afterCalls db calls) fund.id p → WithinCommitment (statement p)) ∧
      ∀ p ∈ (afterCalls db calls).periods, p.fund = fund.id → InOrder (afterCalls db calls) p →
        WithinCommitment (statement p) := by
  have hrun := afterCalls_business business db
  obtain ⟨a, hbooks⟩ := genesis.partnerBooks ready hc
  have hin : ∀ p : Period, p.fund = fund.id → InOrder (afterCalls db calls) p → WithinCommitment
      (statementOf fund lp p c.committedAmount.toDec
        (runningOf (afterCalls db calls) fund lp.id p)) := by
    intro p hp horder
    have hstart : contributedThrough db a.id p ≤ c.committedAmount := by
      rw [genesis.contributedThrough]
      exact (ready.positive c hc).le
    obtain ⟨hend, hbound⟩ := hbooks.contributedThrough_le hrun hp hstart horder
    exact hend.withinCommitment hp horder hbound hlp
  have haccounted : Accounted (afterCalls db calls) fund :=
    (genesis.accounted ready).afterCalls business
  have hcommitments : c ∈ commitmentsOf (afterCalls db calls) fund.id := by
    rw [commitmentsOf, (later_afterCalls db calls).extends.commitments]
    exact hc
  refine ⟨fun p => statementOf fund lp p c.committedAmount.toDec
    (runningOf (afterCalls db calls) fund lp.id p), fun p _ _ order => ?_,
    fun p hlast => hin p hlast.fund_eq hlast.inOrder, fun p _ hp horder => hin p hp horder⟩
  exact haccounted.lpStatement_eq order hcommitments hlp p

theorem unfunded_within_commitment_callsOfAYear : ∃ statement : Period → CapitalAccountStatement,
    (∀ p ∈ (afterCalls buildPeFund callsOfAYear).periods, p.fund = makeFund.id → ∀ order,
      lpStatement (afterCalls buildPeFund callsOfAYear) order makeFund { id := 11, name := "LP 1" }
        p = .ok (statement p)) ∧
    (∀ p, LastPeriod (afterCalls buildPeFund callsOfAYear) makeFund.id p →
      WithinCommitment (statement p)) ∧
    ∀ p ∈ (afterCalls buildPeFund callsOfAYear).periods, p.fund = makeFund.id →
      InOrder (afterCalls buildPeFund callsOfAYear) p → WithinCommitment (statement p) := by
  have hbusiness : ∀ c ∈ callsOfAYear, c.op.IsBusiness := by
    simp [callsOfAYear, callOf100, Op.IsBusiness]
  have hcommitment : { id := 31, fund := 1, lp := 11, committedAmount := 6000000 } ∈
      commitmentsOf buildPeFund makeFund.id := by decide +kernel
  exact unfunded_within_commitment genesis_buildPeFund ready_buildPeFund hbusiness hcommitment rfl

/-- **Out of order it is not.**  A call taken back into an earlier period is
missing there, and a call taken back into a later one still counts there when
the commitment is called again. -/
theorem impossible_unfunded_commitment :
    (∀ c ∈ callTakenBackEarlier, c.op.IsBusiness) ∧
    (∃ s, lpStatement (afterCalls buildPeFund callTakenBackEarlier) (.insertion _) makeFund
      { id := 11, name := "LP 1" } h1 = .ok s ∧ s.contributedToDate.val < 0) ∧
    (∀ c ∈ calledAgain, c.op.IsBusiness) ∧
    ∃ s, lpStatement (afterCalls buildPeFund calledAgain) (.insertion _) makeFund
      { id := 11, name := "LP 1" } h1 = .ok s ∧ s.commitment.val < s.contributedToDate.val := by
  have hshown : ∀ {r : Except Exc CapitalAccountStatement} {x : Dec × Dec},
      (fun s => (s.contributedToDate, s.commitment)) <$> r = .ok x →
      ∃ s, r = .ok s ∧ s.contributedToDate = x.1 ∧ s.commitment = x.2 := by
    intro r x h
    cases r with
    | error e => cases h
    | ok s => cases h; exact ⟨s, rfl, rfl, rfl⟩
  have hearlier : (fun s => (s.contributedToDate, s.commitment)) <$> lpStatement
      (afterCalls buildPeFund callTakenBackEarlier) (.insertion _) makeFund
      { id := 11, name := "LP 1" } h1 = .ok (⟨-600000, -4⟩, ⟨6000000, -4⟩) := by decide +kernel
  have hagain : (fun s => (s.contributedToDate, s.commitment)) <$> lpStatement
      (afterCalls buildPeFund calledAgain) (.insertion _) makeFund
      { id := 11, name := "LP 1" } h1 = .ok (⟨12000000, -4⟩, ⟨6000000, -4⟩) := by decide +kernel
  refine ⟨by simp [callTakenBackEarlier, Op.IsBusiness], ?_, by simp [calledAgain, Op.IsBusiness],
    ?_⟩
  · obtain ⟨s, hs, hdate, -⟩ := hshown hearlier
    refine ⟨s, hs, ?_⟩
    rw [hdate, ← Dec.val_zero, ← Dec.lt_iff]
    decide
  · obtain ⟨s, hs, hdate, hcommitment⟩ := hshown hagain
    refine ⟨s, hs, ?_⟩
    rw [hdate, hcommitment, ← Dec.lt_iff]
    decide

end FundLedger
