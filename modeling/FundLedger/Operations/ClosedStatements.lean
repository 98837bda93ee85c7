import FundLedger.Operations.Chaining
import FundLedger.Operations.Frozen
import FundLedger.Operations.Partners

/-!
# Statements of closed periods

The entries of a closed period are frozen, and so are those of all earlier
periods.  A statement is made of these entries and of the commitments at the
time of asking, which share out the gains and the fees.  So the statement of a
closed period keeps its figures as long as no commitment is added to the fund,
or while there are no gains and fees to share out; a commitment that is added
later takes its share of the gains of the past.
-/

namespace FundLedger

open Lib Relation

/-! ## Closed through a day -/

/-- The periods of the fund up to a start date are closed. -/
def ClosedThrough (db : Db) (fund : Uuid) (start : Date) : Prop :=
  ∀ q ∈ db.periods, q.fund = fund → q.startDate ≤ start → q.status = .CLOSED

theorem Change.periods_cases {Q : Db → Posting → Prop} {db db' : Db} (h : Change Q db db') :
    db'.periods = db.periods ∨
      ∃ period now closedBy, updatePeriod db period now closedBy = .ok db' := by
  cases h with
  | posted known held posted =>
    obtain ⟨transfers, entries, -, -, rfl⟩ := posted.appended
    exact .inl rfl
  | accountOpened inserted =>
    obtain ⟨-, -, -, -, -, accounts, -, rfl⟩ := insertAccount_ok inserted
    exact .inl rfl
  | capitalCall inserted =>
    obtain ⟨-, -, calls, -, rfl⟩ := insertCapitalCall_ok inserted
    exact .inl rfl
  | distribution inserted =>
    obtain ⟨-, -, dists, -, rfl⟩ := insertDistribution_ok inserted
    exact .inl rfl
  | periodClosed updated => exact .inr ⟨_, _, _, updated⟩

theorem GrowthStep.periods_cases {Q : Db → Commitment → Prop} {db db' : Db}
    (h : GrowthStep Q db db') : db'.periods = db.periods ∨
      ∃ period now closedBy, updatePeriod db period now closedBy = .ok db' := by
  cases h with
  | later h =>
    cases h with
    | change hc => exact hc.periods_cases
    | rate inserted =>
      simp only [insertFxRate, except_bind_ok, except_pure] at inserted
      obtain ⟨_, -, _, -, _, -, fxRates, -, _, -, rfl⟩ := inserted
      exact .inl rfl
  | partner inserted =>
    obtain ⟨lps, -, rfl⟩ := insertLp_ok inserted
    exact .inl rfl
  | commitment known inserted =>
    obtain ⟨-, -, -, commitments, -, rfl⟩ := insertCommitment_ok inserted
    exact .inl rfl

/-- A row of the periods after one of them has been closed. -/
theorem mem_updatePeriod {db db' : Db} {period : Uuid} {now : Timestamp} {closedBy : String}
    (h : updatePeriod db period now closedBy = .ok db') {q : Period} (hq : q ∈ db'.periods) :
    ∃ q₀ ∈ db.periods, q₀.fund = q.fund ∧ q₀.startDate = q.startDate ∧ q₀.id = q.id ∧
      (q₀.id = period ∧ q.status = .CLOSED ∨ q₀.id ≠ period ∧ q = q₀) := by
  obtain ⟨-, rfl⟩ := updatePeriod_ok h
  obtain ⟨q₀, hq₀, hrow⟩ := List.mem_map.mp hq
  refine ⟨q₀, hq₀, ?_⟩
  dsimp only at hrow
  by_cases hid : q₀.id = period
  · rw [if_pos (decide_eq_true hid)] at hrow
    subst hrow
    exact ⟨rfl, rfl, rfl, .inl ⟨hid, rfl⟩⟩
  · rw [if_neg fun h => hid (of_decide_eq_true h)] at hrow
    subst hrow
    exact ⟨rfl, rfl, rfl, .inr ⟨hid, rfl⟩⟩

/-- **Closing is final.** -/
theorem ClosedThrough.growthStep {Q : Db → Commitment → Prop} {db db' : Db} {fund : Uuid}
    {start : Date} (h : ClosedThrough db fund start) (hs : GrowthStep Q db db') :
    ClosedThrough db' fund start := by
  rcases hs.periods_cases with hsame | ⟨period, now, closedBy, hupdate⟩
  · rw [ClosedThrough, hsame]
    exact h
  · intro q hq hf hle
    obtain ⟨q₀, hq₀, hf₀, hs₀, -, ⟨-, hclosed⟩ | ⟨-, rfl⟩⟩ := mem_updatePeriod hupdate hq
    · exact hclosed
    · exact h q hq₀ hf hle

/-- A period is closed after the earlier ones. -/
theorem closePeriod_closedThrough {env : Env} {fund periodId : Uuid} {closedBy : String}
    {db db' : Db} {r : Period} (starts : UniqueStarts db)
    (h : closePeriod env fund periodId closedBy db = (.ok (r, true), db')) {p : Period}
    (hp : p ∈ db'.periods) (hid : p.id = periodId) : ClosedThrough db' fund p.startDate := by
  obtain ⟨period, hperiod, ⟨-, hfalse, -⟩ | ⟨-, -, hcheck, hupdate⟩⟩ := closePeriod_ok h
  · cases hfalse
  obtain ⟨hget, hfund⟩ := Option.filter_eq_some_iff.mp (orRaise_eq_ok.mp hperiod)
  obtain ⟨hmem, hpid⟩ := Table.get?_eq_some.mp hget
  have hfund : period.fund = fund := of_decide_eq_true hfund
  obtain ⟨_, hearlier, -⟩ := except_bind_ok.mp hcheck
  have hearlier := require_eq_ok.mp hearlier
  obtain ⟨p₀, hp₀, -, hstart, hpid₀, -⟩ := mem_updatePeriod hupdate hp
  obtain rfl : p₀ = period := Table.eq_of_key_eq hp₀ hmem ((hpid₀.trans hid).trans hpid.symm)
  intro q hq hqf hle
  obtain ⟨q₀, hq₀, hqf₀, hqs₀, -, ⟨-, hclosed⟩ | ⟨hne, rfl⟩⟩ := mem_updatePeriod hupdate hq
  · exact hclosed
  · by_cases hlt : q.startDate < p₀.startDate
    · have hnot := hearlier q hq₀
      cases hstatus : q.status with
      | OPEN => exact absurd ⟨hqf, hlt, hstatus⟩ hnot
      | CLOSED => rfl
    · -- no other period starts on that day
      have hsame : q.startDate = p₀.startDate :=
        le_antisymm (hle.trans_eq hstart.symm) (not_lt.mp hlt)
      obtain rfl := starts q hq₀ p₀ hmem (hqf.trans hfund.symm) hsame
      exact absurd hpid (fun h => hne rfl)

/-! ## What is kept since a closing -/

/-- There are no gains and no fees to share out, in the periods of the fund up
to the given one. -/
def NothingAllocated (db : Db) (fund : Fund) (period : Period) : Prop :=
  ∀ q ∈ db.periods, q.fund = fund.id → q.startDate ≤ period.startDate →
    (gainsOf db fund q.id).val = 0 ∧ (feesOf db fund q.id).val = 0

/-- A commitment that leaves the shares of the past alone. -/
def KeepsShares (fund : Fund) (period : Period) (db : Db) (c : Commitment) : Prop :=
  c.fund = fund.id → NothingAllocated db fund period

/-- What a later database `d` has in common with `db`, which had the period and
all earlier ones closed. -/
structure KeptSince (db : Db) (fund : Fund) (period : Period) (d : Db) : Prop where
  books : Books d
  targets : ReversalTargets d
  wellFormed : WellFormed d fund
  closed : ClosedThrough d fund.id period.startDate
  periods : ∃ f, KeepsOutline f ∧ d.periods.rows = db.periods.rows.map f
  accounts : ∀ a ∈ db.accounts, a ∈ d.accounts
  commitments : ∀ c ∈ db.commitments, c ∈ d.commitments
  frozen : ∀ q ∈ db.periods, q.fund = fund.id → q.startDate ≤ period.startDate →
    FrozenIn db d q.id
  shares : commitmentsOf d fund.id = commitmentsOf db fund.id ∨ NothingAllocated db fund period

namespace KeptSince

variable {db d d' : Db} {fund : Fund} {period : Period}

/-- A period up to the given one is still there, and closed. -/
theorem closed_row (h : KeptSince db fund period d) {q : Period} (hq : q ∈ db.periods)
    (hf : q.fund = fund.id) (hle : q.startDate ≤ period.startDate) :
    ∃ r ∈ d.periods, r.id = q.id ∧ r.fund = fund.id ∧ r.startDate ≤ period.startDate ∧
      r.status = .CLOSED := by
  obtain ⟨f, hkeep, hrows⟩ := h.periods
  have hr : f q ∈ d.periods := by
    rw [← Table.mem_rows, hrows]
    exact List.mem_map_of_mem hq
  obtain ⟨hid, hfund, hstart, -⟩ := hkeep q
  exact ⟨f q, hr, hid, hfund.trans hf, hstart.trans_le hle,
    h.closed (f q) hr (hfund.trans hf) (hstart.trans_le hle)⟩

theorem nothingAllocated (h : KeptSince db fund period d)
    (hnone : NothingAllocated d fund period) : NothingAllocated db fund period := by
  intro q hq hf hle
  obtain ⟨r, hr, hid, hrf, hrle, -⟩ := h.closed_row hq hf hle
  have hfrozen := h.frozen q hq hf hle
  have hzero := hnone r hr hrf hrle
  rw [hid, gainsOf, feesOf, hfrozen.fundTotal, hfrozen.fundTotal] at hzero
  exact hzero

/-- **One step**: nothing is posted to a closed period. -/
theorem growthStep (h : KeptSince db fund period d)
    (hs : GrowthStep (KeepsShares fund period) d d') : KeptSince db fund period d' := by
  have hgrows := hs.grows
  obtain ⟨f, hf, hrows⟩ := h.periods
  obtain ⟨g, hg, hrows'⟩ := hgrows.periods
  have hstep : ReversalTargets d' ∧ ∀ q ∈ db.periods, q.fund = fund.id →
      q.startDate ≤ period.startDate → FrozenIn d d' q.id := by
    obtain ⟨env, a, es, -, posted⟩ | keeps := hs.posted_or_keeps
    · refine ⟨posted.reversalTargets h.targets, fun q hq hqf hle => ?_⟩
      obtain ⟨r, hr, hid, -, -, hclosed⟩ := h.closed_row hq hqf hle
      obtain ⟨p, hp, hpid, hopen⟩ := posted.period_open
      refine posted.frozenIn h.books h.targets fun heq => ?_
      obtain rfl : p = r := Table.eq_of_key_eq hp hr (hpid.trans (heq.trans hid.symm))
      cases hopen.symm.trans hclosed
    · exact ⟨keeps.reversalTargets h.targets, fun q _ _ _ => keeps.frozenIn h.books q.id⟩
  refine ⟨h.books.growthStep hs, hstep.1, h.wellFormed.growthStep hs, h.closed.growthStep hs,
    ⟨g ∘ f, fun p => ?_, ?_⟩, fun a ha => hgrows.accounts.subset (h.accounts a ha),
    fun c hc => hgrows.commitments.subset (h.commitments c hc),
    fun q hq hqf hle => (h.frozen q hq hqf hle).trans (hstep.2 q hq hqf hle), ?_⟩
  · obtain ⟨hi, hfu, hst, he⟩ := hf p
    obtain ⟨gi, gfu, gst, ge⟩ := hg (f p)
    exact ⟨gi.trans hi, gfu.trans hfu, gst.trans hst, ge.trans he⟩
  · rw [hrows', hrows, List.map_map]
  · have hshares := h.shares
    cases hs with
    | later hl =>
      rw [commitmentsOf, hl.extends.commitments]
      exact hshares
    | partner inserted =>
      obtain ⟨lps, -, rfl⟩ := insertLp_ok inserted
      exact hshares
    | @commitment c _ _ known inserted =>
      obtain ⟨-, -, -, commitments, hins, rfl⟩ := insertCommitment_ok inserted
      by_cases hcf : c.fund = fund.id
      · exact .inr (h.nothingAllocated (known hcf))
      · refine hshares.imp_left fun hsame => ?_
        have hnew : [c].filter (fun c => c.fund = fund.id) = [] := by
          rw [List.filter_singleton, decide_eq_false hcf]
          rfl
        rw [commitmentsOf, (Table.insert_eq_some.mp hins).2, List.filter_append, hnew,
          List.append_nil]
        exact hsame

/-! ## The statement -/

/-- Nothing is allotted of nothing. -/
theorem portion_of_zero {db : Db} {fund : Fund} {total : Dec} (h : total.val = 0) (lp : Uuid) :
    portion db fund total lp = Dec.times 0 fourDp := by
  have hunits : unitsOf total fourDp = 0 := by
    rw [unitsOf, Dec.val_abs, h, abs_zero, zero_div]
  rw [portion, allotted, hunits]
  dsimp only [Rat.num_zero, Int.toNat_zero]
  rw [LargestRemainder.share_zero, mul_zero]

/-- **A partner's movement** in a period up to the given one is the same. -/
theorem movementOf (h : KeptSince db fund period d) {lp : Uuid} {a : Account}
    (hlook : lookup (lpCapitalAccounts db fund) lp = .ok a) {q : Period} (hq : q ∈ db.periods)
    (hf : q.fund = fund.id) (hle : q.startDate ≤ period.startDate) :
    movementOf d fund lp q.id = FundLedger.movementOf db fund lp q.id := by
  obtain ⟨ha, hca⟩ := lookup_capital_mem hlook
  have hlook' := h.wellFormed.lookup_capital (h.accounts a ha) hca
  have hfrozen := h.frozen q hq hf hle
  have hgains : gainsOf d fund q.id = gainsOf db fund q.id := by
    rw [gainsOf, gainsOf, hfrozen.fundTotal]
  have hfees : feesOf d fund q.id = feesOf db fund q.id := by
    rw [feesOf, feesOf, hfrozen.fundTotal]
  have hportion : ∀ total, total = gainsOf db fund q.id ∨ total = feesOf db fund q.id →
      portion d fund total lp = portion db fund total lp := by
    intro total htotal
    rcases h.shares with hsame | hnone
    · rw [portion, portion, fundWeights, fundWeights, hsame]
    · obtain ⟨hzero, hzero'⟩ := hnone q hq hf hle
      have hval : total.val = 0 := by
        rcases htotal with rfl | rfl
        · exact hzero
        · exact hzero'
      rw [portion_of_zero hval, portion_of_zero hval]
  rw [FundLedger.movementOf, FundLedger.movementOf, capitalAccountId_of_lookup hlook,
    capitalAccountId_of_lookup hlook', hfrozen.lpLedgerMovement, hgains, hfees,
    hportion _ (.inl rfl), hportion _ (.inr rfl)]

theorem periodsThrough (h : KeptSince db fund period d) : ∃ f, KeepsOutline f ∧
    periodsThrough d fund.id period.startDate =
      (FundLedger.periodsThrough db fund.id period.startDate).map f := by
  obtain ⟨f, hf, hrows⟩ := h.periods
  exact ⟨f, hf, periodsThrough_of_rows hf hrows fund.id period.startDate⟩

theorem runningOf (h : KeptSince db fund period d) {lp : Uuid} {a : Account}
    (hlook : lookup (lpCapitalAccounts db fund) lp = .ok a) :
    runningOf d fund lp period = FundLedger.runningOf db fund lp period := by
  obtain ⟨f, hf, hthrough⟩ := h.periodsThrough
  rw [FundLedger.runningOf, FundLedger.runningOf, hthrough, List.foldl_map]
  refine List.foldl_ext _ _ _ fun r q hq => ?_
  obtain ⟨hq, hqf, hle⟩ := mem_periodsThrough.mp hq
  rw [addPeriod, addPeriod, (hf q).1, h.movementOf hlook hq hqf hle]

/-- **The statement of a closed period is the same later.** -/
theorem lpStatement (h : KeptSince db fund period d) (wellFormed : WellFormed db fund)
    {order : RowOrder Commitment} {lp : LimitedPartner} {s : CapitalAccountStatement}
    (shown : lpStatement db order fund lp period = .ok s) (order' : RowOrder Commitment) :
    FundLedger.lpStatement d order' fund lp period = .ok s := by
  -- a statement that was made was of a partner with a commitment and an account
  obtain ⟨commitment, hcommitment, hrest⟩ := except_bind_ok.mp shown
  obtain ⟨a, hlook, -⟩ := except_bind_ok.mp hrest
  obtain ⟨c, hc, hlp⟩ : ∃ c ∈ commitmentsOf db fund.id, c.lp = lp.id := by
    cases hget : (commitmentWeights (order.order (commitmentsOf db fund.id))).get? lp.id with
    | none =>
      rw [hget] at hcommitment
      cases hcommitment
    | some i =>
      obtain ⟨hi, hkey⟩ := Table.get?_eq_some.mp hget
      rw [← Table.mem_rows, wellFormed.rows_commitmentWeights (order.perm _), List.mem_map] at hi
      obtain ⟨c, hc, rfl⟩ := hi
      exact ⟨c, (order.perm _).mem_iff.mp hc, hkey⟩
  have hc' : c ∈ commitmentsOf d fund.id := by
    obtain ⟨hcm, hcf⟩ := List.mem_filter.mp hc
    exact List.mem_filter.mpr ⟨h.commitments c hcm, hcf⟩
  obtain ⟨ha, hca⟩ := lookup_capital_mem hlook
  have hlook' := h.wellFormed.lookup_capital (h.accounts a ha) hca
  rw [wellFormed.lpStatement_eq order hc hlp hlook period] at shown
  rw [h.wellFormed.lpStatement_eq order' hc' hlp hlook' period, h.runningOf hlook]
  exact shown

end KeptSince

/-! ## Runs -/

/-- The commitments that an action may insert leave the shares of the past
alone. -/
def Action.KeepsShares (fund : Fund) (period : Period) (db : Db) : Action → Prop
  | .commit _ c => FundLedger.KeepsShares fund period db c
  | _ => True

/-- So do those of a whole run. -/
def AllKeepShares (fund : Fund) (period : Period) : Db → List Action → Prop
  | _, [] => True
  | db, a :: actions => a.KeepsShares fund period db ∧ AllKeepShares fund period (a.run db) actions

theorem Action.run_keepsShares {fund : Fund} {period : Period} {db : Db} {a : Action}
    (h : a.KeepsShares fund period db) :
    Growth (FundLedger.KeepsShares fund period) db (a.run db) := by
  refine Action.run_growth fun env c ha => ?_
  subst ha
  exact h

theorem afterActions_keepShares {fund : Fund} {period : Period} : ∀ {actions : List Action} {db : Db},
    AllKeepShares fund period db actions →
      Growth (KeepsShares fund period) db (afterActions db actions)
  | [], _, _ => .refl
  | _ :: _, _, h => (Action.run_keepsShares h.1).trans (afterActions_keepShares h.2)

theorem afterActions_growth {Q : Db → Commitment → Prop} (hQ : ∀ db c, Q db c) :
    ∀ {actions : List Action} {db : Db}, Growth Q db (afterActions db actions)
  | [], _ => .refl
  | _ :: _, _ => (Action.run_growth fun _ _ _ => hQ _ _).trans (afterActions_growth hQ)

/-- What holds of a fund at any time. -/
structure Founded (db : Db) (fund : Fund) : Prop where
  books : Books db
  targets : ReversalTargets db
  wellFormed : WellFormed db fund
  starts : UniqueStarts db

theorem Founded.growthStep {Q : Db → Commitment → Prop} {db db' : Db} {fund : Fund}
    (h : Founded db fund) (hs : GrowthStep Q db db') : Founded db' fund := by
  refine ⟨h.books.growthStep hs, ?_, h.wellFormed.growthStep hs,
    h.starts.of_periods hs.grows.periods⟩
  obtain ⟨env, a, es, -, posted⟩ | keeps := hs.posted_or_keeps
  · exact posted.reversalTargets h.targets
  · exact keeps.reversalTargets h.targets

/-- **The statement of a closed period keeps its figures**, all of them, over
any run that adds no commitment to the fund, or only while there are no gains
and fees up to the period. -/
theorem closed_statement_kept {db db₂ : Db} {fund : Fund} (genesis : Genesis db)
    (wellFormed : WellFormed db fund) (starts : UniqueStarts db) {before : List Action} {env : Env}
    {periodId : Uuid} {closedBy : String} {r period : Period}
    (closed : closePeriod env fund.id periodId closedBy (afterActions db before) =
      (.ok (r, true), db₂))
    (hp : period ∈ db₂.periods) (hid : period.id = periodId) {order : RowOrder Commitment}
    {lp : LimitedPartner} {s : CapitalAccountStatement}
    (shown : lpStatement db₂ order fund lp period = .ok s) {later : List Action}
    (keep : AllKeepShares fund period db₂ later) (order' : RowOrder Commitment) :
    lpStatement (afterActions db₂ later) order' fund lp period = .ok s := by
  have hstart : Founded db fund :=
    ⟨genesis.books, genesis.reversalTargets, wellFormed, starts⟩
  have hbefore : Growth (fun _ _ => True) db (afterActions db before) :=
    afterActions_growth fun _ _ => trivial
  have h₁ : Founded (afterActions db before) fund :=
    hbefore.invariant (I := fun d => Founded d fund) (fun _ _ h hs => h.growthStep hs) hstart
  have hclose : Growth (fun _ _ => True) (afterActions db before) db₂ := by
    have hchanges := @closePeriod_changes env fund.id periodId closedBy (afterActions db before)
    rw [closed] at hchanges
    exact hchanges.later.growth
  have h₂ : Founded db₂ fund :=
    hclose.invariant (I := fun d => Founded d fund) (fun _ _ h hs => h.growthStep hs) h₁
  have hkept : KeptSince db₂ fund period db₂ :=
    ⟨h₂.books, h₂.targets, h₂.wellFormed, closePeriod_closedThrough h₁.starts closed hp hid,
      (Extends.refl db₂).periods, fun _ ha => ha, fun _ hc => hc,
      fun q _ _ _ => FrozenIn.refl db₂ q.id, .inl rfl⟩
  have hlater : KeptSince db₂ fund period (afterActions db₂ later) :=
    (afterActions_keepShares keep).invariant (I := KeptSince db₂ fund period)
      (fun _ _ h hs => h.growthStep hs) hkept
  exact hlater.lpStatement h₂.wellFormed shown order'

/-! ## A closed period of the fund -/

/-- A call and a gain of 100 in the first period. -/
def gainOf100 : List Action := [
  .call callOf100,
  .call { env := envOf 2 40, op := .recordValuation 1 "mark" (.finite ⟨100, 0⟩) 40 }]

/-- The first period is closed. -/
def closedH1 : Db := (closePeriod (envOf 3 200) 1 21 "" (afterActions buildPeFund gainOf100)).2

theorem closePeriod_closedH1 : ∃ r, closePeriod (envOf 3 200) makeFund.id 21 ""
    (afterActions buildPeFund gainOf100) = (.ok (r, true), closedH1) := by
  have hclosed : Prod.snd <$> (closePeriod (envOf 3 200) 1 21 ""
      (afterActions buildPeFund gainOf100)).1 = .ok true := by decide +kernel
  exact created_of_snd hclosed

/-- A statement from one of the figures that it shows. -/
theorem shown_of_allocatedGains {r : Except Exc CapitalAccountStatement} {x : Dec}
    (h : CapitalAccountStatement.allocatedGains <$> r = .ok x) :
    ∃ s, r = .ok s ∧ s.allocatedGains = x := by
  cases r with
  | error e => cases h
  | ok s =>
    cases h
    exact ⟨s, rfl, rfl⟩

theorem lpStatement_closedH1 : ∃ s, lpStatement closedH1 (.insertion _) makeFund
    { id := 11, name := "LP 1" } (h1.close 3 "") = .ok s ∧ s.allocatedGains = ⟨600000, -4⟩ :=
  shown_of_allocatedGains (by decide +kernel)

/-- A fee in the second period, a rate, and a partner without a commitment. -/
def feeLater : List Action := [
  .call { env := envOf 4 200, op := .chargeFee 1 "fee" (.finite ⟨333, -2⟩) 190 },
  .publish rateOf80,
  .newPartner { id := 13, name := "LP 3" }]

theorem closed_statement_kept_feeLater : ∃ s,
    lpStatement closedH1 (.insertion _) makeFund { id := 11, name := "LP 1" }
      (h1.close 3 "") = .ok s ∧
    lpStatement (afterActions closedH1 feeLater) (.insertion _) makeFund
      { id := 11, name := "LP 1" } (h1.close 3 "") = .ok s := by
  have hstarts : UniqueStarts buildPeFund := by
    show ∀ p ∈ buildPeFund.periods.rows, ∀ q ∈ buildPeFund.periods.rows, _
    decide +kernel
  have hperiod : h1.close 3 "" ∈ closedH1.periods.rows := by decide +kernel
  have hclose := closePeriod_closedH1
  have hshown := lpStatement_closedH1
  generalize closedH1 = db₂ at hperiod hclose hshown ⊢
  obtain ⟨r, hclosed⟩ := hclose
  obtain ⟨s, hs, -⟩ := hshown
  have hkeep : AllKeepShares makeFund (h1.close 3 "") db₂ feeLater :=
    ⟨trivial, trivial, trivial, trivial⟩
  exact ⟨s, hs, closed_statement_kept genesis_buildPeFund ready_buildPeFund.toWellFormed hstarts
    hclosed hperiod rfl hs hkeep _⟩

/-- A third partner commits as much as the first two together. -/
def thirdPartner : List Action := [
  .newPartner { id := 13, name := "LP 3" },
  .commit (envOf 4 200) { id := 33, fund := 1, lp := 13, committedAmount := 10000000 }]

/-- **The third partner takes half of the gain of the closed period.** -/
theorem restated_by_thirdPartner :
    (∃ r, closePeriod (envOf 3 200) makeFund.id 21 "" (afterActions buildPeFund gainOf100) =
      (.ok (r, true), closedH1)) ∧
    ∃ s s', lpStatement closedH1 (.insertion _) makeFund { id := 11, name := "LP 1" }
        (h1.close 3 "") = .ok s ∧
      lpStatement (afterActions closedH1 thirdPartner) (.insertion _) makeFund
        { id := 11, name := "LP 1" } (h1.close 3 "") = .ok s' ∧
      s.allocatedGains = ⟨600000, -4⟩ ∧ s'.allocatedGains = ⟨300000, -4⟩ := by
  have hafter : CapitalAccountStatement.allocatedGains <$> lpStatement
      (afterActions closedH1 thirdPartner) (.insertion _) makeFund { id := 11, name := "LP 1" }
      (h1.close 3 "") = .ok ⟨300000, -4⟩ := by decide +kernel
  obtain ⟨s, hs, hgains⟩ := lpStatement_closedH1
  obtain ⟨s', hs', hgains'⟩ := shown_of_allocatedGains hafter
  exact ⟨closePeriod_closedH1, s, s', hs, hs', hgains, hgains'⟩

end FundLedger
