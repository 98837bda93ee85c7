import FundLedger.Ledger.Classes
import FundLedger.Operations.Documents
import FundLedger.Operations.Unfunded

/-!
# Drawing down the commitments

Each capital call is split into pennies on its own, and the check of
`create_capital_call` compares what a partner has paid in with its commitment.
So a call for all that is left need not pass: its shares sum to what is left,
but a partner that got the odd penny of several calls has less left than its
share.  `DrawsDown` says when the shares of all the calls make up the
commitments, and `remaining_call_rejected_iff` that this decides.
-/

namespace FundLedger

open Lib

/-- What a partner is called for when the total is called. -/
def calledFor (db : Db) (fund : Fund) (total : Dec) (lp : Uuid) : ℚ :=
  (allotted (id : Uuid → ℕ) total (fundWeights db fund) penny lp).val

/-- A business posting that is no reversal, and no capital call of the fund. -/
structure Elsewhere (fund : Uuid) (db : Db) (a : Posting) : Prop where
  business : Business db a
  not_reversal : a.transferType ≠ .REVERSAL
  other_fund : a.transferType = .CAPITAL_CALL → a.period.fund ≠ fund

/-- Accepted capital calls of a fund, one after the other, with their totals.
Between them anything else may happen, reversals apart. -/
inductive CapitalCalls (fund : Uuid) (start : Db) : List Dec → Db → Prop
  | none : CapitalCalls fund start [] start
  | other {totals : List Dec} {db db' : Db} (earlier : CapitalCalls fund start totals db)
      (change : Change (Elsewhere fund) db db') : CapitalCalls fund start totals db'
  | call {totals : List Dec} {db : Db} (earlier : CapitalCalls fund start totals db) {env : Env}
      {key : String} {total : Dec} {noticeDate dueDate : Date} {createdBy : String}
      {document : CapitalCall} {db' : Db}
      (accepted : createCapitalCall env fund key (.finite total) noticeDate dueDate createdBy db =
        (.ok (document, true), db')) : CapitalCalls fund start (totals ++ [total]) db'

/-- The shares of the calls and of one for `remaining` make up each
commitment. -/
def DrawsDown (db : Db) (fund : Fund) (totals : List Dec) (remaining : Dec) : Prop :=
  ∀ c ∈ commitmentsOf db fund.id,
    (totals.map fun total => calledFor db fund total c.lp).sum +
      calledFor db fund remaining c.lp = Money.worth c.committedAmount

/-! ## What a call pays in -/

section

variable {db db' : Db} {fund : Fund} {c : Commitment} {a : Account}

/-- A call is a sequence of changes. -/
theorem createCapitalCall_run {env : Env} {fundId : Uuid} {key : String} {total : Amount}
    {noticeDate dueDate : Date} {createdBy : String} {r : Except Exc (CapitalCall × Bool)}
    (h : createCapitalCall env fundId key total noticeDate dueDate createdBy db = (r, db')) :
    Changes Business db db' := by
  have hmoved : Changes Business db
      (createCapitalCall env fundId key total noticeDate dueDate createdBy db).2 :=
    createCapitalCall_changes
  rw [h] at hmoved
  exact hmoved

/-- What a creating call posted. -/
theorem createCapitalCall_posted {env : Env} {fundId : Uuid} {key : String} {total : Amount}
    {noticeDate dueDate : Date} {createdBy : String} {document : CapitalCall}
    (h : createCapitalCall env fundId key total noticeDate dueDate createdBy db =
      (.ok (document, true), db')) :
    ∃ posting es db₁, Posted env posting db db₁ es ∧ posting.transferType = .CAPITAL_CALL ∧
      document.transfer = (transferFor env posting).id ∧ db'.transfers = db₁.transfers ∧
      db'.entries = db₁.entries := by
  obtain ⟨units, db₀, hlift, hidem⟩ := Tx.bind_ok.mp h
  obtain ⟨-, hdb₀⟩ := Tx.lift_eq.mp hlift
  subst hdb₀
  have hreplay : ∀ t, Tx.ReadOnly (capitalCallOf t) := fun t =>
    .bind Tx.readOnly_read fun _ => Tx.readOnly_lift _
  rcases runIdempotent_ok hreplay hidem with ⟨-, -, hcreate⟩ | ⟨hfalse, -⟩
  · obtain ⟨plan, es, db₁, units, -, posted, -, hdocument, hins⟩ := postCapitalCall_ok hcreate
    obtain ⟨-, -, calls, -, rfl⟩ := insertCapitalCall_ok hins
    exact ⟨_, es, db₁, posted, rfl, by rw [hdocument]; rfl, rfl, rfl⟩
  · cases hfalse

/-- One entry, or none, pays in its amount. -/
theorem paidIn_of_movedBy {share : Dec} {transfer account : Uuid}
    (hmoved : MovedBy .CREDIT share (group Entry.account account (entriesOf db transfer)))
    (hpar : ∀ e ∈ entriesOf db transfer, e.baseAmount = e.amount) :
    Money.worth (paidIn db account transfer) = share.val := by
  unfold MovedBy at hmoved
  rw [paidIn]
  split at hmoved
  · rename_i hzero
    rw [hmoved, sumBy_nil, neg_zero, map_zero, hzero]
  · obtain ⟨e, hone, hcredit, hworth⟩ := hmoved
    have he : e ∈ group Entry.account account (entriesOf db transfer) := by
      rw [hone]
      exact List.mem_cons_self
    rw [hone, sumBy_cons, sumBy_nil, add_zero, Entry.signedBaseAmount, hcredit,
      hpar e (mem_group.mp he).1]
    show Money.worth (- -e.amount) = _
    rw [neg_neg, hworth]

/-- What happens elsewhere pays nothing in. -/
theorem contributed_elsewhere (h : PartnerBooks db fund c a)
    (hc : Change (Elsewhere fund.id) db db') : contributed db' a.id = contributed db a.id := by
  have hchanges : Changes Business db db' :=
    Changes.mono (fun _ _ hposting => hposting.business) (.single hc)
  have h' : PartnerBooks db' fund c a :=
    hchanges.invariant (I := fun d => PartnerBooks d fund c a) (fun _ _ h hc => h.change hc) h
  rw [h.reversals.contributed_eq h.accounted.books,
    h'.reversals.contributed_eq h'.accounted.books]
  rcases hc.posted_or_keeps with ⟨env, p, es, elsewhere, -, posted⟩ | keeps
  · by_cases hcall : p.transferType = .CAPITAL_CALL
    · rw [posted.netPaidIn_call h.reversals hcall, h.paidIn_other_fund posted
        (elsewhere.other_fund hcall), ite_self, add_zero]
    · exact posted.netPaidIn_other h.reversals hcall elsewhere.not_reversal a.id _
  · exact keeps.netPaidIn a.id _

/-- **A call pays in the share of each partner.** -/
theorem contributed_of_call (h : PartnerBooks db fund c a) {env : Env} {key : String} {total : Dec}
    {noticeDate dueDate : Date} {createdBy : String} {document : CapitalCall}
    (hrun : createCapitalCall env fund.id key (.finite total) noticeDate dueDate createdBy db =
      (.ok (document, true), db')) :
    Money.worth (contributed db' a.id) =
      Money.worth (contributed db a.id) + calledFor db fund total c.lp := by
  have ready := h.accounted.ready
  have books := h.accounted.books
  have hbooks' : PartnerBooks db' fund c a :=
    (createCapitalCall_run hrun).invariant (I := fun d => PartnerBooks d fund c a)
      (fun _ _ h hc => h.change hc) h
  obtain ⟨posting, es, db₁, posted, hkind, htransfer, htransfers, hentries⟩ :=
    createCapitalCall_posted hrun
  obtain ⟨-, -, -, -, -, cash, shares, -, hshares, hmoves⟩ :=
    createCapitalCall_documented ready books hrun
  -- the share on the capital account of the partner
  obtain ⟨share, hshare, b, hb, hcb, hmoved⟩ := hmoves.partners c h.commitment
  obtain rfl : b = a := ready.one_capital_account b hb a h.account c.lp hcb h.capital
  have hvalue : share = allotted (id : Uuid → ℕ) total (fundWeights db fund) penny c.lp :=
    (mem_shares hshares hshare).2
  have hpaid := paidIn_of_movedBy hmoved hmoves.at_par
  -- the posting is the only thing that happened to the contributions
  have hreversals₁ : netPaidIn db' b.id (fun _ => true) = netPaidIn db₁ b.id fun _ => true := by
    unfold netPaidIn callsMade callsReversed paidIn entriesOf effectiveType
    rw [htransfers, hentries]
  have hnet := posted.netPaidIn_call h.reversals hkind b.id fun _ => true
  have hpaid' : paidIn db' b.id document.transfer = paidIn db₁ b.id (transferFor env posting).id := by
    rw [htransfer, paidIn, paidIn, entriesOf, entriesOf, hentries]
  rw [hbooks'.reversals.contributed_eq hbooks'.accounted.books, hreversals₁, hnet, if_pos rfl,
    ← h.reversals.contributed_eq books, map_add, ← hpaid', hpaid, hvalue]
  rfl

end

/-! ## What a run of calls pays in -/

/-- What holds after accepted calls: the commitments are what they were, the
totals are whole pennies, there was somebody to call, and each partner has paid
in its shares. -/
structure CalledSoFar (start : Db) (fund : Fund) (totals : List Dec) (db : Db) : Prop where
  commitments : db.commitments = start.commitments
  pennies : ∀ total ∈ totals, ∃ n : ℤ, total.val = n * penny.val
  partners : totals ≠ [] → commitmentsOf start fund.id ≠ []
  books : ∀ c ∈ commitmentsOf start fund.id, ∃ a, PartnerBooks db fund c a ∧
    Money.worth (contributed db a.id) =
      (totals.map fun total => calledFor start fund total c.lp).sum

/-- What happens elsewhere changes none of this. -/
theorem CalledSoFar.other {start db db' : Db} {fund : Fund} {totals : List Dec}
    (h : CalledSoFar start fund totals db) (hc : Change (Elsewhere fund.id) db db') :
    CalledSoFar start fund totals db' := by
  constructor
  · exact hc.extends.commitments.trans h.commitments
  · exact h.pennies
  · exact h.partners
  · intro c hmem
    obtain ⟨a, hpartner, hpaid⟩ := h.books c hmem
    refine ⟨a, ?_, ?_⟩
    · have hchanges : Changes Business db db' :=
        Changes.mono (fun _ _ hposting => hposting.business) (.single hc)
      exact hchanges.invariant (I := fun d => PartnerBooks d fund c a)
        (fun _ _ h hc => h.change hc) hpartner
    · rw [contributed_elsewhere hpartner hc, hpaid]

theorem penny_val_pos : 0 < penny.val := (Dec.val_pos_iff _).mpr (by decide)

/-- **One more call.** -/
theorem CalledSoFar.call {start db db' : Db} {fund : Fund} {totals : List Dec}
    (h : CalledSoFar start fund totals db) (hready : Ready db fund)
    (hbooks : Books db) {env : Env} {key : String} {total : Dec}
    {noticeDate dueDate : Date} {createdBy : String} {document : CapitalCall}
    (hrun : createCapitalCall env fund.id key (.finite total) noticeDate dueDate createdBy db =
      (.ok (document, true), db')) : CalledSoFar start fund (totals ++ [total]) db' := by
  have hchanges := createCapitalCall_run hrun
  have hweights : fundWeights db fund = fundWeights start fund := by
    rw [fundWeights, fundWeights, commitmentsOf, commitmentsOf, h.commitments]
  obtain ⟨-, -, -, -, -, cash, shares, -, hshares, -⟩ :=
    createCapitalCall_documented hready hbooks hrun
  constructor
  · exact hchanges.later.extends.commitments.trans h.commitments
  · intro t ht
    rcases List.mem_append.mp ht with hold | hnew
    · exact h.pennies t hold
    · rw [List.mem_singleton.mp hnew]
      exact (den_unitsOf_eq_one_iff penny_val_pos).mp (allocate_ok.mp hshares).2.1
  · intro _ hnone
    apply (checkWeights_iff.mp (allocate_ok.mp hshares).1).1
    rw [hweights, fundWeights, hnone]
    rfl
  · intro c hc
    obtain ⟨a, hpartner, hpaid⟩ := h.books c hc
    refine ⟨a, ?_, ?_⟩
    · exact hchanges.invariant (I := fun d => PartnerBooks d fund c a)
        (fun _ _ h hc => h.change hc) hpartner
    · rw [contributed_of_call hpartner hrun, hpaid, List.map_append, List.sum_append,
        List.map_singleton, List.sum_singleton, calledFor, calledFor, hweights]

/-- **The run lemma.** -/
theorem CapitalCalls.calledSoFar {start db : Db} {fund : Fund} {totals : List Dec}
    (calls : CapitalCalls fund.id start totals db) (genesis : Genesis start)
    (ready : Ready start fund) :
    CalledSoFar start fund totals db ∧ Ready db fund ∧ Books db := by
  induction calls with
  | none =>
    refine ⟨⟨rfl, fun t ht => absurd ht List.not_mem_nil, fun h => absurd rfl h, fun c hc => ?_⟩,
      ready, genesis.books⟩
    obtain ⟨a, ha⟩ := genesis.partnerBooks ready hc
    refine ⟨a, ha, ?_⟩
    rw [contributed, genesis.entries, List.filter_nil, sumBy_nil, neg_zero, map_zero, List.map_nil,
      List.sum_nil]
  | other earlier change ih =>
    obtain ⟨hcalled, hready, hbooks⟩ := ih
    exact ⟨hcalled.other change, hready.change change, hbooks.change change⟩
  | @call totals db earlier env key total noticeDate dueDate createdBy document db' accepted ih =>
    obtain ⟨hcalled, hready, hbooks⟩ := ih
    have hchanges := createCapitalCall_run accepted
    refine ⟨hcalled.call hready hbooks accepted, ?_, ?_⟩
    · exact hchanges.invariant (I := fun d => Ready d fund) (fun _ _ h hc => h.change hc) hready
    · exact hchanges.invariant (fun _ _ h hc => h.change hc) hbooks

/-! ## The shares of one total -/

section

variable {db : Db} {fund : Fund}

/-- The sum of the commitments. -/
def committedTotal (db : Db) (fund : Fund) : ℚ :=
  sumBy (fun c => Money.worth c.committedAmount) (commitmentsOf db fund.id)

/-- The shares of a total in whole pennies. -/
def callShares (db : Db) (fund : Fund) (total : Dec) : Dict Uuid Dec :=
  (fundWeights db fund).mapItems fun k _ =>
    allotted (id : Uuid → ℕ) total (fundWeights db fund) penny k

theorem WellFormed.allocate_callShares (h : WellFormed db fund)
    (hpartners : commitmentsOf db fund.id ≠ []) {total : Dec} {n : ℤ}
    (hn : total.val = n * penny.val) :
    allocate (id : Uuid → ℕ) total (fundWeights db fund) = .ok (callShares db fund total) := by
  have hweights : partnerIds db fund ≠ [] := by
    rw [partnerIds]
    simpa using hpartners
  exact allocate_ok.mpr ⟨h.checkWeights_fundWeights hweights,
    (den_unitsOf_eq_one_iff penny_val_pos).mpr ⟨n, hn⟩, rfl⟩

theorem WellFormed.sum_calledFor (h : WellFormed db fund)
    (hpartners : commitmentsOf db fund.id ≠ []) {total : Dec} {n : ℤ}
    (hn : total.val = n * penny.val) :
    sumBy (fun c => calledFor db fund total c.lp) (commitmentsOf db fund.id) = total.val := by
  rw [← allocate_sum penny_val_pos (h.allocate_callShares hpartners hn), Dict.values, callShares,
    Dict.rows_mapItems, List.map_map, sumBy_map]
  show _ = sumBy _ (fundWeights db fund).rows
  rw [fundWeights, h.rows_commitmentWeights (.refl _), sumBy_map]
  rfl

theorem WellFormed.sumBy_weights (h : WellFormed db fund) :
    sumBy (weightOf (fundWeights db fund)) (fundWeights db fund).keys = committedTotal db fund := by
  rw [sumBy_weightOf, Dec.val_sum, Dict.values, fundWeights, h.rows_commitmentWeights (.refl _),
    List.map_map, List.map_map]
  exact congrArg List.sum (List.map_congr_left fun c _ => Money.val_toDec_eq c.committedAmount)

/-- **A share that is a whole number of pennies is what the partner is called
for.** -/
theorem WellFormed.calledFor_exact (h : WellFormed db fund) {total : Dec} {n : ℤ}
    (hn : total.val = n * penny.val) {c : Commitment} (hc : c ∈ commitmentsOf db fund.id) {m : ℤ}
    (hm : total.val * Money.worth c.committedAmount / committedTotal db fund = m * penny.val) :
    calledFor db fund total c.lp = m * penny.val := by
  have hshares := h.allocate_callShares (List.ne_nil_of_mem hc) hn
  have hitem : (c.lp, c.committedAmount.toDec) ∈ fundWeights db fund := by
    rw [← Table.mem_rows, fundWeights, h.rows_commitmentWeights (.refl _)]
    exact List.mem_map_of_mem hc
  have hshare : (c.lp, allotted (id : Uuid → ℕ) total (fundWeights db fund) penny c.lp) ∈
      callShares db fund total := by
    rw [← Table.mem_rows, callShares, Dict.rows_mapItems]
    exact List.mem_map_of_mem hitem
  have hexact := allocate_exactShares penny_val_pos hshares
  obtain ⟨k, hk⟩ := hexact.multiple _ hshare
  have hclose := hexact.close _ hshare
  have hweight : weightOf (fundWeights db fund) c.lp = Money.worth c.committedAmount := by
    rw [weightOf_of_mem hitem]
    exact Money.val_toDec_eq c.committedAmount
  rw [h.sumBy_weights, hweight, hm, hk, ← sub_mul, abs_mul, abs_of_pos penny_val_pos] at hclose
  have hlt : |(k : ℚ) - m| < 1 := by
    by_contra hge
    exact absurd hclose (not_lt.mpr (le_mul_of_one_le_left penny_val_pos.le (not_lt.mp hge)))
  have hkm : k = m := by
    have hint : |k - m| < 1 := by exact_mod_cast hlt
    exact sub_eq_zero.mp (Int.abs_lt_one_iff.mp hint)
  show (allotted (id : Uuid → ℕ) total (fundWeights db fund) penny c.lp).val = _
  rw [hk, hkm]

end

/-! ## The check -/

section

variable {db : Db} {fund : Fund}

/-- What the check knows of a commitment: what was paid in, and the share. -/
def Checked (db : Db) (fund : Fund) (shares : Dict Uuid Dec) (paid share : Commitment → ℚ)
    (c : Commitment) : Prop :=
  ∃ a, PartnerBooks db fund c a ∧ Money.worth (contributed db a.id) = paid c ∧
    ∃ d, lookup shares c.lp = .ok d ∧ d.val = share c

/-- **The check passes when no share is beyond what is left.** -/
theorem checkUnfunded_ok_iff {shares : Dict Uuid Dec} {paid share : Commitment → ℚ}
    {commitments : List Commitment} (h : ∀ c ∈ commitments, Checked db fund shares paid share c) :
    checkUnfunded db commitments (lpCapitalAccounts db fund) shares = .ok () ↔
      ∀ c ∈ commitments, share c ≤ Money.worth c.committedAmount - paid c := by
  unfold checkUnfunded
  rw [forM_except_ok]
  apply forall₂_congr
  intro c hc
  obtain ⟨a, hbooks, hpaid, d, hd, hshare⟩ := h c hc
  simp only [except_bind_ok, require_eq_ok, hd,
    hbooks.accounted.ready.lookup_capital hbooks.account hbooks.capital, Except.ok.injEq,
    exists_eq_left', Dec.lt_iff, not_lt, Dec.val_sub, Money.val_toDec_eq]
  rw [hpaid, hshare]

/-- It raises nothing else. -/
theorem checkUnfunded_class {shares : Dict Uuid Dec} {paid share : Commitment → ℚ}
    {commitments : List Commitment} (h : ∀ c ∈ commitments, Checked db fund shares paid share c)
    {e : Exc} (hraised : checkUnfunded db commitments (lpCapitalAccounts db fund) shares = .error e) :
    ∃ detail, e = .ledger .CommitmentExceeded detail := by
  obtain ⟨c, hc, hraised⟩ := forM_except_error hraised
  obtain ⟨a, hbooks, -, d, hd, -⟩ := h c hc
  rcases except_bind_error.mp hraised with hlookup | ⟨b, -, hraised⟩
  · rw [hbooks.accounted.ready.lookup_capital hbooks.account hbooks.capital] at hlookup
    cases hlookup
  rcases except_bind_error.mp hraised with hlookup | ⟨d', -, hraised⟩
  · rw [hd] at hlookup
    cases hlookup
  · exact ⟨_, (require_eq_error.mp hraised).2.symm⟩

/-- A `ValueError` is raised again as an `InvalidTransfer`. -/
theorem orInvalidTransfer_class {α : Type} (x : Except Message α) {detail : Message} :
    orInvalidTransfer x ≠ .error (.ledger .CommitmentExceeded detail) := by
  intro h
  cases x <;> cases h

/-- Where a `CommitmentExceeded` comes from. -/
theorem planCapitalCall_exceeded {env : Env} {fundId : Uuid} {total : Amount} {noticeDate : Date}
    {detail : Message}
    (h : planCapitalCall env db fundId total noticeDate =
      .error (.ledger .CommitmentExceeded detail)) :
    ∃ fund period commitments shares, getFund db fundId = .ok fund ∧
      periodFor db fund.id noticeDate = .ok period ∧
      proRata env db fund total = .ok (commitments, shares) ∧
      checkUnfunded db commitments (lpCapitalAccounts db fund) shares =
        .error (.ledger .CommitmentExceeded detail) := by
  rcases except_bind_error.mp h with hraised | ⟨fund, hfund, h⟩
  · cases (orRaise_eq_error.mp hraised).2
  rcases except_bind_error.mp h with hraised | ⟨period, hperiod, h⟩
  · cases (orRaise_eq_error.mp hraised).2
  rcases except_bind_error.mp h with hraised | ⟨⟨commitments, shares⟩, hshares, h⟩
  · rcases except_bind_error.mp hraised with hnone | ⟨_, -, hraised⟩
    · cases (require_eq_error.mp hnone).2
    · split at hraised
      · rcases except_bind_error.mp hraised with hinvalid | ⟨_, -, hpure⟩
        · exact absurd hinvalid (orInvalidTransfer_class _)
        · cases hpure
      · rcases except_bind_error.mp hraised with hinvalid | ⟨_, -, hinvalid⟩
        · exact absurd hinvalid (orInvalidTransfer_class _)
        · cases hinvalid
  rcases except_bind_error.mp h with hraised | ⟨_, -, h⟩
  · exact ⟨fund, period, commitments, shares, hfund, hperiod, hshares, hraised⟩
  rcases except_bind_error.mp h with hraised | ⟨cash, -, h⟩
  · rcases except_bind_error.mp hraised with hcode | ⟨code, -, hraised⟩
    · cases hcode
    · cases (orRaise_eq_error.mp hraised).2
  rcases except_bind_error.mp h with hraised | ⟨legs, -, h⟩
  · obtain ⟨-, i, -, -, -, hraised⟩ := mapM_except_error.mp (except_map_error.mp hraised)
    rcases except_bind_error.mp hraised with hdebit | ⟨_, -, hraised⟩
    · cases hdebit
    rcases except_bind_error.mp hraised with hcredit | ⟨_, -, hpure⟩
    · have hlookup := except_map_error.mp (except_map_error.mp hcredit)
      cases (orRaise_eq_error.mp hlookup).2
    · cases hpure
  · cases h

/-- A planned call that is refused is refused by the call. -/
theorem createCapitalCall_exceeded_iff {env : Env} {fundId : Uuid} {key : String} {total : Amount}
    {noticeDate dueDate : Date} {createdBy : String} {detail : Message} :
    (createCapitalCall env fundId key total noticeDate dueDate createdBy db).1 =
        .error (.ledger .CommitmentExceeded detail) ↔
      (∃ text, moneyStr total = .ok text) ∧ transferByKey db key = none ∧
      planCapitalCall env db fundId total noticeDate =
        .error (.ledger .CommitmentExceeded detail) := by
  constructor
  · intro h
    obtain ⟨db', hrun⟩ : ∃ db', createCapitalCall env fundId key total noticeDate dueDate createdBy
        db = (.error (.ledger .CommitmentExceeded detail), db') := ⟨_, Prod.ext h rfl⟩
    rcases Tx.bind_error.mp hrun with htext | ⟨text, db₀, hlift, hidem⟩
    · have hraised := (Tx.lift_eq.mp htext).1
      cases total with
      | finite d => cases (orRaise_eq_error.mp (except_map_error.mp (except_map_error.mp hraised.symm))).2
      | infinite b => cases hraised
      | nan => cases hraised
      | notDecimal t => cases hraised
    · obtain ⟨htext, hdb₀⟩ := Tx.lift_eq.mp hlift
      subst hdb₀
      have hreplay : ∀ t d d', capitalCallOf t d ≠
          (.error (.ledger .CommitmentExceeded detail), d') := by
        intro t d d' hraised
        rw [capitalCallOf, Tx.read_bind] at hraised
        cases (orRaise_eq_error.mp (Tx.lift_eq.mp hraised).1.symm).2
      obtain ⟨hkey, db₁, hcreate⟩ := runIdempotent_error (by decide) hreplay hidem
      refine ⟨⟨text, htext.symm⟩, hkey, ?_⟩
      rw [postCapitalCall, Tx.read_bind] at hcreate
      rcases Tx.bind_error.mp hcreate with hplan | ⟨plan, db₂, -, hcreate⟩
      · exact (Tx.lift_eq.mp hplan).1.symm
      rcases Tx.bind_error.mp hcreate with hpost | ⟨t, db₂, -, hcreate⟩
      · have hclass := postTransfer_class hpost
        simp [postingErrors] at hclass
      rcases Tx.bind_error.mp hcreate with hstored | ⟨units, db₂, -, hcreate⟩
      · have hraised := (Tx.lift_eq.mp hstored).1.symm
        cases total with
        | finite d => cases (orRaise_eq_error.mp hraised).2
        | infinite b => cases hraised
        | nan => cases hraised
        | notDecimal t => cases hraised
      rcases Tx.bind_error.mp hcreate with hins | ⟨_, db₃, -, hpure⟩
      · have hraised := (Tx.statement_error.mp hins).1
        simp [insertCapitalCall, except_bind_error, pure, Except.pure] at hraised
      · cases (Tx.pure_eq.mp hpure).1
  · rintro ⟨⟨text, htext⟩, hkey, hplan⟩
    have hcreate : postCapitalCall env fundId key total noticeDate dueDate createdBy
        (.capitalCall fundId text noticeDate dueDate) db =
          (.error (.ledger .CommitmentExceeded detail), db) := by
      rw [postCapitalCall, Tx.read_bind, Tx.bind_apply, Tx.lift, hplan]
    rw [createCapitalCall, Tx.bind_apply, Tx.lift, htext]
    exact congrArg Prod.fst (runIdempotent_of_create_error hkey hcreate)

end

/-! ## The call for what is left -/

/-- Every share of every call was a whole number of pennies. -/
def SplitEvenly (db : Db) (fund : Fund) (totals : List Dec) : Prop :=
  ∀ total ∈ totals, ∀ c ∈ commitmentsOf db fund.id, ∃ m : ℤ,
    total.val * Money.worth c.committedAmount / committedTotal db fund = m * penny.val

section

variable {start db : Db} {fund : Fund} {totals : List Dec} {remaining : Dec}

/-- An amount in two decimal places is whole pennies. -/
theorem worth_pennies {m k : ℤ} (h : m = 100 * k) : Money.worth m = k * penny.val := by
  rw [h]
  show ((100 * k : ℤ) : ℚ) / (10 : ℚ) ^ 4 = k * penny.val
  rw [penny, Dec.val_eq]
  push_cast
  ring

/-- What is left is whole pennies when the commitments are. -/
theorem remaining_pennies (twoPlaces : ∀ c ∈ commitmentsOf start fund.id, (100 : ℤ) ∣ c.committedAmount)
    (pennies : ∀ total ∈ totals, ∃ n : ℤ, total.val = n * penny.val)
    (hremaining : remaining.val = committedTotal start fund - (totals.map Dec.val).sum) :
    ∃ n : ℤ, remaining.val = n * penny.val := by
  have hcommitted : ∃ n : ℤ, committedTotal start fund = n * penny.val := by
    unfold committedTotal
    generalize commitmentsOf start fund.id = cs at twoPlaces
    induction cs with
    | nil => exact ⟨0, by simp⟩
    | cons c cs ih =>
      obtain ⟨n, hn⟩ := ih fun d hd => twoPlaces d (List.mem_cons_of_mem _ hd)
      obtain ⟨k, hk⟩ := twoPlaces c List.mem_cons_self
      refine ⟨k + n, ?_⟩
      rw [sumBy_cons, hn, worth_pennies hk]
      push_cast
      ring
  have htotals : ∃ n : ℤ, (totals.map Dec.val).sum = n * penny.val := by
    clear hremaining
    induction totals with
    | nil => exact ⟨0, by simp⟩
    | cons t ts ih =>
      obtain ⟨n, hn⟩ := ih fun d hd => pennies d (List.mem_cons_of_mem _ hd)
      obtain ⟨k, hk⟩ := pennies t List.mem_cons_self
      refine ⟨k + n, ?_⟩
      rw [List.map_cons, List.sum_cons, hn, hk]
      push_cast
      ring
  obtain ⟨n, hn⟩ := hcommitted
  obtain ⟨k, hk⟩ := htotals
  refine ⟨n - k, ?_⟩
  rw [hremaining, hn, hk]
  push_cast
  ring

/-- The shares of a call are found under the partners. -/
theorem Ready.proRata_callShares (ready : Ready db fund) (env : Env)
    (hpartners : commitmentsOf db fund.id ≠ []) {total : Dec} {n : ℤ}
    (hn : total.val = n * penny.val) :
    ∃ shares, proRata env db fund (.finite total) =
        .ok (env.commitmentOrder.order (commitmentsOf db fund.id), shares) ∧
      ∀ c ∈ commitmentsOf db fund.id, lookup shares c.lp =
        .ok (allotted (id : Uuid → ℕ) total (fundWeights db fund) penny c.lp) := by
  have hperm := ready.weights_perm env.commitmentOrder
  have hids : partnerIds db fund ≠ [] := by
    rw [partnerIds]
    simpa using hpartners
  have hne : env.commitmentOrder.order (commitmentsOf db fund.id) ≠ [] := fun hnil =>
    hpartners (List.nil_perm.mp (hnil ▸ env.commitmentOrder.perm _))
  refine ⟨_, ?_, fun c hc => ready.lookup_shares env.commitmentOrder total penny
    (List.mem_map_of_mem hc)⟩
  rw [proRata, (require_eq_ok (u := ())).mpr hne]
  show (orInvalidTransfer (allocate (id : Uuid → ℕ) total _) >>= fun shares => pure (_, shares)) = _
  rw [allocate_ok.mpr ⟨checkWeights_perm hperm.symm (ready.checkWeights_fundWeights hids),
    (den_unitsOf_eq_one_iff penny_val_pos).mpr ⟨n, hn⟩, rfl⟩]
  rfl

end

section

variable {start db : Db} {fund : Fund} {totals : List Dec} {remaining : Dec}

/-- What the check knows after the calls. -/
theorem CalledSoFar.checked (h : CalledSoFar start fund totals db) {shares : Dict Uuid Dec}
    (hshares : ∀ c ∈ commitmentsOf db fund.id, lookup shares c.lp =
      .ok (allotted (id : Uuid → ℕ) remaining (fundWeights db fund) penny c.lp)) {c : Commitment}
    (hc : c ∈ commitmentsOf start fund.id) :
    Checked db fund shares (fun c => (totals.map fun total => calledFor start fund total c.lp).sum)
      (fun c => calledFor start fund remaining c.lp) c := by
  obtain ⟨a, hbooks, hpaid⟩ := h.books c hc
  refine ⟨a, hbooks, hpaid, _, hshares c hbooks.commitment, ?_⟩
  have hweights : fundWeights db fund = fundWeights start fund := by
    rw [fundWeights, fundWeights, commitmentsOf, commitmentsOf, h.commitments]
  rw [hweights]
  rfl

/-- **When the plan is refused**: some share is beyond what is left. -/
theorem CalledSoFar.planCapitalCall_exceeded_iff (h : CalledSoFar start fund totals db)
    (ready : Ready db fund) {env : Env} {noticeDate : Date}
    (hpartners : commitmentsOf start fund.id ≠ []) {n : ℤ} (hn : remaining.val = n * penny.val) :
    (∃ detail, planCapitalCall env db fund.id (.finite remaining) noticeDate =
        .error (.ledger .CommitmentExceeded detail)) ↔
      (∃ period, periodFor db fund.id noticeDate = .ok period) ∧
      ∃ c ∈ commitmentsOf start fund.id, Money.worth c.committedAmount -
        (totals.map fun total => calledFor start fund total c.lp).sum <
          calledFor start fund remaining c.lp := by
  have hsame : commitmentsOf db fund.id = commitmentsOf start fund.id := by
    rw [commitmentsOf, commitmentsOf, h.commitments]
  obtain ⟨shares, hsplit, hshares⟩ := ready.proRata_callShares env (hsame ▸ hpartners) hn
  have hmem : ∀ c, c ∈ env.commitmentOrder.order (commitmentsOf db fund.id) ↔
      c ∈ commitmentsOf start fund.id := fun c => by
    rw [← hsame]
    exact (env.commitmentOrder.perm _).mem_iff
  have hchecked : ∀ c ∈ env.commitmentOrder.order (commitmentsOf db fund.id), _ := fun c hc =>
    h.checked hshares ((hmem c).mp hc)
  have hfund : getFund db fund.id = .ok fund :=
    orRaise_eq_ok.mpr (Table.get?_of_mem ready.fund_mem)
  constructor
  · rintro ⟨detail, hraised⟩
    obtain ⟨fund', period, commitments, shares', hfund', hperiod, hsplit', hraised⟩ :=
      planCapitalCall_exceeded hraised
    obtain rfl : fund = fund' := Except.ok.inj (hfund.symm.trans hfund')
    obtain ⟨rfl, rfl⟩ := Prod.mk.inj (Except.ok.inj (hsplit.symm.trans hsplit'))
    refine ⟨⟨period, hperiod⟩, ?_⟩
    by_contra hall
    have hpasses := (checkUnfunded_ok_iff hchecked).mpr fun c hc => not_lt.mp fun hlt =>
      hall ⟨c, (hmem c).mp hc, hlt⟩
    rw [hpasses] at hraised
    cases hraised
  · rintro ⟨⟨period, hperiod⟩, c, hc, hlt⟩
    cases hcheck : checkUnfunded db (env.commitmentOrder.order (commitmentsOf db fund.id))
        (lpCapitalAccounts db fund) shares with
    | ok u =>
      have hwithin := (checkUnfunded_ok_iff hchecked).mp hcheck c ((hmem c).mpr hc)
      exact absurd hwithin (not_le.mpr hlt)
    | error e =>
      obtain ⟨detail, rfl⟩ := checkUnfunded_class hchecked hcheck
      refine ⟨detail, ?_⟩
      rw [planCapitalCall, hfund]
      show (periodFor db fund.id noticeDate >>= _) = _
      rw [hperiod]
      show (proRata env db fund (.finite remaining) >>= _) = _
      rw [hsplit]
      show (checkUnfunded db _ (lpCapitalAccounts db fund) shares >>= _) = _
      rw [hcheck]
      rfl

/-- The shares of all the calls sum to all the commitments. -/
theorem CalledSoFar.sum_shortfall (h : CalledSoFar start fund totals db) (ready : Ready start fund)
    (hpartners : commitmentsOf start fund.id ≠ []) {n : ℤ} (hn : remaining.val = n * penny.val)
    (hremaining : remaining.val = committedTotal start fund - (totals.map Dec.val).sum) :
    sumBy (fun c => Money.worth c.committedAmount -
      (totals.map fun total => calledFor start fund total c.lp).sum -
        calledFor start fund remaining c.lp) (commitmentsOf start fund.id) = 0 := by
  have htotals : sumBy (fun c => (totals.map fun total => calledFor start fund total c.lp).sum)
      (commitmentsOf start fund.id) = (totals.map Dec.val).sum := by
    have hswap := sumBy_comm (fun (c : Commitment) total => calledFor start fund total c.lp)
      (commitmentsOf start fund.id) totals
    have heach : ∀ total ∈ totals, sumBy (fun c => calledFor start fund total c.lp)
        (commitmentsOf start fund.id) = total.val := by
      intro total ht
      obtain ⟨k, hk⟩ := h.pennies total ht
      exact ready.sum_calledFor hpartners hk
    exact hswap.trans (sumBy_congr heach)
  have hlast := ready.sum_calledFor hpartners hn
  have hneg : ∀ f : Commitment → ℚ, sumBy (fun c => -f c) (commitmentsOf start fund.id) =
      -sumBy f (commitmentsOf start fund.id) := fun f => sumBy_hom (-AddMonoidHom.id ℚ) f _
  simp only [sub_eq_add_neg, sumBy_add, hneg, htotals, hlast]
  rw [hremaining]
  unfold committedTotal
  ring

/-- Nobody is called for too much exactly when everybody is called for all. -/
theorem CalledSoFar.exceeds_iff (h : CalledSoFar start fund totals db) (ready : Ready start fund)
    (hpartners : commitmentsOf start fund.id ≠ []) {n : ℤ} (hn : remaining.val = n * penny.val)
    (hremaining : remaining.val = committedTotal start fund - (totals.map Dec.val).sum) :
    (∃ c ∈ commitmentsOf start fund.id, Money.worth c.committedAmount -
      (totals.map fun total => calledFor start fund total c.lp).sum <
        calledFor start fund remaining c.lp) ↔ ¬DrawsDown start fund totals remaining := by
  have hzero := h.sum_shortfall ready hpartners hn hremaining
  rw [iff_not_comm]
  constructor
  · rintro hdraws ⟨c, hc, hlt⟩
    have hall := hdraws c hc
    linarith
  · intro hnone c hc
    have hnonneg : ∀ x ∈ (commitmentsOf start fund.id).map fun c => Money.worth c.committedAmount -
        (totals.map fun total => calledFor start fund total c.lp).sum -
          calledFor start fund remaining c.lp, 0 ≤ x := by
      intro x hx
      obtain ⟨d, hd, rfl⟩ := List.mem_map.mp hx
      refine sub_nonneg.mpr (not_lt.mp fun hlt => hnone ⟨d, hd, hlt⟩)
    have hnothing := List.all_zero_of_le_zero_le_of_sum_eq_zero hnonneg hzero
      (List.mem_map_of_mem hc)
    linarith

/-- **Even shares draw down everything.** -/
theorem CalledSoFar.drawsDown_of_even (h : CalledSoFar start fund totals db)
    (ready : Ready start fund)
    (twoPlaces : ∀ c ∈ commitmentsOf start fund.id, (100 : ℤ) ∣ c.committedAmount)
    (hremaining : remaining.val = committedTotal start fund - (totals.map Dec.val).sum)
    (even : SplitEvenly start fund totals) : DrawsDown start fund totals remaining := by
  intro c hc
  obtain ⟨n, hn⟩ := remaining_pennies twoPlaces h.pennies hremaining
  have hne : committedTotal start fund ≠ 0 := by
    rw [← ready.sumBy_weights]
    refine sumBy_weightOf_ne_zero (ready.checkWeights_fundWeights ?_)
    exact List.ne_nil_of_mem (List.mem_map_of_mem hc)
  obtain ⟨k, hk⟩ := twoPlaces c hc
  have hcommitted : Money.worth c.committedAmount = k * penny.val := worth_pennies hk
  -- each earlier share is the exact one
  have hearlier : ∀ total ∈ totals, ∃ m : ℤ, calledFor start fund total c.lp = m * penny.val ∧
      total.val * Money.worth c.committedAmount / committedTotal start fund = m * penny.val := by
    intro total ht
    obtain ⟨m, hm⟩ := even total ht c hc
    obtain ⟨j, hj⟩ := h.pennies total ht
    exact ⟨m, ready.calledFor_exact hj hc hm, hm⟩
  obtain ⟨m, hm, hsum⟩ : ∃ m : ℤ,
      (totals.map fun total => calledFor start fund total c.lp).sum = m * penny.val ∧
      (totals.map Dec.val).sum * Money.worth c.committedAmount / committedTotal start fund =
        m * penny.val := by
    clear hremaining even hn h
    induction totals with
    | nil => exact ⟨0, by simp, by simp⟩
    | cons t ts ih =>
      obtain ⟨m, hm, hsum⟩ := ih fun total ht => hearlier total (List.mem_cons_of_mem _ ht)
      obtain ⟨j, hcalled, hj⟩ := hearlier t List.mem_cons_self
      refine ⟨j + m, ?_, ?_⟩
      · rw [List.map_cons, List.sum_cons, hcalled, hm]
        push_cast
        ring
      · rw [List.map_cons, List.sum_cons, add_mul, add_div, hj, hsum]
        push_cast
        ring
  -- and so is the last one
  have hlast : remaining.val * Money.worth c.committedAmount / committedTotal start fund =
      ((k - m : ℤ) : ℚ) * penny.val := by
    rw [hremaining, sub_mul, sub_div, hsum, mul_div_cancel_left₀ _ hne, hcommitted]
    push_cast
    ring
  rw [hm, ready.calledFor_exact hn hc hlast, hcommitted]
  push_cast
  ring

/-- **When the call for what is left is refused.**  After any accepted calls it
raises `CommitmentExceeded` exactly when it gets to the check and the shares of
the calls do not make up the commitments.  They always do when every share was
a whole number of pennies. -/
theorem remaining_call_rejected_iff (genesis : Genesis start) (ready : Ready start fund)
    (twoPlaces : ∀ c ∈ commitmentsOf start fund.id, (100 : ℤ) ∣ c.committedAmount)
    (calls : CapitalCalls fund.id start totals db)
    (hremaining : remaining.val = committedTotal start fund - (totals.map Dec.val).sum)
    (positive : 0 < remaining.val) (env : Env) (key : String) (noticeDate dueDate : Date)
    (createdBy : String) :
    ((∃ detail, (createCapitalCall env fund.id key (.finite remaining) noticeDate dueDate createdBy
        db).1 = .error (.ledger .CommitmentExceeded detail)) ↔
      (∃ text, moneyStr (.finite remaining) = .ok text) ∧ transferByKey db key = none ∧
      (∃ period, periodFor db fund.id noticeDate = .ok period) ∧
      ¬DrawsDown start fund totals remaining) ∧
    (SplitEvenly start fund totals → DrawsDown start fund totals remaining) := by
  obtain ⟨hcalled, hready, -⟩ := calls.calledSoFar genesis ready
  obtain ⟨n, hn⟩ := remaining_pennies twoPlaces hcalled.pennies hremaining
  refine ⟨?_, hcalled.drawsDown_of_even ready twoPlaces hremaining⟩
  have hpartners : commitmentsOf start fund.id ≠ [] := by
    intro hnone
    have htotals : totals = [] := by
      by_contra hne
      exact hcalled.partners hne hnone
    rw [hremaining, committedTotal, hnone, htotals] at positive
    exact absurd positive (by simp)
  simp only [createCapitalCall_exceeded_iff, exists_and_left]
  rw [hcalled.planCapitalCall_exceeded_iff hready hpartners hn,
    hcalled.exceeds_iff ready hpartners hn hremaining]

/-- The total that is left of 600 and 400. -/
theorem committedTotal_buildPeFund : committedTotal buildPeFund makeFund = 1000 := by
  have hcommitments : commitmentsOf buildPeFund makeFund.id = peCommitments := by decide +kernel
  rw [committedTotal, hcommitments, peCommitments, sumBy_cons, sumBy_cons, sumBy_nil]
  show ((6000000 : ℤ) : ℚ) / 10 ^ 4 + (((4000000 : ℤ) : ℚ) / 10 ^ 4 + 0) = 1000
  norm_num

theorem twoPlaces_buildPeFund :
    ∀ c ∈ commitmentsOf buildPeFund makeFund.id, (100 : ℤ) ∣ c.committedAmount := by
  decide +kernel

/-- A capital call on day 32. -/
def callFor (n : ℕ) (key : String) (total : Dec) : M (CapitalCall × Bool) :=
  createCapitalCall (envOf n) makeFund.id key (.finite total) 32 46 ""

def afterHundred : Db := (callFor 1 "call" ⟨10000, -2⟩ buildPeFund).2

theorem remaining_call_rejected_iff_afterHundred :
    DrawsDown buildPeFund makeFund [⟨10000, -2⟩] ⟨90000, -2⟩ ∧
    ¬∃ detail, (callFor 2 "rest" ⟨90000, -2⟩ afterHundred).1 =
      .error (.ledger .CommitmentExceeded detail) := by
  have hcreated : Prod.snd <$> (callFor 1 "call" ⟨10000, -2⟩ buildPeFund).1 = .ok true := by
    decide +kernel
  obtain ⟨document, hrun⟩ := created_of_snd hcreated
  have hcalls : CapitalCalls makeFund.id buildPeFund [⟨10000, -2⟩] afterHundred :=
    CapitalCalls.none.call hrun
  have hremaining : (⟨90000, -2⟩ : Dec).val = committedTotal buildPeFund makeFund -
      (List.map Dec.val [⟨10000, -2⟩]).sum := by
    rw [committedTotal_buildPeFund, List.map_singleton, List.sum_singleton, Dec.val_eq, Dec.val_eq]
    norm_num
  have hpositive : 0 < (⟨90000, -2⟩ : Dec).val := by
    rw [Dec.val_eq]
    norm_num
  have heven : SplitEvenly buildPeFund makeFund [⟨10000, -2⟩] := by
    have hcommitments : commitmentsOf buildPeFund makeFund.id = peCommitments := by decide +kernel
    have hworth : ∀ m : ℤ, Money.worth m = (m : ℚ) / 10 ^ 4 := fun _ => rfl
    intro total ht c hc
    rw [List.mem_singleton.mp ht, committedTotal_buildPeFund, penny]
    simp only [Dec.val_eq]
    rw [hcommitments] at hc
    rcases List.mem_pair.mp hc with rfl | rfl
    · refine ⟨6000, ?_⟩
      rw [hworth]
      norm_num
    · refine ⟨4000, ?_⟩
      rw [hworth]
      norm_num
  obtain ⟨hrejected, hdraws⟩ := remaining_call_rejected_iff genesis_buildPeFund ready_buildPeFund
    twoPlaces_buildPeFund hcalls hremaining hpositive (envOf 2) "rest" 32 46 ""
  refine ⟨hdraws heven, fun hexceeded => ?_⟩
  exact (hrejected.mp hexceeded).2.2.2 (hdraws heven)

def afterOnePenny : Db := (callFor 1 "first" ⟨1, -2⟩ buildPeFund).2

def afterTwoPennies : Db := (callFor 2 "second" ⟨1, -2⟩ afterOnePenny).2

/-- **What is left cannot always be called.**  The penny of both calls goes to
the partner with 600, and then the rest of its commitment is one penny less
than its share of the rest. -/
theorem remaining_call_rejected :
    Genesis buildPeFund ∧ Ready buildPeFund makeFund ∧
    (∀ c ∈ commitmentsOf buildPeFund makeFund.id, (100 : ℤ) ∣ c.committedAmount) ∧
    CapitalCalls makeFund.id buildPeFund [⟨1, -2⟩, ⟨1, -2⟩] afterTwoPennies ∧
    (⟨99998, -2⟩ : Dec).val =
      committedTotal buildPeFund makeFund - (List.map Dec.val [⟨1, -2⟩, ⟨1, -2⟩]).sum ∧
    ∃ detail, (callFor 3 "rest" ⟨99998, -2⟩ afterTwoPennies).1 =
      .error (.ledger .CommitmentExceeded detail) := by
  have hfirst : Prod.snd <$> (callFor 1 "first" ⟨1, -2⟩ buildPeFund).1 = .ok true := by decide +kernel
  have hsecond : Prod.snd <$> (callFor 2 "second" ⟨1, -2⟩ afterOnePenny).1 = .ok true := by
    decide +kernel
  obtain ⟨first, hfirst⟩ := created_of_snd hfirst
  obtain ⟨second, hsecond⟩ := created_of_snd hsecond
  have hone : CapitalCalls makeFund.id buildPeFund [⟨1, -2⟩] afterOnePenny :=
    CapitalCalls.none.call hfirst
  have htwo : CapitalCalls makeFund.id buildPeFund [⟨1, -2⟩, ⟨1, -2⟩] afterTwoPennies :=
    hone.call hsecond
  have hvalue : (⟨99998, -2⟩ : Dec).val =
      committedTotal buildPeFund makeFund - (List.map Dec.val [⟨1, -2⟩, ⟨1, -2⟩]).sum := by
    rw [committedTotal_buildPeFund, List.map_cons, List.map_singleton, List.sum_cons,
      List.sum_singleton, Dec.val_eq, Dec.val_eq]
    norm_num
  refine ⟨genesis_buildPeFund, ready_buildPeFund, twoPlaces_buildPeFund, htwo, hvalue, ?_⟩
  exact ⟨[.lit "LP ", .uuid 11, .lit " would be called ", .dec ⟨59999, -2⟩, .lit ", unfunded is ",
    .dec ⟨5999800, -4⟩], by decide +kernel⟩

end

end FundLedger
