import FundLedger.Lib.Snapshot
import FundLedger.Operations.Frozen
import FundLedger.Operations.SettingUp

/-!
# A statement while transactions commit

`lp_statement` makes three queries and then three more for each period.  No
transaction surrounds them, so each query sees what has been committed when it
is made.  `lpStatementFrom` is the function as it depends on the answers to its
queries; given the answers of one database it is `lpStatement`.

The answers of different times need not fit together: a statement can show a
fee and miss the capital call that paid for it.  `statement_is_snapshot` says
that this is the only way in which a statement is not one of a committed state.
-/

namespace FundLedger

open Lib

/-- The queries of a statement. -/
inductive StatementQuery
  | commitments
  | accounts
  | periods
  | movement (lpAccount period : Uuid)
  | gains (period : Uuid)
  | fees (period : Uuid)
  deriving DecidableEq

/-- What the function takes from the rows of a query: the rows themselves, the
account of the partner, the periods in order, or the figures of a period. -/
abbrev StatementQuery.Answer : StatementQuery → Type
  | .commitments => List Commitment
  | .accounts => Except Exc Account
  | .periods => List Uuid
  | .movement .. => Movement
  | .gains _ => Dec
  | .fees _ => Dec

/-- The answer of a database. -/
def StatementQuery.ask (fund : Fund) (lp : Uuid) (period : Period) (db : Db) :
    (q : StatementQuery) → q.Answer
  | .commitments => commitmentsOf db fund.id
  | .accounts => lookup (lpCapitalAccounts db fund) lp
  | .periods => (periodsThrough db fund.id period.startDate).map Period.id
  | .movement lpAccount p => lpLedgerMovement db lpAccount p
  | .gains p => -fundTotal db fund.id p .GAIN_LOSS
  | .fees p => fundTotal db fund.id p .FEE_EXPENSE

/-- The movement of a period, from the three figures. -/
def movementFrom (weights : Dict Uuid Dec) (lp : Uuid) (movement : Movement) (gains fees : Dec) :
    Except Exc Movement := do
  let allocatedGains ← lookup (← lpMovement.orValueError
    (allocate (id : Uuid → ℕ) gains weights fourDp)) lp
  let allocatedFees ← lookup (← lpMovement.orValueError
    (allocate (id : Uuid → ℕ) fees weights fourDp)) lp
  return { movement with allocatedGains, allocatedFees }

/-- One round of the loop, for the period with the given id. -/
def addMovement (current : Uuid) (r : Running) (p : Uuid) (m : Movement) : Running :=
  let contributedToDate := r.contributedToDate + m.contributions
  if p = current then { r with contributedToDate, current := m }
  else { r with contributedToDate, opening := r.opening + m.net }

/-- The loop over the periods. -/
def runningFrom (answer : (q : StatementQuery) → q.Answer) (weights : Dict Uuid Dec)
    (lp lpAccount current : Uuid) : Except Exc Running :=
  (answer .periods).foldlM (fun r p => do
    let movement ← movementFrom weights lp (answer (.movement lpAccount p)) (answer (.gains p))
      (answer (.fees p))
    return addMovement current r p movement) ({} : Running)

/-- `lp_statement`, from the answers to its queries. -/
def lpStatementFrom (answer : (q : StatementQuery) → q.Answer) (order : RowOrder Commitment)
    (fund : Fund) (lp : LimitedPartner) (period : Period) :
    Except Exc CapitalAccountStatement := do
  let commitments := commitmentWeights (order.order (answer .commitments))
  let commitment ← Prod.snd <$> orRaise (commitments.get? lp.id) (.doesNotExist "Commitment")
  let lpAccount ← answer .accounts
  let run ← runningFrom answer commitments lp.id lpAccount.id period.id
  return statementOf fund lp period commitment run

/-- **For one database it is `lpStatement`.** -/
theorem lpStatementFrom_ask (db : Db) (order : RowOrder Commitment) (fund : Fund)
    (lp : LimitedPartner) (period : Period) :
    lpStatementFrom (StatementQuery.ask fund lp.id period db) order fund lp period =
      lpStatement db order fund lp period := by
  unfold lpStatementFrom lpStatement runningFrom
  simp only [StatementQuery.ask, List.foldlM_map]
  rfl

/-! ## Which answers matter -/

/-- The queries about one period. -/
def periodQueries (lpAccount period : Uuid) : List StatementQuery :=
  [.movement lpAccount period, .gains period, .fees period]

/-- The queries in the loop. -/
def loopQueries (db : Db) (fund : Fund) (lp : Uuid) (period : Period) : List StatementQuery :=
  ((periodsThrough db fund.id period.startDate).map Period.id).flatMap
    (periodQueries (capitalAccountId db fund lp))

/-- All the queries, in the order in which they are made. -/
def statementQueries (db : Db) (fund : Fund) (lp : Uuid) (period : Period) :
    List StatementQuery :=
  [.commitments, .accounts, .periods] ++ loopQueries db fund lp period

section

variable {answer answer' : (q : StatementQuery) → q.Answer} {order : RowOrder Commitment}
  {fund : Fund} {lp : LimitedPartner} {period : Period}

/-- Without a commitment there are no further queries. -/
theorem lpStatementFrom_stranger (hsame : answer .commitments = answer' .commitments)
    (hnone : (commitmentWeights (order.order (answer .commitments))).get? lp.id = none) :
    lpStatementFrom answer order fund lp period = lpStatementFrom answer' order fund lp period := by
  unfold lpStatementFrom
  dsimp only
  rw [← hsame, hnone]
  rfl

/-- The loop depends on its own queries. -/
theorem runningFrom_congr {weights : Dict Uuid Dec} {lp lpAccount current : Uuid}
    (hperiods : answer .periods = answer' .periods)
    (hloop : ∀ p ∈ answer .periods, ∀ q ∈ periodQueries lpAccount p, answer q = answer' q) :
    runningFrom answer weights lp lpAccount current =
      runningFrom answer' weights lp lpAccount current := by
  unfold runningFrom
  rw [← hperiods]
  generalize answer .periods = periods at hloop
  generalize ({} : Running) = r
  induction periods generalizing r with
  | nil => rfl
  | cons p periods ih =>
    have hfirst := hloop p List.mem_cons_self
    have hmovement := hfirst (.movement lpAccount p) (by simp [periodQueries])
    have hgains := hfirst (.gains p) (by simp [periodQueries])
    have hfees := hfirst (.fees p) (by simp [periodQueries])
    rw [List.foldlM_cons, List.foldlM_cons, hmovement, hgains, hfees]
    congr 1
    funext r'
    apply ih
    intro p' hp'
    exact hloop p' (List.mem_cons_of_mem p hp')

/-- The statement depends on its queries. -/
theorem lpStatementFrom_congr {lpAccount : Account}
    (hcommitments : answer .commitments = answer' .commitments)
    (haccount : answer .accounts = .ok lpAccount) (haccount' : answer' .accounts = .ok lpAccount)
    (hperiods : answer .periods = answer' .periods)
    (hloop : ∀ p ∈ answer .periods, ∀ q ∈ periodQueries lpAccount.id p, answer q = answer' q) :
    lpStatementFrom answer order fund lp period = lpStatementFrom answer' order fund lp period := by
  have hrunning : ∀ weights, runningFrom answer weights lp.id lpAccount.id period.id =
      runningFrom answer' weights lp.id lpAccount.id period.id := fun weights =>
    runningFrom_congr hperiods hloop
  unfold lpStatementFrom
  dsimp only
  rw [hcommitments, haccount, haccount']
  show _ = (_ >>= fun _ => runningFrom answer' _ _ _ _ >>= _)
  rw [← hrunning]
  rfl

end

/-! ## What no commit changes -/

section

variable {db db' : Db}

/-- The commitments and the periods are fixed while transactions commit. -/
theorem ask_fixed (fund : Fund) (lp : Uuid) (period : Period) (h : Changes AnyPosting db db') :
    StatementQuery.ask fund lp period db' .commitments =
        StatementQuery.ask fund lp period db .commitments ∧
      StatementQuery.ask fund lp period db' .periods =
        StatementQuery.ask fund lp period db .periods := by
  have hx := h.later.extends
  constructor
  · show commitmentsOf db' fund.id = commitmentsOf db fund.id
    rw [commitmentsOf, commitmentsOf, hx.commitments]
  · obtain ⟨f, hf, hrows⟩ := hx.periods
    show (periodsThrough db' fund.id period.startDate).map Period.id = _
    rw [periodsThrough_of_rows hf hrows, List.map_map]
    exact List.map_congr_left fun p _ => (hf p).1

/-- So is the account of a partner. -/
theorem ask_account {fund : Fund} (ready : Ready db fund) {lp : Uuid}
    (hlp : lp ∈ partnerIds db fund) (period : Period) :
    ∃ a, capitalAccountId db fund lp = a.id ∧ ∀ {db'}, Changes AnyPosting db db' →
      StatementQuery.ask fund lp period db' .accounts = .ok a := by
  obtain ⟨a, ha, hcapital, hlook⟩ := ready.exists_capital hlp
  refine ⟨a, capitalAccountId_of_lookup hlook, fun {db'} h => ?_⟩
  have hready' : Ready db' fund :=
    h.invariant (I := fun d => Ready d fund) (fun _ _ h hc => h.change hc) ready
  exact hready'.lookup_capital (h.later.extends.accounts.subset ha) hcapital

/-- Who is no partner is not among the weights. -/
theorem commitmentWeights_stranger {fund : Fund} (order : RowOrder Commitment) {lp : Uuid}
    (hlp : lp ∉ partnerIds db fund) :
    (commitmentWeights (order.order (commitmentsOf db fund.id))).get? lp = none := by
  rw [Table.get?_eq_none]
  rintro i hi rfl
  obtain ⟨c, hc, rfl⟩ := List.mem_map.mp (Dict.mem_ofList hi)
  exact hlp (List.mem_map_of_mem ((order.perm _).mem_iff.mp hc))

end

/-! ## When a statement is a snapshot -/

/-- The statement that is made when each query sees the commits up to its own
time. -/
def lpStatementWhile (state : ℕ → Db) (readAt : StatementQuery → ℕ)
    (order : RowOrder Commitment) (fund : Fund) (lp : LimitedPartner) (period : Period) :
    Except Exc CapitalAccountStatement :=
  lpStatementFrom (fun q => q.ask fund lp.id period (state (readAt q))) order fund lp period

/-- **A statement is a snapshot** of a state between its first query and its
last one, unless it shows a commit and misses an earlier one.  Only the commits
that change a figure of its loop count. -/
theorem statement_is_snapshot {fund : Fund} {state : ℕ → Db} {readAt : StatementQuery → ℕ}
    {lp : LimitedPartner} {period : Period} (ready : Ready (state 0) fund)
    (commits : ∀ t, Changes AnyPosting (state t) (state (t + 1)))
    (ordered : (statementQueries (state 0) fund lp.id period).Pairwise fun q r =>
      readAt q ≤ readAt r)
    (unskewed : Unskewed (fun q t => q.ask fund lp.id period (state t)) readAt
      (loopQueries (state 0) fund lp.id period) (readAt .commitments))
    (order : RowOrder Commitment) :
    ∃ t, readAt .commitments ≤ t ∧
      (∃ q ∈ statementQueries (state 0) fund lp.id period, t ≤ readAt q) ∧
      lpStatementWhile state readAt order fund lp period =
        lpStatement (state t) order fund lp period := by
  have hrun : ∀ t, Changes AnyPosting (state 0) (state t) := by
    intro t
    induction t with
    | zero => exact .refl
    | succ t ih => exact ih.trans (commits t)
  have hfirst : ∀ q ∈ loopQueries (state 0) fund lp.id period,
      readAt .commitments ≤ readAt q := by
    intro q hq
    apply List.rel_of_pairwise_cons ordered
    exact List.mem_cons_of_mem _ (List.mem_cons_of_mem _ hq)
  obtain ⟨t, hstart, hend, hsame⟩ := unskewed.exists_snapshot hfirst
  refine ⟨t, hstart, ?_, ?_⟩
  · rcases hend with rfl | ⟨q, hq, hle⟩
    · exact ⟨.commitments, List.mem_cons_self, le_rfl⟩
    · exact ⟨q, List.mem_append_right _ hq, hle⟩
  rw [← lpStatementFrom_ask, lpStatementWhile]
  have hcommitments := (ask_fixed fund lp.id period (hrun (readAt .commitments))).1
  have hperiods := (ask_fixed fund lp.id period (hrun (readAt .periods))).2
  obtain ⟨hcommitments', hperiods'⟩ := ask_fixed fund lp.id period (hrun t)
  by_cases hlp : lp.id ∈ partnerIds (state 0) fund
  · obtain ⟨a, ha, haccount⟩ := ask_account ready hlp period
    apply lpStatementFrom_congr
    · exact hcommitments.trans hcommitments'.symm
    · exact haccount (hrun _)
    · exact haccount (hrun t)
    · exact hperiods.trans hperiods'.symm
    · intro p hp q hq
      apply hsame
      rw [hperiods] at hp
      rw [loopQueries, ha]
      exact List.mem_flatMap.mpr ⟨p, hp, hq⟩
  · have hnone := commitmentWeights_stranger order hlp
    apply lpStatementFrom_stranger
    · exact hcommitments.trans hcommitments'.symm
    · exact hcommitments ▸ hnone

/-! ## A statement in the middle of a call and a fee -/

/-- The database after the first commits of a list. -/
def committedAfter (calls : List Call) (t : ℕ) : Db := afterCalls buildPeFund (calls.take t)

theorem committedAfter_changes (calls : List Call) (t : ℕ) :
    Changes AnyPosting (committedAfter calls t) (committedAfter calls (t + 1)) := by
  rw [committedAfter, committedAfter, List.take_add_one, afterCalls, afterCalls, List.foldl_append]
  exact afterCalls_changes _ _

/-- The fees are asked for after two commits, the rest before. -/
def feesLast : StatementQuery → ℕ
  | .fees _ => 2
  | _ => 0

def firstPartner : LimitedPartner := { id := 11, name := "LP 1" }

theorem committedAfter_zero (calls : List Call) : committedAfter calls 0 = buildPeFund := rfl

/-- Before the second period there are six queries. -/
theorem statementQueries_h1 : statementQueries buildPeFund makeFund firstPartner.id h1 =
    [.commitments, .accounts, .periods] ++
      periodQueries (capitalAccountId buildPeFund makeFund firstPartner.id) h1.id := by
  decide +kernel

theorem feesLast_ordered : (statementQueries buildPeFund makeFund firstPartner.id h1).Pairwise
    fun q r => feesLast q ≤ feesLast r := by
  rw [statementQueries_h1]
  simp [periodQueries, feesLast]

/-- The call changes no fees. -/
theorem fees_callOf100 (t : ℕ) : fundTotal (committedAfter [callOf100] t) makeFund.id h1.id
    .FEE_EXPENSE = .zero := by
  cases t with
  | zero => decide +kernel
  | succ t =>
    have hall : committedAfter [callOf100] (t + 1) = afterCalls buildPeFund [callOf100] := by
      rw [committedAfter, List.take_succ_cons, List.take_nil]
    rw [hall]
    decide +kernel

theorem statement_is_snapshot_callOf100 : ∃ t, feesLast .commitments ≤ t ∧
    (∃ q ∈ statementQueries (committedAfter [callOf100] 0) makeFund firstPartner.id h1,
      t ≤ feesLast q) ∧
    lpStatementWhile (committedAfter [callOf100]) feesLast (.insertion _) makeFund firstPartner h1 =
      lpStatement (committedAfter [callOf100] t) (.insertion _) makeFund firstPartner h1 := by
  have hready : Ready (committedAfter [callOf100] 0) makeFund := by
    rw [committedAfter_zero]
    exact ready_buildPeFund
  have hordered : (statementQueries (committedAfter [callOf100] 0) makeFund firstPartner.id
      h1).Pairwise fun q r => feesLast q ≤ feesLast r := by
    rw [committedAfter_zero]
    exact feesLast_ordered
  have hunskewed : Unskewed (fun q t => StatementQuery.ask makeFund firstPartner.id h1
      (committedAfter [callOf100] t) q) feesLast
      (loopQueries (committedAfter [callOf100] 0) makeFund firstPartner.id h1)
      (feesLast .commitments) := by
    have hqueries : loopQueries buildPeFund makeFund firstPartner.id h1 =
        periodQueries (capitalAccountId buildPeFund makeFund firstPartner.id) h1.id :=
      List.append_cancel_left statementQueries_h1
    intro i _ j hj t u _ _ _ hchange hu
    rw [committedAfter_zero, hqueries] at hj
    cases j with
    | fees p =>
      obtain rfl : p = h1.id := by simpa [periodQueries] using hj
      exact absurd ((fees_callOf100 (u + 1)).trans (fees_callOf100 u).symm) hchange
    | _ => exact absurd hu (Nat.not_lt_zero u)
  exact statement_is_snapshot hready (committedAfter_changes _) hordered hunskewed (.insertion _)

/-- A capital call and the fee that it pays for. -/
def callAndFee : List Call := [
  callOf100,
  { env := envOf 2 40, op := .chargeFee 1 "fee" (.finite ⟨333, -2⟩) 40 }]

/-- **A statement need not be a snapshot.**  The call commits after the
movements were read, and the fee before the fees are; so the statement shows the
fee without the call. -/
theorem statement_is_no_snapshot :
    Ready buildPeFund makeFund ∧ (∀ c ∈ callAndFee, c.op.IsBusiness) ∧
    (statementQueries buildPeFund makeFund firstPartner.id h1).Pairwise
      (fun q r => feesLast q ≤ feesLast r) ∧
    ∀ t, feesLast .commitments ≤ t →
      (∃ q ∈ statementQueries buildPeFund makeFund firstPartner.id h1, t ≤ feesLast q) →
      lpStatementWhile (committedAfter callAndFee) feesLast (.insertion _) makeFund firstPartner h1 ≠
        lpStatement (committedAfter callAndFee t) (.insertion _) makeFund firstPartner h1 := by
  refine ⟨ready_buildPeFund, by simp [callAndFee, callOf100, Op.IsBusiness], feesLast_ordered,
    fun t _ hend => ?_⟩
  obtain ⟨q, -, hle⟩ := hend
  have hlast : feesLast q ≤ 2 := by
    unfold feesLast
    split <;> omega
  obtain rfl | rfl | rfl : t = 0 ∨ t = 1 ∨ t = 2 := by omega
  · decide +kernel
  · decide +kernel
  · decide +kernel

end FundLedger
