import FundLedger.Operations.Changes

/-!
# Runs

A call is an operation with its arguments and the environment it runs in.  A
run is any finite sequence of calls, each of which may succeed or raise; what
raised is forgotten and the next call goes on from the database it left.
-/

namespace FundLedger

open Lib Relation

/-- An operation with its arguments.  A `Period` argument is an object that
the caller loaded at some time: the stored row, with the status it had then. -/
inductive Op
  | postTransfer (a : Posting) (periodId : Uuid) (seen : PeriodStatus)
  | postTransferIdempotent (a : Posting) (periodId : Uuid) (seen : PeriodStatus)
  | reverseTransfer (transferId : Uuid) (key : String) (periodId : Uuid) (seen : PeriodStatus)
      (createdBy : String)
  | createCapitalCall (fundId : Uuid) (key : String) (totalAmount : Amount)
      (noticeDate dueDate : Date) (createdBy : String)
  | createDistribution (fundId : Uuid) (key : String) (totalAmount : Amount)
      (paymentDate : Date) (classification : DistributionClassification) (createdBy : String)
  | recordInvestment (fundId : Uuid) (key : String) (amount : Amount) (currency : String)
      (onDate : Date)
  | chargeFee (fundId : Uuid) (key : String) (amount : Amount) (onDate : Date)
  | recordValuation (fundId : Uuid) (key : String) (change : Amount) (onDate : Date)
  | closePeriod (fundId periodId : Uuid) (closedBy : String)

/-- The period object of a caller. -/
def loadedPeriod (db : Db) (periodId : Uuid) (seen : PeriodStatus) : Except Exc Period :=
  (fun p => { p with status := seen }) <$>
    orRaise (db.periods.get? periodId) (.doesNotExist "Period")

/-- Run an operation and drop its result. -/
def Op.run (env : Env) : Op → M Unit
  | .postTransfer a periodId seen => do
    let db ← Tx.read
    let period ← Tx.lift (loadedPeriod db periodId seen)
    let _ ← FundLedger.postTransfer env { a with period }
  | .postTransferIdempotent a periodId seen => do
    let db ← Tx.read
    let period ← Tx.lift (loadedPeriod db periodId seen)
    let _ ← FundLedger.postTransferIdempotent env { a with period }
  | .reverseTransfer transferId key periodId seen createdBy => do
    let db ← Tx.read
    let period ← Tx.lift (loadedPeriod db periodId seen)
    let _ ← FundLedger.reverseTransfer env transferId key period createdBy
  | .createCapitalCall fundId key totalAmount noticeDate dueDate createdBy => do
    let _ ← FundLedger.createCapitalCall env fundId key totalAmount noticeDate dueDate createdBy
  | .createDistribution fundId key totalAmount paymentDate classification createdBy => do
    let _ ← FundLedger.createDistribution env fundId key totalAmount paymentDate classification
      createdBy
  | .recordInvestment fundId key amount currency onDate => do
    let _ ← FundLedger.recordInvestment env fundId key amount currency onDate
  | .chargeFee fundId key amount onDate => do
    let _ ← FundLedger.chargeFee env fundId key amount onDate
  | .recordValuation fundId key change onDate => do
    let _ ← FundLedger.recordValuation env fundId key change onDate
  | .closePeriod fundId periodId closedBy => do
    let _ ← FundLedger.closePeriod env fundId periodId closedBy

/-- The operations that do not take their legs from the caller. -/
def Op.IsBusiness : Op → Prop
  | .postTransfer .. | .postTransferIdempotent .. => False
  | _ => True

structure Call where
  env : Env
  op : Op

/-- The database after a call, whether it returned or raised. -/
def Call.run (c : Call) (db : Db) : Db := (c.op.run c.env db).2

/-- The database after a sequence of calls. -/
def afterCalls (db : Db) (calls : List Call) : Db := calls.foldl (fun db c => c.run db) db

/-- A database in which nothing has been posted and every period is open. -/
structure Genesis (db : Db) : Prop where
  transfers : db.transfers.rows = []
  entries : db.entries.rows = []
  capitalCalls : db.capitalCalls.rows = []
  distributions : db.distributions.rows = []
  periods_open : ∀ p ∈ db.periods, p.status = .OPEN

/-! ## A run is a sequence of changes -/

theorem loadedPeriod_holds {db : Db} {periodId : Uuid} {seen : PeriodStatus} {p : Period}
    (h : loadedPeriod db periodId seen = .ok p) : Holds db p := by
  unfold loadedPeriod at h
  cases hget : db.periods.get? periodId with
  | none => rw [hget] at h; cases h
  | some q =>
    rw [hget] at h
    cases h
    exact ⟨q, Table.mem_of_get? hget, rfl, rfl⟩

private theorem run_changes_of {Q : Db → Posting → Prop} {α : Type} {m : M α} {db : Db}
    (h : Changes Q db (m db).2) :
    Changes Q db ((m >>= fun _ => pure PUnit.unit : M Unit) db).2 := by
  rwa [Tx.bind_readOnly_snd fun _ => Tx.readOnly_pure _]

theorem Op.run_business {env : Env} {op : Op} (hop : op.IsBusiness) (db : Db) :
    Changes Business db (op.run env db).2 := by
  cases op with
  | postTransfer => exact hop.elim
  | postTransferIdempotent => exact hop.elim
  | reverseTransfer =>
    rw [Op.run, Tx.read_bind]
    exact Tx.lift_bind_rel .refl fun period hp =>
      run_changes_of (reverseTransfer_changes (loadedPeriod_holds hp))
  | createCapitalCall => exact run_changes_of createCapitalCall_changes
  | createDistribution => exact run_changes_of createDistribution_changes
  | recordInvestment => exact run_changes_of recordInvestment_changes
  | chargeFee => exact run_changes_of chargeFee_changes
  | recordValuation => exact run_changes_of recordValuation_changes
  | closePeriod => exact run_changes_of closePeriod_changes

/-- Nothing in particular is known about a posting. -/
def AnyPosting (_ : Db) (_ : Posting) : Prop := True

theorem Op.run_changes (env : Env) (op : Op) (db : Db) :
    Changes AnyPosting db (op.run env db).2 := by
  by_cases hop : op.IsBusiness
  · exact (Op.run_business hop db).mono fun _ _ _ => trivial
  · cases op with
    | postTransfer =>
      rw [Op.run, Tx.read_bind]
      exact Tx.lift_bind_rel .refl fun period hp =>
        run_changes_of (postTransfer_changes trivial (loadedPeriod_holds hp))
    | postTransferIdempotent =>
      rw [Op.run, Tx.read_bind]
      exact Tx.lift_bind_rel .refl fun period hp =>
        run_changes_of (postTransferIdempotent_changes (fun _ => trivial) (loadedPeriod_holds hp))
    | _ => exact absurd trivial hop

theorem afterCalls_changes (calls : List Call) :
    ∀ db : Db, Changes AnyPosting db (afterCalls db calls) := by
  induction calls with
  | nil => exact fun _ => .refl
  | cons c calls ih => exact fun db => (c.op.run_changes c.env db).trans (ih (c.run db))

theorem afterCalls_business {calls : List Call} (h : ∀ c ∈ calls, c.op.IsBusiness) :
    ∀ db : Db, Changes Business db (afterCalls db calls) := by
  induction calls with
  | nil => exact fun _ => .refl
  | cons c calls ih =>
    intro db
    have hc := h c List.mem_cons_self
    exact (Op.run_business hc db).trans
      (ih (fun d hd => h d (List.mem_cons_of_mem c hd)) (c.run db))

/-- The rule for an invariant of runs: it holds at the start, and each change
keeps it. -/
theorem Changes.invariant {Q : Db → Posting → Prop} {I : Db → Prop}
    (hstep : ∀ db db', I db → Change Q db db' → I db') {db db' : Db} (h : Changes Q db db')
    (hI : I db) : I db' := by
  induction h with
  | refl => exact hI
  | tail _ hlast ih => exact hstep _ _ ih hlast

end FundLedger
