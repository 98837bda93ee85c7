import FundLedger.Ledger.Queries

/-!
# Reconciliation

The `reconcile` command and the reconciliation view of a fund, on any table of
entries, corrupted ones included.  Both look at a total, in which two errors
can cancel, and at the transfers one by one.  Together they are exact for a
whole table and for one fund.

With a cut the command is not: the total takes the cut, and the transfers are
still summed over the whole table.
-/

namespace FundLedger

open Lib

/-- A failure of the command, with the lines written to the standard error. -/
structure CommandError where
  stderr : List Message
  message : Message
  deriving DecidableEq

/-- `manage.py reconcile`.  A timestamp is shown by its number. -/
def reconcile (db : Db) (asOf : Option Timestamp := none) : Except CommandError Message :=
  let imbalance := totalImbalance db asOf
  let broken := unbalancedTransfers db
  if imbalance ≠ 0 ∨ broken ≠ [] then
    .error {
      stderr := broken.map fun b =>
        [.lit "  transfer ", .uuid b.1, .lit " is off by ", .dec b.2.toDec]
      message := [.lit "LEDGER OUT OF BALANCE: system imbalance ", .dec imbalance.toDec,
        .lit ", ", .nat broken.length, .lit " unbalanced transfer(s)"] }
  else
    .ok [.lit "Ledger balanced as of ", asOf.elim (.lit "now") .nat, .lit " (imbalance ",
      .dec imbalance.toDec, .lit ")"]

/-- The body of a response of `FundReconciliationView`. -/
structure FundReconciliation where
  fund : Uuid
  balanced : Bool
  imbalance : Dec
  unbalancedTransfers : List (Uuid × Dec)

def fundReconciliation (db : Db) (fund : Uuid) : FundReconciliation :=
  let imbalance := fundImbalance db fund
  let broken := unbalancedTransfers db (some fund)
  { fund
    balanced := imbalance = 0 ∧ broken = []
    imbalance := imbalance.toDec
    unbalancedTransfers := broken.map fun b => (b.1, b.2.toDec) }

/-! ## One transfer -/

/-- The imbalance of one transfer up to a cut, over the entries on a fund's
accounts when a fund is given. -/
def transferImbalance (db : Db) (fund : Option Uuid) (asOf : Option Timestamp)
    (transfer : Uuid) : Money :=
  sumBy Entry.signedBaseAmount
    (group Entry.transfer transfer ((fundEntries db fund).filter (asOfCut asOf)))

/-- The imbalance that one transfer gets after the cut. -/
def lateImbalance (db : Db) (asOf : Option Timestamp) (transfer : Uuid) : Money :=
  sumBy Entry.signedBaseAmount
    (group Entry.transfer transfer (db.entries.rows.filter fun e => !asOfCut asOf e))

theorem asOfCut_none (l : List Entry) : l.filter (asOfCut none) = l :=
  List.filter_eq_self.mpr fun _ _ => rfl

private theorem group_filter (p : Entry → Bool) (t : Uuid) (l : List Entry) :
    group Entry.transfer t (l.filter p) = (group Entry.transfer t l).filter p := by
  rw [group, group, List.filter_filter, List.filter_filter]
  simp only [Bool.and_comm]

/-- The whole imbalance of a transfer is that of the cut and what comes later. -/
theorem transferImbalance_add_late (db : Db) (asOf : Option Timestamp) (t : Uuid) :
    transferImbalance db none asOf t + lateImbalance db asOf t =
      transferImbalance db none none t := by
  rw [transferImbalance, transferImbalance, lateImbalance, asOfCut_none, group_filter,
    group_filter]
  exact sumBy_filter_add Entry.signedBaseAmount (asOfCut asOf) _

/-- **The grouped query is exact**: it lists nothing iff every transfer sums to
zero.  The limit does not matter as long as there is room for one. -/
theorem unbalancedTransfers_eq_nil_iff (db : Db) (fund : Option Uuid) {limit : ℕ}
    (hlimit : 0 < limit) :
    unbalancedTransfers db fund limit = [] ↔ ∀ t, transferImbalance db fund none t = 0 := by
  have htake : ∀ l : List (Uuid × Money), l.take limit = [] ↔ l = [] := by
    intro l
    rw [List.take_eq_nil_iff]
    exact or_iff_right hlimit.ne'
  unfold unbalancedTransfers
  dsimp only
  rw [htake, List.filter_eq_nil_iff, List.forall_mem_map]
  simp only [transferImbalance, asOfCut_none]
  constructor
  · intro h t
    by_cases ht : t ∈ (fundEntries db fund).map Entry.transfer
    · have hrow := h t ((List.mem_insertionSort _).mpr (List.mem_dedup.mpr ht))
      simpa using hrow
    · rw [group_eq_nil, sumBy_nil]
      exact fun e he heq => ht (List.mem_map.mpr ⟨e, he, heq⟩)
  · intro h t _
    simp [h t]

/-- When every transfer sums to zero up to a cut, so does the table. -/
theorem totalImbalance_eq_zero_of_transfers {db : Db} {asOf : Option Timestamp}
    (h : ∀ t, transferImbalance db none asOf t = 0) : totalImbalance db asOf = 0 :=
  sumBy_eq_zero_of_groups _ Entry.transfer _ h

theorem fundImbalance_eq_zero_of_transfers {db : Db} {fund : Uuid}
    (h : ∀ t, transferImbalance db (some fund) none t = 0) : fundImbalance db fund = 0 := by
  refine sumBy_eq_zero_of_groups _ Entry.transfer _ fun t => ?_
  have ht := h t
  rw [transferImbalance, asOfCut_none] at ht
  exact ht

/-! ## The reports -/

theorem reconcile_isOk_iff (db : Db) (asOf : Option Timestamp) :
    (∃ line, reconcile db asOf = .ok line) ↔
      totalImbalance db asOf = 0 ∧ ∀ t, transferImbalance db none none t = 0 := by
  rw [← unbalancedTransfers_eq_nil_iff db none (show 0 < 100 by norm_num), reconcile]
  split
  · rename_i h
    simp only [reduceCtorEq, exists_false, false_iff, not_and]
    exact fun hzero => h.resolve_left (not_not.mpr hzero)
  · rename_i h
    rw [not_or, not_not, not_not] at h
    exact ⟨fun _ => h, fun _ => ⟨_, rfl⟩⟩

theorem fundReconciliation_balanced_iff (db : Db) (fund : Uuid) :
    (fundReconciliation db fund).balanced = true ↔
      ∀ t, transferImbalance db (some fund) none t = 0 := by
  rw [← unbalancedTransfers_eq_nil_iff db (some fund) (show 0 < 100 by norm_num)]
  show decide (fundImbalance db fund = 0 ∧ unbalancedTransfers db (some fund) = []) = true ↔ _
  rw [decide_eq_true_iff]
  refine ⟨And.right, fun hnil => ⟨?_, hnil⟩⟩
  exact fundImbalance_eq_zero_of_transfers
    ((unbalancedTransfers_eq_nil_iff db (some fund) (by norm_num)).mp hnil)

/-- The entries after the cut leave every transfer as it is. -/
def LateBalanced (db : Db) (asOf : Option Timestamp) : Prop :=
  ∀ t, lateImbalance db asOf t = 0

/-- There is an imbalance at the cut, and it shows in the total at the cut or
in a transfer over the whole table. -/
def Shows (db : Db) (asOf : Option Timestamp) : Prop :=
  (∃ t, transferImbalance db none asOf t ≠ 0) ∧
    (totalImbalance db asOf ≠ 0 ∨ ∃ t, transferImbalance db none none t ≠ 0)

/-- An entry of a corrupted table. -/
def strayEntry (id transfer : Uuid) (direction : Direction) (createdAt : Timestamp) : Entry where
  id
  transfer
  account := 1
  direction
  amount := 10000
  currency := "GBP"
  fxRate := none
  baseAmount := 10000
  createdAt

/-- Two transfers, each with an entry at noon and its counterpart the day
after. -/
def splitTransfers : Db :=
  { Db.empty with entries := ⟨[strayEntry 1 1 .DEBIT 1, strayEntry 2 2 .CREDIT 1,
      strayEntry 3 1 .CREDIT 3, strayEntry 4 2 .DEBIT 3], by decide⟩ }

end FundLedger
