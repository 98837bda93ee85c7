import FundLedger.Ledger.Queries
import FundLedger.Lib.Dict

/-!
# Contributions

`operations/queries.py`: the capital that a partner has paid in.
-/

namespace FundLedger

open Lib

/-- `total or ZERO`. -/
def Money.orZero (m : Money) : Dec := if m = 0 then .zero else m.toDec

/-- The effective type of an entry's transfer. -/
def entryType (db : Db) (e : Entry) : Option TransferType :=
  (db.transfers.get? e.transfer).map (effectiveType db)

/-- Net capital paid in on an account, reversed calls taken off.  Capital is
credit-normal. -/
def contributed (db : Db) (account : Uuid) : Money :=
  -sumBy Entry.signedBaseAmount
    (db.entries.rows.filter fun e =>
      e.account = account ∧ entryType db e = some .CAPITAL_CALL)

/-- The entries of capital calls on the accounts. -/
def callEntries (db : Db) (ids : List Uuid) : List Entry :=
  db.entries.rows.filter fun e => e.account ∈ ids ∧ entryType db e = some .CAPITAL_CALL

/-- `contributed_by_account`: one grouped query over the whole history, for
any number of accounts. -/
def contributedByAccount (db : Db) (lpAccounts : List Account) : Dict Uuid Dec :=
  let ids := lpAccounts.map Account.id
  let rows := callEntries db ids
  let totals : Dict Uuid Money := Dict.ofList <| (rows.map Entry.account).dedup.map fun account =>
    (account, sumBy Entry.signedBaseAmount (group Entry.account account rows))
  Dict.ofList <| ids.map fun i => (i, -Money.orZero ((totals.get? i).elim 0 Prod.snd))

/-- The grouped query has the total of one account for each account of the
list, whichever other accounts there are. -/
theorem get?_contributedByAccount (db : Db) {lpAccounts : List Account} {a : Account}
    (ha : a ∈ lpAccounts) : (contributedByAccount db lpAccounts).get? a.id =
      some (a.id, -Money.orZero (-contributed db a.id)) := by
  have hid : a.id ∈ lpAccounts.map Account.id := List.mem_map_of_mem ha
  have hgroup : group Entry.account a.id (callEntries db (lpAccounts.map Account.id)) =
      db.entries.rows.filter fun e => e.account = a.id ∧ entryType db e = some .CAPITAL_CALL := by
    rw [group, callEntries, List.filter_filter]
    refine List.filter_congr fun e _ => ?_
    by_cases h : e.account = a.id
    · simp [h, hid]
    · simp [h]
  rw [contributedByAccount, Dict.get?_ofList_map hid]
  congr 3
  rw [contributed, neg_neg, ← hgroup]
  by_cases hrows : a.id ∈ ((callEntries db (lpAccounts.map Account.id)).map Entry.account).dedup
  · rw [Dict.get?_ofList_map hrows]
    rfl
  · have hnil : group Entry.account a.id (callEntries db (lpAccounts.map Account.id)) = [] :=
      group_eq_nil fun e he heq => hrows (List.mem_dedup.mpr (List.mem_map.mpr ⟨e, he, heq⟩))
    have hnone : (Dict.ofList <|
        ((callEntries db (lpAccounts.map Account.id)).map Entry.account).dedup.map fun account =>
          (account, sumBy Entry.signedBaseAmount
            (group Entry.account account (callEntries db (lpAccounts.map Account.id))))).get? a.id =
        none := by
      refine Table.get?_eq_none.mpr fun i hi heq => hrows ?_
      obtain ⟨j, hj, hji⟩ := List.mem_map.mp (Dict.mem_ofList hi)
      rw [← heq, ← hji]
      exact hj
    rw [hnone, hnil]
    rfl

end FundLedger
