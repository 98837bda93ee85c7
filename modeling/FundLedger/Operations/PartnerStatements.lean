import FundLedger.Operations.ChartCodes
import FundLedger.Operations.Statements

/-!
# The statement of one partner

`Accounted` is the invariant of a fund whose accounts have been opened: the
books are in order, and every entry on one of the fund's accounts is on an
account that takes part.  From it `lpStatement_eq` says what a statement is:
it can be made, and it shows what the loop adds up from the movements of the
periods, where a movement is the partner's own entries and its portion of the
gains and fees.

There are four groups.

* `Accounted.change` is the step lemma, and `Accounted.afterCalls` the run.
* Totals of a period: by account type, and by account.
* A movement: its own entries sum to the account's total whatever their
  effective types are, and the portions do not depend on the order of the rows.
* The loop over the periods, and the statement.
-/

namespace FundLedger

open Lib Relation

/-! ## The invariant -/

/-- The books are in order, the fund is set up, and every entry on one of its
accounts is on an account that takes part. -/
structure Accounted (db : Db) (fund : Fund) : Prop where
  books : Books db
  ready : Ready db fund
  entries : ∀ e ∈ db.entries, PostsTo db fund e.account

theorem Genesis.accounted {db : Db} {fund : Fund} (h : Genesis db) (hr : Ready db fund) :
    Accounted db fund := by
  refine ⟨h.books, hr, fun e he => ?_⟩
  rw [← Table.mem_rows, h.entries] at he
  cases he

/-- An account that takes part goes on to do so. -/
theorem TakesPart.later {db db' : Db} {fund : Fund} {a : Account}
    (hx : db'.commitments = db.commitments) (h : TakesPart db fund a) : TakesPart db' fund a := by
  unfold TakesPart at h ⊢
  rwa [commitmentsOf, hx]

/-- **One step**: a change that comes from a business operation or a reversal
keeps the invariant. -/
theorem Accounted.change {db db' : Db} {fund : Fund} (h : Accounted db fund)
    (hc : Change Business db db') : Accounted db' fund := by
  have hx := hc.extends
  refine ⟨h.books.change hc, h.ready.change hc, fun e he => ?_⟩
  -- an account of an earlier entry is an earlier account
  have hold : ∀ e ∈ db.entries, PostsTo db' fund e.account := by
    intro e he a ha hf hid
    obtain ⟨t, ht, hte⟩ := h.books.entry_transfer e he
    obtain ⟨p, -, -, haccounts⟩ := (h.books.transfer_books t ht).same_fund
    obtain ⟨b, hb, hbe, -⟩ := haccounts e (mem_group.mpr ⟨he, hte.symm⟩)
    obtain rfl : a = b := Table.eq_of_key_eq ha (hx.accounts.subset hb) (hid.trans hbe.symm)
    exact (h.entries e he a hb hf hid).later hx.commitments
  obtain ⟨env, a, es, hbusiness, -, posted⟩ | keeps := hc.posted_or_keeps
  · rw [← Table.mem_rows, posted.entries_eq, List.mem_append] at he
    rcases he with he | he
    · exact hold e he
    · obtain ⟨leg, hleg, hle⟩ := posted.exists_leg he
      obtain ⟨transfers, entries, -, -, hdb'⟩ := posted.appended
      have hnew : PostsTo db fund e.account :=
        hle ▸ h.ready.postsTo_of_business h.entries hbusiness hleg
      intro b hb hf hid
      have hb : b ∈ db.accounts := by rwa [hdb'] at hb
      exact (hnew b hb hf hid).later hx.commitments
  · exact hold e (keeps.entries ▸ he)

/-- **A run** keeps it. -/
theorem Accounted.afterCalls {db : Db} {fund : Fund} (h : Accounted db fund) {calls : List Call}
    (hcalls : ∀ c ∈ calls, c.op.IsBusiness) : Accounted (FundLedger.afterCalls db calls) fund :=
  (afterCalls_business hcalls db).invariant (I := fun d => Accounted d fund)
    (fun _ _ hd hc => hd.change hc) h

/-! ## Money as a number -/

/-- The value of an amount of money. -/
def Money.worth : Money →+ ℚ where
  toFun m := (m : ℚ) / (10 : ℚ) ^ 4
  map_zero' := by simp
  map_add' m n := by
    push_cast
    ring

theorem Money.val_toDec_eq (m : Money) : m.toDec.val = Money.worth m := Money.val_toDec m

theorem Money.worth_le {m n : Money} : Money.worth m ≤ Money.worth n ↔ m ≤ n := by
  rw [← Money.val_toDec_eq, ← Money.val_toDec_eq, Money.val_toDec, Money.val_toDec,
    div_le_div_iff_of_pos_right (by norm_num)]
  exact Int.cast_le

theorem Money.val_orZero (m : Money) : (Money.orZero m).val = Money.worth m := by
  unfold Money.orZero
  split
  · rename_i h
    rw [h, Dec.val_zero, map_zero]
  · exact Money.val_toDec_eq m

/-! ## One period -/

/-- The entries of a period. -/
def entriesIn (db : Db) (period : Uuid) : List Entry :=
  group (entryPeriod db) (some period) db.entries.rows

/-- What the accounts of one type moved by in a period. -/
def typeTotal (db : Db) (period : Uuid) (t : AccountType) : Money :=
  sumBy Entry.signedBaseAmount (group (entryAccountType db) (some t) (entriesIn db period))

/-- What one account moved by in a period. -/
def accountTotal (db : Db) (period account : Uuid) : Money :=
  sumBy Entry.signedBaseAmount (group Entry.account account (entriesIn db period))

theorem mem_entriesIn {db : Db} {period : Uuid} {e : Entry} :
    e ∈ entriesIn db period ↔ e ∈ db.entries ∧ entryPeriod db e = some period := mem_group

/-- The account type and fund of an entry whose account is known. -/
theorem entry_of_account {db : Db} {e : Entry} {a : Account} (ha : a ∈ db.accounts)
    (hid : a.id = e.account) : entryAccountType db e = some a.accountType ∧
      entryFund db e = some a.fund := by
  rw [entryAccountType, entryFund, Table.get?_eq_some.mpr ⟨ha, hid⟩]
  exact ⟨rfl, rfl⟩

namespace Accounted

variable {db : Db} {fund : Fund}

/-- Every entry has an account, in the fund of its period. -/
theorem exists_account (h : Accounted db fund) {e : Entry} (he : e ∈ db.entries) :
    ∃ a ∈ db.accounts, a.id = e.account ∧ ∃ p ∈ db.periods, entryPeriod db e = some p.id ∧
      a.fund = p.fund := by
  obtain ⟨t, ht, hte⟩ := h.books.entry_transfer e he
  obtain ⟨p, hp, hpt, haccounts⟩ := (h.books.transfer_books t ht).same_fund
  obtain ⟨a, ha, hae, haf⟩ := haccounts e (mem_group.mpr ⟨he, hte.symm⟩)
  exact ⟨a, ha, hae, p, hp, hpt ▸ Books.entryPeriod_eq ht hte, haf⟩

/-- The entries of a period of the fund are on accounts of the fund that take
part. -/
theorem account_of_entriesIn (h : Accounted db fund) {p : Period} (hp : p ∈ db.periods)
    (hf : p.fund = fund.id) {e : Entry} (he : e ∈ entriesIn db p.id) :
    ∃ a ∈ db.accounts, a.id = e.account ∧ a.fund = fund.id ∧ TakesPart db fund a := by
  obtain ⟨he, hep⟩ := mem_entriesIn.mp he
  obtain ⟨a, ha, hae, q, hq, heq, haf⟩ := h.exists_account he
  obtain rfl : p = q :=
    Table.eq_of_key_eq hp hq (Option.some.inj (hep.symm.trans heq))
  have haf := haf.trans hf
  exact ⟨a, ha, hae, haf, h.entries e he a ha haf hae⟩

/-- The types of account that entries of the fund are on. -/
def types : List AccountType := [.CASH, .INVESTMENT, .FEE_EXPENSE, .GAIN_LOSS, .LP_CAPITAL]

/-- **Double entry for one period**: the totals of the account types sum to
zero. -/
theorem sum_typeTotal (h : Accounted db fund) {p : Period} (hp : p ∈ db.periods)
    (hf : p.fund = fund.id) : sumBy (typeTotal db p.id) types = 0 := by
  have hall : ∀ e ∈ entriesIn db p.id, entryAccountType db e ∈ types.map some := by
    intro e he
    obtain ⟨a, ha, hae, -, hpart⟩ := h.account_of_entriesIn hp hf he
    rw [(entry_of_account ha hae).1, List.mem_map]
    refine ⟨_, ?_, rfl⟩
    rcases hpart with hmem | ⟨c, -, hca⟩
    · simp only [List.mem_cons, List.not_mem_nil, or_false] at hmem
      rcases hmem with ht | ht | ht | ht <;> simp [types, ht]
    · simp [types, hca.type]
  have hgroups := sumBy_groups_of_mem Entry.signedBaseAmount (by decide) hall
  rw [sumBy_map] at hgroups
  exact hgroups.trans (h.books.periodImbalance_eq_zero p.id)

end Accounted

/-! ## The capital accounts of the partners -/

/-- The partners with a commitment, by id. -/
def partnerIds (db : Db) (fund : Fund) : List Uuid :=
  (commitmentsOf db fund.id).map Commitment.lp

/-- The id of the capital account of a partner. -/
def capitalAccountId (db : Db) (fund : Fund) (lp : Uuid) : Uuid :=
  match lookup (lpCapitalAccounts db fund) lp with
  | .ok a => a.id
  | .error _ => 0

theorem capitalAccountId_of_lookup {db : Db} {fund : Fund} {lp : Uuid} {a : Account}
    (h : lookup (lpCapitalAccounts db fund) lp = .ok a) : capitalAccountId db fund lp = a.id := by
  rw [capitalAccountId, h]

theorem Ready.exists_capital {db : Db} {fund : Fund} (h : Ready db fund) {lp : Uuid}
    (hlp : lp ∈ partnerIds db fund) : ∃ a ∈ db.accounts, CapitalAccount fund lp a ∧
      lookup (lpCapitalAccounts db fund) lp = .ok a := by
  obtain ⟨c, hc, rfl⟩ := List.mem_map.mp hlp
  obtain ⟨a, ha, hca⟩ := h.capital_account c hc
  exact ⟨a, ha, hca, h.lookup_capital ha hca⟩

theorem Ready.nodup_capitalAccountIds {db : Db} {fund : Fund} (h : Ready db fund) :
    ((partnerIds db fund).map (capitalAccountId db fund)).Nodup := by
  refine (List.nodup_map_iff_inj_on h.one_commitment).mpr fun lp hlp lq hlq heq => ?_
  obtain ⟨a, ha, hca, hla⟩ := h.exists_capital hlp
  obtain ⟨b, hb, hcb, hlb⟩ := h.exists_capital hlq
  rw [capitalAccountId_of_lookup hla, capitalAccountId_of_lookup hlb] at heq
  obtain rfl : a = b := Table.eq_of_key_eq ha hb heq
  exact Option.some.inj (hca.owner.symm.trans hcb.owner)

namespace Accounted

variable {db : Db} {fund : Fund}

/-- **The entries on capital accounts belong to the partners**, each to one. -/
theorem sum_accountTotal (h : Accounted db fund) {p : Period} (hp : p ∈ db.periods)
    (hf : p.fund = fund.id) :
    sumBy (fun lp => accountTotal db p.id (capitalAccountId db fund lp)) (partnerIds db fund) =
      typeTotal db p.id .LP_CAPITAL := by
  let rows := group (entryAccountType db) (some .LP_CAPITAL) (entriesIn db p.id)
  have hsame : ∀ lp ∈ partnerIds db fund, accountTotal db p.id (capitalAccountId db fund lp) =
      sumBy Entry.signedBaseAmount (group Entry.account (capitalAccountId db fund lp) rows) := by
    intro lp hlp
    obtain ⟨a, ha, hca, hlook⟩ := h.ready.exists_capital hlp
    rw [capitalAccountId_of_lookup hlook, accountTotal]
    congr 1
    simp only [rows, group, List.filter_filter]
    refine List.filter_congr fun e he => ?_
    by_cases hea : e.account = a.id
    · simp [hea, (entry_of_account ha hea.symm).1, hca.type]
    · simp [hea]
  have hkeys : ∀ e ∈ rows, e.account ∈ (partnerIds db fund).map (capitalAccountId db fund) := by
    intro e he
    obtain ⟨he, htype⟩ := mem_group.mp he
    obtain ⟨a, ha, hae, -, hpart⟩ := h.account_of_entriesIn hp hf he
    have hlp : a.accountType = .LP_CAPITAL :=
      Option.some.inj ((entry_of_account ha hae).1.symm.trans htype)
    obtain ⟨c, hc, hca⟩ := hpart.resolve_left (by rw [hlp]; simp)
    refine List.mem_map.mpr ⟨c.lp, List.mem_map_of_mem hc, ?_⟩
    rw [capitalAccountId_of_lookup (h.ready.lookup_capital ha hca), hae]
  rw [sumBy_congr hsame, typeTotal,
    ← sumBy_groups_of_mem Entry.signedBaseAmount h.ready.nodup_capitalAccountIds hkeys, sumBy_map]

end Accounted

/-! ## A partner's own movement -/

/-- What a movement says the partner's own entries come to. -/
def Movement.own (m : Movement) : ℚ := m.contributions.val - m.distributions.val + m.other.val

theorem Movement.val_net (m : Movement) :
    m.net.val = m.own + m.allocatedGains.val - m.allocatedFees.val := by
  simp only [Movement.net, Movement.own, Dec.val_sub, Dec.val_add]

theorem own_addRow (m : Movement) (row : TransferType × Money) :
    (addRow m row).own = m.own - Money.worth row.2 := by
  have hval : (-Money.toDec row.2).val = -Money.worth row.2 := by
    rw [Dec.val_neg, Money.val_toDec_eq]
  unfold addRow Movement.own
  dsimp only
  split <;> simp only [Dec.val_add, Dec.val_sub, hval] <;> ring

theorem own_foldl_addRow (rows : List (TransferType × Money)) :
    ∀ m : Movement, (rows.foldl addRow m).own = m.own - sumBy (fun r => Money.worth r.2) rows := by
  induction rows with
  | nil => simp
  | cons r rows ih =>
    intro m
    rw [List.foldl_cons, ih, own_addRow, sumBy_cons]
    ring

/-- **Whatever their effective types, the rows of the grouped query sum to the
entries of the account.** -/
theorem Accounted.own_lpLedgerMovement {db : Db} {fund : Fund} (h : Accounted db fund)
    (account period : Uuid) :
    (lpLedgerMovement db account period).own = -Money.worth (accountTotal db period account) := by
  have hrows : periodEntries db account period =
      group Entry.account account (entriesIn db period) := by
    simp only [periodEntries, group, entriesIn, List.filter_filter, Bool.decide_and]
  have htyped : ∀ e ∈ periodEntries db account period, entryType db e ∈
      ((periodEntries db account period).filterMap (entryType db)).dedup.map some := by
    intro e he
    obtain ⟨t, ht, hte⟩ := h.books.entry_transfer e (List.mem_of_mem_filter he)
    have htype : entryType db e = some (effectiveType db t) := by
      rw [entryType, Table.get?_eq_some.mpr ⟨ht, hte⟩, Option.map_some]
    rw [htype]
    exact List.mem_map_of_mem (List.mem_dedup.mpr (List.mem_filterMap.mpr ⟨e, he, htype⟩))
  have hnodup : (((periodEntries db account period).filterMap (entryType db)).dedup.map
      some).Nodup := (List.nodup_dedup _).map (Option.some_injective _)
  have hsum := sumBy_groups_of_mem Entry.signedBaseAmount hnodup htyped
  rw [sumBy_map] at hsum
  rw [lpLedgerMovement, own_foldl_addRow, sumBy_hom Money.worth, movementRows, sumBy_map,
    accountTotal, ← hrows, ← hsum]
  simp [Movement.own, group]

/-! ## The allocations -/

/-- The commitments as weights, in insertion order. -/
def fundWeights (db : Db) (fund : Fund) : Dict Uuid Dec :=
  commitmentWeights (commitmentsOf db fund.id)

namespace WellFormed

variable {db : Db} {fund : Fund}

theorem rows_commitmentWeights (h : WellFormed db fund) {commitments : List Commitment}
    (hperm : commitments.Perm (commitmentsOf db fund.id)) :
    (commitmentWeights commitments).rows =
      commitments.map fun c => (c.lp, c.committedAmount.toDec) := by
  refine Dict.rows_ofList ?_
  rw [List.map_map]
  exact (hperm.map Commitment.lp).nodup_iff.mpr h.one_commitment

theorem weights_perm (h : WellFormed db fund) (order : RowOrder Commitment) :
    (commitmentWeights (order.order (commitmentsOf db fund.id))).rows.Perm
      (fundWeights db fund).rows := by
  rw [fundWeights, h.rows_commitmentWeights (order.perm _), h.rows_commitmentWeights (.refl _)]
  exact (order.perm _).map _

theorem keys_fundWeights (h : WellFormed db fund) : (fundWeights db fund).keys = partnerIds db fund := by
  rw [Dict.keys, fundWeights, h.rows_commitmentWeights (.refl _), List.map_map]
  rfl

/-- The commitments of a fund with partners can serve as weights. -/
theorem checkWeights_fundWeights (h : WellFormed db fund) (hpartners : partnerIds db fund ≠ []) :
    checkWeights (fundWeights db fund) = .ok () := by
  have hrows := h.rows_commitmentWeights (.refl (commitmentsOf db fund.id))
  have hvalues : (fundWeights db fund).values =
      (commitmentsOf db fund.id).map fun c => c.committedAmount.toDec := by
    rw [Dict.values, fundWeights, hrows, List.map_map]
    rfl
  have hne : commitmentsOf db fund.id ≠ [] := fun hnil => hpartners (by rw [partnerIds, hnil]; rfl)
  refine checkWeights_ok.mpr ⟨?_, ?_, ?_⟩
  · rw [fundWeights, hrows]
    simpa using hne
  · intro w hw
    rw [hvalues] at hw
    obtain ⟨c, hc, rfl⟩ := List.mem_map.mp hw
    exact (h.positive c hc).le
  · rw [Ne, ← Dec.val_eq_zero_iff, hvalues, Dec.val_sum, List.map_map]
    refine (List.sum_pos _ ?_ (by simpa using hne)).ne'
    intro x hx
    obtain ⟨c, hc, rfl⟩ := List.mem_map.mp hx
    exact (Dec.val_pos_iff _).mpr (h.positive c hc)

end WellFormed

/-- An amount of money can be split into ten-thousandths. -/
theorem unitsOf_of_worth {d : Dec} {m : Money} (h : |d.val| = |Money.worth m|) :
    (unitsOf d fourDp).den = 1 := by
  have hunits : unitsOf d fourDp = unitsOf (Dec.ofUnits 4 m) ⟨1, -(4 : ℕ)⟩ := by
    rw [unitsOf, unitsOf, Dec.val_abs, Dec.val_abs, h, ← Money.val_toDec_eq]
    rfl
  rw [hunits]
  exact unitsOf_ofUnits 4 m

/-- What the partner gets of an amount. -/
def portion (db : Db) (fund : Fund) (total : Dec) (lp : Uuid) : Dec :=
  allotted (id : Uuid → ℕ) total (fundWeights db fund) fourDp lp

/-- A share is found under the partner, in whatever order the query returned the
commitments. -/
theorem WellFormed.lookup_shares {db : Db} {fund : Fund} (h : WellFormed db fund)
    (order : RowOrder Commitment) (total quantum : Dec) {lp : Uuid} (hlp : lp ∈ partnerIds db fund) :
    lookup ((commitmentWeights (order.order (commitmentsOf db fund.id))).mapItems fun k _ =>
      allotted (id : Uuid → ℕ) total (commitmentWeights (order.order (commitmentsOf db fund.id)))
        quantum k) lp = .ok (allotted (id : Uuid → ℕ) total (fundWeights db fund) quantum lp) := by
  have hperm := h.weights_perm order
  rw [lookup, Dict.get?_mapItems]
  obtain ⟨i, hi⟩ : ∃ i, (commitmentWeights (order.order (commitmentsOf db fund.id))).get? lp =
      some i := by
    rw [← h.keys_fundWeights] at hlp
    obtain ⟨i, hi, rfl⟩ := List.mem_map.mp hlp
    exact ⟨i, Table.get?_of_mem (hperm.mem_iff.mpr hi)⟩
  obtain ⟨-, rfl⟩ := Table.get?_eq_some.mp hi
  rw [hi, ← allotted_perm Function.injective_id hperm]
  rfl

/-- **Each partner's own allocation gives the portions**, in whatever order
the query returned the commitments. -/
theorem WellFormed.lookup_allocate {db : Db} {fund : Fund} (h : WellFormed db fund)
    (order : RowOrder Commitment) {d : Dec} {m : Money} (hd : |d.val| = |Money.worth m|) {lp : Uuid}
    (hlp : lp ∈ partnerIds db fund) :
    (do lookup (← lpMovement.orValueError (allocate (id : Uuid → ℕ) d
      (commitmentWeights (order.order (commitmentsOf db fund.id))) fourDp)) lp) =
      .ok (portion db fund d lp) := by
  have hweights := checkWeights_perm (h.weights_perm order).symm
    (h.checkWeights_fundWeights (List.ne_nil_of_mem hlp))
  rw [allocate_ok.mpr ⟨hweights, unitsOf_of_worth hd, rfl⟩]
  exact h.lookup_shares order d fourDp hlp

/-- **The portions sum to the amount.** -/
theorem WellFormed.sum_portion {db : Db} {fund : Fund} (h : WellFormed db fund)
    (hpartners : partnerIds db fund ≠ []) {d : Dec} {m : Money} (hd : |d.val| = |Money.worth m|) :
    sumBy (fun lp => (portion db fund d lp).val) (partnerIds db fund) = d.val := by
  have halloc : allocate (id : Uuid → ℕ) d (fundWeights db fund) fourDp =
      .ok ((fundWeights db fund).mapItems fun k _ => portion db fund d k) :=
    allocate_ok.mpr ⟨h.checkWeights_fundWeights hpartners, unitsOf_of_worth hd, rfl⟩
  have hsum := allocate_sum ((Dec.val_pos_iff fourDp).mpr (by decide)) halloc
  rw [← hsum, ← h.keys_fundWeights, Dict.keys, Dict.values, Dict.rows_mapItems, List.map_map,
    sumBy_map, sumBy_map]
  rfl

/-! ## A partner's movement in a period -/

/-- The gains of a period, which are credits. -/
def gainsOf (db : Db) (fund : Fund) (period : Uuid) : Dec :=
  -fundTotal db fund.id period .GAIN_LOSS

/-- The fees of a period, which are debits. -/
def feesOf (db : Db) (fund : Fund) (period : Uuid) : Dec := fundTotal db fund.id period .FEE_EXPENSE

/-- The movement that a statement of the partner shows for a period. -/
def movementOf (db : Db) (fund : Fund) (lp period : Uuid) : Movement :=
  { lpLedgerMovement db (capitalAccountId db fund lp) period with
    allocatedGains := portion db fund (gainsOf db fund period) lp
    allocatedFees := portion db fund (feesOf db fund period) lp }

/-- What a partner's capital changes by in a period. -/
def netOf (db : Db) (fund : Fund) (lp period : Uuid) : ℚ :=
  -Money.worth (accountTotal db period (capitalAccountId db fund lp)) +
    (portion db fund (gainsOf db fund period) lp).val -
    (portion db fund (feesOf db fund period) lp).val

/-- **The movement of a partner** can be worked out, and it is the same
whatever the order of the commitments. -/
theorem WellFormed.lpMovement_eq {db : Db} {fund : Fund} (h : WellFormed db fund)
    (order : RowOrder Commitment) {lp : Uuid} (hlp : lp ∈ partnerIds db fund) (period : Uuid) :
    lpMovement db fund (commitmentWeights (order.order (commitmentsOf db fund.id))) lp
      (capitalAccountId db fund lp) period = .ok (movementOf db fund lp period) := by
  have htotal : ∀ t, ∃ m, (fundTotal db fund.id period t).val = Money.worth m := fun t =>
    ⟨_, Money.val_orZero _⟩
  obtain ⟨m, hm⟩ := htotal .GAIN_LOSS
  obtain ⟨n, hn⟩ := htotal .FEE_EXPENSE
  have hgains : |(gainsOf db fund period).val| = |Money.worth m| := by
    rw [gainsOf, Dec.val_neg, abs_neg, hm]
  have hfees : |(feesOf db fund period).val| = |Money.worth n| := congrArg abs hn
  obtain ⟨gains, hg, hglook⟩ := except_bind_ok.mp (h.lookup_allocate order hgains hlp)
  obtain ⟨fees, hfe, hflook⟩ := except_bind_ok.mp (h.lookup_allocate order hfees hlp)
  exact except_bind_ok.mpr ⟨gains, hg, except_bind_ok.mpr ⟨_, hglook,
    except_bind_ok.mpr ⟨fees, hfe, except_bind_ok.mpr ⟨_, hflook, rfl⟩⟩⟩⟩

namespace Accounted

variable {db : Db} {fund : Fund}

theorem val_fundTotal (h : Accounted db fund) {p : Period} (hp : p ∈ db.periods)
    (hf : p.fund = fund.id) (t : AccountType) :
    (fundTotal db fund.id p.id t).val = Money.worth (typeTotal db p.id t) := by
  rw [fundTotal, Money.val_orZero, typeTotal]
  congr 2
  simp only [group, entriesIn, List.filter_filter]
  refine List.filter_congr fun e he => ?_
  by_cases hep : entryPeriod db e = some p.id
  · obtain ⟨a, ha, hae, haf, -⟩ := h.account_of_entriesIn hp hf (mem_entriesIn.mpr ⟨he, hep⟩)
    simp [hep, (entry_of_account ha hae).2, haf]
  · simp [hep]

theorem val_net_movementOf (h : Accounted db fund) (lp period : Uuid) :
    (movementOf db fund lp period).net.val = netOf db fund lp period := by
  rw [Movement.val_net, netOf]
  congr 2
  exact h.own_lpLedgerMovement _ _

end Accounted

/-! ## The loop over the periods -/

/-- Periods other than the current one go into the opening balance. -/
theorem foldl_addPeriod_of_not_mem {current : Uuid} {move : Period → Movement} {ps : List Period} :
    ∀ {r : Running}, (∀ p ∈ ps, p.id ≠ current) →
      let r' := ps.foldl (fun r p => addPeriod current r p (move p)) r
      r'.opening.val = r.opening.val + sumBy (fun p => (move p).net.val) ps ∧
        r'.current = r.current := by
  induction ps with
  | nil => simp
  | cons p ps ih =>
    intro r hne
    obtain ⟨hp, hps⟩ := List.forall_mem_cons.mp hne
    obtain ⟨hopening, hcurrent⟩ := @ih (addPeriod current r p (move p)) hps
    refine ⟨hopening.trans ?_, hcurrent.trans ?_⟩
    · rw [addPeriod, if_neg hp, sumBy_cons, Dec.val_add, add_assoc]
    · rw [addPeriod, if_neg hp]

theorem contributedToDate_foldl_addPeriod {current : Uuid} {move : Period → Movement}
    (ps : List Period) : ∀ r : Running,
      (ps.foldl (fun r p => addPeriod current r p (move p)) r).contributedToDate.val =
        r.contributedToDate.val + sumBy (fun p => (move p).contributions.val) ps := by
  induction ps with
  | nil => simp
  | cons p ps ih =>
    intro r
    have hp : (addPeriod current r p (move p)).contributedToDate =
        r.contributedToDate + (move p).contributions := by
      unfold addPeriod
      split <;> rfl
    rw [List.foldl_cons, ih, hp, sumBy_cons, Dec.val_add, add_assoc]

/-- **What the loop adds up**, over periods of which one is the current one:
its movement is the current one, and the closing balance is the sum of all the
movements. -/
theorem foldl_addPeriod {current : Period} {move : Period → Movement} {ps : List Period}
    (hnodup : (ps.map Period.id).Nodup) (hmem : current ∈ ps) :
    let r := ps.foldl (fun r p => addPeriod current.id r p (move p)) ({} : Running)
    r.current = move current ∧
      (r.opening + r.current.net).val = sumBy (fun p => (move p).net.val) ps := by
  obtain ⟨before, after, rfl⟩ := List.append_of_mem hmem
  rw [List.map_append, List.map_cons, List.nodup_append, List.nodup_cons] at hnodup
  obtain ⟨-, ⟨hafter, -⟩, hdisjoint⟩ := hnodup
  have hbefore : ∀ p ∈ before, p.id ≠ current.id := fun p hp =>
    hdisjoint _ (List.mem_map_of_mem hp) _ List.mem_cons_self
  have hlater : ∀ p ∈ after, p.id ≠ current.id := fun p hp heq =>
    hafter (heq ▸ List.mem_map_of_mem hp)
  obtain ⟨hb, -⟩ := @foldl_addPeriod_of_not_mem current.id move before {} hbefore
  simp only [List.foldl_append, List.foldl_cons, Dec.val_add]
  generalize before.foldl (fun r p => addPeriod current.id r p (move p)) {} = r at hb ⊢
  obtain ⟨ha, hc⟩ := @foldl_addPeriod_of_not_mem current.id move after
    (addPeriod current.id r current (move current)) hlater
  have hcurrent : (addPeriod current.id r current (move current)).current = move current := by
    rw [addPeriod, if_pos rfl]
  refine ⟨hc.trans hcurrent, ?_⟩
  rw [ha, hc, sumBy_append, sumBy_cons, addPeriod, if_pos rfl]
  dsimp only at hb ⊢
  rw [hb, Dec.val_zero]
  ring

theorem foldlM_ok {α β ε : Type} {f : β → α → Except ε β} {g : β → α → β} {l : List α}
    (h : ∀ b, ∀ a ∈ l, f b a = .ok (g b a)) (b : β) : l.foldlM f b = .ok (l.foldl g b) := by
  induction l generalizing b with
  | nil => rfl
  | cons a l ih =>
    obtain ⟨ha, hl⟩ : (∀ b, f b a = .ok (g b a)) ∧ ∀ b, ∀ a ∈ l, f b a = .ok (g b a) :=
      ⟨fun b => h b a List.mem_cons_self, fun b a hm => h b a (List.mem_cons_of_mem _ hm)⟩
    rw [List.foldlM_cons, ha, List.foldl_cons]
    exact ih hl _

theorem mapM_sum_of_forall {α β ε M : Type} [AddCommMonoid M] {f : α → Except ε β} {g : β → M}
    {v : α → M} {l : List α} (h : ∀ a ∈ l, ∃ b, f a = .ok b ∧ g b = v a) :
    ∃ bs, l.mapM f = .ok bs ∧ sumBy g bs = sumBy v l := by
  induction l with
  | nil => exact ⟨[], rfl, rfl⟩
  | cons a l ih =>
    obtain ⟨b, hb, hg⟩ := h a List.mem_cons_self
    obtain ⟨bs, hbs, hsum⟩ := ih fun a ha => h a (List.mem_cons_of_mem _ ha)
    refine ⟨b :: bs, ?_, ?_⟩
    · rw [mapM_except_ok] at hbs ⊢
      exact .cons hb hbs
    · rw [sumBy_cons, sumBy_cons, hg, hsum]

theorem mem_periodsThrough {db : Db} {fund : Uuid} {start : Date} {p : Period} :
    p ∈ periodsThrough db fund start ↔ p ∈ db.periods ∧ p.fund = fund ∧ p.startDate ≤ start := by
  rw [periodsThrough, List.mem_insertionSort, List.mem_filter, Bool.decide_and, Bool.and_eq_true,
    decide_eq_true_eq, decide_eq_true_eq]
  rfl

theorem nodup_periodsThrough (db : Db) (fund : Uuid) (start : Date) :
    ((periodsThrough db fund start).map Period.id).Nodup := by
  have hperm := (List.perm_insertionSort (fun p q : Period => p.startDate ≤ q.startDate)
    (db.periods.rows.filter fun p => p.fund = fund ∧ p.startDate ≤ start)).map Period.id
  exact hperm.nodup_iff.mpr (db.periods.nodup.sublist (List.filter_sublist.map _))

/-! ## The statement -/

/-- An entry on an account of the fund is in a period of the fund, and the cut
compares the start of that period. -/
theorem Accounted.exists_period {db : Db} {fund : Fund} (h : Accounted db fund) {e : Entry}
    (he : e ∈ db.entries) (hf : entryFund db e = some fund.id) :
    ∃ r ∈ db.periods, r.fund = fund.id ∧ entryPeriod db e = some r.id ∧
      ∀ period, throughCut db (some period) e = decide (r.startDate ≤ period.startDate) := by
  obtain ⟨a, ha, hae, r, hr, her, haf⟩ := h.exists_account he
  have hrf : r.fund = fund.id :=
    haf.symm.trans (Option.some.inj ((entry_of_account ha hae).2.symm.trans hf))
  refine ⟨r, hr, hrf, her, fun period => ?_⟩
  obtain ⟨t, ht, hte⟩ := h.books.entry_transfer e he
  have htr : t.period = r.id := Option.some.inj ((Books.entryPeriod_eq ht hte).symm.trans her)
  rw [throughCut, entryPeriodStart, Table.get?_eq_some.mpr ⟨ht, hte⟩]
  show ((db.periods.get? t.period).bind fun p => some p.startDate).any _ = _
  rw [htr, Table.get?_of_mem hr]
  rfl

/-- **A sum through a period** is the sum of the periods up to it, for entries
on accounts of the fund. -/
theorem Accounted.sum_through {db : Db} {fund : Fund} (h : Accounted db fund) {q : Entry → Bool}
    (hq : ∀ e ∈ db.entries, q e → entryFund db e = some fund.id) (period : Period) :
    sumBy Entry.signedBaseAmount
        (db.entries.rows.filter fun e => q e && throughCut db (some period) e) =
      sumBy (fun p => sumBy Entry.signedBaseAmount ((entriesIn db p.id).filter q))
        (periodsThrough db fund.id period.startDate) := by
  let keys := (periodsThrough db fund.id period.startDate).map fun p => some p.id
  have hnodup : keys.Nodup := by
    have := (nodup_periodsThrough db fund.id period.startDate).map (Option.some_injective _)
    rwa [List.map_map] at this
  have hsum := sumBy_groups Entry.signedBaseAmount (entryPeriod db) hnodup (db.entries.rows.filter q)
  rw [sumBy_map, List.filter_filter] at hsum
  refine Eq.trans ?_ (hsum.symm.trans ?_)
  · congr 1
    refine List.filter_congr fun e he => ?_
    cases hqe : q e with
    | false => simp
    | true =>
      -- the period of an entry of the fund is one of the fund's periods
      obtain ⟨r, hr, hrf, her, hcut⟩ := h.exists_period he (hq e he hqe)
      have hmem : some r.id ∈ keys ↔ r.startDate ≤ period.startDate := by
        rw [List.mem_map]
        constructor
        · rintro ⟨p, hpm, hpr⟩
          obtain ⟨hp, -, hle⟩ := mem_periodsThrough.mp hpm
          rwa [← Table.eq_of_key_eq hp hr (Option.some.inj hpr)]
        · exact fun hle => ⟨r, mem_periodsThrough.mpr ⟨hr, hrf, hle⟩, rfl⟩
      rw [her, hcut period]
      simp [hmem]
  · refine sumBy_congr fun p _ => ?_
    simp only [group, entriesIn, List.filter_filter, Bool.and_comm]

/-- What the loop of a statement ends with. -/
def runningOf (db : Db) (fund : Fund) (lp : Uuid) (period : Period) : Running :=
  (periodsThrough db fund.id period.startDate).foldl
    (fun r p => addPeriod period.id r p (movementOf db fund lp p.id)) {}

/-- The statement that shows a commitment and what the loop ended with. -/
def statementOf (fund : Fund) (lp : LimitedPartner) (period : Period) (commitment : Dec)
    (run : Running) : CapitalAccountStatement where
  fundId := fund.id
  lpId := lp.id
  lpName := lp.name
  periodStart := period.startDate
  periodEnd := period.endDate
  currency := fund.baseCurrency
  openingBalance := run.opening
  contributions := run.current.contributions
  distributions := run.current.distributions
  otherAdjustments := run.current.other
  allocatedGains := run.current.allocatedGains
  allocatedFees := run.current.allocatedFees
  closingBalance := run.opening + run.current.net
  commitment
  contributedToDate := run.contributedToDate
  unfundedCommitment := commitment - run.contributedToDate

/-- **A partner's statement can be made**, and this is what it shows. -/
theorem WellFormed.lpStatement_eq {db : Db} {fund : Fund} (h : WellFormed db fund)
    (order : RowOrder Commitment) {lp : LimitedPartner} {c : Commitment}
    (hc : c ∈ commitmentsOf db fund.id) (hlp : c.lp = lp.id) {a : Account}
    (hlook : lookup (lpCapitalAccounts db fund) lp.id = .ok a) (period : Period) :
    lpStatement db order fund lp period =
      .ok (statementOf fund lp period c.committedAmount.toDec
        (runningOf db fund lp.id period)) := by
  have hpartner : lp.id ∈ partnerIds db fund := hlp ▸ List.mem_map_of_mem hc
  have hweight : (commitmentWeights (order.order (commitmentsOf db fund.id))).get? lp.id =
      some (lp.id, c.committedAmount.toDec) := by
    have hrows : (c.lp, c.committedAmount.toDec) ∈
        (commitmentWeights (order.order (commitmentsOf db fund.id))).rows := by
      rw [h.rows_commitmentWeights (order.perm _), List.mem_map]
      exact ⟨c, (order.perm _).mem_iff.mpr hc, rfl⟩
    have hget := Table.get?_of_mem hrows
    rwa [hlp] at hget
  have hstep : ∀ r, ∀ p ∈ periodsThrough db fund.id period.startDate,
      (do
        let movement ← lpMovement db fund
          (commitmentWeights (order.order (commitmentsOf db fund.id))) lp.id a.id p.id
        return addPeriod period.id r p movement : Except Exc Running) =
        .ok (addPeriod period.id r p (movementOf db fund lp.id p.id)) := by
    intro r p _
    rw [← capitalAccountId_of_lookup hlook, h.lpMovement_eq order hpartner]
    rfl
  have hcommitment : Prod.snd <$> orRaise ((commitmentWeights (order.order (commitmentsOf db
      fund.id))).get? lp.id) (Exc.doesNotExist "Commitment") = .ok c.committedAmount.toDec := by
    rw [hweight]
    rfl
  exact except_bind_ok.mpr ⟨_, hcommitment, except_bind_ok.mpr ⟨a, hlook,
    except_bind_ok.mpr ⟨_, foldlM_ok hstep {}, rfl⟩⟩⟩

namespace Accounted

variable {db : Db} {fund : Fund}

/-- The statement of a partner of a fund that has been set up. -/
theorem lpStatement_eq (h : Accounted db fund) (order : RowOrder Commitment) {lp : LimitedPartner}
    {c : Commitment} (hc : c ∈ commitmentsOf db fund.id) (hlp : c.lp = lp.id) (period : Period) :
    lpStatement db order fund lp period =
      .ok (statementOf fund lp period c.committedAmount.toDec
        (runningOf db fund lp.id period)) := by
  have hpartner : lp.id ∈ partnerIds db fund := hlp ▸ List.mem_map_of_mem hc
  obtain ⟨a, -, -, hlook⟩ := h.ready.exists_capital hpartner
  exact h.ready.toWellFormed.lpStatement_eq order hc hlp hlook period

variable {period : Period}

theorem current_runningOf (lp : Uuid) (hp : period ∈ db.periods) (hf : period.fund = fund.id) :
    (runningOf db fund lp period).current = movementOf db fund lp period.id :=
  (foldl_addPeriod (nodup_periodsThrough db fund.id period.startDate)
    (mem_periodsThrough.mpr ⟨hp, hf, le_rfl⟩)).1

/-- The closing balance is the sum of the changes of capital in the periods up
to the one asked for. -/
theorem closing_runningOf (h : Accounted db fund) (lp : Uuid) (hp : period ∈ db.periods)
    (hf : period.fund = fund.id) :
    ((runningOf db fund lp period).opening + (runningOf db fund lp period).current.net).val =
      sumBy (fun p => netOf db fund lp p.id) (periodsThrough db fund.id period.startDate) := by
  have hclosing := (@foldl_addPeriod period (fun p => movementOf db fund lp p.id) _
    (nodup_periodsThrough db fund.id period.startDate)
    (mem_periodsThrough.mpr ⟨hp, hf, le_rfl⟩)).2
  exact hclosing.trans (sumBy_congr fun p _ => h.val_net_movementOf lp p.id)

theorem contributedToDate_runningOf (lp : Uuid) :
    (runningOf db fund lp period).contributedToDate.val =
      sumBy (fun p => (movementOf db fund lp p.id).contributions.val)
        (periodsThrough db fund.id period.startDate) := by
  rw [runningOf, contributedToDate_foldl_addPeriod, Dec.val_zero, zero_add]

/-- **The closing balance of a statement** is the sum of the partner's changes
of capital in the periods up to the one asked for. -/
theorem lpStatement_ok (h : Accounted db fund)
    (order : RowOrder Commitment) {lp : LimitedPartner} (hlp : lp.id ∈ partnerIds db fund)
    (hp : period ∈ db.periods) (hf : period.fund = fund.id) :
    ∃ s, lpStatement db order fund lp period = .ok s ∧ s.closingBalance.val =
      sumBy (fun p => netOf db fund lp.id p.id) (periodsThrough db fund.id period.startDate) := by
  obtain ⟨c, hc, hclp⟩ := List.mem_map.mp hlp
  exact ⟨_, h.lpStatement_eq order hc hclp period, h.closing_runningOf lp.id hp hf⟩

end Accounted

end FundLedger
