import FundLedger.Ledger.Funds
import FundLedger.Operations.CapitalCalls
import FundLedger.Operations.ClosedStatements
import FundLedger.Operations.Shares

/-!
# Documents and their entries

A capital call and a distribution are the same thing with the sides exchanged:
for each partner whose share is not zero there is an entry on cash and one on
the partner's capital account.  `Moves` says so of a list of entries, and
`Documented` says that the stored document agrees with the ledger.

* The legs are pairs, so the legs on one account can be read off
  (`filter_pairs_cash`, `filter_pairs_capital`).
* The entries on the account are the rows of these legs (`group_legRows`).
* What was planned for the document is a list of such pairs
  (`pairs_of_capitalCall`, `pairs_of_distribution`).
-/

namespace FundLedger

open Lib Relation

/-! ## Pairs of legs -/

/-- The leg that moves an account by a share. -/
def shareLeg (account : Uuid) (side : Direction) (share : Dec) : Leg where
  accountId := account
  direction := side.value
  amount := .finite share

/-- The legs of a share, with cash on `side`. -/
def pairOn (side : Direction) (cash capital : Uuid) (share : Dec) : List Leg :=
  match side with
  | .DEBIT => sharePair cash capital share
  | .CREDIT => sharePair capital cash share

theorem filter_pairOn {cash capital : Uuid} (hne : cash ≠ capital) (side : Direction) (share : Dec)
    (account : Uuid) :
    (pairOn side cash capital share).filter (fun leg => leg.accountId = account) =
      if cash = account then [shareLeg cash side share]
      else if capital = account then [shareLeg capital side.flip share] else [] := by
  by_cases hcash : cash = account
  · have hcapital : capital ≠ account := fun heq => hne (hcash.trans heq.symm)
    cases side <;> simp [pairOn, sharePair, shareLeg, hcash, hcapital]
  · by_cases hcapital : capital = account
    · cases side <;> simp [pairOn, sharePair, shareLeg, Direction.flip, hcash, hcapital]
    · cases side <;> simp [pairOn, sharePair, hcash, hcapital]

/-- The shares that are booked. -/
def bookedShares (shares : Dict Uuid Dec) : List (Uuid × Dec) :=
  (sortedItems shares).filter fun i => i.2.coeff ≠ 0

/-- The legs of a document. -/
def documentLegs (side : Direction) (cash : Uuid) (capital : Uuid → Uuid)
    (shares : Dict Uuid Dec) : List Leg :=
  (bookedShares shares).flatMap fun i => pairOn side cash (capital i.1) i.2

/-- The item of a key is the only one. -/
theorem filter_key {α : Type} {l : List (Uuid × α)} (hnodup : (l.map Prod.fst).Nodup)
    {i : Uuid × α} (hi : i ∈ l) : l.filter (fun j => j.1 = i.1) = [i] := by
  induction l with
  | nil => cases hi
  | cons j l ih =>
    obtain ⟨hj, hrest⟩ := List.nodup_cons.mp hnodup
    rcases List.mem_cons.mp hi with rfl | hi
    · have hnone : l.filter (fun j => j.1 = i.1) = [] := by
        refine List.filter_eq_nil_iff.mpr fun k hk heq => hj ?_
        rw [← of_decide_eq_true heq]
        exact List.mem_map_of_mem hk
      rw [List.filter_cons, if_pos (by simp), hnone]
    · have hne : j.1 ≠ i.1 := fun heq => hj (heq ▸ List.mem_map_of_mem hi)
      rw [List.filter_cons, if_neg (by simpa using hne), ih hrest hi]

theorem sortedItems_perm (shares : Dict Uuid Dec) : (sortedItems shares).Perm shares.rows :=
  List.perm_insertionSort _ _

/-- A partner's share is booked once, or not at all. -/
theorem bookedShares_key {shares : Dict Uuid Dec} {i : Uuid × Dec} (hi : i ∈ shares) :
    (bookedShares shares).filter (fun j => j.1 = i.1) = if i.2.coeff = 0 then [] else [i] := by
  have hsorted : (sortedItems shares).filter (fun j => j.1 = i.1) = [i] := by
    refine filter_key ?_ ((sortedItems_perm shares).mem_iff.mpr hi)
    exact ((sortedItems_perm shares).map Prod.fst).nodup_iff.mpr shares.nodup
  rw [bookedShares, List.filter_filter]
  have hcomm : (sortedItems shares).filter (fun j => decide (j.1 = i.1) && decide (j.2.coeff ≠ 0)) =
      ((sortedItems shares).filter fun j => j.1 = i.1).filter fun j => j.2.coeff ≠ 0 := by
    rw [List.filter_filter]
    exact List.filter_congr fun j _ => Bool.and_comm _ _
  rw [hcomm, hsorted]
  by_cases hzero : i.2.coeff = 0 <;> simp [hzero]

theorem sum_bookedShares (shares : Dict Uuid Dec) :
    sumBy (fun i => i.2.val) (bookedShares shares) = sumBy Dec.val shares.values := by
  rw [bookedShares, sumBy_filter, Dict.values, sumBy_map]
  refine (sumBy_congr fun i _ => ?_).trans (sumBy_perm (sortedItems_perm shares))
  by_cases hzero : i.2.coeff = 0
  · simp [hzero, (Dec.val_eq_zero_iff i.2).mpr hzero]
  · simp [hzero]

section

variable {side : Direction} {cash : Uuid} {capital : Uuid → Uuid} {shares : Dict Uuid Dec}

/-- The legs on cash. -/
theorem filter_pairs_cash (hne : ∀ i ∈ shares, cash ≠ capital i.1) :
    (documentLegs side cash capital shares).filter (fun leg => leg.accountId = cash) =
      (bookedShares shares).map fun i => shareLeg cash side i.2 := by
  rw [documentLegs, List.filter_flatMap, List.map_eq_flatMap]
  refine List.flatMap_congr fun i hi => ?_
  have hmem : i ∈ shares := (sortedItems_perm shares).mem_iff.mp (List.mem_of_mem_filter hi)
  rw [filter_pairOn (hne i hmem), if_pos rfl]

/-- The legs on the capital account of a partner. -/
theorem filter_pairs_capital (hne : ∀ i ∈ shares, cash ≠ capital i.1)
    (hinj : ∀ i ∈ shares, ∀ j ∈ shares, capital i.1 = capital j.1 → i.1 = j.1) {i : Uuid × Dec}
    (hi : i ∈ shares) :
    (documentLegs side cash capital shares).filter (fun leg => leg.accountId = capital i.1) =
      if i.2.coeff = 0 then [] else [shareLeg (capital i.1) side.flip i.2] := by
  have hone : ∀ j ∈ bookedShares shares,
      (pairOn side cash (capital j.1) j.2).filter (fun leg => leg.accountId = capital i.1) =
        if j.1 = i.1 then [shareLeg (capital j.1) side.flip j.2] else [] := by
    intro j hj
    have hmem : j ∈ shares := (sortedItems_perm shares).mem_iff.mp (List.mem_of_mem_filter hj)
    rw [filter_pairOn (hne j hmem), if_neg (hne i hi)]
    by_cases hkey : j.1 = i.1
    · rw [if_pos hkey, if_pos (by rw [hkey])]
    · rw [if_neg hkey, if_neg fun heq => hkey (hinj j hmem i hi heq)]
  have hmap : (bookedShares shares).flatMap
      (fun j => if j.1 = i.1 then [shareLeg (capital j.1) side.flip j.2] else []) =
      ((bookedShares shares).filter fun j => j.1 = i.1).map
        fun j => shareLeg (capital j.1) side.flip j.2 := by
    induction bookedShares shares with
    | nil => rfl
    | cons j items ih =>
      rw [List.flatMap_cons, List.filter_cons, ih]
      by_cases hkey : j.1 = i.1 <;> simp [hkey]
  rw [documentLegs, List.filter_flatMap, List.flatMap_congr hone, hmap, bookedShares_key hi]
  by_cases hzero : i.2.coeff = 0 <;> simp [hzero]

theorem mem_documentLegs {leg : Leg} (h : leg ∈ documentLegs side cash capital shares) :
    leg.baseAmount = none ∧ (leg.accountId = cash ∨ ∃ i ∈ shares, leg.accountId = capital i.1) := by
  obtain ⟨i, hi, hleg⟩ := List.mem_flatMap.mp h
  have hmem : i ∈ shares := (sortedItems_perm shares).mem_iff.mp (List.mem_of_mem_filter hi)
  cases side <;> simp only [pairOn, sharePair, List.mem_cons, List.not_mem_nil, or_false] at hleg
  · rcases hleg with rfl | rfl
    · exact ⟨rfl, .inl rfl⟩
    · exact ⟨rfl, .inr ⟨i, hmem, rfl⟩⟩
  · rcases hleg with rfl | rfl
    · exact ⟨rfl, .inr ⟨i, hmem, rfl⟩⟩
    · exact ⟨rfl, .inl rfl⟩

theorem length_documentLegs :
    (documentLegs side cash capital shares).length = 2 * (bookedShares shares).length := by
  have htwo : ∀ i : Uuid × Dec, (pairOn side cash (capital i.1) i.2).length = 2 := by
    intro i
    cases side <;> rfl
  rw [documentLegs, List.length_flatMap]
  simp only [htwo, List.map_const', List.sum_replicate, smul_eq_mul]
  omega

end

/-! ## The entries of one account -/

/-- The entries on an account are the rows of the legs on it. -/
theorem group_legRows {legs : List Leg} {es : List Entry} (h : List.Forall₂ LegRow legs es)
    (account : Uuid) : List.Forall₂ LegRow (legs.filter fun leg => leg.accountId = account)
      (group Entry.account account es) := by
  refine List.rel_filter ?_ h
  intro leg e hrow
  simp [hrow.account_eq]

/-- The row of a share. -/
theorem LegRow.of_shareLeg {account : Uuid} {side : Direction} {share : Dec} {e : Entry}
    (h : LegRow (shareLeg account side share) e) :
    e.direction = side ∧ Money.worth e.amount = share.val := by
  obtain ⟨d, hd, hval⟩ := h.amount_eq
  refine ⟨(Direction.value_injective h.direction_eq).symm, ?_⟩
  rw [Amount.finite.inj hd, hval]
  rfl

/-- The rows of shares sum to the shares. -/
theorem sum_shareRows {account : Uuid} {side : Direction} {items : List (Uuid × Dec)}
    {es : List Entry}
    (h : List.Forall₂ LegRow (items.map fun i => shareLeg account side i.2) es) :
    sumBy (fun e => Money.worth e.amount) es = sumBy (fun i => i.2.val) items := by
  induction items generalizing es with
  | nil =>
    cases h
    rfl
  | cons i items ih =>
    cases h with
    | cons hrow hrest => rw [sumBy_cons, sumBy_cons, ih hrest, hrow.of_shareLeg.2]

/-- `es` moves an account by `share` on one side, or leaves it alone when the
share is zero. -/
def MovedBy (side : Direction) (share : Dec) (es : List Entry) : Prop :=
  if share.val = 0 then es = []
  else ∃ e, es = [e] ∧ e.direction = side ∧ Money.worth e.amount = share.val

/-- **What the entries of a document do**: cash moves by the total on `side`, the
capital account of each partner by its share on the other side, and no other
account moves. -/
structure Moves (db : Db) (fund : Fund) (side : Direction) (total : Dec) (shares : Dict Uuid Dec)
    (cash : Account) (es : List Entry) : Prop where
  at_par : ∀ e ∈ es, e.baseAmount = e.amount
  cash_side : ∀ e ∈ es, e.account = cash.id → e.direction = side
  cash_total : sumBy (fun e => Money.worth e.amount) (group Entry.account cash.id es) = total.val
  partners : ∀ c ∈ commitmentsOf db fund.id, ∃ share, (c.lp, share) ∈ shares ∧
    ∃ a ∈ db.accounts, CapitalAccount fund c.lp a ∧
      MovedBy side.flip share (group Entry.account a.id es)
  nothing_else : ∀ e ∈ es, e.account = cash.id ∨ ∃ c ∈ commitmentsOf db fund.id,
    ∃ a ∈ db.accounts, CapitalAccount fund c.lp a ∧ a.id = e.account
  length : es.length = 2 * (shares.values.filter fun share => share.coeff ≠ 0).length

/-! ## Posting a document -/

/-- The legs of the shares are the legs of the document. -/
theorem shareLegs_eq {side : Direction} {cash : Uuid} {capital : Uuid → Uuid}
    {debit credit : Uuid → Except Exc Uuid} {shares : Dict Uuid Dec} {legs : List Leg}
    (hpair : ∀ i ∈ shares, ∀ d c, debit i.1 = .ok d → credit i.1 = .ok c →
      sharePair d c i.2 = pairOn side cash (capital i.1) i.2)
    (h : shareLegs debit credit shares = .ok legs) :
    legs = documentLegs side cash capital shares := by
  obtain ⟨pairs, rfl, hpairs⟩ := shareLegs_ok h
  have hself : List.Forall₂ (fun i j => i = j) (bookedShares shares) (bookedShares shares) :=
    List.forall₂_refl _
  have heq : List.Forall₂ (fun i pair => pairOn side cash (capital i.1) i.2 = pair)
      (bookedShares shares) pairs := by
    refine forall₂_comp hself hpairs fun i hi j pair hij hpair' => ?_
    subst hij
    obtain ⟨d, c, hd, hc, rfl⟩ := hpair'
    have hmem : i ∈ shares := (sortedItems_perm shares).mem_iff.mp (List.mem_of_mem_filter hi)
    exact (hpair i hmem d c hd hc).symm
  have hmap := List.forall₂_map_left_iff.mpr heq
  rw [List.forall₂_eq_eq_eq] at hmap
  rw [← hmap, documentLegs, List.flatMap_def]

theorem capitalAccountId_of_ok {db : Db} {fund : Fund} {lp x : Uuid}
    (h : Account.id <$> lookup (lpCapitalAccounts db fund) lp = .ok x) :
    x = capitalAccountId db fund lp := by
  cases hlook : lookup (lpCapitalAccounts db fund) lp with
  | error e =>
    rw [hlook] at h
    cases h
  | ok a =>
    rw [hlook] at h
    rw [capitalAccountId_of_lookup hlook]
    exact (Except.ok.inj h).symm

section

variable {db : Db} {fund : Fund} {total : Dec} {shares : Dict Uuid Dec} {cash : Account}

/-- The partners whose shares an allocation over the fund lists. -/
theorem WellFormed.mem_partnerIds (h : WellFormed db fund)
    (hshares : allocate (id : Uuid → ℕ) total (fundWeights db fund) = .ok shares) {lp : Uuid} :
    lp ∈ partnerIds db fund ↔ ∃ share, (lp, share) ∈ shares := by
  have hkeys : shares.keys = partnerIds db fund := by
    rw [← h.keys_fundWeights, (allocate_ok.mp hshares).2.2, Dict.keys_mapItems]
  rw [← hkeys, Dict.keys, List.mem_map]
  constructor
  · rintro ⟨i, hi, rfl⟩
    exact ⟨i.2, hi⟩
  · rintro ⟨share, hi⟩
    exact ⟨_, hi, rfl⟩

/-- The shares that were worked out from the rows in whatever order. -/
theorem WellFormed.shares_perm (h : WellFormed db fund) {order : RowOrder Commitment}
    (hshares : allocate (id : Uuid → ℕ) total
      (commitmentWeights (order.order (commitmentsOf db fund.id))) = .ok shares) :
    ∃ shares', allocate (id : Uuid → ℕ) total (fundWeights db fund) = .ok shares' ∧
      shares.rows.Perm shares'.rows := by
  have hperm := h.weights_perm order
  obtain ⟨hw, hu, rfl⟩ := allocate_ok.mp hshares
  refine ⟨_, allocate_ok.mpr ⟨checkWeights_perm hperm hw, hu, rfl⟩, ?_⟩
  have hallotted := @allotted_perm Uuid ℕ _ _ id Function.injective_id total penny _ _ hperm
  rw [Dict.rows_mapItems, Dict.rows_mapItems, hallotted]
  exact hperm.map _

theorem Ready.cash_ne_capital (h : Ready db fund) (hcash : getAccount db fund .CASH = .ok cash)
    {lp : Uuid} (hlp : lp ∈ partnerIds db fund) : cash.id ≠ capitalAccountId db fund lp := by
  obtain ⟨hcm, -, hct⟩ := h.charted.getAccount_type hcash
  obtain ⟨a, ha, hca, hlook⟩ := h.exists_capital hlp
  rw [capitalAccountId_of_lookup hlook]
  intro heq
  rw [Table.eq_of_key_eq hcm ha heq, hca.type] at hct
  cases hct

theorem Ready.capital_injective (h : Ready db fund) {lp lq : Uuid} (hlp : lp ∈ partnerIds db fund)
    (hlq : lq ∈ partnerIds db fund)
    (heq : capitalAccountId db fund lp = capitalAccountId db fund lq) : lp = lq := by
  obtain ⟨a, ha, hca, hla⟩ := h.exists_capital hlp
  obtain ⟨b, hb, hcb, hlb⟩ := h.exists_capital hlq
  rw [capitalAccountId_of_lookup hla, capitalAccountId_of_lookup hlb] at heq
  obtain rfl : a = b := Table.eq_of_key_eq ha hb heq
  exact Option.some.inj (hca.owner.symm.trans hcb.owner)

/-- The legs of a document are in the base currency. -/
theorem Ready.documentLegs_plain (h : Ready db fund)
    (hcash : getAccount db fund .CASH = .ok cash)
    (hpartner : ∀ i ∈ shares, i.1 ∈ partnerIds db fund) {side : Direction} {leg : Leg}
    (hleg : leg ∈ documentLegs side cash.id (capitalAccountId db fund) shares) :
    PlainLeg db fund.baseCurrency leg := by
  obtain ⟨hnone, haccount⟩ := mem_documentLegs hleg
  refine ⟨hnone, fun b hb hbl => ?_⟩
  rcases haccount with hx | ⟨i, hi, hx⟩
  · obtain ⟨hcm, -, -⟩ := h.charted.getAccount_type hcash
    rw [Table.eq_of_key_eq hb hcm (hbl.trans hx)]
    exact h.charted.cash_currency hcash
  · obtain ⟨c, hc, hcc, hlook⟩ := h.exists_capital (hpartner i hi)
    rw [capitalAccountId_of_lookup hlook] at hx
    rw [Table.eq_of_key_eq hb hc (hbl.trans hx)]
    exact hcc.currency

theorem Moves.perm {side : Direction} {shares' : Dict Uuid Dec} {es : List Entry}
    (h : Moves db fund side total shares cash es) (hperm : shares.rows.Perm shares'.rows) :
    Moves db fund side total shares' cash es := by
  refine { h with partners := fun c hc => ?_, length := ?_ }
  · obtain ⟨share, hshare, hmoved⟩ := h.partners c hc
    exact ⟨share, hperm.mem_iff.mp hshare, hmoved⟩
  · rw [h.length]
    congr 1
    exact ((hperm.map Prod.snd).filter _).length_eq

/-- **A posting with the legs of a document moves what the document says.** -/
theorem Posted.moves {env : Env} {a : Posting} {db' : Db} {es : List Entry} {side : Direction}
    (posted : Posted env a db db' es) (h : Ready db fund) (hfund : a.period.fund = fund.id)
    (hcash : getAccount db fund .CASH = .ok cash)
    (hshares : allocate (id : Uuid → ℕ) total (fundWeights db fund) = .ok shares)
    {booked : Dict Uuid Dec} (hperm : booked.rows.Perm shares.rows)
    (hlegs : a.legs = documentLegs side cash.id (capitalAccountId db fund) booked) :
    Moves db fund side total shares cash es := by
  have hpartner : ∀ i ∈ booked, i.1 ∈ partnerIds db fund := fun i hi =>
    (h.mem_partnerIds hshares).mpr ⟨i.2, hperm.mem_iff.mp hi⟩
  have hne : ∀ i ∈ booked, cash.id ≠ capitalAccountId db fund i.1 := fun i hi =>
    h.cash_ne_capital hcash (hpartner i hi)
  have hinj : ∀ i ∈ booked, ∀ j ∈ booked,
      capitalAccountId db fund i.1 = capitalAccountId db fund j.1 → i.1 = j.1 :=
    fun i hi j hj => h.capital_injective (hpartner i hi) (hpartner j hj)
  have hplain : ∀ leg ∈ a.legs, PlainLeg db fund.baseCurrency leg := by
    intro leg hleg
    exact h.documentLegs_plain hcash hpartner (hlegs ▸ hleg)
  have hbase : baseCurrencyOf db a.period = .ok fund.baseCurrency := by
    rw [baseCurrencyOf, hfund, Table.get?_of_mem h.fund_mem]
    rfl
  have hrows := posted.legRows hbase hplain
  rw [hlegs] at hrows
  have hcashRows := group_legRows hrows cash.id
  rw [filter_pairs_cash hne] at hcashRows
  have hmoves : Moves db fund side total booked cash es := by
    refine ⟨fun e he => ?_, fun e he hacc => ?_, ?_, fun c hc => ?_, fun e he => ?_, ?_⟩
    · obtain ⟨leg, -, hrow⟩ := forall₂_exists_left hrows he
      exact hrow.baseAmount_eq
    · obtain ⟨leg, hleg, hrow⟩ := forall₂_exists_left hcashRows (mem_group.mpr ⟨he, hacc⟩)
      obtain ⟨i, -, rfl⟩ := List.mem_map.mp hleg
      exact hrow.of_shareLeg.1
    · have hpenny : 0 < penny.val := by
        rw [Dec.val_pos_iff]
        decide
      rw [sum_shareRows hcashRows, sum_bookedShares, Dict.values, sumBy_map, sumBy_perm hperm,
        ← sumBy_map Dec.val Prod.snd]
      exact allocate_sum hpenny hshares
    · have hlp : c.lp ∈ partnerIds db fund := List.mem_map_of_mem hc
      obtain ⟨share, hshare⟩ := (h.mem_partnerIds hshares).mp hlp
      have hbooked : (c.lp, share) ∈ booked := hperm.mem_iff.mpr hshare
      obtain ⟨b, hb, hcb, hlook⟩ := h.exists_capital hlp
      refine ⟨share, hbooked, b, hb, hcb, ?_⟩
      have hcapital := group_legRows hrows (capitalAccountId db fund c.lp)
      have hfilter := @filter_pairs_capital side _ _ _ hne hinj _ hbooked
      rw [hfilter, capitalAccountId_of_lookup hlook] at hcapital
      unfold MovedBy
      by_cases hzero : share.coeff = 0
      · rw [if_pos hzero] at hcapital
        rw [if_pos ((Dec.val_eq_zero_iff share).mpr hzero)]
        exact List.forall₂_nil_left_iff.mp hcapital
      · rw [if_neg hzero] at hcapital
        rw [if_neg fun hval => hzero ((Dec.val_eq_zero_iff share).mp hval)]
        obtain ⟨e, rest, hrow, hrest, heq⟩ := List.forall₂_cons_left_iff.mp hcapital
        rw [List.forall₂_nil_left_iff] at hrest
        exact ⟨e, by rw [heq, hrest], hrow.of_shareLeg⟩
    · obtain ⟨leg, hleg, hrow⟩ := forall₂_exists_left hrows he
      rw [hrow.account_eq]
      rcases (mem_documentLegs hleg).2 with hx | ⟨i, hi, hx⟩
      · exact .inl hx
      · right
        obtain ⟨c, hc, hclp⟩ := List.mem_map.mp (hpartner i hi)
        obtain ⟨b, hb, hcb, hlook⟩ := h.exists_capital (hpartner i hi)
        refine ⟨c, hc, b, hb, hclp ▸ hcb, ?_⟩
        rw [hx, capitalAccountId_of_lookup hlook]
    · rw [← hrows.length_eq, length_documentLegs, bookedShares]
      congr 1
      have hvalues : ((sortedItems booked).filter fun i => i.2.coeff ≠ 0).map Prod.snd =
          ((sortedItems booked).map Prod.snd).filter fun share => share.coeff ≠ 0 := by
        rw [List.filter_map]
        rfl
      rw [← List.length_map Prod.snd, hvalues]
      exact (((sortedItems_perm booked).map Prod.snd).filter _).length_eq
  exact hmoves.perm hperm

end

/-- **A distribution pays no more than there was**: money that leaves cash was
on it before. -/
theorem Moves.total_le {db db' : Db} {fund : Fund} {total : Dec} {shares : Dict Uuid Dec}
    {cash : Account} {env : Env} {a : Posting} {es : List Entry}
    (h : Moves db fund .CREDIT total shares cash es) (hpos : 0 < total.val) (posted : Posted env a db db' es)
    (hcash : cash ∈ db.accounts ∧ cash.fund = fund.id ∧ cash.accountType = .CASH) :
    total.val ≤ Money.worth (nativeBalance db cash.id) := by
  have hpaid : sumBy Entry.signedAmount (group Entry.account cash.id es) =
      -sumBy Entry.amount (group Entry.account cash.id es) := by
    have hneg : ∀ e ∈ group Entry.account cash.id es, e.signedAmount = -e.amount := by
      intro e he
      obtain ⟨hmem, hacc⟩ := mem_group.mp he
      rw [Entry.signedAmount, h.cash_side e hmem hacc]
      rfl
    rw [sumBy_congr hneg]
    exact sumBy_hom (-AddMonoidHom.id Money) Entry.amount _
  have htotal : total.val = Money.worth (sumBy Entry.amount (group Entry.account cash.id es)) := by
    rw [← sumBy_hom Money.worth]
    exact h.cash_total.symm
  rw [htotal, Money.worth_le]
  rcases posted.covered hcash.1 hcash.2.2 with hle | hle
  · -- nothing was paid then
    rw [hpaid, neg_nonneg, ← Money.worth_le, ← htotal, map_zero] at hle
    exact absurd hpos (not_lt.mpr hle)
  · rw [hpaid] at hle
    linarith

/-! ## The document says what the ledger did -/

/-- The stored document agrees with the ledger: the amount on it is the total,
its transfer is in the period of the fund that contains the date, and the
entries of the transfer move the shares of the total. -/
structure Documented (db db' : Db) (fund : Fund) (side : Direction) (total : Dec) (onDate : Date)
    (recorded : Money) (transfer : Uuid) : Prop where
  recorded : Money.worth recorded = total.val
  period : ∃ t ∈ db'.transfers, t.id = transfer ∧ ∃ p ∈ db'.periods, p.id = t.period ∧
    p.fund = fund.id ∧ p.startDate ≤ onDate ∧ onDate ≤ p.endDate
  moves : ∃ cash shares, getAccount db fund .CASH = .ok cash ∧
    allocate (id : Uuid → ℕ) total (fundWeights db fund) = .ok shares ∧
    Moves db fund side total shares cash (entriesOf db' transfer)

section

variable {db : Db} {fund : Fund}

/-- Storing an amount that was allocated rounds nothing. -/
theorem worth_storedAmount {total : Dec} {weights shares : Dict Uuid Dec} {units : Money}
    (hshares : allocate (id : Uuid → ℕ) total weights = .ok shares)
    (h : storedAmount (.finite total) = .ok units) : Money.worth units = total.val := by
  have hpenny : 0 < penny.val := by
    rw [Dec.val_pos_iff]
    decide
  obtain ⟨n, hn⟩ := (den_unitsOf_eq_one_iff hpenny).mp (allocate_ok.mp hshares).2.1
  have hval : total.val = ((n * 100 : ℤ) : ℚ) / (10 : ℚ) ^ 4 := by
    rw [hn, Dec.val_eq]
    norm_num [penny]
    ring
  have hunits : units = n * 100 := Dec.toNumeric_of_val hval (orRaise_eq_ok.mp h)
  rw [hval, hunits]
  rfl

/-- What a posting of a document adds up to, for both kinds of document. -/
theorem Posted.documented {env : Env} {a : Posting} {db₁ : Db} {es : List Entry} {side : Direction}
    {total : Dec} {onDate : Date} {units : Money} {cash : Account} {booked : Dict Uuid Dec}
    (posted : Posted env a db db₁ es) (h : Ready db fund) (hb : Books db)
    (hperiod : periodFor db fund.id onDate = .ok a.period)
    (hcash : getAccount db fund .CASH = .ok cash)
    (hbooked : allocate (id : Uuid → ℕ) total
      (commitmentWeights (env.commitmentOrder.order (commitmentsOf db fund.id))) = .ok booked)
    (hlegs : a.legs = documentLegs side cash.id (capitalAccountId db fund) booked)
    (hunits : storedAmount (.finite total) = .ok units) :
    Documented db db₁ fund side total onDate units (env.uuid4 .transfer) := by
  obtain ⟨shares, hshares, hperm⟩ := h.shares_perm hbooked
  obtain ⟨hpm, hpf, hstart, hend⟩ := periodFor_mem hperiod
  obtain ⟨transfers, entries, -, -, hdb₁⟩ := posted.appended
  have hnew : transferFor env a ∈ db₁.transfers := by
    rw [← Table.mem_rows, posted.transfers_eq]
    exact List.mem_append_right _ List.mem_cons_self
  have hpm : a.period ∈ db₁.periods := by rwa [hdb₁]
  have hentries : entriesOf db₁ (env.uuid4 .transfer) = es := posted.entriesOf_new hb
  refine ⟨worth_storedAmount hbooked hunits, ⟨_, hnew, rfl, _, hpm, rfl, hpf, hstart, hend⟩,
    cash, shares, hcash, hshares, ?_⟩
  rw [hentries]
  exact posted.moves h hpf hcash hshares hperm hlegs

/-- A document row changes nothing that was said. -/
theorem Documented.of_same {db' db'' : Db} {side : Direction} {total : Dec} {onDate : Date}
    {units : Money} {transfer : Uuid} (h : Documented db db' fund side total onDate units transfer)
    (htransfers : db''.transfers = db'.transfers) (hperiods : db''.periods = db'.periods)
    (hentries : db''.entries = db'.entries) :
    Documented db db'' fund side total onDate units transfer := by
  refine ⟨h.recorded, ?_, ?_⟩
  · rw [htransfers, hperiods]
    exact h.period
  · rw [entriesOf, hentries]
    exact h.moves

theorem createCapitalCall_documented (h : Ready db fund) (hb : Books db) {env : Env} {key : String}
    {total : Dec} {noticeDate dueDate : Date} {createdBy : String} {db' : Db} {call : CapitalCall}
    (hrun : createCapitalCall env fund.id key (.finite total) noticeDate dueDate createdBy db =
      (.ok (call, true), db')) :
    call ∈ db'.capitalCalls ∧ call.fund = fund.id ∧ call.noticeDate = noticeDate ∧
      Documented db db' fund .DEBIT total noticeDate call.totalAmount call.transfer := by
  obtain ⟨units, db₀, hlift, hidem⟩ := Tx.bind_ok.mp hrun
  obtain ⟨-, hdb₀⟩ := Tx.lift_eq.mp hlift
  subst hdb₀
  have hreplay : ∀ t, Tx.ReadOnly (capitalCallOf t) := fun t =>
    .bind Tx.readOnly_read fun _ => Tx.readOnly_lift _
  obtain ⟨-, -, hcreate⟩ | ⟨hfalse, -⟩ := runIdempotent_ok hreplay hidem
  · obtain ⟨plan, es, db₁, units, hplan, posted, hunits, hcall, hins⟩ := postCapitalCall_ok hcreate
    obtain ⟨fund', commitments, shares, cash, hfund, hperiod, hshares, -, hcash, hlegs, -⟩ :=
      planCapitalCall_ok hplan
    have hget := Table.get?_eq_some.mp (orRaise_eq_ok.mp hfund)
    obtain rfl := h.eq_of_id hget.1 hget.2.symm
    obtain ⟨d, hd, rfl, hallocate⟩ := proRata_ok hshares
    obtain rfl := Amount.finite.inj hd
    have hdocument : plan.legs = documentLegs .DEBIT cash.id (capitalAccountId db₀ fund') shares := by
      refine shareLegs_eq (fun i _ d c hd hc => ?_) hlegs
      rw [← Except.ok.inj hd, capitalAccountId_of_ok hc]
      rfl
    have hdocumented := posted.documented h hb hperiod hcash hallocate hdocument hunits
    obtain ⟨-, -, calls, hinserted, rfl⟩ := insertCapitalCall_ok hins
    have hmem : call ∈ calls := by
      rw [← Table.mem_rows, (Table.insert_eq_some.mp hinserted).2]
      exact List.mem_append_right _ List.mem_cons_self
    subst hcall
    exact ⟨hmem, rfl, rfl, hdocumented.of_same rfl rfl rfl⟩
  · cases hfalse

theorem createDistribution_documented (h : Ready db fund) (hb : Books db) {env : Env}
    {key : String} {total : Dec} (hpos : 0 < total.val) {paymentDate : Date}
    {classification : DistributionClassification} {createdBy : String} {db' : Db}
    {distribution : Distribution}
    (hrun : createDistribution env fund.id key (.finite total) paymentDate classification createdBy
      db = (.ok (distribution, true), db')) :
    (distribution ∈ db'.distributions ∧ distribution.fund = fund.id ∧
      distribution.paymentDate = paymentDate ∧
      Documented db db' fund .CREDIT total paymentDate distribution.totalAmount
        distribution.transfer) ∧
    ∀ cash, getAccount db fund .CASH = .ok cash →
      total.val ≤ Money.worth (nativeBalance db cash.id) := by
  obtain ⟨units, db₀, hlift, hidem⟩ := Tx.bind_ok.mp hrun
  obtain ⟨-, hdb₀⟩ := Tx.lift_eq.mp hlift
  subst hdb₀
  have hreplay : ∀ t, Tx.ReadOnly (distributionOf t) := fun t =>
    .bind Tx.readOnly_read fun _ => Tx.readOnly_lift _
  obtain ⟨-, -, hcreate⟩ | ⟨hfalse, -⟩ := runIdempotent_ok hreplay hidem
  · obtain ⟨plan, es, db₁, units, hplan, posted, hunits, hcall, hins⟩ := postDistribution_ok hcreate
    obtain ⟨fund', commitments, shares, cash, hfund, hperiod, hshares, hcash, hlegs, -⟩ :=
      planDistribution_ok hplan
    have hget := Table.get?_eq_some.mp (orRaise_eq_ok.mp hfund)
    obtain rfl := h.eq_of_id hget.1 hget.2.symm
    obtain ⟨d, hd, rfl, hallocate⟩ := proRata_ok hshares
    obtain rfl := Amount.finite.inj hd
    have hdocument : plan.legs = documentLegs .CREDIT cash.id (capitalAccountId db₀ fund') shares := by
      refine shareLegs_eq (fun i _ d c hd hc => ?_) hlegs
      rw [← Except.ok.inj hc, capitalAccountId_of_ok hd]
      rfl
    have hdocumented := posted.documented h hb hperiod hcash hallocate hdocument hunits
    obtain ⟨-, -, rows, hinserted, rfl⟩ := insertDistribution_ok hins
    have hmem : distribution ∈ rows := by
      rw [← Table.mem_rows, (Table.insert_eq_some.mp hinserted).2]
      exact List.mem_append_right _ List.mem_cons_self
    subst hcall
    refine ⟨⟨hmem, rfl, rfl, hdocumented.of_same rfl rfl rfl⟩, fun cash' hcash' => ?_⟩
    obtain rfl : cash = cash' := Except.ok.inj (hcash.symm.trans hcash')
    obtain ⟨shares', hshares', hperm⟩ := h.shares_perm hallocate
    have hmoves : Moves db₀ fund' .CREDIT total shares' cash es :=
      posted.moves h (periodFor_mem hperiod).2.1 hcash hshares' hperm hdocument
    exact hmoves.total_le hpos posted (h.charted.getAccount_type hcash)
  · cases hfalse

end

/-- **The document says what the ledger did.**  Whatever has happened to the
fund, as long as every partner with a commitment has a capital account in the
base currency. -/
theorem document_says_what_the_ledger_did {start : Db} {fund : Fund} (genesis : Genesis start)
    (wellFormed : WellFormed start fund) (actions : List Action)
    (capital : ∀ c ∈ commitmentsOf (afterActions start actions) fund.id,
      ∃ a ∈ (afterActions start actions).accounts, CapitalAccount fund c.lp a)
    (env : Env) (key : String) {total : Dec} (positive : 0 < total.val) (onDate dueDate : Date)
    (classification : DistributionClassification) (createdBy : String) (db' : Db) :
    (∀ call, createCapitalCall env fund.id key (.finite total) onDate dueDate createdBy
        (afterActions start actions) = (.ok (call, true), db') →
      call ∈ db'.capitalCalls ∧ call.fund = fund.id ∧ call.noticeDate = onDate ∧
        Documented (afterActions start actions) db' fund .DEBIT total onDate call.totalAmount
          call.transfer) ∧
    (∀ distribution, createDistribution env fund.id key (.finite total) onDate classification
        createdBy (afterActions start actions) = (.ok (distribution, true), db') →
      (distribution ∈ db'.distributions ∧ distribution.fund = fund.id ∧
        distribution.paymentDate = onDate ∧
        Documented (afterActions start actions) db' fund .CREDIT total onDate
          distribution.totalAmount distribution.transfer) ∧
      ∀ cash, getAccount (afterActions start actions) fund .CASH = .ok cash →
        total.val ≤ Money.worth (nativeBalance (afterActions start actions) cash.id)) := by
  have hgrowth : Growth (fun _ _ => True) start (afterActions start actions) :=
    afterActions_growth fun _ _ => trivial
  have hb : Books (afterActions start actions) :=
    hgrowth.invariant (fun _ _ hb hs => hb.growthStep hs) genesis.books
  have hwell : WellFormed (afterActions start actions) fund :=
    hgrowth.invariant (I := fun d => WellFormed d fund) (fun _ _ h hs => h.growthStep hs) wellFormed
  have hready : Ready (afterActions start actions) fund := ⟨hwell, capital⟩
  exact ⟨fun _ hrun => createCapitalCall_documented hready hb hrun,
    fun _ hrun => createDistribution_documented hready hb positive hrun⟩

/-- A business operation keeps the fund set up. -/
theorem Ready.afterCall {db : Db} {fund : Fund} (h : Ready db fund) {c : Call}
    (hc : c.op.IsBusiness) : Ready (afterActions db [.call c]) fund :=
  (Op.run_business hc db).invariant (I := fun d => Ready d fund) (fun _ _ h hc => h.change hc) h

theorem document_says_what_the_ledger_did_callOf100 : ∃ call db',
    createCapitalCall (envOf 2) makeFund.id "again" (.finite ⟨10000, -2⟩) 32 46 ""
      (afterActions buildPeFund [.call callOf100]) = (.ok (call, true), db') ∧
    Documented (afterActions buildPeFund [.call callOf100]) db' makeFund .DEBIT ⟨10000, -2⟩ 32
      call.totalAmount call.transfer := by
  have hcreated : Prod.snd <$> (createCapitalCall (envOf 2) makeFund.id "again"
      (.finite ⟨10000, -2⟩) 32 46 "" (afterActions buildPeFund [.call callOf100])).1 =
        .ok true := by decide +kernel
  obtain ⟨call, hrun⟩ := created_of_snd hcreated
  have hcapital : ∀ c ∈ commitmentsOf (afterActions buildPeFund [.call callOf100]) makeFund.id,
      ∃ a ∈ (afterActions buildPeFund [.call callOf100]).accounts,
        CapitalAccount makeFund c.lp a := by
    have hbusiness : callOf100.op.IsBusiness := trivial
    exact (ready_buildPeFund.afterCall hbusiness).capital_account
  have hpositive : 0 < (⟨10000, -2⟩ : Dec).val := by
    rw [Dec.val_pos_iff]
    decide
  obtain ⟨-, -, -, hdocumented⟩ := (document_says_what_the_ledger_did genesis_buildPeFund
    ready_buildPeFund.toWellFormed [.call callOf100] hcapital (envOf 2) "again" hpositive 32 46
    .GAIN "" _).1 call hrun
  exact ⟨call, _, hrun, hdocumented⟩

end FundLedger
