import FundLedger.Ledger.PlainLegs
import FundLedger.Operations.ChartCodes

/-!
# What a capital call posts

The legs of a capital call are in the base currency.  On the capital account
of a partner they are credits, and they sum to the share of the partner, which
was compared with the unfunded amount when the call was planned.
-/

namespace FundLedger

open Lib

/-- Cash is found under its currency. -/
theorem Charted.cash_currency {db : Db} {fund : Fund} (h : Charted db fund.id) {cash : Account}
    (hcash : getAccount db fund .CASH = .ok cash) : cash.currency = fund.baseCurrency := by
  obtain ⟨hmem, hf, htype⟩ := h.getAccount_type hcash
  obtain ⟨code, hcode, hfind⟩ := except_bind_ok.mp hcash
  have hown := h cash hmem hf
  rw [htype] at hown
  have hstored : cash.code = "CASH-" ++ cash.currency := (Except.ok.inj hown).symm
  have hasked : "CASH-" ++ fund.baseCurrency = code := Except.ok.inj hcode
  have hsame := (findAccount_eq_some (orRaise_eq_ok.mp hfind)).2.2
  have hlist := congrArg String.toList (hstored.symm.trans (hsame.trans hasked.symm))
  rw [String.toList_append, String.toList_append] at hlist
  exact String.toList_injective (List.append_cancel_left hlist)

/-- An item of a dictionary, picked by its key. -/
theorem sumBy_dict_key {M : Type} [AddCommMonoid M] (d : Dict Uuid Dec) (f : Uuid × Dec → M)
    {i : Uuid × Dec} (hi : i ∈ d) :
    sumBy (fun j => if i.1 = j.1 then f j else 0) d.rows = f i := by
  have hone : ∀ j ∈ d.rows, (if i.1 = j.1 then f j else 0) = if i.1 = j.1 then f i else 0 := by
    intro j hj
    by_cases hij : i.1 = j.1
    · rw [Table.eq_of_key_eq hi hj hij]
    · rw [if_neg hij, if_neg hij]
  rw [sumBy_congr hone, ← sumBy_map (fun k => if i.1 = k then f i else 0) Prod.fst,
    sumBy_ite_eq d.nodup, if_pos (List.mem_map_of_mem hi)]

/-- What pairs of legs move an account by that is not on the debit side. -/
theorem sumBy_legMove_pairs {cash account : Uuid} (hne : cash ≠ account)
    {credit : Uuid → Except Exc Uuid} {items : List (Uuid × Dec)} {pairs : List (List Leg)}
    (h : List.Forall₂ (fun i pair => ∃ d c, (.ok cash : Except Exc Uuid) = .ok d ∧
      credit i.1 = .ok c ∧ pair = sharePair d c i.2) items pairs) :
    sumBy (legMove account) pairs.flatten =
      -sumBy (fun i => if credit i.1 = .ok account then i.2.val else 0) items := by
  induction h with
  | nil => simp
  | @cons i pair items pairs hpair _ ih =>
    obtain ⟨d, c, hd, hc, rfl⟩ := hpair
    obtain rfl : cash = d := Except.ok.inj hd
    have hdebit : legMove account { accountId := cash, direction := Direction.DEBIT.value
                                    amount := .finite i.2 } = 0 := if_neg hne
    have hcredit : legMove account { accountId := c, direction := Direction.CREDIT.value
                                     amount := .finite i.2 } =
        -if credit i.1 = .ok account then i.2.val else 0 := by
      rw [hc, legMove]
      dsimp only
      by_cases hca : c = account
      · simp [hca, Direction.value]
      · simp [hca]
    rw [List.flatten_cons, sumBy_append, ih, sharePair, sumBy_cons, sumBy_cons, sumBy_nil, hdebit,
      hcredit, sumBy_cons, neg_add]
    ring

/-- **What the legs of a planned capital call are**, on the capital account of
a partner. -/
theorem Ready.planCapitalCall_legs {db : Db} {fund : Fund} (h : Ready db fund) {env : Env}
    {fundId : Uuid} (hfund : getFund db fundId = .ok fund) {total : Amount} {noticeDate : Date}
    {plan : Plan} (hplan : planCapitalCall env db fundId total noticeDate = .ok plan)
    {c : Commitment} (hc : c ∈ commitmentsOf db fund.id) {a : Account} (ha : a ∈ db.accounts)
    (hca : CapitalAccount fund c.lp a) :
    (∀ leg ∈ plan.legs, PlainLeg db fund.baseCurrency leg) ∧
    (∀ leg ∈ plan.legs, leg.accountId = a.id → leg.direction = Direction.CREDIT.value) ∧
    ∃ share : Dec, share.val ≤ c.committedAmount.toDec.val - (contributed db a.id).toDec.val ∧
      sumBy (legMove a.id) plan.legs = -share.val := by
  obtain ⟨fund', commitments, shares, cash, hfund', -, hshares, hunfunded, hcash, hlegs, -⟩ :=
    planCapitalCall_ok hplan
  obtain rfl : fund = fund' := Except.ok.inj (hfund.symm.trans hfund')
  obtain ⟨hcm, hcf, hct⟩ := h.charted.getAccount_type hcash
  have hne : cash.id ≠ a.id := by
    intro heq
    rw [Table.eq_of_key_eq hcm ha heq, hca.type] at hct
    cases hct
  -- the account that is credited for a partner
  have hcredited : ∀ {lp x : Uuid}, Account.id <$> lookup (lpCapitalAccounts db fund) lp = .ok x →
      ∃ b ∈ db.accounts, CapitalAccount fund lp b ∧ b.id = x := by
    intro lp x hx
    cases hlook : lookup (lpCapitalAccounts db fund) lp with
    | error e =>
      rw [hlook] at hx
      cases hx
    | ok b =>
      rw [hlook] at hx
      cases hx
      obtain ⟨hb, hcb⟩ := lookup_capital_mem hlook
      exact ⟨b, hb, hcb, rfl⟩
  have hcredit : ∀ lp, Account.id <$> lookup (lpCapitalAccounts db fund) lp = .ok a.id ↔
      c.lp = lp := by
    intro lp
    constructor
    · intro hx
      obtain ⟨b, hb, hcb, hba⟩ := hcredited hx
      obtain rfl : b = a := Table.eq_of_key_eq hb ha hba
      exact Option.some.inj (hca.owner.symm.trans hcb.owner)
    · rintro rfl
      rw [h.lookup_capital ha hca]
      rfl
  obtain ⟨pairs, hflat, hpairs⟩ := shareLegs_ok hlegs
  have hmem : ∀ leg ∈ plan.legs, leg.baseAmount = none ∧
      (leg.accountId = cash.id ∨ leg.direction = Direction.CREDIT.value ∧
        ∃ b ∈ db.accounts, b.currency = fund.baseCurrency ∧ b.id = leg.accountId) := by
    intro leg hleg
    rw [hflat] at hleg
    obtain ⟨pair, hpair, hmem⟩ := List.mem_flatten.mp hleg
    obtain ⟨i, -, d, x, hd, hx, rfl⟩ := forall₂_exists_left hpairs hpair
    obtain rfl : cash.id = d := Except.ok.inj hd
    simp only [sharePair, List.mem_cons, List.not_mem_nil, or_false] at hmem
    rcases hmem with rfl | rfl
    · exact ⟨rfl, .inl rfl⟩
    · obtain ⟨b, hb, hcb, hbx⟩ := hcredited hx
      exact ⟨rfl, .inr ⟨rfl, b, hb, hcb.currency, hbx⟩⟩
  refine ⟨fun leg hleg => ⟨(hmem leg hleg).1, fun b hb hbl => ?_⟩, fun leg hleg hla => ?_, ?_⟩
  · rcases (hmem leg hleg).2 with hcl | ⟨-, b', hb', hcur, hbl'⟩
    · rw [Table.eq_of_key_eq hb hcm (hbl.trans hcl)]
      exact h.charted.cash_currency hcash
    · rw [Table.eq_of_key_eq hb hb' (hbl.trans hbl'.symm)]
      exact hcur
  · rcases (hmem leg hleg).2 with hcl | ⟨hdir, -⟩
    · exact absurd (hcl.symm.trans hla) hne
    · exact hdir
  · -- the share of the partner
    have hcm' : c ∈ commitments := by
      obtain ⟨d, -, rfl, -⟩ := proRata_ok hshares
      exact (env.commitmentOrder.perm _).mem_iff.mpr hc
    have hcheck := forM_except_ok.mp hunfunded c hcm'
    simp only [except_bind_ok] at hcheck
    obtain ⟨b, hb, share, hshare, hok⟩ := hcheck
    obtain rfl : a = b := Except.ok.inj ((h.lookup_capital ha hca).symm.trans hb)
    have hle := require_eq_ok.mp hok
    rw [Dec.lt_iff, not_lt, Dec.val_sub] at hle
    refine ⟨share, hle, ?_⟩
    obtain ⟨i, hi, his⟩ : ∃ i ∈ shares, i = (c.lp, share) := by
      unfold lookup at hshare
      cases hget : shares.get? c.lp with
      | none => rw [hget] at hshare; cases hshare
      | some i =>
        rw [hget] at hshare
        obtain ⟨hi, hkey⟩ := Table.get?_eq_some.mp hget
        exact ⟨i, hi, Prod.ext hkey (Except.ok.inj hshare)⟩
    rw [hflat, @sumBy_legMove_pairs cash.id a.id hne
      (fun lp => Account.id <$> lookup (lpCapitalAccounts db fund) lp) _ pairs hpairs]
    congr 1
    have hitems : ∀ j ∈ (sortedItems shares).filter (fun i => i.2.coeff ≠ 0),
        (if Account.id <$> lookup (lpCapitalAccounts db fund) j.1 = .ok a.id then j.2.val else 0) =
          if i.1 = j.1 then j.2.val else 0 := by
      intro j _
      simp only [hcredit j.1, his]
    rw [sumBy_congr hitems, sumBy_filter]
    have hzero : ∀ j ∈ sortedItems shares, (if (decide (j.2.coeff ≠ 0)) = true then
        (if i.1 = j.1 then j.2.val else 0) else 0) = if i.1 = j.1 then j.2.val else 0 := by
      intro j _
      by_cases hj : j.2.coeff = 0
      · simp [hj, (Dec.val_eq_zero_iff _).mpr hj]
      · simp [hj]
    have hperm : (sortedItems shares).Perm shares.rows := List.perm_insertionSort _ _
    rw [sumBy_congr hzero, sumBy_perm hperm, sumBy_dict_key shares (fun j => j.2.val) hi, his]

end FundLedger
