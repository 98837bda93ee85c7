import FundLedger.Ledger.Posting

/-!
# Sufficient funds

`checkSufficientFunds` walks over the legs once and keeps the net movement of
each guarded account in an association list.  `netDelta` is what the list
holds, as a sum over the legs, and `checkSufficientFunds_ok` says what the
check comes to: no guarded account that the legs lower is lowered below zero.
-/

namespace FundLedger

open Lib

/-- The account may not go below zero. -/
def Account.IsGuarded (a : Account) : Prop := a.accountType ∈ nonNegativeTypes

instance (a : Account) : Decidable a.IsGuarded := by
  unfold Account.IsGuarded
  exact inferInstance

theorem Account.isGuarded_iff {a : Account} : a.IsGuarded ↔ a.accountType = .CASH := by
  simp [IsGuarded, nonNegativeTypes]

/-- The value kept for an account. -/
def deltaOf (deltas : List (Uuid × Dec)) (account : Uuid) : ℚ :=
  sumBy (fun d => if d.1 = account then d.2.val else 0) deltas

theorem deltaOf_bump (deltas : List (Uuid × Dec)) (a b : Uuid) (x : Dec) :
    deltaOf (bump deltas a x) b = deltaOf deltas b + if a = b then x.val else 0 := by
  induction deltas with
  | nil => simp [bump, deltaOf]
  | cons d deltas ih =>
    obtain ⟨c, y⟩ := d
    unfold bump
    by_cases hca : c = a
    · rw [if_pos hca, deltaOf, deltaOf, sumBy_cons, sumBy_cons, hca]
      by_cases hab : a = b
      · simp only [hab, if_true, Dec.val_add]
        ring
      · simp [hab]
    · rw [if_neg hca]
      show _ + deltaOf (bump deltas a x) b = _ + deltaOf deltas b + _
      rw [ih, add_assoc]

theorem mem_keys_bump {deltas : List (Uuid × Dec)} {a b : Uuid} {x : Dec} :
    b ∈ (bump deltas a x).map Prod.fst ↔ b ∈ deltas.map Prod.fst ∨ b = a := by
  induction deltas with
  | nil => simp [bump]
  | cons d deltas ih =>
    obtain ⟨c, y⟩ := d
    unfold bump
    by_cases hca : c = a
    · rw [if_pos hca, List.map_cons, List.map_cons, List.mem_cons]
      constructor
      · exact fun h => .inl h
      · rintro (h | rfl)
        · exact h
        · exact .inl hca.symm
    · rw [if_neg hca, List.map_cons, List.map_cons, List.mem_cons, List.mem_cons, ih, or_assoc]

theorem nodup_keys_bump {deltas : List (Uuid × Dec)} {a : Uuid} {x : Dec}
    (h : (deltas.map Prod.fst).Nodup) : ((bump deltas a x).map Prod.fst).Nodup := by
  induction deltas with
  | nil => simp [bump]
  | cons d deltas ih =>
    obtain ⟨c, y⟩ := d
    obtain ⟨hc, hrest⟩ := List.nodup_cons.mp h
    unfold bump
    by_cases hca : c = a
    · rw [if_pos hca]
      exact h
    · rw [if_neg hca, List.map_cons]
      refine List.nodup_cons.mpr ⟨fun hmem => ?_, ih hrest⟩
      rcases mem_keys_bump.mp hmem with hmem | heq
      · exact hc hmem
      · exact hca heq

/-- With distinct keys, an item is the value kept for its account. -/
theorem deltaOf_of_mem {deltas : List (Uuid × Dec)} (h : (deltas.map Prod.fst).Nodup)
    {d : Uuid × Dec} (hd : d ∈ deltas) : deltaOf deltas d.1 = d.2.val := by
  induction deltas with
  | nil => cases hd
  | cons e deltas ih =>
    obtain ⟨he, hrest⟩ := List.nodup_cons.mp h
    rw [deltaOf, sumBy_cons]
    rcases List.mem_cons.mp hd with rfl | hd
    · have hzero : sumBy (fun e => if e.1 = d.1 then e.2.val else 0) deltas = 0 :=
        sumBy_eq_zero fun e hmem => if_neg fun heq : e.1 = d.1 =>
          he (heq ▸ List.mem_map_of_mem hmem)
      rw [if_pos rfl, hzero, add_zero]
    · have hne : e.1 ≠ d.1 := by
        intro heq
        rw [heq] at he
        exact he (List.mem_map_of_mem hd)
      rw [if_neg hne, zero_add]
      exact ih hrest hd

/-- What the legs on guarded accounts move an account by. -/
def guardedDelta (priced : List PricedLeg) (account : Uuid) : ℚ :=
  sumBy (fun p : PricedLeg => if p.account.IsGuarded ∧ p.account.id = account then
    p.signedAmount.val else 0) priced

/-- **The association list of the net movements.** -/
theorem fundDeltas_spec (priced : List PricedLeg) :
    (∀ account, deltaOf (fundDeltas priced) account = guardedDelta priced account) ∧
    ((fundDeltas priced).map Prod.fst).Nodup ∧
    ∀ account, account ∈ (fundDeltas priced).map Prod.fst ↔
      ∃ p ∈ priced, p.account.IsGuarded ∧ p.account.id = account := by
  have hfold : ∀ (ps : List PricedLeg) (deltas : List (Uuid × Dec)),
      (deltas.map Prod.fst).Nodup →
      let deltas' := ps.foldl (fun deltas p =>
        if p.account.accountType ∈ nonNegativeTypes then
          bump deltas p.account.id p.signedAmount
        else deltas) deltas
      (∀ account, deltaOf deltas' account = deltaOf deltas account + guardedDelta ps account) ∧
      (deltas'.map Prod.fst).Nodup ∧
      ∀ account, account ∈ deltas'.map Prod.fst ↔ account ∈ deltas.map Prod.fst ∨
        ∃ p ∈ ps, p.account.IsGuarded ∧ p.account.id = account := by
    intro ps
    induction ps with
    | nil =>
      intro deltas h
      exact ⟨fun _ => (add_zero _).symm, h, fun _ => by simp⟩
    | cons p ps ih =>
      intro deltas h
      by_cases hp : p.account.accountType ∈ nonNegativeTypes
      · have hguarded : p.account.IsGuarded := hp
        obtain ⟨hval, hnodup, hkeys⟩ := ih (bump deltas p.account.id p.signedAmount)
          (nodup_keys_bump h)
        rw [List.foldl_cons, if_pos hp]
        refine ⟨fun account => ?_, hnodup, fun account => ?_⟩
        · rw [hval, deltaOf_bump, guardedDelta, guardedDelta, sumBy_cons, add_assoc]
          simp only [hguarded, true_and]
        · rw [hkeys, mem_keys_bump, or_assoc, List.exists_mem_cons_iff]
          simp only [hguarded, true_and, eq_comm]
      · have hguarded : ¬p.account.IsGuarded := hp
        obtain ⟨hval, hnodup, hkeys⟩ := ih deltas h
        rw [List.foldl_cons, if_neg hp]
        refine ⟨fun account => ?_, hnodup, fun account => ?_⟩
        · rw [hval, guardedDelta, guardedDelta, sumBy_cons]
          simp only [hguarded, false_and, if_false, zero_add]
        · rw [hkeys, List.exists_mem_cons_iff]
          simp only [hguarded, false_and, false_or]
  obtain ⟨hval, hnodup, hkeys⟩ := hfold priced [] List.nodup_nil
  refine ⟨fun account => ?_, hnodup, fun account => ?_⟩
  · rw [fundDeltas, hval]
    exact zero_add _
  · rw [fundDeltas, hkeys]
    simp

/-- **What the overdraft check comes to.** -/
theorem checkSufficientFunds_ok {balance : Uuid → Money} {priced : List PricedLeg} :
    checkSufficientFunds balance priced = .ok () ↔
      ∀ p ∈ priced, p.account.IsGuarded → 0 ≤ guardedDelta priced p.account.id ∨
        0 ≤ (balance p.account.id).toDec.val + guardedDelta priced p.account.id := by
  obtain ⟨hval, hnodup, hkeys⟩ := fundDeltas_spec priced
  have hone : ∀ d ∈ fundDeltas priced,
      (if 0 ≤ d.2.coeff then Except.ok () else
        require (0 ≤ ((balance d.1).toDec + d.2).coeff) (Exc.ledger .InsufficientFunds
          [.lit "account ", .uuid d.1, .lit " holds ", .dec (balance d.1).toDec, .lit ", needs ",
            .dec (-d.2)])) = .ok () ↔
      0 ≤ guardedDelta priced d.1 ∨
        0 ≤ (balance d.1).toDec.val + guardedDelta priced d.1 := by
    intro d hd
    have hnonneg : ∀ x : Dec, 0 ≤ x.coeff ↔ 0 ≤ x.val := fun x => by
      rw [← not_lt, ← not_lt, ← Dec.val_neg_iff]
    rw [← hval, deltaOf_of_mem hnodup hd, ← Dec.val_add, ← hnonneg, ← hnonneg]
    by_cases h : 0 ≤ d.2.coeff
    · simp [h]
    · rw [if_neg h, require_eq_ok]
      simp [h]
  rw [checkSufficientFunds, forM_except_ok]
  constructor
  · intro h p hp hguarded
    obtain ⟨d, hd, hdp⟩ := List.mem_map.mp ((hkeys p.account.id).mpr ⟨p, hp, hguarded, rfl⟩)
    rw [← hdp]
    exact (hone d hd).mp (h d hd)
  · intro h d hd
    obtain ⟨p, hp, hguarded, hpd⟩ := (hkeys d.1).mp (List.mem_map_of_mem hd)
    refine (hone d hd).mpr ?_
    rw [← hpd]
    exact h p hp hguarded

/-- The overdraft check raises `InsufficientFunds` only. -/
theorem checkSufficientFunds_class {balance : Uuid → Money} {priced : List PricedLeg} {e : Exc}
    (h : checkSufficientFunds balance priced = .error e) :
    ∃ detail, e = .ledger .InsufficientFunds detail := by
  unfold checkSufficientFunds at h
  generalize fundDeltas priced = deltas at h
  induction deltas with
  | nil => cases h
  | cons d deltas ih =>
    rcases except_bind_error.mp h with hd | ⟨_, -, hrest⟩
    · dsimp only at hd
      split at hd
      · cases hd
      · exact ⟨_, (require_eq_error.mp hd).2.symm⟩
    · exact ih hrest

/-- When it raises, a guarded account would go below zero. -/
theorem checkSufficientFunds_error {balance : Uuid → Money} {priced : List PricedLeg} {e : Exc}
    (h : checkSufficientFunds balance priced = .error e) :
    ∃ p ∈ priced, p.account.IsGuarded ∧
      (balance p.account.id).toDec.val + guardedDelta priced p.account.id < 0 := by
  by_contra hnone
  have hok : checkSufficientFunds balance priced = .ok () := by
    refine checkSufficientFunds_ok.mpr fun p hp hguarded => .inr ?_
    rw [← not_lt]
    exact fun hlt => hnone ⟨p, hp, hguarded, hlt⟩
  rw [hok] at h
  cases h

/-! ## A posting is covered -/

/-- The row of a validated leg holds its amount exactly. -/
theorem Posted.amount_exact {env : Env} {a : Posting} {db : Db} {legs : List ValidLeg}
    {accounts : List Account} {priced : List PricedLeg} {es : List Entry} {transfer : Uuid}
    (hprep : Prepared env db a legs accounts priced)
    (hrows : List.Forall₂ (RowOf env transfer) priced es) :
    List.Forall₂ (fun p e => p.account ∈ db.accounts ∧ p.account.id = e.account ∧
      p.signedAmount.val = e.signedAmount / (10 : ℚ) ^ 4) priced es := by
  have hself : List.Forall₂ (fun p q => p = q) priced priced := List.forall₂_refl priced
  refine forall₂_comp hself hrows fun p hp q e hpq hrow => ?_
  subst hpq
  obtain ⟨v, -, hpv⟩ := forall₂_exists_left hprep.pricedAs hp
  obtain ⟨hmem, -, -, hamount, -⟩ := hpv
  obtain ⟨n, hn⟩ := v.amount_places
  have hvalue : p.amount.val = n / (10 : ℚ) ^ 4 := by rw [hamount, hn]
  have hunits : e.amount = n := Dec.toNumeric_of_val hvalue hrow.amount_eq
  refine ⟨(lockAccounts_ok hprep.locked).2 _ hmem, hrow.account_eq.symm, ?_⟩
  rw [PricedLeg.signedAmount, Entry.signedAmount, hrow.direction_eq, hunits]
  cases p.direction with
  | DEBIT => exact hvalue
  | CREDIT =>
    show (-p.amount).val = _
    rw [Dec.val_neg, hvalue, signed]
    push_cast
    ring

/-- What a list of rows moves an account by is the same, before and after it
was stored. -/
private theorem guardedDelta_rows {db : Db} {c : Account} (hc : c ∈ db.accounts)
    (hguarded : c.IsGuarded) {priced : List PricedLeg} {es : List Entry}
    (h : List.Forall₂ (fun p e => p.account ∈ db.accounts ∧ p.account.id = e.account ∧
      p.signedAmount.val = e.signedAmount / (10 : ℚ) ^ 4) priced es) :
    guardedDelta priced c.id =
      ((sumBy Entry.signedAmount (group Entry.account c.id es) : ℤ) : ℚ) / (10 : ℚ) ^ 4 := by
  induction h with
  | nil => simp [guardedDelta, group]
  | @cons p e priced es hrow _ ih =>
    have ih : sumBy _ priced = _ := ih
    obtain ⟨hmem, hid, hval⟩ := hrow
    rw [guardedDelta, sumBy_cons, ih, group, group, List.filter_cons]
    by_cases hacc : e.account = c.id
    · have hsame : p.account = c := Table.eq_of_key_eq hmem hc (hid.trans hacc)
      rw [if_pos ⟨hsame ▸ hguarded, hid.trans hacc⟩, hval, if_pos (decide_eq_true hacc), sumBy_cons]
      push_cast
      ring
    · rw [if_neg fun hboth => hacc (hid.symm.trans hboth.2), zero_add,
        if_neg (by simpa using hacc)]

/-- **A posting that went through left no guarded account it lowered below
zero.** -/
theorem Posted.covered {env : Env} {a : Posting} {db db' : Db} {es : List Entry}
    (h : Posted env a db db' es) {c : Account} (hc : c ∈ db.accounts)
    (htype : c.accountType = .CASH) :
    0 ≤ sumBy Entry.signedAmount (group Entry.account c.id es) ∨
      0 ≤ nativeBalance db c.id + sumBy Entry.signedAmount (group Entry.account c.id es) := by
  obtain ⟨legs, accounts, priced, -, hprep, hrows⟩ := h.prepared
  have hguarded : c.IsGuarded := Account.isGuarded_iff.mpr htype
  have hexact := Posted.amount_exact hprep hrows
  have hdelta := guardedDelta_rows hc hguarded hexact
  by_cases htouched : ∃ e ∈ es, e.account = c.id
  · obtain ⟨e, he, hacc⟩ := htouched
    obtain ⟨p, hp, hmem, hid, -⟩ := forall₂_exists_left hexact he
    have hsame : p.account = c := Table.eq_of_key_eq hmem hc (hid.trans hacc)
    have hchecked := checkSufficientFunds_ok.mp hprep.funds p hp (hsame ▸ hguarded)
    rw [hsame, hdelta, Money.val_toDec, ← add_div] at hchecked
    have hnonneg : ∀ x : ℚ, 0 ≤ x / 10 ^ 4 → 0 ≤ x := fun x hx => by linarith
    rcases hchecked with hle | hle
    · left
      exact_mod_cast hnonneg _ hle
    · right
      exact_mod_cast hnonneg _ hle
  · left
    have hnil : group Entry.account c.id es = [] :=
      group_eq_nil fun e he hacc => htouched ⟨e, he, hacc⟩
    rw [hnil, sumBy_nil]

end FundLedger
