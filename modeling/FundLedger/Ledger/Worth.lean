import FundLedger.Ledger.Funds
import FundLedger.Ledger.Residual

/-!
# What priced legs are worth

Two callers may hand over the same legs in another order, and write the same
amounts in another way.  `PricedLeg.worth` is what is left of a priced leg when
the representation of its numbers is forgotten, and pricing is a function of
it: legs of the same account, direction and amount are priced alike
(`priceLeg_worth`).

Absorbing is not quite.  Of several legs that tie for the largest base amount it
adjusts the last one, so the order of the legs matters unless those legs are
interchangeable.  `absorb_perm` says that nothing else does.
-/

namespace FundLedger

open Lib

/-- A priced leg, up to the representation of its numbers. -/
structure Worth where
  account : Account
  direction : Direction
  amount : ℚ
  fxRate : Option Dec
  baseAmount : ℚ
  adjustable : Bool

def PricedLeg.worth (p : PricedLeg) : Worth where
  account := p.account
  direction := p.direction
  amount := p.amount.val
  fxRate := p.fxRate
  baseAmount := p.baseAmount.val
  adjustable := p.adjustable

/-- What a request says about a leg that has no overrides. -/
def ValidLeg.request (v : ValidLeg) : Uuid × Direction × ℚ :=
  (v.accountId, v.direction, v.amount.val)

/-- A leg that leaves the rate and the base amount to `price_legs`. -/
def ValidLeg.NoOverride (v : ValidLeg) : Prop := v.fxRate = none ∧ v.baseAmount = none

/-- The legs of a posting priced one by one, before a residual is absorbed. -/
def plainLegs (env : Env) (db : Db) (a : Posting) : Except Exc (List PricedLeg) := do
  let legs ← validateLegs a.legs
  let accounts ← lockAccounts db legs
  let baseCurrency ← baseCurrencyOf db a.period
  legs.mapM (priceLeg db accounts baseCurrency (a.fxDate.getD env.today))

/-! ## One leg -/

/-- A conversion depends on the number only. -/
theorem convert_congr {a b r : Dec} (h : a.val = b.val) : convert a r = convert b r := by
  rw [convert, convert]
  apply Dec.quantize_congr
  exact Dec.val_mul_congr (by norm_num) h

/-- **Legs that say the same are priced alike.** -/
theorem priceLeg_worth {db : Db} {accounts : List Account} {baseCurrency : String} {fxDate : Date}
    {v w : ValidLeg} {p : PricedLeg} (hv : v.NoOverride) (hw : w.NoOverride)
    (hreq : v.request = w.request) (hp : priceLeg db accounts baseCurrency fxDate v = .ok p) :
    ∃ q, priceLeg db accounts baseCurrency fxDate w = .ok q ∧ p.worth = q.worth := by
  obtain ⟨haccount, hdir, hamount⟩ : v.accountId = w.accountId ∧ v.direction = w.direction ∧
      v.amount.val = w.amount.val := by simpa [ValidLeg.request] using hreq
  simp only [priceLeg, except_bind_ok, orRaise_eq_ok, except_pure] at hp ⊢
  obtain ⟨c, hc, r, hr, base, hbase, rfl⟩ := hp
  have hrates : legRate db baseCurrency fxDate c.currency v =
      legRate db baseCurrency fxDate c.currency w := by
    unfold legRate
    rw [hv.1, hw.1]
  rw [haccount] at hc
  rw [hrates] at hr
  have hvalue : ∃ base', legBase w r = .ok base' ∧ base.1.val = base'.1.val ∧
      base.2 = base'.2 := by
    unfold legBase at hbase ⊢
    rw [hv.2] at hbase
    rw [hw.2]
    cases r with
    | none =>
      obtain rfl : (v.amount, false) = base := Except.ok.inj hbase
      exact ⟨_, rfl, hamount, rfl⟩
    | some r =>
      dsimp only at hbase ⊢
      rw [convert_congr hamount] at hbase
      exact ⟨base, hbase, rfl, rfl⟩
  obtain ⟨base', hbase', hval, hflag⟩ := hvalue
  refine ⟨_, ⟨c, hc, r, hr, base', hbase', rfl⟩, ?_⟩
  simp only [PricedLeg.worth, hdir, hamount, hval, hflag]

/-! ## Absorbing -/

/-- `debits - credits`, exactly. -/
def residual (priced : List PricedLeg) : Dec := sideTotal .DEBIT priced - sideTotal .CREDIT priced

/-- The residual is one that the legs may absorb. -/
def Absorbs (priced : List PricedLeg) : Prop :=
  (residual priced).val ≠ 0 ∧
  |(residual priced).val| ≤ (Dec.mul 28 fourDp (.ofInt (adjustableLegs priced).length)).val

/-- A leg that may be the one to absorb it. -/
structure Largest (priced : List PricedLeg) (p : PricedLeg) : Prop where
  mem : p ∈ priced
  adjustable : p.adjustable = true
  le : ∀ q ∈ priced, q.adjustable = true → q.baseAmount.val ≤ p.baseAmount.val

/-- The leg with its base amount moved by the residual. -/
def PricedLeg.absorbing (p : PricedLeg) (residual : Dec) : PricedLeg :=
  { p with baseAmount := p.baseAmount + if p.direction = .DEBIT then -residual else residual }

/-- The chosen candidate is the largest. -/
theorem foldl_largerCandidate_le (rest : List (PricedLeg × ℕ)) :
    ∀ first, ∀ c ∈ first :: rest,
      c.1.baseAmount.val ≤ (rest.foldl largerCandidate first).1.baseAmount.val := by
  induction rest with
  | nil =>
    intro first c hc
    rw [List.mem_singleton] at hc
    subst hc
    exact le_rfl
  | cons next rest ih =>
    intro first c hc
    have hboth : first.1.baseAmount.val ≤ (largerCandidate first next).1.baseAmount.val ∧
        next.1.baseAmount.val ≤ (largerCandidate first next).1.baseAmount.val := by
      unfold largerCandidate
      by_cases hle : first.1.baseAmount ≤ next.1.baseAmount
      · rw [if_pos hle]
        exact ⟨(Dec.le_iff _ _).mp hle, le_rfl⟩
      · rw [if_neg hle]
        rw [Dec.le_iff, not_le] at hle
        exact ⟨le_rfl, hle.le⟩
    have hchosen := ih (largerCandidate first next) _ List.mem_cons_self
    rw [List.foldl_cons]
    rcases List.mem_cons.mp hc with rfl | hc
    · exact hboth.1.trans hchosen
    · rcases List.mem_cons.mp hc with rfl | hc
      · exact hboth.2.trans hchosen
      · exact ih _ c (List.mem_cons_of_mem _ hc)

/-- **What absorbing does**: one of the largest adjustable legs takes the
residual up, when the legs may absorb it. -/
theorem absorb_cases (priced : List PricedLeg) :
    (¬Absorbs priced ∧ absorbRoundingResidual priced = priced) ∨
    (Absorbs priced ∧ ∃ i p, priced[i]? = some p ∧ Largest priced p ∧
      absorbRoundingResidual priced = priced.set i (p.absorbing (residual priced))) := by
  have hlength := length_candidates priced
  have hresidual : sideTotal .DEBIT priced - sideTotal .CREDIT priced = residual priced := rfl
  unfold absorbRoundingResidual
  dsimp only
  rw [hresidual]
  by_cases hzero : (residual priced).coeff = 0
  · left
    rw [if_pos hzero]
    exact ⟨fun h => h.1 ((Dec.val_eq_zero_iff _).mpr hzero), rfl⟩
  · have hne : (residual priced).val ≠ 0 := fun h => hzero ((Dec.val_eq_zero_iff _).mp h)
    rw [if_neg hzero]
    cases hcandidates : priced.zipIdx.filter fun c => c.1.adjustable with
    | nil =>
      rw [hcandidates, List.length_nil] at hlength
      left
      refine ⟨fun h => hne ?_, rfl⟩
      have hle := h.2
      rw [← hlength] at hle
      have htolerance : (Dec.mul 28 fourDp (.ofInt ((0 : ℕ) : ℤ))).val = 0 := by decide +kernel
      rw [htolerance] at hle
      exact abs_nonpos_iff.mp hle
    | cons first rest =>
      rw [hcandidates, List.length_cons] at hlength
      have hcast : ((rest.length : ℤ) + 1) = ((adjustableLegs priced).length : ℤ) := by
        rw [← hlength]
        push_cast
        rfl
      dsimp only
      rw [hcast]
      by_cases hlarge : Dec.mul 28 fourDp (.ofInt (adjustableLegs priced).length) <
          (residual priced).abs
      · left
        rw [if_pos hlarge]
        rw [Dec.lt_iff, Dec.val_abs] at hlarge
        exact ⟨fun h => absurd h.2 (not_le.mpr hlarge), rfl⟩
      · right
        rw [if_neg hlarge]
        rw [Dec.lt_iff, Dec.val_abs, not_lt] at hlarge
        have hmem := foldl_largerCandidate_mem rest first
        have hmax := foldl_largerCandidate_le rest first
        rw [← hcandidates] at hmem hmax
        generalize rest.foldl largerCandidate first = chosen at hmem hmax
        obtain ⟨hchosen, hadjustable⟩ := List.mem_filter.mp hmem
        have hget := List.mem_zipIdx_iff_getElem?.mp hchosen
        refine ⟨⟨hne, hlarge⟩, chosen.2, chosen.1, hget, ?_, modify_of_getElem? hget _⟩
        refine ⟨List.mem_of_getElem? hget, hadjustable, fun q hq hqadjustable => ?_⟩
        obtain ⟨j, hj⟩ := List.mem_iff_getElem?.mp hq
        exact hmax (q, j) (List.mem_filter.mpr ⟨List.mem_zipIdx_iff_getElem?.mpr hj, hqadjustable⟩)

/-! ## The order of the legs -/

/-- What a leg adds to the residual. -/
def Worth.signedBase (w : Worth) : ℚ :=
  match w.direction with
  | .DEBIT => w.baseAmount
  | .CREDIT => -w.baseAmount

theorem val_residual (priced : List PricedLeg) :
    (residual priced).val = sumBy Worth.signedBase (priced.map PricedLeg.worth) := by
  rw [residual, Dec.val_sub]
  induction priced with
  | nil => simp [sideTotal, Dec.sum]
  | cons p priced ih =>
    rw [val_sideTotal_cons, val_sideTotal_cons, List.map_cons, sumBy_cons, ← ih]
    show _ = (match p.direction with
      | .DEBIT => p.baseAmount.val
      | .CREDIT => -p.baseAmount.val) + _
    cases p.direction <;> simp <;> ring

theorem residual_perm {l m : List PricedLeg}
    (h : (l.map PricedLeg.worth).Perm (m.map PricedLeg.worth)) :
    (residual l).val = (residual m).val := by
  rw [val_residual, val_residual, sumBy_perm h]

theorem length_adjustable_perm {l m : List PricedLeg}
    (h : (l.map PricedLeg.worth).Perm (m.map PricedLeg.worth)) :
    (adjustableLegs l).length = (adjustableLegs m).length := by
  have hcount : ∀ l : List PricedLeg,
      (adjustableLegs l).length = ((l.map PricedLeg.worth).filter Worth.adjustable).length := by
    intro l
    rw [adjustableLegs, List.filter_map, List.length_map]
    rfl
  rw [hcount, hcount]
  exact (h.filter _).length_eq

theorem absorbs_perm {l m : List PricedLeg}
    (h : (l.map PricedLeg.worth).Perm (m.map PricedLeg.worth)) : Absorbs l ↔ Absorbs m := by
  rw [Absorbs, Absorbs, residual_perm h, length_adjustable_perm h]

/-- The largest legs of one order are the largest legs of the other. -/
theorem Largest.perm {l m : List PricedLeg}
    (h : (l.map PricedLeg.worth).Perm (m.map PricedLeg.worth)) {q : PricedLeg} (hq : Largest m q) :
    ∃ p, Largest l p ∧ p.worth = q.worth := by
  obtain ⟨p, hp, hpq⟩ := List.mem_map.mp (h.mem_iff.mpr (List.mem_map_of_mem hq.mem))
  refine ⟨p, ⟨hp, ?_, fun r hr hadjustable => ?_⟩, hpq⟩
  · exact (congrArg Worth.adjustable hpq).trans hq.adjustable
  · obtain ⟨s, hs, hsr⟩ := List.mem_map.mp (h.mem_iff.mp (List.mem_map_of_mem hr))
    have hle := hq.le s hs ((congrArg Worth.adjustable hsr).trans hadjustable)
    have hbase : p.baseAmount.val = q.baseAmount.val := congrArg Worth.baseAmount hpq
    have hsbase : s.baseAmount.val = r.baseAmount.val := congrArg Worth.baseAmount hsr
    rwa [hbase, ← hsbase]

theorem worth_absorbing {p q : PricedLeg} {r s : Dec} (h : p.worth = q.worth)
    (hr : r.val = s.val) : (p.absorbing r).worth = (q.absorbing s).worth := by
  have hdir : p.direction = q.direction := congrArg Worth.direction h
  have hbase : p.baseAmount.val = q.baseAmount.val := congrArg Worth.baseAmount h
  have hmoved : (p.absorbing r).baseAmount.val = (q.absorbing s).baseAmount.val := by
    unfold PricedLeg.absorbing
    dsimp only
    rw [hdir, Dec.val_add, Dec.val_add, hbase]
    split
    · rw [Dec.val_neg, Dec.val_neg, hr]
    · rw [hr]
  show Worth.mk p.account p.direction p.amount.val p.fxRate (p.absorbing r).baseAmount.val
    p.adjustable = Worth.mk q.account q.direction q.amount.val q.fxRate
      (q.absorbing s).baseAmount.val q.adjustable
  rw [hmoved]
  exact congrArg (fun w : Worth => { w with baseAmount := (q.absorbing s).baseAmount.val }) h

/-- Replacing an element, up to the order. -/
theorem map_set_perm {α β : Type} (f : α → β) {l : List α} {i : ℕ} {a : α} (h : l[i]? = some a)
    (b : α) : (l.map f).Perm (f a :: (l.eraseIdx i).map f) ∧
      ((l.set i b).map f).Perm (f b :: (l.eraseIdx i).map f) := by
  induction l generalizing i with
  | nil => cases h
  | cons c l ih =>
    cases i with
    | zero =>
      obtain rfl : c = a := Option.some.inj h
      exact ⟨.refl _, .refl _⟩
    | succ i =>
      obtain ⟨hold, hnew⟩ := ih (i := i) h
      constructor
      · exact (hold.cons (f c)).trans (.swap _ _ _)
      · exact (hnew.cons (f c)).trans (.swap _ _ _)

/-- **Absorbing does not depend on the order of the legs** when the legs that
may absorb the residual are worth the same. -/
theorem absorb_perm {l m : List PricedLeg}
    (h : (l.map PricedLeg.worth).Perm (m.map PricedLeg.worth))
    (untied : Absorbs l → ∀ p q, Largest l p → Largest l q → p.worth = q.worth) :
    ((absorbRoundingResidual l).map PricedLeg.worth).Perm
      ((absorbRoundingResidual m).map PricedLeg.worth) := by
  rcases absorb_cases l with ⟨hno, hl⟩ | ⟨hyes, i, p, hi, hp, hl⟩
  · rcases absorb_cases m with ⟨-, hm⟩ | ⟨hyes, -⟩
    · rw [hl, hm]
      exact h
    · exact absurd ((absorbs_perm h).mpr hyes) hno
  · rcases absorb_cases m with ⟨hno, -⟩ | ⟨-, j, q, hj, hq, hm⟩
    · exact absurd ((absorbs_perm h).mp hyes) hno
    · -- the two legs that absorb are worth the same, and so are the others
      obtain ⟨p', hp', hpq⟩ := hq.perm h
      have hsame : p.worth = q.worth := (untied hyes p p' hp hp').trans hpq
      obtain ⟨hlold, hlnew⟩ := map_set_perm PricedLeg.worth hi (p.absorbing (residual l))
      obtain ⟨hmold, hmnew⟩ := map_set_perm PricedLeg.worth hj (q.absorbing (residual m))
      have hothers : ((l.eraseIdx i).map PricedLeg.worth).Perm
          ((m.eraseIdx j).map PricedLeg.worth) := by
        have hall := hlold.symm.trans (h.trans hmold)
        rw [hsame] at hall
        exact hall.cons_inv
      rw [hl, hm]
      refine hlnew.trans (.trans ?_ hmnew.symm)
      rw [worth_absorbing hsame (residual_perm h)]
      exact hothers.cons _

/-! ## The legs of a request -/

/-- The legs that tie to absorb the residual ask for the same. -/
def Untied (priced : List PricedLeg) : Prop :=
  Absorbs priced → ∀ p q, Largest priced p → Largest priced q →
    p.account.id = q.account.id ∧ p.direction = q.direction ∧ p.amount.val = q.amount.val

section

variable {db : Db} {accounts : List Account} {baseCurrency : String} {fxDate : Date}
  {va vb : List ValidLeg}

/-- Legs that say the same in another order are priced alike, one by one. -/
theorem mapM_priceLeg_perm (hva : ∀ v ∈ va, v.NoOverride) (hvb : ∀ v ∈ vb, v.NoOverride)
    (hperm : (va.map ValidLeg.request).Perm (vb.map ValidLeg.request)) {plain : List PricedLeg}
    (h : va.mapM (priceLeg db accounts baseCurrency fxDate) = .ok plain) :
    ∃ plain', vb.mapM (priceLeg db accounts baseCurrency fxDate) = .ok plain' ∧
      (plain.map PricedLeg.worth).Perm (plain'.map PricedLeg.worth) := by
  have hlegs := mapM_except_ok.mp h
  obtain ⟨plain', hplain'⟩ : ∃ plain', vb.mapM (priceLeg db accounts baseCurrency fxDate) =
      .ok plain' := by
    apply mapM_isOk
    intro w hw
    obtain ⟨v, hv, hvw⟩ := List.mem_map.mp (hperm.mem_iff.mpr (List.mem_map_of_mem hw))
    obtain ⟨p, -, hp⟩ := forall₂_exists_right hlegs hv
    obtain ⟨q, hq, -⟩ := priceLeg_worth (hva v hv) (hvb w hw) hvw hp
    exact ⟨q, hq⟩
  refine ⟨plain', hplain', ?_⟩
  refine perm_of_determined hlegs (mapM_except_ok.mp hplain') ?_ hperm
  intro v hv w hw p q hvw hp hq
  obtain ⟨q', hq', hworth⟩ := priceLeg_worth (hva v hv) (hvb w hw) hvw hp
  obtain rfl : q = q' := Except.ok.inj (hq.symm.trans hq')
  exact hworth

/-- Legs of one request that tie are worth the same. -/
theorem worth_of_untied (hva : ∀ v ∈ va, v.NoOverride) {plain : List PricedLeg}
    (h : va.mapM (priceLeg db accounts baseCurrency fxDate) = .ok plain) (untied : Untied plain) :
    Absorbs plain → ∀ p q, Largest plain p → Largest plain q → p.worth = q.worth := by
  intro habsorbs p q hp hq
  obtain ⟨haccount, hdir, hamount⟩ := untied habsorbs p q hp hq
  have hlegs := mapM_except_ok.mp h
  obtain ⟨v, hv, hvp⟩ := forall₂_exists_left hlegs hp.mem
  obtain ⟨w, hw, hwq⟩ := forall₂_exists_left hlegs hq.mem
  obtain ⟨-, hpid, hpdir, hpamount, -⟩ := priceLeg_ok hvp
  obtain ⟨-, hqid, hqdir, hqamount, -⟩ := priceLeg_ok hwq
  have hreq : v.request = w.request := by
    show (v.accountId, v.direction, v.amount.val) = (w.accountId, w.direction, w.amount.val)
    rw [← hpid, ← hpdir, ← hpamount, haccount, hdir, hamount, hqid, hqdir, hqamount]
  obtain ⟨q', hq', hworth⟩ := priceLeg_worth (hva v hv) (hva w hw) hreq hvp
  obtain rfl : q = q' := Except.ok.inj (hwq.symm.trans hq')
  exact hworth

/-- **Pricing depends on what the legs say.** -/
theorem priceLegs_perm (hva : ∀ v ∈ va, v.NoOverride) (hvb : ∀ v ∈ vb, v.NoOverride)
    (hperm : (va.map ValidLeg.request).Perm (vb.map ValidLeg.request))
    (untied : ∀ plain, va.mapM (priceLeg db accounts baseCurrency fxDate) = .ok plain →
      Untied plain) {priced : List PricedLeg}
    (h : priceLegs db va accounts baseCurrency fxDate = .ok priced) :
    ∃ priced', priceLegs db vb accounts baseCurrency fxDate = .ok priced' ∧
      (priced.map PricedLeg.worth).Perm (priced'.map PricedLeg.worth) := by
  unfold priceLegs at h ⊢
  rcases hplain : va.mapM (priceLeg db accounts baseCurrency fxDate) with e | plain
  · rw [hplain] at h
    cases h
  · rw [hplain] at h
    obtain rfl : absorbRoundingResidual plain = priced := Except.ok.inj h
    obtain ⟨plain', hplain', hworth⟩ := mapM_priceLeg_perm hva hvb hperm hplain
    rw [hplain']
    exact ⟨_, rfl, absorb_perm hworth (worth_of_untied hva hplain (untied plain hplain))⟩

end

/-! ## The checks -/

theorem checkBalanced_perm {l m : List PricedLeg}
    (h : (l.map PricedLeg.worth).Perm (m.map PricedLeg.worth))
    (hl : (sideTotal .DEBIT l).val = (sideTotal .CREDIT l).val) :
    (sideTotal .DEBIT m).val = (sideTotal .CREDIT m).val := by
  have hzero : (residual l).val = 0 := by rw [residual, Dec.val_sub, hl, sub_self]
  rw [residual_perm h, residual, Dec.val_sub, sub_eq_zero] at hzero
  exact hzero

/-- What a leg moves a guarded account by. -/
def Worth.guarded (w : Worth) (account : Uuid) : ℚ :=
  if w.account.IsGuarded ∧ w.account.id = account then
    match w.direction with
    | .DEBIT => w.amount
    | .CREDIT => -w.amount
  else 0

theorem guardedDelta_perm {l m : List PricedLeg}
    (h : (l.map PricedLeg.worth).Perm (m.map PricedLeg.worth)) (account : Uuid) :
    guardedDelta l account = guardedDelta m account := by
  have hworth : ∀ l : List PricedLeg, guardedDelta l account =
      sumBy (fun w : Worth => w.guarded account) (l.map PricedLeg.worth) := by
    intro l
    rw [guardedDelta, sumBy_map]
    refine sumBy_congr fun p _ => ?_
    show _ = if p.account.IsGuarded ∧ p.account.id = account then _ else _
    split
    · unfold PricedLeg.signedAmount
      show _ = match p.direction with
        | .DEBIT => p.amount.val
        | .CREDIT => -p.amount.val
      cases p.direction with
      | DEBIT => rfl
      | CREDIT => exact Dec.val_neg _
    · rfl
  rw [hworth, hworth, sumBy_perm h]

theorem checkSufficientFunds_perm {balance : Uuid → Money} {l m : List PricedLeg}
    (h : (l.map PricedLeg.worth).Perm (m.map PricedLeg.worth))
    (hl : checkSufficientFunds balance l = .ok ()) : checkSufficientFunds balance m = .ok () := by
  rw [checkSufficientFunds_ok] at hl ⊢
  intro q hq hguarded
  obtain ⟨p, hp, hpq⟩ := List.mem_map.mp (h.mem_iff.mpr (List.mem_map_of_mem hq))
  have haccount : p.account = q.account := congrArg Worth.account hpq
  have hp := hl p hp (haccount ▸ hguarded)
  rwa [haccount, guardedDelta_perm h] at hp

end FundLedger
