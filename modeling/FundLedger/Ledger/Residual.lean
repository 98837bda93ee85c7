import FundLedger.Ledger.Pricing
import FundLedger.Ledger.Services
import FundLedger.Lib.Context

/-!
# The rounding residual

`price_legs` adds up base amounts in the default decimal context, which has 28
digits.  `Pricing` adds them up exactly.  Here are the same functions with the
context in them, and `absorbIn_agrees` says when the two agree: when the base
amounts of each side come to less than 10²⁴.

* `absorbIn_cases`: absorbing a residual changes the base amount of one
  adjustable leg, or nothing.
* `priceLeg_error`: a leg priced on its own is off by half a ten-thousandth at
  most.
* `balanced_of_exact` and `exact_of_balanced`: what is absorbed is rounding.
-/

namespace FundLedger

open Lib

/-! ## Pricing in a context -/

/-- The base amounts on one side, added up in the default context. -/
def sideTotalIn (direction : Direction) (priced : List PricedLeg) : Dec :=
  Dec.sumIn 28 ((priced.filter fun p => p.direction = direction).map PricedLeg.baseAmount)

/-- `debits - credits`. -/
def residualIn (priced : List PricedLeg) : Dec :=
  Dec.fix 28 (sideTotalIn .DEBIT priced - sideTotalIn .CREDIT priced)

/-- `replace(leg, base_amount=leg.base_amount + adjustment)`. -/
def PricedLeg.adjusted (p : PricedLeg) (residual : Dec) : PricedLeg :=
  let adjustment := if p.direction = .DEBIT then -residual else residual
  { p with baseAmount := Dec.fix 28 (p.baseAmount + adjustment) }

def absorbRoundingResidualIn (priced : List PricedLeg) : List PricedLeg :=
  let residual := residualIn priced
  if residual.coeff = 0 then priced
  else match priced.zipIdx.filter fun c => c.1.adjustable with
    | [] => priced
    | first :: rest =>
      if Dec.mul 28 fourDp (.ofInt (rest.length + 1)) < residual.abs then priced
      else priced.modify (rest.foldl largerCandidate first).2 fun p => p.adjusted residual

def priceLegsIn (db : Db) (legs : List ValidLeg) (accounts : List Account)
    (baseCurrency : String) (fxDate : Date) : Except Exc (List PricedLeg) :=
  absorbRoundingResidualIn <$> legs.mapM (priceLeg db accounts baseCurrency fxDate)

def checkBalancedIn (priced : List PricedLeg) : Except Exc Unit :=
  let debits := sideTotalIn .DEBIT priced
  let credits := sideTotalIn .CREDIT priced
  require (debits.eqv credits)
    (.ledger .UnbalancedTransfer [.lit "debits ", .dec debits, .lit " != credits ", .dec credits])

/-! ## What is absorbed -/

/-- The legs that may absorb a residual. -/
def adjustableLegs (priced : List PricedLeg) : List PricedLeg :=
  priced.filter fun p => p.adjustable

theorem length_candidates (priced : List PricedLeg) :
    (priced.zipIdx.filter fun c => c.1.adjustable).length = (adjustableLegs priced).length := by
  have hmap : (priced.zipIdx.filter fun c => c.1.adjustable).map Prod.fst = adjustableLegs priced := by
    rw [adjustableLegs, ← List.zipIdx_map_fst 0 priced, List.filter_map]
    simp only [List.zipIdx_map_fst]
    rfl
  rw [← hmap, List.length_map]

theorem foldl_largerCandidate_mem (rest : List (PricedLeg × ℕ)) :
    ∀ first, rest.foldl largerCandidate first ∈ first :: rest := by
  induction rest with
  | nil => exact fun _ => List.mem_cons_self
  | cons next rest ih =>
    intro first
    have hone : largerCandidate first next = first ∨ largerCandidate first next = next := by
      unfold largerCandidate
      split
      · exact .inr rfl
      · exact .inl rfl
    rw [List.foldl_cons]
    rcases hone with heq | heq <;> rw [heq]
    · have hmem := ih first
      rw [List.mem_cons] at hmem ⊢
      exact hmem.imp_right (List.mem_cons_of_mem _)
    · exact List.mem_cons_of_mem _ (ih next)

theorem modify_of_getElem? {α : Type} {l : List α} {i : ℕ} {a : α} (h : l[i]? = some a)
    (f : α → α) : l.modify i f = l.set i (f a) := by
  induction l generalizing i with
  | nil => cases h
  | cons b l ih =>
    cases i with
    | zero =>
      obtain rfl : b = a := Option.some.inj h
      rfl
    | succ i => exact congrArg _ (ih h)

/-- **What absorbing does**: nothing, and then the residual is zero or too
large, or it adjusts one adjustable leg. -/
theorem absorbIn_cases (priced : List PricedLeg) :
    (absorbRoundingResidualIn priced = priced ∧ ((residualIn priced).val = 0 ∨
      adjustableLegs priced = [] ∨
      (Dec.mul 28 fourDp (.ofInt (adjustableLegs priced).length)).val <
        |(residualIn priced).val|)) ∨
    (∃ i p, priced[i]? = some p ∧ p.adjustable ∧
      |(residualIn priced).val| ≤
        (Dec.mul 28 fourDp (.ofInt (adjustableLegs priced).length)).val ∧
      absorbRoundingResidualIn priced = priced.set i (p.adjusted (residualIn priced))) := by
  have hlength := length_candidates priced
  unfold absorbRoundingResidualIn
  dsimp only
  by_cases hzero : (residualIn priced).coeff = 0
  · rw [if_pos hzero]
    exact .inl ⟨rfl, .inl ((Dec.val_eq_zero_iff _).mpr hzero)⟩
  · rw [if_neg hzero]
    split
    · rename_i hnone
      rw [hnone, List.length_nil] at hlength
      exact .inl ⟨rfl, .inr (.inl (List.length_eq_zero_iff.mp hlength.symm))⟩
    · rename_i first rest hsome
      rw [hsome, List.length_cons] at hlength
      have hcast : ((rest.length : ℤ) + 1) = ((adjustableLegs priced).length : ℤ) := by
        rw [← hlength]
        push_cast
        rfl
      rw [hcast]
      by_cases hlarge : Dec.mul 28 fourDp (.ofInt (adjustableLegs priced).length) <
          (residualIn priced).abs
      · rw [if_pos hlarge]
        rw [Dec.lt_iff, Dec.val_abs] at hlarge
        exact .inl ⟨rfl, .inr (.inr hlarge)⟩
      · rw [if_neg hlarge]
        rw [Dec.lt_iff, Dec.val_abs, not_lt] at hlarge
        have hmem := foldl_largerCandidate_mem rest first
        rw [← hsome, List.mem_filter] at hmem
        obtain ⟨hchosen, hadjustable⟩ := hmem
        generalize rest.foldl largerCandidate first = chosen at hchosen hadjustable
        have hget := List.mem_zipIdx_iff_getElem?.mp hchosen
        refine .inr ⟨chosen.2, chosen.1, hget, hadjustable, hlarge, ?_⟩
        exact modify_of_getElem? hget _

/-! ## The totals of the sides -/

/-- One side of a list of legs. -/
def onSide (direction : Direction) (g : Dec → ℚ) (p : PricedLeg) : ℚ :=
  if p.direction = direction then g p.baseAmount else 0

theorem sumBy_side (direction : Direction) (g : Dec → ℚ) (priced : List PricedLeg) :
    sumBy g ((priced.filter fun p => p.direction = direction).map PricedLeg.baseAmount) =
      sumBy (onSide direction g) priced := by
  rw [sumBy_map, sumBy_filter]
  refine sumBy_congr fun p _ => ?_
  by_cases h : p.direction = direction <;> simp [onSide, h]

theorem val_sideTotal (direction : Direction) (priced : List PricedLeg) :
    (sideTotal direction priced).val = sumBy (onSide direction Dec.val) priced := by
  rw [sideTotal, Dec.val_sum, ← sumBy_side]
  rfl

/-- What 28 digits hold, with four of them after the point. -/
def contextBound : ℚ := 10 ^ 28 / 10 ^ 4

/-- A whole number of ten-thousandths. -/
def InUnits (x : ℚ) : Prop := ∃ n : ℤ, x = n / (10 : ℚ) ^ 4

theorem InUnits.add {x y : ℚ} (hx : InUnits x) (hy : InUnits y) : InUnits (x + y) := by
  obtain ⟨n, rfl⟩ := hx
  obtain ⟨m, rfl⟩ := hy
  exact ⟨n + m, by push_cast; ring⟩

theorem InUnits.neg {x : ℚ} (hx : InUnits x) : InUnits (-x) := by
  obtain ⟨n, rfl⟩ := hx
  exact ⟨-n, by push_cast; ring⟩

theorem InUnits.sumBy {α : Type} {f : α → ℚ} {l : List α} (h : ∀ a ∈ l, InUnits (f a)) :
    InUnits (Lib.sumBy f l) := by
  induction l with
  | nil => exact ⟨0, by simp⟩
  | cons a l ih =>
    obtain ⟨ha, hl⟩ := List.forall_mem_cons.mp h
    rw [sumBy_cons]
    exact ha.add (ih hl)

/-- A number of units below the bound is not rounded. -/
theorem val_fix_of_inUnits {d : Dec} (h : InUnits d.val) (hd : |d.val| < contextBound) :
    (Dec.fix 28 d).val = d.val := by
  obtain ⟨n, hn⟩ := h
  exact Dec.val_fix_of_units (by norm_num) hn hd

/-- A side is added up exactly when what is above zero and what is below zero
both stay under the bound. -/
theorem val_sideTotalIn {direction : Direction} {priced : List PricedLeg}
    (hunits : ∀ p ∈ priced, InUnits p.baseAmount.val)
    (hpos : sumBy (onSide direction Dec.posPart) priced < contextBound)
    (hneg : sumBy (onSide direction Dec.negPart) priced < contextBound) :
    (sideTotalIn direction priced).val = (sideTotal direction priced).val := by
  refine @Dec.val_sumIn 28 4 (by norm_num) _ (fun d hd => ?_) ?_ ?_
  · obtain ⟨p, hp, rfl⟩ := List.mem_map.mp hd
    exact hunits p (List.mem_of_mem_filter hp)
  · rw [sumBy_side]
    exact hpos
  · rw [sumBy_side]
    exact hneg

/-- Base amounts that the context adds up exactly. -/
structure InContext (priced : List PricedLeg) : Prop where
  units : ∀ p ∈ priced, InUnits p.baseAmount.val
  nonneg : ∀ p ∈ priced, 0 ≤ p.baseAmount.val
  total : ∀ direction, (sideTotal direction priced).val < contextBound

namespace InContext

variable {priced : List PricedLeg}

theorem onSide_val (h : InContext priced) (direction : Direction) :
    sumBy (onSide direction Dec.posPart) priced = (sideTotal direction priced).val ∧
      sumBy (onSide direction Dec.negPart) priced = 0 := by
  rw [val_sideTotal]
  constructor
  · refine sumBy_congr fun p hp => ?_
    unfold onSide
    split
    · exact max_eq_left (h.nonneg p hp)
    · rfl
  · refine sumBy_eq_zero fun p hp => ?_
    unfold onSide
    split
    · exact max_eq_right (neg_nonpos.mpr (h.nonneg p hp))
    · rfl

theorem sideTotal_nonneg (h : InContext priced) (direction : Direction) :
    0 ≤ (sideTotal direction priced).val := by
  rw [val_sideTotal]
  refine sumBy_nonneg fun p hp => ?_
  unfold onSide
  split
  · exact h.nonneg p hp
  · exact le_rfl

/-- **The sides are added up exactly.** -/
theorem sideTotalIn_eq (h : InContext priced) (direction : Direction) :
    (sideTotalIn direction priced).val = (sideTotal direction priced).val := by
  obtain ⟨hpos, hneg⟩ := h.onSide_val direction
  refine val_sideTotalIn h.units ?_ ?_
  · rw [hpos]
    exact h.total direction
  · rw [hneg]
    norm_num [contextBound]

theorem inUnits_sideTotal (h : InContext priced) (direction : Direction) :
    InUnits (sideTotal direction priced).val := by
  rw [val_sideTotal]
  refine InUnits.sumBy fun p hp => ?_
  unfold onSide
  split
  · exact h.units p hp
  · exact ⟨0, by simp⟩

theorem residualIn_eq (h : InContext priced) :
    (residualIn priced).val = (sideTotal .DEBIT priced).val - (sideTotal .CREDIT priced).val := by
  have hval : (sideTotalIn .DEBIT priced - sideTotalIn .CREDIT priced).val =
      (sideTotal .DEBIT priced).val - (sideTotal .CREDIT priced).val := by
    rw [Dec.val_sub, h.sideTotalIn_eq, h.sideTotalIn_eq]
  have hunits : InUnits ((sideTotal .DEBIT priced).val - (sideTotal .CREDIT priced).val) := by
    rw [sub_eq_add_neg]
    exact (h.inUnits_sideTotal _).add (h.inUnits_sideTotal _).neg
  rw [residualIn, val_fix_of_inUnits (hval ▸ hunits), hval]
  have hd := h.sideTotal_nonneg .DEBIT
  have hc := h.sideTotal_nonneg .CREDIT
  have hd' := h.total .DEBIT
  have hc' := h.total .CREDIT
  rw [hval, abs_lt]
  constructor <;> linarith

theorem inUnits_residualIn (h : InContext priced) : InUnits (residualIn priced).val := by
  rw [h.residualIn_eq, sub_eq_add_neg]
  exact (h.inUnits_sideTotal _).add (h.inUnits_sideTotal _).neg

/-- A leg is part of its side. -/
theorem base_le (h : InContext priced) {p : PricedLeg} (hp : p ∈ priced) :
    p.baseAmount.val ≤ (sideTotal p.direction priced).val := by
  have hall : ∀ x ∈ priced.map (onSide p.direction Dec.val), 0 ≤ x := by
    intro x hx
    obtain ⟨q, hq, rfl⟩ := List.mem_map.mp hx
    unfold onSide
    split
    · exact h.nonneg q hq
    · exact le_rfl
  have hle := List.single_le_sum hall _ (List.mem_map_of_mem hp)
  rw [val_sideTotal]
  rwa [onSide, if_pos rfl] at hle

/-- **The adjusted leg takes up the residual**, exactly. -/
theorem val_adjusted (h : InContext priced) {p : PricedLeg} (hp : p ∈ priced) :
    (p.adjusted (residualIn priced)).baseAmount.val = p.baseAmount.val +
      if p.direction = .DEBIT then -(residualIn priced).val else (residualIn priced).val := by
  have hres := h.inUnits_residualIn
  have hle := h.base_le hp
  have hnn := h.nonneg p hp
  have hd := h.sideTotal_nonneg .DEBIT
  have hc := h.sideTotal_nonneg .CREDIT
  have hd' := h.total .DEBIT
  have hc' := h.total .CREDIT
  unfold PricedLeg.adjusted
  dsimp only
  cases hdir : p.direction with
  | DEBIT =>
    rw [hdir] at hle
    have hval : (p.baseAmount + -residualIn priced).val =
        p.baseAmount.val + -(residualIn priced).val := by rw [Dec.val_add, Dec.val_neg]
    rw [if_pos rfl, if_pos rfl, ← hval]
    refine val_fix_of_inUnits (hval ▸ (h.units p hp).add hres.neg) ?_
    rw [hval, h.residualIn_eq, abs_lt]
    constructor <;> linarith
  | CREDIT =>
    rw [hdir] at hle
    have hval : (p.baseAmount + residualIn priced).val =
        p.baseAmount.val + (residualIn priced).val := by rw [Dec.val_add]
    rw [if_neg (by simp), if_neg (by simp), ← hval]
    refine val_fix_of_inUnits (hval ▸ (h.units p hp).add hres) ?_
    rw [hval, h.residualIn_eq, abs_lt]
    constructor <;> linarith

end InContext

/-! ## The check afterwards -/

theorem checkBalancedIn_ok {priced : List PricedLeg} :
    checkBalancedIn priced = .ok () ↔
      (sideTotalIn .DEBIT priced).val = (sideTotalIn .CREDIT priced).val := by
  rw [← Dec.eqv_iff, checkBalancedIn]
  exact require_eq_ok

theorem sumBy_set {α : Type} {f : α → ℚ} {l : List α} {i : ℕ} {a b : α} (h : l[i]? = some a) :
    sumBy f (l.set i b) = sumBy f l - f a + f b := by
  induction l generalizing i with
  | nil => cases h
  | cons c l ih =>
    cases i with
    | zero =>
      obtain rfl : c = a := Option.some.inj h
      rw [List.set_cons_zero, sumBy_cons, sumBy_cons]
      ring
    | succ i =>
      rw [List.set_cons_succ, sumBy_cons, sumBy_cons, ih h]
      ring

theorem add_max_lt {t x b : ℚ} (hx : t + x < b) (ht : t < b) : t + max x 0 < b := by
  rcases max_choice x 0 with hmax | hmax <;> rw [hmax]
  · exact hx
  · rwa [add_zero]

namespace InContext

variable {priced : List PricedLeg}

/-- Without absorbing, the check asks for no residual. -/
theorem checkBalancedIn_iff (h : InContext priced) :
    checkBalancedIn priced = .ok () ↔ (residualIn priced).val = 0 := by
  rw [checkBalancedIn_ok, h.sideTotalIn_eq, h.sideTotalIn_eq, h.residualIn_eq, sub_eq_zero]

/-- **A list with an adjusted leg balances**, and the check passes. -/
theorem balanced_adjusted (h : InContext priced) {i : ℕ} {p : PricedLeg}
    (hi : priced[i]? = some p) :
    (sideTotal .DEBIT (priced.set i (p.adjusted (residualIn priced)))).val =
      (sideTotal .CREDIT (priced.set i (p.adjusted (residualIn priced)))).val ∧
    checkBalancedIn (priced.set i (p.adjusted (residualIn priced))) = .ok () := by
  have hp : p ∈ priced := List.mem_of_getElem? hi
  have hres := h.residualIn_eq
  have hadjusted := h.val_adjusted hp
  have hle := h.base_le hp
  have hnn := h.nonneg p hp
  have hd := h.sideTotal_nonneg .DEBIT
  have hc := h.sideTotal_nonneg .CREDIT
  have hd' := h.total .DEBIT
  have hc' := h.total .CREDIT
  have hside : (p.adjusted (residualIn priced)).direction = p.direction := rfl
  generalize p.adjusted (residualIn priced) = q at hadjusted hside ⊢
  have hunits : ∀ r ∈ priced.set i q, InUnits r.baseAmount.val := by
    intro r hr
    rcases List.mem_or_eq_of_mem_set hr with hr | rfl
    · exact h.units r hr
    · rw [hadjusted]
      refine (h.units p hp).add ?_
      split
      · exact h.inUnits_residualIn.neg
      · exact h.inUnits_residualIn
  -- the totals of a side, and its parts above and below zero
  have htotal : ∀ d, (sideTotal d (priced.set i q)).val = (sideTotal d priced).val -
      onSide d Dec.val p + onSide d Dec.val q := by
    intro d
    rw [val_sideTotal, val_sideTotal, sumBy_set hi]
  have hparts : ∀ d, sumBy (onSide d Dec.posPart) (priced.set i q) =
      (sideTotal d priced).val - onSide d Dec.posPart p + onSide d Dec.posPart q ∧
      sumBy (onSide d Dec.negPart) (priced.set i q) =
        -onSide d Dec.negPart p + onSide d Dec.negPart q := by
    intro d
    obtain ⟨hpos, hneg⟩ := h.onSide_val d
    rw [sumBy_set hi, sumBy_set hi, hpos, hneg, zero_sub]
    exact ⟨rfl, rfl⟩
  have hpp : p.baseAmount.posPart = p.baseAmount.val := max_eq_left hnn
  have hpn : p.baseAmount.negPart = 0 := max_eq_right (neg_nonpos.mpr hnn)
  have hbalanced : (sideTotal .DEBIT (priced.set i q)).val =
      (sideTotal .CREDIT (priced.set i q)).val := by
    rw [htotal, htotal]
    unfold onSide
    rw [hside]
    cases hdir : p.direction with
    | DEBIT =>
      rw [hdir, if_pos rfl] at hadjusted
      simp only [hadjusted, hres]
      simp
      ring
    | CREDIT =>
      rw [hdir, if_neg (by simp)] at hadjusted
      simp only [hadjusted, hres]
      simp
      ring
  refine ⟨hbalanced, ?_⟩
  have hbounds : ∀ d, sumBy (onSide d Dec.posPart) (priced.set i q) < contextBound ∧
      sumBy (onSide d Dec.negPart) (priced.set i q) < contextBound := by
    intro d
    obtain ⟨hpos, hneg⟩ := hparts d
    have hd'' := h.total d
    have hbound : 0 < contextBound := by norm_num [contextBound]
    rw [hpos, hneg]
    unfold onSide
    rw [hside, hpp, hpn]
    by_cases hdir : p.direction = d
    · subst hdir
      rw [if_pos rfl, if_pos rfl, if_pos rfl, if_pos rfl]
      unfold Dec.posPart Dec.negPart
      rw [hadjusted, hres]
      cases hdir : p.direction with
      | DEBIT =>
        rw [hdir] at hle hd''
        rw [if_pos rfl]
        exact ⟨add_max_lt (by linarith) (by linarith), add_max_lt (by linarith) (by linarith)⟩
      | CREDIT =>
        rw [hdir] at hle hd''
        rw [if_neg (by simp)]
        exact ⟨add_max_lt (by linarith) (by linarith), add_max_lt (by linarith) (by linarith)⟩
    · rw [if_neg hdir, if_neg hdir, if_neg hdir, if_neg hdir]
      constructor <;> linarith
  rw [checkBalancedIn_ok, val_sideTotalIn hunits (hbounds _).1 (hbounds _).2,
    val_sideTotalIn hunits (hbounds _).1 (hbounds _).2, hbalanced]

end InContext

/-! ## Agreement -/

theorem forall₂_set {α : Type} {R : α → α → Prop} {l m : List α} (h : List.Forall₂ R l m)
    {i : ℕ} {a b : α} (hab : R a b) : List.Forall₂ R (l.set i a) (m.set i b) := by
  induction h generalizing i with
  | nil => exact .nil
  | cons hhead htail ih =>
    cases i with
    | zero => exact .cons hab htail
    | succ i => exact .cons hhead ih

theorem forall₂_getElem?_left {α β : Type} {R : α → β → Prop} {l : List α} {m : List β}
    (h : List.Forall₂ R l m) {i : ℕ} {b : β} (hi : m[i]? = some b) :
    ∃ a, l[i]? = some a ∧ R a b := by
  induction h generalizing i with
  | nil => cases hi
  | cons hhead htail ih =>
    cases i with
    | zero =>
      obtain rfl := Option.some.inj hi
      exact ⟨_, rfl, hhead⟩
    | succ i => exact ih hi

theorem forall₂_set_right {α β : Type} {R : α → β → Prop} {l : List α} {m : List β}
    (h : List.Forall₂ R l m) {i : ℕ} {a : α} {b : β} (hi : l[i]? = some a) (hab : R a b) :
    List.Forall₂ R l (m.set i b) := by
  induction h generalizing i with
  | nil => exact .nil
  | cons hhead htail ih =>
    cases i with
    | zero =>
      obtain rfl := Option.some.inj hi
      exact .cons hab htail
    | succ i => exact .cons hhead (ih hi)

/-- **Within the bound, the context makes no difference**: the legs are the same
and so are the numbers. -/
theorem absorbIn_agrees {priced : List PricedLeg} (h : InContext priced) :
    List.Forall₂ (fun p q => SameLeg p q ∧ q.baseAmount.val = p.baseAmount.val)
      (absorbRoundingResidual priced) (absorbRoundingResidualIn priced) := by
  have hval : (sideTotal .DEBIT priced - sideTotal .CREDIT priced).val =
      (residualIn priced).val := by rw [Dec.val_sub, h.residualIn_eq]
  have hrefl : List.Forall₂ (fun p q => SameLeg p q ∧ q.baseAmount.val = p.baseAmount.val)
      priced priced := List.forall₂_same.mpr fun _ _ => ⟨rfl, rfl⟩
  unfold absorbRoundingResidual absorbRoundingResidualIn
  dsimp only
  generalize sideTotal .DEBIT priced - sideTotal .CREDIT priced = residual at hval
  have hzero : residual.coeff = 0 ↔ (residualIn priced).coeff = 0 := by
    rw [← Dec.val_eq_zero_iff, ← Dec.val_eq_zero_iff, hval]
  have habs : ∀ x : Dec, x < residual.abs ↔ x < (residualIn priced).abs := by
    intro x
    rw [Dec.lt_iff, Dec.lt_iff, Dec.val_abs, Dec.val_abs, hval]
  simp only [hzero, habs]
  by_cases hnone : (residualIn priced).coeff = 0
  · rw [if_pos hnone, if_pos hnone]
    exact hrefl
  · rw [if_neg hnone, if_neg hnone]
    cases hcandidates : priced.zipIdx.filter fun c => c.1.adjustable with
    | nil => exact hrefl
    | cons first rest =>
      dsimp only
      by_cases hlarge : Dec.mul 28 fourDp (.ofInt (rest.length + 1)) < (residualIn priced).abs
      · rw [if_pos hlarge, if_pos hlarge]
        exact hrefl
      · have hmem := foldl_largerCandidate_mem rest first
        rw [← hcandidates] at hmem
        have hget := List.mem_zipIdx_iff_getElem?.mp (List.mem_of_mem_filter hmem)
        rw [if_neg hlarge, if_neg hlarge]
        generalize rest.foldl largerCandidate first = chosen at hget
        rw [modify_of_getElem? hget, modify_of_getElem? hget]
        have hp : chosen.1 ∈ priced := List.mem_of_getElem? hget
        refine forall₂_set hrefl ⟨rfl, ?_⟩
        rw [h.val_adjusted hp, Dec.val_add]
        split
        · rw [Dec.val_neg, hval]
        · rw [hval]

/-- Absorbing leaves the legs alone that are not adjustable. -/
theorem absorbRoundingResidual_fixed (priced : List PricedLeg) :
    List.Forall₂ (fun p q => SameLeg p q ∧ (p.adjustable = false → q = p)) priced
      (absorbRoundingResidual priced) := by
  have hrefl : List.Forall₂ (fun p q => SameLeg p q ∧ (p.adjustable = false → q = p))
      priced priced := List.forall₂_same.mpr fun _ _ => ⟨rfl, fun _ => rfl⟩
  unfold absorbRoundingResidual
  dsimp only
  split
  · exact hrefl
  · cases hcandidates : priced.zipIdx.filter fun c => c.1.adjustable with
    | nil => exact hrefl
    | cons first rest =>
      dsimp only
      split
      · exact hrefl
      · have hmem := foldl_largerCandidate_mem rest first
        rw [← hcandidates, List.mem_filter] at hmem
        obtain ⟨hchosen, hadjustable⟩ := hmem
        have hget := List.mem_zipIdx_iff_getElem?.mp hchosen
        generalize rest.foldl largerCandidate first = chosen at hget hadjustable
        rw [modify_of_getElem? hget]
        refine forall₂_set_right hrefl hget ⟨rfl, fun hfixed => ?_⟩
        exact absurd (hfixed.symm.trans hadjustable) Bool.false_ne_true

/-! ## The error of a conversion -/

/-- The value of a leg before any rounding. -/
def PricedLeg.exact (p : PricedLeg) : ℚ :=
  match p.fxRate with
  | none => p.amount.val
  | some r => p.amount.val * r.val

/-- The exact value of one side. -/
def exactTotal (direction : Direction) (priced : List PricedLeg) : ℚ :=
  sumBy (fun p : PricedLeg => if p.direction = direction then p.exact else 0) priced

/-- A positive rate that fits the column of rates. -/
def FitsRate (r : Dec) : Prop := 0 < r.val ∧ ∃ m : ℤ, r.val = m / (10 : ℚ) ^ 10 ∧ m.natAbs < 10 ^ 20

/-- An amount that passed validation fits 28 digits. -/
theorem validateLeg_bound {leg : Leg} {v : ValidLeg} (h : validateLeg leg = .ok v) :
    ∃ n : ℤ, v.amount.val = n / (10 : ℚ) ^ 4 ∧ n.natAbs < 10 ^ 28 := by
  unfold validateLeg at h
  split at h
  · cases h
  · cases h
  · split at h
    · split at h
      · cases h
      · rename_i q hq
        split at h
        · rename_i heqv
          cases h
          exact ⟨q.coeff, ((Dec.eqv_iff _ q).mp heqv).trans (Dec.val_of_quantize hq),
            (Dec.quantize_eq_some.mp hq).2⟩
        · cases h
    · cases h
  · cases h

/-- Fifty digits hold the product of an amount and a rate. -/
theorem val_product {amount rate : Dec} {n : ℤ} (hamount : amount.val = n / (10 : ℚ) ^ 4)
    (hn : n.natAbs < 10 ^ 28) (hrate : FitsRate rate) :
    (Dec.mul 50 amount rate).val = amount.val * rate.val ∧
      |amount.val * rate.val| < (10 : ℚ) ^ 50 / (10 : ℚ) ^ 14 := by
  obtain ⟨-, m, hm, hmlt⟩ := hrate
  have hval := Dec.val_product_exact amount rate
  have hunits : amount.val * rate.val = ((n * m : ℤ) : ℚ) / (10 : ℚ) ^ 14 := by
    rw [hamount, hm]
    push_cast
    ring
  have hfits : |amount.val * rate.val| < (10 : ℚ) ^ 50 / (10 : ℚ) ^ 14 := by
    have hnat : (n * m).natAbs < 10 ^ 50 := by
      calc (n * m).natAbs = n.natAbs * m.natAbs := Int.natAbs_mul n m
        _ ≤ 10 ^ 28 * 10 ^ 20 := Nat.mul_le_mul hn.le hmlt.le
        _ < 10 ^ 50 := by norm_num
    have hcast : |((n * m : ℤ) : ℚ)| < (10 : ℚ) ^ 50 := by
      rw [← Int.cast_abs, Int.abs_eq_natAbs]
      exact_mod_cast hnat
    have hden : (0 : ℚ) < 10 ^ 14 := by norm_num
    rw [hunits, abs_div, abs_of_pos hden]
    exact div_lt_div_of_pos_right hcast hden
  refine ⟨?_, hfits⟩
  rw [Dec.mul, Dec.val_fix_of_units (by norm_num) (hval.trans hunits) (by rwa [hval]), hval]

/-- **A conversion is off by half a ten-thousandth at most**, and is not
negative. -/
theorem convert_error {amount rate q : Dec} {n : ℤ} (hamount : amount.val = n / (10 : ℚ) ^ 4)
    (hn : n.natAbs < 10 ^ 28) (hpos : 0 < amount.val) (hrate : FitsRate rate)
    (h : convert amount rate = some q) :
    |q.val - amount.val * rate.val| ≤ 1 / 20000 ∧ InUnits q.val ∧ 0 ≤ q.val := by
  have hrpos := hrate.1
  have hproduct := (val_product hamount hn hrate).1
  obtain ⟨hq, -⟩ := Dec.quantize_eq_some.mp h
  have herror := Dec.rescale_error .halfEven (Dec.mul 50 amount rate) (-(4 : ℕ))
  have hunits : InUnits q.val := ⟨q.coeff, Dec.val_of_quantize h⟩
  rw [← hq, hproduct] at herror
  have herror : |q.val - amount.val * rate.val| ≤ 1 / 20000 := by
    refine herror.trans ?_
    norm_num
  refine ⟨herror, hunits, ?_⟩
  obtain ⟨k, hk⟩ := hunits
  have hlow := (abs_le.mp herror).1
  have hexact : 0 < amount.val * rate.val := mul_pos hpos hrpos
  have hlt : (-1 : ℚ) < k := by
    rw [hk] at hlow
    linarith
  have hk0 : (0 : ℤ) ≤ k := by
    have : (-1 : ℤ) < k := by exact_mod_cast hlt
    omega
  rw [hk]
  exact div_nonneg (by exact_mod_cast hk0) (by norm_num)

/-! ## Legs priced on their own -/

/-- Where a base amount comes from. -/
theorem legBase_ok {v : ValidLeg} {rate : Option Dec} {base : Dec × Bool}
    (h : legBase v rate = .ok base) :
    (v.baseAmount ≠ none ∧ base.2 = false) ∨
    (v.baseAmount = none ∧ rate = none ∧ base = (v.amount, false)) ∨
    (v.baseAmount = none ∧ ∃ r q, rate = some r ∧ convert v.amount r = some q ∧
      base = (q, true)) := by
  unfold legBase at h
  cases hover : v.baseAmount with
  | some b =>
    left
    refine ⟨Option.some_ne_none b, ?_⟩
    rw [hover] at h
    have hflag : ∀ {x : Except Exc Dec}, (·, false) <$> x = .ok base → base.2 = false := by
      rintro (e | d) hx
      · cases hx
      · cases hx
        rfl
    cases rate with
    | none => exact hflag h
    | some r =>
      obtain ⟨converted, -, h⟩ := except_bind_ok.mp h
      exact hflag h
  | none =>
    right
    rw [hover] at h
    cases rate with
    | none => exact .inl ⟨rfl, rfl, (Except.ok.inj h).symm⟩
    | some r =>
      right
      obtain ⟨converted, hconverted, h⟩ := except_bind_ok.mp h
      cases hq : convert v.amount r with
      | none =>
        rw [hq] at hconverted
        cases hconverted
      | some q =>
        rw [hq] at hconverted
        cases hconverted
        exact ⟨rfl, r, q, rfl, hq, (Except.ok.inj h).symm⟩

/-- Only a foreign leg without a base amount of the caller is adjustable. -/
theorem priceLeg_adjustable {db : Db} {accounts : List Account} {baseCurrency : String}
    {fxDate : Date} {v : ValidLeg} {p : PricedLeg}
    (h : priceLeg db accounts baseCurrency fxDate v = .ok p) :
    p.adjustable = true ↔ p.currency ≠ baseCurrency ∧ v.baseAmount = none := by
  obtain ⟨hrate, hbase⟩ := priceLeg_values h
  rw [Ne, ← legRate_eq_none hrate]
  rcases legBase_ok hbase with ⟨hover, hflag⟩ | ⟨hover, hfx, heq⟩ | ⟨hover, r, q, hfx, -, heq⟩
  · have hflag : p.adjustable = false := hflag
    simp [hflag, hover]
  · have hflag : p.adjustable = false := congrArg Prod.snd heq
    simp [hflag, hfx]
  · have hflag : p.adjustable = true := congrArg Prod.snd heq
    simp [hflag, hfx, hover]

/-- How far a leg priced on its own is from its exact value. -/
structure CloselyPriced (p : PricedLeg) : Prop where
  units : InUnits p.baseAmount.val
  nonneg : 0 ≤ p.baseAmount.val
  error : |p.baseAmount.val - p.exact| ≤ if p.adjustable then 1 / 20000 else 0

theorem priceLeg_error {db : Db} {accounts : List Account} {baseCurrency : String}
    {fxDate : Date} {leg : Leg} {v : ValidLeg} {p : PricedLeg}
    (hvalid : validateLeg leg = .ok v) (h : priceLeg db accounts baseCurrency fxDate v = .ok p)
    (hnone : v.baseAmount = none) (hrates : ∀ r ∈ p.fxRate, FitsRate r) : CloselyPriced p := by
  obtain ⟨n, hn, hfits⟩ := validateLeg_bound hvalid
  obtain ⟨-, -, -, hamount, -⟩ := priceLeg_ok h
  obtain ⟨-, hbase⟩ := priceLeg_values h
  rcases legBase_ok hbase with ⟨hover, -⟩ | ⟨-, hfx, heq⟩ | ⟨-, r, q, hfx, hq, heq⟩
  · exact absurd hnone hover
  · obtain ⟨hvalue, hflag⟩ := Prod.mk.inj heq
    have hexact : p.exact = v.amount.val := by rw [PricedLeg.exact, hfx, hamount]
    refine ⟨hvalue ▸ ⟨n, hn⟩, hvalue ▸ v.amount_pos.le, ?_⟩
    rw [hvalue, hexact, sub_self, abs_zero, hflag]
    simp
  · obtain ⟨hvalue, hflag⟩ := Prod.mk.inj heq
    have hexact : p.exact = v.amount.val * r.val := by rw [PricedLeg.exact, hfx, hamount]
    obtain ⟨herror, hunits, hnn⟩ := convert_error hn hfits v.amount_pos (hrates r hfx) hq
    refine ⟨hvalue ▸ hunits, hvalue ▸ hnn, ?_⟩
    rw [hvalue, hexact, hflag, if_pos rfl]
    exact herror

/-- The rounding of a list of legs, half a ten-thousandth for each leg that was
converted. -/
theorem sum_error {priced : List PricedLeg} (h : ∀ p ∈ priced, CloselyPriced p) :
    |((sideTotal .DEBIT priced).val - (sideTotal .CREDIT priced).val) -
      (exactTotal .DEBIT priced - exactTotal .CREDIT priced)| ≤
      (adjustableLegs priced).length / 20000 := by
  induction priced with
  | nil => simp [sideTotal, exactTotal, adjustableLegs, Dec.sum]
  | cons p priced ih =>
    obtain ⟨hp, hrest⟩ := List.forall_mem_cons.mp h
    have ih := ih hrest
    have herror := hp.error
    rw [val_sideTotal_cons, val_sideTotal_cons, exactTotal, exactTotal, sumBy_cons, sumBy_cons]
    rw [exactTotal, exactTotal] at ih
    have hlength : ((adjustableLegs (p :: priced)).length : ℚ) / 20000 =
        (if p.adjustable then 1 / 20000 else 0) + (adjustableLegs priced).length / 20000 := by
      unfold adjustableLegs
      rw [List.filter_cons]
      split
      · push_cast [List.length_cons]
        ring
      · ring
    rw [hlength]
    rw [abs_le] at herror ih ⊢
    cases hdir : p.direction <;> simp only [reduceCtorEq, if_true, if_false] <;>
      constructor <;> linarith

/-- What `0.0001 * n` is at least, and at most when it matters. -/
theorem tolerance_ge (n : ℕ) : (n : ℚ) / 20000 ≤ (Dec.mul 28 fourDp (.ofInt n)).val := by
  have herror := Dec.fix_error (by norm_num : 0 < 28) ⟨1 * (n : ℤ), -4 + 0⟩
  have hval : (⟨1 * (n : ℤ), -4 + 0⟩ : Dec).val = n / 10000 := by
    rw [Dec.val_eq]
    norm_num
    ring
  have hnn : (0 : ℚ) ≤ n / 10000 := by positivity
  rw [hval, abs_of_nonneg hnn] at herror
  have hlow := (abs_le.mp herror).1
  show (n : ℚ) / 20000 ≤ (Dec.fix 28 ⟨1 * (n : ℤ), -4 + 0⟩).val
  linarith

theorem le_tolerance {n : ℕ} {x : ℚ} (hx : x < contextBound)
    (h : x ≤ (Dec.mul 28 fourDp (.ofInt n)).val) : x ≤ n / 10000 := by
  have hval : (⟨1 * (n : ℤ), -4 + 0⟩ : Dec).val = ((n : ℤ) : ℚ) / (10 : ℚ) ^ 4 := by
    rw [Dec.val_eq]
    norm_num
    ring
  have hfix : (Dec.mul 28 fourDp (.ofInt n)).val = (Dec.fix 28 ⟨1 * (n : ℤ), -4 + 0⟩).val := rfl
  by_cases hn : (n : ℚ) / 10000 < contextBound
  · have hsmall : |(⟨1 * (n : ℤ), -4 + 0⟩ : Dec).val| < contextBound := by
      have hnn : (0 : ℚ) ≤ n / 10000 := by positivity
      rw [hval, Int.cast_natCast, abs_of_nonneg (by positivity)]
      norm_num
      exact hn
    rw [hfix, val_fix_of_inUnits ⟨n, hval⟩ hsmall, hval] at h
    norm_num at h
    exact h
  · exact hx.le.trans (not_lt.mp hn)

/-! ## What is absorbed is rounding -/

section

variable {priced : List PricedLeg}

theorem inContext_of_closelyPriced (h : ∀ p ∈ priced, CloselyPriced p)
    (htotal : ∀ direction, (sideTotal direction priced).val < contextBound) : InContext priced :=
  ⟨fun p hp => (h p hp).units, fun p hp => (h p hp).nonneg, htotal⟩

/-- **Legs that balance exactly are never rejected.** -/
theorem balanced_of_exact (h : ∀ p ∈ priced, CloselyPriced p)
    (htotal : ∀ direction, (sideTotal direction priced).val < contextBound)
    (hexact : exactTotal .DEBIT priced = exactTotal .CREDIT priced) :
    (sideTotal .DEBIT (absorbRoundingResidualIn priced)).val =
      (sideTotal .CREDIT (absorbRoundingResidualIn priced)).val ∧
    checkBalancedIn (absorbRoundingResidualIn priced) = .ok () := by
  have hcontext := inContext_of_closelyPriced h htotal
  have herror := sum_error h
  have htolerance := tolerance_ge (adjustableLegs priced).length
  rw [hexact, sub_self, sub_zero, ← hcontext.residualIn_eq] at herror
  rcases absorbIn_cases priced with ⟨hsame, hwhy⟩ | ⟨i, p, hi, -, -, heq⟩
  · have hzero : (residualIn priced).val = 0 := by
      rcases hwhy with hzero | hnone | hlarge
      · exact hzero
      · rw [hnone, List.length_nil, Nat.cast_zero, zero_div] at herror
        exact abs_nonpos_iff.mp herror
      · exact absurd (herror.trans htolerance) (not_le.mpr hlarge)
    rw [hsame, hcontext.checkBalancedIn_iff]
    refine ⟨?_, hzero⟩
    rwa [hcontext.residualIn_eq, sub_eq_zero] at hzero
  · rw [heq]
    exact hcontext.balanced_adjusted hi

/-- **Legs that are accepted were off by rounding only.** -/
theorem exact_of_balanced (h : ∀ p ∈ priced, CloselyPriced p)
    (htotal : ∀ direction, (sideTotal direction priced).val < contextBound)
    (hbalanced : checkBalancedIn (absorbRoundingResidualIn priced) = .ok ()) :
    |exactTotal .DEBIT priced - exactTotal .CREDIT priced| ≤
      ((adjustableLegs priced).length : ℚ) * (15 / 100000) ∧
    List.Forall₂ (fun p q => |q.baseAmount.val - p.exact| ≤
      ((adjustableLegs priced).length + 1 : ℚ) / 10000) priced (absorbRoundingResidualIn priced) := by
  have hcontext := inContext_of_closelyPriced h htotal
  have herror := sum_error h
  have hn : (0 : ℚ) ≤ (adjustableLegs priced).length := Nat.cast_nonneg _
  rw [← hcontext.residualIn_eq] at herror
  have hresidual : |(residualIn priced).val| < contextBound := by
    have hd := hcontext.sideTotal_nonneg .DEBIT
    have hc := hcontext.sideTotal_nonneg .CREDIT
    have hd' := htotal .DEBIT
    have hc' := htotal .CREDIT
    rw [hcontext.residualIn_eq, abs_lt]
    constructor <;> linarith
  have hself : List.Forall₂ (fun p q : PricedLeg => |q.baseAmount.val - p.exact| ≤
      ((adjustableLegs priced).length + 1 : ℚ) / 10000) priced priced := by
    refine List.forall₂_same.mpr fun p hp => ((h p hp).error).trans ?_
    have hhalf : (if p.adjustable then (1 / 20000 : ℚ) else 0) ≤ 1 / 20000 := by
      split <;> norm_num
    refine hhalf.trans ?_
    linarith
  rcases absorbIn_cases priced with ⟨hsame, -⟩ | ⟨i, p, hi, hadjustable, hle, heq⟩
  · rw [hsame, hcontext.checkBalancedIn_iff] at hbalanced
    rw [hbalanced, zero_sub, abs_neg] at herror
    rw [hsame]
    refine ⟨herror.trans ?_, hself⟩
    linarith
  · have htolerance := le_tolerance hresidual hle
    rw [heq]
    constructor
    · have htri := abs_sub_abs_le_abs_sub
        (exactTotal .DEBIT priced - exactTotal .CREDIT priced) (residualIn priced).val
      rw [abs_sub_comm] at herror
      linarith
    · have hp : p ∈ priced := List.mem_of_getElem? hi
      have hone : |(p.adjusted (residualIn priced)).baseAmount.val - p.exact| ≤
          ((adjustableLegs priced).length + 1 : ℚ) / 10000 := by
        have hperr := (h p hp).error
        rw [hadjustable, if_pos rfl] at hperr
        rw [hcontext.val_adjusted hp]
        rw [abs_le] at hperr htolerance ⊢
        split <;> constructor <;> linarith
      exact forall₂_set_right hself hi hone

end

/-- **Absorption repairs the rounding and nothing else.**  The first part is for
all validated legs.  The other two are for legs without a base amount of the
caller, at positive rates that fit their column, whose base amounts the default
context can add up on either side. -/
theorem absorption_repairs_rounding {db : Db} {legs : List Leg} {vs : List ValidLeg}
    {accounts : List Account} {baseCurrency : String} {fxDate : Date} {out : List PricedLeg}
    (valid : validateLegs legs = .ok vs)
    (priced : priceLegsIn db vs accounts baseCurrency fxDate = .ok out) :
    ∃ plain, vs.mapM (priceLeg db accounts baseCurrency fxDate) = .ok plain ∧
      (out = plain ∨ ∃ i v p b, vs[i]? = some v ∧ plain[i]? = some p ∧ v.baseAmount = none ∧
        p.currency ≠ baseCurrency ∧ out = plain.set i { p with baseAmount := b }) ∧
      ((∀ v ∈ vs, v.baseAmount = none) → (∀ p ∈ plain, ∀ r ∈ p.fxRate, FitsRate r) →
        (∀ direction, (sideTotal direction plain).val < contextBound) →
        (exactTotal .DEBIT plain = exactTotal .CREDIT plain →
          (sideTotal .DEBIT out).val = (sideTotal .CREDIT out).val ∧
            checkBalancedIn out = .ok ()) ∧
        (checkBalancedIn out = .ok () →
          |exactTotal .DEBIT plain - exactTotal .CREDIT plain| ≤
            ((plain.filter fun p => p.currency ≠ baseCurrency).length : ℚ) * (15 / 100000) ∧
          List.Forall₂ (fun p q => |q.baseAmount.val - p.exact| ≤
            ((plain.filter fun p => p.currency ≠ baseCurrency).length + 1 : ℚ) / 10000)
            plain out)) := by
  unfold priceLegsIn at priced
  rcases hplain : vs.mapM (priceLeg db accounts baseCurrency fxDate) with e | plain
  · rw [hplain] at priced
    cases priced
  · rw [hplain] at priced
    obtain rfl : absorbRoundingResidualIn plain = out := Except.ok.inj priced
    have hlegs := mapM_except_ok.mp hplain
    refine ⟨plain, rfl, ?_, fun hnone hrates htotal => ?_⟩
    · rcases absorbIn_cases plain with ⟨hsame, -⟩ | ⟨i, p, hi, hadjustable, -, heq⟩
      · exact .inl hsame
      · obtain ⟨v, hv, hprice⟩ := forall₂_getElem?_left hlegs hi
        obtain ⟨hforeign, hover⟩ := (priceLeg_adjustable hprice).mp hadjustable
        exact .inr ⟨i, v, p, _, hv, hi, hover, hforeign, heq⟩
    · have hclose : ∀ p ∈ plain, CloselyPriced p := by
        intro p hp
        obtain ⟨v, hv, hprice⟩ := forall₂_exists_left hlegs hp
        obtain ⟨leg, -, hleg⟩ :=
          forall₂_exists_left (mapM_except_ok.mp (validateLegs_ok valid).2.2.2) hv
        exact priceLeg_error hleg hprice (hnone v hv) (hrates p hp)
      have hforeign : adjustableLegs plain = plain.filter fun p => p.currency ≠ baseCurrency := by
        refine List.filter_congr fun p hp => ?_
        obtain ⟨v, hv, hprice⟩ := forall₂_exists_left hlegs hp
        rw [Bool.eq_iff_iff, priceLeg_adjustable hprice, decide_eq_true_eq]
        exact and_iff_left (hnone v hv)
      rw [← hforeign]
      exact ⟨balanced_of_exact hclose htotal, exact_of_balanced hclose htotal⟩

/-! ## Legs to try it on -/

/-- Cash in the base currency, and a foreign holding. -/
def twoAccounts : List Account := [
  { id := 1, fund := 1, code := "CASH-GBP", accountType := .CASH, ownerLp := none, currency := "GBP" },
  { id := 2, fund := 1, code := "INVESTMENT-USD", accountType := .INVESTMENT, ownerLp := none
    currency := "USD" }]

/-- One rate, of 0.79. -/
def rateOf79 : Db where
  funds := .empty
  lps := .empty
  commitments := .empty
  periods := .empty
  fxRates := ⟨[{ id := 1, fromCurrency := "USD", toCurrency := "GBP", rate := 7900000000
                 asOfDate := 1 }], by decide⟩
  accounts := .empty
  transfers := .empty
  entries := .empty
  capitalCalls := .empty
  distributions := .empty
  memberships := .empty

/-- 100.0001 of the foreign currency for 79: a ten-thousandth too much after
rounding. -/
def roundedUp : List Leg := [
  { accountId := 2, direction := "DEBIT", amount := .finite ⟨1000001, -4⟩ },
  { accountId := 1, direction := "CREDIT", amount := .finite ⟨79, 0⟩ }]

theorem absorption_repairs_rounding_roundedUp : ∃ vs plain out,
    validateLegs roundedUp = .ok vs ∧
    vs.mapM (priceLeg rateOf79 twoAccounts "GBP" 5) = .ok plain ∧
    priceLegsIn rateOf79 vs twoAccounts "GBP" 5 = .ok out ∧
    out.map PricedLeg.baseAmount = [⟨790000, -4⟩, ⟨79, 0⟩] ∧
    |exactTotal .DEBIT plain - exactTotal .CREDIT plain| ≤ 1 * (15 / 100000) := by
  have hrun : (do
      let vs ← validateLegs roundedUp
      let plain ← vs.mapM (priceLeg rateOf79 twoAccounts "GBP" 5)
      return (vs.map ValidLeg.baseAmount, plain.map PricedLeg.fxRate,
        [sideTotal .DEBIT plain, sideTotal .CREDIT plain])) =
      .ok ([none, none], [some ⟨7900000000, -10⟩, none], [⟨790001, -4⟩, ⟨79, 0⟩]) := by
    decide +kernel
  have hout : (do
      let vs ← validateLegs roundedUp
      let plain ← vs.mapM (priceLeg rateOf79 twoAccounts "GBP" 5)
      return ((plain.filter fun p : PricedLeg => p.currency ≠ "GBP").length,
        (absorbRoundingResidualIn plain).map PricedLeg.baseAmount,
        checkBalancedIn (absorbRoundingResidualIn plain))) =
      .ok (1, [⟨790000, -4⟩, ⟨79, 0⟩], .ok ()) := by
    decide +kernel
  obtain ⟨vs, hvs, hrest⟩ := except_bind_ok.mp hrun
  obtain ⟨plain, hplain, hret⟩ := except_bind_ok.mp hrest
  obtain ⟨vs', hvs', hout⟩ := except_bind_ok.mp hout
  obtain rfl : vs = vs' := Except.ok.inj (hvs.symm.trans hvs')
  obtain ⟨plain', hplain', hout⟩ := except_bind_ok.mp hout
  obtain rfl : plain = plain' := Except.ok.inj (hplain.symm.trans hplain')
  simp only [except_pure, Prod.mk.injEq, List.cons.injEq] at hret hout
  obtain ⟨hnone, hrate, hdebits, hcredits, -⟩ := hret
  obtain ⟨hforeign, hout, hcheck⟩ := hout
  have hpriced : priceLegsIn rateOf79 vs twoAccounts "GBP" 5 =
      .ok (absorbRoundingResidualIn plain) := by
    rw [priceLegsIn, hplain]
    rfl
  obtain ⟨plain', hplain', -, hrest⟩ := absorption_repairs_rounding hvs hpriced
  obtain rfl : plain = plain' := Except.ok.inj (hplain.symm.trans hplain')
  have hnone : ∀ v ∈ vs, v.baseAmount = none := by
    intro v hv
    have hmem : v.baseAmount ∈ vs.map ValidLeg.baseAmount := List.mem_map_of_mem hv
    rw [hnone] at hmem
    simpa using hmem
  have hrates : ∀ p ∈ plain, ∀ r ∈ p.fxRate, FitsRate r := by
    intro p hp r hr
    have hmem : p.fxRate ∈ plain.map PricedLeg.fxRate := List.mem_map_of_mem hp
    rw [hrate, Option.mem_def.mp hr] at hmem
    simp only [List.mem_cons, Option.some.injEq, reduceCtorEq, List.not_mem_nil, or_false] at hmem
    subst hmem
    refine ⟨(Dec.val_pos_iff _).mpr (by norm_num), 7900000000, ?_, by norm_num⟩
    exact Dec.val_ofUnits 10 7900000000
  have htotal : ∀ d, (sideTotal d plain).val < contextBound := by
    intro d
    cases d with
    | DEBIT =>
      rw [hdebits, Dec.val_eq]
      norm_num [contextBound]
    | CREDIT =>
      rw [hcredits, Dec.val_eq]
      norm_num [contextBound]
  have hbound := ((hrest hnone hrates htotal).2 hcheck).1
  rw [hforeign, Nat.cast_one] at hbound
  exact ⟨vs, plain, _, hvs, hplain, hpriced, hout, hbound⟩

/-- Legs of up to 10²⁴, in the base currency. -/
def hugeLegs : List Leg := [
  { accountId := 1, direction := "DEBIT", amount := .finite (.ofUnits 4 (10 ^ 28 - 1)) },
  { accountId := 1, direction := "DEBIT", amount := .finite (.ofUnits 4 (10 ^ 28 - 1)) },
  { accountId := 1, direction := "CREDIT", amount := .finite (.ofUnits 4 (10 ^ 28 - 1)) },
  { accountId := 1, direction := "CREDIT", amount := .finite (.ofUnits 4 (10 ^ 28 - 7)) },
  { accountId := 1, direction := "CREDIT", amount := .finite (.ofUnits 4 3) },
  { accountId := 1, direction := "CREDIT", amount := .finite (.ofUnits 4 3) }]

/-- **Beyond 28 digits exact legs are rejected**: the debits round to
2 000 000 000 000 000 000 000 000, and the credits to a thousandth less. -/
theorem hugeLegs_rejected : ∃ vs plain out detail,
    validateLegs hugeLegs = .ok vs ∧ (∀ v ∈ vs, v.baseAmount = none) ∧
    vs.mapM (priceLeg rateOf79 twoAccounts "GBP" 5) = .ok plain ∧
    exactTotal .DEBIT plain = exactTotal .CREDIT plain ∧
    priceLegsIn rateOf79 vs twoAccounts "GBP" 5 = .ok out ∧
    checkBalancedIn out = .error (.ledger .UnbalancedTransfer detail) := by
  have hrun : (do
      let vs ← validateLegs hugeLegs
      let plain ← vs.mapM (priceLeg rateOf79 twoAccounts "GBP" 5)
      return (vs.map ValidLeg.baseAmount,
        decide (exactTotal .DEBIT plain = exactTotal .CREDIT plain),
        checkBalancedIn (absorbRoundingResidualIn plain))) =
      .ok (List.replicate 6 none, true, .error (.ledger .UnbalancedTransfer
        [.lit "debits ", .dec ⟨2 * 10 ^ 27, -3⟩, .lit " != credits ",
          .dec ⟨2 * 10 ^ 27 - 1, -3⟩])) := by
    decide +kernel
  obtain ⟨vs, hvs, hrest⟩ := except_bind_ok.mp hrun
  obtain ⟨plain, hplain, hret⟩ := except_bind_ok.mp hrest
  simp only [except_pure, Prod.mk.injEq, decide_eq_true_eq] at hret
  obtain ⟨hnone, hexact, hcheck⟩ := hret
  refine ⟨vs, plain, absorbRoundingResidualIn plain, _, hvs, fun v hv => ?_, hplain, hexact, ?_,
    hcheck⟩
  · have hmem : v.baseAmount ∈ vs.map ValidLeg.baseAmount := List.mem_map_of_mem hv
    rw [hnone] at hmem
    exact List.eq_of_mem_replicate hmem
  · rw [priceLegsIn, hplain]
    rfl

end FundLedger
