import FundLedger.Ledger.Errors
import FundLedger.Lib.Checks
import FundLedger.Lib.Dict
import FundLedger.Lib.LargestRemainder

/-!
# Pro-rata allocation

`operations/allocation.py`: splitting a total over weighted keys so that the
shares sum to it exactly.  A negative total is split by its magnitude.

The exception of a refused allocation is a `ValueError`, so it is modelled by
its message alone.
-/

namespace FundLedger

open Lib

variable {K S : Type} [LinearOrder S]

/-- `Decimal("0.01")`. -/
def penny : Dec := ⟨1, -2⟩

/-- The weight of a key, as a fraction. -/
def weightOf [DecidableEq K] (weights : Dict K Dec) (k : K) : ℚ :=
  match weights.get? k with
  | some i => i.2.val
  | none => 0

/-- The checks on the weights, which come first. -/
def checkWeights (weights : Dict K Dec) : Except Message Unit := do
  require (weights.rows ≠ []) [.lit "cannot allocate across zero recipients"]
  require (∀ w ∈ weights.values, 0 ≤ w.coeff) [.lit "weights must be non-negative"]
  require ((Dec.sum weights.values).coeff ≠ 0) [.lit "weights must not all be zero"]

/-- The total in quanta. -/
def unitsOf (total quantum : Dec) : ℚ := total.abs.val / quantum.val

/-- `-1 if total < 0 else 1`. -/
def signOf (total : Dec) : ℤ := if total.coeff < 0 then -1 else 1

/-- What `k` gets: its quanta, with the sign of the total. -/
def allotted [DecidableEq K] (str : K → S) (total : Dec) (weights : Dict K Dec) (quantum : Dec) (k : K) : Dec :=
  let floors := LargestRemainder.share str (unitsOf total quantum).num.toNat (weightOf weights)
    weights.keys
  Dec.times (signOf total * floors k) quantum

/-- Split `total` across the keys in proportion to `weights`. -/
def allocate [DecidableEq K] (str : K → S) (total : Dec) (weights : Dict K Dec) (quantum : Dec := penny) :
    Except Message (Dict K Dec) := do
  checkWeights weights
  require ((unitsOf total quantum).den = 1)
    [.dec total, .lit " is not a whole multiple of ", .dec quantum]
  return weights.mapItems fun k _ => allotted str total weights quantum k

/-! ## What an allocation returns -/

theorem allocate_ok [DecidableEq K] {str : K → S} {total quantum : Dec} {weights shares : Dict K Dec} :
    allocate str total weights quantum = .ok shares ↔
      checkWeights weights = .ok () ∧ (unitsOf total quantum).den = 1 ∧
      shares = weights.mapItems fun k _ => allotted str total weights quantum k := by
  simp only [allocate, except_bind_ok, require_eq_ok, except_pure]
  constructor
  · rintro ⟨⟨⟩, hw, _, hu, rfl⟩
    exact ⟨hw, hu, rfl⟩
  · rintro ⟨hw, hu, rfl⟩
    exact ⟨(), hw, (), hu, rfl⟩

theorem checkWeights_ok {weights : Dict K Dec} :
    checkWeights weights = .ok () ↔
      weights.rows ≠ [] ∧ (∀ w ∈ weights.values, 0 ≤ w.coeff) ∧
      (Dec.sum weights.values).coeff ≠ 0 := by
  simp only [checkWeights, except_bind_ok, require_eq_ok, exists_and_left, exists_const]

theorem weightOf_of_mem [DecidableEq K] {weights : Dict K Dec} {i : K × Dec} (hi : i ∈ weights) :
    weightOf weights i.1 = i.2.val := by
  rw [weightOf, Table.get?_of_mem hi]

/-- The weights over the keys are the values of the items. -/
theorem sumBy_weightOf [DecidableEq K] (weights : Dict K Dec) :
    sumBy (weightOf weights) weights.keys = (Dec.sum weights.values).val := by
  rw [Dec.val_sum, Dict.keys, Dict.values, sumBy_map, List.map_map]
  exact sumBy_congr fun i hi => weightOf_of_mem hi

theorem sumBy_weightOf_ne_zero [DecidableEq K] {weights : Dict K Dec} (h : checkWeights weights = .ok ()) :
    sumBy (weightOf weights) weights.keys ≠ 0 := by
  rw [sumBy_weightOf, Ne, Dec.val_eq_zero_iff]
  exact (checkWeights_ok.mp h).2.2

/-- A total that is a whole number of quanta is that many quanta. -/
theorem units_mul_quantum {total quantum : Dec} (hq : 0 < quantum.val)
    (hu : (unitsOf total quantum).den = 1) :
    ((unitsOf total quantum).num.toNat : ℚ) * quantum.val = total.abs.val := by
  have hnn : 0 ≤ unitsOf total quantum := by
    rw [unitsOf, Dec.val_abs]
    exact div_nonneg (abs_nonneg _) hq.le
  have hnum : ((unitsOf total quantum).num.toNat : ℤ) = (unitsOf total quantum).num :=
    Int.toNat_of_nonneg (Rat.num_nonneg.mpr hnn)
  have hcast : ((unitsOf total quantum).num.toNat : ℚ) = unitsOf total quantum := by
    rw [← Int.cast_natCast, hnum]
    exact Rat.coe_int_num_of_den_eq_one hu
  rw [hcast, unitsOf, div_mul_cancel₀ _ hq.ne']

theorem signOf_mul_abs (total : Dec) : (signOf total : ℚ) * total.abs.val = total.val := by
  rw [Dec.val_abs, signOf]
  split_ifs with hneg
  · rw [abs_of_neg ((Dec.val_neg_iff total).mpr hneg)]
    push_cast
    ring
  · have hnn : 0 ≤ total.val := not_lt.mp fun hlt => hneg ((Dec.val_neg_iff total).mp hlt)
    rw [abs_of_nonneg hnn, Int.cast_one, one_mul]

/-- **The shares sum to the total, exactly.** -/
theorem allocate_sum [DecidableEq K] {str : K → S} {total quantum : Dec} {weights shares : Dict K Dec}
    (hq : 0 < quantum.val) (h : allocate str total weights quantum = .ok shares) :
    sumBy Dec.val shares.values = total.val := by
  obtain ⟨hw, hu, rfl⟩ := allocate_ok.mp h
  let units : ℕ := (unitsOf total quantum).num.toNat
  let share : K → ℤ := LargestRemainder.share str units (weightOf weights) weights.keys
  have hsum : sumBy share weights.keys = units :=
    LargestRemainder.sum_share weights.nodup_keys (sumBy_weightOf_ne_zero hw)
  have hval : ∀ k ∈ weights.keys, (allotted str total weights quantum k).val =
      signOf total * quantum.val * (share k : ℚ) := by
    intro k _
    change (Dec.times (signOf total * share k) quantum).val = _
    rw [Dec.val_times]
    push_cast
    ring
  calc sumBy Dec.val (weights.mapItems fun k _ => allotted str total weights quantum k).values
      = sumBy (fun k => (allotted str total weights quantum k).val) weights.keys := by
        rw [Dict.values, Dict.rows_mapItems, Dict.keys, List.map_map, sumBy_map, sumBy_map]
        rfl
    _ = sumBy (fun k => signOf total * quantum.val * (share k : ℚ)) weights.keys := sumBy_congr hval
    _ = signOf total * quantum.val * ((sumBy share weights.keys : ℤ) : ℚ) :=
        sumBy_hom ((AddMonoidHom.mulLeft ((signOf total : ℚ) * quantum.val)).comp
          (Int.castAddHom ℚ)) _ _
    _ = signOf total * (units * quantum.val) := by
        rw [hsum]
        push_cast
        ring
    _ = total.val := by rw [units_mul_quantum hq hu, signOf_mul_abs]

/-- **The share of a key does not depend on the order of the items.** -/
theorem allotted_perm [DecidableEq K] {str : K → S} (hstr : Function.Injective str) {total quantum : Dec}
    {weights weights' : Dict K Dec} (h : weights.rows.Perm weights'.rows) :
    allotted str total weights quantum = allotted str total weights' quantum := by
  have hkeys : weights.keys.Perm weights'.keys := h.map Prod.fst
  have hweight : weightOf weights = weightOf weights' := by
    funext k
    rw [weightOf, weightOf, Table.get?_perm h]
  funext k
  rw [allotted, allotted, hweight, LargestRemainder.share_perm hstr hkeys]

theorem checkWeights_perm {weights weights' : Dict K Dec} (h : weights.rows.Perm weights'.rows)
    (hw : checkWeights weights = .ok ()) : checkWeights weights' = .ok () := by
  have hvalues : weights.values.Perm weights'.values := h.map Prod.snd
  obtain ⟨hne, hnn, hsum⟩ := checkWeights_ok.mp hw
  refine checkWeights_ok.mpr ⟨?_, ?_, ?_⟩
  · intro hnil
    rw [hnil] at h
    exact hne h.eq_nil
  · exact fun w hm => hnn w (hvalues.mem_iff.mpr hm)
  · rw [Ne, ← Dec.val_eq_zero_iff] at hsum ⊢
    rwa [Dec.val_sum, ← (hvalues.map Dec.val).sum_eq, ← Dec.val_sum]

/-- A total in units of the quantum can be allocated. -/
theorem unitsOf_ofUnits (places : ℕ) (n : ℤ) :
    (unitsOf (Dec.ofUnits places n) ⟨1, -places⟩).den = 1 := by
  have hq : (⟨1, -places⟩ : Dec).val = ((1 : ℤ) : ℚ) / (10 : ℚ) ^ places :=
    Dec.val_ofUnits places 1
  have hval : unitsOf (Dec.ofUnits places n) ⟨1, -places⟩ = ((|n| : ℤ) : ℚ) := by
    have hpos : (0 : ℚ) < 10 ^ places := by positivity
    rw [unitsOf, Dec.val_abs, Dec.val_ofUnits, hq, abs_div, abs_of_pos hpos]
    push_cast
    field_simp
  rw [hval]
  exact Rat.den_intCast _

end FundLedger
