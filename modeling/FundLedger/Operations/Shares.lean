import FundLedger.Operations.Allocation

/-!
# What an allocation guarantees

`allocate` accepts exactly the requests that make sense: there is a recipient,
no weight is negative and one is positive, and the total is a whole number of
quanta.  The shares then sum to the total and are each less than one quantum
off.  Nobody's share depends on the order in which the recipients are listed,
and a larger weight never gets less.
-/

namespace FundLedger

open Lib

variable {K S : Type} [LinearOrder S] [DecidableEq K]

/-- A request that makes sense. -/
structure Allocatable (weights : Dict K Dec) (total quantum : Dec) : Prop where
  recipients : weights.rows ≠ []
  nonneg : ∀ w ∈ weights.values, 0 ≤ w.val
  positive : ∃ w ∈ weights.values, w.val ≠ 0
  multiple : ∃ n : ℤ, total.val = n * quantum.val

/-- Exact shares. -/
structure ExactShares (weights : Dict K Dec) (total quantum : Dec) (shares : Dict K Dec) :
    Prop where
  keys : shares.keys = weights.keys
  multiple : ∀ i ∈ shares, ∃ n : ℤ, i.2.val = n * quantum.val
  sum : sumBy Dec.val shares.values = total.val
  close : ∀ i ∈ shares,
    |i.2.val - total.val * weightOf weights i.1 / sumBy (weightOf weights) weights.keys| <
      quantum.val
  sign : ∀ i ∈ shares, i.2.val = 0 ∨ 0 < i.2.val * total.val

/-! ## When an allocation is accepted -/

theorem coeff_nonneg_iff (d : Dec) : 0 ≤ d.coeff ↔ 0 ≤ d.val := by
  rw [← not_lt, ← not_lt, not_iff_not, Dec.val_neg_iff]

/-- The total is a whole number of quanta, in either sign. -/
theorem den_unitsOf_eq_one_iff {total quantum : Dec} (hq : 0 < quantum.val) :
    (unitsOf total quantum).den = 1 ↔ ∃ n : ℤ, total.val = n * quantum.val := by
  constructor
  · intro h
    refine ⟨signOf total * (unitsOf total quantum).num.toNat, ?_⟩
    push_cast
    rw [mul_assoc, units_mul_quantum hq h, signOf_mul_abs]
  · rintro ⟨n, hn⟩
    have hval : unitsOf total quantum = ((|n| : ℤ) : ℚ) := by
      rw [unitsOf, Dec.val_abs, hn, abs_mul, abs_of_pos hq, mul_div_cancel_right₀ _ hq.ne',
        Int.cast_abs]
    rw [hval]
    exact Rat.den_intCast _

theorem checkWeights_iff {weights : Dict K Dec} :
    checkWeights weights = .ok () ↔ weights.rows ≠ [] ∧ (∀ w ∈ weights.values, 0 ≤ w.val) ∧
      ∃ w ∈ weights.values, w.val ≠ 0 := by
  rw [checkWeights_ok]
  simp only [coeff_nonneg_iff]
  refine and_congr_right fun _ => and_congr_right fun hnn => ?_
  rw [Ne, ← Dec.val_eq_zero_iff, Dec.val_sum]
  constructor
  · intro hsum
    by_contra hnone
    refine hsum (List.sum_eq_zero fun x hx => ?_)
    obtain ⟨w, hw, rfl⟩ := List.mem_map.mp hx
    by_contra hne
    exact hnone ⟨w, hw, hne⟩
  · rintro ⟨w, hw, hne⟩ hsum
    have hall : ∀ x ∈ weights.values.map Dec.val, 0 ≤ x := by
      intro x hx
      obtain ⟨v, hv, rfl⟩ := List.mem_map.mp hx
      exact hnn v hv
    have hle : w.val ≤ (weights.values.map Dec.val).sum :=
      List.single_le_sum hall _ (List.mem_map_of_mem hw)
    exact hne (le_antisymm (hle.trans hsum.le) (hnn w hw))

theorem allocate_isOk_iff (str : K → S) {total quantum : Dec} {weights : Dict K Dec}
    (hq : 0 < quantum.val) :
    (∃ shares, allocate str total weights quantum = .ok shares) ↔
      Allocatable weights total quantum := by
  simp only [allocate_ok]
  constructor
  · rintro ⟨shares, hw, hu, -⟩
    obtain ⟨hne, hnn, hpos⟩ := checkWeights_iff.mp hw
    exact ⟨hne, hnn, hpos, (den_unitsOf_eq_one_iff hq).mp hu⟩
  · intro h
    exact ⟨_, checkWeights_iff.mpr ⟨h.recipients, h.nonneg, h.positive⟩,
      (den_unitsOf_eq_one_iff hq).mpr h.multiple, rfl⟩

/-! ## The shares -/

/-- The units of a key. -/
def unitsFor (str : K → S) (total : Dec) (weights : Dict K Dec) (quantum : Dec) (k : K) : ℤ :=
  LargestRemainder.share str (unitsOf total quantum).num.toNat (weightOf weights) weights.keys k

theorem val_allotted (str : K → S) (total : Dec) (weights : Dict K Dec) (quantum : Dec) (k : K) :
    (allotted str total weights quantum k).val =
      signOf total * unitsFor str total weights quantum k * quantum.val := by
  show (Dec.times (signOf total * unitsFor str total weights quantum k) quantum).val = _
  rw [Dec.val_times]
  push_cast
  rfl

/-- An item of an allocation. -/
theorem mem_shares {str : K → S} {total quantum : Dec} {weights shares : Dict K Dec}
    (h : allocate str total weights quantum = .ok shares) {i : K × Dec} (hi : i ∈ shares) :
    i.1 ∈ weights.keys ∧ i.2 = allotted str total weights quantum i.1 := by
  obtain ⟨-, -, rfl⟩ := allocate_ok.mp h
  rw [← Table.mem_rows, Dict.rows_mapItems] at hi
  obtain ⟨j, hj, rfl⟩ := List.mem_map.mp hi
  refine ⟨?_, rfl⟩
  show j.1 ∈ weights.rows.map Prod.fst
  exact List.mem_map_of_mem hj

theorem weightOf_nonneg {weights : Dict K Dec} (hnn : ∀ w ∈ weights.values, 0 ≤ w.val) (k : K) :
    0 ≤ weightOf weights k := by
  unfold weightOf
  split
  · rename_i i hget
    exact hnn i.2 (List.mem_map_of_mem (Table.mem_of_get? hget))
  · exact le_rfl

theorem sumBy_weightOf_pos {weights : Dict K Dec} (hw : checkWeights weights = .ok ()) :
    0 < sumBy (weightOf weights) weights.keys := by
  refine lt_of_le_of_ne (sumBy_nonneg fun k _ => ?_) (sumBy_weightOf_ne_zero hw).symm
  exact weightOf_nonneg (checkWeights_iff.mp hw).2.1 k

theorem allocate_exactShares {str : K → S} {total quantum : Dec} {weights shares : Dict K Dec}
    (hq : 0 < quantum.val) (h : allocate str total weights quantum = .ok shares) :
    ExactShares weights total quantum shares := by
  obtain ⟨hw, hu, hshares⟩ := allocate_ok.mp h
  have hunits := units_mul_quantum hq hu
  refine ⟨?_, fun i hi => ?_, allocate_sum hq h, fun i hi => ?_, fun i hi => ?_⟩
  · rw [hshares]
    exact Dict.keys_mapItems _ _
  · rw [(mem_shares h hi).2, val_allotted]
    exact ⟨signOf total * unitsFor str total weights quantum i.1, by push_cast; rfl⟩
  · have hclose : |(unitsFor str total weights quantum i.1 : ℚ) -
        LargestRemainder.exact (unitsOf total quantum).num.toNat (weightOf weights) weights.keys
          i.1| < 1 :=
      LargestRemainder.abs_share_sub_exact_lt (sumBy_weightOf_ne_zero hw) i.1
    have hsign : |(signOf total : ℚ)| = 1 := by
      rw [signOf]
      split <;> simp
    have hexact : total.val * weightOf weights i.1 / sumBy (weightOf weights) weights.keys =
        signOf total * LargestRemainder.exact (unitsOf total quantum).num.toNat (weightOf weights)
          weights.keys i.1 * quantum.val := by
      rw [← signOf_mul_abs total, ← hunits, LargestRemainder.exact]
      ring
    rw [(mem_shares h hi).2, val_allotted, hexact, ← sub_mul, ← mul_sub, abs_mul, abs_mul, hsign,
      one_mul, abs_of_pos hq]
    exact (mul_lt_mul_of_pos_right hclose hq).trans_eq (one_mul _)
  · have hkey := (mem_shares h hi).1
    have hnn : 0 ≤ unitsFor str total weights quantum i.1 :=
      LargestRemainder.share_nonneg (fun k _ => weightOf_nonneg (checkWeights_iff.mp hw).2.1 k) hkey
    rw [(mem_shares h hi).2, val_allotted]
    by_cases hzero : unitsFor str total weights quantum i.1 = 0
    · left
      rw [hzero, Int.cast_zero, mul_zero, zero_mul]
    · right
      have hpos : (0 : ℚ) < unitsFor str total weights quantum i.1 := by
        exact_mod_cast lt_of_le_of_ne hnn (Ne.symm hzero)
      have htotal : 0 < (signOf total : ℚ) * total.val := by
        have habs : (signOf total : ℚ) * total.val = total.abs.val := by
          rw [← signOf_mul_abs total, ← mul_assoc, signOf]
          split <;> norm_num
        rw [habs, Dec.val_abs]
        refine abs_pos.mpr fun hval => hzero ?_
        have hnone : (unitsOf total quantum).num.toNat = 0 := by
          rw [unitsOf, Dec.val_abs, hval, abs_zero, zero_div]
          rfl
        rw [unitsFor, hnone, LargestRemainder.share_zero]
      calc (0 : ℚ) < signOf total * total.val *
            (unitsFor str total weights quantum i.1 * quantum.val) :=
            mul_pos htotal (mul_pos hpos hq)
        _ = _ := by ring

/-- Three recipients of the same weight. -/
def thirds : Dict ℕ Dec := Dict.ofList [(1, .ofUnits 4 10000), (2, .ofUnits 4 10000),
  (3, .ofUnits 4 10000)]

private theorem penny_pos : 0 < penny.val := by
  rw [Dec.val_pos_iff]
  decide

private theorem allocatable_thirds : Allocatable thirds (.ofUnits 2 10000) penny := by
  obtain ⟨hne, hnn, hpos⟩ := checkWeights_iff.mp (show checkWeights thirds = .ok () from rfl)
  exact ⟨hne, hnn, hpos, (den_unitsOf_eq_one_iff penny_pos).mp (unitsOf_ofUnits 2 10000)⟩

/-- The same weights in another order give every key the same share. -/
theorem allocate_perm {str : K → S} {total quantum : Dec} {weights weights' shares : Dict K Dec}
    (hstr : ∀ a ∈ weights.keys, ∀ b ∈ weights.keys, str a = str b → a = b)
    (hperm : weights.rows.Perm weights'.rows)
    (h : allocate str total weights quantum = .ok shares) :
    ∃ shares', allocate str total weights' quantum = .ok shares' ∧
      ∀ k, shares'.get? k = shares.get? k := by
  obtain ⟨hw, hu, rfl⟩ := allocate_ok.mp h
  refine ⟨_, allocate_ok.mpr ⟨checkWeights_perm hperm hw, hu, rfl⟩, fun k => ?_⟩
  have hget : ∀ k, weights'.get? k = weights.get? k := fun k => Table.get?_perm hperm.symm k
  have hweight : weightOf weights' = weightOf weights := by
    funext j
    rw [weightOf, weightOf, hget]
  have hkeys : weights.keys.Perm weights'.keys := hperm.map Prod.fst
  have hallotted : allotted str total weights' quantum = allotted str total weights quantum := by
    funext j
    rw [allotted, allotted, hweight, LargestRemainder.share_perm_on hstr hkeys]
  rw [Dict.get?_mapItems, Dict.get?_mapItems, hget, hallotted]

end FundLedger
