import FundLedger.Lib.Sums

/-!
# The largest-remainder method

`total` indivisible units are split over the keys `ks` in proportion to the
weights `w`.  Every key first gets the integer part of its exact share.  The
units that are left over go, one each, to the keys with the largest fractional
parts, where `str` breaks a tie.

The two facts an allocation rests on are proved here: the shares sum to the
total, and a share does not depend on the order in which the keys are listed.
-/

namespace Lib.LargestRemainder

variable {K S : Type} [LinearOrder S]

/-- The share of `k` as a fraction. -/
def exact (total : ℕ) (w : K → ℚ) (ks : List K) (k : K) : ℚ :=
  total * w k / sumBy w ks

/-- The whole units in the share of `k`. -/
def floors (total : ℕ) (w : K → ℚ) (ks : List K) (k : K) : ℤ := ⌊exact total w ks k⌋

/-- The fractional part of the share of `k`. -/
def remainder (total : ℕ) (w : K → ℚ) (ks : List K) (k : K) : ℚ :=
  exact total w ks k - floors total w ks k

/-- The units that the whole parts leave over. -/
def leftover (total : ℕ) (w : K → ℚ) (ks : List K) : ℤ :=
  total - sumBy (floors total w ks) ks

/-- Larger fractional part first, then smaller text. -/
def Precedes (str : K → S) (total : ℕ) (w : K → ℚ) (ks : List K) (a b : K) : Prop :=
  remainder total w ks b < remainder total w ks a ∨
    remainder total w ks a = remainder total w ks b ∧ str a ≤ str b

instance (str : K → S) (total : ℕ) (w : K → ℚ) (ks : List K) :
    DecidableRel (Precedes str total w ks) := fun a b => by
  unfold Precedes
  exact inferInstance

/-- The keys in the order in which they get a unit that is left over. -/
def byRemainder (str : K → S) (total : ℕ) (w : K → ℚ) (ks : List K) : List K :=
  ks.insertionSort (Precedes str total w ks)

/-- The units that `k` gets. -/
def share [DecidableEq K] (str : K → S) (total : ℕ) (w : K → ℚ) (ks : List K) (k : K) : ℤ :=
  floors total w ks k +
    if k ∈ (byRemainder str total w ks).take (leftover total w ks).toNat then 1 else 0

variable {str : K → S} {total : ℕ} {w : K → ℚ} {ks : List K}

/-- Nothing is shared out of nothing. -/
theorem share_zero [DecidableEq K] (k : K) : share str 0 w ks k = 0 := by
  have hfloors : ∀ j, floors 0 w ks j = 0 := by
    intro j
    rw [floors, exact, Nat.cast_zero, zero_mul, zero_div, Int.floor_zero]
  have hleft : leftover 0 w ks = 0 := by
    rw [leftover, sumBy_eq_zero fun j _ => hfloors j]
    rfl
  rw [share, hfloors, hleft, Int.toNat_zero, List.take_zero, if_neg List.not_mem_nil, add_zero]

/-! ## The shares sum to the total -/

theorem remainder_nonneg (k : K) : 0 ≤ remainder total w ks k :=
  sub_nonneg.mpr (Int.floor_le _)

theorem remainder_lt_one (k : K) : remainder total w ks k < 1 :=
  sub_lt_iff_lt_add'.mpr (Int.lt_floor_add_one _)

private theorem sumBy_exact (hw : sumBy w ks ≠ 0) : sumBy (exact total w ks) ks = total := by
  have hmul : ∀ l : List K, sumBy (exact total w ks) l = total / sumBy w ks * sumBy w l := by
    intro l
    induction l with
    | nil => simp
    | cons k l ih =>
      rw [sumBy_cons, ih, sumBy_cons, mul_add, exact]
      ring
  rw [hmul, div_mul_cancel₀ _ hw]

/-- The units left over are the fractional parts together. -/
theorem leftover_eq (hw : sumBy w ks ≠ 0) :
    (leftover total w ks : ℚ) = sumBy (remainder total w ks) ks := by
  have hsplit : sumBy (exact total w ks) ks =
      sumBy (fun k => remainder total w ks k + (floors total w ks k : ℚ)) ks :=
    sumBy_congr fun k _ => by rw [remainder, sub_add_cancel]
  have hcast : sumBy (fun k => (floors total w ks k : ℚ)) ks =
      ((sumBy (floors total w ks) ks : ℤ) : ℚ) := sumBy_hom (Int.castAddHom ℚ) _ ks
  rw [sumBy_exact hw, sumBy_add, hcast] at hsplit
  rw [leftover]
  push_cast
  rw [hsplit, add_sub_cancel_right]

private theorem sumBy_nonneg {f : K → ℚ} (h : ∀ k, 0 ≤ f k) (l : List K) : 0 ≤ sumBy f l := by
  induction l with
  | nil => simp
  | cons k l ih => rw [sumBy_cons]; exact add_nonneg (h k) ih

private theorem sumBy_le_length {f : K → ℚ} (h : ∀ k, f k < 1) (l : List K) :
    sumBy f l ≤ l.length := by
  induction l with
  | nil => simp
  | cons k l ih =>
    rw [sumBy_cons, List.length_cons]
    push_cast
    linarith [h k]

private theorem sumBy_lt_length {f : K → ℚ} (h : ∀ k, f k < 1) {l : List K} (hl : l ≠ []) :
    sumBy f l < l.length := by
  obtain ⟨k, l', rfl⟩ := List.exists_cons_of_ne_nil hl
  have hrest : sumBy f l' ≤ l'.length := sumBy_le_length h l'
  rw [sumBy_cons, List.length_cons]
  push_cast
  linarith [h k]

theorem leftover_nonneg (hw : sumBy w ks ≠ 0) : 0 ≤ leftover total w ks := by
  have h : 0 ≤ sumBy (remainder total w ks) ks := sumBy_nonneg remainder_nonneg ks
  rw [← leftover_eq hw] at h
  exact_mod_cast h

theorem leftover_le_length (hw : sumBy w ks ≠ 0) : leftover total w ks ≤ ks.length := by
  have h : sumBy (remainder total w ks) ks ≤ ks.length := sumBy_le_length remainder_lt_one ks
  rw [← leftover_eq hw] at h
  exact_mod_cast h

/-- Counting the members of a sublist of distinct keys. -/
private theorem sumBy_mem_take [DecidableEq K] {l : List K} (hl : l.Nodup) (n : ℕ) :
    sumBy (fun k => if k ∈ l.take n then (1 : ℤ) else 0) l = (l.take n).length := by
  have htail : ∀ k ∈ l.drop n, ¬k ∈ l.take n := by
    intro k hk hk'
    have hnd : (l.take n ++ l.drop n).Nodup := by rwa [List.take_append_drop]
    exact List.disjoint_of_nodup_append hnd hk' hk
  have hcount : ∀ m : List K, (∀ k ∈ m, k ∈ l.take n) →
      sumBy (fun k => if k ∈ l.take n then (1 : ℤ) else 0) m = m.length := by
    intro m
    induction m with
    | nil => simp
    | cons k m ih =>
      intro hm
      rw [sumBy_cons, ih fun j hj => hm j (List.mem_cons_of_mem k hj),
        if_pos (hm k List.mem_cons_self), List.length_cons]
      push_cast
      ring
  calc sumBy (fun k => if k ∈ l.take n then (1 : ℤ) else 0) l
      = sumBy (fun k => if k ∈ l.take n then (1 : ℤ) else 0) (l.take n ++ l.drop n) :=
        congrArg _ (List.take_append_drop n l).symm
    _ = (l.take n).length := by
        rw [sumBy_append, hcount _ fun _ h => h,
          sumBy_eq_zero fun k hk => if_neg (htail k hk), add_zero]

/-- **The shares sum to the total.** -/
theorem sum_share [DecidableEq K] (hks : ks.Nodup) (hw : sumBy w ks ≠ 0) :
    sumBy (share str total w ks) ks = total := by
  have hperm : (byRemainder str total w ks).Perm ks := List.perm_insertionSort _ ks
  have hnn : 0 ≤ leftover total w ks := leftover_nonneg hw
  have hle : leftover total w ks ≤ ks.length := leftover_le_length hw
  have htake : ((byRemainder str total w ks).take (leftover total w ks).toNat).length =
      (leftover total w ks).toNat := by
    rw [List.length_take, hperm.length_eq]
    omega
  have hextra : sumBy (fun k => if k ∈ (byRemainder str total w ks).take
      (leftover total w ks).toNat then (1 : ℤ) else 0) ks = leftover total w ks := by
    rw [← sumBy_perm hperm, sumBy_mem_take (hperm.nodup_iff.mpr hks), htake]
    omega
  have hsum : sumBy (share str total w ks) ks =
      sumBy (floors total w ks) ks + leftover total w ks := by
    rw [← hextra, ← sumBy_add]
    rfl
  rw [hsum, leftover]
  omega

/-! ## The order of the units left over -/

private theorem precedes_total : Std.Total (Precedes str total w ks) := by
  refine ⟨fun a b => ?_⟩
  rcases lt_trichotomy (remainder total w ks a) (remainder total w ks b) with hlt | heq | hgt
  · exact .inr (.inl hlt)
  · rcases le_total (str a) (str b) with hab | hba
    · exact .inl (.inr ⟨heq, hab⟩)
    · exact .inr (.inr ⟨heq.symm, hba⟩)
  · exact .inl (.inl hgt)

private theorem precedes_trans : IsTrans K (Precedes str total w ks) := by
  refine ⟨fun a b c hab hbc => ?_⟩
  rcases hab with hab | ⟨hab, hsab⟩ <;> rcases hbc with hbc | ⟨hbc, hsbc⟩
  · exact .inl (hbc.trans hab)
  · exact .inl (hbc ▸ hab)
  · exact .inl (hab ▸ hbc)
  · exact .inr ⟨hab.trans hbc, hsab.trans hsbc⟩

theorem pairwise_byRemainder :
    (byRemainder str total w ks).Pairwise (Precedes str total w ks) := by
  have htotal : Std.Total (Precedes str total w ks) := precedes_total
  have htrans : IsTrans K (Precedes str total w ks) := precedes_trans
  exact List.pairwise_insertionSort _ ks

theorem mem_byRemainder {k : K} : k ∈ byRemainder str total w ks ↔ k ∈ ks :=
  List.mem_insertionSort _

/-- A key that gets a unit has at least the fractional part of one that does
not. -/
theorem remainder_le_of_take {n : ℕ} {a b : K} (ha : a ∈ (byRemainder str total w ks).take n)
    (hb : b ∈ (byRemainder str total w ks).drop n) :
    remainder total w ks b ≤ remainder total w ks a := by
  have hsorted : (byRemainder str total w ks).Pairwise (Precedes str total w ks) :=
    pairwise_byRemainder
  rw [← List.take_append_drop n (byRemainder str total w ks), List.pairwise_append] at hsorted
  rcases hsorted.2.2 a ha b hb with hlt | ⟨heq, -⟩
  · exact hlt.le
  · exact heq.ge

/-! ## The order of the keys does not matter -/

/-- **A share does not depend on the order of the keys**, provided that no two
of them have the same text. -/
theorem share_perm_on [DecidableEq K] {ks' : List K}
    (hstr : ∀ a ∈ ks, ∀ b ∈ ks, str a = str b → a = b) (h : ks.Perm ks') :
    share str total w ks = share str total w ks' := by
  have hexact : exact total w ks = exact total w ks' := by
    funext k
    rw [exact, exact, sumBy_perm h]
  have hfloors : floors total w ks = floors total w ks' := by
    funext k
    rw [floors, floors, hexact]
  have hleft : leftover total w ks = leftover total w ks' := by
    rw [leftover, leftover, hfloors, sumBy_perm h]
  have hprec : Precedes str total w ks = Precedes str total w ks' := by
    funext a b
    simp only [Precedes, remainder, hexact, hfloors]
  have hsorted : byRemainder str total w ks = byRemainder str total w ks' := by
    have hp : (byRemainder str total w ks).Perm (byRemainder str total w ks') :=
      (List.perm_insertionSort _ ks).trans (h.trans (List.perm_insertionSort _ ks').symm)
    have hl : (byRemainder str total w ks).Pairwise (Precedes str total w ks') :=
      hprec ▸ pairwise_byRemainder
    refine List.Perm.eq_of_pairwise ?_ hl pairwise_byRemainder hp
    rintro a b ha hb (hab | ⟨hab, hsab⟩) (hba | ⟨hba, hsba⟩)
    · exact absurd hab hba.asymm
    · exact absurd hba hab.ne
    · exact absurd hab hba.ne
    · exact hstr a (mem_byRemainder.mp ha) b (h.mem_iff.mpr (mem_byRemainder.mp hb))
        (le_antisymm hsab hsba)
  funext k
  rw [share, share, hfloors, hsorted, hleft]

theorem share_perm [DecidableEq K] (hstr : Function.Injective str) {ks' : List K}
    (h : ks.Perm ks') : share str total w ks = share str total w ks' :=
  share_perm_on (fun _ _ _ _ heq => hstr heq) h

/-! ## The size of a share -/

/-- A share is the exact one rounded down or up. -/
theorem share_eq_floor_or_succ [DecidableEq K] (k : K) :
    share str total w ks k = ⌊exact total w ks k⌋ ∨
    share str total w ks k = ⌊exact total w ks k⌋ + 1 := by
  unfold share floors
  split
  · exact .inr rfl
  · exact .inl (add_zero _)

theorem share_nonneg [DecidableEq K] (hw : ∀ k ∈ ks, 0 ≤ w k) {k : K} (hk : k ∈ ks) :
    0 ≤ share str total w ks k := by
  have hsum : ∀ l : List K, (∀ k ∈ l, 0 ≤ w k) → 0 ≤ sumBy w l := by
    intro l
    induction l with
    | nil => simp
    | cons a l ih =>
      intro hl
      rw [sumBy_cons]
      exact add_nonneg (hl a List.mem_cons_self)
        (ih fun k hk => hl k (List.mem_cons_of_mem a hk))
  have hexact : 0 ≤ exact total w ks k :=
    div_nonneg (mul_nonneg (Nat.cast_nonneg total) (hw k hk)) (hsum ks hw)
  have hfloor : 0 ≤ ⌊exact total w ks k⌋ := Int.floor_nonneg.mpr hexact
  unfold share floors
  split <;> omega

/-- A unit that is left over goes to a key with a fractional part. -/
theorem remainder_pos_of_mem_take (hw : sumBy w ks ≠ 0) {k : K}
    (hk : k ∈ (byRemainder str total w ks).take (leftover total w ks).toNat) :
    0 < remainder total w ks k := by
  refine lt_of_le_of_ne (remainder_nonneg k) fun hzero => ?_
  have hnn : 0 ≤ leftover total w ks := leftover_nonneg hw
  let taken : List K := (byRemainder str total w ks).take (leftover total w ks).toNat
  let rest : List K := (byRemainder str total w ks).drop (leftover total w ks).toNat
  -- the keys that get none have no fractional part either
  have hrest : sumBy (remainder total w ks) rest = 0 := by
    refine sumBy_eq_zero fun j hj => ?_
    exact le_antisymm (hzero ▸ remainder_le_of_take hk hj) (remainder_nonneg j)
  have hsum : (leftover total w ks : ℚ) = sumBy (remainder total w ks) taken := by
    have hsplit : sumBy (remainder total w ks) (taken ++ rest) =
        sumBy (remainder total w ks) ks := by
      rw [List.take_append_drop]
      exact sumBy_perm (List.perm_insertionSort _ ks)
    rw [leftover_eq hw, ← hsplit, sumBy_append, hrest, add_zero]
  have hlt : sumBy (remainder total w ks) taken < taken.length :=
    sumBy_lt_length remainder_lt_one (List.ne_nil_of_mem hk)
  have hlen : taken.length ≤ (leftover total w ks).toNat := List.length_take_le _ _
  rw [← hsum] at hlt
  have hlt : leftover total w ks < taken.length := by exact_mod_cast hlt
  omega

/-- **A share is less than one unit off.** -/
theorem abs_share_sub_exact_lt [DecidableEq K] (hw : sumBy w ks ≠ 0) (k : K) :
    |(share str total w ks k : ℚ) - exact total w ks k| < 1 := by
  have hdef : exact total w ks k = floors total w ks k + remainder total w ks k := by
    rw [remainder]
    ring
  have hnn : 0 ≤ remainder total w ks k := remainder_nonneg k
  have hlt : remainder total w ks k < 1 := remainder_lt_one k
  unfold share
  split
  · rename_i hk
    have hpos : 0 < remainder total w ks k := remainder_pos_of_mem_take hw hk
    rw [hdef, abs_lt]
    push_cast
    constructor <;> linarith
  · rw [hdef, abs_lt]
    push_cast
    constructor <;> linarith

/-! ## Fairness -/

theorem exact_mono (hw : 0 ≤ sumBy w ks) {a b : K} (h : w a ≤ w b) :
    exact total w ks a ≤ exact total w ks b :=
  div_le_div_of_nonneg_right (mul_le_mul_of_nonneg_left h (Nat.cast_nonneg total)) hw

/-- **A larger weight never gets less.** -/
theorem share_mono [DecidableEq K] (hw : 0 < sumBy w ks) {a b : K} (hb : b ∈ ks)
    (h : w a < w b) : share str total w ks a ≤ share str total w ks b := by
  rcases Nat.eq_zero_or_pos total with rfl | htotal
  · rw [share_zero, share_zero]
  have hexact : exact total w ks a < exact total w ks b := by
    refine div_lt_div_of_pos_right (mul_lt_mul_of_pos_left h ?_) hw
    exact_mod_cast htotal
  have hfloor : floors total w ks a ≤ floors total w ks b := Int.floor_mono hexact.le
  unfold share
  by_cases hlt : floors total w ks a < floors total w ks b
  · split <;> split <;> omega
  · have heq : floors total w ks a = floors total w ks b := by omega
    rw [heq]
    by_cases ha : a ∈ (byRemainder str total w ks).take (leftover total w ks).toNat
    · -- `b` has the larger fractional part, so it got a unit before `a`
      have hb' : b ∈ (byRemainder str total w ks).take (leftover total w ks).toNat := by
        by_contra hnot
        have hmem : b ∈ byRemainder str total w ks := mem_byRemainder.mpr hb
        rw [← List.take_append_drop (leftover total w ks).toNat (byRemainder str total w ks),
          List.mem_append] at hmem
        have hle := remainder_le_of_take ha (hmem.resolve_left hnot)
        rw [remainder, remainder, heq] at hle
        linarith
      rw [if_pos ha, if_pos hb']
    · rw [if_neg ha]
      split <;> omega

/-- Equal weights get the same, but for one unit. -/
theorem abs_share_sub_share_le [DecidableEq K] {a b : K} (h : w a = w b) :
    |share str total w ks a - share str total w ks b| ≤ 1 := by
  have hexact : exact total w ks a = exact total w ks b := by rw [exact, exact, h]
  rw [share, share, floors, floors, hexact, abs_le]
  split <;> split <;> constructor <;> omega

end Lib.LargestRemainder
