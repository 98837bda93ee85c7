import Mathlib

/-!
# Decimal numbers

A `Dec` is a finite decimal number as decimal arithmetic stores it: an integer
coefficient and a power of ten.  Two of them can be numerically equal and still
differ (`10` and `10.00`), so equality of the structure is not equality of the
number.  `Dec.val` is the number, and every operation has a lemma that says
what it does to the number.

Sums, differences, negation and integer multiples are exact.  A context of `p` significant digits
rounds a result only when it needs more than `p` digits, and `Dec.fix` is that
rounding; `Dec.mul` applies it, because a product doubles the digits.
`Dec.quantize` rounds to a fixed number of places and fails when the result
does not fit the precision.  `Dec.toNumeric` is what a fixed-point column
stores: it rounds ties away from zero and fails when the value is out of the
column's range.
-/

namespace Lib

/-! ## Rounding a quotient -/

/-- Where a tie goes: to the even neighbour, or away from zero. -/
inductive Rounding
  | halfEven
  | halfAway
  deriving DecidableEq, Repr

/-- `n / d` rounded to the nearest integer.  `n / d` is the floor, so the
remainder decides between the floor and the integer above it. -/
def divRound (mode : Rounding) (n : ℤ) (d : ℕ) : ℤ :=
  let q := n / d
  let r := n % d
  if 2 * r < d then q
  else if (d : ℤ) < 2 * r then q + 1
  else match mode with
    | .halfEven => if q % 2 = 0 then q else q + 1
    | .halfAway => if 0 ≤ n then q + 1 else q

theorem divRound_of_dvd (mode : Rounding) {n : ℤ} {d : ℕ} (hd : 0 < d)
    (h : (d : ℤ) ∣ n) : divRound mode n d = n / d := by
  have hr : n % d = 0 := Int.emod_eq_zero_of_dvd h
  simp [divRound, hr, hd]

/-- A rounded quotient is off by at most half. -/
theorem divRound_error (mode : Rounding) (n : ℤ) {d : ℕ} (hd : 0 < d) :
    2 * |divRound mode n d * d - n| ≤ d := by
  have hdiv := Int.mul_ediv_add_emod n d
  have hnn := Int.emod_nonneg n (b := d) (by omega)
  have hlt := Int.emod_lt_of_pos n (b := d) (by omega)
  have hq : n / d * d - n = -(n % d) := by linarith [mul_comm (d : ℤ) (n / d)]
  have hq1 : (n / d + 1) * d - n = d - n % d := by linarith [mul_comm (d : ℤ) (n / d)]
  have hfloor : 2 * (n % d) ≤ d → 2 * |n / d * d - n| ≤ d := by
    intro h
    rw [hq, abs_neg, abs_of_nonneg hnn]
    exact h
  have hceil : (d : ℤ) ≤ 2 * (n % d) → 2 * |(n / d + 1) * d - n| ≤ d := by
    intro h
    rw [hq1, abs_of_nonneg (by omega)]
    omega
  unfold divRound
  cases mode with
  | halfEven =>
    dsimp only
    split_ifs
    · exact hfloor (by omega)
    · exact hceil (by omega)
    · exact hfloor (by omega)
    · exact hceil (by omega)
  | halfAway =>
    dsimp only
    split_ifs
    · exact hfloor (by omega)
    · exact hceil (by omega)
    · exact hceil (by omega)
    · exact hfloor (by omega)

/-- A rounded quotient is no larger than the numerator. -/
theorem natAbs_divRound_le (mode : Rounding) (n : ℤ) {d : ℕ} (hd : 0 < d) :
    (divRound mode n d).natAbs ≤ n.natAbs := by
  have herr := divRound_error mode n hd
  generalize divRound mode n d = q at herr
  have hle : |q| * d ≤ |n| + |q * d - n| := by
    calc |q| * d = |n + (q * d - n)| := by
          rw [add_sub_cancel, abs_mul, Nat.abs_cast]
      _ ≤ |n| + |q * d - n| := abs_add_le _ _
  have hlt : ¬|n| < |q| := by
    intro h
    have hd' : (1 : ℤ) ≤ d := by exact_mod_cast hd
    have hmul : (|n| + 1) * d ≤ |q| * d := mul_le_mul_of_nonneg_right (by omega) (by omega)
    have hn : |n| ≤ |n| * d := le_mul_of_one_le_right (abs_nonneg n) hd'
    linarith
  rw [not_lt, Int.abs_eq_natAbs, Int.abs_eq_natAbs] at hlt
  exact_mod_cast hlt

/-! ## The representation and its value -/

/-- The decimal number `coeff * 10 ^ exp`. -/
structure Dec where
  coeff : ℤ
  exp : ℤ
  deriving DecidableEq, Repr

namespace Dec

/-- The number as an exact fraction. -/
def val (d : Dec) : ℚ :=
  if 0 ≤ d.exp then d.coeff * 10 ^ d.exp.toNat else d.coeff / 10 ^ (-d.exp).toNat

theorem val_eq (d : Dec) : d.val = d.coeff * (10 : ℚ) ^ d.exp := by
  unfold val
  split
  · rename_i h
    conv_rhs => rw [← Int.toNat_of_nonneg h, zpow_natCast]
  · rename_i h
    have hneg : d.exp = -((-d.exp).toNat : ℤ) := by omega
    conv_rhs => rw [hneg, zpow_neg, zpow_natCast]
    rfl

/-- The coefficient at the smaller exponent `e`. -/
def scale (d : Dec) (e : ℤ) : ℤ := d.coeff * 10 ^ (d.exp - e).toNat

theorem scale_val {d : Dec} {e : ℤ} (h : e ≤ d.exp) :
    (d.scale e : ℚ) * (10 : ℚ) ^ e = d.val := by
  have hexp : ((d.exp - e).toNat : ℤ) + e = d.exp := by omega
  have hpow : (10 : ℚ) ^ (d.exp - e).toNat * (10 : ℚ) ^ e = (10 : ℚ) ^ d.exp := by
    rw [← zpow_natCast, ← zpow_add₀ (by norm_num), hexp]
  rw [val_eq, scale]
  push_cast
  rw [mul_assoc, hpow]

/-- Zero, with no decimal places. -/
def zero : Dec := ⟨0, 0⟩

@[simp] theorem val_zero : zero.val = 0 := by simp [val, zero]

/-- An integer with no decimal places. -/
def ofInt (n : ℤ) : Dec := ⟨n, 0⟩

@[simp] theorem val_ofInt (n : ℤ) : (ofInt n).val = n := by simp [val, ofInt]

/-- `n` units of `10 ^ -places`, as a fixed-point column hands it out. -/
def ofUnits (places : ℕ) (n : ℤ) : Dec := ⟨n, -places⟩

theorem val_ofUnits (places : ℕ) (n : ℤ) :
    (ofUnits places n).val = n / (10 : ℚ) ^ places := by
  rw [val_eq, ofUnits, zpow_neg, zpow_natCast]
  rfl

/-! ## Exact arithmetic -/

/-- The exact sum, at the smaller of the two exponents. -/
def add (a b : Dec) : Dec :=
  let e := min a.exp b.exp
  ⟨a.scale e + b.scale e, e⟩

/-- The exact negation. -/
def neg (a : Dec) : Dec := ⟨-a.coeff, a.exp⟩

/-- The exact difference. -/
def sub (a b : Dec) : Dec := add a (neg b)

/-- The magnitude. -/
def abs (a : Dec) : Dec := ⟨|a.coeff|, a.exp⟩

/-- The exact multiple by an integer. -/
def times (n : ℤ) (a : Dec) : Dec := ⟨n * a.coeff, a.exp⟩

instance : Add Dec := ⟨add⟩
instance : Neg Dec := ⟨neg⟩
instance : Sub Dec := ⟨sub⟩

@[simp] theorem val_add (a b : Dec) : (a + b).val = a.val + b.val := by
  change (add a b).val = _
  rw [val_eq, add]
  push_cast
  rw [add_mul, scale_val (min_le_left _ _), scale_val (min_le_right _ _)]

@[simp] theorem val_neg (a : Dec) : (-a).val = -a.val := by
  change (neg a).val = _
  rw [val_eq, val_eq, neg]
  push_cast
  rw [neg_mul]

@[simp] theorem val_sub (a b : Dec) : (a - b).val = a.val - b.val := by
  change (a + -b).val = _
  rw [val_add, val_neg, sub_eq_add_neg]

@[simp] theorem val_abs (a : Dec) : a.abs.val = |a.val| := by
  have hpos : (0 : ℚ) < (10 : ℚ) ^ a.exp := zpow_pos (by norm_num) a.exp
  rw [val_eq, val_eq, abs, abs_mul, Int.cast_abs, abs_of_pos hpos]

@[simp] theorem val_times (n : ℤ) (a : Dec) : (times n a).val = n * a.val := by
  rw [val_eq, val_eq, times]
  push_cast
  rw [mul_assoc]

/-- The exact sum of a list, starting from zero. -/
def sum (l : List Dec) : Dec := l.foldl (· + ·) zero

theorem val_foldl_add (l : List Dec) (a : Dec) :
    (l.foldl (· + ·) a).val = a.val + (l.map val).sum := by
  induction l generalizing a with
  | nil => simp
  | cons d l ih => rw [List.foldl_cons, ih, val_add, List.map_cons, List.sum_cons, add_assoc]

theorem val_sum (l : List Dec) : (sum l).val = (l.map val).sum := by
  rw [sum, val_foldl_add, val_zero, zero_add]

/-! ## Comparison by value -/

/-- Numeric order. -/
instance : LT Dec := ⟨fun a b => a.scale (min a.exp b.exp) < b.scale (min a.exp b.exp)⟩

/-- Numeric order. -/
instance : LE Dec := ⟨fun a b => a.scale (min a.exp b.exp) ≤ b.scale (min a.exp b.exp)⟩

instance (a b : Dec) : Decidable (a < b) :=
  inferInstanceAs (Decidable (a.scale (min a.exp b.exp) < b.scale (min a.exp b.exp)))

instance (a b : Dec) : Decidable (a ≤ b) :=
  inferInstanceAs (Decidable (a.scale (min a.exp b.exp) ≤ b.scale (min a.exp b.exp)))

/-- Numeric equality. -/
def eqv (a b : Dec) : Prop := a.scale (min a.exp b.exp) = b.scale (min a.exp b.exp)

instance (a b : Dec) : Decidable (a.eqv b) :=
  inferInstanceAs (Decidable (a.scale (min a.exp b.exp) = b.scale (min a.exp b.exp)))

private theorem ten_zpow_pos (e : ℤ) : (0 : ℚ) < (10 : ℚ) ^ e := zpow_pos (by norm_num) e

theorem lt_iff (a b : Dec) : a < b ↔ a.val < b.val := by
  rw [← scale_val (min_le_left a.exp b.exp), ← scale_val (min_le_right a.exp b.exp),
    mul_lt_mul_iff_left₀ (ten_zpow_pos _), Int.cast_lt]
  rfl

theorem le_iff (a b : Dec) : a ≤ b ↔ a.val ≤ b.val := by
  rw [← scale_val (min_le_left a.exp b.exp), ← scale_val (min_le_right a.exp b.exp),
    mul_le_mul_iff_left₀ (ten_zpow_pos _), Int.cast_le]
  rfl

theorem eqv_iff (a b : Dec) : a.eqv b ↔ a.val = b.val := by
  rw [← scale_val (min_le_left a.exp b.exp), ← scale_val (min_le_right a.exp b.exp),
    mul_left_inj' (ten_zpow_pos _).ne', Int.cast_inj]
  rfl

theorem val_pos_iff (a : Dec) : 0 < a.val ↔ 0 < a.coeff := by
  rw [val_eq, mul_pos_iff_of_pos_right (ten_zpow_pos _), Int.cast_pos]

theorem val_neg_iff (a : Dec) : a.val < 0 ↔ a.coeff < 0 := by
  rw [val_eq, ← neg_pos, ← neg_mul, mul_pos_iff_of_pos_right (ten_zpow_pos _), neg_pos,
    Int.cast_lt_zero]

theorem val_eq_zero_iff (a : Dec) : a.val = 0 ↔ a.coeff = 0 := by
  rw [val_eq, mul_eq_zero, or_iff_left (ten_zpow_pos _).ne', Int.cast_eq_zero]

/-! ## Rounding -/

/-- The number at exponent `e`, rounded when `e` is the larger one. -/
def rescale (mode : Rounding) (d : Dec) (e : ℤ) : Dec :=
  if e ≤ d.exp then ⟨d.scale e, e⟩
  else ⟨divRound mode d.coeff (10 ^ (e - d.exp).toNat), e⟩

/-- Round a result to `prec` significant digits, ties to even. -/
def fix (prec : ℕ) (d : Dec) : Dec :=
  let digits := Nat.log 10 d.coeff.natAbs + 1
  if digits ≤ prec then d
  else
    let r := rescale .halfEven d (d.exp + (digits - prec : ℕ))
    -- Rounding up 99…9 gives one digit too many, and then the last one is zero.
    if r.coeff.natAbs < 10 ^ prec then r else ⟨r.coeff / 10, r.exp + 1⟩

/-- The product in a context of `prec` digits. -/
def mul (prec : ℕ) (a b : Dec) : Dec := fix prec ⟨a.coeff * b.coeff, a.exp + b.exp⟩

/-- Round to `places` decimal places, ties to even.  `none` when the result
needs more than `prec` digits. -/
def quantize (prec places : ℕ) (d : Dec) : Option Dec :=
  let q := rescale .halfEven d (-places)
  if q.coeff.natAbs < 10 ^ prec then some q else none

/-- The number of `10 ^ -places` units a column of `digits` digits stores,
ties away from zero.  `none` when the value is out of range. -/
def toNumeric (digits places : ℕ) (d : Dec) : Option ℤ :=
  let q := rescale .halfAway d (-places)
  if q.coeff.natAbs < 10 ^ digits then some q.coeff else none

/-- A number that is whole at exponent `e` is not changed by rescaling. -/
theorem rescale_coeff_of_val (mode : Rounding) {d : Dec} {e n : ℤ}
    (h : d.val = n * (10 : ℚ) ^ e) : (rescale mode d e).coeff = n := by
  unfold rescale
  split
  · rename_i he
    have hs := scale_val he
    rw [h] at hs
    exact_mod_cast mul_right_cancel₀ (ten_zpow_pos e).ne' hs
  · rename_i he
    have hpow : (10 : ℚ) ^ e = (10 : ℚ) ^ (e - d.exp).toNat * (10 : ℚ) ^ d.exp := by
      rw [← zpow_natCast, ← zpow_add₀ (by norm_num)]
      congr 1
      omega
    rw [val_eq, hpow, ← mul_assoc] at h
    have hc : d.coeff = n * (10 ^ (e - d.exp).toNat : ℕ) := by
      have := mul_right_cancel₀ (ten_zpow_pos d.exp).ne' h
      exact_mod_cast this
    have hpos : 0 < 10 ^ (e - d.exp).toNat := by positivity
    have hdvd : ((10 ^ (e - d.exp).toNat : ℕ) : ℤ) ∣ d.coeff := ⟨n, by rw [hc, mul_comm]⟩
    change divRound mode d.coeff (10 ^ (e - d.exp).toNat) = n
    rw [divRound_of_dvd mode hpos hdvd, hc]
    exact Int.mul_ediv_cancel n (by exact_mod_cast hpos.ne')

theorem rescale_exp (mode : Rounding) (d : Dec) (e : ℤ) : (rescale mode d e).exp = e := by
  unfold rescale
  split <;> rfl

theorem quantize_eq_some {prec places : ℕ} {d q : Dec} :
    quantize prec places d = some q ↔
      q = rescale .halfEven d (-places) ∧ q.coeff.natAbs < 10 ^ prec := by
  unfold quantize
  dsimp only
  split
  · rename_i h
    rw [Option.some.injEq]
    constructor
    · rintro rfl; exact ⟨rfl, h⟩
    · rintro ⟨rfl, -⟩; rfl
  · rename_i h
    simp only [reduceCtorEq, false_iff, not_and]
    rintro rfl
    exact h

/-- A number of whole units is not changed by `quantize`. -/
theorem quantize_ofUnits {prec places : ℕ} {n : ℤ} (h : n.natAbs < 10 ^ prec) :
    quantize prec places (ofUnits places n) = some (ofUnits places n) := by
  have hrescale : rescale .halfEven (ofUnits places n) (-places) = ofUnits places n := by
    rw [rescale, ofUnits, if_pos le_rfl]
    simp [scale]
  exact quantize_eq_some.mpr ⟨hrescale.symm, h⟩

/-- A result that fits the context is not rounded. -/
theorem fix_of_lt {prec : ℕ} {d : Dec} (hprec : 0 < prec) (h : d.coeff.natAbs < 10 ^ prec) :
    fix prec d = d := by
  have hdigits : Nat.log 10 d.coeff.natAbs + 1 ≤ prec := by
    have hlog : Nat.log 10 d.coeff.natAbs < prec := Nat.log_lt_of_lt_pow' hprec.ne' h
    omega
  rw [fix]
  exact if_pos hdigits

/-- The sum of a list in a context of `prec` digits, rounded at each step. -/
def sumIn (prec : ℕ) (l : List Dec) : Dec := l.foldl (fun a d => fix prec (a + d)) zero

/-- Numbers of `10 ^ -places` units with at most `k` digits, no more than `10 ^ m`
of them, are summed without rounding in a context of `k + m` digits. -/
theorem sumIn_eq_sum {prec places k m : ℕ} {l : List Dec} (hk : 0 < k) (hprec : k + m ≤ prec)
    (hl : ∀ d ∈ l, ∃ n : ℤ, d = ofUnits places n ∧ n.natAbs < 10 ^ k)
    (hlen : l.length ≤ 10 ^ m) : sumIn prec l = sum l := by
  -- the digits of a partial sum, and the exponent it has after the first step
  have hstep : ∀ (l : List Dec) (a : Dec) (c : ℕ),
      (∀ d ∈ l, ∃ n : ℤ, d = ofUnits places n ∧ n.natAbs < 10 ^ k) → c + l.length ≤ 10 ^ m →
      (a = zero ∨ a.exp = -places) → a.coeff.natAbs ≤ c * (10 ^ k - 1) →
      l.foldl (fun a d => fix prec (a + d)) a = l.foldl (· + ·) a := by
    intro l
    induction l with
    | nil => exact fun _ _ _ _ _ _ => rfl
    | cons d l ih =>
      intro a c hl hlen hexp hcoeff
      obtain ⟨⟨n, hd, hn⟩, hl⟩ := List.forall_mem_cons.mp hl
      rw [List.length_cons] at hlen
      have hsum : a + d = ⟨a.coeff + n, -places⟩ := by
        show add a d = _
        subst hd
        rcases hexp with rfl | hexp
        · simp [add, zero, ofUnits, scale]
        · simp [add, ofUnits, scale, hexp]
      have hbound : (a.coeff + n).natAbs ≤ (c + 1) * (10 ^ k - 1) := by
        have htri := Int.natAbs_add_le a.coeff n
        rw [add_mul, one_mul]
        omega
      have hpow : (c + 1) * (10 ^ k - 1) < 10 ^ prec := by
        have hten : 1 < 10 ^ k := Nat.one_lt_pow hk.ne' (by norm_num)
        calc (c + 1) * (10 ^ k - 1) < (c + 1) * 10 ^ k :=
              Nat.mul_lt_mul_of_pos_left (by omega) (by omega)
          _ ≤ 10 ^ m * 10 ^ k := Nat.mul_le_mul_right _ (by omega)
          _ = 10 ^ (k + m) := by rw [← pow_add, add_comm]
          _ ≤ 10 ^ prec := Nat.pow_le_pow_right (by norm_num) hprec
      have hfix : fix prec (a + d) = a + d := by
        rw [hsum]
        exact fix_of_lt (by omega) (lt_of_le_of_lt hbound hpow)
      rw [List.foldl_cons, List.foldl_cons, hfix]
      refine ih (a + d) (c + 1) hl (by omega) (.inr ?_) ?_
      · rw [hsum]
      · rw [hsum]
        exact hbound
  exact hstep l zero 0 hl (by omega) (.inl rfl) (by simp [zero])

/-- Dropping decimal places does not need more digits. -/
theorem quantize_isSome {prec places : ℕ} {d : Dec} (hexp : d.exp ≤ -places)
    (h : d.coeff.natAbs < 10 ^ prec) : ∃ q, quantize prec places d = some q := by
  refine ⟨_, quantize_eq_some.mpr ⟨rfl, lt_of_le_of_lt ?_ h⟩⟩
  unfold rescale
  split
  · rename_i he
    have hzero : (d.exp - -(places : ℤ)).toNat = 0 := by omega
    show (d.coeff * 10 ^ (d.exp - -(places : ℤ)).toNat).natAbs ≤ _
    rw [hzero, pow_zero, mul_one]
  · have hpow : 0 < 10 ^ (-(places : ℤ) - d.exp).toNat := by positivity
    show (divRound .halfEven d.coeff (10 ^ (-(places : ℤ) - d.exp).toNat)).natAbs ≤ _
    exact natAbs_divRound_le _ _ hpow

/-- What `quantize` returns is a whole number of `10 ^ -places` units. -/
theorem val_of_quantize {prec places : ℕ} {d q : Dec} (h : quantize prec places d = some q) :
    q.val = q.coeff / (10 : ℚ) ^ places := by
  obtain ⟨hq, -⟩ := quantize_eq_some.mp h
  have hexp : q.exp = -(places : ℤ) := hq ▸ rescale_exp _ _ _
  rw [val_eq, hexp, zpow_neg, zpow_natCast]
  rfl

theorem toNumeric_eq_some {digits places : ℕ} {d : Dec} {n : ℤ} :
    toNumeric digits places d = some n ↔
      n = (rescale .halfAway d (-places)).coeff ∧ n.natAbs < 10 ^ digits := by
  unfold toNumeric
  dsimp only
  split
  · rename_i h
    rw [Option.some.injEq]
    constructor
    · rintro rfl; exact ⟨rfl, h⟩
    · rintro ⟨rfl, -⟩; rfl
  · rename_i h
    simp only [reduceCtorEq, false_iff, not_and]
    rintro rfl
    exact h

/-- A number of whole units is stored as it is. -/
theorem toNumeric_of_val {digits places : ℕ} {d : Dec} {n m : ℤ}
    (hval : d.val = m / (10 : ℚ) ^ places) (h : toNumeric digits places d = some n) :
    n = m := by
  rw [(toNumeric_eq_some.mp h).1]
  refine rescale_coeff_of_val _ ?_
  rw [hval, zpow_neg, zpow_natCast]
  rfl

theorem toNumeric_ofUnits {digits places : ℕ} {n : ℤ} (h : n.natAbs < 10 ^ digits) :
    toNumeric digits places (ofUnits places n) = some n := by
  have hn : (rescale .halfAway (ofUnits places n) (-places)).coeff = n := by
    refine rescale_coeff_of_val _ ?_
    rw [val_eq, ofUnits]
  exact toNumeric_eq_some.mpr ⟨hn.symm, h⟩

/-- A number of units is quantized without loss, whatever its exponent. -/
theorem quantize_of_val {prec places : ℕ} {d : Dec} {n : ℤ} (hval : d.val = n / (10 : ℚ) ^ places)
    (h : n.natAbs < 10 ^ prec) : ∃ q, quantize prec places d = some q ∧ q.val = d.val := by
  have hcoeff : (rescale .halfEven d (-places)).coeff = n := by
    refine rescale_coeff_of_val _ ?_
    rw [hval, zpow_neg, zpow_natCast]
    rfl
  have hq : quantize prec places d = some (rescale .halfEven d (-places)) :=
    quantize_eq_some.mpr ⟨rfl, hcoeff ▸ h⟩
  refine ⟨_, hq, ?_⟩
  rw [val_of_quantize hq, hcoeff, hval]

/-- A number of units can be stored, whatever its exponent. -/
theorem toNumeric_isSome {digits places : ℕ} {d : Dec} {n : ℤ}
    (hval : d.val = n / (10 : ℚ) ^ places) (h : n.natAbs < 10 ^ digits) :
    toNumeric digits places d = some n := by
  have hcoeff : (rescale .halfAway d (-places)).coeff = n := by
    refine rescale_coeff_of_val _ ?_
    rw [hval, zpow_neg, zpow_natCast]
    rfl
  exact toNumeric_eq_some.mpr ⟨hcoeff.symm, h⟩

end Dec

end Lib
