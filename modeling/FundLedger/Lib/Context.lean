import FundLedger.Lib.Decimal
import FundLedger.Lib.Sums

/-!
# Arithmetic in a context

A decimal context of `prec` digits rounds every result that needs more digits
than that.  A result is exact when it is a whole number of units of some power
of ten, and fewer than `10 ^ prec` of them; how it is represented does not
matter.  So a sum of amounts that are not negative is exact as soon as its
total is (`val_sumIn`).

`rescale_error` is the error of a rounding that is not exact: half a unit of
the last place.
-/

namespace Lib

namespace Dec

/-- Two ways to write a number: the one with the smaller exponent has the
zeros of the other at its end. -/
theorem coeff_eq_mul_pow {d : Dec} {n e : ℤ} (hval : d.val = n * (10 : ℚ) ^ e) (he : d.exp ≤ e) :
    d.coeff = n * 10 ^ (e - d.exp).toNat := by
  have hpow : (10 : ℚ) ^ e = (10 : ℚ) ^ (e - d.exp).toNat * (10 : ℚ) ^ d.exp := by
    rw [← zpow_natCast, ← zpow_add₀ (by norm_num)]
    congr 1
    omega
  have hten : (10 : ℚ) ^ d.exp ≠ 0 := (zpow_pos (by norm_num) _).ne'
  rw [val_eq, hpow, ← mul_assoc] at hval
  exact_mod_cast mul_right_cancel₀ hten hval

/-- A number that needs no more digits than the context has keeps its value. -/
theorem val_fix_of_val {prec : ℕ} (hprec : 0 < prec) {d : Dec} {n e : ℤ}
    (hval : d.val = n * (10 : ℚ) ^ e) (hn : n.natAbs < 10 ^ prec) : (fix prec d).val = d.val := by
  by_cases hsmall : d.coeff.natAbs < 10 ^ prec
  · rw [fix_of_lt hprec hsmall]
  · have hlt : d.exp < e := by
      by_contra hle
      rw [not_lt] at hle
      have hcoeff : (⟨n, e⟩ : Dec).coeff = d.coeff * 10 ^ (d.exp - e).toNat :=
        coeff_eq_mul_pow (by rw [val_eq, ← hval, val_eq]) hle
      have hone : 1 ≤ 10 ^ (d.exp - e).toNat := Nat.one_le_pow _ _ (by norm_num)
      have hle : d.coeff.natAbs ≤ n.natAbs := by
        show d.coeff.natAbs ≤ (⟨n, e⟩ : Dec).coeff.natAbs
        rw [hcoeff, Int.natAbs_mul, Int.natAbs_pow]
        exact Nat.le_mul_of_pos_right _ hone
      exact hsmall (lt_of_le_of_lt hle hn)
    -- `k` digits too many, and at least `k` zeros at the end
    have hcoeff := coeff_eq_mul_pow hval hlt.le
    generalize hj : (e - d.exp).toNat = j at hcoeff
    have hne : d.coeff.natAbs ≠ 0 := by
      have hpos : 0 < 10 ^ prec := by positivity
      omega
    have hdigits : Nat.log 10 d.coeff.natAbs < prec + j := by
      refine Nat.log_lt_of_lt_pow hne ?_
      rw [hcoeff, Int.natAbs_mul, Int.natAbs_pow, pow_add]
      exact Nat.mul_lt_mul_of_pos_right hn (by positivity)
    have hmany : prec ≤ Nat.log 10 d.coeff.natAbs := by
      by_contra hfew
      exact hsmall (Nat.lt_pow_of_log_lt (by norm_num) (by omega))
    obtain ⟨k, hk⟩ : ∃ k, Nat.log 10 d.coeff.natAbs + 1 = prec + k :=
      ⟨Nat.log 10 d.coeff.natAbs + 1 - prec, by omega⟩
    have hkj : k ≤ j := by omega
    have hsplit : d.coeff = n * 10 ^ (j - k) * 10 ^ k := by
      rw [hcoeff, mul_assoc, ← pow_add]
      congr 2
      omega
    have hvalue : d.val = (n * 10 ^ (j - k) : ℤ) * (10 : ℚ) ^ (d.exp + k) := by
      rw [val_eq, hsplit, zpow_add₀ (by norm_num), zpow_natCast]
      push_cast
      ring
    have hround := rescale_coeff_of_val .halfEven hvalue
    have hfits : (n * 10 ^ (j - k)).natAbs < 10 ^ prec := by
      have hlog : d.coeff.natAbs < 10 ^ (prec + k) := by
        rw [← hk]
        exact Nat.lt_pow_succ_log_self (by norm_num) _
      rw [hsplit, Int.natAbs_mul, pow_add, Int.natAbs_pow] at hlog
      exact lt_of_mul_lt_mul_right hlog (by positivity)
    have hexcess : Nat.log 10 d.coeff.natAbs + 1 - prec = k := by omega
    unfold fix
    dsimp only
    rw [if_neg (by omega), hexcess, if_pos (by rw [hround]; exact hfits), val_eq, hround,
      rescale_exp, hvalue]

/-- Rescaling is off by at most half a unit of the new exponent. -/
theorem rescale_error (mode : Rounding) (d : Dec) (e : ℤ) :
    |(rescale mode d e).val - d.val| ≤ (10 : ℚ) ^ e / 2 := by
  have hpos : (0 : ℚ) < (10 : ℚ) ^ e := zpow_pos (by norm_num) e
  unfold rescale
  split
  · rename_i he
    have hval : (⟨d.scale e, e⟩ : Dec).val = d.val := by rw [val_eq, scale_val he]
    rw [hval, sub_self, abs_zero]
    exact (half_pos hpos).le
  · rename_i he
    have hexp : ((10 ^ (e - d.exp).toNat : ℕ) : ℚ) * (10 : ℚ) ^ d.exp = (10 : ℚ) ^ e := by
      push_cast
      rw [← zpow_natCast, ← zpow_add₀ (by norm_num)]
      congr 1
      omega
    have hd : 0 < 10 ^ (e - d.exp).toNat := by positivity
    have herr := divRound_error mode d.coeff hd
    generalize divRound mode d.coeff (10 ^ (e - d.exp).toNat) = q at herr
    have hquot : (⟨q, e⟩ : Dec).val - d.val =
        ((q * (10 ^ (e - d.exp).toNat : ℕ) - d.coeff : ℤ) : ℚ) * (10 : ℚ) ^ d.exp := by
      rw [val_eq, val_eq, ← hexp]
      push_cast
      ring
    have herrQ : 2 * |((q * (10 ^ (e - d.exp).toNat : ℕ) - d.coeff : ℤ) : ℚ)| ≤
        ((10 ^ (e - d.exp).toNat : ℕ) : ℚ) := by
      exact_mod_cast herr
    have hpow : (0 : ℚ) < (10 : ℚ) ^ d.exp := zpow_pos (by norm_num) _
    rw [hquot, abs_mul, abs_of_pos hpow, le_div_iff₀ two_pos, ← hexp]
    calc |((q * (10 ^ (e - d.exp).toNat : ℕ) - d.coeff : ℤ) : ℚ)| * (10 : ℚ) ^ d.exp * 2
        = 2 * |((q * (10 ^ (e - d.exp).toNat : ℕ) - d.coeff : ℤ) : ℚ)| * (10 : ℚ) ^ d.exp := by
          ring
      _ ≤ _ := mul_le_mul_of_nonneg_right herrQ hpow.le

/-! ## What depends on the number only -/

/-- A rounded quotient does not change when both numbers are multiplied. -/
theorem divRound_mul_right (mode : Rounding) (n : ℤ) {d k : ℕ} (hk : 0 < k) :
    divRound mode (n * k) (d * k) = divRound mode n d := by
  have hk' : (0 : ℤ) < k := by exact_mod_cast hk
  have hquot : n * k / ((d * k : ℕ) : ℤ) = n / d := by
    push_cast
    exact Int.mul_ediv_mul_of_pos_left n d hk'
  have hrem : n * k % ((d * k : ℕ) : ℤ) = n % d * k := by
    push_cast
    rw [mul_comm n, mul_comm (d : ℤ), Int.mul_emod_mul_of_pos n d hk', mul_comm]
  have hcast : ((d * k : ℕ) : ℤ) = (d : ℤ) * k := by push_cast; rfl
  have hlow : 2 * (n % d * k) < (d : ℤ) * k ↔ 2 * (n % d) < d := by
    rw [← mul_assoc, mul_lt_mul_iff_left₀ hk']
  have hhigh : (d : ℤ) * k < 2 * (n % d * k) ↔ (d : ℤ) < 2 * (n % d) := by
    rw [← mul_assoc, mul_lt_mul_iff_left₀ hk']
  have hsign : 0 ≤ n * k ↔ 0 ≤ n := mul_nonneg_iff_of_pos_right hk'
  unfold divRound
  dsimp only
  rw [hquot, hrem, hcast]
  simp only [hlow, hhigh, hsign]

/-- Two ways to write a number are rescaled to the same. -/
theorem rescale_congr (mode : Rounding) {a b : Dec} (h : a.val = b.val) (e : ℤ) :
    rescale mode a e = rescale mode b e := by
  have hcase : ∀ {a b : Dec}, a.val = b.val → a.exp ≤ b.exp → rescale mode a e = rescale mode b e := by
    intro a b h hle
    by_cases he : e ≤ b.exp
    · -- the number is whole at `e`
      have hval : b.val = b.scale e * (10 : ℚ) ^ e := (scale_val he).symm
      have hcoeff := (rescale_coeff_of_val mode (h.trans hval)).trans
        (rescale_coeff_of_val mode hval).symm
      have hexp := (rescale_exp mode a e).trans (rescale_exp mode b e).symm
      rcases hra : rescale mode a e with ⟨ca, ea⟩
      rcases hrb : rescale mode b e with ⟨cb, eb⟩
      rw [hra, hrb] at hcoeff hexp
      exact congrArg₂ Dec.mk hcoeff hexp
    · have hcoeff : a.coeff = b.coeff * 10 ^ (b.exp - a.exp).toNat :=
        coeff_eq_mul_pow (h.trans (val_eq b)) hle
      have hpow : 10 ^ (e - a.exp).toNat = 10 ^ (e - b.exp).toNat * 10 ^ (b.exp - a.exp).toNat := by
        rw [← pow_add]
        congr 1
        omega
      have hquot := divRound_mul_right mode b.coeff (d := 10 ^ (e - b.exp).toNat)
        (k := 10 ^ (b.exp - a.exp).toNat) (by positivity)
      unfold rescale
      rw [if_neg (by omega), if_neg he, hcoeff, hpow]
      push_cast at hquot
      rw [hquot]
  rcases le_total a.exp b.exp with hle | hle
  · exact hcase h hle
  · exact (hcase h.symm hle).symm

theorem quantize_congr {prec places : ℕ} {a b : Dec} (h : a.val = b.val) :
    quantize prec places a = quantize prec places b := by
  rw [quantize, quantize, rescale_congr _ h]

theorem toNumeric_congr {digits places : ℕ} {a b : Dec} (h : a.val = b.val) :
    toNumeric digits places a = toNumeric digits places b := by
  rw [toNumeric, toNumeric, rescale_congr _ h]

/-- The digits of a coefficient with `k` zeros appended. -/
theorem digits_mul_pow {n : ℤ} (hn : n ≠ 0) (k : ℕ) :
    Nat.log 10 (n * 10 ^ k).natAbs = Nat.log 10 n.natAbs + k := by
  have hne : n.natAbs ≠ 0 := Int.natAbs_ne_zero.mpr hn
  rw [Int.natAbs_mul, Int.natAbs_pow]
  induction k with
  | zero => simp
  | succ k ih =>
    rw [pow_succ, ← mul_assoc]
    show Nat.log 10 (n.natAbs * 10 ^ k * 10) = _
    rw [Nat.log_mul_base (by norm_num) (by positivity)]
    show Nat.log 10 (n.natAbs * 10 ^ k) + 1 = _
    have ih : Nat.log 10 (n.natAbs * 10 ^ k) = Nat.log 10 n.natAbs + k := ih
    omega

/-- **A context rounds two ways to write a number to the same number.** -/
theorem val_fix_congr {prec : ℕ} (hprec : 0 < prec) {a b : Dec} (h : a.val = b.val) :
    (fix prec a).val = (fix prec b).val := by
  have hcase : ∀ {a b : Dec}, a.val = b.val → a.exp ≤ b.exp →
      (fix prec a).val = (fix prec b).val := by
    intro a b h hle
    have hcoeff : a.coeff = b.coeff * 10 ^ (b.exp - a.exp).toNat :=
      coeff_eq_mul_pow (h.trans (val_eq b)) hle
    by_cases hsmall : b.coeff.natAbs < 10 ^ prec
    · rw [fix_of_lt hprec hsmall, val_fix_of_val hprec (h.trans (val_eq b)) hsmall, h]
    · have hpow : 0 < 10 ^ prec := by positivity
      have hne : b.coeff ≠ 0 := by
        intro hzero
        rw [hzero] at hsmall
        exact hsmall hpow
      have hdigits := digits_mul_pow hne (b.exp - a.exp).toNat
      rw [← hcoeff] at hdigits
      have hmany : prec ≤ Nat.log 10 b.coeff.natAbs := by
        by_contra hfew
        exact hsmall (Nat.lt_pow_of_log_lt (by norm_num) (by omega))
      -- both are rounded to the same exponent
      have hexp : a.exp + ((Nat.log 10 a.coeff.natAbs + 1 - prec : ℕ) : ℤ) =
          b.exp + ((Nat.log 10 b.coeff.natAbs + 1 - prec : ℕ) : ℤ) := by omega
      have ha : ¬Nat.log 10 a.coeff.natAbs + 1 ≤ prec := by omega
      have hb : ¬Nat.log 10 b.coeff.natAbs + 1 ≤ prec := by omega
      unfold fix
      dsimp only
      rw [if_neg ha, if_neg hb, hexp, rescale_congr _ h]
  rcases le_total a.exp b.exp with hle | hle
  · exact hcase h hle
  · exact (hcase h.symm hle).symm

/-- The product before the context rounds it. -/
theorem val_product_exact (a b : Dec) :
    (⟨a.coeff * b.coeff, a.exp + b.exp⟩ : Dec).val = a.val * b.val := by
  rw [val_eq, val_eq, val_eq, zpow_add₀ (by norm_num)]
  push_cast
  ring

theorem val_mul_congr {prec : ℕ} (hprec : 0 < prec) {a b r : Dec} (h : a.val = b.val) :
    (mul prec a r).val = (mul prec b r).val := by
  apply val_fix_congr hprec
  rw [val_product_exact, val_product_exact, h]

/-! ## Where a rounding goes over a bound -/

/-- An even number is below a quotient rounded to even exactly when it is more
than half below the quotient. -/
theorem lt_divRound_iff {n m : ℤ} {d : ℕ} (hd : 0 < d) (hm : m % 2 = 0) :
    m < divRound .halfEven n d ↔ (2 * m + 1) * d < 2 * n := by
  have hdiv := Int.mul_ediv_add_emod n d
  have hnn := Int.emod_nonneg n (b := d) (by omega)
  have hlt := Int.emod_lt_of_pos n (b := d) (by omega)
  have hd' : (0 : ℤ) < d := by exact_mod_cast hd
  have hn : 2 * n = (2 * (n / d)) * d + 2 * (n % d) := by linarith [mul_comm (d : ℤ) (n / d)]
  -- both sides compare `m` with the floor
  have hbelow : 2 * (n % d) < d → ((2 * m + 1) * d < 2 * n ↔ m < n / d) := by
    intro hr
    rw [hn]
    constructor
    · intro h
      have : (2 * m + 1) * d < (2 * (n / d) + 1) * d := by linarith
      have := lt_of_mul_lt_mul_right this hd'.le
      omega
    · intro h
      have : (2 * m + 1 : ℤ) + 1 ≤ 2 * (n / d) := by omega
      have := mul_le_mul_of_nonneg_right this hd'.le
      linarith
  have habove : (d : ℤ) ≤ 2 * (n % d) → 2 * (n % d) ≠ d → ((2 * m + 1) * d < 2 * n ↔ m ≤ n / d) := by
    intro hr hne
    have hr : (d : ℤ) < 2 * (n % d) := lt_of_le_of_ne hr (Ne.symm hne)
    rw [hn]
    constructor
    · intro h
      have : (2 * m + 1) * d < (2 * (n / d) + 2) * d := by linarith
      have := lt_of_mul_lt_mul_right this hd'.le
      omega
    · intro h
      have : (2 * m : ℤ) ≤ 2 * (n / d) := by omega
      have := mul_le_mul_of_nonneg_right this hd'.le
      linarith
  have htie : 2 * (n % d) = d → ((2 * m + 1) * d < 2 * n ↔ m < n / d) := by
    intro hr
    rw [hn, hr]
    constructor
    · intro h
      have : (2 * m + 1) * d < (2 * (n / d) + 1) * d := by linarith
      have := lt_of_mul_lt_mul_right this hd'.le
      omega
    · intro h
      have : (2 * m + 1 : ℤ) < 2 * (n / d) + 1 := by omega
      have := mul_lt_mul_of_pos_right this hd'
      linarith
  unfold divRound
  dsimp only
  split_ifs with hlow hhigh heven
  · exact (hbelow hlow).symm
  · rw [habove hhigh.le hhigh.ne']
    omega
  · exact (htie (by omega)).symm
  · rw [htie (by omega)]
    omega

/-- The same for a bound above. -/
theorem divRound_lt_iff {n m : ℤ} {d : ℕ} (hd : 0 < d) (hm : m % 2 = 0) :
    divRound .halfEven n d < m ↔ 2 * n < (2 * m - 1) * d := by
  have hdiv := Int.mul_ediv_add_emod n d
  have hnn := Int.emod_nonneg n (b := d) (by omega)
  have hlt := Int.emod_lt_of_pos n (b := d) (by omega)
  have hd' : (0 : ℤ) < d := by exact_mod_cast hd
  have hn : 2 * n = (2 * (n / d)) * d + 2 * (n % d) := by linarith [mul_comm (d : ℤ) (n / d)]
  have hbelow : 2 * (n % d) < d → (2 * n < (2 * m - 1) * d ↔ n / d < m) := by
    intro hr
    rw [hn]
    constructor
    · intro h
      have : (2 * (n / d)) * d < (2 * m - 1) * d := by linarith
      have := lt_of_mul_lt_mul_right this hd'.le
      omega
    · intro h
      have : 2 * (n / d) + 1 ≤ 2 * m - 1 := by omega
      have := mul_le_mul_of_nonneg_right this hd'.le
      linarith
  have habove : (d : ℤ) ≤ 2 * (n % d) → (2 * n < (2 * m - 1) * d ↔ n / d + 1 < m) := by
    intro hr
    rw [hn]
    constructor
    · intro h
      have : (2 * (n / d) + 1) * d < (2 * m - 1) * d := by linarith
      have := lt_of_mul_lt_mul_right this hd'.le
      omega
    · intro h
      have : 2 * (n / d) + 3 ≤ 2 * m - 1 := by omega
      have := mul_le_mul_of_nonneg_right this hd'.le
      linarith
  unfold divRound
  dsimp only
  split_ifs with hlow hhigh heven
  · exact (hbelow hlow).symm
  · exact (habove hhigh.le).symm
  · rw [habove (by omega)]
    omega
  · exact (habove (by omega)).symm

/-- A number at exponent `e` as a quotient: the coefficient that `rescale`
computes is the rounded one. -/
theorem rescale_eq_divRound (mode : Rounding) (d : Dec) (e : ℤ) : ∃ (n : ℤ) (k : ℕ), 0 < k ∧
    (rescale mode d e).coeff = divRound mode n k ∧ d.val * k = n * (10 : ℚ) ^ e := by
  unfold rescale
  split
  · rename_i he
    refine ⟨d.scale e, 1, one_pos, ?_, ?_⟩
    · rw [divRound_of_dvd mode one_pos (by simp)]
      simp
    · rw [scale_val he, Nat.cast_one, mul_one]
  · rename_i he
    refine ⟨d.coeff, 10 ^ (e - d.exp).toNat, by positivity, rfl, ?_⟩
    have hexp : ((10 ^ (e - d.exp).toNat : ℕ) : ℚ) * (10 : ℚ) ^ d.exp = (10 : ℚ) ^ e := by
      push_cast
      rw [← zpow_natCast, ← zpow_add₀ (by norm_num)]
      congr 1
      omega
    rw [val_eq, ← hexp]
    ring

/-- **When rounding goes above an even bound.** -/
theorem lt_rescale_iff {d : Dec} {e m : ℤ} (hm : m % 2 = 0) :
    m < (rescale .halfEven d e).coeff ↔ ((m : ℚ) + 1 / 2) * (10 : ℚ) ^ e < d.val := by
  obtain ⟨n, k, hk, hcoeff, hval⟩ := rescale_eq_divRound .halfEven d e
  have hk' : (0 : ℚ) < k := by exact_mod_cast hk
  have hten : (0 : ℚ) < (10 : ℚ) ^ e := zpow_pos (by norm_num) e
  rw [hcoeff, lt_divRound_iff hk hm, ← mul_lt_mul_iff_left₀ hk', hval]
  have hcast : ((2 * m + 1) * (k : ℤ) < 2 * n) ↔ ((2 * m + 1 : ℚ) * k < 2 * n) := by
    exact_mod_cast Iff.rfl
  rw [hcast, ← mul_lt_mul_iff_left₀ hten]
  constructor <;> intro h <;> linarith

/-- **When rounding stays below an even bound.** -/
theorem rescale_lt_iff {d : Dec} {e m : ℤ} (hm : m % 2 = 0) :
    (rescale .halfEven d e).coeff < m ↔ d.val < ((m : ℚ) - 1 / 2) * (10 : ℚ) ^ e := by
  obtain ⟨n, k, hk, hcoeff, hval⟩ := rescale_eq_divRound .halfEven d e
  have hk' : (0 : ℚ) < k := by exact_mod_cast hk
  have hten : (0 : ℚ) < (10 : ℚ) ^ e := zpow_pos (by norm_num) e
  rw [hcoeff, divRound_lt_iff hk hm, ← mul_lt_mul_iff_left₀ hk', hval]
  have hcast : (2 * n < (2 * m - 1) * (k : ℤ)) ↔ ((2 * n : ℚ) < (2 * m - 1) * k) := by
    exact_mod_cast Iff.rfl
  rw [hcast, ← mul_lt_mul_iff_left₀ hten]
  constructor <;> intro h <;> linarith

/-! ## Sums -/

/-- A number that does not round up to `10 ^ prec` units is quantized. -/
theorem quantize_isSome_of_lt {prec places : ℕ} {d : Dec} (hprec : 0 < prec) (hpos : 0 ≤ d.val)
    (hlt : d.val < ((10 : ℚ) ^ prec - 1 / 2) / (10 : ℚ) ^ places) :
    quantize prec places d = some (rescale .halfEven d (-places)) := by
  have heven : ((10 : ℤ) ^ prec) % 2 = 0 := by
    obtain ⟨k, rfl⟩ := Nat.exists_eq_add_of_lt hprec
    rw [pow_succ]
    omega
  have hpow : (10 : ℚ) ^ (-(places : ℤ)) = ((10 : ℚ) ^ places)⁻¹ := by
    rw [zpow_neg, zpow_natCast]
  have hlow : -2 < (rescale .halfEven d (-places)).coeff := by
    rw [lt_rescale_iff (by norm_num)]
    refine lt_of_lt_of_le ?_ hpos
    rw [hpow]
    have hinv : (0 : ℚ) < ((10 : ℚ) ^ places)⁻¹ := by positivity
    push_cast
    linarith
  have hhigh : (rescale .halfEven d (-places)).coeff < 10 ^ prec := by
    rw [rescale_lt_iff heven, hpow]
    push_cast
    exact hlt
  have hten : (10 : ℕ) ≤ 10 ^ prec := Nat.le_self_pow hprec.ne' 10
  refine quantize_eq_some.mpr ⟨rfl, ?_⟩
  zify
  rw [abs_lt]
  zify at hten
  omega

/-- A number of units that fits the context keeps its value. -/
theorem val_fix_of_units {prec places : ℕ} (hprec : 0 < prec) {d : Dec} {n : ℤ}
    (hval : d.val = n / (10 : ℚ) ^ places) (hn : |d.val| < (10 : ℚ) ^ prec / (10 : ℚ) ^ places) :
    (fix prec d).val = d.val := by
  have hplaces : (0 : ℚ) < (10 : ℚ) ^ places := by positivity
  have hzpow : d.val = n * (10 : ℚ) ^ (-(places : ℤ)) := by
    rw [hval, zpow_neg, zpow_natCast]
    rfl
  refine val_fix_of_val hprec hzpow ?_
  rw [hval, abs_div, abs_of_pos hplaces, div_lt_div_iff_of_pos_right hplaces] at hn
  have hcast : ((n.natAbs : ℕ) : ℚ) < ((10 ^ prec : ℕ) : ℚ) := by
    rw [Nat.cast_natAbs]
    push_cast
    exact hn
  exact_mod_cast hcast

/-- The part of a number above zero. -/
def posPart (d : Dec) : ℚ := max d.val 0

/-- The part of a number below zero. -/
def negPart (d : Dec) : ℚ := max (-d.val) 0

theorem le_posPart (d : Dec) : d.val ≤ d.posPart := le_max_left _ _

theorem neg_le_negPart (d : Dec) : -d.val ≤ d.negPart := le_max_left _ _

theorem posPart_nonneg (d : Dec) : 0 ≤ d.posPart := le_max_right _ _

theorem negPart_nonneg (d : Dec) : 0 ≤ d.negPart := le_max_right _ _

/-- **A sum of units is exact in a context** that has room for what is above zero
and for what is below. -/
theorem val_sumIn {prec places : ℕ} (hprec : 0 < prec) {l : List Dec}
    (hl : ∀ d ∈ l, ∃ n : ℤ, d.val = n / (10 : ℚ) ^ places)
    (hpos : sumBy posPart l < (10 : ℚ) ^ prec / (10 : ℚ) ^ places)
    (hneg : sumBy negPart l < (10 : ℚ) ^ prec / (10 : ℚ) ^ places) :
    (sumIn prec l).val = (sum l).val := by
  -- the induction keeps the partial sum a number of units, with room for the rest
  have hstep : ∀ (l : List Dec) (a : Dec) (n : ℤ),
      (∀ d ∈ l, ∃ n : ℤ, d.val = n / (10 : ℚ) ^ places) → a.val = n / (10 : ℚ) ^ places →
      a.val + sumBy posPart l < (10 : ℚ) ^ prec / (10 : ℚ) ^ places →
      -a.val + sumBy negPart l < (10 : ℚ) ^ prec / (10 : ℚ) ^ places →
      (l.foldl (fun a d => fix prec (a + d)) a).val = (l.foldl (· + ·) a).val := by
    intro l
    induction l with
    | nil => exact fun _ _ _ _ _ _ => rfl
    | cons d l ih =>
      intro a n hl ha hup hdown
      obtain ⟨⟨m, hm⟩, hl⟩ := List.forall_mem_cons.mp hl
      rw [sumBy_cons] at hup hdown
      have hupTail : 0 ≤ sumBy posPart l := sumBy_nonneg fun d _ => d.posPart_nonneg
      have hdownTail : 0 ≤ sumBy negPart l := sumBy_nonneg fun d _ => d.negPart_nonneg
      have hd := d.le_posPart
      have hd' := d.neg_le_negPart
      have hunits : (a + d).val = (n + m : ℤ) / (10 : ℚ) ^ places := by
        rw [val_add, ha, hm]
        push_cast
        ring
      have hfix : (fix prec (a + d)).val = (a + d).val := by
        refine val_fix_of_units hprec hunits ?_
        rw [val_add, abs_lt]
        constructor <;> linarith
      have hval : (fix prec (a + d)).val = a.val + d.val := by rw [hfix, val_add]
      rw [List.foldl_cons, List.foldl_cons, ih (fix prec (a + d)) (n + m) hl (hfix.trans hunits)
        (by rw [hval]; linarith) (by rw [hval]; linarith)]
      rw [val_foldl_add, val_foldl_add, hfix]
  refine hstep l zero 0 hl (by simp) ?_ ?_
  · rw [val_zero, zero_add]
    exact hpos
  · rw [val_zero, neg_zero, zero_add]
    exact hneg

/-- The same for numbers that are not negative: it is enough that the total fits. -/
theorem val_sumIn_of_nonneg {prec places : ℕ} (hprec : 0 < prec) {l : List Dec}
    (hl : ∀ d ∈ l, 0 ≤ d.val ∧ ∃ n : ℤ, d.val = n / (10 : ℚ) ^ places)
    (hsum : (sum l).val < (10 : ℚ) ^ prec / (10 : ℚ) ^ places) :
    (sumIn prec l).val = (sum l).val := by
  refine val_sumIn hprec (fun d hd => (hl d hd).2) ?_ ?_
  · have hparts : sumBy posPart l = sumBy val l :=
      sumBy_congr fun d hd => max_eq_left (hl d hd).1
    rw [val_sum] at hsum
    rw [hparts]
    exact hsum
  · have hzero : sumBy negPart l = 0 :=
      sumBy_eq_zero fun d hd => max_eq_right (neg_nonpos.mpr (hl d hd).1)
    rw [hzero]
    positivity

/-! ## The error of a context -/

/-- Rounding a number of `p + k` digits to its first `p` gives at most `10 ^ p`. -/
theorem natAbs_rescale_le {d : Dec} {p k : ℕ} (hk : 0 < k) (h : d.coeff.natAbs < 10 ^ (p + k)) :
    (rescale .halfEven d (d.exp + k)).coeff.natAbs ≤ 10 ^ p := by
  have htoNat : (d.exp + k - d.exp).toNat = k := by omega
  have hcoeff : (rescale .halfEven d (d.exp + k)).coeff = divRound .halfEven d.coeff (10 ^ k) := by
    rw [rescale, if_neg (by omega), htoNat]
  have hpow : 0 < 10 ^ k := by positivity
  have herr := divRound_error .halfEven d.coeff hpow
  rw [hcoeff]
  generalize divRound .halfEven d.coeff (10 ^ k) = q at herr
  have htri : |q * (10 ^ k : ℕ)| ≤ |d.coeff| + |q * (10 ^ k : ℕ) - d.coeff| := by
    have := abs_add_le d.coeff (q * (10 ^ k : ℕ) - d.coeff)
    rwa [add_sub_cancel] at this
  rw [abs_mul, Nat.abs_cast] at htri
  have hbound : |d.coeff| < (10 ^ p : ℕ) * (10 ^ k : ℕ) := by
    rw [Int.abs_eq_natAbs]
    rw [pow_add] at h
    exact_mod_cast h
  have hlt : |q| * (10 ^ k : ℕ) < ((10 ^ p : ℕ) + 1) * ((10 ^ k : ℕ) : ℤ) := by
    have hpos : (0 : ℤ) < ((10 ^ k : ℕ) : ℤ) := by exact_mod_cast hpow
    linarith
  have hq : |q| < (10 ^ p : ℕ) + 1 := lt_of_mul_lt_mul_right hlt (by positivity)
  rw [Int.abs_eq_natAbs] at hq
  omega

/-- **What a context does to a number**: it rescales it to the last digit that
it keeps. -/
theorem val_fix {prec : ℕ} (hprec : 0 < prec) (d : Dec) :
    (fix prec d).val =
      (rescale .halfEven d (d.exp + (Nat.log 10 d.coeff.natAbs + 1 - prec : ℕ))).val := by
  by_cases hfew : Nat.log 10 d.coeff.natAbs + 1 ≤ prec
  · have hzero : Nat.log 10 d.coeff.natAbs + 1 - prec = 0 := by omega
    rw [hzero, Nat.cast_zero, add_zero, rescale, if_pos le_rfl, scale, sub_self]
    unfold fix
    dsimp only
    rw [if_pos hfew]
    simp
  · obtain ⟨k, hk⟩ : ∃ k, Nat.log 10 d.coeff.natAbs + 1 = prec + k :=
      ⟨Nat.log 10 d.coeff.natAbs + 1 - prec, by omega⟩
    have hexcess : Nat.log 10 d.coeff.natAbs + 1 - prec = k := by omega
    unfold fix
    dsimp only
    rw [if_neg hfew, hexcess]
    split_ifs with hfits
    · rfl
    · -- dropping the zero of 10…0 changes nothing
      have hcoeff : (rescale .halfEven d (d.exp + k)).coeff.natAbs = 10 ^ prec := by
        refine le_antisymm (natAbs_rescale_le (by omega) ?_) (not_lt.mp hfits)
        rw [← hk]
        exact Nat.lt_pow_succ_log_self (by norm_num) _
      have hten : (10 : ℤ) ∣ (rescale .halfEven d (d.exp + k)).coeff := by
        rw [← Int.natAbs_dvd_natAbs, hcoeff]
        exact dvd_pow_self 10 hprec.ne'
      have hback : ((rescale .halfEven d (d.exp + k)).coeff / 10 : ℤ) * 10 =
          (rescale .halfEven d (d.exp + k)).coeff := Int.ediv_mul_cancel hten
      rw [val_eq, val_eq, zpow_add₀ (by norm_num), zpow_one, ← hback]
      push_cast
      rw [Int.mul_ediv_cancel _ (by norm_num)]
      ring

/-- **A context is off by at most half of the number.**  This is crude, and
enough where a bound on the order of magnitude is. -/
theorem fix_error {prec : ℕ} (hprec : 0 < prec) (d : Dec) :
    |(fix prec d).val - d.val| ≤ |d.val| / 2 := by
  by_cases hsmall : d.coeff.natAbs < 10 ^ prec
  · rw [fix_of_lt hprec hsmall, sub_self, abs_zero]
    positivity
  · have hne : d.coeff.natAbs ≠ 0 := by
      have hpos : 0 < 10 ^ prec := by positivity
      omega
    have hmany : prec ≤ Nat.log 10 d.coeff.natAbs := by
      by_contra hfew
      exact hsmall (Nat.lt_pow_of_log_lt (by norm_num) (by omega))
    obtain ⟨k, hk⟩ : ∃ k, Nat.log 10 d.coeff.natAbs + 1 = prec + k :=
      ⟨Nat.log 10 d.coeff.natAbs + 1 - prec, by omega⟩
    have hexcess : Nat.log 10 d.coeff.natAbs + 1 - prec = k := by omega
    have herror := rescale_error .halfEven d (d.exp + k)
    -- half a unit of the last place is at most half of the number
    have hlarge : (10 : ℚ) ^ (d.exp + k) ≤ |d.val| := by
      have hlog : 10 ^ k ≤ d.coeff.natAbs :=
        (Nat.pow_le_pow_right (by norm_num) (by omega)).trans (Nat.pow_log_le_self 10 hne)
      have hpow : (0 : ℚ) < (10 : ℚ) ^ d.exp := zpow_pos (by norm_num) _
      rw [val_eq, abs_mul, abs_of_pos hpow, zpow_add₀ (by norm_num), zpow_natCast, mul_comm]
      refine mul_le_mul_of_nonneg_right ?_ hpow.le
      rw [← Int.cast_abs, Int.abs_eq_natAbs]
      exact_mod_cast hlog
    have hsame : (fix prec d).val = (rescale .halfEven d (d.exp + k)).val := by
      rw [val_fix hprec, hexcess]
    rw [hsame]
    linarith

end Dec

end Lib
