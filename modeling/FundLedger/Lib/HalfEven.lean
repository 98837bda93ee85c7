import FundLedger.Lib.Context

/-!
# Rounding half to even, once and twice

`RoundsTo` says what rounding to the nearest integer means, without a way to
compute it, and `divRound` in the mode `halfEven` computes it.  `HalfEven` is
the same for decimal places, and `Dec.quantize` computes that.

A number that is rounded to a finer unit first need not end up where it would
have ended up directly: the first rounding can move it onto the middle between
two units, and the tie then goes to the even one although the number was nearer
to the odd one.  `DoublyRounded` says for which numbers this happens.
-/

namespace Lib

/-! ## Rounding, declaratively -/

/-- `c` is the integer nearest to `x`, the even one of two that are nearest. -/
structure RoundsTo (x : ℚ) (c : ℤ) : Prop where
  near : 2 * |c - x| ≤ 1
  even : 2 * |c - x| = 1 → c % 2 = 0

/-- There is only one. -/
theorem RoundsTo.unique {x : ℚ} {c d : ℤ} (hc : RoundsTo x c) (hd : RoundsTo x d) : c = d := by
  have hlt : ∀ {c d : ℤ}, RoundsTo x c → RoundsTo x d → ¬c < d := by
    intro c d hc hd hcd
    have hstep : (c : ℚ) + 1 ≤ d := by exact_mod_cast hcd
    have hlow := abs_le.mp (show |c - x| ≤ 1 / 2 by linarith [hc.near])
    have hhigh := abs_le.mp (show |d - x| ≤ 1 / 2 by linarith [hd.near])
    -- both are half a unit away, and neighbours
    have hnext : (d : ℚ) = c + 1 := by linarith
    have hx : x = c + 1 / 2 := by linarith
    have hcx : 2 * |c - x| = 1 := by
      rw [hx, abs_of_nonpos (by linarith)]
      linarith
    have hdx : 2 * |d - x| = 1 := by
      rw [hx, hnext, abs_of_nonneg (by linarith)]
      linarith
    have hcd : d = c + 1 := by exact_mod_cast hnext
    have hceven := hc.even hcx
    have hdeven := hd.even hdx
    omega
  have hcd := hlt hc hd
  have hdc := hlt hd hc
  omega

/-- `q` or its successor, by where a rest is relative to half of a unit. -/
def pickEven (q rest unit : ℤ) : ℤ :=
  if 2 * rest < unit then q else if unit < 2 * rest then q + 1 else if q % 2 = 0 then q else q + 1

/-- The cases of a rounded quotient. -/
theorem divRound_eq {n q r : ℤ} {d : ℕ} (hn : n = d * q + r) (hr : 0 ≤ r) (hrd : r < d) :
    divRound .halfEven n d = pickEven q r d := by
  have hquot : n / d = q := by
    rw [hn, Int.mul_add_ediv_left _ _ (by omega), Int.ediv_eq_zero_of_lt hr hrd, add_zero]
  have hrem : n % d = r := by
    rw [hn, Int.mul_add_emod_self_left, Int.emod_eq_of_lt hr hrd]
  unfold divRound
  rw [hquot, hrem]
  rfl

theorem divRound_roundsTo (n : ℤ) {d : ℕ} (hd : 0 < d) :
    RoundsTo (n / d) (divRound .halfEven n d) := by
  have hdq : (0 : ℚ) < d := by exact_mod_cast hd
  have hscale : ∀ c : ℤ, 2 * |(c : ℚ) - n / d| = (2 * |c * d - n| : ℤ) / (d : ℚ) := by
    intro c
    have hdiff : (c : ℚ) - n / d = (c * d - n : ℤ) / (d : ℚ) := by
      push_cast
      field_simp
    rw [hdiff, abs_div, abs_of_pos hdq, ← Int.cast_abs]
    push_cast
    ring
  constructor
  · rw [hscale, div_le_one hdq]
    exact_mod_cast divRound_error .halfEven n hd
  · intro htie
    rw [hscale, div_eq_one_iff_eq hdq.ne'] at htie
    have htie : 2 * |divRound .halfEven n d * d - n| = d := by exact_mod_cast htie
    have hdiv := Int.mul_ediv_add_emod n d
    have hnn := Int.emod_nonneg n (b := d) (by omega)
    have hlt := Int.emod_lt_of_pos n (b := d) (by omega)
    rw [divRound_eq hdiv.symm hnn hlt] at htie ⊢
    generalize n / (d : ℤ) = q at hdiv htie ⊢
    generalize n % (d : ℤ) = r at hdiv hnn hlt htie ⊢
    have hlow : q * d - n = -r := by linarith [mul_comm q (d : ℤ)]
    have hhigh : (q + 1) * d - n = d - r := by linarith [mul_comm q (d : ℤ)]
    unfold pickEven at htie ⊢
    split_ifs at htie ⊢ with h₁ h₂ h₃
    · rw [hlow, abs_neg, abs_of_nonneg hnn] at htie
      omega
    · rw [hhigh, abs_of_nonneg (by omega)] at htie
      omega
    · exact h₃
    · omega

/-! ## Decimal places -/

/-- `y` is `x` rounded half to even to so many decimal places. -/
def HalfEven (places : ℕ) (x y : ℚ) : Prop :=
  ∃ c : ℤ, y = c / (10 : ℚ) ^ places ∧ RoundsTo (x * (10 : ℚ) ^ places) c

theorem HalfEven.unique {places : ℕ} {x y z : ℚ} (hy : HalfEven places x y)
    (hz : HalfEven places x z) : y = z := by
  obtain ⟨c, rfl, hc⟩ := hy
  obtain ⟨d, rfl, hd⟩ := hz
  rw [hc.unique hd]

/-- Half a unit of the last place at most. -/
theorem HalfEven.error {places : ℕ} {x y : ℚ} (h : HalfEven places x y) :
    |y - x| ≤ 1 / (2 * (10 : ℚ) ^ places) := by
  obtain ⟨c, rfl, hc⟩ := h
  have hpow : (0 : ℚ) < (10 : ℚ) ^ places := by positivity
  have hscale : (c : ℚ) / 10 ^ places - x = (c - x * 10 ^ places) / 10 ^ places := by
    field_simp
  rw [hscale, abs_div, abs_of_pos hpow, div_le_div_iff₀ hpow (by positivity)]
  nlinarith [hc.near]

theorem Dec.rescale_halfEven (d : Dec) (places : ℕ) :
    HalfEven places d.val (rescale .halfEven d (-places)).val := by
  have hpow : (10 : ℚ) ^ places ≠ 0 := by positivity
  refine ⟨(rescale .halfEven d (-places)).coeff, ?_, ?_⟩
  · rw [val_eq, rescale_exp, zpow_neg, zpow_natCast]
    rfl
  · obtain ⟨n, k, hk, hcoeff, hval⟩ := rescale_eq_divRound .halfEven d (-places)
    have hk' : (k : ℚ) ≠ 0 := by exact_mod_cast hk.ne'
    have hx : d.val * (10 : ℚ) ^ places = n / k := by
      rw [zpow_neg, zpow_natCast] at hval
      rw [eq_div_iff hk', mul_right_comm, hval]
      field_simp
    rw [hx, hcoeff]
    exact divRound_roundsTo n hk

/-- Rescaling to a larger exponent rounds a quotient. -/
theorem Dec.rescale_coeff (mode : Rounding) {d : Dec} {e : ℤ} (h : d.exp ≤ e) :
    (rescale mode d e).coeff = divRound mode d.coeff (10 ^ (e - d.exp).toNat) := by
  unfold rescale
  split
  · rename_i he
    have hexp : e = d.exp := le_antisymm he h
    rw [hexp, sub_self, Int.toNat_zero, pow_zero, divRound_of_dvd mode one_pos (by simp)]
    simp [scale]
  · rfl

/-- **`quantize` rounds half to even.** -/
theorem Dec.quantize_halfEven {prec places : ℕ} {d q : Dec}
    (h : quantize prec places d = some q) : HalfEven places d.val q.val := by
  rw [(quantize_eq_some.mp h).1]
  exact rescale_halfEven d places

/-! ## Rounding twice -/

/-- The multiple of `w` below `n` is an even one and `n` is past the middle, or
it is an odd one and `n` is before the middle, each time by no more than half of
`s`: rounding to a multiple of `s` moves `n` onto the middle. -/
def DoublyRounded (s w : ℕ) (n : ℤ) : Prop :=
  (n / w % 2 = 0 ∧ 0 < 2 * (n % w) - w ∧ 2 * (n % w) - w ≤ s) ∨
  (n / w % 2 = 1 ∧ 0 < w - 2 * (n % w) ∧ w - 2 * (n % w) ≤ s)

instance (s w : ℕ) (n : ℤ) : Decidable (DoublyRounded s w n) := by
  unfold DoublyRounded
  exact inferInstance

/-- The rest in the larger unit and the rest in the smaller one lead to the same
choice, when the smaller one was rounded to the even side. -/
private theorem pickEven_eq_iff {q a b s u p w y : ℤ} (hb : 0 ≤ b) (hbs : b < s)
    (hwhere : (2 * a + 4 ≤ u ∧ 2 * p + 4 * s ≤ w) ∨ (2 * a + 2 = u ∧ 2 * p + 2 * s = w ∧ y % 2 = 1) ∨
      (2 * a = u ∧ 2 * p = w ∧ y % 2 = 0) ∨ (u + 2 ≤ 2 * a ∧ w + 2 * s ≤ 2 * p)) :
    pickEven q (a + (pickEven y b s - y)) u = pickEven q (p + b) w ↔
      ¬((q % 2 = 0 ∧ 0 < 2 * (p + b) - w ∧ 2 * (p + b) - w ≤ s) ∨
        (q % 2 = 1 ∧ 0 < w - 2 * (p + b) ∧ w - 2 * (p + b) ≤ s)) := by
  have hinner : (pickEven y b s = y ∧ (2 * b < s ∨ 2 * b = s ∧ y % 2 = 0)) ∨
      (pickEven y b s = y + 1 ∧ (s < 2 * b ∨ 2 * b = s ∧ y % 2 = 1)) := by
    unfold pickEven
    split_ifs <;> omega
  generalize pickEven y b s = x at hinner
  unfold pickEven
  rcases hwhere with ⟨h, h'⟩ | ⟨h, h', hy⟩ | ⟨h, h', hy⟩ | ⟨h, h'⟩
  · -- far below the middle
    rw [if_pos (by omega), if_pos (by omega)]
    omega
  · -- one smaller unit below the middle
    rw [if_pos (show 2 * (p + b) < w by omega)]
    split_ifs <;> omega
  · -- at the middle, or a rest above it
    rw [if_neg (show ¬2 * (p + b) < w by omega)]
    split_ifs <;> omega
  · -- above the middle
    rw [if_neg (by omega), if_pos (by omega), if_neg (by omega), if_pos (by omega)]
    omega

/-- **When rounding twice is rounding once.**  The larger unit is `u` smaller
ones, and half of it is an even number of them. -/
theorem divRound_divRound_iff (n : ℤ) {s u : ℕ} (hs : 0 < s) (hu : 0 < u) (hfour : u % 4 = 0) :
    divRound .halfEven (divRound .halfEven n s) u = divRound .halfEven n (s * u) ↔
      ¬DoublyRounded s (s * u) n := by
  -- `n` is `q` larger units, `a` smaller ones and a rest `b`
  obtain ⟨q, a, b, hn, ha, hau, hb, hbs⟩ : ∃ q a b : ℤ, n = s * (u * q + a) + b ∧ 0 ≤ a ∧ a < u ∧
      0 ≤ b ∧ b < s := by
    refine ⟨n / s / u, n / s % u, n % s, ?_, ?_, ?_, ?_, ?_⟩
    · rw [Int.mul_ediv_add_emod, Int.mul_ediv_add_emod]
    · exact Int.emod_nonneg _ (by omega)
    · exact Int.emod_lt_of_pos _ (by omega)
    · exact Int.emod_nonneg _ (by omega)
    · exact Int.emod_lt_of_pos _ (by omega)
  have hwhole : n = (s * u : ℕ) * q + (s * a + b) := by
    rw [hn]
    push_cast
    ring
  have hsa : 0 ≤ (s : ℤ) * a := by positivity
  have hsu : (s : ℤ) * a + b < (s * u : ℕ) := by
    push_cast
    nlinarith
  have hquot : n / (s * u : ℕ) = q := by
    rw [hwhole, Int.mul_add_ediv_left _ _ (by positivity), Int.ediv_eq_zero_of_lt (by omega) hsu,
      add_zero]
  have hrem : n % (s * u : ℕ) = s * a + b := by
    rw [hwhole, Int.mul_add_emod_self_left, Int.emod_eq_of_lt (by omega) hsu]
  have hodd : 2 * a + 2 = u → (u * q + a) % 2 = 1 := by
    intro h
    obtain ⟨v, hv⟩ : ∃ v : ℤ, (u : ℤ) = 4 * v := ⟨u / 4, by omega⟩
    have ha : a = 2 * v - 1 := by omega
    rw [hv, ha, show 4 * v * q + (2 * v - 1) = 2 * (2 * v * q + v - 1) + 1 by ring]
    omega
  have heven : 2 * a = u → (u * q + a) % 2 = 0 := by
    intro h
    obtain ⟨v, hv⟩ : ∃ v : ℤ, (u : ℤ) = 4 * v := ⟨u / 4, by omega⟩
    have ha : a = 2 * v := by omega
    rw [hv, ha, show 4 * v * q + 2 * v = 2 * (2 * v * q + v) by ring]
    omega
  have hwhere : (2 * a + 4 ≤ u ∧ 2 * (s * a) + 4 * s ≤ (s * u : ℕ)) ∨
      (2 * a + 2 = u ∧ 2 * (s * a) + 2 * s = (s * u : ℕ) ∧ (u * q + a) % 2 = 1) ∨
      (2 * a = u ∧ 2 * (s * a) = (s * u : ℕ) ∧ (u * q + a) % 2 = 0) ∨
      (u + 2 ≤ 2 * a ∧ (s * u : ℕ) + 2 * s ≤ 2 * (s * a)) := by
    have hcases : 2 * a + 4 ≤ u ∨ 2 * a + 2 = u ∨ 2 * a = u ∨ u + 2 ≤ 2 * a := by omega
    push_cast
    rcases hcases with h | h | h | h
    · exact .inl ⟨h, by nlinarith⟩
    · exact .inr (.inl ⟨h, by rw [← h]; ring, hodd h⟩)
    · exact .inr (.inr (.inl ⟨h, by rw [← h]; ring, heven h⟩))
    · exact .inr (.inr (.inr ⟨h, by nlinarith⟩))
  have hinner : divRound .halfEven n s = pickEven (u * q + a) b s := divRound_eq hn hb hbs
  have houter : divRound .halfEven n (s * u) = pickEven q (s * a + b) (s * u : ℕ) :=
    divRound_eq hwhole (by omega) hsu
  have hfinal : divRound .halfEven (pickEven (u * q + a) b s) u =
      pickEven q (a + (pickEven (u * q + a) b s - (u * q + a))) u := by
    have hstep : pickEven (u * q + a) b s = u * q + a ∨ pickEven (u * q + a) b s = u * q + a + 1 := by
      unfold pickEven
      split_ifs <;> simp
    rcases hstep with h | h
    · rw [h, sub_self, add_zero]
      exact divRound_eq rfl ha hau
    · rw [h, add_sub_cancel_left]
      by_cases hlast : a + 1 < u
      · exact divRound_eq (by ring) (by omega) hlast
      · -- a carry into the larger unit
        have hnext : (u : ℤ) * q + a + 1 = u * (q + 1) + 0 := by
          rw [mul_add]
          omega
        rw [divRound_eq hnext le_rfl (by omega)]
        unfold pickEven
        rw [if_pos (by omega), if_neg (by omega), if_pos (by omega)]
  unfold DoublyRounded
  rw [hquot, hrem, hinner, houter, hfinal]
  exact pickEven_eq_iff hb hbs hwhere

end Lib
