import FundLedger.Database

/-!
# Legs

A `Leg` is one side of a transfer as a caller hands it over, so its direction
is any text and its amount any Python value.  `validateLegs` turns it into a
`ValidLeg`, which carries what validation found out as fields: the direction
is one of the two, the amount is a finite positive decimal, and it is a whole
number of ten-thousandths.  Nothing downstream checks these again.

A `PricedLeg` is a leg once its account, its currency and its value in the
fund's base currency are known.
-/

namespace FundLedger

open Lib

/-- A Python value where a `Decimal` is expected. -/
inductive Amount
  | finite (d : Dec)
  | infinite (negative : Bool)
  | nan
  | notDecimal (typeName : String)
  deriving DecidableEq

/-- How a message shows an amount. -/
def Amount.piece : Amount → Piece
  | .finite d => .dec d
  | .infinite negative => .lit (if negative then "-Infinity" else "Infinity")
  | .nan => .lit "NaN"
  | .notDecimal typeName => .str typeName

/-- One side of a transfer, as requested by a caller.  The two overrides are
what `record_investment` and reversals supply. -/
structure Leg where
  accountId : Uuid
  direction : String
  amount : Amount
  fxRate : Option Amount := none
  baseAmount : Option Amount := none
  deriving DecidableEq

def Direction.ofString? (s : String) : Option Direction :=
  if s = Direction.DEBIT.value then some .DEBIT
  else if s = Direction.CREDIT.value then some .CREDIT
  else none

@[simp] theorem Direction.ofString?_value (d : Direction) :
    Direction.ofString? d.value = some d := by
  cases d <;> decide

theorem Direction.value_injective : Function.Injective Direction.value := by
  intro d d' h
  have hs := congrArg Direction.ofString? h
  simpa using hs

/-- A leg that passed validation. -/
structure ValidLeg where
  accountId : Uuid
  direction : Direction
  amount : Dec
  fxRate : Option Amount
  baseAmount : Option Amount
  amount_pos : 0 < amount.val
  amount_places : ∃ n : ℤ, amount.val = n / (10 : ℚ) ^ 4

/-- A leg with its value in the fund's base currency. -/
structure PricedLeg where
  account : Account
  direction : Direction
  amount : Dec
  currency : String
  fxRate : Option Dec
  baseAmount : Dec
  adjustable : Bool
  deriving DecidableEq

def invalidTransfer (detail : Message) : Exc := .ledger .InvalidTransfer detail

/-- The checks on the amount of one leg.  `quantize` raises
`decimal.InvalidOperation` when the amount does not fit 28 digits. -/
def validateLeg (leg : Leg) : Except Exc ValidLeg :=
  match leg.amount, Direction.ofString? leg.direction with
  | _, none => .error (invalidTransfer [.lit "unknown direction(s): ", .strs [leg.direction]])
  | .notDecimal typeName, _ =>
    .error (invalidTransfer [.lit "amounts must be Decimal, got ", .str typeName])
  | .finite d, some direction =>
    if hpos : 0 < d.val then
      match hq : Dec.quantize 28 4 d with
      | none => .error .decimal
      | some q =>
        if heq : d.eqv q then
          .ok {
            accountId := leg.accountId
            direction
            amount := d
            fxRate := leg.fxRate
            baseAmount := leg.baseAmount
            amount_pos := hpos
            amount_places := ⟨q.coeff, by
              rw [(Dec.eqv_iff d q).mp heq, Dec.val_of_quantize hq]⟩ }
        else
          .error (invalidTransfer [.lit "amounts allow at most 4 decimal places, got ", .dec d])
    else .error (invalidTransfer [.lit "amounts must be positive, got ", .dec d])
  | a, _ => .error (invalidTransfer [.lit "amounts must be positive, got ", a.piece])

/-- Validate the caller's request, before any database work. -/
def validateLegs (legs : List Leg) : Except Exc (List ValidLeg) :=
  let directions := legs.map Leg.direction
  if legs.length < 2 then
    .error (invalidTransfer [.lit "a transfer needs at least two legs"])
  else
    let unknown := directions.filter fun d => (Direction.ofString? d).isNone
    if unknown ≠ [] then
      .error (invalidTransfer [.lit "unknown direction(s): ",
        .strs (unknown.dedup.insertionSort (· ≤ ·))])
    else if ¬(Direction.DEBIT.value ∈ directions ∧ Direction.CREDIT.value ∈ directions) then
      .error (invalidTransfer [.lit "a transfer needs at least one debit and one credit"])
    else legs.mapM validateLeg

/-! ## What validation establishes -/

theorem validateLeg_ok {leg : Leg} {v : ValidLeg} (h : validateLeg leg = .ok v) :
    v.accountId = leg.accountId ∧ leg.direction = v.direction.value ∧
    leg.amount = .finite v.amount ∧ v.fxRate = leg.fxRate ∧ v.baseAmount = leg.baseAmount := by
  have hdir : ∀ {s : String} {d : Direction}, Direction.ofString? s = some d → s = d.value := by
    intro s d hd
    unfold Direction.ofString? at hd
    split_ifs at hd with h1 h2
    · cases hd; exact h1
    · cases hd; exact h2
  unfold validateLeg at h
  split at h
  · cases h
  · cases h
  · rename_i d direction ham hd
    split at h
    · split at h
      · cases h
      · split at h
        · cases h
          exact ⟨rfl, hdir hd, ham, rfl, rfl⟩
        · cases h
    · cases h
  · cases h

/-- A leg of a known direction and a positive number of ten-thousandths passes. -/
theorem validateLeg_of_units {leg : Leg} {direction : Direction} {n : ℤ}
    (hamount : leg.amount = .finite (Dec.ofUnits 4 n)) (hdir : leg.direction = direction.value)
    (hpos : 0 < n) (hn : n.natAbs < 10 ^ 28) : ∃ v, validateLeg leg = .ok v := by
  have hval : 0 < (Dec.ofUnits 4 n).val := (Dec.val_pos_iff _).mpr hpos
  have heqv : (Dec.ofUnits 4 n).eqv (Dec.ofUnits 4 n) := (Dec.eqv_iff _ _).mpr rfl
  have hquantize := @Dec.quantize_ofUnits 28 4 n hn
  unfold validateLeg
  rw [hamount, hdir, Direction.ofString?_value]
  dsimp only
  rw [dif_pos hval]
  split
  · rename_i hnone
    rw [hquantize] at hnone
    cases hnone
  · rename_i q hsome
    obtain rfl : Dec.ofUnits 4 n = q := Option.some.inj (hquantize.symm.trans hsome)
    rw [dif_pos heqv]
    exact ⟨_, rfl⟩

theorem validateLegs_ok {legs : List Leg} {vs : List ValidLeg} (h : validateLegs legs = .ok vs) :
    2 ≤ legs.length ∧ Direction.DEBIT.value ∈ legs.map Leg.direction ∧
    Direction.CREDIT.value ∈ legs.map Leg.direction ∧ legs.mapM validateLeg = .ok vs := by
  unfold validateLegs at h
  dsimp only at h
  split at h
  · cases h
  · rename_i hlen
    split at h
    · cases h
    · split at h
      · cases h
      · rename_i hdirs
        rw [not_not] at hdirs
        exact ⟨by omega, hdirs.1, hdirs.2, h⟩

/-- Validation passes when the shape is right and every leg passes. -/
theorem validateLegs_of_mapM {legs : List Leg} {vs : List ValidLeg} (hlen : 2 ≤ legs.length)
    (hdebit : Direction.DEBIT.value ∈ legs.map Leg.direction)
    (hcredit : Direction.CREDIT.value ∈ legs.map Leg.direction)
    (hmap : legs.mapM validateLeg = .ok vs) : validateLegs legs = .ok vs := by
  have hknown : (legs.map Leg.direction).filter (fun d => (Direction.ofString? d).isNone) = [] := by
    rw [List.filter_eq_nil_iff]
    intro d hd
    obtain ⟨leg, hleg, rfl⟩ := List.mem_map.mp hd
    obtain ⟨v, -, hv⟩ := forall₂_exists_right (mapM_except_ok.mp hmap) hleg
    rw [(validateLeg_ok hv).2.1, Direction.ofString?_value]
    simp
  unfold validateLegs
  dsimp only
  rw [if_neg (by omega), hknown, if_neg (by simp), if_neg (not_not.mpr ⟨hdebit, hcredit⟩), hmap]

/-- What a validated request looks like. -/
theorem validateLegs_spec {legs : List Leg} {vs : List ValidLeg}
    (h : validateLegs legs = .ok vs) :
    2 ≤ vs.length ∧ (∃ v ∈ vs, v.direction = .DEBIT) ∧ (∃ v ∈ vs, v.direction = .CREDIT) := by
  obtain ⟨hlen, hdeb, hcred, hmap⟩ := validateLegs_ok h
  have hall := mapM_except_ok.mp hmap
  have hdir : ∀ d : Direction, d.value ∈ legs.map Leg.direction → ∃ v ∈ vs, v.direction = d := by
    intro d hd
    obtain ⟨leg, hleg, hld⟩ := List.mem_map.mp hd
    obtain ⟨v, hv, hok⟩ := forall₂_exists_right hall hleg
    refine ⟨v, hv, ?_⟩
    have hval := (validateLeg_ok hok).2.1
    rw [hld] at hval
    cases d <;> cases hvd : v.direction <;> simp [hvd, Direction.value] at hval ⊢
  exact ⟨hall.length_eq ▸ hlen, hdir _ hdeb, hdir _ hcred⟩

end FundLedger
