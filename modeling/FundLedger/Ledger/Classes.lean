import FundLedger.Ledger.Rejections

/-!
# Which errors a call raises

`post_transfer` raises business errors of six classes.  A call under a key
raises what its creation raises, or a conflict; so an error of another class
came from the creation, and the key was unused.
-/

namespace FundLedger

open Lib

/-- The classes of the business errors that posting legs can end in. -/
def postingErrors : List ErrorClass :=
  [.InvalidTransfer, .UnknownAccount, .ClosedPeriod, .MissingFxRate, .UnbalancedTransfer,
    .InsufficientFunds]

section

variable {env : Env} {db : Db} {a : Posting} {legs : List ValidLeg} {cls : ErrorClass}
  {detail : Message}

/-- An override that is not finite is no business error. -/
theorem finite?_class (x : Amount) : x.finite? ≠ .error (.ledger cls detail) := by
  intro h
  cases x <;> cases h

/-- Neither is a base amount. -/
theorem legBase_class (leg : ValidLeg) (rate : Option Dec) :
    legBase leg rate ≠ .error (.ledger cls detail) := by
  intro h
  unfold legBase at h
  cases hbase : leg.baseAmount with
  | some b =>
    rw [hbase] at h
    cases rate with
    | none => exact finite?_class _ (except_map_error.mp h)
    | some r =>
      rcases except_bind_error.mp h with hconverted | ⟨_, -, h⟩
      · cases (orRaise_eq_error.mp (except_map_error.mp hconverted)).2
      · exact finite?_class _ (except_map_error.mp h)
  | none =>
    rw [hbase] at h
    cases rate with
    | none => cases h
    | some r =>
      rcases except_bind_error.mp h with hconverted | ⟨_, -, h⟩
      · cases (orRaise_eq_error.mp (except_map_error.mp hconverted)).2
      · cases h

/-- Pricing a leg can only miss a rate. -/
theorem priceLeg_class {accounts : List Account} {baseCurrency : String} {fxDate : Date}
    {leg : ValidLeg}
    (h : priceLeg db accounts baseCurrency fxDate leg = .error (.ledger cls detail)) :
    cls = .MissingFxRate := by
  rcases except_bind_error.mp h with hfound | ⟨account, -, h⟩
  · cases (orRaise_eq_error.mp hfound).2
  rcases except_bind_error.mp h with hrate | ⟨rate, -, h⟩
  · unfold legRate at hrate
    split at hrate
    · cases hrate
    · split at hrate
      · exact absurd (except_map_error.mp hrate) (finite?_class _)
      · have hpublished := except_map_error.mp hrate
        unfold fxRateFor at hpublished
        dsimp only at hpublished
        split at hpublished
        · cases hpublished
        · cases hpublished
          rfl
  rcases except_bind_error.mp h with hbase | ⟨base, -, h⟩
  · exact absurd hbase (legBase_class leg rate)
  · cases h

/-- **What the checks of a posting raise.** -/
theorem preparePosting_class (h : preparePosting env db a legs = .error (.ledger cls detail)) :
    cls ∈ postingErrors := by
  unfold postingErrors
  rcases except_bind_error.mp h with hlock | ⟨accounts, -, h⟩
  · unfold lockAccounts at hlock
    dsimp only at hlock
    split at hlock
    · cases hlock
      simp
    · cases hlock
  rcases except_bind_error.mp h with hcontext | ⟨_, -, h⟩
  · unfold validateContext at hcontext
    dsimp only at hcontext
    split at hcontext
    · cases hcontext
      simp
    · split at hcontext
      · cases hcontext
        simp
      · cases hcontext
  rcases except_bind_error.mp h with hbase | ⟨base, -, h⟩
  · unfold baseCurrencyOf at hbase
    cases (orRaise_eq_error.mp (except_map_error.mp hbase)).2
  rcases except_bind_error.mp h with hprice | ⟨priced, -, h⟩
  · unfold priceLegs at hprice
    obtain ⟨-, leg, -, -, -, hleg⟩ := mapM_except_error.mp (except_map_error.mp hprice)
    rw [priceLeg_class hleg]
    simp
  rcases except_bind_error.mp h with hbalance | ⟨_, -, h⟩
  · unfold checkBalanced at hbalance
    cases (require_eq_error.mp hbalance).2
    simp
  rcases except_bind_error.mp h with hfunds | ⟨_, -, h⟩
  · obtain ⟨detail', he⟩ := checkSufficientFunds_class hfunds
    cases he
    simp
  · cases h

/-- **What posting raises.** -/
theorem postTransfer_class {db' : Db}
    (h : postTransfer env a db = (.error (.ledger cls detail), db')) : cls ∈ postingErrors := by
  rw [postTransfer_eq] at h
  rcases Tx.bind_error.mp h with hvalid | ⟨legs, db₁, -, h⟩
  · obtain ⟨hvalid, -⟩ := Tx.lift_eq.mp hvalid
    rcases validateLegs_error hvalid.symm with ⟨detail', he⟩ | ⟨he, -⟩
    · cases he
      simp [postingErrors]
    · cases he
  obtain ⟨⟨db₂, h⟩, -⟩ := Tx.atomic_error.mp h
  rw [Tx.read_bind] at h
  rcases Tx.bind_error.mp h with hprep | ⟨priced, db₃, -, hwrite⟩
  · exact preparePosting_class (Tx.lift_eq.mp hprep).1.symm
  · exact absurd rfl (writePosting_error hwrite cls detail)

/-- **A business error that is no conflict** comes from the creation, and the key
was unused. -/
theorem runIdempotent_error {α : Type} {key : String} {requestHash : RequestHash} {create : M α}
    {replay : Transfer → M α} {db' : Db} (hcls : cls ≠ .IdempotencyConflict)
    (hreplay : ∀ t d d', replay t d ≠ (.error (.ledger cls detail), d'))
    (h : runIdempotent key requestHash create replay db = (.error (.ledger cls detail), db')) :
    transferByKey db key = none ∧ ∃ db₁, create db = (.error (.ledger cls detail), db₁) := by
  have hanswer : ∀ {t d d'}, answerWith key requestHash replay t d ≠
      (.error (.ledger cls detail), d') := by
    intro t d d' hans
    unfold answerWith at hans
    split at hans
    · obtain ⟨hthrown, -⟩ := Tx.throw_eq.mp hans
      cases hthrown
      exact hcls rfl
    · rcases Tx.bind_error.mp hans with hrep | ⟨r, d₁, -, hpure⟩
      · exact hreplay t d d' hrep
      · cases (Tx.pure_eq.mp hpure).1
  rw [runIdempotent, runOnce, Tx.read_bind] at h
  cases hkey : transferByKey db key with
  | some existing =>
    rw [hkey] at h
    exact absurd h hanswer
  | none =>
    rw [hkey] at h
    refine ⟨rfl, ?_⟩
    obtain ⟨e, s, hcreate, hrecover⟩ := Tx.tryCatch_error.mp h
    rcases Tx.bind_error.mp hcreate with hatomic | ⟨r, d₁, -, hpure⟩
    · obtain ⟨⟨db₁, hcreated⟩, rfl⟩ := Tx.atomic_error.mp hatomic
      refine ⟨db₁, ?_⟩
      unfold recover at hrecover
      split at hrecover
      · split at hrecover
        · cases (Tx.throw_eq.mp hrecover).1
        · rw [Tx.read_bind, hkey] at hrecover
          cases hrecover
      · rw [Tx.read_bind, hkey] at hrecover
        obtain ⟨hthrown, -⟩ := Tx.throw_eq.mp hrecover
        rw [hcreated, Except.error.inj hthrown]
      · obtain ⟨hthrown, -⟩ := Tx.throw_eq.mp hrecover
        rw [hcreated, Except.error.inj hthrown]
    · cases (Tx.pure_eq.mp hpure).1

end

end FundLedger
