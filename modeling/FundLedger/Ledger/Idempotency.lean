import FundLedger.Ledger.Pricing

/-!
# Exactly-once semantics

`ledger/idempotency.py`: fingerprints of requests, and `runIdempotent`, which
runs `create` at most once for each key.  The metrics and log lines around it
are not modelled.

`create` runs in a transaction block.  When it fails because the key is taken,
or fails with a business error while a transfer with the key exists, the
existing transfer answers instead.
-/

namespace FundLedger

open Lib

def idempotencyConstraint : String := "transfer_idempotency_key_unique"

/-- The number of ten-thousandths in the canonical text of an amount. -/
def moneyUnits (d : Dec) : Except Exc ℤ :=
  Dec.coeff <$> orRaise (Dec.quantize 28 4 d) .decimal

/-- Canonical text for money in fingerprints. -/
def moneyStr : Amount → Except Exc MoneyStr
  | .finite d => .units <$> moneyUnits d
  | .infinite _ => .error .decimal
  | .nan => .ok .nan
  | .notDecimal _ => .error .typeError

/-- `Transfer.objects.filter(idempotency_key=key).first()`. -/
def transferByKey (db : Db) (key : String) : Option Transfer :=
  db.transfers.rows.find? fun t => t.idempotencyKey = key

section

variable {α : Type}

/-- Replay an existing transfer, unless it was made by a different request. -/
def answerWith (key : String) (requestHash : RequestHash) (replay : Transfer → M α)
    (existing : Transfer) : M (α × Bool) :=
  if existing.requestHash ≠ requestHash then
    throw (.ledger .IdempotencyConflict
      [.lit "Idempotency-Key ", .str key, .lit " was already used for a different request"])
  else do
    let result ← replay existing
    return (result, false)

/-- What happens when `create` raised. -/
def recover (key : String) (requestHash : RequestHash) (replay : Transfer → M α) :
    Exc → M (α × Bool)
  | .integrity constraint => do
    if constraint ≠ idempotencyConstraint then throw (.integrity constraint)
    else
      let db ← Tx.read
      let existing ← Tx.lift (orRaise (transferByKey db key) (.doesNotExist "Transfer"))
      answerWith key requestHash replay existing
  | .ledger cls detail => do
    let db ← Tx.read
    match transferByKey db key with
    | none => throw (.ledger cls detail)
    | some existing => answerWith key requestHash replay existing
  | e => throw e

/-- Replay a known key; otherwise create, and replay if a duplicate won the
race. -/
def runOnce (key : String) (requestHash : RequestHash) (create : M α)
    (replay : Transfer → M α) : M (α × Bool) := do
  let db ← Tx.read
  match transferByKey db key with
  | some existing => answerWith key requestHash replay existing
  | none =>
    tryCatch
      (do
        let result ← Tx.atomic create
        return (result, true))
      (recover key requestHash replay)

def runIdempotent (key : String) (requestHash : RequestHash) (create : M α)
    (replay : Transfer → M α) : M (α × Bool) :=
  runOnce key requestHash create replay

/-! ## Finding a transfer by its key -/

theorem transferByKey_some {db : Db} {key : String} {t : Transfer}
    (h : transferByKey db key = some t) : t ∈ db.transfers ∧ t.idempotencyKey = key :=
  ⟨List.mem_of_find?_eq_some h, by simpa using List.find?_some h⟩

theorem transferByKey_none {db : Db} {key : String} :
    transferByKey db key = none ↔ ∀ t ∈ db.transfers, t.idempotencyKey ≠ key := by
  simp [transferByKey, List.find?_eq_none]

/-! ## What a run of `runIdempotent` did -/

theorem answerWith_readOnly {key : String} {requestHash : RequestHash}
    {replay : Transfer → M α} (hr : ∀ t, Tx.ReadOnly (replay t)) (existing : Transfer) :
    Tx.ReadOnly (answerWith key requestHash replay existing) := by
  unfold answerWith
  split
  · exact Tx.readOnly_throw _
  · exact .bind (hr existing) fun _ => Tx.readOnly_pure _

theorem recover_readOnly {key : String} {requestHash : RequestHash}
    {replay : Transfer → M α} (hr : ∀ t, Tx.ReadOnly (replay t)) (e : Exc) :
    Tx.ReadOnly (recover key requestHash replay e) := by
  unfold recover
  split
  · split
    · exact Tx.readOnly_throw _
    · exact .bind Tx.readOnly_read fun _ => .bind (Tx.readOnly_lift _) fun t =>
        answerWith_readOnly hr t
  · refine .bind Tx.readOnly_read fun db => ?_
    split
    · exact Tx.readOnly_throw _
    · exact answerWith_readOnly hr _
  · exact Tx.readOnly_throw _

/-- A run that ended normally either created, inside a transaction block and
with the key unused before, or changed nothing. -/
theorem runIdempotent_ok {key : String} {requestHash : RequestHash} {create : M α}
    {replay : Transfer → M α} (hr : ∀ t, Tx.ReadOnly (replay t)) {db db' : Db}
    {result : α} {created : Bool}
    (h : runIdempotent key requestHash create replay db = (.ok (result, created), db')) :
    (created = true ∧ transferByKey db key = none ∧ create db = (.ok result, db')) ∨
    (created = false ∧ db' = db) := by
  have hanswer : ∀ {t : Transfer} {d d' : Db},
      answerWith key requestHash replay t d = (.ok (result, created), d') →
        created = false ∧ d' = d := by
    intro t d d' ha
    refine ⟨?_, (answerWith_readOnly hr t).of_run ha⟩
    unfold answerWith at ha
    split at ha
    · cases ha
    · obtain ⟨r, d₁, -, hp⟩ := Tx.bind_ok.mp ha
      rw [Tx.pure_eq] at hp
      cases hp.1
      rfl
  rw [runIdempotent, runOnce, Tx.read_bind] at h
  cases hk : transferByKey db key with
  | some existing =>
    rw [hk] at h
    exact .inr (hanswer h)
  | none =>
    rw [hk] at h
    rcases Tx.tryCatch_ok.mp h with hok | ⟨e, d₂, herr, hrec⟩
    · obtain ⟨r, d₂, hc, hp⟩ := Tx.bind_ok.mp hok
      rw [Tx.pure_eq] at hp
      cases hp.1
      rw [hp.2]
      exact .inl ⟨rfl, rfl, Tx.atomic_ok.mp hc⟩
    · right
      have hd₂ : d₂ = db := by
        rcases Tx.bind_error.mp herr with ha | ⟨r, d₃, -, hp⟩
        · exact (Tx.atomic_error.mp ha).2
        · rw [Tx.pure_eq] at hp
          cases hp.1
      subst hd₂
      refine ⟨?_, (recover_readOnly hr e).of_run hrec⟩
      unfold recover at hrec
      split at hrec
      · split at hrec
        · cases hrec
        · rw [Tx.read_bind] at hrec
          obtain ⟨t, d₃, -, hans⟩ := Tx.bind_ok.mp hrec
          exact (hanswer hans).1
      · rw [Tx.read_bind] at hrec
        cases hk₂ : transferByKey d₂ key with
        | none => rw [hk₂] at hrec; cases hrec
        | some existing => rw [hk₂] at hrec; exact (hanswer hrec).1
      · cases hrec

/-- Without a transfer under the key, a business error of `create` is the
error of the run. -/
theorem runIdempotent_of_create_error {key : String} {requestHash : RequestHash} {create : M α}
    {replay : Transfer → M α} {db db₁ : Db} {cls : ErrorClass} {detail : Message}
    (hk : transferByKey db key = none) (h : create db = (.error (.ledger cls detail), db₁)) :
    runIdempotent key requestHash create replay db = (.error (.ledger cls detail), db) := by
  have hatomic : (do
      let result ← Tx.atomic create
      return (result, true) : M (α × Bool)) db = (.error (.ledger cls detail), db) := by
    rw [Tx.bind_apply, Tx.atomic, h]
  rw [runIdempotent, runOnce, Tx.read_bind, hk]
  refine Tx.tryCatch_error.mpr ⟨_, db, hatomic, ?_⟩
  rw [recover, Tx.read_bind, hk]
  rfl

/-- A run that raised changed nothing. -/
theorem runIdempotent_failSafe {key : String} {requestHash : RequestHash} {create : M α}
    {replay : Transfer → M α} (hr : ∀ t, Tx.ReadOnly (replay t)) :
    Tx.FailSafe (runIdempotent key requestHash create replay) := by
  refine .bind Tx.readOnly_read fun db => ?_
  split
  · exact (answerWith_readOnly hr _).failSafe
  · refine .tryCatch ?_ (recover_readOnly hr)
    intro d e d' h
    rcases Tx.bind_error.mp h with ha | ⟨r, d₁, -, hp⟩
    · exact (Tx.atomic_error.mp ha).2
    · rw [Tx.pure_eq] at hp
      cases hp.1

end

end FundLedger
