import FundLedger.Operations.Factories
import FundLedger.Operations.Replay
import FundLedger.Operations.Reversals

/-!
# Retrying an entry point

The six mutating entry points with their bodies, and what becomes of a second
call with the same key and the same body.
-/

namespace FundLedger

open Lib

/-! ## Reversals -/

/-- The period that a reversal of a transfer on a day is posted into. -/
def reversalPeriod (db : Db) (transferId : Uuid) (day : Date) : Except Exc Uuid := do
  let original ← orRaise (db.transfers.get? transferId) (.doesNotExist "Transfer")
  let fund ← fundOfTransfer db original
  let period ← periodFor db fund day
  return period.id

/-- The handler of a reversal raises. -/
private theorem raised_ok {α : Type} {original : Uuid} {e : Exc} {db db' : Db} {r : α} :
    ¬(if e = .integrity reversesConstraint then
        throw (.ledger .AlreadyReversed [.lit "transfer ", .uuid original,
          .lit " was already reversed"])
      else throw e : M α) db = (.ok r, db') := by
  intro h
  split at h <;> cases h

/-- A reversal that created something posted one transfer, which is now the
reversal of the original. -/
theorem reverseTransfer_created {env : Env} {transferId : Uuid} {key : String} {period : Period}
    {createdBy : String} {db db₁ : Db} {t : Transfer}
    (h : reverseTransfer env transferId key period createdBy db = (.ok (t, true), db₁)) :
    ∃ original, db.transfers.get? transferId = some original ∧
      original.transferType ≠ .REVERSAL ∧ t.idempotencyKey = key ∧
      t.requestHash = .reversal original.id period.id ∧ transferByKey db₁ key = some t ∧
      reversalOf db₁ original.id = some t := by
  obtain ⟨original, hget, hkind, hnone, rfl, es, hposted⟩ := reverseTransfer_posted h
  refine ⟨original, hget, hkind, rfl, rfl, hposted.transferByKey_new, ?_⟩
  unfold reversalOf at hnone ⊢
  rw [hposted.transfers_eq, List.find?_append, hnone]
  simp [transferFor, reversalPosting]

/-- With the reversal in place, a repetition is decided by the period. -/
theorem reverseTransfer_again {env : Env} {transferId : Uuid} {key : String} {q : Period}
    {createdBy : String} {db : Db} {original t : Transfer} {p : Uuid}
    (horiginal : db.transfers.get? transferId = some original)
    (hkind : original.transferType ≠ .REVERSAL) (hkey : t.idempotencyKey = key)
    (hhash : t.requestHash = .reversal original.id p) (hk : transferByKey db key = some t)
    (hr : reversalOf db original.id = some t) :
    reverseTransfer env transferId key q createdBy db = (.ok (t, false), db) ↔ q.id = p := by
  have hrest : reverseTransfer env transferId key q createdBy db =
      (tryCatch (runIdempotent key (.reversal original.id q.id)
        (postTransfer env {
          idempotencyKey := key
          legs := (entriesById db original.id).map flippedLeg
          period := q
          transferType := .REVERSAL
          description := [.lit "Reversal of ", .uuid original.id]
          reverses := some original.id
          requestHash := .reversal original.id q.id
          createdBy }) pure) fun e =>
        if e = .integrity reversesConstraint then
          throw (.ledger .AlreadyReversed [.lit "transfer ", .uuid original.id,
            .lit " was already reversed"])
        else throw e : M (Transfer × Bool)) db := by
    have hok : ∀ {c : Prop} [Decidable c] {e : Exc}, c → require c e = .ok () :=
      fun h => require_eq_ok.mpr h
    rw [reverseTransfer, Tx.read_bind, Tx.bind_apply, Tx.lift, horiginal]
    dsimp only [orRaise]
    rw [Tx.bind_apply, Tx.lift, hok hkind]
    dsimp only
    rw [hr, Tx.bind_apply, Tx.lift]
    dsimp only
    rw [hok hkey]
  rw [hrest]
  constructor
  · intro h
    rcases Tx.tryCatch_ok.mp h with hrun | ⟨e, s, -, hraised⟩
    · by_contra hne
      have hh : t.requestHash ≠ .reversal original.id q.id := by
        rw [hhash]
        simpa using fun h => hne h.symm
      obtain ⟨e, herr, -⟩ := runIdempotent_conflict hk hh
      rw [herr] at hrun
      cases hrun
    · exact absurd hraised raised_ok
  · rintro rfl
    refine Tx.tryCatch_ok.mpr (.inl ?_)
    rw [runIdempotent_known hk hhash]
    rfl

theorem reversalPeriod_eq {db : Db} {transferId fund : Uuid} {original : Transfer}
    (horiginal : db.transfers.get? transferId = some original)
    (hfund : fundOfTransfer db original = .ok fund) (day : Date) :
    reversalPeriod db transferId day = Period.id <$> periodFor db fund day := by
  rw [reversalPeriod, horiginal]
  change (fundOfTransfer db original >>= _) = _
  rw [hfund]
  rfl

theorem postReversal_eq {env : Env} {transferId fund : Uuid} {key : String}
    {onDate : Option Date} {actor : String} {db : Db} {original : Transfer}
    (horiginal : db.transfers.get? transferId = some original)
    (hfund : fundOfTransfer db original = .ok fund) :
    postReversal env transferId key onDate actor db =
      (Tx.lift (periodFor db fund (reversalDate env onDate)) >>= fun period =>
        reverseTransfer env original.id key period actor) db := by
  rw [postReversal, Tx.read_bind, Tx.bind_apply, Tx.lift, horiginal]
  dsimp only [orRaise]
  rw [Tx.bind_apply, Tx.lift, hfund]

theorem Extends.fundOfTransfer {db db' : Db} (h : Extends db db') {t : Transfer} {fund : Uuid}
    (hfund : FundLedger.fundOfTransfer db t = .ok fund) :
    FundLedger.fundOfTransfer db' t = .ok fund := by
  unfold FundLedger.fundOfTransfer at hfund ⊢
  cases hp : db.periods.get? t.period with
  | none =>
    rw [hp] at hfund
    cases hfund
  | some p =>
    rw [hp] at hfund
    cases hfund
    obtain ⟨q, hq, hqf⟩ := h.getPeriod hp
    rw [hq, ← hqf]
    rfl

/-- **A reversal is replayed exactly when the day of the second call falls into
the same period.** -/
theorem postReversal_again {env env' : Env} {transferId : Uuid} {key : String}
    {onDate : Option Date} {actor : String} {db db₁ db₂ : Db} {t : Transfer}
    (h : postReversal env transferId key onDate actor db = (.ok (t, true), db₁))
    (hx : Extends db₁ db₂) :
    postReversal env' transferId key onDate actor db₂ = (.ok (t, false), db₂) ↔
      reversalPeriod db₂ transferId (reversalDate env' onDate) =
        reversalPeriod db transferId (reversalDate env onDate) := by
  rw [postReversal, Tx.read_bind] at h
  obtain ⟨original, d, hlift, h₁⟩ := Tx.bind_ok.mp h
  obtain ⟨horiginal, hd⟩ := Tx.lift_eq.mp hlift
  subst hd
  obtain ⟨fund, d₁, hlift₁, h₂⟩ := Tx.bind_ok.mp h₁
  obtain ⟨hfund, hd₁⟩ := Tx.lift_eq.mp hlift₁
  subst hd₁
  obtain ⟨period, d₂, hlift₂, hrun⟩ := Tx.bind_ok.mp h₂
  obtain ⟨hperiod, hd₂⟩ := Tx.lift_eq.mp hlift₂
  subst hd₂
  have hget := orRaise_eq_ok.mp horiginal.symm
  obtain rfl : original.id = transferId := (Table.get?_eq_some.mp hget).2
  have hx₀ : Extends d₂ db₂ := by
    have hmove : Changes Business d₂ (reverseTransfer env original.id key period actor d₂).2 :=
      reverseTransfer_changes (holds_periodFor hperiod.symm)
    rw [hrun] at hmove
    exact hmove.later.extends.trans hx
  obtain ⟨original', hget', hkind, hkey, hhash, hk, hr⟩ := reverseTransfer_created hrun
  obtain rfl : original' = original := Option.some.inj (hget'.symm.trans hget)
  have hget₂ := hx₀.getTransfer hget
  have hfund₂ := hx₀.fundOfTransfer hfund.symm
  rw [postReversal_eq hget₂ hfund₂, reversalPeriod_eq hget₂ hfund₂,
    reversalPeriod_eq hget hfund.symm, ← hperiod]
  have hagain : ∀ q : Period, reverseTransfer env' original'.id key q actor db₂ =
      (.ok (t, false), db₂) ↔ q.id = period.id := fun q =>
    reverseTransfer_again hget₂ hkind hkey hhash (hx.transferByKey hk) (hx.reversalOf hr)
  rw [Tx.bind_apply, Tx.lift]
  cases hq : periodFor db₂ fund (reversalDate env' onDate) with
  | error e => exact iff_of_false (by rintro ⟨⟩) (by rintro ⟨⟩)
  | ok q =>
    refine (hagain q).trans ⟨fun hqp => ?_, fun hqp => ?_⟩
    · change Except.ok q.id = Except.ok period.id
      rw [hqp]
    · exact Except.ok.inj hqp

/-! ## The entry points -/

/-- What an entry point returns. -/
inductive Document
  | capitalCall (call : CapitalCall)
  | distribution (distribution : Distribution)
  | transfer (transfer : Transfer)
  deriving DecidableEq

/-- An entry point with its key and its body. -/
inductive EntryPoint
  | createCapitalCall (fundId : Uuid) (key : String) (totalAmount : Amount)
      (noticeDate dueDate : Date) (createdBy : String)
  | createDistribution (fundId : Uuid) (key : String) (totalAmount : Amount)
      (paymentDate : Date) (classification : DistributionClassification) (createdBy : String)
  | recordInvestment (fundId : Uuid) (key : String) (amount : Amount) (currency : String)
      (onDate : Date)
  | chargeFee (fundId : Uuid) (key : String) (amount : Amount) (onDate : Date)
  | recordValuation (fundId : Uuid) (key : String) (change : Amount) (onDate : Date)
  | postReversal (transferId : Uuid) (key : String) (onDate : Option Date) (actor : String)

/-- `(result, created)` with the result as a document. -/
def returned {α : Type} (document : α → Document) (m : M (α × Bool)) : M (Document × Bool) := do
  let (result, created) ← m
  return (document result, created)

def EntryPoint.run (env : Env) : EntryPoint → M (Document × Bool)
  | .createCapitalCall fundId key totalAmount noticeDate dueDate createdBy =>
    returned .capitalCall
      (FundLedger.createCapitalCall env fundId key totalAmount noticeDate dueDate createdBy)
  | .createDistribution fundId key totalAmount paymentDate classification createdBy =>
    returned .distribution
      (FundLedger.createDistribution env fundId key totalAmount paymentDate classification
        createdBy)
  | .recordInvestment fundId key amount currency onDate =>
    returned .transfer (FundLedger.recordInvestment env fundId key amount currency onDate)
  | .chargeFee fundId key amount onDate =>
    returned .transfer (FundLedger.chargeFee env fundId key amount onDate)
  | .recordValuation fundId key change onDate =>
    returned .transfer (FundLedger.recordValuation env fundId key change onDate)
  | .postReversal transferId key onDate actor =>
    returned .transfer (FundLedger.postReversal env transferId key onDate actor)

/-- The condition for a repetition in `env'` and `db'` of a call in `env` and
`db`.  A purchase is paid in the base currency or costs as much at the rates
published by now as it did; a reversal names its day or comes in the same
period. -/
def EntryPoint.ReplaysAt (env : Env) (db : Db) (env' : Env) (db' : Db) : EntryPoint → Prop
  | .recordInvestment fundId _ amount currency onDate =>
    ∀ fund, getFund db fundId = .ok fund → currency = fund.baseCurrency ∨
      purchaseCost db' fund.baseCurrency amount currency onDate =
        purchaseCost db fund.baseCurrency amount currency onDate
  | .postReversal transferId _ onDate _ =>
    reversalPeriod db' transferId (reversalDate env' onDate) =
      reversalPeriod db transferId (reversalDate env onDate)
  | _ => True

theorem returned_ok {α : Type} {document : α → Document} (hinj : Function.Injective document)
    {m : M (α × Bool)} {db db' : Db} {d : α} {created : Bool} :
    returned document m db = (.ok (document d, created), db') ↔
      m db = (.ok (d, created), db') := by
  rw [returned, Tx.bind_ok]
  constructor
  · rintro ⟨⟨r, b⟩, d₁, hm, hp⟩
    obtain ⟨heq, rfl⟩ := Tx.pure_eq.mp hp
    simp only [Except.ok.injEq, Prod.mk.injEq] at heq
    rw [hm, hinj heq.1, heq.2]
  · intro hm
    exact ⟨(d, created), db', hm, Tx.pure_eq.mpr ⟨rfl, rfl⟩⟩

theorem returned_of_ok {α : Type} {document : α → Document} {m : M (α × Bool)} {db db' : Db}
    {doc : Document} {created : Bool} (h : returned document m db = (.ok (doc, created), db')) :
    ∃ d, doc = document d ∧ m db = (.ok (d, created), db') := by
  obtain ⟨⟨r, b⟩, d₁, hm, hp⟩ := Tx.bind_ok.mp h
  obtain ⟨heq, rfl⟩ := Tx.pure_eq.mp hp
  cases heq
  exact ⟨r, rfl, hm⟩

/-- **When a retry replays.**  A call that created something is repeated in any
later state: it returns the same document with `created = False` and changes
nothing exactly when the condition holds. -/
theorem retry_replays_iff {env env' : Env} {ep : EntryPoint} {db db₁ db₂ : Db} {doc : Document}
    (h : ep.run env db = (.ok (doc, true), db₁)) (later : Later db₁ db₂) :
    ep.run env' db₂ = (.ok (doc, false), db₂) ↔ ep.ReplaysAt env db env' db₂ := by
  have hx := later.extends
  cases ep with
  | createCapitalCall =>
    obtain ⟨d, rfl, hd⟩ := returned_of_ok h
    exact iff_of_true ((returned_ok fun _ _ => Document.capitalCall.inj).mpr
      (createCapitalCall_again hd hx)) trivial
  | createDistribution =>
    obtain ⟨d, rfl, hd⟩ := returned_of_ok h
    exact iff_of_true ((returned_ok fun _ _ => Document.distribution.inj).mpr
      (createDistribution_again hd hx)) trivial
  | recordInvestment =>
    obtain ⟨d, rfl, hd⟩ := returned_of_ok h
    exact (returned_ok fun _ _ => Document.transfer.inj).trans (recordInvestment_again hd hx)
  | chargeFee =>
    obtain ⟨d, rfl, hd⟩ := returned_of_ok h
    exact iff_of_true ((returned_ok fun _ _ => Document.transfer.inj).mpr
      (chargeFee_again hd hx)) trivial
  | recordValuation =>
    obtain ⟨d, rfl, hd⟩ := returned_of_ok h
    exact iff_of_true ((returned_ok fun _ _ => Document.transfer.inj).mpr
      (recordValuation_again hd hx)) trivial
  | postReversal =>
    obtain ⟨d, rfl, hd⟩ := returned_of_ok h
    exact (returned_ok fun _ _ => Document.transfer.inj).trans (postReversal_again hd hx)

/-- A call of 100 has been posted, as transfer 1001. -/
def afterCallOf100 : Db := afterCalls buildPeFund [callOf100]

/-- A fee, some time later. -/
def feeOf10 : Call where
  env := envOf 4 200
  op := .chargeFee 1 "fee" (.finite ⟨1000, -2⟩) 190

/-- A reversal as of day 40, and the same request after a fee and on day 200. -/
def reversalAt40 : EntryPoint := .postReversal 1001 "rev" (some 40) "ops"

theorem retry_replays_reversalAt40 : ∃ doc, (reversalAt40.run (envOf 2) afterCallOf100).1 =
      .ok (doc, true) ∧
    reversalAt40.run (envOf 3 200)
        (afterCalls (reversalAt40.run (envOf 2) afterCallOf100).2 [feeOf10]) =
      (.ok (doc, false), afterCalls (reversalAt40.run (envOf 2) afterCallOf100).2 [feeOf10]) := by
  obtain ⟨doc, hdoc⟩ : ∃ doc, reversalAt40.run (envOf 2) afterCallOf100 =
      (.ok (doc, true), (reversalAt40.run (envOf 2) afterCallOf100).2) :=
    created_of_snd (by decide +kernel)
  refine ⟨doc, congrArg Prod.fst hdoc, (retry_replays_iff hdoc (later_afterCalls _ _)).mpr ?_⟩
  change reversalPeriod _ 1001 40 = reversalPeriod _ 1001 40
  decide +kernel

/-- The same request without its day. -/
def reversalToday : EntryPoint := .postReversal 1001 "rev" none "ops"

def investmentOf10Usd : EntryPoint := .recordInvestment 1 "inv" (.finite ⟨1001, -2⟩) "USD" 32

def conflictOn (key : String) : Exc :=
  .ledger .IdempotencyConflict
    [.lit "Idempotency-Key ", .str key, .lit " was already used for a different request"]

/-- **Two retries that raise.**  A reversal without a day, repeated in the next
period; and a purchase in dollars, repeated after another rate has been
published. -/
theorem retry_raises :
    (Prod.snd <$> (reversalToday.run (envOf 2) afterCallOf100).1 = .ok true ∧
      (reversalToday.run (envOf 3 200) (reversalToday.run (envOf 2) afterCallOf100).2).1 =
        .error (conflictOn "rev")) ∧
    (Prod.snd <$> (investmentOf10Usd.run (envOf 2) afterCallOf100).1 = .ok true ∧
      (publish rateOf80 (investmentOf10Usd.run (envOf 2) afterCallOf100).2).1 = .ok () ∧
      (investmentOf10Usd.run (envOf 3)
          (publish rateOf80 (investmentOf10Usd.run (envOf 2) afterCallOf100).2).2).1 =
        .error (conflictOn "inv")) := by
  refine ⟨⟨?_, ?_⟩, ?_, ?_, ?_⟩ <;> decide +kernel

end FundLedger
