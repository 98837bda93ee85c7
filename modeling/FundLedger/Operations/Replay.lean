import FundLedger.Api.Reversal
import FundLedger.Operations.FailSafe
import FundLedger.Operations.Later

/-!
# Repeating a request

The promise of an idempotency key is that a request which created something
can be repeated: the repetition returns the same document, says that it is not
new, and changes nothing.  The second call may come in any later state.

A repetition finds the transfer of the first call under the key and compares
fingerprints, so everything depends on whether the second call computes the
same fingerprint.  It does for capital calls, distributions, fees and
valuations.  A purchase in a foreign currency has its cost in the fingerprint,
and the cost is worked out from the rates published by then.  A reversal
without a date has the period of the day in it.  `replays_iff` says exactly
when a repetition replays.
-/

namespace FundLedger

open Lib

/-! ## A key that is known -/

/-- With a known key and the same fingerprint, the stored transfer answers. -/
theorem runIdempotent_known {α : Type} {key : String} {requestHash : RequestHash}
    {create : M α} {replay : Transfer → M α} {db : Db} {t : Transfer}
    (hk : transferByKey db key = some t) (hh : t.requestHash = requestHash) :
    runIdempotent key requestHash create replay db =
      (replay t >>= fun r => pure (r, false) : M (α × Bool)) db := by
  rw [runIdempotent, runOnce, Tx.read_bind, hk]
  simp only [answerWith, hh, ne_eq, not_true_eq_false, if_false]

/-- With a known key and another fingerprint, the call is a conflict. -/
theorem runIdempotent_conflict {α : Type} {key : String} {requestHash : RequestHash}
    {create : M α} {replay : Transfer → M α} {db : Db} {t : Transfer}
    (hk : transferByKey db key = some t) (hh : t.requestHash ≠ requestHash) :
    ∃ e, runIdempotent key requestHash create replay db = (.error e, db) ∧
      e ≠ .integrity reversesConstraint := by
  rw [runIdempotent, runOnce, Tx.read_bind, hk]
  simp only [answerWith, hh, ne_eq, not_false_eq_true, if_true]
  exact ⟨_, rfl, by simp⟩

/-- After a posting, its transfer is the one with the key. -/
theorem Posted.transferByKey_new {env : Env} {a : Posting} {db db' : Db} {es : List Entry}
    (h : Posted env a db db' es) :
    transferByKey db' a.idempotencyKey = some (transferFor env a) := by
  have hnone : transferByKey db a.idempotencyKey = none := transferByKey_none.mpr h.key_fresh
  unfold transferByKey at hnone ⊢
  rw [h.transfers_eq, List.find?_append, hnone]
  simp [transferFor]

/-! ## Postings under a key -/

/-- The fingerprint of a posting, once its legs have been validated. -/
def fingerprintOf (a : Posting) : Except Exc RequestHash := do
  let legs ← validateLegs a.legs
  transferFingerprint a legs

theorem postTransferIdempotent_of_fingerprint {env : Env} {a : Posting} {db : Db}
    {requestHash : RequestHash} (h : fingerprintOf a = .ok requestHash) :
    postTransferIdempotent env a db = runIdempotent a.idempotencyKey requestHash
      (postTransfer env { a with reverses := none, requestHash }) pure db := by
  obtain ⟨legs, hv, hf⟩ := except_bind_ok.mp h
  rw [postTransferIdempotent, Tx.bind_apply, Tx.lift, hv]
  dsimp only
  rw [Tx.bind_apply, Tx.lift, hf]

theorem postTransferIdempotent_fingerprint {env : Env} {a : Posting} {db db' : Db}
    {r : Transfer × Bool} (h : postTransferIdempotent env a db = (.ok r, db')) :
    ∃ requestHash, fingerprintOf a = .ok requestHash := by
  obtain ⟨legs, db₁, hlift, h₁⟩ := Tx.bind_ok.mp h
  obtain ⟨requestHash, db₂, hlift₂, -⟩ := Tx.bind_ok.mp h₁
  exact ⟨requestHash, except_bind_ok.mpr
    ⟨legs, (Tx.lift_eq.mp hlift).1.symm, (Tx.lift_eq.mp hlift₂).1.symm⟩⟩

/-- What a call that created leaves: its transfer, under its key, with its
fingerprint. -/
theorem postTransferIdempotent_created {env : Env} {a : Posting} {db db' : Db} {t : Transfer}
    (h : postTransferIdempotent env a db = (.ok (t, true), db')) :
    fingerprintOf a = .ok t.requestHash ∧ transferByKey db' a.idempotencyKey = some t := by
  obtain ⟨requestHash, hf⟩ := postTransferIdempotent_fingerprint h
  rw [postTransferIdempotent_of_fingerprint hf] at h
  obtain ⟨-, -, hcreate⟩ | ⟨hfalse, -⟩ := runIdempotent_ok (fun _ => Tx.readOnly_pure _) h
  · obtain ⟨rfl, es, hposted⟩ := postTransfer_ok hcreate
    exact ⟨hf, hposted.transferByKey_new⟩
  · cases hfalse

/-- **A posting is replayed exactly when its fingerprint is the same.** -/
theorem postTransferIdempotent_again {env env' : Env} {a b : Posting} {db db₁ db₂ : Db}
    {t : Transfer} (h : postTransferIdempotent env a db = (.ok (t, true), db₁))
    (hx : Extends db₁ db₂) (hkey : b.idempotencyKey = a.idempotencyKey) :
    postTransferIdempotent env' b db₂ = (.ok (t, false), db₂) ↔
      fingerprintOf b = fingerprintOf a := by
  obtain ⟨hfa, hk⟩ := postTransferIdempotent_created h
  have hk₂ : transferByKey db₂ b.idempotencyKey = some t := hkey ▸ hx.transferByKey hk
  constructor
  · intro hrun
    obtain ⟨requestHash, hfb⟩ := postTransferIdempotent_fingerprint hrun
    rw [postTransferIdempotent_of_fingerprint hfb] at hrun
    by_cases hh : t.requestHash = requestHash
    · rw [hfb, hfa, hh]
    · obtain ⟨e, herr, -⟩ := runIdempotent_conflict hk₂ hh
      rw [herr] at hrun
      cases hrun
  · intro hfb
    rw [hfa] at hfb
    rw [postTransferIdempotent_of_fingerprint hfb, runIdempotent_known hk₂ rfl]
    rfl

/-! ## Fingerprints that do not change -/

/-- Two legs that differ in the overrides at most. -/
def SameCore (l m : Leg) : Prop :=
  l.accountId = m.accountId ∧ l.direction = m.direction ∧ l.amount = m.amount

theorem validateLeg_sameCore {l m : Leg} (h : SameCore l m) {v : ValidLeg}
    (hv : validateLeg l = .ok v) : ∃ w, validateLeg m = .ok w ∧ w.accountId = v.accountId ∧
      w.direction = v.direction ∧ w.amount = v.amount := by
  obtain ⟨ha, hd, hm⟩ := h
  obtain ⟨hva, -⟩ := validateLeg_ok hv
  refine ⟨{ v with fxRate := m.fxRate, baseAmount := m.baseAmount }, ?_, rfl, rfl, rfl⟩
  unfold validateLeg at hv ⊢
  rw [← hd, ← hm, ← ha]
  split at hv
  · cases hv
  · cases hv
  · split at hv
    · rename_i hpos
      split at hv
      · cases hv
      · split at hv
        · rename_i heq
          cases hv
          rw [dif_pos hpos, dif_pos heq]
        · cases hv
    · cases hv
  · cases hv

private theorem mapM_sameCore {ls ms : List Leg} (h : List.Forall₂ SameCore ls ms) :
    ∀ {vs : List ValidLeg}, List.Forall₂ (fun l v => validateLeg l = .ok v) ls vs →
      ∃ ws, List.Forall₂ (fun m w => validateLeg m = .ok w) ms ws ∧
        List.Forall₂ (fun w v => w.accountId = v.accountId ∧ w.direction = v.direction ∧
          w.amount = v.amount) ws vs := by
  induction h with
  | nil =>
    rintro vs ⟨⟩
    exact ⟨[], .nil, .nil⟩
  | cons hcore _ ih =>
    rintro vs (_ | ⟨hv, hvs⟩)
    obtain ⟨w, hw, hwv⟩ := validateLeg_sameCore hcore hv
    obtain ⟨ws, hws, hwvs⟩ := ih hvs
    exact ⟨w :: ws, .cons hw hws, .cons hwv hwvs⟩

theorem validateLegs_sameCore {ls ms : List Leg} (h : List.Forall₂ SameCore ls ms)
    {vs : List ValidLeg} (hv : validateLegs ls = .ok vs) :
    ∃ ws, validateLegs ms = .ok ws ∧ List.Forall₂ (fun w v => w.accountId = v.accountId ∧
      w.direction = v.direction ∧ w.amount = v.amount) ws vs := by
  obtain ⟨hlen, hdebit, hcredit, hmap⟩ := validateLegs_ok hv
  have hdirs : ls.map Leg.direction = ms.map Leg.direction := by
    rw [← List.forall₂_eq_eq_eq, List.forall₂_map_left_iff, List.forall₂_map_right_iff]
    exact h.imp fun _ _ hc => hc.2.1
  obtain ⟨ws, hws, hwvs⟩ := mapM_sameCore h (mapM_except_ok.mp hmap)
  refine ⟨ws, validateLegs_of_mapM ?_ ?_ ?_ (mapM_except_ok.mpr hws), hwvs⟩
  · exact h.length_eq ▸ hlen
  · exact hdirs ▸ hdebit
  · exact hdirs ▸ hcredit

theorem mapM_congr_forall₂ {α β γ ε : Type} {f : α → Except ε γ} {g : β → Except ε γ}
    {l : List α} {m : List β} (h : List.Forall₂ (fun a b => f a = g b) l m) :
    l.mapM f = m.mapM g := by
  induction h with
  | nil => rfl
  | cons hab _ ih => rw [List.mapM_cons, List.mapM_cons, hab, ih]

/-- The fingerprint is made of the type, the period and the cores of the
legs. -/
theorem fingerprintOf_congr {a b : Posting} {requestHash : RequestHash}
    (ha : fingerprintOf a = .ok requestHash) (htype : b.transferType = a.transferType)
    (hperiod : b.period.id = a.period.id) (hlegs : List.Forall₂ SameCore a.legs b.legs) :
    fingerprintOf b = .ok requestHash := by
  obtain ⟨vs, hv, hf⟩ := except_bind_ok.mp ha
  obtain ⟨ws, hw, hwv⟩ := validateLegs_sameCore hlegs hv
  refine except_bind_ok.mpr ⟨ws, hw, ?_⟩
  have htriples : ws.mapM legFingerprint = vs.mapM legFingerprint := by
    refine mapM_congr_forall₂ (hwv.imp fun w v hc => ?_)
    rw [legFingerprint, legFingerprint, hc.1, hc.2.1, hc.2.2]
  rw [← hf, transferFingerprint, transferFingerprint, htriples, htype, hperiod]

theorem forall₂_sameCore_refl (legs : List Leg) : List.Forall₂ SameCore legs legs :=
  List.forall₂_same.mpr fun _ _ => ⟨rfl, rfl, rfl⟩

/-! ## Documents, fees and valuations -/

/-- **A capital call is always replayed.** -/
theorem createCapitalCall_again {env env' : Env} {fundId : Uuid} {key : String} {total : Amount}
    {noticeDate dueDate : Date} {createdBy : String} {db db₁ db₂ : Db} {c : CapitalCall}
    (h : createCapitalCall env fundId key total noticeDate dueDate createdBy db =
      (.ok (c, true), db₁)) (hx : Extends db₁ db₂) :
    createCapitalCall env' fundId key total noticeDate dueDate createdBy db₂ =
      (.ok (c, false), db₂) := by
  obtain ⟨units, db₀, hlift, h₁⟩ := Tx.bind_ok.mp h
  obtain ⟨hunits, hdb⟩ := Tx.lift_eq.mp hlift
  subst hdb
  obtain ⟨-, -, hcreate⟩ | ⟨hfalse, -⟩ := runIdempotent_ok (fun t =>
    .bind Tx.readOnly_read fun _ => Tx.readOnly_lift _) h₁
  · obtain ⟨plan, es, dbₘ, amount, -, hposted, -, rfl, hins⟩ := postCapitalCall_ok hcreate
    obtain ⟨-, hfresh, calls, hcalls, rfl⟩ := insertCapitalCall_ok hins
    have hk : transferByKey db₂ key =
        some (transferFor env (capitalCallPosting plan key _ createdBy)) :=
      hx.transferByKey hposted.transferByKey_new
    have hh : (transferFor env (capitalCallPosting plan key
        (.capitalCall fundId units noticeDate dueDate) createdBy)).requestHash =
        .capitalCall fundId units noticeDate dueDate := rfl
    -- the document is the first, and the only one, of its transfer
    have hdoc : db₂.capitalCalls.rows.find? (fun d => d.transfer = env.uuid4 .transfer) =
        some { id := env.uuid4 .document, fund := fundId, callNumber := plan.number, noticeDate
               dueDate, totalAmount := amount, transfer := env.uuid4 .transfer } := by
      refine find?_of_prefix hx.capitalCalls ?_
      have hnone : dbₘ.capitalCalls.rows.find? (fun d => d.transfer = env.uuid4 .transfer) =
          none := by
        simpa using hfresh
      dsimp only
      rw [(Table.insert_eq_some.mp hcalls).2, List.find?_append, hnone]
      simp
    refine Tx.bind_ok.mpr ⟨units, db₂, Tx.lift_eq.mpr ⟨hunits, rfl⟩, ?_⟩
    rw [runIdempotent_known hk hh]
    refine Tx.bind_ok.mpr ⟨_, db₂, ?_, rfl⟩
    rw [capitalCallOf, Tx.read_bind]
    exact Tx.lift_eq.mpr ⟨(orRaise_eq_ok.mpr hdoc).symm, rfl⟩
  · cases hfalse

/-- **A distribution is always replayed.** -/
theorem createDistribution_again {env env' : Env} {fundId : Uuid} {key : String} {total : Amount}
    {paymentDate : Date} {classification : DistributionClassification} {createdBy : String}
    {db db₁ db₂ : Db} {d : Distribution}
    (h : createDistribution env fundId key total paymentDate classification createdBy db =
      (.ok (d, true), db₁)) (hx : Extends db₁ db₂) :
    createDistribution env' fundId key total paymentDate classification createdBy db₂ =
      (.ok (d, false), db₂) := by
  obtain ⟨units, db₀, hlift, h₁⟩ := Tx.bind_ok.mp h
  obtain ⟨hunits, hdb⟩ := Tx.lift_eq.mp hlift
  subst hdb
  obtain ⟨-, -, hcreate⟩ | ⟨hfalse, -⟩ := runIdempotent_ok (fun t =>
    .bind Tx.readOnly_read fun _ => Tx.readOnly_lift _) h₁
  · obtain ⟨plan, es, dbₘ, amount, -, hposted, -, rfl, hins⟩ := postDistribution_ok hcreate
    obtain ⟨-, hfresh, dists, hdists, rfl⟩ := insertDistribution_ok hins
    have hk : transferByKey db₂ key =
        some (transferFor env (distributionPosting plan classification key _ createdBy)) :=
      hx.transferByKey hposted.transferByKey_new
    have hh : (transferFor env (distributionPosting plan classification key
        (.distribution fundId units paymentDate classification) createdBy)).requestHash =
        .distribution fundId units paymentDate classification := rfl
    have hdoc : db₂.distributions.rows.find? (fun d => d.transfer = env.uuid4 .transfer) =
        some { id := env.uuid4 .document, fund := fundId, distributionNumber := plan.number
               paymentDate, totalAmount := amount, classification
               transfer := env.uuid4 .transfer } := by
      refine find?_of_prefix hx.distributions ?_
      have hnone : dbₘ.distributions.rows.find? (fun d => d.transfer = env.uuid4 .transfer) =
          none := by
        simpa using hfresh
      dsimp only
      rw [(Table.insert_eq_some.mp hdists).2, List.find?_append, hnone]
      simp
    refine Tx.bind_ok.mpr ⟨units, db₂, Tx.lift_eq.mpr ⟨hunits, rfl⟩, ?_⟩
    rw [runIdempotent_known hk hh]
    refine Tx.bind_ok.mpr ⟨_, db₂, ?_, rfl⟩
    rw [distributionOf, Tx.read_bind]
    exact Tx.lift_eq.mpr ⟨(orRaise_eq_ok.mpr hdoc).symm, rfl⟩
  · cases hfalse

/-- Two postings with the same fingerprint data. -/
structure SameRequest (p q : Posting) : Prop where
  key : q.idempotencyKey = p.idempotencyKey
  type : q.transferType = p.transferType
  period : q.period.id = p.period.id
  legs : q.legs = p.legs

theorem SameRequest.again {env env' : Env} {p q : Posting} (hpq : SameRequest p q)
    {db db₁ db₂ : Db} {t : Transfer}
    (h : postTransferIdempotent env p db = (.ok (t, true), db₁)) (hx : Extends db₁ db₂) :
    postTransferIdempotent env' q db₂ = (.ok (t, false), db₂) := by
  refine (postTransferIdempotent_again h hx hpq.key).mpr ?_
  obtain ⟨hf, -⟩ := postTransferIdempotent_created h
  rw [hf]
  exact fingerprintOf_congr hf hpq.type hpq.period (hpq.legs ▸ forall₂_sameCore_refl p.legs)

/-- A posting that is worked out from lookups alone is replayed. -/
theorem planned_again {env env' : Env} {posting : Db → Except Exc Posting} {db db₁ db₂ : Db}
    {t : Transfer}
    (hstable : ∀ p, posting db = .ok p → ∃ q, posting db₂ = .ok q ∧ SameRequest p q)
    (h : (do
      let db ← Tx.read
      let p ← Tx.lift (posting db)
      postTransferIdempotent env p : M (Transfer × Bool)) db = (.ok (t, true), db₁))
    (hx : Extends db₁ db₂) :
    (do
      let db ← Tx.read
      let p ← Tx.lift (posting db)
      postTransferIdempotent env' p : M (Transfer × Bool)) db₂ = (.ok (t, false), db₂) := by
  rw [Tx.read_bind] at h
  obtain ⟨p, db₀, hlift, hrun⟩ := Tx.bind_ok.mp h
  obtain ⟨hp, hdb₀⟩ := Tx.lift_eq.mp hlift
  subst hdb₀
  obtain ⟨q, hq, hpq⟩ := hstable p hp.symm
  rw [Tx.read_bind]
  exact Tx.bind_ok.mpr ⟨q, db₂, Tx.lift_eq.mpr ⟨hq.symm, rfl⟩, hpq.again hrun hx⟩

theorem feePosting_later {db db₂ : Db} (hx : Extends db db₂) {fundId : Uuid} {key : String}
    {amount : Amount} {onDate : Date} {p : Posting}
    (h : feePosting db fundId key amount onDate = .ok p) :
    ∃ q, feePosting db₂ fundId key amount onDate = .ok q ∧ SameRequest p q := by
  simp only [feePosting, except_bind_ok, except_pure] at h
  obtain ⟨fund, hfund, expense, hexpense, cash, hcash, period, hperiod, hp⟩ := h
  obtain ⟨q, hq, hid, -⟩ := hx.periodFor hperiod
  have hpid : q.id = p.period.id := by rw [hid, ← hp]
  refine ⟨{ p with period := q }, ?_, ⟨rfl, rfl, hpid, rfl⟩⟩
  subst hp
  rw [feePosting, hx.getFund, hfund]
  change (getAccount db₂ fund .FEE_EXPENSE >>= _) = _
  rw [hx.getAccount hexpense]
  change (getAccount db₂ fund .CASH >>= _) = _
  rw [hx.getAccount hcash]
  change (periodFor db₂ fund.id onDate >>= _) = _
  rw [hq]
  rfl

theorem valuationPosting_later {db db₂ : Db} (hx : Extends db db₂) {fundId : Uuid}
    {key : String} {change : Amount} {onDate : Date} {p : Posting}
    (h : valuationPosting db fundId key change onDate = .ok p) :
    ∃ q, valuationPosting db₂ fundId key change onDate = .ok q ∧ SameRequest p q := by
  simp only [valuationPosting, except_bind_ok, except_pure] at h
  obtain ⟨⟨⟩, hzero, fund, hfund, investment, hinv, gainLoss, hgain, size, hsize, period, hperiod,
    hp⟩ := h
  obtain ⟨q, hq, hid, -⟩ := hx.periodFor hperiod
  have hpid : q.id = p.period.id := by rw [hid, ← hp]
  refine ⟨{ p with period := q }, ?_, ⟨rfl, rfl, hpid, rfl⟩⟩
  subst hp
  rw [valuationPosting, hzero]
  change (getFund db₂ fundId >>= _) = _
  rw [hx.getFund, hfund]
  change (getAccount db₂ fund .INVESTMENT >>= _) = _
  rw [hx.getAccount hinv]
  change (getAccount db₂ fund .GAIN_LOSS >>= _) = _
  rw [hx.getAccount hgain]
  change (changeSize change >>= _) = _
  rw [hsize]
  change (periodFor db₂ fund.id onDate >>= _) = _
  rw [hq]
  rfl

/-- **A fee is always replayed.** -/
theorem chargeFee_again {env env' : Env} {fundId : Uuid} {key : String} {amount : Amount}
    {onDate : Date} {db db₁ db₂ : Db} {t : Transfer}
    (h : chargeFee env fundId key amount onDate db = (.ok (t, true), db₁))
    (hx : Extends db₁ db₂) :
    chargeFee env' fundId key amount onDate db₂ = (.ok (t, false), db₂) := by
  have hmove : Changes Business db (chargeFee env fundId key amount onDate db).2 :=
    chargeFee_changes
  rw [h] at hmove
  exact planned_again (fun p hp => feePosting_later (hmove.later.extends.trans hx) hp) h hx

/-- **A valuation is always replayed.** -/
theorem recordValuation_again {env env' : Env} {fundId : Uuid} {key : String} {change : Amount}
    {onDate : Date} {db db₁ db₂ : Db} {t : Transfer}
    (h : recordValuation env fundId key change onDate db = (.ok (t, true), db₁))
    (hx : Extends db₁ db₂) :
    recordValuation env' fundId key change onDate db₂ = (.ok (t, false), db₂) := by
  have hmove : Changes Business db (recordValuation env fundId key change onDate db).2 :=
    recordValuation_changes
  rw [h] at hmove
  exact planned_again (fun p hp => valuationPosting_later (hmove.later.extends.trans hx) hp) h hx

/-! ## Purchases -/

/-- The cost of a purchase at the rates published by now. -/
def purchaseCost (db : Db) (baseCurrency : String) (amount : Amount) (currency : String)
    (onDate : Date) : Except Exc Amount := do
  let rate ← fxRateFor db currency baseCurrency onDate
  costOf amount rate

/-- The legs of a foreign purchase, up to the overrides, follow from its
cost. -/
theorem investmentLegs_foreign {db : Db} {fund : Fund} {investment cash : Account}
    {amount : Amount} {currency : String} {onDate : Date} {legs : List Leg}
    (hbase : currency ≠ fund.baseCurrency)
    (h : investmentLegs db fund investment cash amount currency onDate = .ok legs) :
    ∃ cost, purchaseCost db fund.baseCurrency amount currency onDate = .ok cost ∧
      List.Forall₂ SameCore [
        { accountId := investment.id, direction := Direction.DEBIT.value, amount },
        { accountId := cash.id, direction := Direction.CREDIT.value, amount := cost }] legs := by
  rw [investmentLegs, if_neg hbase] at h
  obtain ⟨rate, hrate, h₁⟩ := except_bind_ok.mp h
  obtain ⟨cost, hcost, h₂⟩ := except_bind_ok.mp h₁
  cases h₂
  exact ⟨cost, except_bind_ok.mpr ⟨rate, hrate, hcost⟩,
    .cons ⟨rfl, rfl, rfl⟩ (.cons ⟨rfl, rfl, rfl⟩ .nil)⟩

theorem investmentLegs_ok_of_cost {db : Db} {fund : Fund} {investment cash : Account}
    {amount cost : Amount} {currency : String} {onDate : Date} (hbase : currency ≠ fund.baseCurrency)
    (h : purchaseCost db fund.baseCurrency amount currency onDate = .ok cost) :
    ∃ legs, investmentLegs db fund investment cash amount currency onDate = .ok legs := by
  obtain ⟨rate, hrate, hcost⟩ := except_bind_ok.mp h
  rw [investmentLegs, if_neg hbase]
  exact ⟨_, except_bind_ok.mpr ⟨rate, hrate, except_bind_ok.mpr ⟨cost, hcost, rfl⟩⟩⟩

/-- A cost has two places, so its units in the fingerprint determine it. -/
theorem costOf_eq_of_units {amount : Amount} {rate rate' c c' : Dec} {u : ℤ}
    (h : costOf amount rate = .ok (.finite c)) (h' : costOf amount rate' = .ok (.finite c'))
    (hu : moneyUnits c = .ok u) (hu' : moneyUnits c' = .ok u) : c = c' := by
  have hplaces : ∀ {r d : Dec} {v : ℤ}, costOf amount r = .ok (.finite d) →
      moneyUnits d = .ok v → d.exp = -2 ∧ v = d.coeff * 100 := by
    intro r d v hd hv
    cases amount with
    | finite x =>
      rw [costOf] at hd
      cases hq : Dec.quantize 28 2 (Dec.mul 28 x r) with
      | none => rw [hq] at hd; cases hd
      | some q =>
        rw [hq] at hd
        cases hd
        have hexp : d.exp = -2 := by
          rw [(Dec.quantize_eq_some.mp hq).1]
          exact Dec.rescale_exp _ _ _
        refine ⟨hexp, ?_⟩
        rw [moneyUnits] at hv
        cases hm : Dec.quantize 28 4 d with
        | none => rw [hm] at hv; cases hv
        | some m =>
          rw [hm] at hv
          cases hv
          rw [(Dec.quantize_eq_some.mp hm).1]
          refine Dec.rescale_coeff_of_val _ ?_
          rw [Dec.val_eq, hexp]
          push_cast
          norm_num
          ring
    | infinite => cases hd
    | nan => cases hd
    | notDecimal => cases hd
  obtain ⟨he, hcu⟩ := hplaces h hu
  obtain ⟨he', hcu'⟩ := hplaces h' hu'
  have hcoeff : c.coeff = c'.coeff := by omega
  cases c
  cases c'
  simp only at he he' hcoeff
  rw [he, he', hcoeff]

/-- The triples of a purchase in its fingerprint. -/
theorem fingerprintOf_purchase {a : Posting} {investment cash : Uuid} {amount cost : Amount}
    {requestHash : RequestHash} (hf : fingerprintOf a = .ok requestHash)
    (hlegs : List.Forall₂ SameCore [
      { accountId := investment, direction := Direction.DEBIT.value, amount },
      { accountId := cash, direction := Direction.CREDIT.value, amount := cost }] a.legs) :
    ∃ c u₁ u, cost = .finite c ∧ moneyUnits c = .ok u ∧
      requestHash = .transfer a.transferType a.period.id
        ([(investment, .DEBIT, u₁), (cash, .CREDIT, u)].insertionSort fingerprintLe) := by
  obtain ⟨vs, hv, hhash⟩ := except_bind_ok.mp hf
  have hrefl : List.Forall₂ SameCore a.legs [
      { accountId := investment, direction := Direction.DEBIT.value, amount },
      { accountId := cash, direction := Direction.CREDIT.value, amount := cost }] :=
    hlegs.flip.imp fun _ _ h => ⟨h.1.symm, h.2.1.symm, h.2.2.symm⟩
  obtain ⟨ws, hw, hwv⟩ := validateLegs_sameCore hrefl hv
  have hws := mapM_except_ok.mp (validateLegs_ok hw).2.2.2
  obtain _ | ⟨hd, _ | ⟨hc, _ | _⟩⟩ := hws
  rename_i w₁ w₂
  obtain ⟨ha₁, hdir₁, hm₁, -⟩ := validateLeg_ok hd
  obtain ⟨ha₂, hdir₂, hm₂, -⟩ := validateLeg_ok hc
  have hd₁ : w₁.direction = .DEBIT := (Direction.value_injective hdir₁).symm
  have hd₂ : w₂.direction = .CREDIT := (Direction.value_injective hdir₂).symm
  have htriples : [w₁, w₂].mapM legFingerprint = vs.mapM legFingerprint := by
    refine mapM_congr_forall₂ (hwv.imp fun w v h => ?_)
    rw [legFingerprint, legFingerprint, h.1, h.2.1, h.2.2]
  obtain ⟨triples, ht, hret⟩ := except_bind_ok.mp hhash
  rw [except_pure] at hret
  rw [← htriples] at ht
  obtain _ | ⟨h₁, _ | ⟨h₂, _ | _⟩⟩ := mapM_except_ok.mp ht
  obtain ⟨u₁, hu₁, hr₁⟩ := except_bind_ok.mp h₁
  obtain ⟨u, hu, hr₂⟩ := except_bind_ok.mp h₂
  rw [except_pure] at hr₁ hr₂
  refine ⟨w₂.amount, u₁, u, hm₂, hu, ?_⟩
  rw [← hret, ← hr₁, ← hr₂, ha₁, ha₂, hd₁, hd₂]

/-- Purchases with the same fingerprint cost the same. -/
theorem cost_eq_of_fingerprint {a b : Posting} {investment cash : Uuid}
    {amount cost cost' : Amount} {rate rate' : Dec} {requestHash : RequestHash}
    (hcost : costOf amount rate = .ok cost) (hcost' : costOf amount rate' = .ok cost')
    (hfa : fingerprintOf a = .ok requestHash) (hfb : fingerprintOf b = .ok requestHash)
    (ha : List.Forall₂ SameCore [
      { accountId := investment, direction := Direction.DEBIT.value, amount },
      { accountId := cash, direction := Direction.CREDIT.value, amount := cost }] a.legs)
    (hb : List.Forall₂ SameCore [
      { accountId := investment, direction := Direction.DEBIT.value, amount },
      { accountId := cash, direction := Direction.CREDIT.value, amount := cost' }] b.legs) :
    cost = cost' := by
  obtain ⟨c, u₁, u, rfl, hu, hash⟩ := fingerprintOf_purchase hfa ha
  obtain ⟨c', u₁', u', rfl, hu', hash'⟩ := fingerprintOf_purchase hfb hb
  have hsorted := hash.symm.trans hash'
  rw [RequestHash.transfer.injEq] at hsorted
  have hmem : (cash, Direction.CREDIT, u) ∈
      [(investment, .DEBIT, u₁), (cash, Direction.CREDIT, u)].insertionSort fingerprintLe :=
    (List.mem_insertionSort _).mpr (by simp)
  rw [hsorted.2.2, List.mem_insertionSort] at hmem
  have huu : u = u' := by simpa using hmem
  rw [costOf_eq_of_units hcost hcost' hu (huu ▸ hu')]

private theorem sameCore_trans {as : List Leg} : ∀ {bs cs : List Leg},
    List.Forall₂ SameCore as bs → List.Forall₂ SameCore as cs → List.Forall₂ SameCore bs cs := by
  induction as with
  | nil =>
    rintro bs cs ⟨⟩ ⟨⟩
    exact .nil
  | cons a as ih =>
    rintro bs cs (_ | ⟨⟨ha, hd, hm⟩, hb⟩) (_ | ⟨⟨ha', hd', hm'⟩, hc⟩)
    exact .cons ⟨ha.symm.trans ha', hd.symm.trans hd', hm.symm.trans hm'⟩ (ih hb hc)

/-- What a purchase that created something looked up and posted. -/
theorem recordInvestment_ok {env : Env} {fundId : Uuid} {key : String} {amount : Amount}
    {currency : String} {onDate : Date} {db db₁ : Db} {r : Transfer × Bool}
    (h : recordInvestment env fundId key amount currency onDate db = (.ok r, db₁)) :
    ∃ fund period investment dₐ cash legs, getFund db fundId = .ok fund ∧
      periodFor db fund.id onDate = .ok period ∧
      InvestmentAccount dₐ fund currency investment ∧
      getAccount dₐ fund .CASH = .ok cash ∧
      investmentLegs dₐ fund investment cash amount currency onDate = .ok legs ∧
      postTransferIdempotent env (investmentPosting key amount currency onDate period legs) dₐ =
        (.ok r, db₁) ∧
      Extends db dₐ ∧ dₐ.fxRates = db.fxRates ∧ dₐ.periods = db.periods ∧
      dₐ.entries = db.entries := by
  rw [recordInvestment_eq, Tx.read_bind] at h
  obtain ⟨fund, d₀, hlift, h₁⟩ := Tx.bind_ok.mp h
  obtain ⟨hfund, hd₀⟩ := Tx.lift_eq.mp hlift
  subst hd₀
  obtain ⟨period, d₁, hlift₁, h₂⟩ := Tx.bind_ok.mp h₁
  obtain ⟨hperiod, hd₁⟩ := Tx.lift_eq.mp hlift₁
  subst hd₁
  obtain ⟨investment, dₐ, hopen, h₃⟩ := Tx.bind_ok.mp h₂
  obtain ⟨hfind, hcase⟩ := getOrCreateAccount_ok hopen
  rw [purchase, Tx.read_bind] at h₃
  obtain ⟨cash, d₂, hlift₂, h₄⟩ := Tx.bind_ok.mp h₃
  obtain ⟨hcash, hd₂⟩ := Tx.lift_eq.mp hlift₂
  subst hd₂
  obtain ⟨legs, d₃, hlift₃, hpost⟩ := Tx.bind_ok.mp h₄
  obtain ⟨hlegs, hd₃⟩ := Tx.lift_eq.mp hlift₃
  subst hd₃
  refine ⟨fund, period, investment, d₃, cash, legs, hfund.symm, hperiod.symm, hfind, hcash.symm,
    hlegs.symm, hpost, ?_⟩
  rcases hcase with rfl | ⟨-, -, hins⟩
  · exact ⟨.refl _, rfl, rfl, rfl⟩
  · have hopened : Change AnyPosting d₁ d₃ := .accountOpened hins rfl
    obtain ⟨-, -, -, -, -, accounts, -, rfl⟩ := insertAccount_ok hins
    exact ⟨hopened.extends, rfl, rfl, rfl⟩

/-- With the rows of a purchase in place, the call works out the legs and
posts. -/
theorem recordInvestment_of_lookups {env : Env} {fundId : Uuid} {key : String} {amount : Amount}
    {currency : String} {onDate : Date} {db : Db} {fund : Fund} {period : Period}
    {investment cash : Account} (hfund : getFund db fundId = .ok fund)
    (hperiod : periodFor db fund.id onDate = .ok period)
    (hopened : InvestmentAccount db fund currency investment)
    (hcash : getAccount db fund .CASH = .ok cash) :
    recordInvestment env fundId key amount currency onDate db =
      (Tx.lift (investmentLegs db fund investment cash amount currency onDate) >>= fun legs =>
        postTransferIdempotent env
          (investmentPosting key amount currency onDate period legs)) db := by
  have hget : getOrCreateAccount (investmentAccount env fund currency) db =
      (.ok investment, db) := by
    have hfind : findAccount db (investmentAccount env fund currency).fund
        (investmentAccount env fund currency).code = some investment := hopened
    rw [getOrCreateAccount, Tx.read_bind, hfind]
    rfl
  rw [recordInvestment_eq, Tx.read_bind, Tx.bind_apply, Tx.lift, hfund]
  dsimp only
  rw [Tx.bind_apply, Tx.lift, hperiod]
  dsimp only
  rw [Tx.bind_apply, hget]
  dsimp only
  rw [purchase, Tx.read_bind, Tx.bind_apply, Tx.lift, hcash]

/-- **A purchase is replayed exactly when it is paid in the base currency or
the rates published by now give the cost it had.** -/
theorem recordInvestment_again {env env' : Env} {fundId : Uuid} {key : String} {amount : Amount}
    {currency : String} {onDate : Date} {db db₁ db₂ : Db} {t : Transfer}
    (h : recordInvestment env fundId key amount currency onDate db = (.ok (t, true), db₁))
    (hx : Extends db₁ db₂) :
    recordInvestment env' fundId key amount currency onDate db₂ = (.ok (t, false), db₂) ↔
      ∀ fund, getFund db fundId = .ok fund → currency = fund.baseCurrency ∨
        purchaseCost db₂ fund.baseCurrency amount currency onDate =
          purchaseCost db fund.baseCurrency amount currency onDate := by
  obtain ⟨fund, period, investment, dₐ, cash, legs, hfund, hperiod, hopened, hcash, hlegs, hpost,
    hxₐ, hrates, hperiods, -⟩ := recordInvestment_ok h
  have hheld : Holds dₐ period := by
    rw [Holds, hperiods]
    exact holds_periodFor hperiod
  have hxp : Extends dₐ db₂ := by
    have hmove : Changes AnyPosting dₐ (postTransferIdempotent env
        (investmentPosting key amount currency onDate period legs) dₐ).2 :=
      postTransferIdempotent_changes (fun _ => trivial) hheld
    rw [hpost] at hmove
    exact hmove.later.extends.trans hx
  have hx₀ : Extends db db₂ := hxₐ.trans hxp
  have hcostₐ : purchaseCost dₐ fund.baseCurrency amount currency onDate =
      purchaseCost db fund.baseCurrency amount currency onDate := by
    rw [purchaseCost, purchaseCost, fxRateFor, fxRateFor, hrates]
  obtain ⟨q, hq, hqid, -⟩ := hx₀.periodFor hperiod
  have honly : ∀ f, getFund db fundId = .ok f → f = fund := by
    intro f hf
    rw [hfund] at hf
    exact (Except.ok.inj hf).symm
  rw [recordInvestment_of_lookups ((hx₀.getFund fundId).trans hfund) hq
    (hxp.findAccount hopened) (hxp.getAccount hcash)]
  by_cases hcur : currency = fund.baseCurrency
  · -- paid in the base currency: the legs are the same
    refine iff_of_true ?_ fun f hf => .inl (honly f hf ▸ hcur)
    have hlegs₂ : investmentLegs db₂ fund investment cash amount currency onDate = .ok legs := by
      rw [← hlegs, investmentLegs, investmentLegs, if_pos hcur, if_pos hcur]
    have hpq : SameRequest (investmentPosting key amount currency onDate period legs)
        (investmentPosting key amount currency onDate q legs) := ⟨rfl, rfl, hqid, rfl⟩
    exact Tx.bind_ok.mpr ⟨legs, db₂, Tx.lift_eq.mpr ⟨hlegs₂.symm, rfl⟩, hpq.again hpost hx⟩
  · obtain ⟨cost, hcost, hcore⟩ := investmentLegs_foreign hcur hlegs
    obtain ⟨hfp, -⟩ := postTransferIdempotent_created hpost
    rw [hcostₐ] at hcost
    constructor
    · intro hrun f hf
      obtain ⟨legs', d, hlift, hrun'⟩ := Tx.bind_ok.mp hrun
      obtain ⟨hlegs', hd⟩ := Tx.lift_eq.mp hlift
      subst hd
      obtain ⟨cost', hcost', hcore'⟩ := investmentLegs_foreign hcur hlegs'.symm
      have hkey : (investmentPosting key amount currency onDate q legs').idempotencyKey =
          (investmentPosting key amount currency onDate period legs).idempotencyKey := rfl
      have hfp' := (postTransferIdempotent_again hpost hx hkey).mp hrun'
      obtain ⟨rate, -, hc⟩ := except_bind_ok.mp hcost
      obtain ⟨rate', -, hc'⟩ := except_bind_ok.mp hcost'
      right
      rw [honly f hf, hcost, hcost',
        cost_eq_of_fingerprint hc hc' hfp (hfp'.trans hfp) hcore hcore']
    · intro hcond
      rcases hcond fund hfund with hbc | hcost₂
      · exact absurd hbc hcur
      · rw [hcost] at hcost₂
        obtain ⟨legs', hlegs'⟩ : ∃ legs', investmentLegs db₂ fund investment cash amount currency
            onDate = .ok legs' := investmentLegs_ok_of_cost hcur hcost₂
        obtain ⟨cost', hcost', hcore'⟩ := investmentLegs_foreign hcur hlegs'
        rw [hcost₂] at hcost'
        cases hcost'
        refine Tx.bind_ok.mpr ⟨legs', db₂, Tx.lift_eq.mpr ⟨hlegs'.symm, rfl⟩, ?_⟩
        have hkey : (investmentPosting key amount currency onDate q legs').idempotencyKey =
            (investmentPosting key amount currency onDate period legs).idempotencyKey := rfl
        refine (postTransferIdempotent_again hpost hx hkey).mpr ?_
        rw [hfp]
        exact fingerprintOf_congr hfp rfl hqid (sameCore_trans hcore hcore')

end FundLedger
