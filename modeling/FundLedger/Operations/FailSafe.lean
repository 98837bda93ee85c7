import FundLedger.Operations.Factories

/-!
# What a failed operation leaves behind

An operation whose writes are all inside one transaction block leaves the
database as it was when it raises.  That is how all of them are built but one:
`recordInvestment` opens the account of a new currency first, and outside the
block.  When the purchase is then refused, the account stays.

The condition under which a failed call changes nothing is exact.  It speaks
about the checks of the purchase one by one, as `Purchasable`.
-/

namespace FundLedger

open Lib

/-! ## The operations that write inside one block -/

theorem postTransferIdempotent_failSafe (env : Env) (a : Posting) :
    Tx.FailSafe (postTransferIdempotent env a) :=
  .bind (Tx.readOnly_lift _) fun _ => .bind (Tx.readOnly_lift _) fun _ =>
    runIdempotent_failSafe fun _ => Tx.readOnly_pure _

theorem reverseTransfer_failSafe (env : Env) (transferId : Uuid) (key : String) (period : Period)
    (createdBy : String) : Tx.FailSafe (reverseTransfer env transferId key period createdBy) := by
  refine .bind Tx.readOnly_read fun db => .bind (Tx.readOnly_lift _) fun original => ?_
  refine .bind (Tx.readOnly_lift _) fun _ => .bind (Tx.readOnly_lift _) fun _ => ?_
  refine .tryCatch (runIdempotent_failSafe fun _ => Tx.readOnly_pure _) fun e => ?_
  split <;> exact Tx.readOnly_throw _

theorem createCapitalCall_failSafe (env : Env) (fundId : Uuid) (key : String) (total : Amount)
    (noticeDate dueDate : Date) (createdBy : String) :
    Tx.FailSafe (createCapitalCall env fundId key total noticeDate dueDate createdBy) :=
  .bind (Tx.readOnly_lift _) fun _ => runIdempotent_failSafe fun _ =>
    .bind Tx.readOnly_read fun _ => Tx.readOnly_lift _

theorem createDistribution_failSafe (env : Env) (fundId : Uuid) (key : String) (total : Amount)
    (paymentDate : Date) (classification : DistributionClassification) (createdBy : String) :
    Tx.FailSafe
      (createDistribution env fundId key total paymentDate classification createdBy) :=
  .bind (Tx.readOnly_lift _) fun _ => runIdempotent_failSafe fun _ =>
    .bind Tx.readOnly_read fun _ => Tx.readOnly_lift _

theorem chargeFee_failSafe (env : Env) (fundId : Uuid) (key : String) (amount : Amount)
    (onDate : Date) : Tx.FailSafe (chargeFee env fundId key amount onDate) :=
  .bind Tx.readOnly_read fun _ => .bind (Tx.readOnly_lift _) fun p =>
    postTransferIdempotent_failSafe env p

theorem recordValuation_failSafe (env : Env) (fundId : Uuid) (key : String) (change : Amount)
    (onDate : Date) : Tx.FailSafe (recordValuation env fundId key change onDate) :=
  .bind Tx.readOnly_read fun _ => .bind (Tx.readOnly_lift _) fun p =>
    postTransferIdempotent_failSafe env p

/-! ## When a posting under a key is accepted -/

/-- The checks of `post_transfer`, up to its last statement, all pass. -/
def Postable (env : Env) (db : Db) (a : Posting) (legs : List ValidLeg) : Prop :=
  ∃ priced db₁ es db₂, preparePosting env db a legs = .ok priced ∧
    insertTransfer db (transferFor env a) = .ok db₁ ∧
    entriesFor env (transferFor env a).id priced = .ok es ∧
    insertEntries db₁ es = .ok db₂ ∧
    assertTransferBalances db₂ (transferFor env a).id = .ok ()

theorem postTransfer_isOk {env : Env} {db : Db} {a : Posting} {legs : List ValidLeg}
    (hvalid : validateLegs a.legs = .ok legs) :
    (∃ t db', postTransfer env a db = (.ok t, db')) ↔ Postable env db a legs := by
  have hrun : postTransfer env a db = Tx.atomic (do
      let db ← Tx.read
      let priced ← Tx.lift (preparePosting env db a legs)
      let transfer := transferFor env a
      Tx.statement fun db => insertTransfer db transfer
      let entries ← Tx.lift (entriesFor env transfer.id priced)
      Tx.statement fun db => insertEntries db entries
      let db ← Tx.read
      Tx.lift (assertTransferBalances db transfer.id)
      return transfer : M Transfer) db := by
    rw [postTransfer, Tx.bind_apply, Tx.lift, hvalid]
  rw [hrun]
  simp only [Tx.atomic_ok, Tx.read_bind, Tx.bind_ok, Tx.lift_eq, Tx.statement_ok, Tx.pure_eq]
  constructor
  · rintro ⟨t, db', priced, _, ⟨hp, rfl⟩, _, db₁, hins, es, _, ⟨hes, rfl⟩, _, db₂, hents, _, _,
      ⟨hbal, hdb⟩, -, rfl⟩
    subst hdb
    exact ⟨priced, _, es, _, hp.symm, hins, hes.symm, hents, hbal.symm⟩
  · rintro ⟨priced, db₁, es, db₂, hp, hins, hes, hents, hbal⟩
    exact ⟨_, db₂, priced, db, ⟨hp.symm, rfl⟩, (), db₁, hins, es, db₁, ⟨hes.symm, rfl⟩, (), db₂,
      hents, (), db₂, ⟨hbal.symm, rfl⟩, rfl, rfl⟩

/-- Without a transfer under the key there is nothing to answer with. -/
theorem recover_of_none {α : Type} {key : String} {requestHash : RequestHash}
    {replay : Transfer → M α} {db : Db} (hk : transferByKey db key = none) (e : Exc) :
    ∀ r db', recover key requestHash replay e db ≠ (.ok r, db') := by
  intro r db' h
  unfold recover at h
  split at h
  · split at h
    · cases h
    · rw [Tx.read_bind] at h
      obtain ⟨t, db₁, hlift, -⟩ := Tx.bind_ok.mp h
      have hfind := (Tx.lift_eq.mp hlift).1.symm
      rw [orRaise_eq_ok, hk] at hfind
      cases hfind
  · rw [Tx.read_bind, hk] at h
    cases h
  · cases h

/-- A call under a key is accepted when the key belongs to the same request,
or is unused and `create` succeeds. -/
theorem runIdempotent_pure_isOk {key : String} {requestHash : RequestHash} {create : M Transfer}
    {db : Db} :
    (∃ r db', runIdempotent key requestHash create pure db = (.ok r, db')) ↔
      (∃ existing, transferByKey db key = some existing ∧ existing.requestHash = requestHash) ∨
      (transferByKey db key = none ∧ ∃ t db', create db = (.ok t, db')) := by
  rw [runIdempotent, runOnce, Tx.read_bind]
  cases hk : transferByKey db key with
  | some existing =>
    simp only [Option.some.injEq, exists_eq_left', reduceCtorEq, false_and, or_false]
    by_cases hh : existing.requestHash = requestHash
    · simp only [answerWith, hh, ne_eq, not_true_eq_false, if_false, iff_true]
      exact ⟨_, _, rfl⟩
    · simp only [answerWith, hh, ne_eq, not_false_eq_true, if_true, iff_false]
      rintro ⟨r, db', h⟩
      cases h
  | none =>
    simp only [reduceCtorEq, false_and, exists_false, true_and, false_or]
    constructor
    · rintro ⟨r, db', h⟩
      rcases Tx.tryCatch_ok.mp h with hok | ⟨e, db₁, herr, hrec⟩
      · obtain ⟨t, db₂, hc, -⟩ := Tx.bind_ok.mp hok
        exact ⟨t, db₂, Tx.atomic_ok.mp hc⟩
      · have hdb₁ : db₁ = db := by
          rcases Tx.bind_error.mp herr with ha | ⟨_, _, -, hp⟩
          · exact (Tx.atomic_error.mp ha).2
          · cases (Tx.pure_eq.mp hp).1
        subst hdb₁
        exact absurd hrec (recover_of_none hk e r db')
    · rintro ⟨t, db', h⟩
      refine ⟨(t, true), db', Tx.tryCatch_ok.mpr (.inl (Tx.bind_ok.mpr ?_))⟩
      exact ⟨t, db', Tx.atomic_ok.mpr h, rfl⟩

/-- The checks of `post_transfer_idempotent` all pass. -/
def PostableUnderKey (env : Env) (db : Db) (a : Posting) : Prop :=
  ∃ legs requestHash, validateLegs a.legs = .ok legs ∧
    transferFingerprint a legs = .ok requestHash ∧
    ((∃ existing, transferByKey db a.idempotencyKey = some existing ∧
        existing.requestHash = requestHash) ∨
      (transferByKey db a.idempotencyKey = none ∧
        Postable env db { a with reverses := none, requestHash } legs))

theorem postTransferIdempotent_isOk {env : Env} {db : Db} {a : Posting} :
    (∃ r db', postTransferIdempotent env a db = (.ok r, db')) ↔ PostableUnderKey env db a := by
  have hkey : ∀ legs requestHash, validateLegs a.legs = .ok legs →
      ((∃ r db', runIdempotent a.idempotencyKey requestHash
          (postTransfer env { a with reverses := none, requestHash }) pure db = (.ok r, db')) ↔
        (∃ existing, transferByKey db a.idempotencyKey = some existing ∧
          existing.requestHash = requestHash) ∨
        (transferByKey db a.idempotencyKey = none ∧
          Postable env db { a with reverses := none, requestHash } legs)) := by
    intro legs requestHash hv
    have hpost : (∃ t db', postTransfer env { a with reverses := none, requestHash } db =
        (.ok t, db')) ↔ Postable env db { a with reverses := none, requestHash } legs :=
      postTransfer_isOk hv
    rw [← hpost]
    exact runIdempotent_pure_isOk
  unfold postTransferIdempotent
  constructor
  · rintro ⟨r, db', h⟩
    obtain ⟨legs, db₁, hlift, h₁⟩ := Tx.bind_ok.mp h
    obtain ⟨hv, hdb₁⟩ := Tx.lift_eq.mp hlift
    subst hdb₁
    obtain ⟨requestHash, db₂, hlift₂, h₂⟩ := Tx.bind_ok.mp h₁
    obtain ⟨hf, hdb₂⟩ := Tx.lift_eq.mp hlift₂
    subst hdb₂
    exact ⟨legs, requestHash, hv.symm, hf.symm,
      (hkey legs requestHash hv.symm).mp ⟨r, db', h₂⟩⟩
  · rintro ⟨legs, requestHash, hv, hf, hcase⟩
    obtain ⟨r, db', h⟩ := (hkey legs requestHash hv).mpr hcase
    refine ⟨r, db', Tx.bind_ok.mpr ⟨legs, db, Tx.lift_eq.mpr ⟨hv.symm, rfl⟩, ?_⟩⟩
    exact Tx.bind_ok.mpr ⟨requestHash, db, Tx.lift_eq.mpr ⟨hf.symm, rfl⟩, h⟩

/-! ## Investments -/

/-- The row of a new investment account. -/
def investmentAccount (env : Env) (fund : Fund) (currency : String) : Account where
  id := env.uuid4 (.account 0)
  fund := fund.id
  code := "INVESTMENT-" ++ currencyOrBase fund currency
  accountType := .INVESTMENT
  ownerLp := none
  currency := currencyOrBase fund currency

/-- The call opens an account: the fund and the period exist, the fund has no
investment account in the currency, and the row is accepted.  `db₁` is the
database with the account. -/
def OpensAccount (env : Env) (db : Db) (fundId : Uuid) (currency : String) (onDate : Date)
    (fund : Fund) (period : Period) (db₁ : Db) : Prop :=
  getFund db fundId = .ok fund ∧ periodFor db fund.id onDate = .ok period ∧
  findAccount db fund.id ("INVESTMENT-" ++ currencyOrBase fund currency) = none ∧
  insertAccount db (investmentAccount env fund currency) = .ok db₁

/-- The posting of a purchase. -/
def investmentPosting (key : String) (amount : Amount) (currency : String) (onDate : Date)
    (period : Period) (legs : List Leg) : Posting where
  idempotencyKey := key
  legs
  period
  transferType := .INVESTMENT
  description := [.lit "Investment ", amount.piece, .lit " ", .str currency]
  fxDate := onDate

/-- The checks of a purchase, once its account is there, all pass. -/
def Purchasable (env : Env) (db : Db) (fund : Fund) (period : Period) (investment : Account)
    (key : String) (amount : Amount) (currency : String) (onDate : Date) : Prop :=
  ∃ cash legs, getAccount db fund .CASH = .ok cash ∧
    investmentLegs db fund investment cash amount currency onDate = .ok legs ∧
    PostableUnderKey env db (investmentPosting key amount currency onDate period legs)

/-- What `record_investment` does after the account. -/
def purchase (env : Env) (fund : Fund) (period : Period) (investment : Account) (key : String)
    (amount : Amount) (currency : String) (onDate : Date) : M (Transfer × Bool) := do
  let db ← Tx.read
  let cash ← Tx.lift (getAccount db fund .CASH)
  let legs ← Tx.lift (investmentLegs db fund investment cash amount currency onDate)
  postTransferIdempotent env (investmentPosting key amount currency onDate period legs)

theorem recordInvestment_eq (env : Env) (fundId : Uuid) (key : String) (amount : Amount)
    (currency : String) (onDate : Date) :
    recordInvestment env fundId key amount currency onDate = (do
      let db ← Tx.read
      let fund ← Tx.lift (getFund db fundId)
      let period ← Tx.lift (periodFor db fund.id onDate)
      let investment ← getOrCreateAccount (investmentAccount env fund currency)
      purchase env fund period investment key amount currency onDate) := rfl

theorem purchase_failSafe (env : Env) (fund : Fund) (period : Period) (investment : Account)
    (key : String) (amount : Amount) (currency : String) (onDate : Date) :
    Tx.FailSafe (purchase env fund period investment key amount currency onDate) :=
  .bind Tx.readOnly_read fun _ => .bind (Tx.readOnly_lift _) fun _ =>
    .bind (Tx.readOnly_lift _) fun _ => postTransferIdempotent_failSafe env _

theorem purchase_isOk {env : Env} {db : Db} {fund : Fund} {period : Period}
    {investment : Account} {key : String} {amount : Amount} {currency : String} {onDate : Date} :
    (∃ r db', purchase env fund period investment key amount currency onDate db = (.ok r, db')) ↔
      Purchasable env db fund period investment key amount currency onDate := by
  simp only [purchase, Tx.read_bind, Tx.bind_ok, Tx.lift_eq]
  constructor
  · rintro ⟨r, db', cash, _, ⟨hcash, rfl⟩, legs, _, ⟨hlegs, rfl⟩, h⟩
    exact ⟨cash, legs, hcash.symm, hlegs.symm, postTransferIdempotent_isOk.mp ⟨r, db', h⟩⟩
  · rintro ⟨cash, legs, hcash, hlegs, h⟩
    obtain ⟨r, db', hrun⟩ := postTransferIdempotent_isOk.mpr h
    exact ⟨r, db', cash, db, ⟨hcash.symm, rfl⟩, legs, db, ⟨hlegs.symm, rfl⟩, hrun⟩

/-- When a failed call of `record_investment` changes nothing: it does not
open an account, or the purchase then passes every check. -/
def InvestmentFailSafe (env : Env) (db : Db) (fundId : Uuid) (key : String) (amount : Amount)
    (currency : String) (onDate : Date) : Prop :=
  ∀ fund period db₁, OpensAccount env db fundId currency onDate fund period db₁ →
    Purchasable env db₁ fund period (investmentAccount env fund currency) key amount currency
      onDate

theorem insertAccount_ne {db db' : Db} {a : Account} (h : insertAccount db a = .ok db') :
    db' ≠ db := by
  obtain ⟨-, -, -, -, -, accounts, hins, rfl⟩ := insertAccount_ok h
  intro heq
  have hrows := congrArg (fun d : Db => d.accounts.rows.length) heq
  simp [(Table.insert_eq_some.mp hins).2] at hrows

theorem recordInvestment_failSafe_iff {env : Env} {db : Db} {fundId : Uuid} {key : String}
    {amount : Amount} {currency : String} {onDate : Date} :
    (∀ e db', recordInvestment env fundId key amount currency onDate db = (.error e, db') →
      db' = db) ↔ InvestmentFailSafe env db fundId key amount currency onDate := by
  rw [recordInvestment_eq]
  constructor
  · rintro h fund period db₁ ⟨hfund, hperiod, hnone, hins⟩
    -- the run reaches the purchase with the account in place
    have hrun : ∀ x, purchase env fund period (investmentAccount env fund currency) key amount
        currency onDate db₁ = x → (do
          let db ← Tx.read
          let fund ← Tx.lift (getFund db fundId)
          let period ← Tx.lift (periodFor db fund.id onDate)
          let investment ← getOrCreateAccount (investmentAccount env fund currency)
          purchase env fund period investment key amount currency onDate :
            M (Transfer × Bool)) db = x := by
      rintro x rfl
      have hopen : getOrCreateAccount (investmentAccount env fund currency) db =
          (.ok (investmentAccount env fund currency), db₁) := by
        have hfind : findAccount db (investmentAccount env fund currency).fund
            (investmentAccount env fund currency).code = none := hnone
        rw [getOrCreateAccount, Tx.read_bind, hfind]
        exact Tx.bind_ok.mpr ⟨(), db₁, Tx.statement_ok.mpr hins, rfl⟩
      rw [Tx.read_bind, Tx.bind_apply, Tx.lift, hfund]
      dsimp only
      rw [Tx.bind_apply, Tx.lift, hperiod]
      dsimp only
      rw [Tx.bind_apply, hopen]
    refine purchase_isOk.mp ?_
    rcases hp : purchase env fund period (investmentAccount env fund currency) key amount
        currency onDate db₁ with ⟨e | r, db'⟩
    · have hback : db' = db₁ := purchase_failSafe env fund period _ key amount currency onDate
        db₁ e db' hp
      exact absurd (hback.symm.trans (h e db' (hrun _ hp))) (insertAccount_ne hins)
    · exact ⟨r, db', rfl⟩
  · intro hcond e db' h
    rw [Tx.read_bind] at h
    rcases Tx.bind_error.mp h with hlift | ⟨fund, db₁, hlift, h₁⟩
    · exact (Tx.lift_eq.mp hlift).2
    obtain ⟨hfund, hdb₁⟩ := Tx.lift_eq.mp hlift
    subst hdb₁
    rcases Tx.bind_error.mp h₁ with hlift₂ | ⟨period, db₂, hlift₂, h₂⟩
    · exact (Tx.lift_eq.mp hlift₂).2
    obtain ⟨hperiod, hdb₂⟩ := Tx.lift_eq.mp hlift₂
    subst hdb₂
    rcases Tx.bind_error.mp h₂ with hopen | ⟨investment, db₃, hopen, h₃⟩
    · -- opening the account is one statement
      rw [getOrCreateAccount, Tx.read_bind] at hopen
      cases hfind : findAccount db₂ (investmentAccount env fund currency).fund
          (investmentAccount env fund currency).code with
      | some account => rw [hfind] at hopen; cases hopen
      | none =>
        rw [hfind] at hopen
        rcases Tx.bind_error.mp hopen with hst | ⟨_, _, -, hret⟩
        · exact (Tx.statement_error.mp hst).2
        · cases (Tx.pure_eq.mp hret).1
    · have hback : db' = db₃ :=
        purchase_failSafe env fund period investment key amount currency onDate db₃ e db' h₃
      obtain ⟨-, rfl | ⟨hnone, rfl, hins⟩⟩ := getOrCreateAccount_ok hopen
      · exact hback
      · obtain ⟨r, db₄, hok⟩ := purchase_isOk.mpr
          (hcond fund period db₃ ⟨hfund.symm, hperiod.symm, hnone, hins⟩)
        rw [hok] at h₃
        cases h₃

/-! ## Every operation -/

/-- The condition under which a failed call leaves the database as it was. -/
def Op.FailSafeAt (env : Env) (db : Db) : Op → Prop
  | .recordInvestment fundId key amount currency onDate =>
    InvestmentFailSafe env db fundId key amount currency onDate
  | _ => True

private theorem discard_error {α : Type} {m : M α} {db db' : Db} {e : Exc} :
    (m >>= fun _ => pure PUnit.unit : M Unit) db = (.error e, db') ↔ m db = (.error e, db') := by
  rw [Tx.bind_error]
  constructor
  · rintro (h | ⟨_, _, -, hp⟩)
    · exact h
    · cases (Tx.pure_eq.mp hp).1
  · exact .inl

private theorem failSafe_discard {α : Type} {m : M α} (h : Tx.FailSafe m) :
    Tx.FailSafe (m >>= fun _ => pure PUnit.unit : M Unit) :=
  fun db e db' hr => h db e db' (discard_error.mp hr)

/-- Every operation but the purchase is fail-safe, whatever the database. -/
theorem Op.run_failSafe {env : Env} {op : Op}
    (hop : ∀ fundId key amount currency onDate,
      op ≠ .recordInvestment fundId key amount currency onDate) :
    Tx.FailSafe (op.run env) := by
  cases op with
  | recordInvestment => exact absurd rfl (hop _ _ _ _ _)
  | postTransfer =>
    exact .bind Tx.readOnly_read fun _ => .bind (Tx.readOnly_lift _) fun _ =>
      failSafe_discard (postTransfer_failSafe _ _)
  | postTransferIdempotent =>
    exact .bind Tx.readOnly_read fun _ => .bind (Tx.readOnly_lift _) fun _ =>
      failSafe_discard (postTransferIdempotent_failSafe _ _)
  | reverseTransfer =>
    exact .bind Tx.readOnly_read fun _ => .bind (Tx.readOnly_lift _) fun _ =>
      failSafe_discard (reverseTransfer_failSafe _ _ _ _ _)
  | createCapitalCall => exact failSafe_discard (createCapitalCall_failSafe _ _ _ _ _ _ _)
  | createDistribution => exact failSafe_discard (createDistribution_failSafe _ _ _ _ _ _ _)
  | chargeFee => exact failSafe_discard (chargeFee_failSafe _ _ _ _ _)
  | recordValuation => exact failSafe_discard (recordValuation_failSafe _ _ _ _ _)
  | closePeriod => exact failSafe_discard (closePeriod_failSafe _ _ _ _)

/-- **A failed call changes nothing exactly when the condition holds**, in any
environment and from any database. -/
theorem failed_call_iff (env : Env) (db : Db) (op : Op) :
    (∀ e db', op.run env db = (.error e, db') → db' = db) ↔ op.FailSafeAt env db := by
  cases op with
  | recordInvestment fundId key amount currency onDate =>
    rw [Op.FailSafeAt, ← recordInvestment_failSafe_iff]
    exact forall₂_congr fun e db' => imp_congr_left discard_error
  | postTransfer => exact iff_of_true (Op.run_failSafe (by simp) db) trivial
  | postTransferIdempotent => exact iff_of_true (Op.run_failSafe (by simp) db) trivial
  | reverseTransfer => exact iff_of_true (Op.run_failSafe (by simp) db) trivial
  | createCapitalCall => exact iff_of_true (Op.run_failSafe (by simp) db) trivial
  | createDistribution => exact iff_of_true (Op.run_failSafe (by simp) db) trivial
  | chargeFee => exact iff_of_true (Op.run_failSafe (by simp) db) trivial
  | recordValuation => exact iff_of_true (Op.run_failSafe (by simp) db) trivial
  | closePeriod => exact iff_of_true (Op.run_failSafe (by simp) db) trivial

/-- A purchase in dollars by a fund that has never held any, and has no cash. -/
def investmentOf100Usd : Op := .recordInvestment 1 "inv" (.finite ⟨10000, -2⟩) "USD" 32

/-- **A failed purchase leaves an account behind.**  The fund is freshly set
up; the purchase is refused for lack of cash, and one more account is there. -/
theorem failed_investment_opens_account :
    (investmentOf100Usd.run (envOf 1) buildPeFund).1 =
      .error (.ledger .InsufficientFunds [.lit "account ", .uuid 100, .lit " holds ",
        .dec ⟨0, -4⟩, .lit ", needs ", .dec ⟨7900, -2⟩]) ∧
    buildPeFund.accounts.rows.length = 7 ∧
    (investmentOf100Usd.run (envOf 1) buildPeFund).2.accounts.rows.length = 8 ∧
    (investmentOf100Usd.run (envOf 1) buildPeFund).2 ≠ buildPeFund := by
  have hbefore : buildPeFund.accounts.rows.length = 7 := by decide +kernel
  have hafter : (investmentOf100Usd.run (envOf 1) buildPeFund).2.accounts.rows.length = 8 := by
    decide +kernel
  refine ⟨by decide +kernel, hbefore, hafter, fun h => ?_⟩
  rw [h, hbefore] at hafter
  cases hafter

end FundLedger
