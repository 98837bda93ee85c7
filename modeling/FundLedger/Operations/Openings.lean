import FundLedger.Operations.ChartCodes

/-!
# Which accounts are opened

Two functions open accounts: `open_fund_accounts`, in the base currency of the
fund, and `record_investment`, for the portfolio only.  `Opens P` says that the
accounts which are new satisfy `P`.
-/

namespace FundLedger

open Lib

/-- The accounts of `db'` that are not accounts of `db` satisfy `P`. -/
structure Opens (P : Account → Prop) (db db' : Db) : Prop where
  funds : db'.funds = db.funds
  accounts : ∀ a ∈ db'.accounts, a ∈ db.accounts ∨ P a

section

variable {P : Account → Prop}

theorem Opens.refl (db : Db) : Opens P db db := ⟨rfl, fun _ ha => .inl ha⟩

theorem Opens.trans (a b c : Db) (h : Opens P a b) (h' : Opens P b c) : Opens P a c := by
  refine ⟨h'.funds.trans h.funds, fun x hx => ?_⟩
  rcases h'.accounts x hx with hx | hx
  · exact h.accounts x hx
  · exact .inr hx

theorem Opens.of_eq {db db' : Db} (hf : db'.funds = db.funds) (ha : db'.accounts = db.accounts) :
    Opens P db db' := ⟨hf, fun _ hx => .inl (ha ▸ hx)⟩

theorem postTransfer_opens (env : Env) (a : Posting) (db : Db) :
    Opens P db (postTransfer env a db).2 := by
  rcases hrun : postTransfer env a db with ⟨e | t, db'⟩
  · rw [postTransfer_failSafe env a db e db' hrun]
    exact .refl db
  · obtain ⟨-, es, hposted⟩ := postTransfer_ok hrun
    obtain ⟨transfers, entries, -, -, rfl⟩ := hposted.appended
    exact .of_eq rfl rfl

theorem runIdempotent_opens {α : Type} {key : String} {requestHash : RequestHash} {create : M α}
    {replay : Transfer → M α} (hr : ∀ t, Tx.ReadOnly (replay t)) {db : Db}
    (hcreate : Opens P db (create db).2) :
    Opens P db (runIdempotent key requestHash create replay db).2 := by
  rcases hrun : runIdempotent key requestHash create replay db with ⟨e | ⟨r, created⟩, db'⟩
  · rw [runIdempotent_failSafe hr db e db' hrun]
    exact .refl db
  · rcases runIdempotent_ok hr hrun with ⟨-, -, hok⟩ | ⟨-, rfl⟩
    · rwa [hok] at hcreate
    · exact .refl _

theorem postTransferIdempotent_opens (env : Env) (a : Posting) (db : Db) :
    Opens P db (postTransferIdempotent env a db).2 := by
  refine Tx.lift_bind_rel (.refl db) fun legs _ => Tx.lift_bind_rel (.refl db) fun hash _ => ?_
  exact runIdempotent_opens (fun _ => Tx.readOnly_pure _) (postTransfer_opens env _ db)

theorem getOrCreateAccount_opens {defaults : Account} (hP : P defaults) (db : Db) :
    Opens P db (getOrCreateAccount defaults db).2 := by
  rw [getOrCreateAccount, Tx.read_bind]
  cases findAccount db defaults.fund defaults.code with
  | some account => exact .refl db
  | none =>
    dsimp only
    rw [Tx.bind_readOnly_snd fun _ => Tx.readOnly_pure _]
    refine Tx.statement_rel (.refl db) fun db₁ hins => ⟨?_, fun b hb => ?_⟩
    · obtain ⟨-, -, -, -, -, accounts, -, rfl⟩ := insertAccount_ok hins
      rfl
    · rcases (mem_accounts_insert hins).mp hb with hb | rfl
      · exact .inl hb
      · exact .inr hP

theorem reverseTransfer_opens (env : Env) (transferId : Uuid) (key : String) (period : Period)
    (createdBy : String) (db : Db) :
    Opens P db (reverseTransfer env transferId key period createdBy db).2 := by
  rw [reverseTransfer, Tx.read_bind]
  refine Tx.lift_bind_rel (.refl db) fun original _ => Tx.lift_bind_rel (.refl db) fun _ _ =>
    Tx.lift_bind_rel (.refl db) fun _ _ => ?_
  have hhandler : ∀ e : Exc, Tx.ReadOnly (if e = .integrity reversesConstraint then
      throw (.ledger .AlreadyReversed [.lit "transfer ", .uuid original.id,
        .lit " was already reversed"])
    else throw e : M (Transfer × Bool)) := by
    intro e
    split <;> exact Tx.readOnly_throw _
  rw [Tx.tryCatch_snd hhandler]
  exact runIdempotent_opens (fun _ => Tx.readOnly_pure _) (postTransfer_opens env _ db)

theorem createCapitalCall_opens (env : Env) (fundId : Uuid) (key : String) (total : Amount)
    (noticeDate dueDate : Date) (createdBy : String) (db : Db) :
    Opens P db (createCapitalCall env fundId key total noticeDate dueDate createdBy db).2 := by
  refine Tx.lift_bind_rel (.refl db) fun units _ => runIdempotent_opens (fun t => ?_) ?_
  · exact .bind Tx.readOnly_read fun _ => Tx.readOnly_lift _
  rw [postCapitalCall, Tx.read_bind]
  refine Tx.lift_bind_rel (.refl db) fun plan _ => ?_
  refine Tx.bind_rel Opens.trans (postTransfer_opens env _ db) fun t db₁ _ =>
    Tx.lift_bind_rel (.refl db₁) fun amount _ => ?_
  rw [Tx.bind_readOnly_snd fun _ => Tx.readOnly_pure _]
  refine Tx.statement_rel (.refl db₁) fun db₂ hins => ?_
  obtain ⟨-, -, calls, -, rfl⟩ := insertCapitalCall_ok hins
  exact .of_eq rfl rfl

theorem createDistribution_opens (env : Env) (fundId : Uuid) (key : String) (total : Amount)
    (paymentDate : Date) (classification : DistributionClassification) (createdBy : String)
    (db : Db) : Opens P db
      (createDistribution env fundId key total paymentDate classification createdBy db).2 := by
  refine Tx.lift_bind_rel (.refl db) fun units _ => runIdempotent_opens (fun t => ?_) ?_
  · exact .bind Tx.readOnly_read fun _ => Tx.readOnly_lift _
  rw [postDistribution, Tx.read_bind]
  refine Tx.lift_bind_rel (.refl db) fun plan _ => ?_
  refine Tx.bind_rel Opens.trans (postTransfer_opens env _ db) fun t db₁ _ =>
    Tx.lift_bind_rel (.refl db₁) fun amount _ => ?_
  rw [Tx.bind_readOnly_snd fun _ => Tx.readOnly_pure _]
  refine Tx.statement_rel (.refl db₁) fun db₂ hins => ?_
  obtain ⟨-, -, dists, -, rfl⟩ := insertDistribution_ok hins
  exact .of_eq rfl rfl

theorem recordInvestment_opens (env : Env) (fundId : Uuid) (key : String) (amount : Amount)
    (currency : String) (onDate : Date) (hP : ∀ a, a.accountType = .INVESTMENT → P a) (db : Db) :
    Opens P db (recordInvestment env fundId key amount currency onDate db).2 := by
  rw [recordInvestment, Tx.read_bind]
  refine Tx.lift_bind_rel (.refl db) fun fund _ => Tx.lift_bind_rel (.refl db) fun period _ => ?_
  refine Tx.bind_rel Opens.trans ?_ fun investment db₁ _ => ?_
  · exact Tx.lift_bind_rel (.refl db) fun code _ => getOrCreateAccount_opens (hP _ rfl) db
  · rw [Tx.read_bind]
    exact Tx.lift_bind_rel (.refl db₁) fun cash _ => Tx.lift_bind_rel (.refl db₁) fun legs _ =>
      postTransferIdempotent_opens env _ db₁

theorem chargeFee_opens (env : Env) (fundId : Uuid) (key : String) (amount : Amount)
    (onDate : Date) (db : Db) : Opens P db (chargeFee env fundId key amount onDate db).2 := by
  rw [chargeFee, Tx.read_bind]
  exact Tx.lift_bind_rel (.refl db) fun p _ => postTransferIdempotent_opens env p db

theorem recordValuation_opens (env : Env) (fundId : Uuid) (key : String) (change : Amount)
    (onDate : Date) (db : Db) :
    Opens P db (recordValuation env fundId key change onDate db).2 := by
  rw [recordValuation, Tx.read_bind]
  exact Tx.lift_bind_rel (.refl db) fun p _ => postTransferIdempotent_opens env p db

theorem closePeriod_opens (env : Env) (fundId periodId : Uuid) (closedBy : String) (db : Db) :
    Opens P db (closePeriod env fundId periodId closedBy db).2 := by
  rcases hrun : closePeriod env fundId periodId closedBy db with ⟨e | ⟨p, changed⟩, db'⟩
  · rw [closePeriod_failSafe env fundId periodId closedBy db e db' hrun]
    exact .refl db
  · obtain ⟨period, -, ⟨-, -, rfl⟩ | ⟨-, -, -, hupdate⟩⟩ := closePeriod_ok hrun
    · exact .refl _
    · obtain ⟨-, rfl⟩ := updatePeriod_ok hupdate
      exact .of_eq rfl rfl

end

/-- The business operations, reversals and closings open no cash account. -/
theorem Op.run_opens {env : Env} {op : Op} (hop : op.IsBusiness) (db : Db) :
    Opens (fun a => a.accountType ≠ .CASH) db (op.run env db).2 := by
  have hdrop : ∀ {α : Type} {m : M α}, Opens (fun a => a.accountType ≠ .CASH) db (m db).2 →
      Opens (fun a => a.accountType ≠ .CASH) db ((m >>= fun _ => pure PUnit.unit : M Unit) db).2 := by
    intro α m h
    rwa [Tx.bind_readOnly_snd fun _ => Tx.readOnly_pure _]
  cases op with
  | postTransfer => exact hop.elim
  | postTransferIdempotent => exact hop.elim
  | reverseTransfer transferId key periodId seen createdBy =>
    rw [Op.run, Tx.read_bind]
    exact Tx.lift_bind_rel (.refl db) fun period _ => hdrop (reverseTransfer_opens ..)
  | createCapitalCall => exact hdrop (createCapitalCall_opens ..)
  | createDistribution => exact hdrop (createDistribution_opens ..)
  | recordInvestment =>
    refine hdrop (recordInvestment_opens _ _ _ _ _ _ (fun a ha => ?_) db)
    rw [ha]
    decide
  | chargeFee => exact hdrop (chargeFee_opens ..)
  | recordValuation => exact hdrop (recordValuation_opens ..)
  | closePeriod => exact hdrop (closePeriod_opens ..)

/-- `a` is an account of the fund in its base currency. -/
def InBaseOf (fund : Fund) (a : Account) : Prop :=
  a.fund = fund.id ∧ a.currency = fund.baseCurrency

theorem openFundAccounts_opens (env : Env) (fund : Fund) (db : Db) :
    Opens (InBaseOf fund) db (openFundAccounts env fund db).2 := by
  refine Tx.bind_rel Opens.trans ?_ fun _ db₁ _ => ?_
  · refine Tx.Moves.forM Opens.refl Opens.trans (fun t _ d => ?_) db
    rw [Tx.bind_readOnly_snd fun _ => Tx.readOnly_pure _]
    exact Tx.lift_bind_rel (.refl d) fun code _ => getOrCreateAccount_opens ⟨rfl, rfl⟩ d
  · rw [Tx.read_bind]
    refine Tx.Moves.forM Opens.refl Opens.trans (fun c _ d => ?_) db₁
    rw [Tx.bind_readOnly_snd fun _ => Tx.readOnly_pure _]
    exact Tx.lift_bind_rel (.refl d) fun code _ => getOrCreateAccount_opens ⟨rfl, rfl⟩ d

end FundLedger
