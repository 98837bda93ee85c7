import FundLedger.Ledger.Posting
import FundLedger.Operations.Services

/-!
# The changes that operations make

Whatever an operation does to the database is a sequence of changes of five
kinds: a posting, a new account, a new document of either sort, or the closing
of a period.  `Change Q` lists them, where `Q` says what is known about the
posting.  An operation is opened up once, here; an invariant of the database
is then a matter of the five kinds.
-/

namespace FundLedger

open Lib Relation

/-- The period object of a caller is a stored row, up to the columns that can
have changed since it was read. -/
def Holds (db : Db) (p : Period) : Prop := ∃ q ∈ db.periods, q.id = p.id ∧ q.fund = p.fund

/-- One change, in some environment. -/
inductive Change (Q : Db → Posting → Prop) : Db → Db → Prop
  | posted {env : Env} {a : Posting} {db db' : Db} {es : List Entry} (known : Q db a)
      (held : Holds db a.period) (posted : Posted env a db db' es) : Change Q db db'
  | accountOpened {a : Account} {db db' : Db} (inserted : insertAccount db a = .ok db')
      (standard : accountCode a.accountType a.currency a.ownerLp = .ok a.code) : Change Q db db'
  | capitalCall {c : CapitalCall} {db db' : Db} (inserted : insertCapitalCall db c = .ok db') :
      Change Q db db'
  | distribution {d : Distribution} {db db' : Db} (inserted : insertDistribution db d = .ok db') :
      Change Q db db'
  | periodClosed {period : Uuid} {now : Timestamp} {closedBy : String} {db db' : Db}
      (updated : updatePeriod db period now closedBy = .ok db') : Change Q db db'

/-- A sequence of changes. -/
abbrev Changes (Q : Db → Posting → Prop) : Db → Db → Prop := ReflTransGen (Change Q)

section

variable {Q : Db → Posting → Prop}

theorem postTransfer_changes {env : Env} {a : Posting} {db : Db} (hQ : Q db a)
    (held : Holds db a.period) : Changes Q db (postTransfer env a db).2 := by
  rcases hrun : postTransfer env a db with ⟨e | t, db'⟩
  · rw [postTransfer_failSafe env a db e db' hrun]
  · obtain ⟨-, es, hposted⟩ := postTransfer_ok hrun
    exact .single (.posted hQ held hposted)

theorem runIdempotent_changes {α : Type} {key : String} {requestHash : RequestHash}
    {create : M α} {replay : Transfer → M α} (hr : ∀ t, Tx.ReadOnly (replay t)) {db : Db}
    (hcreate : Changes Q db (create db).2) :
    Changes Q db (runIdempotent key requestHash create replay db).2 := by
  rcases hrun : runIdempotent key requestHash create replay db with ⟨e | ⟨r, created⟩, db'⟩
  · rw [runIdempotent_failSafe hr db e db' hrun]
  · rcases runIdempotent_ok hr hrun with ⟨-, -, hok⟩ | ⟨-, rfl⟩
    · rwa [hok] at hcreate
    · exact .refl

/-- More may be known about a posting than is asked for. -/
theorem Changes.mono {Q' : Db → Posting → Prop} (h : ∀ db a, Q db a → Q' db a) {db db' : Db}
    (hc : Changes Q db db') : Changes Q' db db' := by
  refine ReflTransGen.mono (r := Change Q) ?_ _ _ hc
  rintro d d' (⟨known, held, posted⟩ | ⟨inserted, standard⟩ | inserted | inserted |
    updated)
  · exact .posted (h _ _ known) held posted
  · exact .accountOpened inserted standard
  · exact .capitalCall inserted
  · exact .distribution inserted
  · exact .periodClosed updated

end

/-! ## Where postings come from -/

/-- `investment` was found or opened under its code. -/
def InvestmentAccount (db : Db) (fund : Fund) (currency : String) (a : Account) : Prop :=
  findAccount db fund.id ("INVESTMENT-" ++ currencyOrBase fund currency) = some a

/-- The postings of the business operations and of reversals: for each, the
function that worked out its legs, and the arguments it was given. -/
inductive Business (db : Db) (a : Posting) : Prop
  | capitalCall (env : Env) (fundId : Uuid) (total : Amount) (noticeDate : Date) (plan : Plan)
      (planned : planCapitalCall env db fundId total noticeDate = .ok plan)
      (legs : a.legs = plan.legs) (period : a.period = plan.period)
      (type : a.transferType = .CAPITAL_CALL) (reverses : a.reverses = none)
  | distribution (env : Env) (fundId : Uuid) (total : Amount) (paymentDate : Date) (plan : Plan)
      (planned : planDistribution env db fundId total paymentDate = .ok plan)
      (legs : a.legs = plan.legs) (period : a.period = plan.period)
      (type : a.transferType = .DISTRIBUTION) (reverses : a.reverses = none)
  | investment (fund : Fund) (investment cash : Account) (amount : Amount) (currency : String)
      (onDate : Date) (fund_mem : fund ∈ db.funds)
      (opened : InvestmentAccount db fund currency investment)
      (paid : getAccount db fund .CASH = .ok cash)
      (legs : investmentLegs db fund investment cash amount currency onDate = .ok a.legs)
      (period : periodFor db fund.id onDate = .ok a.period)
      (type : a.transferType = .INVESTMENT) (reverses : a.reverses = none)
  | fee (fundId : Uuid) (key : String) (amount : Amount) (onDate : Date) (p : Posting)
      (planned : feePosting db fundId key amount onDate = .ok p)
      (legs : a.legs = p.legs) (period : a.period = p.period)
      (type : a.transferType = .FEE) (reverses : a.reverses = none)
  | valuation (fundId : Uuid) (key : String) (change : Amount) (onDate : Date) (p : Posting)
      (planned : valuationPosting db fundId key change onDate = .ok p)
      (legs : a.legs = p.legs) (period : a.period = p.period)
      (type : a.transferType = .ADJUSTMENT) (reverses : a.reverses = none)
  | reversal (original : Transfer) (mem : original ∈ db.transfers)
      (not_reversal : original.transferType ≠ .REVERSAL)
      (legs : a.legs = (entriesById db original.id).map flippedLeg)
      (type : a.transferType = .REVERSAL) (reverses : a.reverses = some original.id)

/-- A capital call was planned. -/
theorem Business.planned {db : Db} {a : Posting} (h : Business db a)
    (hcall : a.transferType = .CAPITAL_CALL) :
    ∃ env fundId total noticeDate plan,
      planCapitalCall env db fundId total noticeDate = .ok plan ∧ a.legs = plan.legs ∧
        a.period = plan.period := by
  cases h with
  | capitalCall env fundId total noticeDate plan planned legs period =>
    exact ⟨env, fundId, total, noticeDate, plan, planned, legs, period⟩
  | distribution _ _ _ _ _ _ _ _ type => cases type.symm.trans hcall
  | investment _ _ _ _ _ _ _ _ _ _ _ type => cases type.symm.trans hcall
  | fee _ _ _ _ _ _ _ _ type => cases type.symm.trans hcall
  | valuation _ _ _ _ _ _ _ _ type => cases type.symm.trans hcall
  | reversal _ _ _ _ type => cases type.symm.trans hcall

/-- A reversal has an original. -/
theorem Business.original {db : Db} {a : Posting} (h : Business db a)
    (hkind : a.transferType = .REVERSAL) :
    ∃ o ∈ db.transfers, o.transferType ≠ .REVERSAL ∧
      a.legs = (entriesById db o.id).map flippedLeg ∧ a.reverses = some o.id := by
  cases h with
  | reversal original mem not_reversal legs _ reverses =>
    exact ⟨original, mem, not_reversal, legs, reverses⟩
  | capitalCall _ _ _ _ _ _ _ _ type => cases type.symm.trans hkind
  | distribution _ _ _ _ _ _ _ _ type => cases type.symm.trans hkind
  | investment _ _ _ _ _ _ _ _ _ _ _ type => cases type.symm.trans hkind
  | fee _ _ _ _ _ _ _ _ type => cases type.symm.trans hkind
  | valuation _ _ _ _ _ _ _ _ type => cases type.symm.trans hkind

/-! ## The engine under a key -/

theorem postTransferIdempotent_changes {Q : Db → Posting → Prop} {env : Env} {a : Posting}
    {db : Db} (hQ : ∀ requestHash, Q db { a with reverses := none, requestHash })
    (held : Holds db a.period) : Changes Q db (postTransferIdempotent env a db).2 := by
  refine Tx.lift_bind_rel .refl fun legs _ => Tx.lift_bind_rel .refl fun requestHash _ => ?_
  exact runIdempotent_changes (fun _ => Tx.readOnly_pure _)
    (postTransfer_changes (hQ requestHash) held)

/-- `Q` is known of every business posting of one type. -/
def Issues (Q : Db → Posting → Prop) (type : TransferType) : Prop :=
  ∀ db a, Business db a → a.transferType = type → Q db a

theorem issues_business (type : TransferType) : Issues Business type := fun _ _ h _ => h

section

variable {Q : Db → Posting → Prop}

theorem reverseTransfer_changes_of (hQ : Issues Q .REVERSAL) {env : Env} {transferId : Uuid}
    {key : String} {period : Period} {createdBy : String} {db : Db} (held : Holds db period) :
    Changes Q db (reverseTransfer env transferId key period createdBy db).2 := by
  unfold reverseTransfer
  rw [Tx.read_bind]
  refine Tx.lift_bind_rel .refl fun original horiginal => ?_
  obtain ⟨hmem, -⟩ := Table.get?_eq_some.mp (orRaise_eq_ok.mp horiginal)
  refine Tx.lift_bind_rel .refl fun _ hkind => Tx.lift_bind_rel .refl fun _ _ => ?_
  have hhandler : ∀ e : Exc, Tx.ReadOnly (if e = .integrity reversesConstraint then
      throw (.ledger .AlreadyReversed [.lit "transfer ", .uuid original.id,
        .lit " was already reversed"])
    else throw e : M (Transfer × Bool)) := by
    intro e
    split <;> exact Tx.readOnly_throw _
  rw [Tx.tryCatch_snd hhandler]
  exact runIdempotent_changes (fun _ => Tx.readOnly_pure _)
    (postTransfer_changes
      (hQ _ _ (.reversal original hmem (require_eq_ok.mp hkind) rfl rfl rfl) rfl) held)

end

theorem reverseTransfer_changes {env : Env} {transferId : Uuid} {key : String} {period : Period}
    {createdBy : String} {db : Db} (held : Holds db period) :
    Changes Business db (reverseTransfer env transferId key period createdBy db).2 :=
  reverseTransfer_changes_of (issues_business _) held

/-! ## Documents -/

theorem periodFor_mem {db : Db} {fund : Uuid} {onDate : Date} {p : Period}
    (h : periodFor db fund onDate = .ok p) :
    p ∈ db.periods ∧ p.fund = fund ∧ p.startDate ≤ onDate ∧ onDate ≤ p.endDate := by
  have hmem := List.argmin_mem (orRaise_eq_ok.mp h)
  rw [List.mem_filter] at hmem
  simpa [and_assoc] using hmem

theorem holds_periodFor {db : Db} {fund : Uuid} {onDate : Date} {p : Period}
    (h : periodFor db fund onDate = .ok p) : Holds db p :=
  ⟨p, (periodFor_mem h).1, rfl, rfl⟩

theorem planCapitalCall_ok {env : Env} {db : Db} {fundId : Uuid} {total : Amount}
    {noticeDate : Date} {plan : Plan} (h : planCapitalCall env db fundId total noticeDate = .ok plan) :
    ∃ fund commitments shares cash, getFund db fundId = .ok fund ∧
      periodFor db fund.id noticeDate = .ok plan.period ∧
      proRata env db fund total = .ok (commitments, shares) ∧
      checkUnfunded db commitments (lpCapitalAccounts db fund) shares = .ok () ∧
      getAccount db fund .CASH = .ok cash ∧
      shareLegs (fun _ => .ok cash.id)
        (fun lp => Account.id <$> lookup (lpCapitalAccounts db fund) lp) shares = .ok plan.legs ∧
      plan.number = nextCallNumber db fund.id := by
  simp only [planCapitalCall, except_bind_ok, except_pure] at h
  obtain ⟨fund, hfund, period, hperiod, ⟨commitments, shares⟩, hshares, ⟨⟩, hunfunded, cash, hcash,
    legs, hlegs, rfl⟩ := h
  exact ⟨fund, commitments, shares, cash, hfund, hperiod, hshares, hunfunded, hcash, hlegs, rfl⟩

theorem planDistribution_ok {env : Env} {db : Db} {fundId : Uuid} {total : Amount}
    {paymentDate : Date} {plan : Plan}
    (h : planDistribution env db fundId total paymentDate = .ok plan) :
    ∃ fund commitments shares cash, getFund db fundId = .ok fund ∧
      periodFor db fund.id paymentDate = .ok plan.period ∧
      proRata env db fund total = .ok (commitments, shares) ∧
      getAccount db fund .CASH = .ok cash ∧
      shareLegs (fun lp => Account.id <$> lookup (lpCapitalAccounts db fund) lp)
        (fun _ => .ok cash.id) shares = .ok plan.legs ∧
      plan.number = nextDistributionNumber db fund.id := by
  simp only [planDistribution, except_bind_ok, except_pure] at h
  obtain ⟨fund, hfund, period, hperiod, ⟨commitments, shares⟩, hshares, cash, hcash, legs, hlegs,
    rfl⟩ := h
  exact ⟨fund, commitments, shares, cash, hfund, hperiod, hshares, hcash, hlegs, rfl⟩

/-- What creating a capital call did: a posting, and then the document. -/
theorem postCapitalCall_ok {env : Env} {fundId : Uuid} {key : String} {total : Amount}
    {noticeDate dueDate : Date} {createdBy : String} {requestHash : RequestHash} {db db' : Db}
    {c : CapitalCall}
    (h : postCapitalCall env fundId key total noticeDate dueDate createdBy requestHash db =
      (.ok c, db')) :
    ∃ plan es db₁ units, planCapitalCall env db fundId total noticeDate = .ok plan ∧
      Posted env (capitalCallPosting plan key requestHash createdBy) db db₁ es ∧
      storedAmount total = .ok units ∧
      c = { id := env.uuid4 .document, fund := fundId, callNumber := plan.number, noticeDate
            dueDate, totalAmount := units, transfer := env.uuid4 .transfer } ∧
      insertCapitalCall db₁ c = .ok db' := by
  rw [postCapitalCall, Tx.read_bind] at h
  obtain ⟨plan, db₀, hlift, h₁⟩ := Tx.bind_ok.mp h
  obtain ⟨hplan, hdb₀⟩ := Tx.lift_eq.mp hlift
  subst hdb₀
  obtain ⟨t, db₁, hpost, h₂⟩ := Tx.bind_ok.mp h₁
  obtain ⟨rfl, es, hposted⟩ := postTransfer_ok hpost
  obtain ⟨units, db₂, hlift₂, h₃⟩ := Tx.bind_ok.mp h₂
  obtain ⟨hunits, hdb₂⟩ := Tx.lift_eq.mp hlift₂
  subst hdb₂
  obtain ⟨_, db₃, hst, hret⟩ := Tx.bind_ok.mp h₃
  obtain ⟨hc, hdb₃⟩ := Tx.pure_eq.mp hret
  subst hdb₃
  cases hc
  exact ⟨plan, es, _, units, hplan.symm, hposted, hunits.symm, rfl, Tx.statement_ok.mp hst⟩

/-- What creating a distribution did: a posting, and then the document. -/
theorem postDistribution_ok {env : Env} {fundId : Uuid} {key : String} {total : Amount}
    {paymentDate : Date} {classification : DistributionClassification} {createdBy : String}
    {requestHash : RequestHash} {db db' : Db} {d : Distribution}
    (h : postDistribution env fundId key total paymentDate classification createdBy requestHash
      db = (.ok d, db')) :
    ∃ plan es db₁ units, planDistribution env db fundId total paymentDate = .ok plan ∧
      Posted env (distributionPosting plan classification key requestHash createdBy) db db₁ es ∧
      storedAmount total = .ok units ∧
      d = { id := env.uuid4 .document, fund := fundId, distributionNumber := plan.number
            paymentDate, totalAmount := units, classification
            transfer := env.uuid4 .transfer } ∧
      insertDistribution db₁ d = .ok db' := by
  rw [postDistribution, Tx.read_bind] at h
  obtain ⟨plan, db₀, hlift, h₁⟩ := Tx.bind_ok.mp h
  obtain ⟨hplan, hdb₀⟩ := Tx.lift_eq.mp hlift
  subst hdb₀
  obtain ⟨t, db₁, hpost, h₂⟩ := Tx.bind_ok.mp h₁
  obtain ⟨rfl, es, hposted⟩ := postTransfer_ok hpost
  obtain ⟨units, db₂, hlift₂, h₃⟩ := Tx.bind_ok.mp h₂
  obtain ⟨hunits, hdb₂⟩ := Tx.lift_eq.mp hlift₂
  subst hdb₂
  obtain ⟨_, db₃, hst, hret⟩ := Tx.bind_ok.mp h₃
  obtain ⟨hd, hdb₃⟩ := Tx.pure_eq.mp hret
  subst hdb₃
  cases hd
  exact ⟨plan, es, _, units, hplan.symm, hposted, hunits.symm, rfl, Tx.statement_ok.mp hst⟩

section

variable {Q : Db → Posting → Prop}

private theorem trans (a b c : Db) : Changes Q a b → Changes Q b c → Changes Q a c :=
  ReflTransGen.trans

theorem createCapitalCall_changes_of (hQ : Issues Q .CAPITAL_CALL) {env : Env} {fundId : Uuid}
    {key : String} {total : Amount} {noticeDate dueDate : Date} {createdBy : String} {db : Db} :
    Changes Q db
      (createCapitalCall env fundId key total noticeDate dueDate createdBy db).2 := by
  refine Tx.lift_bind_rel .refl fun units _ => runIdempotent_changes (fun t => ?_) ?_
  · exact .bind Tx.readOnly_read fun _ => Tx.readOnly_lift _
  rw [postCapitalCall, Tx.read_bind]
  refine Tx.lift_bind_rel .refl fun plan hplan => ?_
  obtain ⟨fund, commitments, shares, cash, -, hperiod, -⟩ := planCapitalCall_ok hplan
  refine Tx.bind_rel trans ?_ fun t db₁ _ => Tx.lift_bind_rel .refl fun amount _ => ?_
  · exact postTransfer_changes
      (hQ _ _ (.capitalCall env fundId total noticeDate plan hplan rfl rfl rfl rfl) rfl)
      (holds_periodFor hperiod)
  · rw [Tx.bind_readOnly_snd fun _ => Tx.readOnly_pure _]
    exact Tx.statement_rel .refl fun db₂ hins => .single (.capitalCall hins)

theorem createDistribution_changes_of (hQ : Issues Q .DISTRIBUTION) {env : Env} {fundId : Uuid}
    {key : String} {total : Amount} {paymentDate : Date}
    {classification : DistributionClassification} {createdBy : String} {db : Db} :
    Changes Q db
      (createDistribution env fundId key total paymentDate classification createdBy db).2 := by
  refine Tx.lift_bind_rel .refl fun units _ => runIdempotent_changes (fun t => ?_) ?_
  · exact .bind Tx.readOnly_read fun _ => Tx.readOnly_lift _
  rw [postDistribution, Tx.read_bind]
  refine Tx.lift_bind_rel .refl fun plan hplan => ?_
  obtain ⟨fund, commitments, shares, cash, -, hperiod, -⟩ := planDistribution_ok hplan
  refine Tx.bind_rel trans ?_ fun t db₁ _ => Tx.lift_bind_rel .refl fun amount _ => ?_
  · exact postTransfer_changes
      (hQ _ _ (.distribution env fundId total paymentDate plan hplan rfl rfl rfl rfl) rfl)
      (holds_periodFor hperiod)
  · rw [Tx.bind_readOnly_snd fun _ => Tx.readOnly_pure _]
    exact Tx.statement_rel .refl fun db₂ hins => .single (.distribution hins)

/-! ## Investments, fees and valuations -/

theorem getOrCreateAccount_changes {defaults : Account}
    (standard : accountCode defaults.accountType defaults.currency defaults.ownerLp =
      .ok defaults.code) (db : Db) :
    Changes Q db (getOrCreateAccount defaults db).2 := by
  rw [getOrCreateAccount, Tx.read_bind]
  cases hfind : findAccount db defaults.fund defaults.code with
  | some account => exact .refl
  | none =>
    dsimp only
    rw [Tx.bind_readOnly_snd fun _ => Tx.readOnly_pure _]
    exact Tx.statement_rel .refl fun db₁ hins => .single (.accountOpened hins standard)

/-- What a purchase posts. -/
structure Purchase (db : Db) (a : Posting) (currency : String) : Prop where
  bought : ∃ fund investment cash amount onDate, fund ∈ db.funds ∧
    InvestmentAccount db fund currency investment ∧ getAccount db fund .CASH = .ok cash ∧
    investmentLegs db fund investment cash amount currency onDate = .ok a.legs ∧
    periodFor db fund.id onDate = .ok a.period
  type : a.transferType = .INVESTMENT
  reverses : a.reverses = none

theorem Purchase.business {db : Db} {a : Posting} {currency : String}
    (h : Purchase db a currency) : Business db a := by
  obtain ⟨fund, investment, cash, amount, onDate, hmem, hopened, hpaid, hlegs, hperiod⟩ := h.bought
  exact .investment fund investment cash amount currency onDate hmem hopened hpaid hlegs hperiod
    h.type h.reverses

theorem recordInvestment_changes_of {currency : String}
    (hQ : ∀ d a, Purchase d a currency → Q d a) {env : Env} {fundId : Uuid} {key : String}
    {amount : Amount} {onDate : Date} {db : Db} :
    Changes Q db (recordInvestment env fundId key amount currency onDate db).2 := by
  rw [recordInvestment, Tx.read_bind]
  refine Tx.lift_bind_rel .refl fun fund hfund => ?_
  refine Tx.lift_bind_rel .refl fun period hperiod => ?_
  have hmem : fund ∈ db.funds := Table.mem_of_get? (orRaise_eq_ok.mp hfund)
  refine Tx.bind_rel trans ?_ fun investment db₁ hopen => ?_
  · exact Tx.lift_bind_rel .refl fun code hcode =>
      getOrCreateAccount_changes hcode db
  · obtain ⟨code, hcode, hfind, hcase⟩ := ensureAccount_ok hopen
    cases hcode
    -- opening an account leaves the funds and the periods as they were
    have hsame : db₁.funds = db.funds ∧ db₁.periods = db.periods := by
      rcases hcase with rfl | ⟨-, hins⟩
      · exact ⟨rfl, rfl⟩
      · obtain ⟨-, -, -, -, -, accounts, -, rfl⟩ := insertAccount_ok hins
        exact ⟨rfl, rfl⟩
    have hperiod₁ : periodFor db₁ fund.id onDate = .ok period := by
      rw [← hperiod, periodFor, periodFor, hsame.2]
    rw [Tx.read_bind]
    refine Tx.lift_bind_rel .refl fun cash hcash => Tx.lift_bind_rel .refl fun legs hlegs => ?_
    refine postTransferIdempotent_changes (fun requestHash => ?_) (holds_periodFor hperiod₁)
    exact hQ _ _ ⟨⟨fund, investment, cash, amount, onDate, hsame.1 ▸ hmem, hfind, hcash, hlegs,
      hperiod₁⟩, rfl, rfl⟩

theorem feePosting_ok {db : Db} {fundId : Uuid} {key : String} {amount : Amount} {onDate : Date}
    {p : Posting} (h : feePosting db fundId key amount onDate = .ok p) :
    ∃ fund expense cash, getFund db fundId = .ok fund ∧
      getAccount db fund .FEE_EXPENSE = .ok expense ∧ getAccount db fund .CASH = .ok cash ∧
      periodFor db fund.id onDate = .ok p.period ∧ p.transferType = .FEE ∧
      p.idempotencyKey = key ∧ p.reverses = none ∧
      p.legs = [
        { accountId := expense.id, direction := Direction.DEBIT.value, amount },
        { accountId := cash.id, direction := Direction.CREDIT.value, amount }] := by
  simp only [feePosting, except_bind_ok, except_pure] at h
  obtain ⟨fund, hfund, expense, hexpense, cash, hcash, period, hperiod, rfl⟩ := h
  exact ⟨fund, expense, cash, hfund, hexpense, hcash, hperiod, rfl, rfl, rfl, rfl⟩

theorem chargeFee_changes_of (hQ : Issues Q .FEE) {env : Env} {fundId : Uuid} {key : String}
    {amount : Amount} {onDate : Date} {db : Db} :
    Changes Q db (chargeFee env fundId key amount onDate db).2 := by
  rw [chargeFee, Tx.read_bind]
  refine Tx.lift_bind_rel .refl fun p hp => ?_
  obtain ⟨fund, expense, cash, -, -, -, hperiod, htype, -⟩ := feePosting_ok hp
  exact postTransferIdempotent_changes
    (fun requestHash => hQ _ _ (.fee fundId key amount onDate p hp rfl rfl htype rfl) htype)
    (holds_periodFor hperiod)

theorem valuationPosting_ok {db : Db} {fundId : Uuid} {key : String} {change : Amount}
    {onDate : Date} {p : Posting} (h : valuationPosting db fundId key change onDate = .ok p) :
    ∃ fund investment gainLoss debit credit size, getFund db fundId = .ok fund ∧
      getAccount db fund .INVESTMENT = .ok investment ∧
      getAccount db fund .GAIN_LOSS = .ok gainLoss ∧
      (debit = investment ∧ credit = gainLoss ∨ debit = gainLoss ∧ credit = investment) ∧
      periodFor db fund.id onDate = .ok p.period ∧ p.transferType = .ADJUSTMENT ∧
      p.idempotencyKey = key ∧ p.reverses = none ∧
      p.legs = [
        { accountId := debit.id, direction := Direction.DEBIT.value, amount := size },
        { accountId := credit.id, direction := Direction.CREDIT.value, amount := size }] := by
  simp only [valuationPosting, except_bind_ok, except_pure] at h
  obtain ⟨⟨⟩, -, fund, hfund, investment, hinv, gainLoss, hgain, ⟨up, size⟩, -, period, hperiod,
    rfl⟩ := h
  cases up with
  | true =>
    exact ⟨fund, investment, gainLoss, investment, gainLoss, size, hfund, hinv, hgain,
      .inl ⟨rfl, rfl⟩, hperiod, rfl, rfl, rfl, rfl⟩
  | false =>
    exact ⟨fund, investment, gainLoss, gainLoss, investment, size, hfund, hinv, hgain,
      .inr ⟨rfl, rfl⟩, hperiod, rfl, rfl, rfl, rfl⟩

theorem recordValuation_changes_of (hQ : Issues Q .ADJUSTMENT) {env : Env} {fundId : Uuid}
    {key : String} {change : Amount} {onDate : Date} {db : Db} :
    Changes Q db (recordValuation env fundId key change onDate db).2 := by
  rw [recordValuation, Tx.read_bind]
  refine Tx.lift_bind_rel .refl fun p hp => ?_
  obtain ⟨fund, investment, gainLoss, debit, credit, size, -, -, -, -, hperiod, htype, -⟩ :=
    valuationPosting_ok hp
  exact postTransferIdempotent_changes
    (fun requestHash => hQ _ _ (.valuation fundId key change onDate p hp rfl rfl htype rfl) htype)
    (holds_periodFor hperiod)

/-! ## Closing -/

theorem closePeriod_failSafe (env : Env) (fundId periodId : Uuid) (closedBy : String) :
    Tx.FailSafe (closePeriod env fundId periodId closedBy) :=
  Tx.failSafe_atomic _

theorem closePeriod_ok {env : Env} {fundId periodId : Uuid} {closedBy : String} {db db' : Db}
    {p : Period} {changed : Bool}
    (h : closePeriod env fundId periodId closedBy db = (.ok (p, changed), db')) :
    ∃ period, periodOfFund db fundId periodId = .ok period ∧
      (period.status = .CLOSED ∧ changed = false ∧ db' = db ∨
        period.status = .OPEN ∧ changed = true ∧ checkClosable db fundId period = .ok () ∧
        updatePeriod db period.id env.now closedBy = .ok db') := by
  rw [closePeriod, Tx.atomic_ok, Tx.read_bind] at h
  obtain ⟨period, db₁, hlift, hrest⟩ := Tx.bind_ok.mp h
  obtain ⟨hperiod, hdb⟩ := Tx.lift_eq.mp hlift
  subst hdb
  refine ⟨period, hperiod.symm, ?_⟩
  split at hrest
  · rename_i hclosed
    obtain ⟨hok, hdb⟩ := Tx.pure_eq.mp hrest
    cases hok
    exact .inl ⟨hclosed, rfl, hdb⟩
  · rename_i hopen
    obtain ⟨⟨⟩, db₂, hlift₂, hrest₂⟩ := Tx.bind_ok.mp hrest
    obtain ⟨hcheck, hdb₂⟩ := Tx.lift_eq.mp hlift₂
    subst hdb₂
    obtain ⟨_, db₃, hupdate, hret⟩ := Tx.bind_ok.mp hrest₂
    obtain ⟨hok, hdb₃⟩ := Tx.pure_eq.mp hret
    cases hok
    subst hdb₃
    have hstatus : period.status = .OPEN := by
      cases hs : period.status with
      | OPEN => rfl
      | CLOSED => exact absurd hs hopen
    exact .inr ⟨hstatus, rfl, hcheck.symm, Tx.statement_ok.mp hupdate⟩

theorem closePeriod_changes_of {env : Env} {fundId periodId : Uuid} {closedBy : String} {db : Db} :
    Changes Q db (closePeriod env fundId periodId closedBy db).2 := by
  rcases hrun : closePeriod env fundId periodId closedBy db with ⟨e | ⟨p, changed⟩, db'⟩
  · rw [closePeriod_failSafe env fundId periodId closedBy db e db' hrun]
  · obtain ⟨period, -, ⟨-, -, rfl⟩ | ⟨-, -, -, hupdate⟩⟩ := closePeriod_ok hrun
    · exact .refl
    · exact .single (.periodClosed hupdate)

end

/-! ## The changes of the business operations -/

theorem createCapitalCall_changes {env : Env} {fundId : Uuid} {key : String} {total : Amount}
    {noticeDate dueDate : Date} {createdBy : String} {db : Db} :
    Changes Business db
      (createCapitalCall env fundId key total noticeDate dueDate createdBy db).2 :=
  createCapitalCall_changes_of (issues_business _)

theorem createDistribution_changes {env : Env} {fundId : Uuid} {key : String} {total : Amount}
    {paymentDate : Date} {classification : DistributionClassification} {createdBy : String}
    {db : Db} :
    Changes Business db
      (createDistribution env fundId key total paymentDate classification createdBy db).2 :=
  createDistribution_changes_of (issues_business _)

theorem recordInvestment_changes {env : Env} {fundId : Uuid} {key : String} {amount : Amount}
    {currency : String} {onDate : Date} {db : Db} :
    Changes Business db (recordInvestment env fundId key amount currency onDate db).2 :=
  recordInvestment_changes_of fun _ _ => Purchase.business

theorem chargeFee_changes {env : Env} {fundId : Uuid} {key : String} {amount : Amount}
    {onDate : Date} {db : Db} :
    Changes Business db (chargeFee env fundId key amount onDate db).2 :=
  chargeFee_changes_of (issues_business _)

theorem recordValuation_changes {env : Env} {fundId : Uuid} {key : String} {change : Amount}
    {onDate : Date} {db : Db} :
    Changes Business db (recordValuation env fundId key change onDate db).2 :=
  recordValuation_changes_of (issues_business _)

theorem closePeriod_changes {env : Env} {fundId periodId : Uuid} {closedBy : String} {db : Db} :
    Changes Business db (closePeriod env fundId periodId closedBy db).2 := closePeriod_changes_of

end FundLedger
