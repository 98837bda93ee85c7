import FundLedger.Api.Effects
import FundLedger.Api.Mirrored

/-!
# Funds do not interfere

The users of the service fall into two camps: those with memberships on the
funds of `S` only, and those without any.  What the first see and what they do
does not depend on what the others do, nor on the rows of the other funds.

* `serve_within`: a request of an insider is answered on `db.within S` as it is
  on `db`.
* `noninterference`: so two histories with the same requests of insiders, from
  databases with the same rows of their funds, give the insiders the same
  responses.  The requests of the others may differ in any way.

Two things are shared by all funds and could carry information: the random ids
and the idempotency keys.  `Clear` excludes both.
-/

namespace FundLedger.Api

open Lib

section

variable {S : Uuid → Bool} {db : Db}

/-! ## Permissions -/

/-- The caller's memberships are on funds of `S`. -/
def Inside (S : Uuid → Bool) (db : Db) (caller : Option User) : Prop :=
  ∀ u ∈ caller, ∀ m ∈ db.memberships, m.user = u.id → S m.fund = true

/-- A fund that is looked up in the restriction: it is the same, or it is hidden
and not found. -/
def SameOrHidden (S : Uuid → Bool) (x' x : Option Uuid) : Prop :=
  x' = x ∨ x' = none ∧ ∃ fund, x = some fund ∧ S fund = false

theorem accountFundId_within (accountId : Uuid) :
    SameOrHidden S (accountFundId (db.within S) accountId) (accountFundId db accountId) := by
  have hget : (db.within S).accounts.get? accountId =
      (db.accounts.get? accountId).filter fun a => S a.fund := Table.get?_restrict ..
  rw [accountFundId, accountFundId, hget]
  cases db.accounts.get? accountId with
  | none => exact .inl rfl
  | some a =>
    cases hS : S a.fund with
    | true => exact .inl (by simp [Option.filter, hS])
    | false => exact .inr ⟨by simp [Option.filter, hS], a.fund, rfl, hS⟩

theorem transferFundId_within (transferId : Uuid) :
    SameOrHidden S (transferFundId (db.within S) transferId) (transferFundId db transferId) := by
  have hget : (db.within S).transfers.get? transferId =
      (db.transfers.get? transferId).filter fun t => (transferFund db t).any S :=
    Table.get?_restrict ..
  rw [transferFundId, transferFundId, hget]
  cases db.transfers.get? transferId with
  | none => exact .inl rfl
  | some t =>
    cases hseen : (transferFund db t).any S with
    | true =>
      left
      simp only [Option.filter, hseen, if_true, Option.bind_eq_bind, Option.bind_some,
        getPeriod_within hseen]
    | false =>
      cases hp : db.periods.get? t.period with
      | none => exact .inl (by simp [Option.filter, hseen, hp])
      | some p =>
        have hhidden : S p.fund = false := by
          rw [transferFund, hp] at hseen
          exact hseen
        exact .inr ⟨by simp [Option.filter, hseen], p.fund, by simp [hp], hhidden⟩

/-- The fund that a request asks permission for. -/
theorem fundId_within (r : FundRequest) : r.fundId (db.within S) = r.fundId db ∨
    r.fundId (db.within S) = .error notFound ∧ ∃ fund, r.fundId db = .ok fund ∧ S fund = false := by
  have hraise : ∀ {x' x : Option Uuid}, SameOrHidden S x' x → orRaise x' notFound = orRaise x notFound ∨
      orRaise x' notFound = .error notFound ∧ ∃ fund, orRaise x notFound = .ok fund ∧
        S fund = false := by
    rintro x' x (rfl | ⟨rfl, fund, rfl, hS⟩)
    · exact .inl rfl
    · exact .inr ⟨rfl, fund, rfl, hS⟩
  cases r with
  | accountBalance accountId _ => exact hraise (accountFundId_within accountId)
  | accountEntries accountId _ => exact hraise (accountFundId_within accountId)
  | reverseTransfer transferId _ _ => exact hraise (transferFundId_within transferId)
  | _ => exact .inl rfl

/-- **The permission check.**  A hidden object is no different from one that does
not exist. -/
theorem hasPermission_within {caller : Option User} (inside : Inside S db caller) (r : FundRequest) :
    hasPermission (db.within S) caller r = hasPermission db caller r := by
  refine except_bind_congr fun user hcaller => ?_
  have huser := inside user (orRaise_eq_ok.mp hcaller)
  have hmembership : ∀ fund, membershipOf (db.within S) user.id fund =
      membershipOf db user.id fund := fun fund =>
    Table.find?_restrict fun m hm hq => huser m hm (of_decide_eq_true hq).1
  simp only [hmembership]
  have hpath := @fundId_within S db r
  rcases hpath with hsame | ⟨hnone, fund, hfund, hhidden⟩
  · rw [hsame]
  · have hstranger : membershipOf db user.id fund = none := by
      cases h : membershipOf db user.id fund with
      | none => rfl
      | some m =>
        obtain ⟨hm, hu, rfl⟩ := membershipOf_some h
        rw [huser m hm hu] at hhidden
        cases hhidden
    rw [hfund, hnone]
    show _ = (orRaise (membershipOf db user.id fund) notFound >>= _)
    rw [hstranger]
    rfl

/-! ## Views that read -/

/-- A view that reads the same. -/
theorem reading_mirrors {f f' : Db → Except ApiExc Content} (h : f' (db.within S) = f db) :
    Tx.Mirrors (Db.within S) db (reading f) (reading f') :=
  .read_bind (.lift_bind h fun _ _ => .pure _)

/-- A user sees the memberships on its own funds only. -/
theorem meView_within {user : User} (inside : Inside S db (some user)) (env : ApiEnv) :
    meView env user (db.within S) = meView env user db := by
  have hmine : ((db.within S).memberships.rows.filter fun m => m.user = user.id) =
      db.memberships.rows.filter fun m => m.user = user.id :=
    Table.filter_restrict (fun m hm hq => inside user rfl m hm (of_decide_eq_true hq))
      fun _ _ _ => rfl
  have hfund : ∀ m ∈ env.membershipOrder.order
      (db.memberships.rows.filter fun m => m.user = user.id),
      (db.within S).funds.get? m.fund = db.funds.get? m.fund := by
    intro m hm
    obtain ⟨hmem, huser⟩ := List.mem_filter.mp ((env.membershipOrder.perm _).mem_iff.mp hm)
    refine Table.get?_restrict_of_seen fun f _ hf => ?_
    rw [hf]
    exact inside user rfl m hmem (of_decide_eq_true huser)
  unfold meView
  rw [hmine]
  dsimp only
  rw [List.filterMap_congr fun m hm => by rw [hfund m hm]]

theorem fundAccountsView_within {fund : Uuid} (hS : S fund = true) (env : ApiEnv) :
    fundAccountsView env fund (db.within S) = fundAccountsView env fund db := by
  have hrows : ((db.within S).accounts.rows.filter fun a => a.fund = fund) =
      db.accounts.rows.filter fun a => a.fund = fund :=
    Table.filter_restrict (fun a _ ha => by rw [of_decide_eq_true ha, hS]) fun _ _ _ => rfl
  rw [fundAccountsView, fundAccountsView, hrows]

theorem fundPeriodsView_within {fund : Uuid} (hS : S fund = true) :
    fundPeriodsView fund (db.within S) = fundPeriodsView fund db := by
  have hrows : ((db.within S).periods.rows.filter fun p => p.fund = fund) =
      db.periods.rows.filter fun p => p.fund = fund :=
    Table.filter_restrict (fun p _ hp => by rw [of_decide_eq_true hp, hS]) fun _ _ _ => rfl
  rw [fundPeriodsView, fundPeriodsView, hrows]

/-- The account of a request on it. -/
theorem seenAccount_of_fundId {accountId fund : Uuid} (hS : S fund = true)
    (h : orRaise (accountFundId db accountId) notFound = .ok fund) : SeenAccount S db accountId := by
  obtain ⟨a, ha, rfl⟩ := Option.map_eq_some_iff.mp (orRaise_eq_ok.mp h)
  obtain ⟨hmem, rfl⟩ := Table.get?_eq_some.mp ha
  exact seenAccount_of_mem hmem hS

variable (sep : Separate db)

include sep

theorem accountBalanceView_within {accountId : Uuid} (h : SeenAccount S db accountId) (env : ApiEnv)
    (asOf : Option String) :
    accountBalanceView env accountId asOf (db.within S) =
      accountBalanceView env accountId asOf db := by
  have hget : (db.within S).accounts.get? accountId = db.accounts.get? accountId :=
    Table.get?_restrict_of_seen h
  unfold accountBalanceView
  rw [hget]
  refine except_bind_congr fun account haccount => except_bind_congr fun asOf _ => ?_
  obtain rfl : account.id = accountId := Table.key_of_get? (orRaise_eq_ok.mp haccount)
  rw [nativeBalance_within sep h, baseBalance_within sep h]

theorem accountEntriesView_within {accountId : Uuid} (h : SeenAccount S db accountId) (env : ApiEnv)
    (cursor : Option String) :
    accountEntriesView env accountId cursor (db.within S) =
      accountEntriesView env accountId cursor db := by
  rw [accountEntriesView, accountEntriesView, viewEntries_within sep h]

theorem lpStatementView_within {fundId : Uuid} (hS : S fundId = true) (env : ApiEnv)
    (membership : FundMembership) (lpId : Uuid) (period : Option Uuid) :
    lpStatementView env membership fundId lpId period (db.within S) =
      lpStatementView env membership fundId lpId period db := by
  have hget : (db.within S).funds.get? fundId = db.funds.get? fundId :=
    Table.get?_restrict_of_seen fun f _ hf => by rw [hf, hS]
  unfold lpStatementView
  refine except_bind_congr fun _ _ => ?_
  rw [hget]
  refine except_bind_congr fun fund hfund => ?_
  have hS' : S fund.id = true := by rw [Table.key_of_get? (orRaise_eq_ok.mp hfund), hS]
  refine except_bind_congr fun lp _ => except_bind_congr fun periodId _ => ?_
  rw [periodInFund_within hS']
  refine except_bind_congr fun period _ => ?_
  rw [lpStatement_within sep hS']

omit sep in
theorem fundReconciliationView_within {fund : Uuid} (hS : S fund = true) :
    fundReconciliationView fund (db.within S) = fundReconciliationView fund db := by
  rw [fundReconciliationView, fundReconciliationView, fundReconciliation_within hS]

/-! ## Views that write -/

omit sep in
theorem transferData_within {t : Transfer} (sep : Separate db) (ht : t ∈ db.transfers)
    (h : SeenTransfer S db t) (env : ApiEnv) :
    transferData env (db.within S) t = transferData env db t := by
  rw [transferData, transferData, entriesOf_within sep ht h]

variable {env : ApiEnv} {user : User} (clear : NoneInTheWay S env.toEnv db)

include clear

theorem capitalCallsView_mirrors {fundId : Uuid} (hS : S fundId = true) {header : Option String}
    (hkey : ∀ key, idempotencyKey header = .ok key → KeyOfSeen S db key)
    (body : Body CapitalCallBody) :
    Tx.Mirrors (Db.within S) db (capitalCallsView env user fundId header body)
      (capitalCallsView env user fundId header body) := by
  refine .lift_bind rfl fun key hheader => .lift_bind rfl fun b _ => .lift_bind rfl fun attrs _ =>
    .bind (.mapError ?_) fun _ _ _ => .pure _
  exact createCapitalCall_mirrors sep hS clear (hkey key hheader) _ _ _ _

theorem distributionsView_mirrors {fundId : Uuid} (hS : S fundId = true) {header : Option String}
    (hkey : ∀ key, idempotencyKey header = .ok key → KeyOfSeen S db key)
    (body : Body DistributionBody) :
    Tx.Mirrors (Db.within S) db (distributionsView env user fundId header body)
      (distributionsView env user fundId header body) := by
  refine .lift_bind rfl fun key hheader => .lift_bind rfl fun b _ => .lift_bind rfl fun attrs _ =>
    .bind (.mapError ?_) fun _ _ _ => .pure _
  exact createDistribution_mirrors sep hS clear (hkey key hheader) _ _ _ _

/-- The view shows the transfer as it is after the service, in a database whose
funds are still apart. -/
theorem reverseTransferView_mirrors {fund : Uuid} {original : Transfer}
    (hmem : original ∈ db.transfers) (hfund : transferFund db original = some fund)
    (hS : S fund = true) {header : Option String}
    (hkey : ∀ key, idempotencyKey header = .ok key → KeyOfSeen S db key)
    (body : Body ReverseBody) :
    Tx.Mirrors (Db.within S) db (reverseTransferView env user original.id header body)
      (reverseTransferView env user original.id header body) := by
  have hseen : SeenTransfer S db original := by
    rw [SeenTransfer, hfund]
    exact hS
  refine .lift_bind rfl fun key hheader => .read_bind (.lift_bind ?_ fun _ _ =>
    .lift_bind rfl fun b _ => .lift_bind rfl fun onDate _ => .bind (.mapError ?_) ?_)
  · rw [getTransfer_within hmem hseen]
  · exact postReversal_mirrors sep hmem hseen clear (hkey key hheader) onDate _
  · rintro ⟨t, created⟩ db₁ hrun
    have hreturned : t ∈ db₁.transfers ∧ SeenTransfer S db₁ t ∧ Separate db₁ := by
      obtain ⟨ht, rfl⟩ | ⟨-, a, es, rfl, posted⟩ :=
        postReversal_ok (Table.get?_of_mem hmem) hfund (Tx.mapError_ok.mp hrun)
      · obtain ⟨hmem, hk⟩ := transferByKey_some ht
        exact ⟨hmem, hkey key hheader t hmem hk, sep⟩
      · refine ⟨posted.mem_new, ?_, posted.separate sep⟩
        rw [SeenTransfer, posted.transferFund_after]
        exact hS
    refine .read_bind ?_
    rw [transferData_within hreturned.2.2 hreturned.1 hreturned.2.1]
    exact .pure _

omit clear in
theorem closePeriodView_mirrors {fundId : Uuid} (hS : S fundId = true) (periodId : Uuid) :
    Tx.Mirrors (Db.within S) db (closePeriodView env user fundId periodId)
      (closePeriodView env user fundId periodId) :=
  .bind (.mapError (closePeriod_mirrors sep hS periodId user.username)) fun _ _ _ => .pure _

/-! ## Serving a request -/

/-- The request writes under the key. -/
def FundRequest.usesKey (key : String) : FundRequest → Prop
  | .capitalCalls _ header _ => idempotencyKey header = .ok key
  | .distributions _ header _ => idempotencyKey header = .ok key
  | .reverseTransfer _ header _ => idempotencyKey header = .ok key
  | _ => False

/-- **A view of a fund that is seen.** -/
theorem Permitted.mirrors {caller : Option User} {r : FundRequest} {m : FundMembership}
    (h : Permitted db caller r user m) (hS : S m.fund = true)
    (hkey : ∀ key, r.usesKey key → KeyOfSeen S db key) :
    Tx.Mirrors (Db.within S) db (r.view env user m) (r.view env user m) := by
  have hpath : ∀ {fundId : Uuid}, (.ok fundId : Except ApiExc Uuid) = .ok m.fund →
      S fundId = true := fun hpath => by rw [Except.ok.inj hpath, hS]
  cases r with
  | fundAccounts fundId =>
    exact reading_mirrors (congrArg Except.ok (fundAccountsView_within (hpath h.fund_eq) env))
  | fundPeriods fundId =>
    exact reading_mirrors (congrArg Except.ok (fundPeriodsView_within (hpath h.fund_eq)))
  | capitalCalls fundId header body =>
    exact capitalCallsView_mirrors sep clear (hpath h.fund_eq) hkey body
  | distributions fundId header body =>
    exact distributionsView_mirrors sep clear (hpath h.fund_eq) hkey body
  | reverseTransfer transferId header body =>
    obtain ⟨t, hget, hfund⟩ := fundId_reverseTransfer h.fund_eq
    obtain ⟨hmem, rfl⟩ := Table.get?_eq_some.mp hget
    exact reverseTransferView_mirrors sep clear hmem hfund hS hkey body
  | accountBalance accountId asOf =>
    exact reading_mirrors
      (accountBalanceView_within sep (seenAccount_of_fundId hS h.fund_eq) env asOf)
  | accountEntries accountId cursor =>
    exact reading_mirrors
      (accountEntriesView_within sep (seenAccount_of_fundId hS h.fund_eq) env cursor)
  | closePeriod fundId periodId =>
    exact closePeriodView_mirrors sep (hpath h.fund_eq) periodId
  | lpStatement fundId lpId period =>
    exact reading_mirrors (lpStatementView_within sep (hpath h.fund_eq) env m lpId period)
  | fundReconciliation fundId =>
    exact reading_mirrors (congrArg Except.ok (fundReconciliationView_within (hpath h.fund_eq)))

/-- No transfer of another fund has the key of the request. -/
def Incoming.KeyClear (S : Uuid → Bool) (db : Db) (q : Incoming) : Prop :=
  ∀ r key, q.request = .fundScoped r → r.usesKey key → KeyOfSeen S db key

theorem dispatch_mirrors {q : Incoming} (inside : Inside S db q.caller)
    (hkey : q.KeyClear S db) :
    Tx.Mirrors (Db.within S) db (dispatch env q) (dispatch env q) := by
  obtain ⟨caller, requestId, request⟩ := q
  cases request with
  | me =>
    refine .lift_bind rfl fun user hcaller => reading_mirrors (congrArg Except.ok ?_)
    have hcaller : caller = some user := orRaise_eq_ok.mp hcaller
    exact meView_within (hcaller ▸ inside) env
  | fundScoped r =>
    refine .read_bind (.lift_bind (hasPermission_within inside r) ?_)
    rintro ⟨user, m⟩ hpermission
    have hpermitted := hasPermission_ok hpermission
    exact hpermitted.mirrors sep clear
      (inside user hpermitted.caller_eq m hpermitted.mem hpermitted.user_eq) fun key => hkey r key rfl

/-- **A request of an insider.**  It is answered from the rows of the funds of
`S`, and leaves of them what it leaves in the whole database. -/
theorem serve_within {q : Incoming} (inside : Inside S db q.caller) (hkey : q.KeyClear S db) :
    serve env q (db.within S) = ((serve env q db).1, (serve env q db).2.within S) := by
  have hdispatch : dispatch env q (db.within S) =
      ((dispatch env q db).1, (dispatch env q db).2.within S) :=
    dispatch_mirrors sep clear inside hkey
  unfold serve
  rw [hdispatch]
  rcases dispatch env q db with ⟨_ | _, _⟩ <;> rfl

end

end FundLedger.Api
