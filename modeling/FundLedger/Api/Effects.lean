import FundLedger.Api.Retry
import FundLedger.Api.Within
import FundLedger.Operations.FailSafe

/-!
# What a request can change

`Effect` lists what the API can do to a database: a capital call, a
distribution, a reversal and the closing of a period, each in one fund and in
the name of one user.  `serve_effect` opens up the views once: a request changes
nothing, or has one of these effects on a fund on which the caller has the role
for it.

* An effect is a sequence of changes of the services (`Effect.changes`), so what
  is known of these holds after any number of requests.
* It keeps the funds apart (`Effect.separate`), and the rows of the other funds
  (`Effect.within_eq`).
-/

namespace FundLedger.Api

open Lib Relation

/-- A posting into a fund, in the name of a user. -/
structure PostedFor (env : Env) (user : User) (fund : Uuid) (a : Posting) (db db' : Db)
    (es : List Entry) : Prop where
  posted : Posted env a db db' es
  held : Holds db a.period
  fund_eq : a.period.fund = fund
  createdBy_eq : a.createdBy = user.username
  business : Business db a
  original : ∀ o ∈ a.reverses, ∃ u ∈ db.transfers, u.id = o ∧ transferFund db u = some fund

/-- What a user with a role can do to a fund. -/
inductive Effect (env : Env) (user : User) (fund : Uuid) : Role → Db → Db → Prop
  | capitalCall {a : Posting} {es : List Entry} {c : CapitalCall} {db db₁ db' : Db}
      (posted : PostedFor env user fund a db db₁ es) (fund_eq : c.fund = fund)
      (transfer_eq : c.transfer = (transferFor env a).id)
      (inserted : insertCapitalCall db₁ c = .ok db') : Effect env user fund .OPERATOR db db'
  | distribution {a : Posting} {es : List Entry} {d : Distribution} {db db₁ db' : Db}
      (posted : PostedFor env user fund a db db₁ es) (fund_eq : d.fund = fund)
      (transfer_eq : d.transfer = (transferFor env a).id)
      (inserted : insertDistribution db₁ d = .ok db') : Effect env user fund .OPERATOR db db'
  | reversal {a : Posting} {es : List Entry} {db db' : Db}
      (posted : PostedFor env user fund a db db' es) : Effect env user fund .OPERATOR db db'
  | periodClosed {period : Period} {db db' : Db} (mem : period ∈ db.periods)
      (fund_eq : period.fund = fund)
      (updated : updatePeriod db period.id env.now user.username = .ok db') :
      Effect env user fund .CONTROLLER db db'

/-! ## The services -/

section

variable {env : Env} {user : User} {db db' : Db}

theorem createCapitalCall_effect {fundId : Uuid} {key : String} {total : Amount}
    {noticeDate dueDate : Date} {r : Except Exc (CapitalCall × Bool)}
    (h : createCapitalCall env fundId key total noticeDate dueDate user.username db = (r, db')) :
    db' = db ∨ (∃ c, r = .ok (c, true)) ∧ Effect env user fundId .OPERATOR db db' := by
  rcases r with e | ⟨c, created⟩
  · exact .inl (createCapitalCall_failSafe _ _ _ _ _ _ _ db e db' h)
  obtain ⟨units, db₀, hlift, hidem⟩ := Tx.bind_ok.mp h
  obtain ⟨-, hdb₀⟩ := Tx.lift_eq.mp hlift
  subst hdb₀
  have hreplay : ∀ t, Tx.ReadOnly (capitalCallOf t) := fun t =>
    .bind Tx.readOnly_read fun _ => Tx.readOnly_lift _
  rcases runIdempotent_ok hreplay hidem with ⟨rfl, -, hcreate⟩ | ⟨-, hsame⟩
  · right
    obtain ⟨plan, es, db₁, units, hplan, posted, -, hdocument, hinserted⟩ :=
      postCapitalCall_ok hcreate
    obtain ⟨fund, -, -, -, hfund, hperiod, -⟩ := planCapitalCall_ok hplan
    refine ⟨⟨c, rfl⟩, .capitalCall ⟨posted, holds_periodFor hperiod, ?_, rfl, ?_, ?_⟩ ?_ ?_ hinserted⟩
    · exact (periodFor_mem hperiod).2.1.trans (Table.key_of_get? (orRaise_eq_ok.mp hfund))
    · exact .capitalCall env fundId total noticeDate plan hplan rfl rfl rfl rfl
    · intro o ho
      cases ho
    · rw [hdocument]
    · rw [hdocument]
      rfl
  · exact .inl hsame

theorem createDistribution_effect {fundId : Uuid} {key : String} {total : Amount}
    {paymentDate : Date} {classification : DistributionClassification}
    {r : Except Exc (Distribution × Bool)}
    (h : createDistribution env fundId key total paymentDate classification user.username db =
      (r, db')) :
    db' = db ∨ (∃ d, r = .ok (d, true)) ∧ Effect env user fundId .OPERATOR db db' := by
  rcases r with e | ⟨d, created⟩
  · exact .inl (createDistribution_failSafe _ _ _ _ _ _ _ db e db' h)
  obtain ⟨units, db₀, hlift, hidem⟩ := Tx.bind_ok.mp h
  obtain ⟨-, hdb₀⟩ := Tx.lift_eq.mp hlift
  subst hdb₀
  have hreplay : ∀ t, Tx.ReadOnly (distributionOf t) := fun t =>
    .bind Tx.readOnly_read fun _ => Tx.readOnly_lift _
  rcases runIdempotent_ok hreplay hidem with ⟨rfl, -, hcreate⟩ | ⟨-, hsame⟩
  · right
    obtain ⟨plan, es, db₁, units, hplan, posted, -, hdocument, hinserted⟩ :=
      postDistribution_ok hcreate
    obtain ⟨fund, -, -, -, hfund, hperiod, -⟩ := planDistribution_ok hplan
    refine ⟨⟨d, rfl⟩, .distribution ⟨posted, holds_periodFor hperiod, ?_, rfl, ?_, ?_⟩ ?_ ?_ hinserted⟩
    · exact (periodFor_mem hperiod).2.1.trans (Table.key_of_get? (orRaise_eq_ok.mp hfund))
    · exact .distribution env fundId total paymentDate plan hplan rfl rfl rfl rfl
    · intro o ho
      cases ho
    · rw [hdocument]
    · rw [hdocument]
      rfl
  · exact .inl hsame

/-- A transfer that answers for an earlier request is the one under the key. -/
theorem runIdempotent_replayed {key : String} {requestHash : RequestHash} {create : M Transfer}
    {t : Transfer} (h : runIdempotent key requestHash create pure db = (.ok (t, false), db')) :
    transferByKey db key = some t ∧ db' = db := by
  have hanswer : ∀ {existing : Transfer},
      answerWith key requestHash pure existing db = (.ok (t, false), db') →
        existing = t ∧ db' = db := by
    intro existing ha
    unfold answerWith at ha
    split at ha
    · cases ha
    · cases ha
      exact ⟨rfl, rfl⟩
  rw [runIdempotent, runOnce, Tx.read_bind] at h
  cases hk : transferByKey db key with
  | some existing =>
    rw [hk] at h
    obtain ⟨rfl, hsame⟩ := hanswer h
    exact ⟨rfl, hsame⟩
  | none =>
    rw [hk] at h
    rcases Tx.tryCatch_ok.mp h with hok | ⟨e, d, herr, hrec⟩
    · obtain ⟨r, d, -, hp⟩ := Tx.bind_ok.mp hok
      cases hp
    · -- nothing was written, so the handler does not find the key either
      obtain rfl : d = db := by
        rcases Tx.bind_error.mp herr with hblock | ⟨_, _, -, hp⟩
        · exact (Tx.atomic_error.mp hblock).2
        · cases hp
      unfold recover at hrec
      split at hrec
      · split at hrec
        · cases hrec
        · rw [Tx.read_bind, hk] at hrec
          cases hrec
      · rw [Tx.read_bind, hk] at hrec
        cases hrec
      · cases hrec

theorem reverseTransfer_replayed {transferId : Uuid} {key : String} {period : Period}
    {createdBy : String} {t : Transfer}
    (h : reverseTransfer env transferId key period createdBy db = (.ok (t, false), db')) :
    transferByKey db key = some t ∧ db' = db := by
  rw [reverseTransfer, Tx.read_bind] at h
  obtain ⟨original, d, hlift, h₁⟩ := Tx.bind_ok.mp h
  obtain ⟨-, hd⟩ := Tx.lift_eq.mp hlift
  subst hd
  obtain ⟨u, d₁, hlift₁, h₂⟩ := Tx.bind_ok.mp h₁
  obtain ⟨-, hd₁⟩ := Tx.lift_eq.mp hlift₁
  subst hd₁
  obtain ⟨u', d₂, hlift₂, h₃⟩ := Tx.bind_ok.mp h₂
  obtain ⟨-, hd₂⟩ := Tx.lift_eq.mp hlift₂
  subst hd₂
  rcases Tx.tryCatch_ok.mp h₃ with hrun | ⟨e, s, -, hraised⟩
  · exact runIdempotent_replayed hrun
  · split at hraised <;> cases hraised

/-- The transfer that a reversal returns: the one under the key, or a new one. -/
theorem postReversal_ok {transferId fund : Uuid} {original : Transfer} {key : String}
    {onDate : Option Date} {t : Transfer} {created : Bool}
    (hget : db.transfers.get? transferId = some original)
    (hfund : transferFund db original = some fund)
    (h : postReversal env transferId key onDate user.username db = (.ok (t, created), db')) :
    (transferByKey db key = some t ∧ db' = db) ∨
      created = true ∧ ∃ a es, t = transferFor env a ∧ PostedFor env user fund a db db' es := by
  obtain ⟨p, hp, rfl⟩ := Option.map_eq_some_iff.mp hfund
  have hof : fundOfTransfer db original = .ok p.fund := by
    rw [fundOfTransfer, hp]
    rfl
  rw [postReversal_eq hget hof] at h
  obtain ⟨period, d, hlift, hrun⟩ := Tx.bind_ok.mp h
  obtain ⟨hperiod, hd⟩ := Tx.lift_eq.mp hlift
  subst hd
  cases created with
  | false => exact .inl (reverseTransfer_replayed hrun)
  | true =>
    obtain ⟨o, ho, hkind, -, ht, es, posted⟩ := reverseTransfer_posted hrun
    have hmem := Table.mem_of_get? hget
    obtain rfl : o = original := Option.some.inj (ho.symm.trans (Table.get?_of_mem hmem))
    refine .inr ⟨rfl, _, es, ht, posted, holds_periodFor hperiod.symm,
      (periodFor_mem hperiod.symm).2.1, rfl, .reversal o hmem hkind rfl rfl rfl, ?_⟩
    intro i hi
    cases hi
    exact ⟨o, hmem, rfl, hfund⟩

theorem postReversal_effect {transferId fund : Uuid} {original : Transfer} {key : String}
    {onDate : Option Date} {r : Except Exc (Transfer × Bool)}
    (hget : db.transfers.get? transferId = some original)
    (hfund : transferFund db original = some fund)
    (h : postReversal env transferId key onDate user.username db = (r, db')) :
    db' = db ∨ (∃ t, r = .ok (t, true)) ∧ Effect env user fund .OPERATOR db db' := by
  rcases r with e | ⟨t, created⟩
  · obtain ⟨p, hp, -⟩ := Option.map_eq_some_iff.mp hfund
    have hof : fundOfTransfer db original = .ok p.fund := by
      rw [fundOfTransfer, hp]
      rfl
    rw [postReversal_eq hget hof] at h
    exact .inl (Tx.FailSafe.bind (Tx.readOnly_lift _)
      (fun period => reverseTransfer_failSafe env original.id key period user.username)
      db e db' h)
  · obtain ⟨-, hsame⟩ | ⟨rfl, a, es, rfl, posted⟩ := postReversal_ok hget hfund h
    · exact .inl hsame
    · exact .inr ⟨⟨_, rfl⟩, .reversal posted⟩

theorem closePeriod_effect {fundId periodId : Uuid} {r : Except Exc (Period × Bool)}
    (h : closePeriod env fundId periodId user.username db = (r, db')) :
    db' = db ∨ (∃ p, r = .ok (p, true)) ∧ Effect env user fundId .CONTROLLER db db' := by
  rcases r with e | ⟨p, changed⟩
  · exact .inl (closePeriod_failSafe env fundId periodId user.username db e db' h)
  obtain ⟨period, hperiod, ⟨-, -, hsame⟩ | ⟨-, rfl, -, hupdated⟩⟩ := closePeriod_ok h
  · exact .inl hsame
  · obtain ⟨hget, hfilter⟩ := Option.filter_eq_some_iff.mp (orRaise_eq_ok.mp hperiod)
    exact .inr ⟨⟨p, rfl⟩, .periodClosed (Table.mem_of_get? hget) (of_decide_eq_true hfilter) hupdated⟩

end

/-! ## The views -/

/-- A view that reads changes nothing. -/
theorem reading_readOnly (f : Db → Except ApiExc Content) : Tx.ReadOnly (reading f) :=
  .bind Tx.readOnly_read fun _ => .bind (Tx.readOnly_lift _) fun _ => Tx.readOnly_pure _

section

variable {env : ApiEnv} {user : User} {db : Db}

/-- What a view makes of an effect of the service it calls. -/
def Responds (fund : Uuid) (role : Role) (env : ApiEnv) (user : User) (db : Db)
    (run : Except ApiExc Response × Db) : Prop :=
  run.2 = db ∨ (∃ content, run.1 = .ok ⟨200, content⟩ ∨ run.1 = .ok ⟨201, content⟩) ∧
    Effect env.toEnv user fund role db run.2

theorem Responds.of_readOnly {fund : Uuid} {role : Role} {view : View} (h : Tx.ReadOnly view) :
    Responds fund role env user db (view db) := .inl (h db)

/-- A check in front of a view. -/
theorem Responds.lift_bind {α : Type} {fund : Uuid} {role : Role} {x : Except ApiExc α}
    {f : α → View} (h : ∀ a, x = .ok a → Responds fund role env user db (f a db)) :
    Responds fund role env user db ((Tx.lift x >>= f) db) := by
  rw [Tx.bind_apply, Tx.lift]
  cases x with
  | error e => exact .inl rfl
  | ok a => exact h a rfl

/-- A service, and a response made of what it returns. -/
theorem Responds.service {α : Type} {fund : Uuid} {role : Role} {m : M (α × Bool)}
    {respond : α × Bool → View} (hread : ∀ r, Tx.ReadOnly (respond r))
    (hok : ∀ a d, ∃ content, (respond (a, true) d).1 = .ok ⟨200, content⟩ ∨
      (respond (a, true) d).1 = .ok ⟨201, content⟩)
    (h : (m db).2 = db ∨ (∃ a, (m db).1 = .ok (a, true)) ∧
      Effect env.toEnv user fund role db (m db).2) :
    Responds fund role env user db ((Api.service m >>= respond) db) := by
  have hstore : ((Api.service m >>= respond) db).2 = (m db).2 := by
    rw [Tx.bind_readOnly_snd hread]
    exact Tx.mapError_snd _ _ _
  rcases h with hsame | ⟨⟨a, ha⟩, heffect⟩
  · exact .inl (hstore.trans hsame)
  · refine .inr ⟨?_, hstore ▸ heffect⟩
    have hrun : Api.service m db = (.ok (a, true), (m db).2) :=
      Tx.mapError_ok.mpr (Prod.ext ha rfl)
    rw [Tx.bind_apply, hrun]
    exact hok a _

/-- A request that has the permission of a member. -/
structure Permitted (db : Db) (caller : Option User) (r : FundRequest) (user : User)
    (m : FundMembership) : Prop where
  caller_eq : caller = some user
  fund_eq : r.fundId db = .ok m.fund
  mem : m ∈ db.memberships
  user_eq : m.user = user.id
  rank : roleRank r.requiredRole ≤ roleRank m.role

theorem membershipOf_some {user fund : Uuid} {m : FundMembership}
    (h : membershipOf db user fund = some m) : m ∈ db.memberships ∧ m.user = user ∧ m.fund = fund := by
  have hm := List.find?_some h
  simp only [Bool.decide_and, Bool.and_eq_true, decide_eq_true_eq] at hm
  exact ⟨List.mem_of_find?_eq_some h, hm⟩

theorem hasPermission_ok {caller : Option User} {r : FundRequest} {m : FundMembership}
    (h : hasPermission db caller r = .ok (user, m)) : Permitted db caller r user m := by
  simp only [hasPermission, except_bind_ok, orRaise_eq_ok, require_eq_ok, except_pure,
    Prod.mk.injEq] at h
  obtain ⟨u, hcaller, fundId, hfund, m', hm, ⟨⟩, hrank, rfl, rfl⟩ := h
  obtain ⟨hmem, huser, hfund'⟩ := membershipOf_some hm
  exact ⟨hcaller, by rw [hfund, hfund'], hmem, huser, hrank⟩

/-- The transfer of a request for a reversal. -/
theorem fundId_reverseTransfer {transferId fund : Uuid} {header : Option String}
    {body : Body ReverseBody}
    (h : (FundRequest.reverseTransfer transferId header body).fundId db = .ok fund) :
    ∃ t, db.transfers.get? transferId = some t ∧ transferFund db t = some fund := by
  have hfound : transferFundId db transferId = some fund := orRaise_eq_ok.mp h
  simp only [transferFundId, Option.bind_eq_bind, Option.bind_eq_some_iff, Option.pure_def,
    Option.some.injEq] at hfound
  obtain ⟨t, ht, p, hp, rfl⟩ := hfound
  exact ⟨t, ht, by rw [transferFund, hp, Option.map_some]⟩

/-- **What a view does** to the fund of the request. -/
theorem Permitted.responds {caller : Option User} {r : FundRequest} {m : FundMembership}
    (h : Permitted db caller r user m) :
    Responds m.fund r.requiredRole env user db (r.view env user m db) := by
  have hpure : ∀ {α : Type} (f : α × Bool → Response) (x : α × Bool),
      Tx.ReadOnly (pure (f x) : View) := fun _ _ => Tx.readOnly_pure _
  cases r with
  | fundAccounts => exact .of_readOnly (reading_readOnly _)
  | fundPeriods => exact .of_readOnly (reading_readOnly _)
  | accountBalance => exact .of_readOnly (reading_readOnly _)
  | accountEntries => exact .of_readOnly (reading_readOnly _)
  | lpStatement => exact .of_readOnly (reading_readOnly _)
  | fundReconciliation => exact .of_readOnly (reading_readOnly _)
  | capitalCalls fundId header body =>
    obtain rfl : fundId = m.fund := Except.ok.inj h.fund_eq
    refine .lift_bind fun key _ => .lift_bind fun b _ => .lift_bind fun attrs _ => .service
      (fun x => hpure (fun x => createdOrReplayed (.capitalCall x.1) x.2) x)
      (fun c d => ⟨_, .inr rfl⟩) ?_
    exact createCapitalCall_effect rfl
  | distributions fundId header body =>
    obtain rfl : fundId = m.fund := Except.ok.inj h.fund_eq
    refine .lift_bind fun key _ => .lift_bind fun b _ => .lift_bind fun attrs _ => .service
      (fun x => hpure (fun x => createdOrReplayed (.distribution x.1) x.2) x)
      (fun c d => ⟨_, .inr rfl⟩) ?_
    exact createDistribution_effect rfl
  | reverseTransfer transferId header body =>
    obtain ⟨t, hget, hfund⟩ := fundId_reverseTransfer h.fund_eq
    refine .lift_bind fun key _ => ?_
    rw [Tx.read_bind]
    refine .lift_bind fun _ _ => .lift_bind fun b _ => .lift_bind fun onDate _ => .service
      (fun x => .bind Tx.readOnly_read fun d => Tx.readOnly_pure _) (fun c d => ⟨_, .inr rfl⟩) ?_
    exact postReversal_effect hget hfund rfl
  | closePeriod fundId periodId =>
    obtain rfl : fundId = m.fund := Except.ok.inj h.fund_eq
    exact .service (fun x => Tx.readOnly_pure _) (fun c d => ⟨_, .inl rfl⟩) (closePeriod_effect rfl)

end

theorem dispatch_fundScoped (env : ApiEnv) (caller : Option User) (requestId : Option String)
    (r : FundRequest) (db : Db) : dispatch env ⟨caller, requestId, .fundScoped r⟩ db =
      (Tx.lift (hasPermission db caller r) >>= fun g => r.view env g.1 g.2) db := rfl

/-- **What a request does.**  It changes nothing, or it answers 200 or 201 and
has an effect on a fund on which the caller holds the role for it. -/
theorem serve_effect (env : ApiEnv) (q : Incoming) (db : Db) : (serve env q db).2 = db ∨
    ∃ user m role, q.caller = some user ∧ m ∈ db.memberships ∧ m.user = user.id ∧
      roleRank role ≤ roleRank m.role ∧ Effect env.toEnv user m.fund role db (serve env q db).2 ∧
      ((serve env q db).1.status = 200 ∨ (serve env q db).1.status = 201) := by
  have hserve : (serve env q db).2 = (dispatch env q db).2 := by
    unfold serve
    rcases dispatch env q db with ⟨e | r, d⟩ <;> rfl
  obtain ⟨caller, requestId, request⟩ := q
  cases request with
  | me =>
    have hme : Tx.ReadOnly (dispatch env ⟨caller, requestId, .me⟩) :=
      .bind (Tx.readOnly_lift _) fun _ => reading_readOnly _
    exact .inl (hserve.trans (hme db))
  | fundScoped r =>
    cases hpermission : hasPermission db caller r with
    | error e =>
      left
      rw [hserve, dispatch_fundScoped, hpermission]
      rfl
    | ok granted =>
      obtain ⟨user, m⟩ := granted
      have hpermitted := hasPermission_ok hpermission
      have hrun : dispatch env ⟨caller, requestId, .fundScoped r⟩ db = r.view env user m db := by
        rw [dispatch_fundScoped, hpermission]
        rfl
      rcases hpermitted.responds with hsame | ⟨⟨content, hresponse⟩, heffect⟩
      · rw [← hrun] at hsame
        exact .inl (hserve.trans hsame)
      · rw [← hrun] at heffect hresponse
        refine .inr ⟨user, m, r.requiredRole, hpermitted.caller_eq, hpermitted.mem,
          hpermitted.user_eq, hpermitted.rank, by rw [hserve]; exact heffect, ?_⟩
        unfold serve
        rcases hdispatch : dispatch env ⟨caller, requestId, .fundScoped r⟩ db with ⟨e | response, d⟩
        · rw [hdispatch] at hresponse
          rcases hresponse with h | h <;> cases h
        · rw [hdispatch] at hresponse
          rcases hresponse with h | h
          · cases h
            exact .inl rfl
          · cases h
            exact .inr rfl

/-- A response with any other status changed nothing. -/
theorem serve_refused {env : ApiEnv} {q : Incoming} {db : Db}
    (h : (serve env q db).1.status ≠ 200 ∧ (serve env q db).1.status ≠ 201) :
    (serve env q db).2 = db := by
  obtain hsame | ⟨user, m, role, -, -, -, -, -, hok | hok⟩ := serve_effect env q db
  · exact hsame
  · exact absurd hok h.1
  · exact absurd hok h.2

/-! ## What an effect keeps -/

section

variable {env : Env} {user : User} {fund : Uuid} {role : Role} {db db' : Db}

/-- An effect is a sequence of changes of the services. -/
theorem Effect.changes (h : Effect env user fund role db db') : Changes Business db db' := by
  cases h with
  | capitalCall posted _ _ inserted =>
    exact .tail (.single (.posted posted.business posted.held posted.posted)) (.capitalCall inserted)
  | distribution posted _ _ inserted =>
    exact .tail (.single (.posted posted.business posted.held posted.posted)) (.distribution inserted)
  | reversal posted => exact .single (.posted posted.business posted.held posted.posted)
  | periodClosed _ _ updated => exact .single (.periodClosed updated)

/-- Memberships, accounts, commitments and rates are not the API's to change. -/
structure SameSetUp (db db' : Db) : Prop where
  funds : db'.funds = db.funds
  lps : db'.lps = db.lps
  commitments : db'.commitments = db.commitments
  fxRates : db'.fxRates = db.fxRates
  accounts : db'.accounts = db.accounts
  memberships : db'.memberships = db.memberships

theorem Effect.sameSetUp (h : Effect env user fund role db db') : SameSetUp db db' := by
  cases h with
  | capitalCall posted _ _ inserted =>
    obtain ⟨transfers, entries, -, -, rfl⟩ := posted.posted.appended
    obtain ⟨-, -, calls, -, rfl⟩ := insertCapitalCall_ok inserted
    exact ⟨rfl, rfl, rfl, rfl, rfl, rfl⟩
  | distribution posted _ _ inserted =>
    obtain ⟨transfers, entries, -, -, rfl⟩ := posted.posted.appended
    obtain ⟨-, -, dists, -, rfl⟩ := insertDistribution_ok inserted
    exact ⟨rfl, rfl, rfl, rfl, rfl, rfl⟩
  | reversal posted =>
    obtain ⟨transfers, entries, -, -, rfl⟩ := posted.posted.appended
    exact ⟨rfl, rfl, rfl, rfl, rfl, rfl⟩
  | periodClosed _ _ updated =>
    obtain ⟨-, rfl⟩ := updatePeriod_ok updated
    exact ⟨rfl, rfl, rfl, rfl, rfl, rfl⟩

/-- The new transfer belongs to the fund. -/
theorem PostedFor.transferFund_new {a : Posting} {es : List Entry}
    (h : PostedFor env user fund a db db' es) : transferFund db (transferFor env a) = some fund := by
  obtain ⟨q, hq, hid, hfund⟩ := h.held
  have hget : db.periods.get? (transferFor env a).period = some q := Table.get?_eq_some.mpr ⟨hq, hid⟩
  rw [transferFund, hget, Option.map_some, hfund, h.fund_eq]

theorem PostedFor.mem_new {a : Posting} {es : List Entry}
    (h : PostedFor env user fund a db db' es) : transferFor env a ∈ db'.transfers := by
  rw [← Table.mem_rows, h.posted.transfers_eq]
  exact List.mem_append_right _ (List.mem_singleton_self _)

/-- A posting leaves every transfer in its fund. -/
theorem PostedFor.transferFund_eq {a : Posting} {es : List Entry}
    (h : PostedFor env user fund a db db' es) (t : Transfer) :
    transferFund db' t = transferFund db t := by
  obtain ⟨transfers, entries, -, -, rfl⟩ := h.posted.appended
  rfl

theorem PostedFor.transferFund_after {a : Posting} {es : List Entry}
    (h : PostedFor env user fund a db db' es) :
    transferFund db' (transferFor env a) = some fund :=
  (h.transferFund_eq _).trans h.transferFund_new

/-- So do its entries. -/
theorem PostedFor.entryFund_new {a : Posting} {es : List Entry}
    (h : PostedFor env user fund a db db' es) {e : Entry} (he : e ∈ es) :
    entryFund db e = some fund := by
  obtain ⟨c, hc, hid, hfund⟩ := h.posted.exists_account he
  rw [entryFund, Table.get?_eq_some.mpr ⟨hc, hid⟩, Option.map_some, hfund, h.fund_eq]

theorem PostedFor.separate {a : Posting} {es : List Entry} (h : PostedFor env user fund a db db' es)
    (sep : Separate db) : Separate db' := by
  have hnew := h.transferFund_new
  have hentry : ∀ e ∈ es, entryFund db e = some fund := fun _ => h.entryFund_new
  have htransfer : ∀ e ∈ es, e.transfer = (transferFor env a).id := fun _ => h.posted.entry_transfer
  obtain ⟨transfers, entries, htrows, herows, rfl⟩ := h.posted.appended
  have hmem : ∀ {t : Transfer}, t ∈ transfers ↔ t ∈ db.transfers ∨ t = transferFor env a := by
    intro t
    rw [← Table.mem_rows, htrows, List.mem_append, List.mem_singleton]
    rfl
  refine ⟨fun e he => ?_, fun t ht o ho => ?_, fun c hc => ?_, fun d hd => ?_⟩
  · rw [← Table.mem_rows, herows, List.mem_append] at he
    rcases he with he | he
    · obtain ⟨t, ht, hfund⟩ := sep.entry e he
      exact ⟨t, hmem.mpr (.inl ht), hfund⟩
    · exact ⟨_, hmem.mpr (.inr rfl), (htransfer e he).symm, fund, hnew, hentry e he⟩
  · rcases hmem.mp ht with ht | rfl
    · obtain ⟨u, hu, hfund⟩ := sep.reversal t ht o ho
      exact ⟨u, hmem.mpr (.inl hu), hfund⟩
    · obtain ⟨u, hu, hid, hfund⟩ := h.original o ho
      exact ⟨u, hmem.mpr (.inl hu), hid, hfund.trans hnew.symm⟩
  · obtain ⟨t, ht, hfund⟩ := sep.call c hc
    exact ⟨t, hmem.mpr (.inl ht), hfund⟩
  · obtain ⟨t, ht, hfund⟩ := sep.distribution d hd
    exact ⟨t, hmem.mpr (.inl ht), hfund⟩

/-- **An effect keeps the funds apart.** -/
theorem Effect.separate (h : Effect env user fund role db db') (sep : Separate db) :
    Separate db' := by
  cases h with
  | @capitalCall a es c _ db₁ _ posted fund_eq transfer_eq inserted =>
    have sep₁ := posted.separate sep
    obtain ⟨-, -, calls, hins, rfl⟩ := insertCapitalCall_ok inserted
    refine ⟨sep₁.entry, sep₁.reversal, fun d hd => ?_, sep₁.distribution⟩
    rw [← Table.mem_rows, (Table.insert_eq_some.mp hins).2, List.mem_append,
      List.mem_singleton] at hd
    rcases hd with hd | rfl
    · exact sep₁.call d hd
    · exact ⟨_, posted.mem_new, transfer_eq.symm, fund_eq ▸ posted.transferFund_after⟩
  | @distribution a es c _ db₁ _ posted fund_eq transfer_eq inserted =>
    have sep₁ := posted.separate sep
    obtain ⟨-, -, dists, hins, rfl⟩ := insertDistribution_ok inserted
    refine ⟨sep₁.entry, sep₁.reversal, sep₁.call, fun d hd => ?_⟩
    rw [← Table.mem_rows, (Table.insert_eq_some.mp hins).2, List.mem_append,
      List.mem_singleton] at hd
    rcases hd with hd | rfl
    · exact sep₁.distribution d hd
    · exact ⟨_, posted.mem_new, transfer_eq.symm, fund_eq ▸ posted.transferFund_after⟩
  | reversal posted => exact posted.separate sep
  | periodClosed _ _ updated =>
    obtain ⟨-, rfl⟩ := updatePeriod_ok updated
    have hclose : ∀ p : Period, (p.close env.now user.username).fund = p.fund := fun _ => rfl
    refine ⟨fun e he => ?_, fun t ht o ho => ?_, fun c hc => ?_, fun d hd => ?_⟩
    · obtain ⟨t, ht, hid, f, htf, hef⟩ := sep.entry e he
      exact ⟨t, ht, hid, f, (transferFund_update hclose t).trans htf, hef⟩
    · obtain ⟨u, hu, hid, hfund⟩ := sep.reversal t ht o ho
      exact ⟨u, hu, hid, ((transferFund_update hclose u).trans hfund).trans
        (transferFund_update hclose t).symm⟩
    · obtain ⟨t, ht, hid, hfund⟩ := sep.call c hc
      exact ⟨t, ht, hid, (transferFund_update hclose t).trans hfund⟩
    · obtain ⟨t, ht, hid, hfund⟩ := sep.distribution d hd
      exact ⟨t, ht, hid, (transferFund_update hclose t).trans hfund⟩

/-! ## The other funds -/

variable {S : Uuid → Bool}

theorem PostedFor.within_eq {a : Posting} {es : List Entry} (h : PostedFor env user fund a db db' es)
    (hS : S fund = false) : db'.within S = db.within S := by
  have hnew := h.transferFund_new
  have hentry : ∀ e ∈ es, (entryFund db e).any S = false := fun e he => by
    rw [h.entryFund_new he]
    exact hS
  obtain ⟨transfers, entries, htrows, herows, rfl⟩ := h.posted.appended
  have ht : transfers.restrict (fun t => (transferFund db t).any S) =
      db.transfers.restrict fun t => (transferFund db t).any S := by
    refine Table.restrict_append_hidden htrows fun t ht => ?_
    rw [List.mem_singleton.mp ht, hnew]
    exact hS
  have he : entries.restrict (fun e => (entryFund db e).any S) =
      db.entries.restrict fun e => (entryFund db e).any S :=
    Table.restrict_append_hidden herows hentry
  show ({ db.within S with
    transfers := transfers.restrict fun t => (transferFund db t).any S
    entries := entries.restrict fun e => (entryFund db e).any S } : Db) = db.within S
  rw [ht, he]
  rfl

/-- **The rows of the other funds stay as they are.** -/
theorem Effect.within_eq (h : Effect env user fund role db db') (hS : S fund = false) :
    db'.within S = db.within S := by
  cases h with
  | @capitalCall a es c _ db₁ _ posted fund_eq _ inserted =>
    rw [← posted.within_eq hS]
    obtain ⟨-, -, calls, hins, rfl⟩ := insertCapitalCall_ok inserted
    have hc : calls.restrict (fun c => S c.fund) = db₁.capitalCalls.restrict fun c => S c.fund := by
      refine Table.restrict_append_hidden (Table.insert_eq_some.mp hins).2 fun d hd => ?_
      rw [List.mem_singleton.mp hd, fund_eq, hS]
    show ({ db₁.within S with capitalCalls := calls.restrict fun c => S c.fund } : Db) = _
    rw [hc]
    rfl
  | @distribution a es d _ db₁ _ posted fund_eq _ inserted =>
    rw [← posted.within_eq hS]
    obtain ⟨-, -, dists, hins, rfl⟩ := insertDistribution_ok inserted
    have hc : dists.restrict (fun d => S d.fund) = db₁.distributions.restrict fun d => S d.fund := by
      refine Table.restrict_append_hidden (Table.insert_eq_some.mp hins).2 fun c hc => ?_
      rw [List.mem_singleton.mp hc, fund_eq, hS]
    show ({ db₁.within S with distributions := dists.restrict fun d => S d.fund } : Db) = _
    rw [hc]
    rfl
  | reversal posted => exact posted.within_eq hS
  | @periodClosed period _ _ mem fund_eq updated =>
    obtain ⟨-, rfl⟩ := updatePeriod_ok updated
    have hclose : ∀ p : Period, (p.close env.now user.username).fund = p.fund := fun _ => rfl
    refine (within_update hclose).trans ?_
    have hsame : (db.within S).periods.update (fun p => p.id = period.id)
        (·.close env.now user.username) (Period.close_id env.now user.username) =
        (db.within S).periods := by
      refine Table.update_eq_self fun p hp => decide_eq_false fun hid => ?_
      obtain ⟨hp, hseen⟩ := Table.mem_restrict.mp hp
      rw [Table.eq_of_key_eq hp mem hid, fund_eq, hS] at hseen
      cases hseen
    rw [hsame]

end

end FundLedger.Api
