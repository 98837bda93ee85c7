import FundLedger.Api.Effects

/-!
# Histories of requests

`afterRequests` is the database after any number of requests, made by anyone.
`AccountedFor` says that everything new in it is somebody's work: a transfer
carries the name of a user who has the role of an operator on its fund, and a
period the name of a controller who closed it while it was open.  Nothing else
is different.

* One request is accounted for because its effect is (`serve_accounted`).
* Histories compose (`AccountedFor.trans`), and the memberships that the roles are
  read from are the same throughout.
-/

namespace FundLedger.Api

open Lib

/-- A request and what the views read beside the database when it is served. -/
abbrev Served := ApiEnv × Incoming

def afterRequests (db : Db) : List Served → Db
  | [] => db
  | x :: rest => afterRequests (serve x.1 x.2 db).2 rest

/-- One of the requests was made at the time by a user of that name, with the
role on the fund. -/
def MadeBy (db : Db) (history : List Served) (role : Role) (fund : Uuid) (now : Timestamp)
    (username : String) : Prop :=
  ∃ x ∈ history, x.1.now = now ∧ ∃ user ∈ x.2.caller, user.username = username ∧
    ∃ m ∈ db.memberships, m.user = user.id ∧ m.fund = fund ∧ roleRank role ≤ roleRank m.role

/-- A transfer of the fund that is new in `db'`. -/
def NewTransfer (db db' : Db) (id fund : Uuid) : Prop :=
  ∃ t ∈ db'.transfers, t ∉ db.transfers ∧ t.id = id ∧ transferFund db' t = some fund

/-- What is new in `db'` is the work of the requests. -/
structure AccountedFor (db : Db) (history : List Served) (db' : Db) : Prop where
  setUp : SameSetUp db db'
  kept : Extends db db'
  transfer : ∀ t ∈ db'.transfers, t ∈ db.transfers ∨ ∃ fund, transferFund db' t = some fund ∧
    MadeBy db history .OPERATOR fund t.createdAt t.createdBy
  entry : ∀ e ∈ db'.entries, e ∈ db.entries ∨ ∃ fund, entryFund db' e = some fund ∧
    NewTransfer db db' e.transfer fund
  call : ∀ c ∈ db'.capitalCalls, c ∈ db.capitalCalls ∨ NewTransfer db db' c.transfer c.fund
  distribution : ∀ d ∈ db'.distributions, d ∈ db.distributions ∨
    NewTransfer db db' d.transfer d.fund
  period : ∀ p ∈ db'.periods, p ∈ db.periods ∨ ∃ q ∈ db.periods, q.status ≠ .CLOSED ∧
    ∃ now username, p = q.close now username ∧
      MadeBy db history .CONTROLLER q.fund now username

/-! ## Histories compose -/

section

variable {db db₁ db' : Db} {history history' : List Served}

theorem SameSetUp.refl (db : Db) : SameSetUp db db := ⟨rfl, rfl, rfl, rfl, rfl, rfl⟩

theorem SameSetUp.trans (h : SameSetUp db db₁) (h' : SameSetUp db₁ db') : SameSetUp db db' where
  funds := h'.funds.trans h.funds
  lps := h'.lps.trans h.lps
  commitments := h'.commitments.trans h.commitments
  fxRates := h'.fxRates.trans h.fxRates
  accounts := h'.accounts.trans h.accounts
  memberships := h'.memberships.trans h.memberships

theorem SameSetUp.entryFund (h : SameSetUp db db') (e : Entry) :
    FundLedger.entryFund db' e = FundLedger.entryFund db e := by
  rw [FundLedger.entryFund, FundLedger.entryFund, h.accounts]

/-- A transfer stays in its fund. -/
theorem transferFund_extends (h : Extends db db') {t : Transfer} {fund : Uuid}
    (hfund : transferFund db t = some fund) : transferFund db' t = some fund := by
  obtain ⟨p, hp, rfl⟩ := Option.map_eq_some_iff.mp hfund
  obtain ⟨q, hq, hqf⟩ := h.getPeriod hp
  rw [transferFund, hq, Option.map_some, hqf]

theorem MadeBy.before {role : Role} {fund : Uuid} {now : Timestamp} {username : String}
    (h : MadeBy db history role fund now username) :
    MadeBy db (history ++ history') role fund now username := by
  obtain ⟨x, hx, hrest⟩ := h
  exact ⟨x, List.mem_append_left _ hx, hrest⟩

/-- The later requests were made by members of the earlier database. -/
theorem MadeBy.after {role : Role} {fund : Uuid} {now : Timestamp} {username : String}
    (hsame : SameSetUp db db₁) (h : MadeBy db₁ history' role fund now username) :
    MadeBy db (history ++ history') role fund now username := by
  obtain ⟨x, hx, hnow, user, hcaller, hname, m, hm, hrest⟩ := h
  rw [hsame.memberships] at hm
  exact ⟨x, List.mem_append_right _ hx, hnow, user, hcaller, hname, m, hm, hrest⟩

theorem NewTransfer.before (hkept : Extends db₁ db') {id fund : Uuid}
    (h : NewTransfer db db₁ id fund) : NewTransfer db db' id fund := by
  obtain ⟨t, ht, hnew, hid, hfund⟩ := h
  exact ⟨t, hkept.transfers.subset ht, hnew, hid, transferFund_extends hkept hfund⟩

theorem NewTransfer.after (hkept : Extends db db₁) {id fund : Uuid}
    (h : NewTransfer db₁ db' id fund) : NewTransfer db db' id fund := by
  obtain ⟨t, ht, hnew, hid, hfund⟩ := h
  exact ⟨t, ht, fun hold => hnew (hkept.transfers.subset hold), hid, hfund⟩

theorem AccountedFor.refl (db : Db) : AccountedFor db [] db where
  setUp := .refl db
  kept := .refl db
  transfer _ ht := .inl ht
  entry _ he := .inl he
  call _ hc := .inl hc
  distribution _ hd := .inl hd
  period _ hp := .inl hp

theorem AccountedFor.trans (h : AccountedFor db history db₁) (h' : AccountedFor db₁ history' db') :
    AccountedFor db (history ++ history') db' where
  setUp := h.setUp.trans h'.setUp
  kept := h.kept.trans h'.kept
  transfer t ht := by
    rcases h'.transfer t ht with ht | ⟨fund, hfund, hby⟩
    · rcases h.transfer t ht with ht | ⟨fund, hfund, hby⟩
      · exact .inl ht
      · exact .inr ⟨fund, transferFund_extends h'.kept hfund, hby.before⟩
    · exact .inr ⟨fund, hfund, hby.after h.setUp⟩
  entry e he := by
    rcases h'.entry e he with he | ⟨fund, hfund, hnew⟩
    · rcases h.entry e he with he | ⟨fund, hfund, hnew⟩
      · exact .inl he
      · exact .inr ⟨fund, (h'.setUp.entryFund e).trans hfund, hnew.before h'.kept⟩
    · exact .inr ⟨fund, hfund, hnew.after h.kept⟩
  call c hc := by
    rcases h'.call c hc with hc | hnew
    · exact (h.call c hc).imp_right (·.before h'.kept)
    · exact .inr (hnew.after h.kept)
  distribution d hd := by
    rcases h'.distribution d hd with hd | hnew
    · exact (h.distribution d hd).imp_right (·.before h'.kept)
    · exact .inr (hnew.after h.kept)
  period p hp := by
    rcases h'.period p hp with hp | ⟨q, hq, hopen, now, username, rfl, hby⟩
    · rcases h.period p hp with hp | ⟨q, hq, hopen, now, username, rfl, hby⟩
      · exact .inl hp
      · exact .inr ⟨q, hq, hopen, now, username, rfl, hby.before⟩
    · -- it was open in between, so no earlier request closed it
      rcases h.period q hq with hq | ⟨_, -, -, _, _, rfl, -⟩
      · exact .inr ⟨q, hq, hopen, now, username, rfl, hby.after h.setUp⟩
      · exact absurd rfl hopen

end

/-! ## One request -/

section

variable {env : ApiEnv} {q : Incoming} {user : User} {m : FundMembership} {db db' db₁ : Db}

theorem PostedFor.accounted {a : Posting} {es : List Entry}
    (h : PostedFor env.toEnv user m.fund a db db' es)
    (hby : MadeBy db [(env, q)] .OPERATOR m.fund env.now user.username) :
    AccountedFor db [(env, q)] db' := by
  have hnew := h.transferFund_new
  have hentry : ∀ e ∈ es, entryFund db e = some m.fund := fun _ => h.entryFund_new
  have htransfer : ∀ e ∈ es, e.transfer = (transferFor env.toEnv a).id :=
    fun _ => h.posted.entry_transfer
  have hkept : Extends db db' := (Change.posted h.business h.held h.posted).extends
  have hfresh : transferFor env.toEnv a ∉ db.transfers := fun hold => h.posted.id_fresh _ hold rfl
  obtain ⟨transfers, entries, htrows, herows, rfl⟩ := h.posted.appended
  have hmem : transferFor env.toEnv a ∈ transfers := by
    rw [← Table.mem_rows, htrows]
    exact List.mem_append_right _ (List.mem_singleton_self _)
  refine ⟨⟨rfl, rfl, rfl, rfl, rfl, rfl⟩, hkept, fun t ht => ?_, fun e he => ?_, fun _ => .inl,
    fun _ => .inl, fun _ => .inl⟩
  · rw [← Table.mem_rows, htrows, List.mem_append, List.mem_singleton] at ht
    rcases ht with ht | rfl
    · exact .inl ht
    · refine .inr ⟨m.fund, hnew, ?_⟩
      show MadeBy db [(env, q)] .OPERATOR m.fund env.now a.createdBy
      rwa [h.createdBy_eq]
  · rw [← Table.mem_rows, herows, List.mem_append] at he
    rcases he with he | he
    · exact .inl he
    · exact .inr ⟨m.fund, hentry e he, _, hmem, hfresh, (htransfer e he).symm, hnew⟩

/-- The transfer of a posting is new. -/
theorem PostedFor.newTransfer {a : Posting} {es : List Entry}
    (h : PostedFor env.toEnv user m.fund a db db' es) :
    NewTransfer db db' (transferFor env.toEnv a).id m.fund :=
  ⟨_, h.mem_new, fun hold => h.posted.id_fresh _ hold rfl, rfl, h.transferFund_after⟩

theorem Effect.accounted {role : Role} (h : Effect env.toEnv user m.fund role db db')
    (hby : MadeBy db [(env, q)] role m.fund env.now user.username) :
    AccountedFor db [(env, q)] db' := by
  cases h with
  | @capitalCall a es c _ db₁ _ posted fund_eq transfer_eq inserted =>
    have hposted := posted.accounted hby
    have hnew : NewTransfer db db₁ c.transfer c.fund := by
      rw [transfer_eq, fund_eq]
      exact posted.newTransfer
    obtain ⟨-, -, calls, hins, rfl⟩ := insertCapitalCall_ok inserted
    have hrows := (Table.insert_eq_some.mp hins).2
    refine { hposted with
      setUp := ⟨hposted.setUp.1, hposted.setUp.2, hposted.setUp.3, hposted.setUp.4,
        hposted.setUp.5, hposted.setUp.6⟩
      kept := { hposted.kept with
        capitalCalls := hposted.kept.capitalCalls.trans ⟨_, hrows.symm⟩ }
      call := fun d hd => ?_ }
    rw [← Table.mem_rows, hrows, List.mem_append, List.mem_singleton] at hd
    rcases hd with hd | rfl
    · exact hposted.call d hd
    · exact .inr hnew
  | @distribution a es c _ db₁ _ posted fund_eq transfer_eq inserted =>
    have hposted := posted.accounted hby
    have hnew : NewTransfer db db₁ c.transfer c.fund := by
      rw [transfer_eq, fund_eq]
      exact posted.newTransfer
    obtain ⟨-, -, dists, hins, rfl⟩ := insertDistribution_ok inserted
    have hrows := (Table.insert_eq_some.mp hins).2
    refine { hposted with
      setUp := ⟨hposted.setUp.1, hposted.setUp.2, hposted.setUp.3, hposted.setUp.4,
        hposted.setUp.5, hposted.setUp.6⟩
      kept := { hposted.kept with
        distributions := hposted.kept.distributions.trans ⟨_, hrows.symm⟩ }
      distribution := fun d hd => ?_ }
    rw [← Table.mem_rows, hrows, List.mem_append, List.mem_singleton] at hd
    rcases hd with hd | rfl
    · exact hposted.distribution d hd
    · exact .inr hnew
  | reversal posted => exact posted.accounted hby
  | @periodClosed period _ _ mem fund_eq updated =>
    have hkept : Extends db db' := (Change.periodClosed (Q := Business) updated).extends
    obtain ⟨hopen, rfl⟩ := updatePeriod_ok updated
    refine ⟨⟨rfl, rfl, rfl, rfl, rfl, rfl⟩, hkept, fun _ => .inl, fun _ => .inl, fun _ => .inl,
      fun _ => .inl, fun p hp => ?_⟩
    obtain ⟨r, hr, hp⟩ : ∃ r ∈ db.periods, (if decide (r.id = period.id) = true then
        r.close env.now user.username else r) = p := List.mem_map.mp hp
    split at hp
    case isTrue hid =>
      have hid : r.id = period.id := of_decide_eq_true hid
      refine .inr ⟨r, hr, hopen r hr hid, env.now, user.username, hp.symm, ?_⟩
      rwa [Table.eq_of_key_eq hr mem hid, fund_eq]
    case isFalse => exact .inl (hp ▸ hr)

theorem serve_accounted (env : ApiEnv) (q : Incoming) (db : Db) :
    AccountedFor db [(env, q)] (serve env q db).2 := by
  obtain hsame | ⟨user, m, role, hcaller, hm, huser, hrank, heffect, -⟩ := serve_effect env q db
  · rw [hsame]
    exact { AccountedFor.refl db with
      transfer := fun _ => .inl
      period := fun _ => .inl }
  · exact heffect.accounted ⟨(env, q), List.mem_singleton_self _, rfl, user, hcaller, rfl, m, hm,
      huser, rfl, hrank⟩

/-! ## Every history -/

/-- **Accountability.**  After any requests, made by anyone in any order, no row
is gone or changed other than a period that was open and is closed.  Every new
transfer was made by a user with the role of an operator on its fund, whose name
it carries, and every new entry and document belongs to a new transfer of its
fund.  A period was closed by a controller of its fund. -/
theorem accountability (db : Db) (history : List Served) :
    AccountedFor db history (afterRequests db history) := by
  induction history generalizing db with
  | nil => exact .refl db
  | cons x rest ih => exact (serve_accounted x.1 x.2 db).trans (ih _)

end

end FundLedger.Api
