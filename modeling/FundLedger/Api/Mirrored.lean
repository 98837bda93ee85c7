import FundLedger.Api.Within
import FundLedger.Ledger.Funds
import FundLedger.Ledger.Acceptance

/-!
# The services on what some funds hold

Run on `db.within S`, a service that works on a fund of `S` does what it does on
`db`: it returns or raises the same, and what it leaves is the restriction of
what it leaves there.  Rows of the other funds can only be in the way through
the constraints that span all funds.  `NoneInTheWay` is about the random ids, and
the hypothesis on the idempotency key is the other one.

* The statements: each insert checks the same in the restriction.
* The engine: `postTransfer_mirrors`, and `runIdempotent_mirrors` under a key.
* The entry points of the API.
-/

namespace FundLedger

open Lib

/-- No row of another fund has an id that the request draws. -/
structure NoneInTheWay (S : Uuid → Bool) (env : Env) (db : Db) : Prop where
  transfer : ∀ t ∈ db.transfers, t.id = env.uuid4 .transfer → SeenTransfer S db t
  entry : ∀ e ∈ db.entries, ∀ i, e.id = env.uuid4 (.entry i) → (entryFund db e).any S = true
  call : ∀ c ∈ db.capitalCalls, c.id = env.uuid4 .document → S c.fund = true
  distribution : ∀ d ∈ db.distributions, d.id = env.uuid4 .document → S d.fund = true

/-- No transfer of another fund has the key. -/
def KeyOfSeen (S : Uuid → Bool) (db : Db) (key : String) : Prop :=
  ∀ t ∈ db.transfers, t.idempotencyKey = key → SeenTransfer S db t

section

variable {S : Uuid → Bool} {db : Db}

/-! ## Statements -/

theorem insertTransfer_within {t : Transfer} (ht : SeenTransfer S db t)
    (hid : ∀ u ∈ db.transfers, u.id = t.id → SeenTransfer S db u)
    (hkey : KeyOfSeen S db t.idempotencyKey)
    (hrev : ∀ u ∈ db.transfers, t.reverses.isSome ∧ u.reverses = t.reverses → SeenTransfer S db u)
    (horiginal : ∀ u ∈ db.transfers, t.reverses = some u.id → SeenTransfer S db u) :
    insertTransfer (db.within S) t = Db.within S <$> insertTransfer db t := by
  refine require_bind_map Iff.rfl fun _ => require_bind_map Iff.rfl fun _ =>
    require_bind_map Iff.rfl fun _ => require_bind_map Iff.rfl fun _ =>
    orRaise_bind_map (Table.insert_restrict ht hid) fun transfers _ => ?_
  refine require_bind_map (Table.forall_restrict fun u hu hk => hkey u hu (not_not.mp hk)) fun _ =>
    require_bind_map (Table.forall_restrict fun u hu hr => hrev u hu (not_not.mp hr)) fun _ =>
    require_bind_map (Table.exists_restrict fun p hp hid => ?_) fun _ =>
    require_bind_map ?_ fun _ => rfl
  · rw [SeenTransfer, transferFund, Table.get?_eq_some.mpr ⟨hp, hid⟩] at ht
    exact ht
  · refine forall₂_congr fun o ho => Table.exists_restrict fun u hu hid => horiginal u hu ?_
    rw [hid]
    exact ho

theorem insertEntry_within {e : Entry}
    (ht : ∀ t ∈ db.transfers, t.id = e.transfer → SeenTransfer S db t)
    (hid : ∀ s ∈ db.entries, s.id = e.id → (entryFund db s).any S = true)
    (hseen : (entryFund db e).any S = true) :
    insertEntry (db.within S) e = Db.within S <$> insertEntry db e := by
  have htransfer : (db.within S).transfers.get? e.transfer = db.transfers.get? e.transfer :=
    Table.get?_restrict_of_seen ht
  have hstatus : periodStatusOf (db.within S) e.transfer = periodStatusOf db e.transfer := by
    rw [periodStatusOf, periodStatusOf, htransfer]
    cases h : db.transfers.get? e.transfer with
    | none => rfl
    | some t =>
      obtain ⟨hmem, hkey⟩ := Table.get?_eq_some.mp h
      show ((db.within S).periods.get? t.period >>= _) = _
      rw [getPeriod_within (ht t hmem hkey)]
      rfl
  refine require_bind_map (by rw [hstatus]) fun _ => require_bind_map Iff.rfl fun _ =>
    require_bind_map Iff.rfl fun _ => require_bind_map Iff.rfl fun _ =>
    require_bind_map Iff.rfl fun _ => orRaise_bind_map (Table.insert_restrict hseen hid)
    fun entries _ => require_bind_map (Table.exists_restrict fun a ha hacc => ?_) fun _ => rfl
  rw [entryFund, Table.get?_eq_some.mpr ⟨ha, hacc.1⟩] at hseen
  exact hseen

/-- The entries of one transfer. -/
theorem insertEntries_within {es : List Entry} : ∀ {db : Db},
    (∀ e ∈ es, ∀ t ∈ db.transfers, t.id = e.transfer → SeenTransfer S db t) →
    (∀ e ∈ es, ∀ s ∈ db.entries, s.id = e.id → (entryFund db s).any S = true) →
    (∀ e ∈ es, (entryFund db e).any S = true) →
    insertEntries (db.within S) es = Db.within S <$> insertEntries db es := by
  induction es with
  | nil => exact fun _ _ _ => rfl
  | cons e es ih =>
    intro db ht hid hseen
    have hfirst := insertEntry_within (ht e List.mem_cons_self) (hid e List.mem_cons_self)
      (hseen e List.mem_cons_self)
    show (insertEntry (db.within S) e >>= fun d => insertEntries d es) =
      Db.within S <$> (insertEntry db e >>= fun d => insertEntries d es)
    rw [hfirst]
    cases h : insertEntry db e with
    | error x => rfl
    | ok db₁ =>
      obtain ⟨-, -, -, -, -, -, entries, hins, rfl⟩ := insertEntry_ok h
      refine ih (fun f hf => ht f (List.mem_cons_of_mem e hf)) (fun f hf s hs hkey => ?_)
        fun f hf => hseen f (List.mem_cons_of_mem e hf)
      rw [← Table.mem_rows, (Table.insert_eq_some.mp hins).2, List.mem_append,
        List.mem_singleton] at hs
      rcases hs with hs | rfl
      · exact hid f (List.mem_cons_of_mem e hf) s hs hkey
      · exact hseen s List.mem_cons_self

theorem insertCapitalCall_within {c : CapitalCall} (hS : S c.fund = true)
    (hid : ∀ d ∈ db.capitalCalls, d.id = c.id → S d.fund = true)
    (htransfer : ∀ d ∈ db.capitalCalls, d.transfer = c.transfer → S d.fund = true) :
    insertCapitalCall (db.within S) c = Db.within S <$> insertCapitalCall db c := by
  refine require_bind_map Iff.rfl fun _ => require_bind_map Iff.rfl fun _ =>
    orRaise_bind_map (Table.insert_restrict hS hid) fun calls _ =>
    require_bind_map (Table.forall_restrict fun d _ hd => ?_) fun _ =>
    require_bind_map (Table.forall_restrict fun d hd hk => htransfer d hd (not_not.mp hk)) fun _ => rfl
  rw [(not_not.mp hd).1, hS]

theorem insertDistribution_within {c : Distribution} (hS : S c.fund = true)
    (hid : ∀ d ∈ db.distributions, d.id = c.id → S d.fund = true)
    (htransfer : ∀ d ∈ db.distributions, d.transfer = c.transfer → S d.fund = true) :
    insertDistribution (db.within S) c = Db.within S <$> insertDistribution db c := by
  refine require_bind_map Iff.rfl fun _ => orRaise_bind_map (Table.insert_restrict hS hid)
    fun dists _ => require_bind_map (Table.forall_restrict fun d _ hd => ?_) fun _ =>
    require_bind_map (Table.forall_restrict fun d hd hk => htransfer d hd (not_not.mp hk)) fun _ => rfl
  rw [(not_not.mp hd).1, hS]

theorem updatePeriod_within {period : Period} (hp : period ∈ db.periods)
    (hS : S period.fund = true) (now : Timestamp) (closedBy : String) :
    updatePeriod (db.within S) period.id now closedBy =
      Db.within S <$> updatePeriod db period.id now closedBy := by
  refine require_bind_map Iff.rfl fun _ => require_bind_map
    (Table.forall_restrict fun q hq hclosed => ?_) fun _ => ?_
  · obtain ⟨hid, -⟩ := Classical.not_imp.mp hclosed
    rw [Table.eq_of_key_eq hq hp hid, hS]
  · have hclosed : ∀ p : Period, (p.close now closedBy).fund = p.fund := fun _ => rfl
    exact congrArg Except.ok (within_update hclosed).symm

/-! ## The engine -/

/-- The base currency of a period's fund. -/
theorem baseCurrencyOf_within {period : Period} (hS : S period.fund = true) :
    baseCurrencyOf (db.within S) period = baseCurrencyOf db period := by
  have hget : (db.within S).funds.get? period.fund = db.funds.get? period.fund :=
    Table.get?_restrict_of_seen fun f _ hf => by rw [hf, hS]
  rw [baseCurrencyOf, baseCurrencyOf, hget]

theorem lockAccounts_within {legs : List ValidLeg}
    (h : ∀ v ∈ legs, SeenAccount S db v.accountId) :
    lockAccounts (db.within S) legs = lockAccounts db legs := by
  have hget : ∀ i ∈ lockOrder legs, (db.within S).accounts.get? i = db.accounts.get? i := by
    intro i hi
    obtain ⟨v, hv, rfl⟩ := mem_lockOrder.mp hi
    exact Table.get?_restrict_of_seen (h v hv)
  have hlocked : (lockOrder legs).filterMap (db.within S).accounts.get? =
      (lockOrder legs).filterMap db.accounts.get? := List.filterMap_congr hget
  have hunknown : ((lockOrder legs).filter fun i => ((db.within S).accounts.get? i).isNone) =
      (lockOrder legs).filter fun i => (db.accounts.get? i).isNone :=
    List.filter_congr fun i hi => by rw [hget i hi]
  rw [lockAccounts, lockAccounts, hlocked, hunknown]

/-- The overdraft check asks for the balances of the legs' accounts only. -/
theorem checkSufficientFunds_congr {balance balance' : Uuid → Money} {priced : List PricedLeg}
    (h : ∀ p ∈ priced, balance' p.account.id = balance p.account.id) :
    checkSufficientFunds balance' priced = checkSufficientFunds balance priced := by
  obtain ⟨-, -, hkeys⟩ := fundDeltas_spec priced
  have hbalance : ∀ d ∈ fundDeltas priced, balance' d.1 = balance d.1 := by
    intro d hd
    obtain ⟨p, hp, -, hid⟩ := (hkeys d.1).mp (List.mem_map_of_mem hd)
    rw [← hid]
    exact h p hp
  refine forM_except_congr fun d hd => ?_
  rw [hbalance d hd]

variable (sep : Separate db)

include sep

theorem preparePosting_within {env : Env} {a : Posting} {legs : List ValidLeg}
    (hS : S a.period.fund = true) (h : ∀ v ∈ legs, SeenAccount S db v.accountId) :
    preparePosting env (db.within S) a legs = preparePosting env db a legs := by
  unfold preparePosting
  rw [lockAccounts_within h, baseCurrencyOf_within hS]
  refine except_bind_congr fun accounts _ => except_bind_congr fun _ _ =>
    except_bind_congr fun base _ => ?_
  show (priceLegs db legs accounts base _ >>= _) = _
  refine except_bind_congr fun priced hpriced => except_bind_congr fun _ _ => ?_
  have hbalance : ∀ p ∈ priced, nativeBalance (db.within S) p.account.id =
      nativeBalance db p.account.id := by
    intro p hp
    obtain ⟨v, hv, hpv⟩ := forall₂_exists_left (priceLegs_ok hpriced) hp
    refine nativeBalance_within sep ?_ none
    rw [hpv.2.1]
    exact h v hv
  have hfunds : checkSufficientFunds (fun account => nativeBalance (db.within S) account) priced =
      checkSufficientFunds (fun account => nativeBalance db account) priced :=
    checkSufficientFunds_congr hbalance
  rw [hfunds]

/-- Writing a posting whose legs are on accounts that are seen. -/
theorem writePosting_mirrors {env : Env} {a : Posting} {priced : List PricedLeg}
    (ht : SeenTransfer S db (transferFor env a))
    (haccounts : ∀ p ∈ priced, p.account ∈ db.accounts ∧ S p.account.fund = true)
    (clear : NoneInTheWay S env db) (hkey : KeyOfSeen S db a.idempotencyKey)
    (hrev : ∀ u ∈ db.transfers, a.reverses = some u.id → SeenTransfer S db u)
    (hother : ∀ u ∈ db.transfers, a.reverses.isSome ∧ u.reverses = a.reverses →
      SeenTransfer S db u) :
    Tx.Mirrors (Db.within S) db (writePosting env a priced) (writePosting env a priced) := by
  refine .bind (.statement (insertTransfer_within ht clear.transfer hkey hother hrev))
    fun _ db₁ hins => .lift_bind rfl fun es hes => ?_
  obtain ⟨-, -, -, -, -, -, -, transfers, htins, rfl⟩ := insertTransfer_ok (Tx.statement_ok.mp hins)
  obtain ⟨hfresh, hrows⟩ := Table.insert_eq_some.mp htins
  have hseen : ∀ e ∈ es, (entryFund db e).any S = true := by
    intro e he
    obtain ⟨p, hp, hrow⟩ := forall₂_exists_left (entriesFor_ok hes) he
    rw [entryFund, hrow.account_eq, Table.get?_of_mem (haccounts p hp).1]
    exact (haccounts p hp).2
  have htransfer : ∀ e ∈ es, e.transfer = (transferFor env a).id := by
    intro e he
    obtain ⟨p, -, hrow⟩ := forall₂_exists_left (entriesFor_ok hes) he
    exact hrow.transfer_eq
  have hid : ∀ e ∈ es, ∃ i, e.id = env.uuid4 (.entry i) := by
    intro e he
    have hmem := List.mem_map_of_mem (f := Entry.id) he
    rw [entriesFor_ids hes] at hmem
    obtain ⟨i, -, hi⟩ := List.mem_map.mp hmem
    exact ⟨i, hi.symm⟩
  refine .bind (.statement (insertEntries_within (fun e he u hu hut => ?_) (fun e he s hs hse => ?_)
    hseen)) fun _ db₂ hentries => .read_bind (.lift_bind ?_ fun _ _ => .pure _)
  · rw [← Table.mem_rows, hrows, List.mem_append, List.mem_singleton] at hu
    rcases hu with hu | rfl
    · exact absurd (hut.trans (htransfer e he)) (hfresh u hu)
    · exact ht
  · obtain ⟨i, hi⟩ := hid e he
    exact clear.entry s hs i (hse.trans hi)
  · obtain ⟨-, entries, hadded, rfl⟩ := insertEntries_ok (Tx.statement_ok.mp hentries)
    have hentriesOf : entriesOf (Db.within S { db with transfers, entries }) (transferFor env a).id =
        entriesOf { db with transfers, entries } (transferFor env a).id := by
      refine Table.filter_restrict (fun e he hq => ?_) fun _ _ _ => rfl
      rw [← Table.mem_rows, hadded, List.mem_append] at he
      rcases he with he | he
      · obtain ⟨u, hu, hut, -⟩ := sep.entry e he
        exact absurd (hut.trans (of_decide_eq_true hq)) (hfresh u hu)
      · exact hseen e he
    rw [assertTransferBalances, assertTransferBalances, hentriesOf]

/-- **A posting into a fund of `S`.** -/
theorem postTransfer_mirrors {env : Env} {a : Posting} (hS : S a.period.fund = true)
    (held : Holds db a.period) (hlegs : ∀ leg ∈ a.legs, SeenAccount S db leg.accountId)
    (clear : NoneInTheWay S env db) (hkey : KeyOfSeen S db a.idempotencyKey)
    (hrev : ∀ u ∈ db.transfers, a.reverses = some u.id → SeenTransfer S db u)
    (hother : ∀ u ∈ db.transfers, a.reverses.isSome ∧ u.reverses = a.reverses →
      SeenTransfer S db u) :
    Tx.Mirrors (Db.within S) db (postTransfer env a) (postTransfer env a) := by
  rw [postTransfer_eq]
  refine .lift_bind rfl fun legs hvalid => .atomic (.read_bind (.lift_bind ?_ fun priced hprep => ?_))
  · refine preparePosting_within sep hS fun v hv => ?_
    obtain ⟨leg, hleg, hok⟩ := forall₂_exists_left
      (mapM_except_ok.mp (validateLegs_ok hvalid).2.2.2) hv
    rw [(validateLeg_ok hok).1]
    exact hlegs leg hleg
  · obtain ⟨accounts, hprepared⟩ := preparePosting_ok hprep
    refine writePosting_mirrors sep ?_ (fun p hp => ?_) clear hkey hrev hother
    · obtain ⟨q, hq, hid, hfund⟩ := held
      have hget : db.periods.get? a.period.id = some q := Table.get?_eq_some.mpr ⟨hq, hid⟩
      show ((db.periods.get? a.period.id).map Period.fund).any S = true
      rw [hget]
      show S q.fund = true
      rw [hfund, hS]
    · obtain ⟨v, -, hpv⟩ := forall₂_exists_left hprepared.pricedAs hp
      refine ⟨(lockAccounts_ok hprepared.locked).2 _ hpv.1, ?_⟩
      rw [hprepared.same_fund _ hpv.1, hS]

omit sep

/-! ## Under a key -/

section

variable {α : Type} {key : String} {requestHash : RequestHash} {replay : Transfer → M α}

theorem answerWith_mirrors {t : Transfer}
    (h : Tx.Mirrors (Db.within S) db (replay t) (replay t)) :
    Tx.Mirrors (Db.within S) db (answerWith key requestHash replay t)
      (answerWith key requestHash replay t) := by
  unfold answerWith
  split
  · exact .throw _
  · exact .bind h fun _ _ _ => .pure _

/-- **An operation under a key** that no transfer of another fund has. -/
theorem runIdempotent_mirrors {create : M α} (hkey : KeyOfSeen S db key)
    (hcreate : Tx.Mirrors (Db.within S) db create create)
    (hreplay : ∀ t, transferByKey db key = some t →
      Tx.Mirrors (Db.within S) db (replay t) (replay t)) :
    Tx.Mirrors (Db.within S) db (runIdempotent key requestHash create replay)
      (runIdempotent key requestHash create replay) := by
  have hfind : transferByKey (db.within S) key = transferByKey db key := transferByKey_within hkey
  refine .read_bind ?_
  rw [hfind]
  cases hk : transferByKey db key with
  | some existing => exact answerWith_mirrors (hreplay existing hk)
  | none =>
    refine .tryCatch (.bind (.atomic hcreate) fun _ _ _ => .pure _) fun e s₁ herr => ?_
    -- the block was undone, so the handler runs where the block started
    obtain rfl : s₁ = db := by
      rcases Tx.bind_error.mp herr with hblock | ⟨_, _, -, hpure⟩
      · exact (Tx.atomic_error.mp hblock).2
      · cases (Tx.pure_eq.mp hpure).1
    unfold recover
    cases e with
    | integrity constraint =>
      dsimp only
      split
      · exact .throw _
      · exact .read_bind (.lift_bind (by rw [hfind]) fun t ht =>
          answerWith_mirrors (hreplay t (orRaise_eq_ok.mp ht)))
    | ledger cls detail =>
      refine .read_bind ?_
      rw [hfind, hk]
      exact .throw _
    | _ => exact .throw _

end

/-! ## Capital calls and distributions -/

section

variable {fundId : Uuid}

theorem getFund_id {fund : Fund} (h : getFund db fundId = .ok fund) : fund.id = fundId :=
  Table.key_of_get? (orRaise_eq_ok.mp h)

theorem proRata_within {env : Env} {fund : Fund} (hS : S fund.id = true) (total : Amount) :
    proRata env (db.within S) fund total = proRata env db fund total := by
  rw [proRata, proRata, commitmentsOf_within hS]

theorem seenAccount_of_mem {a : Account} (ha : a ∈ db.accounts) (hS : S a.fund = true) :
    SeenAccount S db a.id :=
  fun _ hb hid => by rw [Table.eq_of_key_eq hb ha hid, hS]

/-- The accounts of the legs that are shared out. -/
theorem seen_shareLegs {fund : Fund} (hS : S fund.id = true) {cash : Account}
    (hcash : getAccount db fund .CASH = .ok cash) {shares : Dict Uuid Dec} {legs : List Leg}
    (h : shareLegs (fun _ => .ok cash.id)
        (fun lp => Account.id <$> lookup (lpCapitalAccounts db fund) lp) shares = .ok legs ∨
      shareLegs (fun lp => Account.id <$> lookup (lpCapitalAccounts db fund) lp)
        (fun _ => .ok cash.id) shares = .ok legs) :
    ∀ leg ∈ legs, SeenAccount S db leg.accountId := by
  obtain ⟨code, -, hfind⟩ := except_bind_ok.mp hcash
  obtain ⟨hmem, hfund, -⟩ := findAccount_eq_some (orRaise_eq_ok.mp hfind)
  have honCash : ∀ {i : Uuid}, (.ok cash.id : Except Exc Uuid) = .ok i → SeenAccount S db i := by
    intro i hi
    rw [← Except.ok.inj hi]
    exact seenAccount_of_mem hmem (by rw [hfund, hS])
  have honCapital : ∀ {lp i : Uuid}, Account.id <$> lookup (lpCapitalAccounts db fund) lp = .ok i →
      SeenAccount S db i := by
    intro lp i hi
    cases hlook : lookup (lpCapitalAccounts db fund) lp with
    | error e =>
      rw [hlook] at hi
      cases hi
    | ok b =>
      rw [hlook] at hi
      obtain ⟨hb, hcapital⟩ := lookup_capital_mem hlook
      rw [← Except.ok.inj hi]
      exact seenAccount_of_mem hb (by rw [hcapital.fund_eq, hS])
  intro leg hleg
  rcases h with h | h
  · obtain ⟨lp, -, hd | hc⟩ := mem_shareLegs h hleg
    · exact honCash hd
    · exact honCapital hc
  · obtain ⟨lp, -, hd | hc⟩ := mem_shareLegs h hleg
    · exact honCapital hd
    · exact honCash hc

variable (sep : Separate db)

include sep

theorem checkUnfunded_within {fund : Fund} (hS : S fund.id = true) (commitments : List Commitment)
    (shares : Dict Uuid Dec) :
    checkUnfunded (db.within S) commitments (lpCapitalAccounts db fund) shares =
      checkUnfunded db commitments (lpCapitalAccounts db fund) shares := by
  refine forM_except_congr fun c _ => except_bind_congr fun account haccount => ?_
  obtain ⟨hmem, hcapital⟩ := lookup_capital_mem haccount
  rw [contributed_within sep (seenAccount_of_mem hmem (by rw [hcapital.fund_eq, hS]))]

theorem planCapitalCall_within {env : Env} (hS : S fundId = true) (total : Amount)
    (noticeDate : Date) :
    planCapitalCall env (db.within S) fundId total noticeDate =
      planCapitalCall env db fundId total noticeDate := by
  unfold planCapitalCall
  rw [getFund_within hS]
  refine except_bind_congr fun fund hfund => ?_
  have hS' : S fund.id = true := by rw [getFund_id hfund, hS]
  rw [periodFor_within hS', proRata_within hS', lpCapitalAccounts_within hS', getAccount_within hS',
    nextCallNumber_within hS']
  refine except_bind_congr fun period _ => except_bind_congr fun ⟨commitments, shares⟩ _ => ?_
  dsimp only
  rw [checkUnfunded_within sep hS']

omit sep in
theorem planDistribution_within {env : Env} (hS : S fundId = true) (total : Amount)
    (paymentDate : Date) :
    planDistribution env (db.within S) fundId total paymentDate =
      planDistribution env db fundId total paymentDate := by
  unfold planDistribution
  rw [getFund_within hS]
  refine except_bind_congr fun fund hfund => ?_
  have hS' : S fund.id = true := by rw [getFund_id hfund, hS]
  rw [periodFor_within hS', proRata_within hS', lpCapitalAccounts_within hS', getAccount_within hS',
    nextDistributionNumber_within hS']

/-- A document that points at a transfer which is not there yet. -/
theorem seen_call_of_fresh {transfer : Uuid} (hfresh : ∀ t ∈ db.transfers, t.id ≠ transfer)
    {d : CapitalCall} (hd : d ∈ db.capitalCalls) (h : d.transfer = transfer) : S d.fund = true := by
  obtain ⟨t, ht, hid, -⟩ := sep.call d hd
  exact absurd (hid.trans h) (hfresh t ht)

theorem seen_distribution_of_fresh {transfer : Uuid} (hfresh : ∀ t ∈ db.transfers, t.id ≠ transfer)
    {d : Distribution} (hd : d ∈ db.distributions) (h : d.transfer = transfer) :
    S d.fund = true := by
  obtain ⟨t, ht, hid, -⟩ := sep.distribution d hd
  exact absurd (hid.trans h) (hfresh t ht)

theorem createCapitalCall_mirrors {env : Env} {key : String} (hS : S fundId = true)
    (clear : NoneInTheWay S env db) (hkey : KeyOfSeen S db key) (total : Amount)
    (noticeDate dueDate : Date) (createdBy : String) :
    Tx.Mirrors (Db.within S) db
      (createCapitalCall env fundId key total noticeDate dueDate createdBy)
      (createCapitalCall env fundId key total noticeDate dueDate createdBy) := by
  refine .lift_bind rfl fun units _ => runIdempotent_mirrors hkey ?_ fun t ht => ?_
  · refine .read_bind (.lift_bind (planCapitalCall_within sep hS total noticeDate) fun plan hplan => ?_)
    obtain ⟨fund, commitments, shares, cash, hfund, hperiod, -, -, hcash, hlegs, -⟩ :=
      planCapitalCall_ok hplan
    have hS' : S fund.id = true := by rw [getFund_id hfund, hS]
    refine .bind (postTransfer_mirrors sep ?_ (holds_periodFor hperiod)
      (seen_shareLegs hS' hcash (.inl hlegs)) clear hkey (fun _ _ h => by cases h)
      fun _ _ h => by cases h.1) fun t db₁ hpost => .lift_bind rfl fun units _ => ?_
    · show S plan.period.fund = true
      rw [(periodFor_mem hperiod).2.1, hS']
    · obtain ⟨rfl, es, hposted⟩ := postTransfer_ok hpost
      obtain ⟨transfers, entries, -, -, rfl⟩ := hposted.appended
      exact .bind (.statement (insertCapitalCall_within hS clear.call fun d hd h =>
        seen_call_of_fresh sep hposted.id_fresh hd h)) fun _ _ _ => .pure _
  · obtain ⟨hmem, hk⟩ := transferByKey_some ht
    exact .read_bind (.lift (by rw [call_within sep hmem (hkey t hmem hk)]))

theorem createDistribution_mirrors {env : Env} {key : String} (hS : S fundId = true)
    (clear : NoneInTheWay S env db) (hkey : KeyOfSeen S db key) (total : Amount)
    (paymentDate : Date) (classification : DistributionClassification) (createdBy : String) :
    Tx.Mirrors (Db.within S) db
      (createDistribution env fundId key total paymentDate classification createdBy)
      (createDistribution env fundId key total paymentDate classification createdBy) := by
  refine .lift_bind rfl fun units _ => runIdempotent_mirrors hkey ?_ fun t ht => ?_
  · refine .read_bind (.lift_bind (planDistribution_within hS total paymentDate) fun plan hplan => ?_)
    obtain ⟨fund, commitments, shares, cash, hfund, hperiod, -, hcash, hlegs, -⟩ :=
      planDistribution_ok hplan
    have hS' : S fund.id = true := by rw [getFund_id hfund, hS]
    refine .bind (postTransfer_mirrors sep ?_ (holds_periodFor hperiod)
      (seen_shareLegs hS' hcash (.inr hlegs)) clear hkey (fun _ _ h => by cases h)
      fun _ _ h => by cases h.1) fun t db₁ hpost => .lift_bind rfl fun units _ => ?_
    · show S plan.period.fund = true
      rw [(periodFor_mem hperiod).2.1, hS']
    · obtain ⟨rfl, es, hposted⟩ := postTransfer_ok hpost
      obtain ⟨transfers, entries, -, -, rfl⟩ := hposted.appended
      exact .bind (.statement (insertDistribution_within hS clear.distribution fun d hd h =>
        seen_distribution_of_fresh sep hposted.id_fresh hd h)) fun _ _ _ => .pure _
  · obtain ⟨hmem, hk⟩ := transferByKey_some ht
    exact .read_bind (.lift (by rw [distribution_within sep hmem (hkey t hmem hk)]))

/-! ## Reversals and periods -/

/-- The entries of a transfer are on accounts of its fund. -/
theorem seen_flippedLegs {t : Transfer} (ht : t ∈ db.transfers) (h : SeenTransfer S db t) :
    ∀ leg ∈ (entriesById db t.id).map flippedLeg, SeenAccount S db leg.accountId := by
  intro leg hleg
  obtain ⟨e, he, rfl⟩ := List.mem_map.mp hleg
  obtain ⟨hmem, htransfer⟩ := List.mem_filter.mp ((List.mem_insertionSort _).mp he)
  obtain ⟨u, hu, hid, fund, huf, hef⟩ := sep.entry e hmem
  rw [Table.eq_of_key_eq hu ht (hid.trans (of_decide_eq_true htransfer))] at huf
  intro a ha hacc
  have hacc : a.id = e.account := hacc
  rw [entryFund, Table.get?_eq_some.mpr ⟨ha, hacc⟩, Option.map_some, Option.some.injEq] at hef
  rw [SeenTransfer, huf] at h
  rw [hef]
  exact h

theorem reverseTransfer_mirrors {env : Env} {key : String} {original : Transfer} {period : Period}
    (hmem : original ∈ db.transfers) (hseen : SeenTransfer S db original)
    (hS : S period.fund = true) (held : Holds db period) (clear : NoneInTheWay S env db)
    (hkey : KeyOfSeen S db key) (createdBy : String) :
    Tx.Mirrors (Db.within S) db (reverseTransfer env original.id key period createdBy)
      (reverseTransfer env original.id key period createdBy) := by
  have hget : db.transfers.get? original.id = some original := Table.get?_of_mem hmem
  refine .read_bind (.lift_bind (by rw [getTransfer_within hmem hseen]) fun o ho => ?_)
  obtain rfl : o = original := Option.some.inj ((orRaise_eq_ok.mp ho).symm.trans hget)
  have hentries : entriesById (db.within S) o.id = entriesById db o.id := by
    rw [entriesById, entriesById, entriesOf_within sep hmem hseen]
  refine .lift_bind rfl fun _ _ => .lift_bind (by rw [reversalOf_within sep hmem hseen]) fun _ _ => ?_
  rw [hentries]
  have hself : ∀ u ∈ db.transfers, some o.id = some u.id → SeenTransfer S db u := fun u hu h => by
    rwa [Table.eq_of_key_eq hu hmem (Option.some.inj h).symm]
  refine .tryCatch (runIdempotent_mirrors hkey (postTransfer_mirrors sep hS held
    (seen_flippedLegs sep hmem hseen) clear hkey hself fun u hu h => ?_) fun _ _ => .pure _)
    fun e _ _ => ?_
  · rw [SeenTransfer, sep.reversal_fund hu hmem h.2]
    exact hseen
  · split <;> exact .throw _

theorem postReversal_mirrors {env : Env} {key : String} {original : Transfer}
    (hmem : original ∈ db.transfers) (hseen : SeenTransfer S db original)
    (clear : NoneInTheWay S env db) (hkey : KeyOfSeen S db key) (onDate : Option Date)
    (actor : String) :
    Tx.Mirrors (Db.within S) db (postReversal env original.id key onDate actor)
      (postReversal env original.id key onDate actor) := by
  have hget : db.transfers.get? original.id = some original := Table.get?_of_mem hmem
  refine .read_bind (.lift_bind (by rw [getTransfer_within hmem hseen]) fun o ho => ?_)
  obtain rfl : o = original := Option.some.inj ((orRaise_eq_ok.mp ho).symm.trans hget)
  refine .lift_bind (by rw [fundOfTransfer, fundOfTransfer, getPeriod_within hseen])
    fun fund hfund => ?_
  have hS : S fund = true := by
    cases hp : db.periods.get? o.period with
    | none =>
      rw [fundOfTransfer, hp] at hfund
      cases hfund
    | some p =>
      rw [fundOfTransfer, hp] at hfund
      rw [SeenTransfer, transferFund, hp] at hseen
      rw [← Except.ok.inj hfund]
      exact hseen
  refine .lift_bind (periodFor_within hS _) fun period hperiod => ?_
  obtain ⟨-, hpf, -⟩ := periodFor_mem hperiod
  exact reverseTransfer_mirrors sep hmem hseen (by rw [hpf, hS]) (holds_periodFor hperiod) clear
    hkey actor

/-- What is checked before a period is closed. -/
theorem checkClosable_within (hS : S fundId = true) {period : Period} (hmem : period ∈ db.periods)
    (hfund : period.fund = fundId) :
    checkClosable (db.within S) fundId period = checkClosable db fundId period := by
  rw [checkClosable, checkClosable, periodImbalance_within sep hmem (by rw [hfund, hS])]
  congr 1
  refine require_congr (Table.forall_restrict fun p _ hp => ?_)
  rw [(not_not.mp hp).1, hS]

theorem closePeriod_mirrors {env : Env} (hS : S fundId = true) (periodId : Uuid)
    (closedBy : String) :
    Tx.Mirrors (Db.within S) db (closePeriod env fundId periodId closedBy)
      (closePeriod env fundId periodId closedBy) := by
  refine .atomic (.read_bind (.lift_bind (periodOfFund_within hS periodId) fun period hperiod => ?_))
  obtain ⟨hget, hfilter⟩ := Option.filter_eq_some_iff.mp (orRaise_eq_ok.mp hperiod)
  have hmem := Table.mem_of_get? hget
  have hfund : period.fund = fundId := of_decide_eq_true hfilter
  split
  · exact .pure _
  · exact .lift_bind (checkClosable_within sep hS hmem hfund) fun _ _ => .bind
      (.statement (updatePeriod_within hmem (by rw [hfund, hS]) env.now closedBy))
      fun _ _ _ => .pure _

end

end

end FundLedger
