import FundLedger.Ledger.Services

/-!
# What a posting does

`postTransfer` either raises and leaves the database as it was, or it appends
one transfer and its entries.  `Posted` is everything that is known in the
second case: what was checked, what was appended, and that the rest of the
database is the same.  Every later proof about a posting starts from it, and
none of them unfolds `postTransfer` again.
-/

namespace FundLedger

open Lib

/-! ## The checks -/

theorem lockAccounts_ok {db : Db} {legs : List ValidLeg} {accounts : List Account}
    (h : lockAccounts db legs = .ok accounts) :
    accounts = (lockOrder legs).filterMap db.accounts.get? ∧
    ∀ a ∈ accounts, a ∈ db.accounts := by
  unfold lockAccounts at h
  dsimp only at h
  split at h
  · cases h
  · cases h
    refine ⟨rfl, fun a ha => ?_⟩
    obtain ⟨i, -, hi⟩ := List.mem_filterMap.mp ha
    exact Table.mem_of_get? hi

theorem validateContext_ok {period : Period} {accounts : List Account} {u : Unit} :
    validateContext period accounts = .ok u ↔
      period.status = .OPEN ∧ ∀ a ∈ accounts, a.fund = period.fund := by
  unfold validateContext
  dsimp only
  split
  · rename_i h
    simp [h]
  · rename_i h
    rw [not_not] at h
    split
    · rename_i hf
      simp only [reduceCtorEq, false_iff, not_and]
      intro _ hall
      refine hf (List.filter_eq_nil_iff.mpr fun a ha => ?_)
      simp [hall a ha]
    · rename_i hf
      rw [not_not, List.filter_eq_nil_iff] at hf
      simpa [h] using hf

theorem checkBalanced_ok {priced : List PricedLeg} {u : Unit} :
    checkBalanced priced = .ok u ↔
      (sideTotal .DEBIT priced).val = (sideTotal .CREDIT priced).val := by
  rw [← Dec.eqv_iff, checkBalanced]
  exact require_eq_ok

/-- The facts that `preparePosting` establishes. -/
structure Prepared (env : Env) (db : Db) (a : Posting) (legs : List ValidLeg)
    (accounts : List Account) (priced : List PricedLeg) : Prop where
  locked : lockAccounts db legs = .ok accounts
  status_open : a.period.status = .OPEN
  same_fund : ∀ c ∈ accounts, c.fund = a.period.fund
  pricedBy : ∃ base, baseCurrencyOf db a.period = .ok base ∧
    priceLegs db legs accounts base (a.fxDate.getD env.today) = .ok priced
  balanced : (sideTotal .DEBIT priced).val = (sideTotal .CREDIT priced).val
  funds : checkSufficientFunds (fun account => nativeBalance db account) priced = .ok ()

theorem Prepared.pricedAs {env : Env} {db : Db} {a : Posting} {legs : List ValidLeg}
    {accounts : List Account} {priced : List PricedLeg}
    (h : Prepared env db a legs accounts priced) : List.Forall₂ (PricedAs accounts) legs priced := by
  obtain ⟨base, -, hprice⟩ := h.pricedBy
  exact priceLegs_ok hprice

theorem preparePosting_ok {env : Env} {db : Db} {a : Posting} {legs : List ValidLeg}
    {priced : List PricedLeg} (h : preparePosting env db a legs = .ok priced) :
    ∃ accounts, Prepared env db a legs accounts priced := by
  simp only [preparePosting, except_bind_ok, except_pure] at h
  obtain ⟨accounts, hlock, _, hctx, base, hbase, priced', hprice, _, hbal, ⟨⟩, hfunds, rfl⟩ := h
  obtain ⟨hopen, hfund⟩ := validateContext_ok.mp hctx
  exact ⟨accounts, hlock, hopen, hfund, ⟨base, hbase, hprice⟩, checkBalanced_ok.mp hbal, hfunds⟩

/-! ## The rows -/

/-- `e` is the row of the priced leg `p`. -/
structure RowOf (env : Env) (transfer : Uuid) (p : PricedLeg) (e : Entry) : Prop where
  transfer_eq : e.transfer = transfer
  account_eq : e.account = p.account.id
  direction_eq : e.direction = p.direction
  currency_eq : e.currency = p.currency
  amount_eq : Money.ofDec? p.amount = some e.amount
  fxRate_eq : storedRate p.fxRate = .ok e.fxRate
  baseAmount_eq : Money.ofDec? p.baseAmount = some e.baseAmount
  createdAt_eq : e.createdAt = env.now

theorem entryOf_ok {env : Env} {transfer : Uuid} {p : PricedLeg} {index : ℕ} {e : Entry}
    (h : entryOf env transfer p index = .ok e) : RowOf env transfer p e := by
  simp only [entryOf, except_bind_ok, orRaise_eq_ok, except_pure] at h
  obtain ⟨amount, hamount, rate, hrate, base, hbase, rfl⟩ := h
  exact ⟨rfl, rfl, rfl, rfl, hamount, hrate, hbase, rfl⟩

theorem entriesFor_ok {env : Env} {transfer : Uuid} {priced : List PricedLeg}
    {es : List Entry} (h : entriesFor env transfer priced = .ok es) :
    List.Forall₂ (RowOf env transfer) priced es := by
  have hrows := (mapM_except_ok.mp h).imp fun c e he => entryOf_ok he
  have hmap : priced.zipIdx.map Prod.fst = priced := List.zipIdx_map_fst 0 priced
  rw [← hmap, List.forall₂_map_left_iff]
  exact hrows

/-- What inserting one entry checked. -/
structure EntryAccepted (db : Db) (e : Entry) : Prop where
  period_open : periodStatusOf db e.transfer = some .OPEN
  amount_pos : 0 < e.amount
  baseAmount_pos : 0 < e.baseAmount
  iso4217 : isIso4217 e.currency
  fxRate_pos : ∀ r ∈ e.fxRate, 0 < r
  account : ∃ a ∈ db.accounts, a.id = e.account ∧ a.currency = e.currency

theorem insertEntries_ok : ∀ {es : List Entry} {db db' : Db}, insertEntries db es = .ok db' →
    (∀ e ∈ es, EntryAccepted db e) ∧
    ∃ entries, entries.rows = db.entries.rows ++ es ∧ db' = { db with entries }
  | [], db, db', h => by
    cases h
    exact ⟨by simp, db.entries, by simp, rfl⟩
  | e :: es, db, db', h => by
    rw [insertEntries, List.foldlM_cons, except_bind_ok] at h
    obtain ⟨db₁, h₁, h₂⟩ := h
    obtain ⟨hopen, hpos, hbase, hiso, hrate, hacc, entries₁, hins, rfl⟩ := insertEntry_ok h₁
    obtain ⟨hrest, entries, hrows, rfl⟩ := insertEntries_ok h₂
    refine ⟨?_, entries, ?_, rfl⟩
    · intro f hf
      rcases List.mem_cons.mp hf with rfl | hf
      · exact ⟨hopen, hpos, hbase, hiso, hrate, hacc⟩
      · exact { hrest f hf with }
    · rw [hrows, (Table.insert_eq_some.mp hins).2, List.append_assoc, List.singleton_append]

/-! ## The posting -/

/-- What a posting that ended normally did: `es` are the entries of the new
transfer. -/
structure Posted (env : Env) (a : Posting) (db db' : Db) (es : List Entry) : Prop where
  prepared : ∃ legs accounts priced, validateLegs a.legs = .ok legs ∧
    Prepared env db a legs accounts priced ∧
    List.Forall₂ (RowOf env (transferFor env a).id) priced es
  key_present : a.idempotencyKey ≠ ""
  key_fresh : ∀ u ∈ db.transfers, u.idempotencyKey ≠ a.idempotencyKey
  id_fresh : ∀ u ∈ db.transfers, u.id ≠ (transferFor env a).id
  reverses_type : a.reverses = none ∨ a.transferType = .REVERSAL
  reversal_target : a.transferType = .REVERSAL → a.reverses ≠ none
  reverses_fresh : ∀ u ∈ db.transfers, ¬(a.reverses.isSome ∧ u.reverses = a.reverses)
  reverses_exists : ∀ o ∈ a.reverses, ∃ u ∈ db.transfers, u.id = o
  period_open : ∃ p ∈ db.periods, p.id = a.period.id ∧ p.status = .OPEN
  accepted : ∀ e ∈ es, 0 < e.amount ∧ 0 < e.baseAmount ∧ isIso4217 e.currency ∧
    (∀ r ∈ e.fxRate, 0 < r) ∧ ∃ c ∈ db.accounts, c.id = e.account ∧ c.currency = e.currency
  appended : ∃ transfers entries, transfers.rows = db.transfers.rows ++ [transferFor env a] ∧
    entries.rows = db.entries.rows ++ es ∧ db' = { db with transfers, entries }
  balanced : sumBy Entry.signedBaseAmount (entriesOf db' (transferFor env a).id) = 0

private theorem posted_of_steps {env : Env} {a : Posting} {db db₁ db' : Db}
    {legs : List ValidLeg} {priced : List PricedLeg} {es : List Entry} {u : Unit}
    (hvalid : validateLegs a.legs = .ok legs)
    (hprep : preparePosting env db a legs = .ok priced)
    (hins : insertTransfer db (transferFor env a) = .ok db₁)
    (hes : entriesFor env (transferFor env a).id priced = .ok es)
    (hentries : insertEntries db₁ es = .ok db')
    (hbal : assertTransferBalances db' (transferFor env a).id = .ok u) :
    Posted env a db db' es := by
  obtain ⟨hkey, hrev, hrevt, hkeys, hrevs, -, hrefs, transfers, htins, hdb₁⟩ :=
    insertTransfer_ok hins
  obtain ⟨hfresh, htrows⟩ := Table.insert_eq_some.mp htins
  obtain ⟨hacc, entries, herows, hdb'⟩ := insertEntries_ok hentries
  obtain ⟨accounts, hprepared⟩ := preparePosting_ok hprep
  have hrowsOf := entriesFor_ok hes
  have hget : db₁.transfers.get? (transferFor env a).id = some (transferFor env a) := by
    rw [hdb₁, Table.get?_insert htins, if_pos rfl]
  have hperiods : db₁.periods = db.periods := by rw [hdb₁]
  have haccounts : db₁.accounts = db.accounts := by rw [hdb₁]
  refine ⟨⟨legs, accounts, priced, hvalid, hprepared, hrowsOf⟩, hkey, hkeys,
    hfresh, hrev, hrevt, hrevs, hrefs, ?_, ?_, ⟨transfers, entries, htrows, ?_, ?_⟩, ?_⟩
  · -- the period trigger ran for each entry, and there is one
    have hlen : 2 ≤ es.length := by
      rw [← hrowsOf.length_eq, ← hprepared.pricedAs.length_eq]
      exact (validateLegs_spec hvalid).1
    obtain ⟨e, he⟩ : ∃ e, e ∈ es := List.exists_mem_of_length_pos (by omega)
    obtain ⟨p, -, hrow⟩ := forall₂_exists_left hrowsOf he
    have hopen := (hacc e he).period_open
    simp only [periodStatusOf, hrow.transfer_eq, hget, hperiods, Option.pure_def,
      Option.bind_eq_bind, Option.bind_some, Option.bind_eq_some_iff, Option.some.injEq] at hopen
    obtain ⟨q, hq, hstatus⟩ := hopen
    exact ⟨q, Table.mem_of_get? hq, Table.key_of_get? hq, hstatus⟩
  · intro e he
    have h := hacc e he
    exact ⟨h.amount_pos, h.baseAmount_pos, h.iso4217, h.fxRate_pos, haccounts ▸ h.account⟩
  · rw [herows, hdb₁]
  · rw [hdb', hdb₁]
  · exact require_eq_ok.mp hbal

/-- **The specification of `postTransfer`**, when it ends normally. -/
theorem postTransfer_ok {env : Env} {a : Posting} {db db' : Db} {t : Transfer}
    (h : postTransfer env a db = (.ok t, db')) :
    t = transferFor env a ∧ ∃ es, Posted env a db db' es := by
  obtain ⟨legs, db₀, hlegs, hatomic⟩ := Tx.bind_ok.mp h
  obtain ⟨hvalid, hdb₀⟩ := Tx.lift_eq.mp hlegs
  subst hdb₀
  rw [Tx.atomic_ok, Tx.read_bind] at hatomic
  obtain ⟨priced, db₀, hlift, h₁⟩ := Tx.bind_ok.mp hatomic
  obtain ⟨hprep, hdb₀⟩ := Tx.lift_eq.mp hlift
  subst hdb₀
  obtain ⟨_, db₁, hins, h₂⟩ := Tx.bind_ok.mp h₁
  obtain ⟨es, db₁', hlift, h₃⟩ := Tx.bind_ok.mp h₂
  obtain ⟨hes, hdb₁⟩ := Tx.lift_eq.mp hlift
  subst hdb₁
  obtain ⟨_, db₂, hentries, h₄⟩ := Tx.bind_ok.mp h₃
  rw [Tx.read_bind] at h₄
  obtain ⟨_, db₂', hlift, hret⟩ := Tx.bind_ok.mp h₄
  obtain ⟨hbal, hdb₂⟩ := Tx.lift_eq.mp hlift
  subst hdb₂
  obtain ⟨hret, hdb'⟩ := Tx.pure_eq.mp hret
  subst hdb'
  cases hret
  refine ⟨rfl, es, ?_⟩
  exact posted_of_steps hvalid.symm hprep.symm (Tx.statement_ok.mp hins) hes.symm
    (Tx.statement_ok.mp hentries) hbal.symm

/-- A posting that raised changed nothing. -/
theorem postTransfer_failSafe (env : Env) (a : Posting) : Tx.FailSafe (postTransfer env a) :=
  .bind (Tx.readOnly_lift _) fun _ => Tx.failSafe_atomic _

namespace Posted

variable {env : Env} {a : Posting} {db db' : Db} {es : List Entry}

theorem transfers_eq (h : Posted env a db db' es) :
    db'.transfers.rows = db.transfers.rows ++ [transferFor env a] := by
  obtain ⟨transfers, entries, ht, -, rfl⟩ := h.appended
  exact ht

theorem entries_eq (h : Posted env a db db' es) :
    db'.entries.rows = db.entries.rows ++ es := by
  obtain ⟨transfers, entries, -, he, rfl⟩ := h.appended
  exact he

theorem entry_transfer (h : Posted env a db db' es) {e : Entry} (he : e ∈ es) :
    e.transfer = env.uuid4 .transfer := by
  obtain ⟨legs, accounts, priced, -, -, hrows⟩ := h.prepared
  obtain ⟨p, -, hrow⟩ := forall₂_exists_left hrows he
  exact hrow.transfer_eq

/-- There are at least two entries. -/
theorem two_le_length (h : Posted env a db db' es) : 2 ≤ es.length := by
  obtain ⟨legs, accounts, priced, hvalid, hprep, hrows⟩ := h.prepared
  rw [← hrows.length_eq, ← hprep.pricedAs.length_eq]
  exact (validateLegs_spec hvalid).1

/-- There is an entry on each side. -/
theorem exists_direction (h : Posted env a db db' es) (d : Direction) :
    ∃ e ∈ es, e.direction = d := by
  obtain ⟨legs, accounts, priced, hvalid, hprep, hrows⟩ := h.prepared
  obtain ⟨-, hdebit, hcredit⟩ := validateLegs_spec hvalid
  have hleg : ∃ v ∈ legs, v.direction = d := by
    cases d with
    | DEBIT => exact hdebit
    | CREDIT => exact hcredit
  obtain ⟨v, hv, hvd⟩ := hleg
  obtain ⟨p, hp, hpv⟩ := forall₂_exists_right hprep.pricedAs hv
  obtain ⟨e, he, hrow⟩ := forall₂_exists_right hrows hp
  exact ⟨e, he, hrow.direction_eq.trans (hpv.2.2.1.trans hvd)⟩

/-- Each entry is on an account of the posting's fund. -/
theorem exists_account (h : Posted env a db db' es) {e : Entry} (he : e ∈ es) :
    ∃ c ∈ db.accounts, c.id = e.account ∧ c.fund = a.period.fund := by
  obtain ⟨legs, accounts, priced, -, hprep, hrows⟩ := h.prepared
  obtain ⟨p, hp, hrow⟩ := forall₂_exists_left hrows he
  obtain ⟨v, -, hpv⟩ := forall₂_exists_left hprep.pricedAs hp
  exact ⟨p.account, (lockAccounts_ok hprep.locked).2 _ hpv.1, hrow.account_eq.symm,
    hprep.same_fund _ hpv.1⟩

/-- Each entry is on the account of one of the legs. -/
theorem exists_leg (h : Posted env a db db' es) {e : Entry} (he : e ∈ es) :
    ∃ leg ∈ a.legs, leg.accountId = e.account := by
  obtain ⟨legs, accounts, priced, hvalid, hprep, hrows⟩ := h.prepared
  obtain ⟨p, hp, hrow⟩ := forall₂_exists_left hrows he
  obtain ⟨v, hv, hpv⟩ := forall₂_exists_left hprep.pricedAs hp
  obtain ⟨leg, hleg, hok⟩ := forall₂_exists_left (mapM_except_ok.mp (validateLegs_ok hvalid).2.2.2) hv
  exact ⟨leg, hleg, (validateLeg_ok hok).1.symm.trans (hpv.2.1.symm.trans hrow.account_eq.symm)⟩

end Posted

end FundLedger
