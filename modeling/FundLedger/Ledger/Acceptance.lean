import FundLedger.Ledger.Posting

/-!
# When a posting is accepted

`Ledger.Posting` says what an accepted posting did.  This module goes the
other way: when the checks that read the database pass, the writes go through
as well.  What the columns must be able to hold is `Storable`, and what the
server must not refuse about the new rows themselves is `FreshRows`.
-/

namespace FundLedger

open Lib

/-- The values of a priced leg fit their columns, and the base amount is a
whole number of ten-thousandths. -/
def Storable (p : PricedLeg) : Prop :=
  ∃ (amount base : Money) (rate : Option Rate), Money.ofDec? p.amount = some amount ∧
    Money.ofDec? p.baseAmount = some base ∧ p.baseAmount.val = base / (10 : ℚ) ^ 4 ∧
    storedRate p.fxRate = .ok rate ∧ 0 < amount ∧ 0 < base ∧ (∀ r ∈ rate, 0 < r) ∧
    isIso4217 p.currency

/-- The random ids of a call have not been drawn before. -/
structure FreshIds (env : Env) (db : Db) : Prop where
  transfer : ∀ t ∈ db.transfers, t.id ≠ env.uuid4 .transfer
  entry : ∀ e ∈ db.entries, ∀ i, e.id ≠ env.uuid4 (.entry i)
  entry_injective : ∀ i j, env.uuid4 (.entry i) = env.uuid4 (.entry j) → i = j
  no_entries : ∀ e ∈ db.entries, e.transfer ≠ env.uuid4 .transfer

/-- The row of the transfer is one that the server accepts. -/
structure TransferAccepted (db : Db) (a : Posting) : Prop where
  key_length : a.idempotencyKey.length ≤ 255
  createdBy_length : a.createdBy.length ≤ 255
  key_present : a.idempotencyKey ≠ ""
  key_fresh : ∀ u ∈ db.transfers, u.idempotencyKey ≠ a.idempotencyKey
  reverses_type : a.reverses = none ∨ a.transferType = .REVERSAL
  reversal_target : a.transferType = .REVERSAL → a.reverses ≠ none
  reverses_fresh : ∀ u ∈ db.transfers, ¬(a.reverses.isSome ∧ u.reverses = a.reverses)
  reverses_exists : ∀ o ∈ a.reverses, ∃ u ∈ db.transfers, u.id = o
  period_open : ∃ p ∈ db.periods, p.id = a.period.id ∧ p.status = .OPEN

/-! ## The accounts -/

theorem mem_lockOrder {legs : List ValidLeg} {i : Uuid} :
    i ∈ lockOrder legs ↔ ∃ v ∈ legs, v.accountId = i := by
  rw [lockOrder, List.mem_insertionSort, List.mem_dedup, List.mem_map]

/-- The accounts of the legs are locked when they all exist. -/
theorem lockAccounts_isOk {db : Db} {legs : List ValidLeg}
    (h : ∀ v ∈ legs, ∃ a ∈ db.accounts, a.id = v.accountId) :
    ∃ accounts, lockAccounts db legs = .ok accounts ∧
      ∀ a, a ∈ accounts ↔ a ∈ db.accounts ∧ ∃ v ∈ legs, v.accountId = a.id := by
  have hlen : ((lockOrder legs).filterMap db.accounts.get?).length = (lockOrder legs).length := by
    refine List.filterMap_length_eq_length.mpr fun i hi => ?_
    obtain ⟨v, hv, rfl⟩ := mem_lockOrder.mp hi
    obtain ⟨a, ha, hid⟩ := h v hv
    rw [Table.get?_eq_some.mpr ⟨ha, hid⟩]
    rfl
  refine ⟨(lockOrder legs).filterMap db.accounts.get?, ?_, fun a => ?_⟩
  · unfold lockAccounts
    dsimp only
    rw [if_neg (not_not.mpr hlen)]
  · rw [List.mem_filterMap]
    constructor
    · rintro ⟨i, hi, hget⟩
      obtain ⟨hmem, rfl⟩ := Table.get?_eq_some.mp hget
      exact ⟨hmem, mem_lockOrder.mp hi⟩
    · rintro ⟨hmem, hleg⟩
      exact ⟨a.id, mem_lockOrder.mpr hleg, Table.get?_of_mem hmem⟩

/-! ## The rows -/

theorem insertTransfer_isOk {env : Env} {db : Db} {a : Posting} (h : TransferAccepted db a)
    (fresh : FreshIds env db) : ∃ db₁, insertTransfer db (transferFor env a) = .ok db₁ := by
  obtain ⟨transfers, hins⟩ : ∃ transfers, db.transfers.insert (transferFor env a) =
      some transfers := by
    cases hins : db.transfers.insert (transferFor env a) with
    | some transfers => exact ⟨transfers, rfl⟩
    | none =>
      obtain ⟨t, ht, hid⟩ := Table.insert_eq_none.mp hins
      exact absurd hid (fresh.transfer t ht)
  obtain ⟨p, hp, hpa, -⟩ := h.period_open
  refine ⟨{ db with transfers }, ?_⟩
  simp only [insertTransfer, except_bind_ok, require_eq_ok, orRaise_eq_ok, except_pure]
  exact ⟨(), ⟨h.key_length, h.createdBy_length⟩, (), h.key_present, (), h.reverses_type, (),
    h.reversal_target, transfers, hins, (), h.key_fresh, (), h.reverses_fresh, (), ⟨p, hp, hpa⟩,
    (), h.reverses_exists, rfl⟩

/-- Entries that are each accepted can be inserted together when their ids are
new and distinct. -/
theorem insertEntries_isOk : ∀ {es : List Entry} {db : Db}, (∀ e ∈ es, EntryAccepted db e) →
    (es.map Entry.id).Nodup → (∀ e ∈ es, ∀ f ∈ db.entries, f.id ≠ e.id) →
    ∃ db', insertEntries db es = .ok db'
  | [], db, _, _, _ => ⟨db, rfl⟩
  | e :: es, db, hacc, hnodup, hfresh => by
    obtain ⟨he, hes⟩ := List.forall_mem_cons.mp hacc
    obtain ⟨hnew, hnodup⟩ := List.nodup_cons.mp hnodup
    obtain ⟨hefresh, hesfresh⟩ := List.forall_mem_cons.mp hfresh
    obtain ⟨entries, hins⟩ : ∃ entries, db.entries.insert e = some entries := by
      cases hins : db.entries.insert e with
      | some entries => exact ⟨entries, rfl⟩
      | none =>
        obtain ⟨f, hf, hid⟩ := Table.insert_eq_none.mp hins
        exact absurd hid (hefresh f hf)
    have hone : insertEntry db e = .ok { db with entries } := by
      simp only [insertEntry, except_bind_ok, require_eq_ok, orRaise_eq_ok, except_pure]
      exact ⟨(), he.period_open, (), he.amount_pos, (), he.baseAmount_pos, (), he.iso4217, (),
        he.fxRate_pos, entries, hins, (), he.account, rfl⟩
    -- the rest is accepted next to the new row
    have hrest : ∀ f ∈ es, EntryAccepted { db with entries } f := fun f hf =>
      { hes f hf with }
    have hrestfresh : ∀ f ∈ es, ∀ g ∈ entries, g.id ≠ f.id := by
      intro f hf g hg
      rw [← Table.mem_rows, (Table.insert_eq_some.mp hins).2, List.mem_append,
        List.mem_singleton] at hg
      rcases hg with hg | rfl
      · exact hesfresh f hf g hg
      · exact fun hid => hnew (hid ▸ List.mem_map_of_mem hf)
    obtain ⟨db', hdb'⟩ := insertEntries_isOk hrest hnodup hrestfresh
    refine ⟨db', ?_⟩
    rw [insertEntries, List.foldlM_cons, hone]
    exact hdb'

theorem entriesFor_isOk {env : Env} {transfer : Uuid} {priced : List PricedLeg}
    (h : ∀ p ∈ priced, Storable p) : ∃ es, entriesFor env transfer priced = .ok es := by
  refine mapM_isOk fun c hc => ?_
  obtain ⟨amount, base, rate, hamount, hbase, -, hrate, -⟩ := h c.1 (List.fst_mem_of_mem_zipIdx hc)
  exact ⟨_, except_bind_ok.mpr ⟨amount, orRaise_eq_ok.mpr hamount, except_bind_ok.mpr ⟨rate, hrate,
    except_bind_ok.mpr ⟨base, orRaise_eq_ok.mpr hbase, rfl⟩⟩⟩⟩

/-- The ids of the entries, in order. -/
theorem entriesFor_ids {env : Env} {transfer : Uuid} {priced : List PricedLeg} {es : List Entry}
    (h : entriesFor env transfer priced = .ok es) :
    es.map Entry.id = (List.range priced.length).map fun i => env.uuid4 (.entry i) := by
  have hids : ∀ c ∈ priced.zipIdx, ∀ e, entryOf env transfer c.1 c.2 = .ok e →
      e.id = env.uuid4 (.entry c.2) := by
    intro c _ e he
    simp only [entryOf, except_bind_ok, except_pure] at he
    obtain ⟨amount, -, rate, -, base, -, rfl⟩ := he
    rfl
  have hall := mapM_except_ok.mp h
  have hmap : es.map Entry.id = priced.zipIdx.map fun c => env.uuid4 (.entry c.2) := by
    clear h
    generalize priced.zipIdx = cs at hall hids
    induction hall with
    | nil => rfl
    | cons he _ ih =>
      obtain ⟨hc, hcs⟩ := List.forall_mem_cons.mp hids
      rw [List.map_cons, List.map_cons, hc _ he, ih hcs]
  have hindex : priced.zipIdx.map Prod.snd = List.range priced.length := by
    rw [List.zipIdx_map_snd, List.range_eq_range']
  rw [hmap, ← hindex, List.map_map]
  rfl

/-- **The stored base amounts balance** when the priced ones do and none of
them is rounded by its column. -/
theorem sum_signedBaseAmount_of_balanced {env : Env} {transfer : Uuid} {priced : List PricedLeg}
    {es : List Entry} (hrows : List.Forall₂ (RowOf env transfer) priced es)
    (hstorable : ∀ p ∈ priced, Storable p)
    (hbalanced : (sideTotal .DEBIT priced).val = (sideTotal .CREDIT priced).val) :
    sumBy Entry.signedBaseAmount es = 0 := by
  have hsides : ((sumBy Entry.signedBaseAmount es : ℤ) : ℚ) / 10 ^ 4 =
      (sideTotal .DEBIT priced).val - (sideTotal .CREDIT priced).val := by
    clear hbalanced
    induction hrows with
    | nil => simp [sideTotal, Dec.sum]
    | @cons p e ps es hrow _ ih =>
      obtain ⟨hp, hps⟩ := List.forall_mem_cons.mp hstorable
      obtain ⟨amount, base, rate, -, hbase, hval, -⟩ := hp
      obtain rfl : base = e.baseAmount := Option.some.inj (hbase.symm.trans hrow.baseAmount_eq)
      have ih := ih hps
      rw [val_sideTotal_cons, val_sideTotal_cons, sumBy_cons, Entry.signedBaseAmount,
        hrow.direction_eq, hval]
      push_cast
      rw [add_div, ih]
      cases p.direction <;> simp [signed] <;> ring
  rw [hbalanced, sub_self, div_eq_zero_iff] at hsides
  have hzero := hsides.resolve_right (by norm_num)
  exact_mod_cast hzero

/-! ## The posting -/

/-- A posting whose checks raise raises the same. -/
theorem postTransfer_error {env : Env} {db : Db} {a : Posting} {legs : List ValidLeg} {e : Exc}
    (hvalid : validateLegs a.legs = .ok legs) (hprep : preparePosting env db a legs = .error e) :
    postTransfer env a db = (.error e, db) := by
  rw [postTransfer, Tx.bind_apply, Tx.lift, hvalid]
  dsimp only
  rw [Tx.atomic, Tx.read_bind, Tx.bind_apply, Tx.lift, hprep]

/-- The part of `post_transfer` that writes. -/
def writePosting (env : Env) (a : Posting) (priced : List PricedLeg) : M Transfer := do
  let transfer := transferFor env a
  Tx.statement fun db => insertTransfer db transfer
  let entries ← Tx.lift (entriesFor env transfer.id priced)
  Tx.statement fun db => insertEntries db entries
  let db ← Tx.read
  Tx.lift (assertTransferBalances db transfer.id)
  return transfer

theorem postTransfer_eq (env : Env) (a : Posting) : postTransfer env a = (do
    let legs ← Tx.lift (validateLegs a.legs)
    Tx.atomic do
      let db ← Tx.read
      let priced ← Tx.lift (preparePosting env db a legs)
      writePosting env a priced) := rfl

/-- What writing that ended normally did. -/
theorem writePosting_ok {env : Env} {a : Posting} {priced : List PricedLeg} {db db' : Db}
    {t : Transfer} : writePosting env a priced db = (.ok t, db') ↔
      t = transferFor env a ∧ ∃ db₁ es, insertTransfer db (transferFor env a) = .ok db₁ ∧
        entriesFor env (transferFor env a).id priced = .ok es ∧ insertEntries db₁ es = .ok db' ∧
        assertTransferBalances db' (transferFor env a).id = .ok () := by
  simp only [writePosting, Tx.read_bind, Tx.bind_ok, Tx.lift_eq, Tx.statement_ok, Tx.pure_eq]
  constructor
  · rintro ⟨_, db₁, hins, es, _, ⟨hes, rfl⟩, _, db₂, hentries, _, _, ⟨hbalance, rfl⟩, ht, rfl⟩
    exact ⟨Except.ok.inj ht, _, es, hins, hes.symm, hentries, hbalance.symm⟩
  · rintro ⟨rfl, db₁, es, hins, hes, hentries, hbalance⟩
    exact ⟨(), db₁, hins, es, db₁, ⟨hes.symm, rfl⟩, (), db', hentries, (), db',
      ⟨hbalance.symm, rfl⟩, rfl, rfl⟩

/-- **Legs that can be stored are written**, when they balance. -/
theorem writePosting_isOk {env : Env} {db : Db} {a : Posting} {priced : List PricedLeg}
    (haccounts : ∀ p ∈ priced, p.account ∈ db.accounts ∧ p.currency = p.account.currency)
    (hstorable : ∀ p ∈ priced, Storable p)
    (hbalanced : (sideTotal .DEBIT priced).val = (sideTotal .CREDIT priced).val)
    (haccepted : TransferAccepted db a) (fresh : FreshIds env db) :
    ∃ db', writePosting env a priced db = (.ok (transferFor env a), db') := by
  obtain ⟨db₁, hins⟩ := insertTransfer_isOk haccepted fresh
  obtain ⟨-, -, -, -, -, -, -, transfers, htins, hdb₁⟩ := insertTransfer_ok hins
  obtain ⟨es, hes⟩ : ∃ es, entriesFor env (transferFor env a).id priced = .ok es :=
    entriesFor_isOk hstorable
  have hrows := entriesFor_ok hes
  have hentries₁ : db₁.entries = db.entries := by rw [hdb₁]
  -- the trigger reads the period of the new transfer
  have hstatus : periodStatusOf db₁ (transferFor env a).id = some .OPEN := by
    obtain ⟨p, hp, hpa, hopen⟩ := haccepted.period_open
    have ht : db₁.transfers.get? (transferFor env a).id = some (transferFor env a) := by
      rw [hdb₁, Table.get?_insert htins, if_pos rfl]
    have hget : db₁.periods.get? (transferFor env a).period = some p := by
      rw [hdb₁]
      exact Table.get?_eq_some.mpr ⟨hp, hpa⟩
    simp only [periodStatusOf, ht, hget, Option.pure_def, Option.bind_eq_bind, Option.bind_some,
      hopen]
  have haccept : ∀ e ∈ es, EntryAccepted db₁ e := by
    intro e he
    obtain ⟨p, hp, hrow⟩ := forall₂_exists_left hrows he
    obtain ⟨amount, base, rate, hamount, hbase, -, hrate, hpos, hbpos, hrpos, hiso⟩ :=
      hstorable p hp
    obtain rfl : amount = e.amount := Option.some.inj (hamount.symm.trans hrow.amount_eq)
    obtain rfl : base = e.baseAmount := Option.some.inj (hbase.symm.trans hrow.baseAmount_eq)
    obtain rfl : rate = e.fxRate := Except.ok.inj (hrate.symm.trans hrow.fxRate_eq)
    obtain ⟨haccount, hcurrency⟩ := haccounts p hp
    refine ⟨hrow.transfer_eq ▸ hstatus, hpos, hbpos, hrow.currency_eq ▸ hiso, hrpos, p.account, ?_,
      hrow.account_eq.symm, hrow.currency_eq ▸ hcurrency.symm⟩
    rw [hdb₁]
    exact haccount
  have hids := entriesFor_ids hes
  have hnodup : (es.map Entry.id).Nodup := by
    rw [hids]
    exact List.nodup_range.map fun i j hij => fresh.entry_injective i j hij
  have hnew : ∀ e ∈ es, ∀ f ∈ db₁.entries, f.id ≠ e.id := by
    intro e he f hf
    obtain ⟨i, -, hi⟩ := List.mem_map.mp (hids ▸ List.mem_map_of_mem (f := Entry.id) he)
    rw [← hi]
    exact fresh.entry f (hentries₁ ▸ hf) i
  obtain ⟨db₂, hdb₂⟩ := insertEntries_isOk haccept hnodup hnew
  refine ⟨db₂, writePosting_ok.mpr ⟨rfl, db₁, es, hins, hes, hdb₂, ?_⟩⟩
  obtain ⟨-, entries, herows, hdb₂eq⟩ := insertEntries_ok hdb₂
  have hgroup : entriesOf db₂ (transferFor env a).id = es := by
    have hold : group Entry.transfer (transferFor env a).id db.entries.rows = [] :=
      group_eq_nil fun f hf => fresh.no_entries f hf
    rw [entriesOf, hdb₂eq]
    show group _ _ entries.rows = _
    rw [herows, hentries₁, group_append, hold, List.nil_append]
    refine group_eq_self fun e he => ?_
    obtain ⟨p, -, hrow⟩ := forall₂_exists_left hrows he
    exact hrow.transfer_eq
  rw [assertTransferBalances, hgroup]
  exact require_eq_ok.mpr (sum_signedBaseAmount_of_balanced hrows hstorable hbalanced)

/-- **A posting whose checks pass is accepted**, when its rows can be stored. -/
theorem postTransfer_isOk_of_prepared {env : Env} {db : Db} {a : Posting} {legs : List ValidLeg}
    {priced : List PricedLeg} (hvalid : validateLegs a.legs = .ok legs)
    (hprep : preparePosting env db a legs = .ok priced) (hstorable : ∀ p ∈ priced, Storable p)
    (haccepted : TransferAccepted db a) (fresh : FreshIds env db) :
    ∃ db', postTransfer env a db = (.ok (transferFor env a), db') := by
  obtain ⟨accounts, hprepared⟩ := preparePosting_ok hprep
  have haccounts : ∀ p ∈ priced, p.account ∈ db.accounts ∧ p.currency = p.account.currency := by
    intro p hp
    obtain ⟨v, -, hpv⟩ := forall₂_exists_left hprepared.pricedAs hp
    exact ⟨(lockAccounts_ok hprepared.locked).2 _ hpv.1, hpv.2.2.2.2⟩
  obtain ⟨db', hwrite⟩ := writePosting_isOk haccounts hstorable hprepared.balanced haccepted fresh
  refine ⟨db', ?_⟩
  rw [postTransfer_eq, Tx.bind_apply, Tx.lift, hvalid]
  dsimp only
  rw [Tx.atomic_ok, Tx.read_bind, Tx.bind_apply, Tx.lift, hprep]
  exact hwrite

end FundLedger
