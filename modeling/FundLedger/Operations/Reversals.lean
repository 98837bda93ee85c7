import FundLedger.Ledger.Acceptance
import FundLedger.Ledger.Funds
import FundLedger.Operations.FailSafe
import FundLedger.Operations.Later

/-!
# Reversals

A reversal goes through the whole posting pipeline once more, with the legs of
the original flipped and with its stored rates and base amounts as overrides.
`SoundEntry` is what the pipeline needs to know about the stored entries: each
value fits its column, and an entry has a rate exactly when its account is in
a foreign currency.  It is an invariant of every state that the system can
reach, whatever is posted and whichever rates are published.

* `Posted.flipped`: the entries of a reversal are those of the original with
  the directions flipped, so the two cancel on every account.
* `prepareReversal`: of all the checks, only the one for sufficient funds can
  refuse the flipped legs.
* `reversal_cancels` puts both together.
-/

namespace FundLedger

open Lib Relation

/-! ## Stored entries -/

/-- What is known about a stored entry. -/
structure SoundEntry (db : Db) (e : Entry) : Prop where
  account : ∃ a ∈ db.accounts, a.id = e.account ∧ a.currency = e.currency ∧
    ∃ f ∈ db.funds, f.id = a.fund ∧ (e.fxRate = none ↔ e.currency = f.baseCurrency)
  amount_pos : 0 < e.amount
  amount_lt : e.amount.natAbs < 10 ^ 20
  baseAmount_pos : 0 < e.baseAmount
  baseAmount_lt : e.baseAmount.natAbs < 10 ^ 20
  fxRate_pos : ∀ r ∈ e.fxRate, 0 < r
  fxRate_lt : ∀ r ∈ e.fxRate, r.natAbs < 10 ^ 20
  iso4217 : isIso4217 e.currency

def SoundEntries (db : Db) : Prop := ∀ e ∈ db.entries, SoundEntry db e

theorem SoundEntry.extends {db db' : Db} {e : Entry} (h : SoundEntry db e) (hx : Extends db db') :
    SoundEntry db' e := by
  obtain ⟨a, ha, hae, hcur, f, hf, hfa, hrate⟩ := h.account
  refine { h with account := ⟨a, hx.accounts.subset ha, hae, hcur, f, ?_, hfa, hrate⟩ }
  rwa [hx.funds]

theorem storedRate_eq_none {rate : Option Dec} {stored : Option Rate}
    (h : storedRate rate = .ok stored) : stored = none ↔ rate = none := by
  cases rate with
  | none =>
    cases h
    exact iff_of_true rfl rfl
  | some r =>
    rw [storedRate] at h
    cases hr : Rate.ofDec? r with
    | none => rw [hr] at h; cases h
    | some n =>
      rw [hr] at h
      cases h
      exact iff_of_false (Option.some_ne_none n) (Option.some_ne_none r)

theorem storedRate_lt {rate : Option Dec} {stored : Option Rate}
    (h : storedRate rate = .ok stored) : ∀ r ∈ stored, r.natAbs < 10 ^ 20 := by
  cases rate with
  | none =>
    cases h
    simp
  | some x =>
    rw [storedRate] at h
    cases hx : Rate.ofDec? x with
    | none => rw [hx] at h; cases h
    | some n =>
      rw [hx] at h
      cases h
      rintro r ⟨⟩
      exact (Dec.toNumeric_eq_some.mp hx).2

/-- The fund whose base currency prices the legs. -/
theorem baseCurrencyOf_ok {db : Db} {period : Period} {base : String}
    (h : baseCurrencyOf db period = .ok base) :
    ∃ f ∈ db.funds, f.id = period.fund ∧ f.baseCurrency = base := by
  unfold baseCurrencyOf at h
  cases hget : db.funds.get? period.fund with
  | none => rw [hget] at h; cases h
  | some f =>
    rw [hget] at h
    cases h
    obtain ⟨hmem, hid⟩ := Table.get?_eq_some.mp hget
    exact ⟨f, hmem, hid, rfl⟩

/-- The entries of a posting are sound. -/
theorem Posted.soundEntry {env : Env} {a : Posting} {db db' : Db} {es : List Entry}
    (h : Posted env a db db' es) {e : Entry} (he : e ∈ es) : SoundEntry db e := by
  obtain ⟨legs, accounts, priced, -, hprep, hrows⟩ := h.prepared
  obtain ⟨p, hp, hrow⟩ := forall₂_exists_left hrows he
  obtain ⟨v, -, hpa, -, -, -, hcur⟩ := forall₂_exists_left hprep.pricedAs hp
  obtain ⟨base, hbase, hprice⟩ := hprep.pricedBy
  obtain ⟨f, hf, hfid, rfl⟩ := baseCurrencyOf_ok hbase
  obtain ⟨hpos, hbpos, hiso, hrate, -⟩ := h.accepted e he
  refine ⟨⟨p.account, (lockAccounts_ok hprep.locked).2 _ hpa, hrow.account_eq.symm, ?_, f, hf, ?_,
    ?_⟩, hpos, ?_, hbpos, ?_, hrate, storedRate_lt hrow.fxRate_eq, hiso⟩
  · rw [hrow.currency_eq, hcur]
  · rw [hfid, hprep.same_fund _ hpa]
  · rw [storedRate_eq_none hrow.fxRate_eq, priceLegs_rates hprice p hp, hrow.currency_eq]
  · exact (Dec.toNumeric_eq_some.mp hrow.amount_eq).2
  · exact (Dec.toNumeric_eq_some.mp hrow.baseAmount_eq).2

/-- **The stored entries stay sound**, whatever is posted. -/
theorem SoundEntries.later {db db' : Db} (hs : SoundEntries db) (h : Later db db') :
    SoundEntries db' := by
  refine h.invariant (fun d d' hd hstep => ?_) hs
  have hx := hstep.extends
  obtain ⟨env, a, es, -, posted⟩ | keeps := hstep.posted_or_keeps
  · intro e he
    rw [← Table.mem_rows, posted.entries_eq, List.mem_append] at he
    rcases he with he | he
    · exact (hd e he).extends hx
    · exact (posted.soundEntry he).extends hx
  · intro e he
    exact (hd e (keeps.entries ▸ he)).extends hx

theorem Genesis.soundEntries {db : Db} (h : Genesis db) : SoundEntries db := by
  intro e he
  rw [← Table.mem_rows, h.entries] at he
  cases he

/-! ## Flipped entries -/

/-- `f` is `e` with the direction flipped. -/
structure Flipped (e f : Entry) : Prop where
  account_eq : f.account = e.account
  direction_eq : f.direction = e.direction.flip
  amount_eq : f.amount = e.amount
  currency_eq : f.currency = e.currency
  fxRate_eq : f.fxRate = e.fxRate
  baseAmount_eq : f.baseAmount = e.baseAmount

theorem signed_flip (d : Direction) (x : ℤ) : signed d.flip x = -signed d x := by
  cases d
  · rfl
  · exact (neg_neg x).symm

theorem Flipped.signedAmount {e f : Entry} (h : Flipped e f) :
    f.signedAmount = -e.signedAmount := by
  rw [Entry.signedAmount, Entry.signedAmount, h.direction_eq, h.amount_eq, signed_flip]

theorem Flipped.signedBaseAmount {e f : Entry} (h : Flipped e f) :
    f.signedBaseAmount = -e.signedBaseAmount := by
  rw [Entry.signedBaseAmount, Entry.signedBaseAmount, h.direction_eq, h.baseAmount_eq, signed_flip]

/-- Flipped entries sum to the opposite, on every account. -/
theorem sumBy_flipped {g : Entry → Money} (hg : ∀ e f, Flipped e f → g f = -g e) {es fs : List Entry}
    (h : List.Forall₂ Flipped es fs) (account : Uuid) :
    sumBy g (group Entry.account account fs) = -sumBy g (group Entry.account account es) := by
  induction h with
  | nil => rfl
  | @cons e f es fs hef _ ih =>
    rw [group, group, List.filter_cons, List.filter_cons, hef.account_eq]
    by_cases hacc : e.account = account
    · simp only [hacc, decide_true, if_true, sumBy_cons, neg_add, hg e f hef]
      exact congrArg _ ih
    · simp only [hacc, decide_false]
      exact ih

/-! ## The pipeline on flipped legs -/

/-- `p` is how the pipeline prices the flipped leg of `e`. -/
structure PricedFlip (e : Entry) (p : PricedLeg) : Prop where
  account_eq : p.account.id = e.account
  direction_eq : p.direction = e.direction.flip
  amount_eq : p.amount = e.amount.toDec
  currency_eq : p.currency = e.currency
  fxRate_eq : p.fxRate = e.fxRate.map Rate.toDec
  baseAmount_eq : p.baseAmount = e.baseAmount.toDec

theorem validateLeg_flippedLeg {db : Db} {e : Entry} (h : SoundEntry db e) :
    ∃ v, validateLeg (flippedLeg e) = .ok v :=
  validateLeg_of_units rfl rfl h.amount_pos (h.amount_lt.trans (by norm_num))

/-- The rate of a flipped leg is the one that was stored. -/
theorem legRate_flippedLeg {db : Db} {e : Entry} {base : String} {fxDate : Date} {v : ValidLeg}
    (hv : v.fxRate = (flippedLeg e).fxRate) (hrate : e.fxRate = none ↔ e.currency = base) :
    legRate db base fxDate e.currency v = .ok (e.fxRate.map Rate.toDec) := by
  unfold legRate
  by_cases hcur : e.currency = base
  · rw [if_pos hcur, hrate.mpr hcur]
    rfl
  · rw [if_neg hcur, hv]
    cases hr : e.fxRate with
    | none => exact absurd (hrate.mp hr) hcur
    | some r =>
      rw [flippedLeg, hr]
      rfl

/-- The accounts that a posting has locked, with the base currency of its
fund. -/
structure LockedAccounts (db : Db) (accounts : List Account) (base : String) : Prop where
  mem : ∀ a ∈ accounts, a ∈ db.accounts
  base_eq : ∀ a ∈ accounts, ∀ f ∈ db.funds, f.id = a.fund → f.baseCurrency = base

theorem SoundEntry.rate_iff {db : Db} {e : Entry} (h : SoundEntry db e) {accounts : List Account}
    {base : String} (hlocked : LockedAccounts db accounts base) {a : Account} (ha : a ∈ accounts)
    (hae : a.id = e.account) :
    a.currency = e.currency ∧ (e.fxRate = none ↔ e.currency = base) := by
  obtain ⟨b, hb, hbe, hcur, f, hf, hfb, hrate⟩ := h.account
  obtain rfl : a = b := Table.eq_of_key_eq (hlocked.mem a ha) hb (hae.trans hbe.symm)
  rw [← hlocked.base_eq a ha f hf hfb]
  exact ⟨hcur, hrate⟩

theorem SoundEntry.pricedFlip {db : Db} {e : Entry} (h : SoundEntry db e) {accounts : List Account}
    {base : String} {fxDate : Date} (hlocked : LockedAccounts db accounts base) {v : ValidLeg}
    (hvalid : validateLeg (flippedLeg e) = .ok v) {p : PricedLeg}
    (hprice : priceLeg db accounts base fxDate v = .ok p) : PricedFlip e p := by
  obtain ⟨hacc, hdir, hamount, hrate, hbase⟩ := validateLeg_ok hvalid
  obtain ⟨hpa, hpid, hpd, hpamount, hpc⟩ := priceLeg_ok hprice
  obtain ⟨hprate, hpbase⟩ := priceLeg_values hprice
  have hid : p.account.id = e.account := hpid.trans hacc
  obtain ⟨hcur, hiff⟩ := h.rate_iff hlocked hpa hid
  have hpcur : p.currency = e.currency := hpc.trans hcur
  refine ⟨hid, hpd.trans (Direction.value_injective hdir).symm, ?_, hpcur, ?_, ?_⟩
  · rw [hpamount]
    exact Amount.finite.inj hamount.symm
  · rw [hpcur, legRate_flippedLeg hrate hiff] at hprate
    exact Except.ok.inj hprate.symm
  · exact congrArg Prod.fst (legBase_of_override hbase hpbase)

/-- Flipped legs are priced one by one, and nothing is absorbed. -/
theorem priceLegs_flipped {db : Db} {es : List Entry} {vs : List ValidLeg}
    (hvalid : (es.map flippedLeg).mapM validateLeg = .ok vs) (accounts : List Account)
    (base : String) (fxDate : Date) :
    priceLegs db vs accounts base fxDate = vs.mapM (priceLeg db accounts base fxDate) := by
  refine priceLegs_of_overrides fun v hv => ?_
  obtain ⟨leg, hleg, hok⟩ := forall₂_exists_left (mapM_except_ok.mp hvalid) hv
  obtain ⟨e, -, rfl⟩ := List.mem_map.mp hleg
  exact ⟨_, (validateLeg_ok hok).2.2.2.2⟩

theorem forall₂_pricedFlip {db : Db} {es : List Entry} (hsound : ∀ e ∈ es, SoundEntry db e)
    {accounts : List Account} {base : String} {fxDate : Date}
    (hlocked : LockedAccounts db accounts base) {vs : List ValidLeg}
    (hvalid : (es.map flippedLeg).mapM validateLeg = .ok vs) {priced : List PricedLeg}
    (hprice : priceLegs db vs accounts base fxDate = .ok priced) :
    List.Forall₂ PricedFlip es priced := by
  rw [priceLegs_flipped hvalid] at hprice
  have hvs := mapM_except_ok.mp hvalid
  rw [List.forall₂_map_left_iff] at hvs
  exact forall₂_comp hvs (mapM_except_ok.mp hprice) fun e he v p hv hp =>
    (hsound e he).pricedFlip hlocked hv hp

theorem PricedFlip.storable {db : Db} {e : Entry} {p : PricedLeg} (h : PricedFlip e p)
    (hs : SoundEntry db e) : Storable p := by
  refine ⟨e.amount, e.baseAmount, e.fxRate, ?_, ?_, ?_, ?_, hs.amount_pos, hs.baseAmount_pos,
    hs.fxRate_pos, ?_⟩
  · rw [h.amount_eq, Money.ofDec?_toDec hs.amount_lt]
  · rw [h.baseAmount_eq, Money.ofDec?_toDec hs.baseAmount_lt]
  · rw [h.baseAmount_eq, Money.val_toDec]
  · rw [h.fxRate_eq]
    cases hr : e.fxRate with
    | none => rfl
    | some r =>
      have hstored : Rate.ofDec? r.toDec = some r := Dec.toNumeric_ofUnits (hs.fxRate_lt r hr)
      rw [Option.map_some, storedRate, hstored]
      rfl
  · rw [h.currency_eq]
    exact hs.iso4217

/-- The row of a flipped leg is the flipped entry. -/
theorem PricedFlip.flipped {env : Env} {transfer : Uuid} {db : Db} {e f : Entry} {p : PricedLeg}
    (h : PricedFlip e p) (hs : SoundEntry db e) (hrow : RowOf env transfer p f) : Flipped e f := by
  obtain ⟨amount, base, rate, hamount, hbase, -, hrate, -⟩ := h.storable hs
  refine ⟨hrow.account_eq.trans h.account_eq, hrow.direction_eq.trans h.direction_eq, ?_,
    hrow.currency_eq.trans h.currency_eq, ?_, ?_⟩
  · have hstored := hrow.amount_eq
    rw [h.amount_eq, Money.ofDec?_toDec hs.amount_lt] at hstored
    exact Option.some.inj hstored.symm
  · have hstored := hrow.fxRate_eq
    rw [h.fxRate_eq] at hstored
    cases hr : e.fxRate with
    | none =>
      rw [hr] at hstored
      exact Except.ok.inj hstored.symm
    | some r =>
      have hr' : Rate.ofDec? r.toDec = some r := Dec.toNumeric_ofUnits (hs.fxRate_lt r hr)
      rw [hr, Option.map_some, storedRate, hr'] at hstored
      exact Except.ok.inj hstored.symm
  · have hstored := hrow.baseAmount_eq
    rw [h.baseAmount_eq, Money.ofDec?_toDec hs.baseAmount_lt] at hstored
    exact Option.some.inj hstored.symm

theorem mem_entriesById {db : Db} {transfer : Uuid} {e : Entry} :
    e ∈ entriesById db transfer ↔ e ∈ entriesOf db transfer := by
  rw [entriesById, List.mem_insertionSort]

/-- **The entries of a reversal** are those of the original, flipped. -/
theorem Posted.flipped {env : Env} {a : Posting} {db db' : Db} {es : List Entry} {original : Uuid}
    (h : Posted env a db db' es) (hlegs : a.legs = (entriesById db original).map flippedLeg)
    (sound : SoundEntries db) : List.Forall₂ Flipped (entriesById db original) es := by
  obtain ⟨vs, accounts, priced, hvalid, hprep, hrows⟩ := h.prepared
  obtain ⟨base, hbase, hprice⟩ := hprep.pricedBy
  obtain ⟨f, hf, hfid, rfl⟩ := baseCurrencyOf_ok hbase
  have hlocked : LockedAccounts db accounts f.baseCurrency := by
    refine ⟨(lockAccounts_ok hprep.locked).2, fun c hc g hg hgc => ?_⟩
    have hsame : g.id = f.id := (hgc.trans (hprep.same_fund c hc)).trans hfid.symm
    rw [Table.eq_of_key_eq hg hf hsame]
  have hsound : ∀ e ∈ entriesById db original, SoundEntry db e := fun e he =>
    sound e (mem_group.mp (mem_entriesById.mp he)).1
  have hvs := (validateLegs_ok (hlegs ▸ hvalid)).2.2.2
  exact forall₂_comp (forall₂_pricedFlip hsound hlocked hvs hprice) hrows
    fun e he p f hp hrow => hp.flipped (hsound e he) hrow

/-! ## The checks on flipped legs -/

/-- A flipped leg can be priced again. -/
theorem SoundEntry.priceLeg_isOk {db : Db} {e : Entry} (h : SoundEntry db e)
    {accounts : List Account} {base : String} (fxDate : Date)
    (hlocked : LockedAccounts db accounts base) {v : ValidLeg}
    (hvalid : validateLeg (flippedLeg e) = .ok v) (hacc : ∃ a ∈ accounts, a.id = e.account) :
    ∃ p, priceLeg db accounts base fxDate v = .ok p := by
  obtain ⟨hid, -, hamount, hrate, hbase⟩ := validateLeg_ok hvalid
  obtain ⟨a, ha, hae⟩ := hacc
  have hva : v.amount = e.amount.toDec := (Amount.finite.inj hamount).symm
  obtain ⟨b, hfind⟩ : ∃ b, (accounts.find? fun a => decide (a.id = v.accountId)) = some b := by
    rw [← Option.isSome_iff_exists, List.find?_isSome]
    exact ⟨a, ha, decide_eq_true (hae.trans hid.symm)⟩
  have hb : b ∈ accounts := List.mem_of_find?_eq_some hfind
  have hbid : b.id = e.account := by
    have hfound := List.find?_some hfind
    exact (of_decide_eq_true hfound).trans hid
  obtain ⟨hcur, hiff⟩ := h.rate_iff hlocked hb hbid
  have hlegRate : legRate db base fxDate b.currency v = .ok (e.fxRate.map Rate.toDec) :=
    hcur ▸ legRate_flippedLeg hrate hiff
  obtain ⟨values, hvalues⟩ : ∃ values, legBase v (e.fxRate.map Rate.toDec) = .ok values := by
    have hover : v.baseAmount = some (.finite e.baseAmount.toDec) := hbase
    unfold legBase
    rw [hover]
    cases hr : e.fxRate with
    | none => exact ⟨_, rfl⟩
    | some r =>
      obtain ⟨d, hd⟩ := convert_isSome h.amount_lt (h.fxRate_lt r hr)
      rw [Option.map_some, hva]
      dsimp only
      rw [hd]
      exact ⟨_, rfl⟩
  exact ⟨_, except_bind_ok.mpr ⟨b, orRaise_eq_ok.mpr hfind, except_bind_ok.mpr ⟨_, hlegRate,
    except_bind_ok.mpr ⟨values, hvalues, rfl⟩⟩⟩⟩

/-- The two sides of the flipped legs differ by what the entries sum to. -/
theorem sideTotals_pricedFlip {es : List Entry} {priced : List PricedLeg}
    (h : List.Forall₂ PricedFlip es priced) :
    (sideTotal .DEBIT priced).val - (sideTotal .CREDIT priced).val =
      -((sumBy Entry.signedBaseAmount es : ℤ) : ℚ) / 10 ^ 4 := by
  induction h with
  | nil => simp [sideTotal, Dec.sum]
  | @cons e p es ps hep _ ih =>
    rw [val_sideTotal_cons, val_sideTotal_cons, hep.direction_eq, hep.baseAmount_eq,
      Money.val_toDec, sumBy_cons, Entry.signedBaseAmount]
    push_cast
    rw [neg_add, add_div, ← ih]
    cases e.direction <;> simp [signed, Direction.flip] <;> ring

/-- What the flipped legs lower an account by is what the entries raised it
by. -/
theorem guardedDelta_pricedFlip {db : Db} {es : List Entry} {priced : List PricedLeg}
    (h : List.Forall₂ PricedFlip es priced) (hmem : ∀ p ∈ priced, p.account ∈ db.accounts)
    {a : Account} (ha : a ∈ db.accounts) (hguarded : a.IsGuarded) :
    guardedDelta priced a.id =
      -((sumBy Entry.signedAmount (group Entry.account a.id es) : ℤ) : ℚ) / 10 ^ 4 := by
  induction h with
  | nil => simp [guardedDelta, group]
  | @cons e p es ps hep _ ih =>
    obtain ⟨hp, hps⟩ := List.forall_mem_cons.mp hmem
    have hsigned : p.signedAmount.val = -((e.signedAmount : ℤ) : ℚ) / 10 ^ 4 := by
      rw [PricedLeg.signedAmount, hep.direction_eq, hep.amount_eq, Entry.signedAmount]
      cases e.direction <;>
        simp [Direction.flip, signed, Dec.val_neg, Money.val_toDec, neg_div]
    rw [guardedDelta, sumBy_cons, group, List.filter_cons]
    have ih := ih hps
    rw [guardedDelta, group] at ih
    rw [ih]
    by_cases hid : e.account = a.id
    · obtain rfl : p.account = a := Table.eq_of_key_eq hp ha (hep.account_eq.trans hid)
      simp only [hid, decide_true, if_true, sumBy_cons, hguarded, true_and, hsigned]
      push_cast
      ring
    · have hpid : p.account.id ≠ a.id := fun h => hid (hep.account_eq.symm.trans h)
      simp [hid, hpid]

/-- The posting of a reversal. -/
def reversalPosting (db : Db) (original : Transfer) (key : String) (period : Period)
    (createdBy : String) : Posting where
  idempotencyKey := key
  legs := (entriesById db original.id).map flippedLeg
  period
  transferType := .REVERSAL
  description := [.lit "Reversal of ", .uuid original.id]
  reverses := some original.id
  requestHash := .reversal original.id period.id
  createdBy

/-- **Of all the checks, only the one for sufficient funds can refuse the
flipped legs.** -/
theorem prepareReversal {db : Db} (books : Books db) (sound : SoundEntries db) {original : Transfer}
    (hmem : original ∈ db.transfers) (env : Env) (key : String) {period : Period}
    (createdBy : String) (hopen : period.status = .OPEN)
    (hfund : ∃ q ∈ db.periods, q.id = original.period ∧ q.fund = period.fund) :
    ∃ vs priced, validateLegs (reversalPosting db original key period createdBy).legs = .ok vs ∧
      List.Forall₂ PricedFlip (entriesById db original.id) priced ∧
      (∀ p ∈ priced, p.account ∈ db.accounts) ∧
      preparePosting env db (reversalPosting db original key period createdBy) vs =
        (checkSufficientFunds (fun account => nativeBalance db account) priced >>= fun _ =>
          .ok priced) := by
  have hbooks := books.transfer_books original hmem
  have hsound : ∀ e ∈ entriesById db original.id, SoundEntry db e := fun e he =>
    sound e (mem_group.mp (mem_entriesById.mp he)).1
  have hperm : (entriesById db original.id).Perm (entriesOf db original.id) :=
    List.perm_insertionSort _ _
  -- validation
  obtain ⟨vs, hvs⟩ : ∃ vs, ((entriesById db original.id).map flippedLeg).mapM validateLeg =
      .ok vs := by
    refine mapM_isOk fun leg hleg => ?_
    obtain ⟨e, he, rfl⟩ := List.mem_map.mp hleg
    exact validateLeg_flippedLeg (hsound e he)
  have hdir : ∀ d : Direction, d.value ∈ ((entriesById db original.id).map flippedLeg).map
      Leg.direction := by
    intro d
    obtain ⟨e, he, hed⟩ := hbooks.exists_direction d.flip
    refine List.mem_map.mpr ⟨flippedLeg e, List.mem_map_of_mem (mem_entriesById.mpr he), ?_⟩
    rw [flippedLeg, hed]
    cases d <;> rfl
  have hvalid : validateLegs ((entriesById db original.id).map flippedLeg) = .ok vs := by
    refine validateLegs_of_mapM ?_ (hdir .DEBIT) (hdir .CREDIT) hvs
    rw [List.length_map, hperm.length_eq]
    exact hbooks.two_le_length
  -- locking
  have hentry : ∀ v ∈ vs, ∃ e ∈ entriesById db original.id, validateLeg (flippedLeg e) = .ok v := by
    intro v hv
    obtain ⟨leg, hleg, hok⟩ := forall₂_exists_left (mapM_except_ok.mp hvs) hv
    obtain ⟨e, he, rfl⟩ := List.mem_map.mp hleg
    exact ⟨e, he, hok⟩
  obtain ⟨q, hq, hqid, hqf⟩ := hfund
  have haccount : ∀ e ∈ entriesById db original.id, ∃ a ∈ db.accounts, a.id = e.account ∧
      a.fund = period.fund := by
    intro e he
    obtain ⟨r, hr, hrid, hall⟩ := hbooks.same_fund
    obtain rfl : q = r := Table.eq_of_key_eq hq hr (hqid.trans hrid.symm)
    obtain ⟨a, ha, hae, haf⟩ := hall e (mem_entriesById.mp he)
    exact ⟨a, ha, hae, haf.trans hqf⟩
  obtain ⟨accounts, hlock, haccounts⟩ : ∃ accounts, lockAccounts db vs = .ok accounts ∧
      ∀ a, a ∈ accounts ↔ a ∈ db.accounts ∧ ∃ v ∈ vs, v.accountId = a.id := by
    refine lockAccounts_isOk fun v hv => ?_
    obtain ⟨e, he, hok⟩ := hentry v hv
    obtain ⟨a, ha, hae, -⟩ := haccount e he
    exact ⟨a, ha, hae.trans (validateLeg_ok hok).1.symm⟩
  have hsame : ∀ a ∈ accounts, a.fund = period.fund := by
    intro a ha
    obtain ⟨hamem, v, hv, hva⟩ := (haccounts a).mp ha
    obtain ⟨e, he, hok⟩ := hentry v hv
    obtain ⟨b, hb, hbe, hbf⟩ := haccount e he
    obtain rfl : a = b :=
      Table.eq_of_key_eq hamem hb (hva.symm.trans ((validateLeg_ok hok).1.trans hbe.symm))
    exact hbf
  -- pricing
  obtain ⟨f, hf, hff⟩ : ∃ f ∈ db.funds, f.id = period.fund := by
    obtain ⟨e, he, -⟩ := hbooks.exists_direction .DEBIT
    have he := mem_entriesById.mpr he
    obtain ⟨a, ha, hae, -, f, hf, hfa, -⟩ := (hsound e he).account
    obtain ⟨b, hb, hbe, hbf⟩ := haccount e he
    obtain rfl : a = b := Table.eq_of_key_eq ha hb (hae.trans hbe.symm)
    exact ⟨f, hf, hfa.trans hbf⟩
  have hbase : baseCurrencyOf db period = .ok f.baseCurrency := by
    rw [baseCurrencyOf, Table.get?_eq_some.mpr ⟨hf, hff⟩]
    rfl
  have hlocked : LockedAccounts db accounts f.baseCurrency := by
    refine ⟨fun a ha => ((haccounts a).mp ha).1, fun a ha g hg hga => ?_⟩
    rw [Table.eq_of_key_eq hg hf ((hga.trans (hsame a ha)).trans hff.symm)]
  obtain ⟨priced, hprice⟩ : ∃ priced, priceLegs db vs accounts f.baseCurrency
      ((none : Option Date).getD env.today) = .ok priced := by
    rw [priceLegs_flipped hvs]
    refine mapM_isOk fun v hv => ?_
    obtain ⟨e, he, hok⟩ := hentry v hv
    obtain ⟨a, ha, hae, -⟩ := haccount e he
    refine (hsound e he).priceLeg_isOk _ hlocked hok ⟨a, (haccounts a).mpr ⟨ha, v, hv, ?_⟩, hae⟩
    exact (validateLeg_ok hok).1.trans hae.symm
  have hflips := forall₂_pricedFlip hsound hlocked hvs hprice
  have hbalanced : checkBalanced priced = .ok () := by
    have hzero : sumBy Entry.signedBaseAmount (entriesById db original.id) = 0 :=
      (sumBy_perm hperm).trans hbooks.sum_zero
    have hsides := sideTotals_pricedFlip hflips
    rw [hzero, Int.cast_zero, neg_zero, zero_div] at hsides
    exact checkBalanced_ok.mpr (sub_eq_zero.mp hsides)
  have hcontext : validateContext period accounts = .ok () := validateContext_ok.mpr ⟨hopen, hsame⟩
  refine ⟨vs, priced, hvalid, hflips, fun p hp => ?_, ?_⟩
  · obtain ⟨v, -, hpa, -⟩ := forall₂_exists_left (priceLegs_ok hprice) hp
    exact ((haccounts _).mp hpa).1
  · rw [preparePosting, hlock]
    show (validateContext period accounts >>= _) = _
    rw [hcontext]
    show (baseCurrencyOf db period >>= _) = _
    rw [hbase]
    show (priceLegs db vs accounts f.baseCurrency ((none : Option Date).getD env.today) >>= _) = _
    rw [hprice]
    show (checkBalanced priced >>= _) = _
    rw [hbalanced]
    rfl

/-! ## A reversal cancels, and is always possible -/

/-- `t`, with the entries `es`, is the reversal of `original`, and nothing else
has changed. -/
structure Cancels (original t : Transfer) (es : List Entry) (db db' : Db) : Prop where
  type : t.transferType = .REVERSAL
  reverses : t.reverses = some original.id
  flipped : List.Forall₂ Flipped (entriesById db original.id) es
  own_entries : entriesOf db' t.id = es
  original_entries : entriesOf db' original.id = entriesOf db original.id
  native : ∀ account,
    sumBy Entry.signedAmount (group Entry.account account (entriesOf db' original.id)) +
      sumBy Entry.signedAmount (group Entry.account account (entriesOf db' t.id)) = 0
  base : ∀ account,
    sumBy Entry.signedBaseAmount (group Entry.account account (entriesOf db' original.id)) +
      sumBy Entry.signedBaseAmount (group Entry.account account (entriesOf db' t.id)) = 0
  unchanged : ∃ transfers entries, transfers.rows = db.transfers.rows ++ [t] ∧
    entries.rows = db.entries.rows ++ es ∧ db' = { db with transfers, entries }

/-- **A posting with the flipped legs cancels the original.** -/
theorem Posted.cancels {env : Env} {a : Posting} {db db' : Db} {es : List Entry}
    {original : Transfer} (h : Posted env a db db' es) (books : Books db)
    (sound : SoundEntries db) (hmem : original ∈ db.transfers)
    (hlegs : a.legs = (entriesById db original.id).map flippedLeg)
    (htype : a.transferType = .REVERSAL) (hreverses : a.reverses = some original.id) :
    Cancels original (transferFor env a) es db db' := by
  have hflipped := h.flipped hlegs sound
  have hnew := h.entriesOf_new books
  have hold := h.entriesOf_of_mem hmem
  have hsum : ∀ g : Entry → Money, (∀ e f, Flipped e f → g f = -g e) → ∀ account,
      sumBy g (group Entry.account account (entriesOf db' original.id)) +
        sumBy g (group Entry.account account (entriesOf db' (transferFor env a).id)) = 0 := by
    intro g hg account
    have hperm : (group Entry.account account (entriesById db original.id)).Perm
        (group Entry.account account (entriesOf db original.id)) :=
      (List.perm_insertionSort _ _).filter _
    rw [hnew, hold, sumBy_flipped hg hflipped, sumBy_perm hperm, add_neg_cancel]
  exact ⟨htype, hreverses, hflipped, hnew, hold, hsum _ fun _ _ hf => hf.signedAmount,
    hsum _ fun _ _ hf => hf.signedBaseAmount, h.appended⟩

/-- What a reversal that created something did. -/
theorem reverseTransfer_posted {env : Env} {transferId : Uuid} {key : String} {period : Period}
    {createdBy : String} {db db' : Db} {t : Transfer}
    (h : reverseTransfer env transferId key period createdBy db = (.ok (t, true), db')) :
    ∃ original, db.transfers.get? transferId = some original ∧
      original.transferType ≠ .REVERSAL ∧ reversalOf db original.id = none ∧
      t = transferFor env (reversalPosting db original key period createdBy) ∧
      ∃ es, Posted env (reversalPosting db original key period createdBy) db db' es := by
  rw [reverseTransfer, Tx.read_bind] at h
  obtain ⟨original, d, hlift, h₁⟩ := Tx.bind_ok.mp h
  obtain ⟨horiginal, hd⟩ := Tx.lift_eq.mp hlift
  subst hd
  obtain ⟨u, d₁, hlift₁, h₂⟩ := Tx.bind_ok.mp h₁
  obtain ⟨hkind, hd₁⟩ := Tx.lift_eq.mp hlift₁
  subst hd₁
  obtain ⟨u', d₂, hlift₂, h₃⟩ := Tx.bind_ok.mp h₂
  obtain ⟨hfirst, hd₂⟩ := Tx.lift_eq.mp hlift₂
  subst hd₂
  rcases Tx.tryCatch_ok.mp h₃ with hrun | ⟨e, s, -, hraised⟩
  · obtain ⟨-, hunused, hcreate⟩ | ⟨hfalse, -⟩ :=
      runIdempotent_ok (fun _ => Tx.readOnly_pure _) hrun
    · obtain ⟨rfl, es, hposted⟩ := postTransfer_ok hcreate
      refine ⟨original, orRaise_eq_ok.mp horiginal.symm, require_eq_ok.mp hkind.symm, ?_, rfl, es,
        hposted⟩
      -- an earlier reversal would have had the key
      cases hr : reversalOf d₂ original.id with
      | none => rfl
      | some existing =>
        rw [hr] at hfirst
        have hmem : existing ∈ d₂.transfers := List.mem_of_find?_eq_some hr
        exact absurd (require_eq_ok.mp hfirst.symm) (transferByKey_none.mp hunused _ hmem)
    · cases hfalse
  · split at hraised <;> cases hraised

/-- A request for a reversal with a fresh key, into an open period of the fund
of the original. -/
structure ReversalRequest (db : Db) (original : Transfer) (env : Env) (key : String)
    (period : Period) (createdBy : String) : Prop where
  key_present : key ≠ ""
  key_length : key.length ≤ 255
  key_fresh : ∀ u ∈ db.transfers, u.idempotencyKey ≠ key
  createdBy_length : createdBy.length ≤ 255
  period_mem : period ∈ db.periods
  period_open : period.status = .OPEN
  same_fund : ∃ q ∈ db.periods, q.id = original.period ∧ q.fund = period.fund
  fresh_ids : FreshIds env db

/-- The original has a reversal, and the error says so. -/
def FailsReversed (db : Db) (original : Transfer) (e : Exc) : Prop :=
  (∃ r ∈ db.transfers, r.reverses = some original.id) ∧
    ∃ detail, e = .ledger .AlreadyReversed detail

/-- Taking the entries of the original back would leave a cash account below
zero, and the error says so. -/
def FailsOverdrawn (db : Db) (original : Transfer) (e : Exc) : Prop :=
  (∃ a ∈ db.accounts, a.accountType = .CASH ∧ nativeBalance db a.id -
      sumBy Entry.signedAmount (group Entry.account a.id (entriesOf db original.id)) < 0) ∧
    ∃ detail, e = .ledger .InsufficientFunds detail

/-- **The flipped legs are posted, unless a cash account would go below
zero.** -/
theorem postTransfer_reversal {db : Db} (books : Books db) (sound : SoundEntries db)
    {original : Transfer} (hmem : original ∈ db.transfers)
    (hfirst : reversalOf db original.id = none) {env : Env} {key : String} {period : Period}
    {createdBy : String} (request : ReversalRequest db original env key period createdBy) :
    (∃ db', postTransfer env (reversalPosting db original key period createdBy) db =
      (.ok (transferFor env (reversalPosting db original key period createdBy)), db')) ∨
    ∃ e, postTransfer env (reversalPosting db original key period createdBy) db =
      (.error e, db) ∧ FailsOverdrawn db original e := by
  obtain ⟨vs, priced, hvalid, hflips, hmems, hprep⟩ := prepareReversal books sound hmem env key
    createdBy request.period_open request.same_fund
  cases hfunds : checkSufficientFunds (fun account => nativeBalance db account) priced with
  | error e =>
    rw [hfunds] at hprep
    refine .inr ⟨e, postTransfer_error hvalid hprep, ?_, checkSufficientFunds_class hfunds⟩
    obtain ⟨p, hp, hguarded, hlt⟩ := checkSufficientFunds_error hfunds
    refine ⟨p.account, hmems p hp, Account.isGuarded_iff.mp hguarded, ?_⟩
    rw [guardedDelta_pricedFlip hflips hmems (hmems p hp) hguarded, Money.val_toDec, neg_div,
      ← sub_eq_add_neg, ← sub_div, div_neg_iff] at hlt
    have hperm : (group Entry.account p.account.id (entriesById db original.id)).Perm
        (group Entry.account p.account.id (entriesOf db original.id)) :=
      (List.perm_insertionSort _ _).filter _
    rw [← sumBy_perm hperm]
    have hneg := (hlt.resolve_left (by norm_num)).1
    exact_mod_cast hneg
  | ok u =>
    cases u
    rw [hfunds] at hprep
    refine .inl (postTransfer_isOk_of_prepared hvalid hprep (fun p hp => ?_) ?_ request.fresh_ids)
    · obtain ⟨e, he, hpe⟩ := forall₂_exists_left hflips hp
      exact hpe.storable (sound e (mem_group.mp (mem_entriesById.mp he)).1)
    · refine ⟨request.key_length, request.createdBy_length, request.key_present,
        request.key_fresh, .inr rfl, fun _ => Option.some_ne_none _, ?_, ?_,
        ⟨period, request.period_mem, rfl, request.period_open⟩⟩
      · rintro u hu ⟨-, hrev⟩
        exact List.find?_eq_none.mp hfirst u hu (decide_eq_true hrev)
      · rintro o ⟨⟩
        exact ⟨original, hmem, rfl⟩

/-- A call, and a purchase in dollars. -/
def callsWithPurchase : List Call := [
  callOf100,
  { env := envOf 2, op := .recordInvestment 1 "inv" (.finite ⟨1001, -2⟩) "USD" 32 }]

/-- The fund after the purchase, by when a dollar is worth more. -/
def reratedFund : Db := (publish rateOf80 (afterCalls buildPeFund callsWithPurchase)).2

end FundLedger
