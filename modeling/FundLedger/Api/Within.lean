import FundLedger.Api.Views
import FundLedger.Operations.ChartCodes
import FundLedger.Operations.TrialBalance

/-!
# What some funds hold

`Db.within S` is the database less the rows of the funds outside `S`.  A
transfer belongs to the fund of its period, and an entry to the fund of its
account.  Partners and exchange rates belong to no fund and stay.

* `Separate`: rows that point at one another belong to one fund.  It is what
  makes the restriction a database in its own right.
* For each query of the services and the views, what it answers about a fund of
  `S` is what it answers in the restriction.
-/

namespace FundLedger

open Lib

/-- The fund of a transfer. -/
def transferFund (db : Db) (t : Transfer) : Option Uuid :=
  (db.periods.get? t.period).map Period.fund

def Db.within (S : Uuid → Bool) (db : Db) : Db where
  funds := db.funds.restrict fun f => S f.id
  lps := db.lps
  commitments := db.commitments.restrict fun c => S c.fund
  periods := db.periods.restrict fun p => S p.fund
  fxRates := db.fxRates
  accounts := db.accounts.restrict fun a => S a.fund
  transfers := db.transfers.restrict fun t => (transferFund db t).any S
  entries := db.entries.restrict fun e => (entryFund db e).any S
  capitalCalls := db.capitalCalls.restrict fun c => S c.fund
  distributions := db.distributions.restrict fun d => S d.fund
  memberships := db.memberships.restrict fun m => S m.fund

/-- Rows that point at one another belong to one fund. -/
structure Separate (db : Db) : Prop where
  entry : ∀ e ∈ db.entries, ∃ t ∈ db.transfers, t.id = e.transfer ∧
    ∃ fund, transferFund db t = some fund ∧ entryFund db e = some fund
  reversal : ∀ t ∈ db.transfers, ∀ o ∈ t.reverses, ∃ u ∈ db.transfers, u.id = o ∧
    transferFund db u = transferFund db t
  call : ∀ c ∈ db.capitalCalls, ∃ t ∈ db.transfers, t.id = c.transfer ∧
    transferFund db t = some c.fund
  distribution : ∀ d ∈ db.distributions, ∃ t ∈ db.transfers, t.id = d.transfer ∧
    transferFund db t = some d.fund

/-- A reversal belongs to the fund of its original. -/
theorem Separate.reversal_fund {db : Db} (h : Separate db) {t o : Transfer} (ht : t ∈ db.transfers)
    (ho : o ∈ db.transfers) (hr : t.reverses = some o.id) :
    transferFund db t = transferFund db o := by
  obtain ⟨u, hu, hid, hfund⟩ := h.reversal t ht o.id hr
  rw [← hfund, Table.eq_of_key_eq hu ho hid]

/-- The transfer belongs to one of the funds. -/
def SeenTransfer (S : Uuid → Bool) (db : Db) (t : Transfer) : Prop := (transferFund db t).any S = true

/-- The account belongs to one of the funds, if there is such an account. -/
def SeenAccount (S : Uuid → Bool) (db : Db) (account : Uuid) : Prop :=
  ∀ a ∈ db.accounts, a.id = account → S a.fund = true

section

variable {db : Db} {S : Uuid → Bool}

theorem mem_transfers_within {t : Transfer} :
    t ∈ (db.within S).transfers ↔ t ∈ db.transfers ∧ SeenTransfer S db t :=
  Table.mem_restrict

theorem mem_accounts_within {a : Account} :
    a ∈ (db.within S).accounts ↔ a ∈ db.accounts ∧ S a.fund = true :=
  Table.mem_restrict

/-! ## Funds, periods and accounts -/

theorem getFund_within {fund : Uuid} (hS : S fund = true) :
    getFund (db.within S) fund = getFund db fund := by
  have hget : (db.within S).funds.get? fund = db.funds.get? fund :=
    Table.get?_restrict_of_seen fun f _ hf => by rwa [hf]
  rw [getFund, getFund, hget]

theorem getPeriod_within {t : Transfer} (h : SeenTransfer S db t) :
    (db.within S).periods.get? t.period = db.periods.get? t.period := by
  refine Table.get?_restrict_of_seen fun p hp hid => ?_
  rw [SeenTransfer, transferFund, Table.get?_eq_some.mpr ⟨hp, hid⟩] at h
  exact h

theorem transferFund_within {t : Transfer} (h : SeenTransfer S db t) :
    transferFund (db.within S) t = transferFund db t := by
  rw [transferFund, transferFund, getPeriod_within h]

/-- An update of periods that keeps their funds leaves every transfer in its fund. -/
theorem transferFund_update {q : Period → Bool} {f : Period → Period} {hf : ∀ p, (f p).id = p.id}
    (hfund : ∀ p, (f p).fund = p.fund) (t : Transfer) :
    transferFund { db with periods := db.periods.update q f hf } t = transferFund db t := by
  show ((db.periods.update q f hf).get? t.period).map Period.fund = _
  rw [Table.get?_update, Option.map_map, transferFund]
  congr 1
  funext p
  show Period.fund (if q p then f p else p) = p.fund
  split
  · exact hfund p
  · rfl

theorem within_update {q : Period → Bool} {f : Period → Period} {hf : ∀ p, (f p).id = p.id}
    (hfund : ∀ p, (f p).fund = p.fund) :
    Db.within S { db with periods := db.periods.update q f hf } =
      { db.within S with periods := (db.within S).periods.update q f hf } := by
  have hperiods : (db.periods.update q f hf).restrict (fun p => S p.fund) =
      (db.within S).periods.update q f hf := Table.restrict_update fun p => by rw [hfund]
  rw [← hperiods]
  unfold Db.within
  simp only [transferFund_update hfund]
  rfl

/-- The first period that covers a day. -/
theorem periodFor_within {fund : Uuid} (hS : S fund = true) (onDate : Date) :
    periodFor (db.within S) fund onDate = periodFor db fund onDate := by
  have hrows : ((db.within S).periods.rows.filter fun p =>
      p.fund = fund ∧ p.startDate ≤ onDate ∧ onDate ≤ p.endDate) =
      db.periods.rows.filter fun p =>
        p.fund = fund ∧ p.startDate ≤ onDate ∧ onDate ≤ p.endDate := by
    refine Table.filter_restrict (fun p _ hp => ?_) fun _ _ _ => rfl
    rw [(of_decide_eq_true hp).1, hS]
  rw [periodFor, periodFor, hrows]

/-- A period, if it belongs to the fund. -/
theorem periodInFund_within {fund : Uuid} (hS : S fund = true) (period : Uuid) :
    ((db.within S).periods.get? period).filter (fun p => p.fund = fund) =
      (db.periods.get? period).filter fun p => p.fund = fund := by
  show ((db.periods.restrict _).get? period).filter _ = _
  rw [Table.get?_restrict]
  cases db.periods.get? period with
  | none => rfl
  | some p =>
    by_cases hp : p.fund = fund
    · simp [Option.filter, hp, hS]
    · cases hseen : S p.fund <;> simp [Option.filter, hp, hseen]

theorem periodOfFund_within {fund : Uuid} (hS : S fund = true) (period : Uuid) :
    periodOfFund (db.within S) fund period = periodOfFund db fund period := by
  rw [periodOfFund, periodOfFund, periodInFund_within hS]

theorem commitmentsOf_within {fund : Uuid} (hS : S fund = true) :
    commitmentsOf (db.within S) fund = commitmentsOf db fund :=
  Table.filter_restrict (fun c _ hc => by rw [of_decide_eq_true hc, hS]) fun _ _ _ => rfl

theorem findAccount_within {fund : Uuid} (hS : S fund = true) (code : String) :
    findAccount (db.within S) fund code = findAccount db fund code :=
  Table.find?_restrict fun a _ ha => by rw [(of_decide_eq_true ha).1, hS]

theorem getAccount_within {fund : Fund} (hS : S fund.id = true) (accountType : AccountType)
    (currency : Option String) :
    getAccount (db.within S) fund accountType currency = getAccount db fund accountType currency := by
  unfold getAccount
  simp only [findAccount_within hS]

theorem lpCapitalAccounts_within {fund : Fund} (hS : S fund.id = true) :
    lpCapitalAccounts (db.within S) fund = lpCapitalAccounts db fund := by
  have hrows : ((db.within S).accounts.rows.filter fun a =>
      a.fund = fund.id ∧ a.accountType = .LP_CAPITAL ∧ a.currency = fund.baseCurrency) =
      db.accounts.rows.filter fun a =>
        a.fund = fund.id ∧ a.accountType = .LP_CAPITAL ∧ a.currency = fund.baseCurrency :=
    Table.filter_restrict (fun a _ ha => by rw [(of_decide_eq_true ha).1, hS]) fun _ _ _ => rfl
  rw [lpCapitalAccounts, lpCapitalAccounts, hrows]

theorem nextCallNumber_within {fund : Uuid} (hS : S fund = true) :
    nextCallNumber (db.within S) fund = nextCallNumber db fund := by
  have hrows : ((db.within S).capitalCalls.rows.filter fun c => c.fund = fund) =
      db.capitalCalls.rows.filter fun c => c.fund = fund :=
    Table.filter_restrict (fun c _ hc => by rw [of_decide_eq_true hc, hS]) fun _ _ _ => rfl
  rw [nextCallNumber, nextCallNumber, hrows]

theorem nextDistributionNumber_within {fund : Uuid} (hS : S fund = true) :
    nextDistributionNumber (db.within S) fund = nextDistributionNumber db fund := by
  have hrows : ((db.within S).distributions.rows.filter fun d => d.fund = fund) =
      db.distributions.rows.filter fun d => d.fund = fund :=
    Table.filter_restrict (fun d _ hd => by rw [of_decide_eq_true hd, hS]) fun _ _ _ => rfl
  rw [nextDistributionNumber, nextDistributionNumber, hrows]

theorem membershipOf_within {fund : Uuid} (hS : S fund = true) (user : Uuid) :
    Api.membershipOf (db.within S) user fund = Api.membershipOf db user fund :=
  Table.find?_restrict fun m _ hm => by rw [(of_decide_eq_true hm).2, hS]

/-! ## Transfers and documents -/

theorem transferByKey_within {key : String}
    (h : ∀ t ∈ db.transfers, t.idempotencyKey = key → SeenTransfer S db t) :
    transferByKey (db.within S) key = transferByKey db key :=
  Table.find?_restrict fun t ht hk => h t ht (of_decide_eq_true hk)

theorem getTransfer_within {t : Transfer} (ht : t ∈ db.transfers) (h : SeenTransfer S db t) :
    (db.within S).transfers.get? t.id = db.transfers.get? t.id :=
  Table.get?_restrict_of_seen fun _ hu hid => Table.eq_of_key_eq hu ht hid ▸ h

variable (sep : Separate db)

include sep

theorem reversalOf_within {t : Transfer} (ht : t ∈ db.transfers) (h : SeenTransfer S db t) :
    reversalOf (db.within S) t.id = reversalOf db t.id := by
  refine Table.find?_restrict fun u hu hr => ?_
  rw [sep.reversal_fund hu ht (of_decide_eq_true hr)]
  exact h

/-- A reversal counts as the kind of its original, which is a row of the same fund. -/
theorem effectiveType_within {t : Transfer} (ht : t ∈ db.transfers) (h : SeenTransfer S db t) :
    effectiveType (db.within S) t = effectiveType db t := by
  have hget : t.reverses.bind (db.within S).transfers.get? = t.reverses.bind db.transfers.get? := by
    cases hr : t.reverses with
    | none => rfl
    | some o =>
      refine Table.get?_restrict_of_seen fun u hu hid => ?_
      rw [← sep.reversal_fund ht hu (hid ▸ hr)]
      exact h
  rw [effectiveType, effectiveType, hget]

theorem call_within {t : Transfer} (ht : t ∈ db.transfers) (h : SeenTransfer S db t) :
    ((db.within S).capitalCalls.rows.find? fun c => c.transfer = t.id) =
      db.capitalCalls.rows.find? fun c => c.transfer = t.id := by
  refine Table.find?_restrict fun c hc hct => ?_
  obtain ⟨u, hu, hid, hfund⟩ := sep.call c hc
  rw [Table.eq_of_key_eq hu ht (hid.trans (of_decide_eq_true hct))] at hfund
  rw [SeenTransfer, hfund] at h
  exact h

theorem distribution_within {t : Transfer} (ht : t ∈ db.transfers) (h : SeenTransfer S db t) :
    ((db.within S).distributions.rows.find? fun d => d.transfer = t.id) =
      db.distributions.rows.find? fun d => d.transfer = t.id := by
  refine Table.find?_restrict fun d hd hdt => ?_
  obtain ⟨u, hu, hid, hfund⟩ := sep.distribution d hd
  rw [Table.eq_of_key_eq hu ht (hid.trans (of_decide_eq_true hdt))] at hfund
  rw [SeenTransfer, hfund] at h
  exact h

/-! ## Entries -/

/-- An entry on an account that is seen is seen. -/
theorem seen_entry {e : Entry} (he : e ∈ db.entries) (h : SeenAccount S db e.account) :
    (entryFund db e).any S = true := by
  obtain ⟨t, -, -, fund, -, hfund⟩ := sep.entry e he
  obtain ⟨a, ha, hid⟩ := Option.map_eq_some_iff.mp hfund
  obtain ⟨hmem, hkey⟩ := Table.get?_eq_some.mp ha
  rw [hfund, ← hid]
  exact h a hmem hkey

/-- The transfer of an entry that is seen is seen. -/
theorem entryTransfer_within {e : Entry} (he : e ∈ db.entries)
    (h : (entryFund db e).any S = true) :
    ∃ t ∈ db.transfers, SeenTransfer S db t ∧ db.transfers.get? e.transfer = some t ∧
      (db.within S).transfers.get? e.transfer = some t := by
  obtain ⟨t, ht, hid, fund, htf, hef⟩ := sep.entry e he
  have hseen : SeenTransfer S db t := by
    rw [SeenTransfer, htf, ← hef]
    exact h
  have hget : db.transfers.get? t.id = some t := Table.get?_of_mem ht
  refine ⟨t, ht, hseen, hid ▸ hget, ?_⟩
  rw [← hid, getTransfer_within ht hseen, hget]

theorem entryPeriod_within {e : Entry} (he : e ∈ db.entries)
    (h : (entryFund db e).any S = true) : entryPeriod (db.within S) e = entryPeriod db e := by
  obtain ⟨t, -, -, hget, hget'⟩ := entryTransfer_within sep he h
  rw [entryPeriod, entryPeriod, hget, hget']

theorem entryType_within {e : Entry} (he : e ∈ db.entries)
    (h : (entryFund db e).any S = true) : entryType (db.within S) e = entryType db e := by
  obtain ⟨t, ht, hseen, hget, hget'⟩ := entryTransfer_within sep he h
  rw [entryType, entryType, hget, hget', Option.map_some, Option.map_some,
    effectiveType_within sep ht hseen]

omit sep in
theorem entryAccount_within {e : Entry} (h : (entryFund db e).any S = true) :
    (db.within S).accounts.get? e.account = db.accounts.get? e.account := by
  refine Table.get?_restrict_of_seen fun a ha hid => ?_
  rw [entryFund, Table.get?_eq_some.mpr ⟨ha, hid⟩] at h
  exact h

omit sep in
theorem entryFund_within {e : Entry} (h : (entryFund db e).any S = true) :
    entryFund (db.within S) e = entryFund db e := by
  rw [entryFund, entryFund, entryAccount_within h]

theorem accountEntries_within {account : Uuid} (h : SeenAccount S db account)
    (asOf : Option Timestamp) :
    accountEntries (db.within S) account asOf = accountEntries db account asOf := by
  refine Table.filter_restrict (fun e he hq => seen_entry sep he ?_) fun _ _ _ => rfl
  rw [(of_decide_eq_true hq).1]
  exact h

theorem viewEntries_within {account : Uuid} (h : SeenAccount S db account) :
    viewEntries (db.within S) account = viewEntries db account := by
  refine Table.filter_restrict (fun e he hq => seen_entry sep he ?_) fun _ _ _ => rfl
  rw [of_decide_eq_true hq]
  exact h

theorem entriesOf_within {t : Transfer} (ht : t ∈ db.transfers) (h : SeenTransfer S db t) :
    entriesOf (db.within S) t.id = entriesOf db t.id := by
  refine Table.filter_restrict (fun e he hq => ?_) fun _ _ _ => rfl
  obtain ⟨u, hu, hid, fund, huf, hef⟩ := sep.entry e he
  rw [Table.eq_of_key_eq hu ht (hid.trans (of_decide_eq_true hq))] at huf
  rw [hef, ← huf]
  exact h

theorem nativeBalance_within {account : Uuid} (h : SeenAccount S db account)
    (asOf : Option Timestamp) :
    nativeBalance (db.within S) account asOf = nativeBalance db account asOf := by
  rw [nativeBalance, nativeBalance, accountEntries_within sep h]

theorem baseBalance_within {account : Uuid} (h : SeenAccount S db account)
    (asOf : Option Timestamp) :
    baseBalance (db.within S) account asOf = baseBalance db account asOf := by
  rw [baseBalance, baseBalance, accountEntries_within sep h]

theorem contributed_within {account : Uuid} (h : SeenAccount S db account) :
    contributed (db.within S) account = contributed db account := by
  have hrows : ((db.within S).entries.rows.filter fun e =>
      e.account = account ∧ entryType (db.within S) e = some .CAPITAL_CALL) =
      db.entries.rows.filter fun e => e.account = account ∧ entryType db e = some .CAPITAL_CALL := by
    refine Table.filter_restrict (fun e he hq => seen_entry sep he ?_) fun e he hseen => ?_
    · rw [(of_decide_eq_true hq).1]
      exact h
    · rw [entryType_within sep he hseen]
  rw [contributed, contributed, hrows]

theorem periodImbalance_within {period : Period} (hp : period ∈ db.periods)
    (hS : S period.fund = true) :
    periodImbalance (db.within S) period.id = periodImbalance db period.id := by
  have hrows : ((db.within S).entries.rows.filter fun e =>
      entryPeriod (db.within S) e = some period.id) =
      db.entries.rows.filter fun e => entryPeriod db e = some period.id := by
    refine Table.filter_restrict (fun e he hq => ?_) fun e he hseen => ?_
    · obtain ⟨t, ht, hid, fund, htf, hef⟩ := sep.entry e he
      have hperiod := of_decide_eq_true hq
      rw [entryPeriod, ← hid, Table.get?_of_mem ht, Option.map_some, Option.some.injEq] at hperiod
      rw [transferFund, hperiod, Table.get?_of_mem hp, Option.map_some] at htf
      rw [hef, ← htf]
      exact hS
    · rw [entryPeriod_within sep he hseen]
  rw [periodImbalance, periodImbalance, hrows]

/-! ## Statements and reconciliation -/

theorem fundTotal_within {fund : Uuid} (hS : S fund = true) (period : Uuid)
    (accountType : AccountType) :
    fundTotal (db.within S) fund period accountType = fundTotal db fund period accountType := by
  have hrows : ((db.within S).entries.rows.filter fun e =>
      entryFund (db.within S) e = some fund ∧
        entryAccountType (db.within S) e = some accountType ∧
        entryPeriod (db.within S) e = some period) =
      db.entries.rows.filter fun e => entryFund db e = some fund ∧
        entryAccountType db e = some accountType ∧ entryPeriod db e = some period := by
    refine Table.filter_restrict (fun e _ hq => ?_) fun e he hseen => ?_
    · rw [(of_decide_eq_true hq).1]
      exact hS
    · rw [entryFund_within hseen, entryPeriod_within sep he hseen, entryAccountType,
        entryAccountType, entryAccount_within hseen]
  rw [fundTotal, fundTotal, hrows]

theorem movementRows_within {account : Uuid} (h : SeenAccount S db account) (period : Uuid) :
    movementRows (db.within S) account period = movementRows db account period := by
  have hentries : periodEntries (db.within S) account period = periodEntries db account period := by
    refine Table.filter_restrict (fun e he hq => seen_entry sep he ?_) fun e he hseen => ?_
    · rw [(of_decide_eq_true hq).1]
      exact h
    · rw [entryPeriod_within sep he hseen]
  have htype : ∀ e ∈ periodEntries db account period,
      entryType (db.within S) e = entryType db e := by
    intro e he
    obtain ⟨hmem, hq⟩ := List.mem_filter.mp he
    refine entryType_within sep hmem (seen_entry sep hmem ?_)
    rw [(of_decide_eq_true hq).1]
    exact h
  have hfilter : ∀ t, ((periodEntries db account period).filter fun e =>
      entryType (db.within S) e = some t) =
      (periodEntries db account period).filter fun e => entryType db e = some t :=
    fun t => List.filter_congr fun e he => by rw [htype e he]
  rw [movementRows, movementRows, hentries]
  rw [List.filterMap_congr htype]
  simp only [hfilter]

theorem lpMovement_within {fund : Fund} (hS : S fund.id = true) {account : Uuid}
    (h : SeenAccount S db account) (weights : Dict Uuid Dec) (lp period : Uuid) :
    lpMovement (db.within S) fund weights lp account period =
      lpMovement db fund weights lp account period := by
  unfold lpMovement lpLedgerMovement
  simp only [movementRows_within sep h, fundTotal_within sep hS]

/-- A statement of a fund that is seen. -/
theorem lpStatement_within {fund : Fund} (hS : S fund.id = true) (order : RowOrder Commitment)
    (lp : LimitedPartner) (period : Period) :
    lpStatement (db.within S) order fund lp period = lpStatement db order fund lp period := by
  have hperiods : periodsThrough (db.within S) fund.id period.startDate =
      periodsThrough db fund.id period.startDate := by
    rw [periodsThrough, periodsThrough]
    congr 1
    exact Table.filter_restrict (fun p _ hp => by rw [(of_decide_eq_true hp).1, hS])
      fun _ _ _ => rfl
  unfold lpStatement
  rw [commitmentsOf_within hS, lpCapitalAccounts_within hS, hperiods]
  refine except_bind_congr fun commitment _ => except_bind_congr fun account haccount => ?_
  have hseen : SeenAccount S db account.id := by
    obtain ⟨hmem, hcapital⟩ := lookup_capital_mem haccount
    exact fun a ha hid => by rw [Table.eq_of_key_eq ha hmem hid, hcapital.fund_eq, hS]
  simp only [lpMovement_within sep hS hseen]

omit sep in
theorem fundEntries_within {fund : Uuid} (hS : S fund = true) :
    fundEntries (db.within S) (some fund) = fundEntries db (some fund) := by
  refine Table.filter_restrict (fun e _ hq => ?_) fun e _ hseen => ?_
  · rw [of_decide_eq_true hq]
    exact hS
  · rw [entryFund_within hseen]

omit sep in
theorem fundReconciliation_within {fund : Uuid} (hS : S fund = true) :
    fundReconciliation (db.within S) fund = fundReconciliation db fund := by
  have himbalance : fundImbalance (db.within S) fund = fundImbalance db fund :=
    congrArg (sumBy Entry.signedBaseAmount) (fundEntries_within hS)
  have hbroken : unbalancedTransfers (db.within S) (some fund) =
      unbalancedTransfers db (some fund) := by
    rw [unbalancedTransfers, unbalancedTransfers, fundEntries_within hS]
  rw [fundReconciliation, fundReconciliation, himbalance, hbroken]

end

end FundLedger
