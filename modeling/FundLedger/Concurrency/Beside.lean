import FundLedger.Concurrency.Views

/-!
# What others can change

`Beside s db db'` says what a commit of another transaction can have changed,
seen from the session `s`: rows are added whose values in the unique indexes
are not those of the uncommitted rows of `s`, entries on accounts and
documents of funds that `s` has not locked, and entries of periods that `s`
has not locked for an update; and a period is closed that `s` has not locked.

Everything that a session has checked stays true beside it.
-/

namespace FundLedger

open Lib

/-- No claim of the session clashes with the demand. -/
def Session.Admits (s : Session) (d : Demand) : Prop := ∀ c, s.Claims c → ¬d.Clash c

structure Beside (s : Session) (db db' : Db) : Prop where
  funds : db'.funds = db.funds
  lps : db'.lps = db.lps
  commitments : db'.commitments = db.commitments
  fxRates : db'.fxRates = db.fxRates
  accounts : db.accounts.rows <+: db'.accounts.rows
  transfers : ∃ ts, db'.transfers.rows = db.transfers.rows ++ ts ∧
    ∀ t ∈ ts, s.Admits (.row (.transfer t))
  entries : ∃ es, db'.entries.rows = db.entries.rows ++ es ∧ ∀ e ∈ es,
    s.Admits (.row (.entry e)) ∧ s.Admits (.lock (.account e.account) .update) ∧
      ∃ p, entryPeriod db' e = some p ∧ s.Admits (.lock (.period p) .share)
  capitalCalls : ∃ cs, db'.capitalCalls.rows = db.capitalCalls.rows ++ cs ∧ ∀ c ∈ cs,
    s.Admits (.row (.capitalCall c)) ∧ s.Admits (.lock (.fund c.fund) .update)
  distributions : ∃ ds, db'.distributions.rows = db.distributions.rows ++ ds ∧ ∀ d ∈ ds,
    s.Admits (.row (.distribution d)) ∧ s.Admits (.lock (.fund d.fund) .update)
  periods : ∃ f, db'.periods.rows = db.periods.rows.map f ∧ ∀ p : Period, f p = p ∨
    s.Admits (.lock (.period p.id) .update) ∧ ∃ now closedBy, f p = p.close now closedBy

/-! ## Locks keep others out -/

theorem Session.not_admits_update {s : Session} {r : Resource} {mode : LockMode}
    (h : (r, mode) ∈ s.locks) : ¬s.Admits (.lock r .update) :=
  fun hadmits => hadmits (.lock r mode) h ⟨rfl, fun hboth => nomatch hboth.1⟩

theorem Session.not_admits_share {s : Session} {r : Resource}
    (h : (r, .update) ∈ s.locks) : ¬s.Admits (.lock r .share) :=
  fun hadmits => hadmits (.lock r .update) h ⟨rfl, fun hboth => nomatch hboth.2⟩

/-- A row that is admitted differs from the uncommitted ones. -/
theorem Session.Admits.not_clash {s : Session} {w x : Write} (h : s.Admits (.row w))
    (hx : x ∈ s.writes) : ¬w.Clash x :=
  h (.row x) hx

namespace Beside

variable {s : Session} {db db' : Db}

theorem extended (h : Beside s db db') : Extends db db' := by
  obtain ⟨ts, hts, -⟩ := h.transfers
  obtain ⟨es, hes, -⟩ := h.entries
  obtain ⟨cs, hcs, -⟩ := h.capitalCalls
  obtain ⟨ds, hds, -⟩ := h.distributions
  obtain ⟨f, hf, hcases⟩ := h.periods
  refine ⟨h.funds, h.lps, h.commitments, ⟨f, fun p => ?_, hf⟩, h.accounts, ⟨ts, hts.symm⟩,
    ⟨es, hes.symm⟩, ⟨cs, hcs.symm⟩, ⟨ds, hds.symm⟩⟩
  rcases hcases p with hsame | ⟨-, now, closedBy, hclose⟩
  · rw [hsame]
    exact ⟨rfl, rfl, rfl, rfl⟩
  · rw [hclose]
    exact ⟨rfl, rfl, rfl, rfl⟩

theorem refl (s : Session) (db : Db) : Beside s db db :=
  ⟨rfl, rfl, rfl, rfl, List.prefix_refl _, ⟨[], by simp, by simp⟩, ⟨[], by simp, by simp⟩,
    ⟨[], by simp, by simp⟩, ⟨[], by simp, by simp⟩, ⟨id, by simp, fun _ => .inl rfl⟩⟩

private theorem append_rows {α : Type} {a b c : List α} {I : α → Prop}
    (h₁ : ∃ l, b = a ++ l ∧ ∀ x ∈ l, I x) (h₂ : ∃ l, c = b ++ l ∧ ∀ x ∈ l, I x) :
    ∃ l, c = a ++ l ∧ ∀ x ∈ l, I x := by
  obtain ⟨l₁, rfl, hl₁⟩ := h₁
  obtain ⟨l₂, rfl, hl₂⟩ := h₂
  refine ⟨l₁ ++ l₂, List.append_assoc a l₁ l₂, fun x hx => ?_⟩
  rcases List.mem_append.mp hx with hx | hx
  · exact hl₁ x hx
  · exact hl₂ x hx

theorem trans {db'' : Db} (h₁ : Beside s db db') (h₂ : Beside s db' db'') :
    Beside s db db'' := by
  refine ⟨h₂.funds.trans h₁.funds, h₂.lps.trans h₁.lps, h₂.commitments.trans h₁.commitments,
    h₂.fxRates.trans h₁.fxRates, h₁.accounts.trans h₂.accounts,
    append_rows h₁.transfers h₂.transfers, append_rows ?_ h₂.entries,
    append_rows h₁.capitalCalls h₂.capitalCalls, append_rows h₁.distributions h₂.distributions, ?_⟩
  · obtain ⟨es, hes, hnew⟩ := h₁.entries
    refine ⟨es, hes, fun e he => ?_⟩
    obtain ⟨hrow, hacc, p, hp, hadmits⟩ := hnew e he
    obtain ⟨t, ht, htp⟩ := Option.map_eq_some_iff.mp hp
    have hp' : entryPeriod db'' e = some p := by
      rw [entryPeriod, h₂.extended.getTransfer ht, Option.map_some, htp]
    exact ⟨hrow, hacc, p, hp', hadmits⟩
  · obtain ⟨f, hf, hfc⟩ := h₁.periods
    obtain ⟨g, hg, hgc⟩ := h₂.periods
    refine ⟨g ∘ f, by rw [hg, hf, List.map_map], fun p => ?_⟩
    rw [Function.comp_apply]
    rcases hfc p with hsame | ⟨hadmits, now, closedBy, hclose⟩
    · rw [hsame]
      exact hgc p
    · rw [hclose]
      rcases hgc (p.close now closedBy) with hsame | ⟨-, now', closedBy', hclose'⟩
      · exact .inr ⟨hadmits, now, closedBy, hsame⟩
      · exact .inr ⟨hadmits, now', closedBy', hclose'⟩

/-! ## Prices and balances -/

theorem lockAccounts (h : Beside s db db') {legs : List ValidLeg} {accounts : List Account}
    (hlock : FundLedger.lockAccounts db legs = .ok accounts) :
    FundLedger.lockAccounts db' legs = .ok accounts := by
  have hall : ∀ {l : List Uuid}, (l.filterMap db.accounts.get?).length = l.length →
      ∀ i ∈ l, db'.accounts.get? i = db.accounts.get? i := by
    intro l hlen i hi
    obtain ⟨a, ha⟩ := Option.isSome_iff_exists.mp (List.filterMap_length_eq_length.mp hlen i hi)
    rw [ha]
    exact find?_of_prefix h.accounts ha
  unfold FundLedger.lockAccounts at hlock ⊢
  dsimp only at hlock ⊢
  split at hlock
  · cases hlock
  · rename_i hlen
    rw [List.filterMap_congr (hall (not_not.mp hlen)), if_neg hlen]
    exact hlock

theorem priceLegs_congr (hrates : db'.fxRates = db.fxRates) (legs : List ValidLeg)
    (accounts : List Account) (base : String) (fxDate : Date) :
    priceLegs db' legs accounts base fxDate = priceLegs db legs accounts base fxDate := by
  have hrate : fxRateFor db' = fxRateFor db := by
    funext c c' on
    rw [fxRateFor, fxRateFor, hrates]
  have hleg : priceLeg db' accounts base fxDate = priceLeg db accounts base fxDate := by
    funext leg
    rw [priceLeg, priceLeg]
    simp only [legRate, hrate]
  rw [priceLegs, priceLegs, hleg]

theorem pricePosting (h : Beside s db db') {env : Env} {a : Posting} {legs : List ValidLeg}
    {priced : List PricedLeg} (hp : FundLedger.pricePosting env db a legs = .ok priced) :
    FundLedger.pricePosting env db' a legs = .ok priced := by
  simp only [FundLedger.pricePosting, except_bind_ok] at hp ⊢
  obtain ⟨accounts, hlock, u, hctx, base, hbase, rest⟩ := hp
  have hbase' : baseCurrencyOf db' a.period = .ok base := by
    rw [← hbase, baseCurrencyOf, baseCurrencyOf, h.funds]
  rw [← priceLegs_congr h.fxRates] at rest
  exact ⟨accounts, h.lockAccounts hlock, u, hctx, base, hbase', rest⟩

/-- The entries of a locked account are still the same. -/
theorem accountEntries (h : Beside s db db') {account : Uuid} {mode : LockMode}
    (hlock : (.account account, mode) ∈ s.locks) (asOf : Option Timestamp) :
    accountEntries db' account asOf = FundLedger.accountEntries db account asOf := by
  obtain ⟨es, hes, hnew⟩ := h.entries
  have hnil : (es.filter fun e => e.account = account ∧ asOfCut asOf e) = [] := by
    refine List.filter_eq_nil_iff.mpr fun e he hboth => ?_
    obtain ⟨rfl, -⟩ := of_decide_eq_true hboth
    exact Session.not_admits_update hlock (hnew e he).2.1
  rw [FundLedger.accountEntries, FundLedger.accountEntries, hes, List.filter_append, hnil,
    List.append_nil]

theorem nativeBalance (h : Beside s db db') {account : Uuid} {mode : LockMode}
    (hlock : (.account account, mode) ∈ s.locks) :
    nativeBalance db' account = FundLedger.nativeBalance db account := by
  rw [FundLedger.nativeBalance, FundLedger.nativeBalance, h.accountEntries hlock]

/-! ## Periods -/

/-- A period that is locked at all is not closed by others. -/
theorem getPeriod (h : Beside s db db') {i : Uuid} {mode : LockMode}
    (hlock : (.period i, mode) ∈ s.locks) : db'.periods.get? i = db.periods.get? i := by
  obtain ⟨f, hf, hcases⟩ := h.periods
  have hid : ∀ p, (f p).id = p.id := by
    intro p
    rcases hcases p with hsame | ⟨-, now, closedBy, hclose⟩
    · rw [hsame]
    · rw [hclose]
      rfl
  have hfind : db'.periods.get? i = (db.periods.get? i).map f := by
    rw [Table.get?, Table.get?, hf, List.find?_map]
    congr 2
    funext p
    rw [Function.comp_apply, hid]
  rw [hfind]
  cases hget : db.periods.get? i with
  | none => rfl
  | some p =>
    obtain rfl := Table.key_of_get? hget
    rcases hcases p with hsame | ⟨hadmits, -⟩
    · rw [Option.map_some, hsame]
    · exact absurd hadmits (Session.not_admits_update hlock)

/-- Closed periods stay closed. -/
theorem earlierClosed (h : Beside s db db') {fund : Uuid} {period : Period}
    (he : EarlierClosed db fund period) : EarlierClosed db' fund period := by
  obtain ⟨f, hf, hcases⟩ := h.periods
  intro q hq
  rw [hf] at hq
  obtain ⟨p, hp, rfl⟩ := List.mem_map.mp hq
  rcases hcases p with hsame | ⟨-, now, closedBy, hclose⟩
  · rw [hsame]
    exact he p hp
  · rw [hclose]
    exact fun hopen => nomatch hopen.2.2

/-- The entries of a period that is locked for an update are still the same. -/
theorem periodImbalance (h : Beside s db db') (hlinked : Linked db) {i : Uuid}
    (hlock : (.period i, .update) ∈ s.locks) :
    periodImbalance db' i = FundLedger.periodImbalance db i := by
  obtain ⟨es, hes, hnew⟩ := h.entries
  have hnil : (es.filter fun e => entryPeriod db' e = some i) = [] := by
    refine List.filter_eq_nil_iff.mpr fun e he hperiod => ?_
    obtain ⟨-, -, p, hp, hadmits⟩ := hnew e he
    obtain rfl := Option.some.inj (hp.symm.trans (of_decide_eq_true hperiod))
    exact Session.not_admits_share hlock hadmits
  have hold : ∀ e ∈ db.entries.rows, entryPeriod db' e = entryPeriod db e := by
    intro e he
    obtain ⟨t, ht, hte⟩ := hlinked e he
    have hget : db.transfers.get? e.transfer = some t := Table.get?_eq_some.mpr ⟨ht, hte⟩
    rw [entryPeriod, entryPeriod, hget, h.extended.getTransfer hget]
  rw [FundLedger.periodImbalance, FundLedger.periodImbalance, hes, List.filter_append, hnil,
    List.append_nil, List.filter_congr fun e he => by rw [hold e he]]

/-! ## Rows -/

/-- A row that could be inserted still can. -/
theorem insertTransfer (h : Beside s db db') {t : Transfer} (hw : .transfer t ∈ s.writes)
    (hins : ∃ db₁, insertTransfer db t = .ok db₁) :
    ∃ db₁, FundLedger.insertTransfer db' t = .ok db₁ := by
  obtain ⟨ts, hts, hadmits⟩ := h.transfers
  obtain ⟨db₁, hins⟩ := hins
  simp only [FundLedger.insertTransfer, except_bind_ok, require_eq_ok, orRaise_eq_ok,
    except_pure] at hins ⊢
  obtain ⟨_, hlen, _, hkey, _, hrev, _, hrevt, transfers, hrow, _, hkeys, _, hrevs, _, hperiod,
    _, htarget, -⟩ := hins
  have hnew : ∀ u ∈ ts, u.id ≠ t.id ∧ u.idempotencyKey ≠ t.idempotencyKey ∧
      ¬(t.reverses.isSome ∧ u.reverses = t.reverses) := by
    intro u hu
    have hclash := (hadmits u hu).not_clash hw
    refine ⟨fun heq => hclash (.inl heq), fun heq => hclash (.inr (.inl heq)), ?_⟩
    rintro ⟨hsome, heq⟩
    exact hclash (.inr (.inr ⟨heq ▸ hsome, heq.symm⟩))
  have hmem : ∀ u, u ∈ db'.transfers.rows ↔ u ∈ db.transfers.rows ∨ u ∈ ts := by
    intro u
    rw [hts, List.mem_append]
  obtain ⟨transfers', hrow'⟩ : ∃ transfers', db'.transfers.insert t = some transfers' := by
    cases hrow' : db'.transfers.insert t with
    | some transfers' => exact ⟨transfers', rfl⟩
    | none =>
      obtain ⟨u, hu, hid⟩ := Table.insert_eq_none.mp hrow'
      rcases (hmem u).mp hu with hu | hu
      · exact absurd hid ((Table.insert_eq_some.mp hrow).1 u hu)
      · exact absurd hid (hnew u hu).1
  refine ⟨_, (), hlen, (), hkey, (), hrev, (), hrevt, transfers', hrow', (), ?_, (), ?_, (), ?_,
    (), ?_, rfl⟩
  · intro u hu
    rcases (hmem u).mp hu with hu | hu
    · exact hkeys u hu
    · exact (hnew u hu).2.1
  · intro u hu
    rcases (hmem u).mp hu with hu | hu
    · exact hrevs u hu
    · exact (hnew u hu).2.2
  · obtain ⟨p, hp, hpt⟩ := hperiod
    obtain ⟨q, hq, -⟩ := h.extended.getPeriod (Table.get?_eq_some.mpr ⟨hp, hpt⟩)
    obtain ⟨hqm, hqt⟩ := Table.get?_eq_some.mp hq
    exact ⟨q, hqm, hqt⟩
  · intro o ho
    obtain ⟨u, hu, huo⟩ := htarget o ho
    exact ⟨u, (hmem u).mpr (.inl hu), huo⟩

theorem entryReady (h : Beside s db db') {e : Entry} (hw : .entry e ∈ s.writes)
    (he : EntryReady db e) : EntryReady db' e := by
  obtain ⟨es, hes, hnew⟩ := h.entries
  obtain ⟨a, ha, hae⟩ := he.account
  refine ⟨he.amount_pos, he.baseAmount_pos, he.iso4217, he.fxRate_pos,
    ⟨a, h.accounts.subset ha, hae⟩, fun f hf => ?_⟩
  rw [← Table.mem_rows, hes, List.mem_append] at hf
  rcases hf with hf | hf
  · exact he.fresh f hf
  · exact (hnew f hf).1.not_clash hw

/-- The rows of a posting can still be inserted. -/
theorem recorded (h : Beside s db db') {t : Transfer} {es : List Entry}
    (hrec : Recorded db t es) (ht : .transfer t ∈ s.writes)
    (hes : ∀ e ∈ es, .entry e ∈ s.writes)
    (hlock : es ≠ [] → (.period t.period, .share) ∈ s.locks) : Recorded db' t es := by
  refine ⟨h.insertTransfer ht hrec.transfer, hrec.entry_transfer,
    fun e he => h.entryReady (hes e he) (hrec.ready e he), hrec.nodup, fun hne => ?_⟩
  rw [h.getPeriod (hlock hne)]
  exact hrec.period hne

/-! ## Documents -/

/-- Nobody else takes a number of a fund that is locked. -/
theorem nextNumber (h : Beside s db db') {d : DocumentRequest} {mode : LockMode}
    (hlock : (.fund d.fundId, mode) ∈ s.locks) : d.nextNumber db' = d.nextNumber db := by
  cases d with
  | capitalCall fundId =>
    obtain ⟨cs, hcs, hnew⟩ := h.capitalCalls
    have hnil : (cs.filter fun c => c.fund = fundId) = [] := by
      refine List.filter_eq_nil_iff.mpr fun c hc hfund => ?_
      obtain rfl := of_decide_eq_true hfund
      exact Session.not_admits_update hlock (hnew c hc).2
    show nextCallNumber db' fundId = nextCallNumber db fundId
    rw [nextCallNumber, nextCallNumber, hcs, List.filter_append, hnil, List.append_nil]
  | distribution fundId =>
    obtain ⟨ds, hds, hnew⟩ := h.distributions
    have hnil : (ds.filter fun d => d.fund = fundId) = [] := by
      refine List.filter_eq_nil_iff.mpr fun d hd hfund => ?_
      obtain rfl := of_decide_eq_true hfund
      exact Session.not_admits_update hlock (hnew d hd).2
    show nextDistributionNumber db' fundId = nextDistributionNumber db fundId
    rw [nextDistributionNumber, nextDistributionNumber, hds, List.filter_append, hnil,
      List.append_nil]

/-- The insert of a document reads the documents only. -/
theorem runDocument_congr {d : DocumentRequest} {id transfer : Uuid} {number : ℕ} {units : Money}
    (hcalls : db'.capitalCalls = db.capitalCalls) (hdists : db'.distributions = db.distributions)
    (hrun : ∃ db₁, (d.row id number units transfer).run db = .ok db₁) :
    ∃ db₁, (d.row id number units transfer).run db' = .ok db₁ := by
  obtain ⟨db₁, hrun⟩ := hrun
  cases d with
  | capitalCall =>
    simp only [DocumentRequest.row, Write.run, insertCapitalCall, except_bind_ok,
      except_pure] at hrun ⊢
    rw [hcalls]
    obtain ⟨u₁, h₁, u₂, h₂, calls, h₃, u₃, h₄, u₄, h₅, -⟩ := hrun
    exact ⟨_, u₁, h₁, u₂, h₂, calls, h₃, u₃, h₄, u₄, h₅, rfl⟩
  | distribution =>
    simp only [DocumentRequest.row, Write.run, insertDistribution, except_bind_ok,
      except_pure] at hrun ⊢
    rw [hdists]
    obtain ⟨u₁, h₁, dists, h₃, u₃, h₄, u₄, h₅, -⟩ := hrun
    exact ⟨_, u₁, h₁, dists, h₃, u₃, h₄, u₄, h₅, rfl⟩

/-- A document that could be inserted still can. -/
theorem runDocument (h : Beside s db db') {d : DocumentRequest} {id transfer : Uuid} {number : ℕ}
    {units : Money} (hw : d.row id number units transfer ∈ s.writes)
    (hrun : ∃ db₁, (d.row id number units transfer).run db = .ok db₁) :
    ∃ db₁, (d.row id number units transfer).run db' = .ok db₁ := by
  obtain ⟨db₁, hrun⟩ := hrun
  cases d with
  | capitalCall fundId total notice due =>
    obtain ⟨cs, hcs, hnew⟩ := h.capitalCalls
    simp only [DocumentRequest.row, Write.run, insertCapitalCall, except_bind_ok, require_eq_ok,
      orRaise_eq_ok, except_pure] at hrun hw ⊢
    obtain ⟨_, hpos, _, hdue, calls, hrow, _, hnum, _, htransfer, -⟩ := hrun
    have hfree := fun c hc => (hnew c hc).1.not_clash hw
    have hmem : ∀ c, c ∈ db'.capitalCalls.rows ↔ c ∈ db.capitalCalls.rows ∨ c ∈ cs := by
      intro c
      rw [hcs, List.mem_append]
    have hins : ∃ calls', db'.capitalCalls.insert
        ⟨id, fundId, number, notice, due, units, transfer⟩ = some calls' := by
      refine Option.ne_none_iff_exists'.mp fun hnone => ?_
      obtain ⟨c, hc, hid⟩ := Table.insert_eq_none.mp hnone
      rcases (hmem c).mp hc with hc | hc
      · exact (Table.insert_eq_some.mp hrow).1 c hc hid
      · exact hfree c hc (.inl hid)
    obtain ⟨calls', hins⟩ := hins
    refine ⟨_, (), hpos, (), hdue, calls', hins, (), fun c hc => ?_, (), fun c hc => ?_, rfl⟩
    · rcases (hmem c).mp hc with hc | hc
      · exact hnum c hc
      · exact fun heq => hfree c hc (.inr (.inl heq))
    · rcases (hmem c).mp hc with hc | hc
      · exact htransfer c hc
      · exact fun heq => hfree c hc (.inr (.inr heq))
  | distribution fundId total payment classification =>
    obtain ⟨ds, hds, hnew⟩ := h.distributions
    simp only [DocumentRequest.row, Write.run, insertDistribution, except_bind_ok, require_eq_ok,
      orRaise_eq_ok, except_pure] at hrun hw ⊢
    obtain ⟨_, hpos, dists, hrow, _, hnum, _, htransfer, -⟩ := hrun
    have hfree := fun d hd => (hnew d hd).1.not_clash hw
    have hmem : ∀ d, d ∈ db'.distributions.rows ↔ d ∈ db.distributions.rows ∨ d ∈ ds := by
      intro d
      rw [hds, List.mem_append]
    have hins : ∃ dists', db'.distributions.insert
        ⟨id, fundId, number, payment, units, classification, transfer⟩ = some dists' := by
      refine Option.ne_none_iff_exists'.mp fun hnone => ?_
      obtain ⟨d, hd, hid⟩ := Table.insert_eq_none.mp hnone
      rcases (hmem d).mp hd with hd | hd
      · exact (Table.insert_eq_some.mp hrow).1 d hd hid
      · exact hfree d hd (.inl hid)
    obtain ⟨dists', hins⟩ := hins
    refine ⟨_, (), hpos, dists', hins, (), fun d hd => ?_, (), fun d hd => ?_, rfl⟩
    · rcases (hmem d).mp hd with hd | hd
      · exact hnum d hd
      · exact fun heq => hfree d hd (.inr (.inl heq))
    · rcases (hmem d).mp hd with hd | hd
      · exact htransfer d hd
      · exact fun heq => hfree d hd (.inr (.inr heq))

end Beside

end FundLedger
