import FundLedger.Concurrency.Beside
import FundLedger.Ledger.Funds

/-!
# What holds while services run concurrently

`Session.Ok` says, phase by phase, what a session has checked so far, about the
database as it is now: the others do not change it, since they stay beside the
session.  So when a session commits, the sequential service would do the same
to the committed database at that moment.  `Serial` is the run of the
sequential services, in the order of the commits, that the record of events
describes, and `concurrent_serial` that there is always one.
-/

namespace FundLedger

open Lib

/-! ## The serial run -/

/-- The document of a posting, if there is one, is inserted. -/
def Ticket.Documented (t : Ticket) (db db' : Db) : Prop :=
  match t.document with
  | none => db' = db
  | some (d, number) => ∃ units, storedAmount d.totalAmount = .ok units ∧
      (d.row (t.env.uuid4 .document) number units t.transfer.id).run db = .ok db'

/-- The posting for a document has the next number, and its legs were planned
for this database or an earlier one. -/
def Ticket.Planned (t : Ticket) (db : Db) : Prop :=
  ∀ d number, t.document = some (d, number) → number = d.nextNumber db ∧
    ∃ env before plan key requestHash createdBy, Extends before db ∧
      d.plan env before = .ok plan ∧
      t.posting = d.posting { plan with number } key requestHash createdBy

/-- What is known of a plain posting was so in this database or an earlier one. -/
def Ticket.Known (Q : Db → Posting → Prop) (t : Ticket) (db : Db) : Prop :=
  t.document = none → ∃ before, Extends before db ∧ Q before t.posting

/-- What the sequential service does, for each event. -/
inductive SerialStep (Q : Db → Posting → Prop) : Event → Db → Db → Prop
  | posted {db db₁ db' : Db} {t : Ticket} (planned : t.Planned db) (known : t.Known Q db)
      (posted : postTransfer t.env t.posting db = (.ok t.transfer, db₁))
      (documented : t.Documented db₁ db') : SerialStep Q (.posted t) db db'
  | refused {db : Db} {t : Ticket} {e : Exc}
      (refused : preparePosting t.env db t.posting t.legs = .error e) :
      SerialStep Q (.refused t e) db db
  | closed {db db' : Db} {c : Closing} {p : Period}
      (closed : closePeriod c.env c.fundId c.periodId c.closedBy db = (.ok (p, true), db')) :
      SerialStep Q (.closed c) db db'
  | opened {db db' : Db} {a : Account} (inserted : insertAccount db a = .ok db')
      (standard : accountCode a.accountType a.currency a.ownerLp = .ok a.code) :
      SerialStep Q (.opened a) db db'

/-- The sequential services, run in the order of the events. -/
inductive Serial (Q : Db → Posting → Prop) : Db → List Event → Db → Prop
  | nil {db : Db} : Serial Q db [] db
  | cons {start db db' : Db} {e : Event} {log : List Event} (first : SerialStep Q e start db)
      (rest : Serial Q db log db') : Serial Q start (e :: log) db'

theorem Serial.append {Q : Db → Posting → Prop} {a b c : Db} {l m : List Event}
    (h : Serial Q a l b) (h' : Serial Q b m c) : Serial Q a (l ++ m) c := by
  induction h with
  | nil => exact h'
  | cons first rest ih => exact .cons first (ih h')

/-- One more event. -/
theorem Serial.snoc {Q : Db → Posting → Prop} {a b c : Db} {l : List Event} {e : Event}
    (h : Serial Q a l b) (last : SerialStep Q e b c) : Serial Q a (l ++ [e]) c :=
  h.append (.cons last .nil)

/-! ## Assertions of a session -/

namespace Session

variable (Q : Db → Posting → Prop) (db : Db) (s : Session)

def HasFund (d : DocumentRequest) : Prop := (.fund d.fundId, .update) ∈ s.locks

def HasAccounts (t : Ticket) : Prop := ∀ i ∈ lockOrder t.legs, (.account i, .update) ∈ s.locks

/-- What is known of a ticket from the start. -/
structure Ticketed (t : Ticket) : Prop where
  planned : t.Planned db
  known : t.Known Q db
  fund : ∀ d number, t.document = some (d, number) → s.HasFund d

/-- All checks have passed. -/
structure Cleared (t : Ticket) (priced : List PricedLeg) : Prop where
  accounts : s.HasAccounts t
  prepared : preparePosting t.env db t.posting t.legs = .ok priced

/-- The transfer and the entries `done` are inserted, then `documents`. -/
structure Inserted (t : Ticket) (priced : List PricedLeg) (done todo : List Entry)
    (documents : List Write) : Prop where
  rows : entriesFor t.env t.transfer.id priced = .ok (done ++ todo)
  writes : s.writes = postingRows t.transfer done ++ documents
  recorded : Recorded db t.transfer done
  period : done ≠ [] → (.period t.posting.period.id, .share) ∈ s.locks

/-- The period is locked, and found. -/
structure Holds (c : Closing) (period : Period) : Prop where
  locked : (.period c.periodId, .update) ∈ s.locks
  found : periodOfFund db c.fundId c.periodId = .ok period

/-- It is open, and the earlier ones are not. -/
structure Closable (c : Closing) (period : Period) : Prop extends Holds db s c period where
  status_open : period.status ≠ .CLOSED
  earlier : EarlierClosed db c.fundId period

/-- The assertion of each phase. -/
def Ok : Prop :=
  match s.phase with
  | .idle => s.writes = []
  | .begun _ => s.writes = []
  | .planning c => s.writes = [] ∧ s.HasFund c.document
  | .numbering c plan => s.writes = [] ∧ s.HasFund c.document ∧
      ∃ before, Extends before db ∧ c.document.plan c.env before = .ok plan
  | .locking t todo => s.writes = [] ∧ Ticketed Q db s t ∧
      ∀ i ∈ lockOrder t.legs, i ∈ todo ∨ (.account i, .update) ∈ s.locks
  | .checking t priced todo => s.writes = [] ∧ Ticketed Q db s t ∧ s.HasAccounts t ∧
      pricePosting t.env db t.posting t.legs = .ok priced ∧
      ∃ done, fundDeltas priced = done ++ todo ∧
        ∀ d ∈ done, checkDelta (fun account => nativeBalance db account) d = .ok ()
  | .inserting t priced todo => Ticketed Q db s t ∧ Cleared db s t priced ∧
      ∃ done, Inserted db s t priced done todo []
  | .posted t priced => Ticketed Q db s t ∧ Cleared db s t priced ∧
      ∃ es, Inserted db s t priced es [] [] ∧ sumBy Entry.signedBaseAmount es = 0
  | .documented t priced => Ticketed Q db s t ∧ Cleared db s t priced ∧
      ∃ es d number units, t.document = some (d, number) ∧ storedAmount d.totalAmount = .ok units ∧
        Inserted db s t priced es [] [d.row (t.env.uuid4 .document) number units t.transfer.id] ∧
        sumBy Entry.signedBaseAmount es = 0 ∧
        ∃ db', (d.row (t.env.uuid4 .document) number units t.transfer.id).run db = .ok db'
  | .closingBegun _ => s.writes = []
  | .closing c period => s.writes = [] ∧ Holds db s c period
  | .inOrder c period => s.writes = [] ∧ Closable db s c period
  | .reconciled c period => s.writes = [] ∧ Closable db s c period ∧
      periodImbalance db period.id = 0
  | .closed c period => s.writes = [.closed period.id c.env.now c.closedBy] ∧
      Closable db s c period ∧ periodImbalance db period.id = 0 ∧ c.closedBy.length ≤ 150

end Session

/-! ## The others leave them alone -/

/-- The overdraft check is about accounts of the legs. -/
theorem mem_lockOrder_of_fundDeltas {env : Env} {db : Db} {a : Posting} {legs : List ValidLeg}
    {priced : List PricedLeg} (h : pricePosting env db a legs = .ok priced) {d : Uuid × Dec}
    (hd : d ∈ fundDeltas priced) : d.1 ∈ lockOrder legs := by
  simp only [pricePosting, except_bind_ok, except_pure] at h
  obtain ⟨accounts, -, -, -, base, -, priced', hprice, -, -, rfl⟩ := h
  obtain ⟨p, hp, -, hpd⟩ := ((fundDeltas_spec priced').2.2 d.1).mp (List.mem_map_of_mem hd)
  obtain ⟨v, hv, hpv⟩ := forall₂_exists_left (priceLegs_ok hprice) hp
  exact mem_lockOrder.mpr ⟨v, hv, hpv.2.1.symm.trans hpd⟩

section

variable {Q : Db → Posting → Prop} {db db' : Db} {s : Session} {t : Ticket}
  {priced : List PricedLeg}

theorem checkDelta_congr {balance balance' : Uuid → Money} {d : Uuid × Dec}
    (h : balance' d.1 = balance d.1) : checkDelta balance' d = checkDelta balance d := by
  rw [checkDelta, checkDelta, h]

/-- A balance check on a locked account keeps its answer. -/
theorem checkDelta_beside (h : Beside s db db') (haccounts : s.HasAccounts t)
    (hpriced : pricePosting t.env db t.posting t.legs = .ok priced) {d : Uuid × Dec}
    (hd : d ∈ fundDeltas priced) :
    checkDelta (fun account => nativeBalance db' account) d =
      checkDelta (fun account => nativeBalance db account) d :=
  checkDelta_congr (h.nativeBalance (haccounts _ (mem_lockOrder_of_fundDeltas hpriced hd)))

/-- Pricing and the balance checks together. -/
theorem preparePosting_ok_iff {env : Env} {a : Posting} {legs : List ValidLeg} :
    preparePosting env db a legs = .ok priced ↔ pricePosting env db a legs = .ok priced ∧
      ∀ d ∈ fundDeltas priced,
        checkDelta (fun account => nativeBalance db account) d = .ok () := by
  rw [preparePosting_eq]
  simp only [except_bind_ok, except_pure, checkSufficientFunds_eq]
  constructor
  · rintro ⟨priced', hprice, u, hfunds, rfl⟩
    exact ⟨hprice, forM_except_ok.mp hfunds⟩
  · rintro ⟨hprice, hfunds⟩
    exact ⟨priced, hprice, (), forM_except_ok.mpr hfunds, rfl⟩

theorem Session.Ticketed.beside (h : Session.Ticketed Q db s t) (hb : Beside s db db') :
    Session.Ticketed Q db' s t := by
  constructor
  · intro d number hd
    obtain ⟨hnumber, env, before, plan, key, requestHash, createdBy, hx, hplan, hposting⟩ :=
      h.planned d number hd
    refine ⟨?_, env, before, plan, key, requestHash, createdBy, hx.trans hb.extended, hplan,
      hposting⟩
    rw [hb.nextNumber (h.fund d number hd)]
    exact hnumber
  · intro hnone
    obtain ⟨before, hx, hknown⟩ := h.known hnone
    exact ⟨before, hx.trans hb.extended, hknown⟩
  · exact h.fund

theorem Session.Cleared.beside (h : Session.Cleared db s t priced) (hb : Beside s db db') :
    Session.Cleared db' s t priced := by
  obtain ⟨hprice, hfunds⟩ := preparePosting_ok_iff.mp h.prepared
  refine ⟨h.accounts, preparePosting_ok_iff.mpr ⟨hb.pricePosting hprice, fun d hd => ?_⟩⟩
  rw [checkDelta_beside hb h.accounts hprice hd]
  exact hfunds d hd

theorem Session.Inserted.beside {done todo : List Entry} {documents : List Write}
    (h : Session.Inserted db s t priced done todo documents) (hb : Beside s db db') :
    Session.Inserted db' s t priced done todo documents := by
  refine ⟨h.rows, h.writes, ?_, h.period⟩
  apply hb.recorded h.recorded
  · rw [h.writes]
    exact List.mem_append_left _ List.mem_cons_self
  · intro e he
    rw [h.writes]
    exact List.mem_append_left _ (List.mem_cons_of_mem _ (List.mem_map_of_mem he))
  · exact h.period

theorem Session.Holds.beside {c : Closing} {period : Period} (h : Session.Holds db s c period)
    (hb : Beside s db db') : Session.Holds db' s c period := by
  refine ⟨h.locked, ?_⟩
  rw [periodOfFund, hb.getPeriod h.locked]
  exact h.found

theorem Session.Closable.beside {c : Closing} {period : Period}
    (h : Session.Closable db s c period) (hb : Beside s db db') :
    Session.Closable db' s c period :=
  ⟨h.toHolds.beside hb, h.status_open, hb.earlierClosed h.earlier⟩

/-- The id of the period that a closing found. -/
theorem Session.Holds.id_eq {c : Closing} {period : Period} (h : Session.Holds db s c period) :
    period.id = c.periodId := by
  obtain ⟨hget, -⟩ := Option.filter_eq_some_iff.mp (orRaise_eq_ok.mp h.found)
  exact Table.key_of_get? hget

theorem Session.Closable.imbalance {c : Closing} {period : Period}
    (h : Session.Closable db s c period) (hb : Beside s db db') (hlinked : Linked db) :
    periodImbalance db' period.id = periodImbalance db period.id := by
  apply hb.periodImbalance hlinked
  rw [h.id_eq]
  exact h.locked

/-- **Beside a session its assertion stays true.** -/
theorem Session.Ok.beside (h : Session.Ok Q db s) (hb : Beside s db db') (hlinked : Linked db) :
    Session.Ok Q db' s := by
  obtain ⟨phase, locks, writes⟩ := s
  cases phase with
  | idle | begun | planning | closingBegun => exact h
  | numbering c plan =>
    obtain ⟨hwrites, hfund, before, hx, hplan⟩ := h
    exact ⟨hwrites, hfund, before, hx.trans hb.extended, hplan⟩
  | locking t todo =>
    obtain ⟨hwrites, hticket, hlocks⟩ := h
    exact ⟨hwrites, hticket.beside hb, hlocks⟩
  | checking t priced todo =>
    obtain ⟨hwrites, hticket, haccounts, hprice, done, hdeltas, hdone⟩ := h
    refine ⟨hwrites, hticket.beside hb, haccounts, hb.pricePosting hprice, done, hdeltas,
      fun d hd => ?_⟩
    have hmem : d ∈ fundDeltas priced := by
      rw [hdeltas]
      exact List.mem_append_left _ hd
    rw [checkDelta_beside hb haccounts hprice hmem]
    exact hdone d hd
  | inserting t priced todo =>
    obtain ⟨hticket, hcleared, done, hinserted⟩ := h
    exact ⟨hticket.beside hb, hcleared.beside hb, done, hinserted.beside hb⟩
  | posted t priced =>
    obtain ⟨hticket, hcleared, es, hinserted, hzero⟩ := h
    exact ⟨hticket.beside hb, hcleared.beside hb, es, hinserted.beside hb, hzero⟩
  | documented t priced =>
    obtain ⟨hticket, hcleared, es, d, number, units, hd, hunits, hinserted, hzero, hrun⟩ := h
    refine ⟨hticket.beside hb, hcleared.beside hb, es, d, number, units, hd, hunits,
      hinserted.beside hb, hzero, ?_⟩
    apply hb.runDocument _ hrun
    rw [hinserted.writes]
    exact List.mem_append_right _ List.mem_cons_self
  | closing c period =>
    obtain ⟨hwrites, hholds⟩ := h
    exact ⟨hwrites, hholds.beside hb⟩
  | inOrder c period =>
    obtain ⟨hwrites, hclosable⟩ := h
    exact ⟨hwrites, hclosable.beside hb⟩
  | reconciled c period =>
    obtain ⟨hwrites, hclosable, hzero⟩ := h
    exact ⟨hwrites, hclosable.beside hb, (hclosable.imbalance hb hlinked).trans hzero⟩
  | closed c period =>
    obtain ⟨hwrites, hclosable, hzero, hlength⟩ := h
    exact ⟨hwrites, hclosable.beside hb, (hclosable.imbalance hb hlinked).trans hzero, hlength⟩

end

end FundLedger
