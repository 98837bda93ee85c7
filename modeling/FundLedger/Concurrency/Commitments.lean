import FundLedger.Concurrency.Numbers
import FundLedger.Concurrency.Reversals
import FundLedger.Operations.Unfunded

/-!
# Commitments under concurrency

A capital call compares its shares with what is unfunded, and inserts its
entries much later.  In between only reversals can change what a partner has
contributed, since another call of the fund waits for the lock of the fund
row, and reversals only lower it.  So the comparison is still true when the
call is committed.

* `CallLegs` says what the comparison has shown of the legs of a call, and
  `Session.Backed` that it is so for each session that has planned a call.
* `never_called_beyond_commitment` is the result.
-/

namespace FundLedger

open Lib Relation

/-! ## The legs of a call -/

/-- On the capital account `a` of the partner with the commitment `c` the legs
pay in what is unfunded at most. -/
structure CallLegs (db : Db) (fund : Fund) (c : Commitment) (a : Account) (legs : List Leg) :
    Prop where
  no_override : ∀ leg ∈ legs, leg.baseAmount = none
  account : ∀ leg ∈ legs, ∃ b ∈ db.accounts, b.id = leg.accountId ∧ b.currency = fund.baseCurrency
  credit : ∀ leg ∈ legs, leg.accountId = a.id → leg.direction = Direction.CREDIT.value
  unfunded : ∃ share : Dec,
    share.val ≤ c.committedAmount.toDec.val - (contributed db a.id).toDec.val ∧
      sumBy (legMove a.id) legs = -share.val

/-- What is committed, and who pays. -/
structure Partner (db : Db) (fund : Fund) (c : Commitment) (a : Account) : Prop where
  commitment : c ∈ commitmentsOf db fund.id
  account : a ∈ db.accounts
  capital : CapitalAccount fund c.lp a

/-- No call takes anything out of the account, and all of them together pay in
what is committed at most. -/
structure Called (db : Db) (c : Commitment) (a : Account) : Prop where
  calls : ∀ t ∈ db.transfers, t.transferType = .CAPITAL_CALL → 0 ≤ paidIn db a.id t.id
  bounded : contributed db a.id ≤ c.committedAmount

section

variable {db db' : Db} {fund : Fund} {c : Commitment} {a : Account}

/-- The legs of a planned call are on accounts that there are. -/
theorem planCapitalCall_accounts {env : Env} {fundId : Uuid} {total : Amount} {noticeDate : Date}
    {plan : Plan} (h : planCapitalCall env db fundId total noticeDate = .ok plan) {leg : Leg}
    (hleg : leg ∈ plan.legs) : ∃ b ∈ db.accounts, b.id = leg.accountId := by
  obtain ⟨fund, commitments, shares, cash, -, -, -, -, hcash, hlegs, -⟩ := planCapitalCall_ok h
  obtain ⟨lp, -, hdebit | hcredit⟩ := mem_shareLegs hlegs hleg
  · obtain ⟨code, -, hfind⟩ := except_bind_ok.mp hcash
    obtain ⟨hmem, -, -⟩ := findAccount_eq_some (orRaise_eq_ok.mp hfind)
    exact ⟨cash, hmem, Except.ok.inj hdebit⟩
  · cases hlook : lookup (lpCapitalAccounts db fund) lp with
    | error e =>
      rw [hlook] at hcredit
      cases hcredit
    | ok b =>
      rw [hlook] at hcredit
      exact ⟨b, (lookup_capital_mem hlook).1, Except.ok.inj hcredit⟩

/-- **What planning shows.** -/
theorem callLegs_of_plan (ready : Ready db fund) (partner : Partner db fund c a) {env : Env}
    {total : Amount} {noticeDate : Date} {plan : Plan}
    (planned : planCapitalCall env db fund.id total noticeDate = .ok plan) :
    CallLegs db fund c a plan.legs := by
  have hfund : getFund db fund.id = .ok fund :=
    orRaise_eq_ok.mpr (Table.get?_of_mem ready.fund_mem)
  obtain ⟨hplain, hcredit, hshare⟩ :=
    ready.planCapitalCall_legs hfund planned partner.commitment partner.account partner.capital
  refine ⟨fun leg hleg => (hplain leg hleg).no_override, fun leg hleg => ?_, hcredit, hshare⟩
  obtain ⟨b, hb, hbl⟩ := planCapitalCall_accounts planned hleg
  exact ⟨b, hb, hbl, (hplain leg hleg).currency b hb hbl⟩

theorem CallLegs.plain {legs : List Leg} (h : CallLegs db fund c a legs) {leg : Leg}
    (hleg : leg ∈ legs) : PlainLeg db fund.baseCurrency leg := by
  refine ⟨h.no_override leg hleg, fun b hb hbl => ?_⟩
  obtain ⟨b', hb', hbl', hcurrency⟩ := h.account leg hleg
  rw [Table.eq_of_key_eq hb hb' (hbl.trans hbl'.symm)]
  exact hcurrency

/-- **The comparison stays true** as long as no more is contributed. -/
theorem CallLegs.later {legs : List Leg} (h : CallLegs db fund c a legs) (hx : Extends db db')
    (hle : contributed db' a.id ≤ contributed db a.id) : CallLegs db' fund c a legs := by
  refine ⟨h.no_override, fun leg hleg => ?_, h.credit, ?_⟩
  · obtain ⟨b, hb, hbl⟩ := h.account leg hleg
    exact ⟨b, hx.accounts.subset hb, hbl⟩
  · obtain ⟨share, hshare, hmove⟩ := h.unfunded
    refine ⟨share, hshare.trans ?_, hmove⟩
    rw [Money.val_toDec_eq (contributed db a.id), Money.val_toDec_eq (contributed db' a.id)]
    exact sub_le_sub_left (Money.worth_le.mpr hle) _

theorem Partner.later (h : Partner db fund c a) (hx : Extends db db') : Partner db' fund c a := by
  refine ⟨?_, hx.accounts.subset h.account, h.capital⟩
  rw [commitmentsOf, hx.commitments]
  exact h.commitment

/-! ## One posting -/

variable {env : Env} {p : Posting} {es : List Entry}

/-- A call of another fund is not on the account. -/
theorem Posted.group_other_fund (posted : Posted env p db db' es) (partner : Partner db fund c a)
    (hother : p.period.fund ≠ fund.id) : group Entry.account a.id es = [] := by
  apply group_eq_nil
  intro e he hacc
  obtain ⟨b, hb, hbe, hbf⟩ := posted.exists_account he
  obtain rfl : b = a := Table.eq_of_key_eq hb partner.account (hbe.trans hacc)
  exact hother (hbf.symm.trans partner.capital.fund_eq)

/-- **A posted call** pays in no less than nothing, and no more than what is
unfunded. -/
theorem Posted.paidIn_callLegs (posted : Posted env p db db' es) (books : Books db)
    (fund_mem : fund ∈ db.funds) (hperiod : p.period.fund = fund.id)
    (legs : CallLegs db fund c a p.legs) :
    0 ≤ paidIn db' a.id (transferFor env p).id ∧
      contributed db a.id + paidIn db' a.id (transferFor env p).id ≤ c.committedAmount := by
  rw [posted.paidIn_new books]
  have hbase : baseCurrencyOf db p.period = .ok fund.baseCurrency := by
    rw [baseCurrencyOf, hperiod, Table.get?_of_mem fund_mem]
    rfl
  have hrows := posted.legRows hbase fun leg hleg => legs.plain hleg
  constructor
  · apply paidIn_nonneg_of_credits (fun e he => (posted.accepted e he).2.1)
    intro e he hacc
    obtain ⟨leg, hleg, hrow⟩ := forall₂_exists_left hrows he
    have hdirection := legs.credit leg hleg (hrow.account_eq.symm.trans hacc)
    exact Direction.value_injective (hrow.direction_eq.symm.trans hdirection)
  · obtain ⟨share, hshare, hmove⟩ := legs.unfunded
    have hnative : sumBy Entry.signedBaseAmount (group Entry.account a.id es) =
        sumBy Entry.signedAmount (group Entry.account a.id es) := by
      apply sumBy_congr
      intro e he
      obtain ⟨leg, -, hrow⟩ := forall₂_exists_left hrows (mem_group.mp he).1
      exact hrow.signedBaseAmount
    have hpaid : Money.worth (-sumBy Entry.signedBaseAmount (group Entry.account a.id es)) =
        share.val := by
      rw [sumBy_legMove hrows, ← hnative] at hmove
      rw [map_neg, ← neg_eq_iff_eq_neg.mpr hmove]
      rfl
    rw [← hpaid, Money.val_toDec_eq, Money.val_toDec_eq, ← map_sub] at hshare
    have hle := Money.worth_le.mp hshare
    show contributed db a.id + -sumBy Entry.signedBaseAmount (group Entry.account a.id es) ≤ _
    exact le_sub_iff_add_le'.mp hle

/-- What a call pays in is contributed. -/
theorem Posted.contributed_call (posted : Posted env p db db' es) (hback : ReversalBooks db)
    (hback' : ReversalBooks db') (books : Books db) (books' : Books db')
    (hcall : p.transferType = .CAPITAL_CALL) : contributed db' a.id =
      contributed db a.id + paidIn db' a.id (transferFor env p).id := by
  rw [hback'.contributed_eq books', posted.netPaidIn_call hback hcall, if_pos rfl,
    hback.contributed_eq books]

/-- Nothing else adds to it. -/
theorem Posted.contributed_le (posted : Posted env p db db' es) (hback : ReversalBooks db)
    (hback' : ReversalBooks db') (books : Books db) (books' : Books db')
    (known : KnownReversal db p) (called : Called db c a)
    (hother : p.transferType ≠ .CAPITAL_CALL) : contributed db' a.id ≤ contributed db a.id := by
  rw [hback'.contributed_eq books', hback.contributed_eq books]
  exact posted.netPaidIn_le hback known hother called.calls _

theorem Keeps.contributed_eq (keeps : Keeps db db') (hback : ReversalBooks db) (books : Books db)
    (books' : Books db') : contributed db' a.id = contributed db a.id := by
  rw [(keeps.reversalBooks hback).contributed_eq books', keeps.netPaidIn,
    hback.contributed_eq books]

theorem Called.keeps (h : Called db c a) (keeps : Keeps db db') (hback : ReversalBooks db)
    (books : Books db) (books' : Books db') : Called db' c a := by
  refine ⟨fun t ht hcall => ?_, ?_⟩
  · rw [keeps.paidIn]
    exact h.calls t (keeps.transfers ▸ ht) hcall
  · rw [keeps.contributed_eq hback books books']
    exact h.bounded

end

/-! ## The assertions -/

/-- The document that a session has planned, and the legs. -/
def Phase.planned : Phase → Option (DocumentRequest × List Leg)
  | .numbering c plan => some (c.document, plan.legs)
  | phase => phase.ticket.bind fun t => t.document.map fun d => (d.1, t.posting.legs)

/-- A capital call of the fund. -/
def DocumentRequest.Calls (fund : Uuid) : DocumentRequest → Prop
  | .capitalCall fundId .. => fundId = fund
  | .distribution .. => False

/-- A caller of the engine that does not call capital. -/
structure NoCall (db : Db) (a : Posting) : Prop extends Sourced db a where
  not_call : a.transferType ≠ .CAPITAL_CALL

section

variable {fund : Fund} {c : Commitment} {a : Account}

/-- If the session has planned a call of the fund, the comparison is true. -/
def Session.Backed (fund : Fund) (c : Commitment) (a : Account) (w : World) (s : Session) : Prop :=
  ∀ d legs, s.phase.planned = some (d, legs) → d.Calls fund.id → CallLegs w.db fund c a legs

theorem Phase.planned_of_ticket {phase : Phase} {t : Ticket} (ht : phase.ticket = some t)
    {d : DocumentRequest} {number : ℕ} (hd : t.document = some (d, number)) :
    phase.planned = some (d, t.posting.legs) := by
  have hplanned : (phase.ticket.bind fun t => t.document.map fun d => (d.1, t.posting.legs)) =
      some (d, t.posting.legs) := by
    rw [ht, Option.bind_some, hd]
    rfl
  cases phase with
  | numbering => cases ht
  | _ => exact hplanned

theorem Phase.planned_cases {phase : Phase} {d : DocumentRequest} {legs : List Leg}
    (h : phase.planned = some (d, legs)) :
    (∃ c plan, phase = .numbering c plan ∧ c.document = d ∧ plan.legs = legs) ∨
    ∃ t number, phase.ticket = some t ∧ t.document = some (d, number) ∧ t.posting.legs = legs := by
  have hticket : (phase.ticket.bind fun t => t.document.map fun d => (d.1, t.posting.legs)) =
      some (d, legs) → ∃ t number, phase.ticket = some t ∧ t.document = some (d, number) ∧
        t.posting.legs = legs := by
    intro hsome
    obtain ⟨t, ht, hmap⟩ := Option.bind_eq_some_iff.mp hsome
    obtain ⟨⟨d', number⟩, hd, heq⟩ := Option.map_eq_some_iff.mp hmap
    cases heq
    exact ⟨t, number, ht, hd, rfl⟩
  cases phase with
  | numbering c plan =>
    cases h
    exact .inl ⟨c, plan, rfl, rfl, rfl⟩
  | _ => exact .inr (hticket h)

variable {Q : Db → Posting → Prop} {start : Db}

theorem Session.Ok.ticketed {db : Db} {s : Session} (h : s.Ok Q db) {t : Ticket}
    (ht : s.phase.ticket = some t) : Session.Ticketed Q db s t := by
  obtain ⟨phase, locks, writes⟩ := s
  cases phase with
  | locking | checking =>
    cases ht
    exact h.2.1
  | inserting | posted | documented =>
    cases ht
    exact h.1
  | _ => cases ht

/-- Whoever has planned a document has the lock of the fund. -/
theorem Session.Ok.hasFund {db : Db} {s : Session} (h : s.Ok Q db) {d : DocumentRequest}
    {legs : List Leg} (hd : s.phase.planned = some (d, legs)) : s.HasFund d := by
  rcases Phase.planned_cases hd with ⟨c, plan, hphase, rfl, -⟩ | ⟨t, number, ht, hdocument, -⟩
  · obtain ⟨phase, locks, writes⟩ := s
    cases hphase
    exact h.2.1
  · exact (h.ticketed ht).fund d number hdocument

/-- So two sessions do not call capital of one fund. -/
theorem Session.Ok.one_call {db : Db} {s u : Session} (hs : s.Ok Q db) (hu : u.Ok Q db)
    (apart : (services Q).Apart s u) {d e : DocumentRequest} {legs legs' : List Leg}
    (hd : s.phase.planned = some (d, legs)) (he : u.phase.planned = some (e, legs'))
    (hcalls : d.Calls fund.id) : ¬e.Calls fund.id := by
  intro hcalls'
  have hsame : d.fundId = e.fundId := by
    cases d with
    | capitalCall =>
      cases e with
      | capitalCall => exact hcalls.trans hcalls'.symm
      | distribution => exact hcalls'.elim
    | distribution => exact hcalls.elim
  have hlock : (.fund d.fundId, .update) ∈ s.locks := hs.hasFund hd
  have hlock' : (.fund e.fundId, .update) ∈ u.locks := hu.hasFund he
  rw [← hsame] at hlock'
  exact apart (.lock _ _) hlock (.lock _ _) hlock' ⟨rfl, fun hboth => by cases hboth.1⟩

/-- A transfer of the type of a call is posted for a call of its fund. -/
theorem Session.Ticketed.call {db : Db} {s : Session} {t : Ticket}
    (h : Session.Ticketed Q db s t) (hQ : ∀ d p, Q d p → NoCall d p)
    (hcall : t.posting.transferType = .CAPITAL_CALL) : ∃ d number,
      t.document = some (d, number) ∧ d.Calls t.posting.period.fund := by
  cases hdocument : t.document with
  | none =>
    obtain ⟨before, -, hknown⟩ := h.known hdocument
    exact absurd hcall (hQ _ _ hknown).not_call
  | some document =>
    obtain ⟨d, number⟩ := document
    refine ⟨d, number, rfl, ?_⟩
    obtain ⟨-, env, before, plan, key, requestHash, createdBy, -, hplan, hposting⟩ :=
      h.planned d number hdocument
    obtain ⟨-, hfund⟩ := d.plan_period hplan
    rw [hposting, d.posting_period]
    rw [hposting] at hcall
    cases d with
    | capitalCall => exact hfund.symm
    | distribution => cases hcall

/-- Where a run starts, as it concerns one partner. -/
structure Setting (start : Db) (fund : Fund) (c : Commitment) (a : Account) : Prop where
  genesis : Genesis start
  ready : Ready start fund
  partner : Partner start fund c a

theorem World.Ok.ready {w : World} (h : w.Ok Q start) (hQ : ∀ d p, Q d p → Holds d p.period)
    (ready : Ready start fund) : Ready w.db fund :=
  (h.changes hQ).invariant (I := fun d => Ready d fund) (fun _ _ hr hc => hr.change hc) ready

/-- **What a commit does to the contributed amount**: it raises it only if it
is that of a call of the fund. -/
theorem Move.contributed_le {free : Demand → Prop} {w w' : World} {s s' : Session}
    (moved : Move Q free w s w' s') (h : w.Ok Q start) (h' : w'.Ok Q start) (hok : s.Ok Q w.db)
    (hQ : ∀ d p, Q d p → NoCall d p) (setting : Setting start fund c a)
    (hback : TakenBack w.db) (hknows : s.KnowsOriginal w) (called : Called w.db c a)
    (hnone : ∀ d legs, s.phase.planned = some (d, legs) → ¬d.Calls fund.id) :
    contributed w'.db a.id ≤ contributed w.db a.id := by
  have hperiod : ∀ d p, Q d p → Holds d p.period := fun d p hq => (hQ d p hq).period
  have hbooks := h.books hperiod setting.genesis
  have hbooks' := h'.books hperiod setting.genesis
  rcases moved.committed (h.serial.linked h.linked) hok with ⟨keeps, -⟩ |
    ⟨t, db₁, es, ht, -, planned, posted, documented⟩
  · exact (keeps.contributed_eq hback.toReversalBooks hbooks hbooks').le
  · have hknown := hknows.known ht planned
    have hback₁ := posted.reversalBooks hknown hbooks (h.sound hperiod setting.genesis)
      hback.toReversalBooks
    have hbooks₁ : Books db₁ := posted.books (Ticket.holds hperiod planned
      (hok.ticketed ht).known) hbooks
    rw [documented.keeps.contributed_eq hback₁ hbooks₁ hbooks']
    by_cases hcall : t.posting.transferType = .CAPITAL_CALL
    · obtain ⟨d, number, hdocument, hcalls⟩ := (hok.ticketed ht).call hQ hcall
      have hother : t.posting.period.fund ≠ fund.id := by
        intro heq
        rw [heq] at hcalls
        exact hnone d _ (Phase.planned_of_ticket ht hdocument) hcalls
      have hpartner := setting.partner.later (h.changes hperiod).later.extends
      rw [posted.contributed_call hback.toReversalBooks hback₁ hbooks hbooks₁ hcall,
        posted.paidIn_new hbooks, posted.group_other_fund hpartner hother, sumBy_nil, neg_zero,
        add_zero]
    · exact posted.contributed_le hback.toReversalBooks hback₁ hbooks hbooks₁ hknown called hcall

/-- **What a commit does to the bounds.** -/
theorem Move.called {free : Demand → Prop} {w w' : World} {s s' : Session}
    (moved : Move Q free w s w' s') (h : w.Ok Q start) (h' : w'.Ok Q start) (hok : s.Ok Q w.db)
    (hQ : ∀ d p, Q d p → NoCall d p) (setting : Setting start fund c a)
    (hback : TakenBack w.db) (hknows : s.KnowsOriginal w) (called : Called w.db c a)
    (hbacked : s.Backed fund c a w) : Called w'.db c a := by
  have hperiod : ∀ d p, Q d p → Holds d p.period := fun d p hq => (hQ d p hq).period
  have hbooks := h.books hperiod setting.genesis
  have hbooks' := h'.books hperiod setting.genesis
  rcases moved.committed (h.serial.linked h.linked) hok with ⟨keeps, -⟩ |
    ⟨t, db₁, es, ht, -, planned, posted, documented⟩
  · exact called.keeps keeps hback.toReversalBooks hbooks hbooks'
  · have hknown := hknows.known ht planned
    have hback₁ := posted.reversalBooks hknown hbooks (h.sound hperiod setting.genesis)
      hback.toReversalBooks
    have hbooks₁ : Books db₁ := posted.books (Ticket.holds hperiod planned
      (hok.ticketed ht).known) hbooks
    have hpartner := setting.partner.later (h.changes hperiod).later.extends
    -- what a call pays in
    have hnew : t.posting.transferType = .CAPITAL_CALL →
        0 ≤ paidIn db₁ a.id t.transfer.id ∧
          contributed w.db a.id + paidIn db₁ a.id t.transfer.id ≤ c.committedAmount := by
      intro hcall
      obtain ⟨d, number, hdocument, hcalls⟩ := (hok.ticketed ht).call hQ hcall
      by_cases hsame : t.posting.period.fund = fund.id
      · rw [hsame] at hcalls
        have hlegs := hbacked d _ (Phase.planned_of_ticket ht hdocument) hcalls
        exact posted.paidIn_callLegs hbooks (h.ready hperiod setting.ready).fund_mem hsame hlegs
      · show 0 ≤ paidIn db₁ a.id (transferFor t.env t.posting).id ∧
          _ + paidIn db₁ a.id (transferFor t.env t.posting).id ≤ _
        rw [posted.paidIn_new hbooks, posted.group_other_fund hpartner hsame, sumBy_nil, neg_zero,
          add_zero]
        exact ⟨le_rfl, called.bounded⟩
    refine Called.keeps ⟨fun u hu hcall => ?_, ?_⟩ documented.keeps hback₁ hbooks₁ hbooks'
    · rcases posted.mem_transfers.mp hu with hold | rfl
      · rw [posted.paidIn_of_mem a.id hold]
        exact called.calls u hold hcall
      · exact (hnew hcall).1
    · by_cases hcall : t.posting.transferType = .CAPITAL_CALL
      · rw [posted.contributed_call hback.toReversalBooks hback₁ hbooks hbooks₁ hcall]
        exact (hnew hcall).2
      · exact (posted.contributed_le hback.toReversalBooks hback₁ hbooks hbooks₁ hknown called
          hcall).trans called.bounded

/-- The legs of a session that plans are those of its plan. -/
theorem Move.numbering {free : Demand → Prop} {w w' : World} {s s' : Session}
    (moved : Move Q free w s w' s') {d : DocumentCall} {plan : Plan}
    (hphase : s'.phase = .numbering d plan) :
    w'.db = w.db ∧ d.document.plan d.env w.db = .ok plan := by
  cases moved with
  | plan planned =>
    cases hphase
    exact ⟨rfl, planned⟩
  | _ => cases hphase

/-- **A session's own moves** keep its comparison. -/
theorem Move.backed {free : Demand → Prop} {w w' : World} {s s' : Session}
    (moved : Move Q free w s w' s') (h : w.Ok Q start) (hQ : ∀ d p, Q d p → NoCall d p)
    (setting : Setting start fund c a) (hbacked : s.Backed fund c a w) :
    s'.Backed fund c a w' := by
  have hperiod : ∀ d p, Q d p → Holds d p.period := fun d p hq => (hQ d p hq).period
  intro d legs hplanned hcalls
  rcases Phase.planned_cases hplanned with ⟨k, plan, hphase, rfl, rfl⟩ |
    ⟨t', number, ht', hdocument, rfl⟩
  · obtain ⟨hdb, hplan⟩ := moved.numbering hphase
    rw [hdb]
    obtain ⟨env, document, key, requestHash, createdBy⟩ := k
    cases document with
    | capitalCall fundId total noticeDate dueDate =>
      obtain rfl : fundId = fund.id := hcalls
      exact callLegs_of_plan (h.ready hperiod setting.ready)
        (setting.partner.later (h.changes hperiod).later.extends) hplan
    | distribution => exact hcalls.elim
  · obtain ⟨hdb, ⟨t, ht, hposting, hsame⟩ | ⟨hnone, -⟩ | ⟨k, plan, hphase, hlegs, hsome⟩⟩ :=
      moved.ticket ht'
    · rw [hdb, hposting]
      exact hbacked d _ (Phase.planned_of_ticket ht (hsame.symm.trans hdocument)) hcalls
    · cases hnone.symm.trans hdocument
    · obtain ⟨rfl, -⟩ := Prod.mk.inj (Option.some.inj (hsome.symm.trans hdocument))
      rw [hdb, hlegs]
      apply hbacked k.document plan.legs _ hcalls
      rw [hphase]
      rfl

/-- **The assertions about commitments are sound.** -/
theorem called_sound (hQ : ∀ d p, Q d p → NoCall d p) (setting : Setting start fund c a) :
    (services Q).SoundOver (fun w => w.Ok Q start ∧ TakenBack w.db)
      (fun w s => s.Ok Q w.db ∧ s.KnowsOriginal w) (fun w => Called w.db c a)
      fun w s => s.Backed fund c a w := by
  have hperiod : ∀ d p, Q d p → Holds d p.period := fun d p hq => (hQ d p hq).period
  constructor
  · intro free w s w' s' moved h hs called hbacked
    have h' := (services_sound.own moved h.1 hs.1).1
    exact ⟨moved.called h.1 h' hs.1 hQ setting h.2 hs.2 called hbacked,
      moved.backed h.1 hQ setting hbacked⟩
  · intro free w s w' s' u moved h hs called hbacked apart hu hbacked' d legs hplanned hcalls
    have h' := (services_sound.own moved h.1 hs.1).1
    apply (hbacked' d legs hplanned hcalls).later (moved.beside hs.1 apart).extended
    apply moved.contributed_le h.1 h' hs.1 hQ setting h.2 hs.2 called
    -- the lock of the fund keeps other calls out
    intro e legs' he hecalls
    exact Session.Ok.one_call hs.1 hu.1 apart he hplanned hecalls hcalls
  · intro w w' changed h called
    have h' := (services_sound.environment changed h.1).1
    have hkeeps := Environment.keeps changed
    have hbooks := h.1.books hperiod setting.genesis
    have hbooks' := h'.books hperiod setting.genesis
    refine ⟨called.keeps hkeeps h.2.toReversalBooks hbooks hbooks', ?_⟩
    intro u hu hbacked d legs hplanned hcalls
    have hx : Extends w.db w'.db := by
      cases changed with
      | tick => exact .refl _
      | accountOpened inserted => exact (beside_opening (u := u) inserted).extended
    exact (hbacked d legs hplanned hcalls).later hx
      (hkeeps.contributed_eq h.2.toReversalBooks hbooks hbooks').le

end

/-- **No partner is ever called beyond the commitment**, and none has paid in
less than nothing, whatever calls, distributions and reversals run at once. -/
theorem never_called_beyond_commitment {P : Type} [DecidableEq P] {start : Db} {clock : Timestamp}
    {s : Sessions P World Session} {fund : Fund} {c : Commitment} {a : Account}
    (genesis : Genesis start) (ready : Ready start fund) (partner : Partner start fund c a)
    (hrun : (services NoCall).Run (freshSessions start clock) s) :
    0 ≤ contributed s.shared.db a.id ∧ contributed s.shared.db a.id ≤ c.committedAmount := by
  have hQ : ∀ d p, NoCall d p → NoCall d p := fun _ _ h => h
  have hnone : contributed start a.id = 0 := by
    rw [contributed, genesis.entries]
    rfl
  have hcalled : Called start c a := by
    refine ⟨fun t ht => ?_, ?_⟩
    · rw [← Table.mem_rows, genesis.transfers] at ht
      cases ht
    · rw [hnone]
      exact (ready.positive c partner.commitment).le
  have hsound := (called_sound hQ ⟨genesis, ready, partner⟩).sound
    ((takenBack_sound genesis fun d p h => (hQ d p h).toSourced).sound services_sound)
  have hfresh := takenBack_of_run genesis (fun d p h => (hQ d p h).toSourced)
    (.refl : (services NoCall).Run (freshSessions start clock) (freshSessions start clock :
      Sessions P World Session))
  have hend := hsound.run (services_disciplined NoCall) ⟨hfresh.exclusive,
    ⟨hfresh.shared, hcalled⟩, fun p => ⟨hfresh.each p, fun d legs hd => by cases hd⟩⟩ hrun
  obtain ⟨⟨hok, hback⟩, hbounds⟩ := hend.shared
  refine ⟨?_, hbounds.bounded⟩
  rw [hback.contributed_eq (hok.books (fun d p h => (hQ d p h).period) genesis)]
  exact hback.netPaidIn_nonneg hbounds.calls fun _ _ _ _ _ _ _ => rfl

/-- The capital account of the first partner. -/
def partnerAccount : Account where
  id := 105
  fund := 1
  code := "LP-0000000000000000000000000000000b"
  accountType := .LP_CAPITAL
  ownerLp := some 11
  currency := "GBP"

theorem partner_partnerAccount : Partner buildPeFund makeFund
    { id := 31, fund := 1, lp := 11, committedAmount := 6000000 } partnerAccount := by
  have haccount : partnerAccount ∈ buildPeFund.accounts.rows := by decide +kernel
  refine ⟨?_, haccount, rfl, rfl, rfl, rfl⟩
  decide +kernel

/-- A call of 100 takes 60 from the first partner. -/
theorem never_called_beyond_commitment_documentOf100 :
    contributed (afterSteps 16 callBegun).1.db partnerAccount.id = 600000 ∧
    0 ≤ contributed (afterSteps 16 callBegun).1.db partnerAccount.id ∧
    contributed (afterSteps 16 callBegun).1.db partnerAccount.id ≤ 6000000 := by
  have hsteps : (steps 16 callBegun).isSome := by decide +kernel
  have hrun := run_call (Q := NoCall) hsteps
  have hpaid : contributed (afterSteps 16 callBegun).1.db partnerAccount.id = 600000 := by
    decide +kernel
  generalize afterSteps 16 callBegun = reached at hrun hpaid ⊢
  have hbounds := never_called_beyond_commitment genesis_buildPeFund ready_buildPeFund
    partner_partnerAccount hrun
  exact ⟨hpaid, hbounds⟩

end FundLedger
