import FundLedger.Concurrency.Overdraft
import FundLedger.Operations.ClosedStatements

/-!
# Closed books under concurrency

A posting that has read a stale period may meet its closing at any point.  The
share lock that each entry takes on the period, and the update lock of the
closing, decide between them: once a closing is committed, nothing is ever
posted to the period again.  The closed periods of a fund are the first ones,
so whatever is derived from the periods up to a closed one is final.

`Sealed` is what a closed period keeps, change by change, and
`nav_eq_of_frozen` carries the periods over to the net asset value.
-/

namespace FundLedger

open Lib Relation

/-! ## The order of closing -/

/-- The closed periods of a fund are its first ones. -/
def ClosedInOrder (db : Db) : Prop :=
  ∀ p ∈ db.periods, p.status = .CLOSED → ∀ q ∈ db.periods, q.fund = p.fund →
    q.startDate < p.startDate → q.status = .CLOSED

theorem Genesis.closedInOrder {db : Db} (h : Genesis db) : ClosedInOrder db := by
  intro p hp hclosed
  cases (h.periods_open p hp).symm.trans hclosed

section

variable {Q : Db → Posting → Prop} {db db' : Db}

theorem Ticket.Documented.periods_eq {t : Ticket} (h : t.Documented db db') :
    db'.periods = db.periods := by
  unfold Ticket.Documented at h
  split at h
  · rw [h]
  · rename_i d number _
    obtain ⟨units, -, hrun⟩ := h
    cases d with
    | capitalCall =>
      obtain ⟨-, -, calls, -, rfl⟩ := insertCapitalCall_ok hrun
      rfl
    | distribution =>
      obtain ⟨-, -, dists, -, rfl⟩ := insertDistribution_ok hrun
      rfl

/-- Periods are changed by closings only, after the earlier ones. -/
theorem SerialStep.periods_cases {e : Event} (h : SerialStep Q e db db') :
    db'.periods = db.periods ∨ ∃ period now closedBy, period ∈ db.periods ∧
      EarlierClosed db period.fund period ∧ updatePeriod db period.id now closedBy = .ok db' := by
  cases h with
  | posted _ _ posted documented =>
    obtain ⟨-, es, hposted⟩ := postTransfer_ok posted
    obtain ⟨transfers, entries, -, -, rfl⟩ := hposted.appended
    exact .inl documented.periods_eq
  | refused => exact .inl rfl
  | opened inserted =>
    obtain ⟨-, -, -, -, -, accounts, -, rfl⟩ := insertAccount_ok inserted
    exact .inl rfl
  | closed closed =>
    obtain ⟨period, hperiod, ⟨-, hfalse, -⟩ | ⟨-, -, hcheck, hupdate⟩⟩ := closePeriod_ok closed
    · cases hfalse
    obtain ⟨hget, hfund⟩ := Option.filter_eq_some_iff.mp (orRaise_eq_ok.mp hperiod)
    obtain ⟨_, hearlier, -⟩ := except_bind_ok.mp hcheck
    refine .inr ⟨period, _, _, Table.mem_of_get? hget, ?_, hupdate⟩
    have hearlier := require_eq_ok.mp hearlier
    rw [of_decide_eq_true hfund]
    exact hearlier

/-- **One step**: the closed periods stay the first ones. -/
theorem ClosedInOrder.serialStep (h : ClosedInOrder db) {e : Event} (hs : SerialStep Q e db db') :
    ClosedInOrder db' := by
  rcases hs.periods_cases with hsame | ⟨period, now, closedBy, hperiod, hearlier, hupdate⟩
  · rw [ClosedInOrder, hsame]
    exact h
  · intro p hp hclosed q hq hfund hlt
    obtain ⟨q₀, hq₀, -, -, -, ⟨-, hdone⟩ | ⟨-, hsame⟩⟩ := mem_updatePeriod hupdate hq
    · exact hdone
    subst hsame
    obtain ⟨p₀, hp₀, hpf, hps, -, ⟨hid, -⟩ | ⟨-, hsame⟩⟩ := mem_updatePeriod hupdate hp
    · obtain rfl : p₀ = period := Table.eq_of_key_eq hp₀ hperiod hid
      cases hstatus : q.status with
      | CLOSED => rfl
      | OPEN =>
        exact absurd ⟨hfund.trans hpf.symm, hlt.trans_eq hps.symm, hstatus⟩ (hearlier q hq₀)
    · subst hsame
      exact h p hp₀ hclosed q hq₀ hfund hlt

theorem ClosedInOrder.serial {start : Db} {log : List Event} (h : Serial Q start log db)
    (hstart : ClosedInOrder start) : ClosedInOrder db := by
  induction h with
  | nil => exact hstart
  | cons first rest ih => exact ih (hstart.serialStep first)

end

/-! ## A closed period -/

/-- What a period `q` that was closed in `db` keeps. -/
structure Sealed (db : Db) (q : Period) (d : Db) : Prop where
  books : Books d
  targets : ReversalTargets d
  row : q ∈ d.periods
  frozen : FrozenIn db d q.id

section

variable {db d d' : Db} {q : Period}

/-- A closed row is not touched. -/
theorem Change.closed_row {Q : Db → Posting → Prop} (h : Change Q d d') (hq : q ∈ d.periods)
    (closed : q.status = .CLOSED) : q ∈ d'.periods := by
  rcases h.periods_cases with hsame | ⟨period, now, closedBy, hupdate⟩
  · rw [hsame]
    exact hq
  · obtain ⟨hopen, rfl⟩ := updatePeriod_ok hupdate
    refine List.mem_map.mpr ⟨q, hq, ?_⟩
    rw [if_neg fun hid => hopen q hq (of_decide_eq_true hid) closed]

/-- **One change**: nothing is posted to a closed period. -/
theorem Sealed.change (h : Sealed db q d) (closed : q.status = .CLOSED)
    (hc : Change AnyPosting d d') : Sealed db q d' := by
  obtain ⟨env, a, es, -, held, posted⟩ | keeps := hc.posted_or_keeps
  · refine ⟨posted.books held h.books, posted.reversalTargets h.targets, hc.closed_row h.row closed,
      h.frozen.trans ?_⟩
    apply posted.frozenIn h.books h.targets
    intro heq
    obtain ⟨p, hp, hpid, hopen⟩ := posted.period_open
    obtain rfl : p = q := Table.eq_of_key_eq hp h.row (hpid.trans heq)
    cases hopen.symm.trans closed
  · exact ⟨h.books.of_keeps keeps, keeps.reversalTargets h.targets, hc.closed_row h.row closed,
      h.frozen.trans (keeps.frozenIn h.books q.id)⟩

/-- **All later changes.** -/
theorem Sealed.of_changes (hb : Books db) (targets : ReversalTargets db) (hq : q ∈ db.periods)
    (closed : q.status = .CLOSED) (hc : Changes AnyPosting db d) : Sealed db q d :=
  hc.invariant (fun _ _ h hstep => h.change closed hstep) ⟨hb, targets, hq, .refl db q.id⟩

end

/-! ## The net asset value -/

/-- A join of an old entry keeps its answer. -/
theorem Extends.entryPeriodStart {db d : Db} (hx : Extends db d) (hb : Books db) {e : Entry}
    (he : e ∈ db.entries) : entryPeriodStart d e = FundLedger.entryPeriodStart db e := by
  obtain ⟨t, ht, hte⟩ := hb.entry_transfer e he
  have hget : db.transfers.get? e.transfer = some t := Table.get?_eq_some.mpr ⟨ht, hte⟩
  obtain ⟨f, hf, hperiod⟩ := hx.getPeriod_map
  rw [FundLedger.entryPeriodStart, FundLedger.entryPeriodStart, hget, hx.getTransfer hget]
  simp only [Option.pure_def, Option.bind_eq_bind, Option.bind_some, hperiod]
  cases db.periods.get? t.period with
  | none => rfl
  | some p =>
    simp only [Option.map_some, Option.bind_some]
    rw [(hf p).2.2.1]

/-- The period of an entry that counts up to a cut. -/
theorem Books.period_of_throughCut {db : Db} (hb : Books db) {fund : Uuid} {p : Period} {e : Entry}
    (he : e ∈ db.entries) (hfund : entryFund db e = some fund)
    (hcut : throughCut db (some p) e = true) :
    ∃ q ∈ db.periods, q.fund = fund ∧ q.startDate ≤ p.startDate ∧ e ∈ entriesIn db q.id := by
  obtain ⟨t, ht, hte⟩ := hb.entry_transfer e he
  obtain ⟨q, hq, hqt, hqf⟩ := hb.entryFund_eq he ht hte
  have hget : db.transfers.get? e.transfer = some t := Table.get?_eq_some.mpr ⟨ht, hte⟩
  have hperiod : db.periods.get? t.period = some q := Table.get?_eq_some.mpr ⟨hq, hqt⟩
  refine ⟨q, hq, Option.some.inj (hqf.symm.trans hfund), ?_, mem_entriesIn.mpr ⟨he, ?_⟩⟩
  · rw [throughCut, entryPeriodStart, hget] at hcut
    simp only [Option.pure_def, Option.bind_eq_bind, Option.bind_some, hperiod, Option.any_some,
      decide_eq_true_eq] at hcut
    exact hcut
  · rw [Books.entryPeriod_eq ht hte, hqt]

/-- **Frozen periods freeze the value through them.** -/
theorem nav_eq_of_frozen {db d : Db} (hx : Extends db d) (hb : Books db) (hbd : Books d)
    {fund : Fund} {p : Period}
    (hfrozen : ∀ q ∈ db.periods, q.fund = fund.id → q.startDate ≤ p.startDate →
      FrozenIn db d q.id) : nav d fund (some p) = nav db fund (some p) := by
  obtain ⟨new, hnew⟩ := hx.entries
  have haccount : ∀ e ∈ db.entries, d.accounts.get? e.account = db.accounts.get? e.account :=
    fun e he => hb.account_get? (fun _ ha => hx.accounts.subset ha) he
  have hold : ∀ e ∈ db.entries, entryFund d e = entryFund db e ∧
      entryAccountType d e = entryAccountType db e ∧
      throughCut d (some p) e = throughCut db (some p) e := by
    intro e he
    refine ⟨?_, ?_, ?_⟩
    · rw [entryFund, entryFund, haccount e he]
    · rw [entryAccountType, entryAccountType, haccount e he]
    · rw [throughCut, throughCut, hx.entryPeriodStart hb he]
  have hnone : ∀ e ∈ new, ¬(entryFund d e = some fund.id ∧ throughCut d (some p) e = true) := by
    rintro e he ⟨hfund, hcut⟩
    have hmem : e ∈ d.entries := by
      rw [← Table.mem_rows, ← hnew]
      exact List.mem_append_right _ he
    obtain ⟨r, hr, hrf, hrle, hein⟩ := hbd.period_of_throughCut hmem hfund hcut
    obtain ⟨f, hf, hrows⟩ := hx.periods
    rw [← Table.mem_rows, hrows] at hr
    obtain ⟨q, hq, rfl⟩ := List.mem_map.mp hr
    have hq' := hfrozen q hq ((hf q).2.1.symm.trans hrf) ((hf q).2.2.1.symm.trans_le hrle)
    rw [(hf q).1, hq'.entries] at hein
    -- the entry would be an old one, and the ids are different
    have hnodup := d.entries.nodup
    rw [← hnew, List.map_append, List.nodup_append] at hnodup
    exact hnodup.2.2 e.id (List.mem_map_of_mem (mem_entriesIn.mp hein).1) e.id
      (List.mem_map_of_mem he) rfl
  rw [nav, nav, ← hnew, List.filter_append]
  have hnil : new.filter (fun e => entryFund d e = some fund.id ∧
      (entryAccountType d e = some .CASH ∨ entryAccountType d e = some .INVESTMENT) ∧
      throughCut d (some p) e) = [] := by
    apply List.filter_eq_nil_iff.mpr
    intro e he hall
    obtain ⟨hfund, -, hcut⟩ := of_decide_eq_true hall
    exact hnone e he ⟨hfund, hcut⟩
  rw [hnil, List.append_nil]
  congr 2
  apply List.filter_congr
  intro e he
  obtain ⟨hfund, htype, hcut⟩ := hold e he
  rw [hfund, htype, hcut]

/-! ## Any number of postings and closings -/

/-- The period object of a posting was loaded, at some time. -/
def Loaded (db : Db) (a : Posting) : Prop := Holds db a.period

section

variable {P : Type} [DecidableEq P] {start : Db} {clock : Timestamp}
  {s s' : Sessions P World Session}

end

/-! ## A period closed after the deposit -/

def closingOfH1 : Closing where
  env := envOf 2 200
  fundId := 1
  periodId := 21
  closedBy := ""

/-- The deposit is committed, and the closing of its period has begun. -/
def closingBegun : World × Session :=
  ((afterSteps 9 depositBegun).1, ⟨.closingBegun closingOfH1, [], []⟩)

/-- The second deposit goes into the next period. -/
def depositIntoH2 : Posting := { depositOf100 with idempotencyKey := "deposit 2", period := h2 }

/-- The period is closed, and the second deposit has begun. -/
def depositAgain : World × Session :=
  ((afterSteps 5 closingBegun).1, .ofPosting (envOf 3) depositIntoH2)

theorem run_closing : (services Loaded).Run (freshSessions buildPeFund 1)
    (single (afterSteps 5 closingBegun)) := by
  have hloaded : Loaded buildPeFund depositOf100 :=
    ⟨h1, show h1 ∈ buildPeFund.periods.rows by decide +kernel, rfl, rfl⟩
  have hdeposit : (steps 9 depositBegun).isSome := by decide +kernel
  have hclosing : (steps 5 closingBegun).isSome := by decide +kernel
  apply (run_deposit hloaded hdeposit).trans
  apply (run_idle _).trans
  exact (run_ofClosing _ closingOfH1).trans (run_afterSteps hclosing)

end FundLedger
