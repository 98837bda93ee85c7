import FundLedger.Concurrency.Commits

/-!
# Concurrent runs are serial runs

Every move of a session keeps its own assertion, and what it commits is what
the sequential service commits.  So in every state that sessions reach, the
committed database is the result of a serial run of the services, in the order
in which they committed.
-/

namespace FundLedger

open Lib Relation

section

variable {Q : Db → Posting → Prop} {start db db' : Db}

/-- The entries of a posting belong to its transfer. -/
theorem Posted.linked {env : Env} {a : Posting} {es : List Entry} (h : Posted env a db db' es)
    (hlinked : Linked db) : Linked db' := by
  intro e he
  rw [← Table.mem_rows, h.entries_eq, List.mem_append] at he
  rcases he with hold | hnew
  · obtain ⟨t, ht, hte⟩ := hlinked e hold
    refine ⟨t, ?_, hte⟩
    rw [← Table.mem_rows, h.transfers_eq]
    exact List.mem_append_left _ ht
  · refine ⟨transferFor env a, ?_, (h.entry_transfer hnew).symm⟩
    rw [← Table.mem_rows, h.transfers_eq]
    exact List.mem_append_right _ List.mem_cons_self

theorem Keeps.linked (h : Keeps db db') (hlinked : Linked db) : Linked db' := by
  unfold Linked
  rw [h.transfers, h.entries]
  exact hlinked

theorem Keeps.refl (db : Db) : Keeps db db :=
  ⟨rfl, rfl, fun _ ha => ha, fun p hp => ⟨p, hp, rfl, rfl, rfl⟩⟩

/-- A change without a posting. -/
theorem Change.keeps (h : Change (fun _ _ => False) db db') : Keeps db db' := by
  rcases h.posted_or_keeps with ⟨_, _, _, hfalse, -⟩ | keeps
  · exact hfalse.elim
  · exact keeps

/-! ## A serial run is a sequence of changes -/

/-- Inserting a document is a change. -/
theorem Ticket.Documented.change {P : Db → Posting → Prop} {t : Ticket}
    (h : t.Documented db db') : db' = db ∨ Change P db db' := by
  unfold Ticket.Documented at h
  split at h
  · exact .inl h
  · rename_i d number _
    obtain ⟨units, -, hrun⟩ := h
    cases d with
    | capitalCall => exact .inr (.capitalCall hrun)
    | distribution => exact .inr (.distribution hrun)

/-- The plan of a document is for a period of its fund. -/
theorem DocumentRequest.plan_period {d : DocumentRequest} {env : Env} {plan : Plan}
    (h : d.plan env db = .ok plan) : plan.period ∈ db.periods ∧ plan.period.fund = d.fundId := by
  cases d with
  | capitalCall fundId =>
    obtain ⟨fund, -, -, -, hfund, hperiod, -⟩ := planCapitalCall_ok h
    obtain ⟨-, hid⟩ := Table.get?_eq_some.mp (orRaise_eq_ok.mp hfund)
    exact ⟨(periodFor_mem hperiod).1, (periodFor_mem hperiod).2.1.trans hid⟩
  | distribution fundId =>
    obtain ⟨fund, -, -, -, hfund, hperiod, -⟩ := planDistribution_ok h
    obtain ⟨-, hid⟩ := Table.get?_eq_some.mp (orRaise_eq_ok.mp hfund)
    exact ⟨(periodFor_mem hperiod).1, (periodFor_mem hperiod).2.1.trans hid⟩

theorem DocumentRequest.posting_period (d : DocumentRequest) (plan : Plan) (key : String)
    (requestHash : RequestHash) (createdBy : String) :
    (d.posting plan key requestHash createdBy).period = plan.period := by
  cases d <;> rfl

/-- A period object of an earlier time is still held. -/
theorem Extends.holds (h : Extends db db') {p : Period} (hp : Holds db p) : Holds db' p := by
  obtain ⟨q, hq, hid, hfund⟩ := hp
  obtain ⟨r, hr, hrf⟩ := h.getPeriod (Table.get?_eq_some.mpr ⟨hq, hid⟩)
  obtain ⟨hmem, hrid⟩ := Table.get?_eq_some.mp hr
  exact ⟨r, hmem, hrid, hrf.trans hfund⟩

/-- The period object of a ticket is a stored row. -/
theorem Ticket.holds {t : Ticket} (hQ : ∀ d a, Q d a → Holds d a.period) (planned : t.Planned db)
    (known : t.Known Q db) : Holds db t.posting.period := by
  cases hdocument : t.document with
  | none =>
    obtain ⟨before, hx, hq⟩ := known hdocument
    exact hx.holds (hQ before t.posting hq)
  | some document =>
    obtain ⟨d, number⟩ := document
    obtain ⟨-, env, before, plan, key, requestHash, createdBy, hx, hplan, hposting⟩ :=
      planned d number hdocument
    rw [hposting, d.posting_period]
    exact hx.holds ⟨plan.period, (d.plan_period hplan).1, rfl, rfl⟩

/-- A document posts nothing. -/
theorem Ticket.Documented.keeps {t : Ticket} (h : t.Documented db db') : Keeps db db' := by
  rcases h.change (P := fun _ _ => False) with rfl | hchange
  · exact .refl _
  · exact hchange.keeps

theorem SerialStep.changes {e : Event} (h : SerialStep Q e db db')
    (hQ : ∀ d a, Q d a → Holds d a.period) : Changes AnyPosting db db' := by
  cases h with
  | posted planned known posted documented =>
    obtain ⟨-, es, hposted⟩ := postTransfer_ok posted
    have hfirst : Change AnyPosting _ _ :=
      .posted trivial (Ticket.holds hQ planned known) hposted
    rcases documented.change with rfl | hchange
    · exact .single hfirst
    · exact .tail (.single hfirst) hchange
  | refused => exact .refl
  | closed closed =>
    obtain ⟨period, -, ⟨-, hfalse, -⟩ | ⟨-, -, -, hupdate⟩⟩ := closePeriod_ok closed
    · cases hfalse
    · exact .single (.periodClosed hupdate)
  | opened inserted standard => exact .single (.accountOpened inserted standard)

/-- **A serial run is a sequence of changes.** -/
theorem Serial.changes {log : List Event} (h : Serial Q start log db)
    (hQ : ∀ d a, Q d a → Holds d a.period) : Changes AnyPosting start db := by
  induction h with
  | nil => exact .refl
  | cons first rest ih => exact (first.changes hQ).trans ih

/-- Each event posts at most once. -/
theorem SerialStep.posted_then_keeps {e : Event} (h : SerialStep Q e db db') :
    Keeps db db' ∨ ∃ t es db₁, e = .posted t ∧ t.Planned db ∧ t.Known Q db ∧
      Posted t.env t.posting db db₁ es ∧ t.Documented db₁ db' := by
  cases h with
  | posted planned known posted documented =>
    obtain ⟨-, es, hposted⟩ := postTransfer_ok posted
    exact .inr ⟨_, es, _, rfl, planned, known, hposted, documented⟩
  | refused => exact .inl (.refl _)
  | closed closed =>
    obtain ⟨period, -, ⟨-, hfalse, -⟩ | ⟨-, -, -, hupdate⟩⟩ := closePeriod_ok closed
    · cases hfalse
    · exact .inl (Change.keeps (.periodClosed hupdate))
  | opened inserted standard => exact .inl (Change.keeps (.accountOpened inserted standard))

/-- The rule for an invariant of serial runs: postings keep it, and so does what
posts nothing. -/
theorem Serial.invariant {I : Db → Prop}
    (hposted : ∀ {env a db db' es}, Posted env a db db' es → I db → I db')
    (hkeeps : ∀ {db db'}, Keeps db db' → I db → I db') {log : List Event}
    (h : Serial Q start log db) (hI : I start) : I db := by
  induction h with
  | nil => exact hI
  | cons first rest ih =>
    apply ih
    rcases first.posted_then_keeps with keeps | ⟨t, es, db₁, -, -, -, posted, documented⟩
    · exact hkeeps keeps hI
    · exact hkeeps documented.keeps (hposted posted hI)

/-- The entries of a serial run belong to transfers. -/
theorem Serial.linked {log : List Event} (h : Serial Q start log db)
    (hlinked : Linked start) : Linked db :=
  h.invariant (fun posted hl => posted.linked hl) (fun keeps hl => keeps.linked hl) hlinked

/-! ## The events determine the run -/

theorem Ticket.Documented.unique {t : Ticket} {db₁ db₂ : Db} (h : t.Documented db db₁)
    (h' : t.Documented db db₂) : db₁ = db₂ := by
  unfold Ticket.Documented at h h'
  split at h
  · rename_i hnone
    rw [hnone] at h'
    exact h.trans h'.symm
  · rename_i d number hsome
    rw [hsome] at h'
    obtain ⟨units, hunits, hrun⟩ := h
    obtain ⟨units', hunits', hrun'⟩ := h'
    obtain rfl : units = units' := Except.ok.inj (hunits.symm.trans hunits')
    exact Except.ok.inj (hrun.symm.trans hrun')

theorem SerialStep.unique {e : Event} {db₁ db₂ : Db} (h : SerialStep Q e db db₁)
    (h' : SerialStep Q e db db₂) : db₁ = db₂ := by
  cases h with
  | posted _ _ posted documented =>
    cases h' with
    | posted _ _ posted' documented' =>
      obtain ⟨-, rfl⟩ := Prod.mk.inj (posted.symm.trans posted')
      exact documented.unique documented'
  | refused =>
    cases h'
    rfl
  | closed closed =>
    cases h' with
    | closed closed' => exact (Prod.mk.inj (closed.symm.trans closed')).2
  | opened inserted =>
    cases h' with
    | opened inserted' => exact Except.ok.inj (inserted.symm.trans inserted')

theorem Serial.unique {log : List Event} {db₁ db₂ : Db} (h : Serial Q start log db₁)
    (h' : Serial Q start log db₂) : db₁ = db₂ := by
  induction h with
  | nil =>
    cases h'
    rfl
  | cons first rest ih =>
    cases h' with
    | cons first' rest' =>
      obtain rfl := first.unique first'
      exact ih rest'

/-- A longer run goes on where the shorter one ended. -/
theorem Serial.of_append {l m : List Event} (h : Serial Q start (l ++ m) db')
    (hl : Serial Q start l db) : Serial Q db m db' := by
  induction hl with
  | nil => exact h
  | cons first rest ih =>
    cases h with
    | cons first' rest' =>
      obtain rfl := first.unique first'
      exact ih rest'

/-! ## A commit is a step of the serial run -/

variable {s : Session} {t : Ticket} {priced : List PricedLeg} {log : List Event}

/-- **The commit of a posting.** -/
theorem Session.Inserted.serial {es : List Entry} {documents : List Write}
    (h : Session.Inserted db s t priced es [] documents) (hcleared : Session.Cleared db s t priced)
    (hlinked : Linked db) (hzero : sumBy Entry.signedBaseAmount es = 0) :
    postTransfer t.env t.posting db = (.ok t.transfer, view db (postingRows t.transfer es)) := by
  apply postTransfer_of_steps hlinked hcleared.prepared
  · rw [h.rows, List.append_nil]
  · exact h.recorded
  · exact hzero

/-- A document goes in after the posting as it does before. -/
theorem run_view_document {d : DocumentRequest} {id transfer : Uuid} {number : ℕ} {units : Money}
    {es : List Entry} {u : Transfer} (hrec : Recorded db u es)
    (hrun : ∃ db', (d.row id number units transfer).run db = .ok db') :
    (d.row id number units transfer).run (view db (postingRows u es)) =
      .ok (view db (postingRows u es ++ [d.row id number units transfer])) := by
  obtain ⟨transfers, entries, -, -, hview⟩ := hrec.view_eq
  obtain ⟨db', hdb'⟩ : ∃ db', (d.row id number units transfer).run (view db (postingRows u es)) =
      .ok db' := by
    rw [hview]
    exact Beside.runDocument_congr (rfl : _ = db.capitalCalls) (rfl : _ = db.distributions) hrun
  rw [hdb', view_append, Write.store_of_run hdb']

/-- **The commit of a closing.** -/
theorem Session.Closable.serial {c : Closing} {period : Period} (h : Session.Closable db s c period)
    (hzero : periodImbalance db period.id = 0) (hlength : c.closedBy.length ≤ 150) :
    updatePeriod db period.id c.env.now c.closedBy =
        .ok (view db [.closed period.id c.env.now c.closedBy]) ∧
      closePeriod c.env c.fundId c.periodId c.closedBy db =
        (.ok (period.close c.env.now c.closedBy, true),
          view db [.closed period.id c.env.now c.closedBy]) := by
  obtain ⟨hget, -⟩ := Option.filter_eq_some_iff.mp (orRaise_eq_ok.mp h.found)
  have hmem := Table.mem_of_get? hget
  have hupdate : updatePeriod db period.id c.env.now c.closedBy =
      .ok (view db [.closed period.id c.env.now c.closedBy]) := by
    have hopen : ∀ p ∈ db.periods.rows, p.id = period.id → p.status ≠ .CLOSED := by
      intro p hp hid
      rw [Table.eq_of_key_eq hp hmem hid]
      exact h.status_open
    rw [updatePeriod, (require_eq_ok (u := ())).mpr hlength, (require_eq_ok (u := ())).mpr hopen]
    rfl
  refine ⟨hupdate, ?_⟩
  have hcheck : checkClosable db c.fundId period = .ok () := by
    have hearlier : ∀ p ∈ db.periods.rows,
        ¬(p.fund = c.fundId ∧ p.startDate < period.startDate ∧ p.status = .OPEN) := h.earlier
    rw [checkClosable, (require_eq_ok (u := ())).mpr hearlier]
    exact require_eq_ok.mpr hzero
  rw [closePeriod, Tx.atomic_ok, Tx.read_bind, Tx.bind_apply, Tx.lift, h.found]
  dsimp only
  rw [if_neg h.status_open, Tx.bind_apply, Tx.lift, hcheck]
  dsimp only
  have hstatement : Tx.statement (fun db => updatePeriod db period.id c.env.now c.closedBy) db =
      ((.ok (), view db [.closed period.id c.env.now c.closedBy]) : Except Exc Unit × Db) :=
    Tx.statement_ok.mpr hupdate
  rw [Tx.bind_apply, hstatement]
  rfl

end

end FundLedger
