import FundLedger.Concurrency.Overdraft
import FundLedger.Lib.Numbering

/-!
# Numbering documents under concurrency

The number of a document is read under the lock of the fund row and written at
the end of a long transaction, which can still fail.  `DocumentBooks` says that
nothing goes wrong: the numbers of a fund have no gap and follow the commits,
and each document points at a transfer of its own type in its own fund.
`documentsOf` counts the documents of a transfer: one if it was posted for a
document, and none otherwise.
-/

namespace FundLedger

open Lib Relation

/-! ## The documents of a database -/

/-- The transfer of a document: of the right type, in a period of the fund. -/
def DocumentTransfer (db : Db) (type : TransferType) (fund transfer : Uuid) : Prop :=
  ∃ t ∈ db.transfers, t.id = transfer ∧ t.transferType = type ∧
    ∃ p ∈ db.periods, p.id = t.period ∧ p.fund = fund

structure DocumentBooks (db : Db) : Prop where
  call_numbers : Gapless CapitalCall.fund CapitalCall.callNumber db.capitalCalls.rows
  distribution_numbers :
    Gapless Distribution.fund Distribution.distributionNumber db.distributions.rows
  call_transfer : ∀ c ∈ db.capitalCalls, DocumentTransfer db .CAPITAL_CALL c.fund c.transfer
  distribution_transfer : ∀ d ∈ db.distributions,
    DocumentTransfer db .DISTRIBUTION d.fund d.transfer

/-- How many documents a transfer has. -/
def documentsOf (db : Db) (transfer : Uuid) : ℕ :=
  (db.capitalCalls.rows.filter fun c => c.transfer = transfer).length +
    (db.distributions.rows.filter fun d => d.transfer = transfer).length

theorem Genesis.documentBooks {db : Db} (h : Genesis db) : DocumentBooks db := by
  refine ⟨?_, ?_, fun c hc => ?_, fun d hd => ?_⟩
  · rw [h.capitalCalls]
    exact .nil
  · rw [h.distributions]
    exact .nil
  · rw [← Table.mem_rows, h.capitalCalls] at hc
    cases hc
  · rw [← Table.mem_rows, h.distributions] at hd
    cases hd

theorem DocumentTransfer.later {db db' : Db} {type : TransferType} {fund transfer : Uuid}
    (h : DocumentTransfer db type fund transfer) (hx : Extends db db') :
    DocumentTransfer db' type fund transfer := by
  obtain ⟨t, ht, hid, htype, p, hp, hpt, hpf⟩ := h
  obtain ⟨q, hq, hqf⟩ := hx.getPeriod (Table.get?_eq_some.mpr ⟨hp, hpt⟩)
  obtain ⟨hmem, hqid⟩ := Table.get?_eq_some.mp hq
  exact ⟨t, hx.transfers.subset ht, hid, htype, q, hmem, hqid, hqf.trans hpf⟩

/-- The documents stay, and the ledger grows. -/
theorem DocumentBooks.same {db db' : Db} (h : DocumentBooks db) (hx : Extends db db')
    (hcalls : db'.capitalCalls = db.capitalCalls) (hdists : db'.distributions = db.distributions) :
    DocumentBooks db' := by
  refine ⟨?_, ?_, ?_, ?_⟩
  · rw [hcalls]
    exact h.call_numbers
  · rw [hdists]
    exact h.distribution_numbers
  · rw [hcalls]
    exact fun c hc => (h.call_transfer c hc).later hx
  · rw [hdists]
    exact fun d hd => (h.distribution_transfer d hd).later hx

/-- A transfer that is not there has no document. -/
theorem DocumentBooks.documentsOf_eq_zero {db : Db} (h : DocumentBooks db) {transfer : Uuid}
    (hfresh : ∀ t ∈ db.transfers, t.id ≠ transfer) : documentsOf db transfer = 0 := by
  have hcalls : (db.capitalCalls.rows.filter fun c => c.transfer = transfer) = [] := by
    apply List.filter_eq_nil_iff.mpr
    intro c hc heq
    obtain ⟨t, ht, hid, -⟩ := h.call_transfer c hc
    exact hfresh t ht (hid.trans (of_decide_eq_true heq))
  have hdists : (db.distributions.rows.filter fun d => d.transfer = transfer) = [] := by
    apply List.filter_eq_nil_iff.mpr
    intro d hd heq
    obtain ⟨t, ht, hid, -⟩ := h.distribution_transfer d hd
    exact hfresh t ht (hid.trans (of_decide_eq_true heq))
  rw [documentsOf, hcalls, hdists]
  rfl

/-- One more call. -/
theorem documentsOf_call {db : Db} {c : CapitalCall} {calls : Table CapitalCall CapitalCall.id}
    (hrows : calls.rows = db.capitalCalls.rows ++ [c]) (i : Uuid) :
    documentsOf { db with capitalCalls := calls } i =
      documentsOf db i + if c.transfer = i then 1 else 0 := by
  show (calls.rows.filter fun c => c.transfer = i).length +
    (db.distributions.rows.filter fun d => d.transfer = i).length = _
  rw [hrows, List.filter_append, List.length_append, documentsOf]
  by_cases hi : c.transfer = i
  · rw [List.filter_singleton, if_pos hi, decide_eq_true hi]
    show _ + 1 + _ = _
    omega
  · rw [List.filter_singleton, if_neg hi, decide_eq_false hi]
    rfl

/-- One more distribution. -/
theorem documentsOf_distribution {db : Db} {d : Distribution}
    {dists : Table Distribution Distribution.id}
    (hrows : dists.rows = db.distributions.rows ++ [d]) (i : Uuid) :
    documentsOf { db with distributions := dists } i =
      documentsOf db i + if d.transfer = i then 1 else 0 := by
  show _ + (dists.rows.filter fun d => d.transfer = i).length = _
  rw [hrows, List.filter_append, List.length_append, documentsOf]
  by_cases hi : d.transfer = i
  · rw [List.filter_singleton, if_pos hi, decide_eq_true hi]
    rfl
  · rw [List.filter_singleton, if_neg hi, decide_eq_false hi]
    rfl

/-! ## One event -/

section

variable {Q : Db → Posting → Prop} {db db₁ db' : Db} {t : Ticket} {es : List Entry}

theorem Posted.extends (h : Posted t.env t.posting db db' es) : Extends db db' := by
  obtain ⟨transfers, entries, ht, he, rfl⟩ := h.appended
  exact { Extends.refl db with transfers := ⟨_, ht.symm⟩, entries := ⟨_, he.symm⟩ }

/-- The type of the transfer that a document is for. -/
def DocumentRequest.transferType : DocumentRequest → TransferType
  | .capitalCall .. => .CAPITAL_CALL
  | .distribution .. => .DISTRIBUTION

/-- The transfer of a planned document. -/
theorem Ticket.Planned.documentTransfer (h : t.Planned db) (posted : Posted t.env t.posting db db₁ es)
    {d : DocumentRequest} {number : ℕ} (hd : t.document = some (d, number)) :
    number = d.nextNumber db ∧ DocumentTransfer db₁
      d.transferType d.fundId t.transfer.id := by
  obtain ⟨hnumber, env, before, plan, key, requestHash, createdBy, hx, hplan, hposting⟩ :=
    h d number hd
  obtain ⟨hperiod, hfund⟩ := d.plan_period hplan
  obtain ⟨q, hq, hqf⟩ := (hx.trans posted.extends).getPeriod (Table.get?_of_mem hperiod)
  obtain ⟨hmem, hqid⟩ := Table.get?_eq_some.mp hq
  have htransfer : t.transfer ∈ db₁.transfers := by
    rw [← Table.mem_rows, posted.transfers_eq]
    exact List.mem_append_right _ (List.mem_singleton_self _)
  refine ⟨hnumber, t.transfer, htransfer, rfl, ?_, q, hmem, ?_, hqf.trans hfund⟩
  · show t.posting.transferType = _
    rw [hposting]
    cases d <;> rfl
  · show q.id = t.posting.period.id
    rw [hposting, d.posting_period]
    exact hqid

/-- **A posting for a document** keeps the books, and has one document. -/
theorem DocumentBooks.posted (h : DocumentBooks db) (planned : t.Planned db)
    (posted : Posted t.env t.posting db db₁ es) (documented : t.Documented db₁ db') :
    DocumentBooks db' ∧ documentsOf db' t.transfer.id = (if t.document.isSome then 1 else 0) ∧
      ∀ i, i ≠ t.transfer.id → documentsOf db' i = documentsOf db i := by
  have hcalls : db₁.capitalCalls = db.capitalCalls := by
    obtain ⟨transfers, entries, -, -, rfl⟩ := posted.appended
    rfl
  have hdists : db₁.distributions = db.distributions := by
    obtain ⟨transfers, entries, -, -, rfl⟩ := posted.appended
    rfl
  have h₁ : DocumentBooks db₁ := h.same posted.extends hcalls hdists
  have hsame : ∀ i, documentsOf db₁ i = documentsOf db i := by
    intro i
    rw [documentsOf, documentsOf, hcalls, hdists]
  have hzero : documentsOf db t.transfer.id = 0 :=
    h.documentsOf_eq_zero fun u hu => posted.id_fresh u hu
  unfold Ticket.Documented at documented
  split at documented
  · rename_i hnone
    subst documented
    refine ⟨h₁, ?_, fun i _ => hsame i⟩
    rw [hsame, hzero, hnone]
    rfl
  · rename_i d number hsome
    obtain ⟨units, -, hrun⟩ := documented
    obtain ⟨hnumber, htransfer⟩ := planned.documentTransfer posted hsome
    rw [hsome]
    cases d with
    | capitalCall fundId total notice due =>
      obtain ⟨-, -, calls, hins, rfl⟩ := insertCapitalCall_ok hrun
      have hrows := (Table.insert_eq_some.mp hins).2
      refine ⟨⟨?_, h₁.distribution_numbers, fun c hc => ?_, h₁.distribution_transfer⟩, ?_,
        fun i hi => ?_⟩
      · show Gapless _ _ calls.rows
        rw [hrows]
        apply h₁.call_numbers.append
        rw [hcalls]
        exact hnumber
      · have hc : c ∈ calls.rows := hc
        rw [hrows, List.mem_append, List.mem_singleton] at hc
        rcases hc with hold | rfl
        · exact h₁.call_transfer c hold
        · exact htransfer
      · rw [documentsOf_call hrows, hsame, hzero, if_pos rfl]
        rfl
      · rw [documentsOf_call hrows, hsame, if_neg (Ne.symm hi), add_zero]
    | distribution fundId total payment classification =>
      obtain ⟨-, -, dists, hins, rfl⟩ := insertDistribution_ok hrun
      have hrows := (Table.insert_eq_some.mp hins).2
      refine ⟨⟨h₁.call_numbers, ?_, h₁.call_transfer, fun c hc => ?_⟩, ?_, fun i hi => ?_⟩
      · show Gapless _ _ dists.rows
        rw [hrows]
        apply h₁.distribution_numbers.append
        rw [hdists]
        exact hnumber
      · have hc : c ∈ dists.rows := hc
        rw [hrows, List.mem_append, List.mem_singleton] at hc
        rcases hc with hold | rfl
        · exact h₁.distribution_transfer c hold
        · exact htransfer
      · rw [documentsOf_distribution hrows, hsame, hzero, if_pos rfl]
        rfl
      · rw [documentsOf_distribution hrows, hsame, if_neg (Ne.symm hi), add_zero]

/-- **One event** keeps the books and the documents of the transfers that are
there, and a posting has as many documents as it was for. -/
theorem DocumentBooks.serialStep (h : DocumentBooks db) {e : Event} (hs : SerialStep Q e db db') :
    DocumentBooks db' ∧
    (∀ t, e = .posted t → t.transfer ∈ db'.transfers ∧
      documentsOf db' t.transfer.id = if t.document.isSome then 1 else 0) ∧
    ∀ u ∈ db.transfers, u ∈ db'.transfers ∧ documentsOf db' u.id = documentsOf db u.id := by
  cases hs with
  | @posted _ db₁ _ t planned known posted documented =>
    obtain ⟨-, es, hposted⟩ := postTransfer_ok posted
    obtain ⟨hbooks, hcount, hothers⟩ := h.posted planned hposted documented
    have hkeeps : db'.transfers = db₁.transfers := documented.keeps.transfers
    refine ⟨hbooks, fun u hu => ?_, fun u hu => ⟨?_, hothers u.id (hposted.id_fresh u hu)⟩⟩
    · cases hu
      refine ⟨?_, hcount⟩
      rw [hkeeps, ← Table.mem_rows, hposted.transfers_eq]
      exact List.mem_append_right _ (List.mem_singleton_self _)
    · rw [hkeeps]
      exact hposted.extends.transfers.subset hu
  | refused =>
    refine ⟨h, fun u hu => ?_, fun u hu => ⟨hu, rfl⟩⟩
    cases hu
  | closed closed =>
    obtain ⟨period, -, ⟨-, hfalse, -⟩ | ⟨-, -, -, hupdate⟩⟩ := closePeriod_ok closed
    · cases hfalse
    have hchange : Change (fun _ _ => False) db db' := .periodClosed hupdate
    have hx := hchange.extends
    obtain ⟨-, rfl⟩ := updatePeriod_ok hupdate
    refine ⟨h.same hx rfl rfl, fun u hu => ?_, fun u hu => ⟨hu, rfl⟩⟩
    cases hu
  | opened inserted standard =>
    have hchange : Change (fun _ _ => False) db db' := .accountOpened inserted standard
    have hx := hchange.extends
    obtain ⟨-, -, -, -, -, accounts, -, rfl⟩ := insertAccount_ok inserted
    refine ⟨h.same hx rfl rfl, fun u hu => ?_, fun u hu => ⟨hu, rfl⟩⟩
    cases hu

/-- **A whole run.** -/
theorem DocumentBooks.serial {start : Db} {log : List Event} (hs : Serial Q start log db)
    (h : DocumentBooks start) :
    DocumentBooks db ∧
    (∀ t, .posted t ∈ log → documentsOf db t.transfer.id = if t.document.isSome then 1 else 0) ∧
    ∀ u ∈ start.transfers, documentsOf db u.id = documentsOf start u.id := by
  induction hs with
  | nil => exact ⟨h, fun t ht => absurd ht List.not_mem_nil, fun u _ => rfl⟩
  | cons first rest ih =>
    obtain ⟨hbooks, hnew, hold⟩ := h.serialStep first
    obtain ⟨hend, hposted, hthere⟩ := ih hbooks
    refine ⟨hend, fun t ht => ?_, fun u hu => ?_⟩
    · rcases List.mem_cons.mp ht with rfl | hlater
      · obtain ⟨hmem, hcount⟩ := hnew t rfl
        exact (hthere _ hmem).trans hcount
      · exact hposted t hlater
    · obtain ⟨hmem, hcount⟩ := hold u hu
      exact (hthere u hmem).trans hcount

end

/-! ## Any number of them -/

/-- **Documents are numbered without gaps or duplicates**, in the order of the
commits, whatever else fails or goes on; each is for a transfer of its type in
its fund, and a committed transfer has exactly the documents it was posted for. -/
theorem documents_numbered {P : Type} [DecidableEq P] {Q : Db → Posting → Prop} {start : Db}
    {clock : Timestamp} {s : Sessions P World Session} (genesis : Genesis start)
    (hrun : (services Q).Run (freshSessions start clock) s) :
    DocumentBooks s.shared.db ∧ ∀ t, .posted t ∈ s.shared.log →
      documentsOf s.shared.db t.transfer.id = if t.document.isSome then 1 else 0 := by
  have hserial := (concurrent_serial genesis.funded.linked hrun).shared.serial
  obtain ⟨hbooks, hposted, -⟩ := DocumentBooks.serial hserial genesis.documentBooks
  exact ⟨hbooks, hposted⟩

/-! ## A capital call -/

def documentOf100 : DocumentCall where
  env := envOf 1
  document := .capitalCall 1 (.finite ⟨10000, -2⟩) 32 46
  idempotencyKey := "call"
  requestHash := .blank
  createdBy := ""

/-- The capital call has begun, and nothing else has happened. -/
def callBegun : World × Session := (⟨buildPeFund, 1, []⟩, ⟨.begun documentOf100, [], []⟩)

theorem run_call {Q : Db → Posting → Prop} {n : ℕ} (h : (steps n callBegun).isSome) :
    (services Q).Run (freshSessions buildPeFund 1) (single (afterSteps n callBegun)) := by
  have hbegin : (services Q).Run (single (⟨buildPeFund, 1, []⟩, .idle)) (single callBegun) :=
    .single (step_single fun _ _ => .beginDocument)
  rw [freshSessions_eq]
  exact hbegin.trans (run_afterSteps h)

theorem documents_numbered_documentOf100 :
    numbersIn CapitalCall.fund CapitalCall.callNumber
      (afterSteps 16 callBegun).1.db.capitalCalls.rows 1 = [1] ∧
    DocumentBooks (afterSteps 16 callBegun).1.db := by
  have hsteps : (steps 16 callBegun).isSome := by decide +kernel
  have hrun := run_call (Q := fun _ _ => True) hsteps
  have hnumbers : numbersIn CapitalCall.fund CapitalCall.callNumber
      (afterSteps 16 callBegun).1.db.capitalCalls.rows 1 = [1] := by decide +kernel
  generalize afterSteps 16 callBegun = reached at hrun hnumbers ⊢
  exact ⟨hnumbers, (documents_numbered genesis_buildPeFund hrun).1⟩

end FundLedger
