import FundLedger.Concurrency.Sessions
import FundLedger.Ledger.Acceptance
import FundLedger.Operations.Later

/-!
# What a transaction sees and leaves

A statement that succeeds leaves the row that `Write.store` adds.  `Recorded`
says, about the committed database only, that a transfer and some of its
entries can be inserted; their view is then the committed database with these
rows at the end.  Once all entries are there, the sequential `postTransfer`
ends in the same database.
-/

namespace FundLedger

open Lib

/-! ## Statements and rows -/

theorem Write.store_of_run {w : Write} {db db' : Db} (h : w.run db = .ok db') :
    w.store db = db' := by
  cases w with
  | transfer t =>
    obtain ⟨-, -, -, -, -, -, -, transfers, hins, rfl⟩ := insertTransfer_ok h
    rw [store, hins, Option.getD_some]
  | entry e =>
    obtain ⟨-, -, -, -, -, -, entries, hins, rfl⟩ := insertEntry_ok h
    rw [store, hins, Option.getD_some]
  | capitalCall c =>
    obtain ⟨-, -, calls, hins, rfl⟩ := insertCapitalCall_ok h
    rw [store, hins, Option.getD_some]
  | distribution d =>
    obtain ⟨-, -, dists, hins, rfl⟩ := insertDistribution_ok h
    rw [store, hins, Option.getD_some]
  | closed period now closedBy =>
    obtain ⟨-, rfl⟩ := updatePeriod_ok h
    rfl

@[simp] theorem view_nil (db : Db) : view db [] = db := rfl

theorem view_append (db : Db) (ws : List Write) (w : Write) :
    view db (ws ++ [w]) = w.store (view db ws) := by
  rw [view, List.foldl_append]
  rfl

/-- The rows of a posting. -/
def postingRows (t : Transfer) (es : List Entry) : List Write :=
  .transfer t :: es.map .entry

theorem postingRows_append (t : Transfer) (es : List Entry) (e : Entry) :
    postingRows t es ++ [.entry e] = postingRows t (es ++ [e]) := by
  rw [postingRows, postingRows, List.map_append]
  rfl

/-- The statements of a posting, one after another. -/
theorem view_postingRows {db db₁ db₂ : Db} {t : Transfer} {es : List Entry}
    (ht : insertTransfer db t = .ok db₁) (hes : insertEntries db₁ es = .ok db₂) :
    view db (postingRows t es) = db₂ := by
  have hentries : ∀ {es : List Entry} {d : Db}, insertEntries d es = .ok db₂ →
      view d (es.map .entry) = db₂ := by
    intro es
    induction es with
    | nil =>
      intro d h
      exact Except.ok.inj h
    | cons e es ih =>
      intro d h
      rw [insertEntries, List.foldlM_cons, except_bind_ok] at h
      obtain ⟨d₁, hd₁, hrest⟩ := h
      have hstore : (Write.entry e).store d = d₁ :=
        @Write.store_of_run (.entry e) d d₁ hd₁
      show view ((Write.entry e).store d) _ = _
      rw [hstore]
      exact ih hrest
  have hstore : (Write.transfer t).store db = db₁ :=
    @Write.store_of_run (.transfer t) db db₁ ht
  show view ((Write.transfer t).store db) _ = _
  rw [hstore]
  exact hentries hes

/-! ## A transfer and its entries -/

/-- The committed database accepts the entry, but for its period. -/
structure EntryReady (db : Db) (e : Entry) : Prop where
  amount_pos : 0 < e.amount
  baseAmount_pos : 0 < e.baseAmount
  iso4217 : isIso4217 e.currency
  fxRate_pos : ∀ r ∈ e.fxRate, 0 < r
  account : ∃ a ∈ db.accounts, a.id = e.account ∧ a.currency = e.currency
  fresh : ∀ f ∈ db.entries, f.id ≠ e.id

/-- The committed database accepts the transfer and these entries of it. -/
structure Recorded (db : Db) (t : Transfer) (es : List Entry) : Prop where
  transfer : ∃ db₁, insertTransfer db t = .ok db₁
  entry_transfer : ∀ e ∈ es, e.transfer = t.id
  ready : ∀ e ∈ es, EntryReady db e
  nodup : (es.map Entry.id).Nodup
  period : es ≠ [] → ∃ p, db.periods.get? t.period = some p ∧ p.status = .OPEN

namespace Recorded

variable {db : Db} {t : Transfer} {es : List Entry}

/-- The inserts go through. -/
theorem inserts (h : Recorded db t es) : ∃ transfers entries,
    transfers.rows = db.transfers.rows ++ [t] ∧ entries.rows = db.entries.rows ++ es ∧
    insertTransfer db t = .ok { db with transfers } ∧
    insertEntries { db with transfers } es = .ok { db with transfers, entries } := by
  obtain ⟨db₁, hins⟩ := h.transfer
  obtain ⟨-, -, -, -, -, -, -, transfers, htins, rfl⟩ := insertTransfer_ok hins
  have haccepted : ∀ e ∈ es, EntryAccepted { db with transfers } e := by
    intro e he
    have hr := h.ready e he
    obtain ⟨p, hp, hopen⟩ := h.period (List.ne_nil_of_mem he)
    refine ⟨?_, hr.amount_pos, hr.baseAmount_pos, hr.iso4217, hr.fxRate_pos, hr.account⟩
    have hget : transfers.get? e.transfer = some t := by
      rw [Table.get?_insert htins, if_pos (h.entry_transfer e he).symm]
    simp only [periodStatusOf, hget, hp, Option.pure_def, Option.bind_eq_bind, Option.bind_some,
      hopen]
  obtain ⟨db₂, hdb₂⟩ := insertEntries_isOk haccepted h.nodup fun e he => (h.ready e he).fresh
  obtain ⟨-, entries, hrows, rfl⟩ := insertEntries_ok hdb₂
  exact ⟨transfers, entries, (Table.insert_eq_some.mp htins).2, hrows, hins, hdb₂⟩

/-- The view has the rows at the end. -/
theorem view_eq (h : Recorded db t es) : ∃ transfers entries,
    transfers.rows = db.transfers.rows ++ [t] ∧ entries.rows = db.entries.rows ++ es ∧
    view db (postingRows t es) = { db with transfers, entries } := by
  obtain ⟨transfers, entries, ht, he, hins, hes⟩ := h.inserts
  exact ⟨transfers, entries, ht, he, view_postingRows hins hes⟩

theorem id_fresh (h : Recorded db t es) : ∀ u ∈ db.transfers, u.id ≠ t.id := by
  obtain ⟨db₁, hins⟩ := h.transfer
  obtain ⟨-, -, -, -, -, -, -, transfers, htins, -⟩ := insertTransfer_ok hins
  exact (Table.insert_eq_some.mp htins).1

/-- One more entry. -/
theorem append (h : Recorded db t es) {e : Entry} {db' : Db} (he : e.transfer = t.id)
    (hins : insertEntry (view db (postingRows t es)) e = .ok db') :
    Recorded db t (es ++ [e]) := by
  obtain ⟨transfers, entries, htrows, herows, hview⟩ := h.view_eq
  rw [hview] at hins
  obtain ⟨hopen, hpos, hbase, hiso, hrate, hacc, entries', hins', -⟩ := insertEntry_ok hins
  have hnew := (Table.insert_eq_some.mp hins').1
  have hrows : ∀ f, f ∈ entries ↔ f ∈ db.entries ∨ f ∈ es := by
    intro f
    rw [← Table.mem_rows, herows, List.mem_append]
    rfl
  refine ⟨h.transfer, ?_, ?_, ?_, fun _ => ?_⟩
  · intro f hf
    rcases List.mem_append.mp hf with hf | hf
    · exact h.entry_transfer f hf
    · rw [List.mem_singleton.mp hf]
      exact he
  · intro f hf
    rcases List.mem_append.mp hf with hf | hf
    · exact h.ready f hf
    · rw [List.mem_singleton.mp hf]
      exact ⟨hpos, hbase, hiso, hrate, hacc, fun g hg => hnew g ((hrows g).mpr (.inl hg))⟩
  · rw [List.map_append, List.nodup_append]
    refine ⟨h.nodup, List.nodup_singleton _, fun i hi j hj hij => ?_⟩
    obtain ⟨f, hf, rfl⟩ := List.mem_map.mp hi
    rw [List.map_singleton, List.mem_singleton] at hj
    exact hnew f ((hrows f).mpr (.inr hf)) (hij.trans hj)
  · have hget : transfers.get? e.transfer = some t := by
      refine Table.get?_eq_some.mpr ⟨?_, he.symm⟩
      rw [← Table.mem_rows, htrows]
      exact List.mem_append_right _ (List.mem_singleton_self t)
    simp only [periodStatusOf, hget, Option.pure_def, Option.bind_eq_bind, Option.bind_some,
      Option.bind_eq_some_iff, Option.some.injEq] at hopen
    exact hopen

end Recorded

/-- Each entry belongs to a transfer: the foreign key. -/
def Linked (db : Db) : Prop := ∀ e ∈ db.entries, ∃ t ∈ db.transfers, t.id = e.transfer

/-- The entries of the new transfer are the ones that were inserted. -/
theorem Recorded.entriesOf_view {db : Db} {t : Transfer} {es : List Entry}
    (h : Recorded db t es) (hlinked : Linked db) :
    entriesOf (view db (postingRows t es)) t.id = es := by
  obtain ⟨transfers, entries, -, herows, hview⟩ := h.view_eq
  have hold : group Entry.transfer t.id db.entries.rows = [] := by
    refine group_eq_nil fun e he heq => ?_
    obtain ⟨u, hu, hue⟩ := hlinked e he
    exact h.id_fresh u hu (hue.trans heq)
  rw [hview, entriesOf]
  show group Entry.transfer t.id entries.rows = es
  rw [herows, group_append, hold, List.nil_append]
  exact group_eq_self h.entry_transfer

/-- **The steps of a posting do what `postTransfer` does.** -/
theorem postTransfer_of_steps {t : Ticket} {db : Db} {priced : List PricedLeg} {es : List Entry}
    (hlinked : Linked db) (hprep : preparePosting t.env db t.posting t.legs = .ok priced)
    (hrows : entriesFor t.env t.transfer.id priced = .ok es) (hrec : Recorded db t.transfer es)
    (hbal : sumBy Entry.signedBaseAmount es = 0) :
    postTransfer t.env t.posting db = (.ok t.transfer, view db (postingRows t.transfer es)) := by
  obtain ⟨transfers, entries, -, -, hins, hes⟩ := hrec.inserts
  have hview := view_postingRows hins hes
  have hbalance : assertTransferBalances { db with transfers, entries } t.transfer.id =
      .ok () := by
    rw [assertTransferBalances, ← hview, hrec.entriesOf_view hlinked]
    exact require_eq_ok.mpr hbal
  rw [hview, postTransfer, Tx.bind_apply, Tx.lift, t.valid]
  dsimp only
  simp only [Tx.atomic_ok, Tx.read_bind, Tx.bind_ok, Tx.lift_eq, Tx.statement_ok, Tx.pure_eq]
  exact ⟨priced, db, ⟨hprep.symm, rfl⟩, (), _, hins, es, _, ⟨hrows.symm, rfl⟩, (), _, hes, (), _,
    ⟨hbalance.symm, rfl⟩, rfl, rfl⟩

end FundLedger
