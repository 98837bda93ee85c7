import FundLedger.Concurrency.Overdraft
import FundLedger.Operations.CalledCapital

/-!
# Reversals under concurrency

A reversal reads the entries of its original, and copies them flipped.  Other
transactions commit in between, but nobody adds to a transfer that is there, so
the copy still matches when it is committed.  The unique `reverses` column
leaves one of several reversals of a transfer.
-/

namespace FundLedger

open Lib Relation

/-- What the caller of a plain posting knows: the period is a row, and what is
taken back is a transfer with these entries. -/
structure Sourced (db : Db) (a : Posting) : Prop where
  period : Holds db a.period
  original : KnownReversal db a

/-- The reversals of a database: at most one for each original, with the
original's entries flipped. -/
structure TakenBack (db : Db) : Prop extends ReversalBooks db where
  flipped : ∀ t ∈ db.transfers, ∀ o ∈ db.transfers, t.reverses = some o.id →
    List.Forall₂ Flipped (entriesById db o.id) (entriesOf db t.id)

section

variable {db db' : Db} {env : Env} {a b : Posting} {es : List Entry}

theorem entriesById_eq (h : ∀ i, entriesOf db' i = entriesOf db i) (i : Uuid) :
    entriesById db' i = entriesById db i := by
  rw [entriesById, entriesById, h]

theorem Keeps.entriesOf_eq (h : Keeps db db') (i : Uuid) :
    entriesOf db' i = FundLedger.entriesOf db i := by
  rw [FundLedger.entriesOf, FundLedger.entriesOf, h.entries]

theorem Posted.entriesById_of_mem (h : Posted env a db db' es) {o : Transfer}
    (ho : o ∈ db.transfers) : entriesById db' o.id = FundLedger.entriesById db o.id := by
  rw [FundLedger.entriesById, FundLedger.entriesById, h.entriesOf_of_mem ho]

/-- A known original stays known. -/
theorem KnownReversal.posted (h : KnownReversal db b) (posted : Posted env a db db' es) :
    KnownReversal db' b := by
  intro hkind
  obtain ⟨o, ho, hot, hlegs, hrev⟩ := h hkind
  refine ⟨o, posted.mem_transfers.mpr (.inl ho), hot, ?_, hrev⟩
  rw [posted.entriesById_of_mem ho]
  exact hlegs

theorem KnownReversal.keeps (h : KnownReversal db b) (keeps : Keeps db db') :
    KnownReversal db' b := by
  intro hkind
  obtain ⟨o, ho, hot, hlegs, hrev⟩ := h hkind
  refine ⟨o, keeps.transfers ▸ ho, hot, ?_, hrev⟩
  rw [entriesById_eq keeps.entriesOf_eq]
  exact hlegs

theorem Genesis.takenBack (h : Genesis db) : TakenBack db := by
  refine ⟨h.reversalBooks, fun t ht => ?_⟩
  rw [← Table.mem_rows, h.transfers] at ht
  cases ht

theorem TakenBack.keeps (h : TakenBack db) (keeps : Keeps db db') : TakenBack db' := by
  refine ⟨keeps.reversalBooks h.toReversalBooks, fun t ht o ho hto => ?_⟩
  rw [entriesById_eq keeps.entriesOf_eq, keeps.entriesOf_eq]
  exact h.flipped t (keeps.transfers ▸ ht) o (keeps.transfers ▸ ho) hto

/-- **A posting** that knows its original keeps the reversals. -/
theorem TakenBack.posted (h : TakenBack db) (posted : Posted env a db db' es)
    (known : KnownReversal db a) (books : Books db) (sound : SoundEntries db) : TakenBack db' := by
  have hbooks := posted.reversalBooks known books sound h.toReversalBooks
  refine ⟨hbooks, fun t ht o ho hto => ?_⟩
  -- an original is there before its reversal
  have hold : ∀ u ∈ db.transfers, u.reverses = some o.id → o ∈ db.transfers := by
    intro u hu huo
    have hkind : u.transferType = .REVERSAL := by
      by_contra hne
      cases (h.plain u hu hne).symm.trans huo
    obtain ⟨o', ho', huo', -, -⟩ := h.target u hu hkind
    have hid : o'.id = o.id := Option.some.inj (huo'.symm.trans huo)
    obtain rfl : o' = o := Table.eq_of_key_eq (posted.mem_transfers.mpr (.inl ho')) ho hid
    exact ho'
  rcases posted.mem_transfers.mp ht with htold | rfl
  · have hoold := hold t htold hto
    rw [posted.entriesById_of_mem hoold, posted.entriesOf_of_mem htold]
    exact h.flipped t htold o hoold hto
  · have hkind : a.transferType = .REVERSAL :=
      posted.reverses_type.resolve_left fun hnone => by cases hnone.symm.trans hto
    obtain ⟨o', ho', -, hlegs, hrev⟩ := known hkind
    have hid : o'.id = o.id := Option.some.inj (hrev.symm.trans hto)
    obtain rfl : o' = o := Table.eq_of_key_eq (posted.mem_transfers.mpr (.inl ho')) ho hid
    rw [posted.entriesById_of_mem ho', posted.entriesOf_new books]
    exact posted.flipped hlegs sound

end

/-! ## The assertions -/

section

variable {Q : Db → Posting → Prop} {start : Db}

/-- The books of a world, and its entries. -/
theorem World.Ok.changes {w : World} (h : w.Ok Q start) (hQ : ∀ d a, Q d a → Holds d a.period) :
    Changes AnyPosting start w.db :=
  h.serial.changes hQ

theorem World.Ok.books {w : World} (h : w.Ok Q start) (hQ : ∀ d a, Q d a → Holds d a.period)
    (genesis : Genesis start) : Books w.db :=
  (h.changes hQ).invariant (fun _ _ hb hc => hb.change hc) genesis.books

theorem World.Ok.sound {w : World} (h : w.Ok Q start) (hQ : ∀ d a, Q d a → Holds d a.period)
    (genesis : Genesis start) : SoundEntries w.db :=
  genesis.soundEntries.later (h.changes hQ).later

/-- The plain posting of a session still knows its original. -/
def Session.KnowsOriginal (w : World) (s : Session) : Prop :=
  ∀ t, s.phase.ticket = some t → t.document = none → KnownReversal w.db t.posting

/-- A document is not a reversal. -/
theorem Ticket.Planned.type_eq {t : Ticket} {db : Db} (h : t.Planned db) {d : DocumentRequest}
    {number : ℕ} (hd : t.document = some (d, number)) :
    t.posting.transferType = .CAPITAL_CALL ∨ t.posting.transferType = .DISTRIBUTION := by
  obtain ⟨-, env, before, plan, key, requestHash, createdBy, -, -, hposting⟩ := h d number hd
  rw [hposting]
  cases d with
  | capitalCall => exact .inl rfl
  | distribution => exact .inr rfl

/-- What a session commits knows its original. -/
theorem Session.KnowsOriginal.known {w : World} {s : Session} (h : s.KnowsOriginal w) {t : Ticket}
    (ht : s.phase.ticket = some t) (planned : t.Planned w.db) : KnownReversal w.db t.posting := by
  cases hdocument : t.document with
  | none => exact h t ht hdocument
  | some document =>
    intro hkind
    rcases planned.type_eq hdocument with htype | htype <;> cases htype.symm.trans hkind

/-- Whatever is committed, what a session knows is still so. -/
theorem Session.KnowsOriginal.later {w w' : World} {s u : Session} {free : Demand → Prop}
    {s' : Session} (h : u.KnowsOriginal w) (moved : Move Q free w s w' s')
    (hlinked : Linked w.db) (hok : s.Ok Q w.db) : u.KnowsOriginal w' := by
  intro t ht hplain
  have hknown := h t ht hplain
  rcases moved.committed hlinked hok with ⟨keeps, -⟩ |
    ⟨_, db₁, es, -, -, -, posted, documented⟩
  · exact hknown.keeps keeps
  · exact (hknown.posted posted).keeps documented.keeps

/-- **The assertions about reversals are sound.** -/
theorem takenBack_sound (genesis : Genesis start) (hQ : ∀ d a, Q d a → Sourced d a) :
    (services Q).SoundOver (World.Ok Q start) (fun w s => s.Ok Q w.db)
      (fun w => TakenBack w.db) fun w s => s.KnowsOriginal w := by
  have hperiod : ∀ d a, Q d a → Holds d a.period := fun d a h => (hQ d a h).period
  constructor
  · intro free w s w' s' moved h hok hback hknows
    have hlinked := h.serial.linked h.linked
    constructor
    · rcases moved.committed hlinked hok with ⟨keeps, -⟩ |
        ⟨t, db₁, es, ht, -, planned, posted, documented⟩
      · exact hback.keeps keeps
      · exact (hback.posted posted (hknows.known ht planned) (h.books hperiod genesis)
          (h.sound hperiod genesis)).keeps documented.keeps
    · intro t' ht' hplain
      obtain ⟨hdb, ⟨t, ht, hposting, hdocument⟩ | ⟨-, hknown⟩ | ⟨c, plan, -, -, hdocument⟩⟩ :=
        moved.ticket ht'
      · rw [hdb, hposting]
        exact hknows t ht (hdocument ▸ hplain)
      · rw [hdb]
        exact (hQ _ _ hknown).original
      · cases hdocument.symm.trans hplain
  · intro free w s w' s' u moved h hok _ _ _ _ hu
    exact hu.later moved (h.serial.linked h.linked) hok
  · intro w w' changed h hback
    have hkeeps := Environment.keeps changed
    exact ⟨hback.keeps hkeeps, fun _ hu t ht hplain => (hu t ht hplain).keeps hkeeps⟩

end

section

variable {P : Type} [DecidableEq P] {start : Db} {clock : Timestamp}
  {s : Sessions P World Session}

theorem takenBack_of_run {Q : Db → Posting → Prop} (genesis : Genesis start)
    (hQ : ∀ d a, Q d a → Sourced d a) (hrun : (services Q).Run (freshSessions start clock) s) :
    (services Q).Holding (fun w => w.Ok Q start ∧ TakenBack w.db)
      (fun w s => s.Ok Q w.db ∧ s.KnowsOriginal w) s := by
  apply ((takenBack_sound genesis hQ).sound services_sound).run (services_disciplined Q) _ hrun
  have hfresh : (services Q).Holding (World.Ok Q start) (fun w s => s.Ok Q w.db)
      (freshSessions start clock : Sessions P World Session) :=
    holding_fresh clock genesis.funded.linked
  refine ⟨hfresh.exclusive, ⟨hfresh.shared, genesis.takenBack⟩, fun p => ⟨hfresh.each p, ?_⟩⟩
  intro t ht
  cases ht

/-- **A transfer is taken back once and whole**, whatever else is committed
between the reading of its entries and the commit of the reversal. -/
theorem reversed_once (genesis : Genesis start)
    (hrun : (services Sourced).Run (freshSessions start clock) s) :
    (∀ o ∈ s.shared.db.transfers, ∀ t ∈ s.shared.db.transfers, ∀ u ∈ s.shared.db.transfers,
      t.reverses = some o.id → u.reverses = some o.id → t = u) ∧
    ∀ t ∈ s.shared.db.transfers, t.transferType = .REVERSAL → ∃ o ∈ s.shared.db.transfers,
      t.reverses = some o.id ∧ o.transferType ≠ .REVERSAL ∧
      List.Forall₂ Flipped (entriesById s.shared.db o.id) (entriesOf s.shared.db t.id) := by
  have hback : TakenBack s.shared.db := (takenBack_of_run genesis (fun _ _ h => h) hrun).shared.2
  refine ⟨fun o _ t ht u hu hto huo => ?_, fun t ht hkind => ?_⟩
  · apply hback.unique t ht u hu _ (hto.trans huo.symm)
    rw [hto]
    rfl
  · obtain ⟨o, ho, hto, hot, -⟩ := hback.target t ht hkind
    exact ⟨o, ho, hto, hot, hback.flipped t ht o ho hto⟩

end

/-! ## A deposit taken back -/

/-- The row of the deposit. -/
def depositRow : Transfer := transferFor (envOf 1) depositOf100

/-- The deposit is committed, and its reversal has begun. -/
def undoBegun : World × Session :=
  let db := (afterSteps 9 depositBegun).1.db
  ((afterSteps 9 depositBegun).1,
    .ofPosting (envOf 2) (reversalPosting db depositRow "undo" h1 ""))

theorem reversed_once_depositRow :
    ((afterSteps 9 undoBegun).1.db.transfers.rows.map Transfer.reverses = [none, some 1001]) ∧
    ∀ t ∈ (afterSteps 9 undoBegun).1.db.transfers, ∀ u ∈ (afterSteps 9 undoBegun).1.db.transfers,
      t.reverses = some depositRow.id → u.reverses = some depositRow.id → t = u := by
  have hdeposit : (steps 9 depositBegun).isSome := by decide +kernel
  have hundo : (steps 9 undoBegun).isSome := by decide +kernel
  have hrows : (afterSteps 9 undoBegun).1.db.transfers.rows.map Transfer.reverses =
      [none, some 1001] := by decide +kernel
  have hmem : depositRow ∈ (afterSteps 9 undoBegun).1.db.transfers.rows := by decide +kernel
  have hperiod : h1 ∈ buildPeFund.periods.rows := by decide +kernel
  have hperiod' : h1 ∈ (afterSteps 9 depositBegun).1.db.periods.rows := by decide +kernel
  have hrow : depositRow ∈ (afterSteps 9 depositBegun).1.db.transfers.rows := by decide +kernel
  have hfirst : Sourced buildPeFund depositOf100 := by
    refine ⟨⟨h1, hperiod, rfl, rfl⟩, fun hkind => ?_⟩
    cases hkind
  have hsecond : Sourced (afterSteps 9 depositBegun).1.db
      (reversalPosting (afterSteps 9 depositBegun).1.db depositRow "undo" h1 "") := by
    refine ⟨⟨h1, hperiod', rfl, rfl⟩, fun _ => ⟨depositRow, hrow, ?_, rfl, rfl⟩⟩
    exact nofun
  have hrun : (services Sourced).Run (freshSessions buildPeFund 1)
      (single (afterSteps 9 undoBegun)) := by
    apply (run_deposit hfirst hdeposit).trans
    apply (run_idle _).trans
    exact (run_ofPosting _ _ (envOf 2) hsecond).trans (run_afterSteps hundo)
  generalize afterSteps 9 undoBegun = reached at hrows hmem hrun ⊢
  exact ⟨hrows, (reversed_once genesis_buildPeFund hrun).1 depositRow hmem⟩

end FundLedger
