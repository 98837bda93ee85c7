import FundLedger.Operations.TrialBalance

/-!
# Later states

Between two calls anything may happen that the system allows: other calls, the
passing of days, and the publication of exchange rates.  `Later` is that
relation on databases.

What a later database still contains is collected in `Extends`: rows are
appended and never changed or removed, except that a period may have been
closed.  So a lookup that succeeded once keeps its answer.
-/

namespace FundLedger

open Lib Relation

/-- Publish a rate. -/
def insertFxRate (db : Db) (r : FxRate) : Except Exc Db := do
  require (r.fromCurrency.length ≤ 3 ∧ r.toCurrency.length ≤ 3) .data
  require (0 < r.rate) (.integrity "fxrate_positive")
  require (r.fromCurrency ≠ r.toCurrency) (.integrity "fxrate_distinct_currencies")
  let fxRates ← orRaise (db.fxRates.insert r) (.integrity "funds_fxrate_pkey")
  require (∀ s ∈ db.fxRates.rows, ¬(s.fromCurrency = r.fromCurrency ∧
      s.toCurrency = r.toCurrency ∧ s.asOfDate = r.asOfDate))
    (.integrity "fxrate_unique_per_day")
  return { db with fxRates }

def publish (r : FxRate) : M Unit := Tx.statement fun db => insertFxRate db r

theorem publish_ok {r : FxRate} {db : Db} (h : (publish r db).1 = .ok ()) :
    insertFxRate db r = .ok (publish r db).2 :=
  Tx.statement_ok.mp (Prod.ext h rfl)

/-- One change, or a new rate. -/
inductive LaterStep : Db → Db → Prop
  | change {db db' : Db} (h : Change AnyPosting db db') : LaterStep db db'
  | rate {r : FxRate} {db db' : Db} (inserted : insertFxRate db r = .ok db') : LaterStep db db'

abbrev Later : Db → Db → Prop := ReflTransGen LaterStep

theorem Changes.later {Q : Db → Posting → Prop} {db db' : Db} (h : Changes Q db db') :
    Later db db' :=
  ReflTransGen.mono (fun _ _ hc => LaterStep.change hc) _ _ (h.mono fun _ _ _ => trivial)

theorem later_afterCalls (db : Db) (calls : List Call) : Later db (afterCalls db calls) :=
  (afterCalls_changes calls db).later

/-- The rule for an invariant of later states. -/
theorem Later.invariant {I : Db → Prop} (hstep : ∀ db db', I db → LaterStep db db' → I db')
    {db db' : Db} (h : Later db db') (hI : I db) : I db' := by
  induction h with
  | refl => exact hI
  | tail _ hlast ih => exact hstep _ _ ih hlast

/-- A step posts, or keeps the transfers and the entries. -/
theorem LaterStep.posted_or_keeps {db db' : Db} (h : LaterStep db db') :
    (∃ env a es, Holds db a.period ∧ Posted env a db db' es) ∨ Keeps db db' := by
  cases h with
  | change h =>
    obtain ⟨env, a, es, -, held, posted⟩ | keeps := h.posted_or_keeps
    · exact .inl ⟨env, a, es, held, posted⟩
    · exact .inr keeps
  | rate inserted =>
    simp only [insertFxRate, except_bind_ok, except_pure] at inserted
    obtain ⟨_, -, _, -, _, -, fxRates, -, _, -, rfl⟩ := inserted
    exact .inr ⟨rfl, rfl, fun _ ha => ha, fun p hp => ⟨p, hp, rfl, rfl, rfl⟩⟩

theorem Books.later {db db' : Db} (hb : Books db) (h : Later db db') : Books db' := by
  refine h.invariant (fun d d' hd hstep => ?_) hb
  obtain ⟨env, a, es, held, posted⟩ | keeps := hstep.posted_or_keeps
  · exact posted.books held hd
  · exact hd.of_keeps keeps

/-! ## What is still there -/

/-- `f` changes the status of a period at most. -/
def KeepsOutline (f : Period → Period) : Prop :=
  ∀ p, (f p).id = p.id ∧ (f p).fund = p.fund ∧ (f p).startDate = p.startDate ∧
    (f p).endDate = p.endDate

/-- `db'` has all the rows of `db`. -/
structure Extends (db db' : Db) : Prop where
  funds : db'.funds = db.funds
  lps : db'.lps = db.lps
  commitments : db'.commitments = db.commitments
  periods : ∃ f, KeepsOutline f ∧ db'.periods.rows = db.periods.rows.map f
  accounts : db.accounts.rows <+: db'.accounts.rows
  transfers : db.transfers.rows <+: db'.transfers.rows
  entries : db.entries.rows <+: db'.entries.rows
  capitalCalls : db.capitalCalls.rows <+: db'.capitalCalls.rows
  distributions : db.distributions.rows <+: db'.distributions.rows

theorem keepsOutline_id : KeepsOutline id := fun _ => ⟨rfl, rfl, rfl, rfl⟩

private theorem periods_same (db : Db) :
    ∃ f, KeepsOutline f ∧ db.periods.rows = db.periods.rows.map f :=
  ⟨id, keepsOutline_id, by simp⟩

theorem Extends.refl (db : Db) : Extends db db :=
  ⟨rfl, rfl, rfl, periods_same db, List.prefix_refl _, List.prefix_refl _, List.prefix_refl _,
    List.prefix_refl _, List.prefix_refl _⟩

theorem Extends.trans {a b c : Db} (h₁ : Extends a b) (h₂ : Extends b c) : Extends a c := by
  obtain ⟨f, hf, hfb⟩ := h₁.periods
  obtain ⟨g, hg, hgc⟩ := h₂.periods
  refine ⟨h₂.funds.trans h₁.funds, h₂.lps.trans h₁.lps, h₂.commitments.trans h₁.commitments,
    ⟨g ∘ f, fun p => ?_, ?_⟩, h₁.accounts.trans h₂.accounts, h₁.transfers.trans h₂.transfers,
    h₁.entries.trans h₂.entries, h₁.capitalCalls.trans h₂.capitalCalls,
    h₁.distributions.trans h₂.distributions⟩
  · obtain ⟨hi, hfu, hs, he⟩ := hf p
    obtain ⟨gi, gfu, gs, ge⟩ := hg (f p)
    exact ⟨gi.trans hi, gfu.trans hfu, gs.trans hs, ge.trans he⟩
  · rw [hgc, hfb, List.map_map]

theorem Change.extends {Q : Db → Posting → Prop} {db db' : Db} (h : Change Q db db') :
    Extends db db' := by
  have hrefl := Extends.refl db
  cases h with
  | posted known held posted =>
    obtain ⟨transfers, entries, ht, he, rfl⟩ := posted.appended
    exact { hrefl with transfers := ⟨_, ht.symm⟩, entries := ⟨_, he.symm⟩ }
  | accountOpened inserted =>
    obtain ⟨-, -, -, -, -, accounts, hins, rfl⟩ := insertAccount_ok inserted
    exact { hrefl with accounts := ⟨_, (Table.insert_eq_some.mp hins).2.symm⟩ }
  | capitalCall inserted =>
    obtain ⟨-, -, calls, hins, rfl⟩ := insertCapitalCall_ok inserted
    exact { hrefl with capitalCalls := ⟨_, (Table.insert_eq_some.mp hins).2.symm⟩ }
  | distribution inserted =>
    obtain ⟨-, -, dists, hins, rfl⟩ := insertDistribution_ok inserted
    exact { hrefl with distributions := ⟨_, (Table.insert_eq_some.mp hins).2.symm⟩ }
  | periodClosed updated =>
    obtain ⟨-, rfl⟩ := updatePeriod_ok updated
    refine { hrefl with periods := ⟨_, fun p => ?_, rfl⟩ }
    split <;> exact ⟨rfl, rfl, rfl, rfl⟩

theorem LaterStep.extends {db db' : Db} (h : LaterStep db db') : Extends db db' := by
  cases h with
  | change h => exact h.extends
  | rate inserted =>
    simp only [insertFxRate, except_bind_ok, except_pure] at inserted
    obtain ⟨_, -, _, -, _, -, fxRates, -, _, -, rfl⟩ := inserted
    exact { Extends.refl db with }

/-- **A later database has all the rows of an earlier one.** -/
theorem Later.extends {db db' : Db} (h : Later db db') : Extends db db' := by
  induction h with
  | refl => exact .refl db
  | tail _ hstep ih => exact ih.trans hstep.extends

/-! ## Lookups keep their answers -/

theorem find?_of_prefix {α : Type} {p : α → Bool} {l l' : List α} (h : l <+: l') {a : α}
    (ha : l.find? p = some a) : l'.find? p = some a := by
  obtain ⟨rest, rfl⟩ := h
  rw [List.find?_append, ha, Option.some_or]

namespace Extends

variable {db db' : Db}

theorem transferByKey (h : Extends db db') {key : String} {t : Transfer}
    (ht : FundLedger.transferByKey db key = some t) :
    FundLedger.transferByKey db' key = some t :=
  find?_of_prefix h.transfers ht

theorem getTransfer (h : Extends db db') {i : Uuid} {t : Transfer}
    (ht : db.transfers.get? i = some t) : db'.transfers.get? i = some t :=
  find?_of_prefix h.transfers ht

theorem reversalOf (h : Extends db db') {i : Uuid} {t : Transfer}
    (ht : FundLedger.reversalOf db i = some t) : FundLedger.reversalOf db' i = some t :=
  find?_of_prefix h.transfers ht

theorem findAccount (h : Extends db db') {fund : Uuid} {code : String} {a : Account}
    (ha : FundLedger.findAccount db fund code = some a) :
    FundLedger.findAccount db' fund code = some a :=
  find?_of_prefix h.accounts ha

theorem getFund (h : Extends db db') (i : Uuid) :
    FundLedger.getFund db' i = FundLedger.getFund db i := by
  rw [FundLedger.getFund, FundLedger.getFund, h.funds]

theorem getAccount (h : Extends db db') {fund : Fund} {t : AccountType} {currency : Option String}
    {a : Account} (ha : FundLedger.getAccount db fund t currency = .ok a) :
    FundLedger.getAccount db' fund t currency = .ok a := by
  obtain ⟨code, hcode, hfind⟩ := except_bind_ok.mp ha
  exact except_bind_ok.mpr ⟨code, hcode,
    orRaise_eq_ok.mpr (h.findAccount (orRaise_eq_ok.mp hfind))⟩

private theorem argmin_map {α : Type} {key : α → ℕ} {f : α → α} (hf : ∀ a, key (f a) = key a)
    (l : List α) : (l.map f).argmin key = (l.argmin key).map f := by
  induction l using List.reverseRecOn with
  | nil => rfl
  | append_singleton l a ih =>
    rw [List.map_append, List.map_singleton, List.argmin_concat, List.argmin_concat, ih]
    cases l.argmin key with
    | none => rfl
    | some b =>
      simp only [Option.map_some, hf]
      split <;> rfl

/-- The same period covers a day, whether or not it has been closed. -/
theorem periodFor (h : Extends db db') {fund : Uuid} {onDate : Date} {p : Period}
    (hp : FundLedger.periodFor db fund onDate = .ok p) :
    ∃ q, FundLedger.periodFor db' fund onDate = .ok q ∧ q.id = p.id ∧ q.fund = p.fund := by
  obtain ⟨f, hf, hrows⟩ := h.periods
  refine ⟨f p, ?_, (hf p).1, (hf p).2.1⟩
  have hcover : (db'.periods.rows.filter fun p =>
        p.fund = fund ∧ p.startDate ≤ onDate ∧ onDate ≤ p.endDate) =
      (db.periods.rows.filter fun p =>
        p.fund = fund ∧ p.startDate ≤ onDate ∧ onDate ≤ p.endDate).map f := by
    rw [hrows, List.filter_map]
    congr 1
    refine List.filter_congr fun p _ => ?_
    simp only [Function.comp_apply, (hf p).2.1, (hf p).2.2.1, (hf p).2.2.2]
  have hmin := orRaise_eq_ok.mp hp
  rw [FundLedger.periodFor, hcover]
  refine orRaise_eq_ok.mpr ?_
  rw [argmin_map fun p => (hf p).2.2.1, hmin, Option.map_some]

theorem getPeriod_map (h : Extends db db') : ∃ f, KeepsOutline f ∧
    ∀ i, db'.periods.get? i = (db.periods.get? i).map f := by
  obtain ⟨f, hf, hrows⟩ := h.periods
  refine ⟨f, hf, fun i => ?_⟩
  rw [Table.get?, Table.get?, hrows, List.find?_map]
  congr 2
  funext p
  rw [Function.comp_apply, (hf p).1]

theorem getPeriod (h : Extends db db') {i : Uuid} {p : Period} (hp : db.periods.get? i = some p) :
    ∃ q, db'.periods.get? i = some q ∧ q.fund = p.fund := by
  obtain ⟨f, hf, hget⟩ := h.getPeriod_map
  exact ⟨f p, by rw [hget, hp, Option.map_some], (hf p).2.1⟩

end Extends

end FundLedger
