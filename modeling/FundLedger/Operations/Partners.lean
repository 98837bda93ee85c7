import FundLedger.Operations.ChartCodes
import FundLedger.Operations.Later

/-!
# New partners

A fund may take on partners after it has been set up: a row for the partner, a
`Commitment`, and `open_fund_accounts` again, which opens the account that is
still missing.  `Action` lists everything that can happen to a fund then, and
`Growth` is what it does to the database.
-/

namespace FundLedger

open Lib Relation

def insertLp (db : Db) (lp : LimitedPartner) : Except Exc Db := do
  require (lp.name.length ≤ 200) .data
  let lps ← orRaise (db.lps.insert lp) (.integrity "funds_limitedpartner_pkey")
  return { db with lps }

def insertCommitment (db : Db) (c : Commitment) : Except Exc Db := do
  require (0 < c.committedAmount) (.integrity "commitment_amount_positive")
  let commitments ← orRaise (db.commitments.insert c) (.integrity "funds_commitment_pkey")
  require (∀ d ∈ db.commitments.rows, ¬(d.fund = c.fund ∧ d.lp = c.lp))
    (.integrity "commitment_one_per_lp_per_fund")
  require (∃ f ∈ db.funds.rows, f.id = c.fund) (.integrity "funds_commitment_fund_id_fk")
  require (∃ lp ∈ db.lps.rows, lp.id = c.lp) (.integrity "funds_commitment_lp_id_fk")
  return { db with commitments }

theorem insertLp_ok {db db' : Db} {lp : LimitedPartner} (h : insertLp db lp = .ok db') :
    ∃ lps, db.lps.insert lp = some lps ∧ db' = { db with lps } := by
  simp only [insertLp, except_bind_ok, orRaise_eq_ok, except_pure] at h
  obtain ⟨_, -, lps, hins, rfl⟩ := h
  exact ⟨lps, hins, rfl⟩

theorem insertCommitment_ok {db db' : Db} {c : Commitment} (h : insertCommitment db c = .ok db') :
    0 < c.committedAmount ∧ (∀ d ∈ db.commitments, ¬(d.fund = c.fund ∧ d.lp = c.lp)) ∧
    (∃ lp ∈ db.lps, lp.id = c.lp) ∧
    ∃ commitments, db.commitments.insert c = some commitments ∧ db' = { db with commitments } := by
  simp only [insertCommitment, except_bind_ok, require_eq_ok, orRaise_eq_ok, except_pure] at h
  obtain ⟨_, hpos, commitments, hins, _, hone, _, -, _, hlp, rfl⟩ := h
  exact ⟨hpos, hone, hlp, commitments, hins, rfl⟩

/-! ## What can happen to a fund -/

inductive Action
  | call (c : Call)
  | publish (r : FxRate)
  | newPartner (lp : LimitedPartner)
  /-- A commitment, and `open_fund_accounts` for its fund. -/
  | commit (env : Env) (c : Commitment)

def Action.body : Action → M Unit
  | .call c => c.op.run c.env
  | .publish r => FundLedger.publish r
  | .newPartner lp => Tx.statement fun db => insertLp db lp
  | .commit env c => do
    Tx.statement fun db => insertCommitment db c
    let db ← Tx.read
    let fund ← Tx.lift (getFund db c.fund)
    openFundAccounts env fund

/-- The database after an action, whether it succeeded or raised. -/
def Action.run (a : Action) (db : Db) : Db := (a.body db).2

def afterActions (db : Db) (actions : List Action) : Db :=
  actions.foldl (fun db a => a.run db) db

/-! ## What it does -/

/-- One step, where `Q` says what is known about a new commitment. -/
inductive GrowthStep (Q : Db → Commitment → Prop) : Db → Db → Prop
  | later {db db' : Db} (h : LaterStep db db') : GrowthStep Q db db'
  | partner {lp : LimitedPartner} {db db' : Db} (inserted : insertLp db lp = .ok db') :
      GrowthStep Q db db'
  | commitment {c : Commitment} {db db' : Db} (known : Q db c)
      (inserted : insertCommitment db c = .ok db') : GrowthStep Q db db'

abbrev Growth (Q : Db → Commitment → Prop) : Db → Db → Prop := ReflTransGen (GrowthStep Q)

section

variable {Q : Db → Commitment → Prop}

theorem Later.growth {db db' : Db} (h : Later db db') : Growth Q db db' :=
  ReflTransGen.mono (fun _ _ hs => GrowthStep.later hs) _ _ h

/-- The rule for an invariant of a growing database. -/
theorem Growth.invariant {I : Db → Prop} (hstep : ∀ db db', I db → GrowthStep Q db db' → I db')
    {db db' : Db} (h : Growth Q db db') (hI : I db) : I db' := by
  induction h with
  | refl => exact hI
  | tail _ hlast ih => exact hstep _ _ ih hlast

theorem openFundAccounts_changes (Q : Db → Posting → Prop) (env : Env) (fund : Fund) (db : Db) :
    Changes Q db (openFundAccounts env fund db).2 := by
  have hrefl : ∀ d, Changes Q d d := fun _ => .refl
  have htrans : ∀ a b c, Changes Q a b → Changes Q b c → Changes Q a c :=
    fun _ _ _ => ReflTransGen.trans
  refine Tx.bind_rel htrans ?_ fun _ db₁ _ => ?_
  · refine Tx.Moves.forM hrefl htrans (fun t _ d => ?_) db
    rw [Tx.bind_readOnly_snd fun _ => Tx.readOnly_pure _]
    exact Tx.lift_bind_rel .refl fun code hcode => getOrCreateAccount_changes hcode d
  · rw [Tx.read_bind]
    refine Tx.Moves.forM hrefl htrans (fun c _ d => ?_) db₁
    rw [Tx.bind_readOnly_snd fun _ => Tx.readOnly_pure _]
    exact Tx.lift_bind_rel .refl fun code hcode => getOrCreateAccount_changes hcode d

/-- What an action does, when every commitment it may insert satisfies `Q`. -/
theorem Action.run_growth {a : Action} {db : Db} (hQ : ∀ env c, a = .commit env c → Q db c) :
    Growth Q db (a.run db) := by
  cases a with
  | call c => exact (c.op.run_changes c.env db).later.growth
  | publish r => exact Tx.statement_rel .refl fun db' hins => .single (.later (.rate hins))
  | newPartner lp => exact Tx.statement_rel .refl fun db' hins => .single (.partner hins)
  | commit env c =>
    refine Tx.bind_rel (fun _ _ _ => ReflTransGen.trans) ?_ fun _ db₁ _ => ?_
    · exact Tx.statement_rel .refl fun db' hins => .single (.commitment (hQ env c rfl) hins)
    · rw [Tx.read_bind]
      exact Tx.lift_bind_rel .refl fun fund _ =>
        (openFundAccounts_changes Business env fund db₁).later.growth

end

/-! ## What every step keeps -/

/-- A step posts, or keeps the transfers and the entries. -/
theorem GrowthStep.posted_or_keeps {Q : Db → Commitment → Prop} {db db' : Db}
    (h : GrowthStep Q db db') :
    (∃ env a es, Holds db a.period ∧ Posted env a db db' es) ∨ Keeps db db' := by
  have hself : ∀ p ∈ db.periods, ∃ q ∈ db.periods, q.id = p.id ∧ q.fund = p.fund ∧
      q.startDate = p.startDate := fun p hp => ⟨p, hp, rfl, rfl, rfl⟩
  cases h with
  | later h => exact h.posted_or_keeps
  | partner inserted =>
    obtain ⟨lps, -, rfl⟩ := insertLp_ok inserted
    exact .inr ⟨rfl, rfl, fun _ ha => ha, hself⟩
  | commitment known inserted =>
    obtain ⟨-, -, -, commitments, -, rfl⟩ := insertCommitment_ok inserted
    exact .inr ⟨rfl, rfl, fun _ ha => ha, hself⟩

theorem Books.growthStep {Q : Db → Commitment → Prop} {db db' : Db} (hb : Books db)
    (h : GrowthStep Q db db') : Books db' := by
  obtain ⟨env, a, es, held, posted⟩ | keeps := h.posted_or_keeps
  · exact posted.books held hb
  · exact hb.of_keeps keeps

/-- A step adds to the rows, and closes a period at most. -/
structure Grows (db db' : Db) : Prop where
  funds : db'.funds = db.funds
  commitments : db.commitments.rows <+: db'.commitments.rows
  periods : ∃ f, KeepsOutline f ∧ db'.periods.rows = db.periods.rows.map f
  accounts : db.accounts.rows <+: db'.accounts.rows
  transfers : db.transfers.rows <+: db'.transfers.rows

theorem Extends.grows {db db' : Db} (h : Extends db db') : Grows db db' :=
  ⟨h.funds, h.commitments ▸ List.prefix_refl _, h.periods, h.accounts, h.transfers⟩

theorem GrowthStep.grows {Q : Db → Commitment → Prop} {db db' : Db} (h : GrowthStep Q db db') :
    Grows db db' := by
  have hrefl := (Extends.refl db).grows
  cases h with
  | later h => exact h.extends.grows
  | partner inserted =>
    obtain ⟨lps, -, rfl⟩ := insertLp_ok inserted
    exact { hrefl with }
  | commitment known inserted =>
    obtain ⟨-, -, -, commitments, hins, rfl⟩ := insertCommitment_ok inserted
    exact { hrefl with commitments := ⟨_, (Table.insert_eq_some.mp hins).2.symm⟩ }

/-- **One step**: a fund that is well formed stays so, with the partners it had
and maybe new ones. -/
theorem WellFormed.growthStep {Q : Db → Commitment → Prop} {db db' : Db} {fund : Fund}
    (h : WellFormed db fund) (hs : GrowthStep Q db db') : WellFormed db' fund := by
  cases hs with
  | later hl =>
    cases hl with
    | change hc => exact h.change hc
    | rate inserted =>
      simp only [insertFxRate, except_bind_ok, except_pure] at inserted
      obtain ⟨_, -, _, -, _, -, fxRates, -, _, -, rfl⟩ := inserted
      exact { h with }
  | partner inserted =>
    obtain ⟨lps, hins, rfl⟩ := insertLp_ok inserted
    refine { h with partner := fun c hc => ?_ }
    obtain ⟨lp, hlp, hid⟩ := h.partner c hc
    refine ⟨lp, ?_, hid⟩
    rw [← Table.mem_rows, (Table.insert_eq_some.mp hins).2]
    exact List.mem_append_left _ hlp
  | @commitment c _ _ known inserted =>
    obtain ⟨hpos, hone, hlp, commitments, hins, rfl⟩ := insertCommitment_ok inserted
    have hrows : commitmentsOf { db with commitments } fund.id =
        commitmentsOf db fund.id ++ [c].filter fun c => c.fund = fund.id := by
      rw [commitmentsOf, (Table.insert_eq_some.mp hins).2, List.filter_append]
      rfl
    have hmem : ∀ d ∈ commitmentsOf { db with commitments } fund.id,
        d ∈ commitmentsOf db fund.id ∨ d = c := by
      intro d hd
      rw [hrows, List.mem_append] at hd
      exact hd.imp_right fun hd => List.mem_singleton.mp (List.mem_of_mem_filter hd)
    refine { h with positive := fun d hd => ?_, one_commitment := ?_, partner := fun d hd => ?_ }
    · rcases hmem d hd with hd | rfl
      · exact h.positive d hd
      · exact hpos
    · rw [hrows, List.map_append, List.nodup_append']
      refine ⟨h.one_commitment, ?_, fun lp hold hnew => ?_⟩
      · exact ((List.nodup_singleton c).filter _).map_on fun d hd e he _ =>
          (List.mem_singleton.mp (List.mem_of_mem_filter hd)).trans
            (List.mem_singleton.mp (List.mem_of_mem_filter he)).symm
      · obtain ⟨d, hd, rfl⟩ := List.mem_map.mp hold
        obtain ⟨e, he, hed⟩ := List.mem_map.mp hnew
        obtain ⟨hec, hfund⟩ := List.mem_filter.mp he
        obtain rfl := List.mem_singleton.mp hec
        obtain ⟨hdm, hdf⟩ := List.mem_filter.mp hd
        exact hone d hdm ⟨(of_decide_eq_true hdf).trans (of_decide_eq_true hfund).symm, hed.symm⟩
    · rcases hmem d hd with hd | rfl
      · exact h.partner d hd
      · exact hlp

end FundLedger
