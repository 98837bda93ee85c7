import FundLedger.Concurrency.Alone

/-!
# No overdraft

However many transfers run at once, no cash account goes below zero, and each
answer of the overdraft check is the one that the transfers committed so far
give: the check reads balances of accounts that the session has locked.
-/

namespace FundLedger

open Lib Relation

/-- No cash account is below zero. -/
def NoOverdraft (db : Db) : Prop :=
  ∀ a ∈ db.accounts, a.accountType = .CASH → 0 ≤ nativeBalance db a.id

/-- Every entry has its transfer and its account, and no cash account is below
zero. -/
structure Funded (db : Db) : Prop where
  linked : Linked db
  entry_account : ∀ e ∈ db.entries, ∃ a ∈ db.accounts, a.id = e.account
  no_overdraft : NoOverdraft db

theorem Genesis.funded {db : Db} (h : Genesis db) : Funded db := by
  have hnone : ∀ e ∈ db.entries, False := by
    intro e he
    rw [← Table.mem_rows, h.entries] at he
    cases he
  refine ⟨fun e he => (hnone e he).elim, fun e he => (hnone e he).elim, fun a _ _ => ?_⟩
  rw [nativeBalance, accountEntries, h.entries]
  exact le_rfl

/-! ## One posting -/

section

variable {env : Env} {a : Posting} {db db' : Db} {es : List Entry}

theorem Posted.accountEntries (h : Posted env a db db' es) (account : Uuid)
    (asOf : Option Timestamp) : accountEntries db' account asOf =
      FundLedger.accountEntries db account asOf ++
        es.filter fun e => e.account = account ∧ asOfCut asOf e := by
  rw [FundLedger.accountEntries, h.entries_eq, List.filter_append]
  rfl

theorem Posted.accounts_eq (h : Posted env a db db' es) : db'.accounts = db.accounts := by
  obtain ⟨transfers, entries, -, -, rfl⟩ := h.appended
  rfl

theorem Posted.funded (h : Posted env a db db' es) (hdb : Funded db) : Funded db' := by
  refine ⟨h.linked hdb.linked, ?_, ?_⟩
  · intro e he
    rw [h.accounts_eq]
    rw [← Table.mem_rows, h.entries_eq, List.mem_append] at he
    rcases he with hold | hnew
    · exact hdb.entry_account e hold
    · obtain ⟨b, hb, hbe, -⟩ := h.exists_account hnew
      exact ⟨b, hb, hbe⟩
  · intro c hc htype
    rw [h.accounts_eq] at hc
    have hnew : (es.filter fun e => e.account = c.id ∧ asOfCut none e) =
        group Entry.account c.id es := by
      rw [group]
      simp [asOfCut]
    have hold : 0 ≤ nativeBalance db c.id := hdb.no_overdraft c hc htype
    rw [nativeBalance, h.accountEntries, sumBy_append, hnew]
    show 0 ≤ nativeBalance db c.id + _
    rcases h.covered hc htype with hmove | htotal
    · exact add_nonneg hold hmove
    · exact htotal

/-- What posts nothing overdraws nothing. -/
theorem Keeps.funded (h : Keeps db db') (hdb : Funded db) : Funded db' := by
  have hbalance : ∀ i, nativeBalance db' i = nativeBalance db i := by
    intro i
    rw [nativeBalance, nativeBalance, FundLedger.accountEntries, FundLedger.accountEntries,
      h.entries]
  refine ⟨h.linked hdb.linked, ?_, ?_⟩
  · rw [h.entries]
    intro e he
    obtain ⟨b, hb, hbe⟩ := hdb.entry_account e he
    exact ⟨b, h.accounts b hb, hbe⟩
  · intro c hc htype
    rw [hbalance]
    by_cases hused : ∃ e ∈ db.entries, e.account = c.id
    · obtain ⟨e, he, hec⟩ := hused
      obtain ⟨b, hb, hbe⟩ := hdb.entry_account e he
      obtain rfl : b = c := Table.eq_of_key_eq (h.accounts b hb) hc (hbe.trans hec)
      exact hdb.no_overdraft b hb htype
    · -- a new account has no entries
      have hnil : FundLedger.accountEntries db c.id = [] := by
        apply List.filter_eq_nil_iff.mpr
        intro e he hboth
        exact hused ⟨e, he, (of_decide_eq_true hboth).1⟩
      rw [nativeBalance, hnil]
      exact le_rfl

end

/-! ## Any number of them -/

/-- The posting of a session whose balances have all been checked. -/
def Phase.accepted : Phase → Option (Ticket × List PricedLeg)
  | .checking t priced [] => some (t, priced)
  | .inserting t priced _ => some (t, priced)
  | .posted t priced => some (t, priced)
  | .documented t priced => some (t, priced)
  | _ => none

section

variable {Q : Db → Posting → Prop} {start : Db}

/-- What a session has found sufficient is sufficient now. -/
theorem Session.Ok.accepted {db : Db} {s : Session} (h : s.Ok Q db) {t : Ticket}
    {priced : List PricedLeg} (haccepted : s.phase.accepted = some (t, priced)) :
    preparePosting t.env db t.posting t.legs = .ok priced := by
  obtain ⟨phase, locks, writes⟩ := s
  cases phase with
  | checking u priced' todo =>
    cases todo with
    | nil =>
      cases haccepted
      obtain ⟨-, -, -, hprice, done, hdeltas, hdone⟩ := h
      exact preparePosting_of_checked hprice hdeltas hdone
    | cons d todo => cases haccepted
  | inserting =>
    cases haccepted
    exact h.2.1.prepared
  | posted =>
    cases haccepted
    exact h.2.1.prepared
  | documented =>
    cases haccepted
    exact h.2.1.prepared
  | _ => cases haccepted

/-- **No overdraft under any interleaving.**  In every state that any number of
sessions reach, no cash account is below zero; the commits and the refusals so
far are those of the sequential services, run in the order of the commits; and
whatever a running transaction has accepted is what they would accept now. -/
theorem no_overdraft {P : Type} [DecidableEq P] {clock : Timestamp}
    {s : Sessions P World Session} (funded : Funded start)
    (hrun : (services Q).Run (freshSessions start clock) s) :
    NoOverdraft s.shared.db ∧ Serial Q start s.shared.log s.shared.db ∧
    ∀ p t priced, (s.locals p).phase.accepted = some (t, priced) →
      preparePosting t.env s.shared.db t.posting t.legs = .ok priced := by
  have hholds := concurrent_serial funded.linked hrun
  have hserial : Serial Q start s.shared.log s.shared.db := hholds.shared.serial
  have hfunded : Funded s.shared.db :=
    hserial.invariant (fun posted hf => posted.funded hf) (fun keeps hf => keeps.funded hf) funded
  exact ⟨hfunded.no_overdraft, hserial, fun p _ _ haccepted => (hholds.each p).accepted haccepted⟩

end

/-! ## A deposit -/

/-- A deposit of 100 from the general partner. -/
def depositOf100 : Posting where
  idempotencyKey := "deposit"
  legs := [
    { accountId := 100, direction := "DEBIT", amount := .finite ⟨100, 0⟩ },
    { accountId := 104, direction := "CREDIT", amount := .finite ⟨100, 0⟩ }]
  period := h1
  transferType := .ADJUSTMENT

/-- The deposit has begun, and nothing else has happened. -/
def depositBegun : World × Session :=
  (⟨buildPeFund, 1, []⟩, .ofPosting (envOf 1) depositOf100)

/-- A run of the deposit alone. -/
theorem run_deposit {Q : Db → Posting → Prop} (known : Q buildPeFund depositOf100) {n : ℕ}
    (h : (steps n depositBegun).isSome) :
    (services Q).Run (freshSessions buildPeFund 1) (single (afterSteps n depositBegun)) := by
  have hbegin : (services Q).Run (single (⟨buildPeFund, 1, []⟩, .idle)) (single depositBegun) :=
    run_ofPosting 1 [] (envOf 1) known
  rw [freshSessions_eq]
  exact hbegin.trans (run_afterSteps h)

/-- The deposit is committed after nine steps. -/
theorem no_overdraft_depositOf100 :
    nativeBalance (afterSteps 9 depositBegun).1.db 100 = 1000000 ∧
    NoOverdraft (afterSteps 9 depositBegun).1.db := by
  have hsteps : (steps 9 depositBegun).isSome := by decide +kernel
  have hrun := run_deposit (Q := fun _ _ => True) trivial hsteps
  exact ⟨by decide +kernel, (no_overdraft genesis_buildPeFund.funded hrun).1⟩

end FundLedger
