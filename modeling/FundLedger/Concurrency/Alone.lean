import FundLedger.Concurrency.Runs
import FundLedger.Operations.Factories

/-!
# A session on its own

`Session.next` computes the next step of a session that nobody is in the way
of.  `Session.move_of_next` says that it is a move, and `run_of_steps` that
computed steps are a run, so a run can be evaluated.
-/

namespace FundLedger

open Lib Relation

/-! ## Computing steps -/

/-- Go on, if the check passed. -/
def orStop {α β : Type} (x : Except Exc α) (f : α → Option β) : Option β :=
  match x with
  | .ok a => f a
  | .error _ => none

theorem orStop_eq_some {α β : Type} {x : Except Exc α} {f : α → Option β} {b : β} :
    orStop x f = some b ↔ ∃ a, x = .ok a ∧ f a = some b := by
  cases x <;> simp [orStop]

/-- The step that the code takes next. -/
def Session.next (w : World) (s : Session) : Option (World × Session) :=
  match s with
  | ⟨.idle, _, _⟩ => none
  | ⟨.begun c, ls, ws⟩ => orStop (getFund w.db c.document.fundId) fun _ =>
    some (w, ⟨.planning c, (.fund c.document.fundId, .update) :: ls, ws⟩)
  | ⟨.planning c, ls, ws⟩ => orStop (c.document.plan c.env w.db) fun plan =>
    some (w, ⟨.numbering c plan, ls, ws⟩)
  | ⟨.numbering c plan, ls, ws⟩ =>
    match valid : validateLegs plan.legs with
    | .ok legs => some (w,
        ⟨.locking (c.ticket plan (c.document.nextNumber w.db) legs valid) (lockOrder legs), ls, ws⟩)
    | .error _ => none
  | ⟨.locking t (i :: todo), ls, ws⟩ => (w.db.accounts.get? i).map fun a =>
    (w, ⟨.locking t todo, (.account a.id, .update) :: ls, ws⟩)
  | ⟨.locking t [], ls, ws⟩ => orStop (pricePosting t.env w.db t.posting t.legs) fun priced =>
    some (w, ⟨.checking t priced (fundDeltas priced), ls, ws⟩)
  | ⟨.checking t priced (d :: todo), ls, ws⟩ =>
    match checkDelta (fun account => nativeBalance w.db account) d with
    | .ok () => some (w, ⟨.checking t priced todo, ls, ws⟩)
    | .error e => some ({ w with log := w.log ++ [.refused t e] }, .idle)
  | ⟨.checking t priced [], ls, ws⟩ =>
    let t := t.stamp w.clock
    orStop ((Write.transfer t.transfer).run (view w.db ws)) fun _ =>
      orStop (entriesFor t.env t.transfer.id priced) fun es =>
        some (w, ⟨.inserting t priced es, ls, ws ++ [.transfer t.transfer]⟩)
  | ⟨.inserting t priced (e :: todo), ls, ws⟩ =>
    orStop ((Write.entry e).run (view w.db ws)) fun _ =>
      some (w, ⟨.inserting t priced todo, (.period t.posting.period.id, .share) :: ls,
        ws ++ [.entry e]⟩)
  | ⟨.inserting t priced [], ls, ws⟩ =>
    orStop (assertTransferBalances (view w.db ws) t.transfer.id) fun _ =>
      some (w, ⟨.posted t priced, ls, ws⟩)
  | ⟨.posted t priced, ls, ws⟩ =>
    match t.document with
    | none => some (w.commit ws (.posted t), .idle)
    | some (d, number) => orStop (storedAmount d.totalAmount) fun units =>
      let row := d.row (t.env.uuid4 .document) number units t.transfer.id
      orStop (row.run (view w.db ws)) fun _ => some (w, ⟨.documented t priced, ls, ws ++ [row]⟩)
  | ⟨.documented t _, _, ws⟩ => some (w.commit ws (.posted t), .idle)
  | ⟨.closingBegun c, ls, ws⟩ => orStop (periodOfFund w.db c.fundId c.periodId) fun period =>
    some (w, ⟨.closing c period, (.period c.periodId, .update) :: ls, ws⟩)
  | ⟨.closing c period, ls, ws⟩ =>
    if period.status = .CLOSED then some (w, .idle)
    else if ∀ p ∈ w.db.periods.rows,
        ¬(p.fund = c.fundId ∧ p.startDate < period.startDate ∧ p.status = .OPEN) then
      some (w, ⟨.inOrder c period, ls, ws⟩)
    else none
  | ⟨.inOrder c period, ls, ws⟩ =>
    if periodImbalance w.db period.id = 0 then some (w, ⟨.reconciled c period, ls, ws⟩) else none
  | ⟨.reconciled c period, ls, ws⟩ =>
    orStop ((Write.closed period.id c.env.now c.closedBy).run (view w.db ws)) fun _ =>
      some (w, ⟨.closed c period, ls, ws ++ [.closed period.id c.env.now c.closedBy]⟩)
  | ⟨.closed c _, _, ws⟩ => some (w.commit ws (.closed c), .idle)

/-- Some steps, one after another. -/
def steps : ℕ → World × Session → Option (World × Session)
  | 0, x => some x
  | n + 1, x => (x.2.next x.1).bind (steps n)

/-! ## They are moves -/

section

variable {Q : Db → Posting → Prop}

theorem Session.move_of_next {free : Demand → Prop} (hfree : ∀ d, free d) {w w' : World}
    {s s' : Session} (h : s.next w = some (w', s')) : Move Q free w s w' s' := by
  unfold Session.next at h
  split at h
  · cases h
  · obtain ⟨fund, hfund, heq⟩ := orStop_eq_some.mp h
    cases heq
    exact .lockFund hfund (hfree _)
  · obtain ⟨plan, hplan, heq⟩ := orStop_eq_some.mp h
    cases heq
    exact .plan hplan
  · split at h
    · cases h
      exact .number _
    · cases h
  · obtain ⟨a, ha, heq⟩ := Option.map_eq_some_iff.mp h
    obtain ⟨hmem, rfl⟩ := Table.get?_eq_some.mp ha
    cases heq
    exact .lockAccount hmem (hfree _)
  · obtain ⟨priced, hpriced, heq⟩ := orStop_eq_some.mp h
    cases heq
    exact .price hpriced
  · split at h
    · rename_i henough
      cases h
      exact .checkFunds henough
    · rename_i hshort
      cases h
      exact .refuse hshort
  · obtain ⟨db, hins, hrest⟩ := orStop_eq_some.mp h
    obtain ⟨es, hrows, heq⟩ := orStop_eq_some.mp hrest
    cases heq
    exact .insertTransfer hins (hfree _) hrows
  · obtain ⟨db, hins, heq⟩ := orStop_eq_some.mp h
    cases heq
    exact .insertEntry (hfree _) hins (hfree _)
  · obtain ⟨⟨⟩, hbalanced, heq⟩ := orStop_eq_some.mp h
    cases heq
    exact .checkBalance hbalanced
  · split at h
    · rename_i hplain
      cases h
      exact .commitPosting hplain
    · rename_i hdocument
      obtain ⟨units, hunits, hrest⟩ := orStop_eq_some.mp h
      obtain ⟨db, hins, heq⟩ := orStop_eq_some.mp hrest
      cases heq
      exact .insertDocument hdocument hunits hins (hfree _)
  · cases h
    exact .commitDocument
  · obtain ⟨period, hfound, heq⟩ := orStop_eq_some.mp h
    cases heq
    exact .lockPeriod (hfree _) hfound
  · split at h
    · rename_i hclosed
      cases h
      exact .alreadyClosed hclosed
    · rename_i hopen
      split at h
      · rename_i hearlier
        cases h
        exact .checkEarlier hopen hearlier
      · cases h
  · split at h
    · rename_i hzero
      cases h
      exact .checkImbalance hzero
    · cases h
  · obtain ⟨db, hupdate, heq⟩ := orStop_eq_some.mp h
    cases heq
    exact .close hupdate (hfree _)
  · cases h
    exact .commitClosing

/-- The only session of a run. -/
def single (x : World × Session) : Sessions Unit World Session := ⟨x.1, fun _ => x.2⟩

theorem freshSessions_eq (db : Db) (clock : Timestamp) :
    freshSessions db clock = single (⟨db, clock, []⟩, .idle) := rfl

/-- A move of the only session. -/
theorem step_single {x y : World × Session}
    (h : ∀ free : Demand → Prop, (∀ d, free d) → Move Q free x.1 x.2 y.1 y.2) :
    (services Q).Step (single x) (single y) := by
  have hfree : ∀ d, (services Q).Free (single x).locals () d := fun d q hq => absurd rfl hq
  have hstep : (services Q).Step (single x) ⟨y.1, Function.update (single x).locals () y.2⟩ :=
    .move (h _ hfree)
  have hlocals : Function.update (single x).locals () y.2 = fun _ => y.2 := by
    funext p
    exact dif_pos rfl
  rw [hlocals] at hstep
  exact hstep

/-- **Computed steps are a run.** -/
theorem run_of_steps {n : ℕ} {x y : World × Session} (h : steps n x = some y) :
    (services Q).Run (single x) (single y) := by
  induction n generalizing x with
  | zero =>
    cases h
    exact .refl
  | succ n ih =>
    obtain ⟨z, hnext, hrest⟩ := Option.bind_eq_some_iff.mp h
    exact .head (step_single fun _ hfree => Session.move_of_next hfree hnext) (ih hrest)

/-- Where the steps lead. -/
def afterSteps (n : ℕ) (x : World × Session) : World × Session := (steps n x).getD x

theorem run_afterSteps {n : ℕ} {x : World × Session} (h : (steps n x).isSome) :
    (services Q).Run (single x) (single (afterSteps n x)) := by
  obtain ⟨y, hy⟩ := Option.isSome_iff_exists.mp h
  apply run_of_steps
  rw [afterSteps, hy, Option.getD_some]

/-- The clock goes on. -/
def tickTo (now : Timestamp) (x : World × Session) : World × Session :=
  ({ x.1 with clock := now }, x.2)

theorem run_tickTo {now : Timestamp} {x : World × Session} (later : x.1.clock ≤ now) :
    (services Q).Run (single x) (single (tickTo now x)) :=
  .single (.environment (.tick later))

/-- The connection is free again. -/
theorem run_idle (x : World × Session) : (services Q).Run (single x) (single (x.1, .idle)) :=
  .single (step_single fun _ _ => .rollback)

theorem run_ofClosing (w : World) (c : Closing) :
    (services Q).Run (single (w, .idle)) (single (w, ⟨.closingBegun c, [], []⟩)) :=
  .single (step_single fun _ _ => .beginClosing)

/-- A posting that has begun, if its legs are valid. -/
def Session.ofPosting (env : Env) (a : Posting) : Session :=
  match valid : validateLegs a.legs with
  | .ok legs => ⟨.locking { env, posting := a, legs, valid, document := none } (lockOrder legs),
      [], []⟩
  | .error _ => .idle

theorem run_ofPosting {db : Db} (clock : Timestamp) (log : List Event) (env : Env) {a : Posting}
    (known : Q db a) : (services Q).Run (single (⟨db, clock, log⟩, .idle))
      (single (⟨db, clock, log⟩, .ofPosting env a)) := by
  unfold Session.ofPosting
  split
  · exact .single (step_single fun _ _ => .beginPosting known _)
  · exact .refl

end

end FundLedger
