import FundLedger.Concurrency.Overdraft
import FundLedger.Lib.Deadlock

/-!
# No deadlock

Whatever a transaction waits for ranks above all that it holds: first the fund
row, then the accounts in ascending order, then the unique keys of the transfer,
the period row, and the number of the document.  `Session.Climbing` is this
invariant, phase by phase, and `no_deadlock` what follows from it.

The id of an entry is random, so it is not among what a session waits for.
-/

namespace FundLedger

open Lib Relation

/-! ## The order -/

def Resource.rank : Resource → ℕ ×ₗ ℕ
  | .fund _ => toLex (0, 0)
  | .account id => toLex (1, id)
  | .period _ => toLex (3, 0)

def Write.rank : Write → ℕ ×ₗ ℕ
  | .transfer _ => toLex (2, 0)
  | .entry _ => toLex (4, 0)
  | .capitalCall _ => toLex (5, 0)
  | .distribution _ => toLex (5, 0)
  | .closed .. => toLex (6, 0)

/-- The place of a demand in the global order. -/
def Demand.rank : Demand → ℕ ×ₗ ℕ
  | .lock r _ => r.rank
  | .row w => w.rank

theorem Demand.Clash.rank_eq {d c : Demand} (h : d.Clash c) : d.rank = c.rank := by
  cases d with
  | lock r m =>
    cases c with
    | lock r' m' =>
      obtain ⟨rfl, -⟩ := h
      rfl
    | row x => exact h.elim
  | row w =>
    cases c with
    | lock r' m' => exact h.elim
    | row x => cases w <;> cases x <;> first | rfl | exact h.elim

/-- What the next statement of a session waits for. -/
def Session.Wants (w : World) (s : Session) (d : Demand) : Prop :=
  match s.phase with
  | .begun c => d = .lock (.fund c.document.fundId) .update
  | .locking _ (i :: _) => d = .lock (.account i) .update
  | .checking t _ [] => d = .row (.transfer (t.stamp w.clock).transfer)
  | .inserting t _ (_ :: _) => d = .lock (.period t.posting.period.id) .share
  | .posted t _ => ∃ document number units, t.document = some (document, number) ∧
      d = .row (document.row (t.env.uuid4 .document) number units t.transfer.id)
  | .closingBegun c => d = .lock (.period c.periodId) .update
  | .reconciled c period => d = .row (.closed period.id c.env.now c.closedBy)
  | _ => False

/-- All claims of a session in this phase rank below. -/
def Phase.level : Phase → ℕ ×ₗ ℕ
  | .idle => toLex (0, 0)
  | .begun _ => toLex (0, 0)
  | .planning _ => toLex (1, 0)
  | .numbering _ _ => toLex (1, 0)
  | .locking _ (i :: _) => toLex (1, i)
  | .locking _ [] => toLex (2, 0)
  | .checking _ _ _ => toLex (2, 0)
  | .inserting _ _ _ => toLex (5, 0)
  | .posted _ _ => toLex (5, 0)
  | .documented _ _ => toLex (6, 0)
  | .closingBegun _ => toLex (0, 0)
  | .closing _ _ => toLex (6, 0)
  | .inOrder _ _ => toLex (6, 0)
  | .reconciled _ _ => toLex (6, 0)
  | .closed _ _ => toLex (7, 0)

/-- Accounts are locked in ascending order, and the period after the transfer. -/
def Session.InTurn (s : Session) : Prop :=
  match s.phase with
  | .locking _ todo => todo.Pairwise (· < ·)
  | .inserting t _ _ => (.period t.posting.period.id, .share) ∉ s.locks →
      ∀ c, s.Claims c → c.rank < toLex (3, 0)
  | _ => True

structure Session.Climbing (s : Session) : Prop where
  below : ∀ c, s.Claims c → c.rank < s.phase.level
  inTurn : s.InTurn

/-! ## The invariant -/

section

variable {Q : Db → Posting → Prop} {free : Demand → Prop} {w w' : World} {s s' : Session}

theorem rank_lt {a b c d : ℕ} (h : a < c ∨ a = c ∧ b < d) :
    (toLex (a, b) : ℕ ×ₗ ℕ) < toLex (c, d) :=
  Prod.Lex.toLex_lt_toLex.mpr h

theorem rank_le {a b c d : ℕ} (h : a < c ∨ a = c ∧ b ≤ d) :
    (toLex (a, b) : ℕ ×ₗ ℕ) ≤ toLex (c, d) :=
  Prod.Lex.toLex_le_toLex.mpr h

/-- One more lock. -/
theorem claims_cons (phase : Phase) {phase' : Phase} {l : Resource × LockMode} {ls} {ws : List Write}
    {c : Demand} (h : Session.Claims ⟨phase', l :: ls, ws⟩ c) :
    c = .lock l.1 l.2 ∨ Session.Claims ⟨phase, ls, ws⟩ c := by
  cases c with
  | lock r m =>
    rcases List.mem_cons.mp h with rfl | hold
    · exact .inl rfl
    · exact .inr hold
  | row x => exact .inr h

/-- One more row. -/
theorem claims_append (phase : Phase) {phase' : Phase} {ls} {ws : List Write} {x : Write} {c : Demand}
    (h : Session.Claims ⟨phase', ls, ws ++ [x]⟩ c) :
    c = .row x ∨ Session.Claims ⟨phase, ls, ws⟩ c := by
  cases c with
  | lock r m => exact .inr h
  | row y =>
    rcases List.mem_append.mp h with hold | hnew
    · exact .inr hold
    · rw [List.mem_singleton.mp hnew]
      exact .inl rfl

theorem climbing_idle : Session.idle.Climbing :=
  ⟨fun _ hc => absurd hc not_claims_nil, trivial⟩

/-- The same claims, in a phase with a level that is no lower. -/
theorem Session.Climbing.of_le {phase phase' : Phase} {ls ws}
    (h : Session.Climbing ⟨phase, ls, ws⟩) (hle : phase.level ≤ phase'.level)
    (hturn : Session.InTurn ⟨phase', ls, ws⟩) : Session.Climbing ⟨phase', ls, ws⟩ :=
  ⟨fun c hc => (h.below c hc).trans_le hle, hturn⟩

theorem lockOrder_sorted (legs : List ValidLeg) : (lockOrder legs).Pairwise (· < ·) := by
  have hsorted := List.pairwise_insertionSort (· ≤ ·) (legs.map ValidLeg.accountId).dedup
  have hnodup : (lockOrder legs).Nodup :=
    (List.perm_insertionSort (· ≤ ·) _).nodup_iff.mpr (List.nodup_dedup _)
  exact (hsorted.and hnodup).imp fun hboth => lt_of_le_of_ne hboth.1 hboth.2

theorem level_locking (t : Ticket) (todo : List Uuid) :
    toLex (1, 0) ≤ (Phase.locking t todo).level := by
  cases todo with
  | nil => exact rank_le (.inl (by omega))
  | cons i todo => exact rank_le (.inr ⟨rfl, by omega⟩)

/-- **A session's own moves** keep to the order. -/
theorem Move.climbing (moved : Move Q free w s w' s') (h : s.Climbing) : s'.Climbing := by
  cases moved with
  | @beginPosting env a legs =>
    exact ⟨fun c hc => absurd hc not_claims_nil, lockOrder_sorted legs⟩
  | beginDocument => exact ⟨fun c hc => absurd hc not_claims_nil, trivial⟩
  | lockFund =>
    refine ⟨fun c hc => ?_, trivial⟩
    rcases claims_cons (.begun _) hc with rfl | hold
    · exact rank_lt (.inl (by omega))
    · exact (h.below c hold).trans (rank_lt (.inl (by omega)))
  | plan => exact h.of_le le_rfl trivial
  | @number c ls ws plan legs valid =>
    exact h.of_le (level_locking _ _) (lockOrder_sorted legs)
  | @lockAccount t ls ws a todo =>
    obtain ⟨hhead, hrest⟩ := List.pairwise_cons.mp h.inTurn
    have hup : toLex (1, a.id) < (Phase.locking t todo).level := by
      cases todo with
      | nil => exact rank_lt (.inl (by omega))
      | cons i todo => exact rank_lt (.inr ⟨rfl, hhead i List.mem_cons_self⟩)
    refine ⟨fun c hc => ?_, hrest⟩
    rcases claims_cons (.locking t (a.id :: todo)) hc with rfl | hold
    · exact hup
    · exact (h.below c hold).trans hup
  | price => exact h.of_le le_rfl trivial
  | checkFunds => exact h.of_le le_rfl trivial
  | @insertTransfer t ls ws priced es db inserted unclaimed rows =>
    have hlow : ∀ c, Session.Claims ⟨.inserting (t.stamp w.clock) priced es, ls,
        ws ++ [.transfer (t.stamp w.clock).transfer]⟩ c → c.rank < toLex (3, 0) := by
      intro c hc
      rcases claims_append (.checking t priced []) hc with rfl | hold
      · exact rank_lt (.inl (by omega))
      · exact (h.below c hold).trans (rank_lt (.inl (by omega)))
    exact ⟨fun c hc => (hlow c hc).trans (rank_lt (.inl (by omega))), fun _ => hlow⟩
  | @insertEntry t ls ws priced e todo =>
    refine ⟨fun c hc => ?_, fun hnot => absurd List.mem_cons_self hnot⟩
    rcases claims_append (.inserting t priced (e :: todo)) hc with rfl | hold
    · exact rank_lt (.inl (by omega))
    · rcases claims_cons (.inserting t priced (e :: todo)) hold with rfl | hold
      · exact rank_lt (.inl (by omega))
      · exact h.below c hold
  | checkBalance => exact h.of_le le_rfl trivial
  | @insertDocument t ls ws priced d =>
    refine ⟨fun c hc => ?_, trivial⟩
    rcases claims_append (.posted t priced) hc with rfl | hold
    · cases d with
      | capitalCall => exact rank_lt (.inl (by omega))
      | distribution => exact rank_lt (.inl (by omega))
    · exact (h.below c hold).trans (rank_lt (.inl (by omega)))
  | beginClosing => exact ⟨fun c hc => absurd hc not_claims_nil, trivial⟩
  | @lockPeriod c ls ws =>
    refine ⟨fun d hd => ?_, trivial⟩
    rcases claims_cons (.closingBegun c) hd with rfl | hold
    · exact rank_lt (.inl (by omega))
    · exact (h.below d hold).trans (rank_lt (.inl (by omega)))
  | checkEarlier => exact h.of_le le_rfl trivial
  | checkImbalance => exact h.of_le le_rfl trivial
  | @close c ls ws period =>
    refine ⟨fun d hd => ?_, trivial⟩
    rcases claims_append (.reconciled c period) hd with rfl | hold
    · exact rank_lt (.inl (by omega))
    · exact (h.below d hold).trans (rank_lt (.inl (by omega)))
  | refuse | commitPosting | commitDocument | alreadyClosed | commitClosing | rollback =>
    exact climbing_idle

/-- **What a session waits for ranks above what it has.** -/
theorem Session.Climbing.climbs (h : s.Climbing) :
    (services Q).Climbs Demand.rank (Session.Wants w) s := by
  intro d hd hnot c hc
  obtain ⟨phase, locks, writes⟩ := s
  cases phase with
  | begun => exact hd ▸ h.below c hc
  | locking t todo =>
    cases todo with
    | nil => exact hd.elim
    | cons i todo => exact hd ▸ h.below c hc
  | checking t priced todo =>
    cases todo with
    | nil => exact hd ▸ h.below c hc
    | cons d' todo => exact hd.elim
  | inserting t priced todo =>
    cases todo with
    | nil => exact hd.elim
    | cons e todo =>
      -- the period, and it is not locked yet
      subst hd
      exact h.inTurn hnot c hc
  | posted t priced =>
    obtain ⟨document, number, units, -, rfl⟩ := hd
    cases document with
    | capitalCall => exact h.below c hc
    | distribution => exact h.below c hc
  | closingBegun => exact (h.below c hc).trans_le (hd ▸ rank_le (.inl (by omega)))
  | reconciled => exact hd ▸ h.below c hc
  | _ => exact hd.elim

/-- **A move waits for nothing else**: a step that a session takes on its own
is possible as soon as what it wants is free. -/
theorem Move.unblocked (moved : Move Q (fun _ => True) w s w' s')
    (hwants : ∀ d, s.Wants w d → free d)
    (hentry : ∀ t priced e todo, s.phase = .inserting t priced (e :: todo) →
      free (.row (.entry e))) : Move Q free w s w' s' := by
  cases moved with
  | beginPosting known valid => exact .beginPosting known valid
  | beginDocument => exact .beginDocument
  | lockFund found => exact .lockFund found (hwants _ rfl)
  | plan planned => exact .plan planned
  | number valid => exact .number valid
  | lockAccount found => exact .lockAccount found (hwants _ rfl)
  | price checked => exact .price checked
  | checkFunds enough => exact .checkFunds enough
  | refuse short => exact .refuse short
  | insertTransfer inserted _ rows => exact .insertTransfer inserted (hwants _ rfl) rows
  | insertEntry _ inserted =>
    exact .insertEntry (hwants _ rfl) inserted (hentry _ _ _ _ rfl)
  | checkBalance balanced => exact .checkBalance balanced
  | insertDocument document stored inserted =>
    exact .insertDocument document stored inserted (hwants _ ⟨_, _, _, document, rfl⟩)
  | commitPosting plain => exact .commitPosting plain
  | commitDocument => exact .commitDocument
  | beginClosing => exact .beginClosing
  | lockPeriod _ found => exact .lockPeriod (hwants _ rfl) found
  | alreadyClosed closed => exact .alreadyClosed closed
  | checkEarlier isOpen earlier => exact .checkEarlier isOpen earlier
  | checkImbalance zero => exact .checkImbalance zero
  | close updated => exact .close updated (hwants _ rfl)
  | commitClosing => exact .commitClosing
  | rollback => exact .rollback

theorem climbing_sound : (services Q).Sound (fun _ => True) fun _ s => s.Climbing := by
  constructor
  · intro free w s w' s' moved _ h
    exact ⟨trivial, Move.climbing moved h⟩
  · intro free w s w' s' u _ _ _ _ _ hu
    exact hu
  · intro w w' _ _
    exact ⟨trivial, fun hu => hu⟩

end

/-! ## Any number of sessions -/

section

variable {P : Type} [DecidableEq P] {Q : Db → Posting → Prop} {start : Db} {clock : Timestamp}
  {s : Sessions P World Session}

/-- **No deadlock**, in any reachable state.  Nobody waits in a circle; and of
finitely many sessions each one waits, directly or not, for one that can go on:
whatever it does next on its own, it can do now. -/
theorem no_deadlock [Finite P] (hrun : (services Q).Run (freshSessions start clock) s) (p : P) :
    ¬TransGen ((services Q).Waits (Session.Wants s.shared) s.locals) p p ∧
    ∃ q, ReflTransGen ((services Q).Waits (Session.Wants s.shared) s.locals) p q ∧
      ((∀ t priced e todo, (s.locals q).phase = .inserting t priced (e :: todo) →
        (services Q).Free s.locals q (.row (.entry e))) →
      ∀ w' s', Move Q (fun _ => True) s.shared (s.locals q) w' s' →
        (services Q).Step s ⟨w', Function.update s.locals q s'⟩) := by
  have hfresh : (services Q).Holding (fun _ => True) (fun _ s => s.Climbing)
      (freshSessions start clock : Sessions P World Session) :=
    ⟨fun _ _ _ _ hd => absurd hd not_claims_nil, trivial, fun _ => climbing_idle⟩
  have hends := climbing_sound.run (services_disciplined Q) hfresh hrun
  have hrank : ∀ d c : Demand, (services Q).Clash d c → d.rank = c.rank :=
    fun d c hclash => Demand.Clash.rank_eq hclash
  have hclimbs : ∀ p, (services Q).Climbs Demand.rank (Session.Wants s.shared) (s.locals p) :=
    fun p => (hends.each p).climbs
  refine ⟨Protocol.no_cycle hrank hends.exclusive hclimbs p, ?_⟩
  obtain ⟨q, hpq, hfree⟩ := Protocol.exists_free hrank hends.exclusive hclimbs p
  exact ⟨q, hpq, fun hentry w' s' moved => .move (moved.unblocked hfree hentry)⟩

end

/-! ## Two deposits at once -/

/-- Of two postings of the same legs, one has locked the first account, and the
other one waits for it. -/
theorem run_two {Q : Db → Posting → Prop} {db : Db} {a : Posting} {legs : List ValidLeg}
    {cash : Account} {rest : List Uuid} (known : Q db a) (valid : validateLegs a.legs = .ok legs)
    (order : lockOrder legs = cash.id :: rest) (hmem : cash ∈ db.accounts) :
    ∃ s : Sessions Bool World Session, (services Q).Run (freshSessions db 1) s ∧
      (services Q).Waits (Session.Wants s.shared) s.locals false true := by
  let t : Ticket := { env := envOf 1, posting := a, legs, valid, document := none }
  let begun : Session := ⟨.locking t (lockOrder legs), [], []⟩
  let locked : Session := ⟨.locking t rest, [(.account cash.id, .update)], []⟩
  let w : World := ⟨db, 1, []⟩
  let s₁ := Function.update (fun _ : Bool => Session.idle) false begun
  let s₂ := Function.update s₁ true begun
  let s₃ := Function.update s₂ true locked
  have hbegin : ∀ free : Demand → Prop, Move Q free w .idle w begun :=
    fun free => .beginPosting known valid
  have hlock : ∀ free : Demand → Prop, (∀ d, free d) → Move Q free w begun w locked := by
    intro free hfree
    show Move _ free w ⟨.locking t (lockOrder legs), [], []⟩ w _
    rw [order]
    exact .lockAccount hmem (hfree _)
  have hfree : ∀ d, (services Q).Free s₂ true d := by
    intro d q hq c hclaim
    cases q with
    | true => exact absurd rfl hq
    | false => exact absurd hclaim not_claims_nil
  refine ⟨⟨w, s₃⟩, ?_, by decide, .lock (.account cash.id) .update, ?_,
    .lock (.account cash.id) .update, List.mem_singleton_self _, rfl, fun hboth => by
      cases hboth.1⟩
  · exact .tail (.tail (.single (.move (p := false) (hbegin _))) (.move (p := true) (hbegin _)))
      (.move (p := true) (hlock _ hfree))
  · show Session.Wants w ⟨.locking t (lockOrder legs), [], []⟩ _
    rw [order]
    rfl

/-- One deposit waits for the other one, and not the other way round. -/
theorem no_deadlock_twoDeposits : ∃ s : Sessions Bool World Session,
    (services fun _ _ => True).Run (freshSessions buildPeFund 1) s ∧
    (services fun _ _ => True).Waits (Session.Wants s.shared) s.locals false true ∧
    ¬(services fun _ _ => True).Waits (Session.Wants s.shared) s.locals true false := by
  have horder : lockOrder <$> validateLegs depositOf100.legs = .ok [100, 104] := by decide +kernel
  have hcash : (buildPeFund.accounts.get? 100).isSome := by decide +kernel
  obtain ⟨cash, hget⟩ := Option.isSome_iff_exists.mp hcash
  obtain ⟨hmem, hid⟩ := Table.get?_eq_some.mp hget
  cases hvalid : validateLegs depositOf100.legs with
  | error e =>
    rw [hvalid] at horder
    cases horder
  | ok legs =>
    rw [hvalid] at horder
    have hlegs : lockOrder legs = cash.id :: [104] := by
      rw [hid]
      exact Except.ok.inj horder
    obtain ⟨s, hrun, hwaits⟩ := run_two (Q := fun _ _ => True) trivial hvalid hlegs hmem
    exact ⟨s, hrun, hwaits, fun hback => (no_deadlock hrun true).1 (.tail (.single hback) hwaits)⟩

end FundLedger
