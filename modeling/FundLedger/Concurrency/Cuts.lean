import FundLedger.Concurrency.ClosedBooks

/-!
# Balances as of an instant

An entry is stamped when its `INSERT` starts and becomes visible when its
transaction commits.  A session that has stamped entries holds the locks of
their accounts until it commits, so on one account the stamps are in the order
of the commits.

* `Timed` is the invariant of the committed entries, and `Session.Stamped` the
  assertion of a session between its stamp and its commit.
* `cuts_consistent`: a cut at any instant is a prefix of the entries of each
  account, it balances, and no cash account is below zero in it.
* `balance_asOf_repeats`: a cut in the past reads the same later, once no
  session is between its stamp and its commit with an earlier stamp.
-/

namespace FundLedger

open Lib Relation

/-- In a list in order, the elements up to a bound come first. -/
theorem filter_le_prefix {α : Type} {key : α → ℕ} {l : List α}
    (h : l.Pairwise fun a b => key a ≤ key b) (t : ℕ) :
    l.filter (fun a => key a ≤ t) <+: l := by
  induction l with
  | nil => exact List.prefix_refl _
  | cons a l ih =>
    obtain ⟨ha, hl⟩ := List.pairwise_cons.mp h
    by_cases hle : key a ≤ t
    · rw [List.filter_cons, if_pos (decide_eq_true hle)]
      exact (List.prefix_cons_inj a).mpr (ih hl)
    · have hnil : l.filter (fun b => key b ≤ t) = [] := by
        apply List.filter_eq_nil_iff.mpr
        intro b hb hbt
        exact hle ((ha b hb).trans (of_decide_eq_true hbt))
      rw [List.filter_cons, if_neg fun hk => hle (of_decide_eq_true hk), hnil]
      exact List.nil_prefix

/-! ## The committed entries -/

/-- The entries are stamped in the past, in order on each account and at once
for each transfer, and no cut overdraws a cash account. -/
structure Timed (clock : Timestamp) (db : Db) : Prop where
  past : ∀ e ∈ db.entries, e.createdAt ≤ clock
  sorted : ∀ a, (accountEntries db a).Pairwise fun e f => e.createdAt ≤ f.createdAt
  together : ∀ e ∈ db.entries, ∀ f ∈ db.entries, e.transfer = f.transfer →
    e.createdAt = f.createdAt
  covered : ∀ a ∈ db.accounts, a.accountType = .CASH → ∀ t, 0 ≤ nativeBalance db a.id (some t)

theorem Genesis.timed {db : Db} (h : Genesis db) (clock : Timestamp) : Timed clock db := by
  have hnone : ∀ e ∈ db.entries, False := by
    intro e he
    rw [← Table.mem_rows, h.entries] at he
    cases he
  refine ⟨fun e he => (hnone e he).elim, fun a => ?_, fun e he => (hnone e he).elim,
    fun a _ _ t => ?_⟩
  · rw [accountEntries, h.entries]
    exact List.Pairwise.nil
  · rw [nativeBalance, accountEntries, h.entries]
    exact le_rfl

section

variable {clock : Timestamp} {db db' : Db}

theorem Timed.later (h : Timed clock db) {now : Timestamp} (hle : clock ≤ now) : Timed now db :=
  ⟨fun e he => (h.past e he).trans hle, h.sorted, h.together, h.covered⟩

/-- What posts nothing keeps the cuts. -/
theorem Timed.keeps (h : Timed clock db) (hfunded : Funded db) (keeps : Keeps db db') :
    Timed clock db' := by
  have hentries : ∀ a asOf, accountEntries db' a asOf = accountEntries db a asOf := by
    intro a asOf
    rw [accountEntries, accountEntries, keeps.entries]
  refine ⟨?_, fun a => ?_, ?_, fun c hc htype t => ?_⟩
  · rw [keeps.entries]
    exact h.past
  · rw [hentries]
    exact h.sorted a
  · rw [keeps.entries]
    exact h.together
  · rw [nativeBalance, hentries]
    by_cases hused : ∃ e ∈ db.entries, e.account = c.id
    · obtain ⟨e, he, hec⟩ := hused
      obtain ⟨b, hb, hbe⟩ := hfunded.entry_account e he
      obtain rfl : b = c := Table.eq_of_key_eq (keeps.accounts b hb) hc (hbe.trans hec)
      exact h.covered b hb htype t
    · -- a new account has no entries
      have hnil : accountEntries db c.id (some t) = [] := by
        apply List.filter_eq_nil_iff.mpr
        intro e he hboth
        exact hused ⟨e, he, (of_decide_eq_true hboth).1⟩
      rw [hnil]
      exact le_rfl

variable {env : Env} {a : Posting} {es : List Entry}

/-- The entries of a posting have its stamp. -/
theorem Posted.createdAt_eq (h : Posted env a db db' es) {e : Entry} (he : e ∈ es) :
    e.createdAt = env.now := by
  obtain ⟨legs, accounts, priced, -, -, hrows⟩ := h.prepared
  obtain ⟨p, -, hrow⟩ := forall₂_exists_left hrows he
  exact hrow.createdAt_eq

/-- They are on accounts of the legs. -/
theorem Posted.mem_lockOrder (h : Posted env a db db' es) {legs : List ValidLeg}
    (hvalid : validateLegs a.legs = .ok legs) {e : Entry} (he : e ∈ es) :
    e.account ∈ lockOrder legs := by
  obtain ⟨legs', accounts, priced, hvalid', hprepared, hrows⟩ := h.prepared
  obtain rfl : legs = legs' := Except.ok.inj (hvalid.symm.trans hvalid')
  obtain ⟨p, hp, hrow⟩ := forall₂_exists_left hrows he
  obtain ⟨v, hv, hpv⟩ := forall₂_exists_left hprepared.pricedAs hp
  exact FundLedger.mem_lockOrder.mpr ⟨v, hv, hpv.2.1.symm.trans hrow.account_eq.symm⟩

/-- A cut at an instant has all the new entries of an account or none. -/
theorem Posted.cut_cases (h : Posted env a db db' es) (account : Uuid) (t : Timestamp) :
    (es.filter fun e => e.account = account ∧ asOfCut (some t) e) =
      if env.now ≤ t then group Entry.account account es else [] := by
  split
  · rename_i hle
    apply List.filter_congr
    intro e he
    have hcut : asOfCut (some t) e = true := by
      rw [asOfCut, h.createdAt_eq he]
      exact decide_eq_true hle
    rw [hcut]
    simp
  · rename_i hlt
    apply List.filter_eq_nil_iff.mpr
    intro e he hboth
    have hcut := (of_decide_eq_true hboth).2
    rw [asOfCut, h.createdAt_eq he] at hcut
    exact hlt (of_decide_eq_true hcut)

/-- **A posting** whose stamp is no earlier than the entries on its accounts
keeps the cuts. -/
theorem Timed.posted (h : Timed clock db) (hfunded : Funded db) (posted : Posted env a db db' es)
    {legs : List ValidLeg} (hvalid : validateLegs a.legs = .ok legs) (hnow : env.now ≤ clock)
    (hlocked : ∀ e ∈ db.entries, e.account ∈ lockOrder legs → e.createdAt ≤ env.now) :
    Timed clock db' := by
  have hmem : ∀ {e}, e ∈ db'.entries ↔ e ∈ db.entries ∨ e ∈ es := by
    intro e
    rw [← Table.mem_rows, posted.entries_eq, List.mem_append]
    rfl
  have hfresh : ∀ e ∈ db.entries, e.transfer ≠ (transferFor env a).id := by
    intro e he heq
    obtain ⟨t, ht, hte⟩ := hfunded.linked e he
    exact posted.id_fresh t ht (hte.trans heq)
  refine ⟨?_, fun i => ?_, ?_, fun c hc htype t => ?_⟩
  · intro e he
    rcases hmem.mp he with hold | hnew
    · exact h.past e hold
    · rw [posted.createdAt_eq hnew]
      exact hnow
  · rw [posted.accountEntries, List.pairwise_append]
    refine ⟨h.sorted i, ?_, ?_⟩
    · apply List.Pairwise.filter
      apply List.pairwise_of_forall_mem_list
      intro e he f hf
      rw [posted.createdAt_eq he, posted.createdAt_eq hf]
    · intro e he f hf
      obtain ⟨hfes, hboth⟩ := List.mem_filter.mp hf
      obtain ⟨hedb, heboth⟩ := List.mem_filter.mp he
      rw [posted.createdAt_eq hfes]
      apply hlocked e hedb
      rw [(of_decide_eq_true heboth).1, ← (of_decide_eq_true hboth).1]
      exact posted.mem_lockOrder hvalid hfes
  · intro e he f hf hef
    rcases hmem.mp he with hold | hnew <;> rcases hmem.mp hf with hold' | hnew'
    · exact h.together e hold f hold' hef
    · exact absurd (hef.trans (posted.entry_transfer hnew')) (hfresh e hold)
    · exact absurd (hef.symm.trans (posted.entry_transfer hnew)) (hfresh f hold')
    · rw [posted.createdAt_eq hnew, posted.createdAt_eq hnew']
  · rw [posted.accounts_eq] at hc
    have hold : 0 ≤ nativeBalance db c.id (some t) := h.covered c hc htype t
    rw [nativeBalance, posted.accountEntries, sumBy_append, posted.cut_cases]
    show 0 ≤ nativeBalance db c.id (some t) + _
    split
    · rename_i hle
      by_cases htouched : ∃ e ∈ es, e.account = c.id
      · -- the cut has all the entries of the account
        obtain ⟨e, he, hec⟩ := htouched
        have hall : accountEntries db c.id (some t) = accountEntries db c.id := by
          apply List.filter_congr
          intro f hf
          by_cases hfc : f.account = c.id
          · have hft : f.createdAt ≤ t := by
              refine (hlocked f hf ?_).trans hle
              rw [hfc, ← hec]
              exact posted.mem_lockOrder hvalid he
            simp [asOfCut, hft]
          · simp [hfc]
        rw [nativeBalance, hall]
        show 0 ≤ nativeBalance db c.id + _
        rcases posted.covered hc htype with hmove | htotal
        · exact add_nonneg (hfunded.no_overdraft c hc htype) hmove
        · exact htotal
      · have hnil : group Entry.account c.id es = [] :=
          group_eq_nil fun e he hec => htouched ⟨e, he, hec⟩
        rw [hnil, sumBy_nil, add_zero]
        exact hold
    · rw [sumBy_nil, add_zero]
      exact hold

end

/-! ## Sessions between stamp and commit -/

/-- The posting of a session that has stamped its entries. -/
def Phase.stamped : Phase → Option Ticket
  | .inserting t _ _ => some t
  | .posted t _ => some t
  | .documented t _ => some t
  | _ => none

/-- The stamp is in the past, but no entry on the locked accounts is later. -/
def Session.Stamped (w : World) (s : Session) : Prop :=
  ∀ t, s.phase.stamped = some t → t.env.now ≤ w.clock ∧
    ∀ e ∈ w.db.entries, e.account ∈ lockOrder t.legs → e.createdAt ≤ t.env.now

section

variable {Q : Db → Posting → Prop} {start : Db}

/-- The accounts of a stamped session are locked. -/
theorem Session.Ok.stamped_accounts {db : Db} {s : Session} (h : s.Ok Q db) {t : Ticket}
    (hs : s.phase.stamped = some t) : s.HasAccounts t := by
  obtain ⟨phase, locks, writes⟩ := s
  cases phase with
  | inserting =>
    cases hs
    exact h.2.1.accounts
  | posted =>
    cases hs
    exact h.2.1.accounts
  | documented =>
    cases hs
    exact h.2.1.accounts
  | _ => cases hs

/-- Beside a session its stamp stays the latest. -/
theorem Session.Stamped.beside {w w' : World} {s : Session} (h : s.Stamped w) (hok : s.Ok Q w.db)
    (hb : Beside s w.db w'.db) (hclock : w.clock ≤ w'.clock) : s.Stamped w' := by
  intro t hs
  obtain ⟨hnow, hlast⟩ := h t hs
  refine ⟨hnow.trans hclock, fun e he hacc => ?_⟩
  obtain ⟨es, hes, hnew⟩ := hb.entries
  rw [← Table.mem_rows, hes, List.mem_append] at he
  rcases he with hold | hadded
  · exact hlast e hold hacc
  · exact absurd (hnew e hadded).2.1
      (Session.not_admits_update (hok.stamped_accounts hs _ hacc))

theorem Move.clock_eq {free : Demand → Prop} {w w' : World} {s s' : Session}
    (moved : Move Q free w s w' s') : w'.clock = w.clock := by
  cases moved <;> rfl

/-- What the assertions say together, before a commit. -/
theorem Timed.commit {w : World} {s : Session} {t : Ticket} {priced : List PricedLeg}
    {es : List Entry} {documents : List Write} {db' : Db} (h : Timed w.clock w.db)
    (hfunded : Funded w.db) (hinserted : Session.Inserted w.db s t priced es [] documents)
    (hcleared : Session.Cleared w.db s t priced) (hzero : sumBy Entry.signedBaseAmount es = 0)
    (hnow : t.env.now ≤ w.clock)
    (hlocked : ∀ e ∈ w.db.entries, e.account ∈ lockOrder t.legs → e.createdAt ≤ t.env.now)
    (documented : t.Documented (view w.db (postingRows t.transfer es)) db') :
    Timed w.clock db' := by
  obtain ⟨-, es', posted⟩ := postTransfer_ok (hinserted.serial hcleared hfunded.linked hzero)
  exact (h.posted hfunded posted t.valid hnow hlocked).keeps (posted.funded hfunded)
    documented.keeps

/-- The committed database is a serial one, and its cuts are consistent. -/
structure World.OnTime (Q : Db → Posting → Prop) (start : Db) (w : World) : Prop
    extends w.Ok Q start where
  funded : Funded start
  timed : Timed w.clock w.db

theorem World.OnTime.funded_now {w : World} (h : w.OnTime Q start) : Funded w.db :=
  h.serial.invariant (fun posted hf => posted.funded hf) (fun keeps hf => keeps.funded hf) h.funded

/-- A session that has stamped nothing. -/
theorem Session.Stamped.of_none {w : World} {s : Session} (h : s.phase.stamped = none) :
    s.Stamped w := by
  intro t ht
  cases h.symm.trans ht

/-- A session that goes on with its stamp. -/
theorem Session.Stamped.of_eq {w : World} {s s' : Session} (h : s.Stamped w)
    (hs : s'.phase.stamped = s.phase.stamped) : s'.Stamped w :=
  fun t ht => h t (hs.symm.trans ht)

/-- **A session's own moves** keep the cuts. -/
theorem Move.own_timed {free : Demand → Prop} {w w' : World} {s s' : Session}
    (moved : Move Q free w s w' s') (h : w.OnTime Q start) (hok : s.Ok Q w.db)
    (hs : s.Stamped w) : Timed w'.clock w'.db ∧ s'.Stamped w' := by
  cases moved with
  | insertTransfer =>
    refine ⟨h.timed, fun t ht => ?_⟩
    cases ht
    exact ⟨le_rfl, fun e he _ => h.timed.past e he⟩
  | insertEntry | checkBalance | insertDocument => exact ⟨h.timed, hs.of_eq rfl⟩
  | @commitPosting t ls ws priced plain =>
    obtain ⟨hticket, hcleared, es, hinserted, hzero⟩ := hok
    obtain ⟨hnow, hlocked⟩ := hs t rfl
    refine ⟨?_, .of_none rfl⟩
    apply h.timed.commit h.funded_now hinserted hcleared hzero hnow hlocked
    have hwrites : ws = postingRows t.transfer es ++ [] := hinserted.writes
    unfold Ticket.Documented
    rw [plain, hwrites, List.append_nil]
    rfl
  | @commitDocument t ls ws priced =>
    obtain ⟨hticket, hcleared, es, d, number, units, hdocument, hunits, hinserted, hzero, hrun⟩ := hok
    obtain ⟨hnow, hlocked⟩ := hs t rfl
    refine ⟨?_, .of_none rfl⟩
    apply h.timed.commit h.funded_now hinserted hcleared hzero hnow hlocked
    have hwrites : ws = postingRows t.transfer es ++
        [d.row (t.env.uuid4 .document) number units t.transfer.id] := hinserted.writes
    unfold Ticket.Documented
    rw [hdocument, hwrites]
    exact ⟨units, hunits, run_view_document hinserted.recorded hrun⟩
  | @commitClosing c ls ws period =>
    obtain ⟨hwrites, hclosable, hzero, hlength⟩ := hok
    have hwrites : ws = [.closed period.id c.env.now c.closedBy] := hwrites
    have hchange : Change (fun _ _ => False) w.db (view w.db ws) := by
      rw [hwrites]
      exact .periodClosed (hclosable.serial hzero hlength).1
    refine ⟨?_, .of_none rfl⟩
    rcases hchange.posted_or_keeps with ⟨_, _, _, hfalse, -⟩ | keeps
    · exact hfalse.elim
    · exact h.timed.keeps h.funded_now keeps
  | _ => exact ⟨h.timed, .of_none rfl⟩

/-- **The assertions about time are sound.** -/
theorem timed_sound : (services Q).Sound (World.OnTime Q start)
    fun w s => s.Ok Q w.db ∧ s.Stamped w := by
  constructor
  · intro free w s w' s' moved h hs
    obtain ⟨hok', hs'⟩ := services_sound.own moved h.toOk hs.1
    obtain ⟨htimed, hstamped⟩ := moved.own_timed h hs.1 hs.2
    exact ⟨⟨hok', h.funded, htimed⟩, hs', hstamped⟩
  · intro free w s w' s' u moved h hs apart apart' hu
    have hb := moved.beside hs.1 apart
    exact ⟨services_sound.other moved h.toOk hs.1 apart apart' hu.1,
      hu.2.beside hu.1 hb moved.clock_eq.ge⟩
  · intro w w' changed h
    have hsound := services_sound.environment changed h.toOk
    cases changed with
    | tick later =>
      refine ⟨⟨hsound.1, h.funded, h.timed.later later⟩, fun hu => ⟨hsound.2 hu.1, ?_⟩⟩
      exact hu.2.beside hu.1 (.refl _ _) later
    | accountOpened inserted standard =>
      have hchange : Change (fun _ _ => False) _ _ := .accountOpened inserted standard
      refine ⟨⟨hsound.1, h.funded, ?_⟩, fun hu => ⟨hsound.2 hu.1, ?_⟩⟩
      · rcases hchange.posted_or_keeps with ⟨_, _, _, hfalse, -⟩ | keeps
        · exact hfalse.elim
        · exact h.timed.keeps h.funded_now keeps
      · exact hu.2.beside hu.1 (beside_opening inserted) le_rfl

end

/-! ## Consistent cuts -/

section

variable {P : Type} [DecidableEq P] {start : Db} {clock : Timestamp}
  {s s' : Sessions P World Session}

theorem onTime_of_run {Q : Db → Posting → Prop} (genesis : Genesis start)
    (hrun : (services Q).Run (freshSessions start clock) s) :
    (services Q).Holding (World.OnTime Q start) (fun w s => s.Ok Q w.db ∧ s.Stamped w) s := by
  apply timed_sound.run (services_disciplined Q) _ hrun
  have hfresh : (services Q).Holding (World.Ok Q start) (fun w s => s.Ok Q w.db)
      (freshSessions start clock : Sessions P World Session) :=
    holding_fresh clock genesis.funded.linked
  exact ⟨hfresh.exclusive, ⟨hfresh.shared, genesis.funded, genesis.timed clock⟩,
    fun p => ⟨hfresh.each p, .of_none rfl⟩⟩

/-- The books of a reachable state. -/
theorem books_of_run (genesis : Genesis start)
    (hrun : (services Loaded).Run (freshSessions start clock) s) : Books s.shared.db := by
  have hserial := (concurrent_serial genesis.funded.linked hrun).shared.serial
  have hchanges : Changes AnyPosting start s.shared.db := hserial.changes fun _ _ h => h
  exact hchanges.invariant (fun _ _ hb hc => hb.change hc) genesis.books

/-- **Cuts are consistent.**  In every reachable state and for every instant,
the entries stamped up to it balance, no cash account is below zero in them,
and on each account they are the first ones that were committed. -/
theorem cuts_consistent (genesis : Genesis start)
    (hrun : (services Loaded).Run (freshSessions start clock) s) (t : Timestamp) :
    totalImbalance s.shared.db (some t) = 0 ∧
    (∀ a ∈ s.shared.db.accounts, a.accountType = .CASH →
      0 ≤ nativeBalance s.shared.db a.id (some t)) ∧
    ∀ a, accountEntries s.shared.db a (some t) <+: accountEntries s.shared.db a := by
  have htimed := (onTime_of_run genesis hrun).shared.timed
  refine ⟨?_, fun a ha htype => htimed.covered a ha htype t, fun a => ?_⟩
  · apply (books_of_run genesis hrun).sum_filter
    intro e he f hf hef
    rw [asOfCut, asOfCut, htimed.together e he f hf hef]
  · have hprefix := filter_le_prefix (htimed.sorted a) t
    have hcut : (accountEntries s.shared.db a).filter (fun e => e.createdAt ≤ t) =
        accountEntries s.shared.db a (some t) := by
      rw [accountEntries, accountEntries, List.filter_filter]
      apply List.filter_congr
      intro e he
      simp [asOfCut, Bool.and_comm]
    rw [hcut] at hprefix
    exact hprefix

end

/-- In the run of the deposit, as of the instant of its stamp. -/
theorem cuts_consistent_depositOf100 :
    nativeBalance (afterSteps 9 depositBegun).1.db 100 (some 1) = 1000000 ∧
    totalImbalance (afterSteps 9 depositBegun).1.db (some 1) = 0 := by
  have hloaded : Loaded buildPeFund depositOf100 :=
    ⟨h1, show h1 ∈ buildPeFund.periods.rows by decide +kernel, rfl, rfl⟩
  have hdeposit : (steps 9 depositBegun).isSome := by decide +kernel
  exact ⟨by decide +kernel,
    (cuts_consistent genesis_buildPeFund (run_deposit hloaded hdeposit) 1).1⟩

/-! ## The past does not change -/

section

/-- The session is not between its stamp and its commit with a stamp up to `t`
and the account among its legs. -/
def Session.AddsNothing (account : Uuid) (t : Timestamp) (s : Session) : Prop :=
  ∀ k, s.phase.stamped = some k → account ∈ lockOrder k.legs → t < k.env.now

variable {Q : Db → Posting → Prop} {start : Db} {account : Uuid} {t : Timestamp}

/-- A posting that is stamped later, or is on other accounts, adds nothing. -/
theorem Posted.cut_eq {env : Env} {a : Posting} {db db' : Db} {es : List Entry}
    (posted : Posted env a db db' es) {legs : List ValidLeg}
    (hvalid : validateLegs a.legs = .ok legs)
    (hlate : account ∈ lockOrder legs → t < env.now) :
    FundLedger.accountEntries db' account (some t) =
      FundLedger.accountEntries db account (some t) := by
  have hnil : (es.filter fun e => e.account = account ∧ asOfCut (some t) e) = [] := by
    rw [posted.cut_cases]
    split
    · rename_i hle
      apply group_eq_nil
      intro e he hacc
      have hmem := posted.mem_lockOrder hvalid he
      rw [hacc] at hmem
      exact absurd (hlate hmem) (not_lt.mpr hle)
    · rfl
  rw [posted.accountEntries, hnil, List.append_nil]

/-- **A session's own moves** leave the cut alone. -/
theorem Move.own_cut {free : Demand → Prop} {w w' : World} {s s' : Session}
    (moved : Move Q free w s w' s') (h : w.Ok Q start) (hok : s.Ok Q w.db) (hpast : t < w.clock)
    (hs : s.AddsNothing account t) :
    accountEntries w'.db account (some t) = accountEntries w.db account (some t) ∧
      s'.AddsNothing account t := by
  have hlinked : Linked w.db := h.serial.linked h.linked
  have hidle : Session.idle.AddsNothing account t := by
    intro k hk
    cases hk
  cases moved with
  | insertTransfer =>
    refine ⟨rfl, fun k hk _ => ?_⟩
    cases hk
    exact hpast
  | insertEntry | checkBalance | insertDocument => exact ⟨rfl, hs⟩
  | @commitPosting k ls ws priced plain =>
    obtain ⟨hticket, hcleared, es, hinserted, hzero⟩ := hok
    have hwrites : ws = postingRows k.transfer es ++ [] := hinserted.writes
    rw [List.append_nil] at hwrites
    obtain ⟨-, es', posted⟩ := postTransfer_ok (hinserted.serial hcleared hlinked hzero)
    refine ⟨?_, hidle⟩
    show accountEntries (view w.db ws) account (some t) = _
    rw [hwrites]
    exact posted.cut_eq k.valid (hs k rfl)
  | @commitDocument k ls ws priced =>
    obtain ⟨hticket, hcleared, es, d, number, units, hdocument, hunits, hinserted, hzero, hrun⟩ := hok
    have hwrites : ws = postingRows k.transfer es ++
        [d.row (k.env.uuid4 .document) number units k.transfer.id] := hinserted.writes
    obtain ⟨-, es', posted⟩ := postTransfer_ok (hinserted.serial hcleared hlinked hzero)
    have hdocumented : k.Documented (view w.db (postingRows k.transfer es)) (view w.db ws) := by
      unfold Ticket.Documented
      rw [hdocument, hwrites]
      exact ⟨units, hunits, run_view_document hinserted.recorded hrun⟩
    refine ⟨?_, hidle⟩
    rw [← posted.cut_eq k.valid (hs k rfl)]
    show accountEntries (view w.db ws) account (some t) = _
    rw [accountEntries, accountEntries, hdocumented.keeps.entries]
  | @commitClosing c ls ws period =>
    obtain ⟨hwrites, hclosable, hzero, hlength⟩ := hok
    have hwrites : ws = [.closed period.id c.env.now c.closedBy] := hwrites
    refine ⟨?_, hidle⟩
    show accountEntries (view w.db ws) account (some t) = _
    rw [hwrites]
    rfl
  | _ =>
    refine ⟨rfl, fun k hk => ?_⟩
    cases hk

/-- **The assertions about one cut are sound.** -/
theorem cut_sound (cut : List Entry) : (services Q).Sound
    (fun w => w.Ok Q start ∧ t < w.clock ∧ accountEntries w.db account (some t) = cut)
    fun w s => s.Ok Q w.db ∧ s.AddsNothing account t := by
  constructor
  · intro free w s w' s' moved h hs
    obtain ⟨hok', hs'⟩ := services_sound.own moved h.1 hs.1
    obtain ⟨hcut, hnothing⟩ := moved.own_cut h.1 hs.1 h.2.1 hs.2
    exact ⟨⟨hok', moved.clock_eq ▸ h.2.1, hcut.trans h.2.2⟩, hs', hnothing⟩
  · intro free w s w' s' u moved h hs apart apart' hu
    exact ⟨services_sound.other moved h.1 hs.1 apart apart' hu.1, hu.2⟩
  · intro w w' changed h
    have hsound := services_sound.environment changed h.1
    cases changed with
    | tick later =>
      exact ⟨⟨hsound.1, h.2.1.trans_le later, h.2.2⟩, fun hu => ⟨hsound.2 hu.1, hu.2⟩⟩
    | accountOpened inserted =>
      obtain ⟨-, -, -, -, -, accounts, -, rfl⟩ := insertAccount_ok inserted
      exact ⟨⟨hsound.1, h.2.1, h.2.2⟩, fun hu => ⟨hsound.2 hu.1, hu.2⟩⟩

/-- **The past does not change**, once it is settled: read after an instant,
with no session on the way that stamped entries of the account before it, the
balance as of that instant is the same in every later state. -/
theorem balance_asOf_repeats {P : Type} [DecidableEq P] {clock : Timestamp}
    {s s' : Sessions P World Session} (genesis : Genesis start)
    (before : (services Q).Run (freshSessions start clock) s) (past : t < s.shared.clock)
    (settled : ∀ p, (s.locals p).AddsNothing account t) (later : (services Q).Run s s') :
    accountEntries s'.shared.db account (some t) = accountEntries s.shared.db account (some t) ∧
    nativeBalance s'.shared.db account (some t) = nativeBalance s.shared.db account (some t) ∧
    baseBalance s'.shared.db account (some t) = baseBalance s.shared.db account (some t) := by
  have hholds := concurrent_serial genesis.funded.linked before
  have hend := (cut_sound (accountEntries s.shared.db account (some t))).run
    (services_disciplined Q) ⟨hholds.exclusive, ⟨hholds.shared, past, rfl⟩,
      fun p => ⟨hholds.each p, settled p⟩⟩ later
  have hcut := hend.shared.2.2
  refine ⟨hcut, ?_, ?_⟩
  · rw [nativeBalance, nativeBalance, hcut]
  · rw [baseBalance, baseBalance, hcut]

end

/-- The deposit is committed, and the clock has gone on. -/
def depositDone : World × Session := tickTo 5 ((afterSteps 9 depositBegun).1, .idle)

/-- A second deposit has begun. -/
def depositLater : World × Session := (depositDone.1, .ofPosting (envOf 3) depositIntoH2)

theorem run_depositDone : (services fun _ _ => True).Run (freshSessions buildPeFund 1)
    (single depositDone) := by
  have hdeposit : (steps 9 depositBegun).isSome := by decide +kernel
  have hclock : (afterSteps 9 depositBegun).1.clock ≤ 5 := by decide +kernel
  apply (run_deposit trivial hdeposit).trans
  exact (run_idle _).trans (run_tickTo hclock)

/-- The balance as of 3 is the same after a second deposit. -/
theorem balance_asOf_repeats_depositLater :
    nativeBalance depositDone.1.db 100 (some 3) = 1000000 ∧
    nativeBalance (afterSteps 9 depositLater).1.db 100 (some 3) = 1000000 := by
  have hlater : (steps 9 depositLater).isSome := by decide +kernel
  have hrun : (services fun _ _ => True).Run (single depositDone)
      (single (afterSteps 9 depositLater)) :=
    (run_ofPosting _ _ (envOf 3) trivial).trans (run_afterSteps hlater)
  have hpast : 3 < depositDone.1.clock := by decide +kernel
  have hsettled : ∀ p, ((single depositDone).locals p).AddsNothing 100 3 := by
    intro p k hk
    cases hk
  have hbalance : nativeBalance depositDone.1.db 100 (some 3) = 1000000 := by decide +kernel
  have hrepeats := balance_asOf_repeats genesis_buildPeFund run_depositDone hpast hsettled hrun
  exact ⟨hbalance, hrepeats.2.1.trans hbalance⟩

/-- The deposit has stamped its entries, and the clock has gone on. -/
def depositOnItsWay : World × Session := tickTo 3 (afterSteps 5 depositBegun)

/-- **On its way it does**: a deposit that is stamped before the instant and
committed after the reading shows up in the past. -/
theorem balance_asOf_changes : ∃ s s' : Sessions Unit World Session,
    (services fun _ _ => True).Run (freshSessions buildPeFund 1) s ∧
    (services fun _ _ => True).Run s s' ∧ 2 < s.shared.clock ∧
    nativeBalance s.shared.db 100 (some 2) = 0 ∧
    nativeBalance s'.shared.db 100 (some 2) = 1000000 := by
  have hfirst : (steps 5 depositBegun).isSome := by decide +kernel
  have hrest : (steps 4 depositOnItsWay).isSome := by decide +kernel
  have hclock : (afterSteps 5 depositBegun).1.clock ≤ 3 := by decide +kernel
  have hread : nativeBalance depositOnItsWay.1.db 100 (some 2) = 0 := by decide +kernel
  have hread' : nativeBalance (afterSteps 4 depositOnItsWay).1.db 100 (some 2) = 1000000 := by
    decide +kernel
  refine ⟨single depositOnItsWay, single (afterSteps 4 depositOnItsWay), ?_,
    run_afterSteps hrest, ?_, hread, hread'⟩
  · exact (run_deposit trivial hfirst).trans (run_tickTo hclock)
  · show 2 < 3
    decide

end FundLedger
