import FundLedger.Concurrency.Serial

/-!
# Every reachable state

`Session.Ok` and `Serial` are sound assertions in the sense of
`Lib.Interleaving`: a session's own moves establish them, and the moves of the
others stay beside.  `concurrent_serial` is the result, for any number of
sessions.
-/

namespace FundLedger

open Lib Relation

/-- The committed database comes from a serial run. -/
structure World.Ok (Q : Db → Posting → Prop) (start : Db) (w : World) : Prop where
  serial : Serial Q start w.log w.db
  linked : Linked start

section

variable {Q : Db → Posting → Prop} {start db : Db} {s : Session} {t : Ticket}
  {priced : List PricedLeg}

/-! ## Writing -/

theorem Recorded.nil {u : Transfer} (h : ∃ db₁, insertTransfer db u = .ok db₁) :
    Recorded db u [] := by
  refine ⟨h, ?_, ?_, List.nodup_nil, fun hne => absurd rfl hne⟩
  · intro e he
    exact absurd he List.not_mem_nil
  · intro e he
    exact absurd he List.not_mem_nil

/-- One more entry. -/
theorem Session.Inserted.entry {done todo : List Entry} {e : Entry} {phase : Phase} {db' : Db}
    (h : Session.Inserted db s t priced done (e :: todo) [])
    (hins : insertEntry (view db s.writes) e = .ok db') :
    Session.Inserted db ⟨phase, (.period t.posting.period.id, .share) :: s.locks,
      s.writes ++ [.entry e]⟩ t priced (done ++ [e]) todo [] := by
  have hwrites : s.writes = postingRows t.transfer done := by
    rw [h.writes, List.append_nil]
  have htransfer : e.transfer = t.transfer.id := by
    have hmem : e ∈ done ++ e :: todo := List.mem_append_right _ List.mem_cons_self
    obtain ⟨p, -, hrow⟩ := forall₂_exists_left (entriesFor_ok h.rows) hmem
    exact hrow.transfer_eq
  constructor
  · rw [List.append_assoc]
    exact h.rows
  · show s.writes ++ [.entry e] = _
    rw [hwrites, postingRows_append, List.append_nil]
  · rw [hwrites] at hins
    exact h.recorded.append htransfer hins
  · intro _
    exact List.mem_cons_self

/-- The balance of the view is that of the entries. -/
theorem Session.Inserted.sum_zero {es : List Entry}
    (h : Session.Inserted db s t priced es [] []) (hlinked : Linked db)
    (balanced : assertTransferBalances (view db s.writes) t.transfer.id = .ok ()) :
    sumBy Entry.signedBaseAmount es = 0 := by
  rw [assertTransferBalances, h.writes, List.append_nil,
    h.recorded.entriesOf_view hlinked] at balanced
  exact require_eq_ok.mp balanced

/-- A document that goes in after the posting goes in before it. -/
theorem Session.Inserted.document {es : List Entry} (h : Session.Inserted db s t priced es [] [])
    {d : DocumentRequest} {id transfer : Uuid} {number : ℕ} {units : Money} {db' : Db}
    (hrun : (d.row id number units transfer).run (view db s.writes) = .ok db') :
    ∃ db₁, (d.row id number units transfer).run db = .ok db₁ := by
  obtain ⟨transfers, entries, -, -, hview⟩ := h.recorded.view_eq
  have hcalls : db.capitalCalls = (view db (postingRows t.transfer es)).capitalCalls := by
    rw [hview]
  have hdists : db.distributions = (view db (postingRows t.transfer es)).distributions := by
    rw [hview]
  rw [h.writes, List.append_nil] at hrun
  exact Beside.runDocument_congr hcalls hdists ⟨db', hrun⟩

/-- A loop ends with the first exception. -/
theorem forM_error_of_split {α : Type} {f : α → Except Exc Unit} {done todo : List α} {a : α}
    {e : Exc} (hdone : ∀ b ∈ done, f b = .ok ()) (ha : f a = .error e) :
    (done ++ a :: todo).forM f = .error e := by
  induction done with
  | nil =>
    show (f a >>= fun _ => todo.forM f) = _
    rw [ha]
    rfl
  | cons b done ih =>
    show (f b >>= fun _ => (done ++ a :: todo).forM f) = _
    rw [hdone b List.mem_cons_self]
    exact ih fun c hc => hdone c (List.mem_cons_of_mem b hc)

/-- A refusal by the overdraft check is one by the sequential service. -/
theorem preparePosting_refused {env : Env} {a : Posting} {legs : List ValidLeg} {d : Uuid × Dec}
    {done todo : List (Uuid × Dec)} {e : Exc} (hprice : pricePosting env db a legs = .ok priced)
    (hdeltas : fundDeltas priced = done ++ d :: todo)
    (hdone : ∀ d ∈ done, checkDelta (fun account => nativeBalance db account) d = .ok ())
    (short : checkDelta (fun account => nativeBalance db account) d = .error e) :
    preparePosting env db a legs = .error e := by
  have hfunds : checkSufficientFunds (fun account => nativeBalance db account) priced =
      .error e := by
    rw [checkSufficientFunds_eq, hdeltas]
    exact forM_error_of_split hdone short
  rw [preparePosting_eq, hprice]
  show (checkSufficientFunds _ priced >>= _) = _
  rw [hfunds]
  rfl

/-- The whole overdraft check. -/
theorem preparePosting_of_checked {env : Env} {a : Posting} {legs : List ValidLeg}
    {done : List (Uuid × Dec)} (hprice : pricePosting env db a legs = .ok priced)
    (hdeltas : fundDeltas priced = done ++ [])
    (hdone : ∀ d ∈ done, checkDelta (fun account => nativeBalance db account) d = .ok ()) :
    preparePosting env db a legs = .ok priced := by
  refine preparePosting_ok_iff.mpr ⟨hprice, ?_⟩
  rw [hdeltas, List.append_nil]
  exact hdone

/-! ## Committing -/

/-- **The commit of a plain posting.** -/
theorem World.Ok.commitPosting {w : World} {ls : List (Resource × LockMode)} {ws : List Write}
    (h : w.Ok Q start) (hok : Session.Ok Q w.db ⟨.posted t priced, ls, ws⟩)
    (plain : t.document = none) : (w.commit ws (.posted t)).Ok Q start := by
  obtain ⟨hticket, hcleared, es, hinserted, hzero⟩ := hok
  have hlinked : Linked w.db := h.serial.linked h.linked
  have hwrites : ws = postingRows t.transfer es := by
    rw [← List.append_nil (postingRows _ _)]
    exact hinserted.writes
  refine ⟨?_, h.linked⟩
  apply h.serial.snoc
  apply SerialStep.posted hticket.planned hticket.known
  · exact hinserted.serial hcleared hlinked hzero
  · unfold Ticket.Documented
    rw [plain, hwrites]
    rfl

/-- **The commit of a posting with a document.** -/
theorem World.Ok.commitDocument {w : World} {ls : List (Resource × LockMode)} {ws : List Write}
    (h : w.Ok Q start) (hok : Session.Ok Q w.db ⟨.documented t priced, ls, ws⟩) :
    (w.commit ws (.posted t)).Ok Q start := by
  obtain ⟨hticket, hcleared, es, d, number, units, hdocument, hunits, hinserted, hzero, hrun⟩ := hok
  have hlinked : Linked w.db := h.serial.linked h.linked
  have hwrites : ws = postingRows t.transfer es ++
      [d.row (t.env.uuid4 .document) number units t.transfer.id] := hinserted.writes
  refine ⟨?_, h.linked⟩
  apply h.serial.snoc
  apply SerialStep.posted hticket.planned hticket.known
  · exact hinserted.serial hcleared hlinked hzero
  · unfold Ticket.Documented
    rw [hdocument, hwrites]
    exact ⟨units, hunits, run_view_document hinserted.recorded hrun⟩

/-- **The commit of a closing.** -/
theorem World.Ok.commitClosing {w : World} {ls : List (Resource × LockMode)} {ws : List Write}
    {c : Closing} {period : Period} (h : w.Ok Q start)
    (hok : Session.Ok Q w.db ⟨.closed c period, ls, ws⟩) :
    (w.commit ws (.closed c)).Ok Q start := by
  obtain ⟨hwrites, hclosable, hzero, hlength⟩ := hok
  have hwrites : ws = [.closed period.id c.env.now c.closedBy] := hwrites
  refine ⟨?_, h.linked⟩
  rw [hwrites]
  exact h.serial.snoc (.closed (hclosable.serial hzero hlength).2)

/-! ## Sound assertions -/

/-- **A session's own moves.** -/
theorem Move.own {free : Demand → Prop} {w w' : World} {s s' : Session}
    (moved : Move Q free w s w' s') (h : w.Ok Q start) (hok : s.Ok Q w.db) :
    w'.Ok Q start ∧ s'.Ok Q w'.db := by
  cases moved with
  | beginPosting known =>
    refine ⟨h, rfl, ⟨?_, fun _ => ⟨w.db, .refl _, known⟩, ?_⟩, fun i hi => .inl hi⟩
    · intro d number hd
      cases hd
    · intro d number hd
      cases hd
  | beginDocument => exact ⟨h, rfl⟩
  | lockFund => exact ⟨h, hok, List.mem_cons_self⟩
  | plan planned => exact ⟨h, hok.1, hok.2, w.db, .refl _, planned⟩
  | @number c ls ws plan legs valid =>
    obtain ⟨hwrites, hfund, before, hx, hplan⟩ := hok
    refine ⟨h, hwrites, ⟨?_, ?_, ?_⟩, fun i hi => .inl hi⟩
    · intro d number hd
      obtain ⟨rfl, rfl⟩ : c.document = d ∧ c.document.nextNumber w.db = number :=
        Prod.mk.inj (Option.some.inj hd)
      exact ⟨rfl, c.env, before, plan, c.idempotencyKey, c.requestHash, c.createdBy, hx, hplan, rfl⟩
    · intro hnone
      cases hnone
    · intro d number hd
      obtain ⟨rfl, -⟩ : c.document = d ∧ c.document.nextNumber w.db = number :=
        Prod.mk.inj (Option.some.inj hd)
      exact hfund
  | lockAccount =>
    obtain ⟨hwrites, hticket, hlocks⟩ := hok
    refine ⟨h, hwrites, ⟨hticket.planned, hticket.known, fun d number hd =>
      List.mem_cons_of_mem _ (hticket.fund d number hd)⟩, fun i hi => ?_⟩
    rcases hlocks i hi with htodo | hlocked
    · rcases List.mem_cons.mp htodo with rfl | hrest
      · exact .inr List.mem_cons_self
      · exact .inl hrest
    · exact .inr (List.mem_cons_of_mem _ hlocked)
  | price checked =>
    obtain ⟨hwrites, hticket, hlocks⟩ := hok
    refine ⟨h, hwrites, ⟨hticket.planned, hticket.known, hticket.fund⟩, fun i hi => ?_, checked,
      [], rfl, fun d hd => absurd hd List.not_mem_nil⟩
    exact (hlocks i hi).resolve_left List.not_mem_nil
  | @checkFunds t ls ws priced d todo enough =>
    obtain ⟨hwrites, hticket, haccounts, hprice, done, hdeltas, hdone⟩ := hok
    refine ⟨h, hwrites, ⟨hticket.planned, hticket.known, hticket.fund⟩, haccounts, hprice,
      done ++ [d], ?_, fun d' hd' => ?_⟩
    · rw [hdeltas, List.append_assoc]
      rfl
    · rcases List.mem_append.mp hd' with hold | hnew
      · exact hdone d' hold
      · rw [List.mem_singleton.mp hnew]
        exact enough
  | refuse short =>
    obtain ⟨hwrites, hticket, haccounts, hprice, done, hdeltas, hdone⟩ := hok
    refine ⟨⟨?_, h.linked⟩, rfl⟩
    exact h.serial.snoc (.refused (preparePosting_refused hprice hdeltas hdone short))
  | insertTransfer inserted unclaimed rows =>
    obtain ⟨hwrites, hticket, haccounts, hprice, done, hdeltas, hdone⟩ := hok
    have hwrites : _ = [] := hwrites
    subst hwrites
    refine ⟨h, ⟨hticket.planned, hticket.known, hticket.fund⟩, ⟨haccounts, ?_⟩, [], rows, rfl,
      .nil ⟨_, inserted⟩, fun hne => absurd rfl hne⟩
    exact preparePosting_of_checked hprice hdeltas hdone
  | @insertEntry t ls ws priced e todo _ unlocked inserted =>
    obtain ⟨hticket, hcleared, done, hinserted⟩ := hok
    refine ⟨h, ⟨hticket.planned, hticket.known, fun d number hd =>
      List.mem_cons_of_mem _ (hticket.fund d number hd)⟩, ⟨fun i hi =>
      List.mem_cons_of_mem _ (hcleared.accounts i hi), hcleared.prepared⟩, done ++ [e], ?_⟩
    exact hinserted.entry inserted
  | checkBalance balanced =>
    obtain ⟨hticket, hcleared, es, hinserted⟩ := hok
    refine ⟨h, ⟨hticket.planned, hticket.known, hticket.fund⟩,
      ⟨hcleared.accounts, hcleared.prepared⟩, es, ?_, ?_⟩
    · have hrows := hinserted.rows
      exact ⟨hrows, hinserted.writes, hinserted.recorded, hinserted.period⟩
    · exact hinserted.sum_zero (h.serial.linked h.linked) balanced
  | @insertDocument t ls ws priced d number units _ document stored inserted =>
    obtain ⟨hticket, hcleared, es, hinserted, hzero⟩ := hok
    refine ⟨h, ⟨hticket.planned, hticket.known, hticket.fund⟩,
      ⟨hcleared.accounts, hcleared.prepared⟩, es, d, number, units, document, stored,
      ⟨hinserted.rows, ?_, hinserted.recorded, hinserted.period⟩, hzero, hinserted.document inserted⟩
    have hwrites : ws = postingRows t.transfer es ++ [] := hinserted.writes
    rw [hwrites, List.append_nil]
  | commitPosting plain => exact ⟨h.commitPosting hok plain, rfl⟩
  | commitDocument => exact ⟨h.commitDocument hok, rfl⟩
  | beginClosing => exact ⟨h, rfl⟩
  | lockPeriod unlocked found => exact ⟨h, hok, List.mem_cons_self, found⟩
  | alreadyClosed => exact ⟨h, rfl⟩
  | checkEarlier isOpen earlier => exact ⟨h, hok.1, ⟨hok.2.locked, hok.2.found⟩, isOpen, earlier⟩
  | checkImbalance zero =>
    obtain ⟨hwrites, hclosable⟩ := hok
    exact ⟨h, hwrites, ⟨⟨hclosable.locked, hclosable.found⟩, hclosable.status_open,
      hclosable.earlier⟩, zero⟩
  | @close c ls ws period _ updated =>
    obtain ⟨hwrites, hclosable, hzero⟩ := hok
    have hwrites : ws = [] := hwrites
    subst hwrites
    obtain ⟨_, hlength, -⟩ := except_bind_ok.mp updated
    exact ⟨h, rfl, ⟨⟨hclosable.locked, hclosable.found⟩, hclosable.status_open,
      hclosable.earlier⟩, hzero, require_eq_ok.mp hlength⟩
  | commitClosing => exact ⟨h.commitClosing hok, rfl⟩
  | rollback => exact ⟨h, rfl⟩

/-- **The moves of the others.** -/
theorem Move.beside {free : Demand → Prop} {w w' : World} {s s' u : Session}
    (moved : Move Q free w s w' s') (hok : s.Ok Q w.db) (apart : (services Q).Apart s u) :
    Beside u w.db w'.db := by
  cases moved with
  | @commitPosting t ls ws priced plain =>
    obtain ⟨hticket, hcleared, es, hinserted, hzero⟩ := hok
    have hwrites : ws = postingRows t.transfer es := by
      rw [← List.append_nil (postingRows _ _)]
      exact hinserted.writes
    show Beside u w.db (view w.db ws)
    rw [hwrites]
    exact hinserted.others hcleared apart
  | @commitDocument t ls ws priced =>
    obtain ⟨hticket, hcleared, es, d, number, units, hdocument, -, hinserted, -, hrun⟩ := hok
    have hwrites : ws = postingRows t.transfer es ++
        [d.row (t.env.uuid4 .document) number units t.transfer.id] := hinserted.writes
    show Beside u w.db (view w.db ws)
    rw [hwrites]
    refine (hinserted.others hcleared apart).trans
      (beside_document (run_view_document hinserted.recorded hrun) ?_ ?_)
    · apply admits_of_apart apart
      show _ ∈ ws
      rw [hwrites]
      exact List.mem_append_right _ List.mem_cons_self
    · exact admits_of_apart apart (hticket.fund d number hdocument)
  | @commitClosing c ls ws period =>
    obtain ⟨hwrites, hclosable, hzero, hlength⟩ := hok
    have hwrites : ws = [.closed period.id c.env.now c.closedBy] := hwrites
    show Beside u w.db (view w.db ws)
    rw [hwrites]
    apply beside_closing (hclosable.serial hzero hlength).1
    rw [hclosable.id_eq]
    exact admits_of_apart apart hclosable.locked
  | _ => exact .refl u _

/-- **The assertions are sound.** -/
theorem services_sound : (services Q).Sound (World.Ok Q start) fun w s => s.Ok Q w.db := by
  constructor
  · intro free w s w' s' moved h hok
    exact moved.own h hok
  · intro free w s w' s' u moved h hok apart _ hu
    exact hu.beside (moved.beside hok apart) (h.serial.linked h.linked)
  · intro w w' changed h
    cases changed with
    | tick => exact ⟨⟨h.serial, h.linked⟩, fun hu => hu⟩
    | accountOpened inserted standard =>
      refine ⟨⟨h.serial.snoc (.opened inserted standard), h.linked⟩, fun hu => ?_⟩
      exact hu.beside (beside_opening inserted) (h.serial.linked h.linked)

end

/-! ## What a move commits -/

/-- The posting of a session. -/
def Phase.ticket : Phase → Option Ticket
  | .locking t _ => some t
  | .checking t _ _ => some t
  | .inserting t _ _ => some t
  | .posted t _ => some t
  | .documented t _ => some t
  | _ => none

section

variable {Q : Db → Posting → Prop} {start : Db} {free : Demand → Prop} {w w' : World}
  {s s' : Session}

/-- **A move commits the posting of the session**, or posts nothing. -/
theorem Move.committed (moved : Move Q free w s w' s') (hlinked : Linked w.db)
    (hok : s.Ok Q w.db) : (Keeps w.db w'.db ∧ ∀ t, w'.log ≠ w.log ++ [.posted t]) ∨
      ∃ t db₁ es, s.phase.ticket = some t ∧ w'.log = w.log ++ [.posted t] ∧ t.Planned w.db ∧
        Posted t.env t.posting w.db db₁ es ∧ t.Documented db₁ w'.db := by
  have hother : ∀ {e : Event}, (∀ t, e ≠ .posted t) → ∀ t, w.log ++ [e] ≠ w.log ++ [.posted t] := by
    intro e he t heq
    exact he t (List.singleton_inj.mp (List.append_cancel_left heq))
  cases moved with
  | @commitPosting t ls ws priced plain =>
    obtain ⟨hticket, hcleared, es, hinserted, hzero⟩ := hok
    obtain ⟨-, es', posted⟩ := postTransfer_ok (hinserted.serial hcleared hlinked hzero)
    refine .inr ⟨t, _, es', rfl, rfl, hticket.planned, posted, ?_⟩
    have hwrites : ws = postingRows t.transfer es ++ [] := hinserted.writes
    unfold Ticket.Documented
    rw [plain, hwrites, List.append_nil]
    rfl
  | @commitDocument t ls ws priced =>
    obtain ⟨hticket, hcleared, es, d, number, units, hdocument, hunits, hinserted, hzero, hrun⟩ := hok
    obtain ⟨-, es', posted⟩ := postTransfer_ok (hinserted.serial hcleared hlinked hzero)
    refine .inr ⟨t, _, es', rfl, rfl, hticket.planned, posted, ?_⟩
    have hwrites : ws = postingRows t.transfer es ++
        [d.row (t.env.uuid4 .document) number units t.transfer.id] := hinserted.writes
    unfold Ticket.Documented
    rw [hdocument, hwrites]
    exact ⟨units, hunits, run_view_document hinserted.recorded hrun⟩
  | @commitClosing c ls ws period =>
    obtain ⟨hwrites, hclosable, hzero, hlength⟩ := hok
    have hwrites : ws = [.closed period.id c.env.now c.closedBy] := hwrites
    have hchange : Change (fun _ _ => False) w.db (view w.db ws) := by
      rw [hwrites]
      exact .periodClosed (hclosable.serial hzero hlength).1
    exact .inl ⟨hchange.keeps, hother fun t => by exact nofun⟩
  | refuse => exact .inl ⟨.refl _, hother fun t => by exact nofun⟩
  | _ => exact .inl ⟨.refl _, fun t heq => by simp at heq⟩

theorem Environment.keeps (h : Environment w w') : Keeps w.db w'.db := by
  cases h with
  | tick => exact .refl _
  | accountOpened inserted standard =>
    have hchange : Change (fun _ _ => False) _ _ := .accountOpened inserted standard
    exact hchange.keeps

/-- **Where the posting of a session comes from**: it had it before, or it has
just begun with it or planned it; and the database is the same. -/
theorem Move.ticket (moved : Move Q free w s w' s') {t' : Ticket}
    (ht : s'.phase.ticket = some t') : w'.db = w.db ∧
      ((∃ t, s.phase.ticket = some t ∧ t'.posting = t.posting ∧ t'.document = t.document) ∨
      (t'.document = none ∧ Q w.db t'.posting) ∨
      ∃ c plan, s.phase = .numbering c plan ∧ t'.posting.legs = plan.legs ∧
        t'.document = some (c.document, c.document.nextNumber w.db)) := by
  cases moved with
  | beginPosting known =>
    cases ht
    exact ⟨rfl, .inr (.inl ⟨rfl, known⟩)⟩
  | @number c ls ws plan legs valid =>
    cases ht
    refine ⟨rfl, .inr (.inr ⟨c, plan, rfl, ?_, rfl⟩)⟩
    exact c.document.legs_posting _ _ _ _
  | @insertTransfer t =>
    cases ht
    exact ⟨rfl, .inl ⟨t, rfl, rfl, rfl⟩⟩
  | lockAccount | price | checkFunds | insertEntry | checkBalance | insertDocument =>
    exact ⟨rfl, .inl ⟨t', ht, rfl, rfl⟩⟩
  | _ => cases ht

end

/-- Sessions that have not begun anything. -/
def freshSessions {P : Type} (db : Db) (clock : Timestamp) : Sessions P World Session :=
  ⟨⟨db, clock, []⟩, fun _ => .idle⟩

/-- Before anything has happened the assertions hold. -/
theorem holding_fresh {P : Type} {Q : Db → Posting → Prop} {start : Db} (clock : Timestamp)
    (hlinked : Linked start) :
    (services Q).Holding (World.Ok Q start) (fun w s => s.Ok Q w.db)
      (freshSessions start clock : Sessions P World Session) :=
  ⟨fun _ _ _ _ hd => absurd hd not_claims_nil, ⟨.nil, hlinked⟩, fun _ => rfl⟩

/-- **In every reachable state** the committed database is that of a serial run,
and each session's assertion holds. -/
theorem concurrent_serial {P : Type} [DecidableEq P] {Q : Db → Posting → Prop} {start : Db}
    {clock : Timestamp} {s : Sessions P World Session} (hlinked : Linked start)
    (hrun : (services Q).Run (freshSessions start clock) s) :
    (services Q).Holding (World.Ok Q start) (fun w s => s.Ok Q w.db) s :=
  services_sound.run (services_disciplined Q) (holding_fresh clock hlinked) hrun

/-! ## What a longer run adds -/

section

variable {Q : Db → Posting → Prop}

/-- The record only grows. -/
theorem Move.log_prefix {free : Demand → Prop} {w w' : World} {s s' : Session}
    (moved : Move Q free w s w' s') : w.log <+: w'.log := by
  cases moved with
  | refuse | commitPosting | commitDocument | commitClosing => exact List.prefix_append _ _
  | _ => exact List.prefix_refl _

theorem Environment.log_prefix {w w' : World} (h : Environment w w') : w.log <+: w'.log := by
  cases h with
  | tick => exact List.prefix_refl _
  | accountOpened => exact List.prefix_append _ _

variable {P : Type} [DecidableEq P] {s s' : Sessions P World Session}

theorem log_prefix_of_run (hrun : (services Q).Run s s') :
    s.shared.log <+: s'.shared.log := by
  induction hrun with
  | refl => exact List.prefix_refl _
  | tail _ hlast ih =>
    apply ih.trans
    cases hlast with
    | move moved => exact moved.log_prefix
    | environment changed => exact Environment.log_prefix changed

/-- **A run that goes on** is a serial run that goes on. -/
theorem serial_of_later {start : Db} {clock : Timestamp} (hlinked : Linked start)
    (before : (services Q).Run (freshSessions start clock) s) (later : (services Q).Run s s') :
    ∃ log, s'.shared.log = s.shared.log ++ log ∧ Serial Q s.shared.db log s'.shared.db := by
  obtain ⟨log, hlog⟩ := log_prefix_of_run later
  have hserial := (concurrent_serial hlinked before).shared.serial
  have hserial' := (concurrent_serial hlinked (before.trans later)).shared.serial
  rw [← hlog] at hserial'
  exact ⟨log, hlog.symm, hserial'.of_append hserial⟩

end

end FundLedger
