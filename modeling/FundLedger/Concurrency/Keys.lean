import FundLedger.Concurrency.Reversals
import FundLedger.Ledger.Idempotency
import FundLedger.Lib.Refinement

/-!
# Idempotency keys under concurrency

`_run_once` looks the key up, creates if it is not there, and looks it up again
if `create` raised.  `with_deadlock_retry` does all of that again, three times
at most.  Here the calls run at once, each with its own transaction for
`create`: a `Client` is a call with the session that runs it.

A client does what its session does, so `clients` refines `services`, and
whatever holds of sessions holds of clients.  On top of that, `Client.Right`
says what a call knows about its key, and `Client.Apart` that no two calls
created a transfer for the same one.
-/

namespace FundLedger

open Lib Relation

/-! ## Calls -/

/-- A call of `run_idempotent`. -/
structure KeyedCall where
  key : String
  requestHash : RequestHash

/-- How a call ends. -/
inductive Outcome
  | returned (t : Transfer) (created : Bool)
  | raised (e : Exc)
  /-- the last attempt ended in a deadlock -/
  | deadlocked

def Outcome.of : Except Exc (Transfer × Bool) → Outcome
  | .ok (t, created) => .returned t created
  | .error e => .raised e

/-- The attempts of `with_deadlock_retry`. -/
def attempts : ℕ := 3

/-- How far a call has got.  `left` counts the attempts that are left. -/
inductive Client
  /-- no call: a service without a key -/
  | direct (session : Session)
  /-- the key is looked up next -/
  | asked (r : KeyedCall) (left : ℕ)
  /-- `create` runs -/
  | creating (r : KeyedCall) (left : ℕ) (session : Session)
  /-- `create` raised -/
  | recovering (r : KeyedCall) (e : Exc)
  | done (r : KeyedCall) (o : Outcome)

def Client.session : Client → Session
  | .direct session => session
  | .creating _ _ session => session
  | _ => .idle

/-- The transaction of `create` is for this request. -/
def Session.Carries (r : KeyedCall) (s : Session) : Prop :=
  match s.phase with
  | .begun c => c.idempotencyKey = r.key ∧ c.requestHash = r.requestHash
  | .planning c => c.idempotencyKey = r.key ∧ c.requestHash = r.requestHash
  | .numbering c _ => c.idempotencyKey = r.key ∧ c.requestHash = r.requestHash
  | phase => ∃ t, phase.ticket = some t ∧ t.posting.idempotencyKey = r.key ∧
      t.posting.requestHash = r.requestHash

/-- The `INSERT` of the transfer hits the unique key. -/
def Session.KeyTaken (w : World) (s : Session) : Prop :=
  ∃ t priced, s.phase = .checking t priced [] ∧
    (Write.transfer (t.stamp w.clock).transfer).run (view w.db s.writes) =
      .error (.integrity idempotencyConstraint)

/-- The steps of a client.  Any exception can come out of `create`, but the one
about the key only from the `INSERT`. -/
inductive ClientMove (Q : Db → Posting → Prop) (free : Demand → Prop) :
    World → Client → World → Client → Prop
  | direct {w w' : World} {s s' : Session} (moved : Move Q free w s w' s') :
      ClientMove Q free w (.direct s) w' (.direct s')
  | ask {w : World} {r : KeyedCall} : ClientMove Q free w (.direct .idle) w (.asked r attempts)
  | known {w : World} {r : KeyedCall} {left : ℕ} {t : Transfer}
      (found : transferByKey w.db r.key = some t) :
      ClientMove Q free w (.asked r left)
        w (.done r (.of (answerWith r.key r.requestHash (fun t => pure t) t w.db).1))
  | begin {w w' : World} {r : KeyedCall} {left : ℕ} {s : Session}
      (absent : transferByKey w.db r.key = none) (moved : Move Q free w .idle w' s)
      (carries : s.Carries r) : ClientMove Q free w (.asked r left) w' (.creating r left s)
  | create {w w' : World} {r : KeyedCall} {left : ℕ} {s s' : Session}
      (moved : Move Q free w s w' s') (running : s'.phase ≠ .idle) :
      ClientMove Q free w (.creating r left s) w' (.creating r left s')
  | created {w w' : World} {r : KeyedCall} {left : ℕ} {s s' : Session} {t : Ticket}
      (moved : Move Q free w s w' s') (committed : w'.log = w.log ++ [.posted t]) :
      ClientMove Q free w (.creating r left s) w' (.done r (.returned t.transfer true))
  | raised {w w' : World} {r : KeyedCall} {left : ℕ} {s : Session} {e : Exc}
      (moved : Move Q free w s w' .idle) (unchanged : w'.db = w.db)
      (taken : e = .integrity idempotencyConstraint → s.KeyTaken w) :
      ClientMove Q free w (.creating r left s) w' (.recovering r e)
  | retry {w : World} {r : KeyedCall} {left : ℕ} {s : Session} (again : 1 < left) :
      ClientMove Q free w (.creating r left s) w (.asked r (left - 1))
  | giveUp {w : World} {r : KeyedCall} {left : ℕ} {s : Session} (last : left ≤ 1) :
      ClientMove Q free w (.creating r left s) w (.done r .deadlocked)
  | recovered {w : World} {r : KeyedCall} {e : Exc} :
      ClientMove Q free w (.recovering r e)
        w (.done r (.of (recover r.key r.requestHash (fun t => pure t) e w.db).1))

/-- The services, called with keys. -/
def clients (Q : Db → Posting → Prop) : Protocol World Client Demand where
  claims c := c.session.Claims
  Clash := Demand.Clash
  move := ClientMove Q
  environment := Environment

section

variable {Q : Db → Posting → Prop} {start : Db} {free : Demand → Prop} {w w' : World}

/-- **A client does what its session does.** -/
theorem clients_refine (Q : Db → Posting → Prop) :
    Protocol.Refinement (clients Q) (services Q) Client.session := by
  refine ⟨fun u d => Iff.rfl, fun d c => Iff.rfl, ?_, fun h => h⟩
  intro free w c w' c' h
  show Move Q free w c.session w' c'.session
  cases (h : ClientMove Q free w c w' c') with
  | direct moved => exact moved
  | ask => exact .rollback
  | known => exact .rollback
  | begin _ moved => exact moved
  | create moved => exact moved
  | created moved committed =>
    -- a commit leaves the session idle
    cases moved with
    | commitPosting plain => exact .commitPosting plain
    | commitDocument => exact .commitDocument
    | refuse =>
      cases List.append_cancel_left committed
    | commitClosing =>
      cases List.append_cancel_left committed
    | _ => exact absurd committed.symm (by simp)
  | raised moved => exact moved
  | retry => exact .rollback
  | giveUp => exact .rollback
  | recovered => exact .rollback

/-! ## Looking the key up -/

theorem answerWith_returned {key : String} {requestHash : RequestHash} {existing t : Transfer}
    {created : Bool} {db : Db}
    (h : Outcome.of (answerWith key requestHash (fun t => pure t) existing db).1 =
      .returned t created) :
    t = existing ∧ created = false ∧ existing.requestHash = requestHash := by
  unfold answerWith at h
  split at h
  · cases h
  · rename_i hsame
    cases h
    exact ⟨rfl, rfl, not_not.mp hsame⟩

theorem recover_returned {key : String} {requestHash : RequestHash} {t : Transfer}
    {created : Bool} {e : Exc} {db : Db}
    (h : Outcome.of (recover key requestHash (fun t => pure t) e db).1 = .returned t created) :
    transferByKey db key = some t ∧ created = false ∧ t.requestHash = requestHash := by
  unfold recover at h
  split at h
  · split at h
    · cases h
    · rw [Tx.read_bind, Tx.bind_apply, Tx.lift] at h
      cases hfound : transferByKey db key with
      | none =>
        rw [hfound] at h
        cases h
      | some existing =>
        rw [hfound] at h
        obtain ⟨rfl, hcreated, hhash⟩ := answerWith_returned h
        exact ⟨rfl, hcreated, hhash⟩
  · rw [Tx.read_bind] at h
    cases hfound : transferByKey db key with
    | none =>
      rw [hfound] at h
      cases h
    | some existing =>
      rw [hfound] at h
      obtain ⟨rfl, hcreated, hhash⟩ := answerWith_returned h
      exact ⟨rfl, hcreated, hhash⟩
  · cases h

/-! ## Carrying the request -/

/-- The transaction of `create` stays one for its request. -/
theorem Move.carries {s s' : Session} {r : KeyedCall} (moved : Move Q free w s w' s')
    (running : s'.phase ≠ .idle) (h : s.Carries r) : s'.Carries r := by
  cases moved with
  | lockFund => exact h
  | plan => exact h
  | @number c ls ws plan legs valid =>
    refine ⟨_, rfl, ?_, ?_⟩
    · have hkey : c.idempotencyKey = r.key := h.1
      rw [← hkey]
      show (c.document.posting _ _ _ _).idempotencyKey = _
      cases c.document <;> rfl
    · have hhash : c.requestHash = r.requestHash := h.2
      rw [← hhash]
      show (c.document.posting _ _ _ _).requestHash = _
      cases c.document <;> rfl
  | insertTransfer =>
    obtain ⟨t, ht, hkey, hhash⟩ := h
    cases ht
    exact ⟨_, rfl, hkey, hhash⟩
  | lockAccount | price | checkFunds | insertEntry | checkBalance | insertDocument => exact h
  | beginPosting | beginDocument | beginClosing | lockPeriod | checkEarlier | checkImbalance
    | close =>
    obtain ⟨t, ht, -⟩ := h
    cases ht
  | refuse | commitPosting | commitDocument | alreadyClosed | commitClosing | rollback =>
    exact absurd rfl running

/-- **The commit of `create`** commits a transfer with the key and the hash of
its request, and the key was not there before. -/
theorem Move.created {s s' : Session} {r : KeyedCall} {t : Ticket} (moved : Move Q free w s w' s')
    (committed : w'.log = w.log ++ [.posted t]) (h : w.Ok Q start) (hok : s.Ok Q w.db)
    (hcarries : s.Carries r) : t.transfer ∈ w'.db.transfers ∧ t.transfer.idempotencyKey = r.key ∧
      t.transfer.requestHash = r.requestHash ∧ ∀ u ∈ w.db.transfers, u.idempotencyKey ≠ r.key := by
  rcases moved.committed (h.serial.linked h.linked) hok with ⟨-, hother⟩ |
    ⟨t', db₁, es, ht, hlog, -, posted, documented⟩
  · exact absurd committed (hother t)
  · have hsame : t' = t := by
      have hevent := List.singleton_inj.mp (List.append_cancel_left (hlog.symm.trans committed))
      cases hevent
      rfl
    subst hsame
    have hcarried : t'.posting.idempotencyKey = r.key ∧
        t'.posting.requestHash = r.requestHash := by
      obtain ⟨phase, locks, writes⟩ := s
      cases phase with
      | begun | planning | numbering => cases ht
      | _ =>
        obtain ⟨t, ht', hkeys⟩ := hcarries
        obtain rfl : t = t' := Option.some.inj (ht'.symm.trans ht)
        exact hkeys
    refine ⟨?_, hcarried.1, hcarried.2, fun u hu => ?_⟩
    · rw [documented.keeps.transfers]
      exact posted.mem_transfers.mpr (.inr rfl)
    · rw [← hcarried.1]
      exact posted.key_fresh u hu

/-! ## The assertions -/

/-- What a call knows about its key. -/
def Client.Right (w : World) : Client → Prop
  | .creating r _ session => session.Carries r
  | .recovering r e => e = .integrity idempotencyConstraint →
      ∃ t ∈ w.db.transfers, t.idempotencyKey = r.key
  | .done r (.returned t _) => t ∈ w.db.transfers ∧ t.idempotencyKey = r.key ∧
      t.requestHash = r.requestHash
  | _ => True

/-- The key of a call that created a transfer. -/
def Client.createdKey : Client → Option String
  | .done r (.returned _ true) => some r.key
  | _ => none

/-- The two did not both create a transfer for one key. -/
def Client.Apart (c d : Client) : Prop :=
  ∀ key, c.createdKey = some key → d.createdKey ≠ some key

/-- The `INSERT` only fails on the key if the key is there. -/
theorem insertTransfer_keyTaken {db : Db} {t : Transfer}
    (h : insertTransfer db t = .error (.integrity idempotencyConstraint)) :
    ∃ u ∈ db.transfers, u.idempotencyKey = t.idempotencyKey := by
  by_contra hnone
  have hfresh : ∀ u ∈ db.transfers.rows, u.idempotencyKey ≠ t.idempotencyKey :=
    fun u hu heq => hnone ⟨u, hu, heq⟩
  simp only [insertTransfer, except_bind_error, require_eq_error, orRaise_eq_error,
    idempotencyConstraint, Exc.integrity.injEq, String.reduceEq, reduceCtorEq, and_false,
    false_or, and_true] at h
  obtain ⟨_, -, _, -, _, -, _, -, transfers, -, htaken | ⟨_, -, _, -, _, -, _, -, hpure⟩⟩ := h
  · exact htaken hfresh
  · cases hpure

theorem Session.KeyTaken.exists_transfer {s : Session} (h : s.KeyTaken w) (hok : s.Ok Q w.db)
    {r : KeyedCall} (hcarries : s.Carries r) : ∃ t ∈ w.db.transfers, t.idempotencyKey = r.key := by
  obtain ⟨t, priced, hphase, hinsert⟩ := h
  obtain ⟨phase, locks, writes⟩ := s
  cases hphase
  have hwrites : writes = [] := hok.1
  subst hwrites
  obtain ⟨t', ht', hkey, -⟩ := hcarries
  obtain rfl : t = t' := Option.some.inj ht'
  obtain ⟨u, hu, hukey⟩ := insertTransfer_keyTaken hinsert
  exact ⟨u, hu, hukey.trans hkey⟩

/-- What is committed stays right. -/
theorem Client.Right.later {c : Client} (h : c.Right w)
    (hsub : ∀ t ∈ w.db.transfers, t ∈ w'.db.transfers) : c.Right w' := by
  cases c with
  | recovering r e =>
    intro he
    obtain ⟨t, ht, hkey⟩ := h he
    exact ⟨t, hsub t ht, hkey⟩
  | done r o =>
    cases o with
    | returned t created => exact ⟨hsub t h.1, h.2⟩
    | raised => trivial
    | deadlocked => trivial
  | direct => trivial
  | asked => trivial
  | creating => exact h

/-- **A client's own moves** keep it right. -/
theorem ClientMove.right {c c' : Client} (moved : ClientMove Q free w c w' c') (h : w.Ok Q start)
    (hok : c.session.Ok Q w.db) (hright : c.Right w) : c'.Right w' := by
  cases moved with
  | direct => trivial
  | ask => trivial
  | @known r left t found =>
    obtain ⟨hmem, hkey⟩ := transferByKey_some found
    cases hanswer : Outcome.of (answerWith r.key r.requestHash (fun t => pure t) t w.db).1 with
    | returned u created =>
      obtain ⟨rfl, -, hhash⟩ := answerWith_returned hanswer
      exact ⟨hmem, hkey, hhash⟩
    | raised => trivial
    | deadlocked => trivial
  | begin _ _ carries => exact carries
  | create moved running => exact moved.carries running hright
  | created moved committed =>
    obtain ⟨hmem, hkey, hhash, -⟩ := moved.created committed h hok hright
    exact ⟨hmem, hkey, hhash⟩
  | raised _ unchanged taken =>
    intro he
    rw [unchanged]
    exact (taken he).exists_transfer hok hright
  | retry => trivial
  | giveUp => trivial
  | @recovered r e =>
    cases hanswer : Outcome.of (recover r.key r.requestHash (fun t => pure t) e w.db).1 with
    | returned u created =>
      obtain ⟨hfound, -, hhash⟩ := recover_returned hanswer
      obtain ⟨hmem, hkey⟩ := transferByKey_some hfound
      exact ⟨hmem, hkey, hhash⟩
    | raised => trivial
    | deadlocked => trivial

/-- What a move leaves there. -/
theorem Move.transfers_subset {s s' : Session} (moved : Move Q free w s w' s') (h : w.Ok Q start)
    (hok : s.Ok Q w.db) : ∀ t ∈ w.db.transfers, t ∈ w'.db.transfers := by
  intro t ht
  rcases moved.committed (h.serial.linked h.linked) hok with ⟨keeps, -⟩ |
    ⟨k, db₁, es, -, -, -, posted, documented⟩
  · rw [keeps.transfers]
    exact ht
  · rw [documented.keeps.transfers]
    exact posted.mem_transfers.mpr (.inl ht)

/-- **The assertions about keys are sound.** -/
theorem keys_sound : (clients Q).SoundOver (World.Ok Q start) (fun w c => c.session.Ok Q w.db)
    (fun _ => True) fun w c => c.Right w := by
  constructor
  · intro free w c w' c' moved h hok _ hright
    exact ⟨trivial, ClientMove.right moved h hok hright⟩
  · intro free w c w' c' d moved h hok _ _ _ _ hd
    exact hd.later ((clients_refine Q).move moved |>.transfers_subset h hok)
  · intro w w' changed h _
    refine ⟨trivial, fun _ hc => hc.later fun t ht => ?_⟩
    rw [(Environment.keeps changed).transfers]
    exact ht

/-- A call that has created a transfer can show it. -/
theorem Client.Right.exists_transfer {c : Client} (h : c.Right w) {key : String}
    (hc : c.createdKey = some key) : ∃ t ∈ w.db.transfers, t.idempotencyKey = key := by
  cases c with
  | done r o =>
    cases o with
    | returned t created =>
      cases created with
      | true =>
        cases hc
        exact ⟨t, h.1, h.2.1⟩
      | false => cases hc
    | raised => cases hc
    | deadlocked => cases hc
  | _ => cases hc

theorem createdKey_of {r : KeyedCall} {o : Outcome} {key : String}
    (h : (Client.done r o).createdKey = some key) : ∃ t, o = .returned t true := by
  cases o with
  | returned t created =>
    cases created with
    | true => exact ⟨t, rfl⟩
    | false => cases h
  | raised => cases h
  | deadlocked => cases h

/-- **A client creates for a key that is not there.** -/
theorem ClientMove.createdKey {c c' : Client} (moved : ClientMove Q free w c w' c')
    (h : w.Ok Q start) (hok : c.session.Ok Q w.db) (hright : c.Right w) {key : String}
    (hkey : c'.createdKey = some key) : ∀ u ∈ w.db.transfers, u.idempotencyKey ≠ key := by
  cases moved with
  | created moved committed =>
    cases hkey
    exact (moved.created committed h hok hright).2.2.2
  | known found =>
    obtain ⟨t, ht⟩ := createdKey_of hkey
    cases (answerWith_returned ht).2.1
  | recovered =>
    obtain ⟨t, ht⟩ := createdKey_of hkey
    cases (recover_returned ht).2.1
  | _ => cases hkey

/-- **No two calls create for one key.** -/
theorem keys_between : (clients Q).SoundBetween (fun w => w.Ok Q start ∧ True)
    (fun w c => c.session.Ok Q w.db ∧ c.Right w) Client.Apart := by
  constructor
  · intro c d hcd key hd hc
    exact hcd key hc hd
  · intro free w c w' c' d moved h hc hd _ _ key hkey hdkey
    obtain ⟨t, ht, htkey⟩ := hd.2.exists_transfer hdkey
    exact ClientMove.createdKey moved h.1 hc.1 hc.2 hkey t ht htkey

end

/-! ## Any number of calls -/

/-- `transfer_idempotency_key_unique`. -/
def UniqueKeys (db : Db) : Prop :=
  ∀ t ∈ db.transfers, ∀ u ∈ db.transfers, t.idempotencyKey = u.idempotencyKey → t = u

theorem Genesis.uniqueKeys {db : Db} (h : Genesis db) : UniqueKeys db := by
  intro t ht
  rw [← Table.mem_rows, h.transfers] at ht
  cases ht

theorem Posted.uniqueKeys {env : Env} {a : Posting} {db db' : Db} {es : List Entry}
    (posted : Posted env a db db' es) (h : UniqueKeys db) : UniqueKeys db' := by
  intro t ht u hu heq
  rcases posted.mem_transfers.mp ht with hold | rfl <;>
    rcases posted.mem_transfers.mp hu with hold' | rfl
  · exact h t hold u hold' heq
  · exact absurd heq (posted.key_fresh t hold)
  · exact absurd heq.symm (posted.key_fresh u hold')
  · rfl

theorem Keeps.uniqueKeys {db db' : Db} (keeps : Keeps db db') (h : UniqueKeys db) :
    UniqueKeys db' := by
  unfold UniqueKeys
  rw [keeps.transfers]
  exact h

section

variable {P : Type} [DecidableEq P] {Q : Db → Posting → Prop} {start : Db} {clock : Timestamp}
  {s : Sessions P World Client}

/-- Clients that have not called anything. -/
def freshClients {P : Type} (db : Db) (clock : Timestamp) : Sessions P World Client :=
  ⟨⟨db, clock, []⟩, fun _ => .direct .idle⟩

omit [DecidableEq P] in
theorem keys_holding (hlinked : Linked start) :
    (clients Q).Holding (fun w => w.Ok Q start ∧ True)
      (fun w c => c.session.Ok Q w.db ∧ c.Right w)
      (freshClients start clock : Sessions P World Client) :=
  ⟨fun _ _ _ _ hd => absurd hd not_claims_nil, ⟨⟨.nil, hlinked⟩, trivial⟩,
    fun _ => ⟨rfl, trivial⟩⟩

/-- A run of calls is a run of the services. -/
theorem clients_run (hrun : (clients Q).Run (freshClients start clock) s) :
    (services Q).Run (freshSessions start clock) (s.map Client.session) :=
  (clients_refine Q).run hrun

/-- **Exactly once.**  Whatever runs at once, fails, and is tried again: a call
that returns has the committed transfer with its key and its fingerprint; two
calls that return for one key have the same transfer, and only one of them
created it; and a call that lost the race for the key finds the winner. -/
theorem exactly_once (genesis : Genesis start)
    (hrun : (clients Q).Run (freshClients start clock) s) :
    (∀ p r t created, s.locals p = .done r (.returned t created) →
      t ∈ s.shared.db.transfers ∧ t.idempotencyKey = r.key ∧ t.requestHash = r.requestHash) ∧
    (∀ p q r r' t t' created created', s.locals p = .done r (.returned t created) →
      s.locals q = .done r' (.returned t' created') → r.key = r'.key →
      t = t' ∧ r.requestHash = r'.requestHash ∧ (created = true → created' = true → p = q)) ∧
    ∀ p r, s.locals p = .recovering r (.integrity idempotencyConstraint) →
      ∃ t, transferByKey s.shared.db r.key = some t := by
  have hsound := keys_sound.sound ((clients_refine Q).sound (services_sound : (services Q).Sound (World.Ok Q start) _))
  have hd := (clients_refine Q).disciplined (services_disciplined Q)
  have hends := hsound.run hd (keys_holding genesis.funded.linked) hrun
  have hbetween := keys_between.run hsound hd (keys_holding genesis.funded.linked)
    (fun p q _ key hkey => by cases hkey) hrun
  have hunique : UniqueKeys s.shared.db := hends.shared.1.serial.invariant
    (fun posted hu => posted.uniqueKeys hu) (fun keeps hu => keeps.uniqueKeys hu)
    genesis.uniqueKeys
  have hreturned : ∀ p r t created, s.locals p = .done r (.returned t created) →
      t ∈ s.shared.db.transfers ∧ t.idempotencyKey = r.key ∧ t.requestHash = r.requestHash := by
    intro p r t created hp
    have hright := (hends.each p).2
    rw [hp] at hright
    exact hright
  refine ⟨hreturned, fun p q r r' t t' created created' hp hq hkey => ?_, fun p r hp => ?_⟩
  · obtain ⟨hmem, htkey, hthash⟩ := hreturned p r t created hp
    obtain ⟨hmem', htkey', hthash'⟩ := hreturned q r' t' created' hq
    obtain rfl : t = t' := hunique t hmem t' hmem' (htkey.trans (hkey.trans htkey'.symm))
    refine ⟨rfl, hthash.symm.trans hthash', fun hcreated hcreated' => ?_⟩
    subst hcreated hcreated'
    by_contra hne
    apply hbetween p q hne r.key
    · rw [hp]
      rfl
    · rw [hq, hkey]
      rfl
  · have hright := (hends.each p).2
    rw [hp] at hright
    obtain ⟨t, ht, hkey⟩ := hright rfl
    cases hfound : transferByKey s.shared.db r.key with
    | some u => exact ⟨u, rfl⟩
    | none => exact absurd hkey (transferByKey_none.mp hfound t ht)

end

/-! ## The deposit, asked for twice -/

/-- A session that goes on is in a transaction. -/
theorem Session.running_of_next {w : World} {s : Session} {x : World × Session}
    (h : s.next w = some x) : s.phase ≠ .idle := by
  intro hidle
  obtain ⟨phase, locks, writes⟩ := s
  cases hidle
  cases h

theorem steps_succ (n : ℕ) (x : World × Session) :
    steps (n + 1) x = (steps n x).bind fun y => y.2.next y.1 := by
  induction n generalizing x with
  | zero =>
    show (x.2.next x.1).bind some = x.2.next x.1
    exact Option.bind_fun_some _
  | succ n ih =>
    show (x.2.next x.1).bind (steps (n + 1)) = ((x.2.next x.1).bind (steps n)).bind _
    rw [Option.bind_assoc]
    congr 1
    funext y
    exact ih y

section

variable {P : Type} [DecidableEq P] {Q : Db → Posting → Prop} {p : P} {locals : P → Client}

/-- A move of one client, while the others are not in a transaction. -/
theorem step_client (others : ∀ q, q ≠ p → (locals q).session = .idle) {w w' : World}
    {c c' : Client} (h : ∀ free : Demand → Prop, (∀ d, free d) → ClientMove Q free w c w' c') :
    (clients Q).Step ⟨w, Function.update locals p c⟩ ⟨w', Function.update locals p c'⟩ := by
  have hfree : ∀ d, (clients Q).Free (Function.update locals p c) p d := by
    intro d q hq e hclaim
    rw [Function.update_of_ne hq] at hclaim
    have hidle : (locals q).session.Claims e := hclaim
    rw [others q hq] at hidle
    exact absurd hidle not_claims_nil
  have hmoved : (clients Q).move ((clients Q).Free (Function.update locals p c) p) w
      (Function.update locals p c p) w' c' := by
    rw [Function.update_self]
    exact h _ hfree
  have hstep : (clients Q).Step ⟨w, Function.update locals p c⟩
      ⟨w', Function.update (Function.update locals p c) p c'⟩ := .move hmoved
  rw [Function.update_idem] at hstep
  exact hstep

/-- The moves of a client that has its transaction open. -/
theorem run_creating (others : ∀ q, q ≠ p → (locals q).session = .idle) {r : KeyedCall}
    {left n : ℕ} {x y : World × Session} (h : steps n x = some y) (running : y.2.phase ≠ .idle) :
    (clients Q).Run ⟨x.1, Function.update locals p (.creating r left x.2)⟩
      ⟨y.1, Function.update locals p (.creating r left y.2)⟩ := by
  induction n generalizing x with
  | zero =>
    cases h
    exact .refl
  | succ n ih =>
    obtain ⟨z, hnext, hrest⟩ := Option.bind_eq_some_iff.mp h
    have hrunning : z.2.phase ≠ .idle := by
      cases n with
      | zero =>
        cases hrest
        exact running
      | succ n =>
        obtain ⟨z', hnext', -⟩ := Option.bind_eq_some_iff.mp hrest
        exact Session.running_of_next hnext'
    apply (ih hrest).head
    apply step_client others
    exact fun free hfree => .create (Session.move_of_next hfree hnext) hrunning

/-- A call that creates. -/
theorem run_created (others : ∀ q, q ≠ p → (locals q).session = .idle) {w : World} {env : Env}
    {a : Posting} {left n : ℕ} (known : Q w.db a)
    (absent : transferByKey w.db a.idempotencyKey = none) {y z : World × Session} {t : Ticket}
    (hsteps : steps n (w, .ofPosting env a) = some y) (hnext : y.2.next y.1 = some z)
    (committed : z.1.log = y.1.log ++ [.posted t]) :
    (clients Q).Run ⟨w, Function.update locals p (.asked ⟨a.idempotencyKey, a.requestHash⟩ left)⟩
      ⟨z.1, Function.update locals p (.done ⟨a.idempotencyKey, a.requestHash⟩
        (.returned t.transfer true))⟩ := by
  have hfirst : (Session.ofPosting env a).phase ≠ .idle := by
    have hall : steps (n + 1) (w, .ofPosting env a) = some z := by
      rw [steps_succ, hsteps, Option.bind_some, hnext]
    obtain ⟨z', hnext', -⟩ := Option.bind_eq_some_iff.mp hall
    exact Session.running_of_next hnext'
  have hbegin : ∀ free, Move Q free w .idle w (.ofPosting env a) ∧
      (Session.ofPosting env a).Carries ⟨a.idempotencyKey, a.requestHash⟩ := by
    intro free
    unfold Session.ofPosting at hfirst ⊢
    split
    · exact ⟨.beginPosting known _, _, rfl, rfl, rfl⟩
    · rename_i herror
      split at hfirst
      · rename_i hok
        cases herror.symm.trans hok
      · exact absurd rfl hfirst
  refine .head (step_client others fun free _ => .begin absent (hbegin free).1 (hbegin free).2) ?_
  refine (run_creating others hsteps (Session.running_of_next hnext)).tail ?_
  apply step_client others
  exact fun free hfree => .created (Session.move_of_next hfree hnext) committed

end

/-- No client has called anything yet. -/
def noCalls : Bool → Client := fun _ => .direct .idle

/-- The first of two calls creates, and the second one finds the transfer. -/
theorem run_twice {Q : Db → Posting → Prop} {w : World} {env : Env} {a : Posting} {n : ℕ}
    {y z : World × Session} {t : Ticket} (known : Q w.db a)
    (absent : transferByKey w.db a.idempotencyKey = none)
    (hsteps : steps n (w, .ofPosting env a) = some y) (hnext : y.2.next y.1 = some z)
    (committed : z.1.log = y.1.log ++ [.posted t])
    (found : transferByKey z.1.db a.idempotencyKey = some t.transfer)
    (same : t.transfer.requestHash = a.requestHash) : ∃ s,
      (clients Q).Run (⟨w, noCalls⟩ : Sessions Bool World Client) s ∧ s.shared = z.1 ∧
      s.locals true = .done ⟨a.idempotencyKey, a.requestHash⟩ (.returned t.transfer true) ∧
      s.locals false = .done ⟨a.idempotencyKey, a.requestHash⟩ (.returned t.transfer false) := by
  let r : KeyedCall := ⟨a.idempotencyKey, a.requestHash⟩
  let created : Bool → Client := Function.update noCalls true (.done r (.returned t.transfer true))
  have hanswer : Outcome.of (answerWith r.key r.requestHash (fun t => pure t) t.transfer z.1.db).1 =
      .returned t.transfer false := by
    rw [answerWith, if_neg (not_not.mpr same)]
    rfl
  have hfirst : (clients Q).Run ⟨w, Function.update noCalls true (.direct .idle)⟩ ⟨z.1, created⟩ :=
    .head (step_client (fun _ _ => rfl) fun free _ => .ask)
      (run_created (fun _ _ => rfl) known absent hsteps hnext committed)
  have hothers : ∀ q, q ≠ false → (created q).session = .idle := by
    intro q hq
    cases q with
    | true => rfl
    | false => exact absurd rfl hq
  have hsecond : (clients Q).Run ⟨z.1, Function.update created false (.direct .idle)⟩
      ⟨z.1, Function.update created false (.done r (.returned t.transfer false))⟩ := by
    refine .head (step_client hothers fun free _ => .ask (r := r)) (.single ?_)
    apply step_client hothers
    intro free _
    rw [← hanswer]
    exact .known found
  have hidle : Function.update created false (.direct .idle) = created :=
    Function.update_eq_self (f := created) false
  have hnone : Function.update noCalls true (.direct .idle) = noCalls :=
    Function.update_eq_self (f := noCalls) true
  rw [hidle] at hsecond
  rw [hnone] at hfirst
  exact ⟨_, hfirst.trans hsecond, rfl, rfl, rfl⟩

/-- The transfer of the first commit. -/
def World.firstPosted (w : World) : Option Transfer :=
  match w.log with
  | .posted t :: _ => some t.transfer
  | _ => none

theorem World.log_of_firstPosted {w : World} (h : w.log.length = 1) {t : Transfer}
    (hfirst : w.firstPosted = some t) : ∃ k : Ticket, w.log = [.posted k] ∧ k.transfer = t := by
  obtain ⟨e, he⟩ := List.length_eq_one_iff.mp h
  rw [World.firstPosted, he] at hfirst
  cases e with
  | posted k =>
    cases hfirst
    exact ⟨k, he, rfl⟩
  | refused => cases hfirst
  | closed => cases hfirst
  | opened => cases hfirst

/-- **The deposit, asked for twice.** -/
theorem run_depositTwice {Q : Db → Posting → Prop} (known : Q buildPeFund depositOf100) : ∃ s,
    (clients Q).Run (freshClients buildPeFund 1 : Sessions Bool World Client) s ∧
    s.locals true = .done ⟨"deposit", .blank⟩ (.returned depositRow true) ∧
    s.locals false = .done ⟨"deposit", .blank⟩ (.returned depositRow false) := by
  have habsent : transferByKey buildPeFund "deposit" = none := by decide +kernel
  have hsteps : (steps 8 depositBegun).isSome := by decide +kernel
  have hlast : (steps 9 depositBegun).isSome := by decide +kernel
  have hrunning : (afterSteps 8 depositBegun).1.log.length = 0 := by decide +kernel
  have hcommitted : (afterSteps 9 depositBegun).1.log.length = 1 := by decide +kernel
  have hposted : (afterSteps 9 depositBegun).1.firstPosted = some depositRow := by decide +kernel
  have hfound : transferByKey (afterSteps 9 depositBegun).1.db "deposit" = some depositRow := by
    decide +kernel
  obtain ⟨z, hz⟩ := Option.isSome_iff_exists.mp hlast
  obtain ⟨y, hy⟩ := Option.isSome_iff_exists.mp hsteps
  rw [afterSteps, hz, Option.getD_some] at hcommitted hposted hfound
  rw [afterSteps, hy, Option.getD_some] at hrunning
  have hnext : y.2.next y.1 = some z := by
    rw [steps_succ, hy] at hz
    exact hz
  obtain ⟨t, hlog, ht⟩ := World.log_of_firstPosted hcommitted hposted
  have hlog' : z.1.log = y.1.log ++ [.posted t] := by
    rw [List.length_eq_zero_iff.mp hrunning, hlog]
    rfl
  rw [← ht] at hfound
  have hhash : t.transfer.requestHash = depositOf100.requestHash := by
    rw [ht]
    rfl
  unfold depositBegun at hy
  clear hz hlast hsteps
  generalize buildPeFund = db at known habsent hy ⊢
  obtain ⟨s, hrun, -, hfirst, hsecond⟩ := run_twice known habsent hy hnext hlog' hfound hhash
  rw [ht] at hfirst hsecond
  exact ⟨s, hrun, hfirst, hsecond⟩

/-- Both calls have the one transfer, and the two did not both create it. -/
theorem exactly_once_depositTwice : ∃ s : Sessions Bool World Client,
    (clients fun _ _ => True).Run (freshClients buildPeFund 1) s ∧
    s.locals true = .done ⟨"deposit", .blank⟩ (.returned depositRow true) ∧
    s.locals false = .done ⟨"deposit", .blank⟩ (.returned depositRow false) ∧
    depositRow ∈ s.shared.db.transfers := by
  obtain ⟨s, hrun, hfirst, hsecond⟩ := run_depositTwice (Q := fun _ _ => True) trivial
  exact ⟨s, hrun, hfirst, hsecond,
    ((exactly_once genesis_buildPeFund hrun).1 false _ _ _ hsecond).1⟩

end FundLedger
