import FundLedger.Access.Keys

/-!
# Histories of keys

A world is the rows, the clock, and a list of what has happened: which keys
were issued, with the raw key that was shown; which were revoked; and which
users were deactivated.  The list is kept by the model only.  `KeysRecorded` says
that the rows agree with it, and it holds after any sequence of events.  So
`verifyKey`, which sees the rows only, can be described by the history:
`verify_key_iff`.
-/

namespace FundLedger

open Lib

inductive KeyEvent
  | join (user : Uuid)
  | issue (draw : KeyDraw) (user : Uuid) (name : String) (expiresAt : Option Timestamp)
  | revokeApiKey (keyPrefix : String)
  | revokeNamed (user : Uuid) (name : String)
  | deactivate (user : Uuid)
  | request (header : List UInt8)
  | wait (span : ℕ)

/-- What came of an event. -/
inductive KeyFact
  | issued (key : ApiKey) (raw : String)
  | revoked (key : Uuid)
  | deactivated (user : Uuid)
  deriving DecidableEq

structure KeyWorld where
  db : AccessDb
  now : Timestamp
  facts : List KeyFact

def KeyWorld.empty : KeyWorld := ⟨⟨.empty, .empty⟩, 0, []⟩

/-- The facts of a revocation: the keys that were not revoked yet. -/
def revocations (which : ApiKey → Bool) (db : AccessDb) : List KeyFact :=
  (db.apiKeys.rows.filter fun k => which k && k.revokedAt.isNone).map fun k => .revoked k.id

def deactivations (user : Uuid) (db : AccessDb) : List KeyFact :=
  (db.users.get? user).toList.map fun u => .deactivated u.id

/-- The world after an event. -/
def KeyWorld.step (digest : String → String) (w : KeyWorld) : KeyEvent → KeyWorld
  | .join user =>
    match insertUser w.db { id := user } with
    | .ok db => { w with db }
    | .error _ => w
  | .issue draw user name expiresAt =>
    match issueKey digest draw user name expiresAt w.db with
    | (.ok (key, raw), db) => { w with db, facts := w.facts ++ [.issued key raw] }
    | (.error _, db) => { w with db }
  | .revokeApiKey keyPrefix =>
    { w with
      db := FundLedger.revokeApiKey keyPrefix w.now w.db
      facts := w.facts ++ revocations (fun k => k.keyPrefix = keyPrefix) w.db }
  | .revokeNamed user name =>
    { w with
      db := FundLedger.revokeNamed user name w.now w.db
      facts := w.facts ++ revocations (fun k => k.user = user ∧ k.name = name) w.db }
  | .deactivate user =>
    { w with db := deactivateUser user w.db, facts := w.facts ++ deactivations user w.db }
  | .request header =>
    match authenticate digest w.now w.db header with
    | .ok (some key) => { w with db := recordUse w.now w.db key }
    | _ => w
  | .wait span => { w with now := w.now + span }

def KeyWorld.run (digest : String → String) (w : KeyWorld) (events : List KeyEvent) : KeyWorld :=
  events.foldl (KeyWorld.step digest) w

/-! ## The rows and the history -/

/-- The columns of a key that no event changes. -/
structure SameKey (k r : ApiKey) : Prop where
  id : r.id = k.id
  user : r.user = k.user
  name : r.name = k.name
  keyPrefix : r.keyPrefix = k.keyPrefix
  keyHash : r.keyHash = k.keyHash
  expiresAt : r.expiresAt = k.expiresAt

theorem SameKey.refl (k : ApiKey) : SameKey k k := ⟨rfl, rfl, rfl, rfl, rfl, rfl⟩

theorem SameKey.trans {a b c : ApiKey} (h : SameKey a b) (h' : SameKey b c) : SameKey a c :=
  ⟨h'.id.trans h.id, h'.user.trans h.user, h'.name.trans h.name, h'.keyPrefix.trans h.keyPrefix,
    h'.keyHash.trans h.keyHash, h'.expiresAt.trans h.expiresAt⟩

/-- `raw` was put together from a draw, whose secret has the key's digest. -/
def RawOf (digest : String → String) (k : ApiKey) (raw : String) : Prop :=
  ∃ draw : KeyDraw, k.keyPrefix = draw.keyPrefix ∧ k.keyHash = digest draw.secret ∧
    raw = rawKey draw.keyPrefix draw.secret

/-- **The rows agree with what has happened.** -/
structure KeysRecorded (digest : String → String) (w : KeyWorld) : Prop where
  rows : ∀ r ∈ w.db.apiKeys, ∃ k raw, .issued k raw ∈ w.facts ∧ SameKey k r
  issued : ∀ k raw, .issued k raw ∈ w.facts →
    (∃ r ∈ w.db.apiKeys, SameKey k r) ∧ RawOf digest k raw
  issued_once : ∀ k raw k' raw', .issued k raw ∈ w.facts → .issued k' raw' ∈ w.facts →
    k.id = k'.id → k = k' ∧ raw = raw'
  prefix_unique : ∀ r ∈ w.db.apiKeys, ∀ s ∈ w.db.apiKeys, r.keyPrefix = s.keyPrefix → r = s
  owner : ∀ r ∈ w.db.apiKeys, ∃ u ∈ w.db.users, u.id = r.user
  revoked : ∀ r ∈ w.db.apiKeys, r.revokedAt = none ↔ .revoked r.id ∉ w.facts
  revoked_known : ∀ i, .revoked i ∈ w.facts → ∃ r ∈ w.db.apiKeys, r.id = i
  active : ∀ u ∈ w.db.users, u.isActive = true ↔ .deactivated u.id ∉ w.facts
  deactivated_known : ∀ i, .deactivated i ∈ w.facts → ∃ u ∈ w.db.users, u.id = i

theorem keysRecorded_empty (digest : String → String) : KeysRecorded digest .empty := by
  have hkey : ∀ r, r ∉ KeyWorld.empty.db.apiKeys := fun _ h => List.not_mem_nil h
  have huser : ∀ u, u ∉ KeyWorld.empty.db.users := fun _ h => List.not_mem_nil h
  have hfact : ∀ f, f ∉ KeyWorld.empty.facts := fun _ h => List.not_mem_nil h
  exact ⟨fun r h => absurd h (hkey r), fun _ _ h => absurd h (hfact _),
    fun _ _ _ _ h => absurd h (hfact _), fun r h => absurd h (hkey r),
    fun r h => absurd h (hkey r), fun r h => absurd h (hkey r), fun _ h => absurd h (hfact _),
    fun u h => absurd h (huser u), fun _ h => absurd h (hfact _)⟩

section

variable {digest : String → String} {w w' : KeyWorld}

/-- Rows that are rewritten in columns that may change, with the facts that say
so. -/
theorem KeysRecorded.rewrite (h : KeysRecorded digest w) {f : ApiKey → ApiKey} {g : User → User}
    {new : List KeyFact} (hkeys : w'.db.apiKeys.rows = w.db.apiKeys.rows.map f)
    (husers : w'.db.users.rows = w.db.users.rows.map g) (hfacts : w'.facts = w.facts ++ new)
    (hf : ∀ r, SameKey r (f r)) (hg : ∀ u, (g u).id = u.id)
    (hissued : ∀ k raw, .issued k raw ∉ new)
    (hrevoked : ∀ r ∈ w.db.apiKeys,
      (f r).revokedAt = none ↔ r.revokedAt = none ∧ .revoked r.id ∉ new)
    (hknown : ∀ i, .revoked i ∈ new → ∃ r ∈ w.db.apiKeys, r.id = i)
    (hactive : ∀ u ∈ w.db.users, (g u).isActive = true ↔ u.isActive = true ∧ .deactivated u.id ∉ new)
    (hmembers : ∀ i, .deactivated i ∈ new → ∃ u ∈ w.db.users, u.id = i) : KeysRecorded digest w' := by
  have hkey : ∀ r, r ∈ w'.db.apiKeys ↔ ∃ s ∈ w.db.apiKeys, f s = r := by
    intro r
    rw [← Table.mem_rows, hkeys, List.mem_map]
    rfl
  have huser : ∀ u, u ∈ w'.db.users ↔ ∃ v ∈ w.db.users, g v = u := by
    intro u
    rw [← Table.mem_rows, husers, List.mem_map]
    rfl
  have hold : ∀ k raw, .issued k raw ∈ w'.facts ↔ .issued k raw ∈ w.facts := by
    intro k raw
    rw [hfacts, List.mem_append, or_iff_left (hissued k raw)]
  constructor
  · intro r hr
    obtain ⟨s, hs, rfl⟩ := (hkey r).mp hr
    obtain ⟨k, raw, hk, hsame⟩ := h.rows s hs
    exact ⟨k, raw, (hold k raw).mpr hk, hsame.trans (hf s)⟩
  · intro k raw hk
    obtain ⟨⟨r, hr, hsame⟩, hraw⟩ := h.issued k raw ((hold k raw).mp hk)
    exact ⟨⟨f r, (hkey _).mpr ⟨r, hr, rfl⟩, hsame.trans (hf r)⟩, hraw⟩
  · intro k raw k' raw' hk hk' hid
    exact h.issued_once k raw k' raw' ((hold k raw).mp hk) ((hold k' raw').mp hk') hid
  · intro r hr s hs heq
    obtain ⟨r₀, hr₀, rfl⟩ := (hkey r).mp hr
    obtain ⟨s₀, hs₀, rfl⟩ := (hkey s).mp hs
    rw [h.prefix_unique r₀ hr₀ s₀ hs₀ ((hf r₀).keyPrefix.symm.trans (heq.trans (hf s₀).keyPrefix))]
  · intro r hr
    obtain ⟨s, hs, rfl⟩ := (hkey r).mp hr
    obtain ⟨u, hu, hid⟩ := h.owner s hs
    exact ⟨g u, (huser _).mpr ⟨u, hu, rfl⟩, (hg u).trans (hid.trans (hf s).user.symm)⟩
  · intro r hr
    obtain ⟨s, hs, rfl⟩ := (hkey r).mp hr
    rw [hrevoked s hs, h.revoked s hs, (hf s).id, hfacts, List.mem_append, not_or]
  · intro i hi
    rw [hfacts, List.mem_append] at hi
    obtain ⟨r, hr, hid⟩ := hi.elim (h.revoked_known i) (hknown i)
    exact ⟨f r, (hkey _).mpr ⟨r, hr, rfl⟩, (hf r).id.trans hid⟩
  · intro u hu
    obtain ⟨v, hv, rfl⟩ := (huser u).mp hu
    rw [hactive v hv, h.active v hv, hg, hfacts, List.mem_append, not_or]
  · intro i hi
    rw [hfacts, List.mem_append] at hi
    obtain ⟨u, hu, hid⟩ := hi.elim (h.deactivated_known i) (hmembers i)
    exact ⟨g u, (huser _).mpr ⟨u, hu, rfl⟩, (hg u).trans hid⟩

theorem KeysRecorded.join (h : KeysRecorded digest w) {user : Uuid} {db : AccessDb}
    (hins : insertUser w.db { id := user } = .ok db) : KeysRecorded digest { w with db } := by
  simp only [insertUser, except_bind_ok, orRaise_eq_ok, except_pure] at hins
  obtain ⟨users, hins, rfl⟩ := hins
  obtain ⟨hfresh, hrows⟩ := Table.insert_eq_some.mp hins
  have hmem : ∀ u, u ∈ users ↔ u ∈ w.db.users ∨ u = { id := user } := by
    intro u
    rw [← Table.mem_rows, hrows, List.mem_append, List.mem_singleton]
    rfl
  refine { h with owner := fun r hr => ?_, active := fun u hu => ?_, deactivated_known := ?_ }
  · obtain ⟨u, hu, hid⟩ := h.owner r hr
    exact ⟨u, (hmem u).mpr (.inl hu), hid⟩
  · rcases (hmem u).mp hu with hu | rfl
    · exact h.active u hu
    · refine iff_of_true rfl fun hdeactivated => ?_
      obtain ⟨v, hv, hid⟩ := h.deactivated_known _ hdeactivated
      exact hfresh v hv hid
  · intro i hi
    obtain ⟨u, hu, hid⟩ := h.deactivated_known i hi
    exact ⟨u, (hmem u).mpr (.inl hu), hid⟩

theorem KeysRecorded.issue (h : KeysRecorded digest w) {draw : KeyDraw} {user : Uuid} {name : String}
    {expiresAt : Option Timestamp} {db : AccessDb} {key : ApiKey} {raw : String}
    (hrun : issueKey digest draw user name expiresAt w.db = (.ok (key, raw), db)) :
    KeysRecorded digest { w with db, facts := w.facts ++ [.issued key raw] } := by
  obtain ⟨hkey, hraw, hins⟩ := issueKey_ok hrun
  obtain ⟨hkeyPrefix, howner, apiKeys, hinsert, rfl⟩ := insertApiKey_ok hins
  obtain ⟨hfresh, hrows⟩ := Table.insert_eq_some.mp hinsert
  have hmem : ∀ r, r ∈ apiKeys ↔ r ∈ w.db.apiKeys ∨ r = key := by
    intro r
    rw [← Table.mem_rows, hrows, List.mem_append, List.mem_singleton]
    rfl
  have hfact : ∀ k raw', KeyFact.issued k raw' ∈ w.facts ++ [.issued key raw] ↔
      .issued k raw' ∈ w.facts ∨ k = key ∧ raw' = raw := by
    intro k raw'
    rw [List.mem_append, List.mem_singleton, KeyFact.issued.injEq]
  have hother : ∀ f, (∀ k raw', f ≠ KeyFact.issued k raw') →
      (f ∈ w.facts ++ [KeyFact.issued key raw] ↔ f ∈ w.facts) := by
    intro f hf
    rw [List.mem_append, List.mem_singleton, or_iff_left (hf key raw)]
  -- a key with the new id was not issued before
  have hnew : ∀ k raw', .issued k raw' ∈ w.facts → k.id ≠ key.id := by
    intro k raw' hk hid
    obtain ⟨⟨r, hr, hsame⟩, -⟩ := h.issued k raw' hk
    exact hfresh r hr (hsame.id.trans hid)
  constructor
  · intro r hr
    rcases (hmem r).mp hr with hr | rfl
    · obtain ⟨k, raw', hk, hsame⟩ := h.rows r hr
      exact ⟨k, raw', (hfact k raw').mpr (.inl hk), hsame⟩
    · exact ⟨r, raw, (hfact r raw).mpr (.inr ⟨rfl, rfl⟩), .refl r⟩
  · intro k raw' hk
    rcases (hfact k raw').mp hk with hk | ⟨rfl, rfl⟩
    · obtain ⟨⟨r, hr, hsame⟩, hrawOf⟩ := h.issued k raw' hk
      exact ⟨⟨r, (hmem r).mpr (.inl hr), hsame⟩, hrawOf⟩
    · refine ⟨⟨k, (hmem k).mpr (.inr rfl), .refl k⟩, draw, ?_, ?_, hraw⟩ <;> rw [hkey]
  · intro k₁ raw₁ k₂ raw₂ h₁ h₂ hid
    rcases (hfact k₁ raw₁).mp h₁ with old₁ | ⟨rfl, rfl⟩ <;>
      rcases (hfact k₂ raw₂).mp h₂ with old₂ | ⟨rfl, rfl⟩
    · exact h.issued_once k₁ raw₁ k₂ raw₂ old₁ old₂ hid
    · exact absurd hid (hnew k₁ raw₁ old₁)
    · exact absurd hid.symm (hnew k₂ raw₂ old₂)
    · exact ⟨rfl, rfl⟩
  · intro r hr s hs heq
    rcases (hmem r).mp hr with oldr | rfl <;> rcases (hmem s).mp hs with olds | rfl
    · exact h.prefix_unique r oldr s olds heq
    · exact absurd heq (hkeyPrefix r oldr)
    · exact absurd heq.symm (hkeyPrefix s olds)
    · rfl
  · intro r hr
    rcases (hmem r).mp hr with hr | rfl
    · exact h.owner r hr
    · exact howner
  · intro r hr
    rw [hother _ (by simp)]
    rcases (hmem r).mp hr with hr | rfl
    · exact h.revoked r hr
    · refine iff_of_true (by rw [hkey]) fun hrevoked => ?_
      obtain ⟨s, hs, hid⟩ := h.revoked_known _ hrevoked
      exact hfresh s hs hid
  · intro i hi
    obtain ⟨r, hr, hid⟩ := h.revoked_known i ((hother _ (by simp)).mp hi)
    exact ⟨r, (hmem r).mpr (.inl hr), hid⟩
  · intro u hu
    rw [hother _ (by simp)]
    exact h.active u hu
  · intro i hi
    exact h.deactivated_known i ((hother _ (by simp)).mp hi)

/-! ## Every event -/

theorem KeysRecorded.revoke (h : KeysRecorded digest w) (which : ApiKey → Bool) :
    KeysRecorded digest
      { w with db := revokeWhere which w.now w.db, facts := w.facts ++ revocations which w.db } := by
  have hnew : ∀ i, .revoked i ∈ revocations which w.db ↔
      ∃ r ∈ w.db.apiKeys, (which r = true ∧ r.revokedAt = none) ∧ r.id = i := by
    intro i
    simp only [revocations, List.mem_map, List.mem_filter, Bool.and_eq_true, Option.isNone_iff_eq_none,
      KeyFact.revoked.injEq, Table.mem_rows, and_assoc]
  have hkind : ∀ f ∈ revocations which w.db, ∃ i, f = .revoked i := by
    intro f hf
    obtain ⟨r, -, rfl⟩ := List.mem_map.mp hf
    exact ⟨r.id, rfl⟩
  refine h.rewrite (g := id) rfl (List.map_id _).symm rfl ?_ (fun _ => rfl) ?_ ?_ ?_ ?_ ?_
  · intro r
    split <;> exact ⟨rfl, rfl, rfl, rfl, rfl, rfl⟩
  · intro k raw hmem
    obtain ⟨i, hi⟩ := hkind _ hmem
    cases hi
  · intro r hr
    rw [hnew]
    by_cases hhit : which r = true ∧ r.revokedAt = none
    · rw [if_pos (by simpa using hhit)]
      refine iff_of_false (Option.some_ne_none _) fun hnot => hnot.2 ⟨r, hr, hhit, rfl⟩
    · rw [if_neg (by simpa using hhit)]
      refine (and_iff_left ?_).symm
      rintro ⟨s, hs, hhit', hid⟩
      exact hhit (Table.eq_of_key_eq hs hr hid ▸ hhit')
  · intro i hi
    obtain ⟨r, hr, -, hid⟩ := (hnew i).mp hi
    exact ⟨r, hr, hid⟩
  · intro u _
    refine (and_iff_left fun hmem => ?_).symm
    obtain ⟨i, hi⟩ := hkind _ hmem
    cases hi
  · intro i hmem
    obtain ⟨j, hj⟩ := hkind _ hmem
    cases hj

theorem KeysRecorded.deactivate (h : KeysRecorded digest w) (user : Uuid) :
    KeysRecorded digest
      { w with db := deactivateUser user w.db, facts := w.facts ++ deactivations user w.db } := by
  have hnew : ∀ f, f ∈ deactivations user w.db ↔ ∃ u ∈ w.db.users, u.id = user ∧
      f = .deactivated u.id := by
    intro f
    rw [deactivations, List.mem_map]
    constructor
    · rintro ⟨u, hu, rfl⟩
      obtain ⟨hmem, hid⟩ := Table.get?_eq_some.mp (Option.mem_toList.mp hu)
      exact ⟨u, hmem, hid, rfl⟩
    · rintro ⟨u, hmem, hid, rfl⟩
      exact ⟨u, Option.mem_toList.mpr (Table.get?_eq_some.mpr ⟨hmem, hid⟩), rfl⟩
  refine h.rewrite (f := id) (List.map_id _).symm rfl rfl .refl (fun u => ?_) ?_ ?_ ?_ ?_ ?_
  · split <;> rfl
  · intro k raw hmem
    obtain ⟨u, -, -, hf⟩ := (hnew _).mp hmem
    cases hf
  · intro r _
    refine (and_iff_left fun hmem => ?_).symm
    obtain ⟨u, -, -, hf⟩ := (hnew _).mp hmem
    cases hf
  · intro i hmem
    obtain ⟨u, -, -, hf⟩ := (hnew _).mp hmem
    cases hf
  · intro u hu
    by_cases huser : u.id = user
    · rw [if_pos (decide_eq_true huser)]
      exact iff_of_false Bool.false_ne_true fun hnot => hnot.2 ((hnew _).mpr ⟨u, hu, huser, rfl⟩)
    · rw [if_neg (by simpa using huser)]
      refine (and_iff_left fun hmem => ?_).symm
      obtain ⟨v, -, hv, hf⟩ := (hnew _).mp hmem
      exact huser ((KeyFact.deactivated.inj hf).trans hv)
  · intro i hmem
    obtain ⟨u, hu, -, hf⟩ := (hnew _).mp hmem
    exact ⟨u, hu, (KeyFact.deactivated.inj hf).symm⟩

/-- The use of a key changes nothing that matters. -/
theorem KeysRecorded.recordUse (h : KeysRecorded digest w) (key : ApiKey) :
    KeysRecorded digest { w with db := recordUse w.now w.db key } := by
  unfold FundLedger.recordUse
  split
  · refine h.rewrite (g := id) rfl (List.map_id _).symm (List.append_nil _).symm ?_ (fun _ => rfl)
      (by simp) (fun r _ => ?_) (by simp) (by simp) (by simp)
    · intro r
      split <;> exact ⟨rfl, rfl, rfl, rfl, rfl, rfl⟩
    · rw [and_iff_left (List.not_mem_nil)]
      split <;> rfl
  · exact h

/-- **One event.** -/
theorem KeysRecorded.step (h : KeysRecorded digest w) (e : KeyEvent) :
    KeysRecorded digest (w.step digest e) := by
  cases e with
  | join user =>
    rw [KeyWorld.step]
    cases hins : insertUser w.db { id := user } with
    | error e => exact h
    | ok db => exact h.join hins
  | issue draw user name expiresAt =>
    rw [KeyWorld.step]
    rcases hrun : issueKey digest draw user name expiresAt w.db with ⟨e | ⟨key, raw⟩, db⟩
    · have hsame : db = w.db := issueKey_failSafe digest draw user name expiresAt w.db e db hrun
      exact hsame ▸ h
    · exact h.issue hrun
  | revokeApiKey keyPrefix => exact h.revoke _
  | revokeNamed user name => exact h.revoke _
  | deactivate user => exact h.deactivate user
  | request header =>
    rw [KeyWorld.step]
    split
    · exact h.recordUse _
    · exact h
  | wait span => exact { h with }

theorem KeysRecorded.run (h : KeysRecorded digest w) (events : List KeyEvent) :
    KeysRecorded digest (w.run digest events) := by
  induction events generalizing w with
  | nil => exact h
  | cons e events ih => exact ih (h.step e)

/-! ## Verifying -/

theorem KeysRecorded.keyByPrefix (h : KeysRecorded digest w) {r : ApiKey} (hr : r ∈ w.db.apiKeys) :
    keyByPrefix w.db r.keyPrefix = some r := by
  cases hfound : FundLedger.keyByPrefix w.db r.keyPrefix with
  | none => exact absurd (decide_eq_true rfl) (List.find?_eq_none.mp hfound r hr)
  | some s =>
    obtain ⟨hs, hkeyPrefix⟩ := keyByPrefix_eq_some hfound
    rw [h.prefix_unique s hs r hr hkeyPrefix]

theorem KeysRecorded.userIsActive (h : KeysRecorded digest w) {r : ApiKey}
    (hr : r ∈ w.db.apiKeys) : userIsActive w.db r = true ↔ .deactivated r.user ∉ w.facts := by
  obtain ⟨u, hu, hid⟩ := h.owner r hr
  rw [← hid, ← h.active u hu, FundLedger.userIsActive, ← hid, Table.get?_of_mem hu]
  rfl

/-- The key was issued as `raw`, and nothing speaks against it at `t`. -/
structure LiveKey (facts : List KeyFact) (t : Timestamp) (raw : String) (k : ApiKey) : Prop where
  issued : .issued k raw ∈ facts
  not_revoked : .revoked k.id ∉ facts
  not_expired : ∀ x ∈ k.expiresAt, t < x
  active : .deactivated k.user ∉ facts

theorem KeysRecorded.verify (h : KeysRecorded digest w) (hd : Function.Injective digest)
    {t : Timestamp} {raw : String} {r : ApiKey} : verifyKey digest t w.db raw = some r ↔
      r ∈ w.db.apiKeys ∧ ∃ k, LiveKey w.facts t raw k ∧ SameKey k r := by
  rw [verifyKey_eq_some]
  constructor
  · rintro ⟨hfound, ⟨secret, hraw, -, -, -, hhash⟩, hrevoked, hexpired, hactive⟩
    have hr := (keyByPrefix_eq_some hfound).1
    obtain ⟨k, raw', hk, hsame⟩ := h.rows r hr
    obtain ⟨draw, hkeyPrefix, hdigest, hraw'⟩ := (h.issued k raw' hk).2
    have hsecret : secret = draw.secret := by
      apply hd
      rw [← hhash, hsame.keyHash, hdigest]
    have hsameRaw : raw = raw' := by
      rw [hraw, hraw', hsame.keyPrefix, hkeyPrefix, hsecret]
    refine ⟨hr, k, ⟨hsameRaw ▸ hk, ?_, hsame.expiresAt ▸ hexpired, ?_⟩, hsame⟩
    · rw [← hsame.id]
      exact (h.revoked r hr).mp hrevoked
    · rw [← hsame.user]
      exact (h.userIsActive hr).mp hactive
  · rintro ⟨hr, k, ⟨hissued, hrevoked, hexpired, hactive⟩, hsame⟩
    obtain ⟨draw, hkeyPrefix, hdigest, hraw⟩ := (h.issued k raw hissued).2
    have hdraw : r.keyPrefix = draw.keyPrefix := hsame.keyPrefix.trans hkeyPrefix
    refine ⟨h.keyByPrefix hr, ⟨draw.secret, hdraw ▸ hraw, hdraw ▸ draw.dot_not_mem,
      hdraw ▸ draw.keyPrefix_ne, draw.urlSafe.1, hsame.keyHash.trans hdigest⟩, ?_,
      hsame.expiresAt ▸ hexpired, ?_⟩
    · rw [h.revoked r hr, hsame.id]
      exact hrevoked
    · rw [h.userIsActive hr, hsame.user]
      exact hactive

/-- A raw key was shown for one key only. -/
theorem KeysRecorded.issued_raw (h : KeysRecorded digest w) {k k' : ApiKey} {raw : String}
    (hk : .issued k raw ∈ w.facts) (hk' : .issued k' raw ∈ w.facts) : k = k' := by
  obtain ⟨⟨r, hr, hsame⟩, draw, hkeyPrefix, -, hraw⟩ := h.issued k raw hk
  obtain ⟨⟨r', hr', hsame'⟩, draw', hkeyPrefix', -, hraw'⟩ := h.issued k' raw hk'
  obtain ⟨heq, -⟩ := rawKey_inj draw.dot_not_mem draw'.dot_not_mem (hraw.symm.trans hraw')
  have hrows : r = r' := by
    apply h.prefix_unique r hr r' hr'
    rw [hsame.keyPrefix, hsame'.keyPrefix, hkeyPrefix, hkeyPrefix', heq]
  exact (h.issued_once k raw k' raw hk hk' (by rw [← hsame.id, ← hsame'.id, hrows])).1

/-- The answer for a raw key, by the history of the key. -/
theorem KeysRecorded.answer (h : KeysRecorded digest w) (hd : Function.Injective digest)
    {t : Timestamp} {raw : String} {k : ApiKey} (hk : .issued k raw ∈ w.facts) (i : Uuid) :
    (verifyKey digest t w.db raw).map ApiKey.id = some i ↔ LiveKey w.facts t raw k ∧ k.id = i := by
  rw [Option.map_eq_some_iff]
  constructor
  · rintro ⟨r, hr, rfl⟩
    obtain ⟨-, k', hlive, hsame⟩ := (h.verify hd).mp hr
    obtain rfl := h.issued_raw hk hlive.issued
    exact ⟨hlive, hsame.id.symm⟩
  · rintro ⟨hlive, rfl⟩
    obtain ⟨⟨r, hr, hsame⟩, -⟩ := h.issued k raw hk
    exact ⟨r, (h.verify hd).mpr ⟨hr, k, hlive, hsame⟩, hsame.id⟩

/-! ## What an event does not touch -/

/-- The event takes the key, or its user, out of use. -/
def KeyEvent.Concerns : KeyEvent → ApiKey → Prop
  | .revokeApiKey keyPrefix, k => k.keyPrefix = keyPrefix
  | .revokeNamed user name, k => k.user = user ∧ k.name = name
  | .deactivate user, k => k.user = user
  | _, _ => False

theorem KeysRecorded.not_revoked (h : KeysRecorded digest w) {which : ApiKey → Bool} {k : ApiKey}
    {raw : String} (hk : .issued k raw ∈ w.facts)
    (hwhich : ∀ r, SameKey k r → which r = false) : .revoked k.id ∉ revocations which w.db := by
  intro hmem
  obtain ⟨r, hr, hid⟩ := List.mem_map.mp hmem
  obtain ⟨hrow, hhit⟩ := List.mem_filter.mp hr
  obtain ⟨⟨s, hs, hsame⟩, -⟩ := h.issued k raw hk
  obtain rfl : r = s :=
    Table.eq_of_key_eq hrow hs ((KeyFact.revoked.inj hid).trans hsame.id.symm)
  rw [hwhich r hsame] at hhit
  cases hhit

/-- An event adds to the facts, and nothing against a key it does not concern. -/
theorem KeysRecorded.step_facts (h : KeysRecorded digest w) {e : KeyEvent} {k : ApiKey}
    {raw : String} (hk : .issued k raw ∈ w.facts) (he : ¬e.Concerns k) :
    ∃ new, (w.step digest e).facts = w.facts ++ new ∧ .revoked k.id ∉ new ∧
      .deactivated k.user ∉ new := by
  have hnone : w.facts = w.facts ++ [] := (List.append_nil _).symm
  cases e with
  | join user =>
    refine ⟨[], ?_, List.not_mem_nil, List.not_mem_nil⟩
    rw [KeyWorld.step]
    cases insertUser w.db { id := user } <;> exact hnone
  | issue draw user name expiresAt =>
    rw [KeyWorld.step]
    rcases issueKey digest draw user name expiresAt w.db with ⟨e | ⟨key, raw'⟩, db⟩
    · exact ⟨[], hnone, List.not_mem_nil, List.not_mem_nil⟩
    · exact ⟨[.issued key raw'], rfl, by simp, by simp⟩
  | revokeApiKey keyPrefix =>
    refine ⟨_, rfl, h.not_revoked hk fun r hsame => ?_, by simp [revocations]⟩
    exact decide_eq_false fun hr => he (hsame.keyPrefix.symm.trans hr)
  | revokeNamed user name =>
    refine ⟨_, rfl, h.not_revoked hk fun r hsame => ?_, by simp [revocations]⟩
    exact decide_eq_false fun hr => he ⟨hsame.user.symm.trans hr.1, hsame.name.symm.trans hr.2⟩
  | deactivate user =>
    refine ⟨_, rfl, by simp [deactivations], fun hmem => ?_⟩
    obtain ⟨u, hu, hid⟩ := List.mem_map.mp hmem
    obtain ⟨-, huser⟩ := Table.get?_eq_some.mp (Option.mem_toList.mp hu)
    exact he ((KeyFact.deactivated.inj hid).symm.trans huser)
  | request header =>
    refine ⟨[], ?_, List.not_mem_nil, List.not_mem_nil⟩
    rw [KeyWorld.step]
    split <;> exact hnone
  | wait span => exact ⟨[], hnone, List.not_mem_nil, List.not_mem_nil⟩

theorem LiveKey.congr {facts new : List KeyFact} {t : Timestamp} {raw : String} {k : ApiKey}
    (hk : .issued k raw ∈ facts) (hr : .revoked k.id ∉ new) (ha : .deactivated k.user ∉ new) :
    LiveKey (facts ++ new) t raw k ↔ LiveKey facts t raw k := by
  constructor
  · intro h
    refine ⟨hk, fun hmem => ?_, h.not_expired, fun hmem => ?_⟩
    · exact h.not_revoked (List.mem_append_left _ hmem)
    · exact h.active (List.mem_append_left _ hmem)
  · intro h
    refine ⟨List.mem_append_left _ hk, ?_, h.not_expired, ?_⟩
    · rw [List.mem_append, not_or]
      exact ⟨h.not_revoked, hr⟩
    · rw [List.mem_append, not_or]
      exact ⟨h.active, ha⟩

/-- What happens to one key never changes the answer for another. -/
theorem KeysRecorded.step_answer (h : KeysRecorded digest w) (hd : Function.Injective digest)
    {e : KeyEvent} {k : ApiKey} {raw : String} (hk : .issued k raw ∈ w.facts)
    (he : ¬e.Concerns k) (t : Timestamp) :
    (verifyKey digest t (w.step digest e).db raw).map ApiKey.id =
      (verifyKey digest t w.db raw).map ApiKey.id := by
  obtain ⟨new, hfacts, hr, ha⟩ := h.step_facts hk he
  have hk' : .issued k raw ∈ (w.step digest e).facts := hfacts ▸ List.mem_append_left _ hk
  apply Option.ext
  intro i
  rw [(h.step e).answer hd hk', h.answer hd hk, hfacts, LiveKey.congr hk hr ha]

theorem KeyWorld.facts_subset (digest : String → String) (events : List KeyEvent) :
    ∀ w : KeyWorld, w.facts ⊆ (w.run digest events).facts := by
  induction events with
  | nil => exact fun w => List.Subset.refl _
  | cons e events ih =>
    intro w
    refine List.Subset.trans ?_ (ih (w.step digest e))
    cases e with
    | join user =>
      rw [KeyWorld.step]
      cases insertUser w.db { id := user } <;> exact List.Subset.refl _
    | issue draw user name expiresAt =>
      rw [KeyWorld.step]
      rcases issueKey digest draw user name expiresAt w.db with ⟨e | ⟨key, raw⟩, db⟩
      · exact List.Subset.refl _
      · exact List.subset_append_left _ _
    | revokeApiKey keyPrefix => exact List.subset_append_left _ _
    | revokeNamed user name => exact List.subset_append_left _ _
    | deactivate user => exact List.subset_append_left _ _
    | request header =>
      rw [KeyWorld.step]
      split <;> exact List.Subset.refl _
    | wait span => exact List.Subset.refl _

end

/-- **API keys authenticate exactly their holder.**  After any sequence of
events, at any time: a row is the answer for a raw key if and only if the key
was issued with exactly this raw key, has not been revoked, has not expired, and
its user is active.  No two raw keys are ever accepted for the same key; an
event that does not concern a key leaves the answer for it as it was; and so
does the passing of time, as long as the key does not expire. -/
theorem verify_key_iff {digest : String → String} (hd : Function.Injective digest)
    (events : List KeyEvent) {w : KeyWorld} (hw : w = KeyWorld.empty.run digest events) :
    (∀ t raw r, verifyKey digest t w.db raw = some r ↔
      r ∈ w.db.apiKeys ∧ ∃ k, LiveKey w.facts t raw k ∧ SameKey k r) ∧
    (∀ more t t' raw raw' r r', verifyKey digest t w.db raw = some r →
      verifyKey digest t' (w.run digest more).db raw' = some r' → r.id = r'.id → raw = raw') ∧
    (∀ e k raw, .issued k raw ∈ w.facts → ¬e.Concerns k → ∀ t,
      (verifyKey digest t (w.step digest e).db raw).map ApiKey.id =
        (verifyKey digest t w.db raw).map ApiKey.id) ∧
    ∀ t t' k raw, .issued k raw ∈ w.facts → (∀ x ∈ k.expiresAt, t < x ↔ t' < x) →
      (verifyKey digest t w.db raw).map ApiKey.id = (verifyKey digest t' w.db raw).map ApiKey.id := by
  have h : KeysRecorded digest w := hw ▸ (keysRecorded_empty digest).run events
  refine ⟨fun t raw r => h.verify hd, ?_, fun e k raw hk he t => h.step_answer hd hk he t, ?_⟩
  · intro more t t' raw raw' r r' hr hr' hid
    have hmore := h.run more
    obtain ⟨-, k, hlive, hsame⟩ := (h.verify hd).mp hr
    obtain ⟨-, k', hlive', hsame'⟩ := (hmore.verify hd).mp hr'
    have hissued := KeyWorld.facts_subset digest more w hlive.issued
    refine (hmore.issued_once k raw k' raw' hissued hlive'.issued ?_).2
    rw [← hsame.id, ← hsame'.id, hid]
  · intro t t' k raw hk hexpires
    apply Option.ext
    intro i
    rw [h.answer hd hk, h.answer hd hk]
    constructor
    · rintro ⟨hlive, hid⟩
      exact ⟨⟨hk, hlive.not_revoked, fun x hx => (hexpires x hx).mp (hlive.not_expired x hx),
        hlive.active⟩, hid⟩
    · rintro ⟨hlive, hid⟩
      exact ⟨⟨hk, hlive.not_revoked, fun x hx => (hexpires x hx).mpr (hlive.not_expired x hx),
        hlive.active⟩, hid⟩

/-- A digest that is right for one secret. -/
def sampleDigest (secret : String) : String :=
  if secret = "s3cret" then "1ec1c26b50d5d3c58d9583181af8076655fe00756bf7285940ba3670f99fcba0"
  else "x" ++ secret

theorem sampleDigest_injective : Function.Injective sampleDigest := by
  have hne : ∀ s : String, "1ec1c26b50d5d3c58d9583181af8076655fe00756bf7285940ba3670f99fcba0" ≠ "x" ++ s := by
    intro s h
    have hhead := congrArg (fun t : String => t.toList.head?) h
    simp [String.toList_append] at hhead
  intro a b h
  unfold sampleDigest at h
  split_ifs at h with ha hb hb
  · rw [ha, hb]
  · exact absurd h (hne b)
  · exact absurd h.symm (hne a)
  · exact String.append_right_inj _ |>.mp h

def laptopDraw : KeyDraw where
  id := 7
  keyPrefix := "0123456789ab"
  secret := "s3cret"
  hex := by decide
  urlSafe := by decide

/-- A user with a key for its laptop, which is used and then revoked again under
another prefix. -/
def laptopEvents : List KeyEvent := [
  .join 1,
  .issue laptopDraw 1 "laptop" (some 100),
  .wait 5,
  .revokeApiKey "ba9876543210"]

theorem verify_key_iff_laptop : ∃ r,
    verifyKey sampleDigest 5 (KeyWorld.empty.run sampleDigest laptopEvents).db
      "fl_0123456789ab.s3cret" = some r ∧ r.name = "laptop" := by
  obtain ⟨hverify, -⟩ := verify_key_iff sampleDigest_injective laptopEvents
    (Eq.refl (KeyWorld.empty.run sampleDigest laptopEvents))
  have hfacts : (KeyWorld.empty.run sampleDigest laptopEvents).facts = [.issued
      { id := 7, user := 1, name := "laptop", keyPrefix := "0123456789ab"
        keyHash := sampleDigest "s3cret", expiresAt := some 100 } "fl_0123456789ab.s3cret"] := by
    decide +kernel
  have hrows : (KeyWorld.empty.run sampleDigest laptopEvents).db.apiKeys.rows = [
      { id := 7, user := 1, name := "laptop", keyPrefix := "0123456789ab"
        keyHash := sampleDigest "s3cret", expiresAt := some 100 }] := by
    decide +kernel
  generalize KeyWorld.empty.run sampleDigest laptopEvents = w at hverify hfacts hrows ⊢
  refine ⟨_, (hverify 5 _ _).mpr ⟨Table.mem_rows.mp (hrows ▸ List.mem_singleton_self _), _,
    ⟨hfacts ▸ List.mem_singleton_self _, ?_, ?_, ?_⟩, .refl _⟩, rfl⟩
  · rw [hfacts]
    simp
  · rintro x ⟨⟩
    decide
  · rw [hfacts]
    simp

end FundLedger
