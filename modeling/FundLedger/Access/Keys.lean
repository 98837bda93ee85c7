import FundLedger.Lib.Checks
import FundLedger.Lib.Text
import FundLedger.Lib.Tx
import FundLedger.Ledger.Errors

/-!
# API keys

`access/models.py`, `access/keys.py` and `access/authentication.py`: the rows of
users and keys, issuing a key, verifying one, and the authentication of a
request.  The digest of a secret is a parameter.

A random draw carries what the source's generators promise: `token_hex(6)` is
twelve hexadecimal digits, and `token_urlsafe(32)` is not empty and has no dot
in it.
-/

namespace FundLedger

open Lib

structure User where
  id : Uuid
  isActive : Bool := true
  deriving DecidableEq

/-- A hashed API key.  The raw key is shown once at creation and never
stored. -/
structure ApiKey where
  id : Uuid
  user : Uuid
  name : String
  keyPrefix : String
  keyHash : String
  expiresAt : Option Timestamp
  revokedAt : Option Timestamp := none
  lastUsedAt : Option Timestamp := none
  deriving DecidableEq

structure AccessDb where
  users : Table User User.id
  apiKeys : Table ApiKey ApiKey.id

/-- `KEY_PREFIX`. -/
def keyScheme : String := "fl_"

/-- `TOUCH_INTERVAL`, in microseconds. -/
def touchInterval : ℕ := 60000000

/-- A lower-case hexadecimal digit. -/
def isHexDigit (c : Char) : Bool := ('0' ≤ c && c ≤ '9') || ('a' ≤ c && c ≤ 'f')

/-- The alphabet of url-safe base64. -/
def isUrlSafe (c : Char) : Bool :=
  ('A' ≤ c && c ≤ 'Z') || ('a' ≤ c && c ≤ 'z') || ('0' ≤ c && c ≤ '9') || c = '-' || c = '_'

/-- `^[0-9a-f]{64}$`. -/
def isSha256 (hash : String) : Bool := hash.length = 64 && hash.toList.all isHexDigit

/-- The random parts of a new key: a public lookup handle and a secret. -/
structure KeyDraw where
  id : Uuid
  keyPrefix : String
  secret : String
  hex : keyPrefix.length = 12 ∧ keyPrefix.toList.all isHexDigit
  urlSafe : secret ≠ "" ∧ secret.toList.all isUrlSafe

/-- `fl_<prefix>.<secret>`. -/
def rawKey (keyPrefix secret : String) : String := keyScheme ++ keyPrefix ++ "." ++ secret

def insertUser (db : AccessDb) (u : User) : Except Exc AccessDb := do
  let users ← orRaise (db.users.insert u) (.integrity "auth_user_pkey")
  return { db with users }

def insertApiKey (db : AccessDb) (k : ApiKey) : Except Exc AccessDb := do
  require (k.name.length ≤ 100 ∧ k.keyPrefix.length ≤ 12 ∧ k.keyHash.length ≤ 64) .data
  require (isSha256 k.keyHash) (.integrity "apikey_hash_is_sha256")
  let apiKeys ← orRaise (db.apiKeys.insert k) (.integrity "access_apikey_pkey")
  require (∀ o ∈ db.apiKeys.rows, o.keyPrefix ≠ k.keyPrefix) (.integrity "apikey_prefix_unique")
  require (∃ u ∈ db.users.rows, u.id = k.user) (.integrity "access_apikey_user_id_fk")
  return { db with apiKeys }

section

variable (digest : String → String)

/-- Create a key.  The raw key cannot be recovered later. -/
def issueKey (draw : KeyDraw) (user : Uuid) (name : String) (expiresAt : Option Timestamp) :
    Tx AccessDb Exc (ApiKey × String) := do
  let apiKey : ApiKey := {
    id := draw.id
    user
    name
    keyPrefix := draw.keyPrefix
    keyHash := digest draw.secret
    expiresAt }
  Tx.statement fun db => insertApiKey db apiKey
  return (apiKey, rawKey draw.keyPrefix draw.secret)

/-- `api_key.user.is_active`. -/
def userIsActive (db : AccessDb) (k : ApiKey) : Bool := (db.users.get? k.user).any User.isActive

/-- `ApiKey.objects.filter(prefix=prefix).first()`. -/
def keyByPrefix (db : AccessDb) (keyPrefix : String) : Option ApiKey :=
  db.apiKeys.rows.find? fun k => k.keyPrefix = keyPrefix

/-- The matching, live key for `raw`.  Never says why a key was rejected. -/
def verifyKey (now : Timestamp) (db : AccessDb) (raw : String) : Option ApiKey :=
  match removePrefix? keyScheme raw with
  | none => none
  | some rest =>
    let (keyPrefix, dot, secret) := partition '.' rest
    if ¬(dot ∧ keyPrefix ≠ "" ∧ secret ≠ "") then none
    else match keyByPrefix db keyPrefix with
      | none => none
      | some apiKey =>
        if apiKey.keyHash ≠ digest secret then none
        else if apiKey.revokedAt.isSome then none
        else if apiKey.expiresAt.any (· ≤ now) then none
        else if ¬userIsActive db apiKey then none
        else some apiKey

/-- Update `last_used_at` at most once a minute. -/
def recordUse (now : Timestamp) (db : AccessDb) (apiKey : ApiKey) : AccessDb :=
  if apiKey.lastUsedAt.all fun last => touchInterval < now - last then
    { db with
      apiKeys := db.apiKeys.update (fun k => k.id = apiKey.id)
        (fun k => { k with lastUsedAt := some now }) fun _ => rfl }
  else db

/-! ## Requests -/

/-- ASCII whitespace. -/
def isSpace (b : UInt8) : Bool := b ∈ [32, 9, 10, 11, 12, 13]

/-- `bytes.split()`. -/
def splitWords (header : List UInt8) : List (List UInt8) :=
  (header.splitOnP isSpace).filter fun word => word ≠ []

/-- `bytes.lower()`. -/
def lowerAscii (word : List UInt8) : List UInt8 :=
  word.map fun b => if 65 ≤ b ∧ b ≤ 90 then b + 32 else b

/-- `bytes.decode("ascii")`. -/
def decodeAscii (word : List UInt8) : Option String :=
  if word.all (· < 128) then some (String.ofList (word.map fun b => Char.ofNat b.toNat)) else none

/-- `b"bearer"`. -/
def bearer : List UInt8 := [98, 101, 97, 114, 101, 114]

/-- `Authorization: Bearer fl_<prefix>.<secret>`.  Without an answer the request
stays anonymous, and an error is the detail of an `AuthenticationFailed`. -/
def authenticate (now : Timestamp) (db : AccessDb) (header : List UInt8) :
    Except String (Option ApiKey) :=
  match splitWords header with
  | [] => .ok none
  | scheme :: parts =>
    if lowerAscii scheme ≠ bearer then .ok none
    else match parts with
      | [word] => match decodeAscii word with
        | none => .error "Malformed API key."
        | some raw => match verifyKey digest now db raw with
          | none => .error "Invalid, expired or revoked API key."
          | some apiKey => .ok (some apiKey)
      | _ => .error "Malformed Authorization header."

end

/-! ## Taking a key out of use -/

/-- `ApiKey.objects.filter(..., revoked_at__isnull=True).update(revoked_at=now)`. -/
def revokeWhere (which : ApiKey → Bool) (now : Timestamp) (db : AccessDb) : AccessDb :=
  { db with
    apiKeys := db.apiKeys.update (fun k => which k && k.revokedAt.isNone)
      (fun k => { k with revokedAt := some now }) fun _ => rfl }

/-- The command `revoke_api_key`. -/
def revokeApiKey (keyPrefix : String) : Timestamp → AccessDb → AccessDb :=
  revokeWhere fun k => k.keyPrefix = keyPrefix

/-- The command `demo_access` replaces the keys it issued before. -/
def revokeNamed (user : Uuid) (name : String) : Timestamp → AccessDb → AccessDb :=
  revokeWhere fun k => k.user = user ∧ k.name = name

/-- `user.is_active = False`. -/
def deactivateUser (user : Uuid) (db : AccessDb) : AccessDb :=
  { db with
    users := db.users.update (fun u => u.id = user) (fun u => { u with isActive := false })
      fun _ => rfl }

/-! ## What issuing and verifying do -/

theorem insertApiKey_ok {db db' : AccessDb} {k : ApiKey} (h : insertApiKey db k = .ok db') :
    (∀ o ∈ db.apiKeys, o.keyPrefix ≠ k.keyPrefix) ∧ (∃ u ∈ db.users, u.id = k.user) ∧
    ∃ apiKeys, db.apiKeys.insert k = some apiKeys ∧ db' = { db with apiKeys } := by
  simp only [insertApiKey, except_bind_ok, require_eq_ok, orRaise_eq_ok, except_pure] at h
  obtain ⟨_, _, _, _, apiKeys, hins, _, hunique, _, huser, rfl⟩ := h
  exact ⟨hunique, huser, apiKeys, hins, rfl⟩

theorem issueKey_ok {digest : String → String} {draw : KeyDraw} {user : Uuid} {name : String}
    {expiresAt : Option Timestamp} {db db' : AccessDb} {k : ApiKey} {raw : String}
    (h : issueKey digest draw user name expiresAt db = (.ok (k, raw), db')) :
    k = { id := draw.id, user, name, keyPrefix := draw.keyPrefix, keyHash := digest draw.secret
          expiresAt } ∧
    raw = rawKey draw.keyPrefix draw.secret ∧ insertApiKey db k = .ok db' := by
  obtain ⟨_, db₁, hins, hret⟩ := Tx.bind_ok.mp h
  obtain ⟨hok, rfl⟩ := Tx.pure_eq.mp hret
  cases hok
  exact ⟨rfl, rfl, Tx.statement_ok.mp hins⟩

theorem issueKey_failSafe (digest : String → String) (draw : KeyDraw) (user : Uuid)
    (name : String) (expiresAt : Option Timestamp) :
    Tx.FailSafe (issueKey digest draw user name expiresAt) := by
  intro db e db' h
  rcases Tx.bind_error.mp h with hins | ⟨_, db₁, -, hret⟩
  · exact (Tx.statement_error.mp hins).2
  · cases (Tx.pure_eq.mp hret).1

/-- A prefix of hexadecimal digits contains no dot. -/
theorem KeyDraw.dot_not_mem (draw : KeyDraw) : '.' ∉ draw.keyPrefix.toList := by
  intro hdot
  have hhex := List.all_eq_true.mp draw.hex.2 '.' hdot
  exact absurd hhex (by decide)

theorem KeyDraw.keyPrefix_ne (draw : KeyDraw) : draw.keyPrefix ≠ "" := by
  intro hempty
  have hlen := draw.hex.1
  rw [hempty] at hlen
  exact absurd hlen (by decide)

theorem keyByPrefix_eq_some {db : AccessDb} {keyPrefix : String} {k : ApiKey}
    (h : keyByPrefix db keyPrefix = some k) : k ∈ db.apiKeys ∧ k.keyPrefix = keyPrefix := by
  have hcheck := List.find?_some h
  exact ⟨List.mem_of_find?_eq_some h, of_decide_eq_true hcheck⟩

/-- What `verifyKey` looks up and checks. -/
structure Verified (digest : String → String) (now : Timestamp) (db : AccessDb) (raw : String)
    (k : ApiKey) : Prop where
  found : keyByPrefix db k.keyPrefix = some k
  split : ∃ secret, raw = rawKey k.keyPrefix secret ∧ '.' ∉ k.keyPrefix.toList ∧
    k.keyPrefix ≠ "" ∧ secret ≠ "" ∧ k.keyHash = digest secret
  not_revoked : k.revokedAt = none
  not_expired : ∀ x ∈ k.expiresAt, now < x
  active : userIsActive db k

/-- A raw key determines the prefix and the secret in it. -/
theorem rawKey_inj {keyPrefix keyPrefix' secret secret' : String} (hdot : '.' ∉ keyPrefix.toList)
    (hdot' : '.' ∉ keyPrefix'.toList) (h : rawKey keyPrefix secret = rawKey keyPrefix' secret') :
    keyPrefix = keyPrefix' ∧ secret = secret' := by
  have hrest : keyPrefix ++ String.singleton '.' ++ secret =
      keyPrefix' ++ String.singleton '.' ++ secret' := by
    simp only [rawKey, String.append_assoc] at h
    simp only [String.append_assoc]
    exact String.append_right_inj _ |>.mp h
  have hsplit := (partition_eq.mpr ⟨hdot, rfl⟩).symm.trans
    ((congrArg (partition '.') hrest).trans (partition_eq.mpr ⟨hdot', rfl⟩))
  obtain ⟨hkeyPrefix, hparts⟩ := Prod.mk.inj hsplit
  exact ⟨hkeyPrefix, (Prod.mk.inj hparts).2⟩

/-- **The specification of `verifyKey`.** -/
theorem verifyKey_eq_some {digest : String → String} {now : Timestamp} {db : AccessDb}
    {raw : String} {k : ApiKey} :
    verifyKey digest now db raw = some k ↔ Verified digest now db raw k := by
  have hexpired : ∀ k : ApiKey, k.expiresAt.any (· ≤ now) = false ↔ ∀ x ∈ k.expiresAt, now < x := by
    intro k
    cases k.expiresAt <;> simp
  constructor
  · intro h
    unfold verifyKey at h
    cases hrest : removePrefix? keyScheme raw with
    | none => rw [hrest] at h; cases h
    | some rest =>
      rw [hrest] at h
      dsimp only at h
      rcases hpart : partition '.' rest with ⟨keyPrefix, dot, secret⟩
      rw [hpart] at h
      dsimp only at h
      split at h
      · cases h
      rename_i hparts
      rw [not_not] at hparts
      obtain ⟨rfl, hkeyPrefix, hsecret⟩ := hparts
      cases hfound : keyByPrefix db keyPrefix with
      | none => rw [hfound] at h; cases h
      | some found =>
        rw [hfound] at h
        dsimp only at h
        split_ifs at h with hhash hrevoked hexp hact
        cases h
        obtain ⟨-, rfl⟩ := keyByPrefix_eq_some hfound
        obtain ⟨hdot, hsplit⟩ := partition_eq.mp hpart
        refine ⟨hfound, ⟨secret, ?_, hdot, hkeyPrefix, hsecret, not_not.mp hhash⟩, ?_, ?_, ?_⟩
        · rw [removePrefix?_eq_some.mp hrest, hsplit, rawKey]
          simp only [String.append_assoc]
          rfl
        · simpa using hrevoked
        · exact (hexpired k).mp (by simpa using hexp)
        · simpa using hact
  · rintro ⟨hfound, ⟨secret, rfl, hdot, hkeyPrefix, hsecret, hhash⟩, hrevoked, hexp, hact⟩
    have hrest : removePrefix? keyScheme (rawKey k.keyPrefix secret) =
        some (k.keyPrefix ++ String.singleton '.' ++ secret) := by
      rw [removePrefix?_eq_some, rawKey]
      simp only [String.append_assoc]
      rfl
    have hpart : partition '.' (k.keyPrefix ++ String.singleton '.' ++ secret) =
        (k.keyPrefix, true, secret) := partition_eq.mpr ⟨hdot, rfl⟩
    unfold verifyKey
    rw [hrest]
    dsimp only
    rw [hpart]
    dsimp only
    rw [if_neg (by simp [hkeyPrefix, hsecret]), hfound]
    dsimp only
    rw [if_neg (not_not.mpr hhash), hrevoked, (hexpired k).mpr hexp]
    simp [hact]

/-- A request is let in as the holder of a key, with a raw key that verifies,
and in no other way. -/
theorem authenticate_eq_some {digest : String → String} {now : Timestamp} {db : AccessDb}
    {header : List UInt8} {k : ApiKey} : authenticate digest now db header = .ok (some k) ↔
      ∃ scheme word raw, splitWords header = [scheme, word] ∧ lowerAscii scheme = bearer ∧
        decodeAscii word = some raw ∧ verifyKey digest now db raw = some k := by
  constructor
  · intro h
    unfold authenticate at h
    split at h
    · cases h
    rename_i scheme parts hwords
    split at h
    · cases h
    rename_i hscheme
    split at h
    · rename_i word
      split at h
      · cases h
      rename_i raw hraw
      split at h
      · cases h
      rename_i key hkey
      cases h
      exact ⟨scheme, word, raw, hwords, not_not.mp hscheme, hraw, hkey⟩
    · cases h
  · rintro ⟨scheme, word, raw, hwords, hscheme, hraw, hkey⟩
    unfold authenticate
    rw [hwords]
    dsimp only
    rw [if_neg (not_not.mpr hscheme), hraw]
    dsimp only
    rw [hkey]

end FundLedger
