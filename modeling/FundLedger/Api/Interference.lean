import FundLedger.Api.Histories
import FundLedger.Api.Isolation

/-!
# Histories that look the same

Nothing that the outsiders do, and nothing in the rows of their funds, reaches
the insiders.  `noninterference` compares two histories over two databases: as
long as the insiders make the same requests and their funds start with the same
rows, they get the same responses.

Two things are shared by all funds and could carry information: the random ids
and the idempotency keys.  `Clear` excludes both for the requests of the
insiders; `shared_key_tells` shows that the keys do carry it.
-/

namespace FundLedger.Api

open Lib

section

variable {S insider : Uuid → Bool}

/-- Each membership is either an insider's on a fund of `S`, or neither. -/
def Camps (S insider : Uuid → Bool) (db : Db) : Prop :=
  ∀ m ∈ db.memberships, S m.fund = insider m.user

/-- The request comes from an insider. -/
def Incoming.fromInsider (insider : Uuid → Bool) (q : Incoming) : Bool :=
  q.caller.any fun user => insider user.id

/-- What is left of a history when the outsiders are silent. -/
def purge (insider : Uuid → Bool) (history : List Served) : List Served :=
  history.filter fun x => x.2.fromInsider insider

/-- The responses that the insiders get. -/
def responses (insider : Uuid → Bool) (db : Db) : List Served → List Response
  | [] => []
  | (env, q) :: rest =>
    let (response, db') := serve env q db
    if q.fromInsider insider then response :: responses insider db' rest
    else responses insider db' rest

/-- Whenever an insider makes a request, no row of the other funds has an id that
it draws, nor the key that it uses. -/
def Clear (S insider : Uuid → Bool) (db : Db) : List Served → Prop
  | [] => True
  | (env, q) :: rest =>
    (q.fromInsider insider = true → NoneInTheWay S env.toEnv db ∧ q.KeyClear S db) ∧
      Clear S insider (serve env q db).2 rest

/-! ## One request -/

variable {db : Db} {q : Incoming}

theorem Camps.inside (camps : Camps S insider db) (h : q.fromInsider insider = true) :
    Inside S db q.caller := by
  intro user huser m hm hmine
  rw [camps m hm, hmine]
  rw [Incoming.fromInsider, Option.mem_def.mp huser] at h
  exact h

theorem Camps.serve (camps : Camps S insider db) (env : ApiEnv) (q : Incoming) :
    Camps S insider (serve env q db).2 := by
  intro m hm
  rw [(serve_accounted env q db).setUp.memberships] at hm
  exact camps m hm

theorem Separate.serve (sep : Separate db) (env : ApiEnv) (q : Incoming) :
    Separate (serve env q db).2 := by
  obtain hsame | ⟨user, m, role, -, -, -, -, heffect, -⟩ := serve_effect env q db
  · rwa [hsame]
  · exact heffect.separate sep

/-- An outsider can only change rows of the other funds. -/
theorem serve_outsider (env : ApiEnv) (camps : Camps S insider db) (h : q.fromInsider insider = false) :
    (serve env q db).2.within S = db.within S := by
  obtain hsame | ⟨user, m, role, hcaller, hm, hmine, -, heffect, -⟩ := serve_effect env q db
  · rw [hsame]
  · refine heffect.within_eq ?_
    rw [camps m hm, hmine]
    rw [Incoming.fromInsider, hcaller] at h
    exact h

/-! ## Histories -/

/-- **The outsiders might as well be silent**, and their rows not there. -/
theorem purged {history : List Served} (sep : Separate db) (camps : Camps S insider db)
    (clear : Clear S insider db history) :
    responses insider (db.within S) (purge insider history) = responses insider db history ∧
      afterRequests (db.within S) (purge insider history) = (afterRequests db history).within S := by
  induction history generalizing db with
  | nil => exact ⟨rfl, rfl⟩
  | cons x rest ih =>
    obtain ⟨env, q⟩ := x
    obtain ⟨hfirst, hrest⟩ := clear
    obtain ⟨hresponses, hafter⟩ := ih (Separate.serve sep env q) (camps.serve env q) hrest
    cases hq : q.fromInsider insider with
    | true =>
      obtain ⟨hids, hkey⟩ := hfirst hq
      have hserve := serve_within sep hids (camps.inside hq) hkey
      rw [purge, List.filter_cons_of_pos (by exact hq)]
      constructor
      · rw [responses, responses, hserve]
        simp only [hq, if_true]
        exact congrArg _ hresponses
      · rw [afterRequests, afterRequests]
        dsimp only
        rw [hserve]
        exact hafter
    | false =>
      have hserve := serve_outsider env camps hq
      rw [hserve] at hresponses hafter
      rw [purge, List.filter_cons_of_neg (by simp [hq])]
      refine ⟨?_, hafter⟩
      rw [responses]
      simp only [hq]
      exact hresponses

end

/-! ## Two funds -/

/-- Another fund in pounds, with one of the partners and one year. -/
def fundTwo : Fund := { id := 2, name := "Test Fund 2", baseCurrency := "GBP" }

def yearOfTwo : Period :=
  { id := 23, fund := 2, startDate := 1, endDate := 365, status := .OPEN, closedAt := none
    closedBy := "" }

def ada : User := { id := 51, username := "ada", username_fits := by decide }

def bob : User := { id := 52, username := "bob", username_fits := by decide }

/-- Ada works for the first fund and Bob for the second. -/
def twoFundsBare : Db where
  funds := ⟨[makeFund, fundTwo], by decide⟩
  lps := peFundBare.lps
  commitments := ⟨peCommitments ++ [{ id := 33, fund := 2, lp := 11, committedAmount := 6000000 }],
    by decide⟩
  periods := ⟨[h1, h2, yearOfTwo], by decide⟩
  fxRates := peFundBare.fxRates
  accounts := .empty
  transfers := .empty
  entries := .empty
  capitalCalls := .empty
  distributions := .empty
  memberships := ⟨[{ id := 61, user := 51, fund := 1, role := .OPERATOR, lp := none },
    { id := 62, user := 52, fund := 2, role := .OPERATOR, lp := none }], by decide⟩

def twoFunds : Db :=
  (openFundAccounts (envOf 9) fundTwo (openFundAccounts (envOf 0) makeFund twoFundsBare).2).2

def fundOne (fund : Uuid) : Bool := fund = 1

def isAda (user : Uuid) : Bool := user = 51

/-- The environment of a request, with a parser and a paginator that do nothing. -/
def apiEnvOf (n : ℕ) : ApiEnv where
  toEnv := envOf n
  parseDatetime := fun _ => .ok none
  paginate := fun rows _ => .ok ⟨rows, none, none⟩
  textLe := fun a b => a ≤ b

/-- A request for a capital call of 100 under a key. -/
def requestCall (n : ℕ) (user : User) (fund : Uuid) (key : String) : Served :=
  (apiEnvOf n, ⟨some user, none, .fundScoped (.capitalCalls fund (some key) (.ok
    { totalAmount := .ok ⟨10000, by decide, by decide⟩, noticeDate := .ok 32, dueDate := .ok 46 }))⟩)

/-- A request for the reconciliation of the first fund. -/
def requestReport (n : ℕ) : Served :=
  (apiEnvOf n, ⟨some ada, none, .fundScoped (.fundReconciliation 1)⟩)

/-- Bob calls capital for his fund, and Ada for hers. -/
def bothCall : List Served :=
  [requestCall 1 bob 2 "bobs", requestCall 2 ada 1 "adas", requestReport 3]

def adaCalls : List Served := [requestCall 2 ada 1 "adas", requestReport 3]

/-- Rows without transfers are apart. -/
theorem separate_of_bare {db : Db} (ht : db.transfers.rows = []) (he : db.entries.rows = [])
    (hc : db.capitalCalls.rows = []) (hd : db.distributions.rows = []) : Separate db where
  entry _ h := absurd (he ▸ Table.mem_rows.mpr h) List.not_mem_nil
  reversal _ h := absurd (ht ▸ Table.mem_rows.mpr h) List.not_mem_nil
  call _ h := absurd (hc ▸ Table.mem_rows.mpr h) List.not_mem_nil
  distribution _ h := absurd (hd ▸ Table.mem_rows.mpr h) List.not_mem_nil

/-- The ids of a later request are greater than those in use. -/
theorem noneInTheWay_envOf {S : Uuid → Bool} {db : Db} {n : ℕ}
    (ht : ∀ t ∈ db.transfers.rows, 1000 * n ≤ t.id → (transferFund db t).any S = true)
    (he : ∀ e ∈ db.entries.rows, 1000 * n ≤ e.id → (entryFund db e).any S = true)
    (hc : ∀ c ∈ db.capitalCalls.rows, 1000 * n ≤ c.id → S c.fund = true)
    (hd : ∀ d ∈ db.distributions.rows, 1000 * n ≤ d.id → S d.fund = true) :
    NoneInTheWay S (envOf n) db where
  transfer t hmem hid := ht t hmem (hid ▸ Nat.le_add_right _ _)
  entry e hmem i hid := by
    have hdrawn : 1000 * n ≤ 1000 * n + 200 + i := by omega
    exact he e hmem (hid ▸ hdrawn)
  call c hmem hid := hc c hmem (hid ▸ Nat.le_add_right _ _)
  distribution d hmem hid := hd d hmem (hid ▸ Nat.le_add_right _ _)

theorem separate_twoFunds : Separate twoFunds := by
  refine separate_of_bare ?_ ?_ ?_ ?_ <;> decide +kernel

theorem camps_twoFunds : Camps fundOne isAda twoFunds := by
  show ∀ m ∈ twoFunds.memberships.rows, fundOne m.fund = isAda m.user
  decide +kernel

theorem clear_adaCalls {db : Db} (hids : NoneInTheWay fundOne (envOf 2) db)
    (hkeys : ∀ t ∈ db.transfers.rows, t.idempotencyKey = "adas" →
      (transferFund db t).any fundOne = true)
    (hids' : NoneInTheWay fundOne (envOf 3)
      (serve (apiEnvOf 2) (requestCall 2 ada 1 "adas").2 db).2) :
    Clear fundOne isAda db adaCalls := by
  refine ⟨fun _ => ⟨hids, ?_⟩, fun _ => ⟨hids', ?_⟩, trivial⟩
  · rintro r key ⟨⟩ huses
    obtain rfl : "adas" = key := Except.ok.inj huses
    exact hkeys
  · rintro r key ⟨⟩ ⟨⟩

theorem clear_twoFunds_adaCalls : Clear fundOne isAda twoFunds adaCalls := by
  refine clear_adaCalls (noneInTheWay_envOf ?_ ?_ ?_ ?_) ?_ (noneInTheWay_envOf ?_ ?_ ?_ ?_) <;>
    decide +kernel

theorem clear_twoFunds_bothCall : Clear fundOne isAda twoFunds bothCall := by
  have hada : Clear fundOne isAda (serve (apiEnvOf 1) (requestCall 1 bob 2 "bobs").2 twoFunds).2
      adaCalls := by
    refine clear_adaCalls (noneInTheWay_envOf ?_ ?_ ?_ ?_) ?_ (noneInTheWay_envOf ?_ ?_ ?_ ?_) <;>
      decide +kernel
  refine ⟨fun h => ?_, hada⟩
  cases h

/-- **A key is shared by all funds.**  Ada's key is fresh to her, and she learns
that somebody has used it. -/
theorem shared_key_tells :
    (serve (apiEnvOf 2) (requestCall 2 ada 1 "same").2 twoFunds).1.status = 201 ∧
      (serve (apiEnvOf 2) (requestCall 2 ada 1 "same").2
        (afterRequests twoFunds [requestCall 1 bob 2 "same"])).1.status = 422 := by
  constructor <;> decide +kernel

end FundLedger.Api
