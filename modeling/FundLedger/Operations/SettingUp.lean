import FundLedger.Operations.ChartCodes
import FundLedger.Operations.Factories

/-!
# Setting up a fund

Opening the accounts of a fund that has none leaves it `Ready`, which is what
the results on partners' capital ask for.  The code of a capital account
contains the id of its owner, in a form from which the id can be read back.
-/

namespace FundLedger

open Lib Relation

/-! ## Hexadecimal ids -/

/-- The value of a hexadecimal digit. -/
def hexValue (c : Char) : ℕ := "0123456789abcdef".toList.idxOf c

theorem hexValue_hexDigit {n : ℕ} (h : n < 16) : hexValue (hexDigit n) = n := by
  have hall : ∀ n : Fin 16, hexValue (hexDigit n) = n := by decide
  exact hall ⟨n, h⟩

theorem hex_injective {u v : Uuid} (h : Uuid.hex u = Uuid.hex v) : u = v := by
  have hdigits : ∀ w : ℕ, ∀ d ∈ ((Nat.digits 16 w).rightpad 32 0).reverse, d < 16 := by
    intro w d hd
    rw [List.mem_reverse, List.rightpad, List.mem_append, List.mem_replicate] at hd
    rcases hd with hd | ⟨-, rfl⟩
    · exact Nat.digits_lt_base (by norm_num) hd
    · norm_num
  have hback : ∀ w : ℕ, ((Uuid.hex w).toList.map hexValue) =
      ((Nat.digits 16 w).rightpad 32 0).reverse := by
    intro w
    rw [Uuid.hex, String.toList_ofList, List.map_map]
    exact (List.map_congr_left fun d hd => hexValue_hexDigit (hdigits w d hd)).trans (List.map_id _)
  have hvalue : ∀ w : ℕ, Nat.ofDigits 16 ((Nat.digits 16 w).rightpad 32 0) = w := by
    intro w
    rw [List.rightpad, Nat.ofDigits_append_replicate_zero, Nat.ofDigits_digits]
  have hlists : (Nat.digits 16 u).rightpad 32 0 = (Nat.digits 16 v).rightpad 32 0 := by
    rw [← List.reverse_inj, ← hback u, ← hback v, h]
  rw [← hvalue u, hlists, hvalue v]

/-- The code of a capital account names its owner. -/
theorem capitalAccount_of_code {fund : Fund} {lp : Uuid} {a : Account} {code : String}
    (hf : a.fund = fund.id) (hc : a.currency = fund.baseCurrency)
    (hcode : accountCode a.accountType a.currency a.ownerLp = .ok code)
    (hlp : accountCode .LP_CAPITAL fund.baseCurrency (some lp) = .ok code) :
    CapitalAccount fund lp a := by
  have htype := accountCode_type hcode hlp
  refine ⟨hf, htype, hc, ?_⟩
  rw [htype] at hcode
  cases ho : a.ownerLp with
  | none =>
    rw [ho] at hcode
    cases hcode
  | some lq =>
    rw [ho] at hcode
    have hsame : "LP-" ++ Uuid.hex lq = "LP-" ++ Uuid.hex lp :=
      Except.ok.inj (hcode.trans hlp.symm)
    rw [hex_injective (String.append_right_inj _ |>.mp hsame)]

/-! ## Opening the accounts -/

/-- The accounts of the fund are in its base currency. -/
def InBase (db : Db) (fund : Fund) : Prop :=
  ∀ a ∈ db.accounts, a.fund = fund.id → a.currency = fund.baseCurrency

/-- What holds while the accounts of a fund are opened. -/
structure Opening (db : Db) (fund : Fund) : Prop extends WellFormed db fund where
  in_base : InBase db fund

/-- `db'` has the accounts of `db`, and the same commitments. -/
structure Opened (db db' : Db) : Prop where
  accounts : ∀ a ∈ db.accounts, a ∈ db'.accounts
  commitments : db'.commitments = db.commitments

theorem Opening.getOrCreateAccount {fund : Fund} {defaults a : Account} {db db' : Db}
    (h : Opening db fund) (hf : defaults.fund = fund.id)
    (hc : defaults.currency = fund.baseCurrency)
    (standard : accountCode defaults.accountType defaults.currency defaults.ownerLp =
      .ok defaults.code)
    (hrun : FundLedger.getOrCreateAccount defaults db = (.ok a, db')) :
    Opening db' fund ∧ Opened db db' ∧ findAccount db' fund.id defaults.code = some a := by
  obtain ⟨hfind, hcase⟩ := getOrCreateAccount_ok hrun
  rw [hf] at hfind
  rcases hcase with rfl | ⟨-, -, hins⟩
  · exact ⟨h, ⟨fun _ ha => ha, rfl⟩, hfind⟩
  · have hchange : Change AnyPosting db db' := .accountOpened hins standard
    refine ⟨⟨h.toWellFormed.change hchange, fun b hb hbf => ?_⟩,
      ⟨fun b hb => (mem_accounts_insert hins).mpr (.inl hb), hchange.extends.commitments⟩, hfind⟩
    rcases (mem_accounts_insert hins).mp hb with hb | rfl
    · exact h.in_base b hb hbf
    · exact hc

theorem Opened.trans {a b c : Db} (h : Opened a b) (h' : Opened b c) : Opened a c :=
  ⟨fun x hx => h'.accounts x (h.accounts x hx), h'.commitments.trans h.commitments⟩

/-- A loop that opens accounts, each step of which brings about `P`. -/
theorem Opening.forM {α : Type} {fund : Fund} {f : α → M Unit} {P : α → Db → Prop}
    (hmono : ∀ x {d d'}, Opened d d' → P x d → P x d')
    (hstep : ∀ x {d d'}, Opening d fund → f x d = (.ok (), d') →
      Opening d' fund ∧ Opened d d' ∧ P x d') :
    ∀ (l : List α) {d d' : Db}, Opening d fund → l.forM f d = (.ok (), d') →
      Opening d' fund ∧ Opened d d' ∧ ∀ x ∈ l, P x d' := by
  intro l
  induction l with
  | nil =>
    intro d d' h hrun
    obtain ⟨-, rfl⟩ := Tx.pure_eq.mp hrun
    exact ⟨h, ⟨fun _ ha => ha, rfl⟩, by simp⟩
  | cons x l ih =>
    intro d d' h hrun
    obtain ⟨⟨⟩, d₁, hx, hl⟩ := Tx.bind_ok.mp hrun
    obtain ⟨h₁, ho₁, hp₁⟩ := hstep x h hx
    obtain ⟨h₂, ho₂, hp₂⟩ := ih h₁ hl
    exact ⟨h₂, ho₁.trans ho₂, List.forall_mem_cons.mpr ⟨hmono x ho₂ hp₁, hp₂⟩⟩

/-- **Opening the accounts of a fund sets it up**: the constraints of the tables
hold, and it has no accounts yet. -/
theorem ready_openFundAccounts {env : Env} {fund : Fund} {db db' : Db}
    (fund_mem : fund ∈ db.funds)
    (positive : ∀ c ∈ commitmentsOf db fund.id, 0 < c.committedAmount)
    (one_commitment : ((commitmentsOf db fund.id).map Commitment.lp).Nodup)
    (partner : ∀ c ∈ commitmentsOf db fund.id, ∃ lp ∈ db.lps, lp.id = c.lp)
    (bare : ∀ a ∈ db.accounts, a.fund ≠ fund.id)
    (h : openFundAccounts env fund db = (.ok (), db')) : Ready db' fund := by
  have hstart : Opening db fund :=
    ⟨⟨fund_mem, positive, one_commitment, partner,
      fun a ha b _ lp hca _ => absurd hca.fund_eq (bare a ha),
      fun a ha hf => absurd hf (bare a ha)⟩, fun a ha hf => absurd hf (bare a ha)⟩
  obtain ⟨⟨⟩, d₁, hstandard, hpartners⟩ := Tx.bind_ok.mp h
  rw [Tx.read_bind] at hpartners
  obtain ⟨h₁, ho₁, -⟩ := Opening.forM (P := fun _ _ => True) (fun _ _ _ _ _ => trivial)
    (fun t d d' hd hrun => by
      obtain ⟨a, d₂, hensure, hret⟩ := Tx.bind_ok.mp hrun
      obtain ⟨-, rfl⟩ := Tx.pure_eq.mp hret
      obtain ⟨code, d₃, hlift, hget⟩ := Tx.bind_ok.mp hensure
      obtain ⟨hcode, rfl⟩ := Tx.lift_eq.mp hlift
      obtain ⟨hopen, hopened, -⟩ := hd.getOrCreateAccount rfl rfl hcode.symm hget
      exact ⟨hopen, hopened, trivial⟩) _ hstart hstandard
  obtain ⟨h₂, ho₂, hall⟩ := Opening.forM
    (P := fun c d => ∃ a ∈ d.accounts, CapitalAccount fund c.1.lp a)
    (fun c d d' ho ⟨a, ha, hca⟩ => ⟨a, ho.accounts a ha, hca⟩)
    (fun c d d' hd hrun => by
      obtain ⟨a, d₂, hensure, hret⟩ := Tx.bind_ok.mp hrun
      obtain ⟨-, rfl⟩ := Tx.pure_eq.mp hret
      obtain ⟨code, d₃, hlift, hget⟩ := Tx.bind_ok.mp hensure
      obtain ⟨hcode, rfl⟩ := Tx.lift_eq.mp hlift
      obtain ⟨hopen, hopened, hfind⟩ := hd.getOrCreateAccount rfl rfl hcode.symm hget
      obtain ⟨ha, hf, rfl⟩ := findAccount_eq_some hfind
      exact ⟨hopen, hopened, a, ha, capitalAccount_of_code hf (hopen.in_base a ha hf)
        (hopen.charted a ha hf) hcode.symm⟩) _ h₁ hpartners
  refine ⟨h₂.toWellFormed, fun c hc => ?_⟩
  have hcommitments : commitmentsOf db' fund.id = commitmentsOf d₁ fund.id := by
    rw [commitmentsOf, commitmentsOf, ho₂.commitments]
  rw [hcommitments, ← (env.commitmentOrder.perm _).mem_iff] at hc
  obtain ⟨i, hi⟩ := List.mem_iff_getElem?.mp hc
  exact hall (c, i) (List.mem_zipIdx_iff_getElem?.mpr hi)

theorem openFundAccounts_of_ok {env : Env} {fund : Fund} {db : Db}
    (h : (openFundAccounts env fund db).1 = .ok ()) :
    openFundAccounts env fund db = (.ok (), (openFundAccounts env fund db).2) :=
  Prod.ext h rfl

theorem ready_buildPeFund : Ready buildPeFund makeFund := by
  have hrun : openFundAccounts (envOf 0) makeFund peFundBare = (.ok (), buildPeFund) :=
    openFundAccounts_of_ok (by decide +kernel)
  have hfund : makeFund ∈ peFundBare.funds.rows := by decide
  have hpartner : ∀ c ∈ commitmentsOf peFundBare makeFund.id,
      ∃ lp ∈ peFundBare.lps.rows, lp.id = c.lp := by decide +kernel
  have hbare : ∀ a ∈ peFundBare.accounts.rows, a.fund ≠ makeFund.id := by decide
  exact ready_openFundAccounts hfund (by decide) (by decide) hpartner hbare hrun

end FundLedger
