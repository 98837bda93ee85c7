import FundLedger.Operations.Later

/-!
# Reading the chart

The code of an account says what the account is, as long as every account of
the fund was opened by the functions of the chart.  `Ready` is the state that
`openFundAccounts` brings about: the constraints on the commitments, a chart
with such codes, and a capital account for every partner with a commitment.
-/

namespace FundLedger

open Lib Relation

/-! ## Codes determine types -/

/-- The first two characters of the codes of a type. -/
def AccountType.initials : AccountType → List Char
  | .CASH => ['C', 'A']
  | .INVESTMENT => ['I', 'N']
  | .FEE_EXPENSE => ['F', 'E']
  | .GAIN_LOSS => ['G', 'A']
  | .LP_CAPITAL => ['L', 'P']
  | .GP_CAPITAL => ['G', 'P']

theorem AccountType.initials_injective {t u : AccountType} (h : t.initials = u.initials) :
    t = u := by
  cases t <;> cases u <;> first | rfl | (simp [AccountType.initials] at h)

theorem accountCode_initials {t : AccountType} {currency code : String} {lp : Option Uuid}
    (h : accountCode t currency lp = .ok code) : code.toList.take 2 = t.initials := by
  have happend : ∀ {p : String} {cs : List Char}, p.toList.take 2 = cs → 2 ≤ p.toList.length →
      ∀ s : String, (p ++ s).toList.take 2 = cs := by
    intro p cs hp hlen s
    rw [String.toList_append, List.take_append_of_le_length hlen, hp]
  cases t <;> cases lp <;> cases h <;>
    first | rfl | exact happend (by decide) (by decide) _

/-- **The code of an account determines its type.** -/
theorem accountCode_type {t u : AccountType} {c d code : String} {lp lq : Option Uuid}
    (h : accountCode t c lp = .ok code) (h' : accountCode u d lq = .ok code) : t = u :=
  AccountType.initials_injective ((accountCode_initials h).symm.trans (accountCode_initials h'))

/-! ## A fund that has been set up -/

/-- Every account of the fund has the code of the chart. -/
def Charted (db : Db) (fund : Uuid) : Prop :=
  ∀ a ∈ db.accounts, a.fund = fund → accountCode a.accountType a.currency a.ownerLp = .ok a.code

/-- `a` is the capital account of a partner in the base currency. -/
structure CapitalAccount (fund : Fund) (lp : Uuid) (a : Account) : Prop where
  fund_eq : a.fund = fund.id
  type : a.accountType = .LP_CAPITAL
  currency : a.currency = fund.baseCurrency
  owner : a.ownerLp = some lp

/-- The constraints of the tables hold, and the chart of the fund is kept by the
functions of the chart. -/
structure WellFormed (db : Db) (fund : Fund) : Prop where
  fund_mem : fund ∈ db.funds
  positive : ∀ c ∈ commitmentsOf db fund.id, 0 < c.committedAmount
  one_commitment : ((commitmentsOf db fund.id).map Commitment.lp).Nodup
  partner : ∀ c ∈ commitmentsOf db fund.id, ∃ lp ∈ db.lps, lp.id = c.lp
  one_capital_account : ∀ a ∈ db.accounts, ∀ b ∈ db.accounts, ∀ lp,
    CapitalAccount fund lp a → CapitalAccount fund lp b → a = b
  charted : Charted db fund.id

/-- The fund has been set up: moreover, every partner with a commitment has a
capital account. -/
structure Ready (db : Db) (fund : Fund) : Prop extends WellFormed db fund where
  capital_account : ∀ c ∈ commitmentsOf db fund.id, ∃ a ∈ db.accounts, CapitalAccount fund c.lp a

theorem Charted.type_of_code {db : Db} {fund : Uuid} (h : Charted db fund) {t : AccountType}
    {currency code : String} {lp : Option Uuid} {a : Account} (hcode : accountCode t currency lp = .ok code)
    (hfind : findAccount db fund code = some a) : a.accountType = t := by
  obtain ⟨ha, hf, rfl⟩ := findAccount_eq_some hfind
  exact accountCode_type (h a ha hf) hcode

theorem Charted.getAccount_type {db : Db} {fund : Fund} (h : Charted db fund.id) {t : AccountType}
    {currency : Option String} {a : Account} (ha : getAccount db fund t currency = .ok a) :
    a ∈ db.accounts ∧ a.fund = fund.id ∧ a.accountType = t := by
  obtain ⟨code, hcode, hfind⟩ := except_bind_ok.mp ha
  have hfind := orRaise_eq_ok.mp hfind
  obtain ⟨hmem, hf, -⟩ := findAccount_eq_some hfind
  exact ⟨hmem, hf, h.type_of_code hcode hfind⟩

/-! ## Every change keeps the fund set up -/

/-- A change leaves the accounts as they are or opens one of the chart. -/
theorem Change.accounts_cases {Q : Db → Posting → Prop} {db db' : Db} (h : Change Q db db') :
    db'.accounts = db.accounts ∨ ∃ a, insertAccount db a = .ok db' ∧
      accountCode a.accountType a.currency a.ownerLp = .ok a.code := by
  cases h with
  | posted known held posted =>
    obtain ⟨transfers, entries, -, -, rfl⟩ := posted.appended
    exact .inl rfl
  | accountOpened inserted standard => exact .inr ⟨_, inserted, standard⟩
  | capitalCall inserted =>
    obtain ⟨-, -, calls, -, rfl⟩ := insertCapitalCall_ok inserted
    exact .inl rfl
  | distribution inserted =>
    obtain ⟨-, -, dists, -, rfl⟩ := insertDistribution_ok inserted
    exact .inl rfl
  | periodClosed updated =>
    obtain ⟨-, rfl⟩ := updatePeriod_ok updated
    exact .inl rfl

theorem mem_accounts_insert {db db' : Db} {a b : Account} (h : insertAccount db a = .ok db') :
    b ∈ db'.accounts ↔ b ∈ db.accounts ∨ b = a := by
  obtain ⟨-, -, -, -, -, accounts, hins, rfl⟩ := insertAccount_ok h
  rw [← Table.mem_rows, (Table.insert_eq_some.mp hins).2, List.mem_append, List.mem_singleton]
  rfl

theorem Charted.change {Q : Db → Posting → Prop} {db db' : Db} {fund : Uuid}
    (h : Charted db fund) (hc : Change Q db db') : Charted db' fund := by
  rcases hc.accounts_cases with hsame | ⟨a, hins, standard⟩
  · rw [Charted, hsame]
    exact h
  · intro b hb hf
    rcases (mem_accounts_insert hins).mp hb with hb | rfl
    · exact h b hb hf
    · exact standard

/-- The server keeps capital accounts unique. -/
theorem insertAccount_capitalAccount {db db' : Db} {fund : Fund} {lp : Uuid} {a b : Account}
    (h : insertAccount db a = .ok db') (hb : b ∈ db.accounts) (hcb : CapitalAccount fund lp b) :
    ¬CapitalAccount fund lp a := by
  obtain ⟨-, -, -, -, hunique, -⟩ := insertAccount_ok h
  intro hca
  exact hunique b hb ⟨hcb.type, hca.type, hcb.fund_eq.trans hca.fund_eq.symm,
    hcb.owner.trans hca.owner.symm, hcb.currency.trans hca.currency.symm⟩

/-- **One step**: a fund that is well formed stays so. -/
theorem WellFormed.change {Q : Db → Posting → Prop} {db db' : Db} {fund : Fund}
    (h : WellFormed db fund) (hc : Change Q db db') : WellFormed db' fund := by
  have hx := hc.extends
  have hcommitments : commitmentsOf db' fund.id = commitmentsOf db fund.id := by
    rw [commitmentsOf, commitmentsOf, hx.commitments]
  refine ⟨hx.funds ▸ h.fund_mem, hcommitments ▸ h.positive, hcommitments ▸ h.one_commitment, ?_, ?_,
    h.charted.change hc⟩
  · rw [hcommitments, hx.lps]
    exact h.partner
  · rcases hc.accounts_cases with hsame | ⟨a, hins, -⟩
    · rw [hsame]
      exact h.one_capital_account
    · intro b hb b' hb' lp hcb hcb'
      rcases (mem_accounts_insert hins).mp hb with hb | rfl <;>
        rcases (mem_accounts_insert hins).mp hb' with hb' | rfl
      · exact h.one_capital_account b hb b' hb' lp hcb hcb'
      · exact absurd hcb' (insertAccount_capitalAccount hins hb hcb)
      · exact absurd hcb (insertAccount_capitalAccount hins hb' hcb')
      · rfl

/-- **One step**: a fund that has been set up stays so. -/
theorem Ready.change {Q : Db → Posting → Prop} {db db' : Db} {fund : Fund} (h : Ready db fund)
    (hc : Change Q db db') : Ready db' fund := by
  have hx := hc.extends
  refine ⟨h.toWellFormed.change hc, fun c hcm => ?_⟩
  rw [commitmentsOf, hx.commitments] at hcm
  obtain ⟨a, ha, hca⟩ := h.capital_account c hcm
  exact ⟨a, hx.accounts.subset ha, hca⟩

/-! ## The capital accounts by owner -/

private def capitalItems (db : Db) (fund : Fund) : List (Uuid × Account) :=
  (db.accounts.rows.filter fun a => a.fund = fund.id ∧ a.accountType = .LP_CAPITAL ∧
    a.currency = fund.baseCurrency).filterMap fun a => a.ownerLp.map fun lp => (lp, a)

private theorem mem_capitalItems {db : Db} {fund : Fund} {i : Uuid × Account} :
    i ∈ capitalItems db fund ↔ i.2 ∈ db.accounts ∧ CapitalAccount fund i.1 i.2 := by
  obtain ⟨lp, a⟩ := i
  simp only [capitalItems, List.mem_filterMap, List.mem_filter, Bool.decide_and, Bool.and_eq_true,
    decide_eq_true_eq, Option.map_eq_some_iff, Prod.mk.injEq]
  constructor
  · rintro ⟨b, ⟨hb, hf, ht, hc⟩, _, ho, rfl, rfl⟩
    exact ⟨hb, hf, ht, hc, ho⟩
  · rintro ⟨ha, hf, ht, hc, ho⟩
    exact ⟨a, ⟨ha, hf, ht, hc⟩, lp, ho, rfl, rfl⟩

private theorem WellFormed.nodup_capitalItems {db : Db} {fund : Fund} (h : WellFormed db fund) :
    ((capitalItems db fund).map Prod.fst).Nodup := by
  have hitems : (capitalItems db fund).Nodup := by
    refine List.Nodup.filterMap ?_ (db.accounts.nodup.of_map.filter _)
    rintro a b ⟨lp, c⟩ ha hb
    simp only [Option.mem_def, Option.map_eq_some_iff, Prod.mk.injEq] at ha hb
    obtain ⟨_, -, -, rfl⟩ := ha
    obtain ⟨_, -, -, rfl⟩ := hb
    rfl
  refine (List.nodup_map_iff_inj_on hitems).mpr ?_
  rintro ⟨lp, a⟩ hi ⟨lq, b⟩ hj rfl
  obtain ⟨ha, hca⟩ := mem_capitalItems.mp hi
  obtain ⟨hb, hcb⟩ := mem_capitalItems.mp hj
  rw [h.one_capital_account a ha b hb lp hca hcb]

/-- What the dictionary of capital accounts lists under a partner is a capital
account of it. -/
theorem lookup_capital_mem {db : Db} {fund : Fund} {lp : Uuid} {a : Account}
    (h : lookup (lpCapitalAccounts db fund) lp = .ok a) :
    a ∈ db.accounts ∧ CapitalAccount fund lp a := by
  have hdict : lpCapitalAccounts db fund = Dict.ofList (capitalItems db fund) := rfl
  rw [hdict, lookup] at h
  cases hget : (Dict.ofList (capitalItems db fund)).get? lp with
  | none =>
    rw [hget] at h
    cases h
  | some i =>
    rw [hget] at h
    cases h
    obtain ⟨hi, rfl⟩ := Table.get?_eq_some.mp hget
    exact mem_capitalItems.mp (Dict.mem_ofList hi)

/-- It lists every capital account. -/
theorem WellFormed.lookup_capital {db : Db} {fund : Fund} (h : WellFormed db fund) {lp : Uuid}
    {a : Account} (ha : a ∈ db.accounts) (hca : CapitalAccount fund lp a) :
    lookup (lpCapitalAccounts db fund) lp = .ok a := by
  have hdict : lpCapitalAccounts db fund = Dict.ofList (capitalItems db fund) := rfl
  have hi : (lp, a) ∈ capitalItems db fund := mem_capitalItems.mpr ⟨ha, hca⟩
  rw [hdict, lookup, Dict.get?_ofList h.nodup_capitalItems hi]
  rfl

/-! ## The accounts that take part -/

/-- `a` is an account that the business operations of the fund post to. -/
def TakesPart (db : Db) (fund : Fund) (a : Account) : Prop :=
  a.accountType ∈ [.CASH, .INVESTMENT, .FEE_EXPENSE, .GAIN_LOSS] ∨
    ∃ c ∈ commitmentsOf db fund.id, CapitalAccount fund c.lp a

/-- If `account` names an account of the fund, it is one that takes part. -/
def PostsTo (db : Db) (fund : Fund) (account : Uuid) : Prop :=
  ∀ a ∈ db.accounts, a.fund = fund.id → a.id = account → TakesPart db fund a

/-- The two legs of a share. -/
def sharePair (debit credit : Uuid) (share : Dec) : List Leg := [
  { accountId := debit, direction := Direction.DEBIT.value, amount := .finite share },
  { accountId := credit, direction := Direction.CREDIT.value, amount := .finite share }]

/-- The legs of the shares are pairs, one for each share that is not zero. -/
theorem shareLegs_ok {debit credit : Uuid → Except Exc Uuid} {shares : Dict Uuid Dec}
    {legs : List Leg} (h : shareLegs debit credit shares = .ok legs) :
    ∃ pairs, legs = pairs.flatten ∧ List.Forall₂ (fun i pair => ∃ d c, debit i.1 = .ok d ∧
      credit i.1 = .ok c ∧ pair = sharePair d c i.2)
      ((sortedItems shares).filter fun i => i.2.coeff ≠ 0) pairs := by
  rw [shareLegs] at h
  cases hm : (((sortedItems shares).filter fun i => i.2.coeff ≠ 0).mapM fun i => do
      let d ← debit i.1
      let c ← credit i.1
      return [
        { accountId := d, direction := Direction.DEBIT.value, amount := .finite i.2 },
        { accountId := c, direction := Direction.CREDIT.value, amount := .finite i.2 }]
      : Except Exc (List (List Leg))) with
  | error e =>
    rw [hm] at h
    cases h
  | ok pairs =>
    rw [hm] at h
    cases h
    refine ⟨pairs, rfl, (mapM_except_ok.mp hm).imp fun i pair hok => ?_⟩
    simp only [except_bind_ok, except_pure] at hok
    obtain ⟨d, hd, c, hc, rfl⟩ := hok
    exact ⟨d, c, hd, hc, rfl⟩

theorem mem_shareLegs {debit credit : Uuid → Except Exc Uuid} {shares : Dict Uuid Dec}
    {legs : List Leg} (h : shareLegs debit credit shares = .ok legs) {leg : Leg}
    (hleg : leg ∈ legs) : ∃ lp ∈ shares.keys, debit lp = .ok leg.accountId ∨
      credit lp = .ok leg.accountId := by
  obtain ⟨pairs, rfl, hpairs⟩ := shareLegs_ok h
  obtain ⟨pair, hpair, hmem⟩ := List.mem_flatten.mp hleg
  obtain ⟨i, hi, d, c, hd, hc, rfl⟩ := forall₂_exists_left hpairs hpair
  have hkey : i.1 ∈ shares.keys :=
    List.mem_map_of_mem ((List.mem_insertionSort _).mp (List.mem_of_mem_filter hi))
  simp only [sharePair, List.mem_cons, List.not_mem_nil, or_false] at hmem
  rcases hmem with rfl | rfl
  · exact ⟨i.1, hkey, .inl hd⟩
  · exact ⟨i.1, hkey, .inr hc⟩

theorem orInvalidTransfer_ok {α : Type} {x : Except Message α} {a : α} :
    orInvalidTransfer x = .ok a ↔ x = .ok a := by
  cases x <;> simp [orInvalidTransfer]

/-- A pro-rata split that succeeded allocated a finite total over the
commitments. -/
theorem proRata_ok {env : Env} {db : Db} {fund : Fund} {total : Amount}
    {commitments : List Commitment} {shares : Dict Uuid Dec}
    (h : proRata env db fund total = .ok (commitments, shares)) :
    ∃ d, total = .finite d ∧
      commitments = env.commitmentOrder.order (commitmentsOf db fund.id) ∧
      allocate (id : Uuid → ℕ) d (commitmentWeights commitments) = .ok shares := by
  simp only [proRata, except_bind_ok] at h
  obtain ⟨_, -, h⟩ := h
  cases total with
  | finite d =>
    obtain ⟨s, hs, hret⟩ := except_bind_ok.mp h
    cases hret
    exact ⟨d, rfl, rfl, orInvalidTransfer_ok.mp hs⟩
  | _ =>
    obtain ⟨_, -, hraised⟩ := except_bind_ok.mp h
    cases hraised

/-- The shares of a pro-rata split belong to the partners with commitments. -/
theorem proRata_keys {env : Env} {db : Db} {fund : Fund} {total : Amount}
    {commitments : List Commitment} {shares : Dict Uuid Dec}
    (h : proRata env db fund total = .ok (commitments, shares)) {lp : Uuid}
    (hlp : lp ∈ shares.keys) : ∃ c ∈ commitmentsOf db fund.id, c.lp = lp := by
  obtain ⟨d, -, rfl, ha⟩ := proRata_ok h
  obtain ⟨-, -, rfl⟩ := allocate_ok.mp ha
  rw [Dict.keys_mapItems] at hlp
  obtain ⟨i, hi, rfl⟩ := List.mem_map.mp hlp
  obtain ⟨c, hc, rfl⟩ := List.mem_map.mp (Dict.mem_ofList hi)
  exact ⟨c, (env.commitmentOrder.perm _).mem_iff.mp hc, rfl⟩

theorem investmentLegs_account {db : Db} {fund : Fund} {investment cash : Account}
    {amount : Amount} {currency : String} {onDate : Date} {legs : List Leg}
    (h : investmentLegs db fund investment cash amount currency onDate = .ok legs) {leg : Leg}
    (hleg : leg ∈ legs) : leg.accountId = investment.id ∨ leg.accountId = cash.id := by
  unfold investmentLegs at h
  split at h
  · cases h
    simp only [List.mem_cons, List.not_mem_nil, or_false] at hleg
    rcases hleg with rfl | rfl <;> simp
  · simp only [except_bind_ok, except_pure] at h
    obtain ⟨rate, -, cost, -, rfl⟩ := h
    simp only [List.mem_cons, List.not_mem_nil, or_false] at hleg
    rcases hleg with rfl | rfl <;> simp

namespace Ready

variable {db : Db} {fund : Fund}

theorem eq_of_id (h : Ready db fund) {fund' : Fund} (hmem : fund' ∈ db.funds)
    (hid : fund.id = fund'.id) : fund' = fund :=
  Table.eq_of_key_eq hmem h.fund_mem hid.symm

/-- An account found by its standard code takes part. -/
theorem postsTo_of_code (h : Ready db fund) {fund' : Fund} {fundId : Uuid}
    (hfund : getFund db fundId = .ok fund') {t : AccountType}
    (ht : t ∈ [AccountType.CASH, .INVESTMENT, .FEE_EXPENSE, .GAIN_LOSS]) {currency code : String}
    (hcode : accountCode t currency = .ok code) {b : Account}
    (hb : findAccount db fund'.id code = some b) : PostsTo db fund b.id := by
  intro a ha hf hid
  obtain ⟨hbm, hbf, -⟩ := findAccount_eq_some hb
  obtain rfl : a = b := Table.eq_of_key_eq ha hbm hid
  obtain rfl := h.eq_of_id (Table.mem_of_get? (orRaise_eq_ok.mp hfund)) (hf.symm.trans hbf)
  exact .inl ((h.charted.type_of_code hcode hb).symm ▸ ht)

theorem postsTo_of_getAccount (h : Ready db fund) {fund' : Fund} {fundId : Uuid}
    (hfund : getFund db fundId = .ok fund') {t : AccountType}
    (ht : t ∈ [AccountType.CASH, .INVESTMENT, .FEE_EXPENSE, .GAIN_LOSS]) {b : Account}
    (hb : getAccount db fund' t = .ok b) : PostsTo db fund b.id := by
  obtain ⟨code, hcode, hfind⟩ := except_bind_ok.mp hb
  exact h.postsTo_of_code hfund ht hcode (orRaise_eq_ok.mp hfind)

/-- The capital account of a partner with a commitment takes part. -/
theorem postsTo_of_capital (h : Ready db fund) {fund' : Fund} {fundId : Uuid}
    (hfund : getFund db fundId = .ok fund') {c : Commitment}
    (hc : c ∈ commitmentsOf db fund'.id) {x : Uuid}
    (hx : Account.id <$> lookup (lpCapitalAccounts db fund') c.lp = .ok x) :
    PostsTo db fund x := by
  intro a ha hf hid
  cases hlook : lookup (lpCapitalAccounts db fund') c.lp with
  | error e =>
    rw [hlook] at hx
    cases hx
  | ok b =>
    rw [hlook] at hx
    cases hx
    obtain ⟨hb, hcb⟩ := lookup_capital_mem hlook
    obtain rfl : a = b := Table.eq_of_key_eq ha hb hid
    obtain rfl := h.eq_of_id (Table.mem_of_get? (orRaise_eq_ok.mp hfund)) (hf.symm.trans hcb.fund_eq)
    exact .inr ⟨c, hc, hcb⟩

/-- **The legs of every business operation and of every reversal are on
accounts that take part**, when the entries so far are. -/
theorem postsTo_of_business (h : Ready db fund) (hentries : ∀ e ∈ db.entries, PostsTo db fund e.account)
    {p : Posting} (hp : Business db p) {leg : Leg} (hleg : leg ∈ p.legs) :
    PostsTo db fund leg.accountId := by
  cases hp with
  | capitalCall env fundId total noticeDate plan planned legs =>
    obtain ⟨fund', commitments, shares, cash, hfund, -, hshares, -, hcash, hlegs, -⟩ :=
      planCapitalCall_ok planned
    obtain ⟨lp, hlp, hx | hx⟩ := mem_shareLegs hlegs (legs ▸ hleg)
    · exact Except.ok.inj hx ▸ h.postsTo_of_getAccount hfund (by simp) hcash
    · obtain ⟨c, hc, rfl⟩ := proRata_keys hshares hlp
      exact h.postsTo_of_capital hfund hc hx
  | distribution env fundId total paymentDate plan planned legs =>
    obtain ⟨fund', commitments, shares, cash, hfund, -, hshares, hcash, hlegs, -⟩ :=
      planDistribution_ok planned
    obtain ⟨lp, hlp, hx | hx⟩ := mem_shareLegs hlegs (legs ▸ hleg)
    · obtain ⟨c, hc, rfl⟩ := proRata_keys hshares hlp
      exact h.postsTo_of_capital hfund hc hx
    · exact Except.ok.inj hx ▸ h.postsTo_of_getAccount hfund (by simp) hcash
  | investment fund' investment cash amount currency onDate fund_mem opened paid legs =>
    have hfund : getFund db fund'.id = .ok fund' :=
      orRaise_eq_ok.mpr (Table.get?_of_mem fund_mem)
    rcases investmentLegs_account legs hleg with hx | hx
    · exact hx ▸ h.postsTo_of_code hfund (t := .INVESTMENT) (by simp) rfl opened
    · exact hx ▸ h.postsTo_of_getAccount hfund (by simp) paid
  | fee fundId key amount onDate q planned legs =>
    obtain ⟨fund', expense, cash, hfund, hexpense, hcash, -, -, -, -, hlegs⟩ := feePosting_ok planned
    rw [legs, hlegs] at hleg
    simp only [List.mem_cons, List.not_mem_nil, or_false] at hleg
    rcases hleg with rfl | rfl
    · exact h.postsTo_of_getAccount hfund (by simp) hexpense
    · exact h.postsTo_of_getAccount hfund (by simp) hcash
  | valuation fundId key change onDate q planned legs =>
    obtain ⟨fund', investment, gainLoss, debit, credit, size, hfund, hinv, hgain, hcase, -, -, -, -,
      hlegs⟩ := valuationPosting_ok planned
    have hi : PostsTo db fund investment.id := h.postsTo_of_getAccount hfund (by simp) hinv
    have hg : PostsTo db fund gainLoss.id := h.postsTo_of_getAccount hfund (by simp) hgain
    rw [legs, hlegs] at hleg
    simp only [List.mem_cons, List.not_mem_nil, or_false] at hleg
    rcases hcase with ⟨rfl, rfl⟩ | ⟨rfl, rfl⟩ <;> rcases hleg with rfl | rfl <;> assumption
  | reversal original mem not_reversal legs =>
    rw [legs] at hleg
    obtain ⟨e, he, rfl⟩ := List.mem_map.mp hleg
    exact hentries e (mem_group.mp ((List.mem_insertionSort _).mp he)).1

end Ready

end FundLedger
