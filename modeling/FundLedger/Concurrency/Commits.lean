import FundLedger.Concurrency.Assertions
import FundLedger.Operations.TrialBalance

/-!
# What a commit does

A session that commits stays beside every other one, since it claims the rows
it has written and the locks that they need.  For the committed database it
does what the sequential service does.
-/

namespace FundLedger

open Lib

/-! ## Claims are made while they are free -/

theorem Write.Clash.symm {w x : Write} (h : w.Clash x) : x.Clash w := by
  cases w <;> cases x <;> try exact h.elim
  case transfer.transfer t u =>
    rcases h with hid | hkey | ⟨hsome, hrev⟩
    · exact .inl hid.symm
    · exact .inr (.inl hkey.symm)
    · exact .inr (.inr ⟨hrev ▸ hsome, hrev.symm⟩)
  case entry.entry e f => exact Eq.symm h
  case capitalCall.capitalCall c d =>
    rcases h with hid | ⟨hfund, hnumber⟩ | htransfer
    · exact .inl hid.symm
    · exact .inr (.inl ⟨hfund.symm, hnumber.symm⟩)
    · exact .inr (.inr htransfer.symm)
  case distribution.distribution c d =>
    rcases h with hid | ⟨hfund, hnumber⟩ | htransfer
    · exact .inl hid.symm
    · exact .inr (.inl ⟨hfund.symm, hnumber.symm⟩)
    · exact .inr (.inr htransfer.symm)

theorem Demand.Clash.symm {d c : Demand} (h : d.Clash c) : c.Clash d := by
  cases d <;> cases c <;> try exact h.elim
  case lock.lock r m r' m' => exact ⟨h.1.symm, fun hboth => h.2 ⟨hboth.2, hboth.1⟩⟩
  case row.row w x => exact Write.Clash.symm h

/-- A claim of one more lock. -/
theorem claims_lock {phase phase' : Phase} {ls ws : List _} {l : Resource × LockMode}
    {d : Demand} {free : Demand → Prop} (hfree : free (.lock l.1 l.2))
    (h : Session.Claims ⟨phase', l :: ls, ws⟩ d) : Session.Claims ⟨phase, ls, ws⟩ d ∨ free d := by
  cases d with
  | lock r mode =>
    rcases List.mem_cons.mp h with rfl | hold
    · exact .inr hfree
    · exact .inl hold
  | row w => exact .inl h

/-- A claim of one more row. -/
theorem claims_row (phase : Phase) {phase' : Phase} {ls : List _} {ws : List Write} {w : Write}
    {d : Demand} {free : Demand → Prop} (hfree : free (.row w))
    (h : Session.Claims ⟨phase', ls, ws ++ [w]⟩ d) : Session.Claims ⟨phase, ls, ws⟩ d ∨ free d := by
  cases d with
  | lock r mode => exact .inl h
  | row x =>
    rcases List.mem_append.mp h with hold | hnew
    · exact .inl hold
    · rw [List.mem_singleton.mp hnew]
      exact .inr hfree

/-- A session that claims nothing. -/
theorem not_claims_nil {phase : Phase} {d : Demand} : ¬Session.Claims ⟨phase, [], []⟩ d := by
  cases d <;> exact List.not_mem_nil

theorem services_disciplined (Q : Db → Posting → Prop) : (services Q).Disciplined := by
  refine ⟨Demand.Clash.symm, ?_⟩
  intro free w s w' s' moved d hd
  cases moved with
  | lockFund _ unlocked => exact claims_lock unlocked hd
  | lockAccount _ unlocked => exact claims_lock unlocked hd
  | insertTransfer _ unclaimed => exact claims_row _ unclaimed hd
  | insertEntry unlocked _ unclaimed =>
    rcases claims_row .idle unclaimed hd with hold | hnew
    · exact claims_lock unlocked hold
    · exact .inr hnew
  | insertDocument _ _ _ unclaimed => exact claims_row _ unclaimed hd
  | lockPeriod unlocked => exact claims_lock unlocked hd
  | close _ unclaimed => exact claims_row _ unclaimed hd
  | beginPosting | beginDocument | refuse | commitPosting | commitDocument | beginClosing |
    alreadyClosed | commitClosing | rollback => exact absurd hd not_claims_nil
  | plan | number | price | checkFunds | checkBalance | checkEarlier | checkImbalance =>
    cases d <;> exact .inl hd

/-! ## Beside the others -/

section

variable {Q : Db → Posting → Prop} {db : Db} {s u : Session} {t : Ticket}
  {priced : List PricedLeg}

/-- What one session claims the other admits. -/
theorem admits_of_apart (h : (services Q).Apart s u) {d : Demand} (hd : s.Claims d) :
    u.Admits d := fun c hc => h d hd c hc

/-- The entries are on accounts of the legs. -/
theorem Session.Cleared.mem_lockOrder (h : Session.Cleared db s t priced) {es : List Entry}
    (hrows : entriesFor t.env t.transfer.id priced = .ok es) {e : Entry} (he : e ∈ es) :
    e.account ∈ lockOrder t.legs := by
  obtain ⟨accounts, hprepared⟩ := preparePosting_ok h.prepared
  obtain ⟨p, hp, hrow⟩ := forall₂_exists_left (entriesFor_ok hrows) he
  obtain ⟨v, hv, hpv⟩ := forall₂_exists_left hprepared.pricedAs hp
  exact FundLedger.mem_lockOrder.mpr ⟨v, hv, hpv.2.1.symm.trans hrow.account_eq.symm⟩

/-- **A posting stays beside.** -/
theorem Session.Inserted.others {es : List Entry} {documents : List Write}
    (h : Session.Inserted db s t priced es [] documents) (hcleared : Session.Cleared db s t priced)
    (apart : (services Q).Apart s u) : Beside u db (view db (postingRows t.transfer es)) := by
  obtain ⟨transfers, entries, htrows, herows, hview⟩ := h.recorded.view_eq
  have hrows : entriesFor t.env t.transfer.id priced = .ok es := by
    rw [h.rows, List.append_nil]
  have hwrites : ∀ w ∈ postingRows t.transfer es, u.Admits (.row w) := by
    intro w hw
    apply admits_of_apart apart
    show w ∈ s.writes
    rw [h.writes]
    exact List.mem_append_left _ hw
  rw [hview]
  refine { Beside.refl u db with transfers := ⟨_, htrows, ?_⟩, entries := ⟨_, herows, ?_⟩ }
  · intro x hx
    rw [List.mem_singleton.mp hx]
    exact hwrites _ List.mem_cons_self
  · intro e he
    refine ⟨hwrites _ (List.mem_cons_of_mem _ (List.mem_map_of_mem he)), ?_,
      t.posting.period.id, ?_, ?_⟩
    · apply admits_of_apart apart
      exact hcleared.accounts _ (hcleared.mem_lockOrder hrows he)
    · have hget : transfers.get? e.transfer = some t.transfer := by
        refine Table.get?_eq_some.mpr ⟨?_, (h.recorded.entry_transfer e he).symm⟩
        rw [← Table.mem_rows, htrows]
        exact List.mem_append_right _ List.mem_cons_self
      rw [entryPeriod]
      show (transfers.get? e.transfer).map Transfer.period = _
      rw [hget]
      rfl
    · apply admits_of_apart apart
      exact h.period (List.ne_nil_of_mem he)

/-- **A document stays beside.** -/
theorem beside_document {d : DocumentRequest} {id transfer : Uuid} {number : ℕ} {units : Money}
    {db' : Db} (hrun : (d.row id number units transfer).run db = .ok db')
    (hrow : u.Admits (.row (d.row id number units transfer)))
    (hfund : u.Admits (.lock (.fund d.fundId) .update)) : Beside u db db' := by
  cases d with
  | capitalCall =>
    obtain ⟨-, -, calls, hins, rfl⟩ := insertCapitalCall_ok hrun
    refine { Beside.refl u db with capitalCalls := ⟨_, (Table.insert_eq_some.mp hins).2, ?_⟩ }
    intro c hc
    rw [List.mem_singleton.mp hc]
    exact ⟨hrow, hfund⟩
  | distribution =>
    obtain ⟨-, -, dists, hins, rfl⟩ := insertDistribution_ok hrun
    refine { Beside.refl u db with distributions := ⟨_, (Table.insert_eq_some.mp hins).2, ?_⟩ }
    intro c hc
    rw [List.mem_singleton.mp hc]
    exact ⟨hrow, hfund⟩

/-- **A closing stays beside.** -/
theorem beside_closing {period : Uuid} {now : Timestamp} {closedBy : String} {db' : Db}
    (hrun : updatePeriod db period now closedBy = .ok db')
    (hlock : u.Admits (.lock (.period period) .update)) : Beside u db db' := by
  obtain ⟨-, rfl⟩ := updatePeriod_ok hrun
  refine { Beside.refl u db with periods := ⟨_, rfl, fun p => ?_⟩ }
  by_cases hid : p.id = period
  · subst hid
    right
    refine ⟨hlock, now, closedBy, ?_⟩
    rw [if_pos (decide_eq_true rfl)]
  · left
    rw [if_neg fun h => hid (of_decide_eq_true h)]

/-- **An opening stays beside.** -/
theorem beside_opening {a : Account} {db' : Db} (h : insertAccount db a = .ok db') :
    Beside u db db' := by
  obtain ⟨-, -, -, -, -, accounts, hins, rfl⟩ := insertAccount_ok h
  exact { Beside.refl u db with accounts := ⟨_, (Table.insert_eq_some.mp hins).2.symm⟩ }

end

end FundLedger
