import FundLedger.Operations.Chaining
import FundLedger.Operations.Reversals

/-!
# Called capital, transfer by transfer

What a partner has contributed is a sum over entries.  Here it becomes a sum
over transfers: what each capital call paid in, less what each reversal of one
took back.  A reversal takes back what its original paid in, and an original
has one reversal at most; so whatever was taken back was paid in before, and
the difference is not negative.

The sums are restricted to the periods that `within` selects, since statements
only look at the periods up to their own.
-/

namespace FundLedger

open Lib

/-- What a transfer pays in on an account.  Capital is credit-normal. -/
def paidIn (db : Db) (account transfer : Uuid) : Money :=
  -sumBy Entry.signedBaseAmount (group Entry.account account (entriesOf db transfer))

/-- The capital calls in the selected periods. -/
def callsMade (db : Db) (within : Uuid → Bool) : List Uuid :=
  (db.transfers.rows.filter fun t =>
    t.transferType = .CAPITAL_CALL ∧ within t.period).map Transfer.id

/-- The capital calls that were taken back in the selected periods. -/
def callsReversed (db : Db) (within : Uuid → Bool) : List Uuid :=
  (db.transfers.rows.filter fun t => t.transferType = .REVERSAL ∧
    effectiveType db t = .CAPITAL_CALL ∧ within t.period).filterMap Transfer.reverses

/-- What the selected periods paid in, less what they took back. -/
def netPaidIn (db : Db) (account : Uuid) (within : Uuid → Bool) : Money :=
  sumBy (paidIn db account) (callsMade db within) -
    sumBy (paidIn db account) (callsReversed db within)

/-- What is known about reversals: each takes back what its original paid in,
and no transfer has two. -/
structure ReversalBooks (db : Db) : Prop where
  plain : ∀ t ∈ db.transfers, t.transferType ≠ .REVERSAL → t.reverses = none
  target : ∀ t ∈ db.transfers, t.transferType = .REVERSAL → ∃ o ∈ db.transfers,
    t.reverses = some o.id ∧ o.transferType ≠ .REVERSAL ∧
    ∀ account, paidIn db account t.id = -paidIn db account o.id
  unique : ∀ t ∈ db.transfers, ∀ u ∈ db.transfers, t.reverses.isSome →
    t.reverses = u.reverses → t = u

namespace ReversalBooks

variable {db : Db}

theorem effectiveType_plain (h : ReversalBooks db) {t : Transfer} (ht : t ∈ db.transfers)
    (hkind : t.transferType ≠ .REVERSAL) : effectiveType db t = t.transferType := by
  rw [effectiveType, h.plain t ht hkind]
  rfl

theorem effectiveType_reversal {t o : Transfer} (ho : o ∈ db.transfers)
    (hto : t.reverses = some o.id) : effectiveType db t = o.transferType := by
  rw [effectiveType, hto, Option.bind_some, Table.get?_of_mem ho]

/-- A transfer that counts as a capital call is one, or takes one back. -/
theorem call_or_reversal (h : ReversalBooks db) {t : Transfer} (ht : t ∈ db.transfers)
    (hcall : effectiveType db t = .CAPITAL_CALL) :
    t.transferType = .CAPITAL_CALL ∨ t.transferType = .REVERSAL := by
  by_cases hkind : t.transferType = .REVERSAL
  · exact .inr hkind
  · exact .inl ((h.effectiveType_plain ht hkind).symm.trans hcall)

theorem nodup_callsReversed (h : ReversalBooks db) (within : Uuid → Bool) :
    (callsReversed db within).Nodup := by
  unfold callsReversed
  have hnodup : (db.transfers.rows.filter fun t => t.transferType = .REVERSAL ∧
      effectiveType db t = .CAPITAL_CALL ∧ within t.period).Nodup :=
    (db.transfers.nodup.of_map _).filter _
  have hunique : ∀ t ∈ db.transfers.rows.filter (fun t => t.transferType = .REVERSAL ∧
      effectiveType db t = .CAPITAL_CALL ∧ within t.period), ∀ u ∈ db.transfers.rows.filter
      (fun t => t.transferType = .REVERSAL ∧ effectiveType db t = .CAPITAL_CALL ∧
      within t.period), ∀ o, t.reverses = some o → u.reverses = some o → t = u := by
    intro t ht u hu o hto huo
    exact h.unique t (List.mem_of_mem_filter ht) u (List.mem_of_mem_filter hu) (by rw [hto]; rfl)
      (hto.trans huo.symm)
  generalize db.transfers.rows.filter _ = rows at hnodup hunique
  induction rows with
  | nil => exact List.nodup_nil
  | cons t rows ih =>
    obtain ⟨hnew, hrows⟩ := List.nodup_cons.mp hnodup
    have ih := ih hrows fun t ht u hu =>
      hunique t (List.mem_cons_of_mem _ ht) u (List.mem_cons_of_mem _ hu)
    cases hrev : t.reverses with
    | none => rwa [List.filterMap_cons_none hrev]
    | some o =>
      rw [List.filterMap_cons_some hrev]
      refine List.nodup_cons.mpr ⟨fun hmem => ?_, ih⟩
      obtain ⟨u, hu, huo⟩ := List.mem_filterMap.mp hmem
      have hsame := hunique t List.mem_cons_self u (List.mem_cons_of_mem _ hu) o hrev huo
      exact hnew (hsame ▸ hu)

/-- No reversal in the selected periods takes back a call of the others. -/
def Within (db : Db) (within : Uuid → Bool) : Prop :=
  ∀ t ∈ db.transfers, ∀ o ∈ db.transfers, t.reverses = some o.id →
    o.transferType = .CAPITAL_CALL → within t.period → within o.period

/-- **What was taken back was paid in before.** -/
theorem netPaidIn_nonneg (h : ReversalBooks db) {account : Uuid}
    (hcalls : ∀ t ∈ db.transfers, t.transferType = .CAPITAL_CALL → 0 ≤ paidIn db account t.id)
    {within : Uuid → Bool} (hwithin : Within db within) : 0 ≤ netPaidIn db account within := by
  have hsub : callsReversed db within ⊆ callsMade db within := by
    intro i hi
    obtain ⟨t, ht, hti⟩ := List.mem_filterMap.mp hi
    obtain ⟨ht, hkind⟩ := List.mem_filter.mp ht
    obtain ⟨htype, hcall, hin⟩ := of_decide_eq_true hkind
    obtain ⟨o, ho, hto, -, -⟩ := h.target t ht htype
    obtain rfl : i = o.id := Option.some.inj (hti.symm.trans hto)
    have hocall : o.transferType = .CAPITAL_CALL :=
      (effectiveType_reversal ho hto).symm.trans hcall
    refine List.mem_map.mpr ⟨o, List.mem_filter.mpr ⟨ho, decide_eq_true ⟨hocall, ?_⟩⟩, rfl⟩
    exact hwithin t ht o ho hto hocall hin
  refine sub_nonneg.mpr (sumBy_le_of_subset (h.nodup_callsReversed within) hsub fun i hi => ?_)
  obtain ⟨t, ht, rfl⟩ := List.mem_map.mp hi
  obtain ⟨ht, hkind⟩ := List.mem_filter.mp ht
  exact hcalls t ht (of_decide_eq_true hkind).1

/-- **Entries and transfers add up to the same**: the entries that count as
capital calls, in the selected periods. -/
theorem sum_callEntries (h : ReversalBooks db) (books : Books db) (account : Uuid)
    (within : Uuid → Bool) :
    -sumBy Entry.signedBaseAmount (db.entries.rows.filter fun e =>
      isCallOn db account e && (entryPeriod db e).any within) = netPaidIn db account within := by
  let rows := db.entries.rows.filter fun e =>
    isCallOn db account e && (entryPeriod db e).any within
  let counts (t : Transfer) : Prop := effectiveType db t = .CAPITAL_CALL ∧ within t.period
  have hkeys : ∀ e ∈ rows, e.transfer ∈ db.transfers.rows.map Transfer.id := by
    intro e he
    obtain ⟨t, ht, hte⟩ := books.entry_transfer e (List.mem_of_mem_filter he)
    exact List.mem_map.mpr ⟨t, ht, hte⟩
  have hsum := sumBy_groups_of_mem Entry.signedBaseAmount db.transfers.nodup hkeys
  -- the entries of one transfer all count, or none does
  have hone : ∀ t ∈ db.transfers.rows, sumBy Entry.signedBaseAmount
      (group Entry.transfer t.id rows) = if counts t then -paidIn db account t.id else 0 := by
    intro t ht
    have htyped : ∀ e, e.transfer = t.id → entryType db e = some (effectiveType db t) ∧
        entryPeriod db e = some t.period := by
      intro e hte
      have hget : db.transfers.get? e.transfer = some t :=
        Table.get?_eq_some.mpr ⟨ht, hte.symm⟩
      exact ⟨by rw [entryType, hget]; rfl, by rw [entryPeriod, hget]; rfl⟩
    by_cases hc : counts t
    · rw [if_pos hc, paidIn, neg_neg]
      congr 1
      simp only [rows, group, entriesOf, List.filter_filter]
      refine List.filter_congr fun e _ => ?_
      by_cases hte : e.transfer = t.id
      · obtain ⟨htype, hperiod⟩ := htyped e hte
        simp [hte, isCallOn, htype, hperiod, hc.1, hc.2]
      · simp [hte]
    · rw [if_neg hc]
      have hnil : group Entry.transfer t.id rows = [] := by
        refine group_eq_nil fun e he hte => hc ?_
        obtain ⟨-, hcall⟩ := List.mem_filter.mp he
        obtain ⟨htype, hperiod⟩ := htyped e hte
        rw [Bool.and_eq_true, hperiod] at hcall
        refine ⟨?_, hcall.2⟩
        exact Option.some.inj (htype.symm.trans (of_decide_eq_true hcall.1).2)
      rw [hnil]
      rfl
  rw [sumBy_map] at hsum
  show -sumBy _ rows = _
  rw [← hsum, sumBy_congr hone, netPaidIn]
  -- each transfer that counts is a call or a reversal
  have hcalls : sumBy (paidIn db account) (callsMade db within) = sumBy (fun t =>
      if t.transferType = .CAPITAL_CALL ∧ within t.period then paidIn db account t.id else 0)
      db.transfers.rows := by
    rw [callsMade, sumBy_map, sumBy_filter]
    simp only [decide_eq_true_eq]
  have hreversed : sumBy (paidIn db account) (callsReversed db within) = sumBy (fun t =>
      if t.transferType = .REVERSAL ∧ counts t then -paidIn db account t.id else 0)
      db.transfers.rows := by
    have hmap : ∀ l : List Transfer, (∀ t ∈ l, t ∈ db.transfers ∧ t.transferType = .REVERSAL) →
        sumBy (paidIn db account) (l.filterMap Transfer.reverses) =
          sumBy (fun t => -paidIn db account t.id) l := by
      intro l
      induction l with
      | nil => exact fun _ => rfl
      | cons t l ih =>
        intro hl
        obtain ⟨⟨ht, htype⟩, hl⟩ := List.forall_mem_cons.mp hl
        obtain ⟨o, -, hto, -, htaken⟩ := h.target t ht htype
        rw [List.filterMap_cons_some hto, sumBy_cons, sumBy_cons, ih hl, htaken, neg_neg]
    rw [callsReversed, hmap, sumBy_filter]
    · simp only [decide_eq_true_eq, counts]
    · intro t ht
      obtain ⟨ht, hkind⟩ := List.mem_filter.mp ht
      exact ⟨ht, (of_decide_eq_true hkind).1⟩
  rw [hcalls, hreversed]
  have hsplit : ∀ t ∈ db.transfers.rows, (if counts t then -paidIn db account t.id else 0) =
      (if t.transferType = .REVERSAL ∧ counts t then -paidIn db account t.id else 0) +
        -(if t.transferType = .CAPITAL_CALL ∧ within t.period then paidIn db account t.id
          else 0) := by
    intro t ht
    by_cases hkind : t.transferType = .REVERSAL
    · simp [hkind]
    · have heff := h.effectiveType_plain ht hkind
      simp only [hkind, false_and, if_false, zero_add, counts, heff]
      split <;> simp
  rw [sumBy_congr hsplit, sumBy_add]
  have hneg : sumBy (fun t => -(if t.transferType = .CAPITAL_CALL ∧ within t.period then
      paidIn db account t.id else 0)) db.transfers.rows = -sumBy (fun t =>
      if t.transferType = .CAPITAL_CALL ∧ within t.period then paidIn db account t.id else 0)
      db.transfers.rows := sumBy_hom (-AddMonoidHom.id ℤ) _ _
  rw [hneg]
  ring

/-- What has been contributed, over all periods. -/
theorem contributed_eq (h : ReversalBooks db) (books : Books db) (account : Uuid) :
    contributed db account = netPaidIn db account fun _ => true := by
  rw [← h.sum_callEntries books, contributed]
  congr 2
  refine List.filter_congr fun e he => ?_
  obtain ⟨t, ht, hte⟩ := books.entry_transfer e he
  rw [entryPeriod, Table.get?_eq_some.mpr ⟨ht, hte⟩]
  simp [isCallOn]

end ReversalBooks

/-- The selected periods and the others make up the whole. -/
theorem netPaidIn_add_compl {db : Db} (h : ReversalBooks db) (books : Books db) (account : Uuid)
    (within : Uuid → Bool) :
    netPaidIn db account within + netPaidIn db account (fun p => !within p) =
      contributed db account := by
  let calls := db.entries.rows.filter (isCallOn db account)
  have hsplit := sumBy_filter_add Entry.signedBaseAmount
    (fun e => (entryPeriod db e).any within) calls
  have hall : contributed db account = -sumBy Entry.signedBaseAmount calls := rfl
  rw [hall, ← hsplit, neg_add, ← h.sum_callEntries books, ← h.sum_callEntries books]
  congr 3
  · simp only [calls, List.filter_filter, Bool.and_comm]
  · simp only [calls, List.filter_filter]
    refine List.filter_congr fun e he => ?_
    obtain ⟨t, ht, hte⟩ := books.entry_transfer e he
    rw [entryPeriod, Table.get?_eq_some.mpr ⟨ht, hte⟩]
    simp [Bool.and_comm]

/-! ## One posting -/

/-- A reversal takes back a transfer that there is. -/
def KnownReversal (db : Db) (a : Posting) : Prop :=
  a.transferType = .REVERSAL → ∃ o ∈ db.transfers, o.transferType ≠ .REVERSAL ∧
    a.legs = (entriesById db o.id).map flippedLeg ∧ a.reverses = some o.id

theorem Business.knownReversal {db : Db} {a : Posting} (h : Business db a) : KnownReversal db a :=
  h.original

namespace Posted

variable {env : Env} {a : Posting} {db db' : Db} {es : List Entry}

theorem mem_transfers (h : Posted env a db db' es) {t : Transfer} :
    t ∈ db'.transfers ↔ t ∈ db.transfers ∨ t = transferFor env a := by
  rw [← Table.mem_rows, h.transfers_eq, List.mem_append, List.mem_singleton]
  rfl

theorem paidIn_of_mem (h : Posted env a db db' es) (account : Uuid) {t : Transfer}
    (ht : t ∈ db.transfers) : paidIn db' account t.id = paidIn db account t.id := by
  rw [paidIn, paidIn, h.entriesOf_of_mem ht]

theorem paidIn_new (h : Posted env a db db' es) (books : Books db) (account : Uuid) :
    paidIn db' account (transferFor env a).id =
      -sumBy Entry.signedBaseAmount (group Entry.account account es) := by
  rw [paidIn, h.entriesOf_new books]

/-- **The books of the reversals** are kept. -/
theorem reversalBooks (h : Posted env a db db' es) (known : KnownReversal db a)
    (books : Books db) (sound : SoundEntries db) (hr : ReversalBooks db) : ReversalBooks db' := by
  refine ⟨fun t ht hkind => ?_, fun t ht hkind => ?_, fun t ht u hu hsome heq => ?_⟩
  · rcases h.mem_transfers.mp ht with hold | rfl
    · exact hr.plain t hold hkind
    · exact h.reverses_type.resolve_right hkind
  · rcases h.mem_transfers.mp ht with hold | rfl
    · obtain ⟨o, ho, hto, hot, htaken⟩ := hr.target t hold hkind
      refine ⟨o, h.mem_transfers.mpr (.inl ho), hto, hot, fun account => ?_⟩
      rw [h.paidIn_of_mem account hold, h.paidIn_of_mem account ho, htaken]
    · obtain ⟨o, ho, hot, hlegs, hrev⟩ := known hkind
      have hcancels := h.cancels books sound ho hlegs hkind hrev
      refine ⟨o, h.mem_transfers.mpr (.inl ho), hrev, hot, fun account => ?_⟩
      have hbase := hcancels.base account
      rw [paidIn, paidIn, neg_neg, ← add_eq_zero_iff_neg_eq, add_comm]
      exact hbase
  · rcases h.mem_transfers.mp ht with htold | rfl <;> rcases h.mem_transfers.mp hu with huold | rfl
    · exact hr.unique t htold u huold hsome heq
    · have hnew : a.reverses.isSome := by
        rw [heq] at hsome
        exact hsome
      exact absurd ⟨hnew, heq⟩ (h.reverses_fresh t htold)
    · exact absurd ⟨hsome, heq.symm⟩ (h.reverses_fresh u huold)
    · rfl

theorem effectiveType_of_mem (h : Posted env a db db' es) (hr : ReversalBooks db) {t : Transfer}
    (ht : t ∈ db.transfers) : effectiveType db' t = effectiveType db t := by
  by_cases hkind : t.transferType = .REVERSAL
  · obtain ⟨o, ho, hto, -⟩ := hr.target t ht hkind
    rw [ReversalBooks.effectiveType_reversal ho hto,
      ReversalBooks.effectiveType_reversal (h.mem_transfers.mpr (.inl ho)) hto]
  · have hnone := hr.plain t ht hkind
    rw [effectiveType, effectiveType, hnone]
    rfl

theorem callsMade (h : Posted env a db db' es) (within : Uuid → Bool) :
    callsMade db' within = FundLedger.callsMade db within ++
      if a.transferType = .CAPITAL_CALL ∧ within a.period.id then [(transferFor env a).id]
      else [] := by
  rw [FundLedger.callsMade, h.transfers_eq, List.filter_append, List.map_append]
  congr 1
  rw [List.filter_singleton]
  by_cases hcall : a.transferType = .CAPITAL_CALL ∧ within a.period.id
  · have hnew : decide ((transferFor env a).transferType = .CAPITAL_CALL ∧
        within (transferFor env a).period) = true := decide_eq_true hcall
    rw [if_pos hcall, hnew]
    rfl
  · have hnew : decide ((transferFor env a).transferType = .CAPITAL_CALL ∧
        within (transferFor env a).period) = false := decide_eq_false hcall
    rw [if_neg hcall, hnew]
    rfl

theorem sumBy_callsMade (h : Posted env a db db' es) (account : Uuid) (within : Uuid → Bool) :
    sumBy (paidIn db' account) (FundLedger.callsMade db within) =
      sumBy (paidIn db account) (FundLedger.callsMade db within) := by
  refine sumBy_congr fun i hi => ?_
  obtain ⟨t, ht, rfl⟩ := List.mem_map.mp hi
  exact h.paidIn_of_mem account (List.mem_of_mem_filter ht)

/-- What was taken back before is still taken back, and a posting that is not
a reversal takes nothing back. -/
theorem callsReversed (h : Posted env a db db' es) (hr : ReversalBooks db)
    (within : Uuid → Bool) : ∃ new, callsReversed db' within =
      FundLedger.callsReversed db within ++ new ∧
      (∀ i ∈ new, a.reverses = some i ∧ effectiveType db' (transferFor env a) = .CAPITAL_CALL) ∧
      (a.transferType ≠ .REVERSAL → new = []) := by
  refine ⟨([transferFor env a].filter fun t => t.transferType = .REVERSAL ∧
    effectiveType db' t = .CAPITAL_CALL ∧ within t.period).filterMap Transfer.reverses, ?_,
    fun i hi => ?_, fun hkind => ?_⟩
  · rw [FundLedger.callsReversed, h.transfers_eq, List.filter_append, List.filterMap_append]
    congr 2
    refine List.filter_congr fun t ht => ?_
    rw [h.effectiveType_of_mem hr ht]
  · obtain ⟨t, ht, hti⟩ := List.mem_filterMap.mp hi
    obtain ⟨htm, hcall⟩ := List.mem_filter.mp ht
    obtain rfl := List.mem_singleton.mp htm
    exact ⟨hti, (of_decide_eq_true hcall).2.1⟩
  · rw [List.filter_cons_of_neg]
    · rfl
    · simp [transferFor, hkind]

theorem sumBy_callsReversed (h : Posted env a db db' es) (hr : ReversalBooks db) (account : Uuid)
    (within : Uuid → Bool) : sumBy (paidIn db' account) (FundLedger.callsReversed db within) =
      sumBy (paidIn db account) (FundLedger.callsReversed db within) := by
  refine sumBy_congr fun i hi => ?_
  obtain ⟨t, ht, hti⟩ := List.mem_filterMap.mp hi
  obtain ⟨htm, hkind⟩ := List.mem_filter.mp ht
  obtain ⟨o, ho, hto, -⟩ := hr.target t htm (of_decide_eq_true hkind).1
  obtain rfl : i = o.id := Option.some.inj (hti.symm.trans hto)
  exact h.paidIn_of_mem account ho

/-- **A capital call pays in.** -/
theorem netPaidIn_call (h : Posted env a db db' es) (hr : ReversalBooks db)
    (hcall : a.transferType = .CAPITAL_CALL) (account : Uuid) (within : Uuid → Bool) :
    netPaidIn db' account within = netPaidIn db account within +
      if within a.period.id then paidIn db' account (transferFor env a).id else 0 := by
  obtain ⟨new, hrev, -, hnil⟩ := h.callsReversed hr within
  have hkind : a.transferType ≠ .REVERSAL := by
    rw [hcall]
    decide
  rw [netPaidIn, hrev, hnil hkind, List.append_nil, h.sumBy_callsReversed hr, h.callsMade,
    sumBy_append, h.sumBy_callsMade, netPaidIn]
  by_cases hin : within a.period.id
  · rw [if_pos ⟨hcall, hin⟩, if_pos hin, sumBy_cons, sumBy_nil]
    ring
  · rw [if_neg fun hboth => hin hboth.2, if_neg hin, sumBy_nil]
    ring

/-- What is neither a call nor a reversal does not count. -/
theorem netPaidIn_other (h : Posted env a db db' es) (hr : ReversalBooks db)
    (hcall : a.transferType ≠ .CAPITAL_CALL) (hkind : a.transferType ≠ .REVERSAL) (account : Uuid)
    (within : Uuid → Bool) : netPaidIn db' account within = netPaidIn db account within := by
  obtain ⟨new, hrev, -, hnil⟩ := h.callsReversed hr within
  rw [netPaidIn, hrev, hnil hkind, List.append_nil, h.sumBy_callsReversed hr, h.callsMade,
    if_neg fun hboth => hcall hboth.1, List.append_nil, h.sumBy_callsMade, netPaidIn]

/-- **Nothing else does.** -/
theorem netPaidIn_le (h : Posted env a db db' es) (hr : ReversalBooks db)
    (known : KnownReversal db a) (hother : a.transferType ≠ .CAPITAL_CALL) {account : Uuid}
    (hcalls : ∀ t ∈ db.transfers, t.transferType = .CAPITAL_CALL → 0 ≤ paidIn db account t.id)
    (within : Uuid → Bool) : netPaidIn db' account within ≤ netPaidIn db account within := by
  obtain ⟨new, hrev, hnew, hnil⟩ := h.callsReversed hr within
  have htaken : 0 ≤ sumBy (paidIn db' account) new := by
    by_cases hkind : a.transferType = .REVERSAL
    · obtain ⟨o, ho, -, -, hao⟩ := known hkind
      refine sumBy_nonneg fun i hi => ?_
      obtain ⟨hai, heff⟩ := hnew i hi
      obtain rfl : i = o.id := Option.some.inj (hai.symm.trans hao)
      rw [h.paidIn_of_mem account ho]
      refine hcalls o ho ?_
      rw [← heff]
      exact (ReversalBooks.effectiveType_reversal (h.mem_transfers.mpr (.inl ho)) hao).symm
    · rw [hnil hkind, sumBy_nil]
  rw [netPaidIn, hrev, h.callsMade, if_neg fun hboth => hother hboth.1, List.append_nil,
    sumBy_append, h.sumBy_callsMade, h.sumBy_callsReversed hr, netPaidIn]
  exact sub_le_sub_left (le_add_of_nonneg_right htaken) _

end Posted

/-! ## Other changes -/

/-- A change that posts nothing leaves all of this as it is. -/
theorem Keeps.paidIn {db db' : Db} (h : Keeps db db') (account transfer : Uuid) :
    paidIn db' account transfer = FundLedger.paidIn db account transfer := by
  rw [FundLedger.paidIn, FundLedger.paidIn, entriesOf, entriesOf, h.entries]

theorem Keeps.effectiveType {db db' : Db} (h : Keeps db db') (t : Transfer) :
    effectiveType db' t = FundLedger.effectiveType db t := by
  rw [FundLedger.effectiveType, FundLedger.effectiveType, h.transfers]

theorem Keeps.netPaidIn {db db' : Db} (h : Keeps db db') (account : Uuid) (within : Uuid → Bool) :
    netPaidIn db' account within = FundLedger.netPaidIn db account within := by
  have hpaid : FundLedger.paidIn db' account = FundLedger.paidIn db account :=
    funext fun t => h.paidIn account t
  rw [FundLedger.netPaidIn, FundLedger.netPaidIn, hpaid, callsMade, callsMade, callsReversed,
    callsReversed, h.transfers]
  simp only [h.effectiveType]

theorem Keeps.reversalBooks {db db' : Db} (h : Keeps db db') (hr : ReversalBooks db) :
    ReversalBooks db' := by
  refine ⟨?_, ?_, ?_⟩ <;> rw [h.transfers]
  · exact hr.plain
  · intro t ht hkind
    obtain ⟨o, ho, hto, hot, htaken⟩ := hr.target t ht hkind
    exact ⟨o, ho, hto, hot, fun account => by rw [h.paidIn, h.paidIn, htaken]⟩
  · exact hr.unique

theorem Genesis.reversalBooks {db : Db} (h : Genesis db) : ReversalBooks db := by
  have hnone : ∀ t, t ∉ db.transfers := by
    intro t ht
    rw [← Table.mem_rows, h.transfers] at ht
    cases ht
  exact ⟨fun t ht => absurd ht (hnone t), fun t ht => absurd ht (hnone t),
    fun t ht => absurd ht (hnone t)⟩

end FundLedger
