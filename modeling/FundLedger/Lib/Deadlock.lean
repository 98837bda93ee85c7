import FundLedger.Lib.Interleaving

/-!
# Waiting without a cycle

A session waits for another one if it wants something that clashes with a claim
of the other.  If what can be wanted is ranked, and each session only wants what
ranks above all its claims, nobody waits in a circle (`no_cycle`); and of
finitely many sessions some one at the end of each chain of waiting waits for
nobody (`exists_free`).
-/

namespace Lib

namespace Protocol

open Relation

variable {P σ τ δ R : Type} [Preorder R] {M : Protocol σ τ δ}

/-- `p` waits for `q`. -/
def Waits (M : Protocol σ τ δ) (wants : τ → δ → Prop) (locals : P → τ) (p q : P) : Prop :=
  p ≠ q ∧ ∃ d, wants (locals p) d ∧ ∃ c, M.claims (locals q) c ∧ M.Clash d c

/-- Only what ranks above all claims is wanted, but for what the session has. -/
def Climbs (M : Protocol σ τ δ) (rank : δ → R) (wants : τ → δ → Prop) (t : τ) : Prop :=
  ∀ d, wants t d → ¬M.claims t d → ∀ c, M.claims t c → rank c < rank d

variable {rank : δ → R} {wants : τ → δ → Prop} {locals : P → τ}

/-- Along a chain of waiting the ranks go up. -/
theorem rank_le_of_waits (hrank : ∀ d c, M.Clash d c → rank d = rank c)
    (hex : M.Exclusive locals) (hclimbs : ∀ p, M.Climbs rank wants (locals p)) {p q : P}
    (h : TransGen (M.Waits wants locals) p q) :
    ∃ d c, wants (locals p) d ∧ ¬M.claims (locals p) d ∧ M.claims (locals q) c ∧
      rank d ≤ rank c := by
  -- whoever has something does not wait for it
  have hwaits : ∀ {p q}, M.Waits wants locals p q → ∃ d c, wants (locals p) d ∧
      ¬M.claims (locals p) d ∧ M.claims (locals q) c ∧ rank d = rank c := by
    rintro p q ⟨hne, d, hd, c, hc, hclash⟩
    exact ⟨d, c, hd, fun hclaim => hex p q hne d hclaim c hc hclash, hc, hrank d c hclash⟩
  induction h with
  | single hfirst =>
    obtain ⟨d, c, hd, hnot, hc, hdc⟩ := hwaits hfirst
    exact ⟨d, c, hd, hnot, hc, hdc.le⟩
  | tail _ hlast ih =>
    obtain ⟨d, c, hd, hnot, hc, hdc⟩ := ih
    obtain ⟨d', c', hd', hnot', hc', hdc'⟩ := hwaits hlast
    have hup : rank c < rank d' := hclimbs _ d' hd' hnot' c hc
    exact ⟨d, c', hd, hnot, hc', (hdc.trans hup.le).trans hdc'.le⟩

/-- **Nobody waits in a circle.** -/
theorem no_cycle (hrank : ∀ d c, M.Clash d c → rank d = rank c) (hex : M.Exclusive locals)
    (hclimbs : ∀ p, M.Climbs rank wants (locals p)) (p : P) :
    ¬TransGen (M.Waits wants locals) p p := by
  intro h
  obtain ⟨d, c, hd, hnot, hc, hle⟩ := rank_le_of_waits hrank hex hclimbs h
  exact (hclimbs p d hd hnot c hc).not_ge hle

/-- **Somebody does not wait**: each chain of waiting of finitely many sessions
has an end. -/
theorem exists_free [Finite P] (hrank : ∀ d c, M.Clash d c → rank d = rank c)
    (hex : M.Exclusive locals) (hclimbs : ∀ p, M.Climbs rank wants (locals p)) (p : P) :
    ∃ q, ReflTransGen (M.Waits wants locals) p q ∧ ∀ d, wants (locals q) d → M.Free locals q d := by
  let above : P → P → Prop := fun q p => TransGen (M.Waits wants locals) p q
  have : IsTrans P above := ⟨fun _ _ _ hqp hpr => hpr.trans hqp⟩
  have : Std.Irrefl above := ⟨fun p => no_cycle hrank hex hclimbs p⟩
  have hwf : WellFounded above := Finite.wellFounded_of_trans_of_irrefl _
  induction p using hwf.induction with
  | h p ih =>
    by_cases hwaits : ∃ q, M.Waits wants locals p q
    · obtain ⟨q, hq⟩ := hwaits
      obtain ⟨r, hqr, hfree⟩ := ih q (.single hq)
      exact ⟨r, .head hq hqr, hfree⟩
    · refine ⟨p, .refl, fun d hd q hq c hc hclash => hwaits ⟨q, hq.symm, d, hd, c, hc, hclash⟩⟩

end Protocol

end Lib
