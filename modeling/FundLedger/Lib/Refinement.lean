import FundLedger.Lib.Interleaving

/-!
# Sessions with more state

Two more rules for interleaved sessions.

* A protocol may be another one with more local state, that `f` forgets.  What
  holds of the other one then holds of it (`Refinement.run`,
  `Refinement.sound`).
* An assertion about two sessions holds of any two, if the moves of either one
  keep it (`SoundBetween.run`).
-/

namespace Lib

open Relation

/-- The sessions without a part of their state. -/
def Sessions.map {P σ τ υ : Type} (f : υ → τ) (s : Sessions P σ υ) : Sessions P σ τ :=
  ⟨s.shared, fun p => f (s.locals p)⟩

namespace Protocol

variable {P σ τ υ δ : Type}

/-- `N` is `M` with more local state, that `f` forgets. -/
structure Refinement (N : Protocol σ υ δ) (M : Protocol σ τ δ) (f : υ → τ) : Prop where
  claims : ∀ u d, N.claims u d ↔ M.claims (f u) d
  clash : ∀ d c, N.Clash d c ↔ M.Clash d c
  move : ∀ {free s u s' u'}, N.move free s u s' u' → M.move free s (f u) s' (f u')
  environment : ∀ {s s'}, N.environment s s' → M.environment s s'

namespace Refinement

variable {N : Protocol σ υ δ} {M : Protocol σ τ δ} {f : υ → τ}

theorem apart_iff (h : Refinement N M f) (u v : υ) : N.Apart u v ↔ M.Apart (f u) (f v) := by
  unfold Protocol.Apart
  simp only [h.claims, h.clash]

theorem free_eq (h : Refinement N M f) (locals : P → υ) (p : P) :
    N.Free locals p = M.Free (fun q => f (locals q)) p := by
  funext d
  unfold Protocol.Free
  simp only [h.claims, h.clash]

theorem disciplined (h : Refinement N M f) (hd : M.Disciplined) : N.Disciplined := by
  constructor
  · intro d c hclash
    exact (h.clash c d).mpr (hd.symm ((h.clash d c).mp hclash))
  · intro free s u s' u' moved d hclaim
    rw [h.claims] at hclaim ⊢
    exact hd.claimed (h.move moved) d hclaim

/-- **Sound assertions** stay sound. -/
theorem sound (h : Refinement N M f) {Global : σ → Prop} {Local : σ → τ → Prop}
    (hs : M.Sound Global Local) : N.Sound Global fun s u => Local s (f u) := by
  constructor
  · intro free s u s' u' moved hglobal hlocal
    exact hs.own (h.move moved) hglobal hlocal
  · intro free s u s' u' v moved hglobal hlocal apart apart' hv
    exact hs.other (h.move moved) hglobal hlocal ((h.apart_iff u v).mp apart)
      ((h.apart_iff u' v).mp apart') hv
  · intro s s' changed hglobal
    obtain ⟨hglobal', hlocals⟩ := hs.environment (h.environment changed) hglobal
    exact ⟨hglobal', fun hu => hlocals hu⟩

variable [DecidableEq P]

theorem step (h : Refinement N M f) {s s' : Sessions P σ υ} (hstep : N.Step s s') :
    M.Step (s.map f) (s'.map f) := by
  cases hstep with
  | environment changed => exact .environment (h.environment changed)
  | @move p shared' u' moved =>
    rw [h.free_eq] at moved
    have hupdate : (fun q => f (Function.update s.locals p u' q)) =
        Function.update (fun q => f (s.locals q)) p (f u') := by
      funext q
      by_cases hq : q = p
      · subst hq
        rw [Function.update_self, Function.update_self]
      · rw [Function.update_of_ne hq, Function.update_of_ne hq]
    show M.Step (s.map f) ⟨shared', fun q => f (Function.update s.locals p u' q)⟩
    rw [hupdate]
    exact .move (h.move moved)

/-- **A run** is a run of the protocol with less state. -/
theorem run (h : Refinement N M f) {s s' : Sessions P σ υ} (hrun : N.Run s s') :
    M.Run (s.map f) (s'.map f) := by
  induction hrun with
  | refl => exact .refl
  | tail _ hlast ih => exact ih.tail (h.step hlast)

end Refinement

/-! ## Two sessions -/

/-- What has to be shown of an assertion about two sessions, on top of sound
ones. -/
structure SoundBetween (M : Protocol σ τ δ) (Global : σ → Prop) (Local : σ → τ → Prop)
    (Between : τ → τ → Prop) : Prop where
  symm : ∀ {t u}, Between t u → Between u t
  move : ∀ {free s t s' t' u}, M.move free s t s' t' → Global s → Local s t → Local s u →
    M.Apart t u → Between t u → Between t' u

variable {M : Protocol σ τ δ} {Global : σ → Prop} {Local : σ → τ → Prop} {Between : τ → τ → Prop}
  [DecidableEq P] {s s' : Sessions P σ τ}

theorem SoundBetween.step (h : M.SoundBetween Global Local Between)
    (hs : Holding M Global Local s) (hb : ∀ p q, p ≠ q → Between (s.locals p) (s.locals q))
    (hstep : M.Step s s') : ∀ p q, p ≠ q → Between (s'.locals p) (s'.locals q) := by
  cases hstep with
  | environment changed => exact hb
  | @move p shared' t' moved =>
    have hmoved : ∀ q, q ≠ p → Between t' (s.locals q) := fun q hq =>
      h.move moved hs.shared (hs.each p) (hs.each q) (hs.exclusive p q hq.symm) (hb p q hq.symm)
    intro q r hqr
    dsimp only
    by_cases hq : q = p
    · subst hq
      rw [Function.update_self, Function.update_of_ne hqr.symm]
      exact hmoved r hqr.symm
    · rw [Function.update_of_ne hq]
      by_cases hr : r = p
      · subst hr
        rw [Function.update_self]
        exact h.symm (hmoved q hq)
      · rw [Function.update_of_ne hr]
        exact hb q r hqr

/-- **A whole run** keeps the assertion between any two sessions. -/
theorem SoundBetween.run (h : M.SoundBetween Global Local Between) (base : M.Sound Global Local)
    (hd : M.Disciplined) (hs : Holding M Global Local s)
    (hb : ∀ p q, p ≠ q → Between (s.locals p) (s.locals q)) (hrun : M.Run s s') :
    ∀ p q, p ≠ q → Between (s'.locals p) (s'.locals q) := by
  induction hrun with
  | refl => exact hb
  | tail hbefore hlast ih => exact h.step (base.run hd hs hbefore) ih hlast

end Protocol

end Lib
