import Mathlib

/-!
# Interleaved sessions

Any number of sessions run over one shared state.  A step is a move of one
session, which may change the shared state and its own local state, or a
change of the environment.  What a session has taken for itself until it is
done, a lock or a key of an index, is a claim; two claims may clash, and a
move can ask that nobody else has a clashing claim.

There are two rules.  `Disciplined.exclusive`: if a new claim is always made
while it is free, the claims of two sessions never clash.  `Sound.run`: an
assertion about the shared state and one session holds in every reachable
state, if the session's own moves establish it and the moves of a session
whose claims do not clash with its own leave it alone.
-/

namespace Lib

open Relation

/-- Sessions in states of type `τ` over a shared state of type `σ`. -/
structure Sessions (P σ τ : Type) where
  shared : σ
  locals : P → τ

/-- How sessions behave.  The first argument of `move` says which claims are
free at the moment. -/
structure Protocol (σ τ δ : Type) where
  claims : τ → δ → Prop
  Clash : δ → δ → Prop
  move : (δ → Prop) → σ → τ → σ → τ → Prop
  environment : σ → σ → Prop

namespace Protocol

variable {P σ τ δ : Type} (M : Protocol σ τ δ)

/-- No session other than `p` has a clashing claim. -/
def Free (locals : P → τ) (p : P) (d : δ) : Prop :=
  ∀ q, q ≠ p → ∀ c, M.claims (locals q) c → ¬M.Clash d c

/-- No claim of the one clashes with a claim of the other. -/
def Apart (t u : τ) : Prop := ∀ d, M.claims t d → ∀ c, M.claims u c → ¬M.Clash d c

/-- The claims of any two sessions are apart. -/
def Exclusive (locals : P → τ) : Prop := ∀ p q, p ≠ q → M.Apart (locals p) (locals q)

/-- Clashing is symmetric, and a new claim is free when it is made. -/
structure Disciplined : Prop where
  symm : ∀ {d c}, M.Clash d c → M.Clash c d
  claimed : ∀ {free s t s' t'}, M.move free s t s' t' → ∀ d, M.claims t' d →
    M.claims t d ∨ free d

section

variable [DecidableEq P]

inductive Step : Sessions P σ τ → Sessions P σ τ → Prop
  | move {s : Sessions P σ τ} {p : P} {shared' : σ} {t' : τ}
      (moved : M.move (M.Free s.locals p) s.shared (s.locals p) shared' t') :
      Step s ⟨shared', Function.update s.locals p t'⟩
  | environment {s : Sessions P σ τ} {shared' : σ} (changed : M.environment s.shared shared') :
      Step s ⟨shared', s.locals⟩

abbrev Run : Sessions P σ τ → Sessions P σ τ → Prop := ReflTransGen M.Step

end

variable {M}

theorem Apart.symm (hd : M.Disciplined) {t u : τ} (h : M.Apart t u) : M.Apart u t :=
  fun c hc d hdc hclash => h d hdc c hc (hd.symm hclash)

/-- What a moving session ends up with is apart from any other session. -/
theorem Disciplined.apart (hd : M.Disciplined) {locals : P → τ} (hex : M.Exclusive locals)
    {p q : P} (hqp : q ≠ p) {s s' : σ} {t' : τ}
    (moved : M.move (M.Free locals p) s (locals p) s' t') : M.Apart t' (locals q) := by
  intro d hdt c hc
  rcases hd.claimed moved d hdt with hold | hfree
  · exact hex p q hqp.symm d hold c hc
  · exact hfree q hqp c hc

/-- **Mutual exclusion**: one step keeps the claims apart. -/
theorem Disciplined.exclusive [DecidableEq P] (hd : M.Disciplined) {s s' : Sessions P σ τ}
    (hex : M.Exclusive s.locals) (hstep : M.Step s s') : M.Exclusive s'.locals := by
  cases hstep with
  | environment changed => exact hex
  | @move p shared' t' moved =>
    intro q r hqr
    dsimp only
    by_cases hq : q = p
    · subst hq
      rw [Function.update_self, Function.update_of_ne hqr.symm]
      exact hd.apart hex hqr.symm moved
    · rw [Function.update_of_ne hq]
      by_cases hr : r = p
      · subst hr
        rw [Function.update_self]
        exact (hd.apart hex hq moved).symm hd
      · rw [Function.update_of_ne hr]
        exact hex q r hqr

/-! ## Assertions -/

variable (M)

/-- What has to be shown of an assertion about the shared state, and one about
the shared state and a session. -/
structure Sound (Global : σ → Prop) (Local : σ → τ → Prop) : Prop where
  /-- a move of the session itself -/
  own : ∀ {free s t s' t'}, M.move free s t s' t' → Global s → Local s t →
    Global s' ∧ Local s' t'
  /-- a move of another session, from `t` to `t'` -/
  other : ∀ {free s t s' t' u}, M.move free s t s' t' → Global s → Local s t → M.Apart t u →
    M.Apart t' u → Local s u → Local s' u
  environment : ∀ {s s'}, M.environment s s' → Global s →
    Global s' ∧ ∀ {t}, Local s t → Local s' t

/-- What has to be shown of further assertions, on top of sound ones. -/
structure SoundOver (Global : σ → Prop) (Local : σ → τ → Prop) (Global' : σ → Prop)
    (Local' : σ → τ → Prop) : Prop where
  own : ∀ {free s t s' t'}, M.move free s t s' t' → Global s → Local s t → Global' s →
    Local' s t → Global' s' ∧ Local' s' t'
  other : ∀ {free s t s' t' u}, M.move free s t s' t' → Global s → Local s t → Global' s →
    Local' s t → M.Apart t u → Local s u → Local' s u → Local' s' u
  environment : ∀ {s s'}, M.environment s s' → Global s → Global' s →
    Global' s' ∧ ∀ {t}, Local s t → Local' s t → Local' s' t

/-- Both together are sound. -/
theorem SoundOver.sound {M : Protocol σ τ δ} {Global Global' : σ → Prop}
    {Local Local' : σ → τ → Prop} (h : M.SoundOver Global Local Global' Local')
    (base : M.Sound Global Local) :
    M.Sound (fun s => Global s ∧ Global' s) fun s t => Local s t ∧ Local' s t := by
  constructor
  · intro free s t s' t' moved hs ht
    obtain ⟨hs', ht'⟩ := base.own moved hs.1 ht.1
    obtain ⟨hover, hover'⟩ := h.own moved hs.1 ht.1 hs.2 ht.2
    exact ⟨⟨hs', hover⟩, ht', hover'⟩
  · intro free s t s' t' u moved hs ht apart apart' hu
    exact ⟨base.other moved hs.1 ht.1 apart apart' hu.1,
      h.other moved hs.1 ht.1 hs.2 ht.2 apart hu.1 hu.2⟩
  · intro s s' changed hs
    obtain ⟨hs', hbase⟩ := base.environment changed hs.1
    obtain ⟨hover, hover'⟩ := h.environment changed hs.1 hs.2
    exact ⟨⟨hs', hover⟩, fun ht => ⟨hbase ht.1, hover' ht.1 ht.2⟩⟩

variable {M}

/-- The assertions hold, and the claims are apart. -/
structure Holding (M : Protocol σ τ δ) (Global : σ → Prop) (Local : σ → τ → Prop)
    (s : Sessions P σ τ) : Prop where
  exclusive : M.Exclusive s.locals
  shared : Global s.shared
  each : ∀ p, Local s.shared (s.locals p)

variable {Global : σ → Prop} {Local : σ → τ → Prop} [DecidableEq P]

/-- **One step** keeps sound assertions. -/
theorem Sound.step (h : M.Sound Global Local) (hd : M.Disciplined) {s s' : Sessions P σ τ}
    (hs : Holding M Global Local s) (hstep : M.Step s s') : Holding M Global Local s' := by
  refine ⟨hd.exclusive hs.exclusive hstep, ?_, ?_⟩
  · cases hstep with
    | move moved => exact (h.own moved hs.shared (hs.each _)).1
    | environment changed => exact (h.environment changed hs.shared).1
  · cases hstep with
    | environment changed => exact fun p => (h.environment changed hs.shared).2 (hs.each p)
    | @move p shared' t' moved =>
      intro q
      dsimp only
      by_cases hq : q = p
      · subst hq
        rw [Function.update_self]
        exact (h.own moved hs.shared (hs.each q)).2
      · rw [Function.update_of_ne hq]
        exact h.other moved hs.shared (hs.each p) (hs.exclusive p q (Ne.symm hq))
          (hd.apart hs.exclusive hq moved) (hs.each q)

/-- **A whole run** keeps sound assertions. -/
theorem Sound.run (h : M.Sound Global Local) (hd : M.Disciplined) {s s' : Sessions P σ τ}
    (hs : Holding M Global Local s) (hrun : M.Run s s') : Holding M Global Local s' := by
  induction hrun with
  | refl => exact hs
  | tail _ hlast ih => exact h.step hd ih hlast

end Protocol

end Lib
