import FundLedger.Lib.Checks
import FundLedger.Lib.Table
import FundLedger.Lib.Tx

/-!
# Running against a part of the store

`π : σ → τ` is what an observer sees of a store.  `Mirrors π s m m'` says that
`m'`, run on what the observer sees of `s`, ends as `m` does on `s` and leaves
what the observer sees of the store that `m` leaves.  When `m` and `m'` are one
program, neither its answer nor its visible effect depends on the rest of the
store; `Mirrors.two_run` is that statement, for two stores that look the same.

* One rule for each way to build a computation.  A check mirrors a check with
  the same outcome (`Mirrors.lift`), a statement one that is refused in the same
  way (`Mirrors.statement`), and a sequence is taken apart by `Mirrors.bind`,
  which keeps what is known of the store in between.
* Tables.  A part of a table answers the queries that find only rows of it
  (`filter_restrict`), and takes a new row as the whole does, as long as the key
  is not in use anywhere (`insert_restrict`).
-/

namespace Lib

/-- After a check that passed, its outcome is known. -/
theorem except_bind_congr {ε α β : Type} {x : Except ε α} {f g : α → Except ε β}
    (h : ∀ a, x = .ok a → f a = g a) : x >>= f = x >>= g := by
  cases x with
  | error e => rfl
  | ok a => exact h a rfl

/-- The same checks, one by one. -/
theorem forM_except_congr {ε α : Type} {f g : α → Except ε Unit} {l : List α}
    (h : ∀ a ∈ l, f a = g a) : l.forM f = l.forM g := by
  induction l with
  | nil => rfl
  | cons a l ih =>
    show (f a >>= fun _ => l.forM f) = (g a >>= fun _ => l.forM g)
    obtain ⟨ha, hl⟩ := List.forall_mem_cons.mp h
    rw [ha, ih hl]

theorem require_congr {ε : Type} {p p' : Prop} [Decidable p] [Decidable p'] {e : ε} (h : p' ↔ p) :
    require p' e = require p e := by
  unfold require
  simp only [h]

/-- A check that means the same, and then continuations that agree up to `f`. -/
theorem require_bind_map {ε β γ : Type} {p p' : Prop} [Decidable p] [Decidable p'] {e : ε}
    {f : β → γ} {g : Unit → Except ε β} {g' : Unit → Except ε γ} (hp : p' ↔ p)
    (hg : p → g' () = f <$> g ()) :
    require p' e >>= g' = f <$> (require p e >>= g) := by
  by_cases h : p
  · rw [require_eq_ok.mpr h, require_eq_ok.mpr (hp.mpr h)]
    exact hg h
  · rw [require_eq_error.mpr ⟨h, rfl⟩, require_eq_error.mpr ⟨mt hp.mp h, rfl⟩]
    rfl

/-- A lookup whose outcome differs by `h`, and then continuations that agree up to `f`. -/
theorem orRaise_bind_map {ε α α' β γ : Type} {x : Option α} {x' : Option α'} {h : α → α'} {e : ε}
    {f : β → γ} {g : α → Except ε β} {g' : α' → Except ε γ} (hx : x' = x.map h)
    (hg : ∀ a, x = some a → g' (h a) = f <$> g a) :
    orRaise x' e >>= g' = f <$> (orRaise x e >>= g) := by
  subst hx
  cases x with
  | none => rfl
  | some a => exact hg a rfl

namespace Tx

variable {σ τ ε ε' α β : Type}

/-- Rename the exceptions. -/
def mapError (f : ε → ε') (m : Tx σ ε α) : Tx σ ε' α := fun s =>
  match m s with
  | (.ok a, s₁) => (.ok a, s₁)
  | (.error e, s₁) => (.error (f e), s₁)

theorem mapError_snd (f : ε → ε') (m : Tx σ ε α) (s : σ) : (mapError f m s).2 = (m s).2 := by
  unfold mapError
  rcases m s with ⟨_ | _, _⟩ <;> rfl

theorem mapError_ok {f : ε → ε'} {m : Tx σ ε α} {s s' : σ} {a : α} :
    mapError f m s = (.ok a, s') ↔ m s = (.ok a, s') := by
  unfold mapError
  rcases m s with ⟨_ | _, _⟩ <;> simp

theorem mapError_error {f : ε → ε'} {m : Tx σ ε α} {s s' : σ} {e : ε'} :
    mapError f m s = (.error e, s') ↔ ∃ e₀, m s = (.error e₀, s') ∧ f e₀ = e := by
  unfold mapError
  rcases m s with ⟨e₀ | _, _⟩ <;> simp [and_comm]

theorem readOnly_mapError {f : ε → ε'} {m : Tx σ ε α} (h : ReadOnly m) : ReadOnly (mapError f m) :=
  fun s => (mapError_snd f m s).trans (h s)

theorem FailSafe.mapError {f : ε → ε'} {m : Tx σ ε α} (h : FailSafe m) :
    FailSafe (Tx.mapError f m) := by
  intro s e s' hrun
  obtain ⟨e₀, he, -⟩ := mapError_error.mp hrun
  exact h s e₀ s' he

/-- `m'` does on the image of `s` what `m` does on `s`. -/
def Mirrors (π : σ → τ) (s : σ) (m : Tx σ ε α) (m' : Tx τ ε α) : Prop :=
  m' (π s) = ((m s).1, π (m s).2)

namespace Mirrors

variable {π : σ → τ} {s : σ}

theorem of_run {m : Tx σ ε α} {m' : Tx τ ε α} (h : Mirrors π s m m') {r : Except ε α} {s₁ : σ}
    (hr : m s = (r, s₁)) : m' (π s) = (r, π s₁) := by
  rw [h, hr]

theorem pure (a : α) : Mirrors π s (Pure.pure a : Tx σ ε α) (Pure.pure a) := rfl

theorem throw (e : ε) : Mirrors π s (MonadExcept.throw e : Tx σ ε α) (MonadExcept.throw e) := rfl

theorem lift {x x' : Except ε α} (h : x' = x) :
    Mirrors π s (Tx.lift x : Tx σ ε α) (Tx.lift x') := by
  subst h
  rfl

theorem bind {m : Tx σ ε α} {m' : Tx τ ε α} {f : α → Tx σ ε β} {f' : α → Tx τ ε β}
    (hm : Mirrors π s m m')
    (hf : ∀ a s₁, m s = (.ok a, s₁) → Mirrors π s₁ (f a) (f' a)) :
    Mirrors π s (m >>= f) (m' >>= f') := by
  show (m' >>= f') (π s) = _
  rw [bind_apply, bind_apply, hm]
  rcases hs : m s with ⟨e | a, s₁⟩
  · rfl
  · exact hf a s₁ hs

/-- Reading hands the program the store on one side and its image on the other. -/
theorem read_bind {f : σ → Tx σ ε β} {f' : τ → Tx τ ε β} (h : Mirrors π s (f s) (f' (π s))) :
    Mirrors π s (read >>= f) (read >>= f') := h

/-- After a check that passed, its outcome is known. -/
theorem lift_bind {x x' : Except ε α} {f : α → Tx σ ε β} {f' : α → Tx τ ε β} (h : x' = x)
    (hf : ∀ a, x = .ok a → Mirrors π s (f a) (f' a)) :
    Mirrors π s (Tx.lift x >>= f) (Tx.lift x' >>= f') := by
  refine bind (lift h) fun a s₁ hrun => ?_
  obtain ⟨hx, hs⟩ := lift_eq.mp hrun
  subst hs
  exact hf a hx.symm

theorem statement {f : σ → Except ε σ} {f' : τ → Except ε τ} (h : f' (π s) = π <$> f s) :
    Mirrors π s (Tx.statement f) (Tx.statement f') := by
  show Tx.statement f' (π s) = _
  unfold Tx.statement
  rw [h]
  cases f s <;> rfl

theorem atomic {m : Tx σ ε α} {m' : Tx τ ε α} (h : Mirrors π s m m') :
    Mirrors π s (Tx.atomic m) (Tx.atomic m') := by
  show Tx.atomic m' (π s) = _
  unfold Tx.atomic
  rw [h]
  rcases m s with ⟨e | a, s₁⟩ <;> rfl

theorem tryCatch {m : Tx σ ε α} {m' : Tx τ ε α} {f : ε → Tx σ ε α} {f' : ε → Tx τ ε α}
    (hm : Mirrors π s m m') (hf : ∀ e s₁, m s = (.error e, s₁) → Mirrors π s₁ (f e) (f' e)) :
    Mirrors π s (MonadExcept.tryCatch m f) (MonadExcept.tryCatch m' f') := by
  show (match m' (π s) with
    | (.ok a, s₁) => (Except.ok a, s₁)
    | (.error e, s₁) => f' e s₁) = (_, π (match m s with
    | (.ok a, s₁) => (Except.ok a, s₁)
    | (.error e, s₁) => f e s₁).2)
  rw [hm]
  show _ = ((match m s with
    | (.ok a, s₁) => (Except.ok a, s₁)
    | (.error e, s₁) => f e s₁).1, _)
  rcases hs : m s with ⟨e | a, s₁⟩
  · exact hf e s₁ hs
  · rfl

theorem mapError {f : ε → ε'} {m : Tx σ ε α} {m' : Tx τ ε α} (h : Mirrors π s m m') :
    Mirrors π s (Tx.mapError f m) (Tx.mapError f m') := by
  show Tx.mapError f m' (π s) = _
  unfold Tx.mapError
  rw [h]
  rcases m s with ⟨e | a, s₁⟩ <;> rfl

/-- **Two runs.**  A program that mirrors itself answers the same on two stores
that look the same, and leaves two that look the same. -/
theorem two_run {m : Tx σ ε α} {m' : Tx τ ε α} {s₁ s₂ : σ} (h₁ : Mirrors π s₁ m m')
    (h₂ : Mirrors π s₂ m m') (h : π s₁ = π s₂) :
    (m s₁).1 = (m s₂).1 ∧ π (m s₁).2 = π (m s₂).2 := by
  have hrun : ((m s₁).1, π (m s₁).2) = ((m s₂).1, π (m s₂).2) := by
    rw [← h₁, ← h₂, h]
  exact Prod.mk.inj hrun

end Mirrors

end Tx

/-! ## Tables -/

namespace Table

variable {α κ : Type} {key : α → κ}

theorem restrict_congr {t : Table α key} {p q : α → Bool} (h : ∀ r ∈ t, p r = q r) :
    t.restrict p = t.restrict q :=
  ext (List.filter_congr h)

/-- Rows that are hidden do not show. -/
theorem restrict_append_hidden {t t' : Table α key} {p : α → Bool} {l : List α}
    (hrows : t'.rows = t.rows ++ l) (hidden : ∀ r ∈ l, p r = false) :
    t'.restrict p = t.restrict p := by
  refine ext ?_
  have hnil : l.filter p = [] := List.filter_eq_nil_iff.mpr fun r hr => by simp [hidden r hr]
  rw [rows_restrict, rows_restrict, hrows, List.filter_append, hnil, List.append_nil]

/-- An update of no row. -/
theorem update_eq_self {t : Table α key} {q : α → Bool} {f : α → α} {hf : ∀ r, key (f r) = key r}
    (h : ∀ r ∈ t, q r = false) : t.update q f hf = t := by
  refine ext ?_
  rw [rows_update, List.map_congr_left (g := id) fun r hr => by rw [h r hr]; rfl, List.map_id]

/-- A query that finds only rows that are seen finds the same ones in the part. -/
theorem filter_restrict {t : Table α key} {p q q' : α → Bool} (hseen : ∀ r ∈ t, q r = true → p r = true)
    (hsame : ∀ r ∈ t, p r = true → q' r = q r) :
    (t.restrict p).rows.filter q' = t.rows.filter q := by
  rw [rows_restrict, List.filter_filter]
  refine List.filter_congr fun r hr => ?_
  by_cases hp : p r = true
  · rw [hp, Bool.and_true, hsame r hr hp]
  · have hq : q r = false := Bool.eq_false_iff.mpr fun hq => hp (hseen r hr hq)
    rw [Bool.eq_false_iff.mpr hp, hq, Bool.and_false]

theorem find?_restrict {t : Table α key} {p q : α → Bool} (hseen : ∀ r ∈ t, q r = true → p r = true) :
    (t.restrict p).rows.find? q = t.rows.find? q := by
  rw [← List.head?_filter, ← List.head?_filter, filter_restrict hseen fun _ _ _ => rfl]

/-- A condition on all rows that hidden rows meet is one on the rows of the part. -/
theorem forall_restrict {t : Table α key} {p : α → Bool} {P : α → Prop}
    (hidden : ∀ r ∈ t, ¬P r → p r = true) :
    (∀ r ∈ (t.restrict p).rows, P r) ↔ ∀ r ∈ t.rows, P r := by
  refine ⟨fun h r hr => ?_, fun h r hr => h r (mem_restrict.mp hr).1⟩
  by_contra hP
  exact hP (h r (mem_restrict.mpr ⟨hr, hidden r hr hP⟩))

/-- So is the existence of a row that is seen. -/
theorem exists_restrict {t : Table α key} {p : α → Bool} {P : α → Prop}
    (seen : ∀ r ∈ t, P r → p r = true) :
    (∃ r ∈ (t.restrict p).rows, P r) ↔ ∃ r ∈ t.rows, P r := by
  constructor
  · rintro ⟨r, hr, hP⟩
    exact ⟨r, (mem_restrict.mp hr).1, hP⟩
  · rintro ⟨r, hr, hP⟩
    exact ⟨r, mem_restrict.mpr ⟨hr, seen r hr hP⟩, hP⟩

/-- An update that does not change what is seen. -/
theorem restrict_update {t : Table α key} {p q : α → Bool} {f : α → α}
    {hf : ∀ r, key (f r) = key r} (hp : ∀ r, p (f r) = p r) :
    (t.update q f hf).restrict p = (t.restrict p).update q f hf := by
  refine ext ?_
  rw [rows_restrict, rows_update, rows_update, rows_restrict, List.filter_map]
  congr 1
  refine List.filter_congr fun r _ => ?_
  show p (if q r then f r else r) = p r
  split
  · exact hp r
  · rfl

variable [DecidableEq κ]

/-- A lookup that finds nothing, or a row that is seen. -/
theorem get?_restrict_of_seen {t : Table α key} {p : α → Bool} {k : κ}
    (hseen : ∀ r ∈ t, key r = k → p r = true) : (t.restrict p).get? k = t.get? k :=
  find?_restrict fun r hr hk => hseen r hr (of_decide_eq_true hk)

/-- A row that is seen, and whose key no hidden row has, is inserted in the part
as it is in the whole. -/
theorem insert_restrict {t : Table α key} {p : α → Bool} {r : α} (hp : p r = true)
    (hkey : ∀ s ∈ t, key s = key r → p s = true) :
    (t.restrict p).insert r = (t.insert r).map (restrict · p) := by
  cases h : t.insert r with
  | none =>
    obtain ⟨s, hs, hk⟩ := insert_eq_none.mp h
    exact insert_eq_none.mpr ⟨s, mem_restrict.mpr ⟨hs, hkey s hs hk⟩, hk⟩
  | some t' =>
    obtain ⟨hfresh, hrows⟩ := insert_eq_some.mp h
    rw [Option.map_some, insert_eq_some]
    refine ⟨fun s hs => hfresh s (mem_restrict.mp hs).1, ?_⟩
    rw [rows_restrict, rows_restrict, hrows, List.filter_append]
    simp [hp]

end Table

end Lib
