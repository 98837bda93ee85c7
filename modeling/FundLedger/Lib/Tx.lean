import Mathlib

/-!
# Transactional computations

`Tx σ ε α` is a computation that reads and writes a store `σ` and ends with a
value or with an exception.  An exception does not undo anything by itself:
the store it leaves behind is part of the result, so a write that was made
outside a transaction block survives the exception.  `atomic` is the block
that undoes.

There are three groups.

* The computations: reading, lifting a pure check, a statement that may be
  refused, and `atomic`.
* Inversion.  For each of them, what a run that ended normally did and what a
  run that raised did.  Proofs about a program peel it apart with these and
  never unfold `Tx`.
* Rules.  `Moves R` says that every run, normal or not, relates the store
  before to the store after by `R`; `FailSafe` says that a run that raises
  leaves the store as it was.
-/

namespace Lib

/-- A computation over a store: a value or an exception, and the store. -/
def Tx (σ ε α : Type) : Type := σ → Except ε α × σ

namespace Tx

variable {σ ε α β : Type}

/-! ## Computations -/

instance : Monad (Tx σ ε) where
  pure a := fun s => (.ok a, s)
  bind m f := fun s =>
    match m s with
    | (.ok a, s₁) => f a s₁
    | (.error e, s₁) => (.error e, s₁)

instance : MonadExceptOf ε (Tx σ ε) where
  throw e := fun s => (.error e, s)
  tryCatch m handle := fun s =>
    match m s with
    | (.ok a, s₁) => (.ok a, s₁)
    | (.error e, s₁) => handle e s₁

/-- The store as it is now. -/
def read : Tx σ ε σ := fun s => (.ok s, s)

/-- A check or computation that does not touch the store. -/
def lift (x : Except ε α) : Tx σ ε α := fun s => (x, s)

instance : MonadLift (Except ε) (Tx σ ε) := ⟨lift⟩

/-- One statement: it changes the store, or it is refused and changes
nothing. -/
def statement (f : σ → Except ε σ) : Tx σ ε Unit := fun s =>
  match f s with
  | .ok s₁ => (.ok (), s₁)
  | .error e => (.error e, s)

/-- A transaction block: an exception undoes every write made in it. -/
def atomic (m : Tx σ ε α) : Tx σ ε α := fun s =>
  match m s with
  | (.ok a, s₁) => (.ok a, s₁)
  | (.error e, _) => (.error e, s)

/-! ## Inversion -/

theorem pure_apply (a : α) (s : σ) : (pure a : Tx σ ε α) s = (.ok a, s) := rfl

theorem bind_apply (m : Tx σ ε α) (f : α → Tx σ ε β) (s : σ) :
    (m >>= f) s = match m s with
      | (.ok a, s₁) => f a s₁
      | (.error e, s₁) => (.error e, s₁) := rfl

private theorem map_id_tx {α : Type} (x : Tx σ ε α) : id <$> x = x := by
  funext s
  change (match x s with
    | (.ok a, s₁) => (Except.ok a, s₁)
    | (.error e, s₁) => (Except.error e, s₁)) = x s
  rcases x s with ⟨_ | _, _⟩ <;> rfl

private theorem bind_assoc_tx {α β γ : Type} (x : Tx σ ε α) (f : α → Tx σ ε β)
    (g : β → Tx σ ε γ) : x >>= f >>= g = x >>= fun a => f a >>= g := by
  funext s
  simp only [bind_apply]
  rcases x s with ⟨_ | _, _⟩ <;> rfl

instance : LawfulMonad (Tx σ ε) :=
  LawfulMonad.mk' _ map_id_tx (fun _ _ => rfl) bind_assoc_tx

@[simp] theorem pure_eq {a : α} {s s' : σ} {r : Except ε α} :
    (pure a : Tx σ ε α) s = (r, s') ↔ r = .ok a ∧ s' = s := by
  rw [pure_apply, Prod.mk.injEq, eq_comm (a := r), eq_comm (a := s')]

theorem bind_ok {m : Tx σ ε α} {f : α → Tx σ ε β} {s s' : σ} {b : β} :
    (m >>= f) s = (.ok b, s') ↔ ∃ a s₁, m s = (.ok a, s₁) ∧ f a s₁ = (.ok b, s') := by
  rw [bind_apply]
  rcases m s with ⟨e | a, s₁⟩ <;> simp

theorem bind_error {m : Tx σ ε α} {f : α → Tx σ ε β} {s s' : σ} {e : ε} :
    (m >>= f) s = (.error e, s') ↔
      m s = (.error e, s') ∨ ∃ a s₁, m s = (.ok a, s₁) ∧ f a s₁ = (.error e, s') := by
  rw [bind_apply]
  rcases m s with ⟨e | a, s₁⟩ <;> simp

@[simp] theorem throw_eq {e : ε} {s s' : σ} {r : Except ε α} :
    (throw e : Tx σ ε α) s = (r, s') ↔ r = .error e ∧ s' = s := by
  change ((Except.error e : Except ε α), s) = (r, s') ↔ _
  rw [Prod.mk.injEq, eq_comm (a := r), eq_comm (a := s')]

@[simp] theorem read_eq {s s' : σ} {r : Except ε σ} :
    (read : Tx σ ε σ) s = (r, s') ↔ r = .ok s ∧ s' = s := by
  change ((Except.ok s : Except ε σ), s) = (r, s') ↔ _
  rw [Prod.mk.injEq, eq_comm (a := r), eq_comm (a := s')]

/-- Reading and then continuing is continuing with the store. -/
@[simp] theorem read_bind (f : σ → Tx σ ε β) (s : σ) : ((read : Tx σ ε σ) >>= f) s = f s s := rfl

@[simp] theorem lift_eq {x : Except ε α} {s s' : σ} {r : Except ε α} :
    (lift x : Tx σ ε α) s = (r, s') ↔ r = x ∧ s' = s := by
  change (x, s) = (r, s') ↔ _
  rw [Prod.mk.injEq, eq_comm (a := r), eq_comm (a := s')]

@[simp] theorem liftM_eq {x : Except ε α} {s s' : σ} {r : Except ε α} :
    (liftM x : Tx σ ε α) s = (r, s') ↔ r = x ∧ s' = s :=
  lift_eq

@[simp] theorem monadLift_eq {x : Except ε α} {s s' : σ} {r : Except ε α} :
    (monadLift x : Tx σ ε α) s = (r, s') ↔ r = x ∧ s' = s :=
  lift_eq

@[simp] theorem statement_ok {f : σ → Except ε σ} {s s' : σ} {u : Unit} :
    (statement f : Tx σ ε Unit) s = (.ok u, s') ↔ f s = .ok s' := by
  unfold statement
  cases f s <;> simp

@[simp] theorem statement_error {f : σ → Except ε σ} {s s' : σ} {e : ε} :
    (statement f : Tx σ ε Unit) s = (.error e, s') ↔ f s = .error e ∧ s' = s := by
  unfold statement
  cases f s <;> simp [eq_comm]

@[simp] theorem atomic_ok {m : Tx σ ε α} {s s' : σ} {a : α} :
    atomic m s = (.ok a, s') ↔ m s = (.ok a, s') := by
  unfold atomic
  rcases m s with ⟨e | a, s₁⟩ <;> simp

@[simp] theorem atomic_error {m : Tx σ ε α} {s s' : σ} {e : ε} :
    atomic m s = (.error e, s') ↔ (∃ s₁, m s = (.error e, s₁)) ∧ s' = s := by
  unfold atomic
  rcases m s with ⟨e | a, s₁⟩ <;> simp [eq_comm]

theorem tryCatch_ok {m : Tx σ ε α} {h : ε → Tx σ ε α} {s s' : σ} {a : α} :
    (tryCatch m h) s = (.ok a, s') ↔
      m s = (.ok a, s') ∨ ∃ e s₁, m s = (.error e, s₁) ∧ h e s₁ = (.ok a, s') := by
  change (match m s with | (.ok a, s₁) => (Except.ok a, s₁) | (.error e, s₁) => h e s₁) = _ ↔ _
  rcases m s with ⟨e | a, s₁⟩ <;> simp

theorem tryCatch_error {m : Tx σ ε α} {h : ε → Tx σ ε α} {s s' : σ} {e : ε} :
    (tryCatch m h) s = (.error e, s') ↔
      ∃ e₁ s₁, m s = (.error e₁, s₁) ∧ h e₁ s₁ = (.error e, s') := by
  change (match m s with | (.ok a, s₁) => (Except.ok a, s₁) | (.error e, s₁) => h e s₁) = _ ↔ _
  rcases m s with ⟨e | a, s₁⟩ <;> simp

/-! ## Rules for what every run does to the store -/

/-- Every run of `m`, normal or not, takes the store to an `R`-related one. -/
def Moves (R : σ → σ → Prop) (m : Tx σ ε α) : Prop := ∀ s, R s (m s).2

/-- `m` never changes the store. -/
abbrev ReadOnly (m : Tx σ ε α) : Prop := Moves (fun s s' => s' = s) m

/-- A run of `m` that raises leaves the store as it was. -/
def FailSafe (m : Tx σ ε α) : Prop := ∀ s e s', m s = (.error e, s') → s' = s

/-- One computation after another. -/
theorem bind_rel {R : σ → σ → Prop} (htrans : ∀ a b c, R a b → R b c → R a c)
    {m : Tx σ ε α} {f : α → Tx σ ε β} {s : σ} (hm : R s (m s).2)
    (hf : ∀ a s₁, m s = (.ok a, s₁) → R s₁ (f a s₁).2) : R s ((m >>= f) s).2 := by
  rw [bind_apply]
  rcases hs : m s with ⟨e | a, s₁⟩
  · rwa [hs] at hm
  · rw [hs] at hm
    exact htrans _ _ _ hm (hf a s₁ hs)

theorem statement_rel {R : σ → σ → Prop} {f : σ → Except ε σ} {s : σ} (hrefl : R s s)
    (hf : ∀ s', f s = .ok s' → R s s') : R s ((statement f : Tx σ ε Unit) s).2 := by
  unfold statement
  cases h : f s with
  | ok s' => exact hf s' h
  | error e => exact hrefl

/-- A check that comes first either ends the computation or passes. -/
theorem lift_bind_rel {R : σ → σ → Prop} {x : Except ε α} {f : α → Tx σ ε β} {s : σ}
    (hrefl : R s s) (hf : ∀ a, x = .ok a → R s (f a s).2) : R s ((lift x >>= f) s).2 := by
  rw [bind_apply, lift]
  cases x with
  | error e => exact hrefl
  | ok a => exact hf a rfl

/-- A computation followed by one that only reads. -/
theorem bind_readOnly_snd {m : Tx σ ε α} {f : α → Tx σ ε β} (hf : ∀ a, ReadOnly (f a)) (s : σ) :
    ((m >>= f) s).2 = (m s).2 := by
  rw [bind_apply]
  rcases m s with ⟨e | a, s₁⟩
  · rfl
  · exact hf a s₁

/-- A handler that only reads does not show in the store. -/
theorem tryCatch_snd {m : Tx σ ε α} {h : ε → Tx σ ε α} (hh : ∀ e, ReadOnly (h e)) (s : σ) :
    (MonadExcept.tryCatch m h s).2 = (m s).2 := by
  change (match m s with | (.ok a, s₁) => (Except.ok a, s₁) | (.error e, s₁) => h e s₁).2 = _
  rcases m s with ⟨e | a, s₁⟩
  · exact hh e s₁
  · rfl

section Moves

variable {R : σ → σ → Prop}

theorem Moves.of_run {m : Tx σ ε α} (h : Moves R m) {s s' : σ} {r : Except ε α}
    (hr : m s = (r, s')) : R s s' := by
  have := h s
  rwa [hr] at this

theorem Moves.of_readOnly (hrefl : ∀ s, R s s) {m : Tx σ ε α} (h : ReadOnly m) :
    Moves R m := by
  intro s
  rw [h s]
  exact hrefl s

theorem Moves.bind (htrans : ∀ a b c, R a b → R b c → R a c) {m : Tx σ ε α}
    {f : α → Tx σ ε β} (hm : Moves R m) (hf : ∀ a, Moves R (f a)) :
    Moves R (m >>= f) :=
  fun s => bind_rel htrans (hm s) fun a s₁ _ => hf a s₁

/-- A loop whose body moves the store by `R`. -/
theorem Moves.forM (hrefl : ∀ s, R s s) (htrans : ∀ a b c, R a b → R b c → R a c)
    {f : α → Tx σ ε PUnit} : ∀ {l : List α}, (∀ a ∈ l, Moves R (f a)) → Moves R (l.forM f)
  | [], _ => Moves.of_readOnly hrefl fun _ => rfl
  | a :: _, hf => Moves.bind htrans (hf a List.mem_cons_self) fun _ =>
    Moves.forM hrefl htrans fun b hb => hf b (List.mem_cons_of_mem a hb)

theorem Moves.atomic (hrefl : ∀ s, R s s) {m : Tx σ ε α} (hm : Moves R m) :
    Moves R (Tx.atomic m) := by
  intro s
  have h1 := hm s
  unfold Tx.atomic
  rcases hs : m s with ⟨e | a, s₁⟩
  · exact hrefl s
  · rwa [hs] at h1

theorem Moves.tryCatch (htrans : ∀ a b c, R a b → R b c → R a c) {m : Tx σ ε α}
    {h : ε → Tx σ ε α} (hm : Moves R m) (hh : ∀ e, Moves R (h e)) :
    Moves R (MonadExcept.tryCatch m h) := by
  intro s
  have h1 := hm s
  change R s (match m s with
    | (.ok a, s₁) => (Except.ok a, s₁)
    | (.error e, s₁) => h e s₁).2
  rcases hs : m s with ⟨e | a, s₁⟩
  · rw [hs] at h1
    exact htrans _ _ _ h1 (hh e s₁)
  · rwa [hs] at h1

end Moves

theorem readOnly_pure (a : α) : ReadOnly (pure a : Tx σ ε α) := fun _ => rfl

theorem readOnly_throw (e : ε) : ReadOnly (throw e : Tx σ ε α) := fun _ => rfl

theorem readOnly_read : ReadOnly (read : Tx σ ε σ) := fun _ => rfl

theorem readOnly_lift (x : Except ε α) : ReadOnly (liftM x : Tx σ ε α) := fun _ => rfl

theorem ReadOnly.bind {m : Tx σ ε α} {f : α → Tx σ ε β} (hm : ReadOnly m)
    (hf : ∀ a, ReadOnly (f a)) : ReadOnly (m >>= f) :=
  Moves.bind (fun _ _ _ hab hbc => hbc.trans hab) hm hf

theorem ReadOnly.failSafe {m : Tx σ ε α} (h : ReadOnly m) : FailSafe m :=
  fun _ _ _ hr => h.of_run hr

theorem failSafe_atomic (m : Tx σ ε α) : FailSafe (atomic m) :=
  fun _ _ _ h => (atomic_error.mp h).2

theorem failSafe_statement (f : σ → Except ε σ) : FailSafe (statement f : Tx σ ε Unit) :=
  fun _ _ _ h => (statement_error.mp h).2

/-- For a fail-safe computation, what the normal runs do is all it does. -/
theorem FailSafe.moves {R : σ → σ → Prop} (hrefl : ∀ s, R s s) {m : Tx σ ε α}
    (hm : FailSafe m) (hok : ∀ s a s', m s = (.ok a, s') → R s s') : Moves R m := by
  intro s
  rcases hs : m s with ⟨e | a, s₁⟩
  · rw [hm s e s₁ hs]
    exact hrefl s
  · exact hok s a s₁ hs

/-- Reading first and then something fail-safe is fail-safe. -/
theorem FailSafe.bind {m : Tx σ ε α} {f : α → Tx σ ε β} (hm : ReadOnly m)
    (hf : ∀ a, FailSafe (f a)) : FailSafe (m >>= f) := by
  intro s e s' h
  rcases bind_error.mp h with herr | ⟨a, s₁, hok, herr⟩
  · exact hm.of_run herr
  · exact (hf a s₁ e s' herr).trans (hm.of_run hok)

/-- A handler that only reads keeps a fail-safe block fail-safe. -/
theorem FailSafe.tryCatch {m : Tx σ ε α} {h : ε → Tx σ ε α} (hm : FailSafe m)
    (hh : ∀ e, ReadOnly (h e)) : FailSafe (MonadExcept.tryCatch m h) := by
  intro s e s' he
  obtain ⟨e₁, s₁, hm₁, hh₁⟩ := tryCatch_error.mp he
  exact ((hh e₁).of_run hh₁).trans (hm s e₁ s₁ hm₁)

end Tx

end Lib
