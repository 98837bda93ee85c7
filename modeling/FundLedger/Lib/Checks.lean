import Mathlib

/-!
# Sequences of checks

Fallible pure code is written in `Except`: a check either passes or raises,
and a sequence stops at the first exception.  `require` is a check of a
condition and `orRaise` a lookup that must find something.  For each way of
combining checks there is a lemma that says what a sequence that passed did,
so that no proof unfolds a `bind`.
-/

namespace Lib

variable {ε α β γ : Type}

/-- Raise unless the condition holds. -/
def require (p : Prop) [Decidable p] (e : ε) : Except ε Unit :=
  if p then .ok () else .error e

@[simp] theorem require_eq_ok {p : Prop} [Decidable p] {e : ε} {u : Unit} :
    require p e = .ok u ↔ p := by
  unfold require
  split <;> simp [*]

@[simp] theorem require_eq_error {p : Prop} [Decidable p] {e e' : ε} :
    require p e = .error e' ↔ ¬p ∧ e = e' := by
  unfold require
  split <;> simp [*]

/-- A lookup that raises when it finds nothing. -/
def orRaise (x : Option α) (e : ε) : Except ε α :=
  match x with
  | some a => .ok a
  | none => .error e

@[simp] theorem orRaise_eq_ok {x : Option α} {e : ε} {a : α} :
    orRaise x e = .ok a ↔ x = some a := by
  cases x <;> simp [orRaise]

@[simp] theorem orRaise_eq_error {x : Option α} {e e' : ε} :
    orRaise x e = .error e' ↔ x = none ∧ e = e' := by
  cases x <;> simp [orRaise]

theorem except_map_error {x : Except ε α} {f : α → β} {e : ε} :
    f <$> x = .error e ↔ x = .error e := by
  cases x with
  | ok a =>
    constructor <;> intro h <;> cases h
  | error e' =>
    show (Except.error e' : Except ε β) = .error e ↔ _
    rw [Except.error.injEq, Except.error.injEq]

theorem except_bind_ok {x : Except ε α} {f : α → Except ε β} {b : β} :
    x >>= f = .ok b ↔ ∃ a, x = .ok a ∧ f a = .ok b := by
  cases x <;> simp [bind, Except.bind]

theorem except_bind_error {x : Except ε α} {f : α → Except ε β} {e : ε} :
    x >>= f = .error e ↔ x = .error e ∨ ∃ a, x = .ok a ∧ f a = .error e := by
  cases x <;> simp [bind, Except.bind]

@[simp] theorem except_pure {a b : α} : (pure a : Except ε α) = .ok b ↔ a = b := by
  simp [pure, Except.pure]

/-! ## Lists -/

/-- A `mapM` that passed relates its input and its output element by element. -/
theorem mapM_except_ok {f : α → Except ε β} {l : List α} {r : List β} :
    l.mapM f = .ok r ↔ List.Forall₂ (fun a b => f a = .ok b) l r := by
  induction l generalizing r with
  | nil => cases r <;> simp [pure, Except.pure]
  | cons a l ih =>
    rw [List.mapM_cons, except_bind_ok]
    constructor
    · rintro ⟨b, hb, hrest⟩
      obtain ⟨bs, hbs, hr⟩ := except_bind_ok.mp hrest
      rw [except_pure] at hr
      subst hr
      exact .cons hb (ih.mp hbs)
    · rintro (_ | ⟨hb, hbs⟩)
      exact ⟨_, hb, except_bind_ok.mpr ⟨_, ih.mpr hbs, rfl⟩⟩

/-- A `mapM` passes when each element does. -/
theorem mapM_isOk {f : α → Except ε β} {l : List α} (h : ∀ a ∈ l, ∃ b, f a = .ok b) :
    ∃ r, l.mapM f = .ok r := by
  induction l with
  | nil => exact ⟨[], rfl⟩
  | cons a l ih =>
    obtain ⟨⟨b, hb⟩, hl⟩ := List.forall_mem_cons.mp h
    obtain ⟨r, hr⟩ := ih hl
    refine ⟨b :: r, ?_⟩
    rw [mapM_except_ok] at hr ⊢
    exact .cons hb hr

/-- A `mapM` raises what the first element raises that does. -/
theorem mapM_except_error {f : α → Except ε β} {l : List α} {e : ε} :
    l.mapM f = .error e ↔ ∃ before a after, l = before ++ a :: after ∧
      (∀ b ∈ before, ∃ r, f b = .ok r) ∧ f a = .error e := by
  induction l with
  | nil => simp [pure, Except.pure]
  | cons a l ih =>
    rw [List.mapM_cons, except_bind_error]
    constructor
    · rintro (ha | ⟨b, hb, hrest⟩)
      · exact ⟨[], a, l, rfl, by simp, ha⟩
      · rcases except_bind_error.mp hrest with htail | ⟨bs, -, hret⟩
        · obtain ⟨before, c, after, rfl, hbefore, hc⟩ := ih.mp htail
          refine ⟨a :: before, c, after, rfl, ?_, hc⟩
          exact List.forall_mem_cons.mpr ⟨⟨b, hb⟩, hbefore⟩
        · cases hret
    · rintro ⟨before, c, after, hl, hbefore, hc⟩
      cases before with
      | nil =>
        obtain ⟨rfl, rfl⟩ := List.cons.inj hl
        exact .inl hc
      | cons b before =>
        obtain ⟨rfl, rfl⟩ := List.cons.inj hl
        obtain ⟨⟨r, hr⟩, hbefore⟩ := List.forall_mem_cons.mp hbefore
        right
        refine ⟨r, hr, except_bind_error.mpr (.inl ?_)⟩
        exact ih.mpr ⟨before, c, after, rfl, hbefore, hc⟩

theorem forall₂_exists_right {R : α → β → Prop} {l : List α} {r : List β}
    (h : List.Forall₂ R l r) {a : α} (ha : a ∈ l) : ∃ b ∈ r, R a b := by
  induction h with
  | nil => cases ha
  | @cons a' b l r hab _ ih =>
    rcases List.mem_cons.mp ha with rfl | ha
    · exact ⟨b, List.mem_cons_self, hab⟩
    · obtain ⟨b', hb', hr⟩ := ih ha
      exact ⟨b', List.mem_cons_of_mem b hb', hr⟩

theorem forall₂_exists_left {R : α → β → Prop} {l : List α} {r : List β}
    (h : List.Forall₂ R l r) {b : β} (hb : b ∈ r) : ∃ a ∈ l, R a b :=
  forall₂_exists_right h.flip hb

/-- Two element-by-element relations one after the other. -/
theorem forall₂_comp {γ : Type} {R : α → β → Prop} {S : β → γ → Prop} {T : α → γ → Prop}
    {l : List α} {m : List β} {n : List γ} (h₁ : List.Forall₂ R l m) (h₂ : List.Forall₂ S m n)
    (h : ∀ a ∈ l, ∀ b c, R a b → S b c → T a c) : List.Forall₂ T l n := by
  induction h₁ generalizing n with
  | nil =>
    cases h₂
    exact .nil
  | cons hab _ ih =>
    cases h₂ with
    | cons hbc hrest =>
      obtain ⟨ha, hl⟩ := List.forall_mem_cons.mp h
      exact .cons (ha _ _ hab hbc) (ih hrest hl)

/-- The elements on the left are elements of the list. -/
theorem forall₂_and_mem {R : α → β → Prop} {l : List α} {m : List β} (h : List.Forall₂ R l m) :
    List.Forall₂ (fun a b => a ∈ l ∧ R a b) l m := by
  have hself : List.Forall₂ (fun a a' : α => a = a') l l := List.forall₂_same.mpr fun _ _ => rfl
  refine forall₂_comp hself h fun a ha b c hab hbc => ?_
  subst hab
  exact ⟨ha, hbc⟩

/-- When a key of the left element decides a value of the right one, lists whose
left keys are a permutation of each other have right values that are one. -/
theorem perm_of_determined {κ ω : Type} {R S : α → β → Prop} {k : α → κ} {v : β → ω}
    {l l' : List α} {m m' : List β} (h : List.Forall₂ R l m) (h' : List.Forall₂ S l' m')
    (determined : ∀ a ∈ l, ∀ a' ∈ l', ∀ b b', k a = k a' → R a b → S a' b' →
      v b = v b')
    (hperm : (l.map k).Perm (l'.map k)) : (m.map v).Perm (m'.map v) := by
  have hkeys : List.Forall₂ (fun x b => ∃ a ∈ l', k a = x ∧ S a b) (l'.map k) m' := by
    rw [List.forall₂_map_left_iff]
    exact (forall₂_and_mem h').imp fun a b hab => ⟨a, hab.1, rfl, hab.2⟩
  -- the right elements of the second list, in the order of the first
  obtain ⟨n, hn, hnperm⟩ := List.perm_comp_forall₂ hperm hkeys
  rw [List.forall₂_map_left_iff] at hn
  have hmap : m.map v = n.map v := by
    clear hnperm hkeys hperm
    induction h generalizing n with
    | nil =>
      cases hn
      rfl
    | cons hab _ ih =>
      cases hn with
      | cons hac hrest =>
        obtain ⟨a', ha', hkey, hac⟩ := hac
        rw [List.map_cons, List.map_cons]
        have hhead := determined _ List.mem_cons_self a' ha' _ _ hkey.symm hab hac
        rw [hhead, ih (fun a ha => determined a (List.mem_cons_of_mem _ ha)) _ hrest]
  rw [hmap]
  exact hnperm.map v

/-- A `forM` passed exactly when each of its checks did. -/
theorem forM_except_ok {f : α → Except ε Unit} {l : List α} :
    l.forM f = .ok () ↔ ∀ a ∈ l, f a = .ok () := by
  induction l with
  | nil => simp [pure, Except.pure]
  | cons a l ih =>
    change (f a >>= fun _ => l.forM f) = .ok () ↔ _
    rw [except_bind_ok]
    simp only [List.forall_mem_cons]
    constructor
    · rintro ⟨⟨⟩, ha, hl⟩
      exact ⟨ha, ih.mp hl⟩
    · rintro ⟨ha, hl⟩
      exact ⟨(), ha, ih.mpr hl⟩

/-- A `forM` that raised raised what one of its checks did. -/
theorem forM_except_error {f : α → Except ε Unit} {l : List α} {e : ε}
    (h : l.forM f = .error e) : ∃ a ∈ l, f a = .error e := by
  induction l with
  | nil => cases h
  | cons a l ih =>
    rcases except_bind_error.mp h with ha | ⟨_, -, hl⟩
    · exact ⟨a, List.mem_cons_self, ha⟩
    · obtain ⟨b, hb, hraised⟩ := ih hl
      exact ⟨b, List.mem_cons_of_mem _ hb, hraised⟩

/-- The rule for a fold that may raise: what holds at the start and is kept by
each step holds at the end.  The invariant speaks about the elements done so
far. -/
theorem foldlM_except_inv {f : β → α → Except ε β} (I : List α → β → Prop)
    (hstep : ∀ done b a b', I done b → f b a = .ok b' → I (done ++ [a]) b') :
    ∀ (l done : List α) (b b' : β), I done b → l.foldlM f b = .ok b' → I (done ++ l) b' := by
  intro l
  induction l with
  | nil =>
    intro done b b' hI h
    cases h
    simpa using hI
  | cons a l ih =>
    intro done b b' hI h
    rw [List.foldlM_cons, except_bind_ok] at h
    obtain ⟨b₁, h₁, h₂⟩ := h
    have := ih (done ++ [a]) b₁ b' (hstep done b a b₁ hI h₁) h₂
    simpa using this

end Lib
