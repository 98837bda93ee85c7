import Mathlib

/-!
# Sums over the rows of a table

`sumBy f l` is what `SELECT SUM(f)` computes over the rows `l`.  The lemmas
here are the ones a proof about aggregates needs: appending rows adds their
sum, a filter splits a sum in two, and a sum whose rows fall into groups of
sum zero is itself zero, however the groups are interleaved.
-/

namespace Lib

variable {α κ M : Type} [AddCommMonoid M]

/-- The sum of `f` over the rows `l`. -/
def sumBy (f : α → M) (l : List α) : M := (l.map f).sum

@[simp] theorem sumBy_nil (f : α → M) : sumBy f [] = 0 := rfl

@[simp] theorem sumBy_cons (f : α → M) (a : α) (l : List α) :
    sumBy f (a :: l) = f a + sumBy f l := by
  simp [sumBy]

@[simp] theorem sumBy_append (f : α → M) (l₁ l₂ : List α) :
    sumBy f (l₁ ++ l₂) = sumBy f l₁ + sumBy f l₂ := by
  simp [sumBy]

theorem sumBy_perm {f : α → M} {l₁ l₂ : List α} (h : l₁.Perm l₂) :
    sumBy f l₁ = sumBy f l₂ :=
  (h.map f).sum_eq

theorem sumBy_congr {f g : α → M} {l : List α} (h : ∀ a ∈ l, f a = g a) :
    sumBy f l = sumBy g l := by
  unfold sumBy
  rw [List.map_congr_left h]

theorem sumBy_eq_zero {f : α → M} {l : List α} (h : ∀ a ∈ l, f a = 0) :
    sumBy f l = 0 := by
  rw [sumBy_congr h]
  induction l with
  | nil => rfl
  | cons a l ih =>
    rw [sumBy_cons, zero_add]
    exact ih fun b hb => h b (List.mem_cons_of_mem a hb)

theorem sumBy_add (f g : α → M) (l : List α) :
    sumBy (fun a => f a + g a) l = sumBy f l + sumBy g l := by
  induction l with
  | nil => simp
  | cons a l ih => simp only [sumBy_cons, ih]; exact add_add_add_comm _ _ _ _

theorem sumBy_map {β : Type} (f : α → M) (g : β → α) (l : List β) :
    sumBy f (l.map g) = sumBy (fun b => f (g b)) l := by
  unfold sumBy
  rw [List.map_map]
  rfl

/-- An additive function may be applied to the rows or to the sum. -/
theorem sumBy_hom {N : Type} [AddCommMonoid N] (φ : M →+ N) (f : α → M) (l : List α) :
    sumBy (fun a => φ (f a)) l = φ (sumBy f l) := by
  unfold sumBy
  rw [map_list_sum, List.map_map]
  rfl

theorem sumBy_flatMap {β : Type} (f : α → M) (g : β → List α) (l : List β) :
    sumBy f (l.flatMap g) = sumBy (fun b => sumBy f (g b)) l := by
  induction l with
  | nil => rfl
  | cons b l ih => rw [List.flatMap_cons, sumBy_append, sumBy_cons, ih]

/-- A sum over a filter is the sum of the function that is zero outside it. -/
theorem sumBy_filter (f : α → M) (p : α → Bool) (l : List α) :
    sumBy f (l.filter p) = sumBy (fun a => if p a then f a else 0) l := by
  induction l with
  | nil => rfl
  | cons a l ih =>
    by_cases hp : p a <;> simp [hp, ih]

/-- A filter splits a sum into the rows it keeps and the rows it drops. -/
theorem sumBy_filter_add (f : α → M) (p : α → Bool) (l : List α) :
    sumBy f (l.filter p) + sumBy f (l.filter fun a => !p a) = sumBy f l := by
  rw [sumBy_filter, sumBy_filter, ← sumBy_add]
  refine sumBy_congr fun a _ => ?_
  by_cases hp : p a <;> simp [hp]

/-- Exchanging the order of two summations. -/
theorem sumBy_nonneg {α M : Type} [AddCommMonoid M] [PartialOrder M] [IsOrderedAddMonoid M]
    {f : α → M} {l : List α} (h : ∀ a ∈ l, 0 ≤ f a) : 0 ≤ sumBy f l := by
  refine List.sum_nonneg fun x hx => ?_
  obtain ⟨a, ha, rfl⟩ := List.mem_map.mp hx
  exact h a ha

/-- Distinct rows from among others sum to no more, when no row is negative. -/
theorem sumBy_le_of_subset {α M : Type} [AddCommMonoid M] [PartialOrder M] [IsOrderedAddMonoid M]
    {f : α → M} {l m : List α} (hl : l.Nodup) (hsub : l ⊆ m) (h : ∀ a ∈ m, 0 ≤ f a) :
    sumBy f l ≤ sumBy f m := by
  obtain ⟨l', hperm, hsublist⟩ := hl.subperm hsub
  rw [← sumBy_perm hperm]
  refine (hsublist.map f).sum_le_sum fun x hx => ?_
  obtain ⟨a, ha, rfl⟩ := List.mem_map.mp hx
  exact h a ha

theorem sumBy_comm {β : Type} (f : α → β → M) (l : List α) (m : List β) :
    sumBy (fun a => sumBy (f a) m) l = sumBy (fun b => sumBy (fun a => f a b) l) m := by
  induction l with
  | nil => simp [sumBy_eq_zero]
  | cons a l ih => simp only [sumBy_cons, ih, sumBy_add]

section Groups

variable [DecidableEq κ]

/-- The rows of the group `x`. -/
def group (k : α → κ) (x : κ) (l : List α) : List α :=
  l.filter fun a => decide (k a = x)

@[simp] theorem mem_group {k : α → κ} {x : κ} {l : List α} {a : α} :
    a ∈ group k x l ↔ a ∈ l ∧ k a = x := by
  simp [group]

theorem group_append (k : α → κ) (x : κ) (l₁ l₂ : List α) :
    group k x (l₁ ++ l₂) = group k x l₁ ++ group k x l₂ :=
  List.filter_append ..

theorem group_eq_nil {k : α → κ} {x : κ} {l : List α} (h : ∀ a ∈ l, k a ≠ x) :
    group k x l = [] := by
  simpa [group] using h

theorem group_eq_self {k : α → κ} {x : κ} {l : List α} (h : ∀ a ∈ l, k a = x) :
    group k x l = l := by
  simpa [group] using h

/-- If every group sums to zero then the whole sums to zero.  The induction
removes the group of the first row, so it is on the length. -/
theorem sumBy_eq_zero_of_groups (f : α → M) (k : α → κ) :
    ∀ l : List α, (∀ x, sumBy f (group k x l) = 0) → sumBy f l = 0 := by
  intro l
  induction hn : l.length using Nat.strong_induction_on generalizing l with
  | _ n ih =>
    intro h
    cases l with
    | nil => rfl
    | cons a l =>
      have hsplit := sumBy_filter_add f (fun b => decide (k b = k a)) (a :: l)
      have hhead : sumBy f ((a :: l).filter fun b => decide (k b = k a)) = 0 := h (k a)
      rw [← hsplit, hhead, zero_add]
      refine ih _ ?_ _ rfl ?_
      · rw [← hn]
        simp only [decide_true, Bool.not_true, Bool.false_eq_true, not_false_eq_true,
          List.filter_cons_of_neg, List.length_cons]
        exact Nat.lt_succ_of_le (List.length_filter_le _ _)
      · intro x
        by_cases hx : x = k a
        · have hnil : group k x ((a :: l).filter fun b => !decide (k b = k a)) = [] := by
            refine group_eq_nil fun b hb => ?_
            simpa [hx] using (List.mem_filter.mp hb).2
          rw [hnil, sumBy_nil]
        · have hsame : group k x ((a :: l).filter fun b => !decide (k b = k a)) =
              group k x (a :: l) := by
            unfold group
            rw [List.filter_filter]
            refine List.filter_congr fun b _ => ?_
            by_cases hb : k b = x
            · simp [hb, hx]
            · simp [hb]
          rw [hsame]
          exact h x

/-- The same for a filter that keeps or drops every group as a whole. -/
theorem sumBy_filter_eq_zero_of_groups (f : α → M) (k : α → κ) (p : α → Bool)
    (l : List α) (h : ∀ x, sumBy f (group k x l) = 0)
    (hp : ∀ a ∈ l, ∀ b ∈ l, k a = k b → p a = p b) :
    sumBy f (l.filter p) = 0 := by
  refine sumBy_eq_zero_of_groups f k _ fun x => ?_
  have hcomm : group k x (l.filter p) = (group k x l).filter p := by
    unfold group
    rw [List.filter_filter, List.filter_filter]
    simp only [Bool.and_comm]
  rw [hcomm]
  rcases hg : (group k x l).find? p with _ | a
  · have hnil : (group k x l).filter p = [] := by
      rw [List.filter_eq_nil_iff]
      intro b hb
      exact List.find?_eq_none.mp hg b hb
    rw [hnil, sumBy_nil]
  · obtain ⟨hal, hak⟩ := mem_group.mp (List.mem_of_find?_eq_some hg)
    have hpa : p a = true := List.find?_some hg
    have hall : (group k x l).filter p = group k x l := by
      rw [List.filter_eq_self]
      intro b hb
      obtain ⟨hbl, hbk⟩ := mem_group.mp hb
      rw [hp b hbl a hal (hbk.trans hak.symm), hpa]
    rw [hall]
    exact h x

/-- A sum over distinct keys of a value that only one of them has. -/
theorem sumBy_ite_eq {keys : List κ} (h : keys.Nodup) (x : κ) (m : M) :
    sumBy (fun y => if x = y then m else 0) keys = if x ∈ keys then m else 0 := by
  induction keys with
  | nil => rfl
  | cons y keys ih =>
    obtain ⟨hy, hkeys⟩ := List.nodup_cons.mp h
    rw [sumBy_cons, ih hkeys]
    by_cases hxy : x = y
    · subst hxy
      simp [hy]
    · simp [hxy]

/-- The groups of distinct keys sum to the rows whose key is among them. -/
theorem sumBy_groups (f : α → M) (k : α → κ) {keys : List κ} (h : keys.Nodup) (l : List α) :
    sumBy (fun x => sumBy f (group k x l)) keys = sumBy f (l.filter fun a => k a ∈ keys) := by
  calc sumBy (fun x => sumBy f (group k x l)) keys
      = sumBy (fun x => sumBy (fun a => if k a = x then f a else 0) l) keys := by
        refine sumBy_congr fun x _ => ?_
        rw [group, sumBy_filter]
        simp only [decide_eq_true_eq]
    _ = sumBy (fun a => sumBy (fun x => if k a = x then f a else 0) keys) l := sumBy_comm _ _ _
    _ = sumBy (fun a => if k a ∈ keys then f a else 0) l :=
        sumBy_congr fun a _ => sumBy_ite_eq h (k a) (f a)
    _ = sumBy f (l.filter fun a => k a ∈ keys) := by
        rw [sumBy_filter]
        simp only [decide_eq_true_eq]

/-- When every row has its key among them, they sum to the whole. -/
theorem sumBy_groups_of_mem (f : α → M) {k : α → κ} {keys : List κ} (h : keys.Nodup) {l : List α}
    (hl : ∀ a ∈ l, k a ∈ keys) : sumBy (fun x => sumBy f (group k x l)) keys = sumBy f l := by
  rw [sumBy_groups f k h, List.filter_eq_self.mpr fun a ha => decide_eq_true (hl a ha)]

end Groups

end Lib
