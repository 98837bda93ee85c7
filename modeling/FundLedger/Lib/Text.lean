import Mathlib.Data.List.TakeDrop
import Mathlib.Data.List.TakeWhile

/-!
# Text

The string methods of the source language that the access keys rest on:
`startswith` with `removeprefix`, and `partition` for a separator of one
character.
-/

namespace Lib

/-- `s.removeprefix(p)`, when `s.startswith(p)`. -/
def removePrefix? (p s : String) : Option String :=
  (p.toList.isPrefixOf? s.toList).map String.ofList

/-- `s.partition(sep)`: what comes before the first `sep`, whether there is one,
and what comes after it. -/
def partition (sep : Char) (s : String) : String × Bool × String :=
  match s.toList.span (· ≠ sep) with
  | (_, []) => (s, false, "")
  | (head, _ :: rest) => (String.ofList head, true, String.ofList rest)

theorem isPrefixOf?_eq_some {α : Type} [BEq α] [LawfulBEq α] {p s rest : List α} :
    p.isPrefixOf? s = some rest ↔ s = p ++ rest := by
  induction p generalizing s with
  | nil =>
    show some s = some rest ↔ _
    rw [Option.some.injEq, List.nil_append]
  | cons a p ih =>
    cases s with
    | nil =>
      show none = some rest ↔ _
      simp
    | cons b s =>
      show (if a == b then p.isPrefixOf? s else none) = some rest ↔ _
      rw [List.cons_append, List.cons.injEq]
      by_cases h : a = b
      · subst h
        rw [if_pos (beq_self_eq_true a), ih]
        exact (and_iff_right rfl).symm
      · rw [if_neg (by simpa using h)]
        simp [Ne.symm h]

theorem removePrefix?_eq_some {p s rest : String} :
    removePrefix? p s = some rest ↔ s = p ++ rest := by
  rw [removePrefix?, Option.map_eq_some_iff]
  constructor
  · rintro ⟨l, hl, rfl⟩
    apply String.toList_injective
    rw [isPrefixOf?_eq_some.mp hl, String.toList_append, String.toList_ofList]
  · rintro rfl
    refine ⟨rest.toList, isPrefixOf?_eq_some.mpr (String.toList_append ..), ?_⟩
    rw [String.ofList_toList]

/-- The head of a span ends at the first element that fails the test. -/
theorem span_ne_append {α : Type} [DecidableEq α] {sep : α} {head : List α} (h : sep ∉ head)
    (rest : List α) : (head ++ sep :: rest).span (· ≠ sep) = (head, sep :: rest) := by
  rw [List.span_eq_takeWhile_dropWhile]
  have hhead : ∀ a ∈ head, decide (a ≠ sep) = true := by
    intro a ha
    exact decide_eq_true fun heq => h (heq ▸ ha)
  rw [List.takeWhile_append_of_pos hhead, List.dropWhile_append_of_pos hhead]
  simp

theorem span_ne_eq {α : Type} [DecidableEq α] {sep x : α} {l head rest : List α}
    (h : l.span (· ≠ sep) = (head, x :: rest)) : sep ∉ head ∧ l = head ++ sep :: rest := by
  rw [List.span_eq_takeWhile_dropWhile] at h
  obtain ⟨hhead, hrest⟩ := Prod.mk.inj h
  have hx : x = sep := by
    have hfail := List.head_dropWhile_not (fun a => decide (a ≠ sep)) (by rw [hrest]; simp)
    simp only [hrest, List.head_cons] at hfail
    simpa using hfail
  subst hx
  refine ⟨fun hmem => ?_, ?_⟩
  · rw [← hhead] at hmem
    have htest := List.mem_takeWhile_imp hmem
    simp at htest
  · rw [← hhead, ← hrest]
    exact (List.takeWhile_append_dropWhile ..).symm

/-- **`partition` splits at the first separator.** -/
theorem partition_eq {sep : Char} {s head rest : String} :
    partition sep s = (head, true, rest) ↔
      sep ∉ head.toList ∧ s = head ++ String.singleton sep ++ rest := by
  unfold partition
  constructor
  · intro h
    split at h
    · cases h
    · rename_i l x r hspan
      cases h
      obtain ⟨hnot, hs⟩ := span_ne_eq hspan
      rw [String.toList_ofList]
      refine ⟨hnot, String.toList_injective ?_⟩
      rw [hs]
      simp [String.toList_append]
  · rintro ⟨hnot, rfl⟩
    have hspan : (head ++ String.singleton sep ++ rest).toList.span (· ≠ sep) =
        (head.toList, sep :: rest.toList) := by
      rw [← span_ne_append hnot]
      congr 1
      simp [String.toList_append]
    rw [hspan]
    simp only [String.ofList_toList]

end Lib
