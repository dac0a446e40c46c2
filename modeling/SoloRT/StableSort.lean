import Mathlib.Data.List.Sort
import Mathlib.Data.List.Basic

/-!
# The head of a stable sort

Insertion sort by a total preorder is stable, so the head of the sorted list is the first
element of the original list that is below every element. `head?_insertionSort_spec` says
so with the list split at that element. Sorting a list and taking its head is choosing
the earliest of the least elements.
-/

namespace StableSort

variable {α : Type*} {r : α → α → Prop} [DecidableRel r]

/-- Inserting before a sorted list keeps the inserted element at the head exactly when it
is below the old head. -/
theorem head?_orderedInsert (a : α) (l : List α) :
    (l.orderedInsert r a).head? =
      match l.head? with
      | none => some a
      | some b => if r a b then some a else some b := by
  cases l with
  | nil => rfl
  | cons b l =>
    simp only [List.orderedInsert_cons, List.head?_cons]
    split_ifs <;> rfl

/-- The head of the sorted list, with the original list split at it: nothing before it is
below it, and it is below everything after it. -/
theorem split_of_head?_insertionSort [IsTrans α r] [Std.Total r] :
    ∀ (l : List α) {a : α}, (l.insertionSort r).head? = some a →
      ∃ pre post, l = pre ++ a :: post ∧ (∀ b ∈ pre, ¬r b a) ∧ ∀ b ∈ post, r a b
  | [], _, h => by simp at h
  | c :: l, a, h => by
    rw [List.insertionSort_cons, head?_orderedInsert] at h
    cases hl : (l.insertionSort r).head? with
    | none =>
      have hnil : l = [] := by
        have hlen := List.length_insertionSort r l
        rw [List.head?_eq_none_iff.1 hl] at hlen
        exact List.length_eq_zero_iff.1 hlen.symm
      subst hnil
      rw [hl] at h
      exact ⟨[], [], by simpa using h, by simp, by simp⟩
    | some b =>
      obtain ⟨pre, post, rfl, hpre, hpost⟩ := split_of_head?_insertionSort l hl
      rw [hl] at h
      by_cases hcb : r c b
      · obtain rfl : c = a := by simpa [hcb] using h
        refine ⟨[], pre ++ b :: post, rfl, by simp, fun d hd => ?_⟩
        rcases List.mem_append.1 hd with hd | hd
        · exact IsTrans.trans _ _ _ hcb ((Std.Total.total b d).resolve_right (hpre d hd))
        · rcases List.mem_cons.1 hd with rfl | hd
          · exact hcb
          · exact IsTrans.trans _ _ _ hcb (hpost d hd)
      · obtain rfl : b = a := by simpa [hcb] using h
        refine ⟨c :: pre, post, rfl, fun d hd => ?_, hpost⟩
        rcases List.mem_cons.1 hd with rfl | hd
        · exact hcb
        · exact hpre d hd

/-- The head of the sorted list is in the list and below every element. -/
theorem head?_insertionSort_spec [IsTrans α r] [Std.Total r] {l : List α} {a : α}
    (h : (l.insertionSort r).head? = some a) : a ∈ l ∧ ∀ b ∈ l, r a b := by
  obtain ⟨pre, post, rfl, hpre, hpost⟩ := split_of_head?_insertionSort l h
  refine ⟨by simp, fun b hb => ?_⟩
  rcases List.mem_append.1 hb with hb | hb
  · exact (Std.Total.total a b).resolve_right (hpre b hb)
  · rcases List.mem_cons.1 hb with rfl | hb
    · exact (Std.Total.total b b).elim id id
    · exact hpost b hb

/-- A sorted list has a head exactly when the list is nonempty. -/
theorem head?_insertionSort_eq_none (l : List α) :
    (l.insertionSort r).head? = none ↔ l = [] := by
  rw [List.head?_eq_none_iff, ← List.length_eq_zero_iff, List.length_insertionSort,
    List.length_eq_zero_iff]

/-- An element as low as the head comes no earlier in the list. -/
theorem idxOf_le_of_head?_insertionSort [DecidableEq α] [IsTrans α r] [Std.Total r]
    {l : List α} {a b : α} (h : (l.insertionSort r).head? = some a) (hb : r b a) :
    l.idxOf a ≤ l.idxOf b := by
  obtain ⟨pre, post, rfl, hpre, -⟩ := split_of_head?_insertionSort l h
  have hna : a ∉ pre := fun ha => hpre a ha ((Std.Total.total a a).elim id id)
  have hnb : b ∉ pre := fun hb' => hpre b hb' hb
  rw [List.idxOf_append_of_notMem hna, List.idxOf_append_of_notMem hnb, List.idxOf_cons_self]
  omega

end StableSort
