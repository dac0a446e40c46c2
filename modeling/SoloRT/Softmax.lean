import Mathlib.Algebra.Field.Basic
import Mathlib.Algebra.BigOperators.Group.List.Basic
import Mathlib.Algebra.Order.Monoid.WithTop
import Mathlib.Data.List.Basic

/-!
# Softmax over masked scores

The softmax of a row of scores, with the exponential as a parameter, over any field. A score of
minus infinity, `⊥`, has the weight 0. So a row that ends in masked scores has the softmax of the
rest, and then zeros (`softmax_append_bot`), and an average with these weights is one over the
rest (`combine_softmax_append`).
-/

namespace Softmax

variable {R : Type*} [Field R]

def dot (x y : List R) : R :=
  (List.zipWith (· * ·) x y).sum

/-- The rows of a matrix added up with weights. The first row has the number of columns. -/
def combine (weights : List R) (rows : List (List R)) : List R :=
  (List.range (rows.headD []).length).map fun d => dot weights (rows.map (·.getD d 0))

/-- The exponential of a score. -/
def weight (exp : R → R) : WithBot R → R
  | ⊥ => 0
  | (s : R) => exp s

def softmax (exp : R → R) (scores : List (WithBot R)) : List R :=
  scores.map fun s => weight exp s / (scores.map (weight exp)).sum

/-- `masked_fill` with minus infinity. -/
def maskedFill (scores : List (WithBot R)) (mask : List Bool) : List (WithBot R) :=
  List.zipWith (fun s m => if m then ⊥ else s) scores mask

variable (exp : R → R)

@[simp] theorem length_softmax (scores : List (WithBot R)) :
    (softmax exp scores).length = scores.length :=
  List.length_map _

theorem softmax_append_bot (scores : List (WithBot R)) (n : ℕ) :
    softmax exp (scores ++ List.replicate n ⊥) = softmax exp scores ++ List.replicate n 0 := by
  have hbot : weight exp (⊥ : WithBot R) = 0 := rfl
  simp [softmax, hbot]

theorem dot_append_zero (weights x : List R) (n : ℕ) :
    dot (weights ++ List.replicate n 0) x = dot weights (x.take weights.length) := by
  induction weights generalizing x with
  | nil =>
    induction x generalizing n with
    | nil => simp [dot]
    | cons a x ih =>
      cases n with
      | zero => simp [dot]
      | succ n => simpa [dot, List.replicate_succ] using ih n
  | cons w weights ih =>
    cases x with
    | nil => rfl
    | cons a x => simpa [dot] using ih x

/-- Scores after a position, all masked, have no part in the average. -/
theorem combine_softmax_append {scores : List (WithBot R)} (hne : scores ≠ []) (n : ℕ)
    (rows : List (List R)) :
    combine (softmax exp (scores ++ List.replicate n ⊥)) rows =
      combine (softmax exp scores) (rows.take scores.length) := by
  have hhead : (rows.take scores.length).headD [] = rows.headD [] := by
    cases rows with
    | nil => simp
    | cons r rows =>
      obtain ⟨s, rest, rfl⟩ := List.exists_cons_of_ne_nil hne
      rfl
  unfold combine
  rw [hhead, softmax_append_bot]
  refine List.map_congr_left fun d _ => ?_
  rw [dot_append_zero, length_softmax, List.map_take]

omit [Field R] in
/-- The mask that hides the positions after `p`. -/
theorem maskedFill_after (scores : List (WithBot R)) {p : ℕ} (hp : p < scores.length) :
    maskedFill scores ((List.range scores.length).map fun j => decide (p < j)) =
      scores.take (p + 1) ++ List.replicate (scores.length - (p + 1)) ⊥ := by
  refine List.ext_getElem (by simp [maskedFill]; omega) fun i h _ => ?_
  have hi : i < scores.length := by simpa [maskedFill] using h
  simp only [maskedFill, List.getElem_zipWith, List.getElem_map, List.getElem_range,
    List.getElem_append, List.length_take, List.getElem_take, List.getElem_replicate,
    decide_eq_true_eq]
  split_ifs <;> first | rfl | omega

/-- Under that mask the average is one over the positions up to `p`. -/
theorem combine_maskedFill (scores : List (WithBot R)) {p : ℕ} (hp : p < scores.length)
    (rows : List (List R)) :
    combine (softmax exp (maskedFill scores
        ((List.range scores.length).map fun j => decide (p < j)))) rows =
      combine (softmax exp (scores.take (p + 1))) (rows.take (p + 1)) := by
  have hlen : (scores.take (p + 1)).length = p + 1 := by
    rw [List.length_take]
    omega
  have hne : scores.take (p + 1) ≠ [] := List.ne_nil_of_length_pos (by omega)
  rw [maskedFill_after scores hp, combine_softmax_append exp hne, hlen]

end Softmax
