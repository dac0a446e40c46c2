import Mathlib.Data.List.Basic

/-!
# Autoregressive generation

A generator appends to a list the element that `next` reads off it, until `stop` holds of the
extended list. `generate` runs it for a number of elements, `Running` are the lists it goes on
from, and `Complete` the ones it ends with.

A generator that works in chunks has several elements at once. If they are the ones that
`follow`, it takes them up to the first that stops (`cut`), and is then where the generator that
takes one at a time would be (`Running.cut_follow`). One that has proposals checks each of them
against what is to follow the ones before it (`agree_spec`).
-/

namespace Generation

variable {α : Type*} (next : List α → α) (stop : List α → Bool)

/-- Extend a list by at most `n` elements, up to the first one that stops. -/
def generate : ℕ → List α → List α
  | 0, xs => xs
  | n + 1, xs =>
    if stop (xs ++ [next xs]) then xs ++ [next xs] else generate n (xs ++ [next xs])

/-- The lists generated so far by a run that goes on. -/
inductive Running : List α → Prop
  | nil : Running []
  | snoc {xs : List α} (h : Running xs) (hs : stop (xs ++ [next xs]) = false) :
      Running (xs ++ [next xs])

/-- The list with which the run ends. -/
def Complete (xs : List α) : Prop :=
  ∃ ys, Running next stop ys ∧ xs = ys ++ [next ys] ∧ stop xs = true

/-- The next `n` elements after a list, whether they stop or not. -/
def follow : ℕ → List α → List α
  | 0, _ => []
  | n + 1, xs => next xs :: follow n (xs ++ [next xs])

/-- The elements `ys` after `xs`, up to the first that stops. -/
def cut : List α → List α → List α
  | _, [] => []
  | xs, y :: ys => if stop (xs ++ [y]) then [y] else y :: cut (xs ++ [y]) ys

/-- The number of elements before the first difference of two lists. -/
def agree [DecidableEq α] : List α → List α → ℕ
  | x :: xs, y :: ys => if x = y then agree xs ys + 1 else 0
  | _, _ => 0

variable {next stop}

/-- A run passes through the lists it goes on from. -/
theorem Running.generate_eq {xs : List α} (h : Running next stop xs) (n : ℕ) :
    generate next stop (xs.length + n) [] = generate next stop n xs := by
  induction h generalizing n with
  | nil => simp
  | @snoc xs _ hs ih =>
    have hlen : (xs ++ [next xs]).length + n = xs.length + (n + 1) := by
      simp only [List.length_append, List.length_singleton]
      omega
    rw [hlen, ih (n + 1), generate, if_neg (by simp [hs])]

/-- A run that may take enough elements ends with the complete list. -/
theorem Complete.generate_eq {xs : List α} (h : Complete next stop xs) {n : ℕ}
    (hn : xs.length ≤ n) : generate next stop n [] = xs := by
  obtain ⟨ys, hys, rfl, hstop⟩ := h
  obtain ⟨k, rfl⟩ : ∃ k, n = ys.length + (k + 1) := by
    simp only [List.length_append, List.length_singleton] at hn
    exact ⟨n - ys.length - 1, by omega⟩
  rw [hys.generate_eq, generate, if_pos hstop]

/-- One more element either ends the run or lets it go on. -/
theorem Running.extend {xs : List α} (h : Running next stop xs) :
    Running next stop (xs ++ [next xs]) ∧ stop (xs ++ [next xs]) = false ∨
      Complete next stop (xs ++ [next xs]) ∧ stop (xs ++ [next xs]) = true := by
  cases hs : stop (xs ++ [next xs]) with
  | false => exact .inl ⟨.snoc h hs, rfl⟩
  | true => exact .inr ⟨⟨xs, h, rfl, hs⟩, rfl⟩

theorem Running.stop_eq_false {xs : List α} (h : Running next stop xs) (hne : xs ≠ []) :
    stop xs = false := by
  cases h with
  | nil => exact absurd rfl hne
  | snoc _ hs => exact hs

@[simp] theorem length_follow (n : ℕ) (xs : List α) : (follow next n xs).length = n := by
  induction n generalizing xs with
  | zero => rfl
  | succ n ih => simp [follow, ih]

theorem length_cut_le (stop : List α → Bool) (xs ys : List α) :
    (cut stop xs ys).length ≤ ys.length := by
  induction ys generalizing xs with
  | nil => exact Nat.le_refl _
  | cons y ys ih =>
    rw [cut]
    split_ifs
    · simp
    · exact Nat.succ_le_succ (ih _)

/-- The last of the next elements comes after the others. -/
theorem follow_concat (n : ℕ) (xs : List α) :
    follow next (n + 1) xs = follow next n xs ++ [next (xs ++ follow next n xs)] := by
  induction n generalizing xs with
  | zero => simp [follow]
  | succ n ih =>
    rw [follow, ih]
    simp [follow]

theorem follow_prefix (next : List α → α) {m n : ℕ} (h : m ≤ n) (xs : List α) :
    follow next m xs <+: follow next n xs := by
  induction h with
  | refl => exact List.prefix_rfl
  | step _ ih =>
    rw [follow_concat]
    exact ih.trans (List.prefix_append _ _)

/-- Nothing stopped on the way to a list that the run goes on from. -/
theorem Running.stop_of_prefix {xs ys : List α} (h : Running next stop xs) (hys : ys <+: xs)
    (hne : ys ≠ []) : stop ys = false := by
  induction h with
  | nil => exact absurd (List.prefix_nil.1 hys) hne
  | snoc _ hs ih =>
    rcases List.prefix_concat_iff.1 hys with rfl | hys
    · exact hs
    · exact ih hys

theorem prefix_generate (n : ℕ) (xs : List α) : xs <+: generate next stop n xs := by
  induction n generalizing xs with
  | zero => exact List.prefix_rfl
  | succ n ih =>
    rw [generate]
    split_ifs
    · exact List.prefix_append _ _
    · exact (List.prefix_append _ _).trans (ih _)

/-- A list that the run goes on from is a beginning of the list that it ends with. -/
theorem Running.prefix_generate {xs : List α} (h : Running next stop xs) {n : ℕ}
    (hn : xs.length ≤ n) : xs <+: generate next stop n [] := by
  obtain ⟨k, rfl⟩ := Nat.exists_eq_add_of_le hn
  rw [h.generate_eq]
  exact Generation.prefix_generate k xs

/-- The lists that a run goes on from are told apart by their length. -/
theorem Running.eq_of_length {xs ys : List α} (hx : Running next stop xs)
    (hy : Running next stop ys) (h : xs.length = ys.length) : xs = ys :=
  (List.prefix_of_prefix_length_le (hx.prefix_generate (Nat.le_of_eq h))
    (hy.prefix_generate (Nat.le_refl _)) (Nat.le_of_eq h)).eq_of_length h

/-- The list that a run ends with is longer than those it goes on from. -/
theorem Running.length_lt {xs ys : List α} (hx : Running next stop xs)
    (hy : Complete next stop ys) : xs.length < ys.length := by
  by_contra hle
  rw [Nat.not_lt] at hle
  have hprefix := hx.prefix_generate (Nat.le_refl _)
  rw [hy.generate_eq hle] at hprefix
  obtain rfl := hprefix.eq_of_length (Nat.le_antisymm hprefix.length_le hle)
  obtain ⟨zs, -, hzs, hstop⟩ := hy
  have hne : xs ≠ [] := by simp [hzs]
  rw [hx.stop_eq_false hne] at hstop
  cases hstop

/-- A run that goes on after its first element begins with it, and did not stop there. -/
theorem Running.first {xs : List α} (h : Running next stop xs) (hne : xs ≠ []) :
    [next []] <+: xs ∧ stop [next []] = false := by
  have hbegins : [next []] <+: xs := by
    induction h with
    | nil => exact absurd rfl hne
    | @snoc ys _ _ ih =>
      by_cases hys : ys = []
      · subst hys
        exact List.prefix_rfl
      · exact (ih hys).trans (List.prefix_append _ _)
  exact ⟨hbegins, h.stop_of_prefix hbegins (by simp)⟩

/-- A run ends with one element if it stops there, and with more otherwise. -/
theorem Complete.length_eq_one_iff {xs : List α} (h : Complete next stop xs) :
    xs.length = 1 ↔ stop [next []] = true := by
  obtain ⟨ys, hys, rfl, hstop⟩ := h
  by_cases hne : ys = []
  · subst hne
    simpa using hstop
  · have hpos := List.length_pos_of_ne_nil hne
    have hfirst := (hys.first hne).2
    rw [hfirst, List.length_append, List.length_singleton]
    simp only [Bool.false_eq_true, iff_false]
    omega

/-- Taking the next elements in a chunk, up to the first that stops, goes on with the run or
ends it. -/
theorem Running.cut_follow {xs : List α} (h : Running next stop xs) (n : ℕ) :
    (Running next stop (xs ++ follow next n xs) ∧
        cut stop xs (follow next n xs) = follow next n xs) ∨
      Complete next stop (xs ++ cut stop xs (follow next n xs)) := by
  induction n generalizing xs with
  | zero => exact .inl ⟨by simpa [follow] using h, rfl⟩
  | succ n ih =>
    rw [follow, cut]
    rcases h.extend with ⟨hrun, hs⟩ | ⟨hdone, hs⟩
    · rw [if_neg (by simp [hs])]
      rcases ih hrun with ⟨hrun', hcut⟩ | hdone
      · exact .inl ⟨by simpa using hrun', by rw [hcut]⟩
      · exact .inr (by simpa using hdone)
    · rw [if_pos hs]
      exact .inr hdone

theorem range_succ_map (f : ℕ → α) (n : ℕ) :
    (List.range (n + 1)).map f = f 0 :: (List.range n).map fun i => f (i + 1) := by
  rw [List.range_succ_eq_map, List.map_cons, List.map_map]
  rfl

theorem agree_le_length [DecidableEq α] : ∀ xs ys : List α, agree xs ys ≤ xs.length
  | [], _ | _ :: _, [] => by simp [agree]
  | x :: xs, y :: ys => by
    have ih := agree_le_length xs ys
    rw [agree, List.length_cons]
    split_ifs <;> omega

/-- Proposals are compared with what is to follow each of them. Those before the first
difference are what follows, and no more of them are. -/
theorem agree_spec [DecidableEq α] (next : List α → α) (drafts : List α) :
    ∀ xs : List α,
    agree drafts ((List.range drafts.length).map fun i => next (xs ++ drafts.take i)) ≤
        drafts.length ∧
      drafts.take (agree drafts
          ((List.range drafts.length).map fun i => next (xs ++ drafts.take i))) =
        follow next (agree drafts
          ((List.range drafts.length).map fun i => next (xs ++ drafts.take i))) xs ∧
      ∀ m, m ≤ drafts.length → drafts.take m = follow next m xs →
        m ≤ agree drafts
          ((List.range drafts.length).map fun i => next (xs ++ drafts.take i)) := by
  induction drafts with
  | nil =>
    intro xs
    exact ⟨Nat.le_refl _, rfl, fun m hm _ => hm⟩
  | cons d ds ih =>
    intro xs
    obtain ⟨hle, htake, hmax⟩ := ih (xs ++ [d])
    have hrest : ((List.range ds.length).map fun i => next (xs ++ (d :: ds).take (i + 1))) =
        (List.range ds.length).map fun i => next (xs ++ [d] ++ ds.take i) := by
      simp
    rw [List.length_cons, range_succ_map (fun i => next (xs ++ (d :: ds).take i)), hrest,
      List.take_zero, List.append_nil, agree]
    split_ifs with hd
    · refine ⟨by omega, ?_, fun m hm hm' => ?_⟩
      · rw [List.take_succ_cons, follow, htake, ← hd]
      · cases m with
        | zero => exact Nat.zero_le _
        | succ m =>
          rw [List.take_succ_cons, follow, ← hd] at hm'
          exact Nat.succ_le_succ (hmax m (by omega) (List.cons.inj hm').2)
    · refine ⟨Nat.zero_le _, rfl, fun m hm hm' => ?_⟩
      cases m with
      | zero => exact Nat.le_refl _
      | succ m =>
        rw [List.take_succ_cons, follow] at hm'
        exact absurd (List.cons.inj hm').1 hd

end Generation
