import SoloRT.Sampling
import Mathlib.Algebra.Order.BigOperators.Group.List

/-!
# Nucleus filtering

`topPScores` sorts the scores, adds up their probabilities in that order, and takes a token out if
those before it have more mass than `top_p` together. `sortedTokens` is the order of the tokens,
`removedTokens` what is taken out, and `keptTokens` the rest.

The softmax is a parameter, and `SoftmaxOf` says what it gives : the probability of each token, in
any order of the tokens. For a `top_p` above zero the tokens kept are the shortest leading segment
with more mass than `top_p`, or all tokens (`keptTokens_nucleus`). A `top_p` of zero, like one of
one, switches the filter off.
-/

namespace SoloRT

/-! ## Leading segments -/

/-- What a filter keeps if it takes the first elements of a list. -/
theorem filter_eq_take {α : Type*} {l : List α} {q : α → Bool} {k : ℕ}
    (h : ∀ j (hj : j < l.length), q l[j] = true ↔ j < k) : l.filter q = l.take k := by
  have htake : (l.take k).filter q = l.take k := by
    refine List.filter_eq_self.2 fun x hx => ?_
    obtain ⟨j, hj, rfl⟩ := List.mem_iff_getElem.1 hx
    rw [List.length_take] at hj
    rw [List.getElem_take]
    exact (h j (by omega)).2 (by omega)
  have hdrop : (l.drop k).filter q = [] := by
    refine List.filter_eq_nil_iff.2 fun x hx hq => ?_
    obtain ⟨j, hj, rfl⟩ := List.mem_iff_getElem.1 hx
    rw [List.length_drop] at hj
    rw [List.getElem_drop] at hq
    have hlt := (h (k + j) (by omega)).1 hq
    omega
  calc l.filter q = (l.take k).filter q ++ (l.drop k).filter q := by
        rw [← List.filter_append, List.take_append_drop]
    _ = l.take k := by rw [htake, hdrop, List.append_nil]

/-- A property of numbers that goes down holds of those below a bound. -/
theorem exists_bound_of_down {P : ℕ → Prop} (hdown : ∀ i j, i ≤ j → P j → P i) (n : ℕ) :
    ∃ k ≤ n, ∀ j < n, P j ↔ j < k := by
  induction n with
  | zero => exact ⟨0, le_rfl, by simp⟩
  | succ n ih =>
    obtain ⟨k, hk, hbound⟩ := ih
    by_cases hP : P n
    · exact ⟨n + 1, le_rfl, fun j hj => ⟨fun _ => hj, fun _ => hdown j n (by omega) hP⟩⟩
    · refine ⟨k, by omega, fun j hj => ?_⟩
      rcases Nat.lt_succ_iff_lt_or_eq.1 hj with hlt | rfl
      · exact hbound j hlt
      · exact ⟨fun hPj => absurd hPj hP, fun hlt => absurd hlt (by omega)⟩

/-- The sums of the leading segments of a list of numbers that are not negative go up. -/
theorem sum_take_mono {q : List ℚ} (hnonneg : ∀ x ∈ q, 0 ≤ x) {i j : ℕ} (h : i ≤ j) :
    (q.take i).sum ≤ (q.take j).sum := by
  have hsplit : q.take j = q.take i ++ (q.drop i).take (j - i) := by
    rw [← List.take_add, Nat.add_sub_cancel' h]
  rw [hsplit, List.sum_append, le_add_iff_nonneg_right]
  exact List.sum_nonneg fun x hx => hnonneg x (List.mem_of_mem_drop (List.mem_of_mem_take hx))

/-! ## The filter -/

/-- `sorted_indices`, the tokens by descending score. -/
def sortedTokens (scores : List (WithBot ℚ)) : List ℕ :=
  (scores.zipIdx.mergeSort fun a b => b.1 ≤ a.1).map Prod.snd

/-- `indices_to_remove`, empty where there is no filter. -/
def removedTokens (torch : Torch) (p : ℚ) (scores : List (WithBot ℚ)) : List ℕ :=
  if 0 < p ∧ p < 1 then
    let sorted := scores.zipIdx.mergeSort fun a b => b.1 ≤ a.1
    let cumulative := ((torch.softmax (sorted.map Prod.fst)).scanl (· + ·) 0).tail
    let remove := false :: (cumulative.map fun c => decide (p < c)).dropLast
    (sorted.zip remove).filter Prod.snd |>.map (·.1.2)
  else []

/-- The tokens that the filter leaves, by descending score. -/
def keptTokens (torch : Torch) (p : ℚ) (scores : List (WithBot ℚ)) : List ℕ :=
  (sortedTokens scores).filter (· ∉ removedTokens torch p scores)

variable {torch : Torch} {p : ℚ} {scores : List (WithBot ℚ)}

theorem topPScores_eq : topPScores torch p scores =
    (removedTokens torch p scores).foldl (fun scores i => scores.set i ⊥) scores := by
  unfold topPScores removedTokens
  split_ifs <;> rfl

theorem keptTokens_zero (torch : Torch) (scores : List (WithBot ℚ)) :
    keptTokens torch 0 scores = sortedTokens scores := by
  simp [keptTokens, removedTokens]

/-- The scores of the tokens that are set to minus infinity, and of the others. -/
theorem getElem?_foldl_set (i : ℕ) : ∀ (removed : List ℕ) (scores : List (WithBot ℚ)),
    (removed.foldl (fun scores i => scores.set i ⊥) scores)[i]? =
      if i ∈ removed ∧ i < scores.length then some ⊥ else scores[i]?
  | [], scores => by simp
  | r :: removed, scores => by
    rw [List.foldl_cons, getElem?_foldl_set i removed, List.length_set, List.getElem?_set]
    by_cases hr : r = i
    · subst hr
      by_cases hlen : r < scores.length <;> simp [hlen]
    · simp [hr, Ne.symm hr]

theorem sortedTokens_perm : (sortedTokens scores).Perm (List.range scores.length) := by
  have hperm := (List.mergeSort_perm scores.zipIdx fun a b => b.1 ≤ a.1).map Prod.snd
  rwa [List.zipIdx_map_snd, ← List.range_eq_range'] at hperm

theorem length_sortedTokens : (sortedTokens scores).length = scores.length := by
  rw [sortedTokens_perm.length_eq, List.length_range]

/-- The sorted scores are those of the sorted tokens. -/
theorem sorted_fst : (scores.zipIdx.mergeSort fun a b => b.1 ≤ a.1).map Prod.fst =
    (sortedTokens scores).map fun i => scores.getD i ⊥ := by
  rw [sortedTokens, List.map_map]
  refine List.map_congr_left fun x hx => ?_
  rw [List.mem_mergeSort, List.mem_zipIdx_iff_getElem?] at hx
  simp [List.getD_eq_getElem?_getD, hx]

theorem sortedTokens_pairwise :
    (sortedTokens scores).Pairwise fun i j => scores.getD j ⊥ ≤ scores.getD i ⊥ := by
  have hsorted : (scores.zipIdx.mergeSort fun a b => b.1 ≤ a.1).Pairwise fun a b =>
      decide (b.1 ≤ a.1) = true := by
    refine List.pairwise_mergeSort (fun a b c hab hbc => ?_) (fun a b => ?_) _
    · simp only [decide_eq_true_eq] at hab hbc ⊢
      exact hbc.trans hab
    · simpa using le_total b.1 a.1
  have hfst : ((scores.zipIdx.mergeSort fun a b => b.1 ≤ a.1).map Prod.fst).Pairwise
      fun s t => t ≤ s := List.pairwise_map.2 (hsorted.imp of_decide_eq_true)
  rw [sorted_fst] at hfst
  exact List.pairwise_map.1 hfst

/-! ## The masses -/

/-- What `softmax` gives some scores : the probability of each token, in any order of the tokens. A
higher score has no lower probability. -/
structure SoftmaxOf (torch : Torch) (scores : List (WithBot ℚ)) (prob : ℕ → ℚ) : Prop where
  nonneg : ∀ i < scores.length, 0 ≤ prob i
  sum_eq_one : ((List.range scores.length).map prob).sum = 1
  mono : ∀ i < scores.length, ∀ j < scores.length, scores.getD i ⊥ ≤ scores.getD j ⊥ →
    prob i ≤ prob j
  softmax_eq : ∀ order : List ℕ, order.Perm (List.range scores.length) →
    torch.softmax (order.map fun i => scores.getD i ⊥) = order.map prob

/-- A flag is set if the tokens before have more mass than `top_p`. -/
theorem getElem?_remove (hp : 0 ≤ p) {q : List ℚ} {j : ℕ} (hj : j < q.length) :
    (false :: (((q.scanl (· + ·) 0).tail).map fun c => decide (p < c)).dropLast)[j]? =
      some (decide (p < (q.take j).sum)) := by
  cases j with
  | zero => simp [not_lt.2 hp]
  | succ j =>
    have hscan : (q.scanl (· + ·) 0)[j + 1]? = some (q.take (j + 1)).sum := by
      rw [List.getElem?_scanl, if_pos hj.le, List.sum_eq_foldl]
    rw [List.getElem?_cons_succ, List.getElem?_dropLast, if_pos (by simp; omega),
      List.getElem?_map, List.getElem?_tail, hscan, Option.map_some]

namespace SoftmaxOf

variable {prob : ℕ → ℚ} (h : SoftmaxOf torch scores prob)

include h

/-- The mass of the first tokens of the order. -/
theorem softmax_sorted : torch.softmax
    ((scores.zipIdx.mergeSort fun a b => b.1 ≤ a.1).map Prod.fst) =
      (sortedTokens scores).map prob := by
  rw [sorted_fst, h.softmax_eq _ sortedTokens_perm]

/-- A token is taken out if those before it have more mass than `top_p`. -/
theorem mem_removedTokens (hp : 0 < p) (hp' : p < 1) {j : ℕ}
    (hj : j < (sortedTokens scores).length) :
    (sortedTokens scores)[j] ∈ removedTokens torch p scores ↔
      p < (((sortedTokens scores).map prob).take j).sum := by
  have hnodup : (sortedTokens scores).Nodup :=
    sortedTokens_perm.nodup_iff.2 List.nodup_range
  have hsnd : ∀ m : ℕ, (sortedTokens scores)[m]? =
      ((scores.zipIdx.mergeSort fun a b => b.1 ≤ a.1)[m]?).map Prod.snd := fun m => by
    rw [sortedTokens, List.getElem?_map]
  have hlen : j < ((sortedTokens scores).map prob).length := by rwa [List.length_map]
  have hremove := getElem?_remove hp.le hlen
  rw [removedTokens, if_pos ⟨hp, hp'⟩]
  dsimp only
  rw [h.softmax_sorted]
  generalize (scores.zipIdx.mergeSort fun a b => b.1 ≤ a.1) = sorted at hsnd
  generalize (false :: _) = remove at hremove ⊢
  constructor
  · intro hmem
    obtain ⟨x, hx, hxj⟩ := List.mem_map.1 hmem
    obtain ⟨hx, hflag⟩ := List.mem_filter.1 hx
    obtain ⟨m, hm⟩ := List.mem_iff_getElem?.1 hx
    obtain ⟨hs, hr⟩ := List.getElem?_zip_eq_some.1 hm
    have hget : (sortedTokens scores)[m]? = (sortedTokens scores)[j]? := by
      rw [hsnd, hs, Option.map_some, hxj, List.getElem?_eq_getElem hj]
    rw [← (List.getElem?_inj hj hnodup).1 hget.symm, hremove] at hr
    exact of_decide_eq_true ((Option.some.inj hr).trans hflag)
  · intro hlt
    obtain ⟨y, hy, hyj⟩ : ∃ y, sorted[j]? = some y ∧ y.2 = (sortedTokens scores)[j] := by
      have hget := hsnd j
      rw [List.getElem?_eq_getElem hj] at hget
      obtain ⟨y, hy, hyj⟩ := Option.map_eq_some_iff.1 hget.symm
      exact ⟨y, hy, hyj⟩
    rw [decide_eq_true hlt] at hremove
    refine List.mem_map.2 ⟨(y, true), List.mem_filter.2 ⟨?_, rfl⟩, hyj⟩
    exact List.mem_iff_getElem?.2 ⟨j, List.getElem?_zip_eq_some.2 ⟨hy, hremove⟩⟩

theorem nonneg_of_mem {l : List ℕ} (hl : ∀ i ∈ l, i ∈ sortedTokens scores) :
    ∀ x ∈ l.map prob, 0 ≤ x := by
  intro x hx
  obtain ⟨i, hi, rfl⟩ := List.mem_map.1 hx
  exact h.nonneg i (List.mem_range.1 (sortedTokens_perm.mem_iff.1 (hl i hi)))

theorem sum_sorted : ((sortedTokens scores).map prob).sum = 1 := by
  rw [(sortedTokens_perm.map prob).sum_eq, h.sum_eq_one]

/-- The tokens are sorted by descending probability. -/
theorem sorted_pairwise : (sortedTokens scores).Pairwise fun i j => prob j ≤ prob i := by
  refine sortedTokens_pairwise.imp_of_mem fun {i j} hi hj hle => ?_
  have hlt : ∀ {i}, i ∈ sortedTokens scores → i < scores.length := fun hi =>
    List.mem_range.1 (sortedTokens_perm.mem_iff.1 hi)
  exact h.mono j (hlt hj) i (hlt hi) hle

/-- A token stays if those before it have no more mass than `top_p`. -/
theorem kept_iff (hp : 0 < p) (hp' : p ≤ 1) {j : ℕ} (hj : j < (sortedTokens scores).length) :
    (sortedTokens scores)[j] ∉ removedTokens torch p scores ↔
      (((sortedTokens scores).map prob).take j).sum ≤ p := by
  rcases hp'.lt_or_eq with hlt | rfl
  · rw [h.mem_removedTokens hp hlt hj, not_lt]
  · -- no token is taken out, and all together have no more mass than one
    have hall := sum_take_mono (h.nonneg_of_mem fun i hi => hi) hj.le
    rw [List.take_of_length_le (List.length_map prob).le, h.sum_sorted] at hall
    simp [removedTokens, hall]

/-- The tokens kept are a leading segment. -/
theorem keptTokens_eq_take (hp : 0 < p) (hp' : p ≤ 1) : ∃ k ≤ scores.length,
    keptTokens torch p scores = (sortedTokens scores).take k ∧
      ∀ j < scores.length, (((sortedTokens scores).map prob).take j).sum ≤ p ↔ j < k := by
  obtain ⟨k, hk, hbound⟩ := exists_bound_of_down
    (fun i j hij hle => (sum_take_mono (h.nonneg_of_mem fun i hi => hi) hij).trans hle :
      ∀ i j, i ≤ j → (((sortedTokens scores).map prob).take j).sum ≤ p →
        (((sortedTokens scores).map prob).take i).sum ≤ p) scores.length
  refine ⟨k, hk, filter_eq_take fun j hj => ?_, hbound⟩
  rw [decide_eq_true_eq, h.kept_iff hp hp' hj, hbound j (length_sortedTokens ▸ hj)]

end SoftmaxOf

/-! ## The nucleus -/

/-- The tokens `kept` are the nucleus of `sorted` : the shortest leading segment with more mass than
`p`, or all tokens. -/
structure IsNucleus (prob : ℕ → ℚ) (p : ℚ) (sorted kept : List ℕ) : Prop where
  leading : kept <+: sorted
  most_probable : ∃ i ∈ kept, ∀ j ∈ sorted, prob j ≤ prob i
  mass : p < (kept.map prob).sum ∨ kept = sorted
  shortest : 1 < kept.length → (kept.dropLast.map prob).sum ≤ p

variable {prob : ℕ → ℚ}

theorem SoftmaxOf.isNucleus (h : SoftmaxOf torch scores prob) (hp : 0 < p) (hp' : p ≤ 1) :
    IsNucleus prob p (sortedTokens scores) (keptTokens torch p scores) := by
  obtain ⟨k, hk, hkept, hbound⟩ := h.keptTokens_eq_take hp hp'
  have hlen : (sortedTokens scores).length = scores.length := length_sortedTokens
  have hpos : 0 < scores.length := by
    rw [← hlen, List.length_pos_iff]
    intro hnil
    have hsum := h.sum_sorted
    rw [hnil, List.map_nil, List.sum_nil] at hsum
    exact absurd hsum zero_ne_one
  have hkpos : 0 < k := (hbound 0 hpos).1 (by simpa using hp.le)
  refine ⟨?_, ?_, ?_, ?_⟩
  · rw [hkept]
    exact List.take_prefix _ _
  · -- the first token has the highest probability
    obtain ⟨i, rest, hsorted⟩ := List.exists_cons_of_length_pos (hlen ▸ hpos)
    have hfirst := h.sorted_pairwise
    rw [hsorted, List.pairwise_cons] at hfirst
    refine ⟨i, ?_, fun j hj => ?_⟩
    · rw [hkept, hsorted, ← Nat.sub_add_cancel hkpos, List.take_succ_cons]
      exact List.mem_cons_self
    · rw [hsorted] at hj
      rcases List.mem_cons.1 hj with rfl | hrest
      · exact le_rfl
      · exact hfirst.1 j hrest
  · rcases hk.lt_or_eq with hlt | rfl
    · left
      have hmass := not_le.1 (mt (hbound k hlt).1 (lt_irrefl k))
      rwa [hkept, List.map_take]
    · exact .inr (by rw [hkept, ← hlen, List.take_length])
  · intro hmany
    have hlast := (hbound (k - 1) (by omega)).2 (by omega)
    rwa [hkept, List.dropLast_eq_take, List.length_take, hlen, min_eq_left hk, List.take_take,
      min_eq_left (Nat.sub_le k 1), List.map_take]

/-- The tokens that `_sample_token` keeps for a `top_p` above zero are the nucleus of the tokens by
descending probability. A higher `top_p` keeps no fewer tokens, and a `top_p` of zero keeps all. The
scores of the others become minus infinity. -/
theorem keptTokens_nucleus (h : SoftmaxOf torch scores prob) :
    (sortedTokens scores).Perm (List.range scores.length) ∧
      ((sortedTokens scores).Pairwise fun i j => prob j ≤ prob i) ∧
      (∀ p, 0 < p → p ≤ 1 →
        IsNucleus prob p (sortedTokens scores) (keptTokens torch p scores)) ∧
      (∀ p₁ p₂, 0 < p₁ → p₁ ≤ p₂ → p₂ ≤ 1 →
        keptTokens torch p₁ scores ⊆ keptTokens torch p₂ scores) ∧
      keptTokens torch 0 scores = sortedTokens scores ∧
      ∀ p, 0 ≤ p → p ≤ 1 → ∀ i < scores.length, (topPScores torch p scores)[i]? =
        if i ∈ keptTokens torch p scores then scores[i]? else some ⊥ := by
  refine ⟨sortedTokens_perm, h.sorted_pairwise, fun p hp hp' => h.isNucleus hp hp',
    fun p₁ p₂ hp₁ hle hp₂ => ?_, ?_, fun p _ _ i hi => ?_⟩
  · obtain ⟨k₁, hk₁, hkept₁, hbound₁⟩ := h.keptTokens_eq_take hp₁ (hle.trans hp₂)
    obtain ⟨k₂, hk₂, hkept₂, hbound₂⟩ := h.keptTokens_eq_take (hp₁.trans_le hle) hp₂
    have hk : k₁ ≤ k₂ := by
      by_contra hlt
      have hk₂' : k₂ < scores.length := by omega
      have hmass := (hbound₁ k₂ hk₂').2 (by omega)
      exact lt_irrefl k₂ ((hbound₂ k₂ hk₂').1 (hmass.trans hle))
    rw [hkept₁, hkept₂]
    exact List.take_subset_take_left _ hk
  · exact keptTokens_zero torch scores
  · have hmem : i ∈ sortedTokens scores := sortedTokens_perm.mem_iff.2 (List.mem_range.2 hi)
    rw [topPScores_eq, getElem?_foldl_set]
    by_cases hremoved : i ∈ removedTokens torch p scores
    · simp [keptTokens, hremoved, hi]
    · simp [keptTokens, hremoved, hmem]

/-! ## Equal scores -/

/-- The probability of a score among `scores` that are equal or minus infinity. -/
def equalShare (scores : List (WithBot ℚ)) (s : WithBot ℚ) : ℚ :=
  if s = ⊥ then 0 else 1 / scores.countP fun s => s ≠ ⊥

/-- The softmax of scores that are equal or minus infinity. -/
def equalShares : Torch where
  softmax scores := scores.map (equalShare scores)
  multinomial _ _ := 0

theorem equalShare_nonneg (scores : List (WithBot ℚ)) (s : WithBot ℚ) :
    0 ≤ equalShare scores s := by
  unfold equalShare
  split_ifs
  · exact le_rfl
  · exact div_nonneg zero_le_one (Nat.cast_nonneg _)

theorem map_getD_range (scores : List (WithBot ℚ)) :
    ((List.range scores.length).map fun i => scores.getD i ⊥) = scores := by
  refine List.ext_getElem (by simp) fun i hi hi' => ?_
  simp [List.getD_eq_getElem?_getD, hi']

theorem softmaxOf_equalShares {scores : List (WithBot ℚ)}
    (hsum : (scores.map (equalShare scores)).sum = 1) :
    SoftmaxOf equalShares scores fun i => equalShare scores (scores.getD i ⊥) where
  nonneg i _ := equalShare_nonneg scores _
  sum_eq_one := by
    calc ((List.range scores.length).map fun i => equalShare scores (scores.getD i ⊥)).sum
        = (((List.range scores.length).map fun i => scores.getD i ⊥).map
            (equalShare scores)).sum := by rw [List.map_map]; rfl
      _ = 1 := by rw [map_getD_range, hsum]
  mono i _ j _ hle := by
    by_cases hj : scores.getD j ⊥ = ⊥
    · rw [hj] at hle
      rw [hj, le_bot_iff.1 hle]
    · by_cases hi : scores.getD i ⊥ = ⊥
      · rw [hi, equalShare, if_pos rfl]
        exact equalShare_nonneg scores _
      · rw [equalShare, equalShare, if_neg hi, if_neg hj]
  softmax_eq order hperm := by
    have hscores := hperm.map fun i => scores.getD i ⊥
    rw [map_getD_range] at hscores
    have hshare : equalShare (order.map fun i => scores.getD i ⊥) = equalShare scores := by
      funext s
      rw [equalShare, equalShare, hscores.countP_eq]
    simp only [equalShares, hshare, List.map_map, Function.comp_def]

/-- Of four equal scores and one of minus infinity three are kept : two of them have no more mass
than a half. -/
theorem keptTokens_nucleus_equalScores :
    IsNucleus (fun i => equalShare [0, 0, 0, 0, ⊥] ([0, 0, 0, 0, ⊥].getD i ⊥)) (1 / 2)
      [0, 1, 2, 3, 4] [0, 1, 2] := by
  have hsoft := softmaxOf_equalShares (by decide +kernel :
    ([0, 0, 0, 0, ⊥].map (equalShare [0, 0, 0, 0, ⊥])).sum = 1)
  have hnucleus := (keptTokens_nucleus hsoft).2.2.1 (1 / 2) (by decide +kernel) (by decide +kernel)
  have hsort : ([0, 0, 0, 0, ⊥].zipIdx.mergeSort fun a b : WithBot ℚ × ℕ => b.1 ≤ a.1) =
      [0, 0, 0, 0, ⊥].zipIdx := List.mergeSort_of_pairwise (by decide +kernel)
  have hsorted : sortedTokens [0, 0, 0, 0, ⊥] = [0, 1, 2, 3, 4] := by
    rw [sortedTokens, hsort]
    rfl
  have hkept : keptTokens equalShares (1 / 2) [0, 0, 0, 0, ⊥] = [0, 1, 2] := by
    simp only [keptTokens, removedTokens, hsorted, hsort]
    decide +kernel
  rwa [hsorted, hkept] at hnucleus

/-- A `top_p` of zero keeps both of two equal scores. -/
theorem not_keptTokens_nucleus : ¬∀ (torch : Torch) (scores : List (WithBot ℚ)) (prob : ℕ → ℚ),
    SoftmaxOf torch scores prob → ∀ p, 0 ≤ p → p ≤ 1 →
      IsNucleus prob p (sortedTokens scores) (keptTokens torch p scores) := by
  intro h
  have hsoft := softmaxOf_equalShares (by decide +kernel :
    ([0, 0].map (equalShare [0, 0])).sum = 1)
  have hshort := (h equalShares [0, 0] _ hsoft 0 le_rfl zero_le_one).shortest
  have hsort : ([0, 0].zipIdx.mergeSort fun a b : WithBot ℚ × ℕ => b.1 ≤ a.1) =
      [0, 0].zipIdx := List.mergeSort_of_pairwise (by decide +kernel)
  rw [keptTokens_zero, sortedTokens, hsort] at hshort
  exact absurd (hshort (by decide)) (by decide +kernel)

end SoloRT
