import SoloRT.Nucleus
import SoloRT.Softmax
import Mathlib.Algebra.BigOperators.Ring.List
import Mathlib.Algebra.Order.Field.Basic
import Mathlib.Data.Finset.Max
import Mathlib.Tactic.Linarith

/-!
# What a sampled token went through

A token is sampled from the scores that `top_k` and `top_p` leave. `topKScores` keeps a score if
fewer than `k` of the scores are larger, so equal scores are kept together (`topKScores_eq`). Then
`top_p` keeps the nucleus of these. Under the documentation of `softmax` and `multinomial` the
sampled token is in it, and fewer than `k` tokens have a larger score (`sampleToken_survives`).
Scores are exact and their exponentials positive, where those of float32 can overflow to nan.
-/

namespace SoloRT

/-! ## The largest scores -/

/-- The elements of a descending list that are larger than another. -/
theorem lt_getElem_iff {α : Type*} [LinearOrder α] {l : List α} (hl : l.Pairwise fun a b => b ≤ a)
    {j : ℕ} (hj : j < l.length) (a : α) : a < l[j] ↔ j < l.countP (a < ·) := by
  have hsplit : ∀ n, l.countP (a < ·) = (l.take n).countP (a < ·) + (l.drop n).countP (a < ·) :=
    fun n => by rw [← List.countP_append, List.take_append_drop]
  have hle := List.pairwise_iff_getElem.1 hl
  constructor
  · intro hlt
    have hall : (l.take (j + 1)).countP (a < ·) = (l.take (j + 1)).length := by
      refine List.countP_eq_length.2 fun b hb => decide_eq_true ?_
      obtain ⟨i, hi, rfl⟩ := List.mem_take_iff_getElem.1 hb
      rcases Nat.lt_or_eq_of_le (Nat.lt_succ_iff.1 (lt_min_iff.1 hi).1) with hij | rfl
      · exact hlt.trans_le (hle i j _ hj hij)
      · exact hlt
    rw [hsplit (j + 1), hall, List.length_take]
    omega
  · intro hcount
    by_contra hnot
    have hnone : (l.drop j).countP (a < ·) = 0 := by
      refine List.countP_eq_zero.2 fun b hb => ?_
      obtain ⟨i, hi, rfl⟩ := List.mem_drop_iff_getElem.1 hb
      rw [decide_eq_true_eq, not_lt]
      refine le_trans ?_ (not_lt.1 hnot)
      rcases Nat.eq_zero_or_pos i with rfl | hpos
      · exact le_rfl
      · exact hle j (j + i) hj _ (by omega)
    have hfirst : (l.take j).countP (a < ·) ≤ (l.take j).length := List.countP_le_length
    rw [hsplit j, hnone] at hcount
    rw [List.length_take] at hfirst
    omega

/-- A score stays if fewer than `k` are larger. -/
theorem topKScores_eq {k : ℤ} (hk : 0 < k) (scores : List (WithBot ℚ)) :
    topKScores k scores =
      scores.map fun s => if (scores.countP (s < ·) : ℤ) < k then s else ⊥ := by
  unfold topKScores
  split_ifs with h
  · dsimp only
    set sorted := scores.mergeSort fun a b => b ≤ a with hsorted
    have hperm : sorted.Perm scores := List.mergeSort_perm _ _
    have hdesc : sorted.Pairwise fun a b => b ≤ a := by
      refine (List.pairwise_mergeSort (fun a b c hab hbc => ?_) (fun a b => ?_) scores).imp
        of_decide_eq_true
      · rw [decide_eq_true_eq] at hab hbc ⊢
        exact hbc.trans hab
      · simpa using le_total b a
    have hlt : k.toNat - 1 < sorted.length := by
      rw [hperm.length_eq]
      omega
    refine List.map_congr_left fun s hs => ?_
    rw [List.getD_eq_getElem?_getD, List.getElem?_eq_getElem hlt, Option.getD_some]
    have hiff := lt_getElem_iff hdesc hlt s
    rw [hperm.countP_eq] at hiff
    by_cases hs : s < sorted[k.toNat - 1]
    · rw [if_pos hs, if_neg]
      have hcount := hiff.1 hs
      omega
    · rw [if_neg hs, if_pos]
      have hcount := mt hiff.2 hs
      omega
  · -- fewer than `k` scores are larger in any case
    refine (List.map_id' scores).symm.trans (List.map_congr_left fun s hs => ?_)
    have hcount : scores.countP (s < ·) < scores.length := by
      refine lt_of_le_of_ne List.countP_le_length fun heq => ?_
      exact absurd (of_decide_eq_true (List.countP_eq_length.1 heq s hs)) (lt_irrefl s)
    rw [if_pos (by omega)]

@[simp] theorem length_topKScores (k : ℤ) (scores : List (WithBot ℚ)) :
    (topKScores k scores).length = scores.length := by
  unfold topKScores
  split_ifs <;> simp

/-- Some score stays. -/
theorem exists_topKScores_ne_bot {scores : List (WithBot ℚ)} (k : ℤ)
    (h : ∃ s ∈ scores, s ≠ ⊥) : ∃ s ∈ topKScores k scores, s ≠ ⊥ := by
  by_cases hk : 0 < k
  · obtain ⟨s, hs, hne⟩ := h
    obtain ⟨m, hm, hmax⟩ :=
      scores.toFinset.exists_max_image (fun s => s) ⟨s, List.mem_toFinset.2 hs⟩
    have hnone : scores.countP (m < ·) = 0 := by
      refine List.countP_eq_zero.2 fun t ht => ?_
      rw [decide_eq_true_eq, not_lt]
      exact hmax t (List.mem_toFinset.2 ht)
    rw [topKScores_eq hk]
    refine ⟨m, List.mem_map.2 ⟨m, List.mem_toFinset.1 hm, ?_⟩, fun hbot => ?_⟩
    · rw [hnone, if_pos (by simpa using hk)]
    · exact hne (le_bot_iff.1 (hbot ▸ hmax s (List.mem_toFinset.2 hs)))
  · rw [topKScores, if_neg fun h => hk h.1]
    exact h

/-! ## The sampled token -/

/-- What the documentation says of the functions of torch. -/
structure Torch.Documented (torch : Torch) : Prop where
  /-- A score of minus infinity has the probability zero. -/
  softmax : ∀ scores : List (WithBot ℚ), (∃ s ∈ scores, s ≠ ⊥) →
    ∃ prob, SoftmaxOf torch scores prob ∧ ∀ i, scores.getD i ⊥ = ⊥ → prob i = 0
  /-- An element without weight is not drawn. -/
  multinomial : ∀ probs rng, (∀ x ∈ probs, 0 ≤ x) → 0 < probs.sum →
    ∃ x, probs[torch.multinomial probs rng]? = some x ∧ 0 < x

variable {torch : Torch} {scores : List (WithBot ℚ)}

theorem lt_length_of_getD_ne_bot {i : ℕ} (h : scores.getD i ⊥ ≠ ⊥) : i < scores.length := by
  by_contra hle
  exact h (by rw [List.getD_eq_getElem?_getD, List.getElem?_eq_none (not_lt.1 hle)]; rfl)

theorem exists_mem_ne_bot {i : ℕ} (h : scores.getD i ⊥ ≠ ⊥) : ∃ s ∈ scores, s ≠ ⊥ := by
  have hi := lt_length_of_getD_ne_bot h
  rw [List.getD_eq_getElem?_getD, List.getElem?_eq_getElem hi, Option.getD_some] at h
  exact ⟨_, List.getElem_mem hi, h⟩

/-- The scores after the nucleus filter. -/
theorem getD_topPScores (torch : Torch) (p : ℚ) (scores : List (WithBot ℚ)) (i : ℕ) :
    (topPScores torch p scores).getD i ⊥ =
      if i ∈ keptTokens torch p scores then scores.getD i ⊥ else ⊥ := by
  rw [topPScores_eq, List.getD_eq_getElem?_getD, getElem?_foldl_set]
  have hmem : i ∈ keptTokens torch p scores ↔
      i < scores.length ∧ i ∉ removedTokens torch p scores := by
    rw [keptTokens, List.mem_filter, decide_eq_true_eq, sortedTokens_perm.mem_iff, List.mem_range]
  by_cases hi : i < scores.length
  · by_cases hr : i ∈ removedTokens torch p scores
    · simp [hmem, hi, hr]
    · simp [hmem, hi, hr]
  · simp [hi]

/-- Some score stays. -/
theorem exists_topPScores_ne_bot (hdoc : torch.Documented) (p : ℚ)
    (h : ∃ s ∈ scores, s ≠ ⊥) : ∃ s ∈ topPScores torch p scores, s ≠ ⊥ := by
  by_cases hp : 0 < p ∧ p < 1
  · obtain ⟨prob, hsoft, hzero⟩ := hdoc.softmax scores h
    obtain ⟨i, hi, hmax⟩ := (hsoft.isNucleus hp.1 hp.2.le).most_probable
    have hne : scores.getD i ⊥ ≠ ⊥ := by
      intro hbot
      have hall : ∀ x ∈ (sortedTokens scores).map prob, x = 0 := by
        intro x hx
        refine le_antisymm ?_ (hsoft.nonneg_of_mem (fun _ hj => hj) x hx)
        obtain ⟨j, hj, rfl⟩ := List.mem_map.1 hx
        exact hzero i hbot ▸ hmax j hj
      have hsum := List.sum_eq_zero hall
      rw [hsoft.sum_sorted] at hsum
      exact one_ne_zero hsum
    have hget := getD_topPScores torch p scores i
    rw [if_pos hi] at hget
    exact exists_mem_ne_bot (hget ▸ hne)
  · rw [topPScores, if_neg hp]
    exact h

/-- A drawn token has a score. -/
theorem exists_multinomial_softmax (hdoc : torch.Documented) (h : ∃ s ∈ scores, s ≠ ⊥)
    (rng : ℕ) : scores.getD (torch.multinomial (torch.softmax scores) rng) ⊥ ≠ ⊥ := by
  obtain ⟨prob, hsoft, hzero⟩ := hdoc.softmax scores h
  have heq := hsoft.softmax_eq _ (List.Perm.refl _)
  rw [map_getD_range] at heq
  have hnonneg : ∀ x ∈ torch.softmax scores, 0 ≤ x := by
    intro x hx
    rw [heq] at hx
    obtain ⟨i, hi, rfl⟩ := List.mem_map.1 hx
    exact hsoft.nonneg i (List.mem_range.1 hi)
  have hsum : 0 < (torch.softmax scores).sum := by
    rw [heq, hsoft.sum_eq_one]
    exact zero_lt_one
  obtain ⟨x, hx, hpos⟩ := hdoc.multinomial _ rng hnonneg hsum
  generalize torch.multinomial (torch.softmax scores) rng = i at hx ⊢
  rw [heq, List.getElem?_map] at hx
  obtain ⟨j, hj, rfl⟩ := Option.map_eq_some_iff.1 hx
  obtain ⟨_, rfl⟩ := List.getElem?_eq_some_iff.1 hj
  rw [List.getElem_range] at hpos
  exact fun hbot => hpos.ne' (hzero i hbot)

/-! ## A torch with rational exponentials -/

/-- Positive, and it goes up. -/
def rationalExp (s : ℚ) : ℚ :=
  if s ≤ 0 then 1 / (1 - s) else 1 + s

/-- Draws the first token with a weight. -/
def drawFirst : Torch where
  softmax := Softmax.softmax rationalExp
  multinomial probs _ := probs.findIdx (0 < ·)

theorem rationalExp_pos (s : ℚ) : 0 < rationalExp s := by
  unfold rationalExp
  split_ifs with h
  · exact one_div_pos.2 (by linarith)
  · linarith

theorem rationalExp_mono {s t : ℚ} (h : s ≤ t) : rationalExp s ≤ rationalExp t := by
  unfold rationalExp
  split_ifs with hs ht ht
  · exact one_div_le_one_div_of_le (by linarith) (by linarith)
  · have hle : 1 / (1 - s) ≤ 1 := by
      rw [div_le_one (by linarith)]
      linarith
    linarith
  · linarith
  · linarith

theorem weight_nonneg (s : WithBot ℚ) : 0 ≤ Softmax.weight rationalExp s := by
  cases s with
  | bot => exact le_rfl
  | coe s => exact (rationalExp_pos s).le

theorem weight_mono {s t : WithBot ℚ} (h : s ≤ t) :
    Softmax.weight rationalExp s ≤ Softmax.weight rationalExp t := by
  cases s with
  | bot => exact weight_nonneg t
  | coe s =>
    cases t with
    | bot => exact absurd h (by simp)
    | coe t => exact rationalExp_mono (WithBot.coe_le_coe.1 h)

theorem sum_weight_pos (h : ∃ s ∈ scores, s ≠ ⊥) :
    0 < (scores.map (Softmax.weight rationalExp)).sum := by
  obtain ⟨s, hs, hne⟩ := h
  refine lt_of_lt_of_le ?_ (List.single_le_sum (fun x hx => ?_) _ (List.mem_map_of_mem hs))
  · lift s to ℚ using hne
    exact rationalExp_pos s
  · obtain ⟨t, -, rfl⟩ := List.mem_map.1 hx
    exact weight_nonneg t

theorem drawFirst_documented : drawFirst.Documented where
  softmax scores h := by
    have hsum := sum_weight_pos h
    have hperm {order : List ℕ} (h : order.Perm (List.range scores.length)) :
        (order.map fun i => scores.getD i ⊥).Perm scores := by
      have hmap := h.map fun i => scores.getD i ⊥
      rwa [map_getD_range] at hmap
    refine ⟨fun i => Softmax.weight rationalExp (scores.getD i ⊥) /
      (scores.map (Softmax.weight rationalExp)).sum, ⟨fun i _ => ?_, ?_, fun i _ j _ hle => ?_,
        fun order horder => ?_⟩, fun i hbot => ?_⟩
    · exact div_nonneg (weight_nonneg _) hsum.le
    · have heq := List.map_map (f := fun i => scores.getD i ⊥) (g := fun s =>
        Softmax.weight rationalExp s / (scores.map (Softmax.weight rationalExp)).sum)
          (l := List.range scores.length)
      rw [map_getD_range] at heq
      refine (congrArg List.sum heq.symm).trans ?_
      simp only [div_eq_mul_inv]
      rw [List.sum_map_mul_right, mul_inv_cancel₀ hsum.ne']
    · exact div_le_div_of_nonneg_right (weight_mono hle) hsum.le
    · change Softmax.softmax rationalExp _ = _
      rw [Softmax.softmax, ((hperm horder).map _).sum_eq, List.map_map]
      rfl
    · simp only [hbot, Softmax.weight, zero_div]
  multinomial probs rng hnonneg hsum := by
    have hsome : ∃ x ∈ probs, 0 < x := by
      by_contra hnone
      push Not at hnone
      exact hsum.ne' (List.sum_eq_zero fun x hx => le_antisymm (hnone x hx) (hnonneg x hx))
    have hlt : probs.findIdx (0 < ·) < probs.length := by
      simpa using hsome
    refine ⟨_, List.getElem?_eq_getElem hlt, ?_⟩
    have hget := List.findIdx_getElem (w := hlt)
    simpa using hget

/-! ## What stays -/

/-- A sampled token is one that the filters leave : it is in the nucleus of the `top_k` largest
scores, and fewer than `top_k` tokens have a larger score than it. -/
theorem sampleToken_survives (hdoc : torch.Documented) {config : GenerationConfig}
    {sequence : Sequence} (hdraws : ¬Greedy config sequence) {logits : List ℚ} (hne : logits ≠ [])
    (rng : ℕ) :
    let temperature := sequence.metadata.temperature.getD config.defaultTemperature
    let topP := sequence.metadata.topP.getD config.defaultTopP
    let topK := sequence.metadata.topK.getD config.defaultTopK
    let penalty := sequence.metadata.repetitionPenalty.getD config.defaultRepetitionPenalty
    let scores := (penalise penalty sequence.outputIds logits).map fun s =>
      ((s / temperature : ℚ) : WithBot ℚ)
    ∃ i < logits.length, sampleToken torch config logits sequence rng = ((i : ℤ), rng + 1) ∧
      i ∈ keptTokens torch topP (topKScores topK scores) ∧
      (0 < topK → (scores.countP (scores.getD i ⊥ < ·) : ℤ) < topK) := by
  intro temperature topP topK penalty scores
  have hlen : scores.length = logits.length := by simp [scores, penalise]
  have hscores : ∃ s ∈ scores, s ≠ ⊥ := by
    have hpos : 0 < scores.length := hlen ▸ List.length_pos_of_ne_nil hne
    refine ⟨_, List.getElem_mem hpos, ?_⟩
    rw [List.getElem_map]
    exact WithBot.coe_ne_bot
  have hdrawn := exists_multinomial_softmax hdoc
    (exists_topPScores_ne_bot hdoc topP (exists_topKScores_ne_bot topK hscores)) rng
  have hsample : sampleToken torch config logits sequence rng = (((torch.multinomial
      (torch.softmax (topPScores torch topP (topKScores topK scores))) rng : ℕ) : ℤ), rng + 1) := by
    unfold sampleToken
    dsimp only
    rw [applyRepetitionPenalty_eq]
    exact if_neg hdraws
  rw [hsample]
  generalize torch.multinomial _ rng = i at hdrawn ⊢
  rw [getD_topPScores] at hdrawn
  split_ifs at hdrawn with hkept
  · have hi : i < logits.length := by
      rw [← hlen, ← length_topKScores topK scores]
      exact lt_length_of_getD_ne_bot hdrawn
    refine ⟨i, hi, rfl, hkept, fun hpos => ?_⟩
    by_contra hmany
    refine hdrawn ?_
    rw [topKScores_eq hpos, List.getD_eq_getElem?_getD, List.getElem?_map,
      List.getElem?_eq_getElem (hlen ▸ hi), Option.map_some, Option.getD_some]
    rw [List.getD_eq_getElem?_getD, List.getElem?_eq_getElem (hlen ▸ hi),
      Option.getD_some] at hmany
    exact if_neg hmany
  · exact absurd rfl hdrawn

/-- Its two largest scores stay. -/
def sampledSequence : Sequence where
  seqId := 0
  sessionId := "a"
  inputIds := [0]
  maxNewTokens := 4
  outputIds := [1]
  metadata := { topK := some 2 }

theorem sampleToken_survives_drawFirst :
    let scores := (penalise (27 / 25) [1] [1, 3, 2, 3]).map fun s =>
      ((s / (7 / 10) : ℚ) : WithBot ℚ)
    ∃ i : ℕ, i < 4 ∧ sampleToken drawFirst {} [1, 3, 2, 3] sampledSequence 0 = ((i : ℤ), 1) ∧
      i ∈ keptTokens drawFirst (4 / 5) (topKScores 2 scores) ∧
      scores.countP (scores.getD i ⊥ < ·) < 2 := by
  have hdraws : ¬Greedy {} sampledSequence := not_le.2 (by decide +kernel)
  obtain ⟨i, hi, hsample, hkept, hcount⟩ := sampleToken_survives drawFirst_documented hdraws
    (List.cons_ne_nil 1 [3, 2, 3]) 0
  exact ⟨i, hi, hsample, hkept, Int.ofNat_lt.1 (hcount (by decide))⟩

end SoloRT
