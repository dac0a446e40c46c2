import SoloRT.Sequence
import Mathlib.Algebra.Order.Field.Rat
import Mathlib.Order.WithBot
import Mathlib.Data.List.Dedup

/-!
# Sampling a token

`_sample_token` and what it calls (`model/executor.py`). Scores are exact rationals, and a
score of minus infinity is `⊥`. The exponentials of `torch.softmax` and the draws of
`torch.multinomial` are the parameters `Torch`; the state of the generator is the number of
draws made.

Sampling raises nothing here. That is so as long as the logits are not float32, or the
penalty is at most 1, and the scores stay finite when they are divided by the temperature. The
`.float()` of float32 logits is no copy, so the penalty would write in place into a tensor of
inference mode, and a quotient that overflows makes `torch.softmax` return nan.

A greedy request never draws : its token is the first index of the largest score
(`sampleToken_greedy`), after a penalty on the tokens it has already generated. The code
applies the penalty to one token after the other, which is the same as to all of them at once
(`applyRepetitionPenalty_eq`).
-/

namespace SoloRT

/-- The configuration that the executors read, `TransformersGenerationConfig`. -/
structure GenerationConfig where
  defaultTemperature : ℚ := 7 / 10
  defaultTopP : ℚ := 4 / 5
  defaultTopK : ℤ := 20
  defaultRepetitionPenalty : ℚ := 27 / 25
  defaultMaxRepeatedTokenRun : ℤ := 16
  speculativeTokens : ℤ := 0
  graphMaxLen : ℕ := 1024
  decodeChunk : ℤ := 4
  deriving DecidableEq, Repr

structure Torch where
  softmax : List (WithBot ℚ) → List ℚ
  multinomial : List ℚ → ℕ → ℕ

/-- `torch.argmax` : the first index of the largest score. -/
def argmax (scores : List ℚ) : ℕ :=
  (scores.zipIdx.foldl (fun (best : Option (ℚ × ℕ)) e =>
    if best.all (fun b => b.1 < e.1) then some e else best) none).elim 0 Prod.snd

/-- `_greedy_token`. -/
def greedyToken (logits : List ℚ) : TokenId :=
  argmax logits

/-- A score under the repetition penalty. -/
def penaliseScore (penalty score : ℚ) : ℚ :=
  if score > 0 then score / penalty else score * penalty

/-- The body of the loop of `_apply_repetition_penalty`. -/
def penaliseToken (penalty : ℚ) (scores : List ℚ) (tokenId : TokenId) : List ℚ :=
  if tokenId < 0 ∨ (scores.length : ℤ) ≤ tokenId then scores
  else scores.modify tokenId.toNat (penaliseScore penalty)

/-- `_apply_repetition_penalty`, on scores of its own. The code writes into those it is given. -/
def applyRepetitionPenalty (scores : List ℚ) (outputIds : List TokenId) (penalty : ℚ) : List ℚ :=
  if penalty ≤ 1 ∨ outputIds = [] then scores
  else outputIds.dedup.foldl (penaliseToken penalty) scores

/-- Only the `k` largest scores stay. -/
def topKScores (k : ℤ) (scores : List (WithBot ℚ)) : List (WithBot ℚ) :=
  if 0 < k ∧ k < scores.length then
    let threshold := (scores.mergeSort fun a b => b ≤ a).getD (k.toNat - 1) ⊥
    scores.map fun s => if s < threshold then ⊥ else s
  else scores

/-- Only the largest scores that make up the probability `p` stay. -/
def topPScores (torch : Torch) (p : ℚ) (scores : List (WithBot ℚ)) : List (WithBot ℚ) :=
  if 0 < p ∧ p < 1 then
    let sorted := scores.zipIdx.mergeSort fun a b => b.1 ≤ a.1
    let cumulative := ((torch.softmax (sorted.map Prod.fst)).scanl (· + ·) 0).tail
    -- shifted by one, so that the score that reaches `p` stays
    let remove := false :: (cumulative.map fun c => decide (p < c)).dropLast
    let removed := (sorted.zip remove).filter Prod.snd |>.map (·.1.2)
    removed.foldl (fun scores i => scores.set i ⊥) scores
  else scores

/-- `_sample_token` on a copy of the logits, with the number of draws made. -/
def sampleToken (torch : Torch) (config : GenerationConfig) (logits : List ℚ)
    (sequence : Sequence) (rng : ℕ) : TokenId × ℕ :=
  let temperature := sequence.metadata.temperature.getD config.defaultTemperature
  let topP := sequence.metadata.topP.getD config.defaultTopP
  let topK := sequence.metadata.topK.getD config.defaultTopK
  let repetitionPenalty :=
    sequence.metadata.repetitionPenalty.getD config.defaultRepetitionPenalty
  let scores := applyRepetitionPenalty logits sequence.outputIds repetitionPenalty
  if temperature ≤ 0 then (argmax scores, rng)
  else
    let scores := scores.map fun s => ((s / temperature : ℚ) : WithBot ℚ)
    let scores := topPScores torch topP (topKScores topK scores)
    (torch.multinomial (torch.softmax scores) rng, rng + 1)

/-! ## Greedy requests -/

/-- The request asks for greedy tokens. -/
def Greedy (config : GenerationConfig) (sequence : Sequence) : Prop :=
  sequence.metadata.temperature.getD config.defaultTemperature ≤ 0

/-- The scores with the penalty on the tokens `tokenIds`. -/
def penalise (penalty : ℚ) (tokenIds : List TokenId) (scores : List ℚ) : List ℚ :=
  scores.mapIdx fun i s => if 1 < penalty ∧ (i : ℤ) ∈ tokenIds then penaliseScore penalty s else s

theorem getElem?_penaliseToken (penalty : ℚ) (scores : List ℚ) (t : TokenId) (i : ℕ) :
    (penaliseToken penalty scores t)[i]? =
      scores[i]?.map fun s => if t = i then penaliseScore penalty s else s := by
  unfold penaliseToken
  by_cases h : t < 0 ∨ (scores.length : ℤ) ≤ t
  · rw [if_pos h]
    rcases Nat.lt_or_ge i scores.length with hi | hi
    · have hne : t ≠ (i : ℤ) := by
        rintro rfl
        rcases h with h | h
        · exact absurd h (by simp)
        · exact absurd (Int.ofNat_le.1 h) (not_le.2 hi)
      simp [hne]
    · simp [hi]
  · rw [if_neg h, List.getElem?_modify]
    rw [not_or, not_lt] at h
    have hiff : t.toNat = i ↔ t = (i : ℤ) := by
      have hnonneg : (0 : ℤ) ≤ t := h.1
      constructor
      · rintro rfl
        exact (Int.toNat_of_nonneg hnonneg).symm
      · rintro rfl
        simp
    simp only [hiff]
    by_cases hti : t = (i : ℤ) <;> simp [hti]

/-- The loop over distinct tokens changes the score of each once. -/
theorem getElem?_foldl_penaliseToken (penalty : ℚ) (i : ℕ) : ∀ (ts : List TokenId)
    (scores : List ℚ), ts.Nodup → (ts.foldl (penaliseToken penalty) scores)[i]? =
      scores[i]?.map fun s => if (i : ℤ) ∈ ts then penaliseScore penalty s else s
  | [], scores, _ => by simp
  | t :: ts, scores, hnd => by
    obtain ⟨ht, hts⟩ := List.nodup_cons.1 hnd
    rw [List.foldl_cons, getElem?_foldl_penaliseToken penalty i ts _ hts,
      getElem?_penaliseToken, Option.map_map]
    congr 1
    funext s
    by_cases hti : t = i
    · subst hti
      simp [ht]
    · have hit : (i : ℤ) ≠ t := fun h => hti h.symm
      simp [hti, hit]

/-- The penalty is applied to every generated token at once. -/
theorem applyRepetitionPenalty_eq (scores : List ℚ) (outputIds : List TokenId) (penalty : ℚ) :
    applyRepetitionPenalty scores outputIds penalty = penalise penalty outputIds scores := by
  refine List.ext_getElem? fun i => ?_
  unfold applyRepetitionPenalty penalise
  rw [List.getElem?_mapIdx]
  by_cases h : penalty ≤ 1 ∨ outputIds = []
  · rw [if_pos h]
    rcases h with h | rfl
    · simp [not_lt.2 h]
    · simp
  · rw [if_neg h]
    rw [not_or, not_le] at h
    rw [getElem?_foldl_penaliseToken _ _ _ _ outputIds.nodup_dedup]
    simp only [List.mem_dedup, h.1, true_and]

theorem penalise_one (tokenIds : List TokenId) (scores : List ℚ) :
    penalise 1 tokenIds scores = scores := by
  refine List.ext_getElem? fun i => ?_
  simp [penalise, List.getElem?_mapIdx]

/-- The token of a greedy request is the argmax of its penalised scores. -/
theorem sampleToken_greedy {config : GenerationConfig} {sequence : Sequence}
    (h : Greedy config sequence) (torch : Torch) (logits : List ℚ) (rng : ℕ) :
    sampleToken torch config logits sequence rng =
      (greedyToken (penalise
        (sequence.metadata.repetitionPenalty.getD config.defaultRepetitionPenalty)
        sequence.outputIds logits), rng) := by
  unfold sampleToken
  unfold Greedy at h
  dsimp only
  rw [if_pos h, applyRepetitionPenalty_eq]
  rfl

end SoloRT
