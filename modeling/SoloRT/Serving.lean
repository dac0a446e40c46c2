import SoloRT.Generation
import SoloRT.Sampling
import SoloRT.Execution

/-!
# The serving states of an executor

Every executor keeps a `_ServingState` per sequence, and appends a token to it in the same way
(`_append_token_result`). The token finishes the state on the limit, on EOS, on a stop token or
on a run of equal tokens (`endsGeneration`), and a finished state is dropped from the
dictionary.

The runtime checks the first three again, and takes the fourth from the sample. So it consumes
exactly the samples that the executor returns (`Chunk.consumed`).

The tokenizer is the parameter `Tokenizer`. The mirror of the decoded text is left out: nothing
reads it.
-/

namespace SoloRT

structure Tokenizer where
  eosTokenId : Option TokenId
  decode : List TokenId → Text
  chatTokenIds : List Message → Bool → Except PyError (List TokenId)

/-- `_eos_token_id`. -/
def Tokenizer.eos (tokenizer : Tokenizer) : TokenId :=
  tokenizer.eosTokenId.getD 0

/-- A tokenizer with one token for each character. -/
def charTokenizer : Tokenizer where
  eosTokenId := some 0
  decode tokenIds := tokenIds.map fun t => Char.ofNat (97 + t.toNat)
  chatTokenIds messages _ :=
    .ok ((messages.flatMap Message.content).map fun c => (c.toNat : TokenId))

/-- `_ServingState`, over the type `δ` of the caches of a draft model. -/
structure ServingState (δ : Type) where
  pastKeyValues : Option ℕ := none
  promptTokenCount : ℕ
  prefilledTokenCount : ℕ := 0
  pendingTokenId : Option TokenId := none
  generatedTokenIds : List TokenId := []
  finished : Bool := false
  detokPrefixOffset : ℕ := 0
  detokReadOffset : ℕ := 0
  draftPastKeyValues : Option δ := none
  draftCachedLen : ℕ := 0
  /-- The attribute `_draft_prefilled` of the graphed speculative executor. -/
  draftPrefilled : Bool := false

/-- The dictionary `_states`. -/
abbrev ServingStates (δ : Type) := SeqId → Option (ServingState δ)

namespace ServingStates

variable {δ : Type} (states : ServingStates δ)

/-- `_ensure_state`. The new state is stored with the changes that follow. -/
def ensure (sequence : Sequence) : ServingState δ :=
  (states sequence.seqId).getD { promptTokenCount := sequence.numPromptTokens }

/-- A finished state is popped. -/
def store (seqId : SeqId) (state : ServingState δ) : ServingStates δ :=
  Function.update states seqId (if state.finished then none else some state)

end ServingStates

section

variable {δ : Type} (config : GenerationConfig) (tokenizer : Tokenizer) (sequence : Sequence)

/-- `_hit_repeated_token_run`. -/
def hitRepeatedTokenRun (tokenIds : List TokenId) : Bool :=
  let maxRun := sequence.metadata.maxRepeatedTokenRun.getD config.defaultMaxRepeatedTokenRun
  if maxRun ≤ 0 ∨ (tokenIds.length : ℤ) < maxRun then false
  else (tokenIds.drop (tokenIds.length - maxRun.toNat)).all (some · = tokenIds.getLast?)

/-- `_decode_delta`, for a token already in `generated_token_ids`. -/
def decodeDelta (state : ServingState δ) (tokenId : TokenId) : Text × ServingState δ :=
  if tokenId = tokenizer.eos then ([], state)
  else
    let tokens := state.generatedTokenIds
    let prefixText := tokenizer.decode
      ((tokens.take state.detokReadOffset).drop state.detokPrefixOffset)
    let newText := tokenizer.decode (tokens.drop state.detokPrefixOffset)
    if newText.length ≤ prefixText.length ∨ newText.getLast? = some '\uFFFD' then ([], state)
    else
      (newText.drop prefixText.length,
        { state with
          detokPrefixOffset := state.detokReadOffset
          detokReadOffset := tokens.length })

/-- The condition of `_append_token_result` that finishes a state, on its tokens. -/
def endsGeneration (tokenIds : List TokenId) : Bool :=
  sequence.maxNewTokens ≤ tokenIds.length ||
    tokenIds.getLast?.any (fun t => t = tokenizer.eos || sequence.stopTokenIds.contains t) ||
    hitRepeatedTokenRun config sequence tokenIds

/-- `_append_token_result`. -/
def appendTokenResult (state : ServingState δ) (tokenId : TokenId) :
    SampleResult × ServingState δ :=
  let state := { state with generatedTokenIds := state.generatedTokenIds ++ [tokenId] }
  let (text, state) := decodeDelta tokenizer state tokenId
  let state :=
    { state with
      finished := state.finished ||
        endsGeneration config tokenizer sequence state.generatedTokenIds }
  ({ tokenId, text, finished := state.finished }, state)

/-- Append the tokens of a chunk, up to the one that finishes the state. -/
def appendTokenResults : ServingState δ → List TokenId → List SampleResult × ServingState δ
  | state, [] => ([], state)
  | state, tokenId :: tokenIds =>
    let (result, state) := appendTokenResult config tokenizer sequence state tokenId
    if state.finished then ([result], state)
    else
      let (results, state) := appendTokenResults state tokenIds
      (result :: results, state)

end

/-! ## The samples of a chunk -/

/-- The samples of a chunk after the tokens `ts` : each says whether its token ends the
generation, and none comes after one that does. -/
def Chunk (stop : List TokenId → Bool) : List TokenId → List SampleResult → Prop
  | _, [] => True
  | ts, x :: xs => x.finished = stop (ts ++ [x.tokenId]) ∧ (x.finished = true → xs = []) ∧
    Chunk stop (ts ++ [x.tokenId]) xs

section

variable {δ : Type} {config : GenerationConfig} {tokenizer : Tokenizer} {sequence : Sequence}

/-- The parts of a serving state that appending a token does not change. -/
structure SameCache (state state' : ServingState δ) : Prop where
  pastKeyValues : state'.pastKeyValues = state.pastKeyValues
  promptTokenCount : state'.promptTokenCount = state.promptTokenCount
  prefilledTokenCount : state'.prefilledTokenCount = state.prefilledTokenCount
  pendingTokenId : state'.pendingTokenId = state.pendingTokenId

variable (tokenizer) in
theorem decodeDelta_spec (state : ServingState δ) (tokenId : TokenId) :
    SameCache state (decodeDelta tokenizer state tokenId).2 ∧
      (decodeDelta tokenizer state tokenId).2.generatedTokenIds = state.generatedTokenIds ∧
      (decodeDelta tokenizer state tokenId).2.finished = state.finished := by
  simp only [decodeDelta]
  split_ifs <;> exact ⟨⟨rfl, rfl, rfl, rfl⟩, rfl, rfl⟩

/-- Appending a token to a state that is not finished. -/
theorem appendTokenResult_spec {state : ServingState δ} (hfin : state.finished = false)
    (tokenId : TokenId) {result : SampleResult} {state' : ServingState δ}
    (h : appendTokenResult config tokenizer sequence state tokenId = (result, state')) :
    SameCache state state' ∧ result.tokenId = tokenId ∧
      state'.generatedTokenIds = state.generatedTokenIds ++ [tokenId] ∧
      state'.finished =
        endsGeneration config tokenizer sequence (state.generatedTokenIds ++ [tokenId]) ∧
      result.finished = state'.finished := by
  obtain ⟨hsame, hgen, hfin'⟩ := decodeDelta_spec tokenizer
    { state with generatedTokenIds := state.generatedTokenIds ++ [tokenId] } tokenId
  unfold appendTokenResult at h
  simp only [Prod.mk.injEq] at h
  obtain ⟨rfl, rfl⟩ := h
  refine ⟨⟨hsame.1, hsame.2, hsame.3, hsame.4⟩, rfl, hgen, ?_, rfl⟩
  dsimp only
  rw [hgen, hfin', hfin, Bool.false_or]

/-- Appending a chunk of tokens to a state that is not finished. -/
theorem appendTokenResults_spec {tokenIds : List TokenId} : ∀ {state : ServingState δ}
    {results : List SampleResult} {state' : ServingState δ}, state.finished = false →
    appendTokenResults config tokenizer sequence state tokenIds = (results, state') →
    SameCache state state' ∧
      Chunk (endsGeneration config tokenizer sequence) state.generatedTokenIds results ∧
      results.map SampleResult.tokenId =
        Generation.cut (endsGeneration config tokenizer sequence) state.generatedTokenIds tokenIds ∧
      state'.generatedTokenIds =
        state.generatedTokenIds ++ results.map SampleResult.tokenId ∧
      state'.finished = results.getLast?.any SampleResult.finished := by
  induction tokenIds with
  | nil =>
    rintro state results state' hfin h
    cases h
    exact ⟨⟨rfl, rfl, rfl, rfl⟩, trivial, rfl, by simp, by simpa using hfin⟩
  | cons t ts ih =>
    intro state results state' hfin h
    unfold appendTokenResults at h
    cases hone : appendTokenResult config tokenizer sequence state t with
    | mk result state₁ =>
      obtain ⟨hsame, hid, hgen, hfin₁, hres⟩ := appendTokenResult_spec hfin t hone
      rw [hone] at h
      dsimp only at h
      rw [Generation.cut]
      by_cases hf : state₁.finished = true
      · rw [if_pos hf] at h
        cases h
        rw [if_pos (hfin₁ ▸ hf)]
        refine ⟨hsame, ⟨?_, fun _ => rfl, trivial⟩, by simp [hid], by simp [hgen, hid], ?_⟩
        · rw [hres, hfin₁, hid]
        · simp [hres]
      · rw [if_neg hf] at h
        rw [Bool.not_eq_true] at hf
        cases hmore : appendTokenResults config tokenizer sequence state₁ ts with
        | mk results₂ state₂ =>
          rw [hmore] at h
          cases h
          obtain ⟨hsame₂, hchunk, hids, hgen₂, hfin₂⟩ := ih hf hmore
          rw [hgen] at hchunk hids hgen₂
          rw [if_neg (by rw [← hfin₁, hf]; exact Bool.false_ne_true)]
          refine ⟨⟨hsame₂.1.trans hsame.1, hsame₂.2.trans hsame.2, hsame₂.3.trans hsame.3,
            hsame₂.4.trans hsame.4⟩, ⟨?_, ?_, ?_⟩, ?_, ?_, ?_⟩
          · rw [hres, hfin₁, hid]
          · rw [hres, hf]
            exact fun h => absurd h Bool.false_ne_true
          · rw [hid]
            exact hchunk
          · rw [List.map_cons, hid, hids]
          · rw [hgen₂, List.map_cons, hid, List.append_assoc, List.singleton_append]
          · cases results₂ with
            | nil => simpa [hres, hf] using hfin₂
            | cons x xs => simpa using hfin₂

/-- The chunk of one token. -/
theorem appendTokenResults_singleton (state : ServingState δ) (t : TokenId) :
    appendTokenResults config tokenizer sequence state [t] =
      ([(appendTokenResult config tokenizer sequence state t).1],
        (appendTokenResult config tokenizer sequence state t).2) := by
  rw [appendTokenResults]
  dsimp only
  split_ifs <;> rfl

/-- Appending a chunk and then one more token. -/
theorem appendTokenResults_concat (tokenIds : List TokenId) (t : TokenId)
    {state : ServingState δ} (hfin : state.finished = false) :
    appendTokenResults config tokenizer sequence state (tokenIds ++ [t]) =
      let (results, state) := appendTokenResults config tokenizer sequence state tokenIds
      if state.finished then (results, state)
      else
        let (result, state) := appendTokenResult config tokenizer sequence state t
        (results ++ [result], state) := by
  induction tokenIds generalizing state with
  | nil =>
    simp only [List.nil_append, appendTokenResults, hfin, Bool.false_eq_true, if_false]
    split_ifs <;> rfl
  | cons u us ih =>
    simp only [List.cons_append, appendTokenResults]
    by_cases hf : (appendTokenResult config tokenizer sequence state u).2.finished = true
    · simp [hf]
    · rw [if_neg hf, if_neg hf]
      rw [Bool.not_eq_true] at hf
      rw [ih hf]
      dsimp only
      split_ifs <;> rfl

end

/-- The last sample of a chunk says whether all its tokens end the generation. -/
theorem Chunk.any_getLast {stop : List TokenId → Bool} : ∀ {ts : List TokenId}
    {xs : List SampleResult}, Chunk stop ts xs → xs ≠ [] →
    xs.getLast?.any SampleResult.finished = stop (ts ++ xs.map SampleResult.tokenId)
  | ts, [x], h, _ => by simpa using h.1
  | ts, x :: y :: xs, h, _ => by
    have hrest := h.2.2.any_getLast (by simp)
    rw [List.getLast?_cons_cons, hrest]
    simp

/-! ## What the runtime does with a chunk -/

/-- The runtime stops at a sample exactly when the executor did. -/
theorem finishesWith_eq {config : GenerationConfig} {tokenizer : Tokenizer} {s : Sequence}
    {x : SampleResult}
    (hx : x.finished = endsGeneration config tokenizer s (s.outputIds ++ [x.tokenId])) :
    finishesWith (appendSample s x) x = x.finished := by
  have hlast : (s.outputIds ++ [x.tokenId]).getLast? = some x.tokenId := by simp
  unfold finishesWith
  rw [hx]
  unfold endsGeneration
  rw [hlast]
  simp only [appendSample, Sequence.generatedTokens, Option.any_some]
  cases decide (s.maxNewTokens ≤ (s.outputIds ++ [x.tokenId]).length) <;>
    cases s.stopTokenIds.contains x.tokenId <;> simp

/-- What ends a generation is fixed when the request is added. -/
theorem endsGeneration_of_request {config : GenerationConfig} {tokenizer : Tokenizer}
    {s t : Sequence} (h : s.request = t.request) :
    endsGeneration config tokenizer s = endsGeneration config tokenizer t := by
  have hmax : s.maxNewTokens = t.maxNewTokens := Sequence.maxNewTokens_of_request h
  have hstop : s.stopTokenIds = t.stopTokenIds :=
    show s.request.stopTokenIds = t.request.stopTokenIds from congrArg _ h
  have hrun : s.metadata.maxRepeatedTokenRun = t.metadata.maxRepeatedTokenRun :=
    show s.request.metadata.maxRepeatedTokenRun = t.request.metadata.maxRepeatedTokenRun from
      congrArg (fun s => s.metadata.maxRepeatedTokenRun) h
  funext ts
  unfold endsGeneration hitRepeatedTokenRun
  rw [hmax, hstop, hrun]

/-- The runtime consumes all samples of a chunk, and finishes the sequence if the last one
does. -/
theorem Chunk.consumed {config : GenerationConfig} {tokenizer : Tokenizer} :
    ∀ {xs : List SampleResult} {s : Sequence}, s.isTerminal = false →
      Chunk (endsGeneration config tokenizer s) s.outputIds xs →
      SoloRT.consumed xs s = xs ∧ Finishes xs s = xs.getLast?.any SampleResult.finished
  | [], s, _, _ => ⟨rfl, rfl⟩
  | x :: xs, s, hs, h => by
    obtain ⟨hx, hend, hxs⟩ := h
    have hfin := finishesWith_eq hx
    have hreq : endsGeneration config tokenizer (appendSample s x) =
        endsGeneration config tokenizer s := by
      refine endsGeneration_of_request ?_
      have := request_appendSamples s [x]
      rwa [appendSamples_cons, appendSamples_nil] at this
    rw [SoloRT.consumed, if_neg (by simp [hs]), hfin]
    cases hxf : x.finished with
    | true =>
      obtain rfl := hend hxf
      refine ⟨rfl, ?_⟩
      simp only [Finishes, List.getLast?_singleton, appendSamples_cons, appendSamples_nil, hfin,
        Option.any_some]
    | false =>
      rw [← hreq] at hxs
      obtain ⟨hall, hlast⟩ := Chunk.consumed (s := appendSample s x) (by simpa using hs) hxs
      rw [hall]
      refine ⟨rfl, ?_⟩
      cases xs with
      | nil =>
        simp only [Finishes, List.getLast?_singleton, appendSamples_cons, appendSamples_nil, hfin,
          Option.any_some]
      | cons y ys =>
        simp only [Finishes, List.getLast?_cons_cons] at hlast ⊢
        rw [← hlast]
        simp only [appendSamples_cons]

end SoloRT
