import SoloRT.Serving

/-!
# The Transformers executor

`TransformersTextExecutor` (`model/executor.py`) : chunked prefill, one-token decode, and greedy
speculative decoding with a draft model.

The target model is the parameter `CausalLM` : its logits are a function of the tokens in the
cache up to the fed one. A `past_key_values` object is a cell of a heap that holds the tokens
whose K/V it has. A model with `inPlace` appends to the object it is given and returns it, as
`DynamicCache` does; otherwise it returns a new object. The draft model is any function of a
cache of its own. Attention masks and the write context of the FlashInfer backend are left
out : they do not change which tokens are fed.
-/

namespace SoloRT

/-- The `past_key_values` objects of the target model. -/
structure CacheHeap where
  tokens : ℕ → List TokenId := fun _ => []
  next : ℕ := 0

/-- The target model. -/
structure CausalLM where
  logits : List TokenId → List ℚ
  inPlace : Bool

/-- One forward pass over a cache. Returns the logits at each fed token and the cache. -/
def CausalLM.forward (model : CausalLM) (heap : CacheHeap) (pastKeyValues : Option ℕ)
    (tokenIds : List TokenId) : List (List ℚ) × ℕ × CacheHeap :=
  let cached := pastKeyValues.elim [] heap.tokens
  let logits := (List.range tokenIds.length).map fun i =>
    model.logits (cached ++ tokenIds.take (i + 1))
  let id := if model.inPlace then pastKeyValues.getD heap.next else heap.next
  (logits, id,
    { tokens := Function.update heap.tokens id (cached ++ tokenIds)
      next := if id = heap.next then heap.next + 1 else heap.next })

/-- A draft model, and how its caches are cropped if they can be. -/
structure DraftModel (δ : Type) where
  forward : List TokenId → Option δ → List ℚ × δ
  crop : Option (δ → ℕ → δ)

/-- What the executor keeps : the serving states, the caches, and the draws made. -/
structure TransformersState (δ : Type) where
  states : ServingStates δ := fun _ => none
  heap : CacheHeap := {}
  rng : ℕ := 0

/-- The cache object of a sequence. -/
def TransformersState.pastOf {δ : Type} (st : TransformersState δ) (id : SeqId) : Option ℕ :=
  (st.states id).bind ServingState.pastKeyValues

structure TransformersTextExecutor (δ : Type) where
  config : GenerationConfig
  tokenizer : Tokenizer
  torch : Torch
  model : CausalLM
  draftModel : Option (DraftModel δ)

namespace TransformersTextExecutor

variable {δ : Type} (ex : TransformersTextExecutor δ)

/-- What an executor call works on. -/
abbrev Env (δ : Type) := ExecutorEnv (TransformersState δ)

/-- Store a serving state at the end of a call. -/
def store (env : Env δ) (seqId : SeqId) (state : ServingState δ) : Env δ :=
  { env with state := { env.state with states := env.state.states.store seqId state } }

/-- Run the target model on the cache of a serving state. -/
def targetForward (env : Env δ) (pastKeyValues : Option ℕ) (tokenIds : List TokenId) :
    List (List ℚ) × ℕ × Env δ :=
  let (logits, id, heap) := ex.model.forward env.state.heap pastKeyValues tokenIds
  (logits, id, { env with state := { env.state with heap } })

/-- `_sample_token`. -/
def sample (env : Env δ) (logits : List ℚ) (sequence : Sequence) : TokenId × Env δ :=
  let (tokenId, rng) := sampleToken ex.torch ex.config logits sequence env.state.rng
  (tokenId, { env with state := { env.state with rng } })

def forwardPrefill (sequence : Sequence) (batch : Batch) (env : Env δ) :
    Except PyError Unit × Env δ :=
  if batch.inputIds = [] then (.ok (), env)
  else
    let state := env.state.states.ensure sequence
    let (logits, pastKeyValues, env) :=
      ex.targetForward env state.pastKeyValues batch.inputIds
    let prefilledTokenCount := state.prefilledTokenCount + batch.inputIds.length
    let state :=
      { state with
        pastKeyValues := some pastKeyValues
        prefilledTokenCount
        promptTokenCount := max state.promptTokenCount prefilledTokenCount }
    if sequence.numPromptTokens ≤ prefilledTokenCount then
      let (tokenId, env) := ex.sample env (logits.getLastD []) sequence
      (.ok (), store env sequence.seqId { state with pendingTokenId := some tokenId })
    else (.ok (), store env sequence.seqId state)

/-- The pages of a write plan, provisional or not. -/
def reservePages (env : Env δ) (startPosition tokenCount currentTokenCount : ℕ)
    (provisionalAppendTokens : ℕ) : Except PyError (Option KVCacheTransaction) × Env δ :=
  if 0 < provisionalAppendTokens then
    let (r, kvCache, blockTable) := env.kvCache.beginAppendTransaction env.blockTable
      (if currentTokenCount = 0 then startPosition + 1 else currentTokenCount)
      provisionalAppendTokens
    (r.map some, { env with kvCache, blockTable })
  else
    let (r, kvCache, blockTable) :=
      env.kvCache.ensureCapacity env.blockTable (startPosition + tokenCount)
    (r.map fun _ => none, { env with kvCache, blockTable })

/-- `_kv_write_plan`. Returns the transaction of a provisional append. -/
def kvWritePlan (env : Env δ) (startPosition tokenCount currentTokenCount : ℕ)
    (provisionalAppendTokens : ℕ) : Except PyError (Option KVCacheTransaction) × Env δ :=
  if tokenCount = 0 then (.ok none, env)
  else
    match reservePages env startPosition tokenCount currentTokenCount provisionalAppendTokens with
    | (.error e, env) => (.error e, env)
    | (.ok transaction, env) =>
      match env.kvCache.slotMapping env.blockTable (List.range' startPosition tokenCount) with
      | .error e => (.error e, env)
      | .ok _ => (.ok transaction, env)

/-- `_decode_next`. -/
def decodeNext (sequence : Sequence) (state : ServingState δ) (env : Env δ) :
    Except PyError Unit × ServingState δ × Env δ :=
  match state.generatedTokenIds.getLast? with
  | none =>
    (.ok (), { state with finished := true, pendingTokenId := some ex.tokenizer.eos }, env)
  | some last =>
    match kvWritePlan env (state.promptTokenCount + state.generatedTokenIds.length - 1) 1 0 0 with
    | (.error e, env) => (.error e, state, env)
    | (.ok _, env) =>
      let (logits, pastKeyValues, env) := ex.targetForward env state.pastKeyValues [last]
      let (tokenId, env) := ex.sample env (logits.getLastD []) sequence
      (.ok (), { state with
        pastKeyValues := some pastKeyValues
        pendingTokenId := some tokenId }, env)

/-! ## Proposing draft tokens -/

/-- `_draft_forward`. -/
def draftForward (draft : DraftModel δ) (tokenIds : List TokenId) (state : ServingState δ) :
    List ℚ × ServingState δ :=
  let (logits, past) := draft.forward tokenIds state.draftPastKeyValues
  (logits, { state with
    draftPastKeyValues := some past
    draftCachedLen := state.draftCachedLen + tokenIds.length })

/-- `_crop_draft_cache`. -/
def cropDraftCache (draft : DraftModel δ) (state : ServingState δ) (length : ℕ) :
    ServingState δ :=
  match state.draftPastKeyValues, draft.crop with
  | some past, some crop =>
    if length = 0 then { state with draftPastKeyValues := none, draftCachedLen := 0 }
    else { state with
      draftPastKeyValues := some (crop past length)
      draftCachedLen := min state.draftCachedLen length }
  | _, _ => { state with draftPastKeyValues := none, draftCachedLen := 0 }

/-- `_advance_draft_cache`. -/
def advanceDraftCache (draft : DraftModel δ) (state : ServingState δ)
    (committed : List TokenId) : List ℚ × ServingState δ :=
  let state :=
    if committed.length < state.draftCachedLen then cropDraftCache draft state committed.length
    else state
  let tail := committed.drop state.draftCachedLen
  if tail = [] then
    draftForward draft (committed.drop (committed.length - 1))
      (cropDraftCache draft state (committed.length - 1))
  else draftForward draft tail state

/-- The loop of `_draft_tokens`, with `n + 1` proposals left. -/
def proposeTokens (draft : DraftModel δ) (sequence : Sequence) :
    ℕ → List ℚ → ServingState δ → List TokenId × ServingState δ
  | n, logits, state =>
    let tokenId := greedyToken logits
    if tokenId = ex.tokenizer.eos ∨ tokenId ∈ sequence.stopTokenIds then ([tokenId], state)
    else
      match n with
      | 0 => ([tokenId], state)
      | n + 1 =>
        let (logits, state) := draftForward draft [tokenId] state
        let (tokenIds, state) := proposeTokens draft sequence n logits state
        (tokenId :: tokenIds, state)

/-- `_draft_tokens`. -/
def draftTokens (sequence : Sequence) (state : ServingState δ) (draftCount : ℤ) :
    List TokenId × ServingState δ :=
  match ex.draftModel with
  | none => ([], state)
  | some draft =>
    let committed := sequence.inputIds ++ state.generatedTokenIds
    if draftCount ≤ 0 ∨ committed = [] then ([], state)
    else
      let (logits, state) := advanceDraftCache draft state committed
      let (proposed, state) :=
        ex.proposeTokens draft sequence (draftCount.toNat - 1) logits state
      (proposed, cropDraftCache draft state committed.length)

/-! ## Speculative decoding -/

/-- `_speculative_enabled`. -/
def speculativeEnabled (sequence : Sequence) (state : ServingState δ) : Bool :=
  ex.draftModel.isSome && decide (0 < ex.config.speculativeTokens) &&
    state.generatedTokenIds ≠ [] &&
    decide (1 < (sequence.maxNewTokens : ℤ) - state.generatedTokenIds.length) &&
    decide (sequence.metadata.repetitionPenalty.getD ex.config.defaultRepetitionPenalty = 1) &&
    decide (sequence.metadata.temperature.getD ex.config.defaultTemperature ≤ 0)

/-- `_append_token_result`. -/
def append (sequence : Sequence) (state : ServingState δ) (tokenId : TokenId) :
    SampleResult × ServingState δ :=
  appendTokenResult ex.config ex.tokenizer sequence state tokenId

/-- `_target_forward_from_state`. -/
def targetForwardFromState (state : ServingState δ) (env : Env δ)
    (tokenIds : List TokenId) (provisional : Bool) :
    Except PyError (List (List ℚ) × ℕ × Option KVCacheTransaction) × Env δ :=
  let currentTokenCount := state.promptTokenCount + state.generatedTokenIds.length
  match kvWritePlan env (currentTokenCount - 1) tokenIds.length currentTokenCount
    (if provisional then tokenIds.length - 1 else 0) with
  | (.error e, env) => (.error e, env)
  | (.ok transaction, env) =>
    let (logits, pastKeyValues, env) := ex.targetForward env state.pastKeyValues tokenIds
    (.ok (logits, pastKeyValues, transaction), env)

/-- All draft tokens are accepted : keep the cache of the validation, and add the target's
next token unless the request is over. -/
def acceptAll (sequence : Sequence) (state : ServingState δ) (env : Env δ)
    (draftTokens : List TokenId) (logits : List (List ℚ)) (pastKeyValues : ℕ) :
    List SampleResult × ServingState δ × Env δ :=
  let state := { state with pastKeyValues := some pastKeyValues }
  let (results, state) := appendTokenResults ex.config ex.tokenizer sequence state draftTokens
  if state.finished then (results, state, env)
  else if state.generatedTokenIds.length < sequence.maxNewTokens then
    let (recoveryToken, env) := ex.sample env (logits.getLastD []) sequence
    let (result, state) := ex.append sequence state recoveryToken
    (results ++ [result], state, env)
  else (results, state, env)

/-- `kv_cache.rollback_transaction`, if the validation reserved pages. -/
def rollback (env : Env δ) : Option KVCacheTransaction → Except PyError Unit × Env δ
  | none => (.ok (), env)
  | some transaction =>
    let (r, kvCache, blockTable) :=
      env.kvCache.rollbackTransaction env.blockTable transaction
    (r, { env with kvCache, blockTable })

/-- Some draft token is rejected : roll the pages back, go back to the cache object of before,
replay the accepted tokens, and add the target's token in place of the rejected one. -/
def acceptPrefix (sequence : Sequence) (state : ServingState δ) (env : Env δ) (last : TokenId)
    (acceptedPrefix : List TokenId) (correctionToken : TokenId)
    (transaction : Option KVCacheTransaction) :
    Except PyError (List SampleResult) × ServingState δ × Env δ :=
  match rollback env transaction with
  | (.error e, env) => (.error e, state, env)
  | (.ok (), env) =>
    -- `state.past_key_values` is `original_past` : the object that the validation was given
    match ex.targetForwardFromState state env (last :: acceptedPrefix) false with
    | (.error e, env) => (.error e, state, env)
    | (.ok (_, pastKeyValues, _), env) =>
      let state := { state with pastKeyValues := some pastKeyValues }
      let (results, state) :=
        appendTokenResults ex.config ex.tokenizer sequence state acceptedPrefix
      if state.finished then (.ok results, state, env)
      else
        let (result, state) := ex.append sequence state correctionToken
        (.ok (results ++ [result]), state, env)

/-- `_decode_next` and its token, as the list of one result. -/
def decodeOne (sequence : Sequence) (state : ServingState δ) (env : Env δ) :
    Except PyError SampleResult × ServingState δ × Env δ :=
  match ex.decodeNext sequence state env with
  | (.error e, state, env) => (.error e, state, env)
  | (.ok (), state, env) =>
    let tokenId := state.pendingTokenId.getD 0
    let (result, state) := ex.append sequence { state with pendingTokenId := none } tokenId
    (.ok result, state, env)

/-- `_speculative_decode`. -/
def speculativeDecode (sequence : Sequence) (state : ServingState δ) (env : Env δ) :
    Except PyError (List SampleResult) × ServingState δ × Env δ :=
  let remaining : ℤ := sequence.maxNewTokens - state.generatedTokenIds.length
  let (draftTokens, state) :=
    ex.draftTokens sequence state (min ex.config.speculativeTokens remaining)
  if draftTokens = [] then
    let (r, state, env) := ex.decodeOne sequence state env
    (r.map fun result => [result], state, env)
  else
    let last := state.generatedTokenIds.getLastD 0
    match ex.targetForwardFromState state env (last :: draftTokens) true with
    | (.error e, env) => (.error e, state, env)
    | (.ok (logits, pastKeyValues, transaction), env) =>
      let targetTokens := (logits.take draftTokens.length).map greedyToken
      let accepted := Generation.agree draftTokens targetTokens
      if accepted = draftTokens.length then
        let (results, state, env) :=
          ex.acceptAll sequence state env draftTokens logits pastKeyValues
        (.ok results, state, env)
      else
        ex.acceptPrefix sequence state env last (draftTokens.take accepted)
          (targetTokens.getD accepted 0) transaction

def forwardDecode (sequence : Sequence) (_batch : Batch) (env : Env δ) :
    Except PyError DecodeOutput × Env δ :=
  let state := env.state.states.ensure sequence
  if state.finished then
    (.ok (.one { tokenId := ex.tokenizer.eos, text := [], finished := true }), env)
  else
    match state.pendingTokenId with
    | some tokenId =>
      let (result, state) := ex.append sequence { state with pendingTokenId := none } tokenId
      (.ok (.one result), store env sequence.seqId state)
    | none =>
      if ex.speculativeEnabled sequence state then
        let (r, state, env) := ex.speculativeDecode sequence state env
        (r.map DecodeOutput.many, store env sequence.seqId state)
      else
        let (r, state, env) := ex.decodeOne sequence state env
        (r.map DecodeOutput.one, store env sequence.seqId state)

end TransformersTextExecutor

end SoloRT
