import SoloRT.KVTensors
import SoloRT.StateKeeping

/-!
# The Transformers executor over the FlashInfer backend

With `attention_backend` "flashinfer" the attention callback of each layer stores the key and
value it is given in the paged cache, at the slots of the write context
(`backends/transformers_flashinfer.py`). A prefill chunk gives the slots of its batch, a decode
those of its own write plan. This is the executor with speculation off, over a cache with
tensors.

A forward pass is as for `CausalLM`, and `attention` is what the callback of a layer is given
in it. `produced` is the K/V that the model made for the fed tokens. `fed` keeps them for every
sequence, and no operation reads it.

Without the tensors this is the executor of `Transformers` (`forwardPrefill_erase`,
`forwardDecode_erase`), so it meets the protocol of the runtime and keeps its serving states.
-/

namespace SoloRT

/-- A token that was fed to the model, and the K/V made for it in each layer. -/
structure FedToken (ρ : Type) where
  tokenId : TokenId
  row : ℕ → ρ × ρ

structure FlashInferState (ρ : Type) extends TransformersState Unit where
  tensors : KVTensors ρ
  fed : SeqId → List (FedToken ρ) := fun _ => []

structure FlashInferTextExecutor (ρ : Type) where
  config : GenerationConfig
  tokenizer : Tokenizer
  torch : Torch
  model : CausalLM
  tensors : KVTensorConfig
  /-- The key and value given to the callback of a layer, by the cached and the fed tokens. -/
  attention : List TokenId → List TokenId → ℕ → LayerTensor ρ × LayerTensor ρ
  /-- The K/V made in a layer for the fed token with an index. -/
  produced : List TokenId → List TokenId → ℕ → ℕ → ρ × ρ

namespace FlashInferTextExecutor

variable {ρ : Type} (ex : FlashInferTextExecutor ρ)

abbrev Env (ρ : Type) := ExecutorEnv (FlashInferState ρ)

/-- Store a serving state at the end of a call. -/
def store (env : Env ρ) (seqId : SeqId) (state : ServingState Unit) : Env ρ :=
  { env with state := { env.state with states := env.state.states.store seqId state } }

/-- The fed tokens of one forward pass. -/
def fedTokens (cached tokenIds : List TokenId) : List (FedToken ρ) :=
  tokenIds.mapIdx fun i tokenId => ⟨tokenId, fun layer => ex.produced cached tokenIds layer i⟩

/-- Run the model on the cache of a sequence, within a write context. -/
def targetForward (env : Env ρ) (seqId : SeqId) (pastKeyValues : Option ℕ)
    (tokenIds : List TokenId) (slotMapping : List ℕ) : List (List ℚ) × ℕ × Env ρ :=
  let cached := pastKeyValues.elim [] env.state.heap.tokens
  let (logits, id, heap) := ex.model.forward env.state.heap pastKeyValues tokenIds
  let tensors := KVTensors.mirrorLayers ex.tensors env.kvCache.config.pageSize slotMapping
    (ex.attention cached tokenIds) env.state.tensors
  let fed := Function.update env.state.fed seqId
    (env.state.fed seqId ++ ex.fedTokens cached tokenIds)
  (logits, id, { env with state := { env.state with heap, tensors, fed } })

theorem store_states (env : Env ρ) (seqId : SeqId) (state : ServingState Unit) :
    (store env seqId state).state.states = env.state.states.store seqId state := rfl

/-- `_sample_token`. -/
def sample (env : Env ρ) (logits : List ℚ) (sequence : Sequence) : TokenId × Env ρ :=
  let (tokenId, rng) := sampleToken ex.torch ex.config logits sequence env.state.rng
  (tokenId, { env with state := { env.state with rng } })

def forwardPrefill (sequence : Sequence) (batch : Batch) (env : Env ρ) :
    Except PyError Unit × Env ρ :=
  if batch.inputIds = [] then (.ok (), env)
  else
    let state := env.state.states.ensure sequence
    let (logits, pastKeyValues, env) := ex.targetForward env sequence.seqId state.pastKeyValues
      batch.inputIds (batch.slotMapping.getD [])
    let prefilledTokenCount := state.prefilledTokenCount + batch.inputIds.length
    let state :=
      { state with
        pastKeyValues := some pastKeyValues
        prefilledTokenCount
        promptTokenCount := max state.promptTokenCount prefilledTokenCount }
    if sequence.numPromptTokens ≤ prefilledTokenCount then
      let (tokenId, env) := ex.sample env (logits.getLastD []) sequence
      (.ok (), store env sequence.seqId { state with pendingTokenId := some tokenId })
    else (.ok (), store env sequence.seqId state)

/-- `_kv_write_plan`, without a provisional append. Returns the slots. -/
def kvWritePlan {σ : Type} (env : ExecutorEnv σ) (startPosition tokenCount : ℕ) :
    Except PyError (List ℕ) × ExecutorEnv σ :=
  if tokenCount = 0 then (.ok [], env)
  else
    match env.kvCache.ensureCapacity env.blockTable (startPosition + tokenCount) with
    | (.error e, kvCache, blockTable) => (.error e, { env with kvCache, blockTable })
    | (.ok _, kvCache, blockTable) =>
      (kvCache.slotMapping blockTable (List.range' startPosition tokenCount),
        { env with kvCache, blockTable })

/-- `_decode_next`. -/
def decodeNext (sequence : Sequence) (state : ServingState Unit) (env : Env ρ) :
    Except PyError Unit × ServingState Unit × Env ρ :=
  match state.generatedTokenIds.getLast? with
  | none =>
    (.ok (), { state with finished := true, pendingTokenId := some ex.tokenizer.eos }, env)
  | some last =>
    match kvWritePlan env (state.promptTokenCount + state.generatedTokenIds.length - 1) 1 with
    | (.error e, env) => (.error e, state, env)
    | (.ok slotMapping, env) =>
      let (logits, pastKeyValues, env) :=
        ex.targetForward env sequence.seqId state.pastKeyValues [last] slotMapping
      let (tokenId, env) := ex.sample env (logits.getLastD []) sequence
      (.ok (), { state with
        pastKeyValues := some pastKeyValues
        pendingTokenId := some tokenId }, env)

/-- `_append_token_result`. -/
def append (sequence : Sequence) (state : ServingState Unit) (tokenId : TokenId) :
    SampleResult × ServingState Unit :=
  appendTokenResult ex.config ex.tokenizer sequence state tokenId

/-- `_decode_next` and its token. -/
def decodeOne (sequence : Sequence) (state : ServingState Unit) (env : Env ρ) :
    Except PyError SampleResult × ServingState Unit × Env ρ :=
  match ex.decodeNext sequence state env with
  | (.error e, state, env) => (.error e, state, env)
  | (.ok (), state, env) =>
    let tokenId := state.pendingTokenId.getD 0
    let (result, state) := ex.append sequence { state with pendingTokenId := none } tokenId
    (.ok result, state, env)

def forwardDecode (sequence : Sequence) (_batch : Batch) (env : Env ρ) :
    Except PyError DecodeOutput × Env ρ :=
  let state := env.state.states.ensure sequence
  if state.finished then
    (.ok (.one { tokenId := ex.tokenizer.eos, text := [], finished := true }), env)
  else
    match state.pendingTokenId with
    | some tokenId =>
      let (result, state) := ex.append sequence { state with pendingTokenId := none } tokenId
      (.ok (.one result), store env sequence.seqId state)
    | none =>
      let (r, state, env) := ex.decodeOne sequence state env
      (r.map DecodeOutput.one, store env sequence.seqId state)

/-! ## Without the tensors -/

/-- The executor without its write context. -/
def base : TransformersTextExecutor Unit where
  config := ex.config
  tokenizer := ex.tokenizer
  torch := ex.torch
  model := ex.model
  draftModel := none

/-- The environment without the tensors. -/
def erase (env : Env ρ) : TransformersTextExecutor.Env Unit where
  state := env.state.toTransformersState
  kvCache := env.kvCache
  blockTable := env.blockTable

variable {ex}

theorem kvWritePlan_erase (env : Env ρ) (start count : ℕ) :
    TransformersTextExecutor.kvWritePlan (erase env) start count 0 0 =
      ((kvWritePlan env start count).1.map fun _ => none,
        erase (kvWritePlan env start count).2) := by
  unfold TransformersTextExecutor.kvWritePlan TransformersTextExecutor.reservePages kvWritePlan
  by_cases hcount : count = 0
  · rw [if_pos hcount, if_pos hcount]
    rfl
  · rw [if_neg hcount, if_neg hcount, if_neg (lt_irrefl 0)]
    simp only [erase]
    cases env.kvCache.ensureCapacity env.blockTable (start + count) with
    | mk r p =>
      obtain ⟨kv, table⟩ := p
      obtain e | pages := r
      · rfl
      · simp only [Except.map]
        cases kv.slotMapping table (List.range' start count) <;> rfl

theorem forwardPrefill_erase (sequence : Sequence) (batch : Batch) (env : Env ρ) :
    ex.base.modelExecutor.forwardPrefill sequence batch (erase env) =
      ((ex.forwardPrefill sequence batch env).1,
        erase (ex.forwardPrefill sequence batch env).2) := by
  show ex.base.forwardPrefill sequence batch (erase env) = _
  have hstates : (erase env).state.states.ensure sequence = env.state.states.ensure sequence := rfl
  unfold forwardPrefill TransformersTextExecutor.forwardPrefill
  rw [hstates]
  by_cases hne : batch.inputIds = []
  · rw [if_pos hne, if_pos hne]
  · rw [if_neg hne, if_neg hne]
    dsimp only
    split_ifs <;> rfl

theorem decodeNext_erase (sequence : Sequence) (state : ServingState Unit) (env : Env ρ) :
    ex.base.decodeNext sequence state (erase env) =
      ((ex.decodeNext sequence state env).1, (ex.decodeNext sequence state env).2.1,
        erase (ex.decodeNext sequence state env).2.2) := by
  unfold decodeNext TransformersTextExecutor.decodeNext
  cases state.generatedTokenIds.getLast? with
  | none => rfl
  | some last =>
    dsimp only
    rw [kvWritePlan_erase]
    generalize kvWritePlan env (state.promptTokenCount + state.generatedTokenIds.length - 1) 1 = r
    obtain ⟨e | slots, env'⟩ := r <;> rfl

theorem decodeOne_erase (sequence : Sequence) (state : ServingState Unit) (env : Env ρ) :
    ex.base.decodeOne sequence state (erase env) =
      ((ex.decodeOne sequence state env).1, (ex.decodeOne sequence state env).2.1,
        erase (ex.decodeOne sequence state env).2.2) := by
  unfold decodeOne TransformersTextExecutor.decodeOne
  rw [decodeNext_erase]
  generalize ex.decodeNext sequence state env = r
  obtain ⟨e | u, state', env'⟩ := r <;> rfl

theorem forwardDecode_erase (sequence : Sequence) (batch : Batch) (env : Env ρ) :
    ex.base.modelExecutor.forwardDecode sequence batch (erase env) =
      ((ex.forwardDecode sequence batch env).1, erase (ex.forwardDecode sequence batch env).2) := by
  show ex.base.forwardDecode sequence batch (erase env) = _
  have hstates : (erase env).state.states.ensure sequence = env.state.states.ensure sequence := rfl
  unfold forwardDecode TransformersTextExecutor.forwardDecode
  rw [hstates]
  dsimp only
  by_cases hfin : (env.state.states.ensure sequence).finished = true
  · rw [if_pos hfin, if_pos hfin]
    rfl
  · rw [if_neg hfin, if_neg hfin]
    cases (env.state.states.ensure sequence).pendingTokenId with
    | some tokenId => rfl
    | none =>
      have hoff : ¬ex.base.speculativeEnabled sequence (env.state.states.ensure sequence) = true :=
        Bool.false_ne_true
      dsimp only
      rw [if_neg hoff, decodeOne_erase]
      rfl

/-! ## The protocol of the runtime -/

theorem forwardPrefill_pages (sequence : Sequence) (batch : Batch) (env : Env ρ) :
    PagedKVCache.KVSteps env.pages (ex.forwardPrefill sequence batch env).2.pages := by
  have hbase := ex.base.modelExecutor.forwardPrefill_kv sequence batch (erase env)
  rwa [forwardPrefill_erase] at hbase

theorem forwardDecode_pages (sequence : Sequence) (batch : Batch) (env : Env ρ) :
    PagedKVCache.KVSteps env.pages (ex.forwardDecode sequence batch env).2.pages := by
  have hbase := ex.base.modelExecutor.forwardDecode_kv sequence batch (erase env)
  rwa [forwardDecode_erase] at hbase

variable (ex) in
/-- The executor as the runtime uses it. -/
def modelExecutor : ModelExecutor (FlashInferState ρ) where
  supportsPrefixCache := false
  usesPagedKv := true
  tokenizeMessages := ex.tokenizer.chatTokenIds
  forwardPrefill := ex.forwardPrefill
  forwardDecode := ex.forwardDecode
  forwardPrefill_kv := forwardPrefill_pages
  forwardDecode_kv := forwardDecode_pages

variable (ex) in
/-- It keeps its serving states as the executor without tensors does. -/
theorem keepsStates :
    KeepsStates ex.modelExecutor (fun st => st.states) ex.config ex.tokenizer where
  uncached := rfl
  prefill_other q batch env id hid := by
    have hbase := ex.base.keepsStates.prefill_other q batch (erase env) id hid
    rwa [forwardPrefill_erase] at hbase
  decode_other q batch env id hid := by
    have hbase := ex.base.keepsStates.decode_other q batch (erase env) id hid
    rwa [forwardDecode_erase] at hbase
  prefill q batch env hne hfin := by
    have hbase := ex.base.keepsStates.prefill q batch (erase env) hne hfin
    rwa [forwardPrefill_erase] at hbase
  decode q batch env hfin := by
    have hbase := ex.base.keepsStates.decode q batch (erase env) hfin
    rwa [forwardDecode_erase] at hbase

/-! ## What a call feeds -/

variable (ex) in
/-- In every forward the callback of each layer is given a key and a value whose last rows are
those of the fed tokens, in the shape of the cache. -/
structure CallsAttention : Prop where
  key : ∀ cached tokenIds layer, layer < ex.tensors.numLayers →
    KVTensors.Ends ex.tensors (ex.attention cached tokenIds layer).1
      (((List.range tokenIds.length).map (ex.produced cached tokenIds layer)).map Prod.fst)
  value : ∀ cached tokenIds layer, layer < ex.tensors.numLayers →
    KVTensors.Ends ex.tensors (ex.attention cached tokenIds layer).2
      (((List.range tokenIds.length).map (ex.produced cached tokenIds layer)).map Prod.snd)

variable (ex) in
/-- From `st` to `st'` tokens of a sequence were fed in a write context with these slots. -/
structure Feeds (id : SeqId) (pageSize : ℕ) (st st' : FlashInferState ρ)
    (tokenIds : List TokenId) (slots : List ℕ) (cached : List TokenId) : Prop where
  tensors : st'.tensors = KVTensors.mirrorLayers ex.tensors pageSize slots
    (ex.attention cached tokenIds) st.tensors
  fed : st'.fed = Function.update st.fed id (st.fed id ++ ex.fedTokens cached tokenIds)

/-- The tokens in the cache that the model is given for a sequence. -/
def cachedTokens (q : Sequence) (env : Env ρ) : List TokenId :=
  (env.state.states.ensure q).pastKeyValues.elim [] env.state.heap.tokens

variable (ex) in
theorem forwardPrefill_feeds (q : Sequence) (batch : Batch) (env : Env ρ)
    (hne : batch.inputIds ≠ []) :
    Feeds ex q.seqId env.kvCache.config.pageSize env.state
      (ex.forwardPrefill q batch env).2.state batch.inputIds (batch.slotMapping.getD [])
      (cachedTokens q env) ∧
    (ex.forwardPrefill q batch env).2.kvCache = env.kvCache ∧
    (ex.forwardPrefill q batch env).2.blockTable = env.blockTable := by
  unfold forwardPrefill
  rw [if_neg hne]
  dsimp only
  split_ifs <;> exact ⟨⟨rfl, rfl⟩, rfl, rfl⟩

theorem pendingTokenId_appendTokenResult (config : GenerationConfig) (tokenizer : Tokenizer)
    (q : Sequence) (state : ServingState Unit) (tokenId : TokenId) :
    (appendTokenResult config tokenizer q state tokenId).2.pendingTokenId =
      state.pendingTokenId := by
  simp only [appendTokenResult, decodeDelta]
  split_ifs <;> rfl

theorem kvWritePlan_ok {σ : Type} {env env' : ExecutorEnv σ} {start count : ℕ} {slots : List ℕ}
    (h : kvWritePlan env start count = (.ok slots, env')) (hcount : count ≠ 0) :
    env'.state = env.state ∧
      env'.kvCache.slotMapping env'.blockTable (List.range' start count) = .ok slots := by
  unfold kvWritePlan at h
  rw [if_neg hcount] at h
  cases hens : env.kvCache.ensureCapacity env.blockTable (start + count) with
  | mk r p =>
    obtain ⟨kv, table⟩ := p
    rw [hens] at h
    obtain e | pages := r
    · cases h
    · simp only [Prod.mk.injEq] at h
      obtain ⟨hslots, rfl⟩ := h
      exact ⟨rfl, hslots⟩

/-- A decode appends one token. It feeds nothing, or the last generated token at the position
before that of the new one. -/
theorem forwardDecode_feeds (q : Sequence) (batch : Batch) (env : Env ρ)
    {output : DecodeOutput} {env' : Env ρ} (h : ex.forwardDecode q batch env = (.ok output, env'))
    (hfin : (env.state.states.ensure q).finished = false) :
    (∃ result, output = .one result) ∧
    (∀ state, env'.state.states q.seqId = some state → state.pendingTokenId = none) ∧
    ((env'.state.tensors = env.state.tensors ∧ env'.state.fed = env.state.fed ∧
        ((env.state.states.ensure q).pendingTokenId ≠ none ∨
          (env.state.states.ensure q).generatedTokenIds = [])) ∨
      ∃ last slots cached, (env.state.states.ensure q).pendingTokenId = none ∧
        (env.state.states.ensure q).generatedTokenIds.getLast? = some last ∧
        env'.kvCache.slotMapping env'.blockTable
          (List.range' ((env.state.states.ensure q).promptTokenCount +
            (env.state.states.ensure q).generatedTokenIds.length - 1) 1) = .ok slots ∧
        Feeds ex q.seqId env'.kvCache.config.pageSize env.state env'.state [last] slots
          cached) := by
  have hstored : ∀ (env : Env ρ) (state : ServingState Unit) (t : TokenId),
      state.pendingTokenId = none → ∀ state',
      (store env q.seqId (ex.append q state t).2).state.states q.seqId = some state' →
        state'.pendingTokenId = none := by
    intro env state t hnone state' hstate
    have hkept := pendingTokenId_appendTokenResult ex.config ex.tokenizer q state t
    rw [store_states, ServingStates.store_self] at hstate
    split_ifs at hstate
    cases hstate
    exact hkept.trans hnone
  unfold forwardDecode at h
  dsimp only at h
  rw [if_neg (by rw [hfin]; exact Bool.false_ne_true)] at h
  generalize env.state.states.ensure q = state at h hfin
  cases hpending : state.pendingTokenId with
  | some t =>
    rw [hpending] at h
    simp only [Prod.mk.injEq, Except.ok.injEq] at h
    obtain ⟨rfl, rfl⟩ := h
    exact ⟨⟨_, rfl⟩, hstored _ _ _ rfl, .inl ⟨rfl, rfl, .inl (by simp)⟩⟩
  | none =>
    rw [hpending] at h
    unfold decodeOne decodeNext at h
    cases hlast : state.generatedTokenIds.getLast? with
    | none =>
      rw [hlast] at h
      simp only [Except.map, Prod.mk.injEq, Except.ok.injEq] at h
      obtain ⟨rfl, rfl⟩ := h
      exact ⟨⟨_, rfl⟩, hstored _ _ _ rfl,
        .inl ⟨rfl, rfl, .inr (List.getLast?_eq_none_iff.1 hlast)⟩⟩
    | some last =>
      rw [hlast] at h
      dsimp only at h
      cases hplan : kvWritePlan env
        (state.promptTokenCount + state.generatedTokenIds.length - 1) 1 with
      | mk r env₁ =>
        rw [hplan] at h
        obtain e | slots := r
        · cases h
        · obtain ⟨hstate, hslots⟩ := kvWritePlan_ok hplan one_ne_zero
          simp only [Except.map, Prod.mk.injEq, Except.ok.injEq] at h
          obtain ⟨rfl, rfl⟩ := h
          refine ⟨⟨_, rfl⟩, hstored _ _ _ rfl, .inr ⟨last, slots,
            state.pastKeyValues.elim [] env₁.state.heap.tokens, rfl, rfl, hslots, ?_⟩⟩
          rw [← hstate]
          exact ⟨rfl, rfl⟩

end FlashInferTextExecutor

end SoloRT
