import SoloRT.Scheduler
import SoloRT.KVCache
import SoloRT.PrefixCache

/-!
# The runtime core

`RuntimeCore` wires the scheduler, the page tables, the prefix cache, the sessions and an
executor together (`core/runtime.py`). An executor is any implementation of the protocol
`ModelExecutor` : a state of its own, a prefill and a decode function that may raise, and
page tables reached through the interface of `PagedKVCache` only (`forwardPrefill_kv`,
`forwardDecode_kv`).

A method that raises leaves what it changed before, so it returns `Except` together with
the state. `_execute_batch` works on one sequence object and the shared caches, a
`BatchContext`; `executeBatch` loads that context from the runtime and writes it back.
-/

namespace SoloRT

structure Message where
  role : String
  content : Text
  deriving DecidableEq, Repr

structure Session where
  sessionId : SessionId
  messages : List Message := []
  activeSequenceId : Option SeqId := none
  deriving DecidableEq, Repr

/-- The counters of `RuntimeMetrics`. -/
structure RuntimeMetrics where
  requestsStarted : ℕ := 0
  requestsFinished : ℕ := 0
  tokensGenerated : ℕ := 0
  deriving DecidableEq, Repr

namespace RuntimeMetrics

variable (m : RuntimeMetrics)

def startRequest : RuntimeMetrics := { m with requestsStarted := m.requestsStarted + 1 }

def recordToken : RuntimeMetrics := { m with tokensGenerated := m.tokensGenerated + 1 }

def finishRequest : RuntimeMetrics := { m with requestsFinished := m.requestsFinished + 1 }

end RuntimeMetrics

structure SampleResult where
  tokenId : TokenId
  text : Text
  finished : Bool := false
  deriving DecidableEq, Repr

/-! ## Executors -/

/-- What `forward_decode` may return. -/
inductive DecodeOutput
  | one (sample : SampleResult)
  | many (samples : List SampleResult)
  | other
  deriving DecidableEq, Repr

/-- `_normalize_samples`. -/
def normalizeSamples : DecodeOutput → Except PyError (List SampleResult)
  | .one sample => .ok [sample]
  | .many samples => .ok samples
  | .other => .error ⟨.typeError,
      "executor.forward_decode must return SampleResult or list[SampleResult]"⟩

/-- What an executor call may change : its own state, and the pages of the sequence. -/
structure ExecutorEnv (σ : Type) where
  state : σ
  kvCache : PagedKVCache
  blockTable : List PageId

/-- The pages as the interface of the cache sees them. -/
def ExecutorEnv.pages {σ : Type} (env : ExecutorEnv σ) : PagedKVCache × List PageId :=
  (env.kvCache, env.blockTable)

structure ModelExecutor (σ : Type) where
  supportsPrefixCache : Bool
  usesPagedKv : Bool
  tokenizeMessages : List Message → Bool → Except PyError (List TokenId)
  forwardPrefill : Sequence → Batch → ExecutorEnv σ → Except PyError Unit × ExecutorEnv σ
  forwardDecode : Sequence → Batch → ExecutorEnv σ → Except PyError DecodeOutput × ExecutorEnv σ
  forwardPrefill_kv : ∀ sequence batch env,
    PagedKVCache.KVSteps env.pages (forwardPrefill sequence batch env).2.pages
  forwardDecode_kv : ∀ sequence batch env,
    PagedKVCache.KVSteps env.pages (forwardDecode sequence batch env).2.pages

/-- The vocabulary of the fake executor of `tests/fakes.py`. -/
def DeterministicExecutor.vocabulary : List String :=
  ["SoloRT", " keeps", " foreground", " tokens", " moving", "."]

/-- The fake executor of `tests/fakes.py` : it decodes the words of its vocabulary in turn.
Its prompt tokens are the characters of the messages. -/
def deterministicExecutor (supportsPrefixCache : Bool) : ModelExecutor Unit where
  supportsPrefixCache := supportsPrefixCache
  usesPagedKv := true
  tokenizeMessages messages _ :=
    .ok ((messages.flatMap Message.content).map fun c => (c.toNat : TokenId))
  forwardPrefill _ _ env := (.ok (), env)
  forwardDecode sequence _ env :=
    let index := sequence.outputIds.length % DeterministicExecutor.vocabulary.length
    (.ok (.one
      { tokenId := 10000 + index
        text := (DeterministicExecutor.vocabulary.getD index "").toList }), env)
  forwardPrefill_kv _ _ _ := .refl
  forwardDecode_kv _ _ _ := .refl

/-! ## Executing one batch -/

/-- What `_execute_batch` reads and changes : its sequence object and the shared caches. -/
structure BatchContext (σ : Type) where
  sequence : Sequence
  kvCache : PagedKVCache
  prefixCache : PrefixCache
  executor : σ
  metrics : RuntimeMetrics
  now : Timestamp

namespace BatchContext

variable {σ : Type} (ex : ModelExecutor σ) (c : BatchContext σ)

def env : ExecutorEnv σ :=
  ⟨c.executor, c.kvCache, c.sequence.blockTable⟩

def setEnv (env : ExecutorEnv σ) : BatchContext σ :=
  { c with
    executor := env.state
    kvCache := env.kvCache
    sequence := { c.sequence with blockTable := env.blockTable } }

/-- `ensure_capacity` and `_attach_kv_metadata`, for executors that use the paged cache. -/
def attachKv (batch : Batch) (tokenCount : ℕ) : Except PyError Batch × BatchContext σ :=
  if ex.usesPagedKv then
    match c.kvCache.ensureCapacity c.sequence.blockTable tokenCount with
    | (.error e, kvCache, blockTable) =>
      (.error e, c.setEnv ⟨c.executor, kvCache, blockTable⟩)
    | (.ok _, kvCache, blockTable) =>
      match kvCache.metadataFor blockTable tokenCount batch.positions with
      | .error e => (.error e, c.setEnv ⟨c.executor, kvCache, blockTable⟩)
      | .ok metadata =>
        (.ok { batch with
            pageIndptr := some metadata.pageIndptr
            pageIndices := some metadata.pageIndices
            lastPageLen := some metadata.lastPageLen
            slotMapping := some metadata.slotMapping },
          c.setEnv ⟨c.executor, kvCache, blockTable⟩)
  else (.ok batch, c)

/-- The prefix-cache insert once the prefill is complete. -/
def cachePrefix : Except PyError (List Text) × BatchContext σ :=
  if c.sequence.isPrefillComplete ∧ c.sequence.cacheHandle = none ∧ ex.supportsPrefixCache then
    match c.prefixCache.insert c.now c.sequence.inputIds c.sequence.blockTable true with
    | (.error e, prefixCache) => (.error e, { c with prefixCache })
    | (.ok entry, prefixCache) =>
      (.ok [], { c with prefixCache, sequence := { c.sequence with cacheHandle := some entry } })
  else (.ok [], c)

/-- The prefill branch of `_execute_batch`. -/
def executePrefill (batch : Batch) : Except PyError (List Text) × BatchContext σ :=
  let totalTokensAfterChunk :=
    c.sequence.numCachedTokens + c.sequence.numScheduledTokens + batch.inputIds.length
  match c.attachKv ex batch totalTokensAfterChunk with
  | (.error e, c) => (.error e, c)
  | (.ok batch, c) =>
    match ex.forwardPrefill c.sequence batch c.env with
    | (.error e, env) => (.error e, c.setEnv env)
    | (.ok (), env) =>
      let c := c.setEnv env
      { c with sequence := c.sequence.postprocessBatch batch }.cachePrefix ex

end BatchContext

/-- The sample ends its sequence, whose `output_ids` already hold it. -/
def finishesWith (sequence : Sequence) (sample : SampleResult) : Bool :=
  sequence.maxNewTokens ≤ sequence.generatedTokens ||
    sequence.stopTokenIds.contains sample.tokenId || sample.finished

/-- Append one sample's token and text to its sequence. -/
def appendSample (sequence : Sequence) (sample : SampleResult) : Sequence :=
  { sequence with
    outputIds := sequence.outputIds ++ [sample.tokenId]
    metadata :=
      if sample.text = [] then sequence.metadata
      else { sequence.metadata with
        responseText := sequence.metadata.responseText ++ sample.text } }

/-- The loop over the samples of one decode. Returns the token texts. -/
def consumeSamples : List SampleResult → Sequence → RuntimeMetrics →
    List Text × Sequence × RuntimeMetrics
  | [], sequence, metrics => ([], sequence, metrics)
  | sample :: samples, sequence, metrics =>
    if sequence.isTerminal then ([], sequence, metrics)
    else
      let sequence := appendSample sequence sample
      let tokenTexts := if sample.text = [] then [] else [sample.text]
      let metrics := metrics.recordToken
      if finishesWith sequence sample then (tokenTexts, sequence.markFinished, metrics)
      else
        let (texts, sequence, metrics) := consumeSamples samples sequence metrics
        (tokenTexts ++ texts, sequence, metrics)

namespace BatchContext

variable {σ : Type} (ex : ModelExecutor σ) (c : BatchContext σ)

/-- The decode branch of `_execute_batch`. -/
def executeDecode (batch : Batch) : Except PyError (List Text) × BatchContext σ :=
  let totalTokensAfterDecode := c.sequence.numPromptTokens + c.sequence.outputIds.length + 1
  match c.attachKv ex batch totalTokensAfterDecode with
  | (.error e, c) => (.error e, c)
  | (.ok batch, c) =>
    match ex.forwardDecode c.sequence batch c.env with
    | (.error e, env) => (.error e, c.setEnv env)
    | (.ok output, env) =>
      let c := c.setEnv env
      match normalizeSamples output with
      | .error e => (.error e, c)
      | .ok samples =>
        let (tokenTexts, sequence, metrics) := consumeSamples samples c.sequence c.metrics
        (.ok tokenTexts, { c with sequence, metrics })

/-- `_execute_batch` on its sequence object. -/
def executeBatch (batch : Batch) : Except PyError (List Text) × BatchContext σ :=
  if c.sequence.status = .cancelled then (.ok [], c)
  else
    match batch.phase with
    | .prefill => c.executePrefill ex batch
    | .decode => c.executeDecode ex batch

end BatchContext

/-! ## The core -/

structure RuntimeCore (σ : Type) where
  scheduler : InteractiveScheduler
  kvCache : PagedKVCache
  prefixCache : PrefixCache
  executor : σ
  sessions : SessionId → Option Session := fun _ => none
  metrics : RuntimeMetrics := {}
  activeBySession : SessionId → Option SeqId := fun _ => none
  /-- The number of the next `uuid4` call. -/
  nextUuid : ℕ := 0
  /-- What `time.time()` returns. -/
  now : Timestamp := 0

/-- The arguments of `add_request`. -/
structure Request where
  messages : List Message
  maxNewTokens : ℕ
  sessionId : Option SessionId := none
  taskKind : TaskKind := .foreground
  temperature : ℚ := 1
  topP : Option ℚ := none
  topK : Option ℤ := none
  repetitionPenalty : Option ℚ := none
  maxRepeatedTokenRun : Option ℤ := none
  enableThinking : Option Bool := none
  deriving DecidableEq, Repr

/-- The metadata of a new request, with the defaults of `add_request`. -/
def Request.metadata (request : Request) : SequenceMetadata where
  temperature := some request.temperature
  topP := some (request.topP.getD (4 / 5))
  topK := some (request.topK.getD 20)
  repetitionPenalty := some (request.repetitionPenalty.getD (27 / 25))
  maxRepeatedTokenRun := some (request.maxRepeatedTokenRun.getD 16)

/-- The sequence that `add_request` creates. -/
def Request.sequence (request : Request) (seqId : SeqId) (sessionId : SessionId)
    (inputIds : List TokenId) (prefixMatch : PrefixMatch) (now : Timestamp) : Sequence :=
  Sequence.postInit
    { seqId := seqId
      sessionId := sessionId
      inputIds := inputIds
      maxNewTokens := request.maxNewTokens
      taskKind := request.taskKind
      numCachedTokens := prefixMatch.matchedTokens
      blockTable := prefixMatch.pages
      cacheHandle := prefixMatch.entry
      metadata := request.metadata
      createdTs := now }

section

variable (request : Request) (seqId : SeqId) (sessionId : SessionId) (inputIds : List TokenId)
  (m : PrefixMatch) (now : Timestamp)

@[simp] theorem Request.sequence_seqId :
    (request.sequence seqId sessionId inputIds m now).seqId = seqId := rfl

@[simp] theorem Request.sequence_inputIds :
    (request.sequence seqId sessionId inputIds m now).inputIds = inputIds := rfl

@[simp] theorem Request.sequence_numPromptTokens :
    (request.sequence seqId sessionId inputIds m now).numPromptTokens = inputIds.length := rfl

@[simp] theorem Request.sequence_numCachedTokens :
    (request.sequence seqId sessionId inputIds m now).numCachedTokens = m.matchedTokens := rfl

@[simp] theorem Request.sequence_numScheduledTokens :
    (request.sequence seqId sessionId inputIds m now).numScheduledTokens = 0 := rfl

@[simp] theorem Request.sequence_outputIds :
    (request.sequence seqId sessionId inputIds m now).outputIds = [] := rfl

@[simp] theorem Request.sequence_blockTable :
    (request.sequence seqId sessionId inputIds m now).blockTable = m.pages := rfl

@[simp] theorem Request.sequence_cacheHandle :
    (request.sequence seqId sessionId inputIds m now).cacheHandle = m.entry := rfl

@[simp] theorem Request.sequence_metadata :
    (request.sequence seqId sessionId inputIds m now).metadata = request.metadata := rfl

@[simp] theorem Request.sequence_isTerminal :
    (request.sequence seqId sessionId inputIds m now).isTerminal = false := rfl

end

/-- The sizes a runtime is constructed with, and the hash of its prefix cache. The
constructors raise `ValueError` on sizes that are not positive. -/
structure RuntimeConfig where
  maxPrefillChunkTokens : ℕ
  maxPrefillChunkTokens_pos : 0 < maxPrefillChunkTokens
  kvCache : KVCacheConfig
  blockSize : ℕ
  blockSize_pos : 0 < blockSize
  maxEntries : ℕ
  maxEntries_pos : 0 < maxEntries
  blake2b : List UInt8 → ℕ

namespace RuntimeCore

variable {σ : Type} (ex : ModelExecutor σ) (rt : RuntimeCore σ)

/-- A runtime just constructed. -/
def create (config : RuntimeConfig) (executor : σ) : RuntimeCore σ where
  scheduler := .empty config.maxPrefillChunkTokens config.maxPrefillChunkTokens_pos
  kvCache := .fresh config.kvCache
  prefixCache :=
    { blockSize := config.blockSize
      maxEntries := config.maxEntries
      blockSize_pos := config.blockSize_pos
      maxEntries_pos := config.maxEntries_pos
      blake2b := config.blake2b }
  executor := executor

/-- `SessionManager.get_or_create`. An empty session id counts as none. -/
def getOrCreateSession (sessionId : Option SessionId) : Session × RuntimeCore σ :=
  let (resolvedId, rt) :=
    if sessionId.getD "" = "" then
      ("sess_" ++ toString rt.nextUuid, { rt with nextUuid := rt.nextUuid + 1 })
    else (sessionId.getD "", rt)
  match rt.sessions resolvedId with
  | some session => (session, rt)
  | none =>
    let session : Session := { sessionId := resolvedId }
    (session, { rt with sessions := Function.update rt.sessions resolvedId (some session) })

/-- `SessionManager.append_messages`. -/
def appendMessages (session : Session) (messages : List Message) : Session × RuntimeCore σ :=
  let session := { session with messages := session.messages ++ messages }
  (session, { rt with sessions := Function.update rt.sessions session.sessionId (some session) })

/-- The prompt of a request : its messages after those of its session, tokenized. -/
def promptOf (request : Request) : Except PyError (List TokenId) :=
  let (session, rt) := rt.getOrCreateSession request.sessionId
  let (session, _) := rt.appendMessages session request.messages
  ex.tokenizeMessages session.messages (request.enableThinking.getD false)

def addRequest (request : Request) : Except PyError SeqId × RuntimeCore σ :=
  let (session, rt) := rt.getOrCreateSession request.sessionId
  let (session, rt) := rt.appendMessages session request.messages
  match ex.tokenizeMessages session.messages (request.enableThinking.getD false) with
  | .error e => (.error e, rt)
  | .ok inputIds =>
    let (prefixMatch, prefixCache) :=
      if ex.supportsPrefixCache then rt.prefixCache.matchPrefix rt.now inputIds
      else ({ matchedTokens := 0, pages := [] }, rt.prefixCache)
    let seqId := rt.nextUuid
    let sequence := request.sequence seqId session.sessionId inputIds prefixMatch rt.now
    (.ok seqId,
      { rt with
        scheduler := rt.scheduler.addSequence sequence
        prefixCache := prefixCache
        sessions := Function.update rt.sessions session.sessionId
          (some { session with activeSequenceId := some seqId })
        activeBySession := Function.update rt.activeBySession session.sessionId (some seqId)
        metrics := rt.metrics.startRequest
        nextUuid := rt.nextUuid + 1 })

/-- `_append_assistant_response`. -/
def appendAssistantResponse (sequence : Sequence) : RuntimeCore σ :=
  if sequence.metadata.responseAppended then rt
  else if sequence.metadata.responseText = [] then rt
  else
    match rt.sessions sequence.sessionId with
    | none => rt
    | some session =>
      let (_, rt) := rt.appendMessages session [⟨"assistant", sequence.metadata.responseText⟩]
      let metadata := { sequence.metadata with responseAppended := true }
      { rt with scheduler := rt.scheduler.put { sequence with metadata } }

/-- The session of a sequence forgets it as its active one. -/
def clearActive (sequence : Sequence) : RuntimeCore σ :=
  let rt :=
    match rt.sessions sequence.sessionId with
    | none => rt
    | some session =>
      if session.activeSequenceId = some sequence.seqId then
        { rt with
          sessions := Function.update rt.sessions sequence.sessionId
            (some { session with activeSequenceId := none }) }
      else rt
  { rt with activeBySession := Function.update rt.activeBySession sequence.sessionId none }

/-- `_finish_sequence`. -/
def finishSequence (sequence : Sequence) : RuntimeCore σ :=
  let rt := rt.clearActive sequence
  let rt :=
    if sequence.status = .finished then
      { rt with metrics := rt.metrics.finishRequest }.appendAssistantResponse sequence
    else rt
  { rt with prefixCache := rt.prefixCache.release sequence.cacheHandle }

def cancelRequest (requestId : Option SeqId) (sessionId : Option SessionId) :
    Bool × RuntimeCore σ :=
  match requestId.or (sessionId.bind rt.activeBySession) with
  | none => (false, rt)
  | some seqId =>
    let (cancelled, scheduler) := rt.scheduler.cancel seqId
    let rt := { rt with scheduler }
    match cancelled, rt.scheduler.get seqId with
    | true, some sequence => (true, rt.finishSequence sequence)
    | _, _ => (cancelled, rt)

/-- The context in which a batch of `sequence` is executed. -/
def context (sequence : Sequence) : BatchContext σ :=
  ⟨sequence, rt.kvCache, rt.prefixCache, rt.executor, rt.metrics, rt.now⟩

/-- Write back what the execution of a batch changed. -/
def setContext (c : BatchContext σ) : RuntimeCore σ :=
  { rt with
    scheduler := rt.scheduler.put c.sequence
    kvCache := c.kvCache
    prefixCache := c.prefixCache
    executor := c.executor
    metrics := c.metrics }

/-- `_execute_batch`. A batch always belongs to a sequence of the scheduler. -/
def executeBatch (batch : Batch) : Except PyError (List Text) × RuntimeCore σ :=
  match rt.scheduler.get batch.seqId with
  | none => (.ok [], rt)
  | some sequence =>
    let (r, c) := (rt.context sequence).executeBatch ex batch
    (r, rt.setContext c)

end RuntimeCore

end SoloRT
