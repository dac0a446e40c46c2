import SoloRT.Runtime

/-!
# What executing a batch can do

The loop over the samples of a decode appends the consumed samples to `output_ids` and to
the response text, and ends the sequence at the first sample that finishes it
(`consumeSamples_spec`).

`Executed` lists the ways `_execute_batch` can end, each with the state it leaves. Every
invariant over batch executions is a case analysis on it. `Sequence.request` is the part
of a sequence that is fixed when the request is added.
-/

namespace SoloRT

/-! ## The fixed part of a sequence -/

/-- A sequence with everything reset that its execution changes. -/
def Sequence.request (s : Sequence) : Sequence :=
  { s with
    outputIds := []
    status := .waiting
    priority := .foregroundPrefill
    numScheduledTokens := 0
    blockTable := []
    cacheHandle := none
    metadata := { s.metadata with responseText := [], responseAppended := false } }

namespace Sequence

variable {s t : Sequence}

theorem seqId_of_request (h : s.request = t.request) : s.seqId = t.seqId :=
  show s.request.seqId = t.request.seqId from congrArg _ h

theorem sessionId_of_request (h : s.request = t.request) : s.sessionId = t.sessionId :=
  show s.request.sessionId = t.request.sessionId from congrArg _ h

theorem inputIds_of_request (h : s.request = t.request) : s.inputIds = t.inputIds :=
  show s.request.inputIds = t.request.inputIds from congrArg _ h

theorem maxNewTokens_of_request (h : s.request = t.request) : s.maxNewTokens = t.maxNewTokens :=
  show s.request.maxNewTokens = t.request.maxNewTokens from congrArg _ h

theorem taskKind_of_request (h : s.request = t.request) : s.taskKind = t.taskKind :=
  show s.request.taskKind = t.request.taskKind from congrArg _ h

theorem numPromptTokens_of_request (h : s.request = t.request) :
    s.numPromptTokens = t.numPromptTokens :=
  show s.request.numPromptTokens = t.request.numPromptTokens from congrArg _ h

theorem numCachedTokens_of_request (h : s.request = t.request) :
    s.numCachedTokens = t.numCachedTokens :=
  show s.request.numCachedTokens = t.request.numCachedTokens from congrArg _ h

@[simp] theorem request_scheduled (s : Sequence) :
    s.scheduled.request = s.request := rfl

@[simp] theorem request_markFinished (s : Sequence) : s.markFinished.request = s.request := rfl

@[simp] theorem request_markCancelled (s : Sequence) : s.markCancelled.request = s.request := rfl

@[simp] theorem request_blockTable (s : Sequence) (t : List PageId) :
    { s with blockTable := t }.request = s.request := rfl

@[simp] theorem request_cacheHandle (s : Sequence) (h : Option EntryId) :
    { s with cacheHandle := h }.request = s.request := rfl

/-- What `postprocess_batch` does to a sequence that is not cancelled. -/
theorem postprocessBatch_prefill {batch : Batch} (hs : s.status ≠ .cancelled)
    (hb : batch.phase = .prefill) : s.postprocessBatch batch =
      { s with numScheduledTokens := s.numScheduledTokens + batch.inputIds.length } := by
  rw [Sequence.postprocessBatch, if_neg hs, if_pos hb]

end Sequence

/-! ## The samples of a decode -/

/-- The samples that the loop consumes. -/
def consumed : List SampleResult → Sequence → List SampleResult
  | [], _ => []
  | sample :: samples, s =>
    if s.isTerminal then []
    else if finishesWith (appendSample s sample) sample then [sample]
    else sample :: consumed samples (appendSample s sample)

/-- A sequence after the samples `xs` were appended to it. -/
def appendSamples (s : Sequence) (xs : List SampleResult) : Sequence :=
  { s with
    outputIds := s.outputIds ++ xs.map SampleResult.tokenId
    metadata := { s.metadata with
      responseText := s.metadata.responseText ++ (xs.map SampleResult.text).flatten } }

@[simp] theorem appendSamples_nil (s : Sequence) : appendSamples s [] = s := by
  simp [appendSamples]

theorem appendSamples_cons (s : Sequence) (x : SampleResult) (xs : List SampleResult) :
    appendSamples s (x :: xs) = appendSamples (appendSample s x) xs := by
  by_cases hx : x.text = [] <;> simp [appendSamples, appendSample, hx]

@[simp] theorem request_appendSamples (s : Sequence) (xs : List SampleResult) :
    (appendSamples s xs).request = s.request := rfl

@[simp] theorem isTerminal_appendSample (s : Sequence) (x : SampleResult) :
    (appendSample s x).isTerminal = s.isTerminal := rfl

/-- Some consumed sample finished the sequence : the last one, and it ended the loop. -/
def Finishes (xs : List SampleResult) (s : Sequence) : Bool :=
  match xs.getLast? with
  | none => false
  | some x => finishesWith (appendSamples s xs) x

/-- A sample that does not finish its sequence leaves the decision to the ones after it. -/
theorem finishes_cons {x : SampleResult} {s : Sequence}
    (h : ¬finishesWith (appendSample s x) x = true) (xs : List SampleResult) :
    Finishes (x :: xs) s = Finishes xs (appendSample s x) := by
  unfold Finishes
  cases xs with
  | nil =>
    simp only [List.getLast?_singleton, List.getLast?_nil, appendSamples_cons, appendSamples_nil]
    simpa using h
  | cons y ys => simp only [List.getLast?_cons_cons, appendSamples_cons]

/-- The loop over the samples of a decode : the consumed samples are appended, each is
counted, their nonempty texts are returned, and the sequence is finished if the last one
finishes it. -/
theorem consumeSamples_spec : ∀ (samples : List SampleResult) (s : Sequence)
    (m : RuntimeMetrics), s.isTerminal = false →
    consumeSamples samples s m =
      (((consumed samples s).map SampleResult.text).filter (· ≠ []),
        (if Finishes (consumed samples s) s then
          (appendSamples s (consumed samples s)).markFinished
          else appendSamples s (consumed samples s)),
        { m with tokensGenerated := m.tokensGenerated + (consumed samples s).length })
  | [], s, m, _ => by simp [consumeSamples, consumed, Finishes]
  | x :: samples, s, m, hs => by
    have htext : (if x.text = [] then [] else [x.text]) = [x.text].filter (· ≠ []) := by
      by_cases hx : x.text = [] <;> simp [hx]
    by_cases hfin : finishesWith (appendSample s x) x = true
    · have happ : appendSamples s [x] = appendSample s x := by
        rw [appendSamples_cons, appendSamples_nil]
      simp [consumeSamples, consumed, hs, hfin, Finishes, happ, htext, RuntimeMetrics.recordToken]
    · have ih := consumeSamples_spec samples (appendSample s x) m.recordToken (by simpa using hs)
      simp only [RuntimeMetrics.recordToken] at ih
      have hlast := finishes_cons hfin (consumed samples (appendSample s x))
      simp only [consumeSamples, hs, hfin, Bool.false_eq_true, if_false, ih, consumed, hlast,
        appendSamples_cons, htext, List.map_cons, List.length_cons, RuntimeMetrics.recordToken]
      refine Prod.ext ?_ (Prod.ext rfl ?_)
      · by_cases hx : x.text = [] <;> simp [hx]
      · simp [Nat.add_assoc, Nat.add_comm 1]

/-- A nonempty list of samples for a live sequence is consumed at least in part. -/
theorem consumed_ne_nil {samples : List SampleResult} {s : Sequence} (hs : s.isTerminal = false)
    (hne : samples ≠ []) : consumed samples s ≠ [] := by
  cases samples with
  | nil => exact absurd rfl hne
  | cons x xs =>
    unfold consumed
    rw [if_neg (by simp [hs])]
    split_ifs <;> simp

/-! ## The execution of a batch -/

namespace BatchContext

variable {σ : Type} {ex : ModelExecutor σ} {c : BatchContext σ}

/-- The number of tokens that the executed batch must have pages for. -/
def tokensAfter (c : BatchContext σ) (batch : Batch) : ℕ :=
  match batch.phase with
  | .prefill => c.sequence.numCachedTokens + c.sequence.numScheduledTokens + batch.inputIds.length
  | .decode => c.sequence.numPromptTokens + c.sequence.outputIds.length + 1

theorem tokensAfter_prefill {batch : Batch} (hb : batch.phase = .prefill) : c.tokensAfter batch =
    c.sequence.numCachedTokens + c.sequence.numScheduledTokens + batch.inputIds.length := by
  rw [tokensAfter, hb]

theorem tokensAfter_decode {batch : Batch} (hb : batch.phase = .decode) : c.tokensAfter batch =
    c.sequence.numPromptTokens + c.sequence.outputIds.length + 1 := by
  rw [tokensAfter, hb]

/-- What attaching the page metadata may leave : the executor's state is the same, the
batch is the same up to its metadata, and a slot mapping is the cache's. -/
structure Attached (ex : ModelExecutor σ) (c : BatchContext σ) (batch batch' : Batch)
    (env : ExecutorEnv σ) : Prop where
  state : env.state = c.executor
  kv : PagedKVCache.KVSteps c.env.pages env.pages
  seqId : batch'.seqId = batch.seqId
  phase : batch'.phase = batch.phase
  inputIds : batch'.inputIds = batch.inputIds
  positions : batch'.positions = batch.positions
  slots : ∀ slots, batch'.slotMapping = some slots → batch.slotMapping = some slots ∨
    env.kvCache.slotMapping env.blockTable batch.positions = .ok slots

@[simp] theorem setEnv_env (c : BatchContext σ) : c.setEnv c.env = c := rfl

@[simp] theorem request_setEnv (c : BatchContext σ) (env : ExecutorEnv σ) :
    (c.setEnv env).sequence.request = c.sequence.request := rfl

@[simp] theorem env_setEnv (c : BatchContext σ) (env : ExecutorEnv σ) :
    (c.setEnv env).env = env := rfl

@[simp] theorem setEnv_setEnv (c : BatchContext σ) (env env' : ExecutorEnv σ) :
    (c.setEnv env).setEnv env' = c.setEnv env' := rfl

theorem metadataFor_slotMapping {kv : PagedKVCache} {table : List PageId} {n : ℕ}
    {positions : List ℕ} {m : KVCacheMetadata} (h : kv.metadataFor table n positions = .ok m) :
    kv.slotMapping table positions = .ok m.slotMapping := by
  unfold PagedKVCache.metadataFor at h
  dsimp only at h
  split at h
  · cases h
  · rename_i slots hs
    cases h
    exact hs

/-- Attaching the metadata either raises or yields the attached batch. The executor's
state is untouched and the pages change through the cache's interface. -/
theorem attachKv_cases (ex : ModelExecutor σ) (c : BatchContext σ) (batch : Batch) (n : ℕ) :
    (∃ e env, env.state = c.executor ∧ PagedKVCache.KVSteps c.env.pages env.pages ∧
      ex.usesPagedKv = true ∧ c.attachKv ex batch n = (.error e, c.setEnv env)) ∨
    ∃ batch' env, Attached ex c batch batch' env ∧
      c.attachKv ex batch n = (.ok batch', c.setEnv env) := by
  unfold attachKv
  by_cases hkv : ex.usesPagedKv = true
  · rw [if_pos hkv]
    have hstep := PagedKVCache.KVStep.ensureCapacity c.kvCache c.sequence.blockTable n
    generalize c.kvCache.ensureCapacity c.sequence.blockTable n = r at hstep
    obtain ⟨e | pages, kv, table⟩ := r
    · exact .inl ⟨e, ⟨c.executor, kv, table⟩, rfl, .single hstep, hkv, rfl⟩
    · cases hm : kv.metadataFor table n batch.positions with
      | error e =>
        exact .inl ⟨e, ⟨c.executor, kv, table⟩, rfl, .single hstep, hkv, by simp only [hm]⟩
      | ok m =>
        refine .inr ⟨_, ⟨c.executor, kv, table⟩, ?_, by simp only [hm]; rfl⟩
        refine ⟨rfl, .single hstep, rfl, rfl, rfl, rfl, fun slots hslots => .inr ?_⟩
        cases hslots
        exact metadataFor_slotMapping hm
  · rw [if_neg hkv]
    exact .inr ⟨batch, c.env, ⟨rfl, .refl, rfl, rfl, rfl, rfl, fun slots h => .inl h⟩, rfl⟩

/-- The ways the execution of a batch can end, with the result and the context left. -/
inductive Executed (ex : ModelExecutor σ) (c : BatchContext σ) (batch : Batch) :
    Except PyError (List Text) → BatchContext σ → Prop
  /-- The sequence was cancelled. -/
  | skipped (h : c.sequence.status = .cancelled) : Executed ex c batch (.ok []) c
  /-- The page metadata could not be attached. -/
  | attachFailed {e : PyError} {env : ExecutorEnv σ} (hs : c.sequence.status ≠ .cancelled)
      (hstate : env.state = c.executor) (hkv : PagedKVCache.KVSteps c.env.pages env.pages)
      (hpaged : ex.usesPagedKv = true) : Executed ex c batch (.error e) (c.setEnv env)
  /-- The executor raised in its prefill. -/
  | prefillFailed {e : PyError} {batch' : Batch} {env env' : ExecutorEnv σ}
      (hs : c.sequence.status ≠ .cancelled) (hb : batch.phase = .prefill)
      (ha : Attached ex c batch batch' env)
      (he : ex.forwardPrefill (c.setEnv env).sequence batch' env = (.error e, env')) :
      Executed ex c batch (.error e) (c.setEnv env')
  /-- A prefill chunk was executed, and the prefix cache took the entry, refused it, or
  was not asked. -/
  | prefilled {batch' : Batch} {env env' : ExecutorEnv σ} {r : Except PyError (List Text)}
      {c' : BatchContext σ} (hs : c.sequence.status ≠ .cancelled) (hb : batch.phase = .prefill)
      (ha : Attached ex c batch batch' env)
      (he : ex.forwardPrefill (c.setEnv env).sequence batch' env = (.ok (), env'))
      (hc : cachePrefix ex { c.setEnv env' with
        sequence := (c.setEnv env').sequence.postprocessBatch batch' } = (r, c')) :
      Executed ex c batch r c'
  /-- The executor raised in its decode, or returned something else than samples. -/
  | decodeFailed {e : PyError} {batch' : Batch} {env env' : ExecutorEnv σ}
      {o : Except PyError DecodeOutput}
      (hs : c.sequence.status ≠ .cancelled) (hb : batch.phase = .decode)
      (ha : Attached ex c batch batch' env)
      (he : ex.forwardDecode (c.setEnv env).sequence batch' env = (o, env'))
      (ho : o = .error e ∨ o = .ok .other) :
      Executed ex c batch (.error e) (c.setEnv env')
  /-- A decode step was executed and its samples consumed. -/
  | decoded {batch' : Batch} {env env' : ExecutorEnv σ} {o : DecodeOutput}
      {samples : List SampleResult} (hs : c.sequence.status ≠ .cancelled)
      (hb : batch.phase = .decode) (ha : Attached ex c batch batch' env)
      (he : ex.forwardDecode (c.setEnv env).sequence batch' env = (.ok o, env'))
      (hn : normalizeSamples o = .ok samples) :
      Executed ex c batch
        (.ok (consumeSamples samples (c.setEnv env').sequence c.metrics).1)
        { c.setEnv env' with
          sequence := (consumeSamples samples (c.setEnv env').sequence c.metrics).2.1
          metrics := (consumeSamples samples (c.setEnv env').sequence c.metrics).2.2 }

theorem executePrefill_executed (batch : Batch) (hs : c.sequence.status ≠ .cancelled)
    (hb : batch.phase = .prefill) :
    Executed ex c batch (c.executePrefill ex batch).1 (c.executePrefill ex batch).2 := by
  unfold executePrefill
  dsimp only
  rcases attachKv_cases ex c batch
    (c.sequence.numCachedTokens + c.sequence.numScheduledTokens + batch.inputIds.length) with
    ⟨e, env, hstate, hkv, hpaged, h⟩ | ⟨batch', env, ha, h⟩
  · rw [h]
    exact .attachFailed hs hstate hkv hpaged
  · rw [h]
    dsimp only [env_setEnv]
    cases he : ex.forwardPrefill (c.setEnv env).sequence batch' env with
    | mk o env' =>
      cases o with
      | error e => exact .prefillFailed hs hb ha he
      | ok u => exact .prefilled hs hb ha he rfl

theorem executeDecode_executed (batch : Batch) (hs : c.sequence.status ≠ .cancelled)
    (hb : batch.phase = .decode) :
    Executed ex c batch (c.executeDecode ex batch).1 (c.executeDecode ex batch).2 := by
  unfold executeDecode
  dsimp only
  rcases attachKv_cases ex c batch
    (c.sequence.numPromptTokens + c.sequence.outputIds.length + 1) with
    ⟨e, env, hstate, hkv, hpaged, h⟩ | ⟨batch', env, ha, h⟩
  · rw [h]
    exact .attachFailed hs hstate hkv hpaged
  · rw [h]
    dsimp only [env_setEnv]
    cases he : ex.forwardDecode (c.setEnv env).sequence batch' env with
    | mk o env' =>
      cases o with
      | error e => exact .decodeFailed hs hb ha he (.inl rfl)
      | ok out =>
        cases hn : normalizeSamples out with
        | error e =>
          simp only [hn]
          refine .decodeFailed hs hb ha he (.inr ?_)
          cases out <;> simp [normalizeSamples] at hn ⊢
        | ok samples =>
          simp only [hn]
          exact .decoded hs hb ha he hn

/-- `_execute_batch` ends in one of the ways listed. -/
theorem executed (ex : ModelExecutor σ) (c : BatchContext σ) (batch : Batch) :
    Executed ex c batch (c.executeBatch ex batch).1 (c.executeBatch ex batch).2 := by
  unfold executeBatch
  by_cases hs : c.sequence.status = .cancelled
  · rw [if_pos hs]
    exact .skipped hs
  · rw [if_neg hs]
    cases hb : batch.phase with
    | prefill => exact executePrefill_executed batch hs hb
    | decode => exact executeDecode_executed batch hs hb

theorem executed_of_eq {batch : Batch} {r : Except PyError (List Text)} {c' : BatchContext σ}
    (h : c.executeBatch ex batch = (r, c')) : Executed ex c batch r c' := by
  have hx := executed ex c batch
  rwa [h] at hx

/-- What the insert into the prefix cache can do : nothing, or give the sequence the
handle of a new entry for its prompt and its pages. -/
theorem cachePrefix_cases {r : Except PyError (List Text)} {c' : BatchContext σ}
    (h : c.cachePrefix ex = (r, c')) :
    (c' = c ∧ (r = .ok [] ∨ ∃ e, r = .error e)) ∨
      c.sequence.isPrefillComplete = true ∧ c.sequence.cacheHandle = none ∧
        ex.supportsPrefixCache = true ∧ r = .ok [] ∧
        (c.prefixCache.insert c.now c.sequence.inputIds c.sequence.blockTable true).1 =
          .ok c.prefixCache.nextEntryId ∧
        c' = { c with
          prefixCache :=
            (c.prefixCache.insert c.now c.sequence.inputIds c.sequence.blockTable true).2
          sequence := { c.sequence with cacheHandle := some c.prefixCache.nextEntryId } } := by
  unfold cachePrefix at h
  split_ifs at h with hif
  · rcases c.prefixCache.insert_cases c.now c.sequence.inputIds c.sequence.blockTable true with
      ⟨e, he⟩ | ⟨pc, key, hi, -⟩
    · rw [he] at h
      cases h
      exact .inl ⟨rfl, .inr ⟨e, rfl⟩⟩
    · rw [hi] at h ⊢
      cases h
      exact .inr ⟨hif.1, hif.2.1, hif.2.2, rfl, rfl, rfl⟩
  · cases h
    exact .inl ⟨rfl, .inl rfl⟩

theorem cachePrefix_request {r : Except PyError (List Text)} {c' : BatchContext σ}
    (h : c.cachePrefix ex = (r, c')) : c'.sequence.request = c.sequence.request := by
  rcases cachePrefix_cases h with ⟨rfl, -⟩ | ⟨-, -, -, -, -, rfl⟩ <;> rfl

theorem cachePrefix_executor {r : Except PyError (List Text)} {c' : BatchContext σ}
    (h : c.cachePrefix ex = (r, c')) : c'.executor = c.executor := by
  rcases cachePrefix_cases h with ⟨rfl, -⟩ | ⟨-, -, -, -, -, rfl⟩ <;> rfl

/-- The loop over the samples appends some of them, and may finish the sequence. -/
theorem consumeSamples_sequence (samples : List SampleResult) (s : Sequence)
    (m : RuntimeMetrics) : ∃ xs, (consumeSamples samples s m).2.1 = appendSamples s xs ∨
      (consumeSamples samples s m).2.1 = (appendSamples s xs).markFinished := by
  cases hs : s.isTerminal with
  | true => exact ⟨[], .inl (by cases samples <;> simp [consumeSamples, hs])⟩
  | false =>
    rw [consumeSamples_spec samples s m hs]
    refine ⟨consumed samples s, ?_⟩
    dsimp only
    split_ifs
    · exact .inr rfl
    · exact .inl rfl

/-- The loop over the samples counts the tokens it appends, and nothing else. -/
theorem consumeSamples_metrics (samples : List SampleResult) (s : Sequence)
    (m : RuntimeMetrics) :
    (consumeSamples samples s m).2.2.tokensGenerated + s.outputIds.length =
        m.tokensGenerated + (consumeSamples samples s m).2.1.outputIds.length ∧
      (consumeSamples samples s m).2.2.requestsFinished = m.requestsFinished ∧
      (consumeSamples samples s m).2.2.requestsStarted = m.requestsStarted := by
  cases hs : s.isTerminal with
  | true => cases samples <;> simp [consumeSamples, hs]
  | false =>
    rw [consumeSamples_spec samples s m hs]
    refine ⟨?_, rfl, rfl⟩
    dsimp only
    split_ifs <;> simp [appendSamples, Sequence.markFinished] <;> omega

variable {batch : Batch} {r : Except PyError (List Text)} {c' : BatchContext σ}

/-- Executing a batch counts the tokens it appends, and nothing else. -/
theorem Executed.metrics (h : Executed ex c batch r c') :
    c'.metrics.tokensGenerated + c.sequence.outputIds.length =
        c.metrics.tokensGenerated + c'.sequence.outputIds.length ∧
      c'.metrics.requestsFinished = c.metrics.requestsFinished ∧
      c'.metrics.requestsStarted = c.metrics.requestsStarted := by
  cases h with
  | skipped | attachFailed | prefillFailed | decodeFailed => exact ⟨rfl, rfl, rfl⟩
  | @prefilled _ _ env' _ _ hs hb ha he hc =>
    rw [Sequence.postprocessBatch_prefill (s := (c.setEnv env').sequence) hs
      (ha.phase.trans hb)] at hc
    rcases cachePrefix_cases hc with ⟨rfl, -⟩ | ⟨-, -, -, -, -, rfl⟩ <;> exact ⟨rfl, rfl, rfl⟩
  | @decoded _ _ env' _ samples hs hb ha he hn =>
    exact consumeSamples_metrics samples (c.setEnv env').sequence c.metrics

/-- Executing a batch keeps the fixed part of its sequence. -/
theorem Executed.request (h : Executed ex c batch r c') :
    c'.sequence.request = c.sequence.request := by
  cases h with
  | skipped | attachFailed | prefillFailed | decodeFailed => rfl
  | @prefilled _ _ env' _ _ hs hb ha he hc =>
    refine (cachePrefix_request hc).trans ?_
    show ((c.setEnv env').sequence.postprocessBatch _).request = c.sequence.request
    rw [Sequence.postprocessBatch_prefill (s := (c.setEnv env').sequence) hs (ha.phase.trans hb)]
    rfl
  | @decoded _ _ env' _ samples hs hb ha he hn =>
    obtain ⟨xs, h | h⟩ := consumeSamples_sequence samples (c.setEnv env').sequence c.metrics <;>
      dsimp only <;> rw [h] <;> rfl

/-- Executing a batch keeps the status, or finishes the sequence. -/
theorem Executed.status (h : Executed ex c batch r c') :
    c'.sequence.status = c.sequence.status ∨ c'.sequence.status = .finished := by
  cases h with
  | skipped | attachFailed | prefillFailed | decodeFailed => exact .inl rfl
  | @prefilled _ _ env' _ _ hs hb ha he hc =>
    rw [Sequence.postprocessBatch_prefill (s := (c.setEnv env').sequence) hs
      (ha.phase.trans hb)] at hc
    rcases cachePrefix_cases hc with ⟨rfl, -⟩ | ⟨-, -, -, -, -, rfl⟩ <;> exact .inl rfl
  | @decoded _ _ env' _ samples hs hb ha he hn =>
    obtain ⟨xs, h | h⟩ := consumeSamples_sequence samples (c.setEnv env').sequence c.metrics
    · exact .inl (by dsimp only; rw [h]; rfl)
    · exact .inr (by dsimp only; rw [h]; rfl)

theorem Executed.seqId (h : Executed ex c batch r c') : c'.sequence.seqId = c.sequence.seqId :=
  Sequence.seqId_of_request h.request

theorem forwardPrefill_pages {s : Sequence} {env env' : ExecutorEnv σ} {o : Except PyError Unit}
    (h : ex.forwardPrefill s batch env = (o, env')) :
    PagedKVCache.KVSteps env.pages env'.pages := by
  have hkv := ex.forwardPrefill_kv s batch env
  rwa [h] at hkv

theorem forwardDecode_pages {s : Sequence} {env env' : ExecutorEnv σ}
    {o : Except PyError DecodeOutput} (h : ex.forwardDecode s batch env = (o, env')) :
    PagedKVCache.KVSteps env.pages env'.pages := by
  have hkv := ex.forwardDecode_kv s batch env
  rwa [h] at hkv

/-- Executing a batch changes the pages through the interface of the cache only. -/
theorem Executed.kvSteps (h : Executed ex c batch r c') :
    PagedKVCache.KVSteps c.env.pages c'.env.pages := by
  cases h with
  | skipped => exact .refl
  | attachFailed hs hstate hkv => exact hkv
  | prefillFailed hs hb ha he => exact ha.kv.trans (forwardPrefill_pages he)
  | decodeFailed hs hb ha he ho => exact ha.kv.trans (forwardDecode_pages he)
  | @prefilled _ _ env' _ _ hs hb ha he hc =>
    refine ha.kv.trans ((forwardPrefill_pages he).trans ?_)
    have hpost := Sequence.postprocessBatch_prefill (s := (c.setEnv env').sequence) hs
      (ha.phase.trans hb)
    rcases cachePrefix_cases hc with ⟨rfl, -⟩ | ⟨-, -, -, -, -, rfl⟩ <;>
    · simp only [env, ExecutorEnv.pages, hpost]
      exact .refl
  | @decoded _ _ env' _ samples hs hb ha he hn =>
    refine ha.kv.trans ((forwardDecode_pages he).trans ?_)
    obtain ⟨xs, hxs | hxs⟩ :=
      consumeSamples_sequence samples (c.setEnv env').sequence c.metrics <;>
    · simp only [env, ExecutorEnv.pages, hxs]
      exact .refl

/-- What executing a batch does to the prefix cache : nothing, or the insert of the prompt
with the pages the sequence has then. -/
theorem Executed.prefixCache (h : Executed ex c batch r c') :
    (c'.prefixCache = c.prefixCache ∧ c'.sequence.cacheHandle = c.sequence.cacheHandle) ∨
      c'.sequence.isPrefillComplete = true ∧ c.sequence.cacheHandle = none ∧
        batch.phase = .prefill ∧
        c'.sequence.cacheHandle = some c.prefixCache.nextEntryId ∧
        c'.prefixCache =
          (c.prefixCache.insert c.now c.sequence.inputIds c'.sequence.blockTable true).2 := by
  cases h with
  | skipped | attachFailed | prefillFailed | decodeFailed => exact .inl ⟨rfl, rfl⟩
  | @decoded _ _ env' _ samples hs hb ha he hn =>
    obtain ⟨xs, hxs | hxs⟩ :=
      consumeSamples_sequence samples (c.setEnv env').sequence c.metrics <;>
    · refine .inl ⟨rfl, ?_⟩
      dsimp only
      rw [hxs]
      rfl
  | @prefilled _ _ env' _ _ hs hb ha he hc =>
    rw [Sequence.postprocessBatch_prefill (s := (c.setEnv env').sequence) hs
      (ha.phase.trans hb)] at hc
    rcases cachePrefix_cases hc with ⟨rfl, -⟩ | ⟨hdone, hnone, -, -, -, rfl⟩
    · exact .inl ⟨rfl, rfl⟩
    · exact .inr ⟨hdone, hnone, hb, rfl, rfl⟩

/-- The prefill progress after executing a batch. -/
theorem Executed.numScheduledTokens (h : Executed ex c batch r c') :
    c'.sequence.numScheduledTokens = c.sequence.numScheduledTokens ∨
      batch.phase = .prefill ∧ c'.sequence.numScheduledTokens =
        c.sequence.numScheduledTokens + batch.inputIds.length := by
  cases h with
  | skipped | attachFailed | prefillFailed | decodeFailed => exact .inl rfl
  | @decoded _ _ env' _ samples hs hb ha he hn =>
    obtain ⟨xs, hxs | hxs⟩ :=
      consumeSamples_sequence samples (c.setEnv env').sequence c.metrics <;>
    · refine .inl ?_
      dsimp only
      rw [hxs]
      rfl
  | @prefilled _ _ env' _ _ hs hb ha he hc =>
    rw [Sequence.postprocessBatch_prefill (s := (c.setEnv env').sequence) hs
      (ha.phase.trans hb), ha.inputIds] at hc
    rcases cachePrefix_cases hc with ⟨rfl, -⟩ | ⟨-, -, -, -, -, rfl⟩ <;>
      exact .inr ⟨hb, rfl⟩

end BatchContext

end SoloRT
