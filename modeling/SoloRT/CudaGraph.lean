import SoloRT.Serving
import SoloRT.StaticArena

/-!
# The CUDA-graph executors

`CudaGraphQwen3Executor` runs its own forward pass over a static KV arena that all sequences
share (`model/cuda_graph_executor.py`). The layers of the model are the parameter `row` : the
K/V entry and the logits of a token at a position, from the entries that the attention mask
leaves it. Arithmetic is exact, and entries are of any type.

A forward pass is captured into a CUDA graph at its first use for a bucket. The capture runs the
pass a few times on the buffers of the coming replay, and so writes what the replay writes.

`SpecCudaGraphQwen3Executor` adds a draft model with a runner of its own. Both executors keep
their runners in one `GraphState`, of which the first never touches the draft.
-/

namespace SoloRT

/-- A replay of a decode graph : its token, the position it is fed at, and the entries that the
mask leaves to it besides its own. -/
structure Replay (E : Type) where
  tokenId : TokenId
  pos : ℕ
  visible : List (ℕ × E)
  deriving DecidableEq, Repr

/-- What a `_GraphQwen3Runner` changes : the arena `kc`, `vc` and the captured graphs. The list
of the decode replays made is a ghost, for statements only. -/
structure RunnerState (E : Type) where
  kv : ℕ → E
  graphs : List ℕ := []
  preGraphs : List ℕ := []
  verifyGraph : Bool := false
  replays : List (Replay E) := []

/-- The fixed part of a `_GraphQwen3Runner`. -/
structure GraphQwen3Runner (E : Type) where
  row : List (ℕ × E) → ℕ → TokenId → E × List ℚ
  maxLen : ℕ

namespace GraphQwen3Runner

variable {E : Type} (g : GraphQwen3Runner E)

/-- The attention of a decode graph scans one of these numbers of positions. -/
def buckets : List ℕ :=
  [128, 256, 512, 1024, 2048, 4096].filter (· < g.maxLen) ++ [g.maxLen]

/-- A prefill graph takes one of these numbers of tokens. -/
def preBuckets : List ℕ :=
  [16, 32, 64, 128, 256, 512, 1024].filter (· ≤ g.maxLen)

def forward (bound pos : ℕ) (tokenIds : List TokenId) (st : RunnerState E) :
    List (List ℚ) × RunnerState E :=
  let (logits, kv) := StaticArena.forward g.row bound pos tokenIds st.kv
  (logits, { st with kv })

/-- `_prefill_forward`, with the buffer `pre_tok[:bound]`. It reads its own entries only. -/
def prefillForward (bound : ℕ) (preTok : List TokenId) (st : RunnerState E) :
    List (List ℚ) × RunnerState E :=
  g.forward bound 0 preTok st

/-- `_capture_prefill` : two runs, and a capture that runs nothing. -/
def capturePrefill (bound : ℕ) (preTok : List TokenId) (st : RunnerState E) : RunnerState E :=
  let (_, st) := g.prefillForward bound preTok st
  let (_, st) := g.prefillForward bound preTok st
  { st with preGraphs := bound :: st.preGraphs }

/-- The logits at the last real position. `next(...)` raises if no bucket is large enough. -/
def prefill (ids : List TokenId) (st : RunnerState E) :
    Except PyError (List ℚ) × RunnerState E :=
  match g.preBuckets.find? (ids.length ≤ ·) with
  | none => (.error ⟨.stopIteration, ""⟩, st)
  | some bound =>
    let preTok := ids ++ List.replicate (bound - ids.length) 0
    let st := if bound ∈ st.preGraphs then st else g.capturePrefill bound preTok st
    let (logits, st) := g.prefillForward bound preTok st
    (.ok (logits.getD (ids.length - 1) []), st)

/-- `_decode_forward`, with the buffers `tok_buf` and `pos_buf`. -/
def decodeForward (bound : ℕ) (tokBuf : TokenId) (posBuf : ℕ) (st : RunnerState E) :
    List ℚ × RunnerState E :=
  let (logits, st) := g.forward bound posBuf [tokBuf] st
  (logits.getLastD [], st)

/-- `_bucket_for`. The callers keep the position below `max_len`, the last bucket. -/
def bucketFor (pos : ℕ) : ℕ :=
  (g.buckets.find? (pos < ·)).getD g.maxLen

/-- `_capture` : three runs, and a capture that runs nothing. -/
def capture (bound : ℕ) (tokBuf : TokenId) (posBuf : ℕ) (st : RunnerState E) : RunnerState E :=
  let (_, st) := g.decodeForward bound tokBuf posBuf st
  let (_, st) := g.decodeForward bound tokBuf posBuf st
  let (_, st) := g.decodeForward bound tokBuf posBuf st
  { st with graphs := bound :: st.graphs }

/-- `decode`, with `_replay`. -/
def decode (token : TokenId) (pos : ℕ) (st : RunnerState E) : List ℚ × RunnerState E :=
  let bound := g.bucketFor pos
  let st := if bound ∈ st.graphs then st else g.capture bound token pos st
  let visible := StaticArena.masked st.kv bound pos
  g.decodeForward bound token pos
    { st with replays := st.replays ++ [{ tokenId := token, pos, visible }] }

/-- `decode_argmax`, `decode_gpu` and `decode_gpu_argmax` : they differ in where the token is
kept and the argmax is taken. -/
def decodeArgmax (token : TokenId) (pos : ℕ) (st : RunnerState E) : TokenId × RunnerState E :=
  let (logits, st) := g.decode token pos st
  (greedyToken logits, st)

/-- The loops of `k` replays, each fed the argmax of the one before. -/
def decodeLoop : ℕ → TokenId → ℕ → RunnerState E → List TokenId × RunnerState E
  | 0, _, _, st => ([], st)
  | k + 1, cur, pos, st =>
    let (cur, st) := g.decodeArgmax cur pos st
    let (toks, st) := decodeLoop k cur (pos + 1) st
    (cur :: toks, st)

/-- `_verify_forward`, with the buffers `vtok` and `vpos0`. -/
def verifyForward (vtok : List TokenId) (vpos0 : ℕ) (st : RunnerState E) :
    List (List ℚ) × RunnerState E :=
  g.forward g.maxLen vpos0 vtok st

/-- `verify`. Its graph is captured once, after three runs. The buffer `vtok` gets the size of
the first tokens. The executors always pass `specK + 1`, so its size is no part of the state. -/
def verify (tokens : List TokenId) (posStart : ℕ) (st : RunnerState E) :
    List (List ℚ) × RunnerState E :=
  let st :=
    if st.verifyGraph then st
    else
      let (_, st) := g.verifyForward tokens posStart st
      let (_, st) := g.verifyForward tokens posStart st
      let (_, st) := g.verifyForward tokens posStart st
      { st with verifyGraph := true }
  g.verifyForward tokens posStart st

end GraphQwen3Runner

/-- What an executor keeps : the serving states, the runners, and the draws made. -/
structure GraphState (E D : Type) where
  states : ServingStates Unit := fun _ => none
  runner : RunnerState E
  draft : RunnerState D
  rng : ℕ := 0

namespace GraphState

variable {E D : Type}

/-- Store a serving state at the end of a call. -/
def store (env : ExecutorEnv (GraphState E D)) (seqId : SeqId) (state : ServingState Unit) :
    ExecutorEnv (GraphState E D) :=
  { env with state := { env.state with states := env.state.states.store seqId state } }

end GraphState

/-! ## The executor without a draft -/

structure CudaGraphQwen3Executor (E : Type) where
  config : GenerationConfig
  tokenizer : Tokenizer
  torch : Torch
  row : List (ℕ × E) → ℕ → TokenId → E × List ℚ

namespace CudaGraphQwen3Executor

variable {E D : Type} (ex : CudaGraphQwen3Executor E)

def maxLen : ℕ :=
  ex.config.graphMaxLen

def decodeChunk : ℤ :=
  max 1 ex.config.decodeChunk

def runner : GraphQwen3Runner E where
  row := ex.row
  maxLen := ex.maxLen

/-- What an executor call works on. -/
abbrev Env (E D : Type) := ExecutorEnv (GraphState E D)

/-- `_sample_token`. -/
def sample (st : GraphState E D) (logits : List ℚ) (sequence : Sequence) :
    TokenId × GraphState E D :=
  let (tokenId, rng) := sampleToken ex.torch ex.config logits sequence st.rng
  (tokenId, { st with rng })

/-- The sample of a sequence that is over. -/
def eosSample : SampleResult :=
  { tokenId := ex.tokenizer.eos, text := [], finished := true }

def forwardPrefill (sequence : Sequence) (batch : Batch) (env : Env E D) :
    Except PyError Unit × Env E D :=
  if batch.inputIds = [] then (.ok (), env)
  else
    let state := env.state.states.ensure sequence
    let state :=
      { state with
        prefilledTokenCount := state.prefilledTokenCount + batch.inputIds.length
        promptTokenCount := max state.promptTokenCount sequence.numPromptTokens }
    -- the state is changed in place, also when the call raises
    if state.prefilledTokenCount < sequence.numPromptTokens then
      (.ok (), GraphState.store env sequence.seqId state)
    else
      let prompt := sequence.inputIds.take sequence.numPromptTokens
      if ex.maxLen ≤ prompt.length then
        (.error ⟨.runtimeError, "prompt " ++ toString prompt.length ++ " >= graph_max_len " ++
          toString ex.maxLen ++ "; raise SOLORT_GRAPH_MAX_LEN"⟩,
          GraphState.store env sequence.seqId state)
      else
        match ex.runner.prefill prompt env.state.runner with
        | (.error e, runner) =>
          (.error e, GraphState.store { env with state := { env.state with runner } }
            sequence.seqId state)
        | (.ok logits, runner) =>
          let (tokenId, st) := ex.sample { env.state with runner } logits sequence
          (.ok (), GraphState.store { env with state := st } sequence.seqId
            { state with pendingTokenId := some tokenId })

/-- `_is_greedy`. -/
def isGreedy (sequence : Sequence) : Bool :=
  decide (sequence.metadata.temperature.getD ex.config.defaultTemperature ≤ 0) &&
    decide (sequence.metadata.repetitionPenalty.getD ex.config.defaultRepetitionPenalty = 1)

/-- The number of replays of a greedy chunk. -/
def chunkLength (remaining : ℤ) (position : ℕ) : ℕ :=
  (max 1 (min (min ex.decodeChunk remaining) ((ex.maxLen : ℤ) - position))).toNat

def forwardDecode (sequence : Sequence) (_batch : Batch) (env : Env E D) :
    Except PyError DecodeOutput × Env E D :=
  let state := env.state.states.ensure sequence
  if state.finished then (.ok (.one ex.eosSample), env)
  else
    match state.pendingTokenId with
    | some tokenId =>
      let (result, state) := appendTokenResult ex.config ex.tokenizer sequence
        { state with pendingTokenId := none } tokenId
      (.ok (.one result), GraphState.store env sequence.seqId state)
    | none =>
      match state.generatedTokenIds.getLast? with
      | none =>
        (.ok (.one ex.eosSample),
          GraphState.store env sequence.seqId { state with finished := true })
      | some last =>
        let position := state.promptTokenCount + state.generatedTokenIds.length
        if ex.maxLen ≤ position then
          (.error ⟨.runtimeError,
              "decode position exceeds graph_max_len; raise SOLORT_GRAPH_MAX_LEN"⟩,
            GraphState.store env sequence.seqId state)
        else if ex.isGreedy sequence = false then
          let (logits, runner) := ex.runner.decode last position env.state.runner
          let (tokenId, st) := ex.sample { env.state with runner } logits sequence
          let (result, state) := appendTokenResult ex.config ex.tokenizer sequence state tokenId
          (.ok (.one result), GraphState.store { env with state := st } sequence.seqId state)
        else
          let k := ex.chunkLength
            ((sequence.maxNewTokens : ℤ) - state.generatedTokenIds.length) position
          let (ids, runner) := ex.runner.decodeLoop k last position env.state.runner
          let (results, state) := appendTokenResults ex.config ex.tokenizer sequence state ids
          (.ok (.many results), GraphState.store
            { env with state := { env.state with runner } } sequence.seqId state)

end CudaGraphQwen3Executor

/-! ## The executor with a draft -/

structure SpecCudaGraphQwen3Executor (E D : Type) extends CudaGraphQwen3Executor E where
  draftRow : List (ℕ × D) → ℕ → TokenId → D × List ℚ

namespace SpecCudaGraphQwen3Executor

open CudaGraphQwen3Executor

variable {E D : Type} (ex : SpecCudaGraphQwen3Executor E D)

def specK : ℕ :=
  (max 1 ex.config.speculativeTokens).toNat

def draft : GraphQwen3Runner D where
  row := ex.draftRow
  maxLen := ex.maxLen

def forwardPrefill (sequence : Sequence) (batch : Batch) (env : Env E D) :
    Except PyError Unit × Env E D :=
  match ex.toCudaGraphQwen3Executor.forwardPrefill sequence batch env with
  | (.error e, env) => (.error e, env)
  | (.ok (), env) =>
    match env.state.states sequence.seqId with
    | none => (.ok (), env)
    | some state =>
      if state.pendingTokenId = none then (.ok (), env)
      else if state.draftPrefilled then (.ok (), env)
      else
        let prompt := sequence.inputIds.take sequence.numPromptTokens
        match ex.draft.prefill prompt env.state.draft with
        | (.error e, draft) => (.error e, { env with state := { env.state with draft } })
        | (.ok _, draft) =>
          (.ok (), GraphState.store { env with state := { env.state with draft } }
            sequence.seqId { state with draftPrefilled := true })

/-- `(tg[:k] == draft_vec).cumprod(0).sum()`. -/
def cumprodSum (tg drafts : List TokenId) : ℕ :=
  ((List.zipWith (fun t d => if t = d then 1 else 0) tg drafts).scanl (· * ·) 1).tail.sum

/-- `_spec_round`. -/
def specRound (lastToken : TokenId) (n : ℕ) (st : GraphState E D) :
    List TokenId × GraphState E D :=
  let k := ex.specK
  let (drafts, draft) := ex.draft.decodeLoop k lastToken n st.draft
  let (logits, runner) := ex.runner.verify (lastToken :: drafts) n st.runner
  let tg := logits.map greedyToken
  let a := cumprodSum (tg.take k) drafts
  if a = k then
    -- the last proposal is fed to the draft model as well
    let (_, draft) := ex.draft.decodeArgmax (drafts.getLastD 0) (n + k) draft
    (drafts ++ (tg.drop k).take 1, { st with runner, draft })
  else (drafts.take a ++ (tg.drop a).take 1, { st with runner, draft })

def forwardDecode (sequence : Sequence) (batch : Batch) (env : Env E D) :
    Except PyError DecodeOutput × Env E D :=
  let state := env.state.states.ensure sequence
  if state.finished then (.ok (.one ex.eosSample), env)
  else if state.pendingTokenId.isSome ∨ state.generatedTokenIds = [] then
    ex.toCudaGraphQwen3Executor.forwardDecode sequence batch env
  else
    let temperature := sequence.metadata.temperature.getD ex.config.defaultTemperature
    let rep := sequence.metadata.repetitionPenalty.getD ex.config.defaultRepetitionPenalty
    let position := state.promptTokenCount + state.generatedTokenIds.length
    if temperature > 0 ∨ rep ≠ 1 ∨ ex.maxLen ≤ position + ex.specK + 2 then
      ex.toCudaGraphQwen3Executor.forwardDecode sequence batch env
    else
      let (newTokens, st) := ex.specRound (state.generatedTokenIds.getLastD 0) position env.state
      let (results, state) := appendTokenResults ex.config ex.tokenizer sequence state newTokens
      (.ok (.many results), GraphState.store { env with state := st } sequence.seqId state)

end SpecCudaGraphQwen3Executor

/-! ## As the runtime sees them -/

namespace CudaGraphQwen3Executor

variable {E D : Type} (ex : CudaGraphQwen3Executor E)

theorem forwardPrefill_pages (sequence : Sequence) (batch : Batch) (env : Env E D) :
    (ex.forwardPrefill sequence batch env).2.pages = env.pages := by
  unfold forwardPrefill
  dsimp only
  split_ifs
  · rfl
  · rfl
  · rfl
  · split <;> rfl

theorem forwardDecode_pages (sequence : Sequence) (batch : Batch) (env : Env E D) :
    (ex.forwardDecode sequence batch env).2.pages = env.pages := by
  unfold forwardDecode
  dsimp only
  by_cases hfin : (env.state.states.ensure sequence).finished = true
  · rw [if_pos hfin]
  · rw [if_neg hfin]
    split
    · rfl
    · split
      · rfl
      · split_ifs <;> rfl

/-- The pages stay as they are : the executor owns its static KV. -/
def modelExecutor (D : Type) : ModelExecutor (GraphState E D) where
  supportsPrefixCache := false
  usesPagedKv := false
  tokenizeMessages := ex.tokenizer.chatTokenIds
  forwardPrefill := ex.forwardPrefill
  forwardDecode := ex.forwardDecode
  forwardPrefill_kv sequence batch env := by
    rw [forwardPrefill_pages]
  forwardDecode_kv sequence batch env := by
    rw [forwardDecode_pages]

end CudaGraphQwen3Executor

namespace SpecCudaGraphQwen3Executor

open CudaGraphQwen3Executor

variable {E D : Type} (ex : SpecCudaGraphQwen3Executor E D)

theorem forwardPrefill_pages (sequence : Sequence) (batch : Batch) (env : Env E D) :
    (ex.forwardPrefill sequence batch env).2.pages = env.pages := by
  have hsuper := ex.toCudaGraphQwen3Executor.forwardPrefill_pages sequence batch env
  unfold forwardPrefill
  generalize ex.toCudaGraphQwen3Executor.forwardPrefill sequence batch env = r at hsuper ⊢
  obtain ⟨e | u, env'⟩ := r
  · exact hsuper
  · dsimp only at hsuper ⊢
    rw [← hsuper]
    split
    · rfl
    · split_ifs
      · rfl
      · rfl
      · split <;> rfl

theorem forwardDecode_pages (sequence : Sequence) (batch : Batch) (env : Env E D) :
    (ex.forwardDecode sequence batch env).2.pages = env.pages := by
  have hsuper := ex.toCudaGraphQwen3Executor.forwardDecode_pages sequence batch env
  unfold forwardDecode
  dsimp only
  split_ifs
  · rfl
  · exact hsuper
  · exact hsuper
  · rfl

def modelExecutor : ModelExecutor (GraphState E D) where
  supportsPrefixCache := false
  usesPagedKv := false
  tokenizeMessages := ex.tokenizer.chatTokenIds
  forwardPrefill := ex.forwardPrefill
  forwardDecode := ex.forwardDecode
  forwardPrefill_kv sequence batch env := by
    rw [forwardPrefill_pages]
  forwardDecode_kv sequence batch env := by
    rw [forwardDecode_pages]

end SpecCudaGraphQwen3Executor

end SoloRT
