import SoloRT.ExecutorRefinement
import SoloRT.Qwen3Runner
import SoloRT.StreamText

/-!
# Serving from the layers

`CudaGraphQwen3Executor` and `SpecCudaGraphQwen3Executor` are stated over a function of one token.
What they really call are the methods of `_GraphQwen3Runner`, with an arena for each layer. These
executors make the same calls to the runners of two models. They keep every position that they feed
below `max_len`, and all their verifications have `K + 1` tokens (`Fixed`), so each call is one of
the runner over a function of one token (`StandsFor`).

So a server over the fused layers with their buckets, masks, padding and captures cannot be told
from one over the plain layers, whatever requests it gets (`served_eq_reference`). All that is
proved of the executors over any function of one token holds of those over the layers.
-/

namespace SoloRT

/-! ## The loops of a runner -/

namespace Qwen3Model

variable (m : Qwen3Model ℚ)

/-- `decode_argmax`, `decode_gpu` and `decode_gpu_argmax`. -/
def decodeArgmax (token : TokenId) (pos : ℕ) (st : Qwen3State) : TokenId × Qwen3State :=
  let (logits, st) := m.decode token pos st
  (greedyToken logits, st)

/-- The loops of `k` replays, each fed the argmax of the one before. -/
def decodeLoop : ℕ → TokenId → ℕ → Qwen3State → List TokenId × Qwen3State
  | 0, _, _, st => ([], st)
  | k + 1, cur, pos, st =>
    let (cur, st) := m.decodeArgmax cur pos st
    let (toks, st) := decodeLoop k cur (pos + 1) st
    (cur :: toks, st)

variable {m} {st : Qwen3State} {rs : RunnerState (List (HeadKV ℚ))}

theorem Models.decodeArgmax (hdoc : m.F.Documented) (h : Models m st rs) {pos : ℕ}
    (hlt : pos < m.maxLen) (token : TokenId) :
    (m.runner.decodeArgmax token pos rs).1 = (m.decodeArgmax token pos st).1 ∧
      Models m (m.decodeArgmax token pos st).2 (m.runner.decodeArgmax token pos rs).2 := by
  obtain ⟨hlogits, hmodels⟩ := h.decode hdoc hlt token
  exact ⟨congrArg greedyToken hlogits, hmodels⟩

theorem Models.decodeLoop (hdoc : m.F.Documented) (h : Models m st rs) {k pos : ℕ}
    (hle : pos + k ≤ m.maxLen) (cur : TokenId) :
    (m.runner.decodeLoop k cur pos rs).1 = (m.decodeLoop k cur pos st).1 ∧
      Models m (m.decodeLoop k cur pos st).2 (m.runner.decodeLoop k cur pos rs).2 := by
  induction k generalizing st rs pos cur with
  | zero => exact ⟨rfl, h⟩
  | succ k ih =>
    obtain ⟨htoken, hmodels⟩ := h.decodeArgmax hdoc (by omega : pos < m.maxLen) cur
    obtain ⟨htokens, hmodels'⟩ := ih hmodels (by omega : pos + 1 + k ≤ m.maxLen)
      (m.decodeArgmax cur pos st).1
    rw [GraphQwen3Runner.decodeLoop, Qwen3Model.decodeLoop]
    dsimp only
    rw [htoken]
    exact ⟨congrArg (_ :: ·) htokens, hmodels'⟩

theorem verifyGraph_decodeLoop (k : ℕ) (cur : TokenId) (pos : ℕ) (st : Qwen3State) :
    (m.decodeLoop k cur pos st).2.verifyGraph = st.verifyGraph := by
  induction k generalizing cur pos st with
  | zero => rfl
  | succ k ih => exact (ih ..).trans (verifyGraph_decode ..)

theorem length_decodeLoop (k : ℕ) (cur : TokenId) (pos : ℕ) (st : Qwen3State) :
    (m.decodeLoop k cur pos st).1.length = k := by
  induction k generalizing cur pos st with
  | zero => rfl
  | succ k ih => exact congrArg (· + 1) (ih ..)

end Qwen3Model

/-! ## The executors -/

/-- What the executors keep : the serving states, the runners of the two models, and the draws
made. -/
structure Qwen3GraphState where
  states : ServingStates Unit := fun _ => none
  runner : Qwen3State
  draft : Qwen3State
  rng : ℕ := 0

/-- Store a serving state at the end of a call. -/
def Qwen3GraphState.store (env : ExecutorEnv Qwen3GraphState) (seqId : SeqId)
    (state : ServingState Unit) : ExecutorEnv Qwen3GraphState :=
  { env with state := { env.state with states := env.state.states.store seqId state } }

/-- `CudaGraphQwen3Executor` with the layers of its model. -/
structure Qwen3GraphExecutor where
  config : GenerationConfig
  tokenizer : Tokenizer
  torch : Torch
  model : Qwen3Model ℚ
  maxLen_eq : model.maxLen = config.graphMaxLen

namespace Qwen3GraphExecutor

variable (ex : Qwen3GraphExecutor)

/-- The executor with the layers as a function of one token. -/
def rows : CudaGraphQwen3Executor (List (HeadKV ℚ)) where
  config := ex.config
  tokenizer := ex.tokenizer
  torch := ex.torch
  row := ex.model.tokenRow

/-- `_sample_token`. -/
def sample (st : Qwen3GraphState) (logits : List ℚ) (sequence : Sequence) :
    TokenId × Qwen3GraphState :=
  let (tokenId, rng) := sampleToken ex.torch ex.config logits sequence st.rng
  (tokenId, { st with rng })

def forwardPrefill (sequence : Sequence) (batch : Batch) (env : ExecutorEnv Qwen3GraphState) :
    Except PyError Unit × ExecutorEnv Qwen3GraphState :=
  if batch.inputIds = [] then (.ok (), env)
  else
    let state := env.state.states.ensure sequence
    let state :=
      { state with
        prefilledTokenCount := state.prefilledTokenCount + batch.inputIds.length
        promptTokenCount := max state.promptTokenCount sequence.numPromptTokens }
    if state.prefilledTokenCount < sequence.numPromptTokens then
      (.ok (), Qwen3GraphState.store env sequence.seqId state)
    else
      let prompt := sequence.inputIds.take sequence.numPromptTokens
      if ex.rows.maxLen ≤ prompt.length then
        (.error ⟨.runtimeError, "prompt " ++ toString prompt.length ++ " >= graph_max_len " ++
          toString ex.rows.maxLen ++ "; raise SOLORT_GRAPH_MAX_LEN"⟩,
          Qwen3GraphState.store env sequence.seqId state)
      else
        match ex.model.prefill prompt env.state.runner with
        | (.error e, runner) =>
          (.error e, Qwen3GraphState.store { env with state := { env.state with runner } }
            sequence.seqId state)
        | (.ok logits, runner) =>
          let (tokenId, st) := ex.sample { env.state with runner } logits sequence
          (.ok (), Qwen3GraphState.store { env with state := st } sequence.seqId
            { state with pendingTokenId := some tokenId })

def forwardDecode (sequence : Sequence) (_batch : Batch) (env : ExecutorEnv Qwen3GraphState) :
    Except PyError DecodeOutput × ExecutorEnv Qwen3GraphState :=
  let state := env.state.states.ensure sequence
  if state.finished then (.ok (.one ex.rows.eosSample), env)
  else
    match state.pendingTokenId with
    | some tokenId =>
      let (result, state) := appendTokenResult ex.config ex.tokenizer sequence
        { state with pendingTokenId := none } tokenId
      (.ok (.one result), Qwen3GraphState.store env sequence.seqId state)
    | none =>
      match state.generatedTokenIds.getLast? with
      | none =>
        (.ok (.one ex.rows.eosSample),
          Qwen3GraphState.store env sequence.seqId { state with finished := true })
      | some last =>
        let position := state.promptTokenCount + state.generatedTokenIds.length
        if ex.rows.maxLen ≤ position then
          (.error ⟨.runtimeError,
              "decode position exceeds graph_max_len; raise SOLORT_GRAPH_MAX_LEN"⟩,
            Qwen3GraphState.store env sequence.seqId state)
        else if ex.rows.isGreedy sequence = false then
          let (logits, runner) := ex.model.decode last position env.state.runner
          let (tokenId, st) := ex.sample { env.state with runner } logits sequence
          let (result, state) := appendTokenResult ex.config ex.tokenizer sequence state tokenId
          (.ok (.one result), Qwen3GraphState.store { env with state := st } sequence.seqId state)
        else
          let k := ex.rows.chunkLength
            ((sequence.maxNewTokens : ℤ) - state.generatedTokenIds.length) position
          let (ids, runner) := ex.model.decodeLoop k last position env.state.runner
          let (results, state) := appendTokenResults ex.config ex.tokenizer sequence state ids
          (.ok (.many results), Qwen3GraphState.store
            { env with state := { env.state with runner } } sequence.seqId state)

end Qwen3GraphExecutor

/-- `SpecCudaGraphQwen3Executor` with the layers of its models. -/
structure SpecQwen3GraphExecutor extends Qwen3GraphExecutor where
  draftModel : Qwen3Model ℚ
  draftMaxLen_eq : draftModel.maxLen = config.graphMaxLen

namespace SpecQwen3GraphExecutor

variable (ex : SpecQwen3GraphExecutor)

def specRows : SpecCudaGraphQwen3Executor (List (HeadKV ℚ)) (List (HeadKV ℚ)) where
  toCudaGraphQwen3Executor := ex.rows
  draftRow := ex.draftModel.tokenRow

def forwardPrefill (sequence : Sequence) (batch : Batch) (env : ExecutorEnv Qwen3GraphState) :
    Except PyError Unit × ExecutorEnv Qwen3GraphState :=
  match ex.toQwen3GraphExecutor.forwardPrefill sequence batch env with
  | (.error e, env) => (.error e, env)
  | (.ok (), env) =>
    match env.state.states sequence.seqId with
    | none => (.ok (), env)
    | some state =>
      if state.pendingTokenId = none then (.ok (), env)
      else if state.draftPrefilled then (.ok (), env)
      else
        let prompt := sequence.inputIds.take sequence.numPromptTokens
        match ex.draftModel.prefill prompt env.state.draft with
        | (.error e, draft) => (.error e, { env with state := { env.state with draft } })
        | (.ok _, draft) =>
          (.ok (), Qwen3GraphState.store { env with state := { env.state with draft } }
            sequence.seqId { state with draftPrefilled := true })

/-- `_spec_round`. -/
def specRound (lastToken : TokenId) (n : ℕ) (st : Qwen3GraphState) :
    Except PyError (List TokenId) × Qwen3GraphState :=
  let k := ex.specRows.specK
  let (drafts, draft) := ex.draftModel.decodeLoop k lastToken n st.draft
  match ex.model.verify (lastToken :: drafts) n st.runner with
  | (.error e, runner) => (.error e, { st with runner, draft })
  | (.ok logits, runner) =>
    let tg := logits.map greedyToken
    let a := SpecCudaGraphQwen3Executor.cumprodSum (tg.take k) drafts
    if a = k then
      -- the last proposal is fed to the draft model as well
      let (_, draft) := ex.draftModel.decodeArgmax (drafts.getLastD 0) (n + k) draft
      (.ok (drafts ++ (tg.drop k).take 1), { st with runner, draft })
    else (.ok (drafts.take a ++ (tg.drop a).take 1), { st with runner, draft })

def forwardDecode (sequence : Sequence) (batch : Batch) (env : ExecutorEnv Qwen3GraphState) :
    Except PyError DecodeOutput × ExecutorEnv Qwen3GraphState :=
  let state := env.state.states.ensure sequence
  if state.finished then (.ok (.one ex.rows.eosSample), env)
  else if state.pendingTokenId.isSome ∨ state.generatedTokenIds = [] then
    ex.toQwen3GraphExecutor.forwardDecode sequence batch env
  else
    let temperature := sequence.metadata.temperature.getD ex.config.defaultTemperature
    let rep := sequence.metadata.repetitionPenalty.getD ex.config.defaultRepetitionPenalty
    let position := state.promptTokenCount + state.generatedTokenIds.length
    if temperature > 0 ∨ rep ≠ 1 ∨ ex.rows.maxLen ≤ position + ex.specRows.specK + 2 then
      ex.toQwen3GraphExecutor.forwardDecode sequence batch env
    else
      match ex.specRound (state.generatedTokenIds.getLastD 0) position env.state with
      | (.error e, st) =>
        (.error e, Qwen3GraphState.store { env with state := st } sequence.seqId state)
      | (.ok newTokens, st) =>
        let (results, state) := appendTokenResults ex.config ex.tokenizer sequence state newTokens
        (.ok (.many results), Qwen3GraphState.store { env with state := st } sequence.seqId state)

end SpecQwen3GraphExecutor

/-! ## The calls stand for those over a function of one token -/

/-- The states are the same up to the arenas, and the arenas of the layers hold what those of the
runners hold. -/
structure StandsFor (m d : Qwen3Model ℚ)
    (st : GraphState (List (HeadKV ℚ)) (List (HeadKV ℚ))) (q : Qwen3GraphState) : Prop where
  states : q.states = st.states
  runner : Qwen3Model.Models m q.runner st.runner
  draft : Qwen3Model.Models d q.draft st.draft
  rng : q.rng = st.rng

namespace Qwen3GraphExecutor

variable {ex : Qwen3GraphExecutor} {d : Qwen3Model ℚ}
  {env : ExecutorEnv (GraphState (List (HeadKV ℚ)) (List (HeadKV ℚ)))} {t : Qwen3GraphState}

theorem runner_rows (ex : Qwen3GraphExecutor) : ex.rows.runner = ex.model.runner := by
  rw [CudaGraphQwen3Executor.runner, Qwen3Model.runner, ex.maxLen_eq]
  rfl

theorem config_rows (ex : Qwen3GraphExecutor) : ex.rows.config = ex.config := rfl

theorem tokenizer_rows (ex : Qwen3GraphExecutor) : ex.rows.tokenizer = ex.tokenizer := rfl

theorem maxLen_rows (ex : Qwen3GraphExecutor) : ex.rows.maxLen = ex.model.maxLen :=
  ex.maxLen_eq.symm

theorem forwardPrefill_standsFor (hdoc : ex.model.F.Documented) (sequence : Sequence)
    (batch : Batch) (h : StandsFor ex.model d env.state t) : ∃ t',
    ex.forwardPrefill sequence batch (env.withState t) =
        ((ex.rows.forwardPrefill sequence batch env).1,
          (ex.rows.forwardPrefill sequence batch env).2.withState t') ∧
      StandsFor ex.model d (ex.rows.forwardPrefill sequence batch env).2.state t' := by
  obtain ⟨⟨states, runner, draft, rng⟩, kv, table⟩ := env
  obtain ⟨states', runner', draft', rng'⟩ := t
  obtain ⟨hstates, hrunner, hdraft, hrng⟩ := h
  dsimp only at hstates hrunner hdraft hrng
  subst hstates hrng
  unfold forwardPrefill CudaGraphQwen3Executor.forwardPrefill
  rw [runner_rows]
  dsimp only [ExecutorEnv.withState]
  split_ifs
  · exact ⟨_, rfl, rfl, hrunner, hdraft, rfl⟩
  · exact ⟨_, rfl, rfl, hrunner, hdraft, rfl⟩
  · exact ⟨_, rfl, rfl, hrunner, hdraft, rfl⟩
  · obtain ⟨hlogits, hmodels⟩ := hrunner.prefill hdoc
      (sequence.inputIds.take sequence.numPromptTokens)
    generalize ex.model.prefill (sequence.inputIds.take sequence.numPromptTokens) runner' = r'
      at hlogits hmodels ⊢
    generalize ex.model.runner.prefill (sequence.inputIds.take sequence.numPromptTokens) runner = r
      at hlogits hmodels ⊢
    obtain ⟨e | logits, rs⟩ := r <;> obtain ⟨e' | logits', st⟩ := r' <;> cases hlogits
    · exact ⟨_, rfl, rfl, hmodels, hdraft, rfl⟩
    · exact ⟨_, rfl, rfl, hmodels, hdraft, rfl⟩

/-- A chunk ends at the end of the arena. -/
theorem add_chunkLength_le {position : ℕ} (h : position < ex.rows.maxLen) (remaining : ℤ) :
    position + ex.rows.chunkLength remaining position ≤ ex.model.maxLen := by
  rw [← maxLen_rows]
  unfold CudaGraphQwen3Executor.chunkLength
  omega

theorem forwardDecode_standsFor (hdoc : ex.model.F.Documented) (sequence : Sequence)
    (batch : Batch) (h : StandsFor ex.model d env.state t) : ∃ t',
    ex.forwardDecode sequence batch (env.withState t) =
        ((ex.rows.forwardDecode sequence batch env).1,
          (ex.rows.forwardDecode sequence batch env).2.withState t') ∧
      StandsFor ex.model d (ex.rows.forwardDecode sequence batch env).2.state t' := by
  obtain ⟨⟨states, runner, draft, rng⟩, kv, table⟩ := env
  obtain ⟨states', runner', draft', rng'⟩ := t
  obtain ⟨hstates, hrunner, hdraft, hrng⟩ := h
  dsimp only at hstates hrunner hdraft hrng
  subst hstates hrng
  unfold forwardDecode CudaGraphQwen3Executor.forwardDecode
  rw [runner_rows]
  dsimp only [ExecutorEnv.withState]
  by_cases hfin : (states'.ensure sequence).finished = true
  · rw [if_pos hfin, if_pos hfin]
    exact ⟨_, rfl, rfl, hrunner, hdraft, rfl⟩
  · rw [if_neg hfin, if_neg hfin]
    cases (states'.ensure sequence).pendingTokenId with
    | some tokenId => exact ⟨_, rfl, rfl, hrunner, hdraft, rfl⟩
    | none =>
      dsimp only
      cases (states'.ensure sequence).generatedTokenIds.getLast? with
      | none => exact ⟨_, rfl, rfl, hrunner, hdraft, rfl⟩
      | some last =>
        dsimp only
        generalize (states'.ensure sequence).promptTokenCount +
          (states'.ensure sequence).generatedTokenIds.length = position
        split_ifs with hlong hgreedy
        · exact ⟨_, rfl, rfl, hrunner, hdraft, rfl⟩
        · obtain ⟨hlogits, hmodels⟩ := hrunner.decode hdoc
            (Nat.lt_of_not_le (ex.maxLen_rows ▸ hlong)) last
          rw [hlogits]
          exact ⟨_, rfl, rfl, hmodels, hdraft, rfl⟩
        · obtain ⟨hids, hmodels⟩ := hrunner.decodeLoop hdoc
            (add_chunkLength_le (Nat.lt_of_not_le hlong) ((sequence.maxNewTokens : ℤ) -
              (states'.ensure sequence).generatedTokenIds.length)) last
          rw [hids]
          exact ⟨_, rfl, rfl, hmodels, hdraft, rfl⟩

/-- A prefill leaves the graph of `verify`. -/
theorem forwardPrefill_verifyGraph (ex : Qwen3GraphExecutor) (sequence : Sequence) (batch : Batch)
    (env : ExecutorEnv Qwen3GraphState) :
    (ex.forwardPrefill sequence batch env).2.state.runner.verifyGraph =
      env.state.runner.verifyGraph := by
  have hprefill := Qwen3Model.verifyGraph_prefill (m := ex.model)
    (sequence.inputIds.take sequence.numPromptTokens) env.state.runner
  unfold forwardPrefill
  dsimp only
  split_ifs
  · rfl
  · rfl
  · rfl
  · generalize ex.model.prefill (sequence.inputIds.take sequence.numPromptTokens)
      env.state.runner = r at hprefill ⊢
    obtain ⟨e | logits, runner⟩ := r
    exacts [hprefill, hprefill]

/-- So does a decode without proposals. -/
theorem forwardDecode_verifyGraph (ex : Qwen3GraphExecutor) (sequence : Sequence) (batch : Batch)
    (env : ExecutorEnv Qwen3GraphState) :
    (ex.forwardDecode sequence batch env).2.state.runner.verifyGraph =
      env.state.runner.verifyGraph := by
  unfold forwardDecode
  dsimp only
  by_cases hfin : (env.state.states.ensure sequence).finished = true
  · rw [if_pos hfin]
  · rw [if_neg hfin]
    split
    · rfl
    · split
      · rfl
      · split_ifs
        · rfl
        · exact Qwen3Model.verifyGraph_decode ..
        · exact Qwen3Model.verifyGraph_decodeLoop ..

theorem forwardPrefill_pages (ex : Qwen3GraphExecutor) (sequence : Sequence) (batch : Batch)
    (env : ExecutorEnv Qwen3GraphState) :
    (ex.forwardPrefill sequence batch env).2.pages = env.pages := by
  unfold forwardPrefill
  dsimp only
  split_ifs
  · rfl
  · rfl
  · rfl
  · split <;> rfl

theorem forwardDecode_pages (ex : Qwen3GraphExecutor) (sequence : Sequence) (batch : Batch)
    (env : ExecutorEnv Qwen3GraphState) :
    (ex.forwardDecode sequence batch env).2.pages = env.pages := by
  unfold forwardDecode
  dsimp only
  by_cases hfin : (env.state.states.ensure sequence).finished = true
  · rw [if_pos hfin]
  · rw [if_neg hfin]
    split
    · rfl
    · split
      · rfl
      · split_ifs <;> rfl

def modelExecutor (ex : Qwen3GraphExecutor) : ModelExecutor Qwen3GraphState where
  supportsPrefixCache := false
  usesPagedKv := false
  tokenizeMessages := ex.tokenizer.chatTokenIds
  forwardPrefill := ex.forwardPrefill
  forwardDecode := ex.forwardDecode
  forwardPrefill_kv sequence batch env := by
    rw [forwardPrefill_pages]
  forwardDecode_kv sequence batch env := by
    rw [forwardDecode_pages]

/-- The executor over the layers refines the one over a function of one token. -/
theorem refines (hdoc : ex.model.F.Documented) (d : Qwen3Model ℚ) :
    (ex.rows.modelExecutor (List (HeadKV ℚ))).Refines ex.modelExecutor
      (StandsFor ex.model d) where
  supportsPrefixCache := rfl
  usesPagedKv := rfl
  tokenizeMessages := rfl
  forwardPrefill sequence batch _ _ h := forwardPrefill_standsFor hdoc sequence batch h
  forwardDecode sequence batch _ _ h := forwardDecode_standsFor hdoc sequence batch h

end Qwen3GraphExecutor

namespace SpecQwen3GraphExecutor

variable {ex : SpecQwen3GraphExecutor}
  {env : ExecutorEnv (GraphState (List (HeadKV ℚ)) (List (HeadKV ℚ)))} {t : Qwen3GraphState}

theorem draft_rows (ex : SpecQwen3GraphExecutor) : ex.specRows.draft = ex.draftModel.runner := by
  rw [SpecCudaGraphQwen3Executor.draft, Qwen3Model.runner, ex.draftMaxLen_eq]
  rfl

theorem toCudaGraphQwen3Executor_specRows (ex : SpecQwen3GraphExecutor) :
    ex.specRows.toCudaGraphQwen3Executor = ex.rows := rfl

theorem forwardPrefill_standsFor (hdoc : ex.model.F.Documented)
    (hdraft : ex.draftModel.F.Documented) (sequence : Sequence) (batch : Batch)
    (h : StandsFor ex.model ex.draftModel env.state t) : ∃ t',
    ex.forwardPrefill sequence batch (env.withState t) =
        ((ex.specRows.forwardPrefill sequence batch env).1,
          (ex.specRows.forwardPrefill sequence batch env).2.withState t') ∧
      StandsFor ex.model ex.draftModel (ex.specRows.forwardPrefill sequence batch env).2.state
        t' := by
  obtain ⟨t', hsuper, h'⟩ := Qwen3GraphExecutor.forwardPrefill_standsFor hdoc sequence batch h
  unfold forwardPrefill SpecCudaGraphQwen3Executor.forwardPrefill
  rw [hsuper, draft_rows, toCudaGraphQwen3Executor_specRows]
  generalize ex.rows.forwardPrefill sequence batch env = r at h' ⊢
  obtain ⟨e | u, ⟨states, runner, draft, rng⟩, kv, table⟩ := r
  · exact ⟨t', rfl, h'⟩
  · obtain ⟨states', runner', draft', rng'⟩ := t'
    obtain ⟨hstates, hrunner, hdrafts, hrng⟩ := h'
    dsimp only at hstates hrunner hdrafts hrng
    subst hstates hrng
    dsimp only [ExecutorEnv.withState]
    cases states' sequence.seqId with
    | none => exact ⟨_, rfl, rfl, hrunner, hdrafts, rfl⟩
    | some state =>
      dsimp only
      split_ifs
      · exact ⟨_, rfl, rfl, hrunner, hdrafts, rfl⟩
      · exact ⟨_, rfl, rfl, hrunner, hdrafts, rfl⟩
      · obtain ⟨hlogits, hmodels⟩ := hdrafts.prefill hdraft
          (sequence.inputIds.take sequence.numPromptTokens)
        generalize ex.draftModel.prefill (sequence.inputIds.take sequence.numPromptTokens) draft' =
          r' at hlogits hmodels ⊢
        generalize ex.draftModel.runner.prefill
          (sequence.inputIds.take sequence.numPromptTokens) draft = r at hlogits hmodels ⊢
        obtain ⟨e | logits, rs⟩ := r <;> obtain ⟨e' | logits', st⟩ := r' <;> cases hlogits
        · exact ⟨_, rfl, rfl, hrunner, hmodels, rfl⟩
        · exact ⟨_, rfl, rfl, hrunner, hmodels, rfl⟩

/-- Every verification has `K + 1` tokens. -/
def Fixed (ex : SpecQwen3GraphExecutor) (t : Qwen3GraphState) : Prop :=
  t.runner.Sized (ex.specRows.specK + 1)

theorem forwardPrefill_fixed (sequence : Sequence) (batch : Batch)
    {env : ExecutorEnv Qwen3GraphState} (h : ex.Fixed env.state) :
    ex.Fixed (ex.forwardPrefill sequence batch env).2.state := by
  have hsuper := ex.toQwen3GraphExecutor.forwardPrefill_verifyGraph sequence batch env
  have hkept : (ex.forwardPrefill sequence batch env).2.state.runner.verifyGraph =
      env.state.runner.verifyGraph := by
    unfold forwardPrefill
    generalize ex.toQwen3GraphExecutor.forwardPrefill sequence batch env = r at hsuper ⊢
    obtain ⟨e | u, env'⟩ := r
    · exact hsuper
    · dsimp only at hsuper ⊢
      rw [← hsuper]
      split
      · rfl
      · split_ifs
        · rfl
        · rfl
        · split <;> rfl
  exact fun k hk => h k (hkept ▸ hk)

/-- A round stays in the arenas of both models, and does not raise. -/
theorem specRound_standsFor (hdoc : ex.model.F.Documented) (hdraft : ex.draftModel.F.Documented)
    {st : GraphState (List (HeadKV ℚ)) (List (HeadKV ℚ))}
    (h : StandsFor ex.model ex.draftModel st t) (hfixed : ex.Fixed t) {n : ℕ}
    (hn : n + ex.specRows.specK + 2 < ex.rows.maxLen) (lastToken : TokenId) :
    (ex.specRound lastToken n t).1 = .ok (ex.specRows.specRound lastToken n st).1 ∧
      StandsFor ex.model ex.draftModel (ex.specRows.specRound lastToken n st).2
        (ex.specRound lastToken n t).2 ∧ ex.Fixed (ex.specRound lastToken n t).2 := by
  have htarget : ex.rows.maxLen = ex.model.maxLen := ex.maxLen_rows
  have hsize : ex.rows.maxLen = ex.draftModel.maxLen := ex.draftMaxLen_eq.symm
  obtain ⟨hdrafts, hmodels⟩ := h.draft.decodeLoop hdraft
    (show n + ex.specRows.specK ≤ ex.draftModel.maxLen by omega) lastToken
  have hlen := Qwen3Model.length_decodeLoop (m := ex.draftModel) ex.specRows.specK lastToken n
    t.draft
  unfold specRound SpecCudaGraphQwen3Executor.specRound
  rw [draft_rows, toCudaGraphQwen3Executor_specRows, ex.runner_rows]
  dsimp only
  rw [hdrafts]
  generalize ex.draftModel.decodeLoop ex.specRows.specK lastToken n t.draft = r
    at hmodels hlen ⊢
  obtain ⟨drafts, draft⟩ := r
  dsimp only at hmodels hlen ⊢
  have hcount : (lastToken :: drafts).length = ex.specRows.specK + 1 := congrArg (· + 1) hlen
  have hsized : t.runner.Sized (lastToken :: drafts).length := hcount ▸ hfixed
  obtain ⟨hlogits, hverified⟩ := h.runner.verify hdoc hsized
    (show n + (lastToken :: drafts).length ≤ ex.model.maxLen by omega)
  have hkept := Qwen3Model.sized_verify (m := ex.model) hsized n
  rw [hcount] at hkept
  generalize ex.model.verify (lastToken :: drafts) n t.runner = v at hlogits hverified hkept ⊢
  obtain ⟨result, runner⟩ := v
  dsimp only at hlogits hverified hkept
  subst hlogits
  dsimp only
  split_ifs
  · exact ⟨rfl, ⟨h.states, hverified, (hmodels.decodeArgmax hdraft (by omega) _).2, h.rng⟩, hkept⟩
  · exact ⟨rfl, ⟨h.states, hverified, hmodels, h.rng⟩, hkept⟩

theorem forwardDecode_standsFor (hdoc : ex.model.F.Documented)
    (hdraft : ex.draftModel.F.Documented) (sequence : Sequence) (batch : Batch)
    (h : StandsFor ex.model ex.draftModel env.state t) (hfixed : ex.Fixed t) : ∃ t',
    ex.forwardDecode sequence batch (env.withState t) =
        ((ex.specRows.forwardDecode sequence batch env).1,
          (ex.specRows.forwardDecode sequence batch env).2.withState t') ∧
      StandsFor ex.model ex.draftModel (ex.specRows.forwardDecode sequence batch env).2.state
        t' ∧ ex.Fixed t' := by
  have hensure : (env.withState t).state.states = env.state.states := h.states
  -- without proposals the graph of `verify` stays as it is
  have hsuper : ∃ t', ex.toQwen3GraphExecutor.forwardDecode sequence batch (env.withState t) =
        ((ex.rows.forwardDecode sequence batch env).1,
          (ex.rows.forwardDecode sequence batch env).2.withState t') ∧
      StandsFor ex.model ex.draftModel (ex.rows.forwardDecode sequence batch env).2.state t' ∧
        ex.Fixed t' := by
    obtain ⟨t', hdecode, h'⟩ := Qwen3GraphExecutor.forwardDecode_standsFor hdoc sequence batch h
    have hkept := ex.toQwen3GraphExecutor.forwardDecode_verifyGraph sequence batch
      (env.withState t)
    rw [hdecode] at hkept
    exact ⟨t', hdecode, h', fun k hk => hfixed k (hkept ▸ hk)⟩
  unfold forwardDecode SpecCudaGraphQwen3Executor.forwardDecode
  rw [hensure, toCudaGraphQwen3Executor_specRows]
  dsimp only
  by_cases hfin : (env.state.states.ensure sequence).finished = true
  · rw [if_pos hfin, if_pos hfin]
    exact ⟨t, rfl, h, hfixed⟩
  · rw [if_neg hfin, if_neg hfin]
    by_cases hplain : (env.state.states.ensure sequence).pendingTokenId.isSome = true ∨
        (env.state.states.ensure sequence).generatedTokenIds = []
    · rw [if_pos hplain, if_pos hplain]
      exact hsuper
    · rw [if_neg hplain, if_neg hplain]
      rw [Qwen3GraphExecutor.config_rows, Qwen3GraphExecutor.tokenizer_rows]
      split_ifs with hfall
      · exact hsuper
      · obtain ⟨htokens, hround, hkept⟩ := specRound_standsFor hdoc hdraft h hfixed
          (Nat.lt_of_not_le (not_or.1 (not_or.1 hfall).2).2)
          ((env.state.states.ensure sequence).generatedTokenIds.getLastD 0)
        dsimp only [ExecutorEnv.withState]
        generalize ex.specRound ((env.state.states.ensure sequence).generatedTokenIds.getLastD 0)
          ((env.state.states.ensure sequence).promptTokenCount +
            (env.state.states.ensure sequence).generatedTokenIds.length) t = r
          at htokens hround hkept ⊢
        obtain ⟨result, t'⟩ := r
        dsimp only at htokens hround hkept
        subst htokens
        refine ⟨_, rfl, ⟨?_, hround.runner, hround.draft, hround.rng⟩, hkept⟩
        exact congrArg (ServingStates.store · sequence.seqId _) hround.states

theorem forwardPrefill_pages (ex : SpecQwen3GraphExecutor) (sequence : Sequence) (batch : Batch)
    (env : ExecutorEnv Qwen3GraphState) :
    (ex.forwardPrefill sequence batch env).2.pages = env.pages := by
  have hsuper := ex.toQwen3GraphExecutor.forwardPrefill_pages sequence batch env
  unfold forwardPrefill
  generalize ex.toQwen3GraphExecutor.forwardPrefill sequence batch env = r at hsuper ⊢
  obtain ⟨e | u, env'⟩ := r
  · exact hsuper
  · dsimp only at hsuper ⊢
    rw [← hsuper]
    split
    · rfl
    · split_ifs
      · rfl
      · rfl
      · split <;> rfl

theorem forwardDecode_pages (ex : SpecQwen3GraphExecutor) (sequence : Sequence) (batch : Batch)
    (env : ExecutorEnv Qwen3GraphState) :
    (ex.forwardDecode sequence batch env).2.pages = env.pages := by
  have hsuper := ex.toQwen3GraphExecutor.forwardDecode_pages sequence batch env
  unfold forwardDecode
  dsimp only
  split_ifs
  · rfl
  · exact hsuper
  · exact hsuper
  · split <;> rfl

def modelExecutor (ex : SpecQwen3GraphExecutor) : ModelExecutor Qwen3GraphState where
  supportsPrefixCache := false
  usesPagedKv := false
  tokenizeMessages := ex.tokenizer.chatTokenIds
  forwardPrefill := ex.forwardPrefill
  forwardDecode := ex.forwardDecode
  forwardPrefill_kv sequence batch env := by
    rw [forwardPrefill_pages]
  forwardDecode_kv sequence batch env := by
    rw [forwardDecode_pages]

theorem specRefines (hdoc : ex.model.F.Documented) (hdraft : ex.draftModel.F.Documented) :
    ex.specRows.modelExecutor.Refines ex.modelExecutor fun st t =>
      StandsFor ex.model ex.draftModel st t ∧ ex.Fixed t where
  supportsPrefixCache := rfl
  usesPagedKv := rfl
  tokenizeMessages := rfl
  forwardPrefill sequence batch env t h := by
    obtain ⟨t', hprefill, h'⟩ := forwardPrefill_standsFor hdoc hdraft sequence batch h.1
    have hfixed : ex.Fixed (ex.forwardPrefill sequence batch (env.withState t)).2.state :=
      forwardPrefill_fixed sequence batch h.2
    rw [hprefill] at hfixed
    exact ⟨t', hprefill, h', hfixed⟩
  forwardDecode sequence batch _ _ h :=
    forwardDecode_standsFor hdoc hdraft sequence batch h.1 h.2

end SpecQwen3GraphExecutor

/-! ## Servers over the layers -/

/-- A runner keeps the layers `ls` of its model, fused. -/
structure Qwen3Model.Loads (m : Qwen3Model ℚ) (ls : List (DecoderLayer ℚ)) : Prop where
  documented : m.F.Documented
  layers : m.layers = ls.map DecoderLayer.fuse
  fits : ∀ l ∈ ls, m.Fits l

/-- The runners start with any contents in their arenas. -/
def Qwen3GraphState.start (arenas draftArenas : List (ℕ → HeadKV ℚ)) : Qwen3GraphState where
  runner := { arenas }
  draft := { arenas := draftArenas }

/-- The same contents, by position. -/
def GraphState.start (arenas draftArenas : List (ℕ → HeadKV ℚ)) :
    GraphState (List (HeadKV ℚ)) (List (HeadKV ℚ)) where
  runner := { kv := CausalStack.entries arenas }
  draft := { kv := CausalStack.entries draftArenas }

theorem standsFor_start {m d : Qwen3Model ℚ} {arenas draftArenas : List (ℕ → HeadKV ℚ)}
    (hlen : arenas.length = m.layers.length) (hlen' : draftArenas.length = d.layers.length) :
    StandsFor m d (.start arenas draftArenas) (.start arenas draftArenas) :=
  ⟨rfl, ⟨hlen, rfl, rfl, rfl, rfl⟩, ⟨hlen', rfl, rfl, rfl, rfl⟩, rfl⟩

theorem SpecQwen3GraphExecutor.fixed_start (ex : SpecQwen3GraphExecutor)
    (arenas draftArenas : List (ℕ → HeadKV ℚ)) : ex.Fixed (.start arenas draftArenas) := by
  intro k hk
  cases hk

/-- `CudaGraphQwen3Executor` with the plain layers as its function of one token. -/
def Qwen3GraphExecutor.reference (ex : Qwen3GraphExecutor) (ls : List (DecoderLayer ℚ)) :
    CudaGraphQwen3Executor (List (HeadKV ℚ)) where
  config := ex.config
  tokenizer := ex.tokenizer
  torch := ex.torch
  row := ex.model.referenceRow ls

/-- `SpecCudaGraphQwen3Executor` with the plain layers of both models. -/
def SpecQwen3GraphExecutor.specReference (ex : SpecQwen3GraphExecutor)
    (ls draftLs : List (DecoderLayer ℚ)) :
    SpecCudaGraphQwen3Executor (List (HeadKV ℚ)) (List (HeadKV ℚ)) where
  toCudaGraphQwen3Executor := ex.reference ls
  draftRow := ex.draftModel.referenceRow draftLs

/-- A server over the layers agrees after any events with one over the plain layers, whatever the
arenas hold at the start. It keeps the same entries in them. -/
theorem Qwen3GraphExecutor.served_eq_reference (ex : Qwen3GraphExecutor)
    {ls : List (DecoderLayer ℚ)} (hm : ex.model.Loads ls) (config : RuntimeConfig)
    (arenas : List (ℕ → HeadKV ℚ)) (hlen : arenas.length = ex.model.layers.length)
    (es : List Event) : ∃ t,
    Transition.run (ServerState.step ex.modelExecutor)
        (ServerState.init config (.start arenas arenas)) es =
      (Transition.run (ServerState.step ((ex.reference ls).modelExecutor (List (HeadKV ℚ))))
        (ServerState.init config (.start arenas arenas)) es).withExecutor t ∧
      StandsFor ex.model ex.model (Transition.run
        (ServerState.step ((ex.reference ls).modelExecutor (List (HeadKV ℚ))))
        (ServerState.init config (.start arenas arenas)) es).runtime.executor t := by
  have hrows : ex.rows = ex.reference ls := by
    rw [rows, reference, Qwen3Model.tokenRow_eq_referenceRow hm.layers hm.fits]
  rw [← hrows]
  exact ServerState.run_withExecutor (ex.refines hm.documented ex.model) es
    (s := ServerState.init config (.start arenas arenas)) (standsFor_start hlen hlen)

namespace Qwen3Model

/-- Something in the arena at the start. -/
def tinyArenas : List (ℕ → HeadKV ℚ) :=
  [fun _ => ⟨[[5, 6]], [[7, 8]]⟩]

theorem loads_tiny : tiny.Loads [tinyLayer] where
  documented := Functional.documented_ofExp _ _ _ _ _
  layers := rfl
  fits := by simpa using (⟨rfl, rfl, rfl, rfl, rfl⟩ : tiny.Fits tinyLayer)

end Qwen3Model

/-- A prompt of two tokens, whatever the messages. -/
def Qwen3GraphExecutor.tiny : Qwen3GraphExecutor where
  config := { graphMaxLen := 16, decodeChunk := 2, speculativeTokens := 1 }
  tokenizer := { charTokenizer with chatTokenIds := fun _ _ => .ok [2, 1] }
  torch := { softmax := fun scores => scores.map fun _ => 1, multinomial := fun _ _ => 1 }
  model := Qwen3Model.tiny
  maxLen_eq := rfl

/-- A greedy request for five tokens, and some turns of its stream. -/
def Qwen3GraphExecutor.tinyRun : List Event :=
  .addRequest { ServerState.shortRequest "a" with
    temperature := 0, repetitionPenalty := some 1, maxNewTokens := 5 } ::
    List.replicate 4 (.resume 0)

/-- A chunk of two decodes follows the first token. -/
theorem Qwen3GraphExecutor.served_eq_reference_tiny : ∃ t,
    Transition.run (ServerState.step tiny.modelExecutor)
        (ServerState.init ServerState.smallConfig (.start Qwen3Model.tinyArenas
          Qwen3Model.tinyArenas)) tinyRun =
      (Transition.run (ServerState.step
        ((tiny.reference [Qwen3Model.tinyLayer]).modelExecutor (List (HeadKV ℚ))))
        (ServerState.init ServerState.smallConfig (.start Qwen3Model.tinyArenas
          Qwen3Model.tinyArenas)) tinyRun).withExecutor t ∧
      ((Transition.run (ServerState.step tiny.modelExecutor)
        (ServerState.init ServerState.smallConfig (.start Qwen3Model.tinyArenas
          Qwen3Model.tinyArenas)) tinyRun).runtime.scheduler.get 0).map Sequence.outputIds =
        some [2, 2, 2] := by
  obtain ⟨t, hrun, -⟩ := served_eq_reference tiny Qwen3Model.loads_tiny ServerState.smallConfig
    Qwen3Model.tinyArenas rfl tinyRun
  exact ⟨t, hrun, by decide +kernel⟩

/-- So does a server that speculates, with the layers of both models. -/
theorem SpecQwen3GraphExecutor.drafted_eq_reference (ex : SpecQwen3GraphExecutor)
    {ls draftLs : List (DecoderLayer ℚ)} (hm : ex.model.Loads ls)
    (hd : ex.draftModel.Loads draftLs) (config : RuntimeConfig)
    (arenas draftArenas : List (ℕ → HeadKV ℚ)) (hlen : arenas.length = ex.model.layers.length)
    (hlen' : draftArenas.length = ex.draftModel.layers.length) (es : List Event) : ∃ t,
    Transition.run (ServerState.step ex.modelExecutor)
        (ServerState.init config (.start arenas draftArenas)) es =
      (Transition.run (ServerState.step (ex.specReference ls draftLs).modelExecutor)
        (ServerState.init config (.start arenas draftArenas)) es).withExecutor t ∧
      StandsFor ex.model ex.draftModel (Transition.run
        (ServerState.step (ex.specReference ls draftLs).modelExecutor)
        (ServerState.init config (.start arenas draftArenas)) es).runtime.executor t := by
  have hrows : ex.specRows = ex.specReference ls draftLs := by
    rw [specRows, specReference, Qwen3GraphExecutor.rows, Qwen3GraphExecutor.reference,
      Qwen3Model.tokenRow_eq_referenceRow hm.layers hm.fits,
      Qwen3Model.tokenRow_eq_referenceRow hd.layers hd.fits]
  rw [← hrows]
  obtain ⟨t, hrun, hstands, -⟩ :=
    ServerState.run_withExecutor (ex.specRefines hm.documented hd.documented) es
      (s := ServerState.init config (.start arenas draftArenas))
      ⟨standsFor_start hlen hlen', ex.fixed_start arenas draftArenas⟩
  exact ⟨t, hrun, hstands⟩

/-- The model drafts for itself. -/
def SpecQwen3GraphExecutor.tinySpec : SpecQwen3GraphExecutor where
  toQwen3GraphExecutor := Qwen3GraphExecutor.tiny
  draftModel := Qwen3Model.tiny
  draftMaxLen_eq := rfl

/-- A round whose proposal is accepted follows the first token. -/
theorem SpecQwen3GraphExecutor.drafted_eq_reference_tiny : ∃ t,
    Transition.run (ServerState.step tinySpec.modelExecutor)
        (ServerState.init ServerState.smallConfig (.start Qwen3Model.tinyArenas
          Qwen3Model.tinyArenas)) Qwen3GraphExecutor.tinyRun =
      (Transition.run (ServerState.step
        (tinySpec.specReference [Qwen3Model.tinyLayer] [Qwen3Model.tinyLayer]).modelExecutor)
        (ServerState.init ServerState.smallConfig (.start Qwen3Model.tinyArenas
          Qwen3Model.tinyArenas)) Qwen3GraphExecutor.tinyRun).withExecutor t ∧
      ((Transition.run (ServerState.step tinySpec.modelExecutor)
        (ServerState.init ServerState.smallConfig (.start Qwen3Model.tinyArenas
          Qwen3Model.tinyArenas)) Qwen3GraphExecutor.tinyRun).runtime.scheduler.get 0).map
        Sequence.outputIds = some [2, 2, 2] := by
  obtain ⟨t, hrun, -⟩ := drafted_eq_reference tinySpec Qwen3Model.loads_tiny Qwen3Model.loads_tiny
    ServerState.smallConfig Qwen3Model.tinyArenas Qwen3Model.tinyArenas rfl rfl
    Qwen3GraphExecutor.tinyRun
  exact ⟨t, hrun, by decide +kernel⟩

end SoloRT
