import SoloRT.TransformersFrame
import SoloRT.CudaGraph

/-!
# What the executors do to their serving states

A prefill chunk adds its tokens to the prefill count of its serving state, and generates
nothing (`PrefillKeeps`). A decode that raises keeps the state. One that returns samples has
appended exactly their tokens, and keeps the state unless the last sample is a finished one,
when it drops the state (`DecodeKeeps`).

`KeepsStates` says so of an executor. All executors of the repository keep their states so
(`RepositoryExecutor.keepsStates`), whatever they sample or propose.
-/

namespace SoloRT

section

variable {δ : Type}

/-- From `state` to `state'` nothing was prefilled or generated. -/
structure SameProgress (state state' : ServingState δ) : Prop where
  prompt : state'.promptTokenCount = state.promptTokenCount
  prefilled : state'.prefilledTokenCount = state.prefilledTokenCount
  generated : state'.generatedTokenIds = state.generatedTokenIds
  finished : state'.finished = state.finished

theorem SameProgress.refl (state : ServingState δ) : SameProgress state state :=
  ⟨rfl, rfl, rfl, rfl⟩

theorem SameProgress.trans {state state' state'' : ServingState δ} (h : SameProgress state state')
    (h' : SameProgress state' state'') : SameProgress state state'' :=
  ⟨h'.prompt.trans h.prompt, h'.prefilled.trans h.prefilled, h'.generated.trans h.generated,
    h'.finished.trans h.finished⟩

theorem SameTarget.sameProgress {state state' : ServingState δ}
    (h : TransformersTextExecutor.SameTarget state state') : SameProgress state state' := by
  rw [TransformersTextExecutor.SameTarget] at h
  rw [h]
  exact ⟨rfl, rfl, rfl, rfl⟩

/-- What a prefill chunk of `n` tokens leaves of the serving state, whether it raises or not. -/
def PrefillKeeps (q : Sequence) (n : ℕ) (state : ServingState δ)
    (after : Option (ServingState δ)) : Prop :=
  ∃ state', after = some state' ∧ state'.generatedTokenIds = state.generatedTokenIds ∧
    state'.finished = state.finished ∧
    state'.prefilledTokenCount = state.prefilledTokenCount + n ∧
    (state.promptTokenCount = q.numPromptTokens →
      state.prefilledTokenCount + n ≤ q.numPromptTokens →
      state'.promptTokenCount = q.numPromptTokens)

/-- What a decode that returned `xs` leaves of the serving state. -/
def ChunkKeeps (stop : List TokenId → Bool) (state : ServingState δ) (xs : List SampleResult)
    (after : Option (ServingState δ)) : Prop :=
  Chunk stop state.generatedTokenIds xs ∧
    if xs.getLast?.any SampleResult.finished then after = none
    else ∃ state', after = some state' ∧ SameProgress
      { state with generatedTokenIds := state.generatedTokenIds ++ xs.map SampleResult.tokenId }
      state'

/-- What a decode leaves of the serving state. -/
def DecodeKeeps (stop : List TokenId → Bool) (state : ServingState δ) :
    Except PyError DecodeOutput → Option (ServingState δ) → Prop
  | .error _, after => ∃ state', after = some state' ∧ SameProgress state state'
  | .ok output, after => ∃ xs, normalizeSamples output = .ok xs ∧ ChunkKeeps stop state xs after

/-- The executor keeps a serving state for each sequence it works on, in `states`. -/
structure KeepsStates {σ : Type} (ex : ModelExecutor σ) (states : σ → ServingStates δ)
    (config : GenerationConfig) (tokenizer : Tokenizer) : Prop where
  uncached : ex.supportsPrefixCache = false
  prefill_other : ∀ (q : Sequence) (batch : Batch) (env : ExecutorEnv σ) (id : SeqId),
    id ≠ q.seqId → states (ex.forwardPrefill q batch env).2.state id = states env.state id
  decode_other : ∀ (q : Sequence) (batch : Batch) (env : ExecutorEnv σ) (id : SeqId),
    id ≠ q.seqId → states (ex.forwardDecode q batch env).2.state id = states env.state id
  prefill : ∀ (q : Sequence) (batch : Batch) (env : ExecutorEnv σ), batch.inputIds ≠ [] →
    ((states env.state).ensure q).finished = false →
    PrefillKeeps q batch.inputIds.length ((states env.state).ensure q)
      (states (ex.forwardPrefill q batch env).2.state q.seqId)
  decode : ∀ (q : Sequence) (batch : Batch) (env : ExecutorEnv σ),
    ((states env.state).ensure q).finished = false →
    DecodeKeeps (endsGeneration config tokenizer q) ((states env.state).ensure q)
      (ex.forwardDecode q batch env).1 (states (ex.forwardDecode q batch env).2.state q.seqId)

/-! ## Chunks -/

/-- The EOS token ends a generation. -/
theorem endsGeneration_eos (config : GenerationConfig) (tokenizer : Tokenizer) (q : Sequence)
    (ts : List TokenId) : endsGeneration config tokenizer q (ts ++ [tokenizer.eos]) = true := by
  simp [endsGeneration]

theorem ServingStates.store_self (states : ServingStates δ) (id : SeqId) (state : ServingState δ) :
    states.store id state id = if state.finished then none else some state :=
  Function.update_self _ _ _

theorem ServingStates.store_of_ne (states : ServingStates δ) {id id' : SeqId}
    (state : ServingState δ) (h : id' ≠ id) : states.store id state id' = states id' :=
  Function.update_of_ne h _ _

/-- From `state` to `state'` the tokens of the returned samples were appended, after changes to
the caches at most. -/
def Appends (config : GenerationConfig) (tokenizer : Tokenizer) (q : Sequence)
    (state : ServingState δ) : Except PyError (List SampleResult) → ServingState δ → Prop
  | .error _, state' => SameProgress state state'
  | .ok xs, state' => ∃ state₁ ts, SameProgress state state₁ ∧
    appendTokenResults config tokenizer q state₁ ts = (xs, state')

variable {config : GenerationConfig} {tokenizer : Tokenizer} {q : Sequence}
  {state state₁ state' : ServingState δ}

theorem Appends.of_sameProgress (hsame : SameProgress state state₁)
    {r : Except PyError (List SampleResult)} (h : Appends config tokenizer q state₁ r state') :
    Appends config tokenizer q state r state' := by
  cases r with
  | error e => exact hsame.trans h
  | ok xs =>
    obtain ⟨state₂, ts, hsame', happ⟩ := h
    exact ⟨state₂, ts, hsame.trans hsame', happ⟩

theorem Appends.one (hsame : SameProgress state state₁) (t : TokenId) :
    Appends config tokenizer q state
      (.ok [(appendTokenResult config tokenizer q state₁ t).1])
      (appendTokenResult config tokenizer q state₁ t).2 :=
  ⟨state₁, [t], hsame, appendTokenResults_singleton state₁ t⟩

/-- One more token after a chunk that did not finish the state. -/
theorem Appends.concat (hsame : SameProgress state state₁) (hfin : state.finished = false)
    {ts : List TokenId} {xs : List SampleResult}
    (happ : appendTokenResults config tokenizer q state₁ ts = (xs, state'))
    (hfin' : ¬state'.finished = true) (t : TokenId) :
    Appends config tokenizer q state
      (.ok (xs ++ [(appendTokenResult config tokenizer q state' t).1]))
      (appendTokenResult config tokenizer q state' t).2 := by
  refine ⟨state₁, ts ++ [t], hsame, ?_⟩
  rw [appendTokenResults_concat _ _ (hsame.finished.trans hfin), happ]
  dsimp only
  rw [if_neg hfin']

/-- A stored state that is not finished stays, and one that is finished is dropped. -/
theorem Appends.chunkKeeps {xs : List SampleResult}
    (h : Appends config tokenizer q state (.ok xs) state')
    (hfin : state.finished = false) (states : ServingStates δ) :
    ChunkKeeps (endsGeneration config tokenizer q) state xs
      (states.store q.seqId state' q.seqId) := by
  obtain ⟨state₁, ts, hsame, happ⟩ := h
  obtain ⟨hcache, hchunk, -, hgen, hfin'⟩ :=
    appendTokenResults_spec (hsame.finished.trans hfin) happ
  rw [hsame.generated] at hchunk hgen
  refine ⟨hchunk, ?_⟩
  rw [ServingStates.store_self, hfin']
  split_ifs with hlast
  · rfl
  · refine ⟨state', rfl, hcache.promptTokenCount.trans hsame.prompt,
      hcache.prefilledTokenCount.trans hsame.prefilled, hgen, ?_⟩
    rw [Bool.not_eq_true] at hlast
    rw [hfin', hlast]
    exact hfin.symm

theorem SameProgress.stored (h : SameProgress state state') (hfin : state.finished = false)
    (states : ServingStates δ) (id : SeqId) :
    ∃ state₂, states.store id state' id = some state₂ ∧ SameProgress state state₂ := by
  have hfin' : state'.finished = false := h.finished.trans hfin
  refine ⟨state', ?_, h⟩
  rw [ServingStates.store_self, hfin', if_neg Bool.false_ne_true]

end

/-! ## The Transformers executor -/

namespace TransformersTextExecutor

variable {δ : Type} {ex : TransformersTextExecutor δ} {q : Sequence}

variable (ex) in
/-- One step of the target appends one token, also where there is none to feed. -/
theorem decodeOne_appends (state : ServingState δ) (env : Env δ) :
    Appends ex.config ex.tokenizer q state
      ((ex.decodeOne q state env).1.map fun result => [result]) (ex.decodeOne q state env).2.1 := by
  unfold decodeOne decodeNext
  cases hlast : state.generatedTokenIds.getLast? with
  | none =>
    -- the state is finished before its EOS token is appended, which finishes it as well
    have hends := endsGeneration_eos ex.config ex.tokenizer q state.generatedTokenIds
    have hsame : SameProgress state { state with pendingTokenId := none } := ⟨rfl, rfl, rfl, rfl⟩
    have hone : Appends ex.config ex.tokenizer q state _ _ := .one hsame ex.tokenizer.eos
    simp only [appendTokenResult, decodeDelta, if_true, hends, Bool.or_true] at hone
    simpa only [append, appendTokenResult, decodeDelta, Option.getD_some, if_true, hends,
      Bool.or_true, Except.map] using hone
  | some last =>
    dsimp only
    generalize kvWritePlan env (state.promptTokenCount + state.generatedTokenIds.length - 1)
      1 0 0 = r
    obtain ⟨e | t, env₁⟩ := r
    · exact .refl state
    · dsimp only
      cases hf : ex.targetForward env₁ state.pastKeyValues [last] with
      | mk logits r =>
        obtain ⟨c, env₂⟩ := r
        have hsame : SameProgress state
            { state with pastKeyValues := some c, pendingTokenId := none } := ⟨rfl, rfl, rfl, rfl⟩
        exact .one hsame _

/-- Accepting all proposals appends them, and one more token unless they end the request. -/
theorem acceptAll_appends {state : ServingState δ} (hfin : state.finished = false) (env : Env δ)
    (draftTokens : List TokenId) (logits : List (List ℚ)) (id : ℕ) :
    Appends ex.config ex.tokenizer q state
      (.ok (ex.acceptAll q state env draftTokens logits id).1)
      (ex.acceptAll q state env draftTokens logits id).2.1 := by
  have hsame : SameProgress state { state with pastKeyValues := some id } := ⟨rfl, rfl, rfl, rfl⟩
  unfold acceptAll
  dsimp only
  cases happ : appendTokenResults ex.config ex.tokenizer q { state with pastKeyValues := some id }
    draftTokens with
  | mk results state' =>
    dsimp only
    by_cases hf : state'.finished = true
    · rw [if_pos hf]
      exact ⟨_, draftTokens, hsame, happ⟩
    · rw [if_neg hf]
      split_ifs
      · exact .concat hsame hfin happ hf _
      · exact ⟨_, draftTokens, hsame, happ⟩

/-- Accepting some proposals appends them, and the target's token unless they end the request. -/
theorem acceptPrefix_appends {state : ServingState δ} (hfin : state.finished = false) (env : Env δ)
    (last : TokenId) (acceptedPrefix : List TokenId) (correctionToken : TokenId)
    (transaction : Option KVCacheTransaction) :
    Appends ex.config ex.tokenizer q state
      (ex.acceptPrefix q state env last acceptedPrefix correctionToken transaction).1
      (ex.acceptPrefix q state env last acceptedPrefix correctionToken transaction).2.1 := by
  unfold acceptPrefix
  generalize rollback env transaction = r
  obtain ⟨e | u, env₁⟩ := r
  · exact .refl state
  dsimp only
  generalize ex.targetForwardFromState state env₁ (last :: acceptedPrefix) false = r
  obtain ⟨e | ⟨logits, id, t⟩, env₂⟩ := r
  · exact .refl state
  have hsame : SameProgress state { state with pastKeyValues := some id } := ⟨rfl, rfl, rfl, rfl⟩
  dsimp only
  cases happ : appendTokenResults ex.config ex.tokenizer q { state with pastKeyValues := some id }
    acceptedPrefix with
  | mk results state' =>
    dsimp only
    by_cases hf : state'.finished = true
    · rw [if_pos hf]
      exact ⟨_, acceptedPrefix, hsame, happ⟩
    · rw [if_neg hf]
      exact .concat hsame hfin happ hf _

variable (ex) in
/-- A speculative round appends a chunk of tokens, whatever the draft model proposes. -/
theorem speculativeDecode_appends {state : ServingState δ} (hfin : state.finished = false)
    (env : Env δ) : Appends ex.config ex.tokenizer q state (ex.speculativeDecode q state env).1
      (ex.speculativeDecode q state env).2.1 := by
  have hsame := draftTokens_same ex q state
    (min ex.config.speculativeTokens ((q.maxNewTokens : ℤ) - state.generatedTokenIds.length))
  unfold speculativeDecode
  dsimp only
  generalize ex.draftTokens q state (min ex.config.speculativeTokens
    ((q.maxNewTokens : ℤ) - state.generatedTokenIds.length)) = r at hsame ⊢
  obtain ⟨draftTokens, state'⟩ := r
  have hsame' : SameProgress state state' := SameTarget.sameProgress hsame
  have hfin' : state'.finished = false := hsame'.finished.trans hfin
  refine Appends.of_sameProgress hsame' ?_
  dsimp only
  split_ifs
  · exact decodeOne_appends ex state' env
  · generalize ex.targetForwardFromState state' env
      (state'.generatedTokenIds.getLastD 0 :: draftTokens) true = r
    obtain ⟨e | ⟨logits, id, t⟩, env₁⟩ := r
    · exact .refl state'
    · dsimp only
      split_ifs
      · exact acceptAll_appends hfin' env₁ draftTokens logits id
      · exact acceptPrefix_appends hfin' env₁ _ _ _ t

variable (ex) in
theorem forwardPrefill_keeps (q : Sequence) {batch : Batch} {env : Env δ}
    (hne : batch.inputIds ≠ []) (hfin : (env.state.states.ensure q).finished = false) :
    PrefillKeeps q batch.inputIds.length (env.state.states.ensure q)
      ((ex.forwardPrefill q batch env).2.state.states q.seqId) := by
  unfold forwardPrefill
  rw [if_neg hne]
  dsimp only
  generalize env.state.states.ensure q = state at hfin
  have hstored : ∀ (env' : Env δ) (state' : ServingState δ), state'.finished = false →
      (store env' q.seqId state').state.states q.seqId = some state' := fun env' state' h =>
    (ServingStates.store_self _ _ _).trans (by rw [h, if_neg Bool.false_ne_true])
  have hprompt : state.promptTokenCount = q.numPromptTokens →
      state.prefilledTokenCount + batch.inputIds.length ≤ q.numPromptTokens →
      max state.promptTokenCount (state.prefilledTokenCount + batch.inputIds.length) =
        q.numPromptTokens := fun h h' => by
    rw [h]
    exact max_eq_left h'
  split_ifs <;> exact ⟨_, hstored _ _ hfin, rfl, rfl, rfl, hprompt⟩

variable (ex) in
theorem forwardDecode_keeps (q : Sequence) (batch : Batch) {env : Env δ}
    (hfin : (env.state.states.ensure q).finished = false) :
    DecodeKeeps (endsGeneration ex.config ex.tokenizer q) (env.state.states.ensure q)
      (ex.forwardDecode q batch env).1 ((ex.forwardDecode q batch env).2.state.states q.seqId) := by
  unfold forwardDecode
  dsimp only
  rw [if_neg (by rw [hfin]; exact Bool.false_ne_true)]
  generalize env.state.states.ensure q = state at hfin
  cases state.pendingTokenId with
  | some t =>
    have hsame : SameProgress state { state with pendingTokenId := none } := ⟨rfl, rfl, rfl, rfl⟩
    exact ⟨_, rfl, (Appends.one hsame t).chunkKeeps hfin _⟩
  | none =>
    dsimp only
    split_ifs
    · have hmany := speculativeDecode_appends ex (q := q) hfin env
      generalize ex.speculativeDecode q state env = r at hmany ⊢
      obtain ⟨e | xs, state', env'⟩ := r
      · exact SameProgress.stored hmany hfin _ _
      · exact ⟨xs, rfl, hmany.chunkKeeps hfin _⟩
    · have hone := decodeOne_appends ex (q := q) state env
      generalize ex.decodeOne q state env = r at hone ⊢
      obtain ⟨e | x, state', env'⟩ := r
      · exact SameProgress.stored hone hfin _ _
      · exact ⟨[x], rfl, hone.chunkKeeps hfin _⟩

theorem keepsStates (ex : TransformersTextExecutor δ) :
    KeepsStates ex.modelExecutor TransformersState.states ex.config ex.tokenizer where
  uncached := rfl
  prefill_other q batch env id hid := (forwardPrefill_callOn ex q batch env).1.states id hid
  decode_other q batch env id hid := (forwardDecode_callOn ex q batch env).1.states id hid
  prefill q _ _ hne hfin := forwardPrefill_keeps ex q hne hfin
  decode q batch _ hfin := forwardDecode_keeps ex q batch hfin

end TransformersTextExecutor

/-! ## The executors over a static arena -/

namespace CudaGraphQwen3Executor

variable {E D : Type} (ex : CudaGraphQwen3Executor E)

theorem forwardPrefill_other (q : Sequence) (batch : Batch) (env : Env E D) {id : SeqId}
    (hid : id ≠ q.seqId) :
    (ex.forwardPrefill q batch env).2.state.states id = env.state.states id := by
  have hstore := fun state : ServingState Unit =>
    env.state.states.store_of_ne state hid
  unfold forwardPrefill
  dsimp only
  split_ifs
  · rfl
  · exact hstore _
  · exact hstore _
  · split <;> exact hstore _

theorem forwardDecode_other (q : Sequence) (batch : Batch) (env : Env E D) {id : SeqId}
    (hid : id ≠ q.seqId) :
    (ex.forwardDecode q batch env).2.state.states id = env.state.states id := by
  have hstore := fun state : ServingState Unit =>
    env.state.states.store_of_ne state hid
  unfold forwardDecode
  dsimp only
  by_cases hfin : (env.state.states.ensure q).finished = true
  · rw [if_pos hfin]
  · rw [if_neg hfin]
    split
    · exact hstore _
    · split
      · exact hstore _
      · split_ifs <;> exact hstore _

theorem forwardPrefill_keeps (q : Sequence) {batch : Batch} {env : Env E D}
    (hne : batch.inputIds ≠ []) (hfin : (env.state.states.ensure q).finished = false) :
    PrefillKeeps q batch.inputIds.length (env.state.states.ensure q)
      ((ex.forwardPrefill q batch env).2.state.states q.seqId) := by
  unfold forwardPrefill
  rw [if_neg hne]
  dsimp only
  generalize env.state.states.ensure q = state at hfin
  have hstored : ∀ state' : ServingState Unit, state'.finished = false →
      env.state.states.store q.seqId state' q.seqId = some state' := fun state' h =>
    (ServingStates.store_self _ _ _).trans (by rw [h, if_neg Bool.false_ne_true])
  have hprompt : state.promptTokenCount = q.numPromptTokens →
      state.prefilledTokenCount + batch.inputIds.length ≤ q.numPromptTokens →
      max state.promptTokenCount q.numPromptTokens = q.numPromptTokens := fun h _ => by
    rw [h, max_self]
  split_ifs
  · exact ⟨_, hstored _ hfin, rfl, rfl, rfl, hprompt⟩
  · exact ⟨_, hstored _ hfin, rfl, rfl, rfl, hprompt⟩
  · split <;> exact ⟨_, hstored _ hfin, rfl, rfl, rfl, hprompt⟩

theorem forwardDecode_keeps (q : Sequence) (batch : Batch) {env : Env E D}
    (hfin : (env.state.states.ensure q).finished = false) :
    DecodeKeeps (endsGeneration ex.config ex.tokenizer q) (env.state.states.ensure q)
      (ex.forwardDecode q batch env).1 ((ex.forwardDecode q batch env).2.state.states q.seqId) := by
  unfold forwardDecode
  dsimp only
  rw [if_neg (by rw [hfin]; exact Bool.false_ne_true)]
  generalize env.state.states.ensure q = state at hfin
  cases state.pendingTokenId with
  | some t =>
    have hsame : SameProgress state { state with pendingTokenId := none } := ⟨rfl, rfl, rfl, rfl⟩
    exact ⟨_, rfl, (Appends.one hsame t).chunkKeeps hfin _⟩
  | none =>
    dsimp only
    cases state.generatedTokenIds.getLast? with
    | none =>
      have hends := endsGeneration_eos ex.config ex.tokenizer q state.generatedTokenIds
      exact ⟨_, rfl, ⟨hends.symm, fun _ => rfl, trivial⟩, ServingStates.store_self _ _ _⟩
    | some last =>
      dsimp only
      split_ifs
      · exact SameProgress.stored (.refl state) hfin _ _
      · exact ⟨_, rfl, (Appends.one (.refl state) _).chunkKeeps hfin _⟩
      · exact ⟨_, rfl, Appends.chunkKeeps ⟨state, _, .refl state, rfl⟩ hfin _⟩

theorem keepsStates (D : Type) :
    KeepsStates (ex.modelExecutor D) GraphState.states ex.config ex.tokenizer where
  uncached := rfl
  prefill_other q batch env _ hid := ex.forwardPrefill_other q batch env hid
  decode_other q batch env _ hid := ex.forwardDecode_other q batch env hid
  prefill q _ _ hne hfin := ex.forwardPrefill_keeps q hne hfin
  decode q batch _ hfin := ex.forwardDecode_keeps q batch hfin

end CudaGraphQwen3Executor

namespace SpecCudaGraphQwen3Executor

open CudaGraphQwen3Executor

variable {E D : Type} (ex : SpecCudaGraphQwen3Executor E D)

/-- The prefill of the draft arena leaves the serving states as they are, but for its mark. -/
theorem forwardPrefill_states (q : Sequence) (batch : Batch) (env : Env E D) :
    let env₁ := (ex.toCudaGraphQwen3Executor.forwardPrefill q batch env).2
    (ex.forwardPrefill q batch env).2.state.states = env₁.state.states ∨
      ∃ state, env₁.state.states q.seqId = some state ∧
        (ex.forwardPrefill q batch env).2.state.states =
          env₁.state.states.store q.seqId { state with draftPrefilled := true } := by
  unfold forwardPrefill
  generalize ex.toCudaGraphQwen3Executor.forwardPrefill q batch env = r
  obtain ⟨e | u, env₁⟩ := r
  · exact .inl rfl
  dsimp only
  cases hstate : env₁.state.states q.seqId with
  | none => exact .inl rfl
  | some state =>
    dsimp only
    split_ifs
    · exact .inl rfl
    · exact .inl rfl
    · split
      · exact .inl rfl
      · exact .inr ⟨state, rfl, rfl⟩

theorem specRound_states (lastToken : TokenId) (n : ℕ) (st : GraphState E D) :
    (ex.specRound lastToken n st).2.states = st.states := by
  unfold specRound
  dsimp only
  split_ifs <;> rfl

theorem keepsStates : KeepsStates ex.modelExecutor GraphState.states ex.config ex.tokenizer where
  uncached := rfl
  prefill_other q batch env id hid := by
    have hsuper := ex.toCudaGraphQwen3Executor.forwardPrefill_other q batch env hid
    rcases ex.forwardPrefill_states q batch env with h | ⟨state, -, h⟩
    · exact (congrFun h id).trans hsuper
    · exact (congrFun h id).trans ((ServingStates.store_of_ne _ _ hid).trans hsuper)
  decode_other q batch env id hid := by
    have hsuper := ex.toCudaGraphQwen3Executor.forwardDecode_other q batch env hid
    show (ex.forwardDecode q batch env).2.state.states id = _
    unfold forwardDecode
    dsimp only
    split_ifs
    · rfl
    · exact hsuper
    · exact hsuper
    · exact (ServingStates.store_of_ne _ _ hid).trans (congrFun (ex.specRound_states _ _ _) id)
  prefill q batch env hne hfin := by
    obtain ⟨state', hstate', hgen, hfin', hpre, hprompt⟩ :=
      ex.toCudaGraphQwen3Executor.forwardPrefill_keeps q hne hfin
    rcases ex.forwardPrefill_states q batch env with h | ⟨state, hstate, h⟩
    · exact ⟨state', (congrFun h _).trans hstate', hgen, hfin', hpre, hprompt⟩
    · rw [hstate, Option.some.injEq] at hstate'
      subst hstate'
      refine ⟨{ state with draftPrefilled := true }, (congrFun h _).trans ?_, hgen, hfin', hpre,
        hprompt⟩
      rw [ServingStates.store_self, hfin'.trans hfin, if_neg Bool.false_ne_true]
  decode q batch env hfin := by
    have hsuper := ex.toCudaGraphQwen3Executor.forwardDecode_keeps q batch hfin
    show DecodeKeeps _ _ (ex.forwardDecode q batch env).1
      ((ex.forwardDecode q batch env).2.state.states q.seqId)
    unfold forwardDecode
    dsimp only
    rw [if_neg (by rw [hfin]; exact Bool.false_ne_true)]
    split_ifs
    · exact hsuper
    · exact hsuper
    · exact ⟨_, rfl, Appends.chunkKeeps ⟨_, _, .refl _, rfl⟩ hfin _⟩

end SpecCudaGraphQwen3Executor

/-! ## The executors of the repository -/

/-- The executors of the repository, each with where its state keeps the serving states, and the
state it is constructed with. -/
inductive RepositoryExecutor : {σ δ : Type} → ModelExecutor σ → (σ → ServingStates δ) →
    GenerationConfig → Tokenizer → σ → Prop
  | transformers {δ : Type} (ex : TransformersTextExecutor δ) (rng : ℕ) :
    RepositoryExecutor ex.modelExecutor TransformersState.states ex.config ex.tokenizer { rng }
  | cudaGraph {E D : Type} (ex : CudaGraphQwen3Executor E) (runner : RunnerState E)
    (draft : RunnerState D) (rng : ℕ) : RepositoryExecutor (ex.modelExecutor D)
      GraphState.states ex.config ex.tokenizer { runner, draft, rng }
  | specCudaGraph {E D : Type} (ex : SpecCudaGraphQwen3Executor E D) (runner : RunnerState E)
    (draft : RunnerState D) (rng : ℕ) : RepositoryExecutor ex.modelExecutor
      GraphState.states ex.config ex.tokenizer { runner, draft, rng }

variable {σ δ : Type} {ex : ModelExecutor σ} {states : σ → ServingStates δ}
  {config : GenerationConfig} {tokenizer : Tokenizer} {st : σ}

theorem RepositoryExecutor.keepsStates (h : RepositoryExecutor ex states config tokenizer st) :
    KeepsStates ex states config tokenizer := by
  cases h with
  | transformers ex => exact ex.keepsStates
  | cudaGraph ex => exact ex.keepsStates _
  | specCudaGraph ex => exact ex.keepsStates

/-- An executor is constructed without serving states. -/
theorem RepositoryExecutor.states_eq_none (h : RepositoryExecutor ex states config tokenizer st)
    (id : SeqId) : states st id = none := by
  cases h <;> rfl

end SoloRT
