import SoloRT.Simulation
import SoloRT.TransformersFrame

/-!
# Greedy generation on the Transformers executor

The reference of a greedy request is autoregressive generation with the model's logits of the
whole token list (`nextToken`, `reference`). The executor simulates it (`greedySimulation`) : the
cache object of a live sequence holds the prompt so far, later the prompt and the generated
tokens but the last, and the token sampled by the last prefill chunk is pending.

The prefill chunks and decodes of a sequence keep this (`forwardPrefill_tracks`,
`forwardDecode_decodeOk`), and so does every call for another sequence
(`HasState.other`). So a request that ends finished has the tokens of the reference
(`outputIds_eq_reference`).
-/

namespace SoloRT

namespace TransformersTextExecutor

variable {δ : Type} (ex : TransformersTextExecutor δ)

/-! ## The reference -/

/-- The greedy token after the prompt and the tokens `ts`, penalised for `ts`. -/
def nextToken (q : Sequence) (ts : List TokenId) : TokenId :=
  greedyToken (penalise
    (q.metadata.repetitionPenalty.getD ex.config.defaultRepetitionPenalty) ts
    (ex.model.logits (q.inputIds ++ ts)))

/-- The first token is generated whatever the limit. -/
def reference (q : Sequence) : List TokenId :=
  Generation.generate (ex.nextToken q) (endsGeneration ex.config ex.tokenizer q)
    (max 1 q.maxNewTokens) []

/-! ## The simulation -/

/-- The tokens whose K/V the cache object of a sequence holds. -/
def cachedTokens (q : Sequence) : List TokenId :=
  if q.outputIds = [] then q.inputIds.take q.numScheduledTokens
  else q.inputIds ++ q.outputIds.dropLast

/-- The token that the last prefill chunk sampled, until it is decoded. -/
def pendingToken (q : Sequence) : Option TokenId :=
  if q.outputIds = [] ∧ q.numScheduledTokens = q.inputIds.length then some (ex.nextToken q [])
  else none

/-- The serving state and the cache object of a sequence. -/
structure Holds (heap : CacheHeap) (q : Sequence) (state : ServingState δ) : Prop where
  cache : ∃ c, state.pastKeyValues = some c ∧ heap.tokens c = cachedTokens q
  prompt : state.promptTokenCount = q.inputIds.length
  prefilled : state.prefilledTokenCount = q.numScheduledTokens
  pending : state.pendingTokenId = ex.pendingToken q
  generated : state.generatedTokenIds = q.outputIds
  finished : state.finished = false

/-- A sequence whose prefill has not begun may have no serving state. -/
def HasState (st : TransformersState δ) (q : Sequence) : Prop :=
  (q.numScheduledTokens = 0 ∧ st.states q.seqId = none) ∨
    ∃ state, st.states q.seqId = some state ∧ ex.Holds st.heap q state

variable {ex} {st st' : TransformersState δ} {q q' : Sequence} {env : Env δ}

theorem nextToken_of_request (h : q'.request = q.request) :
    ex.nextToken q' = ex.nextToken q := by
  have hpenalty : q'.metadata.repetitionPenalty = q.metadata.repetitionPenalty :=
    show q'.request.metadata.repetitionPenalty = q.request.metadata.repetitionPenalty from
      congrArg (fun s => s.metadata.repetitionPenalty) h
  funext ts
  rw [nextToken, nextToken, hpenalty, Sequence.inputIds_of_request h]

/-- The parts of a sequence that the executor does not read may change. -/
theorem HasState.congr (h : ex.HasState st q) (hreq : q'.request = q.request)
    (hout : q'.outputIds = q.outputIds) (hsched : q'.numScheduledTokens = q.numScheduledTokens) :
    ex.HasState st q' := by
  have hin := Sequence.inputIds_of_request hreq
  have hpending : ex.pendingToken q' = ex.pendingToken q := by
    rw [pendingToken, pendingToken, hout, hsched, hin, nextToken_of_request hreq]
  have hcached : cachedTokens q' = cachedTokens q := by
    rw [cachedTokens, cachedTokens, hout, hsched, hin]
  rw [HasState, hsched, Sequence.seqId_of_request hreq]
  refine h.imp_right fun ⟨state, hst, hs⟩ => ⟨state, hst, ?_, ?_, ?_, ?_, ?_, hs.finished⟩
  · rw [hcached]
    exact hs.cache
  · rw [hin, hs.prompt]
  · rw [hsched, hs.prefilled]
  · rw [hpending, hs.pending]
  · rw [hout, hs.generated]

/-- A call for another sequence keeps the serving state and its cache object. -/
theorem HasState.other (h : ex.HasState st q) {id : SeqId} (hcall : CallOn id st st')
    (hs : Separate st) (hid : q.seqId ≠ id) : ex.HasState st' q := by
  rw [HasState, hcall.states q.seqId hid]
  refine h.imp_right fun ⟨state, hst, hh⟩ => ⟨state, hst, ?_, hh.prompt, hh.prefilled,
    hh.pending, hh.generated, hh.finished⟩
  obtain ⟨c, hc, htokens⟩ := hh.cache
  refine ⟨c, hc, ?_⟩
  rw [hcall.tokens hs hid, htokens]
  rw [TransformersState.pastOf, hst]
  exact hc

variable (ex) in
/-- The executor generates the tokens of the greedy requests with a prompt. -/
def greedySimulation : Simulation (TransformersState δ) where
  config := ex.config
  tokenizer := ex.tokenizer
  About q := Greedy ex.config q ∧ q.inputIds ≠ []
  next := ex.nextToken
  room _ := ⊤
  Holds := ex.HasState
  Shared := Separate
  Absent st id := st.states id = none
  about_of_request hreq h :=
    ⟨greedy_of_request hreq h.1, Sequence.inputIds_of_request hreq ▸ h.2⟩
  next_of_request := nextToken_of_request
  room_of_request _ := rfl
  holds_congr hreq hout hsched h := h.congr hreq hout hsched
  holds_new _ _ _ _ _ _ h := .inl ⟨rfl, h⟩

/-! ## A prefill chunk -/

theorem sample_greedy (hq : Greedy ex.config q) (env : Env δ) (logits : List ℚ) :
    ex.sample env logits q = (greedyToken (penalise
      (q.metadata.repetitionPenalty.getD ex.config.defaultRepetitionPenalty) q.outputIds
      logits), env) := by
  rw [sample, sampleToken_greedy hq]

/-- What the executor has before a prefill chunk. -/
theorem HasState.ensure (h : ex.HasState env.state q)
    (hprompt : q.numPromptTokens = q.inputIds.length)
    (hlt : q.numScheduledTokens < q.inputIds.length) (hout : q.outputIds = []) :
    (env.state.states.ensure q).pastKeyValues.elim [] env.state.heap.tokens =
        q.inputIds.take q.numScheduledTokens ∧
      (env.state.states.ensure q).promptTokenCount = q.inputIds.length ∧
      (env.state.states.ensure q).prefilledTokenCount = q.numScheduledTokens ∧
      (env.state.states.ensure q).pendingTokenId = none ∧
      (env.state.states.ensure q).generatedTokenIds = [] ∧
      (env.state.states.ensure q).finished = false := by
  rcases h with ⟨h0, hnone⟩ | ⟨state, hst, hs⟩
  · rw [ServingStates.ensure, hnone, h0]
    exact ⟨rfl, hprompt, rfl, rfl, rfl, rfl⟩
  · rw [ServingStates.ensure, hst]
    obtain ⟨c, hc, htokens⟩ := hs.cache
    refine ⟨?_, hs.prompt, hs.prefilled, ?_, hs.generated.trans hout, hs.finished⟩
    · rw [Option.getD_some, hc, Option.elim_some, htokens, cachedTokens, if_pos hout]
    · rw [Option.getD_some, hs.pending, pendingToken, if_neg]
      omega

theorem take_append_of_prefix_drop {l chunk : List TokenId} {n : ℕ} (h : chunk <+: l.drop n) :
    l.take n ++ chunk = l.take (n + chunk.length) := by
  rw [List.take_add, ← List.prefix_iff_eq_take.1 h]

/-- A prefill chunk keeps the simulation. -/
theorem forwardPrefill_tracks : ex.greedySimulation.PrefillsOk ex.modelExecutor := by
  rintro q batch env ⟨hq, -⟩ h hchunk
  have hholds : ex.HasState env.state q := h.holds
  change ex.greedySimulation.PrefillOk q _ (ex.forwardPrefill q batch env).2.state
    (ex.forwardPrefill q batch env).1
  unfold forwardPrefill
  by_cases hnil : batch.inputIds = []
  · rw [if_pos hnil, hnil]
    exact hholds
  rw [if_neg hnil]
  have hlen := hchunk.length_le
  have hpos := List.length_pos_of_ne_nil hnil
  rw [List.length_drop] at hlen
  have hout := h.outputs_eq_nil (by omega)
  obtain ⟨hcache, hprompt, hpre, hpend, hgen, hfin⟩ := hholds.ensure h.prompt (by omega) hout
  dsimp only
  cases hf : ex.targetForward env (env.state.states.ensure q).pastKeyValues batch.inputIds with
  | mk logits r =>
    obtain ⟨c, env'⟩ := r
    have htokens := (targetForward_spec hf).1
    have hlast := getLastD_targetForward hf hnil
    rw [hcache, take_append_of_prefix_drop hchunk] at htokens hlast
    -- what is the same whether the chunk is the last one or not
    have hstate : ∀ state, state.pastKeyValues = some c →
        state.promptTokenCount = q.inputIds.length →
        state.prefilledTokenCount = q.numScheduledTokens + batch.inputIds.length →
        state.generatedTokenIds = [] → state.finished = false →
        state.pendingTokenId = ex.pendingToken
          { q with numScheduledTokens := q.numScheduledTokens + batch.inputIds.length } →
        ex.HasState (store env' q.seqId state).state
          { q with numScheduledTokens := q.numScheduledTokens + batch.inputIds.length } := by
      intro state hp hpr hpf hg hfi hpe
      refine .inr ⟨state, ?_, ⟨c, hp, ?_⟩, hpr, hpf, hpe, hg.trans hout.symm, hfi⟩
      · simp [store, ServingStates.store, hfi]
      · simp only [store, htokens, cachedTokens, hout, if_true]
    have hsample : ex.sample env' (ex.model.logits
        (q.inputIds.take (q.numScheduledTokens + batch.inputIds.length))) q =
          (greedyToken (penalise
            (q.metadata.repetitionPenalty.getD ex.config.defaultRepetitionPenalty) []
            (ex.model.logits (q.inputIds.take (q.numScheduledTokens + batch.inputIds.length)))),
            env') := by
      rw [sample_greedy hq, hout]
    have hnum := h.prompt
    dsimp only
    rw [hpre, hlast, hsample]
    split_ifs with hdone
    · refine hstate _ rfl ?_ rfl ?_ ?_ ?_
      · dsimp only
        omega
      · exact hgen
      · exact hfin
      · have hall : q.numScheduledTokens + batch.inputIds.length = q.inputIds.length := by omega
        rw [pendingToken, if_pos ⟨hout, hall⟩, hall, List.take_length]
        simp [nextToken]
    · refine hstate _ rfl ?_ rfl ?_ ?_ ?_
      · dsimp only
        omega
      · exact hgen
      · exact hfin
      · rw [pendingToken, if_neg (fun hall => hdone (hnum.trans_le hall.2.ge))]
        exact hpend

/-! ## A decode -/

/-- Storing the state of a call that only reserved pages, or touched the draft cache. -/
theorem tracks_store (h : ex.greedySimulation.Tracks env.state q) {state : ServingState δ}
    (hs : ex.Holds env.state.heap q state) {env' : Env δ} (henv : env'.state = env.state) :
    ex.greedySimulation.Tracks (store env' q.seqId state).state q := by
  refine h.other (.inr ⟨state, ?_, ?_⟩)
  · simp [store, ServingStates.store, hs.finished]
  · simpa only [store, henv] using hs

/-- Appending the next tokens, with a cache that holds all but the last if the generation goes
on. -/
theorem decodeOk_follow (state : ServingState δ) (h : ex.greedySimulation.Tracks env.state q)
    (hdone : q.numScheduledTokens = q.inputIds.length) {n : ℕ} {xs : List SampleResult}
    {state' : ServingState δ}
    (happ : appendTokenResults ex.config ex.tokenizer q state
      (Generation.follow (ex.nextToken q) (n + 1) q.outputIds) = (xs, state'))
    (hgen : state.generatedTokenIds = q.outputIds) (hfin : state.finished = false)
    (hpend : state.pendingTokenId = none) (hprompt : state.promptTokenCount = q.inputIds.length)
    (hpre : state.prefilledTokenCount = q.numScheduledTokens) {env' : Env δ}
    (hcache : Generation.Running (ex.nextToken q) (endsGeneration ex.config ex.tokenizer q)
        (q.outputIds ++ Generation.follow (ex.nextToken q) (n + 1) q.outputIds) →
      ∃ c, state.pastKeyValues = some c ∧ env'.state.heap.tokens c = q.inputIds ++ (q.outputIds ++
        Generation.follow (ex.nextToken q) (n + 1) q.outputIds).dropLast)
    {output : DecodeOutput} (hout : normalizeSamples output = .ok xs) :
    ex.greedySimulation.DecodeOk q (store env' q.seqId state').state (.ok output) := by
  refine Simulation.decodeOk_follow h hdone happ hgen hfin le_top
    (fun hrun hsame hgen' hfin' => ?_) hout
  obtain ⟨c, hc, hcache⟩ := hcache hrun
  have hnil : q.outputIds ++ Generation.follow (ex.nextToken q) (n + 1) q.outputIds ≠ [] := by
    simp [Generation.follow]
  refine .inr ⟨state', ?_, ⟨c, ?_, ?_⟩, ?_, ?_, ?_, hgen', hfin'⟩
  · simp [store, ServingStates.store, hfin']
  · exact hsame.pastKeyValues.trans hc
  · rw [cachedTokens]
    exact (if_neg hnil).symm ▸ hcache
  · exact hsame.promptTokenCount.trans hprompt
  · exact hsame.prefilledTokenCount.trans hpre
  · rw [hsame.pendingTokenId, hpend, pendingToken, if_neg]
    exact fun hnil' => hnil hnil'.1

/-- `_decode_next` and its token keep the simulation. -/
theorem decodeOne_decodeOk (hq : Greedy ex.config q) (h : ex.greedySimulation.Tracks env.state q)
    {state : ServingState δ} (hs : ex.Holds env.state.heap q state) (hne : q.outputIds ≠ []) :
    ex.greedySimulation.DecodeOk q (store (ex.decodeOne q state env).2.2 q.seqId
      (ex.decodeOne q state env).2.1).state
      ((ex.decodeOne q state env).1.map DecodeOutput.one) := by
  obtain ⟨c, hc, htokens⟩ := hs.cache
  rw [cachedTokens, if_neg hne] at htokens
  have hlast := List.getLast?_eq_some_getLast hne
  have hstate := kvWritePlan_state env (state.promptTokenCount + q.outputIds.length - 1) 1 0 0
  unfold decodeOne decodeNext
  rw [hs.generated, hlast]
  dsimp only
  generalize kvWritePlan env (state.promptTokenCount + q.outputIds.length - 1) 1 0 0 = r at hstate ⊢
  obtain ⟨e | t, env₁⟩ := r
  · exact tracks_store h hs hstate
  dsimp only at hstate ⊢
  cases hf : ex.targetForward env₁ state.pastKeyValues [q.outputIds.getLast hne] with
  | mk logits r =>
    obtain ⟨c', env₂⟩ := r
    have hcache := (targetForward_spec hf).1
    have hlogits := getLastD_targetForward hf (by simp)
    rw [hstate, hc, Option.elim_some, htokens, List.append_assoc,
      List.dropLast_append_getLast hne] at hcache hlogits
    have hnext : Generation.follow (ex.nextToken q) 1 q.outputIds =
      [ex.nextToken q q.outputIds] := rfl
    dsimp only
    rw [sample_greedy hq, hlogits]
    exact decodeOk_follow (n := 0)
      { state with
        pastKeyValues := some c'
        pendingTokenId := none
        generatedTokenIds := q.outputIds }
      h (h.outputs hne) (by rw [hnext, appendTokenResults_singleton]; rfl) rfl hs.finished rfl
      hs.prompt hs.prefilled
      (fun _ => ⟨c', rfl, by rw [hnext, List.dropLast_concat]; exact hcache⟩) rfl

/-- What the executor has before a decode. -/
theorem HasState.holds (h : ex.HasState st q) (hne : q.inputIds ≠ [])
    (hdone : q.numScheduledTokens = q.inputIds.length) :
    ∃ state, st.states q.seqId = some state ∧ ex.Holds st.heap q state := by
  rcases h with ⟨h0, -⟩ | hstate
  · exact absurd (List.length_eq_zero_iff.1 (hdone.symm.trans h0)) hne
  · exact hstate

/-- A decode without speculation keeps the simulation. -/
theorem forwardDecode_decodeOk (hq : Greedy ex.config q) (hne : q.inputIds ≠ [])
    (h : ex.greedySimulation.Tracks env.state q) (hdone : q.numScheduledTokens = q.inputIds.length)
    (hspec : ∀ state, env.state.states q.seqId = some state → ex.Holds env.state.heap q state →
      q.outputIds ≠ [] → state.pendingTokenId = none → ex.speculativeEnabled q state = true →
      ex.greedySimulation.DecodeOk q (store (ex.speculativeDecode q state env).2.2 q.seqId
        (ex.speculativeDecode q state env).2.1).state
        ((ex.speculativeDecode q state env).1.map DecodeOutput.many))
    (batch : Batch) : ex.greedySimulation.DecodeOk q (ex.forwardDecode q batch env).2.state
      (ex.forwardDecode q batch env).1 := by
  have hholds : ex.HasState env.state q := h.holds
  obtain ⟨state, hst, hs⟩ := hholds.holds hne hdone
  have hensure : env.state.states.ensure q = state := by
    rw [ServingStates.ensure, hst, Option.getD_some]
  unfold forwardDecode
  rw [hensure]
  dsimp only
  rw [if_neg (by simp [hs.finished])]
  by_cases hout : q.outputIds = []
  · -- the token of the last prefill chunk is pending
    obtain ⟨c, hc, htokens⟩ := hs.cache
    rw [cachedTokens, if_pos hout, hdone, List.take_length] at htokens
    have hpend := hs.pending
    rw [pendingToken, if_pos ⟨hout, hdone⟩] at hpend
    rw [hpend]
    have hnext : Generation.follow (ex.nextToken q) 1 q.outputIds = [ex.nextToken q []] := by
      rw [hout]
      rfl
    exact decodeOk_follow (n := 0) { state with pendingTokenId := none } h hdone
      (by rw [hnext, appendTokenResults_singleton]; rfl) hs.generated hs.finished rfl hs.prompt
      hs.prefilled (fun _ => ⟨c, hc, by rw [hnext, hout]; simpa using htokens⟩) rfl
  · have hpend := hs.pending
    rw [pendingToken, if_neg fun hnil => hout hnil.1] at hpend
    rw [hpend]
    dsimp only
    by_cases hen : ex.speculativeEnabled q state = true
    · rw [if_pos hen]
      exact hspec state hst hs hout hpend hen
    · rw [if_neg hen]
      exact decodeOne_decodeOk hq h hs hout

/-! ## Runs -/

/-- Executing a batch is a call for its sequence. -/
theorem executed_callOn {c c' : BatchContext (TransformersState δ)} {batch : Batch}
    {r : Except PyError (List Text)} (h : BatchContext.Executed ex.modelExecutor c batch r c') :
    CallOn c.sequence.seqId c.executor c'.executor := by
  have hcall : ∀ {o : Except PyError Unit} {batch' : Batch} {env env' : Env δ},
      env.state = c.executor →
      ex.modelExecutor.forwardPrefill (c.setEnv env).sequence batch' env = (o, env') →
      CallOn c.sequence.seqId c.executor env'.state := by
    intro o batch' env env' hstate he
    have hcall := (forwardPrefill_callOn ex (c.setEnv env).sequence batch' env).1
    change ex.forwardPrefill (c.setEnv env).sequence batch' env = (o, env') at he
    rwa [he, hstate] at hcall
  have hcall' : ∀ {o : Except PyError DecodeOutput} {batch' : Batch} {env env' : Env δ},
      env.state = c.executor →
      ex.modelExecutor.forwardDecode (c.setEnv env).sequence batch' env = (o, env') →
      CallOn c.sequence.seqId c.executor env'.state := by
    intro o batch' env env' hstate he
    have hcall := (forwardDecode_callOn ex (c.setEnv env).sequence batch' env).1
    change ex.forwardDecode (c.setEnv env).sequence batch' env = (o, env') at he
    rwa [he, hstate] at hcall
  cases h with
  | skipped => exact .refl _ _
  | attachFailed hs hstate hkv => exact hstate ▸ .refl _ _
  | prefillFailed hs hb ha he => exact hcall ha.state he
  | prefilled hs hb ha he hc =>
    have hexec : c'.executor = _ := BatchContext.cachePrefix_executor hc
    rw [hexec]
    exact hcall ha.state he
  | decodeFailed hs hb ha he ho => exact hcall' ha.state he
  | decoded hs hb ha he hn => exact hcall' ha.state he

/-- The executor's calls meet the simulation. -/
theorem simulates (ex : TransformersTextExecutor δ) :
    ex.greedySimulation.Simulates ex.modelExecutor where
  prefills := forwardPrefill_tracks
  shared hx hs := (executed_callOn hx).separate hs
  uncached := rfl

/-- A batch of another request touches neither the serving state nor the cache object. -/
theorem othersOk {id : SeqId} {rt : RuntimeCore (TransformersState δ)} (hrt : rt.Sound)
    (hs : Separate rt.executor) : ex.greedySimulation.OthersOk ex.modelExecutor id rt := by
  intro s batch r c hsel hid hb hx
  have hcall := executed_callOn hx
  refine ⟨fun h => (hcall.states id hid.symm).trans h, fun q hq habout hlive ht => ?_⟩
  have hqid : q.seqId = id := hrt.wellFormed.seqId_eq _ _ hq
  have hholds : ex.HasState rt.executor q := ht.holds
  exact hholds.other hcall hs (by rw [hqid]; exact hid.symm)

theorem separate_empty : Separate ({} : TransformersState δ) := by
  refine ⟨?_, ?_⟩ <;> simp [TransformersState.pastOf]

/-- A run whose decodes of the request `id` keep the simulation ends with it. -/
theorem tracked_run (ex : TransformersTextExecutor δ) {id : SeqId}
    {P : ServerState (TransformersState δ) → Event → Prop}
    (hP : ∀ s e, s.Owned → P s e → Simulation.Turns s e →
      ex.greedySimulation.DecodesOk ex.modelExecutor id s.runtime)
    (config : RuntimeConfig) {es : List Event}
    (h : Transition.Along (ServerState.step ex.modelExecutor) P (ServerState.init config {}) es) :
    ex.greedySimulation.Tracked id
      (Transition.run (ServerState.step ex.modelExecutor) (ServerState.init config {})
        es).runtime :=
  Simulation.tracked_run ex.simulates
    (fun s e hs ht he hturn => ⟨hP s e hs he hturn, othersOk hs.1.runtime ht.shared⟩) config
    separate_empty rfl h

/-- Without speculation every decode keeps the simulation. -/
theorem decodesOk_of_not_speculative
    (hspec : ex.draftModel = none ∨ ex.config.speculativeTokens ≤ 0) (id : SeqId)
    (rt : RuntimeCore (TransformersState δ)) :
    ex.greedySimulation.DecodesOk ex.modelExecutor id rt := by
  intro s _ _ hg ht hdone batch env henv _
  have hreq : ((rt.context s.scheduled).setEnv env).sequence.request = s.request := rfl
  obtain ⟨hg', hne'⟩ := ex.greedySimulation.about_of_request hreq hg
  have ht' := ht.congr hreq rfl rfl
  rw [← show env.state = rt.executor from henv] at ht'
  refine forwardDecode_decodeOk hg' hne' ht' hdone (fun state _ _ _ _ hen => ?_) batch
  exfalso
  rcases hspec with hnone | hle
  · simp [speculativeEnabled, hnone] at hen
  · simp [speculativeEnabled, not_lt.2 hle] at hen

/-- The tokens of a greedy request that ended finished are the reference's, whatever the chunk
size and the other requests. -/
theorem outputIds_eq_reference (ex : TransformersTextExecutor δ)
    (hspec : ex.draftModel = none ∨ ex.config.speculativeTokens ≤ 0) (config : RuntimeConfig)
    (es : List Event) (id : SeqId) (q : Sequence)
    (hq : (Transition.run (ServerState.step ex.modelExecutor) (ServerState.init config {})
      es).runtime.scheduler.get id = some q)
    (hprompt : q.inputIds ≠ []) (hgreedy : Greedy ex.config q) (hfin : q.status = .finished) :
    q.outputIds = ex.reference q := by
  have hall : Transition.Along (ServerState.step ex.modelExecutor) (fun _ _ => True)
      (ServerState.init config {}) es := Transition.along_true _ _
  have htracked := tracked_run ex
    (fun s _ _ _ _ => decodesOk_of_not_speculative hspec id s.runtime) config hall
  exact Simulation.eq_reference_of_complete (htracked.done q hq ⟨hgreedy, hprompt⟩ hfin).1

/-- A model whose next token counts the tokens before it. -/
def countingModel : CausalLM where
  logits tokenIds := (List.range 8).map fun i => if i = tokenIds.length % 8 then 1 else 0
  inPlace := true

def countingExecutor : TransformersTextExecutor Unit where
  config := {}
  tokenizer := charTokenizer
  torch := { softmax := fun scores => scores.map fun _ => 1, multinomial := fun _ _ => 1 }
  model := countingModel
  draftModel := none

/-- A greedy request for three tokens and a sampled one for two. -/
def twoRequestsRun : List Event :=
  [.addRequest { ServerState.shortRequest "a" with temperature := 0, maxNewTokens := 3 },
    .addRequest { ServerState.shortRequest "b" with maxNewTokens := 2 },
    .resume 1, .resume 0, .resume 1, .resume 0, .resume 0]

theorem outputIds_eq_reference_twoRequestsRun :
    ∃ q, (Transition.run (ServerState.step countingExecutor.modelExecutor)
        (ServerState.init ServerState.smallConfig {}) twoRequestsRun).runtime.scheduler.get 0 =
          some q ∧ q.outputIds = countingExecutor.reference q ∧ q.outputIds = [2, 3, 4] := by
  have hq : ((Transition.run (ServerState.step countingExecutor.modelExecutor)
      (ServerState.init ServerState.smallConfig {}) twoRequestsRun).runtime.scheduler.get 0).map
        (fun q => (q.inputIds, q.metadata.temperature, q.status, q.outputIds)) =
          some ([104, 105], some 0, .finished, [2, 3, 4]) := by decide +kernel
  obtain ⟨q, hq, hqs⟩ := Option.map_eq_some_iff.1 hq
  simp only [Prod.mk.injEq] at hqs
  obtain ⟨hin, htemp, hfin, hout⟩ := hqs
  refine ⟨q, hq, ?_, hout⟩
  exact outputIds_eq_reference countingExecutor (.inl rfl) ServerState.smallConfig twoRequestsRun
    0 q hq (by simp [hin]) (by simp [Greedy, htemp]) hfin

end TransformersTextExecutor

end SoloRT
