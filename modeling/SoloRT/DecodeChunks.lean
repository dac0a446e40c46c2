import SoloRT.GraphSpeculative
import SoloRT.Detokenize

/-!
# The size of a decode chunk

A greedy decode of the CUDA-graph executor runs a chunk of replays, and appends their tokens one
after the other until one finishes the state. The samples of a request depend on its tokens alone
(`spoken`), and so do not show where the chunks ended. A request that is served alone gets the
samples of its tokens (`servedSamples_eq`), and its tokens are those of a generator that does not
know the chunks. So the size of the chunks makes no difference to it (`served_eq_chunk`).
-/

namespace SoloRT

/-! ## The samples of some tokens -/

section

variable {δ : Type} (config : GenerationConfig) (tokenizer : Tokenizer) (sequence : Sequence)

/-- Append tokens one after the other, also after one that finishes the state. -/
def appendEach : ServingState δ → List TokenId → List SampleResult × ServingState δ
  | state, [] => ([], state)
  | state, tokenId :: tokenIds =>
    let (result, state) := appendTokenResult config tokenizer sequence state tokenId
    let (results, state) := appendEach state tokenIds
    (result :: results, state)

/-- The samples of the tokens of a request, and what they leave. -/
def spoken (tokenIds : List TokenId) : List SampleResult × ServingState Unit :=
  appendEach config tokenizer sequence { promptTokenCount := 0 } tokenIds

variable {config tokenizer sequence}

theorem SameTokens.refl (state : ServingState δ) : SameTokens state state :=
  ⟨rfl, rfl, rfl, rfl⟩

theorem SameTokens.trans {state state' state'' : ServingState δ} (h : SameTokens state state')
    (h' : SameTokens state' state'') : SameTokens state state'' :=
  ⟨h'.1.trans h.1, h'.2.trans h.2, h'.3.trans h.3, h'.4.trans h.4⟩

variable (config tokenizer sequence) in
/-- A sample depends on these parts of the state only. -/
theorem SameTokens.appendTokenResult {state state' : ServingState δ} (h : SameTokens state state')
    (tokenId : TokenId) :
    (appendTokenResult config tokenizer sequence state' tokenId).1 =
        (appendTokenResult config tokenizer sequence state tokenId).1 ∧
      SameTokens (appendTokenResult config tokenizer sequence state tokenId).2
        (appendTokenResult config tokenizer sequence state' tokenId).2 := by
  obtain ⟨htokens, hprefix, hread, hfin⟩ := h
  unfold SoloRT.appendTokenResult decodeDelta
  dsimp only
  rw [htokens, hprefix, hread, hfin]
  split_ifs <;> exact ⟨rfl, rfl, rfl, rfl, rfl⟩

variable (config tokenizer sequence) in
theorem SameTokens.appendEach {state state' : ServingState δ} (h : SameTokens state state')
    (tokenIds : List TokenId) :
    (appendEach config tokenizer sequence state' tokenIds).1 =
        (appendEach config tokenizer sequence state tokenIds).1 ∧
      SameTokens (appendEach config tokenizer sequence state tokenIds).2
        (appendEach config tokenizer sequence state' tokenIds).2 := by
  induction tokenIds generalizing state state' with
  | nil => exact ⟨rfl, h⟩
  | cons t ts ih =>
    obtain ⟨hone, hsame⟩ := h.appendTokenResult config tokenizer sequence t
    obtain ⟨hmore, hrest⟩ := ih hsame
    simp only [SoloRT.appendEach]
    exact ⟨by rw [hone, hmore], hrest⟩

theorem appendEach_append (state : ServingState δ) (ts us : List TokenId) :
    appendEach config tokenizer sequence state (ts ++ us) =
      ((appendEach config tokenizer sequence state ts).1 ++
          (appendEach config tokenizer sequence
            (appendEach config tokenizer sequence state ts).2 us).1,
        (appendEach config tokenizer sequence
          (appendEach config tokenizer sequence state ts).2 us).2) := by
  induction ts generalizing state with
  | nil => rfl
  | cons t ts ih =>
    rw [List.cons_append, appendEach, appendEach]
    dsimp only
    rw [ih, List.cons_append]

variable (config tokenizer sequence) in
/-- A chunk appends the tokens that it returns. -/
theorem appendTokenResults_eq_each (state : ServingState δ) (tokenIds : List TokenId) :
    appendTokenResults config tokenizer sequence state tokenIds =
      appendEach config tokenizer sequence state
        ((appendTokenResults config tokenizer sequence state tokenIds).1.map
          SampleResult.tokenId) := by
  induction tokenIds generalizing state with
  | nil => rfl
  | cons t ts ih =>
    have hid : (appendTokenResult config tokenizer sequence state t).1.tokenId = t := rfl
    rw [appendTokenResults]
    dsimp only
    split_ifs
    · rfl
    · rw [List.map_cons, hid, appendEach]
      dsimp only
      rw [← ih]

/-- A sample depends on the request through what ends its generation. -/
theorem appendEach_congr {config' : GenerationConfig} {sequence' : Sequence}
    (hends : endsGeneration config' tokenizer sequence' =
      endsGeneration config tokenizer sequence) (state : ServingState δ)
    (tokenIds : List TokenId) :
    appendEach config' tokenizer sequence' state tokenIds =
      appendEach config tokenizer sequence state tokenIds := by
  induction tokenIds generalizing state with
  | nil => rfl
  | cons t ts ih =>
    have hone : appendTokenResult config' tokenizer sequence' state t =
        appendTokenResult config tokenizer sequence state t := by
      rw [appendTokenResult, hends, appendTokenResult]
    rw [appendEach, appendEach, hone]
    dsimp only
    rw [ih]

theorem spoken_of_request {sequence' : Sequence} (h : sequence'.request = sequence.request)
    (tokenIds : List TokenId) :
    spoken config tokenizer sequence' tokenIds = spoken config tokenizer sequence tokenIds :=
  appendEach_congr (endsGeneration_of_request h) _ tokenIds

/-- The samples of a chunk come after those of the tokens before. -/
theorem spoken_chunk {state state' : ServingState Unit} {ts tokenIds : List TokenId}
    {results : List SampleResult} (h : SameTokens (spoken config tokenizer sequence ts).2 state)
    (happ : appendTokenResults config tokenizer sequence state tokenIds = (results, state')) :
    (spoken config tokenizer sequence (ts ++ results.map SampleResult.tokenId)).1 =
        (spoken config tokenizer sequence ts).1 ++ results ∧
      SameTokens (spoken config tokenizer sequence (ts ++ results.map SampleResult.tokenId)).2
        state' := by
  have heach := appendTokenResults_eq_each config tokenizer sequence state tokenIds
  rw [happ] at heach
  obtain ⟨hresults, hsame⟩ := h.appendEach config tokenizer sequence
    (results.map SampleResult.tokenId)
  rw [← heach] at hresults hsame
  unfold spoken at hresults hsame ⊢
  rw [appendEach_append]
  exact ⟨congrArg _ hresults.symm, hsame⟩

end

/-! ## The samples of a served request -/

namespace BatchContext

variable {σ : Type} {ex : ModelExecutor σ} {c : BatchContext σ} {batch : Batch}

theorem samples_eq_consumed (hs : c.sequence.status ≠ .cancelled) :
    c.samples ex batch = consumed (c.returned ex batch) c.sequence := by
  unfold samples returned
  rw [if_neg hs]
  cases batch.phase with
  | prefill => rfl
  | decode =>
    dsimp only
    rcases attachKv_cases ex c batch
      (c.sequence.numPromptTokens + c.sequence.outputIds.length + 1) with
      ⟨e, env, -, -, -, hkv⟩ | ⟨batch', env, -, hkv⟩
    · rw [hkv]
      rfl
    · rw [hkv]
      dsimp only [env_setEnv]
      generalize ex.forwardDecode (c.setEnv env).sequence batch' env = d
      obtain ⟨e | output, env'⟩ := d
      · rfl
      · dsimp only
        cases normalizeSamples output with
        | error e => rfl
        | ok xs => exact consumed_blockTable xs c.sequence env'.blockTable

/-- The samples that the execution of a batch is given, if any, come from a decode. -/
theorem returned_cases (ex : ModelExecutor σ) (c : BatchContext σ) (batch : Batch) :
    c.returned ex batch = [] ∨ batch.phase = .decode ∧ ∃ batch' env output,
      env.state = c.executor ∧ (ex.forwardDecode (c.setEnv env).sequence batch' env).1 =
        .ok output ∧ normalizeSamples output = .ok (c.returned ex batch) := by
  cases hb : batch.phase with
  | prefill => exact .inl (returned_prefill hb)
  | decode =>
    rcases attachKv_cases ex c batch
      (c.sequence.numPromptTokens + c.sequence.outputIds.length + 1) with
      ⟨e, env, -, -, -, hkv⟩ | ⟨batch', env, ha, hkv⟩
    · exact .inl (returned_of_attachKv_error hkv)
    · cases he : ex.forwardDecode (c.setEnv env).sequence batch' env with
      | mk o env' =>
        rw [returned_of_forwardDecode hb hkv he]
        obtain e | output := o
        · exact .inl rfl
        · cases hn : normalizeSamples output with
          | error e =>
            left
            simp [Except.toOption, hn]
          | ok xs =>
            refine .inr ⟨rfl, batch', env, output, ha.state, by rw [he], ?_⟩
            simp [Except.toOption, hn]

end BatchContext

namespace Simulation

variable {σ : Type} {S : Simulation σ} {ex : ModelExecutor σ}
  {refusal : List TokenId → Option PyError} {noRoom : PyError}

/-- The samples of a decode come after those of the tokens before. -/
structure Speaks (S : Simulation σ) (ex : ModelExecutor σ) (R : σ → Sequence → Prop)
    (f : Sequence → List SampleResult) : Prop where
  congr : ∀ {q q' : Sequence}, q'.request = q.request → q'.outputIds = q.outputIds → f q' = f q
  decoded : ∀ (q : Sequence) (batch : Batch) (env : ExecutorEnv σ) (output : DecodeOutput)
    (xs : List SampleResult), S.About q → S.Tracks env.state q →
    q.numScheduledTokens = q.inputIds.length → R env.state q →
    (ex.forwardDecode q batch env).1 = .ok output → normalizeSamples output = .ok xs →
    f { q with outputIds := q.outputIds ++ xs.map SampleResult.tokenId } = f q ++ xs

variable {R : σ → Sequence → Prop} {f : Sequence → List SampleResult} {c c' : BatchContext σ}
  {batch : Batch} {r : Except PyError (List Text)}

/-- A batch adds the samples that it consumes. -/
theorem Speaks.executed (hf : Speaks S ex R f) (hR : Preserves S ex R)
    (hS : S.Serves ex refusal noRoom) (hx : c.executeBatch ex batch = (r, c'))
    {sch : InteractiveScheduler} (hb : sch.buildBatch none c.sequence = .ok batch)
    (habout : S.About c.sequence) (hrunning : c.sequence.status = .running)
    (ht : S.Tracks c.executor c.sequence) (hc : R c.executor c.sequence) :
    f c'.sequence = f c.sequence ++ c.samples ex batch := by
  have hlive : c.sequence.isTerminal = false := by
    rw [Sequence.isTerminal, hrunning]
    rfl
  have hreq : c'.sequence.request = c.sequence.request := (BatchContext.executed_of_eq hx).request
  obtain ⟨hout, -⟩ := BatchContext.executeBatch_outputIds hlive hx
  rw [BatchContext.samples_eq_consumed (by rw [hrunning]; decide)]
  rcases BatchContext.returned_cases ex c batch with
    hnil | ⟨hphase, batch', env, output, hstate, he, hn⟩
  · rw [hnil, consumed, List.map_nil, List.append_nil] at hout
    rw [hnil, consumed, List.append_nil]
    exact hf.congr hreq hout
  · have habout' := S.about_of_request (c.request_setEnv env) habout
    have ht' := ht.setEnv hstate
    have hdone := ht.prefilled hb hphase
    have hR' : R env.state (c.setEnv env).sequence := by
      rw [hstate]
      exact hR.congr (c.request_setEnv env) rfl hc
    have hadds := hf.decoded _ batch' env output _ habout' ht' hdone hR' he hn
    have hok := hS.decodes _ batch' env habout' ht' hdone
    rw [he] at hok
    obtain ⟨xs, hxs, -, hchunk, -⟩ := hok
    obtain rfl := Except.ok.inj (hn.symm.trans hxs)
    rw [stop_of_request (c.request_setEnv env)] at hchunk
    obtain ⟨hall, -⟩ := Chunk.consumed hlive hchunk
    rw [hall] at hout ⊢
    rw [hf.congr (c.request_setEnv env) rfl] at hadds
    rw [← hadds]
    exact hf.congr hreq hout

/-- A turn adds the samples that it consumes. -/
theorem Alone.samples {id : SeqId} {q₀ q q' : Sequence} {s : ServerState σ}
    (h : S.Alone refusal noRoom id q₀ s) (hf : Speaks S ex R f) (hR : Preserves S ex R)
    (hS : S.Serves ex refusal noRoom) (habout : S.About q₀)
    (hq : s.runtime.scheduler.get id = some q) (hkept : R s.runtime.executor q)
    (hq' : (s.step ex (.resume id)).runtime.scheduler.get id = some q') :
    f q' = f q ++ s.samples ex id (.resume id) := by
  have hwf := h.sound.runtime.wellFormed
  have hid : q.seqId = id := hwf.seqId_eq _ _ hq
  have hreq : q.request = q₀.request := by
    obtain ⟨q₁, hq₁, hreq, -⟩ := h.stage
    rwa [Option.some.inj (hq.symm.trans hq₁)]
  have hres := ServerState.resumed ex s hwf id
  simp only [ServerState.step] at hq'
  generalize s.resume ex id = s' at hres hq'
  have hput : ∀ {sch : InteractiveScheduler} {t : Sequence}, t.seqId = id → sch.get id = some q' →
      sch = s.runtime.scheduler.put t → t = q' := by
    rintro sch t ht hget rfl
    rw [← ht, InteractiveScheduler.get_put] at hget
    exact Option.some.inj hget
  cases hres with
  | idle hidle =>
    obtain rfl := Option.some.inj (hq.symm.trans hq')
    rw [ServerState.samples_of_idle id hidle, List.append_nil]
  | emitted hrest =>
    obtain rfl := Option.some.inj (hq.symm.trans hq')
    rw [ServerState.samples_of_idle id (.inr (.inl (by simp [hrest]))), List.append_nil]
  | @drained u hu hdone =>
    obtain rfl := Option.some.inj (hq.symm.trans hu)
    obtain ⟨b, hcore, -⟩ := RuntimeCore.finishSequence_core s.runtime q (hid ▸ hq)
    obtain rfl := hput (t := RuntimeCore.withAppended q b) hid hq' hcore.scheduler
    rw [ServerState.samples_of_terminal id hq hdone, List.append_nil]
    exact hf.congr rfl rfl
  | @buildFailed u sel e hu hlive hloop hsel hb =>
    obtain rfl := Option.some.inj (hq.symm.trans hu)
    obtain rfl := Option.some.inj ((h.selected hq hlive).symm.trans hsel)
    obtain rfl := hput (t := q.scheduled) hid hq' rfl
    rw [ServerState.samples_of_buildFailed id hsel hb, List.append_nil]
    exact hf.congr rfl rfl
  | @executed u sel batch r c hu hlive hloop hsel hb hx =>
    obtain rfl := Option.some.inj (hq.symm.trans hu)
    obtain rfl := Option.some.inj ((h.selected hq hlive).symm.trans hsel)
    have hsame : q.scheduled.request = q.request := rfl
    have habout' := S.about_of_request hreq habout
    obtain rfl := hput (t := c.sequence)
      ((BatchContext.executed_of_eq hx).seqId.trans hid) hq' rfl
    rw [ServerState.samples_executed hq hlive hloop hsel hb, if_pos hid.symm]
    have hadds := hf.executed hR hS hx hb (S.about_of_request hsame habout') rfl
      ((h.tracked.live q hq habout' hlive).congr hsame rfl rfl) (hR.congr hsame rfl hkept)
    rw [hadds]
    exact congrArg (· ++ _) (hf.congr hsame rfl)

end Simulation

namespace ServerState

variable {σ : Type} (ex : ModelExecutor σ)

/-- The samples consumed for `id` over a run, in order. -/
def samplesAlong (id : SeqId) : ServerState σ → List Event → List SampleResult
  | _, [] => []
  | s, e :: es => s.samples ex id e ++ samplesAlong id (s.step ex e) es

theorem samplesAlong_concat (id : SeqId) (s : ServerState σ) (es : List Event) (e : Event) :
    samplesAlong ex id s (es ++ [e]) =
      samplesAlong ex id s es ++ (Transition.run (step ex) s es).samples ex id e := by
  induction es generalizing s with
  | nil => simp [samplesAlong]
  | cons e' es ih => rw [List.cons_append, samplesAlong, ih, samplesAlong, List.append_assoc]; rfl

end ServerState

section

variable {σ : Type} (ex : ModelExecutor σ) (config : RuntimeConfig) (st : σ) (request : Request)

/-- The samples that a request served alone is given in so many turns. -/
def servedSamples (id : SeqId) (turns : ℕ) : List SampleResult :=
  ServerState.samplesAlong ex id (ServerState.init config st)
    (.addRequest request :: List.replicate turns (.resume id))

variable {ex config st request} {S : Simulation σ}
  {refusal : List TokenId → Option PyError} {noRoom : PyError}

/-- A request that is served alone gets the samples of its tokens. -/
theorem servedSamples_eq {R : σ → Sequence → Prop} {f : Sequence → List SampleResult}
    (hf : Simulation.Speaks S ex R f) (hR : Simulation.Preserves S ex R)
    (hS : S.Serves ex refusal noRoom) (hshared : S.Shared st) {id : SeqId}
    (habsent : S.Absent st id)
    (hadd : ((RuntimeCore.create config st).addRequest ex request).1 = .ok id) {q₀ : Sequence}
    (hq₀ : (served ex config st request id 0).runtime.scheduler.get id = some q₀)
    (habout : S.About q₀) (hzero : R (served ex config st request id 0).runtime.executor q₀)
    (hnone : f q₀ = []) (turns : ℕ) {q : Sequence}
    (hq : (served ex config st request id turns).runtime.scheduler.get id = some q) :
    servedSamples ex config st request id turns = f q := by
  induction turns generalizing q with
  | zero =>
    obtain rfl : q₀ = q := Option.some.inj (hq₀.symm.trans hq)
    exact hnone.symm
  | succ turns ih =>
    have halone := served_alone hS hshared habsent hadd hq₀ (fun _ => habout) turns
    obtain ⟨q₁, hq₁, -⟩ := halone.stage
    rw [served_succ] at hq
    have hadds := halone.samples hf hR hS habout hq₁
      (served_preserves hR hS hshared habsent hadd hq₀ habout hzero turns hq₁) hq
    rw [hadds, ← ih hq₁, servedSamples, List.replicate_succ', ← List.cons_append,
      ServerState.samplesAlong_concat]
    rfl

/-- A request with an empty prompt gets none. -/
theorem servedSamples_empty (hS : S.Serves ex refusal noRoom) (hshared : S.Shared st) {id : SeqId}
    (habsent : S.Absent st id)
    (hadd : ((RuntimeCore.create config st).addRequest ex request).1 = .ok id) {q₀ : Sequence}
    (hq₀ : (served ex config st request id 0).runtime.scheduler.get id = some q₀)
    (hin : q₀.inputIds = []) (turns : ℕ) : servedSamples ex config st request id turns = [] := by
  induction turns with
  | zero => rfl
  | succ turns ih =>
    have halone := served_alone hS hshared habsent hadd hq₀ (fun hne => absurd hin hne) turns
    obtain ⟨q, hq, hreq, hstage⟩ := halone.stage
    have hempty : q.inputIds = [] := (Sequence.inputIds_of_request hreq).trans hin
    rw [servedSamples, List.replicate_succ', ← List.cons_append,
      ServerState.samplesAlong_concat]
    refine List.append_eq_nil_iff.2 ⟨ih, ServerState.samples_idle id ?_⟩
    intro q' sel batch hq' hlive hloop hsel hb
    obtain rfl := Option.some.inj (hq.symm.trans hq')
    obtain rfl := Option.some.inj ((halone.selected hq hlive).symm.trans hsel)
    have hprompt : q.numPromptTokens = q.inputIds.length := by
      obtain ⟨sessionId, inputIds, hget, -⟩ := served_zero hS.uncached hadd
      obtain rfl := Option.some.inj (hq₀.symm.trans hget)
      rw [Sequence.numPromptTokens_of_request hreq, Sequence.inputIds_of_request hreq]
      rfl
    have hout : q.outputIds = [] := by
      cases hstage with
      | live _ _ hnil => exact hnil hempty
      | finished _ _ hne => exact absurd hempty hne
      | ended hout =>
        have hturns := hout.turns
        have hloop' : ((served ex config st request id turns).streams id).phase = .loop := hloop
        rw [hloop'] at hturns
        cases hturns
    rw [Simulation.buildBatch_empty (q := q.scheduled) _ hempty hout hprompt] at hb
    cases hb

end

namespace CudaGraphQwen3Executor

variable {E D : Type} {ex : CudaGraphQwen3Executor E} {slot : List TokenId → E}
  {P : List TokenId → Prop}

/-- The serving state of a request is what its tokens leave. -/
def Spoken (ex : CudaGraphQwen3Executor E) (st : GraphState E D) (q : Sequence) : Prop :=
  ∀ state, st.states q.seqId = some state →
    SameTokens (spoken ex.config ex.tokenizer q q.outputIds).2 state

/-- A decode raises and leaves the serving state, or returns the samples of a chunk of tokens. -/
theorem forwardDecode_chunk {q : Sequence} (batch : Batch) {env : Env E D}
    (habout : (ex.graphSimulation slot P D).About q)
    (h : (ex.graphSimulation slot P D).Tracks env.state q)
    (hdone : q.numScheduledTokens = q.inputIds.length) :
    ∃ state, env.state.states q.seqId = some state ∧
      ((∃ e, (ex.forwardDecode q batch env).1 = .error e ∧
          (ex.forwardDecode q batch env).2.state.states q.seqId = some state) ∨
        ∃ output xs state₁ tokenIds state', (ex.forwardDecode q batch env).1 = .ok output ∧
          normalizeSamples output = .ok xs ∧ SameTokens state state₁ ∧
          appendTokenResults ex.config ex.tokenizer q state₁ tokenIds = (xs, state') ∧
          (ex.forwardDecode q batch env).2.state.states q.seqId =
            if state'.finished then none else some state') := by
  have hholds : ex.HasState slot P env.state q := h.holds
  obtain ⟨state, hst, hs⟩ := hholds.holds habout.2.1 hdone
  have hensure : env.state.states.ensure q = state := by
    rw [ServingStates.ensure, hst, Option.getD_some]
  have hpending := hs.pending
  have hgen := hs.generated
  refine ⟨state, hst, ?_⟩
  unfold forwardDecode
  rw [hensure]
  dsimp only
  rw [if_neg (by simp [hs.finished])]
  cases hp : state.pendingTokenId with
  | some t =>
    exact .inr ⟨_, _, { state with pendingTokenId := none }, [t], _, rfl, rfl,
      ⟨rfl, rfl, rfl, rfl⟩, appendTokenResults_singleton _ t, Function.update_self _ _ _⟩
  | none =>
    have hne : q.outputIds ≠ [] := by
      intro hnil
      rw [hp, pendingToken, if_pos ⟨hnil, hdone⟩] at hpending
      cases hpending
    rcases List.eq_nil_or_concat' q.outputIds with hnil | ⟨us, t, hout⟩
    · exact absurd hnil hne
    rw [hgen, hout, List.getLast?_concat]
    dsimp only
    split_ifs
    · refine .inl ⟨_, rfl, ?_⟩
      simp [GraphState.store, ServingStates.store, hs.finished]
    · exact .inr ⟨_, _, state, [_], _, rfl, rfl, .refl state, appendTokenResults_singleton _ _,
        Function.update_self _ _ _⟩
    · exact .inr ⟨_, _, state, _, _, rfl, rfl, .refl state, rfl, Function.update_self _ _ _⟩

variable (ex) in
/-- A prefill keeps the tokens of the serving state. -/
theorem forwardPrefill_tokens (q : Sequence) (batch : Batch) (env : Env E D) :
    (ex.forwardPrefill q batch env).2.state.states q.seqId = env.state.states q.seqId ∨
      ∀ state, (ex.forwardPrefill q batch env).2.state.states q.seqId = some state →
        SameTokens (env.state.states.ensure q) state := by
  have hstore : ∀ (env' : Env E D) (state' : ServingState Unit),
      SameTokens (env.state.states.ensure q) state' → ∀ state,
      (GraphState.store env' q.seqId state').state.states q.seqId = some state →
        SameTokens (env.state.states.ensure q) state := by
    intro env' state' hsame state hst
    unfold GraphState.store ServingStates.store at hst
    dsimp only at hst
    rw [Function.update_self] at hst
    split_ifs at hst
    obtain rfl := Option.some.inj hst
    exact hsame
  unfold forwardPrefill
  dsimp only
  split_ifs
  · exact .inl rfl
  · exact .inr (hstore _ _ ⟨rfl, rfl, rfl, rfl⟩)
  · exact .inr (hstore _ _ ⟨rfl, rfl, rfl, rfl⟩)
  · generalize ex.runner.prefill (q.inputIds.take q.numPromptTokens) env.state.runner = r
    obtain ⟨e | logits, runner⟩ := r
    · exact .inr (hstore _ _ ⟨rfl, rfl, rfl, rfl⟩)
    · exact .inr (hstore _ _ ⟨rfl, rfl, rfl, rfl⟩)

theorem spoken_preserves :
    (ex.graphSimulation slot P D).Preserves (ex.modelExecutor D) ex.Spoken where
  congr hreq hout h := by
    rw [Spoken, Sequence.seqId_of_request hreq, hout, spoken_of_request hreq]
    exact h
  prefill q batch env habout ht h := by
    have hensure : SameTokens (spoken ex.config ex.tokenizer q q.outputIds).2
        (env.state.states.ensure q) := by
      cases hst : env.state.states q.seqId with
      | some state =>
        rw [ServingStates.ensure, hst]
        exact h state hst
      | none =>
        have hnil : q.outputIds = [] := by
          by_contra hne
          have hholds : ex.HasState slot P env.state q := ht.holds
          obtain ⟨state, hst', -⟩ := hholds.holds habout.2.1 (ht.outputs hne)
          rw [hst] at hst'
          cases hst'
        rw [hnil, ServingStates.ensure, hst]
        exact ⟨rfl, rfl, rfl, rfl⟩
    intro state hst
    rcases ex.forwardPrefill_tokens q batch env with hsame | hsame
    · exact h state (hsame ▸ hst)
    · exact hensure.trans (hsame state hst)
  decodeFailed q batch env e habout ht hdone h he := by
    obtain ⟨state, hst, ⟨e', -, hst'⟩ | ⟨output, _, _, _, _, hok, -⟩⟩ :=
      forwardDecode_chunk batch habout ht hdone
    · intro state' hstate'
      obtain rfl := Option.some.inj (hst'.symm.trans hstate')
      exact h state hst
    · have he' : (ex.forwardDecode q batch env).1 = .error e := he
      rw [hok] at he'
      cases he'
  decoded q batch env output xs habout ht hdone h he hxs := by
    have he' : (ex.forwardDecode q batch env).1 = .ok output := he
    obtain ⟨state, hst, ⟨e', herr, -⟩ | ⟨output', xs', state₁, tokenIds, state', hok, hxs', hsame,
      happ, hst'⟩⟩ := forwardDecode_chunk batch habout ht hdone
    · rw [herr] at he'
      cases he'
    · obtain rfl := Except.ok.inj (hok.symm.trans he')
      obtain rfl := Except.ok.inj (hxs'.symm.trans hxs)
      obtain ⟨-, hafter⟩ := spoken_chunk ((h state hst).trans hsame) happ
      intro state'' hstate''
      have hstored : (if state'.finished then none else some state') = some state'' :=
        hst'.symm.trans hstate''
      split_ifs at hstored
      obtain rfl := Option.some.inj hstored
      rw [spoken_of_request (by rfl : Sequence.request _ = q.request)]
      exact hafter

theorem speaks_spoken : (ex.graphSimulation slot P D).Speaks (ex.modelExecutor D) ex.Spoken
    (fun q => (spoken ex.config ex.tokenizer q q.outputIds).1) where
  congr hreq hout := by
    rw [spoken_of_request hreq, hout]
  decoded q batch env output xs habout ht hdone h he hxs := by
    have he' : (ex.forwardDecode q batch env).1 = .ok output := he
    obtain ⟨state, hst, ⟨e', herr, -⟩ | ⟨output', xs', state₁, tokenIds, state', hok, hxs', hsame,
      happ, -⟩⟩ := forwardDecode_chunk batch habout ht hdone
    · rw [herr] at he'
      cases he'
    · obtain rfl := Except.ok.inj (hok.symm.trans he')
      obtain rfl := Except.ok.inj (hxs'.symm.trans hxs)
      obtain ⟨hadds, -⟩ := spoken_chunk ((h state hst).trans hsame) happ
      rw [spoken_of_request (by rfl : Sequence.request _ = q.request)]
      exact hadds

/-! ## Two sizes of chunks -/

/-- The executor with chunks of another size. -/
def withChunk (ex : CudaGraphQwen3Executor E) (decodeChunk : ℤ) : CudaGraphQwen3Executor E :=
  { ex with config := { ex.config with decodeChunk } }

variable (ex) in
theorem addRequest_withChunk (k₁ k₂ : ℤ) (rt : RuntimeCore (GraphState E D)) (request : Request) :
    rt.addRequest ((ex.withChunk k₁).modelExecutor D) request =
      rt.addRequest ((ex.withChunk k₂).modelExecutor D) request := by
  unfold RuntimeCore.addRequest
  dsimp only [modelExecutor, withChunk]
  rfl

/-- How a request ends does not depend on the chunks. -/
theorem outcome_withChunk {k₁ k₂ : ℤ} {q : Sequence} {ts : List TokenId}
    {status : SequenceStatus} {phase : StreamPhase}
    (h : ((ex.withChunk k₁).graphSimulation slot P D).Outcome (ex.withChunk k₁).refusal noRoom q ts
      status phase) :
    ((ex.withChunk k₂).graphSimulation slot P D).Outcome (ex.withChunk k₂).refusal noRoom q ts
      status phase := by
  cases h with
  | empty h => exact .empty h
  | refused hne h => exact .refused hne h
  | finished hne h hdone => exact .finished hne h hdone
  | exhausted hne h hrun hlen => exact .exhausted hne h hrun hlen

/-- A greedy request that is served alone over any arena gets the same samples, so the same
tokens, texts and end, and raises the same error after as many tokens, whatever the size of the
chunks. -/
theorem served_eq_chunk (ex : CudaGraphQwen3Executor E) (k₁ k₂ : ℤ) (config : RuntimeConfig)
    (st : GraphState E D) (request : Request) (hgreedy : request.temperature ≤ 0) (id : SeqId)
    (hfresh : st.states id = none)
    (hadd : ((RuntimeCore.create config st).addRequest ((ex.withChunk k₁).modelExecutor D)
      request).1 = .ok id) :
    ∃ N, ∀ n ≥ N, ∀ m ≥ N, ∃ q q',
      (served ((ex.withChunk k₁).modelExecutor D) config st request id
        n).runtime.scheduler.get id = some q ∧
      (served ((ex.withChunk k₂).modelExecutor D) config st request id
        m).runtime.scheduler.get id = some q' ∧
      servedSamples ((ex.withChunk k₁).modelExecutor D) config st request id n =
        servedSamples ((ex.withChunk k₂).modelExecutor D) config st request id m ∧
      q.outputIds = q'.outputIds ∧ q.status = q'.status ∧
      ((served ((ex.withChunk k₁).modelExecutor D) config st request id n).streams id).phase =
        ((served ((ex.withChunk k₂).modelExecutor D) config st request id
          m).streams id).phase ∧
      ((served ((ex.withChunk k₁).modelExecutor D) config st request id
        n).streams id).phase.turns = 0 := by
  let slot := SpecCudaGraphQwen3Executor.slotOf ex st.runner.kv
  let S₁ := (ex.withChunk k₁).graphSimulation slot (fun _ => True) D
  let S₂ := (ex.withChunk k₂).graphSimulation slot (fun _ => True) D
  have hS₁ : S₁.Serves ((ex.withChunk k₁).modelExecutor D) (ex.withChunk k₁).refusal noRoom :=
    (ex.withChunk k₁).serves _ _ D
  have hS₂ : S₂.Serves ((ex.withChunk k₂).modelExecutor D) (ex.withChunk k₂).refusal noRoom :=
    (ex.withChunk k₂).serves _ _ D
  have hadd' : ((RuntimeCore.create config st).addRequest ((ex.withChunk k₂).modelExecutor D)
      request).1 = .ok id := ex.addRequest_withChunk k₁ k₂ _ request ▸ hadd
  obtain ⟨sessionId, inputIds, hq₀, -⟩ := served_zero (by rfl) hadd
  have hq₀' : (served ((ex.withChunk k₂).modelExecutor D) config st request id
      0).runtime.scheduler.get id = some (request.sequence id sessionId inputIds
        { matchedTokens := 0, pages := [] } 0) := by
    have hzero : ∀ k, (served ((ex.withChunk k).modelExecutor D) config st request id 0).runtime =
      ((RuntimeCore.create config st).addRequest ((ex.withChunk k).modelExecutor D) request).2 :=
        fun _ => rfl
    rw [hzero, ex.addRequest_withChunk k₂ k₁, ← hzero]
    exact hq₀
  have habsent₁ : S₁.Absent st id :=
    ⟨hfresh, fun prompt _ => SpecCudaGraphQwen3Executor.slotOk_slotOf _ _ prompt⟩
  have habsent₂ : S₂.Absent st id :=
    ⟨hfresh, fun prompt _ => SpecCudaGraphQwen3Executor.slotOk_slotOf _ _ prompt⟩
  have habout : inputIds ≠ [] → S₁.About (request.sequence id sessionId inputIds
      { matchedTokens := 0, pages := [] } 0) := fun hne => ⟨hgreedy, hne, trivial⟩
  obtain ⟨N, t, ht, q, hq, hreq, hout⟩ := served_settles hS₁ trivial habsent₁ hadd hq₀ habout
  obtain ⟨N', t', ht', q', hq', hreq', hout'⟩ := served_settles hS₂ trivial habsent₂ hadd' hq₀'
    habout
  obtain ⟨houtputs, hstatus, hphase⟩ := (outcome_withChunk hout).unique hout'
  refine ⟨max N N', fun n hn m hm => ?_⟩
  have hn := ht n (le_of_max_le_left hn)
  have hm := ht' m (le_of_max_le_right hm)
  refine ⟨q, q', by rw [hn, hq], by rw [hm, hq'], ?_, houtputs, hstatus, by rw [hn, hm, hphase],
    by rw [hn]; exact hout.turns⟩
  by_cases hin : inputIds = []
  · rw [servedSamples_empty hS₁ trivial habsent₁ hadd hq₀ hin,
      servedSamples_empty hS₂ trivial habsent₂ hadd' hq₀' hin]
  · -- both runs get the samples of the same tokens
    have hzero : ∀ k, (ex.withChunk k).Spoken st (request.sequence id sessionId inputIds
        { matchedTokens := 0, pages := [] } 0) := by
      intro k state hstate
      rw [Request.sequence_seqId, hfresh] at hstate
      cases hstate
    rw [← hn] at hq
    rw [← hm] at hq'
    have h₁ := servedSamples_eq speaks_spoken spoken_preserves hS₁ trivial habsent₁ hadd hq₀
      (habout hin) (by rw [served_zero_executor]; exact hzero k₁) rfl n hq
    have h₂ := servedSamples_eq speaks_spoken spoken_preserves hS₂ trivial habsent₂ hadd' hq₀'
      (habout hin) (by rw [served_zero_executor]; exact hzero k₂) rfl m hq'
    have hends : endsGeneration (ex.withChunk k₁).config (ex.withChunk k₁).tokenizer q =
        endsGeneration (ex.withChunk k₂).config (ex.withChunk k₂).tokenizer q' :=
      endsGeneration_of_request (hreq.trans hreq'.symm)
    rw [h₁, h₂, houtputs]
    exact congrArg Prod.fst (appendEach_congr hends _ q'.outputIds)

/-- Chunks of one and of three tokens, for a request of five. -/
theorem served_eq_chunk_greedyRequest : ∃ N, ∀ n ≥ N, ∀ m ≥ N, ∃ q q',
    (served ((sumExecutor.withChunk 1).modelExecutor Unit) ServerState.smallConfig
      { runner := { kv := fun _ => 3 }, draft := { kv := fun _ => () } } (greedyRequest "a") 0
        n).runtime.scheduler.get 0 = some q ∧
    (served ((sumExecutor.withChunk 3).modelExecutor Unit) ServerState.smallConfig
      { runner := { kv := fun _ => 3 }, draft := { kv := fun _ => () } } (greedyRequest "a") 0
        m).runtime.scheduler.get 0 = some q' ∧
    servedSamples ((sumExecutor.withChunk 1).modelExecutor Unit) ServerState.smallConfig
        { runner := { kv := fun _ => 3 }, draft := { kv := fun _ => () } } (greedyRequest "a") 0 n =
      servedSamples ((sumExecutor.withChunk 3).modelExecutor Unit) ServerState.smallConfig
        { runner := { kv := fun _ => 3 }, draft := { kv := fun _ => () } } (greedyRequest "a") 0
          m ∧
    q.outputIds = q'.outputIds ∧ q.status = q'.status ∧
    ((served ((sumExecutor.withChunk 1).modelExecutor Unit) ServerState.smallConfig
      { runner := { kv := fun _ => 3 }, draft := { kv := fun _ => () } } (greedyRequest "a") 0
        n).streams 0).phase =
      ((served ((sumExecutor.withChunk 3).modelExecutor Unit) ServerState.smallConfig
        { runner := { kv := fun _ => 3 }, draft := { kv := fun _ => () } } (greedyRequest "a") 0
          m).streams 0).phase ∧
    ((served ((sumExecutor.withChunk 1).modelExecutor Unit) ServerState.smallConfig
      { runner := { kv := fun _ => 3 }, draft := { kv := fun _ => () } } (greedyRequest "a") 0
        n).streams 0).phase.turns = 0 :=
  served_eq_chunk sumExecutor 1 3 ServerState.smallConfig _ (greedyRequest "a") le_rfl 0 rfl rfl

end CudaGraphQwen3Executor

end SoloRT
