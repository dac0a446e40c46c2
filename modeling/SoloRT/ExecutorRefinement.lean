import SoloRT.Server

/-!
# Executors that stand for each other

The runtime sees an executor only through the protocol `ModelExecutor`. If an executor returns what
another one returns in every state that stands for one of its own (`ModelExecutor.Refines`), a
server over the first cannot be told from a server over the second : after the same events they
agree on all but the states of the executors, and these stand for each other again
(`run_withExecutor`).
-/

namespace SoloRT

variable {σ τ : Type}

/-! ## The same with another executor state -/

def ExecutorEnv.withState (env : ExecutorEnv σ) (t : τ) : ExecutorEnv τ :=
  ⟨t, env.kvCache, env.blockTable⟩

def BatchContext.withExecutor (c : BatchContext σ) (t : τ) : BatchContext τ :=
  ⟨c.sequence, c.kvCache, c.prefixCache, t, c.metrics, c.now⟩

def RuntimeCore.withExecutor (rt : RuntimeCore σ) (t : τ) : RuntimeCore τ :=
  { scheduler := rt.scheduler
    kvCache := rt.kvCache
    prefixCache := rt.prefixCache
    executor := t
    sessions := rt.sessions
    metrics := rt.metrics
    activeBySession := rt.activeBySession
    nextUuid := rt.nextUuid
    now := rt.now }

def ServerState.withExecutor (s : ServerState σ) (t : τ) : ServerState τ where
  runtime := s.runtime.withExecutor t
  streams := s.streams

/-- `ex'` returns what `ex` returns in a state that it stands for by `R`. -/
structure ModelExecutor.Refines (ex : ModelExecutor σ) (ex' : ModelExecutor τ) (R : σ → τ → Prop) :
    Prop where
  supportsPrefixCache : ex'.supportsPrefixCache = ex.supportsPrefixCache
  usesPagedKv : ex'.usesPagedKv = ex.usesPagedKv
  tokenizeMessages : ex'.tokenizeMessages = ex.tokenizeMessages
  forwardPrefill : ∀ sequence batch env t, R env.state t → ∃ t',
    ex'.forwardPrefill sequence batch (env.withState t) =
        ((ex.forwardPrefill sequence batch env).1,
          (ex.forwardPrefill sequence batch env).2.withState t') ∧
      R (ex.forwardPrefill sequence batch env).2.state t'
  forwardDecode : ∀ sequence batch env t, R env.state t → ∃ t',
    ex'.forwardDecode sequence batch (env.withState t) =
        ((ex.forwardDecode sequence batch env).1,
          (ex.forwardDecode sequence batch env).2.withState t') ∧
      R (ex.forwardDecode sequence batch env).2.state t'

/-! ## A batch -/

namespace BatchContext

variable {ex : ModelExecutor σ} {ex' : ModelExecutor τ} {R : σ → τ → Prop} {c : BatchContext σ}
  {t : τ}

@[simp] theorem sequence_withExecutor (c : BatchContext σ) (t : τ) :
    (c.withExecutor t).sequence = c.sequence := rfl

@[simp] theorem env_withExecutor (c : BatchContext σ) (t : τ) :
    (c.withExecutor t).env = c.env.withState t := rfl

theorem attachKv_executor (ex : ModelExecutor σ) (c : BatchContext σ) (batch : Batch) (n : ℕ) :
    (c.attachKv ex batch n).2.executor = c.executor := by
  rcases attachKv_cases ex c batch n with ⟨e, env, hstate, -, -, h⟩ | ⟨batch', env, ha, h⟩
  · rw [h]
    exact hstate
  · rw [h]
    exact ha.state

theorem attachKv_withExecutor (h : ex.Refines ex' R) (c : BatchContext σ) (batch : Batch) (n : ℕ)
    (t : τ) : (c.withExecutor t).attachKv ex' batch n =
      ((c.attachKv ex batch n).1, (c.attachKv ex batch n).2.withExecutor t) := by
  unfold attachKv
  rw [h.usesPagedKv]
  dsimp only [withExecutor]
  split_ifs
  · generalize c.kvCache.ensureCapacity c.sequence.blockTable n = r
    obtain ⟨e | pages, kv, table⟩ := r
    · rfl
    · dsimp only
      cases kv.metadataFor table n batch.positions <;> rfl
  · rfl

theorem cachePrefix_withExecutor (h : ex.Refines ex' R) (c : BatchContext σ) (t : τ) :
    (c.withExecutor t).cachePrefix ex' =
      ((c.cachePrefix ex).1, (c.cachePrefix ex).2.withExecutor t) := by
  unfold cachePrefix
  rw [h.supportsPrefixCache]
  by_cases hc : c.sequence.isPrefillComplete = true ∧ c.sequence.cacheHandle = none ∧
      ex.supportsPrefixCache = true
  · rw [if_pos hc]
    refine (if_pos hc).trans ?_
    dsimp only [withExecutor]
    generalize c.prefixCache.insert c.now c.sequence.inputIds c.sequence.blockTable true = r
    obtain ⟨e | entry, prefixCache⟩ := r <;> rfl
  · rw [if_neg hc]
    exact if_neg hc

theorem executePrefill_withExecutor (h : ex.Refines ex' R) (hR : R c.executor t) (batch : Batch) :
    ∃ t', (c.withExecutor t).executePrefill ex' batch =
        ((c.executePrefill ex batch).1, (c.executePrefill ex batch).2.withExecutor t') ∧
      R (c.executePrefill ex batch).2.executor t' := by
  have hstate := attachKv_executor ex c batch
    (c.sequence.numCachedTokens + c.sequence.numScheduledTokens + batch.inputIds.length)
  have hattach := attachKv_withExecutor h c batch
    (c.sequence.numCachedTokens + c.sequence.numScheduledTokens + batch.inputIds.length) t
  unfold executePrefill
  dsimp only [sequence_withExecutor]
  rw [hattach]
  generalize c.attachKv ex batch
    (c.sequence.numCachedTokens + c.sequence.numScheduledTokens + batch.inputIds.length) = r
    at hstate ⊢
  obtain ⟨e | batch', c₁⟩ := r
  · exact ⟨t, rfl, hstate ▸ hR⟩
  · obtain ⟨t', hforward, hR'⟩ := h.forwardPrefill c₁.sequence batch' c₁.env t
      (show R c₁.executor t from hstate ▸ hR)
    dsimp only [sequence_withExecutor, env_withExecutor]
    rw [hforward]
    generalize ex.forwardPrefill c₁.sequence batch' c₁.env = r at hR' ⊢
    obtain ⟨e | u, env⟩ := r
    · exact ⟨t', rfl, hR'⟩
    · let c₂ := { c₁.setEnv env with
        sequence := (c₁.setEnv env).sequence.postprocessBatch batch' }
      have hexecutor : (c₂.cachePrefix ex).2.executor = env.state :=
        cachePrefix_executor Prod.mk.eta.symm
      exact ⟨t', cachePrefix_withExecutor h c₂ t', hexecutor.symm ▸ hR'⟩

theorem executeDecode_withExecutor (h : ex.Refines ex' R) (hR : R c.executor t) (batch : Batch) :
    ∃ t', (c.withExecutor t).executeDecode ex' batch =
        ((c.executeDecode ex batch).1, (c.executeDecode ex batch).2.withExecutor t') ∧
      R (c.executeDecode ex batch).2.executor t' := by
  have hstate := attachKv_executor ex c batch
    (c.sequence.numPromptTokens + c.sequence.outputIds.length + 1)
  have hattach := attachKv_withExecutor h c batch
    (c.sequence.numPromptTokens + c.sequence.outputIds.length + 1) t
  unfold executeDecode
  dsimp only [sequence_withExecutor]
  rw [hattach]
  generalize c.attachKv ex batch
    (c.sequence.numPromptTokens + c.sequence.outputIds.length + 1) = r at hstate ⊢
  obtain ⟨e | batch', c₁⟩ := r
  · exact ⟨t, rfl, hstate ▸ hR⟩
  · obtain ⟨t', hforward, hR'⟩ := h.forwardDecode c₁.sequence batch' c₁.env t
      (show R c₁.executor t from hstate ▸ hR)
    dsimp only [sequence_withExecutor, env_withExecutor]
    rw [hforward]
    generalize ex.forwardDecode c₁.sequence batch' c₁.env = r at hR' ⊢
    obtain ⟨e | output, env⟩ := r
    · exact ⟨t', rfl, hR'⟩
    · dsimp only
      cases normalizeSamples output with
      | error e => exact ⟨t', rfl, hR'⟩
      | ok samples => exact ⟨t', rfl, hR'⟩

theorem executeBatch_withExecutor (h : ex.Refines ex' R) (hR : R c.executor t) (batch : Batch) :
    ∃ t', (c.withExecutor t).executeBatch ex' batch =
        ((c.executeBatch ex batch).1, (c.executeBatch ex batch).2.withExecutor t') ∧
      R (c.executeBatch ex batch).2.executor t' := by
  unfold executeBatch
  by_cases hs : c.sequence.status = .cancelled
  · rw [if_pos hs]
    exact ⟨t, if_pos hs, hR⟩
  · rw [if_neg hs, if_neg (show ¬(c.withExecutor t).sequence.status = .cancelled from hs)]
    cases batch.phase with
    | prefill => exact executePrefill_withExecutor h hR batch
    | decode => exact executeDecode_withExecutor h hR batch

end BatchContext

/-! ## The runtime -/

namespace RuntimeCore

variable {ex : ModelExecutor σ} {ex' : ModelExecutor τ} {R : σ → τ → Prop}

@[simp] theorem scheduler_withExecutor (rt : RuntimeCore σ) (t : τ) :
    (rt.withExecutor t).scheduler = rt.scheduler := rfl

@[simp] theorem context_withExecutor (rt : RuntimeCore σ) (q : Sequence) (t : τ) :
    (rt.withExecutor t).context q = (rt.context q).withExecutor t := rfl

/-- The result of a method that does not call the executor. -/
def mapExecutor {ρ : Type} (t : τ) (r : ρ × RuntimeCore σ) : ρ × RuntimeCore τ :=
  (r.1, r.2.withExecutor t)

theorem getOrCreateSession_withExecutor (rt : RuntimeCore σ) (sessionId : Option SessionId)
    (t : τ) : (rt.withExecutor t).getOrCreateSession sessionId =
      mapExecutor t (rt.getOrCreateSession sessionId) := by
  unfold getOrCreateSession
  by_cases hid : sessionId.getD "" = ""
  · rw [if_pos hid, if_pos hid]
    dsimp only [withExecutor]
    cases rt.sessions ("sess_" ++ toString rt.nextUuid) <;> rfl
  · rw [if_neg hid, if_neg hid]
    dsimp only [withExecutor]
    cases rt.sessions (sessionId.getD "") <;> rfl

theorem addRequest_withExecutor (h : ex.Refines ex' R) (rt : RuntimeCore σ) (request : Request)
    (t : τ) : (rt.withExecutor t).addRequest ex' request =
      mapExecutor t (rt.addRequest ex request) := by
  unfold addRequest
  rw [getOrCreateSession_withExecutor, h.tokenizeMessages, h.supportsPrefixCache]
  generalize rt.getOrCreateSession request.sessionId = r
  obtain ⟨session, rt₁⟩ := r
  dsimp only [mapExecutor, appendMessages, withExecutor]
  cases ex.tokenizeMessages (session.messages ++ request.messages)
    (request.enableThinking.getD false) <;> rfl

theorem executor_addRequest (ex : ModelExecutor σ) (rt : RuntimeCore σ) (request : Request) :
    (rt.addRequest ex request).2.executor = rt.executor := by
  rcases addRequest_cases ex rt request with ⟨e, -, hcore, -⟩ |
    ⟨seqId, sessionId, inputIds, m, -, -, -, -, -, -, -, hex⟩
  · exact hcore.executor
  · exact hex

theorem clearActive_withExecutor (rt : RuntimeCore σ) (q : Sequence) (t : τ) :
    (rt.withExecutor t).clearActive q = (rt.clearActive q).withExecutor t := by
  unfold clearActive
  dsimp only [withExecutor]
  cases rt.sessions q.sessionId with
  | none => rfl
  | some session =>
    dsimp only
    split_ifs <;> rfl

theorem appendAssistantResponse_withExecutor (rt : RuntimeCore σ) (q : Sequence) (t : τ) :
    (rt.withExecutor t).appendAssistantResponse q =
      (rt.appendAssistantResponse q).withExecutor t := by
  unfold appendAssistantResponse
  dsimp only [withExecutor]
  split_ifs
  · rfl
  · rfl
  · cases rt.sessions q.sessionId <;> rfl

theorem finishSequence_withExecutor (rt : RuntimeCore σ) (q : Sequence) (t : τ) :
    (rt.withExecutor t).finishSequence q = (rt.finishSequence q).withExecutor t := by
  unfold finishSequence
  rw [clearActive_withExecutor]
  generalize rt.clearActive q = rt₁
  dsimp only
  by_cases hfin : q.status = .finished
  · rw [if_pos hfin, if_pos hfin]
    have hanswer := appendAssistantResponse_withExecutor
      { rt₁ with metrics := rt₁.metrics.finishRequest } q t
    dsimp only [withExecutor] at hanswer ⊢
    rw [hanswer]
  · rw [if_neg hfin, if_neg hfin]
    rfl

theorem executor_finishSequence (rt : RuntimeCore σ) (q : Sequence) :
    (rt.finishSequence q).executor = rt.executor := by
  have hexecutor := congrArg executor (finishSequence_withExecutor rt q rt.executor)
  exact hexecutor

theorem cancelRequest_withExecutor (rt : RuntimeCore σ) (requestId : Option SeqId)
    (sessionId : Option SessionId) (t : τ) :
    (rt.withExecutor t).cancelRequest requestId sessionId =
      mapExecutor t (rt.cancelRequest requestId sessionId) := by
  unfold cancelRequest
  dsimp only [withExecutor, mapExecutor]
  cases requestId.or (sessionId.bind rt.activeBySession) with
  | none => rfl
  | some seqId =>
    dsimp only
    generalize rt.scheduler.cancel seqId = r
    obtain ⟨_ | _, scheduler⟩ := r
    · rfl
    · dsimp only
      cases scheduler.get seqId with
      | none => rfl
      | some q =>
        exact congrArg (Prod.mk true) (finishSequence_withExecutor { rt with scheduler } q t)

theorem executor_cancelRequest (rt : RuntimeCore σ) (requestId : Option SeqId)
    (sessionId : Option SessionId) :
    (rt.cancelRequest requestId sessionId).2.executor = rt.executor := by
  have hexecutor := congrArg (fun r => r.2.executor)
    (cancelRequest_withExecutor rt requestId sessionId rt.executor)
  exact hexecutor

theorem executeBatch_withExecutor (h : ex.Refines ex' R) (rt : RuntimeCore σ) {t : τ}
    (hR : R rt.executor t) (batch : Batch) : ∃ t',
    (rt.withExecutor t).executeBatch ex' batch = mapExecutor t' (rt.executeBatch ex batch) ∧
      R (rt.executeBatch ex batch).2.executor t' := by
  unfold executeBatch
  rw [scheduler_withExecutor]
  cases rt.scheduler.get batch.seqId with
  | none => exact ⟨t, rfl, hR⟩
  | some q =>
    obtain ⟨t', hbatch, hR'⟩ :=
      BatchContext.executeBatch_withExecutor h (c := rt.context q) hR batch
    dsimp only [context_withExecutor]
    rw [hbatch]
    exact ⟨t', rfl, hR'⟩

end RuntimeCore

/-! ## The server -/

namespace ServerState

variable {ex : ModelExecutor σ} {ex' : ModelExecutor τ} {R : σ → τ → Prop}

@[simp] theorem runtime_withExecutor (s : ServerState σ) (t : τ) :
    (s.withExecutor t).runtime = s.runtime.withExecutor t := rfl

@[simp] theorem streams_withExecutor (s : ServerState σ) (t : τ) :
    (s.withExecutor t).streams = s.streams := rfl

theorem turn_withExecutor (h : ex.Refines ex' R) {s : ServerState σ} {t : τ}
    (hR : R s.runtime.executor t) (q : Sequence) : ∃ t',
    (s.withExecutor t).turn ex' q = (s.turn ex q).withExecutor t' ∧
      R (s.turn ex q).runtime.executor t' := by
  unfold turn
  dsimp only [runtime_withExecutor, streams_withExecutor, RuntimeCore.scheduler_withExecutor]
  by_cases hdone : q.isTerminal = true
  · rw [if_pos hdone, if_pos hdone, RuntimeCore.finishSequence_withExecutor]
    refine ⟨t, rfl, ?_⟩
    rw [setStream_runtime, RuntimeCore.executor_finishSequence]
    exact hR
  · rw [if_neg hdone, if_neg hdone]
    generalize s.runtime.scheduler.buildNextBatch none = r
    obtain ⟨e | _ | batch, scheduler⟩ := r
    · exact ⟨t, rfl, hR⟩
    · exact ⟨t, rfl, hR⟩
    · obtain ⟨t', hbatch, hR'⟩ := RuntimeCore.executeBatch_withExecutor h
        { s.runtime with scheduler } hR batch
      dsimp only [RuntimeCore.withExecutor] at hbatch ⊢
      rw [hbatch]
      generalize { s.runtime with scheduler }.executeBatch ex batch = r at hR' ⊢
      obtain ⟨e | texts, rt⟩ := r
      · exact ⟨t', rfl, hR'⟩
      · dsimp only [RuntimeCore.mapExecutor]
        split_ifs
        · exact ⟨t', rfl, hR'⟩
        · exact ⟨t', rfl, hR'⟩

theorem resume_withExecutor (h : ex.Refines ex' R) {s : ServerState σ} {t : τ}
    (hR : R s.runtime.executor t) (seqId : SeqId) : ∃ t',
    (s.withExecutor t).resume ex' seqId = (s.resume ex seqId).withExecutor t' ∧
      R (s.resume ex seqId).runtime.executor t' := by
  unfold resume
  dsimp only [runtime_withExecutor, streams_withExecutor, RuntimeCore.scheduler_withExecutor]
  cases s.runtime.scheduler.get seqId with
  | none => exact ⟨t, rfl, hR⟩
  | some q =>
    dsimp only
    cases (s.streams seqId).phase with
    | loop => exact turn_withExecutor h hR q
    | yielding | finished | raised | closed => exact ⟨t, rfl, hR⟩

theorem close_withExecutor (s : ServerState σ) (seqId : SeqId) (t : τ) :
    (s.withExecutor t).close seqId = (s.close seqId).withExecutor t := by
  unfold close
  dsimp only [runtime_withExecutor, streams_withExecutor, RuntimeCore.scheduler_withExecutor]
  cases s.runtime.scheduler.get seqId with
  | none => rfl
  | some q =>
    dsimp only
    cases (s.streams seqId).phase <;> rfl

/-- An event keeps two servers apart in the states of their executors only. -/
theorem step_withExecutor (h : ex.Refines ex' R) {s : ServerState σ} {t : τ}
    (hR : R s.runtime.executor t) (e : Event) : ∃ t',
    (s.withExecutor t).step ex' e = (s.step ex e).withExecutor t' ∧
      R (s.step ex e).runtime.executor t' := by
  cases e with
  | addRequest request =>
    refine ⟨t, ?_, ?_⟩
    · simp only [step, runtime_withExecutor, RuntimeCore.addRequest_withExecutor h]
      rfl
    · simp only [step, RuntimeCore.executor_addRequest]
      exact hR
  | cancelRequest requestId sessionId =>
    refine ⟨t, ?_, ?_⟩
    · simp only [step, runtime_withExecutor, RuntimeCore.cancelRequest_withExecutor]
      rfl
    · simp only [step, RuntimeCore.executor_cancelRequest]
      exact hR
  | resume seqId => exact resume_withExecutor h hR seqId
  | close seqId =>
    refine ⟨t, close_withExecutor s seqId t, ?_⟩
    rcases s.close_cases seqId with hclose | hclose <;> simp only [step, hclose]
    · exact hR
    · exact hR
  | evict | tick => exact ⟨t, rfl, hR⟩

/-- Servers over executors of which one refines the other agree after the same events on all but
the states of the executors. -/
theorem run_withExecutor (h : ex.Refines ex' R) (es : List Event) {s : ServerState σ} {t : τ}
    (hR : R s.runtime.executor t) : ∃ t',
    Transition.run (step ex') (s.withExecutor t) es =
        (Transition.run (step ex) s es).withExecutor t' ∧
      R (Transition.run (step ex) s es).runtime.executor t' := by
  induction es generalizing s t with
  | nil => exact ⟨t, rfl, hR⟩
  | cons e es ih =>
    obtain ⟨t', hstep, hR'⟩ := step_withExecutor h hR e
    obtain ⟨t'', hrun, hR''⟩ := ih hR'
    refine ⟨t'', ?_, hR''⟩
    rw [Transition.run_cons, hstep, hrun]
    rfl

end ServerState

end SoloRT
