import SoloRT.DecodeExclusion
import SoloRT.GraphPosition
import SoloRT.InStep

/-!
# Requests that share a static arena

All sequences of a graph executor share one static arena. A prefill writes it from the start and
a decode step at its position, so a request that decodes loses its entries to any other request
that has the model run in between. The executor is for a single active sequence.

What ran before the prefill of a request is overwritten by it, or hidden by the masks. So a
greedy request gets the tokens that it gets alone (`isolated`), if no other request has the model
run while it decodes (`Undisturbed`). The scheduler sees to this for the requests of the
foreground and background (`undisturbed`), and not for branches (`not_isolated_branch`). All this
is for prompts that do not fill their bucket, whose decode steps read the padding after the
prompt and no stale entry.
-/

namespace SoloRT

namespace CudaGraphQwen3Executor

variable {E D : Type} (ex : CudaGraphQwen3Executor E)

/-! ## Calls that run the model -/

/-- The call for a batch runs a forward pass of the model. -/
def RunsForward (st : GraphState E D) (q : Sequence) (batch : Batch) : Prop :=
  match batch.phase with
  | .prefill =>
    batch.inputIds ≠ [] ∧
      q.numPromptTokens ≤ (st.states.ensure q).prefilledTokenCount + batch.inputIds.length ∧
      (q.inputIds.take q.numPromptTokens).length < ex.maxLen ∧
      ex.runner.preBucket (q.inputIds.take q.numPromptTokens) ≠ none
  | .decode =>
    (st.states.ensure q).finished = false ∧ (st.states.ensure q).pendingTokenId = none ∧
      (st.states.ensure q).generatedTokenIds ≠ [] ∧
      (st.states.ensure q).promptTokenCount + (st.states.ensure q).generatedTokenIds.length <
        ex.maxLen

variable {ex} {q : Sequence} {batch : Batch} {env : Env E D}

theorem forwardPrefill_runner (hphase : batch.phase = .prefill)
    (h : ¬ex.RunsForward env.state q batch) :
    (ex.forwardPrefill q batch env).2.state.runner = env.state.runner := by
  rw [RunsForward, hphase] at h
  unfold forwardPrefill
  dsimp only
  split_ifs with hnil hmore hmax
  · rfl
  · rfl
  · rfl
  · have hbucket : ex.runner.preBucket (q.inputIds.take q.numPromptTokens) = none := by
      by_contra hsome
      exact h ⟨hnil, not_lt.1 hmore, not_le.1 hmax, hsome⟩
    rw [GraphQwen3Runner.prefill_none hbucket]
    rfl

theorem forwardDecode_runner (hphase : batch.phase = .decode)
    (h : ¬ex.RunsForward env.state q batch) :
    (ex.forwardDecode q batch env).2.state.runner = env.state.runner := by
  rw [RunsForward, hphase] at h
  unfold forwardDecode
  dsimp only
  by_cases hfin : (env.state.states.ensure q).finished = true
  · rw [if_pos hfin]
  rw [if_neg hfin]
  cases hpending : (env.state.states.ensure q).pendingTokenId with
  | some tokenId => rfl
  | none =>
    cases hlast : (env.state.states.ensure q).generatedTokenIds.getLast? with
    | none => rfl
    | some last =>
      dsimp only
      have hne : (env.state.states.ensure q).generatedTokenIds ≠ [] :=
        List.ne_nil_of_mem (List.mem_of_getLast? hlast)
      have hmax : ex.maxLen ≤ (env.state.states.ensure q).promptTokenCount +
          (env.state.states.ensure q).generatedTokenIds.length := by
        by_contra hlt
        exact h ⟨by simpa using hfin, hpending, hne, not_le.1 hlt⟩
      rw [if_pos hmax]
      rfl

/-- A batch that does not have the model run leaves the arena and the graphs alone. -/
theorem executed_runner {c c' : BatchContext (GraphState E D)} {r : Except PyError (List Text)}
    (h : BatchContext.Executed (ex.modelExecutor D) c batch r c')
    (hruns : ¬ex.RunsForward c.executor c.sequence batch) :
    c'.executor.runner = c.executor.runner := by
  -- the executor is given another page table and other metadata, and does not read them
  have hattached : ∀ {batch' : Batch} {env : Env E D},
      BatchContext.Attached (ex.modelExecutor D) c batch batch' env →
      ¬ex.RunsForward env.state (c.setEnv env).sequence batch' := by
    intro batch' env ha
    rw [RunsForward, ha.phase, ha.inputIds, ha.state]
    exact hruns
  cases h with
  | skipped => rfl
  | attachFailed hs hstate hkv hpaged => cases hpaged
  | @prefillFailed e batch' env env' hs hbp ha he =>
    have hsame := forwardPrefill_runner (ha.phase.trans hbp) (hattached ha)
    rw [show ex.forwardPrefill (c.setEnv env).sequence batch' env = (.error e, env') from he,
      ha.state] at hsame
    exact hsame
  | @prefilled batch' env env' r c' hs hbp ha he hc =>
    have hsame := forwardPrefill_runner (ha.phase.trans hbp) (hattached ha)
    rw [show ex.forwardPrefill (c.setEnv env).sequence batch' env = (.ok (), env') from he,
      ha.state] at hsame
    rw [BatchContext.cachePrefix_executor hc]
    exact hsame
  | @decodeFailed e batch' env env' o hs hbp ha he ho =>
    have hsame := forwardDecode_runner (ha.phase.trans hbp) (hattached ha)
    rw [show ex.forwardDecode (c.setEnv env).sequence batch' env = (o, env') from he,
      ha.state] at hsame
    exact hsame
  | @decoded batch' env env' o samples hs hbp ha he hn =>
    have hsame := forwardDecode_runner (ha.phase.trans hbp) (hattached ha)
    rw [show ex.forwardDecode (c.setEnv env).sequence batch' env = (.ok o, env') from he,
      ha.state] at hsame
    exact hsame

/-! ## Batches of other requests -/

variable (ex) in
/-- The prefill of the prompt leaves padding at the position after it. -/
def LeavesPadding (prompt : List TokenId) : Prop :=
  ∀ bound, ex.runner.preBucket prompt = some bound → prompt.length < bound

theorem slotOk_padEntry {prompt : List TokenId} (h : ex.LeavesPadding prompt) (kv : ℕ → E) :
    ex.SlotOk ex.runner.padEntry kv prompt :=
  fun bound hbound => if_pos (h bound hbound)

/-- A prefill writes over what others left in the arena. What it wrote is to stay. -/
theorem HasState.other {st st' : GraphState E D}
    (h : ex.HasState ex.runner.padEntry ex.LeavesPadding st q)
    (hstates : st'.states q.seqId = st.states q.seqId)
    (hrunner : q.numScheduledTokens = q.inputIds.length → st'.runner = st.runner) :
    ex.HasState ex.runner.padEntry ex.LeavesPadding st' q := by
  rcases h with ⟨h0, hnone, -⟩ | ⟨state, hst, hs⟩
  · exact .inl ⟨h0, hstates.trans hnone, fun hpad => slotOk_padEntry hpad _⟩
  · refine .inr ⟨state, hstates.trans hst, hs.prompt, hs.progress, hs.prefilled, hs.pending,
      hs.generated, hs.finished, fun _ hpad => slotOk_padEntry hpad _, hs.accepted, fun hdone => ?_⟩
    rw [hrunner hdone]
    exact hs.arena hdone

variable (ex) in
/-- The event does not have another request run the model after the prefill of `id`, before it
ends. -/
def Undisturbed (id : SeqId) (s : ServerState (GraphState E D)) (e : Event) : Prop :=
  ∀ q sel batch, s.runtime.scheduler.get id = some q → q.isTerminal = false →
    q.isPrefillComplete = true → q.inputIds ≠ [] → Simulation.Turns s e →
    s.runtime.scheduler.selectNextSequence = some sel → sel.seqId ≠ id →
    s.runtime.scheduler.buildBatch none sel.scheduled = .ok batch →
    ¬ex.RunsForward s.runtime.executor sel.scheduled batch

theorem othersOk {s : ServerState (GraphState E D)} {e : Event} {id : SeqId}
    (hwf : s.runtime.scheduler.WellFormed) (h : ex.Undisturbed id s e)
    (hturn : Simulation.Turns s e) :
    (ex.graphSimulation ex.runner.padEntry ex.LeavesPadding D).OthersOk (ex.modelExecutor D) id
      s.runtime := by
  intro sel batch r c hsel hid hb hx
  have hstates : c.executor.states id = s.runtime.executor.states id :=
    (ex.keepsStates D).executed_other hx (Ne.symm hid)
  refine ⟨fun habsent => ⟨hstates.trans habsent.1, fun prompt hpad => slotOk_padEntry hpad _⟩,
    fun q hq habout hlive ht => ?_⟩
  have hqid : q.seqId = id := hwf.seqId_eq _ _ hq
  refine HasState.other ht.holds (hqid ▸ hstates) fun hdone => ?_
  have hcomplete : q.isPrefillComplete = true := by
    rw [Sequence.isPrefillComplete_iff, ht.prompt, hdone]
    exact Nat.le_add_left _ _
  exact executed_runner hx (h q sel batch hq hlive hcomplete habout.2.1 hturn hsel hid hb)

/-- A foreground or background request is disturbed by none. -/
theorem undisturbed {s : ServerState (GraphState E D)} {id : SeqId} (hs : s.Sound)
    (hone : s.runtime.OneDecoding)
    (hkind : ∀ q, s.runtime.scheduler.get id = some q →
      q.taskKind = .foreground ∨ q.taskKind = .background) (e : Event) : ex.Undisturbed id s e := by
  intro q sel batch hq hlive hcomplete hne _ hsel hid hb
  exact absurd (hone.selected hs.runtime hq ⟨hlive, hcomplete, hkind q hq, hne⟩ hsel hb) hid

end CudaGraphQwen3Executor

/-! ## Runs -/

namespace Simulation

variable {σ : Type} (S : Simulation σ) (refusal : List TokenId → Option PyError)

/-- What a request has generated, whatever its status. -/
structure Emitted (q : Sequence) : Prop where
  empty : q.inputIds = [] → q.outputIds = [] ∧ q.status ≠ .finished
  accepted : S.About q → q.outputIds ≠ [] → refusal q.inputIds = none
  tokens : S.About q → Generation.Running (S.next q) (S.stop q) q.outputIds ∧
    q.outputIds.length ≤ S.room q ∧ q.status ≠ .finished ∨ S.IsDone q q.outputIds

variable {S refusal} {ex : ModelExecutor σ} {noRoom : PyError} {q q' : Sequence}

theorem Emitted.congr (h : S.Emitted refusal q) (hreq : q'.request = q.request)
    (hout : q'.outputIds = q.outputIds) (hfin : q'.status = .finished → q.status = .finished) :
    S.Emitted refusal q' := by
  have hin := Sequence.inputIds_of_request hreq
  refine ⟨fun hnil => ?_, fun habout => ?_, fun habout => ?_⟩
  · rw [hin] at hnil
    exact ⟨hout.trans (h.empty hnil).1, mt hfin (h.empty hnil).2⟩
  · rw [hin, hout]
    exact h.accepted (S.about_of_request hreq.symm habout)
  · rw [hout, S.next_of_request hreq, stop_of_request hreq, S.room_of_request hreq]
    exact (h.tokens (S.about_of_request hreq.symm habout)).imp
      (fun ⟨hrun, hfits, hlive⟩ => ⟨hrun, hfits, mt hfin hlive⟩) fun hdone => hdone.congr hreq

theorem Emitted.executed (hS : S.Serves ex refusal noRoom) {c c' : BatchContext σ} {batch : Batch}
    {r : Except PyError (List Text)} (h : BatchContext.Executed ex c batch r c')
    {sch : InteractiveScheduler} (hb : sch.buildBatch none c.sequence = .ok batch)
    (hne : c.sequence.inputIds ≠ []) (hrunning : c.sequence.status = .running)
    (ht : S.About c.sequence → S.Tracks c.executor c.sequence)
    {st : σ} (ht' : S.About c'.sequence → c'.sequence.isTerminal = false → S.Tracks st c'.sequence)
    (hdone : S.About c'.sequence → c'.sequence.status = .finished →
      S.IsDone c'.sequence c'.sequence.outputIds) : S.Emitted refusal c'.sequence := by
  have hin := Sequence.inputIds_of_request h.request
  have hserved : S.About c'.sequence →
      (c'.sequence.outputIds ≠ [] → refusal c'.sequence.inputIds = none) ∧
      (Generation.Running (S.next c'.sequence) (S.stop c'.sequence) c'.sequence.outputIds ∧
        c'.sequence.outputIds.length ≤ S.room c'.sequence ∧ c'.sequence.status ≠ .finished ∨
          S.IsDone c'.sequence c'.sequence.outputIds) := by
    intro habout'
    have habout := S.about_of_request h.request.symm habout'
    rcases executed_served hS h hb habout hne hrunning (ht habout) with
      ⟨-, -, hrun | ⟨hfin, hr⟩⟩ | ⟨e, -, -, hout⟩
    · have hnext := ht' habout' (by rw [Sequence.isTerminal, hrun]; rfl)
      exact ⟨fun hne' => hS.accepted _ _ habout' hnext (hnext.outputs hne'),
        .inl ⟨hnext.running, hnext.fits, by simp [hrun]⟩⟩
    · exact ⟨fun _ => hin ▸ hr, .inr (hdone habout' hfin)⟩
    · have hout' := hout.congr h.request
      generalize c'.sequence.outputIds = ts at hout'
      generalize c'.sequence.status = status at hout'
      cases hout' with
      | refused => exact ⟨fun hne' => absurd rfl hne', .inl ⟨.nil, by simp, by simp⟩⟩
      | empty => exact ⟨fun hne' => absurd rfl hne', .inl ⟨.nil, by simp, by simp⟩⟩
      | exhausted _ hr hrun hlen => exact ⟨fun _ => hr, .inl ⟨hrun, hlen.le, by simp⟩⟩
  exact ⟨fun hnil => absurd (hin ▸ hnil) hne, fun habout => (hserved habout).1,
    fun habout => (hserved habout).2⟩

/-- What a request has generated is a beginning of what it ends with. -/
theorem Emitted.outcome (h : S.Emitted refusal q) (habout : q.inputIds ≠ [] → S.About q)
    {ts : List TokenId} {status : SequenceStatus} {phase : StreamPhase}
    (hout : S.Outcome refusal noRoom q ts status phase) : q.outputIds <+: ts ∧
      (q.status = .finished → ts = q.outputIds ∧ status = .finished) := by
  cases hout with
  | empty hin =>
    obtain ⟨hnil, hlive⟩ := h.empty hin
    exact ⟨hnil ▸ List.prefix_rfl, fun hf => absurd hf hlive⟩
  | refused hne hr =>
    have hnil : q.outputIds = [] := by
      by_contra hne'
      rw [h.accepted (habout hne) hne'] at hr
      cases hr
    refine ⟨hnil ▸ List.prefix_rfl, fun hf => ?_⟩
    rcases h.tokens (habout hne) with ⟨-, -, hlive⟩ | ⟨⟨ys, -, hys, -⟩, -⟩
    · exact absurd hf hlive
    · simp [hnil] at hys
  | finished hne _ hdone =>
    rw [eq_reference_of_complete hdone.1]
    rcases h.tokens (habout hne) with ⟨hrun, -, hlive⟩ | hdone'
    · exact ⟨prefix_reference_of_running hrun, fun hf => absurd hf hlive⟩
    · rw [eq_reference_of_complete hdone'.1]
      exact ⟨List.prefix_rfl, fun _ => ⟨rfl, rfl⟩⟩
  | exhausted hne _ hrun hlen =>
    rcases h.tokens (habout hne) with ⟨hrun', hfits, hlive⟩ | ⟨hcomplete, hfits⟩
    · rw [← hlen, Nat.cast_le] at hfits
      exact ⟨List.prefix_of_prefix_length_le (prefix_reference_of_running hrun')
        (prefix_reference_of_running hrun) hfits, fun hf => absurd hf hlive⟩
    · have hlt := hrun.length_lt hcomplete
      rw [← hlen, Nat.cast_le] at hfits
      omega

/-- The request `id` in a run whose batches for others keep what the executor has for it. -/
theorem emitted_run (hS : S.Serves ex refusal noRoom) {id : SeqId}
    {P : ServerState σ → Event → Prop}
    (hP : ∀ s e, s.Sound → s.runtime.OneDecoding → P s e → Turns s e → S.OthersOk ex id s.runtime)
    (config : RuntimeConfig) {st : σ} (hshared : S.Shared st) (habsent : S.Absent st id)
    {es : List Event}
    (h : Transition.Along (ServerState.step ex) P (ServerState.init config st) es)
    (hq : (Transition.run (ServerState.step ex) (ServerState.init config st)
      es).runtime.scheduler.get id = some q) : S.Emitted refusal q := by
  have hinit : S.Tracked id (ServerState.init config st).runtime ∧
      ∀ q, (ServerState.init config st).runtime.scheduler.get id = some q →
        S.Emitted refusal q := by
    refine ⟨⟨hshared, fun _ => habsent, ?_, ?_⟩, ?_⟩ <;> simp
  have hstep : ∀ (s : ServerState σ) e, (s.Sound ∧ s.runtime.OneDecoding ∧
      S.Tracked id s.runtime ∧ ∀ q, s.runtime.scheduler.get id = some q → S.Emitted refusal q) →
      P s e → (s.step ex e).Sound ∧ (s.step ex e).runtime.OneDecoding ∧
      S.Tracked id (s.step ex e).runtime ∧
      ∀ q, (s.step ex e).runtime.scheduler.get id = some q → S.Emitted refusal q := by
    rintro s e ⟨hs, hone, ht, hem⟩ hp
    have hchange := ServerState.step_change ex s hs.runtime.wellFormed e
    have ht' := ht.step hS.toSimulates hs e fun hturn =>
      ⟨hS.decodesOk id s.runtime, hP s e hs hone hp hturn⟩
    refine ⟨hs.step e, hone.change hs.runtime hS.uncached hchange, ht', fun q' hq' => ?_⟩
    rcases hchange.stored_cases hs.runtime hS.uncached hq' with ⟨q, hq, hreq, hout, -, -, hfin⟩ |
      ⟨request, sessionId, inputIds, rfl⟩ | ⟨sel, batch, r, c, hsel, rfl, hb, hx, rfl⟩
    · exact (hem q hq).congr hreq hout hfin
    · have hlive : (request.sequence id sessionId inputIds { matchedTokens := 0, pages := [] }
          s.runtime.now).status ≠ .finished := fun hf => by cases hf
      exact ⟨fun _ => ⟨rfl, hlive⟩, fun _ hne => absurd rfl hne,
        fun _ => .inl ⟨.nil, by simp, hlive⟩⟩
    · obtain ⟨hget, hlive⟩ := hs.runtime.wellFormed.selectNextSequence hsel
      have hsame : sel.scheduled.request = sel.request := rfl
      have hne := hone.inputIds_ne_nil hs.runtime hsel hb
      refine .executed hS hx hb hne rfl (fun habout => ?_) (ht'.live _ hq') (ht'.done _ hq')
      exact (ht.live sel hget (S.about_of_request hsame.symm habout) hlive).congr hsame rfl rfl
  exact (Transition.run_invariant hstep ⟨ServerState.sound_init config st,
    oneDecoding_run ex hS.uncached config st [], hinit⟩ h).2.2.2 q hq

end Simulation

namespace CudaGraphQwen3Executor

variable {E D : Type} {ex : CudaGraphQwen3Executor E}

/-- Whether a request is of the foreground or background stays the same. -/
theorem along_undisturbed (ex : CudaGraphQwen3Executor E) (config : RuntimeConfig)
    (st : GraphState E D) (es : List Event) {id : SeqId}
    (hkind : ∀ q, (Transition.run (ServerState.step (ex.modelExecutor D))
        (ServerState.init config st) es).runtime.scheduler.get id = some q →
      q.taskKind = .foreground ∨ q.taskKind = .background) :
    Transition.Along (ServerState.step (ex.modelExecutor D)) (ex.Undisturbed id)
      (ServerState.init config st) es := by
  induction es using List.reverseRecOn with
  | nil => trivial
  | append_singleton es e ih =>
    have hs := ServerState.sound_run (ex.modelExecutor D) config st es
    have hone := oneDecoding_run (ex.modelExecutor D) rfl config st es
    have hchange := ServerState.step_change (ex.modelExecutor D) _ hs.runtime.wellFormed e
    rw [Transition.run_concat] at hkind
    have hkind' : ∀ q, (Transition.run (ServerState.step (ex.modelExecutor D))
        (ServerState.init config st) es).runtime.scheduler.get id = some q →
        q.taskKind = .foreground ∨ q.taskKind = .background := by
      intro q hq
      obtain ⟨q', hq'⟩ := Option.ne_none_iff_exists'.1 fun hnone => by
        rw [hchange.get_none hnone] at hq
        cases hq
      rcases hchange.get_cases hs.runtime hq' with ⟨q₁, hq₁, hreq⟩ | ⟨hnone, -⟩
      · obtain rfl := Option.some.inj (hq.symm.trans hq₁)
        rw [← Sequence.taskKind_of_request hreq]
        exact hkind q' hq'
      · rw [hnone] at hq
        cases hq
    exact Transition.along_concat.2 ⟨ih hkind', undisturbed hs hone hkind' e⟩

/-- The prompt of a request and its parameters. -/
def params (q : Sequence) : (List TokenId × ℕ × List TokenId) × Option ℚ × Option ℚ × Option ℤ :=
  ((q.inputIds, q.maxNewTokens, q.stopTokenIds), q.metadata.temperature,
    q.metadata.repetitionPenalty, q.metadata.maxRepeatedTokenRun)

variable {q q₀ : Sequence}

theorem nextToken_of_params (h : params q₀ = params q) (slot : List TokenId → E) :
    ex.nextToken slot q₀ = ex.nextToken slot q := by
  simp only [params, Prod.mk.injEq] at h
  obtain ⟨⟨hin, -, -⟩, -, hpenalty, -⟩ := h
  funext ts
  rw [nextToken, nextToken, hin, hpenalty]

theorem endsGeneration_of_params (h : params q₀ = params q) (config : GenerationConfig)
    (tokenizer : Tokenizer) :
    endsGeneration config tokenizer q₀ = endsGeneration config tokenizer q := by
  simp only [params, Prod.mk.injEq] at h
  obtain ⟨⟨-, hmax, hstop⟩, -, -, hrun⟩ := h
  funext ts
  rw [endsGeneration, endsGeneration, hitRepeatedTokenRun, hitRepeatedTokenRun, hmax, hstop, hrun]

/-- A request that is served alone comes to end with the tokens of `q`, or to go on from them. -/
def AsAlone (ex : CudaGraphQwen3Executor E) (config : RuntimeConfig) (st : GraphState E D)
    (request : Request) (id : SeqId) (q : Sequence) : Prop :=
  ∃ N, ∀ n ≥ N, ∃ q', (served (ex.modelExecutor D) config st request id
      n).runtime.scheduler.get id = some q' ∧
    q.outputIds <+: q'.outputIds ∧
    (q.status = .finished → q'.outputIds = q.outputIds ∧ q'.status = .finished)

/-- A greedy request gets the same tokens as alone, whatever requests it shares the executor with
and in whatever order, if it is of the foreground or background, or if no other request has the
model run while it decodes. -/
theorem isolated (ex : CudaGraphQwen3Executor E) (config : RuntimeConfig) (st : GraphState E D)
    (es : List Event) (id : SeqId) (hfresh : st.states id = none)
    (hq : (Transition.run (ServerState.step (ex.modelExecutor D)) (ServerState.init config st)
      es).runtime.scheduler.get id = some q)
    (hgreedy : Greedy ex.config q) (hpad : ex.LeavesPadding q.inputIds)
    (h : (q.taskKind = .foreground ∨ q.taskKind = .background) ∨
      Transition.Along (ServerState.step (ex.modelExecutor D)) (ex.Undisturbed id)
        (ServerState.init config st) es)
    (config' : RuntimeConfig) (st' : GraphState E D) (request : Request) (id' : SeqId)
    (hfresh' : st'.states id' = none)
    (hadd : ((RuntimeCore.create config' st').addRequest (ex.modelExecutor D) request).1 = .ok id')
    (hq₀ : (served (ex.modelExecutor D) config' st' request id'
      0).runtime.scheduler.get id' = some q₀) (hsame : params q₀ = params q) :
    ex.AsAlone config' st' request id' q := by
  let S := ex.graphSimulation ex.runner.padEntry ex.LeavesPadding D
  have hS : S.Serves (ex.modelExecutor D) ex.refusal noRoom := ex.serves _ _ D
  have habout : q.inputIds ≠ [] → S.About q := fun hne => ⟨hgreedy, hne, hpad⟩
  have hparams := hsame
  simp only [params, Prod.mk.injEq] at hparams
  obtain ⟨⟨hin, -⟩, htemp, -⟩ := hparams
  have habout₀ : q₀.inputIds ≠ [] → S.About q₀ := fun hne => by
    refine ⟨?_, hne, hin ▸ hpad⟩
    rw [Greedy, htemp]
    exact hgreedy
  have halong : Transition.Along (ServerState.step (ex.modelExecutor D)) (ex.Undisturbed id)
      (ServerState.init config st) es := by
    refine h.elim (fun hkind => along_undisturbed ex config st es fun q' hq' => ?_) fun h => h
    obtain rfl := Option.some.inj (hq.symm.trans hq')
    exact hkind
  have hemitted : S.Emitted ex.refusal q := Simulation.emitted_run hS
    (fun s e hs _ he hturn => othersOk hs.runtime.wellFormed he hturn) config trivial
    ⟨hfresh, fun prompt hpad => slotOk_padEntry hpad _⟩ halong hq
  obtain ⟨N, t, ht, q', hq', -, hout⟩ := served_settles hS trivial
    ⟨hfresh', fun prompt hpad => slotOk_padEntry hpad _⟩ hadd hq₀ habout₀
  have hout' : S.Outcome ex.refusal noRoom q q'.outputIds q'.status (t.streams id').phase := by
    refine hout.transfer hin.symm (nextToken_of_params hsame _).symm
      (endsGeneration_of_params hsame _ _).symm ?_
    show ((ex.maxLen - q.inputIds.length : ℕ) : ℕ∞) = (ex.maxLen - q₀.inputIds.length : ℕ)
    rw [hin]
  refine ⟨N, fun n hn => ⟨q', ?_, hemitted.outcome habout hout'⟩⟩
  rw [ht n hn]
  exact hq'

/-- A greedy request of some kind, and a foreground request that comes once it has a token. -/
def sharedRun (kind : TaskKind) : List Event :=
  [.addRequest { greedyRequest "a" with taskKind := kind }, .resume 0, .resume 0,
    .addRequest { greedyRequest "b" with messages := [⟨"user", ['y', 'o']⟩], maxNewTokens := 1 },
    .resume 1] ++ List.replicate 6 (.resume 0)

/-- The server after the run, on an executor with stale entries. -/
def shared (kind : TaskKind) : ServerState (GraphState TokenId Unit) :=
  Transition.run (ServerState.step (sumExecutor.modelExecutor Unit))
    (ServerState.init ServerState.smallConfig staleState) (sharedRun kind)

/-- A background request goes on before the prefill of the other. -/
theorem isolated_background : ∃ q, (shared .background).runtime.scheduler.get 0 = some q ∧
    q.status = .finished ∧
    sumExecutor.AsAlone ServerState.smallConfig staleState (greedyRequest "a") 0 q := by
  have hq : ((shared .background).runtime.scheduler.get 0).map (fun q =>
      (q.status, q.taskKind, q.inputIds, q.metadata.temperature)) =
      some (.finished, .background, [104, 105], some 0) := by decide +kernel
  have hparams : ((served (sumExecutor.modelExecutor Unit) ServerState.smallConfig staleState
      (greedyRequest "a") 0 0).runtime.scheduler.get 0).map params =
      ((shared .background).runtime.scheduler.get 0).map params := by decide +kernel
  obtain ⟨q, hq, hfields⟩ := Option.map_eq_some_iff.1 hq
  simp only [Prod.mk.injEq] at hfields
  obtain ⟨hfin, hkind, hin, htemp⟩ := hfields
  rw [hq] at hparams
  obtain ⟨q₀, hq₀, hsame⟩ := Option.map_eq_some_iff.1 hparams
  have hpad : sumExecutor.LeavesPadding q.inputIds := by
    have hbucket : sumExecutor.runner.preBucket [104, 105] = some 16 := by decide +kernel
    rw [hin, LeavesPadding, hbucket]
    rintro bound ⟨⟩
    decide
  refine ⟨q, hq, hfin, isolated sumExecutor ServerState.smallConfig staleState
    (sharedRun .background) 0 rfl hq ?_ hpad (.inl (.inr hkind)) ServerState.smallConfig staleState
    (greedyRequest "a") 0 rfl rfl hq₀ hsame⟩
  simp [Greedy, htemp]

/-- A branch waits for the prefill of the other, which takes its entries. -/
theorem not_isolated_branch : ∃ q, (shared .branch).runtime.scheduler.get 0 = some q ∧
    Greedy sumExecutor.config q ∧ q.status = .finished ∧
    ¬sumExecutor.AsAlone ServerState.smallConfig staleState
      { greedyRequest "a" with taskKind := .branch } 0 q := by
  have hq : ((shared .branch).runtime.scheduler.get 0).map (fun q =>
      (q.status, q.metadata.temperature, q.outputIds)) =
      some (.finished, some 0, [2, 5, 3, 7, 7]) := by decide +kernel
  have hq' : ((served (sumExecutor.modelExecutor Unit) ServerState.smallConfig staleState
      { greedyRequest "a" with taskKind := .branch } 0 10).runtime.scheduler.get 0).map (fun q =>
      q.outputIds) = some [2, 6, 5, 3, 7] := by decide +kernel
  have hover : ((served (sumExecutor.modelExecutor Unit) ServerState.smallConfig staleState
      { greedyRequest "a" with taskKind := .branch } 0 10).streams 0).phase = .finished := by
    decide +kernel
  obtain ⟨q, hq, hfields⟩ := Option.map_eq_some_iff.1 hq
  obtain ⟨q', hq', hout'⟩ := Option.map_eq_some_iff.1 hq'
  simp only [Prod.mk.injEq] at hfields
  obtain ⟨hfin, htemp, hout⟩ := hfields
  refine ⟨q, hq, by simp [Greedy, htemp], hfin, ?_⟩
  rintro ⟨N, h⟩
  obtain ⟨q₁, hq₁, -, hsame⟩ := h (max N 10) (le_max_left _ _)
  rw [served_of_finished hq' hover (le_max_right _ _), hq', Option.some.injEq] at hq₁
  subst hq₁
  have heq := (hsame hfin).1
  rw [hout, hout'] at heq
  cases heq

end CudaGraphQwen3Executor

end SoloRT
