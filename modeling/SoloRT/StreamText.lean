import SoloRT.Server

/-!
# Where the text of a request goes

A turn of `stream_request` that selects another request's batch executes it and drops the
texts it returns. So a stream yields the whole response exactly when no decode of its
request is executed in another stream's turn.

`responseText_step` and `delivered_step` say what one event does to the response text of a
request and to the texts its stream has delivered. Over a run, the two stay equal as long
as no turn of another stream decodes the request (`content_eq_responseText`), and a text
produced in such a turn is missing for good (`content_eq_responseText_iff`).
-/

namespace SoloRT

namespace StreamState

/-- The texts of the last decode that the stream still has to yield. -/
def pending (stream : StreamState) : List Text :=
  match stream.phase with
  | .yielding rest => rest
  | _ => []

/-- Everything the stream yielded, or still yields without another batch. -/
def delivered (stream : StreamState) : Text :=
  (stream.yielded ++ stream.pending).flatten

/-- The stream ended early : it raised, or its consumer closed it. -/
def Broken (stream : StreamState) : Prop :=
  stream.phase = .closed ∨ ∃ e, stream.phase = .raised e

theorem delivered_emit (stream : StreamState) (texts : List Text) :
    (stream.emit texts).delivered = (stream.yielded ++ texts).flatten := by
  cases texts <;> simp [emit, delivered, pending]

theorem delivered_of_loop {stream : StreamState} (h : stream.phase = .loop) :
    stream.delivered = stream.yielded.flatten := by
  simp [delivered, pending, h]

theorem delivered_of_yielding {stream : StreamState} {rest : List Text}
    (h : stream.phase = .yielding rest) : stream.delivered = (stream.yielded ++ rest).flatten := by
  simp [delivered, pending, h]

theorem content_of_finished {stream : StreamState} (h : stream.phase = .finished) :
    stream.content = stream.delivered := by
  simp [content, delivered, pending, h]

theorem not_broken_of_finished {stream : StreamState} (h : stream.phase = .finished) :
    ¬stream.Broken := by
  simp [Broken, h]

end StreamState

/-- The texts that the execution of a batch returned. -/
def returnedTexts : Except PyError (List Text) → List Text
  | .ok texts => texts
  | .error _ => []

namespace BatchContext

variable {σ : Type} {ex : ModelExecutor σ} {c : BatchContext σ} {batch : Batch}
  {r : Except PyError (List Text)} {c' : BatchContext σ}

theorem flatten_filter_ne_nil (xs : List Text) : (xs.filter (· ≠ [])).flatten = xs.flatten := by
  induction xs with
  | nil => rfl
  | cons x xs ih => by_cases hx : x = [] <;> simp_all

theorem consumeSamples_text (samples : List SampleResult) (s : Sequence) (m : RuntimeMetrics) :
    (consumeSamples samples s m).2.1.metadata.responseText =
      s.metadata.responseText ++ (consumeSamples samples s m).1.flatten := by
  cases hs : s.isTerminal with
  | true => cases samples <;> simp [consumeSamples, hs]
  | false =>
    rw [consumeSamples_spec samples s m hs]
    dsimp only
    rw [flatten_filter_ne_nil]
    split_ifs <;> rfl

/-- The texts that a batch returns are appended to the response text. -/
theorem Executed.responseText (h : Executed ex c batch r c') :
    c'.sequence.metadata.responseText =
      c.sequence.metadata.responseText ++ (returnedTexts r).flatten := by
  cases h with
  | skipped | attachFailed | prefillFailed | decodeFailed => simp [returnedTexts, setEnv]
  | @prefilled _ _ env' _ _ hs hb ha he hc =>
    have hpost := Sequence.postprocessBatch_prefill (s := (c.setEnv env').sequence) hs
      (ha.phase.trans hb)
    rw [hpost] at hc
    rcases cachePrefix_cases hc with ⟨rfl, rfl | ⟨e, rfl⟩⟩ | ⟨-, -, -, rfl, -, rfl⟩ <;>
      simp [returnedTexts, setEnv]
  | decoded hs hb ha he hn => exact consumeSamples_text _ _ _

/-- Only a decode returns texts. -/
theorem Executed.returnedTexts_prefill (h : Executed ex c batch r c')
    (hb : batch.phase = .prefill) : returnedTexts r = [] := by
  cases h with
  | skipped | attachFailed | prefillFailed => rfl
  | decodeFailed hs hb' | decoded hs hb' => simp [hb] at hb'
  | prefilled hs _ ha he hc =>
    rcases cachePrefix_cases hc with ⟨-, rfl | ⟨e, rfl⟩⟩ | ⟨-, -, -, rfl, -, -⟩ <;> rfl

/-- The samples that the executor returns in the execution of a batch. -/
def returned (ex : ModelExecutor σ) (c : BatchContext σ) (batch : Batch) : List SampleResult :=
  match batch.phase with
  | .prefill => []
  | .decode =>
    match c.attachKv ex batch (c.sequence.numPromptTokens + c.sequence.outputIds.length + 1) with
    | (.error _, _) => []
    | (.ok batch, c) =>
      match ex.forwardDecode c.sequence batch c.env with
      | (.error _, _) => []
      | (.ok output, _) => (normalizeSamples output).toOption.getD []

/-- The samples that the execution of a batch consumes. -/
def samples (ex : ModelExecutor σ) (c : BatchContext σ) (batch : Batch) : List SampleResult :=
  if c.sequence.status = .cancelled then []
  else
    match batch.phase with
    | .prefill => []
    | .decode =>
      match c.attachKv ex batch (c.sequence.numPromptTokens + c.sequence.outputIds.length + 1) with
      | (.error _, _) => []
      | (.ok batch, c) =>
        match ex.forwardDecode c.sequence batch c.env with
        | (.error _, _) => []
        | (.ok output, env) =>
          match normalizeSamples output with
          | .error _ => []
          | .ok samples => consumed samples (c.setEnv env).sequence

/-- The texts that a batch returns are those of the samples it consumes. -/
theorem returnedTexts_eq (ex : ModelExecutor σ) (hlive : c.sequence.isTerminal = false)
    (batch : Batch) :
    (returnedTexts (c.executeBatch ex batch).1).flatten =
      ((c.samples ex batch).map SampleResult.text).flatten := by
  have hs : c.sequence.status ≠ .cancelled := by
    intro h
    simp [Sequence.isTerminal, h] at hlive
  unfold samples
  rw [if_neg hs]
  cases hb : batch.phase with
  | prefill =>
    rw [(executed ex c batch).returnedTexts_prefill hb]
    rfl
  | decode =>
    unfold executeBatch executeDecode
    rw [if_neg hs, hb]
    dsimp only
    rcases attachKv_cases ex c batch
      (c.sequence.numPromptTokens + c.sequence.outputIds.length + 1) with
      ⟨e, env, -, -, -, h⟩ | ⟨batch', env, -, h⟩
    · rw [h]
      rfl
    · rw [h]
      dsimp only [env_setEnv]
      cases ex.forwardDecode (c.setEnv env).sequence batch' env with
      | mk o env' =>
        cases o with
        | error e => rfl
        | ok out =>
          cases hn : normalizeSamples out with
          | error e => simp [hn, returnedTexts]
          | ok samples =>
            simp only [hn, returnedTexts]
            rw [consumeSamples_spec samples ((c.setEnv env).setEnv env').sequence _ hlive,
              flatten_filter_ne_nil]

theorem returned_prefill (hb : batch.phase = .prefill) : c.returned ex batch = [] := by
  rw [returned, hb]

theorem returned_of_attachKv_error {e : PyError} {c₁ : BatchContext σ}
    (hkv : c.attachKv ex batch (c.sequence.numPromptTokens + c.sequence.outputIds.length + 1) =
      (.error e, c₁)) : c.returned ex batch = [] := by
  unfold returned
  split
  · rfl
  · rw [hkv]

/-- The samples of the decode that the attached batch is given to. -/
theorem returned_of_forwardDecode (hb : batch.phase = .decode) {batch' : Batch}
    {env env' : ExecutorEnv σ} {o : Except PyError DecodeOutput}
    (hkv : c.attachKv ex batch (c.sequence.numPromptTokens + c.sequence.outputIds.length + 1) =
      (.ok batch', c.setEnv env))
    (he : ex.forwardDecode (c.setEnv env).sequence batch' env = (o, env')) :
    c.returned ex batch =
      (o.toOption.bind fun output => (normalizeSamples output).toOption).getD [] := by
  unfold returned
  rw [hb, hkv]
  dsimp only [env_setEnv]
  rw [he]
  cases o <;> rfl

theorem consumed_blockTable (xs : List SampleResult) (s : Sequence) (table : List PageId) :
    consumed xs { s with blockTable := table } = consumed xs s := by
  induction xs generalizing s with
  | nil => rfl
  | cons x xs ih =>
    have happ : appendSample { s with blockTable := table } x =
      { appendSample s x with blockTable := table } := rfl
    rw [consumed, consumed, happ, ih]
    rfl

/-- The tokens that a batch appends are those of the returned samples that the loop consumes, and
the last of them may finish the sequence. -/
theorem executeBatch_outputIds (hlive : c.sequence.isTerminal = false)
    (h : c.executeBatch ex batch = (r, c')) :
    c'.sequence.outputIds = c.sequence.outputIds ++
        (consumed (c.returned ex batch) c.sequence).map SampleResult.tokenId ∧
      c'.sequence.status =
        if Finishes (consumed (c.returned ex batch) c.sequence) c.sequence then .finished
        else c.sequence.status := by
  have hs : c.sequence.status ≠ .cancelled := by
    intro h
    simp [Sequence.isTerminal, h] at hlive
  cases hb : batch.phase with
  | prefill =>
    have hx := executed_of_eq h
    have hret : c.returned ex batch = [] := by rw [returned, hb]
    rw [hret, consumed, List.map_nil, List.append_nil]
    cases hx with
    | skipped | attachFailed | prefillFailed => exact ⟨rfl, rfl⟩
    | decodeFailed _ hb' | decoded _ hb' => simp [hb] at hb'
    | @prefilled _ _ env' _ _ _ _ ha he hc =>
      rw [Sequence.postprocessBatch_prefill (s := (c.setEnv env').sequence) hs
        (ha.phase.trans hb)] at hc
      rcases cachePrefix_cases hc with ⟨rfl, -⟩ | ⟨-, -, -, -, -, rfl⟩ <;> exact ⟨rfl, rfl⟩
  | decode =>
    unfold executeBatch executeDecode at h
    rw [if_neg hs, hb] at h
    dsimp only at h
    rcases attachKv_cases ex c batch
      (c.sequence.numPromptTokens + c.sequence.outputIds.length + 1) with
      ⟨e, env, -, -, -, hkv⟩ | ⟨batch', env, -, hkv⟩
    · rw [returned_of_attachKv_error hkv]
      rw [hkv] at h
      cases h
      exact ⟨(List.append_nil _).symm, rfl⟩
    · rw [hkv] at h
      dsimp only [env_setEnv] at h
      cases he : ex.forwardDecode (c.setEnv env).sequence batch' env with
      | mk o env' =>
        have hret := returned_of_forwardDecode hb hkv he
        rw [he] at h
        cases o with
        | error e =>
          cases h
          rw [hret]
          exact ⟨(List.append_nil _).symm, rfl⟩
        | ok out =>
          dsimp only [Except.toOption, Option.bind_some] at h hret
          cases hn : normalizeSamples out with
          | error e =>
            rw [hn] at h hret
            cases h
            rw [hret]
            exact ⟨(List.append_nil _).symm, rfl⟩
          | ok samples =>
            rw [hn] at h hret
            cases h
            have htable : consumed samples ((c.setEnv env).setEnv env').sequence =
                consumed samples c.sequence :=
              consumed_blockTable samples c.sequence env'.blockTable
            rw [hret]
            dsimp only [Option.getD_some]
            rw [consumeSamples_spec samples ((c.setEnv env).setEnv env').sequence _ hlive, htable]
            dsimp only
            constructor
            · split_ifs <;> rfl
            · split_ifs with hfin hfin' hfin'
              · rfl
              · exact absurd hfin hfin'
              · exact absurd hfin' hfin
              · rfl

end BatchContext

namespace ServerState

variable {σ : Type} {ex : ModelExecutor σ} {s : ServerState σ} {id : SeqId}

/-- The response text of a request, empty before it is added. -/
def responseText (s : ServerState σ) (id : SeqId) : Text :=
  match s.runtime.scheduler.get id with
  | none => []
  | some q => q.metadata.responseText

theorem responseText_of_scheduler {s s' : ServerState σ}
    (h : s'.runtime.scheduler = s.runtime.scheduler) (id : SeqId) :
    s'.responseText id = s.responseText id := by
  rw [responseText, h, responseText]

/-- Writing back a sequence changes its own response text only. -/
theorem responseText_put {s s' : ServerState σ} {p q : Sequence} (text : Text)
    (h : s'.runtime.scheduler = s.runtime.scheduler.put q)
    (hp : s.runtime.scheduler.get q.seqId = some p)
    (htext : q.metadata.responseText = p.metadata.responseText ++ text) (id : SeqId) :
    s'.responseText id = s.responseText id ++ if id = q.seqId then text else [] := by
  unfold responseText
  rw [h]
  by_cases hid : id = q.seqId
  · subst hid
    rw [InteractiveScheduler.get_put, hp]
    simpa using htext
  · rw [InteractiveScheduler.get_put_of_ne hid]
    simp [hid]

/-- Writing back a sequence with the same response text changes no response text. -/
theorem responseText_put_same {s s' : ServerState σ} {p q : Sequence}
    (h : s'.runtime.scheduler = s.runtime.scheduler.put q)
    (hp : s.runtime.scheduler.get q.seqId = some p)
    (htext : q.metadata.responseText = p.metadata.responseText) (id : SeqId) :
    s'.responseText id = s.responseText id := by
  have := responseText_put [] h hp (by simpa using htext) id
  simpa using this

/-- Executing a batch appends the texts it returns to the response of its sequence. -/
theorem responseText_setContext {s s' : ServerState σ} {sel : Sequence} {batch : Batch}
    {r : Except PyError (List Text)} {c : BatchContext σ}
    (hsel : s.runtime.scheduler.get sel.seqId = some sel)
    (hx : (s.runtime.context sel.scheduled).executeBatch ex batch = (r, c))
    (h : s'.runtime.scheduler = s.runtime.scheduler.put c.sequence) (id : SeqId) :
    s'.responseText id =
      s.responseText id ++ if id = sel.seqId then (returnedTexts r).flatten else [] := by
  have hx := BatchContext.executed_of_eq hx
  have hid : c.sequence.seqId = sel.seqId := hx.seqId
  have htext := responseText_put _ h (p := sel) (by rw [hid]; exact hsel) hx.responseText id
  rwa [hid] at htext

/-- The samples that one event consumes for the sequence `id`. -/
def samples (ex : ModelExecutor σ) (id : SeqId) (s : ServerState σ) : Event → List SampleResult
  | .resume seqId =>
    match s.runtime.scheduler.get seqId, s.runtime.scheduler.selectNextSequence with
    | some q, some sel =>
      if q.isTerminal = false ∧ (s.streams seqId).phase = .loop ∧ id = sel.seqId then
        match s.runtime.scheduler.buildBatch none sel.scheduled with
        | .error _ => []
        | .ok batch => (s.runtime.context sel.scheduled).samples ex batch
      else []
    | _, _ => []
  | _ => []

/-- The text of the samples that one event consumes for `id`. -/
def sampledText (ex : ModelExecutor σ) (id : SeqId) (s : ServerState σ) (e : Event) : Text :=
  ((s.samples ex id e).map SampleResult.text).flatten

theorem sampledText_of_samples {e : Event} (h : s.samples ex id e = []) :
    s.sampledText ex id e = [] := by
  rw [sampledText, h]
  rfl

theorem samples_executed {seqId : SeqId} {q sel : Sequence} {batch : Batch}
    (hq : s.runtime.scheduler.get seqId = some q) (hlive : q.isTerminal = false)
    (hloop : (s.streams seqId).phase = .loop)
    (hsel : s.runtime.scheduler.selectNextSequence = some sel)
    (hb : s.runtime.scheduler.buildBatch none sel.scheduled = .ok batch) (id : SeqId) :
    s.samples ex id (.resume seqId) =
      if id = sel.seqId then (s.runtime.context sel.scheduled).samples ex batch else [] := by
  unfold samples
  simp only [hq, hsel, hlive, hloop, hb, true_and]

/-- A turn that executes a batch samples the text that the batch returns. -/
theorem sampledText_executed {seqId : SeqId} {q sel : Sequence} {batch : Batch}
    {r : Except PyError (List Text)} {c : BatchContext σ}
    (hq : s.runtime.scheduler.get seqId = some q) (hlive : q.isTerminal = false)
    (hloop : (s.streams seqId).phase = .loop)
    (hsel : s.runtime.scheduler.selectNextSequence = some sel)
    (hb : s.runtime.scheduler.buildBatch none sel.scheduled = .ok batch)
    (hx : (s.runtime.context sel.scheduled).executeBatch ex batch = (r, c)) (id : SeqId) :
    s.sampledText ex id (.resume seqId) =
      if id = sel.seqId then (returnedTexts r).flatten else [] := by
  have hret := BatchContext.returnedTexts_eq ex
    (c := s.runtime.context sel.scheduled) rfl batch
  rw [hx] at hret
  rw [sampledText, samples_executed hq hlive hloop hsel hb]
  split_ifs
  · exact hret.symm
  · rfl

/-- Any other turn samples nothing. -/
theorem samples_idle {seqId : SeqId} (id : SeqId)
    (h : ∀ q sel batch, s.runtime.scheduler.get seqId = some q → q.isTerminal = false →
      (s.streams seqId).phase = .loop → s.runtime.scheduler.selectNextSequence = some sel →
      s.runtime.scheduler.buildBatch none sel.scheduled ≠ .ok batch) :
    s.samples ex id (.resume seqId) = [] := by
  unfold samples
  dsimp only
  split
  · rename_i q sel hq hsel
    split_ifs with hif
    · split
      · rfl
      · rename_i batch hb
        exact absurd hb (h q sel batch hq hif.1 hif.2.1 hsel)
    · rfl
  · rfl

theorem samples_of_idle {seqId : SeqId} (id : SeqId)
    (h : s.runtime.scheduler.get seqId = none ∨ (s.streams seqId).phase ≠ .loop ∨
      s.runtime.scheduler.selectNextSequence = none) :
    s.samples ex id (.resume seqId) = [] := by
  refine samples_idle id fun q sel batch hq _ hloop hsel => ?_
  rcases h with h | h | h
  · rw [h] at hq
    cases hq
  · exact absurd hloop h
  · rw [h] at hsel
    cases hsel

theorem samples_of_terminal {seqId : SeqId} {q : Sequence} (id : SeqId)
    (hq : s.runtime.scheduler.get seqId = some q) (hdone : q.isTerminal = true) :
    s.samples ex id (.resume seqId) = [] := by
  refine samples_idle id fun q' sel batch hq' hlive => ?_
  rw [hq] at hq'
  cases hq'
  rw [hdone] at hlive
  cases hlive

theorem samples_of_buildFailed {seqId : SeqId} {sel : Sequence} {e : PyError} (id : SeqId)
    (hsel : s.runtime.scheduler.selectNextSequence = some sel)
    (hb : s.runtime.scheduler.buildBatch none sel.scheduled = .error e) :
    s.samples ex id (.resume seqId) = [] := by
  refine samples_idle id fun q sel' batch _ _ _ hsel' hb' => ?_
  rw [hsel] at hsel'
  cases hsel'
  rw [hb] at hb'
  cases hb'

/-- An event that resumes no stream changes no response text. -/
theorem responseText_step_of_ne (hs : s.Sound) {e : Event} (he : ∀ other, e ≠ .resume other)
    (id : SeqId) : (s.step ex e).responseText id = s.responseText id := by
  have hwf := hs.runtime.wellFormed
  cases e with
  | addRequest request =>
    rcases RuntimeCore.addRequest_cases ex s.runtime request with
      ⟨e, -, hcore, -⟩ | ⟨seqId, sessionId, inputIds, m, -, -, hid, -, -, hsched, -⟩
    · exact responseText_of_scheduler hcore.scheduler id
    · unfold responseText
      simp only [step]
      rw [hsched]
      by_cases hne : id = seqId
      · subst hne
        have hget := s.runtime.scheduler.get_addSequence
          (request.sequence id sessionId inputIds m s.runtime.now)
        rw [Request.sequence_seqId] at hget
        rw [hs.runtime.get_eq_none hid, hget]
        exact congrArg SequenceMetadata.responseText (Request.sequence_metadata ..)
      · rw [InteractiveScheduler.get_addSequence_of_ne (by simpa using hne)]
  | cancelRequest requestId sessionId =>
    rcases RuntimeCore.cancelRequest_cases hwf requestId sessionId with
      h | ⟨q, b, hget, hlive, hcore, -⟩
    · exact responseText_of_scheduler (by simp [step, h]) id
    · exact responseText_put_same (q := RuntimeCore.withAppended q.markCancelled b)
        hcore.scheduler hget rfl id
  | resume other => exact absurd rfl (he other)
  | close other => rcases s.close_cases other with h | h <;> simp [step, h, responseText]
  | evict | tick => rfl

/-- Resuming a stream adds the sampled text to the response. -/
theorem responseText_resumed (hs : s.Sound) {seqId : SeqId} {s' : ServerState σ}
    (h : Resumed ex s seqId s') (id : SeqId) :
    s'.responseText id = s.responseText id ++ s.sampledText ex id (.resume seqId) := by
  have hwf := hs.runtime.wellFormed
  cases h with
  | idle h => rw [sampledText_of_samples (samples_of_idle id h), List.append_nil]
  | emitted hrest =>
    rw [sampledText_of_samples (samples_of_idle id (.inr (.inl (by simp [hrest])))),
      List.append_nil]
    rfl
  | @drained q hq hdone hloop =>
    obtain rfl : q.seqId = seqId := hwf.seqId_eq _ _ hq
    obtain ⟨b, hcore, -⟩ := RuntimeCore.finishSequence_core _ _ hq
    rw [sampledText_of_samples (samples_of_terminal id hq hdone), List.append_nil]
    exact responseText_put_same (q := RuntimeCore.withAppended q b) hcore.scheduler hq rfl id
  | @buildFailed q sel e hq hlive hloop hsel hb =>
    rw [sampledText_of_samples (samples_of_buildFailed id hsel hb), List.append_nil]
    exact responseText_put_same (q := sel.scheduled) rfl (hwf.selectNextSequence hsel).1 rfl id
  | @executed q sel batch r c hq hlive hloop hsel hb hx =>
    rw [sampledText_executed hq hlive hloop hsel hb hx]
    exact responseText_setContext (hwf.selectNextSequence hsel).1 hx rfl id

/-- Every event adds the sampled text to the response. -/
theorem responseText_step (hs : s.Sound) (e : Event) (id : SeqId) :
    (s.step ex e).responseText id = s.responseText id ++ s.sampledText ex id e := by
  by_cases he : ∃ seqId, e = .resume seqId
  · obtain ⟨seqId, rfl⟩ := he
    exact responseText_resumed hs (resumed ex s hs.runtime.wellFormed seqId) id
  · have hnil : s.sampledText ex id e = [] := by
      cases e with
      | resume seqId => exact absurd ⟨seqId, rfl⟩ he
      | addRequest | cancelRequest | close | evict | tick => rfl
    rw [hnil, List.append_nil]
    exact responseText_step_of_ne hs (by simpa using he) id

/-! ## What the stream delivers -/

/-- The event is a turn of another stream that executes a decode of `id`. -/
def ForeignDecode (s : ServerState σ) (e : Event) (id : SeqId) : Prop :=
  ∃ other q sel, e = .resume other ∧ other ≠ id ∧ (s.streams other).phase = .loop ∧
    s.runtime.scheduler.get other = some q ∧ q.isTerminal = false ∧
    s.runtime.scheduler.selectNextSequence = some sel ∧ sel.seqId = id ∧
    sel.isPrefillComplete = true

theorem foreignDecode_resume_iff {s : ServerState σ} {other id : SeqId} :
    s.ForeignDecode (.resume other) id ↔ other ≠ id ∧ (s.streams other).phase = .loop ∧
      (s.runtime.scheduler.get other).any (fun q => !q.isTerminal) = true ∧
      s.runtime.scheduler.selectNextSequence.any
        (fun sel => sel.seqId = id ∧ sel.isPrefillComplete) = true := by
  simp only [Option.any_eq_true, Bool.not_eq_true', decide_eq_true_eq]
  constructor
  · rintro ⟨_, q, sel, ⟨⟩, hne, hloop, hq, hlive, hsel, hid⟩
    exact ⟨hne, hloop, ⟨q, hq, hlive⟩, sel, hsel, hid⟩
  · rintro ⟨hne, hloop, ⟨q, hq, hlive⟩, sel, hsel, hid⟩
    exact ⟨other, q, sel, rfl, hne, hloop, hq, hlive, hsel, hid⟩

instance (s : ServerState σ) (e : Event) (id : SeqId) : Decidable (s.ForeignDecode e id) :=
  match e with
  | .resume _ => decidable_of_iff _ foreignDecode_resume_iff.symm
  | .addRequest _ | .cancelRequest _ _ | .close _ | .evict _ | .tick _ =>
    .isFalse (by simp [ForeignDecode])

/-- The event is a turn of another stream that adds text to the response of `id`. -/
def DropsText (ex : ModelExecutor σ) (s : ServerState σ) (e : Event) (id : SeqId) : Prop :=
  ∃ other, e = .resume other ∧ other ≠ id ∧ s.sampledText ex id e ≠ []

/-- Only a decode samples text, so text is dropped in the turns that decode. -/
theorem DropsText.foreignDecode {e : Event} (h : DropsText ex s e id) :
    s.ForeignDecode e id := by
  obtain ⟨other, rfl, hne, hdrop⟩ := h
  by_contra hf
  refine hdrop (sampledText_of_samples (samples_idle id
    fun q sel batch hq hlive hloop hsel hb => ?_))
  cases hx : (s.runtime.context sel.scheduled).executeBatch ex batch with
  | mk r c =>
    rw [sampledText_executed hq hlive hloop hsel hb hx] at hdrop
    by_cases hid : id = sel.seqId
    · cases hphase : batch.phase with
      | prefill =>
        rw [if_pos hid, (BatchContext.executed_of_eq hx).returnedTexts_prefill hphase] at hdrop
        exact hdrop rfl
      | decode =>
        exact hf ⟨other, q, sel, rfl, hne, hloop, hq, hlive, hsel, hid.symm,
          (InteractiveScheduler.buildBatch_ok hb).2.1 hphase⟩
    · rw [if_neg hid] at hdrop
      exact hdrop rfl

/-- The turn of the request's own stream delivers the sampled text, or breaks the stream. -/
theorem resumed_own {s' : ServerState σ} (h : Resumed ex s id s') :
    (s'.streams id).Broken ∨ (s'.streams id).delivered =
      (s.streams id).delivered ++ s.sampledText ex id (.resume id) := by
  cases h with
  | idle h =>
    rw [sampledText_of_samples (samples_of_idle id h), List.append_nil]
    exact .inr rfl
  | @emitted rest hrest =>
    rw [sampledText_of_samples (samples_of_idle id (.inr (.inl (by simp [hrest])))),
      List.append_nil]
    exact .inr (by
      simp [setStream, StreamState.delivered_emit, StreamState.delivered_of_yielding hrest])
  | @drained q hq hdone hloop =>
    rw [sampledText_of_samples (samples_of_terminal id hq hdone), List.append_nil]
    exact .inr (by simp [setStream, StreamState.delivered, StreamState.pending, hloop])
  | @buildFailed q sel e => exact .inl (.inr ⟨e, by simp [setStream]⟩)
  | @executed q sel batch r c hq hlive hloop hsel hb hx =>
    rw [sampledText_executed hq hlive hloop hsel hb hx]
    cases r with
    | error e => exact .inl (.inr ⟨e, by simp [setStream, StreamState.afterBatch]⟩)
    | ok texts =>
      refine .inr ?_
      by_cases hid : id = sel.seqId
      · simp [setStream, StreamState.afterBatch, ← hid, StreamState.delivered_emit,
          StreamState.delivered_of_loop hloop, returnedTexts]
      · simp [setStream, StreamState.afterBatch, Ne.symm hid, hid]

/-- Any event but the turn of another stream delivers the sampled text, or breaks the
request's stream. -/
theorem delivered_step (ex : ModelExecutor σ) (hs : s.Sound) (e : Event) (id : SeqId)
    (he : ∀ other, other ≠ id → e ≠ .resume other) :
    ((s.step ex e).streams id).Broken ∨ ((s.step ex e).streams id).delivered =
      (s.streams id).delivered ++ s.sampledText ex id e := by
  cases e with
  | resume other =>
    by_cases hne : other = id
    · exact hne ▸ resumed_own (resumed ex s hs.runtime.wellFormed other)
    · exact absurd rfl (he other hne)
  | close other =>
    have hnil : s.sampledText ex id (.close other) = [] := rfl
    rw [hnil, List.append_nil]
    rcases s.close_cases other with h | h
    · exact .inr (by simp [step, h])
    · by_cases hne : id = other
      · exact .inl (.inl (by simp [step, h, setStream, hne]))
      · exact .inr (by simp [step, h, setStream, hne])
  | addRequest | cancelRequest | evict | tick => exact .inr (List.append_nil _).symm

/-- A broken stream stays broken. -/
theorem broken_step (hs : s.Sound) (e : Event) (h : (s.streams id).Broken) :
    ((s.step ex e).streams id).Broken := by
  have hloop : (s.streams id).phase ≠ .loop := by
    rcases h with h | ⟨e, h⟩ <;> simp [h]
  have hyield : ∀ rest, (s.streams id).phase ≠ .yielding rest := by
    rcases h with h | ⟨e, h⟩ <;> simp [h]
  cases e with
  | addRequest | cancelRequest | evict | tick => exact h
  | resume other =>
    have hres := resumed ex s hs.runtime.wellFormed other
    by_cases hne : id = other
    · subst hne
      simp only [step]
      generalize s.resume ex id = s' at hres
      cases hres with
      | idle => exact h
      | emitted hrest => exact absurd hrest (hyield _)
      | drained _ _ hl | buildFailed _ _ hl | executed _ _ hl => exact absurd hl hloop
    · simpa only [step, hres.streams hne] using h
  | close other =>
    rcases s.close_cases other with heq | heq
    · simpa only [step, heq] using h
    · by_cases hne : id = other
      · exact .inl (by simp [step, heq, setStream, hne])
      · simpa [step, heq, setStream, hne] using h

/-- The stream of `id` broke, or it delivers the response text so far. -/
def Delivers (id : SeqId) (s : ServerState σ) : Prop :=
  s.Sound ∧ ((s.streams id).Broken ∨ (s.streams id).delivered = s.responseText id)

/-- The stream of `id` broke, or it misses some of the response text. -/
def Misses (id : SeqId) (s : ServerState σ) : Prop :=
  s.Sound ∧ ((s.streams id).Broken ∨
    (s.streams id).delivered.length < (s.responseText id).length)

theorem Delivers.step (h : Delivers id s) (e : Event) (hdrop : ¬DropsText ex s e id) :
    Delivers id (s.step ex e) := by
  obtain ⟨hs, hb | hd⟩ := h
  · exact ⟨hs.step e, .inl (broken_step hs e hb)⟩
  by_cases he : ∃ other, other ≠ id ∧ e = .resume other
  · obtain ⟨other, hne, rfl⟩ := he
    have hnil : s.sampledText ex id (.resume other) = [] := by
      by_contra hc
      exact hdrop ⟨other, rfl, hne, hc⟩
    have hstream := (resumed ex s hs.runtime.wellFormed other).streams hne.symm
    refine ⟨hs.step _, .inr ?_⟩
    rw [responseText_step hs, hnil, List.append_nil, ← hd]
    exact congrArg _ hstream
  · rcases delivered_step ex hs e id (by simpa using he) with hb | hd'
    · exact ⟨hs.step e, .inl hb⟩
    · exact ⟨hs.step e, .inr (by rw [hd', responseText_step hs, hd])⟩

theorem Delivers.misses (h : Delivers id s) {e : Event} (hdrop : DropsText ex s e id) :
    Misses id (s.step ex e) := by
  obtain ⟨hs, hb | hd⟩ := h
  · exact ⟨hs.step e, .inl (broken_step hs e hb)⟩
  obtain ⟨other, rfl, hne, hdrop⟩ := hdrop
  have hstream := (resumed ex s hs.runtime.wellFormed other).streams hne.symm
  refine ⟨hs.step _, .inr ?_⟩
  rw [responseText_step hs, List.length_append, ← hd]
  simp only [ServerState.step]
  rw [hstream]
  have hpos := List.length_pos_iff.2 hdrop
  omega

theorem Misses.step (h : Misses id s) (e : Event) : Misses id (s.step ex e) := by
  obtain ⟨hs, hb | hd⟩ := h
  · exact ⟨hs.step e, .inl (broken_step hs e hb)⟩
  by_cases he : ∃ other, other ≠ id ∧ e = .resume other
  · obtain ⟨other, hne, rfl⟩ := he
    have hstream := (resumed ex s hs.runtime.wellFormed other).streams hne.symm
    refine ⟨hs.step _, .inr ?_⟩
    rw [responseText_step hs, List.length_append]
    simp only [ServerState.step]
    rw [hstream]
    omega
  · rcases delivered_step ex hs e id (by simpa using he) with hb | hd'
    · exact ⟨hs.step e, .inl hb⟩
    · refine ⟨hs.step e, .inr ?_⟩
      rw [hd', responseText_step hs, List.length_append, List.length_append]
      omega

/-- The text of the samples consumed for `id` over a run, in order. -/
def sampledTextAlong (ex : ModelExecutor σ) (id : SeqId) : ServerState σ → List Event → Text
  | _, [] => []
  | s, e :: es => s.sampledText ex id e ++ sampledTextAlong ex id (s.step ex e) es

/-- The response text of a request is the text of the samples consumed for it. -/
theorem responseText_run (es : List Event) (hs : s.Sound) (id : SeqId) :
    (Transition.run (step ex) s es).responseText id =
      s.responseText id ++ sampledTextAlong ex id s es := by
  induction es generalizing s with
  | nil => simp [sampledTextAlong]
  | cons e es ih =>
    rw [Transition.run_cons, ih (hs.step e), responseText_step hs, sampledTextAlong,
      List.append_assoc]

theorem delivers_init (config : RuntimeConfig) (executor : σ) (id : SeqId) :
    Delivers id (init config executor) :=
  ⟨sound_init config executor, .inr rfl⟩

theorem responseText_eq {q : Sequence} (h : s.runtime.scheduler.get id = some q) :
    s.responseText id = q.metadata.responseText := by
  rw [responseText, h]

/-- In every run in which no other stream's turn decodes a request, a request that ended
finished and whose stream is drained has yielded its whole response, the text of all the
samples consumed for it. -/
theorem content_eq_responseText (ex : ModelExecutor σ) (config : RuntimeConfig) (executor : σ)
    (id : SeqId) (es : List Event)
    (h : Transition.Along (step ex) (fun s e => ¬s.ForeignDecode e id) (init config executor) es)
    (q : Sequence)
    (hq : (Transition.run (step ex) (init config executor) es).runtime.scheduler.get id = some q)
    (_hfin : q.status = .finished)
    (hdrained : ((Transition.run (step ex) (init config executor) es).streams id).phase =
      .finished) :
    ((Transition.run (step ex) (init config executor) es).streams id).content =
        q.metadata.responseText ∧
      q.metadata.responseText = sampledTextAlong ex id (init config executor) es := by
  obtain ⟨-, hb | hd⟩ := Transition.run_invariant
    (fun s e (hs : Delivers id s) he => hs.step e fun hdrop => he hdrop.foreignDecode)
    (delivers_init config executor id) h
  · exact absurd hb (StreamState.not_broken_of_finished hdrained)
  · refine ⟨by rw [StreamState.content_of_finished hdrained, hd, responseText_eq hq], ?_⟩
    rw [← responseText_eq hq]
    exact responseText_run es (sound_init config executor) id

/-- A drained stream has yielded its whole response exactly when no other stream's turn
added text to it. -/
theorem content_eq_responseText_iff (ex : ModelExecutor σ) (config : RuntimeConfig)
    (executor : σ) (id : SeqId) (es : List Event) (q : Sequence)
    (hq : (Transition.run (step ex) (init config executor) es).runtime.scheduler.get id = some q)
    (hdrained : ((Transition.run (step ex) (init config executor) es).streams id).phase =
      .finished) :
    ((Transition.run (step ex) (init config executor) es).streams id).content =
        q.metadata.responseText ↔
      Transition.Along (step ex) (fun s e => ¬DropsText ex s e id) (init config executor) es := by
  have hnb := StreamState.not_broken_of_finished hdrained
  rw [StreamState.content_of_finished hdrained, ← responseText_eq hq]
  constructor
  · intro heq
    have hrun : (Transition.Along (step ex) (fun s e => ¬DropsText ex s e id)
        (init config executor) es ∧
          Delivers id (Transition.run (step ex) (init config executor) es)) ∨
        Misses id (Transition.run (step ex) (init config executor) es) :=
      Transition.run_history_induction (motive := fun es s =>
        (Transition.Along (step ex) (fun s e => ¬DropsText ex s e id)
        (init config executor) es ∧ Delivers id s) ∨ Misses id s)
      (.inl ⟨trivial, delivers_init config executor id⟩)
      (fun es e hes => by
        rcases hes with ⟨halong, hd⟩ | hm
        · by_cases hdrop : DropsText ex (Transition.run (step ex) (init config executor) es) e id
          · exact .inr (hd.misses hdrop)
          · exact .inl ⟨Transition.along_concat.2 ⟨halong, hdrop⟩, hd.step e hdrop⟩
        · exact .inr (hm.step e)) es
    rcases hrun with ⟨halong, -⟩ | ⟨-, hb | hlt⟩
    · exact halong
    · exact absurd hb hnb
    · rw [heq] at hlt
      exact absurd hlt (lt_irrefl _)
  · intro halong
    exact ((Transition.run_invariant (fun s e (hs : Delivers id s) he => hs.step e he)
      (delivers_init config executor id) halong).2).resolve_left hnb

/-! ## Two streams -/

/-- A small runtime. -/
def smallConfig : RuntimeConfig where
  maxPrefillChunkTokens := 16
  maxPrefillChunkTokens_pos := by decide
  kvCache := { numPages := 8, pageSize := 4, pageSize_pos := by decide, numPages_pos := by decide }
  blockSize := 16
  blockSize_pos := by decide
  maxEntries := 128
  maxEntries_pos := by decide
  blake2b bytes := bytes.length

/-- A request for one token. -/
def shortRequest (sessionId : SessionId) : Request where
  messages := [⟨"user", ['h', 'i']⟩]
  maxNewTokens := 1
  sessionId := some sessionId

/-- Two requests. The second stream prefills the prompt of the first. -/
def interleavedRun : List Event :=
  [.addRequest (shortRequest "a"), .addRequest (shortRequest "b"), .resume 1, .resume 0, .resume 0,
    .resume 0, .resume 1, .resume 1, .resume 1, .resume 1]

/-- Both streams have the whole text of their request. -/
theorem content_eq_responseText_interleaved :
    let s := Transition.run (step (deterministicExecutor false)) (init smallConfig ())
      interleavedRun
    ∀ id ∈ [0, 1], ∃ q, s.runtime.scheduler.get id = some q ∧
      (s.streams id).content = q.metadata.responseText ∧
      q.metadata.responseText = "SoloRT".toList := by
  intro s id hid
  have hq : ∀ id ∈ [0, 1], (s.runtime.scheduler.get id).map
      (fun q => (q.status, q.metadata.responseText)) = some (.finished, "SoloRT".toList) := by
    decide +kernel
  have hown : ∀ id ∈ [0, 1], Transition.Along (step (deterministicExecutor false))
      (fun s e => ¬ForeignDecode s e id) (init smallConfig ()) interleavedRun := by
    decide +kernel
  have hdrained : ∀ id ∈ [0, 1], (s.streams id).phase = .finished := by
    decide +kernel
  obtain ⟨q, hget, hqs⟩ := Option.map_eq_some_iff.1 (hq id hid)
  rw [Prod.mk.injEq] at hqs
  have h := content_eq_responseText (deterministicExecutor false) smallConfig () id interleavedRun
    (hown id hid) q hget hqs.1 (hdrained id hid)
  exact ⟨q, hget, h.1, hqs.2⟩

/-- Two requests. The second stream decodes the first request. -/
def foreignDecodeRun : List Event :=
  [.addRequest (shortRequest "a"), .addRequest (shortRequest "b"), .resume 0, .resume 1,
    .resume 0]

/-- The first request ends finished and its stream is drained, but its text is lost. -/
theorem not_content_eq_responseText : ¬∀ (σ : Type) (ex : ModelExecutor σ)
    (config : RuntimeConfig) (executor : σ) (id : SeqId) (es : List Event) (q : Sequence),
    (Transition.run (step ex) (init config executor) es).runtime.scheduler.get id = some q →
    q.status = .finished →
    ((Transition.run (step ex) (init config executor) es).streams id).phase = .finished →
    ((Transition.run (step ex) (init config executor) es).streams id).content =
      q.metadata.responseText := by
  intro h
  have hq : ((Transition.run (step (deterministicExecutor false)) (init smallConfig ())
      foreignDecodeRun).runtime.scheduler.get 0).map
        (fun q => (q.status, q.metadata.responseText)) =
          some (.finished, "SoloRT".toList) := by decide +kernel
  obtain ⟨q, hq, hqs⟩ := Option.map_eq_some_iff.1 hq
  rw [Prod.mk.injEq] at hqs
  have hlost := h Unit (deterministicExecutor false) smallConfig () 0 foreignDecodeRun q hq hqs.1
    (by decide +kernel)
  rw [hqs.2] at hlost
  revert hlost
  decide +kernel

end ServerState

end SoloRT
