import SoloRT.StreamText

/-!
# The active request of a session

The runtime keeps the active request of a session twice : in the session itself and in
`_active_by_session`, which `cancel_request` by session reads. `add_request` sets both.
`_finish_sequence` clears the first only for the active request, the second always, and it
runs late : when a request is cancelled, or when the stream of a terminal one is drained
(`finishing`).

So the two agree along a run exactly as long as nothing is finished in a session whose
active request is a newer one (`activeTracked_run_iff`).
-/

namespace SoloRT

/-- The message that `_append_assistant_response` appends, if any. -/
def Sequence.answer (sequence : Sequence) : List Message :=
  if sequence.status = .finished ∧ sequence.metadata.responseAppended = false ∧
    sequence.metadata.responseText ≠ [] then [⟨"assistant", sequence.metadata.responseText⟩]
  else []

/-- The session after `_finish_sequence` ran for one of its sequences. -/
def Session.afterFinish (session : Session) (sequence : Sequence) : Session :=
  { session with
    messages := session.messages ++ sequence.answer
    activeSequenceId :=
      if session.activeSequenceId = some sequence.seqId then none else session.activeSequenceId }

namespace RuntimeCore

variable {σ : Type} {ex : ModelExecutor σ} {rt : RuntimeCore σ}

/-- Sessions are stored under their own ids. -/
def SessionsKeyed (rt : RuntimeCore σ) : Prop :=
  ∀ sid session, rt.sessions sid = some session → session.sessionId = sid

/-- The `active_sequence_id` of a session. -/
def activeSequence (rt : RuntimeCore σ) (sid : SessionId) : Option SeqId :=
  (rt.sessions sid).bind Session.activeSequenceId

/-- The id of the session that `get_or_create` returns. -/
def resolvedId (rt : RuntimeCore σ) (sessionId : Option SessionId) : SessionId :=
  if sessionId.getD "" = "" then "sess_" ++ toString rt.nextUuid else sessionId.getD ""

/-- The session of a request, with the messages of the request. -/
def sessionOf (rt : RuntimeCore σ) (request : Request) : Session :=
  let session := (rt.sessions (rt.resolvedId request.sessionId)).getD
    { sessionId := rt.resolvedId request.sessionId }
  { session with messages := session.messages ++ request.messages }

/-! ## What the methods do to the sessions -/

theorem getOrCreateSession_sessions (rt : RuntimeCore σ) (sessionId : Option SessionId) :
    (rt.getOrCreateSession sessionId).1 =
        (rt.sessions (rt.resolvedId sessionId)).getD { sessionId := rt.resolvedId sessionId } ∧
      (rt.getOrCreateSession sessionId).2.sessions =
        Function.update rt.sessions (rt.resolvedId sessionId)
          (some (rt.getOrCreateSession sessionId).1) ∧
      (rt.getOrCreateSession sessionId).2.activeBySession = rt.activeBySession ∧
      (rt.getOrCreateSession sessionId).2.metrics = rt.metrics := by
  unfold getOrCreateSession resolvedId
  by_cases h : sessionId.getD "" = ""
  · simp only [if_pos h]
    cases hs : rt.sessions ("sess_" ++ toString rt.nextUuid) with
    | none => simp
    | some session => exact ⟨rfl, (Function.update_eq_self_iff.2 hs.symm).symm, rfl, rfl⟩
  · simp only [if_neg h]
    cases hs : rt.sessions (sessionId.getD "") with
    | none => simp
    | some session => exact ⟨rfl, (Function.update_eq_self_iff.2 hs.symm).symm, rfl, rfl⟩

/-- What `add_request` does to the sessions : it appends the messages of the request, and
unless the tokenizer raises it makes the new sequence the active one. -/
theorem addRequest_sessions (ex : ModelExecutor σ) (hkeyed : rt.SessionsKeyed) (request : Request) :
    (∃ e, (rt.addRequest ex request).1 = .error e ∧
      (rt.addRequest ex request).2.sessions =
        Function.update rt.sessions (rt.resolvedId request.sessionId)
          (some (rt.sessionOf request)) ∧
      (rt.addRequest ex request).2.activeBySession = rt.activeBySession ∧
      (rt.addRequest ex request).2.metrics = rt.metrics ∧
      (rt.addRequest ex request).2.scheduler = rt.scheduler) ∨
    ∃ seqId inputIds m, (rt.addRequest ex request).1 = .ok seqId ∧
      (rt.addRequest ex request).2.sessions =
        Function.update rt.sessions (rt.resolvedId request.sessionId)
          (some { rt.sessionOf request with activeSequenceId := some seqId }) ∧
      (rt.addRequest ex request).2.activeBySession =
        Function.update rt.activeBySession (rt.resolvedId request.sessionId) (some seqId) ∧
      (rt.addRequest ex request).2.metrics = rt.metrics.startRequest ∧
      (rt.addRequest ex request).2.scheduler = rt.scheduler.addSequence
        (request.sequence seqId (rt.resolvedId request.sessionId) inputIds m rt.now) := by
  have hid : ((rt.sessions (rt.resolvedId request.sessionId)).getD
      { sessionId := rt.resolvedId request.sessionId }).sessionId =
        rt.resolvedId request.sessionId := by
    cases hs : rt.sessions (rt.resolvedId request.sessionId) with
    | none => rfl
    | some session => exact hkeyed _ session hs
  obtain ⟨hcore, -, hnow⟩ := rt.getOrCreateSession_core request.sessionId
  obtain ⟨hsession, hsessions, hactive, hmetrics⟩ :=
    rt.getOrCreateSession_sessions request.sessionId
  unfold addRequest
  generalize rt.getOrCreateSession request.sessionId = p
    at hcore hnow hsession hsessions hactive hmetrics
  obtain ⟨session, rt₁⟩ := p
  dsimp only at hcore hnow hsession hsessions hactive hmetrics
  subst hsession
  dsimp only [appendMessages]
  split
  · refine .inl ⟨_, rfl, ?_, hactive, hmetrics, hcore.scheduler⟩
    simp [hsessions, hid, sessionOf]
  · refine .inr ⟨_, _, _, rfl, ?_, ?_, by rw [hmetrics], by rw [hcore.scheduler, hnow, hid]⟩
    · simp [hsessions, hid, sessionOf]
    · simp [hactive, hid]

/-- `clearActive`, for a sequence whose session is stored. -/
theorem clearActive_eq {sequence : Sequence} {session : Session}
    (hs : rt.sessions sequence.sessionId = some session) :
    rt.clearActive sequence = { rt with
      sessions := Function.update rt.sessions sequence.sessionId (some { session with
        activeSequenceId := (session.afterFinish sequence).activeSequenceId })
      activeBySession := Function.update rt.activeBySession sequence.sessionId none } := by
  have hself : Function.update rt.sessions sequence.sessionId (some session) = rt.sessions :=
    Function.update_eq_self_iff.2 hs.symm
  unfold clearActive
  simp only [hs, Session.afterFinish]
  by_cases hactive : session.activeSequenceId = some sequence.seqId
  · simp only [if_pos hactive]
  · simp only [if_neg hactive, hself]

/-- `_append_assistant_response`, for a finished sequence whose session is stored. -/
theorem appendAssistantResponse_eq {sequence : Sequence} {session : Session}
    (hfin : sequence.status = .finished) (hs : rt.sessions sequence.sessionId = some session)
    (hid : session.sessionId = sequence.sessionId)
    (hget : rt.scheduler.get sequence.seqId = some sequence) :
    rt.appendAssistantResponse sequence = { rt with
      scheduler := rt.scheduler.put (withAppended sequence
        (sequence.metadata.responseAppended || sequence.answer ≠ []))
      sessions := Function.update rt.sessions sequence.sessionId
        (some { session with messages := session.messages ++ sequence.answer }) } := by
  have hsame : sequence.answer = [] → rt = { rt with
      scheduler := rt.scheduler.put (withAppended sequence
        (sequence.metadata.responseAppended || sequence.answer ≠ []))
      sessions := Function.update rt.sessions sequence.sessionId
        (some { session with messages := session.messages ++ sequence.answer }) } := by
    intro hanswer
    have hself : Function.update rt.sessions sequence.sessionId (some session) = rt.sessions :=
      Function.update_eq_self_iff.2 hs.symm
    have hput : rt.scheduler.put (withAppended sequence sequence.metadata.responseAppended) =
        rt.scheduler := InteractiveScheduler.put_self hget
    simp [hanswer, hself, hput]
  unfold appendAssistantResponse
  by_cases happ : sequence.metadata.responseAppended = true
  · rw [if_pos happ]
    exact hsame (if_neg (by simp [happ]))
  · rw [if_neg happ]
    by_cases htext : sequence.metadata.responseText = []
    · rw [if_pos htext]
      exact hsame (if_neg (by simp [htext]))
    · have hanswer : sequence.answer = [⟨"assistant", sequence.metadata.responseText⟩] :=
        if_pos ⟨hfin, by simpa using happ, htext⟩
      rw [if_neg htext, hs]
      simp [appendMessages, hid, hanswer, withAppended]

/-- `_finish_sequence`, for a sequence whose session is stored. -/
theorem finishSequence_eq {sequence : Sequence} {session : Session}
    (hs : rt.sessions sequence.sessionId = some session)
    (hid : session.sessionId = sequence.sessionId)
    (hget : rt.scheduler.get sequence.seqId = some sequence) :
    rt.finishSequence sequence = { rt with
      scheduler := rt.scheduler.put (withAppended sequence
        (sequence.metadata.responseAppended || sequence.answer ≠ []))
      sessions := Function.update rt.sessions sequence.sessionId
        (some (session.afterFinish sequence))
      activeBySession := Function.update rt.activeBySession sequence.sessionId none
      metrics := if sequence.status = .finished then rt.metrics.finishRequest else rt.metrics
      prefixCache := rt.prefixCache.release sequence.cacheHandle } := by
  unfold finishSequence
  rw [clearActive_eq hs]
  by_cases hfin : sequence.status = .finished
  · let rt₁ : RuntimeCore σ := { rt with
      sessions := Function.update rt.sessions sequence.sessionId (some { session with
        activeSequenceId := (session.afterFinish sequence).activeSequenceId })
      activeBySession := Function.update rt.activeBySession sequence.sessionId none
      metrics := rt.metrics.finishRequest }
    have happ := @appendAssistantResponse_eq σ rt₁ sequence _ hfin (Function.update_self ..) hid
      hget
    simp only [rt₁] at happ
    simp only [if_pos hfin, happ, Function.update_idem]
    rfl
  · have hanswer : sequence.answer = [] := if_neg (by simp [hfin])
    have hput : rt.scheduler.put (withAppended sequence sequence.metadata.responseAppended) =
        rt.scheduler := InteractiveScheduler.put_self hget
    simp [if_neg hfin, hanswer, hput, Session.afterFinish]

/-- Sessions are stored under their own ids, and every sequence has a stored session. -/
structure SessionsStored (rt : RuntimeCore σ) : Prop where
  keyed : rt.SessionsKeyed
  stored : ∀ id q, rt.scheduler.get id = some q → ∃ session, rt.sessions q.sessionId = some session

theorem sessionsStored_create (config : RuntimeConfig) (executor : σ) :
    (create config executor).SessionsStored :=
  ⟨by simp [SessionsKeyed, create], by simp⟩

/-- The session of a sequence, and its id. -/
theorem SessionsStored.session (h : rt.SessionsStored) {id : SeqId} {q : Sequence}
    (hq : rt.scheduler.get id = some q) :
    ∃ session, rt.sessions q.sessionId = some session ∧ session.sessionId = q.sessionId := by
  obtain ⟨session, hs⟩ := h.stored id q hq
  exact ⟨session, hs, h.keyed _ session hs⟩

/-- The request that `_finish_sequence` runs for is not the active one of its session, and
another one is. -/
def Superseded (rt : RuntimeCore σ) (q : Sequence) : Prop :=
  ∃ id, rt.activeSequence q.sessionId = some id ∧ id ≠ q.seqId

/-- The two records of the active requests agree, and a cancel by session cancels exactly the
active request. -/
structure ActiveTracked (rt : RuntimeCore σ) : Prop where
  active : ∀ sid, rt.activeBySession sid = rt.activeSequence sid
  cancel : ∀ sid id q, rt.activeSequence sid = some id → rt.scheduler.get id = some q →
    q.isTerminal = false →
    (rt.cancelRequest none (some sid)).1 = true ∧
      (∃ q', (rt.cancelRequest none (some sid)).2.scheduler.get id = some q' ∧
        q'.status = .cancelled) ∧
      ∀ id' ≠ id, (rt.cancelRequest none (some sid)).2.scheduler.get id' = rt.scheduler.get id'

theorem activeTracked_of_active (hwf : rt.scheduler.WellFormed)
    (h : ∀ sid, rt.activeBySession sid = rt.activeSequence sid) : rt.ActiveTracked := by
  refine ⟨h, fun sid id q hid hget hlive => ?_⟩
  obtain rfl : q.seqId = id := hwf.seqId_eq _ _ hget
  have hactive : rt.activeBySession sid = some q.seqId := (h sid).trans hid
  have hcancel : rt.scheduler.cancel q.seqId = (true, rt.scheduler.put q.markCancelled) := by
    simp [InteractiveScheduler.cancel, hget, hlive]
  have hget' : (rt.scheduler.put q.markCancelled).get q.seqId = some q.markCancelled :=
    InteractiveScheduler.get_put _
  have heq : rt.cancelRequest none (some sid) =
      (true, { rt with scheduler := rt.scheduler.put q.markCancelled }.finishSequence
        q.markCancelled) := by
    simp [cancelRequest, hactive, hcancel, hget']
  obtain ⟨b, hcore, -⟩ := finishSequence_core
    { rt with scheduler := rt.scheduler.put q.markCancelled } q.markCancelled hget'
  have hsched : (rt.cancelRequest none (some sid)).2.scheduler =
      rt.scheduler.put (withAppended q.markCancelled b) := by
    rw [heq, hcore.scheduler]
    exact rt.scheduler.put_put rfl
  refine ⟨by rw [heq], ⟨withAppended q.markCancelled b, ?_, rfl⟩, fun id' hid' => ?_⟩
  · rw [hsched]
    exact InteractiveScheduler.get_put _
  · rw [hsched]
    exact InteractiveScheduler.get_put_of_ne hid'

end RuntimeCore

namespace ServerState

variable {σ : Type} {ex : ModelExecutor σ} {s : ServerState σ}

/-- The sequence, as it is then, for which the event runs `_finish_sequence`. -/
def finishing (s : ServerState σ) : Event → Option Sequence
  | .cancelRequest requestId sessionId =>
    ((requestId.or (sessionId.bind s.runtime.activeBySession)).bind s.runtime.scheduler.get).bind
      fun q => if q.isTerminal then none else some q.markCancelled
  | .resume seqId =>
    if (s.streams seqId).phase = .loop then
      (s.runtime.scheduler.get seqId).filter Sequence.isTerminal
    else none
  | _ => none

/-- The two events that finish a sequence : it is cancelled, or its stream is drained. -/
theorem finishing_cases {e : Event} {q : Sequence} (h : s.finishing e = some q) :
    (∃ requestId sessionId id q₀, e = .cancelRequest requestId sessionId ∧
      requestId.or (sessionId.bind s.runtime.activeBySession) = some id ∧
      s.runtime.scheduler.get id = some q₀ ∧ q₀.isTerminal = false ∧ q = q₀.markCancelled) ∨
    ∃ id, e = .resume id ∧ (s.streams id).phase = .loop ∧
      s.runtime.scheduler.get id = some q ∧ q.isTerminal = true := by
  cases e with
  | cancelRequest requestId sessionId =>
    obtain ⟨q₀, hq₀, hq⟩ := Option.bind_eq_some_iff.1 h
    obtain ⟨id, hid, hget⟩ := Option.bind_eq_some_iff.1 hq₀
    split_ifs at hq with hdone
    cases hq
    exact .inl ⟨requestId, sessionId, id, q₀, rfl, hid, hget, by simpa using hdone, rfl⟩
  | resume id =>
    simp only [finishing] at h
    split_ifs at h with hloop
    obtain ⟨hget, hdone⟩ := Option.filter_eq_some_iff.1 h
    exact .inr ⟨id, rfl, hloop, hget, hdone⟩
  | addRequest | close | evict | tick => cases h

/-- What an event that finishes a sequence does to the runtime. -/
theorem step_of_finishing (hwf : s.runtime.scheduler.WellFormed) {e : Event} {q : Sequence}
    (h : s.finishing e = some q) : (s.step ex e).runtime =
      { s.runtime with scheduler := s.runtime.scheduler.put q }.finishSequence q := by
  rcases finishing_cases h with
    ⟨requestId, sessionId, id, q₀, rfl, hid, hget, hlive, rfl⟩ | ⟨id, rfl, hloop, hget, hdone⟩
  · obtain rfl : q₀.seqId = id := hwf.seqId_eq _ _ hget
    have hput : (s.runtime.scheduler.put q₀.markCancelled).get q₀.seqId =
        some q₀.markCancelled := InteractiveScheduler.get_put _
    simp [step, RuntimeCore.cancelRequest, hid, InteractiveScheduler.cancel, hget, hlive, hput]
  · obtain rfl : q.seqId = id := hwf.seqId_eq _ _ hget
    simp [step, resume, turn, hget, hloop, hdone, InteractiveScheduler.put_self hget]

/-- Finishing a sequence changes no other sequence. -/
theorem scheduler_of_finishing (ex : ModelExecutor σ) (hwf : s.runtime.scheduler.WellFormed)
    {e : Event} {q : Sequence} (h : s.finishing e = some q) :
    ∃ b, (s.step ex e).runtime.scheduler =
      s.runtime.scheduler.put (RuntimeCore.withAppended q b) := by
  obtain ⟨b, hcore, -⟩ := RuntimeCore.finishSequence_core
    { s.runtime with scheduler := s.runtime.scheduler.put q } q (InteractiveScheduler.get_put q)
  refine ⟨b, ?_⟩
  rw [step_of_finishing hwf h, hcore.scheduler]
  exact s.runtime.scheduler.put_put rfl

/-- A cancel that finishes nothing does nothing. -/
theorem runtime_of_not_cancelling (ex : ModelExecutor σ) {requestId : Option SeqId}
    {sessionId : Option SessionId} (h : s.finishing (.cancelRequest requestId sessionId) = none) :
    (s.step ex (.cancelRequest requestId sessionId)).runtime = s.runtime := by
  simp only [step, RuntimeCore.cancelRequest]
  cases hid : requestId.or (sessionId.bind s.runtime.activeBySession) with
  | none => rfl
  | some id =>
    cases hget : s.runtime.scheduler.get id with
    | none => simp [InteractiveScheduler.cancel, hget]
    | some q =>
      have hdone : q.isTerminal = true := by simpa [finishing, hid, hget] using h
      simp [InteractiveScheduler.cancel, hget, hdone]

/-- Any other event but `add_request` leaves the sessions and the finished requests alone. -/
theorem step_of_not_finishing (ex : ModelExecutor σ) (hwf : s.runtime.scheduler.WellFormed)
    {e : Event} (h : s.finishing e = none) (hadd : ∀ request, e ≠ .addRequest request) :
    (s.step ex e).runtime.sessions = s.runtime.sessions ∧
      (s.step ex e).runtime.activeBySession = s.runtime.activeBySession ∧
      (s.step ex e).runtime.metrics.requestsFinished = s.runtime.metrics.requestsFinished := by
  cases e with
  | addRequest request => exact absurd rfl (hadd request)
  | cancelRequest requestId sessionId =>
    rw [runtime_of_not_cancelling ex h]
    exact ⟨rfl, rfl, rfl⟩
  | resume id =>
    have hresumed := resumed ex s hwf id
    simp only [step]
    generalize s.resume ex id = s' at hresumed
    cases hresumed with
    | idle | emitted | buildFailed => exact ⟨rfl, rfl, rfl⟩
    | drained hq hdone hloop => simp [finishing, hloop, hq, hdone] at h
    | executed hq hlive hloop hsel hb hx =>
      exact ⟨rfl, rfl, (BatchContext.executed_of_eq hx).metrics.2.1⟩
  | close id =>
    rcases s.close_cases id with h | h <;> simp [step, h]
  | evict | tick => exact ⟨rfl, rfl, rfl⟩

/-- A finished sequence is stored with its session, up to its status. -/
theorem stored_of_finishing {e : Event} {q : Sequence} (h : s.finishing e = some q) :
    ∃ id q₀, s.runtime.scheduler.get id = some q₀ ∧ q.request = q₀.request ∧
      q.cacheHandle = q₀.cacheHandle := by
  rcases finishing_cases h with ⟨_, _, id, q₀, -, -, hget, -, rfl⟩ | ⟨id, -, -, hget, -⟩
  · exact ⟨id, q₀, hget, rfl, rfl⟩
  · exact ⟨id, q, hget, rfl, rfl⟩

/-- The runtime after a sequence of `session` was finished. -/
def finished (s : ServerState σ) (q : Sequence) (session : Session) : RuntimeCore σ :=
  { s.runtime with
    scheduler := s.runtime.scheduler.put (RuntimeCore.withAppended q
      (q.metadata.responseAppended || q.answer ≠ []))
    sessions := Function.update s.runtime.sessions q.sessionId (some (session.afterFinish q))
    activeBySession := Function.update s.runtime.activeBySession q.sessionId none
    metrics := if q.status = .finished then s.runtime.metrics.finishRequest else s.runtime.metrics
    prefixCache := s.runtime.prefixCache.release q.cacheHandle }

/-- What an event does to the sessions. -/
inductive SessionChange (s : ServerState σ) (rt' : RuntimeCore σ) : Event → Prop
  /-- Nothing, and no request is finished. -/
  | same {e : Event} (hadd : ∀ request, e ≠ .addRequest request) (hfin : s.finishing e = none)
      (hs : rt'.sessions = s.runtime.sessions)
      (ha : rt'.activeBySession = s.runtime.activeBySession)
      (hm : rt'.metrics.requestsFinished = s.runtime.metrics.requestsFinished) :
      SessionChange s rt' e
  /-- The messages of a request are appended, but it cannot be tokenized. -/
  | rejected (request : Request)
      (hs : rt'.sessions = Function.update s.runtime.sessions
        (s.runtime.resolvedId request.sessionId) (some (s.runtime.sessionOf request)))
      (ha : rt'.activeBySession = s.runtime.activeBySession)
      (hm : rt'.metrics = s.runtime.metrics)
      (hsched : rt'.scheduler = s.runtime.scheduler) : SessionChange s rt' (.addRequest request)
  /-- A request becomes the active one of its session. -/
  | added (request : Request) (seqId : SeqId) (inputIds : List TokenId) (m : PrefixMatch)
      (hs : rt'.sessions = Function.update s.runtime.sessions
        (s.runtime.resolvedId request.sessionId)
        (some { s.runtime.sessionOf request with activeSequenceId := some seqId }))
      (ha : rt'.activeBySession = Function.update s.runtime.activeBySession
        (s.runtime.resolvedId request.sessionId) (some seqId))
      (hm : rt'.metrics = s.runtime.metrics.startRequest)
      (hsched : rt'.scheduler = s.runtime.scheduler.addSequence (request.sequence seqId
        (s.runtime.resolvedId request.sessionId) inputIds m s.runtime.now)) :
      SessionChange s rt' (.addRequest request)
  /-- A sequence is finished. -/
  | finished {e : Event} (q : Sequence) (session : Session) (hfin : s.finishing e = some q)
      (hsession : s.runtime.sessions q.sessionId = some session)
      (hkey : session.sessionId = q.sessionId) (hrt : rt' = s.finished q session) :
      SessionChange s rt' e

theorem sessionChange (ex : ModelExecutor σ) (hwf : s.runtime.scheduler.WellFormed)
    (hs : s.runtime.SessionsStored) (e : Event) : SessionChange s (s.step ex e).runtime e := by
  cases hfin : s.finishing e with
  | some q =>
    obtain ⟨id, q₀, hget, hreq, -⟩ := stored_of_finishing hfin
    have hid : q₀.sessionId = q.sessionId := (Sequence.sessionId_of_request hreq).symm
    obtain ⟨session, hsession, hkey⟩ := hs.session hget
    rw [hid] at hsession hkey
    refine .finished q session hfin hsession hkey ?_
    let rt₁ : RuntimeCore σ := { s.runtime with scheduler := s.runtime.scheduler.put q }
    have heq := @RuntimeCore.finishSequence_eq σ rt₁ q session hsession hkey
      (InteractiveScheduler.get_put q)
    have hput := s.runtime.scheduler.put_put (s := q)
      (t := RuntimeCore.withAppended q (q.metadata.responseAppended || q.answer ≠ [])) rfl
    rw [step_of_finishing hwf hfin, heq, hput]
    rfl
  | none =>
    by_cases hadd : ∃ request, e = .addRequest request
    · obtain ⟨request, rfl⟩ := hadd
      rcases RuntimeCore.addRequest_sessions ex hs.keyed request with
        ⟨-, -, h, ha, hm, hsched⟩ | ⟨seqId, inputIds, m, -, h, ha, hm, hsched⟩
      · exact .rejected request h ha hm hsched
      · exact .added request seqId inputIds m h ha hm hsched
    · have hadd' : ∀ request, e ≠ .addRequest request := fun request he => hadd ⟨request, he⟩
      obtain ⟨h, ha, hm⟩ := step_of_not_finishing ex hwf hfin hadd'
      exact .same hadd' hfin h ha hm

variable {rt' : RuntimeCore σ} {e : Event}

/-- Writing back a session under its own id. -/
theorem sessions_of_update {sessions : SessionId → Option Session} {k : SessionId}
    {new : Session} (hk : new.sessionId = k)
    (hkeyed : ∀ sid session, sessions sid = some session → session.sessionId = sid) :
    (∀ sid session, Function.update sessions k (some new) sid = some session →
      session.sessionId = sid) ∧
    ∀ sid, (sessions sid).isSome → (Function.update sessions k (some new) sid).isSome := by
  constructor
  · intro sid session h
    by_cases hsid : sid = k
    · subst hsid
      rw [Function.update_self, Option.some.injEq] at h
      rw [← h, hk]
    · rw [Function.update_of_ne hsid] at h
      exact hkeyed sid session h
  · intro sid h
    by_cases hsid : sid = k
    · subst hsid
      simp
    · rwa [Function.update_of_ne hsid]

theorem sessionOf_sessionId (h : s.runtime.SessionsStored) (request : Request) :
    (s.runtime.sessionOf request).sessionId = s.runtime.resolvedId request.sessionId := by
  unfold RuntimeCore.sessionOf
  cases hs : s.runtime.sessions (s.runtime.resolvedId request.sessionId) with
  | none => rfl
  | some session => exact h.keyed _ session hs

/-- Sessions keep their keys, and none is removed. -/
theorem SessionChange.keyed (h : SessionChange s rt' e) (hs : s.runtime.SessionsStored) :
    rt'.SessionsKeyed ∧
      ∀ sid, (s.runtime.sessions sid).isSome → (rt'.sessions sid).isSome := by
  unfold RuntimeCore.SessionsKeyed
  cases h with
  | same hadd hfin h => simpa only [h] using ⟨hs.keyed, fun _ h => h⟩
  | rejected request h =>
    rw [h]
    exact sessions_of_update (sessionOf_sessionId hs request) hs.keyed
  | added request seqId inputIds m h =>
    rw [h]
    exact sessions_of_update (sessionOf_sessionId hs request) hs.keyed
  | finished q session hfin hsession hkey hrt =>
    subst hrt
    exact sessions_of_update hkey hs.keyed

theorem SessionsStored.step (hs : s.Sound) (h : s.runtime.SessionsStored) (e : Event) :
    (s.step ex e).runtime.SessionsStored := by
  have hsession := sessionChange ex hs.runtime.wellFormed h e
  obtain ⟨hkeyed, hsome⟩ := hsession.keyed h
  refine ⟨hkeyed, fun id q' hq' => Option.isSome_iff_exists.1 ?_⟩
  have hchange := step_change ex s hs.runtime.wellFormed e
  rcases hchange.get_cases hs.runtime hq' with
    ⟨q, hq, hreq⟩ | ⟨hnone, request, sid, ids, m, rfl, rfl⟩
  · rw [Sequence.sessionId_of_request hreq]
    exact hsome _ (Option.isSome_iff_exists.2 (h.stored id q hq))
  · generalize (s.step ex (.addRequest request)).runtime = rt' at hsession hq' hsome hchange
    cases hsession with
    | same hadd => exact absurd rfl (hadd request)
    | rejected _ _ _ _ hsched =>
      rw [hsched, hnone] at hq'
      cases hq'
    | added _ seqId inputIds m h _ _ hsched =>
      rw [hsched] at hq'
      rcases RuntimeCore.get_put_cases hq' with ⟨-, hq⟩ | ⟨-, hq⟩
      · rw [hq, h]
        exact Option.isSome_iff_exists.2 ⟨_, Function.update_self ..⟩
      · rw [hnone] at hq
        cases hq
    | finished q _ hfin => cases hfin

/-! ## The two records of the active request -/

/-- Nothing is finished in the step in a session whose active request is another one. -/
def KeepsActive (s : ServerState σ) (e : Event) : Prop :=
  ∀ q, s.finishing e = some q → ¬s.runtime.Superseded q

theorem activeSequence_update {rt rt' : RuntimeCore σ} {k : SessionId} {session : Session}
    (h : rt'.sessions = Function.update rt.sessions k (some session)) (sid : SessionId) :
    rt'.activeSequence sid =
      if sid = k then session.activeSequenceId else rt.activeSequence sid := by
  unfold RuntimeCore.activeSequence
  rw [h]
  by_cases hsid : sid = k
  · rw [if_pos hsid, hsid, Function.update_self]
    rfl
  · rw [if_neg hsid, Function.update_of_ne hsid]

theorem sessionOf_activeSequenceId (rt : RuntimeCore σ) (request : Request) :
    (rt.sessionOf request).activeSequenceId =
      rt.activeSequence (rt.resolvedId request.sessionId) := by
  unfold RuntimeCore.sessionOf RuntimeCore.activeSequence
  cases rt.sessions (rt.resolvedId request.sessionId) <;> rfl

theorem activeSequence_finished (s : ServerState σ) (q : Sequence) (session : Session)
    (sid : SessionId) : (s.finished q session).activeSequence sid =
      if sid = q.sessionId then (session.afterFinish q).activeSequenceId
        else s.runtime.activeSequence sid := by
  have h : ∀ sid, (s.finished q session).activeSequence sid = _ := activeSequence_update rfl
  exact h sid

/-- Where the two records agree, they agree after exactly the steps that finish nothing in a
session whose active request is another one. -/
theorem SessionChange.active_iff (h : SessionChange s rt' e)
    (hactive : ∀ sid, s.runtime.activeBySession sid = s.runtime.activeSequence sid) :
    (∀ sid, rt'.activeBySession sid = rt'.activeSequence sid) ↔ s.KeepsActive e := by
  cases h with
  | same hadd hfin hs ha =>
    refine iff_of_true (fun sid => ?_) fun q hq => ?_
    · rw [ha, hactive sid, RuntimeCore.activeSequence, RuntimeCore.activeSequence, hs]
    · rw [hfin] at hq
      cases hq
  | rejected request hs ha =>
    refine iff_of_true (fun sid => ?_) fun q hq => by cases hq
    rw [ha, hactive sid, activeSequence_update hs, sessionOf_activeSequenceId]
    split_ifs with hsid
    · rw [hsid]
    · rfl
  | added request seqId inputIds m hs ha =>
    refine iff_of_true (fun sid => ?_) fun q hq => by cases hq
    rw [ha, activeSequence_update hs, Function.update_apply]
    split_ifs
    · rfl
    · exact hactive sid
  | finished q session hfin hsession hkey hrt =>
    subst hrt
    have hq : s.runtime.activeSequence q.sessionId = session.activeSequenceId := by
      rw [RuntimeCore.activeSequence, hsession]
      rfl
    -- only the session of the finished sequence can disagree
    have hlocal : (∀ sid, (s.finished q session).activeBySession sid =
        (s.finished q session).activeSequence sid) ↔
          (session.afterFinish q).activeSequenceId = none := by
      refine ⟨fun h => ?_, fun h sid => ?_⟩
      · have hsid := h q.sessionId
        rw [activeSequence_finished, if_pos rfl] at hsid
        rw [← hsid]
        exact Function.update_self ..
      · rw [activeSequence_finished, h, ← hactive sid]
        exact Function.update_apply ..
    rw [hlocal]
    simp only [KeepsActive, hfin, Option.some.injEq, forall_eq', RuntimeCore.Superseded, hq,
      Session.afterFinish]
    cases session.activeSequenceId with
    | none => simp
    | some id => simp

/-- All states of a run track the active requests if and only if no step of it finishes a
request, by a cancel or by the end of its stream, in a session whose active request is another
one. -/
theorem activeTracked_run_iff (ex : ModelExecutor σ) (config : RuntimeConfig) (executor : σ)
    (es : List Event) :
    (∀ es', es' <+: es →
      (Transition.run (step ex) (init config executor) es').runtime.ActiveTracked) ↔
    Transition.Along (step ex) KeepsActive (init config executor) es := by
  refine Transition.forall_prefix_iff_along
    (I := fun s : ServerState σ => s.runtime.ActiveTracked)
    (J := fun s => s.Sound ∧ s.runtime.SessionsStored)
    (fun s e h => ⟨h.1.step e, SessionsStored.step h.1 h.2 e⟩) (fun s e hJ hI => ?_)
    ⟨sound_init config executor, RuntimeCore.sessionsStored_create config executor⟩ ?_ es
  · rw [← (sessionChange ex hJ.1.runtime.wellFormed hJ.2 e).active_iff hI.active]
    exact ⟨fun h => h.active, fun h =>
      RuntimeCore.activeTracked_of_active (hJ.1.step e).runtime.wellFormed h⟩
  · exact RuntimeCore.activeTracked_of_active (sound_init config executor).runtime.wellFormed
      fun _ => rfl

/-- A request is cancelled, another one of the session is added, and the stream of the first
is drained. -/
def lateDrainRun : List Event :=
  [.addRequest (shortRequest "a"), .cancelRequest (some 0) none, .addRequest (shortRequest "a"),
    .resume 0]

/-- The second request is live and its session names it, but a cancel by session finds none. -/
theorem not_activeTracked_run : ¬∀ (σ : Type) (ex : ModelExecutor σ) (config : RuntimeConfig)
    (executor : σ) (es : List Event),
    (Transition.run (step ex) (init config executor) es).runtime.ActiveTracked := by
  intro h
  have hcancel := (h Unit (deterministicExecutor false) smallConfig () lateDrainRun).cancel
  generalize hs : Transition.run (step (deterministicExecutor false)) (init smallConfig ())
    lateDrainRun = s at hcancel
  have hactive : s.runtime.activeSequence "a" = some 1 := by
    subst hs
    decide +kernel
  have hlive : (s.runtime.scheduler.get 1).map Sequence.isTerminal = some false := by
    subst hs
    decide +kernel
  obtain ⟨q, hq, hqlive⟩ := Option.map_eq_some_iff.1 hlive
  have hfound := (hcancel "a" 1 q hactive hq hqlive).1
  subst hs
  revert hfound
  decide +kernel

end ServerState

end SoloRT
