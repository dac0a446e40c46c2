import SoloRT.EarlyClose
import Mathlib.Algebra.BigOperators.Group.List.Basic
import Mathlib.Algebra.GroupWithZero.Nat

/-!
# Exactly-once completion

Messages reach a session from two places : `add_request` appends those of the request, and
`_finish_sequence` the answer. The second can run more than once for a request, since a cancel
runs it and so does the end of the stream, and it runs only then, however long ago the request
was finished, and by whichever stream.

`log` says what should have been posted by a run : the messages of each `add_request`, and the
response text of each finished request whose stream ends. The sessions hold exactly that
(`messages_step`), because a response is marked appended only when its stream is over
(`AppendedLate`). The two counters of the metrics are sums over the requests in the same way.
-/

namespace SoloRT

/-- Who wrote a post : a request, without an id if it could not be tokenized, or the answer to
one. -/
inductive Author
  | request (seqId : Option SeqId)
  | answer (seqId : SeqId)
  deriving DecidableEq, Repr

/-- Messages that reach a session together. -/
structure Post where
  author : Author
  sessionId : SessionId
  messages : List Message
  deriving DecidableEq, Repr

/-- The id of the request that the post is of. -/
def Post.requestId (post : Post) : Option SeqId :=
  match post.author with
  | .request seqId => seqId
  | .answer _ => none

/-- The answer that the end of the stream of a sequence should post. -/
def Sequence.answerPosts (sequence : Sequence) : List Post :=
  if sequence.status = .finished ∧ sequence.metadata.responseText ≠ [] then
    [⟨.answer sequence.seqId, sequence.sessionId, [⟨"assistant", sequence.metadata.responseText⟩]⟩]
  else []

theorem Sequence.filter_answerPosts (sequence : Sequence) (id : SeqId) :
    sequence.answerPosts.filter (·.author = .answer id) =
      if sequence.seqId = id then sequence.answerPosts else [] := by
  unfold answerPosts
  split_ifs with htext hid
  · simp [hid]
  · simp [hid]
  · rfl
  · rfl

theorem Sequence.answerPosts_of_live {sequence : Sequence} (h : sequence.isTerminal = false) :
    sequence.answerPosts = [] :=
  if_neg fun hfin => by simp [isTerminal, hfin.1] at h

theorem BatchContext.Executed.responseAppended {σ : Type} {ex : ModelExecutor σ}
    {c c' : BatchContext σ} {batch : Batch} {r : Except PyError (List Text)}
    (h : Executed ex c batch r c') :
    c'.sequence.metadata.responseAppended = c.sequence.metadata.responseAppended := by
  cases h with
  | skipped | attachFailed | prefillFailed | decodeFailed => rfl
  | @prefilled _ _ env' _ _ hs hb ha he hc =>
    rw [Sequence.postprocessBatch_prefill (s := (c.setEnv env').sequence) hs
      (ha.phase.trans hb)] at hc
    rcases cachePrefix_cases hc with ⟨rfl, -⟩ | ⟨-, -, -, -, -, rfl⟩ <;> rfl
  | @decoded _ _ env' _ samples hs hb ha he hn =>
    obtain ⟨xs, h | h⟩ := consumeSamples_sequence samples (c.setEnv env').sequence c.metrics <;>
      dsimp only <;> rw [h] <;> rfl

/-- Replacing one term of a sum over a list without duplicates. -/
theorem sum_map_of_eq_off {ι : Type*} [DecidableEq ι] {l : List ι} (hl : l.Nodup) {i : ι}
    (hi : i ∈ l) {f g : ι → ℕ} (h : ∀ j ≠ i, g j = f j) :
    (l.map g).sum + f i = (l.map f).sum + g i := by
  have herase : (l.erase i).map g = (l.erase i).map f :=
    List.map_congr_left fun j hj => h j (hl.mem_erase_iff.1 hj).1
  rw [← List.sum_map_erase f hi, ← List.sum_map_erase g hi, herase]
  omega

namespace RuntimeCore

variable {σ : Type} {rt : RuntimeCore σ}

/-- The messages of a session, none before it exists. -/
def sessionMessages (rt : RuntimeCore σ) (sid : SessionId) : List Message :=
  ((rt.sessions sid).map Session.messages).getD []

/-- The number of tokens in the `output_ids` of a request. -/
def generated (rt : RuntimeCore σ) (id : SeqId) : ℕ :=
  ((rt.scheduler.get id).map fun q => q.outputIds.length).getD 0

end RuntimeCore

namespace ServerState

variable {σ : Type} {ex : ModelExecutor σ} {s : ServerState σ} {e : Event}

/-- What an event should post. -/
def posts (ex : ModelExecutor σ) (s : ServerState σ) : Event → List Post
  | .addRequest request => [⟨.request (s.runtime.addRequest ex request).1.toOption,
      s.runtime.resolvedId request.sessionId, request.messages⟩]
  | .resume id =>
    if (s.streams id).phase = .loop then
      ((s.runtime.scheduler.get id).map Sequence.answerPosts).getD []
    else []
  | _ => []

/-- What a run should post, in order. -/
def log (ex : ModelExecutor σ) (s : ServerState σ) (es : List Event) : List Post :=
  Transition.outputs (step ex) (posts ex) s es

/-- The request is FINISHED and its stream was drained. -/
def completed (s : ServerState σ) (id : SeqId) : Bool :=
  (s.streams id).phase = .finished &&
    (s.runtime.scheduler.get id).any fun q => q.status = .finished

/-! ## The end of a stream -/

/-- A stream that was not over ends exactly where it is resumed at its loop with a terminal
request. -/
theorem drained_iff (hs : s.Sound) {id : SeqId} (hnot : (s.streams id).phase ≠ .finished) :
    ((s.step ex e).streams id).phase = .finished ↔ e = .resume id ∧
      (s.streams id).phase = .loop ∧
      ∃ q, s.runtime.scheduler.get id = some q ∧ q.isTerminal = true := by
  constructor
  · intro h
    cases e with
    | addRequest | cancelRequest | evict | tick => exact absurd h hnot
    | close seqId =>
      rcases s.close_cases seqId with heq | heq
      · exact absurd (by simpa [step, heq] using h) hnot
      · by_cases hid : id = seqId
        · subst hid
          simp [step, heq, setStream] at h
        · exact absurd (by simpa [step, heq, setStream, hid] using h) hnot
    | resume seqId =>
      have hresumed := resumed ex s hs.runtime.wellFormed seqId
      simp only [step] at h
      by_cases hid : id = seqId
      · subst hid
        generalize s.resume ex id = s' at hresumed h
        cases hresumed with
        | idle => exact absurd h hnot
        | @emitted rest => cases rest <;> simp [setStream, StreamState.emit] at h
        | @drained q hq hdone hloop => exact ⟨rfl, hloop, q, hq, hdone⟩
        | buildFailed => simp [setStream] at h
        | @executed q sel batch r c hq hlive hloop =>
          obtain e | texts := r
          · simp [setStream, StreamState.afterBatch] at h
          · simp only [setStream, Function.update_self, StreamState.afterBatch] at h
            split_ifs at h
            · cases texts <;> simp [StreamState.emit] at h
            · exact absurd h hnot
      · rw [hresumed.streams hid] at h
        exact absurd h hnot
  · rintro ⟨rfl, hloop, q, hq, hdone⟩
    obtain rfl : q.seqId = id := hs.runtime.wellFormed.seqId_eq _ _ hq
    simp [step, resume, turn, hq, hloop, hdone, setStream]

/-- What an event posts in answer to a request. -/
theorem posts_answers (hs : s.Sound) (id : SeqId) :
    (s.posts ex e).filter (·.author = .answer id) =
      if e = .resume id ∧ (s.streams id).phase = .loop then
        ((s.runtime.scheduler.get id).map Sequence.answerPosts).getD []
      else [] := by
  cases e with
  | addRequest | cancelRequest | close | evict | tick => simp [posts]
  | resume seqId =>
    by_cases hid : seqId = id
    · subst hid
      by_cases hloop : (s.streams seqId).phase = .loop
      · cases hq : s.runtime.scheduler.get seqId with
        | none => simp [posts, hloop, hq]
        | some q =>
          obtain rfl : q.seqId = seqId := hs.runtime.wellFormed.seqId_eq _ _ hq
          simp [posts, hloop, hq, Sequence.filter_answerPosts]
      · simp [posts, hloop]
    · rw [if_neg (by simp [hid])]
      by_cases hloop : (s.streams seqId).phase = .loop
      · cases hq : s.runtime.scheduler.get seqId with
        | none => simp [posts, hloop, hq]
        | some q =>
          obtain rfl : q.seqId = seqId := hs.runtime.wellFormed.seqId_eq _ _ hq
          simp [posts, hloop, hq, Sequence.filter_answerPosts, hid]
      · simp [posts, hloop]

/-- What is posted in answer to each request, and of whom the streams are over. -/
structure Answered (ex : ModelExecutor σ) (s₀ : ServerState σ) (es : List Event)
    (s : ServerState σ) : Prop where
  drained : ∀ id, (s.streams id).phase = .finished →
    ∃ q, s.runtime.scheduler.get id = some q ∧ q.isTerminal = true
  answers : ∀ id, (log ex s₀ es).filter (·.author = .answer id) =
    if (s.streams id).phase = .finished then
      ((s.runtime.scheduler.get id).map Sequence.answerPosts).getD []
    else []

theorem Answered.step {s₀ : ServerState σ} {es : List Event}
    (hrun : Transition.run (ServerState.step ex) s₀ es = s) (hs : s.Sound)
    (h : Answered ex s₀ es s) (e : Event) : Answered ex s₀ (es ++ [e]) (s.step ex e) := by
  have hchange := step_change ex s hs.runtime.wellFormed e
  refine ⟨fun id hphase => ?_, fun id => ?_⟩
  · by_cases hold : (s.streams id).phase = .finished
    · obtain ⟨q, hq, hdone⟩ := h.drained id hold
      obtain ⟨b, hq'⟩ := hchange.get_terminal hs.runtime hq hdone
      exact ⟨_, hq', hdone⟩
    · obtain ⟨-, -, q, hq, hdone⟩ := (drained_iff hs hold).1 hphase
      obtain ⟨b, hq'⟩ := hchange.get_terminal hs.runtime hq hdone
      exact ⟨_, hq', hdone⟩
  · rw [log, Transition.outputs_concat, hrun, List.filter_append, posts_answers hs]
    have hlog := h.answers id
    rw [log] at hlog
    rw [hlog]
    by_cases hold : (s.streams id).phase = .finished
    · -- the stream was over, and posts nothing more
      obtain ⟨q, hq, hdone⟩ := h.drained id hold
      obtain ⟨b, hq'⟩ := hchange.get_terminal hs.runtime hq hdone
      rw [if_pos hold, if_pos (phase_finished_step hs e hold), if_neg (by simp [hold]), hq, hq',
        List.append_nil]
      rfl
    · rw [if_neg hold, List.nil_append]
      by_cases hend : ((s.step ex e).streams id).phase = .finished
      · obtain ⟨he, hloop, q, hq, hdone⟩ := (drained_iff hs hold).1 hend
        obtain ⟨b, hq'⟩ := hchange.get_terminal hs.runtime hq hdone
        rw [if_pos ⟨he, hloop⟩, if_pos hend, hq, hq']
        rfl
      · rw [if_neg hend]
        split_ifs with hturn
        · cases hq : s.runtime.scheduler.get id with
          | none => rfl
          | some q =>
            -- a terminal one would end its stream
            refine Sequence.answerPosts_of_live (Bool.eq_false_iff.2 fun hdone => hend ?_)
            exact (drained_iff hs hold).2 ⟨hturn.1, hturn.2, q, hq, hdone⟩
        · rfl

/-! ## The messages of a session -/

/-- An event that neither adds nor finishes a request writes back one live request at most,
and counts the tokens it appends. -/
theorem step_of_working (ex : ModelExecutor σ) (hs : s.Sound)
    (hadd : ∀ request, e ≠ .addRequest request) (hfin : s.finishing e = none) :
    ((s.step ex e).runtime.scheduler = s.runtime.scheduler ∧
      (s.step ex e).runtime.metrics.tokensGenerated = s.runtime.metrics.tokensGenerated) ∨
    ∃ q q', s.runtime.scheduler.get q'.seqId = some q ∧
      (s.step ex e).runtime.scheduler = s.runtime.scheduler.put q' ∧
      q'.metadata.responseAppended = q.metadata.responseAppended ∧
      (s.step ex e).runtime.metrics.tokensGenerated + q.outputIds.length =
        s.runtime.metrics.tokensGenerated + q'.outputIds.length := by
  have hwf := hs.runtime.wellFormed
  cases e with
  | addRequest request => exact absurd rfl (hadd request)
  | cancelRequest requestId sessionId =>
    rw [runtime_of_not_cancelling ex hfin]
    exact .inl ⟨rfl, rfl⟩
  | resume id =>
    have hresumed := resumed ex s hwf id
    simp only [step]
    generalize s.resume ex id = s' at hresumed
    cases hresumed with
    | idle | emitted => exact .inl ⟨rfl, rfl⟩
    | drained hq hdone hloop => simp [finishing, hloop, hq, hdone] at hfin
    | @buildFailed q sel e hq hlive hloop hsel hb =>
      exact .inr ⟨sel, sel.scheduled, (hwf.selectNextSequence hsel).1, rfl, rfl, rfl⟩
    | @executed q sel batch r c hq hlive hloop hsel hb hx =>
      have hx := BatchContext.executed_of_eq hx
      refine .inr ⟨sel, c.sequence, ?_, rfl, hx.responseAppended, hx.metrics.1⟩
      rw [hx.seqId]
      exact (hwf.selectNextSequence hsel).1
  | close id =>
    rcases s.close_cases id with h | h <;> exact .inl (by simp [step, h])
  | evict | tick => exact .inl ⟨rfl, rfl⟩

/-- A response is marked appended only when its stream is over. -/
def AppendedLate (s : ServerState σ) : Prop :=
  ∀ id q, s.runtime.scheduler.get id = some q → q.metadata.responseAppended = true →
    (s.streams id).phase = .finished

theorem AppendedLate.step (hs : s.Sound) (hst : s.runtime.SessionsStored) (h : s.AppendedLate)
    (e : Event) : (s.step ex e).AppendedLate := by
  intro id q' hq' happ
  have hold : ∀ q, s.runtime.scheduler.get id = some q → q.metadata.responseAppended = true →
      ((s.step ex e).streams id).phase = .finished := fun q hq happ =>
    phase_finished_step hs e (h id q hq happ)
  cases sessionChange ex hs.runtime.wellFormed hst e with
  | same hadd hfin =>
    rcases step_of_working ex hs hadd hfin with ⟨hsched, -⟩ | ⟨q, t, hq, hsched, hmark, -⟩
    · exact hold q' (by rwa [hsched] at hq') happ
    · rw [hsched] at hq'
      rcases RuntimeCore.get_put_cases hq' with ⟨rfl, rfl⟩ | ⟨-, hq'⟩
      · exact hold q hq (hmark.symm.trans happ)
      · exact hold q' hq' happ
  | rejected request _ _ _ hsched => exact hold q' (by rwa [hsched] at hq') happ
  | added request seqId inputIds m _ _ _ hsched =>
    rw [hsched] at hq'
    rcases RuntimeCore.get_put_cases hq' with ⟨-, rfl⟩ | ⟨-, hq'⟩
    · cases happ
    · exact hold q' hq' happ
  | finished q session hfin _ _ hrt =>
    have hsched : (s.step ex e).runtime.scheduler = s.runtime.scheduler.put
        (RuntimeCore.withAppended q (q.metadata.responseAppended || q.answer ≠ [])) := by
      rw [hrt]
      rfl
    rw [hsched] at hq'
    rcases RuntimeCore.get_put_cases hq' with ⟨hid, rfl⟩ | ⟨-, hq'⟩
    · rcases finishing_cases hfin with
        ⟨_, _, id', q₀, rfl, -, hget, -, rfl⟩ | ⟨id', rfl, hloop, hget, hdone⟩
      · -- a cancelled request has no answer
        obtain rfl : q₀.seqId = id' := hs.runtime.wellFormed.seqId_eq _ _ hget
        obtain rfl : id = q₀.seqId := hid
        refine hold q₀ hget ?_
        simpa [RuntimeCore.withAppended, Sequence.answer, Sequence.markCancelled] using happ
      · obtain rfl : q.seqId = id' := hs.runtime.wellFormed.seqId_eq _ _ hget
        obtain rfl : id = q.seqId := hid
        simp [ServerState.step, resume, turn, hget, hloop, hdone, setStream]
    · exact hold q' hq' happ

/-- The messages of a session after it was written back with more messages. -/
theorem sessionMessages_update {rt rt' : RuntimeCore σ} {k : SessionId} {session : Session}
    {messages : List Message} (h : rt'.sessions = Function.update rt.sessions k (some session))
    (hm : session.messages = rt.sessionMessages k ++ messages) (sid : SessionId) :
    rt'.sessionMessages sid = rt.sessionMessages sid ++ if k = sid then messages else [] := by
  unfold RuntimeCore.sessionMessages at hm ⊢
  rw [h]
  by_cases hsid : k = sid
  · subst hsid
    simp [hm]
  · simp [Function.update_of_ne (Ne.symm hsid), hsid]

theorem sessionOf_messages (rt : RuntimeCore σ) (request : Request) :
    (rt.sessionOf request).messages =
      rt.sessionMessages (rt.resolvedId request.sessionId) ++ request.messages := by
  unfold RuntimeCore.sessionOf RuntimeCore.sessionMessages
  cases rt.sessions (rt.resolvedId request.sessionId) <;> rfl

/-- A session receives exactly the messages that an event should post to it. -/
theorem messages_step (hs : s.Sound) (hst : s.runtime.SessionsStored) (happ : s.AppendedLate)
    (e : Event) (sid : SessionId) :
    (s.step ex e).runtime.sessionMessages sid = s.runtime.sessionMessages sid ++
      ((s.posts ex e).filter (·.sessionId = sid)).flatMap Post.messages := by
  have hwf := hs.runtime.wellFormed
  have hone : ∀ post : Post, ([post].filter (·.sessionId = sid)).flatMap Post.messages =
      if post.sessionId = sid then post.messages else [] := by
    intro post
    by_cases hsid : post.sessionId = sid <;> simp [hsid]
  have hsession := sessionChange ex hwf hst e
  generalize (s.step ex e).runtime = rt' at hsession
  cases hsession with
  | @same e hadd hfin h =>
    have hposts : s.posts ex e = [] := by
      cases e with
      | addRequest request => exact absurd rfl (hadd request)
      | cancelRequest | close | evict | tick => rfl
      | resume id =>
        simp only [posts]
        split_ifs with hloop
        · cases hq : s.runtime.scheduler.get id with
          | none => rfl
          | some q =>
            refine Sequence.answerPosts_of_live (Bool.eq_false_iff.2 fun hdone => ?_)
            simp [finishing, hloop, hq, hdone] at hfin
        · rfl
    simp [RuntimeCore.sessionMessages, h, hposts]
  | rejected request h =>
    rw [posts, hone]
    exact sessionMessages_update h (sessionOf_messages s.runtime request) sid
  | added request seqId inputIds m h =>
    rw [posts, hone]
    exact sessionMessages_update h (sessionOf_messages s.runtime request) sid
  | finished q session hfin hget hkey hrt =>
    have hm : (session.afterFinish q).messages =
        s.runtime.sessionMessages q.sessionId ++ q.answer := by
      simp [Session.afterFinish, RuntimeCore.sessionMessages, hget]
    rw [sessionMessages_update (by rw [hrt]; rfl) hm sid]
    congr 1
    rcases finishing_cases hfin with
      ⟨_, _, id, q₀, rfl, -, hq, -, rfl⟩ | ⟨id, rfl, hloop, hq, hdone⟩
    · simp [posts, Sequence.answer, Sequence.markCancelled]
    · have hmark : q.metadata.responseAppended = false := by
        refine Bool.eq_false_iff.2 fun h => ?_
        rw [happ id q hq h] at hloop
        cases hloop
      by_cases htext : q.status = .finished ∧ q.metadata.responseText ≠ []
      · simp only [posts, hloop, hq, if_true, Option.map_some, Option.getD_some,
          Sequence.answerPosts, if_pos htext, hone]
        simp [Sequence.answer, htext, hmark]
      · have hanswer : q.answer = [] := if_neg fun h => htext ⟨h.1, h.2.2⟩
        simp [posts, hloop, hq, Sequence.answerPosts, if_neg htext, hanswer]

/-! ## The posts of the requests -/

theorem requestIds_of_not_added (ex : ModelExecutor σ) (s : ServerState σ)
    (hadd : ∀ request, e ≠ .addRequest request) :
    (s.posts ex e).filterMap Post.requestId = [] := by
  cases e with
  | addRequest request => exact absurd rfl (hadd request)
  | cancelRequest | close | evict | tick => rfl
  | resume id =>
    simp only [posts]
    split_ifs with hloop
    · cases hq : s.runtime.scheduler.get id with
      | none => rfl
      | some q =>
        simp only [Option.map_some, Option.getD_some, Sequence.answerPosts]
        split_ifs <;> rfl
    · rfl

/-- The scheduler receives exactly the requests that an event posts messages of, under new
ids. -/
theorem order_step (ex : ModelExecutor σ) (hs : s.Sound) (hst : s.runtime.SessionsStored)
    (e : Event) :
    (s.step ex e).runtime.scheduler.order =
        s.runtime.scheduler.order ++ (s.posts ex e).filterMap Post.requestId ∧
      ∀ post ∈ s.posts ex e, ∀ id, post.requestId = some id →
        s.runtime.scheduler.get id = none ∧
          ∃ q, (s.step ex e).runtime.scheduler.get id = some q ∧ q.sessionId = post.sessionId := by
  by_cases hadd : ∃ request, e = .addRequest request
  · obtain ⟨request, rfl⟩ := hadd
    rcases RuntimeCore.addRequest_cases ex s.runtime request with
      ⟨err, herr, hcore, -⟩ | ⟨seqId, -, -, -, hok, -, hid, -⟩
    · simp [step, posts, Post.requestId, herr, hcore.scheduler, Except.toOption]
    · rcases RuntimeCore.addRequest_sessions ex hst.keyed request with
        ⟨err, herr, -⟩ | ⟨seqId', inputIds, m, hok', -, -, -, hsched⟩
      · rw [hok] at herr
        cases herr
      · obtain rfl : seqId = seqId' := by simpa [hok] using hok'
        refine ⟨by simp [step, posts, Post.requestId, hok, hsched, Except.toOption,
          InteractiveScheduler.addSequence], ?_⟩
        simp only [posts, List.mem_singleton, forall_eq, Post.requestId, hok, Except.toOption,
          Option.some.injEq, forall_eq']
        refine ⟨hs.runtime.get_eq_none hid, request.sequence seqId
          (s.runtime.resolvedId request.sessionId) inputIds m s.runtime.now, ?_, rfl⟩
        simp only [step, hsched]
        exact InteractiveScheduler.get_addSequence s.runtime.scheduler (request.sequence ..)
  · have hadd' : ∀ request, e ≠ .addRequest request := fun request he => hadd ⟨request, he⟩
    have hnone := requestIds_of_not_added ex s hadd'
    constructor
    · rw [hnone, List.append_nil]
      cases sessionChange ex hs.runtime.wellFormed hst e with
      | same _ hfin =>
        rcases step_of_working ex hs hadd' hfin with ⟨hsched, -⟩ | ⟨q, q', -, hsched, -⟩ <;>
          rw [hsched]
        rfl
      | rejected request => exact absurd rfl (hadd' request)
      | added request => exact absurd rfl (hadd' request)
      | finished q session hfin _ _ hrt =>
        rw [hrt]
        rfl
    · intro post hpost id hid
      have hmem : id ∈ (s.posts ex e).filterMap Post.requestId :=
        List.mem_filterMap.2 ⟨post, hpost, hid⟩
      rw [hnone] at hmem
      cases hmem

/-- The requests whose messages were posted are the requests of the scheduler. -/
structure Requested (ex : ModelExecutor σ) (s₀ : ServerState σ) (es : List Event)
    (s : ServerState σ) : Prop where
  requests : (log ex s₀ es).filterMap Post.requestId = s.runtime.scheduler.order
  nodup : s.runtime.scheduler.order.Nodup
  session : ∀ post ∈ log ex s₀ es, ∀ id, post.requestId = some id →
    ∃ q, s.runtime.scheduler.get id = some q ∧ q.sessionId = post.sessionId

theorem Requested.step {s₀ : ServerState σ} {es : List Event}
    (hrun : Transition.run (ServerState.step ex) s₀ es = s) (hs : s.Sound)
    (hst : s.runtime.SessionsStored) (h : Requested ex s₀ es s) (e : Event) :
    Requested ex s₀ (es ++ [e]) (s.step ex e) := by
  obtain ⟨horder, hnew⟩ := order_step ex hs hst e
  have hlog : log ex s₀ (es ++ [e]) = log ex s₀ es ++ s.posts ex e := by
    rw [log, Transition.outputs_concat, hrun]
    rfl
  refine ⟨by rw [hlog, List.filterMap_append, h.requests, horder], ?_, fun post hpost id hid => ?_⟩
  · rw [horder, List.nodup_append]
    refine ⟨h.nodup, ?_, ?_⟩
    · -- an event adds one request at most
      cases e with
      | addRequest request =>
        cases hid : (s.runtime.addRequest ex request).1.toOption <;>
          simp [posts, List.filterMap_cons, Post.requestId, hid]
      | cancelRequest | resume | close | evict | tick =>
        rw [requestIds_of_not_added ex s (by simp)]
        exact List.nodup_nil
    · rintro id hid _ hid' rfl
      obtain ⟨post, hpost, hpid⟩ := List.mem_filterMap.1 hid'
      obtain ⟨hnone, -⟩ := hnew post hpost id hpid
      rw [hs.runtime.wellFormed.mem_order] at hid
      rw [InteractiveScheduler.get] at hnone
      simp [hnone] at hid
  · rw [hlog, List.mem_append] at hpost
    rcases hpost with hpost | hpost
    · obtain ⟨q, hq, hsid⟩ := h.session post hpost id hid
      obtain ⟨q', hq', hreq⟩ := (step_change ex s hs.runtime.wellFormed e).get_some hs.runtime hq
      exact ⟨q', hq', (Sequence.sessionId_of_request hreq).trans hsid⟩
    · exact (hnew post hpost id hid).2

/-! ## The metrics -/

theorem fresh_of_order (hs : s.Sound) (hst : s.runtime.SessionsStored) {seqId : SeqId}
    (h : (s.step ex e).runtime.scheduler.order = s.runtime.scheduler.order ++ [seqId]) :
    seqId ∉ s.runtime.scheduler.order := by
  obtain ⟨horder, hnew⟩ := order_step ex hs hst e
  have hmem : seqId ∈ (s.posts ex e).filterMap Post.requestId := by
    rw [← List.append_cancel_left (h.symm.trans horder)]
    exact List.mem_singleton_self seqId
  obtain ⟨post, hpost, hid⟩ := List.mem_filterMap.1 hmem
  have hnone := (hnew post hpost seqId hid).1
  rw [InteractiveScheduler.get] at hnone
  simp [hs.runtime.wellFormed.mem_order, hnone]

/-- The tokens of the requests after one of them was written back. -/
theorem generated_put {rt rt' : RuntimeCore σ} {q q' : Sequence} (hwf : rt.scheduler.WellFormed)
    (hnd : rt.scheduler.order.Nodup) (hq : rt.scheduler.get q'.seqId = some q)
    (h : rt'.scheduler = rt.scheduler.put q') :
    (rt'.scheduler.order.map rt'.generated).sum + q.outputIds.length =
      (rt.scheduler.order.map rt.generated).sum + q'.outputIds.length := by
  have hmem : q'.seqId ∈ rt.scheduler.order :=
    (hwf.mem_order _).2 (by rw [← InteractiveScheduler.get, hq]; rfl)
  have hold : rt.generated q'.seqId = q.outputIds.length := by
    simp [RuntimeCore.generated, hq]
  have hnew : rt'.generated q'.seqId = q'.outputIds.length := by
    simp [RuntimeCore.generated, h, InteractiveScheduler.get_put]
  have hother : ∀ id ≠ q'.seqId, rt'.generated id = rt.generated id := fun id hid => by
    simp [RuntimeCore.generated, h, InteractiveScheduler.get_put_of_ne hid]
  have hsum := sum_map_of_eq_off hnd hmem hother
  rw [hold, hnew] at hsum
  rwa [h, InteractiveScheduler.put_order]

/-- `tokens_generated` counts the tokens in the `output_ids` of all requests. -/
theorem tokens_step (ex : ModelExecutor σ) (hs : s.Sound) (hst : s.runtime.SessionsStored)
    (hnd : s.runtime.scheduler.order.Nodup) (e : Event) :
    (s.step ex e).runtime.metrics.tokensGenerated +
        (s.runtime.scheduler.order.map s.runtime.generated).sum =
      s.runtime.metrics.tokensGenerated +
        ((s.step ex e).runtime.scheduler.order.map (s.step ex e).runtime.generated).sum := by
  have hwf := hs.runtime.wellFormed
  have hsame : ∀ {rt' : RuntimeCore σ}, rt'.scheduler = s.runtime.scheduler →
      (rt'.scheduler.order.map rt'.generated).sum =
        (s.runtime.scheduler.order.map s.runtime.generated).sum := by
    intro rt' h
    have hgen : rt'.generated = s.runtime.generated := by
      ext id
      rw [RuntimeCore.generated, h, RuntimeCore.generated]
    rw [h, hgen]
  cases sessionChange ex hwf hst e with
  | same hadd hfin =>
    rcases step_of_working ex hs hadd hfin with
      ⟨hsched, htokens⟩ | ⟨q, q', hq, hsched, -, htokens⟩
    · rw [hsame hsched, htokens]
    · have hput := generated_put hwf hnd hq hsched
      omega
  | rejected request _ _ hm hsched => rw [hsame hsched, hm]
  | added request seqId inputIds m _ _ hm hsched =>
    have horder : (s.step ex (.addRequest request)).runtime.scheduler.order =
        s.runtime.scheduler.order ++ [seqId] := by
      rw [hsched]
      rfl
    have hfresh := fresh_of_order hs hst horder
    have hget : (s.step ex (.addRequest request)).runtime.scheduler.get seqId = some
        (request.sequence seqId (s.runtime.resolvedId request.sessionId) inputIds m
          s.runtime.now) := by
      rw [hsched]
      exact InteractiveScheduler.get_addSequence s.runtime.scheduler (request.sequence ..)
    have hnew : (s.step ex (.addRequest request)).runtime.generated seqId = 0 := by
      rw [RuntimeCore.generated, hget]
      rfl
    have hold : s.runtime.scheduler.order.map
        (s.step ex (.addRequest request)).runtime.generated =
          s.runtime.scheduler.order.map s.runtime.generated := by
      refine List.map_congr_left fun id hid => ?_
      have hne : id ≠ seqId := by
        rintro rfl
        exact hfresh hid
      rw [RuntimeCore.generated, hsched, InteractiveScheduler.get_addSequence_of_ne hne,
        RuntimeCore.generated]
    rw [horder, List.map_append, List.sum_append, hold, List.map_singleton, List.sum_singleton,
      hnew, hm]
    rfl
  | finished q session hfin _ _ hrt =>
    have hstored : ∃ q₀, s.runtime.scheduler.get q.seqId = some q₀ ∧
        q₀.outputIds = q.outputIds := by
      rcases finishing_cases hfin with ⟨_, _, id, q₀, -, -, hq, -, rfl⟩ | ⟨id, -, -, hq, -⟩
      · obtain rfl : q₀.seqId = id := hwf.seqId_eq _ _ hq
        exact ⟨q₀, hq, rfl⟩
      · obtain rfl : q.seqId = id := hwf.seqId_eq _ _ hq
        exact ⟨q, hq, rfl⟩
    obtain ⟨q₀, hq₀, hout⟩ := hstored
    have hsched : (s.step ex e).runtime.scheduler = s.runtime.scheduler.put
        (RuntimeCore.withAppended q (q.metadata.responseAppended || q.answer ≠ [])) := by
      rw [hrt]
      rfl
    have hput := generated_put (q := q₀) hwf hnd (by exact hq₀) hsched
    have htokens : (s.step ex e).runtime.metrics.tokensGenerated =
        s.runtime.metrics.tokensGenerated := by
      rw [hrt, finished]
      split_ifs <;> rfl
    have hout' : (RuntimeCore.withAppended q (q.metadata.responseAppended ||
        q.answer ≠ [])).outputIds = q₀.outputIds := hout.symm
    rw [hout'] at hput
    omega

/-- A request becomes completed in the step that drains the stream of a finished one. -/
theorem completed_step (ex : ModelExecutor σ) (hs : s.Sound)
    (hdrained : ∀ id, (s.streams id).phase = .finished →
      ∃ q, s.runtime.scheduler.get id = some q ∧ q.isTerminal = true) (id : SeqId) :
    (s.step ex e).completed id = (s.completed id ||
      (e = .resume id && (s.finishing e).any fun q => q.status = .finished)) := by
  have hchange := step_change ex s hs.runtime.wellFormed e
  by_cases hold : (s.streams id).phase = .finished
  · obtain ⟨q, hq, hdone⟩ := hdrained id hold
    obtain ⟨b, hq'⟩ := hchange.get_terminal hs.runtime hq hdone
    have hno : (e = .resume id && (s.finishing e).any fun q => q.status = .finished) = false := by
      by_cases he : e = .resume id
      · simp [he, finishing, hold]
      · simp [he]
    rw [hno, Bool.or_false]
    simp [completed, hold, phase_finished_step hs e hold, hq, hq', RuntimeCore.withAppended]
  · have hlive : s.completed id = false := by simp [completed, hold]
    rw [hlive, Bool.false_or]
    by_cases hend : ((s.step ex e).streams id).phase = .finished
    · obtain ⟨rfl, hloop, q, hq, hdone⟩ := (drained_iff hs hold).1 hend
      obtain ⟨b, hq'⟩ := hchange.get_terminal hs.runtime hq hdone
      simp [completed, hend, hq', finishing, hloop, hq, hdone, Option.filter,
        RuntimeCore.withAppended]
    · have hnot : (s.step ex e).completed id = false := by simp [completed, hend]
      rw [hnot, eq_comm, Bool.and_eq_false_iff]
      by_cases he : e = .resume id
      · subst he
        refine .inr ?_
        cases hfin : s.finishing (.resume id) with
        | none => rfl
        | some q =>
          rcases finishing_cases hfin with ⟨_, _, _, _, he, -⟩ | ⟨id', he, hloop, hq, hdone⟩
          · cases he
          · cases he
            exact absurd ((drained_iff hs hold).2 ⟨rfl, hloop, q, hq, hdone⟩) hend
      · exact .inl (by simp [he])

theorem countP_eq_sum {ι : Type*} (p : ι → Bool) (l : List ι) :
    l.countP p = (l.map fun i => (p i).toNat).sum := by
  induction l with
  | nil => rfl
  | cons i l ih => cases h : p i <;> simp [h, ih, add_comm]

/-- `requests_finished` counts the finished requests whose streams were drained. -/
theorem requestsFinished_step (ex : ModelExecutor σ) (hs : s.Sound) (hst : s.runtime.SessionsStored)
    (hnd : s.runtime.scheduler.order.Nodup)
    (hdrained : ∀ id, (s.streams id).phase = .finished →
      ∃ q, s.runtime.scheduler.get id = some q ∧ q.isTerminal = true) (e : Event) :
    (s.step ex e).runtime.metrics.requestsFinished + s.runtime.scheduler.order.countP s.completed =
      s.runtime.metrics.requestsFinished +
        (s.step ex e).runtime.scheduler.order.countP (s.step ex e).completed := by
  have hwf := hs.runtime.wellFormed
  have hcompleted := completed_step ex (e := e) hs hdrained
  have hsame : ((s.finishing e).any fun q => q.status = .finished) = false →
      (s.step ex e).completed = s.completed := by
    intro h
    ext id
    rw [hcompleted, h, Bool.and_false, Bool.or_false]
  cases sessionChange ex hwf hst e with
  | same hadd hfin _ _ hm =>
    have horder := (order_step ex hs hst e).1
    rw [requestIds_of_not_added ex s hadd, List.append_nil] at horder
    rw [hsame (by rw [hfin]; rfl), horder, hm]
  | rejected request _ _ hm hsched => rw [hsame rfl, hsched, hm]
  | added request seqId inputIds m _ _ hm hsched =>
    have horder : (s.step ex (.addRequest request)).runtime.scheduler.order =
        s.runtime.scheduler.order ++ [seqId] := by
      rw [hsched]
      rfl
    have hfresh := fresh_of_order hs hst horder
    have hnew : s.completed seqId = false := by
      rw [hwf.mem_order, Option.not_isSome_iff_eq_none] at hfresh
      simp [completed, InteractiveScheduler.get, hfresh]
    rw [hsame rfl, horder, List.countP_append, List.countP_singleton, hnew, hm]
    rfl
  | finished q session hfin _ _ hrt =>
    have horder : (s.step ex e).runtime.scheduler.order = s.runtime.scheduler.order := by
      rw [hrt]
      rfl
    by_cases hstatus : q.status = .finished
    · have hm : (s.step ex e).runtime.metrics.requestsFinished =
          s.runtime.metrics.requestsFinished + 1 := by
        rw [hrt, finished, if_pos hstatus]
        rfl
      rcases finishing_cases hfin with
        ⟨_, _, _, q₀, -, -, -, -, rfl⟩ | ⟨id, rfl, hloop, hq, hdone⟩
      · cases hstatus
      · have hmem : id ∈ s.runtime.scheduler.order :=
          (hwf.mem_order _).2 (by rw [← InteractiveScheduler.get, hq]; rfl)
        have hold : s.completed id = false := by simp [completed, hloop]
        have hnew : (s.step ex (.resume id)).completed id = true := by
          simp [hcompleted, hfin, hstatus]
        have hother : ∀ id' ≠ id, ((s.step ex (.resume id)).completed id').toNat =
            (s.completed id').toNat := fun id' hid => by
          simp [hcompleted, Ne.symm hid]
        have hsum := sum_map_of_eq_off hnd hmem hother
        rw [hold, hnew, ← countP_eq_sum, ← countP_eq_sum] at hsum
        rw [horder, hm]
        simp only [Bool.toNat_false, Bool.toNat_true] at hsum
        omega
    · have hm : (s.step ex e).runtime.metrics.requestsFinished =
          s.runtime.metrics.requestsFinished := by
        rw [hrt, finished, if_neg hstatus]
      rw [hsame (by simp [hfin, hstatus]), horder, hm]

/-! ## Whole runs -/

/-- The accounts of a run : its messages, its answers, its requests and its metrics. -/
structure Accounts (ex : ModelExecutor σ) (s₀ : ServerState σ) (es : List Event)
    (s : ServerState σ) : Prop where
  sound : s.Sound
  stored : s.runtime.SessionsStored
  late : s.AppendedLate
  messages : ∀ sid, s.runtime.sessionMessages sid =
    ((log ex s₀ es).filter (·.sessionId = sid)).flatMap Post.messages
  answered : Answered ex s₀ es s
  requested : Requested ex s₀ es s
  requestsFinished : s.runtime.metrics.requestsFinished =
    s.runtime.scheduler.order.countP s.completed
  tokensGenerated : s.runtime.metrics.tokensGenerated =
    (s.runtime.scheduler.order.map s.runtime.generated).sum

theorem accounts_run (ex : ModelExecutor σ) (config : RuntimeConfig) (executor : σ)
    (es : List Event) : Accounts ex (init config executor) es
      (Transition.run (step ex) (init config executor) es) := by
  refine Transition.run_history_induction
    (motive := fun es s => Accounts ex (init config executor) es s) ?_ ?_ es
  · refine ⟨sound_init config executor, RuntimeCore.sessionsStored_create config executor, ?_,
      fun _ => rfl, ⟨?_, fun _ => rfl⟩, ⟨rfl, List.nodup_nil, ?_⟩, rfl, rfl⟩
    · intro id q hq
      cases hq
    · intro id h
      cases h
    · intro post hpost
      cases hpost
  · intro es e h
    have hnd := h.requested.nodup
    refine ⟨h.sound.step e, SessionsStored.step h.sound h.stored e, h.late.step h.sound h.stored e,
      fun sid => ?_, h.answered.step rfl h.sound e, h.requested.step rfl h.sound h.stored e, ?_, ?_⟩
    · rw [messages_step h.sound h.stored h.late, h.messages, log, log, Transition.outputs_concat,
        List.filter_append, List.flatMap_append]
    · have hstep := requestsFinished_step ex h.sound h.stored hnd h.answered.drained e
      have hold := h.requestsFinished
      omega
    · have hstep := tokens_step ex h.sound h.stored hnd e
      have hold := h.tokensGenerated
      omega

/-- A cancelled request stays cancelled, with the tokens it has. -/
theorem cancelled_run (hs : s.Sound) {id : SeqId} {q : Sequence}
    (hq : s.runtime.scheduler.get id = some q) (hcan : q.status = .cancelled) (es : List Event) :
    ∃ q', (Transition.run (step ex) s es).runtime.scheduler.get id = some q' ∧
      q'.status = .cancelled ∧ q'.outputIds = q.outputIds := by
  refine (Transition.run_invariant' (I := fun t : ServerState σ => t.Sound ∧
    ∃ q', t.runtime.scheduler.get id = some q' ∧ q'.status = .cancelled ∧
      q'.outputIds = q.outputIds) ?_ es ⟨hs, q, hq, hcan, rfl⟩).2
  rintro t e ⟨ht, q', hq', hcan', hout⟩
  obtain ⟨b, hnext⟩ := (step_change ex t ht.runtime.wellFormed e).get_terminal ht.runtime hq'
    (by simp [Sequence.isTerminal, hcan'])
  exact ⟨ht.step e, _, hnext, hcan', hout⟩

/-- What a run of a server completes. -/
structure ExactlyOnce (ex : ModelExecutor σ) (s₀ : ServerState σ) (es : List Event)
    (s : ServerState σ) : Prop where
  /-- Every session holds what was posted to it, in order. -/
  messages : ∀ sid, s.runtime.sessionMessages sid =
    ((log ex s₀ es).filter (·.sessionId = sid)).flatMap Post.messages
  /-- The messages of every request were posted once, in the order of the requests, to its
  session. -/
  requests : (log ex s₀ es).filterMap Post.requestId = s.runtime.scheduler.order ∧
    s.runtime.scheduler.order.Nodup ∧
    ∀ post ∈ log ex s₀ es, ∀ id, post.requestId = some id →
      ∃ q, s.runtime.scheduler.get id = some q ∧ q.sessionId = post.sessionId
  /-- A finished request with a text, whose stream was drained, was answered once, with the
  text of the samples consumed for it. -/
  finished : ∀ id q, s.runtime.scheduler.get id = some q → (s.streams id).phase = .finished →
    q.status = .finished → q.metadata.responseText ≠ [] →
    (log ex s₀ es).filter (·.author = .answer id) =
      [⟨.answer id, q.sessionId, [⟨"assistant", sampledTextAlong ex id s₀ es⟩]⟩]
  /-- A cancelled request was not answered. -/
  cancelled : ∀ id q, s.runtime.scheduler.get id = some q → q.status = .cancelled →
    (log ex s₀ es).filter (·.author = .answer id) = []
  /-- A request that was cancelled earlier in the run still is, with the same tokens. -/
  settled : ∀ es', es' <+: es → ∀ id q,
    (Transition.run (step ex) s₀ es').runtime.scheduler.get id = some q → q.status = .cancelled →
    ∃ q', s.runtime.scheduler.get id = some q' ∧ q'.status = .cancelled ∧
      q'.outputIds = q.outputIds
  requestsFinished : s.runtime.metrics.requestsFinished =
    (s.runtime.scheduler.order.filter s.completed).length
  tokensGenerated : s.runtime.metrics.tokensGenerated =
    (s.runtime.scheduler.order.map s.runtime.generated).sum

/-- In every run, whatever the order of its events, each request is completed exactly once. -/
theorem exactlyOnce_run (ex : ModelExecutor σ) (config : RuntimeConfig) (executor : σ)
    (es : List Event) : ExactlyOnce ex (init config executor) es
      (Transition.run (step ex) (init config executor) es) := by
  have h := accounts_run ex config executor es
  refine ⟨h.messages, ⟨h.requested.requests, h.requested.nodup, h.requested.session⟩,
    fun id q hq hend hfin htext => ?_, fun id q hq hcan => ?_, fun es' hes id q hq hcan => ?_,
    by rw [h.requestsFinished, List.countP_eq_length_filter], h.tokensGenerated⟩
  · have hid : q.seqId = id := h.sound.runtime.wellFormed.seqId_eq _ _ hq
    have hsampled : q.metadata.responseText = sampledTextAlong ex id (init config executor) es := by
      rw [← responseText_eq hq]
      exact responseText_run es (sound_init config executor) id
    rw [h.answered.answers, if_pos hend, hq, Option.map_some, Option.getD_some,
      Sequence.answerPosts, if_pos ⟨hfin, htext⟩, hid, ← hsampled]
  · have hposts : q.answerPosts = [] := if_neg (by simp [hcan])
    rw [h.answered.answers, hq, Option.map_some, Option.getD_some, hposts, ite_self]
  · obtain ⟨es'', rfl⟩ := hes
    rw [Transition.run_append]
    exact cancelled_run (sound_run ex config executor es') hq hcan es''

end ServerState

end SoloRT
