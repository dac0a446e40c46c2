import SoloRT.Completion

/-!
# Conversations

A client of a session sends its new messages only (`scripts/chat.py`). The server keeps those of
the requests before and the answers to them, and `add_request` puts them in front. Answers are
appended when streams end, so those of requests that overlap can come late, or in another order.

A client that takes turns adds a request to its session only when its streams are over
(`TakesTurns`). Then, whatever the requests of other sessions do meanwhile, each answer follows its
request in the session (`inTurns_run`). If moreover no text of the session's requests went to the
turn of another stream, the answers are what the client has read. So the prompt of the next
request is the conversation as the client saw it, up to answers that were cut short, and the new
messages (`prompt_eq_conversation`).
-/

namespace SoloRT

/-- What a client asked, and what it read in answer. -/
structure Exchange where
  asked : List Message
  read : Text
  deriving DecidableEq, Repr

/-- The messages of an exchange. An empty answer is none. -/
def Exchange.messages (exchange : Exchange) : List Message :=
  exchange.asked ++ if exchange.read = [] then [] else [⟨"assistant", exchange.read⟩]

/-- The post holds the messages of a request. -/
def Post.asks (post : Post) : Bool :=
  match post.author with
  | .request _ => true
  | .answer _ => false

/-- The answers among posts to the request of a post. -/
def Post.answers (post : Post) (posts : List Post) : List Post :=
  posts.filter fun answer => post.requestId.any fun id => answer.author = .answer id

theorem Post.answers_append (post : Post) (posts posts' : List Post) :
    post.answers (posts ++ posts') = post.answers posts ++ post.answers posts' :=
  List.filter_append ..

theorem Post.answers_some {post : Post} {id : SeqId} (h : post.requestId = some id)
    (posts : List Post) : post.answers posts = posts.filter (·.author = .answer id) := by
  simp [answers, h]

theorem Post.answers_none {post : Post} (h : post.requestId = none) (posts : List Post) :
    post.answers posts = [] := by
  simp [answers, h]

theorem Post.asks_of_requestId {post : Post} {id : SeqId} (h : post.requestId = some id) :
    post.asks = true := by
  obtain ⟨author, sessionId, messages⟩ := post
  cases author with
  | request seqId => rfl
  | answer seqId => cases h

/-- The stream ended, or broke. -/
def StreamState.isOver (stream : StreamState) : Bool :=
  match stream.phase with
  | .loop | .yielding _ => false
  | .finished | .raised _ | .closed => true

theorem StreamState.isOver_iff {stream : StreamState} :
    stream.isOver = true ↔ stream.phase = .finished ∨ stream.Broken := by
  unfold isOver Broken
  cases stream.phase <;> simp

namespace ServerState

variable {σ : Type} {ex : ModelExecutor σ} {s : ServerState σ} {e : Event}

/-- The requests of a session. -/
def requestsOf (sid : SessionId) (s : ServerState σ) : List SeqId :=
  s.runtime.scheduler.order.filter fun id =>
    (s.runtime.scheduler.get id).any fun q => q.sessionId = sid

theorem mem_requestsOf (hs : s.Sound) {sid : SessionId} {id : SeqId} {q : Sequence}
    (hq : s.runtime.scheduler.get id = some q) (hsid : q.sessionId = sid) :
    id ∈ s.requestsOf sid := by
  refine List.mem_filter.2 ⟨?_, by simp [hq, hsid]⟩
  rw [hs.runtime.wellFormed.mem_order]
  exact Option.isSome_iff_exists.2 ⟨q, hq⟩

/-- A request is added to a session when the streams of its requests are over. -/
def TakesTurns (sid : SessionId) (s : ServerState σ) (e : Event) : Prop :=
  match e with
  | .addRequest request => s.runtime.resolvedId request.sessionId = sid →
      ∀ id ∈ s.requestsOf sid, (s.streams id).isOver = true
  | _ => True

instance (sid : SessionId) (s : ServerState σ) (e : Event) : Decidable (TakesTurns sid s e) :=
  match e with
  | .addRequest request => inferInstanceAs (Decidable (s.runtime.resolvedId request.sessionId =
      sid → ∀ id ∈ s.requestsOf sid, (s.streams id).isOver = true))
  | .cancelRequest _ _ | .resume _ | .close _ | .evict _ | .tick _ => .isTrue trivial

/-- The posts of the requests of a session. -/
def asked (sid : SessionId) (posts : List Post) : List Post :=
  posts.filter fun post => post.sessionId = sid ∧ post.asks

/-- Each request of a session is followed by its answers, and the streams of all but the last are
over. -/
structure InTurns (sid : SessionId) (posts : List Post) (s : ServerState σ) : Prop where
  followed : posts.filter (·.sessionId = sid) =
    (asked sid posts).flatMap fun post => post :: post.answers posts
  isOver : ∀ post ∈ (asked sid posts).dropLast, ∀ id, post.requestId = some id →
    (s.streams id).isOver = true

theorem mem_asked {sid : SessionId} {posts : List Post} {post : Post} :
    post ∈ asked sid posts ↔ post ∈ posts ∧ post.sessionId = sid ∧ post.asks = true := by
  simp [asked]

theorem isOver_step (hs : s.Sound) (e : Event) {id : SeqId} (h : (s.streams id).isOver = true) :
    ((s.step ex e).streams id).isOver = true :=
  StreamState.isOver_iff.2 ((StreamState.isOver_iff.1 h).imp (phase_finished_step hs e)
    (broken_step hs e))

/-- An event that posts nothing to a session, and no answer to its requests. -/
theorem InTurns.append_quiet {sid : SessionId} {posts new : List Post} {s' : ServerState σ}
    (h : InTurns sid posts s)
    (hover : ∀ id, (s.streams id).isOver = true → (s'.streams id).isOver = true)
    (hnew : ∀ post ∈ new, post.sessionId ≠ sid)
    (hans : ∀ post ∈ asked sid posts, post.answers new = []) : InTurns sid (posts ++ new) s' := by
  have hasked : asked sid (posts ++ new) = asked sid posts := by
    rw [asked, asked, List.filter_append, List.append_right_eq_self, List.filter_eq_nil_iff]
    exact fun post hpost => by simp [hnew post hpost]
  have hfilter : (posts ++ new).filter (·.sessionId = sid) = posts.filter (·.sessionId = sid) := by
    rw [List.filter_append, List.append_right_eq_self, List.filter_eq_nil_iff]
    exact fun post hpost => by simpa using hnew post hpost
  refine ⟨?_, fun post hpost id hid => hover id (h.isOver post (hasked ▸ hpost) id hid)⟩
  rw [hfilter, hasked, h.followed]
  refine List.flatMap_congr fun post hpost => ?_
  rw [Post.answers_append, hans post hpost, List.append_nil]

/-- A request is posted when the streams of those before are over. -/
theorem InTurns.append_asked {sid : SessionId} {posts : List Post} {s' : ServerState σ}
    (h : InTurns sid posts s) {post : Post} (hsid : post.sessionId = sid)
    (hasks : post.asks = true) (hfresh : post.answers posts = [])
    (hover : ∀ asker ∈ asked sid posts, ∀ id, asker.requestId = some id →
      (s'.streams id).isOver = true) :
    InTurns sid (posts ++ [post]) s' := by
  have hasked : asked sid (posts ++ [post]) = asked sid posts ++ [post] := by
    simp [asked, hsid, hasks]
  have hnone : ∀ asker : Post, asker.answers [post] = [] := by
    intro asker
    refine List.filter_eq_nil_iff.2 fun answer hanswer => ?_
    obtain rfl := List.mem_singleton.1 hanswer
    obtain ⟨author, sessionId, messages⟩ := answer
    cases author with
    | request seqId => cases asker.requestId <;> simp
    | answer seqId => cases hasks
  refine ⟨?_, fun asker hasker => ?_⟩
  · rw [hasked, List.filter_append, h.followed, List.flatMap_append, List.flatMap_singleton,
      Post.answers_append, hfresh, hnone, List.filter_singleton]
    simp [hsid, Post.answers_append, hnone]
  · rw [hasked, List.dropLast_concat] at hasker
    exact hover asker hasker

/-- The last request is answered. -/
theorem InTurns.append_answer {sid : SessionId} {posts before : List Post} {s' : ServerState σ}
    (h : InTurns sid posts s)
    (hover : ∀ id, (s.streams id).isOver = true → (s'.streams id).isOver = true)
    {last answer : Post} {id : SeqId} (hlast : asked sid posts = before ++ [last])
    (hid : last.requestId = some id) (hanswer : answer.author = .answer id)
    (hsid : answer.sessionId = sid) (hnot : (s.streams id).isOver = false) :
    InTurns sid (posts ++ [answer]) s' := by
  have hasks : answer.asks = false := by
    obtain ⟨author, sessionId, messages⟩ := answer
    obtain rfl : author = .answer id := hanswer
    rfl
  have hasked : asked sid (posts ++ [answer]) = asked sid posts := by
    simp [asked, hasks]
  have hbefore : ∀ post ∈ before, post.answers [answer] = [] := by
    intro post hpost
    refine List.filter_eq_nil_iff.2 fun a ha => ?_
    obtain rfl := List.mem_singleton.1 ha
    cases hpid : post.requestId with
    | none => simp
    | some id' =>
      have hmem : post ∈ (asked sid posts).dropLast := by rwa [hlast, List.dropLast_concat]
      have hne : id ≠ id' := by
        rintro rfl
        exact Bool.false_ne_true (hnot.symm.trans (h.isOver post hmem id hpid))
      simpa [hanswer] using hne
  have hown : last.answers [answer] = [answer] := by
    simp [Post.answers, hid, hanswer]
  refine ⟨?_, fun post hpost id hpid => hover id (h.isOver post (hasked ▸ hpost) id hpid)⟩
  have hfollowed := h.followed
  rw [hlast, List.flatMap_append, List.flatMap_singleton] at hfollowed
  rw [hasked, hlast, List.filter_append, hfollowed, List.flatMap_append, List.flatMap_singleton,
    Post.answers_append, hown, List.append_assoc]
  congr 1
  · refine List.flatMap_congr fun post hpost => ?_
    rw [Post.answers_append, hbefore post hpost, List.append_nil]
  · simp [hsid]

/-- The request that an answer is posted to was the last of its session. -/
theorem InTurns.exists_last {sid : SessionId} {s₀ : ServerState σ} {es : List Event}
    (hs : s.Sound) (h : InTurns sid (log ex s₀ es) s) (hreq : Requested ex s₀ es s) {id : SeqId}
    {q : Sequence} (hget : s.runtime.scheduler.get id = some q) (hsid : q.sessionId = sid)
    (hnot : (s.streams id).isOver = false) :
    ∃ before last, asked sid (log ex s₀ es) = before ++ [last] ∧ last.requestId = some id := by
  have hmem := List.mem_of_mem_filter (mem_requestsOf hs hget hsid)
  rw [← hreq.requests] at hmem
  obtain ⟨post, hpost, hid⟩ := List.mem_filterMap.1 hmem
  obtain ⟨q', hq', hsession⟩ := hreq.session post hpost id hid
  rw [hget] at hq'
  obtain rfl := Option.some.inj hq'
  have hasked : post ∈ asked sid (log ex s₀ es) :=
    mem_asked.2 ⟨hpost, hsession.symm.trans hsid, Post.asks_of_requestId hid⟩
  rcases List.eq_nil_or_concat' (asked sid (log ex s₀ es)) with hnil | ⟨before, last, hlast⟩
  · rw [hnil] at hasked
    cases hasked
  · refine ⟨before, last, hlast, ?_⟩
    rw [hlast, List.mem_append, List.mem_singleton] at hasked
    rcases hasked with hbefore | rfl
    · have hdrop : post ∈ (asked sid (log ex s₀ es)).dropLast := by
        rwa [hlast, List.dropLast_concat]
      exact absurd (hnot.symm.trans (h.isOver post hdrop id hid)) Bool.false_ne_true
    · exact hid

/-- The end of a stream. -/
theorem InTurns.append_answerPosts {sid : SessionId} {s₀ s' : ServerState σ} {es : List Event}
    (hs : s.Sound) (hreq : Requested ex s₀ es s) (h : InTurns sid (log ex s₀ es) s)
    (hover : ∀ id, (s.streams id).isOver = true → (s'.streams id).isOver = true) {q : Sequence}
    (hq : s.runtime.scheduler.get q.seqId = some q) (hnot : (s.streams q.seqId).isOver = false) :
    InTurns sid (log ex s₀ es ++ q.answerPosts) s' := by
  rw [Sequence.answerPosts]
  split_ifs with htext
  · by_cases hsid : q.sessionId = sid
    · obtain ⟨before, last, hlast, hid⟩ := h.exists_last hs hreq hq hsid hnot
      exact h.append_answer hover hlast hid rfl hsid hnot
    · refine h.append_quiet hover (fun post hpost => ?_) fun post hpost => ?_
      · rwa [List.mem_singleton.1 hpost]
      · -- its request is of the same session
        obtain ⟨hlog, hpsid, -⟩ := mem_asked.1 hpost
        refine List.filter_eq_nil_iff.2 fun answer hanswer => ?_
        obtain rfl := List.mem_singleton.1 hanswer
        cases hid : post.requestId with
        | none => simp
        | some id =>
          obtain ⟨q', hq', hq'sid⟩ := hreq.session post hlog id hid
          have hne : q.seqId ≠ id := by
            rintro rfl
            obtain rfl := Option.some.inj (hq.symm.trans hq')
            exact hsid (hq'sid.trans hpsid)
          simpa using hne
  · exact h.append_quiet hover (by simp) (by simp [Post.answers])

theorem InTurns.step {sid : SessionId} {s₀ : ServerState σ} {es : List Event}
    (hs : s.Sound) (hst : s.runtime.SessionsStored) (hans : Answered ex s₀ es s)
    (hreq : Requested ex s₀ es s)
    (h : InTurns sid (log ex s₀ es) s) (hturn : TakesTurns sid s e) :
    InTurns sid (log ex s₀ es ++ s.posts ex e) (s.step ex e) := by
  have hover : ∀ id, (s.streams id).isOver = true → ((s.step ex e).streams id).isOver = true :=
    fun id => isOver_step hs e
  have hnil (hposts : s.posts ex e = []) :
      InTurns sid (log ex s₀ es ++ s.posts ex e) (s.step ex e) := by
    rw [hposts]
    exact h.append_quiet hover (by simp) (by simp [Post.answers])
  cases e with
  | cancelRequest | close | evict | tick => exact hnil rfl
  | addRequest request =>
    by_cases hsid : s.runtime.resolvedId request.sessionId = sid
    · refine h.append_asked hsid rfl ?_ fun post hpost id hid => hover id ?_
      · -- the id is new
        cases hok : (s.runtime.addRequest ex request).1 with
        | error err => exact Post.answers_none rfl _
        | ok seqId =>
          have hnew := ((order_step ex hs hst (.addRequest request)).2 _
            (List.mem_singleton.2 rfl) seqId (by rw [hok]; rfl)).1
          rw [@Post.answers_some _ seqId rfl, hans.answers, hnew]
          simp
      · obtain ⟨hlog, hpsid, -⟩ := mem_asked.1 hpost
        obtain ⟨q, hq, hqsid⟩ := hreq.session post hlog id hid
        exact hturn hsid id (mem_requestsOf hs hq (hqsid.trans hpsid))
    · refine h.append_quiet hover (fun post hpost => ?_) fun post _ => ?_
      · rwa [List.mem_singleton.1 hpost]
      · cases hid : post.requestId <;> simp [Post.answers, hid, posts]
  | resume id =>
    by_cases hloop : (s.streams id).phase = .loop
    · cases hq : s.runtime.scheduler.get id with
      | none => exact hnil (by simp [posts, hloop, hq])
      | some q =>
        obtain rfl : q.seqId = id := hs.runtime.wellFormed.seqId_eq _ _ hq
        have hposts : s.posts ex (.resume q.seqId) = q.answerPosts := by simp [posts, hloop, hq]
        have hnot : (s.streams q.seqId).isOver = false := by simp [StreamState.isOver, hloop]
        rw [hposts]
        exact h.append_answerPosts hs hreq hover hq hnot
    · exact hnil (by simp [posts, hloop])

theorem inTurns_run (ex : ModelExecutor σ) (config : RuntimeConfig) (executor : σ)
    {sid : SessionId} {es : List Event}
    (h : Transition.Along (step ex) (TakesTurns sid) (init config executor) es) :
    InTurns sid (log ex (init config executor) es)
      (Transition.run (step ex) (init config executor) es) := by
  induction es using List.reverseRecOn with
  | nil => exact ⟨rfl, nofun⟩
  | append_singleton es e ih =>
    obtain ⟨hes, he⟩ := Transition.along_concat.1 h
    have hacc := accounts_run ex config executor es
    rw [log, Transition.outputs_concat, Transition.run_concat]
    exact (ih hes).step hacc.sound hacc.stored hacc.answered hacc.requested he

/-! ## The conversation -/

/-- What the client read of the answer to a request, if the answer was not cut short. -/
def answerRead (s : ServerState σ) (id : SeqId) : Text :=
  if s.completed id then (s.streams id).content else []

/-- The exchanges of the client of a session. -/
def exchanges (sid : SessionId) (posts : List Post) (s : ServerState σ) : List Exchange :=
  (asked sid posts).map fun post => ⟨post.messages, (post.requestId.map s.answerRead).getD []⟩

/-- What the client of a session saw. -/
def conversation (ex : ModelExecutor σ) (s₀ : ServerState σ) (es : List Event)
    (sid : SessionId) : List Message :=
  (exchanges sid (log ex s₀ es) (Transition.run (step ex) s₀ es)).flatMap Exchange.messages

/-- The answers that were posted to a request are what the client read. -/
theorem messages_answers {s₀ : ServerState σ} {es : List Event} (hans : Answered ex s₀ es s)
    {post : Post} {id : SeqId} (hid : post.requestId = some id)
    (hread : (s.streams id).phase = .finished → (s.streams id).content = s.responseText id) :
    (post.answers (log ex s₀ es)).flatMap Post.messages =
      if s.answerRead id = [] then [] else [⟨"assistant", s.answerRead id⟩] := by
  rw [Post.answers_some hid, hans.answers]
  by_cases hphase : (s.streams id).phase = .finished
  · obtain ⟨q, hq, -⟩ := hans.drained id hphase
    have hcontent := hread hphase
    rw [responseText_eq hq] at hcontent
    have hcompleted : s.completed id = decide (q.status = .finished) := by
      simp [completed, hphase, hq]
    rw [if_pos hphase, hq, Option.map_some, Option.getD_some, Sequence.answerPosts, answerRead,
      hcompleted, hcontent]
    by_cases hfin : q.status = .finished
    · by_cases htext : q.metadata.responseText = [] <;> simp [hfin, htext]
    · simp [hfin]
  · simp [hphase, answerRead, completed]

theorem promptOf_eq (ex : ModelExecutor σ) (rt : RuntimeCore σ) (request : Request) :
    rt.promptOf ex request = ex.tokenizeMessages
      (rt.sessionMessages (rt.resolvedId request.sessionId) ++ request.messages)
      (request.enableThinking.getD false) := by
  rw [← sessionOf_messages, RuntimeCore.promptOf, RuntimeCore.sessionOf,
    ← (RuntimeCore.getOrCreateSession_sessions rt request.sessionId).1]
  rfl

/-- The session of a client that takes turns holds the conversation as the client saw it, and the
prompt of its next request is that conversation and the new messages. -/
theorem prompt_eq_conversation (ex : ModelExecutor σ) (config : RuntimeConfig) (executor : σ)
    (sid : SessionId) (es : List Event)
    (hturns : Transition.Along (step ex) (TakesTurns sid) (init config executor) es)
    (hread : ∀ id ∈ (Transition.run (step ex) (init config executor) es).requestsOf sid,
      Transition.Along (step ex) (fun s e => ¬DropsText ex s e id) (init config executor) es) :
    let s := Transition.run (step ex) (init config executor) es
    let said := conversation ex (init config executor) es sid
    s.runtime.sessionMessages sid = said ∧
      ∀ request, s.runtime.resolvedId request.sessionId = sid →
        ∀ seqId, (s.runtime.addRequest ex request).1 = .ok seqId →
          ∃ q, (s.step ex (.addRequest request)).runtime.scheduler.get seqId = some q ∧
            ex.tokenizeMessages (said ++ request.messages) (request.enableThinking.getD false) =
              .ok q.inputIds := by
  intro s said
  have hacc := accounts_run ex config executor es
  have hmessages : s.runtime.sessionMessages sid = said := by
    rw [hacc.messages, (inTurns_run ex config executor hturns).followed, List.flatMap_assoc]
    simp only [said, conversation, exchanges, List.flatMap_map]
    refine List.flatMap_congr fun post hpost => ?_
    rw [List.flatMap_cons, Exchange.messages]
    congr 1
    cases hid : post.requestId with
    | none => simp [Post.answers_none hid]
    | some id =>
      obtain ⟨hlog, hpsid, -⟩ := mem_asked.1 hpost
      obtain ⟨q, hq, hqsid⟩ := hacc.requested.session post hlog id hid
      refine messages_answers hacc.answered hid fun hphase => ?_
      rw [responseText_eq hq]
      exact (content_eq_responseText_iff ex config executor id es q hq hphase).2
        (hread id (mem_requestsOf hacc.sound hq (hqsid.trans hpsid)))
  refine ⟨hmessages, fun request hsid seqId hok => ?_⟩
  rcases RuntimeCore.addRequest_cases ex s.runtime request with
    ⟨e, he, -⟩ | ⟨seqId', sessionId, inputIds, m, hok', hprompt, -, -, -, hsched, -⟩
  · rw [hok] at he
    cases he
  · obtain rfl : seqId = seqId' := by simpa [hok] using hok'
    refine ⟨request.sequence seqId sessionId inputIds m s.runtime.now, ?_, ?_⟩
    · simp only [step, hsched]
      exact InteractiveScheduler.get_addSequence _ (request.sequence ..)
    · rw [promptOf_eq, hsid, hmessages] at hprompt
      exact hprompt

instance (ex : ModelExecutor σ) (s : ServerState σ) (e : Event) (id : SeqId) :
    Decidable (DropsText ex s e id) :=
  match e with
  | .resume other => decidable_of_iff (other ≠ id ∧ s.sampledText ex id (.resume other) ≠ [])
      ⟨fun h => ⟨other, rfl, h⟩, fun ⟨_, he, h⟩ => by cases he; exact h⟩
  | .addRequest _ | .cancelRequest _ _ | .close _ | .evict _ | .tick _ => .isFalse nofun

/-- Two turns in one session. The text of the request in between, which is of another session, goes
to the second turn and is lost. -/
def twoTurnsRun : List Event :=
  [.addRequest (shortRequest "a"), .addRequest (shortRequest "b"), .resume 0, .resume 0,
    .resume 0, .resume 0, .resume 1, .addRequest (shortRequest "a"), .resume 2, .resume 2,
    .resume 2, .resume 2, .resume 2]

theorem prompt_eq_conversation_twoTurns :
    let s := Transition.run (step (deterministicExecutor false)) (init smallConfig ()) twoTurnsRun
    let said : List Message := [⟨"user", "hi".toList⟩, ⟨"assistant", "SoloRT".toList⟩,
      ⟨"user", "hi".toList⟩, ⟨"assistant", "SoloRT".toList⟩]
    s.runtime.sessionMessages "a" = said ∧
      ∃ q, (s.step (deterministicExecutor false)
          (.addRequest (shortRequest "a"))).runtime.scheduler.get 3 = some q ∧
        (deterministicExecutor false).tokenizeMessages (said ++ [⟨"user", "hi".toList⟩]) false =
          .ok q.inputIds := by
  intro s said
  have hsaid : conversation (deterministicExecutor false) (init smallConfig ()) twoTurnsRun "a" =
      said := by decide +kernel
  obtain ⟨hmessages, hprompt⟩ := prompt_eq_conversation (deterministicExecutor false) smallConfig
    () "a" twoTurnsRun (by decide +kernel) (by decide +kernel)
  rw [hsaid] at hmessages hprompt
  exact ⟨hmessages, hprompt (shortRequest "a") rfl 3 (by decide +kernel)⟩

end ServerState

end SoloRT
