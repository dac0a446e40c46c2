import SoloRT.Sessions

/-!
# What a refused request leaves

`add_request` takes its session, creating it if it is new, and appends the messages of the request
to it. Then it tokenizes the conversation, and here the chat template or the tokenizer may raise.
The prefix cache, the scheduler, `_active_by_session` and the metrics come after that, but the
session has the messages already, and no handler takes them out again.

So a call that raises leaves the runtime as it was only if it had nothing to append to a session
that was there before (`addRequest_atomic_iff`).
-/

namespace SoloRT

namespace RuntimeCore

variable {σ : Type} {ex : ModelExecutor σ} {rt rt' : RuntimeCore σ}

/-- The state that a call of `add_request` works on is as before. -/
structure Untouched (rt rt' : RuntimeCore σ) : Prop where
  sessions : rt'.sessions = rt.sessions
  scheduler : rt'.scheduler = rt.scheduler
  prefixCache : rt'.prefixCache = rt.prefixCache
  activeBySession : rt'.activeBySession = rt.activeBySession
  metrics : rt'.metrics = rt.metrics

/-- The session of a request gets its messages, and is stored if it was not. -/
theorem sessionOf_stored_iff (rt : RuntimeCore σ) (request : Request) :
    Function.update rt.sessions (rt.resolvedId request.sessionId)
        (some (rt.sessionOf request)) = rt.sessions ↔
      request.messages = [] ∧ (rt.sessions (rt.resolvedId request.sessionId)).isSome := by
  rw [Function.update_eq_self_iff, sessionOf]
  cases hs : rt.sessions (rt.resolvedId request.sessionId) with
  | none => simp
  | some session =>
    rw [Option.getD_some, Option.some.injEq]
    refine ⟨fun h => ⟨?_, rfl⟩, fun h => ?_⟩
    · have hmessages := congrArg Session.messages h
      exact List.append_right_eq_self.1 hmessages
    · rw [h.1, List.append_nil]

/-- A call that raises appends the messages of its request, and does nothing else. -/
theorem addRequest_error (hkeyed : rt.SessionsKeyed) {request : Request} {e : PyError}
    (h : (rt.addRequest ex request).1 = .error e) :
    Untouched
      { rt with
        sessions :=
          Function.update rt.sessions (rt.resolvedId request.sessionId)
            (some (rt.sessionOf request)) }
      (rt.addRequest ex request).2 := by
  have hprefix : (rt.addRequest ex request).2.prefixCache = rt.prefixCache := by
    rcases addRequest_cases ex rt request with ⟨_, -, hcore, -⟩ | ⟨_, _, _, _, hok, -⟩
    · exact hcore.prefixCache
    · rw [h] at hok
      cases hok
  rcases addRequest_sessions ex hkeyed request with
    ⟨_, -, hsessions, hactive, hmetrics, hscheduler⟩ | ⟨_, _, _, hok, -⟩
  · exact ⟨hsessions, hscheduler, hprefix, hactive, hmetrics⟩
  · rw [h] at hok
    cases hok

/-- A call raises exactly if the tokenizer refuses the conversation. -/
theorem addRequest_ok_iff (ex : ModelExecutor σ) (rt : RuntimeCore σ) (request : Request) :
    (∃ seqId, (rt.addRequest ex request).1 = .ok seqId) ↔
      ∃ inputIds, rt.promptOf ex request = .ok inputIds := by
  unfold addRequest promptOf
  dsimp only
  split <;> rename_i hprompt <;> simp only [hprompt, Except.ok.injEq, exists_eq', reduceCtorEq,
    exists_false]

end RuntimeCore

namespace ServerState

variable {σ : Type}

/-- In every state of every run, a call of `add_request` for any request leaves the runtime
alone if it raises, if and only if the tokenizer accepts the conversation, or the request has no
messages and its session exists. -/
theorem addRequest_atomic_iff (ex : ModelExecutor σ) (config : RuntimeConfig) (executor : σ)
    (es : List Event) (request : Request) :
    (∀ e, ((Transition.run (step ex) (init config executor) es).runtime.addRequest ex
        request).1 = .error e →
      (Transition.run (step ex) (init config executor) es).runtime.Untouched
        ((Transition.run (step ex) (init config executor) es).runtime.addRequest ex
          request).2) ↔
    (∃ inputIds, (Transition.run (step ex) (init config executor) es).runtime.promptOf ex
        request = .ok inputIds) ∨
      request.messages = [] ∧
        ((Transition.run (step ex) (init config executor) es).runtime.sessions
          ((Transition.run (step ex) (init config executor) es).runtime.resolvedId
            request.sessionId)).isSome := by
  have hstored : (Transition.run (step ex) (init config executor) es).runtime.SessionsStored :=
    (Transition.run_invariant' (I := fun s : ServerState σ => s.Sound ∧ s.runtime.SessionsStored)
      (fun s e h => ⟨h.1.step e, SessionsStored.step h.1 h.2 e⟩) es
      ⟨sound_init config executor, RuntimeCore.sessionsStored_create config executor⟩).2
  generalize Transition.run (step ex) (init config executor) es = s at hstored
  rw [← RuntimeCore.addRequest_ok_iff, ← s.runtime.sessionOf_stored_iff]
  cases hadd : (s.runtime.addRequest ex request).1 with
  | ok seqId => simp
  | error e =>
    have hleft := RuntimeCore.addRequest_error hstored.keyed hadd
    simp only [Except.error.injEq, forall_eq', reduceCtorEq, exists_false, false_or]
    refine ⟨fun h => ?_, fun h => ?_⟩
    · exact hleft.sessions.symm.trans h.sessions
    · exact ⟨hleft.sessions.trans h, hleft.scheduler, hleft.prefixCache, hleft.activeBySession,
        hleft.metrics⟩

/-- The fake executor with a chat template that refuses two messages in a row of one role. -/
def alternatingExecutor : ModelExecutor Unit :=
  { deterministicExecutor false with
    tokenizeMessages := fun messages enableThinking =>
      if (messages.zip messages.tail).all (fun m => m.1.role ≠ m.2.role) then
        (deterministicExecutor false).tokenizeMessages messages enableThinking
      else .error ⟨.runtimeError, "Conversation roles must alternate"⟩ }

/-- A refused request leaves its messages in the session, for all later requests. -/
theorem not_addRequest_atomic : ¬∀ (σ : Type) (ex : ModelExecutor σ) (config : RuntimeConfig)
    (executor : σ) (es : List Event) (request : Request) (e : PyError),
    ((Transition.run (step ex) (init config executor) es).runtime.addRequest ex
        request).1 = .error e →
      (Transition.run (step ex) (init config executor) es).runtime.Untouched
        ((Transition.run (step ex) (init config executor) es).runtime.addRequest ex
          request).2 := by
  intro h
  have hsame := (h Unit alternatingExecutor smallConfig () []
    { shortRequest "a" with messages := [⟨"user", ['h']⟩, ⟨"user", ['i']⟩] } _ rfl).sessions
  have hstored := congrArg (fun sessions => (sessions "a").map Session.messages) hsame
  revert hstored
  decide +kernel

end ServerState

end SoloRT
