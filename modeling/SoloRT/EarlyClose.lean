import SoloRT.Sessions
import SoloRT.Failure

/-!
# Closing a stream early

The consumer may close a stream at any of its suspensions. Nothing in `stream_request`
follows the loop in a `finally`, so closing runs no `_finish_sequence` : the sequence stays
as it is.

What closing leaves is therefore clean only if it was clean before : the request was
cancelled, or it is finished, holds no prefix-cache handle and is not named as an active
request any more (`cleanedUp_iff`).
-/

namespace SoloRT

namespace RuntimeCore

variable {σ : Type} {rt rt' : RuntimeCore σ}

/-- One of the two records names the sequence as the active one of a session. -/
def Named (rt : RuntimeCore σ) (sid : SessionId) (id : SeqId) : Prop :=
  rt.activeSequence sid = some id ∨ rt.activeBySession sid = some id

end RuntimeCore

namespace ServerState

variable {σ : Type} {ex : ModelExecutor σ} {s : ServerState σ}

/-- A step of the run `es` ran `_finish_sequence` for the request, which released its
prefix-cache handle. -/
def FinishRan (ex : ModelExecutor σ) (s₀ : ServerState σ) (es : List Event) (id : SeqId) : Prop :=
  ∃ es' e q, es' ++ [e] <+: es ∧ (Transition.run (step ex) s₀ es').finishing e = some q ∧
    q.seqId = id

theorem finishRan_concat {s₀ : ServerState σ} {es : List Event} {e : Event} {id : SeqId} :
    FinishRan ex s₀ (es ++ [e]) id ↔ FinishRan ex s₀ es id ∨
      ∃ q, (Transition.run (step ex) s₀ es).finishing e = some q ∧ q.seqId = id := by
  constructor
  · rintro ⟨es', e', q, hpre, hfin, hid⟩
    rcases List.prefix_concat_iff.1 hpre with heq | hpre
    · obtain ⟨rfl, he⟩ := List.append_inj' heq rfl
      cases he
      exact .inr ⟨q, hfin, hid⟩
    · exact .inl ⟨es', e', q, hpre, hfin, hid⟩
  · rintro (⟨es', e', q, hpre, hfin, hid⟩ | ⟨q, hfin, hid⟩)
    · exact ⟨es', e', q, hpre.trans (List.prefix_append _ _), hfin, hid⟩
    · exact ⟨es, e, q, List.prefix_refl _, hfin, hid⟩

/-- What is known along a run of the requests that `_finish_sequence` ran for, and of those that
a session names. -/
structure FinishTracked (ex : ModelExecutor σ) (s₀ : ServerState σ) (es : List Event)
    (s : ServerState σ) : Prop where
  named : ∀ sid id, s.runtime.Named sid id →
    ∃ q, s.runtime.scheduler.get id = some q ∧ q.sessionId = sid
  cancelled : ∀ id q, s.runtime.scheduler.get id = some q → q.status = .cancelled →
    FinishRan ex s₀ es id ∧ ∀ sid, ¬s.runtime.Named sid id
  ran : ∀ id, FinishRan ex s₀ es id → ∃ q, s.runtime.scheduler.get id = some q ∧
    q.isTerminal = true ∧ (q.status = .cancelled ∨ (s.streams id).phase = .finished)

variable {rt' : RuntimeCore σ} {e : Event}

/-- A name after an event was there before, and not of a request finished in that event, or it
is that of the request added. -/
theorem SessionChange.named (h : SessionChange s rt' e) {sid : SessionId} {id : SeqId}
    (hn : rt'.Named sid id) :
    (s.runtime.Named sid id ∧ ∀ q, s.finishing e = some q → q.seqId = id → q.sessionId ≠ sid) ∨
      ∃ (request : Request) (inputIds : List TokenId) (m : PrefixMatch),
        rt'.scheduler.get id = some (request.sequence id sid inputIds m s.runtime.now) := by
  unfold RuntimeCore.Named at hn ⊢
  cases h with
  | same hadd hfin hs ha =>
    refine .inl ⟨?_, by simp [hfin]⟩
    rwa [ha, RuntimeCore.activeSequence, hs] at hn
  | rejected request hs ha =>
    refine .inl ⟨?_, by simp [finishing]⟩
    rw [ha, activeSequence_update hs, sessionOf_activeSequenceId] at hn
    split_ifs at hn with hsid
    · rwa [hsid] at hn ⊢
    · exact hn
  | added request seqId inputIds m hs ha hm hsched =>
    rw [ha, activeSequence_update hs, Function.update_apply] at hn
    split_ifs at hn with hsid
    · obtain rfl : seqId = id := by simpa using hn
      refine .inr ⟨request, inputIds, m, ?_⟩
      rw [hsched, hsid]
      exact s.runtime.scheduler.get_addSequence (request.sequence seqId _ inputIds m _)
    · exact .inl ⟨hn, by simp [finishing]⟩
  | finished q session hfin hsession hkey hrt =>
    subst hrt
    have hseq : s.runtime.activeSequence q.sessionId = session.activeSequenceId := by
      rw [RuntimeCore.activeSequence, hsession]
      rfl
    have hby : (s.finished q session).activeBySession sid =
        if sid = q.sessionId then none else s.runtime.activeBySession sid :=
      Function.update_apply ..
    rw [activeSequence_finished, hby] at hn
    refine .inl ?_
    by_cases hsid : sid = q.sessionId
    · subst hsid
      rw [if_pos rfl, if_pos rfl, Session.afterFinish] at hn
      dsimp only at hn
      split_ifs at hn with hown
      · simp at hn
      · have hid : session.activeSequenceId = some id := by simpa using hn
        refine ⟨.inl (hseq.trans hid), fun q' hq' hq'id => ?_⟩
        rw [hfin, Option.some.injEq] at hq'
        rw [hid, hq', hq'id] at hown
        exact absurd rfl hown
    · rw [if_neg hsid, if_neg hsid] at hn
      refine ⟨hn, fun q' hq' _ => ?_⟩
      rw [hfin, Option.some.injEq] at hq'
      exact hq' ▸ Ne.symm hsid

/-- A request that is cancelled was cancelled before, or is finished in the step. -/
theorem cancelled_cases (hs : s.Sound) {id : SeqId} {q' : Sequence}
    (hq' : (s.step ex e).runtime.scheduler.get id = some q') (hcan : q'.status = .cancelled) :
    (∃ q, s.runtime.scheduler.get id = some q ∧ q.status = .cancelled) ∨
      ∃ q, s.finishing e = some q ∧ q.seqId = id ∧ q.sessionId = q'.sessionId := by
  have hwf := hs.runtime.wellFormed
  cases hfin : s.finishing e with
  | some q =>
    obtain ⟨b, hsched⟩ := scheduler_of_finishing ex hwf hfin
    rw [hsched] at hq'
    rcases RuntimeCore.get_put_cases hq' with ⟨hid, rfl⟩ | ⟨-, hq⟩
    · exact .inr ⟨q, rfl, hid.symm, rfl⟩
    · exact .inl ⟨q', hq, hcan⟩
  | none =>
    refine .inl ?_
    have hchange := step_change ex s hwf e
    generalize hrt' : (s.step ex e).runtime = rt' at hq' hchange
    cases hchange with
    | quiet h => exact ⟨q', by rwa [h.scheduler] at hq', hcan⟩
    | added request seqId sessionId inputIds m hprompt hid hid' hm hsched =>
      rw [hsched] at hq'
      rcases RuntimeCore.get_put_cases hq' with ⟨-, rfl⟩ | ⟨-, hq⟩
      · cases hcan
      · exact ⟨q', hq, hcan⟩
    | cancelled =>
      rw [runtime_of_not_cancelling ex hfin] at hrt'
      exact ⟨q', by rwa [← hrt'] at hq', hcan⟩
    | finished q b hget hdone h =>
      rw [h.scheduler] at hq'
      rcases RuntimeCore.get_put_cases hq' with ⟨hid, rfl⟩ | ⟨-, hq⟩
      · exact ⟨q, by rw [hid]; exact hget, hcan⟩
      · exact ⟨q', hq, hcan⟩
    | selected q hsel h =>
      rw [h.scheduler] at hq'
      rcases RuntimeCore.get_put_cases hq' with ⟨-, rfl⟩ | ⟨-, hq⟩
      · cases hcan
      · exact ⟨q', hq, hcan⟩
    | executed q batch r c hsel hb hx h =>
      subst h
      rcases RuntimeCore.get_put_cases hq' with ⟨-, rfl⟩ | ⟨-, hq⟩
      · rcases (BatchContext.executed_of_eq hx).status with hrun | hrun <;>
        · rw [hrun] at hcan
          cases hcan
      · exact ⟨q', hq, hcan⟩
    | evicted n h =>
      subst h
      exact ⟨q', hq', hcan⟩

/-- A stream that is over stays so. -/
theorem phase_finished_step (hs : s.Sound) (e : Event) {id : SeqId}
    (h : (s.streams id).phase = .finished) : ((s.step ex e).streams id).phase = .finished := by
  cases e with
  | addRequest | cancelRequest | evict | tick => exact h
  | resume seqId =>
    have hresumed := resumed ex s hs.runtime.wellFormed seqId
    by_cases hid : id = seqId
    · subst hid
      simp only [step]
      generalize s.resume ex id = s' at hresumed
      cases hresumed with
      | idle => exact h
      | emitted hphase | drained _ _ hphase | buildFailed _ _ hphase | executed _ _ hphase =>
        rw [h] at hphase
        cases hphase
    · simp only [step]
      rw [hresumed.streams hid, h]
  | close seqId =>
    by_cases hid : id = seqId
    · subst hid
      simp only [step, close, h]
      split <;> exact h
    · rcases s.close_cases seqId with heq | heq <;> simp [step, heq, setStream, hid, h]

theorem FinishTracked.step {s₀ : ServerState σ} {es : List Event}
    (hrun : Transition.run (ServerState.step ex) s₀ es = s) (hs : s.Sound)
    (hst : s.runtime.SessionsStored) (h : FinishTracked ex s₀ es s) (e : Event) :
    FinishTracked ex s₀ (es ++ [e]) (s.step ex e) := by
  have hwf := hs.runtime.wellFormed
  have hsession := sessionChange ex hwf hst e
  have hchange := step_change ex s hwf e
  refine ⟨fun sid id hn => ?_, fun id q' hq' hcan => ?_, fun id hran => ?_⟩
  · rcases hsession.named hn with ⟨hn, -⟩ | ⟨request, inputIds, m, hget⟩
    · obtain ⟨q, hq, hsid⟩ := h.named sid id hn
      obtain ⟨q', hq', hreq⟩ := hchange.get_some hs.runtime hq
      exact ⟨q', hq', (Sequence.sessionId_of_request hreq).trans hsid⟩
    · exact ⟨_, hget, rfl⟩
  · rw [finishRan_concat, hrun]
    -- a name after the step is an old one, since the request is not a new one
    have hold : ∀ sid, (s.step ex e).runtime.Named sid id → s.runtime.Named sid id ∧
        ∀ q, s.finishing e = some q → q.seqId = id → q.sessionId ≠ sid := by
      intro sid hn
      rcases hsession.named hn with hn | ⟨request, inputIds, m, hget⟩
      · exact hn
      · rw [hq', Option.some.injEq] at hget
        rw [hget] at hcan
        cases hcan
    rcases cancelled_cases hs hq' hcan with ⟨q, hq, hqcan⟩ | ⟨q, hfin, hid, hsid⟩
    · obtain ⟨hran, hnot⟩ := h.cancelled id q hq hqcan
      exact ⟨.inl hran, fun sid hn => hnot sid (hold sid hn).1⟩
    · refine ⟨.inr ⟨q, hfin, hid⟩, fun sid hn => ?_⟩
      obtain ⟨hn, hne⟩ := hold sid hn
      obtain ⟨q₀, hq₀, hsid₀⟩ := h.named sid id hn
      obtain ⟨q₁, hq₁, hreq⟩ := hchange.get_some hs.runtime hq₀
      rw [hq', Option.some.injEq] at hq₁
      subst hq₁
      exact hne q hfin hid (hsid.trans ((Sequence.sessionId_of_request hreq).trans hsid₀))
  · rw [finishRan_concat, hrun] at hran
    rcases hran with hran | ⟨q, hfin, rfl⟩
    · obtain ⟨q, hq, hdone, hcan⟩ := h.ran id hran
      obtain ⟨b, hq'⟩ := hchange.get_terminal hs.runtime hq hdone
      exact ⟨_, hq', hdone, hcan.imp_right fun hphase => phase_finished_step hs e hphase⟩
    · obtain ⟨b, hsched⟩ := scheduler_of_finishing ex hwf hfin
      refine ⟨RuntimeCore.withAppended q b, ?_, ?_⟩
      · rw [hsched]
        exact InteractiveScheduler.get_put _
      · rcases finishing_cases hfin with
          ⟨_, _, id, q₀, rfl, -, -, -, rfl⟩ | ⟨id, rfl, hloop, hget, hdone⟩
        · exact ⟨rfl, .inl rfl⟩
        · obtain rfl : q.seqId = id := hwf.seqId_eq _ _ hget
          refine ⟨hdone, .inr ?_⟩
          simp [ServerState.step, resume, turn, hget, hloop, hdone, setStream]

theorem finishTracked_run (ex : ModelExecutor σ) (config : RuntimeConfig) (executor : σ)
    (es : List Event) : FinishTracked ex (init config executor) es
      (Transition.run (step ex) (init config executor) es) := by
  refine (Transition.run_history_induction (motive := fun es s => s.Sound ∧
    s.runtime.SessionsStored ∧ FinishTracked ex (init config executor) es s) ?_ ?_ es).2.2
  · refine ⟨sound_init config executor, RuntimeCore.sessionsStored_create config executor, ?_,
      ?_, ?_⟩
    · rintro sid id (h | h) <;> cases h
    · intro id q hq
      cases hq
    · rintro id ⟨es', e, q, hpre, -⟩
      simp [List.prefix_nil] at hpre
  · rintro es e ⟨hs, hst, h⟩
    exact ⟨hs.step e, SessionsStored.step hs hst e, h.step rfl hs hst e⟩

/-! ## Closing -/

/-- What an early exit must leave, after the run `es` and the close of the request's stream :
the request is terminal and never selected again, no session names it, its prefix-cache
reference is released, and the other requests go on as if it had been cancelled. -/
structure CleanedUp (ex : ModelExecutor σ) (s₀ : ServerState σ) (es : List Event) (id : SeqId) :
    Prop where
  terminal : ∀ q, (Transition.run (step ex) s₀ (es ++ [.close id])).runtime.scheduler.get id =
    some q → q.isTerminal = true
  notSelected : ∀ es' t, (Transition.run (step ex) s₀ (es ++ [.close id] ++
    es')).runtime.scheduler.selectNextSequence = some t → t.seqId ≠ id
  notNamed : ∀ sid, ¬(Transition.run (step ex) s₀ (es ++ [.close id])).runtime.Named sid id
  released : ∀ q, (Transition.run (step ex) s₀ (es ++ [.close id])).runtime.scheduler.get id =
    some q → q.cacheHandle = none ∨ FinishRan ex s₀ (es ++ [.close id]) id
  asCancelled : ∀ es' other, other ≠ id →
    (Transition.run (step ex) s₀ (es ++ [.close id] ++ es')).runtime.scheduler.get other =
        (Transition.run (step ex) s₀ (es ++ [.cancelRequest (some id) none, .close id] ++
          es')).runtime.scheduler.get other ∧
      (Transition.run (step ex) s₀ (es ++ [.close id] ++ es')).streams other =
        (Transition.run (step ex) s₀ (es ++ [.cancelRequest (some id) none, .close id] ++
          es')).streams other

/-- A stream can be closed at a suspension. -/
def Suspended (s : ServerState σ) (id : SeqId) : Prop :=
  (s.streams id).phase = .loop ∨ ∃ rest, (s.streams id).phase = .yielding rest

/-- Closing a suspended stream changes its phase and nothing else. -/
theorem step_close {id : SeqId} {q : Sequence} (hq : s.runtime.scheduler.get id = some q)
    (h : s.Suspended id) :
    s.step ex (.close id) = s.setStream id { s.streams id with phase := .closed } := by
  rcases h with h | ⟨rest, h⟩ <;> simp [step, close, hq, h]

/-- At every suspension of a stream in every run, closing it is a clean exit if and only if the
request was cancelled before, or it is finished, holds no prefix-cache handle and is named by
no session. -/
theorem cleanedUp_iff (ex : ModelExecutor σ) (config : RuntimeConfig) (executor : σ)
    (es : List Event) (id : SeqId) (q : Sequence)
    (hq : (Transition.run (step ex) (init config executor) es).runtime.scheduler.get id = some q)
    (hsusp : (Transition.run (step ex) (init config executor) es).Suspended id) :
    CleanedUp ex (init config executor) es id ↔ q.status = .cancelled ∨
      q.status = .finished ∧ q.cacheHandle = none ∧
        ∀ sid, ¬(Transition.run (step ex) (init config executor) es).runtime.Named sid id := by
  have hs := sound_run ex config executor es
  have htracked := finishTracked_run ex config executor es
  have hclose : Transition.run (step ex) (init config executor) (es ++ [.close id]) = _ :=
    (Transition.run_concat _ _ _ _).trans (step_close hq hsusp)
  have hruntime : (Transition.run (step ex) (init config executor)
      (es ++ [.close id])).runtime =
        (Transition.run (step ex) (init config executor) es).runtime := by
    rw [hclose]
    rfl
  constructor
  · intro h
    rcases (Sequence.isTerminal_iff q).1 (h.terminal q (hruntime ▸ hq)) with hfin | hcan
    · refine .inr ⟨hfin, ?_, fun sid hn => h.notNamed sid (hruntime ▸ hn)⟩
      rcases h.released q (hruntime ▸ hq) with hnone | hran
      · exact hnone
      · rcases finishRan_concat.1 hran with hran | ⟨q', hq', -⟩
        · obtain ⟨q', hq', -, hcan | hphase⟩ := htracked.ran id hran
          · rw [hq, Option.some.injEq] at hq'
            rw [← hq', hfin] at hcan
            cases hcan
          · rcases hsusp with hsusp | ⟨rest, hsusp⟩ <;>
            · rw [hphase] at hsusp
              cases hsusp
        · cases hq'
    · exact .inl hcan
  · intro h
    have hdone : q.isTerminal = true :=
      (Sequence.isTerminal_iff q).2 (h.elim .inr fun h => .inl h.1)
    -- a cancel of the terminal request does nothing
    have hcancel : (Transition.run (step ex) (init config executor) es).step ex
        (.cancelRequest (some id) none) = Transition.run (step ex) (init config executor) es := by
      generalize Transition.run (step ex) (init config executor) es = s at hq
      have hfin : s.finishing (.cancelRequest (some id) none) = none := by
        simp [finishing, hq, hdone]
      exact congrArg (fun rt => ServerState.mk rt s.streams) (runtime_of_not_cancelling ex hfin)
    refine ⟨fun q' hq' => ?_, fun es' t ht => ?_, fun sid hn => ?_, fun q' hq' => ?_,
      fun es' other _ => ?_⟩
    · rw [hruntime, hq, Option.some.injEq] at hq'
      exact hq' ▸ hdone
    · rw [Transition.run_append] at ht
      exact not_selected_of_terminal (sound_run ex config executor _) (hruntime ▸ hq) hdone es' t ht
    · rw [hruntime] at hn
      exact h.elim (fun hcan => (htracked.cancelled id q hq hcan).2 sid hn) fun h => h.2.2 sid hn
    · rw [hruntime, hq, Option.some.injEq] at hq'
      subst hq'
      exact h.elim
        (fun hcan => .inr (finishRan_concat.2 (.inl (htracked.cancelled id q hq hcan).1)))
        fun h => .inl h.2.1
    · constructor <;>
        simp only [Transition.run_append, Transition.run_cons, Transition.run_nil, hcancel]

/-- A request, cancelled while its stream is suspended. -/
def cancelledRun : List Event :=
  [.addRequest (shortRequest "a"), .resume 0, .cancelRequest (some 0) none]

theorem cleanedUp_cancelledRun :
    CleanedUp (deterministicExecutor true) (init smallConfig ()) cancelledRun 0 := by
  have hq : ((Transition.run (step (deterministicExecutor true)) (init smallConfig ())
      cancelledRun).runtime.scheduler.get 0).map Sequence.status = some .cancelled := by
    decide +kernel
  obtain ⟨q, hq, hcan⟩ := Option.map_eq_some_iff.1 hq
  exact (cleanedUp_iff (deterministicExecutor true) smallConfig () cancelledRun 0 q hq
    (.inl (by decide +kernel))).2 (.inl hcan)

/-- A request whose stream was resumed once. -/
def startedRun : List Event :=
  [.addRequest (shortRequest "a"), .resume 0]

/-- A request whose stream is closed after the prefill stays live. -/
theorem not_cleanedUp : ¬∀ (σ : Type) (ex : ModelExecutor σ) (config : RuntimeConfig)
    (executor : σ) (es : List Event) (id : SeqId) (q : Sequence),
    (Transition.run (step ex) (init config executor) es).runtime.scheduler.get id = some q →
    (Transition.run (step ex) (init config executor) es).Suspended id →
    CleanedUp ex (init config executor) es id := by
  intro h
  have hq : ((Transition.run (step (deterministicExecutor true)) (init smallConfig ())
      startedRun).runtime.scheduler.get 0).isSome = true := by decide +kernel
  have hlive : ((Transition.run (step (deterministicExecutor true)) (init smallConfig ())
      (startedRun ++ [.close 0])).runtime.scheduler.get 0).map Sequence.isTerminal =
        some false := by decide +kernel
  obtain ⟨q, hq⟩ := Option.isSome_iff_exists.1 hq
  obtain ⟨q', hq', hqlive⟩ := Option.map_eq_some_iff.1 hlive
  have hclean := h Unit (deterministicExecutor true) smallConfig () startedRun 0 q hq
    (.inl (by decide +kernel))
  rw [hclean.terminal q' hq'] at hqlive
  cases hqlive

end ServerState

end SoloRT
