import SoloRT.InStep
import SoloRT.EarlyClose

/-!
# Serving states that outlive their request

A serving state is dropped when the executor itself finishes the sequence. A sequence that is
cancelled is never handed to the executor again, and `cancel_request` does not tell the executor,
so a serving state that a cancelled sequence has by then stays in `_states` for good.

Every key of `_states` is the id of a live sequence in all states of a run if and only if no step
cancels a sequence that the executor has a serving state of (`onlyLive_run_iff`).
-/

namespace SoloRT

/-- Every serving state is that of a live sequence. -/
def OnlyLive {σ δ : Type} (states : σ → ServingStates δ) (rt : RuntimeCore σ) : Prop :=
  ∀ id state, states rt.executor id = some state →
    ∃ q, rt.scheduler.get id = some q ∧ q.isTerminal = false

/-- If the event cancels a live sequence, the executor has no serving state of it. -/
def CancelsUnserved {σ δ : Type} (states : σ → ServingStates δ) (s : ServerState σ) (e : Event) :
    Prop :=
  ∀ requestId sessionId q, e = .cancelRequest requestId sessionId → s.finishing e = some q →
    states s.runtime.executor q.seqId = none

instance {σ δ : Type} (states : σ → ServingStates δ) (s : ServerState σ) (e : Event) :
    Decidable (CancelsUnserved states s e) :=
  match e with
  | .cancelRequest requestId sessionId =>
    decidable_of_iff ((s.finishing (.cancelRequest requestId sessionId)).all
        (fun q => (states s.runtime.executor q.seqId).isNone) = true) <| by
      simp only [Option.all_eq_true, Option.isNone_iff_eq_none]
      exact ⟨fun h _ _ q _ hq => h q hq, fun h q hq => h _ _ q rfl hq⟩
  | .addRequest _ | .resume _ | .close _ | .evict _ | .tick _ =>
    .isTrue (by simp [CancelsUnserved])

section

variable {σ δ : Type} {ex : ModelExecutor σ} {states : σ → ServingStates δ}
  {config : GenerationConfig} {tokenizer : Tokenizer} {s : ServerState σ} {e : Event}

/-- A terminal sequence has no serving state. -/
theorem OnlyLive.states_eq_none (h : OnlyLive states s.runtime) {id : SeqId} {q : Sequence}
    (hq : s.runtime.scheduler.get id = some q) (hdone : q.isTerminal = true) :
    states s.runtime.executor id = none := by
  rw [Option.eq_none_iff_forall_ne_some]
  intro state hstate
  obtain ⟨q', hq', hlive⟩ := h id state hstate
  rw [hq, Option.some.injEq] at hq'
  rw [← hq', hdone] at hlive
  cases hlive

/-- An event that finishes a sequence does not reach the executor. -/
theorem executor_of_finishing (ex : ModelExecutor σ) (hs : s.Sound) {q : Sequence}
    (h : s.finishing e = some q) : (s.step ex e).runtime.executor = s.runtime.executor := by
  obtain ⟨b, hcore, -⟩ := RuntimeCore.finishSequence_core
    { s.runtime with scheduler := s.runtime.scheduler.put q } q (InteractiveScheduler.get_put q)
  rw [ServerState.step_of_finishing hs.runtime.wellFormed h]
  exact hcore.executor

/-- A cancelled sequence gets no serving state, and has none if it had none when it was
cancelled. -/
theorem OnlyLive.states_cancelled (h : OnlyLive states s.runtime)
    (hex : KeepsStates ex states config tokenizer) (hs : s.Sound) (he : CancelsUnserved states s e)
    {id : SeqId} {q' : Sequence} (hq' : (s.step ex e).runtime.scheduler.get id = some q')
    (hcan : q'.status = .cancelled) : states (s.step ex e).runtime.executor id = none := by
  rcases ServerState.cancelled_cases hs hq' hcan with ⟨q, hq, hqcan⟩ | ⟨q, hfin, hid, -⟩
  · have hdone := q.isTerminal_iff.2 (.inr hqcan)
    have hnone := h.states_eq_none hq hdone
    cases hex.storedChange hs e hq' with
    | same _ _ _ _ _ _ _ hstates => exact hstates.trans hnone
    | added _ _ _ _ hget => rw [hq] at hget; cases hget
    | executed sel batch r c hget hlive =>
      rw [hq, Option.some.injEq] at hget
      rw [← hget, hdone] at hlive
      cases hlive
  · rw [executor_of_finishing ex hs hfin]
    subst hid
    rcases ServerState.finishing_cases hfin with
      ⟨requestId, sessionId, -, -, rfl, -⟩ | ⟨i, rfl, -, hget, hdone⟩
    · exact he requestId sessionId q rfl hfin
    · have hqid := hs.runtime.wellFormed.seqId_eq _ _ hget
      exact h.states_eq_none (hqid ▸ hget) hdone

/-- The steps that keep the law are those that cancel no sequence with a serving state. -/
theorem OnlyLive.step_iff (h : OnlyLive states s.runtime)
    (hex : KeepsStates ex states config tokenizer) (hs : s.Sound) (hin : InStep states s.runtime) :
    OnlyLive states (s.step ex e).runtime ↔ CancelsUnserved states s e := by
  constructor
  · rintro hlaw requestId sessionId q rfl hfin
    rw [← executor_of_finishing ex hs hfin]
    obtain ⟨b, hsched⟩ := ServerState.scheduler_of_finishing ex hs.runtime.wellFormed hfin
    refine hlaw.states_eq_none (q := RuntimeCore.withAppended q b) ?_ ?_
    · rw [hsched]
      exact InteractiveScheduler.get_put (RuntimeCore.withAppended q b)
    · rcases ServerState.finishing_cases hfin with ⟨_, _, _, _, -, -, -, -, rfl⟩ | ⟨_, h, -⟩
      · rfl
      · cases h
  · intro he id state hstate
    have hin' := hin.step hex hs e
    cases hq' : (s.step ex e).runtime.scheduler.get id with
    | none =>
      rw [hin'.absent id hq'] at hstate
      cases hstate
    | some q' =>
      refine ⟨q', rfl, ?_⟩
      rw [← Bool.not_eq_true, q'.isTerminal_iff]
      rintro (hfin | hcan)
      · rw [hin'.finished id q' hq' hfin] at hstate
        cases hstate
      · rw [h.states_cancelled hex hs he hq' hcan] at hstate
        cases hstate

/-- Every key of `_states` is the id of a live sequence throughout a run, with any of the
repository's executors, if and only if no step of the run cancels a sequence that has a serving
state. -/
theorem onlyLive_run_iff {st : σ} (h : RepositoryExecutor ex states config tokenizer st)
    (cfg : RuntimeConfig) (es : List Event) :
    (∀ es', es' <+: es →
      OnlyLive states
        (Transition.run (ServerState.step ex) (ServerState.init cfg st) es').runtime) ↔
      Transition.Along (ServerState.step ex) (CancelsUnserved states)
        (ServerState.init cfg st) es := by
  have hex := h.keepsStates
  refine Transition.forall_prefix_iff_along
    (I := fun s : ServerState σ => OnlyLive states s.runtime)
    (J := fun s : ServerState σ => s.Sound ∧ InStep states s.runtime)
    (fun s e ⟨hs, hin⟩ => ⟨hs.step e, hin.step hex hs e⟩)
    (fun s e ⟨hs, hin⟩ hlaw => hlaw.step_iff hex hs hin)
    ⟨ServerState.sound_init cfg st, inStep_init h.states_eq_none cfg⟩ ?_ es
  intro id state hstate
  have hnone : states st id = some state := hstate
  rw [h.states_eq_none id] at hnone
  cases hnone

end

open TransformersTextExecutor

/-- A request is cancelled before a batch of it is executed, and another one is served. -/
def cancelledUnservedRun : List Event :=
  [.addRequest (ServerState.shortRequest "a"), .addRequest (ServerState.shortRequest "b"),
    .cancelRequest (some 0) none, .resume 1, .resume 1, .resume 1]

/-- The second request has a serving state while it is served. -/
theorem onlyLive_run_iff_cancelledUnservedRun :
    (∀ es', es' <+: cancelledUnservedRun →
      OnlyLive TransformersState.states
        (Transition.run (ServerState.step countingExecutor.modelExecutor)
          (ServerState.init ServerState.smallConfig {}) es').runtime) ∧
      ((Transition.run (ServerState.step countingExecutor.modelExecutor)
        (ServerState.init ServerState.smallConfig {})
          (cancelledUnservedRun.take 4)).runtime.executor.states 1).isSome = true :=
  ⟨(onlyLive_run_iff (.transformers countingExecutor 0) ServerState.smallConfig
    cancelledUnservedRun).2 (by decide +kernel), by decide +kernel⟩

/-- A request is cancelled after its prompt was prefilled. -/
def cancelledServedRun : List Event :=
  [.addRequest (ServerState.shortRequest "a"), .resume 0, .cancelRequest (some 0) none]

/-- The serving state of the cancelled request is still there. -/
theorem not_onlyLive_run : ¬∀ (σ δ : Type) (ex : ModelExecutor σ) (states : σ → ServingStates δ)
    (config : GenerationConfig) (tokenizer : Tokenizer) (st : σ) (cfg : RuntimeConfig)
    (es : List Event), RepositoryExecutor ex states config tokenizer st →
    OnlyLive states
      (Transition.run (ServerState.step ex) (ServerState.init cfg st) es).runtime := by
  intro h
  have hlaw := h _ _ _ _ _ _ _ ServerState.smallConfig cancelledServedRun
    (.transformers countingExecutor 0)
  have hstate : ((Transition.run (ServerState.step countingExecutor.modelExecutor)
      (ServerState.init ServerState.smallConfig { rng := 0 })
        cancelledServedRun).runtime.executor.states 0).isSome = true := by decide +kernel
  have hdone : ((Transition.run (ServerState.step countingExecutor.modelExecutor)
      (ServerState.init ServerState.smallConfig { rng := 0 })
        cancelledServedRun).runtime.scheduler.get 0).all Sequence.isTerminal = true := by
    decide +kernel
  obtain ⟨state, hstate⟩ := Option.isSome_iff_exists.1 hstate
  obtain ⟨q, hq, hlive⟩ := hlaw 0 state hstate
  rw [hq, Option.all_some, hlive] at hdone
  cases hdone

end SoloRT
