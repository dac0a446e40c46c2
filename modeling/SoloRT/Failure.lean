import SoloRT.StreamText

/-!
# When the execution of a batch raises

Nothing between the executor and the stream handles an exception. `RaisesIn` says that the
page allocator or the executor raises while a batch is executed. The exception then leaves
through the stream whose turn executed the batch, which need not be the stream of the
batch's sequence, and ends that stream alone.

The sequence itself stays as it was. It is live, its key is the same, and so it is the next
one selected again (`failingTurn_contained`). Cancelling it is the one way to end this.
-/

namespace SoloRT

namespace BatchContext

variable {σ : Type} {ex : ModelExecutor σ} {c : BatchContext σ} {batch : Batch} {e : PyError}

/-- The KV cache or the executor raises `e` in the execution of the batch. -/
inductive RaisesIn (ex : ModelExecutor σ) (c : BatchContext σ) (batch : Batch) (e : PyError) : Prop
  | kvCache (c' : BatchContext σ) (h : c.attachKv ex batch (c.tokensAfter batch) = (.error e, c'))
  | forwardPrefill (batch' : Batch) (c' : BatchContext σ) (env : ExecutorEnv σ)
      (hb : batch.phase = .prefill)
      (h : c.attachKv ex batch (c.tokensAfter batch) = (.ok batch', c'))
      (he : ex.forwardPrefill c'.sequence batch' c'.env = (.error e, env))
  | forwardDecode (batch' : Batch) (c' : BatchContext σ) (env : ExecutorEnv σ)
      (hb : batch.phase = .decode)
      (h : c.attachKv ex batch (c.tokensAfter batch) = (.ok batch', c'))
      (he : ex.forwardDecode c'.sequence batch' c'.env = (.error e, env))

/-- Attaching the metadata changes nothing but the pages. -/
theorem attachKv_setEnv {n : ℕ} {r : Except PyError Batch} {c' : BatchContext σ}
    (h : c.attachKv ex batch n = (r, c')) : ∃ env, c' = c.setEnv env := by
  rcases attachKv_cases ex c batch n with ⟨e, env, -, -, -, ha⟩ | ⟨batch', env, -, ha⟩ <;>
  · rw [ha] at h
    cases h
    exact ⟨env, rfl⟩

/-- A batch whose execution raises leaves its sequence as it was, but for its pages. -/
theorem RaisesIn.executeBatch (h : RaisesIn ex c batch e) (hs : c.sequence.status ≠ .cancelled) :
    ∃ env, c.executeBatch ex batch = (.error e, c.setEnv env) := by
  unfold BatchContext.executeBatch
  rw [if_neg hs]
  cases h with
  | kvCache c' h =>
    obtain ⟨env, rfl⟩ := attachKv_setEnv h
    refine ⟨env, ?_⟩
    cases hb : batch.phase with
    | prefill =>
      rw [tokensAfter_prefill hb] at h
      simp only [executePrefill, h]
    | decode =>
      rw [tokensAfter_decode hb] at h
      simp only [executeDecode, h]
  | forwardPrefill batch' c' env hb h he =>
    obtain ⟨env', rfl⟩ := attachKv_setEnv h
    rw [tokensAfter_prefill hb] at h
    exact ⟨env, by simp only [hb, executePrefill, h, he, setEnv_setEnv]⟩
  | forwardDecode batch' c' env hb h he =>
    obtain ⟨env', rfl⟩ := attachKv_setEnv h
    rw [tokensAfter_decode hb] at h
    exact ⟨env, by simp only [hb, executeDecode, h, he, setEnv_setEnv]⟩

end BatchContext

namespace ServerState

variable {σ : Type} {ex : ModelExecutor σ} {s : ServerState σ}

/-- In its next turn the stream of `id` executes a batch of `a`, and that raises `e`. -/
structure FailingTurn (ex : ModelExecutor σ) (s : ServerState σ) (id : SeqId) (a : Sequence)
    (e : PyError) : Prop where
  live : ∃ q, s.runtime.scheduler.get id = some q ∧ q.isTerminal = false
  loop : (s.streams id).phase = .loop
  selected : s.runtime.scheduler.selectNextSequence = some a
  raises : ∃ batch, s.runtime.scheduler.buildBatch none a.scheduled = .ok batch ∧
    (s.runtime.context a.scheduled).RaisesIn ex batch e

/-- From `s` to `s'` the exception `e` ended the stream of `id`, and changed no other stream
and no sequence but `a`. That one is live, has the outputs and the progress it had, and is
selected again. -/
structure FailureContained (s s' : ServerState σ) (id : SeqId) (a : Sequence) (e : PyError) :
    Prop where
  raised : s'.streams id = { s.streams id with phase := .raised e }
  streams : ∀ other, other ≠ id → s'.streams other = s.streams other
  sequences : ∀ other, other ≠ a.seqId →
    s'.runtime.scheduler.get other = s.runtime.scheduler.get other
  order : s'.runtime.scheduler.order = s.runtime.scheduler.order
  selectedAgain : ∃ a', s'.runtime.scheduler.get a.seqId = some a' ∧
    s'.runtime.scheduler.selectNextSequence = some a' ∧ a'.isTerminal = false ∧
    a'.request = a.request ∧ a'.outputIds = a.outputIds ∧
    a'.numScheduledTokens = a.numScheduledTokens ∧ a'.metadata = a.metadata

variable {id : SeqId} {a : Sequence} {e : PyError}

theorem FailingTurn.contained (h : FailingTurn ex s id a e) (hs : s.Sound) :
    FailureContained s (s.step ex (.resume id)) id a e := by
  have hwf := hs.runtime.wellFormed
  obtain ⟨⟨q, hq, hlive⟩, hloop, hsel, batch, hb, hraise⟩ := h
  obtain ⟨env, hx⟩ := hraise.executeBatch (by simp [RuntimeCore.context])
  have hres := resumed ex s hwf id
  simp only [step]
  generalize s.resume ex id = s' at hres
  cases hres with
  | idle h =>
    rcases h with h | h | h
    · rw [h] at hq
      cases hq
    · exact absurd hloop h
    · rw [h] at hsel
      cases hsel
  | emitted h =>
    rw [h] at hloop
    cases hloop
  | drained hq' hdone =>
    rw [hq] at hq'
    cases hq'
    rw [hlive] at hdone
    cases hdone
  | buildFailed _ _ _ hsel' hb' =>
    rw [hsel] at hsel'
    cases hsel'
    rw [hb] at hb'
    cases hb'
  | executed _ _ _ hsel' hb' hx' =>
    rw [hsel] at hsel'
    cases hsel'
    rw [hb] at hb'
    cases hb'
    rw [hx] at hx'
    cases hx'
    refine ⟨by simp [setStream, StreamState.afterBatch], fun other hne => by simp [setStream, hne],
      fun other hne => InteractiveScheduler.get_put_of_ne hne, rfl, ?_⟩
    exact ⟨_, InteractiveScheduler.get_put _, hwf.selectNextSequence_put hsel rfl rfl rfl, rfl,
      rfl, rfl, rfl, rfl⟩

/-- A terminal sequence is never selected, in any continuation. -/
theorem not_selected_of_terminal (hs : s.Sound) {q : Sequence}
    (hq : s.runtime.scheduler.get id = some q) (hdone : q.isTerminal = true) (es : List Event)
    (t : Sequence)
    (ht : (Transition.run (step ex) s es).runtime.scheduler.selectNextSequence = some t) :
    t.seqId ≠ id := by
  have hrun : ∀ es, (Transition.run (step ex) s es).Sound ∧ ∃ q',
      (Transition.run (step ex) s es).runtime.scheduler.get id = some q' ∧
        q'.isTerminal = true := fun es =>
    Transition.run_invariant' (I := fun s : ServerState σ => s.Sound ∧ ∃ q',
      s.runtime.scheduler.get id = some q' ∧ q'.isTerminal = true)
      (fun s e ⟨hs, q', hq', hdone'⟩ => by
        obtain ⟨b, hq''⟩ :=
          (step_change ex s hs.runtime.wellFormed e).get_terminal hs.runtime hq' hdone'
        exact ⟨hs.step e, _, hq'', hdone'⟩) es ⟨hs, q, hq, hdone⟩
  obtain ⟨hs', q', hq', hdone'⟩ := hrun es
  obtain ⟨hget, hlive⟩ := hs'.runtime.wellFormed.selectNextSequence ht
  rintro rfl
  rw [InteractiveScheduler.get, hget, Option.some.injEq] at hq'
  rw [hq', hdone'] at hlive
  cases hlive

/-- In every run, an exception raised in the execution of a batch of `a` surfaces from the
one stream whose turn executed it and is contained. The sequence `a` is selected again,
unless it is cancelled, after which it never is. -/
theorem failingTurn_contained (ex : ModelExecutor σ) (config : RuntimeConfig) (executor : σ)
    (es : List Event) (id : SeqId) (a : Sequence) (e : PyError)
    (h : FailingTurn ex (Transition.run (step ex) (init config executor) es) id a e) :
    FailureContained (Transition.run (step ex) (init config executor) es)
        (Transition.run (step ex) (init config executor) (es ++ [.resume id])) id a e ∧
      ∀ es' a', (Transition.run (step ex) (init config executor)
          (es ++ .resume id :: es')).runtime.scheduler.get a.seqId = some a' →
        a'.status = .cancelled → ∀ es'' t, (Transition.run (step ex) (init config executor)
          (es ++ .resume id :: es' ++ es'')).runtime.scheduler.selectNextSequence = some t →
        t.seqId ≠ a.seqId := by
  refine ⟨?_, fun es' a' ha' hcan es'' t ht => ?_⟩
  · rw [Transition.run_concat]
    exact h.contained (sound_run ex config executor es)
  · rw [Transition.run_append] at ht
    exact not_selected_of_terminal (sound_run ex config executor _) ha'
      (by simp [Sequence.isTerminal, hcan]) es'' t ht

/-! ## A prompt that does not fit -/

/-- A request whose prompt has more tokens than the small runtime has slots. -/
def longRequest (sessionId : SessionId) : Request where
  messages := [⟨"user", List.replicate 40 'x'⟩]
  maxNewTokens := 1
  sessionId := some sessionId

/-- The third prefill chunk of the long request is the first one that does not fit. -/
def longPromptRun : List Event :=
  [.addRequest (longRequest "a"), .addRequest (shortRequest "b"), .resume 0, .resume 0]

/-- The stream of the second request executes that chunk in its first turn. -/
theorem failingTurn_longPrompt : ∃ a e,
    FailingTurn (deterministicExecutor false)
      (Transition.run (step (deterministicExecutor false)) (init smallConfig ()) longPromptRun)
      1 a e ∧ a.seqId = 0 ∧ e.kind = .pageAllocationError := by
  generalize hs : Transition.run (step (deterministicExecutor false)) (init smallConfig ())
    longPromptRun = s
  have hlive : (s.runtime.scheduler.get 1).map Sequence.isTerminal = some false := by
    subst hs
    decide +kernel
  have hfail : (s.runtime.scheduler.selectNextSequence.bind fun a =>
      (s.runtime.scheduler.buildBatch none a.scheduled).toOption.bind fun batch =>
        match ((s.runtime.context a.scheduled).attachKv (deterministicExecutor false) batch
          ((s.runtime.context a.scheduled).tokensAfter batch)).1 with
        | .ok _ => none
        | .error e => some (a.seqId, e.kind)) = some (0, .pageAllocationError) := by
    subst hs
    decide +kernel
  have hloop : (s.streams 1).phase = .loop := by
    subst hs
    decide +kernel
  obtain ⟨q, hq, hlive⟩ := Option.map_eq_some_iff.1 hlive
  obtain ⟨a, ha, hfail⟩ := Option.bind_eq_some_iff.1 hfail
  obtain ⟨batch, hb, hfail⟩ := Option.bind_eq_some_iff.1 hfail
  have hb' : s.runtime.scheduler.buildBatch none a.scheduled = .ok batch := by
    cases hr : s.runtime.scheduler.buildBatch none a.scheduled with
    | error e => simp [hr, Except.toOption] at hb
    | ok b => simpa [hr, Except.toOption] using hb
  cases hk : (s.runtime.context a.scheduled).attachKv (deterministicExecutor false) batch
    ((s.runtime.context a.scheduled).tokensAfter batch) with
  | mk r c =>
    rw [hk] at hfail
    cases r with
    | ok _ => simp at hfail
    | error e =>
      simp only [Option.some.injEq, Prod.mk.injEq] at hfail
      exact ⟨a, e, ⟨⟨q, hq, hlive⟩, hloop, ha, batch, hb', .kvCache c hk⟩, hfail⟩

/-- The exception of the long prompt ends the stream of the short request, and the long one
is selected again. -/
theorem failingTurn_contained_longPrompt : ∃ a e,
    FailureContained
      (Transition.run (step (deterministicExecutor false)) (init smallConfig ()) longPromptRun)
      (Transition.run (step (deterministicExecutor false)) (init smallConfig ())
        (longPromptRun ++ [.resume 1])) 1 a e ∧ a.seqId = 0 := by
  obtain ⟨a, e, h, hid, -⟩ := failingTurn_longPrompt
  exact ⟨a, e, (failingTurn_contained (deterministicExecutor false) smallConfig ()
    longPromptRun 1 a e h).1, hid⟩

/-- Failures are not isolated : the exception of a batch can leave through the stream of
another request, and the failing sequence is selected again. -/
theorem not_failure_isolated : ¬∀ (σ : Type) (ex : ModelExecutor σ) (config : RuntimeConfig)
    (executor : σ) (es : List Event) (id : SeqId) (a : Sequence) (e : PyError),
    FailingTurn ex (Transition.run (step ex) (init config executor) es) id a e →
      id = a.seqId ∧
      (∀ es' t, (Transition.run (step ex) (init config executor)
        (es ++ .resume id :: es')).runtime.scheduler.selectNextSequence = some t →
          t.seqId ≠ a.seqId) ∧
      ∀ other, other ≠ a.seqId → ∀ es', ((Transition.run (step ex) (init config executor)
        (es ++ .resume id :: es')).streams other).phase ≠ .raised e := by
  intro h
  obtain ⟨a, e, hfail, hid, -⟩ := failingTurn_longPrompt
  have hown := (h Unit (deterministicExecutor false) smallConfig () longPromptRun 1 a e hfail).1
  rw [hid] at hown
  exact absurd hown (by decide)

end ServerState

end SoloRT
