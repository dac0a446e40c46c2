import SoloRT.Execution
import SoloRT.Transition

/-!
# Streams over one runtime

`stream_request` is a coroutine : it runs until its next `yield` or `sleep(0)` and is then
resumed by the event loop, in any order with the other coroutines. Its suspension points
are the phases of `StreamPhase`. Every request has one stream, which need not be started.

`ServerState.step` is one turn of the event loop : a request is added or cancelled, a
stream is resumed, or closed by its consumer, the prefix cache is asked to evict, or time
passes. A run is any list of such events (`Transition.run`).

`Resumed` lists what resuming a stream can do, and `Change` what any event can do to the
runtime. The invariants of the development are case analyses on these two.
-/

namespace SoloRT

/-- Where a stream is suspended. -/
inductive StreamPhase
  /-- Before the loop condition : not started, or at a `sleep(0)`. -/
  | loop
  /-- At a `yield`, with the texts of the same decode still to come. -/
  | yielding (rest : List Text)
  /-- The generator returned. -/
  | finished
  /-- The body of the generator raised. A StopIteration reaches the consumer as a RuntimeError. -/
  | raised (e : PyError)
  /-- The consumer closed the generator. -/
  | closed
  deriving DecidableEq, Repr

/-- A stream : where it is suspended, and the texts it yielded so far. -/
structure StreamState where
  phase : StreamPhase := .loop
  yielded : List Text := []
  deriving DecidableEq, Repr

namespace StreamState

/-- The stream runs on through the texts of a decode, up to the next suspension. -/
def emit (stream : StreamState) : List Text → StreamState
  | [] => { stream with phase := .loop }
  | text :: rest => { phase := .yielding rest, yielded := stream.yielded ++ [text] }

/-- `complete_request` returns the joined texts of its stream. -/
def content (stream : StreamState) : Text :=
  stream.yielded.flatten

end StreamState

structure ServerState (σ : Type) where
  runtime : RuntimeCore σ
  streams : SeqId → StreamState := fun _ => {}

inductive Event
  | addRequest (request : Request)
  | cancelRequest (requestId : Option SeqId) (sessionId : Option SessionId)
  | resume (seqId : SeqId)
  | close (seqId : SeqId)
  | evict (targetCount : ℤ)
  | tick (now : Timestamp)
  deriving DecidableEq, Repr

namespace ServerState

variable {σ : Type} (ex : ModelExecutor σ) (s : ServerState σ)

/-- A server over a runtime just constructed. -/
def init (config : RuntimeConfig) (executor : σ) : ServerState σ where
  runtime := .create config executor

@[simp] theorem get_init (config : RuntimeConfig) (executor : σ) (id : SeqId) :
    (init config executor).runtime.scheduler.get id = none := rfl

def setStream (seqId : SeqId) (stream : StreamState) : ServerState σ :=
  { s with streams := Function.update s.streams seqId stream }

/-- One turn of the loop of `stream_request`. -/
def turn (sequence : Sequence) : ServerState σ :=
  let stream := s.streams sequence.seqId
  if sequence.isTerminal then
    { s with runtime := s.runtime.finishSequence sequence }.setStream sequence.seqId
      { stream with phase := .finished }
  else
    match s.runtime.scheduler.buildNextBatch none with
    | (.error e, scheduler) =>
      { s with runtime := { s.runtime with scheduler } }.setStream sequence.seqId
        { stream with phase := .raised e }
    | (.ok none, scheduler) => { s with runtime := { s.runtime with scheduler } }
    | (.ok (some batch), scheduler) =>
      match { s.runtime with scheduler }.executeBatch ex batch with
      | (.error e, runtime) =>
        { s with runtime }.setStream sequence.seqId { stream with phase := .raised e }
      | (.ok tokenTexts, runtime) =>
        if batch.seqId ≠ sequence.seqId then { s with runtime }
        else { s with runtime }.setStream sequence.seqId (stream.emit tokenTexts)

/-- Run the stream of `seqId` to its next suspension. -/
def resume (seqId : SeqId) : ServerState σ :=
  match s.runtime.scheduler.get seqId with
  | none => s
  | some sequence =>
    match (s.streams seqId).phase with
    | .loop => s.turn ex sequence
    | .yielding rest => s.setStream seqId ((s.streams seqId).emit rest)
    | _ => s

/-- The consumer closes the stream at its suspension. Nothing follows the loop. -/
def close (seqId : SeqId) : ServerState σ :=
  match s.runtime.scheduler.get seqId with
  | none => s
  | some _ =>
    match (s.streams seqId).phase with
    | .loop | .yielding _ => s.setStream seqId { s.streams seqId with phase := .closed }
    | _ => s

def step (s : ServerState σ) : Event → ServerState σ
  | .addRequest request => { s with runtime := (s.runtime.addRequest ex request).2 }
  | .cancelRequest requestId sessionId =>
    { s with runtime := (s.runtime.cancelRequest requestId sessionId).2 }
  | .resume seqId => s.resume ex seqId
  | .close seqId => s.close seqId
  | .evict targetCount =>
    { s with runtime :=
      { s.runtime with prefixCache := (s.runtime.prefixCache.evict targetCount).2 } }
  | .tick now => { s with runtime := { s.runtime with now } }

@[simp] theorem setStream_runtime (id : SeqId) (stream : StreamState) :
    (s.setStream id stream).runtime = s.runtime := rfl

end ServerState

/-! ## What the runtime's methods do -/

namespace RuntimeCore

variable {σ : Type} {ex : ModelExecutor σ} {rt : RuntimeCore σ}

/-- Two runtimes agree on everything but the sessions, the metrics, the ids and the clock. -/
structure SameCore (rt rt' : RuntimeCore σ) : Prop where
  scheduler : rt'.scheduler = rt.scheduler
  kvCache : rt'.kvCache = rt.kvCache
  prefixCache : rt'.prefixCache = rt.prefixCache
  executor : rt'.executor = rt.executor

theorem SameCore.refl (rt : RuntimeCore σ) : SameCore rt rt :=
  ⟨rfl, rfl, rfl, rfl⟩

theorem SameCore.trans {rt rt' rt'' : RuntimeCore σ} (h : SameCore rt rt')
    (h' : SameCore rt' rt'') : SameCore rt rt'' :=
  ⟨h'.scheduler.trans h.scheduler, h'.kvCache.trans h.kvCache,
    h'.prefixCache.trans h.prefixCache, h'.executor.trans h.executor⟩

theorem getOrCreateSession_core (rt : RuntimeCore σ) (sessionId : Option SessionId) :
    SameCore rt (rt.getOrCreateSession sessionId).2 ∧
      rt.nextUuid ≤ (rt.getOrCreateSession sessionId).2.nextUuid ∧
      (rt.getOrCreateSession sessionId).2.now = rt.now := by
  unfold getOrCreateSession
  by_cases h : sessionId.getD "" = ""
  · simp only [if_pos h]
    split <;> exact ⟨⟨rfl, rfl, rfl, rfl⟩, Nat.le_succ _, rfl⟩
  · simp only [if_neg h]
    split <;> exact ⟨⟨rfl, rfl, rfl, rfl⟩, Nat.le_refl _, rfl⟩

/-- What `add_request` can do : raise in the tokenizer and touch only the sessions, or add
a new sequence with the pages of the prefix it matched. -/
theorem addRequest_cases (ex : ModelExecutor σ) (rt : RuntimeCore σ) (request : Request) :
    (∃ e, (rt.addRequest ex request).1 = .error e ∧ SameCore rt (rt.addRequest ex request).2 ∧
      rt.nextUuid ≤ (rt.addRequest ex request).2.nextUuid) ∨
    ∃ seqId sessionId inputIds prefixMatch,
      (rt.addRequest ex request).1 = .ok seqId ∧ rt.promptOf ex request = .ok inputIds ∧
      rt.nextUuid ≤ seqId ∧
      (rt.addRequest ex request).2.nextUuid = seqId + 1 ∧
      (prefixMatch, (rt.addRequest ex request).2.prefixCache) =
        (if ex.supportsPrefixCache then rt.prefixCache.matchPrefix rt.now inputIds
          else ({ matchedTokens := 0, pages := [] }, rt.prefixCache)) ∧
      (rt.addRequest ex request).2.scheduler = rt.scheduler.addSequence
        (request.sequence seqId sessionId inputIds prefixMatch rt.now) ∧
      (rt.addRequest ex request).2.kvCache = rt.kvCache ∧
      (rt.addRequest ex request).2.executor = rt.executor := by
  unfold addRequest promptOf
  obtain ⟨hcore, hid, hnow⟩ := rt.getOrCreateSession_core request.sessionId
  generalize rt.getOrCreateSession request.sessionId = p at hcore hid hnow
  obtain ⟨session, rt₁⟩ := p
  dsimp only [appendMessages] at hcore hid hnow ⊢
  split
  · exact .inl ⟨_, rfl, hcore.trans ⟨rfl, rfl, rfl, rfl⟩, hid⟩
  · rename_i inputIds hprompt
    rw [hcore.prefixCache, hnow]
    refine .inr ⟨rt₁.nextUuid, session.sessionId, inputIds, _, rfl, hprompt, hid, rfl, rfl, ?_,
      hcore.kvCache, hcore.executor⟩
    rw [hcore.scheduler]
    rfl

theorem clearActive_core (rt : RuntimeCore σ) (sequence : Sequence) :
    SameCore rt (rt.clearActive sequence) ∧
      (rt.clearActive sequence).nextUuid = rt.nextUuid := by
  unfold clearActive
  dsimp only
  split
  · exact ⟨⟨rfl, rfl, rfl, rfl⟩, rfl⟩
  · split_ifs <;> exact ⟨⟨rfl, rfl, rfl, rfl⟩, rfl⟩

/-- A sequence with its response marked appended, or not. -/
def withAppended (sequence : Sequence) (responseAppended : Bool) : Sequence :=
  { sequence with metadata := { sequence.metadata with responseAppended } }

/-- `_append_assistant_response` may mark the response appended. -/
theorem appendAssistantResponse_core (rt : RuntimeCore σ) {sequence : Sequence}
    (h : rt.scheduler.get sequence.seqId = some sequence) : ∃ b,
      SameCore { rt with scheduler := rt.scheduler.put (withAppended sequence b) }
        (rt.appendAssistantResponse sequence) ∧
      (rt.appendAssistantResponse sequence).nextUuid = rt.nextUuid := by
  have hself : rt.scheduler.put (withAppended sequence sequence.metadata.responseAppended) =
      rt.scheduler := InteractiveScheduler.put_self h
  unfold appendAssistantResponse
  split_ifs
  · exact ⟨sequence.metadata.responseAppended, by rw [hself]; exact .refl rt, rfl⟩
  · exact ⟨sequence.metadata.responseAppended, by rw [hself]; exact .refl rt, rfl⟩
  · split
    · exact ⟨sequence.metadata.responseAppended, by rw [hself]; exact .refl rt, rfl⟩
    · exact ⟨true, ⟨rfl, rfl, rfl, rfl⟩, rfl⟩

/-- What `_finish_sequence` does to the core : it gives up the prefix-cache reference, and
may mark the response appended. -/
theorem finishSequence_core (rt : RuntimeCore σ) (sequence : Sequence)
    (h : rt.scheduler.get sequence.seqId = some sequence) : ∃ b,
      SameCore { rt with
        scheduler := rt.scheduler.put (withAppended sequence b)
        prefixCache := rt.prefixCache.release sequence.cacheHandle }
        (rt.finishSequence sequence) ∧
      (rt.finishSequence sequence).nextUuid = rt.nextUuid := by
  obtain ⟨⟨hs, hkv, hpc, hex⟩, hid⟩ := rt.clearActive_core sequence
  unfold finishSequence
  dsimp only
  split_ifs with hfin
  · obtain ⟨b, ⟨hs', hkv', hpc', hex'⟩, hid'⟩ := appendAssistantResponse_core
      { rt.clearActive sequence with
        metrics := (rt.clearActive sequence).metrics.finishRequest } (hs ▸ h)
    exact ⟨b, ⟨by rw [hs', hs], hkv'.trans hkv, by rw [hpc', hpc], hex'.trans hex⟩,
      hid'.trans hid⟩
  · exact ⟨sequence.metadata.responseAppended,
      ⟨hs.trans (InteractiveScheduler.put_self h).symm, hkv, by rw [hpc], hex⟩, hid⟩

/-- What `cancel_request` can do : nothing to the core, or cancel a live sequence and
finish it. -/
theorem cancelRequest_cases (hwf : rt.scheduler.WellFormed) (requestId : Option SeqId)
    (sessionId : Option SessionId) :
    (rt.cancelRequest requestId sessionId).2 = rt ∨
    ∃ s b, rt.scheduler.get s.seqId = some s ∧ s.isTerminal = false ∧
      SameCore { rt with
        scheduler := rt.scheduler.put (withAppended s.markCancelled b)
        prefixCache := rt.prefixCache.release s.cacheHandle }
        (rt.cancelRequest requestId sessionId).2 ∧
      (rt.cancelRequest requestId sessionId).2.nextUuid = rt.nextUuid := by
  unfold cancelRequest
  cases hid : requestId.or (sessionId.bind rt.activeBySession) with
  | none => exact .inl rfl
  | some seqId =>
    dsimp only
    cases hget : rt.scheduler.get seqId with
    | none => exact .inl (by simp [InteractiveScheduler.cancel, hget])
    | some s =>
      obtain rfl : s.seqId = seqId := hwf.seqId_eq _ _ hget
      by_cases hs : s.isTerminal = true
      · exact .inl (by simp [InteractiveScheduler.cancel, hget, hs])
      · rw [Bool.not_eq_true] at hs
        have hget' : (rt.scheduler.put s.markCancelled).get s.seqId = some s.markCancelled :=
          InteractiveScheduler.get_put _
        have hcancel : rt.scheduler.cancel s.seqId = (true, rt.scheduler.put s.markCancelled) := by
          simp [InteractiveScheduler.cancel, hget, hs]
        obtain ⟨b, hcore, hid⟩ := finishSequence_core
          { rt with scheduler := rt.scheduler.put s.markCancelled } s.markCancelled hget'
        refine .inr ⟨s, b, hget, hs, ?_⟩
        rw [hcancel]
        dsimp only
        rw [hget']
        refine ⟨⟨hcore.scheduler.trans ?_, hcore.kvCache, hcore.prefixCache, hcore.executor⟩, hid⟩
        exact rt.scheduler.put_put rfl

/-- Executing the batch of a sequence just written back. -/
theorem executeBatch_put (ex : ModelExecutor σ) (rt : RuntimeCore σ) {s : Sequence} {batch : Batch}
    (hid : batch.seqId = s.seqId) :
    { rt with scheduler := rt.scheduler.put s }.executeBatch ex batch =
      (((rt.context s).executeBatch ex batch).1,
        rt.setContext ((rt.context s).executeBatch ex batch).2) := by
  have hseq := (BatchContext.executed ex (rt.context s) batch).seqId
  have hput := rt.scheduler.put_put (s := s) hseq.symm
  unfold executeBatch
  rw [hid, InteractiveScheduler.get_put]
  simp only [setContext, context] at hput ⊢
  rw [hput]

/-- What one event can do to the runtime. -/
inductive Change (ex : ModelExecutor σ) (rt rt' : RuntimeCore σ) : Event → Prop
  /-- Only sessions, metrics, ids and the clock move. -/
  | quiet {e : Event} (h : SameCore rt rt') (hid : rt.nextUuid ≤ rt'.nextUuid) :
      Change ex rt rt' e
  /-- A sequence is added. -/
  | added (request : Request) (seqId : SeqId) (sessionId : SessionId) (inputIds : List TokenId)
      (prefixMatch : PrefixMatch) (hprompt : rt.promptOf ex request = .ok inputIds)
      (hid : rt.nextUuid ≤ seqId) (hid' : rt'.nextUuid = seqId + 1)
      (hm : (prefixMatch, rt'.prefixCache) =
        if ex.supportsPrefixCache then rt.prefixCache.matchPrefix rt.now inputIds
          else ({ matchedTokens := 0, pages := [] }, rt.prefixCache))
      (hs : rt'.scheduler = rt.scheduler.addSequence
        (request.sequence seqId sessionId inputIds prefixMatch rt.now))
      (hkv : rt'.kvCache = rt.kvCache) (hex : rt'.executor = rt.executor) :
      Change ex rt rt' (.addRequest request)
  /-- A live sequence is cancelled. -/
  | cancelled {requestId : Option SeqId} {sessionId : Option SessionId} (s : Sequence) (b : Bool)
      (hget : rt.scheduler.get s.seqId = some s)
      (hlive : s.isTerminal = false)
      (h : SameCore { rt with
        scheduler := rt.scheduler.put (withAppended s.markCancelled b)
        prefixCache := rt.prefixCache.release s.cacheHandle } rt')
      (hid : rt'.nextUuid = rt.nextUuid) : Change ex rt rt' (.cancelRequest requestId sessionId)
  /-- The stream of a terminal sequence ends. -/
  | finished {id : SeqId} (s : Sequence) (b : Bool) (hget : rt.scheduler.get s.seqId = some s)
      (hdone : s.isTerminal = true)
      (h : SameCore { rt with
        scheduler := rt.scheduler.put (withAppended s b)
        prefixCache := rt.prefixCache.release s.cacheHandle } rt')
      (hid : rt'.nextUuid = rt.nextUuid) : Change ex rt rt' (.resume id)
  /-- A sequence is selected, but no batch can be built for it. -/
  | selected {id : SeqId} (s : Sequence) (hsel : rt.scheduler.selectNextSequence = some s)
      (h : SameCore { rt with scheduler := rt.scheduler.put s.scheduled } rt')
      (hid : rt'.nextUuid = rt.nextUuid) : Change ex rt rt' (.resume id)
  /-- A sequence is selected and its batch executed. -/
  | executed {id : SeqId} (s : Sequence) (batch : Batch) (r : Except PyError (List Text))
      (c : BatchContext σ)
      (hsel : rt.scheduler.selectNextSequence = some s)
      (hb : rt.scheduler.buildBatch none s.scheduled = .ok batch)
      (hx : (rt.context s.scheduled).executeBatch ex batch = (r, c)) (h : rt' = rt.setContext c) :
      Change ex rt rt' (.resume id)
  /-- The prefix cache evicts. -/
  | evicted (n : ℤ) (h : rt' = { rt with prefixCache := (rt.prefixCache.evict n).2 }) :
      Change ex rt rt' (.evict n)

/-- Stored sequences are well-formed, and their ids were handed out. -/
structure Sound (rt : RuntimeCore σ) : Prop where
  wellFormed : rt.scheduler.WellFormed
  fresh : ∀ id s, rt.scheduler.get id = some s → id < rt.nextUuid

@[simp] theorem get_create (config : RuntimeConfig) (executor : σ) (id : SeqId) :
    (create config executor).scheduler.get id = none := rfl

theorem sound_create (config : RuntimeConfig) (executor : σ) :
    (create config executor).Sound :=
  ⟨InteractiveScheduler.wellFormed_empty _, by simp⟩

/-- An id not handed out yet has no sequence. -/
theorem Sound.get_eq_none (hrt : rt.Sound) {id : SeqId} (hid : rt.nextUuid ≤ id) :
    rt.scheduler.get id = none := by
  cases hget : rt.scheduler.get id with
  | none => rfl
  | some q => exact absurd (hrt.fresh id q hget) (not_lt_of_ge hid)

/-- Writing back a stored sequence keeps the runtime sound. -/
theorem Sound.put {rt rt' : RuntimeCore σ} {s t : Sequence} (hrt : rt.Sound)
    (ht : rt.scheduler.get s.seqId = some t) (hs : rt'.scheduler = rt.scheduler.put s)
    (hid : rt.nextUuid ≤ rt'.nextUuid) : rt'.Sound where
  wellFormed := hs ▸ hrt.wellFormed.put ht
  fresh id u hu := by
    rw [hs] at hu
    refine Nat.lt_of_lt_of_le ?_ hid
    by_cases h : id = s.seqId
    · exact h ▸ hrt.fresh _ _ ht
    · exact hrt.fresh id u ((InteractiveScheduler.get_put_of_ne h) ▸ hu)

theorem Change.sound {rt' : RuntimeCore σ} {e : Event} (h : Change ex rt rt' e) (hrt : rt.Sound) :
    rt'.Sound := by
  cases h with
  | quiet h hid =>
    exact ⟨h.scheduler ▸ hrt.wellFormed, fun id s hs =>
      Nat.lt_of_lt_of_le (hrt.fresh id s (h.scheduler ▸ hs)) hid⟩
  | added request seqId sessionId inputIds m hprompt hid hid' hm hs hkv hex =>
    refine ⟨hs ▸ hrt.wellFormed.addSequence, fun id s hget => ?_⟩
    rw [hs] at hget
    rw [hid']
    by_cases hne : id = seqId
    · exact hne ▸ Nat.lt_succ_self id
    · rw [InteractiveScheduler.get_addSequence_of_ne (by simpa using hne)] at hget
      exact Nat.lt_succ_of_lt (Nat.lt_of_lt_of_le (hrt.fresh id s hget) hid)
  | cancelled s b hget hlive h hid =>
    exact hrt.put (s := withAppended s.markCancelled b) hget h.scheduler hid.ge
  | finished s b hget hdone h hid =>
    exact hrt.put (s := withAppended s b) hget h.scheduler hid.ge
  | selected s hsel h hid =>
    exact hrt.put (s := s.scheduled) (hrt.wellFormed.selectNextSequence hsel).1 h.scheduler hid.ge
  | executed s batch r c hsel hb hx h =>
    subst h
    refine hrt.put (s := c.sequence) (t := s) ?_ rfl le_rfl
    rw [(BatchContext.executed_of_eq hx).seqId]
    exact (hrt.wellFormed.selectNextSequence hsel).1
  | evicted n h =>
    subst h
    exact ⟨hrt.wellFormed, hrt.fresh⟩

theorem get_none_of_put {σ : InteractiveScheduler} {s : Sequence} {id : SeqId}
    (h : (σ.put s).get id = none) : σ.get id = none := by
  by_cases hid : id = s.seqId
  · rw [hid, InteractiveScheduler.get_put] at h
    cases h
  · rwa [InteractiveScheduler.get_put_of_ne hid] at h

/-- A change forgets no sequence. -/
theorem Change.get_none {rt' : RuntimeCore σ} {e : Event} (h : Change ex rt rt' e) {id : SeqId}
    (hid : rt'.scheduler.get id = none) : rt.scheduler.get id = none := by
  cases h with
  | quiet h => rwa [h.scheduler] at hid
  | added request seqId sessionId inputIds m _ _ _ _ hs =>
    rw [hs] at hid
    exact get_none_of_put hid
  | cancelled s b hget hlive h => exact get_none_of_put (h.scheduler ▸ hid)
  | finished s b hget hdone h => exact get_none_of_put (h.scheduler ▸ hid)
  | selected s hsel h => exact get_none_of_put (h.scheduler ▸ hid)
  | executed s batch r c hsel hb hx h =>
    subst h
    exact get_none_of_put hid
  | evicted n h =>
    subst h
    exact hid

theorem get_put_cases {σ : InteractiveScheduler} {s q : Sequence} {id : SeqId}
    (h : (σ.put s).get id = some q) : id = s.seqId ∧ q = s ∨ id ≠ s.seqId ∧ σ.get id = some q := by
  by_cases hid : id = s.seqId
  · rw [hid, InteractiveScheduler.get_put, Option.some.injEq] at h
    exact .inl ⟨hid, h.symm⟩
  · rw [InteractiveScheduler.get_put_of_ne hid] at h
    exact .inr ⟨hid, h⟩

/-- A sequence is as old as it was before a change, or it was added in it. -/
theorem Change.get_cases {rt' : RuntimeCore σ} {e : Event} (h : Change ex rt rt' e) (hrt : rt.Sound)
    {id : SeqId} {q' : Sequence} (hq' : rt'.scheduler.get id = some q') :
    (∃ q, rt.scheduler.get id = some q ∧ q'.request = q.request) ∨
      rt.scheduler.get id = none ∧ ∃ request sessionId inputIds prefixMatch,
        e = .addRequest request ∧
          q' = request.sequence id sessionId inputIds prefixMatch rt.now := by
  have hput : ∀ {s t : Sequence}, rt.scheduler.get s.seqId = some s → t.request = s.request →
      rt'.scheduler = rt.scheduler.put t →
      ∃ q, rt.scheduler.get id = some q ∧ q'.request = q.request := by
    intro s t hs ht hsched
    rw [hsched] at hq'
    rcases get_put_cases hq' with ⟨hid, rfl⟩ | ⟨-, hq⟩
    · exact ⟨s, by rw [hid, Sequence.seqId_of_request ht, hs], ht⟩
    · exact ⟨q', hq, rfl⟩
  cases h with
  | quiet h => exact .inl ⟨q', by rwa [h.scheduler] at hq', rfl⟩
  | added request seqId sessionId inputIds m hprompt hid hid' hm hs =>
    rw [hs] at hq'
    rcases get_put_cases hq' with ⟨hid₀, rfl⟩ | ⟨-, hq⟩
    · obtain rfl : id = seqId := hid₀
      exact .inr ⟨hrt.get_eq_none hid, request, sessionId, inputIds, m, rfl, rfl⟩
    · exact .inl ⟨q', hq, rfl⟩
  | cancelled s b hget hs h =>
    exact .inl (hput (t := withAppended s.markCancelled b) hget rfl h.scheduler)
  | finished s b hget hs h => exact .inl (hput (t := withAppended s b) hget rfl h.scheduler)
  | selected s hsel h =>
    exact .inl (hput (t := s.scheduled) (hrt.wellFormed.selectNextSequence hsel).1 rfl h.scheduler)
  | executed s batch r c hsel hb hx h =>
    subst h
    exact .inl (hput (hrt.wellFormed.selectNextSequence hsel).1
      (BatchContext.executed_of_eq hx).request rfl)
  | evicted n h =>
    subst h
    exact .inl ⟨q', hq', rfl⟩

/-- A terminal sequence stays as it is, but its response may be marked appended. -/
theorem Change.get_terminal {rt' : RuntimeCore σ} {e : Event} (h : Change ex rt rt' e)
    (hrt : rt.Sound) {id : SeqId} {q : Sequence} (hq : rt.scheduler.get id = some q)
    (hdone : q.isTerminal = true) : ∃ b, rt'.scheduler.get id = some (withAppended q b) := by
  have hself : ∀ {rt' : RuntimeCore σ}, rt'.scheduler.get id = some q →
      ∃ b, rt'.scheduler.get id = some (withAppended q b) := fun h =>
    ⟨q.metadata.responseAppended, h⟩
  -- a live sequence is another one
  have hlive : ∀ {s t : Sequence}, rt.scheduler.get s.seqId = some s → s.isTerminal = false →
      t.seqId = s.seqId → (rt.scheduler.put t).get id = some q := by
    intro s t hs hs' hid
    have hne : id ≠ t.seqId := by
      rintro rfl
      rw [hid, hs, Option.some.injEq] at hq
      rw [hq, hdone] at hs'
      cases hs'
    rw [InteractiveScheduler.get_put_of_ne hne, hq]
  cases h with
  | quiet h => exact hself (by rw [h.scheduler, hq])
  | added request seqId sessionId inputIds m hprompt hid hid' hm hs =>
    have hne : id ≠ seqId := by
      rintro rfl
      rw [hrt.get_eq_none hid] at hq
      cases hq
    refine hself ?_
    rw [hs, InteractiveScheduler.get_addSequence_of_ne (by simpa using hne), hq]
  | cancelled s b hget hs h => exact hself (by rw [h.scheduler]; exact hlive hget hs rfl)
  | finished s b hget hs h =>
    by_cases hid : id = s.seqId
    · subst hid
      rw [hq] at hget
      cases hget
      exact ⟨b, by rw [h.scheduler]; exact InteractiveScheduler.get_put (withAppended q b)⟩
    · refine hself ?_
      rw [h.scheduler]
      exact (InteractiveScheduler.get_put_of_ne (s := withAppended s b) hid).trans hq
  | selected s hsel h =>
    obtain ⟨hget, hs⟩ := hrt.wellFormed.selectNextSequence hsel
    exact hself (by rw [h.scheduler]; exact hlive hget hs rfl)
  | executed s batch r c hsel hb hx h =>
    obtain ⟨hget, hs⟩ := hrt.wellFormed.selectNextSequence hsel
    subst h
    exact hself (hlive hget hs (BatchContext.executed_of_eq hx).seqId)
  | evicted n h =>
    subst h
    exact hself hq

/-- A change keeps every sequence, up to what its execution changes. -/
theorem Change.get_some {rt' : RuntimeCore σ} {e : Event} (h : Change ex rt rt' e)
    (hrt : rt.Sound) {id : SeqId} {q : Sequence} (hq : rt.scheduler.get id = some q) :
    ∃ q', rt'.scheduler.get id = some q' ∧ q'.request = q.request := by
  cases hq' : rt'.scheduler.get id with
  | none =>
    rw [h.get_none hq'] at hq
    cases hq
  | some q' =>
    rcases h.get_cases hrt hq' with ⟨q₀, hq₀, hreq⟩ | ⟨hnone, -⟩
    · rw [hq] at hq₀
      cases hq₀
      exact ⟨q', rfl, hreq⟩
    · rw [hnone] at hq
      cases hq

end RuntimeCore

/-! ## What resuming a stream can do -/

/-- A stream after a batch was executed in its turn. -/
def StreamState.afterBatch (stream : StreamState) (own : Bool) :
    Except PyError (List Text) → StreamState
  | .error e => { stream with phase := .raised e }
  | .ok tokenTexts => if own then stream.emit tokenTexts else stream

namespace ServerState

variable {σ : Type} {ex : ModelExecutor σ} {s : ServerState σ}

/-- What resuming the stream of `seqId` can do. -/
inductive Resumed (ex : ModelExecutor σ) (s : ServerState σ) (seqId : SeqId) :
    ServerState σ → Prop
  /-- There is no such request, its stream is over, or there is no sequence to select. -/
  | idle (h : s.runtime.scheduler.get seqId = none ∨ (s.streams seqId).phase ≠ .loop ∨
      s.runtime.scheduler.selectNextSequence = none) : Resumed ex s seqId s
  /-- The stream goes on with the texts of its last decode. -/
  | emitted {rest : List Text} (h : (s.streams seqId).phase = .yielding rest) :
      Resumed ex s seqId (s.setStream seqId ((s.streams seqId).emit rest))
  /-- The sequence is terminal, and the stream ends. -/
  | drained {q : Sequence} (hq : s.runtime.scheduler.get seqId = some q)
      (hdone : q.isTerminal = true) (hloop : (s.streams seqId).phase = .loop) :
      Resumed ex s seqId ({ s with runtime := s.runtime.finishSequence q }.setStream seqId
        { s.streams seqId with phase := .finished })
  /-- No batch can be built for the selected sequence. -/
  | buildFailed {q sel : Sequence} {e : PyError}
      (hq : s.runtime.scheduler.get seqId = some q) (hlive : q.isTerminal = false)
      (hloop : (s.streams seqId).phase = .loop)
      (hsel : s.runtime.scheduler.selectNextSequence = some sel)
      (hb : s.runtime.scheduler.buildBatch none sel.scheduled = .error e) :
      Resumed ex s seqId
        ({ s with runtime :=
          { s.runtime with scheduler := s.runtime.scheduler.put sel.scheduled } }.setStream
            seqId { s.streams seqId with phase := .raised e })
  /-- The batch of the selected sequence is executed. -/
  | executed {q sel : Sequence} {batch : Batch} {r : Except PyError (List Text)}
      {c : BatchContext σ} (hq : s.runtime.scheduler.get seqId = some q)
      (hlive : q.isTerminal = false) (hloop : (s.streams seqId).phase = .loop)
      (hsel : s.runtime.scheduler.selectNextSequence = some sel)
      (hb : s.runtime.scheduler.buildBatch none sel.scheduled = .ok batch)
      (hx : (s.runtime.context sel.scheduled).executeBatch ex batch = (r, c)) :
      Resumed ex s seqId ({ s with runtime := s.runtime.setContext c }.setStream seqId
        ((s.streams seqId).afterBatch (sel.seqId = seqId) r))

theorem resumed (ex : ModelExecutor σ) (s : ServerState σ)
    (hwf : s.runtime.scheduler.WellFormed) (seqId : SeqId) :
    Resumed ex s seqId (s.resume ex seqId) := by
  unfold resume
  cases hq : s.runtime.scheduler.get seqId with
  | none => exact .idle (.inl hq)
  | some q =>
    cases hphase : (s.streams seqId).phase with
    | finished | raised | closed => exact .idle (.inr (.inl (by simp [hphase])))
    | yielding rest => exact .emitted hphase
    | loop =>
      obtain rfl : q.seqId = seqId := hwf.seqId_eq _ _ hq
      dsimp only
      unfold turn
      dsimp only
      by_cases hdone : q.isTerminal = true
      · rw [if_pos hdone]
        exact .drained hq hdone hphase
      · rw [if_neg hdone]
        rw [Bool.not_eq_true] at hdone
        rcases s.runtime.scheduler.buildNextBatch_cases none with ⟨hnone, h⟩ | ⟨sel, hsel, h⟩
        · rw [h]
          exact .idle (.inr (.inr hnone))
        · rw [h]
          cases hb : s.runtime.scheduler.buildBatch none sel.scheduled with
          | error e => exact .buildFailed hq hdone hphase hsel hb
          | ok batch =>
            have hid : batch.seqId = sel.seqId := (InteractiveScheduler.buildBatch_ok hb).1
            have hput := RuntimeCore.executeBatch_put ex s.runtime (s := sel.scheduled) hid
            simp only [Except.map, hput, hid]
            cases hx : (s.runtime.context sel.scheduled).executeBatch ex batch with
            | mk r c =>
              have hres := Resumed.executed hq hdone hphase hsel hb hx
              obtain e | tokenTexts := r
              · exact hres
              · by_cases hown : sel.seqId = q.seqId
                · simpa [StreamState.afterBatch, hown] using hres
                · simpa [StreamState.afterBatch, hown, setStream] using hres

/-- What closing a stream can do. -/
theorem close_cases (s : ServerState σ) (seqId : SeqId) :
    s.close seqId = s ∨
      s.close seqId = s.setStream seqId { s.streams seqId with phase := .closed } := by
  unfold close
  split
  · exact .inl rfl
  · split
    · exact .inr rfl
    · exact .inr rfl
    · exact .inl rfl

/-- What one event does to the runtime is one of the changes listed. -/
theorem step_change (ex : ModelExecutor σ) (s : ServerState σ)
    (hwf : s.runtime.scheduler.WellFormed) (e : Event) :
    RuntimeCore.Change ex s.runtime (s.step ex e).runtime e := by
  have hquiet : RuntimeCore.Change ex s.runtime s.runtime e := .quiet (.refl _) le_rfl
  cases e with
  | addRequest request =>
    rcases RuntimeCore.addRequest_cases ex s.runtime request with
      ⟨e, -, hcore, hid⟩ | ⟨seqId, sessionId, inputIds, m, -, hp, hid, hid', hm, hs, hkv, hex⟩
    · exact .quiet hcore hid
    · exact .added request seqId sessionId inputIds m hp hid hid' hm hs hkv hex
  | cancelRequest requestId sessionId =>
    rcases RuntimeCore.cancelRequest_cases hwf requestId sessionId with
      h | ⟨q, b, hget, hlive, hcore, hid⟩
    · simpa only [step, h] using hquiet
    · exact .cancelled q b hget hlive hcore hid
  | resume seqId =>
    have h := resumed ex s hwf seqId
    simp only [step]
    generalize s.resume ex seqId = s' at h
    cases h with
    | idle => exact hquiet
    | emitted => exact hquiet
    | @drained q hq hdone hloop =>
      obtain rfl : q.seqId = seqId := hwf.seqId_eq _ _ hq
      obtain ⟨b, hcore, hid⟩ := RuntimeCore.finishSequence_core _ _ hq
      exact .finished q b hq hdone hcore hid
    | @buildFailed q sel e hq hlive hloop hsel hb =>
      exact .selected sel hsel (.refl _) rfl
    | @executed q sel batch r c hq hlive hloop hsel hb hx =>
      exact .executed sel batch r c hsel hb hx rfl
  | close seqId =>
    rcases s.close_cases seqId with h | h <;>
      simpa only [step, h, setStream_runtime] using hquiet
  | evict n => exact .evicted n rfl
  | tick now => exact .quiet ⟨rfl, rfl, rfl, rfl⟩ le_rfl

/-- The runtime is sound, and a stream without a request was never started. -/
structure Sound (s : ServerState σ) : Prop where
  runtime : s.runtime.Sound
  streams : ∀ id, s.runtime.scheduler.get id = none → s.streams id = {}

theorem sound_init (config : RuntimeConfig) (executor : σ) : (init config executor).Sound :=
  ⟨RuntimeCore.sound_create config executor, fun _ _ => rfl⟩

/-- Resuming a stream changes no other stream, and none at all without a request. -/
theorem Resumed.streams {id seqId : SeqId} {s' : ServerState σ} (h : Resumed ex s seqId s')
    (hid : id ≠ seqId) : s'.streams id = s.streams id := by
  cases h <;> simp [setStream, hid]

theorem Sound.step (hs : s.Sound) (e : Event) : (s.step ex e).Sound := by
  have hchange := step_change ex s hs.runtime.wellFormed e
  refine ⟨hchange.sound hs.runtime, fun id hid => ?_⟩
  have hnone := hchange.get_none hid
  rw [← hs.streams id hnone]
  cases e with
  | addRequest | cancelRequest | evict | tick => rfl
  | resume seqId =>
    by_cases hne : id = seqId
    · subst hne
      simp only [ServerState.step, resume, hnone]
    · exact (resumed ex s hs.runtime.wellFormed seqId).streams hne
  | close seqId =>
    by_cases hne : id = seqId
    · subst hne
      simp only [ServerState.step, close, hnone]
    · rcases s.close_cases seqId with h | h <;> simp [ServerState.step, h, setStream, hne]

/-- Every state of a run of a server is sound. -/
theorem sound_run (ex : ModelExecutor σ) (config : RuntimeConfig) (executor : σ) (es : List Event) :
    (Transition.run (step ex) (init config executor) es).Sound :=
  Transition.run_invariant' (fun _ e h => h.step e) es (sound_init config executor)

end ServerState

end SoloRT
