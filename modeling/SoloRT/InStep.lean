import SoloRT.StateKeeping
import SoloRT.Greedy
import SoloRT.ChunkedPrefill

/-!
# The executor and the runtime in step

The executor and the runtime keep two copies of the generated tokens of a sequence, and each
decides by itself when the sequence is over. `InStep` says that the copies agree, that a finished
sequence has no serving state, and that only stored sequences have one. Every step keeps it,
raising or not : the runtime consumes all samples that the executor returns, and finishes the
sequence with the last of them when the executor drops its state
(`OwnBatch.dropped_iff`).

The prefill counts agree as well (`CountsInStep`), as long as nothing raises : a graph prefill
that raises has counted its chunk, and the runtime has not.
-/

namespace SoloRT

/-- The serving state of a live sequence has its tokens. Where there is none, it is the one that
the next call would create. -/
structure Follows {δ : Type} (states : ServingStates δ) (q : Sequence) : Prop where
  generated : (states.ensure q).generatedTokenIds = q.outputIds
  unfinished : (states.ensure q).finished = false

/-- The serving state of a live sequence has its prefill progress. -/
structure Counts {δ : Type} (states : ServingStates δ) (q : Sequence) : Prop where
  prompt : (states.ensure q).promptTokenCount = q.numPromptTokens
  prefilled : (states.ensure q).prefilledTokenCount = q.numScheduledTokens

section

variable {δ : Type} {states states' : ServingStates δ} {q q' : Sequence}

theorem ServingStates.ensure_congr (hreq : q'.request = q.request)
    (h : states' q.seqId = states q.seqId) : states'.ensure q' = states.ensure q := by
  rw [ServingStates.ensure, ServingStates.ensure, Sequence.seqId_of_request hreq, h,
    Sequence.numPromptTokens_of_request hreq]

theorem ServingStates.ensure_of_some {state : ServingState δ} (h : states q.seqId = some state) :
    states.ensure q = state := by
  rw [ServingStates.ensure, h, Option.getD_some]

theorem ServingStates.ensure_of_none (h : states q.seqId = none) :
    states.ensure q = { promptTokenCount := q.numPromptTokens } := by
  rw [ServingStates.ensure, h, Option.getD_none]

theorem Follows.congr (h : Follows states q) (hreq : q'.request = q.request)
    (hout : q'.outputIds = q.outputIds) (hstates : states' q.seqId = states q.seqId) :
    Follows states' q' := by
  constructor
  · rw [ServingStates.ensure_congr hreq hstates, hout]
    exact h.generated
  · rw [ServingStates.ensure_congr hreq hstates]
    exact h.unfinished

theorem Counts.congr (h : Counts states q) (hreq : q'.request = q.request)
    (hsched : q'.numScheduledTokens = q.numScheduledTokens)
    (hstates : states' q.seqId = states q.seqId) : Counts states' q' := by
  constructor
  · rw [ServingStates.ensure_congr hreq hstates, Sequence.numPromptTokens_of_request hreq]
    exact h.prompt
  · rw [ServingStates.ensure_congr hreq hstates, hsched]
    exact h.prefilled

end

section

variable {σ δ : Type} {ex : ModelExecutor σ} {states : σ → ServingStates δ}
  {config : GenerationConfig} {tokenizer : Tokenizer} {c c' : BatchContext σ} {batch : Batch}
  {r : Except PyError (List Text)}

/-- Executing a batch leaves the serving states of other sequences alone. -/
theorem KeepsStates.executed_other (hex : KeepsStates ex states config tokenizer)
    (h : BatchContext.Executed ex c batch r c') {id : SeqId} (hid : id ≠ c.sequence.seqId) :
    states c'.executor id = states c.executor id := by
  cases h with
  | skipped => rfl
  | attachFailed hs hstate => rw [← hstate]; rfl
  | @prefillFailed _ batch' env env' hs hb ha he =>
    have hkeep := hex.prefill_other (c.setEnv env).sequence batch' env id hid
    rw [he, ha.state] at hkeep
    exact hkeep
  | @prefilled batch' env env' _ _ hs hb ha he hc =>
    have hkeep := hex.prefill_other (c.setEnv env).sequence batch' env id hid
    rw [he, ha.state] at hkeep
    rw [BatchContext.cachePrefix_executor hc]
    exact hkeep
  | @decodeFailed _ batch' env env' _ hs hb ha he =>
    have hkeep := hex.decode_other (c.setEnv env).sequence batch' env id hid
    rw [he, ha.state] at hkeep
    exact hkeep
  | @decoded batch' env env' _ _ hs hb ha he =>
    have hkeep := hex.decode_other (c.setEnv env).sequence batch' env id hid
    rw [he, ha.state] at hkeep
    exact hkeep

/-- What executing a batch does to its sequence and to the serving state of it. -/
inductive OwnBatch (ex : ModelExecutor σ) (states : σ → ServingStates δ) (c c' : BatchContext σ)
    (batch : Batch) : Except PyError (List Text) → Prop
  /-- The call raised. The executor may have counted a prefill chunk. -/
  | raised {e : PyError} (hreq : c'.sequence.request = c.sequence.request)
      (hstatus : c'.sequence.status = c.sequence.status)
      (hout : c'.sequence.outputIds = c.sequence.outputIds)
      (hsched : c'.sequence.numScheduledTokens = c.sequence.numScheduledTokens)
      (hfollows : Follows (states c'.executor) c.sequence) :
      OwnBatch ex states c c' batch (.error e)
  /-- A chunk was prefilled. -/
  | prefilled {texts : List Text} (hphase : batch.phase = .prefill)
      (hreq : c'.sequence.request = c.sequence.request)
      (hstatus : c'.sequence.status = c.sequence.status)
      (hout : c'.sequence.outputIds = c.sequence.outputIds)
      (hsched : c'.sequence.numScheduledTokens =
        c.sequence.numScheduledTokens + batch.inputIds.length)
      (hret : c.returned ex batch = [])
      (hkeep : PrefillKeeps c.sequence batch.inputIds.length
        ((states c.executor).ensure c.sequence) (states c'.executor c.sequence.seqId)) :
      OwnBatch ex states c c' batch (.ok texts)
  /-- Tokens were generated. -/
  | decoded {texts : List Text} (hreq : c'.sequence.request = c.sequence.request)
      (hstatus : c'.sequence.status =
        if (c.returned ex batch).getLast?.any SampleResult.finished then .finished
        else c.sequence.status)
      (hout : c'.sequence.outputIds =
        c.sequence.outputIds ++ (c.returned ex batch).map SampleResult.tokenId)
      (hsched : c'.sequence.numScheduledTokens = c.sequence.numScheduledTokens)
      (hkeep : if (c.returned ex batch).getLast?.any SampleResult.finished
        then states c'.executor c.sequence.seqId = none
        else ∃ state, states c'.executor c.sequence.seqId = some state ∧ SameProgress
          { (states c.executor).ensure c.sequence with
            generatedTokenIds := ((states c.executor).ensure c.sequence).generatedTokenIds ++
              (c.returned ex batch).map SampleResult.tokenId } state) :
      OwnBatch ex states c c' batch (.ok texts)

/-- The sequence that the executor is given differs in its page table. -/
theorem ensure_setEnv {env : ExecutorEnv σ} (hstate : env.state = c.executor) :
    (states env.state).ensure (c.setEnv env).sequence = (states c.executor).ensure c.sequence :=
  ServingStates.ensure_congr rfl (by rw [hstate])

/-- A call that generates nothing keeps the tokens of the serving state. -/
theorem Follows.of_generated {st' : σ} (hf : Follows (states c.executor) c.sequence)
    {state : ServingState δ} (hstate : states st' c.sequence.seqId = some state)
    (hgen : state.generatedTokenIds = ((states c.executor).ensure c.sequence).generatedTokenIds)
    (hfin : state.finished = ((states c.executor).ensure c.sequence).finished) :
    Follows (states st') c.sequence := by
  constructor
  · rw [ServingStates.ensure_of_some hstate, hgen]
    exact hf.generated
  · rw [ServingStates.ensure_of_some hstate, hfin]
    exact hf.unfinished

theorem KeepsStates.ownBatch_prefill (hex : KeepsStates ex states config tokenizer)
    (hbp : batch.phase = .prefill) (hx : c.executePrefill ex batch = (r, c'))
    (hne : batch.inputIds ≠ []) (hs : c.sequence.status ≠ .cancelled)
    (hf : Follows (states c.executor) c.sequence) : OwnBatch ex states c c' batch r := by
  dsimp only [BatchContext.executePrefill] at hx
  rcases BatchContext.attachKv_cases ex c batch
    (c.sequence.numCachedTokens + c.sequence.numScheduledTokens + batch.inputIds.length) with
    ⟨e, env, hstate, -, -, h⟩ | ⟨batch', env, ha, h⟩
  · rw [h] at hx
    cases hx
    refine .raised rfl rfl rfl rfl (hf.congr rfl rfl ?_)
    show states env.state _ = _
    rw [hstate]
  · rw [h] at hx
    dsimp only [BatchContext.env_setEnv] at hx
    have hfin := hf.unfinished
    rw [← ensure_setEnv ha.state] at hfin
    have hkeep := hex.prefill (c.setEnv env).sequence batch' env (ha.inputIds ▸ hne) hfin
    rw [ensure_setEnv ha.state, ha.inputIds] at hkeep
    cases he : ex.forwardPrefill (c.setEnv env).sequence batch' env with
    | mk o env' =>
      rw [he] at hx hkeep
      obtain e | u := o
      · cases hx
        obtain ⟨state, hstate, hgen, hfin', -⟩ := hkeep
        exact .raised rfl rfl rfl rfl (hf.of_generated hstate hgen hfin')
      · dsimp only at hx
        rw [Sequence.postprocessBatch_prefill (s := ((c.setEnv env).setEnv env').sequence) hs
          (ha.phase.trans hbp), BatchContext.cachePrefix, hex.uncached,
          if_neg (by simp), ha.inputIds] at hx
        cases hx
        exact .prefilled hbp rfl rfl rfl rfl (BatchContext.returned_prefill hbp) hkeep

theorem KeepsStates.ownBatch_decode (hex : KeepsStates ex states config tokenizer)
    (hbp : batch.phase = .decode) (hx : c.executeDecode ex batch = (r, c'))
    (hlive : c.sequence.isTerminal = false) (hf : Follows (states c.executor) c.sequence) :
    OwnBatch ex states c c' batch r := by
  dsimp only [BatchContext.executeDecode] at hx
  rcases BatchContext.attachKv_cases ex c batch
    (c.sequence.numPromptTokens + c.sequence.outputIds.length + 1) with
    ⟨e, env, hstate, -, -, h⟩ | ⟨batch', env, ha, h⟩
  · rw [h] at hx
    cases hx
    refine .raised rfl rfl rfl rfl (hf.congr rfl rfl ?_)
    show states env.state _ = _
    rw [hstate]
  · rw [h] at hx
    dsimp only [BatchContext.env_setEnv] at hx
    have hfin := hf.unfinished
    rw [← ensure_setEnv ha.state] at hfin
    have hkeep := hex.decode (c.setEnv env).sequence batch' env hfin
    rw [ensure_setEnv ha.state] at hkeep
    cases he : ex.forwardDecode (c.setEnv env).sequence batch' env with
    | mk o env' =>
      have hret := BatchContext.returned_of_forwardDecode hbp h he
      rw [he] at hx hkeep
      obtain e | output := o
      · cases hx
        obtain ⟨state, hstate, hsame⟩ := hkeep
        exact .raised rfl rfl rfl rfl (hf.of_generated hstate hsame.generated hsame.finished)
      · obtain ⟨xs, hn, hchunk, hkeep⟩ := hkeep
        dsimp only [Except.toOption, Option.bind_some] at hx hret
        rw [hn] at hx hret
        cases hx
        obtain rfl : c.returned ex batch = xs := hret
        rw [hf.generated] at hchunk
        obtain ⟨hall, hlast⟩ := Chunk.consumed (s := ((c.setEnv env).setEnv env').sequence) hlive
          hchunk
        have hspec := consumeSamples_spec (c.returned ex batch)
          ((c.setEnv env).setEnv env').sequence ((c.setEnv env).setEnv env').metrics hlive
        rw [hall, hlast] at hspec
        refine .decoded ?_ ?_ ?_ ?_ hkeep
        all_goals
          dsimp only
          rw [hspec]
          dsimp only
          split_ifs <;> rfl

/-- The batch that is built for a live sequence. -/
theorem KeepsStates.ownBatch (hex : KeepsStates ex states config tokenizer)
    (hx : c.executeBatch ex batch = (r, c')) {sch : InteractiveScheduler} {budget : Option ℕ}
    (hb : sch.buildBatch budget c.sequence = .ok batch)
    (hprompt : c.sequence.numPromptTokens = c.sequence.inputIds.length)
    (hlive : c.sequence.isTerminal = false) (hf : Follows (states c.executor) c.sequence) :
    OwnBatch ex states c c' batch r := by
  have hs : c.sequence.status ≠ .cancelled := fun h => by
    rw [c.sequence.isTerminal_iff.2 (.inr h)] at hlive
    cases hlive
  unfold BatchContext.executeBatch at hx
  rw [if_neg hs] at hx
  cases hbp : batch.phase with
  | prefill =>
    have hpos := (PrefillMachine.buildBatch_chunk hb hbp hprompt).2.1
    rw [hbp] at hx
    exact hex.ownBatch_prefill hbp hx (List.ne_nil_of_length_pos hpos) hs hf
  | decode =>
    rw [hbp] at hx
    exact hex.ownBatch_decode hbp hx hlive hf

/-! ## One batch -/

namespace OwnBatch

variable (h : OwnBatch ex states c c' batch r)

include h

theorem request : c'.sequence.request = c.sequence.request := by
  cases h with
  | raised hreq | prefilled _ hreq | decoded hreq => exact hreq

/-- A batch that does not finish its sequence keeps the two copies of its tokens equal. -/
theorem follows (hf : Follows (states c.executor) c.sequence)
    (hlive : c'.sequence.isTerminal = false) :
    Follows (states c'.executor) c'.sequence := by
  have hid := Sequence.seqId_of_request h.request
  cases h with
  | raised hreq hstatus hout hsched hfollows => exact hfollows.congr hreq hout rfl
  | prefilled hphase hreq hstatus hout hsched hret hkeep =>
    obtain ⟨state, hstate, hgen, hfin, -⟩ := hkeep
    rw [← hid] at hstate
    constructor
    · rw [ServingStates.ensure_of_some hstate, hgen, hout]
      exact hf.generated
    · rw [ServingStates.ensure_of_some hstate, hfin]
      exact hf.unfinished
  | decoded hreq hstatus hout hsched hkeep =>
    split_ifs at hstatus hkeep
    · rw [c'.sequence.isTerminal_iff.2 (.inl hstatus)] at hlive
      cases hlive
    · obtain ⟨state, hstate, hsame⟩ := hkeep
      rw [← hid] at hstate
      constructor
      · rw [ServingStates.ensure_of_some hstate, hsame.generated, hout, hf.generated]
      · rw [ServingStates.ensure_of_some hstate, hsame.finished]
        exact hf.unfinished

/-- The executor has no state of a sequence that the batch finishes. -/
theorem states_eq_none (hlive : c.sequence.isTerminal = false)
    (hfin : c'.sequence.status = .finished) : states c'.executor c.sequence.seqId = none := by
  have hnotfin : c.sequence.status ≠ .finished := fun hs => by
    rw [c.sequence.isTerminal_iff.2 (.inl hs)] at hlive
    cases hlive
  cases h with
  | raised hreq hstatus | prefilled hphase hreq hstatus => exact absurd (hstatus ▸ hfin) hnotfin
  | decoded hreq hstatus hout hsched hkeep =>
    split_ifs at hstatus hkeep
    · exact hkeep
    · exact absurd (hstatus ▸ hfin) hnotfin

end OwnBatch

/-- The executor drops the state of a sequence exactly when the runtime finishes it. -/
theorem OwnBatch.dropped_iff {texts : List Text} (h : OwnBatch ex states c c' batch (.ok texts))
    (hlive : c.sequence.isTerminal = false) :
    states c'.executor c.sequence.seqId = none ↔ c'.sequence.status = .finished := by
  refine ⟨fun hnone => ?_, h.states_eq_none hlive⟩
  cases h with
  | prefilled hphase hreq hstatus hout hsched hret hkeep =>
    obtain ⟨state, hstate, -⟩ := hkeep
    rw [hnone] at hstate
    cases hstate
  | decoded hreq hstatus hout hsched hkeep =>
    split_ifs at hstatus hkeep
    · exact hstatus
    · obtain ⟨state, hstate, -⟩ := hkeep
      rw [hnone] at hstate
      cases hstate

/-- The runtime consumes all the samples that the executor returned. -/
theorem OwnBatch.outputIds {texts : List Text} (h : OwnBatch ex states c c' batch (.ok texts)) :
    c'.sequence.outputIds =
      c.sequence.outputIds ++ (c.returned ex batch).map SampleResult.tokenId := by
  cases h with
  | prefilled hphase hreq hstatus hout hsched hret => rw [hout, hret, List.map_nil, List.append_nil]
  | decoded hreq hstatus hout => exact hout

/-- A batch that does not raise keeps the two prefill counts equal. -/
theorem OwnBatch.counts {texts : List Text} (h : OwnBatch ex states c c' batch (.ok texts))
    (hc : Counts (states c.executor) c.sequence)
    (hfits : batch.phase = .prefill →
      c.sequence.numScheduledTokens + batch.inputIds.length ≤ c.sequence.numPromptTokens)
    (hlive : c'.sequence.isTerminal = false) : Counts (states c'.executor) c'.sequence := by
  have hid := Sequence.seqId_of_request h.request
  have hnum := Sequence.numPromptTokens_of_request h.request
  cases h with
  | prefilled hphase hreq hstatus hout hsched hret hkeep =>
    obtain ⟨state, hstate, -, -, hpre, hprompt⟩ := hkeep
    rw [← hid] at hstate
    constructor
    · rw [ServingStates.ensure_of_some hstate, hnum]
      exact hprompt hc.prompt (by rw [hc.prefilled]; exact hfits hphase)
    · rw [ServingStates.ensure_of_some hstate, hpre, hc.prefilled, hsched]
  | decoded hreq hstatus hout hsched hkeep =>
    split_ifs at hstatus hkeep
    · rw [c'.sequence.isTerminal_iff.2 (.inl hstatus)] at hlive
      cases hlive
    · obtain ⟨state, hstate, hsame⟩ := hkeep
      rw [← hid] at hstate
      constructor
      · rw [ServingStates.ensure_of_some hstate, hsame.prompt, hnum]
        exact hc.prompt
      · rw [ServingStates.ensure_of_some hstate, hsame.prefilled, hsched]
        exact hc.prefilled

end

/-! ## One step -/

/-- What one event does to the sequence stored as `q'` afterwards and to its serving state. -/
inductive StoredChange {σ δ : Type} (ex : ModelExecutor σ) (states : σ → ServingStates δ)
    (s s' : ServerState σ) (e : Event) (id : SeqId) (q' : Sequence) : Prop
  /-- Its execution goes no further. -/
  | same (q : Sequence) (hget : s.runtime.scheduler.get id = some q)
      (hreq : q'.request = q.request) (hout : q'.outputIds = q.outputIds)
      (hsched : q'.numScheduledTokens = q.numScheduledTokens)
      (hlive : q'.isTerminal = false → q.isTerminal = false)
      (hdone : q'.status = .finished → q.status = .finished)
      (hstates : states s'.runtime.executor id = states s.runtime.executor id) :
      StoredChange ex states s s' e id q'
  /-- It is added. -/
  | added (request : Request) (sessionId : SessionId) (inputIds : List TokenId) (now : Timestamp)
      (hget : s.runtime.scheduler.get id = none)
      (hq' : q' = request.sequence id sessionId inputIds { matchedTokens := 0, pages := [] } now)
      (hstates : states s'.runtime.executor id = states s.runtime.executor id) :
      StoredChange ex states s s' e id q'
  /-- A batch of it is executed. -/
  | executed (sel : Sequence) (batch : Batch) (r : Except PyError (List Text))
      (c : BatchContext σ) (hget : s.runtime.scheduler.get id = some sel)
      (hlive : sel.isTerminal = false)
      (hb : s.runtime.scheduler.buildBatch none sel.scheduled = .ok batch)
      (hx : (s.runtime.context sel.scheduled).executeBatch ex batch = (r, c))
      (hraise : ∀ err, r = .error err → ∃ i, e = .resume i ∧ (s'.streams i).phase = .raised err)
      (hq' : q' = c.sequence) (hexec : s'.runtime.executor = c.executor) :
      StoredChange ex states s s' e id q'

section

variable {σ δ : Type} {ex : ModelExecutor σ} {states : σ → ServingStates δ}
  {config : GenerationConfig} {tokenizer : Tokenizer} {s : ServerState σ} {id : SeqId}

/-- Writing back a sequence whose execution goes no further. -/
theorem StoredChange.put {s' : ServerState σ} {e : Event} {t u q' : Sequence}
    (hget : s.runtime.scheduler.get t.seqId = some u)
    (hput : s'.runtime.scheduler = s.runtime.scheduler.put t)
    (hexec : s'.runtime.executor = s.runtime.executor) (hreq : t.request = u.request)
    (hout : t.outputIds = u.outputIds) (hsched : t.numScheduledTokens = u.numScheduledTokens)
    (hlive : t.isTerminal = false → u.isTerminal = false)
    (hdone : t.status = .finished → u.status = .finished)
    (hq' : s'.runtime.scheduler.get id = some q') : StoredChange ex states s s' e id q' := by
  rw [hput] at hq'
  rcases RuntimeCore.get_put_cases hq' with ⟨rfl, rfl⟩ | ⟨-, hq⟩
  · exact .same u hget hreq hout hsched hlive hdone (by rw [hexec])
  · exact .same q' hq rfl rfl rfl (fun h => h) (fun h => h) (by rw [hexec])

theorem KeepsStates.storedChange (hex : KeepsStates ex states config tokenizer) (hs : s.Sound)
    (e : Event) {q' : Sequence} (hq' : (s.step ex e).runtime.scheduler.get id = some q') :
    StoredChange ex states s (s.step ex e) e id q' := by
  have hself : ∀ {s' : ServerState σ}, s'.runtime.scheduler = s.runtime.scheduler →
      s'.runtime.executor = s.runtime.executor → s'.runtime.scheduler.get id = some q' →
      StoredChange ex states s s' e id q' := fun hsched hexec hget =>
    .same q' (hsched ▸ hget) rfl rfl rfl (fun h => h) (fun h => h) (by rw [hexec])
  have hchange := ServerState.step_change ex s hs.runtime.wellFormed e
  cases e with
  | addRequest request =>
    cases hchange with
    | quiet hcore => exact hself hcore.scheduler hcore.executor hq'
    | added _ seqId sessionId inputIds m hprompt hid hid' hm hadd hkv hexec =>
      rw [hex.uncached] at hm
      obtain rfl : m = { matchedTokens := 0, pages := [] } := congrArg Prod.fst hm
      rw [hadd] at hq'
      rcases RuntimeCore.get_put_cases hq' with ⟨hid₀, rfl⟩ | ⟨-, hq⟩
      · obtain rfl : id = seqId := hid₀
        exact .added request sessionId inputIds _ (hs.runtime.get_eq_none hid) rfl (by rw [hexec])
      · exact .same q' hq rfl rfl rfl (fun h => h) (fun h => h) (by rw [hexec])
  | cancelRequest requestId sessionId =>
    cases hchange with
    | quiet hcore => exact hself hcore.scheduler hcore.executor hq'
    | cancelled q b hget hlive hcore =>
      exact .put (t := RuntimeCore.withAppended q.markCancelled b) hget hcore.scheduler
        hcore.executor rfl rfl rfl (fun h => by cases h) (fun h => by cases h) hq'
  | evict n => exact hself rfl rfl hq'
  | tick now => exact hself rfl rfl hq'
  | close seqId =>
    rcases s.close_cases seqId with hc | hc <;>
    · simp only [ServerState.step, hc] at hq' ⊢
      exact hself rfl rfl hq'
  | resume seqId =>
    have hres := ServerState.resumed ex s hs.runtime.wellFormed seqId
    simp only [ServerState.step] at hq' ⊢
    generalize s.resume ex seqId = s' at hres hq'
    cases hres with
    | idle => exact hself rfl rfl hq'
    | emitted => exact hself rfl rfl hq'
    | @drained q hq hdone hloop =>
      obtain rfl : q.seqId = seqId := hs.runtime.wellFormed.seqId_eq _ _ hq
      obtain ⟨b, hcore, -⟩ := RuntimeCore.finishSequence_core _ _ hq
      exact .put (t := RuntimeCore.withAppended q b) hq hcore.scheduler hcore.executor rfl rfl rfl
        (fun h => h) (fun h => h) hq'
    | @buildFailed q sel e hq hlive hloop hsel hb =>
      obtain ⟨hget, hsl⟩ := hs.runtime.wellFormed.selectNextSequence hsel
      exact .put (t := sel.scheduled) hget rfl rfl rfl rfl rfl (fun _ => hsl)
        (fun h => by cases h) hq'
    | @executed q sel batch r c hq hlive hloop hsel hb hx =>
      obtain ⟨hget, hsl⟩ := hs.runtime.wellFormed.selectNextSequence hsel
      have hseq : c.sequence.seqId = sel.seqId := (BatchContext.executed_of_eq hx).seqId
      rcases RuntimeCore.get_put_cases hq' with ⟨hid, rfl⟩ | ⟨hid, hq₀⟩
      · rw [hseq] at hid
        refine .executed sel batch r c (hid ▸ hget) hsl hb hx ?_ rfl rfl
        rintro err rfl
        exact ⟨seqId, rfl, by simp [ServerState.setStream, StreamState.afterBatch]⟩
      · rw [hseq] at hid
        refine .same q' hq₀ rfl rfl rfl (fun h => h) (fun h => h) ?_
        exact hex.executed_other (BatchContext.executed_of_eq hx) hid

/-- A sequence that is not stored gets no serving state. -/
theorem KeepsStates.states_of_get_none (hex : KeepsStates ex states config tokenizer)
    (hs : s.Sound) (e : Event) (hid : (s.step ex e).runtime.scheduler.get id = none) :
    states (s.step ex e).runtime.executor id = states s.runtime.executor id := by
  have hchange := ServerState.step_change ex s hs.runtime.wellFormed e
  have hnone := hchange.get_none hid
  cases hchange with
  | quiet hcore => rw [hcore.executor]
  | added _ _ _ _ _ _ _ _ _ _ _ hexec => rw [hexec]
  | cancelled q b hget hlive hcore => rw [hcore.executor]
  | finished q b hget hdone hcore => rw [hcore.executor]
  | selected q hsel hcore => rw [hcore.executor]
  | evicted n h => rw [h]
  | executed sel batch r c hsel hb hx h =>
    obtain ⟨hget, -⟩ := hs.runtime.wellFormed.selectNextSequence hsel
    have hne : id ≠ sel.seqId := by
      rintro rfl
      rw [InteractiveScheduler.get, hget] at hnone
      cases hnone
    rw [h]
    exact hex.executed_other (BatchContext.executed_of_eq hx) hne

end

/-! ## Runs -/

/-- The serving states follow the sequences of the runtime. -/
structure InStep {σ δ : Type} (states : σ → ServingStates δ) (rt : RuntimeCore σ) : Prop where
  prompt : ∀ id q, rt.scheduler.get id = some q → q.numPromptTokens = q.inputIds.length
  live : ∀ id q, rt.scheduler.get id = some q → q.isTerminal = false →
    Follows (states rt.executor) q
  finished : ∀ id q, rt.scheduler.get id = some q → q.status = .finished →
    states rt.executor id = none
  absent : ∀ id, rt.scheduler.get id = none → states rt.executor id = none

/-- The prefill counts of the serving states are those of the sequences. -/
structure CountsInStep {σ δ : Type} (states : σ → ServingStates δ) (rt : RuntimeCore σ) : Prop where
  uncached : ∀ id q, rt.scheduler.get id = some q → q.numCachedTokens = 0
  progress : ∀ id q, rt.scheduler.get id = some q → q.numScheduledTokens ≤ q.numPromptTokens
  live : ∀ id q, rt.scheduler.get id = some q → q.isTerminal = false →
    Counts (states rt.executor) q

def StreamPhase.isRaised : StreamPhase → Bool
  | .raised _ => true
  | _ => false

/-- The event resumes a stream that raises, or that raised before. -/
def raises {σ : Type} (ex : ModelExecutor σ) (s : ServerState σ) : Event → Bool
  | .resume i => ((s.step ex (.resume i)).streams i).phase.isRaised
  | _ => false

section

variable {σ δ : Type} {ex : ModelExecutor σ} {states : σ → ServingStates δ}
  {config : GenerationConfig} {tokenizer : Tokenizer} {s : ServerState σ}

theorem InStep.step (h : InStep states s.runtime) (hex : KeepsStates ex states config tokenizer)
    (hs : s.Sound) (e : Event) : InStep states (s.step ex e).runtime := by
  have hid : ∀ {id : SeqId} {q : Sequence}, s.runtime.scheduler.get id = some q → q.seqId = id :=
    fun hq => hs.runtime.wellFormed.seqId_eq _ _ hq
  refine ⟨fun id q' hq' => ?_, fun id q' hq' hl => ?_, fun id q' hq' hf => ?_, fun id hnone => ?_⟩
  · cases hex.storedChange hs e hq' with
    | same q hget hreq =>
      rw [Sequence.numPromptTokens_of_request hreq, Sequence.inputIds_of_request hreq]
      exact h.prompt id q hget
    | added request sessionId inputIds now hget hnew => rw [hnew]; rfl
    | executed sel batch r c hget hlive hb hx hraise hc =>
      have hreq : c.sequence.request = sel.request := (BatchContext.executed_of_eq hx).request
      rw [hc, Sequence.numPromptTokens_of_request hreq, Sequence.inputIds_of_request hreq]
      exact h.prompt id sel hget
  · cases hex.storedChange hs e hq' with
    | same q hget hreq hout hsched hlive hdone hstates =>
      have hqid := hid hget
      subst hqid
      exact (h.live _ q hget (hlive hl)).congr hreq hout hstates
    | added request sessionId inputIds now hget hnew hstates =>
      have hnone : states (s.step ex e).runtime.executor q'.seqId = none := by
        subst hnew
        exact hstates.trans (h.absent id hget)
      constructor
      · rw [ServingStates.ensure_of_none hnone, hnew]
        rfl
      · rw [ServingStates.ensure_of_none hnone]
    | executed sel batch r c hget hlive hb hx hraise hc hexec =>
      have hf : Follows (states (s.runtime.context sel.scheduled).executor) sel.scheduled :=
        (h.live id sel hget hlive).congr rfl rfl rfl
      have hown := hex.ownBatch hx hb (h.prompt id sel hget) rfl hf
      subst hc
      rw [hexec]
      exact hown.follows hf hl
  · cases hex.storedChange hs e hq' with
    | same q hget hreq hout hsched hlive hdone hstates =>
      rw [hstates]
      exact h.finished id q hget (hdone hf)
    | added request sessionId inputIds now hget hnew => rw [hnew] at hf; cases hf
    | executed sel batch r c hget hlive hb hx hraise hc hexec =>
      have hqid := hid hget
      subst hqid
      have hown := hex.ownBatch hx hb (h.prompt _ sel hget) rfl
        ((h.live _ sel hget hlive).congr rfl rfl rfl)
      subst hc
      rw [hexec]
      exact hown.states_eq_none rfl hf
  · rw [hex.states_of_get_none hs e hnone]
    exact h.absent id ((ServerState.step_change ex s hs.runtime.wellFormed e).get_none hnone)

/-- A prefill chunk fits into what is left of the prompt. -/
theorem buildBatch_fits {sch : InteractiveScheduler} {budget : Option ℕ} {q : Sequence}
    {batch : Batch} (hb : sch.buildBatch budget q = .ok batch) (hphase : batch.phase = .prefill)
    (hprompt : q.numPromptTokens = q.inputIds.length) (hcached : q.numCachedTokens = 0)
    (hprogress : q.numScheduledTokens ≤ q.numPromptTokens) :
    q.numScheduledTokens + batch.inputIds.length ≤ q.numPromptTokens := by
  have hle := (InteractiveScheduler.buildBatch_inputIds hb hphase).length_le
  rw [List.length_drop, hcached] at hle
  omega

theorem CountsInStep.step (h : CountsInStep states s.runtime) (hin : InStep states s.runtime)
    (hex : KeepsStates ex states config tokenizer) (hs : s.Sound) {e : Event}
    (he : raises ex s e = false) : CountsInStep states (s.step ex e).runtime := by
  have hid : ∀ {id : SeqId} {q : Sequence}, s.runtime.scheduler.get id = some q → q.seqId = id :=
    fun hq => hs.runtime.wellFormed.seqId_eq _ _ hq
  -- the batches that are executed
  have hfits : ∀ (sel : Sequence) {id : SeqId} {batch : Batch},
      s.runtime.scheduler.get id = some sel →
      s.runtime.scheduler.buildBatch none sel.scheduled = .ok batch → batch.phase = .prefill →
      sel.numScheduledTokens + batch.inputIds.length ≤ sel.numPromptTokens :=
    fun sel _ _ hget hb hphase => buildBatch_fits hb hphase (hin.prompt _ _ hget)
      (h.uncached _ _ hget) (h.progress _ _ hget)
  refine ⟨fun id q' hq' => ?_, fun id q' hq' => ?_, fun id q' hq' hl => ?_⟩
  · cases hex.storedChange hs e hq' with
    | same q hget hreq =>
      rw [Sequence.numCachedTokens_of_request hreq]
      exact h.uncached id q hget
    | added request sessionId inputIds now hget hnew => rw [hnew]; rfl
    | executed sel batch r c hget hlive hb hx hraise hc =>
      have hreq : c.sequence.request = sel.request := (BatchContext.executed_of_eq hx).request
      rw [hc, Sequence.numCachedTokens_of_request hreq]
      exact h.uncached id sel hget
  · cases hex.storedChange hs e hq' with
    | same q hget hreq hout hsched =>
      rw [Sequence.numPromptTokens_of_request hreq, hsched]
      exact h.progress id q hget
    | added request sessionId inputIds now hget hnew => rw [hnew]; exact Nat.zero_le _
    | executed sel batch r c hget hlive hb hx hraise hc =>
      have hreq : c.sequence.request = sel.request := (BatchContext.executed_of_eq hx).request
      rw [hc, Sequence.numPromptTokens_of_request hreq]
      rcases (BatchContext.executed_of_eq hx).numScheduledTokens with hsched | ⟨hphase, hsched⟩
      · exact hsched.trans_le (h.progress id sel hget)
      · exact hsched.trans_le (hfits sel hget hb hphase)
  · cases hex.storedChange hs e hq' with
    | same q hget hreq hout hsched hlive hdone hstates =>
      have hqid := hid hget
      subst hqid
      exact (h.live _ q hget (hlive hl)).congr hreq hsched hstates
    | added request sessionId inputIds now hget hnew hstates =>
      have hnone : states (s.step ex e).runtime.executor q'.seqId = none := by
        subst hnew
        exact hstates.trans (hin.absent id hget)
      constructor
      · rw [ServingStates.ensure_of_none hnone]
      · rw [ServingStates.ensure_of_none hnone, hnew]
        rfl
    | executed sel batch r c hget hlive hb hx hraise hc hexec =>
      have hown := hex.ownBatch hx hb (hin.prompt id sel hget) rfl
        ((hin.live id sel hget hlive).congr rfl rfl rfl)
      obtain err | texts := r
      · obtain ⟨i, hi, hphase⟩ := hraise err rfl
        subst hi
        rw [raises, hphase] at he
        cases he
      · subst hc
        rw [hexec]
        exact hown.counts ((h.live id sel hget hlive).congr rfl rfl rfl) (hfits sel hget hb) hl

/-! ## Every run -/

variable {st : σ}

theorem inStep_init (hst : ∀ id, states st id = none) (config : RuntimeConfig) :
    InStep states (ServerState.init config st).runtime := by
  refine ⟨?_, ?_, ?_, fun id _ => hst id⟩ <;> simp

theorem countsInStep_init (states : σ → ServingStates δ) (st : σ) (config : RuntimeConfig) :
    CountsInStep states (ServerState.init config st).runtime := by
  refine ⟨?_, ?_, ?_⟩ <;> simp

/-- What holds in a state of a run in which nothing raises : the serving states of the live
sequences agree with them, and so does the next batch if it does not raise either. -/
structure StaysInStep (ex : ModelExecutor σ) (states : σ → ServingStates δ) (rt : RuntimeCore σ) :
    Prop where
  agree : ∀ id q state, rt.scheduler.get id = some q → q.isTerminal = false →
    states rt.executor id = some state → state.generatedTokenIds = q.outputIds ∧
      state.promptTokenCount = q.numPromptTokens ∧ state.prefilledTokenCount = q.numScheduledTokens
  /-- The call works on the state that `_ensure_state` returns, so there is none afterwards if and
  only if it was dropped. -/
  dropped : ∀ sel batch texts c, rt.scheduler.selectNextSequence = some sel →
    rt.scheduler.buildBatch none sel.scheduled = .ok batch →
    (rt.context sel.scheduled).executeBatch ex batch = (.ok texts, c) →
    (states c.executor sel.seqId = none ↔ c.sequence.status = .finished) ∧
      (∀ id, id ≠ sel.seqId → states c.executor id = states rt.executor id) ∧
      c.sequence.outputIds = sel.outputIds ++
        ((rt.context sel.scheduled).returned ex batch).map SampleResult.tokenId

/-- The executors of the repository stay in step with the runtime in every run without
exceptions. -/
theorem staysInStep_run (h : RepositoryExecutor ex states config tokenizer st)
    (cfg : RuntimeConfig) {es : List Event}
    (hrun : Transition.Along (ServerState.step ex) (fun s e => raises ex s e = false)
      (ServerState.init cfg st) es) :
    StaysInStep ex states
      (Transition.run (ServerState.step ex) (ServerState.init cfg st) es).runtime := by
  have hex := h.keepsStates
  have hinit := inStep_init h.states_eq_none cfg
  obtain ⟨hs, hin, hcount⟩ := Transition.run_invariant
    (I := fun s => s.Sound ∧ InStep states s.runtime ∧ CountsInStep states s.runtime)
    (fun s e ⟨hs, hin, hcount⟩ he => ⟨hs.step e, hin.step hex hs e, hcount.step hin hex hs he⟩)
    ⟨ServerState.sound_init cfg st, hinit, countsInStep_init states st cfg⟩ hrun
  constructor
  · intro id q state hget hlive hstate
    obtain rfl := hs.runtime.wellFormed.seqId_eq _ _ hget
    have hensure := ServingStates.ensure_of_some hstate
    have hf := hin.live _ q hget hlive
    have hc := hcount.live _ q hget hlive
    rw [← hensure]
    exact ⟨hf.generated, hc.prompt, hc.prefilled⟩
  · intro sel batch texts c hsel hb hx
    obtain ⟨hget, hlive⟩ := hs.runtime.wellFormed.selectNextSequence hsel
    have hown := hex.ownBatch hx hb (hin.prompt _ sel hget) rfl
      ((hin.live _ sel hget hlive).congr rfl rfl rfl)
    exact ⟨hown.dropped_iff rfl,
      fun id hid => hex.executed_other (BatchContext.executed_of_eq hx) hid, hown.outputIds⟩

end

open TransformersTextExecutor in
theorem staysInStep_twoRequestsRun :
    Transition.Along (ServerState.step countingExecutor.modelExecutor)
        (fun s e => raises countingExecutor.modelExecutor s e = false)
        (ServerState.init ServerState.smallConfig {}) twoRequestsRun.dropLast ∧
      StaysInStep countingExecutor.modelExecutor TransformersState.states
        (Transition.run (ServerState.step countingExecutor.modelExecutor)
          (ServerState.init ServerState.smallConfig {}) twoRequestsRun.dropLast).runtime := by
  have hrun : Transition.Along (ServerState.step countingExecutor.modelExecutor)
      (fun s e => raises countingExecutor.modelExecutor s e = false)
      (ServerState.init ServerState.smallConfig {}) twoRequestsRun.dropLast := by decide +kernel
  exact ⟨hrun, staysInStep_run (.transformers countingExecutor 0) ServerState.smallConfig hrun⟩

end SoloRT
