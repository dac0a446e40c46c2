import SoloRT.PageOwnership
import SoloRT.Serving
import Mathlib.Data.ENat.Basic

/-!
# Following one request through a run

An executor generates the tokens of a sequence in chunks, and the runtime has it do so in any
order with other sequences. A `Simulation` says what the executor's state has to hold for a
live sequence, and which generator the tokens are to come from. `Tracks` adds what holds of the
sequence : its prompt is scheduled in order, and its tokens are a running prefix of the
generation.

The relation holds of a request in every state of a run (`tracked_run`) if the prefill chunks
and decodes of the request keep it (`PrefillsOk`, `DecodesOk`), and so do the batches of other
requests (`OthersOk`). A request that finished then has the tokens of the whole generation.
-/

namespace SoloRT

/-- Whether a request is greedy is fixed when it is added. -/
theorem greedy_of_request {config : GenerationConfig} {q q' : Sequence}
    (h : q'.request = q.request)
    (hq : Greedy config q) : Greedy config q' := by
  have htemp : q'.metadata.temperature = q.metadata.temperature :=
    show q'.request.metadata.temperature = q.request.metadata.temperature from
      congrArg (fun s => s.metadata.temperature) h
  rwa [Greedy, htemp]

/-- What the state of an executor has to hold for the sequences that it generates tokens for. -/
structure Simulation (σ : Type) where
  config : GenerationConfig
  tokenizer : Tokenizer
  /-- The requests that the relation is about. -/
  About : Sequence → Prop
  /-- The next token of a sequence after the generated ones. -/
  next : Sequence → List TokenId → TokenId
  /-- The executor generates no more tokens than this for a sequence. -/
  room : Sequence → ℕ∞
  /-- What the state has for a live sequence. -/
  Holds : σ → Sequence → Prop
  /-- What holds of the state as a whole. -/
  Shared : σ → Prop
  /-- The state has nothing for an id. -/
  Absent : σ → SeqId → Prop
  about_of_request : ∀ {q q' : Sequence}, q'.request = q.request → About q → About q'
  next_of_request : ∀ {q q' : Sequence}, q'.request = q.request → next q' = next q
  room_of_request : ∀ {q q' : Sequence}, q'.request = q.request → room q' = room q
  /-- The executor does not read the other parts of a sequence. -/
  holds_congr : ∀ {st : σ} {q q' : Sequence}, q'.request = q.request →
    q'.outputIds = q.outputIds → q'.numScheduledTokens = q.numScheduledTokens →
    Holds st q → Holds st q'
  holds_new : ∀ (st : σ) (request : Request) (seqId : SeqId) (sessionId : SessionId)
    (inputIds : List TokenId) (now : Timestamp), Absent st seqId →
    Holds st (request.sequence seqId sessionId inputIds { matchedTokens := 0, pages := [] } now)

namespace Simulation

variable {σ : Type} (S : Simulation σ)

/-- The generated tokens are cut here. -/
def stop (q : Sequence) : List TokenId → Bool :=
  endsGeneration S.config S.tokenizer q

/-- The relation between the executor's state and a live sequence. -/
structure Tracks (st : σ) (q : Sequence) : Prop where
  uncached : q.numCachedTokens = 0
  prompt : q.numPromptTokens = q.inputIds.length
  progress : q.numScheduledTokens ≤ q.inputIds.length
  outputs : q.outputIds ≠ [] → q.numScheduledTokens = q.inputIds.length
  running : Generation.Running (S.next q) (S.stop q) q.outputIds
  fits : q.outputIds.length ≤ S.room q
  holds : S.Holds st q

/-- The tokens of a whole generation. -/
def IsDone (q : Sequence) (tokenIds : List TokenId) : Prop :=
  Generation.Complete (S.next q) (S.stop q) tokenIds ∧ tokenIds.length ≤ S.room q

/-- A prefill chunk of `n` tokens keeps the relation, whether it raises or not. -/
def PrefillOk (q : Sequence) (n : ℕ) (st : σ) : Except PyError Unit → Prop
  | .error _ => S.Holds st q
  | .ok () => S.Holds st { q with numScheduledTokens := q.numScheduledTokens + n }

/-- A decode that raises keeps the relation. One that returns samples goes on with the
generation, or ends it. -/
def DecodeOk (q : Sequence) (st : σ) : Except PyError DecodeOutput → Prop
  | .error _ => S.Tracks st q
  | .ok output => ∃ xs, normalizeSamples output = .ok xs ∧ xs ≠ [] ∧
    Chunk (S.stop q) q.outputIds xs ∧
    if xs.getLast?.any SampleResult.finished then
      S.IsDone q (q.outputIds ++ xs.map SampleResult.tokenId)
    else S.Tracks st { q with outputIds := q.outputIds ++ xs.map SampleResult.tokenId }

variable {S} {st : σ} {q q' : Sequence}

theorem stop_of_request (h : q'.request = q.request) : S.stop q' = S.stop q :=
  endsGeneration_of_request h

theorem Tracks.congr (h : S.Tracks st q) (hreq : q'.request = q.request)
    (hout : q'.outputIds = q.outputIds) (hsched : q'.numScheduledTokens = q.numScheduledTokens) :
    S.Tracks st q' := by
  have hin := Sequence.inputIds_of_request hreq
  refine ⟨?_, ?_, ?_, ?_, ?_, ?_, S.holds_congr hreq hout hsched h.holds⟩
  · rw [Sequence.numCachedTokens_of_request hreq, h.uncached]
  · rw [Sequence.numPromptTokens_of_request hreq, h.prompt, hin]
  · rw [hsched, hin]
    exact h.progress
  · rw [hout, hsched, hin]
    exact h.outputs
  · rw [hout, S.next_of_request hreq, stop_of_request hreq]
    exact h.running
  · rw [hout, S.room_of_request hreq]
    exact h.fits

theorem IsDone.congr {tokenIds : List TokenId} (h : S.IsDone q tokenIds)
    (hreq : q'.request = q.request) : S.IsDone q' tokenIds := by
  rw [IsDone, S.next_of_request hreq, stop_of_request hreq, S.room_of_request hreq]
  exact h

/-- A call for another sequence. -/
theorem Tracks.other {st' : σ} (h : S.Tracks st q) (hh : S.Holds st' q) : S.Tracks st' q :=
  ⟨h.uncached, h.prompt, h.progress, h.outputs, h.running, h.fits, hh⟩

theorem Tracks.outputs_eq_nil (h : S.Tracks st q) (hlt : q.numScheduledTokens < q.inputIds.length) :
    q.outputIds = [] := by
  by_contra hne
  have hdone := h.outputs hne
  omega

/-- A new sequence has nothing generated and nothing in the executor. -/
theorem tracks_new {request : Request} {seqId : SeqId} {sessionId : SessionId}
    {inputIds : List TokenId} {now : Timestamp} (habsent : S.Absent st seqId) :
    S.Tracks st (request.sequence seqId sessionId inputIds
      { matchedTokens := 0, pages := [] } now) :=
  ⟨rfl, rfl, Nat.zero_le _, fun h => absurd rfl h, .nil, by simp,
    S.holds_new _ _ _ _ _ _ habsent⟩

/-- Appending the next tokens of the generation to a serving state is a decode that keeps the
relation, if the state is as it should be when the generation goes on. -/
theorem decodeOk_follow {δ : Type} (h : S.Tracks st q)
    (hdone : q.numScheduledTokens = q.inputIds.length) {state state' : ServingState δ} {n : ℕ}
    {xs : List SampleResult}
    (happ : appendTokenResults S.config S.tokenizer q state
      (Generation.follow (S.next q) (n + 1) q.outputIds) = (xs, state'))
    (hgen : state.generatedTokenIds = q.outputIds) (hfin : state.finished = false) {st' : σ}
    (hroom : (q.outputIds.length + (n + 1) : ℕ) ≤ S.room q)
    (hholds : Generation.Running (S.next q) (S.stop q)
        (q.outputIds ++ Generation.follow (S.next q) (n + 1) q.outputIds) →
      SameCache state state' → state'.generatedTokenIds = q.outputIds ++
        Generation.follow (S.next q) (n + 1) q.outputIds → state'.finished = false →
      S.Holds st' { q with
        outputIds := q.outputIds ++ Generation.follow (S.next q) (n + 1) q.outputIds })
    {output : DecodeOutput} (hout : normalizeSamples output = .ok xs) :
    S.DecodeOk q st' (.ok output) := by
  obtain ⟨hsame, hchunk, hids, hgen', hfin'⟩ := appendTokenResults_spec hfin happ
  have hstop : endsGeneration S.config S.tokenizer q = S.stop q := rfl
  have hne : xs ≠ [] := by
    rintro rfl
    rw [Generation.follow, Generation.cut] at hids
    split_ifs at hids <;> simp at hids
  rw [hgen, hstop] at hchunk hids
  rw [hgen] at hgen'
  have hlast := hchunk.any_getLast hne
  have hfits : ((q.outputIds ++ xs.map SampleResult.tokenId).length : ℕ∞) ≤ S.room q := by
    refine le_trans (Nat.cast_le.2 ?_) hroom
    have hcut := Generation.length_cut_le (S.stop q) q.outputIds
      (Generation.follow (S.next q) (n + 1) q.outputIds)
    rw [← hids, Generation.length_follow] at hcut
    rw [List.length_append]
    omega
  refine ⟨xs, hout, hne, hchunk, ?_⟩
  rcases h.running.cut_follow (n + 1) with ⟨hrun, hcut⟩ | hcomplete
  · have htokens : xs.map SampleResult.tokenId =
        Generation.follow (S.next q) (n + 1) q.outputIds := hids.trans hcut
    rw [htokens] at hgen' hlast hfits ⊢
    have hnil : q.outputIds ++ Generation.follow (S.next q) (n + 1) q.outputIds ≠ [] := by
      simp [Generation.follow]
    have hgoes := hrun.stop_eq_false hnil
    rw [if_neg (by rw [hlast, hgoes]; exact Bool.false_ne_true)]
    have hnotfin : state'.finished = false := by
      rw [hfin', hlast, hgoes]
    have hreq : ({ q with
        outputIds := q.outputIds ++ Generation.follow (S.next q) (n + 1) q.outputIds } :
          Sequence).request = q.request := rfl
    refine ⟨h.uncached, h.prompt, h.progress, fun _ => hdone, ?_, ?_,
      hholds hrun hsame hgen' hnotfin⟩
    · rw [S.next_of_request hreq, stop_of_request hreq]
      exact hrun
    · rw [S.room_of_request hreq]
      exact hfits
  · rw [← hids] at hcomplete
    obtain ⟨-, -, -, hends⟩ := id hcomplete
    rw [if_pos (hlast.trans hends)]
    exact ⟨hcomplete, hfits⟩

/-! ## Executing a batch -/

variable (S) in
/-- The prefill chunks of an executor keep the relation. -/
def PrefillsOk (ex : ModelExecutor σ) : Prop :=
  ∀ (q : Sequence) (batch : Batch) (env : ExecutorEnv σ), S.About q → S.Tracks env.state q →
    batch.inputIds <+: q.inputIds.drop q.numScheduledTokens →
    S.PrefillOk q batch.inputIds.length (ex.forwardPrefill q batch env).2.state
      (ex.forwardPrefill q batch env).1

variable {ex : ModelExecutor σ} {c c' : BatchContext σ} {batch : Batch}
  {r : Except PyError (List Text)}

/-- The executor is given the sequence with another page table. -/
theorem Tracks.setEnv {env : ExecutorEnv σ} (h : S.Tracks c.executor c.sequence)
    (hstate : env.state = c.executor) : S.Tracks env.state (c.setEnv env).sequence := by
  rw [hstate]
  exact h.congr (c.request_setEnv env) rfl rfl

/-- A prefill batch has the next tokens of the prompt. -/
theorem Tracks.chunk (h : S.Tracks st q) {sch : InteractiveScheduler} {budget : Option ℕ}
    (hb : sch.buildBatch budget q = .ok batch) (hphase : batch.phase = .prefill) :
    batch.inputIds <+: q.inputIds.drop q.numScheduledTokens := by
  have hchunk := InteractiveScheduler.buildBatch_inputIds hb hphase
  rwa [h.uncached, Nat.zero_add] at hchunk

/-- A decode batch comes after the whole prompt. -/
theorem Tracks.prefilled (h : S.Tracks st q) {sch : InteractiveScheduler} {budget : Option ℕ}
    (hb : sch.buildBatch budget q = .ok batch) (hphase : batch.phase = .decode) :
    q.numScheduledTokens = q.inputIds.length := by
  have hcomplete := q.isPrefillComplete_iff.1
    ((InteractiveScheduler.buildBatch_ok hb).2.1 hphase)
  rw [h.uncached, h.prompt, Nat.zero_add] at hcomplete
  exact le_antisymm h.progress hcomplete

/-- Executing a batch of a sequence goes on with its generation, or ends it. -/
theorem executed_tracks (hprefill : S.PrefillsOk ex) (hcache : ex.supportsPrefixCache = false)
    (h : BatchContext.Executed ex c batch r c') {sch : InteractiveScheduler} {budget : Option ℕ}
    (hb : sch.buildBatch budget c.sequence = .ok batch) (habout : S.About c.sequence)
    (hlive : c.sequence.isTerminal = false) (ht : S.Tracks c.executor c.sequence)
    (hdecode : c.sequence.numScheduledTokens = c.sequence.inputIds.length →
      ∀ (batch' : Batch) (env : ExecutorEnv σ), env.state = c.executor →
      PagedKVCache.KVSteps c.env.pages env.pages →
      S.DecodeOk (c.setEnv env).sequence
        (ex.forwardDecode (c.setEnv env).sequence batch' env).2.state
        (ex.forwardDecode (c.setEnv env).sequence batch' env).1) :
    (c'.sequence.isTerminal = false → S.Tracks c'.executor c'.sequence) ∧
      (c'.sequence.status = .finished → S.IsDone c.sequence c'.sequence.outputIds) := by
  have hnotfin : c.sequence.status ≠ .finished := fun hs => by
    rw [c.sequence.isTerminal_iff.2 (.inl hs)] at hlive
    cases hlive
  cases h with
  | skipped hs =>
    rw [c.sequence.isTerminal_iff.2 (.inr hs)] at hlive
    cases hlive
  | attachFailed hs hstate hkv => exact ⟨fun _ => ht.setEnv hstate, fun hf => absurd hf hnotfin⟩
  | @prefillFailed e batch' env env' hs hbp ha he =>
    have ht' := ht.setEnv ha.state
    have hok := hprefill _ batch' env (S.about_of_request (c.request_setEnv env) habout) ht'
      (ha.inputIds ▸ ht.chunk hb hbp)
    rw [he] at hok
    have hreq' : (c.setEnv env').sequence.request = (c.setEnv env).sequence.request := rfl
    exact ⟨fun _ => (ht'.other hok).congr hreq' rfl rfl, fun hf => absurd hf hnotfin⟩
  | @prefilled batch' env env' r c' hs hbp ha he hc =>
    have hchunk := ht.chunk hb hbp
    rw [← ha.inputIds] at hchunk
    have hok := hprefill _ batch' env (S.about_of_request (c.request_setEnv env) habout)
      (ht.setEnv ha.state) hchunk
    rw [he] at hok
    have hlen := hchunk.length_le
    rw [List.length_drop] at hlen
    have hprogress := ht.progress
    have hreq' : ({ (c.setEnv env).sequence with
        numScheduledTokens := c.sequence.numScheduledTokens + batch'.inputIds.length } :
          Sequence).request = c.sequence.request := rfl
    have hnext : S.Tracks env'.state { (c.setEnv env).sequence with
        numScheduledTokens := c.sequence.numScheduledTokens + batch'.inputIds.length } := by
      refine ⟨ht.uncached, ht.prompt, ?_, fun hne => ?_, ?_, ?_, hok⟩
      · dsimp only
        change _ ≤ c.sequence.inputIds.length
        omega
      · have hdone := ht.outputs hne
        change _ = c.sequence.inputIds.length
        dsimp only
        omega
      · rw [S.next_of_request hreq', stop_of_request hreq']
        exact ht.running
      · rw [S.room_of_request hreq']
        exact ht.fits
    rcases BatchContext.cachePrefix_cases hc with ⟨rfl, -⟩ | ⟨-, -, hsup, -⟩
    · rw [Sequence.postprocessBatch_prefill (s := (c.setEnv env').sequence) hs
        (ha.phase.trans hbp)]
      exact ⟨fun _ => hnext.congr rfl rfl rfl, fun hf => absurd hf hnotfin⟩
    · rw [hcache] at hsup
      cases hsup
  | @decodeFailed e batch' env env' o hs hbp ha he ho =>
    have hok := hdecode (ht.prefilled hb hbp) batch' env ha.state ha.kv
    rw [he] at hok
    rcases ho with rfl | rfl
    · exact ⟨fun _ => hok.congr rfl rfl rfl, fun hf => absurd hf hnotfin⟩
    · obtain ⟨xs, hxs, -⟩ := hok
      cases hxs
  | @decoded batch' env env' o samples hs hbp ha he hn =>
    have hok := hdecode (ht.prefilled hb hbp) batch' env ha.state ha.kv
    rw [he] at hok
    obtain ⟨xs, hxs, -, hchunk, hok⟩ := hok
    rw [hn, Except.ok.injEq] at hxs
    subst hxs
    have hlive' : (c.setEnv env').sequence.isTerminal = false := hlive
    rw [stop_of_request (c.request_setEnv env), ← stop_of_request (c.request_setEnv env')] at hchunk
    obtain ⟨hall, hfin⟩ := Chunk.consumed hlive' hchunk
    dsimp only
    rw [consumeSamples_spec samples _ c.metrics hlive', hall, hfin]
    dsimp only
    by_cases hlast : samples.getLast?.any SampleResult.finished = true
    · rw [if_pos hlast] at hok ⊢
      exact ⟨fun h => by simp at h, fun _ => hok.congr rfl⟩
    · rw [if_neg hlast] at hok ⊢
      exact ⟨fun _ => hok.congr rfl rfl rfl, fun hf => absurd hf hnotfin⟩

/-! ## Runs -/

variable (S) in
/-- What holds of the request `id` in a runtime over the executor. -/
structure Tracked (id : SeqId) (rt : RuntimeCore σ) : Prop where
  shared : S.Shared rt.executor
  absent : rt.scheduler.get id = none → S.Absent rt.executor id
  live : ∀ q, rt.scheduler.get id = some q → S.About q → q.isTerminal = false →
    S.Tracks rt.executor q
  done : ∀ q, rt.scheduler.get id = some q → S.About q → q.status = .finished →
    S.IsDone q q.outputIds

/-- The executor's calls meet the simulation, apart from the decodes and from what calls for
other sequences change. -/
structure Simulates (ex : ModelExecutor σ) : Prop where
  prefills : S.PrefillsOk ex
  shared : ∀ {c c' : BatchContext σ} {batch : Batch} {r : Except PyError (List Text)},
    BatchContext.Executed ex c batch r c' → S.Shared c.executor → S.Shared c'.executor
  uncached : ex.supportsPrefixCache = false

/-- The decodes of the request `id` in the next turn keep the relation. -/
def DecodesOk (ex : ModelExecutor σ) (id : SeqId) (rt : RuntimeCore σ) : Prop :=
  ∀ s, rt.scheduler.selectNextSequence = some s → s.seqId = id → S.About s →
    S.Tracks rt.executor s → s.numScheduledTokens = s.inputIds.length →
    ∀ (batch : Batch) (env : ExecutorEnv σ), env.state = (rt.context s.scheduled).executor →
    PagedKVCache.KVSteps (rt.context s.scheduled).env.pages env.pages →
    S.DecodeOk ((rt.context s.scheduled).setEnv env).sequence
      (ex.forwardDecode ((rt.context s.scheduled).setEnv env).sequence batch env).2.state
      (ex.forwardDecode ((rt.context s.scheduled).setEnv env).sequence batch env).1

/-- A batch of another request in the next turn keeps what the executor has for `id`, or that
it has nothing. -/
def OthersOk (ex : ModelExecutor σ) (id : SeqId) (rt : RuntimeCore σ) : Prop :=
  ∀ s batch r c, rt.scheduler.selectNextSequence = some s → s.seqId ≠ id →
    rt.scheduler.buildBatch none s.scheduled = .ok batch →
    BatchContext.Executed ex (rt.context s.scheduled) batch r c →
    (S.Absent rt.executor id → S.Absent c.executor id) ∧
    ∀ q, rt.scheduler.get id = some q → S.About q → q.isTerminal = false →
      S.Tracks rt.executor q → S.Holds c.executor q

variable {id : SeqId} {rt rt' : RuntimeCore σ}

/-- Writing back a sequence whose generation the executor does not see change. -/
theorem Tracked.put (h : S.Tracked id rt) {s : Sequence} (t : Sequence)
    (hget : rt.scheduler.get t.seqId = some s)
    (hsched : rt'.scheduler = rt.scheduler.put t) (hexec : rt'.executor = rt.executor)
    (hreq : t.request = s.request) (hout : t.outputIds = s.outputIds)
    (hnum : t.numScheduledTokens = s.numScheduledTokens)
    (hlive : t.isTerminal = false → s.isTerminal = false)
    (hdone : t.status = .finished → s.status = .finished) : S.Tracked id rt' := by
  have hself : rt'.scheduler.get t.seqId = some t := by
    rw [hsched]
    exact InteractiveScheduler.get_put t
  have hother : ∀ i, i ≠ t.seqId → rt'.scheduler.get i = rt.scheduler.get i := fun i hi => by
    rw [hsched]
    exact InteractiveScheduler.get_put_of_ne hi
  have hback : ∀ q, rt'.scheduler.get id = some q → ∃ q₀, rt.scheduler.get id = some q₀ ∧
      q.request = q₀.request ∧ q.outputIds = q₀.outputIds ∧
      q.numScheduledTokens = q₀.numScheduledTokens ∧
      (q.isTerminal = false → q₀.isTerminal = false) ∧
      (q.status = .finished → q₀.status = .finished) := by
    intro q hq
    by_cases hid : id = t.seqId
    · rw [hid, hself, Option.some.injEq] at hq
      subst hq
      exact ⟨s, hid ▸ hget, hreq, hout, hnum, hlive, hdone⟩
    · exact ⟨q, hother id hid ▸ hq, rfl, rfl, rfl, fun h => h, fun h => h⟩
  refine ⟨hexec ▸ h.shared, fun hi => ?_, fun q hq habout hl => ?_, fun q hq habout hf => ?_⟩
  · rw [hexec]
    exact h.absent (RuntimeCore.get_none_of_put (hsched ▸ hi))
  · obtain ⟨q₀, hq₀, hr, ho, hn, hl', -⟩ := hback q hq
    rw [hexec]
    exact (h.live q₀ hq₀ (S.about_of_request hr.symm habout) (hl' hl)).congr hr ho hn
  · obtain ⟨q₀, hq₀, hr, ho, -, -, hf'⟩ := hback q hq
    rw [ho]
    exact (h.done q₀ hq₀ (S.about_of_request hr.symm habout) (hf' hf)).congr hr

/-- A change that the scheduler and the executor do not see. -/
theorem Tracked.same (h : S.Tracked id rt) (hsched : rt'.scheduler = rt.scheduler)
    (hexec : rt'.executor = rt.executor) : S.Tracked id rt' := by
  refine ⟨hexec ▸ h.shared, ?_, ?_, ?_⟩
  · rw [hsched, hexec]
    exact h.absent
  · rw [hsched, hexec]
    exact h.live
  · rw [hsched]
    exact h.done

theorem Tracked.added (h : S.Tracked id rt) (hrt : rt.Sound) {request : Request} {seqId : SeqId}
    {sessionId : SessionId} {inputIds : List TokenId} (hid : rt.nextUuid ≤ seqId)
    (hs : rt'.scheduler = rt.scheduler.addSequence (request.sequence seqId sessionId inputIds
      { matchedTokens := 0, pages := [] } rt.now))
    (hex : rt'.executor = rt.executor) : S.Tracked id rt' := by
  have hself : rt'.scheduler.get seqId = some (request.sequence seqId sessionId inputIds
      { matchedTokens := 0, pages := [] } rt.now) := by
    rw [hs]
    exact rt.scheduler.get_addSequence _
  have hother : ∀ i, i ≠ seqId → rt'.scheduler.get i = rt.scheduler.get i := fun i hi => by
    rw [hs]
    exact InteractiveScheduler.get_addSequence_of_ne (by simpa using hi)
  refine ⟨hex ▸ h.shared, fun hi => ?_, fun q hq habout hl => ?_, fun q hq habout hf => ?_⟩
  · rw [hex]
    exact h.absent (RuntimeCore.get_none_of_put (by rwa [hs] at hi))
  · rw [hex]
    by_cases hne' : id = seqId
    · subst hne'
      rw [hself, Option.some.injEq] at hq
      subst hq
      exact tracks_new (h.absent (hrt.get_eq_none hid))
    · exact h.live q (hother id hne' ▸ hq) habout hl
  · by_cases hne' : id = seqId
    · rw [hne', hself, Option.some.injEq] at hq
      subst hq
      cases hf
    · exact h.done q (hother id hne' ▸ hq) habout hf

/-- The execution of a batch, of the request or of another, keeps the relation. -/
theorem Tracked.executed (h : S.Tracked id rt) (hsim : S.Simulates ex) (hrt : rt.Sound)
    (hdecode : S.DecodesOk ex id rt) (hothers : S.OthersOk ex id rt)
    {s : Sequence} (hsel : rt.scheduler.selectNextSequence = some s)
    (hb : rt.scheduler.buildBatch none s.scheduled = .ok batch)
    (hx : (rt.context s.scheduled).executeBatch ex batch = (r, c)) :
    S.Tracked id (rt.setContext c) := by
  have hx := BatchContext.executed_of_eq hx
  obtain ⟨hget, hlive⟩ := hrt.wellFormed.selectNextSequence hsel
  have hseq : c.sequence.seqId = s.seqId := hx.seqId
  have hreq : c.sequence.request = s.request := hx.request
  have hself : (rt.setContext c).scheduler.get s.seqId = some c.sequence :=
    hseq ▸ InteractiveScheduler.get_put c.sequence
  have hother : ∀ i, i ≠ s.seqId → (rt.setContext c).scheduler.get i = rt.scheduler.get i :=
    fun i hi => InteractiveScheduler.get_put_of_ne (hseq ▸ hi)
  have hshared := hsim.shared hx h.shared
  by_cases hid : s.seqId = id
  · subst hid
    -- the batch of the request itself
    have hown : S.About c.sequence → (c.sequence.isTerminal = false →
        S.Tracks c.executor c.sequence) ∧ (c.sequence.status = .finished →
          S.IsDone s.scheduled c.sequence.outputIds) := by
      intro habout
      have habout' := S.about_of_request hreq.symm habout
      have ht := h.live s hget habout' hlive
      have hreq' : s.scheduled.request = s.request := rfl
      have ht' : S.Tracks rt.executor s.scheduled := ht.congr hreq' rfl rfl
      have hown := executed_tracks hsim.prefills hsim.uncached hx hb
        (S.about_of_request hreq' habout') rfl ht'
      exact hown (hdecode s hsel rfl habout' ht)
    refine ⟨hshared, fun hi => ?_, fun q hq habout hl => ?_, fun q hq habout hf => ?_⟩
    · rw [hself] at hi
      cases hi
    · rw [hself, Option.some.injEq] at hq
      subst hq
      exact (hown habout).1 hl
    · rw [hself, Option.some.injEq] at hq
      subst hq
      exact ((hown habout).2 hf).congr hreq
  · obtain ⟨habsent, hholds⟩ := hothers s batch r c hsel hid hb hx
    refine ⟨hshared, fun hi => habsent (h.absent (RuntimeCore.get_none_of_put hi)),
      fun q hq habout hl => ?_, fun q hq habout hf => ?_⟩
    · have hq' := hother id (Ne.symm hid) ▸ hq
      have ht := h.live q hq' habout hl
      exact ht.other (hholds q hq' habout hl ht)
    · exact h.done q (hother id (Ne.symm hid) ▸ hq) habout hf

/-- The event resumes a stream at its loop condition whose request is live, so that the
scheduler's next batch is executed. -/
def Turns (s : ServerState σ) (e : Event) : Prop :=
  ∃ i q, e = .resume i ∧ s.runtime.scheduler.get i = some q ∧ q.isTerminal = false ∧
    (s.streams i).phase = .loop

/-- Every event keeps the relation, if the next batch does. -/
theorem Tracked.step {s : ServerState σ} (h : S.Tracked id s.runtime) (hsim : S.Simulates ex)
    (hs : s.Sound) (e : Event) (hturn : Turns s e →
      S.DecodesOk ex id s.runtime ∧ S.OthersOk ex id s.runtime) :
    S.Tracked id (s.step ex e).runtime := by
  have hchange := ServerState.step_change ex s hs.runtime.wellFormed e
  cases e with
  | addRequest request =>
    cases hchange with
    | quiet hcore => exact h.same hcore.scheduler hcore.executor
    | added _ seqId sessionId inputIds m hprompt hid hid' hm hadd hkv hex =>
      rw [hsim.uncached] at hm
      obtain rfl : m = { matchedTokens := 0, pages := [] } := congrArg Prod.fst hm
      exact h.added hs.runtime hid hadd hex
  | cancelRequest requestId sessionId =>
    cases hchange with
    | quiet hcore => exact h.same hcore.scheduler hcore.executor
    | cancelled q b hget hlive hcore =>
      exact h.put (RuntimeCore.withAppended q.markCancelled b) hget hcore.scheduler hcore.executor
        rfl rfl rfl (fun h => by cases h) (fun h => by cases h)
  | evict n => exact h.same rfl rfl
  | tick now => exact h.same rfl rfl
  | close seqId =>
    rcases s.close_cases seqId with hc | hc <;>
      simpa only [ServerState.step, hc, ServerState.setStream_runtime] using h
  | resume seqId =>
    have hres := ServerState.resumed ex s hs.runtime.wellFormed seqId
    simp only [ServerState.step]
    generalize s.resume ex seqId = s' at hres
    cases hres with
    | idle => exact h
    | emitted => exact h
    | @drained q hq hdone hloop =>
      obtain rfl : q.seqId = seqId := hs.runtime.wellFormed.seqId_eq _ _ hq
      obtain ⟨b, hcore, -⟩ := RuntimeCore.finishSequence_core _ _ hq
      exact h.put (RuntimeCore.withAppended q b) hq hcore.scheduler hcore.executor rfl rfl rfl
        (fun h => h) (fun h => h)
    | @buildFailed q sel e hq hlive hloop hsel hb =>
      obtain ⟨hget, hsl⟩ := hs.runtime.wellFormed.selectNextSequence hsel
      exact h.put sel.scheduled hget rfl rfl rfl rfl rfl (fun _ => hsl) (fun h => by cases h)
    | @executed q sel batch r c hq hlive hloop hsel hb hx =>
      obtain ⟨hdecode, hothers⟩ := hturn ⟨seqId, q, rfl, hq, hlive, hloop⟩
      exact h.executed hsim hs.runtime hdecode hothers hsel hb hx

/-- A run whose batches keep the relation for the request `id` ends with it. -/
theorem tracked_run (hsim : S.Simulates ex) {P : ServerState σ → Event → Prop}
    (hP : ∀ s e, s.Owned → S.Tracked id s.runtime → P s e → Turns s e →
      S.DecodesOk ex id s.runtime ∧ S.OthersOk ex id s.runtime)
    (config : RuntimeConfig) {st : σ} (hshared : S.Shared st) (habsent : S.Absent st id)
    {es : List Event}
    (h : Transition.Along (ServerState.step ex) P (ServerState.init config st) es) :
    S.Tracked id
      (Transition.run (ServerState.step ex) (ServerState.init config st) es).runtime := by
  have hinit : S.Tracked id (ServerState.init config st).runtime := by
    refine ⟨hshared, fun _ => habsent, ?_, ?_⟩ <;> simp
  have hstep : ∀ s e, s.Owned ∧ S.Tracked id s.runtime → P s e →
      (s.step ex e).Owned ∧ S.Tracked id (s.step ex e).runtime := fun s e hs he =>
    ⟨(hs.1.step ex e).1, hs.2.step hsim hs.1.1 e (hP s e hs.1 hs.2 he)⟩
  exact (Transition.run_invariant hstep ⟨ServerState.owned_init config st, hinit⟩ h).2

variable (S) in
/-- The tokens of the whole generation. The first is generated whatever the limit. -/
def reference (q : Sequence) : List TokenId :=
  Generation.generate (S.next q) (S.stop q) (max 1 q.maxNewTokens) []

/-- A running generation has not reached the limit. -/
theorem length_lt_of_running {ts : List TokenId}
    (h : Generation.Running (S.next q) (S.stop q) ts) : ts.length < max 1 q.maxNewTokens := by
  by_cases hnil : ts = []
  · simp [hnil]
  · have hstop := h.stop_eq_false hnil
    rw [stop, endsGeneration, Bool.or_eq_false_iff, Bool.or_eq_false_iff] at hstop
    have hlt : ts.length < q.maxNewTokens := by simpa using hstop.1.1
    exact hlt.trans_le (le_max_right _ _)

theorem eq_reference_of_complete {ts : List TokenId}
    (h : Generation.Complete (S.next q) (S.stop q) ts) : ts = S.reference q := by
  refine (h.generate_eq ?_).symm
  obtain ⟨ys, hys, rfl, -⟩ := h
  have hlt := length_lt_of_running hys
  simp only [List.length_append, List.length_singleton]
  omega

theorem prefix_reference_of_running {ts : List TokenId}
    (h : Generation.Running (S.next q) (S.stop q) ts) : ts <+: S.reference q :=
  h.prefix_generate (length_lt_of_running h).le

end Simulation

end SoloRT
