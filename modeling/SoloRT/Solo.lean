import SoloRT.ChunkedPrefill
import SoloRT.Simulation

/-!
# One request served alone

The server has one request, and its stream is resumed until it is over. A turn executes the
next batch of the request, goes on with the texts of the last one, or ends the stream, so it
gets there whatever the sizes of the chunks (`served_settles`).

How the request ends depends on the generator alone (`Outcome`) : the prompt is refused, all
tokens are generated, or the room ends before. So two executors that meet the same simulation
serve it alike (`Outcome.unique`).
-/

namespace SoloRT

/-- The turns that a stream needs at the least before it is over. -/
def StreamPhase.turns : StreamPhase → ℕ
  | .loop => 1
  | .yielding rest => rest.length + 2
  | .finished | .raised _ | .closed => 0

/-- Each text of a decode is emitted in a turn of its own. -/
theorem StreamState.emit_turns (stream : StreamState) (texts : List Text) :
    (stream.emit texts).phase.turns = texts.length + 1 := by
  cases texts <;> rfl

namespace Simulation

variable {σ : Type} (S : Simulation σ) (ex : ModelExecutor σ)
  (refusal : List TokenId → Option PyError) (noRoom : PyError)

/-- The executor meets the simulation in every call. A prefill raises only if it refuses the
prompt, and a decode only if no room is left. -/
structure Serves : Prop extends S.Simulates ex where
  paged : ex.usesPagedKv = false
  refused : ∀ (q : Sequence) (batch : Batch) (env : ExecutorEnv σ) (e : PyError), S.About q →
    S.Tracks env.state q → batch.inputIds <+: q.inputIds.drop q.numScheduledTokens →
    (ex.forwardPrefill q batch env).1 = .error e → refusal q.inputIds = some e
  accepted : ∀ (st : σ) (q : Sequence), S.About q → S.Tracks st q →
    q.numScheduledTokens = q.inputIds.length → refusal q.inputIds = none
  decodes : ∀ (q : Sequence) (batch : Batch) (env : ExecutorEnv σ), S.About q →
    S.Tracks env.state q → q.numScheduledTokens = q.inputIds.length →
    S.DecodeOk q (ex.forwardDecode q batch env).2.state (ex.forwardDecode q batch env).1
  exhausted : ∀ (q : Sequence) (batch : Batch) (env : ExecutorEnv σ) (e : PyError), S.About q →
    S.Tracks env.state q → q.numScheduledTokens = q.inputIds.length →
    (ex.forwardDecode q batch env).1 = .error e → e = noRoom ∧ S.room q ≤ q.outputIds.length

/-- How a request ends : its tokens, its status and the phase of its stream. -/
inductive Outcome (q : Sequence) : List TokenId → SequenceStatus → StreamPhase → Prop
  /-- No decode batch can be built for an empty prompt. -/
  | empty (h : q.inputIds = []) :
      Outcome q [] .running (.raised ⟨.indexError, "list index out of range"⟩)
  | refused {e : PyError} (hne : q.inputIds ≠ []) (h : refusal q.inputIds = some e) :
      Outcome q [] .running (.raised e)
  | finished {tokenIds : List TokenId} (hne : q.inputIds ≠ []) (h : refusal q.inputIds = none)
      (hdone : S.IsDone q tokenIds) : Outcome q tokenIds .finished .finished
  | exhausted {tokenIds : List TokenId} (hne : q.inputIds ≠ []) (h : refusal q.inputIds = none)
      (hrun : Generation.Running (S.next q) (S.stop q) tokenIds)
      (hlen : (tokenIds.length : ℕ∞) = S.room q) : Outcome q tokenIds .running (.raised noRoom)

variable {S ex refusal noRoom} {q : Sequence}

/-- A request that is not refused, has room for two tokens and goes on after the first one ends
with at least two. -/
theorem Outcome.two_le_length {ts : List TokenId} {status : SequenceStatus} {phase : StreamPhase}
    (h : S.Outcome refusal noRoom q ts status phase) (hne : q.inputIds ≠ [])
    (haccepted : refusal q.inputIds = none) (hroom : 2 ≤ S.room q)
    (hgoes : S.stop q [S.next q []] = false) : 2 ≤ ts.length := by
  cases h with
  | empty hin => exact absurd hin hne
  | refused _ hr =>
    rw [haccepted] at hr
    cases hr
  | finished _ _ hdone =>
    obtain ⟨hcomplete, -⟩ := hdone
    have hone := hcomplete.length_eq_one_iff
    have hpos : ts.length ≠ 0 := by
      obtain ⟨ys, -, hys, -⟩ := hcomplete
      simp [hys]
    rw [hgoes] at hone
    simp only [Bool.false_eq_true, iff_false] at hone
    omega
  | exhausted _ _ _ hlen =>
    rw [← hlen] at hroom
    exact_mod_cast hroom

/-- A request ends in one way only. -/
theorem Outcome.unique {ts ts' : List TokenId} {status status' : SequenceStatus}
    {phase phase' : StreamPhase} (h : S.Outcome refusal noRoom q ts status phase)
    (h' : S.Outcome refusal noRoom q ts' status' phase') :
    ts = ts' ∧ status = status' ∧ phase = phase' := by
  cases h with
  | empty hin =>
    cases h' with
    | empty => exact ⟨rfl, rfl, rfl⟩
    | refused hne | finished hne | exhausted hne => exact absurd hin hne
  | refused hne hr =>
    cases h' with
    | empty hin => exact absurd hin hne
    | refused _ hr' =>
      rw [hr, Option.some.injEq] at hr'
      exact ⟨rfl, rfl, by rw [hr']⟩
    | finished _ hr' | exhausted _ hr' =>
      rw [hr] at hr'
      cases hr'
  | finished hne hr hdone =>
    cases h' with
    | empty hin => exact absurd hin hne
    | refused _ hr' =>
      rw [hr] at hr'
      cases hr'
    | finished _ _ hdone' =>
      rw [eq_reference_of_complete hdone.1, eq_reference_of_complete hdone'.1]
      exact ⟨rfl, rfl, rfl⟩
    | exhausted _ _ hrun hlen =>
      have hlt := hrun.length_lt hdone.1
      have hle := hdone.2
      rw [← hlen, Nat.cast_le] at hle
      omega
  | exhausted hne hr hrun hlen =>
    cases h' with
    | empty hin => exact absurd hin hne
    | refused _ hr' =>
      rw [hr] at hr'
      cases hr'
    | finished _ _ hdone =>
      have hlt := hrun.length_lt hdone.1
      have hle := hdone.2
      rw [← hlen, Nat.cast_le] at hle
      omega
    | exhausted _ _ hrun' hlen' =>
      have hsame : ts.length = ts'.length := Nat.cast_inj.1 (hlen.trans hlen'.symm)
      exact ⟨hrun.eq_of_length hrun' hsame, rfl, rfl⟩

/-- How a request ends depends on its prompt, and on what the tokens depend on. -/
theorem Outcome.transfer {q' : Sequence} {ts : List TokenId} {status : SequenceStatus}
    {phase : StreamPhase} (h : S.Outcome refusal noRoom q ts status phase)
    (hin : q'.inputIds = q.inputIds) (hnext : S.next q' = S.next q) (hstop : S.stop q' = S.stop q)
    (hroom : S.room q' = S.room q) : S.Outcome refusal noRoom q' ts status phase := by
  cases h with
  | empty h => exact .empty (hin.trans h)
  | refused hne h => exact .refused (hin ▸ hne) (hin ▸ h)
  | finished hne h hdone =>
    refine .finished (hin ▸ hne) (hin ▸ h) ?_
    rw [IsDone, hnext, hstop, hroom]
    exact hdone
  | exhausted hne h hrun hlen =>
    refine .exhausted (hin ▸ hne) (hin ▸ h) ?_ (hlen.trans hroom.symm)
    rw [hnext, hstop]
    exact hrun

theorem Outcome.congr {q' : Sequence} {ts : List TokenId} {status : SequenceStatus}
    {phase : StreamPhase} (h : S.Outcome refusal noRoom q ts status phase)
    (hreq : q'.request = q.request) : S.Outcome refusal noRoom q' ts status phase :=
  h.transfer (Sequence.inputIds_of_request hreq) (S.next_of_request hreq) (stop_of_request hreq)
    (S.room_of_request hreq)

/-- The tokens that a request has still to be prefilled or to generate, at the most. -/
def remaining (q : Sequence) : ℕ :=
  (q.inputIds.length - q.numScheduledTokens) + (max 1 q.maxNewTokens - q.outputIds.length)

/-! ## A batch -/

/-- A batch can be built for a prompt that is not empty. -/
theorem exists_buildBatch (sch : InteractiveScheduler) (hne : q.inputIds ≠ []) :
    ∃ batch, sch.buildBatch none q = .ok batch := by
  unfold InteractiveScheduler.buildBatch
  by_cases hc : q.isPrefillComplete = true
  · rw [if_pos hc]
    obtain ⟨t, ht⟩ := Option.ne_none_iff_exists'.1 (mt List.getLast?_eq_none_iff.1 hne)
    unfold BatchBuilder.buildDecode
    by_cases hout : q.outputIds = []
    · simp [hout, ht]
    · obtain ⟨u, hu⟩ := Option.ne_none_iff_exists'.1 (mt List.getLast?_eq_none_iff.1 hout)
      simp [hout, hu]
  · rw [if_neg hc]
    exact ⟨_, rfl⟩

/-- No batch can be built for an empty prompt. -/
theorem buildBatch_empty (sch : InteractiveScheduler) (hin : q.inputIds = [])
    (hout : q.outputIds = []) (hprompt : q.numPromptTokens = q.inputIds.length) :
    sch.buildBatch none q = .error ⟨.indexError, "list index out of range"⟩ := by
  have hc : q.isPrefillComplete = true := by
    rw [Sequence.isPrefillComplete_iff, hprompt, hin]
    exact Nat.zero_le _
  rw [InteractiveScheduler.buildBatch, if_pos hc, BatchBuilder.buildDecode]
  simp [hin, hout]

variable {c c' : BatchContext σ} {batch : Batch} {r : Except PyError (List Text)}

/-- A batch gets the request further or raises, and what it raises ends the request. -/
theorem executed_served (hS : S.Serves ex refusal noRoom)
    (h : BatchContext.Executed ex c batch r c') {sch : InteractiveScheduler}
    (hb : sch.buildBatch none c.sequence = .ok batch) (habout : S.About c.sequence)
    (hne : c.sequence.inputIds ≠ []) (hrunning : c.sequence.status = .running)
    (ht : S.Tracks c.executor c.sequence) :
    ((∃ texts, r = .ok texts) ∧ remaining c'.sequence < remaining c.sequence ∧
      (c'.sequence.status = .running ∨
        c'.sequence.status = .finished ∧ refusal c.sequence.inputIds = none)) ∨
    ∃ e, r = .error e ∧ remaining c'.sequence = remaining c.sequence ∧ S.Outcome refusal noRoom
      c.sequence c'.sequence.outputIds c'.sequence.status (.raised e) := by
  have hlive : c.sequence.isTerminal = false := by
    rw [Sequence.isTerminal, hrunning]
    rfl
  have habout' : ∀ env : ExecutorEnv σ, S.About (c.setEnv env).sequence := fun env =>
    S.about_of_request (c.request_setEnv env) habout
  cases h with
  | skipped hs =>
    rw [hrunning] at hs
    cases hs
  | attachFailed hs hstate hkv hpaged =>
    rw [hS.paged] at hpaged
    cases hpaged
  | @prefillFailed e batch' env env' hs hbp ha he =>
    have hrefused := hS.refused _ batch' env e (habout' env) (ht.setEnv ha.state)
      (ha.inputIds ▸ ht.chunk hb hbp) (by rw [he])
    have hlt : c.sequence.numScheduledTokens < c.sequence.inputIds.length := by
      refine lt_of_le_of_ne ht.progress fun hall => ?_
      have haccepted := hS.accepted _ _ habout ht hall
      rw [show refusal c.sequence.inputIds = some e from hrefused] at haccepted
      cases haccepted
    refine .inr ⟨e, rfl, rfl, ?_⟩
    dsimp only [BatchContext.setEnv]
    rw [ht.outputs_eq_nil hlt, hrunning]
    exact .refused hne hrefused
  | @prefilled batch' env env' r c' hs hbp ha he hc =>
    have hpos := (PrefillMachine.buildBatch_chunk hb hbp ht.prompt).2.1
    have hlen := (ht.chunk hb hbp).length_le
    rw [← ha.inputIds] at hpos hlen
    rw [List.length_drop] at hlen
    rw [Sequence.postprocessBatch_prefill (s := (c.setEnv env').sequence) hs
      (ha.phase.trans hbp)] at hc
    rw [BatchContext.cachePrefix, if_neg (by simp [hS.uncached])] at hc
    cases hc
    refine .inl ⟨⟨[], rfl⟩, ?_, .inl hrunning⟩
    unfold remaining
    dsimp only [BatchContext.setEnv]
    omega
  | @decodeFailed e batch' env env' o hs hbp ha he ho =>
    have ht' := ht.setEnv ha.state
    have hdone := ht.prefilled hb hbp
    have hok := hS.decodes _ batch' env (habout' env) ht' hdone
    rw [he] at hok
    rcases ho with rfl | rfl
    · obtain ⟨rfl, hroom⟩ := hS.exhausted _ batch' env e (habout' env) ht' hdone (by rw [he])
      have haccepted := hS.accepted _ _ habout ht hdone
      have hroom' : S.room c.sequence ≤ c.sequence.outputIds.length :=
        (S.room_of_request (c.request_setEnv env)) ▸ hroom
      refine .inr ⟨e, rfl, rfl, ?_⟩
      dsimp only [BatchContext.setEnv]
      rw [hrunning]
      exact .exhausted hne haccepted ht.running (le_antisymm ht.fits hroom')
    · obtain ⟨xs, hxs, -⟩ := hok
      cases hxs
  | @decoded batch' env env' o samples hs hbp ha he hn =>
    have hdone := ht.prefilled hb hbp
    have hok := hS.decodes _ batch' env (habout' env) (ht.setEnv ha.state) hdone
    rw [he] at hok
    obtain ⟨xs, hxs, hxne, hchunk, -⟩ := hok
    rw [hn, Except.ok.injEq] at hxs
    subst hxs
    have hlive' : (c.setEnv env').sequence.isTerminal = false := hlive
    rw [stop_of_request (c.request_setEnv env), ← stop_of_request (c.request_setEnv env')] at hchunk
    obtain ⟨hall, hfin⟩ := Chunk.consumed hlive' hchunk
    have hpos := List.length_pos_of_ne_nil hxne
    have hlt := length_lt_of_running ht.running
    have hless : ∀ q : Sequence, q.inputIds = c.sequence.inputIds →
        q.numScheduledTokens = c.sequence.numScheduledTokens →
        q.maxNewTokens = c.sequence.maxNewTokens →
        q.outputIds = c.sequence.outputIds ++ samples.map SampleResult.tokenId →
        remaining q < remaining c.sequence := by
      intro q hin hsched hmax hout
      unfold remaining
      rw [hin, hsched, hmax, hout, List.length_append, List.length_map]
      omega
    refine .inl ⟨⟨_, rfl⟩, ?_⟩
    dsimp only
    rw [consumeSamples_spec samples _ c.metrics hlive', hall]
    dsimp only
    split_ifs
    · exact ⟨hless _ rfl rfl rfl rfl, .inr ⟨rfl, hS.accepted _ _ habout ht hdone⟩⟩
    · exact ⟨hless _ rfl rfl rfl rfl, .inl hrunning⟩

/-- A relation between the executor's state and the tokens of the request that its calls keep. -/
structure Preserves (S : Simulation σ) (ex : ModelExecutor σ) (R : σ → Sequence → Prop) :
    Prop where
  congr : ∀ {st : σ} {q q' : Sequence}, q'.request = q.request → q'.outputIds = q.outputIds →
    R st q → R st q'
  prefill : ∀ (q : Sequence) (batch : Batch) (env : ExecutorEnv σ), S.About q →
    S.Tracks env.state q → R env.state q → R (ex.forwardPrefill q batch env).2.state q
  decodeFailed : ∀ (q : Sequence) (batch : Batch) (env : ExecutorEnv σ) (e : PyError), S.About q →
    S.Tracks env.state q → q.numScheduledTokens = q.inputIds.length → R env.state q →
    (ex.forwardDecode q batch env).1 = .error e → R (ex.forwardDecode q batch env).2.state q
  decoded : ∀ (q : Sequence) (batch : Batch) (env : ExecutorEnv σ) (output : DecodeOutput)
    (xs : List SampleResult), S.About q → S.Tracks env.state q →
    q.numScheduledTokens = q.inputIds.length → R env.state q →
    (ex.forwardDecode q batch env).1 = .ok output → normalizeSamples output = .ok xs →
    R (ex.forwardDecode q batch env).2.state
      { q with outputIds := q.outputIds ++ xs.map SampleResult.tokenId }

/-- A batch keeps what the calls keep. -/
theorem Preserves.executed {R : σ → Sequence → Prop} (hR : Preserves S ex R)
    (hS : S.Serves ex refusal noRoom) (h : BatchContext.Executed ex c batch r c')
    {sch : InteractiveScheduler} (hb : sch.buildBatch none c.sequence = .ok batch)
    (habout : S.About c.sequence) (hrunning : c.sequence.status = .running)
    (ht : S.Tracks c.executor c.sequence) (hc : R c.executor c.sequence) :
    R c'.executor c'.sequence := by
  have hstart : ∀ (env : ExecutorEnv σ), env.state = c.executor →
      S.About (c.setEnv env).sequence ∧ S.Tracks env.state (c.setEnv env).sequence ∧
        R env.state (c.setEnv env).sequence := fun env hstate => by
    refine ⟨S.about_of_request (c.request_setEnv env) habout, ht.setEnv hstate, ?_⟩
    rw [hstate]
    exact hR.congr (c.request_setEnv env) rfl hc
  have hlive : c.sequence.isTerminal = false := by
    rw [Sequence.isTerminal, hrunning]
    rfl
  cases h with
  | skipped hs => exact hc
  | attachFailed hs hstate hkv hpaged => exact (hstart _ hstate).2.2
  | @prefillFailed e batch' env env' hs hbp ha he =>
    obtain ⟨habout', ht', hc'⟩ := hstart env ha.state
    have hkept := hR.prefill _ batch' env habout' ht' hc'
    rw [he] at hkept
    exact hR.congr (by rfl) (by rfl) hkept
  | @prefilled batch' env env' r c' hs hbp ha he hcache =>
    obtain ⟨habout', ht', hc'⟩ := hstart env ha.state
    have hkept := hR.prefill _ batch' env habout' ht' hc'
    rw [he] at hkept
    rw [Sequence.postprocessBatch_prefill (s := (c.setEnv env').sequence) hs
      (ha.phase.trans hbp), BatchContext.cachePrefix, if_neg (by simp [hS.uncached])] at hcache
    cases hcache
    exact hR.congr (by rfl) (by rfl) hkept
  | @decodeFailed e batch' env env' o hs hbp ha he ho =>
    obtain ⟨habout', ht', hc'⟩ := hstart env ha.state
    have hdone := ht.prefilled hb hbp
    rcases ho with rfl | rfl
    · have hkept := hR.decodeFailed _ batch' env e habout' ht' hdone hc' (by rw [he])
      rw [he] at hkept
      exact hR.congr (by rfl) (by rfl) hkept
    · have hok := hS.decodes _ batch' env habout' ht' hdone
      rw [he] at hok
      obtain ⟨xs, hxs, -⟩ := hok
      cases hxs
  | @decoded batch' env env' o samples hs hbp ha he hn =>
    obtain ⟨habout', ht', hc'⟩ := hstart env ha.state
    have hdone := ht.prefilled hb hbp
    have hkept := hR.decoded _ batch' env o samples habout' ht' hdone hc' (by rw [he]) hn
    have hok := hS.decodes _ batch' env habout' ht' hdone
    rw [he] at hkept hok
    obtain ⟨xs, hxs, -, hchunk, -⟩ := hok
    rw [hn, Except.ok.injEq] at hxs
    subst hxs
    have hlive' : (c.setEnv env').sequence.isTerminal = false := hlive
    rw [stop_of_request (c.request_setEnv env), ← stop_of_request (c.request_setEnv env')] at hchunk
    obtain ⟨hall, -⟩ := Chunk.consumed hlive' hchunk
    dsimp only
    rw [consumeSamples_spec samples _ c.metrics hlive', hall]
    dsimp only
    split_ifs
    · exact hR.congr (by rfl) (by rfl) hkept
    · exact hR.congr (by rfl) (by rfl) hkept

/-! ## The turns of the stream -/

variable (S refusal noRoom) in
/-- Where a request is, with the phase of its stream. -/
inductive Stage (q : Sequence) (phase : StreamPhase) : Prop
  | live (hturns : 0 < phase.turns) (h : q.isTerminal = false)
      (hempty : q.inputIds = [] → q.outputIds = [])
  | finished (hturns : 0 < phase.turns) (h : q.status = .finished) (hne : q.inputIds ≠ [])
      (hr : refusal q.inputIds = none)
  | ended (h : S.Outcome refusal noRoom q q.outputIds q.status phase)

variable (S refusal noRoom) in
/-- The server has no request but `id`, which was added as `q₀`. -/
structure Alone (id : SeqId) (q₀ : Sequence) (s : ServerState σ) : Prop where
  sound : s.Sound
  tracked : S.Tracked id s.runtime
  others : ∀ i, i ≠ id → s.runtime.scheduler.get i = none
  stage : ∃ q, s.runtime.scheduler.get id = some q ∧ q.request = q₀.request ∧
    S.Stage refusal noRoom q (s.streams id).phase

/-- What every turn lowers : a batch has fewer tokens left after it, and the texts of a decode
get fewer. -/
def workLeft (id : SeqId) (s : ServerState σ) : ℕ ×ₗ ℕ :=
  toLex (((s.runtime.scheduler.get id).map remaining).getD 0, (s.streams id).phase.turns)

theorem workLeft_lt_of_remaining {id : SeqId} {s s' : ServerState σ} {q' : Sequence}
    (hq : s.runtime.scheduler.get id = some q) (hq' : s'.runtime.scheduler.get id = some q')
    (h : remaining q' < remaining q) : workLeft id s' < workLeft id s := by
  rw [workLeft, workLeft, hq, hq']
  exact Prod.Lex.toLex_lt_toLex.2 (.inl h)

theorem workLeft_lt_of_turns {id : SeqId} {s s' : ServerState σ} {q' : Sequence}
    (hq : s.runtime.scheduler.get id = some q) (hq' : s'.runtime.scheduler.get id = some q')
    (h : remaining q' = remaining q) (hturns : (s'.streams id).phase.turns <
      (s.streams id).phase.turns) : workLeft id s' < workLeft id s := by
  rw [workLeft, workLeft, hq, hq']
  exact Prod.Lex.toLex_lt_toLex.2 (.inr ⟨h, hturns⟩)

theorem Serves.decodesOk (hS : S.Serves ex refusal noRoom) (id : SeqId) (rt : RuntimeCore σ) :
    S.DecodesOk ex id rt := by
  intro s _ _ habout ht hdone batch env henv _
  have hreq : ((rt.context s.scheduled).setEnv env).sequence.request = s.request := rfl
  have ht' := ht.congr hreq rfl rfl
  rw [← show env.state = rt.executor from henv] at ht'
  exact hS.decodes _ batch env (S.about_of_request hreq habout) ht' hdone

variable {id : SeqId} {q₀ : Sequence} {s : ServerState σ}

/-- The one live request is selected. -/
theorem Alone.selected (h : S.Alone refusal noRoom id q₀ s)
    (hq : s.runtime.scheduler.get id = some q) (hlive : q.isTerminal = false) :
    s.runtime.scheduler.selectNextSequence = some q := by
  have hwf := h.sound.runtime.wellFormed
  have hid : q.seqId = id := hwf.seqId_eq _ _ hq
  obtain ⟨sel, hsel⟩ := InteractiveScheduler.exists_selected (hwf.mem_candidates.2
    ⟨hid ▸ hq, hlive⟩)
  obtain ⟨hget, -⟩ := hwf.selectNextSequence hsel
  have hsame : sel.seqId = id := by
    by_contra hne
    have hnone := h.others sel.seqId hne
    rw [InteractiveScheduler.get, hget] at hnone
    cases hnone
  rw [hsame] at hget
  rw [hsel, ← hget]
  exact hq

theorem Alone.tracked_step (h : S.Alone refusal noRoom id q₀ s)
    (hS : S.Serves ex refusal noRoom) : S.Tracked id (s.step ex (.resume id)).runtime := by
  refine h.tracked.step hS.toSimulates h.sound _ fun _ => ⟨hS.decodesOk id s.runtime, ?_⟩
  intro sel batch r c hsel hid
  obtain ⟨hget, -⟩ := h.sound.runtime.wellFormed.selectNextSequence hsel
  have hnone := h.others sel.seqId hid
  rw [InteractiveScheduler.get, hget] at hnone
  cases hnone

theorem Outcome.turns {ts : List TokenId} {status : SequenceStatus} {phase : StreamPhase}
    (h : S.Outcome refusal noRoom q ts status phase) : phase.turns = 0 := by
  cases h <;> rfl

theorem Stage.going_on {phase phase' : StreamPhase} (h : S.Stage refusal noRoom q phase)
    (hturns : 0 < phase.turns) (hturns' : 0 < phase'.turns) : S.Stage refusal noRoom q phase' := by
  cases h with
  | live _ hlive hempty => exact .live hturns' hlive hempty
  | finished _ hfin hne hr => exact .finished hturns' hfin hne hr
  | ended hout => exact absurd hout.turns hturns.ne'

/-- What is left to be shown of a turn that writes back the request. -/
theorem Alone.put {s' : ServerState σ} (h : S.Alone refusal noRoom id q₀ s)
    (hs : s'.Sound) (ht : S.Tracked id s'.runtime) {t : Sequence} (hid : t.seqId = id)
    (hsched : s'.runtime.scheduler = s.runtime.scheduler.put t) (hreq : t.request = q₀.request)
    (hstage : S.Stage refusal noRoom t (s'.streams id).phase) :
    S.Alone refusal noRoom id q₀ s' ∧ s'.runtime.scheduler.get id = some t := by
  have hself : s'.runtime.scheduler.get id = some t := by
    rw [hsched, ← hid]
    exact InteractiveScheduler.get_put t
  refine ⟨⟨hs, ht, fun i hi => ?_, t, hself, hreq, hstage⟩, hself⟩
  rw [hsched, InteractiveScheduler.get_put_of_ne (by rwa [hid])]
  exact h.others i hi

/-- A turn that executes a batch. -/
theorem Alone.step_live (h : S.Alone refusal noRoom id q₀ s) (hS : S.Serves ex refusal noRoom)
    (hprompt : q₀.numPromptTokens = q₀.inputIds.length) (habout : q₀.inputIds ≠ [] → S.About q₀)
    (hq : s.runtime.scheduler.get id = some q) (hreq : q.request = q₀.request)
    (hloop : (s.streams id).phase = .loop) (hlive : q.isTerminal = false)
    (hempty : q.inputIds = [] → q.outputIds = []) :
    S.Alone refusal noRoom id q₀ (s.step ex (.resume id)) ∧
      workLeft id (s.step ex (.resume id)) < workLeft id s := by
  have htracked := h.tracked_step hS
  have hsound := (h.sound.step (.resume id) : (s.step ex (.resume id)).Sound)
  have hwf := h.sound.runtime.wellFormed
  have hid : q.seqId = id := hwf.seqId_eq _ _ hq
  have hturns : (s.streams id).phase.turns = 1 := by
    rw [hloop]
    rfl
  have hselected := h.selected hq hlive
  have hprompt' : q.scheduled.numPromptTokens = q.scheduled.inputIds.length :=
    (Sequence.numPromptTokens_of_request hreq).trans
      (hprompt.trans (congrArg List.length (Sequence.inputIds_of_request hreq).symm))
  have hres := ServerState.resumed ex s hwf id
  simp only [ServerState.step] at htracked hsound ⊢
  generalize s.resume ex id = s' at hres htracked hsound ⊢
  cases hres with
  | idle hidle =>
    rcases hidle with hnone | hphase | hnone
    · rw [hq] at hnone
      cases hnone
    · exact absurd hloop hphase
    · rw [hselected] at hnone
      cases hnone
  | emitted hphase =>
    rw [hloop] at hphase
    cases hphase
  | drained hq' hdone =>
    rw [hq, Option.some.injEq] at hq'
    subst hq'
    rw [hlive] at hdone
    cases hdone
  | @buildFailed q' sel e hq' hlive' hloop' hsel hb =>
    obtain rfl : q = sel := Option.some.inj (hselected.symm.trans hsel)
    have hin : q.inputIds = [] := by
      by_contra hne
      obtain ⟨batch, hok⟩ := exists_buildBatch (q := q.scheduled) s.runtime.scheduler hne
      rw [hb] at hok
      cases hok
    have hb' := buildBatch_empty (q := q.scheduled) s.runtime.scheduler hin (hempty hin) hprompt'
    rw [hb, Except.error.injEq] at hb'
    subst hb'
    have hstage : S.Stage refusal noRoom q.scheduled
        (.raised ⟨.indexError, "list index out of range"⟩) := by
      refine .ended ?_
      rw [show q.scheduled.outputIds = [] from hempty hin]
      exact .empty hin
    obtain ⟨halone, hget⟩ := h.put hsound htracked (t := q.scheduled) hid rfl hreq
      (by simpa [ServerState.setStream] using hstage)
    refine ⟨halone, workLeft_lt_of_turns hq hget rfl ?_⟩
    rw [hturns]
    simp [ServerState.setStream, StreamPhase.turns]
  | @executed q' sel batch r c hq' hlive' hloop' hsel hb hx =>
    obtain rfl : q = sel := Option.some.inj (hselected.symm.trans hsel)
    have hx := BatchContext.executed_of_eq hx
    have hreq' : q.scheduled.request = q₀.request := hreq
    have hne : q.scheduled.inputIds ≠ [] := fun hin => by
      have hb' := buildBatch_empty (q := q.scheduled) s.runtime.scheduler hin (hempty hin) hprompt'
      rw [hb] at hb'
      cases hb'
    have habout₀ : S.About q₀ := habout fun hin =>
      hne ((Sequence.inputIds_of_request hreq').trans hin)
    have ht : S.Tracks s.runtime.executor q.scheduled :=
      (h.tracked.live q hq (S.about_of_request hreq habout₀) hlive).congr rfl rfl rfl
    have hcseq : c.sequence.seqId = id := hx.seqId.trans hid
    have hcreq : c.sequence.request = q.scheduled.request := hx.request
    have hcin : c.sequence.inputIds = q.scheduled.inputIds := Sequence.inputIds_of_request hcreq
    have hown : decide (q.seqId = id) = true := decide_eq_true hid
    rcases executed_served hS hx hb (S.about_of_request hreq' habout₀) hne rfl ht with
      ⟨⟨texts, rfl⟩, hlt, hstatus⟩ | ⟨e, rfl, hsame, hout⟩
    · have hstage : S.Stage refusal noRoom c.sequence ((s.streams id).emit texts).phase := by
        have hgoes : 0 < ((s.streams id).emit texts).phase.turns := by
          rw [StreamState.emit_turns]
          exact Nat.succ_pos _
        rcases hstatus with hrun | ⟨hfin, hr⟩
        · exact .live hgoes (by rw [Sequence.isTerminal, hrun]; rfl)
            fun hin => absurd (hcin.symm.trans hin) hne
        · exact .finished hgoes hfin (hcin ▸ hne) (hcin ▸ hr)
      obtain ⟨halone, hget⟩ := h.put hsound htracked (t := c.sequence) hcseq rfl
        (hcreq.trans hreq')
        (by simpa [ServerState.setStream, StreamState.afterBatch, hid] using hstage)
      exact ⟨halone, workLeft_lt_of_remaining hq hget hlt⟩
    · have hstage : S.Stage refusal noRoom c.sequence (.raised e) := .ended (hout.congr hcreq)
      obtain ⟨halone, hget⟩ := h.put hsound htracked (t := c.sequence) hcseq rfl
        (hcreq.trans hreq') (by simpa [ServerState.setStream, StreamState.afterBatch] using hstage)
      refine ⟨halone, workLeft_lt_of_turns hq hget hsame ?_⟩
      rw [hturns]
      simp [ServerState.setStream, StreamState.afterBatch, StreamPhase.turns]

/-- A turn of the stream gets it further, unless it is over. -/
theorem Alone.step (h : S.Alone refusal noRoom id q₀ s) (hS : S.Serves ex refusal noRoom)
    (hprompt : q₀.numPromptTokens = q₀.inputIds.length) (habout : q₀.inputIds ≠ [] → S.About q₀) :
    S.Alone refusal noRoom id q₀ (s.step ex (.resume id)) ∧
      ((s.streams id).phase.turns = 0 ∧ s.step ex (.resume id) = s ∨
        workLeft id (s.step ex (.resume id)) < workLeft id s) := by
  have htracked := h.tracked_step hS
  have hsound := (h.sound.step (.resume id) : (s.step ex (.resume id)).Sound)
  have hwf := h.sound.runtime.wellFormed
  obtain ⟨q, hq, hreq, hstage⟩ := h.stage
  have hid : q.seqId = id := hwf.seqId_eq _ _ hq
  have hstep : s.step ex (.resume id) = s.resume ex id := rfl
  cases hphase : (s.streams id).phase with
  | finished | raised | closed =>
    have hsame : s.resume ex id = s := by
      simp only [ServerState.resume, hq, hphase]
    rw [hstep, hsame]
    exact ⟨h, .inl ⟨rfl, rfl⟩⟩
  | yielding rest =>
    have hsame : s.resume ex id = s.setStream id ((s.streams id).emit rest) := by
      simp only [ServerState.resume, hq, hphase]
    have hphase' : ((s.setStream id ((s.streams id).emit rest)).streams id).phase =
        ((s.streams id).emit rest).phase := by
      simp [ServerState.setStream]
    rw [hphase] at hstage
    rw [hstep, hsame] at htracked hsound ⊢
    refine ⟨⟨hsound, htracked, h.others, q, hq, hreq, ?_⟩,
      .inr (workLeft_lt_of_turns hq hq rfl ?_)⟩
    · rw [hphase']
      refine hstage.going_on (Nat.succ_pos _) ?_
      rw [StreamState.emit_turns]
      exact Nat.succ_pos _
    · rw [hphase', hphase, StreamState.emit_turns]
      exact Nat.lt_succ_self _
  | loop =>
    rw [hphase] at hstage
    cases hstage with
    | live _ hlive hempty =>
      obtain ⟨halone, hlt⟩ := h.step_live hS hprompt habout hq hreq hphase hlive hempty
      exact ⟨halone, .inr hlt⟩
    | ended hout => exact absurd hout.turns Nat.one_ne_zero
    | finished _ hfin hne hr =>
      have hdone : q.isTerminal = true := q.isTerminal_iff.2 (.inl hfin)
      have hsame : s.resume ex id = { s with runtime := s.runtime.finishSequence q }.setStream id
          { s.streams id with phase := .finished } := by
        simp only [ServerState.resume, hq, hphase, ServerState.turn, hid, hdone, if_true]
      obtain ⟨b, hcore, -⟩ := RuntimeCore.finishSequence_core s.runtime q (hid ▸ hq)
      have habout₀ : S.About q := S.about_of_request hreq
        (habout ((Sequence.inputIds_of_request hreq) ▸ hne))
      have hout : S.Outcome refusal noRoom (RuntimeCore.withAppended q b) q.outputIds .finished
          .finished := .finished hne hr ((h.tracked.done q hq habout₀ hfin).congr rfl)
      rw [hstep, hsame] at htracked hsound ⊢
      obtain ⟨halone, hget⟩ := h.put hsound htracked (t := RuntimeCore.withAppended q b) hid
        hcore.scheduler hreq (by
          simp only [ServerState.setStream, Function.update_self]
          exact .ended (hfin ▸ hout))
      refine ⟨halone, .inr (workLeft_lt_of_turns hq hget rfl ?_)⟩
      rw [hphase]
      simp [ServerState.setStream, StreamPhase.turns]

/-- What the request has generated. -/
theorem Alone.outputs (h : S.Alone refusal noRoom id q₀ s) (hS : S.Serves ex refusal noRoom)
    (habout : S.About q₀) (hq : s.runtime.scheduler.get id = some q) :
    (q.outputIds ≠ [] → refusal q.inputIds = none) ∧
      (Generation.Running (S.next q) (S.stop q) q.outputIds ∧
          q.outputIds.length ≤ S.room q ∧ q.status ≠ .finished ∨ S.IsDone q q.outputIds) := by
  obtain ⟨q', hq', hreq, hstage⟩ := h.stage
  obtain rfl : q = q' := Option.some.inj (hq.symm.trans hq')
  have habout' := S.about_of_request hreq habout
  cases hstage with
  | live _ hlive =>
    have ht := h.tracked.live q hq habout' hlive
    refine ⟨fun hne => hS.accepted _ q habout' ht (ht.outputs hne),
      .inl ⟨ht.running, ht.fits, fun hfin => ?_⟩⟩
    rw [q.isTerminal_iff.2 (.inl hfin)] at hlive
    cases hlive
  | finished _ hfin _ hr => exact ⟨fun _ => hr, .inr (h.tracked.done q hq habout' hfin)⟩
  | ended hout =>
    generalize hts : q.outputIds = ts at hout
    generalize q.status = status at hout
    generalize (s.streams id).phase = phase at hout
    cases hout with
    | empty | refused =>
      exact ⟨fun hne => absurd rfl hne, .inl ⟨.nil, by simp, by simp⟩⟩
    | finished _ hr hdone => exact ⟨fun _ => hr, .inr hdone⟩
    | exhausted _ hr hrun hlen => exact ⟨fun _ => hr, .inl ⟨hrun, hlen.le, by simp⟩⟩

/-- A turn keeps what the calls keep. -/
theorem Alone.preserved {R : σ → Sequence → Prop} (h : S.Alone refusal noRoom id q₀ s)
    (hR : Preserves S ex R) (hS : S.Serves ex refusal noRoom) (habout : S.About q₀)
    (hkept : ∀ q, s.runtime.scheduler.get id = some q → R s.runtime.executor q) {q' : Sequence}
    (hq' : (s.step ex (.resume id)).runtime.scheduler.get id = some q') :
    R (s.step ex (.resume id)).runtime.executor q' := by
  have hwf := h.sound.runtime.wellFormed
  obtain ⟨q, hq, hreq, -⟩ := h.stage
  have hid : q.seqId = id := hwf.seqId_eq _ _ hq
  have hres := ServerState.resumed ex s hwf id
  simp only [ServerState.step] at hq' ⊢
  generalize s.resume ex id = s' at hres hq'
  have hput : ∀ {sch : InteractiveScheduler} {t : Sequence}, t.seqId = id → sch.get id = some q' →
      sch = s.runtime.scheduler.put t → t = q' := by
    rintro sch t ht hget rfl
    rw [← ht, InteractiveScheduler.get_put] at hget
    exact Option.some.inj hget
  cases hres with
  | idle | emitted => exact hkept q' hq'
  | @drained u hu hdone =>
    obtain rfl : q = u := Option.some.inj (hq.symm.trans hu)
    obtain ⟨b, hcore, -⟩ := RuntimeCore.finishSequence_core s.runtime q (hid ▸ hq)
    obtain rfl := hput (t := RuntimeCore.withAppended q b) hid hq' hcore.scheduler
    have hexec : (s.runtime.finishSequence q).executor = s.runtime.executor := hcore.executor
    rw [ServerState.setStream_runtime, hexec]
    exact hR.congr (by rfl) (by rfl) (hkept q hq)
  | @buildFailed u sel e hu hlive hloop hsel =>
    obtain rfl : q = u := Option.some.inj (hq.symm.trans hu)
    obtain rfl : q = sel := Option.some.inj ((h.selected hq hlive).symm.trans hsel)
    obtain rfl := hput (t := q.scheduled) hid hq' rfl
    exact hR.congr (by rfl) (by rfl) (hkept q hq)
  | @executed u sel batch r c hu hlive hloop hsel hb hx =>
    obtain rfl : q = u := Option.some.inj (hq.symm.trans hu)
    obtain rfl : q = sel := Option.some.inj ((h.selected hq hlive).symm.trans hsel)
    have hx := BatchContext.executed_of_eq hx
    have hsame : q.scheduled.request = q.request := rfl
    have habout' := S.about_of_request hreq habout
    obtain rfl := hput (t := c.sequence) (hx.seqId.trans hid) hq' rfl
    exact hR.executed hS hx hb (S.about_of_request hsame habout') rfl
      ((h.tracked.live q hq habout' hlive).congr hsame rfl rfl)
      (hR.congr hsame rfl (hkept q hq))

end Simulation

/-! ## The run -/

section

variable {σ : Type} (ex : ModelExecutor σ) (config : RuntimeConfig) (st : σ) (request : Request)

/-- A server that has one request, after its stream was resumed `turns` times. -/
def served (id : SeqId) (turns : ℕ) : ServerState σ :=
  Transition.run (ServerState.step ex) (ServerState.init config st)
    (.addRequest request :: List.replicate turns (.resume id))

variable {ex config st request}

/-- What the server has before the first turn. -/
theorem served_zero (hcache : ex.supportsPrefixCache = false) {id : SeqId}
    (hadd : ((RuntimeCore.create config st).addRequest ex request).1 = .ok id) :
    ∃ sessionId inputIds,
      (served ex config st request id 0).runtime.scheduler.get id = some (request.sequence id
        sessionId inputIds { matchedTokens := 0, pages := [] } 0) ∧
      ∀ i, i ≠ id → (served ex config st request id 0).runtime.scheduler.get i = none := by
  have hs : (served ex config st request id 0).runtime =
      ((RuntimeCore.create config st).addRequest ex request).2 := rfl
  rw [hs]
  rcases RuntimeCore.addRequest_cases ex (.create config st) request with
    ⟨e, he, -⟩ | ⟨seqId, sessionId, inputIds, m, hok, -, -, -, hm, hsched, -⟩
  · rw [hadd] at he
    cases he
  · rw [hadd, Except.ok.injEq] at hok
    subst hok
    rw [hcache] at hm
    obtain rfl : m = { matchedTokens := 0, pages := [] } := congrArg Prod.fst hm
    rw [hsched]
    refine ⟨sessionId, inputIds, InteractiveScheduler.get_addSequence _ _, fun i hi => ?_⟩
    rw [InteractiveScheduler.get_addSequence_of_ne (by simpa using hi)]
    rfl

variable {S : Simulation σ} {refusal : List TokenId → Option PyError} {noRoom : PyError}

/-- Adding a request leaves the executor alone. -/
theorem served_zero_executor (id : SeqId) :
    (served ex config st request id 0).runtime.executor = st := by
  have hwf := (ServerState.sound_init config st).runtime.wellFormed
  have hchange := ServerState.step_change ex (ServerState.init config st) hwf (.addRequest request)
  have hs : served ex config st request id 0 =
    (ServerState.init config st).step ex (.addRequest request) := rfl
  rw [hs]
  cases hchange with
  | quiet h => exact h.executor
  | added _ _ _ _ _ _ _ _ _ _ _ hexec => exact hexec

theorem served_succ (id : SeqId) (turns : ℕ) : served ex config st request id (turns + 1) =
    (served ex config st request id turns).step ex (.resume id) := by
  rw [served, List.replicate_succ', ← List.cons_append, Transition.run_concat]
  rfl

/-- A stream that is over stays so. -/
theorem served_of_finished {id : SeqId} {turns n : ℕ} {q : Sequence}
    (hq : (served ex config st request id turns).runtime.scheduler.get id = some q)
    (hover : ((served ex config st request id turns).streams id).phase = .finished)
    (hn : turns ≤ n) :
    served ex config st request id n = served ex config st request id turns := by
  induction n, hn using Nat.le_induction with
  | base => rfl
  | succ n _ ih =>
    rw [served_succ, ih]
    simp only [ServerState.step, ServerState.resume, hq, hover]

/-- The server has one request in every turn. -/
theorem served_alone (hS : S.Serves ex refusal noRoom) (hshared : S.Shared st)
    {id : SeqId} (habsent : S.Absent st id)
    (hadd : ((RuntimeCore.create config st).addRequest ex request).1 = .ok id) {q₀ : Sequence}
    (hq₀ : (served ex config st request id 0).runtime.scheduler.get id = some q₀)
    (habout : q₀.inputIds ≠ [] → S.About q₀) (turns : ℕ) :
    S.Alone refusal noRoom id q₀ (served ex config st request id turns) := by
  obtain ⟨sessionId, inputIds, hget, hothers⟩ := served_zero hS.uncached hadd
  obtain rfl : q₀ = request.sequence id sessionId inputIds
    { matchedTokens := 0, pages := [] } 0 := Option.some.inj (hq₀.symm.trans hget)
  induction turns with
  | zero =>
    refine ⟨ServerState.sound_run ex config st _, ?_, hothers, _, hq₀, rfl, ?_⟩
    · refine Simulation.tracked_run hS.toSimulates (P := fun _ e => e = .addRequest request) ?_
        config hshared habsent ⟨rfl, trivial⟩
      rintro s e - - rfl ⟨i, q, hturn, -⟩
      cases hturn
    · exact .live Nat.one_pos rfl fun _ => rfl
  | succ turns ih =>
    rw [served_succ]
    exact (ih.step hS rfl habout).1

/-- A request that is served alone comes to its outcome, and the server stays there. -/
theorem served_settles (hS : S.Serves ex refusal noRoom) (hshared : S.Shared st)
    {id : SeqId} (habsent : S.Absent st id)
    (hadd : ((RuntimeCore.create config st).addRequest ex request).1 = .ok id) {q₀ : Sequence}
    (hq₀ : (served ex config st request id 0).runtime.scheduler.get id = some q₀)
    (habout : q₀.inputIds ≠ [] → S.About q₀) :
    ∃ N t, (∀ n ≥ N, served ex config st request id n = t) ∧
      ∃ q, t.runtime.scheduler.get id = some q ∧ q.request = q₀.request ∧
        S.Outcome refusal noRoom q₀ q.outputIds q.status (t.streams id).phase := by
  obtain ⟨sessionId, inputIds, hget, hothers⟩ := served_zero hS.uncached hadd
  obtain rfl : q₀ = request.sequence id sessionId inputIds
    { matchedTokens := 0, pages := [] } 0 := Option.some.inj (hq₀.symm.trans hget)
  have hstart := served_alone hS hshared habsent hadd hq₀ habout 0
  obtain ⟨N, t, ht, hdone, hrun⟩ := Transition.run_replicate_settles (Simulation.workLeft id)
    (fun _ hs => (Simulation.Alone.step hs hS rfl habout).1)
    (fun _ hs => (Simulation.Alone.step hs hS rfl habout).2) hstart
  refine ⟨N, t, hrun, ?_⟩
  obtain ⟨q, hq, hreq, hstage⟩ := ht.stage
  refine ⟨q, hq, hreq, ?_⟩
  cases hstage with
  | live hturns | finished hturns => exact absurd hdone hturns.ne'
  | ended hout => exact hout.congr hreq.symm

/-- What the calls for the request keep holds in every turn. -/
theorem served_preserves {R : σ → Sequence → Prop} (hR : Simulation.Preserves S ex R)
    (hS : S.Serves ex refusal noRoom) (hshared : S.Shared st) {id : SeqId}
    (habsent : S.Absent st id)
    (hadd : ((RuntimeCore.create config st).addRequest ex request).1 = .ok id) {q₀ : Sequence}
    (hq₀ : (served ex config st request id 0).runtime.scheduler.get id = some q₀)
    (habout : S.About q₀) (hzero : R (served ex config st request id 0).runtime.executor q₀)
    (turns : ℕ) {q : Sequence}
    (hq : (served ex config st request id turns).runtime.scheduler.get id = some q) :
    R (served ex config st request id turns).runtime.executor q := by
  induction turns generalizing q with
  | zero =>
    obtain rfl : q₀ = q := Option.some.inj (hq₀.symm.trans hq)
    exact hzero
  | succ turns ih =>
    rw [served_succ] at hq ⊢
    exact (served_alone hS hshared habsent hadd hq₀ (fun _ => habout) turns).preserved hR hS habout
      (fun q hq => ih hq) hq

end

end SoloRT
