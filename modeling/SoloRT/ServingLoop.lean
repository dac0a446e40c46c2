import SoloRT.ChunkedPrefill
import SoloRT.StreamText
import Mathlib.Algebra.BigOperators.Group.Finset.Piecewise
import Mathlib.Algebra.Order.BigOperators.Group.Finset
import Mathlib.Algebra.Order.Floor.Div

/-!
# The serving loop ends within its budget

The serving loop builds the next batch and executes it, again and again, while sequences may be
cancelled in between. A live sequence has prefill chunks and tokens left (`Sequence.liveLeft`).
A batch that is executed takes one of them from the selected sequence, whichever the priorities
choose, and leaves the other sequences alone. So the batches of a run are at most what all
sequences had left in the beginning (`Looping.run`).

What a sequence has generated are the samples returned for it, up to the first that ends it
(`cutSamples`) : the samples of a burst that come after it are dropped.
-/

namespace SoloRT

/-- The samples up to the first that ends the sequence, where `n` tokens were generated before. -/
def cutSamples (q : Sequence) : ℕ → List SampleResult → List SampleResult
  | _, [] => []
  | n, x :: xs =>
    if q.stopTokenIds.contains x.tokenId || x.finished || decide (q.maxNewTokens ≤ n + 1) then [x]
    else x :: cutSamples q (n + 1) xs

/-- No sample ends the sequence, where `n` tokens were generated before. -/
def Unended (q : Sequence) : ℕ → List SampleResult → Prop
  | _, [] => True
  | n, x :: xs => q.stopTokenIds.contains x.tokenId = false ∧ x.finished = false ∧
    n + 1 < q.maxNewTokens ∧ Unended q (n + 1) xs

section

variable {q q' : Sequence}

theorem cutSamples_of_request (h : q'.request = q.request) (n : ℕ) (xs : List SampleResult) :
    cutSamples q' n xs = cutSamples q n xs := by
  have hstop : q'.stopTokenIds = q.stopTokenIds :=
    show q'.request.stopTokenIds = q.request.stopTokenIds from congrArg _ h
  induction xs generalizing n with
  | nil => rfl
  | cons x xs ih => rw [cutSamples, cutSamples, hstop, Sequence.maxNewTokens_of_request h, ih]

theorem unended_of_request (h : q'.request = q.request) {n : ℕ} {xs : List SampleResult}
    (hxs : Unended q n xs) : Unended q' n xs := by
  have hstop : q'.stopTokenIds = q.stopTokenIds :=
    show q'.request.stopTokenIds = q.request.stopTokenIds from congrArg _ h
  induction xs generalizing n with
  | nil => trivial
  | cons x xs ih =>
    rw [Unended, hstop, Sequence.maxNewTokens_of_request h]
    exact ⟨hxs.1, hxs.2.1, hxs.2.2.1, ih hxs.2.2.2⟩

theorem unended_append {n : ℕ} {xs ys : List SampleResult} :
    Unended q n (xs ++ ys) ↔ Unended q n xs ∧ Unended q (n + xs.length) ys := by
  induction xs generalizing n with
  | nil => simp [Unended]
  | cons x xs ih => simp [Unended, ih, and_assoc, Nat.add_assoc, Nat.add_comm 1]

/-- A cut goes on after samples that do not end the sequence. -/
theorem Unended.cutSamples_append {n : ℕ} {xs : List SampleResult} (h : Unended q n xs)
    (ys : List SampleResult) :
    cutSamples q n (xs ++ ys) = xs ++ cutSamples q (n + xs.length) ys := by
  induction xs generalizing n with
  | nil => rfl
  | cons x xs ih =>
    obtain ⟨hstop, hfin, hlt, hxs⟩ := h
    have hle : ¬q.maxNewTokens ≤ n + 1 := by omega
    rw [List.cons_append, cutSamples, hstop, hfin, decide_eq_false hle, ih hxs, List.length_cons,
      Nat.add_assoc, Nat.add_comm 1]
    rfl

theorem Unended.cutSamples_eq {n : ℕ} {xs : List SampleResult} (h : Unended q n xs) :
    cutSamples q n xs = xs := by
  have happ := h.cutSamples_append []
  rwa [List.append_nil, cutSamples, List.append_nil] at happ

theorem request_appendSample (q : Sequence) (x : SampleResult) :
    (appendSample q x).request = q.request := by
  have hreq := request_appendSamples q [x]
  rwa [appendSamples_cons, appendSamples_nil] at hreq

theorem length_appendSample (q : Sequence) (x : SampleResult) :
    (appendSample q x).outputIds.length = q.outputIds.length + 1 := by
  simp [appendSample]

theorem finishesWith_appendSample (q : Sequence) (x : SampleResult) :
    finishesWith (appendSample q x) x = (q.stopTokenIds.contains x.tokenId || x.finished ||
      decide (q.maxNewTokens ≤ q.outputIds.length + 1)) := by
  rw [finishesWith, Sequence.generatedTokens, length_appendSample, Bool.or_assoc, Bool.or_comm]
  rfl

/-- The loop over the samples of a decode consumes them up to the first that ends the sequence. -/
theorem consumed_eq_cutSamples (hlive : q.isTerminal = false) (xs : List SampleResult) :
    consumed xs q = cutSamples q q.outputIds.length xs := by
  induction xs generalizing q with
  | nil => rfl
  | cons x xs ih =>
    rw [consumed, if_neg (by simp [hlive]), finishesWith_appendSample, cutSamples,
      ih (by simpa using hlive), length_appendSample,
      cutSamples_of_request (request_appendSample q x)]

/-- Samples that do not finish a live sequence do not end it. -/
theorem unended_of_not_finishes (hlive : q.isTerminal = false) (xs : List SampleResult)
    (h : ¬Finishes (consumed xs q) q = true) : Unended q q.outputIds.length xs := by
  induction xs generalizing q with
  | nil => trivial
  | cons x xs ih =>
    rw [consumed, if_neg (by simp [hlive])] at h
    by_cases hends : finishesWith (appendSample q x) x = true
    · rw [if_pos hends] at h
      refine absurd ?_ h
      simpa only [Finishes, List.getLast?_singleton, appendSamples_cons, appendSamples_nil]
        using hends
    · rw [if_neg hends, finishes_cons hends] at h
      have hxs := ih (by simpa using hlive) h
      rw [finishesWith_appendSample, Bool.not_eq_true, Bool.or_eq_false_iff,
        Bool.or_eq_false_iff, decide_eq_false_iff_not, not_le] at hends
      rw [length_appendSample] at hxs
      exact ⟨hends.1.1, hends.1.2, hends.2,
        unended_of_request (request_appendSample q x).symm hxs⟩

/-- A sequence that no sample ended has room for more tokens. -/
theorem Unended.length_lt {n : ℕ} {xs : List SampleResult} (h : Unended q n xs)
    (hroom : n < q.maxNewTokens) : n + xs.length < q.maxNewTokens := by
  induction xs generalizing n with
  | nil => exact hroom
  | cons x xs ih =>
    have hxs := ih h.2.2.2 h.2.2.1
    rw [List.length_cons]
    omega

end

/-! ## What is left of a sequence -/

namespace Sequence

/-- The batches that the sequence takes at most, with prefill chunks of `n` tokens. -/
def batchesLeft (n : ℕ) (q : Sequence) : ℕ :=
  (q.numPromptTokens - (q.numCachedTokens + q.numScheduledTokens)) ⌈/⌉ n +
    (q.maxNewTokens - q.outputIds.length)

/-- A terminal sequence takes no more batches. -/
def liveLeft (n : ℕ) (q : Sequence) : ℕ :=
  if q.isTerminal then 0 else q.batchesLeft n

theorem liveLeft_of_live {n : ℕ} {q : Sequence} (h : q.isTerminal = false) :
    q.liveLeft n = q.batchesLeft n := by
  rw [liveLeft, h, if_neg Bool.false_ne_true]

theorem liveLeft_of_terminal {n : ℕ} {q : Sequence} (h : q.isTerminal = true) :
    q.liveLeft n = 0 := by
  rw [liveLeft, h, if_pos rfl]

theorem liveLeft_scheduled {n : ℕ} {q : Sequence} (h : q.isTerminal = false) :
    q.scheduled.liveLeft n = q.liveLeft n := by
  rw [liveLeft_of_live h]
  rfl

end Sequence

/-- The executor raises in no call, and a decode returns at least one sample. -/
def NeverRaises {σ : Type} (ex : ModelExecutor σ) : Prop :=
  ∀ q batch env, (ex.forwardPrefill q batch env).1 = .ok () ∧
    ∃ output xs, (ex.forwardDecode q batch env).1 = .ok output ∧
      normalizeSamples output = .ok xs ∧ xs ≠ []

/-- A prefill chunk takes one off the chunks that are left. -/
theorem ceilDiv_sub_min {n k : ℕ} (hn : 0 < n) (hk : 0 < k) :
    (k - min k n) ⌈/⌉ n + 1 ≤ k ⌈/⌉ n := by
  have hle : k ≤ n * (k ⌈/⌉ n) := (ceilDiv_le_iff_le_mul hn).1 le_rfl
  obtain ⟨m, hm⟩ : ∃ m, k ⌈/⌉ n = m + 1 := by
    refine Nat.exists_eq_succ_of_ne_zero fun hzero => ?_
    rw [hzero, Nat.mul_zero] at hle
    omega
  rw [hm, Nat.add_le_add_iff_right, ceilDiv_le_iff_le_mul hn]
  rw [hm, Nat.mul_succ] at hle
  omega

section

variable {σ : Type} {ex : ModelExecutor σ} {c c' : BatchContext σ} {batch : Batch}
  {r : Except PyError (List Text)} {sch : InteractiveScheduler}

theorem buildBatch_length (hb : sch.buildBatch none c.sequence = .ok batch)
    (hphase : batch.phase = .prefill)
    (hprompt : c.sequence.numPromptTokens = c.sequence.inputIds.length) :
    batch.inputIds.length = min (c.sequence.numPromptTokens -
      (c.sequence.numCachedTokens + c.sequence.numScheduledTokens)) sch.maxPrefillChunkTokens := by
  have hc : ¬c.sequence.isPrefillComplete = true := by
    rw [← (InteractiveScheduler.buildBatch_ok hb).2, hphase]
    simp
  unfold InteractiveScheduler.buildBatch at hb
  rw [if_neg hc] at hb
  cases hb
  rw [BatchBuilder.buildPrefill, Option.getD_none, if_pos rfl]
  simp only [List.length_take, List.length_drop, Sequence.remainingPrefillTokens, hprompt]
  omega

theorem liveLeft_decoded {s t : Sequence} {n k : ℕ} (hlive : s.isTerminal = false)
    (hroom : s.outputIds.length < s.maxNewTokens) (hreq : t.request = s.request)
    (hsched : t.numScheduledTokens = s.numScheduledTokens)
    (hout : t.outputIds.length = s.outputIds.length + (k + 1)) :
    t.liveLeft n + 1 ≤ s.liveLeft n := by
  rw [Sequence.liveLeft_of_live hlive, Sequence.batchesLeft]
  cases hdone : t.isTerminal with
  | true =>
    rw [Sequence.liveLeft_of_terminal hdone]
    omega
  | false =>
    rw [Sequence.liveLeft_of_live hdone, Sequence.batchesLeft, hsched, hout,
      Sequence.numPromptTokens_of_request hreq, Sequence.numCachedTokens_of_request hreq,
      Sequence.maxNewTokens_of_request hreq]
    omega

theorem liveLeft_prefilled {s t : Sequence} (hlive : s.isTerminal = false) {n : ℕ} (hn : 0 < n)
    (hlt : s.numCachedTokens + s.numScheduledTokens < s.numPromptTokens)
    (hreq : t.request = s.request) (hstatus : t.status = s.status)
    (hsched : t.numScheduledTokens = s.numScheduledTokens +
      min (s.numPromptTokens - (s.numCachedTokens + s.numScheduledTokens)) n)
    (hout : t.outputIds = s.outputIds) : t.liveLeft n + 1 ≤ s.liveLeft n := by
  have hlive' : t.isTerminal = false := by
    rw [Sequence.isTerminal, hstatus]
    exact hlive
  have hchunk := ceilDiv_sub_min hn
    (k := s.numPromptTokens - (s.numCachedTokens + s.numScheduledTokens)) (by omega)
  rw [Sequence.liveLeft_of_live hlive, Sequence.liveLeft_of_live hlive', Sequence.batchesLeft,
    Sequence.batchesLeft, hsched, hout, Sequence.numPromptTokens_of_request hreq,
    Sequence.numCachedTokens_of_request hreq, Sequence.maxNewTokens_of_request hreq,
    ← Nat.add_assoc, ← Nat.sub_sub s.numPromptTokens (s.numCachedTokens + s.numScheduledTokens)]
  omega

/-- A batch that does not raise takes one off what is left of its sequence. No batch adds to it. -/
theorem liveLeft_executed (hex : NeverRaises ex) (h : BatchContext.Executed ex c batch r c')
    (hb : sch.buildBatch none c.sequence = .ok batch)
    (hprompt : c.sequence.numPromptTokens = c.sequence.inputIds.length)
    (hlive : c.sequence.isTerminal = false)
    (hroom : c.sequence.outputIds.length < c.sequence.maxNewTokens) :
    c'.sequence.liveLeft sch.maxPrefillChunkTokens ≤
        c.sequence.liveLeft sch.maxPrefillChunkTokens ∧
      (∀ texts, r = .ok texts → c'.sequence.liveLeft sch.maxPrefillChunkTokens + 1 ≤
        c.sequence.liveLeft sch.maxPrefillChunkTokens) := by
  have hreq := h.request
  cases h with
  | skipped hs =>
    rw [c.sequence.isTerminal_iff.2 (.inr hs)] at hlive
    cases hlive
  | attachFailed | prefillFailed | decodeFailed => exact ⟨le_rfl, fun _ h => by cases h⟩
  | @prefilled batch' env env' r c' hs hphase ha he hc =>
    have hlt : c.sequence.numCachedTokens + c.sequence.numScheduledTokens <
        c.sequence.numPromptTokens := by
      rw [← not_le, ← Sequence.isPrefillComplete_iff, ← (InteractiveScheduler.buildBatch_ok hb).2,
        hphase]
      simp
    rw [Sequence.postprocessBatch_prefill (s := (c.setEnv env').sequence) hs
      (ha.phase.trans hphase), ha.inputIds, buildBatch_length hb hphase hprompt] at hc
    have hstep : c'.sequence.liveLeft sch.maxPrefillChunkTokens + 1 ≤
        c.sequence.liveLeft sch.maxPrefillChunkTokens := by
      rcases BatchContext.cachePrefix_cases hc with ⟨rfl, -⟩ | ⟨-, -, -, -, -, rfl⟩ <;>
        exact liveLeft_prefilled hlive sch.maxPrefillChunkTokens_pos hlt hreq rfl rfl rfl
    exact ⟨by omega, fun _ _ => hstep⟩
  | @decoded batch' env env' o samples hs hphase ha he hn =>
    have hne : samples ≠ [] := by
      obtain ⟨-, output, xs, hok, hxs, hne⟩ := hex (c.setEnv env).sequence batch' env
      rw [he, Except.ok.injEq] at hok
      rw [← hok, hn, Except.ok.injEq] at hxs
      exact hxs ▸ hne
    have hlive' : (c.setEnv env').sequence.isTerminal = false := hlive
    obtain ⟨k, hk⟩ : ∃ k, (consumed samples (c.setEnv env').sequence).length = k + 1 :=
      Nat.exists_eq_succ_of_ne_zero (by simpa using consumed_ne_nil hlive' hne)
    have hspec := consumeSamples_spec samples (c.setEnv env').sequence c.metrics hlive'
    have hstep : (consumeSamples samples (c.setEnv env').sequence c.metrics).2.1.liveLeft
        sch.maxPrefillChunkTokens + 1 ≤ c.sequence.liveLeft sch.maxPrefillChunkTokens := by
      refine liveLeft_decoded (k := k) hlive hroom hreq ?_ ?_
      · rw [hspec]
        dsimp only
        split_ifs <;> rfl
      · rw [hspec, ← hk]
        dsimp only
        split_ifs <;> simp [appendSamples, Sequence.markFinished, BatchContext.setEnv]
    exact ⟨by dsimp only; omega, fun _ _ => hstep⟩

end

/-! ## The loop -/

/-- A turn of the serving loop, or a cancel between two turns. -/
inductive LoopEvent
  | nextBatch
  | cancelRequest (requestId : Option SeqId) (sessionId : Option SessionId)
  deriving DecidableEq, Repr

namespace RuntimeCore

section

variable {σ : Type} (ex : ModelExecutor σ) (rt : RuntimeCore σ)

/-- Build the next batch and execute it. Says whether there was one. -/
def runNextBatch : Except PyError Bool × RuntimeCore σ :=
  match rt.scheduler.buildNextBatch none with
  | (.error e, scheduler) => (.error e, { rt with scheduler })
  | (.ok none, scheduler) => (.ok false, { rt with scheduler })
  | (.ok (some batch), scheduler) =>
    let (r, rt) := { rt with scheduler }.executeBatch ex batch
    (r.map fun _ => true, rt)

def loopStep (rt : RuntimeCore σ) : LoopEvent → RuntimeCore σ
  | .nextBatch => (rt.runNextBatch ex).2
  | .cancelRequest requestId sessionId => (rt.cancelRequest requestId sessionId).2

/-- The event is a turn that raises. -/
def turnRaises (rt : RuntimeCore σ) : LoopEvent → Bool
  | .nextBatch => (rt.runNextBatch ex).1.toOption.isNone
  | .cancelRequest _ _ => false

/-- The number of batches that the event executes, without raising. -/
def batchesOf (rt : RuntimeCore σ) : LoopEvent → ℕ
  | .nextBatch => if (rt.runNextBatch ex).1.toOption = some true then 1 else 0
  | .cancelRequest _ _ => 0

/-- The number of batches that a run executes. -/
def executedBatches : RuntimeCore σ → List LoopEvent → ℕ
  | _, [] => 0
  | rt, e :: es => rt.batchesOf ex e + executedBatches (rt.loopStep ex e) es

/-- The samples that the executor returns for the sequence `id` in the event. -/
def samplesOf (id : SeqId) (rt : RuntimeCore σ) : LoopEvent → List SampleResult
  | .cancelRequest _ _ => []
  | .nextBatch =>
    match rt.scheduler.selectNextSequence with
    | none => []
    | some sequence =>
      if sequence.seqId ≠ id then []
      else
        match rt.scheduler.buildBatch none sequence.scheduled with
        | .error _ => []
        | .ok batch => (rt.context sequence.scheduled).returned ex batch

/-- The samples that the executor returns for the sequence `id` in a run, in order. -/
def allSamples (id : SeqId) : RuntimeCore σ → List LoopEvent → List SampleResult
  | _, [] => []
  | rt, e :: es => rt.samplesOf ex id e ++ allSamples id (rt.loopStep ex e) es

end

variable {σ : Type} {ex : ModelExecutor σ} {rt : RuntimeCore σ}

/-- The ways a turn can end, with the result and the runtime left. -/
inductive TurnEnds (ex : ModelExecutor σ) (rt : RuntimeCore σ) :
    Except PyError Bool → RuntimeCore σ → Prop
  /-- No sequence is live. -/
  | idle (hsel : rt.scheduler.selectNextSequence = none) : TurnEnds ex rt (.ok false) rt
  /-- No batch can be built for the selected sequence. -/
  | buildFailed {sel : Sequence} {e : PyError}
      (hsel : rt.scheduler.selectNextSequence = some sel)
      (hb : rt.scheduler.buildBatch none sel.scheduled = .error e) :
      TurnEnds ex rt (.error e) { rt with scheduler := rt.scheduler.put sel.scheduled }
  /-- The batch of the selected sequence is executed. -/
  | executed {sel : Sequence} {batch : Batch} {r : Except PyError (List Text)}
      {c : BatchContext σ} (hsel : rt.scheduler.selectNextSequence = some sel)
      (hb : rt.scheduler.buildBatch none sel.scheduled = .ok batch)
      (hx : (rt.context sel.scheduled).executeBatch ex batch = (r, c)) :
      TurnEnds ex rt (r.map fun _ => true) (rt.setContext c)

theorem runNextBatch_ends (ex : ModelExecutor σ) (rt : RuntimeCore σ) :
    TurnEnds ex rt (rt.runNextBatch ex).1 (rt.runNextBatch ex).2 := by
  unfold runNextBatch
  rcases rt.scheduler.buildNextBatch_cases none with ⟨hnone, h⟩ | ⟨sel, hsel, h⟩
  · rw [h]
    exact .idle hnone
  · rw [h]
    cases hb : rt.scheduler.buildBatch none sel.scheduled with
    | error e => exact .buildFailed hsel hb
    | ok batch =>
      have hid : batch.seqId = sel.scheduled.seqId := (InteractiveScheduler.buildBatch_ok hb).1
      have hput := executeBatch_put ex rt hid
      dsimp only [Except.map]
      rw [hput]
      exact .executed hsel hb rfl

/-- What the runtime of a serving loop keeps : its sequences are among `ids`, and those that are
live have room for a token. -/
structure Looping (n : ℕ) (ids : Finset SeqId) (rt : RuntimeCore σ) : Prop where
  wellFormed : rt.scheduler.WellFormed
  chunk : rt.scheduler.maxPrefillChunkTokens = n
  stored : ∀ id q, rt.scheduler.get id = some q → id ∈ ids
  prompt : ∀ id q, rt.scheduler.get id = some q → q.numPromptTokens = q.inputIds.length
  room : ∀ id q, rt.scheduler.get id = some q → q.isTerminal = false →
    q.outputIds.length < q.maxNewTokens

/-- What is left of all sequences. -/
def left (n : ℕ) (ids : Finset SeqId) (rt : RuntimeCore σ) : ℕ :=
  ∑ id ∈ ids, (rt.scheduler.get id).elim 0 (Sequence.liveLeft n)

variable {rt' : RuntimeCore σ} {n : ℕ} {ids : Finset SeqId} {s t : Sequence}

/-- Writing back one sequence changes what is left of it only. -/
theorem left_put (rt' : RuntimeCore σ) (hget : rt.scheduler.get s.seqId = some s)
    (hid : t.seqId = s.seqId)
    (hput : rt'.scheduler = rt.scheduler.put t) (hmem : s.seqId ∈ ids) :
    left n ids rt' + s.liveLeft n = left n ids rt + t.liveLeft n := by
  have hself : rt'.scheduler.get s.seqId = some t := by
    rw [hput, ← hid]
    exact InteractiveScheduler.get_put t
  have hrest : ∑ id ∈ ids.erase s.seqId, (rt'.scheduler.get id).elim 0 (Sequence.liveLeft n) =
      ∑ id ∈ ids.erase s.seqId, (rt.scheduler.get id).elim 0 (Sequence.liveLeft n) := by
    refine Finset.sum_congr rfl fun id hmem' => ?_
    rw [hput, InteractiveScheduler.get_put_of_ne (hid ▸ Finset.ne_of_mem_erase hmem')]
  rw [left, left, ← Finset.add_sum_erase ids _ hmem, ← Finset.add_sum_erase ids _ hmem, hrest,
    hself, hget, Option.elim_some, Option.elim_some]
  omega

theorem Looping.put (h : Looping n ids rt) (hget : rt.scheduler.get s.seqId = some s)
    (hreq : t.request = s.request) (hput : rt'.scheduler = rt.scheduler.put t)
    (hroom : t.isTerminal = false → t.outputIds.length < t.maxNewTokens) : Looping n ids rt' := by
  have hid := Sequence.seqId_of_request hreq
  refine ⟨?_, ?_, fun id q hq => ?_, fun id q hq => ?_, fun id q hq hlive => ?_⟩
  · rw [hput]
    exact h.wellFormed.put (hid ▸ hget)
  · rw [hput]
    exact h.chunk
  all_goals
    rw [hput] at hq
    rcases get_put_cases hq with ⟨rfl, rfl⟩ | ⟨-, hq⟩
  · rw [hid]
    exact h.stored _ s hget
  · exact h.stored id q hq
  · rw [Sequence.numPromptTokens_of_request hreq, Sequence.inputIds_of_request hreq]
    exact h.prompt _ s hget
  · exact h.prompt id q hq
  · exact hroom hlive
  · exact h.room id q hq hlive

/-- The samples that leave a sequence live do not end it, and all of them are appended. -/
theorem unended_of_executed {c c' : BatchContext σ} {batch : Batch} {r : Except PyError (List Text)}
    (hlive : c.sequence.isTerminal = false) (hx : c.executeBatch ex batch = (r, c'))
    (hlive' : c'.sequence.isTerminal = false) :
    Unended c.sequence c.sequence.outputIds.length (c.returned ex batch) ∧
      c'.sequence.outputIds =
        c.sequence.outputIds ++ (c.returned ex batch).map SampleResult.tokenId := by
  obtain ⟨hout, hstatus⟩ := BatchContext.executeBatch_outputIds hlive hx
  have hnot : ¬Finishes (consumed (c.returned ex batch) c.sequence) c.sequence = true := by
    intro hfin
    rw [if_pos hfin] at hstatus
    rw [c'.sequence.isTerminal_iff.2 (.inl hstatus)] at hlive'
    cases hlive'
  have hun := unended_of_not_finishes hlive _ hnot
  rw [consumed_eq_cutSamples hlive, hun.cutSamples_eq] at hout
  exact ⟨hun, hout⟩

/-- Every turn and every cancel keeps the invariant, and what a batch executes comes off what is
left. -/
theorem Looping.step (h : Looping n ids rt) (hex : NeverRaises ex) (e : LoopEvent) :
    Looping n ids (rt.loopStep ex e) ∧
      rt.batchesOf ex e + left n ids (rt.loopStep ex e) ≤ left n ids rt := by
  cases e with
  | cancelRequest requestId sessionId =>
    rw [batchesOf, loopStep, Nat.zero_add]
    rcases cancelRequest_cases h.wellFormed requestId sessionId with
      heq | ⟨s, b, hget, hlive, hcore, -⟩
    · rw [heq]
      exact ⟨h, le_rfl⟩
    · refine ⟨h.put (t := withAppended s.markCancelled b) hget rfl hcore.scheduler
        (fun hl => by cases hl), ?_⟩
      have hleft := left_put (n := n) (t := withAppended s.markCancelled b) _ hget rfl
        hcore.scheduler (h.stored _ s hget)
      rw [Sequence.liveLeft_of_terminal (q := withAppended s.markCancelled b) rfl] at hleft
      omega
  | nextBatch =>
    have hends := runNextBatch_ends ex rt
    rw [batchesOf, loopStep]
    generalize (rt.runNextBatch ex).1 = r at hends
    generalize (rt.runNextBatch ex).2 = rt' at hends
    cases hends with
    | idle => simpa [Except.toOption] using h
    | @buildFailed sel e hsel hb =>
      obtain ⟨hget, hlive⟩ := h.wellFormed.selectNextSequence hsel
      refine ⟨h.put (t := sel.scheduled) hget rfl rfl fun _ => h.room _ sel hget hlive, ?_⟩
      have hleft := left_put (n := n) (t := sel.scheduled)
        { rt with scheduler := rt.scheduler.put sel.scheduled } hget rfl rfl (h.stored _ sel hget)
      rw [Sequence.liveLeft_scheduled hlive] at hleft
      have hnone : ((Except.error e : Except PyError Bool)).toOption ≠ some true := by
        simp [Except.toOption]
      rw [if_neg hnone]
      omega
    | @executed sel batch r c hsel hb hx =>
      obtain ⟨hget, hlive⟩ := h.wellFormed.selectNextSequence hsel
      have hexec := BatchContext.executed_of_eq hx
      have hroom : sel.scheduled.outputIds.length < sel.scheduled.maxNewTokens :=
        h.room _ sel hget hlive
      refine ⟨h.put hget hexec.request rfl fun hlive' => ?_, ?_⟩
      · obtain ⟨hun, hout⟩ := unended_of_executed (c := rt.context sel.scheduled) rfl hx hlive'
        rw [hout, List.length_append, List.length_map,
          Sequence.maxNewTokens_of_request hexec.request]
        exact hun.length_lt hroom
      · have hleft := left_put (n := n) (rt.setContext c) hget hexec.seqId rfl (h.stored _ sel hget)
        obtain ⟨hle, hlt⟩ := liveLeft_executed hex hexec hb (h.prompt _ sel hget) rfl hroom
        have hsched : (rt.context sel.scheduled).sequence.liveLeft n = sel.liveLeft n :=
          Sequence.liveLeft_scheduled hlive
        rw [h.chunk, hsched] at hle hlt
        obtain e | texts := r
        · have hnone : ((Except.error e : Except PyError (List Text)).map
              fun _ => true).toOption ≠ some true := by
            simp [Except.map, Except.toOption]
          rw [if_neg hnone]
          omega
        · have hstep := hlt texts rfl
          split_ifs <;> omega

/-- The batches that a run executes, and what is left after it, are together at most what was left
before. -/
theorem Looping.run (h : Looping n ids rt) (hex : NeverRaises ex) (es : List LoopEvent) :
    Looping n ids (Transition.run (loopStep ex) rt es) ∧
      rt.executedBatches ex es + left n ids (Transition.run (loopStep ex) rt es) ≤
        left n ids rt := by
  induction es generalizing rt with
  | nil => exact ⟨h, by rw [executedBatches, Nat.zero_add]; exact le_rfl⟩
  | cons e es ih =>
    obtain ⟨hstep, hle⟩ := h.step hex e
    obtain ⟨hrun, hle'⟩ := ih hstep
    refine ⟨hrun, ?_⟩
    rw [executedBatches, Transition.run_cons]
    omega

/-! ## The tokens -/

/-- The tokens of a sequence are those of its samples `xs`, up to the first that ends it. While it
is live none has. -/
structure Sampled (q : Sequence) (xs : List SampleResult) : Prop where
  cut : q.outputIds = (cutSamples q 0 xs).map SampleResult.tokenId
  live : q.isTerminal = false →
    q.outputIds = xs.map SampleResult.tokenId ∧ Unended q 0 xs

theorem Sampled.congr {q q' : Sequence} {xs : List SampleResult} (h : Sampled q xs)
    (hreq : q'.request = q.request) (hout : q'.outputIds = q.outputIds)
    (hlive : q'.isTerminal = false → q.isTerminal = false) : Sampled q' xs := by
  constructor
  · rw [hout, cutSamples_of_request hreq]
    exact h.cut
  · intro hl
    obtain ⟨htokens, hun⟩ := h.live (hlive hl)
    exact ⟨hout.trans htokens, unended_of_request hreq hun⟩

/-- Executing a batch of a live sequence appends the samples that the executor returns for it. -/
theorem Sampled.executed {c c' : BatchContext σ} {batch : Batch} {r : Except PyError (List Text)}
    {xs : List SampleResult} (h : Sampled c.sequence xs) (hlive : c.sequence.isTerminal = false)
    (hx : c.executeBatch ex batch = (r, c')) :
    Sampled c'.sequence (xs ++ c.returned ex batch) := by
  have hreq := (BatchContext.executed_of_eq hx).request
  obtain ⟨htokens, hun⟩ := h.live hlive
  have hlen : c.sequence.outputIds.length = 0 + xs.length := by
    rw [htokens, List.length_map, Nat.zero_add]
  constructor
  · rw [cutSamples_of_request hreq, hun.cutSamples_append, ← hlen, ← consumed_eq_cutSamples hlive,
      List.map_append, ← htokens]
    exact (BatchContext.executeBatch_outputIds hlive hx).1
  · intro hlive'
    obtain ⟨hun', hout⟩ := unended_of_executed hlive hx hlive'
    rw [hlen] at hun'
    refine ⟨by rw [hout, htokens, List.map_append], ?_⟩
    exact unended_of_request hreq (unended_append.2 ⟨hun, hun'⟩)

/-- The sequence stored as `id`, if there is one, has the tokens of its samples. -/
def SampledAt (id : SeqId) (rt : RuntimeCore σ) (xs : List SampleResult) : Prop :=
  ∀ q, rt.scheduler.get id = some q → Sampled q xs

theorem SampledAt.put {id : SeqId} {xs : List SampleResult} (h : SampledAt id rt xs)
    (hget : rt.scheduler.get t.seqId = some s) (hput : rt'.scheduler = rt.scheduler.put t)
    (hreq : t.request = s.request) (hout : t.outputIds = s.outputIds)
    (hlive : t.isTerminal = false → s.isTerminal = false) : SampledAt id rt' xs := by
  intro q hq
  rw [hput] at hq
  rcases get_put_cases hq with ⟨rfl, rfl⟩ | ⟨-, hq⟩
  · exact (h s hget).congr hreq hout hlive
  · exact h q hq

/-- Every event keeps the law, with the samples that the executor returns in it. -/
theorem SampledAt.step {id : SeqId} {xs : List SampleResult} (h : SampledAt id rt xs)
    (hwf : rt.scheduler.WellFormed) (ex : ModelExecutor σ) (e : LoopEvent) :
    SampledAt id (rt.loopStep ex e) (xs ++ rt.samplesOf ex id e) := by
  cases e with
  | cancelRequest requestId sessionId =>
    rw [samplesOf, List.append_nil, loopStep]
    rcases cancelRequest_cases hwf requestId sessionId with heq | ⟨s, b, hget, hlive, hcore, -⟩
    · rwa [heq]
    · exact h.put (t := withAppended s.markCancelled b) hget hcore.scheduler rfl rfl
        fun hl => by cases hl
  | nextBatch =>
    have hends := runNextBatch_ends ex rt
    rw [samplesOf, loopStep]
    generalize (rt.runNextBatch ex).1 = r at hends
    generalize (rt.runNextBatch ex).2 = rt' at hends
    cases hends with
    | idle hsel =>
      rw [hsel]
      simpa using h
    | @buildFailed sel e hsel hb =>
      obtain ⟨hget, hlive⟩ := hwf.selectNextSequence hsel
      rw [hsel]
      dsimp only
      rw [hb, ite_self, List.append_nil]
      exact h.put (t := sel.scheduled) hget rfl rfl rfl fun _ => hlive
    | @executed sel batch r c hsel hb hx =>
      obtain ⟨hget, hlive⟩ := hwf.selectNextSequence hsel
      have hid : c.sequence.seqId = sel.seqId := (BatchContext.executed_of_eq hx).seqId
      rw [hsel]
      dsimp only
      rw [hb]
      intro q hq
      rcases get_put_cases hq with ⟨rfl, rfl⟩ | ⟨hne, hq⟩
      · have hs : Sampled sel.scheduled xs :=
          (h sel (hid ▸ hget)).congr rfl rfl fun _ => hlive
        rw [if_neg (not_not.2 hid.symm)]
        exact Sampled.executed (c := rt.context sel.scheduled) hs rfl hx
      · rw [if_pos fun hsel' => hne (hid ▸ hsel'.symm), List.append_nil]
        exact h q hq

theorem SampledAt.run {id : SeqId} {xs : List SampleResult} (h : SampledAt id rt xs)
    (hloop : Looping n ids rt) (hex : NeverRaises ex) (es : List LoopEvent) :
    SampledAt id (Transition.run (loopStep ex) rt es) (xs ++ rt.allSamples ex id es) := by
  induction es generalizing rt xs with
  | nil => rwa [allSamples, List.append_nil]
  | cons e es ih =>
    rw [allSamples, ← List.append_assoc]
    exact ih (h.step hloop.wellFormed ex e) (hloop.step hex e).1

/-! ## Runs that raise nothing -/

/-- With no live sequence neither a turn nor a cancel does anything. -/
theorem loopStep_of_idle (hwf : rt.scheduler.WellFormed)
    (hsel : rt.scheduler.selectNextSequence = none) (ex : ModelExecutor σ) (e : LoopEvent) :
    rt.loopStep ex e = rt := by
  cases e with
  | cancelRequest requestId sessionId =>
    rcases cancelRequest_cases hwf requestId sessionId with heq | ⟨s, b, hget, hlive, -⟩
    · exact heq
    · have hmem := hwf.mem_candidates.2 ⟨hget, hlive⟩
      rw [InteractiveScheduler.selectNextSequence_eq_none_iff.1 hsel] at hmem
      cases hmem
  | nextBatch =>
    have hends := runNextBatch_ends ex rt
    rw [loopStep]
    generalize (rt.runNextBatch ex).1 = r at hends
    generalize (rt.runNextBatch ex).2 = rt' at hends
    cases hends with
    | idle => rfl
    | buildFailed hsel' | executed hsel' =>
      rw [hsel] at hsel'
      cases hsel'

/-- A run in which no turn raises executes a batch in every turn, or leaves no live sequence. -/
theorem Looping.executes (h : Looping n ids rt) (hex : NeverRaises ex) {es : List LoopEvent}
    (hrun : Transition.Along (loopStep ex) (fun rt e => rt.turnRaises ex e = false) rt es) :
    (Transition.run (loopStep ex) rt es).scheduler.selectNextSequence = none ∨
      rt.executedBatches ex es = es.count .nextBatch := by
  induction es generalizing rt with
  | nil => exact .inr rfl
  | cons e es ih =>
    obtain ⟨he, hrun⟩ := hrun
    have hnext := ih (h.step hex e).1 hrun
    rw [Transition.run_cons, executedBatches]
    cases e with
    | cancelRequest requestId sessionId =>
      rw [batchesOf, Nat.zero_add, List.count_cons_of_ne (by simp)]
      exact hnext
    | nextBatch =>
      have hends := runNextBatch_ends ex rt
      rw [List.count_cons_self, batchesOf]
      rw [turnRaises] at he
      generalize hr : (rt.runNextBatch ex).1 = r at hends he ⊢
      generalize hrt : (rt.runNextBatch ex).2 = rt' at hends
      cases hends with
      | idle hsel =>
        left
        have hfixed := fun e => loopStep_of_idle h.wellFormed hsel ex e
        rw [hfixed, Transition.run_of_fixed hfixed]
        exact hsel
      | buildFailed => cases he
      | @executed sel batch r c hsel hb hx =>
        refine hnext.imp_right fun hcount => ?_
        obtain err | texts := r
        · cases he
        · rw [hcount, Nat.add_comm]
          rfl

/-- A live sequence has something left. -/
theorem Looping.left_pos (h : Looping n ids rt) {id : SeqId} {q : Sequence}
    (hget : rt.scheduler.get id = some q) (hlive : q.isTerminal = false) : 1 ≤ left n ids rt := by
  have hroom := h.room id q hget hlive
  have hle : (rt.scheduler.get id).elim 0 (Sequence.liveLeft n) ≤ left n ids rt :=
    Finset.single_le_sum (f := fun id => (rt.scheduler.get id).elim 0 (Sequence.liveLeft n))
      (fun _ _ => Nat.zero_le _) (h.stored id q hget)
  rw [hget, Option.elim_some, Sequence.liveLeft_of_live hlive, Sequence.batchesLeft] at hle
  omega

end RuntimeCore

/-! ## The sequences that are served -/

/-- A sequence that was just created, possibly with a cached prefix of its prompt. -/
structure Sequence.Fresh (q : Sequence) : Prop where
  status : q.status = .waiting
  outputIds : q.outputIds = []
  numScheduledTokens : q.numScheduledTokens = 0
  numPromptTokens : q.numPromptTokens = q.inputIds.length
  numCachedTokens : q.numCachedTokens ≤ q.numPromptTokens
  maxNewTokens : 1 ≤ q.maxNewTokens

/-- A scheduler to which sequences were added, and nothing else. -/
def InteractiveScheduler.ofSequences {n : ℕ} (hn : 0 < n) (seqs : List Sequence) :
    InteractiveScheduler :=
  seqs.foldl addSequence (.empty n hn)

/-- The batches that a fresh sequence takes at most : a prefill chunk for every `n` tokens that are
not cached, and a decode for every token that may be generated. -/
def Sequence.batchBudget (n : ℕ) (q : Sequence) : ℕ :=
  (q.numPromptTokens - q.numCachedTokens) ⌈/⌉ n + q.maxNewTokens

def batchBudget (n : ℕ) (seqs : List Sequence) : ℕ :=
  (seqs.map (Sequence.batchBudget n)).sum

namespace InteractiveScheduler

variable {σ : InteractiveScheduler} {seqs : List Sequence}

theorem wellFormed_foldl (hσ : σ.WellFormed) (seqs : List Sequence) :
    (seqs.foldl addSequence σ).WellFormed := by
  induction seqs generalizing σ with
  | nil => exact hσ
  | cons s seqs ih => exact ih hσ.addSequence

theorem maxPrefillChunkTokens_foldl (σ : InteractiveScheduler) (seqs : List Sequence) :
    (seqs.foldl addSequence σ).maxPrefillChunkTokens = σ.maxPrefillChunkTokens := by
  induction seqs generalizing σ with
  | nil => rfl
  | cons s seqs ih => exact ih (σ.addSequence s)

/-- A stored sequence is one of those added, or was stored before. -/
theorem get_foldl {id : SeqId} {q : Sequence} (h : (seqs.foldl addSequence σ).get id = some q) :
    q ∈ seqs ∧ q.seqId = id ∨ σ.get id = some q := by
  induction seqs generalizing σ with
  | nil => exact .inr h
  | cons s seqs ih =>
    rcases ih h with ⟨hmem, hid⟩ | hget
    · exact .inl ⟨List.mem_cons_of_mem s hmem, hid⟩
    · rcases RuntimeCore.get_put_cases hget with ⟨rfl, rfl⟩ | ⟨-, hget⟩
      · exact .inl ⟨List.mem_cons_self, rfl⟩
      · exact .inr hget

/-- At most one summand for each sequence added. -/
theorem sum_elim_le (f : Sequence → ℕ) (ids : Finset SeqId) {get : SeqId → Option Sequence}
    (hget : ∀ id q, get id = some q → q ∈ seqs ∧ q.seqId = id) :
    ∑ id ∈ ids, (get id).elim 0 f ≤ (seqs.map f).sum := by
  induction seqs generalizing get with
  | nil =>
    have hnone : ∀ id, get id = none := fun id => by
      rw [Option.eq_none_iff_forall_ne_some]
      exact fun q hq => by simpa using (hget id q hq).1
    simp [hnone]
  | cons s seqs ih =>
    -- the sum without `s`, and `s` at its own id
    let rest : SeqId → Option Sequence := fun id => if get id = some s then none else get id
    have hrest : ∑ id ∈ ids, (rest id).elim 0 f ≤ (seqs.map f).sum := by
      refine ih fun id q hq => ?_
      simp only [rest] at hq
      split_ifs at hq with hs
      obtain ⟨hmem, hid⟩ := hget id q hq
      rw [hq, Option.some.injEq] at hs
      exact ⟨(List.mem_cons.1 hmem).resolve_left hs, hid⟩
    have hsplit : ∀ id ∈ ids, (get id).elim 0 f ≤
        (rest id).elim 0 f + if id = s.seqId then f s else 0 := by
      intro id _
      by_cases hs : get id = some s
      · rw [hs, (hget id s hs).2, if_pos rfl]
        exact Nat.le_add_left _ _
      · simp only [rest, if_neg hs]
        exact Nat.le_add_right _ _
    have hone : ∑ id ∈ ids, (if id = s.seqId then f s else 0) ≤ f s := by
      rw [Finset.sum_ite_eq']
      split_ifs
      · exact le_rfl
      · exact Nat.zero_le _
    have hsum := Finset.sum_le_sum hsplit
    rw [Finset.sum_add_distrib] at hsum
    rw [List.map_cons, List.sum_cons]
    omega

end InteractiveScheduler

namespace RuntimeCore

variable {σ : Type} {ex : ModelExecutor σ} {rt : RuntimeCore σ} {n : ℕ} {hn : 0 < n}
  {seqs : List Sequence}

theorem looping_ofSequences (hrt : rt.scheduler = .ofSequences hn seqs)
    (hnew : ∀ q ∈ seqs, q.Fresh) :
    Looping n (seqs.map Sequence.seqId).toFinset rt ∧
      left n (seqs.map Sequence.seqId).toFinset rt ≤ batchBudget n seqs ∧
      ∀ id, SampledAt id rt [] := by
  have hstored : ∀ id q, rt.scheduler.get id = some q → q ∈ seqs ∧ q.seqId = id := by
    intro id q hq
    rw [hrt] at hq
    exact (InteractiveScheduler.get_foldl hq).resolve_right (by
      simp [InteractiveScheduler.get, InteractiveScheduler.empty])
  have hfresh := fun id q hq => hnew q (hstored id q hq).1
  refine ⟨⟨?_, ?_, fun id q hq => ?_, fun id q hq => ?_, fun id q hq _ => ?_⟩, ?_,
    fun id q hq => ?_⟩
  · rw [hrt]
    exact InteractiveScheduler.wellFormed_foldl (InteractiveScheduler.wellFormed_empty hn) seqs
  · rw [hrt]
    exact InteractiveScheduler.maxPrefillChunkTokens_foldl _ seqs
  · obtain ⟨hmem, hid⟩ := hstored id q hq
    exact List.mem_toFinset.2 (List.mem_map.2 ⟨q, hmem, hid⟩)
  · exact (hfresh id q hq).numPromptTokens
  · rw [(hfresh id q hq).outputIds]
    exact (hfresh id q hq).maxNewTokens
  · refine (InteractiveScheduler.sum_elim_le _ _ hstored).trans_eq ?_
    rw [batchBudget]
    refine congrArg List.sum (List.map_congr_left fun q hq => ?_)
    have hq' := hnew q hq
    have hlive : q.isTerminal = false := by simp [Sequence.isTerminal, hq'.status]
    rw [Sequence.liveLeft_of_live hlive, Sequence.batchesLeft, hq'.numScheduledTokens,
      hq'.outputIds, Nat.add_zero, List.length_nil, Nat.sub_zero, Sequence.batchBudget]
  · have hnil := (hfresh id q hq).outputIds
    exact ⟨hnil, fun _ => ⟨hnil, trivial⟩⟩

/-- Serve any sequences with an executor that does not raise, and cancel any of them in between.
The batches executed are at most the budget, and the tokens of each sequence are those of the
samples returned for it up to the first that ends it. If no turn raises, then after as many turns
as the budget every sequence is terminal, and there is no next batch. -/
theorem servingLoop_budget (hex : NeverRaises ex) (hrt : rt.scheduler = .ofSequences hn seqs)
    (hnew : ∀ q ∈ seqs, q.Fresh) (es : List LoopEvent) :
    rt.executedBatches ex es ≤ batchBudget n seqs ∧
      (∀ id q, (Transition.run (loopStep ex) rt es).scheduler.get id = some q →
        q.outputIds = (cutSamples q 0 (rt.allSamples ex id es)).map SampleResult.tokenId) ∧
      (Transition.Along (loopStep ex) (fun rt e => rt.turnRaises ex e = false) rt es →
        batchBudget n seqs ≤ es.count .nextBatch →
        (∀ id q, (Transition.run (loopStep ex) rt es).scheduler.get id = some q →
          q.isTerminal = true) ∧
        (Transition.run (loopStep ex) rt es).scheduler.buildNextBatch none =
          (.ok none, (Transition.run (loopStep ex) rt es).scheduler)) := by
  obtain ⟨hloop, hleft, hsampled⟩ := looping_ofSequences hrt hnew
  obtain ⟨hend, hle⟩ := hloop.run hex es
  refine ⟨by omega, fun id q hq => ?_, fun hrun hturns => ?_⟩
  · exact ((hsampled id).run hloop hex es q hq).cut
  · have hdone : ∀ id q, (Transition.run (loopStep ex) rt es).scheduler.get id = some q →
        q.isTerminal = true := by
      intro id q hq
      by_contra hlive
      rw [Bool.not_eq_true] at hlive
      have hpos := hend.left_pos hq hlive
      rcases hloop.executes hex hrun with hnone | hcount
      · have hqid := hend.wellFormed.seqId_eq _ _ hq
        have hmem := hend.wellFormed.mem_candidates.2 ⟨hqid ▸ hq, hlive⟩
        rw [InteractiveScheduler.selectNextSequence_eq_none_iff.1 hnone] at hmem
        cases hmem
      · omega
    refine ⟨hdone, ?_⟩
    rcases InteractiveScheduler.buildNextBatch_cases
      (Transition.run (loopStep ex) rt es).scheduler none with ⟨-, h⟩ | ⟨sel, hsel, -⟩
    · exact h
    · obtain ⟨hget, hlive⟩ := hend.wellFormed.selectNextSequence hsel
      rw [hdone _ sel hget] at hlive
      cases hlive

theorem neverRaises_deterministicExecutor (supportsPrefixCache : Bool) :
    NeverRaises (deterministicExecutor supportsPrefixCache) := fun _ _ _ =>
  ⟨rfl, _, _, rfl, rfl, by simp⟩

/-- A foreground request with a long prompt, and a background one with a cached prefix. -/
def loopSequences : List Sequence :=
  [{ seqId := 0, sessionId := "a", inputIds := [1, 2, 3, 4, 5], maxNewTokens := 2,
      numPromptTokens := 5 },
    { seqId := 1, sessionId := "b", inputIds := [6, 7, 8], maxNewTokens := 1,
      taskKind := .background, numPromptTokens := 3, numCachedTokens := 2 }]

/-- A runtime over a pool of pages of one token each, which serves the sequences. -/
def loopRuntime (numPages : ℕ) (h : 0 < numPages) (seqs : List Sequence) : RuntimeCore Unit :=
  { create
      { ServerState.smallConfig with
        kvCache :=
          { numPages, pageSize := 1, pageSize_pos := by decide, numPages_pos := h } } () with
    scheduler := .ofSequences (n := 2) (by decide) seqs }

/-- The budget of seven batches is spent on the two sequences to the last. -/
theorem servingLoop_budget_loopSequences :
    batchBudget 2 loopSequences = 7 ∧
    (∀ id q, (Transition.run (loopStep (deterministicExecutor false))
        (loopRuntime 16 (by decide) loopSequences) (List.replicate 7 .nextBatch)).scheduler.get id =
          some q → q.isTerminal = true) ∧
    (loopRuntime 16 (by decide) loopSequences).executedBatches (deterministicExecutor false)
      (List.replicate 7 .nextBatch) ≤ 7 := by
  have hbudget : batchBudget 2 loopSequences = 7 := by decide +kernel
  have hrun : Transition.Along (loopStep (deterministicExecutor false))
      (fun rt e => rt.turnRaises (deterministicExecutor false) e = false)
      (loopRuntime 16 (by decide) loopSequences) (List.replicate 7 .nextBatch) := by
    decide +kernel
  have hfresh : ∀ q ∈ loopSequences, q.Fresh := by
    simp only [loopSequences, List.mem_cons, List.not_mem_nil, or_false]
    rintro q (rfl | rfl) <;> constructor <;> decide
  have hsched : (loopRuntime 16 (by decide) loopSequences).scheduler =
      .ofSequences (n := 2) (by decide) loopSequences := rfl
  obtain ⟨hle, -, hdone⟩ := servingLoop_budget (neverRaises_deterministicExecutor false) hsched
    hfresh (List.replicate 7 .nextBatch)
  exact ⟨hbudget, (hdone hrun (by rw [hbudget]; decide)).1, hbudget ▸ hle⟩

/-- With too few pages every turn raises, and the sequence never becomes terminal. -/
theorem not_servingLoop_budget : ¬∀ (σ : Type) (ex : ModelExecutor σ) (rt : RuntimeCore σ) (n : ℕ)
    (hn : 0 < n) (seqs : List Sequence) (es : List LoopEvent), NeverRaises ex →
    rt.scheduler = .ofSequences hn seqs → (∀ q ∈ seqs, q.Fresh) →
    batchBudget n seqs ≤ es.count .nextBatch →
    ∀ id q, (Transition.run (loopStep ex) rt es).scheduler.get id = some q →
      q.isTerminal = true := by
  intro h
  let seqs : List Sequence :=
    [{ seqId := 0, sessionId := "a", inputIds := [1, 2], maxNewTokens := 1, numPromptTokens := 2 }]
  have hfresh : ∀ q ∈ seqs, q.Fresh := by
    simp only [seqs, List.mem_cons, List.not_mem_nil, or_false]
    rintro q rfl
    constructor <;> decide
  have hall := h Unit (deterministicExecutor false) (loopRuntime 1 (by decide) seqs) 2 (by decide)
    seqs [.nextBatch, .nextBatch] (neverRaises_deterministicExecutor false) rfl hfresh
    (by decide +kernel) 0
  have hlive : ((Transition.run (loopStep (deterministicExecutor false))
      (loopRuntime 1 (by decide) seqs) [.nextBatch, .nextBatch]).scheduler.get 0).any
        (fun q => !q.isTerminal) = true := by decide +kernel
  obtain ⟨q, hq, hl⟩ := (Option.any_eq_true _ _).1 hlive
  rw [hall q hq] at hl
  cases hl

end RuntimeCore

end SoloRT
