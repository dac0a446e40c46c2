import SoloRT.GraphRunner
import SoloRT.Solo

/-!
# Greedy generation on the CUDA-graph executors

A prefill leaves the entries of the prompt in the static arena. The first decode step feeds the
first generated token one position further than that : at `prompt_token_count +
len(generated_token_ids)`, where the list holds the token already. So every decode step sees, at
the position after the prompt, an entry that no token of the sequence has. It is the entry of the
padding, or if the prompt fills its bucket, what was in the arena before (`SlotOk`).

Given this entry, the tokens are those of a generator (`nextToken`), for both executors
(`graphSimulation`). The arena may hold anything from the position of the next decode step on :
padding, tokens of a chunk after its end, and rejected proposals.
-/

namespace SoloRT

namespace CudaGraphQwen3Executor

variable {E D : Type} (ex : CudaGraphQwen3Executor E) (slot : List TokenId → E)

/-! ## The tokens -/

/-- The entries that a decode step sees after the tokens `ts` were fed to decode steps. -/
def visibleAfter (prompt ts : List TokenId) : List (ℕ × E) :=
  StaticArena.feed ex.row
    (StaticArena.feed ex.row [] 0 prompt ++ [(prompt.length, slot prompt)]) (prompt.length + 1) ts

/-- The logits after the prompt and the generated tokens `ts`. -/
def graphLogits (prompt ts : List TokenId) : List ℚ :=
  match ts.getLast? with
  | none => ex.runner.promptLogits prompt
  | some t => (ex.row (ex.visibleAfter slot prompt ts.dropLast) (prompt.length + ts.length) t).2

/-- The greedy token after the prompt and the tokens `ts`, penalised for `ts`. -/
def nextToken (q : Sequence) (ts : List TokenId) : TokenId :=
  greedyToken (penalise
    (q.metadata.repetitionPenalty.getD ex.config.defaultRepetitionPenalty) ts
    (ex.graphLogits slot q.inputIds ts))

/-- What the prefill of a prompt raises. -/
def refusal (prompt : List TokenId) : Option PyError :=
  if ex.maxLen ≤ prompt.length then
    some ⟨.runtimeError, "prompt " ++ toString prompt.length ++ " >= graph_max_len " ++
      toString ex.maxLen ++ "; raise SOLORT_GRAPH_MAX_LEN"⟩
  else if ex.runner.preBucket prompt = none then some ⟨.stopIteration, ""⟩
  else none

/-- The arena is such that a prefill leaves the entry `slot` at the position after the prompt. -/
def SlotOk (kv : ℕ → E) (prompt : List TokenId) : Prop :=
  ∀ bound, ex.runner.preBucket prompt = some bound →
    (if prompt.length < bound then ex.runner.padEntry prompt else kv prompt.length) = slot prompt

/-! ## The simulation -/

/-- The token that the last prefill chunk sampled, until it is decoded. -/
def pendingToken (q : Sequence) : Option TokenId :=
  if q.outputIds = [] ∧ q.numScheduledTokens = q.inputIds.length then
    some (ex.nextToken slot q [])
  else none

variable (P : List TokenId → Prop)

/-- The serving state and the arena of a sequence. The progress of the prefill may be counted
too far once it has raised. -/
structure Holds (kv : ℕ → E) (q : Sequence) (state : ServingState Unit) : Prop where
  prompt : state.promptTokenCount = q.inputIds.length
  progress : q.numScheduledTokens ≤ state.prefilledTokenCount
  prefilled : ex.refusal q.inputIds = none → state.prefilledTokenCount = q.numScheduledTokens
  pending : state.pendingTokenId = ex.pendingToken slot q
  generated : state.generatedTokenIds = q.outputIds
  finished : state.finished = false
  slotOk : q.numScheduledTokens < q.inputIds.length → P q.inputIds → ex.SlotOk slot kv q.inputIds
  accepted : q.numScheduledTokens = q.inputIds.length → ex.refusal q.inputIds = none
  arena : q.numScheduledTokens = q.inputIds.length →
    StaticArena.below kv (q.inputIds.length + max 1 q.outputIds.length) =
      ex.visibleAfter slot q.inputIds q.outputIds.dropLast

/-- A sequence whose prefill has not begun may have no serving state. -/
def HasState (st : GraphState E D) (q : Sequence) : Prop :=
  (q.numScheduledTokens = 0 ∧ st.states q.seqId = none ∧
      (P q.inputIds → ex.SlotOk slot st.runner.kv q.inputIds)) ∨
    ∃ state, st.states q.seqId = some state ∧ ex.Holds slot P st.runner.kv q state

variable {ex slot P} {st st' : GraphState E D} {q q' : Sequence}

theorem nextToken_of_request (h : q'.request = q.request) :
    ex.nextToken slot q' = ex.nextToken slot q := by
  have hpenalty : q'.metadata.repetitionPenalty = q.metadata.repetitionPenalty :=
    show q'.request.metadata.repetitionPenalty = q.request.metadata.repetitionPenalty from
      congrArg (fun s => s.metadata.repetitionPenalty) h
  funext ts
  rw [nextToken, nextToken, hpenalty, Sequence.inputIds_of_request h]

/-- The parts of a sequence that the executor does not read may change. -/
theorem HasState.congr (h : ex.HasState slot P st q) (hreq : q'.request = q.request)
    (hout : q'.outputIds = q.outputIds) (hsched : q'.numScheduledTokens = q.numScheduledTokens) :
    ex.HasState slot P st q' := by
  have hin := Sequence.inputIds_of_request hreq
  have hpending : ex.pendingToken slot q' = ex.pendingToken slot q := by
    rw [pendingToken, pendingToken, hout, hsched, hin, nextToken_of_request hreq]
  rw [HasState, hsched, Sequence.seqId_of_request hreq, hin]
  refine h.imp_right fun ⟨state, hst, hs⟩ =>
    ⟨state, hst, ?_, ?_, ?_, ?_, ?_, hs.finished, ?_, ?_, ?_⟩
  · rw [hin, hs.prompt]
  · rw [hsched]
    exact hs.progress
  · rw [hin, hsched]
    exact hs.prefilled
  · rw [hpending, hs.pending]
  · rw [hout, hs.generated]
  · rw [hin, hsched]
    exact hs.slotOk
  · rw [hin, hsched]
    exact hs.accepted
  · rw [hin, hsched, hout]
    exact hs.arena

variable (ex slot P) in
/-- The executors generate the tokens of the greedy requests whose prompts meet `P`. -/
def graphSimulation (D : Type) : Simulation (GraphState E D) where
  config := ex.config
  tokenizer := ex.tokenizer
  About q := Greedy ex.config q ∧ q.inputIds ≠ [] ∧ P q.inputIds
  next := ex.nextToken slot
  room q := (ex.maxLen - q.inputIds.length : ℕ)
  Holds := ex.HasState slot P
  Shared _ := True
  Absent st id := st.states id = none ∧ ∀ prompt, P prompt → ex.SlotOk slot st.runner.kv prompt
  about_of_request hreq h := by
    have hin := Sequence.inputIds_of_request hreq
    exact ⟨greedy_of_request hreq h.1, hin ▸ h.2.1, hin ▸ h.2.2⟩
  next_of_request := nextToken_of_request
  room_of_request hreq := by rw [Sequence.inputIds_of_request hreq]
  holds_congr hreq hout hsched h := h.congr hreq hout hsched
  holds_new _ _ _ _ _ _ h := .inl ⟨rfl, h.1, h.2 _⟩

/-! ## A prefill chunk -/

theorem visibleAfter_concat (prompt ts : List TokenId) (t : TokenId) :
    ex.visibleAfter slot prompt (ts ++ [t]) = StaticArena.feed ex.row
      (ex.visibleAfter slot prompt ts) (prompt.length + (ts ++ [t]).length) [t] := by
  have hpos : prompt.length + 1 + ts.length = prompt.length + (ts ++ [t]).length := by
    rw [List.length_append, List.length_singleton]
    omega
  rw [visibleAfter, StaticArena.feed_append, hpos]
  rfl

theorem graphLogits_concat (prompt ts : List TokenId) (t : TokenId) :
    ex.graphLogits slot prompt (ts ++ [t]) =
      (ex.row (ex.visibleAfter slot prompt ts) (prompt.length + (ts ++ [t]).length) t).2 := by
  rw [graphLogits, List.getLast?_concat, List.dropLast_concat]

theorem sample_greedy (hq : Greedy ex.config q) (st : GraphState E D) (logits : List ℚ) :
    ex.sample st logits q = (greedyToken (penalise
      (q.metadata.repetitionPenalty.getD ex.config.defaultRepetitionPenalty) q.outputIds
      logits), st) := by
  rw [sample, sampleToken_greedy hq]

/-- What the executor has before a prefill chunk. -/
theorem HasState.ensure (h : ex.HasState slot P st q) (hnum : q.numPromptTokens = q.inputIds.length)
    (hlt : q.numScheduledTokens < q.inputIds.length) (hout : q.outputIds = []) :
    ex.Holds slot P st.runner.kv q (st.states.ensure q) := by
  rcases h with ⟨h0, hnone, hslot⟩ | ⟨state, hst, hs⟩
  · rw [ServingStates.ensure, hnone, Option.getD_none]
    refine ⟨hnum, h0.le, fun _ => h0.symm, ?_, hout.symm, rfl, fun _ => hslot, ?_, ?_⟩
    · rw [pendingToken, if_neg]
      omega
    · intro hdone
      omega
    · intro hdone
      omega
  · rw [ServingStates.ensure, hst]
    exact hs

/-- The token sampled by the prefill of a greedy request. -/
theorem nextToken_nil (q : Sequence) : ex.nextToken slot q [] = greedyToken (penalise
    (q.metadata.repetitionPenalty.getD ex.config.defaultRepetitionPenalty) []
    (ex.runner.promptLogits q.inputIds)) :=
  rfl

/-- Counting a chunk of the prefill that the executor does not complete, or refuses. -/
theorem Holds.counted {kv : ℕ → E} {state : ServingState Unit} (hs : ex.Holds slot P kv q state)
    (hlt : q.numScheduledTokens < q.inputIds.length) {n m : ℕ}
    (hm : m < q.inputIds.length) (hle : m ≤ state.prefilledTokenCount + n)
    (hcount : ex.refusal q.inputIds = none → state.prefilledTokenCount + n = m) :
    ex.Holds slot P kv { q with numScheduledTokens := m }
      { state with
        prefilledTokenCount := state.prefilledTokenCount + n
        promptTokenCount := q.inputIds.length } := by
  have hnone : ∀ k < q.inputIds.length,
      ex.pendingToken slot { q with numScheduledTokens := k } = none := fun k hk => by
    rw [pendingToken, if_neg]
    exact fun h => absurd h.2 hk.ne
  refine ⟨rfl, hle, hcount, ?_, hs.generated, hs.finished, fun _ => hs.slotOk hlt, ?_, ?_⟩
  · rw [hnone m hm]
    exact hs.pending.trans (hnone _ hlt)
  · exact fun hdone => absurd hdone hm.ne
  · exact fun hdone => absurd hdone hm.ne

/-- The prefill of the whole prompt, whose first token is then pending. -/
theorem Holds.completed {kv kv' : ℕ → E} {state : ServingState Unit}
    (hs : ex.Holds slot P kv q state) (hout : q.outputIds = [])
    (haccepted : ex.refusal q.inputIds = none) {n : ℕ}
    (hall : q.numScheduledTokens + n = q.inputIds.length)
    (harena : StaticArena.below kv' (q.inputIds.length + 1) =
      ex.visibleAfter slot q.inputIds []) :
    ex.Holds slot P kv' { q with numScheduledTokens := q.numScheduledTokens + n }
      { state with
        prefilledTokenCount := state.prefilledTokenCount + n
        promptTokenCount := q.inputIds.length
        pendingTokenId := some (ex.nextToken slot q []) } := by
  have hprefilled := hs.prefilled haccepted
  refine ⟨rfl, ?_, fun _ => ?_, ?_, hs.generated, hs.finished, fun hlt => ?_, fun _ => haccepted,
    fun _ => ?_⟩
  · dsimp only
    omega
  · dsimp only
    rw [hprefilled]
  · rw [pendingToken, if_pos ⟨hout, hall⟩]
    rfl
  · dsimp only at hlt
    omega
  · dsimp only
    rw [hout]
    exact harena

variable {env : Env E D}

theorem Holds.stored {q' : Sequence} {state : ServingState Unit}
    (hs : ex.Holds slot P env.state.runner.kv q' state) (hid : q'.seqId = q.seqId) :
    ex.HasState slot P (GraphState.store env q.seqId state).state q' := by
  refine .inr ⟨state, ?_, hs⟩
  simp [GraphState.store, ServingStates.store, hid, hs.finished]

/-- A prefill chunk keeps the simulation, and raises the refusal of the prompt only. -/
theorem forwardPrefill_ok (habout : (ex.graphSimulation slot P D).About q)
    (h : (ex.graphSimulation slot P D).Tracks env.state q) {batch : Batch}
    (hchunk : batch.inputIds <+: q.inputIds.drop q.numScheduledTokens) :
    (ex.graphSimulation slot P D).PrefillOk q batch.inputIds.length
        (ex.forwardPrefill q batch env).2.state (ex.forwardPrefill q batch env).1 ∧
      ∀ e, (ex.forwardPrefill q batch env).1 = .error e → ex.refusal q.inputIds = some e := by
  obtain ⟨hq, hne, hP⟩ := habout
  have hholds : ex.HasState slot P env.state q := h.holds
  unfold forwardPrefill
  by_cases hnil : batch.inputIds = []
  · rw [if_pos hnil, hnil]
    exact ⟨hholds, fun e he => by cases he⟩
  rw [if_neg hnil]
  have hlen := hchunk.length_le
  have hpos := List.length_pos_of_ne_nil hnil
  rw [List.length_drop] at hlen
  have hlt : q.numScheduledTokens < q.inputIds.length := by omega
  have hout := h.outputs_eq_nil hlt
  have hs := hholds.ensure h.prompt hlt hout
  have hprogress := hs.progress
  dsimp only
  rw [hs.prompt, h.prompt, max_self, List.take_length]
  by_cases hmore :
      (env.state.states.ensure q).prefilledTokenCount + batch.inputIds.length < q.inputIds.length
  · rw [if_pos hmore]
    refine ⟨(hs.counted hlt (by omega) (by omega) fun hok => ?_).stored rfl,
      fun e he => by cases he⟩
    rw [hs.prefilled hok]
  rw [if_neg hmore]
  -- what the state holds if the prefill raises
  have hrefused : ∀ {e : PyError}, ex.refusal q.inputIds = some e →
      ex.Holds slot P env.state.runner.kv q
        { env.state.states.ensure q with
          prefilledTokenCount :=
            (env.state.states.ensure q).prefilledTokenCount + batch.inputIds.length
          promptTokenCount := q.inputIds.length } := by
    intro e he
    refine hs.counted hlt hlt (by omega) fun hok => ?_
    rw [he] at hok
    cases hok
  by_cases hmax : ex.maxLen ≤ q.inputIds.length
  · rw [if_pos hmax]
    have hrefusal : ex.refusal q.inputIds = some ⟨.runtimeError, "prompt " ++
        toString q.inputIds.length ++ " >= graph_max_len " ++ toString ex.maxLen ++
        "; raise SOLORT_GRAPH_MAX_LEN"⟩ := by
      rw [refusal, if_pos hmax]
    refine ⟨(hrefused hrefusal).stored rfl, fun e he => ?_⟩
    cases he
    exact hrefusal
  rw [if_neg hmax]
  cases hbucket : ex.runner.preBucket q.inputIds with
  | none =>
    have hrefusal : ex.refusal q.inputIds = some ⟨.stopIteration, ""⟩ := by
      rw [refusal, if_neg hmax, if_pos hbucket]
    rw [GraphQwen3Runner.prefill_none hbucket]
    refine ⟨(hrefused hrefusal).stored rfl, fun e he => ?_⟩
    cases he
    exact hrefusal
  | some bound =>
    obtain ⟨hlogits, hbelow, hslot, -⟩ :=
      GraphQwen3Runner.prefill_spec hne hbucket env.state.runner
    have haccepted : ex.refusal q.inputIds = none := by
      rw [refusal, if_neg hmax, if_neg (by simp [hbucket])]
    have hall : q.numScheduledTokens + batch.inputIds.length = q.inputIds.length := by
      have hcount := hs.prefilled haccepted
      omega
    rw [hs.slotOk hlt hP bound hbucket] at hslot
    cases hprefill : ex.runner.prefill q.inputIds env.state.runner with
    | mk r runner =>
      rw [hprefill] at hlogits hbelow hslot
      dsimp only at hlogits hbelow hslot ⊢
      rw [hlogits]
      dsimp only
      rw [sample_greedy hq, hout, ← nextToken_nil]
      refine ⟨(hs.completed hout haccepted hall ?_).stored rfl, fun e he => by cases he⟩
      rw [StaticArena.below_succ, hbelow, hslot]
      rfl

/-! ## A decode -/

/-- The error of a decode that has no room left. -/
def noRoom : PyError :=
  ⟨.runtimeError, "decode position exceeds graph_max_len; raise SOLORT_GRAPH_MAX_LEN"⟩

/-- A decode step returns the logits after its token, and adds its entry. -/
theorem decode_visible {prompt us : List TokenId} {t : TokenId} {runner : RunnerState E}
    (hlt : prompt.length + (us ++ [t]).length < ex.maxLen)
    (hbelow : StaticArena.below runner.kv (prompt.length + (us ++ [t]).length) =
      ex.visibleAfter slot prompt us) :
    (ex.runner.decode t (prompt.length + (us ++ [t]).length) runner).1 =
        ex.graphLogits slot prompt (us ++ [t]) ∧
      StaticArena.below (ex.runner.decode t (prompt.length + (us ++ [t]).length) runner).2.kv
        (prompt.length + (us ++ [t]).length + 1) = ex.visibleAfter slot prompt (us ++ [t]) := by
  obtain ⟨hlogits, hnext, -⟩ := GraphQwen3Runner.decode_spec (g := ex.runner) hlt t runner
  rw [hbelow] at hlogits hnext
  refine ⟨?_, ?_⟩
  · rw [hlogits, graphLogits_concat]
    rfl
  · rw [hnext, visibleAfter_concat]
    rfl

/-- The replays of a chunk return the next tokens, and add the entries of all but the last. -/
theorem decodeLoop_visible {prompt : List TokenId} {k : ℕ} : ∀ {us : List TokenId} {t : TokenId}
    {runner : RunnerState E}, prompt.length + (us ++ [t]).length + k ≤ ex.maxLen →
    StaticArena.below runner.kv (prompt.length + (us ++ [t]).length) =
      ex.visibleAfter slot prompt us →
    (ex.runner.decodeLoop k t (prompt.length + (us ++ [t]).length) runner).1 =
        Generation.follow (fun ts => greedyToken (ex.graphLogits slot prompt ts)) k (us ++ [t]) ∧
      StaticArena.below
          (ex.runner.decodeLoop k t (prompt.length + (us ++ [t]).length) runner).2.kv
          (prompt.length + (us ++ [t]).length + k) =
        ex.visibleAfter slot prompt (us ++ [t] ++ Generation.follow
          (fun ts => greedyToken (ex.graphLogits slot prompt ts)) k (us ++ [t])).dropLast := by
  induction k with
  | zero =>
    intro us t runner _ hbelow
    refine ⟨rfl, ?_⟩
    rw [Generation.follow, List.append_nil, List.dropLast_concat]
    exact hbelow
  | succ k ih =>
    intro us t runner hle hbelow
    obtain ⟨hlogits, hnext⟩ := decode_visible (by omega) hbelow
    have hpos : ∀ u : TokenId, prompt.length + (us ++ [t]).length + 1 =
        prompt.length + (us ++ [t] ++ [u]).length := fun u => by
      simp only [List.length_append, List.length_singleton, Nat.add_assoc]
    rw [GraphQwen3Runner.decodeLoop, GraphQwen3Runner.decodeArgmax, Generation.follow]
    dsimp only
    rw [hlogits]
    rw [hpos (greedyToken (ex.graphLogits slot prompt (us ++ [t])))] at hnext ⊢
    obtain ⟨htokens, hloop⟩ := ih (by rw [← hpos]; omega) hnext
    refine ⟨by rw [htokens], ?_⟩
    rw [← hpos] at hloop ⊢
    rw [Nat.add_assoc _ 1 k, Nat.add_comm 1 k] at hloop
    rw [hloop, List.append_assoc (us ++ [t]), List.singleton_append]

/-- Appending the next tokens, with an arena that holds all but the last. -/
theorem decodeOk_follow (h : (ex.graphSimulation slot P D).Tracks st q)
    (hdone : q.numScheduledTokens = q.inputIds.length) (haccepted : ex.refusal q.inputIds = none)
    {state : ServingState Unit} {n : ℕ} {xs : List SampleResult} {state' : ServingState Unit}
    (happ : appendTokenResults ex.config ex.tokenizer q state
      (Generation.follow (ex.nextToken slot q) (n + 1) q.outputIds) = (xs, state'))
    (hgen : state.generatedTokenIds = q.outputIds) (hfin : state.finished = false)
    (hpend : state.pendingTokenId = none) (hprompt : state.promptTokenCount = q.inputIds.length)
    (hpre : state.prefilledTokenCount = q.numScheduledTokens) {env' : Env E D}
    (hroom : q.inputIds.length + q.outputIds.length + (n + 1) ≤ ex.maxLen)
    (harena : StaticArena.below env'.state.runner.kv
        (q.inputIds.length + q.outputIds.length + (n + 1)) =
      ex.visibleAfter slot q.inputIds (q.outputIds ++
        Generation.follow (ex.nextToken slot q) (n + 1) q.outputIds).dropLast)
    {output : DecodeOutput} (hout : normalizeSamples output = .ok xs) :
    (ex.graphSimulation slot P D).DecodeOk q (GraphState.store env' q.seqId state').state
      (.ok output) := by
  refine Simulation.decodeOk_follow h hdone happ hgen hfin (Nat.cast_le.2 (by omega))
    (fun _ hsame hgen' hfin' => ?_) hout
  have hnil : q.outputIds ++ Generation.follow (ex.nextToken slot q) (n + 1) q.outputIds ≠ [] := by
    simp [Generation.follow]
  refine .inr ⟨state', ?_, ?_, ?_, fun _ => ?_, ?_, hgen', hfin', ?_, fun _ => haccepted,
    fun _ => ?_⟩
  · simp [GraphState.store, ServingStates.store, hfin']
  · exact hsame.promptTokenCount.trans hprompt
  · exact (hsame.prefilledTokenCount.trans hpre).ge
  · exact hsame.prefilledTokenCount.trans hpre
  · rw [hsame.pendingTokenId, hpend, pendingToken, if_neg]
    exact fun hnil' => hnil hnil'.1
  · exact fun hlt => absurd hdone hlt.ne
  · have hlen : q.inputIds.length + max 1 (q.outputIds ++ Generation.follow
        (ex.nextToken slot q) (n + 1) q.outputIds).length =
          q.inputIds.length + q.outputIds.length + (n + 1) := by
      rw [List.length_append, Generation.length_follow]
      omega
    have hlen' := hlen ▸ harena
    exact hlen'

/-- What the executor has before a decode. -/
theorem HasState.holds (h : ex.HasState slot P st q) (hne : q.inputIds ≠ [])
    (hdone : q.numScheduledTokens = q.inputIds.length) :
    ∃ state, st.states q.seqId = some state ∧ ex.Holds slot P st.runner.kv q state := by
  rcases h with ⟨h0, -⟩ | hstate
  · exact absurd (List.length_eq_zero_iff.1 (hdone.symm.trans h0)) hne
  · exact hstate

theorem lt_maxLen_of_accepted {prompt : List TokenId} (h : ex.refusal prompt = none) :
    prompt.length < ex.maxLen := by
  unfold refusal at h
  split_ifs at h with hle
  omega

/-- The arena before a decode step : the last token of a list is fed next. -/
theorem Holds.arena_concat {kv : ℕ → E} {state : ServingState Unit}
    (hs : ex.Holds slot P kv q state) (hdone : q.numScheduledTokens = q.inputIds.length)
    {us : List TokenId} {t : TokenId} (hout : q.outputIds = us ++ [t]) :
    StaticArena.below kv (q.inputIds.length + (us ++ [t]).length) =
      ex.visibleAfter slot q.inputIds us := by
  have harena := hs.arena hdone
  rw [hout, List.dropLast_concat, Nat.max_eq_right (by simp)] at harena
  exact harena

/-- Appending the next token alone. -/
theorem decodeOk_one (state : ServingState Unit) (env' : Env E D)
    (h : (ex.graphSimulation slot P D).Tracks st q)
    (hdone : q.numScheduledTokens = q.inputIds.length) (haccepted : ex.refusal q.inputIds = none)
    (hgen : state.generatedTokenIds = q.outputIds)
    (hfin : state.finished = false) (hpend : state.pendingTokenId = none)
    (hprompt : state.promptTokenCount = q.inputIds.length)
    (hpre : state.prefilledTokenCount = q.numScheduledTokens)
    (hroom : q.inputIds.length + q.outputIds.length < ex.maxLen)
    (harena : StaticArena.below env'.state.runner.kv
        (q.inputIds.length + q.outputIds.length + 1) =
      ex.visibleAfter slot q.inputIds q.outputIds) :
    (ex.graphSimulation slot P D).DecodeOk q
      (GraphState.store env' q.seqId (appendTokenResult ex.config ex.tokenizer q state
        (ex.nextToken slot q q.outputIds)).2).state
      (.ok (.one (appendTokenResult ex.config ex.tokenizer q state
        (ex.nextToken slot q q.outputIds)).1)) := by
  have hone : appendTokenResults ex.config ex.tokenizer q state [ex.nextToken slot q q.outputIds] =
      _ := appendTokenResults_singleton state (ex.nextToken slot q q.outputIds)
  refine decodeOk_follow (n := 0) h hdone haccepted hone hgen hfin hpend hprompt hpre hroom ?_ rfl
  rw [Generation.follow, Generation.follow, List.dropLast_concat]
  exact harena

/-- A decode of the executor without a draft keeps the simulation, and raises only if there is
no room left. -/
theorem forwardDecode_ok (habout : (ex.graphSimulation slot P D).About q)
    (h : (ex.graphSimulation slot P D).Tracks env.state q)
    (hdone : q.numScheduledTokens = q.inputIds.length) (batch : Batch) :
    (ex.graphSimulation slot P D).DecodeOk q (ex.forwardDecode q batch env).2.state
        (ex.forwardDecode q batch env).1 ∧
      ∀ e, (ex.forwardDecode q batch env).1 = .error e →
        e = noRoom ∧ ex.maxLen ≤ q.inputIds.length + q.outputIds.length := by
  obtain ⟨hq, hne, hP⟩ := id habout
  have hholds : ex.HasState slot P env.state q := h.holds
  obtain ⟨state, hst, hs⟩ := hholds.holds hne hdone
  have haccepted := hs.accepted hdone
  have hpre := hs.prefilled haccepted
  have hensure : env.state.states.ensure q = state := by
    rw [ServingStates.ensure, hst, Option.getD_some]
  have hpending := hs.pending
  unfold forwardDecode
  rw [hensure]
  dsimp only
  rw [if_neg (by simp [hs.finished])]
  rcases List.eq_nil_or_concat' q.outputIds with hout | ⟨us, t, hout⟩
  · rw [pendingToken, if_pos ⟨hout, hdone⟩] at hpending
    rw [hpending]
    have harena := hs.arena hdone
    have hlt := lt_maxLen_of_accepted haccepted
    have hone := decodeOk_one { state with pendingTokenId := none } env h hdone haccepted
      hs.generated hs.finished rfl hs.prompt hpre
    rw [hout] at harena hone
    exact ⟨hone hlt harena, fun e he => by cases he⟩
  have hnil : q.outputIds ≠ [] := by simp [hout]
  rw [pendingToken, if_neg fun hnil' => hnil hnil'.1] at hpending
  rw [hpending, hs.generated, hs.prompt, hout, List.getLast?_concat]
  dsimp only
  by_cases hmax : ex.maxLen ≤ q.inputIds.length + (us ++ [t]).length
  · rw [if_pos hmax]
    exact ⟨h.other (hs.stored rfl), fun e he => ⟨by cases he; rfl, hmax⟩⟩
  rw [if_neg hmax]
  have hbelow := hs.arena_concat hdone hout
  by_cases hgreedy : ex.isGreedy q = false
  · -- one decode step, and the argmax of the penalised logits
    rw [if_pos hgreedy]
    obtain ⟨hlogits, hnext⟩ := decode_visible (by omega) hbelow
    rw [hlogits, sample_greedy hq, ← hout]
    refine ⟨decodeOk_one state _ h hdone haccepted hs.generated hs.finished hpending hs.prompt hpre
      ?_ ?_, fun e he => by cases he⟩
    · rw [hout]
      omega
    · rw [hout]
      exact hnext
  · -- a chunk of decode steps
    rw [if_neg hgreedy]
    rw [Bool.not_eq_false, isGreedy, Bool.and_eq_true, decide_eq_true_eq, decide_eq_true_eq]
      at hgreedy
    have hraw : (fun ts => greedyToken (ex.graphLogits slot q.inputIds ts)) =
        ex.nextToken slot q := by
      funext ts
      rw [nextToken, hgreedy.2, penalise_one]
    obtain ⟨n, hn, hroom⟩ : ∃ n, ex.chunkLength ((q.maxNewTokens : ℤ) - (us ++ [t]).length)
        (q.inputIds.length + (us ++ [t]).length) = n + 1 ∧
        q.inputIds.length + (us ++ [t]).length + (n + 1) ≤ ex.maxLen := by
      have hchunk : ∀ a b : ℤ, 1 ≤ b → 1 ≤ max 1 (min a b) ∧ max 1 (min a b) ≤ b := fun a b hb =>
        ⟨le_max_left _ _, max_le hb (min_le_right _ _)⟩
      obtain ⟨hone, hle⟩ := hchunk (min ex.decodeChunk ((q.maxNewTokens : ℤ) - (us ++ [t]).length))
        ((ex.maxLen : ℤ) - ↑(q.inputIds.length + (us ++ [t]).length)) (by omega)
      refine ⟨ex.chunkLength ((q.maxNewTokens : ℤ) - (us ++ [t]).length)
        (q.inputIds.length + (us ++ [t]).length) - 1, ?_, ?_⟩ <;> unfold chunkLength <;> omega
    rw [hn]
    obtain ⟨htokens, hloop⟩ := decodeLoop_visible hroom hbelow
    rw [hraw] at htokens hloop
    rw [htokens, ← hout]
    refine ⟨decodeOk_follow h hdone haccepted rfl hs.generated hs.finished hpending hs.prompt hpre
      ?_ ?_ rfl,
      fun e he => by cases he⟩
    · rw [hout]
      exact hroom
    · rw [hout]
      exact hloop

/-! ## Serving -/

theorem accepted_of_tracks (habout : (ex.graphSimulation slot P D).About q)
    (h : (ex.graphSimulation slot P D).Tracks st q)
    (hdone : q.numScheduledTokens = q.inputIds.length) : ex.refusal q.inputIds = none := by
  have hholds : ex.HasState slot P st q := h.holds
  obtain ⟨state, -, hs⟩ := hholds.holds habout.2.1 hdone
  exact hs.accepted hdone

/-- The room of a sequence is used up when the position of its next decode is too large. -/
theorem room_le (h : ex.maxLen ≤ q.inputIds.length + q.outputIds.length) :
    (ex.graphSimulation slot P D).room q ≤ q.outputIds.length :=
  Nat.cast_le.2 (by omega)

theorem serves (ex : CudaGraphQwen3Executor E) (slot : List TokenId → E)
    (P : List TokenId → Prop) (D : Type) :
    (ex.graphSimulation slot P D).Serves (ex.modelExecutor D) ex.refusal noRoom where
  prefills _ _ _ habout ht hchunk := (forwardPrefill_ok habout ht hchunk).1
  shared _ _ := trivial
  uncached := rfl
  paged := rfl
  refused _ _ _ e habout ht hchunk he := (forwardPrefill_ok habout ht hchunk).2 e he
  accepted _ _ habout ht hdone := accepted_of_tracks habout ht hdone
  decodes _ batch _ habout ht hdone := (forwardDecode_ok habout ht hdone batch).1
  exhausted _ batch _ e habout ht hdone he :=
    ((forwardDecode_ok habout ht hdone batch).2 e he).imp_right room_le

/-- A model whose next token depends on the tokens before it and on their number. -/
def sumRow (visible : List (ℕ × TokenId)) (_ : ℕ) (t : TokenId) : TokenId × List ℚ :=
  (t, (List.range 8).map fun i =>
    if (i : ℤ) = ((visible.map Prod.snd).sum + t + visible.length) % 8 then 1 else 0)

def sumExecutor : CudaGraphQwen3Executor TokenId where
  config := { graphMaxLen := 32, decodeChunk := 2, speculativeTokens := 2 }
  tokenizer := charTokenizer
  torch := { softmax := fun scores => scores.map fun _ => 1, multinomial := fun _ _ => 1 }
  row := sumRow

/-- A greedy request without a penalty, for five tokens. -/
def greedyRequest (sessionId : String) : Request :=
  { ServerState.shortRequest sessionId with
    temperature := 0, repetitionPenalty := some 1, maxNewTokens := 5 }

end CudaGraphQwen3Executor

end SoloRT
