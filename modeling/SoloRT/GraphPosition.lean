import SoloRT.GraphSpeculative
import SoloRT.Greedy
import SoloRT.PrefixSharing

/-!
# The positions of the decode graphs

A prefill leaves the K/V of the prompt at its positions, and returns the first token. The first
decode step is to feed this token at the position after the prompt, as `_decode_next` does and
`microbench_decode.py` too. `forward_decode` feeds it at `prompt_token_count +
len(generated_token_ids)`, where the list has the token already, so one position later
(`firstReplay_preserves`).

A request agrees with greedy generation on the Transformers executor as long as no decode graph is
replayed for it. It goes on to do so if and only if the prompt is refused, its first token ends
it, or there is no room for a second one (`agrees_iff`).
-/

namespace SoloRT

namespace GraphQwen3Runner

variable {E : Type} (g : GraphQwen3Runner E)

theorem prefill_replays (ids : List TokenId) (st : RunnerState E) :
    (g.prefill ids st).2.replays = st.replays := by
  unfold prefill
  split
  · rfl
  · split_ifs <;> rfl

theorem decode_replays (token : TokenId) (pos : ℕ) (st : RunnerState E) :
    ∃ visible, (g.decode token pos st).2.replays =
      st.replays ++ [{ tokenId := token, pos, visible }] := by
  unfold decode
  dsimp only
  split_ifs <;> exact ⟨_, rfl⟩

theorem decodeLoop_replays (k : ℕ) (token : TokenId) (pos : ℕ) (st : RunnerState E) :
    st.replays <+: (g.decodeLoop k token pos st).2.replays := by
  induction k generalizing token pos st with
  | zero => exact List.prefix_rfl
  | succ k ih =>
    obtain ⟨visible, h⟩ := g.decode_replays token pos st
    have hfirst : st.replays <+: (g.decodeArgmax token pos st).2.replays := by
      show _ <+: (g.decode token pos st).2.replays
      rw [h]
      exact List.prefix_append _ _
    exact hfirst.trans (ih _ (pos + 1) _)

/-- The first step of a chunk is for the token and the position it is given. -/
theorem decodeLoop_first (k : ℕ) (token : TokenId) (pos : ℕ) (st : RunnerState E) :
    ∃ visible, st.replays ++ [{ tokenId := token, pos, visible }] <+:
      (g.decodeLoop (k + 1) token pos st).2.replays := by
  obtain ⟨visible, h⟩ := g.decode_replays token pos st
  refine ⟨visible, ?_⟩
  rw [← h]
  exact g.decodeLoop_replays k _ (pos + 1) _

end GraphQwen3Runner

namespace CudaGraphQwen3Executor

variable {E D : Type} (ex : CudaGraphQwen3Executor E)

/-! ## The plain path -/

/-- The Transformers executor with the same forward pass. -/
def plain : TransformersTextExecutor Unit where
  config := ex.config
  tokenizer := ex.tokenizer
  torch := ex.torch
  model := { logits := ex.runner.promptLogits, inPlace := true }
  draftModel := none

/-- The decode steps `replays` and the tokens of a sequence are as on the plain path. -/
structure Agrees (q : Sequence) (replays : List (Replay E)) : Prop where
  /-- The token with index `i` is fed at position `i`. -/
  fed : ∀ (k : ℕ) tokenId r, q.outputIds[k]? = some tokenId → replays[k]? = some r →
    r.tokenId = tokenId ∧ r.pos = q.inputIds.length + k
  /-- A decode step reads the K/V of the tokens before its own. -/
  read : ∀ (k : ℕ) r, k < q.outputIds.length → replays[k]? = some r →
    r.visible = StaticArena.feed ex.row [] 0 (q.inputIds ++ q.outputIds.take k)
  emitted : q.outputIds <+: ex.plain.reference q
  finished : q.status = .finished → q.outputIds = ex.plain.reference q

/-- Either no decode graph was replayed, or the first was at the position after that of its
token. -/
def FirstReplay (st : GraphState E D) (q : Sequence) : Prop :=
  (st.runner.replays = [] ∧ q.outputIds.length ≤ 1) ∨
    ∃ r, st.runner.replays[0]? = some r ∧ r.pos = q.inputIds.length + 1 ∧ 2 ≤ q.outputIds.length

variable {ex} {slot : List TokenId → E} {P : List TokenId → Prop}

theorem forwardPrefill_replays (q : Sequence) (batch : Batch) (env : Env E D) :
    (ex.forwardPrefill q batch env).2.state.runner.replays = env.state.runner.replays := by
  unfold forwardPrefill
  dsimp only
  have hprefill := ex.runner.prefill_replays (q.inputIds.take q.numPromptTokens) env.state.runner
  split_ifs
  · rfl
  · rfl
  · rfl
  · generalize ex.runner.prefill (q.inputIds.take q.numPromptTokens) env.state.runner = r
      at hprefill
    obtain ⟨e | logits, runner⟩ := r <;> exact hprefill

/-- A decode emits the first token without a replay, raises, or replays a graph first for the
position after all tokens. -/
theorem forwardDecode_replays {q : Sequence} (batch : Batch) {env : Env E D}
    (habout : (ex.graphSimulation slot P D).About q)
    (h : (ex.graphSimulation slot P D).Tracks env.state q)
    (hdone : q.numScheduledTokens = q.inputIds.length) :
    (ex.forwardDecode q batch env).2.state.runner.replays = env.state.runner.replays ∧
        ((∃ e, (ex.forwardDecode q batch env).1 = .error e) ∨
          q.outputIds = [] ∧ ∃ result, (ex.forwardDecode q batch env).1 = .ok (.one result)) ∨
      q.outputIds ≠ [] ∧ (∃ output, (ex.forwardDecode q batch env).1 = .ok output) ∧
        ∃ tokenId visible, env.state.runner.replays ++
          [{ tokenId, pos := q.inputIds.length + q.outputIds.length, visible }] <+:
            (ex.forwardDecode q batch env).2.state.runner.replays := by
  have hholds : ex.HasState slot P env.state q := h.holds
  obtain ⟨state, hst, hs⟩ := hholds.holds habout.2.1 hdone
  have hensure : env.state.states.ensure q = state := by
    rw [ServingStates.ensure, hst, Option.getD_some]
  have hpending := hs.pending
  unfold forwardDecode
  rw [hensure]
  dsimp only
  rw [if_neg (by simp [hs.finished])]
  rcases List.eq_nil_or_concat' q.outputIds with hout | ⟨us, t, hout⟩
  · rw [pendingToken, if_pos ⟨hout, hdone⟩] at hpending
    rw [hpending]
    exact .inl ⟨rfl, .inr ⟨hout, _, rfl⟩⟩
  have hnil : q.outputIds ≠ [] := by simp [hout]
  rw [pendingToken, if_neg fun hnil' => hnil hnil'.1] at hpending
  rw [hpending, hs.generated, hs.prompt, hout, List.getLast?_concat]
  dsimp only
  split_ifs with hmax hgreedy
  · exact .inl ⟨rfl, .inl ⟨_, rfl⟩⟩
  · -- one decode step
    obtain ⟨visible, hreplays⟩ := ex.runner.decode_replays t
      (q.inputIds.length + (us ++ [t]).length) env.state.runner
    refine .inr ⟨by simp, ⟨_, rfl⟩, t, visible, ?_⟩
    rw [← hreplays]
    exact List.prefix_rfl
  · -- a chunk of decode steps, at least one
    obtain ⟨k, hk⟩ : ∃ k, ex.chunkLength ((q.maxNewTokens : ℤ) - (us ++ [t]).length)
        (q.inputIds.length + (us ++ [t]).length) = k + 1 := by
      refine ⟨ex.chunkLength ((q.maxNewTokens : ℤ) - (us ++ [t]).length)
        (q.inputIds.length + (us ++ [t]).length) - 1, ?_⟩
      unfold chunkLength
      omega
    rw [hk]
    obtain ⟨visible, hreplays⟩ := ex.runner.decodeLoop_first k t
      (q.inputIds.length + (us ++ [t]).length) env.state.runner
    exact .inr ⟨by simp, ⟨_, rfl⟩, t, visible, hreplays⟩

/-- The first replay of a request is for its first token, one position too far. -/
theorem firstReplay_preserves :
    (ex.graphSimulation slot P D).Preserves (ex.modelExecutor D) FirstReplay where
  congr hreq hout h := by
    rw [FirstReplay, hout, Sequence.inputIds_of_request hreq]
    exact h
  prefill q batch env _ _ h := by
    have hsame : ((ex.modelExecutor D).forwardPrefill q batch env).2.state.runner.replays =
        env.state.runner.replays := forwardPrefill_replays q batch env
    rw [FirstReplay, hsame]
    exact h
  decodeFailed q batch env e habout ht hdone h he := by
    have he' : (ex.forwardDecode q batch env).1 = .error e := he
    rcases forwardDecode_replays batch habout ht hdone with ⟨hsame, -⟩ | ⟨-, ⟨output, hok⟩, -⟩
    · rw [FirstReplay]
      show ((ex.forwardDecode q batch env).2.state.runner.replays = [] ∧ _) ∨
        ∃ r, (ex.forwardDecode q batch env).2.state.runner.replays[0]? = some r ∧ _
      rw [hsame]
      exact h
    · rw [he'] at hok
      cases hok
  decoded q batch env output xs habout ht hdone h he hxs := by
    have he' : (ex.forwardDecode q batch env).1 = .ok output := he
    obtain ⟨xs', hxs', hne, -⟩ : (ex.graphSimulation slot P D).DecodeOk q _ (.ok output) :=
      he' ▸ (forwardDecode_ok habout ht hdone batch).1
    obtain rfl : xs' = xs := Except.ok.inj (hxs'.symm.trans hxs)
    have hpos := List.length_pos_of_ne_nil hne
    rw [FirstReplay]
    show ((ex.forwardDecode q batch env).2.state.runner.replays = [] ∧
        (q.outputIds ++ xs'.map SampleResult.tokenId).length ≤ 1) ∨
      ∃ r, (ex.forwardDecode q batch env).2.state.runner.replays[0]? = some r ∧
        r.pos = q.inputIds.length + 1 ∧ 2 ≤ (q.outputIds ++ xs'.map SampleResult.tokenId).length
    rw [List.length_append, List.length_map]
    rcases forwardDecode_replays batch habout ht hdone with
      ⟨hsame, ⟨e, herr⟩ | ⟨hout, result, hone⟩⟩ | ⟨hout, -, tokenId, visible, hreplays⟩
    · rw [he'] at herr
      cases herr
    · -- the first token is emitted
      rw [he'] at hone
      cases hone
      cases hxs
      rw [hsame]
      refine h.imp (fun h => ⟨h.1, by simp [hout]⟩) ?_
      rintro ⟨r, -, -, htwo⟩
      simp [hout] at htwo
    · -- a graph is replayed
      have hlen := List.length_pos_of_ne_nil hout
      refine .inr ?_
      rcases h with ⟨hnone, hone⟩ | ⟨r, hr, hrpos, htwo⟩
      · rw [hnone, List.nil_append] at hreplays
        refine ⟨_, RuntimeCore.getElem?_of_isPrefix hreplays rfl, ?_, by omega⟩
        dsimp only
        omega
      · refine ⟨r, ?_, hrpos, by omega⟩
        exact RuntimeCore.getElem?_of_isPrefix ((List.prefix_append _ _).trans hreplays) hr

/-! ## Agreement -/

variable (slot) in
theorem nextToken_plain (q : Sequence) : ex.plain.nextToken q [] = ex.nextToken slot q [] := by
  rw [TransformersTextExecutor.nextToken, List.append_nil]
  rfl

/-- A request with at most its first token agrees, if no graph was replayed for it. -/
theorem agrees_of_length_le_one {q : Sequence} (hlen : q.outputIds.length ≤ 1)
    (h : Generation.Running ((ex.graphSimulation slot P D).next q)
        ((ex.graphSimulation slot P D).stop q) q.outputIds ∧
        q.outputIds.length ≤ (ex.graphSimulation slot P D).room q ∧ q.status ≠ .finished ∨
      (ex.graphSimulation slot P D).IsDone q q.outputIds) : ex.Agrees q [] := by
  have hnext : (ex.graphSimulation slot P D).next q [] = ex.plain.nextToken q [] :=
    (nextToken_plain slot q).symm
  have hmax : q.outputIds.length ≤ max 1 q.maxNewTokens := hlen.trans (le_max_left _ _)
  rcases h with ⟨hrun, -, hlive⟩ | ⟨hdone, -⟩
  · refine ⟨by simp, by simp, ?_, fun hfin => absurd hfin hlive⟩
    by_cases hnil : q.outputIds = []
    · rw [hnil]
      exact List.nil_prefix
    · obtain ⟨hfirst, hstop⟩ := hrun.first hnil
      have hout : q.outputIds = [ex.plain.nextToken q []] := by
        rw [← hnext]
        exact (hfirst.eq_of_length (le_antisymm hfirst.length_le hlen)).symm
      have hplain : Generation.Running (ex.plain.nextToken q)
          (endsGeneration ex.config ex.tokenizer q) ([] ++ [ex.plain.nextToken q []]) :=
        .snoc .nil (by rw [← hnext]; exact hstop)
      rw [hout] at hmax ⊢
      exact hplain.prefix_generate hmax
  · have hout : q.outputIds = ex.plain.reference q := by
      obtain ⟨ys, hys, hout, hstop⟩ := hdone
      have hnil : ys = [] := by
        rw [hout, List.length_append, List.length_singleton] at hlen
        exact List.length_eq_zero_iff.1 (by omega)
      subst hnil
      rw [hnext, List.nil_append] at hout
      have hplain : Generation.Complete (ex.plain.nextToken q)
          (endsGeneration ex.config ex.tokenizer q) q.outputIds := ⟨[], .nil, hout, hstop⟩
      exact (hplain.generate_eq hmax).symm
    exact ⟨by simp, by simp, hout ▸ List.prefix_rfl, fun _ => hout⟩

/-- A request that is served alone agrees with the plain path in every turn if and only if its
prompt is refused, no room is left for a second token, or the first one ends it. -/
theorem agrees_iff (ex : CudaGraphQwen3Executor E) (config : RuntimeConfig) (st : GraphState E D)
    (request : Request) (hgreedy : request.temperature ≤ 0) (id : SeqId)
    (hfresh : st.states id = none) (hreplays : st.runner.replays = [])
    (hadd : ((RuntimeCore.create config st).addRequest (ex.modelExecutor D) request).1 = .ok id)
    {q₀ : Sequence} (hq₀ : (served (ex.modelExecutor D) config st request id
      0).runtime.scheduler.get id = some q₀) (hne : q₀.inputIds ≠ []) :
    (∀ turns q, (served (ex.modelExecutor D) config st request id
        turns).runtime.scheduler.get id = some q →
      ex.Agrees q (served (ex.modelExecutor D) config st request id
        turns).runtime.executor.runner.replays) ↔
    ex.refusal q₀.inputIds ≠ none ∨ ex.maxLen ≤ q₀.inputIds.length + 1 ∨
      endsGeneration ex.config ex.tokenizer q₀ [ex.plain.nextToken q₀ []] = true := by
  let S := ex.graphSimulation (SpecCudaGraphQwen3Executor.slotOf ex st.runner.kv) (fun _ => True) D
  have hS : S.Serves (ex.modelExecutor D) ex.refusal noRoom := ex.serves _ _ D
  obtain ⟨sessionId, inputIds, hget, -⟩ := served_zero (by rfl) hadd
  have habout : S.About q₀ := by
    obtain rfl := Option.some.inj (hq₀.symm.trans hget)
    exact ⟨hgreedy, hne, trivial⟩
  have habsent : S.Absent st id :=
    ⟨hfresh, fun prompt _ => SpecCudaGraphQwen3Executor.slotOk_slotOf ex st.runner.kv prompt⟩
  have halone := served_alone hS trivial habsent hadd hq₀ fun _ => habout
  have hfirst : ∀ turns q, (served (ex.modelExecutor D) config st request id
      turns).runtime.scheduler.get id = some q →
      FirstReplay (served (ex.modelExecutor D) config st request id turns).runtime.executor q :=
    fun turns q hq => by
      refine served_preserves firstReplay_preserves hS trivial habsent hadd hq₀ habout ?_ turns hq
      obtain rfl := Option.some.inj (hq₀.symm.trans hget)
      rw [served_zero_executor]
      exact .inl ⟨hreplays, Nat.zero_le 1⟩
  have hstop : endsGeneration ex.config ex.tokenizer q₀ [ex.plain.nextToken q₀ []] =
      S.stop q₀ [S.next q₀ []] := by
    rw [nextToken_plain (SpecCudaGraphQwen3Executor.slotOf ex st.runner.kv)]
    rfl
  rw [hstop]
  constructor
  · -- a request that goes on replays a graph at a wrong position
    intro hagrees
    by_contra hgoes
    rw [not_or, not_or, not_not, Nat.not_le, Bool.not_eq_true] at hgoes
    obtain ⟨haccepted, hroom, hends⟩ := hgoes
    obtain ⟨N, t, ht, q, hq, hreq, hout⟩ := served_settles hS trivial habsent hadd hq₀
      fun _ => habout
    have hN := ht N le_rfl
    have hroom' : 2 ≤ S.room q₀ := by
      show (2 : ℕ∞) ≤ ((ex.maxLen - q₀.inputIds.length : ℕ) : ℕ∞)
      exact_mod_cast (by omega : 2 ≤ ex.maxLen - q₀.inputIds.length)
    have htwo := hout.two_le_length hne haccepted hroom' hends
    have hq' := hq
    rw [← hN] at hq'
    obtain ⟨-, hone⟩ | ⟨r, hr, hpos, -⟩ := hfirst N q hq'
    · omega
    · obtain ⟨-, hpos'⟩ := (hagrees N q hq').fed 0 _ r (List.getElem?_eq_getElem (by omega)) hr
      omega
  · intro hends turns q hq
    obtain ⟨haccepted, hout⟩ := (halone turns).outputs hS habout hq
    obtain ⟨q', hq', hreq, -⟩ := (halone turns).stage
    obtain rfl : q = q' := Option.some.inj (hq.symm.trans hq')
    have hin := Sequence.inputIds_of_request hreq
    have hle : q.outputIds.length ≤ 1 := by
      rcases hends with hr | hroom | hends
      · have hnil : q.outputIds = [] := by
          by_contra hne'
          exact hr (hin ▸ haccepted hne')
        simp [hnil]
      · have hroom' : S.room q ≤ 1 := by
          show ((ex.maxLen - q.inputIds.length : ℕ) : ℕ∞) ≤ 1
          rw [hin]
          exact_mod_cast (by omega : ex.maxLen - q₀.inputIds.length ≤ 1)
        rcases hout with ⟨-, hlen, -⟩ | ⟨-, hlen⟩ <;> exact_mod_cast hlen.trans hroom'
      · rw [← Simulation.stop_of_request hreq, ← S.next_of_request hreq] at hends
        rcases hout with ⟨hrun, -⟩ | ⟨hcomplete, -⟩
        · by_contra hlen
          have hstop := (hrun.first (List.ne_nil_of_length_pos (by omega))).2
          rw [hends] at hstop
          cases hstop
        · exact (hcomplete.length_eq_one_iff.2 hends).le
    obtain ⟨hnone, -⟩ | ⟨r, -, -, htwo⟩ := hfirst turns q hq
    · rw [hnone]
      exact agrees_of_length_le_one hle hout
    · omega

/-- An arena with stale entries. -/
def staleState : GraphState TokenId Unit :=
  { runner := { kv := fun _ => 3 }, draft := { kv := fun _ => () } }

/-- A request for one token agrees. -/
theorem agrees_one_token : ∃ q₀, (served (sumExecutor.modelExecutor Unit)
      ServerState.smallConfig staleState { greedyRequest "a" with maxNewTokens := 1 } 0
        0).runtime.scheduler.get 0 = some q₀ ∧
    ∀ turns q, (served (sumExecutor.modelExecutor Unit)
      ServerState.smallConfig staleState { greedyRequest "a" with maxNewTokens := 1 } 0
        turns).runtime.scheduler.get 0 = some q →
    sumExecutor.Agrees q (served (sumExecutor.modelExecutor Unit) ServerState.smallConfig
      staleState { greedyRequest "a" with maxNewTokens := 1 } 0
        turns).runtime.executor.runner.replays := by
  have hq₀ : ((served (sumExecutor.modelExecutor Unit) ServerState.smallConfig staleState
      { greedyRequest "a" with maxNewTokens := 1 } 0 0).runtime.scheduler.get 0).map
        (fun q => (q.inputIds, endsGeneration sumExecutor.config sumExecutor.tokenizer q
          [sumExecutor.plain.nextToken q []])) = some ([104, 105], true) := by decide +kernel
  obtain ⟨q₀, hq₀, hfields⟩ := Option.map_eq_some_iff.1 hq₀
  simp only [Prod.mk.injEq] at hfields
  obtain ⟨hin, hends⟩ := hfields
  exact ⟨q₀, hq₀, (agrees_iff sumExecutor ServerState.smallConfig staleState
    { greedyRequest "a" with maxNewTokens := 1 } le_rfl 0 rfl rfl rfl hq₀ (by simp [hin])).2
      (.inr (.inr hends))⟩

/-- A request for five tokens gets others than on the plain path. -/
theorem not_agrees_greedyRequest : ¬∀ turns q,
    (served (sumExecutor.modelExecutor Unit) ServerState.smallConfig staleState
      (greedyRequest "a") 0 turns).runtime.scheduler.get 0 = some q →
    sumExecutor.Agrees q (served (sumExecutor.modelExecutor Unit) ServerState.smallConfig
      staleState (greedyRequest "a") 0 turns).runtime.executor.runner.replays := by
  intro h
  have hq : ((served (sumExecutor.modelExecutor Unit) ServerState.smallConfig staleState
      (greedyRequest "a") 0 7).runtime.scheduler.get 0).map
        (fun q => (q.status, q.outputIds, sumExecutor.plain.reference q)) =
      some (.finished, [2, 6, 5, 3, 7], [2, 5, 3, 7, 7]) := by decide +kernel
  obtain ⟨q, hq, hfields⟩ := Option.map_eq_some_iff.1 hq
  simp only [Prod.mk.injEq] at hfields
  obtain ⟨hfin, hout, href⟩ := hfields
  have hsame := (h 7 q hq).finished hfin
  rw [hout, href] at hsame
  cases hsame

end CudaGraphQwen3Executor

end SoloRT
