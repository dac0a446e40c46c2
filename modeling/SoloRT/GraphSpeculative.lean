import SoloRT.GraphDecode

/-!
# Graphed speculative decoding

A round of `SpecCudaGraphQwen3Executor` feeds the last token and the proposals of the draft model
to one verification. Its rows are the logits after each proposal, as a decode step of the plain
executor would have them, so the round appends the next tokens of the same generator, however
many proposals it accepts. The rejected ones stay in the arena from the position of the next
round on, where nothing reads them before they are overwritten.
-/

namespace SoloRT

namespace SpecCudaGraphQwen3Executor

open CudaGraphQwen3Executor

variable {E D : Type} {ex : SpecCudaGraphQwen3Executor E D} {slot : List TokenId → E}
  {P : List TokenId → Prop} {q : Sequence} {env : Env E D}

variable (ex) in
/-- The draft model has a prefill bucket for a prompt if the target has one. -/
theorem draft_preBucket (prompt : List TokenId) :
    ex.draft.preBucket prompt = ex.runner.preBucket prompt :=
  rfl

theorem exists_preBucket_of_accepted {prompt : List TokenId} (h : ex.refusal prompt = none) :
    ∃ bound, ex.runner.preBucket prompt = some bound := by
  unfold refusal at h
  split_ifs at h with hmax hnone
  exact Option.ne_none_iff_exists'.1 hnone

/-- The draft's part of a serving state may change. -/
theorem holds_draftPrefilled {kv : ℕ → E} {state : ServingState Unit} (b : Bool)
    (h : ex.Holds slot P kv q state) : ex.Holds slot P kv q { state with draftPrefilled := b } :=
  ⟨h.prompt, h.progress, h.prefilled, h.pending, h.generated, h.finished, h.slotOk, h.accepted,
    h.arena⟩

/-- A prefill chunk keeps the simulation. The draft model refuses no prompt that the target
accepts. -/
theorem forwardPrefill_ok (habout : (ex.graphSimulation slot P D).About q)
    (h : (ex.graphSimulation slot P D).Tracks env.state q) {batch : Batch}
    (hchunk : batch.inputIds <+: q.inputIds.drop q.numScheduledTokens) :
    (ex.graphSimulation slot P D).PrefillOk q batch.inputIds.length
        (ex.forwardPrefill q batch env).2.state (ex.forwardPrefill q batch env).1 ∧
      ∀ e, (ex.forwardPrefill q batch env).1 = .error e → ex.refusal q.inputIds = some e := by
  obtain ⟨hok, herror⟩ := CudaGraphQwen3Executor.forwardPrefill_ok habout h hchunk
  obtain ⟨-, hne, -⟩ := habout
  unfold forwardPrefill
  generalize ex.toCudaGraphQwen3Executor.forwardPrefill q batch env = r at hok herror ⊢
  obtain ⟨e | u, env'⟩ := r
  · exact ⟨hok, herror⟩
  dsimp only at hok ⊢
  have hholds : ex.HasState slot P env'.state
    { q with numScheduledTokens := q.numScheduledTokens + batch.inputIds.length } := hok
  have hkeep : (ex.graphSimulation slot P D).PrefillOk q batch.inputIds.length env'.state
      (.ok ()) := hok
  cases hst : env'.state.states q.seqId with
  | none => exact ⟨hkeep, fun e he => by cases he⟩
  | some state =>
    dsimp only
    by_cases hpending : state.pendingTokenId = none
    · rw [if_pos hpending]
      exact ⟨hkeep, fun e he => by cases he⟩
    rw [if_neg hpending]
    by_cases hdraft : state.draftPrefilled = true
    · rw [if_pos hdraft]
      exact ⟨hkeep, fun e he => by cases he⟩
    rw [if_neg hdraft]
    obtain ⟨state', hst', hs⟩ : ∃ state', env'.state.states q.seqId = some state' ∧
        ex.Holds slot P env'.state.runner.kv
          { q with numScheduledTokens := q.numScheduledTokens + batch.inputIds.length } state' := by
      rcases hholds with ⟨-, hnone, -⟩ | hstate
      · rw [hst] at hnone
        cases hnone
      · exact hstate
    obtain rfl : state = state' := Option.some.inj (hst.symm.trans hst')
    have hdone : q.numScheduledTokens + batch.inputIds.length = q.inputIds.length := by
      by_contra hlt
      refine hpending (hs.pending.trans ?_)
      rw [pendingToken, if_neg]
      exact fun hall => hlt hall.2
    obtain ⟨bound, hbucket⟩ := exists_preBucket_of_accepted (hs.accepted hdone)
    have hlogits := (GraphQwen3Runner.prefill_spec hne
      ((draft_preBucket ex q.inputIds).trans hbucket) env'.state.draft).1
    rw [h.prompt, List.take_length]
    cases hprefill : ex.draft.prefill q.inputIds env'.state.draft with
    | mk r draft =>
      rw [hprefill] at hlogits
      dsimp only at hlogits
      rw [hlogits]
      refine ⟨?_, fun e he => by cases he⟩
      refine .inr ⟨{ state with draftPrefilled := true }, ?_, holds_draftPrefilled true hs⟩
      simp [GraphState.store, ServingStates.store, hs.finished]

/-! ## A round -/

theorem sum_scanl_zero (xs : List ℕ) : (xs.scanl (· * ·) 0).sum = 0 := by
  induction xs with
  | nil => rfl
  | cons x xs ih => simpa using ih

/-- The cumulative product counts the proposals before the first that is rejected. -/
theorem cumprodSum_eq_agree (drafts tg : List TokenId) :
    cumprodSum tg drafts = Generation.agree drafts tg := by
  induction drafts generalizing tg with
  | nil => cases tg <;> rfl
  | cons d ds ih =>
    cases tg with
    | nil => rfl
    | cons t ts =>
      have hrest := ih ts
      rw [cumprodSum] at hrest ⊢
      rw [List.zipWith_cons_cons, List.scanl_cons, List.tail_cons, Generation.agree]
      by_cases htd : t = d
      · rw [if_pos htd, if_pos htd.symm, ← hrest]
        cases List.zipWith (fun t d => if t = d then 1 else 0) ts ds with
        | nil => rfl
        | cons x xs =>
          rw [mul_one, List.scanl_cons, List.tail_cons, List.sum_cons]
          exact Nat.add_comm _ _
      · rw [if_neg htd, if_neg (Ne.symm htd), mul_zero, sum_scanl_zero]

theorem length_decodeLoop {E : Type} (g : GraphQwen3Runner E) (k : ℕ) (t : TokenId) (pos : ℕ)
    (st : RunnerState E) : (g.decodeLoop k t pos st).1.length = k := by
  induction k generalizing t pos st with
  | zero => rfl
  | succ k ih => simp [GraphQwen3Runner.decodeLoop, ih]

/-- The rows of a verification are the logits after each proposal. -/
theorem verify_visible (drafts : List TokenId) {prompt us : List TokenId} {t : TokenId}
    {runner : RunnerState E}
    (hle : prompt.length + (us ++ [t]).length ≤ ex.maxLen)
    (hbelow : StaticArena.below runner.kv (prompt.length + (us ++ [t]).length) =
      ex.visibleAfter slot prompt us) :
    (ex.runner.verify (t :: drafts) (prompt.length + (us ++ [t]).length) runner).1 =
        (List.range (drafts.length + 1)).map
          (fun i => ex.graphLogits slot prompt (us ++ [t] ++ drafts.take i)) ∧
      ∀ n ≤ drafts.length, StaticArena.below
          (ex.runner.verify (t :: drafts) (prompt.length + (us ++ [t]).length) runner).2.kv
          (prompt.length + (us ++ [t]).length + (n + 1)) =
        ex.visibleAfter slot prompt (us ++ [t] ++ drafts.take n) := by
  obtain ⟨hrows, hkv⟩ := GraphQwen3Runner.verify_spec (g := ex.runner) hle (t :: drafts) runner
  have hrow : ex.runner.row = ex.row := rfl
  rw [hbelow, hrow] at hrows hkv
  have hfeed : ∀ n, ex.visibleAfter slot prompt (us ++ [t] ++ drafts.take n) =
      StaticArena.feed ex.row (ex.visibleAfter slot prompt us)
        (prompt.length + (us ++ [t]).length) (t :: drafts.take n) := by
    intro n
    have hpos : prompt.length + 1 + us.length = prompt.length + (us ++ [t]).length := by
      rw [List.length_append, List.length_singleton]
      omega
    rw [visibleAfter, List.append_assoc, StaticArena.feed_append, hpos]
    rfl
  refine ⟨?_, fun n hn => ?_⟩
  · rw [hrows]
    refine List.ext_getElem? fun i => ?_
    rw [List.getElem?_map, StaticArena.rows_getElem?, List.getElem?_map]
    by_cases hi : i < drafts.length + 1
    · rw [List.getElem?_range hi]
      cases i with
      | zero =>
        rw [Option.map_some, List.take_zero, List.take_zero, List.append_nil, graphLogits_concat]
        rfl
      | succ i =>
        have hlt : i < drafts.length := by omega
        have hfed := hfeed i
        have hpos : prompt.length + (us ++ [t] ++ drafts.take i ++ [drafts[i]]).length =
            prompt.length + (us ++ [t]).length + (i + 1) := by
          simp only [List.length_append, List.length_take, List.length_singleton]
          omega
        rw [List.getElem?_cons_succ, List.getElem?_eq_getElem hlt, List.take_succ_cons, ← hfed,
          Option.map_some, Option.map_some, Option.map_some, ← List.take_concat_get' _ _ hlt,
          ← List.append_assoc, graphLogits_concat, hpos]
    · rw [List.getElem?_eq_none (by simpa using hi), List.getElem?_eq_none (by simpa using hi)]
      rfl
  · have htake := hkv (t :: drafts.take n) (drafts.drop n)
      (by rw [List.cons_append, List.take_append_drop])
    rw [List.length_cons, List.length_take, Nat.min_eq_left hn] at htake
    rw [hfeed]
    exact htake

/-- A round returns the next tokens, and leaves the entries of all but the last. -/
theorem specRound_visible (st : GraphState E D) {prompt us : List TokenId} {t : TokenId}
    (hle : prompt.length + (us ++ [t]).length ≤ ex.maxLen)
    (hbelow : StaticArena.below st.runner.kv (prompt.length + (us ++ [t]).length) =
      ex.visibleAfter slot prompt us) :
    ∃ n ≤ ex.specK,
      (ex.specRound t (prompt.length + (us ++ [t]).length) st).1 = Generation.follow
        (fun ts => greedyToken (ex.graphLogits slot prompt ts)) (n + 1) (us ++ [t]) ∧
      StaticArena.below
          (ex.specRound t (prompt.length + (us ++ [t]).length) st).2.runner.kv
          (prompt.length + (us ++ [t]).length + (n + 1)) =
        ex.visibleAfter slot prompt (us ++ [t] ++ Generation.follow
          (fun ts => greedyToken (ex.graphLogits slot prompt ts)) (n + 1) (us ++ [t])).dropLast ∧
      (ex.specRound t (prompt.length + (us ++ [t]).length) st).2.states = st.states := by
  have hlen := length_decodeLoop ex.draft ex.specK t (prompt.length + (us ++ [t]).length) st.draft
  unfold specRound
  dsimp only
  cases hdraft : ex.draft.decodeLoop ex.specK t (prompt.length + (us ++ [t]).length) st.draft with
  | mk drafts draft =>
    rw [hdraft] at hlen
    dsimp only at hlen ⊢
    obtain ⟨hrows, hkv⟩ := verify_visible drafts hle hbelow
    cases hverify : ex.runner.verify (t :: drafts) (prompt.length + (us ++ [t]).length)
        st.runner with
    | mk logits runner =>
      rw [hverify] at hrows hkv
      dsimp only at hrows hkv ⊢
      have htg : logits.map greedyToken = (List.range (ex.specK + 1)).map fun i =>
          greedyToken (ex.graphLogits slot prompt (us ++ [t] ++ drafts.take i)) := by
        rw [hrows, List.map_map, hlen]
        rfl
      have htake : (logits.map greedyToken).take ex.specK = (List.range drafts.length).map fun i =>
          greedyToken (ex.graphLogits slot prompt (us ++ [t] ++ drafts.take i)) := by
        rw [htg, ← List.map_take, List.take_range, hlen, Nat.min_eq_left (Nat.le_succ _)]
      rw [htake, cumprodSum_eq_agree]
      obtain ⟨hn, hdrafts, -⟩ := Generation.agree_spec
        (fun ts => greedyToken (ex.graphLogits slot prompt ts)) drafts (us ++ [t])
      generalize haccept : Generation.agree drafts ((List.range drafts.length).map fun i =>
        greedyToken (ex.graphLogits slot prompt (us ++ [t] ++ drafts.take i))) = n at hn hdrafts ⊢
      rw [hlen] at hn
      -- the token after the accepted proposals
      have hcorrection : ((logits.map greedyToken).drop n).take 1 =
          [greedyToken (ex.graphLogits slot prompt (us ++ [t] ++ drafts.take n))] := by
        rw [htg, List.take_one, List.head?_drop, List.getElem?_map,
          List.getElem?_range (Nat.lt_succ_of_le hn)]
        rfl
      have htokens : drafts.take n ++ ((logits.map greedyToken).drop n).take 1 =
          Generation.follow (fun ts => greedyToken (ex.graphLogits slot prompt ts)) (n + 1)
            (us ++ [t]) := by
        rw [Generation.follow_concat, ← hdrafts, hcorrection]
      have harena : StaticArena.below runner.kv (prompt.length + (us ++ [t]).length + (n + 1)) =
          ex.visibleAfter slot prompt (us ++ [t] ++ Generation.follow
            (fun ts => greedyToken (ex.graphLogits slot prompt ts)) (n + 1)
              (us ++ [t])).dropLast := by
        rw [← htokens, hcorrection, ← List.append_assoc, List.dropLast_concat]
        exact hkv n (hlen ▸ hn)
      refine ⟨n, hn, ?_⟩
      by_cases hall : n = ex.specK
      · have hwhole : drafts.take n = drafts := List.take_of_length_le (by omega)
        rw [if_pos hall]
        rw [hwhole] at htokens
        exact ⟨hall ▸ htokens, harena, rfl⟩
      · rw [if_neg hall]
        exact ⟨htokens, harena, rfl⟩

/-- A decode keeps the simulation, and raises only if there is no room left. -/
theorem forwardDecode_ok (habout : (ex.graphSimulation slot P D).About q)
    (h : (ex.graphSimulation slot P D).Tracks env.state q)
    (hdone : q.numScheduledTokens = q.inputIds.length) (batch : Batch) :
    (ex.graphSimulation slot P D).DecodeOk q (ex.forwardDecode q batch env).2.state
        (ex.forwardDecode q batch env).1 ∧
      ∀ e, (ex.forwardDecode q batch env).1 = .error e →
        e = noRoom ∧ ex.maxLen ≤ q.inputIds.length + q.outputIds.length := by
  have hsuper := CudaGraphQwen3Executor.forwardDecode_ok habout h hdone batch
  obtain ⟨hq, hne, hP⟩ := id habout
  have hholds : ex.HasState slot P env.state q := h.holds
  obtain ⟨state, hst, hs⟩ := hholds.holds hne hdone
  have haccepted := hs.accepted hdone
  have hensure : env.state.states.ensure q = state := by
    rw [ServingStates.ensure, hst, Option.getD_some]
  unfold forwardDecode
  rw [hensure]
  dsimp only
  rw [if_neg (by simp [hs.finished])]
  by_cases hpending : state.pendingTokenId.isSome ∨ state.generatedTokenIds = []
  · rw [if_pos hpending]
    exact hsuper
  rw [if_neg hpending]
  rw [not_or, Bool.not_eq_true, Option.isSome_eq_false_iff, Option.isNone_iff_eq_none] at hpending
  obtain ⟨hnone, hnil⟩ := hpending
  rcases List.eq_nil_or_concat' q.outputIds with hout | ⟨us, t, hout⟩
  · exact absurd (hs.generated.trans hout) hnil
  rw [hs.generated, hs.prompt]
  split_ifs with hback
  · exact hsuper
  rw [not_or, not_or, not_not, not_le] at hback
  obtain ⟨-, hrep, hmax⟩ := hback
  have hraw : (fun ts => greedyToken (ex.graphLogits slot q.inputIds ts)) =
      ex.nextToken slot q := by
    funext ts
    rw [nextToken, hrep, penalise_one]
  have hlast : q.outputIds.getLastD 0 = t := by
    rw [hout, List.getLastD_concat]
  rw [hlast]
  rw [hout] at hmax
  obtain ⟨n, hn, htokens, harena, -⟩ := specRound_visible env.state (by omega)
    (hs.arena_concat hdone hout)
  rw [hraw, ← hout] at htokens harena
  rw [← hout] at hmax
  cases hround : ex.specRound t (q.inputIds.length + q.outputIds.length) env.state with
  | mk newTokens st =>
    rw [hround] at htokens harena
    dsimp only at htokens harena ⊢
    rw [htokens]
    have hgen := hs.generated
    have hpre := hs.prefilled haccepted
    exact ⟨decodeOk_follow h hdone haccepted rfl hgen hs.finished hnone hs.prompt hpre
      (by omega) harena rfl, fun e he => by cases he⟩

/-! ## Serving -/

theorem serves (ex : SpecCudaGraphQwen3Executor E D) (slot : List TokenId → E)
    (P : List TokenId → Prop) :
    (ex.graphSimulation slot P D).Serves ex.modelExecutor ex.refusal noRoom where
  prefills _ _ _ habout ht hchunk := (forwardPrefill_ok habout ht hchunk).1
  shared _ _ := trivial
  uncached := rfl
  paged := rfl
  refused _ _ _ e habout ht hchunk he := (forwardPrefill_ok habout ht hchunk).2 e he
  accepted _ _ habout ht hdone := accepted_of_tracks habout ht hdone
  decodes _ batch _ habout ht hdone := (forwardDecode_ok habout ht hdone batch).1
  exhausted _ batch _ e habout ht hdone he :=
    ((forwardDecode_ok habout ht hdone batch).2 e he).imp_right room_le

/-- The entry that a prefill over an arena leaves at the position after the prompt. -/
def slotOf (ex : CudaGraphQwen3Executor E) (kv : ℕ → E) (prompt : List TokenId) : E :=
  if (ex.runner.preBucket prompt).any (prompt.length < ·) then ex.runner.padEntry prompt
  else kv prompt.length

theorem slotOk_slotOf (ex : CudaGraphQwen3Executor E) (kv : ℕ → E) (prompt : List TokenId) :
    ex.SlotOk (slotOf ex kv) kv prompt := by
  intro bound hbound
  rw [slotOf, hbound]
  simp

/-- A greedy request gets the same tokens, ends with the same status and raises the same error
with and without the draft model, over whatever the arena holds. -/
theorem served_eq_plain (ex : SpecCudaGraphQwen3Executor E D) (config : RuntimeConfig)
    (st : GraphState E D) (request : Request) (hgreedy : request.temperature ≤ 0) (id : SeqId)
    (hfresh : st.states id = none)
    (hadd : ((RuntimeCore.create config st).addRequest ex.modelExecutor request).1 = .ok id) :
    ∃ N, ∀ n ≥ N, ∀ m ≥ N, ∃ q q',
      (served ex.modelExecutor config st request id n).runtime.scheduler.get id = some q ∧
      (served (ex.toCudaGraphQwen3Executor.modelExecutor D) config st request id
        m).runtime.scheduler.get id = some q' ∧
      q.outputIds = q'.outputIds ∧ q.status = q'.status ∧
      ((served ex.modelExecutor config st request id n).streams id).phase =
        ((served (ex.toCudaGraphQwen3Executor.modelExecutor D) config st request id
          m).streams id).phase ∧
      ((served ex.modelExecutor config st request id n).streams id).phase.turns = 0 := by
  have hadd' : ((RuntimeCore.create config st).addRequest
      (ex.toCudaGraphQwen3Executor.modelExecutor D) request).1 = .ok id := hadd
  obtain ⟨sessionId, inputIds, hq₀, -⟩ := served_zero (by rfl) hadd
  have habout : inputIds ≠ [] → (ex.graphSimulation (slotOf ex.toCudaGraphQwen3Executor
      st.runner.kv) (fun _ => True) D).About (request.sequence id sessionId inputIds
        { matchedTokens := 0, pages := [] } 0) := fun hne => ⟨hgreedy, hne, trivial⟩
  have habsent : (ex.graphSimulation (slotOf ex.toCudaGraphQwen3Executor st.runner.kv)
      (fun _ => True) D).Absent st id := ⟨hfresh, fun prompt _ => slotOk_slotOf _ _ prompt⟩
  obtain ⟨N, t, ht, q, hq, -, hout⟩ := served_settles (ex.serves _ _) trivial habsent hadd hq₀
    habout
  obtain ⟨N', t', ht', q', hq', -, hout'⟩ := served_settles
    (ex.toCudaGraphQwen3Executor.serves _ _ D) trivial habsent hadd' hq₀ habout
  obtain ⟨houtputs, hstatus, hphase⟩ := hout.unique hout'
  refine ⟨max N N', fun n hn m hm => ⟨q, q', ?_, ?_, houtputs, hstatus, ?_, ?_⟩⟩
  · rw [ht n (le_of_max_le_left hn), hq]
  · rw [ht' m (le_of_max_le_right hm), hq']
  · rw [ht n (le_of_max_le_left hn), ht' m (le_of_max_le_right hm), hphase]
  · rw [ht n (le_of_max_le_left hn)]
    exact hout.turns

/-- The draft model always proposes the token 5. -/
def draftedExecutor : SpecCudaGraphQwen3Executor TokenId Unit :=
  { sumExecutor with draftRow := fun _ _ _ => ((), [0, 0, 0, 0, 0, 1]) }

theorem served_eq_plain_greedyRequest : ∃ N, ∀ n ≥ N, ∀ m ≥ N, ∃ q q',
    (served draftedExecutor.modelExecutor ServerState.smallConfig
      { runner := { kv := fun _ => 3 }, draft := { kv := fun _ => () } } (greedyRequest "a") 0
        n).runtime.scheduler.get 0 = some q ∧
    (served (sumExecutor.modelExecutor Unit) ServerState.smallConfig
      { runner := { kv := fun _ => 3 }, draft := { kv := fun _ => () } } (greedyRequest "a") 0
        m).runtime.scheduler.get 0 = some q' ∧
    q.outputIds = q'.outputIds ∧ q.status = q'.status ∧
    ((served draftedExecutor.modelExecutor ServerState.smallConfig
      { runner := { kv := fun _ => 3 }, draft := { kv := fun _ => () } } (greedyRequest "a") 0
        n).streams 0).phase =
      ((served (sumExecutor.modelExecutor Unit) ServerState.smallConfig
        { runner := { kv := fun _ => 3 }, draft := { kv := fun _ => () } } (greedyRequest "a") 0
          m).streams 0).phase ∧
    ((served draftedExecutor.modelExecutor ServerState.smallConfig
      { runner := { kv := fun _ => 3 }, draft := { kv := fun _ => () } } (greedyRequest "a") 0
        n).streams 0).phase.turns = 0 :=
  served_eq_plain draftedExecutor ServerState.smallConfig _ (greedyRequest "a") le_rfl 0 rfl rfl

end SpecCudaGraphQwen3Executor

end SoloRT
