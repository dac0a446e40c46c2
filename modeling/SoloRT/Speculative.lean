import SoloRT.Greedy

/-!
# Speculative decoding on the Transformers executor

A round lets the draft model propose tokens, and validates them with one forward pass of the
target. If all proposals are accepted, the cache object then holds what it should. If some are
rejected, the code goes back to `original_past` and replays the accepted ones. A model that
appends in place returns the object it was given, so `original_past` is the object that the
validation extended, and the replay comes after the rejected tokens
(`not_outputIds_eq_reference`).

`RoundSafe` says that a round does not get there : it accepts all proposals, or its tokens end
the request. Then `speculativeDecode` keeps the simulation of the greedy generation
(`speculativeDecode_decodeOk`), and a run of such rounds generates the tokens of the reference
(`speculative_outputIds`).
-/

namespace SoloRT

namespace TransformersTextExecutor

variable {δ : Type} (ex : TransformersTextExecutor δ)

/-- The tokens that the draft model proposes for the next round. -/
def proposals (q : Sequence) (state : ServingState δ) : List TokenId :=
  (ex.draftTokens q state (min ex.config.speculativeTokens
    ((q.maxNewTokens : ℤ) - state.generatedTokenIds.length))).1

/-- The proposals are the tokens of the greedy generation, or the ones up to the first that is
not, with the right one in its place, end the request. -/
def RoundSafe (q : Sequence) (state : ServingState δ) : Prop :=
  ex.proposals q state =
    Generation.follow (ex.nextToken q) (ex.proposals q state).length q.outputIds ∨
  ∃ m < (ex.proposals q state).length,
    (ex.proposals q state).take m = Generation.follow (ex.nextToken q) m q.outputIds ∧
    endsGeneration ex.config ex.tokenizer q
      (q.outputIds ++ Generation.follow (ex.nextToken q) (m + 1) q.outputIds) = true

instance (q : Sequence) (state : ServingState δ) : Decidable (ex.RoundSafe q state) :=
  inferInstanceAs (Decidable (_ ∨ ∃ m < _, _))

variable {ex} {q : Sequence} {env : Env δ}

/-! ## The forward passes of a round -/

/-- What a target forward from a serving state does, if it does not raise. -/
theorem targetForwardFromState_spec {state : ServingState δ} {env env' : Env δ}
    {tokenIds : List TokenId} {provisional : Bool} {logits : List (List ℚ)} {id : ℕ}
    {t : Option KVCacheTransaction}
    (h : ex.targetForwardFromState state env tokenIds provisional = (.ok (logits, id, t), env')) :
    ∃ env₁, kvWritePlan env (state.promptTokenCount + state.generatedTokenIds.length - 1)
        tokenIds.length (state.promptTokenCount + state.generatedTokenIds.length)
        (if provisional then tokenIds.length - 1 else 0) = (.ok t, env₁) ∧
      ex.targetForward env₁ state.pastKeyValues tokenIds = (logits, id, env') := by
  unfold targetForwardFromState at h
  dsimp only at h
  generalize kvWritePlan env (state.promptTokenCount + state.generatedTokenIds.length - 1)
    tokenIds.length (state.promptTokenCount + state.generatedTokenIds.length)
    (if provisional then tokenIds.length - 1 else 0) = r at h ⊢
  obtain ⟨e | t', env₁⟩ := r <;> cases h
  exact ⟨env₁, rfl, rfl⟩

/-- A target forward that raises did not reach the model. -/
theorem targetForwardFromState_error {state : ServingState δ} {env env' : Env δ}
    {tokenIds : List TokenId} {provisional : Bool} {e : PyError}
    (h : ex.targetForwardFromState state env tokenIds provisional = (.error e, env')) :
    env'.state = env.state := by
  have hstate := kvWritePlan_state env
    (state.promptTokenCount + state.generatedTokenIds.length - 1) tokenIds.length
    (state.promptTokenCount + state.generatedTokenIds.length)
    (if provisional then tokenIds.length - 1 else 0)
  unfold targetForwardFromState at h
  dsimp only at h
  generalize kvWritePlan env (state.promptTokenCount + state.generatedTokenIds.length - 1)
    tokenIds.length (state.promptTokenCount + state.generatedTokenIds.length)
    (if provisional then tokenIds.length - 1 else 0) = r at h hstate
  obtain ⟨e' | t', env₁⟩ := r <;> cases h
  exact hstate

/-- A chunk that did not finish its state is below the limit. -/
theorem length_lt_of_not_finished {state state' : ServingState δ} {tokenIds : List TokenId}
    {results : List SampleResult} (hfin : state.finished = false) (hne : tokenIds ≠ [])
    (h : appendTokenResults ex.config ex.tokenizer q state tokenIds = (results, state'))
    (hfin' : state'.finished ≠ true) : state'.generatedTokenIds.length < q.maxNewTokens := by
  obtain ⟨-, hchunk, hids, hgen, hlast⟩ := appendTokenResults_spec hfin h
  have hres : results ≠ [] := by
    rintro rfl
    cases tokenIds with
    | nil => exact hne rfl
    | cons t ts =>
      rw [Generation.cut] at hids
      split_ifs at hids <;> simp at hids
  rw [hlast, hchunk.any_getLast hres, ← hgen, ne_eq, Bool.not_eq_true, endsGeneration,
    Bool.or_eq_false_iff, Bool.or_eq_false_iff] at hfin'
  simpa using hfin'.1.1

/-- Accepting all proposals appends them and the target's next token as one chunk. -/
theorem acceptAll_eq (hq : Greedy ex.config q) {state : ServingState δ}
    (hfin : state.finished = false) {drafts : List TokenId} (hne : drafts ≠ [])
    (logits : List (List ℚ)) (id : ℕ) : ex.acceptAll q state env drafts logits id =
      ((appendTokenResults ex.config ex.tokenizer q { state with pastKeyValues := some id }
        (drafts ++ [greedyToken (penalise
          (q.metadata.repetitionPenalty.getD ex.config.defaultRepetitionPenalty) q.outputIds
          (logits.getLastD []))])).1,
        (appendTokenResults ex.config ex.tokenizer q { state with pastKeyValues := some id }
          (drafts ++ [greedyToken (penalise
            (q.metadata.repetitionPenalty.getD ex.config.defaultRepetitionPenalty) q.outputIds
            (logits.getLastD []))])).2, env) := by
  have hfin' : ({ state with pastKeyValues := some id } : ServingState δ).finished = false := hfin
  rw [appendTokenResults_concat _ _ hfin']
  unfold acceptAll
  dsimp only
  cases happ : appendTokenResults ex.config ex.tokenizer q { state with pastKeyValues := some id }
    drafts with
  | mk results state' =>
    dsimp only
    by_cases hf : state'.finished = true
    · rw [if_pos hf, if_pos hf]
    · rw [if_neg hf, if_neg hf, if_pos (length_lt_of_not_finished hfin' hne happ hf),
        sample_greedy hq]
      rfl

/-- The validation of some proposals reserves pages for all of them. -/
theorem beginAppendTransaction_of_validation {state : ServingState δ}
    (hgen : state.generatedTokenIds ≠ []) {last : TokenId} {drafts : List TokenId}
    (hne : drafts ≠ []) {logits : List (List ℚ)} {id : ℕ} {t : Option KVCacheTransaction}
    {env₁ : Env δ}
    (hf : ex.targetForwardFromState state env (last :: drafts) true =
      (.ok (logits, id, t), env₁)) :
    ∃ txn, t = some txn ∧ env.kvCache.beginAppendTransaction env.blockTable
      (state.promptTokenCount + state.generatedTokenIds.length) drafts.length =
        (.ok txn, env₁.kvCache, env₁.blockTable) := by
  have hgenpos := List.length_pos_of_ne_nil hgen
  have hpos := List.length_pos_of_ne_nil hne
  obtain ⟨env₀, hplan, hforward⟩ := targetForwardFromState_spec hf
  have hpages : env₁.kvCache = env₀.kvCache ∧ env₁.blockTable = env₀.blockTable := by
    unfold targetForward at hforward
    cases hforward
    exact ⟨rfl, rfl⟩
  rw [hpages.1, hpages.2]
  rcases kvWritePlan_cases env (state.promptTokenCount + state.generatedTokenIds.length - 1)
    (last :: drafts).length (state.promptTokenCount + state.generatedTokenIds.length)
    (if true then (last :: drafts).length - 1 else 0) with ⟨h, h0⟩ | ⟨e, h⟩ | ⟨t', h, hok⟩
  · simp at h0
  · rw [h] at hplan
    cases hplan
  · rw [h] at hplan
    cases hplan
    simp only [if_true, List.length_cons, Nat.add_sub_cancel] at hok ⊢
    unfold reservePages at hok ⊢
    rw [if_pos (by omega), if_neg (by omega)] at hok ⊢
    generalize env.kvCache.beginAppendTransaction env.blockTable
      (state.promptTokenCount + state.generatedTokenIds.length) drafts.length = r at hok ⊢
    obtain ⟨e | txn, kv, table⟩ := r <;> cases hok
    exact ⟨txn, rfl, rfl⟩

/-- After a rollback no more tokens than before have their pages reserved again, and get slots. -/
theorem exists_replay_plan {kv kv' kv'' : PagedKVCache} {table table' : List PageId}
    {current append : ℕ} {txn : KVCacheTransaction} (hcons : kv.allocator.Consistent)
    (hbegin : kv.beginAppendTransaction table current append = (.ok txn, kv', table'))
    (hgrow : PagedKVCache.Grows kv table kv'' table []) (st : TransformersState δ) (start count : ℕ)
    (hcount : 0 < count) (hle : start + count ≤ current + append) :
    ∃ kv₃ table₃, kvWritePlan ⟨st, kv'', table⟩ start count current 0 =
      (.ok none, ⟨st, kv₃, table₃⟩) := by
  obtain ⟨pages, kv₃, table₃, hens⟩ := PagedKVCache.exists_ensureCapacity_after_rollback
    hbegin hgrow hcons (n := start + count) (by rw [Int.toNat_natCast]; exact hle)
  obtain ⟨slots, hslots⟩ := kv₃.exists_slotMapping_ok (PagedKVCache.ensureCapacity_covers hens)
    fun p hp => (List.mem_range'_1.1 hp).2
  refine ⟨kv₃, table₃, ?_⟩
  unfold kvWritePlan
  rw [if_neg (by omega)]
  unfold reservePages
  rw [if_neg (lt_irrefl 0)]
  dsimp only
  rw [hens]
  dsimp only [Except.map]
  rw [hslots]

/-- Rolling back and replaying the accepted proposals raises nothing, and appends them and the
target's correction as one chunk. -/
theorem acceptPrefix_eq (hcons : env.kvCache.allocator.Consistent) {state : ServingState δ}
    (hgen : state.generatedTokenIds ≠ []) (hfin : state.finished = false) {last : TokenId}
    {drafts : List TokenId} {logits : List (List ℚ)} {id : ℕ} {t : Option KVCacheTransaction}
    {env₁ : Env δ}
    (hf : ex.targetForwardFromState state env (last :: drafts) true = (.ok (logits, id, t), env₁))
    {a : ℕ} (ha : a < drafts.length) (correction : TokenId) :
    ∃ id' env₂, ex.acceptPrefix q state env₁ last (drafts.take a) correction t =
      (.ok (appendTokenResults ex.config ex.tokenizer q { state with pastKeyValues := some id' }
          (drafts.take a ++ [correction])).1,
        (appendTokenResults ex.config ex.tokenizer q { state with pastKeyValues := some id' }
          (drafts.take a ++ [correction])).2, env₂) := by
  have hgenpos := List.length_pos_of_ne_nil hgen
  obtain ⟨txn, rfl, hbegin⟩ :=
    beginAppendTransaction_of_validation hgen (List.ne_nil_of_length_pos (by omega)) hf
  obtain ⟨kv'', hback, hgrow⟩ := PagedKVCache.rollbackTransaction_ok hcons hbegin
  have hrollback : rollback env₁ (some txn) = (.ok (), ⟨env₁.state, kv'', env.blockTable⟩) := by
    unfold rollback
    dsimp only
    rw [hback]
  have hlen : (last :: drafts.take a).length = a + 1 := by
    rw [List.length_cons, List.length_take_of_le (by omega)]
  obtain ⟨kv₃, table₃, hreplay⟩ := exists_replay_plan hcons hbegin hgrow env₁.state
    (state.promptTokenCount + state.generatedTokenIds.length - 1)
    (last :: drafts.take a).length (by omega) (by omega)
  cases hreplayed : ex.targetForward ⟨env₁.state, kv₃, table₃⟩ state.pastKeyValues
    (last :: drafts.take a) with
  | mk logits' r =>
    obtain ⟨id', env₂⟩ := r
    have hfin' : ({ state with pastKeyValues := some id' } : ServingState δ).finished = false :=
      hfin
    refine ⟨id', env₂, ?_⟩
    unfold acceptPrefix
    rw [hrollback]
    dsimp only
    unfold targetForwardFromState
    dsimp only
    rw [if_neg Bool.false_ne_true, hreplay]
    dsimp only
    rw [hreplayed, appendTokenResults_concat _ _ hfin']
    dsimp only
    cases appendTokenResults ex.config ex.tokenizer q { state with pastKeyValues := some id' }
      (drafts.take a) with
    | mk results state' =>
      dsimp only
      split_ifs <;> rfl

/-! ## A round -/

/-- The draft model changes nothing that the target reads. -/
theorem SameTarget.holds {heap : CacheHeap} {state state' : ServingState δ}
    (h : SameTarget state state') (hs : ex.Holds heap q state) : ex.Holds heap q state' := by
  unfold SameTarget at h
  rw [h]
  exact ⟨hs.cache, hs.prompt, hs.prefilled, hs.pending, hs.generated, hs.finished⟩

/-- The validation leaves all tokens in the cache, and its greedy tokens are those after each of
the proposals. -/
theorem validation_spec {state : ServingState δ} (hs : ex.Holds env.state.heap q state)
    (hne : q.outputIds ≠ [])
    (hone : q.metadata.repetitionPenalty.getD ex.config.defaultRepetitionPenalty = 1)
    {drafts : List TokenId} {logits : List (List ℚ)} {id : ℕ} {t : Option KVCacheTransaction}
    {env' : Env δ}
    (hf : ex.targetForwardFromState state env (q.outputIds.getLast hne :: drafts) true =
      (.ok (logits, id, t), env')) :
    env'.state.heap.tokens id = q.inputIds ++ (q.outputIds ++ drafts) ∧
      (logits.take drafts.length).map greedyToken =
        (List.range drafts.length).map (fun i => ex.nextToken q (q.outputIds ++ drafts.take i)) ∧
      greedyToken (logits.getLastD []) = ex.nextToken q (q.outputIds ++ drafts) := by
  have hnext : ∀ ts, ex.nextToken q ts = greedyToken (ex.model.logits (q.inputIds ++ ts)) :=
    fun ts => by rw [nextToken, hone, penalise_one]
  have hcached : ∀ ts, q.inputIds ++ q.outputIds.dropLast ++ (q.outputIds.getLast hne :: ts) =
      q.inputIds ++ (q.outputIds ++ ts) := fun ts => by
    rw [List.append_assoc, List.append_cons, List.dropLast_append_getLast hne]
  obtain ⟨c, hc, htokens⟩ := hs.cache
  rw [cachedTokens, if_neg hne] at htokens
  obtain ⟨env₁, hplan, hforward⟩ := targetForwardFromState_spec hf
  have hstate : env₁.state = env.state := by
    have hstate := kvWritePlan_state env
      (state.promptTokenCount + state.generatedTokenIds.length - 1)
      (q.outputIds.getLast hne :: drafts).length
      (state.promptTokenCount + state.generatedTokenIds.length)
      (if true then (q.outputIds.getLast hne :: drafts).length - 1 else 0)
    rwa [hplan] at hstate
  obtain ⟨hcache, hlogits⟩ := targetForward_spec hforward
  have hlast := getLastD_targetForward hforward (List.cons_ne_nil _ _)
  rw [hstate, hc, Option.elim_some, htokens, hcached] at hcache hlast
  refine ⟨hcache, ?_, by rw [hlast, hnext]⟩
  rw [hlogits, hstate, hc, Option.elim_some, htokens, List.length_cons, ← List.map_take,
    List.take_range, Nat.min_eq_left (Nat.le_succ _), List.map_map]
  refine List.map_congr_left fun i _ => ?_
  rw [Function.comp_apply, List.take_succ_cons, hcached, hnext]

/-- A speculative round keeps the simulation, if it accepts all proposals or ends the request. -/
theorem speculativeDecode_decodeOk (hq : Greedy ex.config q)
    (h : ex.greedySimulation.Tracks env.state q)
    {state : ServingState δ} (hs : ex.Holds env.state.heap q state) (hne : q.outputIds ≠ [])
    (hpend : state.pendingTokenId = none) (hen : ex.speculativeEnabled q state = true)
    (hcons : env.kvCache.allocator.Consistent) (hsafe : ex.RoundSafe q state) :
    ex.greedySimulation.DecodeOk q (store (ex.speculativeDecode q state env).2.2 q.seqId
      (ex.speculativeDecode q state env).2.1).state
      ((ex.speculativeDecode q state env).1.map DecodeOutput.many) := by
  have hone : q.metadata.repetitionPenalty.getD ex.config.defaultRepetitionPenalty = 1 := by
    simp only [speculativeEnabled, Bool.and_eq_true, decide_eq_true_eq] at hen
    exact hen.1.2
  have hsame := draftTokens_same ex q state (min ex.config.speculativeTokens
    ((q.maxNewTokens : ℤ) - state.generatedTokenIds.length))
  unfold RoundSafe proposals at hsafe
  unfold speculativeDecode
  dsimp only
  cases hdraft : ex.draftTokens q state (min ex.config.speculativeTokens
    ((q.maxNewTokens : ℤ) - state.generatedTokenIds.length)) with
  | mk drafts state₁ =>
    rw [hdraft] at hsame hsafe
    dsimp only at hsame hsafe ⊢
    have hs₁ : ex.Holds env.state.heap q state₁ := hsame.holds hs
    have hpend₁ : state₁.pendingTokenId = none := by
      unfold SameTarget at hsame
      rw [hsame]
      exact hpend
    by_cases hnil : drafts = []
    · rw [if_pos hnil]
      have hdecode := decodeOne_decodeOk hq h hs₁ hne
      cases hone : ex.decodeOne q state₁ env with
      | mk r p =>
        obtain ⟨state₂, env₂⟩ := p
        rw [hone] at hdecode
        obtain e | result := r <;> exact hdecode
    rw [if_neg hnil]
    have hlast : state₁.generatedTokenIds.getLastD 0 = q.outputIds.getLast hne := by
      rw [hs₁.generated, List.getLastD_eq_getLast?, List.getLast?_eq_some_getLast hne,
        Option.getD_some]
    have hgen : state₁.generatedTokenIds ≠ [] := hs₁.generated ▸ hne
    rw [hlast]
    cases hf : ex.targetForwardFromState state₁ env (q.outputIds.getLast hne :: drafts) true with
    | mk r env₂ =>
      obtain e | ⟨logits, id, t⟩ := r
      · exact tracks_store h hs₁ (targetForwardFromState_error hf)
      obtain ⟨hcache, htargets, hrecovery⟩ := validation_spec hs₁ hne hone hf
      obtain ⟨hle, htake, hmax⟩ := Generation.agree_spec (ex.nextToken q) drafts q.outputIds
      dsimp only
      rw [htargets]
      generalize haccept : Generation.agree drafts ((List.range drafts.length).map fun i =>
        ex.nextToken q (q.outputIds ++ drafts.take i)) = a at hle htake hmax
      by_cases hall : a = drafts.length
      · -- all proposals are the next tokens, and the cache has them
        rw [if_pos hall]
        rw [hall, List.take_length] at htake
        have hchunk : drafts ++ [greedyToken (penalise
            (q.metadata.repetitionPenalty.getD ex.config.defaultRepetitionPenalty) q.outputIds
            (logits.getLastD []))] =
              Generation.follow (ex.nextToken q) (drafts.length + 1) q.outputIds := by
          rw [Generation.follow_concat, ← htake, hone, penalise_one, hrecovery]
        rw [acceptAll_eq hq hs₁.finished hnil, hchunk]
        cases happ : appendTokenResults ex.config ex.tokenizer q
          { state₁ with pastKeyValues := some id }
          (Generation.follow (ex.nextToken q) (drafts.length + 1) q.outputIds) with
        | mk xs state₂ =>
          refine decodeOk_follow _ h (h.outputs hne) happ hs₁.generated hs₁.finished hpend₁
            hs₁.prompt hs₁.prefilled (fun _ => ⟨id, rfl, ?_⟩) rfl
          rw [hcache, Generation.follow_concat, ← htake, ← List.append_assoc q.outputIds,
            List.dropLast_concat]
      · -- the accepted proposals and the correction are the next tokens, and one of them stops
        rw [if_neg hall]
        have hlt : a < drafts.length := lt_of_le_of_ne hle hall
        have hcorrection : ((List.range drafts.length).map fun i =>
            ex.nextToken q (q.outputIds ++ drafts.take i)).getD a 0 =
              ex.nextToken q (q.outputIds ++ drafts.take a) := by
          simp [List.getD_eq_getElem?_getD, hlt]
        obtain ⟨id', env₃, hprefix⟩ := acceptPrefix_eq hcons hgen hs₁.finished hf hlt
          (ex.nextToken q (q.outputIds ++ drafts.take a))
        rw [hcorrection, hprefix, htake, ← Generation.follow_concat]
        cases happ : appendTokenResults ex.config ex.tokenizer q
          { state₁ with pastKeyValues := some id' }
          (Generation.follow (ex.nextToken q) (a + 1) q.outputIds) with
        | mk xs state₂ =>
          refine decodeOk_follow _ h (h.outputs hne) happ hs₁.generated hs₁.finished hpend₁
            hs₁.prompt hs₁.prefilled (fun hrun => ?_) rfl
          exfalso
          rcases hsafe with hsafe | ⟨m, hm, htakem, hstop⟩
          · exact hall (le_antisymm hle (hmax _ le_rfl (by rw [List.take_length]; exact hsafe)))
          · have hma := hmax m hm.le htakem
            have hprefix := (List.prefix_append_right_inj q.outputIds).2
              (Generation.follow_prefix (ex.nextToken q) (Nat.succ_le_succ hma) q.outputIds)
            have hfalse := hrun.stop_of_prefix hprefix (by simp [hne])
            rw [hstop] at hfalse
            cases hfalse

/-! ## Runs -/

/-- The part of a request that the draft model is given. -/
theorem draftTokens_of_request {q' : Sequence} (h : q'.request = q.request)
    (state : ServingState δ) (n : ℤ) : ex.draftTokens q' state n = ex.draftTokens q state n := by
  have hstop : q'.request.stopTokenIds = q.request.stopTokenIds :=
    congrArg Sequence.stopTokenIds h
  change q'.stopTokenIds = q.stopTokenIds at hstop
  have hpropose : ∀ (draft : DraftModel δ) (k : ℕ) (logits : List ℚ) (state : ServingState δ),
      ex.proposeTokens draft q' k logits state = ex.proposeTokens draft q k logits state := by
    intro draft k
    induction k with
    | zero =>
      intro logits state
      rw [proposeTokens, proposeTokens, hstop]
    | succ k ih =>
      intro logits state
      rw [proposeTokens, proposeTokens, hstop]
      simp only [ih]
  unfold draftTokens
  simp only [hpropose, Sequence.inputIds_of_request h]

theorem RoundSafe.of_request {q' : Sequence} {state : ServingState δ} (h : ex.RoundSafe q state)
    (hreq : q'.request = q.request) (hout : q'.outputIds = q.outputIds) :
    ex.RoundSafe q' state := by
  have hproposals : ex.proposals q' state = ex.proposals q state := by
    rw [proposals, proposals, draftTokens_of_request hreq, Sequence.maxNewTokens_of_request hreq]
  rwa [RoundSafe, hproposals, nextToken_of_request hreq, endsGeneration_of_request hreq, hout]

variable (ex) in
/-- If the scheduler gives the next batch to the request `id`, and it is a speculative round,
then it is safe. -/
def SafeRound (id : SeqId) (rt : RuntimeCore (TransformersState δ)) : Prop :=
  ∀ q ∈ rt.scheduler.selectNextSequence, q.seqId = id → ∀ state ∈ rt.executor.states id,
    state.pendingTokenId = none → ex.speculativeEnabled q state = true → ex.RoundSafe q state

instance (id : SeqId) (rt : RuntimeCore (TransformersState δ)) : Decidable (ex.SafeRound id rt) :=
  inferInstanceAs (Decidable (∀ q ∈ _, _ → ∀ state ∈ _, _))

/-- The decodes of the request `id` keep the simulation, if the next round is safe. -/
theorem SafeRound.decodesOk {id : SeqId} {rt : RuntimeCore (TransformersState δ)}
    (h : ex.SafeRound id rt) (hcons : rt.kvCache.allocator.Consistent) :
    ex.greedySimulation.DecodesOk ex.modelExecutor id rt := by
  intro s hsel hid hg ht hdone batch env henv hkv
  have hreq : ((rt.context s.scheduled).setEnv env).sequence.request = s.request := rfl
  obtain ⟨hg', hne'⟩ := ex.greedySimulation.about_of_request hreq hg
  have ht' := ht.congr hreq rfl rfl
  rw [← show env.state = rt.executor from henv] at ht'
  obtain ⟨pages, hgrow⟩ := hkv.grows hcons
  refine forwardDecode_decodeOk hg' hne' ht' hdone (fun state hst hs hout hpend hen => ?_) batch
  have hst' : rt.executor.states id = some state := by
    rw [← hid, ← show env.state = rt.executor from henv]
    exact hst
  have hsafe := (h s hsel hid state hst' hpend hen).of_request hreq rfl
  exact speculativeDecode_decodeOk hg' ht' hs hout hpend hen hgrow.consistent hsafe

/-- In a run whose speculative rounds of the request `id` are safe, its cache object holds the
prompt and the generated tokens but the last, and its tokens are those of the reference. -/
theorem speculative_outputIds (ex : TransformersTextExecutor δ) (config : RuntimeConfig)
    (es : List Event) (id : SeqId)
    (hsafe : Transition.Along (ServerState.step ex.modelExecutor)
      (fun s e => Simulation.Turns s e → ex.SafeRound id s.runtime) (ServerState.init config {}) es)
    (q : Sequence)
    (hq : (Transition.run (ServerState.step ex.modelExecutor) (ServerState.init config {})
      es).runtime.scheduler.get id = some q)
    (hprompt : q.inputIds ≠ []) (hgreedy : Greedy ex.config q) :
    (q.isTerminal = false → q.outputIds <+: ex.reference q ∧
      (q.outputIds ≠ [] → ∃ c, (Transition.run (ServerState.step ex.modelExecutor)
          (ServerState.init config {}) es).runtime.executor.pastOf q.seqId = some c ∧
        (Transition.run (ServerState.step ex.modelExecutor)
          (ServerState.init config {}) es).runtime.executor.heap.tokens c =
            q.inputIds ++ q.outputIds.dropLast)) ∧
      (q.status = .finished → q.outputIds = ex.reference q) := by
  have htracked := tracked_run ex (fun s e hs hsafe hturn =>
    (hsafe hturn).decodesOk hs.2.consistent) config hsafe
  refine ⟨fun hlive => ?_, fun hfin =>
    Simulation.eq_reference_of_complete (htracked.done q hq ⟨hgreedy, hprompt⟩ hfin).1⟩
  have htracks := htracked.live q hq ⟨hgreedy, hprompt⟩ hlive
  refine ⟨Simulation.prefix_reference_of_running htracks.running, fun hne => ?_⟩
  have hholds : ex.HasState _ q := htracks.holds
  obtain ⟨state, hst, hs⟩ := hholds.holds hprompt (htracks.outputs hne)
  obtain ⟨c, hc, htokens⟩ := hs.cache
  refine ⟨c, ?_, ?_⟩
  · rw [TransformersState.pastOf, hst]
    exact hc
  · rw [htokens, cachedTokens, if_neg hne]

/-- A draft model with the logits of the counting model, given the number of cached tokens. -/
def countingDraft : DraftModel ℕ where
  forward tokenIds past :=
    ((List.range 8).map fun i => if i = (past.getD 0 + tokenIds.length) % 8 then 1 else 0,
      past.getD 0 + tokenIds.length)
  crop := some min

def speculativeExecutor (draft : DraftModel ℕ) : TransformersTextExecutor ℕ where
  config := { speculativeTokens := 2 }
  tokenizer := charTokenizer
  torch := { softmax := fun scores => scores.map fun _ => 1, multinomial := fun _ _ => 1 }
  model := countingModel
  draftModel := some draft

/-- A greedy request without a penalty, for five tokens. -/
def speculativeRun (turns : ℕ) : List Event :=
  .addRequest { ServerState.shortRequest "a" with
    temperature := 0, repetitionPenalty := some 1, maxNewTokens := 5 } ::
    List.replicate turns (.resume 0)

/-- The run of a draft model's executor on `speculativeRun`. -/
def speculated (draft : DraftModel ℕ) (turns : ℕ) : ServerState (TransformersState ℕ) :=
  Transition.run (ServerState.step (speculativeExecutor draft).modelExecutor)
    (ServerState.init ServerState.smallConfig {}) (speculativeRun turns)

theorem speculative_outputIds_speculativeRun :
    ∃ q, (speculated countingDraft 8).runtime.scheduler.get 0 = some q ∧
      q.outputIds = (speculativeExecutor countingDraft).reference q ∧
      q.outputIds = [2, 3, 4, 5, 6] := by
  have hq : ((speculated countingDraft 8).runtime.scheduler.get 0).map
      (fun q => (q.inputIds, q.metadata.temperature, q.status, q.outputIds)) =
        some ([104, 105], some 0, .finished, [2, 3, 4, 5, 6]) := by decide +kernel
  obtain ⟨q, hq, hqs⟩ := Option.map_eq_some_iff.1 hq
  simp only [Prod.mk.injEq] at hqs
  obtain ⟨hin, htemp, hfin, hout⟩ := hqs
  have hsafe : Transition.Along (ServerState.step (speculativeExecutor countingDraft).modelExecutor)
      (fun s _ => (speculativeExecutor countingDraft).SafeRound 0 s.runtime)
      (ServerState.init ServerState.smallConfig {}) (speculativeRun 8) := by decide +kernel
  have hsafe' := Transition.along_mono (Q := fun s e => Simulation.Turns s e →
    (speculativeExecutor countingDraft).SafeRound 0 s.runtime) (fun _ _ h _ => h) hsafe
  refine ⟨q, hq, ?_, hout⟩
  unfold speculated at hq
  have houtput := speculative_outputIds (speculativeExecutor countingDraft) ServerState.smallConfig
    (speculativeRun 8) 0 hsafe' q hq (by simp [hin]) (by simp [Greedy, htemp])
  exact houtput.2 hfin

/-- A draft model that proposes the token 7. -/
def sevenDraft : DraftModel ℕ where
  forward _ _ := ((List.range 8).map fun i => if i = 7 then 1 else 0, 0)
  crop := none

/-- The first round rejects both proposals, and leaves them in the cache. Then the generation
goes on after them : the tokens of the request are not those of the reference. -/
theorem not_outputIds_eq_reference :
    ∃ q q', (speculated sevenDraft 4).runtime.scheduler.get 0 = some q ∧
      (speculated sevenDraft 6).runtime.scheduler.get 0 = some q' ∧
      Greedy (speculativeExecutor sevenDraft).config q ∧
      q.metadata.repetitionPenalty = some 1 ∧ q.status ≠ .finished ∧
      ((speculated sevenDraft 4).runtime.executor.pastOf 0).map
        (speculated sevenDraft 4).runtime.executor.heap.tokens ≠
          some (q.inputIds ++ q.outputIds.dropLast) ∧
      q'.status = .finished ∧
      q'.outputIds ≠ (speculativeExecutor sevenDraft).reference q' := by
  have hq : ((speculated sevenDraft 4).runtime.scheduler.get 0).map
      (fun q => (q.inputIds, q.metadata.temperature, q.metadata.repetitionPenalty, q.status,
        q.outputIds)) = some ([104, 105], some 0, some 1, .running, [2, 3]) := by decide +kernel
  have hq' : ((speculated sevenDraft 6).runtime.scheduler.get 0).map
      (fun q => (q.status, q.outputIds, (speculativeExecutor sevenDraft).reference q)) =
        some (.finished, [2, 3, 7, 0], [2, 3, 4, 5, 6]) := by decide +kernel
  have hcache : ((speculated sevenDraft 4).runtime.executor.pastOf 0).map
      (speculated sevenDraft 4).runtime.executor.heap.tokens =
        some [104, 105, 2, 7, 7, 2] := by decide +kernel
  obtain ⟨q, hq, hqs⟩ := Option.map_eq_some_iff.1 hq
  obtain ⟨q', hq', hqs'⟩ := Option.map_eq_some_iff.1 hq'
  simp only [Prod.mk.injEq] at hqs hqs'
  obtain ⟨hin, htemp, hpenalty, hstatus, hout⟩ := hqs
  obtain ⟨hfin, hout', href⟩ := hqs'
  refine ⟨q, q', hq, hq', by simp [Greedy, htemp], hpenalty, by simp [hstatus], ?_, hfin, ?_⟩
  · rw [hcache, hin, hout]
    decide
  · rw [hout', href]
    decide

end TransformersTextExecutor

end SoloRT
