import SoloRT.Transformers
import SoloRT.Server

/-!
# What a call of the Transformers executor touches

A call for one sequence works on the serving state and the cache object of that sequence only
(`CallOn`), and reserves pages through the interface of the cache (`Works.pages`). So the
executor meets the protocol of the runtime (`modelExecutor`), and the sequences stay apart: no
two of them have one cache object (`Separate`).
-/

namespace SoloRT

/-- From `heap` to `heap'` at most the object `past` changed, and `past'` is that object or a
new one. -/
structure CacheHeap.Step (heap : CacheHeap) (past : Option ℕ) (heap' : CacheHeap)
    (past' : Option ℕ) : Prop where
  next : heap.next ≤ heap'.next
  kept : ∀ c < heap.next, past ≠ some c → heap'.tokens c = heap.tokens c
  fresh : ∀ c, past' = some c → past = some c ∨ heap.next ≤ c ∧ c < heap'.next

namespace CacheHeap.Step

variable {heap heap' heap'' : CacheHeap} {past past' past'' : Option ℕ}

theorem refl (heap : CacheHeap) (past : Option ℕ) : Step heap past heap past :=
  ⟨le_rfl, fun _ _ _ => rfl, fun _ h => .inl h⟩

theorem trans (h : Step heap past heap' past') (h' : Step heap' past' heap'' past'') :
    Step heap past heap'' past'' where
  next := h.next.trans h'.next
  kept c hc hpast := by
    rw [h'.kept c (hc.trans_le h.next) fun hp => ?_, h.kept c hc hpast]
    rcases h.fresh c hp with hp | ⟨hle, -⟩
    · exact hpast hp
    · omega
  fresh c hc := by
    rcases h'.fresh c hc with hc | ⟨hle, hlt⟩
    · exact (h.fresh c hc).imp_right fun hc => ⟨hc.1, hc.2.trans_le h'.next⟩
    · exact .inr ⟨h.next.trans hle, hlt⟩

/-- Going back to the object of before. -/
theorem back (h : Step heap past heap' past') : Step heap past heap' past :=
  ⟨h.next, h.kept, fun _ hc => .inl hc⟩

/-- Dropping the object. -/
theorem drop (h : Step heap past heap' past') : Step heap past heap' none :=
  ⟨h.next, h.kept, fun _ hc => by cases hc⟩

end CacheHeap.Step

/-- What a forward pass returns and does to the heap. -/
theorem CausalLM.forward_spec (model : CausalLM) (heap : CacheHeap) (past : Option ℕ)
    (tokenIds : List TokenId) {logits : List (List ℚ)} {id : ℕ} {heap' : CacheHeap}
    (h : model.forward heap past tokenIds = (logits, id, heap')) :
    heap.Step past heap' (some id) ∧
      heap'.tokens id = past.elim [] heap.tokens ++ tokenIds ∧
      logits = (List.range tokenIds.length).map fun i =>
        model.logits (past.elim [] heap.tokens ++ tokenIds.take (i + 1)) := by
  unfold CausalLM.forward at h
  simp only [Prod.mk.injEq] at h
  obtain ⟨rfl, hid, rfl⟩ := h
  rw [hid]
  refine ⟨⟨?_, fun c hc hpast => ?_, fun c hc => ?_⟩, by simp, rfl⟩
  · dsimp only
    split_ifs <;> omega
  · have hne : c ≠ id := by
      rintro rfl
      rw [← hid] at hc hpast
      cases past <;> split_ifs at hc hpast <;> simp_all
    simp [hne]
  · obtain rfl := Option.some.inj hc
    dsimp only
    cases past with
    | none =>
      have : id = heap.next := by
        rw [← hid]
        split_ifs <;> rfl
      simp [this]
    | some c =>
      cases hin : model.inPlace with
      | true => exact .inl (by simpa [hin] using hid)
      | false =>
        have : id = heap.next := by simpa [hin] using hid.symm
        simp [this]

namespace TransformersTextExecutor

variable {δ : Type} {ex : TransformersTextExecutor δ}

/-- A part of a call that works on the object `past` leaves the dictionary alone, and reserves
pages through the interface of the cache. -/
structure Works (env : Env δ) (past : Option ℕ) (env' : Env δ) (past' : Option ℕ) : Prop where
  states : env'.state.states = env.state.states
  heap : env.state.heap.Step past env'.state.heap past'
  pages : PagedKVCache.KVSteps env.pages env'.pages

namespace Works

variable {env env' env'' : Env δ} {past past' past'' : Option ℕ}

theorem refl (env : Env δ) (past : Option ℕ) : Works env past env past :=
  ⟨rfl, .refl _ _, .refl⟩

theorem trans (h : Works env past env' past') (h' : Works env' past' env'' past'') :
    Works env past env'' past'' :=
  ⟨h'.states.trans h.states, h.heap.trans h'.heap, h.pages.trans h'.pages⟩

theorem back (h : Works env past env' past') : Works env past env' past :=
  ⟨h.states, h.heap.back, h.pages⟩

end Works

/-- What a forward pass of the target leaves in the cache, and its logits. -/
theorem targetForward_spec {env env' : Env δ} {past : Option ℕ} {tokenIds : List TokenId}
    {logits : List (List ℚ)} {id : ℕ}
    (h : ex.targetForward env past tokenIds = (logits, id, env')) :
    env'.state.heap.tokens id = past.elim [] env.state.heap.tokens ++ tokenIds ∧
      logits = (List.range tokenIds.length).map fun i =>
        ex.model.logits (past.elim [] env.state.heap.tokens ++ tokenIds.take (i + 1)) := by
  unfold targetForward at h
  cases hf : ex.model.forward env.state.heap past tokenIds with
  | mk logits' r =>
    obtain ⟨id', heap'⟩ := r
    rw [hf] at h
    simp only [Prod.mk.injEq] at h
    obtain ⟨rfl, rfl, rfl⟩ := h
    exact (ex.model.forward_spec _ _ _ hf).2

/-- The last logits of a forward pass are those after all its tokens. -/
theorem getLastD_targetForward {env env' : Env δ} {past : Option ℕ} {tokenIds : List TokenId}
    {logits : List (List ℚ)} {id : ℕ}
    (h : ex.targetForward env past tokenIds = (logits, id, env')) (hne : tokenIds ≠ []) :
    logits.getLastD [] = ex.model.logits (past.elim [] env.state.heap.tokens ++ tokenIds) := by
  rw [(targetForward_spec h).2]
  obtain ⟨n, hn⟩ : ∃ n, tokenIds.length = n + 1 :=
    Nat.exists_eq_succ_of_ne_zero (by simpa using hne)
  rw [hn, List.range_succ, List.map_append, List.map_singleton, List.getLastD_concat, ← hn,
    List.take_length]

theorem targetForward_works {env env' : Env δ} {past : Option ℕ} {tokenIds : List TokenId}
    {logits : List (List ℚ)} {id : ℕ}
    (h : ex.targetForward env past tokenIds = (logits, id, env')) :
    Works env past env' (some id) := by
  unfold targetForward at h
  cases hf : ex.model.forward env.state.heap past tokenIds with
  | mk logits' r =>
    obtain ⟨id', heap'⟩ := r
    rw [hf] at h
    simp only [Prod.mk.injEq] at h
    obtain ⟨-, rfl, rfl⟩ := h
    exact ⟨rfl, (ex.model.forward_spec _ _ _ hf).1, .refl⟩

theorem sample_works (env : Env δ) (past : Option ℕ) (logits : List ℚ) (sequence : Sequence) :
    Works env past (ex.sample env logits sequence).2 past :=
  ⟨rfl, .refl _ _, .refl⟩

theorem reservePages_works (env : Env δ) (past : Option ℕ) (start count current append : ℕ) :
    Works env past (reservePages env start count current append).2 past := by
  unfold reservePages
  by_cases happend : 0 < append
  · rw [if_pos happend]
    exact ⟨rfl, .refl _ _, PagedKVCache.KVSteps.beginAppendTransaction _ _ _ _⟩
  · rw [if_neg happend]
    exact ⟨rfl, .refl _ _, .single (PagedKVCache.KVStep.ensureCapacity _ _ _)⟩

theorem reservePages_state (env : Env δ) (start count current append : ℕ) :
    (reservePages env start count current append).2.state = env.state := by
  unfold reservePages
  by_cases happend : 0 < append
  · rw [if_pos happend]
  · rw [if_neg happend]

/-- A write plan reserves pages, and then may still find no slots. -/
theorem kvWritePlan_cases (env : Env δ) (start count current append : ℕ) :
    (kvWritePlan env start count current append = (.ok none, env) ∧ count = 0) ∨
      (∃ e, kvWritePlan env start count current append =
        (.error e, (reservePages env start count current append).2)) ∨
      ∃ t, kvWritePlan env start count current append = (.ok t,
          (reservePages env start count current append).2) ∧
        (reservePages env start count current append).1 = .ok t := by
  unfold kvWritePlan
  by_cases hcount : count = 0
  · rw [if_pos hcount]
    exact .inl ⟨rfl, hcount⟩
  · rw [if_neg hcount]
    generalize reservePages env start count current append = r
    obtain ⟨e | t, env'⟩ := r
    · exact .inr (.inl ⟨e, rfl⟩)
    · dsimp only
      cases env'.kvCache.slotMapping env'.blockTable (List.range' start count) with
      | error e => exact .inr (.inl ⟨e, rfl⟩)
      | ok slots => exact .inr (.inr ⟨t, rfl, rfl⟩)

theorem kvWritePlan_state (env : Env δ) (start count current append : ℕ) :
    (kvWritePlan env start count current append).2.state = env.state := by
  have hreserve := reservePages_state env start count current append
  rcases kvWritePlan_cases env start count current append with ⟨h, -⟩ | ⟨e, h⟩ | ⟨t, h, -⟩ <;>
    rw [h]
  · exact hreserve
  · exact hreserve

theorem kvWritePlan_works (env : Env δ) (past : Option ℕ) (start count current append : ℕ) :
    Works env past (kvWritePlan env start count current append).2 past := by
  have hreserve := reservePages_works env past start count current append
  rcases kvWritePlan_cases env start count current append with ⟨h, -⟩ | ⟨e, h⟩ | ⟨t, h, -⟩ <;>
    rw [h]
  · exact .refl env past
  · exact hreserve
  · exact hreserve

variable (ex) in
theorem decodeNext_works (sequence : Sequence) (state : ServingState δ) (env : Env δ) :
    Works env state.pastKeyValues (ex.decodeNext sequence state env).2.2
      (ex.decodeNext sequence state env).2.1.pastKeyValues := by
  unfold decodeNext
  split
  · exact .refl _ _
  · have hplan := kvWritePlan_works env state.pastKeyValues
      (state.promptTokenCount + state.generatedTokenIds.length - 1) 1 0 0
    generalize kvWritePlan env (state.promptTokenCount + state.generatedTokenIds.length - 1)
      1 0 0 = r at hplan
    obtain ⟨e | t, env'⟩ := r
    · exact hplan
    · rename_i last _
      dsimp only at hplan ⊢
      cases hf : ex.targetForward env' state.pastKeyValues [last] with
      | mk logits r =>
        obtain ⟨id, env''⟩ := r
        exact hplan.trans ((targetForward_works hf).trans (sample_works _ _ _ _))

/-! ## Serving states -/

theorem pastKeyValues_appendTokenResult (config : GenerationConfig) (tokenizer : Tokenizer)
    (sequence : Sequence) (state : ServingState δ) (tokenId : TokenId) :
    (appendTokenResult config tokenizer sequence state tokenId).2.pastKeyValues =
      state.pastKeyValues := by
  simp only [appendTokenResult, decodeDelta]
  split_ifs <;> rfl

theorem pastKeyValues_appendTokenResults (config : GenerationConfig) (tokenizer : Tokenizer)
    (sequence : Sequence) (tokenIds : List TokenId) (state : ServingState δ) :
    (appendTokenResults config tokenizer sequence state tokenIds).2.pastKeyValues =
      state.pastKeyValues := by
  induction tokenIds generalizing state with
  | nil => rfl
  | cons t ts ih =>
    have happ := pastKeyValues_appendTokenResult config tokenizer sequence state t
    unfold appendTokenResults
    dsimp only
    split_ifs
    · exact happ
    · exact (ih _).trans happ

/-- The draft model changes nothing but the draft cache. -/
def SameTarget (state state' : ServingState δ) : Prop :=
  state' = { state with
    draftPastKeyValues := state'.draftPastKeyValues
    draftCachedLen := state'.draftCachedLen }

theorem SameTarget.trans {state state' state'' : ServingState δ} (h : SameTarget state state')
    (h' : SameTarget state' state'') : SameTarget state state'' := by
  unfold SameTarget at *
  rw [h', h]

theorem cropDraftCache_same (draft : DraftModel δ) (state : ServingState δ) (n : ℕ) :
    SameTarget state (cropDraftCache draft state n) := by
  unfold cropDraftCache
  split
  · split_ifs <;> rfl
  · rfl

theorem draftForward_same (draft : DraftModel δ) (tokenIds : List TokenId)
    (state : ServingState δ) : SameTarget state (draftForward draft tokenIds state).2 :=
  rfl

theorem advanceDraftCache_same (draft : DraftModel δ) (state : ServingState δ)
    (committed : List TokenId) : SameTarget state (advanceDraftCache draft state committed).2 := by
  unfold advanceDraftCache
  have hcrop : SameTarget state (if committed.length < state.draftCachedLen then
      cropDraftCache draft state committed.length else state) := by
    split_ifs
    · exact cropDraftCache_same draft state _
    · rfl
  dsimp only
  split_ifs at hcrop ⊢ <;>
    first
    | exact hcrop.trans ((cropDraftCache_same draft _ _).trans (draftForward_same draft _ _))
    | exact hcrop.trans (draftForward_same draft _ _)

theorem proposeTokens_same (draft : DraftModel δ) (sequence : Sequence) (n : ℕ)
    (logits : List ℚ) (state : ServingState δ) :
    SameTarget state (ex.proposeTokens draft sequence n logits state).2 := by
  induction n generalizing logits state with
  | zero =>
    unfold proposeTokens
    dsimp only
    split_ifs <;> rfl
  | succ n ih =>
    unfold proposeTokens
    dsimp only
    split_ifs
    · rfl
    · exact (draftForward_same draft _ state).trans (ih _ _)

variable (ex) in
theorem draftTokens_same (sequence : Sequence) (state : ServingState δ) (draftCount : ℤ) :
    SameTarget state (ex.draftTokens sequence state draftCount).2 := by
  unfold draftTokens
  split
  · rfl
  · rename_i draft _
    dsimp only
    split_ifs
    · rfl
    · exact (advanceDraftCache_same draft state _).trans
        ((proposeTokens_same draft sequence _ _ _).trans (cropDraftCache_same draft _ _))

/-! ## Decoding -/

variable (ex) in
theorem decodeOne_works (sequence : Sequence) (state : ServingState δ) (env : Env δ) :
    Works env state.pastKeyValues (ex.decodeOne sequence state env).2.2
      (ex.decodeOne sequence state env).2.1.pastKeyValues := by
  have hnext := decodeNext_works ex sequence state env
  unfold decodeOne
  generalize ex.decodeNext sequence state env = r at hnext ⊢
  obtain ⟨e | u, state', env'⟩ := r
  · exact hnext
  · dsimp only [append] at hnext ⊢
    rw [pastKeyValues_appendTokenResult]
    exact hnext

variable (ex) in
theorem targetForwardFromState_works (state : ServingState δ) (env : Env δ)
    (tokenIds : List TokenId) (provisional : Bool) :
    Works env state.pastKeyValues (ex.targetForwardFromState state env tokenIds provisional).2
        state.pastKeyValues ∧
      ∀ logits id t, (ex.targetForwardFromState state env tokenIds provisional).1 =
        .ok (logits, id, t) → Works env state.pastKeyValues
          (ex.targetForwardFromState state env tokenIds provisional).2 (some id) := by
  unfold targetForwardFromState
  have hplan := kvWritePlan_works env state.pastKeyValues
    (state.promptTokenCount + state.generatedTokenIds.length - 1) tokenIds.length
    (state.promptTokenCount + state.generatedTokenIds.length)
    (if provisional then tokenIds.length - 1 else 0)
  dsimp only
  generalize kvWritePlan env (state.promptTokenCount + state.generatedTokenIds.length - 1)
    tokenIds.length (state.promptTokenCount + state.generatedTokenIds.length)
    (if provisional then tokenIds.length - 1 else 0) = r at hplan ⊢
  obtain ⟨e | t, env'⟩ := r
  · exact ⟨hplan, fun _ _ _ h => by cases h⟩
  · dsimp only at hplan ⊢
    cases hf : ex.targetForward env' state.pastKeyValues tokenIds with
    | mk logits r =>
      obtain ⟨id, env''⟩ := r
      have hall := hplan.trans (targetForward_works hf)
      refine ⟨hall.back, fun _ _ _ h => ?_⟩
      cases h
      exact hall

/-- The pages reserved for a provisional forward are given back by the rollback. -/
theorem reservePages_rollback {env env' : Env δ} {start count current append : ℕ}
    {t : KVCacheTransaction}
    (h : reservePages env start count current append = (.ok (some t), env')) :
    PagedKVCache.KVStep env.pages (rollback env' (some t)).2.pages := by
  unfold reservePages at h
  by_cases happend : 0 < append
  · rw [if_pos happend] at h
    generalize hbegin : env.kvCache.beginAppendTransaction env.blockTable
      (if current = 0 then start + 1 else current) append = r at h
    obtain ⟨e | t', kv, table⟩ := r <;> cases h
    exact .beginThenRollback hbegin
  · rw [if_neg happend] at h
    generalize env.kvCache.ensureCapacity env.blockTable (start + count) = r at h
    obtain ⟨e | t', kv, table⟩ := r <;> cases h

theorem rollback_works {state : ServingState δ} {env env' : Env δ} {tokenIds : List TokenId}
    {provisional : Bool} {logits : List (List ℚ)} {id : ℕ} {t : Option KVCacheTransaction}
    (h : ex.targetForwardFromState state env tokenIds provisional = (.ok (logits, id, t), env')) :
    Works env state.pastKeyValues (rollback env' t).2 state.pastKeyValues := by
  have hworks := (targetForwardFromState_works ex state env tokenIds provisional).1
  rw [h] at hworks
  cases t with
  | none => exact hworks
  | some t =>
    refine ⟨hworks.states, hworks.heap, .single ?_⟩
    unfold targetForwardFromState at h
    dsimp only at h
    rcases kvWritePlan_cases env (state.promptTokenCount + state.generatedTokenIds.length - 1)
      tokenIds.length (state.promptTokenCount + state.generatedTokenIds.length)
      (if provisional then tokenIds.length - 1 else 0) with
      ⟨hplan, -⟩ | ⟨e, hplan⟩ | ⟨t', hplan, hok⟩ <;>
      rw [hplan] at h <;> cases h
    have hroll := reservePages_rollback (Prod.ext hok rfl)
    exact hroll

theorem acceptAll_works (sequence : Sequence) (state : ServingState δ) {env₀ env : Env δ}
    {past : Option ℕ} (draftTokens : List TokenId) (logits : List (List ℚ)) {id : ℕ}
    (h : Works env₀ past env (some id)) :
    Works env₀ past (ex.acceptAll sequence state env draftTokens logits id).2.2
      (ex.acceptAll sequence state env draftTokens logits id).2.1.pastKeyValues := by
  have happ := pastKeyValues_appendTokenResults ex.config ex.tokenizer sequence draftTokens
    { state with pastKeyValues := some id }
  unfold acceptAll
  dsimp only at happ ⊢
  split_ifs
  · rw [happ]
    exact h
  · dsimp only [append]
    rw [pastKeyValues_appendTokenResult, happ]
    exact h.trans (sample_works _ _ _ _)
  · rw [happ]
    exact h

theorem acceptPrefix_works (sequence : Sequence) (state : ServingState δ) {env₀ env : Env δ}
    (last : TokenId) (acceptedPrefix : List TokenId) (correctionToken : TokenId)
    (transaction : Option KVCacheTransaction)
    (h : Works env₀ state.pastKeyValues (rollback env transaction).2 state.pastKeyValues) :
    Works env₀ state.pastKeyValues
      (ex.acceptPrefix sequence state env last acceptedPrefix correctionToken transaction).2.2
      (ex.acceptPrefix sequence state env last acceptedPrefix correctionToken
        transaction).2.1.pastKeyValues := by
  unfold acceptPrefix
  generalize rollback env transaction = r at h ⊢
  obtain ⟨e | u, env₁⟩ := r
  · exact h
  · dsimp only at h ⊢
    obtain ⟨hback, hok⟩ :=
      targetForwardFromState_works ex state env₁ (last :: acceptedPrefix) false
    generalize ex.targetForwardFromState state env₁ (last :: acceptedPrefix) false = r
      at hback hok ⊢
    obtain ⟨e | ⟨logits, id, t⟩, env₂⟩ := r
    · exact h.trans hback
    · have happ := pastKeyValues_appendTokenResults ex.config ex.tokenizer sequence acceptedPrefix
        { state with pastKeyValues := some id }
      have hall := h.trans (hok _ _ _ rfl)
      dsimp only at happ hall ⊢
      split_ifs
      · rw [happ]
        exact hall
      · dsimp only [append]
        rw [pastKeyValues_appendTokenResult, happ]
        exact hall

variable (ex) in
theorem speculativeDecode_works (sequence : Sequence) (state : ServingState δ) (env : Env δ) :
    Works env state.pastKeyValues (ex.speculativeDecode sequence state env).2.2
      (ex.speculativeDecode sequence state env).2.1.pastKeyValues := by
  have hsame := draftTokens_same ex sequence state
    (min ex.config.speculativeTokens ((sequence.maxNewTokens : ℤ) - state.generatedTokenIds.length))
  unfold speculativeDecode
  dsimp only
  generalize ex.draftTokens sequence state (min ex.config.speculativeTokens
    ((sequence.maxNewTokens : ℤ) - state.generatedTokenIds.length)) = r at hsame ⊢
  obtain ⟨draftTokens, state'⟩ := r
  have hpast : state'.pastKeyValues = state.pastKeyValues := by
    rw [show state' = _ from hsame]
  dsimp only
  split_ifs with hnil
  · rw [← hpast]
    exact decodeOne_works ex sequence state' env
  · obtain ⟨hback, hok⟩ := targetForwardFromState_works ex state' env
      (state'.generatedTokenIds.getLastD 0 :: draftTokens) true
    cases hf : ex.targetForwardFromState state' env
      (state'.generatedTokenIds.getLastD 0 :: draftTokens) true with
    | mk r env₁ =>
      rw [hf] at hback hok
      obtain e | ⟨logits, id, t⟩ := r
      · rw [← hpast]
        exact hback
      · dsimp only
        rw [← hpast]
        split_ifs
        · exact acceptAll_works sequence state' draftTokens logits (hok _ _ _ rfl)
        · exact acceptPrefix_works sequence state' _ _ _ t (rollback_works hf)

/-! ## Calls -/

/-- A call for the sequence `id` changes no other serving state and no other cache object. -/
structure CallOn (id : SeqId) (st st' : TransformersState δ) : Prop where
  states : ∀ id', id' ≠ id → st'.states id' = st.states id'
  heap : st.heap.Step (st.pastOf id) st'.heap (st'.pastOf id)

theorem CallOn.refl (id : SeqId) (st : TransformersState δ) : CallOn id st st :=
  ⟨fun _ _ => rfl, .refl _ _⟩

/-- Storing the serving state after the work of a call. -/
theorem Works.callOn {id : SeqId} {env env' : Env δ} {past : Option ℕ} {state : ServingState δ}
    (hpast : env.state.pastOf id = past) (h : Works env past env' state.pastKeyValues) :
    CallOn id env.state (store env' id state).state ∧
      PagedKVCache.KVSteps env.pages (store env' id state).pages := by
  refine ⟨⟨fun id' hid => ?_, ?_⟩, h.pages⟩
  · simp only [store, ServingStates.store, h.states]
    exact Function.update_of_ne hid _ _
  · subst hpast
    have hpast' : (store env' id state).state.pastOf id =
        if state.finished then none else state.pastKeyValues := by
      simp only [store, ServingStates.store, TransformersState.pastOf, Function.update_self]
      split_ifs <;> rfl
    rw [hpast']
    split_ifs
    · exact h.heap.drop
    · exact h.heap

theorem pastKeyValues_ensure (st : TransformersState δ) (sequence : Sequence) :
    st.pastOf sequence.seqId = (st.states.ensure sequence).pastKeyValues := by
  unfold TransformersState.pastOf ServingStates.ensure
  cases st.states sequence.seqId <;> rfl

variable (ex) in
theorem forwardPrefill_callOn (sequence : Sequence) (batch : Batch) (env : Env δ) :
    CallOn sequence.seqId env.state (ex.forwardPrefill sequence batch env).2.state ∧
      PagedKVCache.KVSteps env.pages (ex.forwardPrefill sequence batch env).2.pages := by
  unfold forwardPrefill
  split_ifs with hnil
  · exact ⟨.refl _ _, .refl⟩
  · have hpast := pastKeyValues_ensure env.state sequence
    dsimp only
    cases hf : ex.targetForward env (env.state.states.ensure sequence).pastKeyValues
      batch.inputIds with
    | mk logits r =>
      obtain ⟨id, env'⟩ := r
      have hworks := targetForward_works hf
      dsimp only
      split_ifs
      · exact Works.callOn hpast (hworks.trans (sample_works _ _ _ _))
      · exact Works.callOn hpast hworks

/-- Speculation starts after the first token. -/
theorem generatedTokenIds_ne_nil {sequence : Sequence} {state : ServingState δ}
    (h : ex.speculativeEnabled sequence state = true) : state.generatedTokenIds ≠ [] := by
  simp only [speculativeEnabled, Bool.and_eq_true, decide_eq_true_eq] at h
  exact h.1.1.1.2

/-- What `forward_decode` can do : nothing if the request is over, else give out the pending
token, do a speculative round, or decode one token. -/
inductive Decoded (ex : TransformersTextExecutor δ) (sequence : Sequence) (env : Env δ) :
    Except PyError DecodeOutput × Env δ → Prop
  | finished (hfin : (env.state.states.ensure sequence).finished = true) :
      Decoded ex sequence env
        (.ok (.one { tokenId := ex.tokenizer.eos, text := [], finished := true }), env)
  | pending (result : SampleResult) (state' : ServingState δ)
      (hpast : state'.pastKeyValues = (env.state.states.ensure sequence).pastKeyValues) :
      Decoded ex sequence env (.ok (.one result), store env sequence.seqId state')
  | speculative {r : Except PyError (List SampleResult)} {state' : ServingState δ} {env' : Env δ}
      (hfin : (env.state.states.ensure sequence).finished = false)
      (hgenerated : (env.state.states.ensure sequence).generatedTokenIds ≠ [])
      (h : ex.speculativeDecode sequence (env.state.states.ensure sequence) env =
        (r, state', env')) :
      Decoded ex sequence env (r.map DecodeOutput.many, store env' sequence.seqId state')
  | one {r : Except PyError SampleResult} {state' : ServingState δ} {env' : Env δ}
      (h : ex.decodeOne sequence (env.state.states.ensure sequence) env = (r, state', env')) :
      Decoded ex sequence env (r.map DecodeOutput.one, store env' sequence.seqId state')

variable (ex) in
theorem decoded (sequence : Sequence) (batch : Batch) (env : Env δ) :
    Decoded ex sequence env (ex.forwardDecode sequence batch env) := by
  unfold forwardDecode
  dsimp only
  by_cases hfin : (env.state.states.ensure sequence).finished = true
  · rw [if_pos hfin]
    exact .finished hfin
  · rw [if_neg hfin]
    split
    · refine .pending _ _ ?_
      rw [append, pastKeyValues_appendTokenResult]
    · split_ifs with henabled
      · exact .speculative (by simpa using hfin) (generatedTokenIds_ne_nil henabled) rfl
      · exact .one rfl

variable (ex) in
theorem forwardDecode_callOn (sequence : Sequence) (batch : Batch) (env : Env δ) :
    CallOn sequence.seqId env.state (ex.forwardDecode sequence batch env).2.state ∧
      PagedKVCache.KVSteps env.pages (ex.forwardDecode sequence batch env).2.pages := by
  have hpast := pastKeyValues_ensure env.state sequence
  have h := decoded ex sequence batch env
  generalize ex.forwardDecode sequence batch env = r at h
  cases h with
  | finished => exact ⟨.refl _ _, .refl⟩
  | pending result state' hsame =>
    refine Works.callOn hpast ?_
    rw [hsame]
    exact .refl _ _
  | speculative hfin hgenerated h =>
    have hworks := speculativeDecode_works ex sequence (env.state.states.ensure sequence) env
    rw [h] at hworks
    exact Works.callOn hpast hworks
  | one h =>
    have hworks := decodeOne_works ex sequence (env.state.states.ensure sequence) env
    rw [h] at hworks
    exact Works.callOn hpast hworks

/-- The executor as the runtime sees it. -/
def modelExecutor (ex : TransformersTextExecutor δ) : ModelExecutor (TransformersState δ) where
  supportsPrefixCache := false
  usesPagedKv := true
  tokenizeMessages := ex.tokenizer.chatTokenIds
  forwardPrefill := ex.forwardPrefill
  forwardDecode := ex.forwardDecode
  forwardPrefill_kv sequence batch env := (forwardPrefill_callOn ex sequence batch env).2
  forwardDecode_kv sequence batch env := (forwardDecode_callOn ex sequence batch env).2

/-! ## Separate caches -/

/-- The cache objects are old ones, and no two sequences have the same. -/
structure Separate (st : TransformersState δ) : Prop where
  bounded : ∀ id c, st.pastOf id = some c → c < st.heap.next
  distinct : ∀ id id' c, st.pastOf id = some c → st.pastOf id' = some c → id = id'

theorem CallOn.pastOf {id id' : SeqId} {st st' : TransformersState δ} (h : CallOn id st st')
    (hid : id' ≠ id) : st'.pastOf id' = st.pastOf id' := by
  unfold TransformersState.pastOf
  rw [h.states id' hid]

theorem CallOn.separate {id : SeqId} {st st' : TransformersState δ} (h : CallOn id st st')
    (hs : Separate st) : Separate st' := by
  have hnew : ∀ id' c, id' ≠ id → st'.pastOf id = some c →
      st'.pastOf id' ≠ some c := by
    intro id' c hid hc hc'
    rw [h.pastOf hid] at hc'
    rcases h.heap.fresh c hc with hc | ⟨hle, -⟩
    · exact hid (hs.distinct id' id c hc' hc)
    · have := hs.bounded id' c hc'
      omega
  constructor
  · intro id' c hc
    by_cases hid : id' = id
    · subst hid
      rcases h.heap.fresh c hc with hc | ⟨-, hlt⟩
      · exact (hs.bounded id' c hc).trans_le h.heap.next
      · exact hlt
    · rw [h.pastOf hid] at hc
      exact (hs.bounded id' c hc).trans_le h.heap.next
  · intro id₁ id₂ c h₁ h₂
    by_cases hid₁ : id₁ = id
    · by_contra hne
      exact hnew id₂ c (fun h => hne (hid₁.trans h.symm)) (hid₁ ▸ h₁) h₂
    · by_cases hid₂ : id₂ = id
      · exact absurd h₁ (hnew id₁ c hid₁ (hid₂ ▸ h₂))
      · rw [h.pastOf hid₁] at h₁
        rw [h.pastOf hid₂] at h₂
        exact hs.distinct id₁ id₂ c h₁ h₂

/-- A call for another sequence keeps the contents of the cache of a sequence. -/
theorem CallOn.tokens {id id' : SeqId} {st st' : TransformersState δ} (h : CallOn id st st')
    (hs : Separate st) (hid : id' ≠ id) {c : ℕ} (hc : st.pastOf id' = some c) :
    st'.heap.tokens c = st.heap.tokens c :=
  h.heap.kept c (hs.bounded id' c hc) fun hc' => hid (hs.distinct id' id c hc hc')

end TransformersTextExecutor

end SoloRT
