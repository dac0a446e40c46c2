import SoloRT.SlotLookup
import SoloRT.InStep
import SoloRT.Solo
import SoloRT.Waiting

/-!
# A budget of pages

A request never needs more pages than its prompt and the tokens it asks for take up : the pages of
a batch, of a write plan and of the provisional append of a validation are all for tokens within
`max_new_tokens` (`Roomy`). So if the cache has as many pages as all requests that were ever added
take together, the allocator never runs out. Nothing else raises in the runtime or in
`TransformersTextExecutor`, as long as sampling raises nothing (`Sampling`), so no stream raises
(`not_raised_of_affordable`).

The budget counts the requests that are over as well, since none gives its pages back. A request
keeps the pages for the prompt tokens that were prefilled (`PrefilledHeld`), and no two have a page
in common, so what a server without a prefix cache prefills in all is bounded by the number of its
pages (`prefilled_le_numPages`).
-/

namespace SoloRT

/-! ## Room for a number of tokens -/

namespace PagedKVCache

variable {kv kv' : PagedKVCache} {table table' : List PageId} {n m : ℕ}

/-- The table can get the pages of `n` tokens, and has no more. -/
structure Roomy (kv : PagedKVCache) (table : List PageId) (n : ℕ) : Prop where
  consistent : kv.allocator.Consistent
  within : table.length ≤ kv.pagesRequired n
  room : kv.pagesRequired n ≤ table.length + kv.allocator.freePages.length

/-- Calls on the table move pages between it and the free ones. -/
theorem Roomy.grows (h : Roomy kv table n) {pages : List PageId}
    (hgrow : Grows kv table kv' table' pages) (hwithin : table'.length ≤ kv.pagesRequired n) :
    Roomy kv' table' n := by
  have hpages : kv'.pagesRequired n = kv.pagesRequired n := by
    rw [pagesRequired, hgrow.config, pagesRequired]
  have hcard := h.consistent.card
  have hcard' := hgrow.consistent.card
  have hdisjoint : Disjoint kv.allocator.usedPages pages.toFinset :=
    Finset.disjoint_right.2 fun p hp => hgrow.fresh p (List.mem_toFinset.1 hp)
  rw [hgrow.used, Finset.card_union_of_disjoint hdisjoint, List.toFinset_card_of_nodup hgrow.nodup,
    hgrow.numPages] at hcard'
  have hlen : table'.length = table.length + pages.length := by
    rw [hgrow.table_eq, List.length_append]
  have hroom := h.room
  refine ⟨hgrow.consistent, hpages ▸ hwithin, ?_⟩
  rw [hpages]
  omega

/-- A reservation makes the table as long as it must be, or leaves it. -/
theorem length_ensureCapacity {pages : List PageId}
    (h : kv.ensureCapacity table m = (.ok pages, kv', table')) :
    table'.length = max table.length (kv.pagesRequired m) := by
  unfold ensureCapacity at h
  dsimp only at h
  split_ifs at h with hmissing
  · cases h
    omega
  · cases ha : kv.allocator.alloc ↑(kv.pagesRequired m - table.length) with
    | mk r a' =>
      rw [ha] at h
      obtain e | pages' := r <;> cases h
      have hlen := (PageAllocator.alloc_ok ha).1
      rw [List.length_append]
      omega

theorem Roomy.ensureCapacity (h : Roomy kv table n) (hm : m ≤ n) :
    ∃ pages kv' table', kv.ensureCapacity table m = (.ok pages, kv', table') ∧
      Roomy kv' table' n := by
  have hmono := kv.pagesRequired_mono hm
  obtain ⟨pages, kv', table', hens⟩ := @exists_ensureCapacity_ok kv table m
    (by have hroom := h.room; omega)
  obtain ⟨new, hgrow, -⟩ := ensureCapacity_grows h.consistent table m
  rw [hens] at hgrow
  refine ⟨pages, kv', table', hens, h.grows hgrow ?_⟩
  rw [length_ensureCapacity hens]
  exact max_le h.within hmono

theorem Roomy.beginAppendTransaction (h : Roomy kv table n) {current append : ℕ}
    (hm : current + append ≤ n) : ∃ transaction kv' table',
      kv.beginAppendTransaction table current append = (.ok transaction, kv', table') ∧
        Roomy kv' table' n := by
  obtain ⟨pages, kv', table', hens, hroomy⟩ := h.ensureCapacity hm
  unfold PagedKVCache.beginAppendTransaction
  rw [if_neg (by omega), Int.toNat_natCast, hens]
  exact ⟨_, kv', table', rfl, hroomy⟩

end PagedKVCache

/-! ## The calls of the executor -/

namespace TransformersTextExecutor

variable {δ : Type} (ex : TransformersTextExecutor δ) (sequence : Sequence)
  {state : ServingState δ} {env : Env δ} {n : ℕ}

/-- The sequence of the call can get the pages of `n` tokens. -/
def Roomy (env : Env δ) (n : ℕ) : Prop :=
  env.kvCache.Roomy env.blockTable n

theorem reservePages_roomy (h : Roomy env n) (start count current append : ℕ)
    (hcurrent : current ≠ 0 ∨ append = 0) (hcount : append = 0 → start + count ≤ n)
    (happend : current + append ≤ n) : ∃ transaction env',
      reservePages env start count current append = (.ok transaction, env') ∧ Roomy env' n := by
  unfold reservePages
  by_cases hpos : 0 < append
  · obtain ⟨transaction, kv', table', hbegin, hroomy⟩ := h.beginAppendTransaction happend
    rw [if_pos hpos, if_neg (hcurrent.resolve_right hpos.ne'), hbegin]
    exact ⟨_, _, rfl, hroomy⟩
  · obtain ⟨pages, kv', table', hens, hroomy⟩ := h.ensureCapacity (hcount (by omega))
    rw [if_neg hpos, hens]
    exact ⟨_, _, rfl, hroomy⟩

theorem kvWritePlan_roomy (h : Roomy env n) (start count current append : ℕ)
    (hcurrent : current ≠ 0 ∨ append = 0) (hcount : start + count ≤ n)
    (happend : current + append ≤ n) (hend : 0 < append → start + count ≤ current + append) :
    ∃ transaction env', kvWritePlan env start count current append = (.ok transaction, env') ∧
      Roomy env' n := by
  unfold kvWritePlan
  split_ifs
  · exact ⟨none, env, rfl, h⟩
  · obtain ⟨transaction, env', hreserve, hroomy⟩ :=
      reservePages_roomy h start count current append hcurrent (fun _ => hcount) happend
    have hcovers := reservePages_covers hreserve fun hpos => by
      rw [if_neg (hcurrent.resolve_right hpos.ne')]
      exact hend hpos
    obtain ⟨slots, hslots⟩ := env'.kvCache.exists_slotMapping_ok hcovers
      fun p hp => (List.mem_range'_1.1 hp).2
    rw [hreserve]
    dsimp only
    rw [hslots]
    exact ⟨transaction, env', rfl, hroomy⟩

theorem decodeOne_roomy (h : Roomy env n)
    (hn : state.promptTokenCount + state.generatedTokenIds.length ≤ n) :
    ∃ result state' env', ex.decodeOne sequence state env = (.ok result, state', env') ∧
      Roomy env' n := by
  unfold decodeOne decodeNext
  cases hlast : state.generatedTokenIds.getLast? with
  | none => exact ⟨_, _, env, rfl, h⟩
  | some last =>
    have hpos : 0 < state.generatedTokenIds.length := List.length_pos_iff.2 fun hnil => by
      rw [hnil] at hlast
      cases hlast
    obtain ⟨transaction, env', hplan, hroomy⟩ := kvWritePlan_roomy h
      (state.promptTokenCount + state.generatedTokenIds.length - 1) 1 0 0 (.inr rfl)
      (by omega) (by omega) (by omega)
    dsimp only
    rw [hplan]
    exact ⟨_, _, _, rfl, hroomy⟩

theorem targetForwardFromState_roomy (h : Roomy env n) {tokenIds : List TokenId}
    (provisional : Bool) (hgenerated : state.generatedTokenIds ≠ []) (hne : tokenIds ≠ [])
    (hn : state.promptTokenCount + state.generatedTokenIds.length + (tokenIds.length - 1) ≤ n) :
    ∃ r env', ex.targetForwardFromState state env tokenIds provisional = (.ok r, env') ∧
      Roomy env' n := by
  have hpos := List.length_pos_of_ne_nil hgenerated
  have hlen := List.length_pos_of_ne_nil hne
  have happend : (if provisional then tokenIds.length - 1 else 0) ≤ tokenIds.length - 1 := by
    split_ifs <;> omega
  obtain ⟨transaction, env', hplan, hroomy⟩ := kvWritePlan_roomy h
    (state.promptTokenCount + state.generatedTokenIds.length - 1) tokenIds.length
    (state.promptTokenCount + state.generatedTokenIds.length)
    (if provisional then tokenIds.length - 1 else 0)
    (.inl (by omega)) (by omega) (by omega) fun hpos' => by
      split_ifs at hpos' ⊢
      · omega
      · omega
  unfold targetForwardFromState
  dsimp only
  rw [hplan]
  exact ⟨_, _, rfl, hroomy⟩

theorem length_proposeTokens_le (draft : DraftModel δ) (k : ℕ) (logits : List ℚ)
    (state : ServingState δ) :
    (ex.proposeTokens draft sequence k logits state).1.length ≤ k + 1 := by
  induction k generalizing logits state with
  | zero =>
    unfold proposeTokens
    dsimp only
    split_ifs <;> simp
  | succ k ih =>
    unfold proposeTokens
    dsimp only
    split_ifs
    · simp
    · rw [List.length_cons]
      exact Nat.succ_le_succ (ih ..)

/-- No more tokens are proposed than asked for. -/
theorem length_draftTokens_le (state : ServingState δ) (draftCount : ℤ) :
    (ex.draftTokens sequence state draftCount).1.length ≤ draftCount.toNat := by
  unfold draftTokens
  cases ex.draftModel with
  | none => simp
  | some draft =>
    dsimp only
    split_ifs with hnone
    · simp
    · have hle := length_proposeTokens_le ex sequence draft (draftCount.toNat - 1)
        (advanceDraftCache draft state (sequence.inputIds ++ state.generatedTokenIds)).1
        (advanceDraftCache draft state (sequence.inputIds ++ state.generatedTokenIds)).2
      dsimp only
      omega

/-- Nothing raises after a validation, and the table is rolled back. -/
theorem acceptPrefix_roomy (h : Roomy env n) (hgenerated : state.generatedTokenIds ≠ [])
    {last correction : TokenId} {drafts accepted : List TokenId} (hne : drafts ≠ [])
    (hlen : accepted.length ≤ drafts.length)
    (hn : state.promptTokenCount + state.generatedTokenIds.length + drafts.length ≤ n)
    {logits : List (List ℚ)} {id : ℕ} {transaction : Option KVCacheTransaction} {env₁ : Env δ}
    (hf : ex.targetForwardFromState state env (last :: drafts) true =
      (.ok (logits, id, transaction), env₁)) : ∃ results state' env',
    ex.acceptPrefix sequence state env₁ last accepted correction transaction =
      (.ok results, state', env') ∧ Roomy env' n := by
  obtain ⟨txn, rfl, hbegin⟩ := beginAppendTransaction_of_validation hgenerated hne hf
  obtain ⟨kv', hback, hgrow⟩ := PagedKVCache.rollbackTransaction_ok h.consistent hbegin
  have hrollback : rollback env₁ (some txn) = (.ok (), ⟨env₁.state, kv', env.blockTable⟩) := by
    unfold rollback
    dsimp only
    rw [hback]
  have hroomy : Roomy (⟨env₁.state, kv', env.blockTable⟩ : Env δ) n := h.grows hgrow h.within
  obtain ⟨r, env₂, hreplay, hroomy'⟩ := targetForwardFromState_roomy ex hroomy false
    hgenerated (List.cons_ne_nil last accepted)
    (by rw [List.length_cons]; omega)
  unfold acceptPrefix
  rw [hrollback]
  dsimp only
  rw [hreplay]
  dsimp only
  split_ifs
  · exact ⟨_, _, env₂, rfl, hroomy'⟩
  · exact ⟨_, _, env₂, rfl, hroomy'⟩

theorem acceptAll_roomy (h : Roomy env n) {drafts : List TokenId} {logits : List (List ℚ)}
    {id : ℕ} : Roomy (ex.acceptAll sequence state env drafts logits id).2.2 n := by
  unfold acceptAll
  dsimp only
  split_ifs
  · exact h
  · exact h
  · exact h

/-- The validation, its rollback and the replay are within the request too. -/
theorem speculativeDecode_roomy (h : Roomy env n) (hgenerated : state.generatedTokenIds ≠ [])
    (hn : state.promptTokenCount + sequence.maxNewTokens ≤ n)
    (hmax : state.generatedTokenIds.length < sequence.maxNewTokens) :
    ∃ results state' env', ex.speculativeDecode sequence state env =
      (.ok results, state', env') ∧ Roomy env' n := by
  have hsame := draftTokens_same ex sequence state
    (min ex.config.speculativeTokens ((sequence.maxNewTokens : ℤ) - state.generatedTokenIds.length))
  have hle := length_draftTokens_le ex sequence state
    (min ex.config.speculativeTokens ((sequence.maxNewTokens : ℤ) - state.generatedTokenIds.length))
  unfold speculativeDecode
  dsimp only
  generalize ex.draftTokens sequence state (min ex.config.speculativeTokens
    ((sequence.maxNewTokens : ℤ) - state.generatedTokenIds.length)) = r at hsame hle
  obtain ⟨drafts, state₁⟩ := r
  have hgen₁ : state₁.generatedTokenIds = state.generatedTokenIds := by
    rw [show state₁ = _ from hsame]
  have hprompt₁ : state₁.promptTokenCount = state.promptTokenCount := by
    rw [show state₁ = _ from hsame]
  dsimp only at hle ⊢
  rw [← hgen₁] at hgenerated hmax
  rw [← hprompt₁] at hn
  have hbound : state₁.generatedTokenIds.length + drafts.length ≤ sequence.maxNewTokens := by
    rw [hgen₁] at hmax ⊢
    omega
  by_cases hnil : drafts = []
  · obtain ⟨result, state', env', hone, hroomy⟩ := decodeOne_roomy ex sequence h
      (show state₁.promptTokenCount + state₁.generatedTokenIds.length ≤ n by omega)
    rw [if_pos hnil, hone]
    exact ⟨_, state', env', rfl, hroomy⟩
  · obtain ⟨⟨logits, id, transaction⟩, env₁, hforward, hroomy⟩ := targetForwardFromState_roomy
      ex h true hgenerated (List.cons_ne_nil (state₁.generatedTokenIds.getLastD 0) drafts)
      (by rw [List.length_cons]; omega)
    rw [if_neg hnil, hforward]
    dsimp only
    split_ifs
    · exact ⟨_, _, _, rfl, acceptAll_roomy ex sequence hroomy⟩
    · exact acceptPrefix_roomy ex sequence h hgenerated hnil (List.length_take_le' _ _)
        (by omega) hforward

/-- A decode does not raise if the sequence has room for the tokens it asks for. -/
theorem forwardDecode_roomy (h : Roomy env n) (batch : Batch)
    (hprompt : (env.state.states.ensure sequence).promptTokenCount + sequence.maxNewTokens ≤ n)
    (hmax : (env.state.states.ensure sequence).generatedTokenIds.length <
      sequence.maxNewTokens) : ∃ output env', ex.forwardDecode sequence batch env =
        (.ok output, env') ∧ Roomy env' n := by
  unfold forwardDecode
  dsimp only
  by_cases hfin : (env.state.states.ensure sequence).finished = true
  · rw [if_pos hfin]
    exact ⟨_, env, rfl, h⟩
  · rw [if_neg hfin]
    cases (env.state.states.ensure sequence).pendingTokenId with
    | some tokenId => exact ⟨_, _, rfl, h⟩
    | none =>
      dsimp only
      by_cases henabled : ex.speculativeEnabled sequence (env.state.states.ensure sequence) = true
      · obtain ⟨results, state', env', hdecode, hroomy⟩ := speculativeDecode_roomy ex sequence
          h (generatedTokenIds_ne_nil henabled) hprompt hmax
        rw [if_pos henabled, hdecode]
        exact ⟨_, _, rfl, hroomy⟩
      · obtain ⟨result, state', env', hone, hroomy⟩ := decodeOne_roomy ex sequence h
          (show (env.state.states.ensure sequence).promptTokenCount +
            (env.state.states.ensure sequence).generatedTokenIds.length ≤ n by omega)
        rw [if_neg henabled, hone]
        exact ⟨_, _, rfl, hroomy⟩

theorem forwardPrefill_roomy (h : Roomy env n) (batch : Batch) :
    ∃ env', ex.forwardPrefill sequence batch env = (.ok (), env') ∧ Roomy env' n := by
  unfold forwardPrefill
  dsimp only
  split_ifs
  · exact ⟨_, rfl, h⟩
  · exact ⟨_, rfl, h⟩
  · exact ⟨_, rfl, h⟩

end TransformersTextExecutor

/-! ## A batch -/

theorem blockTable_postprocessBatch (q : Sequence) (batch : Batch) :
    (q.postprocessBatch batch).blockTable = q.blockTable := by
  unfold Sequence.postprocessBatch
  split_ifs <;> rfl

theorem blockTable_consumeSamples (samples : List SampleResult) (q : Sequence)
    (metrics : RuntimeMetrics) :
    (consumeSamples samples q metrics).2.1.blockTable = q.blockTable := by
  induction samples generalizing q metrics with
  | nil => rfl
  | cons sample samples ih =>
    unfold consumeSamples
    dsimp only
    by_cases hdone : q.isTerminal = true
    · rw [if_pos hdone]
    · rw [if_neg hdone]
      by_cases hfin : finishesWith (appendSample q sample) sample = true
      · rw [if_pos hfin]
        rfl
      · rw [if_neg hfin]
        exact ih (appendSample q sample) _

namespace BatchContext

theorem attachKv_roomy {σ : Type} (ex : ModelExecutor σ) {c : BatchContext σ} {n m : ℕ}
    (h : c.kvCache.Roomy c.sequence.blockTable n) (hm : m ≤ n) {batch : Batch}
    (hpositions : ∀ p ∈ batch.positions, p < m) : ∃ batch' env,
      c.attachKv ex batch m = (.ok batch', c.setEnv env) ∧ env.state = c.executor ∧
        env.kvCache.Roomy env.blockTable n := by
  unfold attachKv
  split_ifs
  · obtain ⟨pages, kv', table', hens, hroomy⟩ := h.ensureCapacity hm
    obtain ⟨slots, hslots⟩ := kv'.exists_slotMapping_ok
      (PagedKVCache.ensureCapacity_covers hens) hpositions
    rw [hens]
    dsimp only [PagedKVCache.metadataFor]
    rw [hslots]
    exact ⟨_, ⟨c.executor, kv', table'⟩, rfl, rfl, hroomy⟩
  · exact ⟨batch, c.env, rfl, rfl, h⟩

variable {δ : Type} {c : BatchContext (TransformersState δ)} {batch : Batch} {n : ℕ}

/-- Executing a batch does not raise if the sequence has room for its prompt and the tokens it asks
for. -/
theorem executeBatch_roomy (ex : TransformersTextExecutor δ)
    (h : c.kvCache.Roomy c.sequence.blockTable n)
    {sch : InteractiveScheduler} {budget : Option ℕ}
    (hb : sch.buildBatch budget c.sequence = .ok batch) (hafter : c.tokensAfter batch ≤ n)
    (hprompt : (c.executor.states.ensure c.sequence).promptTokenCount +
      c.sequence.maxNewTokens ≤ n)
    (hmax : (c.executor.states.ensure c.sequence).generatedTokenIds.length <
      c.sequence.maxNewTokens) : ∃ texts c',
    c.executeBatch ex.modelExecutor batch = (.ok texts, c') ∧
      c'.kvCache.Roomy c'.sequence.blockTable n := by
  obtain ⟨batch', env, hattach, hstate, hroomy⟩ :=
    attachKv_roomy ex.modelExecutor h hafter (lt_tokensAfter hb)
  unfold executeBatch
  split_ifs
  · exact ⟨[], c, rfl, h⟩
  · cases hphase : batch.phase with
    | prefill =>
      rw [tokensAfter_prefill hphase] at hattach
      obtain ⟨env', hforward, hroomy'⟩ := TransformersTextExecutor.forwardPrefill_roomy ex
        (c.setEnv env).sequence hroomy batch'
      dsimp only [executePrefill]
      rw [hattach]
      dsimp only [env_setEnv]
      rw [show ex.modelExecutor.forwardPrefill (c.setEnv env).sequence batch' env = _
        from hforward]
      dsimp only [cachePrefix]
      rw [if_neg fun hc => Bool.false_ne_true hc.2.2]
      refine ⟨[], _, rfl, ?_⟩
      rw [blockTable_postprocessBatch]
      exact hroomy'
    | decode =>
      rw [tokensAfter_decode hphase] at hattach
      have hensure : env.state.states.ensure (c.setEnv env).sequence =
          c.executor.states.ensure c.sequence := by rw [hstate]; rfl
      rw [← hensure] at hprompt hmax
      obtain ⟨output, env', hforward, hroomy'⟩ := TransformersTextExecutor.forwardDecode_roomy ex
        (c.setEnv env).sequence hroomy batch' hprompt hmax
      have hother := TransformersTextExecutor.forwardDecode_ne_other batch' hforward
      dsimp only [executeDecode]
      rw [hattach]
      dsimp only [env_setEnv]
      rw [show ex.modelExecutor.forwardDecode (c.setEnv env).sequence batch' env = _
        from hforward]
      dsimp only
      cases output with
      | one sample =>
        refine ⟨_, _, rfl, ?_⟩
        rw [blockTable_consumeSamples]
        exact hroomy'
      | many samples =>
        refine ⟨_, _, rfl, ?_⟩
        rw [blockTable_consumeSamples]
        exact hroomy'
      | other => exact absurd rfl hother

end BatchContext

/-! ## The budget -/

/-- One of the larger terms takes the place of the smaller one. -/
theorem add_sum_le {ι : Type*} {f g : ι → ℕ} {l : List ι} (hle : ∀ i ∈ l, f i ≤ g i) {i : ι}
    (hi : i ∈ l) : g i + (l.map f).sum ≤ f i + (l.map g).sum := by
  induction l with
  | nil => cases hi
  | cons j l ih =>
    simp only [List.map_cons, List.sum_cons]
    have hsum : (l.map f).sum ≤ (l.map g).sum :=
      List.sum_le_sum fun k hk => hle k (List.mem_cons_of_mem j hk)
    rcases List.mem_cons.1 hi with rfl | hi
    · omega
    · have hj := hle j List.mem_cons_self
      have hrest := ih (fun k hk => hle k (List.mem_cons_of_mem j hk)) hi
      omega

namespace RuntimeCore

variable {σ : Type} {ex : ModelExecutor σ} {rt rt' : RuntimeCore σ} {e : Event} {id : SeqId}
  {q q' : Sequence}

/-- The pages that a request takes at most. -/
def pagesFor (rt : RuntimeCore σ) (q : Sequence) : ℕ :=
  rt.kvCache.pagesRequired (q.inputIds.length + q.maxNewTokens)

/-- The cache has pages for all the requests that were added, and their prompts are not empty. -/
structure Affordable (rt : RuntimeCore σ) : Prop where
  prompts : ∀ id q, rt.scheduler.get id = some q → q.inputIds ≠ []
  pages : (rt.scheduler.order.map fun id => (rt.scheduler.get id).elim 0 rt.pagesFor).sum ≤
    rt.kvCache.config.numPages

/-- No table has more pages than its request takes. -/
def TablesWithin (rt : RuntimeCore σ) : Prop :=
  ∀ id q, rt.scheduler.get id = some q → q.blockTable.length ≤ rt.pagesFor q

theorem pagesFor_of_request (hconfig : rt'.kvCache.config = rt.kvCache.config)
    (hreq : q'.request = q.request) : rt'.pagesFor q' = rt.pagesFor q := by
  rw [pagesFor, pagesFor, PagedKVCache.pagesRequired, PagedKVCache.pagesRequired, hconfig,
    Sequence.inputIds_of_request hreq, Sequence.maxNewTokens_of_request hreq]

/-- The pages in use are no more than the tables have entries. -/
theorem PagesOwned.card_usedPages_le (hp : rt.PagesOwned) (hwf : rt.scheduler.WellFormed) :
    rt.kvCache.allocator.usedPages.card ≤ (rt.scheduler.order.map fun id =>
      (rt.scheduler.get id).elim 0 fun q => q.blockTable.length).sum := by
  have hsub : rt.kvCache.allocator.usedPages ⊆ (rt.scheduler.order.flatMap fun id =>
      (rt.scheduler.get id).elim [] Sequence.blockTable).toFinset := by
    intro p hused
    obtain ⟨id, q, hq, hp⟩ := (hp.tables p).1 hused
    have hmem := (hwf.mem_order id).2 (Option.isSome_iff_exists.2 ⟨q, hq⟩)
    exact List.mem_toFinset.2 (List.mem_flatMap.2 ⟨id, hmem, by rw [hq]; exact hp⟩)
  refine (Finset.card_le_card hsub).trans ((List.toFinset_card_le _).trans_eq ?_)
  rw [List.length_flatMap]
  congr 1
  refine List.map_congr_left fun id _ => ?_
  cases rt.scheduler.get id <;> rfl

/-- Within the budget, every sequence can get the pages for its prompt and the tokens it asks
for. -/
theorem PagesOwned.roomy (hp : rt.PagesOwned) (hwf : rt.scheduler.WellFormed)
    (hw : rt.TablesWithin) (ha : rt.Affordable) (hq : rt.scheduler.get id = some q) :
    rt.kvCache.Roomy q.blockTable (q.inputIds.length + q.maxNewTokens) := by
  refine ⟨hp.consistent, hw id q hq, ?_⟩
  have hmem := (hwf.mem_order id).2 (Option.isSome_iff_exists.2 ⟨q, hq⟩)
  have hsum := add_sum_le (f := fun id => (rt.scheduler.get id).elim 0 fun q => q.blockTable.length)
    (g := fun id => (rt.scheduler.get id).elim 0 rt.pagesFor) (fun i _ => ?_) hmem
  · rw [hq] at hsum
    have hcard := hp.consistent.card
    have hused := hp.card_usedPages_le hwf
    have hpages := ha.pages
    rw [hp.numPages] at hcard
    change rt.pagesFor q ≤ _
    simp only [Option.elim_some] at hsum
    omega
  · cases hi : rt.scheduler.get i with
    | none => exact le_rfl
    | some q => exact hw i q hi

theorem Change.kvConfig (h : Change ex rt rt' e) (hp : rt.PagesOwned) :
    rt'.kvCache.config = rt.kvCache.config := by
  cases h with
  | quiet h | cancelled _ _ _ _ h | finished _ _ _ _ h | selected _ _ h => rw [h.kvCache]
  | added _ _ _ _ _ _ _ _ _ _ hkv => rw [hkv]
  | executed s batch r c hsel hb hx h =>
    obtain ⟨pages, hgrow⟩ := (BatchContext.executed_of_eq hx).kvSteps.grows hp.consistent
    rw [h]
    exact hgrow.config
  | evicted n h => rw [h]

theorem Change.order_prefix (h : Change ex rt rt' e) :
    rt.scheduler.order <+: rt'.scheduler.order := by
  have hsame : ∀ {sch : InteractiveScheduler}, rt'.scheduler = sch →
      sch.order = rt.scheduler.order → rt.scheduler.order <+: rt'.scheduler.order := by
    intro sch hs horder
    rw [hs, horder]
  cases h with
  | quiet h | cancelled _ _ _ _ h | finished _ _ _ _ h | selected _ _ h =>
    exact hsame h.scheduler rfl
  | added _ _ _ _ _ _ _ _ _ hs =>
    rw [hs]
    exact List.prefix_append _ _
  | executed s batch r c hsel hb hx h => exact hsame (congrArg scheduler h) rfl
  | evicted n h => exact hsame (congrArg scheduler h) rfl

/-- What was affordable with more requests is with fewer. -/
theorem Affordable.of_change (ha : rt'.Affordable) (h : Change ex rt rt' e) (hrt : rt.Sound)
    (hp : rt.PagesOwned) : rt.Affordable := by
  have hconfig := h.kvConfig hp
  refine ⟨fun id q hq => ?_, ?_⟩
  · obtain ⟨q', hq', hreq⟩ := h.get_some hrt hq
    exact Sequence.inputIds_of_request hreq ▸ ha.prompts id q' hq'
  · obtain ⟨new, horder⟩ := h.order_prefix
    have hpages := ha.pages
    rw [← horder, List.map_append, List.sum_append, hconfig] at hpages
    refine le_trans (le_of_eq ?_) ((Nat.le_add_right _ _).trans hpages)
    congr 1
    refine List.map_congr_left fun id hid => ?_
    obtain ⟨q, hq⟩ := Option.isSome_iff_exists.1 ((hrt.wellFormed.mem_order id).1 hid)
    obtain ⟨q', hq', hreq⟩ := h.get_some hrt hq
    have hq : rt.scheduler.get id = some q := hq
    rw [hq, hq']
    exact (pagesFor_of_request hconfig hreq).symm

/-- What a change does to the table of the sequence stored as `q'` after it : nothing, or it is
added without one, or a batch of it is executed. -/
theorem Change.table_cases (h : Change ex rt rt' e) (hrt : rt.Sound)
    (hcache : ex.supportsPrefixCache = false) (hq' : rt'.scheduler.get id = some q') :
    (∃ q, rt.scheduler.get id = some q ∧ q'.request = q.request ∧
        q'.blockTable = q.blockTable ∧ q'.numScheduledTokens = q.numScheduledTokens) ∨
      (q'.blockTable = [] ∧ q'.numScheduledTokens = 0) ∨
      ∃ sel batch r c, rt.scheduler.selectNextSequence = some sel ∧ sel.seqId = id ∧
        rt.scheduler.buildBatch none sel.scheduled = .ok batch ∧
        (rt.context sel.scheduled).executeBatch ex batch = (r, c) ∧ q' = c.sequence ∧
        rt' = rt.setContext c := by
  have hput : ∀ {s t : Sequence}, rt.scheduler.get s.seqId = some s → t.request = s.request →
      t.blockTable = s.blockTable → t.numScheduledTokens = s.numScheduledTokens →
      rt'.scheduler = rt.scheduler.put t →
      ∃ q, rt.scheduler.get id = some q ∧ q'.request = q.request ∧
        q'.blockTable = q.blockTable ∧ q'.numScheduledTokens = q.numScheduledTokens := by
    intro s t hs hreq htable hsched hput
    rw [hput] at hq'
    rcases get_put_cases hq' with ⟨hid, rfl⟩ | ⟨-, hq⟩
    · exact ⟨s, by rw [hid, Sequence.seqId_of_request hreq, hs], hreq, htable, hsched⟩
    · exact ⟨q', hq, rfl, rfl, rfl⟩
  cases h with
  | quiet h => exact .inl ⟨q', by rwa [h.scheduler] at hq', rfl, rfl, rfl⟩
  | added request seqId sessionId inputIds m hprompt hid hid' hm hs =>
    rw [hcache] at hm
    obtain rfl : m = { matchedTokens := 0, pages := [] } := congrArg Prod.fst hm
    rw [hs] at hq'
    rcases get_put_cases hq' with ⟨-, rfl⟩ | ⟨-, hq⟩
    · exact .inr (.inl ⟨rfl, rfl⟩)
    · exact .inl ⟨q', hq, rfl, rfl, rfl⟩
  | cancelled s b hget hlive h =>
    exact .inl (hput (t := withAppended s.markCancelled b) hget rfl rfl rfl h.scheduler)
  | finished s b hget hdone h =>
    exact .inl (hput (t := withAppended s b) hget rfl rfl rfl h.scheduler)
  | selected s hsel h =>
    exact .inl (hput (t := s.scheduled) (hrt.wellFormed.selectNextSequence hsel).1 rfl rfl rfl
      h.scheduler)
  | executed s batch r c hsel hb hx h =>
    subst h
    rcases get_put_cases hq' with ⟨hid, rfl⟩ | ⟨-, hq⟩
    · rw [(BatchContext.executed_of_eq hx).seqId] at hid
      exact .inr (.inr ⟨s, batch, r, c, hsel, hid.symm, hb, hx, rfl, rfl⟩)
    · exact .inl ⟨q', hq, rfl, rfl, rfl⟩
  | evicted n h =>
    subst h
    exact .inl ⟨q', hq', rfl, rfl, rfl⟩

end RuntimeCore

/-! ## Runs within the budget -/

namespace TransformersTextExecutor

variable {δ : Type} {ex : TransformersTextExecutor δ} {s : ServerState (TransformersState δ)}
  {e : Event}

/-- What holds in every state of a run within the budget. -/
structure Provided (s : ServerState (TransformersState δ)) : Prop where
  sound : s.Sound
  owned : s.runtime.PagesOwned
  inStep : InStep TransformersState.states s.runtime
  counts : CountsInStep TransformersState.states s.runtime
  room : s.runtime.HasRoom
  within : s.runtime.TablesWithin
  calm : ∀ id, (s.streams id).phase.isRaised = false

/-- The batch that is executed does not raise. -/
theorem Provided.executed (h : Provided s) (ha : s.runtime.Affordable) {sel : Sequence}
    {batch : Batch} {r : Except PyError (List Text)} {c : BatchContext (TransformersState δ)}
    (hsel : s.runtime.scheduler.selectNextSequence = some sel)
    (hb : s.runtime.scheduler.buildBatch none sel.scheduled = .ok batch)
    (hx : (s.runtime.context sel.scheduled).executeBatch ex.modelExecutor batch = (r, c)) :
    (∃ texts, r = .ok texts) ∧
      c.kvCache.Roomy c.sequence.blockTable (sel.inputIds.length + sel.maxNewTokens) := by
  obtain ⟨hget, hlive⟩ := h.sound.runtime.wellFormed.selectNextSequence hsel
  have hroomy := h.owned.roomy h.sound.runtime.wellFormed h.within ha hget
  have hprompt := h.inStep.prompt _ sel hget
  have hroom : sel.outputIds.length < sel.maxNewTokens := h.room _ sel hget hlive
  have hfollows : Follows s.runtime.executor.states sel.scheduled :=
    (h.inStep.live _ sel hget hlive).congr rfl rfl rfl
  have hcounts : Counts s.runtime.executor.states sel.scheduled :=
    (h.counts.live _ sel hget hlive).congr rfl rfl rfl
  have hafter : (s.runtime.context sel.scheduled).tokensAfter batch ≤
      sel.inputIds.length + sel.maxNewTokens := by
    cases hphase : batch.phase with
    | prefill =>
      have hfits := buildBatch_fits hb hphase hprompt (h.counts.uncached _ sel hget)
        (h.counts.progress _ sel hget)
      have huncached := h.counts.uncached _ sel hget
      rw [BatchContext.tokensAfter_prefill hphase]
      change sel.numScheduledTokens + _ ≤ sel.numPromptTokens at hfits
      change sel.numCachedTokens + sel.numScheduledTokens + _ ≤ _
      omega
    | decode =>
      rw [BatchContext.tokensAfter_decode hphase]
      change sel.numPromptTokens + sel.outputIds.length + 1 ≤ _
      omega
  obtain ⟨texts, c', hok, hroomy'⟩ := BatchContext.executeBatch_roomy ex
    (c := s.runtime.context sel.scheduled) hroomy hb hafter
    (by
      refine le_of_eq ?_
      rw [← hprompt]
      exact congrArg (· + sel.maxNewTokens) hcounts.prompt)
    (by
      refine lt_of_eq_of_lt ?_ hroom
      exact congrArg List.length hfollows.generated)
  obtain ⟨rfl, rfl⟩ := Prod.mk.inj (hok.symm.trans hx)
  exact ⟨⟨texts, rfl⟩, hroomy'⟩

theorem isRaised_emit {stream : StreamState} (texts : List Text) :
    (stream.emit texts).phase.isRaised = false := by
  cases texts <;> rfl

/-- No stream raises. -/
theorem Provided.calm_step (ex : TransformersTextExecutor δ) (h : Provided s)
    (ha : s.runtime.Affordable) (e : Event) (id : SeqId) :
    ((s.step ex.modelExecutor e).streams id).phase.isRaised = false := by
  have hset : ∀ {s' : ServerState (TransformersState δ)} {seqId : SeqId} {stream : StreamState},
      s'.streams = s.streams → stream.phase.isRaised = false →
      ((s'.setStream seqId stream).streams id).phase.isRaised = false := by
    intro s' seqId stream hstreams hstream
    unfold ServerState.setStream
    by_cases hid : id = seqId
    · subst hid
      simpa using hstream
    · simpa [hid, hstreams] using h.calm id
  cases e with
  | addRequest | cancelRequest | evict | tick => exact h.calm id
  | close seqId =>
    rcases s.close_cases seqId with hc | hc <;> simp only [ServerState.step, hc]
    · exact h.calm id
    · exact hset rfl rfl
  | resume seqId =>
    have hresumed := ServerState.resumed ex.modelExecutor s h.sound.runtime.wellFormed seqId
    simp only [ServerState.step]
    generalize s.resume ex.modelExecutor seqId = s' at hresumed
    cases hresumed with
    | idle => exact h.calm id
    | emitted => exact hset rfl (isRaised_emit _)
    | drained => exact hset rfl rfl
    | @buildFailed q sel err hq hlive hloop hsel hb =>
      obtain ⟨hget, -⟩ := h.sound.runtime.wellFormed.selectNextSequence hsel
      obtain ⟨batch, hok⟩ := Simulation.exists_buildBatch (q := sel.scheduled) s.runtime.scheduler
        (ha.prompts _ sel hget)
      rw [hok] at hb
      cases hb
    | @executed q sel batch r c hq hlive hloop hsel hb hx =>
      obtain ⟨⟨texts, rfl⟩, -⟩ := h.executed ha hsel hb hx
      refine hset rfl ?_
      unfold StreamState.afterBatch
      dsimp only
      split_ifs
      · exact isRaised_emit texts
      · exact h.calm seqId

theorem Provided.within_step (h : Provided s) (ha : s.runtime.Affordable) (e : Event) :
    (s.step ex.modelExecutor e).runtime.TablesWithin := by
  intro id q' hq'
  have hchange := ServerState.step_change ex.modelExecutor s h.sound.runtime.wellFormed e
  have hconfig := hchange.kvConfig h.owned
  rcases hchange.table_cases h.sound.runtime rfl hq' with
    ⟨q, hq, hreq, htable, -⟩ | ⟨htable, -⟩ | ⟨sel, batch, r, c, hsel, -, hb, hx, rfl, hrt⟩
  · rw [htable, RuntimeCore.pagesFor_of_request hconfig hreq]
    exact h.within id q hq
  · rw [htable]
    exact Nat.zero_le _
  · obtain ⟨-, hroomy⟩ := h.executed ha hsel hb hx
    have hreq := (BatchContext.executed_of_eq hx).request
    rw [hrt, RuntimeCore.pagesFor, Sequence.inputIds_of_request hreq,
      Sequence.maxNewTokens_of_request hreq]
    exact hroomy.within

theorem Provided.step (h : Provided s) (ha : s.runtime.Affordable)
    (he : ∀ request, e = .addRequest request → 1 ≤ request.maxNewTokens) :
    Provided (s.step ex.modelExecutor e) := by
  have hchange := ServerState.step_change ex.modelExecutor s h.sound.runtime.wellFormed e
  have hcalm := h.calm_step ex ha e
  have hraises : raises ex.modelExecutor s e = false := by
    cases e with
    | resume id => exact hcalm id
    | addRequest | cancelRequest | close | evict | tick => rfl
  exact ⟨h.sound.step e, (hchange.pages h.sound.runtime h.owned).1,
    h.inStep.step ex.keepsStates h.sound e,
    h.counts.step h.inStep ex.keepsStates h.sound hraises,
    h.room.change hchange h.sound.runtime rfl he, h.within_step ha e, hcalm⟩

theorem provided_run (ex : TransformersTextExecutor δ) (config : RuntimeConfig) (rng : ℕ)
    {es : List Event} (hone : ∀ request, .addRequest request ∈ es → 1 ≤ request.maxNewTokens)
    (ha : (Transition.run (ServerState.step ex.modelExecutor)
      (ServerState.init config { rng }) es).runtime.Affordable) :
    Provided (Transition.run (ServerState.step ex.modelExecutor)
      (ServerState.init config { rng }) es) := by
  induction es using List.reverseRecOn with
  | nil =>
    refine ⟨ServerState.sound_init config _, RuntimeCore.pagesOwned_create config _,
      inStep_init (fun _ => rfl) config, countsInStep_init _ _ config, ?_, ?_, fun _ => rfl⟩
    · intro id q hq
      cases hq
    · intro id q hq
      cases hq
  | append_singleton es e ih =>
    rw [Transition.run_concat] at ha ⊢
    have hsound := ServerState.sound_run ex.modelExecutor config { rng } es
    have howned := (Transition.run_invariant' (fun _ e h => (h.step ex.modelExecutor e).1) es
      (ServerState.owned_init config ({ rng } : TransformersState δ))).2
    have hbefore := ha.of_change
      (ServerState.step_change ex.modelExecutor _ hsound.runtime.wellFormed e) hsound.runtime howned
    exact (ih (fun request hmem => hone request (List.mem_append_left _ hmem)) hbefore).step hbefore
      fun request he => hone request (by simp [he])

/-- As long as the cache has pages for the prompts and the tokens asked for of all requests that
were added, no stream raises. -/
theorem not_raised_of_affordable (ex : TransformersTextExecutor δ) (config : RuntimeConfig)
    (rng : ℕ) (es : List Event)
    (hone : ∀ request, .addRequest request ∈ es → 1 ≤ request.maxNewTokens)
    (ha : (Transition.run (ServerState.step ex.modelExecutor)
      (ServerState.init config { rng }) es).runtime.Affordable) (id : SeqId) :
    ((Transition.run (ServerState.step ex.modelExecutor)
      (ServerState.init config { rng }) es).streams id).phase.isRaised = false :=
  (provided_run ex config rng hone ha).calm id

/-- A request for five tokens. -/
def fiveTokens (sessionId : SessionId) : Request :=
  { ServerState.shortRequest sessionId with
    temperature := 0, repetitionPenalty := some 1, maxNewTokens := 5 }

/-- Two requests, whose streams take turns. -/
def affordableRun : List Event :=
  .addRequest (fiveTokens "a") :: .addRequest (fiveTokens "b") ::
    (List.replicate 14 [.resume 0, .resume 1]).flatten

/-- Two pages of four tokens for each of the two requests. -/
def fourPagesConfig : RuntimeConfig :=
  { ServerState.smallConfig with
    kvCache := ⟨4, 4, Nat.succ_pos (nat_lit 3), Nat.succ_pos (nat_lit 3)⟩ }

/-- The streams are over with all pages in use. -/
theorem not_raised_of_affordable_twoRequests :
    let s := Transition.run (ServerState.step (speculativeExecutor sevenDraft).modelExecutor)
      (ServerState.init fourPagesConfig { rng := 0 }) affordableRun
    s.runtime.kvCache.allocator.freePages = [] ∧ ∀ id, (s.streams id).phase.isRaised = false := by
  refine ⟨by decide +kernel, not_raised_of_affordable (speculativeExecutor sevenDraft)
    fourPagesConfig 0 affordableRun (fun request hmem => ?_) ⟨fun id q hq => ?_, ?_⟩⟩
  · have hboth : request = fiveTokens "a" ∨ request = fiveTokens "b" := by
      simpa [affordableRun] using hmem
    rcases hboth with rfl | rfl <;> decide
  · have hsound := ServerState.sound_run (speculativeExecutor sevenDraft).modelExecutor
      fourPagesConfig { rng := 0 } affordableRun
    have hid := (hsound.runtime.wellFormed.mem_order id).2 (Option.isSome_iff_exists.2 ⟨q, hq⟩)
    have hprompts : ∀ id ∈ (Transition.run
        (ServerState.step (speculativeExecutor sevenDraft).modelExecutor)
        (ServerState.init fourPagesConfig { rng := 0 }) affordableRun).runtime.scheduler.order,
        ((Transition.run (ServerState.step (speculativeExecutor sevenDraft).modelExecutor)
          (ServerState.init fourPagesConfig { rng := 0 }) affordableRun).runtime.scheduler.get
            id).map Sequence.inputIds = some [104, 105] := by decide +kernel
    have hprompt := hprompts id hid
    rw [hq] at hprompt
    rw [Option.some.inj hprompt]
    decide
  · decide +kernel

end TransformersTextExecutor

/-! ## What the cache serves in all -/

namespace BatchContext

variable {σ : Type} {ex : ModelExecutor σ} {c c' : BatchContext σ} {batch batch' : Batch}
  {r : Except PyError (List Text)}

/-- Attached metadata has pages for all the tokens that it was asked for. -/
theorem attachKv_covers (hkv : ex.usesPagedKv = true) {n : ℕ} {c₁ : BatchContext σ}
    (h : c.attachKv ex batch n = (.ok batch', c₁)) :
    c.kvCache.pagesRequired n ≤ c₁.sequence.blockTable.length := by
  unfold attachKv at h
  rw [if_pos hkv] at h
  cases hens : c.kvCache.ensureCapacity c.sequence.blockTable n with
  | mk r p =>
    obtain ⟨kv, table⟩ := p
    rw [hens] at h
    obtain e | pages := r
    · cases h
    · have hlen := PagedKVCache.length_ensureCapacity hens
      dsimp only at h
      cases hm : kv.metadataFor table n batch.positions with
      | error e =>
        rw [hm] at h
        cases h
      | ok m =>
        rw [hm] at h
        cases h
        exact hlen ▸ le_max_right _ _

/-- The prompt tokens that a batch prefills have pages in the table. -/
theorem executeBatch_prefilled (hkv : ex.usesPagedKv = true)
    (hcache : ex.supportsPrefixCache = false) (hcons : c.kvCache.allocator.Consistent)
    (h : c.executeBatch ex batch = (r, c')) :
    c'.sequence.numScheduledTokens = c.sequence.numScheduledTokens ∨
      c.kvCache.pagesRequired c'.sequence.numScheduledTokens ≤ c'.sequence.blockTable.length := by
  have hx := executed_of_eq h
  cases hphase : batch.phase with
  | decode =>
    left
    cases hx with
    | skipped | attachFailed | prefillFailed | decodeFailed => rfl
    | prefilled _ hb =>
      rw [hphase] at hb
      cases hb
    | @decoded _ _ env' _ samples =>
      obtain ⟨xs, hxs | hxs⟩ :=
        consumeSamples_sequence samples (c.setEnv env').sequence c.metrics <;>
      · dsimp only
        rw [hxs]
        rfl
  | prefill =>
    unfold executeBatch at h
    split_ifs at h with hs
    · cases h
      exact .inl rfl
    · rw [hphase] at h
      dsimp only [executePrefill] at h
      rcases attachKv_cases ex c batch
        (c.sequence.numCachedTokens + c.sequence.numScheduledTokens + batch.inputIds.length) with
        ⟨e, env, -, -, -, hattach⟩ | ⟨batch', env, ha, hattach⟩ <;> rw [hattach] at h
      · cases h
        exact .inl rfl
      · have hcover := attachKv_covers hkv hattach
        obtain ⟨pages, hgrow⟩ := ha.kv.grows hcons
        dsimp only [env_setEnv] at h
        cases hforward : ex.forwardPrefill (c.setEnv env).sequence batch' env with
        | mk o env' =>
          obtain ⟨pages', hgrow'⟩ := (forwardPrefill_pages hforward).grows hgrow.consistent
          rw [hforward] at h
          obtain e | u := o
          · cases h
            exact .inl rfl
          · dsimp only at h
            rw [Sequence.postprocessBatch_prefill (s := ((c.setEnv env).setEnv env').sequence) hs
              (ha.phase.trans hphase), cachePrefix, hcache, if_neg (by simp), ha.inputIds] at h
            cases h
            right
            refine (c.kvCache.pagesRequired_mono ?_).trans (hcover.trans ?_)
            · change c.sequence.numScheduledTokens + batch.inputIds.length ≤ _
              omega
            · change env.blockTable.length ≤ env'.blockTable.length
              rw [show env'.blockTable = env.blockTable ++ pages' from hgrow'.table_eq,
                List.length_append]
              omega

end BatchContext

namespace RuntimeCore

variable {σ : Type} {ex : ModelExecutor σ} {rt rt' : RuntimeCore σ} {e : Event}

/-- The tables have pages for the prompt tokens that were prefilled. -/
def PrefilledHeld (rt : RuntimeCore σ) : Prop :=
  ∀ id q, rt.scheduler.get id = some q →
    rt.kvCache.pagesRequired q.numScheduledTokens ≤ q.blockTable.length

theorem PrefilledHeld.change (hheld : rt.PrefilledHeld) (h : Change ex rt rt' e)
    (hkv : ex.usesPagedKv = true) (hcache : ex.supportsPrefixCache = false) (hrt : rt.Sound)
    (hp : rt.PagesOwned) : rt'.PrefilledHeld := by
  intro id q' hq'
  rw [PagedKVCache.pagesRequired, h.kvConfig hp]
  rcases h.table_cases hrt hcache hq' with
    ⟨q, hq, -, htable, hsched⟩ | ⟨-, hsched⟩ | ⟨sel, batch, r, c, hsel, -, -, hx, rfl, -⟩
  · rw [htable, hsched]
    exact hheld id q hq
  · rw [hsched]
    exact Nat.zero_le _
  · have hget := (hrt.wellFormed.selectNextSequence hsel).1
    rcases BatchContext.executeBatch_prefilled hkv hcache hp.consistent hx with hsame | hcover
    · obtain ⟨pages, hgrow⟩ := (BatchContext.executed_of_eq hx).kvSteps.grows hp.consistent
      rw [hsame, show c.sequence.blockTable = sel.blockTable ++ pages from hgrow.table_eq,
        List.length_append]
      exact (hheld _ sel hget).trans (Nat.le_add_right _ _)
    · exact hcover

/-- Tables that have no page in common have at most the pages in use. -/
theorem TablesExclusive.sum_length_le (ht : rt.TablesExclusive) (hp : rt.PagesOwned)
    (hord : rt.Ordered) : (rt.scheduler.order.map fun id =>
      (rt.scheduler.get id).elim 0 fun q => q.blockTable.length).sum ≤
        rt.kvCache.allocator.usedPages.card := by
  have hnodup : (rt.scheduler.order.flatMap fun id =>
      (rt.scheduler.get id).elim [] Sequence.blockTable).Nodup := by
    refine List.nodup_flatMap.2 ⟨fun id _ => ?_, hord.imp fun {id id'} hlt => ?_⟩
    · cases hq : rt.scheduler.get id with
      | none => exact List.nodup_nil
      | some q => exact ht.nodup id q hq
    · change List.Disjoint ((rt.scheduler.get id).elim [] Sequence.blockTable)
        ((rt.scheduler.get id').elim [] Sequence.blockTable)
      cases hq : rt.scheduler.get id with
      | none => exact List.disjoint_nil_left _
      | some q =>
        cases hq' : rt.scheduler.get id' with
        | none => exact List.disjoint_nil_right _
        | some q' => exact ht.disjoint id id' q q' hlt.ne hq hq'
  have hsub : (rt.scheduler.order.flatMap fun id =>
      (rt.scheduler.get id).elim [] Sequence.blockTable).toFinset ⊆
        rt.kvCache.allocator.usedPages := by
    intro p hp'
    obtain ⟨id, -, hmem⟩ := List.mem_flatMap.1 (List.mem_toFinset.1 hp')
    cases hq : rt.scheduler.get id with
    | none =>
      rw [hq] at hmem
      cases hmem
    | some q =>
      rw [hq] at hmem
      exact (hp.tables p).2 ⟨id, q, hq, hmem⟩
  refine le_trans (le_of_eq ?_) (Finset.card_le_card hsub)
  rw [List.toFinset_card_of_nodup hnodup, List.length_flatMap]
  congr 1
  refine List.map_congr_left fun id _ => ?_
  cases rt.scheduler.get id <;> rfl

theorem PrefilledHeld.sum_le (hheld : rt.PrefilledHeld) (ht : rt.TablesExclusive)
    (hp : rt.PagesOwned) (hord : rt.Ordered) : (rt.scheduler.order.map fun id =>
      (rt.scheduler.get id).elim 0 fun q => rt.kvCache.pagesRequired q.numScheduledTokens).sum ≤
        rt.kvCache.config.numPages := by
  have hsum := List.sum_le_sum (l := rt.scheduler.order) (f := fun id =>
      (rt.scheduler.get id).elim 0 fun q => rt.kvCache.pagesRequired q.numScheduledTokens)
    (g := fun id => (rt.scheduler.get id).elim 0 fun q => q.blockTable.length) fun id _ => by
      cases hq : rt.scheduler.get id with
      | none => exact le_rfl
      | some q => exact hheld id q hq
  have hused := ht.sum_length_le hp hord
  have hcard := hp.consistent.card
  rw [hp.numPages] at hcard
  omega

end RuntimeCore

namespace ServerState

variable {σ : Type}

/-- The pages for the prompt tokens that were ever prefilled, those of the requests that are over
included, are no more than the cache has. -/
theorem prefilled_le_numPages {ex : ModelExecutor σ} (hkv : ex.usesPagedKv = true)
    (hcache : ex.supportsPrefixCache = false) (config : RuntimeConfig) (executor : σ)
    (es : List Event) :
    let rt := (Transition.run (step ex) (init config executor) es).runtime
    (rt.scheduler.order.map fun id => (rt.scheduler.get id).elim 0 fun q =>
      rt.kvCache.pagesRequired q.numScheduledTokens).sum ≤ config.kvCache.numPages := by
  have hinv := @Transition.run_invariant' _ _ (step ex) (fun s =>
      s.Owned ∧ s.runtime.TablesExclusive ∧ s.runtime.Ordered ∧ s.runtime.PrefilledHeld ∧
        s.runtime.kvCache.config = config.kvCache)
    (fun s e ⟨howned, ht, hord, hheld, hconfig⟩ => ?_) (init config executor) es
    ⟨owned_init config executor, ⟨by simp, by simp⟩, List.Pairwise.nil,
      fun id q hq => absurd hq (by simp), rfl⟩
  · obtain ⟨howned, ht, hord, hheld, hconfig⟩ := hinv
    rw [← hconfig]
    exact hheld.sum_le ht howned.2 hord
  · have hchange := step_change ex s howned.1.runtime.wellFormed e
    exact ⟨(howned.step ex e).1, hchange.tablesExclusive hcache howned.1.runtime howned.2 ht,
      hord.change hchange howned.1.runtime,
      hheld.change hchange hkv hcache howned.1.runtime howned.2,
      (hchange.kvConfig howned.2).trans hconfig⟩

open TransformersTextExecutor in
/-- Each of the two requests has its prompt on one page. -/
theorem prefilled_le_numPages_twoRequests :
    let rt := (Transition.run (step (speculativeExecutor sevenDraft).modelExecutor)
      (init fourPagesConfig { rng := 0 }) affordableRun).runtime
    let pages := (rt.scheduler.order.map fun id => (rt.scheduler.get id).elim 0 fun q =>
      rt.kvCache.pagesRequired q.numScheduledTokens).sum
    pages = 2 ∧ pages ≤ fourPagesConfig.kvCache.numPages :=
  ⟨by decide +kernel, @prefilled_le_numPages _ (speculativeExecutor sevenDraft).modelExecutor
    rfl rfl fourPagesConfig { rng := 0 } affordableRun⟩

end ServerState

end SoloRT
