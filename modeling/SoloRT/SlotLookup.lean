import SoloRT.BatchCoherence
import SoloRT.Speculative

/-!
# The slot lookups of a run

`slot_mapping` is called in two places. The runtime maps the positions of a batch
(`_attach_kv_metadata`), and the executor those of a write plan (`_kv_write_plan`) : of the token
of a plain decode, of the tokens that a validation feeds, and of the accepted ones that are fed
again after the rollback. `slotCalls` lists the calls that one event makes, each with the cache
and the page table that it is made on.

Pages are reserved for all positions of a call, on its table, right before it. From the start of
the event to the call the table changes through the interface of the cache only, so it has the
pages of the sequence and some that were free (`SlotCall.Reserved`). And no two sequences have a
page in common in any reachable state (`tablesExclusive_of_reachable`). So no call runs off its
table, and the pages it maps to are those of its sequence (`slotCalls_safe`). The batch gets the
answer of its call as `slot_mapping` (`attachKv_answer`), and the write plan that of its own
(`kvWritePlan_answer`).

What a batch raises comes from the allocator, when the pages run out
(`outOfPages_of_reachable`). Sampling raises nothing, under the conditions that `Sampling` names.
-/

namespace SoloRT

/-! ## Calls -/

/-- The call `slot_mapping(block_table, positions)` for a sequence. The positions are integers,
as in Python. -/
structure SlotCall where
  seqId : SeqId
  kvCache : PagedKVCache
  blockTable : List PageId
  positions : List ℤ

namespace SlotCall

/-- What the call returns, if no position is negative. -/
def answer (call : SlotCall) : Except PyError (List ℕ) :=
  call.kvCache.slotMapping call.blockTable (call.positions.map Int.toNat)

/-- The positions are not negative, and their logical pages are inside the table. -/
structure Covered (call : SlotCall) : Prop where
  nonneg : ∀ p ∈ call.positions, 0 ≤ p
  inside : ∀ p ∈ call.positions, p / (call.kvCache.config.pageSize : ℤ) < call.blockTable.length

variable {call : SlotCall}

/-- Pages were reserved for all tokens up to the positions. -/
theorem covered_of_pagesRequired {n : ℕ}
    (hn : call.kvCache.pagesRequired n ≤ call.blockTable.length)
    (h : ∀ p ∈ call.positions, 0 ≤ p ∧ p < n) : call.Covered := by
  refine ⟨fun p hp => (h p hp).1, fun p hp => ?_⟩
  obtain ⟨hnonneg, hlt⟩ := h p hp
  obtain ⟨position, rfl⟩ := Int.eq_ofNat_of_zero_le hnonneg
  have hpage := call.kvCache.div_pageSize_lt hn (Int.ofNat_lt.1 hlt)
  exact_mod_cast hpage

/-- Then the call returns a slot for each position, in a page of the table. -/
theorem Covered.exists_answer (h : call.Covered) : ∃ slots, call.answer = .ok slots ∧
    ∀ slot ∈ slots, slot / call.kvCache.config.pageSize ∈ call.blockTable := by
  have hinside : ∀ position ∈ call.positions.map Int.toNat,
      position / call.kvCache.config.pageSize < call.blockTable.length := by
    intro position hposition
    obtain ⟨p, hp, rfl⟩ := List.mem_map.1 hposition
    have hpage := h.inside p hp
    rw [← Int.toNat_of_nonneg (h.nonneg p hp)] at hpage
    exact_mod_cast hpage
  obtain ⟨slots, hslots⟩ := call.kvCache.exists_slotMapping_of_inside hinside
  refine ⟨slots, hslots, fun slot hslot => ?_⟩
  obtain ⟨p, -, hp⟩ := PagedKVCache.mem_slotMapping hslots hslot
  exact List.mem_of_getElem? (PagedKVCache.slotOf_page hp).1

/-- The call is covered, and its table comes from `pages` by calls of the interface. -/
structure Reserved (call : SlotCall) (seqId : SeqId) (pages : PagedKVCache × List PageId) :
    Prop where
  seqId_eq : call.seqId = seqId
  covered : call.Covered
  steps : PagedKVCache.KVSteps pages (call.kvCache, call.blockTable)

theorem Reserved.of_steps {seqId : SeqId} {pages pages' : PagedKVCache × List PageId}
    (h : call.Reserved seqId pages') (hsteps : PagedKVCache.KVSteps pages pages') :
    call.Reserved seqId pages :=
  ⟨h.seqId_eq, h.covered, hsteps.trans h.steps⟩

/-- The call answers, and the pages of its table are in use and in no other table. -/
structure Safe {σ : Type} (call : SlotCall) (rt : RuntimeCore σ) : Prop where
  covered : call.Covered
  answered : ∃ slots, call.answer = .ok slots ∧
    ∀ slot ∈ slots, slot / call.kvCache.config.pageSize ∈ call.blockTable
  used : ∀ page ∈ call.blockTable, page ∈ call.kvCache.allocator.usedPages
  exclusive : ∀ page ∈ call.blockTable, ∀ id q, id ≠ call.seqId →
    rt.scheduler.get id = some q → page ∉ q.blockTable

theorem Reserved.safe {σ : Type} {rt : RuntimeCore σ} {sel : Sequence}
    (h : call.Reserved sel.seqId (rt.kvCache, sel.blockTable)) (hp : rt.PagesOwned)
    (ht : rt.TablesExclusive) (hget : rt.scheduler.get sel.seqId = some sel) : call.Safe rt := by
  obtain ⟨pages, hgrow⟩ := h.steps.grows hp.consistent
  have hmem : ∀ page ∈ call.blockTable, page ∈ sel.blockTable ∨ page ∈ pages := by
    intro page hpage
    have htable : call.blockTable = sel.blockTable ++ pages := hgrow.table_eq
    rwa [htable, List.mem_append] at hpage
  refine ⟨h.covered, h.covered.exists_answer, fun page hpage => ?_,
    fun page hpage id q hid hq hother => ?_⟩
  · rw [hgrow.used, Finset.mem_union, List.mem_toFinset]
    exact (hmem page hpage).imp_left fun hold => (hp.tables page).2 ⟨_, sel, hget, hold⟩
  · rcases hmem page hpage with hold | hnew
    · exact ht.disjoint id sel.seqId q sel (h.seqId_eq ▸ hid) hq hget hother hold
    · exact hgrow.fresh page hnew ((hp.tables page).2 ⟨id, q, hq, hother⟩)

end SlotCall

/-! ## The calls of the executor -/

namespace TransformersTextExecutor

variable {δ : Type}

/-- The call in `_kv_write_plan`, if the pages can be reserved. -/
def kvWritePlanCalls (seqId : SeqId) (env : Env δ) (startPosition : ℤ)
    (tokenCount currentTokenCount provisionalAppendTokens : ℕ) : List SlotCall :=
  if tokenCount = 0 then []
  else
    match reservePages env startPosition.toNat tokenCount currentTokenCount
        provisionalAppendTokens with
    | (.error _, _) => []
    | (.ok _, env) =>
      [⟨seqId, env.kvCache, env.blockTable,
        (List.range tokenCount).map fun (i : ℕ) => startPosition + i⟩]

/-- The call in `_decode_next`. -/
def decodeNextCalls (sequence : Sequence) (state : ServingState δ) (env : Env δ) :
    List SlotCall :=
  if state.generatedTokenIds = [] then []
  else
    let startPosition : ℤ := state.promptTokenCount + state.generatedTokenIds.length - 1
    kvWritePlanCalls sequence.seqId env startPosition 1 0 0

/-- The call in `_target_forward_from_state`. -/
def targetForwardFromStateCalls (sequence : Sequence) (state : ServingState δ) (env : Env δ)
    (tokenIds : List TokenId) (provisional : Bool) : List SlotCall :=
  let currentTokenCount := state.promptTokenCount + state.generatedTokenIds.length
  kvWritePlanCalls sequence.seqId env ((currentTokenCount : ℤ) - 1) tokenIds.length
    currentTokenCount (if provisional then tokenIds.length - 1 else 0)

variable (ex : TransformersTextExecutor δ)

/-- The calls in `_speculative_decode` : of the plain decode if there are no proposals, else of
the validation, and of the replay if some proposal is rejected. -/
def speculativeDecodeCalls (sequence : Sequence) (state : ServingState δ) (env : Env δ) :
    List SlotCall :=
  let remaining : ℤ := sequence.maxNewTokens - state.generatedTokenIds.length
  let (draftTokens, state) :=
    ex.draftTokens sequence state (min ex.config.speculativeTokens remaining)
  if draftTokens = [] then decodeNextCalls sequence state env
  else
    let last := state.generatedTokenIds.getLastD 0
    targetForwardFromStateCalls sequence state env (last :: draftTokens) true ++
      match ex.targetForwardFromState state env (last :: draftTokens) true with
      | (.error _, _) => []
      | (.ok (logits, _, transaction), env) =>
        let targetTokens := (logits.take draftTokens.length).map greedyToken
        let accepted := Generation.agree draftTokens targetTokens
        if accepted = draftTokens.length then []
        else
          match rollback env transaction with
          | (.error _, _) => []
          | (.ok (), env) =>
            targetForwardFromStateCalls sequence state env (last :: draftTokens.take accepted)
              false

/-- The calls in `forward_decode`. There are none in `forward_prefill`. -/
def forwardDecodeCalls (sequence : Sequence) (env : Env δ) : List SlotCall :=
  let state := env.state.states.ensure sequence
  if state.finished then []
  else
    match state.pendingTokenId with
    | some _ => []
    | none =>
      if ex.speculativeEnabled sequence state then ex.speculativeDecodeCalls sequence state env
      else decodeNextCalls sequence state env

/-- Pages are reserved up to the end of the positions. -/
theorem reservePages_covers {env env' : Env δ} {start count current append : ℕ}
    {transaction : Option KVCacheTransaction}
    (h : reservePages env start count current append = (.ok transaction, env'))
    (hend : 0 < append →
      start + count ≤ (if current = 0 then start + 1 else current) + append) :
    env'.kvCache.pagesRequired (start + count) ≤ env'.blockTable.length := by
  unfold reservePages at h
  by_cases happend : 0 < append
  · rw [if_pos happend] at h
    cases hbegin : env.kvCache.beginAppendTransaction env.blockTable
      (if current = 0 then start + 1 else current) append with
    | mk r p =>
      rw [hbegin] at h
      obtain e | t := r <;> cases h
      exact (PagedKVCache.pagesRequired_mono _ (hend happend)).trans
        (PagedKVCache.beginAppendTransaction_covers hbegin)
  · rw [if_neg happend] at h
    cases hens : env.kvCache.ensureCapacity env.blockTable (start + count) with
    | mk r p =>
      rw [hens] at h
      obtain e | pages := r <;> cases h
      exact PagedKVCache.ensureCapacity_covers hens

/-- The positions of a write plan, as the allocator gets them. -/
theorem toNat_positions (start count : ℕ) :
    ((List.range count).map fun (i : ℕ) => (start : ℤ) + i).map Int.toNat =
      List.range' start count := by
  rw [List.map_map, List.range'_eq_map_range]
  exact List.map_congr_left fun i _ => Int.toNat_natCast (start + i)

theorem kvWritePlanCalls_reserved {seqId : SeqId} {env : Env δ} {start : ℤ}
    {count current append : ℕ} (hstart : 0 ≤ start)
    (hend : 0 < append → start.toNat + count ≤
      (if current = 0 then start.toNat + 1 else current) + append) {call : SlotCall}
    (hcall : call ∈ kvWritePlanCalls seqId env start count current append) :
    call.Reserved seqId env.pages := by
  have hworks := reservePages_works env none start.toNat count current append
  unfold kvWritePlanCalls at hcall
  split_ifs at hcall
  · cases hcall
  · cases hreserve : reservePages env start.toNat count current append with
    | mk r env' =>
      rw [hreserve] at hcall hworks
      obtain e | transaction := r
      · cases hcall
      · rw [List.mem_singleton.1 hcall]
        refine ⟨rfl, SlotCall.covered_of_pagesRequired (reservePages_covers hreserve hend) ?_,
          hworks.pages⟩
        intro p hp
        obtain ⟨i, hi, rfl⟩ := List.mem_map.1 hp
        have hlt := List.mem_range.1 hi
        omega

/-- A write plan that reserved its pages returns, or raises, as its call does. -/
theorem kvWritePlan_answer {seqId : SeqId} {env : Env δ} {start count current append : ℕ}
    {call : SlotCall} (hcall : call ∈ kvWritePlanCalls seqId env start count current append) :
    (kvWritePlan env start count current append).1.map (fun _ => ()) =
      call.answer.map fun _ => () := by
  unfold kvWritePlanCalls at hcall
  unfold kvWritePlan
  split_ifs at hcall ⊢
  · cases hcall
  · rw [Int.toNat_natCast] at hcall
    generalize reservePages env start count current append = r at hcall ⊢
    obtain ⟨e | transaction, env'⟩ := r
    · cases hcall
    · rw [List.mem_singleton.1 hcall]
      simp only [SlotCall.answer, toNat_positions]
      cases env'.kvCache.slotMapping env'.blockTable (List.range' start count) <;> rfl

theorem decodeNextCalls_reserved {sequence : Sequence} {state : ServingState δ} {env : Env δ}
    {call : SlotCall} (hcall : call ∈ decodeNextCalls sequence state env) :
    call.Reserved sequence.seqId env.pages := by
  unfold decodeNextCalls at hcall
  split_ifs at hcall with hne
  · cases hcall
  · have hpos := List.length_pos_of_ne_nil hne
    exact kvWritePlanCalls_reserved (by omega) (fun h => absurd h (lt_irrefl 0)) hcall

/-- The validation reserves one page slot for each proposal, which is up to its last position. -/
theorem targetForwardFromStateCalls_reserved {sequence : Sequence} {state : ServingState δ}
    {env : Env δ} {tokenIds : List TokenId} {provisional : Bool}
    (hgenerated : state.generatedTokenIds ≠ []) (hne : tokenIds ≠ []) {call : SlotCall}
    (hcall : call ∈ targetForwardFromStateCalls sequence state env tokenIds provisional) :
    call.Reserved sequence.seqId env.pages := by
  have hpos := List.length_pos_of_ne_nil hgenerated
  have hlen := List.length_pos_of_ne_nil hne
  refine kvWritePlanCalls_reserved (by omega) (fun happend => ?_) hcall
  rw [if_neg (by omega)]
  split_ifs at happend ⊢
  · omega
  · omega

variable {ex}

theorem speculativeDecodeCalls_reserved {sequence : Sequence} {state : ServingState δ}
    {env : Env δ} (hgenerated : state.generatedTokenIds ≠ []) {call : SlotCall}
    (hcall : call ∈ ex.speculativeDecodeCalls sequence state env) :
    call.Reserved sequence.seqId env.pages := by
  have hsame := draftTokens_same ex sequence state
    (min ex.config.speculativeTokens ((sequence.maxNewTokens : ℤ) - state.generatedTokenIds.length))
  unfold speculativeDecodeCalls at hcall
  dsimp only at hcall
  generalize ex.draftTokens sequence state (min ex.config.speculativeTokens
    ((sequence.maxNewTokens : ℤ) - state.generatedTokenIds.length)) = r at hsame hcall
  obtain ⟨draftTokens, state'⟩ := r
  have hgenerated' : state'.generatedTokenIds ≠ [] := by
    rwa [show state' = _ from hsame]
  dsimp only at hcall
  split_ifs at hcall with hnil
  · exact decodeNextCalls_reserved hcall
  · rcases List.mem_append.1 hcall with hvalidate | hreplay
    · exact targetForwardFromStateCalls_reserved hgenerated' (List.cons_ne_nil _ _) hvalidate
    · cases hforward : ex.targetForwardFromState state' env
        (state'.generatedTokenIds.getLastD 0 :: draftTokens) true with
      | mk r env₁ =>
        rw [hforward] at hreplay
        obtain e | ⟨logits, pastKeyValues, transaction⟩ := r
        · cases hreplay
        · -- the rollback is a call of the interface too
          have hroll := (rollback_works hforward).pages
          dsimp only at hreplay
          split_ifs at hreplay
          · cases hreplay
          · generalize rollback env₁ transaction = r at hroll hreplay
            obtain ⟨e | u, env₂⟩ := r
            · cases hreplay
            · exact (targetForwardFromStateCalls_reserved hgenerated' (List.cons_ne_nil _ _)
                hreplay).of_steps hroll

theorem forwardDecodeCalls_reserved {sequence : Sequence} {env : Env δ} {call : SlotCall}
    (hcall : call ∈ ex.forwardDecodeCalls sequence env) :
    call.Reserved sequence.seqId env.pages := by
  unfold forwardDecodeCalls at hcall
  dsimp only at hcall
  by_cases hfinished : (env.state.states.ensure sequence).finished = true
  · rw [if_pos hfinished] at hcall
    cases hcall
  · rw [if_neg hfinished] at hcall
    cases hpending : (env.state.states.ensure sequence).pendingTokenId with
    | some tokenId =>
      rw [hpending] at hcall
      cases hcall
    | none =>
      rw [hpending] at hcall
      dsimp only at hcall
      by_cases henabled : ex.speculativeEnabled sequence (env.state.states.ensure sequence) = true
      · rw [if_pos henabled] at hcall
        exact speculativeDecodeCalls_reserved (generatedTokenIds_ne_nil henabled) hcall
      · rw [if_neg henabled] at hcall
        exact decodeNextCalls_reserved hcall

end TransformersTextExecutor

/-- The slots of the write context are the answer of the call. -/
theorem FlashInferTextExecutor.kvWritePlan_answer {ρ : Type} {seqId : SeqId}
    {env : FlashInferTextExecutor.Env ρ} {start count : ℕ} {call : SlotCall}
    (hcall : call ∈ TransformersTextExecutor.kvWritePlanCalls seqId (erase env) start count 0 0) :
    (kvWritePlan env start count).1 = call.answer := by
  unfold TransformersTextExecutor.kvWritePlanCalls at hcall
  unfold kvWritePlan
  split_ifs at hcall ⊢
  · cases hcall
  · rw [Int.toNat_natCast, TransformersTextExecutor.reservePages, if_neg (lt_irrefl 0)] at hcall
    dsimp only [erase] at hcall
    generalize env.kvCache.ensureCapacity env.blockTable (start + count) = r at hcall ⊢
    obtain ⟨e | pages, kvCache, blockTable⟩ := r
    · cases hcall
    · rw [List.mem_singleton.1 hcall]
      simp only [SlotCall.answer, TransformersTextExecutor.toNat_positions]

/-! ## The calls of an event -/

namespace BatchContext

variable {σ : Type} (ex : ModelExecutor σ)
  (decodeCalls : Sequence → ExecutorEnv σ → List SlotCall) (c : BatchContext σ)

/-- The call in `_attach_kv_metadata`, if the pages can be reserved. -/
def attachKvCalls (batch : Batch) (tokenCount : ℕ) : List SlotCall :=
  if ex.usesPagedKv then
    match c.kvCache.ensureCapacity c.sequence.blockTable tokenCount with
    | (.error _, _, _) => []
    | (.ok _, kvCache, blockTable) =>
      [⟨c.sequence.seqId, kvCache, blockTable, batch.positions.map Int.ofNat⟩]
  else []

/-- The calls in `_execute_batch`, given those of `forward_decode`. -/
def slotCalls (batch : Batch) : List SlotCall :=
  if c.sequence.status = .cancelled then []
  else
    c.attachKvCalls ex batch (c.tokensAfter batch) ++
      match batch.phase with
      | .prefill => []
      | .decode =>
        match c.attachKv ex batch (c.tokensAfter batch) with
        | (.error _, _) => []
        | (.ok _, c) => decodeCalls c.sequence c.env

variable {ex decodeCalls c}

/-- The positions of a batch are those of the tokens that pages are reserved for. -/
theorem lt_tokensAfter {sch : InteractiveScheduler} {budget : Option ℕ} {batch : Batch}
    (hb : sch.buildBatch budget c.sequence = .ok batch) :
    ∀ p ∈ batch.positions, p < c.tokensAfter batch := by
  intro p hp
  unfold InteractiveScheduler.buildBatch at hb
  by_cases hc : c.sequence.isPrefillComplete = true
  · rw [if_pos hc] at hb
    obtain ⟨hphase, -, hpos⟩ := BatchBuilder.buildDecode_ok hb
    rw [hpos, List.mem_singleton] at hp
    rw [tokensAfter_decode hphase, hp]
    exact Nat.lt_succ_self _
  · rw [if_neg hc] at hb
    cases hb
    rw [tokensAfter_prefill rfl]
    exact (List.mem_range'_1.1 hp).2

theorem attachKvCalls_reserved {batch : Batch} {n : ℕ} (hn : ∀ p ∈ batch.positions, p < n)
    {call : SlotCall} (hcall : call ∈ c.attachKvCalls ex batch n) :
    call.Reserved c.sequence.seqId c.env.pages := by
  have hstep := PagedKVCache.KVStep.ensureCapacity c.kvCache c.sequence.blockTable n
  unfold attachKvCalls at hcall
  split_ifs at hcall
  · cases hens : c.kvCache.ensureCapacity c.sequence.blockTable n with
    | mk r p =>
      rw [hens] at hcall hstep
      obtain e | pages := r
      · cases hcall
      · rw [List.mem_singleton.1 hcall]
        refine ⟨rfl, SlotCall.covered_of_pagesRequired (PagedKVCache.ensureCapacity_covers hens) ?_,
          .single hstep⟩
        intro p hp
        obtain ⟨position, hposition, rfl⟩ := List.mem_map.1 hp
        exact ⟨Int.natCast_nonneg position, Int.ofNat_lt.2 (hn position hposition)⟩
  · cases hcall

/-- A batch whose pages were reserved gets the answer of its call, or the error. -/
theorem attachKv_answer {batch : Batch} {n : ℕ} {call : SlotCall}
    (hcall : call ∈ c.attachKvCalls ex batch n) :
    (c.attachKv ex batch n).1.map Batch.slotMapping = call.answer.map some := by
  unfold attachKvCalls at hcall
  unfold attachKv
  split_ifs at hcall ⊢
  · generalize c.kvCache.ensureCapacity c.sequence.blockTable n = r at hcall ⊢
    obtain ⟨e | pages, kvCache, blockTable⟩ := r
    · cases hcall
    · rw [List.mem_singleton.1 hcall]
      have hpositions : (batch.positions.map Int.ofNat).map Int.toNat = batch.positions := by
        simp [Function.comp_def]
      simp only [SlotCall.answer, hpositions, PagedKVCache.metadataFor]
      cases kvCache.slotMapping blockTable batch.positions <;> rfl
  · cases hcall

theorem slotCalls_reserved
    (hdecode : ∀ q env, ∀ call ∈ decodeCalls q env, call.Reserved q.seqId env.pages)
    {sch : InteractiveScheduler} {budget : Option ℕ} {batch : Batch}
    (hb : sch.buildBatch budget c.sequence = .ok batch) {call : SlotCall}
    (hcall : call ∈ c.slotCalls ex decodeCalls batch) :
    call.Reserved c.sequence.seqId c.env.pages := by
  unfold slotCalls at hcall
  split_ifs at hcall
  · cases hcall
  · rcases List.mem_append.1 hcall with hattach | hcall
    · exact attachKvCalls_reserved (lt_tokensAfter hb) hattach
    · cases hphase : batch.phase with
      | prefill =>
        rw [hphase] at hcall
        cases hcall
      | decode =>
        rw [hphase] at hcall
        dsimp only at hcall
        rcases attachKv_cases ex c batch (c.tokensAfter batch) with
          ⟨e, env, -, -, -, h⟩ | ⟨batch', env, ha, h⟩ <;> rw [h] at hcall
        · cases hcall
        · exact (hdecode _ _ call hcall).of_steps ha.kv

end BatchContext

namespace RuntimeCore

variable {σ : Type} {ex : ModelExecutor σ} {rt rt' : RuntimeCore σ}

/-- The calls in `_execute_batch`. -/
def slotCalls (ex : ModelExecutor σ) (decodeCalls : Sequence → ExecutorEnv σ → List SlotCall)
    (rt : RuntimeCore σ) (batch : Batch) : List SlotCall :=
  match rt.scheduler.get batch.seqId with
  | none => []
  | some sequence => (rt.context sequence).slotCalls ex decodeCalls batch

/-- Without prefix hits every change keeps the tables apart. -/
theorem Change.tablesExclusive {e : Event} (h : Change ex rt rt' e)
    (hcache : ex.supportsPrefixCache = false) (hrt : rt.Sound) (hp : rt.PagesOwned)
    (ht : rt.TablesExclusive) : rt'.TablesExclusive := by
  -- a sequence that is written back with its old table
  have hput : ∀ {s t : Sequence}, rt.scheduler.get s.seqId = some s → t.seqId = s.seqId →
      t.blockTable = s.blockTable → rt'.scheduler = rt.scheduler.put t →
      rt'.kvCache = rt.kvCache → rt'.TablesExclusive := by
    intro s t hget hid htable hsched hkv
    have hgrow : PagedKVCache.Grows rt.kvCache s.blockTable rt'.kvCache t.blockTable [] := by
      rw [hkv, htable]
      exact .refl hp.consistent s.blockTable
    exact ht.grow hp hget hid hsched hgrow
  cases h with
  | quiet h => exact ht.quiet fun id q' hq' => .inl ⟨q', h.scheduler ▸ hq', .refl q'⟩
  | added request seqId sessionId inputIds m hprompt hid hid' hm hs =>
    rw [hcache, if_neg Bool.false_ne_true] at hm
    have hnone := hrt.get_eq_none hid
    refine ht.quiet fun id q' hq' => ?_
    rw [hs] at hq'
    rcases get_put_cases hq' with ⟨rfl, rfl⟩ | ⟨-, hq⟩
    · refine .inr ⟨hnone, rfl, rfl, ?_⟩
      rw [(Prod.mk.inj hm).1]
      rfl
    · exact .inl ⟨q', hq, .refl q'⟩
  | cancelled s b hget hlive h =>
    exact hput (t := withAppended s.markCancelled b) hget rfl rfl h.scheduler h.kvCache
  | finished s b hget hdone h =>
    exact hput (t := withAppended s b) hget rfl rfl h.scheduler h.kvCache
  | selected s hsel h =>
    exact hput (t := s.scheduled) (hrt.wellFormed.selectNextSequence hsel).1 rfl rfl h.scheduler
      h.kvCache
  | executed s batch r c hsel hb hx h =>
    subst h
    have hx := BatchContext.executed_of_eq hx
    obtain ⟨pages, hgrow⟩ := hx.kvSteps.grows hp.consistent
    exact ht.grow hp (hrt.wellFormed.selectNextSequence hsel).1 hx.seqId rfl hgrow
  | evicted n h =>
    subst h
    exact ht.quiet fun id q' hq' => .inl ⟨q', hq', .refl q'⟩

end RuntimeCore

/-! ## What raises -/

namespace TransformersTextExecutor

variable {δ : Type}

theorem reservePages_outOfPages {env env' : Env δ} {start count current append : ℕ} {e : PyError}
    (h : reservePages env start count current append = (.error e, env')) :
    e.kind = .pageAllocationError := by
  unfold reservePages at h
  by_cases happend : 0 < append
  · rw [if_pos happend] at h
    cases hbegin : env.kvCache.beginAppendTransaction env.blockTable
      (if current = 0 then start + 1 else current) append with
    | mk r p =>
      rw [hbegin] at h
      obtain e | t := r <;> cases h
      exact PagedKVCache.beginAppendTransaction_error hbegin
  · rw [if_neg happend] at h
    cases hens : env.kvCache.ensureCapacity env.blockTable (start + count) with
    | mk r p =>
      rw [hens] at h
      obtain e | pages := r <;> cases h
      exact PagedKVCache.ensureCapacity_error hens

/-- A write plan that raises could not reserve its pages. -/
theorem kvWritePlan_outOfPages {env env' : Env δ} {start count current append : ℕ} {e : PyError}
    (hend : 0 < append →
      start + count ≤ (if current = 0 then start + 1 else current) + append)
    (h : kvWritePlan env start count current append = (.error e, env')) :
    e.kind = .pageAllocationError := by
  -- a call that is made answers
  have hnone : kvWritePlanCalls 0 env start count current append = [] := by
    refine List.eq_nil_iff_forall_not_mem.2 fun call hcall => ?_
    have hreserved := kvWritePlanCalls_reserved (Int.natCast_nonneg start) hend hcall
    obtain ⟨slots, hslots, -⟩ := hreserved.covered.exists_answer
    have hanswer := kvWritePlan_answer hcall
    rw [h, hslots] at hanswer
    cases hanswer
  unfold kvWritePlanCalls at hnone
  unfold kvWritePlan at h
  split_ifs at hnone h
  · cases h
  · rw [Int.toNat_natCast] at hnone
    cases hreserve : reservePages env start count current append with
    | mk r env₁ =>
      rw [hreserve] at hnone h
      obtain e | transaction := r
      · cases h
        exact reservePages_outOfPages hreserve
      · cases hnone

variable {ex : TransformersTextExecutor δ} {sequence : Sequence} {state state' : ServingState δ}
  {env env' : Env δ} {e : PyError}

theorem decodeNext_outOfPages (h : ex.decodeNext sequence state env = (.error e, state', env')) :
    e.kind = .pageAllocationError := by
  unfold decodeNext at h
  cases hlast : state.generatedTokenIds.getLast? with
  | none =>
    rw [hlast] at h
    cases h
  | some last =>
    rw [hlast] at h
    dsimp only at h
    cases hplan : kvWritePlan env
      (state.promptTokenCount + state.generatedTokenIds.length - 1) 1 0 0 with
    | mk r env₁ =>
      rw [hplan] at h
      obtain e | transaction := r <;> cases h
      exact kvWritePlan_outOfPages (fun h => absurd h (lt_irrefl 0)) hplan

theorem decodeOne_outOfPages (h : ex.decodeOne sequence state env = (.error e, state', env')) :
    e.kind = .pageAllocationError := by
  unfold decodeOne at h
  cases hnext : ex.decodeNext sequence state env with
  | mk r p =>
    rw [hnext] at h
    obtain e | u := r <;> cases h
    exact decodeNext_outOfPages hnext

theorem targetForwardFromState_outOfPages {tokenIds : List TokenId} {provisional : Bool}
    (hgenerated : state.generatedTokenIds ≠ []) (hne : tokenIds ≠ [])
    (h : ex.targetForwardFromState state env tokenIds provisional = (.error e, env')) :
    e.kind = .pageAllocationError := by
  have hpos := List.length_pos_of_ne_nil hgenerated
  have hlen := List.length_pos_of_ne_nil hne
  unfold targetForwardFromState at h
  dsimp only at h
  cases hplan : kvWritePlan env (state.promptTokenCount + state.generatedTokenIds.length - 1)
    tokenIds.length (state.promptTokenCount + state.generatedTokenIds.length)
    (if provisional then tokenIds.length - 1 else 0) with
  | mk r env₁ =>
    rw [hplan] at h
    obtain e | transaction := r <;> cases h
    refine kvWritePlan_outOfPages (fun happend => ?_) hplan
    rw [if_neg (by omega)]
    split_ifs at happend ⊢
    · omega
    · omega

/-- A speculative round that raises could not reserve the pages of its validation. -/
theorem speculativeDecode_outOfPages (hcons : env.kvCache.allocator.Consistent)
    (hgenerated : state.generatedTokenIds ≠ []) (hfinished : state.finished = false)
    (h : ex.speculativeDecode sequence state env = (.error e, state', env')) :
    e.kind = .pageAllocationError := by
  have hsame := draftTokens_same ex sequence state
    (min ex.config.speculativeTokens ((sequence.maxNewTokens : ℤ) - state.generatedTokenIds.length))
  unfold speculativeDecode at h
  dsimp only at h
  generalize ex.draftTokens sequence state (min ex.config.speculativeTokens
    ((sequence.maxNewTokens : ℤ) - state.generatedTokenIds.length)) = r at hsame h
  obtain ⟨draftTokens, state₁⟩ := r
  have hgenerated₁ : state₁.generatedTokenIds ≠ [] := by
    rwa [show state₁ = _ from hsame]
  have hfinished₁ : state₁.finished = false := by
    rwa [show state₁ = _ from hsame]
  dsimp only at h
  by_cases hnil : draftTokens = []
  · rw [if_pos hnil] at h
    cases hone : ex.decodeOne sequence state₁ env with
    | mk r p =>
      rw [hone] at h
      obtain e | result := r <;> cases h
      exact decodeOne_outOfPages hone
  · rw [if_neg hnil] at h
    cases hforward : ex.targetForwardFromState state₁ env
      (state₁.generatedTokenIds.getLastD 0 :: draftTokens) true with
    | mk r env₁ =>
      rw [hforward] at h
      obtain e | ⟨logits, pastKeyValues, transaction⟩ := r
      · cases h
        exact targetForwardFromState_outOfPages hgenerated₁ (List.cons_ne_nil _ _) hforward
      · -- nothing raises after the validation
        dsimp only at h
        split_ifs at h with hall
        · cases h
        · have hlt := lt_of_le_of_ne (Generation.agree_le_length draftTokens
            ((logits.take draftTokens.length).map greedyToken)) hall
          obtain ⟨id', env₂, haccepted⟩ := acceptPrefix_eq hcons hgenerated₁ hfinished₁ hforward hlt
            (((logits.take draftTokens.length).map greedyToken).getD
              (Generation.agree draftTokens ((logits.take draftTokens.length).map greedyToken)) 0)
          rw [haccepted] at h
          cases h

theorem forwardDecode_outOfPages (batch : Batch) (hcons : env.kvCache.allocator.Consistent)
    (h : ex.forwardDecode sequence batch env = (.error e, env')) :
    e.kind = .pageAllocationError := by
  have hdecoded := decoded ex sequence batch env
  rw [h] at hdecoded
  generalize hr : ((.error e, env') : Except PyError DecodeOutput × Env δ) = r at hdecoded
  cases hdecoded with
  | finished | pending => cases hr
  | @speculative r _ _ hfin hgenerated hdecode =>
    obtain e' | results := r <;> cases hr
    exact speculativeDecode_outOfPages hcons hgenerated hfin hdecode
  | @one r _ _ hone =>
    obtain e' | result := r <;> cases hr
    exact decodeOne_outOfPages hone

theorem forwardPrefill_ok (sequence : Sequence) (batch : Batch) (env : Env δ) :
    (ex.forwardPrefill sequence batch env).1 = .ok () := by
  unfold forwardPrefill
  dsimp only
  split_ifs <;> rfl

/-- `forward_decode` returns samples. -/
theorem forwardDecode_ne_other (batch : Batch) {output : DecodeOutput}
    (h : ex.forwardDecode sequence batch env = (.ok output, env')) : output ≠ .other := by
  rintro rfl
  have hdecoded := decoded ex sequence batch env
  rw [h] at hdecoded
  generalize hr : ((.ok .other, env') : Except PyError DecodeOutput × Env δ) = r at hdecoded
  cases hdecoded with
  | finished | pending => cases hr
  | @speculative r => obtain e' | results := r <;> cases hr
  | @one r => obtain e' | result := r <;> cases hr

end TransformersTextExecutor

namespace BatchContext

theorem attachKv_outOfPages {σ : Type} {ex : ModelExecutor σ} {c c' : BatchContext σ}
    {batch : Batch} {n : ℕ} {e : PyError} (hn : ∀ p ∈ batch.positions, p < n)
    (h : c.attachKv ex batch n = (.error e, c')) : e.kind = .pageAllocationError := by
  -- a call that is made answers
  have hnone : c.attachKvCalls ex batch n = [] := by
    refine List.eq_nil_iff_forall_not_mem.2 fun call hcall => ?_
    obtain ⟨slots, hslots, -⟩ := (attachKvCalls_reserved hn hcall).covered.exists_answer
    have hanswer := attachKv_answer hcall
    rw [h, hslots] at hanswer
    cases hanswer
  unfold attachKvCalls at hnone
  unfold attachKv at h
  split_ifs at hnone h
  · cases hens : c.kvCache.ensureCapacity c.sequence.blockTable n with
    | mk r p =>
      rw [hens] at hnone h
      obtain e | pages := r
      · cases h
        exact PagedKVCache.ensureCapacity_error hens
      · cases hnone
  · cases h

variable {δ : Type} {ex : TransformersTextExecutor δ} {c c' : BatchContext (TransformersState δ)}
  {batch : Batch} {e : PyError}

/-- Executing a batch raises only if the pages run out. -/
theorem executeBatch_outOfPages (hcons : c.kvCache.allocator.Consistent)
    {sch : InteractiveScheduler} {budget : Option ℕ}
    (hb : sch.buildBatch budget c.sequence = .ok batch)
    (h : c.executeBatch ex.modelExecutor batch = (.error e, c')) :
    e.kind = .pageAllocationError := by
  have hn := lt_tokensAfter hb
  unfold executeBatch at h
  split_ifs at h
  · cases h
  · cases hphase : batch.phase with
    | prefill =>
      rw [hphase] at h
      rw [tokensAfter_prefill hphase] at hn
      dsimp only [executePrefill] at h
      cases hattach : c.attachKv ex.modelExecutor batch
        (c.sequence.numCachedTokens + c.sequence.numScheduledTokens + batch.inputIds.length) with
      | mk r c₁ =>
        rw [hattach] at h
        obtain e | batch' := r
        · cases h
          exact attachKv_outOfPages hn hattach
        · have hok := ex.forwardPrefill_ok c₁.sequence batch' c₁.env
          dsimp only at h
          cases hforward : ex.modelExecutor.forwardPrefill c₁.sequence batch' c₁.env with
          | mk r env =>
            rw [show ex.forwardPrefill c₁.sequence batch' c₁.env = (r, env) from hforward] at hok
            dsimp only at hok
            subst hok
            rw [hforward] at h
            dsimp only [cachePrefix] at h
            rw [if_neg fun hc => Bool.false_ne_true hc.2.2] at h
            cases h
    | decode =>
      rw [hphase] at h
      rw [tokensAfter_decode hphase] at hn
      dsimp only [executeDecode] at h
      rcases attachKv_cases ex.modelExecutor c batch
        (c.sequence.numPromptTokens + c.sequence.outputIds.length + 1) with
        ⟨e', env, -, -, -, hattach⟩ | ⟨batch', env, ha, hattach⟩ <;> rw [hattach] at h
      · cases h
        exact attachKv_outOfPages hn hattach
      · obtain ⟨pages, hgrow⟩ := ha.kv.grows hcons
        dsimp only [env_setEnv] at h
        cases hforward : ex.modelExecutor.forwardDecode (c.setEnv env).sequence batch' env with
        | mk r env' =>
          rw [hforward] at h
          obtain e' | output := r
          · cases h
            exact TransformersTextExecutor.forwardDecode_outOfPages batch' hgrow.consistent hforward
          · have hother := TransformersTextExecutor.forwardDecode_ne_other batch' hforward
            dsimp only at h
            cases output with
            | one | many => cases h
            | other => exact absurd rfl hother

end BatchContext

/-! ## Runs -/

namespace ServerState

variable {σ : Type}

/-- The calls that an event makes : those of the batch that is executed, if a stream is resumed
at its loop. -/
def slotCalls (ex : ModelExecutor σ) (decodeCalls : Sequence → ExecutorEnv σ → List SlotCall)
    (s : ServerState σ) : Event → List SlotCall
  | .resume seqId =>
    match s.runtime.scheduler.get seqId, (s.streams seqId).phase with
    | some sequence, .loop =>
      if sequence.isTerminal then []
      else
        match s.runtime.scheduler.buildNextBatch none with
        | (.ok (some batch), scheduler) =>
          { s.runtime with scheduler }.slotCalls ex decodeCalls batch
        | _ => []
    | _, _ => []
  | _ => []

/-- The calls of an event are those of the batch of the selected sequence. -/
theorem mem_slotCalls {ex : ModelExecutor σ}
    {decodeCalls : Sequence → ExecutorEnv σ → List SlotCall} {s : ServerState σ} {e : Event}
    {call : SlotCall} (h : call ∈ s.slotCalls ex decodeCalls e) :
    ∃ sel batch, s.runtime.scheduler.selectNextSequence = some sel ∧
      s.runtime.scheduler.buildBatch none sel.scheduled = .ok batch ∧
      call ∈ (s.runtime.context sel.scheduled).slotCalls ex decodeCalls batch := by
  unfold slotCalls at h
  split at h
  · split at h
    · split_ifs at h
      · cases h
      · split at h
        · rename_i batch scheduler hnext
          obtain ⟨sel, hsel, rfl, hb⟩ := InteractiveScheduler.buildNextBatch_some hnext
          refine ⟨sel, batch, hsel, hb, ?_⟩
          have hid : batch.seqId = sel.scheduled.seqId :=
            (InteractiveScheduler.buildBatch_ok hb).1
          rw [RuntimeCore.slotCalls, hid, InteractiveScheduler.get_put] at h
          exact h
        · cases h
    · cases h
  · cases h

/-- Without a prefix cache the tables are apart in every reachable state. -/
theorem tablesExclusive_of_reachable {ex : ModelExecutor σ}
    (hcache : ex.supportsPrefixCache = false) {config : RuntimeConfig} {executor : σ}
    {s : ServerState σ} (h : Transition.Reachable (step ex) (init config executor) s) :
    s.Sound ∧ s.runtime.PagesOwned ∧ s.runtime.TablesExclusive := by
  refine h.invariant
    (I := fun s : ServerState σ => s.Sound ∧ s.runtime.PagesOwned ∧ s.runtime.TablesExclusive)
    ⟨sound_init config executor, RuntimeCore.pagesOwned_create config executor, ?_⟩
    fun s e hs => ?_
  · constructor <;> simp
  · obtain ⟨hs, hp, ht⟩ := hs
    have hchange := step_change ex s hs.runtime.wellFormed e
    exact ⟨hs.step e, (hchange.pages hs.runtime hp).1,
      hchange.tablesExclusive hcache hs.runtime hp ht⟩

end ServerState

namespace TransformersTextExecutor

variable {δ : Type}

/-- The calls that an event makes in the runtime and in the executor. -/
def slotCalls (ex : TransformersTextExecutor δ) (s : ServerState (TransformersState δ))
    (e : Event) : List SlotCall :=
  s.slotCalls ex.modelExecutor ex.forwardDecodeCalls e

/-- In every reachable state, every call of `slot_mapping` has non-negative positions with logical
pages inside its table, so that it returns slots. Its pages are in use and in the table of no
other sequence. -/
theorem slotCalls_safe (ex : TransformersTextExecutor δ) (config : RuntimeConfig)
    (executor : TransformersState δ) (es : List Event) (e : Event) (call : SlotCall)
    (hcall : call ∈ ex.slotCalls
      (Transition.run (ServerState.step ex.modelExecutor) (ServerState.init config executor) es)
      e) :
    call.Safe (Transition.run (ServerState.step ex.modelExecutor)
      (ServerState.init config executor) es).runtime := by
  have hreachable : Transition.Reachable (ServerState.step ex.modelExecutor)
      (ServerState.init config executor) (Transition.run (ServerState.step ex.modelExecutor)
        (ServerState.init config executor) es) := ⟨es, rfl⟩
  obtain ⟨hs, hp, ht⟩ := ServerState.tablesExclusive_of_reachable rfl hreachable
  obtain ⟨sel, batch, hsel, hb, hcall⟩ := ServerState.mem_slotCalls hcall
  have hget := (hs.runtime.wellFormed.selectNextSequence hsel).1
  have hreserved : call.Reserved sel.seqId _ := BatchContext.slotCalls_reserved
    (fun q env call h => forwardDecodeCalls_reserved h) hb hcall
  exact hreserved.safe hp ht hget

/-- The validation of a round of two proposals takes a second page, the replay does not. -/
theorem slotCalls_safe_speculated : ∃ call ∈ (speculativeExecutor sevenDraft).slotCalls
      (speculated sevenDraft 3) (.resume 0),
    call.positions = [2, 3, 4] ∧ call.blockTable = [0, 1] ∧
      call.Safe (speculated sevenDraft 3).runtime := by
  have hcalls : ((speculativeExecutor sevenDraft).slotCalls (speculated sevenDraft 3)
      (.resume 0)).map (fun call => (call.positions, call.blockTable)) =
        [([3], [0]), ([2, 3, 4], [0, 1]), ([2], [0])] := by decide +kernel
  have hmem : ([2, 3, 4], [0, 1]) ∈ ((speculativeExecutor sevenDraft).slotCalls
      (speculated sevenDraft 3) (.resume 0)).map
        fun call => (call.positions, call.blockTable) := by
    rw [hcalls]
    exact .tail _ (.head _)
  obtain ⟨call, hcall, hfields⟩ := List.mem_map.1 hmem
  obtain ⟨hpositions, htable⟩ := Prod.mk.inj hfields
  exact ⟨call, hcall, hpositions, htable, slotCalls_safe (speculativeExecutor sevenDraft)
    ServerState.smallConfig {} (speculativeRun 3) (.resume 0) call hcall⟩

/-- In every reachable state, executing the next batch raises only if the pages run out. -/
theorem outOfPages_of_reachable {ex : TransformersTextExecutor δ} {config : RuntimeConfig}
    {executor : TransformersState δ} {s : ServerState (TransformersState δ)}
    (hs : Transition.Reachable (ServerState.step ex.modelExecutor)
      (ServerState.init config executor) s) {sel : Sequence} {batch : Batch}
    (hbuilt : s.runtime.Built sel batch) {e : PyError} {c : BatchContext (TransformersState δ)}
    (hx : (s.runtime.context sel.scheduled).executeBatch ex.modelExecutor batch = (.error e, c)) :
    e.kind = .pageAllocationError := by
  obtain ⟨-, hp, -⟩ := ServerState.tablesExclusive_of_reachable rfl hs
  obtain ⟨-, budget, hb⟩ := hbuilt
  exact BatchContext.executeBatch_outOfPages hp.consistent hb hx

/-- A page for the two tokens of the prompt, and none for the next. -/
def onePageConfig : RuntimeConfig :=
  { ServerState.smallConfig with kvCache := ⟨1, 2, Nat.two_pos, Nat.one_pos⟩ }

/-- The first decode raises. -/
theorem outOfPages_of_reachable_onePage : ∃ sel batch e c,
    let s := Transition.run (ServerState.step (speculativeExecutor sevenDraft).modelExecutor)
      (ServerState.init onePageConfig {}) (speculativeRun 2)
    s.runtime.Built sel batch ∧ batch.phase = .decode ∧
      (s.runtime.context sel.scheduled).executeBatch (speculativeExecutor sevenDraft).modelExecutor
        batch = (.error e, c) ∧ e.kind = .pageAllocationError := by
  generalize hs : Transition.run (ServerState.step (speculativeExecutor sevenDraft).modelExecutor)
    (ServerState.init onePageConfig {}) (speculativeRun 2) = s
  have hraise : ∃ sel, s.runtime.scheduler.selectNextSequence = some sel ∧
      ∃ batch, s.runtime.scheduler.buildBatch none sel.scheduled = .ok batch ∧
        batch.phase = .decode ∧ ∃ e, ((s.runtime.context sel.scheduled).executeBatch
          (speculativeExecutor sevenDraft).modelExecutor batch).1 = .error e := by
    subst hs
    exact ⟨_, rfl, _, rfl, by decide +kernel, _, rfl⟩
  obtain ⟨sel, hsel, batch, hb, hphase, e, he⟩ := hraise
  refine ⟨sel, batch, e, _, ⟨hsel, none, hb⟩, hphase, Prod.ext he rfl, ?_⟩
  exact outOfPages_of_reachable ⟨_, hs⟩ ⟨hsel, none, hb⟩ (Prod.ext he rfl)

end TransformersTextExecutor

end SoloRT
