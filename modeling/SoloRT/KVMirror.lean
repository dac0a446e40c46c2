import SoloRT.FlashInfer
import SoloRT.InStep
import SoloRT.PageOwnership

/-!
# The KV mirror over whole runs

The executor of `FlashInfer` writes the K/V of every token that it feeds into the pages of its
sequence. A prefill chunk is written at the slots that the runtime attached to its batch, a
decoded token at the slot of its own write plan.

Without prefix hits no two sequences have a page in common (`TablesExclusive`), so a slot has
one owner and one position. The tokens fed for a sequence are its first ones, and the next one
goes to the position after them (`Feeding`). From both, the slot of every position fed so far
holds the K/V that was made for the token there (`Mirrors`), whatever was fed for other
sequences in between (`readsBack_run`).
-/

namespace SoloRT

/-! ## What a forward leaves in the slots -/

namespace FlashInferTextExecutor

variable {ρ : Type} (ex : FlashInferTextExecutor ρ)

/-- The tokens fed for a sequence are its first ones, and the slots of their positions hold the
K/V made for them. -/
structure Mirrors (kv : PagedKVCache) (st : FlashInferState ρ) (q : Sequence) : Prop where
  tokens : (st.fed q.seqId).map FedToken.tokenId <+: q.inputIds ++ q.outputIds
  rows : ∀ (p : ℕ) x, (st.fed q.seqId)[p]? = some x → ∃ slot, kv.slotOf q.blockTable p = .ok slot ∧
    ∀ layer < ex.tensors.numLayers, st.tensors.row kv.config.pageSize layer slot = x.row layer

/-- How many tokens of a live sequence were fed : all that were scheduled, and the generated
ones but the last. -/
structure Feeding (st : FlashInferState ρ) (q : Sequence) : Prop where
  pending : (st.states.ensure q).pendingTokenId ≠ none → q.outputIds = []
  count : (st.fed q.seqId).length = q.numScheduledTokens + (q.outputIds.length - 1)
  complete : q.outputIds ≠ [] → q.isPrefillComplete = true

variable {ex} {kv kv' : PagedKVCache} {st st' : FlashInferState ρ} {q q' : Sequence}
  {pageSize : ℕ}

variable (ex) in
theorem length_fedTokens (cached tokenIds : List TokenId) :
    (ex.fedTokens cached tokenIds).length = tokenIds.length := by
  simp [fedTokens]

theorem map_tokenId_fedTokens (cached tokenIds : List TokenId) :
    (ex.fedTokens cached tokenIds).map FedToken.tokenId = tokenIds := by
  rw [fedTokens, List.mapIdx_eq_zipIdx_map, List.map_map]
  exact List.zipIdx_map_fst 0 tokenIds

section

variable {id : SeqId} {tokenIds cached : List TokenId} {slots : List ℕ}
  (hcalls : ex.CallsAttention) (h : ex.Feeds id pageSize st st' tokenIds slots cached)
  (hlen : slots.length = tokenIds.length) (hne : tokenIds ≠ [])

include hcalls h hlen hne

/-- The slot of a fed token has its K/V. -/
theorem Feeds.row_new (hnd : slots.Nodup) {i slot : ℕ} {x : FedToken ρ}
    (hi : slots[i]? = some slot) (hx : (ex.fedTokens cached tokenIds)[i]? = some x) {layer : ℕ}
    (hlayer : layer < ex.tensors.numLayers) :
    st'.tensors.row pageSize layer slot = x.row layer := by
  have hi' : i < tokenIds.length := by
    rw [← length_fedTokens ex cached]
    exact (List.getElem?_eq_some_iff.1 hx).1
  have hrow : x.row = fun layer => ex.produced cached tokenIds layer i := by
    rw [fedTokens, List.getElem?_mapIdx, List.getElem?_eq_getElem hi'] at hx
    exact (congrArg FedToken.row (Option.some.inj hx)).symm
  rw [h.tensors, hrow]
  refine KVTensors.mirrorLayers_row
    (fun layer => (List.range tokenIds.length).map (ex.produced cached tokenIds layer))
    (fun layer hl => ⟨hcalls.key _ _ _ hl, hcalls.value _ _ _ hl⟩)
    (fun _ _ => by simpa using hlen) ?_ hnd hi hlayer ?_
  · rintro rfl
    exact hne (List.length_eq_zero_iff.1 (by simpa using hlen.symm))
  · simp [hi']

/-- Any other slot has what it had. -/
theorem Feeds.row_old {slot : ℕ} (hslot : slot ∉ slots) (layer : ℕ) :
    st'.tensors.row pageSize layer slot = st.tensors.row pageSize layer slot := by
  rw [h.tensors]
  refine KVTensors.mirrorLayers_row_of_not_mem
    (fun layer => (List.range tokenIds.length).map (ex.produced cached tokenIds layer))
    (fun layer hl => ⟨hcalls.key _ _ _ hl, hcalls.value _ _ _ hl⟩)
    (fun _ _ => by simpa using hlen) ?_ hslot _
  rintro rfl
  exact hne (List.length_eq_zero_iff.1 (by simpa using hlen.symm))

end

/-- Feeding the next tokens of a sequence at the positions after the fed ones. -/
theorem Mirrors.fed {tokenIds cached : List TokenId} {slots : List ℕ} {pages : List PageId}
    (hm : ex.Mirrors kv st q) (hcalls : ex.CallsAttention)
    (h : ex.Feeds q.seqId kv'.config.pageSize st st' tokenIds slots cached)
    (hne : tokenIds ≠ []) (hreq : q'.request = q.request) (hconfig : kv'.config = kv.config)
    (htable : q'.blockTable = q.blockTable ++ pages) (hnd : q'.blockTable.Nodup)
    (hslots : kv'.slotMapping q'.blockTable
      (List.range' (st.fed q.seqId).length tokenIds.length) = .ok slots)
    (htokens : (st.fed q.seqId).map FedToken.tokenId ++ tokenIds <+: q.inputIds ++ q.outputIds)
    (hout : ∃ outputIds, q'.outputIds = q.outputIds ++ outputIds) : ex.Mirrors kv' st' q' := by
  have hid := Sequence.seqId_of_request hreq
  obtain ⟨outputIds, hout⟩ := hout
  have hfed : st'.fed q'.seqId = st.fed q.seqId ++ ex.fedTokens cached tokenIds := by
    rw [hid, h.fed, Function.update_self]
  have hlen : slots.length = tokenIds.length := by
    simpa using PagedKVCache.slotMapping_length hslots
  have hall := PagedKVCache.slotMapping_ok hslots
  have hslot : ∀ {i : ℕ}, i < tokenIds.length → ∃ slot, slots[i]? = some slot ∧
      kv'.slotOf q'.blockTable ((st.fed q.seqId).length + i) = .ok slot := by
    intro i hi
    refine PagedKVCache.slotMapping_getElem? hall ?_
    rw [List.getElem?_range' hi, Nat.one_mul]
  constructor
  · rw [hfed, List.map_append, map_tokenId_fedTokens, Sequence.inputIds_of_request hreq, hout,
      ← List.append_assoc]
    exact htokens.trans (List.prefix_append _ _)
  · intro p x hx
    rw [hfed] at hx
    rcases Nat.lt_or_ge p (st.fed q.seqId).length with hp | hp
    · -- a token fed before
      rw [List.getElem?_append_left hp] at hx
      obtain ⟨slot, hs, hrow⟩ := hm.rows p x hx
      have hs' := PagedKVCache.slotOf_append hs hconfig pages
      rw [← htable] at hs'
      refine ⟨slot, hs', fun layer hlayer => ?_⟩
      rw [h.row_old hcalls hlen hne fun hmem => ?_, hconfig, hrow layer hlayer]
      obtain ⟨p', hp', hs''⟩ := PagedKVCache.mem_slotMapping hslots hmem
      have heq := PagedKVCache.slotOf_inj hnd hs' hs''
      have hge := (List.mem_range'_1.1 hp').1
      omega
    · -- a token fed now
      rw [List.getElem?_append_right hp] at hx
      have hi := (List.getElem?_eq_some_iff.1 hx).1
      rw [length_fedTokens] at hi
      obtain ⟨slot, hget, hs⟩ := hslot hi
      rw [Nat.add_sub_cancel' hp] at hs
      exact ⟨slot, hs, fun layer hlayer =>
        h.row_new hcalls hlen hne (PagedKVCache.slotMapping_nodup hnd hslots) hget hx hlayer⟩

/-- A sequence for which nothing was fed, and whose slots nothing was written to. -/
theorem Mirrors.congr (pages : List PageId) (hm : ex.Mirrors kv st q)
    (hreq : q'.request = q.request) (hconfig : kv'.config = kv.config)
    (htable : q'.blockTable = q.blockTable ++ pages)
    (hout : ∃ outputIds, q'.outputIds = q.outputIds ++ outputIds)
    (hfed : st'.fed q.seqId = st.fed q.seqId)
    (hrow : ∀ p slot layer, kv.slotOf q.blockTable p = .ok slot →
      st'.tensors.row kv.config.pageSize layer slot =
        st.tensors.row kv.config.pageSize layer slot) :
    ex.Mirrors kv' st' q' := by
  have hid := Sequence.seqId_of_request hreq
  obtain ⟨outputIds, hout⟩ := hout
  constructor
  · rw [hid, hfed, Sequence.inputIds_of_request hreq, hout, ← List.append_assoc]
    exact hm.tokens.trans (List.prefix_append _ _)
  · intro p x hx
    rw [hid, hfed] at hx
    obtain ⟨slot, hs, hold⟩ := hm.rows p x hx
    refine ⟨slot, ?_, fun layer hlayer => ?_⟩
    · rw [htable]
      exact PagedKVCache.slotOf_append hs hconfig pages
    · rw [hconfig, hrow p slot layer hs, hold layer hlayer]

end FlashInferTextExecutor

/-! ## What the runtime hands to an executor -/

namespace BatchContext

variable {σ : Type} {ex : ModelExecutor σ} {c c' : BatchContext σ} {batch batch' : Batch}
  {texts : List Text}

/-- The slots that the runtime attaches are those of the positions of the batch. -/
theorem attachKv_slots (hkv : ex.usesPagedKv = true) {n : ℕ} {c₁ : BatchContext σ}
    (h : c.attachKv ex batch n = (.ok batch', c₁)) : ∃ slots, batch'.slotMapping = some slots ∧
      c₁.kvCache.slotMapping c₁.sequence.blockTable batch.positions = .ok slots := by
  unfold attachKv at h
  rw [if_pos hkv] at h
  cases hens : c.kvCache.ensureCapacity c.sequence.blockTable n with
  | mk r p =>
    obtain ⟨kv, table⟩ := p
    rw [hens] at h
    obtain e | pages := r
    · cases h
    · dsimp only at h
      cases hm : kv.metadataFor table n batch.positions with
      | error e =>
        rw [hm] at h
        cases h
      | ok m =>
        rw [hm] at h
        simp only [Prod.mk.injEq, Except.ok.injEq] at h
        obtain ⟨rfl, rfl⟩ := h
        exact ⟨m.slotMapping, rfl, metadataFor_slotMapping hm⟩

theorem executePrefill_ok (hkv : ex.usesPagedKv = true) (hcache : ex.supportsPrefixCache = false)
    (hx : c.executePrefill ex batch = (.ok texts, c')) (hs : c.sequence.status ≠ .cancelled)
    (hb : batch.phase = .prefill) : ∃ batch' env slots, Attached ex c batch batch' env ∧
      batch'.slotMapping = some slots ∧
      env.kvCache.slotMapping env.blockTable batch.positions = .ok slots ∧
      ex.forwardPrefill (c.setEnv env).sequence batch' env = (.ok (), c'.env) ∧
      c'.sequence.numScheduledTokens = c.sequence.numScheduledTokens + batch.inputIds.length := by
  dsimp only [executePrefill] at hx
  rcases attachKv_cases ex c batch
    (c.sequence.numCachedTokens + c.sequence.numScheduledTokens + batch.inputIds.length) with
    ⟨e, env, -, -, -, h⟩ | ⟨batch', env, ha, h⟩
  · rw [h] at hx
    cases hx
  · obtain ⟨slots, hslots, hmapping⟩ := attachKv_slots hkv h
    rw [h] at hx
    dsimp only [env_setEnv] at hx
    refine ⟨batch', env, slots, ha, hslots, hmapping, ?_⟩
    cases he : ex.forwardPrefill (c.setEnv env).sequence batch' env with
    | mk o env' =>
      rw [he] at hx
      obtain e | u := o
      · cases hx
      · dsimp only at hx
        rw [Sequence.postprocessBatch_prefill (s := ((c.setEnv env).setEnv env').sequence) hs
          (ha.phase.trans hb), cachePrefix, hcache, if_neg (by simp), ha.inputIds] at hx
        cases hx
        exact ⟨rfl, rfl⟩

theorem executeDecode_ok (hx : c.executeDecode ex batch = (.ok texts, c'))
    (hb : batch.phase = .decode) : ∃ batch' env output, Attached ex c batch batch' env ∧
      ex.forwardDecode (c.setEnv env).sequence batch' env = (.ok output, c'.env) ∧
      c.returned ex batch = (normalizeSamples output).toOption.getD [] ∧
      c'.sequence.numScheduledTokens = c.sequence.numScheduledTokens := by
  dsimp only [executeDecode] at hx
  rcases attachKv_cases ex c batch
    (c.sequence.numPromptTokens + c.sequence.outputIds.length + 1) with
    ⟨e, env, -, -, -, h⟩ | ⟨batch', env, ha, h⟩
  · rw [h] at hx
    cases hx
  · rw [h] at hx
    dsimp only [env_setEnv] at hx
    refine ⟨batch', env, ?_⟩
    cases he : ex.forwardDecode (c.setEnv env).sequence batch' env with
    | mk o env' =>
      rw [he] at hx
      obtain e | output := o
      · cases hx
      · refine ⟨output, ha, ?_⟩
        rw [returned_of_forwardDecode hb h he, Except.toOption, Option.bind_some]
        dsimp only at hx
        cases hn : normalizeSamples output with
        | error e =>
          rw [hn] at hx
          cases hx
        | ok samples =>
          rw [hn] at hx
          obtain ⟨xs, h | h⟩ :=
            consumeSamples_sequence samples ((c.setEnv env).setEnv env').sequence
              ((c.setEnv env).setEnv env').metrics <;>
          · dsimp only at hx
            cases hx
            simp only [BatchContext.env, h]
            exact ⟨rfl, trivial, rfl⟩

end BatchContext

/-! ## One batch -/

namespace FlashInferTextExecutor

variable {ρ : Type} {ex : FlashInferTextExecutor ρ} {c c' : BatchContext (FlashInferState ρ)}
  {batch : Batch} {texts : List Text}

/-- A live sequence whose next batch is about to be executed. -/
structure Ready (ex : FlashInferTextExecutor ρ) (c : BatchContext (FlashInferState ρ))
    (batch : Batch) : Prop where
  built : ∃ sch : InteractiveScheduler, sch.buildBatch none c.sequence = .ok batch
  live : c.sequence.isTerminal = false
  prompt : c.sequence.numPromptTokens = c.sequence.inputIds.length
  uncached : c.sequence.numCachedTokens = 0
  progress : c.sequence.numScheduledTokens ≤ c.sequence.numPromptTokens
  follows : Follows c.executor.states c.sequence
  counts : Counts c.executor.states c.sequence
  mirrors : ex.Mirrors c.kvCache c.executor c.sequence
  feeding : Feeding c.executor c.sequence

/-- From `c` to `c'` the next tokens of the sequence were fed, at the positions after the fed
ones, or there were none to feed. -/
def FeedsNext (ex : FlashInferTextExecutor ρ) (c c' : BatchContext (FlashInferState ρ))
    (tokenIds : List TokenId) : Prop :=
  (tokenIds = [] ∧ c'.executor.tensors = c.executor.tensors ∧
    c'.executor.fed = c.executor.fed) ∨
  ∃ slots cached, tokenIds ≠ [] ∧
    Feeds ex c.sequence.seqId c'.kvCache.config.pageSize c.executor c'.executor tokenIds slots
      cached ∧
    c'.kvCache.slotMapping c'.sequence.blockTable
      (List.range' (c.executor.fed c.sequence.seqId).length tokenIds.length) = .ok slots ∧
    (c.executor.fed c.sequence.seqId).map FedToken.tokenId ++ tokenIds <+:
      c.sequence.inputIds ++ c.sequence.outputIds

namespace Ready

variable (h : Ready ex c batch)

include h

theorem status : c.sequence.status ≠ .cancelled := fun hs => by
  have hlive := h.live
  rw [c.sequence.isTerminal_iff.2 (.inr hs)] at hlive
  cases hlive

/-- What follows the fed tokens in the sequence. -/
theorem tokens_append {tokenIds : List TokenId}
    (htokens : tokenIds <+: (c.sequence.inputIds ++ c.sequence.outputIds).drop
      (c.executor.fed c.sequence.seqId).length) :
    (c.executor.fed c.sequence.seqId).map FedToken.tokenId ++ tokenIds <+:
      c.sequence.inputIds ++ c.sequence.outputIds := by
  obtain ⟨rest, hrest⟩ := h.mirrors.tokens
  rw [← hrest] at htokens ⊢
  rw [List.drop_left' (List.length_map _)] at htokens
  exact (List.prefix_append_right_inj _).2 htokens

/-- A sequence in its prefill has generated nothing. -/
theorem outputIds_of_prefill (hphase : batch.phase = .prefill) : c.sequence.outputIds = [] := by
  by_contra hne
  obtain ⟨sch, hb⟩ := h.built
  have hdone := (InteractiveScheduler.buildBatch_ok hb).2.2 (h.feeding.complete hne)
  rw [hphase] at hdone
  cases hdone

/-- A sequence that decodes has its prompt prefilled. -/
theorem scheduled_of_decode (hphase : batch.phase = .decode) :
    c.sequence.numScheduledTokens = c.sequence.inputIds.length := by
  obtain ⟨sch, hb⟩ := h.built
  have hdone := c.sequence.isPrefillComplete_iff.1
    ((InteractiveScheduler.buildBatch_ok hb).2.1 hphase)
  have hprompt := h.prompt
  have huncached := h.uncached
  have hprogress := h.progress
  omega

theorem feedsNext_prefill (hphase : batch.phase = .prefill)
    (hx : c.executePrefill ex.modelExecutor batch = (.ok texts, c')) :
    FeedsNext ex c c' batch.inputIds ∧ c'.sequence.numScheduledTokens =
      c.sequence.numScheduledTokens + batch.inputIds.length := by
  obtain ⟨sch, hb⟩ := h.built
  obtain ⟨hpositions, hpos, -⟩ := PrefillMachine.buildBatch_chunk hb hphase h.prompt
  have hne : batch.inputIds ≠ [] := List.ne_nil_of_length_pos hpos
  have hout := h.outputIds_of_prefill hphase
  have hcount := h.feeding.count
  rw [hout, List.length_nil, Nat.zero_sub, Nat.add_zero] at hcount
  obtain ⟨batch', env, slots, ha, hslots, hmapping, he, hscheduled⟩ :=
    BatchContext.executePrefill_ok rfl rfl hx h.status hphase
  obtain ⟨hfeeds, hkv, htable⟩ :=
    forwardPrefill_feeds ex (c.setEnv env).sequence batch' env (ha.inputIds ▸ hne)
  have henv : (ex.forwardPrefill (c.setEnv env).sequence batch' env).2 = c'.env :=
    congrArg Prod.snd he
  rw [henv] at hfeeds hkv htable
  rw [ha.state, ha.inputIds, hslots, Option.getD_some, ← hkv] at hfeeds
  refine ⟨.inr ⟨slots, _, hne, hfeeds, ?_, ?_⟩, hscheduled⟩
  · rw [hpositions, h.uncached, Nat.zero_add, ← hcount, ← hkv, ← htable] at hmapping
    exact hmapping
  · have hchunk := InteractiveScheduler.buildBatch_inputIds hb hphase
    rw [h.uncached, Nat.zero_add, ← hcount] at hchunk
    refine h.tokens_append ?_
    rw [hout, List.append_nil]
    exact hchunk

theorem feedsNext_decode (hphase : batch.phase = .decode)
    (hx : c.executeDecode ex.modelExecutor batch = (.ok texts, c')) :
    ∃ tokenIds, FeedsNext ex c c' tokenIds ∧
      (c.sequence.outputIds.length - 1) + tokenIds.length = c.sequence.outputIds.length ∧
      (c.returned ex.modelExecutor batch).length = 1 ∧
      c'.sequence.numScheduledTokens = c.sequence.numScheduledTokens ∧
      ∀ state, c'.executor.states c.sequence.seqId = some state → state.pendingTokenId = none := by
  obtain ⟨batch', env, output, ha, he, hret, hsame⟩ := BatchContext.executeDecode_ok hx hphase
  have hensure : env.state.states.ensure (c.setEnv env).sequence =
      c.executor.states.ensure c.sequence :=
    ServingStates.ensure_congr rfl (by rw [ha.state])
  have hfin := h.follows.unfinished
  rw [← hensure] at hfin
  obtain ⟨⟨result, rfl⟩, hpending, hfeeds⟩ :=
    forwardDecode_feeds (c.setEnv env).sequence batch' env he hfin
  have hone : (c.returned ex.modelExecutor batch).length = 1 := by
    rw [hret]
    rfl
  rw [hensure, ha.state, h.follows.generated, h.counts.prompt] at hfeeds
  rcases hfeeds with ⟨htensors, hfed, hnone⟩ | ⟨last, slots, cached, -, hlast, hslots, hfeeds⟩
  · have hout : c.sequence.outputIds = [] := hnone.elim h.feeding.pending fun hgen => hgen
    exact ⟨[], .inl ⟨rfl, htensors, hfed⟩, by rw [hout]; rfl, hone, hsame, hpending⟩
  · have hscheduled := h.scheduled_of_decode hphase
    have hcount := h.feeding.count
    have hout : 0 < c.sequence.outputIds.length :=
      List.length_pos_iff.2 (List.ne_nil_of_mem (List.mem_of_getLast? hlast))
    have hposition : c.sequence.numPromptTokens + c.sequence.outputIds.length - 1 =
        (c.executor.fed c.sequence.seqId).length := by
      rw [hcount, hscheduled, h.prompt]
      omega
    rw [hposition] at hslots
    refine ⟨[last], .inr ⟨slots, cached, by simp, hfeeds, hslots, ?_⟩, Nat.sub_add_cancel hout,
      hone, hsame, hpending⟩
    -- the fed token is the last of the sequence
    obtain ⟨ts, hts⟩ := List.getLast?_eq_some_iff.1 hlast
    refine h.tokens_append ?_
    rw [hcount, hscheduled, List.drop_length_add_append, hts, List.length_append,
      List.length_singleton, Nat.add_sub_cancel, List.drop_left]

end Ready

theorem FeedsNext.length_fed {tokenIds : List TokenId} (h : FeedsNext ex c c' tokenIds) :
    (c'.executor.fed c.sequence.seqId).length =
      (c.executor.fed c.sequence.seqId).length + tokenIds.length := by
  rcases h with ⟨rfl, -, hfed⟩ | ⟨slots, cached, -, hfeeds, -⟩
  · rw [hfed]
    rfl
  · rw [hfeeds.fed, Function.update_self, List.length_append, length_fedTokens]

/-- What a batch feeds that does not raise, and how far its sequence is then. -/
theorem Ready.feedsNext (h : Ready ex c batch)
    (hx : c.executeBatch ex.modelExecutor batch = (.ok texts, c')) :
    ∃ tokenIds, FeedsNext ex c c' tokenIds ∧ Feeding c'.executor c'.sequence := by
  obtain ⟨sch, hb⟩ := h.built
  have hown := ex.keepsStates.ownBatch hx hb h.prompt h.live h.follows
  have hout := hown.outputIds
  have hreq := hown.request
  have hid := Sequence.seqId_of_request hreq
  have hcount := h.feeding.count
  unfold BatchContext.executeBatch at hx
  rw [if_neg h.status] at hx
  cases hphase : batch.phase with
  | prefill =>
    rw [hphase] at hx
    obtain ⟨hnext, hsched⟩ := h.feedsNext_prefill hphase hx
    rw [BatchContext.returned_prefill hphase, List.map_nil, List.append_nil,
      h.outputIds_of_prefill hphase] at hout
    rw [h.outputIds_of_prefill hphase] at hcount
    refine ⟨_, hnext, fun _ => hout, ?_, fun hne => absurd hout hne⟩
    rw [hid, hnext.length_fed, hcount, hout, hsched]
    rfl
  | decode =>
    rw [hphase] at hx
    obtain ⟨tokenIds, hnext, hlen, hone, hsched, hpending⟩ := h.feedsNext_decode hphase hx
    have hlen' := congrArg List.length hout
    rw [List.length_append, List.length_map, hone] at hlen'
    refine ⟨tokenIds, hnext, fun hne => ?_, ?_, fun _ => ?_⟩
    · refine absurd ?_ hne
      cases hstate : c'.executor.states c.sequence.seqId with
      | none => rw [ServingStates.ensure_of_none (by rw [hid, hstate])]
      | some state =>
        rw [ServingStates.ensure_of_some (by rw [hid, hstate])]
        exact hpending state hstate
    · rw [hid, hnext.length_fed, hcount, hsched]
      omega
    · have hdone := c.sequence.isPrefillComplete_iff.1
        ((InteractiveScheduler.buildBatch_ok hb).2.1 hphase)
      rw [Sequence.isPrefillComplete_iff, Sequence.numPromptTokens_of_request hreq,
        Sequence.numCachedTokens_of_request hreq, hsched]
      exact hdone

end FlashInferTextExecutor

/-! ## One step -/

namespace RuntimeCore

variable {σ : Type}

/-- No page is twice in the tables of the stored sequences. -/
structure TablesExclusive (rt : RuntimeCore σ) : Prop where
  nodup : ∀ id q, rt.scheduler.get id = some q → q.blockTable.Nodup
  disjoint : ∀ id id' q q', id ≠ id' → rt.scheduler.get id = some q →
    rt.scheduler.get id' = some q' → List.Disjoint q.blockTable q'.blockTable

/-- From `q` to `q'` no batch was executed. -/
structure Unexecuted (q q' : Sequence) : Prop where
  request : q'.request = q.request
  outputIds : q'.outputIds = q.outputIds
  numScheduledTokens : q'.numScheduledTokens = q.numScheduledTokens
  blockTable : q'.blockTable = q.blockTable
  live : q'.isTerminal = false → q.isTerminal = false

theorem Unexecuted.refl (q : Sequence) : Unexecuted q q :=
  ⟨rfl, rfl, rfl, rfl, fun h => h⟩

/-- What one event that does not raise does to the page tables. -/
inductive TableChange (ex : ModelExecutor σ) (rt rt' : RuntimeCore σ) : Prop
  /-- No batch is executed. A new sequence has no pages. -/
  | quiet (hkv : rt'.kvCache = rt.kvCache) (hexec : rt'.executor = rt.executor)
      (hget : ∀ id q', rt'.scheduler.get id = some q' →
        (∃ q, rt.scheduler.get id = some q ∧ Unexecuted q q') ∨
        rt.scheduler.get id = none ∧ q'.outputIds = [] ∧ q'.numScheduledTokens = 0 ∧
          q'.blockTable = []) : TableChange ex rt rt'
  /-- A batch is executed. -/
  | executed (sel : Sequence) (batch : Batch) (texts : List Text) (c : BatchContext σ)
      (hget : rt.scheduler.get sel.seqId = some sel) (hlive : sel.isTerminal = false)
      (hb : rt.scheduler.buildBatch none sel.scheduled = .ok batch)
      (hx : (rt.context sel.scheduled).executeBatch ex batch = (.ok texts, c))
      (h : rt' = rt.setContext c) : TableChange ex rt rt'

variable {ex : ModelExecutor σ} {rt rt' : RuntimeCore σ}

theorem TableChange.put {t u : Sequence} (hget : rt.scheduler.get t.seqId = some u)
    (hu : Unexecuted u t) (hsched : rt'.scheduler = rt.scheduler.put t)
    (hkv : rt'.kvCache = rt.kvCache) (hexec : rt'.executor = rt.executor) :
    TableChange ex rt rt' := by
  refine .quiet hkv hexec fun id q' hq' => ?_
  rw [hsched] at hq'
  rcases get_put_cases hq' with ⟨rfl, rfl⟩ | ⟨-, hq⟩
  · exact .inl ⟨u, hget, hu⟩
  · exact .inl ⟨q', hq, .refl q'⟩

theorem TableChange.same (hsched : rt'.scheduler = rt.scheduler)
    (hkv : rt'.kvCache = rt.kvCache) (hexec : rt'.executor = rt.executor) :
    TableChange ex rt rt' :=
  .quiet hkv hexec fun _ q' hq' => .inl ⟨q', hsched ▸ hq', .refl q'⟩

end RuntimeCore

theorem ServerState.tableChange {σ : Type} {ex : ModelExecutor σ} {s : ServerState σ}
    (hcache : ex.supportsPrefixCache = false) (hs : s.Sound) {e : Event}
    (he : raises ex s e = false) :
    RuntimeCore.TableChange ex s.runtime (s.step ex e).runtime := by
  have hchange := ServerState.step_change ex s hs.runtime.wellFormed e
  cases e with
  | addRequest request =>
    cases hchange with
    | quiet hcore => exact .same hcore.scheduler hcore.kvCache hcore.executor
    | added _ seqId sessionId inputIds m hprompt hid hid' hm hadd hkv hexec =>
      rw [hcache] at hm
      obtain rfl : m = { matchedTokens := 0, pages := [] } := congrArg Prod.fst hm
      refine .quiet hkv hexec fun id q' hq' => ?_
      rw [hadd] at hq'
      rcases RuntimeCore.get_put_cases hq' with ⟨hid₀, rfl⟩ | ⟨-, hq⟩
      · obtain rfl : id = seqId := hid₀
        exact .inr ⟨hs.runtime.get_eq_none hid, rfl, rfl, rfl⟩
      · exact .inl ⟨q', hq, .refl q'⟩
  | cancelRequest requestId sessionId =>
    cases hchange with
    | quiet hcore => exact .same hcore.scheduler hcore.kvCache hcore.executor
    | cancelled q b hget hlive hcore =>
      exact .put (t := RuntimeCore.withAppended q.markCancelled b) hget
        ⟨rfl, rfl, rfl, rfl, fun h => by cases h⟩ hcore.scheduler hcore.kvCache hcore.executor
  | evict n => exact .same rfl rfl rfl
  | tick now => exact .same rfl rfl rfl
  | close seqId =>
    rcases s.close_cases seqId with hc | hc <;>
    · simp only [ServerState.step, hc]
      exact .same rfl rfl rfl
  | resume seqId =>
    have hres := ServerState.resumed ex s hs.runtime.wellFormed seqId
    simp only [raises, ServerState.step] at he ⊢
    generalize s.resume ex seqId = s' at hres he
    cases hres with
    | idle => exact .same rfl rfl rfl
    | emitted => exact .same rfl rfl rfl
    | @drained q hq hdone hloop =>
      obtain rfl : q.seqId = seqId := hs.runtime.wellFormed.seqId_eq _ _ hq
      obtain ⟨b, hcore, -⟩ := RuntimeCore.finishSequence_core _ _ hq
      exact .put (t := RuntimeCore.withAppended q b) hq ⟨rfl, rfl, rfl, rfl, fun h => h⟩
        hcore.scheduler hcore.kvCache hcore.executor
    | @buildFailed q sel e hq hlive hloop hsel hb =>
      obtain ⟨hget, hsl⟩ := hs.runtime.wellFormed.selectNextSequence hsel
      exact .put (t := sel.scheduled) hget ⟨rfl, rfl, rfl, rfl, fun _ => hsl⟩ rfl rfl rfl
    | @executed q sel batch r c hq hlive hloop hsel hb hx =>
      obtain ⟨hget, hsl⟩ := hs.runtime.wellFormed.selectNextSequence hsel
      obtain err | texts := r
      · simp [ServerState.setStream, StreamState.afterBatch, StreamPhase.isRaised] at he
      · exact .executed sel batch texts c hget hsl hb hx rfl

namespace RuntimeCore

variable {σ : Type} {ex : ModelExecutor σ} {rt rt' : RuntimeCore σ}

/-- Pages that a sequence gains are in no table yet. -/
theorem TablesExclusive.grow {q q' : Sequence} {pages : List PageId} (h : rt.TablesExclusive)
    (hp : rt.PagesOwned) (hget : rt.scheduler.get q.seqId = some q) (hid : q'.seqId = q.seqId)
    (hsched : rt'.scheduler = rt.scheduler.put q')
    (hgrow : PagedKVCache.Grows rt.kvCache q.blockTable rt'.kvCache q'.blockTable pages) :
    rt'.TablesExclusive := by
  have hfresh : ∀ id u, rt.scheduler.get id = some u → List.Disjoint u.blockTable pages := by
    intro id u hu p hmem hpage
    exact hgrow.fresh p hpage ((hp.tables p).2 ⟨id, u, hu, hmem⟩)
  have hcases : ∀ {id u}, rt'.scheduler.get id = some u →
      id = q.seqId ∧ u = q' ∨ id ≠ q.seqId ∧ rt.scheduler.get id = some u := by
    intro id u hu
    rw [hsched] at hu
    rw [← hid]
    exact get_put_cases hu
  constructor
  · intro id u hu
    rcases hcases hu with ⟨-, rfl⟩ | ⟨-, hu⟩
    · rw [hgrow.table_eq]
      exact (h.nodup _ q hget).append hgrow.nodup (hfresh _ q hget)
    · exact h.nodup id u hu
  · -- the tables of others have neither the old nor the new pages of the sequence
    have hother : ∀ {id u}, id ≠ q.seqId → rt.scheduler.get id = some u →
        List.Disjoint q'.blockTable u.blockTable := by
      intro id u hne hu
      rw [hgrow.table_eq, List.disjoint_append_left]
      exact ⟨h.disjoint _ id q u hne.symm hget hu, (hfresh id u hu).symm⟩
    intro id id' u u' hne hu hu'
    rcases hcases hu with ⟨rfl, rfl⟩ | ⟨hne₁, hu⟩ <;>
      rcases hcases hu' with ⟨rfl, rfl⟩ | ⟨hne₂, hu'⟩
    · exact absurd rfl hne
    · exact hother hne₂ hu'
    · exact (hother hne₁ hu).symm
    · exact h.disjoint id id' u u' hne hu hu'

theorem TablesExclusive.quiet (h : rt.TablesExclusive)
    (hget : ∀ id q', rt'.scheduler.get id = some q' →
      (∃ q, rt.scheduler.get id = some q ∧ Unexecuted q q') ∨
      rt.scheduler.get id = none ∧ q'.outputIds = [] ∧ q'.numScheduledTokens = 0 ∧
        q'.blockTable = []) : rt'.TablesExclusive := by
  constructor
  · intro id q' hq'
    rcases hget id q' hq' with ⟨q, hq, hu⟩ | ⟨-, -, -, htable⟩
    · exact hu.blockTable ▸ h.nodup id q hq
    · simp [htable]
  · intro id id' q₁' q₂' hne hq₁' hq₂'
    rcases hget id q₁' hq₁' with ⟨q₁, hq₁, hu₁⟩ | ⟨-, -, -, htable⟩
    · rcases hget id' q₂' hq₂' with ⟨q₂, hq₂, hu₂⟩ | ⟨-, -, -, htable⟩
      · rw [hu₁.blockTable, hu₂.blockTable]
        exact h.disjoint id id' q₁ q₂ hne hq₁ hq₂
      · simp [htable]
    · simp [htable]

end RuntimeCore

/-! ## Runs -/

namespace FlashInferTextExecutor

variable {ρ : Type} {ex : FlashInferTextExecutor ρ}

/-- The K/V of the fed tokens is in the slots of their positions, for every sequence. -/
structure Coherent (ex : FlashInferTextExecutor ρ) (rt : RuntimeCore (FlashInferState ρ)) :
    Prop where
  exclusive : rt.TablesExclusive
  mirrors : ∀ id q, rt.scheduler.get id = some q → ex.Mirrors rt.kvCache rt.executor q
  feeding : ∀ id q, rt.scheduler.get id = some q → q.isTerminal = false → Feeding rt.executor q
  unfed : ∀ id, rt.scheduler.get id = none → rt.executor.fed id = []

theorem Mirrors.of_unfed {kv : PagedKVCache} {st : FlashInferState ρ} {q : Sequence}
    (h : st.fed q.seqId = []) : ex.Mirrors kv st q := by
  constructor
  · rw [h]
    exact List.nil_prefix
  · intro p x hx
    rw [h] at hx
    cases hx

theorem Feeding.congr {st st' : FlashInferState ρ} {q q' : Sequence} (h : Feeding st q)
    (hreq : q'.request = q.request) (hout : q'.outputIds = q.outputIds)
    (hsched : q'.numScheduledTokens = q.numScheduledTokens)
    (hstates : st'.states q.seqId = st.states q.seqId) (hfed : st'.fed q.seqId = st.fed q.seqId) :
    Feeding st' q' := by
  constructor
  · rw [ServingStates.ensure_congr hreq hstates, hout]
    exact h.pending
  · rw [Sequence.seqId_of_request hreq, hfed, hsched, hout]
    exact h.count
  · rw [hout, Sequence.isPrefillComplete_iff, Sequence.numCachedTokens_of_request hreq, hsched,
      Sequence.numPromptTokens_of_request hreq, ← Sequence.isPrefillComplete_iff]
    exact h.complete

/-- What the mirror rests on, in every state of a run without exceptions. -/
structure Mirroring (ex : FlashInferTextExecutor ρ) (s : ServerState (FlashInferState ρ)) :
    Prop where
  sound : s.Sound
  owned : s.runtime.PagesOwned
  inStep : InStep (fun st : FlashInferState ρ => st.states) s.runtime
  counts : CountsInStep (fun st : FlashInferState ρ => st.states) s.runtime
  coherent : ex.Coherent s.runtime

section

variable {s : ServerState (FlashInferState ρ)} {e : Event}

/-- The next batch of a stored sequence finds it ready. -/
theorem Mirroring.ready (h : ex.Mirroring s) {sel : Sequence} {batch : Batch}
    (hget : s.runtime.scheduler.get sel.seqId = some sel) (hlive : sel.isTerminal = false)
    (hb : s.runtime.scheduler.buildBatch none sel.scheduled = .ok batch) :
    Ready ex (s.runtime.context sel.scheduled) batch where
  built := ⟨_, hb⟩
  live := rfl
  prompt := h.inStep.prompt _ sel hget
  uncached := h.counts.uncached _ sel hget
  progress := h.counts.progress _ sel hget
  follows := (h.inStep.live _ sel hget hlive).congr rfl rfl rfl
  counts := (h.counts.live _ sel hget hlive).congr rfl rfl rfl
  mirrors := (h.coherent.mirrors _ sel hget).congr [] rfl rfl
    (List.append_nil _).symm ⟨[], (List.append_nil _).symm⟩ rfl fun _ _ _ _ => rfl
  feeding := (h.coherent.feeding _ sel hget hlive).congr rfl rfl rfl rfl rfl

theorem Coherent.quiet {rt rt' : RuntimeCore (FlashInferState ρ)} (h : ex.Coherent rt)
    (hwf' : rt'.scheduler.WellFormed) (hkv : rt'.kvCache = rt.kvCache)
    (hexec : rt'.executor = rt.executor)
    (hnone : ∀ id, rt'.scheduler.get id = none → rt.scheduler.get id = none)
    (hget : ∀ id q', rt'.scheduler.get id = some q' →
      (∃ q, rt.scheduler.get id = some q ∧ RuntimeCore.Unexecuted q q') ∨
      rt.scheduler.get id = none ∧ q'.outputIds = [] ∧ q'.numScheduledTokens = 0 ∧
        q'.blockTable = []) : ex.Coherent rt' := by
  refine ⟨h.exclusive.quiet hget, fun id q' hq' => ?_, fun id q' hq' hlive => ?_, fun id hid => ?_⟩
  · rw [hkv, hexec]
    rcases hget id q' hq' with ⟨q, hq, hu⟩ | ⟨hid, -⟩
    · refine (h.mirrors id q hq).congr [] hu.request rfl ?_ ⟨[], ?_⟩ rfl
        fun _ _ _ _ => rfl
      · rw [hu.blockTable, List.append_nil]
      · rw [hu.outputIds, List.append_nil]
    · refine .of_unfed ?_
      rw [hwf'.seqId_eq _ _ hq']
      exact h.unfed id hid
  · rw [hexec]
    rcases hget id q' hq' with ⟨q, hq, hu⟩ | ⟨hid, hout, hsched, -⟩
    · exact (h.feeding id q hq (hu.live hlive)).congr hu.request hu.outputIds
        hu.numScheduledTokens rfl rfl
    · have hid' : q'.seqId = id := hwf'.seqId_eq _ _ hq'
      refine ⟨fun _ => hout, ?_, fun hne => absurd hout hne⟩
      rw [hid', h.unfed id hid, hout, hsched]
      rfl
  · rw [hexec]
    exact h.unfed id (hnone id hid)

/-- Executing a batch keeps the mirror of every sequence. -/
theorem Mirroring.executed (h : ex.Mirroring s) (hcalls : ex.CallsAttention) {sel : Sequence}
    {batch : Batch} {texts : List Text} {c : BatchContext (FlashInferState ρ)}
    (hget : s.runtime.scheduler.get sel.seqId = some sel) (hlive : sel.isTerminal = false)
    (hb : s.runtime.scheduler.buildBatch none sel.scheduled = .ok batch)
    (hx : (s.runtime.context sel.scheduled).executeBatch ex.modelExecutor batch = (.ok texts, c)) :
    ex.Coherent (s.runtime.setContext c) := by
  have hexec := BatchContext.executed_of_eq hx
  have hid : c.sequence.seqId = sel.seqId := hexec.seqId
  have hready := h.ready hget hlive hb
  obtain ⟨tokenIds, hnext, hfeeding⟩ := hready.feedsNext hx
  have hout := (ex.keepsStates.ownBatch hx hb hready.prompt rfl hready.follows).outputIds
  obtain ⟨pages, hgrow⟩ := hexec.kvSteps.grows h.owned.consistent
  have hconfig : c.kvCache.config = s.runtime.kvCache.config := hgrow.config
  have hexclusive : (s.runtime.setContext c).TablesExclusive :=
    h.coherent.exclusive.grow h.owned hget hid rfl hgrow
  have hself : (s.runtime.setContext c).scheduler.get sel.seqId = some c.sequence := by
    rw [← hid]
    exact InteractiveScheduler.get_put c.sequence
  have hwf := h.sound.runtime.wellFormed
  -- nothing is fed for the others
  have hfed : ∀ id, id ≠ sel.seqId → c.executor.fed id = s.runtime.executor.fed id := by
    intro id hne
    rcases hnext with ⟨-, -, hfed⟩ | ⟨slots, cached, -, hfeeds, -⟩
    · exact congrFun hfed id
    · rw [hfeeds.fed]
      exact Function.update_of_ne hne _ _
  refine ⟨hexclusive, fun id q' hq' => ?_, fun id q' hq' hl => ?_, fun id hnone => ?_⟩
  · rcases RuntimeCore.get_put_cases hq' with ⟨rfl, rfl⟩ | ⟨hne, hq⟩
    · have hm := hready.mirrors
      rcases hnext with ⟨-, htensors, hfed⟩ | ⟨slots, cached, hne, hfeeds, hslots, htokens⟩
      · exact hm.congr pages hexec.request hgrow.config hgrow.table_eq ⟨_, hout⟩ (congrFun hfed _)
          fun _ _ _ _ => by rw [← htensors]; rfl
      · refine hm.fed hcalls hfeeds hne hexec.request hgrow.config hgrow.table_eq
          (hexclusive.nodup _ _ hself) hslots htokens ⟨_, hout⟩
    · rw [hid] at hne
      have hqid : q'.seqId = id := hwf.seqId_eq _ _ hq
      refine (h.coherent.mirrors id q' hq).congr [] rfl hgrow.config
        (List.append_nil _).symm ⟨[], (List.append_nil _).symm⟩ (hfed _ (hqid ▸ hne)) ?_
      intro p slot layer hslot
      rcases hnext with ⟨-, htensors, -⟩ | ⟨slots, cached, hne', hfeeds, hslots, -⟩
      · exact congrArg (fun t : KVTensors ρ => t.row _ layer slot) htensors
      · rw [← hconfig]
        refine hfeeds.row_old hcalls ?_ hne' (fun hmem => ?_) layer
        · simpa using PagedKVCache.slotMapping_length hslots
        · -- no slot of another table is written to
          obtain ⟨p', -, hs'⟩ := PagedKVCache.mem_slotMapping hslots hmem
          exact PagedKVCache.slotOf_disjoint hconfig
            (hexclusive.disjoint id sel.seqId q' c.sequence hne
              ((InteractiveScheduler.get_put_of_ne (hid ▸ hne)).trans hq) hself) hslot hs'
  · rcases RuntimeCore.get_put_cases hq' with ⟨rfl, rfl⟩ | ⟨hne, hq⟩
    · exact hfeeding
    · rw [hid] at hne
      have hqid : q'.seqId = id := hwf.seqId_eq _ _ hq
      refine (h.coherent.feeding id q' hq hl).congr rfl rfl rfl ?_ (hfed _ (hqid ▸ hne))
      exact ex.keepsStates.executed_other hexec (hqid ▸ hne)
  · have hold := RuntimeCore.get_none_of_put hnone
    refine (hfed id ?_).trans (h.coherent.unfed id hold)
    rintro rfl
    rw [hget] at hold
    cases hold

theorem Mirroring.step (h : ex.Mirroring s) (hcalls : ex.CallsAttention)
    (he : raises ex.modelExecutor s e = false) : ex.Mirroring (s.step ex.modelExecutor e) := by
  have hwf := h.sound.runtime.wellFormed
  have hchange := ServerState.step_change ex.modelExecutor s hwf e
  have hsound : (s.step ex.modelExecutor e).Sound := h.sound.step e
  refine ⟨hsound, (hchange.pages h.sound.runtime h.owned).1, h.inStep.step ex.keepsStates h.sound e,
    h.counts.step h.inStep ex.keepsStates h.sound he, ?_⟩
  cases ServerState.tableChange rfl h.sound he with
  | quiet hkv hexec hget =>
    exact h.coherent.quiet hsound.runtime.wellFormed hkv hexec (fun _ => hchange.get_none) hget
  | executed sel batch texts c hget hlive hb hx hrt =>
    rw [hrt]
    exact h.executed hcalls hget hlive hb hx

/-- What is read back for the tokens of a sequence that were fed so far. -/
structure ReadsBack (ex : FlashInferTextExecutor ρ) (rt : RuntimeCore (FlashInferState ρ))
    (q : Sequence) : Prop where
  tokens : (rt.executor.fed q.seqId).map FedToken.tokenId <+: q.inputIds ++ q.outputIds
  gathered : ∀ (p : ℕ) x, (rt.executor.fed q.seqId)[p]? = some x →
    ∃ slots, rt.kvCache.slotMapping q.blockTable [p] = .ok slots ∧
      ∀ layer < ex.tensors.numLayers,
        rt.executor.tensors.gatherLayerTokens ex.tensors rt.kvCache.config layer slots =
          .ok ([(x.row layer).1], [(x.row layer).2])

theorem Mirroring.readsBack (h : ex.Mirroring s) {id : SeqId} {q : Sequence}
    (hget : s.runtime.scheduler.get id = some q) : ex.ReadsBack s.runtime q := by
  have hm := h.coherent.mirrors id q hget
  refine ⟨hm.tokens, fun p x hx => ?_⟩
  obtain ⟨slot, hslot, hrow⟩ := hm.rows p x hx
  refine ⟨[slot], ?_, fun layer hlayer => ?_⟩
  · rw [PagedKVCache.slotMapping, List.mapM_cons, hslot]
    rfl
  · -- the pages of a table exist
    have hpage := List.mem_of_getElem? (PagedKVCache.slotOf_page hslot).1
    have hused := (h.owned.tables _).2 ⟨id, q, hget, hpage⟩
    have hlt := (h.owned.consistent.cover _).2 (.inr hused)
    rw [h.owned.numPages, Nat.div_lt_iff_lt_mul s.runtime.kvCache.config.pageSize_pos] at hlt
    have hbound : ¬∃ slot' ∈ [slot],
        s.runtime.kvCache.config.numPages * s.runtime.kvCache.config.pageSize ≤ slot' := by
      simpa using hlt
    rw [KVTensors.gatherLayerTokens, if_neg (by omega), if_neg hbound, Int.toNat_natCast,
      ← hrow layer hlayer]
    rfl

end

/-- In every state of every run without exceptions, the cache gives back the K/V that the model
made for each token fed so far, for every sequence. -/
theorem readsBack_run (ex : FlashInferTextExecutor ρ) (hcalls : ex.CallsAttention)
    (config : RuntimeConfig) (tensors : KVTensors ρ) (rng : ℕ) {es : List Event}
    (hrun : Transition.Along (ServerState.step ex.modelExecutor)
      (fun s e => raises ex.modelExecutor s e = false)
      (ServerState.init config { rng, tensors }) es) {id : SeqId} {q : Sequence}
    (hget : (Transition.run (ServerState.step ex.modelExecutor)
      (ServerState.init config { rng, tensors }) es).runtime.scheduler.get id = some q) :
    ex.ReadsBack (Transition.run (ServerState.step ex.modelExecutor)
      (ServerState.init config { rng, tensors }) es).runtime q := by
  have hinit : ex.Mirroring (ServerState.init config { rng, tensors }) := by
    refine ⟨ServerState.sound_init config _, RuntimeCore.pagesOwned_create config _,
      inStep_init (fun _ => rfl) config, countsInStep_init _ _ config, ?_, ?_, ?_, fun _ _ => rfl⟩
    · constructor <;> simp
    all_goals simp
  exact (Transition.run_invariant (fun _ _ h he => h.step hcalls he) hinit hrun).readsBack hget

/-- The counting model with two layers. The row of a token is the token itself, and the callback
is given those of the whole history. -/
def historyExecutor : FlashInferTextExecutor TokenId where
  config := {}
  tokenizer := charTokenizer
  torch := TransformersTextExecutor.countingExecutor.torch
  model := TransformersTextExecutor.countingModel
  tensors := { numLayers := 2, numKvHeads := 1, headDim := 4 }
  attention cached tokenIds _ := (⟨1, 1, 4, cached ++ tokenIds⟩, ⟨1, 1, 4, cached ++ tokenIds⟩)
  produced _ tokenIds _ i := (tokenIds.getD i 0, tokenIds.getD i 0)

theorem historyExecutor_callsAttention : historyExecutor.CallsAttention := by
  have hrows : ∀ tokenIds : List TokenId,
      (List.range tokenIds.length).map (fun i => tokenIds.getD i 0) = tokenIds := by
    intro tokenIds
    refine List.ext_getElem (by simp) fun i h h' => ?_
    simp [List.getD_eq_getElem?_getD, h']
  constructor <;>
  · intro cached tokenIds layer _
    refine ⟨rfl, rfl, rfl, cached, ?_⟩
    rw [List.map_map]
    exact congrArg (cached ++ ·) (hrows tokenIds).symm

/-- The state before any request, with zeros in the cache. -/
def historyInit : ServerState (FlashInferState TokenId) :=
  ServerState.init ServerState.smallConfig
    { rng := 0, tensors := ⟨fun _ _ _ => 0, fun _ _ _ => 0, 0, 0⟩ }

/-- Two sequences, whose prefills and decodes interleave. -/
theorem readsBack_twoRequestsRun :
    ∃ q, (Transition.run (ServerState.step historyExecutor.modelExecutor) historyInit
        TransformersTextExecutor.twoRequestsRun.dropLast).runtime.scheduler.get 0 = some q ∧
      historyExecutor.ReadsBack (Transition.run (ServerState.step historyExecutor.modelExecutor)
        historyInit TransformersTextExecutor.twoRequestsRun.dropLast).runtime q ∧
      ((Transition.run (ServerState.step historyExecutor.modelExecutor) historyInit
        TransformersTextExecutor.twoRequestsRun.dropLast).runtime.executor.fed 0).map
          FedToken.tokenId = [104, 105, 2] := by
  have hrun : Transition.Along (ServerState.step historyExecutor.modelExecutor)
      (fun s e => raises historyExecutor.modelExecutor s e = false) historyInit
      TransformersTextExecutor.twoRequestsRun.dropLast := by decide +kernel
  have hget : ((Transition.run (ServerState.step historyExecutor.modelExecutor) historyInit
      TransformersTextExecutor.twoRequestsRun.dropLast).runtime.scheduler.get 0).isSome := by
    decide +kernel
  obtain ⟨q, hq⟩ := Option.isSome_iff_exists.1 hget
  exact ⟨q, hq, readsBack_run historyExecutor historyExecutor_callsAttention
    ServerState.smallConfig _ 0 hrun hq, by decide +kernel⟩

end FlashInferTextExecutor

end SoloRT
