import SoloRT.KVMirror
import SoloRT.PrefixSharing

/-!
# The positions of a batch

A batch is handed to the executor with a position and a physical slot for each of its tokens.
`BatchBuilder` counts the positions, and the runtime maps them to slots (`_attach_kv_metadata`).

The positions of a prefill chunk start where its tokens do, and the chunk is stored at the slots
of its batch. A decode batch has the last token of its sequence, with the position after it,
`num_prompt_tokens + len(output_ids)`. The write plan of `_decode_next` starts one earlier, so the
token is not stored at the slot of the batch. Hence the prefill chunks are the only batches that
are coherent (`coherent_batch_iff`), for every executor and with any cached prefix.
-/

namespace SoloRT

/-! ## Positions -/

/-- Each token of the batch is the token of the sequence at its position. -/
def Batch.Positioned (batch : Batch) (q : Sequence) : Prop :=
  ∀ (j : ℕ) tokenId, batch.inputIds[j]? = some tokenId → ∃ position,
    batch.positions[j]? = some position ∧ (q.inputIds ++ q.outputIds)[position]? = some tokenId

/-- The next tokens of the prompt are at the positions of a prefill batch. -/
theorem BatchBuilder.positioned_buildPrefill {q : Sequence} {chunkTokens : List TokenId}
    (h : chunkTokens <+: q.inputIds.drop (q.numCachedTokens + q.numScheduledTokens)) :
    (buildPrefill q chunkTokens).Positioned q := by
  intro j tokenId hj
  have hlt : j < chunkTokens.length := (List.getElem?_eq_some_iff.1 hj).1
  have htoken := RuntimeCore.getElem?_of_isPrefix h hj
  rw [List.getElem?_drop] at htoken
  refine ⟨q.numCachedTokens + q.numScheduledTokens + j, ?_, ?_⟩
  · show (List.range' _ chunkTokens.length)[j]? = _
    rw [List.getElem?_range' hlt, Nat.one_mul]
  · rw [List.getElem?_append_left (List.getElem?_eq_some_iff.1 htoken).1]
    exact htoken

namespace InteractiveScheduler

variable {sch : InteractiveScheduler} {budget : Option ℕ} {q : Sequence} {batch : Batch}

theorem positioned_of_prefill (hb : sch.buildBatch budget q = .ok batch)
    (hc : q.isPrefillComplete = false) : batch.Positioned q := by
  rw [buildBatch, if_neg (by rw [hc]; exact Bool.false_ne_true)] at hb
  cases hb
  exact BatchBuilder.positioned_buildPrefill (List.take_prefix _ _)

/-- A decode batch has the position after the last token. -/
theorem not_positioned_of_decode (hb : sch.buildBatch budget q = .ok batch)
    (hc : q.isPrefillComplete = true) (hprompt : q.numPromptTokens = q.inputIds.length) :
    ¬batch.Positioned q := by
  intro h
  rw [buildBatch, if_pos hc, BatchBuilder.buildDecode] at hb
  split at hb
  · cases hb
  · rename_i tokenId hlast
    cases hb
    obtain ⟨position, hpos, htoken⟩ := h 0 tokenId rfl
    obtain rfl := Option.some.inj hpos
    have hlt := (List.getElem?_eq_some_iff.1 htoken).1
    rw [List.length_append, hprompt] at hlt
    omega

theorem positioned_iff (hb : sch.buildBatch budget q = .ok batch)
    (hprompt : q.numPromptTokens = q.inputIds.length) :
    batch.Positioned q ↔ q.isPrefillComplete = false := by
  refine ⟨fun h => ?_, positioned_of_prefill hb⟩
  rw [← Bool.not_eq_true]
  exact fun hc => not_positioned_of_decode hb hc hprompt h

end InteractiveScheduler

/-! ## Slots -/

namespace FlashInferTextExecutor

variable {ρ : Type} (ex : FlashInferTextExecutor ρ)

/-- The environment after the forward call of a batch. -/
def forward (q : Sequence) (batch : Batch) (env : Env ρ) : Env ρ :=
  match batch.phase with
  | .prefill => (ex.forwardPrefill q batch env).2
  | .decode => (ex.forwardDecode q batch env).2

/-- The forward call of the batch leaves the K/V of its tokens in the slots of the batch. -/
def StoresAtSlots (q : Sequence) (batch : Batch) (env : Env ρ) : Prop :=
  ∃ slots, batch.slotMapping = some slots ∧ slots.length = batch.inputIds.length ∧
    ∀ (j slot : ℕ), slots[j]? = some slot → ∀ layer < ex.tensors.numLayers,
      (ex.forward q batch env).state.tensors.row env.kvCache.config.pageSize layer slot =
        ex.produced (cachedTokens q env) batch.inputIds layer j

variable {ex}

/-- A prefill batch with different slots is stored at them. -/
theorem storesAtSlots_of_prefill (hcalls : ex.CallsAttention) {q : Sequence} {batch : Batch}
    {env : Env ρ} (hphase : batch.phase = .prefill) (hne : batch.inputIds ≠ []) {slots : List ℕ}
    (hslots : batch.slotMapping = some slots) (hlen : slots.length = batch.inputIds.length)
    (hnd : slots.Nodup) : ex.StoresAtSlots q batch env := by
  refine ⟨slots, hslots, hlen, fun j slot hslot layer hlayer => ?_⟩
  have hfeeds := (forwardPrefill_feeds ex q batch env hne).1
  rw [hslots, Option.getD_some] at hfeeds
  have hj : j < batch.inputIds.length := by
    rw [← hlen]
    exact (List.getElem?_eq_some_iff.1 hslot).1
  rw [forward, hphase]
  have hfed : (ex.fedTokens (cachedTokens q env) batch.inputIds)[j]? =
      some ⟨batch.inputIds[j], fun l => ex.produced (cachedTokens q env) batch.inputIds l j⟩ := by
    rw [fedTokens, List.getElem?_mapIdx, List.getElem?_eq_getElem hj]
    rfl
  exact hfeeds.row_new hcalls hlen hne hnd hslot hfed hlayer

end FlashInferTextExecutor

namespace RuntimeCore

variable {σ : Type} {ex : ModelExecutor σ} {rt rt' : RuntimeCore σ}

/-- The batch of the sequence that is selected. -/
def Built (rt : RuntimeCore σ) (sel : Sequence) (batch : Batch) : Prop :=
  rt.scheduler.selectNextSequence = some sel ∧
    ∃ budget, rt.scheduler.buildBatch budget sel.scheduled = .ok batch

/-- The batch that is handed to the executor for the selected sequence, in the context of the
call. -/
def Handed (ex : ModelExecutor σ) (rt : RuntimeCore σ) (sel : Sequence) (batch : Batch)
    (c : BatchContext σ) : Prop :=
  ∃ built, rt.Built sel built ∧ (rt.context sel.scheduled).attachKv ex built
    ((rt.context sel.scheduled).tokensAfter built) = (.ok batch, c)

/-- The batch of the next step, with its context. -/
def nextHanded (ex : ModelExecutor σ) (rt : RuntimeCore σ) :
    Option (Sequence × Batch × BatchContext σ) :=
  rt.scheduler.selectNextSequence.bind fun sel =>
    match rt.scheduler.buildBatch none sel.scheduled with
    | .error _ => none
    | .ok built =>
      match (rt.context sel.scheduled).attachKv ex built
        ((rt.context sel.scheduled).tokensAfter built) with
      | (.error _, _) => none
      | (.ok batch, c) => some (sel, batch, c)

theorem handed_of_nextHanded {sel : Sequence} {batch : Batch} {c : BatchContext σ}
    (h : rt.nextHanded ex = some (sel, batch, c)) : rt.Handed ex sel batch c := by
  obtain ⟨sel', hsel, h⟩ := Option.bind_eq_some_iff.1 h
  cases hb : rt.scheduler.buildBatch none sel'.scheduled with
  | error e =>
    rw [hb] at h
    cases h
  | ok built =>
    rw [hb] at h
    dsimp only at h
    cases hattach : (rt.context sel'.scheduled).attachKv ex built
      ((rt.context sel'.scheduled).tokensAfter built) with
    | mk r c' =>
      rw [hattach] at h
      obtain e | batch' := r
      · cases h
      · cases h
        exact ⟨built, ⟨hsel, none, hb⟩, hattach⟩

/-- The prompt of every sequence is counted. -/
def PromptsCounted (rt : RuntimeCore σ) : Prop :=
  ∀ id q, rt.scheduler.get id = some q → q.numPromptTokens = q.inputIds.length

theorem Change.promptsCounted {e : Event} (h : Change ex rt rt' e) (hrt : rt.Sound)
    (hp : rt.PromptsCounted) : rt'.PromptsCounted := by
  intro id q' hq'
  rcases h.get_cases hrt hq' with ⟨q, hq, hreq⟩ | ⟨-, request, sessionId, inputIds, m, -, rfl⟩
  · rw [Sequence.numPromptTokens_of_request hreq, Sequence.inputIds_of_request hreq]
    exact hp id q hq
  · rfl

theorem Built.positioned_iff {sel : Sequence} {batch : Batch} (h : rt.Built sel batch)
    (hrt : rt.Sound) (hp : rt.PromptsCounted) :
    batch.Positioned sel.scheduled ↔ sel.isPrefillComplete = false := by
  obtain ⟨hsel, budget, hb⟩ := h
  exact InteractiveScheduler.positioned_iff hb
    (hp sel.seqId sel (hrt.wellFormed.selectNextSequence hsel).1)

/-- The table of a stored sequence has no page twice. -/
theorem Sharing.nodup (h : rt.Sharing) {id : SeqId} {q : Sequence}
    (hget : rt.scheduler.get id = some q) : q.blockTable.Nodup := by
  refine List.nodup_iff_injective_getElem.2 fun i j hij => Fin.ext ?_
  refine h.index id id q q i j q.blockTable[i] hget hget (List.getElem?_eq_getElem i.2) ?_
  rw [List.getElem?_eq_getElem j.2]
  exact congrArg some hij.symm

end RuntimeCore

namespace FlashInferTextExecutor

variable {ρ : Type} {ex : FlashInferTextExecutor ρ} {rt : RuntimeCore (FlashInferState ρ)}

/-- The prefill batch of the selected sequence is stored at its slots. -/
theorem storesAtSlots_of_built (hcalls : ex.CallsAttention) (hsh : rt.Sharing) (hrt : rt.Sound)
    {sel : Sequence} {batch : Batch} {c : BatchContext (FlashInferState ρ)}
    (h : rt.Handed ex.modelExecutor sel batch c) (hc : sel.isPrefillComplete = false) :
    ex.StoresAtSlots c.sequence batch c.env := by
  obtain ⟨built, ⟨hsel, budget, hb⟩, hattach⟩ := h
  have hget := (hrt.wellFormed.selectNextSequence hsel).1
  have hprompt : sel.scheduled.numPromptTokens = sel.scheduled.inputIds.length :=
    (hsh.filled _ sel hget).2
  have hphase : built.phase = .prefill := by
    cases hphase : built.phase with
    | prefill => rfl
    | decode =>
      have hdone : sel.isPrefillComplete = true :=
        (InteractiveScheduler.buildBatch_ok hb).2.1 hphase
      rw [hc] at hdone
      cases hdone
  obtain ⟨hpositions, hpos, -⟩ := PrefillMachine.buildBatch_chunk hb hphase hprompt
  obtain ⟨slots, hslots, hmapping⟩ := BatchContext.attachKv_slots rfl hattach
  rcases BatchContext.attachKv_cases ex.modelExecutor (rt.context sel.scheduled) built
    ((rt.context sel.scheduled).tokensAfter built) with ⟨e, env, -, -, -, he⟩ | ⟨b, env, ha, he⟩ <;>
    rw [he] at hattach <;> cases hattach
  obtain ⟨pages, hgrow⟩ := ha.kv.grows hsh.owned.consistent
  have hnd : env.blockTable.Nodup := by
    have htable : env.blockTable = sel.blockTable ++ pages := hgrow.table_eq
    rw [htable]
    refine (hsh.nodup hget).append hgrow.nodup fun p hp hpage => ?_
    exact hgrow.fresh p hpage ((hsh.owned.tables p).2 ⟨_, sel, hget, hp⟩)
  rw [hpositions] at hmapping
  refine storesAtSlots_of_prefill hcalls (ha.phase.trans hphase) ?_ hslots ?_
    (PagedKVCache.slotMapping_nodup hnd hmapping)
  · rw [ha.inputIds]
    exact List.ne_nil_of_length_pos hpos
  · rw [ha.inputIds, PagedKVCache.slotMapping_length hmapping, List.length_range']

end FlashInferTextExecutor

/-! ## Runs -/

namespace ServerState

theorem positioned_iff_run {σ : Type} (ex : ModelExecutor σ) (config : RuntimeConfig)
    (executor : σ) (es : List Event) {sel : Sequence} {batch : Batch}
    (h : (Transition.run (step ex) (init config executor) es).runtime.Built sel batch) :
    batch.Positioned sel.scheduled ↔ sel.isPrefillComplete = false := by
  obtain ⟨hs, hp⟩ := Transition.run_invariant'
    (I := fun s : ServerState σ => s.Sound ∧ s.runtime.PromptsCounted)
    (fun s e ⟨hs, hp⟩ =>
      ⟨hs.step e, (step_change ex s hs.runtime.wellFormed e).promptsCounted hs.runtime hp⟩)
    es ⟨sound_init config executor, by simp [RuntimeCore.PromptsCounted]⟩
  exact h.positioned_iff hs.runtime hp

/-- Without a prefix cache every run keeps the pages of its sequences apart. -/
theorem sharing_run {σ : Type} (ex : ModelExecutor σ) (hcache : ex.supportsPrefixCache = false)
    (config : RuntimeConfig) (executor : σ) (es : List Event) :
    (Transition.run (step ex) (init config executor) es).Sound ∧
      (Transition.run (step ex) (init config executor) es).runtime.Sharing := by
  refine Transition.run_invariant' (I := fun s : ServerState σ => s.Sound ∧ s.runtime.Sharing)
    (fun s e ⟨hs, hsh⟩ => ⟨hs.step e, ?_⟩) es
    ⟨sound_init config executor, RuntimeCore.sharing_create config executor⟩
  refine (step_change ex s hs.runtime.wellFormed e).sharing hs.runtime hsh ?_
  intro request _ inputIds n e k p hsupports
  rw [hcache] at hsupports
  cases hsupports

/-- In every state of every run, the batch of the selected sequence is coherent exactly when it is
a prefill chunk. The slots are those of the executor that stores K/V. -/
theorem coherent_batch_iff {σ ρ : Type} (ex : ModelExecutor σ) (flash : FlashInferTextExecutor ρ)
    (hcalls : flash.CallsAttention) (config : RuntimeConfig) (executor : σ)
    (tensors : KVTensors ρ) (rng : ℕ) (es : List Event) :
    (∀ sel batch, (Transition.run (step ex) (init config executor) es).runtime.Built sel batch →
      (batch.Positioned sel.scheduled ↔ sel.isPrefillComplete = false)) ∧
    ∀ sel batch c, (Transition.run (step flash.modelExecutor) (init config { rng, tensors })
        es).runtime.Handed flash.modelExecutor sel batch c →
      (batch.Positioned c.sequence ∧ flash.StoresAtSlots c.sequence batch c.env ↔
        sel.isPrefillComplete = false) := by
  refine ⟨fun sel batch h => positioned_iff_run ex config executor es h, fun sel batch c h => ?_⟩
  obtain ⟨hs, hsh⟩ := sharing_run flash.modelExecutor rfl config { rng, tensors } es
  have hstores := FlashInferTextExecutor.storesAtSlots_of_built hcalls hsh hs.runtime h
  obtain ⟨built, hbuilt, hattach⟩ := h
  have hiff := positioned_iff_run flash.modelExecutor config { rng, tensors } es hbuilt
  have hsame : batch.Positioned c.sequence ↔ built.Positioned sel.scheduled := by
    rcases BatchContext.attachKv_cases flash.modelExecutor _ built _ with
      ⟨e, env, -, -, -, he⟩ | ⟨b, env, ha, he⟩ <;> rw [he] at hattach <;> cases hattach
    rw [Batch.Positioned, ha.inputIds, ha.positions]
    rfl
  rw [hsame]
  exact ⟨fun h => hiff.1 h.1, fun hc => ⟨hiff.2 hc, hstores hc⟩⟩

open FlashInferTextExecutor in
/-- The first batch of a request is coherent. -/
theorem coherent_batch_first : ∃ sel batch c,
    (historyInit.step historyExecutor.modelExecutor
      (.addRequest (shortRequest "a"))).runtime.Handed historyExecutor.modelExecutor sel batch c ∧
    batch.Positioned c.sequence ∧ historyExecutor.StoresAtSlots c.sequence batch c.env ∧
    batch.inputIds = [104, 105] ∧ batch.positions = [0, 1] := by
  have hnext : ((historyInit.step historyExecutor.modelExecutor
      (.addRequest (shortRequest "a"))).runtime.nextHanded historyExecutor.modelExecutor).map
        (fun (sel, batch, c) => (sel.isPrefillComplete, batch.inputIds, batch.positions)) =
      some (false, [104, 105], [0, 1]) := by decide +kernel
  obtain ⟨⟨sel, batch, c⟩, hnext, hfields⟩ := Option.map_eq_some_iff.1 hnext
  simp only [Prod.mk.injEq] at hfields
  obtain ⟨hc, hids, hpos⟩ := hfields
  have hhanded := RuntimeCore.handed_of_nextHanded hnext
  obtain ⟨hp, hs⟩ := ((coherent_batch_iff historyExecutor.modelExecutor historyExecutor
    historyExecutor_callsAttention smallConfig { tensors := ⟨fun _ _ _ => 0, fun _ _ _ => 0, 0, 0⟩ }
    _ 0 [.addRequest (shortRequest "a")]).2 sel batch c hhanded).2 hc
  exact ⟨sel, batch, c, hhanded, hp, hs, hids, hpos⟩

/-- The first decode batch has the last token of the prompt, which is at position 1, with the
position 2. -/
theorem not_positioned_run : ¬∀ (σ : Type) (ex : ModelExecutor σ) (config : RuntimeConfig)
    (executor : σ) (es : List Event) (sel : Sequence) (batch : Batch), sel.inputIds ≠ [] →
    (Transition.run (step ex) (init config executor) es).runtime.Built sel batch →
    batch.Positioned sel.scheduled := by
  intro h
  have hspec := h Unit (deterministicExecutor false) smallConfig ()
    [.addRequest (shortRequest "a"), .resume 0]
  generalize hs : Transition.run (step (deterministicExecutor false)) (init smallConfig ())
    [.addRequest (shortRequest "a"), .resume 0] = s at hspec
  have hsel : s.runtime.scheduler.selectNextSequence.map (fun sel =>
      (sel.inputIds, sel.outputIds, (s.runtime.scheduler.buildBatch none sel.scheduled).toOption.map
        fun batch => (batch.inputIds, batch.positions))) =
      some ([104, 105], [], some ([105], [2])) := by
    subst hs
    decide +kernel
  obtain ⟨sel, hsel, hfields⟩ := Option.map_eq_some_iff.1 hsel
  simp only [Prod.mk.injEq] at hfields
  obtain ⟨hin, hout, hbatch⟩ := hfields
  obtain ⟨batch, hb, hfields⟩ := Option.map_eq_some_iff.1 hbatch
  simp only [Prod.mk.injEq] at hfields
  obtain ⟨hids, hpos⟩ := hfields
  have hb : s.runtime.scheduler.buildBatch none sel.scheduled = .ok batch := by
    cases hr : s.runtime.scheduler.buildBatch none sel.scheduled with
    | error e => rw [hr] at hb; cases hb
    | ok b => rw [hr] at hb; exact congrArg _ (Option.some.inj hb)
  obtain ⟨position, hp, htoken⟩ := hspec sel batch (by simp [hin]) ⟨hsel, none, hb⟩ 0 105
    (by rw [hids]; rfl)
  rw [hpos] at hp
  obtain rfl := Option.some.inj hp
  have hseq : sel.scheduled.inputIds ++ sel.scheduled.outputIds = [104, 105] := by
    show sel.inputIds ++ sel.outputIds = _
    rw [hin, hout]
    rfl
  rw [hseq] at htoken
  cases htoken

end ServerState

end SoloRT
