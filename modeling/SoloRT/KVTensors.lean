import SoloRT.PageLayout

/-!
# The tensors of the paged KV cache

The data plane of `cache/kv_cache.py`. `k_cache` and `v_cache` have one row of heads for each
layer, page and offset in the page. `store_layer_tokens` writes the last rows of a key and a
value tensor to the last slots of a mapping, `gather_layer_tokens` reads the rows of a mapping.

A slot is the number of a row within its layer, `page_id * page_size + page_offset`. A forward
that mirrors all its layers leaves the new rows in its slots, and every other slot as it was
(`mirrorLayers_row`, `mirrorLayers_row_of_not_mem`). What was stored from tensors with a dimension
for the heads can be gathered again, token by token (`gatherLayerTokens_store`).

The rows are of any type. Only caches with allocated tensors are modelled, and writes only to
pages that exist, which those of a page table do. The tensors that are stored have the number
format of the cache.
-/

namespace SoloRT

/-- The fields of `KVCacheConfig` that shape the tensors. -/
structure KVTensorConfig where
  numLayers : ℕ
  numKvHeads : ℕ
  headDim : ℕ
  deriving DecidableEq, Repr

/-- A key or value tensor of shape `[batch, heads, tokens, dim]`, with a row for each token. -/
structure LayerTensor (ρ : Type) where
  batchSize : ℕ
  numHeads : ℕ
  headDim : ℕ
  rows : List ρ

structure KVTensors (ρ : Type) where
  kCache : ℕ → PageId → ℕ → ρ
  vCache : ℕ → PageId → ℕ → ρ
  mirroredTokens : ℕ := 0
  mirrorSkipped : ℕ := 0

namespace KVTensors

variable {ρ : Type} (tensors : KVTensors ρ)

def skip : KVTensors ρ :=
  { tensors with mirrorSkipped := tensors.mirrorSkipped + 1 }

/-- One turn of the loop of `store_layer_tokens`. -/
def storeToken (pageSize layer : ℕ) (tensors : KVTensors ρ) (target : ℕ × ρ × ρ) : KVTensors ρ :=
  let (slot, key, value) := target
  let pageId := slot / pageSize
  let pageOffset := slot % pageSize
  { tensors with
    kCache := Function.update tensors.kCache layer (Function.update (tensors.kCache layer) pageId
      (Function.update (tensors.kCache layer pageId) pageOffset key))
    vCache := Function.update tensors.vCache layer (Function.update (tensors.vCache layer) pageId
      (Function.update (tensors.vCache layer pageId) pageOffset value))
    mirroredTokens := tensors.mirroredTokens + 1 }

def storeLayerTokens (config : KVTensorConfig) (pageSize : ℕ) (layerIdx : Option ℤ)
    (slotMapping : List ℕ) (key value : LayerTensor ρ) : KVTensors ρ :=
  match layerIdx with
  | none => tensors.skip
  | some layer =>
    if slotMapping = [] then tensors.skip
    else if layer < 0 ∨ config.numLayers ≤ layer then tensors.skip
    else if key.batchSize ≠ 1 ∨ value.batchSize ≠ 1 then tensors.skip
    else if key.numHeads ≠ config.numKvHeads ∨ value.numHeads ≠ config.numKvHeads then tensors.skip
    else if key.headDim ≠ config.headDim ∨ value.headDim ≠ config.headDim then tensors.skip
    else
      let tokenCount := min slotMapping.length (min key.rows.length value.rows.length)
      if tokenCount = 0 then tensors.skip
      else
        let kTokens := key.rows.drop (key.rows.length - tokenCount)
        let vTokens := value.rows.drop (value.rows.length - tokenCount)
        let targetSlots := slotMapping.drop (slotMapping.length - tokenCount)
        (targetSlots.zip (kTokens.zip vTokens)).foldl (storeToken pageSize layer.toNat) tensors

/-- `index_select` raises on an index past the rows of the layer. -/
def gatherLayerTokens (config : KVTensorConfig) (kv : KVCacheConfig) (layerIdx : ℤ)
    (slotMapping : List ℕ) : Except PyError (List ρ × List ρ) :=
  if layerIdx < 0 ∨ config.numLayers ≤ layerIdx then
    .error ⟨.valueError, "layer_idx " ++ toString layerIdx ++ " out of range [0, " ++
      toString config.numLayers ++ ")"⟩
  else if ∃ slot ∈ slotMapping, kv.numPages * kv.pageSize ≤ slot then
    .error ⟨.indexError, "index out of range in self"⟩
  else
    let flatK := fun slot => tensors.kCache layerIdx.toNat (slot / kv.pageSize) (slot % kv.pageSize)
    let flatV := fun slot => tensors.vCache layerIdx.toNat (slot / kv.pageSize) (slot % kv.pageSize)
    .ok (slotMapping.map flatK, slotMapping.map flatV)

/-! ## Reading what was stored -/

/-- The key and the value in a slot of a layer. -/
def row (pageSize layer slot : ℕ) : ρ × ρ :=
  (tensors.kCache layer (slot / pageSize) (slot % pageSize),
    tensors.vCache layer (slot / pageSize) (slot % pageSize))

theorem row_storeToken (pageSize layer : ℕ) (slot : ℕ) (kv : ρ × ρ) (layer' slot' : ℕ) :
    (storeToken pageSize layer tensors (slot, kv)).row pageSize layer' slot' =
      if layer' = layer ∧ slot' = slot then kv else tensors.row pageSize layer' slot' := by
  by_cases hlayer : layer' = layer
  · subst hlayer
    by_cases hslot : slot' = slot
    · subst hslot
      simp [storeToken, row]
    · rw [if_neg fun h => hslot h.2]
      by_cases hpage : slot' / pageSize = slot / pageSize
      · have hoffset : slot' % pageSize ≠ slot % pageSize := fun h =>
          hslot (PagedKVCache.slot_eq_of_place hpage h)
        simp [storeToken, row, hpage, hoffset]
      · simp [storeToken, row, hpage]
  · simp [storeToken, row, hlayer]

/-- A slot that is not among the targets keeps its row. -/
theorem row_foldl_of_not_mem {pageSize layer layer' slot' : ℕ} :
    ∀ {targets : List (ℕ × ρ × ρ)} (tensors : KVTensors ρ),
      (layer' = layer → slot' ∉ targets.map Prod.fst) →
      (targets.foldl (storeToken pageSize layer) tensors).row pageSize layer' slot' =
        tensors.row pageSize layer' slot'
  | [], _, _ => rfl
  | (slot, kv) :: targets, tensors, h => by
    have htail : layer' = layer → slot' ∉ targets.map Prod.fst := fun hl hmem =>
      h hl (by simp [hmem])
    have hhead : ¬(layer' = layer ∧ slot' = slot) := fun ⟨hl, hs⟩ => h hl (by simp [hs])
    rw [List.foldl_cons, row_foldl_of_not_mem _ htail, row_storeToken, if_neg hhead]

/-- The last target of a slot leaves its row. -/
theorem row_foldl_of_last {pageSize layer slot j : ℕ} {kv : ρ × ρ} {targets : List (ℕ × ρ × ρ)}
    (hj : targets[j]? = some (slot, kv)) (hlast : slot ∉ (targets.drop (j + 1)).map Prod.fst) :
    (targets.foldl (storeToken pageSize layer) tensors).row pageSize layer slot = kv := by
  obtain ⟨hlt, hget⟩ := List.getElem?_eq_some_iff.1 hj
  have hsplit : targets = targets.take j ++ (slot, kv) :: targets.drop (j + 1) := by
    rw [← hget, List.getElem_cons_drop, List.take_append_drop]
  rw [hsplit, List.foldl_append, List.foldl_cons, row_foldl_of_not_mem _ fun _ => hlast,
    row_storeToken, if_pos ⟨rfl, rfl⟩]

/-- An element of a list without duplicates does not come again. -/
theorem not_mem_drop_of_nodup {β : Type*} {l : List β} {x : β} (hnd : l.Nodup) {i : ℕ}
    (hi : l[i]? = some x) : x ∉ l.drop (i + 1) := by
  intro hmem
  obtain ⟨k, hk⟩ := List.getElem?_of_mem hmem
  rw [List.getElem?_drop] at hk
  have heq := (List.getElem?_inj (List.getElem?_eq_some_iff.1 hi).1 hnd).1 (hi.trans hk.symm)
  omega

/-- Targets with different slots each leave their row. -/
theorem row_foldl_of_getElem? {pageSize layer slot : ℕ} {kv : ρ × ρ}
    {targets : List (ℕ × ρ × ρ)} (hnd : (targets.map Prod.fst).Nodup) {i : ℕ}
    (hi : targets[i]? = some (slot, kv)) :
    (targets.foldl (storeToken pageSize layer) tensors).row pageSize layer slot = kv := by
  refine tensors.row_foldl_of_last hi ?_
  rw [List.map_drop]
  exact not_mem_drop_of_nodup hnd (by rw [List.getElem?_map, hi]; rfl)

theorem foldl_storeToken_counters (pageSize layer : ℕ) : ∀ (targets : List (ℕ × ρ × ρ))
    (tensors : KVTensors ρ),
    (targets.foldl (storeToken pageSize layer) tensors).mirroredTokens =
        tensors.mirroredTokens + targets.length ∧
      (targets.foldl (storeToken pageSize layer) tensors).mirrorSkipped = tensors.mirrorSkipped
  | [], _ => ⟨rfl, rfl⟩
  | target :: targets, tensors => by
    obtain ⟨hcount, hskipped⟩ := foldl_storeToken_counters pageSize layer targets
      (storeToken pageSize layer tensors target)
    rw [List.foldl_cons, hcount, hskipped, List.length_cons]
    exact ⟨by simp only [storeToken]; omega, rfl⟩

/-- What `store_layer_tokens` checks before it writes. -/
structure Accepted (config : KVTensorConfig) (layerIdx : Option ℤ) (slotMapping : List ℕ)
    (key value : LayerTensor ρ) : Prop where
  layer : ∃ layer : ℕ, layerIdx = some (layer : ℤ) ∧ layer < config.numLayers
  batchSize : key.batchSize = 1 ∧ value.batchSize = 1
  numHeads : key.numHeads = config.numKvHeads ∧ value.numHeads = config.numKvHeads
  headDim : key.headDim = config.headDim ∧ value.headDim = config.headDim
  count : 0 < min slotMapping.length (min key.rows.length value.rows.length)

/-- The slots that are written, each with its key and value. -/
def targets (slotMapping : List ℕ) (key value : LayerTensor ρ) : List (ℕ × ρ × ρ) :=
  let tokenCount := min slotMapping.length (min key.rows.length value.rows.length)
  (slotMapping.drop (slotMapping.length - tokenCount)).zip
    ((key.rows.drop (key.rows.length - tokenCount)).zip
      (value.rows.drop (value.rows.length - tokenCount)))

section

variable {config : KVTensorConfig} {pageSize : ℕ} {layerIdx : Option ℤ} {slotMapping : List ℕ}
  {key value : LayerTensor ρ}

/-- A store that fails a check only counts as skipped. -/
theorem storeLayerTokens_refused (h : ¬Accepted config layerIdx slotMapping key value) :
    tensors.storeLayerTokens config pageSize layerIdx slotMapping key value = tensors.skip := by
  unfold storeLayerTokens
  cases layerIdx with
  | none => rfl
  | some layer =>
    dsimp only
    split_ifs with hempty hlayer hbatch hheads hdim hcount <;> try rfl
    -- every check passed
    refine absurd ⟨⟨layer.toNat, ?_, ?_⟩, ?_, ?_, ?_, Nat.pos_of_ne_zero hcount⟩ h
    · rw [not_or, not_lt] at hlayer
      rw [Int.toNat_of_nonneg hlayer.1]
    · omega
    · simpa [not_or] using hbatch
    · simpa [not_or] using hheads
    · simpa [not_or] using hdim

theorem storeLayerTokens_accepted {layer : ℕ}
    (h : Accepted config (some (layer : ℤ)) slotMapping key value) :
    tensors.storeLayerTokens config pageSize (some (layer : ℤ)) slotMapping key value =
      (targets slotMapping key value).foldl (storeToken pageSize layer) tensors := by
  obtain ⟨⟨layer', hlayer, hlt⟩, ⟨hb, hb'⟩, ⟨hh, hh'⟩, ⟨hd, hd'⟩, hcount⟩ := h
  obtain rfl : layer = layer' := Int.ofNat_inj.1 (Option.some.inj hlayer)
  have hne : slotMapping ≠ [] := by
    rintro rfl
    simp at hcount
  unfold storeLayerTokens
  dsimp only
  rw [if_neg hne, if_neg (by omega), if_neg (by simp [hb, hb']), if_neg (by simp [hh, hh']),
    if_neg (by simp [hd, hd']), if_neg hcount.ne']
  rfl

end

/-- The shape of a key or value tensor that the cache takes, ending in the rows of `n` tokens. -/
structure Ends (config : KVTensorConfig) (tensor : LayerTensor ρ) (rows : List ρ) : Prop where
  batchSize : tensor.batchSize = 1
  numHeads : tensor.numHeads = config.numKvHeads
  headDim : tensor.headDim = config.headDim
  rows : ∃ history, tensor.rows = history ++ rows

/-- Storing tensors that end in the rows of the tokens of the mapping writes these rows. -/
theorem storeLayerTokens_eq {config : KVTensorConfig} {pageSize layer : ℕ} {slots : List ℕ}
    {key value : LayerTensor ρ} {kvs : List (ρ × ρ)} (hlayer : layer < config.numLayers)
    (hk : Ends config key (kvs.map Prod.fst)) (hv : Ends config value (kvs.map Prod.snd))
    (hlen : slots.length = kvs.length) (hne : slots ≠ []) :
    tensors.storeLayerTokens config pageSize (some layer) slots key value =
      (slots.zip kvs).foldl (storeToken pageSize layer) tensors := by
  obtain ⟨hb, hh, hd, history, hrows⟩ := hk
  obtain ⟨hb', hh', hd', history', hrows'⟩ := hv
  have hpos : 0 < kvs.length := hlen ▸ List.length_pos_iff.2 hne
  have hcount : min slots.length (min key.rows.length value.rows.length) = kvs.length := by
    rw [hrows, hrows', List.length_append, List.length_append, List.length_map, List.length_map]
    omega
  have haccepted : Accepted config (some (layer : ℤ)) slots key value :=
    ⟨⟨layer, rfl, hlayer⟩, ⟨hb, hb'⟩, ⟨hh, hh'⟩, ⟨hd, hd'⟩, hcount ▸ hpos⟩
  have hkeys : key.rows.drop (key.rows.length - kvs.length) = kvs.map Prod.fst := by
    rw [hrows, List.length_append, List.length_map, Nat.add_sub_cancel, List.drop_left]
  have hvalues : value.rows.drop (value.rows.length - kvs.length) = kvs.map Prod.snd := by
    rw [hrows', List.length_append, List.length_map, Nat.add_sub_cancel, List.drop_left]
  have hslots : slots.drop (slots.length - kvs.length) = slots := by
    rw [hlen, Nat.sub_self, List.drop_zero]
  have hzip : (kvs.map Prod.fst).zip (kvs.map Prod.snd) = kvs := by
    rw [List.zip_map']
    simp
  rw [tensors.storeLayerTokens_accepted haccepted]
  simp only [targets, hcount]
  rw [hkeys, hvalues, hslots, hzip]

/-- The attention callbacks of one forward pass, one for each layer. -/
def mirrorLayers (config : KVTensorConfig) (pageSize : ℕ) (slotMapping : List ℕ)
    (attention : ℕ → LayerTensor ρ × LayerTensor ρ) (tensors : KVTensors ρ) : KVTensors ρ :=
  (List.range config.numLayers).foldl (fun tensors (layer : ℕ) =>
    tensors.storeLayerTokens config pageSize (some (layer : ℤ)) slotMapping (attention layer).1
      (attention layer).2) tensors

section

variable {tensors} {config : KVTensorConfig} {pageSize : ℕ} {slots : List ℕ}
  {attention : ℕ → LayerTensor ρ × LayerTensor ρ} (kvs : ℕ → List (ρ × ρ))
  (hends : ∀ layer < config.numLayers,
    Ends config (attention layer).1 ((kvs layer).map Prod.fst) ∧
      Ends config (attention layer).2 ((kvs layer).map Prod.snd))
  (hlen : ∀ layer < config.numLayers, slots.length = (kvs layer).length)
  (hne : slots ≠ [])

include hends hlen hne

/-- The callbacks of the layers up to a number of them write the rows of these layers. -/
theorem foldl_range_eq : ∀ m ≤ config.numLayers,
    (List.range m).foldl (fun tensors (layer : ℕ) =>
      tensors.storeLayerTokens config pageSize (some (layer : ℤ)) slots (attention layer).1
        (attention layer).2) tensors =
    (List.range m).foldl (fun tensors layer =>
      (slots.zip (kvs layer)).foldl (storeToken pageSize layer) tensors) tensors
  | 0, _ => rfl
  | m + 1, hm => by
    obtain ⟨hk, hv⟩ := hends m hm
    rw [List.range_succ, List.foldl_append, List.foldl_append, foldl_range_eq m (by omega)]
    exact storeLayerTokens_eq _ hm hk hv (hlen m hm) hne

/-- A slot outside of the mapping keeps its rows. -/
theorem mirrorLayers_row_of_not_mem {slot : ℕ} (hslot : slot ∉ slots) (layer : ℕ) :
    (mirrorLayers config pageSize slots attention tensors).row pageSize layer slot =
      tensors.row pageSize layer slot := by
  rw [mirrorLayers, foldl_range_eq kvs hends hlen hne _ le_rfl]
  have hfold : ∀ (layers : List ℕ) (tensors : KVTensors ρ),
      (layers.foldl (fun tensors layer =>
        (slots.zip (kvs layer)).foldl (storeToken pageSize layer) tensors) tensors).row
          pageSize layer slot = tensors.row pageSize layer slot := by
    intro layers
    induction layers with
    | nil => exact fun _ => rfl
    | cons l layers ih =>
      intro tensors
      rw [List.foldl_cons, ih]
      refine row_foldl_of_not_mem _ fun _ hmem => hslot ?_
      obtain ⟨target, htarget, rfl⟩ := List.mem_map.1 hmem
      exact (List.of_mem_zip htarget).1
  exact hfold _ _

/-- A slot of the mapping has the new row of each layer. -/
theorem mirrorLayers_row (hnd : slots.Nodup) {i slot layer : ℕ} {kv : ρ × ρ}
    (hi : slots[i]? = some slot) (hlayer : layer < config.numLayers)
    (hkv : (kvs layer)[i]? = some kv) :
    (mirrorLayers config pageSize slots attention tensors).row pageSize layer slot = kv := by
  rw [mirrorLayers, foldl_range_eq kvs hends hlen hne _ le_rfl]
  have hfst : ((slots.zip (kvs layer)).map Prod.fst).Nodup := by
    rwa [List.map_fst_zip (hlen layer hlayer).le]
  have hzip : (slots.zip (kvs layer))[i]? = some (slot, kv) :=
    List.getElem?_zip_eq_some.2 ⟨hi, hkv⟩
  -- the layers after this one leave its rows alone
  have hfold : ∀ m, layer < m → ((List.range m).foldl (fun tensors layer =>
      (slots.zip (kvs layer)).foldl (storeToken pageSize layer) tensors) tensors).row
        pageSize layer slot = kv := by
    intro m hm
    induction m with
    | zero => omega
    | succ m ih =>
      rw [List.range_succ, List.foldl_append, List.foldl_cons, List.foldl_nil]
      by_cases hlast : layer = m
      · subst hlast
        exact row_foldl_of_getElem? _ hfst hzip
      · rw [row_foldl_of_not_mem _ fun h => absurd h hlast]
        exact ih (by omega)
  exact hfold _ hlayer

end

/-! ## Gathering what was stored -/

section

variable {config : KVTensorConfig} {kv : KVCacheConfig} {slotMapping : List ℕ} {layer : ℕ}

theorem map_eq_of_getElem? {β γ : Type*} {f : β → γ} {l : List β} {l' : List γ}
    (hlen : l.length = l'.length) (h : ∀ (i : ℕ) x, l[i]? = some x → l'[i]? = some (f x)) :
    l.map f = l' := by
  refine List.ext_getElem? fun i => ?_
  rw [List.getElem?_map]
  cases hi : l[i]? with
  | none => rw [List.getElem?_eq_none (hlen ▸ List.getElem?_eq_none_iff.1 hi), Option.map_none]
  | some x => rw [h i x hi, Option.map_some]

/-- A layer that exists is read at any slots of the arena. -/
theorem gatherLayerTokens_ok (hlayer : layer < config.numLayers)
    (hin : ∀ slot ∈ slotMapping, slot < kv.numPages * kv.pageSize) :
    tensors.gatherLayerTokens config kv layer slotMapping =
      .ok (slotMapping.map fun slot => (tensors.row kv.pageSize layer slot).1,
        slotMapping.map fun slot => (tensors.row kv.pageSize layer slot).2) := by
  unfold gatherLayerTokens
  rw [if_neg (by omega), if_neg]
  · rfl
  · rintro ⟨slot, hslot, hle⟩
    exact absurd (hin slot hslot) (not_lt.2 hle)

end

end KVTensors

/-- A tensor of shape `[batch, heads, tokens, dim]`. -/
structure HeadTensor (α : Type) where
  batchSize : ℕ
  numHeads : ℕ
  tokens : ℕ
  headDim : ℕ
  values : ℕ → ℕ → ℕ → ℕ → α

namespace HeadTensor

variable {α : Type} (tensor : HeadTensor α)

/-- `tensor[0, :, token, :]`. -/
def token (token : ℕ) : List (List α) :=
  (List.range tensor.numHeads).map fun head =>
    (List.range tensor.headDim).map fun dim => tensor.values 0 head token dim

/-- `tensor[0].transpose(0, 1)`. -/
def transposed : LayerTensor (List (List α)) where
  batchSize := tensor.batchSize
  numHeads := tensor.numHeads
  headDim := tensor.headDim
  rows := (List.range tensor.tokens).map tensor.token

/-- The last `n` tokens. -/
def lastTokens (n : ℕ) : List (List (List α)) :=
  (List.range' (tensor.tokens - n) n).map tensor.token

theorem drop_transposed {n : ℕ} (hn : n ≤ tensor.tokens) :
    tensor.transposed.rows.drop (tensor.transposed.rows.length - n) = tensor.lastTokens n := by
  simp only [transposed, lastTokens, List.length_map, List.length_range]
  rw [← List.map_drop, List.range_eq_range', List.drop_range', Nat.mul_one, Nat.zero_add,
    Nat.sub_sub_self hn]

theorem length_lastTokens (n : ℕ) : (tensor.lastTokens n).length = n := by
  simp [lastTokens]

theorem getElem?_lastTokens {n i : ℕ} (hi : i < n) :
    (tensor.lastTokens n)[i]? = some (tensor.token (tensor.tokens - n + i)) := by
  simp [lastTokens, hi]

/-- The targets of a store are the last slots, with the last tokens. -/
theorem targets_transposed (slotMapping : List ℕ) (key value : HeadTensor α) {n : ℕ}
    (hn : n = min slotMapping.length (min key.tokens value.tokens)) :
    KVTensors.targets slotMapping key.transposed value.transposed =
      (slotMapping.drop (slotMapping.length - n)).zip
        ((key.lastTokens n).zip (value.lastTokens n)) := by
  have hcount : min slotMapping.length
      (min key.transposed.rows.length value.transposed.rows.length) = n := by
    simp [transposed, hn]
  simp only [KVTensors.targets, hcount]
  rw [drop_transposed key (by omega), drop_transposed value (by omega)]

end HeadTensor

namespace KVTensors

variable {α : Type}

/-- A store at slots of the arena, of keys and values with any numbers of tokens. If a check
fails, or there is no token, the store is only counted as skipped. Otherwise the last tokens are
written to the last slots, and can be gathered from them : in order if the slots are different,
else with the last write of each slot. All other slots of the layer, and all other layers, stay as
they were. -/
theorem gatherLayerTokens_store (config : KVTensorConfig) (kv : KVCacheConfig)
    (tensors : KVTensors (List (List α))) (layerIdx : Option ℤ) (slotMapping : List ℕ)
    (key value : HeadTensor α) (hin : ∀ slot ∈ slotMapping, slot < kv.numPages * kv.pageSize)
    {stored : KVTensors (List (List α))} {n : ℕ} {lastSlots : List ℕ}
    (hstored : stored = tensors.storeLayerTokens config kv.pageSize layerIdx slotMapping
      key.transposed value.transposed)
    (hn : n = min slotMapping.length (min key.tokens value.tokens))
    (hlast : lastSlots = slotMapping.drop (slotMapping.length - n)) :
    (¬Accepted config layerIdx slotMapping key.transposed value.transposed →
      stored.kCache = tensors.kCache ∧ stored.vCache = tensors.vCache ∧
        stored.mirroredTokens = tensors.mirroredTokens ∧
        stored.mirrorSkipped = tensors.mirrorSkipped + 1) ∧
    ∀ layer : ℕ, layerIdx = some (layer : ℤ) →
      Accepted config layerIdx slotMapping key.transposed value.transposed →
      stored.mirroredTokens = tensors.mirroredTokens + n ∧
      stored.mirrorSkipped = tensors.mirrorSkipped ∧
      (lastSlots.Nodup → stored.gatherLayerTokens config kv layer lastSlots =
        .ok (key.lastTokens n, value.lastTokens n)) ∧
      (∃ ks vs : List (List (List α)),
        stored.gatherLayerTokens config kv layer lastSlots = .ok (ks, vs) ∧
        ks.length = n ∧ vs.length = n ∧
        ∀ i j slot : ℕ, lastSlots[i]? = some slot → lastSlots[j]? = some slot →
          slot ∉ lastSlots.drop (j + 1) →
          ks[i]? = some (key.token (key.tokens - n + j)) ∧
            vs[i]? = some (value.token (value.tokens - n + j))) ∧
      (∀ slot, slot ∉ lastSlots →
        stored.row kv.pageSize layer slot = tensors.row kv.pageSize layer slot) ∧
      ∀ layer', layer' ≠ layer → ∀ slot,
        stored.row kv.pageSize layer' slot = tensors.row kv.pageSize layer' slot := by
  constructor
  · intro hrefused
    rw [hstored, tensors.storeLayerTokens_refused hrefused]
    exact ⟨rfl, rfl, rfl, rfl⟩
  rintro layer rfl haccepted
  obtain ⟨_, hlayer, hlt⟩ := haccepted.layer
  obtain rfl := Int.ofNat_inj.1 (Option.some.inj hlayer)
  rw [tensors.storeLayerTokens_accepted haccepted,
    HeadTensor.targets_transposed slotMapping key value hn, ← hlast] at hstored
  have hlen : lastSlots.length = n := by
    rw [hlast, List.length_drop]
    omega
  have hlenKV : ((key.lastTokens n).zip (value.lastTokens n)).length = n := by
    rw [List.length_zip, HeadTensor.length_lastTokens, HeadTensor.length_lastTokens, Nat.min_self]
  have hslots : (lastSlots.zip ((key.lastTokens n).zip (value.lastTokens n))).map Prod.fst =
      lastSlots := List.map_fst_zip (by omega)
  -- the row of a slot is that of its last target
  have hrow : ∀ j slot : ℕ, lastSlots[j]? = some slot → slot ∉ lastSlots.drop (j + 1) →
      stored.row kv.pageSize layer slot =
        (key.token (key.tokens - n + j), value.token (value.tokens - n + j)) := by
    intro j slot hj hafter
    have hjn : j < n := hlen ▸ (List.getElem?_eq_some_iff.1 hj).1
    rw [hstored]
    refine tensors.row_foldl_of_last (List.getElem?_zip_eq_some.2 ⟨hj, ?_⟩) ?_
    · exact List.getElem?_zip_eq_some.2
        ⟨key.getElem?_lastTokens hjn, value.getElem?_lastTokens hjn⟩
    · rwa [List.map_drop, hslots]
  have hgather : stored.gatherLayerTokens config kv layer lastSlots = _ :=
    stored.gatherLayerTokens_ok hlt fun slot hslot =>
      hin slot (List.mem_of_mem_drop (hlast ▸ hslot))
  have hcounters := foldl_storeToken_counters kv.pageSize layer
    (lastSlots.zip ((key.lastTokens n).zip (value.lastTokens n))) tensors
  rw [← hstored, List.length_zip, hlenKV, hlen, Nat.min_self] at hcounters
  refine ⟨hcounters.1, hcounters.2, fun hnd => ?_, ⟨_, _, hgather, ?_, ?_, ?_⟩, fun slot hout => ?_,
    fun layer' hne slot => ?_⟩
  · have hall : ∀ i slot : ℕ, lastSlots[i]? = some slot →
        (key.lastTokens n)[i]? = some (stored.row kv.pageSize layer slot).1 ∧
          (value.lastTokens n)[i]? = some (stored.row kv.pageSize layer slot).2 := by
      intro i slot hi
      have hin : i < n := hlen ▸ (List.getElem?_eq_some_iff.1 hi).1
      rw [hrow i slot hi (not_mem_drop_of_nodup hnd hi), key.getElem?_lastTokens hin,
        value.getElem?_lastTokens hin]
      exact ⟨rfl, rfl⟩
    rw [hgather, map_eq_of_getElem? (hlen.trans (key.length_lastTokens n).symm)
      fun i slot hi => (hall i slot hi).1,
      map_eq_of_getElem? (hlen.trans (value.length_lastTokens n).symm)
      fun i slot hi => (hall i slot hi).2]
  · rw [List.length_map, hlen]
  · rw [List.length_map, hlen]
  · intro i j slot hi hj hafter
    rw [List.getElem?_map, List.getElem?_map, hi, Option.map_some, Option.map_some,
      hrow j slot hj hafter]
    exact ⟨rfl, rfl⟩
  · rw [hstored]
    exact row_foldl_of_not_mem _ fun _ => by rwa [hslots]
  · rw [hstored]
    exact row_foldl_of_not_mem _ fun h => absurd h hne

/-- Two pages of four tokens. -/
def twoPages : KVCacheConfig where
  numPages := 2
  pageSize := 4
  pageSize_pos := Nat.succ_pos (nat_lit 3)
  numPages_pos := Nat.two_pos

/-- Two layers, with two heads of one number each. -/
def twoHeads : KVTensorConfig where
  numLayers := 2
  numKvHeads := 2
  headDim := 1

def emptyTensors : KVTensors (List (List ℕ)) where
  kCache := fun _ _ _ => []
  vCache := fun _ _ _ => []

/-- Three tokens, counted from a number on. -/
def threeTokens (first : ℕ) : HeadTensor ℕ where
  batchSize := 1
  numHeads := 2
  tokens := 3
  headDim := 1
  values := fun _ head token _ => first + 3 * head + token

/-- The tokens are stored on two pages, with the heads of each token together. -/
theorem gatherLayerTokens_store_threeTokens :
    (emptyTensors.storeLayerTokens twoHeads 4 (some 1) [0, 1, 5] (threeTokens 0).transposed
      (threeTokens 100).transposed).gatherLayerTokens twoHeads twoPages 1 [0, 1, 5] =
        .ok ([[[0], [3]], [[1], [4]], [[2], [5]]],
          [[[100], [103]], [[101], [104]], [[102], [105]]]) := by
  have hstore := gatherLayerTokens_store twoHeads twoPages emptyTensors (some 1) [0, 1, 5]
    (threeTokens 0) (threeTokens 100) (by decide) rfl rfl rfl
  have haccepted : Accepted twoHeads (some 1) [0, 1, 5] (threeTokens 0).transposed
      (threeTokens 100).transposed :=
    ⟨⟨1, rfl, by decide⟩, ⟨rfl, rfl⟩, ⟨rfl, rfl⟩, ⟨rfl, rfl⟩, by decide⟩
  exact (hstore.2 1 rfl haccepted).2.2.1 (by decide)

end KVTensors

end SoloRT
