import SoloRT.KVTensors
import Mathlib.Order.WithBot

/-!
# The attention callback

`solort_flashinfer_attention_forward` is the attention that a layer of the model calls. One query
token goes to the decode kernel of FlashInfer, more go to its prefill kernel, and both get the
sliding window of the layer. If the kernel is missing or raises, `scaled_dot_product_attention` of
torch takes its place, with a mask for queries that are the last tokens of the keys.

The kernels are parameters: what `import flashinfer` finds, and the function of torch. Their
outputs are of any type, and an output is kept with the call that it comes from. `Documented` says
which keys a query sees in a call, by the arguments. The fallback sees the same keys as the kernel
it replaces if the layer has no window, or one that reaches the first key from the last query, and
in no other case (`fallback_sees_iff`).

There is at least one key head, as in any attention layer.
-/

namespace SoloRT

/-- The counters of the module, `_STATS`. -/
structure FlashInferAttentionStats where
  prefillCalls : ℕ := 0
  decodeCalls : ℕ := 0
  fallbackCalls : ℕ := 0
  deriving DecidableEq, Repr

/-- `single_decode_with_kv_cache`, with the keys and values of each token. -/
structure DecodeCall (α : Type) where
  q : List (List α)
  k : List (List (List α))
  v : List (List (List α))
  windowLeft : ℤ
  smScale : ℚ

/-- `single_prefill_with_kv_cache`. -/
structure PrefillCall (α : Type) where
  q : List (List (List α))
  k : List (List (List α))
  v : List (List (List α))
  causal : Bool
  windowLeft : ℤ
  smScale : ℚ

/-- `scaled_dot_product_attention`. The mask is added to the scores. -/
structure SdpaCall (α : Type) where
  query : HeadTensor α
  key : HeadTensor α
  value : HeadTensor α
  attnMask : Option (List (List (WithBot ℚ)))
  isCausal : Bool
  scale : ℚ

/-- A call of one of the kernels. -/
inductive KernelCall (α : Type)
  | decode (call : DecodeCall α)
  | prefill (call : PrefillCall α)
  | sdpa (call : SdpaCall α)

/-- An output, and the call that it comes from. -/
structure AttentionOutput (α O : Type) where
  call : KernelCall α
  output : O

/-- The kernels in an installed `flashinfer`, in its submodules and at its top. -/
structure FlashInferModule (α O : Type) where
  decodeModule : Option (DecodeCall α → Except PyError O) := none
  singleDecode : Option (DecodeCall α → Except PyError O) := none
  prefillModule : Option (PrefillCall α → Except PyError O) := none
  singlePrefill : Option (PrefillCall α → Except PyError O) := none

/-- The KV destination of the current batch, `_KV_CONTEXT` with a cache. -/
structure KVContext where
  config : KVTensorConfig
  pageSize : ℕ
  slotMapping : List ℕ
  deriving DecidableEq, Repr

/-- What a call of the callback can change. -/
structure AttentionState (α : Type) where
  stats : FlashInferAttentionStats := {}
  tensors : KVTensors (List (List α))

namespace HeadTensor

variable {α : Type}

/-- `repeat_interleave` of the heads. -/
def repeatHeads (tensor : HeadTensor α) (groups : ℕ) : HeadTensor α where
  batchSize := tensor.batchSize
  numHeads := tensor.numHeads * groups
  tokens := tensor.tokens
  headDim := tensor.headDim
  values := fun batch head => tensor.values batch (head / groups)

end HeadTensor

namespace Attention

variable {α O : Type}

/-- `_flashinfer_attention_fns`. -/
def flashInferAttentionFns (flashinfer : Option (FlashInferModule α O)) :
    Option (DecodeCall α → Except PyError O) × Option (PrefillCall α → Except PyError O) :=
  match flashinfer with
  | none => (none, none)
  | some m => (m.decodeModule.or m.singleDecode, m.prefillModule.or m.singlePrefill)

/-- `_mirror_to_solort_kv`. -/
def mirrorToSolortKV (context : Option KVContext) (layerIdx : Option ℤ) (key value : HeadTensor α)
    (tensors : KVTensors (List (List α))) : KVTensors (List (List α)) :=
  match context with
  | none => tensors
  | some c =>
    tensors.storeLayerTokens c.config c.pageSize layerIdx c.slotMapping key.transposed
      value.transposed

/-- The mask of the fallback, for queries that are the last tokens of the keys. -/
def bottomRightMask (qLen kvLen : ℕ) : List (List (WithBot ℚ)) :=
  let offset : ℤ := kvLen - qLen
  (List.range qLen).map fun (qIdx : ℕ) => (List.range kvLen).map fun (kIdx : ℕ) =>
    if (kIdx : ℤ) ≤ qIdx + offset then ((0 : ℚ) : WithBot ℚ) else ⊥

/-- The call that `_torch_attention_fallback` makes. -/
def sdpaCall (query key value : HeadTensor α) (scaling : ℚ) (causal : Bool) : SdpaCall α :=
  let (attnMask, isCausal) :=
    if causal then
      if query.tokens = key.tokens then (none, true)
      else (some (bottomRightMask query.tokens key.tokens), false)
    else (none, false)
  { query, key, value, attnMask, isCausal, scale := scaling }

/-- `_torch_attention_fallback`, after it was counted. -/
def torchAttentionFallback (sdpa : SdpaCall α → Except PyError O) (query key value : HeadTensor α)
    (scaling : ℚ) (causal : Bool) : Except PyError (AttentionOutput α O) :=
  if query.numHeads ≠ key.numHeads ∧ query.numHeads % key.numHeads ≠ 0 then
    .error ⟨.runtimeError, "cannot expand KV heads " ++ toString key.numHeads ++
      " to query heads " ++ toString query.numHeads⟩
  else
    let groups := query.numHeads / key.numHeads
    let (key, value) :=
      if query.numHeads ≠ key.numHeads then (key.repeatHeads groups, value.repeatHeads groups)
      else (key, value)
    let call := sdpaCall query key value scaling causal
    (sdpa call).map fun output => ⟨.sdpa call, output⟩

/-- The window of FlashInfer : a layer without one, or with a window of zero, has none. -/
def windowLeft (slidingWindow : Option ℤ) : ℤ :=
  match slidingWindow with
  | none => -1
  | some w => if w = 0 then -1 else w

/-- A call of a kernel that may be missing. An exception of the kernel is dropped. -/
def tryKernel {γ : Type} (kernel : Option (γ → Except PyError O)) (call : γ) : Option O :=
  match kernel with
  | none => none
  | some f => (f call).toOption

def decodeCall (query key value : HeadTensor α) (scaling : ℚ) (slidingWindow : Option ℤ) :
    DecodeCall α where
  q := query.token 0
  k := key.transposed.rows
  v := value.transposed.rows
  windowLeft := windowLeft slidingWindow
  smScale := scaling

def prefillCall (query key value : HeadTensor α) (scaling : ℚ) (slidingWindow : Option ℤ) :
    PrefillCall α where
  q := query.transposed.rows
  k := key.transposed.rows
  v := value.transposed.rows
  causal := true
  windowLeft := windowLeft slidingWindow
  smScale := scaling

/-- `solort_flashinfer_attention_forward`. The changes of layout of an output are left out. -/
def forward (flashinfer : Option (FlashInferModule α O)) (sdpa : SdpaCall α → Except PyError O)
    (context : Option KVContext) (layerIdx : Option ℤ) (device : String)
    (query key value : HeadTensor α) (scaling : ℚ) (slidingWindow : Option ℤ)
    (st : AttentionState α) : Except PyError (AttentionOutput α O) × AttentionState α :=
  if query.batchSize ≠ 1 then
    (.error ⟨.runtimeError, "SoloRT FlashInfer bridge currently supports batch_size=1"⟩, st)
  else if device ≠ "cuda" then
    (.error ⟨.runtimeError, "SoloRT FlashInfer bridge requires CUDA tensors"⟩, st)
  else
    let st := { st with tensors := mirrorToSolortKV context layerIdx key value st.tensors }
    let stats := st.stats
    let fallen := { st with stats := { stats with fallbackCalls := stats.fallbackCalls + 1 } }
    let (decodeFn, prefillFn) := flashInferAttentionFns flashinfer
    if query.tokens = 1 then
      let call := decodeCall query key value scaling slidingWindow
      match tryKernel decodeFn call with
      | some output =>
        (.ok ⟨.decode call, output⟩,
          { st with stats := { stats with decodeCalls := stats.decodeCalls + 1 } })
      | none => (torchAttentionFallback sdpa query key value scaling false, fallen)
    else
      let call := prefillCall query key value scaling slidingWindow
      match tryKernel prefillFn call with
      | some output =>
        (.ok ⟨.prefill call, output⟩,
          { st with stats := { stats with prefillCalls := stats.prefillCalls + 1 } })
      | none => (torchAttentionFallback sdpa query key value scaling true, fallen)

/-! ## The two ways through the callback -/

variable (flashinfer : Option (FlashInferModule α O)) (sdpa : SdpaCall α → Except PyError O)
  (query key value : HeadTensor α) (scaling : ℚ) (slidingWindow : Option ℤ)

/-- What the kernel of FlashInfer returns, if it is there and does not raise. -/
def kernelOutput : Option O :=
  if query.tokens = 1 then
    tryKernel (flashInferAttentionFns flashinfer).1
      (decodeCall query key value scaling slidingWindow)
  else
    tryKernel (flashInferAttentionFns flashinfer).2
      (prefillCall query key value scaling slidingWindow)

/-- The call of that kernel. -/
def kernelCall : KernelCall α :=
  if query.tokens = 1 then .decode (decodeCall query key value scaling slidingWindow)
  else .prefill (prefillCall query key value scaling slidingWindow)

variable {flashinfer sdpa query key value scaling slidingWindow}
variable {context : Option KVContext} {layerIdx : Option ℤ} {device : String}
  {st st' : AttentionState α} {out : AttentionOutput α O}

/-- A call that returns took the output of the kernel, or that of the fallback. -/
theorem forward_ok (h : forward flashinfer sdpa context layerIdx device query key value scaling
    slidingWindow st = (.ok out, st')) :
    (kernelOutput flashinfer query key value scaling slidingWindow = some out.output ∧
      out.call = kernelCall query key value scaling slidingWindow ∧
      st'.stats.fallbackCalls = st.stats.fallbackCalls) ∨
    kernelOutput flashinfer query key value scaling slidingWindow = none ∧
      torchAttentionFallback sdpa query key value scaling (query.tokens ≠ 1) = .ok out ∧
      st'.stats.fallbackCalls = st.stats.fallbackCalls + 1 := by
  unfold forward at h
  unfold kernelOutput kernelCall
  generalize flashInferAttentionFns flashinfer = fns at h ⊢
  obtain ⟨decodeFn, prefillFn⟩ := fns
  split_ifs at h with hbatch hdevice htokens
  · cases h
  · cases h
  · rw [if_pos htokens, if_pos htokens]
    cases hkernel : tryKernel decodeFn (decodeCall query key value scaling slidingWindow) with
    | some output =>
      simp only [hkernel, Prod.mk.injEq, Except.ok.injEq] at h
      obtain ⟨rfl, rfl⟩ := h
      exact .inl ⟨rfl, rfl, rfl⟩
    | none =>
      simp only [hkernel, Prod.mk.injEq] at h
      obtain ⟨hout, rfl⟩ := h
      exact .inr ⟨rfl, by simpa [htokens] using hout, rfl⟩
  · rw [if_neg htokens, if_neg htokens]
    cases hkernel : tryKernel prefillFn (prefillCall query key value scaling slidingWindow) with
    | some output =>
      simp only [hkernel, Prod.mk.injEq, Except.ok.injEq] at h
      obtain ⟨rfl, rfl⟩ := h
      exact .inl ⟨rfl, rfl, rfl⟩
    | none =>
      simp only [hkernel, Prod.mk.injEq] at h
      obtain ⟨hout, rfl⟩ := h
      exact .inr ⟨rfl, by simpa [htokens] using hout, rfl⟩

/-- The call of a fallback that returns. -/
theorem torchAttentionFallback_ok {causal : Bool}
    (h : torchAttentionFallback sdpa query key value scaling causal = .ok out) :
    ∃ key' value' : HeadTensor α, key'.tokens = key.tokens ∧
      out.call = .sdpa (sdpaCall query key' value' scaling causal) := by
  have hmap : ∀ call : SdpaCall α,
      ((sdpa call).map fun output => (⟨.sdpa call, output⟩ : AttentionOutput α O)) = .ok out →
        out.call = .sdpa call := by
    intro call hcall
    cases hsdpa : sdpa call with
    | error e =>
      rw [hsdpa] at hcall
      cases hcall
    | ok output =>
      rw [hsdpa] at hcall
      rw [← Except.ok.inj hcall]
  unfold torchAttentionFallback at h
  split_ifs at h with hexpand hheads
  · exact ⟨key.repeatHeads _, value.repeatHeads _, rfl, hmap _ h⟩
  · exact ⟨key, value, rfl, hmap _ h⟩

/-! ## The keys that a query sees -/

/-- The keys that the query `i` sees under a causal mask that ends at the last key, with a window to
the left of it. -/
def causalWindow (qLen kvLen : ℕ) (windowLeft : ℤ) (i : ℕ) : Set ℕ :=
  {j | j < kvLen ∧ (j : ℤ) ≤ i + kvLen - qLen ∧
    (0 ≤ windowLeft → (i : ℤ) + kvLen - qLen - windowLeft ≤ j)}

/-- The keys that the queries of a call see. The kernels of FlashInfer are causal from the last key
on, with the window of the call. In torch `is_causal` counts from the first key, and a mask hides
the keys at which it is minus infinity. -/
structure Documented (sees : KernelCall α → ℕ → Set ℕ) : Prop where
  decode : ∀ call : DecodeCall α,
    sees (.decode call) 0 = causalWindow 1 call.k.length call.windowLeft 0
  prefill : ∀ call : PrefillCall α, call.causal = true → ∀ i < call.q.length,
    sees (.prefill call) i = causalWindow call.q.length call.k.length call.windowLeft i
  sdpa : ∀ call : SdpaCall α, ∀ i < call.query.tokens,
    sees (.sdpa call) i = {j | j < call.key.tokens ∧ (call.isCausal = true → j ≤ i) ∧
      ∀ mask, call.attnMask = some mask → ∀ row, mask[i]? = some row → row[j]? ≠ some ⊥}

variable {sees : KernelCall α → ℕ → Set ℕ}

/-- In the call of a kernel of FlashInfer the queries see the keys in the window of the layer. -/
theorem kernelCall_sees (hdoc : Documented sees) : ∀ i < query.tokens,
    sees (kernelCall query key value scaling slidingWindow) i =
      causalWindow query.tokens key.tokens (windowLeft slidingWindow) i := by
  have hrows : ∀ tensor : HeadTensor α, tensor.transposed.rows.length = tensor.tokens := fun _ => by
    simp [HeadTensor.transposed]
  unfold kernelCall
  intro i hi
  split_ifs with htokens
  · obtain rfl : i = 0 := by omega
    rw [hdoc.decode, htokens]
    simp only [decodeCall, hrows]
  · rw [hdoc.prefill _ rfl i (by simpa only [prefillCall, hrows] using hi)]
    simp only [prefillCall, hrows]

/-- The mask of the fallback is open where a causal mask without a window is. -/
theorem bottomRightMask_open {qLen kvLen i j : ℕ} (hi : i < qLen) (hj : j < kvLen) :
    (∀ row, (bottomRightMask qLen kvLen)[i]? = some row → row[j]? ≠ some ⊥) ↔
      (j : ℤ) ≤ i + kvLen - qLen := by
  have hrow : (bottomRightMask qLen kvLen)[i]? = some ((List.range kvLen).map fun (kIdx : ℕ) =>
      if (kIdx : ℤ) ≤ i + (kvLen - qLen) then ((0 : ℚ) : WithBot ℚ) else ⊥) := by
    simp [bottomRightMask, hi]
  simp only [hrow, Option.some.injEq, forall_eq', List.getElem?_map, List.getElem?_range hj,
    Option.map_some]
  split_ifs with hopen
  · simp
    omega
  · simp
    omega

/-- The call of the fallback hides nothing but the keys after that of the query. -/
theorem sdpaCall_open (query key value : HeadTensor α) (scaling : ℚ) {causal : Bool}
    (hcausal : causal = false → query.tokens = 1) {i j : ℕ} (hi : i < query.tokens)
    (hj : j < key.tokens) :
    ((sdpaCall query key value scaling causal).isCausal = true → j ≤ i) ∧
      (∀ mask, (sdpaCall query key value scaling causal).attnMask = some mask →
        ∀ row, mask[i]? = some row → row[j]? ≠ some ⊥) ↔
    (j : ℤ) ≤ i + key.tokens - query.tokens := by
  cases causal with
  | false =>
    have hone := hcausal rfl
    simp [sdpaCall]
    omega
  | true =>
    by_cases hsquare : query.tokens = key.tokens
    · simp [sdpaCall, hsquare]
    · have hmask := bottomRightMask_open hi hj
      simpa [sdpaCall, hsquare] using hmask

/-- In the call of the fallback the queries see all keys up to their own, in any case. -/
theorem sdpaCall_sees (hdoc : Documented sees) {key' value' : HeadTensor α}
    (htokens : key'.tokens = key.tokens) : ∀ i < query.tokens,
    sees (.sdpa (sdpaCall query key' value' scaling (query.tokens ≠ 1))) i =
      causalWindow query.tokens key.tokens (-1) i := by
  intro i hi
  rw [hdoc.sdpa _ i hi]
  ext j
  have hcausal : decide (query.tokens ≠ 1) = false → query.tokens = 1 := by simp
  have hopen (hj : j < key'.tokens) := sdpaCall_open query key' value' scaling hcausal hi hj
  constructor
  · rintro ⟨hj, hread⟩
    exact ⟨htokens ▸ hj, htokens ▸ (hopen hj).1 hread, by simp⟩
  · rintro ⟨hj, hread, -⟩
    rw [← htokens] at hj hread
    exact ⟨hj, (hopen hj).2 hread⟩

/-- A window changes what some row reads if it starts after the first key for the last query. -/
theorem causalWindow_eq_iff {qLen kvLen : ℕ} (hpos : 1 ≤ qLen) (hle : qLen ≤ kvLen)
    (slidingWindow : Option ℤ) :
    (∀ i < qLen, causalWindow qLen kvLen (windowLeft slidingWindow) i =
        causalWindow qLen kvLen (-1) i) ↔
      ∀ w, slidingWindow = some w → 0 < w → (kvLen : ℤ) ≤ w + 1 := by
  constructor
  · rintro hall w rfl hw
    -- without the window the last query reads the first key
    have hfirst : 0 ∈ causalWindow qLen kvLen (-1) (qLen - 1) :=
      ⟨by omega, by omega, by omega⟩
    rw [← hall (qLen - 1) (by omega), windowLeft, if_neg hw.ne'] at hfirst
    have hreach := hfirst.2.2 hw.le
    omega
  · intro hcond i hi
    cases slidingWindow with
    | none => rfl
    | some w =>
      ext j
      have hw := hcond w rfl
      simp only [causalWindow, windowLeft, Set.mem_ofPred_eq]
      split_ifs with hzero
      · rfl
      · omega

/-- The fallback shows the same keys as the kernel of FlashInfer that is missing or raises, to every
query, exactly if the layer has no window or one that reaches from the last query to the first
key. -/
theorem fallback_sees_iff {broken : Option (FlashInferModule α O)} {out' : AttentionOutput α O}
    {st₁ st₂ : AttentionState α} (hdoc : Documented sees)
    (hpos : 1 ≤ query.tokens) (hle : query.tokens ≤ key.tokens)
    (hfound : kernelOutput flashinfer query key value scaling slidingWindow ≠ none)
    (hbroken : kernelOutput broken query key value scaling slidingWindow = none)
    (hout : forward flashinfer sdpa context layerIdx device query key value scaling slidingWindow
      st = (.ok out, st₁))
    (hout' : forward broken sdpa context layerIdx device query key value scaling slidingWindow
      st = (.ok out', st₂)) :
    (∀ i < query.tokens, sees out'.call i = sees out.call i) ↔
      ∀ w, slidingWindow = some w → 0 < w → (key.tokens : ℤ) ≤ w + 1 := by
  have hkernel : out.call = kernelCall query key value scaling slidingWindow := by
    rcases forward_ok hout with ⟨-, hcall, -⟩ | ⟨hnone, -⟩
    · exact hcall
    · exact absurd hnone hfound
  have hfallback :
      torchAttentionFallback sdpa query key value scaling (query.tokens ≠ 1) = .ok out' := by
    rcases forward_ok hout' with ⟨hsome, -⟩ | ⟨-, hfallback, -⟩
    · rw [hbroken] at hsome
      cases hsome
    · exact hfallback
  obtain ⟨key', value', htokens, hcall'⟩ := torchAttentionFallback_ok hfallback
  rw [← causalWindow_eq_iff hpos hle slidingWindow]
  refine forall₂_congr fun i hi => ?_
  rw [hkernel, hcall', kernelCall_sees hdoc i hi, sdpaCall_sees hdoc htokens i hi, eq_comm]

/-! ## A query of one token -/

/-- The keys that are seen, as documented. -/
def documentedSees : KernelCall ℕ → ℕ → Set ℕ
  | .decode call, i => causalWindow 1 call.k.length call.windowLeft i
  | .prefill call, i => causalWindow call.q.length call.k.length call.windowLeft i
  | .sdpa call, i => {j | j < call.key.tokens ∧ (call.isCausal = true → j ≤ i) ∧
      ∀ mask, call.attnMask = some mask → ∀ row, mask[i]? = some row → row[j]? ≠ some ⊥}

theorem documented_documentedSees : Documented documentedSees where
  decode _ := rfl
  prefill _ _ _ _ := rfl
  sdpa _ _ _ := rfl

/-- Kernels that always return. -/
def workingModule : FlashInferModule ℕ Unit where
  singleDecode := some fun _ => .ok ()
  singlePrefill := some fun _ => .ok ()

def workingSdpa (_ : SdpaCall ℕ) : Except PyError Unit :=
  .ok ()

/-- A query or key of tokens with one head. -/
def oneHead (tokens : ℕ) : HeadTensor ℕ where
  batchSize := 1
  numHeads := 1
  tokens := tokens
  headDim := 1
  values := fun _ _ token _ => token

/-- A prefill over seven keys without a window sees the same keys either way. -/
theorem fallback_sees_sevenKeys : ∃ out out' st₁ st₂,
    forward (some workingModule) workingSdpa none none "cuda" (oneHead 3) (oneHead 7) (oneHead 7)
        1 none { tensors := KVTensors.emptyTensors } = (.ok out, st₁) ∧
      forward none workingSdpa none none "cuda" (oneHead 3) (oneHead 7) (oneHead 7)
        1 none { tensors := KVTensors.emptyTensors } = (.ok out', st₂) ∧
      ∀ i < 3, documentedSees out'.call i = documentedSees out.call i := by
  have hkernel : forward (some workingModule) workingSdpa none none "cuda" (oneHead 3)
      (oneHead 7) (oneHead 7) 1 none { tensors := KVTensors.emptyTensors } = (.ok _, _) := rfl
  have hfallback : forward none workingSdpa none none "cuda" (oneHead 3)
      (oneHead 7) (oneHead 7) 1 none { tensors := KVTensors.emptyTensors } = (.ok _, _) := rfl
  refine ⟨_, _, _, _, hkernel, hfallback, ?_⟩
  refine (fallback_sees_iff documented_documentedSees (by decide) (by decide) ?_ rfl hkernel
    hfallback).2 ?_
  · exact Option.ne_none_iff_exists'.2 ⟨_, rfl⟩
  · rintro w ⟨⟩

/-- A query of one token in a layer with a window of one key to its left. The kernel shows it the
last two of three keys, and the fallback all three. -/
theorem not_fallback_sees : ¬∀ (α O : Type) (sees : KernelCall α → ℕ → Set ℕ)
    (flashinfer broken : Option (FlashInferModule α O)) (sdpa : SdpaCall α → Except PyError O)
    (context : Option KVContext) (layerIdx : Option ℤ) (device : String)
    (query key value : HeadTensor α) (scaling : ℚ) (slidingWindow : Option ℤ)
    (st st₁ st₂ : AttentionState α) (out out' : AttentionOutput α O), Documented sees →
    1 ≤ query.tokens → query.tokens ≤ key.tokens → (∀ w, slidingWindow = some w → 0 < w) →
    kernelOutput flashinfer query key value scaling slidingWindow ≠ none →
    kernelOutput broken query key value scaling slidingWindow = none →
    forward flashinfer sdpa context layerIdx device query key value scaling slidingWindow st =
      (.ok out, st₁) →
    forward broken sdpa context layerIdx device query key value scaling slidingWindow st =
      (.ok out', st₂) →
    ∀ i < query.tokens, sees out'.call i = sees out.call i := by
  intro h
  have hkernel : forward (some workingModule) workingSdpa none none "cuda" (oneHead 1)
      (oneHead 3) (oneHead 3) 1 (some 1) { tensors := KVTensors.emptyTensors } = (.ok _, _) := rfl
  have hfallback : forward none workingSdpa none none "cuda" (oneHead 1)
      (oneHead 3) (oneHead 3) 1 (some 1) { tensors := KVTensors.emptyTensors } = (.ok _, _) := rfl
  have hsame := h _ _ _ _ _ _ _ _ _ _ _ _ _ _ _ _ _ _ _ documented_documentedSees (by decide)
    (by decide) (fun w hw => by cases hw; decide) (Option.ne_none_iff_exists'.2 ⟨_, rfl⟩) rfl
    hkernel hfallback 0 (by decide)
  have hread :
      0 ∈ documentedSees (.sdpa (sdpaCall (oneHead 1) (oneHead 3) (oneHead 3) 1 false)) 0 :=
    ⟨by decide, by simp, by rintro mask ⟨⟩⟩
  have hhidden : 0 ∉ documentedSees
      (.decode (decodeCall (oneHead 1) (oneHead 3) (oneHead 3) 1 (some 1))) 0 := fun hin =>
    absurd (hin.2.2 (by decide)) (by decide)
  exact hhidden (hsame ▸ hread)

end Attention

end SoloRT
