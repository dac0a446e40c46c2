import SoloRT.Sequence
import SoloRT.CausalStack
import SoloRT.Softmax

/-!
# The layers of the CUDA-graph runner

`_GraphQwen3Runner` has three hand-written forward passes over its static KV : a prefill of a padded
prompt, a decode of one token, and a verification of some tokens at once
(`model/cuda_graph_executor.py`). This is what they compute, over any field. Vectors are lists and a
matrix is the list of its rows, so `x @ w.T` is `linear w x`. Every layer has an arena, with the
key and value heads by position (`kc[li]`, `vc[li]`).

`Functional` are the functions of torch that are not arithmetic. `Documented` is what their
documentation says of `softmax` and `scaled_dot_product_attention`.
-/

namespace SoloRT

open Softmax

/-- The functions of torch that the passes call. The attention is that of one head. -/
structure Functional (R : Type) where
  rsqrt : R → R
  silu : R → R
  cos : R → R
  sin : R → R
  softmax : List (WithBot R) → List R
  scaledDotProductAttention (query key value : List (List R)) (attnMask : Option (List (List Bool)))
    (isCausal : Bool) (scale : R) : List (List R)

/-- The scores of a query. -/
def scores {R : Type} [Field R] (scale : R) (query : List R) (keys : List (List R)) :
    List (WithBot R) :=
  keys.map fun k => ((dot query k * scale : R) : WithBot R)

/-- A boolean mask says which keys take part. `is_causal` is the mask of a square that starts at
its top left corner. -/
structure Functional.Documented {R : Type} [Field R] (F : Functional R) : Prop where
  softmax_eq : ∃ exp : R → R, ∀ scores, F.softmax scores = Softmax.softmax exp scores
  masked : ∀ (query key value : List (List R)) (mask : List (List Bool)) (scale : R),
    F.scaledDotProductAttention query key value (some mask) false scale =
      List.zipWith (fun q keep => combine (F.softmax
        (maskedFill (scores scale q key) (keep.map not))) value) query mask
  causal : ∀ (query key value : List (List R)) (scale : R),
    F.scaledDotProductAttention query key value none true scale =
      F.scaledDotProductAttention query key value
        (some ((List.range query.length).map fun i =>
          (List.range key.length).map fun j => decide (j ≤ i))) false scale

/-- Functions as documented, from an exponential. -/
def Functional.ofExp {R : Type} [Field R] (exp rsqrt silu cos sin : R → R) : Functional R where
  rsqrt
  silu
  cos
  sin
  softmax := Softmax.softmax exp
  scaledDotProductAttention query key value attnMask isCausal scale :=
    let keep := attnMask.getD ((List.range query.length).map fun i =>
      (List.range key.length).map fun j => decide (isCausal = true → j ≤ i))
    List.zipWith (fun q keep => combine (Softmax.softmax exp
      (maskedFill (scores scale q key) (keep.map not))) value) query keep

theorem Functional.documented_ofExp {R : Type} [Field R] (exp rsqrt silu cos sin : R → R) :
    (ofExp exp rsqrt silu cos sin).Documented where
  softmax_eq := ⟨exp, fun _ => rfl⟩
  masked _ _ _ _ _ := rfl
  causal query key value scale := by simp [ofExp]

/-- The weights of a decoder layer of the model. -/
structure DecoderLayer (R : Type) where
  inputLayernorm : List R
  postAttentionLayernorm : List R
  qProj : List (List R)
  kProj : List (List R)
  vProj : List (List R)
  oProj : List (List R)
  qNorm : List R
  kNorm : List R
  gateProj : List (List R)
  upProj : List (List R)
  downProj : List (List R)

/-- The weights of a layer, as the runner keeps them. -/
structure Qwen3Layer (R : Type) where
  inLn : List R
  postLn : List R
  wqkv : List (List R)
  wo : List (List R)
  qn : List R
  kn : List R
  wgu : List (List R)
  wd : List (List R)

/-- The projections are fused : three to `wqkv`, and two to `wgu`. -/
def DecoderLayer.fuse {R : Type} (l : DecoderLayer R) : Qwen3Layer R where
  inLn := l.inputLayernorm
  postLn := l.postAttentionLayernorm
  wqkv := l.qProj ++ l.kProj ++ l.vProj
  wo := l.oProj
  qn := l.qNorm
  kn := l.kNorm
  wgu := l.gateProj ++ l.upProj
  wd := l.downProj

/-- The key and value heads of a token in a layer. -/
structure HeadKV (R : Type) where
  k : List (List R)
  v : List (List R)
  deriving DecidableEq, Repr

/-- The fixed fields of a runner. -/
structure Qwen3Model (R : Type) where
  F : Functional R
  nh : ℕ
  nkv : ℕ
  hd : ℕ
  /-- `q.reshape(nkv, groups, hd)` raises otherwise. -/
  nkv_dvd : nkv ∣ nh
  eps : R
  scale : R
  maxLen : ℕ
  embed : List (List R)
  finalNorm : List R
  lmHead : List (List R)
  inter : ℕ
  invFreq : List R
  layers : List (Qwen3Layer R)

namespace Qwen3Model

variable {R : Type} [Field R]

/-! ## The functions on a row -/

/-- `x @ w.T`. -/
def linear (w : List (List R)) (x : List R) : List R :=
  w.map (dot x)

def add (x y : List R) : List R :=
  List.zipWith (· + ·) x y

/-- `x.view(n, d)`. -/
def view (n d : ℕ) (x : List R) : List (List R) :=
  (List.range n).map fun i => (x.drop (i * d)).take d

/-- `x.repeat_interleave(n, 0)`. -/
def repeatInterleave {α : Type} (n : ℕ) (x : List α) : List α :=
  x.flatMap (List.replicate n)

/-- The rows of a matrix with its first two axes swapped, `n` of them. -/
def transpose {α : Type} (n : ℕ) (default : α) (x : List (List α)) : List (List α) :=
  (List.range n).map fun i => x.map (·.getD i default)

variable (m : Qwen3Model R)

def groups : ℕ :=
  m.nh / m.nkv

def qDim : ℕ :=
  m.nh * m.hd

def kvDim : ℕ :=
  m.nkv * m.hd

/-- `_rmsnorm`. -/
def rmsnorm (x w : List R) : List R :=
  let s := m.F.rsqrt ((x.map (· ^ 2)).sum / x.length + m.eps)
  List.zipWith (fun d w => d * s * w) x w

/-- `_cos_sin`, at one position. -/
def cosSin (position : ℕ) : List R × List R :=
  let freqs := m.invFreq.map fun f => (position : R) * f
  let emb := freqs ++ freqs
  (emb.map m.F.cos, emb.map m.F.sin)

/-- `_rope`. -/
def rope (x : List R) (cosSin : List R × List R) : List R :=
  let d := x.length / 2
  add (List.zipWith (· * ·) x cosSin.1)
    (List.zipWith (· * ·) ((x.drop d).map (-·) ++ x.take d) cosSin.2)

/-- The query heads of a row, and its key and value heads. -/
def project (ly : Qwen3Layer R) (position : ℕ) (x : List R) : List (List R) × HeadKV R :=
  let qkv := linear ly.wqkv (m.rmsnorm x ly.inLn)
  let q := view m.nh m.hd (qkv.take m.qDim)
  let k := view m.nkv m.hd ((qkv.drop m.qDim).take m.kvDim)
  let v := view m.nkv m.hd ((qkv.drop (m.qDim + m.kvDim)).take m.kvDim)
  let cosSin := m.cosSin position
  (q.map fun h => rope (m.rmsnorm h ly.qn) cosSin,
    ⟨k.map fun h => rope (m.rmsnorm h ly.kn) cosSin, v⟩)

/-- What follows the attention in a layer. -/
def feedForward (ly : Qwen3Layer R) (x ctx : List R) : List R :=
  let x := add x (linear ly.wo ctx)
  let gu := linear ly.wgu (m.rmsnorm x ly.postLn)
  let gate := gu.take m.inter
  let up := (gu.drop m.inter).take m.inter
  add x (linear ly.wd (List.zipWith (fun g u => m.F.silu g * u) gate up))

/-- The hidden state of a token before the first layer. -/
def embedding (tokenId : TokenId) : List R :=
  m.embed.getD tokenId.toNat []

/-- The logits of a hidden state after the last layer. -/
def logits (hidden : List R) : List R :=
  linear m.lmHead hidden

/-! ## The passes -/

/-- The attention of a decode : the query heads are grouped by the key head that they share, and
the keys after the position are masked. -/
def groupedAttention (bound position : ℕ) (q : List (List R)) (arena : ℕ → HeadKV R) : List R :=
  let nkeep := (List.range bound).map fun j => decide (position < j)
  (List.range m.nkv).flatMap fun head =>
    let qg := (q.drop (head * m.groups)).take m.groups
    let kt := (List.range bound).map fun j => (arena j).k.getD head []
    let vb := (List.range bound).map fun j => (arena j).v.getD head []
    qg.flatMap fun query => combine (m.F.softmax (maskedFill (scores m.scale query kt) nkeep)) vb

def decodeLayers (bound posBuf : ℕ) :
    List (Qwen3Layer R) → List (ℕ → HeadKV R) → List R → List R × List (ℕ → HeadKV R)
  | ly :: layers, arena :: arenas, x =>
    let (q, kv) := m.project ly posBuf x
    let arena := StaticArena.write arena posBuf [kv]
    let ctx := m.groupedAttention bound posBuf q arena
    let (x, arenas) := decodeLayers bound posBuf layers arenas (m.feedForward ly x ctx)
    (x, arena :: arenas)
  | _, arenas, x => (x, arenas)

/-- `_decode_forward`, with the buffers `tok_buf` and `pos_buf`. -/
def decodeForward (bound : ℕ) (tokBuf : TokenId) (posBuf : ℕ) (arenas : List (ℕ → HeadKV R)) :
    List R × List (ℕ → HeadKV R) :=
  let (x, arenas) := m.decodeLayers bound posBuf m.layers arenas (m.embedding tokBuf)
  (m.logits (m.rmsnorm x m.finalNorm), arenas)

/-- The attention of several rows to some keys, with `sdpa` for each query head. Every key head is
repeated for the query heads that share it. -/
def expandedAttention (sdpa : List (List R) → List (List R) → List (List R) → List (List R))
    (qs : List (List (List R))) (keys : List (HeadKV R)) : List (List R) :=
  let q := transpose m.nh [] qs
  let kk := repeatInterleave m.groups (transpose m.nkv [] (keys.map HeadKV.k))
  let vv := repeatInterleave m.groups (transpose m.nkv [] (keys.map HeadKV.v))
  let ctx := List.zipWith (fun q kv => sdpa q kv.1 kv.2) q (kk.zip vv)
  (transpose qs.length [] ctx).map List.flatten

/-- Prefill rows attend to each other, and not to the arena. -/
def prefillLayers : List (Qwen3Layer R) → List (ℕ → HeadKV R) → List (List R) →
    List (List R) × List (ℕ → HeadKV R)
  | ly :: layers, arena :: arenas, xs =>
    let rows := xs.mapIdx (m.project ly)
    let arena := StaticArena.write arena 0 (rows.map Prod.snd)
    let sdpa q k v := m.F.scaledDotProductAttention q k v none true m.scale
    let ctx := m.expandedAttention sdpa (rows.map Prod.fst) (rows.map Prod.snd)
    let (xs, arenas) := prefillLayers layers arenas (List.zipWith (m.feedForward ly) xs ctx)
    (xs, arena :: arenas)
  | _, arenas, xs => (xs, arenas)

/-- `_prefill_forward`, with the buffer `pre_tok[:bound]`. -/
def prefillForward (preTok : List TokenId) (arenas : List (ℕ → HeadKV R)) :
    List (List R) × List (ℕ → HeadKV R) :=
  let (xs, arenas) := m.prefillLayers m.layers arenas (preTok.map m.embedding)
  (xs.map (m.rmsnorm · m.finalNorm), arenas)

def verifyLayers (vpos0 : ℕ) (keep : List (List Bool)) : List (Qwen3Layer R) →
    List (ℕ → HeadKV R) → List (List R) → List (List R) × List (ℕ → HeadKV R)
  | ly :: layers, arena :: arenas, xs =>
    let rows := xs.mapIdx fun i => m.project ly (vpos0 + i)
    let arena := StaticArena.write arena vpos0 (rows.map Prod.snd)
    let sdpa q k v := m.F.scaledDotProductAttention q k v (some keep) false m.scale
    let ctx := m.expandedAttention sdpa (rows.map Prod.fst) ((List.range m.maxLen).map arena)
    let (xs, arenas) := verifyLayers vpos0 keep layers arenas
      (List.zipWith (m.feedForward ly) xs ctx)
    (xs, arena :: arenas)
  | _, arenas, xs => (xs, arenas)

/-- `_verify_forward`, with the buffers `vtok` and `vpos0`. -/
def verifyForward (vtok : List TokenId) (vpos0 : ℕ) (arenas : List (ℕ → HeadKV R)) :
    List (List R) × List (ℕ → HeadKV R) :=
  let keep := (List.range vtok.length).map fun i =>
    (List.range m.maxLen).map fun j => decide (j ≤ vpos0 + i)
  let (xs, arenas) := m.verifyLayers vpos0 keep m.layers arenas (vtok.map m.embedding)
  (xs.map fun x => m.logits (m.rmsnorm x m.finalNorm), arenas)

end Qwen3Model

end SoloRT
