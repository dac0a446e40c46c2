import Mathlib.Algebra.Field.Rat
import SoloRT.Qwen3Layers

/-!
# The three passes compute one function

A layer of the runner is a causal layer (`layer`) : the state of a token goes on by its own key and
value, and those of the tokens before it. The passes reach the same attention in different ways. A
decode groups the query heads, and masks the keys of its bucket after the position. The others
repeat the key heads, and give a mask or `is_causal` to `scaled_dot_product_attention`.

So each pass feeds its tokens to the function `tokenRow` one after the other, and leaves their
entries in the arenas.
-/

namespace SoloRT

open Softmax

namespace Qwen3Model

variable {R : Type} [Field R]

/-! ## Heads -/

theorem range_mul_flatMap {α : Type} (n g : ℕ) (f : ℕ → List α) :
    (List.range (n * g)).flatMap f =
      (List.range n).flatMap fun j => (List.range g).flatMap fun i => f (j * g + i) := by
  induction n with
  | zero => simp
  | succ n ih =>
    rw [Nat.succ_mul, List.range_add, List.flatMap_append, ih, List.range_succ,
      List.flatMap_append, List.flatMap_map]
    simp

theorem repeatInterleave_map {α : Type} (n g : ℕ) (f : ℕ → α) :
    repeatInterleave g ((List.range n).map f) = (List.range (n * g)).map fun h => f (h / g) := by
  rw [List.map_eq_flatMap (l := List.range (n * g)), range_mul_flatMap, repeatInterleave,
    List.flatMap_map]
  refine List.flatMap_congr fun j _ => ?_
  rw [← List.map_eq_flatMap]
  refine List.ext_getElem (by simp) fun i h _ => ?_
  have hi : i < g := by simpa using h
  simp [Nat.mul_add_div (Nat.zero_lt_of_lt hi), Nat.mul_comm j, Nat.div_eq_of_lt hi]

theorem take_drop_eq_map {α : Type} (x : List α) (default : α) (j g : ℕ)
    (h : j * g + g ≤ x.length) :
    (x.drop (j * g)).take g = (List.range g).map fun i => x.getD (j * g + i) default := by
  refine List.ext_getElem (by simp; omega) fun i hi _ => ?_
  have hi : i < g := by
    simp only [List.length_take] at hi
    omega
  simp [List.getElem?_eq_getElem (show j * g + i < x.length by omega)]

variable (m : Qwen3Model R)

omit [Field R] in
theorem nkv_mul_groups : m.nkv * m.groups = m.nh :=
  Nat.mul_div_cancel' m.nkv_dvd

/-- The attention of the query heads of a row to some keys. -/
def attention (q : List (List R)) (ks : List (HeadKV R)) : List R :=
  (List.range m.nh).flatMap fun h =>
    combine (m.F.softmax (scores m.scale (q.getD h []) (ks.map (·.k.getD (h / m.groups) []))))
      (ks.map (·.v.getD (h / m.groups) []))

/-- A layer as a function of the entries up to the token. -/
def layer (ly : Qwen3Layer R) : CausalLayer (List R) (HeadKV R) where
  entry pos x := (m.project ly pos x).2
  mix pos ks x := m.feedForward ly x (m.attention (m.project ly pos x).1 ks)

/-- The entries and the logits of a token, from the entries before it. -/
def tokenRow (visible : List (ℕ × List (HeadKV R))) (pos : ℕ) (tokenId : TokenId) :
    List (HeadKV R) × List R :=
  Prod.map id (fun x => m.logits (m.rmsnorm x m.finalNorm))
    (CausalStack.row (m.layers.map m.layer) visible pos (m.embedding tokenId))

variable {m}

/-! ## The attentions -/

/-- Masked scores have no part in the attention. -/
theorem combine_masked (hdoc : m.F.Documented) (q : List R) (keys values : List (List R)) {p : ℕ}
    (hp : p < keys.length) :
    combine (m.F.softmax (maskedFill (scores m.scale q keys)
        ((List.range keys.length).map fun j => decide (p < j)))) values =
      combine (m.F.softmax (scores m.scale q (keys.take (p + 1)))) (values.take (p + 1)) := by
  obtain ⟨exp, hexp⟩ := hdoc.softmax_eq
  have hlen : (scores m.scale q keys).length = keys.length := List.length_map _
  have htake : (scores m.scale q keys).take (p + 1) = scores m.scale q (keys.take (p + 1)) :=
    (List.map_take ..).symm
  rw [hexp, hexp, ← hlen, combine_maskedFill exp _ (hlen ▸ hp), htake]

theorem groupedAttention_eq (hdoc : m.F.Documented) {bound position : ℕ}
    (hlt : position < bound) {q : List (List R)} (hq : q.length = m.nh) (arena : ℕ → HeadKV R) :
    m.groupedAttention bound position q arena =
      m.attention q ((List.range (position + 1)).map arena) := by
  have hlen : m.nkv * m.groups = q.length := m.nkv_mul_groups.trans hq.symm
  rw [attention, ← m.nkv_mul_groups, range_mul_flatMap, groupedAttention]
  refine List.flatMap_congr fun head hhead => ?_
  have hhead : head < m.nkv := List.mem_range.1 hhead
  have hfit : head * m.groups + m.groups ≤ q.length := by
    rw [← hlen, ← Nat.succ_mul]
    exact Nat.mul_le_mul_right _ hhead
  rw [take_drop_eq_map q [] head m.groups hfit, List.flatMap_map]
  refine List.flatMap_congr fun i hi => ?_
  have hi : i < m.groups := List.mem_range.1 hi
  have hdiv : (head * m.groups + i) / m.groups = head := by
    rw [Nat.mul_comm, Nat.mul_add_div (Nat.zero_lt_of_lt hi), Nat.div_eq_of_lt hi, Nat.add_zero]
  have hmask := combine_masked hdoc (q.getD (head * m.groups + i) [])
    ((List.range bound).map fun j => (arena j).k.getD head [])
    ((List.range bound).map fun j => (arena j).v.getD head []) (p := position) (by simpa)
  have htake : (List.range bound).take (position + 1) = List.range (position + 1) := by
    rw [List.take_range, Nat.min_eq_left hlt]
  rw [List.length_map, List.length_range, ← List.map_take, ← List.map_take, htake] at hmask
  rw [hmask, hdiv, List.map_map, List.map_map]
  rfl

/-- A row of the attention of torch, under a mask that shows the keys up to a position. -/
theorem sdpa_getD (hdoc : m.F.Documented) {query key value : List (List R)}
    {mask : List (List Bool)} {i p : ℕ} (hi : i < query.length)
    (hmask : mask[i]? = some ((List.range key.length).map fun j => decide (j ≤ p)))
    (hp : p < key.length) :
    (m.F.scaledDotProductAttention query key value (some mask) false m.scale).getD i [] =
      combine (m.F.softmax (scores m.scale (query.getD i []) (key.take (p + 1))))
        (value.take (p + 1)) := by
  have hnot : ((List.range key.length).map fun j => decide (j ≤ p)).map not =
      (List.range key.length).map fun j => decide (p < j) := by
    rw [List.map_map]
    refine List.map_congr_left fun j _ => ?_
    rw [Function.comp_apply, ← decide_not, decide_eq_decide]
    exact not_le
  rw [hdoc.masked, List.getD_eq_getElem?_getD, List.getElem?_zipWith, hmask,
    List.getElem?_eq_getElem hi, List.getD_eq_getElem?_getD, List.getElem?_eq_getElem hi]
  dsimp only [Option.getD_some]
  rw [hnot, combine_masked hdoc _ _ _ hp]

omit [Field R] in
/-- A row of the attention of several rows, from the attention of each query head. -/
theorem expandedAttention_eq
    (sdpa : List (List R) → List (List R) → List (List R) → List (List R))
    (qs : List (List (List R))) (keys : List (HeadKV R)) :
    m.expandedAttention sdpa qs keys = (List.range qs.length).map fun i =>
      (List.range m.nh).flatMap fun h => (sdpa (qs.map (·.getD h []))
        (keys.map (·.k.getD (h / m.groups) [])) (keys.map (·.v.getD (h / m.groups) []))).getD
          i [] := by
  have hheads : ∀ f : HeadKV R → List (List R),
      repeatInterleave m.groups (transpose m.nkv [] (keys.map f)) =
        (List.range m.nh).map fun h => keys.map fun kv => (f kv).getD (h / m.groups) [] := by
    intro f
    rw [transpose, repeatInterleave_map, m.nkv_mul_groups]
    simp only [List.map_map, Function.comp_def]
  unfold expandedAttention
  dsimp only
  rw [hheads HeadKV.k, hheads HeadKV.v, List.zip_map', transpose, transpose, List.map_map]
  refine List.map_congr_left fun i _ => ?_
  rw [List.zipWith_map, List.zipWith_self, Function.comp_apply, List.map_map, List.flatMap_def]
  rfl

/-- Causal rows attend to the rows up to their own. -/
theorem causalAttention_eq (hdoc : m.F.Documented) (qs : List (List (List R)))
    (keys : List (HeadKV R)) (hlen : qs.length = keys.length) :
    m.expandedAttention (fun q k v => m.F.scaledDotProductAttention q k v none true m.scale)
        qs keys =
      (List.range qs.length).map fun i => m.attention (qs.getD i []) (keys.take (i + 1)) := by
  rw [expandedAttention_eq]
  refine List.map_congr_left fun i hi => List.flatMap_congr fun h _ => ?_
  have hi : i < qs.length := List.mem_range.1 hi
  rw [hdoc.causal, sdpa_getD hdoc (p := i) (by simpa) (by simp [hi]) (by simpa [← hlen]),
    ← List.map_take, ← List.map_take]
  simp [List.getElem?_eq_getElem hi]

/-- Rows under the mask of a verification attend to the arena up to their position. -/
theorem keptAttention_eq (hdoc : m.F.Documented) (pos : ℕ) {n : ℕ} (qs : List (List (List R)))
    (arena : ℕ → HeadKV R) (hfit : pos + qs.length ≤ n) :
    m.expandedAttention (fun q k v => m.F.scaledDotProductAttention q k v
        (some ((List.range qs.length).map fun i => (List.range n).map fun j =>
          decide (j ≤ pos + i))) false m.scale) qs ((List.range n).map arena) =
      (List.range qs.length).map fun i =>
        m.attention (qs.getD i []) ((List.range (pos + i + 1)).map arena) := by
  rw [expandedAttention_eq]
  refine List.map_congr_left fun i hi => List.flatMap_congr fun h _ => ?_
  have hi : i < qs.length := List.mem_range.1 hi
  have hp : pos + i < n := by omega
  have htake : (List.range n).take (pos + i + 1) = List.range (pos + i + 1) := by
    rw [List.take_range, Nat.min_eq_left hp]
  rw [sdpa_getD hdoc (p := pos + i) (by simpa) (by simp [hi]) (by simpa)]
  simp only [← List.map_take, htake]
  simp [List.getElem?_eq_getElem hi]

/-! ## The passes -/

omit [Field R] in
theorem map_mapIdx {α β : Type} (f : α → β) (g : ℕ → List R → α) (xs : List (List R)) :
    (xs.mapIdx g).map f = xs.mapIdx fun i x => f (g i x) :=
  List.ext_getElem (by simp) (by simp)

/-- A layer that takes some tokens. -/
theorem forward_layer (ly : Qwen3Layer R) {bound pos : ℕ} (hpos : pos ≤ bound)
    (xs : List (List R)) (arena : ℕ → HeadKV R) :
    StaticArena.forward (m.layer ly).row bound pos xs arena =
      (xs.mapIdx fun i x => m.feedForward ly x (m.attention (m.project ly (pos + i) x).1
          ((List.range pos).map arena ++
            (xs.mapIdx fun j y => (m.project ly (pos + j) y).2).take (i + 1))),
        StaticArena.write arena pos (xs.mapIdx fun j y => (m.project ly (pos + j) y).2)) := by
  have hbelow : (StaticArena.below arena pos).map Prod.snd = (List.range pos).map arena := by
    rw [StaticArena.below, List.map_map]
    rfl
  rw [StaticArena.forward, StaticArena.masked_eq_below arena hpos, CausalLayer.rows_row, hbelow,
    map_mapIdx, map_mapIdx]
  rfl

theorem length_project (ly : Qwen3Layer R) (pos : ℕ) (x : List R) :
    (m.project ly pos x).1.length = m.nh := by
  simp [project, view]

theorem decodeLayers_eq (hdoc : m.F.Documented) {bound pos : ℕ} (hlt : pos < bound) :
    ∀ (layers : List (Qwen3Layer R)) (arenas : List (ℕ → HeadKV R)) (x : List R),
      CausalStack.forwardLayers bound pos (layers.map m.layer) arenas [x] =
        ([(m.decodeLayers bound pos layers arenas x).1],
          (m.decodeLayers bound pos layers arenas x).2)
  | [], arenas, x => by
    cases arenas <;> rfl
  | ly :: layers, [], x => rfl
  | ly :: layers, arena :: arenas, x => by
    have hwrite := StaticArena.map_write arena pos
      (show 0 < [(m.project ly pos x).2].length by simp)
    rw [List.map_cons, CausalStack.forwardLayers, forward_layer ly hlt.le]
    have hattention := groupedAttention_eq hdoc hlt (m.length_project ly pos x)
      (StaticArena.write arena pos [(m.project ly pos x).2])
    rw [hwrite] at hattention
    simp only [List.mapIdx_cons, List.mapIdx_nil, Nat.add_zero, decodeLayers, hattention]
    rw [decodeLayers_eq hdoc hlt layers arenas]

omit [Field R] in
theorem zipWith_range {α β : Type} (f : List R → α → List R) (xs : List (List R))
    (q : ℕ → List R → β) (g : ℕ → β → α) (default : β) :
    List.zipWith f xs ((List.range xs.length).map fun i => g i ((xs.mapIdx q).getD i default)) =
      xs.mapIdx fun i x => f x (g i (q i x)) := by
  refine List.ext_getElem (by simp) fun i hi _ => ?_
  have hi : i < xs.length := by simpa using hi
  simp [hi]

theorem prefillLayers_eq (hdoc : m.F.Documented) (bound : ℕ) :
    ∀ (layers : List (Qwen3Layer R)) (arenas : List (ℕ → HeadKV R)) (xs : List (List R)),
      CausalStack.forwardLayers bound 0 (layers.map m.layer) arenas xs =
        m.prefillLayers layers arenas xs
  | [], arenas, xs => by
    cases arenas <;> rfl
  | ly :: layers, [], xs => rfl
  | ly :: layers, arena :: arenas, xs => by
    have hctx := causalAttention_eq hdoc (xs.mapIdx fun i x => (m.project ly i x).1)
      (xs.mapIdx fun i x => (m.project ly i x).2) (by simp)
    have hzip := zipWith_range (m.feedForward ly) xs (fun i x => (m.project ly i x).1)
      (fun i q => m.attention q ((xs.mapIdx fun i x => (m.project ly i x).2).take (i + 1))) []
    rw [List.length_mapIdx] at hctx
    rw [List.map_cons, CausalStack.forwardLayers, forward_layer ly bound.zero_le, prefillLayers]
    simp only [map_mapIdx, hctx, hzip, Nat.zero_add, List.range_zero, List.map_nil,
      List.nil_append, prefillLayers_eq hdoc bound layers arenas]

theorem verifyLayers_eq (hdoc : m.F.Documented) {pos n : ℕ} :
    ∀ (layers : List (Qwen3Layer R)) (arenas : List (ℕ → HeadKV R)) (xs : List (List R)),
      xs.length = n → pos + n ≤ m.maxLen →
      CausalStack.forwardLayers m.maxLen pos (layers.map m.layer) arenas xs =
        m.verifyLayers pos ((List.range n).map fun i => (List.range m.maxLen).map fun j =>
          decide (j ≤ pos + i)) layers arenas xs
  | [], arenas, xs, _, _ => by
    cases arenas <;> rfl
  | ly :: layers, [], xs, _, _ => rfl
  | ly :: layers, arena :: arenas, xs, hn, hfit => by
    subst hn
    have hctx := keptAttention_eq hdoc pos (n := m.maxLen)
      (xs.mapIdx fun i x => (m.project ly (pos + i) x).1)
      (StaticArena.write arena pos (xs.mapIdx fun i x => (m.project ly (pos + i) x).2))
      (by simpa using hfit)
    rw [List.length_mapIdx] at hctx
    have hzip := zipWith_range (m.feedForward ly) xs (fun i x => (m.project ly (pos + i) x).1)
      (fun i q => m.attention q ((List.range (pos + i + 1)).map
        (StaticArena.write arena pos (xs.mapIdx fun i x => (m.project ly (pos + i) x).2)))) []
    beta_reduce at hzip
    have hwrite : (xs.mapIdx fun i x => m.feedForward ly x (m.attention (m.project ly (pos + i) x).1
          ((List.range (pos + i + 1)).map
            (StaticArena.write arena pos (xs.mapIdx fun i x => (m.project ly (pos + i) x).2))))) =
        xs.mapIdx fun i x => m.feedForward ly x (m.attention (m.project ly (pos + i) x).1
          ((List.range pos).map arena ++
            (xs.mapIdx fun i x => (m.project ly (pos + i) x).2).take (i + 1))) := by
      refine List.ext_getElem (by simp) fun i hi _ => ?_
      have hi : i < xs.length := by simpa using hi
      rw [List.getElem_mapIdx, List.getElem_mapIdx, StaticArena.map_write arena pos (by simpa)]
    rw [List.map_cons, CausalStack.forwardLayers, forward_layer ly (by omega), verifyLayers]
    simp only [map_mapIdx, hctx, hzip, hwrite]
    rw [verifyLayers_eq hdoc layers arenas _ (by simp) hfit]

/-! ## The passes token by token -/

/-- The layers over some tokens, and the logits of their states. -/
theorem forward_tokenRow {bound pos : ℕ} {arenas : List (ℕ → HeadKV R)}
    (hlen : arenas.length = m.layers.length) (ts : List TokenId) :
    StaticArena.forward m.tokenRow bound pos ts (CausalStack.entries arenas) =
      let layers := CausalStack.forwardLayers bound pos (m.layers.map m.layer) arenas
        (ts.map m.embedding)
      (layers.1.map fun x => m.logits (m.rmsnorm x m.finalNorm),
        CausalStack.entries layers.2) := by
  have hstack := CausalStack.forwardLayers_eq bound pos (m.layers.map m.layer) arenas
    (ts.map m.embedding) (by rwa [List.length_map])
  obtain ⟨hstates, hentries⟩ := Prod.mk.inj hstack
  have hrows := StaticArena.rows_map (CausalStack.row (m.layers.map m.layer)) m.embedding
    (fun x => m.logits (m.rmsnorm x m.finalNorm))
    (StaticArena.masked (CausalStack.entries arenas) bound pos) pos ts
  dsimp only
  rw [hstates, hentries]
  simp only [StaticArena.forward]
  unfold tokenRow
  rw [hrows]
  simp only [List.map_map]
  rfl

theorem length_decodeForward (hdoc : m.F.Documented) {bound pos : ℕ} (hlt : pos < bound)
    (tokenId : TokenId) (arenas : List (ℕ → HeadKV R)) :
    (m.decodeForward bound tokenId pos arenas).2.length = arenas.length := by
  have hlen := CausalStack.length_forwardLayers bound pos (m.layers.map m.layer) arenas
    [m.embedding tokenId]
  rwa [decodeLayers_eq hdoc hlt] at hlen

theorem length_prefillForward (hdoc : m.F.Documented) (preTok : List TokenId)
    (arenas : List (ℕ → HeadKV R)) :
    (m.prefillForward preTok arenas).2.length = arenas.length := by
  have hlen := CausalStack.length_forwardLayers 0 0 (m.layers.map m.layer) arenas
    (preTok.map m.embedding)
  rwa [prefillLayers_eq hdoc] at hlen

theorem length_verifyForward (hdoc : m.F.Documented) {pos : ℕ} {vtok : List TokenId}
    (hfit : pos + vtok.length ≤ m.maxLen) (arenas : List (ℕ → HeadKV R)) :
    (m.verifyForward vtok pos arenas).2.length = arenas.length := by
  have hlen := CausalStack.length_forwardLayers m.maxLen pos (m.layers.map m.layer) arenas
    (vtok.map m.embedding)
  rwa [verifyLayers_eq hdoc _ _ _ (List.length_map _) hfit] at hlen

theorem decodeForward_eq (hdoc : m.F.Documented) {bound pos : ℕ} (hlt : pos < bound)
    {arenas : List (ℕ → HeadKV R)} (hlen : arenas.length = m.layers.length) (tokenId : TokenId) :
    StaticArena.forward m.tokenRow bound pos [tokenId] (CausalStack.entries arenas) =
      ([(m.decodeForward bound tokenId pos arenas).1],
        CausalStack.entries (m.decodeForward bound tokenId pos arenas).2) := by
  rw [forward_tokenRow hlen, List.map_singleton, decodeLayers_eq hdoc hlt]
  rfl

theorem prefillForward_eq (hdoc : m.F.Documented) (bound : ℕ) {arenas : List (ℕ → HeadKV R)}
    (hlen : arenas.length = m.layers.length) (preTok : List TokenId) :
    StaticArena.forward m.tokenRow bound 0 preTok (CausalStack.entries arenas) =
      ((m.prefillForward preTok arenas).1.map m.logits,
        CausalStack.entries (m.prefillForward preTok arenas).2) := by
  rw [forward_tokenRow hlen, prefillLayers_eq hdoc]
  simp only [prefillForward, List.map_map]
  rfl

theorem verifyForward_eq (hdoc : m.F.Documented) {pos : ℕ} {arenas : List (ℕ → HeadKV R)}
    (hlen : arenas.length = m.layers.length) {vtok : List TokenId}
    (hfit : pos + vtok.length ≤ m.maxLen) :
    StaticArena.forward m.tokenRow m.maxLen pos vtok (CausalStack.entries arenas) =
      ((m.verifyForward vtok pos arenas).1,
        CausalStack.entries (m.verifyForward vtok pos arenas).2) := by
  rw [forward_tokenRow hlen, verifyLayers_eq hdoc _ _ _ (List.length_map _) hfit]
  rfl

/-! ## Passes over several tokens, and decodes -/

/-- Decodes of tokens one after the other, each in a bucket of its own. -/
def decodeEach (bounds : ℕ → ℕ) : List TokenId → ℕ → List (ℕ → HeadKV R) →
    List (List R) × List (ℕ → HeadKV R)
  | [], _, arenas => ([], arenas)
  | tokenId :: tokenIds, pos, arenas =>
    let (logits, arenas) := m.decodeForward (bounds pos) tokenId pos arenas
    let (rest, arenas) := decodeEach bounds tokenIds (pos + 1) arenas
    (logits :: rest, arenas)

theorem decodeEach_eq (hdoc : m.F.Documented) (bounds : ℕ → ℕ) (bound : ℕ) :
    ∀ (ts : List TokenId) (pos : ℕ) (arenas : List (ℕ → HeadKV R)),
      arenas.length = m.layers.length → pos + ts.length ≤ bound →
      (∀ i < ts.length, pos + i < bounds (pos + i)) →
      StaticArena.forward m.tokenRow bound pos ts (CausalStack.entries arenas) =
        ((m.decodeEach bounds ts pos arenas).1,
          CausalStack.entries (m.decodeEach bounds ts pos arenas).2)
  | [], pos, arenas, _, _, _ => by
    refine Prod.ext rfl (funext fun i => ?_)
    simp only [StaticArena.forward, StaticArena.rows, StaticArena.write, decodeEach]
    split_ifs <;> rfl
  | t :: ts, pos, arenas, hlen, hfit, hbounds => by
    rw [List.length_cons] at hfit hbounds
    have hfirst : pos < bounds pos := hbounds 0 (Nat.succ_pos _)
    have hlen' : (m.decodeForward (bounds pos) t pos arenas).2.length = m.layers.length :=
      (length_decodeForward hdoc hfirst t arenas).trans hlen
    have hrest := decodeEach_eq hdoc bounds bound ts (pos + 1)
      (m.decodeForward (bounds pos) t pos arenas).2 hlen' (by omega) fun i hi => by
        have hnext := hbounds (i + 1) (Nat.succ_lt_succ hi)
        rwa [Nat.add_comm i, ← Nat.add_assoc] at hnext
    rw [StaticArena.forward_cons m.tokenRow _ (by omega) hfirst.le (by omega : pos + 1 ≤ bound),
      decodeForward_eq hdoc hfirst hlen]
    dsimp only
    rw [hrest]
    rfl

/-- A verification does what decodes of its tokens do, whatever their buckets. -/
theorem verifyForward_eq_decodeEach (hdoc : m.F.Documented) {bounds : ℕ → ℕ} {pos : ℕ}
    {arenas : List (ℕ → HeadKV R)} (hlen : arenas.length = m.layers.length) {vtok : List TokenId}
    (hfit : pos + vtok.length ≤ m.maxLen)
    (hbounds : ∀ i < vtok.length, pos + i < bounds (pos + i)) :
    m.verifyForward vtok pos arenas = m.decodeEach bounds vtok pos arenas := by
  have hverify := verifyForward_eq hdoc hlen hfit
  rw [decodeEach_eq hdoc bounds m.maxLen vtok pos arenas hlen hfit hbounds] at hverify
  obtain ⟨hlogits, hentries⟩ := Prod.mk.inj hverify
  exact Prod.ext hlogits.symm (CausalStack.entries_injective hentries.symm)

/-- A layer with two query heads on one key head. -/
def tinyLayer : DecoderLayer ℚ where
  inputLayernorm := [1, 1]
  postAttentionLayernorm := [1, 2]
  qProj := [[1, 0], [0, 1], [1, 1], [1, -1]]
  kProj := [[1, 1], [0, 1]]
  vProj := [[1, 0], [1, 1]]
  oProj := [[1, 0, 0, 1], [0, 1, 1, 0]]
  qNorm := [1, 1]
  kNorm := [1, 1]
  gateProj := [[1, 0]]
  upProj := [[0, 1]]
  downProj := [[1], [1]]

/-- A model with such a layer, and the first terms of the functions it calls. -/
def tiny : Qwen3Model ℚ where
  F := .ofExp (fun s => 1 + s + s ^ 2 / 2) (fun s => (3 - s) / 2) (fun s => s / 2 + s ^ 2 / 4)
    (fun s => 1 - s ^ 2 / 2) (fun s => s)
  nh := 2
  nkv := 1
  hd := 2
  nkv_dvd := one_dvd 2
  eps := 0
  scale := 1 / 2
  maxLen := 16
  embed := [[1, -1], [1, 1], [1 / 2, 1]]
  finalNorm := [1, 1]
  lmHead := [[1, 0], [0, 1], [1, 1]]
  inter := 1
  invFreq := [1]
  layers := [tinyLayer.fuse]

theorem verifyForward_eq_decodeEach_tiny :
    tiny.verifyForward [2, 0, 1] 1 [fun _ => ⟨[[5, 6]], [[7, 8]]⟩] =
      tiny.decodeEach (· + 1) [2, 0, 1] 1 [fun _ => ⟨[[5, 6]], [[7, 8]]⟩] :=
  verifyForward_eq_decodeEach (Functional.documented_ofExp _ _ _ _ _) rfl (by decide)
    fun _ _ => Nat.lt_succ_self _

/-- A prefill has the logits of decodes of its prompt, and leaves their entries. What the arenas
held before plays no part, and neither does the padding. -/
theorem prefillForward_eq_decodeEach (hdoc : m.F.Documented) {bounds : ℕ → ℕ}
    {arenas arenas' : List (ℕ → HeadKV R)} (hlen : arenas.length = m.layers.length)
    (hlen' : arenas'.length = m.layers.length) (ids pad : List TokenId)
    (hbounds : ∀ i < ids.length, i < bounds i) :
    ((m.prefillForward (ids ++ pad) arenas).1.take ids.length).map m.logits =
        (m.decodeEach bounds ids 0 arenas').1 ∧
      ∀ i < ids.length, CausalStack.entries (m.prefillForward (ids ++ pad) arenas).2 i =
        CausalStack.entries (m.decodeEach bounds ids 0 arenas').2 i := by
  have hprefill := prefillForward_eq hdoc ids.length hlen (ids ++ pad)
  have hdecode := decodeEach_eq hdoc bounds ids.length ids 0 arenas' hlen' (by omega)
    (by simpa using hbounds)
  obtain ⟨hlogits, hentries⟩ := Prod.mk.inj hprefill
  obtain ⟨hlogits', hentries'⟩ := Prod.mk.inj hdecode
  rw [List.map_take, ← hlogits, ← hlogits', ← hentries, ← hentries']
  exact StaticArena.forward_append_zero _ _ _ _ _ ids pad

theorem prefillForward_eq_decodeEach_tiny :
    ((tiny.prefillForward ([2, 1] ++ [0, 0]) [fun _ => ⟨[[5, 6]], [[7, 8]]⟩]).1.take 2).map
        tiny.logits = (tiny.decodeEach (· + 1) [2, 1] 0 [fun _ => ⟨[], []⟩]).1 ∧
      ∀ i < 2, CausalStack.entries
          (tiny.prefillForward ([2, 1] ++ [0, 0]) [fun _ => ⟨[[5, 6]], [[7, 8]]⟩]).2 i =
        CausalStack.entries (tiny.decodeEach (· + 1) [2, 1] 0 [fun _ => ⟨[], []⟩]).2 i :=
  prefillForward_eq_decodeEach (Functional.documented_ofExp _ _ _ _ _) rfl rfl [2, 1] [0, 0]
    fun _ _ => Nat.lt_succ_self _

end Qwen3Model

end SoloRT
