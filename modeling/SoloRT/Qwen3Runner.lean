import SoloRT.Qwen3Passes
import SoloRT.RunnerCalls

/-!
# The layers under the graph runner

The executors of this development run over a runner with a function of one token (`row`). Here it is
the model with its plain layers : every projection by itself, and every query head attends to the
entries up to its token (`referenceRow`). The methods of `_GraphQwen3Runner` run the three passes
over the fused layers, pad, bucket, and capture (`prefill`, `decode`, `verify`). The first
verification sizes the buffer that the graph of all later ones reads, so with another number of
tokens `verify` raises, or takes a single token as many times. Over any calls that verify equally
many tokens the methods return what the plain layers compute token by token, and leave their entries
in the arenas (`run_eq_reference`).
-/

namespace SoloRT

namespace Qwen3Model

/-! ## The plain layers -/

variable {R : Type} [Field R] (m : Qwen3Model R)

/-- The weights have as many rows as the splits of the runner take. -/
structure Fits (l : DecoderLayer R) : Prop where
  qProj : l.qProj.length = m.qDim
  kProj : l.kProj.length = m.kvDim
  vProj : l.vProj.length = m.kvDim
  gateProj : l.gateProj.length = m.inter
  upProj : l.upProj.length = m.inter

/-- A decoder layer of the model. -/
def referenceLayer (l : DecoderLayer R) : CausalLayer (List R) (HeadKV R) where
  entry pos x :=
    let h := m.rmsnorm x l.inputLayernorm
    ⟨(view m.nkv m.hd (linear l.kProj h)).map fun k => rope (m.rmsnorm k l.kNorm) (m.cosSin pos),
      view m.nkv m.hd (linear l.vProj h)⟩
  mix pos ks x :=
    let h := m.rmsnorm x l.inputLayernorm
    let q := (view m.nh m.hd (linear l.qProj h)).map fun q =>
      rope (m.rmsnorm q l.qNorm) (m.cosSin pos)
    let x := add x (linear l.oProj (m.attention q ks))
    let h := m.rmsnorm x l.postAttentionLayernorm
    add x (linear l.downProj (List.zipWith (fun g u => m.F.silu g * u)
      (linear l.gateProj h) (linear l.upProj h)))

/-- The entries and the logits of a token through the decoder layers. -/
def referenceRow (ls : List (DecoderLayer R)) (visible : List (ℕ × List (HeadKV R))) (pos : ℕ)
    (tokenId : TokenId) : List (HeadKV R) × List R :=
  Prod.map id (fun x => m.logits (m.rmsnorm x m.finalNorm))
    (CausalStack.row (ls.map m.referenceLayer) visible pos (m.embedding tokenId))

variable {m}

theorem linear_append (w w' : List (List R)) (x : List R) :
    linear (w ++ w') x = linear w x ++ linear w' x :=
  List.map_append

theorem length_linear (w : List (List R)) (x : List R) : (linear w x).length = w.length :=
  List.length_map _

/-- The fused projection of the attention computes what the single ones do. -/
theorem project_fuse {l : DecoderLayer R} (h : m.Fits l) (pos : ℕ) (x : List R) :
    m.project l.fuse pos x =
      ((view m.nh m.hd (linear l.qProj (m.rmsnorm x l.inputLayernorm))).map fun q =>
          rope (m.rmsnorm q l.qNorm) (m.cosSin pos), (m.referenceLayer l).entry pos x) := by
  have hqkv : linear l.fuse.wqkv (m.rmsnorm x l.fuse.inLn) =
      linear l.qProj (m.rmsnorm x l.inputLayernorm) ++
        (linear l.kProj (m.rmsnorm x l.inputLayernorm) ++
          linear l.vProj (m.rmsnorm x l.inputLayernorm)) := by
    rw [DecoderLayer.fuse, linear_append, linear_append, List.append_assoc]
  have hq := (length_linear l.qProj (m.rmsnorm x l.inputLayernorm)).trans h.qProj
  have hk := (length_linear l.kProj (m.rmsnorm x l.inputLayernorm)).trans h.kProj
  have hv := (length_linear l.vProj (m.rmsnorm x l.inputLayernorm)).trans h.vProj
  rw [project, hqkv, List.take_left' hq, List.drop_left' hq, List.take_left' hk, ← List.drop_drop,
    List.drop_left' hq, List.drop_left' hk, List.take_of_length_le hv.le]
  rfl

/-- So does that of the gate. -/
theorem feedForward_fuse {l : DecoderLayer R} (h : m.Fits l) (x ctx : List R) :
    m.feedForward l.fuse x ctx =
      let x := add x (linear l.oProj ctx)
      let h := m.rmsnorm x l.postAttentionLayernorm
      add x (linear l.downProj (List.zipWith (fun g u => m.F.silu g * u)
        (linear l.gateProj h) (linear l.upProj h))) := by
  have hgate := fun x => (length_linear l.gateProj x).trans h.gateProj
  have hup := fun x => (length_linear l.upProj x).trans h.upProj
  simp only [feedForward, DecoderLayer.fuse, linear_append, List.take_left' (hgate _),
    List.drop_left' (hgate _), List.take_of_length_le (hup _).le]

theorem layer_fuse {l : DecoderLayer R} (h : m.Fits l) : m.layer l.fuse = m.referenceLayer l := by
  unfold layer
  simp only [project_fuse h, feedForward_fuse h]
  rfl

/-- The plain layers compute what the fused ones do. -/
theorem tokenRow_eq_referenceRow {ls : List (DecoderLayer R)}
    (hlayers : m.layers = ls.map DecoderLayer.fuse) (hfits : ∀ l ∈ ls, m.Fits l) :
    m.tokenRow = m.referenceRow ls := by
  have hrow : m.layers.map m.layer = ls.map m.referenceLayer := by
    rw [hlayers, List.map_map]
    exact List.map_congr_left fun l hl => layer_fuse (hfits l hl)
  unfold tokenRow referenceRow
  rw [hrow]

end Qwen3Model

/-! ## The methods -/

/-- What a runner changes : `kc` and `vc`, and the captured graphs. That of `verify` is over a
buffer `vtok` of so many tokens. -/
structure Qwen3State where
  arenas : List (ℕ → HeadKV ℚ)
  graphs : List ℕ := []
  preGraphs : List ℕ := []
  verifyGraph : Option ℕ := none

/-- A graph of `verify`, if there is one, is over `n` tokens. -/
def Qwen3State.Sized (st : Qwen3State) (n : ℕ) : Prop :=
  ∀ k ∈ st.verifyGraph, k = n

/-- `vtok.copy_(tok_t)` into a buffer of `n` tokens. A single token is broadcast. -/
def copyTokens (n : ℕ) (tokT : List TokenId) : Except PyError (List TokenId) :=
  if tokT.length = n then .ok tokT
  else
    match tokT with
    | [token] => .ok (List.replicate n token)
    | _ =>
      .error ⟨.runtimeError,
        if n = 1 then
          "output with shape [1] doesn't match the broadcast shape [" ++ toString tokT.length ++ "]"
        else
          "The size of tensor a (" ++ toString n ++ ") must match the size of tensor b (" ++
            toString tokT.length ++ ") at non-singleton dimension 0"⟩

namespace Qwen3Model

variable (m : Qwen3Model ℚ)

/-- The runner with the layers as a function of one token. -/
def runner : GraphQwen3Runner (List (HeadKV ℚ)) where
  row := m.tokenRow
  maxLen := m.maxLen

def capturePrefill (bound : ℕ) (preTok : List TokenId) (st : Qwen3State) : Qwen3State :=
  let (_, arenas) := m.prefillForward preTok st.arenas
  let (_, arenas) := m.prefillForward preTok arenas
  { st with arenas, preGraphs := bound :: st.preGraphs }

def prefill (ids : List TokenId) (st : Qwen3State) : Except PyError (List ℚ) × Qwen3State :=
  match m.runner.preBuckets.find? (ids.length ≤ ·) with
  | none => (.error ⟨.stopIteration, ""⟩, st)
  | some bound =>
    let preTok := ids ++ List.replicate (bound - ids.length) 0
    let st := if bound ∈ st.preGraphs then st else m.capturePrefill bound preTok st
    let (hidden, arenas) := m.prefillForward preTok st.arenas
    (.ok (m.logits (hidden.getD (ids.length - 1) [])), { st with arenas })

def capture (bound : ℕ) (tokBuf : TokenId) (posBuf : ℕ) (st : Qwen3State) : Qwen3State :=
  let (_, arenas) := m.decodeForward bound tokBuf posBuf st.arenas
  let (_, arenas) := m.decodeForward bound tokBuf posBuf arenas
  let (_, arenas) := m.decodeForward bound tokBuf posBuf arenas
  { st with arenas, graphs := bound :: st.graphs }

def decode (token : TokenId) (pos : ℕ) (st : Qwen3State) : List ℚ × Qwen3State :=
  let bound := m.runner.bucketFor pos
  let st := if bound ∈ st.graphs then st else m.capture bound token pos st
  let (logits, arenas) := m.decodeForward bound token pos st.arenas
  (logits, { st with arenas })

/-- The capture of `verify`, which sizes `vtok`. -/
def captureVerify (tokens : List TokenId) (posStart : ℕ) (st : Qwen3State) : Qwen3State :=
  let (_, arenas) := m.verifyForward tokens posStart st.arenas
  let (_, arenas) := m.verifyForward tokens posStart arenas
  let (_, arenas) := m.verifyForward tokens posStart arenas
  { st with arenas, verifyGraph := some tokens.length }

def verify (tokens : List TokenId) (posStart : ℕ) (st : Qwen3State) :
    Except PyError (List (List ℚ)) × Qwen3State :=
  let st := if st.verifyGraph = none then m.captureVerify tokens posStart st else st
  match copyTokens (st.verifyGraph.getD tokens.length) tokens with
  | .error e => (.error e, st)
  | .ok vtok =>
    let (logits, arenas) := m.verifyForward vtok posStart st.arenas
    (.ok logits, { st with arenas })

end Qwen3Model

def Qwen3Model.call (m : Qwen3Model ℚ) (c : RunnerCall) (st : Qwen3State) :
    Except PyError (List (List ℚ)) × Qwen3State :=
  match c with
  | .prefill ids => Prod.map (·.map ([·])) id (m.prefill ids st)
  | .decode token pos => Prod.map (.ok [·]) id (m.decode token pos st)
  | .verify tokens posStart => m.verify tokens posStart st

/-- A verification is one of `n` tokens. -/
def RunnerCall.Verifies (n : ℕ) : RunnerCall → Prop
  | .prefill _ | .decode _ _ => True
  | .verify tokens _ => tokens.length = n

/-! ## The methods compute what the layers do -/

namespace Qwen3Model

variable {m : Qwen3Model ℚ}

/-- The arenas of the layers hold what the arena of the runner holds. -/
structure Models (m : Qwen3Model ℚ) (st : Qwen3State) (rs : RunnerState (List (HeadKV ℚ))) :
    Prop where
  length : st.arenas.length = m.layers.length
  kv : rs.kv = CausalStack.entries st.arenas
  graphs : rs.graphs = st.graphs
  preGraphs : rs.preGraphs = st.preGraphs
  verifyGraph : rs.verifyGraph = st.verifyGraph.isSome

variable {st : Qwen3State} {rs : RunnerState (List (HeadKV ℚ))}

/-- The list of replays is a ghost. -/
theorem Models.withReplays (h : Models m st rs) (replays : List (Replay (List (HeadKV ℚ)))) :
    Models m st { rs with replays } :=
  ⟨h.length, h.kv, h.graphs, h.preGraphs, h.verifyGraph⟩

/-- A pass over the layers, as one of the runner. -/
theorem Models.forward (h : Models m st rs) {bound pos : ℕ} {ts : List TokenId}
    {logits : List (List ℚ)} {arenas : List (ℕ → HeadKV ℚ)}
    (hlen : arenas.length = st.arenas.length)
    (hpass : StaticArena.forward m.tokenRow bound pos ts (CausalStack.entries st.arenas) =
      (logits, CausalStack.entries arenas)) :
    (m.runner.forward bound pos ts rs).1 = logits ∧
      Models m { st with arenas } (m.runner.forward bound pos ts rs).2 := by
  have hforward : StaticArena.forward m.runner.row bound pos ts rs.kv =
      (logits, CausalStack.entries arenas) := by rw [h.kv, ← hpass, runner]
  rw [GraphQwen3Runner.forward, hforward]
  exact ⟨rfl, hlen.trans h.length, rfl, h.graphs, h.preGraphs, h.verifyGraph⟩

theorem Models.prefillForward (hdoc : m.F.Documented) (h : Models m st rs) (bound : ℕ)
    (preTok : List TokenId) :
    (m.runner.prefillForward bound preTok rs).1 =
        (m.prefillForward preTok st.arenas).1.map m.logits ∧
      Models m { st with arenas := (m.prefillForward preTok st.arenas).2 }
        (m.runner.prefillForward bound preTok rs).2 :=
  h.forward (length_prefillForward hdoc preTok st.arenas)
    (prefillForward_eq hdoc bound h.length preTok)

theorem Models.decodeForward (hdoc : m.F.Documented) (h : Models m st rs) {bound pos : ℕ}
    (hlt : pos < bound) (token : TokenId) :
    (m.runner.decodeForward bound token pos rs).1 = (m.decodeForward bound token pos st.arenas).1 ∧
      Models m { st with arenas := (m.decodeForward bound token pos st.arenas).2 }
        (m.runner.decodeForward bound token pos rs).2 := by
  obtain ⟨hlogits, hmodels⟩ := h.forward (length_decodeForward hdoc hlt token st.arenas)
    (decodeForward_eq hdoc hlt h.length token)
  exact ⟨congrArg (List.getLastD · []) hlogits, hmodels⟩

theorem Models.verifyForward (hdoc : m.F.Documented) (h : Models m st rs) {pos : ℕ}
    {tokens : List TokenId} (hfit : pos + tokens.length ≤ m.maxLen) :
    (m.runner.verifyForward tokens pos rs).1 = (m.verifyForward tokens pos st.arenas).1 ∧
      Models m { st with arenas := (m.verifyForward tokens pos st.arenas).2 }
        (m.runner.verifyForward tokens pos rs).2 :=
  h.forward (length_verifyForward hdoc hfit st.arenas) (verifyForward_eq hdoc h.length hfit)

theorem Models.capturePrefill (hdoc : m.F.Documented) (h : Models m st rs) (bound : ℕ)
    (preTok : List TokenId) :
    Models m (m.capturePrefill bound preTok st) (m.runner.capturePrefill bound preTok rs) := by
  obtain ⟨hlen, hkv, hgraphs, hpre, hverify⟩ :=
    ((h.prefillForward hdoc bound preTok).2.prefillForward hdoc bound preTok).2
  exact ⟨hlen, hkv, hgraphs, congrArg (bound :: ·) hpre, hverify⟩

theorem length_prefillForward_fst (hdoc : m.F.Documented) {arenas : List (ℕ → HeadKV ℚ)}
    (hlen : arenas.length = m.layers.length) (preTok : List TokenId) :
    (m.prefillForward preTok arenas).1.length = preTok.length := by
  have hpass := congrArg Prod.fst (prefillForward_eq hdoc 0 hlen preTok)
  simpa [StaticArena.forward] using (congrArg List.length hpass).symm

theorem pos_of_mem_preBuckets {bound : ℕ} (h : bound ∈ m.runner.preBuckets) : 0 < bound := by
  have hmem := List.mem_of_mem_filter h
  simp only [List.mem_cons, List.not_mem_nil, or_false] at hmem
  omega

theorem Models.prefill (hdoc : m.F.Documented) (h : Models m st rs) (ids : List TokenId) :
    (m.runner.prefill ids rs).1 = (m.prefill ids st).1 ∧
      Models m (m.prefill ids st).2 (m.runner.prefill ids rs).2 := by
  unfold GraphQwen3Runner.prefill Qwen3Model.prefill
  cases hbound : m.runner.preBuckets.find? (ids.length ≤ ·) with
  | none => exact ⟨rfl, h⟩
  | some bound =>
    dsimp only
    generalize hpreTok : ids ++ List.replicate (bound - ids.length) 0 = preTok
    have hstart : Models m (if bound ∈ st.preGraphs then st else m.capturePrefill bound preTok st)
        (if bound ∈ rs.preGraphs then rs else m.runner.capturePrefill bound preTok rs) := by
      rw [h.preGraphs]
      split_ifs
      exacts [h, h.capturePrefill hdoc bound preTok]
    obtain ⟨hlogits, hmodels⟩ := hstart.prefillForward hdoc bound preTok
    refine ⟨?_, hmodels⟩
    have hlen : preTok.length = bound := by
      have hle : ids.length ≤ bound := by simpa using List.find?_some hbound
      rw [← hpreTok, List.length_append, List.length_replicate, Nat.add_sub_cancel' hle]
    have hlt : ids.length - 1 < (m.prefillForward preTok
        (if bound ∈ st.preGraphs then st
          else m.capturePrefill bound preTok st).arenas).1.length := by
      have hmem := pos_of_mem_preBuckets (List.mem_of_find?_eq_some hbound)
      have hle : ids.length ≤ bound := by simpa using List.find?_some hbound
      rw [length_prefillForward_fst hdoc hstart.length, hlen]
      omega
    rw [hlogits, List.getD_eq_getElem?_getD, List.getD_eq_getElem?_getD, List.getElem?_map,
      List.getElem?_eq_getElem hlt]
    rfl

/-- A capture of a decode runs it three times. -/
theorem Models.capture (hdoc : m.F.Documented) (h : Models m st rs) {bound pos : ℕ}
    (hlt : pos < bound) (token : TokenId) :
    Models m (m.capture bound token pos st) (m.runner.capture bound token pos rs) := by
  obtain ⟨hlen, hkv, hgraphs, hpre, hverify⟩ :=
    (((h.decodeForward hdoc hlt token).2.decodeForward hdoc hlt token).2.decodeForward
      hdoc hlt token).2
  exact ⟨hlen, hkv, congrArg (bound :: ·) hgraphs, hpre, hverify⟩

theorem Models.decode (hdoc : m.F.Documented) (h : Models m st rs) {pos : ℕ} (hlt : pos < m.maxLen)
    (token : TokenId) :
    (m.runner.decode token pos rs).1 = (m.decode token pos st).1 ∧
      Models m (m.decode token pos st).2 (m.runner.decode token pos rs).2 := by
  have hbound : pos < m.runner.bucketFor pos := GraphQwen3Runner.lt_bucketFor (g := m.runner) hlt
  unfold GraphQwen3Runner.decode Qwen3Model.decode
  dsimp only
  generalize m.runner.bucketFor pos = bound at hbound ⊢
  have hstart : Models m (if bound ∈ st.graphs then st else m.capture bound token pos st)
      (if bound ∈ rs.graphs then rs else m.runner.capture bound token pos rs) := by
    rw [h.graphs]
    split_ifs
    exacts [h, h.capture hdoc hbound token]
  exact (hstart.withReplays _).decodeForward hdoc hbound token

theorem copyTokens_length (tokens : List TokenId) :
    copyTokens tokens.length tokens = .ok tokens :=
  if_pos rfl

/-- The size that the buffer has when the tokens are copied into it. -/
theorem getD_of_sized {n : ℕ} (h : st.Sized n) : st.verifyGraph.getD n = n := by
  cases hgraph : st.verifyGraph with
  | none => rfl
  | some k => exact h k hgraph

/-- A verification of the tokens that the buffer is for, with its capture before it. -/
theorem verify_of_sized {tokens : List TokenId} (h : st.Sized tokens.length) (pos : ℕ) :
    m.verify tokens pos st =
      let st := if st.verifyGraph = none then m.captureVerify tokens pos st else st
      (.ok (m.verifyForward tokens pos st.arenas).1,
        { st with arenas := (m.verifyForward tokens pos st.arenas).2 }) := by
  have hsize : (if st.verifyGraph = none then m.captureVerify tokens pos st
      else st).verifyGraph.getD tokens.length = tokens.length := by
    split_ifs
    exacts [rfl, getD_of_sized h]
  unfold verify
  dsimp only
  rw [hsize, copyTokens_length]

theorem Models.captureVerify (hdoc : m.F.Documented) (h : Models m st rs) {pos : ℕ}
    {tokens : List TokenId} (hfit : pos + tokens.length ≤ m.maxLen) :
    let verifyForward := fun rs => (m.runner.verifyForward tokens pos rs).2
    Models m (m.captureVerify tokens pos st)
      { verifyForward (verifyForward (verifyForward rs)) with verifyGraph := true } := by
  obtain ⟨hlen, hkv, hgraphs, hpre, -⟩ :=
    (((h.verifyForward hdoc hfit).2.verifyForward hdoc hfit).2.verifyForward hdoc hfit).2
  exact ⟨hlen, hkv, hgraphs, hpre, rfl⟩

theorem Models.verify (hdoc : m.F.Documented) (h : Models m st rs) {pos : ℕ}
    {tokens : List TokenId} (hsize : st.Sized tokens.length)
    (hfit : pos + tokens.length ≤ m.maxLen) :
    (m.verify tokens pos st).1 = .ok (m.runner.verify tokens pos rs).1 ∧
      Models m (m.verify tokens pos st).2 (m.runner.verify tokens pos rs).2 := by
  rw [verify_of_sized hsize]
  unfold GraphQwen3Runner.verify
  rw [h.verifyGraph]
  cases hgraph : st.verifyGraph with
  | some k =>
    obtain ⟨hlogits, hmodels⟩ := h.verifyForward hdoc hfit
    exact ⟨congrArg Except.ok hlogits.symm, hmodels⟩
  | none =>
    obtain ⟨hlogits, hmodels⟩ := (h.captureVerify hdoc hfit).verifyForward hdoc hfit
    exact ⟨congrArg Except.ok hlogits.symm, hmodels⟩

/-! ## The size of the verifications -/

theorem verifyGraph_prefill (ids : List TokenId) (st : Qwen3State) :
    (m.prefill ids st).2.verifyGraph = st.verifyGraph := by
  unfold prefill
  split
  · rfl
  · dsimp only
    split_ifs <;> rfl

theorem verifyGraph_decode (token : TokenId) (pos : ℕ) (st : Qwen3State) :
    (m.decode token pos st).2.verifyGraph = st.verifyGraph := by
  unfold decode
  dsimp only
  split_ifs <;> rfl

theorem sized_verify {tokens : List TokenId} (h : st.Sized tokens.length) (pos : ℕ) :
    (m.verify tokens pos st).2.Sized tokens.length := by
  rw [verify_of_sized h]
  dsimp only
  split_ifs
  · exact fun k hk => (Option.some.inj hk).symm
  · exact h

theorem sized_call {n : ℕ} (h : st.Sized n) {c : RunnerCall} (hc : c.Verifies n) :
    (m.call c st).2.Sized n := by
  cases c with
  | prefill ids => exact fun k hk => h k (verifyGraph_prefill (m := m) ids st ▸ hk)
  | decode token pos => exact fun k hk => h k (verifyGraph_decode (m := m) token pos st ▸ hk)
  | verify tokens pos =>
    obtain rfl : tokens.length = n := hc
    exact sized_verify h pos

/-- A call of the runner over the layers is one of the runner over a token function. -/
theorem Models.call (hdoc : m.F.Documented) (h : Models m st rs) {c : RunnerCall}
    {fed : List TokenId} (hc : GraphQwen3Runner.Follows m.maxLen fed c) {n : ℕ}
    (hn : c.Verifies n) (hsize : st.Sized n) :
    (m.runner.call c rs).1 = (m.call c st).1 ∧ Models m (m.call c st).2 (m.runner.call c rs).2 := by
  cases c with
  | prefill ids =>
    obtain ⟨hresult, hmodels⟩ := h.prefill hdoc ids
    exact ⟨congrArg (Except.map ([·])) hresult, hmodels⟩
  | decode token pos =>
    obtain ⟨hresult, hmodels⟩ := h.decode hdoc hc.2 token
    exact ⟨congrArg (Except.ok [·]) hresult, hmodels⟩
  | verify tokens pos =>
    obtain rfl : tokens.length = n := hn
    obtain ⟨hresult, hmodels⟩ := h.verify hdoc hsize hc.2
    exact ⟨hresult.symm, hmodels⟩

theorem Models.run (hdoc : m.F.Documented) (h : Models m st rs) {calls : List RunnerCall}
    {fed : List TokenId} (hcalls : m.runner.AllFollow calls fed) {n : ℕ}
    (hn : ∀ c ∈ calls, c.Verifies n) (hsize : st.Sized n) :
    (RunnerCall.run m.runner.call calls rs).1 = (RunnerCall.run m.call calls st).1 := by
  induction calls generalizing st rs fed with
  | nil => rfl
  | cons c calls ih =>
    obtain ⟨hverifies, hrest⟩ := List.forall_mem_cons.1 hn
    obtain ⟨hresult, hmodels⟩ := h.call hdoc hcalls.1 hverifies hsize
    exact congrArg₂ List.cons hresult (ih hmodels hcalls.2 hrest (sized_call hsize hverifies))

/-- The runner with the plain layers. -/
def reference (m : Qwen3Model ℚ) (ls : List (DecoderLayer ℚ)) :
    GraphQwen3Runner (List (HeadKV ℚ)) where
  row := m.referenceRow ls
  maxLen := m.maxLen

/-- Whatever the arenas hold at the start, calls that verify equally many tokens return the logits
of the plain layers for the tokens fed. -/
theorem run_eq_reference (hdoc : m.F.Documented) {ls : List (DecoderLayer ℚ)}
    (hlayers : m.layers = ls.map DecoderLayer.fuse) (hfits : ∀ l ∈ ls, m.Fits l)
    (hlen : st.arenas.length = m.layers.length) {calls : List RunnerCall}
    (hcalls : (m.reference ls).AllFollow calls []) {n : ℕ} (hn : ∀ c ∈ calls, c.Verifies n)
    (hsize : st.Sized n) :
    (RunnerCall.run m.call calls st).1 =
      (RunnerCall.run (m.reference ls).tokenCall calls []).1 := by
  have hrunner : m.runner = m.reference ls := by
    rw [runner, reference, tokenRow_eq_referenceRow hlayers hfits]
  have hmodels : Models m st
      { kv := CausalStack.entries st.arenas, graphs := st.graphs, preGraphs := st.preGraphs,
        verifyGraph := st.verifyGraph.isSome } := ⟨hlen, rfl, rfl, rfl, rfl⟩
  rw [← hrunner] at hcalls ⊢
  rw [← hmodels.run hdoc hcalls hn hsize]
  exact GraphQwen3Runner.run_eq_tokenRun hcalls rfl

/-- The second verification goes back over the tokens of the first, with its graph. -/
theorem run_eq_reference_tiny :
    (RunnerCall.run tiny.call
        [.prefill [2, 1], .decode 0 2, .verify [1, 2] 1, .verify [2, 2] 2]
        { arenas := [fun _ => ⟨[[5, 6]], [[7, 8]]⟩] }).1 =
      (RunnerCall.run (tiny.reference [tinyLayer]).tokenCall
        [.prefill [2, 1], .decode 0 2, .verify [1, 2] 1, .verify [2, 2] 2] []).1 :=
  run_eq_reference (n := 2) (Functional.documented_ofExp _ _ _ _ _) rfl
    (by simpa using (⟨rfl, rfl, rfl, rfl, rfl⟩ : tiny.Fits tinyLayer)) rfl
    ⟨by decide, by decide, by decide, by decide, trivial⟩
    (by simp [RunnerCall.Verifies]) (by simp [Qwen3State.Sized])

end Qwen3Model

end SoloRT
