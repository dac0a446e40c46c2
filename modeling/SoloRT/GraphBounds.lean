import SoloRT.GraphPosition
import Mathlib.Data.Nat.Log
import Mathlib.Tactic.IntervalCases

/-!
# The bounds of the static buffers

A graph runner has buffers for `max_len` positions, and graphs for a few numbers of them. The
decode buckets are powers of two below `max_len` and `max_len` itself, so every position in the
buffers has one. The prefill buckets are powers of two from 16 to 1024 only : a prompt that is
shorter than `max_len` has a bucket if and only if the power of two that it is padded to is one of
them, and fits (`prefill_bucket_iff`).

`GraphPass` records one pass over the arena : the bucket that it finds and the positions that it
writes. The executors guard the position of a decode step, clip a chunk at the end of the buffers,
and start a speculative round only some positions before it. So every pass of a decode finds its
bucket, writes and reads inside the buffers, and leaves each token the positions up to its own
(`forwardDecode_inside`).
-/

namespace SoloRT

/-! ## Prefill buckets -/

/-- The power of two that a prompt is padded to, 16 at least. -/
def paddedLength (n : ℕ) : ℕ :=
  max 16 (2 ^ Nat.clog 2 n)

/-- A prompt fits one of the sizes of prefill graphs if the size that it is padded to does. -/
theorem exists_size_iff (n maxLen : ℕ) :
    (∃ b ∈ [16, 32, 64, 128, 256, 512, 1024], b ≤ maxLen ∧ n ≤ b) ↔
      paddedLength n ≤ min 1024 maxLen := by
  have hsizes : ∀ b, b ∈ [16, 32, 64, 128, 256, 512, 1024] ↔ ∃ k, 4 ≤ k ∧ k ≤ 10 ∧ b = 2 ^ k := by
    intro b
    constructor
    · intro hb
      simp only [List.mem_cons, List.not_mem_nil, or_false] at hb
      rcases hb with rfl | rfl | rfl | rfl | rfl | rfl | rfl
      exacts [⟨4, by norm_num⟩, ⟨5, by norm_num⟩, ⟨6, by norm_num⟩, ⟨7, by norm_num⟩,
        ⟨8, by norm_num⟩, ⟨9, by norm_num⟩, ⟨10, by norm_num⟩]
    · rintro ⟨k, h4, h10, rfl⟩
      interval_cases k <;> simp
  unfold paddedLength
  constructor
  · rintro ⟨b, hb, hmax, hn⟩
    obtain ⟨k, h4, h10, rfl⟩ := (hsizes b).1 hb
    have hlow : 2 ^ 4 ≤ 2 ^ k := Nat.pow_le_pow_right (by omega) h4
    have hhigh : 2 ^ k ≤ 2 ^ 10 := Nat.pow_le_pow_right (by omega) h10
    have hclog : 2 ^ Nat.clog 2 n ≤ 2 ^ k :=
      Nat.pow_le_pow_right (by omega) (Nat.clog_le_of_le_pow hn)
    exact le_min (max_le (by omega) (by omega)) (max_le (by omega) (by omega))
  · intro h
    have hle := Nat.le_pow_clog (b := 2) (by omega) n
    have hpow : max 16 (2 ^ Nat.clog 2 n) = 2 ^ max 4 (Nat.clog 2 n) := by
      rcases le_total 4 (Nat.clog 2 n) with hlog | hlog
      · rw [max_eq_right hlog, max_eq_right]
        exact Nat.pow_le_pow_right two_pos hlog
      · rw [max_eq_left hlog]
        exact max_eq_left (Nat.pow_le_pow_right two_pos hlog)
    rw [hpow] at h
    have hten : max 4 (Nat.clog 2 n) ≤ 10 :=
      (Nat.pow_le_pow_iff_right (a := 2) (by omega)).1 (h.trans (min_le_left _ _))
    refine ⟨_, (hsizes _).2 ⟨_, le_max_left _ _, hten, rfl⟩, h.trans (min_le_right _ _), ?_⟩
    exact hle.trans (Nat.pow_le_pow_right (by omega) (le_max_right _ _))

namespace GraphQwen3Runner

variable {E : Type} {g : GraphQwen3Runner E}

theorem exists_preBucket_iff (ids : List TokenId) :
    (∃ bound, g.preBucket ids = some bound) ↔ paddedLength ids.length ≤ min 1024 g.maxLen := by
  rw [← exists_size_iff, preBucket, ← Option.isSome_iff_exists, List.find?_isSome]
  simp only [preBuckets, List.mem_filter, decide_eq_true_eq, and_assoc]

/-- A prompt finds a bucket in the buffers, and gets the logits of its last token, if and only if
the power of two that it is padded to is at most 1024 and fits. -/
theorem prefill_bucket_iff (g : GraphQwen3Runner E) {ids : List TokenId} (hne : 1 ≤ ids.length)
    (st : RunnerState E) :
    ((∃ bound, g.preBucket ids = some bound ∧ ids.length ≤ bound ∧ bound ≤ g.maxLen) ∧
      (g.prefill ids st).1 = .ok (((StaticArena.rows g.row [] 0 ids)[ids.length - 1]?.map
        Prod.snd).getD [])) ↔
      paddedLength ids.length ≤ min 1024 g.maxLen := by
  rw [← exists_preBucket_iff]
  constructor
  · rintro ⟨⟨bound, hbound, -⟩, -⟩
    exact ⟨bound, hbound⟩
  · rintro ⟨bound, hbound⟩
    obtain ⟨hle, hmem⟩ := preBucket_le hbound
    have hmax : bound ≤ g.maxLen := by simpa using (List.mem_filter.1 hmem).2
    exact ⟨⟨bound, hbound, hle, hmax⟩,
      (prefill_spec (List.ne_nil_of_length_pos hne) hbound st).1⟩

/-- A runner with buffers for 20 positions. The logits of a token are the tokens up to it. -/
def shortRunner : GraphQwen3Runner TokenId where
  row visible _ token := (token, visible.map (fun kv => (kv.2 : ℚ)) ++ [(token : ℚ)])
  maxLen := 20

/-- A prompt of three tokens fits, in a bucket with padding, whatever its arena holds. -/
theorem prefill_bucket_threeTokens :
    (∃ bound, shortRunner.preBucket [5, 7, 6] = some bound ∧ 3 ≤ bound ∧ bound ≤ 20) ∧
      (shortRunner.prefill [5, 7, 6] { kv := fun _ => 9 }).1 = .ok [5, 7, 6] :=
  (prefill_bucket_iff shortRunner (by decide) _).2 (by decide)

/-- A prompt of 17 tokens is shorter than the buffers, but the next size after 16 is 32. -/
theorem not_prefill_bucket : ¬∀ (E : Type) (g : GraphQwen3Runner E) (ids : List TokenId)
    (st : RunnerState E), 1 ≤ ids.length → ids.length < g.maxLen →
    (∃ bound, g.preBucket ids = some bound ∧ ids.length ≤ bound ∧ bound ≤ g.maxLen) ∧
      (g.prefill ids st).1 = .ok (((StaticArena.rows g.row [] 0 ids)[ids.length - 1]?.map
        Prod.snd).getD []) := by
  intro h
  obtain ⟨⟨bound, hbound, -⟩, -⟩ := h TokenId shortRunner (List.replicate 17 1)
    { kv := fun _ => 9 } (by decide) (by decide)
  have hnone : shortRunner.preBucket (List.replicate 17 1) = none := by decide
  rw [hnone] at hbound
  cases hbound

end GraphQwen3Runner

/-! ## Passes of a decode -/

/-- A pass over the arena : the bucket that the attention scans, if one is found, and the
positions of the tokens that are fed, where their K/V is written. -/
structure GraphPass where
  bound : Option ℕ
  positions : List ℕ
  deriving DecidableEq, Repr

namespace GraphPass

/-- The keys of a bucket that the mask `arange[:bound] > pos` leaves to a position. -/
def visible (bound pos : ℕ) : List ℕ :=
  (List.range bound).filter fun j => ¬pos < j

/-- A pass finds a bucket, writes and reads inside the buffers, and shows each position the keys
up to its own. -/
def Inside (maxLen : ℕ) (p : GraphPass) : Prop :=
  ∃ bound, p.bound = some bound ∧ (∀ j < bound, j < maxLen) ∧
    ∀ pos ∈ p.positions, pos < maxLen ∧ visible bound pos = List.range (pos + 1)

theorem visible_eq {bound pos : ℕ} (h : pos < bound) :
    visible bound pos = List.range (pos + 1) := by
  obtain ⟨k, rfl⟩ := Nat.exists_eq_add_of_le (Nat.succ_le_of_lt h)
  rw [visible, List.range_add, List.filter_append, List.filter_eq_self.2, List.filter_eq_nil_iff.2,
    List.append_nil]
  · intro j hj
    obtain ⟨i, -, rfl⟩ := List.mem_map.1 hj
    simp
    omega
  · intro j hj
    simpa using Nat.le_of_lt_succ (List.mem_range.1 hj)

end GraphPass

namespace GraphQwen3Runner

variable {E : Type} (g : GraphQwen3Runner E)

/-- The pass of `decode` and its siblings. -/
def decodePass (pos : ℕ) : GraphPass where
  bound := g.buckets.find? (pos < ·)
  positions := [pos]

/-- The pass of `verify`, over `n` tokens. It scans the whole buffers. -/
def verifyPass (posStart n : ℕ) : GraphPass where
  bound := some g.maxLen
  positions := List.range' posStart n

variable {g}

theorem decodePass_inside {pos : ℕ} (h : pos < g.maxLen) : (g.decodePass pos).Inside g.maxLen := by
  have hmem : g.maxLen ∈ g.buckets := by simp [buckets]
  obtain ⟨bound, hbound⟩ : ∃ bound, g.buckets.find? (pos < ·) = some bound := by
    rw [← Option.isSome_iff_exists, List.find?_isSome]
    exact ⟨g.maxLen, hmem, by simpa using h⟩
  have hpos : pos < bound := by simpa using List.find?_some hbound
  have hle : bound ≤ g.maxLen := by
    have hbound' := List.mem_of_find?_eq_some hbound
    rw [buckets, List.mem_append, List.mem_filter, List.mem_singleton, decide_eq_true_eq] at hbound'
    exact hbound'.elim (fun hb => hb.2.le) le_of_eq
  refine ⟨bound, hbound, fun j hj => hj.trans_le hle, fun pos' hpos' => ?_⟩
  obtain rfl := List.mem_singleton.1 hpos'
  exact ⟨h, GraphPass.visible_eq hpos⟩

theorem verifyPass_inside {posStart n : ℕ} (h : posStart + n ≤ g.maxLen) :
    (g.verifyPass posStart n).Inside g.maxLen := by
  refine ⟨g.maxLen, rfl, fun j hj => hj, fun pos hpos => ?_⟩
  have hlt := (List.mem_range'_1.1 hpos).2
  exact ⟨by omega, GraphPass.visible_eq (by omega)⟩

variable (g) in
/-- What passes did on a runner : they stayed inside the buffers, wrote at their positions only,
and the decode graphs among them saw all positions below. -/
structure Ran (st st' : RunnerState E) (passes : List GraphPass) : Prop where
  inside : ∀ p ∈ passes, p.Inside g.maxLen
  frame : ∀ j, (∀ p ∈ passes, j ∉ p.positions) → st'.kv j = st.kv j
  replayed : ∃ rs, st'.replays = st.replays ++ rs ∧
    ∀ r ∈ rs, g.decodePass r.pos ∈ passes ∧ r.visible.map Prod.fst = List.range r.pos

theorem Ran.refl (st : RunnerState E) : g.Ran st st [] where
  inside := by simp
  frame j _ := rfl
  replayed := ⟨[], by simp⟩

theorem Ran.trans {st st' st'' : RunnerState E} {ps qs : List GraphPass} (h : g.Ran st st' ps)
    (h' : g.Ran st' st'' qs) : g.Ran st st'' (ps ++ qs) where
  inside p hp := (List.mem_append.1 hp).elim (h.inside p) (h'.inside p)
  frame j hj := by
    rw [h'.frame j fun p hp => hj p (List.mem_append_right _ hp),
      h.frame j fun p hp => hj p (List.mem_append_left _ hp)]
  replayed := by
    obtain ⟨rs, hrs, hvisible⟩ := h.replayed
    obtain ⟨rs', hrs', hvisible'⟩ := h'.replayed
    refine ⟨rs ++ rs', by rw [hrs', hrs, List.append_assoc], fun r hr => ?_⟩
    rcases List.mem_append.1 hr with hr | hr
    · exact (hvisible r hr).imp_left (List.mem_append_left _)
    · exact (hvisible' r hr).imp_left (List.mem_append_right _)

/-- A forward pass writes at the positions of its tokens. -/
theorem forward_frame (bound pos : ℕ) (tokenIds : List TokenId) (st : RunnerState E) {j : ℕ}
    (hj : j ∉ List.range' pos tokenIds.length) :
    (g.forward bound pos tokenIds st).2.kv j = st.kv j := by
  rw [List.mem_range'_1, not_and_or, Nat.not_le, Nat.not_lt] at hj
  exact hj.elim (StaticArena.forward_of_lt g.row st.kv) (StaticArena.forward_of_le g.row st.kv)

theorem decode_ran {pos : ℕ} (h : pos < g.maxLen) (token : TokenId) (st : RunnerState E) :
    g.Ran st (g.decode token pos st).2 [g.decodePass pos] where
  inside p hp := by
    rw [List.mem_singleton.1 hp]
    exact decodePass_inside h
  frame j hj := by
    have hout : j ∉ List.range' pos [token].length := hj _ (List.mem_singleton_self _)
    unfold decode
    dsimp only
    split_ifs
    · exact forward_frame _ pos [token] _ hout
    · simp only [capture, decodeForward, forward, StaticArena.forward_forward]
      exact forward_frame (g.bucketFor pos) pos [token] st hout
  replayed := by
    refine ⟨_, (decode_spec h token st).2.2, fun r hr => ?_⟩
    rw [List.mem_singleton.1 hr]
    exact ⟨List.mem_singleton_self _, by simp [StaticArena.below, Function.comp_def]⟩

theorem decodeLoop_ran : ∀ (k : ℕ) {pos : ℕ}, pos + k ≤ g.maxLen → ∀ (token : TokenId)
    (st : RunnerState E),
    g.Ran st (g.decodeLoop k token pos st).2 ((List.range' pos k).map g.decodePass)
  | 0, _, _, _, st => .refl st
  | k + 1, pos, h, token, st => by
    rw [List.range'_succ, List.map_cons, ← List.singleton_append]
    exact (decode_ran (by omega) token st).trans (decodeLoop_ran k (by omega) _ _)

theorem verify_ran {pos : ℕ} {tokens : List TokenId} (h : pos + tokens.length ≤ g.maxLen)
    (st : RunnerState E) :
    g.Ran st (g.verify tokens pos st).2 [g.verifyPass pos tokens.length] where
  inside p hp := by
    rw [List.mem_singleton.1 hp]
    exact verifyPass_inside h
  frame j hj := by
    have hout : j ∉ List.range' pos tokens.length := hj _ (List.mem_singleton_self _)
    unfold verify
    dsimp only
    split_ifs
    · exact forward_frame g.maxLen pos tokens st hout
    · simp only [verifyForward, forward, StaticArena.forward_forward]
      exact forward_frame g.maxLen pos tokens st hout
  replayed := by
    refine ⟨[], ?_, by simp⟩
    unfold verify
    dsimp only
    split_ifs <;> simp [verifyForward, forward]

end GraphQwen3Runner

namespace CudaGraphQwen3Executor

variable {E D : Type} (ex : CudaGraphQwen3Executor E)

/-- The passes of `forward_decode`. -/
def decodePasses (sequence : Sequence) (env : Env E D) : List GraphPass :=
  let state := env.state.states.ensure sequence
  if state.finished then []
  else
    match state.pendingTokenId with
    | some _ => []
    | none =>
      match state.generatedTokenIds.getLast? with
      | none => []
      | some _ =>
        let position := state.promptTokenCount + state.generatedTokenIds.length
        if ex.maxLen ≤ position then []
        else if ex.isGreedy sequence = false then [ex.runner.decodePass position]
        else
          let k := ex.chunkLength
            ((sequence.maxNewTokens : ℤ) - state.generatedTokenIds.length) position
          (List.range' position k).map ex.runner.decodePass

/-- A chunk ends inside the buffers. -/
theorem add_chunkLength_le {position : ℕ} (h : position < ex.maxLen) (remaining : ℤ) :
    position + ex.chunkLength remaining position ≤ ex.maxLen := by
  unfold chunkLength
  omega

theorem forwardDecode_ran (sequence : Sequence) (batch : Batch) (env : Env E D) :
    ex.runner.Ran env.state.runner (ex.forwardDecode sequence batch env).2.state.runner
      (ex.decodePasses sequence env) := by
  unfold forwardDecode decodePasses
  dsimp only
  generalize env.state.states.ensure sequence = state
  by_cases hfin : state.finished = true
  · rw [if_pos hfin, if_pos hfin]
    exact .refl _
  · rw [if_neg hfin, if_neg hfin]
    rcases state.pendingTokenId with - | tokenId
    · rcases state.generatedTokenIds.getLast? with - | last
      · exact .refl _
      · dsimp only
        split_ifs with hmax hgreedy
        · exact .refl _
        · exact GraphQwen3Runner.decode_ran (Nat.lt_of_not_le hmax) _ _
        · exact GraphQwen3Runner.decodeLoop_ran _
            (ex.add_chunkLength_le (Nat.lt_of_not_le hmax) _) _ _
    · exact .refl _

theorem forwardDecode_draft (sequence : Sequence) (batch : Batch) (env : Env E D) :
    (ex.forwardDecode sequence batch env).2.state.draft = env.state.draft := by
  unfold forwardDecode
  dsimp only
  by_cases hfin : (env.state.states.ensure sequence).finished = true
  · rw [if_pos hfin]
  · rw [if_neg hfin]
    split
    · rfl
    · split
      · rfl
      · split_ifs <;> rfl

end CudaGraphQwen3Executor

namespace SpecCudaGraphQwen3Executor

open CudaGraphQwen3Executor

variable {E D : Type} (ex : SpecCudaGraphQwen3Executor E D)

/-- `forward_decode` starts a speculative round. -/
def Speculates (sequence : Sequence) (env : Env E D) : Prop :=
  let state := env.state.states.ensure sequence
  state.finished = false ∧ state.pendingTokenId = none ∧ state.generatedTokenIds ≠ [] ∧
    sequence.metadata.temperature.getD ex.config.defaultTemperature ≤ 0 ∧
    sequence.metadata.repetitionPenalty.getD ex.config.defaultRepetitionPenalty = 1 ∧
    state.promptTokenCount + state.generatedTokenIds.length + ex.specK + 2 < ex.maxLen

instance (sequence : Sequence) (env : Env E D) : Decidable (ex.Speculates sequence env) := by
  unfold Speculates
  infer_instance

variable {ex} in
theorem forwardDecode_of_speculates {sequence : Sequence} {env : Env E D}
    (h : ex.Speculates sequence env) (batch : Batch) :
    let state := env.state.states.ensure sequence
    let round := ex.specRound (state.generatedTokenIds.getLastD 0)
      (state.promptTokenCount + state.generatedTokenIds.length) env.state
    (ex.forwardDecode sequence batch env).2.state.runner = round.2.runner ∧
      (ex.forwardDecode sequence batch env).2.state.draft = round.2.draft := by
  obtain ⟨hfin, hpending, hne, htemp, hrep, hroom⟩ := h
  unfold forwardDecode
  dsimp only
  rw [if_neg (by simp [hfin]), if_neg (by simp [hpending, hne]), if_neg]
  · exact ⟨rfl, rfl⟩
  · rintro (hpos | hrep' | hfull)
    · exact htemp.not_gt hpos
    · exact hrep' hrep
    · omega

variable {ex} in
/-- A call that starts no round decodes as without a draft. -/
theorem forwardDecode_of_not_speculates {sequence : Sequence} {env : Env E D}
    (h : ¬ex.Speculates sequence env) (batch : Batch) :
    ex.forwardDecode sequence batch env =
      ex.toCudaGraphQwen3Executor.forwardDecode sequence batch env := by
  unfold forwardDecode
  dsimp only
  split_ifs with hfin hwait hfall
  · rw [CudaGraphQwen3Executor.forwardDecode]
    dsimp only
    rw [if_pos hfin]
  · rfl
  · rfl
  · rw [not_or, Option.not_isSome_iff_eq_none] at hwait
    rw [not_or, not_or, not_lt, not_not, Nat.not_le] at hfall
    exact absurd ⟨by simpa using hfin, hwait.1, hwait.2, hfall.1, hfall.2.1, hfall.2.2⟩ h

/-- The passes of `forward_decode` on the target model. -/
def targetPasses (sequence : Sequence) (env : Env E D) : List GraphPass :=
  let state := env.state.states.ensure sequence
  if ex.Speculates sequence env then
    [ex.runner.verifyPass (state.promptTokenCount + state.generatedTokenIds.length)
      (ex.specK + 1)]
  else ex.toCudaGraphQwen3Executor.decodePasses sequence env

/-- All proposals of a round are accepted. -/
def AcceptsAll (lastToken : TokenId) (n : ℕ) (st : GraphState E D) : Prop :=
  let drafts := (ex.draft.decodeLoop ex.specK lastToken n st.draft).1
  let tg := (ex.runner.verify (lastToken :: drafts) n st.runner).1.map greedyToken
  cumprodSum (tg.take ex.specK) drafts = ex.specK

instance (lastToken : TokenId) (n : ℕ) (st : GraphState E D) :
    Decidable (ex.AcceptsAll lastToken n st) := by
  unfold AcceptsAll
  infer_instance

/-- The passes of `_spec_round` on the draft model. -/
def draftRound (lastToken : TokenId) (n : ℕ) (st : GraphState E D) : List GraphPass :=
  (List.range' n ex.specK).map ex.draft.decodePass ++
    if ex.AcceptsAll lastToken n st then [ex.draft.decodePass (n + ex.specK)] else []

/-- The passes of `forward_decode` on the draft model. -/
def draftPasses (sequence : Sequence) (env : Env E D) : List GraphPass :=
  let state := env.state.states.ensure sequence
  if ex.Speculates sequence env then
    ex.draftRound (state.generatedTokenIds.getLastD 0)
      (state.promptTokenCount + state.generatedTokenIds.length) env.state
  else []

theorem specRound_ran {n : ℕ} (h : n + ex.specK + 2 < ex.maxLen) (lastToken : TokenId)
    (st : GraphState E D) :
    ex.runner.Ran st.runner (ex.specRound lastToken n st).2.runner
        [ex.runner.verifyPass n (ex.specK + 1)] ∧
      ex.draft.Ran st.draft (ex.specRound lastToken n st).2.draft
        (ex.draftRound lastToken n st) := by
  have hloop := GraphQwen3Runner.decodeLoop_ran (g := ex.draft) ex.specK
    (show n + ex.specK ≤ ex.maxLen by omega) lastToken st.draft
  have hverify : ex.runner.Ran st.runner (ex.runner.verify
      (lastToken :: (ex.draft.decodeLoop ex.specK lastToken n st.draft).1) n st.runner).2
        [ex.runner.verifyPass n (ex.specK + 1)] := by
    have hlen : (lastToken :: (ex.draft.decodeLoop ex.specK lastToken n st.draft).1).length =
        ex.specK + 1 := by
      rw [List.length_cons, length_decodeLoop]
    rw [← hlen]
    exact GraphQwen3Runner.verify_ran (by rw [hlen]; show n + (ex.specK + 1) ≤ ex.maxLen; omega) _
  unfold specRound
  dsimp only
  split_ifs with haccepts
  · rw [draftRound, if_pos (show ex.AcceptsAll lastToken n st from haccepts)]
    exact ⟨hverify, hloop.trans (GraphQwen3Runner.decode_ran (g := ex.draft)
      (show n + ex.specK < ex.maxLen by omega) _ _)⟩
  · rw [draftRound, if_neg (show ¬ex.AcceptsAll lastToken n st from haccepts), List.append_nil]
    exact ⟨hverify, hloop⟩

/-- Every pass of a decode, from any state, finds a bucket and stays inside the static buffers :
it writes at its positions only, all below `graph_max_len`, and shows each of them the positions
up to its own. This is so without a draft model, and with one for both models. -/
theorem forwardDecode_inside (plain : CudaGraphQwen3Executor E)
    (ex : SpecCudaGraphQwen3Executor E D) (sequence : Sequence) (batch : Batch) (env : Env E D) :
    plain.runner.Ran env.state.runner (plain.forwardDecode sequence batch env).2.state.runner
        (plain.decodePasses sequence env) ∧
      ex.runner.Ran env.state.runner (ex.forwardDecode sequence batch env).2.state.runner
        (ex.targetPasses sequence env) ∧
      ex.draft.Ran env.state.draft (ex.forwardDecode sequence batch env).2.state.draft
        (ex.draftPasses sequence env) := by
  refine ⟨plain.forwardDecode_ran sequence batch env, ?_⟩
  unfold targetPasses draftPasses
  dsimp only
  by_cases hspec : ex.Speculates sequence env
  · obtain ⟨hrunner, hdraft⟩ := forwardDecode_of_speculates hspec batch
    rw [if_pos hspec, if_pos hspec, hrunner, hdraft]
    exact ex.specRound_ran hspec.2.2.2.2.2 _ _
  · rw [if_neg hspec, if_neg hspec, forwardDecode_of_not_speculates hspec,
      ex.toCudaGraphQwen3Executor.forwardDecode_draft]
    exact ⟨ex.toCudaGraphQwen3Executor.forwardDecode_ran sequence batch env, .refl _⟩

end SpecCudaGraphQwen3Executor

end SoloRT
