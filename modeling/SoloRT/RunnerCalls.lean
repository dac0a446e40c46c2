import SoloRT.GraphRunner

/-!
# Calls of a graph runner

Between the calls of its methods a runner keeps its arena, and overwrites what it is fed again : a
prefill starts a new prompt, and a decode or a verification may go back to a position before the
last. A list of tokens is all that this amounts to (`tokenCall`). Each call returns the logits of
its tokens in the list that it leaves, as if the list was fed to a new arena (`run_eq_tokenRun`).
-/

namespace SoloRT

/-- A call of a method of a runner. -/
inductive RunnerCall
  | prefill (ids : List TokenId)
  | decode (token : TokenId) (pos : ℕ)
  | verify (tokens : List TokenId) (posStart : ℕ)

namespace RunnerCall

/-- Calls made one after the other, with the rows of logits that each returns. -/
def run {S : Type} (call : RunnerCall → S → Except PyError (List (List ℚ)) × S) :
    List RunnerCall → S → List (Except PyError (List (List ℚ))) × S
  | [], st => ([], st)
  | c :: calls, st =>
    let (result, st) := call c st
    let (results, st) := run call calls st
    (result :: results, st)

end RunnerCall

namespace GraphQwen3Runner

variable {E : Type} (g : GraphQwen3Runner E)

def call (c : RunnerCall) (st : RunnerState E) :
    Except PyError (List (List ℚ)) × RunnerState E :=
  match c with
  | .prefill ids => Prod.map (·.map ([·])) id (g.prefill ids st)
  | .decode token pos => Prod.map (.ok [·]) id (g.decode token pos st)
  | .verify tokens posStart => Prod.map .ok id (g.verify tokens posStart st)

/-- The logits of tokens fed to a new arena. -/
def tokenLogits (ts : List TokenId) : List (List ℚ) :=
  (StaticArena.rows g.row [] 0 ts).map Prod.snd

/-- A call on the tokens fed so far. A prefill leaves the padding of its bucket after the prompt. -/
def tokenCall (c : RunnerCall) (fed : List TokenId) :
    Except PyError (List (List ℚ)) × List TokenId :=
  match c with
  | .prefill ids =>
    match g.preBucket ids with
    | none => (.error ⟨.stopIteration, ""⟩, fed)
    | some bound =>
      (.ok [(g.tokenLogits ids).getD (ids.length - 1) []],
        ids ++ List.replicate (bound - ids.length) 0)
  | .decode token pos =>
    let fed := fed.take pos ++ [token]
    (.ok ((g.tokenLogits fed).drop pos), fed)
  | .verify tokens posStart =>
    let fed := fed.take posStart ++ tokens
    (.ok ((g.tokenLogits fed).drop posStart), fed)

/-- A call may go back in the tokens, and skips none. -/
def Follows (maxLen : ℕ) (fed : List TokenId) : RunnerCall → Prop
  | .prefill ids => ids ≠ []
  | .decode _ pos => pos ≤ fed.length ∧ pos < maxLen
  | .verify tokens posStart => posStart ≤ fed.length ∧ posStart + tokens.length ≤ maxLen

instance (maxLen : ℕ) (fed : List TokenId) : DecidablePred (Follows maxLen fed)
  | .prefill ids => inferInstanceAs (Decidable (ids ≠ []))
  | .decode _ pos => inferInstanceAs (Decidable (pos ≤ fed.length ∧ pos < maxLen))
  | .verify tokens posStart =>
    inferInstanceAs (Decidable (posStart ≤ fed.length ∧ posStart + tokens.length ≤ maxLen))

/-- Every call follows the tokens that the calls before it leave. -/
def AllFollow : List RunnerCall → List TokenId → Prop
  | [], _ => True
  | c :: calls, fed => Follows g.maxLen fed c ∧ AllFollow calls (g.tokenCall c fed).2

/-- The arena holds what the tokens make visible. -/
def HoldsTokens (st : RunnerState E) (fed : List TokenId) : Prop :=
  StaticArena.below st.kv fed.length = StaticArena.feed g.row [] 0 fed

variable {g} {st : RunnerState E} {fed : List TokenId}

theorem HoldsTokens.below_eq (h : g.HoldsTokens st fed) {pos : ℕ} (hpos : pos ≤ fed.length) :
    StaticArena.below st.kv pos = StaticArena.feed g.row [] 0 (fed.take pos) := by
  rw [StaticArena.feed_take, ← h, StaticArena.below_take _ hpos]

/-- The logits of tokens after some that are fed already. -/
theorem tokenLogits_drop {pos : ℕ} (hpos : pos ≤ fed.length) (ts : List TokenId) :
    (g.tokenLogits (fed.take pos ++ ts)).drop pos =
      (StaticArena.rows g.row (StaticArena.feed g.row [] 0 (fed.take pos)) pos ts).map
        Prod.snd := by
  have hlen : (fed.take pos).length = pos := by rw [List.length_take, Nat.min_eq_left hpos]
  rw [tokenLogits, StaticArena.rows_append, List.map_append, List.drop_left' (by simp [hpos]), hlen,
    Nat.zero_add]

/-- A prefill starts again from the padded prompt. -/
theorem prefill_tokenCall {ids : List TokenId} (hne : ids ≠ []) (h : g.HoldsTokens st fed) :
    (g.call (.prefill ids) st).1 = (g.tokenCall (.prefill ids) fed).1 ∧
      g.HoldsTokens (g.call (.prefill ids) st).2 (g.tokenCall (.prefill ids) fed).2 := by
  rw [tokenCall, call]
  cases hbound : g.preBucket ids with
  | none =>
    rw [prefill_none hbound]
    exact ⟨rfl, h⟩
  | some bound =>
    obtain ⟨hlogits, -⟩ := prefill_spec hne hbound st
    refine ⟨?_, ?_⟩
    · rw [Prod.map_fst, hlogits, promptLogits, tokenLogits, List.getD_eq_getElem?_getD,
        List.getElem?_map]
      rfl
    · have hcaptured := prefillForward_captured (g := g) bound
        (ids ++ List.replicate (bound - ids.length) 0) st (decide (bound ∈ st.preGraphs))
      unfold preBucket at hbound
      simp only [decide_eq_true_eq] at hcaptured
      unfold HoldsTokens prefill
      rw [hbound]
      dsimp only [Prod.map]
      rw [id, hcaptured.2.1, prefillForward, forward]
      have hbelow := StaticArena.below_forward g.row st.kv bound.zero_le
        (ids ++ List.replicate (bound - ids.length) 0)
      rwa [Nat.zero_add] at hbelow

theorem decode_tokenCall {token : TokenId} {pos : ℕ} (hpos : pos ≤ fed.length)
    (hlt : pos < g.maxLen) (h : g.HoldsTokens st fed) :
    (g.call (.decode token pos) st).1 = (g.tokenCall (.decode token pos) fed).1 ∧
      g.HoldsTokens (g.call (.decode token pos) st).2 (g.tokenCall (.decode token pos) fed).2 := by
  have hlen : (fed.take pos).length = pos := by rw [List.length_take, Nat.min_eq_left hpos]
  obtain ⟨hlogits, hbelow, -⟩ := decode_spec hlt token st
  rw [h.below_eq hpos] at hlogits hbelow
  refine ⟨?_, ?_⟩
  · rw [tokenCall, call, tokenLogits_drop hpos, Prod.map_fst, hlogits]
    rfl
  · rw [HoldsTokens, tokenCall, call, Prod.map_snd, id, List.length_append, hlen,
      List.length_singleton, hbelow, StaticArena.feed_append, hlen, Nat.zero_add]

theorem verify_tokenCall {tokens : List TokenId} {pos : ℕ} (hpos : pos ≤ fed.length)
    (hle : pos + tokens.length ≤ g.maxLen) (h : g.HoldsTokens st fed) :
    (g.call (.verify tokens pos) st).1 = (g.tokenCall (.verify tokens pos) fed).1 ∧
      g.HoldsTokens (g.call (.verify tokens pos) st).2
        (g.tokenCall (.verify tokens pos) fed).2 := by
  have hlen : (fed.take pos).length = pos := by rw [List.length_take, Nat.min_eq_left hpos]
  obtain ⟨hlogits, hbelow⟩ := verify_spec (by omega : pos ≤ g.maxLen) tokens st
  have hbelow := hbelow tokens [] (List.append_nil _).symm
  rw [h.below_eq hpos] at hlogits hbelow
  refine ⟨?_, ?_⟩
  · rw [tokenCall, call, tokenLogits_drop hpos, Prod.map_fst, hlogits]
  · rw [HoldsTokens, tokenCall, call, Prod.map_snd, id, List.length_append, hlen, hbelow,
      StaticArena.feed_append, hlen, Nat.zero_add]

theorem call_eq_tokenCall {c : RunnerCall} (hc : Follows g.maxLen fed c)
    (h : g.HoldsTokens st fed) :
    (g.call c st).1 = (g.tokenCall c fed).1 ∧ g.HoldsTokens (g.call c st).2 (g.tokenCall c fed).2 :=
  match c with
  | .prefill _ => prefill_tokenCall hc h
  | .decode _ _ => decode_tokenCall hc.1 hc.2 h
  | .verify _ _ => verify_tokenCall hc.1 hc.2 h

/-- Calls of a runner depend on the tokens fed, and on nothing else in the arena. -/
theorem run_eq_tokenRun {calls : List RunnerCall} (hcalls : g.AllFollow calls fed)
    (h : g.HoldsTokens st fed) :
    (RunnerCall.run g.call calls st).1 = (RunnerCall.run g.tokenCall calls fed).1 := by
  induction calls generalizing st fed with
  | nil => rfl
  | cons c calls ih =>
    obtain ⟨hresult, hholds⟩ := call_eq_tokenCall hcalls.1 h
    exact congrArg₂ List.cons hresult (ih hcalls.2 hholds)

end GraphQwen3Runner

end SoloRT
