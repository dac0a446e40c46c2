import SoloRT.CudaGraph

/-!
# What the methods of a graph runner compute

Each method leaves the arena that its forward pass leaves, whether its graph was captured
before or is captured now. A prefill leaves the entries of the prompt, and where the prompt
fills its bucket, what the arena had after them (`prefill_spec`). A decode step sees the entries
below its position (`decode_spec`), and so does a verification (`verify_spec`).
-/

namespace SoloRT

namespace GraphQwen3Runner

variable {E : Type} (g : GraphQwen3Runner E)

/-- The logits after tokens that are fed from the start. -/
def promptLogits (ids : List TokenId) : List ℚ :=
  (((StaticArena.rows g.row [] 0 ids)[ids.length - 1]?).map Prod.snd).getD []

/-- The entry of the padding token after a prompt. -/
def padEntry (ids : List TokenId) : E :=
  (g.row (StaticArena.feed g.row [] 0 ids) ids.length 0).1

/-- The bucket of a prompt. -/
def preBucket (ids : List TokenId) : Option ℕ :=
  g.preBuckets.find? (ids.length ≤ ·)

variable {g}

theorem preBucket_le {ids : List TokenId} {bound : ℕ} (h : g.preBucket ids = some bound) :
    ids.length ≤ bound ∧ bound ∈ g.preBuckets := by
  have hle := List.find?_some h
  exact ⟨by simpa using hle, List.mem_of_find?_eq_some h⟩

/-- Capturing a prefill graph, or not, makes no difference to its first replay. -/
theorem prefillForward_captured (bound : ℕ) (preTok : List TokenId) (st : RunnerState E)
    (captured : Bool) :
    let st' := if captured then st else g.capturePrefill bound preTok st
    (g.prefillForward bound preTok st').1 = (g.prefillForward bound preTok st).1 ∧
      (g.prefillForward bound preTok st').2.kv = (g.prefillForward bound preTok st).2.kv ∧
      (g.prefillForward bound preTok st').2.replays = st.replays := by
  cases captured with
  | true => exact ⟨rfl, rfl, rfl⟩
  | false =>
    simp only [Bool.false_eq_true, if_false, capturePrefill, prefillForward, forward,
      StaticArena.forward_forward, and_self]

/-- A prefill that has no bucket raises, and leaves the runner alone. -/
theorem prefill_none {ids : List TokenId} (h : g.preBucket ids = none) (st : RunnerState E) :
    g.prefill ids st = (.error ⟨.stopIteration, ""⟩, st) := by
  unfold preBucket at h
  rw [prefill, h]

/-- What a prefill returns and leaves. -/
theorem prefill_spec {ids : List TokenId} (hne : ids ≠ []) {bound : ℕ}
    (h : g.preBucket ids = some bound) (st : RunnerState E) :
    (g.prefill ids st).1 = .ok (g.promptLogits ids) ∧
      StaticArena.below (g.prefill ids st).2.kv ids.length = StaticArena.feed g.row [] 0 ids ∧
      (g.prefill ids st).2.kv ids.length =
        (if ids.length < bound then g.padEntry ids else st.kv ids.length) ∧
      (g.prefill ids st).2.replays = st.replays := by
  have hle := (preBucket_le h).1
  have hpos := List.length_pos_of_ne_nil hne
  have hcaptured := prefillForward_captured (g := g) bound
    (ids ++ List.replicate (bound - ids.length) 0) st (decide (bound ∈ st.preGraphs))
  unfold preBucket at h
  simp only [decide_eq_true_eq] at hcaptured
  obtain ⟨hlogits, hkv, hreplays⟩ := hcaptured
  unfold prefill
  rw [h]
  dsimp only
  refine ⟨?_, ?_, ?_, hreplays⟩
  · rw [hlogits, prefillForward, forward]
    dsimp only
    have hlt : ids.length - 1 <
        ((StaticArena.rows g.row [] 0 ids).map Prod.snd).length := by
      rw [List.length_map, StaticArena.length_rows]
      omega
    have hfirst : StaticArena.below st.kv 0 = [] := rfl
    rw [StaticArena.forward_fst g.row st.kv (Nat.zero_le _), hfirst, StaticArena.rows_append,
      List.map_append, List.getD_eq_getElem?_getD, List.getElem?_append_left hlt,
      List.getElem?_map]
    rfl
  · rw [hkv, prefillForward, forward]
    have hbelow := StaticArena.below_forward_take g.row st.kv (Nat.zero_le bound) ids
      (List.replicate (bound - ids.length) 0)
    rwa [Nat.zero_add] at hbelow
  · rw [hkv, prefillForward, forward]
    dsimp only
    split_ifs with hlt
    · obtain ⟨k, hk⟩ : ∃ k, bound - ids.length = k + 1 := ⟨bound - ids.length - 1, by omega⟩
      have hbelow := StaticArena.below_forward_take g.row st.kv (Nat.zero_le bound)
        (ids ++ [0]) (List.replicate k 0)
      rw [hk, List.replicate_succ, List.append_cons]
      rw [List.length_append, List.length_singleton, Nat.zero_add, StaticArena.below_succ,
        StaticArena.feed_append, Nat.zero_add] at hbelow
      have hlast := congrArg List.getLast? hbelow
      rw [List.getLast?_concat, StaticArena.feed, StaticArena.feed, List.getLast?_concat] at hlast
      exact (Prod.mk.inj (Option.some.inj hlast)).2
    · refine StaticArena.forward_of_le g.row st.kv ?_
      rw [List.length_append, List.length_replicate]
      omega

theorem lt_bucketFor {pos : ℕ} (h : pos < g.maxLen) : pos < g.bucketFor pos := by
  unfold bucketFor
  cases hf : g.buckets.find? (pos < ·) with
  | none => exact h
  | some bound => simpa using List.find?_some hf

/-- What a decode step returns and leaves. -/
theorem decode_spec {pos : ℕ} (h : pos < g.maxLen) (token : TokenId) (st : RunnerState E) :
    (g.decode token pos st).1 = (g.row (StaticArena.below st.kv pos) pos token).2 ∧
      StaticArena.below (g.decode token pos st).2.kv (pos + 1) =
        StaticArena.feed g.row (StaticArena.below st.kv pos) pos [token] ∧
      (g.decode token pos st).2.replays =
        st.replays ++ [{ tokenId := token, pos, visible := StaticArena.below st.kv pos }] := by
  have hle := (lt_bucketFor h).le
  -- the capture leaves what a forward pass leaves
  have hcaptured : ∀ st' : RunnerState E,
      st' = (if g.bucketFor pos ∈ st.graphs then st else g.capture (g.bucketFor pos) token pos st) →
      StaticArena.below st'.kv pos = StaticArena.below st.kv pos ∧ st'.replays = st.replays := by
    rintro st' rfl
    split_ifs
    · exact ⟨rfl, rfl⟩
    · refine ⟨StaticArena.below_congr fun i hi => ?_, rfl⟩
      simp only [capture, decodeForward, forward, StaticArena.forward_forward]
      exact StaticArena.forward_of_lt g.row st.kv hi
  obtain ⟨hbelow, hreplays⟩ := hcaptured _ rfl
  unfold decode
  dsimp only
  generalize (if g.bucketFor pos ∈ st.graphs then st
    else g.capture (g.bucketFor pos) token pos st) = st' at hbelow hreplays
  refine ⟨?_, ?_, ?_⟩
  · rw [decodeForward, forward]
    dsimp only
    rw [StaticArena.forward_fst g.row st'.kv hle, hbelow]
    rfl
  · rw [decodeForward, forward, ← hbelow]
    exact StaticArena.below_forward g.row st'.kv hle [token]
  · rw [← hbelow, ← StaticArena.masked_eq_below _ hle, ← hreplays]
    rfl

/-- What a verification returns and leaves. -/
theorem verify_spec {pos : ℕ} (h : pos ≤ g.maxLen) (tokens : List TokenId) (st : RunnerState E) :
    (g.verify tokens pos st).1 =
        (StaticArena.rows g.row (StaticArena.below st.kv pos) pos tokens).map Prod.snd ∧
      (∀ ts us, tokens = ts ++ us →
        StaticArena.below (g.verify tokens pos st).2.kv (pos + ts.length) =
          StaticArena.feed g.row (StaticArena.below st.kv pos) pos ts) := by
  have hsame : (g.verify tokens pos st).1 = (g.verifyForward tokens pos st).1 ∧
      (g.verify tokens pos st).2.kv = (g.verifyForward tokens pos st).2.kv := by
    unfold verify
    dsimp only
    split_ifs
    · exact ⟨rfl, rfl⟩
    · simp only [verifyForward, forward, StaticArena.forward_forward, and_self]
  rw [hsame.1, hsame.2, verifyForward, forward]
  refine ⟨StaticArena.forward_fst g.row st.kv h tokens, fun ts us htokens => ?_⟩
  subst htokens
  exact StaticArena.below_forward_take g.row st.kv h ts us

end GraphQwen3Runner

end SoloRT
