import SoloRT.Greedy

/-!
# The cache of the draft model

`_draft_tokens` keeps the cache of the draft model from one round to the next, and counts the
tokens in it. A round extends the cache to the committed tokens, feeds its proposals to it, and
crops it again, or drops it if it cannot be cropped. `Covers` says what a round finds and leaves :
the count is the length of the cache, and its contents are the first committed tokens.

So a round proposes what the draft model generates from all the committed tokens and an empty
cache (`draftTokens_eq_scratch`), however many tokens each round adds. A cache is a value of any
type with the tokens in it (`DraftModel.Exact`); `objectDraft` has caches that are objects of a
heap, and all kinds of `crop`.
-/

namespace SoloRT

variable {δ : Type}

/-- The logits of a draft model depend on the tokens in its cache and those fed, and a cropped cache
has the first tokens. -/
structure DraftModel.Exact (draft : DraftModel δ) (contents : δ → List TokenId)
    (logits : List TokenId → List ℚ) : Prop where
  logits_eq : ∀ (tokenIds : List TokenId) (past : Option δ), tokenIds ≠ [] →
    (draft.forward tokenIds past).1 = logits (past.elim [] contents ++ tokenIds)
  forward_eq : ∀ (tokenIds : List TokenId) (past : Option δ), tokenIds ≠ [] →
    contents (draft.forward tokenIds past).2 = past.elim [] contents ++ tokenIds
  crop_eq : ∀ crop, draft.crop = some crop → ∀ (past : δ) (length : ℕ),
    contents (crop past length) = (contents past).take length

/-! ## Caches that are objects -/

/-- The method `crop` of a cache : it changes the object and returns nothing, it returns a new
object, or there is none. -/
inductive CropKind
  | inPlace
  | newObject
  | absent
  deriving DecidableEq, Repr

/-- `past.crop(length)` : what it returns, and the heap. -/
def CropKind.call (kind : CropKind) (heap : CacheHeap) (past length : ℕ) :
    Option (Option ℕ × CacheHeap) :=
  match kind with
  | .inPlace => some (none,
      { heap with tokens := Function.update heap.tokens past ((heap.tokens past).take length) })
  | .newObject => some (some heap.next,
      { tokens := Function.update heap.tokens heap.next ((heap.tokens past).take length)
        next := heap.next + 1 })
  | .absent => none

/-- A draft model whose caches are objects of a heap. A reference comes with the heap. -/
def objectDraft (model : CausalLM) (kind : CropKind) : DraftModel (ℕ × CacheHeap) where
  forward tokenIds past :=
    let heap := past.elim {} Prod.snd
    let (logits, id, heap) := model.forward heap (past.map Prod.fst) tokenIds
    (logits.getLastD [], (id, heap))
  crop :=
    if kind = .absent then none
    else some fun past length =>
      match kind.call past.2 past.1 length with
      | some (some cropped, heap) => (cropped, heap)
      | some (none, heap) => (past.1, heap)
      | none => past

/-- The tokens of the object that is referred to. -/
def objectTokens (past : ℕ × CacheHeap) : List TokenId :=
  past.2.tokens past.1

theorem elim_map_objectTokens (past : Option (ℕ × CacheHeap)) :
    (past.map Prod.fst).elim [] (past.elim {} Prod.snd).tokens = past.elim [] objectTokens := by
  cases past <;> rfl

theorem objectDraft_exact (model : CausalLM) (kind : CropKind) :
    (objectDraft model kind).Exact objectTokens model.logits where
  logits_eq tokenIds past hne := by
    obtain ⟨ts, t, rfl⟩ := List.eq_nil_or_concat' tokenIds |>.resolve_left hne
    rw [objectDraft]
    dsimp only
    cases hforward : model.forward (past.elim {} Prod.snd) (past.map Prod.fst) (ts ++ [t]) with
    | mk rows r =>
      obtain ⟨-, -, hrows⟩ := model.forward_spec _ _ _ hforward
      rw [elim_map_objectTokens] at hrows
      rw [hrows, List.length_append, List.length_singleton, List.range_succ, List.map_append,
        List.map_singleton, List.getLastD_concat, List.take_of_length_le (by simp)]
  forward_eq tokenIds past _ := by
    rw [objectDraft]
    dsimp only
    cases hforward : model.forward (past.elim {} Prod.snd) (past.map Prod.fst) tokenIds with
    | mk rows r =>
      obtain ⟨-, htokens, -⟩ := model.forward_spec _ _ _ hforward
      rw [elim_map_objectTokens] at htokens
      exact htokens
  crop_eq crop hcrop past length := by
    cases kind with
    | absent => cases hcrop
    | inPlace | newObject =>
      obtain rfl := Option.some.inj hcrop
      simp [CropKind.call, objectTokens]

/-! ## One round -/

namespace TransformersTextExecutor

variable {draft : DraftModel δ} {contents : δ → List TokenId}
  {logits : List TokenId → List ℚ}

variable (contents) in
/-- The tokens in the draft cache of a serving state. -/
def draftContents (state : ServingState δ) : List TokenId :=
  state.draftPastKeyValues.elim [] contents

variable (contents) in
/-- The draft cache has the first committed tokens, and their number is counted. -/
structure Covers (state : ServingState δ) (committed : List TokenId) : Prop where
  length_eq : state.draftCachedLen = (draftContents contents state).length
  isPrefix : draftContents contents state <+: committed

theorem draftForward_exact (h : draft.Exact contents logits) {tokenIds : List TokenId}
    (hne : tokenIds ≠ []) (state : ServingState δ) :
    (draftForward draft tokenIds state).1 = logits (draftContents contents state ++ tokenIds) ∧
      draftContents contents (draftForward draft tokenIds state).2 =
        draftContents contents state ++ tokenIds ∧
      (draftForward draft tokenIds state).2.draftCachedLen =
        state.draftCachedLen + tokenIds.length :=
  ⟨h.logits_eq tokenIds _ hne, h.forward_eq tokenIds _ hne, rfl⟩

/-- A cache that has the committed tokens first is cropped to them, or dropped. -/
theorem cropDraftCache_covers (h : draft.Exact contents logits) {state : ServingState δ}
    {committed : List TokenId} (hne : committed ≠ [])
    (hlen : state.draftCachedLen = (draftContents contents state).length)
    (hpre : committed <+: draftContents contents state) :
    Covers contents (cropDraftCache draft state committed.length) committed := by
  have hpos : committed.length ≠ 0 := fun h0 => hne (List.length_eq_zero_iff.1 h0)
  unfold cropDraftCache
  cases hpast : state.draftPastKeyValues with
  | none => exact ⟨rfl, List.nil_prefix⟩
  | some past =>
    cases hcrop : draft.crop with
    | none => exact ⟨rfl, List.nil_prefix⟩
    | some crop =>
      dsimp only
      rw [if_neg hpos]
      have hcontents : draftContents contents state = contents past := by
        rw [draftContents, hpast, Option.elim_some]
      rw [hcontents] at hlen hpre
      have htake : contents (crop past committed.length) = committed := by
        rw [h.crop_eq crop hcrop, ← List.prefix_iff_eq_take.1 hpre]
      refine ⟨?_, ?_⟩
      · rw [draftContents]
        dsimp only
        rw [Option.elim_some, htake, hlen, min_eq_right hpre.length_le]
      · rw [draftContents]
        dsimp only
        rw [Option.elim_some, htake]

/-- The cache is extended to the committed tokens, if it has only some of them. -/
theorem advanceDraftCache_exact (h : draft.Exact contents logits) {state : ServingState δ}
    {committed : List TokenId} (hc : Covers contents state committed)
    (hlt : draftContents contents state ≠ committed) :
    (advanceDraftCache draft state committed).1 = logits committed ∧
      draftContents contents (advanceDraftCache draft state committed).2 = committed ∧
      (advanceDraftCache draft state committed).2.draftCachedLen = committed.length := by
  obtain ⟨tail, htail⟩ := hc.isPrefix
  have hne : tail ≠ [] := by
    rintro rfl
    exact hlt (by rwa [List.append_nil] at htail)
  have hle := hc.isPrefix.length_le
  have hdrop : committed.drop state.draftCachedLen = tail := by
    rw [hc.length_eq, ← htail, List.drop_left]
  unfold advanceDraftCache
  dsimp only
  rw [if_neg (show ¬committed.length < state.draftCachedLen by rw [hc.length_eq]; omega), hdrop,
    if_neg hne]
  obtain ⟨hlogits, hcontents, hlen⟩ := draftForward_exact h hne state
  rw [htail] at hlogits hcontents
  refine ⟨hlogits, hcontents, ?_⟩
  rw [hlen, hc.length_eq, ← htail, List.length_append]

variable (draft) in
/-- The token that the draft model generates after some tokens, from an empty cache. -/
def scratchToken (tokenIds : List TokenId) : TokenId :=
  greedyToken (draft.forward tokenIds none).1

theorem scratchToken_eq (h : draft.Exact contents logits) {tokenIds : List TokenId}
    (hne : tokenIds ≠ []) : scratchToken draft tokenIds = greedyToken (logits tokenIds) := by
  rw [scratchToken, h.logits_eq tokenIds none hne]
  rfl

/-- The proposals end after EOS or a stop token. -/
def stopsProposals (ex : TransformersTextExecutor δ) (sequence : Sequence)
    (tokenIds : List TokenId) : Bool :=
  tokenIds.getLast?.any fun t => decide (t = ex.tokenizer.eos ∨ t ∈ sequence.stopTokenIds)

variable {ex : TransformersTextExecutor δ} {sequence : Sequence}

variable (ex sequence) in
theorem stopsProposals_concat (tokenIds : List TokenId) (t : TokenId) :
    ex.stopsProposals sequence (tokenIds ++ [t]) = true ↔
      t = ex.tokenizer.eos ∨ t ∈ sequence.stopTokenIds := by
  rw [stopsProposals, List.getLast?_concat, Option.any_some, decide_eq_true_eq]

/-- The loop proposes what is generated from scratch, and the cache keeps what it had. -/
theorem proposeTokens_exact (h : draft.Exact contents logits) (n : ℕ) {state : ServingState δ}
    {committed : List TokenId} (hne : committed ≠ [])
    (hcontents : draftContents contents state = committed)
    (hlen : state.draftCachedLen = committed.length) :
    (ex.proposeTokens draft sequence n (logits committed) state).1 =
        Generation.cut (ex.stopsProposals sequence) committed
          (Generation.follow (scratchToken draft) (n + 1) committed) ∧
      committed <+: draftContents contents
        (ex.proposeTokens draft sequence n (logits committed) state).2 ∧
      (ex.proposeTokens draft sequence n (logits committed) state).2.draftCachedLen =
        (draftContents contents
          (ex.proposeTokens draft sequence n (logits committed) state).2).length := by
  induction n generalizing state committed with
  | zero =>
    rw [Generation.follow, Generation.follow, scratchToken_eq h hne, Generation.cut,
      Generation.cut, ite_self]
    unfold proposeTokens
    dsimp only
    split_ifs
    · exact ⟨rfl, hcontents ▸ List.prefix_rfl, by rw [hlen, hcontents]⟩
    · exact ⟨rfl, hcontents ▸ List.prefix_rfl, by rw [hlen, hcontents]⟩
  | succ n ih =>
    have hstop := stopsProposals_concat ex sequence committed (greedyToken (logits committed))
    rw [Generation.follow, scratchToken_eq h hne, Generation.cut]
    unfold proposeTokens
    dsimp only
    by_cases hends : greedyToken (logits committed) = ex.tokenizer.eos ∨
        greedyToken (logits committed) ∈ sequence.stopTokenIds
    · rw [if_pos hends, if_pos (hstop.2 hends)]
      exact ⟨rfl, hcontents ▸ List.prefix_rfl, by rw [hlen, hcontents]⟩
    · rw [if_neg hends, if_neg fun hs => hends (hstop.1 hs)]
      obtain ⟨hlogits, hnext, hcount⟩ := draftForward_exact h
        (List.cons_ne_nil (greedyToken (logits committed)) []) state
      rw [hcontents] at hlogits hnext
      rw [hlogits]
      obtain ⟨htokens, hpre, hcached⟩ := ih (by simp) hnext (by
        rw [hcount, hlen, List.length_append])
      exact ⟨by rw [htokens], (List.prefix_append _ _).trans hpre, hcached⟩

/-- One call of `_draft_tokens`. The cache has the first committed tokens, and not all. -/
theorem draftTokens_exact (hdraft : ex.draftModel = some draft) (h : draft.Exact contents logits)
    {state : ServingState δ}
    (hc : Covers contents state (sequence.inputIds ++ state.generatedTokenIds))
    (hne : sequence.inputIds ++ state.generatedTokenIds ≠ [])
    (hlt : draftContents contents state ≠ sequence.inputIds ++ state.generatedTokenIds)
    (draftCount : ℤ) :
    (ex.draftTokens sequence state draftCount).1 =
        Generation.cut (ex.stopsProposals sequence)
          (sequence.inputIds ++ state.generatedTokenIds)
          (Generation.follow (scratchToken draft) draftCount.toNat
            (sequence.inputIds ++ state.generatedTokenIds)) ∧
      Covers contents (ex.draftTokens sequence state draftCount).2
        (sequence.inputIds ++ state.generatedTokenIds) := by
  unfold draftTokens
  rw [hdraft]
  dsimp only
  by_cases hcount : draftCount ≤ 0
  · rw [if_pos (.inl hcount), Int.toNat_of_nonpos hcount, Generation.follow, Generation.cut]
    exact ⟨rfl, hc⟩
  · rw [if_neg (not_or.2 ⟨hcount, hne⟩)]
    obtain ⟨hlogits, hcontents, hlen⟩ := advanceDraftCache_exact h hc hlt
    obtain ⟨htokens, hpre, hcached⟩ :=
      proposeTokens_exact h (draftCount.toNat - 1) hne hcontents hlen
    rw [hlogits]
    rw [show draftCount.toNat - 1 + 1 = draftCount.toNat by omega] at htokens
    exact ⟨htokens, cropDraftCache_covers h hne hcached hpre⟩

/-! ## All rounds -/

/-- The serving states and draft counts that the calls of `_draft_tokens` for a sequence are
given : no draft cache at the first call, and between two calls at least one more token. -/
inductive DraftCall (ex : TransformersTextExecutor δ) (sequence : Sequence) :
    ServingState δ → ℤ → Prop
  | first {state : ServingState δ} (draftCount : ℤ) (hpast : state.draftPastKeyValues = none)
      (hlen : state.draftCachedLen = 0) : DraftCall ex sequence state draftCount
  | next {state state' : ServingState δ} {draftCount : ℤ}
      (h : DraftCall ex sequence state draftCount)
      (hpast : state'.draftPastKeyValues =
        (ex.draftTokens sequence state draftCount).2.draftPastKeyValues)
      (hlen : state'.draftCachedLen =
        (ex.draftTokens sequence state draftCount).2.draftCachedLen)
      {grown : List TokenId} (hne : grown ≠ [])
      (hgrown : state'.generatedTokenIds = state.generatedTokenIds ++ grown) (draftCount' : ℤ) :
      DraftCall ex sequence state' draftCount'

/-- A call with no committed tokens does nothing. -/
theorem draftTokens_of_nil {state : ServingState δ}
    (hnil : sequence.inputIds ++ state.generatedTokenIds = []) (draftCount : ℤ) :
    ex.draftTokens sequence state draftCount = ([], state) := by
  unfold draftTokens
  cases ex.draftModel with
  | none => rfl
  | some draft => exact if_pos (.inr hnil)

/-- At each call the cache has the first committed tokens, and some tokens are new. -/
theorem DraftCall.covers (hdraft : ex.draftModel = some draft)
    (hexact : draft.Exact contents logits) {state : ServingState δ} {draftCount : ℤ}
    (h : DraftCall ex sequence state draftCount) :
    Covers contents state (sequence.inputIds ++ state.generatedTokenIds) ∧
      (sequence.inputIds ++ state.generatedTokenIds ≠ [] →
        draftContents contents state ≠ sequence.inputIds ++ state.generatedTokenIds) := by
  induction h with
  | @first state draftCount hpast hlen =>
    have hcontents : draftContents contents state = [] := by
      rw [draftContents, hpast, Option.elim_none]
    rw [hcontents]
    exact ⟨⟨by rw [hlen, hcontents, List.length_nil], hcontents ▸ List.nil_prefix⟩,
      fun hne => hne.symm⟩
  | @next state state' draftCount h hpast hlen grown hne hgrown draftCount' ih =>
    have hafter : Covers contents (ex.draftTokens sequence state draftCount).2
        (sequence.inputIds ++ state.generatedTokenIds) := by
      by_cases hnil : sequence.inputIds ++ state.generatedTokenIds = []
      · rw [draftTokens_of_nil hnil]
        exact ih.1
      · exact (draftTokens_exact hdraft hexact ih.1 hnil (ih.2 hnil) draftCount).2
    have hcontents : draftContents contents state' =
        draftContents contents (ex.draftTokens sequence state draftCount).2 := by
      rw [draftContents, draftContents, hpast]
    rw [hgrown, ← List.append_assoc]
    refine ⟨⟨by rw [hlen, hafter.length_eq, hcontents], ?_⟩, fun _ heq => ?_⟩
    · rw [hcontents]
      exact hafter.isPrefix.trans (List.prefix_append _ _)
    · -- the cache would be longer than what it had the first tokens of
      have hle := hafter.isPrefix.length_le
      rw [← hcontents, heq, List.length_append] at hle
      exact hne (List.length_eq_zero_iff.1 (by omega))

/-- The incremental draft cache is equivalent to recomputing from scratch : each call returns what
the draft model generates greedily from all the committed tokens with an empty cache, cut after
EOS or a stop token and at the draft count. Then the count is the length of the cache, which has
the first committed tokens. -/
theorem draftTokens_eq_scratch (hdraft : ex.draftModel = some draft)
    (hexact : draft.Exact contents logits) {state : ServingState δ} {draftCount : ℤ}
    (h : DraftCall ex sequence state draftCount) :
    (sequence.inputIds ++ state.generatedTokenIds ≠ [] →
        (ex.draftTokens sequence state draftCount).1 =
          Generation.cut (ex.stopsProposals sequence)
            (sequence.inputIds ++ state.generatedTokenIds)
            (Generation.follow (scratchToken draft) draftCount.toNat
              (sequence.inputIds ++ state.generatedTokenIds))) ∧
      (ex.draftTokens sequence state draftCount).2.draftCachedLen =
        (draftContents contents (ex.draftTokens sequence state draftCount).2).length ∧
      draftContents contents (ex.draftTokens sequence state draftCount).2 <+:
        sequence.inputIds ++ state.generatedTokenIds := by
  obtain ⟨hc, hlt⟩ := h.covers hdraft hexact
  by_cases hnil : sequence.inputIds ++ state.generatedTokenIds = []
  · rw [draftTokens_of_nil hnil]
    exact ⟨fun hne => absurd hnil hne, hc.length_eq, hc.isPrefix⟩
  · obtain ⟨htokens, hafter⟩ := draftTokens_exact hdraft hexact hc hnil (hlt hnil) draftCount
    exact ⟨fun _ => htokens, hafter.length_eq, hafter.isPrefix⟩

/-- An executor with a draft model that counts, whose caches are objects. -/
def objectExecutor (kind : CropKind) : TransformersTextExecutor (ℕ × CacheHeap) where
  config := { speculativeTokens := 3 }
  tokenizer := charTokenizer
  torch := { softmax := fun scores => scores.map fun _ => 1, multinomial := fun _ _ => 1 }
  model := countingModel
  draftModel := some (objectDraft countingModel kind)

def draftedSequence : Sequence :=
  { seqId := 0, sessionId := "a", inputIds := [104, 105], maxNewTokens := 8 }

/-- The state before the first round, with one token. -/
def draftedOnce : ServingState (ℕ × CacheHeap) :=
  { promptTokenCount := 2, generatedTokenIds := [2] }

/-- The first round proposes `3, 4, 5`. The state after it, when the target rejects the first of
them and has 7 instead. -/
def draftedTwice (kind : CropKind) : ServingState (ℕ × CacheHeap) :=
  { ((objectExecutor kind).draftTokens draftedSequence draftedOnce 3).2 with
    generatedTokenIds := [2, 7] }

theorem draftCall_draftedTwice (kind : CropKind) :
    DraftCall (objectExecutor kind) draftedSequence (draftedTwice kind) 2 := by
  have hfirst : DraftCall (objectExecutor kind) draftedSequence draftedOnce 3 :=
    .first 3 rfl rfl
  have hgrown : (draftedTwice kind).generatedTokenIds = draftedOnce.generatedTokenIds ++ [7] := by
    rw [draftedTwice, draftedOnce, List.singleton_append]
  have hpast : (draftedTwice kind).draftPastKeyValues =
      ((objectExecutor kind).draftTokens draftedSequence draftedOnce 3).2.draftPastKeyValues := by
    rw [draftedTwice]
  have hlen : (draftedTwice kind).draftCachedLen =
      ((objectExecutor kind).draftTokens draftedSequence draftedOnce 3).2.draftCachedLen := by
    rw [draftedTwice]
  exact hfirst.next hpast hlen (List.cons_ne_nil _ _) hgrown 2

theorem draftTokens_eq_scratch_draftedTwice :
    ((objectExecutor .inPlace).draftTokens draftedSequence (draftedTwice .inPlace) 2).1 =
        [4, 5] ∧
      draftContents objectTokens ((objectExecutor .inPlace).draftTokens draftedSequence
        (draftedTwice .inPlace) 2).2 <+: [104, 105, 2, 7] := by
  have hdraft : (objectExecutor .inPlace).draftModel =
      some (objectDraft countingModel .inPlace) := rfl
  obtain ⟨htokens, -, hpre⟩ := draftTokens_eq_scratch hdraft
    (objectDraft_exact countingModel .inPlace) (draftCall_draftedTwice .inPlace)
  refine ⟨?_, hpre⟩
  rw [htokens (by decide)]
  decide +kernel

end TransformersTextExecutor

end SoloRT
