import SoloRT.Serving
import SoloRT.Utf8
import Mathlib.Data.List.DropRight

/-!
# Incremental detokenization

`_decode_delta` decodes the tokens from a prefix offset on, and emits what comes after the text up
to the read offset, unless the window ends in U+FFFD : then a character may be incomplete, and the
text waits. Both offsets stand after tokens whose text does not end in U+FFFD (`Detokenized`). So
the texts emitted add up to the text of the tokens up to the read offset (`emitted_eq_decode`).

What is emitted is the text of the longest prefix of the tokens that does not end in U+FFFD
(`EmitsLongest`). A text that waits when the generation ends is never emitted, so the
response is whole if and only if some token ends where the last run of U+FFFD begins
(`response_whole_iff`).
-/

namespace SoloRT

/-- The text ends in U+FFFD : its last character may be incomplete. -/
def Incomplete (text : Text) : Prop :=
  text.getLast? = some '\uFFFD'

/-- What is assumed of a tokenizer : tokens after a complete text are decoded on their own. -/
structure Tokenizer.Composes (tokenizer : Tokenizer) : Prop where
  decode_nil : tokenizer.decode [] = []
  decode_append : ∀ xs ys, ¬Incomplete (tokenizer.decode xs) →
    tokenizer.decode (xs ++ ys) = tokenizer.decode xs ++ tokenizer.decode ys

/-- Byte-level BPE : the bytes of the tokens are decoded together. A special token has none. -/
def Tokenizer.ByteLevel (tokenizer : Tokenizer) (bytes : TokenId → List UInt8) : Prop :=
  ∀ tokenIds, tokenizer.decode tokenIds = Utf8.decode (tokenIds.flatMap bytes)

theorem Tokenizer.ByteLevel.composes {tokenizer : Tokenizer} {bytes : TokenId → List UInt8}
    (h : tokenizer.ByteLevel bytes) : tokenizer.Composes where
  decode_nil := h []
  decode_append xs ys hxs := by
    rw [h xs] at hxs ⊢
    rw [h, h, List.flatMap_append, Utf8.decode_append hxs]

section

variable {δ : Type} (config : GenerationConfig) (tokenizer : Tokenizer) (sequence : Sequence)

/-- The parts of a serving state that the next samples depend on. -/
structure SameTokens (state state' : ServingState δ) : Prop where
  generatedTokenIds : state'.generatedTokenIds = state.generatedTokenIds
  detokPrefixOffset : state'.detokPrefixOffset = state.detokPrefixOffset
  detokReadOffset : state'.detokReadOffset = state.detokReadOffset
  finished : state'.finished = state.finished

/-- A serving state and the samples that its tokens were returned in. Between two tokens an
executor changes other parts of the state. -/
inductive Appended : ServingState δ → List SampleResult → Prop
  | fresh (n : ℕ) : Appended { promptTokenCount := n } []
  | other {state state' : ServingState δ} {results : List SampleResult}
      (h : Appended state results) (hsame : SameTokens state state') : Appended state' results
  | token {state : ServingState δ} {results : List SampleResult} (h : Appended state results)
      (tokenId : TokenId) :
      Appended (appendTokenResult config tokenizer sequence state tokenId).2
        (results ++ [(appendTokenResult config tokenizer sequence state tokenId).1])

/-- The texts of some samples, one after the other. -/
def responseOf (results : List SampleResult) : Text :=
  (results.map SampleResult.text).flatten

/-- What the offsets of a state say about the text emitted. -/
structure Detokenized (state : ServingState δ) (emitted : Text) : Prop where
  ordered : state.detokPrefixOffset ≤ state.detokReadOffset
  bounded : state.detokReadOffset ≤ state.generatedTokenIds.length
  prefixComplete :
    ¬Incomplete (tokenizer.decode (state.generatedTokenIds.take state.detokPrefixOffset))
  readComplete :
    ¬Incomplete (tokenizer.decode (state.generatedTokenIds.take state.detokReadOffset))
  emitted_eq : emitted = tokenizer.decode (state.generatedTokenIds.take state.detokReadOffset)

variable {config tokenizer sequence}

theorem incomplete_append {xs ys : Text} (hys : ys ≠ []) :
    Incomplete (xs ++ ys) ↔ Incomplete ys := by
  rw [Incomplete, Incomplete, List.getLast?_append_of_ne_nil _ hys]

theorem not_incomplete_nil : ¬Incomplete [] := by
  simp [Incomplete]

namespace Detokenized

/-- A new state has emitted nothing. -/
theorem fresh (htok : tokenizer.Composes) (n : ℕ) :
    Detokenized tokenizer ({ promptTokenCount := n } : ServingState δ) [] where
  ordered := le_rfl
  bounded := le_rfl
  prefixComplete := by
    rw [List.take_nil, htok.decode_nil]
    exact not_incomplete_nil
  readComplete := by
    rw [List.take_nil, htok.decode_nil]
    exact not_incomplete_nil
  emitted_eq := by rw [List.take_nil, htok.decode_nil]

variable {state : ServingState δ} {emitted : Text}

/-- The window of `_decode_delta` has the text up to the read offset, and what comes after. -/
theorem window (h : Detokenized tokenizer state emitted) (htok : tokenizer.Composes) :
    tokenizer.decode (state.generatedTokenIds.drop state.detokPrefixOffset) =
      tokenizer.decode ((state.generatedTokenIds.take state.detokReadOffset).drop
          state.detokPrefixOffset) ++
        tokenizer.decode (state.generatedTokenIds.drop state.detokReadOffset) := by
  have hbefore := htok.decode_append _ (state.generatedTokenIds.drop state.detokPrefixOffset)
    h.prefixComplete
  have hread := htok.decode_append _ (state.generatedTokenIds.drop state.detokReadOffset)
    h.readComplete
  have hbetween := htok.decode_append _ ((state.generatedTokenIds.take
    state.detokReadOffset).drop state.detokPrefixOffset) h.prefixComplete
  have hsplit : state.generatedTokenIds.take state.detokPrefixOffset ++
      (state.generatedTokenIds.take state.detokReadOffset).drop state.detokPrefixOffset =
        state.generatedTokenIds.take state.detokReadOffset := by
    have htake := List.take_append_drop state.detokPrefixOffset
      (state.generatedTokenIds.take state.detokReadOffset)
    rwa [List.take_take, min_eq_left h.ordered] at htake
  rw [hsplit] at hbetween
  rw [List.take_append_drop] at hbefore hread
  rw [hbefore, hbetween, List.append_assoc] at hread
  exact List.append_cancel_left hread

/-- The text of all tokens starts with what was emitted. -/
theorem decode_eq (h : Detokenized tokenizer state emitted) (htok : tokenizer.Composes) :
    tokenizer.decode state.generatedTokenIds =
      emitted ++ tokenizer.decode (state.generatedTokenIds.drop state.detokReadOffset) := by
  have hread := htok.decode_append _ (state.generatedTokenIds.drop state.detokReadOffset)
    h.readComplete
  rwa [List.take_append_drop, ← h.emitted_eq] at hread

theorem congr {state' : ServingState δ} (h : Detokenized tokenizer state emitted)
    (hsame : SameTokens state state') : Detokenized tokenizer state' emitted := by
  obtain ⟨htokens, hbefore, hread, -⟩ := hsame
  refine ⟨?_, ?_, ?_, ?_, ?_⟩
  · rw [hbefore, hread]
    exact h.ordered
  · rw [htokens, hread]
    exact h.bounded
  · rw [htokens, hbefore]
    exact h.prefixComplete
  · rw [htokens, hread]
    exact h.readComplete
  · rw [htokens, hread]
    exact h.emitted_eq

/-- The next token is appended. -/
theorem snoc (h : Detokenized tokenizer state emitted) (tokenId : TokenId) :
    Detokenized tokenizer
      { state with generatedTokenIds := state.generatedTokenIds ++ [tokenId] } emitted := by
  have htake : ∀ n ≤ state.generatedTokenIds.length,
      (state.generatedTokenIds ++ [tokenId]).take n = state.generatedTokenIds.take n :=
    fun n hn => List.take_append_of_le_length hn
  have hread := htake _ h.bounded
  have hbefore := htake _ (h.ordered.trans h.bounded)
  refine ⟨h.ordered, ?_, ?_, ?_, ?_⟩ <;> dsimp only
  · rw [List.length_append]
    exact h.bounded.trans (Nat.le_add_right _ _)
  · rw [hbefore]
    exact h.prefixComplete
  · rw [hread]
    exact h.readComplete
  · rw [hread]
    exact h.emitted_eq

/-- `_decode_delta` emits what is left of the text, or lets it wait. -/
theorem delta (h : Detokenized tokenizer state emitted) (htok : tokenizer.Composes)
    (tokenId : TokenId) :
    (decodeDelta tokenizer state tokenId = ([], state) ∧ (tokenId ≠ tokenizer.eos →
      ¬Incomplete (tokenizer.decode state.generatedTokenIds) →
        tokenizer.decode state.generatedTokenIds = emitted)) ∨
    (decodeDelta tokenizer state tokenId =
        (tokenizer.decode (state.generatedTokenIds.drop state.detokReadOffset),
          { state with
            detokPrefixOffset := state.detokReadOffset
            detokReadOffset := state.generatedTokenIds.length }) ∧
      ¬Incomplete (tokenizer.decode state.generatedTokenIds)) := by
  have hbefore := htok.decode_append _ (state.generatedTokenIds.drop state.detokPrefixOffset)
    h.prefixComplete
  rw [List.take_append_drop] at hbefore
  have hall := h.decode_eq htok
  have hwindow := h.window htok
  unfold decodeDelta
  dsimp only
  split_ifs with heos hwait
  · exact .inl ⟨rfl, fun hne => absurd heos hne⟩
  · refine .inl ⟨rfl, fun _ hcomplete => ?_⟩
    rcases hwait with hshort | hlast
    · -- the window has no more text
      rw [hwindow, List.length_append] at hshort
      rw [hall, List.length_eq_zero_iff.1 (by omega : (tokenizer.decode
        (state.generatedTokenIds.drop state.detokReadOffset)).length = 0), List.append_nil]
    · have hne : tokenizer.decode (state.generatedTokenIds.drop state.detokPrefixOffset) ≠ [] :=
        fun hnil => by simp [hnil] at hlast
      rw [hbefore, incomplete_append hne] at hcomplete
      exact absurd hlast hcomplete
  · rw [not_or] at hwait
    obtain ⟨hlong, hlast⟩ := hwait
    refine .inr ⟨?_, ?_⟩
    · rw [hwindow, List.drop_left]
    · have hne : tokenizer.decode (state.generatedTokenIds.drop state.detokPrefixOffset) ≠ [] :=
        fun hnil => by simp [hnil] at hlong
      rw [hbefore, incomplete_append hne]
      exact hlast

/-- The text emitted after one more token. -/
theorem token (h : Detokenized tokenizer state emitted) (htok : tokenizer.Composes)
    (tokenId : TokenId) :
    Detokenized tokenizer (appendTokenResult config tokenizer sequence state tokenId).2
      (emitted ++ (appendTokenResult config tokenizer sequence state tokenId).1.text) := by
  have hsnoc := h.snoc tokenId
  unfold appendTokenResult
  dsimp only
  rcases hsnoc.delta htok tokenId with ⟨hwait, -⟩ | ⟨hemit, hcomplete⟩
  · rw [hwait]
    dsimp only
    rw [List.append_nil]
    exact ⟨hsnoc.ordered, hsnoc.bounded, hsnoc.prefixComplete, hsnoc.readComplete,
      hsnoc.emitted_eq⟩
  · rw [hemit]
    have hall : List.take (state.generatedTokenIds ++ [tokenId]).length
        (state.generatedTokenIds ++ [tokenId]) = state.generatedTokenIds ++ [tokenId] :=
      List.take_length
    refine ⟨hsnoc.bounded, le_rfl, hsnoc.readComplete, ?_, ?_⟩ <;> dsimp only <;> rw [hall]
    · exact hcomplete
    · exact (hsnoc.decode_eq htok).symm

end Detokenized

theorem responseOf_concat (results : List SampleResult) (x : SampleResult) :
    responseOf (results ++ [x]) = responseOf results ++ x.text := by
  simp [responseOf]

namespace Appended

variable {state : ServingState δ} {results : List SampleResult}

/-- The offsets say what was emitted, in every state that an executor can reach. -/
theorem detokenized (h : Appended config tokenizer sequence state results)
    (htok : tokenizer.Composes) : Detokenized tokenizer state (responseOf results) := by
  induction h with
  | fresh n => exact .fresh htok n
  | other h hsame ih => exact ih.congr hsame
  | token h tokenId ih =>
    rw [responseOf_concat]
    exact ih.token htok tokenId

/-- The texts emitted so far are the text of the tokens up to the read offset, and the text of
all tokens, now and later, starts with it. -/
theorem emitted_eq_decode (h : Appended config tokenizer sequence state results)
    (htok : tokenizer.Composes) :
    responseOf results = tokenizer.decode (state.generatedTokenIds.take state.detokReadOffset) ∧
      ∀ tokenIds,
        responseOf results <+: tokenizer.decode (state.generatedTokenIds ++ tokenIds) := by
  have hstate := h.detokenized htok
  refine ⟨hstate.emitted_eq, fun tokenIds => ?_⟩
  have hread := htok.decode_append _
    (state.generatedTokenIds.drop state.detokReadOffset ++ tokenIds) hstate.readComplete
  rw [← List.append_assoc, List.take_append_drop, ← hstate.emitted_eq] at hread
  exact ⟨_, hread.symm⟩

end Appended

/-! ## What is emitted -/

/-- The text emitted is that of the longest prefix of the tokens that leaves no character
incomplete. -/
structure EmitsLongest (tokenizer : Tokenizer) (tokenIds : List TokenId) (emitted : Text) :
    Prop where
  complete : ¬Incomplete emitted
  emitted_eq : ∃ n, emitted = tokenizer.decode (tokenIds.take n)
  longest : ∀ n, ¬Incomplete (tokenizer.decode (tokenIds.take n)) →
    tokenizer.decode (tokenIds.take n) <+: emitted

/-- The tokens without a final EOS. -/
def Tokenizer.beforeEos (tokenizer : Tokenizer) (tokenIds : List TokenId) : List TokenId :=
  if tokenIds.getLast? = some tokenizer.eos then tokenIds.dropLast else tokenIds

theorem Tokenizer.beforeEos_of_not_mem (tokenizer : Tokenizer) {tokenIds : List TokenId}
    (h : tokenizer.eos ∉ tokenIds) : tokenizer.beforeEos tokenIds = tokenIds := by
  rw [beforeEos, if_neg]
  exact fun hlast => h (List.mem_of_getLast? hlast)

theorem Tokenizer.beforeEos_concat (tokenizer : Tokenizer) (tokenIds : List TokenId)
    (tokenId : TokenId) : tokenizer.beforeEos (tokenIds ++ [tokenId]) =
      if tokenId = tokenizer.eos then tokenIds else tokenIds ++ [tokenId] := by
  rw [beforeEos, List.getLast?_concat, List.dropLast_concat]
  simp only [Option.some.injEq]

theorem EmitsLongest.token (htok : tokenizer.Composes) {state : ServingState δ} {emitted : Text}
    (hstate : Detokenized tokenizer state emitted)
    (h : EmitsLongest tokenizer state.generatedTokenIds emitted) {tokenId : TokenId}
    (hne : tokenId ≠ tokenizer.eos) :
    EmitsLongest tokenizer (state.generatedTokenIds ++ [tokenId])
      (emitted ++ (appendTokenResult config tokenizer sequence state tokenId).1.text) := by
  have hsnoc := hstate.snoc tokenId
  have hall := hsnoc.decode_eq htok
  unfold appendTokenResult
  dsimp only at hall ⊢
  rcases hsnoc.delta htok tokenId with ⟨hwait, hrest⟩ | ⟨hemit, hcomplete⟩
  · -- the text waits
    rw [hwait]
    dsimp only at hrest ⊢
    rw [List.append_nil]
    refine ⟨h.complete, ?_, fun n hn => ?_⟩
    · obtain ⟨n, hn⟩ := h.emitted_eq
      refine ⟨min n state.generatedTokenIds.length, ?_⟩
      rw [List.take_append_of_le_length (min_le_right _ _), hn, ← List.take_take, List.take_length]
    · rcases le_or_gt n state.generatedTokenIds.length with hle | hlt
      · rw [List.take_append_of_le_length hle] at hn ⊢
        exact h.longest n hn
      · rw [List.take_of_length_le (by simpa using Nat.succ_le_of_lt hlt)] at hn ⊢
        rw [hrest hne hn]
  · -- all the text is emitted
    rw [hemit]
    dsimp only at hcomplete ⊢
    rw [← hall]
    refine ⟨hcomplete, ⟨_, by rw [List.take_length]⟩, fun n hn => ?_⟩
    have happend := htok.decode_append _ ((state.generatedTokenIds ++ [tokenId]).drop n) hn
    rw [List.take_append_drop] at happend
    exact ⟨_, happend.symm⟩

/-- A run of U+FFFD is all that is removed after a text that does not end in one. -/
theorem rdropWhile_replacement {text : Text} (h : ¬Incomplete text) (k : ℕ) :
    (text ++ List.replicate k '\uFFFD').rdropWhile (· = '\uFFFD') = text := by
  induction k with
  | zero =>
    rw [List.replicate_zero, List.append_nil, List.rdropWhile_eq_self_iff]
    intro hne hlast
    exact h (by rw [Incomplete, List.getLast?_eq_some_getLast hne, of_decide_eq_true hlast])
  | succ k ih =>
    rw [List.replicate_succ', ← List.append_assoc, List.rdropWhile_concat_pos _ _ _ (by simp), ih]

theorem not_incomplete_rdropWhile (text : Text) :
    ¬Incomplete (text.rdropWhile (· = '\uFFFD')) := by
  intro hlast
  have hne : text.rdropWhile (· = '\uFFFD') ≠ [] := fun hnil => by simp [Incomplete, hnil] at hlast
  rw [Incomplete, List.getLast?_eq_some_getLast hne, Option.some.injEq] at hlast
  exact List.rdropWhile_last_not _ _ hne (decide_eq_true hlast)

/-- The text of some tokens is emitted up to a run of U+FFFD at its end if and only if one of them
ends where the run begins. -/
theorem EmitsLongest.whole_iff (htok : tokenizer.Composes) {tokenIds : List TokenId}
    {emitted : Text} (h : EmitsLongest tokenizer tokenIds emitted) :
    (∃ k, tokenizer.decode tokenIds = emitted ++ List.replicate k '\uFFFD') ↔
      ∃ n, tokenizer.decode (tokenIds.take n) =
        (tokenizer.decode tokenIds).rdropWhile (· = '\uFFFD') := by
  obtain ⟨n, hn⟩ := h.emitted_eq
  constructor
  · rintro ⟨k, hk⟩
    exact ⟨n, by rw [hk, rdropWhile_replacement h.complete, hn]⟩
  · rintro ⟨m, hm⟩
    have hall : (tokenizer.decode tokenIds).rtakeWhile (· = '\uFFFD') = List.replicate
        ((tokenizer.decode tokenIds).rtakeWhile (· = '\uFFFD')).length '\uFFFD' :=
      List.eq_replicate_of_mem fun c hc => by simpa using List.mem_rtakeWhile_imp hc
    -- what is emitted ends where the run begins, or inside it
    obtain ⟨rest, hrest⟩ := h.longest m (hm ▸ not_incomplete_rdropWhile _)
    have happend := htok.decode_append _ (tokenIds.drop n) (hn ▸ h.complete)
    rw [List.take_append_drop, ← hn] at happend
    have hrun : rest ++ tokenizer.decode (tokenIds.drop n) =
        (tokenizer.decode tokenIds).rtakeWhile (· = '\uFFFD') := by
      have hboth : tokenizer.decode (tokenIds.take m) ++ (rest ++
          tokenizer.decode (tokenIds.drop n)) = tokenizer.decode (tokenIds.take m) ++
            (tokenizer.decode tokenIds).rtakeWhile (· = '\uFFFD') := by
        rw [← List.append_assoc, hrest, ← happend, hm, List.rdropWhile_append_rtakeWhile]
      exact List.append_cancel_left hboth
    rw [hall, List.append_eq_replicate_iff] at hrun
    obtain ⟨-, hreplace, hleft⟩ := hrun
    cases hlen : rest.length with
    | zero => exact ⟨_, hleft ▸ happend⟩
    | succ k =>
      rw [hlen, List.replicate_succ'] at hreplace
      refine absurd ?_ h.complete
      rw [← hrest, hreplace, ← List.append_assoc, Incomplete, List.getLast?_concat]

/-! ## When the generation ends -/

/-- The tokens of a whole request : the last one ends the generation, and none before. -/
structure EndsAt (stop : List TokenId → Bool) (tokenIds : List TokenId) : Prop where
  ends : stop tokenIds = true
  goesOn : ∀ n < tokenIds.length, 0 < n → stop (tokenIds.take n) = false

/-- EOS can only be the last token of a request. -/
theorem EndsAt.eos_not_mem {tokenIds : List TokenId}
    (h : EndsAt (endsGeneration config tokenizer sequence) tokenIds) :
    tokenizer.eos ∉ tokenIds.dropLast := by
  intro hmem
  obtain ⟨n, hn, hget⟩ := List.mem_iff_getElem.1 hmem
  rw [List.length_dropLast] at hn
  have hgoes := h.goesOn (n + 1) (by omega) n.succ_pos
  have hlast : (tokenIds.take (n + 1)).getLast? = some tokenizer.eos := by
    rw [List.getElem_dropLast] at hget
    rw [List.getLast?_take, if_neg n.succ_ne_zero, Nat.add_sub_cancel,
      List.getElem?_eq_getElem (by omega), hget, Option.some_or]
  rw [endsGeneration, hlast] at hgoes
  simp at hgoes

namespace Appended

variable {state : ServingState δ} {results : List SampleResult}

/-- The longest complete text is emitted, apart from that of a final EOS. -/
theorem emitsLongest (h : Appended config tokenizer sequence state results)
    (htok : tokenizer.Composes) (heos : tokenizer.eos ∉ state.generatedTokenIds.dropLast) :
    EmitsLongest tokenizer (tokenizer.beforeEos state.generatedTokenIds) (responseOf results) := by
  induction h with
  | fresh n =>
    refine ⟨not_incomplete_nil, ⟨0, htok.decode_nil.symm⟩, fun n _ => ?_⟩
    rw [tokenizer.beforeEos_of_not_mem List.not_mem_nil, List.take_nil, htok.decode_nil]
    exact List.nil_prefix
  | other h hsame ih =>
    rw [hsame.generatedTokenIds] at heos ⊢
    exact ih heos
  | @token state results h tokenId ih =>
    have htokens : (appendTokenResult config tokenizer sequence state tokenId).2.generatedTokenIds =
        state.generatedTokenIds ++ [tokenId] := (decodeDelta_spec tokenizer _ tokenId).2.1
    rw [htokens, List.dropLast_concat] at heos
    have hih := ih fun hmem => heos (List.mem_of_mem_dropLast hmem)
    rw [tokenizer.beforeEos_of_not_mem heos] at hih
    rw [htokens, tokenizer.beforeEos_concat, responseOf_concat]
    split_ifs with htoken
    · -- EOS has no text
      have htext : (appendTokenResult config tokenizer sequence state tokenId).1.text = [] := by
        rw [appendTokenResult, decodeDelta, if_pos htoken]
      rw [htext, List.append_nil]
      exact hih
    · exact hih.token htok (h.detokenized htok) htoken

/-- The response of a whole request has all its text, apart from U+FFFD at the end, if and only if
some token ends where the last run of U+FFFD begins. -/
theorem response_whole_iff (h : Appended config tokenizer sequence state results)
    {bytes : TokenId → List UInt8} (hbytes : tokenizer.ByteLevel bytes)
    (hends : EndsAt (endsGeneration config tokenizer sequence) state.generatedTokenIds) :
    (∃ k, tokenizer.decode (tokenizer.beforeEos state.generatedTokenIds) =
      responseOf results ++ List.replicate k '\uFFFD') ↔
    ∃ n, tokenizer.decode ((tokenizer.beforeEos state.generatedTokenIds).take n) =
      (tokenizer.decode (tokenizer.beforeEos state.generatedTokenIds)).rdropWhile
        (· = '\uFFFD') :=
  (h.emitsLongest hbytes.composes hends.eos_not_mem).whole_iff hbytes.composes

end Appended

end

/-! ## A character in two tokens -/

/-- Token 1 is an `a` and the first byte of an `é`, token 2 is the second. -/
def splitBytes (tokenId : TokenId) : List UInt8 :=
  if tokenId = 1 then [0x61, 0xC3] else if tokenId = 2 then [0xA9] else []

def splitTokenizer : Tokenizer where
  eosTokenId := some 0
  decode tokenIds := Utf8.decode (tokenIds.flatMap splitBytes)
  chatTokenIds _ _ := .ok []

theorem byteLevel_splitTokenizer : splitTokenizer.ByteLevel splitBytes := fun _ => rfl

def splitSequence : Sequence where
  seqId := 0
  sessionId := "a"
  inputIds := [3]
  maxNewTokens := 8
  numPromptTokens := 1

namespace Appended

theorem fresh_split : Appended {} splitTokenizer splitSequence
    ({ promptTokenCount := 1 } : ServingState Unit) [] :=
  .fresh 1

/-- The `a` waits for the `é`. -/
theorem emitted_eq_decode_split : ∃ (state : ServingState Unit) (results : List SampleResult),
    Appended {} splitTokenizer splitSequence state results ∧
    results.map SampleResult.text = [[], ['a', 'é']] ∧
    responseOf results =
      splitTokenizer.decode (state.generatedTokenIds.take state.detokReadOffset) ∧
    ∀ tokenIds, responseOf results <+:
      splitTokenizer.decode (state.generatedTokenIds ++ tokenIds) := by
  have h : Appended {} splitTokenizer splitSequence _ _ :=
    (fresh_split.token 1).token 2
  exact ⟨_, _, h, by decide, h.emitted_eq_decode byteLevel_splitTokenizer.composes⟩

/-- The response is whole if both tokens come before EOS. -/
theorem response_whole_split : ∃ (state : ServingState Unit) (results : List SampleResult),
    Appended {} splitTokenizer splitSequence state results ∧
    state.generatedTokenIds = [1, 2, 0] ∧
    ∃ k, splitTokenizer.decode (splitTokenizer.beforeEos state.generatedTokenIds) =
      responseOf results ++ List.replicate k '\uFFFD' := by
  have h : Appended {} splitTokenizer splitSequence _ _ :=
    ((fresh_split.token 1).token 2).token 0
  exact ⟨_, _, h, by decide, (h.response_whole_iff byteLevel_splitTokenizer
    ⟨by decide, by decide⟩).2 ⟨2, by decide⟩⟩

/-- The `a` is lost if EOS comes after the first token. -/
theorem not_response_whole : ¬∀ (config : GenerationConfig) (tokenizer : Tokenizer)
    (bytes : TokenId → List UInt8) (sequence : Sequence) (state : ServingState Unit)
    (results : List SampleResult), tokenizer.ByteLevel bytes →
    Appended config tokenizer sequence state results →
    EndsAt (endsGeneration config tokenizer sequence) state.generatedTokenIds →
    ∃ k, tokenizer.decode (tokenizer.beforeEos state.generatedTokenIds) =
      responseOf results ++ List.replicate k '\uFFFD' := by
  intro hall
  have h : Appended {} splitTokenizer splitSequence _ _ :=
    (fresh_split.token 1).token 0
  obtain ⟨k, hk⟩ := hall {} splitTokenizer splitBytes splitSequence _ _ byteLevel_splitTokenizer h
    ⟨by decide, by decide⟩
  have htext : ['a', '\uFFFD'] = List.replicate k '\uFFFD' := hk
  cases k with
  | zero => cases htext
  | succ k =>
    rw [List.replicate_succ, List.cons.injEq] at htext
    exact absurd htext.1 (by decide)

end Appended

end SoloRT
