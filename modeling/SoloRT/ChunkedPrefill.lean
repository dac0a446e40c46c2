import SoloRT.Execution
import SoloRT.Transition

/-!
# Chunked prefill

The scheduler advances `num_scheduled_tokens` in `postprocess_batch` only. A batch whose
execution fails is dropped, and the same chunk is built again. `PrefillMachine` runs a scheduler
over any order of its operations, with the batch that was built last and may still be
postprocessed, and keeps the postprocessed batches.

`Covered` says that the postprocessed chunks of a sequence are the tokens of its prompt after
the cached ones, from the first on and without a gap. A sequence that is not cancelled counts
exactly these tokens, so the next batch starts where they end, and is a decode only once they
are all there (`coversPrompt_run`).
-/

namespace SoloRT

/-! ## The machine -/

structure PrefillMachine where
  scheduler : InteractiveScheduler
  /-- The batch built last, unless it was postprocessed or consumed. -/
  built : Option Batch := none
  /-- The postprocessed batches. -/
  postprocessed : List Batch := []

/-- One operation of the machine. A decode batch is not postprocessed : its samples are consumed. -/
inductive PrefillEvent
  | addSequence (sequence : Sequence)
  | cancel (seqId : SeqId)
  | buildNextBatch (tokenBudget : Option ℕ)
  | postprocessBatch
  | consumeSamples (samples : List SampleResult)
  deriving DecidableEq, Repr

namespace PrefillMachine

variable (m : PrefillMachine)

def step : PrefillEvent → PrefillMachine
  | .addSequence sequence => { m with scheduler := m.scheduler.addSequence sequence.postInit }
  | .cancel seqId => { m with scheduler := (m.scheduler.cancel seqId).2 }
  | .buildNextBatch tokenBudget =>
    match m.scheduler.buildNextBatch tokenBudget with
    | (.ok batch, scheduler) => { m with scheduler, built := batch }
    | (.error _, scheduler) => { m with scheduler, built := none }
  | .postprocessBatch =>
    match m.built with
    | none => m
    | some batch =>
      { scheduler := m.scheduler.postprocessBatch batch
        built := none
        postprocessed := m.postprocessed ++ [batch] }
  | .consumeSamples samples =>
    match m.built with
    | none => m
    | some batch =>
      match m.scheduler.get batch.seqId with
      | none => m
      | some sequence =>
        if batch.phase = .decode ∧ sequence.status ≠ .cancelled then
          { m with
            scheduler := m.scheduler.put (SoloRT.consumeSamples samples sequence {}).2.1
            built := none }
        else m

/-- The postprocessed prefill batches of a sequence. -/
def chunks (seqId : SeqId) : List Batch :=
  m.postprocessed.filter fun b => b.phase = .prefill ∧ b.seqId = seqId

/-- The tokens of these batches. -/
def prefilled (seqId : SeqId) : List TokenId :=
  (m.chunks seqId).flatMap Batch.inputIds

/-- The positions of these batches. -/
def positions (seqId : SeqId) : List ℕ :=
  (m.chunks seqId).flatMap Batch.positions

/-- A sequence is added as it was constructed, under a new id. -/
def Admissible : PrefillEvent → Prop
  | .addSequence sequence => m.scheduler.get sequence.seqId = none ∧
      sequence.numScheduledTokens = 0 ∧
      sequence.postInit.numPromptTokens = sequence.inputIds.length
  | _ => True

instance : DecidablePred m.Admissible := fun e => by
  cases e <;> unfold Admissible <;> infer_instance

/-! ## The invariant -/

/-- The postprocessed chunks of a sequence cover its prompt up to where its prefill is. -/
structure Covered (s : Sequence) : Prop where
  prompt : s.numPromptTokens = s.inputIds.length
  tokens : m.prefilled s.seqId <+: s.inputIds.drop s.numCachedTokens
  positions : m.positions s.seqId = List.range' s.numCachedTokens (m.prefilled s.seqId).length
  progress : s.status ≠ .cancelled → s.numScheduledTokens = (m.prefilled s.seqId).length

/-- A prefill batch of a sequence starts where its postprocessed chunks end. -/
structure NextChunk (s : Sequence) (b : Batch) : Prop where
  tokens : m.prefilled s.seqId ++ b.inputIds <+: s.inputIds.drop s.numCachedTokens
  positions : b.positions =
    List.range' (s.numCachedTokens + (m.prefilled s.seqId).length) b.inputIds.length

structure CoversPrompt : Prop where
  wellFormed : m.scheduler.WellFormed
  sequences : ∀ id s, m.scheduler.get id = some s → m.Covered s
  stored : ∀ b ∈ m.postprocessed, m.scheduler.get b.seqId ≠ none
  built : ∀ b, m.built = some b → m.scheduler.get b.seqId ≠ none ∧
    (b.phase = .prefill → ∀ s, m.scheduler.get b.seqId = some s → m.NextChunk s b)

variable {m}

theorem Covered.congr {m' : PrefillMachine} {s s' : Sequence} (h : m.Covered s)
    (hchunks : m'.chunks s.seqId = m.chunks s.seqId) (hreq : s'.request = s.request)
    (hstatus : s'.status ≠ .cancelled → s.status ≠ .cancelled)
    (hsched : s'.numScheduledTokens = s.numScheduledTokens) : m'.Covered s' := by
  have hid := Sequence.seqId_of_request hreq
  have hin := Sequence.inputIds_of_request hreq
  have hcached := Sequence.numCachedTokens_of_request hreq
  have hprompt := Sequence.numPromptTokens_of_request hreq
  have hpre : m'.prefilled s'.seqId = m.prefilled s.seqId := by
    rw [prefilled, prefilled, hid, hchunks]
  have hpos : m'.positions s'.seqId = m.positions s.seqId := by
    rw [PrefillMachine.positions, PrefillMachine.positions, hid, hchunks]
  refine ⟨?_, ?_, ?_, fun hs => ?_⟩
  · rw [hprompt, hin, h.prompt]
  · rw [hpre, hin, hcached]
    exact h.tokens
  · rw [hpos, hpre, hcached]
    exact h.positions
  · rw [hsched, hpre]
    exact h.progress (hstatus hs)

theorem NextChunk.congr {m' : PrefillMachine} {s s' : Sequence} {b : Batch}
    (h : m.NextChunk s b) (hchunks : m'.chunks s.seqId = m.chunks s.seqId)
    (hreq : s'.request = s.request) : m'.NextChunk s' b := by
  have hid := Sequence.seqId_of_request hreq
  have hin := Sequence.inputIds_of_request hreq
  have hcached := Sequence.numCachedTokens_of_request hreq
  have hpre : m'.prefilled s'.seqId = m.prefilled s.seqId := by
    rw [prefilled, prefilled, hid, hchunks]
  refine ⟨?_, ?_⟩
  · rw [hpre, hin, hcached]
    exact h.tokens
  · rw [hpre, hcached]
    exact h.positions

/-- Writing back a sequence whose prefill did not move. -/
theorem CoversPrompt.put {m' : PrefillMachine} (h : m.CoversPrompt) {s t : Sequence}
    (hget : m.scheduler.get t.seqId = some s) (hsched : m'.scheduler = m.scheduler.put t)
    (hpost : m'.postprocessed = m.postprocessed) (hreq : t.request = s.request)
    (hstatus : t.status ≠ .cancelled → s.status ≠ .cancelled)
    (hnum : t.numScheduledTokens = s.numScheduledTokens)
    (hbuilt : ∀ b, m'.built = some b → m.built = some b ∨ b.seqId = t.seqId ∧
      (b.phase = .prefill → m.NextChunk s b)) : m'.CoversPrompt := by
  have hchunks : ∀ i, m'.chunks i = m.chunks i := fun i => by rw [chunks, chunks, hpost]
  have hself : m'.scheduler.get t.seqId = some t := by
    rw [hsched]
    exact InteractiveScheduler.get_put t
  have hother : ∀ i, i ≠ t.seqId → m'.scheduler.get i = m.scheduler.get i := fun i hi => by
    rw [hsched]
    exact InteractiveScheduler.get_put_of_ne hi
  have hstored : ∀ i, m.scheduler.get i ≠ none → m'.scheduler.get i ≠ none := fun i hi => by
    by_cases hid : i = t.seqId
    · rw [hid, hself]
      exact Option.some_ne_none t
    · rwa [hother i hid]
  refine ⟨hsched ▸ h.wellFormed.put hget, fun id q hq => ?_, fun b hb => ?_, fun b hb => ?_⟩
  · by_cases hid : id = t.seqId
    · rw [hid, hself, Option.some.injEq] at hq
      subst hq
      exact (h.sequences _ s hget).congr (hchunks _) hreq hstatus hnum
    · rw [hother id hid] at hq
      exact (h.sequences id q hq).congr (hchunks _) rfl (fun hs => hs) rfl
  · rw [hpost] at hb
    exact hstored _ (h.stored b hb)
  · rcases hbuilt b hb with hold | ⟨hid, hnext⟩
    · obtain ⟨hb', hnext⟩ := h.built b hold
      refine ⟨hstored _ hb', fun hphase q hq => ?_⟩
      by_cases hid : b.seqId = t.seqId
      · rw [hid, hself, Option.some.injEq] at hq
        subst hq
        exact (hnext hphase s (hid ▸ hget)).congr (hchunks _) hreq
      · rw [hother _ hid] at hq
        exact (hnext hphase q hq).congr (hchunks _) rfl
    · refine ⟨by rw [hid, hself]; exact Option.some_ne_none t, fun hphase q hq => ?_⟩
      rw [hid, hself, Option.some.injEq] at hq
      subst hq
      exact (hnext hphase).congr (hchunks _) hreq

/-- The chunk that is built for a sequence in prefill. -/
theorem buildBatch_chunk {σ : InteractiveScheduler} {budget : Option ℕ} {s : Sequence} {b : Batch}
    (h : σ.buildBatch budget s = .ok b) (hb : b.phase = .prefill)
    (hprompt : s.numPromptTokens = s.inputIds.length) :
    b.positions = List.range' (s.numCachedTokens + s.numScheduledTokens) b.inputIds.length ∧
      1 ≤ b.inputIds.length ∧ b.inputIds.length ≤ σ.maxPrefillChunkTokens ∧
      ∀ k, budget = some k → 0 < k → b.inputIds.length ≤ k := by
  have hphase := InteractiveScheduler.buildBatch_ok h
  have hc : ¬s.isPrefillComplete = true := by
    rw [← hphase.2, hb]
    simp
  have hlt : s.numCachedTokens + s.numScheduledTokens < s.inputIds.length := by
    rw [Sequence.isPrefillComplete_iff, hprompt] at hc
    omega
  have hpos := σ.maxPrefillChunkTokens_pos
  unfold InteractiveScheduler.buildBatch at h
  rw [if_neg hc] at h
  cases h
  have hrem : s.remainingPrefillTokens =
      s.inputIds.length - (s.numCachedTokens + s.numScheduledTokens) := by
    rw [Sequence.remainingPrefillTokens, hprompt]
  refine ⟨rfl, ?_, ?_, fun k hk hkpos => ?_⟩
  · simp only [BatchBuilder.buildPrefill, List.length_take, List.length_drop]
    split_ifs <;> omega
  · simp only [BatchBuilder.buildPrefill, List.length_take, List.length_drop]
    omega
  · subst hk
    rw [Option.getD_some, if_neg hkpos.ne']
    simp only [BatchBuilder.buildPrefill, List.length_take, List.length_drop]
    omega

/-- The batch built for a live sequence, by where its prefill is. -/
theorem Covered.buildBatch {σ : InteractiveScheduler} {budget : Option ℕ} {s : Sequence}
    {b : Batch} (hs : m.Covered s) (hlive : s.status ≠ .cancelled)
    (h : σ.buildBatch budget s = .ok b) :
    (b.phase = .prefill → m.NextChunk s b ∧
      m.prefilled s.seqId ≠ s.inputIds.drop s.numCachedTokens) ∧
    (b.phase = .decode → m.prefilled s.seqId = s.inputIds.drop s.numCachedTokens) := by
  have hprogress := hs.progress hlive
  have hlen := hs.tokens.length_le
  rw [List.length_drop] at hlen
  have hphase := InteractiveScheduler.buildBatch_ok h
  refine ⟨fun hb => ⟨⟨?_, ?_⟩, fun hall => ?_⟩, fun hb => ?_⟩
  · obtain ⟨rest, hrest⟩ := InteractiveScheduler.buildBatch_inputIds h hb
    obtain ⟨us, hus⟩ := hs.tokens
    rw [← List.drop_drop, ← hus, hprogress, List.drop_left] at hrest
    rw [← hus, ← hrest, ← List.append_assoc]
    exact List.prefix_append _ _
  · rw [(buildBatch_chunk h hb hs.prompt).1, hprogress]
  · have hone := (buildBatch_chunk h hb hs.prompt).2.1
    have hchunk := (InteractiveScheduler.buildBatch_inputIds h hb).length_le
    have hcount := congrArg List.length hall
    rw [List.length_drop] at hchunk hcount
    omega
  · have hcomplete := s.isPrefillComplete_iff.1 (hphase.2.1 hb)
    rw [hs.prompt] at hcomplete
    refine hs.tokens.eq_of_length ?_
    rw [List.length_drop]
    omega

/-! ## The steps -/

theorem prefilled_eq_nil (h : m.CoversPrompt) {id : SeqId} (hid : m.scheduler.get id = none) :
    m.chunks id = [] := by
  refine List.filter_eq_nil_iff.2 fun b hb hp => h.stored b hb ?_
  simp only [decide_eq_true_eq] at hp
  rw [hp.2, hid]

theorem CoversPrompt.addSequence (h : m.CoversPrompt) {q : Sequence}
    (hq : m.Admissible (.addSequence q)) : (m.step (.addSequence q)).CoversPrompt := by
  obtain ⟨hnew, hsched, hprompt⟩ := hq
  have hfields : q.postInit.seqId = q.seqId ∧ q.postInit.inputIds = q.inputIds ∧
      q.postInit.numScheduledTokens = q.numScheduledTokens := by
    unfold Sequence.postInit
    split_ifs <;> exact ⟨rfl, rfl, rfl⟩
  obtain ⟨hid, hin, hnum⟩ := hfields
  have hself : (m.scheduler.addSequence q.postInit).get q.seqId = some q.postInit := by
    rw [← hid]
    exact m.scheduler.get_addSequence _
  have hother : ∀ i, i ≠ q.seqId →
      (m.scheduler.addSequence q.postInit).get i = m.scheduler.get i := fun i hi =>
    InteractiveScheduler.get_addSequence_of_ne (by rwa [hid])
  have hne : ∀ i, m.scheduler.get i ≠ none → i ≠ q.seqId := by
    rintro i hi rfl
    exact hi hnew
  refine ⟨h.wellFormed.addSequence, fun i s hs => ?_, fun b hb => ?_, fun b hb => ?_⟩
  · by_cases hi : i = q.seqId
    · simp only [step, hi, hself, Option.some.injEq] at hs
      subst hs
      have hnil : m.chunks q.postInit.seqId = [] := prefilled_eq_nil h (hid.symm ▸ hnew)
      have hpre : m.prefilled q.postInit.seqId = [] := by
        rw [prefilled, hnil]
        rfl
      have hpos : m.positions q.postInit.seqId = [] := by
        rw [positions, hnil]
        rfl
      refine ⟨hprompt.trans (congrArg List.length hin.symm), ?_, ?_, fun _ => ?_⟩
      · exact hpre.symm ▸ List.nil_prefix
      · exact hpos.trans (by rw [show (m.step (.addSequence q)).prefilled q.postInit.seqId =
          m.prefilled q.postInit.seqId from rfl, hpre]; rfl)
      · rw [show (m.step (.addSequence q)).prefilled q.postInit.seqId =
          m.prefilled q.postInit.seqId from rfl, hpre, hnum, hsched]
        rfl
    · simp only [step, hother i hi] at hs
      exact (h.sequences i s hs).congr rfl rfl (fun hs => hs) rfl
  · have hb' := h.stored b hb
    simp only [step, hother _ (hne _ hb')]
    exact hb'
  · obtain ⟨hb', hnext⟩ := h.built b hb
    simp only [step, hother _ (hne _ hb')]
    exact ⟨hb', fun hphase s hs => (hnext hphase s hs).congr rfl rfl⟩

theorem CoversPrompt.cancel (h : m.CoversPrompt) (id : SeqId) :
    (m.step (.cancel id)).CoversPrompt := by
  rw [step]
  unfold InteractiveScheduler.cancel
  cases hget : m.scheduler.get id with
  | none => exact h
  | some s =>
    dsimp only
    split_ifs with hs
    · exact h
    · have hid : s.seqId = id := h.wellFormed.seqId_eq _ _ hget
      exact h.put (s := s) (t := s.markCancelled) (hid.symm ▸ hget) rfl rfl rfl
        (fun hc => absurd rfl hc) rfl
        fun b hb => .inl hb

theorem CoversPrompt.buildNextBatch (h : m.CoversPrompt) (budget : Option ℕ) :
    (m.step (.buildNextBatch budget)).CoversPrompt := by
  rw [step]
  rcases m.scheduler.buildNextBatch_cases budget with ⟨-, hnone⟩ | ⟨s, hsel, hsome⟩
  · rw [hnone]
    exact ⟨h.wellFormed, fun id s hs => (h.sequences id s hs).congr rfl rfl (fun hs => hs) rfl,
      h.stored, fun b hb => by cases hb⟩
  · obtain ⟨hget, hlive⟩ := h.wellFormed.selectNextSequence hsel
    have hstatus : s.status ≠ .cancelled := fun hc => by
      rw [s.isTerminal_iff.2 (.inr hc)] at hlive
      cases hlive
    rw [hsome]
    cases hb : m.scheduler.buildBatch budget s.scheduled with
    | error e =>
      exact h.put (t := s.scheduled) hget rfl rfl rfl (fun _ => hstatus) rfl
        fun b hb => by cases hb
    | ok batch =>
      have hcovered : m.Covered s.scheduled :=
        (h.sequences _ s hget).congr rfl rfl (fun _ => hstatus) rfl
      have hbatch := hcovered.buildBatch (by simp) hb
      refine h.put (t := s.scheduled) hget rfl rfl rfl (fun _ => hstatus) rfl fun b hb' => ?_
      cases hb'
      exact .inr ⟨(InteractiveScheduler.buildBatch_ok hb).1, fun hphase =>
        (hbatch.1 hphase).1.congr rfl rfl⟩

theorem CoversPrompt.consumeSamples (h : m.CoversPrompt) (samples : List SampleResult) :
    (m.step (.consumeSamples samples)).CoversPrompt := by
  rw [step]
  cases hbuilt : m.built with
  | none => exact h
  | some b =>
    dsimp only
    cases hget : m.scheduler.get b.seqId with
    | none => exact h
    | some s =>
      dsimp only
      split_ifs with hs
      · have hid : s.seqId = b.seqId := h.wellFormed.seqId_eq _ _ hget
        have hget' : m.scheduler.get s.seqId = some s := by rw [hid, hget]
        obtain ⟨xs, hxs | hxs⟩ := BatchContext.consumeSamples_sequence samples s {} <;> rw [hxs]
        · exact h.put (s := s) (t := appendSamples s xs) hget' rfl rfl rfl (fun _ => hs.2) rfl
            fun b hb => by cases hb
        · exact h.put (s := s) (t := (appendSamples s xs).markFinished) hget' rfl rfl rfl
            (fun _ => hs.2) rfl fun b hb => by cases hb
      · exact h

theorem CoversPrompt.postprocessBatch (h : m.CoversPrompt) :
    (m.step .postprocessBatch).CoversPrompt := by
  rw [step]
  cases hbuilt : m.built with
  | none => exact h
  | some b =>
    obtain ⟨hstored, hnext⟩ := h.built b hbuilt
    obtain ⟨s, hget⟩ := Option.ne_none_iff_exists'.1 hstored
    have hid : s.seqId = b.seqId := h.wellFormed.seqId_eq _ _ hget
    have hget' : m.scheduler.get s.seqId = some s := by rw [hid, hget]
    have hcovered := h.sequences _ s hget
    have hpost : m.scheduler.postprocessBatch b = m.scheduler.put (s.postprocessBatch b) := by
      rw [InteractiveScheduler.postprocessBatch, hget]
    have hfields : (s.postprocessBatch b).request = s.request ∧
        (s.postprocessBatch b).status = s.status := by
      unfold Sequence.postprocessBatch
      split_ifs <;> exact ⟨rfl, rfl⟩
    obtain ⟨hreq, hstatus⟩ := hfields
    have hseq : (s.postprocessBatch b).seqId = s.seqId := Sequence.seqId_of_request hreq
    dsimp only
    generalize hm : PrefillMachine.mk (m.scheduler.postprocessBatch b) none
      (m.postprocessed ++ [b]) = m'
    have hsched : m'.scheduler = m.scheduler.put (s.postprocessBatch b) := by
      rw [← hm, ← hpost]
    have hchunks : ∀ i, m'.chunks i = m.chunks i ++
        if b.phase = .prefill ∧ b.seqId = i then [b] else [] := fun i => by
      rw [← hm, chunks, chunks, List.filter_append]
      congr 1
      by_cases hi : b.phase = .prefill ∧ b.seqId = i <;> simp [hi]
    have hself : m'.scheduler.get s.seqId = some (s.postprocessBatch b) := by
      rw [hsched, ← hseq]
      exact InteractiveScheduler.get_put _
    have hother : ∀ i, i ≠ s.seqId → m'.scheduler.get i = m.scheduler.get i := fun i hi => by
      rw [hsched]
      exact InteractiveScheduler.get_put_of_ne (by rwa [hseq])
    have hkept : ∀ i, m.scheduler.get i ≠ none → m'.scheduler.get i ≠ none := fun i hi => by
      by_cases hi' : i = s.seqId
      · rw [hi', hself]
        exact Option.some_ne_none _
      · rwa [hother i hi']
    refine ⟨hsched ▸ h.wellFormed.put (t := s) (hseq ▸ hget'), fun i q hq => ?_,
      fun b' hb' => hkept _ ?_, fun b' hb' => ?_⟩
    · by_cases hi : i = s.seqId
      · rw [hi, hself, Option.some.injEq] at hq
        subst hq
        have hprompt := Sequence.numPromptTokens_of_request hreq
        have hin := Sequence.inputIds_of_request hreq
        have hcached := Sequence.numCachedTokens_of_request hreq
        by_cases hb : b.phase = .prefill
        · have hmine := hchunks s.seqId
          rw [if_pos ⟨hb, hid.symm⟩] at hmine
          have hpre : m'.prefilled s.seqId = m.prefilled s.seqId ++ b.inputIds := by
            rw [prefilled, prefilled, hmine, List.flatMap_append, List.flatMap_singleton]
          have hpos : m'.positions s.seqId = m.positions s.seqId ++ b.positions := by
            rw [positions, positions, hmine, List.flatMap_append, List.flatMap_singleton]
          obtain ⟨htokens, hpositions⟩ := hnext hb s hget
          refine ⟨?_, ?_, ?_, fun hs => ?_⟩
          · rw [hprompt, hin, hcovered.prompt]
          · rw [hseq, hpre, hin, hcached]
            exact htokens
          · rw [hseq, hpos, hpre, hcached, hcovered.positions, hpositions, List.length_append,
              List.range'_append_1]
          · rw [hstatus] at hs
            rw [hseq, hpre, Sequence.postprocessBatch_prefill hs hb, List.length_append,
              ← hcovered.progress hs]
        · have hsame : s.postprocessBatch b = s := by
            unfold Sequence.postprocessBatch
            split_ifs <;> rfl
          have hmine := hchunks s.seqId
          rw [if_neg fun hb' => hb hb'.1, List.append_nil] at hmine
          exact hcovered.congr hmine hreq (fun hs => hstatus ▸ hs) (by rw [hsame])
      · rw [hother i hi] at hq
        have hqid : q.seqId = i := h.wellFormed.seqId_eq _ _ hq
        refine (h.sequences i q hq).congr ?_ rfl (fun hs => hs) rfl
        rw [hchunks, if_neg, List.append_nil]
        exact fun hb => hi (by rw [← hqid, ← hb.2, hid])
    · rw [← hm] at hb'
      rcases List.mem_append.1 hb' with hold | hnew
      · exact h.stored b' hold
      · rw [List.mem_singleton.1 hnew]
        exact hstored
    · rw [← hm] at hb'
      cases hb'

theorem CoversPrompt.step (h : m.CoversPrompt) (e : PrefillEvent) (he : m.Admissible e) :
    (m.step e).CoversPrompt := by
  cases e with
  | addSequence q => exact h.addSequence he
  | cancel id => exact h.cancel id
  | buildNextBatch budget => exact h.buildNextBatch budget
  | postprocessBatch => exact h.postprocessBatch
  | consumeSamples samples => exact h.consumeSamples samples

theorem maxPrefillChunkTokens_step (m : PrefillMachine) (e : PrefillEvent) :
    (m.step e).scheduler.maxPrefillChunkTokens = m.scheduler.maxPrefillChunkTokens := by
  cases e with
  | addSequence q => rfl
  | cancel id =>
    rw [PrefillMachine.step, InteractiveScheduler.cancel]
    split
    · rfl
    · split_ifs <;> rfl
  | buildNextBatch budget =>
    rw [PrefillMachine.step]
    rcases m.scheduler.buildNextBatch_cases budget with ⟨-, hnone⟩ | ⟨s, -, hsome⟩
    · rw [hnone]
    · rw [hsome]
      cases m.scheduler.buildBatch budget s.scheduled <;> rfl
  | postprocessBatch =>
    rw [PrefillMachine.step]
    split
    · rfl
    · rw [InteractiveScheduler.postprocessBatch]
      split <;> rfl
  | consumeSamples samples =>
    rw [PrefillMachine.step]
    split
    · rfl
    · split
      · rfl
      · split_ifs <;> rfl

/-! ## Runs -/

/-- A scheduler just constructed. -/
def init (maxPrefillChunkTokens : ℕ) (h : 0 < maxPrefillChunkTokens) : PrefillMachine where
  scheduler := .empty maxPrefillChunkTokens h

theorem coversPrompt_init {n : ℕ} (h : 0 < n) : (init n h).CoversPrompt := by
  refine ⟨InteractiveScheduler.wellFormed_empty h, ?_, ?_, ?_⟩ <;>
    simp [init, InteractiveScheduler.empty, InteractiveScheduler.get]

/-- In every run the postprocessed chunks of a sequence are a beginning of its prompt after the
cached tokens, the next chunk starts where they end, and is a decode exactly once they are all
there. -/
theorem coversPrompt_run {n : ℕ} (h : 0 < n) (es : List PrefillEvent)
    (hes : Transition.Along step Admissible (init n h) es) :
    (∀ id s, (Transition.run step (init n h) es).scheduler.get id = some s →
      (Transition.run step (init n h) es).prefilled id <+: s.inputIds.drop s.numCachedTokens ∧
      (Transition.run step (init n h) es).positions id = List.range' s.numCachedTokens
        ((Transition.run step (init n h) es).prefilled id).length) ∧
    ∀ budget b, ((Transition.run step (init n h) es).scheduler.buildNextBatch budget).1 =
        .ok (some b) →
      ∃ s, (Transition.run step (init n h) es).scheduler.get b.seqId = some s ∧
        (b.phase = .prefill →
          (Transition.run step (init n h) es).NextChunk s b ∧
          1 ≤ b.inputIds.length ∧ b.inputIds.length ≤ n ∧
          (∀ k, budget = some k → 0 < k → b.inputIds.length ≤ k) ∧
          (Transition.run step (init n h) es).prefilled b.seqId ≠
            s.inputIds.drop s.numCachedTokens) ∧
        (b.phase = .decode → (Transition.run step (init n h) es).prefilled b.seqId =
          s.inputIds.drop s.numCachedTokens) := by
  have hcovers : (Transition.run step (init n h) es).CoversPrompt :=
    Transition.run_invariant (fun m e hm he => hm.step e he) (coversPrompt_init h) hes
  have hmax : (Transition.run step (init n h) es).scheduler.maxPrefillChunkTokens = n :=
    Transition.run_invariant' (I := fun m => m.scheduler.maxPrefillChunkTokens = n)
      (fun m e hm => (maxPrefillChunkTokens_step m e).trans hm) es rfl
  generalize Transition.run step (init n h) es = m at hcovers hmax ⊢
  refine ⟨fun id s hs => ?_, fun budget b hb => ?_⟩
  · have hid : s.seqId = id := hcovers.wellFormed.seqId_eq _ _ hs
    have hcovered := hcovers.sequences id s hs
    exact ⟨hid ▸ hcovered.tokens, hid ▸ hcovered.positions⟩
  · obtain ⟨s, hsel, -, hbuild⟩ := InteractiveScheduler.buildNextBatch_some (Prod.ext hb rfl)
    obtain ⟨hget, hlive⟩ := hcovers.wellFormed.selectNextSequence hsel
    have hstatus : s.status ≠ .cancelled := fun hc => by
      rw [s.isTerminal_iff.2 (.inr hc)] at hlive
      cases hlive
    have hcovered : m.Covered s.scheduled :=
      (hcovers.sequences _ s hget).congr rfl rfl (fun _ => hstatus) rfl
    have hid : b.seqId = s.seqId := (InteractiveScheduler.buildBatch_ok hbuild).1
    obtain ⟨hprefill, hdecode⟩ := hcovered.buildBatch (by simp) hbuild
    refine ⟨s, hid ▸ hget, fun hphase => ?_, fun hphase => ?_⟩
    · obtain ⟨-, hone, hle, hbudget⟩ := buildBatch_chunk hbuild hphase hcovered.prompt
      rw [hid]
      exact ⟨(hprefill hphase).1.congr rfl rfl, hone, hmax ▸ hle, hbudget, (hprefill hphase).2⟩
    · rw [hid]
      exact hdecode hphase

/-- A prompt of five tokens with one cached, whose second chunk is dropped and built again. -/
def droppedChunkRun : List PrefillEvent :=
  [ .addSequence
      { seqId := 0
        sessionId := "a"
        inputIds := [1, 2, 3, 4, 5]
        maxNewTokens := 1
        numCachedTokens := 1 },
    .buildNextBatch none, .postprocessBatch,
    .buildNextBatch (some 1), .buildNextBatch none, .postprocessBatch ]

theorem coversPrompt_droppedChunkRun :
    (Transition.run step (init 2 (by decide)) droppedChunkRun).prefilled 0 <+: [2, 3, 4, 5] ∧
      (Transition.run step (init 2 (by decide)) droppedChunkRun).prefilled 0 = [2, 3, 4, 5] := by
  have hget : ((Transition.run step (init 2 (by decide)) droppedChunkRun).scheduler.get 0).map
      (fun s => s.inputIds.drop s.numCachedTokens) = some [2, 3, 4, 5] := by decide +kernel
  have hadmissible : Transition.Along step Admissible (init 2 (by decide)) droppedChunkRun := by
    decide +kernel
  obtain ⟨s, hs, hdrop⟩ := Option.map_eq_some_iff.1 hget
  have hcovers := coversPrompt_run (by decide) droppedChunkRun hadmissible
  refine ⟨hdrop ▸ (hcovers.1 0 s hs).1, ?_⟩
  decide +kernel

end PrefillMachine

end SoloRT
