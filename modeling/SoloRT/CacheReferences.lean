import SoloRT.StreamText

/-!
# References to prefix-cache entries

A sequence gets the handle of a prefix-cache entry in two ways. A hit in `add_request` counts a
reference (`match`). The insert at the end of the prefill hands out the new entry without one,
so from that step on the entry has a live holder and `ref_count` 0. `_finish_sequence` then
takes off a reference for either kind of handle.

The reference counts of a run are therefore exact as long as nothing is inserted, and not one
step longer (`referencesExact_run_iff`).
-/

namespace SoloRT

namespace RuntimeCore

variable {σ : Type} {ex : ModelExecutor σ} {rt rt' : RuntimeCore σ}

/-- The number of sequences that are not terminal and hold the entry. -/
def holders (rt : RuntimeCore σ) (entry : EntryId) : ℕ :=
  rt.scheduler.candidates.countP fun q => q.cacheHandle = some entry

/-- The reference count of every entry is the number of its holders. -/
def ReferencesExact (rt : RuntimeCore σ) : Prop :=
  ∀ entry e, rt.prefixCache.objects entry = some e → e.refCount = rt.holders entry

/-- No entry was ever created. -/
def NoEntries (rt : RuntimeCore σ) : Prop :=
  ∀ entry, rt.prefixCache.objects entry = none

theorem NoEntries.referencesExact (h : rt.NoEntries) : rt.ReferencesExact := by
  intro entry e he
  rw [h entry] at he
  cases he

/-- A cache without objects stays as it is when a handle is released. -/
theorem NoEntries.release (h : rt.NoEntries) (entry : Option EntryId) :
    rt.prefixCache.release entry = rt.prefixCache := by
  rcases rt.prefixCache.release_cases entry with hr | ⟨id, e, -, he, -⟩
  · exact hr
  · rw [h id] at he
    cases he

end RuntimeCore

/-! ## Entries are created without a reference -/

namespace BatchContext

variable {σ : Type} {ex : ModelExecutor σ} {c c' : BatchContext σ} {batch : Batch}
  {r : Except PyError (List Text)}

/-- The batch is the last prefill chunk of a sequence without a handle, and its execution, with
the result `r`, raises nothing. -/
structure FillsPrompt (ex : ModelExecutor σ) (c : BatchContext σ) (batch : Batch)
    (r : Except PyError (List Text)) : Prop where
  supports : ex.supportsPrefixCache = true
  noHandle : c.sequence.cacheHandle = none
  prefill : batch.phase = .prefill
  lastChunk : c.sequence.numPromptTokens ≤
    c.sequence.numCachedTokens + (c.sequence.numScheduledTokens + batch.inputIds.length)
  noError : ∃ texts, r = .ok texts

/-- What executing a batch does to the entries : nothing, or it ended a prefill and the running
sequence got the handle of a new entry without a reference. -/
theorem Executed.entries (h : Executed ex c batch r c') (hrun : c.sequence.status = .running) :
    (c'.prefixCache = c.prefixCache ∧ ¬FillsPrompt ex c batch r) ∨
      FillsPrompt ex c batch r ∧ c'.sequence.status = .running ∧
        ∃ entry e, c'.sequence.cacheHandle = some entry ∧
          c'.prefixCache.objects entry = some e ∧ e.refCount = 0 := by
  cases h with
  | skipped hs =>
    rw [hrun] at hs
    cases hs
  | attachFailed | prefillFailed =>
    refine .inl ⟨rfl, fun h => ?_⟩
    obtain ⟨texts, h⟩ := h.noError
    cases h
  | decodeFailed hs hb => exact .inl ⟨rfl, fun h => by simp [h.prefill] at hb⟩
  | decoded hs hb => exact .inl ⟨rfl, fun h => by simp [h.prefill] at hb⟩
  | @prefilled _ _ env' _ _ hs hb ha he hc =>
    have hpost := Sequence.postprocessBatch_prefill (s := (c.setEnv env').sequence) hs
      (ha.phase.trans hb)
    rw [hpost, ha.inputIds] at hc
    unfold cachePrefix at hc
    split_ifs at hc with hif
    · obtain ⟨hdone, hnone, hsup⟩ := hif
      rcases c.prefixCache.insert_cases c.now c.sequence.inputIds env'.blockTable true with
        ⟨e, hi⟩ | ⟨pc, key, hi, -, hobj, -⟩
      · simp only [setEnv, hi] at hc
        cases hc
        refine .inl ⟨rfl, fun h => ?_⟩
        obtain ⟨texts, h⟩ := h.noError
        cases h
      · simp only [setEnv, hi] at hc
        cases hc
        refine .inr ⟨⟨hsup, hnone, hb, ?_, [], rfl⟩, hrun, c.prefixCache.nextEntryId, _, rfl,
          by rw [hobj, Function.update_self], rfl⟩
        exact (Sequence.isPrefillComplete_iff _).1 hdone
    · cases hc
      refine .inl ⟨rfl, fun h => hif ⟨?_, h.noHandle, h.supports⟩⟩
      exact (Sequence.isPrefillComplete_iff _).2 h.lastChunk

end BatchContext

/-! ## Runs -/

namespace ServerState

variable {σ : Type} {ex : ModelExecutor σ} {s : ServerState σ}

/-- The step executes, without an exception, the last prefill chunk of a sequence that holds
no handle. -/
def InsertsEntry (ex : ModelExecutor σ) (s : ServerState σ) (e : Event) : Prop :=
  ∃ id q sel batch, e = .resume id ∧ (s.streams id).phase = .loop ∧
    s.runtime.scheduler.get id = some q ∧ q.isTerminal = false ∧
    s.runtime.scheduler.selectNextSequence = some sel ∧
    s.runtime.scheduler.buildBatch none sel.scheduled = .ok batch ∧
    BatchContext.FillsPrompt ex (s.runtime.context sel.scheduled) batch
      ((s.runtime.context sel.scheduled).executeBatch ex batch).1

/-- Only an insert creates an entry. -/
theorem noEntries_step (hs : s.Sound) (h : s.runtime.NoEntries) {e : Event}
    (hins : ¬InsertsEntry ex s e) : (s.step ex e).runtime.NoEntries := by
  have hwf := hs.runtime.wellFormed
  have hsame : ∀ {rt : RuntimeCore σ}, rt.prefixCache = s.runtime.prefixCache → rt.NoEntries :=
    fun heq entry => by rw [heq, h entry]
  cases e with
  | addRequest request =>
    refine hsame ?_
    rcases RuntimeCore.addRequest_cases ex s.runtime request with
      ⟨e, -, hcore, -⟩ | ⟨seqId, sid, inputIds, m, -, -, -, -, hm, -⟩
    · exact hcore.prefixCache
    · split_ifs at hm
      · rcases s.runtime.prefixCache.matchPrefix_cases s.runtime.now inputIds with
          hmiss | ⟨id, e, he, -⟩
        · rw [hmiss] at hm
          exact (Prod.mk.inj hm).2
        · have hnone := he.2
          rw [h id] at hnone
          cases hnone
      · exact (Prod.mk.inj hm).2
  | cancelRequest requestId sessionId =>
    refine hsame ?_
    rcases RuntimeCore.cancelRequest_cases hwf requestId sessionId with
      heq | ⟨q, b, -, -, hcore, -⟩
    · simp only [step, heq]
    · exact hcore.prefixCache.trans (h.release _)
  | resume id =>
    have hresumed := resumed ex s hwf id
    simp only [step]
    generalize s.resume ex id = s' at hresumed
    cases hresumed with
    | idle | emitted | buildFailed => exact hsame rfl
    | drained hq hdone hloop =>
      obtain ⟨b, hcore, -⟩ := RuntimeCore.finishSequence_core s.runtime _
        (by rwa [hwf.seqId_eq _ _ hq])
      exact hsame (hcore.prefixCache.trans (h.release _))
    | @executed q sel batch r c hq hlive hloop hsel hb hx =>
      rcases (BatchContext.executed_of_eq hx).entries rfl with ⟨heq, -⟩ | ⟨hfills, -⟩
      · exact hsame heq
      · exact absurd ⟨id, q, sel, batch, rfl, hloop, hq, hlive, hsel, hb, by rwa [hx]⟩ hins
  | close id =>
    refine hsame ?_
    rcases s.close_cases id with heq | heq <;> simp only [step, heq, setStream_runtime]
  | evict n =>
    intro entry
    simp only [step, PrefixCache.evict_objects, h entry]
  | tick => exact hsame rfl

/-- The step of a turn whose batch is executed. -/
theorem runtime_resume (hwf : s.runtime.scheduler.WellFormed) {id : SeqId} {q sel : Sequence}
    {batch : Batch} (hloop : (s.streams id).phase = .loop)
    (hq : s.runtime.scheduler.get id = some q) (hlive : q.isTerminal = false)
    (hsel : s.runtime.scheduler.selectNextSequence = some sel)
    (hb : s.runtime.scheduler.buildBatch none sel.scheduled = .ok batch) :
    (s.resume ex id).runtime =
      s.runtime.setContext ((s.runtime.context sel.scheduled).executeBatch ex batch).2 := by
  have hresumed := resumed ex s hwf id
  generalize s.resume ex id = s' at hresumed
  cases hresumed with
  | idle h => simp [hq, hloop, hsel] at h
  | emitted h => simp [hloop] at h
  | drained hq' hdone => simp [hq, Option.some.inj (hq.symm.trans hq') ▸ hlive] at hq' hdone
  | buildFailed _ _ _ hsel' hb' =>
    cases hsel.symm.trans hsel'
    rw [hb] at hb'
    cases hb'
  | executed _ _ _ hsel' hb' hx =>
    cases hsel.symm.trans hsel'
    cases hb.symm.trans hb'
    rw [hx]
    rfl

/-- Right after an insert the counts are wrong : the new entry has a holder and no reference. -/
theorem not_referencesExact_step (hs : s.Sound) {e : Event} (h : InsertsEntry ex s e) :
    ¬(s.step ex e).runtime.ReferencesExact := by
  obtain ⟨id, q, sel, batch, rfl, hloop, hq, hlive, hsel, hb, hfills⟩ := h
  have hwf := hs.runtime.wellFormed
  have hs' : (s.step ex (.resume id)).Sound := hs.step _
  have hwf' := hs'.runtime.wellFormed
  have hrt : (s.step ex (.resume id)).runtime =
      s.runtime.setContext ((s.runtime.context sel.scheduled).executeBatch ex batch).2 :=
    runtime_resume hwf hloop hq hlive hsel hb
  rw [hrt] at hwf' ⊢
  rcases (BatchContext.executed ex (s.runtime.context sel.scheduled) batch).entries rfl with
    ⟨-, hnot⟩ | ⟨-, hrun, entry, e, hhandle, hobj, hzero⟩
  · exact absurd hfills hnot
  · intro hexact
    generalize ((s.runtime.context sel.scheduled).executeBatch ex batch).2 = c
      at hwf' hrun hhandle hobj hexact
    have hcount := hexact entry e hobj
    have hmem : c.sequence ∈ (s.runtime.setContext c).scheduler.candidates :=
      hwf'.mem_candidates.2 ⟨InteractiveScheduler.get_put _, by simp [Sequence.isTerminal, hrun]⟩
    have hpos : 0 < (s.runtime.setContext c).holders entry :=
      List.countP_pos_iff.2 ⟨c.sequence, hmem, by simp [hhandle]⟩
    omega

/-- The reference counts are exact in all states of a run if and only if no step of it inserts
an entry. -/
theorem referencesExact_run_iff (ex : ModelExecutor σ) (config : RuntimeConfig) (executor : σ)
    (es : List Event) :
    (∀ es', es' <+: es →
      (Transition.run (step ex) (init config executor) es').runtime.ReferencesExact) ↔
    Transition.Along (step ex) (fun s e => ¬InsertsEntry ex s e) (init config executor) es :=
  Transition.forall_prefix_iff_along_of_le
    (I := fun s : ServerState σ => s.runtime.ReferencesExact) (J := Sound)
    (K := fun s => s.runtime.NoEntries) (fun _ e hs => hs.step e)
    (fun _ h => h.referencesExact) (fun _ _ hs h hins => noEntries_step hs h hins)
    (fun _ _ hs _ hI hins => not_referencesExact_step hs hins hI)
    (sound_init config executor) (fun _ => rfl) es

/-- One request, up to the end of its prefill. -/
def prefilledRun : List Event :=
  [.addRequest (shortRequest "a"), .resume 0]

/-- The request holds the entry that it inserted, whose reference count is zero. -/
theorem not_referencesExact_run : ¬∀ (σ : Type) (ex : ModelExecutor σ) (config : RuntimeConfig)
    (executor : σ) (es : List Event), ex.supportsPrefixCache = true →
    (Transition.run (step ex) (init config executor) es).runtime.ReferencesExact := by
  intro h
  have hexact := h Unit (deterministicExecutor true) smallConfig () prefilledRun rfl
  generalize hs : Transition.run (step (deterministicExecutor true)) (init smallConfig ())
    prefilledRun = s at hexact
  have hobj : (s.runtime.prefixCache.objects 0).map PrefixCacheEntry.refCount = some 0 := by
    subst hs
    decide +kernel
  have hholders : s.runtime.holders 0 = 1 := by
    subst hs
    decide +kernel
  obtain ⟨e, he, hzero⟩ := Option.map_eq_some_iff.1 hobj
  have hcount := hexact 0 e he
  omega

end ServerState

end SoloRT
