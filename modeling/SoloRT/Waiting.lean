import SoloRT.DecodeExclusion
import SoloRT.ServingLoop

/-!
# A foreground request waits for those ahead of it only

While a foreground sequence is live, the scheduler selects no sequence behind it
(`Behind.not_selected`) : no background sequence that was in prefill when it arrived, no branch
that decodes, and no sequence that arrived later. The batches that are executed belong to the
sequences ahead of it and to itself, and each takes one off what is left of them. So however many
requests arrive after it, it ends within a number of batches that is fixed when it arrives
(`foreground_served_within`).

This is about executors without a prefix cache. A later request whose prompt is cached would be past
its prefill at once.
-/

namespace SoloRT

/-! ## Ahead and behind -/

namespace Sequence

/-- A sequence that may take batches before a foreground sequence that arrives now. -/
def Ahead (q : Sequence) : Bool :=
  match q.taskKind with
  | .foreground => true
  | .branch => !q.isPrefillComplete
  | .background => q.isPrefillComplete
  | .cacheMaintenance => false

/-- A sequence that takes no batch before the foreground sequence `fg` ends. -/
inductive Behind (fg q : Sequence) : Prop
  | maintenance (h : q.taskKind = .cacheMaintenance)
  | branch (h : q.taskKind = .branch) (hc : q.isPrefillComplete = true)
  | background (h : q.taskKind = .background) (hc : q.isPrefillComplete = false)
  | later (hc : q.isPrefillComplete = false) (hts : fg.createdTs ≤ q.createdTs)
      (hid : fg.seqId < q.seqId)

theorem behind_of_not_ahead (fg : Sequence) {q : Sequence} (h : q.Ahead = false) :
    Behind fg q := by
  unfold Ahead at h
  split at h
  · cases h
  · rename_i hkind
    exact .branch hkind (by simpa using h)
  · rename_i hkind
    exact .background hkind h
  · rename_i hkind
    exact .maintenance hkind

theorem createdTs_of_request {s t : Sequence} (h : s.request = t.request) :
    s.createdTs = t.createdTs :=
  show s.request.createdTs = t.request.createdTs from congrArg _ h

theorem isPrefillComplete_of_request {s t : Sequence} (h : s.request = t.request)
    (hsched : s.numScheduledTokens = t.numScheduledTokens) :
    s.isPrefillComplete = t.isPrefillComplete := by
  rw [Bool.eq_iff_iff, isPrefillComplete_iff, isPrefillComplete_iff,
    numPromptTokens_of_request h, numCachedTokens_of_request h, hsched]

theorem Behind.congr {fg q q' : Sequence} (h : Behind fg q) (hreq : q'.request = q.request)
    (hsched : q'.numScheduledTokens = q.numScheduledTokens) : Behind fg q' := by
  have hkind := taskKind_of_request hreq
  have hcomplete := isPrefillComplete_of_request hreq hsched
  cases h with
  | maintenance h => exact .maintenance (hkind.trans h)
  | branch h hc => exact .branch (hkind.trans h) (hcomplete.trans hc)
  | background h hc => exact .background (hkind.trans h) (hcomplete.trans hc)
  | later hc hts hid =>
    refine .later (hcomplete.trans hc) ?_ ?_
    · rwa [createdTs_of_request hreq]
    · rwa [seqId_of_request hreq]

end Sequence

/-! ## The order of arrival -/

namespace InteractiveScheduler

variable {σ : InteractiveScheduler} {fg sel q : Sequence}

/-- Sequences are listed in the order of their ids. -/
theorem candidates_pairwise (hσ : σ.WellFormed) (horder : σ.order.Pairwise (· < ·)) :
    σ.candidates.Pairwise fun s t => s.seqId < t.seqId := by
  refine List.Pairwise.filter _ (horder.filterMap _ fun i j hij s hs t ht => ?_)
  rwa [hσ.seqId_eq i s hs, hσ.seqId_eq j t ht]

theorem idxOf_lt_of_seqId_lt (hσ : σ.WellFormed) (horder : σ.order.Pairwise (· < ·))
    (hfg : fg ∈ σ.candidates) (hq : q ∈ σ.candidates) (hlt : fg.seqId < q.seqId) :
    σ.candidates.idxOf fg < σ.candidates.idxOf q := by
  have hpair := List.pairwise_iff_getElem.1 (candidates_pairwise hσ horder)
  have hi := List.idxOf_lt_length_of_mem hfg
  have hj := List.idxOf_lt_length_of_mem hq
  by_contra hle
  rcases Nat.lt_or_eq_of_le (not_lt.1 hle) with hlt' | heq
  · have hback := hpair _ _ hj hi hlt'
    rw [List.getElem_idxOf, List.getElem_idxOf] at hback
    exact lt_asymm hback hlt
  · rw [List.idxOf_inj hq] at heq
    exact absurd (heq ▸ hlt) (lt_irrefl _)

end InteractiveScheduler

/-- A sequence behind a live foreground sequence is not selected. -/
theorem Sequence.Behind.not_selected {sch : InteractiveScheduler} {fg sel : Sequence}
    (h : Behind fg sel) (hsch : sch.WellFormed) (horder : sch.order.Pairwise (· < ·))
    (hfg : fg ∈ sch.candidates) (hkind : fg.taskKind = .foreground) :
    sch.selectNextSequence ≠ some sel := by
  intro hsel
  have hmem := (InteractiveScheduler.selectNextSequence_spec hsel).1
  have hle := InteractiveScheduler.priority_selected_le hsel hfg
  have hone := effectivePriority_foreground hkind
  have hsel' : (effectivePriority sel).value ≤ 1 := hle.trans hone
  cases h with
  | maintenance h =>
    rw [(effectivePriority_le_one (.inr h) hsel').1] at h
    cases h
  | branch h hc =>
    have hvalue : (effectivePriority sel).value = 2 := by
      simp [effectivePriority, h, hc, SchedulerPriority.value]
    omega
  | background h hc =>
    rw [(effectivePriority_le_one (.inl h) hsel').2] at hc
    cases hc
  | later hc hts hid =>
    -- the foreground sequence has the same priority, and is older
    have hpos : (effectivePriority sel).value ≠ 0 := fun hzero => by
      rw [(effectivePriority_eq_zero.1 hzero).1] at hc
      cases hc
    refine InteractiveScheduler.not_olderThan_selected hsel hfg (by omega) ?_
    rcases Nat.lt_or_eq_of_le hts with hlt | heq
    · exact .inl hlt
    · exact .inr ⟨heq, InteractiveScheduler.idxOf_lt_of_seqId_lt hsch horder hfg hmem hid⟩

/-! ## What the events do to live sequences -/

namespace RuntimeCore

variable {σ : Type} {ex : ModelExecutor σ} {rt rt' : RuntimeCore σ} {e : Event} {id : SeqId}
  {q q' : Sequence}

/-- Where a live sequence comes from. -/
theorem Change.live_cases (h : Change ex rt rt' e) (hrt : rt.Sound)
    (hcache : ex.supportsPrefixCache = false) (hq' : rt'.scheduler.get id = some q')
    (hlive : q'.isTerminal = false) :
    (∃ q, rt.scheduler.get id = some q ∧ q.isTerminal = false ∧ q'.request = q.request ∧
        q'.outputIds = q.outputIds ∧ q'.numScheduledTokens = q.numScheduledTokens) ∨
      (∃ request : Request, ∃ sessionId inputIds, e = .addRequest request ∧ rt.nextUuid ≤ id ∧
        q' = request.sequence id sessionId inputIds { matchedTokens := 0, pages := [] } rt.now) ∨
      ∃ sel batch r c, rt.scheduler.selectNextSequence = some sel ∧ sel.seqId = id ∧
        rt.scheduler.buildBatch none sel.scheduled = .ok batch ∧
        (rt.context sel.scheduled).executeBatch ex batch = (r, c) ∧ q' = c.sequence := by
  -- a terminal sequence is not the one in question
  have hdone : ∀ {t : Sequence}, t.isTerminal = true → (rt.scheduler.put t).get id = some q' →
      rt.scheduler.get id = some q' := by
    intro t ht hq
    rcases get_put_cases hq with ⟨-, rfl⟩ | ⟨-, hq⟩
    · rw [ht] at hlive
      cases hlive
    · exact hq
  cases h with
  | quiet h =>
    rw [h.scheduler] at hq'
    exact .inl ⟨q', hq', hlive, rfl, rfl, rfl⟩
  | added request seqId sessionId inputIds m hprompt hid hid' hm hs =>
    rw [hcache] at hm
    obtain rfl : m = { matchedTokens := 0, pages := [] } := congrArg Prod.fst hm
    rw [hs] at hq'
    rcases get_put_cases hq' with ⟨rfl, rfl⟩ | ⟨-, hq⟩
    · exact .inr (.inl ⟨request, sessionId, inputIds, rfl, hid, rfl⟩)
    · exact .inl ⟨q', hq, hlive, rfl, rfl, rfl⟩
  | cancelled s b hget hs h =>
    rw [h.scheduler] at hq'
    exact .inl ⟨q', hdone rfl hq', hlive, rfl, rfl, rfl⟩
  | finished s b hget hs h =>
    rw [h.scheduler] at hq'
    exact .inl ⟨q', hdone (t := withAppended s b) hs hq', hlive, rfl, rfl, rfl⟩
  | selected s hsel h =>
    obtain ⟨hget, hs⟩ := hrt.wellFormed.selectNextSequence hsel
    rw [h.scheduler] at hq'
    rcases get_put_cases hq' with ⟨rfl, rfl⟩ | ⟨-, hq⟩
    · exact .inl ⟨s, hget, hs, rfl, rfl, rfl⟩
    · exact .inl ⟨q', hq, hlive, rfl, rfl, rfl⟩
  | executed s batch r c hsel hb hx h =>
    subst h
    rcases get_put_cases hq' with ⟨rfl, rfl⟩ | ⟨-, hq⟩
    · exact .inr (.inr ⟨s, batch, r, c, hsel, (BatchContext.executed_of_eq hx).seqId.symm, hb, hx,
        rfl⟩)
    · exact .inl ⟨q', hq, hlive, rfl, rfl, rfl⟩
  | evicted n h =>
    subst h
    exact .inl ⟨q', hq', hlive, rfl, rfl, rfl⟩

/-- A live sequence has room for a token. -/
def HasRoom (rt : RuntimeCore σ) : Prop :=
  ∀ id q, rt.scheduler.get id = some q → q.isTerminal = false →
    q.outputIds.length < q.maxNewTokens

/-- Sequences are listed in the order of their ids. -/
def Ordered (rt : RuntimeCore σ) : Prop :=
  rt.scheduler.order.Pairwise (· < ·)

theorem HasRoom.change (hroom : rt.HasRoom) (h : Change ex rt rt' e) (hrt : rt.Sound)
    (hcache : ex.supportsPrefixCache = false)
    (he : ∀ request, e = .addRequest request → 1 ≤ request.maxNewTokens) : rt'.HasRoom := by
  intro id q' hq' hlive
  rcases h.live_cases hrt hcache hq' hlive with ⟨q, hq, hql, hreq, hout, -⟩ |
    ⟨request, sessionId, inputIds, rfl, -, rfl⟩ | ⟨sel, batch, r, c, hsel, -, -, hx, rfl⟩
  · rw [hout, Sequence.maxNewTokens_of_request hreq]
    exact hroom id q hq hql
  · exact he request rfl
  · obtain ⟨hget, hsl⟩ := hrt.wellFormed.selectNextSequence hsel
    have hsel' : sel.scheduled.outputIds.length < sel.scheduled.maxNewTokens :=
      hroom _ sel hget hsl
    obtain ⟨hun, hout⟩ := unended_of_executed (c := rt.context sel.scheduled) rfl hx hlive
    rw [hout, List.length_append, List.length_map,
      Sequence.maxNewTokens_of_request (BatchContext.executed_of_eq hx).request]
    exact hun.length_lt hsel'

theorem Ordered.change (hord : rt.Ordered) (h : Change ex rt rt' e) (hrt : rt.Sound) :
    rt'.Ordered := by
  have hsame : ∀ {sch : InteractiveScheduler}, rt'.scheduler = sch →
      sch.order = rt.scheduler.order → rt'.Ordered := by
    intro sch hs horder
    rw [Ordered, hs, horder]
    exact hord
  cases h with
  | quiet h => exact hsame h.scheduler rfl
  | added request seqId sessionId inputIds m hprompt hid hid' hm hs =>
    rw [Ordered, hs]
    refine List.pairwise_append.2 ⟨hord, List.pairwise_singleton _ _, fun i hi j hj => ?_⟩
    obtain ⟨q, hq⟩ := Option.isSome_iff_exists.1 ((hrt.wellFormed.mem_order i).1 hi)
    rw [List.mem_singleton.1 hj]
    exact (hrt.fresh i q hq).trans_le hid
  | cancelled s b _ _ h => exact hsame h.scheduler rfl
  | finished s b _ _ h => exact hsame h.scheduler rfl
  | selected s _ h => exact hsame h.scheduler rfl
  | executed s batch r c _ _ _ h => exact hsame (congrArg scheduler h) rfl
  | evicted n h => exact hsame (congrArg scheduler h) rfl

theorem Change.nextUuid_le (h : Change ex rt rt' e) : rt.nextUuid ≤ rt'.nextUuid := by
  cases h with
  | quiet h hid => exact hid
  | added request seqId sessionId inputIds m hprompt hid hid' => omega
  | cancelled s b _ _ h hid | finished s b _ _ h hid | selected s _ h hid => exact hid.ge
  | executed s batch r c _ _ _ h => exact (congrArg nextUuid h).ge
  | evicted n h => exact (congrArg nextUuid h).ge

theorem Change.maxPrefillChunkTokens (h : Change ex rt rt' e) :
    rt'.scheduler.maxPrefillChunkTokens = rt.scheduler.maxPrefillChunkTokens := by
  cases h with
  | quiet h => rw [h.scheduler]
  | cancelled s b _ _ h | finished s b _ _ h | selected s _ h =>
    rw [h.scheduler]
    rfl
  | added request seqId sessionId inputIds m hprompt hid hid' hm hs =>
    rw [hs]
    rfl
  | executed s batch r c _ _ _ h =>
    rw [h]
    rfl
  | evicted n h => rw [h]

/-- What is left of a sequence that was stored before does not grow, and shrinks where a batch of
it is executed without raising. -/
theorem Change.liveLeft_le (h : Change ex rt rt' e) (hrt : rt.Sound)
    (hcache : ex.supportsPrefixCache = false) (hex : NeverRaises ex) (hone : rt.OneDecoding)
    (hroom : rt.HasRoom) (hid : id < rt.nextUuid) :
    (rt'.scheduler.get id).elim 0 (Sequence.liveLeft rt.scheduler.maxPrefillChunkTokens) ≤
      (rt.scheduler.get id).elim 0 (Sequence.liveLeft rt.scheduler.maxPrefillChunkTokens) := by
  cases hq' : rt'.scheduler.get id with
  | none => exact Nat.zero_le _
  | some q' =>
    rw [Option.elim_some]
    cases hlive : q'.isTerminal with
    | true =>
      rw [Sequence.liveLeft_of_terminal hlive]
      exact Nat.zero_le _
    | false =>
      rcases h.live_cases hrt hcache hq' hlive with ⟨q, hq, hql, hreq, hout, hsched⟩ |
        ⟨request, sessionId, inputIds, -, hnew, -⟩ | ⟨sel, batch, r, c, hsel, rfl, hb, hx, rfl⟩
      · rw [hq, Option.elim_some, Sequence.liveLeft_of_live hlive, Sequence.liveLeft_of_live hql,
          Sequence.batchesLeft, Sequence.batchesLeft, hout, hsched,
          Sequence.numPromptTokens_of_request hreq, Sequence.numCachedTokens_of_request hreq,
          Sequence.maxNewTokens_of_request hreq]
      · exact absurd (hid.trans_le hnew) (lt_irrefl _)
      · obtain ⟨hget, hsl⟩ := hrt.wellFormed.selectNextSequence hsel
        have hsome : rt.scheduler.get sel.seqId = some sel := hget
        rw [hsome, Option.elim_some, ← Sequence.liveLeft_scheduled hsl]
        exact (liveLeft_executed hex (BatchContext.executed_of_eq hx) hb (hone.prompt _ sel hget)
          rfl (hroom _ sel hget hsl)).1

theorem finishSequence_now (rt : RuntimeCore σ) (q : Sequence) :
    (rt.finishSequence q).now = rt.now := by
  have happend : ∀ (rt : RuntimeCore σ) (q : Sequence),
      (rt.appendAssistantResponse q).now = rt.now := by
    intro rt q
    unfold appendAssistantResponse
    split_ifs
    · rfl
    · rfl
    · split <;> rfl
  have hclear : (rt.clearActive q).now = rt.now := by
    unfold clearActive
    dsimp only
    split
    · rfl
    · split_ifs <;> rfl
  unfold finishSequence
  dsimp only
  split_ifs
  · rw [happend]
    exact hclear
  · exact hclear

end RuntimeCore

namespace ServerState

variable {σ : Type} {ex : ModelExecutor σ} {s : ServerState σ}

/-- Only a tick moves the clock. -/
theorem now_step (hs : s.Sound) {e : Event} (he : ∀ now, e ≠ .tick now) :
    (s.step ex e).runtime.now = s.runtime.now := by
  cases e with
  | addRequest request =>
    obtain ⟨-, -, hnow⟩ := s.runtime.getOrCreateSession_core request.sessionId
    show (s.runtime.addRequest ex request).2.now = _
    unfold RuntimeCore.addRequest
    dsimp only [RuntimeCore.appendMessages]
    split
    · exact hnow
    · exact hnow
  | cancelRequest requestId sessionId =>
    show (s.runtime.cancelRequest requestId sessionId).2.now = _
    unfold RuntimeCore.cancelRequest
    split
    · rfl
    · dsimp only
      split
      · rw [RuntimeCore.finishSequence_now]
      · rfl
  | resume id =>
    have hresumed := resumed ex s hs.runtime.wellFormed id
    rw [step]
    generalize s.resume ex id = s' at hresumed
    cases hresumed with
    | idle | emitted | buildFailed | executed => rfl
    | drained => exact RuntimeCore.finishSequence_now _ _
  | close id =>
    rw [step, close]
    split
    · rfl
    · split <;> rfl
  | evict n => rfl
  | tick now => exact absurd rfl (he now)

/-! ## Waiting -/

/-- The batch that is built in the event, with the sequence selected for it. -/
def batchIn (s : ServerState σ) : Event → Option (Sequence × Batch)
  | .resume seqId =>
    match s.runtime.scheduler.get seqId, (s.streams seqId).phase,
        s.runtime.scheduler.selectNextSequence with
    | some sequence, .loop, some sel =>
      if sequence.isTerminal then none
      else ((s.runtime.scheduler.buildBatch none sel.scheduled).toOption).map (sel, ·)
    | _, _, _ => none
  | _ => none

/-- The sequence of which the event executes a batch, also where this raises. -/
def startedIn (s : ServerState σ) (e : Event) : List SeqId :=
  (s.batchIn e).toList.map fun p => p.1.seqId

/-- The sequence of which the event executes a batch, without raising. -/
def executedIn (ex : ModelExecutor σ) (s : ServerState σ) (e : Event) : List SeqId :=
  match s.batchIn e with
  | none => []
  | some (sel, batch) =>
    if ((s.runtime.context sel.scheduled).executeBatch ex batch).1.isOk then [sel.seqId] else []

/-- A batch that is built is that of the selected sequence, and is executed. -/
theorem batchIn_some (ex : ModelExecutor σ) (hs : s.Sound) {e : Event} {sel : Sequence}
    {batch : Batch} (h : s.batchIn e = some (sel, batch)) :
    s.runtime.scheduler.selectNextSequence = some sel ∧
      s.runtime.scheduler.buildBatch none sel.scheduled = .ok batch ∧
      (s.step ex e).runtime = s.runtime.setContext
        ((s.runtime.context sel.scheduled).executeBatch ex batch).2 := by
  cases e with
  | addRequest | cancelRequest | close | evict | tick => cases h
  | resume id =>
    have hresumed := resumed ex s hs.runtime.wellFormed id
    rw [step]
    generalize s.resume ex id = s' at hresumed
    simp only [batchIn] at h
    split at h
    · rename_i q sel' hq hloop hsel
      split_ifs at h with hdone
      obtain ⟨batch', hb, hpair⟩ := Option.map_eq_some_iff.1 h
      obtain ⟨rfl, rfl⟩ := Prod.mk.inj hpair
      have hb : s.runtime.scheduler.buildBatch none sel'.scheduled = .ok batch' := by
        cases hb' : s.runtime.scheduler.buildBatch none sel'.scheduled with
        | error e =>
          rw [hb'] at hb
          cases hb
        | ok built =>
          rw [hb'] at hb
          exact congrArg Except.ok (Option.some.inj hb)
      refine ⟨hsel, hb, ?_⟩
      cases hresumed with
      | idle h =>
        rcases h with h | h | h
        · cases hq.symm.trans h
        · exact absurd hloop h
        · cases hsel.symm.trans h
      | emitted h => cases hloop.symm.trans h
      | drained hq' hdone' =>
        obtain rfl := Option.some.inj (hq.symm.trans hq')
        exact absurd hdone' hdone
      | buildFailed hq' hlive hloop' hsel' hb' =>
        obtain rfl := Option.some.inj (hsel.symm.trans hsel')
        cases hb.symm.trans hb'
      | executed hq' hlive hloop' hsel' hb' hx =>
        obtain rfl := Option.some.inj (hsel.symm.trans hsel')
        obtain rfl := Except.ok.inj (hb.symm.trans hb')
        rw [hx]
        rfl
    · cases h

/-- An event executes no batch, or one of the selected sequence. -/
theorem executedIn_cases (ex : ModelExecutor σ) (hs : s.Sound) (e : Event) :
    s.executedIn ex e = [] ∨ ∃ sel batch texts c,
      s.runtime.scheduler.selectNextSequence = some sel ∧
      s.runtime.scheduler.buildBatch none sel.scheduled = .ok batch ∧
      (s.runtime.context sel.scheduled).executeBatch ex batch = (.ok texts, c) ∧
      s.executedIn ex e = [sel.seqId] ∧ (s.step ex e).runtime = s.runtime.setContext c := by
  unfold executedIn
  cases h : s.batchIn e with
  | none => exact .inl rfl
  | some p =>
    obtain ⟨sel, batch⟩ := p
    obtain ⟨hsel, hb, hstep⟩ := batchIn_some ex hs h
    dsimp only
    cases hx : (s.runtime.context sel.scheduled).executeBatch ex batch with
    | mk r c =>
      rw [hx] at hstep
      obtain err | texts := r
      · exact .inl rfl
      · exact .inr ⟨sel, batch, texts, c, hsel, hb, hx, rfl, hstep⟩

/-- The clock goes forward, and a request asks for at least one token. -/
def Admits (s : ServerState σ) : Event → Prop
  | .tick now => s.runtime.now ≤ now
  | .addRequest request => 1 ≤ request.maxNewTokens
  | _ => True

instance (s : ServerState σ) : DecidablePred s.Admits
  | .tick now => inferInstanceAs (Decidable (s.runtime.now ≤ now))
  | .addRequest request => inferInstanceAs (Decidable (1 ≤ request.maxNewTokens))
  | .cancelRequest _ _ | .resume _ | .close _ | .evict _ => .isTrue trivial

/-- While `fg` is live, only the sequences `ids` take batches. -/
structure Waits (fg : Sequence) (ids : Finset SeqId) (s : ServerState σ) : Prop where
  sound : s.Sound
  one : s.runtime.OneDecoding
  ordered : s.runtime.Ordered
  room : s.runtime.HasRoom
  clock : fg.createdTs ≤ s.runtime.now
  handed : ∀ id ∈ ids, id < s.runtime.nextUuid
  mem : fg.seqId ∈ ids
  stored : ∃ q, s.runtime.scheduler.get fg.seqId = some q ∧ q.request = fg.request
  others : ∀ id q, s.runtime.scheduler.get id = some q → q.isTerminal = false →
    id ∈ ids ∨ fg.Behind q ∨ q.inputIds = []

/-- `fg` is not over. -/
def StillLive (s : ServerState σ) (fg : Sequence) : Prop :=
  ∃ q, s.runtime.scheduler.get fg.seqId = some q ∧ q.isTerminal = false

variable {fg : Sequence} {ids : Finset SeqId}

/-- A batch that is built while `fg` is live belongs to one of the sequences. -/
theorem Waits.selected_mem (h : Waits fg ids s) (hkind : fg.taskKind = .foreground)
    (hlive : s.StillLive fg) {sel : Sequence} {batch : Batch}
    (hsel : s.runtime.scheduler.selectNextSequence = some sel)
    (hb : s.runtime.scheduler.buildBatch none sel.scheduled = .ok batch) : sel.seqId ∈ ids := by
  obtain ⟨q, hq, hreq⟩ := h.stored
  obtain ⟨q', hq', hql⟩ := hlive
  obtain rfl : q = q' := Option.some.inj (hq.symm.trans hq')
  have hid := Sequence.seqId_of_request hreq
  obtain ⟨hget, hsl⟩ := h.sound.runtime.wellFormed.selectNextSequence hsel
  have hmem := h.sound.runtime.wellFormed.mem_candidates.2 ⟨hid ▸ hq, hql⟩
  rcases h.others _ sel hget hsl with hin | hbehind | hempty
  · exact hin
  · have hbehind' : q.Behind sel := by
      cases hbehind with
      | maintenance h => exact .maintenance h
      | branch h hc => exact .branch h hc
      | background h hc => exact .background h hc
      | later hc hts hid' =>
        exact .later hc (Sequence.createdTs_of_request hreq ▸ hts) (hid ▸ hid')
    exact absurd hsel (hbehind'.not_selected h.sound.runtime.wellFormed h.ordered hmem
      ((Sequence.taskKind_of_request hreq).trans hkind))
  · exact absurd hempty (h.one.inputIds_ne_nil h.sound.runtime hsel hb)

theorem Waits.step (h : Waits fg ids s) (hcache : ex.supportsPrefixCache = false)
    (hkind : fg.taskKind = .foreground) (hlive : s.StillLive fg) {e : Event}
    (he : s.Admits e) : Waits fg ids (s.step ex e) := by
  have hrt := h.sound.runtime
  have hchange := step_change ex s hrt.wellFormed e
  obtain ⟨q, hq, hreq⟩ := h.stored
  obtain ⟨q', hq', hreq'⟩ := hchange.get_some hrt hq
  refine ⟨h.sound.step e, h.one.change hrt hcache hchange, h.ordered.change hchange hrt,
    h.room.change hchange hrt hcache ?_, ?_, fun id hid => (h.handed id hid).trans_le
      hchange.nextUuid_le, h.mem, ⟨q', hq', hreq'.trans hreq⟩, ?_⟩
  · rintro request rfl
    exact he
  · by_cases htick : ∃ now, e = .tick now
    · obtain ⟨now, rfl⟩ := htick
      exact h.clock.trans he
    · rw [now_step h.sound fun now hnow => htick ⟨now, hnow⟩]
      exact h.clock
  · intro id r hr hrl
    rcases hchange.live_cases hrt hcache hr hrl with ⟨t, ht, htl, hreq, -, hsched⟩ |
      ⟨request, sessionId, inputIds, -, hnew, rfl⟩ | ⟨sel, batch, r, c, hsel, rfl, hb, -, -⟩
    · rcases h.others id t ht htl with hin | hbehind | hempty
      · exact .inl hin
      · exact .inr (.inl (hbehind.congr hreq hsched))
      · exact .inr (.inr ((Sequence.inputIds_of_request hreq).trans hempty))
    · -- a new sequence is in prefill, and arrived later
      by_cases hempty : inputIds = []
      · exact .inr (.inr hempty)
      · refine .inr (.inl (.later ?_ h.clock ((h.handed _ h.mem).trans_le hnew)))
        rw [← Bool.not_eq_true, Sequence.isPrefillComplete_iff]
        exact fun hle => hempty (List.length_eq_zero_iff.1 (Nat.le_zero.1 hle))
    · exact .inl (h.selected_mem hkind hlive hsel hb)

/-- What is left of the sequences pays for the batches that are executed. -/
theorem Waits.left_le (h : Waits fg ids s) (hcache : ex.supportsPrefixCache = false)
    (hex : NeverRaises ex) (hkind : fg.taskKind = .foreground) (hlive : s.StillLive fg)
    (e : Event) :
    (∀ id ∈ s.executedIn ex e, id ∈ ids) ∧ (s.executedIn ex e).length +
        RuntimeCore.left s.runtime.scheduler.maxPrefillChunkTokens ids (s.step ex e).runtime ≤
      RuntimeCore.left s.runtime.scheduler.maxPrefillChunkTokens ids s.runtime := by
  have hrt := h.sound.runtime
  have hchange := step_change ex s hrt.wellFormed e
  have hle := fun id (hid : id ∈ ids) =>
    hchange.liveLeft_le hrt hcache hex h.one h.room (h.handed id hid)
  rcases executedIn_cases ex h.sound e with hnone | ⟨sel, batch, texts, c, hsel, hb, hx, hin, hstep⟩
  · rw [hnone, List.length_nil, Nat.zero_add]
    exact ⟨fun id hid => (by cases hid), Finset.sum_le_sum hle⟩
  · have hmem := h.selected_mem hkind hlive hsel hb
    obtain ⟨hget, hsl⟩ := hrt.wellFormed.selectNextSequence hsel
    have hexec := BatchContext.executed_of_eq hx
    have hless := (liveLeft_executed hex hexec hb (h.one.prompt _ sel hget) rfl
      (h.room _ sel hget hsl)).2 texts rfl
    have hleft := RuntimeCore.left_put (n := s.runtime.scheduler.maxPrefillChunkTokens)
      (s.step ex e).runtime hget hexec.seqId (by rw [hstep]; rfl) hmem
    have hsched : (s.runtime.context sel.scheduled).sequence.liveLeft
        s.runtime.scheduler.maxPrefillChunkTokens =
          sel.liveLeft s.runtime.scheduler.maxPrefillChunkTokens :=
      Sequence.liveLeft_scheduled hsl
    rw [hsched] at hless
    rw [hin]
    refine ⟨fun id hid => List.mem_singleton.1 hid ▸ hmem, ?_⟩
    rw [List.length_singleton]
    omega

/-- A sequence that is live after a run was live before. -/
theorem stillLive_of_run (fg : Sequence) (hs : s.Sound) {q : Sequence}
    (hq : s.runtime.scheduler.get fg.seqId = some q) (es : List Event)
    (h : (Transition.run (step ex) s es).StillLive fg) : s.StillLive fg := by
  induction es generalizing s q with
  | nil => exact h
  | cons e es ih =>
    have hchange := step_change ex s hs.runtime.wellFormed e
    obtain ⟨q', hq', -⟩ := hchange.get_some hs.runtime hq
    obtain ⟨t, ht, hlive⟩ := ih (hs.step e) hq' h
    cases hdone : q.isTerminal with
    | false => exact ⟨q, hq, hdone⟩
    | true =>
      obtain ⟨b, hb⟩ := hchange.get_terminal hs.runtime hq hdone
      obtain rfl := Option.some.inj (ht.symm.trans hb)
      rw [show (RuntimeCore.withAppended q b).isTerminal = q.isTerminal from rfl, hdone] at hlive
      cases hlive

/-- Until `fg` ends, the batches belong to the sequences, and they are not more than was left of
them. -/
theorem Waits.run (h : Waits fg ids s) (hcache : ex.supportsPrefixCache = false)
    (hex : NeverRaises ex) (hkind : fg.taskKind = .foreground) {es : List Event}
    (hes : Transition.Along (ServerState.step ex) Admits s es)
    (hlive : (Transition.run (ServerState.step ex) s es).StillLive fg) :
    Waits fg ids (Transition.run (ServerState.step ex) s es) ∧
    (∀ id ∈ Transition.outputs (ServerState.step ex) (executedIn ex) s es, id ∈ ids) ∧
      (Transition.outputs (ServerState.step ex) (executedIn ex) s es).length ≤
        RuntimeCore.left s.runtime.scheduler.maxPrefillChunkTokens ids s.runtime := by
  induction es generalizing s with
  | nil => exact ⟨h, fun id hid => (by cases hid), Nat.zero_le _⟩
  | cons e es ih =>
    obtain ⟨q, hq, -⟩ := h.stored
    have hnow := stillLive_of_run fg h.sound hq (e :: es) hlive
    have hstep := h.step hcache hkind hnow hes.1
    obtain ⟨hmem, hle⟩ := h.left_le hcache hex hkind hnow e
    obtain ⟨hwaits, hmems, hles⟩ := ih hstep hes.2 hlive
    have hchunk := (step_change ex s h.sound.runtime.wellFormed e).maxPrefillChunkTokens
    rw [hchunk] at hles
    rw [Transition.outputs, List.length_append]
    exact ⟨hwaits, fun id hid => (List.mem_append.1 hid).elim (hmem id) (hmems id), by omega⟩

theorem ordered_run (ex : ModelExecutor σ) (config : RuntimeConfig) (st : σ) (es : List Event) :
    (Transition.run (step ex) (init config st) es).runtime.Ordered := by
  have hstep : ∀ (s : ServerState σ) e, s.Sound ∧ s.runtime.Ordered →
      (s.step ex e).Sound ∧ (s.step ex e).runtime.Ordered := fun s e h =>
    ⟨h.1.step e, h.2.change (step_change ex s h.1.runtime.wellFormed e) h.1.runtime⟩
  exact (Transition.run_invariant' hstep es ⟨sound_init config st, List.Pairwise.nil⟩).2

theorem hasRoom_run (hcache : ex.supportsPrefixCache = false) (config : RuntimeConfig) (st : σ)
    {es : List Event} (hes : Transition.Along (step ex) Admits (init config st) es) :
    (Transition.run (step ex) (init config st) es).Sound ∧
      (Transition.run (step ex) (init config st) es).runtime.HasRoom := by
  have hstep : ∀ (s : ServerState σ) e, s.Sound ∧ s.runtime.HasRoom → s.Admits e →
      (s.step ex e).Sound ∧ (s.step ex e).runtime.HasRoom := fun s e h he =>
    ⟨h.1.step e, h.2.change (step_change ex s h.1.runtime.wellFormed e) h.1.runtime hcache
      fun request hreq => by subst hreq; exact he⟩
  exact Transition.run_invariant hstep ⟨sound_init config st, fun id q hq => by cases hq⟩ hes

theorem maxPrefillChunkTokens_run (ex : ModelExecutor σ) (config : RuntimeConfig) (st : σ)
    (es : List Event) : (Transition.run (step ex) (init config st) es).Sound ∧
      (Transition.run (step ex) (init config st) es).runtime.scheduler.maxPrefillChunkTokens =
        config.maxPrefillChunkTokens := by
  have hstep : ∀ (s : ServerState σ) e,
      s.Sound ∧ s.runtime.scheduler.maxPrefillChunkTokens = config.maxPrefillChunkTokens →
        (s.step ex e).Sound ∧ (s.step ex e).runtime.scheduler.maxPrefillChunkTokens =
          config.maxPrefillChunkTokens := fun s e h =>
    ⟨h.1.step e,
      (step_change ex s h.1.runtime.wellFormed e).maxPrefillChunkTokens.trans h.2⟩
  exact Transition.run_invariant' hstep es ⟨sound_init config st, rfl⟩

/-- The live sequences ahead of a foreground sequence that arrives now. -/
def ahead (s : ServerState σ) : List Sequence :=
  s.runtime.scheduler.candidates.filter Sequence.Ahead

/-- A foreground sequence that is added waits for those ahead. -/
theorem waits_added (fg : Sequence) (hcache : ex.supportsPrefixCache = false) {request : Request}
    (hsound : s.Sound) (hone : s.runtime.OneDecoding) (hord : s.runtime.Ordered)
    (hroom : s.runtime.HasRoom) (he : s.Admits (.addRequest request))
    (hid : s.runtime.nextUuid ≤ fg.seqId) (hts : fg.createdTs = s.runtime.now)
    (hadd : (s.step ex (.addRequest request)).runtime.scheduler =
      s.runtime.scheduler.addSequence fg) :
    Waits fg (insert fg.seqId (s.ahead.map Sequence.seqId).toFinset)
      (s.step ex (.addRequest request)) := by
  have hrt := hsound.runtime
  have hchange := step_change ex s hrt.wellFormed (.addRequest request)
  have hself : (s.step ex (.addRequest request)).runtime.scheduler.get fg.seqId = some fg := by
    rw [hadd]
    exact InteractiveScheduler.get_put fg
  refine ⟨hsound.step _, hone.change hrt hcache hchange, hord.change hchange hrt,
    hroom.change hchange hrt hcache ?_, ?_, ?_, Finset.mem_insert_self _ _, ⟨fg, hself, rfl⟩, ?_⟩
  · rintro _ ⟨⟩
    exact he
  · rw [hts, now_step hsound fun now h => by cases h]
  · intro id hmem
    rcases Finset.mem_insert.1 hmem with rfl | hmem
    · exact (hsound.step _).runtime.fresh _ fg hself
    · obtain ⟨q, hq, rfl⟩ := List.mem_map.1 (List.mem_toFinset.1 hmem)
      have hget := (hrt.wellFormed.mem_candidates.1 (List.mem_of_mem_filter hq)).1
      exact (hrt.fresh _ q hget).trans_le hchange.nextUuid_le
  · intro id q hq hlive
    rw [hadd] at hq
    rcases RuntimeCore.get_put_cases hq with ⟨rfl, rfl⟩ | ⟨-, hq⟩
    · exact .inl (Finset.mem_insert_self _ _)
    · obtain rfl : q.seqId = id := hrt.wellFormed.seqId_eq _ _ hq
      cases hahead : q.Ahead with
      | false => exact .inr (.inl (Sequence.behind_of_not_ahead fg hahead))
      | true =>
        have hmem := List.mem_filter.2 ⟨hrt.wellFormed.mem_candidates.2 ⟨hq, hlive⟩, hahead⟩
        exact .inl (Finset.mem_insert_of_mem (List.mem_toFinset.2 (List.mem_map_of_mem hmem)))

/-- What is left of a new sequence, and of those ahead of it. -/
theorem left_added (hsound : s.Sound) (hord : s.runtime.Ordered) (n : ℕ)
    (hid : s.runtime.nextUuid ≤ fg.seqId) {s' : ServerState σ}
    (hadd : s'.runtime.scheduler = s.runtime.scheduler.addSequence fg) :
    RuntimeCore.left n (insert fg.seqId (s.ahead.map Sequence.seqId).toFinset) s'.runtime =
      fg.liveLeft n + (s.ahead.map (Sequence.liveLeft n)).sum := by
  have hrt := hsound.runtime
  have hget : ∀ q ∈ s.ahead, s.runtime.scheduler.get q.seqId = some q := fun q hq =>
    (hrt.wellFormed.mem_candidates.1 (List.mem_of_mem_filter hq)).1
  have hne : ∀ q ∈ s.ahead, q.seqId ≠ fg.seqId := fun q hq =>
    ((hrt.fresh _ q (hget q hq)).trans_le hid).ne
  have hnotin : fg.seqId ∉ (s.ahead.map Sequence.seqId).toFinset := by
    intro hmem
    obtain ⟨q, hq, heq⟩ := List.mem_map.1 (List.mem_toFinset.1 hmem)
    exact hne q hq heq
  have hnodup : (s.ahead.map Sequence.seqId).Nodup :=
    List.pairwise_map.2 (((InteractiveScheduler.candidates_pairwise hrt.wellFormed hord).filter
      Sequence.Ahead).imp ne_of_lt)
  have hself : s'.runtime.scheduler.get fg.seqId = some fg := by
    rw [hadd]
    exact InteractiveScheduler.get_put fg
  rw [RuntimeCore.left, Finset.sum_insert hnotin, hself, Option.elim_some,
    List.sum_toFinset _ hnodup, List.map_map]
  congr 2
  refine List.map_congr_left fun q hq => ?_
  rw [Function.comp_apply, hadd, InteractiveScheduler.get_addSequence_of_ne (hne q hq), hget q hq,
    Option.elim_some]

/-- Until a foreground request ends, batches are executed of itself and of the sequences ahead of it
only, and not more than were left of them when it arrived. -/
theorem foreground_served_within (ex : ModelExecutor σ) (hcache : ex.supportsPrefixCache = false)
    (hex : NeverRaises ex) (config : RuntimeConfig) (st : σ) {es es' : List Event}
    {request : Request} {id : SeqId} {q : Sequence}
    (hes : Transition.Along (step ex) Admits (init config st) (es ++ .addRequest request :: es'))
    (hkind : request.taskKind = .foreground)
    (hadd : ((Transition.run (step ex) (init config st) es).runtime.addRequest ex request).1 =
      .ok id)
    (hq : (Transition.run (step ex) (init config st)
      (es ++ .addRequest request :: es')).runtime.scheduler.get id = some q)
    (hlive : q.isTerminal = false) :
    let s := Transition.run (step ex) (init config st) es
    let log := Transition.outputs (step ex) (executedIn ex) (s.step ex (.addRequest request)) es'
    (∀ i ∈ log, i = id ∨ ∃ r ∈ s.ahead, r.seqId = i) ∧
      log.length ≤ q.batchBudget config.maxPrefillChunkTokens +
        (s.ahead.map (Sequence.batchesLeft config.maxPrefillChunkTokens)).sum := by
  intro s log
  obtain ⟨hbefore, hafter⟩ := Transition.along_append.1 hes
  obtain ⟨hsound, hroom⟩ := hasRoom_run hcache config st hbefore
  have hone := oneDecoding_run ex hcache config st es
  have hord := ordered_run ex config st es
  have hchunk := (maxPrefillChunkTokens_run ex config st es).2
  have hq' : (Transition.run (step ex) (s.step ex (.addRequest request))
      es').runtime.scheduler.get id = some q := by
    rw [Transition.run_append] at hq
    exact hq
  rcases RuntimeCore.addRequest_cases ex s.runtime request with ⟨e, herr, -⟩ |
    ⟨seqId, sessionId, inputIds, m, hok, -, hid, -, hm, hsch, -⟩
  · rw [hadd] at herr
    cases herr
  obtain rfl : id = seqId := Except.ok.inj (hadd.symm.trans hok)
  have hwaits := waits_added (request.sequence id sessionId inputIds m s.runtime.now) hcache
    hsound hone hord hroom hafter.1 hid rfl hsch
  obtain ⟨hend, hmem, hle⟩ := hwaits.run hcache hex hkind hafter.2 ⟨q, hq', hlive⟩
  obtain ⟨q₀, hq₀, hreq⟩ := hend.stored
  obtain rfl : q = q₀ := Option.some.inj (hq'.symm.trans hq₀)
  refine ⟨fun i hi => ?_, ?_⟩
  · rcases Finset.mem_insert.1 (hmem i hi) with rfl | hi
    · exact .inl rfl
    · exact .inr (List.mem_map.1 (List.mem_toFinset.1 hi))
  · have hchunk' := (step_change ex s hsound.runtime.wellFormed
      (.addRequest request)).maxPrefillChunkTokens
    rw [hchunk', hchunk, left_added hsound hord _ hid hsch] at hle
    have hown : (request.sequence id sessionId inputIds m s.runtime.now).liveLeft
        config.maxPrefillChunkTokens = q.batchBudget config.maxPrefillChunkTokens := by
      rw [Sequence.liveLeft_of_live rfl, Sequence.batchBudget,
        Sequence.numPromptTokens_of_request hreq, Sequence.numCachedTokens_of_request hreq,
        Sequence.maxNewTokens_of_request hreq]
      rfl
    have hothers : s.ahead.map (Sequence.liveLeft config.maxPrefillChunkTokens) =
        s.ahead.map (Sequence.batchesLeft config.maxPrefillChunkTokens) := by
      refine List.map_congr_left fun r hr => Sequence.liveLeft_of_live ?_
      exact (hsound.runtime.wellFormed.mem_candidates.1 (List.mem_of_mem_filter hr)).2
    rw [hown, hothers] at hle
    exact hle

/-- A background request that is past its prefill goes first, and a later foreground request
waits. -/
theorem foreground_served_within_lateRequest :
    let s := Transition.run (step (deterministicExecutor false)) (init smallConfig ())
      [.addRequest { shortRequest "a" with taskKind := .background }, .resume 0]
    let log := Transition.outputs (step (deterministicExecutor false))
      (executedIn (deterministicExecutor false))
      (s.step (deterministicExecutor false) (.addRequest (shortRequest "b")))
      [.addRequest (shortRequest "c"), .resume 2, .resume 1]
    s.ahead.map Sequence.seqId = [0] ∧ log = [0, 1] ∧ log.length ≤ 3 := by
  have hq : ((Transition.run (step (deterministicExecutor false)) (init smallConfig ())
      ([.addRequest { shortRequest "a" with taskKind := .background }, .resume 0] ++
        .addRequest (shortRequest "b") ::
          [.addRequest (shortRequest "c"), .resume 2, .resume 1])).runtime.scheduler.get 1).map
        (fun q => (q.isTerminal, q.batchBudget 16)) = some (false, 2) := by decide +kernel
  obtain ⟨q, hq, hqs⟩ := Option.map_eq_some_iff.1 hq
  rw [Prod.mk.injEq] at hqs
  have hserved := foreground_served_within (deterministicExecutor false) rfl
    (RuntimeCore.neverRaises_deterministicExecutor false) smallConfig () (by decide +kernel) rfl
    (by decide +kernel) hq hqs.1
  refine ⟨by decide +kernel, by decide +kernel, ?_⟩
  refine hserved.2.trans ?_
  rw [show smallConfig.maxPrefillChunkTokens = 16 from rfl, hqs.2]
  decide +kernel

/-! ## Decoding without a break -/

/-- A sequence that decodes goes on to do so while it is live. -/
theorem decoding_step (hs : s.Sound) (hcache : ex.supportsPrefixCache = false) {id : SeqId}
    {q q' : Sequence} {e : Event} (hq : s.runtime.scheduler.get id = some q) (hdec : q.Decoding)
    (hq' : (s.step ex e).runtime.scheduler.get id = some q') (hlive : q'.isTerminal = false) :
    q'.Decoding := by
  have hrt := hs.runtime
  have hchange := step_change ex s hrt.wellFormed e
  obtain ⟨q₁, hq₁, hreq⟩ := hchange.get_some hrt hq
  obtain rfl : q' = q₁ := Option.some.inj (hq'.symm.trans hq₁)
  have hsched : q.numScheduledTokens ≤ q'.numScheduledTokens := by
    rcases hchange.live_cases hrt hcache hq' hlive with ⟨t, ht, -, -, -, hsched⟩ |
      ⟨request, sessionId, inputIds, -, hnew, -⟩ | ⟨sel, batch, r, c, hsel, rfl, hb, hx, rfl⟩
    · obtain rfl : q = t := Option.some.inj (hq.symm.trans ht)
      exact hsched.ge
    · exact absurd ((hrt.fresh id q hq).trans_le hnew) (lt_irrefl _)
    · obtain rfl : q = sel :=
        Option.some.inj (hq.symm.trans (hrt.wellFormed.selectNextSequence hsel).1)
      rcases (BatchContext.executed_of_eq hx).numScheduledTokens with heq | ⟨-, heq⟩
      · exact heq.ge
      · exact heq ▸ Nat.le_add_right _ _
  refine ⟨hlive, ?_, ?_, ?_⟩
  · have hcomplete := q.isPrefillComplete_iff.1 hdec.complete
    rw [Sequence.isPrefillComplete_iff, Sequence.numPromptTokens_of_request hreq,
      Sequence.numCachedTokens_of_request hreq]
    omega
  · rw [Sequence.taskKind_of_request hreq]
    exact hdec.kind
  · rw [Sequence.inputIds_of_request hreq]
    exact hdec.prompt

/-- From the first decode of a foreground or background request to its end, no batch of another one
is executed. -/
theorem decodes_alone (ex : ModelExecutor σ) (hcache : ex.supportsPrefixCache = false)
    (config : RuntimeConfig) (st : σ) (es es' : List Event) {id : SeqId} {q q' : Sequence}
    (hq : (Transition.run (step ex) (init config st) es).runtime.scheduler.get id = some q)
    (hdec : q.Decoding)
    (hq' : (Transition.run (step ex) (init config st) (es ++ es')).runtime.scheduler.get id =
      some q') (hlive : q'.isTerminal = false) :
    ∀ i ∈ Transition.outputs (step ex) startedIn
      (Transition.run (step ex) (init config st) es) es', i = id := by
  have hsound := sound_run ex config st es
  have hone := oneDecoding_run ex hcache config st es
  rw [Transition.run_append] at hq'
  generalize Transition.run (step ex) (init config st) es = s at hq hq' hsound hone
  induction es' generalizing s q with
  | nil =>
    intro i hi
    cases hi
  | cons e es' ih =>
    have hchange := step_change ex s hsound.runtime.wellFormed e
    obtain ⟨t, ht, hreq⟩ := hchange.get_some hsound.runtime hq
    have hid : t.seqId = id := (hsound.step e).runtime.wellFormed.seqId_eq _ _ ht
    have htl : t.isTerminal = false := by
      obtain ⟨t', ht', htl⟩ := stillLive_of_run t (hsound.step e) (hid ▸ ht) es'
        ⟨q', hid ▸ hq', hlive⟩
      obtain rfl : t = t' := Option.some.inj (ht.symm.trans (hid ▸ ht'))
      exact htl
    have hnext := ih (decoding_step hsound hcache hq hdec ht htl) (s.step ex e) ht hq'
      (hsound.step e) (hone.change hsound.runtime hcache hchange)
    intro i hi
    rcases List.mem_append.1 hi with hi | hi
    · obtain ⟨⟨sel, batch⟩, hbatch, rfl⟩ := List.mem_map.1 hi
      obtain ⟨hsel, hb, -⟩ := batchIn_some ex hsound (Option.mem_toList.1 hbatch)
      exact hone.selected hsound.runtime hq hdec hsel hb
    · exact hnext i hi

/-- A second request arrives while the first one decodes. Its stream decodes the first one. -/
theorem decodes_alone_secondRequest :
    let s := Transition.run (step (deterministicExecutor false)) (init smallConfig ())
      [.addRequest { shortRequest "a" with maxNewTokens := 3 }, .resume 0]
    Transition.outputs (step (deterministicExecutor false)) startedIn s
        [.addRequest (shortRequest "b"), .resume 1, .resume 0] = [0, 0] ∧
      ∀ i ∈ Transition.outputs (step (deterministicExecutor false)) startedIn s
        [.addRequest (shortRequest "b"), .resume 1, .resume 0], i = 0 := by
  have hq : ((Transition.run (step (deterministicExecutor false)) (init smallConfig ())
      [.addRequest { shortRequest "a" with maxNewTokens := 3 },
        .resume 0]).runtime.scheduler.get 0).map
        (fun q => ((q.isTerminal, q.isPrefillComplete), q.taskKind, q.inputIds)) =
      some ((false, true), .foreground, [104, 105]) := by decide +kernel
  have hq' : ((Transition.run (step (deterministicExecutor false)) (init smallConfig ())
      ([.addRequest { shortRequest "a" with maxNewTokens := 3 }, .resume 0] ++
        [.addRequest (shortRequest "b"), .resume 1, .resume 0])).runtime.scheduler.get 0).map
        Sequence.isTerminal = some false := by decide +kernel
  obtain ⟨q, hq, hqs⟩ := Option.map_eq_some_iff.1 hq
  obtain ⟨q', hq', hlive⟩ := Option.map_eq_some_iff.1 hq'
  simp only [Prod.mk.injEq] at hqs
  obtain ⟨⟨hql, hcomplete⟩, hkind, hids⟩ := hqs
  exact ⟨by decide +kernel, decodes_alone (deterministicExecutor false) rfl smallConfig () _ _ hq
    ⟨hql, hcomplete, .inl hkind, by rw [hids]; simp⟩ hq' hlive⟩

end ServerState

end SoloRT
