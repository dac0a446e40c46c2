import SoloRT.ForegroundFirst
import SoloRT.Solo

/-!
# One sequence decodes at a time

The scheduler prefers the decodes of foreground and background sequences to every prefill. So a
prefill goes on only while none of them decodes, and on an executor without a prefix cache at
most one of them is past its prefill (`OneDecoding`). Until it ends, all batches are its own
(`OneDecoding.selected`). A branch has no such right : it decodes after the prefills of the
foreground.
-/

namespace SoloRT

/-- A live sequence of the foreground or background, past the prefill of its prompt. -/
structure Sequence.Decoding (q : Sequence) : Prop where
  live : q.isTerminal = false
  complete : q.isPrefillComplete = true
  kind : q.taskKind = .foreground ∨ q.taskKind = .background
  prompt : q.inputIds ≠ []

namespace RuntimeCore

variable {σ : Type} {ex : ModelExecutor σ} {rt rt' : RuntimeCore σ} {e : Event} {id : SeqId}
  {q q' sel : Sequence}

/-- What a change does to the sequence stored as `q'` after it : nothing that its batches could
tell, or it is added, or a batch of it is executed. -/
theorem Change.stored_cases (h : Change ex rt rt' e) (hrt : rt.Sound)
    (hcache : ex.supportsPrefixCache = false) (hq' : rt'.scheduler.get id = some q') :
    (∃ q, rt.scheduler.get id = some q ∧ q'.request = q.request ∧ q'.outputIds = q.outputIds ∧
        q'.numScheduledTokens = q.numScheduledTokens ∧
        (q'.isTerminal = false → q.isTerminal = false) ∧
        (q'.status = .finished → q.status = .finished)) ∨
      (∃ request : Request, ∃ sessionId inputIds, q' = request.sequence id sessionId inputIds
        { matchedTokens := 0, pages := [] } rt.now) ∨
      ∃ sel batch r c, rt.scheduler.selectNextSequence = some sel ∧ sel.seqId = id ∧
        rt.scheduler.buildBatch none sel.scheduled = .ok batch ∧
        BatchContext.Executed ex (rt.context sel.scheduled) batch r c ∧ q' = c.sequence := by
  have hput : ∀ {s t : Sequence}, rt.scheduler.get s.seqId = some s → t.request = s.request →
      t.outputIds = s.outputIds → t.numScheduledTokens = s.numScheduledTokens →
      (t.isTerminal = false → s.isTerminal = false) →
      (t.status = .finished → s.status = .finished) → rt'.scheduler = rt.scheduler.put t →
      ∃ q, rt.scheduler.get id = some q ∧ q'.request = q.request ∧ q'.outputIds = q.outputIds ∧
        q'.numScheduledTokens = q.numScheduledTokens ∧
        (q'.isTerminal = false → q.isTerminal = false) ∧
        (q'.status = .finished → q.status = .finished) := by
    intro s t hs hreq hout hsched hlive hfin hput
    rw [hput] at hq'
    rcases get_put_cases hq' with ⟨hid, rfl⟩ | ⟨-, hq⟩
    · exact ⟨s, by rw [hid, Sequence.seqId_of_request hreq, hs], hreq, hout, hsched, hlive, hfin⟩
    · exact ⟨q', hq, rfl, rfl, rfl, fun h => h, fun h => h⟩
  cases h with
  | quiet h => exact .inl ⟨q', by rwa [h.scheduler] at hq', rfl, rfl, rfl, fun h => h, fun h => h⟩
  | added request seqId sessionId inputIds m hprompt hid hid' hm hs =>
    rw [hcache] at hm
    obtain rfl : m = { matchedTokens := 0, pages := [] } := congrArg Prod.fst hm
    rw [hs] at hq'
    rcases get_put_cases hq' with ⟨hid₀, rfl⟩ | ⟨-, hq⟩
    · obtain rfl : id = seqId := hid₀
      exact .inr (.inl ⟨request, sessionId, inputIds, rfl⟩)
    · exact .inl ⟨q', hq, rfl, rfl, rfl, fun h => h, fun h => h⟩
  | cancelled s b hget hlive h =>
    exact .inl (hput (t := withAppended s.markCancelled b) hget rfl rfl rfl (fun _ => hlive)
      (fun h => by cases h) h.scheduler)
  | finished s b hget hdone h =>
    exact .inl (hput (t := withAppended s b) hget rfl rfl rfl (fun h => h) (fun h => h) h.scheduler)
  | selected s hsel h =>
    obtain ⟨hget, hlive⟩ := hrt.wellFormed.selectNextSequence hsel
    exact .inl (hput (t := s.scheduled) hget rfl rfl rfl (fun _ => hlive) (fun h => by cases h)
      h.scheduler)
  | executed s batch r c hsel hb hx h =>
    subst h
    have hx := BatchContext.executed_of_eq hx
    rcases get_put_cases hq' with ⟨hid, rfl⟩ | ⟨-, hq⟩
    · exact .inr (.inr ⟨s, batch, r, c, hsel, (hid.trans hx.seqId).symm, hb, hx, rfl⟩)
    · exact .inl ⟨q', hq, rfl, rfl, rfl, fun h => h, fun h => h⟩
  | evicted n h =>
    subst h
    exact .inl ⟨q', hq', rfl, rfl, rfl, fun h => h, fun h => h⟩

/-- At most one foreground or background sequence is past its prefill, but for those with an
empty prompt, for which no batch can be built. -/
structure OneDecoding (rt : RuntimeCore σ) : Prop where
  uncached : ∀ id q, rt.scheduler.get id = some q → q.numCachedTokens = 0
  prompt : ∀ id q, rt.scheduler.get id = some q → q.numPromptTokens = q.inputIds.length
  empty : ∀ id q, rt.scheduler.get id = some q → q.inputIds = [] → q.outputIds = []
  unique : ∀ i j q q', rt.scheduler.get i = some q → rt.scheduler.get j = some q' →
    q.Decoding → q'.Decoding → i = j

namespace OneDecoding

/-- No other sequence with a prompt is selected while a foreground or background sequence
decodes. -/
theorem seqId_eq (h : rt.OneDecoding) (hrt : rt.Sound) (hq : rt.scheduler.get id = some q)
    (hdecoding : q.Decoding) (hsel : rt.scheduler.selectNextSequence = some sel)
    (hne : sel.inputIds ≠ []) : sel.seqId = id := by
  obtain ⟨hget, hlive⟩ := hrt.wellFormed.selectNextSequence hsel
  have hid : q.seqId = id := hrt.wellFormed.seqId_eq _ _ hq
  have hle := InteractiveScheduler.priority_selected_le hsel
    (hrt.wellFormed.mem_candidates.2 ⟨hid ▸ hq, hdecoding.live⟩)
  rw [effectivePriority_eq_zero.2 ⟨hdecoding.complete, hdecoding.kind⟩] at hle
  obtain ⟨hcomplete, hkind⟩ := effectivePriority_eq_zero.1 (Nat.le_zero.1 hle)
  exact h.unique _ _ sel q hget hq ⟨hlive, hcomplete, hkind, hne⟩ hdecoding

/-- A batch is built for a sequence with a prompt only. -/
theorem inputIds_ne_nil (h : rt.OneDecoding) (hrt : rt.Sound)
    (hsel : rt.scheduler.selectNextSequence = some sel) {batch : Batch}
    (hb : rt.scheduler.buildBatch none sel.scheduled = .ok batch) : sel.inputIds ≠ [] := by
  obtain ⟨hget, -⟩ := hrt.wellFormed.selectNextSequence hsel
  intro hin
  have hfails := Simulation.buildBatch_empty (q := sel.scheduled) rt.scheduler hin
    (h.empty _ sel hget hin) (h.prompt _ sel hget)
  rw [hb] at hfails
  cases hfails

/-- While a foreground or background sequence decodes, all batches are its own. -/
theorem selected (h : rt.OneDecoding) (hrt : rt.Sound) (hq : rt.scheduler.get id = some q)
    (hdecoding : q.Decoding) (hsel : rt.scheduler.selectNextSequence = some sel) {batch : Batch}
    (hb : rt.scheduler.buildBatch none sel.scheduled = .ok batch) : sel.seqId = id :=
  h.seqId_eq hrt hq hdecoding hsel (h.inputIds_ne_nil hrt hsel hb)

theorem change (h : rt.OneDecoding) (hrt : rt.Sound) (hcache : ex.supportsPrefixCache = false)
    (hchange : Change ex rt rt' e) : rt'.OneDecoding := by
  have hreq : ∀ {id q'}, rt'.scheduler.get id = some q' → q'.numCachedTokens = 0 ∧
      q'.numPromptTokens = q'.inputIds.length ∧ (q'.inputIds = [] → q'.outputIds = []) := by
    intro id q' hq'
    rcases hchange.stored_cases hrt hcache hq' with ⟨q, hq, hreq, hout, -⟩ |
      ⟨request, sessionId, inputIds, rfl⟩ | ⟨sel, batch, r, c, hsel, hid, hb, hx, rfl⟩
    · rw [Sequence.numCachedTokens_of_request hreq, Sequence.numPromptTokens_of_request hreq,
        Sequence.inputIds_of_request hreq, hout]
      exact ⟨h.uncached _ q hq, h.prompt _ q hq, h.empty _ q hq⟩
    · exact ⟨rfl, rfl, fun _ => rfl⟩
    · obtain ⟨hget, -⟩ := hrt.wellFormed.selectNextSequence hsel
      have hsame : c.sequence.request = sel.request := hx.request
      rw [Sequence.numCachedTokens_of_request hsame, Sequence.numPromptTokens_of_request hsame,
        Sequence.inputIds_of_request hsame]
      exact ⟨h.uncached _ sel hget, h.prompt _ sel hget,
        fun hin => absurd hin (h.inputIds_ne_nil hrt hsel hb)⟩
  -- a sequence that decodes after the change did so before, or the batch was its own
  have hback : ∀ {id q'}, rt'.scheduler.get id = some q' → q'.Decoding →
      (∃ q, rt.scheduler.get id = some q ∧ q.Decoding) ∨
        ∃ sel, rt.scheduler.selectNextSequence = some sel ∧ sel.seqId = id ∧ sel.inputIds ≠ [] := by
    intro id q' hq' hdecoding
    rcases hchange.stored_cases hrt hcache hq' with ⟨q, hq, hreq, -, hsched, hlive, -⟩ |
      ⟨request, sessionId, inputIds, rfl⟩ | ⟨sel, batch, r, c, hsel, hid, hb, hx, rfl⟩
    · have hcomplete := q'.isPrefillComplete_iff.1 hdecoding.complete
      rw [Sequence.numPromptTokens_of_request hreq, Sequence.numCachedTokens_of_request hreq,
        hsched] at hcomplete
      refine .inl ⟨q, hq, hlive hdecoding.live, q.isPrefillComplete_iff.2 hcomplete, ?_, ?_⟩
      · rw [← Sequence.taskKind_of_request hreq]
        exact hdecoding.kind
      · rw [← Sequence.inputIds_of_request hreq]
        exact hdecoding.prompt
    · have hcomplete := Sequence.isPrefillComplete_iff _ |>.1 hdecoding.complete
      exact absurd (List.length_eq_zero_iff.1 (Nat.le_zero.1 hcomplete)) hdecoding.prompt
    · have hsame : c.sequence.request = sel.request := hx.request
      exact .inr ⟨sel, hsel, hid, Sequence.inputIds_of_request hsame ▸ hdecoding.prompt⟩
  refine ⟨fun _ _ hq => (hreq hq).1, fun _ _ hq => (hreq hq).2.1, fun _ _ hq => (hreq hq).2.2, ?_⟩
  intro i j q q' hi hj hdecoding hdecoding'
  rcases hback hi hdecoding with ⟨p, hp, hpd⟩ | ⟨sel, hsel, rfl, hne⟩ <;>
    rcases hback hj hdecoding' with ⟨p', hp', hpd'⟩ | ⟨sel', hsel', rfl, hne'⟩
  · exact h.unique i j p p' hp hp' hpd hpd'
  · exact (h.seqId_eq hrt hp hpd hsel' hne').symm
  · exact h.seqId_eq hrt hp' hpd' hsel hne
  · obtain rfl : sel = sel' := Option.some.inj (hsel.symm.trans hsel')
    rfl

end OneDecoding

end RuntimeCore

/-- In every state of a run at most one foreground or background sequence decodes. -/
theorem oneDecoding_run {σ : Type} (ex : ModelExecutor σ) (hcache : ex.supportsPrefixCache = false)
    (config : RuntimeConfig) (st : σ) (es : List Event) :
    (Transition.run (ServerState.step ex) (ServerState.init config st) es).runtime.OneDecoding := by
  have hinit : (ServerState.init config st).runtime.OneDecoding := by
    constructor <;> simp
  have hstep : ∀ (s : ServerState σ) e, s.Sound ∧ s.runtime.OneDecoding →
      (s.step ex e).Sound ∧ (s.step ex e).runtime.OneDecoding := fun s e h =>
    ⟨h.1.step e, h.2.change h.1.runtime hcache
      (ServerState.step_change ex s h.1.runtime.wellFormed e)⟩
  exact (Transition.run_invariant' hstep es ⟨ServerState.sound_init config st, hinit⟩).2

end SoloRT
