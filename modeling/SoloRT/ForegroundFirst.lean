import SoloRT.Runtime
import SoloRT.Transition

/-!
# Foreground first

A background sequence gets `BACKGROUND_PREFILL` while it is in prefill. Once its prefill
is complete it gets `FOREGROUND_DECODE`, since only branches have a decode priority of
their own, and then competes with the foreground by age.

A scheduler runs over any order of its operations (`SchedulerEvent`). `ForegroundFirst`
is the law of a state : no background or maintenance sequence is selected while a
foreground sequence is live, and a foreground sequence past its prefill is decoded at
once. A state obeys it exactly when every live background sequence past its prefill has an
older foreground sequence past its prefill ahead of it (`foregroundFirst_iff`).
-/

namespace SoloRT

/-! ## The law and its condition -/

namespace InteractiveScheduler

variable (σ : InteractiveScheduler)

/-- `s` is a live foreground sequence. -/
def LiveForeground (s : Sequence) : Prop :=
  s ∈ σ.candidates ∧ s.taskKind = .foreground

/-- `s` is a live foreground sequence past its prefill. -/
def DecodingForeground (s : Sequence) : Prop :=
  σ.LiveForeground s ∧ s.isPrefillComplete = true

/-- The law of a state. -/
structure ForegroundFirst : Prop where
  selected : ∀ fg, σ.LiveForeground fg → ∃ s, σ.selectNextSequence = some s ∧
    s.taskKind ≠ .background ∧ s.taskKind ≠ .cacheMaintenance
  decode : ∀ fg, σ.DecodingForeground fg → ∃ s, σ.selectNextSequence = some s ∧
    s.taskKind = .foreground ∧ ∀ budget, (σ.buildNextBatch budget).1 =
      (BatchBuilder.buildDecode s.scheduled).map some

/-- `s` was created before `t`, or arrived before it with the same time stamp. -/
def OlderThan (s t : Sequence) : Prop :=
  s.createdTs < t.createdTs ∨
    s.createdTs = t.createdTs ∧ σ.candidates.idxOf s < σ.candidates.idxOf t

/-- While a foreground sequence is live, every live background sequence past its prefill
has an older foreground sequence past its prefill. -/
def BackgroundDecodesYounger : Prop :=
  ∀ bg ∈ σ.candidates, bg.taskKind = .background → bg.isPrefillComplete = true →
    (∃ fg, σ.LiveForeground fg) → ∃ fg, σ.DecodingForeground fg ∧ σ.OlderThan fg bg

end InteractiveScheduler

/-! ## Priorities -/

theorem effectivePriority_foreground {s : Sequence} (h : s.taskKind = .foreground) :
    (effectivePriority s).value ≤ 1 := by
  unfold effectivePriority
  rw [h]
  simp only [reduceCtorEq, if_false]
  split_ifs <;> decide

/-- Priority 0 is the decode of a foreground or background sequence. -/
theorem effectivePriority_eq_zero {s : Sequence} : (effectivePriority s).value = 0 ↔
    s.isPrefillComplete = true ∧ (s.taskKind = .foreground ∨ s.taskKind = .background) := by
  unfold effectivePriority
  cases s.taskKind <;> cases s.isPrefillComplete <;> decide

/-- A background or maintenance sequence with a foreground priority is a background
sequence past its prefill. -/
theorem effectivePriority_le_one {s : Sequence}
    (hk : s.taskKind = .background ∨ s.taskKind = .cacheMaintenance)
    (h : (effectivePriority s).value ≤ 1) :
    s.taskKind = .background ∧ s.isPrefillComplete = true := by
  unfold effectivePriority at h
  revert h
  rcases hk with hk | hk <;> rw [hk] <;> cases s.isPrefillComplete <;> decide

namespace InteractiveScheduler

variable {σ : InteractiveScheduler}

/-- The selected sequence has the least priority value of the candidates. -/
theorem priority_selected_le {sel s : Sequence} (hsel : σ.selectNextSequence = some sel)
    (hs : s ∈ σ.candidates) : (effectivePriority sel).value ≤ (effectivePriority s).value := by
  rcases scheduledBefore_iff.1 ((selectNextSequence_spec hsel).2 s hs) with h | ⟨h, -⟩
  · exact h.le
  · exact h.le

/-- A candidate of the same priority is not older than the selected sequence. -/
theorem not_olderThan_selected {sel s : Sequence} (hsel : σ.selectNextSequence = some sel)
    (hs : s ∈ σ.candidates)
    (hp : (effectivePriority s).value = (effectivePriority sel).value) :
    ¬σ.OlderThan s sel := by
  have hbefore := scheduledBefore_iff.1 ((selectNextSequence_spec hsel).2 s hs)
  rintro (hlt | ⟨heq, hidx⟩)
  · rcases hbefore with h | ⟨-, h⟩
    · exact h.ne hp.symm
    · exact not_lt_of_ge h hlt
  · exact not_lt_of_ge (StableSort.idxOf_le_of_head?_insertionSort hsel
      (scheduledBefore_iff.2 (.inr ⟨hp, heq.le⟩))) hidx

/-- The batch built for a selected sequence past its prefill is its decode step. -/
theorem buildNextBatch_decode {sel : Sequence} (hsel : σ.selectNextSequence = some sel)
    (hc : sel.isPrefillComplete = true) (budget : Option ℕ) :
    (σ.buildNextBatch budget).1 = (BatchBuilder.buildDecode sel.scheduled).map some := by
  unfold buildNextBatch
  rw [hsel]
  dsimp only
  rw [buildBatch, if_pos (show sel.scheduled.isPrefillComplete = true from hc)]

/-- The condition rules out that a background sequence is selected. -/
theorem BackgroundDecodesYounger.selected_kind (h : σ.BackgroundDecodesYounger)
    {sel fg : Sequence} (hsel : σ.selectNextSequence = some sel) (hfg : σ.LiveForeground fg) :
    sel.taskKind ≠ .background ∧ sel.taskKind ≠ .cacheMaintenance := by
  rw [← not_or]
  intro hk
  have hle := (priority_selected_le hsel hfg.1).trans (effectivePriority_foreground hfg.2)
  obtain ⟨hbg, hc⟩ := effectivePriority_le_one hk hle
  obtain ⟨fg', ⟨⟨hmem, hkind⟩, hc'⟩, holder⟩ :=
    h sel (selectNextSequence_spec hsel).1 hbg hc ⟨fg, hfg⟩
  refine not_olderThan_selected hsel hmem ?_ holder
  rw [effectivePriority_eq_zero.2 ⟨hc', .inl hkind⟩, effectivePriority_eq_zero.2 ⟨hc, .inr hbg⟩]

/-- A state obeys the law exactly when its decoding background sequences are younger than
a decoding foreground sequence. -/
theorem foregroundFirst_iff : σ.ForegroundFirst ↔ σ.BackgroundDecodesYounger := by
  constructor
  · rintro h bg hbg hkind hc ⟨fg, hfg⟩
    obtain ⟨sel, hsel, hnb, -⟩ := h.selected fg hfg
    have hmem := (selectNextSequence_spec hsel).1
    have hbg0 : (effectivePriority bg).value = 0 := effectivePriority_eq_zero.2 ⟨hc, .inr hkind⟩
    have hsel0 : (effectivePriority sel).value = 0 := by
      have := priority_selected_le hsel hbg
      omega
    obtain ⟨hselc, hselk⟩ := effectivePriority_eq_zero.1 hsel0
    refine ⟨sel, ⟨⟨hmem, hselk.resolve_right hnb⟩, hselc⟩, ?_⟩
    -- the selected sequence comes before `bg` in the sort, and it is another sequence
    have hbefore := scheduledBefore_iff.1 ((selectNextSequence_spec hsel).2 bg hbg)
    rw [hbg0, hsel0] at hbefore
    have hts := (hbefore.resolve_left (lt_irrefl 0)).2
    rcases Nat.lt_or_ge sel.createdTs bg.createdTs with hlt | hge
    · exact .inl hlt
    · have heq : sel.createdTs = bg.createdTs := le_antisymm hts hge
      have hle := StableSort.idxOf_le_of_head?_insertionSort hsel
        (scheduledBefore_iff.2 (.inr ⟨hbg0.trans hsel0.symm, hge⟩))
      refine .inr ⟨heq, lt_of_le_of_ne hle fun hidx => ?_⟩
      rw [List.idxOf_inj hmem] at hidx
      exact hnb (hidx ▸ hkind)
  · intro h
    refine ⟨fun fg hfg => ?_, fun fg hfg => ?_⟩
    · obtain ⟨sel, hsel⟩ := exists_selected hfg.1
      exact ⟨sel, hsel, h.selected_kind hsel hfg⟩
    · obtain ⟨sel, hsel⟩ := exists_selected hfg.1.1
      have hzero : (effectivePriority sel).value = 0 := by
        have := priority_selected_le hsel hfg.1.1
        rw [effectivePriority_eq_zero.2 ⟨hfg.2, .inl hfg.1.2⟩] at this
        omega
      obtain ⟨hc, hk⟩ := effectivePriority_eq_zero.1 hzero
      exact ⟨sel, hsel, hk.resolve_right (h.selected_kind hsel hfg.1).1,
        buildNextBatch_decode hsel hc⟩

end InteractiveScheduler

/-! ## Runs of a scheduler -/

/-- One operation on a scheduler. `executeBatch` is what the execution of a batch does to
its sequence : the progress of a prefill chunk, or the samples of a decode. -/
inductive SchedulerEvent
  | addSequence (sequence : Sequence)
  | cancel (seqId : SeqId)
  | buildNextBatch (tokenBudget : Option ℕ)
  | executeBatch (batch : Batch) (samples : List SampleResult)
  deriving DecidableEq, Repr

namespace InteractiveScheduler

/-- The state after an operation. -/
def step (σ : InteractiveScheduler) : SchedulerEvent → InteractiveScheduler
  | .addSequence sequence => σ.addSequence sequence.postInit
  | .cancel seqId => (σ.cancel seqId).2
  | .buildNextBatch tokenBudget => (σ.buildNextBatch tokenBudget).2
  | .executeBatch batch samples =>
    match σ.get batch.seqId with
    | none => σ
    | some sequence =>
      if sequence.status = .cancelled then σ
      else
        match batch.phase with
        | .prefill => σ.postprocessBatch batch
        | .decode => σ.put (consumeSamples samples sequence {}).2.1

/-- In every run of a scheduler, every state obeys the law exactly when in every state the
decoding background sequences are younger than a decoding foreground sequence. -/
theorem foregroundFirst_run_iff (σ : InteractiveScheduler) (es : List SchedulerEvent) :
    (∀ es', es' <+: es → (Transition.run step σ es').ForegroundFirst) ↔
      ∀ es', es' <+: es → (Transition.run step σ es').BackgroundDecodesYounger :=
  forall₂_congr fun _ _ => foregroundFirst_iff

/-- A background request that has finished its prefill, and a younger foreground one. -/
def backgroundDecodeRun : List SchedulerEvent :=
  [ .addSequence
      { seqId := 0
        sessionId := "bg"
        inputIds := [5]
        maxNewTokens := 4
        taskKind := .background
        createdTs := 0 },
    .buildNextBatch none,
    .executeBatch { phase := .prefill, seqId := 0, inputIds := [5], positions := [0] } [],
    .addSequence
      { seqId := 1
        sessionId := "fg"
        inputIds := [7]
        maxNewTokens := 4
        createdTs := 1 } ]

/-- The background request is decoded although the foreground one is live. -/
theorem not_foregroundFirst_run : ¬∀ es : List SchedulerEvent,
    (Transition.run step (empty 16 (by decide)) es).ForegroundFirst := by
  intro h
  have hrun := h backgroundDecodeRun
  obtain ⟨sel, hsel, hnb, -⟩ := hrun.selected
    { seqId := 1
      sessionId := "fg"
      inputIds := [7]
      maxNewTokens := 4
      numPromptTokens := 1
      createdTs := 1 } ⟨by decide +kernel, rfl⟩
  have hbg : ((Transition.run step (empty 16 (by decide))
      backgroundDecodeRun).selectNextSequence.map Sequence.taskKind) = some .background := by
    decide +kernel
  rw [hsel] at hbg
  exact hnb (by simpa using hbg)

end InteractiveScheduler

end SoloRT
