import SoloRT.Sequence
import SoloRT.StableSort
import Mathlib.Data.Prod.Lex
import Mathlib.Order.Lattice.Nat

/-!
# The interactive scheduler

`InteractiveScheduler` keeps every sequence in a dictionary and their ids in arrival
order. `selectNextSequence` sorts the sequences that are not terminal by
`(priority, created_ts)` and takes the first. Python's sort is stable, so among equal keys
the earliest arrival is chosen (`StableSort`). `buildNextBatch` marks that sequence
running and builds its next batch : a decode step if its prefill is complete, else a
prefill chunk.

What a call can do is said once : `buildNextBatch` changes the selected sequence only
(`buildNextBatch_cases`), and there only its status and its cached priority
(`Sequence.scheduled`).
-/

namespace SoloRT

structure InteractiveScheduler where
  maxPrefillChunkTokens : ℕ
  /-- The constructor raises `ValueError` otherwise. -/
  maxPrefillChunkTokens_pos : 0 < maxPrefillChunkTokens
  sequences : SeqId → Option Sequence
  order : List SeqId

namespace InteractiveScheduler

/-- A scheduler with no sequences. -/
def empty (maxPrefillChunkTokens : ℕ) (h : 0 < maxPrefillChunkTokens) : InteractiveScheduler :=
  ⟨maxPrefillChunkTokens, h, fun _ => none, []⟩

variable (σ : InteractiveScheduler)

def get (seqId : SeqId) : Option Sequence :=
  σ.sequences seqId

/-- Write back a sequence object that was changed in place. -/
def put (sequence : Sequence) : InteractiveScheduler :=
  { σ with sequences := Function.update σ.sequences sequence.seqId (some sequence) }

def addSequence (sequence : Sequence) : InteractiveScheduler :=
  { σ.put sequence with order := σ.order ++ [sequence.seqId] }

def cancel (seqId : SeqId) : Bool × InteractiveScheduler :=
  match σ.get seqId with
  | none => (false, σ)
  | some sequence =>
    if sequence.isTerminal then (false, σ) else (true, σ.put sequence.markCancelled)

end InteractiveScheduler

/-- `_effective_priority`. -/
def effectivePriority (sequence : Sequence) : SchedulerPriority :=
  if sequence.taskKind = .cacheMaintenance then .cacheMaintenance
  else if sequence.isPrefillComplete then
    if sequence.taskKind = .branch then .branchDecode else .foregroundDecode
  else if sequence.taskKind = .background then .backgroundPrefill
  else .foregroundPrefill

/-- The selected sequence after `mark_running` and the priority write. -/
def Sequence.scheduled (sequence : Sequence) : Sequence :=
  { sequence.markRunning with priority := effectivePriority sequence.markRunning }

/-- The sort key `(effective_priority, created_ts)`. -/
def sortKey (sequence : Sequence) : ℕ ×ₗ ℕ :=
  toLex ((effectivePriority sequence).value, sequence.createdTs)

/-- The order in which the scheduler sorts its candidates. -/
def ScheduledBefore (s t : Sequence) : Prop :=
  sortKey s ≤ sortKey t

instance : DecidableRel ScheduledBefore :=
  fun s t => inferInstanceAs (Decidable (sortKey s ≤ sortKey t))

instance : IsTrans Sequence ScheduledBefore :=
  ⟨fun _ _ _ => le_trans⟩

instance : Std.Total ScheduledBefore :=
  ⟨fun _ _ => le_total _ _⟩

theorem scheduledBefore_iff {s t : Sequence} : ScheduledBefore s t ↔
    (effectivePriority s).value < (effectivePriority t).value ∨
      (effectivePriority s).value = (effectivePriority t).value ∧ s.createdTs ≤ t.createdTs :=
  Prod.Lex.toLex_le_toLex

@[simp] theorem Sequence.scheduled_seqId (s : Sequence) : s.scheduled.seqId = s.seqId := rfl

@[simp] theorem Sequence.scheduled_status (s : Sequence) : s.scheduled.status = .running := rfl

namespace InteractiveScheduler

variable (σ : InteractiveScheduler)

/-- The sequences that are not terminal, in arrival order. -/
def candidates : List Sequence :=
  (σ.order.filterMap σ.sequences).filter fun s => !s.isTerminal

def selectNextSequence : Option Sequence :=
  (σ.candidates.insertionSort ScheduledBefore).head?

/-- The batch that `build_next_batch` builds for the sequence it selected. A missing or
zero `token_budget` is the chunk size. -/
def buildBatch (tokenBudget : Option ℕ) (sequence : Sequence) : Except PyError Batch :=
  if sequence.isPrefillComplete then BatchBuilder.buildDecode sequence
  else
    let budget := if tokenBudget.getD 0 = 0 then σ.maxPrefillChunkTokens else tokenBudget.getD 0
    let chunkSize := min (min sequence.remainingPrefillTokens budget) σ.maxPrefillChunkTokens
    let start := sequence.numCachedTokens + sequence.numScheduledTokens
    .ok (BatchBuilder.buildPrefill sequence ((sequence.inputIds.drop start).take chunkSize))

def buildNextBatch (tokenBudget : Option ℕ) :
    Except PyError (Option Batch) × InteractiveScheduler :=
  match σ.selectNextSequence with
  | none => (.ok none, σ)
  | some sequence =>
    ((σ.buildBatch tokenBudget sequence.scheduled).map some, σ.put sequence.scheduled)

end InteractiveScheduler

/-- The part of `postprocess_batch` that changes its sequence. -/
def Sequence.postprocessBatch (sequence : Sequence) (batch : Batch) : Sequence :=
  if sequence.status = .cancelled then sequence
  else if batch.phase = .prefill then
    { sequence with numScheduledTokens := sequence.numScheduledTokens + batch.inputIds.length }
  else sequence

def InteractiveScheduler.postprocessBatch (σ : InteractiveScheduler) (batch : Batch) :
    InteractiveScheduler :=
  match σ.get batch.seqId with
  | none => σ
  | some sequence => σ.put (sequence.postprocessBatch batch)

/-! ## What the operations do -/

namespace InteractiveScheduler

variable {σ : InteractiveScheduler}

@[simp] theorem put_sequences (s : Sequence) :
    (σ.put s).sequences = Function.update σ.sequences s.seqId (some s) := rfl

@[simp] theorem put_order (s : Sequence) : (σ.put s).order = σ.order := rfl

@[simp] theorem put_maxPrefillChunkTokens (s : Sequence) :
    (σ.put s).maxPrefillChunkTokens = σ.maxPrefillChunkTokens := rfl

theorem put_self {s : Sequence} (h : σ.get s.seqId = some s) : σ.put s = σ := by
  have hf : Function.update σ.sequences s.seqId (some s) = σ.sequences := by
    rw [← h]
    exact Function.update_eq_self _ _
  simp [put, hf]

theorem put_put (σ : InteractiveScheduler) {s t : Sequence} (h : s.seqId = t.seqId) :
    (σ.put s).put t = σ.put t := by
  simp [put, h]

theorem get_put (s : Sequence) : (σ.put s).get s.seqId = some s := by
  simp [get]

theorem get_put_of_ne {s : Sequence} {id : SeqId} (h : id ≠ s.seqId) :
    (σ.put s).get id = σ.get id := by
  simp [get, h]

theorem get_addSequence (σ : InteractiveScheduler) (s : Sequence) :
    (σ.addSequence s).get s.seqId = some s :=
  get_put s

theorem get_addSequence_of_ne {s : Sequence} {id : SeqId} (h : id ≠ s.seqId) :
    (σ.addSequence s).get id = σ.get id :=
  get_put_of_ne h

/-- Every sequence is stored under its own id, and the order lists the stored ids. -/
structure WellFormed (σ : InteractiveScheduler) : Prop where
  seqId_eq : ∀ id s, σ.sequences id = some s → s.seqId = id
  mem_order : ∀ id, id ∈ σ.order ↔ (σ.sequences id).isSome

theorem wellFormed_empty {n : ℕ} (h : 0 < n) : (empty n h).WellFormed :=
  ⟨by simp [empty], by simp [empty]⟩

theorem WellFormed.put {s t : Sequence} (hσ : σ.WellFormed)
    (hs : σ.sequences s.seqId = some t) : (σ.put s).WellFormed where
  seqId_eq id u hu := by
    by_cases h : id = s.seqId
    · subst h
      simp only [put_sequences, Function.update_self, Option.some.injEq] at hu
      rw [hu]
    · exact hσ.seqId_eq id u (by simpa [h] using hu)
  mem_order id := by
    by_cases h : id = s.seqId
    · subst h
      simp [hσ.mem_order, hs]
    · simp [hσ.mem_order, h]

theorem WellFormed.addSequence {s : Sequence} (hσ : σ.WellFormed) :
    (σ.addSequence s).WellFormed where
  seqId_eq id u hu := by
    by_cases h : id = s.seqId
    · subst h
      simp only [InteractiveScheduler.addSequence, put_sequences, Function.update_self,
        Option.some.injEq] at hu
      rw [hu]
    · exact hσ.seqId_eq id u (by simpa [InteractiveScheduler.addSequence, h] using hu)
  mem_order id := by
    by_cases h : id = s.seqId <;> simp [InteractiveScheduler.addSequence, hσ.mem_order, h]

theorem mem_candidates {s : Sequence} : s ∈ σ.candidates ↔
    (∃ id ∈ σ.order, σ.sequences id = some s) ∧ s.isTerminal = false := by
  simp [candidates]

theorem WellFormed.mem_candidates (hσ : σ.WellFormed) {s : Sequence} :
    s ∈ σ.candidates ↔ σ.sequences s.seqId = some s ∧ s.isTerminal = false := by
  rw [InteractiveScheduler.mem_candidates]
  refine and_congr_left fun _ => ⟨?_, fun h => ⟨s.seqId, ?_, h⟩⟩
  · rintro ⟨id, -, h⟩
    rw [hσ.seqId_eq id s h]
    exact h
  · rw [hσ.mem_order, h]
    rfl

/-- The selected sequence is a candidate with the least key. -/
theorem selectNextSequence_spec {s : Sequence} (h : σ.selectNextSequence = some s) :
    s ∈ σ.candidates ∧ ∀ t ∈ σ.candidates, ScheduledBefore s t :=
  StableSort.head?_insertionSort_spec h

theorem WellFormed.selectNextSequence (hσ : σ.WellFormed) {s : Sequence}
    (h : σ.selectNextSequence = some s) :
    σ.sequences s.seqId = some s ∧ s.isTerminal = false :=
  hσ.mem_candidates.1 (selectNextSequence_spec h).1

theorem selectNextSequence_eq_none_iff : σ.selectNextSequence = none ↔ σ.candidates = [] :=
  StableSort.head?_insertionSort_eq_none _

theorem exists_selected {s : Sequence} (hs : s ∈ σ.candidates) :
    ∃ sel, σ.selectNextSequence = some sel := by
  cases h : σ.selectNextSequence with
  | none =>
    rw [selectNextSequence_eq_none_iff] at h
    simp [h] at hs
  | some sel => exact ⟨sel, rfl⟩

/-- The candidates after a live sequence was replaced by another live one. -/
theorem WellFormed.candidates_put (hσ : σ.WellFormed) {s t : Sequence}
    (hs : σ.sequences s.seqId = some s) (hslive : s.isTerminal = false)
    (hid : t.seqId = s.seqId) (htlive : t.isTerminal = false) :
    (σ.put t).candidates = σ.candidates.map fun u => if u.seqId = s.seqId then t else u := by
  have hmap : σ.order.filterMap (σ.put t).sequences =
      (σ.order.filterMap σ.sequences).map fun u => if u.seqId = s.seqId then t else u := by
    rw [List.map_filterMap]
    refine List.filterMap_congr fun id _ => ?_
    by_cases h : id = s.seqId
    · subst h
      simp [hid, hs]
    · rw [put_sequences, hid, Function.update_of_ne h]
      cases hget : σ.sequences id with
      | none => rfl
      | some u => simp [hσ.seqId_eq id u hget, h]
  unfold candidates
  rw [put_order, hmap, List.filter_map]
  congr 1
  refine List.filter_congr fun u hu => ?_
  obtain ⟨id, -, hget⟩ := List.mem_filterMap.1 hu
  by_cases h : u.seqId = s.seqId
  · obtain rfl : u = s := by
      have hu' := hσ.seqId_eq id u hget
      rw [← hu', h, hs] at hget
      exact (Option.some.inj hget).symm
    simp [htlive, hslive]
  · simp [h]

/-- A selected sequence is selected again after a change that keeps its key. -/
theorem WellFormed.selectNextSequence_put (hσ : σ.WellFormed) {s t : Sequence}
    (hsel : σ.selectNextSequence = some s) (hid : t.seqId = s.seqId)
    (htlive : t.isTerminal = false) (hkey : sortKey t = sortKey s) :
    (σ.put t).selectNextSequence = some t := by
  obtain ⟨hs, hslive⟩ := hσ.selectNextSequence hsel
  have hkeys : ∀ u ∈ σ.candidates,
      sortKey (if u.seqId = s.seqId then t else u) = sortKey u := by
    intro u hu
    by_cases h : u.seqId = s.seqId
    · have hget := (hσ.mem_candidates.1 hu).1
      rw [h, hs] at hget
      rw [if_pos h, hkey, Option.some.inj hget]
    · rw [if_neg h]
  unfold InteractiveScheduler.selectNextSequence at hsel ⊢
  rw [hσ.candidates_put hs hslive hid htlive, ← List.map_insertionSort ScheduledBefore
    ScheduledBefore _ _ fun u hu v hv => by
      simp only [ScheduledBefore, hkeys u hu, hkeys v hv], List.head?_map, hsel]
  simp

/-- What `build_next_batch` can do : nothing at all, or select a sequence and build its
batch. -/
theorem buildNextBatch_cases (σ : InteractiveScheduler) (budget : Option ℕ) :
    (σ.selectNextSequence = none ∧ σ.buildNextBatch budget = (.ok none, σ)) ∨
      ∃ s, σ.selectNextSequence = some s ∧ σ.buildNextBatch budget =
        ((σ.buildBatch budget s.scheduled).map some, σ.put s.scheduled) := by
  unfold buildNextBatch
  cases h : σ.selectNextSequence with
  | none => exact .inl ⟨rfl, rfl⟩
  | some s => exact .inr ⟨s, rfl, rfl⟩

/-- The batch built for a sequence is its decode step exactly when its prefill is
complete. -/
theorem buildBatch_ok {budget : Option ℕ} {s : Sequence} {batch : Batch}
    (h : σ.buildBatch budget s = .ok batch) : batch.seqId = s.seqId ∧
      (batch.phase = .decode ↔ s.isPrefillComplete = true) := by
  unfold buildBatch at h
  by_cases hc : s.isPrefillComplete = true
  · rw [if_pos hc] at h
    obtain ⟨hp, hid, -⟩ := BatchBuilder.buildDecode_ok h
    exact ⟨hid, by simp [hp, hc]⟩
  · rw [if_neg hc] at h
    cases h
    exact ⟨rfl, by simp [BatchBuilder.buildPrefill, hc]⟩

/-- The tokens of a prefill chunk are the next ones of the prompt. -/
theorem buildBatch_inputIds {budget : Option ℕ} {s : Sequence} {batch : Batch}
    (h : σ.buildBatch budget s = .ok batch) (hb : batch.phase = .prefill) :
    batch.inputIds <+: s.inputIds.drop (s.numCachedTokens + s.numScheduledTokens) := by
  have hphase := buildBatch_ok h
  have hc : ¬s.isPrefillComplete = true := by
    rw [← hphase.2, hb]
    simp
  unfold buildBatch at h
  rw [if_neg hc] at h
  cases h
  exact List.take_prefix _ _

/-- A built batch belongs to the selected sequence. -/
theorem buildNextBatch_some {budget : Option ℕ} {batch : Batch} {σ' : InteractiveScheduler}
    (h : σ.buildNextBatch budget = (.ok (some batch), σ')) :
    ∃ s, σ.selectNextSequence = some s ∧ σ' = σ.put s.scheduled ∧
      σ.buildBatch budget s.scheduled = .ok batch := by
  rcases σ.buildNextBatch_cases budget with ⟨-, h'⟩ | ⟨s, hs, h'⟩
  · rw [h'] at h
    simp at h
  · rw [h', Prod.mk.injEq] at h
    refine ⟨s, hs, h.2.symm, ?_⟩
    cases hb : σ.buildBatch budget s.scheduled with
    | error e => simp [hb, Except.map] at h
    | ok b =>
      obtain rfl : b = batch := by simpa [hb, Except.map] using h.1
      rfl

end InteractiveScheduler

end SoloRT
