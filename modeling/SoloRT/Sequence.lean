import Mathlib.Data.Rat.Defs
import Mathlib.Data.Finset.Basic
import Mathlib.Data.List.Forall2
import Mathlib.Logic.Function.Basic

/-!
# Sequences and batches

`Sequence` is the state of one request (`core/sequence.py`) : its prompt, the tokens
generated so far, its scheduling progress and its page table. `Batch` is one unit of work
handed to an executor (`core/batch.py`), a prefill chunk or one decode step of a single
sequence.

A `Sequence` object is shared by the scheduler, the runtime and the streams. The model
keeps the one copy in the scheduler's dictionary and passes its id. Ids are the numbers
of `uuid4` calls, which do not repeat. `last_active_ts` and `kv_precision` are left out :
nothing reads them.
-/

namespace SoloRT

/-- A token id, as the tokenizers and models exchange it. -/
abbrev TokenId := ℤ

/-- The number of the `uuid4` call that named a sequence. -/
abbrev SeqId := ℕ

abbrev SessionId := String

/-- A physical KV page. -/
abbrev PageId := ℕ

/-- The position of a `PrefixCacheEntry` object among those created so far. -/
abbrev EntryId := ℕ

/-- A reading of `time.time()`. Only the order of two readings matters. -/
abbrev Timestamp := ℕ

/-- A Python string, as the list of its characters. -/
abbrev Text := List Char

/-! ## Exceptions -/

/-- The exception classes that the modelled code raises, those of a broken connection included. -/
inductive ErrorKind
  | pageAllocationError
  | valueError
  | indexError
  | runtimeError
  | typeError
  | overflowError
  | stopIteration
  | attributeError
  | keyError
  | incompleteRead
  | osError
  deriving DecidableEq, Repr

/-- An exception object. -/
structure PyError where
  kind : ErrorKind
  message : String
  deriving DecidableEq, Repr

/-- What calls return of which none raises. -/
theorem forall₂_of_mapM_ok {α β : Type} {f : α → Except PyError β} : ∀ {l : List α} {r : List β},
    l.mapM f = .ok r → List.Forall₂ (fun x y => f x = .ok y) l r
  | [], r, h => by
    cases h
    exact .nil
  | x :: l, r, h => by
    rw [List.mapM_cons] at h
    cases hx : f x with
    | error e => simp [hx, bind, Except.bind] at h
    | ok y =>
      cases hl : l.mapM f with
      | error e => simp [hx, hl, bind, Except.bind] at h
      | ok ys =>
        simp only [hx, hl, bind, Except.bind, pure, Except.pure, Except.ok.injEq] at h
        subst h
        exact .cons hx (forall₂_of_mapM_ok hl)

/-- What a list of calls raises is raised by one of them. -/
theorem exists_error_of_mapM {α β : Type} {f : α → Except PyError β} {e : PyError} :
    ∀ {l : List α}, l.mapM f = .error e → ∃ x ∈ l, f x = .error e
  | [], h => by cases h
  | x :: l, h => by
    rw [List.mapM_cons] at h
    cases hx : f x with
    | error e' =>
      obtain rfl : e' = e := by simpa [hx, bind, Except.bind] using h
      exact ⟨x, by simp, hx⟩
    | ok y =>
      cases hl : l.mapM f with
      | error e' =>
        obtain rfl : e' = e := by simpa [hx, hl, bind, Except.bind] using h
        obtain ⟨x', hmem, hx'⟩ := exists_error_of_mapM hl
        exact ⟨x', List.mem_cons_of_mem x hmem, hx'⟩
      | ok ys => simp [hx, hl, bind, Except.bind, pure, Except.pure] at h

/-! ## Sequences -/

inductive SequenceStatus
  | waiting
  | running
  | finished
  | cancelled
  deriving DecidableEq, Repr

inductive BatchPhase
  | prefill
  | decode
  deriving DecidableEq, Repr

inductive TaskKind
  | foreground
  | background
  | branch
  | cacheMaintenance
  deriving DecidableEq, Repr

inductive SchedulerPriority
  | foregroundDecode
  | foregroundPrefill
  | branchDecode
  | backgroundPrefill
  | cacheMaintenance
  deriving DecidableEq, Repr

/-- The value of the `IntEnum` member. -/
def SchedulerPriority.value : SchedulerPriority → ℕ
  | .foregroundDecode => 0
  | .foregroundPrefill => 1
  | .branchDecode => 2
  | .backgroundPrefill => 3
  | .cacheMaintenance => 4

/-- The entries of `Sequence.metadata` that the runtime and the executors read. A missing
key is `none`. -/
structure SequenceMetadata where
  responseText : Text := []
  responseAppended : Bool := false
  temperature : Option ℚ := none
  topP : Option ℚ := none
  topK : Option ℤ := none
  repetitionPenalty : Option ℚ := none
  maxRepeatedTokenRun : Option ℤ := none
  deriving DecidableEq, Repr

structure Sequence where
  seqId : SeqId
  sessionId : SessionId
  inputIds : List TokenId
  maxNewTokens : ℕ
  outputIds : List TokenId := []
  status : SequenceStatus := .waiting
  priority : SchedulerPriority := .foregroundPrefill
  taskKind : TaskKind := .foreground
  numPromptTokens : ℕ := 0
  numCachedTokens : ℕ := 0
  numScheduledTokens : ℕ := 0
  stopTokenIds : List TokenId := []
  blockTable : List PageId := []
  cacheHandle : Option EntryId := none
  metadata : SequenceMetadata := {}
  createdTs : Timestamp := 0
  deriving DecidableEq, Repr

namespace Sequence

variable (s : Sequence)

/-- `__post_init__`. -/
def postInit : Sequence :=
  if s.numPromptTokens = 0 then { s with numPromptTokens := s.inputIds.length } else s

def remainingPrefillTokens : ℕ :=
  s.numPromptTokens - (s.numCachedTokens + s.numScheduledTokens)

def generatedTokens : ℕ :=
  s.outputIds.length

def isPrefillComplete : Bool :=
  s.remainingPrefillTokens = 0

def isTerminal : Bool :=
  s.status = .finished || s.status = .cancelled

def markRunning : Sequence :=
  { s with status := .running }

def markFinished : Sequence :=
  { s with status := .finished }

def markCancelled : Sequence :=
  { s with status := .cancelled }

theorem isPrefillComplete_iff :
    s.isPrefillComplete = true ↔ s.numPromptTokens ≤ s.numCachedTokens + s.numScheduledTokens := by
  simp [isPrefillComplete, remainingPrefillTokens, Nat.sub_eq_zero_iff_le]

theorem isTerminal_iff : s.isTerminal = true ↔ s.status = .finished ∨ s.status = .cancelled := by
  simp [isTerminal]

@[simp] theorem isTerminal_markRunning : s.markRunning.isTerminal = false := rfl

@[simp] theorem isTerminal_markFinished : s.markFinished.isTerminal = true := rfl

@[simp] theorem isTerminal_markCancelled : s.markCancelled.isTerminal = true := rfl

end Sequence

/-! ## Batches -/

/-- One batch. `seqs` always holds one sequence, kept here by its id. -/
structure Batch where
  phase : BatchPhase
  seqId : SeqId
  inputIds : List TokenId
  positions : List ℕ
  slotMapping : Option (List ℕ) := none
  pageIndptr : Option (List ℕ) := none
  pageIndices : Option (List PageId) := none
  lastPageLen : Option (List ℕ) := none
  deriving DecidableEq, Repr

namespace BatchBuilder

def buildPrefill (sequence : Sequence) (chunkTokens : List TokenId) : Batch :=
  let startPos := sequence.numCachedTokens + sequence.numScheduledTokens
  { phase := .prefill
    seqId := sequence.seqId
    inputIds := chunkTokens
    positions := List.range' startPos chunkTokens.length
    pageIndices := some sequence.blockTable }

/-- `input_ids[-1]` of an empty prompt is an `IndexError`. -/
def buildDecode (sequence : Sequence) : Except PyError Batch :=
  let position := sequence.numPromptTokens + sequence.outputIds.length
  let lastToken := if sequence.outputIds = [] then sequence.inputIds.getLast?
    else sequence.outputIds.getLast?
  match lastToken with
  | none => .error ⟨.indexError, "list index out of range"⟩
  | some lastToken =>
    .ok
      { phase := .decode
        seqId := sequence.seqId
        inputIds := [lastToken]
        positions := [position]
        pageIndices := some sequence.blockTable }

theorem buildDecode_ok {sequence : Sequence} {batch : Batch}
    (h : buildDecode sequence = .ok batch) :
    batch.phase = .decode ∧ batch.seqId = sequence.seqId ∧
      batch.positions = [sequence.numPromptTokens + sequence.outputIds.length] := by
  unfold buildDecode at h
  dsimp only at h
  split at h
  · cases h
  · cases h
    exact ⟨rfl, rfl, rfl⟩

end BatchBuilder

end SoloRT
