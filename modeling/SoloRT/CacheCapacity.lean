import SoloRT.CacheReferences
import Mathlib.Data.Set.Card

/-!
# The size of the prefix cache

`insert` evicts down to `max_entries`, but only entries that are idle and not pinned. The runtime
pins every entry that it inserts, and `release` takes off a reference and leaves the pin. So no
entry of a runtime ever leaves its cache (`AllPinned.evict_entries`), and the cache has one entry
for each key that was inserted, however many these are (`keys_run`).

It is within its bound exactly as long as the prompts that were inserted have no more than
`max_entries` keys (`entriesBounded_iff`).
-/

namespace SoloRT

namespace PrefixCache

variable {c : PrefixCache}

/-- Every entry that was ever created is pinned. -/
def AllPinned (c : PrefixCache) : Prop :=
  ∀ id e, c.objects id = some e → e.pinned = true

/-- An eviction passes pinned entries by. -/
theorem AllPinned.evict_entries (h : c.AllPinned) (n : ℤ) :
    (c.evict n).2.entries = c.entries := by
  have hnone : c.evictable = [] := by
    rw [evictable, List.filter_eq_nil_iff]
    rintro ⟨id, e⟩ hmem
    simp [h id e (mem_residents.1 hmem).2]
  unfold evict
  split_ifs
  · rfl
  · simp [hnone]

theorem AllPinned.evict (h : c.AllPinned) (n : ℤ) : (c.evict n).2.AllPinned := by
  intro id e he
  rw [evict_objects] at he
  exact h id e he

theorem AllPinned.evictToCapacity_entries (h : c.AllPinned) :
    c.evictToCapacity.entries = c.entries := by
  unfold evictToCapacity
  dsimp only
  split_ifs
  · exact h.evict_entries _
  · rfl

/-- Changing a pinned entry and leaving it pinned. -/
theorem AllPinned.update (h : c.AllPinned) {id : EntryId} {e : PrefixCacheEntry}
    (he : e.pinned = true) :
    ({ c with objects := Function.update c.objects id (some e) } : PrefixCache).AllPinned := by
  intro i f hf
  by_cases hi : i = id
  · subst hi
    obtain rfl : e = f := by simpa using hf
    exact he
  · exact h i f (by simpa [hi] using hf)

theorem AllPinned.matchPrefix (h : c.AllPinned) (now : Timestamp) (tokenIds : List TokenId) :
    (c.matchPrefix now tokenIds).2.AllPinned ∧
      (c.matchPrefix now tokenIds).2.keys = c.keys := by
  rcases c.matchPrefix_cases now tokenIds with hm | ⟨id, e, he, -, -, hm⟩ <;> rw [hm]
  · exact ⟨h, rfl⟩
  · exact ⟨h.update (h id e he.2), rfl⟩

theorem AllPinned.release (h : c.AllPinned) (entry : Option EntryId) :
    (c.release entry).AllPinned ∧ (c.release entry).keys = c.keys := by
  rcases c.release_cases entry with hr | ⟨id, e, -, he, hr⟩ <;> rw [hr]
  · exact ⟨h, rfl⟩
  · exact ⟨h.update (h id e he), rfl⟩

/-- A pinned insert adds its key, and no other key leaves. -/
theorem AllPinned.insert (h : c.AllPinned) {tokenIds : List TokenId} {key : String}
    (hkey : c.makeKey tokenIds = .ok key) (now : Timestamp) (pages : List PageId) :
    (c.insert now tokenIds pages true).2.AllPinned ∧
      (c.insert now tokenIds pages true).2.keys =
        if key ∈ c.keys then c.keys else c.keys ++ [key] := by
  have hpinned : ∀ entries, ({ c with
      objects := Function.update c.objects c.nextEntryId (some
        { key, tokenIds, pages, tokenCount := tokenIds.length, pinned := true,
          lastAccessTs := now })
      nextEntryId := c.nextEntryId + 1
      entries } : PrefixCache).AllPinned := fun entries => h.update rfl
  simp only [PrefixCache.insert, hkey]
  refine ⟨fun id e he => ?_, ?_⟩
  · rw [evictToCapacity_objects] at he
    exact hpinned [] id e he
  · rw [keys, (hpinned _).evictToCapacity_entries]
    exact keys_dictSet key c.nextEntryId c.entries

end PrefixCache

/-! ## What executing a batch inserts -/

namespace BatchContext

variable {σ : Type} {ex : ModelExecutor σ} {c c' : BatchContext σ} {batch : Batch}
  {r : Except PyError (List Text)}

/-- The end of a prefill inserts the prompt with the pages that the sequence has then. -/
theorem Executed.inserts (h : Executed ex c batch r c') (hrun : c.sequence.status = .running)
    (hfills : FillsPrompt ex c batch r) : ∃ id,
      (c.prefixCache.insert c.now c.sequence.inputIds c'.sequence.blockTable true).1 = .ok id ∧
        c'.prefixCache =
          (c.prefixCache.insert c.now c.sequence.inputIds c'.sequence.blockTable true).2 := by
  obtain ⟨hsup, hnone, hphase, hlast, texts, hok⟩ := hfills
  cases h with
  | skipped hs =>
    rw [hrun] at hs
    cases hs
  | attachFailed | prefillFailed | decodeFailed => cases hok
  | decoded hs hb =>
    rw [hphase] at hb
    cases hb
  | @prefilled _ _ env' _ _ hs hb ha he hc =>
    rw [Sequence.postprocessBatch_prefill (s := (c.setEnv env').sequence) hs
      (ha.phase.trans hb), ha.inputIds] at hc
    rcases cachePrefix_cases hc with ⟨rfl, -⟩ | ⟨-, -, -, -, hid, rfl⟩
    · -- nothing keeps the insert from being tried
      unfold cachePrefix at hc
      rw [if_pos ⟨(Sequence.isPrefillComplete_iff _).2 hlast, hnone, hsup⟩] at hc
      split at hc
      · rw [hok] at hc
        cases hc
      · have hhandle := congrArg (fun p => p.2.sequence.cacheHandle) hc
        exact absurd (hhandle.trans hnone) (Option.some_ne_none _)
    · exact ⟨_, hid, rfl⟩

/-- Executing a batch adds the key of the prompt to the cache, if it ends the prefill of a
sequence without a handle. -/
theorem Executed.keys (h : Executed ex c batch r c') (hrun : c.sequence.status = .running)
    (hpin : c.prefixCache.AllPinned) : c'.prefixCache.AllPinned ∧
      ((c'.prefixCache.keys = c.prefixCache.keys ∧ ¬FillsPrompt ex c batch r) ∨
        FillsPrompt ex c batch r ∧ ∃ key, c.prefixCache.makeKey c.sequence.inputIds = .ok key ∧
          c'.prefixCache.keys = if key ∈ c.prefixCache.keys then c.prefixCache.keys
            else c.prefixCache.keys ++ [key]) := by
  rcases h.entries hrun with ⟨hsame, hnot⟩ | ⟨hfills, -⟩
  · rw [hsame]
    exact ⟨hpin, .inl ⟨rfl, hnot⟩⟩
  · obtain ⟨id, hid, hinsert⟩ := h.inserts hrun hfills
    cases hkey : c.prefixCache.makeKey c.sequence.inputIds with
    | error e =>
      rw [PrefixCache.insert, hkey] at hid
      cases hid
    | ok key =>
      rw [hinsert]
      obtain ⟨hpin', hkeys⟩ := hpin.insert hkey c.now c'.sequence.blockTable
      exact ⟨hpin', .inr ⟨hfills, key, rfl, hkeys⟩⟩

end BatchContext

/-! ## Runs -/

namespace ServerState

variable {σ : Type} {ex : ModelExecutor σ} {s : ServerState σ}

/-- The step executes, without an exception, the last prefill chunk of a sequence that holds no
handle, and `key` is the key of its prompt. -/
def InsertsKey (ex : ModelExecutor σ) (key : String) (s : ServerState σ) (e : Event) : Prop :=
  ∃ id q sel batch, e = .resume id ∧ (s.streams id).phase = .loop ∧
    s.runtime.scheduler.get id = some q ∧ q.isTerminal = false ∧
    s.runtime.scheduler.selectNextSequence = some sel ∧
    s.runtime.scheduler.buildBatch none sel.scheduled = .ok batch ∧
    BatchContext.FillsPrompt ex (s.runtime.context sel.scheduled) batch
      ((s.runtime.context sel.scheduled).executeBatch ex batch).1 ∧
    s.runtime.prefixCache.makeKey sel.inputIds = .ok key

/-- A new request looks the prefix of its prompt up, or leaves the cache alone. -/
theorem addRequest_prefixCache (ex : ModelExecutor σ) (rt : RuntimeCore σ) (request : Request) :
    (rt.addRequest ex request).2.prefixCache = rt.prefixCache ∨
      ∃ inputIds, (rt.addRequest ex request).2.prefixCache =
        (rt.prefixCache.matchPrefix rt.now inputIds).2 := by
  rcases RuntimeCore.addRequest_cases ex rt request with
    ⟨e, -, hcore, -⟩ | ⟨seqId, sid, inputIds, m, -, -, -, -, hm, -⟩
  · exact .inl hcore.prefixCache
  · split_ifs at hm
    · exact .inr ⟨inputIds, congrArg Prod.snd hm⟩
    · exact .inl (congrArg Prod.snd hm)

/-- The key that a turn inserts is that of the batch it executes. -/
theorem insertsKey_resume_iff (ex : ModelExecutor σ) {id : SeqId} {q sel : Sequence} {batch : Batch}
    (hq : s.runtime.scheduler.get id = some q) (hlive : q.isTerminal = false)
    (hloop : (s.streams id).phase = .loop)
    (hsel : s.runtime.scheduler.selectNextSequence = some sel)
    (hb : s.runtime.scheduler.buildBatch none sel.scheduled = .ok batch) (key : String) :
    InsertsKey ex key s (.resume id) ↔
      BatchContext.FillsPrompt ex (s.runtime.context sel.scheduled) batch
          ((s.runtime.context sel.scheduled).executeBatch ex batch).1 ∧
        s.runtime.prefixCache.makeKey sel.inputIds = .ok key := by
  constructor
  · rintro ⟨_, q', sel', batch', ⟨⟩, -, -, -, hsel', hb', hfills, hkey⟩
    cases hsel.symm.trans hsel'
    cases hb.symm.trans hb'
    exact ⟨hfills, hkey⟩
  · rintro ⟨hfills, hkey⟩
    exact ⟨id, q, sel, batch, rfl, hloop, hq, hlive, hsel, hb, hfills, hkey⟩

/-- A step adds the key that it inserts, and no other key comes or goes. -/
theorem keys_step (hs : s.Sound) (hpin : s.runtime.prefixCache.AllPinned) (e : Event) :
    (s.step ex e).runtime.prefixCache.AllPinned ∧
      (((s.step ex e).runtime.prefixCache.keys = s.runtime.prefixCache.keys ∧
        ∀ key, ¬InsertsKey ex key s e) ∨
      ∃ key, (∀ key', InsertsKey ex key' s e ↔ key' = key) ∧
        (s.step ex e).runtime.prefixCache.keys =
          if key ∈ s.runtime.prefixCache.keys then s.runtime.prefixCache.keys
          else s.runtime.prefixCache.keys ++ [key]) := by
  have hwf := hs.runtime.wellFormed
  -- only a turn inserts a key
  have hother : ∀ {e : Event}, (∀ id, e ≠ .resume id) → ∀ key, ¬InsertsKey ex key s e := by
    rintro e he key ⟨id, -, -, -, rfl, -⟩
    exact he id rfl
  cases e with
  | addRequest request =>
    simp only [step]
    rcases addRequest_prefixCache ex s.runtime request with heq | ⟨inputIds, heq⟩ <;> rw [heq]
    · exact ⟨hpin, .inl ⟨rfl, hother (by simp)⟩⟩
    · obtain ⟨hpin', hkeys⟩ := hpin.matchPrefix s.runtime.now inputIds
      exact ⟨hpin', .inl ⟨hkeys, hother (by simp)⟩⟩
  | cancelRequest requestId sessionId =>
    simp only [step]
    rcases RuntimeCore.cancelRequest_cases hwf requestId sessionId with
      heq | ⟨q, b, -, -, hcore, -⟩
    · rw [heq]
      exact ⟨hpin, .inl ⟨rfl, hother (by simp)⟩⟩
    · rw [hcore.prefixCache]
      obtain ⟨hpin', hkeys⟩ := hpin.release q.cacheHandle
      exact ⟨hpin', .inl ⟨hkeys, hother (by simp)⟩⟩
  | resume id =>
    have hresumed := resumed ex s hwf id
    simp only [step]
    generalize s.resume ex id = s' at hresumed
    cases hresumed with
    | idle h =>
      refine ⟨hpin, .inl ⟨rfl, ?_⟩⟩
      rintro key ⟨_, q, sel, batch, ⟨⟩, hloop, hq, hlive, hsel, -⟩
      simp [hloop, hq, hsel] at h
    | emitted h =>
      refine ⟨hpin, .inl ⟨rfl, ?_⟩⟩
      rintro key ⟨_, q, sel, batch, ⟨⟩, hloop, -⟩
      simp [hloop] at h
    | @drained q hq hdone hloop =>
      obtain ⟨b, hcore, -⟩ := RuntimeCore.finishSequence_core s.runtime _
        (by rwa [hwf.seqId_eq _ _ hq])
      obtain ⟨hpin', hkeys⟩ := hpin.release q.cacheHandle
      rw [setStream_runtime, hcore.prefixCache]
      refine ⟨hpin', .inl ⟨hkeys, ?_⟩⟩
      rintro key ⟨_, q', sel, batch, ⟨⟩, -, hq', hlive, -⟩
      rw [Option.some.inj (hq.symm.trans hq'), hlive] at hdone
      cases hdone
    | buildFailed hq hlive hloop hsel hb =>
      refine ⟨hpin, .inl ⟨rfl, ?_⟩⟩
      rintro key ⟨_, q', sel', batch, ⟨⟩, -, -, -, hsel', hb', -⟩
      cases hsel.symm.trans hsel'
      rw [hb] at hb'
      cases hb'
    | @executed q sel batch r c hq hlive hloop hsel hb hx =>
      obtain ⟨hpin', hkeys⟩ := (BatchContext.executed_of_eq hx).keys rfl hpin
      have hiff := insertsKey_resume_iff ex hq hlive hloop hsel hb
      rw [hx] at hiff
      refine ⟨hpin', ?_⟩
      rcases hkeys with ⟨hsame, hnot⟩ | ⟨hfills, key, hkey, hadded⟩
      · exact .inl ⟨hsame, fun key h => hnot ((hiff key).1 h).1⟩
      · refine .inr ⟨key, fun key' => ?_, hadded⟩
        have hkey' : s.runtime.prefixCache.makeKey sel.inputIds = .ok key := hkey
        rw [hiff, hkey', Except.ok.injEq]
        exact ⟨fun h => h.2.symm, fun h => ⟨hfills, h.symm⟩⟩
  | close id =>
    have hsame : (s.close id).runtime = s.runtime := by
      rcases s.close_cases id with heq | heq <;> simp [heq]
    simp only [step]
    rw [hsame]
    exact ⟨hpin, .inl ⟨rfl, hother (by simp)⟩⟩
  | evict n =>
    exact ⟨hpin.evict n, .inl ⟨congrArg (List.map Prod.fst) (hpin.evict_entries n),
      hother (by simp)⟩⟩
  | tick => exact ⟨hpin, .inl ⟨rfl, hother (by simp)⟩⟩

/-- Some step of the run inserts the key. -/
def Inserted (ex : ModelExecutor σ) (config : RuntimeConfig) (executor : σ) (es : List Event)
    (key : String) : Prop :=
  Transition.Sometime (step ex) (InsertsKey ex key) (init config executor) es

/-- The cache has the keys that were inserted, each once. -/
theorem keys_run (ex : ModelExecutor σ) (config : RuntimeConfig) (executor : σ)
    (es : List Event) :
    (Transition.run (step ex) (init config executor) es).runtime.prefixCache.keys.Nodup ∧
      ∀ key, key ∈ (Transition.run (step ex) (init config executor)
        es).runtime.prefixCache.keys ↔ Inserted ex config executor es key := by
  have hall := @Transition.run_history_induction _ _ (step ex)
    (fun es s => s.Sound ∧ s.runtime.prefixCache.AllPinned ∧ s.runtime.prefixCache.keys.Nodup ∧
      ∀ key, key ∈ s.runtime.prefixCache.keys ↔ Inserted ex config executor es key)
    (init config executor) ?_ ?_ es
  · exact hall.2.2
  · refine ⟨sound_init config executor, fun _ _ h => ?_, List.nodup_nil, fun key => ?_⟩
    · cases h
    · simp [Inserted, Transition.Sometime, init, RuntimeCore.create, PrefixCache.keys]
  rintro es e ⟨hs, hpin, hnd, hkeys⟩
  obtain ⟨hpin', hstep⟩ := keys_step hs hpin e
  refine ⟨hs.step e, hpin', ?_⟩
  have hconcat : ∀ key, Inserted ex config executor (es ++ [e]) key ↔
      Inserted ex config executor es key ∨
        InsertsKey ex key (Transition.run (step ex) (init config executor) es) e :=
    fun key => Transition.sometime_concat
  rcases hstep with ⟨hsame, hnot⟩ | ⟨key, hinserts, hadded⟩
  · rw [hsame]
    refine ⟨hnd, fun key => ?_⟩
    rw [hconcat, hkeys]
    simp [hnot key]
  · rw [hadded]
    split_ifs with hmem
    · refine ⟨hnd, fun key' => ?_⟩
      rw [hconcat, ← hkeys, hinserts]
      exact ⟨.inl, fun h => h.elim id fun h => h ▸ hmem⟩
    · refine ⟨List.nodup_append.2 ⟨hnd, by simp, ?_⟩, fun key' => ?_⟩
      · rintro k hk k' hk' rfl
        exact hmem (List.mem_singleton.1 hk' ▸ hk)
      · rw [hconcat, ← hkeys, hinserts, List.mem_append, List.mem_singleton]

/-- In every state of every run, the entries of the prefix cache are within its bound if and only
if no more than that many keys were inserted so far. -/
theorem entriesBounded_iff (ex : ModelExecutor σ) (config : RuntimeConfig) (executor : σ)
    (es : List Event) :
    (Transition.run (step ex) (init config executor)
        es).runtime.prefixCache.entries.length ≤ config.maxEntries ↔
      Set.ncard {key | Inserted ex config executor es key} ≤ config.maxEntries := by
  obtain ⟨hnd, hkeys⟩ := keys_run ex config executor es
  have hset : {key | Inserted ex config executor es key} =
      ((Transition.run (step ex) (init config executor)
        es).runtime.prefixCache.keys.toFinset : Set String) := by
    ext key
    rw [List.coe_toFinset]
    exact (hkeys key).symm
  rw [hset, Set.ncard_coe_finset, List.toFinset_card_of_nodup hnd, PrefixCache.keys,
    List.length_map]

/-- A prefix cache for one entry. -/
def oneEntryConfig : RuntimeConfig :=
  { smallConfig with maxEntries := 1, maxEntries_pos := Nat.one_pos }

/-- Two requests with different prompts, one after the other. -/
def twoPromptsRun : List Event :=
  [.addRequest (shortRequest "a"), .resume 0, .resume 0, .resume 0,
    .addRequest { shortRequest "b" with messages := [⟨"user", "hello".toList⟩] },
    .resume 1, .resume 1, .resume 1]

/-- Both requests are over, and both entries are there. -/
theorem not_entriesBounded : ¬∀ (σ : Type) (ex : ModelExecutor σ) (config : RuntimeConfig)
    (executor : σ) (es : List Event), ex.supportsPrefixCache = true →
    (∀ id q, (Transition.run (step ex) (init config executor) es).runtime.scheduler.get id =
      some q → q.isTerminal = true) →
    (Transition.run (step ex) (init config executor)
      es).runtime.prefixCache.entries.length ≤ config.maxEntries := by
  intro h
  have hbound := h Unit (deterministicExecutor true) oneEntryConfig () twoPromptsRun rfl ?_
  · revert hbound
    decide +kernel
  · have hidle : (Transition.run (step (deterministicExecutor true)) (init oneEntryConfig ())
        twoPromptsRun).runtime.scheduler.candidates = [] := by decide +kernel
    have hwf :=
      (sound_run (deterministicExecutor true) oneEntryConfig () twoPromptsRun).runtime.wellFormed
    intro id q hq
    by_contra hlive
    have hmem := hwf.mem_candidates.2
      ⟨(hwf.seqId_eq id q hq).symm ▸ hq, Bool.eq_false_of_not_eq_true hlive⟩
    rw [hidle] at hmem
    cases hmem

end ServerState

end SoloRT
