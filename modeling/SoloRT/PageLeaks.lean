import SoloRT.CacheCapacity
import SoloRT.PageOwnership
import SoloRT.PrefixLookup
import SoloRT.Sessions

/-!
# Leaked pages

`NoLeak` is the law that the pages in use are those that a live sequence or a resident entry
holds. It is broken in two ways. A sequence ends, cancelled or with its last token, and a page
of its table is held by nothing else (`Ends`). Or the end of a prefill inserts its prompt under
the key of a resident entry, which leaves the cache with a page that only it held (`InsertsKey`).
Nothing else ends a sequence (`ends_of_terminal`), and no other entry leaves, as an eviction
passes the pinned entries of a runtime by (`exists_resident_step`).

`KeepsHeld` excludes both, on the state before the step. A run obeys the law in all its states
exactly when all its steps meet it (`pagesReclaimed_run_iff`).
-/

namespace SoloRT

namespace PrefixCache

variable {c : PrefixCache}

/-- What is resident after a pinned insert : the new entry, and the others under other keys. -/
theorem AllPinned.resident_insert (h : c.AllPinned) (hf : c.Filed) {tokenIds : List TokenId}
    {key : String} (hkey : c.makeKey tokenIds = .ok key) (now : Timestamp) (pages : List PageId)
    {id : EntryId} {e : PrefixCacheEntry} :
    (c.insert now tokenIds pages true).2.Resident id e ↔
      (id = c.nextEntryId ∧ e =
        { key, tokenIds, pages, tokenCount := tokenIds.length, pinned := true
          lastAccessTs := now }) ∨ c.Resident id e ∧ e.key ≠ key := by
  have hpin : (c.assign now key tokenIds pages true).AllPinned := h.update rfl
  rw [insert_eq hkey, ← hf.resident_assign]
  simp only [Resident, evictToCapacity_objects, hpin.evictToCapacity_entries]

end PrefixCache

namespace RuntimeCore

variable {σ : Type} {ex : ModelExecutor σ} {rt rt' : RuntimeCore σ}

/-! ## The law -/

/-- The pages in use are those that a live sequence or a resident entry holds. -/
def NoLeak (rt : RuntimeCore σ) : Prop :=
  ∀ p, p ∈ rt.kvCache.allocator.usedPages ↔ rt.Held p

/-- A sequence that ended from `rt` to `rt'`, or an entry that left the prefix cache, has no
page that nothing holds any more. -/
structure LosesNone (rt rt' : RuntimeCore σ) : Prop where
  ended : ∀ id q q', rt.scheduler.get id = some q → q.isTerminal = false →
    rt'.scheduler.get id = some q' → q'.isTerminal = true → ∀ p ∈ q'.blockTable, rt'.Held p
  left : ∀ id e, rt.prefixCache.Resident id e → (∀ e', ¬rt'.prefixCache.Resident id e') →
    ∀ p ∈ e.pages, rt'.Held p

/-- A change from a state that obeys the law keeps it exactly when whatever ended or left
had no page that only it held. -/
theorem noLeak_step_iff (hp' : rt'.PagesOwned) (hstep : PageStep rt rt') (h : rt.NoLeak)
    (hp : rt.PagesOwned) : rt'.NoLeak ↔ LosesNone rt rt' := by
  have htable : ∀ {id q p}, rt.scheduler.get id = some q → p ∈ q.blockTable →
      ∃ q', rt'.scheduler.get id = some q' ∧ p ∈ q'.blockTable := by
    intro id q p hq hp
    obtain ⟨q', hq', hsub⟩ := hstep.tables id q hq
    exact ⟨q', hq', hsub hp⟩
  constructor
  · intro h'
    refine ⟨fun id q q' _ _ hq' _ p hmem => ?_, fun id e he _ p hmem => ?_⟩
    · exact (h' p).1 ((hp'.tables p).2 ⟨id, q', hq', hmem⟩)
    · obtain ⟨i, q, hq, hmem⟩ := (hp.tables p).1 (hp.entries p ⟨id, e, he, hmem⟩)
      obtain ⟨q', hq', hmem'⟩ := htable hq hmem
      exact (h' p).1 ((hp'.tables p).2 ⟨i, q', hq', hmem'⟩)
  · intro hkeep p
    refine ⟨fun hmem => ?_, hp'.used_of_held⟩
    -- a page in the table of a sequence that was live is held by it, unless it ended
    have hlive : ∀ {id q q'}, rt.scheduler.get id = some q → q.isTerminal = false →
        rt'.scheduler.get id = some q' → p ∈ q'.blockTable → rt'.Held p := by
      intro id q q' hq hlive hq' hmem
      cases hdone : q'.isTerminal with
      | false => exact .inl ⟨id, q', hq', hdone, hmem⟩
      | true => exact hkeep.ended id q q' hq hlive hq' hdone p hmem
    rcases hstep.fresh p hmem with hmem | ⟨id, q, q', hq, hql, hq', hmem⟩
    · rcases (h p).1 hmem with ⟨id, q, hq, hql, hmem⟩ | ⟨id, e, he, hmem⟩
      · obtain ⟨q', hq', hmem'⟩ := htable hq hmem
        exact hlive hq hql hq' hmem'
      · by_cases hres : ∃ e', rt'.prefixCache.Resident id e'
        · obtain ⟨e', he'⟩ := hres
          exact .inr ⟨id, e', he', (hstep.entries id e e' he he').symm ▸ hmem⟩
        · exact hkeep.left id e he (by simpa using hres) p hmem
    · exact hlive hq hql hq' hmem

/-- What the law is for. -/
structure PagesReclaimed (rt : RuntimeCore σ) : Prop where
  noLeak : rt.NoLeak
  /-- An idle runtime with an empty prefix cache has all its pages free. -/
  idle : (∀ id q, rt.scheduler.get id = some q → q.isTerminal = true) →
    rt.prefixCache.entries = [] →
    rt.kvCache.allocator.freePages.length = rt.kvCache.config.numPages
  /-- A request that fits in the pool gets its pages if no other one is live. -/
  serial : ∀ id q n, rt.scheduler.get id = some q →
    (∀ id' q', id' ≠ id → rt.scheduler.get id' = some q' → q'.isTerminal = true) →
    rt.prefixCache.entries = [] → rt.kvCache.pagesRequired n ≤ rt.kvCache.config.numPages →
    ∃ pages kv table, rt.kvCache.ensureCapacity q.blockTable n = (.ok pages, kv, table)

theorem not_heldByEntry (h : rt.prefixCache.entries = []) (p : PageId) : ¬rt.HeldByEntry p := by
  rintro ⟨id, e, ⟨⟨key, hkey⟩, -⟩, -⟩
  simp [h] at hkey

theorem pagesReclaimed_iff (hp : rt.PagesOwned) : rt.PagesReclaimed ↔ rt.NoLeak := by
  refine ⟨PagesReclaimed.noLeak, fun h => ⟨h, fun hdone hempty => ?_,
    fun id q n hq hdone hempty hn => ?_⟩⟩
  · have hnone : rt.kvCache.allocator.usedPages = ∅ := by
      refine Finset.eq_empty_of_forall_notMem fun p hmem => ?_
      rcases (h p).1 hmem with ⟨id, q, hq, hlive, -⟩ | hmem
      · rw [hdone id q hq] at hlive
        cases hlive
      · exact not_heldByEntry hempty p hmem
    have hcard := hp.consistent.card
    rw [hnone, Finset.card_empty, hp.numPages] at hcard
    omega
  · have hsub : rt.kvCache.allocator.usedPages ⊆ q.blockTable.toFinset := by
      intro p hmem
      rcases (h p).1 hmem with ⟨id', q', hq', hlive, hmem⟩ | hmem
      · by_cases hid : id' = id
        · rw [hid, hq, Option.some.injEq] at hq'
          exact List.mem_toFinset.2 (hq' ▸ hmem)
        · rw [hdone id' q' hid hq'] at hlive
          cases hlive
      · exact absurd hmem (not_heldByEntry hempty p)
    have hle := (Finset.card_le_card hsub).trans q.blockTable.toFinset_card_le
    have hcard := hp.consistent.card
    rw [hp.numPages] at hcard
    exact PagedKVCache.exists_ensureCapacity_ok (by omega)

/-! ## What a step does to the holders -/

/-- A live sequence other than `id`, or a resident entry, holds the page. -/
def HeldByOther (rt : RuntimeCore σ) (id : SeqId) (p : PageId) : Prop :=
  (∃ id' q, id' ≠ id ∧ rt.scheduler.get id' = some q ∧ q.isTerminal = false ∧
    p ∈ q.blockTable) ∨ rt.HeldByEntry p

/-- A live sequence, or a resident entry other than `n`, holds the page. -/
def HeldBesides (rt : RuntimeCore σ) (n : EntryId) (p : PageId) : Prop :=
  rt.HeldByLive p ∨ ∃ n' e, n' ≠ n ∧ rt.prefixCache.Resident n' e ∧ p ∈ e.pages

/-- Entries that keep their ids and pages hold what they held. -/
theorem heldByEntry_iff
    (h : ∀ n e, rt.prefixCache.Resident n e →
      ∃ e', rt'.prefixCache.Resident n e' ∧ PrefixCache.SameContent e e')
    (h' : ∀ n e', rt'.prefixCache.Resident n e' →
      ∃ e, rt.prefixCache.Resident n e ∧ PrefixCache.SameContent e e') (p : PageId) :
    rt'.HeldByEntry p ↔ rt.HeldByEntry p := by
  constructor
  · rintro ⟨n, e', he', hp⟩
    obtain ⟨e, he, hsame⟩ := h' n e' he'
    exact ⟨n, e, he, hsame.1 ▸ hp⟩
  · rintro ⟨n, e, he, hp⟩
    obtain ⟨e', he', hsame⟩ := h n e he
    exact ⟨n, e', he', hsame.1.symm ▸ hp⟩

/-- A sequence that is written back terminal holds nothing. -/
theorem held_put_iff {t : Sequence} (hdone : t.isTerminal = true)
    (hsched : rt'.scheduler = rt.scheduler.put t)
    (hentry : ∀ p, rt'.HeldByEntry p ↔ rt.HeldByEntry p) (p : PageId) :
    rt'.Held p ↔ rt.HeldByOther t.seqId p := by
  refine or_congr ⟨?_, ?_⟩ (hentry p)
  · rintro ⟨id, q, hq, hlive, hp⟩
    rw [hsched] at hq
    rcases get_put_cases hq with ⟨-, rfl⟩ | ⟨hid, hq⟩
    · rw [hdone] at hlive
      cases hlive
    · exact ⟨id, q, hid, hq, hlive, hp⟩
  · rintro ⟨id, q, hid, hq, hlive, hp⟩
    refine ⟨id, q, ?_, hlive, hp⟩
    rw [hsched, InteractiveScheduler.get_put_of_ne hid, hq]

/-- A change keeps the prefix cache filed. -/
theorem Change.filed {e : Event} (h : Change ex rt rt' e) (hf : rt.prefixCache.Filed) :
    rt'.prefixCache.Filed := by
  cases h with
  | quiet h => exact h.prefixCache ▸ hf
  | added request seqId sessionId inputIds m _ _ _ hm =>
    split_ifs at hm
    · have hpc : rt'.prefixCache = (rt.prefixCache.matchPrefix rt.now inputIds).2 :=
        congrArg Prod.snd hm
      exact hpc ▸ hf.matchPrefix _ _
    · have hpc : rt'.prefixCache = rt.prefixCache := congrArg Prod.snd hm
      exact hpc ▸ hf
  | cancelled s b _ _ h => exact h.prefixCache ▸ hf.release _
  | finished s b _ _ h => exact h.prefixCache ▸ hf.release _
  | selected s _ h => exact h.prefixCache ▸ hf
  | executed s batch r c _ _ hx h =>
    subst h
    rcases (BatchContext.executed_of_eq hx).prefixCache with ⟨hpc, -⟩ | ⟨-, -, -, -, hpc⟩
    · show c.prefixCache.Filed
      rw [hpc]
      exact hf
    · show c.prefixCache.Filed
      rw [hpc]
      exact hf.insert _ _ _ _
  | evicted n h =>
    subst h
    exact hf.evict n

/-- A live sequence `q` runs on as `t`, and its prompt is inserted as `new` under `key`, with the
pages that it has then. -/
structure InsertStep (rt rt' : RuntimeCore σ) (key : String) (q t : Sequence)
    (new : PrefixCacheEntry) : Prop where
  get : rt.scheduler.get t.seqId = some q
  live : q.isTerminal = false
  scheduler : rt'.scheduler = rt.scheduler.put t
  live' : t.isTerminal = false
  table : q.blockTable ⊆ t.blockTable
  fresh : ∀ p ∈ t.blockTable, p ∈ rt.kvCache.allocator.usedPages → p ∈ q.blockTable
  pages : new.pages = t.blockTable
  resident : ∀ n e, rt'.prefixCache.Resident n e ↔
    n = rt.prefixCache.nextEntryId ∧ e = new ∨ rt.prefixCache.Resident n e ∧ e.key ≠ key

/-- What is held of the pages of the entry that an insert replaces. The new entry holds none
of them but those that its sequence had. -/
theorem InsertStep.held_iff {key : String} {q t : Sequence} {new f : PrefixCacheEntry}
    {n : EntryId} (h : InsertStep rt rt' key q t new) (hf : rt.prefixCache.Filed)
    (hn : rt.prefixCache.Resident n f) (hkey : f.key = key) {p : PageId}
    (hp : p ∈ rt.kvCache.allocator.usedPages) : rt'.Held p ↔ rt.HeldBesides n p := by
  have hown : p ∈ t.blockTable → rt.HeldByLive p := fun hmem =>
    ⟨t.seqId, q, h.get, h.live, h.fresh p hmem hp⟩
  constructor
  · rintro (⟨id, r, hr, hlive, hmem⟩ | ⟨n', e, he, hmem⟩)
    · rw [h.scheduler] at hr
      rcases get_put_cases hr with ⟨-, rfl⟩ | ⟨-, hr⟩
      · exact .inl (hown hmem)
      · exact .inl ⟨id, r, hr, hlive, hmem⟩
    · rcases (h.resident n' e).1 he with ⟨-, rfl⟩ | ⟨he, hne⟩
      · exact .inl (hown (h.pages ▸ hmem))
      · refine .inr ⟨n', e, ?_, he, hmem⟩
        rintro rfl
        exact hne (he.unique hn ▸ hkey)
  · rintro (⟨id, r, hr, hlive, hmem⟩ | ⟨n', e, hne, he, hmem⟩)
    · by_cases hid : id = t.seqId
      · rw [hid, h.get, Option.some.injEq] at hr
        refine .inl ⟨t.seqId, t, ?_, h.live', h.table (hr ▸ hmem)⟩
        rw [h.scheduler]
        exact InteractiveScheduler.get_put t
      · refine .inl ⟨id, r, ?_, hlive, hmem⟩
        rw [h.scheduler, InteractiveScheduler.get_put_of_ne hid, hr]
    · refine .inr ⟨n', e, (h.resident n' e).2 (.inr ⟨he, fun hek => hne ?_⟩), hmem⟩
      have hid := (hf.resident_iff.1 he).1
      rw [hek] at hid
      exact hf.id_unique hid (hkey ▸ (hf.resident_iff.1 hn).1)

end RuntimeCore

/-- The sequence of an insert runs on. -/
theorem BatchContext.Executed.filled {σ : Type} {ex : ModelExecutor σ} {c c' : BatchContext σ}
    {batch : Batch} {r : Except PyError (List Text)} (h : Executed ex c batch r c')
    (hrun : c.sequence.status = .running) (hfills : FillsPrompt ex c batch r) :
    c'.sequence.status = .running ∧ c'.prefixCache =
      (c.prefixCache.insert c.now c.sequence.inputIds c'.sequence.blockTable true).2 := by
  obtain ⟨-, -, hinsert⟩ := h.inserts hrun hfills
  rcases h.entries hrun with ⟨-, hnot⟩ | ⟨-, hrun', -⟩
  · exact absurd hfills hnot
  · exact ⟨hrun', hinsert⟩

namespace ServerState

variable {σ : Type} {ex : ModelExecutor σ} {s : ServerState σ}

/-- The step ends the sequence `id`, and the second list is the page table it has then. -/
inductive Ends (ex : ModelExecutor σ) (s : ServerState σ) : Event → SeqId → List PageId → Prop
  /-- The sequence is cancelled. -/
  | cancelled {requestId : Option SeqId} {sessionId : Option SessionId} {t : Sequence}
      (ht : s.finishing (.cancelRequest requestId sessionId) = some t) :
      Ends ex s (.cancelRequest requestId sessionId) t.seqId t.blockTable
  /-- A turn executes the last batch of the sequence. -/
  | finished {id : SeqId} {q sel : Sequence} {batch : Batch} {r : Except PyError (List Text)}
      {c : BatchContext σ} (hq : s.runtime.scheduler.get id = some q)
      (hlive : q.isTerminal = false) (hloop : (s.streams id).phase = .loop)
      (hsel : s.runtime.scheduler.selectNextSequence = some sel)
      (hb : s.runtime.scheduler.buildBatch none sel.scheduled = .ok batch)
      (hx : (s.runtime.context sel.scheduled).executeBatch ex batch = (r, c))
      (hdone : c.sequence.isTerminal = true) :
      Ends ex s (.resume id) sel.seqId c.sequence.blockTable

/-- A sequence that ends was live, and is terminal after the step. -/
theorem Ends.terminal (hs : s.Sound) {e : Event} {id : SeqId} {pages : List PageId}
    (h : Ends ex s e id pages) : ∃ q q', s.runtime.scheduler.get id = some q ∧
      q.isTerminal = false ∧ (s.step ex e).runtime.scheduler.get id = some q' ∧
      q'.isTerminal = true ∧ q'.blockTable = pages := by
  have hwf := hs.runtime.wellFormed
  cases h with
  | @cancelled requestId sessionId t ht =>
    obtain ⟨b, hsched⟩ := scheduler_of_finishing ex hwf ht
    rcases finishing_cases ht with ⟨_, _, id, q, -, -, hget, hlive, rfl⟩ | ⟨id, h, -⟩
    · obtain rfl : q.seqId = id := hwf.seqId_eq _ _ hget
      refine ⟨q, RuntimeCore.withAppended q.markCancelled b, hget, hlive, ?_, rfl, rfl⟩
      rw [hsched]
      exact InteractiveScheduler.get_put (RuntimeCore.withAppended q.markCancelled b)
    · cases h
  | @finished id q sel batch r c hq hlive hloop hsel hb hx hdone =>
    obtain ⟨hget, hlive'⟩ := hwf.selectNextSequence hsel
    have hid : c.sequence.seqId = sel.seqId := (BatchContext.executed_of_eq hx).seqId
    refine ⟨sel, c.sequence, hget, hlive', ?_, hdone, rfl⟩
    simp only [step]
    rw [runtime_resume hwf hloop hq hlive hsel hb, hx, ← hid]
    exact InteractiveScheduler.get_put c.sequence

/-- Nothing but `Ends` makes a live sequence terminal. -/
theorem ends_of_terminal (hs : s.Sound) {e : Event} {id : SeqId} {q q' : Sequence}
    (hq : s.runtime.scheduler.get id = some q) (hlive : q.isTerminal = false)
    (hq' : (s.step ex e).runtime.scheduler.get id = some q') (hdone : q'.isTerminal = true) :
    Ends ex s e id q'.blockTable := by
  have hwf := hs.runtime.wellFormed
  -- the sequence is not the one it was
  have hne : ¬s.runtime.scheduler.get id = some q' := fun h => by
    rw [Option.some.inj (hq.symm.trans h), hdone] at hlive
    cases hlive
  cases e with
  | addRequest request =>
    rcases RuntimeCore.addRequest_cases ex s.runtime request with
      ⟨-, -, hcore, -⟩ | ⟨seqId, sid, inputIds, m, -, -, hid, -, -, hsched, -⟩
    · exact absurd (hcore.scheduler ▸ hq') hne
    · simp only [step, hsched] at hq'
      rcases RuntimeCore.get_put_cases hq' with ⟨hid', -⟩ | ⟨-, hget⟩
      · obtain rfl : id = seqId := hid'
        rw [hs.runtime.get_eq_none hid] at hq
        cases hq
      · exact absurd hget hne
  | cancelRequest requestId sessionId =>
    cases hfin : s.finishing (.cancelRequest requestId sessionId) with
    | none =>
      rw [runtime_of_not_cancelling ex hfin] at hq'
      exact absurd hq' hne
    | some t =>
      obtain ⟨b, hsched⟩ := scheduler_of_finishing ex hwf hfin
      rw [hsched] at hq'
      rcases RuntimeCore.get_put_cases hq' with ⟨rfl, rfl⟩ | ⟨-, hget⟩
      · have hends : Ends ex s _ t.seqId t.blockTable := .cancelled hfin
        exact hends
      · exact absurd hget hne
  | resume seqId =>
    have hresumed := resumed ex s hwf seqId
    simp only [step] at hq'
    generalize s.resume ex seqId = s' at hresumed hq'
    cases hresumed with
    | idle | emitted => exact absurd hq' hne
    | @drained t ht htdone hloop =>
      obtain rfl : t.seqId = seqId := hwf.seqId_eq _ _ ht
      obtain ⟨b, hcore, -⟩ := RuntimeCore.finishSequence_core _ _ ht
      rw [setStream_runtime, hcore.scheduler] at hq'
      rcases RuntimeCore.get_put_cases hq' with ⟨hid, rfl⟩ | ⟨-, hget⟩
      · obtain rfl : id = t.seqId := hid
        rw [Option.some.inj (hq.symm.trans ht), htdone] at hlive
        cases hlive
      · exact absurd hget hne
    | buildFailed ht htlive hloop hsel hb =>
      rcases RuntimeCore.get_put_cases hq' with ⟨-, rfl⟩ | ⟨-, hget⟩
      · cases hdone
      · exact absurd hget hne
    | @executed t sel batch r c ht htlive hloop hsel hb hx =>
      rcases RuntimeCore.get_put_cases hq' with ⟨rfl, rfl⟩ | ⟨-, hget⟩
      · rw [show c.sequence.seqId = sel.seqId from (BatchContext.executed_of_eq hx).seqId]
        exact .finished ht htlive hloop hsel hb hx hdone
      · exact absurd hget hne
  | close seqId =>
    rcases s.close_cases seqId with h | h <;> simp only [step, h] at hq' <;>
      exact absurd hq' hne
  | evict | tick => exact absurd hq' hne

/-- What holds of every state of a run. -/
structure Accounted (s : ServerState σ) : Prop where
  owned : s.Owned
  pinned : s.runtime.prefixCache.AllPinned
  filed : s.runtime.prefixCache.Filed

theorem accounted_init (config : RuntimeConfig) (executor : σ) :
    (init config executor).Accounted := by
  refine ⟨owned_init config executor, ?_, ?_, List.nodup_nil, ?_⟩
  · rintro id e ⟨⟩
  · rintro id e ⟨⟩
  · rintro key id ⟨⟩

theorem Accounted.step (h : s.Accounted) (ex : ModelExecutor σ) (e : Event) :
    (s.step ex e).Accounted where
  owned := (h.owned.step ex e).1
  pinned := (keys_step h.owned.1 h.pinned e).1
  filed := (step_change ex s h.owned.1.runtime.wellFormed e).filed h.filed

/-- The step of an insert. -/
theorem InsertsKey.insertStep (hs : s.Accounted) {key : String} {e : Event}
    (h : InsertsKey ex key s e) :
    ∃ q t new, RuntimeCore.InsertStep s.runtime (s.step ex e).runtime key q t new := by
  obtain ⟨id, q, sel, batch, rfl, hloop, hq, hlive, hsel, hb, hfills, hkey⟩ := h
  have hwf := hs.owned.1.runtime.wellFormed
  obtain ⟨hget, hlive'⟩ := hwf.selectNextSequence hsel
  have hx := BatchContext.executed ex (s.runtime.context sel.scheduled) batch
  obtain ⟨hrun, hpc⟩ := hx.filled rfl hfills
  obtain ⟨pages, hgrow⟩ := hx.kvSteps.grows hs.owned.2.consistent
  have hrt : (s.step ex (.resume id)).runtime = _ := runtime_resume hwf hloop hq hlive hsel hb
  rw [hrt]
  generalize ((s.runtime.context sel.scheduled).executeBatch ex batch).2 = c at hx hrun hpc hgrow
  have htable : c.sequence.blockTable = sel.blockTable ++ pages := hgrow.table_eq
  refine ⟨sel, c.sequence,
    { key
      tokenIds := sel.inputIds
      pages := c.sequence.blockTable
      tokenCount := sel.inputIds.length
      pinned := true
      lastAccessTs := s.runtime.now },
    hx.seqId ▸ hget, hlive', rfl, ?_, ?_, fun p hp hused => ?_, rfl, fun n e => ?_⟩
  · simp [Sequence.isTerminal, hrun]
  · rw [htable]
    exact List.subset_append_left _ _
  · rw [htable] at hp
    exact (List.mem_append.1 hp).resolve_right fun hp => hgrow.fresh p hp hused
  · show c.prefixCache.Resident n e ↔ _
    rw [hpc]
    exact hs.pinned.resident_insert hs.filed hkey _ _

/-- An insert takes the entry under its key out of the cache. -/
theorem InsertsKey.left (hs : s.Accounted) {e : Event} {n : EntryId} {f : PrefixCacheEntry}
    (h : InsertsKey ex f.key s e) (hn : s.runtime.prefixCache.Resident n f)
    (f' : PrefixCacheEntry) : ¬(s.step ex e).runtime.prefixCache.Resident n f' := by
  intro hf'
  obtain ⟨q, t, new, hstep⟩ := h.insertStep hs
  rcases (hstep.resident n f').1 hf' with ⟨hid, -⟩ | ⟨hold, hne⟩
  · exact (hs.filed.bounded n f hn.2).ne hid
  · exact hne (by rw [hn.unique hold])

/-- An entry whose key is not inserted stays. -/
theorem exists_resident_step (hs : s.Accounted) {e : Event} {n : EntryId} {f : PrefixCacheEntry}
    (hins : ¬InsertsKey ex f.key s e) (hn : s.runtime.prefixCache.Resident n f) :
    ∃ f', (s.step ex e).runtime.prefixCache.Resident n f' := by
  have hwf := hs.owned.1.runtime.wellFormed
  have hsame : ∀ {c : PrefixCache}, c = s.runtime.prefixCache → ∃ f', c.Resident n f' := by
    rintro _ rfl
    exact ⟨f, hn⟩
  have hrelease : ∀ {c : PrefixCache} {entry}, c = s.runtime.prefixCache.release entry →
      ∃ f', c.Resident n f' := by
    rintro _ entry rfl
    exact (hn.release entry).imp fun _ h => h.1
  cases e with
  | addRequest request =>
    rcases addRequest_prefixCache ex s.runtime request with h | ⟨inputIds, h⟩
    · exact hsame h
    · simp only [step, h]
      exact (hn.matchPrefix _ _).imp fun _ h => h.1
  | cancelRequest requestId sessionId =>
    rcases RuntimeCore.cancelRequest_cases hwf requestId sessionId with
      h | ⟨q, b, -, -, hcore, -⟩
    · exact hsame (congrArg RuntimeCore.prefixCache h)
    · exact hrelease hcore.prefixCache
  | resume id =>
    have hresumed := resumed ex s hwf id
    simp only [step]
    generalize s.resume ex id = s' at hresumed
    cases hresumed with
    | idle | emitted | buildFailed => exact hsame rfl
    | drained hq hdone hloop =>
      obtain ⟨b, hcore, -⟩ := RuntimeCore.finishSequence_core s.runtime _
        (by rwa [hwf.seqId_eq _ _ hq])
      exact hrelease hcore.prefixCache
    | @executed q sel batch r c hq hlive hloop hsel hb hx =>
      have hiff := insertsKey_resume_iff ex hq hlive hloop hsel hb
      rw [hx] at hiff
      rcases (BatchContext.executed_of_eq hx).entries rfl with ⟨h, -⟩ | ⟨hfills, -⟩
      · exact hsame h
      · obtain ⟨-, hpc⟩ := (BatchContext.executed_of_eq hx).filled rfl hfills
        cases hkey : s.runtime.prefixCache.makeKey sel.inputIds with
        | error e =>
          have hkey' : s.runtime.prefixCache.makeKey sel.scheduled.inputIds = .error e := hkey
          refine hsame (hpc.trans ?_)
          simp [PrefixCache.insert, RuntimeCore.context, hkey']
        | ok key =>
          refine ⟨f, ?_⟩
          show c.prefixCache.Resident n f
          rw [hpc]
          refine (hs.pinned.resident_insert hs.filed hkey _ _).2 (.inr ⟨hn, ?_⟩)
          rintro rfl
          exact hins ((hiff f.key).2 ⟨hfills, hkey⟩)
  | close id =>
    rcases s.close_cases id with h | h <;> simp only [step, h] <;> exact hsame rfl
  | evict k =>
    refine ⟨f, ⟨?_, ?_⟩⟩
    · simpa only [step, hs.pinned.evict_entries k] using hn.1
    · simpa only [step, PrefixCache.evict_objects] using hn.2
  | tick => exact hsame rfl

/-- What is held after a step of the table of a sequence that it ends. -/
theorem Ends.held_iff (hs : s.Sound) {e : Event} {id : SeqId} {pages : List PageId}
    (h : Ends ex s e id pages) (p : PageId) :
    (s.step ex e).runtime.Held p ↔ s.runtime.HeldByOther id p := by
  have hwf := hs.runtime.wellFormed
  cases h with
  | @cancelled requestId sessionId t ht =>
    rw [step_of_finishing hwf ht]
    obtain ⟨b, hcore, -⟩ := RuntimeCore.finishSequence_core
      { s.runtime with scheduler := s.runtime.scheduler.put t } t (InteractiveScheduler.get_put t)
    have hdone : t.isTerminal = true := by
      rcases finishing_cases ht with ⟨_, _, _, q, -, -, -, -, rfl⟩ | ⟨_, h, -⟩
      · rfl
      · cases h
    refine RuntimeCore.held_put_iff (t := RuntimeCore.withAppended t b) hdone
      (hcore.scheduler.trans (s.runtime.scheduler.put_put rfl)) ?_ p
    refine RuntimeCore.heldByEntry_iff (fun n f hn => ?_) (fun n f hn => ?_)
    · rw [hcore.prefixCache]
      exact hn.release _
    · rw [hcore.prefixCache] at hn
      exact PrefixCache.resident_release hn
  | @finished id q sel batch r c hq hlive hloop hsel hb hx hdone =>
    have hrt : (s.step ex (.resume id)).runtime = _ := runtime_resume hwf hloop hq hlive hsel hb
    rw [hrt, hx]
    have hx := BatchContext.executed_of_eq hx
    -- the last batch of a sequence inserts nothing
    have hpc : c.prefixCache = s.runtime.prefixCache := by
      rcases hx.entries rfl with ⟨h, -⟩ | ⟨-, hrun, -⟩
      · exact h
      · simp [Sequence.isTerminal, hrun] at hdone
    rw [show sel.seqId = c.sequence.seqId from hx.seqId.symm]
    refine RuntimeCore.held_put_iff hdone rfl (fun p => ?_) p
    simp only [RuntimeCore.HeldByEntry, RuntimeCore.setContext, hpc]

/-- A sequence that ends in the step leaves its pages to others, and so does an entry that an
insert of the step replaces. -/
structure KeepsHeld (ex : ModelExecutor σ) (s : ServerState σ) (e : Event) : Prop where
  ended : ∀ id pages, Ends ex s e id pages → ∀ p ∈ pages, s.runtime.HeldByOther id p
  replaced : ∀ n f, s.runtime.prefixCache.Resident n f → InsertsKey ex f.key s e →
    ∀ p ∈ f.pages, s.runtime.HeldBesides n p

/-- A step from a state that obeys the law keeps it exactly when it keeps the pages held. -/
theorem noLeak_iff_keepsHeld (ex : ModelExecutor σ) (hs : s.Accounted) (hI : s.runtime.NoLeak)
    (e : Event) : (s.step ex e).runtime.NoLeak ↔ KeepsHeld ex s e := by
  have hsound := hs.owned.1
  obtain ⟨hs', hstep⟩ := hs.owned.step ex e
  rw [RuntimeCore.noLeak_step_iff hs'.2 hstep hI hs.owned.2]
  have hreplaced : ∀ {n f p}, s.runtime.prefixCache.Resident n f → InsertsKey ex f.key s e →
      p ∈ f.pages → ((s.step ex e).runtime.Held p ↔ s.runtime.HeldBesides n p) := by
    intro n f p hn hins hp
    obtain ⟨q, t, new, h⟩ := hins.insertStep hs
    exact h.held_iff hs.filed hn rfl (hs.owned.2.entries p ⟨n, f, hn, hp⟩)
  constructor
  · refine fun h => ⟨fun id pages hends p hp => ?_, fun n f hn hins p hp => ?_⟩
    · obtain ⟨q, q', hq, hlive, hq', hdone, rfl⟩ := hends.terminal hsound
      exact (hends.held_iff hsound p).1 (h.ended id q q' hq hlive hq' hdone p hp)
    · exact (hreplaced hn hins hp).1 (h.left n f hn (hins.left hs hn) p hp)
  · refine fun h => ⟨fun id q q' hq hlive hq' hdone p hp => ?_, fun n f hn hleft p hp => ?_⟩
    · have hends := ends_of_terminal hsound hq hlive hq' hdone
      exact (hends.held_iff hsound p).2 (h.ended id _ hends p hp)
    · have hins : InsertsKey ex f.key s e := by
        by_contra hnot
        obtain ⟨f', hf'⟩ := exists_resident_step hs hnot hn
        exact hleft f' hf'
      exact (hreplaced hn hins hp).2 (h.replaced n f hn hins p hp)

/-! ## Runs -/

/-- No page is leaked in any state of a run exactly when no step of it ends a sequence, or
replaces an entry, with a page that nothing else holds. -/
theorem pagesReclaimed_run_iff (ex : ModelExecutor σ) (config : RuntimeConfig) (executor : σ)
    (es : List Event) :
    (∀ es', es' <+: es →
      (Transition.run (step ex) (init config executor) es').runtime.PagesReclaimed) ↔
    Transition.Along (step ex) (KeepsHeld ex) (init config executor) es := by
  refine Transition.forall_prefix_iff_along (J := Accounted)
    (I := fun s => s.runtime.PagesReclaimed) (fun s e h => h.step ex e) (fun s e h hI => ?_)
    (accounted_init config executor) ?_ es
  · rw [RuntimeCore.pagesReclaimed_iff (h.owned.step ex e).1.2]
    exact noLeak_iff_keepsHeld ex h hI.noLeak e
  · rw [RuntimeCore.pagesReclaimed_iff (owned_init config executor).2]
    intro p
    simp [init, RuntimeCore.create, PagedKVCache.fresh, RuntimeCore.Held,
      RuntimeCore.HeldByLive, RuntimeCore.HeldByEntry, InteractiveScheduler.empty,
      InteractiveScheduler.get, PrefixCache.Resident]

/-- One request, whose stream is drained. -/
def aloneRun : List Event :=
  [.addRequest (shortRequest "a"), .resume 0, .resume 0, .resume 0, .resume 0]

/-- After its one request has finished, the runtime still has a page in use. -/
theorem not_pagesReclaimed_run : ¬∀ (σ : Type) (ex : ModelExecutor σ) (config : RuntimeConfig)
    (executor : σ) (es : List Event),
    (Transition.run (step ex) (init config executor) es).runtime.PagesReclaimed := by
  intro h
  have hidle := (h Unit (deterministicExecutor false) smallConfig () aloneRun).idle
  have hwf := (sound_run (deterministicExecutor false) smallConfig () aloneRun).runtime.wellFormed
  generalize hs : Transition.run (step (deterministicExecutor false)) (init smallConfig ())
    aloneRun = s at hidle hwf
  have horder : s.runtime.scheduler.order = [0] := by
    subst hs
    decide +kernel
  have hdone : (s.runtime.scheduler.get 0).map Sequence.isTerminal = some true := by
    subst hs
    decide +kernel
  have hfree := hidle (fun id q hq => by
    have hmem : id ∈ s.runtime.scheduler.order :=
      (hwf.mem_order id).2 (Option.isSome_iff_exists.2 ⟨q, hq⟩)
    rw [horder, List.mem_singleton] at hmem
    simpa [hmem ▸ hq] using hdone) (by subst hs; decide +kernel)
  subst hs
  revert hfree
  decide +kernel

end ServerState

end SoloRT
