import SoloRT.StreamText

/-!
# Who holds a KV page

Pages are acquired through the page tables of sequences and given back by the rollback of
a speculative append only. No way a sequence ends gives its pages back, and no way an entry
leaves the prefix cache does. So a page in use is always in the table of some sequence that
was ever added, and a page of a resident entry is in use (`PagesOwned`). A change lets tables
grow, and only those of live sequences gain pages that were free (`PageStep`).
-/

namespace SoloRT

namespace RuntimeCore

variable {σ : Type} {ex : ModelExecutor σ} {rt rt' : RuntimeCore σ}

/-- Some sequence, terminal or not, has the page in its table. -/
def Tabled (rt : RuntimeCore σ) (p : PageId) : Prop :=
  ∃ id q, rt.scheduler.get id = some q ∧ p ∈ q.blockTable

/-- Some live sequence has the page in its table. -/
def HeldByLive (rt : RuntimeCore σ) (p : PageId) : Prop :=
  ∃ id q, rt.scheduler.get id = some q ∧ q.isTerminal = false ∧ p ∈ q.blockTable

/-- Some entry resident in the prefix cache has the page. -/
def HeldByEntry (rt : RuntimeCore σ) (p : PageId) : Prop :=
  ∃ id e, rt.prefixCache.Resident id e ∧ p ∈ e.pages

def Held (rt : RuntimeCore σ) (p : PageId) : Prop :=
  rt.HeldByLive p ∨ rt.HeldByEntry p

/-- What holds of the pages in every reachable state. -/
structure PagesOwned (rt : RuntimeCore σ) : Prop where
  consistent : rt.kvCache.allocator.Consistent
  numPages : rt.kvCache.allocator.numPages = rt.kvCache.config.numPages
  tables : ∀ p, p ∈ rt.kvCache.allocator.usedPages ↔ rt.Tabled p
  entries : ∀ p, rt.HeldByEntry p → p ∈ rt.kvCache.allocator.usedPages
  bounded : rt.prefixCache.Bounded

/-- What a change keeps : tables only grow, and only those of live sequences gain pages that
were free, and an entry keeps its pages as long as it is resident. -/
structure PageStep (rt rt' : RuntimeCore σ) : Prop where
  tables : ∀ id q, rt.scheduler.get id = some q →
    ∃ q', rt'.scheduler.get id = some q' ∧ q.blockTable ⊆ q'.blockTable
  fresh : ∀ p ∈ rt'.kvCache.allocator.usedPages, p ∈ rt.kvCache.allocator.usedPages ∨
    ∃ id q q', rt.scheduler.get id = some q ∧ q.isTerminal = false ∧
      rt'.scheduler.get id = some q' ∧ p ∈ q'.blockTable
  entries : ∀ id e e', rt.prefixCache.Resident id e → rt'.prefixCache.Resident id e' →
    e'.pages = e.pages

theorem pagesOwned_create (config : RuntimeConfig) (executor : σ) :
    (create config executor).PagesOwned where
  consistent := ⟨List.nodup_range, by simp [create, PagedKVCache.fresh],
    by simp [create, PagedKVCache.fresh], by simp [create, PagedKVCache.fresh]⟩
  numPages := rfl
  tables p := by
    simp [create, PagedKVCache.fresh, Tabled, InteractiveScheduler.empty,
      InteractiveScheduler.get]
  entries p := by simp [create, HeldByEntry, PrefixCache.Resident]
  bounded := by simp [create, PrefixCache.Bounded]

/-- An entry that is still resident has the pages it had, whatever else became resident. -/
theorem pages_of_resident {c c' : PrefixCache} (pages : List PageId) (hc : c.Bounded)
    (hres : ∀ id e', c'.Resident id e' → (∃ e, c.Resident id e ∧ PrefixCache.SameContent e e') ∨
      id = c.nextEntryId ∧ e'.pages = pages)
    {id : EntryId} {e e' : PrefixCacheEntry} (h : c.Resident id e) (h' : c'.Resident id e') :
    e'.pages = e.pages := by
  rcases hres id e' h' with ⟨f, hf, hsame⟩ | ⟨rfl, -⟩
  · rw [hsame.1, h.unique hf]
  · exact absurd (hc _ e h.2) (lt_irrefl _)

/-- Writing back a sequence whose table grew, while entries got its pages at most. -/
theorem PagesOwned.put (h : rt.PagesOwned) {s t : Sequence} {pages : List PageId}
    (hget : rt.scheduler.get t.seqId = some s) (hsched : rt'.scheduler = rt.scheduler.put t)
    (hgrow : PagedKVCache.Grows rt.kvCache s.blockTable rt'.kvCache t.blockTable pages)
    (hlive : s.isTerminal = false ∨ pages = [])
    (hres : ∀ id e', rt'.prefixCache.Resident id e' →
      (∃ e, rt.prefixCache.Resident id e ∧ PrefixCache.SameContent e e') ∨
        id = rt.prefixCache.nextEntryId ∧ e'.pages = t.blockTable)
    (hb : rt'.prefixCache.Bounded) : rt'.PagesOwned ∧ PageStep rt rt' := by
  have hsub : s.blockTable ⊆ t.blockTable := by
    rw [hgrow.table_eq]
    exact List.subset_append_left _ _
  have hself : rt'.scheduler.get t.seqId = some t := by
    rw [hsched]
    exact InteractiveScheduler.get_put t
  have hother : ∀ id, id ≠ t.seqId → rt'.scheduler.get id = rt.scheduler.get id := fun id hid => by
    rw [hsched]
    exact InteractiveScheduler.get_put_of_ne hid
  have htabled : ∀ p, rt'.Tabled p ↔ rt.Tabled p ∨ p ∈ pages := by
    intro p
    constructor
    · rintro ⟨id, q, hq, hp⟩
      by_cases hid : id = t.seqId
      · rw [hid, hself, Option.some.injEq] at hq
        rw [← hq, hgrow.table_eq, List.mem_append] at hp
        exact hp.imp_left fun hp => ⟨t.seqId, s, hget, hp⟩
      · exact .inl ⟨id, q, hother id hid ▸ hq, hp⟩
    · rintro (⟨id, q, hq, hp⟩ | hp)
      · by_cases hid : id = t.seqId
        · rw [hid, hget, Option.some.injEq] at hq
          exact ⟨t.seqId, t, hself, hsub (hq ▸ hp)⟩
        · exact ⟨id, q, (hother id hid).trans hq, hp⟩
      · exact ⟨t.seqId, t, hself, by simp [hgrow.table_eq, hp]⟩
  have hused : ∀ p, p ∈ rt'.kvCache.allocator.usedPages ↔
      p ∈ rt.kvCache.allocator.usedPages ∨ p ∈ pages := by
    simp [hgrow.used]
  refine ⟨⟨hgrow.consistent, ?_, fun p => ?_, ?_, hb⟩, ?_, fun p hp => ?_, ?_⟩
  · rw [hgrow.numPages, h.numPages, hgrow.config]
  · rw [hused, htabled, h.tables]
  · rintro p ⟨id, e', hres', hp⟩
    rcases hres id e' hres' with ⟨e, he, hsame⟩ | ⟨-, hpages⟩
    · exact (hused p).2 (.inl (h.entries p ⟨id, e, he, hsame.1 ▸ hp⟩))
    · rw [hused, h.tables, ← htabled]
      exact ⟨t.seqId, t, hself, hpages ▸ hp⟩
  · intro id q hq
    by_cases hid : id = t.seqId
    · rw [hid, hget, Option.some.injEq] at hq
      exact ⟨t, hid ▸ hself, hq ▸ hsub⟩
    · exact ⟨q, (hother id hid).trans hq, List.Subset.refl _⟩
  · rcases (hused p).1 hp with hp | hp
    · exact .inl hp
    · refine .inr ⟨t.seqId, s, t, hget, hlive.resolve_right ?_, hself, by simp [hgrow.table_eq, hp]⟩
      rintro rfl
      simp at hp
  · exact fun id e e' he he' => pages_of_resident _ h.bounded hres he he'

/-- A change of the entries' references, the sessions or the clock, which no table sees. -/
theorem PagesOwned.same (h : rt.PagesOwned) (hsched : rt'.scheduler = rt.scheduler)
    (hkv : rt'.kvCache = rt.kvCache)
    (hres : ∀ id e', rt'.prefixCache.Resident id e' →
      ∃ e, rt.prefixCache.Resident id e ∧ PrefixCache.SameContent e e')
    (hb : rt'.prefixCache.Bounded) : rt'.PagesOwned ∧ PageStep rt rt' := by
  refine ⟨⟨hkv ▸ h.consistent, hkv ▸ h.numPages, fun p => ?_, ?_, hb⟩, ?_, fun p hp => ?_, ?_⟩
  · rw [hkv, h.tables, Tabled, Tabled, hsched]
  · rintro p ⟨id, e', hres', hp⟩
    obtain ⟨e, he, hsame⟩ := hres id e' hres'
    rw [hkv]
    exact h.entries p ⟨id, e, he, hsame.1 ▸ hp⟩
  · exact fun id q hq => ⟨q, hsched ▸ hq, List.Subset.refl _⟩
  · exact .inl (hkv ▸ hp)
  · exact fun id e e' he he' => pages_of_resident [] h.bounded
      (fun id e' hr => .inl (hres id e' hr)) he he'

/-- The match of a new request : its pages are in use. -/
theorem PagesOwned.match_pages (h : rt.PagesOwned) {m : PrefixMatch} {inputIds : List TokenId}
    {c : PrefixCache}
    (hm : (m, c) = if ex.supportsPrefixCache then rt.prefixCache.matchPrefix rt.now inputIds
      else ({ matchedTokens := 0, pages := [] }, rt.prefixCache)) :
    (∀ p ∈ m.pages, p ∈ rt.kvCache.allocator.usedPages) ∧ c.Bounded ∧
      ∀ id e', c.Resident id e' →
        ∃ e, rt.prefixCache.Resident id e ∧ PrefixCache.SameContent e e' := by
  split_ifs at hm
  · obtain rfl : m = (rt.prefixCache.matchPrefix rt.now inputIds).1 := congrArg Prod.fst hm
    obtain rfl : c = (rt.prefixCache.matchPrefix rt.now inputIds).2 := congrArg Prod.snd hm
    refine ⟨fun p hp => ?_, h.bounded.matchPrefix _ _,
      fun id e' => PrefixCache.resident_matchPrefix⟩
    rcases rt.prefixCache.matchPrefix_cases rt.now inputIds with hm | ⟨id, e, he, -, -, hm⟩
    · simp [hm] at hp
    · rw [hm] at hp
      exact h.entries p ⟨id, e, he, hp⟩
  · obtain ⟨rfl, rfl⟩ := Prod.mk.inj hm
    exact ⟨by simp, h.bounded, fun id e' he => ⟨e', he, rfl, rfl, rfl⟩⟩

/-- A new sequence starts with pages in use. -/
theorem PagesOwned.added (h : rt.PagesOwned) (hrt : rt.Sound) {request : Request} {seqId : SeqId}
    {sessionId : SessionId} {inputIds : List TokenId} {m : PrefixMatch}
    (hid : rt.nextUuid ≤ seqId)
    (hm : (m, rt'.prefixCache) =
      if ex.supportsPrefixCache then rt.prefixCache.matchPrefix rt.now inputIds
        else ({ matchedTokens := 0, pages := [] }, rt.prefixCache))
    (hs : rt'.scheduler =
      rt.scheduler.addSequence (request.sequence seqId sessionId inputIds m rt.now))
    (hkv : rt'.kvCache = rt.kvCache) : rt'.PagesOwned ∧ PageStep rt rt' := by
  obtain ⟨hpages, hb, hres⟩ := h.match_pages hm
  have hnone : rt.scheduler.get seqId = none := hrt.get_eq_none hid
  have hself : rt'.scheduler.get seqId =
      some (request.sequence seqId sessionId inputIds m rt.now) := by
    rw [hs]
    exact rt.scheduler.get_addSequence _
  have hother : ∀ id, id ≠ seqId → rt'.scheduler.get id = rt.scheduler.get id := fun id hne => by
    rw [hs]
    exact InteractiveScheduler.get_addSequence_of_ne (by simpa using hne)
  have hkept : ∀ id q, rt.scheduler.get id = some q → rt'.scheduler.get id = some q := by
    intro id q hq
    rw [hother id ?_, hq]
    rintro rfl
    rw [hnone] at hq
    cases hq
  refine ⟨⟨hkv ▸ h.consistent, hkv ▸ h.numPages, fun p => ?_, ?_, hb⟩, ?_, fun p hp => ?_, ?_⟩
  · rw [hkv]
    constructor
    · intro hp
      obtain ⟨id, q, hq, hp⟩ := (h.tables p).1 hp
      exact ⟨id, q, hkept id q hq, hp⟩
    · rintro ⟨id, q, hq, hp⟩
      by_cases hne : id = seqId
      · rw [hne, hself, Option.some.injEq] at hq
        subst hq
        exact hpages p hp
      · exact (h.tables p).2 ⟨id, q, hother id hne ▸ hq, hp⟩
  · rintro p ⟨id, e', hres', hp⟩
    obtain ⟨e, he, hsame⟩ := hres id e' hres'
    rw [hkv]
    exact h.entries p ⟨id, e, he, hsame.1 ▸ hp⟩
  · exact fun id q hq => ⟨q, hkept id q hq, List.Subset.refl _⟩
  · exact .inl (hkv ▸ hp)
  · exact fun id e e' he he' => pages_of_resident [] h.bounded
      (fun id e' hr => .inl (hres id e' hr)) he he'

/-- Every change keeps the ownership of the pages. -/
theorem Change.pages {e : Event} (h : Change ex rt rt' e) (hrt : rt.Sound) (hp : rt.PagesOwned) :
    rt'.PagesOwned ∧ PageStep rt rt' := by
  have hkv : ∀ {kv : PagedKVCache} (s : Sequence), kv = rt.kvCache →
      PagedKVCache.Grows rt.kvCache s.blockTable kv s.blockTable [] := by
    rintro kv s rfl
    exact .refl hp.consistent s.blockTable
  cases h with
  | quiet h =>
    refine hp.same h.scheduler h.kvCache ?_ (h.prefixCache ▸ hp.bounded)
    rw [h.prefixCache]
    exact fun id e' he => ⟨e', he, rfl, rfl, rfl⟩
  | added request seqId sessionId inputIds m hprompt hid hid' hm hs hkv' hex =>
    exact hp.added hrt hid hm hs hkv'
  | cancelled s b hget hlive h =>
    refine hp.put (t := withAppended s.markCancelled b) hget h.scheduler (hkv s h.kvCache)
      (.inr rfl) ?_ (h.prefixCache ▸ hp.bounded.release _)
    rw [h.prefixCache]
    exact fun id e' he => .inl (PrefixCache.resident_release he)
  | finished s b hget hdone h =>
    refine hp.put (t := withAppended s b) hget h.scheduler (hkv s h.kvCache)
      (.inr rfl) ?_ (h.prefixCache ▸ hp.bounded.release _)
    rw [h.prefixCache]
    exact fun id e' he => .inl (PrefixCache.resident_release he)
  | selected s hsel h =>
    obtain ⟨hget, hlive⟩ := hrt.wellFormed.selectNextSequence hsel
    refine hp.put (t := s.scheduled) hget h.scheduler (hkv s h.kvCache) (.inr rfl) ?_
      (h.prefixCache ▸ hp.bounded)
    rw [h.prefixCache]
    exact fun id e' he => .inl ⟨e', he, rfl, rfl, rfl⟩
  | executed s batch r c hsel hb hx h =>
    subst h
    have hx := BatchContext.executed_of_eq hx
    obtain ⟨hget, hlive⟩ := hrt.wellFormed.selectNextSequence hsel
    obtain ⟨pages, hgrow⟩ := hx.kvSteps.grows hp.consistent
    refine hp.put (s := s) (t := c.sequence) (hx.seqId ▸ hget) rfl hgrow (.inl hlive) ?_ ?_
    · intro id e' he
      simp only [setContext] at he
      rcases hx.prefixCache with ⟨hpc, -⟩ | ⟨-, -, -, -, hpc⟩ <;> rw [hpc] at he
      · exact .inl ⟨e', he, rfl, rfl, rfl⟩
      · exact (PrefixCache.resident_insert he).imp (fun he => ⟨e', he, rfl, rfl, rfl⟩)
          fun he => ⟨he.1, he.2.1⟩
    · simp only [setContext]
      rcases hx.prefixCache with ⟨hpc, -⟩ | ⟨-, -, -, -, hpc⟩ <;> rw [hpc]
      · exact hp.bounded
      · exact hp.bounded.insert _ _ _ _
  | evicted n h =>
    subst h
    exact hp.same rfl rfl (fun id e' he => ⟨e', PrefixCache.resident_evict he, rfl, rfl, rfl⟩)
      (hp.bounded.evict n)

/-- Whatever is held is in use. -/
theorem PagesOwned.used_of_held (h : rt.PagesOwned) {p : PageId} (hp : rt.Held p) :
    p ∈ rt.kvCache.allocator.usedPages := by
  rcases hp with ⟨id, q, hq, -, hp⟩ | hp
  · exact (h.tables p).2 ⟨id, q, hq, hp⟩
  · exact h.entries p hp

end RuntimeCore

/-! ## Runs -/

namespace ServerState

variable {σ : Type} {s : ServerState σ}

/-- What holds of every state of a run. -/
def Owned (s : ServerState σ) : Prop :=
  s.Sound ∧ s.runtime.PagesOwned

theorem Owned.step (h : s.Owned) (ex : ModelExecutor σ) (e : Event) :
    (s.step ex e).Owned ∧ RuntimeCore.PageStep s.runtime (s.step ex e).runtime := by
  obtain ⟨hp, hstep⟩ := (step_change ex s h.1.runtime.wellFormed e).pages h.1.runtime h.2
  exact ⟨⟨h.1.step e, hp⟩, hstep⟩

theorem owned_init (config : RuntimeConfig) (executor : σ) : (init config executor).Owned :=
  ⟨sound_init config executor, RuntimeCore.pagesOwned_create config executor⟩

end ServerState

end SoloRT
