import SoloRT.PageOwnership

/-!
# Sharing the pages of a prefix

A prefix hit hands the whole page list of an entry to a new sequence, the partly filled
last page included. Nothing copies that page, so two sequences write the same slots once
both go on from it.

`Sharing` is the invariant that keeps the slots apart. Every page has one logical index
(`index`), a page of two live sequences is full in both (`live`), and a live sequence with a
page of a resident entry has filled what the entry covers of it (`entry`). It holds along
every run whose requests never hit an entry with an open page that is still in use
(`OpenPagesFree`), and then no batch writes a slot that is not its own
(`SlotsExclusive`).
-/

namespace SoloRT

/-- The prompt tokens of a sequence whose K/V is in its pages. -/
def Sequence.filled (s : Sequence) : ℕ :=
  s.numCachedTokens + s.numScheduledTokens

namespace RuntimeCore

variable {σ : Type} {ex : ModelExecutor σ} {rt rt' : RuntimeCore σ}

/-- The invariant on the pages that sequences and entries share. -/
structure Sharing (rt : RuntimeCore σ) : Prop where
  owned : rt.PagesOwned
  filled : ∀ id q, rt.scheduler.get id = some q →
    q.filled ≤ q.numPromptTokens ∧ q.numPromptTokens = q.inputIds.length
  index : ∀ id id' q q' (i j : ℕ) (p : PageId), rt.scheduler.get id = some q →
    rt.scheduler.get id' = some q' → q.blockTable[i]? = some p → q'.blockTable[j]? = some p →
    i = j
  origin : ∀ i e, rt.prefixCache.Resident i e →
    ∃ id q, rt.scheduler.get id = some q ∧ e.pages <+: q.blockTable
  live : ∀ id id' q q' (i : ℕ) (p : PageId), id ≠ id' → rt.scheduler.get id = some q →
    rt.scheduler.get id' = some q' → q.isTerminal = false → q'.isTerminal = false →
    q.blockTable[i]? = some p → q'.blockTable[i]? = some p →
    (i + 1) * rt.kvCache.config.pageSize ≤ q.filled
  entry : ∀ n e id q (k : ℕ) (p : PageId), rt.prefixCache.Resident n e →
    rt.scheduler.get id = some q → q.isTerminal = false →
    e.pages[k]? = some p → q.blockTable[k]? = some p →
    min e.tokenCount ((k + 1) * rt.kvCache.config.pageSize) ≤ q.filled

/-- If the request hits an entry, no page of the entry that is not full is in the table of a
live sequence, or in another resident entry that covers more tokens. -/
def OpenPagesFree (ex : ModelExecutor σ) (rt : RuntimeCore σ) (request : Request) : Prop :=
  ∀ inputIds n e (k : ℕ) (p : PageId), ex.supportsPrefixCache = true →
    rt.promptOf ex request = .ok inputIds →
    (rt.prefixCache.matchPrefix rt.now inputIds).1.entry = some n →
    rt.prefixCache.Resident n e → e.pages[k]? = some p →
    e.tokenCount < (k + 1) * rt.kvCache.config.pageSize →
    ¬rt.HeldByLive p ∧ ∀ n' e', n' ≠ n → rt.prefixCache.Resident n' e' → p ∈ e'.pages →
      e'.tokenCount ≤ e.tokenCount

theorem sharing_create (config : RuntimeConfig) (executor : σ) :
    (create config executor).Sharing := by
  refine ⟨pagesOwned_create config executor, ?_, ?_, ?_, ?_, ?_⟩ <;>
    simp [create, InteractiveScheduler.empty, InteractiveScheduler.get, PrefixCache.Resident]

/-- A page at some index of a stored table is in use. -/
theorem PagesOwned.used_of_getElem? (h : rt.PagesOwned) {id : SeqId} {q : Sequence}
    (hq : rt.scheduler.get id = some q) {i : ℕ} {p : PageId} (hp : q.blockTable[i]? = some p) :
    p ∈ rt.kvCache.allocator.usedPages :=
  (h.tables p).2 ⟨id, q, hq, List.mem_of_getElem? hp⟩

/-- A page at some index of a grown table was there before, or is a fresh one. -/
theorem getElem?_of_grows {kv kv' : PagedKVCache} {table table' pages : List PageId}
    (h : PagedKVCache.Grows kv table kv' table' pages) {i : ℕ} {p : PageId}
    (hp : table'[i]? = some p) :
    table[i]? = some p ∨ table.length ≤ i ∧ pages[i - table.length]? = some p ∧
      p ∉ kv.allocator.usedPages := by
  rw [h.table_eq] at hp
  rcases Nat.lt_or_ge i table.length with hi | hi
  · rw [List.getElem?_append_left hi] at hp
    exact .inl hp
  · rw [List.getElem?_append_right hi] at hp
    exact .inr ⟨hi, hp, h.fresh p (List.mem_of_getElem? hp)⟩

/-- Writing back a sequence whose table and progress grew, while an entry for what it has
filled may become resident. -/
theorem Sharing.put (h : rt.Sharing) (ho : rt'.PagesOwned) {s t : Sequence} {pages : List PageId}
    (hget : rt.scheduler.get t.seqId = some s) (hsched : rt'.scheduler = rt.scheduler.put t)
    (hgrow : PagedKVCache.Grows rt.kvCache s.blockTable rt'.kvCache t.blockTable pages)
    (hlive : t.isTerminal = false → s.isTerminal = false) (hfill : s.filled ≤ t.filled)
    (hprompt : t.filled ≤ t.numPromptTokens ∧ t.numPromptTokens = t.inputIds.length)
    (hres : ∀ n e', rt'.prefixCache.Resident n e' →
      (∃ e, rt.prefixCache.Resident n e ∧ PrefixCache.SameContent e e') ∨
        s.isTerminal = false ∧ e'.pages = t.blockTable ∧ e'.tokenCount ≤ t.filled) :
    rt'.Sharing := by
  have hself : rt'.scheduler.get t.seqId = some t := by
    rw [hsched]
    exact InteractiveScheduler.get_put t
  have hother : ∀ id, id ≠ t.seqId → rt'.scheduler.get id = rt.scheduler.get id := fun id hid => by
    rw [hsched]
    exact InteractiveScheduler.get_put_of_ne hid
  -- where a page of a table comes from
  have hback : ∀ {id q' i p}, rt'.scheduler.get id = some q' → q'.blockTable[i]? = some p →
      (∃ q, rt.scheduler.get id = some q ∧ q.blockTable[i]? = some p ∧ q.filled ≤ q'.filled ∧
        (q'.isTerminal = false → q.isTerminal = false)) ∨
      id = t.seqId ∧ s.blockTable.length ≤ i ∧ pages[i - s.blockTable.length]? = some p ∧
        p ∉ rt.kvCache.allocator.usedPages := by
    intro id q' i p hq' hp
    by_cases hid : id = t.seqId
    · rw [hid, hself, Option.some.injEq] at hq'
      subst hq'
      rcases getElem?_of_grows hgrow hp with hp | hp
      · exact .inl ⟨s, hid ▸ hget, hp, hfill, hlive⟩
      · exact .inr ⟨hid, hp⟩
    · exact .inl ⟨q', hother id hid ▸ hq', hp, le_rfl, fun h => h⟩
  have hused : ∀ {id q i p}, rt.scheduler.get id = some q → q.blockTable[i]? = some p →
      p ∈ rt.kvCache.allocator.usedPages := fun hq hp => h.owned.used_of_getElem? hq hp
  have hsub : s.blockTable <+: t.blockTable := hgrow.table_eq ▸ List.prefix_append _ _
  refine ⟨ho, ?_, ?_, ?_, ?_, ?_⟩
  · intro id q' hq'
    by_cases hid : id = t.seqId
    · rw [hid, hself, Option.some.injEq] at hq'
      exact hq' ▸ hprompt
    · exact h.filled id q' (hother id hid ▸ hq')
  · intro id id' q q' i j p hq hq' hp hp'
    rcases hback hq hp with ⟨r, hr, hrp, -⟩ | ⟨-, hi, hpi, hfresh⟩
    · rcases hback hq' hp' with ⟨r', hr', hrp', -⟩ | ⟨-, -, -, hfresh⟩
      · exact h.index id id' r r' i j p hr hr' hrp hrp'
      · exact absurd (hused hr hrp) hfresh
    · rcases hback hq' hp' with ⟨r', hr', hrp', -⟩ | ⟨-, hj, hpj, -⟩
      · exact absurd (hused hr' hrp') hfresh
      · have hlt := (List.getElem?_eq_some_iff.1 hpi).1
        have heq := (List.getElem?_inj hlt hgrow.nodup).1 (hpi.trans hpj.symm)
        omega
  · intro n e' he'
    rcases hres n e' he' with ⟨e, he, hsame⟩ | ⟨-, hpages, -⟩
    · obtain ⟨id, q, hq, hpre⟩ := h.origin n e he
      rw [hsame.1]
      by_cases hid : id = t.seqId
      · rw [hid, hget, Option.some.injEq] at hq
        subst hq
        exact ⟨t.seqId, t, hself, hpre.trans hsub⟩
      · exact ⟨id, q, (hother id hid).trans hq, hpre⟩
    · exact ⟨t.seqId, t, hself, hpages ▸ List.prefix_refl _⟩
  · intro id id' q q' i p hne hq hq' hql hql' hp hp'
    rw [hgrow.config]
    rcases hback hq hp with ⟨r, hr, hrp, hle, hrl⟩ | ⟨hid, -, -, hfresh⟩
    · rcases hback hq' hp' with ⟨r', hr', hrp', -, hrl'⟩ | ⟨-, -, -, hfresh⟩
      · exact (h.live id id' r r' i p hne hr hr' (hrl hql) (hrl' hql') hrp hrp').trans hle
      · exact absurd (hused hr hrp) hfresh
    · rcases hback hq' hp' with ⟨r', hr', hrp', -⟩ | ⟨hid', -⟩
      · exact absurd (hused hr' hrp') hfresh
      · exact absurd (hid.trans hid'.symm) hne
  · intro n e' id q' k p he' hq' hql hpe hp
    rw [hgrow.config]
    rcases hres n e' he' with ⟨e, he, hsame⟩ | ⟨hsl, hpages, hcount⟩
    · rw [hsame.1] at hpe
      rcases hback hq' hp with ⟨r, hr, hrp, hle, hrl⟩ | ⟨-, -, -, hfresh⟩
      · rw [hsame.2.2]
        exact (h.entry n e id r k p he hr (hrl hql) hpe hrp).trans hle
      · exact absurd (h.owned.entries p ⟨n, e, he, List.mem_of_getElem? hpe⟩) hfresh
    · by_cases hid : id = t.seqId
      · rw [hid, hself, Option.some.injEq] at hq'
        exact hq' ▸ (Nat.min_le_left _ _).trans hcount
      · have hold := hother id hid ▸ hq'
        rw [hpages] at hpe
        rcases getElem?_of_grows hgrow hpe with hpe | ⟨-, -, hfresh⟩
        · exact (Nat.min_le_right _ _).trans
            (h.live id t.seqId q' s k p hid hold hget hql hsl hp hpe)
        · exact absurd (hused hold hp) hfresh

theorem getElem?_of_isPrefix {α : Type} {l l' : List α} (h : l <+: l') {i : ℕ} {p : α}
    (hp : l[i]? = some p) : l'[i]? = some p := by
  obtain ⟨rest, rfl⟩ := h
  rw [List.getElem?_append_left (List.getElem?_eq_some_iff.1 hp).1, hp]

/-- A change that no table sees, and after which every resident entry was one before. -/
theorem Sharing.same (h : rt.Sharing) (ho : rt'.PagesOwned) (hsched : rt'.scheduler = rt.scheduler)
    (hkv : rt'.kvCache = rt.kvCache)
    (hres : ∀ n e', rt'.prefixCache.Resident n e' →
      ∃ e, rt.prefixCache.Resident n e ∧ PrefixCache.SameContent e e') : rt'.Sharing := by
  refine ⟨ho, ?_, ?_, fun n e' he' => ?_, ?_, fun n e' id q k p he' hq hql hpe hp => ?_⟩
  · rw [hsched]
    exact h.filled
  · rw [hsched]
    exact h.index
  · obtain ⟨e, he, hsame⟩ := hres n e' he'
    rw [hsched, hsame.1]
    exact h.origin n e he
  · rw [hsched, hkv]
    exact h.live
  · obtain ⟨e, he, hsame⟩ := hres n e' he'
    rw [hkv, hsame.2.2]
    exact h.entry n e id q k p he (hsched ▸ hq) hql (hsame.1 ▸ hpe) hp

/-- What a new sequence starts with : no pages, or those of an entry whose open pages are free. -/
def StartsWith (rt : RuntimeCore σ) (inputIds : List TokenId) (m : PrefixMatch) : Prop :=
  (m.pages = [] ∧ m.matchedTokens = 0) ∨ ∃ n e, rt.prefixCache.Resident n e ∧
    m.pages = e.pages ∧ m.matchedTokens = e.tokenCount ∧ e.tokenCount ≤ inputIds.length ∧
    ∀ (k : ℕ) (p : PageId), e.pages[k]? = some p →
      e.tokenCount < (k + 1) * rt.kvCache.config.pageSize →
      ¬rt.HeldByLive p ∧ ∀ n' e', n' ≠ n → rt.prefixCache.Resident n' e' → p ∈ e'.pages →
        e'.tokenCount ≤ e.tokenCount

theorem OpenPagesFree.startsWith {request : Request} {inputIds : List TokenId} {m : PrefixMatch}
    {c : PrefixCache} (hopen : OpenPagesFree ex rt request)
    (hprompt : rt.promptOf ex request = .ok inputIds)
    (hm : (m, c) = if ex.supportsPrefixCache then rt.prefixCache.matchPrefix rt.now inputIds
      else ({ matchedTokens := 0, pages := [] }, rt.prefixCache)) : rt.StartsWith inputIds m := by
  split_ifs at hm with hsup
  · obtain rfl : m = (rt.prefixCache.matchPrefix rt.now inputIds).1 := congrArg Prod.fst hm
    rcases rt.prefixCache.matchPrefix_cases rt.now inputIds with hmiss | ⟨n, e, he, hle, -, hhit⟩
    · rw [hmiss]
      exact .inl ⟨rfl, rfl⟩
    · refine .inr ⟨n, e, he, by rw [hhit], by rw [hhit], hle, fun k p hp hlt => ?_⟩
      exact hopen inputIds n e k p hsup hprompt (by rw [hhit]) he hp hlt
  · obtain rfl : m = { matchedTokens := 0, pages := [] } := congrArg Prod.fst hm
    exact .inl ⟨rfl, rfl⟩

/-- A new sequence with the pages of the entry it hit, or with none. -/
theorem Sharing.added (h : rt.Sharing) (ho : rt'.PagesOwned) (hrt : rt.Sound) {request : Request}
    {seqId : SeqId} {sessionId : SessionId} {inputIds : List TokenId} {m : PrefixMatch}
    (hopen : OpenPagesFree ex rt request) (hprompt : rt.promptOf ex request = .ok inputIds)
    (hid : rt.nextUuid ≤ seqId)
    (hm : (m, rt'.prefixCache) =
      if ex.supportsPrefixCache then rt.prefixCache.matchPrefix rt.now inputIds
        else ({ matchedTokens := 0, pages := [] }, rt.prefixCache))
    (hs : rt'.scheduler =
      rt.scheduler.addSequence (request.sequence seqId sessionId inputIds m rt.now))
    (hkv : rt'.kvCache = rt.kvCache) : rt'.Sharing := by
  obtain ⟨-, -, hres⟩ := h.owned.match_pages hm
  have hhit := hopen.startsWith hprompt hm
  set t := request.sequence seqId sessionId inputIds m rt.now with ht
  have hself : rt'.scheduler.get seqId = some t := by
    rw [hs]
    exact rt.scheduler.get_addSequence t
  have hother : ∀ id, id ≠ seqId → rt'.scheduler.get id = rt.scheduler.get id := fun id hne => by
    rw [hs]
    exact InteractiveScheduler.get_addSequence_of_ne (by simpa [ht] using hne)
  have htable : t.blockTable = m.pages := rfl
  have hfilled : t.filled = m.matchedTokens := rfl
  -- a page of the new sequence is at the same index of an older one
  have hback : ∀ {id q'} {i : ℕ} {p : PageId}, rt'.scheduler.get id = some q' →
      q'.blockTable[i]? = some p →
      ∃ id₀ q, rt.scheduler.get id₀ = some q ∧ q.blockTable[i]? = some p := by
    intro id q' i p hq' hp
    by_cases hne : id = seqId
    · rw [hne, hself, Option.some.injEq] at hq'
      rw [← hq', htable] at hp
      rcases hhit with ⟨hnil, -⟩ | ⟨n, e, he, hpages, -⟩
      · simp [hnil] at hp
      · obtain ⟨id₀, q, hq, hpre⟩ := h.origin n e he
        exact ⟨id₀, q, hq, getElem?_of_isPrefix hpre (hpages ▸ hp)⟩
    · exact ⟨id, q', hother id hne ▸ hq', hp⟩
  refine ⟨ho, ?_, ?_, ?_, ?_, ?_⟩
  · intro id q hq
    by_cases hne : id = seqId
    · rw [hne, hself, Option.some.injEq] at hq
      subst hq
      refine ⟨?_, rfl⟩
      show m.matchedTokens ≤ inputIds.length
      rcases hhit with ⟨-, h0⟩ | ⟨n, e, -, -, hcount, hle, -⟩ <;> omega
    · exact h.filled id q (hother id hne ▸ hq)
  · intro id id' q q' i j p hq hq' hp hp'
    obtain ⟨i₀, r, hr, hrp⟩ := hback hq hp
    obtain ⟨j₀, r', hr', hrp'⟩ := hback hq' hp'
    exact h.index i₀ j₀ r r' i j p hr hr' hrp hrp'
  · intro n e' he'
    obtain ⟨e, he, hsame⟩ := hres n e' he'
    obtain ⟨id, q, hq, hpre⟩ := h.origin n e he
    refine ⟨id, q, ?_, hsame.1 ▸ hpre⟩
    rw [hother id ?_, hq]
    rintro rfl
    rw [hrt.get_eq_none hid] at hq
    cases hq
  · intro id id' q q' i p hne hq hq' hql hql' hp hp'
    rw [hkv]
    by_cases hid₁ : id = seqId
    · have hq'old := hother id' (hid₁ ▸ hne.symm) ▸ hq'
      rw [hid₁, hself, Option.some.injEq] at hq
      subst hq
      rcases hhit with ⟨hnil, -⟩ | ⟨n, e, he, hpages, hcount, -, hfree⟩
      · simp [htable, hnil] at hp
      · rw [hfilled, hcount]
        by_contra hlt
        exact (hfree i p (hpages ▸ hp) (not_le.1 hlt)).1
          ⟨id', q', hq'old, hql', List.mem_of_getElem? hp'⟩
    · have hqold := hother id hid₁ ▸ hq
      by_cases hid₂ : id' = seqId
      · rw [hid₂, hself, Option.some.injEq] at hq'
        subst hq'
        rcases hhit with ⟨hnil, -⟩ | ⟨n, e, he, hpages, hcount, -, hfree⟩
        · simp [htable, hnil] at hp'
        · have hpe : e.pages[i]? = some p := hpages ▸ hp'
          have hfull : (i + 1) * rt.kvCache.config.pageSize ≤ e.tokenCount := by
            by_contra hlt
            exact (hfree i p hpe (not_le.1 hlt)).1 ⟨id, q, hqold, hql, List.mem_of_getElem? hp⟩
          have hcov := h.entry n e id q i p he hqold hql hpe hp
          rwa [Nat.min_eq_right hfull] at hcov
      · exact h.live id id' q q' i p hne hqold (hother id' hid₂ ▸ hq') hql hql' hp hp'
  · intro n' e' id q k p he' hq hql hpe hp
    rw [hkv]
    obtain ⟨e₀, he₀, hsame⟩ := hres n' e' he'
    rw [hsame.1] at hpe
    rw [hsame.2.2]
    by_cases hne : id = seqId
    · rw [hne, hself, Option.some.injEq] at hq
      subst hq
      rcases hhit with ⟨hnil, -⟩ | ⟨n, e, he, hpages, hcount, -, hfree⟩
      · simp [htable, hnil] at hp
      · rw [hfilled, hcount]
        rw [htable, hpages] at hp
        by_cases hn : n' = n
        · subst hn
          rw [he.unique he₀]
          exact Nat.min_le_left _ _
        · rcases Nat.lt_or_ge e.tokenCount ((k + 1) * rt.kvCache.config.pageSize) with hlt | hge
          · exact (Nat.min_le_left _ _).trans
              ((hfree k p hp hlt).2 n' e₀ hn he₀ (List.mem_of_getElem? hpe))
          · exact (Nat.min_le_right _ _).trans hge
    · exact h.entry n' e₀ id q k p he₀ (hother id hne ▸ hq) hql hpe hp

/-- A prefill chunk is no longer than what is left of the prompt. -/
theorem length_inputIds_of_buildBatch {sch : InteractiveScheduler} {budget : Option ℕ}
    {s : Sequence} {batch : Batch} (h : sch.buildBatch budget s = .ok batch)
    (hb : batch.phase = .prefill) : s.isPrefillComplete = false ∧
      batch.positions = List.range' s.filled batch.inputIds.length ∧
      s.filled + batch.inputIds.length ≤ s.numPromptTokens := by
  have hphase := InteractiveScheduler.buildBatch_ok h
  have hc : s.isPrefillComplete = false := by
    rw [← Bool.not_eq_true, ← hphase.2, hb]
    simp
  unfold InteractiveScheduler.buildBatch at h
  rw [if_neg (by simp [hc])] at h
  cases h
  refine ⟨hc, rfl, ?_⟩
  have hrem : s.remainingPrefillTokens = s.numPromptTokens - s.filled := rfl
  have hpos : 0 < s.remainingPrefillTokens := by
    simpa [Sequence.isPrefillComplete, Nat.pos_iff_ne_zero] using hc
  simp only [BatchBuilder.buildPrefill, List.length_take]
  omega

/-- Every change keeps the invariant, if a request is added on the condition. -/
theorem Change.sharing {e : Event} (h : Change ex rt rt' e) (hrt : rt.Sound) (hsh : rt.Sharing)
    (hopen : ∀ request, e = .addRequest request → OpenPagesFree ex rt request) : rt'.Sharing := by
  have ho := (h.pages hrt hsh.owned).1
  have hkv : ∀ {kv : PagedKVCache} (s : Sequence), kv = rt.kvCache →
      PagedKVCache.Grows rt.kvCache s.blockTable kv s.blockTable [] := by
    rintro kv s rfl
    exact .refl hsh.owned.consistent s.blockTable
  cases h with
  | quiet h =>
    refine hsh.same ho h.scheduler h.kvCache ?_
    rw [h.prefixCache]
    exact fun n e' he => ⟨e', he, rfl, rfl, rfl⟩
  | added request seqId sessionId inputIds m hprompt hid hid' hm hs hkv' hex =>
    exact hsh.added ho hrt (hopen request rfl) hprompt hid hm hs hkv'
  | cancelled s b hget hlive h =>
    refine hsh.put ho (t := withAppended s.markCancelled b) hget h.scheduler (hkv s h.kvCache)
      (fun _ => hlive) le_rfl (hsh.filled _ s hget) ?_
    rw [h.prefixCache]
    exact fun n e' he => .inl (PrefixCache.resident_release he)
  | finished s b hget hdone h =>
    refine hsh.put ho (t := withAppended s b) hget h.scheduler (hkv s h.kvCache)
      (fun hl => hl) le_rfl (hsh.filled _ s hget) ?_
    rw [h.prefixCache]
    exact fun n e' he => .inl (PrefixCache.resident_release he)
  | selected s hsel h =>
    obtain ⟨hget, hlive⟩ := hrt.wellFormed.selectNextSequence hsel
    refine hsh.put ho (t := s.scheduled) hget h.scheduler (hkv s h.kvCache) (fun _ => hlive)
      le_rfl (hsh.filled _ s hget) ?_
    rw [h.prefixCache]
    exact fun n e' he => .inl ⟨e', he, rfl, rfl, rfl⟩
  | executed s batch r c hsel hb hx h =>
    subst h
    have hx := BatchContext.executed_of_eq hx
    obtain ⟨hget, hlive⟩ := hrt.wellFormed.selectNextSequence hsel
    obtain ⟨pages, hgrow⟩ := hx.kvSteps.grows hsh.owned.consistent
    have hreq : c.sequence.request = s.request := hx.request
    have hcached : c.sequence.numCachedTokens = s.numCachedTokens :=
      Sequence.numCachedTokens_of_request hreq
    have hprompt : c.sequence.numPromptTokens = s.numPromptTokens :=
      Sequence.numPromptTokens_of_request hreq
    have hids : c.sequence.inputIds = s.inputIds := Sequence.inputIds_of_request hreq
    obtain ⟨hle, hlen⟩ := hsh.filled _ s hget
    -- the progress is the old one, or a chunk more
    have hfilled : c.sequence.filled = s.filled ∨
        s.filled ≤ c.sequence.filled ∧ c.sequence.filled ≤ s.numPromptTokens := by
      rcases hx.numScheduledTokens with hn | ⟨hphase, hn⟩
      · refine .inl ?_
        rw [Sequence.filled, hcached, hn]
        rfl
      · obtain ⟨-, -, hchunk⟩ := length_inputIds_of_buildBatch hb hphase
        have hnew : c.sequence.filled = s.filled + batch.inputIds.length := by
          rw [Sequence.filled, hcached, hn, ← Nat.add_assoc]
          rfl
        exact .inr ⟨hnew ▸ Nat.le_add_right _ _, hnew ▸ hchunk⟩
    refine hsh.put ho (s := s) (t := c.sequence) (hx.seqId ▸ hget) rfl hgrow (fun _ => hlive)
      (by omega) (by rw [hprompt, hids]; omega) fun n e' he' => ?_
    simp only [setContext] at he'
    rcases hx.prefixCache with ⟨hpc, -⟩ | ⟨hdone, -, -, -, hpc⟩ <;> rw [hpc] at he'
    · exact .inl ⟨e', he', rfl, rfl, rfl⟩
    · refine (PrefixCache.resident_insert he').imp (fun he => ⟨e', he, rfl, rfl, rfl⟩) ?_
      rintro ⟨-, hpages, -, hcount⟩
      have hcomplete := c.sequence.isPrefillComplete_iff.1 hdone
      have hcount' : e'.tokenCount = s.inputIds.length := hcount
      refine ⟨hlive, hpages, ?_⟩
      rw [hcount', ← hlen, ← hprompt]
      exact hcomplete
  | evicted n h =>
    subst h
    exact hsh.same ho rfl rfl fun n e' he => ⟨e', PrefixCache.resident_evict he, rfl, rfl, rfl⟩

/-! ## The slots a batch writes -/

/-- The next batch is one of `s`, and `slot` is in its slot mapping. -/
def NextSlot (ex : ModelExecutor σ) (rt : RuntimeCore σ) (s : Sequence) (slot : ℕ) : Prop :=
  rt.scheduler.selectNextSequence = some s ∧ ∃ batch batch' c slots,
    rt.scheduler.buildBatch none s.scheduled = .ok batch ∧
    (rt.context s.scheduled).attachKv ex batch ((rt.context s.scheduled).tokensAfter batch) =
      (.ok batch', c) ∧
    batch'.slotMapping = some slots ∧ slot ∈ slots

/-- No slot that the next batch writes is the slot of an existing token of another live
sequence. -/
def LiveTokensKept (ex : ModelExecutor σ) (rt : RuntimeCore σ) : Prop :=
  ∀ s slot, NextSlot ex rt s slot → ∀ id q y, id ≠ s.seqId → rt.scheduler.get id = some q →
    q.isTerminal = false → y < q.filled + q.outputIds.length →
    rt.kvCache.slotOf q.blockTable y ≠ .ok slot

/-- Neither is it the slot of a token that a resident entry covers. -/
structure SlotsExclusive (ex : ModelExecutor σ) (rt : RuntimeCore σ) : Prop where
  live : LiveTokensKept ex rt
  resident : ∀ s slot, NextSlot ex rt s slot → ∀ n e y, rt.prefixCache.Resident n e →
    y < e.tokenCount → rt.kvCache.slotOf e.pages y ≠ .ok slot

/-- A built batch has no slots yet, and its positions come after what is filled. -/
theorem positions_of_buildBatch {sch : InteractiveScheduler} {budget : Option ℕ} {s : Sequence}
    {batch : Batch} (h : sch.buildBatch budget s = .ok batch)
    (hs : s.filled ≤ s.numPromptTokens) :
    batch.slotMapping = none ∧ ∀ x ∈ batch.positions, s.filled ≤ x := by
  unfold InteractiveScheduler.buildBatch at h
  by_cases hc : s.isPrefillComplete = true
  · rw [if_pos hc] at h
    obtain ⟨-, -, hpos⟩ := BatchBuilder.buildDecode_ok h
    refine ⟨?_, fun x hx => ?_⟩
    · unfold BatchBuilder.buildDecode at h
      dsimp only at h
      split at h <;> cases h
      rfl
    · rw [hpos, List.mem_singleton] at hx
      omega
  · rw [if_neg hc] at h
    cases h
    exact ⟨rfl, fun x hx => (List.mem_range'_1.1 hx).1⟩

/-- Two positions with one slot have their page and their offset in common. -/
theorem slotOf_inj {kv : PagedKVCache} {table table' : List PageId} {x y slot : ℕ}
    (hx : kv.slotOf table x = .ok slot) (hy : kv.slotOf table' y = .ok slot) :
    x % kv.config.pageSize = y % kv.config.pageSize ∧
      ∃ p, table[x / kv.config.pageSize]? = some p ∧ table'[y / kv.config.pageSize]? = some p := by
  obtain ⟨p, hp, rfl⟩ := PagedKVCache.slotOf_ok hx
  obtain ⟨p', hp', heq⟩ := PagedKVCache.slotOf_ok hy
  have hpos := kv.config.pageSize_pos
  have hdivmod : ∀ p z, (p * kv.config.pageSize + z % kv.config.pageSize) / kv.config.pageSize = p ∧
      (p * kv.config.pageSize + z % kv.config.pageSize) % kv.config.pageSize =
        z % kv.config.pageSize := fun p z => by
    rw [Nat.mul_comm, Nat.mul_add_mod, Nat.mod_mod, Nat.mul_add_div hpos,
      Nat.div_eq_of_lt (Nat.mod_lt z hpos)]
    exact ⟨rfl, rfl⟩
  have hmod := (hdivmod p x).2
  have hdiv := (hdivmod p x).1
  rw [heq] at hmod hdiv
  refine ⟨hmod.symm.trans (hdivmod p' y).2, p, hp, ?_⟩
  rw [hp', ← hdiv, (hdivmod p' y).1]

/-- A slot of the next batch belongs to a position that is not filled yet, and a page in use
at that position was in the table before. -/
theorem Sharing.position_of_nextSlot (h : rt.Sharing) (hrt : rt.Sound) {s : Sequence} {slot : ℕ}
    (hnext : NextSlot ex rt s slot) : ∃ table x, rt.kvCache.slotOf table x = .ok slot ∧
      s.filled ≤ x ∧ ∀ p, table[x / rt.kvCache.config.pageSize]? = some p →
        p ∈ rt.kvCache.allocator.usedPages →
        s.blockTable[x / rt.kvCache.config.pageSize]? = some p := by
  obtain ⟨hsel, batch, batch', c, slots, hb, hattach, hslots, hslot⟩ := hnext
  have hget := (hrt.wellFormed.selectNextSequence hsel).1
  obtain ⟨hnone, hpos⟩ := positions_of_buildBatch hb (h.filled _ s hget).1
  rcases BatchContext.attachKv_cases ex (rt.context s.scheduled) batch
    ((rt.context s.scheduled).tokensAfter batch) with ⟨e, env, -, -, -, he⟩ | ⟨b, env, ha, he⟩ <;>
    rw [he] at hattach <;> cases hattach
  obtain ⟨pages, hgrow⟩ := ha.kv.grows h.owned.consistent
  rcases ha.slots slots hslots with hold | hmap
  · rw [hnone] at hold
    cases hold
  · obtain ⟨x, hx, hslotx⟩ := PagedKVCache.mem_slotMapping hmap hslot
    refine ⟨env.blockTable, x, ?_, hpos x hx, fun p hp hused => ?_⟩
    · have hconfig : env.kvCache.config = rt.kvCache.config := hgrow.config
      rw [← hslotx, PagedKVCache.slotOf, PagedKVCache.slotOf, hconfig]
    · rcases getElem?_of_grows hgrow hp with hp | ⟨-, -, hfresh⟩
      · exact hp
      · exact absurd hused hfresh

theorem Sharing.slotsExclusive (h : rt.Sharing) (hrt : rt.Sound) : rt.SlotsExclusive ex := by
  have hlt : ∀ x, x < (x / rt.kvCache.config.pageSize + 1) * rt.kvCache.config.pageSize :=
    fun x => by
      rw [Nat.mul_comm]
      exact Nat.lt_mul_div_succ x rt.kvCache.config.pageSize_pos
  constructor
  · intro s slot hnext id q y hid hq hql _ hy
    obtain ⟨hget, hlive⟩ := hrt.wellFormed.selectNextSequence hnext.1
    obtain ⟨table, x, hx, hfilled, hold⟩ := h.position_of_nextSlot hrt hnext
    obtain ⟨-, p, hp, hpy⟩ := slotOf_inj hx hy
    have hps := hold p hp (h.owned.used_of_getElem? hq hpy)
    have hidx := h.index _ _ s q _ _ p hget hq hps hpy
    have hfull := h.live _ _ s q _ p (Ne.symm hid) hget hq hlive hql hps (hidx ▸ hpy)
    exact absurd (hlt x) (by omega)
  · intro s slot hnext n e y he hcov hy
    obtain ⟨hget, hlive⟩ := hrt.wellFormed.selectNextSequence hnext.1
    obtain ⟨table, x, hx, hfilled, hold⟩ := h.position_of_nextSlot hrt hnext
    obtain ⟨hmod, p, hp, hpy⟩ := slotOf_inj hx hy
    have hps := hold p hp (h.owned.entries p ⟨n, e, he, List.mem_of_getElem? hpy⟩)
    obtain ⟨id, q, hq, hpre⟩ := h.origin n e he
    have hidx := h.index _ _ s q _ _ p hget hq hps (getElem?_of_isPrefix hpre hpy)
    have hxy : x = y := by
      rw [← Nat.div_add_mod x rt.kvCache.config.pageSize, hidx, hmod, Nat.div_add_mod]
    have hcovered := h.entry n e _ s _ p he hget hlive (hidx ▸ hpy) hps
    have hbelow := lt_min (hxy ▸ hcov) (hlt x)
    omega

end RuntimeCore

/-! ## Runs -/

namespace ServerState

variable {σ : Type}

/-- A request added in the step hits no entry with an open page in use. -/
def HitsClosedPages (ex : ModelExecutor σ) (s : ServerState σ) (e : Event) : Prop :=
  ∀ request, e = .addRequest request → RuntimeCore.OpenPagesFree ex s.runtime request

/-- In every state of a run whose requests hit no entry with an open page in use, the next
batch writes no slot of another live sequence's tokens or of a resident entry. -/
theorem slotsExclusive_run (ex : ModelExecutor σ) (config : RuntimeConfig) (executor : σ)
    (es : List Event)
    (h : Transition.Along (step ex) (HitsClosedPages ex) (init config executor) es) :
    (Transition.run (step ex) (init config executor) es).runtime.SlotsExclusive ex := by
  obtain ⟨hs, hsh⟩ := Transition.run_invariant
    (I := fun s : ServerState σ => s.Sound ∧ s.runtime.Sharing)
    (fun s e ⟨hs, hsh⟩ he =>
      ⟨hs.step e, (step_change ex s hs.runtime.wellFormed e).sharing hs.runtime hsh he⟩)
    ⟨sound_init config executor, RuntimeCore.sharing_create config executor⟩ h
  exact hsh.slotsExclusive hs.runtime

/-- A request for the prompt of one page. -/
def pageRequest (sessionId : SessionId) : Request where
  messages := [⟨"user", ['h', 'e', 'r', 'e']⟩]
  maxNewTokens := 1
  sessionId := some sessionId

/-- Two requests with one prompt, the second after the prefill of the first. -/
def sharedPageRun : List Event :=
  [.addRequest (pageRequest "a"), .resume 0, .addRequest (pageRequest "b")]

theorem slotsExclusive_sharedPageRun :
    (Transition.run (step (deterministicExecutor true)) (init smallConfig ())
      sharedPageRun).runtime.SlotsExclusive (deterministicExecutor true) := by
  -- the entry of the first request has no open page
  have hclosed : ∀ s : ServerState Unit, s.runtime.kvCache.config.pageSize = 4 →
      (s.runtime.prefixCache.residents.all fun e =>
        e.2.pages.length * 4 ≤ e.2.tokenCount) = true →
      ∀ request, RuntimeCore.OpenPagesFree (deterministicExecutor true) s.runtime request := by
    intro s hsize hall request inputIds n e k p _ _ _ he hp hlt
    have hk := (List.getElem?_eq_some_iff.1 hp).1
    have hle : e.pages.length * 4 ≤ e.tokenCount :=
      of_decide_eq_true (List.all_eq_true.1 hall (n, e) (PrefixCache.mem_residents.2 he))
    rw [hsize] at hlt
    omega
  refine slotsExclusive_run (deterministicExecutor true) smallConfig () sharedPageRun
    ⟨?_, ?_, ?_, trivial⟩
  · exact fun request _ => hclosed _ (by decide +kernel) (by decide +kernel) request
  · exact fun request h => by cases h
  · exact fun request _ => hclosed _ (by decide +kernel) (by decide +kernel) request

/-- A branch decodes once, then a foreground request hits the entry of its short prompt. -/
def sharedOpenPageRun : List Event :=
  [.addRequest { shortRequest "a" with maxNewTokens := 4, taskKind := .branch }, .resume 0,
    .resume 0, .addRequest (shortRequest "b")]

/-- The second sequence of that run, and its decode batch. -/
def secondSequence : Sequence :=
  (shortRequest "b").sequence 1 "b" [104, 105]
    { matchedTokens := 2, pages := [0], entry := some 0 } 0

def secondBatch : Batch where
  phase := .decode
  seqId := 1
  inputIds := [105]
  positions := [2]
  pageIndices := some [0]

/-- The second request writes the slot of the token that the first one decoded. -/
theorem not_liveTokensKept_run : ¬∀ (σ : Type) (ex : ModelExecutor σ) (config : RuntimeConfig)
    (executor : σ) (es : List Event), ex.supportsPrefixCache = true →
    (Transition.run (step ex) (init config executor) es).runtime.LiveTokensKept ex := by
  intro h
  have hkept := h Unit (deterministicExecutor true) smallConfig () sharedOpenPageRun rfl
  generalize hs : Transition.run (step (deterministicExecutor true)) (init smallConfig ())
    sharedOpenPageRun = s at hkept
  have hsel : s.runtime.scheduler.selectNextSequence = some secondSequence := by
    subst hs
    decide +kernel
  have hb : s.runtime.scheduler.buildBatch none secondSequence.scheduled = .ok secondBatch := by
    subst hs
    decide +kernel
  have hattach : ((s.runtime.context secondSequence.scheduled).attachKv
      (deterministicExecutor true) secondBatch 3).1 = .ok { secondBatch with
        pageIndptr := some [0, 1]
        lastPageLen := some [3]
        slotMapping := some [2] } := by
    subst hs
    decide +kernel
  obtain ⟨q, hq, hlive, hlen, hslot⟩ : ∃ q, s.runtime.scheduler.get 0 = some q ∧
      q.isTerminal = false ∧ 2 < q.filled + q.outputIds.length ∧
        s.runtime.kvCache.slotOf q.blockTable 2 = .ok 2 := by
    have hq : (s.runtime.scheduler.get 0).map (fun q => (q.isTerminal,
        q.filled + q.outputIds.length, s.runtime.kvCache.slotOf q.blockTable 2)) =
          some (false, 3, .ok 2) := by
      subst hs
      decide +kernel
    obtain ⟨q, hq, heq⟩ := Option.map_eq_some_iff.1 hq
    simp only [Prod.mk.injEq] at heq
    exact ⟨q, hq, heq.1, by omega, heq.2.2⟩
  have hnext : RuntimeCore.NextSlot (deterministicExecutor true) s.runtime secondSequence 2 :=
    ⟨hsel, _, _, _, [2], hb, Prod.ext hattach rfl, rfl, by simp⟩
  exact hkept secondSequence 2 hnext 0 q 2 (by decide) hq hlive hlen hslot

end ServerState

end SoloRT
