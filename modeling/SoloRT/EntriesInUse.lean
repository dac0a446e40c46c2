import SoloRT.CacheHistory

/-!
# Entries in use

An eviction passes the entries by that are pinned or referenced. But `insert` assigns its entry to
the dictionary, and so drops the entry that had the key, whoever uses it. Two requests that both
missed on a prompt insert it twice, and the second insert drops the entry that a third one may
have matched in between.

`TracedCache` counts how often each entry was returned by `match`, and how often it was released.
An entry in use stays in the cache exactly as long as no insert has its key
(`inUse_resident_iff`).
-/

namespace SoloRT

/-- A cache with the calls that returned or released each entry, and the pages of its insert. -/
structure TracedCache where
  cache : PrefixCache
  matched : EntryId → ℕ := fun _ => 0
  released : EntryId → ℕ := fun _ => 0
  pages : EntryId → List PageId := fun _ => []

namespace TracedCache

def step (s : TracedCache) : CacheCall → TracedCache
  | .insert now tokenIds pages pinned =>
    match s.cache.insert now tokenIds pages pinned with
    | (.error _, cache) => { s with cache }
    | (.ok id, cache) => { s with cache, pages := Function.update s.pages id pages }
  | .matchPrefix now tokenIds =>
    let (result, cache) := s.cache.matchPrefix now tokenIds
    match result.entry with
    | none => { s with cache }
    | some id => { s with cache, matched := Function.update s.matched id (s.matched id + 1) }
  | .release none => s
  | .release (some id) =>
    { s with
      cache := s.cache.release (some id)
      released := Function.update s.released id (s.released id + 1) }
  | .evict targetCount => { s with cache := (s.cache.evict targetCount).2 }

/-- The calls act on the cache alone. -/
theorem step_cache (s : TracedCache) (call : CacheCall) :
    (s.step call).cache = s.cache.step call := by
  cases call with
  | insert now tokenIds pages pinned =>
    dsimp only [step, PrefixCache.step]
    rcases s.cache.insert now tokenIds pages pinned with ⟨_ | _, cache⟩ <;> rfl
  | matchPrefix now tokenIds =>
    dsimp only [step, PrefixCache.step]
    cases (s.cache.matchPrefix now tokenIds).1.entry <;> rfl
  | release entry => cases entry <;> rfl
  | evict n => rfl

/-- The entry is pinned, or was returned by more matches than it was released. -/
def InUse (s : TracedCache) (id : EntryId) (e : PrefixCacheEntry) : Prop :=
  s.cache.objects id = some e ∧ (e.pinned = true ∨ s.released id < s.matched id)

/-- The call inserts an entry under the key of another one in use. -/
def Displaces (s : TracedCache) (call : CacheCall) : Prop :=
  ∃ now tokenIds pages pinned id e, call = .insert now tokenIds pages pinned ∧
    s.InUse id e ∧ s.cache.makeKey tokenIds = .ok e.key

/-- Every entry in use is the one that is found under its key, with its references and pages. -/
def Kept (s : TracedCache) : Prop :=
  ∀ id e, s.InUse id e → s.cache.entries.lookup e.key = some id ∧
    s.matched id ≤ e.refCount + s.released id ∧ e.pages = s.pages id

/-- What the counts say about the reference count of an entry. -/
structure Counted (s : TracedCache) : Prop where
  filed : s.cache.Filed
  count : ∀ id e, s.cache.objects id = some e → s.matched id ≤ e.refCount + s.released id
  pages : ∀ id e, s.cache.objects id = some e → e.pages = s.pages id
  unmatched : ∀ id, s.cache.objects id = none → s.matched id = 0

end TracedCache

/-- The dictionary finds what it files. -/
theorem PrefixCache.Filed.lookup_eq_some {c : PrefixCache} (h : c.Filed) {key : String}
    {id : EntryId} : c.entries.lookup key = some id ↔ (key, id) ∈ c.entries := by
  have hnd := h.nodup
  rw [PrefixCache.keys] at hnd
  generalize c.entries = l at hnd
  induction l with
  | nil => simp
  | cons x l ih =>
    obtain ⟨k, i⟩ := x
    rw [List.map_cons, List.nodup_cons] at hnd
    rw [List.lookup_cons, List.mem_cons]
    by_cases hk : key = k
    · subst hk
      have hnot : (key, id) ∉ l := fun hmem => hnd.1 (List.mem_map.2 ⟨_, hmem, rfl⟩)
      simp [hnot, eq_comm]
    · have hne : (key == k) = false := by simpa using hk
      simp [hne, hk, ih hnd.2]

/-- An eviction passes an entry by that is not idle. -/
theorem PrefixCache.Filed.resident_evict {c : PrefixCache} (h : c.Filed) {id : EntryId}
    {e : PrefixCacheEntry} (he : c.Resident id e) (hused : ¬PrefixCache.Idle e) (n : ℤ) :
    (c.evict n).2.Resident id e := by
  obtain ⟨-, -, -, hidle, hresident, -⟩ := h.evict_spec n
  refine (hresident id e).2 ⟨he, fun hmem => hused ?_⟩
  obtain ⟨e', he', hidle'⟩ := hidle id hmem
  exact he.unique he' ▸ hidle'

namespace TracedCache

variable {s : TracedCache} {id : EntryId} {e : PrefixCacheEntry}

theorem Counted.kept_iff (h : s.Counted) :
    s.Kept ↔ ∀ id e, s.InUse id e → s.cache.Resident id e := by
  constructor
  · intro hkept id e hin
    have hmem := h.filed.lookup_eq_some.1 (hkept id e hin).1
    exact h.filed.resident_iff.2 ⟨hmem, hin.1⟩
  · intro hres id e hin
    have hmem := (h.filed.resident_iff.1 (hres id e hin)).1
    exact ⟨h.filed.lookup_eq_some.2 hmem, h.count id e hin.1, h.pages id e hin.1⟩

/-- An entry in use is not idle. -/
theorem Counted.not_idle (h : s.Counted) (hin : s.InUse id e) : ¬PrefixCache.Idle e := by
  rintro ⟨hpin, href⟩
  have hcount := h.count id e hin.1
  rcases hin.2 with hpinned | hlt
  · rw [hpin] at hpinned
    cases hpinned
  · omega

/-! ## What the calls do to an entry in use -/

section

variable {now : Timestamp} {tokenIds : List TokenId} {pages : List PageId} {pinned : Bool}

theorem step_insert_error {error : PyError} (hkey : s.cache.makeKey tokenIds = .error error) :
    s.step (.insert now tokenIds pages pinned) = s := by
  simp only [step, PrefixCache.insert, hkey]

theorem step_insert {key : String} (hkey : s.cache.makeKey tokenIds = .ok key) :
    s.step (.insert now tokenIds pages pinned) = { s with
      cache := (s.cache.assign now key tokenIds pages pinned).evictToCapacity
      pages := Function.update s.pages s.cache.nextEntryId pages } := by
  simp only [step, PrefixCache.insert_eq hkey]

/-- A match leaves the state alone, or returns a resident entry. -/
theorem step_match_cases (s : TracedCache) (now : Timestamp) (tokenIds : List TokenId) :
    s.step (.matchPrefix now tokenIds) = s ∨ ∃ id e, s.cache.Resident id e ∧
      s.step (.matchPrefix now tokenIds) = { s with
        cache := { s.cache with
          objects := Function.update s.cache.objects id
            (some { e with refCount := e.refCount + 1, lastAccessTs := now }) }
        matched := Function.update s.matched id (s.matched id + 1) } := by
  rcases s.cache.matchPrefix_cases now tokenIds with hm | ⟨id, e, he, -, -, hm⟩
  · exact .inl (by simp only [step, hm])
  · exact .inr ⟨id, e, he, by simp only [step, hm]⟩

/-- The objects of a cache after an assignment are the old ones and the new entry. -/
theorem Counted.objects_assign (h : s.Counted) {key : String}
    (he : (s.cache.assign now key tokenIds pages pinned).objects id = some e) :
    (id = s.cache.nextEntryId ∧ s.matched id = 0 ∧ e =
        { key, tokenIds, pages, tokenCount := tokenIds.length, pinned, lastAccessTs := now }) ∨
      id ≠ s.cache.nextEntryId ∧ s.cache.objects id = some e := by
  by_cases hid : id = s.cache.nextEntryId
  · subst hid
    have hnone : s.cache.objects s.cache.nextEntryId = none := by
      cases hobj : s.cache.objects s.cache.nextEntryId with
      | none => rfl
      | some f => exact absurd (h.filed.bounded _ f hobj) (lt_irrefl _)
    simp only [PrefixCache.assign, Function.update_self, Option.some.injEq] at he
    exact .inl ⟨rfl, h.unmatched _ hnone, he.symm⟩
  · simp only [PrefixCache.assign, Function.update_of_ne hid] at he
    exact .inr ⟨hid, he⟩

end

/-- A release takes one reference off its entry, which loses no more than it is counted for. -/
theorem object_release (s : TracedCache) {i : EntryId}
    (he : (s.step (.release (some i))).cache.objects id = some e) :
    ∃ f, s.cache.objects id = some f ∧
      f.refCount + s.released id ≤ e.refCount + (s.step (.release (some i))).released id ∧
      e.pages = f.pages ∧ e.pinned = f.pinned ∧ e.key = f.key := by
  dsimp only [step] at he ⊢
  have hmono : s.released id ≤ Function.update s.released i (s.released i + 1) id := by
    by_cases hid : id = i
    · subst hid
      simp
    · simp [hid]
  rcases s.cache.release_cases (some i) with hr | ⟨j, f, hj, hf, hr⟩ <;> rw [hr] at he
  · exact ⟨e, he, by omega, rfl, rfl, rfl⟩
  · obtain rfl := Option.some.inj hj
    by_cases hid : id = i
    · subst hid
      obtain rfl : _ = e := by simpa using he
      refine ⟨f, hf, ?_, rfl, rfl, rfl⟩
      simp only [Function.update_self]
      omega
    · simp only [Function.update_of_ne hid] at he
      exact ⟨e, he, by omega, rfl, rfl, rfl⟩

theorem Counted.step (h : s.Counted) (call : CacheCall) : (s.step call).Counted := by
  have hfiled : (s.step call).cache.Filed := by
    rw [step_cache]
    exact h.filed.step call
  cases call with
  | insert now tokenIds pages pinned =>
    cases hkey : s.cache.makeKey tokenIds with
    | error error => rwa [step_insert_error hkey]
    | ok key =>
      rw [step_insert hkey] at hfiled ⊢
      refine ⟨hfiled, fun id e he => ?_, fun id e he => ?_, fun id hnone => h.unmatched id ?_⟩
      · rw [PrefixCache.evictToCapacity_objects] at he
        rcases h.objects_assign he with ⟨rfl, hzero, -⟩ | ⟨-, hold⟩
        · dsimp only
          omega
        · exact h.count id e hold
      · rw [PrefixCache.evictToCapacity_objects] at he
        rcases h.objects_assign he with ⟨rfl, -, rfl⟩ | ⟨hne, hold⟩
        · simp
        · rw [h.pages id e hold]
          simp [hne]
      · simp only [PrefixCache.evictToCapacity_objects, PrefixCache.assign] at hnone
        by_cases hid : id = s.cache.nextEntryId
        · simp [hid] at hnone
        · rwa [Function.update_of_ne hid] at hnone
  | matchPrefix now tokenIds =>
    rcases s.step_match_cases now tokenIds with hm | ⟨i, f, hf, hm⟩ <;> rw [hm] at hfiled ⊢
    · exact h
    · have hcount := h.count i f hf.2
      refine ⟨hfiled, fun id e he => ?_, fun id e he => ?_, fun id hnone => ?_⟩ <;>
        by_cases hid : id = i
      · subst hid
        obtain rfl : _ = e := by simpa using he
        simp only [Function.update_self]
        omega
      · simp only [Function.update_of_ne hid] at he ⊢
        exact h.count id e he
      · subst hid
        obtain rfl : _ = e := by simpa using he
        exact h.pages id f hf.2
      · simp only [Function.update_of_ne hid] at he
        exact h.pages id e he
      · simp [hid] at hnone
      · simp only [Function.update_of_ne hid] at hnone ⊢
        exact h.unmatched id hnone
  | release entry =>
    cases entry with
    | none => exact h
    | some i =>
      refine ⟨hfiled, fun id e he => ?_, fun id e he => ?_, fun id hnone => ?_⟩
      · obtain ⟨f, hf, hcount, -⟩ := s.object_release he
        have hold := h.count id f hf
        dsimp only [TracedCache.step] at hcount ⊢
        omega
      · obtain ⟨f, hf, -, hpages, -⟩ := s.object_release he
        rw [hpages]
        exact h.pages id f hf
      · refine h.unmatched id ?_
        dsimp only [TracedCache.step] at hnone
        rcases s.cache.release_cases (some i) with hr | ⟨j, f, -, hf, hr⟩ <;> rw [hr] at hnone
        · exact hnone
        · by_cases hid : id = j
          · simp [hid] at hnone
          · simpa [hid] using hnone
  | evict n =>
    refine ⟨hfiled, fun id e he => ?_, fun id e he => ?_, fun id hnone => ?_⟩
    · exact h.count id e (by rwa [TracedCache.step, PrefixCache.evict_objects] at he)
    · exact h.pages id e (by rwa [TracedCache.step, PrefixCache.evict_objects] at he)
    · exact h.unmatched id (by rwa [TracedCache.step, PrefixCache.evict_objects] at hnone)

section

variable {now : Timestamp} {tokenIds : List TokenId} {pages : List PageId} {pinned : Bool}
  {key : String}

/-- An insert under the key of an entry in use drops this entry. -/
theorem Counted.not_resident_insert (h : s.Counted) (hkey : s.cache.makeKey tokenIds = .ok key)
    (hin : s.InUse id e) (heq : e.key = key) :
    (s.step (.insert now tokenIds pages pinned)).InUse id e ∧
      ¬(s.step (.insert now tokenIds pages pinned)).cache.Resident id e := by
  have hne : id ≠ s.cache.nextEntryId := (h.filed.bounded id e hin.1).ne
  have hobj : (s.cache.assign now key tokenIds pages pinned).objects id = some e := by
    simpa [PrefixCache.assign, hne] using hin.1
  rw [step_insert hkey]
  refine ⟨⟨by rw [PrefixCache.evictToCapacity_objects]; exact hobj, hin.2⟩, ?_⟩
  rintro ⟨⟨k, hmem⟩, -⟩
  rw [PrefixCache.evictToCapacity_eq] at hmem
  -- the dictionary has the new entry under the key
  have hassigned := PrefixCache.mem_evict_entries hmem
  obtain rfl : e.key = k := (h.filed.assign hkey now pages pinned).key_eq hassigned hobj
  rcases h.filed.mem_assign.1 hassigned with hnew | ⟨-, hother⟩
  · exact hne (Prod.mk.inj hnew).2
  · exact hother heq

/-- An insert under another key leaves the entries in use, and a pinned new entry stays. -/
theorem Counted.resident_insert (h : s.Counted) (hkey : s.cache.makeKey tokenIds = .ok key)
    (hres : ∀ id e, s.InUse id e → s.cache.Resident id e)
    (hother : ∀ id e, s.InUse id e → e.key ≠ key)
    (hin : (s.step (.insert now tokenIds pages pinned)).InUse id e) :
    (s.step (.insert now tokenIds pages pinned)).cache.Resident id e := by
  rw [step_insert hkey] at hin ⊢
  obtain ⟨hobj, huse⟩ := hin
  rw [PrefixCache.evictToCapacity_objects] at hobj
  rw [PrefixCache.evictToCapacity_eq]
  refine (h.filed.assign hkey now pages pinned).resident_evict ⟨?_, hobj⟩ ?_ _
  · rcases h.objects_assign hobj with ⟨rfl, -, -⟩ | ⟨-, hold⟩
    · exact ⟨key, h.filed.mem_assign.2 (.inl rfl)⟩
    · have hmem := (h.filed.resident_iff.1 (hres id e ⟨hold, huse⟩)).1
      exact ⟨e.key, h.filed.mem_assign.2 (.inr ⟨hmem, hother id e ⟨hold, huse⟩⟩)⟩
  · rcases h.objects_assign hobj with ⟨rfl, hzero, -⟩ | ⟨-, hold⟩
    · rintro ⟨hpin, -⟩
      rw [hpin, hzero] at huse
      simp at huse
    · exact h.not_idle ⟨hold, huse⟩

end

/-- An entry in use after a release was in use before, and is where it was. -/
theorem resident_release (hres : ∀ id e, s.InUse id e → s.cache.Resident id e) {i : EntryId}
    (hin : (s.step (.release (some i))).InUse id e) :
    (s.step (.release (some i))).cache.Resident id e := by
  obtain ⟨f, hf, hcount, -, hpinned, -⟩ := s.object_release hin.1
  have huse : f.pinned = true ∨ s.released id < s.matched id := by
    refine hin.2.imp (fun hpin => hpinned ▸ hpin) fun hlt => ?_
    dsimp only [step] at hlt
    by_cases hid : id = i
    · subst hid
      rw [Function.update_self] at hlt
      omega
    · rwa [Function.update_of_ne hid] at hlt
  have hentries : (s.cache.release (some i)).entries = s.cache.entries := by
    rcases s.cache.release_cases (some i) with hr | ⟨_, _, -, -, hr⟩ <;> rw [hr]
  obtain ⟨key, hmem⟩ := (hres id f ⟨hf, huse⟩).1
  exact ⟨⟨key, hentries.symm ▸ hmem⟩, hin.1⟩

theorem resident_match (hres : ∀ id e, s.InUse id e → s.cache.Resident id e) {now : Timestamp}
    {tokenIds : List TokenId} (hin : (s.step (.matchPrefix now tokenIds)).InUse id e) :
    (s.step (.matchPrefix now tokenIds)).cache.Resident id e := by
  rcases s.step_match_cases now tokenIds with hm | ⟨i, f, hf, hm⟩ <;> rw [hm] at hin ⊢
  · exact hres id e hin
  · refine ⟨?_, hin.1⟩
    by_cases hid : id = i
    · exact hid ▸ hf.1
    · obtain ⟨hobj, huse⟩ := hin
      simp only [Function.update_of_ne hid] at hobj huse
      exact (hres id e ⟨hobj, huse⟩).1

/-- The entries in use stay, unless an insert displaces one of them. -/
theorem Counted.kept_step_iff (h : s.Counted) (hkept : s.Kept) (call : CacheCall) :
    (s.step call).Kept ↔ ¬s.Displaces call := by
  have hres := h.kept_iff.1 hkept
  rw [(h.step call).kept_iff]
  cases call with
  | insert now tokenIds pages pinned =>
    cases hkey : s.cache.makeKey tokenIds with
    | error error =>
      rw [step_insert_error hkey]
      refine iff_of_true hres ?_
      rintro ⟨_, _, _, _, id, e, ⟨⟩, -, hmake⟩
      rw [hkey] at hmake
      cases hmake
    | ok key =>
      constructor
      · rintro hres' ⟨_, _, _, _, id, e, ⟨⟩, hin, hmake⟩
        obtain rfl : key = e.key := Except.ok.inj (hkey.symm.trans hmake)
        obtain ⟨hin', hgone⟩ := h.not_resident_insert hkey hin rfl
        exact hgone (hres' id e hin')
      · intro hnot id e hin
        refine h.resident_insert hkey hres (fun i f hf heq => hnot ?_) hin
        exact ⟨now, tokenIds, pages, pinned, i, f, rfl, hf, heq.symm ▸ hkey⟩
  | matchPrefix now tokenIds =>
    refine iff_of_true (fun id e hin => resident_match hres hin) ?_
    rintro ⟨_, _, _, _, _, _, ⟨⟩, -⟩
  | release entry =>
    refine iff_of_true (fun id e hin => ?_) (by rintro ⟨_, _, _, _, _, _, ⟨⟩, -⟩)
    cases entry with
    | none => exact hres id e hin
    | some i => exact resident_release hres hin
  | evict n =>
    refine iff_of_true (fun id e hin => ?_) (by rintro ⟨_, _, _, _, _, _, ⟨⟩, -⟩)
    have hin' : s.InUse id e := by
      simpa only [TracedCache.step, InUse, PrefixCache.evict_objects] using hin
    exact h.filed.resident_evict (hres id e hin') (h.not_idle hin') n

theorem counted_create {blockSize maxEntries : ℤ} {blake2b : List UInt8 → ℕ} {c₀ : PrefixCache}
    (hnew : PrefixCache.create blockSize maxEntries blake2b = .ok c₀) :
    Counted { cache := c₀ } ∧ Kept { cache := c₀ } := by
  have hempty : ∀ id, c₀.objects id = none := by
    unfold PrefixCache.create at hnew
    split_ifs at hnew
    cases hnew
    exact fun _ => rfl
  refine ⟨⟨PrefixCache.filed_create hnew, fun id e he => by simp [hempty] at he,
    fun id e he => by simp [hempty] at he, fun _ _ => rfl⟩, fun id e hin => ?_⟩
  have hobj := hin.1
  simp [hempty] at hobj

/-- An insert under a new key displaces no entry. -/
theorem Counted.not_displaces (h : s.Counted) {now : Timestamp} {tokenIds : List TokenId}
    {pages : List PageId} {pinned : Bool} {key : String}
    (hkey : s.cache.makeKey tokenIds = .ok key)
    (hnew : ∀ id < s.cache.nextEntryId, (s.cache.objects id).all (fun e => e.key ≠ key) = true) :
    ¬s.Displaces (.insert now tokenIds pages pinned) := by
  rintro ⟨_, _, _, _, id, e, ⟨⟩, hin, hmake⟩
  have hne := hnew id (h.filed.bounded id e hin.1)
  rw [hin.1, Option.all_some, decide_eq_true_eq] at hne
  exact hne (Except.ok.inj (hmake.symm.trans hkey))

/-- In all states of a run every entry that is pinned, or that was matched more often than it was
released, is the one that is found under its key, if and only if no call of the run inserts an
entry under the key of another one in use. -/
theorem inUse_resident_iff {blockSize maxEntries : ℤ} {blake2b : List UInt8 → ℕ}
    {c₀ : PrefixCache} (hnew : PrefixCache.create blockSize maxEntries blake2b = .ok c₀)
    (calls : List CacheCall) :
    (∀ calls', calls' <+: calls → ∀ id e,
      (Transition.run step { cache := c₀ } calls').InUse id e →
        (Transition.run step { cache := c₀ } calls').cache.entries.lookup e.key = some id ∧
          (Transition.run step { cache := c₀ } calls').matched id ≤
            e.refCount + (Transition.run step { cache := c₀ } calls').released id ∧
          e.pages = (Transition.run step { cache := c₀ } calls').pages id) ↔
      Transition.Along step (fun s call => ¬s.Displaces call) { cache := c₀ } calls := by
  obtain ⟨hcounted, hkept⟩ := counted_create hnew
  exact Transition.forall_prefix_iff_along (I := Kept) (J := Counted)
    (fun s call h => h.step call) (fun s call h hk => h.kept_step_iff hk call) hcounted hkept calls

/-- The entry of the token 1, with some pages. -/
def entryOfOne (pages : List PageId) (pinned : Bool) (refCount : ℕ) (lastAccessTs : Timestamp) :
    PrefixCacheEntry where
  key := "18232024504446223411"
  tokenIds := [1]
  pages := pages
  tokenCount := 1
  refCount := refCount
  pinned := pinned
  lastAccessTs := lastAccessTs

/-- An entry is matched, then another one is inserted, and the cache is evicted down to one. -/
def evictedInUse : List CacheCall :=
  [.insert 1 [1] [7] false, .matchPrefix 2 [1], .insert 3 [2] [8] false, .evict 1]

/-- The entry in use is the older one, and stays. -/
theorem inUse_resident_evictedInUse :
    let s := Transition.run step { cache := PrefixCache.twoEntryCache } evictedInUse
    s.matched 0 = 1 ∧ s.cache.entries.length = 1 ∧
      s.cache.entries.lookup "18232024504446223411" = some 0 := by
  intro s
  have hnew : PrefixCache.create 16 2 PrefixCache.oneTokenDigest =
    .ok PrefixCache.twoEntryCache := rfl
  have hcounted : ∀ calls, (Transition.run step { cache := PrefixCache.twoEntryCache }
      calls).Counted := fun calls =>
    Transition.run_invariant' (fun _ call h => h.step call) calls (counted_create hnew).1
  have hfirst : ¬Displaces { cache := PrefixCache.twoEntryCache } (.insert 1 [1] [7] false) :=
    (hcounted []).not_displaces rfl (by decide)
  have hsecond : ¬Displaces (Transition.run step { cache := PrefixCache.twoEntryCache }
      [.insert 1 [1] [7] false, .matchPrefix 2 [1]]) (.insert 3 [2] [8] false) :=
    (hcounted _).not_displaces rfl (by decide +kernel)
  have hkept := (inUse_resident_iff hnew evictedInUse).2
    ⟨hfirst, by simp [Displaces], hsecond, by simp [Displaces], trivial⟩
  have hmatched : s.matched 0 = 1 ∧ s.released 0 < s.matched 0 := by decide +kernel
  have hlength : s.cache.entries.length = 1 := by decide +kernel
  exact ⟨hmatched.1, hlength, (hkept _ List.prefix_rfl 0 (entryOfOne [7] false 1 2)
    ⟨by decide +kernel, .inr hmatched.2⟩).1⟩

/-- One prompt is inserted again after it was matched. -/
def insertedTwice : List CacheCall :=
  [.insert 1 [1] [7] true, .matchPrefix 2 [1], .insert 3 [1] [8] true]

/-- The entry that was matched is not the one that is found. -/
theorem not_inUse_resident : ¬∀ (blockSize maxEntries : ℤ) (blake2b : List UInt8 → ℕ)
    (c₀ : PrefixCache), PrefixCache.create blockSize maxEntries blake2b = .ok c₀ →
    ∀ (calls : List CacheCall) (id : EntryId) (e : PrefixCacheEntry),
      (Transition.run step { cache := c₀ } calls).InUse id e →
      (Transition.run step { cache := c₀ } calls).cache.entries.lookup e.key = some id := by
  intro h
  have hfound := h 16 2 PrefixCache.oneTokenDigest PrefixCache.twoEntryCache rfl insertedTwice 0
    (entryOfOne [7] true 1 2) ⟨by decide +kernel, .inl rfl⟩
  exact absurd hfound (by decide +kernel)

end TracedCache

end SoloRT
