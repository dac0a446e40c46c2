import SoloRT.PrefixCache
import SoloRT.Transition

/-!
# The history of a prefix cache

A `CacheCall` is one call of the cache with any arguments, and `PrefixCache.step` the state that it
leaves. In every state of a run the dictionary files each entry once, under the key of its tokens
(`Filed`).

An eviction takes idle entries only, the least recently used ones first (`Filed.evict_spec`), and
so an insert leaves no idle entry in a cache that is too large (`evict_lru`).
-/

namespace SoloRT

/-- One call of a prefix cache. -/
inductive CacheCall
  | insert (now : Timestamp) (tokenIds : List TokenId) (pages : List PageId) (pinned : Bool)
  | matchPrefix (now : Timestamp) (tokenIds : List TokenId)
  | release (entry : Option EntryId)
  | evict (targetCount : ℤ)
  deriving DecidableEq, Repr

namespace PrefixCache

/-- The constructor, with its checks. -/
def create (blockSize maxEntries : ℤ) (blake2b : List UInt8 → ℕ) : Except PyError PrefixCache :=
  if hblock : blockSize ≤ 0 then .error ⟨.valueError, "block_size must be positive"⟩
  else if hmax : maxEntries ≤ 0 then .error ⟨.valueError, "max_entries must be positive"⟩
  else .ok
    { blockSize := blockSize.toNat
      maxEntries := maxEntries.toNat
      blockSize_pos := by omega
      maxEntries_pos := by omega
      blake2b := blake2b }

/-- The state after a call, whether it raised or not. -/
def step (c : PrefixCache) : CacheCall → PrefixCache
  | .insert now tokenIds pages pinned => (c.insert now tokenIds pages pinned).2
  | .matchPrefix now tokenIds => (c.matchPrefix now tokenIds).2
  | .release entry => c.release entry
  | .evict targetCount => (c.evict targetCount).2

/-- The first part of `insert`, up to the assignment to the dictionary. -/
def assign (c : PrefixCache) (now : Timestamp) (key : String) (tokenIds : List TokenId)
    (pages : List PageId) (pinned : Bool) : PrefixCache :=
  { c with
    objects := Function.update c.objects c.nextEntryId (some
      { key, tokenIds, pages, tokenCount := tokenIds.length, pinned, lastAccessTs := now })
    nextEntryId := c.nextEntryId + 1
    entries := dictSet key c.nextEntryId c.entries }

/-- The entries that an eviction takes. -/
def victims (c : PrefixCache) (targetCount : ℤ) : List (EntryId × PrefixCacheEntry) :=
  (c.evictable.insertionSort OlderThan).take targetCount.toNat

variable {c c' : PrefixCache}

theorem insert_eq {tokenIds : List TokenId} {key : String} (hkey : c.makeKey tokenIds = .ok key)
    (now : Timestamp) (pages : List PageId) (pinned : Bool) :
    c.insert now tokenIds pages pinned =
      (.ok c.nextEntryId, (c.assign now key tokenIds pages pinned).evictToCapacity) := by
  simp only [insert, hkey, assign]

theorem evict_eq (c : PrefixCache) (n : ℤ) : c.evict n = ((c.victims n).map Prod.fst,
    { c with entries := c.entries.filter fun e =>
        !((c.victims n).map (·.2.key)).contains e.1 }) := by
  unfold evict
  split_ifs with hn
  · simp [victims, Int.toNat_of_nonpos hn]
  · rfl

theorem evictToCapacity_eq (c : PrefixCache) :
    c.evictToCapacity = (c.evict (c.entries.length - c.maxEntries)).2 := by
  unfold evictToCapacity
  dsimp only
  split_ifs with h
  · rfl
  · rw [evict, if_pos (not_lt.1 h)]

/-! ## How the entries are filed -/

/-- The dictionary files each entry once, under the key of its tokens. -/
structure Filed (c : PrefixCache) : Prop where
  bounded : c.Bounded
  nodup : c.keys.Nodup
  filed : ∀ key id, (key, id) ∈ c.entries → ∃ e, c.objects id = some e ∧ e.key = key ∧
    c.makeKey e.tokenIds = .ok key ∧ e.tokenCount = e.tokenIds.length

theorem filed_create {blockSize maxEntries : ℤ} {blake2b : List UInt8 → ℕ}
    (h : create blockSize maxEntries blake2b = .ok c) : c.Filed := by
  unfold create at h
  split_ifs at h with hblock hmax
  cases h
  refine ⟨?_, List.nodup_nil, ?_⟩
  · rintro id e ⟨⟩
  · rintro key id ⟨⟩

namespace Filed

/-- A key has one entry. -/
theorem id_unique (h : c.Filed) {key : String} {id id' : EntryId} (hid : (key, id) ∈ c.entries)
    (hid' : (key, id') ∈ c.entries) : id = id' := by
  have hinj := List.inj_on_of_nodup_map h.nodup hid hid' rfl
  exact (Prod.mk.inj hinj).2

/-- An entry has one key. -/
theorem key_eq (h : c.Filed) {key : String} {id : EntryId} {e : PrefixCacheEntry}
    (hid : (key, id) ∈ c.entries) (he : c.objects id = some e) : e.key = key := by
  obtain ⟨e', he', hkey, -⟩ := h.filed key id hid
  rw [Option.some.inj (he.symm.trans he')]
  exact hkey

theorem resident_iff (h : c.Filed) {id : EntryId} {e : PrefixCacheEntry} :
    c.Resident id e ↔ (e.key, id) ∈ c.entries ∧ c.objects id = some e := by
  constructor
  · rintro ⟨⟨key, hid⟩, he⟩
    exact ⟨h.key_eq hid he ▸ hid, he⟩
  · rintro ⟨hid, he⟩
    exact ⟨⟨e.key, hid⟩, he⟩

end Filed

/-! ## What an eviction takes -/

/-- An entry that nobody uses. -/
def Idle (e : PrefixCacheEntry) : Prop :=
  e.pinned = false ∧ e.refCount = 0

theorem mem_evictable {id : EntryId} {e : PrefixCacheEntry} :
    (id, e) ∈ c.evictable ↔ c.Resident id e ∧ Idle e := by
  simp [evictable, mem_residents, Idle]

theorem mem_sorted {x : EntryId × PrefixCacheEntry} :
    x ∈ c.evictable.insertionSort OlderThan ↔ x ∈ c.evictable :=
  (c.evictable.perm_insertionSort OlderThan).mem_iff

theorem mem_victims {n : ℤ} {id : EntryId} {e : PrefixCacheEntry} (h : (id, e) ∈ c.victims n) :
    c.Resident id e ∧ Idle e :=
  mem_evictable.1 (mem_sorted.1 (List.mem_of_mem_take h))

instance : IsTrans (EntryId × PrefixCacheEntry) OlderThan :=
  ⟨fun _ _ _ h h' => le_trans h h'⟩

instance : Std.Total (α := EntryId × PrefixCacheEntry) OlderThan :=
  ⟨fun e f => le_total e.2.lastAccessTs f.2.lastAccessTs⟩

/-- The victims are no younger than any other idle entry. -/
theorem victims_oldest {n : ℤ} {x y : EntryId × PrefixCacheEntry} (hx : x ∈ c.victims n)
    (hy : y ∈ c.evictable) (hnot : y ∉ c.victims n) : OlderThan x y := by
  have hsorted := List.pairwise_insertionSort OlderThan c.evictable
  have hmem := mem_sorted.2 hy
  rw [← List.take_append_drop n.toNat (c.evictable.insertionSort OlderThan)] at hmem hsorted
  rcases List.mem_append.1 hmem with hin | hin
  · exact absurd hin hnot
  · exact (List.pairwise_append.1 hsorted).2.2 x hx y hin

/-- Every idle entry is taken if there are no more than asked for. -/
theorem mem_victims_of_le {n : ℤ} (hn : (c.evictable.length : ℤ) ≤ n)
    {x : EntryId × PrefixCacheEntry} (hx : x ∈ c.evictable) : x ∈ c.victims n := by
  rw [victims, List.take_of_length_le]
  · exact mem_sorted.2 hx
  · rw [List.length_insertionSort]
    omega

namespace Filed

theorem entries_ids_nodup (h : c.Filed) : (c.entries.map Prod.snd).Nodup := by
  refine List.Nodup.map_on ?_ (List.Nodup.of_map _ h.nodup)
  rintro ⟨key, id⟩ hx ⟨key', _⟩ hy rfl
  obtain ⟨e, he, hkey, -⟩ := h.filed key id hx
  rw [← hkey, ← h.key_eq hy he]

theorem residents_ids (h : c.Filed) : c.residents.map Prod.fst = c.entries.map Prod.snd := by
  have hobjects : ∀ x ∈ c.entries, ∃ e, c.objects x.2 = some e := fun ⟨key, id⟩ hx => by
    obtain ⟨e, he, -⟩ := h.filed key id hx
    exact ⟨e, he⟩
  unfold residents
  generalize c.entries = l at hobjects
  induction l with
  | nil => rfl
  | cons x l ih =>
    obtain ⟨key, id⟩ := x
    obtain ⟨e, he⟩ := hobjects (key, id) (by simp)
    rw [List.map_cons, ← ih fun y hy => hobjects y (by simp [hy])]
    simp [he]

theorem victims_ids_nodup (h : c.Filed) (n : ℤ) : ((c.victims n).map Prod.fst).Nodup := by
  have hsub : (c.evictable.map Prod.fst).Sublist (c.residents.map Prod.fst) :=
    List.Sublist.map _ List.filter_sublist
  have hidle := hsub.nodup (h.residents_ids ▸ h.entries_ids_nodup)
  have hsorted := ((c.evictable.perm_insertionSort OlderThan).map Prod.fst).nodup_iff.2 hidle
  exact ((List.take_sublist _ _).map _).nodup hsorted

/-- An eviction takes the dictionary entries of its victims, and no other. -/
theorem evict_entries (h : c.Filed) (n : ℤ) : (c.evict n).2.entries =
    c.entries.filter fun x => decide (x.2 ∉ (c.evict n).1) := by
  rw [evict_eq]
  refine List.filter_congr ?_
  rintro ⟨key, id⟩ hx
  obtain ⟨e, he, rfl, -⟩ := h.filed key id hx
  have hiff : e.key ∈ (c.victims n).map (·.2.key) ↔ id ∈ (c.victims n).map Prod.fst := by
    simp only [List.mem_map, Prod.exists, exists_and_right, exists_eq_right]
    constructor
    · rintro ⟨id', e', hmem, hkey⟩
      obtain ⟨⟨key', hid'⟩, he'⟩ := (mem_victims hmem).1
      obtain rfl : e'.key = key' := h.key_eq hid' he'
      rw [hkey] at hid'
      exact h.id_unique hid' hx ▸ ⟨e', hmem⟩
    · rintro ⟨e', hmem⟩
      rw [Option.some.inj (he.symm.trans (mem_victims hmem).1.2)]
      exact ⟨id, e', hmem, rfl⟩
  simp only [List.contains_eq_mem, hiff]
  exact (decide_not ..).symm

/-- What an eviction of `n` entries does : it takes as many idle ones, the oldest ones first, and
leaves all others alone. -/
theorem evict_spec (h : c.Filed) (n : ℤ) :
    ((c.evict n).1.length : ℤ) = min (max n 0) c.evictable.length ∧
      (c.evict n).2.entries.length + (c.evict n).1.length = c.entries.length ∧
      (c.evict n).1.Nodup ∧
      (∀ id ∈ (c.evict n).1, ∃ e, c.Resident id e ∧ Idle e) ∧
      (∀ id e, (c.evict n).2.Resident id e ↔ c.Resident id e ∧ id ∉ (c.evict n).1) ∧
      ∀ id e id' e', id ∈ (c.evict n).1 → c.Resident id e → (c.evict n).2.Resident id' e' →
        Idle e' → e.lastAccessTs ≤ e'.lastAccessTs := by
  have hentries := h.evict_entries n
  have hmem : ∀ id, id ∈ (c.evict n).1 ↔ ∃ e, (id, e) ∈ c.victims n := fun id => by
    simp [evict_eq]
  have hresident : ∀ id e, (c.evict n).2.Resident id e ↔
      c.Resident id e ∧ id ∉ (c.evict n).1 := fun id e => by
    simp only [Resident, evict_objects, hentries, List.mem_filter, decide_eq_true_eq]
    constructor
    · rintro ⟨⟨key, hid, hnot⟩, he⟩
      exact ⟨⟨⟨key, hid⟩, he⟩, hnot⟩
    · rintro ⟨⟨⟨key, hid⟩, he⟩, hnot⟩
      exact ⟨⟨key, hid, hnot⟩, he⟩
  refine ⟨?_, ?_, ?_, fun id hid => ?_, hresident, fun id e id' e' hid he he' hidle => ?_⟩
  · rw [evict_eq]
    simp only [List.length_map, victims, List.length_take, List.length_insertionSort]
    omega
  · -- the ids of the victims are among those of the dictionary, each once
    have hnd := h.entries_ids_nodup
    have hperm : ((c.entries.map Prod.snd).filter (· ∈ (c.evict n).1)).Perm (c.evict n).1 := by
      refine (List.perm_ext_iff_of_nodup (hnd.filter _) ?_).2 fun id => ?_
      · rw [evict_eq]
        exact h.victims_ids_nodup n
      · simp only [List.mem_filter, decide_eq_true_eq, and_iff_right_iff_imp]
        intro hid
        obtain ⟨e, he⟩ := (hmem id).1 hid
        obtain ⟨⟨key, hkey⟩, -⟩ := (mem_victims he).1
        exact List.mem_map_of_mem hkey
    have hcount := List.length_eq_length_filter_add (l := c.entries)
      fun x => decide (x.2 ∈ (c.evict n).1)
    have hlen := hperm.length_eq
    rw [List.filter_map, List.length_map] at hlen
    rw [hentries]
    simp only [Function.comp_def] at hlen
    simp only [decide_not]
    omega
  · rw [evict_eq]
    exact h.victims_ids_nodup n
  · obtain ⟨e, he⟩ := (hmem id).1 hid
    exact ⟨e, mem_victims he⟩
  · obtain ⟨f, hf⟩ := (hmem id).1 hid
    obtain rfl := (mem_victims hf).1.unique he
    obtain ⟨hres, hnot⟩ := (hresident id' e').1 he'
    exact victims_oldest hf (mem_evictable.2 ⟨hres, hidle⟩) fun hin => hnot ((hmem id').2 ⟨e', hin⟩)

/-! ## What the calls keep -/

/-- Changing the references of an entry object in place. -/
theorem update (h : c.Filed) {id : EntryId} {e e' : PrefixCacheEntry} (he : c.objects id = some e)
    (hkey : e'.key = e.key) (htokens : e'.tokenIds = e.tokenIds)
    (hcount : e'.tokenCount = e.tokenCount) :
    ({ c with objects := Function.update c.objects id (some e') } : PrefixCache).Filed := by
  refine ⟨h.bounded.update he, h.nodup, fun key i hi => ?_⟩
  obtain ⟨f, hf, hfiled⟩ := h.filed key i hi
  by_cases hid : i = id
  · subst hid
    obtain rfl := Option.some.inj (he.symm.trans hf)
    refine ⟨e', by simp, ?_⟩
    rw [hkey, htokens, hcount]
    exact hfiled
  · exact ⟨f, by simpa [hid] using hf, hfiled⟩

theorem matchPrefix (h : c.Filed) (now : Timestamp) (tokenIds : List TokenId) :
    (c.matchPrefix now tokenIds).2.Filed := by
  rcases c.matchPrefix_cases now tokenIds with hm | ⟨id, e, he, -, -, hm⟩ <;> rw [hm]
  · exact h
  · exact h.update he.2 rfl rfl rfl

theorem release (h : c.Filed) (entry : Option EntryId) : (c.release entry).Filed := by
  rcases c.release_cases entry with hr | ⟨id, e, -, he, hr⟩ <;> rw [hr]
  · exact h
  · exact h.update he rfl rfl rfl

theorem evict (h : c.Filed) (n : ℤ) : (c.evict n).2.Filed := by
  refine ⟨h.bounded.evict n, ?_, fun key id hid => ?_⟩
  · have hsub : (c.evict n).2.keys.Sublist c.keys := by
      rw [keys, h.evict_entries n]
      exact List.filter_sublist.map _
    exact hsub.nodup h.nodup
  · obtain ⟨e, he, hkey, hmake, hcount⟩ := h.filed key id (mem_evict_entries hid)
    rw [evict_objects]
    refine ⟨e, he, hkey, ?_, hcount⟩
    rw [evict_eq]
    exact hmake

/-- What the dictionary holds after an assignment. -/
theorem mem_assign (h : c.Filed) {now : Timestamp} {key : String} {tokenIds : List TokenId}
    {pages : List PageId} {pinned : Bool} {x : String × EntryId} :
    x ∈ (c.assign now key tokenIds pages pinned).entries ↔
      x = (key, c.nextEntryId) ∨ x ∈ c.entries ∧ x.1 ≠ key := by
  have hnd := h.nodup
  simp only [assign, keys] at hnd ⊢
  generalize c.entries = l at hnd
  induction l with
  | nil => simp [dictSet]
  | cons y l ih =>
    obtain ⟨k, i⟩ := y
    rw [List.map_cons, List.nodup_cons] at hnd
    by_cases hk : k = key
    · subst hk
      rw [dictSet, if_pos rfl, List.mem_cons, List.mem_cons]
      constructor
      · rintro (rfl | hmem)
        · exact .inl rfl
        · refine .inr ⟨.inr hmem, fun heq => hnd.1 ?_⟩
          exact List.mem_map.2 ⟨x, hmem, heq⟩
      · rintro (rfl | ⟨rfl | hmem, hne⟩)
        · exact .inl rfl
        · exact absurd rfl hne
        · exact .inr hmem
    · have hrest : x ∈ dictSet key c.nextEntryId l ↔ _ := ih hnd.2
      rw [dictSet, if_neg hk, List.mem_cons, hrest, List.mem_cons]
      constructor
      · rintro (rfl | rfl | ⟨hmem, hne⟩)
        · exact .inr ⟨.inl rfl, hk⟩
        · exact .inl rfl
        · exact .inr ⟨.inr hmem, hne⟩
      · rintro (rfl | ⟨rfl | hmem, hne⟩)
        · exact .inr (.inl rfl)
        · exact .inl rfl
        · exact .inr (.inr ⟨hmem, hne⟩)

theorem assign (h : c.Filed) {tokenIds : List TokenId} {key : String}
    (hkey : c.makeKey tokenIds = .ok key) (now : Timestamp) (pages : List PageId)
    (pinned : Bool) : (c.assign now key tokenIds pages pinned).Filed := by
  refine ⟨fun id e he => ?_, ?_, fun k id hid => ?_⟩
  · by_cases hid : id = c.nextEntryId
    · exact hid ▸ Nat.lt_succ_self _
    · simp only [PrefixCache.assign, Function.update_of_ne hid] at he
      exact Nat.lt_succ_of_lt (h.bounded id e he)
  · have hnd := h.nodup
    simp only [keys, PrefixCache.assign, keys_dictSet] at hnd ⊢
    split_ifs with hmem
    · exact hnd
    · exact List.nodup_append.2 ⟨hnd, by simp, fun x hx y hy => by
        rw [List.mem_singleton.1 hy]
        rintro rfl
        exact hmem hx⟩
  · rcases h.mem_assign.1 hid with heq | ⟨hold, -⟩
    · obtain ⟨rfl, rfl⟩ := Prod.mk.inj heq
      exact ⟨_, Function.update_self _ _ _, rfl, hkey, rfl⟩
    · obtain ⟨e, he, hfiled⟩ := h.filed k id hold
      have hne : id ≠ c.nextEntryId := (h.bounded id e he).ne
      exact ⟨e, by simpa [PrefixCache.assign, hne] using he, hfiled⟩

theorem insert (h : c.Filed) (now : Timestamp) (tokenIds : List TokenId) (pages : List PageId)
    (pinned : Bool) : (c.insert now tokenIds pages pinned).2.Filed := by
  cases hkey : c.makeKey tokenIds with
  | error e =>
    rw [PrefixCache.insert, hkey]
    exact h
  | ok key =>
    rw [insert_eq hkey, evictToCapacity_eq]
    exact (h.assign hkey now pages pinned).evict _

theorem step (h : c.Filed) (call : CacheCall) : (c.step call).Filed := by
  cases call with
  | insert now tokenIds pages pinned => exact h.insert now tokenIds pages pinned
  | matchPrefix now tokenIds => exact h.matchPrefix now tokenIds
  | release entry => exact h.release entry
  | evict n => exact h.evict n

end Filed

variable {blockSize maxEntries : ℤ} {blake2b : List UInt8 → ℕ} {c₀ : PrefixCache}

theorem filed_run (hnew : create blockSize maxEntries blake2b = .ok c₀) (calls : List CacheCall) :
    (Transition.run step c₀ calls).Filed :=
  Transition.run_invariant' (I := Filed) (fun _ call h => h.step call) calls (filed_create hnew)

/-! ## Eviction -/

/-- The number of entries of the cache after an eviction down to its capacity. -/
theorem Filed.evictToCapacity_spec (h : c.Filed) :
    c.evictToCapacity.entries.length ≤ c.maxEntries ∨
      ∀ id e, c.evictToCapacity.Resident id e → ¬Idle e := by
  obtain ⟨hcount, hlen, -, -, hresident, -⟩ :=
    h.evict_spec (c.entries.length - c.maxEntries)
  rw [evictToCapacity_eq]
  rcases le_total ((c.entries.length : ℤ) - c.maxEntries) c.evictable.length with hle | hle
  · left
    omega
  · -- all idle entries are taken
    refine .inr fun id e he hidle => ?_
    obtain ⟨hres, hnot⟩ := (hresident id e).1 he
    refine hnot ?_
    rw [evict_eq]
    exact List.mem_map_of_mem (mem_victims_of_le hle (mem_evictable.2 ⟨hres, hidle⟩))

/-- In any state of a cache an eviction takes as many entries as it is asked for, or all idle ones.
They were idle, none of the idle entries that stay was used less recently, and all other entries
stay. After an insert the cache is within its capacity, or all its entries are in use. -/
theorem evict_lru (hnew : create blockSize maxEntries blake2b = .ok c₀)
    (calls : List CacheCall) :
    (∀ n removed c', (Transition.run step c₀ calls).evict n = (removed, c') →
      (removed.length : ℤ) = min (max n 0) (Transition.run step c₀ calls).evictable.length ∧
      c'.entries.length + removed.length = (Transition.run step c₀ calls).entries.length ∧
      removed.Nodup ∧
      (∀ id ∈ removed, ∃ e, (Transition.run step c₀ calls).Resident id e ∧
        e.pinned = false ∧ e.refCount = 0) ∧
      (∀ id e, c'.Resident id e ↔
        (Transition.run step c₀ calls).Resident id e ∧ id ∉ removed) ∧
      ∀ id e id' e', id ∈ removed → (Transition.run step c₀ calls).Resident id e →
        c'.Resident id' e' → e'.pinned = false → e'.refCount = 0 →
        e.lastAccessTs ≤ e'.lastAccessTs) ∧
    ∀ now tokenIds pages pinned id c',
      (Transition.run step c₀ calls).insert now tokenIds pages pinned = (.ok id, c') →
      c'.entries.length ≤ c'.maxEntries ∨
        ∀ id' e, c'.Resident id' e → e.pinned = true ∨ 0 < e.refCount := by
  have hfiled := filed_run hnew calls
  generalize Transition.run step c₀ calls = c at hfiled
  constructor
  · intro n removed c' hevict
    obtain ⟨hcount, hlen, hnd, hidle, hresident, hold⟩ := hfiled.evict_spec n
    rw [hevict] at hcount hlen hnd hidle hresident hold
    exact ⟨hcount, hlen, hnd, hidle, hresident, fun id e id' e' hid he he' hpin href =>
      hold id e id' e' hid he he' ⟨hpin, href⟩⟩
  · intro now tokenIds pages pinned id c' hinsert
    cases hkey : c.makeKey tokenIds with
    | error e =>
      rw [insert, hkey] at hinsert
      cases hinsert
    | ok key =>
      rw [insert_eq hkey] at hinsert
      obtain ⟨-, rfl⟩ := Prod.mk.inj hinsert
      rcases (hfiled.assign hkey now pages pinned).evictToCapacity_spec with hfits | hused
      · left
        rw [evictToCapacity_eq, evict_eq] at hfits ⊢
        exact hfits
      · refine .inr fun id' e he => ?_
        have hnot := hused id' e he
        rw [Idle, not_and_or, Bool.not_eq_false] at hnot
        exact hnot.imp_right Nat.pos_of_ne_zero

/-- `blake2b` with a digest of eight bytes, for the blocks that are one of the tokens 1, 2, 3. -/
def oneTokenDigest : List UInt8 → ℕ
  | [1, 0, 0, 0, 0, 0, 0, 0] => 18232024504446223411
  | [2, 0, 0, 0, 0, 0, 0, 0] => 10610619027356026955
  | [3, 0, 0, 0, 0, 0, 0, 0] => 16295938515333252330
  | _ => 0

/-- A new cache for two entries. -/
def twoEntryCache : PrefixCache where
  blockSize := 16
  maxEntries := 2
  blockSize_pos := Nat.succ_pos (nat_lit 15)
  maxEntries_pos := Nat.two_pos
  blake2b := oneTokenDigest

/-- The first of two entries is used again. -/
def twoEntryCalls : List CacheCall :=
  [.insert 1 [1] [7] false, .insert 2 [2] [8] false, .matchPrefix 3 [1], .release (some 0)]

/-- The second entry is the older one then. -/
theorem evict_lru_twoEntries :
    (((Transition.run step twoEntryCache twoEntryCalls).evict 1).1.length : ℤ) = 1 ∧
      ((Transition.run step twoEntryCache twoEntryCalls).evict 1).1 = [1] := by
  have hnew : create 16 2 oneTokenDigest = .ok twoEntryCache := rfl
  have hcount := ((evict_lru hnew twoEntryCalls).1 1 _ _ rfl).1
  have hidle : (Transition.run step twoEntryCache twoEntryCalls).evictable.length = 2 := by
    decide +kernel
  rw [hidle] at hcount
  exact ⟨hcount, by decide +kernel⟩

end PrefixCache

end SoloRT
