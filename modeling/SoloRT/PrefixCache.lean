import SoloRT.Sequence
import SoloRT.StableSort
import Mathlib.Data.List.Basic
import Mathlib.Data.Int.Cast.Basic
import Mathlib.Order.Lattice.Nat

/-!
# The prefix cache

`PrefixCache` maps the hash chain of a token list to an entry with the pages that hold its
K/V (`cache/prefix_cache.py`). Entries are objects : a sequence keeps its `cache_handle`
after the dictionary has lost the entry, so the objects live in a heap of their own
(`objects`) and the dictionary holds their ids in insertion order.

`hashlib.blake2b` with an 8-byte digest is the parameter `blake2b`, a function of the
bytes hashed. The hit and miss counters are left out : only the metrics read them.
-/

namespace SoloRT

structure PrefixCacheEntry where
  key : String
  tokenIds : List TokenId
  pages : List PageId
  tokenCount : ℕ
  refCount : ℕ := 0
  pinned : Bool := false
  lastAccessTs : Timestamp
  deriving DecidableEq, Repr

structure PrefixMatch where
  matchedTokens : ℕ
  pages : List PageId
  entry : Option EntryId := none
  deriving DecidableEq, Repr

structure PrefixCache where
  blockSize : ℕ
  maxEntries : ℕ
  blockSize_pos : 0 < blockSize
  maxEntries_pos : 0 < maxEntries
  blake2b : List UInt8 → ℕ
  objects : EntryId → Option PrefixCacheEntry := fun _ => none
  nextEntryId : EntryId := 0
  entries : List (String × EntryId) := []

/-- `int(token_id).to_bytes(8, "little", signed=True)`. -/
def toBytes8 (tokenId : TokenId) : Except PyError (List UInt8) :=
  if tokenId < -2 ^ 63 ∨ 2 ^ 63 ≤ tokenId then .error ⟨.overflowError, "int too big to convert"⟩
  else .ok ((List.range 8).map fun i => UInt8.ofNat ((tokenId % 2 ^ 64).toNat / 256 ^ i % 256))

/-- A list cut into consecutive blocks of `n`, the last one shorter. -/
def blocksOf (n : ℕ) : ℕ → List TokenId → List (List TokenId)
  | 0, _ => []
  | fuel + 1, tokenIds =>
    if tokenIds = [] then [] else tokenIds.take n :: blocksOf n fuel (tokenIds.drop n)

/-- `dict.__setitem__` on the insertion-ordered dictionary : a known key keeps its place. -/
def dictSet (key : String) (id : EntryId) : List (String × EntryId) → List (String × EntryId)
  | [] => [(key, id)]
  | (k, i) :: rest => if k = key then (key, id) :: rest else (k, i) :: dictSet key id rest

/-- A key that is set is one of the keys, and the others keep their places. -/
theorem keys_dictSet (key : String) (id : EntryId) (l : List (String × EntryId)) :
    (dictSet key id l).map Prod.fst =
      if key ∈ l.map Prod.fst then l.map Prod.fst else l.map Prod.fst ++ [key] := by
  induction l with
  | nil => rfl
  | cons x l ih =>
    obtain ⟨k, i⟩ := x
    by_cases hk : k = key
    · simp [dictSet, hk]
    · rw [dictSet, if_neg hk, List.map_cons, ih, List.map_cons]
      by_cases hmem : key ∈ l.map Prod.fst
      · rw [if_pos hmem, if_pos (List.mem_cons_of_mem k hmem)]
      · rw [if_neg hmem, if_neg (by simpa [Ne.symm hk] using hmem), List.cons_append]

namespace PrefixCache

variable (c : PrefixCache)

def makeHashChain (tokenIds : List TokenId) : Except PyError (List ℕ) :=
  (blocksOf c.blockSize tokenIds.length tokenIds).mapM fun block =>
    (block.mapM toBytes8).map fun bytes => c.blake2b bytes.flatten

def makeKey (tokenIds : List TokenId) : Except PyError String :=
  (c.makeHashChain tokenIds).map fun chain => String.intercalate ":" (chain.map toString)

/-- `_entries.values()`, each object with its id. -/
def residents : List (EntryId × PrefixCacheEntry) :=
  c.entries.filterMap fun (_, id) => (c.objects id).map (id, ·)

/-- The loop of `match` : the first of the longest entries that are a prefix. -/
def longestPrefix (tokenIds : List TokenId) (es : List (EntryId × PrefixCacheEntry)) :
    Option (EntryId × PrefixCacheEntry) :=
  es.foldl (fun best e =>
    if e.2.tokenCount > tokenIds.length then best
    else if e.2.tokenIds = tokenIds.take e.2.tokenCount ∧
        best.all (fun b => e.2.tokenCount > b.2.tokenCount) then some e
    else best) none

/-- `match`. -/
def matchPrefix (now : Timestamp) (tokenIds : List TokenId) : PrefixMatch × PrefixCache :=
  match longestPrefix tokenIds c.residents with
  | none => ({ matchedTokens := 0, pages := [] }, c)
  | some (id, best) =>
    ({ matchedTokens := min best.tokenCount tokenIds.length
       pages := best.pages
       entry := some id },
      { c with
        objects := Function.update c.objects id
          (some { best with refCount := best.refCount + 1, lastAccessTs := now }) })

def release (entry : Option EntryId) : PrefixCache :=
  match entry with
  | none => c
  | some id =>
    match c.objects id with
    | none => c
    | some e =>
      { c with
        objects := Function.update c.objects id (some { e with refCount := e.refCount - 1 }) }

/-- `entry.last_access_ts` order of two idle entries. -/
def OlderThan (e f : EntryId × PrefixCacheEntry) : Prop :=
  e.2.lastAccessTs ≤ f.2.lastAccessTs

instance : DecidableRel OlderThan :=
  fun e f => inferInstanceAs (Decidable (e.2.lastAccessTs ≤ f.2.lastAccessTs))

def evictable : List (EntryId × PrefixCacheEntry) :=
  c.residents.filter fun e => !e.2.pinned && e.2.refCount = 0

def evict (targetCount : ℤ) : List EntryId × PrefixCache :=
  if targetCount ≤ 0 then ([], c)
  else
    let removed := (c.evictable.insertionSort OlderThan).take targetCount.toNat
    (removed.map Prod.fst,
      { c with entries := c.entries.filter fun e => !(removed.map (·.2.key)).contains e.1 })

/-- `_evict_to_capacity`. -/
def evictToCapacity : PrefixCache :=
  let overflow : ℤ := c.entries.length - c.maxEntries
  if overflow > 0 then (c.evict overflow).2 else c

def insert (now : Timestamp) (tokenIds : List TokenId) (pages : List PageId) (pinned : Bool) :
    Except PyError EntryId × PrefixCache :=
  match c.makeKey tokenIds with
  | .error e => (.error e, c)
  | .ok key =>
    let entry : PrefixCacheEntry :=
      { key := key
        tokenIds := tokenIds
        pages := pages
        tokenCount := tokenIds.length
        pinned := pinned
        lastAccessTs := now }
    (.ok c.nextEntryId,
      { c with
        objects := Function.update c.objects c.nextEntryId (some entry)
        nextEntryId := c.nextEntryId + 1
        entries := dictSet key c.nextEntryId c.entries }.evictToCapacity)

/-- The keys of the dictionary `_entries`. -/
def keys (c : PrefixCache) : List String :=
  c.entries.map Prod.fst

/-- The entry `e` is the object `id` and the dictionary holds it. -/
def Resident (id : EntryId) (e : PrefixCacheEntry) : Prop :=
  (∃ key, (key, id) ∈ c.entries) ∧ c.objects id = some e

/-! ## What the operations do to the entries -/

variable {c}

theorem mem_residents {id : EntryId} {e : PrefixCacheEntry} :
    (id, e) ∈ c.residents ↔ c.Resident id e := by
  simp only [residents, List.mem_filterMap, Option.map_eq_some_iff, Prod.mk.injEq, Resident]
  constructor
  · rintro ⟨⟨key, i⟩, hmem, e', he, rfl, rfl⟩
    exact ⟨⟨key, hmem⟩, he⟩
  · rintro ⟨⟨key, hmem⟩, he⟩
    exact ⟨(key, id), hmem, e, he, rfl, rfl⟩

/-- The longest prefix entry is one of the entries, and its tokens are a prefix. -/
theorem longestPrefix_some {tokenIds : List TokenId} {es : List (EntryId × PrefixCacheEntry)}
    {b : EntryId × PrefixCacheEntry} (h : longestPrefix tokenIds es = some b) :
    b ∈ es ∧ b.2.tokenCount ≤ tokenIds.length ∧ b.2.tokenIds = tokenIds.take b.2.tokenCount := by
  induction es using List.reverseRecOn with
  | nil => simp [longestPrefix] at h
  | append_singleton es e ih =>
    unfold longestPrefix at h ih
    rw [List.foldl_append, List.foldl_cons, List.foldl_nil] at h
    split_ifs at h with hlen hpre
    · obtain ⟨hb, hrest⟩ := ih h
      exact ⟨by simp [hb], hrest⟩
    · cases h
      exact ⟨by simp, Nat.le_of_not_lt hlen, hpre.1⟩
    · obtain ⟨hb, hrest⟩ := ih h
      exact ⟨by simp [hb], hrest⟩

/-- What `match` can do : a miss that changes nothing, or a hit on a resident entry whose
tokens are a prefix, which gains a reference. -/
theorem matchPrefix_cases (c : PrefixCache) (now : Timestamp) (tokenIds : List TokenId) :
    c.matchPrefix now tokenIds = ({ matchedTokens := 0, pages := [] }, c) ∨
      ∃ id e, c.Resident id e ∧ e.tokenCount ≤ tokenIds.length ∧
        e.tokenIds = tokenIds.take e.tokenCount ∧
        c.matchPrefix now tokenIds =
          ({ matchedTokens := e.tokenCount, pages := e.pages, entry := some id },
            { c with
              objects := Function.update c.objects id
                (some { e with refCount := e.refCount + 1, lastAccessTs := now }) }) := by
  unfold matchPrefix
  cases h : longestPrefix tokenIds c.residents with
  | none => exact .inl rfl
  | some b =>
    obtain ⟨id, e⟩ := b
    obtain ⟨hmem, hlen, hpre⟩ := longestPrefix_some h
    exact .inr ⟨id, e, mem_residents.1 hmem, hlen, hpre, by simp [Nat.min_eq_left hlen]⟩

theorem mem_dictSet {key : String} {id : EntryId} {l : List (String × EntryId)}
    {x : String × EntryId} (h : x ∈ dictSet key id l) : x = (key, id) ∨ x ∈ l := by
  induction l with
  | nil => simpa [dictSet] using h
  | cons y l ih =>
    simp only [dictSet] at h
    split_ifs at h with hk
    · rcases List.mem_cons.1 h with rfl | h
      · exact .inl rfl
      · exact .inr (by simp [h])
    · rcases List.mem_cons.1 h with rfl | h
      · exact .inr (by simp)
      · exact (ih h).imp_right (by simp [·])

theorem evict_objects (n : ℤ) : (c.evict n).2.objects = c.objects := by
  unfold evict
  split_ifs <;> rfl

theorem evict_nextEntryId (n : ℤ) : (c.evict n).2.nextEntryId = c.nextEntryId := by
  unfold evict
  split_ifs <;> rfl

theorem mem_evict_entries {n : ℤ} {x : String × EntryId} (h : x ∈ (c.evict n).2.entries) :
    x ∈ c.entries := by
  unfold evict at h
  split_ifs at h
  · exact h
  · exact (List.mem_filter.1 h).1

theorem evictToCapacity_objects : c.evictToCapacity.objects = c.objects := by
  unfold evictToCapacity
  dsimp only
  split_ifs
  · exact evict_objects _
  · rfl

theorem evictToCapacity_nextEntryId : c.evictToCapacity.nextEntryId = c.nextEntryId := by
  unfold evictToCapacity
  dsimp only
  split_ifs
  · exact evict_nextEntryId _
  · rfl

theorem mem_evictToCapacity_entries {x : String × EntryId}
    (h : x ∈ c.evictToCapacity.entries) : x ∈ c.entries := by
  unfold evictToCapacity at h
  dsimp only at h
  split_ifs at h
  · exact mem_evict_entries h
  · exact h

/-- What `insert` can do : raise and change nothing, or create the entry object. The
dictionary then holds nothing but that entry and entries it held before. -/
theorem insert_cases (c : PrefixCache) (now : Timestamp) (tokenIds : List TokenId)
    (pages : List PageId) (pinned : Bool) :
    (∃ e, c.insert now tokenIds pages pinned = (.error e, c)) ∨
      ∃ c' key, c.insert now tokenIds pages pinned = (.ok c.nextEntryId, c') ∧
        c'.nextEntryId = c.nextEntryId + 1 ∧
        c'.objects = Function.update c.objects c.nextEntryId (some
          { key, tokenIds, pages, tokenCount := tokenIds.length, pinned, lastAccessTs := now }) ∧
        ∀ x ∈ c'.entries, x = (key, c.nextEntryId) ∨ x ∈ c.entries := by
  unfold insert
  cases hk : c.makeKey tokenIds with
  | error e => exact .inl ⟨e, rfl⟩
  | ok key =>
    refine .inr ⟨_, key, rfl, ?_, ?_, fun x hx => ?_⟩
    · exact evictToCapacity_nextEntryId
    · exact evictToCapacity_objects
    · exact mem_dictSet (mem_evictToCapacity_entries hx)

/-- What `release` can do : nothing, or take one reference off an entry object. -/
theorem release_cases (c : PrefixCache) (entry : Option EntryId) :
    c.release entry = c ∨ ∃ id e, entry = some id ∧ c.objects id = some e ∧
      c.release entry = { c with
        objects := Function.update c.objects id
          (some { e with refCount := e.refCount - 1 }) } := by
  cases entry with
  | none => exact .inl rfl
  | some id =>
    cases h : c.objects id with
    | none => exact .inl (by simp [release, h])
    | some e => exact .inr ⟨id, e, rfl, h, by simp [release, h]⟩

/-! ## Where the entries come from -/

/-- Two states of one entry : they differ in the references and the time stamp only. -/
def SameContent (e e' : PrefixCacheEntry) : Prop :=
  e'.pages = e.pages ∧ e'.tokenIds = e.tokenIds ∧ e'.tokenCount = e.tokenCount

/-- The ids of the entry objects were handed out. -/
def Bounded (c : PrefixCache) : Prop :=
  ∀ id e, c.objects id = some e → id < c.nextEntryId

variable {c' : PrefixCache} {id : EntryId} {e' : PrefixCacheEntry}

theorem Resident.unique {e e' : PrefixCacheEntry} (h : c.Resident id e) (h' : c.Resident id e') :
    e' = e :=
  Option.some.inj (h'.2.symm.trans h.2)

/-- Changing an object in place keeps the residents, up to the changed object. -/
theorem resident_of_update {i : EntryId} {f f' : PrefixCacheEntry} (hf : c.objects i = some f)
    (hsame : SameContent f f')
    (h : ({ c with objects := Function.update c.objects i (some f') } :
      PrefixCache).Resident id e') : ∃ e, c.Resident id e ∧ SameContent e e' := by
  obtain ⟨hkey, hobj⟩ := h
  by_cases hid : id = i
  · subst hid
    obtain rfl : f' = e' := by simpa using hobj
    exact ⟨f, ⟨hkey, hf⟩, hsame⟩
  · exact ⟨e', ⟨hkey, by simpa [hid] using hobj⟩, rfl, rfl, rfl⟩

theorem resident_matchPrefix {now : Timestamp} {tokenIds : List TokenId}
    (h : (c.matchPrefix now tokenIds).2.Resident id e') :
    ∃ e, c.Resident id e ∧ SameContent e e' := by
  rcases c.matchPrefix_cases now tokenIds with hm | ⟨i, f, hf, -, -, hm⟩
  · rw [hm] at h
    exact ⟨e', h, rfl, rfl, rfl⟩
  · rw [hm] at h
    refine resident_of_update hf.2 ?_ h
    exact ⟨rfl, rfl, rfl⟩

theorem resident_release {entry : Option EntryId} (h : (c.release entry).Resident id e') :
    ∃ e, c.Resident id e ∧ SameContent e e' := by
  rcases c.release_cases entry with hr | ⟨i, f, -, hf, hr⟩
  · rw [hr] at h
    exact ⟨e', h, rfl, rfl, rfl⟩
  · rw [hr] at h
    refine resident_of_update hf ?_ h
    exact ⟨rfl, rfl, rfl⟩

/-- Changing an object in place takes no entry out of the dictionary. -/
theorem Resident.of_update {i : EntryId} {e f f' : PrefixCacheEntry} (h : c.Resident id e)
    (hf : c.objects i = some f) (hsame : SameContent f f') :
    ∃ e', ({ c with objects := Function.update c.objects i (some f') } :
      PrefixCache).Resident id e' ∧ SameContent e e' := by
  by_cases hid : id = i
  · subst hid
    obtain rfl := Option.some.inj (h.2.symm.trans hf)
    exact ⟨f', ⟨h.1, by simp⟩, hsame⟩
  · exact ⟨e, ⟨h.1, by simpa [hid] using h.2⟩, rfl, rfl, rfl⟩

theorem Resident.matchPrefix {e : PrefixCacheEntry} (h : c.Resident id e) (now : Timestamp)
    (tokenIds : List TokenId) :
    ∃ e', (c.matchPrefix now tokenIds).2.Resident id e' ∧ SameContent e e' := by
  rcases c.matchPrefix_cases now tokenIds with hm | ⟨i, f, hf, -, -, hm⟩ <;> rw [hm]
  · exact ⟨e, h, rfl, rfl, rfl⟩
  · exact h.of_update hf.2 ⟨rfl, rfl, rfl⟩

theorem Resident.release {e : PrefixCacheEntry} (h : c.Resident id e) (entry : Option EntryId) :
    ∃ e', (c.release entry).Resident id e' ∧ SameContent e e' := by
  rcases c.release_cases entry with hr | ⟨i, f, -, hf, hr⟩ <;> rw [hr]
  · exact ⟨e, h, rfl, rfl, rfl⟩
  · exact h.of_update hf ⟨rfl, rfl, rfl⟩

theorem resident_evict {n : ℤ} (h : (c.evict n).2.Resident id e') : c.Resident id e' := by
  obtain ⟨⟨key, hkey⟩, hobj⟩ := h
  exact ⟨⟨key, mem_evict_entries hkey⟩, by rwa [evict_objects] at hobj⟩

/-- A resident after an insert was one before, or is the new entry. -/
theorem resident_insert {now : Timestamp} {tokenIds : List TokenId} {pages : List PageId}
    {pinned : Bool} (h : (c.insert now tokenIds pages pinned).2.Resident id e') :
    c.Resident id e' ∨ id = c.nextEntryId ∧ e'.pages = pages ∧ e'.tokenIds = tokenIds ∧
      e'.tokenCount = tokenIds.length := by
  rcases c.insert_cases now tokenIds pages pinned with ⟨e, hi⟩ | ⟨c', key, hi, -, hobj, hent⟩
  · rw [hi] at h
    exact .inl h
  · rw [hi] at h
    obtain ⟨⟨k, hk⟩, ho⟩ := h
    rw [hobj] at ho
    by_cases hid : id = c.nextEntryId
    · subst hid
      rw [Function.update_self, Option.some.injEq] at ho
      subst ho
      exact .inr ⟨rfl, rfl, rfl, rfl⟩
    · rw [Function.update_of_ne hid] at ho
      rcases hent _ hk with heq | hk'
      · exact absurd (Prod.mk.inj heq).2 hid
      · exact .inl ⟨⟨k, hk'⟩, ho⟩

theorem Bounded.update (h : c.Bounded) {i : EntryId} {f f' : PrefixCacheEntry}
    (hf : c.objects i = some f) :
    ({ c with objects := Function.update c.objects i (some f') } : PrefixCache).Bounded := by
  intro id e he
  by_cases hid : id = i
  · exact hid ▸ h i f hf
  · exact h id e (by simpa [hid] using he)

theorem Bounded.matchPrefix (h : c.Bounded) (now : Timestamp) (tokenIds : List TokenId) :
    (c.matchPrefix now tokenIds).2.Bounded := by
  rcases c.matchPrefix_cases now tokenIds with hm | ⟨i, f, hf, -, -, hm⟩ <;> rw [hm]
  · exact h
  · exact h.update hf.2

theorem Bounded.release (h : c.Bounded) (entry : Option EntryId) : (c.release entry).Bounded := by
  rcases c.release_cases entry with hr | ⟨i, f, -, hf, hr⟩ <;> rw [hr]
  · exact h
  · exact h.update hf

theorem Bounded.evict (h : c.Bounded) (n : ℤ) : (c.evict n).2.Bounded := by
  intro id e he
  rw [evict_objects] at he
  rw [evict_nextEntryId]
  exact h id e he

theorem Bounded.insert (h : c.Bounded) (now : Timestamp) (tokenIds : List TokenId)
    (pages : List PageId) (pinned : Bool) : (c.insert now tokenIds pages pinned).2.Bounded := by
  rcases c.insert_cases now tokenIds pages pinned with ⟨e, hi⟩ | ⟨c', key, hi, hnext, hobj, -⟩ <;>
    rw [hi]
  · exact h
  · intro id e he
    rw [hnext]
    rw [hobj] at he
    by_cases hid : id = c.nextEntryId
    · exact hid ▸ Nat.lt_succ_self _
    · rw [Function.update_of_ne hid] at he
      exact Nat.lt_succ_of_lt (h id e he)

end PrefixCache

end SoloRT
