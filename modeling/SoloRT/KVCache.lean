import SoloRT.PageAllocator
import Mathlib.Data.List.Forall2
import Mathlib.Logic.Relation

/-!
# The paged KV cache

The control plane of `cache/kv_cache.py` : page tables, the four metadata fields handed to
the attention backend, and the page transactions of a speculative append. A page table is
changed in place, so an operation returns it next to the cache.

Executors reach the allocator through this interface only. `KVStep` is one call on a
sequence's own table, `KVSteps` any number of them, and `KVSteps.grows` is the one fact
the rest of the development needs about them : the table keeps its pages and gains some
that were free, and the pages in use grow by exactly these.
-/

namespace SoloRT

structure KVCacheConfig where
  numPages : ℕ
  pageSize : ℕ
  /-- The allocator's constructor raises `ValueError` otherwise. -/
  pageSize_pos : 0 < pageSize
  numPages_pos : 0 < numPages

structure KVCacheMetadata where
  pageIndptr : List ℕ
  pageIndices : List PageId
  lastPageLen : List ℕ
  slotMapping : List ℕ
  deriving DecidableEq, Repr

/-- Pages reserved by a speculative append, and the length of the table before it. -/
structure KVCacheTransaction where
  pages : List PageId
  originalBlockLen : ℕ
  deriving DecidableEq, Repr

structure PagedKVCache where
  config : KVCacheConfig
  allocator : PageAllocator

namespace PagedKVCache

/-- A cache with every page free. -/
def fresh (config : KVCacheConfig) : PagedKVCache where
  config := config
  allocator :=
    { numPages := config.numPages
      pageSize := config.pageSize
      freePages := List.range config.numPages
      refCount := fun _ => 0 }

variable (kv : PagedKVCache)

def pagesRequired (tokenCount : ℕ) : ℕ :=
  if tokenCount = 0 then 0 else (tokenCount + kv.config.pageSize - 1) / kv.config.pageSize

def ensureCapacity (blockTable : List PageId) (tokenCount : ℕ) :
    Except PyError (List PageId) × PagedKVCache × List PageId :=
  let missing := kv.pagesRequired tokenCount - blockTable.length
  if missing = 0 then (.ok [], kv, blockTable)
  else
    match kv.allocator.alloc missing with
    | (.error e, allocator) => (.error e, { kv with allocator }, blockTable)
    | (.ok pages, allocator) => (.ok pages, { kv with allocator }, blockTable ++ pages)

/-- The physical slot of one logical position. -/
def slotOf (blockTable : List PageId) (position : ℕ) : Except PyError ℕ :=
  let logicalPage := position / kv.config.pageSize
  match blockTable[logicalPage]? with
  | none => .error ⟨.indexError,
      "position " ++ toString position ++ " needs logical page " ++ toString logicalPage ++
        ", but block table has " ++ toString blockTable.length ++ " pages"⟩
  | some page => .ok (page * kv.config.pageSize + position % kv.config.pageSize)

def slotMapping (blockTable : List PageId) (positions : List ℕ) : Except PyError (List ℕ) :=
  positions.mapM (kv.slotOf blockTable)

def lastPageLen (tokenCount : ℕ) : ℕ :=
  if tokenCount = 0 then 0
  else
    let remainder := tokenCount % kv.config.pageSize
    if remainder = 0 then kv.config.pageSize else remainder

def metadataFor (blockTable : List PageId) (tokenCount : ℕ) (positions : List ℕ) :
    Except PyError KVCacheMetadata :=
  let pageIndices := blockTable.take (kv.pagesRequired tokenCount)
  match kv.slotMapping blockTable positions with
  | .error e => .error e
  | .ok slotMapping => .ok
      { pageIndptr := [0, pageIndices.length]
        pageIndices := pageIndices
        lastPageLen := [kv.lastPageLen tokenCount]
        slotMapping := slotMapping }

def beginAppendTransaction (blockTable : List PageId) (currentTokenCount : ℕ)
    (appendTokenCount : ℤ) :
    Except PyError KVCacheTransaction × PagedKVCache × List PageId :=
  if appendTokenCount < 0 then
    (.error ⟨.valueError, "append_token_count cannot be negative"⟩, kv, blockTable)
  else
    let originalLen := blockTable.length
    match kv.ensureCapacity blockTable (currentTokenCount + appendTokenCount.toNat) with
    | (.error e, kv', blockTable') => (.error e, kv', blockTable')
    | (.ok _, kv', blockTable') =>
      (.ok ⟨blockTable'.drop originalLen, originalLen⟩, kv', blockTable')

/-- Keeping the pages of a transaction changes nothing. -/
def commitTransaction (_transaction : KVCacheTransaction) : PagedKVCache :=
  kv

def rollbackTransaction (blockTable : List PageId) (transaction : KVCacheTransaction) :
    Except PyError Unit × PagedKVCache × List PageId :=
  if transaction.pages = [] then (.ok (), kv, blockTable)
  else
    let (r, allocator) := PageAllocator.free (transaction.pages.map Int.ofNat) kv.allocator
    (r, { kv with allocator }, blockTable.take transaction.originalBlockLen)

/-! ## Slots -/

variable {kv}

theorem slotOf_ok {table : List PageId} {position slot : ℕ}
    (h : kv.slotOf table position = .ok slot) :
    ∃ page, table[position / kv.config.pageSize]? = some page ∧
      slot = page * kv.config.pageSize + position % kv.config.pageSize := by
  unfold slotOf at h
  dsimp only at h
  split at h
  · cases h
  · rename_i page hpage
    cases h
    exact ⟨page, hpage, rfl⟩

theorem slotMapping_ok {table : List PageId} {positions slots : List ℕ}
    (h : kv.slotMapping table positions = .ok slots) :
    List.Forall₂ (fun p s => kv.slotOf table p = .ok s) positions slots :=
  forall₂_of_mapM_ok h

/-- Every slot of a mapping is the slot of one of its positions. -/
theorem mem_slotMapping {table : List PageId} {positions slots : List ℕ}
    (h : kv.slotMapping table positions = .ok slots) {s : ℕ} (hs : s ∈ slots) :
    ∃ p ∈ positions, kv.slotOf table p = .ok s := by
  have hall := slotMapping_ok h
  clear h
  induction hall with
  | nil => simp at hs
  | @cons p _ _ _ hp _ ih =>
    rcases List.mem_cons.1 hs with rfl | hs
    · exact ⟨p, by simp, hp⟩
    · obtain ⟨q, hq, hqs⟩ := ih hs
      exact ⟨q, by simp [hq], hqs⟩

/-! ## Calls on a sequence's own table -/

/-- One call of the interface on a page table. A kept or failed append reserves pages as
`ensure_capacity` does, a failed branch gives back what it reserved. -/
inductive KVStep : PagedKVCache × List PageId → PagedKVCache × List PageId → Prop
  | ensureCapacity (kv : PagedKVCache) (table : List PageId) (tokenCount : ℕ) :
      KVStep (kv, table) (kv.ensureCapacity table tokenCount).2
  | beginThenRollback {kv : PagedKVCache} {table : List PageId} {current : ℕ} {append : ℤ}
      {transaction : KVCacheTransaction} {kv' : PagedKVCache} {table' : List PageId}
      (h : kv.beginAppendTransaction table current append = (.ok transaction, kv', table')) :
      KVStep (kv, table) (kv'.rollbackTransaction table' transaction).2

/-- Any number of calls. -/
abbrev KVSteps : PagedKVCache × List PageId → PagedKVCache × List PageId → Prop :=
  Relation.ReflTransGen KVStep

/-- The cache and table after some calls : the table gained the pages `pages`. -/
structure Grows (kv : PagedKVCache) (table : List PageId) (kv' : PagedKVCache)
    (table' : List PageId) (pages : List PageId) : Prop where
  config : kv'.config = kv.config
  numPages : kv'.allocator.numPages = kv.allocator.numPages
  consistent : kv'.allocator.Consistent
  table_eq : table' = table ++ pages
  nodup : pages.Nodup
  fresh : ∀ p ∈ pages, p ∉ kv.allocator.usedPages
  used : kv'.allocator.usedPages = kv.allocator.usedPages ∪ pages.toFinset

theorem Grows.refl {kv : PagedKVCache} (h : kv.allocator.Consistent) (table : List PageId) :
    Grows kv table kv table [] :=
  ⟨rfl, rfl, h, by simp, by simp, by simp, by simp⟩

theorem Grows.trans {kv kv' kv'' : PagedKVCache} {t t' t'' ps qs : List PageId}
    (h : Grows kv t kv' t' ps) (h' : Grows kv' t' kv'' t'' qs) :
    Grows kv t kv'' t'' (ps ++ qs) where
  config := h'.config.trans h.config
  numPages := h'.numPages.trans h.numPages
  consistent := h'.consistent
  table_eq := by rw [h'.table_eq, h.table_eq, List.append_assoc]
  nodup := List.nodup_append.2 ⟨h.nodup, h'.nodup, by
    rintro p hp q hq rfl
    exact h'.fresh p hq (by simp [h.used, hp])⟩
  fresh p hp := by
    rcases List.mem_append.1 hp with hp | hp
    · exact h.fresh p hp
    · exact fun hu => h'.fresh p hp (by simp [h.used, hu])
  used := by rw [h'.used, h.used, List.toFinset_append, Finset.union_assoc]

theorem ensureCapacity_grows {kv : PagedKVCache} (hkv : kv.allocator.Consistent)
    (table : List PageId) (n : ℕ) : ∃ pages,
      Grows kv table (kv.ensureCapacity table n).2.1 (kv.ensureCapacity table n).2.2 pages ∧
        ∀ p ∈ pages, (kv.ensureCapacity table n).2.1.allocator.refCount p = 1 := by
  unfold ensureCapacity
  dsimp only
  split_ifs
  · exact ⟨[], Grows.refl hkv table, by simp⟩
  · split
    · rename_i e a' h
      have := PageAllocator.alloc_error h
      subst this
      exact ⟨[], Grows.refl hkv table, by simp⟩
    · rename_i pages a' h
      obtain ⟨-, -, hused, href, hnum, -⟩ := PageAllocator.alloc_ok h
      obtain ⟨hnd, hfresh⟩ := hkv.alloc_fresh h
      exact ⟨pages, ⟨rfl, hnum, hkv.alloc h, rfl, hnd, hfresh, hused⟩, fun p hp => by
        simp [href, hp]⟩

/-- Reserving capacity succeeds when the missing pages are free. -/
theorem exists_ensureCapacity_ok {kv : PagedKVCache} {table : List PageId} {n : ℕ}
    (h : kv.pagesRequired n - table.length ≤ kv.allocator.freePages.length) :
    ∃ pages kv' table', kv.ensureCapacity table n = (.ok pages, kv', table') := by
  unfold ensureCapacity
  dsimp only
  split_ifs
  · exact ⟨_, _, _, rfl⟩
  · obtain ⟨pages, a', ha⟩ := PageAllocator.exists_alloc_ok h
    rw [ha]
    exact ⟨_, _, _, rfl⟩

/-- The pages of a reservation that succeeds were free or there before. -/
theorem ensureCapacity_ok {kv kv' : PagedKVCache} {table table' pages : List PageId} {n : ℕ}
    (h : kv.ensureCapacity table n = (.ok pages, kv', table')) :
    kv.pagesRequired n - table.length ≤ kv.allocator.freePages.length ∧
      kv.pagesRequired n ≤ table'.length := by
  unfold ensureCapacity at h
  dsimp only at h
  split_ifs at h with hmissing
  · cases h
    omega
  · cases ha : kv.allocator.alloc ↑(kv.pagesRequired n - table.length) with
    | mk r a' =>
      rw [ha] at h
      obtain e | pages' := r <;> cases h
      obtain ⟨hlen, hfree, -⟩ := PageAllocator.alloc_ok ha
      rw [hfree, List.length_append, List.length_append]
      omega

/-- A reservation fails when the pages run out. -/
theorem ensureCapacity_error {kv kv' : PagedKVCache} {table table' : List PageId} {n : ℕ}
    {e : PyError} (h : kv.ensureCapacity table n = (.error e, kv', table')) :
    e.kind = .pageAllocationError := by
  unfold ensureCapacity at h
  dsimp only at h
  split_ifs at h
  · cases h
  · cases halloc : kv.allocator.alloc ↑(kv.pagesRequired n - table.length) with
    | mk r a' =>
      rw [halloc] at h
      obtain e | pages := r <;> cases h
      exact PageAllocator.alloc_error_kind halloc

theorem beginAppendTransaction_error {kv kv' : PagedKVCache} {table table' : List PageId}
    {current append : ℕ} {e : PyError}
    (h : kv.beginAppendTransaction table current append = (.error e, kv', table')) :
    e.kind = .pageAllocationError := by
  unfold beginAppendTransaction at h
  rw [if_neg (by omega), Int.toNat_natCast] at h
  cases hens : kv.ensureCapacity table (current + append) with
  | mk r p =>
    rw [hens] at h
    obtain e | pages := r <;> cases h
    exact ensureCapacity_error hens

/-- A table has the pages that were reserved for it. -/
theorem ensureCapacity_covers {kv kv' : PagedKVCache} {table table' pages : List PageId} {n : ℕ}
    (h : kv.ensureCapacity table n = (.ok pages, kv', table')) :
    kv'.pagesRequired n ≤ table'.length := by
  have hfit := (ensureCapacity_ok h).2
  have hconfig : kv'.config = kv.config := by
    unfold ensureCapacity at h
    dsimp only at h
    split_ifs at h
    · cases h
      rfl
    · split at h <;> cases h
      rfl
  rwa [pagesRequired, hconfig]

theorem beginAppendTransaction_covers {kv kv' : PagedKVCache} {table table' : List PageId}
    {current append : ℕ} {transaction : KVCacheTransaction}
    (h : kv.beginAppendTransaction table current append = (.ok transaction, kv', table')) :
    kv'.pagesRequired (current + append) ≤ table'.length := by
  unfold beginAppendTransaction at h
  rw [if_neg (by omega), Int.toNat_natCast] at h
  cases hens : kv.ensureCapacity table (current + append) with
  | mk r p =>
    rw [hens] at h
    obtain e | pages := r <;> cases h
    exact ensureCapacity_covers hens

/-- A reservation that fails changes nothing. -/
theorem beginAppendTransaction_refused {kv kv' : PagedKVCache} {table table' : List PageId}
    {current : ℕ} {append : ℤ} {e : PyError}
    (h : kv.beginAppendTransaction table current append = (.error e, kv', table')) :
    kv' = kv ∧ table' = table := by
  unfold beginAppendTransaction at h
  split_ifs at h
  · cases h
    exact ⟨rfl, rfl⟩
  unfold ensureCapacity at h
  dsimp only at h
  split_ifs at h
  · cases h
  · cases halloc : kv.allocator.alloc
      ↑(kv.pagesRequired (current + append.toNat) - table.length) with
    | mk r a' =>
      rw [halloc] at h
      obtain e' | pages := r <;> cases h
      rw [PageAllocator.alloc_error halloc]
      exact ⟨rfl, rfl⟩

/-- The pages of a transaction were free, and come after those of the table. -/
theorem beginAppendTransaction_reserves {kv kv' : PagedKVCache} {table table' : List PageId}
    {current : ℕ} {append : ℤ} {transaction : KVCacheTransaction}
    (hs : kv.allocator.Consistent)
    (h : kv.beginAppendTransaction table current append = (.ok transaction, kv', table')) :
    Grows kv table kv' table' transaction.pages ∧ kv'.allocator.Sole transaction.pages ∧
      transaction.originalBlockLen = table.length := by
  unfold beginAppendTransaction at h
  split_ifs at h
  · simp at h
  obtain ⟨pages, hgrow, hone⟩ := ensureCapacity_grows hs table (current + append.toNat)
  generalize kv.ensureCapacity table (current + append.toNat) = r at h hgrow hone
  obtain ⟨_ | pages', kv₁, table₁⟩ := r
  · simp at h
  simp only [Prod.mk.injEq, Except.ok.injEq] at h
  obtain ⟨rfl, rfl, rfl⟩ := h
  dsimp only at hgrow hone ⊢
  have hdrop : table₁.drop table.length = pages := by
    rw [hgrow.table_eq, List.drop_left]
  rw [hdrop]
  exact ⟨hgrow, fun p hp => ⟨by simp [hgrow.used, hp], hone p hp⟩, rfl⟩

/-- Giving back the pages of a transaction, which are the last ones of the table. -/
theorem rollbackTransaction_eq {kv : PagedKVCache} {table : List PageId}
    {transaction : KVCacheTransaction} (hs : kv.allocator.Consistent)
    (hsole : kv.allocator.Sole transaction.pages) (hnd : transaction.pages.Nodup)
    (hlen : transaction.originalBlockLen = table.length) :
    kv.rollbackTransaction (table ++ transaction.pages) transaction =
      (.ok (), { kv with allocator := { kv.allocator with
        freePages := kv.allocator.freePages ++ transaction.pages
        usedPages := kv.allocator.usedPages \ transaction.pages.toFinset
        refCount := fun p => if p ∈ transaction.pages then 0 else kv.allocator.refCount p } },
        table) := by
  unfold rollbackTransaction
  split_ifs with hnone
  · simp [hnone]
  · rw [hsole.free hs hnd, hlen, List.take_left]

/-- Rolling a reservation back succeeds, and the table and the pages in use are as before. -/
theorem rollbackTransaction_ok {kv kv' : PagedKVCache} {table table' : List PageId} {current : ℕ}
    {append : ℤ} {transaction : KVCacheTransaction} (hs : kv.allocator.Consistent)
    (h : kv.beginAppendTransaction table current append = (.ok transaction, kv', table')) :
    ∃ kv'', kv'.rollbackTransaction table' transaction = (.ok (), kv'', table) ∧
      Grows kv table kv'' table [] := by
  obtain ⟨hgrow, hsole, hlen⟩ := beginAppendTransaction_reserves hs h
  have hc := hsole.consistent hgrow.consistent hgrow.nodup
  rw [hgrow.table_eq, rollbackTransaction_eq hgrow.consistent hsole hgrow.nodup hlen]
  refine ⟨_, rfl, ⟨hgrow.config, hgrow.numPages, hc, by simp, by simp, by simp, ?_⟩⟩
  dsimp only
  rw [hgrow.used, Finset.union_sdiff_right, List.toFinset_nil, Finset.union_empty]
  exact Finset.sdiff_eq_self_of_disjoint
    (Finset.disjoint_right.2 fun p hp => hgrow.fresh p (List.mem_toFinset.1 hp))

theorem pagesRequired_mono (kv : PagedKVCache) {n m : ℕ} (h : n ≤ m) :
    kv.pagesRequired n ≤ kv.pagesRequired m := by
  unfold pagesRequired
  split_ifs
  · exact le_rfl
  · exact Nat.zero_le _
  · omega
  · exact Nat.div_le_div_right (by omega)

/-- After a rollback, reserving again for no more tokens succeeds. -/
theorem exists_ensureCapacity_after_rollback {kv kv' kv'' : PagedKVCache}
    {table table' : List PageId} {current n : ℕ} {append : ℤ} {transaction : KVCacheTransaction}
    (h : kv.beginAppendTransaction table current append = (.ok transaction, kv', table'))
    (hback : Grows kv table kv'' table []) (hs : kv.allocator.Consistent)
    (hn : n ≤ current + append.toNat) :
    ∃ pages kv₃ table₃, kv''.ensureCapacity table n = (.ok pages, kv₃, table₃) := by
  refine exists_ensureCapacity_ok ?_
  unfold beginAppendTransaction at h
  split_ifs at h
  · simp at h
  cases hens : kv.ensureCapacity table (current + append.toNat) with
  | mk r p =>
    obtain ⟨kv₁, table₁⟩ := p
    obtain e | pages := r
    · rw [hens] at h
      simp at h
    · have hfit := (ensureCapacity_ok hens).1
      have hmono := kv.pagesRequired_mono hn
      have hrequired : kv''.pagesRequired n = kv.pagesRequired n := by
        rw [pagesRequired, pagesRequired, hback.config]
      have hused : kv''.allocator.usedPages = kv.allocator.usedPages := by
        simpa using hback.used
      have hcard := hs.card
      have hcard'' := hback.consistent.card
      rw [hused, hback.numPages] at hcard''
      omega

/-- Tokens fit on the pages that are required for them. -/
theorem le_pagesRequired_mul (kv : PagedKVCache) (n : ℕ) :
    n ≤ kv.pagesRequired n * kv.config.pageSize := by
  unfold pagesRequired
  split_ifs with hn
  · omega
  · have hdiv := Nat.div_add_mod (n + kv.config.pageSize - 1) kv.config.pageSize
    have hmod := Nat.mod_lt (n + kv.config.pageSize - 1) kv.config.pageSize_pos
    rw [Nat.mul_comm] at hdiv
    omega

/-- The logical page of a position that pages were reserved for. -/
theorem div_pageSize_lt (kv : PagedKVCache) {n position length : ℕ}
    (hn : kv.pagesRequired n ≤ length) (hp : position < n) :
    position / kv.config.pageSize < length := by
  rw [Nat.div_lt_iff_lt_mul kv.config.pageSize_pos]
  calc position < n := hp
    _ ≤ kv.pagesRequired n * kv.config.pageSize := kv.le_pagesRequired_mul n
    _ ≤ length * kv.config.pageSize := Nat.mul_le_mul_right _ hn

/-- The slot of a position whose page is in the table. -/
def slotAt (pageSize : ℕ) (table : List PageId) (position : ℕ) : ℕ :=
  table.getD (position / pageSize) 0 * pageSize + position % pageSize

theorem slotMapping_eq (kv : PagedKVCache) {table : List PageId} : ∀ {positions : List ℕ},
    (∀ p ∈ positions, p / kv.config.pageSize < table.length) →
    kv.slotMapping table positions = .ok (positions.map (slotAt kv.config.pageSize table))
  | [], _ => rfl
  | p :: ps, h => by
    have hps := slotMapping_eq kv fun q hq => h q (List.mem_cons_of_mem p hq)
    have hp := h p (by simp)
    unfold slotMapping at hps ⊢
    rw [List.mapM_cons, hps]
    simp [slotOf, slotAt, List.getElem?_eq_getElem hp, bind, Except.bind, pure, Except.pure]

/-- A table that has the logical pages of some positions has a slot for each of them. -/
theorem exists_slotMapping_of_inside (kv : PagedKVCache) {table : List PageId}
    {positions : List ℕ} (h : ∀ p ∈ positions, p / kv.config.pageSize < table.length) :
    ∃ slots, kv.slotMapping table positions = .ok slots :=
  ⟨_, kv.slotMapping_eq h⟩

/-- A table with enough pages has a slot for every position. -/
theorem exists_slotMapping_ok (kv : PagedKVCache) {table : List PageId} {n : ℕ}
    (hn : kv.pagesRequired n ≤ table.length) {positions : List ℕ} (h : ∀ p ∈ positions, p < n) :
    ∃ slots, kv.slotMapping table positions = .ok slots :=
  exists_slotMapping_of_inside kv fun p hp => kv.div_pageSize_lt hn (h p hp)

theorem KVStep.grows {s t : PagedKVCache × List PageId} (h : KVStep s t)
    (hs : s.1.allocator.Consistent) : ∃ pages, Grows s.1 s.2 t.1 t.2 pages := by
  cases h with
  | ensureCapacity kv table n =>
    obtain ⟨pages, hp, -⟩ := ensureCapacity_grows hs table n
    exact ⟨pages, hp⟩
  | beginThenRollback h =>
    obtain ⟨kv'', hback, hgrow⟩ := rollbackTransaction_ok hs h
    rw [hback]
    exact ⟨[], hgrow⟩

/-- Calls on a page table keep its pages, add free ones, and put exactly these in use. -/
theorem KVSteps.grows {s t : PagedKVCache × List PageId} (h : KVSteps s t)
    (hs : s.1.allocator.Consistent) : ∃ pages, Grows s.1 s.2 t.1 t.2 pages := by
  induction h with
  | refl => exact ⟨[], Grows.refl hs s.2⟩
  | tail _ hstep ih =>
    obtain ⟨ps, hps⟩ := ih
    obtain ⟨qs, hqs⟩ := hstep.grows hps.consistent
    exact ⟨ps ++ qs, hps.trans hqs⟩

/-- Reserving pages for an append is a call of the interface, whether it succeeds or not. -/
theorem KVSteps.beginAppendTransaction (kv : PagedKVCache) (table : List PageId)
    (current : ℕ) (append : ℤ) :
    KVSteps (kv, table) (kv.beginAppendTransaction table current append).2 := by
  unfold PagedKVCache.beginAppendTransaction
  split_ifs
  · exact .refl
  · refine .single ?_
    have h := KVStep.ensureCapacity kv table (current + append.toNat)
    generalize kv.ensureCapacity table (current + append.toNat) = r at h
    obtain ⟨_ | _, kv', table'⟩ := r <;> exact h

end PagedKVCache

end SoloRT
