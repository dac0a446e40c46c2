import SoloRT.PageHistory
import SoloRT.PageLayout

/-!
# Giving pages back

`free` gives its pages back one after the other, and checks each of them when it gets there. So a
list with a bad page in it is given back up to that page (`free_split`), and `free` is
all-or-nothing only if the bad page comes first (`free_atomic_iff`).

The pages of a transaction have one reference each, and nobody else has their numbers. Whatever
other calls do in between, a rollback therefore gives back all of them, and leaves the other pages
as these calls left them (`beginAppendTransaction_clean`).
-/

namespace SoloRT

namespace PageAllocator

variable {a a' : PageAllocator}

/-! ## Freeing several pages -/

theorem validateAllocated_nonneg {pageId : ℤ} {p : PageId}
    (h : a.validateAllocated pageId = .ok p) : 0 ≤ pageId := by
  unfold validateAllocated at h
  split_ifs at h with hrange
  rw [not_or, not_lt] at hrange
  exact hrange.1

theorem decref_nonneg {pageId : ℤ} (h : a.decref pageId = (.ok (), a')) : 0 ≤ pageId := by
  unfold PageAllocator.decref at h
  cases hvalid : a.validateAllocated pageId with
  | error e =>
    rw [hvalid] at h
    cases h
  | ok p => exact validateAllocated_nonneg hvalid

/-- What a `free` that succeeds does to the counts. -/
theorem free_counts : ∀ {pages : List ℤ} {a a' : PageAllocator}, a.Consistent →
    free pages a = (.ok (), a') →
    a'.Consistent ∧ a'.numPages = a.numPages ∧ (∀ p ∈ pages, 0 ≤ p) ∧
      ∀ p : ℕ, a'.refCount p + pages.count (p : ℤ) = a.refCount p
  | [], a, a', ha, h => by
    cases h
    exact ⟨ha, rfl, by simp, by simp⟩
  | pageId :: pages, a, a', ha, h => by
    unfold free at h
    rcases ha.decref_spec pageId with ⟨e, hd⟩ | ⟨a₁, hd, ha₁, hnum₁, haccounts⟩
    · rw [hd] at h
      cases h
    · rw [hd] at h
      obtain ⟨ha', hnum', hnonneg, hcounts⟩ := free_counts ha₁ h
      have h0 := decref_nonneg hd
      refine ⟨ha', hnum'.trans hnum₁, List.forall_mem_cons.2 ⟨h0, hnonneg⟩, fun p => ?_⟩
      have hone := haccounts.kept p (by simp)
      have hrest := hcounts p
      rw [List.count_cons]
      rw [List.count_cons, List.count_nil, List.count_eq_zero_of_not_mem (by simp)] at hone
      have hiff : pageId = (p : ℤ) ↔ pageId.toNat = p := by omega
      by_cases hp : pageId = (p : ℤ)
      · simp [hp] at hone ⊢
        omega
      · have hne : pageId.toNat ≠ p := fun h => hp (hiff.2 h)
        simp [hp, hne] at hone ⊢
        omega

/-- A `free` that raises has given back the pages before the first bad one. -/
theorem free_split : ∀ {pages : List ℤ} {a a' : PageAllocator} {e : PyError},
    free pages a = (.error e, a') →
    ∃ done bad rest, pages = done ++ bad :: rest ∧ free done a = (.ok (), a') ∧
      a'.validateAllocated bad = .error e
  | [], a, a', e, h => by cases h
  | pageId :: pages, a, a', e, h => by
    unfold free at h
    cases hd : a.decref pageId with
    | mk r a₁ =>
      rw [hd] at h
      obtain e' | ⟨⟩ := r
      · cases h
        have hbad : a.validateAllocated pageId = .error e ∧ a' = a := by
          unfold PageAllocator.decref at hd
          split at hd
          · cases hd
            exact ⟨‹_›, rfl⟩
          · dsimp only at hd
            split_ifs at hd
            · cases hd
            · cases hd
        obtain ⟨hbad, rfl⟩ := hbad
        exact ⟨[], pageId, pages, rfl, rfl, hbad⟩
      · obtain ⟨done, bad, rest, rfl, hdone, hbad⟩ := free_split h
        refine ⟨pageId :: done, bad, rest, rfl, ?_, hbad⟩
        rw [free, hd]
        exact hdone

/-- A page in range with a reference passes the check. -/
theorem Consistent.validateAllocated_ok (ha : a.Consistent) {pageId : ℤ} (h0 : 0 ≤ pageId)
    (hcount : 0 < a.refCount pageId.toNat) : a.validateAllocated pageId = .ok pageId.toNat := by
  have hused := (ha.count _).1 hcount
  have hlt := (ha.cover _).2 (.inr hused)
  unfold validateAllocated
  rw [if_neg (by omega), if_neg]
  simp [hused, hcount.ne']

/-- A list of pages with enough references is given back. -/
theorem Consistent.free_fits (ha : a.Consistent) {pages : List ℤ}
    (hfits : ∀ p ∈ pages, 0 ≤ p ∧ pages.count p ≤ a.refCount p.toNat) :
    ∃ a', free pages a = (.ok (), a') := by
  cases hfree : free pages a with
  | mk r a' =>
    obtain e | ⟨⟩ := r
    · exfalso
      obtain ⟨done, bad, rest, rfl, hdone, hbad⟩ := free_split hfree
      obtain ⟨ha', -, -, hcounts⟩ := free_counts ha hdone
      obtain ⟨h0, hfit⟩ := hfits bad (by simp)
      have hleft := hcounts bad.toNat
      rw [Int.toNat_of_nonneg h0] at hleft
      rw [List.count_append, List.count_cons_self] at hfit
      rw [ha'.validateAllocated_ok h0 (by omega)] at hbad
      cases hbad
    · exact ⟨a', rfl⟩

/-- `free` raises without a trace, or takes off one reference for each occurrence, exactly if all
pages have enough references, or the first one is bad. -/
theorem free_atomic_iff {numPages pageSize : ℤ} {a₀ : PageAllocator}
    (hnew : create numPages pageSize = .ok a₀) (cs : List PageCall) (pages : List ℤ) :
    ((∀ e a', free pages (Transition.run step a₀ cs) = (.error e, a') →
        a'.freePages = (Transition.run step a₀ cs).freePages ∧
          a'.usedPages = (Transition.run step a₀ cs).usedPages ∧
          a'.refCount = (Transition.run step a₀ cs).refCount) ∧
      ∀ a', free pages (Transition.run step a₀ cs) = (.ok (), a') →
        ∀ p : ℕ, a'.refCount p + pages.count (p : ℤ) =
          (Transition.run step a₀ cs).refCount p) ↔
    (∀ p ∈ pages, 0 ≤ p ∧ pages.count p ≤ (Transition.run step a₀ cs).refCount p.toNat) ∨
      ∃ p e, pages.head? = some p ∧
        (Transition.run step a₀ cs).validateAllocated p = .error e := by
  have ha := ((consistent_create hnew).run_spec cs).1
  generalize Transition.run step a₀ cs = a at ha
  constructor
  · rintro ⟨hraise, -⟩
    cases hfree : free pages a with
    | mk r a' =>
      obtain e | ⟨⟩ := r
      · obtain ⟨done, bad, rest, rfl, hdone, hbad⟩ := free_split hfree
        obtain ⟨-, -, hnonneg, hcounts⟩ := free_counts ha hdone
        cases done with
        | nil =>
          cases hdone
          exact .inr ⟨bad, e, rfl, hbad⟩
        | cons p done =>
          -- the first page has lost a reference
          have hlost := hcounts p.toNat
          rw [(hraise e a' hfree).2.2, Int.toNat_of_nonneg (hnonneg p (by simp)),
            List.count_cons_self] at hlost
          omega
      · obtain ⟨-, -, hnonneg, hcounts⟩ := free_counts ha hfree
        refine .inl fun p hp => ⟨hnonneg p hp, ?_⟩
        have hcount := hcounts p.toNat
        rw [Int.toNat_of_nonneg (hnonneg p hp)] at hcount
        omega
  · intro h
    refine ⟨fun e a' hfree => ?_, fun a' hfree => (free_counts ha hfree).2.2.2⟩
    rcases h with hfits | ⟨p, e', hhead, hbad⟩
    · obtain ⟨a'', hok⟩ := ha.free_fits hfits
      rw [hok] at hfree
      cases hfree
    · obtain ⟨rest, rfl⟩ : ∃ rest, pages = p :: rest := by
        cases pages with
        | nil => cases hhead
        | cons q rest =>
          cases hhead
          exact ⟨rest, rfl⟩
      rw [free, PageAllocator.decref, hbad] at hfree
      cases hfree
      exact ⟨rfl, rfl, rfl⟩

/-- The page 0 of a new allocator is in use, the page 2 is not. -/
theorem free_atomic_threePages :
    ((∀ e a', free [2, 0] (Transition.run step threePages [.alloc 1]) = (.error e, a') →
        a'.freePages = (Transition.run step threePages [.alloc 1]).freePages ∧
          a'.usedPages = (Transition.run step threePages [.alloc 1]).usedPages ∧
          a'.refCount = (Transition.run step threePages [.alloc 1]).refCount) ∧
      ∀ a', free [2, 0] (Transition.run step threePages [.alloc 1]) = (.ok (), a') →
        ∀ p : ℕ, a'.refCount p + [(2 : ℤ), 0].count (p : ℤ) =
          (Transition.run step threePages [.alloc 1]).refCount p) := by
  have hnew : create 3 16 = .ok threePages := rfl
  exact (free_atomic_iff hnew [.alloc 1] [2, 0]).2 (.inr ⟨2, _, rfl, rfl⟩)

/-- With the bad page last, the page before it is lost. -/
theorem not_free_atomic : ¬∀ (numPages pageSize : ℤ) (a₀ : PageAllocator) (cs : List PageCall)
    (pages : List ℤ) (e : PyError) (a' : PageAllocator), create numPages pageSize = .ok a₀ →
      free pages (Transition.run step a₀ cs) = (.error e, a') →
      a'.freePages = (Transition.run step a₀ cs).freePages ∧
        a'.usedPages = (Transition.run step a₀ cs).usedPages ∧
        a'.refCount = (Transition.run step a₀ cs).refCount := by
  intro h
  have hfree := (h 3 16 threePages [.alloc 1] [0, 2] _ _ rfl rfl).1
  exact absurd hfree (by decide)

end PageAllocator

/-! ## Transactions among other calls -/

/-- A call on the cache or its allocator, for some page table. -/
inductive KVCall
  | page (call : PageCall)
  | ensureCapacity (blockTable : List PageId) (tokenCount : ℕ)
  | beginAppend (blockTable : List PageId) (currentTokenCount : ℕ) (appendTokenCount : ℤ)
  | commit (transaction : KVCacheTransaction)
  | rollback (blockTable : List PageId) (transaction : KVCacheTransaction)
  deriving DecidableEq, Repr

/-- The pages that a call names. -/
def PageCall.touches : PageCall → List ℤ
  | .alloc _ => []
  | .free pages => pages
  | .incref pageId => [pageId]
  | .decref pageId => [pageId]

def KVCall.touches : KVCall → List ℤ
  | .page call => call.touches
  | .rollback _ transaction => transaction.pages.map Int.ofNat
  | _ => []

/-- The calls name none of the pages. -/
def Elsewhere (pages : List PageId) (calls : List KVCall) : Prop :=
  ∀ call ∈ calls, ∀ p ∈ pages, (p : ℤ) ∉ call.touches

instance (pages : List PageId) (calls : List KVCall) : Decidable (Elsewhere pages calls) :=
  inferInstanceAs (Decidable (∀ call ∈ calls, ∀ p ∈ pages, (p : ℤ) ∉ call.touches))

namespace PageAllocator

variable {a : PageAllocator}

theorem mem_freeReferences : ∀ {pages : List ℤ} {a : PageAllocator} {r : PageReference},
    r ∈ freeReferences pages a → ∃ p : PageId, r = .decref p ∧ (p : ℤ) ∈ pages
  | [], a, r, h => by simp [freeReferences] at h
  | pageId :: pages, a, r, h => by
    unfold freeReferences at h
    cases hd : a.decref pageId with
    | mk result a' =>
      rw [hd] at h
      obtain e | ⟨⟩ := result
      · simp at h
      · rcases List.mem_cons.1 h with rfl | h
        · exact ⟨pageId.toNat, rfl, by simp [Int.toNat_of_nonneg (decref_nonneg hd)]⟩
        · obtain ⟨p, rfl, hp⟩ := mem_freeReferences h
          exact ⟨p, rfl, by simp [hp]⟩

/-- The references of a call are to pages that it names, or that were free. -/
theorem Consistent.mem_references (ha : a.Consistent) {call : PageCall} {r : PageReference}
    (h : r ∈ a.references call) : (∃ p, r = .alloc p ∧ p ∉ a.usedPages) ∨
      ∃ p : PageId, (r = .incref p ∨ r = .decref p) ∧ (p : ℤ) ∈ call.touches := by
  cases call with
  | alloc n =>
    left
    dsimp only [references] at h
    cases halloc : a.alloc n with
    | mk result a' =>
      rw [halloc] at h
      obtain e | pages := result
      · simp [Except.toOption] at h
      · obtain ⟨p, hp, rfl⟩ : ∃ p ∈ pages, PageReference.alloc p = r := by
          simpa [Except.toOption] using h
        exact ⟨p, rfl, (ha.alloc_fresh halloc).2 p hp⟩
  | free pages =>
    obtain ⟨p, rfl, hp⟩ := mem_freeReferences h
    exact .inr ⟨p, .inr rfl, hp⟩
  | incref pageId =>
    right
    dsimp only [references] at h
    unfold PageAllocator.incref at h
    cases hvalid : a.validateAllocated pageId with
    | error e => simp [hvalid] at h
    | ok p =>
      obtain rfl : r = .incref pageId.toNat := by simpa [hvalid] using h
      exact ⟨pageId.toNat, .inl rfl, by
        simp [PageCall.touches, Int.toNat_of_nonneg (validateAllocated_nonneg hvalid)]⟩
  | decref pageId =>
    obtain ⟨p, rfl, hp⟩ := mem_freeReferences h
    exact .inr ⟨p, .inr rfl, hp⟩

/-- A call leaves the references to the pages in use that it does not name. -/
theorem Consistent.refCount_step (ha : a.Consistent) {call : PageCall} {p : PageId}
    (hp : p ∈ a.usedPages) (hout : (p : ℤ) ∉ call.touches) :
    (a.step call).refCount p = a.refCount p := by
  obtain ⟨-, -, haccounts⟩ := ha.step_spec call
  have hkept := haccounts.kept p fun hmem => by
    rcases ha.mem_references hmem with ⟨q, hq, hfree⟩ | ⟨q, hq | hq, -⟩
    · cases hq
      exact hfree hp
    · cases hq
    · cases hq
  have hnone : ∀ r, r = .incref p ∨ r = .decref p → r ∉ a.references call := by
    rintro r hr hmem
    rcases ha.mem_references hmem with ⟨q, rfl, -⟩ | ⟨q, hq, htouch⟩
    · simp at hr
    · rcases hr with rfl | rfl <;> simp at hq <;> exact hout (hq ▸ htouch)
  rw [List.count_eq_zero_of_not_mem (hnone _ (.inl rfl)),
    List.count_eq_zero_of_not_mem (hnone _ (.inr rfl))] at hkept
  exact hkept

/-- Pages with one reference keep it as long as no call names them. -/
theorem Sole.step {pages : List PageId} (h : a.Sole pages) (ha : a.Consistent) {call : PageCall}
    (hout : ∀ p ∈ pages, (p : ℤ) ∉ call.touches) : (a.step call).Sole pages := by
  intro p hp
  obtain ⟨hused, hone⟩ := h p hp
  have hcount := ha.refCount_step hused (hout p hp)
  rw [hone] at hcount
  exact ⟨((ha.step_spec call).1.count p).1 (by omega), hcount⟩

end PageAllocator

namespace PagedKVCache

/-- The cache after a call, whether it raised or not. -/
def step (kv : PagedKVCache) : KVCall → PagedKVCache
  | .page call => { kv with allocator := kv.allocator.step call }
  | .ensureCapacity blockTable tokenCount => (kv.ensureCapacity blockTable tokenCount).2.1
  | .beginAppend blockTable currentTokenCount appendTokenCount =>
    (kv.beginAppendTransaction blockTable currentTokenCount appendTokenCount).2.1
  | .commit transaction => kv.commitTransaction transaction
  | .rollback blockTable transaction => (kv.rollbackTransaction blockTable transaction).2.1

variable {kv : PagedKVCache}

theorem ensureCapacity_allocator (kv : PagedKVCache) (table : List PageId) (n : ℕ) :
    (kv.ensureCapacity table n).2.1 = { kv with
      allocator := kv.allocator.step (.alloc ↑(kv.pagesRequired n - table.length)) } := by
  unfold ensureCapacity
  dsimp only [PageAllocator.step]
  split_ifs with hmissing
  · simp [hmissing, PageAllocator.alloc]
  · cases halloc : kv.allocator.alloc ↑(kv.pagesRequired n - table.length) with
    | mk r a' => cases r <;> rfl

/-- All that a call on the cache does is one call of the allocator, on no other pages. -/
theorem exists_allocator_step (kv : PagedKVCache) (call : KVCall) : ∃ call' : PageCall,
    kv.step call = { kv with allocator := kv.allocator.step call' } ∧
      ∀ p ∈ call'.touches, p ∈ call.touches := by
  have hidle : kv = { kv with allocator := kv.allocator.step (.alloc 0) } := by
    simp [PageAllocator.step, PageAllocator.alloc]
  cases call with
  | page call => exact ⟨call, rfl, fun p hp => hp⟩
  | ensureCapacity table n =>
    exact ⟨_, ensureCapacity_allocator kv table n, fun p hp => by simp [PageCall.touches] at hp⟩
  | beginAppend table current append =>
    dsimp only [step]
    unfold beginAppendTransaction
    split_ifs
    · exact ⟨.alloc 0, hidle, fun p hp => by simp [PageCall.touches] at hp⟩
    · refine ⟨.alloc ↑(kv.pagesRequired (current + append.toNat) - table.length), ?_,
        fun p hp => by simp [PageCall.touches] at hp⟩
      rw [← ensureCapacity_allocator kv table (current + append.toNat)]
      cases kv.ensureCapacity table (current + append.toNat) with
      | mk r p => cases r <;> rfl
  | commit transaction => exact ⟨.alloc 0, hidle, fun p hp => by simp [PageCall.touches] at hp⟩
  | rollback table transaction =>
    refine ⟨.free (transaction.pages.map Int.ofNat), ?_, fun p hp => hp⟩
    dsimp only [step, PageAllocator.step]
    unfold rollbackTransaction
    split_ifs with hnone
    · simp [hnone, PageAllocator.free]
    · rfl

/-- Calls that name none of the pages leave their references alone. -/
theorem run_spec {pages : List PageId} : ∀ {calls : List KVCall} {kv : PagedKVCache},
    kv.allocator.Consistent → kv.allocator.Sole pages → Elsewhere pages calls →
    (Transition.run step kv calls).allocator.Consistent ∧
      (Transition.run step kv calls).config = kv.config ∧
      (Transition.run step kv calls).allocator.Sole pages
  | [], kv, ha, hsole, _ => ⟨ha, rfl, hsole⟩
  | call :: calls, kv, ha, hsole, hout => by
    obtain ⟨call', heq, htouch⟩ := kv.exists_allocator_step call
    have ha' := (ha.step_spec call').1
    have hsole' := hsole.step ha fun p hp hmem => hout call (by simp) p hp (htouch p hmem)
    have hrest : Elsewhere pages calls := fun c hc => hout c (by simp [hc])
    rw [Transition.run_cons, heq]
    exact run_spec ha' hsole' hrest

theorem consistent_fresh (config : KVCacheConfig) : (fresh config).allocator.Consistent :=
  ⟨List.nodup_range, by simp [fresh], by simp [fresh], by simp [fresh]⟩

/-- A transaction on a cache that any calls led to. If it is refused, nothing changes. Otherwise
the table keeps its pages and has room for the tokens. And whatever calls come in between, as long
as none of them names one of the new pages, a rollback restores the table, frees each of the new
pages once, and leaves all other pages as the calls left them. -/
theorem beginAppendTransaction_clean (config : KVCacheConfig) (history : List KVCall)
    (blockTable : List PageId) (current append : ℕ) :
    (∀ e kv' blockTable', (Transition.run step (fresh config) history).beginAppendTransaction
        blockTable current append = (.error e, kv', blockTable') →
      kv' = Transition.run step (fresh config) history ∧ blockTable' = blockTable) ∧
    ∀ transaction kv' blockTable',
      (Transition.run step (fresh config) history).beginAppendTransaction
        blockTable current append = (.ok transaction, kv', blockTable') →
      ∀ between, Elsewhere transaction.pages between →
        ((Transition.run step kv' between).commitTransaction transaction =
            Transition.run step kv' between ∧
          blockTable' = blockTable ++ transaction.pages ∧
          current + append ≤ blockTable'.length * config.pageSize) ∧
        ∃ kv'', (Transition.run step kv' between).rollbackTransaction blockTable' transaction =
            (.ok (), kv'', blockTable) ∧
          (∀ p ∈ transaction.pages, kv''.allocator.refCount p = 0 ∧
            kv''.allocator.freePages.count p = 1 ∧ p ∉ kv''.allocator.usedPages) ∧
          ∀ p, p ∉ transaction.pages →
            kv''.allocator.refCount p =
                (Transition.run step kv' between).allocator.refCount p ∧
              (p ∈ kv''.allocator.freePages ↔
                p ∈ (Transition.run step kv' between).allocator.freePages) ∧
              (p ∈ kv''.allocator.usedPages ↔
                p ∈ (Transition.run step kv' between).allocator.usedPages) := by
  have hsole₀ : (fresh config).allocator.Sole [] := by simp [PageAllocator.Sole]
  have hout₀ : Elsewhere [] history := by simp [Elsewhere]
  obtain ⟨hcons, hconfig, -⟩ := run_spec (consistent_fresh config) hsole₀ hout₀
  generalize Transition.run step (fresh config) history = kv at hcons hconfig
  refine ⟨fun e kv' table' h => beginAppendTransaction_refused h,
    fun transaction kv' table' h between hout => ?_⟩
  obtain ⟨hgrow, hsole, hlen⟩ := beginAppendTransaction_reserves hcons h
  obtain ⟨hcons', -, hsole'⟩ := run_spec hgrow.consistent hsole hout
  refine ⟨⟨rfl, hgrow.table_eq, ?_⟩, ?_⟩
  · have hcovers := beginAppendTransaction_covers h
    have hroom := kv'.le_pagesRequired_mul (current + append)
    rw [hgrow.config, hconfig] at hroom
    exact hroom.trans (Nat.mul_le_mul_right _ hcovers)
  · generalize Transition.run step kv' between = mid at hcons' hsole'
    have hfreed := hsole'.consistent hcons' hgrow.nodup
    rw [hgrow.table_eq, rollbackTransaction_eq hcons' hsole' hgrow.nodup hlen]
    refine ⟨_, rfl, fun p hp => ⟨by simp [hp], ?_, by simp [hp]⟩, fun p hp => by simp [hp]⟩
    exact List.count_eq_one_of_mem hfreed.nodup (by simp [hp])

/-- Three pages of four tokens. -/
def threePageConfig : KVCacheConfig where
  numPages := 3
  pageSize := 4
  pageSize_pos := Nat.succ_pos (nat_lit 3)
  numPages_pos := Nat.succ_pos (nat_lit 2)

/-- The page 1 is reserved and given back, while another table gets the page 2. -/
theorem beginAppendTransaction_clean_threePages : ∃ transaction kv' kv'',
    (Transition.run step (fresh threePageConfig)
        [.ensureCapacity [] 4]).beginAppendTransaction [0] 4 4 = (.ok transaction, kv', [0, 1]) ∧
      (Transition.run step kv' [.page (.incref 0), .ensureCapacity [] 3]).rollbackTransaction
        [0, 1] transaction = (.ok (), kv'', [0]) ∧ kv''.allocator.refCount 1 = 0 := by
  have hclean := (beginAppendTransaction_clean threePageConfig [.ensureCapacity [] 4] [0] 4 4).2
    _ _ _ rfl [.page (.incref 0), .ensureCapacity [] 3] (by decide)
  obtain ⟨-, kv'', hback, hfreed, -⟩ := hclean
  exact ⟨_, _, kv'', rfl, hback, (hfreed 1 (by decide)).1⟩

end PagedKVCache

end SoloRT
