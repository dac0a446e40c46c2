import SoloRT.Sequence
import Mathlib.Data.Finset.Lattice.Lemmas
import Mathlib.Data.Finset.SDiff
import Mathlib.Data.Finset.Dedup
import Mathlib.Data.Finset.Card

/-!
# The page allocator

`PageAllocator` hands out fixed-size KV pages from a queue of free ones and counts the
references to the pages in use (`cache/page_allocator.py`). A call that raises leaves the
state it had reached, so an operation returns its result together with the allocator.

`Consistent` is the representation invariant : the free queue has no duplicates and, with
the set of pages in use, splits the page numbers, and exactly the pages in use have a
positive count. `alloc_ok` says what a successful allocation does, and `Sole.free` what giving
back unshared pages does. So `alloc` followed by `free` of the same pages leaves the pages in
use as they were.
-/

namespace SoloRT

structure PageAllocator where
  numPages : ℕ
  pageSize : ℕ
  freePages : List PageId
  usedPages : Finset PageId := ∅
  refCount : PageId → ℕ

namespace PageAllocator

/-- The constructor, with the checks of `__post_init__`. -/
def create (numPages pageSize : ℤ) : Except PyError PageAllocator :=
  if numPages ≤ 0 then .error ⟨.valueError, "num_pages must be positive"⟩
  else if pageSize ≤ 0 then .error ⟨.valueError, "page_size must be positive"⟩
  else .ok
    { numPages := numPages.toNat
      pageSize := pageSize.toNat
      freePages := List.range numPages.toNat
      refCount := fun _ => 0 }

variable (a : PageAllocator)

/-- The loop of `alloc` : `n` times `popleft`. -/
def popPages : ℕ → PageAllocator → List PageId × PageAllocator
  | 0, a => ([], a)
  | n + 1, a =>
    match a.freePages with
    | [] => ([], a)
    | pageId :: rest =>
      let (pages, a') := popPages n
        { a with
          freePages := rest
          usedPages := insert pageId a.usedPages
          refCount := Function.update a.refCount pageId 1 }
      (pageId :: pages, a')

def alloc (n : ℤ) : Except PyError (List PageId) × PageAllocator :=
  if n < 0 then (.error ⟨.valueError, "cannot allocate a negative number of pages"⟩, a)
  else if n = 0 then (.ok [], a)
  else if n > a.freePages.length then
    (.error ⟨.pageAllocationError,
      "requested " ++ toString n ++ " pages but only " ++ toString a.freePages.length ++
        " are free"⟩, a)
  else
    let (pages, a') := popPages n.toNat a
    (.ok pages, a')

/-- `_validate_allocated` : the page number, or the error raised for it. -/
def validateAllocated (pageId : ℤ) : Except PyError PageId :=
  if pageId < 0 ∨ pageId ≥ a.numPages then
    .error ⟨.valueError, "page id " ++ toString pageId ++ " is out of range"⟩
  else if a.refCount pageId.toNat = 0 ∨ pageId.toNat ∉ a.usedPages then
    .error ⟨.valueError, "page id " ++ toString pageId ++ " is not allocated"⟩
  else .ok pageId.toNat

def incref (pageId : ℤ) : Except PyError Unit × PageAllocator :=
  match a.validateAllocated pageId with
  | .error e => (.error e, a)
  | .ok p => (.ok (), { a with refCount := Function.update a.refCount p (a.refCount p + 1) })

def decref (pageId : ℤ) : Except PyError Unit × PageAllocator :=
  match a.validateAllocated pageId with
  | .error e => (.error e, a)
  | .ok p =>
    let a' := { a with refCount := Function.update a.refCount p (a.refCount p - 1) }
    if a'.refCount p = 0 then
      (.ok (), { a' with usedPages := a.usedPages.erase p, freePages := a.freePages ++ [p] })
    else (.ok (), a')

/-- `decref` of each page in turn, stopping at the first error. -/
def free : List ℤ → PageAllocator → Except PyError Unit × PageAllocator
  | [], a => (.ok (), a)
  | pageId :: pages, a =>
    match a.decref pageId with
    | (.error e, a') => (.error e, a')
    | (.ok (), a') => free pages a'

/-! ## The representation invariant -/

structure Consistent (a : PageAllocator) : Prop where
  nodup : a.freePages.Nodup
  disjoint : ∀ p ∈ a.freePages, p ∉ a.usedPages
  cover : ∀ p, p < a.numPages ↔ p ∈ a.freePages ∨ p ∈ a.usedPages
  count : ∀ p, 0 < a.refCount p ↔ p ∈ a.usedPages

theorem consistent_create {n k : ℤ} {a : PageAllocator} (h : create n k = .ok a) :
    a.Consistent := by
  unfold create at h
  split_ifs at h
  cases h
  exact ⟨List.nodup_range, by simp, by simp, by simp⟩

variable {a}

/-- Free and used pages add up. -/
theorem Consistent.card (ha : a.Consistent) :
    a.freePages.length + a.usedPages.card = a.numPages := by
  have hdisj : Disjoint a.freePages.toFinset a.usedPages :=
    Finset.disjoint_left.2 fun p hp => ha.disjoint p (List.mem_toFinset.1 hp)
  have hunion : a.freePages.toFinset ∪ a.usedPages = Finset.range a.numPages := by
    ext p
    simp [ha.cover]
  rw [← List.toFinset_card_of_nodup ha.nodup, ← Finset.card_union_of_disjoint hdisj, hunion,
    Finset.card_range]

/-- An allocation that fits succeeds. -/
theorem exists_alloc_ok {n : ℕ} (h : n ≤ a.freePages.length) :
    ∃ pages a', a.alloc n = (.ok pages, a') := by
  unfold alloc
  rw [if_neg (by omega)]
  split_ifs with h0 hgt
  · exact ⟨_, _, rfl⟩
  · exact absurd hgt (by omega)
  · exact ⟨_, _, rfl⟩

/-- What taking `n` pages off the free queue does. -/
theorem popPages_spec : ∀ (n : ℕ) (a : PageAllocator), n ≤ a.freePages.length →
    popPages n a = (a.freePages.take n,
      { a with
        freePages := a.freePages.drop n
        usedPages := a.usedPages ∪ (a.freePages.take n).toFinset
        refCount := fun p => if p ∈ a.freePages.take n then 1 else a.refCount p })
  | 0, a, _ => by cases a; simp [popPages]
  | n + 1, a, hn => by
    obtain ⟨numPages, pageSize, freePages, usedPages, refCount⟩ := a
    cases freePages with
    | nil => simp at hn
    | cons p rest =>
      simp only [popPages]
      rw [popPages_spec n _ (by simpa using hn)]
      simp only [List.take_succ_cons, List.drop_succ_cons, List.toFinset_cons, Prod.mk.injEq,
        true_and, PageAllocator.mk.injEq]
      refine ⟨?_, ?_⟩
      · rw [Finset.insert_union, Finset.union_insert]
      · funext q
        by_cases hq : q = p <;> simp [hq]

/-- A successful allocation takes the first pages of the free queue. -/
theorem alloc_ok {n : ℤ} {pages : List PageId} {a' : PageAllocator}
    (h : a.alloc n = (.ok pages, a')) :
    (pages.length : ℤ) = n ∧ a.freePages = pages ++ a'.freePages ∧
      a'.usedPages = a.usedPages ∪ pages.toFinset ∧
      a'.refCount = (fun p => if p ∈ pages then 1 else a.refCount p) ∧
      a'.numPages = a.numPages ∧ a'.pageSize = a.pageSize := by
  unfold alloc at h
  split_ifs at h with hneg hzero hlen
  · simp at h
  · cases h
    simp [hzero]
  · simp at h
  · have hle : n.toNat ≤ a.freePages.length := by omega
    rw [popPages_spec n.toNat a hle] at h
    cases h
    refine ⟨?_, (List.take_append_drop _ _).symm, rfl, rfl, rfl, rfl⟩
    rw [List.length_take, Nat.min_eq_left hle]
    omega

/-- A failing allocation changes nothing. -/
theorem alloc_error {n : ℤ} {e : PyError} {a' : PageAllocator}
    (h : a.alloc n = (.error e, a')) : a' = a := by
  unfold alloc at h
  split_ifs at h <;> cases h <;> rfl

theorem alloc_error_kind {n : ℕ} {e : PyError} {a' : PageAllocator}
    (h : a.alloc n = (.error e, a')) : e.kind = .pageAllocationError := by
  unfold alloc at h
  rw [if_neg (by omega)] at h
  split_ifs at h <;> cases h
  rfl

theorem Consistent.alloc {n : ℤ} {pages : List PageId} {a' : PageAllocator}
    (ha : a.Consistent) (h : a.alloc n = (.ok pages, a')) : a'.Consistent := by
  obtain ⟨-, hfree, hused, href, hnum, -⟩ := alloc_ok h
  have hnd := ha.nodup
  rw [hfree, List.nodup_append] at hnd
  refine ⟨hnd.2.1, fun p hp => ?_, fun p => ?_, fun p => ?_⟩
  · rw [hused, Finset.mem_union, List.mem_toFinset, not_or]
    exact ⟨ha.disjoint p (by simp [hfree, hp]), fun hp' => hnd.2.2 p hp' p hp rfl⟩
  · rw [hnum, ha.cover, hfree, hused]
    simp only [List.mem_append, Finset.mem_union, List.mem_toFinset]
    tauto
  · rw [href, hused, Finset.mem_union, List.mem_toFinset, ← ha.count]
    by_cases hp : p ∈ pages <;> simp [hp]

/-- The pages a successful allocation returns were free, and differ from each other. -/
theorem Consistent.alloc_fresh {n : ℤ} {pages : List PageId} {a' : PageAllocator}
    (ha : a.Consistent) (h : a.alloc n = (.ok pages, a')) :
    pages.Nodup ∧ ∀ p ∈ pages, p ∉ a.usedPages := by
  obtain ⟨-, hfree, -⟩ := alloc_ok h
  have hnd := ha.nodup
  rw [hfree, List.nodup_append] at hnd
  exact ⟨hnd.1, fun p hp => ha.disjoint p (by simp [hfree, hp])⟩

/-- Giving back the only reference to a page in use frees it. -/
theorem Consistent.decref {p : PageId} (ha : a.Consistent) (hp : p ∈ a.usedPages)
    (h1 : a.refCount p = 1) :
    a.decref p = (.ok (), { a with
      refCount := Function.update a.refCount p 0
      usedPages := a.usedPages.erase p
      freePages := a.freePages ++ [p] }) := by
  have hlt : p < a.numPages := (ha.cover p).2 (.inr hp)
  have hval : a.validateAllocated p = .ok p := by
    unfold validateAllocated
    rw [if_neg (by simp [hlt]), if_neg (by simp [h1, hp])]
    simp
  simp [PageAllocator.decref, hval, h1]

theorem Consistent.decref_consistent {p : PageId} (ha : a.Consistent) (hp : p ∈ a.usedPages) :
    ({ a with
      refCount := Function.update a.refCount p 0
      usedPages := a.usedPages.erase p
      freePages := a.freePages ++ [p] } : PageAllocator).Consistent := by
  have hpf : p ∉ a.freePages := fun h => ha.disjoint p h hp
  refine ⟨?_, fun q hq => ?_, fun q => ?_, fun q => ?_⟩
  · exact List.nodup_append.2 ⟨ha.nodup, by simp, by
      rintro q hq r hr rfl
      exact hpf (List.mem_singleton.1 hr ▸ hq)⟩
  · rcases List.mem_append.1 hq with hq | hq
    · exact fun h => ha.disjoint q hq (Finset.mem_of_mem_erase h)
    · simp [List.mem_singleton.1 hq]
  · show q < a.numPages ↔ q ∈ a.freePages ++ [p] ∨ q ∈ a.usedPages.erase p
    rw [ha.cover]
    by_cases hq : q = p <;> simp [hq, hp]
  · show 0 < Function.update a.refCount p 0 q ↔ q ∈ a.usedPages.erase p
    by_cases hq : q = p <;> simp [hq, ha.count]

/-- The pages are in use, with one reference each. -/
def Sole (a : PageAllocator) (pages : List PageId) : Prop :=
  ∀ p ∈ pages, p ∈ a.usedPages ∧ a.refCount p = 1

/-- What giving back pages with one reference does. -/
theorem Sole.free : ∀ {pages : List PageId} {a : PageAllocator}, a.Sole pages → a.Consistent →
    pages.Nodup → free (pages.map Int.ofNat) a = (.ok (), { a with
      freePages := a.freePages ++ pages
      usedPages := a.usedPages \ pages.toFinset
      refCount := fun p => if p ∈ pages then 0 else a.refCount p })
  | [], a, _, _, _ => by simp [PageAllocator.free]
  | p :: pages, a, h, ha, hnd => by
    obtain ⟨hp, hnd⟩ := List.nodup_cons.1 hnd
    obtain ⟨hused, hone⟩ := h p (by simp)
    have hdec := ha.decref hused hone
    have hrest : ({ a with
        refCount := Function.update a.refCount p 0
        usedPages := a.usedPages.erase p
        freePages := a.freePages ++ [p] } : PageAllocator).Sole pages := fun q hq => by
      have hne : q ≠ p := fun h => hp (h ▸ hq)
      obtain ⟨hqu, hq1⟩ := h q (by simp [hq])
      exact ⟨Finset.mem_erase.2 ⟨hne, hqu⟩, by simp [hne, hq1]⟩
    have hfree := hrest.free (ha.decref_consistent hused) hnd
    simp only [List.map_cons, PageAllocator.free, Int.ofNat_eq_natCast] at hfree ⊢
    rw [hdec]
    dsimp only
    rw [hfree]
    congr 2
    · simp
    · ext q
      simp only [List.toFinset_cons, Finset.mem_sdiff, Finset.mem_erase, Finset.mem_insert]
      tauto
    · funext q
      by_cases hq : q = p
      · simp [hq]
      · simp [hq]

/-- The invariant holds once the pages are given back. -/
theorem Sole.consistent {pages : List PageId} (h : a.Sole pages) (ha : a.Consistent)
    (hnd : pages.Nodup) : ({ a with
      freePages := a.freePages ++ pages
      usedPages := a.usedPages \ pages.toFinset
      refCount := fun p => if p ∈ pages then 0 else a.refCount p } : PageAllocator).Consistent := by
  refine ⟨List.nodup_append.2 ⟨ha.nodup, hnd, ?_⟩, fun p hp => ?_, fun p => ?_, fun p => ?_⟩
  · rintro p hp q hq rfl
    exact ha.disjoint p hp (h p hq).1
  · rcases List.mem_append.1 hp with hp | hp
    · exact fun hmem => ha.disjoint p hp (Finset.mem_sdiff.1 hmem).1
    · simp [hp]
  · dsimp only
    rw [ha.cover, List.mem_append, Finset.mem_sdiff, List.mem_toFinset]
    by_cases hp : p ∈ pages
    · simp [hp, (h p hp).1]
    · simp [hp]
  · dsimp only
    rw [Finset.mem_sdiff, List.mem_toFinset, ← ha.count]
    by_cases hp : p ∈ pages <;> simp [hp]

end PageAllocator

end SoloRT
