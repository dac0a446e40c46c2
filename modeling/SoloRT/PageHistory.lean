import SoloRT.PageAllocator
import SoloRT.Transition

/-!
# The history of a page allocator

A `PageCall` is one call of the allocator with any arguments, and `PageAllocator.step` goes on
from the state that the call leaves, also when it raises. `references` lists what the call did to
the counts of the pages before it returned or raised : the `decref` of each page that a `free`
reached, and nothing for a call that was refused.

Every call keeps the representation invariant and changes the counts as its references say
(`Consistent.step_spec`). Both compose over runs (`Consistent.run_spec`), so the count of a page is
one plus its increfs minus its decrefs since it was last allocated (`history_run`).
-/

namespace SoloRT

/-- One call of a page allocator. -/
inductive PageCall
  | alloc (n : ℤ)
  | free (pages : List ℤ)
  | incref (pageId : ℤ)
  | decref (pageId : ℤ)
  deriving DecidableEq, Repr

/-- What happened to the count of one page. -/
inductive PageReference
  | alloc (p : PageId)
  | incref (p : PageId)
  | decref (p : PageId)
  deriving DecidableEq, Repr

namespace PageAllocator

/-- The state after a call, whether it raised or not. -/
def step (a : PageAllocator) : PageCall → PageAllocator
  | .alloc n => (a.alloc n).2
  | .free pages => (free pages a).2
  | .incref pageId => (a.incref pageId).2
  | .decref pageId => (a.decref pageId).2

/-- The decrefs of a `free` up to the first one that raises. -/
def freeReferences : List ℤ → PageAllocator → List PageReference
  | [], _ => []
  | pageId :: pages, a =>
    match a.decref pageId with
    | (.error _, _) => []
    | (.ok (), a') => .decref pageId.toNat :: freeReferences pages a'

/-- The references that a call took and gave back. -/
def references (a : PageAllocator) : PageCall → List PageReference
  | .alloc n => ((a.alloc n).1.toOption.getD []).map .alloc
  | .free pages => freeReferences pages a
  | .incref pageId =>
    match a.incref pageId with
    | (.error _, _) => []
    | (.ok (), _) => [.incref pageId.toNat]
  | .decref pageId => freeReferences [pageId] a

/-! ## What a call does to the counts -/

/-- From `a` to `a'` the counts changed as the references say. -/
structure Accounts (a a' : PageAllocator) (rs : List PageReference) : Prop where
  kept : ∀ p, .alloc p ∉ rs →
    a'.refCount p + rs.count (.decref p) = a.refCount p + rs.count (.incref p)
  since : ∀ p earlier later, rs = earlier ++ .alloc p :: later → .alloc p ∉ later →
    a'.refCount p + later.count (.decref p) = 1 + later.count (.incref p)
  unused : ∀ p, a.refCount p = 0 → .alloc p ∉ rs → a'.refCount p = 0

/-- An element of two lists in a row is in the second, or the second comes after it. -/
theorem split_append {α : Type*} {xs ys earlier later : List α} {x : α}
    (h : xs ++ ys = earlier ++ x :: later) : (∃ mid, ys = mid ++ x :: later) ∨
      ∃ later', later = later' ++ ys ∧ xs = earlier ++ x :: later' := by
  rcases List.append_eq_append_iff.1 h with ⟨mid, -, hys⟩ | ⟨mid, hxs, hlater⟩
  · exact .inl ⟨mid, hys⟩
  · rcases mid with - | ⟨y, later'⟩
    · exact .inl ⟨[], by simpa using hlater.symm⟩
    · rw [List.cons_append, List.cons.injEq] at hlater
      obtain ⟨rfl, rfl⟩ := hlater
      exact .inr ⟨later', rfl, hxs⟩

namespace Accounts

variable {a a' a'' : PageAllocator} {rs rs' : List PageReference}

theorem refl (a : PageAllocator) : Accounts a a [] :=
  ⟨fun _ _ => rfl, fun _ _ _ h => by simp at h, fun _ h _ => h⟩

theorem trans (h : Accounts a a' rs) (h' : Accounts a' a'' rs') :
    Accounts a a'' (rs ++ rs') := by
  refine ⟨fun p hp => ?_, fun p earlier later hsplit hp => ?_, fun p h0 hp => ?_⟩
  · rw [List.mem_append, not_or] at hp
    have hkept := h.kept p hp.1
    have hkept' := h'.kept p hp.2
    rw [List.count_append, List.count_append]
    omega
  · rcases split_append hsplit with ⟨mid, hrs'⟩ | ⟨later', rfl, hrs⟩
    · exact h'.since p mid later hrs' hp
    · -- the page was allocated in the first part
      rw [List.mem_append, not_or] at hp
      have hsince := h.since p earlier later' hrs hp.1
      have hkept := h'.kept p hp.2
      rw [List.count_append, List.count_append]
      omega
  · rw [List.mem_append, not_or] at hp
    exact h'.unused p (h.unused p h0 hp.1) hp.2

/-- One more reference to a page in use. -/
theorem incref {p : PageId} (hp : 0 < a.refCount p)
    (h : a'.refCount = Function.update a.refCount p (a.refCount p + 1)) :
    Accounts a a' [.incref p] := by
  refine ⟨fun q _ => ?_, fun q earlier later hsplit => ?_, fun q h0 _ => ?_⟩
  · rw [h]
    by_cases hq : q = p
    · subst hq
      simp
    · simp [hq, Ne.symm hq]
  · have hmem : PageReference.alloc q ∈ [PageReference.incref p] := by simp [hsplit]
    simp at hmem
  · rw [h, Function.update_of_ne (by rintro rfl; omega), h0]

/-- One reference less to a page in use. -/
theorem decref {p : PageId} (hp : 0 < a.refCount p)
    (h : a'.refCount = Function.update a.refCount p (a.refCount p - 1)) :
    Accounts a a' [.decref p] := by
  refine ⟨fun q _ => ?_, fun q earlier later hsplit => ?_, fun q h0 _ => ?_⟩
  · rw [h]
    by_cases hq : q = p
    · subst hq
      simp
      omega
    · simp [hq, Ne.symm hq]
  · have hmem : PageReference.alloc q ∈ [PageReference.decref p] := by simp [hsplit]
    simp at hmem
  · rw [h, Function.update_of_ne (by rintro rfl; omega), h0]

/-- Newly allocated pages have one reference each. -/
theorem alloc {pages : List PageId}
    (h : ∀ p, a'.refCount p = if p ∈ pages then 1 else a.refCount p) :
    Accounts a a' (pages.map .alloc) := by
  have hcount : ∀ (ps : List PageId) (q : PageId),
      (ps.map PageReference.alloc).count (.decref q) = 0 ∧
        (ps.map PageReference.alloc).count (.incref q) = 0 := fun ps q => by
    simp [List.count_eq_zero]
  refine ⟨fun q hq => ?_, fun q earlier later hsplit _ => ?_, fun q h0 hq => ?_⟩
  · have hmem : q ∉ pages := by simpa using hq
    rw [h, (hcount pages q).1, (hcount pages q).2]
    simp [hmem]
  · have hmem : q ∈ pages := by
      have hq : PageReference.alloc q ∈ pages.map .alloc := by simp [hsplit]
      simpa using hq
    have hsub : later.Sublist (pages.map .alloc) := by
      rw [hsplit]
      exact (List.sublist_cons_self _ _).trans (List.sublist_append_right _ _)
    have hdec := hsub.count_le (.decref q)
    have hinc := hsub.count_le (.incref q)
    rw [(hcount pages q).1] at hdec
    rw [(hcount pages q).2] at hinc
    rw [h, if_pos hmem]
    omega
  · have hmem : q ∉ pages := by simpa using hq
    rw [h, if_neg hmem, h0]

end Accounts

/-! ## What a call does to the pages -/

section

variable {a a' : PageAllocator}

/-- A page number that passes the check is that of a page in use. -/
theorem validateAllocated_ok {pageId : ℤ} {p : PageId} (h : a.validateAllocated pageId = .ok p) :
    p = pageId.toNat ∧ 0 < a.refCount p ∧ p ∈ a.usedPages := by
  unfold validateAllocated at h
  split_ifs at h with hrange hused
  cases h
  rw [not_or, not_not] at hused
  exact ⟨rfl, Nat.pos_of_ne_zero hused.1, hused.2⟩

/-- An `incref` is refused, or counts one more reference to a page in use. -/
theorem Consistent.incref_spec (ha : a.Consistent) (pageId : ℤ) :
    (∃ e, a.incref pageId = (.error e, a)) ∨ ∃ a', a.incref pageId = (.ok (), a') ∧
      a'.Consistent ∧ a'.numPages = a.numPages ∧ Accounts a a' [.incref pageId.toNat] := by
  unfold PageAllocator.incref
  cases hvalid : a.validateAllocated pageId with
  | error e => exact .inl ⟨e, rfl⟩
  | ok p =>
    obtain ⟨rfl, hpos, hused⟩ := validateAllocated_ok hvalid
    refine .inr ⟨_, rfl, ⟨ha.nodup, ha.disjoint, ha.cover, fun q => ?_⟩, rfl, .incref hpos rfl⟩
    rw [← ha.count q]
    dsimp only
    by_cases hq : q = pageId.toNat
    · subst hq
      simp [hpos]
    · rw [Function.update_of_ne hq]

/-- A `decref` is refused, or counts one reference less to a page in use, and frees the page
with the last one. -/
theorem Consistent.decref_spec (ha : a.Consistent) (pageId : ℤ) :
    (∃ e, a.decref pageId = (.error e, a)) ∨ ∃ a', a.decref pageId = (.ok (), a') ∧
      a'.Consistent ∧ a'.numPages = a.numPages ∧ Accounts a a' [.decref pageId.toNat] := by
  unfold PageAllocator.decref
  cases hvalid : a.validateAllocated pageId with
  | error e => exact .inl ⟨e, rfl⟩
  | ok p =>
    obtain ⟨rfl, hpos, hused⟩ := validateAllocated_ok hvalid
    dsimp only
    simp only [Function.update_self]
    right
    by_cases hlast : a.refCount pageId.toNat - 1 = 0
    · rw [if_pos hlast]
      have hfreed := ha.decref_consistent hused
      rw [← hlast] at hfreed
      exact ⟨_, rfl, hfreed, rfl, .decref hpos rfl⟩
    · rw [if_neg hlast]
      refine ⟨_, rfl, ⟨ha.nodup, ha.disjoint, ha.cover, fun q => ?_⟩, rfl, .decref hpos rfl⟩
      rw [← ha.count q]
      dsimp only
      by_cases hq : q = pageId.toNat
      · subst hq
        rw [Function.update_self]
        omega
      · rw [Function.update_of_ne hq]

/-- A `free` is the decrefs that it reaches. -/
theorem Consistent.free_spec : ∀ (pages : List ℤ) {a : PageAllocator}, a.Consistent →
    (free pages a).2.Consistent ∧ (free pages a).2.numPages = a.numPages ∧
      Accounts a (free pages a).2 (freeReferences pages a)
  | [], a, ha => ⟨ha, rfl, .refl a⟩
  | pageId :: pages, a, ha => by
    unfold free freeReferences
    rcases ha.decref_spec pageId with ⟨e, h⟩ | ⟨a', h, ha', hnum, haccounts⟩
    · rw [h]
      exact ⟨ha, rfl, .refl a⟩
    · rw [h]
      obtain ⟨hc, hnum', hrest⟩ := free_spec pages ha'
      exact ⟨hc, hnum'.trans hnum, haccounts.trans hrest⟩

theorem Consistent.alloc_spec (ha : a.Consistent) (n : ℤ) :
    (a.step (.alloc n)).Consistent ∧ (a.step (.alloc n)).numPages = a.numPages ∧
      Accounts a (a.step (.alloc n)) (a.references (.alloc n)) := by
  dsimp only [step, references]
  cases h : a.alloc n with
  | mk r a' =>
    cases r with
    | error e =>
      obtain rfl := alloc_error h
      exact ⟨ha, rfl, .refl a'⟩
    | ok pages =>
      obtain ⟨-, -, -, href, hnum, -⟩ := alloc_ok h
      exact ⟨ha.alloc h, hnum, .alloc fun p => congrFun href p⟩

/-- Every call, refused or not, keeps the invariant, and changes the counts as its references
say. -/
theorem Consistent.step_spec (ha : a.Consistent) (c : PageCall) :
    (a.step c).Consistent ∧ (a.step c).numPages = a.numPages ∧
      Accounts a (a.step c) (a.references c) := by
  cases c with
  | alloc n => exact ha.alloc_spec n
  | free pages => exact Consistent.free_spec pages ha
  | incref pageId =>
    dsimp only [step, references]
    rcases ha.incref_spec pageId with ⟨e, h⟩ | ⟨a', h, hspec⟩
    · rw [h]
      exact ⟨ha, rfl, .refl a⟩
    · rw [h]
      exact hspec
  | decref pageId =>
    dsimp only [step, references, freeReferences]
    rcases ha.decref_spec pageId with ⟨e, h⟩ | ⟨a', h, hspec⟩
    · rw [h]
      exact ⟨ha, rfl, .refl a⟩
    · rw [h]
      exact hspec

end

/-! ## Runs -/

/-- The references of all calls of a run, in order. -/
def history (a : PageAllocator) (cs : List PageCall) : List PageReference :=
  Transition.outputs step references a cs

theorem Consistent.run_spec {a : PageAllocator} (ha : a.Consistent) (cs : List PageCall) :
    (Transition.run step a cs).Consistent ∧
      (Transition.run step a cs).numPages = a.numPages ∧
      Accounts a (Transition.run step a cs) (a.history cs) := by
  induction cs generalizing a with
  | nil => exact ⟨ha, rfl, .refl a⟩
  | cons c cs ih =>
    obtain ⟨hc, hnum, haccounts⟩ := ha.step_spec c
    obtain ⟨hc', hnum', hrest⟩ := ih hc
    exact ⟨hc', hnum'.trans hnum, haccounts.trans hrest⟩

/-- An element that occurs in a list has a last occurrence. -/
theorem exists_last_of_mem {α : Type*} [DecidableEq α] {x : α} {xs : List α} (h : x ∈ xs) :
    ∃ earlier later, xs = earlier ++ x :: later ∧ x ∉ later := by
  induction xs with
  | nil => simp at h
  | cons y ys ih =>
    by_cases hys : x ∈ ys
    · obtain ⟨earlier, later, rfl, hlater⟩ := ih hys
      exact ⟨y :: earlier, later, rfl, hlater⟩
    · obtain rfl : x = y := by simpa [hys] using h
      exact ⟨[], ys, rfl, hys⟩

/-- After any calls on a new allocator, whether they raised or not, the free pages and the pages
in use split the page numbers and the pages in use are those with a positive count. An
allocation that succeeds returns as many different pages as were asked for, none of them in use,
and one that fails changes nothing. The count of a page in use is one plus its increfs minus its
decrefs since it was last allocated. -/
theorem history_run {numPages pageSize : ℤ} {a₀ : PageAllocator}
    (hnew : create numPages pageSize = .ok a₀) (cs : List PageCall) :
    (Transition.run step a₀ cs).freePages.Nodup ∧
      (∀ p ∈ (Transition.run step a₀ cs).freePages,
        p ∉ (Transition.run step a₀ cs).usedPages) ∧
      (∀ p : ℕ, (p : ℤ) < numPages ↔ p ∈ (Transition.run step a₀ cs).freePages ∨
        p ∈ (Transition.run step a₀ cs).usedPages) ∧
      (∀ p, 0 < (Transition.run step a₀ cs).refCount p ↔
        p ∈ (Transition.run step a₀ cs).usedPages) ∧
      (∀ n pages a', (Transition.run step a₀ cs).alloc n = (.ok pages, a') →
        (pages.length : ℤ) = n ∧ pages.Nodup ∧
          ∀ p ∈ pages, p ∉ (Transition.run step a₀ cs).usedPages) ∧
      (∀ n e a', (Transition.run step a₀ cs).alloc n = (.error e, a') →
        a' = Transition.run step a₀ cs) ∧
      ∀ p ∈ (Transition.run step a₀ cs).usedPages, ∃ earlier later,
        a₀.history cs = earlier ++ .alloc p :: later ∧ .alloc p ∉ later ∧
          (Transition.run step a₀ cs).refCount p + later.count (.decref p) =
            1 + later.count (.incref p) := by
  have hzero : (∀ p, a₀.refCount p = 0) ∧ (a₀.numPages : ℤ) = numPages := by
    unfold create at hnew
    split_ifs at hnew with hpages hsize
    cases hnew
    exact ⟨fun _ => rfl, Int.toNat_of_nonneg (by omega)⟩
  obtain ⟨hc, hnum, haccounts⟩ := (consistent_create hnew).run_spec cs
  refine ⟨hc.nodup, hc.disjoint, fun p => ?_, hc.count, fun n pages a' h => ?_,
    fun n e a' h => alloc_error h, fun p hp => ?_⟩
  · rw [← hc.cover, hnum, ← hzero.2]
    omega
  · exact ⟨(alloc_ok h).1, hc.alloc_fresh h⟩
  · have hmem : .alloc p ∈ a₀.history cs := by
      by_contra hnot
      have hpos := (hc.count p).2 hp
      rw [haccounts.unused p (hzero.1 p) hnot] at hpos
      exact absurd hpos (lt_irrefl 0)
    obtain ⟨earlier, later, hsplit, hlater⟩ := exists_last_of_mem hmem
    exact ⟨earlier, later, hsplit, hlater, haccounts.since p earlier later hsplit hlater⟩

/-- A new allocator of three pages. -/
def threePages : PageAllocator where
  numPages := 3
  pageSize := 16
  freePages := [0, 1, 2]
  refCount := fun _ => 0

/-- The page 1 is given back once too often, and there is no page -1. -/
theorem history_threePages : ∃ earlier later,
    threePages.history [.alloc 2, .incref 0, .free [1, 1], .decref (-1)] =
        earlier ++ .alloc 0 :: later ∧ .alloc 0 ∉ later ∧
      (Transition.run step threePages
        [.alloc 2, .incref 0, .free [1, 1], .decref (-1)]).refCount 0 + later.count (.decref 0) =
          1 + later.count (.incref 0) := by
  have hnew : create 3 16 = .ok threePages := rfl
  obtain ⟨-, -, -, -, -, -, hcounts⟩ :=
    history_run hnew [.alloc 2, .incref 0, .free [1, 1], .decref (-1)]
  exact hcounts 0 (by decide)

end PageAllocator

end SoloRT
