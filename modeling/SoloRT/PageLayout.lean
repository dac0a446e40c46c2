import SoloRT.KVCache

/-!
# The layout of a page table

The four fields that `metadata_for` hands to an attention backend describe the tokens of a
sequence twice. A backend walks the pages of `page_indices`, all of them full but the last, which
has `last_page_len` tokens (`walkPages`). The `slot_mapping` has the slot of each position, from
its logical page and its offset there.

Both give the same slots in the same order, for every number of tokens (`metadataFor_layout`), and
the slots of tables without a common page are different.
-/

namespace SoloRT

namespace PagedKVCache

/-! ## Slots -/

/-- Two slots are in the same place only if they are equal. -/
theorem slot_eq_of_place {pageSize slot slot' : ℕ} (hpage : slot / pageSize = slot' / pageSize)
    (hoffset : slot % pageSize = slot' % pageSize) : slot = slot' := by
  rw [← Nat.div_add_mod slot pageSize, hpage, hoffset, Nat.div_add_mod]

variable {kv kv' : PagedKVCache} {table table' : List PageId} {position position' slot : ℕ}

/-- A page table that grew has the same slots. -/
theorem slotOf_append (h : kv.slotOf table position = .ok slot) (hconfig : kv'.config = kv.config)
    (pages : List PageId) : kv'.slotOf (table ++ pages) position = .ok slot := by
  obtain ⟨page, hpage, rfl⟩ := slotOf_ok h
  have hlt := (List.getElem?_eq_some_iff.1 hpage).1
  rw [slotOf, hconfig, List.getElem?_append_left hlt, hpage]

/-- The page of a slot. -/
theorem slotOf_page (h : kv.slotOf table position = .ok slot) :
    table[position / kv.config.pageSize]? = some (slot / kv.config.pageSize) ∧
      slot % kv.config.pageSize = position % kv.config.pageSize := by
  obtain ⟨page, hpage, rfl⟩ := slotOf_ok h
  have hpos := kv.config.pageSize_pos
  have hlt : position % kv.config.pageSize < kv.config.pageSize := Nat.mod_lt _ hpos
  constructor
  · rw [hpage, Nat.mul_comm, Nat.mul_add_div hpos, Nat.div_eq_of_lt hlt, Nat.add_zero]
  · rw [Nat.mul_comm, Nat.mul_add_mod, Nat.mod_mod]

/-- Two positions of a table without duplicate pages have different slots. -/
theorem slotOf_inj (hnd : table.Nodup) (h : kv.slotOf table position = .ok slot)
    (h' : kv.slotOf table position' = .ok slot) : position = position' := by
  obtain ⟨hpage, hoffset⟩ := slotOf_page h
  obtain ⟨hpage', hoffset'⟩ := slotOf_page h'
  have hlt := (List.getElem?_eq_some_iff.1 hpage).1
  have hindex := (List.getElem?_inj hlt hnd).1 (hpage.trans hpage'.symm)
  exact slot_eq_of_place hindex (hoffset.symm.trans hoffset')

/-- Tables without a common page have no slot in common. -/
theorem slotOf_disjoint (hconfig : kv'.config = kv.config) (hdisj : List.Disjoint table table')
    (h : kv.slotOf table position = .ok slot) (h' : kv'.slotOf table' position' = .ok slot) :
    False := by
  have hpage := List.mem_of_getElem? (slotOf_page h).1
  have hpage' := List.mem_of_getElem? (slotOf_page h').1
  rw [hconfig] at hpage'
  exact hdisj hpage hpage'

theorem slotMapping_length {positions slots : List ℕ}
    (h : kv.slotMapping table positions = .ok slots) : slots.length = positions.length :=
  (slotMapping_ok h).length_eq.symm

/-- The slots of a mapping are those of its positions, in order. -/
theorem slotMapping_getElem? : ∀ {positions slots : List ℕ},
    List.Forall₂ (fun p s => kv.slotOf table p = .ok s) positions slots →
    ∀ {i : ℕ}, positions[i]? = some position → ∃ slot, slots[i]? = some slot ∧
      kv.slotOf table position = .ok slot
  | _, _, .nil, i, hi => by simp at hi
  | _, _, .cons (b := s) hp hps, 0, hi => by
    obtain rfl := Option.some.inj hi
    exact ⟨s, rfl, hp⟩
  | _, _, .cons hp hps, i + 1, hi => slotMapping_getElem? hps hi

/-- A range of positions has different slots. -/
theorem slotMapping_nodup (hnd : table.Nodup) {start n : ℕ} {slots : List ℕ}
    (h : kv.slotMapping table (List.range' start n) = .ok slots) : slots.Nodup := by
  have hall := slotMapping_ok h
  have hlen := slotMapping_length h
  rw [List.length_range'] at hlen
  refine List.nodup_iff_injective_getElem.2 fun i j hij => ?_
  have hslot : ∀ i (hi : i < slots.length), kv.slotOf table (start + i) = .ok slots[i] := by
    intro i hi
    have hget : (List.range' start n)[i]? = some (start + i) := by
      rw [List.getElem?_range' (hlen ▸ hi), Nat.one_mul]
    obtain ⟨slot, hs, hp⟩ := slotMapping_getElem? hall hget
    rw [List.getElem?_eq_getElem hi] at hs
    exact Option.some.inj hs ▸ hp
  have heq : slots[i.1] = slots[j.1] := hij
  have hi := hslot i i.2
  rw [heq] at hi
  have hindex := slotOf_inj hnd hi (hslot j j.2)
  exact Fin.ext (by omega)

/-- A lookup fails only on a page that the table does not have. -/
theorem slotMapping_error {positions : List ℕ} {e : PyError}
    (h : kv.slotMapping table positions = .error e) : e.kind = .indexError := by
  obtain ⟨p, -, hp⟩ := exists_error_of_mapM h
  unfold slotOf at hp
  dsimp only at hp
  split at hp
  · cases hp
    rfl
  · cases hp

/-- A position past the pages of the table is refused, whatever comes with it. -/
theorem slotMapping_outside {positions : List ℕ} (hmem : position ∈ positions)
    (hout : table.length * kv.config.pageSize ≤ position) :
    ∃ e, kv.slotMapping table positions = .error e ∧ e.kind = .indexError := by
  cases h : kv.slotMapping table positions with
  | error e => exact ⟨e, rfl, slotMapping_error h⟩
  | ok slots =>
    obtain ⟨i, hi⟩ := List.getElem?_of_mem hmem
    obtain ⟨slot, -, hslot⟩ := slotMapping_getElem? (slotMapping_ok h) hi
    obtain ⟨page, hpage, -⟩ := slotOf_ok hslot
    have hlt := (List.getElem?_eq_some_iff.1 hpage).1
    rw [Nat.div_lt_iff_lt_mul kv.config.pageSize_pos] at hlt
    omega

/-! ## The walk over the pages -/

/-- The slots of a backend that walks the pages, and reads `last_page_len` of the last one. -/
def walkPages (pageSize lastPageLen : ℕ) : List PageId → List ℕ
  | [] => []
  | [page] => (List.range lastPageLen).map (page * pageSize + ·)
  | page :: pages =>
    (List.range pageSize).map (page * pageSize + ·) ++ walkPages pageSize lastPageLen pages

/-- The first positions have the slots of the walk, if the last page is not empty. -/
theorem map_slotAt_eq_walk {pageSize : ℕ} (hpos : 0 < pageSize) : ∀ {pages : List PageId}
    {last : ℕ}, pages ≠ [] → last ≤ pageSize →
    (List.range ((pages.length - 1) * pageSize + last)).map (slotAt pageSize pages) =
      walkPages pageSize last pages
  | [page], last, _, hlast => by
    simp only [List.length_singleton, Nat.sub_self, Nat.zero_mul, Nat.zero_add, walkPages]
    refine List.map_congr_left fun i hi => ?_
    rw [List.mem_range] at hi
    have hlt := lt_of_lt_of_le hi hlast
    simp [slotAt, Nat.div_eq_of_lt hlt, Nat.mod_eq_of_lt hlt]
  | page :: page' :: pages, last, _, hlast => by
    have hrest := map_slotAt_eq_walk hpos (List.cons_ne_nil page' pages) hlast
    have hcount : ((page :: page' :: pages).length - 1) * pageSize + last =
        pageSize + (((page' :: pages).length - 1) * pageSize + last) := by
      simp only [List.length_cons, Nat.add_sub_cancel, Nat.succ_mul]
      omega
    have hwalk : walkPages pageSize last (page :: page' :: pages) =
        (List.range pageSize).map (page * pageSize + ·) ++
          walkPages pageSize last (page' :: pages) := rfl
    rw [hcount, List.range_add, List.map_append, List.map_map, hwalk, ← hrest]
    congr 1
    · refine List.map_congr_left fun i hi => ?_
      rw [List.mem_range] at hi
      simp [slotAt, Nat.div_eq_of_lt hi, Nat.mod_eq_of_lt hi]
    · -- the positions after the first page
      refine List.map_congr_left fun i _ => ?_
      simp [slotAt, Nat.add_div_left i hpos]

/-- The pages of some tokens are full but the last. -/
theorem pagesRequired_layout (kv : PagedKVCache) {n : ℕ} (hn : 0 < n) :
    0 < kv.pagesRequired n ∧ 1 ≤ kv.lastPageLen n ∧ kv.lastPageLen n ≤ kv.config.pageSize ∧
      (kv.pagesRequired n - 1) * kv.config.pageSize + kv.lastPageLen n = n := by
  have hpos := kv.config.pageSize_pos
  have hdiv := Nat.div_add_mod' n kv.config.pageSize
  have hmod := Nat.mod_lt n hpos
  unfold pagesRequired lastPageLen
  rw [if_neg hn.ne', if_neg hn.ne']
  dsimp only
  by_cases hr : n % kv.config.pageSize = 0
  · -- the last page is full
    have hq : 0 < n / kv.config.pageSize := by
      by_contra hzero
      rw [Nat.eq_zero_of_not_pos hzero] at hdiv
      omega
    have hceil : (n + kv.config.pageSize - 1) / kv.config.pageSize = n / kv.config.pageSize := by
      conv_lhs => rw [← hdiv, hr]
      rw [Nat.add_zero, Nat.add_sub_assoc hpos, Nat.mul_comm, Nat.mul_add_div hpos,
        Nat.div_eq_of_lt (Nat.sub_lt hpos Nat.one_pos), Nat.add_zero]
    rw [if_pos hr, hceil]
    refine ⟨hq, hpos, le_rfl, ?_⟩
    rw [Nat.sub_mul, Nat.one_mul]
    have hle := Nat.le_mul_of_pos_left kv.config.pageSize hq
    omega
  · have hceil : (n + kv.config.pageSize - 1) / kv.config.pageSize =
        n / kv.config.pageSize + 1 := by
      have hsum : n + kv.config.pageSize - 1 = kv.config.pageSize * (n / kv.config.pageSize) +
          (n % kv.config.pageSize - 1 + kv.config.pageSize) := by
        rw [Nat.mul_comm]
        omega
      rw [hsum, Nat.mul_add_div hpos, Nat.add_div_right _ hpos,
        Nat.div_eq_of_lt (lt_of_le_of_lt (Nat.sub_le _ _) hmod)]
    rw [if_neg hr, hceil]
    refine ⟨Nat.succ_pos _, Nat.pos_of_ne_zero hr, hmod.le, ?_⟩
    rw [Nat.add_sub_cancel]
    exact hdiv

/-- The positions of the tokens have the slots of the walk over the pages that they need. -/
theorem slotMapping_range (kv : PagedKVCache) {table : List PageId} {n : ℕ} (hn : 0 < n)
    (hroom : kv.pagesRequired n ≤ table.length) :
    kv.slotMapping table (List.range n) = .ok (walkPages kv.config.pageSize (kv.lastPageLen n)
      (table.take (kv.pagesRequired n))) := by
  obtain ⟨hpages, hone, hlast, htokens⟩ := kv.pagesRequired_layout hn
  have hlen : (table.take (kv.pagesRequired n)).length = kv.pagesRequired n := by
    rw [List.length_take, Nat.min_eq_left hroom]
  have hne : table.take (kv.pagesRequired n) ≠ [] :=
    List.ne_nil_of_length_pos (by rw [hlen]; exact hpages)
  rw [← map_slotAt_eq_walk kv.config.pageSize_pos hne hlast, hlen, htokens,
    slotMapping_eq kv fun p hp => kv.div_pageSize_lt hroom (List.mem_range.1 hp)]
  congr 1
  refine List.map_congr_left fun p hp => ?_
  have hin := kv.div_pageSize_lt le_rfl (List.mem_range.1 hp)
  simp only [slotAt, List.getD_eq_getElem?_getD, List.getElem?_take_of_lt hin]

/-- After pages were reserved for some tokens, the fields of the metadata say the same about them :
the pages have as many slots as there are tokens, and these are the slots of the mapping, in
order. They are different from each other if the pages are, and from those of any table with other
pages. A position past the pages is refused. -/
theorem metadataFor_layout {kv kv' : PagedKVCache} {blockTable blockTable' pages : List PageId}
    {n : ℕ} (hn : 0 < n)
    (h : kv.ensureCapacity blockTable n = (.ok pages, kv', blockTable')) :
    (∀ positions metadata, kv'.metadataFor blockTable' n positions = .ok metadata →
      ∃ lastPageLen, metadata.lastPageLen = [lastPageLen] ∧ 1 ≤ lastPageLen ∧
        lastPageLen ≤ kv'.config.pageSize ∧
        ((metadata.pageIndices.length : ℤ) - 1) * kv'.config.pageSize + lastPageLen = n ∧
        metadata.pageIndptr = [0, metadata.pageIndices.length] ∧
        kv'.slotMapping blockTable' positions = .ok metadata.slotMapping ∧
        kv'.slotMapping blockTable' (List.range n) =
          .ok (walkPages kv'.config.pageSize lastPageLen metadata.pageIndices)) ∧
    (∃ metadata, kv'.metadataFor blockTable' n (List.range n) = .ok metadata ∧
      (blockTable'.Nodup → metadata.slotMapping.Nodup) ∧
      ∀ other positions slots, List.Disjoint blockTable' other →
        kv'.slotMapping other positions = .ok slots →
        List.Disjoint metadata.slotMapping slots) ∧
    ∀ positions, (∃ p ∈ positions, blockTable'.length * kv'.config.pageSize ≤ p) →
      ∃ e, kv'.slotMapping blockTable' positions = .error e ∧
        kv'.metadataFor blockTable' n positions = .error e ∧ e.kind = .indexError := by
  have hroom := ensureCapacity_covers h
  obtain ⟨hpages, hone, hlast, htokens⟩ := kv'.pagesRequired_layout hn
  have hrange := kv'.slotMapping_range hn hroom
  refine ⟨fun positions metadata hmeta => ?_, ?_, fun positions ⟨p, hp, hout⟩ => ?_⟩
  · unfold metadataFor at hmeta
    dsimp only at hmeta
    split at hmeta
    · cases hmeta
    rename_i slots hslots
    cases hmeta
    refine ⟨_, rfl, hone, hlast, ?_, rfl, hslots, hrange⟩
    rw [List.length_take, Nat.min_eq_left hroom]
    have hpred : ((kv'.pagesRequired n : ℕ) : ℤ) - 1 = ((kv'.pagesRequired n - 1 : ℕ) : ℤ) := by
      omega
    rw [hpred]
    exact_mod_cast htokens
  · refine ⟨_, by rw [metadataFor, hrange], fun hnd => ?_,
      fun other positions slots hdisj hother => ?_⟩
    · rw [List.range_eq_range'] at hrange
      exact slotMapping_nodup hnd hrange
    · intro slot hslot hslot'
      obtain ⟨p, -, hp⟩ := mem_slotMapping hrange hslot
      obtain ⟨p', -, hp'⟩ := mem_slotMapping hother hslot'
      exact slotOf_disjoint rfl hdisj hp hp'
  · obtain ⟨e, he, hkind⟩ := slotMapping_outside hp hout
    exact ⟨e, he, by rw [metadataFor, he], hkind⟩

/-- Eight pages of four tokens. -/
def eightPages : PagedKVCache :=
  fresh ⟨8, 4, Nat.succ_pos (nat_lit 3), Nat.succ_pos (nat_lit 7)⟩

/-- Six tokens on two pages. -/
theorem metadataFor_layout_sixTokens : ∃ pages kv' blockTable' metadata,
    eightPages.ensureCapacity [] 6 = (.ok pages, kv', blockTable') ∧
      kv'.metadataFor blockTable' 6 [0, 3, 4, 5] = .ok metadata ∧
      metadata.lastPageLen = [2] ∧ metadata.pageIndptr = [0, 2] ∧
      kv'.slotMapping blockTable' (List.range 6) = .ok (walkPages 4 2 [0, 1]) := by
  have hreserved : eightPages.ensureCapacity [] 6 =
      (.ok [0, 1], (eightPages.ensureCapacity [] 6).2) := rfl
  have hlayout := metadataFor_layout (by decide) hreserved
  obtain ⟨last, hlast, -, -, -, hindptr, -, hwalk⟩ := hlayout.1 [0, 3, 4, 5] _ rfl
  obtain rfl : 2 = last := List.singleton_injective hlast
  exact ⟨_, _, _, _, rfl, rfl, hlast, hindptr, hwalk⟩

end PagedKVCache

end SoloRT
