import SoloRT.CacheHistory

/-!
# Looking up a prefix

The dictionary of a prefix cache has one key for each token list, as long as the digests of the
blocks that are hashed differ (`makeKey_inj`). `match` compares the tokens themselves. In every
state of a cache it returns the resident entry that is the longest prefix of the tokens, with the
pages of the last insert of its tokens (`matchPrefix_longest`), and an insert displaces the entry of
no other token list.
-/

namespace SoloRT

/-! ## The keys of the dictionary -/

/-- Numbers with the same lower bytes. -/
theorem mod_eq_of_bytes {x y : ℕ} : ∀ n, (∀ i < n, x / 256 ^ i % 256 = y / 256 ^ i % 256) →
    x % 256 ^ n = y % 256 ^ n
  | 0, _ => by rw [Nat.pow_zero, Nat.mod_one, Nat.mod_one]
  | n + 1, h => by
    rw [Nat.mod_pow_succ, Nat.mod_pow_succ, mod_eq_of_bytes n fun i hi => h i (by omega),
      h n (by omega)]

/-- A number of 64 bits with a sign is known by its remainder. -/
theorem eq_of_mod_two_pow {t u : ℤ} (ht : ¬(t < -2 ^ 63 ∨ 2 ^ 63 ≤ t))
    (hu : ¬(u < -2 ^ 63 ∨ 2 ^ 63 ≤ u))
    (h : (t % 2 ^ 64).toNat % 256 ^ 8 = (u % 2 ^ 64).toNat % 256 ^ 8) : t = u := by
  omega

theorem length_toBytes8 {tokenId : TokenId} {bytes : List UInt8}
    (h : toBytes8 tokenId = .ok bytes) : bytes.length = 8 := by
  unfold toBytes8 at h
  split_ifs at h
  cases h
  rfl

theorem toBytes8_inj {t u : TokenId} {bytes : List UInt8} (ht : toBytes8 t = .ok bytes)
    (hu : toBytes8 u = .ok bytes) : t = u := by
  unfold toBytes8 at ht hu
  split_ifs at ht hu with ht' hu'
  have hbytes := (Except.ok.inj ht).trans (Except.ok.inj hu).symm
  have hlow : ∀ i < 8, (t % 2 ^ 64).toNat / 256 ^ i % 256 = (u % 2 ^ 64).toNat / 256 ^ i % 256 := by
    intro i hi
    have hbyte := List.map_inj_left.1 hbytes i (List.mem_range.2 hi)
    have hnat := congrArg UInt8.toNat hbyte
    rwa [UInt8.toNat_ofNat_of_lt' (Nat.mod_lt _ (by decide)),
      UInt8.toNat_ofNat_of_lt' (Nat.mod_lt _ (by decide))] at hnat
  exact eq_of_mod_two_pow ht' hu' (mod_eq_of_bytes 8 hlow)

/-- The pieces of a list cut into blocks of one length are known by the list. -/
theorem flatten_inj_of_length {α : Type*} {n : ℕ} (hn : 0 < n) {xs ys : List (List α)}
    (hx : ∀ x ∈ xs, x.length = n) (hy : ∀ y ∈ ys, y.length = n)
    (h : xs.flatten = ys.flatten) : xs = ys := by
  have hlens : ∀ zs : List (List α), (∀ z ∈ zs, z.length = n) →
      zs.map List.length = List.replicate zs.length n := fun zs hz =>
    List.eq_replicate_iff.2 ⟨by simp, by simpa using hz⟩
  have hcount : xs.length * n = ys.length * n := by
    have hlen := congrArg List.length h
    rwa [List.length_flatten, List.length_flatten, hlens xs hx, hlens ys hy,
      List.sum_replicate, List.sum_replicate] at hlen
  refine List.eq_iff_flatten_eq.2 ⟨h, ?_⟩
  rw [hlens xs hx, hlens ys hy, Nat.eq_of_mul_eq_mul_right hn hcount]

theorem flatten_blocksOf {n : ℕ} (hn : 0 < n) : ∀ {fuel : ℕ} {tokenIds : List TokenId},
    tokenIds.length ≤ fuel → (blocksOf n fuel tokenIds).flatten = tokenIds
  | 0, tokenIds, h => by
    rw [List.length_eq_zero_iff.1 (Nat.le_zero.1 h)]
    rfl
  | fuel + 1, tokenIds, h => by
    unfold blocksOf
    split_ifs with hnil
    · rw [hnil]
      rfl
    · have hlen : 0 < tokenIds.length := List.length_pos_iff.2 hnil
      rw [List.flatten_cons, flatten_blocksOf hn (by rw [List.length_drop]; omega),
        List.take_append_drop]

/-- A decimal number is known by its digits, and has no colon. -/
theorem toString_nat_inj {m n : ℕ} (h : toString m = toString n) : m = n := by
  have hdigits : Nat.toDigits 10 m = Nat.toDigits 10 n := by
    have hlist := congrArg String.toList h
    rwa [Nat.toString_eq_repr, Nat.toString_eq_repr, Nat.toList_repr, Nat.toList_repr] at hlist
  rw [← Nat.ofDigitChars_ten_toDigits (n := m), hdigits, Nat.ofDigitChars_ten_toDigits]

theorem colon_not_mem_toString (n : ℕ) : ':' ∉ (toString n).toList := by
  intro hmem
  rw [Nat.toString_eq_repr, Nat.toList_repr] at hmem
  exact absurd (Nat.isDigit_of_mem_toDigits (by decide) (by decide) hmem) (by decide)

theorem intercalate_colon_inj {chain chain' : List ℕ}
    (h : String.intercalate ":" (chain.map toString) =
      String.intercalate ":" (chain'.map toString)) : chain = chain' := by
  have hsplit : ∀ chain : List ℕ, chain ≠ [] →
      (String.intercalate ":" (chain.map toString)).toList.splitOn ':' =
        chain.map fun n => (toString n).toList := by
    intro chain hne
    rw [String.toList_intercalate, List.map_map]
    refine List.splitOn_intercalate ':' (fun l hl => ?_) (by simpa using hne)
    obtain ⟨n, -, rfl⟩ := List.mem_map.1 hl
    exact colon_not_mem_toString n
  have hnil : ∀ {chain : List ℕ}, String.intercalate ":" (chain.map toString) = "" →
      chain = [] := by
    intro chain hempty
    by_contra hne
    obtain ⟨n, rest, rfl⟩ := List.exists_cons_of_ne_nil hne
    have hpieces := hsplit (n :: rest) hne
    rw [hempty] at hpieces
    have hdigits : [] = (toString n).toList := (List.cons.inj hpieces).1
    rw [Nat.toString_eq_repr, Nat.toList_repr] at hdigits
    exact Nat.toDigits_ne_nil hdigits.symm
  by_cases hc : chain = []
  · subst hc
    exact (hnil h.symm).symm
  · by_cases hc' : chain' = []
    · subst hc'
      exact hnil h
    · have hmap := hsplit chain hc
      rw [h, hsplit chain' hc'] at hmap
      have hinj : Function.Injective fun n : ℕ => (toString n).toList := fun m n hmn =>
        toString_nat_inj (String.toList_injective hmn)
      exact List.map_injective_iff.2 hinj hmap.symm

/-- Lists with the same results are equal if single results are known by what they come from. -/
theorem eq_of_forall₂ {α β : Type*} {R : α → β → Prop} : ∀ {l l' : List α} {r : List β},
    List.Forall₂ R l r → List.Forall₂ R l' r →
    (∀ x ∈ l, ∀ x' ∈ l', ∀ y, R x y → R x' y → x = x') → l = l'
  | _, _, _, .nil, .nil, _ => rfl
  | _, _, _, .cons hx hl, .cons hx' hl', h => by
    rw [h _ (by simp) _ (by simp) _ hx hx', eq_of_forall₂ hl hl' fun x hm x' hm' =>
      h x (List.mem_cons_of_mem _ hm) x' (List.mem_cons_of_mem _ hm')]

namespace PrefixCache

variable {c : PrefixCache}

/-- The byte strings that `make_hash_chain` hashes. -/
def hashed (c : PrefixCache) (tokenIds : List TokenId) : List (List UInt8) :=
  (blocksOf c.blockSize tokenIds.length tokenIds).filterMap fun block =>
    (block.mapM toBytes8).toOption.map List.flatten

/-- The digest of a block is that of a byte string which only this block has. -/
theorem digest_ok {block : List TokenId} {digest : ℕ}
    (h : ((block.mapM toBytes8).map fun bytes => c.blake2b bytes.flatten) = .ok digest) :
    ∃ bytes, block.mapM toBytes8 = .ok bytes ∧ c.blake2b bytes.flatten = digest := by
  cases hbytes : block.mapM toBytes8 with
  | error e =>
    rw [hbytes] at h
    cases h
  | ok bytes =>
    rw [hbytes] at h
    exact ⟨bytes, rfl, Except.ok.inj h⟩

theorem block_inj {block block' : List TokenId} {bytes bytes' : List (List UInt8)}
    (h : block.mapM toBytes8 = .ok bytes) (h' : block'.mapM toBytes8 = .ok bytes')
    (heq : bytes.flatten = bytes'.flatten) : block = block' := by
  have hall := forall₂_of_mapM_ok h
  have hall' := forall₂_of_mapM_ok h'
  have hlen : ∀ {block : List TokenId} {bytes : List (List UInt8)},
      List.Forall₂ (fun t b => toBytes8 t = .ok b) block bytes → ∀ b ∈ bytes, b.length = 8 := by
    intro block bytes hall
    induction hall with
    | nil => simp
    | cons hb _ ih => exact List.forall_mem_cons.2 ⟨length_toBytes8 hb, ih⟩
  obtain rfl := flatten_inj_of_length (by decide) (hlen hall) (hlen hall') heq
  exact eq_of_forall₂ hall hall' fun _ _ _ _ _ => toBytes8_inj

/-- A key is that of one token list, if the digests of what was hashed for it differ. -/
theorem makeKey_inj {t u : List TokenId} {key : String}
    (hinj : Set.InjOn c.blake2b {bytes | bytes ∈ c.hashed t ∨ bytes ∈ c.hashed u})
    (ht : c.makeKey t = .ok key) (hu : c.makeKey u = .ok key) : t = u := by
  unfold makeKey at ht hu
  cases hchain : c.makeHashChain t with
  | error e =>
    rw [hchain] at ht
    cases ht
  | ok chain =>
    cases hchain' : c.makeHashChain u with
    | error e =>
      rw [hchain'] at hu
      cases hu
    | ok chain' =>
      rw [hchain] at ht
      rw [hchain'] at hu
      obtain rfl : chain = chain' := intercalate_colon_inj
        ((Except.ok.inj ht).trans (Except.ok.inj hu).symm)
      have hblocks := eq_of_forall₂ (forall₂_of_mapM_ok hchain) (forall₂_of_mapM_ok hchain')
        fun block hblock block' hblock' digest hd hd' => by
          obtain ⟨bytes, hb, hdigest⟩ := digest_ok hd
          obtain ⟨bytes', hb', hdigest'⟩ := digest_ok hd'
          have hmem : bytes.flatten ∈ c.hashed t :=
            List.mem_filterMap.2 ⟨block, hblock, by rw [hb]; rfl⟩
          have hmem' : bytes'.flatten ∈ c.hashed u :=
            List.mem_filterMap.2 ⟨block', hblock', by rw [hb']; rfl⟩
          exact block_inj hb hb' (hinj (.inl hmem) (.inr hmem') (hdigest.trans hdigest'.symm))
      have hflat := congrArg List.flatten hblocks
      rwa [flatten_blocksOf c.blockSize_pos le_rfl, flatten_blocksOf c.blockSize_pos le_rfl]
        at hflat

/-! ## The longest prefix -/

/-- The loop of `match` keeps the longest entry that is a prefix. -/
theorem longestPrefix_spec (tokenIds : List TokenId) (es : List (EntryId × PrefixCacheEntry))
    (hcount : ∀ e ∈ es, e.2.tokenCount = e.2.tokenIds.length) :
    (longestPrefix tokenIds es = none ∧ ∀ e ∈ es, ¬e.2.tokenIds <+: tokenIds) ∨
      ∃ b ∈ es, longestPrefix tokenIds es = some b ∧ b.2.tokenIds <+: tokenIds ∧
        ∀ e ∈ es, e.2.tokenIds <+: tokenIds → e.2.tokenCount ≤ b.2.tokenCount := by
  induction es using List.reverseRecOn with
  | nil => exact .inl ⟨rfl, by simp⟩
  | append_singleton es e ih =>
    have hstep : longestPrefix tokenIds (es ++ [e]) =
        if e.2.tokenCount > tokenIds.length then longestPrefix tokenIds es
        else if e.2.tokenIds = tokenIds.take e.2.tokenCount ∧
            (longestPrefix tokenIds es).all (fun b => e.2.tokenCount > b.2.tokenCount) then some e
        else longestPrefix tokenIds es := by
      unfold longestPrefix
      rw [List.foldl_append, List.foldl_cons, List.foldl_nil]
    have hfits : e.2.tokenIds <+: tokenIds ↔
        ¬e.2.tokenCount > tokenIds.length ∧ e.2.tokenIds = tokenIds.take e.2.tokenCount := by
      rw [hcount e (by simp)]
      exact ⟨fun h => ⟨not_lt.2 h.length_le, List.prefix_iff_eq_take.1 h⟩,
        fun h => List.prefix_iff_eq_take.2 h.2⟩
    rw [hstep]
    rcases ih fun e he => hcount e (by simp [he]) with ⟨hnone, hno⟩ | ⟨b, hb, hsome, hpre, hmax⟩
    · rw [hnone]
      by_cases he : e.2.tokenIds <+: tokenIds
      · rw [if_neg (hfits.1 he).1, if_pos ⟨(hfits.1 he).2, rfl⟩]
        refine .inr ⟨e, by simp, rfl, he, fun e' he' hpre' => ?_⟩
        rcases List.mem_append.1 he' with hold | hlast
        · exact absurd hpre' (hno e' hold)
        · rw [List.mem_singleton.1 hlast]
      · left
        refine ⟨?_, fun e' he' => ?_⟩
        · split_ifs with hlong hmatch
          · rfl
          · exact absurd (hfits.2 ⟨hlong, hmatch.1⟩) he
          · rfl
        · rcases List.mem_append.1 he' with hold | hlast
          · exact hno e' hold
          · rwa [List.mem_singleton.1 hlast]
    · right
      rw [hsome]
      by_cases he : e.2.tokenIds <+: tokenIds ∧ b.2.tokenCount < e.2.tokenCount
      · rw [if_neg (hfits.1 he.1).1, if_pos ⟨(hfits.1 he.1).2, by simpa using he.2⟩]
        refine ⟨e, by simp, rfl, he.1, fun e' he' hpre' => ?_⟩
        rcases List.mem_append.1 he' with hold | hlast
        · exact (hmax e' hold hpre').trans he.2.le
        · rw [List.mem_singleton.1 hlast]
      · refine ⟨b, by simp [hb], ?_, hpre, fun e' he' hpre' => ?_⟩
        · split_ifs with hlong hmatch
          · rfl
          · exact absurd ⟨hfits.2 ⟨hlong, hmatch.1⟩, by simpa using hmatch.2⟩ he
          · rfl
        · rcases List.mem_append.1 he' with hold | hlast
          · exact hmax e' hold hpre'
          · rw [List.mem_singleton.1 hlast] at hpre' ⊢
            exact not_lt.1 fun hlt => he ⟨hpre', hlt⟩

/-- The key of a resident entry is the key of its tokens. -/
theorem Filed.makeKey_resident (h : c.Filed) {id : EntryId} {e : PrefixCacheEntry}
    (he : c.Resident id e) : c.makeKey e.tokenIds = .ok e.key := by
  obtain ⟨key, hid⟩ := he.1
  obtain ⟨f, hf, hkey, hmake, -⟩ := h.filed key id hid
  obtain rfl := Option.some.inj (he.2.symm.trans hf)
  rwa [hkey]

/-- What is resident after an assignment : the new entry, and the others under other keys. -/
theorem Filed.resident_assign (h : c.Filed) (now : Timestamp) (key : String)
    (tokenIds : List TokenId) (pages : List PageId) (pinned : Bool) {id : EntryId}
    {e : PrefixCacheEntry} : (c.assign now key tokenIds pages pinned).Resident id e ↔
      (id = c.nextEntryId ∧ e =
        { key, tokenIds, pages, tokenCount := tokenIds.length, pinned, lastAccessTs := now }) ∨
        c.Resident id e ∧ e.key ≠ key := by
  have hobjects : (c.assign now key tokenIds pages pinned).objects =
      Function.update c.objects c.nextEntryId (some
        { key, tokenIds, pages, tokenCount := tokenIds.length, pinned, lastAccessTs := now }) := rfl
  have hother : ∀ {k}, (k, id) ∈ c.entries → id ≠ c.nextEntryId := fun hid => by
    obtain ⟨f, hf, -⟩ := h.filed _ id hid
    exact (h.bounded id f hf).ne
  constructor
  · rintro ⟨⟨k, hk⟩, hobj⟩
    rw [hobjects] at hobj
    rcases h.mem_assign.1 hk with heq | ⟨hold, hne⟩
    · obtain ⟨-, rfl⟩ := Prod.mk.inj heq
      rw [Function.update_self] at hobj
      exact .inl ⟨rfl, (Option.some.inj hobj).symm⟩
    · rw [Function.update_of_ne (hother hold)] at hobj
      exact .inr ⟨⟨⟨k, hold⟩, hobj⟩, h.key_eq hold hobj ▸ hne⟩
  · rintro (⟨rfl, rfl⟩ | ⟨he, hne⟩)
    · exact ⟨⟨key, h.mem_assign.2 (.inl rfl)⟩, by rw [hobjects, Function.update_self]⟩
    · obtain ⟨hid, hobj⟩ := h.resident_iff.1 he
      refine ⟨⟨e.key, h.mem_assign.2 (.inr ⟨hid, hne⟩)⟩, ?_⟩
      rwa [hobjects, Function.update_of_ne (hother hid)]

/-- The pages of the last insert of some tokens. -/
def lastInserted (tokenIds : List TokenId) (calls : List CacheCall) : Option (List PageId) :=
  calls.foldl (fun last call =>
    match call with
    | .insert _ inserted pages _ => if inserted = tokenIds then some pages else last
    | _ => last) none

/-- Every resident entry has the pages of the last insert of its tokens. -/
def UpToDate (calls : List CacheCall) (c : PrefixCache) : Prop :=
  ∀ id e, c.Resident id e → lastInserted e.tokenIds calls = some e.pages

theorem UpToDate.step {calls : List CacheCall} (h : UpToDate calls c) (hfiled : c.Filed)
    (call : CacheCall) : UpToDate (calls ++ [call]) (c.step call) := by
  intro id e he
  have hsame : ∀ {e₀}, c.Resident id e₀ → SameContent e₀ e →
      lastInserted e.tokenIds calls = some e.pages := by
    rintro e₀ he₀ ⟨hpages, htokens, -⟩
    rw [htokens, hpages]
    exact h id e₀ he₀
  simp only [lastInserted, List.foldl_append, List.foldl_cons, List.foldl_nil]
  cases call with
  | insert now tokenIds pages pinned =>
    dsimp only
    cases hkey : c.makeKey tokenIds with
    | error err =>
      have hold : c.Resident id e := by
        rw [PrefixCache.step, PrefixCache.insert, hkey] at he
        exact he
      have hmake := hfiled.makeKey_resident hold
      rw [if_neg fun heq => by rw [← heq, hkey] at hmake; cases hmake]
      exact h id e hold
    | ok key =>
      rw [PrefixCache.step, insert_eq hkey, evictToCapacity_eq] at he
      rcases (hfiled.resident_assign now key tokenIds pages pinned).1 (resident_evict he) with
        ⟨-, rfl⟩ | ⟨hold, hne⟩
      · rw [if_pos rfl]
      · -- the tokens of an entry under another key are others
        have hmake := hfiled.makeKey_resident hold
        rw [if_neg fun heq => hne (by rw [← heq, hkey] at hmake; exact (Except.ok.inj hmake).symm)]
        exact h id e hold
  | matchPrefix now tokenIds =>
    obtain ⟨e₀, he₀, hcontent⟩ := resident_matchPrefix he
    exact hsame he₀ hcontent
  | release entry =>
    obtain ⟨e₀, he₀, hcontent⟩ := resident_release he
    exact hsame he₀ hcontent
  | evict n => exact hsame (resident_evict he) ⟨rfl, rfl, rfl⟩

/-! ## The history of a cache -/

/-- The token lists that calls insert. -/
def insertedTokens (calls : List CacheCall) : List (List TokenId) :=
  calls.filterMap fun call =>
    match call with
    | .insert _ tokenIds _ _ => some tokenIds
    | _ => none

theorem mem_insertedTokens {tokenIds : List TokenId} {pages : List PageId}
    {calls : List CacheCall} (h : lastInserted tokenIds calls = some pages) :
    tokenIds ∈ insertedTokens calls := by
  induction calls using List.reverseRecOn with
  | nil => cases h
  | append_singleton calls call ih =>
    simp only [lastInserted, List.foldl_append, List.foldl_cons, List.foldl_nil] at h
    rw [insertedTokens, List.filterMap_append, List.mem_append]
    cases call with
    | insert now tokenIds' pages' pinned =>
      dsimp only at h
      split_ifs at h with heq
      · exact .inr (by simp [heq])
      · exact .inl (ih h)
    | matchPrefix | release | evict => exact .inl (ih h)

variable {blockSize maxEntries : ℤ} {blake2b : List UInt8 → ℕ} {c₀ : PrefixCache}

theorem upToDate_run (hnew : create blockSize maxEntries blake2b = .ok c₀)
    (calls : List CacheCall) : UpToDate calls (Transition.run step c₀ calls) := by
  induction calls using List.reverseRecOn with
  | nil =>
    intro id e he
    obtain ⟨⟨key, hkey⟩, -⟩ := he
    unfold create at hnew
    split_ifs at hnew
    cases hnew
    cases hkey
  | append_singleton calls call ih =>
    rw [Transition.run_concat]
    exact ih.step (filed_run hnew calls) call

/-- The calls change neither the length of the blocks nor the hash function. -/
theorem hashed_step (call : CacheCall) :
    (c.step call).blake2b = c.blake2b ∧ (c.step call).hashed = c.hashed := by
  cases call with
  | insert now tokenIds pages pinned =>
    cases hkey : c.makeKey tokenIds with
    | error e => simp [step, insert, hkey]
    | ok key =>
      rw [step, insert_eq hkey, evictToCapacity_eq, evict_eq]
      exact ⟨rfl, rfl⟩
  | matchPrefix now tokenIds =>
    rcases c.matchPrefix_cases now tokenIds with hm | ⟨id, e, -, -, -, hm⟩ <;> rw [step, hm] <;>
      exact ⟨rfl, rfl⟩
  | release entry =>
    rcases c.release_cases entry with hr | ⟨id, e, -, -, hr⟩ <;> rw [step, hr] <;>
      exact ⟨rfl, rfl⟩
  | evict n =>
    rw [step, evict_eq]
    exact ⟨rfl, rfl⟩

theorem hashed_run (c₀ : PrefixCache) (calls : List CacheCall) :
    (Transition.run step c₀ calls).blake2b = c₀.blake2b ∧
      (Transition.run step c₀ calls).hashed = c₀.hashed :=
  Transition.run_invariant'
    (I := fun c : PrefixCache => c.blake2b = c₀.blake2b ∧ c.hashed = c₀.hashed)
    (fun _ call h => ⟨(hashed_step call).1.trans h.1, (hashed_step call).2.trans h.2⟩)
    calls ⟨rfl, rfl⟩

theorem Filed.resident_of_mem (h : c.Filed) {x : EntryId × PrefixCacheEntry}
    (hx : x ∈ c.residents) : c.Resident x.1 x.2 ∧ x.2.tokenCount = x.2.tokenIds.length := by
  have hres := mem_residents.1 hx
  obtain ⟨key, hid⟩ := hres.1
  obtain ⟨f, hf, -, -, hcount⟩ := h.filed key x.1 hid
  obtain rfl := Option.some.inj (hres.2.symm.trans hf)
  exact ⟨hres, hcount⟩

/-- Two resident entries have different tokens. -/
theorem Filed.id_of_tokens (h : c.Filed) {id id' : EntryId} {e e' : PrefixCacheEntry}
    (he : c.Resident id e) (he' : c.Resident id' e') (htokens : e'.tokenIds = e.tokenIds) :
    id' = id := by
  have hkey : e'.key = e.key := Except.ok.inj
    ((h.makeKey_resident he').symm.trans (htokens ▸ h.makeKey_resident he))
  have hid := (h.resident_iff.1 he').1
  rw [hkey] at hid
  exact h.id_unique hid (h.resident_iff.1 he).1

/-- What `match` returns from a filed dictionary. -/
theorem Filed.matchPrefix_spec (h : c.Filed) (now : Timestamp) (tokenIds : List TokenId) :
    ((c.matchPrefix now tokenIds).1 = { matchedTokens := 0, pages := [] } ∧
      ∀ id e, c.Resident id e → ¬e.tokenIds <+: tokenIds) ∨
    ∃ id e, c.Resident id e ∧ e.tokenIds <+: tokenIds ∧
      (c.matchPrefix now tokenIds).1 =
        { matchedTokens := e.tokenCount, pages := e.pages, entry := some id } ∧
      ∀ id' e', c.Resident id' e' → e'.tokenIds <+: tokenIds →
        e'.tokenCount ≤ e.tokenCount ∧ (e'.tokenCount = e.tokenCount → id' = id) := by
  rcases longestPrefix_spec tokenIds c.residents fun x hx => (h.resident_of_mem hx).2 with
    ⟨hnone, hno⟩ | ⟨⟨id, e⟩, hmem, hsome, hpre, hmax⟩
  · refine .inl ⟨by rw [PrefixCache.matchPrefix, hnone], fun id e he => ?_⟩
    exact hno (id, e) (mem_residents.2 he)
  · obtain ⟨he, hcount⟩ := h.resident_of_mem hmem
    dsimp only at he hcount hpre hmax
    have hle : e.tokenCount ≤ tokenIds.length := hcount ▸ hpre.length_le
    refine .inr ⟨id, e, he, hpre, ?_, fun id' e' he' hpre' => ⟨?_, fun hlen => ?_⟩⟩
    · rw [PrefixCache.matchPrefix, hsome]
      simp only [Nat.min_eq_left hle]
    · exact hmax (id', e') (mem_residents.2 he') hpre'
    · -- of two prefixes with one length there is only one
      have hcount' := (h.resident_of_mem (mem_residents.2 he')).2
      refine h.id_of_tokens he he' ?_
      rw [List.prefix_iff_eq_take.1 hpre, List.prefix_iff_eq_take.1 hpre', ← hcount, ← hcount',
        hlen]

/-- An assignment to the dictionary displaces no entry with other tokens. -/
theorem Filed.resident_assign_of_ne (h : c.Filed) {tokenIds : List TokenId} {key : String}
    (hkey : c.makeKey tokenIds = .ok key) (now : Timestamp) (pages : List PageId) (pinned : Bool)
    {id : EntryId} {e : PrefixCacheEntry} (he : c.Resident id e) (hne : e.tokenIds ≠ tokenIds)
    (hinj : Set.InjOn c.blake2b
      {bytes | bytes ∈ c.hashed e.tokenIds ∨ bytes ∈ c.hashed tokenIds}) :
    (c.assign now key tokenIds pages pinned).Resident id e :=
  (h.resident_assign now key tokenIds pages pinned).2 <| .inr ⟨he, fun heq =>
    hne (makeKey_inj hinj (heq ▸ h.makeKey_resident he) hkey)⟩

/-- An insert displaces no entry with other tokens but by an eviction. -/
theorem Filed.resident_insert (h : c.Filed) {now : Timestamp} {tokenIds : List TokenId}
    {pages : List PageId} {pinned : Bool} {id : EntryId} {c' : PrefixCache}
    (hinsert : c.insert now tokenIds pages pinned = (.ok id, c')) :
    ∃ key evicted, c.makeKey tokenIds = .ok key ∧
      (c.assign now key tokenIds pages pinned).evict
        ((c.assign now key tokenIds pages pinned).entries.length - c.maxEntries) =
          (evicted, c') ∧
      ∀ id' e, c.Resident id' e → e.tokenIds ≠ tokenIds →
        Set.InjOn c.blake2b {bytes | bytes ∈ c.hashed e.tokenIds ∨ bytes ∈ c.hashed tokenIds} →
        c'.Resident id' e ∨ id' ∈ evicted := by
  cases hkey : c.makeKey tokenIds with
  | error err =>
    rw [PrefixCache.insert, hkey] at hinsert
    cases hinsert
  | ok key =>
    rw [insert_eq hkey, evictToCapacity_eq] at hinsert
    obtain ⟨-, rfl⟩ := Prod.mk.inj hinsert
    refine ⟨key, _, rfl, rfl, fun id' e he hne hinj => ?_⟩
    have hassigned := h.resident_assign_of_ne hkey now pages pinned he hne hinj
    obtain ⟨-, -, -, -, hresident, -⟩ :=
      (h.assign hkey now pages pinned).evict_spec
        ((c.assign now key tokenIds pages pinned).entries.length - c.maxEntries)
    by_cases hout : id' ∈ ((c.assign now key tokenIds pages pinned).evict
        ((c.assign now key tokenIds pages pinned).entries.length - c.maxEntries)).1
    · exact .inr hout
    · exact .inl ((hresident id' e).2 ⟨hassigned, hout⟩)

/-- In any state of a cache `match` returns the one resident entry whose tokens are the longest
prefix, with the pages of the last insert of these tokens, and none only if there is no such entry.
An insert displaces the entry of other tokens by an eviction only. -/
theorem matchPrefix_longest (hnew : create blockSize maxEntries blake2b = .ok c₀)
    {calls : List CacheCall} (hrun : Transition.run step c₀ calls = c) :
    (∀ now tokenIds found c', c.matchPrefix now tokenIds = (found, c') →
      (found.entry = none ↔ ∀ id e, c.Resident id e → ¬e.tokenIds <+: tokenIds) ∧
      (found.entry = none → found.matchedTokens = 0 ∧ found.pages = []) ∧
      ∀ id, found.entry = some id → ∃ e, c.Resident id e ∧
        e.tokenIds <+: tokenIds ∧ e.tokenCount = e.tokenIds.length ∧
        found.matchedTokens = e.tokenCount ∧ found.pages = e.pages ∧
        lastInserted e.tokenIds calls = some found.pages ∧
        ∀ id' e', c.Resident id' e' → e'.tokenIds <+: tokenIds →
          e'.tokenCount ≤ e.tokenCount ∧ (e'.tokenCount = e.tokenCount → id' = id)) ∧
    ∀ now tokenIds pages pinned id c', c.insert now tokenIds pages pinned = (.ok id, c') →
      Set.InjOn blake2b
        {bytes | ∃ inserted ∈ tokenIds :: insertedTokens calls, bytes ∈ c₀.hashed inserted} →
      ∃ key evicted, c.makeKey tokenIds = .ok key ∧
        (c.assign now key tokenIds pages pinned).evict
          ((c.assign now key tokenIds pages pinned).entries.length - c.maxEntries) =
            (evicted, c') ∧
        ∀ id' e, c.Resident id' e → e.tokenIds ≠ tokenIds → c'.Resident id' e ∨ id' ∈ evicted := by
  have hfiled : c.Filed := hrun ▸ filed_run hnew calls
  have hfresh : UpToDate calls c := hrun ▸ upToDate_run hnew calls
  obtain ⟨hblake, hhashed⟩ := hashed_run c₀ calls
  rw [hrun] at hblake hhashed
  have hblake₀ : c₀.blake2b = blake2b := by
    unfold create at hnew
    split_ifs at hnew
    cases hnew
    rfl
  constructor
  · intro now tokenIds found c' hmatch
    have hspec := hfiled.matchPrefix_spec now tokenIds
    rw [hmatch] at hspec
    rcases hspec with ⟨hmiss, hno⟩ | ⟨id, e, he, hpre, hhit, hmax⟩
    · obtain rfl : found = { matchedTokens := 0, pages := [] } := hmiss
      refine ⟨⟨fun _ => hno, fun _ => rfl⟩, fun _ => ⟨rfl, rfl⟩, ?_⟩
      rintro id ⟨⟩
    · obtain rfl : found = { matchedTokens := e.tokenCount, pages := e.pages, entry := some id } :=
        hhit
      have hsome : some id ≠ none := Option.some_ne_none id
      refine ⟨⟨fun hnone => absurd hnone hsome, fun hno => absurd hpre (hno id e he)⟩,
        fun hnone => absurd hnone hsome, fun id' hid => ?_⟩
      obtain rfl := Option.some.inj hid
      exact ⟨e, he, hpre, (hfiled.resident_of_mem (mem_residents.2 he)).2, rfl, rfl,
        hfresh id e he, hmax⟩
  · intro now tokenIds pages pinned id c' hinsert hinj
    obtain ⟨key, evicted, hkey, hevict, hkept⟩ := hfiled.resident_insert hinsert
    refine ⟨key, evicted, hkey, hevict, fun id' e he hne => hkept id' e he hne ?_⟩
    rw [hblake, hblake₀, hhashed]
    refine hinj.mono ?_
    rintro bytes (hbytes | hbytes)
    · exact ⟨_, List.mem_cons_of_mem _ (mem_insertedTokens (hfresh id' e he)), hbytes⟩
    · exact ⟨_, List.mem_cons_self, hbytes⟩

/-- Two entries fill the cache. -/
def fullCalls : List CacheCall :=
  [.insert 1 [1] [7] false, .insert 2 [2] [8] false]

/-- The byte strings of the three tokens. -/
def oneTokenBytes : List (List UInt8) :=
  [[1, 0, 0, 0, 0, 0, 0, 0], [2, 0, 0, 0, 0, 0, 0, 0], [3, 0, 0, 0, 0, 0, 0, 0]]

/-- The tokens `[1, 3]` are found under the first entry. An insert of `[3]` evicts that one, and the
second entry stays. -/
theorem matchPrefix_longest_fullCalls :
    (∃ e, (Transition.run step twoEntryCache fullCalls).Resident 0 e ∧
        e.tokenIds <+: [1, 3] ∧ e.pages = [7] ∧ lastInserted e.tokenIds fullCalls = some [7]) ∧
      ∀ e, (Transition.run step twoEntryCache fullCalls).Resident 1 e → e.tokenIds ≠ [3] →
        ((Transition.run step twoEntryCache fullCalls).insert 3 [3] [9] false).2.Resident 1 e := by
  have hnew : create 16 2 oneTokenDigest = .ok twoEntryCache := rfl
  have hrun : Transition.run step twoEntryCache fullCalls = _ := rfl
  have hlongest := matchPrefix_longest hnew hrun
  have hfound : ((Transition.run step twoEntryCache fullCalls).matchPrefix 3 [1, 3]).1 =
      { matchedTokens := 1, pages := [7], entry := some 0 } := by decide +kernel
  obtain ⟨e, he, hpre, -, -, hpages, hlast, -⟩ :=
    (hlongest.1 3 [1, 3] _ _ (Prod.ext hfound rfl)).2.2 0 rfl
  refine ⟨⟨e, he, hpre, hpages.symm, hlast⟩, fun e' he' hne => ?_⟩
  have hinserted : ((Transition.run step twoEntryCache fullCalls).insert 3 [3] [9] false).1 =
      .ok 2 := rfl
  have hhashed : ∀ inserted ∈ [3] :: insertedTokens fullCalls,
      ∀ bytes ∈ twoEntryCache.hashed inserted, bytes ∈ oneTokenBytes := by
    decide +kernel
  have hinj : ∀ x ∈ oneTokenBytes, ∀ y ∈ oneTokenBytes,
      oneTokenDigest x = oneTokenDigest y → x = y := by
    decide +kernel
  obtain ⟨key, evicted, hkey, hevict, hstay⟩ :=
    hlongest.2 3 [3] [9] false 2 _ (Prod.ext hinserted rfl) <| by
      rintro x ⟨t, ht, hx⟩ y ⟨u, hu, hy⟩
      exact hinj x (hhashed t ht x hx) y (hhashed u hu y hy)
  have hthree : (Transition.run step twoEntryCache fullCalls).makeKey [3] =
      .ok "16295938515333252330" := by
    decide +kernel
  obtain rfl := Except.ok.inj (hkey.symm.trans hthree)
  have hout : evicted = [0] := (congrArg Prod.fst hevict).symm.trans (by decide +kernel)
  exact (hstay 1 e' he' hne).resolve_right (by simp [hout])

end PrefixCache

end SoloRT
