import Mathlib.Data.List.Basic
import Mathlib.Data.List.Range
import Mathlib.Logic.Function.Basic

/-!
# Causal decoding over a static arena

A causal decoder computes, for a token at a position, an output and a cache entry from the
entries of the positions before it (`row`). `rows` feeds it some tokens in a row, and `feed` is
what the next one sees.

A static arena keeps the entries by position, and is never cleared. A forward pass at a position
reads the entries below it, under a mask that hides the others of its bucket, and overwrites
those of the tokens it is given (`forward`). So it does what `rows` does with the entries below
(`forward_fst`), whatever the arena holds from the position on, and leaves what `feed` says
(`below_forward`). A token that is fed again overwrites its entry (`below_forward_take`), and
the same pass again changes nothing (`forward_forward`).
-/

namespace StaticArena

variable {E T O : Type*} (row : List (ℕ × E) → ℕ → T → E × O)

/-! ## Rows -/

/-- The entries and outputs of tokens fed one after the other, from a position on. -/
def rows : List (ℕ × E) → ℕ → List T → List (E × O)
  | _, _, [] => []
  | visible, pos, t :: ts =>
    row visible pos t :: rows (visible ++ [(pos, (row visible pos t).1)]) (pos + 1) ts

/-- What is visible after tokens fed from a position on. -/
def feed : List (ℕ × E) → ℕ → List T → List (ℕ × E)
  | visible, _, [] => visible
  | visible, pos, t :: ts => feed (visible ++ [(pos, (row visible pos t).1)]) (pos + 1) ts

@[simp] theorem length_rows (visible : List (ℕ × E)) (pos : ℕ) (ts : List T) :
    (rows row visible pos ts).length = ts.length := by
  induction ts generalizing visible pos with
  | nil => rfl
  | cons t ts ih => simp [rows, ih]

theorem rows_append (visible : List (ℕ × E)) (pos : ℕ) (ts us : List T) :
    rows row visible pos (ts ++ us) =
      rows row visible pos ts ++ rows row (feed row visible pos ts) (pos + ts.length) us := by
  induction ts generalizing visible pos with
  | nil => rfl
  | cons t ts ih =>
    rw [List.cons_append, rows, ih, rows, feed, List.length_cons, List.cons_append]
    simp only [Nat.add_assoc, Nat.add_comm 1]

theorem feed_append (visible : List (ℕ × E)) (pos : ℕ) (ts us : List T) :
    feed row visible pos (ts ++ us) =
      feed row (feed row visible pos ts) (pos + ts.length) us := by
  induction ts generalizing visible pos with
  | nil => rfl
  | cons t ts ih =>
    rw [List.cons_append, feed, ih, feed, List.length_cons]
    simp only [Nat.add_assoc, Nat.add_comm 1]

theorem exists_feed_eq_append (visible : List (ℕ × E)) (pos : ℕ) (ts : List T) :
    ∃ fed, feed row visible pos ts = visible ++ fed ∧ fed.length = ts.length := by
  induction ts generalizing visible pos with
  | nil => exact ⟨[], (List.append_nil _).symm, rfl⟩
  | cons t ts ih =>
    obtain ⟨fed, h, hlen⟩ := ih (visible ++ [(pos, (row visible pos t).1)]) (pos + 1)
    exact ⟨(pos, (row visible pos t).1) :: fed, by rw [feed, h, List.append_assoc]; rfl,
      congrArg (· + 1) hlen⟩

/-- What the first tokens make visible. -/
theorem feed_take (pos : ℕ) (ts : List T) (i : ℕ) :
    feed row [] pos (ts.take i) = (feed row [] pos ts).take i := by
  obtain ⟨fed, hfed, hlen⟩ := exists_feed_eq_append row [] pos (ts.take i)
  obtain ⟨rest, hrest, -⟩ := exists_feed_eq_append row (feed row [] pos (ts.take i))
    (pos + (ts.take i).length) (ts.drop i)
  obtain ⟨all, hall, hlen'⟩ := exists_feed_eq_append row [] pos ts
  rw [List.nil_append] at hfed hall
  have happend : all = fed ++ rest := by
    rw [← hall, ← hfed, ← hrest, ← feed_append, List.take_append_drop]
  rw [hfed, hall]
  rcases Nat.le_total i ts.length with hi | hi
  · have hfedlen : fed.length = i := by rw [hlen, List.length_take, Nat.min_eq_left hi]
    rw [happend, List.take_left' hfedlen]
  · rw [List.take_of_length_le hi, hall] at hfed
    rw [← hfed, List.take_of_length_le (hlen' ▸ hi)]

/-- Tokens and outputs may be converted. -/
theorem rows_map {T' O' : Type*} (f : T' → T) (g : O → O') (visible : List (ℕ × E)) (pos : ℕ)
    (ts : List T') :
    rows (fun visible pos t => Prod.map id g (row visible pos (f t))) visible pos ts =
      (rows row visible pos (ts.map f)).map (Prod.map id g) := by
  induction ts generalizing visible pos with
  | nil => rfl
  | cons t ts ih =>
    rw [List.map_cons, rows, rows, List.map_cons, ih]
    rfl

/-- The output at one of the tokens is that of a row which sees the ones before it. -/
theorem rows_getElem? (visible : List (ℕ × E)) (pos : ℕ) (ts : List T) (i : ℕ) :
    (rows row visible pos ts)[i]? =
      ts[i]?.map (row (feed row visible pos (ts.take i)) (pos + i)) := by
  induction ts generalizing visible pos i with
  | nil => rfl
  | cons t ts ih =>
    cases i with
    | zero => rfl
    | succ i =>
      rw [rows, List.getElem?_cons_succ, ih, List.getElem?_cons_succ, List.take_succ_cons, feed]
      congr 2
      omega

/-! ## Arenas -/

/-- The entries below a position. -/
def below (kv : ℕ → E) (pos : ℕ) : List (ℕ × E) :=
  (List.range pos).map fun i => (i, kv i)

/-- The entries of a bucket that a mask leaves to a token at a position, besides its own. -/
def masked (kv : ℕ → E) (bound pos : ℕ) : List (ℕ × E) :=
  ((List.range bound).filter (· < pos)).map fun i => (i, kv i)

/-- Overwrite the entries from a position on. -/
def write (kv : ℕ → E) (pos : ℕ) (entries : List E) : ℕ → E :=
  fun i => if i < pos then kv i else (entries[i - pos]?).getD (kv i)

/-- Feed tokens from a position on : the outputs, and the arena with their entries. -/
def forward (bound pos : ℕ) (ts : List T) (kv : ℕ → E) : List O × (ℕ → E) :=
  let rs := rows row (masked kv bound pos) pos ts
  (rs.map Prod.snd, write kv pos (rs.map Prod.fst))

theorem below_succ (kv : ℕ → E) (pos : ℕ) :
    below kv (pos + 1) = below kv pos ++ [(pos, kv pos)] := by
  rw [below, List.range_succ, List.map_append]
  rfl

theorem below_congr {kv kv' : ℕ → E} {pos : ℕ} (h : ∀ i < pos, kv i = kv' i) :
    below kv pos = below kv' pos :=
  List.map_congr_left fun i hi => by rw [h i (List.mem_range.1 hi)]

theorem below_take (kv : ℕ → E) {pos i : ℕ} (h : i ≤ pos) : (below kv pos).take i = below kv i := by
  rw [below, ← List.map_take, List.take_range, Nat.min_eq_left h, below]

theorem eq_of_below_eq {kv kv' : ℕ → E} {pos i : ℕ} (h : below kv pos = below kv' pos)
    (hi : i < pos) : kv i = kv' i := by
  have hget := congrArg (·[i]?) h
  simpa [below, hi] using hget

/-- A bucket that reaches the position hides nothing below it. -/
theorem masked_eq_below (kv : ℕ → E) {bound pos : ℕ} (h : pos ≤ bound) :
    masked kv bound pos = below kv pos := by
  obtain ⟨k, rfl⟩ := Nat.exists_eq_add_of_le h
  rw [masked, below, List.range_add, List.filter_append, List.filter_eq_self.2 (by simp),
    List.filter_eq_nil_iff.2 (by simp), List.append_nil]

@[simp] theorem masked_zero (kv : ℕ → E) (bound : ℕ) : masked kv bound 0 = [] := by
  simp [masked]

theorem write_of_lt (kv : ℕ → E) {pos i : ℕ} (entries : List E) (h : i < pos) :
    write kv pos entries i = kv i := by
  rw [write, if_pos h]

theorem write_of_le (kv : ℕ → E) {pos i : ℕ} {entries : List E} (h : pos + entries.length ≤ i) :
    write kv pos entries i = kv i := by
  rw [write, if_neg (by omega), List.getElem?_eq_none (by omega), Option.getD_none]

theorem write_cons (kv : ℕ → E) (pos : ℕ) (e : E) (entries : List E) :
    write kv pos (e :: entries) = write (Function.update kv pos e) (pos + 1) entries := by
  funext i
  rcases Nat.lt_trichotomy i pos with hi | rfl | hi
  · rw [write_of_lt _ _ hi, write_of_lt _ _ (by omega), Function.update_of_ne (by omega)]
  · rw [write, write_of_lt _ _ (by omega)]
    simp
  · obtain ⟨k, rfl⟩ := Nat.exists_eq_add_of_lt hi
    rw [write, write, if_neg (by omega), if_neg (by omega), Function.update_of_ne (by omega)]
    have hk : pos + k + 1 - pos = k + 1 := by omega
    have hk' : pos + k + 1 - (pos + 1) = k := by omega
    rw [hk, hk', List.getElem?_cons_succ]

/-- The entries up to one that was written. -/
theorem map_write (kv : ℕ → E) (pos : ℕ) {entries : List E} {i : ℕ} (hi : i < entries.length) :
    (List.range (pos + i + 1)).map (write kv pos entries) =
      (List.range pos).map kv ++ entries.take (i + 1) := by
  rw [Nat.add_assoc, List.range_add, List.map_append, List.map_map]
  congr 1
  · exact List.map_congr_left fun j hj => write_of_lt kv entries (List.mem_range.1 hj)
  · refine List.ext_getElem (by simp; omega) fun j hj _ => ?_
    have hj : j < entries.length := by
      simp only [List.length_map, List.length_range] at hj
      omega
    simp [write, List.getElem?_eq_getElem hj]

/-- Writing the same entries again changes nothing. -/
theorem write_write (kv : ℕ → E) (pos : ℕ) (entries : List E) :
    write (write kv pos entries) pos entries = write kv pos entries := by
  funext i
  rw [write]
  split_ifs with h
  · rfl
  · cases he : entries[i - pos]? with
    | none => rfl
    | some e => rw [write, if_neg h, he, Option.getD_some, Option.getD_some]

/-- The entries that `rows` has for the tokens are what `feed` makes visible. -/
theorem below_write_rows (kv : ℕ → E) (pos : ℕ) (ts us : List T) :
    below (write kv pos ((rows row (below kv pos) pos (ts ++ us)).map Prod.fst))
      (pos + ts.length) = feed row (below kv pos) pos ts := by
  induction ts generalizing kv pos with
  | nil =>
    refine below_congr fun i hi => ?_
    exact write_of_lt _ _ (by simpa using hi)
  | cons t ts ih =>
    have hnext : below (Function.update kv pos (row (below kv pos) pos t).1) (pos + 1) =
        below kv pos ++ [(pos, (row (below kv pos) pos t).1)] := by
      rw [below_succ, Function.update_self]
      congr 1
      exact below_congr fun i hi => Function.update_of_ne (by omega) _ _
    have hlen : pos + (t :: ts).length = pos + 1 + ts.length := by
      rw [List.length_cons]
      omega
    rw [List.cons_append, rows, List.map_cons, write_cons, hlen, feed, ← hnext]
    exact ih _ _

/-! ## Forward passes -/

variable (kv : ℕ → E) {bound pos : ℕ}

/-- The outputs of a forward pass depend on the arena below its position only. -/
theorem forward_fst (h : pos ≤ bound) (ts : List T) :
    (forward row bound pos ts kv).1 = (rows row (below kv pos) pos ts).map Prod.snd := by
  rw [forward, masked_eq_below kv h]

/-- What a forward pass leaves below the positions of its first tokens. -/
theorem below_forward_take (h : pos ≤ bound) (ts us : List T) :
    below (forward row bound pos (ts ++ us) kv).2 (pos + ts.length) =
      feed row (below kv pos) pos ts := by
  rw [forward, masked_eq_below kv h]
  exact below_write_rows row kv pos ts us

/-- What a forward pass leaves below the position after its tokens. -/
theorem below_forward (h : pos ≤ bound) (ts : List T) :
    below (forward row bound pos ts kv).2 (pos + ts.length) = feed row (below kv pos) pos ts := by
  have htake := below_forward_take row kv h ts []
  rwa [List.append_nil] at htake

/-- A forward pass does not touch the positions after its tokens. -/
theorem forward_of_le {ts : List T} {i : ℕ} (h : pos + ts.length ≤ i) :
    (forward row bound pos ts kv).2 i = kv i := by
  refine write_of_le _ ?_
  rwa [List.length_map, length_rows]

theorem forward_of_lt {ts : List T} {i : ℕ} (h : i < pos) :
    (forward row bound pos ts kv).2 i = kv i :=
  write_of_lt _ _ h

/-- The same forward pass again has the same outputs and changes nothing. -/
theorem forward_forward (ts : List T) :
    forward row bound pos ts (forward row bound pos ts kv).2 = forward row bound pos ts kv := by
  have hmasked : masked (forward row bound pos ts kv).2 bound pos = masked kv bound pos := by
    refine List.map_congr_left fun i hi => ?_
    have hlt : i < pos := by simpa using (List.mem_filter.1 hi).2
    rw [forward_of_lt row kv hlt]
  rw [forward, hmasked]
  simp only [forward]
  rw [write_write]

/-- A forward pass from the start depends on nothing, and not on the tokens after the first. -/
theorem forward_append_zero (kv kv' : ℕ → E) (bound bound' : ℕ) (ts us : List T) :
    (forward row bound 0 (ts ++ us) kv).1.take ts.length = (forward row bound' 0 ts kv').1 ∧
      ∀ i < ts.length, (forward row bound 0 (ts ++ us) kv).2 i =
        (forward row bound' 0 ts kv').2 i := by
  have hbelow := below_forward_take row kv bound.zero_le ts us
  have hbelow' := below_forward row kv' bound'.zero_le ts
  rw [Nat.zero_add] at hbelow hbelow'
  refine ⟨?_, fun i hi => eq_of_below_eq (hbelow.trans hbelow'.symm) hi⟩
  simp only [forward, masked_zero, rows_append, List.map_append]
  rw [List.take_left' (by simp)]

/-- A forward pass over several tokens is one over the first, and one over the others. -/
theorem forward_cons {bound₁ bound₂ : ℕ} (h : pos ≤ bound) (h₁ : pos ≤ bound₁)
    (h₂ : pos + 1 ≤ bound₂) (t : T) (ts : List T) :
    forward row bound pos (t :: ts) kv =
      let first := forward row bound₁ pos [t] kv
      let rest := forward row bound₂ (pos + 1) ts first.2
      (first.1 ++ rest.1, rest.2) := by
  have hnext := below_forward row kv h₁ [t]
  rw [List.length_singleton] at hnext
  have hkv : (forward row bound₁ pos [t] kv).2 =
      Function.update kv pos (row (below kv pos) pos t).1 := by
    rw [forward, masked_eq_below kv h₁]
    funext i
    simp only [rows, List.map_cons, List.map_nil, write_cons]
    rw [write]
    split_ifs <;> rfl
  dsimp only
  rw [forward_fst row kv h₁]
  generalize hfirst : (forward row bound₁ pos [t] kv).2 = kv' at hnext hkv ⊢
  rw [forward, forward, masked_eq_below kv h, masked_eq_below kv' h₂, hnext, hkv]
  simp only [rows, feed, List.map_cons, List.map_nil, write_cons, List.cons_append,
    List.nil_append]

end StaticArena
