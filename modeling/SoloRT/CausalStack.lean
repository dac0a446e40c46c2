import SoloRT.StaticArena

/-!
# Stacks of causal layers

A causal layer computes, for a state at a position, the entry that later positions see (`entry`),
and the next state from the entries up to its own (`mix`). A token goes through all layers of a
stack one after the other (`row`), and its cache entry is the list of its entries in the layers.

A forward pass over several tokens goes the other way : each layer takes all tokens before the
next layer takes any, and has an arena of its own (`forwardLayers`). Both orders do the same
(`forwardLayers_eq`), because what a layer does with a token depends on the states that the layer
below leaves to this token and the ones before it.
-/

/-- A layer of a causal decoder. -/
structure CausalLayer (X K : Type*) where
  entry : ℕ → X → K
  mix : ℕ → List K → X → X

namespace CausalLayer

variable {X K : Type*}

/-- What a layer does with a state, from the entries before it. -/
def row (layer : CausalLayer X K) (visible : List (ℕ × K)) (pos : ℕ) (x : X) : K × X :=
  let k := layer.entry pos x
  (k, layer.mix pos (visible.map Prod.snd ++ [k]) x)

/-- Tokens fed to one layer. Each sees the entries before it, and those of the tokens up to it. -/
theorem rows_row (layer : CausalLayer X K) (visible : List (ℕ × K)) (pos : ℕ) (xs : List X) :
    StaticArena.rows layer.row visible pos xs = xs.mapIdx fun i x =>
      (layer.entry (pos + i) x, layer.mix (pos + i) (visible.map Prod.snd ++
        (xs.mapIdx fun j y => layer.entry (pos + j) y).take (i + 1)) x) := by
  induction xs generalizing visible pos with
  | nil => rfl
  | cons x xs ih =>
    have hpos : ∀ i, pos + 1 + i = pos + (i + 1) := fun i => by omega
    simp only [StaticArena.rows, ih, List.mapIdx_cons, List.map_append, List.map_cons,
      List.map_nil, List.append_assoc, List.singleton_append, hpos, List.take_succ_cons,
      List.take_zero]
    rfl

end CausalLayer

namespace CausalStack

variable {X K : Type*}

/-- The entries of the lowest layer. -/
def heads (visible : List (ℕ × List K)) : List (ℕ × K) :=
  visible.filterMap fun e => e.2.head?.map (e.1, ·)

/-- The entries of the other layers. -/
def tails (visible : List (ℕ × List K)) : List (ℕ × List K) :=
  visible.map fun e => (e.1, e.2.tail)

/-- A state goes through all layers. -/
def row : List (CausalLayer X K) → List (ℕ × List K) → ℕ → X → List K × X
  | [], _, _, x => ([], x)
  | layer :: layers, visible, pos, x =>
    let (k, x) := layer.row (heads visible) pos x
    let (ks, x) := row layers (tails visible) pos x
    (k :: ks, x)

@[simp] theorem heads_append (visible visible' : List (ℕ × List K)) :
    heads (visible ++ visible') = heads visible ++ heads visible' :=
  List.filterMap_append

@[simp] theorem tails_append (visible visible' : List (ℕ × List K)) :
    tails (visible ++ visible') = tails visible ++ tails visible' :=
  List.map_append

@[simp] theorem heads_singleton (pos : ℕ) (k : K) (ks : List K) :
    heads [(pos, k :: ks)] = [(pos, k)] := rfl

@[simp] theorem tails_singleton (pos : ℕ) (ks : List K) :
    tails [(pos, ks)] = [(pos, ks.tail)] := rfl

/-! ## Token by token and layer by layer -/

/-- The states that the lowest layer leaves go on through the others. -/
theorem rows_cons (layer : CausalLayer X K) (layers : List (CausalLayer X K))
    (visible : List (ℕ × List K)) (pos : ℕ) (xs : List X) :
    StaticArena.rows (row (layer :: layers)) visible pos xs =
      List.zipWith (fun r s => (r.1 :: s.1, s.2))
        (StaticArena.rows layer.row (heads visible) pos xs)
        (StaticArena.rows (row layers) (tails visible) pos
          ((StaticArena.rows layer.row (heads visible) pos xs).map Prod.snd)) := by
  induction xs generalizing visible pos with
  | nil => rfl
  | cons x xs ih =>
    simp only [StaticArena.rows, List.map_cons, List.zipWith_cons_cons, ih, heads_append,
      tails_append]
    rfl

/-- A forward pass : each layer takes all states, and writes their entries to its own arena. -/
def forwardLayers (bound pos : ℕ) :
    List (CausalLayer X K) → List (ℕ → K) → List X → List X × List (ℕ → K)
  | layer :: layers, arena :: arenas, xs =>
    let (xs, arena) := StaticArena.forward layer.row bound pos xs arena
    let (xs, arenas) := forwardLayers bound pos layers arenas xs
    (xs, arena :: arenas)
  | _, arenas, xs => (xs, arenas)

theorem length_forwardLayers (bound pos : ℕ) : ∀ (layers : List (CausalLayer X K))
    (arenas : List (ℕ → K)) (xs : List X),
    (forwardLayers bound pos layers arenas xs).2.length = arenas.length
  | [], [], xs => rfl
  | [], arena :: arenas, xs => rfl
  | layer :: layers, [], xs => rfl
  | layer :: layers, arena :: arenas, xs => by
    simp only [forwardLayers, List.length_cons, length_forwardLayers bound pos layers arenas]

/-- The entries of a position in the arenas of all layers. -/
def entries (arenas : List (ℕ → K)) (pos : ℕ) : List K :=
  arenas.map (· pos)

theorem entries_injective : Function.Injective (entries : List (ℕ → K) → ℕ → List K) := by
  intro arenas arenas' h
  have hlen : arenas.length = arenas'.length := by
    simpa [entries] using congrArg List.length (congrFun h 0)
  refine List.ext_getElem hlen fun j hj hj' => funext fun pos => ?_
  have hpos := congrArg (·[j]?) (congrFun h pos)
  simpa [entries, List.getElem?_eq_getElem hj, List.getElem?_eq_getElem hj'] using hpos

theorem heads_masked (arena : ℕ → K) (arenas : List (ℕ → K)) (bound pos : ℕ) :
    heads (StaticArena.masked (entries (arena :: arenas)) bound pos) =
      StaticArena.masked arena bound pos := by
  simp [heads, StaticArena.masked, entries, List.filterMap_map, Function.comp_def]

theorem tails_masked (arena : ℕ → K) (arenas : List (ℕ → K)) (bound pos : ℕ) :
    tails (StaticArena.masked (entries (arena :: arenas)) bound pos) =
      StaticArena.masked (entries arenas) bound pos := by
  simp [tails, StaticArena.masked, entries, Function.comp_def]

/-- Writing to the arena of a layer and to those of the others. -/
theorem entries_write (arena : ℕ → K) (arenas arenas' : List (ℕ → K)) (pos : ℕ) {ks : List K}
    {kss : List (List K)} (hlen : ks.length = kss.length)
    (h : entries arenas' = StaticArena.write (entries arenas) pos kss) :
    entries (StaticArena.write arena pos ks :: arenas') =
      StaticArena.write (entries (arena :: arenas)) pos (List.zipWith (· :: ·) ks kss) := by
  funext i
  have hi : entries (StaticArena.write arena pos ks :: arenas') i =
      StaticArena.write arena pos ks i :: entries arenas' i := rfl
  rw [hi, h]
  unfold StaticArena.write
  split_ifs with hlt
  · rfl
  · rw [List.getElem?_zipWith]
    by_cases hin : i - pos < ks.length
    · rw [List.getElem?_eq_getElem hin, List.getElem?_eq_getElem (hlen ▸ hin)]
      rfl
    · rw [List.getElem?_eq_none (not_lt.1 hin), List.getElem?_eq_none (hlen ▸ not_lt.1 hin)]
      rfl

theorem rows_nil (visible : List (ℕ × List K)) (pos : ℕ) (xs : List X) :
    StaticArena.rows (row []) visible pos xs = xs.map fun x => ([], x) := by
  induction xs generalizing visible pos with
  | nil => rfl
  | cons x xs ih =>
    rw [StaticArena.rows, ih]
    rfl

/-- A forward pass leaves the states and the entries of its tokens fed one after the other. -/
theorem forwardLayers_eq (bound pos : ℕ) : ∀ (layers : List (CausalLayer X K))
    (arenas : List (ℕ → K)) (xs : List X), arenas.length = layers.length →
    ((forwardLayers bound pos layers arenas xs).1,
        entries (forwardLayers bound pos layers arenas xs).2) =
      StaticArena.forward (row layers) bound pos xs (entries arenas)
  | [], [], xs, _ => by
    have hwrite : StaticArena.write (entries []) pos (xs.map fun _ => ([] : List K)) =
        entries [] := by
      funext i
      unfold StaticArena.write
      split_ifs
      · rfl
      · rw [List.getElem?_map]
        cases xs[i - pos]? <;> rfl
    simp only [forwardLayers, StaticArena.forward, rows_nil, List.map_map, Function.comp_def,
      List.map_id', hwrite]
  | layer :: layers, arena :: arenas, xs, h => by
    have hrest := forwardLayers_eq bound pos layers arenas
      (StaticArena.forward layer.row bound pos xs arena).1 (Nat.succ.inj h)
    obtain ⟨hstates, hentries⟩ := Prod.mk.inj hrest
    simp only [forwardLayers, hstates]
    simp only [StaticArena.forward, rows_cons, heads_masked, tails_masked] at hentries ⊢
    generalize hrs : StaticArena.rows layer.row (StaticArena.masked arena bound pos) pos xs = rs
      at hentries ⊢
    generalize hss : StaticArena.rows (row layers) (StaticArena.masked (entries arenas) bound pos)
      pos (rs.map Prod.snd) = ss at hentries ⊢
    have hlen : rs.length = ss.length := by
      rw [← hss, StaticArena.length_rows, List.length_map]
    have hsnd : List.zipWith (fun (_ : K × X) s => s.2) rs ss = ss.map Prod.snd :=
      List.ext_getElem (by simp [hlen]) (by simp)
    rw [entries_write arena arenas _ pos (by simpa using hlen) hentries, List.map_zipWith,
      List.map_zipWith, List.zipWith_map, hsnd]

end CausalStack
