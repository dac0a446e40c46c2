import Mathlib.Data.List.Induction
import Mathlib.Data.Prod.Lex

/-!
# Runs of a step function

A deterministic machine is a step function `S → E → S` on states and events. A run is
the fold of the step function over a list of events. `Along` says that every step of a
run meets a condition on the state it starts from and on its event, `Sometime` that some step
does, and `outputs` collects what its steps put out.

`run_invariant` carries an invariant over a run whose steps meet a condition.
`run_history_induction` is the same with an invariant that also reads the events so far,
for ghost quantities such as a count of past steps. `forall_prefix_iff_along` turns an exact
condition on one step into one on whole runs, `forall_prefix_iff_along_of_le` also when the law
that the steps keep is stronger than the one in question. `run_replicate_settles` is the rule for
an event that is repeated : if it lowers a measure until nothing is left to do, the run settles.
-/

namespace Transition

variable {S E : Type*} (step : S → E → S)

/-- The state after the events `es`, taken in order from `s`. -/
def run (s : S) (es : List E) : S :=
  es.foldl step s

@[simp] theorem run_nil (s : S) : run step s [] = s :=
  rfl

@[simp] theorem run_cons (s : S) (e : E) (es : List E) :
    run step s (e :: es) = run step (step s e) es :=
  rfl

theorem run_append (s : S) (es es' : List E) :
    run step s (es ++ es') = run step (run step s es) es' :=
  List.foldl_append

theorem run_concat (s : S) (es : List E) (e : E) :
    run step s (es ++ [e]) = step (run step s es) e := by
  rw [run_append, run_cons, run_nil]

/-- What the steps of a run put out, in order. -/
def outputs {O : Type*} (out : S → E → List O) : S → List E → List O
  | _, [] => []
  | s, e :: es => out s e ++ outputs out (step s e) es

theorem outputs_concat {O : Type*} (out : S → E → List O) (s : S) (es : List E) (e : E) :
    outputs step out s (es ++ [e]) = outputs step out s es ++ out (run step s es) e := by
  induction es generalizing s with
  | nil => simp [outputs]
  | cons e' es ih => simp [outputs, ih, List.append_assoc]

/-- Every step of the run of `es` from `s` meets `P`. -/
def Along (P : S → E → Prop) : S → List E → Prop
  | _, [] => True
  | s, e :: es => P s e ∧ Along P (step s e) es

/-- Some step of the run of `es` from `s` meets `P`. -/
def Sometime (P : S → E → Prop) : S → List E → Prop
  | _, [] => False
  | s, e :: es => P s e ∨ Sometime P (step s e) es

/-- A condition that can be decided at each step can be decided along a run. -/
instance decidableAlong (P : S → E → Prop) [∀ s e, Decidable (P s e)] :
    (s : S) → (es : List E) → Decidable (Along step P s es)
  | _, [] => .isTrue trivial
  | s, e :: es =>
    letI := decidableAlong P (step s e) es
    inferInstanceAs (Decidable (P s e ∧ Along step P (step s e) es))

variable {step}

theorem along_append {P : S → E → Prop} {s : S} {es es' : List E} :
    Along step P s (es ++ es') ↔ Along step P s es ∧ Along step P (run step s es) es' := by
  induction es generalizing s with
  | nil => simp [Along]
  | cons e es ih => simp [Along, ih, and_assoc]

theorem along_concat {P : S → E → Prop} {s : S} {es : List E} {e : E} :
    Along step P s (es ++ [e]) ↔ Along step P s es ∧ P (run step s es) e := by
  simp [along_append, Along]

theorem sometime_concat {P : S → E → Prop} {s : S} {es : List E} {e : E} :
    Sometime step P s (es ++ [e]) ↔ Sometime step P s es ∨ P (run step s es) e := by
  induction es generalizing s with
  | nil => simp [Sometime]
  | cons e' es ih => simp [Sometime, ih, or_assoc]

theorem along_true (s : S) (es : List E) : Along step (fun _ _ => True) s es := by
  induction es generalizing s with
  | nil => trivial
  | cons e es ih => exact ⟨trivial, ih _⟩

theorem along_mono {P Q : S → E → Prop} (hPQ : ∀ s e, P s e → Q s e) {s : S} {es : List E}
    (h : Along step P s es) : Along step Q s es := by
  induction es generalizing s with
  | nil => trivial
  | cons e es ih => exact ⟨hPQ s e h.1, ih h.2⟩

/-- An invariant of the steps that meet `P` holds at the end of a run of such steps. -/
theorem run_invariant {I : S → Prop} {P : S → E → Prop}
    (hstep : ∀ s e, I s → P s e → I (step s e)) {s : S} {es : List E} (hs : I s)
    (h : Along step P s es) : I (run step s es) := by
  induction es generalizing s with
  | nil => exact hs
  | cons e es ih => exact ih (hstep s e hs h.1) h.2

/-- An invariant of every step holds at the end of every run. -/
theorem run_invariant' {I : S → Prop} (hstep : ∀ s e, I s → I (step s e)) {s : S}
    (es : List E) (hs : I s) : I (run step s es) := by
  induction es generalizing s with
  | nil => exact hs
  | cons e es ih => exact ih (hstep s e hs)

/-- Let `K` be a law, stronger than `I`, that the steps in `P` keep, and let every other step
from a state with `K` break `I`. Then all states of a run obey `I` exactly when all its steps
meet `P`. The invariant `J` holds at every state. -/
theorem forall_prefix_iff_along_of_le {I J K : S → Prop} {P : S → E → Prop}
    (hJ : ∀ s e, J s → J (step s e)) (hKI : ∀ s, K s → I s)
    (hkeep : ∀ s e, J s → K s → P s e → K (step s e))
    (hbreak : ∀ s e, J s → K s → I (step s e) → P s e) {s : S} (hs : J s) (hK : K s)
    (es : List E) : (∀ es', es' <+: es → I (run step s es')) ↔ Along step P s es := by
  induction es generalizing s with
  | nil => simp [Along, List.prefix_nil, hKI s hK]
  | cons e es ih =>
    constructor
    · intro h
      have hP : P s e := hbreak s e hs hK (h [e] (by simp))
      exact ⟨hP, (ih (hJ s e hs) (hkeep s e hs hK hP)).1 fun es' hes =>
        h (e :: es') (List.prefix_cons_inj e |>.2 hes)⟩
    · rintro ⟨hP, halong⟩ es' hes
      cases es' with
      | nil => exact hKI s hK
      | cons e' es' =>
        obtain ⟨rfl, hes'⟩ := List.cons_prefix_cons.1 hes
        exact (ih (hJ s e' hs) (hkeep s e' hs hK hP)).2 halong es' hes'

/-- Let `P` be, at the states where the invariant `J` and the law `I` hold, exactly the
steps that keep `I`. Then all states of a run obey `I` exactly when all its steps meet `P`. -/
theorem forall_prefix_iff_along {I J : S → Prop} {P : S → E → Prop}
    (hJ : ∀ s e, J s → J (step s e)) (hP : ∀ s e, J s → I s → (I (step s e) ↔ P s e))
    {s : S} (hs : J s) (hI : I s) (es : List E) :
    (∀ es', es' <+: es → I (run step s es')) ↔ Along step P s es :=
  forall_prefix_iff_along_of_le hJ (fun _ h => h) (fun s e hs hI => (hP s e hs hI).2)
    (fun s e hs hI => (hP s e hs hI).1) hs hI es

/-- A state that no event leaves. -/
theorem run_of_fixed {s : S} (h : ∀ e, step s e = s) (es : List E) : run step s es = s := by
  induction es with
  | nil => rfl
  | cons e es ih => rw [run_cons, h, ih]

theorem run_replicate_of_fixed {s : S} {e : E} (h : step s e = s) (n : ℕ) :
    run step s (List.replicate n e) = s := by
  induction n with
  | zero => rfl
  | succ n ih => rw [List.replicate_succ, run_cons, h, ih]

/-- An event that lowers a measure with every step until the state is `Done`, and leaves such a
state alone, leads to one if it is repeated often enough. -/
theorem run_replicate_settles {β : Type*} [Preorder β] [WellFoundedLT β] {I Done : S → Prop}
    {e : E} (m : S → β) (hstep : ∀ s, I s → I (step s e))
    (hdec : ∀ s, I s → Done s ∧ step s e = s ∨ m (step s e) < m s) {s : S} (hs : I s) :
    ∃ N t, I t ∧ Done t ∧ ∀ n ≥ N, run step s (List.replicate n e) = t := by
  induction hm : m s using WellFoundedLT.induction generalizing s with
  | _ b ih =>
    rcases hdec s hs with ⟨hdone, hfixed⟩ | hlt
    · exact ⟨0, s, hs, hdone, fun n _ => run_replicate_of_fixed hfixed n⟩
    · obtain ⟨N, t, ht, hdone, hrun⟩ := ih _ (hm ▸ hlt) (hstep s hs) rfl
      refine ⟨N + 1, t, ht, hdone, fun n hn => ?_⟩
      obtain ⟨k, rfl⟩ : ∃ k, n = k + 1 := ⟨n - 1, by omega⟩
      rw [List.replicate_succ, run_cons]
      exact hrun k (by omega)

/-- Induction on a run from its start, for a property of the events so far and the state
they lead to. -/
theorem run_history_induction {motive : List E → S → Prop} {s : S} (hnil : motive [] s)
    (hstep : ∀ es e, motive es (run step s es) →
      motive (es ++ [e]) (step (run step s es) e)) (es : List E) :
    motive es (run step s es) := by
  induction es using List.reverseRecOn with
  | nil => exact hnil
  | append_singleton es e ih =>
    rw [run_concat]
    exact hstep es e ih

/-- A state that some run from `s` ends in. -/
def Reachable (step : S → E → S) (s t : S) : Prop :=
  ∃ es, run step s es = t

/-- An invariant of every step holds at every reachable state. -/
theorem Reachable.invariant {I : S → Prop} {s t : S} (h : Reachable step s t) (hs : I s)
    (hstep : ∀ s e, I s → I (step s e)) : I t := by
  obtain ⟨es, rfl⟩ := h
  exact run_invariant' hstep es hs

end Transition
