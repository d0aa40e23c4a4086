import Mathlib.Init

/-! Labelled runs of a transition relation. Every invariant of the development
is proved as one step lemma and lifted to whole runs by the rules below. -/
namespace KazuOS.Lib

/-- `Run step s es t`: the events `es`, taken in order, lead from `s` to `t`. -/
inductive Run (step : σ → ε → σ → Prop) : σ → List ε → σ → Prop where
  | nil (s : σ) : Run step s [] s
  | cons {s t u : σ} {e : ε} {es : List ε} (head : step s e t) (tail : Run step t es u) :
      Run step s (e :: es) u

namespace Run

variable {step : σ → ε → σ → Prop}

variable {es : List ε} {s t : σ}

theorem snoc {s t u : σ} {e : ε} (run : Run step s es t) (last : step t e u) :
    Run step s (es ++ [e]) u := by
  induction run with
  | nil s => exact .cons last (.nil u)
  | cons head _ ih => exact .cons head (ih last)

theorem append {s t u : σ} {es es' : List ε} (run : Run step s es t) (run' : Run step t es' u) :
    Run step s (es ++ es') u := by
  induction run with
  | nil s => exact run'
  | cons head _ ih => exact .cons head (ih run')

/-- The invariant rule: what every step preserves, every run preserves. -/
theorem preserves {I : σ → Prop} (preserved : ∀ s e t, I s → step s e t → I t)
    (run : Run step s es t) (initially : I s) : I t := by
  induction run with
  | nil s => exact initially
  | cons head _ ih => exact ih (preserved _ _ _ initially head)

/-- Induction on the last event, for statements about the events so far. -/
theorem snocInduction {s : σ} {motive : List ε → σ → Prop} (start : motive [] s)
    (next : ∀ es t e u, Run step s es t → motive es t → step t e u → motive (es ++ [e]) u)
    {t : σ} (run : Run step s es t) : motive es t := by
  have hlater : ∀ {t u : σ} {rest : List ε}, Run step t rest u → ∀ es, Run step s es t →
      motive es t → motive (es ++ rest) u := by
    intro t u rest later
    induction later with
    | nil t =>
      intro es _ hes
      rwa [List.append_nil]
    | cons head _ ih =>
      intro es sofar hes
      have hfrom := ih _ (sofar.snoc head) (next _ _ _ _ sofar hes head)
      rwa [List.append_assoc] at hfrom
  exact hlater run [] (.nil s) start

/-- A run of a finer step relation is a run of every coarser one. -/
theorem mono {coarse : σ → ε → σ → Prop} (finer : ∀ s e t, step s e t → coarse s e t)
    (run : Run step s es t) : Run coarse s es t := by
  induction run with
  | nil s => exact .nil s
  | cons head _ ih => exact .cons (finer _ _ _ head) ih

/-- In the states of an invariant a run may be one of a finer step relation. -/
theorem refine {fine : σ → ε → σ → Prop} {I : σ → Prop}
    (h : ∀ s e t, I s → step s e t → fine s e t ∧ I t)
    (run : Run step s es t) (initially : I s) : Run fine s es t := by
  induction run with
  | nil s => exact .nil s
  | cons head _ ih =>
    obtain ⟨hfine, hnext⟩ := h _ _ _ initially head
    exact .cons hfine (ih hnext)

/-- What is known of the events is known at each step. -/
theorem restrict {p : ε → Prop} (run : Run step s es t)
    (h : ∀ e ∈ es, p e) : Run (fun s e t => step s e t ∧ p e) s es t := by
  induction run with
  | nil s => exact .nil s
  | cons head _ ih =>
    rw [List.forall_mem_cons] at h
    exact .cons ⟨head, h.1⟩ (ih h.2)

/-- Executing a step function event by event is a run. -/
theorem of_foldlM {next : σ → ε → Option σ}
    (h : es.foldlM next s = some t) : Run (fun s e t => next s e = some t) s es t := by
  induction es generalizing s with
  | nil =>
    cases h
    exact .nil _
  | cons e es ih =>
    rw [List.foldlM_cons] at h
    obtain ⟨u, hu, hrest⟩ := Option.bind_eq_some_iff.mp h
    exact .cons hu (ih hrest)

end Run

/-! Executions of a total step function. -/

section Execution

variable (next : σ → ε → σ)

/-- A property of every state an execution passes through. -/
def Always (P : σ → Prop) : σ → List ε → Prop
  | s, [] => P s
  | s, e :: es => P s ∧ Always P (next s e) es

/-- A condition that every step of an execution meets in the state before it. -/
def EachStep (C : σ → ε → Prop) : σ → List ε → Prop
  | _, [] => True
  | s, e :: es => C s e ∧ EachStep C (next s e) es

variable {next}

/-- A property that a step preserves exactly under a condition holds throughout an execution
exactly if every step meets the condition. -/
theorem always_iff_eachStep {I P : σ → Prop} {C : σ → ε → Prop}
    (hinv : ∀ s e, I s → I (next s e)) (hstep : ∀ s e, I s → P s → (P (next s e) ↔ C s e))
    {s : σ} (hs : I s) (hP : P s) (es : List ε) : Always next P s es ↔ EachStep next C s es := by
  induction es generalizing s with
  | nil => exact iff_of_true hP trivial
  | cons e es ih =>
    simp only [Always, EachStep, ← hstep s e hs hP, hP, true_and]
    constructor
    · intro h
      have hnext : P (next s e) := by
        cases es with
        | nil => exact h
        | cons e' es => exact h.1
      exact ⟨hnext, (ih (hinv s e hs) hnext).mp h⟩
    · rintro ⟨hnext, h⟩
      exact (ih (hinv s e hs) hnext).mpr h

/-- Conditions that agree while an invariant holds agree throughout an execution. -/
theorem eachStep_congr {I : σ → Prop} {C C' : σ → ε → Prop} (hinv : ∀ s e, I s → I (next s e))
    (h : ∀ s e, I s → (C s e ↔ C' s e)) {s : σ} (hs : I s) (es : List ε) :
    EachStep next C s es ↔ EachStep next C' s es := by
  induction es generalizing s with
  | nil => exact Iff.rfl
  | cons e es ih => simp only [EachStep, h s e hs, ih (hinv s e hs)]

end Execution

end KazuOS.Lib
