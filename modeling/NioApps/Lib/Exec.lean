import Mathlib.Tactic

/-! Runs of a deterministic machine: a state, a list of inputs, and one output
for each input. Invariants and facts about single steps are lifted to whole
runs here once. -/

namespace NioApps

/-- A machine with inputs `ι` and outputs `ο`. -/
structure Machine (σ ι ο : Type*) where
  step : ι → σ → ο × σ

namespace Machine

variable {σ ι ο : Type*} (m : Machine σ ι ο)

/-- The state after the inputs `is`. -/
def final (s : σ) : List ι → σ
  | [] => s
  | i :: is => final (m.step i s).2 is

/-- The outputs of the inputs `is`, in order. -/
def outputs (s : σ) : List ι → List ο
  | [] => []
  | i :: is => (m.step i s).1 :: outputs (m.step i s).2 is

@[simp] theorem final_nil (s : σ) : m.final s [] = s := rfl

@[simp] theorem final_cons (s : σ) (i : ι) (is : List ι) :
    m.final s (i :: is) = m.final (m.step i s).2 is := rfl

@[simp] theorem outputs_nil (s : σ) : m.outputs s [] = [] := rfl

@[simp] theorem outputs_cons (s : σ) (i : ι) (is : List ι) :
    m.outputs s (i :: is) = (m.step i s).1 :: m.outputs (m.step i s).2 is := rfl

theorem final_append (s : σ) (is js : List ι) : m.final s (is ++ js) = m.final (m.final s is) js := by
  induction is generalizing s with
  | nil => rfl
  | cons i is ih => exact ih _

theorem outputs_append (s : σ) (is js : List ι) :
    m.outputs s (is ++ js) = m.outputs s is ++ m.outputs (m.final s is) js := by
  induction is generalizing s with
  | nil => rfl
  | cons i is ih => simp only [List.cons_append, outputs_cons, final_cons, ih]

@[simp] theorem length_outputs (s : σ) (is : List ι) : (m.outputs s is).length = is.length := by
  induction is generalizing s with
  | nil => rfl
  | cons i is ih => simp only [outputs_cons, List.length_cons, ih]

/-- A property that every step keeps holds after every run. -/
theorem final_invariant {P : σ → Prop} (hstep : ∀ i s, P s → P (m.step i s).2) {s : σ} (h : P s)
    (is : List ι) : P (m.final s is) := by
  induction is generalizing s with
  | nil => exact h
  | cons i is ih => exact ih (hstep i s h)

/-- A relation between the state and the outputs so far that every step
extends relates the final state and all outputs. -/
theorem run_relation {R : σ → List ο → Prop}
    (hstep : ∀ i s os, R s os → R (m.step i s).2 (os ++ [(m.step i s).1]))
    {s : σ} {os : List ο} (h : R s os) (is : List ι) : R (m.final s is) (os ++ m.outputs s is) := by
  induction is generalizing s os with
  | nil => simpa using h
  | cons i is ih =>
    have := ih (hstep i s os h)
    simpa [List.append_assoc] using this

end Machine

end NioApps
