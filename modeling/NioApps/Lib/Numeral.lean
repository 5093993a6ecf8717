import Mathlib.Tactic

/-! Numbers read digit by digit from the left, by a reader that may refuse a digit. A
`Guarded` reader is exact for as long as it goes on, never gets above `cap`, and refuses a
digit only when the number is above `max` with it; so it reads every number up to `max`. -/

namespace NioApps.Numeral

variable {α σ : Type} {isDigit : α → Prop} {digit : α → ℕ} {base max cap : ℕ}

/-- The value of the digits `s` behind digits with value `v`. -/
def horner (base : ℕ) (digit : α → ℕ) (v : ℕ) (s : List α) : ℕ := s.foldl (fun v c => v * base + digit c) v

theorem horner_cons (v : ℕ) (c : α) (s : List α) : horner base digit v (c :: s) = horner base digit (v * base + digit c) s :=
  rfl

/-- More digits do not make a number smaller. -/
theorem le_horner (hbase : 0 < base) (v : ℕ) (s : List α) : v ≤ horner base digit v s := by
  induction s generalizing v with
  | nil => exact le_rfl
  | cons c s ih =>
    rw [horner_cons]
    have hstep : v ≤ v * base + digit c := (Nat.le_mul_of_pos_right v hbase).trans (Nat.le_add_right _ _)
    exact hstep.trans (ih _)

/-- A reader with the state `σ`, in which `val` is the number so far. -/
structure Guarded (step : σ → α → Option σ) (val : σ → ℕ) (isDigit : α → Prop) (digit : α → ℕ) (base max cap : ℕ) :
    Prop where
  base_pos : 0 < base
  exact : ∀ {v c v'}, step v c = some v' → isDigit c ∧ val v' = val v * base + digit c ∧ val v' ≤ cap
  refuses : ∀ {v c}, step v c = none → isDigit c → max < val v * base + digit c

section Run

variable {step : σ → α → Option σ} {val : σ → ℕ} (h : Guarded step val isDigit digit base max cap)

include h

theorem Guarded.read {s : List α} {v v' : σ} (hs : s.foldlM step v = some v') (hv : val v ≤ cap) :
    (∀ c ∈ s, isDigit c) ∧ val v' = horner base digit (val v) s ∧ val v' ≤ cap := by
  induction s generalizing v with
  | nil =>
    rw [List.foldlM_nil] at hs
    cases hs
    exact ⟨by simp, rfl, hv⟩
  | cons c s ih =>
    rw [List.foldlM_cons] at hs
    obtain ⟨v₁, hstep, hrest⟩ := Option.bind_eq_some_iff.1 hs
    obtain ⟨hdigit, hval, hcap⟩ := h.exact hstep
    obtain ⟨hdigits, hlast, hle⟩ := ih hrest hcap
    refine ⟨List.forall_mem_cons.2 ⟨hdigit, hdigits⟩, ?_, hle⟩
    rw [hlast, hval, horner_cons]

theorem Guarded.refused {s : List α} {v : σ} (hs : s.foldlM step v = none) (hdigits : ∀ c ∈ s, isDigit c) :
    max < horner base digit (val v) s := by
  induction s generalizing v with
  | nil =>
    rw [List.foldlM_nil] at hs
    cases hs
  | cons c s ih =>
    rw [List.foldlM_cons] at hs
    rw [List.forall_mem_cons] at hdigits
    rw [horner_cons]
    cases hstep : step v c with
    | none => exact (h.refuses hstep hdigits.1).trans_le (le_horner h.base_pos _ _)
    | some v₁ =>
      have hrest : s.foldlM step v₁ = none := Option.bind_eq_none_iff.1 hs v₁ hstep
      rw [← (h.exact hstep).2.1]
      exact ih hrest hdigits.2

end Run

end NioApps.Numeral
