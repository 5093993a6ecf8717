import Mathlib.Tactic
import Mathlib.Data.Nat.ModEq

/-! One's-complement sums: numbers up to `M`, added with the carry out of `M` brought
around. Such a sum is 0 if all its terms are, and else the one number of 1, …, `M` that
is congruent to the sum of the terms. So it does not depend on their order, and a change
of one term changes it, except for a change between 0 and `M`. -/

namespace NioApps.OnesComplement

variable {M : ℕ}

/-- The value of a one's-complement sum whose terms add up to `n`. -/
def wrap (M n : ℕ) : ℕ := if n = 0 then 0 else (n - 1) % M + 1

def add (M a b : ℕ) : ℕ := if a + b ≤ M then a + b else a + b - M

@[simp] theorem wrap_zero : wrap M 0 = 0 := rfl

@[simp] theorem wrap_eq_zero {n : ℕ} : wrap M n = 0 ↔ n = 0 := by
  unfold wrap
  split_ifs with h
  · simp [h]
  · simp [h]

theorem wrap_of_le {n : ℕ} (h : n ≤ M) : wrap M n = n := by
  unfold wrap
  split_ifs with h0
  · exact h0.symm
  · rw [Nat.mod_eq_of_lt (by omega), Nat.sub_add_cancel (by omega)]

theorem wrap_add_self {n : ℕ} (h : n ≠ 0) : wrap M (n + M) = wrap M n := by
  unfold wrap
  rw [if_neg h, if_neg (by omega), Nat.sub_add_comm (by omega), Nat.add_mod_right]

theorem wrap_modEq (n : ℕ) : wrap M n ≡ n [MOD M] := by
  unfold wrap
  split_ifs with h
  · rw [h]
  · have hmod := (Nat.mod_modEq (n - 1) M).add_right 1
    rwa [Nat.sub_add_cancel (by omega)] at hmod

theorem wrap_le (hM : 0 < M) (n : ℕ) : wrap M n ≤ M := by
  unfold wrap
  split_ifs
  · exact Nat.zero_le M
  · exact Nat.mod_lt _ hM

/-- One end-around carry is enough. -/
theorem add_eq_wrap {a b : ℕ} (ha : a ≤ M) (hb : b ≤ M) : add M a b = wrap M (a + b) := by
  unfold add
  split_ifs with h
  · exact (wrap_of_le h).symm
  · obtain ⟨n, hn⟩ := Nat.exists_eq_add_of_lt (not_le.1 h)
    have hsum : a + b = (n + 1) + M := by omega
    rw [hsum, Nat.add_sub_cancel, wrap_add_self (Nat.succ_ne_zero n), wrap_of_le (by omega)]

/-- A sum of sums. -/
theorem wrap_wrap_add (m n : ℕ) : wrap M (wrap M m + n) = wrap M (m + n) := by
  by_cases hm : m = 0
  · rw [hm, wrap_zero]
  · have hpos : wrap M m ≠ 0 := mt wrap_eq_zero.1 hm
    have hmod : wrap M m + n - 1 ≡ m + n - 1 [MOD M] := by
      have h := (wrap_modEq (M := M) m).add_right n
      refine Nat.ModEq.add_right_cancel' 1 ?_
      rwa [Nat.sub_add_cancel (by omega), Nat.sub_add_cancel (by omega)]
    generalize wrap M m = k at hpos hmod
    unfold wrap
    rw [if_neg (by omega), if_neg (by omega), hmod]

theorem foldl_add (hM : 0 < M) {l : List ℕ} (hl : ∀ b ∈ l, b ≤ M) (n : ℕ) :
    l.foldl (add M) (wrap M n) = wrap M (n + l.sum) := by
  induction l generalizing n with
  | nil => rfl
  | cons b l ih =>
    rw [List.forall_mem_cons] at hl
    rw [List.foldl_cons, add_eq_wrap (wrap_le hM n) hl.1, wrap_wrap_add, ih hl.2, List.sum_cons, Nat.add_assoc]

/-- A term that changes, but not between 0 and `M`, changes the sum. -/
theorem wrap_ne {s x y : ℕ} (hx : x ≤ M) (hy : y ≤ M) (hne : x ≠ y) (h : ¬(x = 0 ∧ y = M)) (h' : ¬(x = M ∧ y = 0)) :
    wrap M (s + x) ≠ wrap M (s + y) := by
  intro heq
  have hmod : x ≡ y [MOD M] := by
    refine Nat.ModEq.add_left_cancel' s ?_
    exact (wrap_modEq _).symm.trans (heq ▸ wrap_modEq _)
  rcases Nat.lt_or_gt_of_ne hne with hlt | hlt
  · have hdvd : M ∣ y - x := (Nat.modEq_iff_dvd' hlt.le).1 hmod
    have hle := Nat.le_of_dvd (by omega) hdvd
    omega
  · have hdvd : M ∣ x - y := (Nat.modEq_iff_dvd' hlt.le).1 hmod.symm
    have hle := Nat.le_of_dvd (by omega) hdvd
    omega

end NioApps.OnesComplement
