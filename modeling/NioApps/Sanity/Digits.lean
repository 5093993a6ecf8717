import NioApps.Lib.Numeral
import NioApps.Spec.Commands

/-! Strings of decimal digits and their values. -/

namespace NioApps.Commands

open Numeral

/-- A non-empty string of decimal digits. -/
def Decimal (s : List Byte) : Prop := s ≠ [] ∧ ∀ c ∈ s, isDigit c = true

instance (s : List Byte) : Decidable (Decimal s) := inferInstanceAs (Decidable (_ ∧ _))

/-- The value of a digit string that follows digits with value `v`. -/
def valueFrom (v : ℕ) (s : List Byte) : ℕ := s.foldl (fun v c => v * 10 + (c.toNat - 0x30)) v

def value (s : List Byte) : ℕ := valueFrom 0 s

/-- The value of a digit. -/
def digitOf (c : Byte) : ℕ := c.toNat - 0x30

theorem valueFrom_eq (v : ℕ) (s : List Byte) : valueFrom v s = horner 10 digitOf v s := rfl

theorem isDigit_iff {c : Byte} : isDigit c = true ↔ 0x30 ≤ c.toNat ∧ c.toNat ≤ 0x39 := by
  rw [isDigit, decide_eq_true_iff, BitVec.le_def, BitVec.le_def]
  rfl

/-- `c - '0'` for a digit. -/
theorem toNat_sub_zero {c : Byte} (h : isDigit c = true) : (c - 0x30).toNat = digitOf c := by
  rw [isDigit_iff] at h
  have h30 : (0x30 : Byte).toNat = 0x30 := rfl
  have hle : (0x30 : Byte) ≤ c := by
    rw [BitVec.le_def, h30]
    exact h.1
  rw [BitVec.toNat_sub_of_le hle, h30, digitOf]

theorem digitOf_le {c : Byte} (h : isDigit c = true) : digitOf c ≤ 9 := by
  rw [isDigit_iff] at h
  unfold digitOf
  omega

theorem parseDigits_some {w : ℕ} {s : List Byte} (h : ∀ c ∈ s, isDigit c = true) (v : ℕ) :
    parseDigits (BitVec.ofNat w v) s = some (BitVec.ofNat w (valueFrom v s)) := by
  induction s generalizing v with
  | nil => rfl
  | cons c s ih =>
    have hstep : BitVec.ofNat w v * 10 + BitVec.ofNat w (c.toNat - 0x30) = BitVec.ofNat w (v * 10 + (c.toNat - 0x30)) := by
      rw [BitVec.ofNat_add, BitVec.ofNat_mul]
      rfl
    rw [parseDigits, if_pos (h c List.mem_cons_self), hstep, ih fun d hd => h d (List.mem_cons_of_mem c hd)]
    rfl

theorem parseDigits_none {w : ℕ} {s : List Byte} (h : ¬∀ c ∈ s, isDigit c = true) (v : BitVec w) :
    parseDigits v s = none := by
  induction s generalizing v with
  | nil => simp at h
  | cons c s ih =>
    rw [parseDigits]
    split_ifs with hc
    · exact ih (fun hs => h (List.forall_mem_cons.2 ⟨hc, hs⟩)) _
    · rfl

end NioApps.Commands
