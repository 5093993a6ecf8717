import NioApps.Sanity.Digits
import NioApps.Spec.Arguments

/-! The two portable parsers of numbers read every string exactly. Both test the number
before they append a digit, so that it never leaves its 16 bits. -/

namespace NioApps.Commands

open Numeral

/-- A digit is appended without a carry out of the word. -/
theorem toNat_append {v : Word} {c : Byte} (hc : isDigit c = true) (hv : v.toNat ≤ 409) :
    (v * 10 + (c - 0x30).setWidth 16).toNat = v.toNat * 10 + digitOf c := by
  have hle := digitOf_le hc
  have h10 : (10 : Word).toNat = 10 := rfl
  rw [BitVec.toNat_add, BitVec.toNat_mul, BitVec.toNat_setWidth, toNat_sub_zero hc, h10]
  omega

section Readers

variable {step : Word → Byte → Option Word} {max cap : ℕ}
  (h : Guarded step BitVec.toNat (isDigit · = true) digitOf 10 max cap) {s : List Byte}

include h

theorem guarded_value {v : Word} (hread : s.foldlM step 0 = some v) :
    (∀ c ∈ s, isDigit c = true) ∧ v.toNat = value s ∧ v.toNat ≤ cap := by
  rw [value, valueFrom_eq]
  exact h.read hread (Nat.zero_le _)

theorem guarded_refused (hread : s.foldlM step 0 = none) (hs : ∀ c ∈ s, isDigit c = true) : max < value s := by
  rw [value, valueFrom_eq]
  exact h.refused hread hs

end Readers

/-! ### fnsvc_parse_u8 -/

/-- The test of the loop, on integers. -/
theorem parseU8_test {parsed : Word} {c : Byte} (hc : isDigit c = true) :
    (parsed > 25 ∨ (parsed = 25 ∧ c - 0x30 > 5)) ↔ 255 < parsed.toNat * 10 + digitOf c := by
  have hle := digitOf_le hc
  have h25 : (25 : Word).toNat = 25 := rfl
  have h5 : (5 : Byte).toNat = 5 := rfl
  rw [gt_iff_lt, gt_iff_lt, BitVec.lt_def, BitVec.lt_def, ← BitVec.toNat_inj, toNat_sub_zero hc, h25, h5]
  omega

theorem parseU8Digit_guarded : Guarded parseU8Digit BitVec.toNat (isDigit · = true) digitOf 10 255 255 where
  base_pos := by decide
  exact := by
    intro v c v' h
    unfold parseU8Digit at h
    split_ifs at h with hc
    rw [Bool.not_eq_false] at hc
    dsimp only at h
    split_ifs at h with htest
    rw [parseU8_test hc] at htest
    cases h
    have hval := toNat_append (v := v) hc (by omega)
    exact ⟨hc, hval, by omega⟩
  refuses := by
    intro v c h hc
    unfold parseU8Digit at h
    rw [if_neg (by simp [hc])] at h
    dsimp only at h
    split_ifs at h with htest
    exact (parseU8_test hc).1 htest

theorem parseU8_eq (s : List Byte) (old : Byte) :
    parseU8 (some s) (some old) =
      if Decimal s ∧ value s ≤ 255 then (true, some (BitVec.ofNat 8 (value s))) else (false, some old) := by
  unfold parseU8
  dsimp only
  by_cases hs : s = []
  · rw [if_pos hs, if_neg fun h => h.1.1 hs]
  rw [if_neg hs]
  cases hread : s.foldlM parseU8Digit 0 with
  | none =>
    rw [if_neg]
    rintro ⟨hdecimal, hle⟩
    have hlt := guarded_refused parseU8Digit_guarded hread hdecimal.2
    omega
  | some v =>
    obtain ⟨hdigits, hvalue, hle⟩ := guarded_value parseU8Digit_guarded hread
    rw [if_pos ⟨⟨hs, hdigits⟩, hvalue ▸ hle⟩, ← hvalue, BitVec.ofNat_toNat]

/-! ### parse_sector_size -/

/-- A size that the command takes. -/
structure SectorSize (n : ℕ) : Prop where
  power : n.isPowerOfTwo
  least : 128 ≤ n
  most : n ≤ 4096

theorem sectorSizeDigit_guarded : Guarded sectorSizeDigit BitVec.toNat (isDigit · = true) digitOf 10 4096 4099 where
  base_pos := by decide
  exact := by
    intro v c v' h
    unfold sectorSizeDigit at h
    split_ifs at h with htest
    rw [not_or, Bool.not_eq_false, gt_iff_lt, BitVec.not_lt, BitVec.le_def] at htest
    obtain ⟨hc, hv⟩ := htest
    have hle := digitOf_le hc
    have hmost : v.toNat ≤ 409 := hv
    cases h
    have hval := toNat_append hc hmost
    exact ⟨hc, hval, by omega⟩
  refuses := by
    intro v c h hc
    unfold sectorSizeDigit at h
    split_ifs at h with htest
    rcases htest with hno | hv
    · exact absurd hc (by simp [hno])
    · have hgt : 409 < v.toNat := BitVec.lt_def.1 hv
      omega

/-- The test after the loop. -/
theorem sectorSize_test {v : Word} (hv : v.toNat ≤ 4099) :
    ¬(v < 128 ∨ v > 4096 ∨ v &&& (v - 1) ≠ 0) ↔ SectorSize v.toNat := by
  have h128 : (128 : Word).toNat = 128 := rfl
  have h4096 : (4096 : Word).toNat = 4096 := rfl
  have hand (h : v.toNat ≠ 0) : v &&& (v - 1) = 0 ↔ v.toNat.isPowerOfTwo := by
    have h1 : (1 : Word).toNat = 1 := rfl
    have hle : (1 : Word) ≤ v := BitVec.le_def.2 (by rw [h1]; omega)
    rw [← Nat.and_sub_one_eq_zero_iff_isPowerOfTwo h, ← BitVec.toNat_inj, BitVec.toNat_and, BitVec.toNat_sub_of_le hle]
    rfl
  rw [not_or, not_or, not_not, gt_iff_lt, BitVec.not_lt, BitVec.not_lt, BitVec.le_def, BitVec.le_def, h128, h4096]
  constructor
  · rintro ⟨hleast, hmost, hpower⟩
    exact ⟨(hand (by omega)).1 hpower, hleast, hmost⟩
  · intro h
    have hleast := h.least
    exact ⟨hleast, h.most, (hand (by omega)).2 h.power⟩

/-- A string of digits is read; what follows are the tests on its value. -/
theorem parseSectorSize_cases (s : List Byte) (out : Word) :
    (Decimal s ∧ SectorSize (value s) ∧ parseSectorSize s out = (true, BitVec.ofNat 16 (value s))) ∨
      (¬(Decimal s ∧ SectorSize (value s)) ∧ parseSectorSize s out = (false, out)) := by
  unfold parseSectorSize
  by_cases hs : s = []
  · rw [if_pos hs]
    exact .inr ⟨fun h => h.1.1 hs, rfl⟩
  rw [if_neg hs]
  cases hread : s.foldlM sectorSizeDigit 0 with
  | none =>
    refine .inr ⟨?_, rfl⟩
    rintro ⟨hdecimal, hsize⟩
    have hlt := guarded_refused sectorSizeDigit_guarded hread hdecimal.2
    exact absurd hsize.most (by omega)
  | some v =>
    obtain ⟨hdigits, hvalue, hle⟩ := guarded_value sectorSizeDigit_guarded hread
    dsimp only
    by_cases htest : v < 128 ∨ v > 4096 ∨ v &&& (v - 1) ≠ 0
    · rw [if_pos htest]
      refine .inr ⟨fun h => ?_, rfl⟩
      rw [← hvalue] at h
      exact (sectorSize_test hle).2 h.2 htest
    · have hsize := (sectorSize_test hle).1 htest
      rw [if_neg htest, ← hvalue, BitVec.ofNat_toNat, BitVec.setWidth_eq]
      exact .inl ⟨⟨hs, hdigits⟩, hsize, rfl⟩

/-- Both parsers, on every string. -/
theorem numeric_arguments (s : List Byte) :
    (∀ old : Byte,
      (∀ v : Byte, parseU8 (some s) (some old) = (true, some v) ↔ Decimal s ∧ value s = v.toNat) ∧
      (¬(Decimal s ∧ value s ≤ 255) → parseU8 (some s) (some old) = (false, some old))) ∧
    (∀ out : Word,
      (∀ v : Word, parseSectorSize s out = (true, v) ↔ Decimal s ∧ SectorSize (value s) ∧ value s = v.toNat) ∧
      (¬(Decimal s ∧ SectorSize (value s)) → parseSectorSize s out = (false, out))) ∧
    (∀ v c v', parseU8Digit v c = some v' → v'.toNat = v.toNat * 10 + digitOf c) ∧
    ∀ v c v', sectorSizeDigit v c = some v' → v'.toNat = v.toNat * 10 + digitOf c := by
  refine ⟨fun old => ⟨fun v => ?_, fun h => ?_⟩, fun out => ⟨fun v => ?_, fun h => ?_⟩, ?_, ?_⟩
  · rw [parseU8_eq]
    have hv := v.isLt
    split_ifs with h
    · rw [Prod.mk.injEq, Option.some.injEq, ← BitVec.toNat_inj, BitVec.toNat_ofNat, Nat.mod_eq_of_lt (by omega)]
      exact ⟨fun heq => ⟨h.1, heq.2⟩, fun heq => ⟨rfl, heq.2⟩⟩
    · refine ⟨fun heq => by simp at heq, fun heq => absurd ⟨heq.1, ?_⟩ h⟩
      omega
  · rw [parseU8_eq, if_neg h]
  · rcases parseSectorSize_cases s out with ⟨hdecimal, hsize, heq⟩ | ⟨hno, heq⟩
    · have hmost := hsize.most
      rw [heq, Prod.mk.injEq, ← BitVec.toNat_inj, BitVec.toNat_ofNat, Nat.mod_eq_of_lt (by omega)]
      exact ⟨fun h => ⟨hdecimal, hsize, h.2⟩, fun h => ⟨rfl, h.2.2⟩⟩
    · rw [heq]
      exact ⟨fun h => by simp at h, fun h => absurd ⟨h.1, h.2.1⟩ hno⟩
  · rcases parseSectorSize_cases s out with ⟨hdecimal, hsize, -⟩ | ⟨-, heq⟩
    · exact absurd ⟨hdecimal, hsize⟩ h
    · exact heq
  · intro v c v' h
    exact (parseU8Digit_guarded.exact h).2.1
  · intro v c v' h
    exact (sectorSizeDigit_guarded.exact h).2.1

/-- `0256` is no slot, but a sector size. -/
theorem numeric_arguments_256 : parseU8 (some [0x30, 0x32, 0x35, 0x36]) (some 9) = (false, some 9) ∧
    parseSectorSize [0x30, 0x32, 0x35, 0x36] 0 = (true, 256) := by
  obtain ⟨hu8, hsize, -, -⟩ := numeric_arguments [0x30, 0x32, 0x35, 0x36]
  refine ⟨(hu8 9).2 (by decide), ((hsize 0).1 256).2 ⟨by decide, ⟨⟨8, ?_⟩, ?_, ?_⟩, ?_⟩⟩ <;> decide

end NioApps.Commands
