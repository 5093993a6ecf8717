import NioApps.Proofs.NumericArguments

/-! The slot of the Amiga FMOUNT beside `fnsvc_parse_u8`. The loop of FMOUNT tests the
number only at its end, when it has been reduced to 32 bits, and takes a negative one as
well; and nothing tests that there is a digit. Every other argument is read alike. -/

namespace NioApps.Commands

/-- A number above 255 that passes the test of FMOUNT in 32 bits. -/
def PassesReduced (s : List Byte) : Prop :=
  Decimal s ∧ 255 < value s ∧ (value s % 2 ^ 32 ≤ 255 ∨ 2 ^ 31 ≤ value s % 2 ^ 32)

instance (s : List Byte) : Decidable (PassesReduced s) := inferInstanceAs (Decidable (_ ∧ _ ∧ (_ ∨ _)))

theorem setWidth_sub_zero {c : Byte} (h : isDigit c = true) (v : BitVec 32) :
    v * 10 + c.setWidth 32 - 0x30 = v * 10 + BitVec.ofNat 32 (c.toNat - 0x30) := by
  rw [isDigit_iff] at h
  have h30 : (0x30 : BitVec 32).toNat = 0x30 := rfl
  apply BitVec.eq_of_toNat_eq
  rw [BitVec.toNat_sub, BitVec.toNat_add, BitVec.toNat_add, BitVec.toNat_setWidth, BitVec.toNat_ofNat, h30]
  omega

/-- The loop goes through the string like `parse_index` does, but stops where that leaves. -/
theorem slotLoop_parseDigits (v : BitVec 32) (s : List Byte) :
    parseDigits v s = if (slotLoop v s).2 = [] then some (slotLoop v s).1 else none := by
  induction s generalizing v with
  | nil => rfl
  | cons c s ih =>
    rw [parseDigits, slotLoop]
    by_cases hc : isDigit c = true
    · rw [if_pos hc, if_pos hc, ← setWidth_sub_zero hc, ih]
    · rw [if_neg hc, if_neg hc, if_neg (List.cons_ne_nil c s)]

theorem slotLoop_decimal {s : List Byte} (h : ∀ c ∈ s, isDigit c = true) :
    slotLoop 0 s = (BitVec.ofNat 32 (value s), []) := by
  have hloop := slotLoop_parseDigits 0 s
  have hdigits : parseDigits (0 : BitVec 32) s = some (BitVec.ofNat 32 (value s)) := parseDigits_some h 0
  rw [hdigits] at hloop
  split_ifs at hloop with hrest
  exact Prod.ext (Option.some.inj hloop).symm hrest

theorem slotLoop_other {s : List Byte} (h : ¬∀ c ∈ s, isDigit c = true) : (slotLoop 0 s).2 ≠ [] := by
  intro hrest
  have hloop := slotLoop_parseDigits 0 s
  rw [parseDigits_none h, if_pos hrest] at hloop
  cases hloop

/-- The test after the loop. -/
theorem toInt_gt_iff (n : ℕ) : (BitVec.ofNat 32 n).toInt > 255 ↔ 255 < n % 2 ^ 32 ∧ n % 2 ^ 32 < 2 ^ 31 := by
  rw [BitVec.toInt_eq_toNat_cond, BitVec.toNat_ofNat]
  split_ifs <;> omega

/-- What FMOUNT makes of its first argument. -/
theorem readSlot_eq {s : List Byte} {rest : List (List Byte)} (hrest : rest.length ≤ 2) (hq : s.head? ≠ some 0x3f) :
    readSlot (s :: rest) =
      if (∀ c ∈ s, isDigit c = true) ∧ (value s % 2 ^ 32 ≤ 255 ∨ 2 ^ 31 ≤ value s % 2 ^ 32) then
        .slot (BitVec.ofNat 8 (value s))
      else .badSlot := by
  unfold readSlot
  dsimp only
  rw [if_neg (not_or.2 ⟨by omega, hq⟩)]
  by_cases hdigits : ∀ c ∈ s, isDigit c = true
  · have hslot : (BitVec.ofNat 32 (value s)).setWidth 8 = BitVec.ofNat 8 (value s) := by
      apply BitVec.eq_of_toNat_eq
      rw [BitVec.toNat_setWidth, BitVec.toNat_ofNat, BitVec.toNat_ofNat]
      omega
    have htest := toInt_gt_iff (value s)
    rw [slotLoop_decimal hdigits, hslot]
    by_cases hpasses : value s % 2 ^ 32 ≤ 255 ∨ 2 ^ 31 ≤ value s % 2 ^ 32
    · rw [if_neg, if_pos ⟨hdigits, hpasses⟩]
      rintro (h | h)
      · exact h rfl
      · rw [htest] at h
        omega
    · rw [if_pos (.inr (htest.2 (by omega))), if_neg fun h => hpasses h.2]
  · rw [if_pos (.inl (slotLoop_other hdigits)), if_neg fun h => hdigits h.1]

/-- FMOUNT and `fnsvc_parse_u8` take the same slot for the argument, or both take none. -/
def ReadAlike (main : List (List Byte) → SlotRead) (s : List Byte) (rest : List (List Byte)) : Prop :=
  ∀ v : Byte, main (s :: rest) = .slot v ↔ ∀ old : Byte, parseU8 (some s) (some old) = (true, some v)

theorem readAlike_iff {s : List Byte} {rest : List (List Byte)} (hrest : rest.length ≤ 2) (hq : s.head? ≠ some 0x3f) :
    ReadAlike readSlot s rest ↔ s ≠ [] ∧ ¬PassesReduced s := by
  unfold ReadAlike
  simp only [readSlot_eq hrest hq, parseU8_eq]
  constructor
  · intro h
    constructor
    · -- the empty string is slot 0 for FMOUNT
      rintro rfl
      have hzero := (h 0).1 (by decide) 0
      exact absurd hzero (by decide)
    · rintro ⟨hdecimal, hlarge, hpasses⟩
      have hslot := (h (BitVec.ofNat 8 (value s))).1 (by rw [if_pos ⟨hdecimal.2, hpasses⟩]) 0
      rw [if_neg fun h => by omega] at hslot
      simp at hslot
  · rintro ⟨hs, hnot⟩ v
    by_cases hdecimal : Decimal s ∧ value s ≤ 255
    · obtain ⟨hdec, hle⟩ := hdecimal
      rw [if_pos ⟨hdec.2, .inl (by omega)⟩]
      simp only [if_pos (show Decimal s ∧ value s ≤ 255 from ⟨hdec, hle⟩)]
      simp
    · simp only [if_neg hdecimal]
      rw [if_neg fun h => ?_]
      · simp
      · have hdec : Decimal s := ⟨hs, h.1⟩
        exact hnot ⟨hdec, by_contra fun hle => hdecimal ⟨hdec, by omega⟩, h.2⟩

/-- Both versions of FMOUNT read the slot like `fnsvc_parse_u8`, unless the argument is
empty or a number above 255 that passes the test in 32 bits. -/
theorem slot_argument (s : List Byte) (rest : List (List Byte)) (hrest : rest.length ≤ 2) (hq : s.head? ≠ some 0x3f) :
    ReadAlike kick13Main s rest ∧ ReadAlike kick2Main s rest ↔ s ≠ [] ∧ ¬PassesReduced s :=
  (and_self_iff).trans (readAlike_iff hrest hq)

/-- `FMOUNT 255`. -/
theorem slot_argument_255 : ReadAlike kick13Main [0x32, 0x35, 0x35] [] ∧ ReadAlike kick2Main [0x32, 0x35, 0x35] [] :=
  (slot_argument [0x32, 0x35, 0x35] [] (by decide) (by decide)).2 (by decide)

/-- `FMOUNT ""`, `FMOUNT 2147483648` and `FMOUNT 4294967296` take slot 0. -/
theorem slot_taken :
    (kick13Main [[]] = .slot 0 ∧ kick2Main [[]] = .slot 0 ∧ parseU8 (some []) (some 7) = (false, some 7)) ∧
    ∀ s ∈ [[0x32, 0x31, 0x34, 0x37, 0x34, 0x38, 0x33, 0x36, 0x34, 0x38],
        [0x34, 0x32, 0x39, 0x34, 0x39, 0x36, 0x37, 0x32, 0x39, 0x36]],
      kick13Main [s] = .slot 0 ∧ kick2Main [s] = .slot 0 ∧ parseU8 (some s) (some 7) = (false, some 7) := by
  decide

end NioApps.Commands
