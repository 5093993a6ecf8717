import NioApps.Sanity.Digits

/-! The history index of FHOST. The value is tested after the loop only, when it has
been reduced to the width of an `int`, so a number that is small again after the
reduction is taken for another index. Every other argument is read exactly. -/

namespace NioApps.Commands

/-- The argument stands for history entry `n`. -/
structure Denotes (s : List Byte) (n : ℕ) : Prop where
  decimal : Decimal s
  value : value s = n
  small : n < 32

/-- A number that is not an index, but is one after the reduction to an `int`. -/
def Returns (t : Target) (s : List Byte) : Prop := Decimal s ∧ 2 ^ t.int ≤ value s ∧ value s % 2 ^ t.int < 32

instance (t : Target) (s : List Byte) : Decidable (Returns t s) := inferInstanceAs (Decidable (_ ∧ _ ∧ _))

/-- The last test on a value of 16 bits or more. -/
theorem inRange_iff {w : ℕ} (hw : 16 ≤ w) (v : BitVec w) : 0 ≤ v.toInt ∧ v.toInt < 32 ↔ v.toNat < 32 := by
  have hpow : 2 ^ 16 ≤ 2 ^ w := Nat.pow_le_pow_right (by omega) hw
  rw [BitVec.toInt_eq_toNat_cond]
  split_ifs <;> omega

theorem toInt_of_lt {w : ℕ} (hw : 16 ≤ w) {v : BitVec w} (h : v.toNat < 32) : v.toInt = v.toNat := by
  have hpow : 2 ^ 16 ≤ 2 ^ w := Nat.pow_le_pow_right (by omega) hw
  rw [BitVec.toInt_eq_toNat_cond, if_pos (by omega)]

theorem Target.int_ge (t : Target) : 16 ≤ t.int := by cases t <;> decide

/-- What `parse_index` returns. -/
theorem parseIndex_eq (t : Target) (s : List Byte) :
    parseIndex t s = if Decimal s ∧ value s % 2 ^ t.int < 32 then ((value s % 2 ^ t.int : ℕ) : ℤ) else -1 := by
  rw [parseIndex]
  by_cases hs : s = []
  · rw [if_pos hs, if_neg fun h => h.1.1 hs]
  rw [if_neg hs]
  by_cases hd : ∀ c ∈ s, isDigit c = true
  · have hvalue : parseDigits (0 : BitVec t.int) s = some (BitVec.ofNat t.int (value s)) := parseDigits_some hd 0
    have hnat : (BitVec.ofNat t.int (value s)).toNat = value s % 2 ^ t.int := BitVec.toNat_ofNat ..
    rw [hvalue]
    dsimp only
    by_cases hlt : value s % 2 ^ t.int < 32
    · rw [if_pos ((inRange_iff t.int_ge _).2 (by rw [hnat]; exact hlt)), if_pos ⟨⟨hs, hd⟩, hlt⟩,
        toInt_of_lt t.int_ge (by rw [hnat]; exact hlt), hnat]
    · rw [if_neg fun h => hlt (by rw [← hnat]; exact (inRange_iff t.int_ge _).1 h), if_neg fun h => hlt h.2]
  · rw [parseDigits_none hd, if_neg fun h => hd h.1.2]

/-- An index that is selected or deleted is the one that `parse_index` returned. -/
theorem hostMain_index {t : Target} {s : List Byte} {rest : List (List Byte)} {i : Byte}
    (h : hostMain t (s :: rest) = .selectHistory i ∨ hostMain t (s :: rest) = .deleteHistory i) :
    0 ≤ parseIndex t s ∧ i = BitVec.ofInt 8 (parseIndex t s) := by
  rw [hostMain] at h
  dsimp only at h
  split_ifs at h with h₁ h₂ h₃ h₄ <;> simp at h
  refine ⟨h₃, ?_⟩
  cases rest with
  | nil => simpa [eq_comm] using h
  | cons option rest =>
    dsimp only at h
    split_ifs at h <;> simp at h
    exact h.symm

/-- An argument is read as the index it denotes, or not as an index, and no other entry is
selected or deleted for it. -/
structure ReadRight (t : Target) (s : List Byte) : Prop where
  index : ∀ n : ℕ, parseIndex t s = n ↔ Denotes s n
  other : (∀ n, ¬Denotes s n) → parseIndex t s = -1
  entry : ∀ (rest : List (List Byte)) (i : Byte),
    hostMain t (s :: rest) = .selectHistory i ∨ hostMain t (s :: rest) = .deleteHistory i → Denotes s i.toNat

theorem denotes_iff {t : Target} {s : List Byte} (h : ¬Returns t s) (n : ℕ) :
    Denotes s n ↔ (Decimal s ∧ value s % 2 ^ t.int < 32) ∧ value s % 2 ^ t.int = n := by
  have hpow : 2 ^ 16 ≤ 2 ^ t.int := Nat.pow_le_pow_right (by omega) t.int_ge
  constructor
  · rintro ⟨hdecimal, rfl, hsmall⟩
    rw [Nat.mod_eq_of_lt (by omega)]
    exact ⟨⟨hdecimal, hsmall⟩, rfl⟩
  · rintro ⟨⟨hdecimal, hsmall⟩, hn⟩
    have hlt : value s < 2 ^ t.int := Nat.lt_of_not_le fun hle => h ⟨hdecimal, hle, hsmall⟩
    rw [Nat.mod_eq_of_lt hlt] at hsmall hn
    exact ⟨hdecimal, hn, hn ▸ hsmall⟩

/-- Exactly the numbers that come back into range are read wrong. -/
theorem history_index (t : Target) (s : List Byte) : ReadRight t s ↔ ¬Returns t s := by
  constructor
  · rintro ⟨hindex, -, -⟩ ⟨hdecimal, hlarge, hsmall⟩
    have hdenotes := (hindex (value s % 2 ^ t.int)).1 (by rw [parseIndex_eq, if_pos ⟨hdecimal, hsmall⟩])
    have hvalue := hdenotes.value
    omega
  · intro h
    have hindex (n : ℕ) : parseIndex t s = n ↔ Denotes s n := by
      rw [parseIndex_eq, denotes_iff h]
      split_ifs with hc
      · rw [Nat.cast_inj]
        exact (and_iff_right hc).symm
      · exact ⟨False.elim, fun hd => absurd hd.1 hc⟩
    refine ⟨hindex, fun hnone => ?_, fun rest i hact => ?_⟩
    · rw [parseIndex_eq, if_neg fun hc => hnone _ ((denotes_iff h _).2 ⟨hc, rfl⟩)]
    · obtain ⟨hge, rfl⟩ := hostMain_index hact
      obtain ⟨n, hn⟩ := Int.eq_ofNat_of_zero_le hge
      have hdenotes := (hindex n).1 hn
      have hsmall := hdenotes.small
      have hnat : (BitVec.ofInt 8 (n : ℤ)).toNat = n := by
        rw [BitVec.ofInt_natCast, BitVec.toNat_ofNat]
        omega
      rw [hn, hnat]
      exact hdenotes

/-- `FHOST 65536 D` deletes entry 0 where an `int` has 16 bits. -/
theorem index_wraps : parseIndex .msdos [0x36, 0x35, 0x35, 0x33, 0x36] = 0 ∧
    ¬Denotes [0x36, 0x35, 0x35, 0x33, 0x36] 0 ∧
      hostMain .msdos [[0x36, 0x35, 0x35, 0x33, 0x36], [0x44]] = .deleteHistory 0 := by
  refine ⟨by decide, fun h => absurd h.value (by decide), by decide⟩

end NioApps.Commands
