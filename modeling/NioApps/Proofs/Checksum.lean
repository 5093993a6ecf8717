import NioApps.Lib.OnesComplement
import NioApps.Spec.Wire

/-! The checksum of a packet, which is the one's-complement sum of its bytes but for the
one that holds it. -/

namespace NioApps.Resident

open OnesComplement

/-- `adc`: the sum with the carry, and the carry out of it. -/
def adc (a b : Byte) (carry : Bool) : Byte × Bool :=
  (a + b + BitVec.ofNat 8 carry.toNat, 256 ≤ a.toNat + b.toNat + carry.toNat)

/-- The bytes of the packet except the one at index 4. -/
def Wire.covered (w : Wire) : List Byte := ((List.range w.wireLen.toNat).filter (· ≠ 4)).map w.packet

theorem toNat_addAround (a b : Byte) : (addAround a b).toNat = add 255 a.toNat b.toNat := by
  have ha := a.isLt
  have hb := b.isLt
  have h1 : (1 : Byte).toNat = 1 := rfl
  unfold addAround add
  split_ifs with hlt hle hle
  · rw [BitVec.toNat_add]
    omega
  · omega
  · omega
  · rw [BitVec.toNat_add, BitVec.toNat_add, h1]
    omega

/-- The instructions `clc / adc b / adc #0`. The second addition does not carry. -/
theorem adc_adc (a b : Byte) : adc (adc a b false).1 0 (adc a b false).2 = (addAround a b, false) := by
  have ha := a.isLt
  have hb := b.isLt
  have hsum : (a + b).toNat = (a.toNat + b.toNat) % 256 := BitVec.toNat_add a b
  unfold addAround
  split_ifs with h
  · have hfirst : adc a b false = (a + b, false) := Prod.ext (by simp [adc]) (decide_eq_false (by simp; omega))
    rw [hfirst]
    refine Prod.ext (by simp [adc]) (decide_eq_false ?_)
    rw [hsum]
    simp
    omega
  · have hfirst : adc a b false = (a + b, true) := Prod.ext (by simp [adc]) (decide_eq_true (by simp; omega))
    rw [hfirst]
    refine Prod.ext (by simp [adc]) (decide_eq_false ?_)
    rw [hsum]
    simp
    omega

theorem checksumLoop_eq_foldl (packet : ℕ → Byte) (n x : ℕ) (a : Byte) :
    checksumLoop packet n x a = (((List.range' x n).filter (· ≠ 4)).map packet).foldl addAround a := by
  induction n generalizing x a with
  | zero => rfl
  | succ n ih =>
    rw [checksumLoop, ih, List.range'_succ]
    by_cases hx : x = 4
    · rw [if_pos hx, List.filter_cons_of_neg (by simpa using hx)]
    · rw [if_neg hx, List.filter_cons_of_pos (by simpa using hx)]
      rfl

theorem toNat_foldl_addAround (bs : List Byte) (a : Byte) :
    (bs.foldl addAround a).toNat = (bs.map BitVec.toNat).foldl (add 255) a.toNat := by
  induction bs generalizing a with
  | nil => rfl
  | cons b bs ih =>
    rw [List.foldl_cons, ih, List.map_cons, List.foldl_cons, toNat_addAround]

theorem toNat_checksum {w : Wire} (h : 5 ≤ w.wireLen.toNat) :
    (checksum w).toNat = wrap 255 (w.covered.map BitVec.toNat).sum := by
  have hne : w.wireLen ≠ 0 := by
    intro h0
    rw [h0] at h
    exact absurd h (by decide)
  have hbytes : ∀ n ∈ w.covered.map BitVec.toNat, n ≤ 255 := by
    intro n hn
    obtain ⟨b, -, rfl⟩ := List.mem_map.1 hn
    exact Nat.le_of_lt_succ b.isLt
  have hfold := foldl_add (by decide) hbytes 0
  rw [Nat.zero_add] at hfold
  rw [checksum, if_neg hne, checksumLoop_eq_foldl, ← List.range_eq_range', toNat_foldl_addAround]
  exact hfold

/-- All that a byte leaves for the others to add. -/
theorem sum_covered {w : Wire} {i : ℕ} (hi : i < w.wireLen.toNat) (h4 : i ≠ 4) :
    (w.covered.map BitVec.toNat).sum =
      ((((List.range w.wireLen.toNat).filter (· ≠ 4)).erase i).map fun j => (w.packet j).toNat).sum + (w.packet i).toNat := by
  have hmem : i ∈ (List.range w.wireLen.toNat).filter (· ≠ 4) := by simpa using ⟨hi, h4⟩
  have hsum := List.sum_map_erase (fun j => (w.packet j).toNat) hmem
  rw [Wire.covered, List.map_map, Nat.add_comm]
  exact hsum.symm

/-- One byte changed. -/
theorem checksum_ne {w w' : Wire} {i : ℕ} (h : 5 ≤ w.wireLen.toNat) (hlen : w'.wireLen = w.wireLen)
    (hi : i < w.wireLen.toNat) (h4 : i ≠ 4) (hsame : ∀ j < w.wireLen.toNat, j ≠ i → w'.packet j = w.packet j)
    (hne : w'.packet i ≠ w.packet i) (h₁ : ¬(w'.packet i = 0 ∧ w.packet i = 0xff))
    (h₂ : ¬(w'.packet i = 0xff ∧ w.packet i = 0)) : checksum w' ≠ checksum w := by
  have hrest : (((List.range w.wireLen.toNat).filter (· ≠ 4)).erase i).map (fun j => (w'.packet j).toNat) =
      (((List.range w.wireLen.toNat).filter (· ≠ 4)).erase i).map fun j => (w.packet j).toNat := by
    apply List.map_congr_left
    intro j hj
    have hnodup : ((List.range w.wireLen.toNat).filter (· ≠ 4)).Nodup := List.nodup_range.filter _
    obtain ⟨hji, hmem⟩ := (hnodup.mem_erase_iff).1 hj
    have hlt : j < w.wireLen.toNat := List.mem_range.1 (List.mem_filter.1 hmem).1
    rw [hsame j hlt hji]
  have hbyte (b : Byte) : b.toNat ≤ 255 := Nat.le_of_lt_succ b.isLt
  have hnat {b c : Byte} : b.toNat = c.toNat → b = c := BitVec.eq_of_toNat_eq
  intro heq
  have hsums := congrArg BitVec.toNat heq
  rw [toNat_checksum h, toNat_checksum (hlen ▸ h), sum_covered hi h4, sum_covered (hlen ▸ hi) h4, hlen, hrest] at hsums
  refine wrap_ne (hbyte _) (hbyte _) (fun h => hne (hnat h)) (fun h => h₁ ?_) (fun h => h₂ ?_) hsums
  · exact ⟨hnat h.1, hnat h.2⟩
  · exact ⟨hnat h.1, hnat h.2⟩

/-- The checksum of a packet of 5 bytes or more: its value, the carry, any order of the
bytes, and any change of one byte. -/
theorem checksum_exact (w : Wire) (h : 5 ≤ w.wireLen.toNat) :
    (checksum w).toNat ≡ (w.covered.map BitVec.toNat).sum [MOD 255] ∧
    (checksum w = 0 → ∀ b ∈ w.covered, b = 0) ∧
    (∀ a b, adc (adc a b false).1 0 (adc a b false).2 = (addAround a b, false)) ∧
    (∀ w' : Wire, w'.wireLen = w.wireLen → w'.covered.Perm w.covered → checksum w' = checksum w) ∧
    ∀ (w' : Wire) (i : ℕ), w'.wireLen = w.wireLen → i < w.wireLen.toNat → i ≠ 4 →
      (∀ j < w.wireLen.toNat, j ≠ i → w'.packet j = w.packet j) → w'.packet i ≠ w.packet i →
      ¬(w'.packet i = 0 ∧ w.packet i = 0xff) → ¬(w'.packet i = 0xff ∧ w.packet i = 0) →
      checksum w' ≠ checksum w := by
  refine ⟨?_, fun hzero b hb => ?_, adc_adc, fun w' hlen hperm => ?_, fun w' i hlen => checksum_ne h hlen⟩
  · rw [toNat_checksum h]
    exact wrap_modEq _
  · have hsum := toNat_checksum h
    rw [hzero] at hsum
    have hterms := List.sum_eq_zero_iff.1 (wrap_eq_zero.1 hsum.symm) b.toNat (List.mem_map_of_mem hb)
    exact BitVec.eq_of_toNat_eq hterms
  · apply BitVec.eq_of_toNat_eq
    rw [toNat_checksum h, toNat_checksum (hlen ▸ h), (hperm.map BitVec.toNat).sum_eq]

/-- A request of 6 bytes. -/
def sixBytes : Wire where
  packet := fun i => [0xfd, 0x53, 6, 0, 0, 0].getD i 0
  command := 0x53
  requestLen := 6
  wireLen := 6
  wireHi := 0
  outstanding := 0
  payload := 0
  payloadLen := 0
  results := fun _ => ⟨1, fun _ => 0⟩
  log := []

theorem checksum_exact_six : checksum sixBytes = 0x57 ∧ checksum (sixBytes.poke 3 1) ≠ checksum sixBytes := by
  have hlen : 5 ≤ sixBytes.wireLen.toNat := by decide
  refine ⟨by decide, (checksum_exact sixBytes hlen).2.2.2.2 _ 3 rfl (by decide) (by decide) ?_ ?_ ?_ ?_⟩
  · intro j _ hj
    exact Function.update_of_ne hj _ _
  · decide
  · decide
  · decide

end NioApps.Resident
