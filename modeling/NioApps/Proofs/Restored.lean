import NioApps.Proofs.SlotArgument
import NioApps.Spec.Restore

/-! The commands that FMOUNTRESTORE writes are read by FMOUNT as the mappings they were made
of (`fmountArgs_command`), and it starts those of the valid mappings in order, up to the first
that fails (`mappings_restored`). -/

namespace NioApps.Restore

open Commands Kick13
open AppStore (ascii decimal)

/-! ### One command -/

theorem words_append {a : List Byte} (hblank : ∀ c ∈ a, c ≠ 0x20) (hne : a ≠ []) (b : List Byte) :
    words (a ++ 0x20 :: b) = a :: words b := by
  have hmem : (0x20 : Byte) ∉ a := fun h => hblank _ h rfl
  rw [words, List.splitOn_append_cons_self_of_not_mem hmem]
  exact List.filter_cons_of_pos (by simpa using hne)

theorem decimal_digits : ∀ n < 256, ((decimal n).all isDigit && !(decimal n).isEmpty) = true := by decide +kernel

theorem decimal_length : ∀ n < 256, (decimal n).length - 1 < 3 := by decide +kernel

theorem slotLoop_digits : ∀ n < 256, slotLoop 0 (decimal n) = (BitVec.ofNat 32 n, []) := by decide +kernel

/-- The digits of a slot. -/
theorem decimal_slot (slot : Byte) : (∀ c ∈ decimal slot.toNat, isDigit c = true) ∧ decimal slot.toNat ≠ [] := by
  have h := decimal_digits slot.toNat slot.isLt
  rw [Bool.and_eq_true, List.all_eq_true] at h
  exact ⟨h.1, by simpa using h.2⟩

theorem digit_ne {c d : Byte} (h : isDigit c = true) (hd : isDigit d = false) : c ≠ d := by
  rintro rfl
  rw [h] at hd
  cases hd

theorem words_mode (readonly : Bool) : words (modeText readonly) = [modeText readonly] := by
  cases readonly <;> decide

def unitName (unit : Fin 8) : List Byte := ascii "DN" ++ decimal unit ++ ascii ":"

theorem words_command (unit : Fin 8) (m : Mapping) :
    words (command unit m) = [ascii "SYS:C/fmount", decimal m.slot.toNat, unitName unit, modeText m.readonly] := by
  obtain ⟨hdigits, hne⟩ := decimal_slot m.slot
  have hblank : ∀ c ∈ decimal m.slot.toNat, c ≠ 0x20 := fun c hc => digit_ne (hdigits c hc) (by decide)
  have hunit : (∀ c ∈ unitName unit, c ≠ 0x20) ∧ unitName unit ≠ [] := by
    revert unit
    decide
  have hcommand : command unit m =
      ascii "SYS:C/fmount" ++ 0x20 :: (decimal m.slot.toNat ++ 0x20 :: (unitName unit ++ 0x20 :: modeText m.readonly)) := by
    simp [command, unitName, ascii]
  rw [hcommand, words_append (by decide) (by decide), words_append hblank hne, words_append hunit.1 hunit.2, words_mode]

theorem readSlot_decimal (slot : Byte) {rest : List (List Byte)} (hrest : rest.length ≤ 2) :
    kick2Main (decimal slot.toNat :: rest) = .slot slot := by
  obtain ⟨hdigits, -⟩ := decimal_slot slot
  have hhead : (decimal slot.toNat).head? ≠ some 0x3f := fun h => digit_ne (hdigits _ (List.mem_of_mem_head? h)) (by decide) rfl
  have hint : ¬(BitVec.ofNat 32 slot.toNat).toInt > 255 := by
    have := slot.isLt
    rw [toInt_gt_iff]
    omega
  rw [kick2Main, readSlot, slotLoop_digits slot.toNat slot.isLt, if_neg (not_or.2 ⟨by omega, hhead⟩)]
  change (if _ ∨ _ then SlotRead.badSlot else SlotRead.slot _) = _
  rw [if_neg (not_or.2 ⟨not_not.2 rfl, hint⟩)]
  simp

theorem fmountOption_unit (unit : Fin 8) (o : ℕ × Bool) : fmountOption o (unitName unit) = some (unit.val, o.2) := by
  have hunit : driveToUnit (unitName unit) = some unit.val := by
    revert unit
    decide
  rw [fmountOption, hunit]

theorem fmountOption_mode (readonly : Bool) (o : ℕ × Bool) : fmountOption o (modeText readonly) = some (o.1, readonly) := by
  cases readonly <;> rfl

/-- FMOUNT reads the mapping back. -/
theorem fmountArgs_command {maxUnit : ℕ} (hmax : 7 ≤ maxUnit) (unit : Fin 8) (m : Mapping) :
    fmountArgs maxUnit (words (command unit m)).tail = .mount m.slot unit m.readonly := by
  have hunit : ¬unit.val > maxUnit := by omega
  rw [words_command, List.tail_cons, fmountArgs, readSlot_decimal m.slot (by simp)]
  simp only [List.tail_cons, List.foldlM_cons, fmountOption_unit, fmountOption_mode, Option.bind_eq_bind, Option.bind_some,
    List.foldlM_nil, Option.pure_def]
  rw [if_neg hunit]

/-- The command fits its buffer of 32 bytes. -/
theorem length_command (unit : Fin 8) (m : Mapping) : (command unit m).length < 32 := by
  have hlen := decimal_length m.slot.toNat m.slot.isLt
  have hunit : (decimal unit).length = 1 := by
    revert unit
    decide
  have hmode : (modeText m.readonly).length = 2 := by cases m.readonly <;> rfl
  simp only [command, List.length_append, hunit, hmode]
  have htexts : (ascii "SYS:C/fmount ").length = 13 ∧ (ascii " DN").length = 3 ∧ (ascii ": ").length = 2 := by decide
  omega

/-! ### The loop -/

/-- The commands of the valid mappings of `us`. -/
def commandsOf (mappings : List Byte) (us : List (Fin 8)) : List (List Byte) :=
  (us.filter fun unit => (mappingAt mappings unit).valid).map fun unit => command unit (mappingAt mappings unit)

/-- All of them are started, or those up to the first that failed. -/
theorem restoreUnits_commands (mappings : List Byte) (restored : ℕ) (us : List (Fin 8)) (results : ℕ → Long) :
    let r := restoreUnits mappings restored us results
    let cs := commandsOf mappings us
    r.code = 0 ∧ r.commands = cs ∧ (∀ i < cs.length, results i = 0) ∨
      r.code = 10 ∧ ∃ k < cs.length, r.commands = cs.take (k + 1) ∧ (∀ i < k, results i = 0) ∧ results k ≠ 0 := by
  induction us generalizing results with
  | nil => exact .inl ⟨rfl, rfl, by simp [commandsOf]⟩
  | cons unit us ih =>
    intro r cs
    by_cases hvalid : (mappingAt mappings unit).valid = false
    · have hr : r = restoreUnits mappings restored us results := if_pos hvalid
      have hcs : cs = commandsOf mappings us := by simp [cs, commandsOf, hvalid]
      rw [hr, hcs]
      exact ih results
    · have hcs : cs = command unit (mappingAt mappings unit) :: commandsOf mappings us := by simp [cs, commandsOf, hvalid]
      by_cases hresult : results 0 = 0
      · -- the command went well, and the loop goes on with the results after its own
        have hr : r = ⟨(restoreUnits mappings restored us fun n => results (n + 1)).code, command unit (mappingAt mappings unit) ::
            (restoreUnits mappings restored us fun n => results (n + 1)).commands, _⟩ :=
          (if_neg hvalid).trans (if_neg (not_not.2 hresult))
        rw [hr, hcs]
        obtain ⟨hcode, hall, hzero⟩ | ⟨hcode, k, hk, hran, hzero, hfailed⟩ := ih fun n => results (n + 1)
        · refine .inl ⟨hcode, by rw [hall], fun i hi => ?_⟩
          cases i with
          | zero => exact hresult
          | succ i => exact hzero i (by simpa using hi)
        · refine .inr ⟨hcode, k + 1, by simpa using hk, by rw [hran, List.take_succ_cons], fun i hi => ?_, hfailed⟩
          cases i with
          | zero => exact hresult
          | succ i => exact hzero i (by omega)
      · have hr : r = ⟨10, [command unit (mappingAt mappings unit)], _⟩ := (if_neg hvalid).trans (if_pos hresult)
        rw [hr, hcs]
        exact .inr ⟨rfl, 0, by simp, rfl, by simp, hresult⟩

theorem commands_read {maxUnit : ℕ} (hmax : 7 ≤ maxUnit) (mappings : List Byte) :
    (commandsOf mappings units).map (fun c => fmountArgs maxUnit (words c).tail) = wanted mappings := by
  rw [commandsOf, List.map_map, wanted, validUnits]
  exact List.map_congr_left fun unit _ => fmountArgs_command hmax unit _

theorem commands_fit (mappings : List Byte) : ∀ c ∈ commandsOf mappings units, c.length < 32 := by
  intro c hc
  obtain ⟨unit, -, rfl⟩ := List.mem_map.1 hc
  exact length_command unit _

/-- Whatever is stored, and whatever the commands return: FMOUNTRESTORE starts an FMOUNT for
each valid mapping in the order of the units, as far as they succeed, each of which reads its
arguments as the slot, the unit and the access of the mapping. -/
theorem mappings_restored {maxUnit : ℕ} (hmax : 7 ≤ maxUnit) (stored : Option (Bool × List Byte)) (results : ℕ → Long) :
    let r := fmountrestore stored results
    Restored stored results r.code (r.commands.map fun c => fmountArgs maxUnit (words c).tail) ∧
      ∀ c ∈ r.commands, c.length < 32 := by
  intro r
  obtain _ | ⟨found, mappings⟩ := stored
  · exact ⟨.unreadable rfl, by simp [r, fmountrestore]⟩
  cases found with
  | false => exact ⟨.nothing rfl, by simp [r, fmountrestore]⟩
  | true =>
    by_cases huse : Usable mappings
    · have hr : r = restoreUnits mappings (validUnits mappings).length units results :=
        if_neg (not_or.2 ⟨not_not.2 huse.1, not_not.2 huse.2⟩)
      rw [hr]
      have hread := commands_read hmax mappings
      have hlength : (wanted mappings).length = (commandsOf mappings units).length := by rw [← hread, List.length_map]
      obtain ⟨hcode, hall, hzero⟩ | ⟨hcode, k, hk, hran, hzero, hfailed⟩ :=
        restoreUnits_commands mappings (validUnits mappings).length units results
      · refine ⟨?_, by rw [hall]; exact commands_fit mappings⟩
        rw [hcode, hall]
        exact hread ▸ .all rfl huse (by rw [hlength]; exact hzero)
      · refine ⟨?_, by rw [hran]; exact fun c hc => commands_fit mappings c (List.mem_of_mem_take hc)⟩
        rw [hcode, hran, List.map_take]
        exact hread ▸ .stopped rfl huse (by rw [hlength]; exact hk) hzero hfailed
    · have hr : r = ⟨20, [], ascii "FMOUNTRESTORE mappings=invalid\n"⟩ := by
        have hbad : mappings.length ≠ mappingsSize ∨ mappings.getD 0 0 ≠ 1 := not_and_or.1 huse
        exact if_pos hbad
      rw [hr]
      exact ⟨.invalid rfl huse, by simp⟩

/-- Slot 5 on DN0:, and slot 200 on DN1: for reading only. -/
def twoMappings : List Byte := [1, 1, 5, 3, 200] ++ List.replicate 12 0

theorem mappings_restored_two :
    Restored (some (true, twoMappings)) (fun _ => 0) 0 [.mount 5 0 false, .mount 200 1 true] := by
  have hrestored := (mappings_restored (Nat.le_refl 7) (some (true, twoMappings)) fun _ => 0).1
  have hcode : (fmountrestore (some (true, twoMappings)) fun _ => 0).code = 0 := by decide +kernel
  have hran : ((fmountrestore (some (true, twoMappings)) fun _ => 0).commands.map fun c => fmountArgs 7 (words c).tail) =
      [.mount 5 0 false, .mount 200 1 true] := by
    decide +kernel
  rw [hcode, hran] at hrestored
  exact hrestored

end NioApps.Restore
