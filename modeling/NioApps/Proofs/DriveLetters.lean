import Mathlib.Data.BitVec
import NioApps.Proofs.UnitMap

/-! The letters of the drives: FUMOUNT takes the letter that FMOUNT printed, in either case,
and ejects the same unit, whatever was run in between. -/

namespace NioApps.Shell

open Abort Commands Service
open AppStore (ascii decimal newline)
open HostState (Backend)

variable {σ τ : Type} {e : Setup σ τ} {slots : σ → Slots}

/-- The programs do not move the drives, and no two units have the same. -/
structure Platform.Lawful (p : Platform τ) : Prop where
  set : ∀ unit unit' slot t, p.findDriveForUnit unit (p.setUnitSlot unit' slot t).2 = p.findDriveForUnit unit t
  restart : ∀ unit t, p.findDriveForUnit unit (p.restart t) = p.findDriveForUnit unit t
  le : ∀ unit t, unit < maxUnits → p.findDriveForUnit unit t ≤ 26
  injective : ∀ unit unit' t, unit < maxUnits → unit' < maxUnits → p.findDriveForUnit unit t ≠ 0 →
    p.findDriveForUnit unit' t = p.findDriveForUnit unit t → unit' = unit

theorem storePlatform_lawful (b : Backend) : (storePlatform b).Lawful where
  set _ _ _ _ := rfl
  restart _ _ := rfl
  le unit _ hunit := by
    have hlt := BitVec.lt_def.1 hunit
    change unit.toNat < 8 at hlt
    cases b with
    | linux => change unit.toNat + 1 ≤ 26; omega
    | atari => change unit.toNat + 1 ≤ 26; omega
    | amiga =>
      change (if unit < maxUnits then unit.toNat + 1 else 0) ≤ 26
      rw [if_pos hunit]
      omega
  injective unit unit' t hunit hunit' _ heq := by
    have hnat : unit'.toNat + 1 = unit.toNat + 1 := by
      cases b with
      | linux => exact heq
      | atari => exact heq
      | amiga =>
        change (if unit' < maxUnits then unit'.toNat + 1 else 0) = if unit < maxUnits then unit.toNat + 1 else 0 at heq
        rwa [if_pos hunit, if_pos hunit'] at heq
    exact BitVec.eq_of_toNat_eq (Nat.succ.inj hnat)

section Msdos

variable {δ : Type} {drv : Driver δ}

/-- A drive that was found for the unit answers with it. -/
theorem dosFindDriveForUnit_spec {unit : Byte} {d : Dos δ} (h : dosFindDriveForUnit drv unit d ≠ 0) :
    dosFindDriveForUnit drv unit d ∈ dosDrives ∧
      (drv.query (dosFindDriveForUnit drv unit d) d.driver).map Query.unit = some unit := by
  rw [dosFindDriveForUnit] at h ⊢
  cases hfind : dosDrives.find? fun drive =>
      fujinet drv d.driver drive && (drv.query drive d.driver).any fun q => q.unit = unit with
  | none =>
    rw [hfind] at h
    exact absurd rfl h
  | some drive =>
    rw [Option.getD_some]
    have hp := List.find?_some hfind
    rw [Bool.and_eq_true] at hp
    refine ⟨List.mem_of_find?_eq_some hfind, ?_⟩
    cases hquery : drv.query drive d.driver with
    | none =>
      rw [hquery] at hp
      cases hp.2
    | some q =>
      rw [hquery] at hp
      exact congrArg some (of_decide_eq_true hp.2)

theorem dosPlatform_lawful (h : drv.Keeps) : (dosPlatform drv).Lawful where
  set unit unit' slot d := by
    change dosFindDriveForUnit drv unit (dosSetUnitSlot drv unit' slot d).2 = dosFindDriveForUnit drv unit d
    rw [dosFindDriveForUnit, dosFindDriveForUnit]
    simp only [fujinet, h.query_eq]
  restart _ _ := rfl
  le unit d _ := by
    change dosFindDriveForUnit drv unit d ≤ 26
    rcases Nat.eq_zero_or_pos (dosFindDriveForUnit drv unit d) with h0 | hpos
    · omega
    · have hmem := (dosFindDriveForUnit_spec hpos.ne').1
      have hall : ∀ drive ∈ dosDrives, drive ≤ 26 := by decide
      exact hall _ hmem
  injective unit unit' d _ _ hne heq := by
    change dosFindDriveForUnit drv unit' d = dosFindDriveForUnit drv unit d at heq
    change dosFindDriveForUnit drv unit d ≠ 0 at hne
    have hspec := (dosFindDriveForUnit_spec hne).2
    have hspec' := (dosFindDriveForUnit_spec (heq ▸ hne)).2
    rw [heq, hspec] at hspec'
    exact (Option.some.inj hspec').symm

end Msdos

theorem Port.lawful {δ : Type} : (p : Port δ) → p.Keeps → p.platform.Lawful
  | store b, _ => storePlatform_lawful b
  | msdos _, h => dosPlatform_lawful h

/-! ### A letter names its unit -/

theorem isAlpha_of_toUpper : ∀ c : Byte, 0x41 ≤ toUpper c → toUpper c ≤ 0x5a → isAlpha c = true := by
  decide +kernel

theorem driveToUnit_letter (hp : e.platform.Lawful) {unit c : Byte} {t : τ} (hunit : unit < maxUnits)
    (hdrive : e.platform.findDriveForUnit unit t ≠ 0) (hc : toUpper c = letterOf (e.platform.findDriveForUnit unit t)) :
    isAlpha c = true ∧ driveToUnit e c t = some unit := by
  have hle := hp.le unit t hunit
  have hletter : (toUpper c).toNat = 0x41 + e.platform.findDriveForUnit unit t - 1 := by
    rw [hc, letterOf, if_pos hdrive, BitVec.toNat_ofNat]
    omega
  refine ⟨isAlpha_of_toUpper c ?_ ?_, ?_⟩
  · rw [BitVec.le_def, hletter]
    change 65 ≤ _
    omega
  · rw [BitVec.le_def, hletter]
    change _ ≤ 90
    omega
  · rw [driveToUnit]
    have hmatch : ∀ unit', decide (e.platform.findDriveForUnit unit' t = (toUpper c).toNat - 0x41 + 1) = true ↔
        e.platform.findDriveForUnit unit' t = e.platform.findDriveForUnit unit t := by
      intro unit'
      rw [decide_eq_true_iff, hletter]
      omega
    have hmem : ∀ unit' : Byte, unit' ∈ (List.range maxUnits.toNat).map (BitVec.ofNat 8) ↔ unit' < maxUnits := by decide +kernel
    cases hfind : ((List.range maxUnits.toNat).map (BitVec.ofNat 8)).find? fun unit' =>
        e.platform.findDriveForUnit unit' t = (toUpper c).toNat - 0x41 + 1 with
    | none => exact absurd ((hmatch unit).2 rfl) (List.find?_eq_none.1 hfind unit ((hmem unit).2 hunit))
    | some unit' =>
      have hunit' := (hmem unit').1 (List.mem_of_find?_eq_some hfind)
      have htest := List.find?_some hfind
      have heq := (hmatch unit').1 htest
      rw [hp.injective unit unit' t hunit hunit' hdrive heq]

/-- The drives are where they were. -/
theorem session_drive (hp : e.platform.Lawful) (hK : Keeps e.catalog slots) (lines : List Line) (s : Machine σ τ) (unit : Byte) :
    e.platform.findDriveForUnit unit (session e lines s).2.units = e.platform.findDriveForUnit unit s.units := by
  refine session_units_inv (P := fun t => e.platform.findDriveForUnit unit t = e.platform.findDriveForUnit unit s.units)
    ?_ ?_ hK lines s rfl
  · intro unit' slot t ht
    rw [hp.set, ht]
  · intro t ht
    rw [hp.restart, ht]

/-! ### What FMOUNT and FUMOUNT print -/

theorem getMount_out (slot : Byte) (s : Machine σ τ) :
    wp (getMount e slot) (fun _ s' => s'.out = s.out) (fun _ => True) s := by
  rw [getMount, wp_bind, wp_get]
  rcases e.catalog.get slot s.catalog with ⟨result, catalog⟩
  rw [wp_bind, wp_set]
  cases result with
  | error code => exact wp_ite (fun _ => rfl) fun _ => rfl
  | ok entry => exact wp_ite (fun _ => rfl) fun _ => rfl

theorem service_out {α : Type} (m : Svc α) (s : Machine σ τ) : wp (service m) (fun _ s' => s'.out = s.out) (fun _ => True) s :=
  wp_service.2 (wp_all m (fun _ _ => rfl) fun _ => trivial)

theorem keepUnit_out (unit slot : Byte) (done : τ → List Byte) (s : Machine σ τ) :
    wp (keepUnit e unit slot done) (fun code s' => code = 0 → s'.out = s.out ++ done s'.units) (fun _ => True) s := by
  rw [keepUnit, wp_bind, setUnitSlot, wp_bind, wp_get]
  rcases e.platform.setUnitSlot unit slot s.units with ⟨ok, units⟩
  rw [wp_bind, wp_set]
  exact wp_ite (fun _ hcode => absurd hcode (by decide)) fun _ _ => rfl

/-- What FMOUNT prints at its end. -/
def mountedText (e : Setup σ τ) (slot : Byte) (drive : ℕ) : List Byte :=
  ascii "Mounted slot " ++ decimal slot.toNat ++ ascii " on " ++ [letterOf drive] ++ ascii ":" ++ [newline e.target]

def ejectedText (e : Setup σ τ) (letter : Byte) : List Byte := ascii "Ejected " ++ [letter] ++ ascii ":" ++ [newline e.target]

theorem fmount_out {args : List (List Byte)} {typed printed : List Byte} {a : MountArgs} {s : Machine σ τ}
    (hargs : mountArgs e s.units args typed = (printed, .ok a)) :
    wp (fmount e args typed) (fun code s' => code = 0 →
      s'.out = s.out ++ printed ++ mountedText e a.slot (e.platform.findDriveForUnit a.unit s'.units)) (fun _ => True) s := by
  rw [fmount, wp_bind, wp_get, hargs, wp_bind, wp_print]
  refine wp.seq (getMount_out a.slot _) fun r s₁ hout => ?_
  refine wp_ite (fun _ hcode => absurd hcode (by decide)) fun _ => ?_
  refine wp.seq (service_out _ s₁) fun ok s₂ hout' => ?_
  refine wp_ite (fun _ hcode => absurd hcode (by decide)) fun _ => ?_
  refine (keepUnit_out ..).mono (fun code s' h hcode => ?_) fun _ => id
  rw [h hcode, hout', hout, mountedText]

theorem fumount_out {args : List (List Byte)} {c unit : Byte} {s : Machine σ τ} (hargs : fumountArgs e s.units args = .ok (c, unit)) :
    wp (fumount e args) (fun code s' => code = 0 → s'.out = s.out ++ ejectedText e (toUpper c)) (fun _ => True) s := by
  rw [fumount, wp_bind, wp_get, hargs]
  refine wp.seq (service_out _ s) fun ok s₁ hout => ?_
  refine wp_ite (fun _ hcode => absurd hcode (by decide)) fun _ => ?_
  refine (keepUnit_out ..).mono (fun code s' h hcode => ?_) fun _ => id
  rw [h hcode, hout, ejectedText]

theorem fumountArgs_letter {c unit : Byte} {t : τ} (halpha : isAlpha c = true) (hunit : driveToUnit e c t = some unit) :
    fumountArgs e t [[c, 0x3a]] = .ok (c, unit) := by
  have hq : c ≠ 0x3f := by
    rintro rfl
    exact absurd halpha (by decide)
  have hhead : ¬ [c, 0x3a].head? = some 0x3f := fun h => hq (Option.some.inj h)
  have hletter : driveLetter [c, 0x3a] = some c := if_pos halpha
  rw [fumountArgs, unitOf, if_neg hhead, hletter]
  dsimp only
  rw [hunit]

theorem eject_printed {δ : Type} (p : Port δ) (hport : p.Keeps) (e : Setup σ p.State) (he : e.platform = p.platform)
    (slots : σ → Slots) (hK : Keeps e.catalog slots) (args : List (List Byte)) (typed printed : List Byte) (a : MountArgs)
    (s s₁ : Machine σ p.State) (hargs : mountArgs e (fresh e s).units args typed = (printed, .ok a))
    (hmount : (fmount e args typed).run (fresh e s) = .ok 0 s₁)
    (hdrive : e.platform.findDriveForUnit a.unit s₁.units ≠ 0) (lines : List Line) (c : Byte)
    (hc : toUpper c = letterOf (e.platform.findDriveForUnit a.unit s₁.units)) :
    s₁.out = s.out ++ printed ++ mountedText e a.slot (e.platform.findDriveForUnit a.unit s₁.units) ∧
      ∃ code s₂, (fumount e [[c, 0x3a]]).run (fresh e (session e lines s₁).2) = .ok code s₂ ∧
        s₂.client.sent = (session e lines s₁).2.client.sent ++ [(DiskCall.unmount a.unit).request] ∧
        (code = 0 → s₂.out = (session e lines s₁).2.out ++
          ejectedText e (letterOf (e.platform.findDriveForUnit a.unit s₁.units))) := by
  have hp : e.platform.Lawful := he ▸ p.lawful hport
  have hunit : a.unit < maxUnits := mountArgs_lt (congrArg Prod.snd hargs)
  refine ⟨(fmount_out hargs).ok hmount rfl, ?_⟩
  have hsame : e.platform.findDriveForUnit a.unit (fresh e (session e lines s₁).2).units =
      e.platform.findDriveForUnit a.unit s₁.units :=
    (hp.restart ..).trans (session_drive hp hK lines s₁ a.unit)
  generalize (session e lines s₁).2 = s' at hsame ⊢
  rw [← hsame] at hdrive hc ⊢
  obtain ⟨halpha, hto⟩ := driveToUnit_letter hp hunit hdrive hc
  have heject := fumountArgs_letter halpha hto
  obtain ⟨code, s₂, hrun, hdoes, -⟩ := (line_does hK (.fumount [[c, 0x3a]]) (fresh e s')).returns
  refine ⟨code, s₂, hrun, ?_, fun hcode => ?_⟩
  · rw [Line.action, heject] at hdoes
    cases hdoes with
    | unmount _ _ _ _ hsends => exact hsends.1
  · rw [(fumount_out heject).ok hrun hcode, hc]
    rfl

/-- Slot 2 has an image. -/
def selected : Machine (Byte → Bool × List Byte) (Dos (Byte → Byte)) :=
  { dosOn with catalog := Function.update dosOn.catalog 2 (false, ascii "TNFS:A") }

theorem eject_printed_evening : ∃ s₁ code s₂,
    (fmount dosSetup [ascii "2", ascii "D:"] []).run (fresh dosSetup selected) = .ok 0 s₁ ∧
      s₁.out = selected.out ++ [] ++ mountedText dosSetup 2 4 ∧
        (fumount dosSetup [ascii "d:"]).run (fresh dosSetup (session dosSetup dosEvening s₁).2) = .ok code s₂ ∧
          s₂.client.sent = (session dosSetup dosEvening s₁).2.client.sent ++ [(DiskCall.unmount 1).request] ∧
          (code = 0 → s₂.out = (session dosSetup dosEvening s₁).2.out ++ ejectedText dosSetup (letterOf 4)) := by
  obtain ⟨hout, code, s₂, hrun, hsent, heject⟩ := eject_printed (.msdos eightDrives) eightDrives_keeps dosSetup rfl memorySlots
    memory_keeps [ascii "2", ascii "D:"] [] [] ⟨2, 1, 0, 0⟩ selected _ rfl rfl (by decide) dosEvening 0x64 (by decide)
  exact ⟨_, code, s₂, rfl, hout, hrun, hsent, heject⟩

end NioApps.Shell
