import NioApps.Proofs.Selected
import NioApps.Spec.Units

/-! What the programs leave in the map from units to slots, on every machine: the last
program that ended well for a unit says its slot. -/

namespace NioApps.Shell

open Abort Commands Service
open AppStore (ascii decimal newline)
open HostState (Backend)

variable {σ τ : Type} {e : Setup σ τ} {slots : σ → Slots}

/-! ### The map -/

/-- The unit and the slot that a program records when it ends well. -/
def Action.records : Action → Option (Byte × Byte)
  | .mount a => some (a.unit, a.unit)
  | .unmount unit => some (unit, 0)
  | .restore unit => some (unit, unit)
  | _ => none

def Ran.recorded (e : Setup σ τ) (ran : Ran σ τ) : Option (Byte × Byte) :=
  if ran.code = 0 then (ran.line.action e ran.before.units).bind Action.records else none

def record (m : Byte → Option Byte) (p : Byte × Byte) : Byte → Option Byte := Function.update m p.1 (some p.2)

/-- The units change by the platform's own functions only. -/
theorem Does.units_inv {P : τ → Prop} (hset : ∀ unit slot t, P t → P (e.platform.setUnitSlot unit slot t).2) {act : Option Action}
    {code : ℕ} {s s' : Machine σ τ} (h : Does e slots s act code s') (hs : P s.units) : P s'.units := by
  have hsends : ∀ {call unit slot}, Sends e call unit slot s s' code → P s'.units := by
    rintro call unit slot ⟨-, ⟨-, hunits, -⟩ | ⟨-, hunits, -⟩⟩
    · exact hunits ▸ hset unit slot s.units hs
    · exact hunits ▸ hs
  cases h with
  | refused _ _ hunits => exact hunits ▸ hs
  | select _ _ _ _ _ hunits => exact hunits ▸ hs
  | clear _ _ _ _ hunits => exact hunits ▸ hs
  | noImage _ _ _ _ hunits => exact hunits ▸ hs
  | mount _ _ _ _ _ _ _ _ _ h => exact hsends h
  | unmount _ _ _ _ h => exact hsends h
  | restore _ _ _ _ h => exact hsends h

theorem session_units_inv {P : τ → Prop} (hset : ∀ unit slot t, P t → P (e.platform.setUnitSlot unit slot t).2)
    (hrestart : ∀ t, P t → P (e.platform.restart t)) (hK : Keeps e.catalog slots) (lines : List Line) (s : Machine σ τ)
    (hs : P s.units) : P (session e lines s).2.units := by
  induction lines generalizing s with
  | nil => exact hs
  | cons line lines ih =>
    obtain ⟨code, s', hrun, hdoes, -⟩ := (line_does hK line (fresh e s)).returns
    rw [session, hrun]
    exact ih s' (hdoes.units_inv hset (hrestart s.units hs))

/-! ### The machines -/

variable {δ : Type}

section Msdos

variable {drv : Driver δ}

theorem dosFindDrive_driver (drv : Driver δ) (d : Dos δ) : (dosFindDrive drv d).2.driver = d.driver := by
  rw [dosFindDrive]
  split_ifs
  · rfl
  · cases dosDrives.find? (fujinet drv d.driver) <;> rfl

/-- The drives answer as before. -/
theorem Driver.Keeps.query_eq (h : drv.Keeps) (drive : ℕ) (unit slot : Byte) (d : Dos δ) :
    drv.query drive (dosSetUnitSlot drv unit slot d).2.driver = drv.query drive d.driver := by
  have hkept := dosFindDrive_driver drv d
  rw [dosSetUnitSlot]
  rcases hfind : dosFindDrive drv d with ⟨found, d'⟩
  rw [hfind] at hkept
  dsimp only at hkept ⊢
  split_ifs
  · rw [hkept]
  · rw [h.query, hkept]

end Msdos

/-- Units 0 to 7 are the drives C: to J:. -/
def eightDrives : Driver (Byte → Byte) where
  query drive _ := if 3 ≤ drive ∧ drive < 11 then some ⟨HostState.signature, BitVec.ofNat 8 (drive - 3)⟩ else none
  getUnitMap _ unit d := some ⟨HostState.signature, d unit⟩
  setUnitMap _ unit slot d := (true, Function.update d unit slot)

theorem eightDrives_keeps : eightDrives.Keeps where
  query _ _ _ _ _ := rfl
  taken _ _ _ _ _ _ := congrArg (fun b => some (⟨HostState.signature, b⟩ : UnitMapReply)) (Function.update_self ..)
  other _ _ _ _ _ hne :=
    congrArg (fun b => some (⟨HostState.signature, b⟩ : UnitMapReply)) (Function.update_of_ne hne ..)
  refused _ _ _ _ h := Bool.noConfusion h

def dosSetup : Setup (Byte → Bool × List Byte) (Dos (Byte → Byte)) where
  target := .msdos
  catalog := memory
  platform := dosPlatform eightDrives
  diskErr := linuxSetup.diskErr
  mountErr := linuxSetup.mountErr

def dosOn : Machine (Byte → Bool × List Byte) (Dos (Byte → Byte)) where
  client := powerOn.client
  catalog := powerOn.catalog
  units := ⟨id, 0⟩
  out := []

/-- FMOUNT of slot 2 on D:, which is unit 1, and FUMOUNT of D: and of B:. -/
def dosEvening : List Line :=
  [.fin [ascii "2", ascii "TNFS:A"] [], .fmount [ascii "2", ascii "D:"] [], .fumount [ascii "d:"], .fumount [ascii "B:"]]

end NioApps.Shell
