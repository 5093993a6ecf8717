import NioApps.Spec.HostState
import NioApps.Spec.Shell

/-! Units, drives and slots on the different machines: `fnctl_find_drive_for_unit`,
`fnctl_get_unit_slot` and `fnctl_set_unit_slot` of the four `fnctl.c`.

On Linux, the Atari and the Amiga a unit's slot is a byte in the app store. Under MS-DOS the
device driver keeps it, and the drives are found by asking each of them; the driver is not
part of the repository and is a parameter. -/

namespace NioApps.Shell

open HostState (Backend Store)
open Service (maxUnits)

/-! ### The app store -/

def appNs : String := "nio.apps"

/-- `unit_key` -/
def unitKey (unit : Byte) : String := String.ofList (['u', 'n', 'i', 't', '.'] ++ [Char.ofNat (0x30 + unit.toNat % 10)])

/-- The store, whether its writes succeed, and the static variable of the Amiga version. -/
structure Units where
  store : Store
  accepts : ℕ → Bool
  unitSlots : Byte → Byte

/-- At the start of a program; `unit_slots` is filled by `ensure_state`. -/
def Units.restart (u : Units) : Units := { u with unitSlots := id }

/-- A drive's number, or 0. -/
def findDriveForUnit (b : Backend) (unit : Byte) : ℕ :=
  match b with
  | .linux | .atari => unit.toNat + 1
  | .amiga => if unit < maxUnits then unit.toNat + 1 else 0

/-- `fnctl_set_unit_slot` -/
def setUnitSlotStored (b : Backend) (unit slot : Byte) (u : Units) : Bool × Units :=
  if unit ≥ maxUnits ∨ slot ≥ maxUnits then (false, u)
  else
    let u :=
      match b with
      | .linux | .atari => u
      | .amiga => { u with unitSlots := Function.update u.unitSlots unit slot }
    let u' := { u with accepts := fun n => u.accepts (n + 1) }
    if u.accepts 0 then (true, { u' with store := Function.update u.store (appNs, unitKey unit) (some [slot]) })
    else (false, u')

def storePlatform (b : Backend) : Platform Units where
  findDriveForUnit unit _ := findDriveForUnit b unit
  setUnitSlot := setUnitSlotStored b
  restart := Units.restart

/-! ### MS-DOS -/

/-- `fnctl_query_t` after a call that succeeded. -/
structure Query where
  signature : List Byte
  unit : Byte
deriving DecidableEq, Repr

/-- `fnctl_unit_map_t` after a call that succeeded. -/
structure UnitMapReply where
  signature : List Byte
  slot : Byte
deriving DecidableEq, Repr

/-- What the driver answers through one of the drives; `none` and `false` when the call fails. -/
structure Driver (δ : Type) where
  /-- `FNCTL_QUERY` -/
  query : ℕ → δ → Option Query
  /-- `FNCTL_GET_UNIT_MAP` for a unit. -/
  getUnitMap : ℕ → Byte → δ → Option UnitMapReply
  /-- `FNCTL_SET_UNIT_MAP` for a unit and a slot. -/
  setUnitMap : ℕ → Byte → Byte → δ → Bool × δ

/-- The driver, and the static variable of `fnctl.c`. -/
structure Dos (δ : Type) where
  driver : δ
  cachedDrive : ℕ

section Msdos

variable {δ : Type} (drv : Driver δ)

/-- A drive of FujiNet. -/
def fujinet (d : δ) (drive : ℕ) : Bool := (drv.query drive d).any fun q => q.signature = HostState.signature

/-- The drives C: to Z:. -/
def dosDrives : List ℕ := List.range' 3 24

/-- `fnctl_find_drive` -/
def dosFindDrive (d : Dos δ) : ℕ × Dos δ :=
  if d.cachedDrive ≠ 0 then (d.cachedDrive, d)
  else
    match dosDrives.find? (fujinet drv d.driver) with
    | some drive => (drive, { d with cachedDrive := drive })
    | none => (0, d)

/-- `fnctl_find_drive_for_unit` -/
def dosFindDriveForUnit (unit : Byte) (d : Dos δ) : ℕ :=
  (dosDrives.find? fun drive => fujinet drv d.driver drive && (drv.query drive d.driver).any fun q => q.unit = unit).getD 0

/-- `fnctl_set_unit_slot` -/
def dosSetUnitSlot (unit slot : Byte) (d : Dos δ) : Bool × Dos δ :=
  let (drive, d) := dosFindDrive drv d
  if drive = 0 then (false, d)
  else
    let (ok, driver) := drv.setUnitMap drive unit slot d.driver
    (ok, { d with driver })

def dosPlatform : Platform (Dos δ) where
  findDriveForUnit := dosFindDriveForUnit drv
  setUnitSlot := dosSetUnitSlot drv
  restart d := { d with cachedDrive := 0 }

/-- The driver keeps a slot for each unit: a call that it takes sets the one for the unit, and
nothing else; one that it refuses sets nothing. -/
structure Driver.Keeps : Prop where
  query : ∀ drive drive' unit slot d, drv.query drive' (drv.setUnitMap drive unit slot d).2 = drv.query drive' d
  taken : ∀ drive unit slot d, fujinet drv d drive = true → (drv.setUnitMap drive unit slot d).1 = true →
    drv.getUnitMap drive unit (drv.setUnitMap drive unit slot d).2 = some ⟨HostState.signature, slot⟩
  other : ∀ drive unit unit' slot d, unit' ≠ unit →
    drv.getUnitMap drive unit' (drv.setUnitMap drive unit slot d).2 = drv.getUnitMap drive unit' d
  refused : ∀ drive unit slot d, (drv.setUnitMap drive unit slot d).1 = false →
    drv.getUnitMap drive unit (drv.setUnitMap drive unit slot d).2 = drv.getUnitMap drive unit d

end Msdos

/-! ### The machines -/

inductive Port (δ : Type)
  | store (b : Backend)
  | msdos (drv : Driver δ)

section Ports

variable {δ : Type}

abbrev Port.State : Port δ → Type
  | store _ => Units
  | msdos _ => Dos δ

def Port.platform : (p : Port δ) → Platform p.State
  | store b => storePlatform b
  | msdos drv => dosPlatform drv

/-- The driver is one that keeps its map. -/
def Port.Keeps : Port δ → Prop
  | store _ => True
  | msdos drv => drv.Keeps

end Ports

end NioApps.Shell
