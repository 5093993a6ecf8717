import NioApps.Spec.Endpoints

/-! FMOUNTRESTORE (`platform/amiga/fmountrestore.c`): the mappings of units to slots that the
firmware stored become one FMOUNT for each unit; with the arguments of FMOUNT
(`platform/amiga/fmount.c`) under Kickstart 2 or later, which reads them. -/

namespace NioApps.Restore

open Commands Kick13
open AppStore (ascii decimal)

/-! ### The arguments of FMOUNT -/

/-- `drive_to_unit`; `none` is -1. -/
def driveToUnit : List Byte → Option ℕ
  | [c] => if 0x30 ≤ c ∧ c ≤ 0x37 then some (c - 0x30).toNat else none
  | d :: n :: c :: s =>
    if (d = 0x44 ∨ d = 0x64) ∧ (n = 0x4e ∨ n = 0x6e) ∧ 0x30 ≤ c ∧ c ≤ 0x37 ∧ (s.head? = some 0x3a ∨ s = []) then
      some (c - 0x30).toNat
    else none
  | _ => none

/-- `unit` and `readonly` after an argument; `none` is the usage. -/
def fmountOption (o : ℕ × Bool) (s : List Byte) : Option (ℕ × Bool) :=
  match driveToUnit s with
  | some unit => some (unit, o.2)
  | none => if isRo s then some (o.1, true) else if isRw s then some (o.1, false) else none

inductive FmountArgs
  | usage
  | badSlot
  | badDrive
  | mount (slot : Byte) (unit : ℕ) (readonly : Bool)
deriving DecidableEq, Repr

/-- The start of `main`, up to the request; `maxUnit` is `FUJINET_DISK_MAX_UNIT` of the
driver. -/
def fmountArgs (maxUnit : ℕ) (args : List (List Byte)) : FmountArgs :=
  match kick2Main args with
  | .usage => .usage
  | .badSlot => .badSlot
  | .slot slot =>
    match args.tail.foldlM fmountOption (slot.toNat, false) with
    | none => .usage
    | some (unit, readonly) => if unit > maxUnit then .badDrive else .mount slot unit readonly

/-- The words of a command line. -/
def words (s : List Byte) : List (List Byte) := (s.splitOn 0x20).filter (· ≠ [])

/-! ### FMOUNTRESTORE -/

def mappingsSize : ℕ := 17

structure Mapping where
  flags : Byte
  slot : Byte
deriving DecidableEq, Repr

def Mapping.valid (m : Mapping) : Bool := m.flags &&& 0x01 ≠ 0

def Mapping.readonly (m : Mapping) : Bool := m.flags &&& 0x02 ≠ 0

def mappingAt (mappings : List Byte) (unit : Fin 8) : Mapping :=
  ⟨mappings.getD (1 + unit * 2) 0, mappings.getD (2 + unit * 2) 0⟩

def modeText (readonly : Bool) : List Byte := ascii (if readonly then "RO" else "RW")

/-- What `sprintf` puts into `command`. -/
def command (unit : Fin 8) (m : Mapping) : List Byte :=
  ascii "SYS:C/fmount " ++ decimal m.slot.toNat ++ ascii " DN" ++ decimal unit ++ ascii ": " ++ modeText m.readonly

def unitText (unit : Fin 8) (m : Mapping) : List Byte :=
  ascii "FMOUNTRESTORE unit=" ++ decimal unit ++ ascii " slot=" ++ decimal m.slot.toNat

/-- The exit code, the commands that were started, and the output. -/
structure Outcome where
  code : ℕ
  commands : List (List Byte)
  out : List Byte
deriving DecidableEq, Repr

/-- The second loop; `results n` is what the command after `n` others returns. -/
def restoreUnits (mappings : List Byte) (restored : ℕ) : List (Fin 8) → (ℕ → Long) → Outcome
  | [], _ => ⟨0, [], ascii "FMOUNTRESTORE restored=" ++ decimal restored ++ ascii "\n"⟩
  | unit :: units, results =>
    let m := mappingAt mappings unit
    if m.valid = false then restoreUnits mappings restored units results
    else if results 0 ≠ 0 then ⟨10, [command unit m], unitText unit m ++ ascii " rc=" ++ longText (results 0) ++ ascii "\n"⟩
    else
      let rest := restoreUnits mappings restored units fun n => results (n + 1)
      ⟨rest.code, command unit m :: rest.commands,
        unitText unit m ++ ascii " mode=" ++ modeText m.readonly ++ ascii "\n" ++ rest.out⟩

/-- The units of the loops. -/
def units : List (Fin 8) := [0, 1, 2, 3, 4, 5, 6, 7]

def validUnits (mappings : List Byte) : List (Fin 8) := units.filter fun unit => (mappingAt mappings unit).valid

/-- `stored` is the answer to the read: `none` when it fails, else whether there are
mappings, and the bytes that were read. -/
def fmountrestore (stored : Option (Bool × List Byte)) (results : ℕ → Long) : Outcome :=
  match stored with
  | none => ⟨20, [], ascii "FMOUNTRESTORE mappings=read-failed\n"⟩
  | some (found, mappings) =>
    if found = false then ⟨0, [], ascii "FMOUNTRESTORE mappings=none\n"⟩
    else if mappings.length ≠ mappingsSize ∨ mappings.getD 0 0 ≠ 1 then ⟨20, [], ascii "FMOUNTRESTORE mappings=invalid\n"⟩
    else restoreUnits mappings (validUnits mappings).length units results

/-! ### What it is for -/

/-- The mappings of version 1. -/
def Usable (mappings : List Byte) : Prop := mappings.length = mappingsSize ∧ mappings.getD 0 0 = 1

/-- The FMOUNT that a valid mapping stands for. -/
def mountOf (mappings : List Byte) (unit : Fin 8) : FmountArgs :=
  .mount (mappingAt mappings unit).slot unit (mappingAt mappings unit).readonly

def wanted (mappings : List Byte) : List FmountArgs := (validUnits mappings).map (mountOf mappings)

/-- The exit code, and the FMOUNTs as these programs read their arguments. -/
inductive Restored (stored : Option (Bool × List Byte)) (results : ℕ → Long) : ℕ → List FmountArgs → Prop
  | all {mappings : List Byte} (hstored : stored = some (true, mappings)) (huse : Usable mappings)
      (hok : ∀ i < (wanted mappings).length, results i = 0) : Restored stored results 0 (wanted mappings)
  | stopped {mappings : List Byte} {k : ℕ} (hstored : stored = some (true, mappings)) (huse : Usable mappings)
      (hk : k < (wanted mappings).length) (hbefore : ∀ i < k, results i = 0) (hfailed : results k ≠ 0) :
      Restored stored results 10 ((wanted mappings).take (k + 1))
  | nothing {mappings : List Byte} (hstored : stored = some (false, mappings)) : Restored stored results 0 []
  | unreadable (hstored : stored = none) : Restored stored results 20 []
  | invalid {mappings : List Byte} (hstored : stored = some (true, mappings)) (huse : ¬Usable mappings) :
      Restored stored results 20 []

end NioApps.Restore
