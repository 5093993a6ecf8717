import Mathlib.Logic.Function.Basic
import NioApps.Spec.Arguments
import NioApps.Spec.Console
import NioApps.Spec.Service

/-! The commands over slots and drives: `main` of `fin.c`, `fout.c`, `fmount.c`, `fumount.c`,
`fboot.c` and `fdrive.c`, with the two functions of `fnsvc.c` for the slot catalog.

The slot catalog is a part of the NIO library, and where a drive is depends on the machine:
both are parameters. Each command is a program of its own, with the static variables of
`fnsvc.c` afresh; `typed` is its standard input, which the Atari versions read when they are
run without arguments. Standard output and standard error are one stream. -/

namespace NioApps.Shell

open Abort Commands Service
open AppStore (ascii decimal newline)

/-- `FNSVC_MOUNT_URI_MAX` -/
def mountUriMax : ℕ := 255

/-- `fn_slot_catalog_entry_t`; `uri_len` is the length of `uri`. -/
structure Entry where
  valid : Bool
  readOnly : Bool
  uri : List Byte
deriving DecidableEq, Repr

/-- The calls return the error code, or `FN_OK` and what they store. -/
structure Catalog (σ : Type) where
  get : Byte → σ → Except Byte Entry × σ
  /-- `fn_slot_catalog_put`, with the read-only flag. -/
  put : Byte → Bool → List Byte → σ → Except Byte Entry × σ
  delete : Byte → σ → Except Byte Bool × σ
  /-- `FN_ERR_NOT_FOUND` -/
  notFound : Byte

/-- The functions of `fnctl.c` that differ between the machines. A drive is a number from
1 on, or 0 when the unit has none. -/
structure Platform (τ : Type) where
  findDriveForUnit : Byte → τ → ℕ
  setUnitSlot : Byte → Byte → τ → Bool × τ
  /-- The static variables of `fnctl.c` at the start of a program. -/
  restart : τ → τ

/-- The `FN_DISK_ERR_*` codes that `mount_failure` knows. -/
structure MountErr where
  geometryRequired : Byte
  invalidGeometry : Byte
  fileNotFound : Byte
  noSuchFilesystem : Byte
  badImage : Byte
  unsupportedType : Byte
  openFailed : Byte

/-- What the commands are built for. -/
structure Setup (σ τ : Type) where
  target : Target
  catalog : Catalog σ
  platform : Platform τ
  diskErr : DiskErr
  mountErr : MountErr

structure Machine (σ τ : Type) where
  client : Client
  catalog : σ
  units : τ
  out : List Byte

abbrev Program (σ τ : Type) := EStateM Unit (Machine σ τ)

section Commands

variable {σ τ : Type} (e : Setup σ τ)

/-- A call of `fnsvc.c` that only uses its own variables. -/
def service {α : Type} (m : Svc α) : Program σ τ α := fun s =>
  match m.run s.client with
  | .ok a client => .ok a { s with client }
  | .error err client => .error err { s with client }

def print (bs : List Byte) : Program σ τ PUnit := modify fun s => { s with out := s.out ++ bs }

/-- `puts` -/
def puts (s : String) : Program σ τ PUnit := print (ascii s ++ [newline e.target])

/-- The string in a `char` array. -/
def cstr (a : List Byte) : List Byte := a.takeWhile (· ≠ 0)

/-! ### The slot catalog -/

/-- `fnsvc_mount_t` -/
structure Mount where
  enabled : Bool
  readOnly : Bool
  uri : List Byte
deriving DecidableEq, Repr

/-- After the `memset`. -/
def Mount.zero : Mount := ⟨false, false, []⟩

/-- `fnsvc_get_mount`, with the mount that it stores. -/
def getMount (slot : Byte) : Program σ τ (Bool × Mount) := do
  let s ← get
  let (result, catalog) := e.catalog.get slot s.catalog
  set { s with catalog }
  match result with
  | .error code =>
    if code = e.catalog.notFound then return (true, .zero)
    else return (← service (fail errTransport), .zero)
  | .ok entry =>
    if entry.valid = false ∨ entry.uri = [] then return (true, .zero)
    else return (true, ⟨true, entry.readOnly, cstr (entry.uri.take mountUriMax)⟩)

/-- `fnsvc_set_mount` -/
def setMount (slot : Byte) (uri : List Byte) (mode : String) (enabled : Bool) : Program σ τ Bool := do
  if enabled = false then
    let s ← get
    let (result, catalog) := e.catalog.delete slot s.catalog
    set { s with catalog }
    match result with
    | .error code => if code ≠ e.catalog.notFound then service (fail errTransport) else return true
    | .ok _ => return true
  else if uri = [] then service (fail errInvalidArg)
  else
    let uriLen := BitVec.ofNat 16 uri.length
    if uriLen.toNat > mountUriMax ∨ uriLen.toNat + 5 > maxData then service (fail errRequestTooLarge)
    else
      let s ← get
      let (result, catalog) := e.catalog.put slot (mode = "r") uri s.catalog
      set { s with catalog }
      match result with
      | .error _ => service (fail errTransport)
      | .ok _ => return true

/-! ### FIN and FOUT -/

def finUsage : String := "Usage: FIN [slot] image-uri-or-path"

/-- `prompt_args` of FIN -/
def finPrompt : Console.Dialog (Byte × List Byte) := do
  let line ← Console.ask e.target "Slot (blank=0): " 4
  match if line = [] then (true, some 0) else parseU8 (some line) (some 0) with
  | (true, some slot) =>
    let path ← Console.ask e.target "Image URI/path: " (mountUriMax + 1)
    return (slot, path)
  | _ => throw ()

/-- A path, which must not be empty. -/
def finPath (p : Byte × List Byte) : Except String (Byte × List Byte) := if p.2 = [] then .error finUsage else .ok p

/-- The slot and the path of FIN, or what it prints before it returns 1; first what it has
printed to ask for them. -/
def finArgs (args : List (List Byte)) (typed : List Byte) : List Byte × Except String (Byte × List Byte) :=
  match args with
  | [] =>
    if e.target = .atari then
      match Console.asked (finPrompt e) typed with
      | (printed, some p) => (printed, finPath p)
      | (printed, none) => (printed, .error "Bad slot")
    else ([], .error finUsage)
  | [path] => ([], if path.head? = some 0x3f then .error finUsage else finPath (0, path))
  | [slot, path] =>
    if slot.head? = some 0x3f then ([], .error finUsage)
    else
      match parseU8 (some slot) (some 0) with
      | (true, some slot) => ([], finPath (slot, path))
      | _ => ([], .error "Bad slot")
  | _ => ([], .error finUsage)

def slotLine (slot : Byte) (uri : List Byte) : List Byte :=
  ascii "Slot " ++ decimal slot.toNat ++ ascii ": " ++ uri ++ [newline e.target]

def fin (args : List (List Byte)) (typed : List Byte) : Program σ τ ℕ := do
  let (printed, result) := finArgs e args typed
  print printed
  match result with
  | .error text =>
    puts e text
    return 1
  | .ok (slot, path) =>
    if !(← setMount e slot path "rw" true) then
      puts e "Unable to persist mount slot"
      return 2
    else
      let (ok, mount) ← getMount e slot
      if ok ∧ mount.enabled ∧ mount.uri ≠ [] then print (slotLine e slot mount.uri) else print (slotLine e slot path)
      return 0

def foutUsage : String := "Usage: FOUT slot"

/-- `prompt_args` of FOUT -/
def foutPrompt : Console.Dialog Byte := do
  let line ← Console.ask e.target "Slot: " 4
  match parseU8 (some line) (some 0) with
  | (true, some slot) => return slot
  | _ => throw ()

/-- The slot of FOUT. -/
def foutArgs (args : List (List Byte)) (typed : List Byte) : List Byte × Except String Byte :=
  match args with
  | [] =>
    if e.target = .atari then
      match Console.asked (foutPrompt e) typed with
      | (printed, some slot) => (printed, .ok slot)
      | (printed, none) => (printed, .error foutUsage)
    else ([], .error foutUsage)
  | [arg] =>
    if arg.head? = some 0x3f then ([], .error foutUsage)
    else
      match parseU8 (some arg) (some 0) with
      | (true, some slot) => ([], .ok slot)
      | _ => ([], .error "Bad slot")
  | _ => ([], .error foutUsage)

def fout (args : List (List Byte)) (typed : List Byte) : Program σ τ ℕ := do
  let (printed, result) := foutArgs e args typed
  print printed
  match result with
  | .error text =>
    puts e text
    return 1
  | .ok slot =>
    if !(← setMount e slot [] "r" false) then
      puts e "Unable to clear mount slot"
      return 2
    else
      print (ascii "Slot " ++ decimal slot.toNat ++ ascii " cleared" ++ [newline e.target])
      return 0

/-! ### Drives -/

def isAlpha (c : Byte) : Bool := (0x41 ≤ c ∧ c ≤ 0x5a) ∨ (0x61 ≤ c ∧ c ≤ 0x7a)

def toUpper (c : Byte) : Byte := if 0x61 ≤ c ∧ c ≤ 0x7a then c - 0x20 else c

/-- A letter and a colon begin the string; the result is the letter. -/
def driveLetter : List Byte → Option Byte
  | c :: 0x3a :: _ => if isAlpha c then some c else none
  | _ => none

/-- `drive_to_unit` for a letter; `none` is -1. -/
def driveToUnit (c : Byte) (units : τ) : Option Byte :=
  let drive := (toUpper c).toNat - 0x41 + 1
  ((List.range maxUnits.toNat).map (BitVec.ofNat 8)).find? fun unit => e.platform.findDriveForUnit unit units = drive

def notADrive (c : Byte) : List Byte := [toUpper c] ++ ascii ": is not a FujiNet drive" ++ [newline e.target]

/-- The letter of a drive, or a question mark. -/
def letterOf (drive : ℕ) : Byte := if drive ≠ 0 then BitVec.ofNat 8 (0x41 + drive - 1) else 0x3f

/-! ### FMOUNT -/

structure MountArgs where
  slot : Byte
  unit : Byte
  readOnly : Byte
  sectorSize : Word
deriving DecidableEq, Repr

def mountUsage : List Byte :=
  ascii "Usage: FMOUNT slot [drive:] [RO|RW] [SS=bytes]" ++ [newline e.target] ++
    ascii "SS= sector size, for images NIO cannot identify" ++ [newline e.target]

/-- An argument of FMOUNT after the slot; otherwise what it prints before it returns 1. -/
def mountOption (units : τ) (arg : List Byte) (a : MountArgs) : Except (List Byte) MountArgs :=
  match driveLetter arg with
  | some c =>
    match driveToUnit e c units with
    | none => .error (notADrive e c)
    | some unit => .ok { a with unit }
  | none =>
    if equalsCi arg (ascii "RO") then .ok { a with readOnly := 1 }
    else if equalsCi arg (ascii "RW") then .ok { a with readOnly := 0 }
    else if (arg.take 3).map toUpper = ascii "SS=" then
      match parseSectorSize (arg.drop 3) a.sectorSize with
      | (true, sectorSize) => .ok { a with sectorSize }
      | _ => .error (ascii "Bad sector size (128, 256, 512 ... 4096)" ++ [newline e.target])
    else .error (mountUsage e)

/-- The line for the drive; blank keeps the unit of the slot. -/
def drivePrompt (units : τ) (slot : Byte) : Console.Dialog Byte := do
  match ← Console.ask e.target "Drive (blank=slot): " 4 with
  | [] => return slot
  | c :: _ =>
    match if isAlpha c then driveToUnit e c units else none with
    | some unit => return unit
    | none =>
      Console.say (notADrive e c)
      throw ()

/-- The line for the mode. -/
def modePrompt : Console.Dialog Byte := do
  let line ← Console.ask e.target "Mode RO/RW (blank=RW): " 4
  if line = [] then return 0
  else if equalsCi line (ascii "RO") then return 1
  else if equalsCi line (ascii "RW") then return 0
  else throw ()

/-- The line for the sector size. -/
def sectorPrompt : Console.Dialog Word := do
  let line ← Console.ask e.target "Sector size (blank=auto): " 6
  match if line = [] then (true, 0) else parseSectorSize line 0 with
  | (true, sectorSize) => return sectorSize
  | _ => throw ()

/-- `prompt_args` of FMOUNT -/
def mountPrompt (units : τ) : Console.Dialog MountArgs := do
  let line ← Console.ask e.target "Slot: " 4
  match parseU8 (some line) (some 0) with
  | (true, some slot) =>
    let unit ← drivePrompt e units slot
    let readOnly ← modePrompt e
    let sectorSize ← sectorPrompt e
    return { slot, unit, readOnly, sectorSize }
  | _ => throw ()

/-- The check before the mount. -/
def MountArgs.checked (a : MountArgs) : Except (List Byte) MountArgs :=
  if a.unit ≥ maxUnits then .error (ascii "Bad drive" ++ [newline e.target]) else .ok a

/-- The arguments of FMOUNT, or what it prints before it returns 1; first what it has printed
to ask for them. -/
def mountArgs (units : τ) (args : List (List Byte)) (typed : List Byte) : List Byte × Except (List Byte) MountArgs :=
  match args with
  | [] =>
    if e.target = .atari then
      match Console.asked (mountPrompt e units) typed with
      | (printed, some a) => (printed, a.checked e)
      | (printed, none) => (printed, .error (mountUsage e))
    else ([], .error (mountUsage e))
  | arg :: rest =>
    if rest.length > 3 ∨ arg.head? = some 0x3f then ([], .error (mountUsage e))
    else
      match parseU8 (some arg) (some 0) with
      | (true, some slot) =>
        ([], rest.foldlM (fun a arg => mountOption e units arg a) ⟨slot, slot, 0, 0⟩ >>= MountArgs.checked e)
      | _ => ([], .error (ascii "Bad slot" ++ [newline e.target]))

def mountFailure (error : Byte) : Option String :=
  if error = e.mountErr.geometryRequired then some "NIO cannot tell this image's sector size; add SS=<bytes>"
  else if error = e.mountErr.invalidGeometry then some "sector size does not fit the image"
  else if error = e.mountErr.fileNotFound then some "image not found"
  else if error = e.mountErr.noSuchFilesystem then some "no such filesystem"
  else if error = e.mountErr.badImage then some "image is damaged or mislabelled"
  else if error = e.mountErr.unsupportedType then some "unsupported image type"
  else if error = e.mountErr.openFailed then some "image could not be opened"
  else none

/-- What FMOUNT prints about `fnsvc_disk_last_error`. -/
def mountFailed (error : Byte) : List Byte :=
  match mountFailure e error with
  | some why => ascii "Disk mount failed: " ++ ascii why ++ ascii " (error " ++ decimal error.toNat ++ ascii ")" ++ [newline e.target]
  | none => ascii "Disk mount failed" ++ [newline e.target]

/-- `fnctl_set_unit_slot` -/
def setUnitSlot (unit slot : Byte) : Program σ τ Bool := do
  let s ← get
  let (ok, units) := e.platform.setUnitSlot unit slot s.units
  set { s with units }
  return ok

/-- The end of FMOUNT, of FUMOUNT and of FBOOT: the drive mapping is kept, and `done` printed. -/
def keepUnit (unit slot : Byte) (done : τ → List Byte) : Program σ τ ℕ := do
  if !(← setUnitSlot e unit slot) then
    puts e "Unable to update FujiNet drive mapping"
    return 2
  else
    print (done (← get).units)
    return 0

def fmount (args : List (List Byte)) (typed : List Byte) : Program σ τ ℕ := do
  let (printed, result) := mountArgs e (← get).units args typed
  print printed
  match result with
  | .error text =>
    print text
    return 1
  | .ok a =>
    let (ok, mount) ← getMount e a.slot
    if !ok ∨ !mount.enabled ∨ mount.uri = [] then
      print (ascii "Slot " ++ decimal a.slot.toNat ++ ascii " has no image selected" ++ [newline e.target])
      return 2
    else if !(← service (diskMount e.diskErr a.unit mount.uri a.readOnly a.sectorSize)) then
      print (mountFailed e (← get).client.diskLastError)
      return 2
    else
      keepUnit e a.unit a.unit fun units => ascii "Mounted slot " ++ decimal a.slot.toNat ++ ascii " on " ++
        [letterOf (e.platform.findDriveForUnit a.unit units)] ++ ascii ":" ++ [newline e.target]

/-! ### FUMOUNT and FBOOT -/

/-- The unit of the drive in the argument; otherwise what is printed. -/
def unitOf (units : τ) (arg : List Byte) (use : String) : Except (List Byte) (Byte × Byte) :=
  if arg.head? = some 0x3f then .error (ascii use ++ [newline e.target])
  else
    match driveLetter arg with
    | none => .error (ascii use ++ [newline e.target])
    | some c =>
      match driveToUnit e c units with
      | none => .error (notADrive e c)
      | some unit => .ok (c, unit)

def fumountArgs (units : τ) (args : List (List Byte)) : Except (List Byte) (Byte × Byte) :=
  match args with
  | [arg] => unitOf e units arg "Usage: FUMOUNT drive:"
  | _ => .error (ascii "Usage: FUMOUNT drive:" ++ [newline e.target])

def fumount (args : List (List Byte)) : Program σ τ ℕ := do
  match fumountArgs e (← get).units args with
  | .error text =>
    print text
    return 1
  | .ok (c, unit) =>
    if !(← service (diskUnmount e.diskErr unit)) then
      puts e "Unmount failed"
      return 2
    else keepUnit e unit 0 fun _ => ascii "Ejected " ++ [toUpper c] ++ ascii ":" ++ [newline e.target]

/-- `fnctl_status_name` -/
def statusName (status : Byte) : String :=
  (["OK", "DEVICE_NOT_FOUND", "INVALID_REQUEST", "DEVICE_BUSY", "NOT_READY", "IO_ERROR", "TIMEOUT", "INTERNAL_ERROR",
    "UNSUPPORTED"][status.toNat]?).getD "UNKNOWN"

def fbootArgs (units : τ) (args : List (List Byte)) : Except (List Byte) Byte :=
  match args with
  | [] => .ok 0
  | [arg] => (unitOf e units arg "Usage: FBOOT [drive:]").map Prod.snd
  | _ => .error (ascii "Usage: FBOOT [drive:]" ++ [newline e.target])

def fboot (args : List (List Byte)) : Program σ τ ℕ := do
  match fbootArgs e (← get).units args with
  | .error text =>
    print text
    return 1
  | .ok unit =>
    if !(← service (diskRestoreBoot e.diskErr unit)) then
      puts e "Boot disk restore failed"
      let c := (← get).client
      print (ascii "status=" ++ ascii (statusName c.lastStatus) ++ ascii "(" ++ decimal c.lastStatus.toNat ++ ascii ") err=" ++
        decimal c.lastError.toNat ++ ascii " raw=" ++ decimal c.lastRawError.toNat ++ [newline e.target])
      return 2
    else
      keepUnit e unit unit fun units => ascii "Restored boot disk on " ++
        [letterOf (e.platform.findDriveForUnit unit units)] ++ ascii ":" ++ [newline e.target]

/-! ### FDRIVE -/

def mountsTextSize : Word := 420

/-- The loop, for at most that many pages; `none` when these were not enough. `shown` is an
`unsigned`. -/
def fdriveLoop : ℕ → Word → ℕ → Program σ τ (Option ℕ)
  | 0, _, _ => return none
  | n + 1, start, shown => do
    if !(← service (diskListMounts e.diskErr start true mountsTextSize)) then
      puts e "Unable to list mounted images"
      return some 2
    else
      let c := (← get).client
      print (cstr c.mountText)
      let shown := (shown + c.mountCount.toNat) % 2 ^ e.target.int
      if c.mountMore ≠ 0 ∧ c.mountCount ≠ 0 then fdriveLoop n (start + c.mountCount) shown
      else if shown = 0 then
        puts e "No FujiNet mounted images found"
        return some 1
      else return some 0

def fdrive (n : ℕ) : Program σ τ (Option ℕ) := fdriveLoop e n 0 0

/-! ### Command lines -/

/-- A command line, with what is typed for those that may ask. -/
inductive Line
  | fin (args : List (List Byte)) (typed : List Byte)
  | fout (args : List (List Byte)) (typed : List Byte)
  | fmount (args : List (List Byte)) (typed : List Byte)
  | fumount (args : List (List Byte))
  | fboot (args : List (List Byte))
deriving DecidableEq, Repr

def Line.main (line : Line) : Program σ τ ℕ :=
  match line with
  | .fin args typed => Shell.fin e args typed
  | .fout args typed => Shell.fout e args typed
  | .fmount args typed => Shell.fmount e args typed
  | .fumount args => Shell.fumount e args
  | .fboot args => Shell.fboot e args

/-- The static variables at the start of a program; the machine and the device go on. -/
def fresh (s : Machine σ τ) : Machine σ τ :=
  { s with
    client := { Client.start e.diskErr s.client.answer with sent := s.client.sent }
    units := e.platform.restart s.units }

/-- A program that came to its end, with the machine before and after it. -/
structure Ran (σ τ : Type) where
  line : Line
  code : ℕ
  before : Machine σ τ
  after : Machine σ τ

/-- The programs one after another, up to the first that does not come to its end. -/
def session : List Line → Machine σ τ → List (Ran σ τ) × Machine σ τ
  | [], s => ([], s)
  | line :: lines, s =>
    match (line.main e).run (fresh e s) with
    | .ok code s' =>
      let (rans, last) := session lines s'
      (⟨line, code, fresh e s, s'⟩ :: rans, last)
    | .error _ s' => ([], s')

end Commands

/-! ### What the commands are for -/

/-- The slots that have an image: whether it is read-only, and its URI. -/
abbrev Slots := Byte → Option (Bool × List Byte)

/-- The catalog keeps `slots`. A call that fails, other than for a slot that is not there,
may have done its work or not. -/
structure Keeps {σ : Type} (catalog : Catalog σ) (slots : σ → Slots) : Prop where
  get : ∀ slot s, slots (catalog.get slot s).2 = slots s ∧
    (∀ entry, (catalog.get slot s).1 = .ok entry →
      slots s slot = if entry.valid = false ∨ entry.uri = [] then none else some (entry.readOnly, entry.uri)) ∧
    ((catalog.get slot s).1 = .error catalog.notFound → slots s slot = none)
  put : ∀ slot readOnly uri s, uri ≠ [] →
    slots (catalog.put slot readOnly uri s).2 = Function.update (slots s) slot (some (readOnly, uri)) ∨
      (∃ code, (catalog.put slot readOnly uri s).1 = .error code) ∧ slots (catalog.put slot readOnly uri s).2 = slots s
  delete : ∀ slot s, slots (catalog.delete slot s).2 = Function.update (slots s) slot none ∨
    (∃ code, (catalog.delete slot s).1 = .error code ∧ code ≠ catalog.notFound) ∧
      slots (catalog.delete slot s).2 = slots s

inductive Action
  | select (slot : Byte) (path : List Byte)
  | clear (slot : Byte)
  | mount (a : MountArgs)
  | unmount (unit : Byte)
  | restore (unit : Byte)
deriving DecidableEq, Repr

section Actions

variable {σ τ : Type} (e : Setup σ τ)

/-- What a command line asks for; `none` when its arguments are refused. -/
def Line.action (units : τ) : Line → Option Action
  | .fin args typed => (finArgs e args typed).2.toOption.map fun p => .select p.1 p.2
  | .fout args typed => (foutArgs e args typed).2.toOption.map .clear
  | .fmount args typed => (mountArgs e units args typed).2.toOption.map .mount
  | .fumount args => (fumountArgs e units args).toOption.map fun p => .unmount p.2
  | .fboot args => (fbootArgs e units args).toOption.map .restore

/-- The URI that a program reads from the catalog. -/
def mountUri (uri : List Byte) : List Byte := cstr (uri.take mountUriMax)

end Actions

end NioApps.Shell
