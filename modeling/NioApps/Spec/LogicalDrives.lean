import NioApps.Spec.Endpoints

/-! What FMOUNT and FUMOUNT are for under Kickstart 1.3: eight static endpoints, each for one
kind of media, what a run changes by its message, and over the endpoints two drives that
take any kind. -/

namespace NioApps.Kick13

open Commands
open AppStore (ascii decimal)

variable {Image : Type}

/-! ### The static endpoints -/

def profileOf (unit : Fin 8) : Profile := if unit.val / 2 % 2 = 0 then .ddAdf else .hdAdf

def dostypeOf (unit : Fin 8) : DosType := if unit.val < 4 then .ffs else .ofs

/-- The logical unit that an endpoint may serve. -/
def logicalOf (unit : Fin 8) : Fin 2 := ⟨unit.val % 2, by omega⟩

/-- The entry of the MountList for the unit. -/
def staticEndpoint (unit : Fin 8) : Endpoint :=
  ⟨unit, labelOf (if profileOf unit = .ddAdf then 0x44 else 0x48) (if dostypeOf unit = .ffs then 0x4e else 0x4f) (logicalOf unit),
    profileOf unit, dostypeOf unit⟩

def unitLabel (unit : Fin 8) : List Byte := (staticEndpoint unit).label

/-- The image is of the kind that the unit is for. -/
def Support.Suits (lib : Support Image) (image : Image) (unit : Fin 8) : Prop :=
  lib.classifyMediaProfile image = some (profileOf unit) ∧ lib.classifyFilesystem image = some (dostypeOf unit)

def System.Suits (lib : Support Image) (s : System Image) : Prop :=
  ∀ unit m, s.media unit = some m → lib.Suits m.image unit

/-- The label in the file of a logical unit. -/
def logged (file : Option (List Byte)) (answer : Bool) : Option (List Byte) :=
  (readLabel file answer).filter fun label => label[3]? = some 0x3a

/-- The unit and the label there. -/
def loaded (file : Option (List Byte)) (answer : Bool) : Option (Fin 8 × List Byte) := (logged file answer).bind parseEndpointName

/-- The file of an endpoint says that its handler has been started. -/
def wasStarted (file : Option (List Byte)) (label : List Byte) (answer : Bool) : Bool :=
  (readLabel file answer).any fun recorded => decide (recorded.take 3 = label.take 3) && decide (recorded[3]? = some 0x3a)

namespace System

variable (s : System Image)

def insert (unit : Fin 8) (m : Medium Image) : System Image := { s with media := Function.update s.media unit (some m) }

def remove (unit : Fin 8) : System Image := { s with media := Function.update s.media unit none }

/-- The handler is started, and that is written down. -/
def launch (unit : Fin 8) (label : List Byte) (answer : Option ℕ) : System Image :=
  { s with
    mounts := s.mounts ++ [label]
    endpoints := Function.update s.endpoints unit (written (s.endpoints unit) label answer) }

/-- A logical unit is written down by the label that it is mounted on. -/
def record (target : Target) (label : List Byte) (answer : Option ℕ) : System Image :=
  match target with
  | .endpoint _ => s
  | .logical index => { s with logical := Function.update s.logical index (written (s.logical index) label answer) }

def clear (index : Fin 2) (answer : Bool) : System Image :=
  if answer = true then { s with logical := Function.update s.logical index none } else s

/-- The file of the logical unit goes when it names the label. -/
def clearMatching (a : FumountAnswers) (label : List Byte) (index : Fin 2) : System Image :=
  if ((loaded (s.logical index) (a.readLogical index)).map fun found => found.2.take 3) = some (label.take 3) then
    s.clear index (a.delete index)
  else s

/-- The files after the eject. -/
def forget (a : FumountAnswers) (logicalUnit : Option (Fin 2)) (label : List Byte) : System Image :=
  match logicalUnit with
  | some index => s.clear index (a.delete index)
  | none => (s.clearMatching a label ⟨0, Nat.zero_lt_two⟩).clearMatching a label ⟨1, Nat.one_lt_two⟩

end System

/-- The image that FMOUNT is to mount, and where. -/
structure Asks (lib : Support Image) (args : List (List Byte)) (a : FmountAnswers Image) (target : Target) (m : Medium Image)
    (profile : Profile) (dostype : DosType) : Prop where
  slot : kick13Main args = .slot m.slot
  options : parseOptions args.tail = some ⟨some target, !m.writable⟩
  opens : a.opens = true
  image : a.image = some m.image
  profile : lib.classifyMediaProfile m.image = some profile
  dostype : lib.classifyFilesystem m.image = some dostype

/-- The unit is the one that is named, or the one of the logical unit that is named. -/
def Target.Serves (target : Target) (unit : Fin 8) : Prop :=
  match target with
  | .endpoint e => e = staticEndpoint unit
  | .logical index => index = logicalOf unit

/-- The handler of the unit, when the program goes on. -/
inductive Starts (a : FmountAnswers Image) (unit : Fin 8) (label : List Byte) (s : System Image) : System Image → Prop
  | before (h : wasStarted (s.endpoints unit) label a.readStarted = true) : Starts a unit label s s
  | now (h : wasStarted (s.endpoints unit) label a.readStarted = false) (hexecute : a.execute = true) :
    Starts a unit label s (s.launch unit label a.writeStarted)

/-- The unit that FUMOUNT is to empty: the logical unit it was named by, the unit and the label. -/
def fumountUnit (args : List (List Byte)) (a : FumountAnswers) (s : System Image) : Option (Option (Fin 2) × Fin 8 × List Byte) :=
  match args with
  | [arg] =>
    if arg.head? = some 0x3f then none
    else
      match parseLogicalUnit arg with
      | some index => (loaded (s.logical index) (a.readLogical index)).map fun found => (some index, found)
      | none => (parseEndpointName arg).map fun found => (none, found)
  | _ => none

structure FmountAnswers.Works (a : FmountAnswers Image) : Prop where
  readLogical : a.readLogical = true
  readStarted : a.readStarted = true
  execute : a.execute = true
  writeStarted : a.writeStarted = some 4
  writeLogical : a.writeLogical = some 4

structure FumountAnswers.Works (a : FumountAnswers) : Prop where
  readLogical : ∀ index, a.readLogical index = true
  delete : ∀ index, a.delete index = true

def Event.Works : Event Image → Prop
  | .fmount _ a => a.Works
  | .fumount _ a => a.Works

/-- The files in T: and what has been started agree. -/
structure System.Kept (s : System Image) : Prop where
  once : s.mounts.Nodup
  started : ∀ unit, s.endpoints unit = if unitLabel unit ∈ s.mounts then some (unitLabel unit) else none
  ready : ∀ unit, (s.media unit).isSome → unitLabel unit ∈ s.mounts
  logical : ∀ index label, s.logical index = some label →
    ∃ unit, label = unitLabel unit ∧ logicalOf unit = index ∧ (s.media unit).isSome

/-! ### The two drives -/

abbrev Drives (Image : Type) := Fin 2 → Option (Medium Image)

/-- The endpoint for an image in the drive. -/
def Support.endpoint (lib : Support Image) (index : Fin 2) (image : Image) : Option Endpoint := do
  let profile ← lib.classifyMediaProfile image
  let dostype ← lib.classifyFilesystem image
  return endpointForMedia index profile dostype

namespace Drives

variable (lib : Support Image) (d : Drives Image)

/-- The label that a drive goes by. -/
def label (index : Fin 2) : Option (List Byte) := (d index).bind fun m => (lib.endpoint index m.image).map Endpoint.label

def mount (a : FmountAnswers Image) (slot : Byte) (index : Fin 2) (readonly : Bool) : FmountExit × Drives Image :=
  match a.opens, a.image.bind fun image => (lib.endpoint index image).map fun e => (image, e) with
  | false, _ => (.cannotOpen, d)
  | true, none => (.unsupported, d)
  | true, some (image, e) =>
    match label lib d index with
    | some label => (.occupied index label, d)
    | none =>
      if a.reopens = false then (.cannotOpen, d)
      else if a.mount ≠ 0 then (.mountFailed a.mount, d)
      else (.mounted slot e.label e.profile e.dostype, Function.update d index (some ⟨slot, !readonly, image⟩))

def fmount (args : List (List Byte)) (a : FmountAnswers Image) : FmountExit × Drives Image :=
  match Commands.kick13Main args, parseOptions args.tail with
  | .usage, _ => (.usage, d)
  | .badSlot, _ => (.badSlot, d)
  | .slot _, none => (.usage, d)
  | .slot slot, some ⟨some (.logical index), readonly⟩ => mount lib d a slot index readonly
  | .slot _, some _ => (.noTarget, d)

/-- The drive is emptied, unless something fails. -/
def eject (a : FumountAnswers) (index : Fin 2) (unit : Fin 8) : FumountExit × Drives Image :=
  if a.port = false then (.noPort, d)
  else if a.request = false then (.noRequest, d)
  else if a.opens = false then (.cannotOpen unit, d)
  else if a.eject ≠ 0 then (.ejectFailed a.eject, d)
  else (.ejected (unitLabel unit), if label lib d index = some (unitLabel unit) then Function.update d index none else d)

/-- A drive is named by its number, or by the endpoint that serves it. -/
def fumount (args : List (List Byte)) (a : FumountAnswers) : FumountExit × Drives Image :=
  match args with
  | [arg] =>
    if arg.head? = some 0x3f then (.usage, d)
    else
      match parseLogicalUnit arg, parseEndpoint arg with
      | some index, _ =>
        match (d index).bind fun m => lib.endpoint index m.image with
        | some e => eject lib d a index e.unit
        | none => (.usage, d)
      | none, some e => eject lib d a (logicalOf e.unit) e.unit
      | none, none => (.usage, d)
  | _ => (.usage, d)

def exec : Event Image → Exit × Drives Image
  | .fmount args a => (fmount lib d args a).map .fmount id
  | .fumount args a => (fumount lib d args a).map .fumount id

/-- How the programs end, and what the drives hold after them. -/
def session : List (Event Image) → Drives Image → List Exit × Drives Image
  | [], d => ([], d)
  | e :: es, d => let (exit, d) := exec lib d e; (session es d).map (exit :: ·) id

end Drives

/-- FMOUNT is not asked for an endpoint. -/
def Event.ByDrive : Event Image → Prop
  | .fmount args _ => ∀ arg ∈ args.tail, parseEndpoint arg = none
  | .fumount _ _ => True

/-- The drives as the units and the files in T: show them. -/
structure Shows (lib : Support Image) (s : System Image) (d : Drives Image) : Prop where
  suits : ∀ index m, d index = some m → (lib.endpoint index m.image).isSome
  media : ∀ unit, s.media unit = if d.label lib (logicalOf unit) = some (unitLabel unit) then d (logicalOf unit) else none
  logical : ∀ index, s.logical index = d.label lib index

end NioApps.Kick13
