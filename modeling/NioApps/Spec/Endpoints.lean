import NioApps.Lib.Abort
import NioApps.Spec.AppStore
import NioApps.Spec.Arguments

/-! FMOUNT (`platform/amiga/fmount.c`) and FUMOUNT (`platform/amiga/fumount.c`) as built for
Kickstart 1.3: the eight units of the driver, the handlers that C:Mount started, and the
files in T: from which the programs know what earlier runs did.

What the system answers comes with each run. -/

namespace NioApps.Kick13

open Abort Commands
open AppStore (ascii decimal)

abbrev Long := BitVec 32

/-! ### Names -/

/-- The profiles `FUJINET_DISK_MEDIA_PROFILE_`. -/
inductive Profile
  | ddAdf
  | hdAdf
  | other (kind : ℕ)
deriving DecidableEq, Repr

/-- The types `FUJINET_AMIGA_DOS_`. -/
inductive DosType
  | ffs
  | ofs
  | other (dostype : Long)
deriving DecidableEq, Repr

/-- `wb13_endpoint_t` -/
structure Endpoint where
  unit : Fin 8
  label : List Byte
  profile : Profile
  dostype : DosType
deriving DecidableEq, Repr

/-- The four characters of a label. -/
def labelOf (first second : Byte) (index : Fin 2) : List Byte := [first, second, 0x30 + BitVec.ofNat 8 index, 0x3a]

def indexOf (c : Byte) : Option (Fin 2) := if c = 0x30 then some 0 else if c = 0x31 then some 1 else none

/-- The start of both `parse_endpoint`: `first`, `second` and `index`. -/
def endpointName (s : List Byte) : Option (Byte × Byte × Fin 2) :=
  match s with
  | a :: b :: c :: rest =>
    if a = 0 ∨ b = 0 ∨ ¬(rest = [] ∨ rest = [0x3a]) then none
    else (indexOf c).map fun index => (a &&& 0xdf, b &&& 0xdf, index)
  | _ => none

/-- `parse_endpoint` of FMOUNT. -/
def parseEndpoint (s : List Byte) : Option Endpoint := do
  let (first, second, index) ← endpointName s
  let label := labelOf first second index
  if first = 0x44 ∧ second = 0x4e then some ⟨⟨index, by omega⟩, label, .ddAdf, .ffs⟩
  else if first = 0x48 ∧ second = 0x4e then some ⟨⟨2 + index, by omega⟩, label, .hdAdf, .ffs⟩
  else if first = 0x44 ∧ second = 0x4f then some ⟨⟨4 + index, by omega⟩, label, .ddAdf, .ofs⟩
  else if first = 0x48 ∧ second = 0x4f then some ⟨⟨6 + index, by omega⟩, label, .hdAdf, .ofs⟩
  else none

/-- `parse_endpoint` of FUMOUNT: the unit and `dos_name`. -/
def parseEndpointName (s : List Byte) : Option (Fin 8 × List Byte) := do
  let (first, second, index) ← endpointName s
  let dosName := labelOf first second index
  if first = 0x44 ∧ second = 0x4e then some (⟨index, by omega⟩, dosName)
  else if first = 0x48 ∧ second = 0x4e then some (⟨2 + index, by omega⟩, dosName)
  else if first = 0x44 ∧ second = 0x4f then some (⟨4 + index, by omega⟩, dosName)
  else if first = 0x48 ∧ second = 0x4f then some (⟨6 + index, by omega⟩, dosName)
  else none

def parseLogicalUnit (s : List Byte) : Option (Fin 2) :=
  match s with
  | [c] => indexOf c
  | _ => none

def endpointForMedia (index : Fin 2) (profile : Profile) (dostype : DosType) : Endpoint :=
  if profile = .ddAdf ∧ dostype = .ffs then ⟨⟨index, by omega⟩, labelOf 0x44 0x4e index, profile, dostype⟩
  else if profile = .hdAdf ∧ dostype = .ffs then ⟨⟨2 + index, by omega⟩, labelOf 0x48 0x4e index, profile, dostype⟩
  else if profile = .ddAdf ∧ dostype = .ofs then ⟨⟨4 + index, by omega⟩, labelOf 0x44 0x4f index, profile, dostype⟩
  else ⟨⟨6 + index, by omega⟩, labelOf 0x48 0x4f index, profile, dostype⟩

/-! ### The system -/

/-- The image of a slot of the catalog, in a unit. -/
structure Medium (Image : Type) where
  slot : Byte
  writable : Bool
  image : Image
deriving DecidableEq, Repr

/-- What the programs use of the support library of the driver, which is not part of the repository. -/
structure Support (Image : Type) where
  classifyMediaProfile : Image → Option Profile
  classifyFilesystem : Image → Option DosType

structure System (Image : Type) where
  media : Fin 8 → Option (Medium Image)
  /-- `T:FNLA` and `T:FNLB` -/
  logical : Fin 2 → Option (List Byte)
  /-- `T:FNM0` to `T:FNM7` -/
  endpoints : Fin 8 → Option (List Byte)
  /-- What C:Mount was run for. -/
  mounts : List (List Byte)

def System.boot {Image : Type} : System Image := ⟨fun _ => none, fun _ => none, fun _ => none, []⟩

abbrev Dos (Image : Type) := EStateM Unit (System Image)

variable {Image : Type}

/-! What a file in T: gives to `Read`, and what `Write` leaves of a label: `answer` says whether the file
can be read, and how many bytes were written if it could be opened. -/

def readLabel (file : Option (List Byte)) (answer : Bool) : Option (List Byte) :=
  match file with
  | some bytes => if answer = true ∧ 4 ≤ bytes.length then some (bytes.take 4) else none
  | none => none

def written (file : Option (List Byte)) (label : List Byte) (answer : Option ℕ) : Option (List Byte) :=
  match answer with
  | some n => some (label.take n)
  | none => file

/-! ### FMOUNT -/

/-- What a run of FMOUNT is answered. -/
structure FmountAnswers (Image : Type) where
  /-- The port, the request and the device. -/
  opens : Bool
  /-- The image in the slot, if it can be inspected. -/
  image : Option Image
  readLogical : Bool
  /-- The same for the unit of the media. -/
  reopens : Bool
  mount : Long
  readStarted : Bool
  execute : Bool
  writeStarted : Option ℕ
  writeLogical : Option ℕ

/-- `explicit_endpoint` with `endpoint`, or `logical_unit`. -/
inductive Target
  | endpoint (e : Endpoint)
  | logical (index : Fin 2)
deriving DecidableEq, Repr

structure Options where
  target : Option Target
  readonly : Bool
deriving DecidableEq, Repr

def isRo (s : List Byte) : Bool := s.length = 2 ∧ (s.head? = some 0x52 ∨ s.head? = some 0x72) ∧ (s[1]? = some 0x4f ∨ s[1]? = some 0x6f)

def isRw (s : List Byte) : Bool := s.length = 2 ∧ (s.head? = some 0x52 ∨ s.head? = some 0x72) ∧ (s[1]? = some 0x57 ∨ s[1]? = some 0x77)

/-- A turn of the loop over the arguments from the second on; `none` is the usage. -/
def parseOption (o : Options) (s : List Byte) : Option Options :=
  match parseEndpoint s with
  | some e => if o.target.isSome then none else some { o with target := some (.endpoint e) }
  | none =>
    match parseLogicalUnit s with
    | some index => if o.target.isSome then none else some { o with target := some (.logical index) }
    | none => if isRo s then some { o with readonly := true } else if isRw s then some { o with readonly := false } else none

def parseOptions (args : List (List Byte)) : Option Options := args.foldlM parseOption ⟨none, false⟩

/-- How a run ends; each ending carries what its message shows. -/
inductive FmountExit
  | usage
  | badSlot
  | noTarget
  | cannotOpen
  | unsupported
  | occupied (index : Fin 2) (label : List Byte)
  | mismatch (label : List Byte) (profile : Profile) (dostype : DosType)
  | mountFailed (result : Long)
  | cannotStart (label : List Byte)
  | mounted (slot : Byte) (label : List Byte) (profile : Profile) (dostype : DosType)
deriving DecidableEq, Repr

def FmountExit.code : FmountExit → ℕ
  | .cannotOpen => 20
  | .mounted _ _ _ _ => 0
  | _ => 10

/-- `%ld` -/
def longText (n : Long) : List Byte := if n.toInt < 0 then 0x2d :: decimal n.toInt.natAbs else decimal n.toNat

def mediaText (profile : Profile) (dostype : DosType) : List Byte :=
  ascii (if profile = .ddAdf then "DD" else "HD") ++ ascii ", " ++ ascii (if dostype = .ffs then "FFS" else "OFS")

def FmountExit.text : FmountExit → List Byte
  | .usage => ascii "Usage: FMOUNT slot 0|1|DN0:|DN1:|HN0:|HN1:|DO0:|DO1:|HO0:|HO1: [RO|RW]\n"
  | .badSlot => ascii "Bad slot\n"
  | .noTarget => ascii "WB1.3 requires a logical unit or static endpoint\n"
  | .cannotOpen => ascii "Cannot open fujinet-disk.device\n"
  | .unsupported => ascii "Unsupported candidate media\n"
  | .occupied index label => ascii "Logical unit " ++ decimal index ++ ascii " is mounted on " ++ label ++ ascii "; FUMOUNT " ++
      decimal index ++ ascii " first\n"
  | .mismatch label profile dostype => label ++ ascii " does not match this media (" ++ mediaText profile dostype ++ ascii ")\n"
  | .mountFailed result => ascii "Mount failed (" ++ longText result ++ ascii ")\n"
  | .cannotStart label => ascii "Cannot start " ++ label ++ ascii "\n"
  | .mounted slot label profile dostype => ascii "Mounted slot " ++ decimal slot.toNat ++ ascii " on " ++ label ++ ascii " (" ++
      mediaText profile dostype ++ ascii ")\n"

def recordStartedEndpoint (unit : Fin 8) (label : List Byte) (answer : Option ℕ) : Dos Image PUnit :=
  modify fun s => { s with endpoints := Function.update s.endpoints unit (written (s.endpoints unit) label answer) }

def endpointWasStarted (unit : Fin 8) (label : List Byte) (answer : Bool) : Dos Image Bool := do
  match readLabel ((← get).endpoints unit) answer with
  | none => return false
  | some recorded => return decide (recorded.take 3 = label.take 3) && decide (recorded[3]? = some 0x3a)

/-- The label of the endpoint that the logical unit is mounted on. -/
def logicalUnitIsMounted (index : Fin 2) (answer : Bool) : Dos Image (Option (List Byte)) := do
  match readLabel ((← get).logical index) answer with
  | none => return none
  | some label => if label[3]? = some 0x3a then return some label else return none

def recordLogicalUnit (index : Fin 2) (label : List Byte) (answer : Option ℕ) : Dos Image PUnit :=
  modify fun s => { s with logical := Function.update s.logical index (written (s.logical index) label answer) }

/-- `Execute` of C:Mount -/
def executeMount (label : List Byte) (answer : Bool) : Dos Image Bool := do
  if answer then modify fun s => { s with mounts := s.mounts ++ [label] }
  return answer

/-- FUJINET_DISK_CMD_MOUNT_CATALOG -/
def mountCatalog (unit : Fin 8) (m : Medium Image) (answer : Long) : Dos Image Long := do
  if answer = 0 then modify fun s => { s with media := Function.update s.media unit (some m) }
  return answer

/-- The endpoint for the media, unless the program ends. -/
def selectEndpoint (a : FmountAnswers Image) (target : Target) (profile : Profile) (dostype : DosType) :
    Dos Image (Except FmountExit Endpoint) := do
  match target with
  | .endpoint e => return .ok e
  | .logical index =>
    match ← logicalUnitIsMounted index a.readLogical with
    | some label => return .error (.occupied index label)
    | none =>
      if !a.reopens then return .error .cannotOpen
      return .ok (endpointForMedia index profile dostype)

/-- The endpoint gets its handler, unless an earlier run has seen to it: whether the program goes on. -/
def startEndpoint (a : FmountAnswers Image) (e : Endpoint) : Dos Image Bool := do
  if ← endpointWasStarted e.unit e.label a.readStarted then return true
  if !(← executeMount e.label a.execute) then return false
  recordStartedEndpoint e.unit e.label a.writeStarted
  return true

/-- From the check of the endpoint on. -/
def mountOn (a : FmountAnswers Image) (target : Target) (m : Medium Image) (profile : Profile) (dostype : DosType) (e : Endpoint) :
    Dos Image FmountExit := do
  if profile ≠ e.profile ∨ dostype ≠ e.dostype then return .mismatch e.label profile dostype
  let result ← mountCatalog e.unit m a.mount
  if result ≠ 0 then return .mountFailed result
  if !(← startEndpoint a e) then return .cannotStart e.label
  match target with
  | .logical index => recordLogicalUnit index e.label a.writeLogical
  | .endpoint _ => pure ()
  return .mounted m.slot e.label profile dostype

/-- From the opening of the device on. -/
def mountSlot (lib : Support Image) (a : FmountAnswers Image) (slot : Byte) (target : Target) (readonly : Bool) :
    Dos Image FmountExit := do
  if !a.opens then return .cannotOpen
  match a.image with
  | none => return .unsupported
  | some image =>
    match lib.classifyMediaProfile image, lib.classifyFilesystem image with
    | some profile, some dostype =>
      match ← selectEndpoint a target profile dostype with
      | .error exit => return exit
      | .ok e => mountOn a target ⟨slot, !readonly, image⟩ profile dostype e
    | _, _ => return .unsupported

def fmount (lib : Support Image) (args : List (List Byte)) (a : FmountAnswers Image) : Dos Image FmountExit := do
  match kick13Main args with
  | .usage => return .usage
  | .badSlot => return .badSlot
  | .slot slot =>
    match parseOptions args.tail with
    | none => return .usage
    | some ⟨none, _⟩ => return .noTarget
    | some ⟨some target, readonly⟩ => mountSlot lib a slot target readonly

/-! ### FUMOUNT -/

/-- What a run of FUMOUNT is answered. -/
structure FumountAnswers where
  readLogical : Fin 2 → Bool
  port : Bool
  request : Bool
  opens : Bool
  eject : Long
  delete : Fin 2 → Bool

inductive FumountExit
  | usage
  | noPort
  | noRequest
  | cannotOpen (unit : Fin 8)
  | ejectFailed (result : Long)
  | ejected (label : List Byte)
deriving DecidableEq, Repr

def FumountExit.code : FumountExit → ℕ
  | .usage => 10
  | .ejectFailed _ => 10
  | .ejected _ => 0
  | _ => 20

def FumountExit.text : FumountExit → List Byte
  | .usage => ascii "Usage: FUMOUNT 0|1|DN0:|DN1:|HN0:|HN1:|DO0:|DO1:|HO0:|HO1:\n"
  | .noPort => ascii "Cannot create message port\n"
  | .noRequest => ascii "Cannot create I/O request\n"
  | .cannotOpen unit => ascii "Cannot open fujinet-disk.device unit " ++ decimal unit ++ ascii "\n"
  | .ejectFailed result => ascii "Eject failed (" ++ longText result ++ ascii ")\n"
  | .ejected label => ascii "Ejected " ++ label ++ ascii "\n"

def loadLogicalEndpoint (index : Fin 2) (answer : Bool) : Dos Image (Option (Fin 8 × List Byte)) := do
  match readLabel ((← get).logical index) answer with
  | none => return none
  | some dosName => if dosName[3]? = some 0x3a then return parseEndpointName dosName else return none

/-- `DeleteFile` -/
def clearLogicalEndpoint (index : Fin 2) (answer : Bool) : Dos Image PUnit := do
  if answer then modify fun s => { s with logical := Function.update s.logical index none }

/-- A turn of the loop of `clear_matching_logical_endpoint`. -/
def clearMatching (a : FumountAnswers) (label : List Byte) (index : Fin 2) : Dos Image PUnit := do
  match ← loadLogicalEndpoint index (a.readLogical index) with
  | some (_, recorded) => if recorded.take 3 = label.take 3 then clearLogicalEndpoint index (a.delete index)
  | none => pure ()

def clearMatchingLogicalEndpoint (a : FumountAnswers) (label : List Byte) : Dos Image PUnit := do
  clearMatching a label 0
  clearMatching a label 1

/-- TD_EJECT -/
def tdEject (unit : Fin 8) (answer : Long) : Dos Image Long := do
  if answer = 0 then modify fun s => { s with media := Function.update s.media unit none }
  return answer

/-- From the message port on; the wait for the write-back of the handler is left out. -/
def ejectUnit (a : FumountAnswers) (logicalUnit : Option (Fin 2)) (unit : Fin 8) (dosName : List Byte) : Dos Image FumountExit := do
  if !a.port then return .noPort
  if !a.request then return .noRequest
  if !a.opens then return .cannotOpen unit
  let result ← tdEject unit a.eject
  if result ≠ 0 then return .ejectFailed result
  match logicalUnit with
  | some index => clearLogicalEndpoint index (a.delete index)
  | none => clearMatchingLogicalEndpoint a dosName
  return .ejected dosName

def fumount (args : List (List Byte)) (a : FumountAnswers) : Dos Image FumountExit := do
  match args with
  | [arg] =>
    if arg.head? = some 0x3f then return .usage
    match parseLogicalUnit arg with
    | some index =>
      match ← loadLogicalEndpoint index (a.readLogical index) with
      | none => return .usage
      | some (unit, dosName) => ejectUnit a (some index) unit dosName
    | none =>
      match parseEndpointName arg with
      | none => return .usage
      | some (unit, dosName) => ejectUnit a none unit dosName
  | _ => return .usage

/-! ### Runs -/

/-- A run of one of the programs. -/
inductive Event (Image : Type)
  | fmount (args : List (List Byte)) (a : FmountAnswers Image)
  | fumount (args : List (List Byte)) (a : FumountAnswers)

/-- How it ends. -/
inductive Exit
  | fmount (exit : FmountExit)
  | fumount (exit : FumountExit)
deriving DecidableEq, Repr

def Event.exec (lib : Support Image) : Event Image → Dos Image Exit
  | .fmount args a => .fmount <$> Kick13.fmount lib args a
  | .fumount args a => .fumount <$> Kick13.fumount args a

def Exit.code : Exit → ℕ
  | .fmount exit => exit.code
  | .fumount exit => exit.code

def Exit.text : Exit → List Byte
  | .fmount exit => exit.text
  | .fumount exit => exit.text

/-- A run with its exit code and its output. -/
structure Step (Image : Type) where
  event : Event Image
  exit : Exit
  code : ℕ
  text : List Byte
  before : System Image
  after : System Image

/-- The programs one after another. -/
def steps (lib : Support Image) : List (Event Image) → System Image → List (Step Image)
  | [], _ => []
  | e :: es, s =>
    match (e.exec lib).run s with
    | .ok exit s' => ⟨e, exit, exit.code, exit.text, s, s'⟩ :: steps lib es s'
    | .error _ _ => []

/-- The state after the programs. -/
def finalState (lib : Support Image) (events : List (Event Image)) (s : System Image) : System Image :=
  ((steps lib events s).getLast?.map Step.after).getD s

end NioApps.Kick13
