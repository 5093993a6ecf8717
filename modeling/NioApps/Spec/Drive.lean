import NioApps.Lib.Abort

/-! One DN unit under Kickstart 2 or later, with FMOUNT (`fmount.c`) and FUMOUNT
(`fumount.c`) from the opening of the device on.

What the system answers comes with each run. `Inhibit` with DOSFALSE, ACTION_DISK_INFO and
TD_CHANGESTATE are answered from the unit; `snapshot_node` gets its lock, for which
`LockDosList` waits. -/

namespace NioApps.Amiga

open Abort

abbrev Long := BitVec 32

/-- The fields of the `DosEnvec` that the programs read or write. -/
structure DosEnvec where
  surfaces : Long
  blocksPerTrack : Long
  lowCyl : Long
  highCyl : Long
  dosType : Long
deriving DecidableEq, Repr

structure MediaProfile where
  surfaces : Long
  blocksPerTrack : Long
  lowCylinder : Long
  highCylinder : Long
deriving DecidableEq, Repr

/-- The environment for media of this profile. -/
def MediaProfile.environ (profile : MediaProfile) (dostype : Long) : DosEnvec :=
  ⟨profile.surfaces, profile.blocksPerTrack, profile.lowCylinder, profile.highCylinder, dostype⟩

/-- What FMOUNT uses of the support library of the driver, which is not part of the repository. -/
structure Support (Image : Type) where
  classifyMediaProfile : Image → Option MediaProfile
  classifyFilesystem : Image → Option Long
  buildDosEnvec : MediaProfile → Long → Option DosEnvec

/-- The library puts into an environment what it was given. -/
def Support.Builds {Image : Type} (lib : Support Image) : Prop :=
  ∀ profile dostype env, lib.buildDosEnvec profile dostype = some env → env = profile.environ dostype

/-- A handler. `exitsIn`: it was told to exit, and does so that many ticks after the next one. -/
structure Handler where
  depth : ℕ
  dies : Bool
  exitsIn : Option ℕ
deriving DecidableEq, Repr

/-- An entry of the DOS list; `task` is `none` while it is inactive. -/
structure DosNode where
  environ : DosEnvec
  task : Option Handler
deriving DecidableEq, Repr

/-- The unit. `deepest` is not part of it: how deep the inhibition has been so far. -/
structure Drive (Image : Type) where
  node : Option DosNode
  media : Option Image
  deepest : ℕ
deriving DecidableEq, Repr

variable {Image : Type}

namespace Drive

variable (d : Drive Image)

def handler : Option Handler := d.node.bind DosNode.task

/-- The handler after a packet or a tick; `none`: it is gone. -/
def mapHandler (f : Handler → Option Handler) : Drive Image :=
  { d with node := d.node.map fun n => { n with task := n.task.bind f } }

def depth : ℕ := (d.handler.map Handler.depth).getD 0

def inhibit : Drive Image :=
  { d.mapHandler fun h => some { h with depth := h.depth + 1 } with deepest := max d.deepest (d.depth + 1) }

def uninhibit : Drive Image := d.mapHandler fun h => some { h with depth := h.depth - 1 }

end Drive

abbrev Dos (Image : Type) := EStateM Unit (Drive Image)

/-! ### The system -/

/-- `Inhibit` with DOSTRUE. -/
def inhibitTrue (answer : Bool) : Dos Image Bool := do
  if answer then modify Drive.inhibit
  return answer

/-- `Inhibit` with DOSFALSE. -/
def inhibitFalse : Dos Image Bool := do
  modify Drive.uninhibit
  return true

/-- How a handler that implements ACTION_DIE takes it, and after how many ticks it exits. -/
structure DieAnswer where
  accepted : Bool
  exits : Option ℕ

inductive DieResult
  | accepted
  | refused
  /-- ERROR_ACTION_NOT_KNOWN -/
  | notKnown
deriving DecidableEq, Repr

def Handler.told (exits : Option ℕ) (h : Handler) : Option Handler :=
  match exits with
  | none => some h
  | some 0 => none
  | some (n + 1) => some { h with exitsIn := some n }

def Handler.tick (h : Handler) : Option Handler :=
  match h.exitsIn with
  | none => some h
  | some 0 => none
  | some (n + 1) => some { h with exitsIn := some n }

def actionDie (a : DieAnswer) : Dos Image DieResult := do
  match (← get).handler with
  | none => return .refused
  | some h =>
    if !h.dies then return .notKnown
    modify fun d => d.mapHandler (Handler.told a.exits)
    return if a.accepted then .accepted else .refused

def delay : Dos Image PUnit := modify fun d => d.mapHandler Handler.tick

/-- ACTION_DISK_INFO says ID_BUSY. -/
def diskBusy : Dos Image Bool := do return decide (0 < (← get).depth)

/-! ### FMOUNT -/

structure NodeSnapshot where
  present : Bool
  active : Bool
  bpt : Long
  surfaces : Long
  low : Long
  high : Long
  dostype : Long

def NodeSnapshot.ofNode : Option DosNode → NodeSnapshot
  | none => ⟨false, false, 0, 0, 0, 0, 0⟩
  | some n => ⟨true, n.task.isSome, n.environ.blocksPerTrack, n.environ.surfaces, n.environ.lowCyl, n.environ.highCyl,
      n.environ.dosType⟩

def snapshotNode : Dos Image NodeSnapshot := do return .ofNode (← get).node

def unitMediaAbsent : Dos Image Bool := do return (← get).media.isNone

def nodeParked (node : NodeSnapshot) : Dos Image Bool := do
  return node.active && (← unitMediaAbsent) && (← diskBusy)

def retireNotSupported : ℕ := 1

/-- The tries of `retire_handler`, `n` of them left. -/
def awaitInactive : ℕ → Dos Image ℕ
  | 0 => return 30
  | n + 1 => do
    let current ← snapshotNode
    if current.present && !current.active then return 0
    delay
    awaitInactive n

def retireHandler (snapshot : NodeSnapshot) (a : DieAnswer) : Dos Image ℕ := do
  if !snapshot.active then return 0
  if (← actionDie a) = .notKnown then return retireNotSupported
  awaitInactive 20

/-- `answer`: whether the list could be locked and the entry has an environment. -/
def updateInactiveEnvec (answer : Bool) (profile : MediaProfile) (dostype : Long) : Dos Image ℕ := do
  if !answer then return 30
  match (← get).node with
  | none => return 30
  | some n =>
    if n.task.isSome then return 30
    modify fun d => { d with
      node := some { n with
        environ := ⟨profile.surfaces, profile.blocksPerTrack, profile.lowCylinder, profile.highCylinder, dostype⟩ } }
    return 0

/-- What a run of FMOUNT is answered. -/
structure FmountAnswers (Image : Type) where
  /-- The port, the request and the device. -/
  opens : Bool
  /-- The image in the slot, if it can be inspected. -/
  image : Option Image
  inhibit : Bool
  die : DieAnswer
  mount : Long
  expansion : Bool
  make : Bool
  add : Bool
  update : Bool

def createNode (lib : Support Image) (a : FmountAnswers Image) (profile : MediaProfile) (dostype : Long) : Dos Image ℕ := do
  match lib.buildDosEnvec profile dostype with
  | none => return 30
  | some env =>
    if !a.make then return 30
    if !a.add then return 30
    modify fun d => { d with node := some ⟨env, none⟩ }
    return 0

/-- FUJINET_DISK_CMD_MOUNT_CATALOG -/
def mountCatalog (image : Image) (answer : Long) : Dos Image Long := do
  if answer = 0 then modify fun d => { d with media := some image }
  return answer

def NodeSnapshot.compatible (node : NodeSnapshot) (profile : MediaProfile) (dostype : Long) : Bool :=
  !node.present || (node.bpt == profile.blocksPerTrack && node.surfaces == profile.surfaces &&
    node.low == profile.lowCylinder && node.high == profile.highCylinder && node.dostype == dostype)

/-- What happens to the handler before the image is mounted: `inhibited` and `parked`, unless the program fails. -/
def takeHandler (a : FmountAnswers Image) (node : NodeSnapshot) (compatible : Bool) : Dos Image (Option (Bool × Bool)) := do
  if ← nodeParked node then
    if !compatible then return none
    return some (true, true)
  else if compatible && node.active then
    if !(← inhibitTrue a.inhibit) then return none
    return some (true, false)
  else if !compatible then
    if (← retireHandler node a.die) ≠ 0 then return none
    return some (false, false)
  else return some (false, false)

/-! The statements from MOUNT_CATALOG on; each takes `result` of the source and gives it back. -/

def createAdded (lib : Support Image) (a : FmountAnswers Image) (profile : MediaProfile) (dostype : Long)
    (createAfterMount : Bool) (result : Long) : Dos Image Long := do
  if result = 0 ∧ createAfterMount = true then
    if !a.expansion then return 30
    else if (← createNode lib a profile dostype) ≠ 0 then return 30
    else return result
  else return result

def updateEnvec (a : FmountAnswers Image) (profile : MediaProfile) (dostype : Long) (compatible : Bool) (result : Long) :
    Dos Image Long := do
  if result = 0 ∧ compatible = false then
    if (← updateInactiveEnvec a.update profile dostype) ≠ 0 then return 30
    else return result
  else return result

def restoreAccess (inhibited parked : Bool) (result : Long) : Dos Image Long := do
  if inhibited = true ∧ (result = 0 ∨ parked = false) then
    let uninhibit ← inhibitFalse
    if result = 0 ∧ uninhibit = false then return 31
    else return result
  else return result

def mountImage (lib : Support Image) (a : FmountAnswers Image) (image : Image) (profile : MediaProfile) (dostype : Long)
    (createAfterMount compatible inhibited parked : Bool) : Dos Image Long := do
  let result ← mountCatalog image a.mount
  let result ← createAdded lib a profile dostype createAfterMount result
  let result ← updateEnvec a profile dostype compatible result
  restoreAccess inhibited parked result

def fmount (lib : Support Image) (a : FmountAnswers Image) : Dos Image ℕ := do
  if !a.opens then return 20
  match a.image with
  | none => return 10
  | some image =>
    match lib.classifyMediaProfile image, lib.classifyFilesystem image with
    | some profile, some dostype =>
      let node ← snapshotNode
      let compatible := node.compatible profile dostype
      match ← takeHandler a node compatible with
      | none => return 10
      | some (inhibited, parked) =>
        if (← mountImage lib a image profile dostype (!node.present) compatible inhibited parked) ≠ 0 then return 10
        else return 0
    | _, _ => return 10

/-! ### FUMOUNT -/

/-- What a run of FUMOUNT is answered; `waitLock n`: the lock of the DOS list with `n` tries left. -/
structure FumountAnswers where
  opens : Bool
  stateLock : Bool
  deviceProc : Bool
  flush : Bool
  die : DieAnswer
  waitLock : ℕ → Bool
  inUse : Bool
  inhibit : Bool
  eject : Long
  removeLock : Bool

inductive HandlerState
  | error
  | inactive
  | active
deriving DecidableEq, Repr

def getHandlerState (lock : Bool) : Dos Image HandlerState := do
  if !lock then return .error
  if (← get).handler.isSome then return .active else return .inactive

/-- The tries of `wait_handler_retired`, `n` of them left, and the look after the last. -/
def waitHandlerRetired (lock : ℕ → Bool) : ℕ → Dos Image ℕ
  | 0 => do
    if !lock 0 then return 10
    if (← get).handler.isNone then return 0 else return 10
  | n + 1 => do
    if lock (n + 1) && (← get).handler.isNone then return 0
    delay
    waitHandlerRetired lock n

/-- The handler of the unit is retired or inhibited: whether it is inhibited, unless the program fails. -/
def quietHandler (a : FumountAnswers) : Dos Image (Option Bool) := do
  if !a.deviceProc then return none
  if ← diskBusy then return none
  if !a.flush then return none
  match ← actionDie a.die with
  | .notKnown =>
    if a.inUse then return none
    if !(← inhibitTrue a.inhibit) then return none
    return some true
  | .refused | .accepted =>
    if (← waitHandlerRetired a.waitLock 20) ≠ 0 then return none
    return some false

/-- TD_EJECT -/
def tdEject (answer : Long) : Dos Image Long := do
  if answer = 0 then modify fun d => { d with media := none }
  return answer

def removeEntry (lock : Bool) : Dos Image ℕ := do
  if !lock then return 10
  if (← get).node.isNone then return 10
  modify fun d => { d with node := none }
  return 0

/-- The media is ejected; when that fails the handler gets it back, else it stays parked or its entry goes. -/
def ejectUnit (a : FumountAnswers) (inhibited : Bool) : Dos Image ℕ := do
  let result ← tdEject a.eject
  if inhibited = true ∧ result ≠ 0 then
    discard inhibitFalse
    return 10
  else if result ≠ 0 then return 10
  else if inhibited then return 0
  else removeEntry a.removeLock

def fumount (a : FumountAnswers) : Dos Image ℕ := do
  if !a.opens then return 20
  match ← getHandlerState a.stateLock with
  | .error => return 10
  | .inactive => ejectUnit a false
  | .active =>
    match ← quietHandler a with
    | none => return 10
    | some inhibited => ejectUnit a inhibited

/-! ### Runs -/

/-- A run of one of the programs, and what else may happen to the unit: the handler starts
when the drive is used, and time passes. -/
inductive Event (Image : Type)
  | fmount (a : FmountAnswers Image)
  | fumount (a : FumountAnswers)
  | start (dies : Bool)
  | tick

/-- A handler starts for an inactive node. -/
def Drive.start (dies : Bool) (d : Drive Image) : Drive Image :=
  { d with node := d.node.map fun n => { n with task := n.task.or (some ⟨0, dies, none⟩) } }

/-- The return code of a program, and 0 for the other events. -/
def Event.exec (lib : Support Image) : Event Image → Dos Image ℕ
  | .fmount a => Amiga.fmount lib a
  | .fumount a => Amiga.fumount a
  | .start dies => do
    modify (Drive.start dies)
    return 0
  | .tick => do
    delay
    return 0

structure Step (Image : Type) where
  event : Event Image
  code : ℕ
  after : Drive Image

/-- The steps of a sequence of events from `d`. -/
def steps (lib : Support Image) : List (Event Image) → Drive Image → List (Step Image)
  | [], _ => []
  | e :: es, d =>
    match (e.exec lib).run d with
    | .ok code d' => ⟨e, code, d'⟩ :: steps lib es d'
    | .error _ _ => []

/-! ### What the programs are to keep -/

namespace Drive

variable (d : Drive Image)

/-- An active handler, inhibited once, without media. -/
def Parked : Prop := (∃ h, d.handler = some h) ∧ d.depth = 1 ∧ d.media = none

/-- The inhibition has never been deeper than 1, and now is only when the handler is parked. -/
structure Disciplined : Prop where
  shallow : d.deepest ≤ 1
  depth : d.depth = 0 ∨ d.Parked

/-- The image is there, and the node fits. -/
structure Mounted (lib : Support Image) (image : Image) : Prop where
  depth : d.depth = 0
  media : d.media = some image
  node : ∃ profile dostype n, lib.classifyMediaProfile image = some profile ∧
    lib.classifyFilesystem image = some dostype ∧ d.node = some n ∧
    n.environ = profile.environ dostype

structure Unmounted : Prop where
  media : d.media = none
  node : d.node = none ∨ d.Parked

end Drive

/-- What a program that returned 0 leaves. -/
def Step.Returned (lib : Support Image) (s : Step Image) : Prop :=
  match s.event with
  | .fmount a => s.code = 0 → ∃ image, a.image = some image ∧ s.after.Mounted lib image
  | .fumount _ => s.code = 0 → s.after.Unmounted
  | .start _ => True
  | .tick => True

end NioApps.Amiga
