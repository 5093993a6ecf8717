import NioApps.Lib.Abort
import NioApps.Lib.Bytes

/-! The transient loader of the resident (`fnresident_o65_loader.s`): the FNR1
wrapper, the HATABS scan, the placement, the o65 header, the copy and clear
loops, relocation, the call of the init entry and the publication in HATABS.

The borrowed zero-page bank, the RESULT block and the loader's own variables are
fields; `mem` is all other memory. Target memory begins at MEMLO and ends below
the loader, so nothing stored there is one of these variables. A routine that
reports in the carry flag returns it; the jumps to `finish` from any depth are
errors. What CIO and the init entry do are fields as well. -/

namespace NioApps.Loader

def hatabs : Word := 0x031a
def memtop : Word := 0x02e5
def memlo : Word := 0x02e7
def sdlstl : Word := 0x0230
def savmsc : Word := 0x0058
def hatabsBytes : ℕ := 33
def fnrHeader : Word := 22
def cc65ZpSize : Word := 26
def cc65Zp : Word := 0x0082
def stackReserve : Word := 0x0800

def outInstalled : Byte := 0
def outOwn : Byte := 1
def outInitFailed : Byte := 2
def outMemory : Byte := 3
def outForeign : Byte := 4
def outNoSlot : Byte := 5
def outFormat : Byte := 6

/-- Neither `DISK_SOURCE` nor `SDX_CHILD`, the first, or both. The labels that
the assembler or the SDX loader places are parameters. -/
inductive Source
  | staged
  | disk (diskName : Word)
  | sdxChild (main stageBuf diskBuf diskName expectedAlloc : Word)
deriving DecidableEq, Repr

/-- One build of the loader; `asmResident` is `ASM_RESIDENT`. -/
structure Build where
  source : Source
  asmResident : Bool
deriving DecidableEq, Repr

namespace Build

def diskSource (b : Build) : Bool :=
  match b.source with
  | .staged => false
  | _ => true

def sdxChild (b : Build) : Bool :=
  match b.source with
  | .sdxChild .. => true
  | _ => false

def loaderStart (b : Build) : Word :=
  match b.source with
  | .staged => 0x3f00
  | .disk _ => 0x6000
  | .sdxChild main .. => main

def stage (b : Build) : Word :=
  match b.source with
  | .staged => 0x4900
  | .disk _ => 0x6e00
  | .sdxChild _ stageBuf .. => stageBuf

def diskBuffer (b : Build) : Word :=
  match b.source with
  | .sdxChild _ _ diskBuf .. => diskBuf
  | _ => 0x6f00

def diskName (b : Build) : Word :=
  match b.source with
  | .staged => 0
  | .disk diskName => diskName
  | .sdxChild _ _ _ diskName _ => diskName

/-- The addresses of the SDX child are above page 3, with the read buffer behind the
code; in the other builds they are fixed. -/
def Laid (b : Build) : Prop :=
  match b.source with
  | .sdxChild main _ diskBuf _ _ => 0x0400 ≤ main ∧ main ≤ diskBuf ∧ diskBuf.toNat + 0x0100 ≤ 2 ^ 16
  | _ => True

def markerKind (b : Build) : Byte := if b.asmResident then 0x41 else 0x52

end Build

/-- The borrowed bank `$82..$9B`. -/
structure Zp where
  modulePtr : Word
  moduleEnd : Word
  srcPtr : Word
  basePtr : Word
  existingBase : Word
  targetEnd : Word
  destPtr : Word
  entryPtr : Word
  tablePtr : Word
  markerPtr : Word
  relocPtr : Word
  targetPtr : Word
  relocValue : Word
deriving DecidableEq, Repr

/-- The RESULT block. -/
structure Report where
  outcome : Byte
  init : Byte
  oldMemlo : Word
  newMemlo : Word
  start : Word
  stop : Word
  memtop : Word
  stackFloor : Word
  sdlstl : Word
  savmsc : Word
  hatOffset : Byte
  detail : Byte
  table : Word
  vectors : ℕ → Byte

/-- What one CIO call does: the status in Y, the bytes it transfers, and what it
leaves in its IOCB and in the zero-page bank. -/
structure CioResult where
  status : Byte
  data : ℕ → Byte
  iocb : ℕ → Byte
  zp : Zp

/-- The code in A, the memory and the zero-page bank on return from the init entry. -/
structure InitResult where
  status : Byte
  mem : Word → Byte
  zp : Zp

/-- `target`: one of the copy, clear and relocation loops stored there.
`publish`: a store to HATABS or MEMLO. `call`: the init entry was called. -/
inductive Event
  | target (a : Word)
  | publish (a : Word)
  | cio (command x : Byte) (buffer length : Word)
  | call (entry : Word)
deriving DecidableEq, Repr

structure Ram where
  mem : Word → Byte
  zp : Zp
  report : Report
  relocOffset : Word
  segmentSize : Word
  textSize : Word
  dataSize : Word
  bssSize : Word
  initSize : Word
  relocDescriptor : Byte
  highAddend : Byte
  hatSlot : Byte
  initStatus : Byte
  zpSave : Zp
  diskIocb : Byte
  diskIndex : Byte
  diskCount : Byte
  diskStatus : Byte
  diskIocbSave : ℕ → Byte
  cioResults : ℕ → CioResult
  initEntry : (Word → Byte) → InitResult
  log : List Event

abbrev Load := EStateM Unit Ram

namespace Ram

@[simps] def setMem (m : Word → Byte) (w : Ram) : Ram := { w with mem := m }
@[simps] def setZp (z : Zp) (w : Ram) : Ram := { w with zp := z }
@[simps] def setReport (r : Report) (w : Ram) : Ram := { w with report := r }
@[simps] def record (e : Event) (w : Ram) : Ram := { w with log := w.log ++ [e] }

/-- A store to target memory. -/
def target (a : Word) (v : Byte) (w : Ram) : Ram := (w.setMem (Function.update w.mem a v)).record (.target a)

def publish (a : Word) (v : Byte) (w : Ram) : Ram := (w.setMem (Function.update w.mem a v)).record (.publish a)

def setDetail (a : Byte) (w : Ram) : Ram := w.setReport { w.report with detail := a }
def setOutcome (a : Byte) (w : Ram) : Ram := w.setReport { w.report with outcome := a }

/-! The fields of the FNR1 wrapper in the stage. -/

def fnrField (b : Build) (k : Word) (w : Ram) : Word := wordAt w.mem (b.stage + k)
def fnrEntry (b : Build) (w : Ram) : Word := w.fnrField b 6
def fnrTable (b : Build) (w : Ram) : Word := w.fnrField b 8
def fnrMarker (b : Build) (w : Ram) : Word := w.fnrField b 10
def fnrModuleLen (b : Build) (w : Ram) : Word := w.fnrField b 12
def fnrAlloc (b : Build) (w : Ram) : Word := w.fnrField b 14
def fnrCstack (b : Build) (w : Ram) : Word := w.fnrField b 18
def fnrZp (b : Build) (w : Ram) : Word := w.fnrField b 20

end Ram

def failFormat {α : Type} : Load α := do
  modify (·.setOutcome outFormat)
  throw ()

def failMemory {α : Type} : Load α := do
  modify (·.setOutcome outMemory)
  throw ()

def failInit {α : Type} : Load α := do
  modify (·.setOutcome outInitFailed)
  throw ()

/-! ### CIO -/

/-- Memory with the 16 bytes of IOCB `x` replaced. -/
def putIocb (x : Byte) (iocb : ℕ → Byte) (mem : Word → Byte) : Word → Byte := fun a =>
  let k := a - (0x0340 + x.setWidth 16)
  if k < 16 then iocb k.toNat else mem a

/-- Memory with `n` bytes from `a₀` on replaced. -/
def putBytes (a₀ n : Word) (data : ℕ → Byte) (mem : Word → Byte) : Word → Byte := fun a =>
  if a - a₀ < n then data (a - a₀).toNat else mem a

/-- `sta $0340+k,x` -/
def setIocb (x : Byte) (k : Word) (v : Byte) (w : Ram) : Ram :=
  w.setMem (Function.update w.mem (0x0340 + k + x.setWidth 16) v)

/-- The word at `$0340+k,x`. -/
def iocbWord (x : Byte) (k : Word) (w : Ram) : Word := wordAt w.mem (0x0340 + k + x.setWidth 16)

/-- CIO itself: GET CHARACTERS fills the buffer the IOCB names. -/
def cio (x : Byte) (w : Ram) : Ram :=
  let r := w.cioResults 0
  let command := w.mem (0x0342 + x.setWidth 16)
  let buffer := iocbWord x 4 w
  let length := iocbWord x 8 w
  let mem := putIocb x r.iocb (if command = 7 then putBytes buffer length r.data w.mem else w.mem)
  { (w.setMem mem).record (.cio command x buffer length) with
    zp := r.zp, diskStatus := r.status, cioResults := fun n => w.cioResults (n + 1) }

/-- The result is the status, which the callers test for its sign. -/
def diskCio (a : Byte) : Load Byte := do
  modify fun w => setIocb w.diskIocb 2 a w
  let w ← get
  modify fun w => cio w.diskIocb w
  modify (·.setZp w.zp)
  return (← get).diskStatus

def diskFindLoop (mem : Word → Byte) : ℕ → Byte → Option Byte
  | 0, _ => none
  | n + 1, x => if mem (0x0340 + x.setWidth 16) = 0xff then some x else diskFindLoop mem n (x - 0x10)

/-- `@find`: the IOCBs from `$70` down to `$10`. -/
def diskFind (mem : Word → Byte) : Option Byte := diskFindLoop mem 7 0x70

/-- The buffer address and length for the next transfer. -/
def setBuffer (x : Byte) (buffer : Word) (w : Ram) : Ram :=
  setIocb x 5 (hi buffer) (setIocb x 4 (lo buffer) w)

def setLength (x : Byte) (n : Byte) (w : Ram) : Ram := setIocb x 9 0 (setIocb x 8 n w)

def diskOpenFree (b : Build) (x : Byte) : Load Bool := do
  modify fun w => { w with diskIocb := x, diskIocbSave := fun k => w.mem (0x0340 + x.setWidth 16 + BitVec.ofNat 16 k) }
  modify fun w => setIocb x 11 0 (setIocb x 10 4 (setBuffer x b.diskName w))
  if (← diskCio 3).msb then return true
  modify fun w => { setLength x 48 (setBuffer x b.stage w) with diskCount := 0, diskIndex := 0 }
  if (← diskCio 7).msb then return true
  return false

def diskOpenHeader (b : Build) : Load Bool := do
  let w ← get
  if b.sdxChild = false ∧ (hi w.report.stackFloor < 0x94 ∨ hi w.report.sdlstl < 0x94 ∨ hi w.report.savmsc < 0x94) then
    return true
  match diskFind w.mem with
  | none => return true
  | some x => diskOpenFree b x

def diskClose : Load Unit := do
  let w ← get
  if w.diskIocb.msb then return
  let _ ← diskCio 12
  modify fun w => { w.setMem (putIocb w.diskIocb w.diskIocbSave w.mem) with diskIocb := 0xff }

/-- How many bytes the next refill asks for. -/
def refillCount (w : Ram) : Byte :=
  let left := w.zp.moduleEnd - w.zp.srcPtr
  if hi left ≠ 0 then 128 else if lo left < 128 then lo left else 128

/-- The refill of `disk_read_byte`. -/
def diskRefill (b : Build) : Load Unit := do
  modify fun w => { w with diskCount := refillCount w }
  modify fun w => { setLength w.diskIocb w.diskCount (setBuffer w.diskIocb b.diskBuffer w) with diskIndex := 0 }
  if (← diskCio 7).msb then failFormat

def diskReadByte (b : Build) : Load Byte := do
  let w ← get
  if w.diskIndex = w.diskCount then diskRefill b
  let w ← get
  modify fun w => { w with diskIndex := w.diskIndex + 1 }
  return w.mem (b.diskBuffer + w.diskIndex.setWidth 16)

/-- One byte of the module, with its exclusive end. -/
def readByte (b : Build) : Load Byte := do
  let w ← get
  if w.zp.srcPtr < w.zp.moduleEnd then
    let a ← if b.diskSource then diskReadByte b else pure (w.mem w.zp.srcPtr)
    modify fun w => w.setZp { w.zp with srcPtr := w.zp.srcPtr + 1 }
    return a
  else
    modify (·.setDetail 0xe6)
    failFormat

/-! ### The o65 module -/

/-- The tests of `parse_o65_header` on its 26 bytes, with the sizes it stores. -/
def parseO65Header (b : Build) : Load Bool := do
  let w ← get
  let byte (k : Word) : Byte := w.mem (w.zp.modulePtr + k)
  let word (k : Word) : Word := wordAt w.mem (w.zp.modulePtr + k)
  if byte 0 ≠ 1 ∨ byte 1 ≠ 0 ∨ byte 2 ≠ 0x6f ∨ byte 3 ≠ 0x36 ∨ byte 4 ≠ 0x35 ∨ byte 5 ≠ 0 ∨ byte 6 ≠ 0 ∨
      byte 7 ≠ 8 ∨ word 8 ≠ 0 then
    parseBad
  else
    modify fun w => { w with textSize := word 10 }
    if word 12 ≠ word 10 then parseBad
    else
      modify fun w => { w with dataSize := word 14, initSize := word 10 + word 14 }
      if word 16 ≠ word 10 + word 14 then parseBad
      else
        modify fun w => { w with bssSize := word 18 }
        if word 10 + word 14 + word 18 ≠ w.fnrAlloc b ∨ word 20 ≠ 0 ∨ word 22 ≠ w.fnrZp b ∨ word 24 ≠ 0 then
          parseBad
        else
          modify fun w => w.setZp { w.zp with srcPtr := w.zp.modulePtr + 26 }
          return false
where
  parseBad : Load Bool := do
    modify (·.setDetail 0xe1)
    return true

/-- `skip_options_bytes`, with `option_count` bytes left. -/
def skipBytes (b : Build) : ℕ → Load Unit
  | 0 => return
  | n + 1 => do
    let _ ← readByte b
    skipBytes b n

/-- `skip_options_next`, at most `n` times. -/
def skipOptions (b : Build) : ℕ → Load Bool
  | 0 => return true
  | n + 1 => do
    let a ← readByte b
    modify (·.setDetail a)
    if a = 0 then
      modify (·.setDetail 0x90)
      return false
    else if a < 2 then return true
    else
      skipBytes b (a - 1).toNat
      skipOptions b n

/-- `inc_dest` -/
def incDest (w : Ram) : Ram := w.setZp { w.zp with destPtr := w.zp.destPtr + 1 }

/-- `@copy`, with `byte_count` bytes left. -/
def copyLoop (b : Build) : ℕ → Load Unit
  | 0 => return
  | n + 1 => do
    let a ← readByte b
    modify fun w => incDest (w.target w.zp.destPtr a)
    copyLoop b n

/-- `@clear`, with `byte_count` bytes left. -/
def clearLoop : ℕ → Load Unit
  | 0 => return
  | n + 1 => do
    modify fun w => incDest (w.target w.zp.destPtr 0)
    clearLoop n

/-! ### Relocation -/

def rtWord : Byte := 0x80
def rtHigh : Byte := 0x40
def rtLow : Byte := 0x20
def segText : Byte := 2
def segData : Byte := 3
def segBss : Byte := 4
def segZp : Byte := 5

/-- The relocation base that the descriptor selects. -/
def relocBase (descriptor : Byte) (start : Word) : Option Word :=
  let segment := descriptor &&& 7
  if segment = segText ∨ segment = segData ∨ segment = segBss then some start
  else if segment = segZp then some cc65Zp
  else none

def targetInSegment (w : Ram) : Bool := w.relocOffset < w.segmentSize

/-- `check_offset` is a 16-bit sum. -/
def wordInSegment (w : Ram) : Bool := w.relocOffset + 1 < w.segmentSize

/-- `@target` -/
def setTarget (w : Ram) : Ram := w.setZp { w.zp with targetPtr := w.zp.relocPtr + w.relocOffset }

/-- `@low`, after its test. -/
def relocLow (w : Ram) : Ram :=
  let w := setTarget w
  w.target w.zp.targetPtr (w.mem w.zp.targetPtr + lo w.zp.relocValue)

/-- `@high`, after its test and its `read_byte`. -/
def relocHigh (low : Byte) (w : Ram) : Ram :=
  let w := setTarget { w with highAddend := highSum low w.zp.relocValue }
  w.target w.zp.targetPtr (w.mem w.zp.targetPtr + w.highAddend)

/-- `@word`, after its test. -/
def relocWord (w : Ram) : Ram :=
  let w := setTarget w
  let a := w.mem w.zp.targetPtr
  let w := w.target w.zp.targetPtr (a + lo w.zp.relocValue)
  w.target (w.zp.targetPtr + 1) (w.mem (w.zp.targetPtr + 1) + highSum a w.zp.relocValue)

/-- `@kind`, with the relocation base in place: whether to go on with `@next`. -/
def relocKind (b : Build) : Load Bool := do
  let w ← get
  let kind := w.relocDescriptor &&& 0xe0
  if kind = rtWord then
    if wordInSegment w then
      modify relocWord
      return true
    else return false
  else if kind = rtHigh then
    if targetInSegment w then
      let low ← readByte b
      modify (relocHigh low)
      return true
    else return false
  else if kind = rtLow then
    if targetInSegment w then
      modify relocLow
      return true
    else return false
  else return false

/-- `@delta`, with the delta in A: whether to go on with `@next`. -/
def relocDelta (b : Build) (a : Byte) : Load Bool := do
  modify fun w => { w with relocOffset := w.relocOffset + a.setWidth 16 }
  let descriptor ← readByte b
  modify fun w => { w with relocDescriptor := descriptor }
  match relocBase descriptor (← get).report.start with
  | none => return false
  | some value =>
    modify fun w => w.setZp { w.zp with relocValue := value }
    relocKind b

/-- `@next`, at most `n` times. -/
def relocNext (b : Build) : ℕ → Load Bool
  | 0 => return true
  | n + 1 => do
    let a ← readByte b
    if a = 0 then return false
    else if a = 0xff then
      modify fun w => { w with relocOffset := w.relocOffset + 0xfe }
      relocNext b n
    else if ← relocDelta b a then relocNext b n
    else return true

/-- The bytes of the module not yet read. -/
def unread (w : Ram) : ℕ := w.zp.moduleEnd.toNat - w.zp.srcPtr.toNat

/-- Every round reads a byte, so the bytes left and one more rounds are enough. -/
def relocateSegment (b : Build) : Load Bool := do
  modify fun w => { w with relocOffset := 0xffff }
  relocNext b (unread (← get) + 1)

def skipO65Options (b : Build) : Load Bool := do
  skipOptions b (unread (← get) + 1)

/-- `load_module` from `@imports` to the exports. -/
def loadRelocations (b : Build) : Load Bool := do
  modify (·.setDetail 0x33)
  if (← readByte b) ≠ 0 then return true
  if (← readByte b) ≠ 0 then return true
  modify fun w => { w.setZp { w.zp with relocPtr := w.report.start } with segmentSize := w.textSize }
  if ← relocateSegment b then
    modify (·.setDetail 0xea)
    return true
  modify (·.setDetail 0x34)
  modify fun w => { w.setZp { w.zp with relocPtr := w.zp.relocPtr + w.textSize } with segmentSize := w.dataSize }
  if ← relocateSegment b then
    modify (·.setDetail 0xeb)
    return true
  modify (·.setDetail 0x35)
  if (← readByte b) ≠ 0 then return true
  if (← readByte b) ≠ 0 then return true
  return false

/-- `load_module` from the options to the exports. -/
def loadImage (b : Build) : Load Bool := do
  modify (·.setDetail 0x31)
  if ← skipO65Options b then return true
  modify (·.setDetail 0x32)
  modify fun w => w.setZp { w.zp with destPtr := w.zp.basePtr }
  copyLoop b (← get).initSize.toNat
  clearLoop (← get).bssSize.toNat
  loadRelocations b

def loadModule (b : Build) : Load Bool := do
  modify (·.setDetail 0x30)
  if ← parseO65Header b then
    modify (·.setDetail 0xe8)
    return true
  if ← loadImage b then return true
  let w ← get
  return w.zp.srcPtr ≠ w.zp.moduleEnd

end NioApps.Loader
