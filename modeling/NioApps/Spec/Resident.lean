import NioApps.Lib.Exec
import NioApps.Spec.Wire

/-! The CIO entry points of the resident N: handler (`fnresident_asm.s`): the
gateway and its dispatch, OPEN, GET, PUT, STATUS and CLOSE on the two owner
records and their 128-byte cache halves. An operation returns the CIO status
that `gateway` leaves in Y. -/

namespace NioApps.Resident

/-- The owner index in X, 0 or 16. -/
inductive Slot
  | x0
  | x16
deriving DecidableEq, Repr

/-- `lda slot / asl / asl / asl`: where the owner's half of `caches` starts. -/
def Slot.cache : Slot → Byte
  | .x0 => 0
  | .x16 => 128

/-- One 16-byte owner record. -/
structure Owner where
  own : Byte
  mode : Byte
  handle : Byte × Byte
  offset0 : Byte
  offset1 : Byte
  offset2 : Byte
  offset3 : Byte
  len : Byte
  pos : Byte
  eof : Byte
  fault : Byte
  committed : Byte
  reading : Byte
  spare : Byte × Byte
deriving DecidableEq, Repr

inductive Op
  | openIocb
  | close
  | get
  | put
  | status
deriving DecidableEq, Repr

/-- The resident's variables. -/
structure Ram where
  owners : Slot → Owner
  caches : Byte → Byte
  busy : Byte
  callerA : Byte
  callerX : Byte
  ptr : Byte × Byte
  slot : Slot
  count : Byte
  wire : Wire

namespace Ram

/-- The record X points at while X holds `slot`. -/
def owner (w : Ram) : Owner := w.owners w.slot

@[simps] def setOwner (o : Owner) (w : Ram) : Ram :=
  { w with owners := Function.update w.owners w.slot o }
@[simps] def setCaches (c : Byte → Byte) (w : Ram) : Ram := { w with caches := c }
@[simps] def setBusy (b : Byte) (w : Ram) : Ram := { w with busy := b }
@[simps] def setCaller (a x : Byte) (w : Ram) : Ram := { w with callerA := a, callerX := x }
@[simps] def setPtr (zp : Byte × Byte) (w : Ram) : Ram := { w with ptr := zp }
@[simps] def setSlot (k : Slot) (w : Ram) : Ram := { w with slot := k }
@[simps] def setCount (n : Byte) (w : Ram) : Ram := { w with count := n }
@[simps] def setWire (p : Wire) (w : Ram) : Ram := { w with wire := p }

@[simp] theorem setOwner_owner (o : Owner) (w : Ram) : (w.setOwner o).owner = o :=
  Function.update_self ..

end Ram

def success (w : Ram) : Byte × Ram := (1, w)
def ioError (w : Ram) : Byte × Ram := (0x90, w)
def unsupported (w : Ram) : Byte × Ram := (0x92, w)
def badName (w : Ram) : Byte × Ram := (0xa5, w)
def eof (w : Ram) : Byte × Ram := (0x88, w)

/-- `session_packet`: version, handle and stream offset of the owner. -/
def sessionFields (o : Owner) (p : Wire) : Wire :=
  ((((((p.poke 7 o.handle.1).poke 8 o.handle.2).poke 9 o.offset0).poke 10 o.offset1).poke 11
    o.offset2).poke 12 o.offset3).setRequestLen 9

def sessionPacket (a : Byte) (w : Ram) : Bool × Ram :=
  let (c, p) := beginPacket a w.wire
  if c then (true, w.setWire p) else (false, w.setWire (sessionFields w.owner p))

/-- `exchange` reached from an operation. -/
def transfer (w : Ram) : Bool × Ram :=
  let (c, p) := exchange w.wire
  (c, w.setWire p)

def cacheIndex (w : Ram) : Byte := w.slot.cache + w.owner.pos

/-- Add an acknowledged byte count to the 32-bit offset, byte by byte. -/
def addOffset (a : Byte) (o : Owner) : Owner :=
  let o' := { o with offset0 := a + o.offset0 }
  if a.toNat + o.offset0.toNat < 256 then o'
  else
    let o' := { o' with offset1 := o.offset1 + 1 }
    if o'.offset1 ≠ 0 then o'
    else
      let o' := { o' with offset2 := o.offset2 + 1 }
      if o'.offset2 ≠ 0 then o'
      else { o' with offset3 := o.offset3 + 1 }

/-- The tests of `check_rw` on a READ or WRITE response, in order. -/
def rwBad (w : Ram) : Bool :=
  let y := w.wire.payload.toNat
  let p := w.wire.packet
  w.wire.payloadLen < 12 || p (4 + y) != w.owner.handle.1 || p (5 + y) != w.owner.handle.2 ||
    p (11 + y) != 0 || !(p (10 + y) < 129)

/-- Validate handle and count of a READ or WRITE response. -/
def checkRw (w : Ram) : Bool × Ram :=
  if rwBad w then (true, w)
  else (false, w.setCount (w.wire.packet (10 + w.wire.payload.toNat)))

/-! ### Writing -/

def writeError (w : Ram) : Byte × Ram :=
  ioError (w.setOwner { w.owner with fault := 1 })

/-- `@copy` of `flush`: `n` bytes from `caches,y` to `packet+15,x`. -/
def flushCopy (caches : Byte → Byte) : ℕ → ℕ → Byte → (ℕ → Byte) → (ℕ → Byte)
  | 0, _, _, p => p
  | n + 1, x, y, p => flushCopy caches n (x + 1) (y + 1) (Function.update p (15 + x) (caches y))

/-- `@shift`: `n` bytes from `caches,x` to `caches,y`, upwards. -/
def shiftCache : ℕ → Byte → Byte → (Byte → Byte) → (Byte → Byte)
  | 0, _, _, c => c
  | n + 1, x, y, c => shiftCache n (x + 1) (y + 1) (Function.update c y (c x))

/-- The WRITE request for all the cache holds. -/
def writeRequest (w : Ram) : Ram :=
  let w := w.setWire ((w.wire.poke 13 w.owner.len).setRequestLen (w.owner.len + 15))
  let w := w.setOwner { w.owner with pos := 0 }
  w.setWire (w.wire.setPacket
    (flushCopy w.caches (w.wire.packet 13).toNat 0 (cacheIndex w) w.wire.packet))

/-- `@partial`, after its test for a count of 0: keep only the suffix. -/
def keepSuffix (w : Ram) : Ram :=
  let o := addOffset w.count w.owner
  let w := w.setOwner { o with len := o.len - w.count }
  let y := w.slot.cache
  w.setCaches (shiftCache w.owner.len.toNat (y + w.count) y w.caches)

/-- `flush`, sending at most `n` WRITE packets. -/
def flushLoop : ℕ → Ram → Byte × Ram
  | 0, w => writeError w
  | n + 1, w =>
    let (c, w) := sessionPacket 3 w
    if c then writeError w
    else
      let (c, w) := transfer (writeRequest w)
      if c then writeError w
      else
        let (c, w) := checkRw w
        if c then writeError w
        else if w.count < w.owner.len then
          if w.count = 0 then writeError w
          else flushLoop n (keepSuffix w)
        else if w.count ≠ w.owner.len then writeError w
        else success (w.setOwner { addOffset w.count w.owner with len := 0 })

/-- Every packet but the last shortens the cache, so LEN + 1 packets are enough. -/
def flush (w : Ram) : Byte × Ram := flushLoop (w.owner.len.toNat + 1) w

/-- `@commit`: the zero-length WRITE. -/
def commit (w : Ram) : Byte × Ram :=
  let (a, w) := flush w
  if a ≠ 1 then (a, w)
  else (a, w.setOwner { w.owner with committed := w.owner.committed + 1 })

def finishWrite (w : Ram) : Byte × Ram :=
  if w.owner.fault ≠ 0 then ioError w
  else if w.owner.committed ≠ 0 then success w
  else if w.owner.len = 0 then commit w
  else
    let (a, w) := flush w
    if a ≠ 1 then (a, w) else commit w

def doPut (w : Ram) : Byte × Ram :=
  if w.owner.mode = 4 then unsupported w
  else if w.owner.fault ||| w.owner.committed ≠ 0 then ioError w
  else
    let w := w.setOwner { w.owner with pos := w.owner.len }
    let w := (w.setCaches (Function.update w.caches (cacheIndex w) w.callerA)).setWire
      (w.wire.record (.store w.callerA))
    let w := w.setOwner { w.owner with len := w.owner.len + 1 }
    if w.owner.len ≠ 128 then success w
    else flush w

/-! ### Reading -/

/-- `@cached` -/
def getCached (w : Ram) : Byte × Ram :=
  let w := w.setCaller (w.caches (cacheIndex w)) w.callerX
  success (w.setOwner { w.owner with pos := w.owner.pos + 1 })

/-- `@copy` of `do_get`: `n` bytes from `packet+12,y` to `caches` at `pos`. -/
def fillCache (packet : ℕ → Byte) : ℕ → ℕ → Byte → (Byte → Byte) → (Byte → Byte)
  | 0, _, _, c => c
  | n + 1, y, pos, c => fillCache packet n (y + 1) (pos + 1) (Function.update c pos (packet (12 + y)))

/-- Publish an accepted READ response. -/
def publishRead (w : Ram) : Ram :=
  let y := w.wire.payload.toNat
  let o := { w.owner with eof := w.wire.packet (1 + y) &&& 1, len := w.count }
  let w := w.setOwner { addOffset w.count o with pos := 0 }
  w.setCaches (fillCache w.wire.packet w.count.toNat y (cacheIndex w) w.caches)

/-- The READ request: 128 bytes from the stream offset. -/
def readRequest (w : Ram) : Ram :=
  w.setWire ((w.wire.poke 13 128).setRequestLen 15)

/-- The request for more data, from `lda #2` on. -/
def getRefill (w : Ram) : Byte × Ram :=
  let (c, w) := sessionPacket 2 w
  if c then ioError w
  else
    let (c, w) := transfer (readRequest w)
    if c then ioError w
    else
      let (c, w) := checkRw w
      if c then ioError w
      else if w.wire.payloadLen - 12 < w.count then ioError w
      else
        let w := publishRead w
        if w.count = 0 then eof w
        else getCached w

/-- `@read` -/
def getRead (w : Ram) : Byte × Ram :=
  if w.owner.pos < w.owner.len then getCached w
  else if w.owner.eof ≠ 0 then eof w
  else getRefill w

/-- The switch of an update owner from writing to reading. -/
def startReading (w : Ram) : Ram :=
  w.setOwner { w.owner with
    offset0 := 0, offset1 := 0, offset2 := 0, offset3 := 0, len := 0, pos := 0, eof := 0,
    reading := w.owner.reading + 1 }

/-- `do_get` down to `@read`: a result when it ends before. -/
def getEnter (w : Ram) : Option Byte × Ram :=
  if w.owner.mode = 4 then (none, w)
  else if w.owner.mode ≠ 12 then (some 0x92, w)
  else if w.owner.reading ≠ 0 then (none, w)
  else
    let (a, w) := finishWrite w
    if a ≠ 1 then (some 0x90, w)
    else (none, startReading w)

def doGet (w : Ram) : Byte × Ram :=
  match getEnter w with
  | (some y, w) => (y, w)
  | (none, w) => getRead w

/-! ### STATUS, CLOSE and OPEN -/

/-- `@info` -/
def statusInfo (w : Ram) : Byte × Ram :=
  let (c, w) := sessionPacket 5 w
  if c then ioError w
  else
    let (c, w) := transfer w
    if c then ioError w
    else if w.owner.mode = 8 then success w
    else if w.owner.eof = 0 then success w
    else if w.owner.pos < w.owner.len then success w
    else eof w

def doStatus (w : Ram) : Byte × Ram :=
  if w.owner.mode = 4 then statusInfo w
  else
    let (a, w) := finishWrite w
    if a ≠ 1 then (a, w) else statusInfo w

/-- `@close`, with `close_result` so far. -/
def closeSession (closeResult : Byte) (w : Ram) : Byte × Ram :=
  let (c, w) := sessionPacket 4 w
  if c then (0x90, w)
  else
    let (c, w) := transfer w
    if c then (0x90, w) else (closeResult, w)

def release (w : Ram) : Ram := w.setOwner { w.owner with own := 0xff }

def doClose (w : Ram) : Byte × Ram :=
  let (r, w) := if w.owner.mode = 4 then success w else finishWrite w
  let (r, w) := closeSession r w
  (r, release w)

/-- The address of `(ptr),y`. -/
def effective (ptr : Byte × Byte) (y : ℕ) : Word := BitVec.ofNat 16 (ptr.1.toNat + 256 * ptr.2.toNat + y)

/-- `lda (ptr),y`; `ptr` itself is at `$82/$83`. -/
def indirect (mem : Word → Byte) (ptr : Byte × Byte) (y : ℕ) : Byte :=
  if effective ptr y = 0x82 then ptr.1
  else if effective ptr y = 0x83 then ptr.2
  else mem (effective ptr y)

/-- `@uri`, with room for `n` more bytes: the URI length, unless it is too long. -/
def uriLoop (mem : Word → Byte) (ptr : Byte × Byte) : ℕ → ℕ → ℕ → (ℕ → Byte) → Option ℕ × (ℕ → Byte)
  | n, y, x, p =>
    let a := indirect mem ptr (y + 1)
    if a = 0 ∨ a = 0x9b then (some x, p)
    else
      match n with
      | 0 => (none, p)
      | n + 1 => uriLoop mem ptr n (y + 1) (x + 1) (Function.update p (11 + x) a)

/-- `@end`: the remaining fields of the OPEN request. -/
def openRequest (openMode : Byte) (uriLen : ℕ) (p : Wire) : Wire :=
  let p := (p.poke 9 (BitVec.ofNat 8 uriLen)).setRequestLen (BitVec.ofNat 8 uriLen + 19)
  if openMode = 4 then p.poke 7 1
  else (p.poke 8 4).poke 7 (if openMode = 8 then 3 else 2)

/-- The record OPEN leaves: all fields 0 but these four. -/
def openedOwner (own mode : Byte) (handle : Byte × Byte) : Owner where
  own := own
  mode := mode
  handle := handle
  offset0 := 0
  offset1 := 0
  offset2 := 0
  offset3 := 0
  len := 0
  pos := 0
  eof := 0
  fault := 0
  committed := 0
  reading := 0
  spare := (0, 0)

/-- `do_open` from its `exchange` on. -/
def openExchange (openMode : Byte) (w : Ram) : Byte × Ram :=
  let (c, w) := transfer w
  if c then ioError w
  else if w.wire.payloadLen < 7 then ioError w
  else
    let y := w.wire.payload.toNat
    let handle := (w.wire.packet (4 + y), w.wire.packet (5 + y))
    if handle.2 &&& handle.1 = 0xff then ioError w
    else success (w.setOwner (openedOwner w.callerX openMode handle))

/-- `do_open` with its free slot: the request is built from the caller's buffer. -/
def openNamed (mem : Word → Byte) (openMode : Byte) (w : Ram) : Byte × Ram :=
  let (c, p) := beginPacket 1 w.wire
  let w := w.setWire p
  if c then ioError w
  else
    let x := w.callerX.setWidth 16
    let w := w.setPtr (mem (0x0344 + x), mem (0x0345 + x))
    if w.ptr.1 ||| w.ptr.2 = 0 then badName w
    else if indirect mem w.ptr 0 ≠ 0x4e then badName w
    else if indirect mem w.ptr 1 ≠ 0x31 then badName w
    else if indirect mem w.ptr 2 ≠ 0x3a then badName w
    else
      match uriLoop mem w.ptr 128 2 0 w.wire.packet with
      | (none, packet) => badName (w.setWire (w.wire.setPacket packet))
      | (some 0, packet) => badName (w.setWire (w.wire.setPacket packet))
      | (some n, packet) =>
        openExchange openMode (w.setWire (openRequest openMode n (w.wire.setPacket packet)))

def doOpen (mem : Word → Byte) (w : Ram) : Byte × Ram :=
  let openMode := mem (0x034a + w.callerX.setWidth 16)
  if openMode ≠ 4 ∧ openMode ≠ 8 ∧ openMode ≠ 12 then unsupported w
  else if (w.owners .x16).own.msb then openNamed mem openMode (w.setSlot .x16)
  else if (w.owners .x0).own.msb then openNamed mem openMode (w.setSlot .x0)
  else (0xa1, w)

/-! ### The gateway -/

/-- `@find`: the record owned by the caller's IOCB, the second one first. -/
def findOwner (w : Ram) : Option Slot :=
  if (w.owners .x16).own = w.callerX then some .x16
  else if (w.owners .x0).own = w.callerX then some .x0
  else none

def dispatch (mem : Word → Byte) (operation : Op) (w : Ram) : Byte × Ram :=
  if w.callerX &&& 0x8f ≠ 0 then (0x86, w)
  else
    match findOwner w, operation with
    | none, .openIocb => doOpen mem w
    | none, _ => (0x85, w)
    | some x, operation =>
      let w := w.setSlot x
      match operation with
      | .openIocb => (0x81, w)
      | .close => doClose w
      | .get => doGet w
      | .put => doPut w
      | .status => doStatus w

/-- One CIO call: the entry point, A and X, the caller's `$82/$83`, the other memory
it reads (its IOCBs and name buffer, outside of the resident), and what the SIO calls made
for it return. -/
structure Call where
  op : Op
  a : Byte
  x : Byte
  zp : Byte × Byte
  mem : Word → Byte
  results : ℕ → SioResult

/-- A finished CIO call: the call, then A, Y and `$82/$83` on return, and the
events it caused. -/
structure Done where
  call : Call
  a : Byte
  y : Byte
  zp : Byte × Byte
  events : List Event

/-- The result in A and Y. `ptr` is borrowed for the call. -/
def gateway (c : Call) (w : Ram) : (Byte × Byte) × Ram :=
  if w.busy ≠ 0 then ((c.a, 0x92), w)
  else
    let zp := w.ptr
    let (result, w) := dispatch c.mem c.op ((w.setBusy (w.busy + 1)).setCaller c.a c.x)
    ((w.callerA, result), (w.setPtr zp).setBusy (w.busy - 1))

/-- The state in which `gateway` dispatches the call. -/
def entered (c : Call) (w : Ram) : Ram :=
  (((w.setPtr c.zp).setWire { w.wire with results := c.results, log := [] }).setBusy (w.busy + 1)).setCaller c.a c.x

/-- One call as a step of the handler. -/
def perform (c : Call) (w : Ram) : Done × Ram :=
  let wire := { w.wire with results := c.results, log := [] }
  let ((a, y), w) := gateway c ((w.setPtr c.zp).setWire wire)
  (⟨c, a, y, w.ptr, w.wire.log⟩, w)

def handler : Machine Ram Call Done := ⟨perform⟩

/-- `_fnresident_module_entry` -/
def moduleEntry (w : Ram) : Ram :=
  { w with owners := fun k => { w.owners k with own := 0xff } }

/-- The BSS segment as the loader leaves it. -/
def bss : Ram where
  owners := fun _ => openedOwner 0 0 (0, 0)
  caches := fun _ => 0
  busy := 0
  callerA := 0
  callerX := 0
  ptr := (0, 0)
  slot := .x0
  count := 0
  wire :=
    { packet := fun _ => 0, command := 0, requestLen := 0, wireLen := 0, wireHi := 0
      outstanding := 0, payload := 0, payloadLen := 0
      results := fun _ => ⟨0, fun _ => 0⟩, log := [] }

/-- The initialised resident. -/
def init : Ram := moduleEntry bss

/-- The state and the finished calls after the CIO calls `calls`. -/
def after (calls : List Call) : Ram := handler.final init calls
def history (calls : List Call) : List Done := handler.outputs init calls

/-- The events of a list of finished calls. -/
def events (h : List Done) : List Event := h.flatMap Done.events

end NioApps.Resident
