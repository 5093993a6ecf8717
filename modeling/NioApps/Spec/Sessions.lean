import NioApps.Lib.Chunks
import NioApps.Lib.Upload
import NioApps.Spec.Packets

/-! The lifetime of one owner, from the OPEN that returned 1 on: its own calls
among those of all callers, the request body its PUTs stored and the WRITE
packets sent for it, the READ requests sent for it and the bytes its GETs returned. -/

namespace NioApps.Resident

/-- The open mode at `ICAX1` of the caller's IOCB. -/
def Call.mode (c : Call) : Byte := c.mem (0x034a + c.x.setWidth 16)

/-- The finished calls of the IOCB `x`. -/
def callsOf (x : Byte) (ds : List Done) : List Done := ds.filter fun d => d.call.x = x

/-- After the calls `before`, the call `o` opens an owner. -/
structure Opens (before : List Call) (o : Call) : Prop where
  op : o.op = .openIocb
  ok : (perform o (after before)).1.y = 1

/-- The finished calls of the owner that `o` opened, while `calls` follow. -/
def lifetime (before : List Call) (o : Call) (calls : List Call) : List Done :=
  callsOf o.x (handler.outputs (after (before ++ [o])) calls)

/-- The bytes PUT stored in the cache, in order. -/
def body (ds : List Done) : List Byte := stores (events ds)

/-- The bytes of the PUTs that returned 1. -/
def putBytes (ds : List Done) : List Byte :=
  (ds.filter fun d => d.call.op = .put ∧ d.y = 1).map fun d => d.call.a

def packetOf (x : Exchange) : Upload.Packet Byte := ⟨frameOffset x.1, frameData x.1, writeAck x⟩

/-- The WRITE packets among some exchanges. -/
def writePackets (xs : List Exchange) : List (Upload.Packet Byte) :=
  (xs.filter fun x => frameCommand x.1 = 3).map packetOf

/-- The WRITE packets sent during some calls. -/
def writes (ds : List Done) : List (Upload.Packet Byte) := writePackets (exchanges (events ds))

/-- The bytes the GETs that returned 1 left in A. -/
def getBytes (ds : List Done) : List Byte :=
  (ds.filter fun d => d.call.op = .get ∧ d.y = 1).map Done.a

def requestOf (x : Exchange) : Chunks.Request Byte := ⟨frameOffset x.1, readData x⟩

/-- The READ requests among some exchanges. -/
def readRequests (xs : List Exchange) : List (Chunks.Request Byte) :=
  (xs.filter fun x => frameCommand x.1 = 2).map requestOf

/-- The READ requests sent during some calls. -/
def reads (ds : List Done) : List (Chunks.Request Byte) := readRequests (exchanges (events ds))

/-- The state in which the GET `c` of the owner of slot `k` reaches `@read`. -/
def atRead (c : Call) (k : Slot) (w : Ram) : Ram := (getEnter ((entered c w).setSlot k)).2

end NioApps.Resident
