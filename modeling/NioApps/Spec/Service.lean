import NioApps.Lib.Abort
import NioApps.Lib.Bytes
import NioApps.Spec.Commands

/-! The client side of the NIO file and disk services (`fnsvc.c`), over `fnctl_nio_call`.

`answer` is the other side: what comes back for the last of the requests sent so far.
An access outside of one of the two 512-byte buffers ends the run, with `fault` set.
Strings are the bytes before their NUL; `none` is a null pointer. `size_t` and `int`
are wider than 16 bits, except for the index in `host_get_current`. -/

namespace NioApps.Service

open Abort Commands

def maxData : ℕ := 512
def maxUnits : Byte := 8
def deviceDisk : Byte := 0xfc
def deviceFile : Byte := 0xfe
def diskVersion : Byte := 1
def diskMountCommand : Byte := 0x01
def diskUnmountCommand : Byte := 0x02
def diskRestoreBootCommand : Byte := 0x0a
def diskListMountsCommand : Byte := 0x0d
def fileVersion : Byte := 1
def fileListDirectory : Byte := 0x02
def fileResolvePath : Byte := 0x05
def listNameSize : ℕ := 221
def listMaxPayload : Word := 420
def statusOk : Byte := 0

def errNone : Byte := 0
def errInvalidArg : Byte := 1
def errRequestTooLarge : Byte := 2
def errTransport : Byte := 3
def errStatus : Byte := 4
def errBadVersion : Byte := 5
def errShortResponse : Byte := 6
def errEntriesBounds : Byte := 7
def errEntryBounds : Byte := 8

/-- Two of the `FN_DISK_ERR_*` codes. -/
structure DiskErr where
  none : Byte
  unreported : Byte
  distinct : unreported ≠ none

structure Request where
  device : Byte
  command : Byte
  bytes : List Byte
  capacity : Word
deriving DecidableEq, Repr

/-- What `fn_raw_call` returns and stores. -/
structure Reply where
  result : Byte
  status : Byte
  length : Word
  data : ℕ → Byte

/-- One call of the listing callback. -/
structure Listed where
  isDir : Byte
  name : List Byte
  size : BitVec 32
  mtime : BitVec 32
deriving DecidableEq, Repr

/-- An access outside of `req_buf`, of `resp_buf` or of `list_name`. -/
inductive Fault
  | request
  | response
  | name
deriving DecidableEq, Repr

/-- The variables of a program. `respEnd` and `beyond` are not variables of the source: the
length of the last response, and whether bytes behind it were read from the buffer. -/
structure Client where
  reqBuf : ℕ → Byte
  respBuf : ℕ → Byte
  listName : ℕ → Byte
  lastError : Byte
  lastStatus : Byte
  lastRawError : Byte
  lastResponseLen : Word
  lastDosError : Byte
  diskLastError : Byte
  /-- What is stored through the pointers of the caller. -/
  resolvedUri : List Byte
  displayPath : List Byte
  resolvedFlags : Byte
  mountText : List Byte
  mountCount : Word
  mountMore : Byte
  currentHost : List Byte
  currentPath : List Byte
  answer : List Request → Reply
  sent : List Request
  listed : List Listed
  respEnd : ℕ
  beyond : Bool
  fault : Option Fault

/-- The static variables of a program at its start. -/
def Client.start (d : DiskErr) (answer : List Request → Reply) : Client where
  reqBuf := fun _ => 0
  respBuf := fun _ => 0
  listName := fun _ => 0
  lastError := 0
  lastStatus := 0
  lastRawError := 0
  lastResponseLen := 0
  lastDosError := 0
  diskLastError := d.none
  resolvedUri := []
  displayPath := []
  resolvedFlags := 0
  mountText := []
  mountCount := 0
  mountMore := 0
  currentHost := []
  currentPath := []
  answer
  sent := []
  listed := []
  respEnd := 0
  beyond := false
  fault := none

abbrev Svc := EStateM Unit Client

def outside {α : Type} (f : Fault) : Svc α := do
  modify fun c => { c with fault := some f }
  throw ()

/-! ### The buffers -/

/-- Memory with some bytes stored from `off` on. -/
def store (off : ℕ) (bs : List Byte) (b : ℕ → Byte) : ℕ → Byte := fun k =>
  if off ≤ k ∧ k < off + bs.length then bs.getD (k - off) 0 else b k

/-- Bytes stored at `&req_buf[off]`, and `off` behind them. -/
def put (off : Word) (bs : List Byte) : Svc Word := do
  if off.toNat + bs.length ≤ maxData then
    modify fun c => { c with reqBuf := store off.toNat bs c.reqBuf }
    return off + BitVec.ofNat 16 bs.length
  else outside .request

def u16le (v : Word) : List Byte := [lo v, hi v]

/-- `n` bytes from `off` on are read. -/
def look (off n : ℕ) (c : Client) : Client :=
  if n = 0 ∨ off + n ≤ c.respEnd then c else { c with beyond := true }

/-- `n` bytes from `&resp_buf[off]` on. -/
def getAt (off n : ℕ) : Svc (List Byte) := do
  if off + n ≤ maxData then
    modify (look off n)
    return slice (← MonadState.get).respBuf off n
  else outside .response

def get (off : Word) (n : ℕ) : Svc (List Byte) := getAt off.toNat n

def getByte (off : Word) : Svc Byte := do return (← get off 1).getD 0 0

def getU16 (off : Word) : Svc Word := do return BitVec.ofNat 16 (le (← get off 2))

def getU32 (off : Word) : Svc (BitVec 32) := do return BitVec.ofNat 32 (le (← get off 4))

/-! ### Calls -/

/-- The status and the length of the response, unless the call failed. -/
def nioCall (device command : Byte) (requestLen capacity : Word) : Svc (Option (Byte × Word)) := do
  if requestLen.toNat > maxData ∨ capacity.toNat > maxData then return none
  let c ← MonadState.get
  let sent := c.sent ++ [⟨device, command, slice c.reqBuf 0 requestLen.toNat, capacity⟩]
  let r := c.answer sent
  let written := min r.length.toNat capacity.toNat
  modify fun c => { c with
    sent
    respBuf := fun k => if k < written then r.data k else c.respBuf k
    respEnd := r.length.toNat
    lastDosError := r.result }
  if r.result ≠ 0 then return none
  return some (r.status, r.length)

def serviceCall (device command : Byte) (requestLen capacity : Word) : Svc (Option (Byte × Word)) := do
  match ← nioCall device command requestLen capacity with
  | none =>
    modify fun c => { c with lastRawError := c.lastDosError }
    return none
  | some r =>
    modify fun c => { c with lastRawError := 0 }
    return some r

def fail (error : Byte) : Svc Bool := do
  modify fun c => { c with lastError := error }
  return false

/-- The four assignments before the first call. -/
def clearLast (c : Client) : Client :=
  { c with lastError := errNone, lastStatus := 0, lastRawError := 0, lastResponseLen := 0 }

def keepLast (status : Byte) (respLen : Word) (c : Client) : Client :=
  { c with lastStatus := status, lastResponseLen := respLen }

/-! ### fnsvc_list_directory -/

/-- The copy of a name to `list_name`, and the NUL behind it. -/
def copyName (name : List Byte) : Svc PUnit := do
  if name.length < listNameSize then modify fun c => { c with listName := store 0 (name ++ [0]) c.listName }
  else outside .name

/-- A call of the callback; `list_name` ends at the first NUL. -/
def callback (eflags : Byte) (size mtime : BitVec 32) (c : Client) : Client :=
  { c with listed := c.listed ++
      [⟨eflags &&& 1, (slice c.listName 0 listNameSize).takeWhile (· ≠ 0), size, mtime⟩] }

/-- The entries from `pos` on, `n` of them left. -/
def listEntries (flags : Byte) (respLen : Word) : ℕ → Word → Svc Bool
  | 0, _ => return true
  | n + 1, pos => do
    if pos + 2 > respLen then fail errEntryBounds
    else
      let eflags ← getByte pos
      let nameLen ← getByte (pos + 1)
      let pos := pos + 2
      if pos + nameLen.setWidth 16 > respLen ∨ nameLen.toNat ≥ listNameSize then fail errEntryBounds
      else
        copyName (← get pos nameLen.toNat)
        let pos := pos + nameLen.setWidth 16
        if flags &&& 0x02 = 0 then
          if pos + 16 > respLen then fail errEntryBounds
          else
            let size ← getU32 pos
            let mtime ← getU32 (pos + 8)
            modify (callback eflags size mtime)
            listEntries flags respLen n (pos + 16)
        else
          modify (callback eflags 0 0)
          listEntries flags respLen n pos

/-- How a round of the paging loop ends. -/
inductive Page
  | done (ok : Bool)
  | next (start : Word)

def failPage (error : Byte) : Svc Page := do return .done (← fail error)

/-- The request for the page from `start` on; the result is its length. -/
def listRequest (uri : List Byte) (uriLen start : Word) : Svc Word := do
  let off ← put 0 [fileVersion]
  let off ← put off (u16le uriLen)
  let off ← put off (uri.take uriLen.toNat)
  let off ← put off (u16le start)
  let off ← put off (u16le listMaxPayload)
  put off [0x02]

/-- The response of `respLen` bytes. -/
def listResponse (respLen start : Word) : Svc Page := do
  if respLen < 10 then failPage errShortResponse
  else if (← getByte 0) ≠ fileVersion then failPage errBadVersion
  else
    let flags ← getByte 1
    let count ← getU16 6
    let entriesLen ← getU16 8
    if 10 + entriesLen > respLen then failPage errEntriesBounds
    else if ← listEntries flags respLen count.toNat 10 then
      if flags &&& 0x01 = 0 then return .done true
      else if count = 0 then failPage errShortResponse
      else return .next (start + count)
    else return .done false

def listPage (uri : List Byte) (uriLen start : Word) : Svc Page := do
  if uriLen.toNat + 6 > maxData then failPage errRequestTooLarge
  else
    let off ← listRequest uri uriLen start
    match ← serviceCall deviceFile fileListDirectory off 512 with
    | none => failPage errTransport
    | some (status, respLen) =>
      modify (keepLast status respLen)
      if status ≠ statusOk then failPage errStatus
      else listResponse respLen start

/-- The paging loop, for at most `n` rounds; `none` when these were not enough. -/
def listPages (uri : List Byte) (uriLen : Word) : ℕ → Word → Svc (Option Bool)
  | 0, _ => return none
  | n + 1, start => do
    match ← listPage uri uriLen start with
    | .done ok => return some ok
    | .next start => listPages uri uriLen n start

/-- `cb`: whether there is a callback. -/
def listDirectory (n : ℕ) (uri : List Byte) (cb : Bool) : Svc (Option Bool) := do
  let uriLen := BitVec.ofNat 16 uri.length
  if !cb then return some (← fail errInvalidArg)
  modify clearLast
  listPages uri uriLen n 0

/-! ### fnsvc_resolve_path -/

def resolveRequest (baseUri arg : List Byte) (baseLen argLen : Word) : Svc Word := do
  let off ← put 0 [fileVersion]
  let off ← put off (u16le baseLen)
  let off ← put off (baseUri.take baseLen.toNat)
  let off ← put off (u16le argLen)
  if argLen ≠ 0 then put off (arg.take argLen.toNat) else return off

/-- The response of `respLen` bytes; `display` and `flagsOut`: whether there are such pointers. -/
def resolveResponse (respLen resolvedCap : Word) (display : Bool) (displayCap : Word) (flagsOut : Bool) : Svc Bool := do
  if respLen < 8 then fail errBadVersion
  else if (← getByte 0) ≠ fileVersion then fail errBadVersion
  else
    let flags ← getByte 1
    let len ← getU16 4
    if 6 + len + 2 > respLen then fail errShortResponse
    else
      let copyLen := if len ≥ resolvedCap then resolvedCap - 1 else len
      let uri ← get 6 copyLen.toNat
      modify fun c => { c with resolvedUri := uri }
      let off := 6 + len
      let len ← getU16 off
      let off := off + 2
      if off + len > respLen then fail errShortResponse
      else
        if display = true ∧ displayCap > 0 then
          let copyLen := if len ≥ displayCap then displayCap - 1 else len
          let path ← get off copyLen.toNat
          modify fun c => { c with displayPath := path }
        if flagsOut then modify fun c => { c with resolvedFlags := flags }
        return true

/-- `resolved`: whether there is such a pointer. -/
def resolvePath (baseUri arg : Option (List Byte)) (resolved : Bool) (resolvedCap : Word) (display : Bool)
    (displayCap : Word) (flagsOut : Bool) : Svc Bool := do
  match baseUri with
  | none => fail errInvalidArg
  | some baseUri =>
    if resolved = false ∨ resolvedCap = 0 then fail errInvalidArg
    else
      let arg := arg.getD []
      let baseLen := BitVec.ofNat 16 baseUri.length
      let argLen := BitVec.ofNat 16 arg.length
      if (baseLen + argLen + 5).toNat > maxData then fail errRequestTooLarge
      else
        modify clearLast
        let off ← resolveRequest baseUri arg baseLen argLen
        match ← serviceCall deviceFile fileResolvePath off 512 with
        | none => fail errTransport
        | some (status, respLen) =>
          modify (keepLast status respLen)
          if status ≠ statusOk then fail errStatus
          else resolveResponse respLen resolvedCap display displayCap flagsOut

/-! ### The disk service -/

/-- `disk_result` for a call that failed. -/
def diskNotCalled (d : DiskErr) (c : Client) : Client := { c with diskLastError := d.unreported }

/-- `disk_result` for a call that came back. -/
def diskResult (d : DiskErr) (status : Byte) (respLen : Word) (c : Client) : Client :=
  { c with diskLastError :=
      if status = statusOk then d.none
      else if respLen = 2 ∧ c.respBuf 0 = diskVersion then c.respBuf 1
      else d.unreported }

def mountRequest (slot : Byte) (uri : List Byte) (uriLen : Word) (readonly : Byte) (hint : Word) : Svc Word := do
  let off ← put 0 [diskVersion]
  let off ← put off [slot + 1]
  let off ← put off [if readonly ≠ 0 then 0x01 else 0x00]
  let off ← put off [0x00]
  let off ← put off (u16le hint)
  let off ← put off (u16le uriLen)
  put off (uri.take uriLen.toNat)

def diskMount (d : DiskErr) (slot : Byte) (uri : List Byte) (readonly : Byte) (hint : Word) : Svc Bool := do
  let uriLen := BitVec.ofNat 16 uri.length
  if slot ≥ maxUnits ∨ uriLen = 0 ∨ uriLen.toNat + 8 > maxData then return false
  let off ← mountRequest slot uri uriLen readonly hint
  match ← serviceCall deviceDisk diskMountCommand off 32 with
  | none =>
    modify (diskNotCalled d)
    return false
  | some (status, respLen) =>
    modify (diskResult d status respLen)
    return status = statusOk

/-- The response of `respLen` bytes. -/
def mountsResponse (respLen textCap : Word) : Svc Bool := do
  if respLen < 10 then fail errBadVersion
  else if (← getByte 0) ≠ diskVersion then fail errBadVersion
  else if (← getByte 1) &&& 0x02 = 0 then fail errBadVersion
  else
    let count ← getU16 6
    modify fun c => { c with mountCount := count }
    let entriesLen ← getU16 8
    if 10 + entriesLen > respLen ∨ entriesLen ≥ textCap then fail errEntriesBounds
    else
      let text ← get 10 entriesLen.toNat
      modify fun c => { c with mountText := text }
      let more ← getByte 1
      modify fun c => { c with mountMore := more &&& 0x01 }
      return true

/-- `pointers`: whether there are the three pointers for the results. -/
def diskListMounts (d : DiskErr) (start : Word) (pointers : Bool) (textCap : Word) : Svc Bool := do
  if pointers = false ∨ textCap < 2 then return false
  let off ← put 0 [diskVersion]
  let off ← put off [0x01]
  let off ← put off (u16le 0)
  let off ← put off (u16le 0)
  let off ← put off (u16le start)
  let off ← put off (u16le (textCap - 1))
  match ← serviceCall deviceDisk diskListMountsCommand off 512 with
  | none =>
    modify (diskNotCalled d)
    fail errTransport
  | some (status, respLen) =>
    modify (keepLast status respLen)
    modify (diskResult d status respLen)
    if status ≠ statusOk then fail errStatus
    else mountsResponse respLen textCap

def diskUnmount (d : DiskErr) (slot : Byte) : Svc Bool := do
  if slot ≥ maxUnits then return false
  let off ← put 0 [diskVersion]
  let off ← put off [slot + 1]
  match ← serviceCall deviceDisk diskUnmountCommand off 16 with
  | none =>
    modify (diskNotCalled d)
    return false
  | some (status, respLen) =>
    modify (diskResult d status respLen)
    return status = statusOk

/-- The response of `respLen` bytes. -/
def restoreResponse (respLen : Word) : Svc Bool := do
  if respLen < 12 then fail errShortResponse
  else if (← getByte 0) ≠ diskVersion then fail errBadVersion
  else return true

def diskRestoreBoot (d : DiskErr) (slot : Byte) : Svc Bool := do
  if slot ≥ maxUnits then return false
  modify clearLast
  let off ← put 0 [diskVersion]
  let off ← put off [slot + 1]
  match ← serviceCall deviceDisk diskRestoreBootCommand off 16 with
  | none =>
    modify (diskNotCalled d)
    fail errTransport
  | some (status, respLen) =>
    modify (keepLast status respLen)
    modify (diskResult d status respLen)
    if status ≠ statusOk then fail errStatus
    else restoreResponse respLen

inductive DiskCall
  | mount (slot : Byte) (uri : List Byte) (readonly : Byte) (hint : Word)
  | listMounts (start : Word) (pointers : Bool) (textCap : Word)
  | unmount (slot : Byte)
  | restoreBoot (slot : Byte)
deriving DecidableEq, Repr

def DiskCall.exec (d : DiskErr) : DiskCall → Svc Bool
  | .mount slot uri readonly hint => diskMount d slot uri readonly hint
  | .listMounts start pointers textCap => diskListMounts d start pointers textCap
  | .unmount slot => diskUnmount d slot
  | .restoreBoot slot => diskRestoreBoot d slot

/-- A call that came back. -/
structure Returned where
  call : DiskCall
  before : Client
  ok : Bool
  after : Client

/-- The calls of a program that came back. -/
def returns (d : DiskErr) : List DiskCall → Client → List Returned
  | [], _ => []
  | call :: calls, c =>
    match (call.exec d).run c with
    | .ok ok c' => ⟨call, c, ok, c'⟩ :: returns d calls c'
    | .error _ _ => []

/-! ### FHOST

`host_set_current` and `host_get_current` of `fhost.c`, which has two buffers of its own. -/

def deviceHost : Byte := 0xf0
def hostVersion : Byte := 1
def hostGetCurrentCommand : Byte := 0x01
def hostSetCurrentCommand : Byte := 0x02

def hostSetCurrent (value : List Byte) : Svc Bool := do
  let len := BitVec.ofNat 16 value.length
  let off ← put 0 [hostVersion]
  let off ← put off (u16le len)
  if off.toNat + len.toNat > maxData then return false
  let off ← put off (value.take len.toNat)
  match ← nioCall deviceHost hostSetCurrentCommand off 512 with
  | none => return false
  | some (status, respLen) =>
    if status = 0 ∧ respLen ≥ 1 then return (← getByte 0) = hostVersion else return false

/-- The response of `respLen` bytes. The index of the path is an `int`, or an `unsigned`
where that has 16 bits. -/
def hostResponse (t : Target) (respLen hostCap pathCap : Word) : Svc Bool := do
  if respLen < 5 then return false
  else if (← getByte 0) ≠ hostVersion then return false
  else
    let hostLen ← getU16 1
    let pathLen ← getU16 3
    if 5 + hostLen + pathLen > respLen then return false
    else
      let copyLen := if hostLen ≥ hostCap then hostCap - 1 else hostLen
      let host ← get 5 copyLen.toNat
      modify fun c => { c with currentHost := host }
      let copyLen := if pathLen ≥ pathCap then pathCap - 1 else pathLen
      let path ← getAt ((5 + hostLen.toNat) % 2 ^ t.int) copyLen.toNat
      modify fun c => { c with currentPath := path }
      return true

def hostGetCurrent (t : Target) (hostCap pathCap : Word) : Svc Bool := do
  if hostCap = 0 ∨ pathCap = 0 then return false
  modify fun c => { c with currentHost := [], currentPath := [] }
  let off ← put 0 [hostVersion]
  match ← nioCall deviceHost hostGetCurrentCommand off 512 with
  | none => return false
  | some (status, respLen) => if status ≠ 0 then return false else hostResponse t respLen hostCap pathCap

end NioApps.Service
