import NioApps.Lib.Bytes

/-! The `$7f` W/P/R transport of the resident N: handler (`fnresident_asm.s`):
`sio`, `checksum`, `receive`, `exchange` and `begin_packet`, over the shared
512-byte packet buffer. What the SIO calls return is a parameter (`results`);
each call, and each return of `exchange`, is recorded in `log`. -/

namespace NioApps.Resident

/-- `'P'`, `'R'` and `'W'`: poll, read the response, write the request. -/
def cmdP : Byte := 0x50
def cmdR : Byte := 0x52
def cmdW : Byte := 0x57

def packetMax : ℕ := 160

/-- The device control block `sio` fills in at `$0300` before it calls SIOV. -/
structure Dcb where
  device : Byte
  unit : Byte
  command : Byte
  direction : Byte
  timeout : Byte
  length : Byte × Byte
  aux : Byte × Byte
deriving DecidableEq, Repr

/-- What one SIO call returns: the status left in `$0303` and, for a transfer
to the computer, the bytes of the buffer within the length asked for. -/
structure SioResult where
  status : Byte
  data : ℕ → Byte

/-- `sio`: one call of SIOV, with the bytes that `W` sent or that `P` and `R`
left in the packet buffer. `exchange`: `exchange` returned after sending
`frame`, with the response when it accepted one. `store`: PUT stored a byte. -/
inductive Event
  | sio (dcb : Dcb) (status : Byte) (bytes : List Byte)
  | exchange (frame : List Byte) (reply : Option (List Byte))
  | store (byte : Byte)
deriving DecidableEq, Repr

/-- The transport variables, with the results of the SIO calls still to come
and the events so far. -/
structure Wire where
  packet : ℕ → Byte
  command : Byte
  requestLen : Byte
  wireLen : Byte
  wireHi : Byte
  outstanding : Byte
  payload : Byte
  payloadLen : Byte
  results : ℕ → SioResult
  log : List Event

namespace Wire

/-- The number of bytes `wire_len` and `wire_hi` ask SIO to move. -/
def len (w : Wire) : ℕ := w.wireLen.toNat + 256 * w.wireHi.toNat

@[simps] def record (e : Event) (w : Wire) : Wire := { w with log := w.log ++ [e] }
@[simps] def poke (i : ℕ) (b : Byte) (w : Wire) : Wire := { w with packet := Function.update w.packet i b }
@[simps] def setPacket (p : ℕ → Byte) (w : Wire) : Wire := { w with packet := p }
@[simps] def setCommand (a : Byte) (w : Wire) : Wire := { w with command := a }
@[simps] def setRequestLen (n : Byte) (w : Wire) : Wire := { w with requestLen := n }
@[simps] def setLen (n : Byte) (w : Wire) : Wire := { w with wireLen := n }
@[simps] def setHi (n : Byte) (w : Wire) : Wire := { w with wireHi := n }
@[simps] def setOutstanding (b : Byte) (w : Wire) : Wire := { w with outstanding := b }
@[simps] def setPayload (y : Byte) (w : Wire) : Wire := { w with payload := y }
@[simps] def setPayloadLen (n : Byte) (w : Wire) : Wire := { w with payloadLen := n }

end Wire

def dcbOf (a : Byte) (w : Wire) : Dcb where
  device := 0x7f
  unit := 1
  command := a
  direction := if a = cmdW then 0x80 else 0x40
  timeout := 60
  length := (w.wireLen, w.wireHi)
  aux := if a = cmdP then (0, 0) else (w.wireLen, w.wireHi)

/-- The packet buffer after SIO: `W` only reads it. -/
def sioPacket (a : Byte) (w : Wire) : ℕ → Byte :=
  if a = cmdW then w.packet else fun i => if i < w.len then (w.results 0).data i else w.packet i

/-- One SIO call with command `a`. The result is the zero flag: `$0303` is 1. -/
def sio (a : Byte) (w : Wire) : Bool × Wire :=
  ((w.results 0).status == 1,
    { w with
      packet := sioPacket a w
      results := fun n => w.results (n + 1)
      log := w.log ++ [.sio (dcbOf a w) (w.results 0).status (slice (sioPacket a w) 0 w.len)] })

/-- `clc / adc b / adc #0`: add with the carry brought around. -/
def addAround (a b : Byte) : Byte :=
  if a.toNat + b.toNat < 256 then a + b else a + b + 1

/-- `@sum`: `n` more bytes from index `x`, byte 4 left out. -/
def checksumLoop (packet : ℕ → Byte) : ℕ → ℕ → Byte → Byte
  | 0, _, a => a
  | n + 1, x, a => checksumLoop packet n (x + 1) (if x = 4 then a else addAround a (packet x))

/-- The loop tests `x` after its increment, so a `wire_len` of 0 means 256. -/
def checksum (w : Wire) : Byte :=
  checksumLoop w.packet (if w.wireLen = 0 then 256 else w.wireLen.toNat) 0 0

def wireBad (w : Wire) : Bool × Wire := (true, w)

/-- `@ready`: retire a ready response with R. The result is the carry flag. -/
def receiveReady (w : Wire) : Bool × Wire :=
  let w := w.setHi (w.packet 2)
  if ¬w.wireHi < 2 ∧ (w.wireHi ≠ 2 ∨ w.packet 1 ≠ 0) then wireBad w
  else if w.wireHi = 0 ∧ w.packet 1 = 0 then wireBad w
  else
    let (z, w) := sio cmdR (w.setLen (w.packet 1))
    if !z then wireBad w else (false, w.setOutstanding 0)

/-- `@poll`, with `polls` polls left. -/
def receivePoll : ℕ → Wire → Bool × Wire
  | 0, w => (true, w)
  | polls + 1, w =>
    let (z, w) := sio cmdP ((w.setLen 3).setHi 0)
    if !z then receivePoll polls w
    else if w.packet 0 = 0 then (true, w.setOutstanding 0)
    else if w.packet 0 = 2 then receiveReady w
    else receivePoll polls w

def receive (w : Wire) : Bool × Wire := receivePoll 60 w

/-- `@payload`, entered with the offset of the payload in Y. -/
def replyPayload (y : Byte) (w : Wire) : Bool × Wire :=
  let w := w.setPayload y
  if w.wireLen < w.payload then wireBad w
  else
    let w := w.setPayloadLen (w.wireLen - w.payload)
    if w.payloadLen = 0 then (false, w)
    else if w.payloadLen < 4 then wireBad w
    else if w.packet y.toNat ≠ 1 then wireBad w
    else if w.packet (2 + y.toNat) ||| w.packet (3 + y.toNat) ≠ 0 then wireBad w
    else (false, w)

/-- The tests on the header of a response, in order; the first that holds
leaves for `wire_bad`. -/
def headerBad (w : Wire) : Bool :=
  w.wireHi != 0 || w.wireLen < 6 || !(w.wireLen < 161) || w.packet 0 != 0xfd ||
    w.packet 1 != w.command || w.packet 2 != w.wireLen || w.packet 3 != 0 ||
    checksum w != w.packet 4

/-- The checks `exchange` makes on a response it has read. -/
def checkReply (w : Wire) : Bool × Wire :=
  if headerBad w then wireBad w
  else if w.packet 5 = 0 then replyPayload 6 w
  else if w.packet 5 ≠ 1 then wireBad w
  else if w.packet 6 ≠ 0 then wireBad w
  else replyPayload 7 w

/-- The request as it goes out: length and checksum filled in, `outstanding` set. -/
def sealRequest (w : Wire) : Wire :=
  let w := ((w.setHi 0).poke 2 w.requestLen).setLen w.requestLen
  (w.poke 4 (checksum w)).setOutstanding 1

/-- One wire transaction: W, then P until ready, then R, then the checks. -/
def transact (w : Wire) : Bool × Wire :=
  let (z, w) := sio cmdW (sealRequest w)
  if !z then wireBad w
  else
    let (c, w) := receive w
    if c then wireBad w else checkReply w

/-- `exchange`, with the event of its return. -/
def exchange (w : Wire) : Bool × Wire :=
  let frame := slice (sealRequest w).packet 0 (sealRequest w).len
  let (c, w) := transact w
  (c, w.record (.exchange frame (if c then none else some (slice w.packet 0 w.wireLen.toNat))))

/-- `@clear` of `begin_packet`: an empty request with the command in place. -/
def clearPacket (w : Wire) : Wire :=
  w.setPacket fun i =>
    if i = 0 then 0xfd else if i = 1 then w.command else if i = 6 then 1
    else if i < packetMax then 0 else w.packet i

/-- Drain what is outstanding with P/R, never W, then start a request. -/
def beginPacket (a : Byte) (w : Wire) : Bool × Wire :=
  let w := w.setCommand a
  if w.outstanding = 0 then (false, clearPacket w)
  else
    let (c, w) := receive w
    if !c then (false, clearPacket w)
    else if w.outstanding ≠ 0 then (true, w)
    else (false, clearPacket w)

end NioApps.Resident
