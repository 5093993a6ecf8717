import NioApps.Spec.Resident

/-! Requests and responses as byte lists: where a frame sent with W carries its
command, handle, stream offset and data, and what a response accepted by
`exchange` says to the routine that reads it. -/

namespace NioApps.Resident

/-! ### Requests -/

def frameCommand (f : List Byte) : Byte := f.getD 1 0

def frameHandle (f : List Byte) : Byte × Byte := (f.getD 7 0, f.getD 8 0)

/-- The 32-bit stream offset of a READ or WRITE. -/
def frameOffset (f : List Byte) : ℕ := le ((f.drop 9).take 4)

/-- The byte count of a READ or WRITE. -/
def frameCount (f : List Byte) : ℕ := le ((f.drop 13).take 2)

/-- The data field of a WRITE. -/
def frameData (f : List Byte) : List Byte := f.drop 15

/-! ### Responses -/

/-- The payload, after a descriptor byte 0, or after a descriptor byte and a status byte. -/
def payloadOf (r : List Byte) : List Byte := r.drop (if r.getD 5 0 = 0 then 6 else 7)

/-- The count of a READ or WRITE response for `handle`, when the response is valid. -/
def rwCount (handle : Byte × Byte) (r : List Byte) : Option Byte :=
  let p := payloadOf r
  if 12 ≤ p.length ∧ (p.getD 4 0, p.getD 5 0) = handle ∧ p.getD 11 0 = 0 ∧ p.getD 10 0 < 129 then
    some (p.getD 10 0)
  else none

/-- An exchange: the request frame, and the response if one was accepted. -/
abbrev Exchange := List Byte × Option (List Byte)

/-- The exchanges among some events, and the bytes PUT stored. -/
def exchanges (es : List Event) : List Exchange :=
  es.filterMap fun
    | .exchange frame reply => some (frame, reply)
    | _ => none

/-- The frames sent with W among some events. -/
def wFrames (es : List Event) : List (List Byte) :=
  es.filterMap fun
    | .sio dcb _ bytes => if dcb.command = cmdW then some bytes else none
    | _ => none

def stores (es : List Event) : List Byte :=
  es.filterMap fun
    | .store b => some b
    | _ => none

/-- The validated acknowledgement count of a WRITE: its response is a valid one,
and does not acknowledge more than was sent or nothing of something. -/
def writeAck (x : Exchange) : Option ℕ :=
  match x.2.bind (rwCount (frameHandle x.1)) with
  | none => none
  | some n =>
    if n.toNat ≤ frameCount x.1 ∧ (n ≠ 0 ∨ frameCount x.1 = 0) then some n.toNat else none

/-- The EOF flag and data field of an accepted READ response: a valid one whose
payload is long enough for its count. -/
def readData (x : Exchange) : Option (Bool × List Byte) :=
  match x.2 with
  | none => none
  | some r =>
    match rwCount (frameHandle x.1) r with
    | none => none
    | some n =>
      if n.toNat ≤ (payloadOf r).length - 12 then
        some ((payloadOf r).getD 1 0 &&& 1 ≠ 0, ((payloadOf r).drop 12).take n.toNat)
      else none

end NioApps.Resident
