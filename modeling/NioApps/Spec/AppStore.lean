import NioApps.Lib.Upload
import NioApps.Spec.Commands

/-! FAPP: `do_get` and `do_put` of `fapp.c`, over the app-store calls of the NIO library,
which is not part of the repository. The library is a parameter, with the state `σ` of the
service behind it; `Stores` says what the two calls that are used do.

Strings are the bytes before their NUL. -/

namespace NioApps.AppStore

open Commands

def chunkSize : Word := 256

/-- `fn_appstore_read_t`, its two flags, and the buffer that the call filled. -/
structure ReadReply where
  found : Bool
  eof : Bool
  bytesRead : Word
  data : ℕ → Byte

/-- The calls return the error code, or `FN_OK` and what they store. -/
structure Library (σ : Type) where
  /-- `fn_appstore_write` at an offset; the result is `bytes_written`. -/
  write : List Byte → List Byte → BitVec 32 → List Byte → σ → Except Byte Word × σ
  /-- `fn_appstore_read` at an offset, into a buffer of that many bytes. -/
  read : List Byte → List Byte → BitVec 32 → Word → σ → Except Byte ReadReply × σ
  errorString : Byte → List Byte

/-- A write that the service took a part of. -/
structure Write where
  offset : BitVec 32
  data : List Byte
  taken : Word
deriving DecidableEq, Repr

/-- The program: the service, what it printed, and the writes so far. -/
structure Fapp (σ : Type) where
  service : σ
  out : List Byte
  writes : List Write

section Program

variable {σ : Type} (t : Target) (lib : Library σ) (ns key : List Byte)

/-- `'\n'` -/
def newline : Byte := if t = .atari then 0x9b else 0x0a

def ascii (s : String) : List Byte := s.toList.map fun c => BitVec.ofNat 8 c.toNat

def decimal (n : ℕ) : List Byte := (Nat.toDigits 10 n).map fun c => BitVec.ofNat 8 c.toNat

def Fapp.print (bs : List Byte) (w : Fapp σ) : Fapp σ := { w with out := w.out ++ bs }

def Fapp.wrote (x : Write) (w : Fapp σ) : Fapp σ := { w with writes := w.writes ++ [x] }

/-- `fail`; the results of all these functions are exit codes. -/
def fail (what : String) (result : Byte) (w : Fapp σ) : ℕ × Fapp σ :=
  (2, w.print (ascii what ++ ascii " failed: " ++ decimal result.toNat ++ ascii " (" ++ lib.errorString result ++
    ascii ")" ++ [newline t]))

/-- The loop of `do_get`, for at most that many rounds; `none` when these were not enough. -/
def getLoop : ℕ → BitVec 32 → Fapp σ → Option (ℕ × Fapp σ)
  | 0, _, _ => none
  | n + 1, offset, w =>
    let (result, service) := lib.read ns key offset chunkSize w.service
    let w := { w with service }
    match result with
    | .error result => some (fail t lib "GET" result w)
    | .ok rr =>
      if rr.found = false then some (1, w.print (ascii "Key not found" ++ [newline t]))
      else
        let w := w.print (slice rr.data 0 rr.bytesRead.toNat)
        if rr.eof = true ∨ rr.bytesRead = 0 then some (0, w.print [newline t])
        else getLoop n (offset + rr.bytesRead.setWidth 32) w

def doGet (n : ℕ) (w : Fapp σ) : Option (ℕ × Fapp σ) := getLoop t lib ns key n 0 w

/-- The loop of `do_put`; `p` is the string from the pointer on. -/
def putLoop : ℕ → List Byte → Word → BitVec 32 → Fapp σ → Option (ℕ × Fapp σ)
  | 0, _, _, _, _ => none
  | n + 1, p, left, offset, w =>
    if left = 0 then some (0, w.print (ascii "Wrote " ++ decimal offset.toNat ++ ascii " bytes" ++ [newline t]))
    else
      let chunk := if left > chunkSize then chunkSize else left
      let (result, service) := lib.write ns key offset (p.take chunk.toNat) w.service
      let w := { w with service }
      match result with
      | .error result => some (fail t lib "PUT" result w)
      | .ok bytesWritten =>
        let w := w.wrote ⟨offset, p.take chunk.toNat, bytesWritten⟩
        if bytesWritten = 0 then some (2, w.print (ascii "Write stalled" ++ [newline t]))
        else putLoop n (p.drop bytesWritten.toNat) (left - bytesWritten) (offset + bytesWritten.setWidth 32) w

def doPut (n : ℕ) (value : List Byte) (w : Fapp σ) : Option (ℕ × Fapp σ) :=
  let left := BitVec.ofNat 16 value.length
  if left = 0 then
    let (result, service) := lib.write ns key 0 [] w.service
    let w := { w with service }
    match result with
    | .error result => some (fail t lib "PUT" result w)
    | .ok bytesWritten =>
      let w := w.wrote ⟨0, [], bytesWritten⟩
      some (0, w.print (ascii "Wrote 0 bytes" ++ [newline t]))
  else putLoop t lib ns key n value left 0 w

end Program

/-! ### The service -/

/-- The service keeps a byte string for each key: a write at offset 0 starts it afresh and
one at its end appends, each taking any part of the bytes offered but none; a read returns
any part of the bytes from its offset on but none, and tells when it got to the end. -/
structure Stores {σ : Type} (lib : Library σ) (content : σ → List Byte → List Byte → Option (List Byte)) : Prop where
  start : ∀ s ns key data, data ≠ [] → data.length ≤ chunkSize.toNat →
    ∃ (k : Word) (s' : σ), lib.write ns key 0 data s = (.ok k, s') ∧ 0 < k.toNat ∧ k.toNat ≤ data.length ∧
      content s' ns key = some (data.take k.toNat)
  append : ∀ s ns key v data, content s ns key = some v → v.length < 2 ^ 32 → data ≠ [] → data.length ≤ chunkSize.toNat →
    ∃ (k : Word) (s' : σ), lib.write ns key (BitVec.ofNat 32 v.length) data s = (.ok k, s') ∧ 0 < k.toNat ∧
      k.toNat ≤ data.length ∧ content s' ns key = some (v ++ data.take k.toNat)
  read : ∀ s ns key v (offset : BitVec 32), content s ns key = some v → offset.toNat < v.length →
    ∃ (rr : ReadReply) (s' : σ), lib.read ns key offset chunkSize s = (.ok rr, s') ∧ rr.found = true ∧
      0 < rr.bytesRead.toNat ∧ rr.bytesRead.toNat ≤ chunkSize.toNat ∧ offset.toNat + rr.bytesRead.toNat ≤ v.length ∧
      slice rr.data 0 rr.bytesRead.toNat = (v.drop offset.toNat).take rr.bytesRead.toNat ∧
      (rr.eof = true ↔ offset.toNat + rr.bytesRead.toNat = v.length) ∧ content s' ns key = some v

/-- A write as a packet that was acknowledged in part. -/
def Write.packet (x : Write) : Upload.Packet Byte := ⟨x.offset.toNat, x.data, some x.taken.toNat⟩

/-- The bytes that the service took. -/
def Write.stored (x : Write) : List Byte := x.data.take x.taken.toNat

end NioApps.AppStore
