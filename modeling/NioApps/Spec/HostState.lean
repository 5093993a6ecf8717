import NioApps.Lib.Bytes
import Mathlib.Logic.Function.Basic

/-! The current host and path of the library: `fnctl_get_state` and `fnctl_set_state` of the
three `fnctl.c` that keep them in the app store.

The app store is a map from namespace and key. A write at offset 0 replaces the value,
unless the write fails; a read returns the first bytes of the value. `char` arrays are
lists of their bytes, and a string argument is the list of the bytes before its NUL, or
`none` for a null pointer. -/

namespace NioApps.HostState

inductive Backend
  | linux
  | atari
  | amiga
deriving DecidableEq, Repr

def maxUri : ℕ := 255
def maxPath : ℕ := 127
def maxUnits : Byte := 8
def version : Byte := 1
def signature : List Byte := [0x46, 0x55, 0x4a, 0x49]
def cmdGetState : Byte := 1

def stateNs : String := "fujinet-nio"
def keyUri : String := "current-host"
def keyPath : String := "current-display-path"

abbrev Store := String × String → Option (List Byte)

/-- `fnctl_state_t` -/
structure State where
  command : Byte
  signature : List Byte
  unit : Byte
  version : Byte
  maxUnits : Byte
  currentUriLen : Word
  displayPathLen : Word
  currentUri : List Byte
  displayPath : List Byte
deriving DecidableEq, Repr

/-- A program: the store, whether its writes succeed, and the static variables of the
Amiga version. -/
structure Program where
  store : Store
  accepts : ℕ → Bool
  state : State
  stateInitialized : Bool

/-- The string in a `char` array. -/
def cstr (a : List Byte) : List Byte := a.takeWhile (· ≠ 0)

/-- Bytes copied to the start of an array. -/
def overwrite (bs a : List Byte) : List Byte := bs ++ a.drop bs.length

/-- After the `memset`. -/
def State.zero : State where
  command := 0
  signature := List.replicate 4 0
  unit := 0
  version := 0
  maxUnits := 0
  currentUriLen := 0
  displayPathLen := 0
  currentUri := List.replicate (maxUri + 1) 0
  displayPath := List.replicate (maxPath + 1) 0

def Program.start (store : Store) (accepts : ℕ → Bool) : Program where
  store
  accepts
  state := .zero
  stateInitialized := false

/-- `fn_appstore_read` at offset 0; `none` without the EXISTS flag. -/
def appstoreRead (store : Store) (key : String) (n : ℕ) : Option (List Byte) := (store (stateNs, key)).map (·.take n)

/-- The array `dst` of `dst.length` bytes after `read_key`. -/
def readKey (store : Store) (key : String) (dst : List Byte) : List Byte :=
  let cap := dst.length
  if cap = 0 then dst
  else
    let dst := overwrite [0] dst
    match appstoreRead store key (cap - 1) with
    | none => dst
    | some bs =>
      let n := if bs.length ≥ cap then cap - 1 else bs.length
      overwrite (bs.take n ++ [0]) dst

def writeKey (key : String) (value : List Byte) (w : Program) : Bool × Program :=
  let w' := { w with accepts := fun n => w.accepts (n + 1) }
  if w.accepts 0 then (true, { w' with store := Function.update w.store (stateNs, key) (some value) })
  else (false, w')

/-- The fields that both keys fill. -/
def loadState (store : Store) (s : State) : State :=
  let uri := readKey store keyUri s.currentUri
  let path := readKey store keyPath s.displayPath
  { s with
    currentUri := uri
    displayPath := path
    currentUriLen := BitVec.ofNat 16 (cstr uri).length
    displayPathLen := BitVec.ofNat 16 (cstr path).length }

/-- `ensure_state` of the Amiga version. -/
def ensureState (w : Program) : Program :=
  if w.stateInitialized then w
  else
    { w with
      state := loadState w.store { State.zero with signature := signature, version := version, maxUnits := maxUnits }
      stateInitialized := true }

/-- `fnctl_get_state` -/
def getState (b : Backend) (w : Program) : State × Program :=
  match b with
  | .linux | .atari =>
    (loadState w.store { State.zero with
      command := cmdGetState, signature := signature, version := version, maxUnits := maxUnits }, w)
  | .amiga => ((ensureState w).state, ensureState w)

/-- The two writes, the second only after the first. -/
def writeBoth (uri path : List Byte) (w : Program) : Bool × Program :=
  match writeKey keyUri uri w with
  | (false, w) => (false, w)
  | (true, w) => writeKey keyPath path w

/-- The static state of the Amiga version holds what was set, whether it is stored or not. -/
def keepState (uri path : List Byte) (w : Program) : Program :=
  { w with state := { w.state with
      currentUri := overwrite (uri ++ [0]) w.state.currentUri
      displayPath := overwrite (path ++ [0]) w.state.displayPath
      currentUriLen := BitVec.ofNat 16 uri.length
      displayPathLen := BitVec.ofNat 16 path.length } }

/-- `fnctl_set_state` -/
def setState (b : Backend) (uri path : Option (List Byte)) (w : Program) : Bool × Program :=
  match uri, path with
  | some uri, some path =>
    if uri.length > maxUri ∨ path.length > maxPath then (false, w)
    else
      match b with
      | .linux => writeBoth uri path w
      | .atari => writeKey keyUri uri w
      | .amiga => writeBoth uri path (keepState uri path (ensureState w))
  | _, _ => (false, w)

end NioApps.HostState
