import NioApps.Spec.Directory
import NioApps.Spec.Shell

/-! `main` of `fls.c` and of `fhost.c`, with the functions behind the calls of the host
device. The diagnostics that MS-DOS and the Amiga add to a failure come from their
libraries and are parameters. -/

namespace NioApps.Shell

open Abort Commands Service
open AppStore (ascii decimal newline)

def bytesOf (cs : List Char) : List Byte := cs.map fun c => BitVec.ofNat 8 c.toNat

/-! ### FLS -/

/-- `struct tm`; `tm_year` counts from 1900. -/
structure Tm where
  mday : ℕ
  mon : ℤ
  year : ℤ
  hour : ℕ
  min : ℕ
deriving DecidableEq, Repr

/-- The C library's clock, and what the two functions print that report on the transport.
`now` is the result of the second call of `localtime`, for the current time; the Amiga version
does not make this call. -/
structure Locale where
  localtime : BitVec 32 → Option Tm
  now : Option Tm
  ioctlDiag : List Byte
  transportDiag : List Byte

def months : List String := ["Jan", "Feb", "Mar", "Apr", "May", "Jun", "Jul", "Aug", "Sep", "Oct", "Nov", "Dec"]

/-- A number with leading characters up to a width. -/
def padTo (width : ℕ) (c : Char) (n : ℕ) : List Char :=
  List.replicate (width - (Nat.toDigits 10 n).length) c ++ Nat.toDigits 10 n

section Programs

variable {σ τ : Type} (e : Setup σ τ) (l : Locale)

/-- The Amiga version has no current year. -/
def currentYear : ℤ := if e.target = .amiga then 0 else (l.now.map fun tm => tm.year + 1900).getD 0

def unknownDate : List Char := "?? ??? ??:??".toList

/-- The `struct tm` that is printed. `localtime` has one, to which both its results point:
after the second call the first result has the current time. -/
def shownTime (tm : Tm) : Tm := if e.target = .amiga then tm else l.now.getD tm

def formatDate (mtime : BitVec 32) : List Char :=
  if mtime = 0 then unknownDate
  else
    match l.localtime mtime with
    | none => unknownDate
    | some tm =>
      if tm.mon < 0 ∨ tm.mon > 11 then unknownDate
      else
        let year := tm.year + 1900
        let tm := shownTime e l tm
        let day := padTo 2 ' ' tm.mday ++ ' ' :: (months.getD tm.mon.toNat "").toList ++ [' ']
        if currentYear e l ≠ 0 ∧ currentYear e l = year then day ++ padTo 2 '0' tm.hour ++ ':' :: padTo 2 '0' tm.min
        else day ++ padTo 4 '0' ((year % 2 ^ e.target.int).toNat % 10000)

/-- What `print_entry` prints. -/
def entryRow (x : Listed) : List Byte :=
  if x.isDir ≠ 0 then
    bytesOf ("d ".toList ++ padLeft 6 ['-'] ++ ' ' :: formatDate e l x.mtime ++ [' ']) ++ x.name ++ ascii "/" ++ [newline e.target]
  else
    bytesOf ("- ".toList ++ formatSize e.target.arith x.size ++ ' ' :: formatDate e l x.mtime ++ [' ']) ++ x.name ++
      [newline e.target]

/-- `target_spec` for the buffer of FLS; `none` is `return 0`. -/
def targetSpec (arg : List Byte) : Option (List Byte) :=
  let len := BitVec.ofNat 16 arg.length
  if len ≥ 256 then none else some (arg.take len.toNat)

/-- The line with the number of entries, an `unsigned`. -/
def countLine (n : ℕ) : List Byte :=
  decimal (n % 2 ^ e.target.int) ++ ascii " entr" ++ ascii (if n % 2 ^ e.target.int = 1 then "y" else "ies") ++ [newline e.target]

/-- `FNSVC_MAX_PATH` -/
def maxPath : ℕ := 127

/-- The path of FLS, `none` for the usage; first what it has printed to ask for it. -/
def flsPath (args : List (List Byte)) (typed : List Byte) : List Byte × Option (List Byte) :=
  match args with
  | [] =>
    if e.target = .atari then Console.asked (Console.ask e.target "Path (blank=current): " (maxPath + 1)) typed else ([], some [])
  | [arg] => ([], if arg.head? = some 0x3f then none else some arg)
  | _ => ([], none)

/-- For at most `n` pages; `none` when these were not enough. The rows are printed while the
directory is read, before anything else. -/
def fls (n : ℕ) (args : List (List Byte)) (typed : List Byte) : Program σ τ (Option ℕ) := do
  let (printed, path) := flsPath e args typed
  print printed
  match path with
  | none =>
    puts e "Usage: FLS [path]"
    return some 1
  | some path =>
    match targetSpec path with
    | none =>
      puts e "Bad path"
      print l.ioctlDiag
      return some 2
    | some uri =>
      let before := (← get).client.listed.length
      let result ← service (listDirectory n uri true)
      let c := (← get).client
      let entries := c.listed.drop before
      print (entries.flatMap (entryRow e l))
      match result with
      | none => return none
      | some false =>
        print (ascii "Unable to list directory (err " ++ decimal c.lastError.toNat ++ ascii " raw " ++ decimal c.lastRawError.toNat ++
          ascii " status " ++ decimal c.lastStatus.toNat ++ ascii " len " ++ decimal c.lastResponseLen.toNat ++ ascii ")" ++
          [newline e.target])
        print l.transportDiag
        return some 2
      | some true =>
        print (countLine e entries.length)
        return some 0

/-! ### FHOST -/

def hostListHistoryCommand : Byte := 0x03
def hostSelectHistoryCommand : Byte := 0x04
def hostDeleteHistoryCommand : Byte := 0x05

/-- The response of `respLen` bytes. -/
def historyResponse (respLen cap : Word) : Svc (Option (List Byte)) := do
  if respLen < 6 then return none
  else if (← getByte 0) ≠ hostVersion then return none
  else
    let bytes ← getU16 4
    let bytes := if bytes ≥ cap then cap - 1 else bytes
    if 6 + bytes > respLen then return none else return some (← Service.get 6 bytes.toNat)

/-- `host_list_history`, with the text that it stores. -/
def hostListHistory (cap : Word) : Svc (Option (List Byte)) := do
  if cap = 0 then return none
  let off ← put 0 [hostVersion]
  let off ← put off (u16le 0)
  let off ← put off (u16le (cap - 1))
  match ← nioCall deviceHost hostListHistoryCommand off 512 with
  | none => return none
  | some (status, respLen) => if status ≠ 0 then return none else historyResponse respLen cap

/-- `host_index_command` -/
def hostIndexCommand (command index : Byte) : Svc Bool := do
  let off ← put 0 [hostVersion]
  let off ← put off [index]
  match ← nioCall deviceHost command off 512 with
  | none => return false
  | some (status, respLen) =>
    if status = 0 ∧ respLen ≥ 1 then return (← getByte 0) = hostVersion else return false

def buildId : String := "host-device-v1"

/-- "Unable to ... (error ..., ...)", and what the Amiga version adds. -/
def unable (what : String) : Program σ τ PUnit := do
  print (ascii "Unable to " ++ ascii what ++ ascii " (error " ++ decimal (← get).client.lastDosError.toNat ++ ascii ", " ++
    ascii buildId ++ ascii ")" ++ [newline e.target])
  print l.transportDiag

def noHost : Program σ τ PUnit := do
  puts e "HOST: (none)"
  puts e "PATH: (none)"

def showCurrent : Program σ τ Bool := do
  let ok ← service (hostGetCurrent e.target 512 512)
  let c := (← get).client
  if !ok then
    if c.lastDosError ≠ 0 then
      unable e l "read current host"
      return false
    else
      noHost e
      return true
  else if cstr c.currentHost = [] then
    noHost e
    return true
  else
    print (ascii "HOST: " ++ cstr c.currentHost ++ [newline e.target])
    if cstr c.currentPath ≠ [] then print (ascii "PATH: " ++ cstr c.currentPath ++ [newline e.target]) else puts e "PATH: /"
    return true

/-- The line of `prompt_uri`, from what is typed. -/
def promptUri (input : List Byte) : List Byte := Console.trimLine e.target (Console.fgets e.target mountUriMax input).1

/-- The end of `main`, from `host_set_current` on. -/
def storeHost (uri : List Byte) : Program σ τ ℕ := do
  if !(← service (hostSetCurrent uri)) then
    unable e l "store current host"
    return 2
  else if !(← showCurrent e l) then
    print (ascii "Stored host could not be verified (" ++ ascii buildId ++ ascii ")" ++ [newline e.target])
    return 2
  else return 0

/-- The Atari version asks for a URI, for which `input` is typed. -/
def fhost (args : List (List Byte)) (input : List Byte) : Program σ τ ℕ := do
  match hostMain e.target args with
  | .usage =>
    puts e ("FHOST " ++ buildId)
    puts e "Usage: FHOST [uri|list|index [D]]"
    return 1
  | .listHistory =>
    match ← service (hostListHistory 512) with
    | none => puts e "No host history"
    | some text => if cstr text = [] then puts e "No host history" else print (cstr text)
    return 0
  | .deleteHistory index =>
    if !(← service (hostIndexCommand hostDeleteHistoryCommand index)) then
      unable e l "delete host history entry"
      return 2
    else return 0
  | .selectHistory index =>
    if !(← service (hostIndexCommand hostSelectHistoryCommand index)) then
      unable e l "select host history entry"
      return 2
    else if !(← showCurrent e l) then return 2
    else return 0
  | .showCurrent =>
    if !(← showCurrent e l) then return 2
    else if e.target = .atari then
      print (ascii "URI (blank=keep): ")
      if promptUri e input = [] then return 0 else storeHost e l (promptUri e input)
    else return 0
  | .setCurrent uri => storeHost e l uri

end Programs

end NioApps.Shell
