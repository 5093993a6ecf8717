import Mathlib.Logic.Function.Basic
import NioApps.Spec.Console

/-! FAPP as a whole: `do_stat`, `do_delete`, `do_list`, `run_interactive` and `main` of
`fapp.c`, and what its command lines do to a store that maps namespace and key to a byte
string. -/

namespace NioApps.AppStore

open Commands

def keyDataSize : Word := 420
def keyNameSize : Word := 128

/-- `fn_appstore_stat_t` -/
structure StatReply where
  found : Bool
  sizeBytes : ℕ
  mtimeUnix : ℕ

/-- `fn_appstore_list_t`, and the buffer that the call filled. -/
structure ListReply where
  more : Bool
  keyCount : Word
  keyDataLen : Word
  keyData : ℕ → Byte

/-- The other calls of the library. -/
structure Calls (σ : Type) extends Library σ where
  stat : List Byte → List Byte → σ → Except Byte StatReply × σ
  /-- The result is `deleted`. -/
  delete : List Byte → List Byte → σ → Except Byte Bool × σ
  /-- `fn_appstore_list` from a key number on, into a buffer of that many bytes. -/
  list : List Byte → Word → Word → σ → Except Byte ListReply × σ
  /-- `fn_appstore_list_next_key` at an offset of the data; the result is the key and the
  offset behind it. -/
  nextKey : (ℕ → Byte) → Word → Word → Word → Except Byte (List Byte × Word)

section Program

variable {σ : Type} (t : Target) (lib : Calls σ)

/-- `puts` -/
def Fapp.puts (s : String) (w : Fapp σ) : Fapp σ := w.print (ascii s ++ [newline t])

def usage (w : Fapp σ) : ℕ × Fapp σ :=
  (1, (((((w.puts t "FAPP app-store demo").puts t "Usage:").puts t "  FAPP LIST ns").puts t "  FAPP STAT ns key").puts t
    "  FAPP GET ns key").puts t "  FAPP PUT ns key value" |>.puts t "  FAPP DEL ns key")

def doStat (ns key : List Byte) (w : Fapp σ) : ℕ × Fapp σ :=
  let (result, service) := lib.stat ns key w.service
  let w := { w with service }
  match result with
  | .error result => fail t lib.toLibrary "STAT" result w
  | .ok st =>
    let w := w.print (ns ++ ascii "/" ++ key ++ [newline t])
    let w := w.puts t ("  exists: " ++ if st.found then "yes" else "no")
    let w := w.print (ascii "  size:   " ++ decimal st.sizeBytes ++ [newline t])
    (0, w.print (ascii "  mtime:  " ++ decimal st.mtimeUnix ++ [newline t]))

def doDelete (ns key : List Byte) (w : Fapp σ) : ℕ × Fapp σ :=
  let (result, service) := lib.delete ns key w.service
  let w := { w with service }
  match result with
  | .error result => fail t lib.toLibrary "DEL" result w
  | .ok deleted => (0, w.puts t ("Deleted: " ++ if deleted then "yes" else "no"))

/-- The inner loop of `do_list`, with `n` keys left: the new total, or an exit code. -/
def listKeys (lr : ListReply) : ℕ → Word → ℕ → Fapp σ → Except ℕ ℕ × Fapp σ
  | 0, _, total, w => (.ok total, w)
  | n + 1, off, total, w =>
    match lib.nextKey lr.keyData lr.keyDataLen off keyNameSize with
    | .error result =>
      let (code, w) := fail t lib.toLibrary "LIST decode" result w
      (.error code, w)
    | .ok (key, off) => listKeys lr n off (total + 1) (w.print (key ++ [newline t]))

/-- The loop of `do_list`, for at most that many pages. `total` is printed as an `unsigned`. -/
def listLoop (ns : List Byte) : ℕ → Word → ℕ → Fapp σ → Option (ℕ × Fapp σ)
  | 0, _, _, _ => none
  | n + 1, start, total, w =>
    let (result, service) := lib.list ns start keyDataSize w.service
    let w := { w with service }
    match result with
    | .error result => some (fail t lib.toLibrary "LIST" result w)
    | .ok lr =>
      match listKeys t lib lr lr.keyCount.toNat 0 total w with
      | (.error code, w) => some (code, w)
      | (.ok total, w) =>
        if lr.more = false then
          let total := total % 2 ^ t.int
          some (0, w.print (decimal total ++ ascii " key" ++ ascii (if total = 1 then "" else "s") ++ [newline t]))
        else if lr.keyCount = 0 then some (2, w.puts t "List made no progress")
        else listLoop ns n (start + lr.keyCount) total w

def doList (n : ℕ) (ns : List Byte) (w : Fapp σ) : Option (ℕ × Fapp σ) := listLoop t lib ns n 0 0 w

/-- A letter of `is_cmd`. -/
def upper (c : Byte) : Byte := if 0x61 ≤ c ∧ c ≤ 0x7a then c - 0x61 + 0x41 else c

def isCmd : List Byte → List Byte → Bool
  | [], [] => true
  | a :: as, b :: bs => upper a = upper b && isCmd as bs
  | _, _ => false

/-! ### main -/

inductive Command
  | list (ns : List Byte)
  | stat (ns key : List Byte)
  | get (ns key : List Byte)
  | put (ns key value : List Byte)
  | delete (ns key : List Byte)
  | usage
deriving DecidableEq, Repr

/-- What `run_interactive` asks for; leaving it is the usage. -/
def runInteractive : Console.Dialog Command := do
  let cmd ← Console.ask t "Command LIST/STAT/GET/PUT/DEL: " 8
  if cmd = [] then throw ()
  let ns ← Console.ask t "Namespace: " keyNameSize.toNat
  if ns = [] then throw ()
  if isCmd cmd (ascii "LIST") then return .list ns
  let key ← Console.ask t "Key: " keyNameSize.toNat
  if key = [] then throw ()
  if isCmd cmd (ascii "STAT") then return .stat ns key
  if isCmd cmd (ascii "GET") then return .get ns key
  if isCmd cmd (ascii "DEL") || isCmd cmd (ascii "DELETE") then return .delete ns key
  if isCmd cmd (ascii "PUT") then
    let value ← Console.ask t "Value: " keyDataSize.toNat
    return .put ns key value
  throw ()

/-- The function for a command; the loops run for at most `n` rounds. -/
def doCommand (n : ℕ) (c : Command) (w : Fapp σ) : Option (ℕ × Fapp σ) :=
  match c with
  | .list ns => doList t lib n ns w
  | .stat ns key => some (doStat t lib ns key w)
  | .get ns key => doGet t lib.toLibrary ns key n w
  | .put ns key value => doPut t lib.toLibrary ns key n value w
  | .delete ns key => some (doDelete t lib ns key w)
  | .usage => some (usage t w)

/-- `main`, with `args` after the program's name, and what is typed. -/
def fapp (n : ℕ) (args : List (List Byte)) (typed : List Byte) (w : Fapp σ) : Option (ℕ × Fapp σ) :=
  match args with
  | [] =>
    if t = .atari then
      let (printed, command) := Console.asked (runInteractive t) typed
      doCommand t lib n (command.getD .usage) (w.print printed)
    else some (usage t w)
  | [cmd, ns] =>
    if cmd.head? = some 0x3f then some (usage t w)
    else if isCmd cmd (ascii "LIST") then doList t lib n ns w
    else some (usage t w)
  | [cmd, ns, key] =>
    if cmd.head? = some 0x3f then some (usage t w)
    else if isCmd cmd (ascii "STAT") then some (doStat t lib ns key w)
    else if isCmd cmd (ascii "GET") then doGet t lib.toLibrary ns key n w
    else if isCmd cmd (ascii "DEL") || isCmd cmd (ascii "DELETE") then some (doDelete t lib ns key w)
    else some (usage t w)
  | [cmd, ns, key, value] =>
    if cmd.head? = some 0x3f then some (usage t w)
    else if isCmd cmd (ascii "PUT") then doPut t lib.toLibrary ns key n value w
    else some (usage t w)
  | _ => some (usage t w)

/-- FAPP run with one command line after another, each with what is typed, and the exit codes. -/
def session (n : ℕ) : List (List (List Byte) × List Byte) → Fapp σ → Option (List ℕ × Fapp σ)
  | [], w => some ([], w)
  | (args, typed) :: lines, w => do
    let (code, w) ← fapp t lib n args typed w
    let (codes, w) ← session n lines w
    return (code :: codes, w)

end Program

/-! ### The store -/

abbrev Store := List Byte × List Byte → Option (List Byte)

/-- The command of the arguments. -/
def command : List (List Byte) → Command
  | [cmd, ns] => if isCmd cmd (ascii "LIST") then .list ns else .usage
  | [cmd, ns, key] =>
    if isCmd cmd (ascii "STAT") then .stat ns key
    else if isCmd cmd (ascii "GET") then .get ns key
    else if isCmd cmd (ascii "DEL") || isCmd cmd (ascii "DELETE") then .delete ns key
    else .usage
  | [cmd, ns, key, value] => if isCmd cmd (ascii "PUT") then .put ns key value else .usage
  | _ => .usage

/-- The prompts of a program, and its command. -/
def prompted (t : Target) (args : List (List Byte)) (typed : List Byte) : List Byte × Command :=
  if args = [] ∧ t = .atari then
    ((Console.asked (runInteractive t) typed).1, (Console.asked (runInteractive t) typed).2.getD .usage)
  else ([], command args)

/-- What a command leaves in the store. -/
def Command.next : Command → Store → Store
  | .put ns key value, m => Function.update m (ns, key) (some value)
  | .delete ns key, m => Function.update m (ns, key) none
  | _, m => m

def line (t : Target) (bs : List Byte) : List Byte := bs ++ [newline t]

/-- The exit code and the output of a command on a store. LIST may print the keys in any
order, STAT any time. -/
inductive Command.Prints (t : Target) (m : Store) : Command → ℕ → List Byte → Prop
  | list (ns : List Byte) (keys : List (List Byte)) (hnodup : keys.Nodup) (hmem : ∀ key, key ∈ keys ↔ m (ns, key) ≠ none) :
      Prints t m (.list ns) 0 (keys.flatMap (line t) ++
        line t (decimal keys.length ++ ascii " key" ++ ascii (if keys.length = 1 then "" else "s")))
  | stat (ns key : List Byte) (mtime : ℕ) :
      Prints t m (.stat ns key) 0 (line t (ns ++ ascii "/" ++ key) ++
        line t (ascii "  exists: " ++ ascii (if m (ns, key) = none then "no" else "yes")) ++
        line t (ascii "  size:   " ++ decimal ((m (ns, key)).elim 0 List.length)) ++
        line t (ascii "  mtime:  " ++ decimal mtime))
  | got (ns key value : List Byte) (h : m (ns, key) = some value) : Prints t m (.get ns key) 0 (line t value)
  | missing (ns key : List Byte) (h : m (ns, key) = none) : Prints t m (.get ns key) 1 (line t (ascii "Key not found"))
  | put (ns key value : List Byte) :
      Prints t m (.put ns key value) 0 (line t (ascii "Wrote " ++ decimal value.length ++ ascii " bytes"))
  | delete (ns key : List Byte) :
      Prints t m (.delete ns key) 0 (line t (ascii "Deleted: " ++ ascii (if m (ns, key) = none then "no" else "yes")))
  | usage : Prints t m .usage 1 (line t (ascii "FAPP app-store demo") ++ line t (ascii "Usage:") ++
      line t (ascii "  FAPP LIST ns") ++ line t (ascii "  FAPP STAT ns key") ++ line t (ascii "  FAPP GET ns key") ++
      line t (ascii "  FAPP PUT ns key value") ++ line t (ascii "  FAPP DEL ns key"))

/-- The same for programs one after another, with their prompts, each on the store that the last one left. -/
inductive Prints (t : Target) : Store → List (List Byte × Command) → List ℕ → List Byte → Prop
  | nil (m : Store) : Prints t m [] [] []
  | cons {m : Store} {asked : List Byte} {c : Command} {cs : List (List Byte × Command)} {code : ℕ} {codes : List ℕ}
      {out outs : List Byte} (h : c.Prints t m code out) (hs : Prints t (c.next m) cs codes outs) :
      Prints t m ((asked, c) :: cs) (code :: codes) (asked ++ out ++ outs)

/-- The keys of a page, read one after another from `off` on. -/
def Holds {σ : Type} (lib : Calls σ) (lr : ListReply) : Word → List (List Byte) → Prop
  | _, [] => True
  | off, key :: keys => ∃ off', lib.nextKey lr.keyData lr.keyDataLen off keyNameSize = .ok (key, off') ∧ Holds lib lr off' keys

/-- A service that keeps the store `abs`, whose keys it lists in the order `keys`. A write at
offset 0 starts a value afresh and one at its end appends, each taking any part of the
bytes offered but none; a read returns any part of the bytes from its offset on but none,
and tells when it got to the end; a page has any part of the keys that are left but none. -/
structure Serves {σ : Type} (lib : Calls σ) (abs : σ → Store) (keys : σ → List Byte → List (List Byte)) : Prop where
  nodup : ∀ s ns, (keys s ns).Nodup
  mem : ∀ s ns key, key ∈ keys s ns ↔ abs s (ns, key) ≠ none
  start : ∀ s ns key data, data.length ≤ chunkSize.toNat →
    ∃ (k : Word) (s' : σ), lib.write ns key 0 data s = (.ok k, s') ∧ (data ≠ [] → 0 < k.toNat) ∧ k.toNat ≤ data.length ∧
      abs s' = Function.update (abs s) (ns, key) (some (data.take k.toNat))
  append : ∀ s ns key v data, abs s (ns, key) = some v → v.length < 2 ^ 32 → data ≠ [] → data.length ≤ chunkSize.toNat →
    ∃ (k : Word) (s' : σ), lib.write ns key (BitVec.ofNat 32 v.length) data s = (.ok k, s') ∧ 0 < k.toNat ∧
      k.toNat ≤ data.length ∧ abs s' = Function.update (abs s) (ns, key) (some (v ++ data.take k.toNat))
  missing : ∀ s ns key, abs s (ns, key) = none →
    ∃ (rr : ReadReply) (s' : σ), lib.read ns key 0 chunkSize s = (.ok rr, s') ∧ rr.found = false ∧ abs s' = abs s
  read : ∀ s ns key v (offset : BitVec 32), abs s (ns, key) = some v → offset.toNat ≤ v.length →
    ∃ (rr : ReadReply) (s' : σ), lib.read ns key offset chunkSize s = (.ok rr, s') ∧ rr.found = true ∧
      (offset.toNat < v.length → 0 < rr.bytesRead.toNat) ∧ offset.toNat + rr.bytesRead.toNat ≤ v.length ∧
      slice rr.data 0 rr.bytesRead.toNat = (v.drop offset.toNat).take rr.bytesRead.toNat ∧
      (rr.eof = true ↔ offset.toNat + rr.bytesRead.toNat = v.length) ∧ abs s' = abs s
  stat : ∀ s ns key, ∃ (st : StatReply) (s' : σ), lib.stat ns key s = (.ok st, s') ∧
    (st.found = true ↔ abs s (ns, key) ≠ none) ∧ st.sizeBytes = (abs s (ns, key)).elim 0 List.length ∧ abs s' = abs s
  delete : ∀ s ns key, ∃ (deleted : Bool) (s' : σ), lib.delete ns key s = (.ok deleted, s') ∧
    (deleted = true ↔ abs s (ns, key) ≠ none) ∧ abs s' = Function.update (abs s) (ns, key) none
  list : ∀ s ns (start : Word), (∀ key ∈ keys s ns, key.length < keyNameSize.toNat) → start.toNat ≤ (keys s ns).length →
    ∃ (lr : ListReply) (s' : σ), lib.list ns start keyDataSize s = (.ok lr, s') ∧
      start.toNat + lr.keyCount.toNat ≤ (keys s ns).length ∧
      (lr.more = true ↔ start.toNat + lr.keyCount.toNat < (keys s ns).length) ∧ (lr.more = true → 0 < lr.keyCount.toNat) ∧
      Holds lib lr 0 (((keys s ns).drop start.toNat).take lr.keyCount.toNat) ∧ abs s' = abs s ∧ keys s' = keys s

end NioApps.AppStore
