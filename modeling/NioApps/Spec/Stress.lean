import NioApps.Lib.Bytes
import NioApps.Lib.Pipe

/-! HSIONET: the loop of `run_test` in `hsionet.c`, the server of `server.py` that it talks
to, and the two together over a connection.

The library calls, the PROC interrupt, the clock and the keyboard are not part of the
repository; `step` takes what they answer. The client moves from one such call to the
next. `world` says which answers a connection to the server can give. -/

namespace NioApps.Stress

/-! ### The server -/

/-- `LENGTHS` of `server.py` -/
def serverLengths : List ℕ := [1, 7, 31, 69, 87, 127, 200, 255]

def response (sequence : Byte) : List Byte :=
  (List.range (serverLengths.getD (sequence &&& 7).toNat 0)).map fun i => sequence + BitVec.ofNat 8 i

/-- The two writes of `handle` for one request; an even request has one. -/
def chunks (seq : Byte) : List (List Byte) :=
  let data := response seq
  let split := if seq &&& 1 ≠ 0 then data.length / 2 else data.length
  data.take split :: if split < data.length then [data.drop split] else []

/-! ### The client -/

/-- `lengths` of `hsionet.c` -/
def lengths : List ℕ := [1, 7, 31, 69, 87, 127, 200, 255]

/-- The result of a library call; `error` is any other than `FN_OK` and the two. -/
inductive Status
  | ok
  | notReady
  | busy
  | error (code : Byte)
deriving DecidableEq, Repr

/-- `FN_READ_EOF` and `FN_READ_AVAILABLE` -/
structure ReadFlags where
  eof : Bool
  available : Bool
deriving DecidableEq, Repr

/-- The message with which the loop ends; a key ends it without one. -/
inductive Report
  | write (status : Status) (written : Word)
  | read (status : Status) (flags : ReadFlags)
  | badData (i : ℕ)
  | quit
deriving DecidableEq, Repr

/-- The call that comes next. -/
inductive Stage
  | write
  | poll
  | read
  | key
  | stopped (report : Report)
deriving DecidableEq, Repr

structure Client where
  roff : BitVec 32
  woff : BitVec 32
  rounds : Word
  seq : Byte
  n : ℕ
  total : ℕ
  pending : Bool
  last : Byte
  stage : Stage
deriving DecidableEq, Repr

/-- What the calls answer. `proc` is `fn_atari_proc_pending`, `more` is
`fn_read_available`; `clock` is `OS.rtclok[2]`, read anew each time. -/
inductive Answer
  | wrote (status : Status) (written : Word) (clock : Byte)
  | polled (proc : Bool) (clock clock' : Byte)
  | received (status : Status) (data : List Byte) (flags : ReadFlags) (more : Bool)
  | keyHit (hit : Bool)
deriving DecidableEq, Repr

namespace Client

/-- The head of the loop. -/
def nextRound (c : Client) : Client :=
  let seq := c.rounds.setWidth 8
  { c with seq, n := lengths.getD (seq &&& 7).toNat 0, stage := .write }

def start : Client :=
  nextRound
    { roff := 0, woff := 0, rounds := 0, seq := 0, n := 0, total := 0, pending := false, last := 0, stage := .write }

/-- `while (total < n)`, and `++rounds` after it. -/
def test (c : Client) : Client :=
  if c.total < c.n then { c with stage := .poll } else { c with rounds := c.rounds + 1, stage := .key }

def afterWrite (status : Status) (written : Word) (clock : Byte) (c : Client) : Client :=
  if status = .notReady ∨ status = .busy then c
  else if status ≠ .ok ∨ written ≠ 1 then { c with stage := .stopped (.write status written) }
  else test { c with woff := c.woff + 1, total := 0, pending := true, last := clock }

def afterPoll (proc : Bool) (clock clock' : Byte) (c : Client) : Client :=
  let c := if proc then { c with pending := true } else c
  if c.pending = false ∧ clock - c.last < 60 then c else { c with pending := false, last := clock', stage := .read }

/-- The index of the first byte that is not the expected one. -/
def firstBad (c : Client) (data : List Byte) : Option ℕ :=
  (List.range data.length).find? fun i =>
    data[i]? ≠ some (c.seq + BitVec.ofNat 8 c.total + BitVec.ofNat 8 i)

def afterRead (status : Status) (data : List Byte) (flags : ReadFlags) (more : Bool) (c : Client) : Client :=
  if status = .notReady ∨ status = .busy then test c
  else if status ≠ .ok ∨ data = [] ∧ flags.eof then { c with stage := .stopped (.read status flags) }
  else
    match firstBad c data with
    | some i => { c with stage := .stopped (.badData (c.total + i)) }
    | none =>
      let c := { c with total := c.total + data.length, roff := c.roff + BitVec.ofNat 32 data.length }
      let c := if flags.available ∧ more then { c with pending := true } else c
      let c := if data ≠ [] ∧ c.total < c.n then { c with pending := true } else c
      test c

def afterKey (hit : Bool) (c : Client) : Client :=
  if hit then { c with stage := .stopped .quit } else nextRound c

/-- The client from one call to the next; `none` when the answer is not to the call it made. -/
def step (c : Client) (a : Answer) : Option Client :=
  match c.stage, a with
  | .write, .wrote status written clock => some (c.afterWrite status written clock)
  | .poll, .polled proc clock clock' => some (c.afterPoll proc clock clock')
  | .read, .received status data flags more => some (c.afterRead status data flags more)
  | .key, .keyHit hit => some (c.afterKey hit)
  | _, _ => none

end Client

/-- The bytes that `fn_read` put into `buf`: none unless it succeeded. -/
def Answer.delivered : Answer → List Byte
  | .received .ok data _ _ => data
  | _ => []

/-- The request that `fn_write` took. -/
def Answer.taken (seq : Byte) : Answer → List Byte
  | .wrote .ok written _ => if written = 1 then [seq] else []
  | _ => []

/-- The client with what it sent and got so far. -/
structure Session where
  client : Client
  sent : List Byte
  got : List Byte
deriving DecidableEq, Repr

def Session.start : Session := ⟨Client.start, [], []⟩

/-- One call, answered by any peer. `fn_read` is asked for `n - total` bytes and never
gives more. -/
inductive Session.Step : Session → Answer → Session → Prop
  | step {w : Session} {a : Answer} {c : Client} (h : w.client.step a = some c)
      (hfit : a.delivered.length ≤ w.client.n - w.client.total) :
      Step w a ⟨c, w.sent ++ a.taken w.client.seq, w.got ++ a.delivered⟩

/-- A session with any peer. -/
def Session.Reachable (w : Session) : Prop :=
  Relation.ReflTransGen (fun v v' => ∃ a, Session.Step v a v') .start w

/-! ### Client and server -/

structure World where
  session : Session
  conn : Pipe.Conn Byte Byte

def World.start : World := ⟨.start, .start⟩

/-- What a connection to the server can answer to the next call, and the connection after
it. `fn_write` and `fn_read` give the offset of the byte that they move, and the service
accepts only the next one. A call that fails may have sent its byte. -/
inductive Answers (w : Session) (conn : Pipe.Conn Byte Byte) : Answer → Pipe.Conn Byte Byte → Prop
  | taken (clock : Byte) (hoffset : w.client.woff = BitVec.ofNat 32 w.sent.length) :
      Answers w conn (.wrote .ok 1 clock) (conn.send w.client.seq)
  | refused (status : Status) (written : Word) (clock : Byte) (h : status = .ok → written = 0) :
      Answers w conn (.wrote status written clock) conn
  | unknown (code : Byte) (written : Word) (clock : Byte) :
      Answers w conn (.wrote (.error code) written clock) (conn.send w.client.seq)
  | polled (proc : Bool) (clock clock' : Byte) : Answers w conn (.polled proc clock clock') conn
  | read (k : ℕ) (flags : ReadFlags) (more : Bool) (hfit : k ≤ w.client.n - w.client.total)
      (hoffset : w.client.roff = BitVec.ofNat 32 w.got.length)
      (heof : flags.eof → conn.closed ∧ conn.down.length ≤ k) :
      Answers w conn (.received .ok (conn.down.take k) flags more) (conn.receive k)
  | unread (status : Status) (data : List Byte) (flags : ReadFlags) (more : Bool) (h : status ≠ .ok) :
      Answers w conn (.received status data flags more) conn
  | keyHit (hit : Bool) : Answers w conn (.keyHit hit) conn

inductive Event
  | serve
  | call (a : Answer)
deriving DecidableEq, Repr

/-- One step of the server, or one call of the client, in any order. -/
inductive World.Step : World → Event → World → Prop
  | serve {w : World} {conn : Pipe.Conn Byte Byte} (h : Pipe.Conn.Serve chunks w.conn conn) :
      Step w .serve { w with conn }
  | call {w : World} {a : Answer} {session : Session} {conn : Pipe.Conn Byte Byte} (h : w.session.Step a session)
      (hanswer : Answers w.session w.conn a conn) : Step w (.call a) ⟨session, conn⟩

/-- A run and its events. -/
inductive World.Run : World → List Event → World → Prop
  | nil (w : World) : Run w [] w
  | step {w w' w'' : World} {es : List Event} {e : Event} (h : Run w es w') (hs : w'.Step e w'') :
      Run w (es ++ [e]) w''

end NioApps.Stress
