import NioApps.Lib.Link
import NioApps.Proofs.OpenName

/-! What stands behind the `$7f` transport, and what a program sees in front of the N:
handler. The NetworkDevice keeps a session for each handle it grants, takes a request body
in order, and passes it on to a server when a zero-length WRITE commits it. A program has one
stream for each IOCB it opened, and the same server behind them. -/

namespace NioApps.Resident

open Transaction

variable {τ : Type*}

/-! ### The server -/

/-- A request with a body. -/
structure Submission where
  method : Byte
  uri : List Byte
  body : List Byte
deriving DecidableEq, Repr

/-- A server with the states `τ`: what can be read from it, and what a submission does to it
and is answered with. Stream offsets have 32 bits. -/
structure Server (τ : Type*) where
  get : τ → List Byte → List Byte
  submit : τ → Submission → τ × List Byte
  get_lt : ∀ t uri, (get t uri).length < 2 ^ 32
  submit_lt : ∀ t s, (submit t s).2.length < 2 ^ 32

/-- The server after the submissions `subs`, in order. -/
def Server.run (srv : Server τ) (t : τ) (subs : List Submission) : τ := subs.foldl (fun t s => (srv.submit t s).1) t

/-! ### The NetworkDevice -/

/-- The URI of an OPEN. -/
def frameUri (f : List Byte) : List Byte := (f.drop 11).take (f.getD 9 0).toNat

/-- The method of an OPEN. -/
def frameMethod (f : List Byte) : Byte := f.getD 7 0

/-- A session: its request, the part of the body that came, and the content to read. -/
structure Session where
  method : Byte
  uri : List Byte
  received : List Byte
  committed : Bool
  content : List Byte

def Session.submission (s : Session) : Submission := ⟨s.method, s.uri, s.received⟩

@[simps] def Session.write (bs : List Byte) (s : Session) : Session := { s with received := s.received ++ bs }
@[simps] def Session.answer (content : List Byte) (s : Session) : Session := { s with committed := true, content := content }

/-- The session an OPEN starts. A GET can be read at once. -/
def Server.session (srv : Server τ) (t : τ) (q : List Byte) : Session where
  method := frameMethod q
  uri := frameUri q
  received := []
  committed := false
  content := if frameMethod q = 1 then srv.get t (frameUri q) else []

structure Network (τ : Type*) where
  server : τ
  sessions : Byte × Byte → Option Session

def Network.start (t : τ) : Network τ := ⟨t, fun _ => none⟩

/-- The submissions `subs` have reached the server, and handle `h` stands for `r`. -/
@[simps] def Network.served (srv : Server τ) (subs : List Submission) (h : Byte × Byte) (r : Option Session)
    (n : Network τ) : Network τ :=
  ⟨srv.run n.server subs, Function.update n.sessions h r⟩

/-- The device takes the request `q` and has the answer `a` for it. A READ is answered with
bytes from its offset on, none only at the end, and flagged exactly when they are the last.
`kept`: the handler finds nothing it may use in the answer, or asked for nothing. -/
inductive Serves (srv : Server τ) (n : Network τ) (q a : List Byte) : Network τ → Prop
  | opened (h : Byte × Byte) (hq : frameCommand q = 1) (hgrant : granted a = some h) (hfree : n.sessions h = none) :
      Serves srv n q a (n.served srv [] h (some (srv.session n.server q)))
  | wrote {s : Session} {k : ℕ} (hq : frameCommand q = 3) (hs : n.sessions (frameHandle q) = some s)
      (hopen : s.committed = false) (hoffset : frameOffset q = s.received.length) (hdata : frameData q ≠ [])
      (hack : writeAck (q, some a) = some k) :
      Serves srv n q a (n.served srv [] (frameHandle q) (some (s.write ((frameData q).take k))))
  | committed {s : Session} (hq : frameCommand q = 3) (hs : n.sessions (frameHandle q) = some s)
      (hopen : s.committed = false) (hoffset : frameOffset q = s.received.length) (hdata : frameData q = [])
      (hack : writeAck (q, some a) = some 0) :
      Serves srv n q a (n.served srv [s.submission] (frameHandle q) (some (s.answer (srv.submit n.server s.submission).2)))
  | read {s : Session} {last : Bool} {bs rest : List Byte} (hq : frameCommand q = 2)
      (hs : n.sessions (frameHandle q) = some s) (hdata : readData (q, some a) = some (last, bs))
      (hcontent : s.content.drop (frameOffset q) = bs ++ rest) (hlast : last = true ↔ rest = [])
      (hempty : bs = [] → rest = []) : Serves srv n q a n
  | closed (hq : frameCommand q = 4) : Serves srv n q a (n.served srv [] (frameHandle q) none)
  | kept (hopen : frameCommand q = 1 → granted a = none) (hwrite : frameCommand q = 3 → writeAck (q, some a) = none)
      (hread : frameCommand q = 2 → readData (q, some a) = none) : Serves srv n q a n

/-! ### The streams -/

/-- A stream: its body so far, the bytes still to be read, or nothing more after a failure. -/
inductive Stage
  | writing (body : List Byte)
  | reading (rest : List Byte)
  | broken
deriving DecidableEq, Repr

structure Stream where
  mode : Byte
  uri : List Byte
  stage : Stage
deriving DecidableEq, Repr

@[simps] def Stream.to (stage : Stage) (s : Stream) : Stream := { s with stage := stage }

def Stream.submission (s : Stream) (body : List Byte) : Submission := ⟨openMethod s.mode, s.uri, body⟩

/-- The stream that OPEN leaves. -/
def Server.stream (srv : Server τ) (t : τ) (mode : Byte) (uri : List Byte) : Stream :=
  ⟨mode, uri, if mode = 4 then .reading (srv.get t uri) else .writing []⟩

/-- How the body of a stream ends, if it has one, with what is submitted: `unsure` when the
program is told of a failure although the whole body was submitted. -/
inductive Settles (srv : Server τ) (t : τ) (s : Stream) : List Submission → Stage → Prop
  | read {rest : List Byte} (h : s.stage = .reading rest) : Settles srv t s [] (.reading rest)
  | broken (h : s.stage = .broken) : Settles srv t s [] .broken
  | sent {body : List Byte} (h : s.stage = .writing body) :
      Settles srv t s [s.submission body] (.reading (srv.submit t (s.submission body)).2)
  | lost {body : List Byte} (h : s.stage = .writing body) : Settles srv t s [] .broken
  | unsure {body : List Byte} (h : s.stage = .writing body) : Settles srv t s [s.submission body] .broken

/-- The call `d` on the open stream `s`, with what it submits and the stream it leaves. -/
inductive Does (srv : Server τ) (t : τ) (s : Stream) (d : Done) : List Submission → Option Stream → Prop
  | twice (hop : d.call.op = .openIocb) (hy : d.y = 0x81) : Does srv t s d [] (some s)
  | put {body : List Byte} (hop : d.call.op = .put) (hs : s.stage = .writing body) (hy : d.y = 1) :
      Does srv t s d [] (some (s.to (.writing (body ++ [d.call.a]))))
  | putFailed {body : List Byte} (hop : d.call.op = .put) (hs : s.stage = .writing body) (hy : d.y = 0x90) :
      Does srv t s d [] (some (s.to .broken))
  | putRefused (hop : d.call.op = .put) (hs : ∀ body, s.stage ≠ .writing body) (hy : d.y ≠ 1) : Does srv t s d [] (some s)
  | getRefused (hop : d.call.op = .get) (hmode : s.mode = 8) (hy : d.y = 0x92) : Does srv t s d [] (some s)
  | got {subs : List Submission} {rest : List Byte} (hop : d.call.op = .get) (hmode : s.mode ≠ 8)
      (hs : Settles srv t s subs (.reading (d.a :: rest))) (hy : d.y = 1) : Does srv t s d subs (some (s.to (.reading rest)))
  | ended {subs : List Submission} (hop : d.call.op = .get) (hmode : s.mode ≠ 8)
      (hs : Settles srv t s subs (.reading [])) (hy : d.y = 0x88) : Does srv t s d subs (some (s.to (.reading [])))
  | getFailed {subs : List Submission} {stage : Stage} (hop : d.call.op = .get) (hmode : s.mode ≠ 8)
      (hs : Settles srv t s subs stage) (hy : d.y = 0x90) : Does srv t s d subs (some (s.to stage))
  | status {subs : List Submission} {stage : Stage} (hop : d.call.op = .status) (hs : Settles srv t s subs stage)
      (hok : d.y = 1 → ∃ rest, stage = .reading rest) (hend : d.y = 0x88 → stage = .reading []) :
      Does srv t s d subs (some (s.to stage))
  | close {subs : List Submission} {stage : Stage} (hop : d.call.op = .close) (hs : Settles srv t s subs stage)
      (hok : d.y = 1 → ∃ rest, stage = .reading rest) : Does srv t s d subs none

/-- The device as programs see it: the streams of the IOCBs, and the server. -/
structure Channels (τ : Type*) where
  server : τ
  streams : Byte → Option Stream

def Channels.start (t : τ) : Channels τ := ⟨t, fun _ => none⟩

@[simps] def Channels.served (srv : Server τ) (subs : List Submission) (x : Byte) (st : Option Stream) (s : Channels τ) :
    Channels τ :=
  ⟨srv.run s.server subs, Function.update s.streams x st⟩

/-- One call of a program, with what it submits. -/
inductive Channels.Step (srv : Server τ) (s : Channels τ) (d : Done) : List Submission → Channels τ → Prop
  | opened {uri : List Byte} (hop : d.call.op = .openIocb) (hnone : s.streams d.call.x = none) (hname : Names d.call uri)
      (hy : d.y = 1) :
      Step srv s d [] (s.served srv [] d.call.x (some (srv.stream s.server d.call.mode uri)))
  | failed (hnone : s.streams d.call.x = none) (hy : d.y ≠ 1) : Step srv s d [] s
  | did {st : Stream} {st' : Option Stream} {subs : List Submission} (hst : s.streams d.call.x = some st)
      (hdoes : Does srv s.server st d subs st') :
      Step srv s d subs (s.served srv subs d.call.x st')

/-- A run of calls, each with what it submits. -/
inductive Channels.Run (srv : Server τ) (s₀ : Channels τ) : List (Done × List Submission) → Channels τ → Prop
  | nil : Run srv s₀ [] s₀
  | snoc {run : List (Done × List Submission)} {d : Done} {subs : List Submission} {s s' : Channels τ}
      (h : Run srv s₀ run s) (hstep : Channels.Step srv s d subs s') : Run srv s₀ (run ++ [(d, subs)]) s'

end NioApps.Resident
