import NioApps.Spec.Directory

/-! Calls of four functions of `fnsvc.c` in any order, and what `fnsvc_last_error`,
`fnsvc_last_status` and `fnsvc_last_response_len` are to say after each of them. -/

namespace NioApps.Service

inductive ServiceCall
  | listDirectory (rounds : ℕ) (uri : List Byte) (cb : Bool)
  | resolvePath (baseUri arg : Option (List Byte)) (resolved : Bool) (resolvedCap : Word) (display : Bool)
      (displayCap : Word) (flagsOut : Bool)
  | listMounts (start : Word) (pointers : Bool) (textCap : Word)
  | restoreBoot (slot : Byte)
deriving DecidableEq, Repr

/-- `none`: a listing that takes more rounds. -/
def ServiceCall.exec (d : DiskErr) : ServiceCall → Svc (Option Bool)
  | .listDirectory rounds uri cb => Service.listDirectory rounds uri cb
  | .resolvePath baseUri arg resolved resolvedCap display displayCap flagsOut => do
    return some (← Service.resolvePath baseUri arg resolved resolvedCap display displayCap flagsOut)
  | .listMounts start pointers textCap => do return some (← diskListMounts d start pointers textCap)
  | .restoreBoot slot => do return some (← diskRestoreBoot d slot)

/-- A call that came back. -/
structure Answered where
  call : ServiceCall
  before : Client
  ok : Bool
  after : Client

/-- The calls of a program that came back. -/
def answers (d : DiskErr) : List ServiceCall → Client → List Answered
  | [], _ => []
  | call :: calls, c =>
    match (call.exec d).run c with
    | .ok (some ok) c' => ⟨call, c, ok, c'⟩ :: answers d calls c'
    | .ok none _ => []
    | .error _ _ => []

/-! ### Reasons -/

namespace Reply

variable (r : Reply)

/-- Why a reply makes a call fail before its bytes are looked at. -/
def callError (rest : Byte) : Byte :=
  if r.result ≠ 0 then errTransport else if r.status ≠ statusOk then errStatus else rest

/-- Why a page makes a listing fail. The last line: it says that there is more, and has no entry. -/
def pageError : Byte := r.callError <|
  if r.length < 10 then errShortResponse
  else if r.data 0 ≠ fileVersion then errBadVersion
  else if 10 + BitVec.ofNat 16 (le (slice r.data 8 2)) > r.length then errEntriesBounds
  else if le (slice r.data 6 2) ≠ 0 then errEntryBounds
  else errShortResponse

def resolveError : Byte := r.callError <|
  if r.length < 8 ∨ r.data 0 ≠ fileVersion then errBadVersion else errShortResponse

def mountsError : Byte := r.callError <|
  if r.length < 10 ∨ r.data 0 ≠ diskVersion ∨ r.data 1 &&& 0x02 = 0 then errBadVersion else errEntriesBounds

def restoreError : Byte := r.callError <| if r.length < 12 then errShortResponse else errBadVersion

end Reply

/-- Why a listing fails in which the replies `rs` came. -/
def pagesError (rs : List Reply) : Byte := (rs.getLast?.map Reply.pageError).getD errRequestTooLarge

/-- Why a call fails in which the replies `rs` came. -/
def ServiceCall.reason : ServiceCall → List Reply → Byte
  | .listDirectory _ _ cb, rs => if cb = false then errInvalidArg else pagesError rs
  | .resolvePath baseUri _ resolved resolvedCap _ _ _, rs =>
    if baseUri = none ∨ resolved = false ∨ resolvedCap = 0 then errInvalidArg
    else (rs.getLast?.map Reply.resolveError).getD errRequestTooLarge
  | .listMounts _ _ _, rs => (rs.getLast?.map Reply.mountsError).getD errInvalidArg
  | .restoreBoot _, rs => (rs.getLast?.map Reply.restoreError).getD errInvalidArg

/-- Status and length of the last response among the replies, after `seen`. -/
def lastSeen (seen : Byte × Word) (rs : List Reply) : Byte × Word :=
  rs.foldl (fun seen r => if r.result = 0 then (r.status, r.length) else seen) seen

namespace Answered

variable (x : Answered)

/-- The replies that came during the call. -/
def replies : List Reply :=
  Service.replies x.before.answer x.before.sent (x.after.sent.drop x.before.sent.length)

/-- The three values describe this call. -/
def Reported : Prop :=
  if x.ok then x.after.lastError = errNone
  else x.after.lastError = x.call.reason x.replies ∧ x.after.lastError ≠ errNone ∧
    (x.after.lastStatus, x.after.lastResponseLen) = lastSeen (0, 0) x.replies

end Answered

end NioApps.Service
