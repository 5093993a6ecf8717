import NioApps.Spec.Browse

/-! What FHOST is for: the current host, its path and the hosts of before, as a conforming
host device keeps them, and what a command line does to them. -/

namespace NioApps.Shell

open Commands Service
open AppStore (ascii newline)

structure HostView where
  host : List Byte
  path : List Byte
  history : List (List Byte)
deriving DecidableEq, Repr

/-! ### The device -/

/-- The request of one of the calls. -/
def hostRequest (command : Byte) (bytes : List Byte) : Request := ⟨deviceHost, command, [] ++ [hostVersion] ++ bytes, 512⟩

def getRequest : Request := hostRequest hostGetCurrentCommand []

def historyRequest : Request := hostRequest hostListHistoryCommand (u16le 0 ++ u16le 511)

def setRequest (uri : List Byte) : Request :=
  hostRequest hostSetCurrentCommand (u16le (BitVec.ofNat 16 uri.length) ++ uri)

/-- The call was granted. -/
def Granted (r : Reply) : Prop := r.result = 0 ∧ r.status = 0 ∧ 1 ≤ r.length.toNat ∧ r.data 0 = hostVersion

/-- The current host in a reply. -/
structure IsCurrent (r : Reply) (v : HostView) : Prop where
  version : r.data 0 = hostVersion
  hostLen : le (slice r.data 1 2) = v.host.length
  pathLen : le (slice r.data 3 2) = v.path.length
  length : 5 + v.host.length + v.path.length ≤ r.length.toNat
  host : slice r.data 5 v.host.length = v.host
  path : slice r.data (5 + v.host.length) v.path.length = v.path
  plain : 0 ∉ v.host ∧ 0 ∉ v.path

/-- What FHOST sees of the view: with another status than 0 there is no host. -/
def seen (r : Reply) (v : HostView) : HostView := if r.status = 0 then v else { v with host := [] }

/-- The text of the history in a reply. -/
structure IsHistory (r : Reply) (text : List Byte) : Prop where
  version : r.data 0 = hostVersion
  textLen : le (slice r.data 4 2) = text.length
  length : 6 + text.length ≤ r.length.toNat
  bytes : slice r.data 6 text.length = text
  plain : 0 ∉ text

/-- What a call that is granted does; one that is not may have done it or not. -/
def Moves (r : Reply) (before after : HostView) (P : HostView → Prop) : Prop :=
  (Granted r → P after) ∧ (¬ Granted r → after = before ∨ P after)

def Deleted (index : Byte) (before after : HostView) : Prop :=
  index.toNat < before.history.length ∧ after = { before with history := before.history.eraseIdx index.toNat }

/-- A host device: `view` is what it holds after the requests, and `text` how it lists the history. -/
structure Hosts (text : List (List Byte) → List Byte) (view : List Request → HostView) (answer : List Request → Reply) : Prop where
  fits : ∀ qs, (answer qs).length.toNat ≤ maxData
  get : ∀ qs, view (qs ++ [getRequest]) = view qs ∧
    ((answer (qs ++ [getRequest])).result = 0 → (answer (qs ++ [getRequest])).status = 0 →
      IsCurrent (answer (qs ++ [getRequest])) (view qs))
  list : ∀ qs, view (qs ++ [historyRequest]) = view qs ∧
    ((answer (qs ++ [historyRequest])).result = 0 → (answer (qs ++ [historyRequest])).status = 0 →
      IsHistory (answer (qs ++ [historyRequest])) (text (view qs).history))
  set : ∀ qs uri, Moves (answer (qs ++ [setRequest uri])) (view qs) (view (qs ++ [setRequest uri])) fun v => v.host = uri
  select : ∀ qs index, Moves (answer (qs ++ [hostRequest hostSelectHistoryCommand [index]])) (view qs)
    (view (qs ++ [hostRequest hostSelectHistoryCommand [index]])) fun v => (view qs).history[index.toNat]? = some v.host
  delete : ∀ qs index, Moves (answer (qs ++ [hostRequest hostDeleteHistoryCommand [index]])) (view qs)
    (view (qs ++ [hostRequest hostDeleteHistoryCommand [index]])) (Deleted index (view qs))

/-! ### The commands -/

section Commands

variable {σ τ : Type} (e : Setup σ τ)

/-- What a command line asks for; on the Atari a URI may be typed after the current host is shown. -/
def hostActions (args : List (List Byte)) (input : List Byte) : List HostAction :=
  match hostMain e.target args with
  | .showCurrent =>
    .showCurrent :: if e.target = .atari ∧ promptUri e input ≠ [] then [.setCurrent (promptUri e input)] else []
  | act => [act]

/-- The change that an action asks for. -/
def Effect (before after : HostView) : HostAction → Prop
  | .selectHistory index => before.history[index.toNat]? = some after.host
  | .deleteHistory index => Deleted index before after
  | .setCurrent uri => after.host = uri
  | _ => after = before

/-- What FHOST prints for the current host. -/
def currentText (v : HostView) : List Byte :=
  if v.host = [] then ascii "HOST: (none)" ++ [newline e.target] ++ (ascii "PATH: (none)" ++ [newline e.target])
  else
    ascii "HOST: " ++ v.host ++ [newline e.target] ++
      if v.path ≠ [] then ascii "PATH: " ++ v.path ++ [newline e.target] else ascii "PATH: /" ++ [newline e.target]

section Exchanges

variable (text : List (List Byte) → List Byte) (view : List Request → HostView) (answer : List Request → Reply)

/-- The exit code of showing the current host: only a call that does not come back fails. -/
def showCode (qs : List Request) : ℕ := if (answer (qs ++ [getRequest])).result = 0 then 0 else 2

/-- The requests of an action, and what the replies to them make of its exit code. A request
that changes something is sent once; if it was granted, the current host is shown. -/
inductive Exchange (qs : List Request) : HostAction → ℕ → List Request → Prop
  | usage : Exchange qs .usage 1 qs
  | showCurrent : Exchange qs .showCurrent (showCode answer qs) (qs ++ [getRequest])
  | list : Exchange qs .listHistory 0 (qs ++ [historyRequest])
  | deleted (index : Byte) (h : Granted (answer (qs ++ [hostRequest hostDeleteHistoryCommand [index]]))) :
      Exchange qs (.deleteHistory index) 0 (qs ++ [hostRequest hostDeleteHistoryCommand [index]])
  | undeleted (index : Byte) (h : ¬ Granted (answer (qs ++ [hostRequest hostDeleteHistoryCommand [index]]))) :
      Exchange qs (.deleteHistory index) 2 (qs ++ [hostRequest hostDeleteHistoryCommand [index]])
  | selected (index : Byte) (h : Granted (answer (qs ++ [hostRequest hostSelectHistoryCommand [index]]))) :
      Exchange qs (.selectHistory index) (showCode answer (qs ++ [hostRequest hostSelectHistoryCommand [index]]))
        (qs ++ [hostRequest hostSelectHistoryCommand [index]] ++ [getRequest])
  | unselected (index : Byte) (h : ¬ Granted (answer (qs ++ [hostRequest hostSelectHistoryCommand [index]]))) :
      Exchange qs (.selectHistory index) 2 (qs ++ [hostRequest hostSelectHistoryCommand [index]])
  | stored (uri : List Byte) (hfits : uri.length ≤ 509) (h : Granted (answer (qs ++ [setRequest uri]))) :
      Exchange qs (.setCurrent uri) (showCode answer (qs ++ [setRequest uri])) (qs ++ [setRequest uri] ++ [getRequest])
  | unstored (uri : List Byte) (hfits : uri.length ≤ 509) (h : ¬ Granted (answer (qs ++ [setRequest uri]))) :
      Exchange qs (.setCurrent uri) 2 (qs ++ [setRequest uri])
  | long (uri : List Byte) (hlong : 509 < uri.length) : Exchange qs (.setCurrent uri) 2 qs

/-- The end of an action that ends well: what it printed, after the requests `qs`. -/
def HostPrints (qs : List Request) (out : List Byte) : HostAction → Prop
  | .listHistory =>
    if (answer qs).result = 0 ∧ (answer qs).status = 0 ∧ text (view qs).history ≠ [] then out = text (view qs).history
    else out = ascii "No host history" ++ [newline e.target]
  | .deleteHistory _ => out = []
  | .usage => True
  | _ => currentText e (seen (answer qs) (view qs)) <:+: out

/-- One action: its requests, its exit code, its output, and what the device holds afterwards. -/
structure HostDoes (qs : List Request) (act : HostAction) (code : ℕ) (out : List Byte) (qs' : List Request) : Prop where
  exchange : Exchange answer qs act code qs'
  effect : code = 0 → Effect (view qs) (view qs') act
  failed : view qs' = view qs ∨ Effect (view qs) (view qs') act
  prints : code = 0 → HostPrints e text view answer qs' out act

/-- The actions of a command line, up to one that fails; `prompt` is printed before the next. -/
inductive HostLine : List Request → List HostAction → ℕ → List Byte → List Request → Prop
  | last {qs qs' : List Request} {act : HostAction} {code : ℕ} {out : List Byte}
      (h : HostDoes e text view answer qs act code out qs') : HostLine qs [act] code out qs'
  | stop {qs qs' : List Request} {act : HostAction} {acts : List HostAction} {code : ℕ} {out : List Byte}
      (h : HostDoes e text view answer qs act code out qs') (hcode : code ≠ 0) : HostLine qs (act :: acts) code out qs'
  | next {qs qs' last : List Request} {act : HostAction} {acts : List HostAction} {code : ℕ} {out prompt outs : List Byte}
      (h : HostDoes e text view answer qs act 0 out qs') (hrest : HostLine qs' acts code outs last) :
      HostLine qs (act :: acts) code (out ++ prompt ++ outs) last

/-- Programs one after another, with what they printed. -/
inductive HostCourse : List Request → List (List HostAction) → List ℕ → List Byte → List Request → Prop
  | nil (qs : List Request) : HostCourse qs [] [] [] qs
  | cons {qs qs' last : List Request} {acts : List HostAction} {lines : List (List HostAction)} {code : ℕ} {codes : List ℕ}
      {out outs : List Byte} (h : HostLine e text view answer qs acts code out qs') (hrest : HostCourse qs' lines codes outs last) :
      HostCourse qs (acts :: lines) (code :: codes) (out ++ outs) last

end Exchanges

/-- The programs one after another; `none` when one does not come to its end. -/
def fhostSession (l : Locale) : List (List (List Byte) × List Byte) → Machine σ τ → Option (List ℕ × Machine σ τ)
  | [], s => some ([], s)
  | (args, input) :: lines, s =>
    match (fhost e l args input).run (fresh e s) with
    | .ok code s' => (fhostSession l lines s').map fun r => (code :: r.1, r.2)
    | .error _ _ => none

end Commands

end NioApps.Shell
