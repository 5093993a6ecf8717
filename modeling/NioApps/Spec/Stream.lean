import NioApps.Spec.Install
import NioApps.Spec.Module

/-! An FNR1 file and the two ways to its bytes: all of it in the stage, or CIO giving
what each GET CHARACTERS asks for. -/

namespace NioApps.Loader

/-- `FNR_MODULE_LEN` of a file. -/
def moduleLen (file : List Byte) : ℕ := le [file.getD 12 0, file.getD 13 0]

/-- A file with a module that is at least a header. -/
structure Whole (file : List Byte) : Prop where
  header : 26 ≤ moduleLen file
  length : 22 + moduleLen file ≤ file.length

/-- The wrapper and the module are in the stage. -/
def InStage (b : Build) (w : Ram) (file : List Byte) : Prop :=
  ∀ i < 22 + moduleLen file, w.mem (b.stage + BitVec.ofNat 16 i) = file.getD i 0

instance (b : Build) (w : Ram) (file : List Byte) : Decidable (InStage b w file) :=
  inferInstanceAs (Decidable (∀ i < 22 + moduleLen file, w.mem (b.stage + BitVec.ofNat 16 i) = file.getD i 0))

/-- Every GET CHARACTERS among some events delivers the bytes of `file` that come next,
`p` of them having been asked for; `results` are the results of the CIO calls. -/
def delivered (file : List Byte) : ℕ → (ℕ → CioResult) → List Event → Bool
  | _, _, [] => true
  | p, results, .cio command _ _ n :: es =>
    if command = 7 then
      !(results 0).status.msb && slice (results 0).data 0 n.toNat == (file.drop p).take n.toNat &&
        delivered file (p + n.toNat) (fun k => results (k + 1)) es
    else delivered file p (fun k => results (k + 1)) es
  | p, results, _ :: es => delivered file p results es

/-- The state after `n` bytes, or after the `read_byte` that aborted. -/
def readN (b : Build) : ℕ → Ram → Ram
  | 0, w => w
  | n + 1, w =>
    match (readByte b).run w with
    | .ok _ w => readN b n w
    | .error _ w => w

/-- Behind the header of the module. -/
def pastHeader (w : Ram) : Ram := w.setZp { w.zp with srcPtr := w.zp.modulePtr + 26 }

/-- CIO delivers `file`, from `w` on, when `load_module` would be called in `w'` and the
module is read through. -/
def Served (b : Build) (w w' : Ram) (file : List Byte) : Prop :=
  ∃ es, (readN b (unread (pastHeader w')) (pastHeader w')).log = w.log ++ es ∧ delivered file 0 w.cioResults es = true

/-- A CIO call of `load_module` is a refill of at most 128 bytes. -/
def Event.Refill (b : Build) : Event → Prop
  | .cio command _ buffer n => command = 7 ∧ buffer = b.diskBuffer ∧ 1 ≤ n.toNat ∧ n.toNat ≤ 128
  | _ => True

/-- How many bytes the CIO calls among some events ask for. -/
def asked (es : List Event) : ℕ :=
  (es.map fun
    | .cio _ _ _ n => n.toNat
    | _ => 0).sum

/-- Stores to memory. -/
def storeAll (ss : List (Word × Byte)) (w : Ram) : Ram :=
  w.setMem (ss.foldl (fun mem s => Function.update mem s.1 s.2) w.mem)

/-- What `read_byte` returns, as far as it does, with stores before each call. -/
def feedStored (b : Build) : List (List (Word × Byte)) → Ram → List Byte
  | [], _ => []
  | s :: ss, w =>
    match (readByte b).run (storeAll s w) with
    | .ok a w => a :: feedStored b ss w
    | .error _ _ => []

/-- The carry on return from `load_module`; none when it left for `finish`. -/
def verdict : EStateM.Result Unit Ram Bool → Option Bool
  | .ok c _ => some c
  | .error _ _ => none

end NioApps.Loader
