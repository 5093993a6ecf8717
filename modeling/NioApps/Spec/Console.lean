import NioApps.Lib.Abort
import NioApps.Spec.AppStore

/-! The prompts of the Atari versions, which ask for what the command line does not give:
`fgets` from what is typed, and `trim_line`. A dialog that returns 0 leaves. -/

namespace NioApps.Console

open Abort Commands
open AppStore (ascii newline)

/-- What is still to be read, and what was printed. -/
structure Screen where
  typed : List Byte
  printed : List Byte
deriving DecidableEq, Repr

abbrev Dialog := EStateM Unit Screen

/-- `fgets` into an array with room for `n` bytes and the NUL: what it reads, and what it leaves. -/
def fgets (t : Target) : ℕ → List Byte → List Byte × List Byte
  | 0, typed => ([], typed)
  | _ + 1, [] => ([], [])
  | n + 1, b :: typed => if b = newline t then ([b], typed) else (b :: (fgets t n typed).1, (fgets t n typed).2)

/-- `trim_line`: the string up to the end of its line. -/
def trimLine (t : Target) (line : List Byte) : List Byte := line.takeWhile fun b => b ≠ 0 ∧ b ≠ newline t ∧ b ≠ 0x0d

/-- A prompt, and the line that is typed into an array of `size` bytes. -/
def ask (t : Target) (prompt : String) (size : ℕ) : Dialog (List Byte) := do
  let s ← get
  set { typed := (fgets t (size - 1) s.typed).2, printed := s.printed ++ ascii prompt : Screen }
  return trimLine t (fgets t (size - 1) s.typed).1

def say (bs : List Byte) : Dialog PUnit := modify fun s => { s with printed := s.printed ++ bs }

/-- What a dialog printed, and its result. -/
def asked {α : Type} (d : Dialog α) (typed : List Byte) : List Byte × Option α :=
  match d.run ⟨typed, []⟩ with
  | .ok a s => (s.printed, some a)
  | .error _ s => (s.printed, none)

theorem length_fgets_le (t : Target) (n : ℕ) (typed : List Byte) : (fgets t n typed).1.length ≤ n := by
  induction n generalizing typed with
  | zero => rfl
  | succ n ih =>
    rcases typed with _ | ⟨b, typed⟩
    · exact Nat.zero_le _
    · rw [fgets]
      split_ifs
      · exact Nat.le_add_left 1 n
      · exact Nat.succ_le_succ (ih typed)

/-- The end of a line that is too long answers the next prompt. -/
example : fgets .atari 3 [0x31, 0x32, 0x33, 0x9b] = ([0x31, 0x32, 0x33], [0x9b]) := by decide

/-- A line fits its array. -/
theorem ask_wp (t : Target) (prompt : String) {size : ℕ} (hsize : 0 < size) (s : Screen) :
    wp (ask t prompt size) (fun line _ => line.length < size) (fun _ => False) s := by
  have hread := length_fgets_le t (size - 1) s.typed
  have htrim : (trimLine t (fgets t (size - 1) s.typed).1).length ≤ (fgets t (size - 1) s.typed).1.length :=
    (List.takeWhile_prefix _).length_le
  change (trimLine t (fgets t (size - 1) s.typed).1).length < size
  omega

/-- What holds of every result of a dialog. -/
theorem asked_wp {α : Type} {d : Dialog α} {P : α → Prop} (h : ∀ s, wp d (fun a _ => P a) (fun _ => True) s) {typed : List Byte}
    {a : α} (ha : (asked d typed).2 = some a) : P a := by
  have hd := h ⟨typed, []⟩
  rw [wp] at hd
  rw [asked] at ha
  cases hrun : d.run ⟨typed, []⟩ with
  | ok b s =>
    rw [hrun] at ha hd
    cases ha
    exact hd
  | error _ s =>
    rw [hrun] at ha
    cases ha

end NioApps.Console
