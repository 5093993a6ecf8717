import NioApps.Lib.Paths

/-! `stage_manifest.py`: the files that a manifest names are copied into a staging directory.
The entries are what `load_manifest` makes of the manifest.

Strings are lists of characters. A path is absolute, as `main` makes them all, and is the list
of its components as `pathlib` keeps them: without empty ones and without `.`, but with `..`. -/

namespace NioApps.Staging

open Paths

abbrev Str := List Char

abbrev Path := List Str

/-- The exceptions, with their texts. -/
inductive Exc where
  | valueError (message : Str)
  | fileNotFound (message : Str)
  | osError (message : Str)
deriving DecidableEq, Repr

structure AppEntry where
  src : Path
  name : Str
  required : Bool
deriving DecidableEq, Repr

/-- `str(path)` -/
def Path.str (p : Path) : Str := if p = [] then ['/'] else p.flatMap ('/' :: ·)

/-- `path / s` -/
def Path.join (p : Path) (s : Str) : Path :=
  if s.head? = some '/' then components '/' ['.'] s else p ++ components '/' ['.'] s

/-- `.` and `..` resolved lexically. -/
def Path.resolve (p : Path) : Path := walk ['.', '.'] [] p

/-- The calls into the operating system: `Path.is_file`, `Path.mkdir` with its parents, and
`shutil.copy2`. -/
structure Host (σ : Type) where
  isFile : σ → Path → Bool
  mkdir : σ → Path → Except Exc Unit × σ
  copy2 : σ → Path → Path → Except Exc Unit × σ

/-- A call of `shutil.copy2`. -/
structure Copy where
  src : Path
  dest : Path
deriving DecidableEq, Repr

structure Run (σ : Type) where
  os : σ
  copies : List Copy
  copied : ℕ
  skipped : List Str
  stderr : List Str

section Program

variable {σ : Type} (host : Host σ) (reprOf : Str → Str)

/-- The name with `\` replaced by `/`. -/
def slashes (name : Str) : Str := name.map fun c => if c = '\\' then '/' else c

def validateName (name : Str) : Except Exc Str :=
  let normalized := strip '/' (slashes name)
  if normalized = [] ∨ ['.', '.', '/'] <+: normalized ∨ ['/', '.', '.', '/'] <:+: normalized then
    .error (.valueError ("Invalid disk name: ".toList ++ reprOf name))
  else .ok normalized

/-- One round of the loop of `stage_manifest`. -/
def stageEntry (stage : Path) (entry : AppEntry) (r : Run σ) : Except Exc Unit × Run σ :=
  match validateName reprOf entry.name with
  | .error e => (.error e, r)
  | .ok destName =>
    let dest := stage.join destName
    if host.isFile r.os entry.src = false then
      if entry.required = true then
        (.error (.fileNotFound ("Required boot-disk file not found: ".toList ++ entry.src.str)), r)
      else (.ok (), { r with skipped := r.skipped ++ [destName ++ " (".toList ++ entry.src.str ++ ")".toList] })
    else
      let (made, os) := host.mkdir r.os dest.dropLast
      let r := { r with os }
      match made with
      | .error e => (.error e, r)
      | .ok () =>
        let (done, os) := host.copy2 r.os entry.src dest
        let r := { r with os, copies := r.copies ++ [⟨entry.src, dest⟩] }
        match done with
        | .error e => (.error e, r)
        | .ok () => (.ok (), { r with copied := r.copied + 1 })

def stageEntries (stage : Path) : List AppEntry → Run σ → Except Exc Unit × Run σ
  | [], r => (.ok (), r)
  | entry :: entries, r =>
    match stageEntry host reprOf stage entry r with
    | (.error e, r) => (.error e, r)
    | (.ok (), r) => stageEntries stage entries r

/-- `stage_manifest` with the entries of `manifest`; the result is the number of files copied. -/
def stageManifest (manifest : Path) (entries : List AppEntry) (stage : Path) (os : σ) : Except Exc ℕ × Run σ :=
  match stageEntries host reprOf stage entries ⟨os, [], 0, [], []⟩ with
  | (.error e, r) => (.error e, r)
  | (.ok (), r) =>
    let r := if r.skipped = [] then r
      else { r with stderr := "Skipping optional boot-disk file(s) not found:".toList :: r.skipped.map ("  ".toList ++ ·) }
    if r.copied = 0 then
      (.error (.valueError ("No boot-disk files were available to copy: ".toList ++ manifest.str)), r)
    else (.ok r.copied, r)

end Program

end NioApps.Staging
