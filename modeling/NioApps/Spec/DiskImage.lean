import NioApps.Spec.Staging
import Mathlib.Data.List.Sort

/-! `create_msdos_img.py`: what `collect_entries` finds under a host directory, and the
commands of `populate_image`. The directory is a tree: a link counts as what it leads to, and
the children are in the order in which the host lists them. -/

namespace NioApps.Staging

/-- The methods of Python's strings that go by Unicode tables, and `repr`. -/
structure Python where
  upper : Str → Str
  lower : Str → Str
  repr : Str → Str

/-- What is neither a directory nor a regular file is `special`. -/
inductive Node where
  | file (name : Str)
  | dir (name : Str) (children : List Node)
  | special (name : Str)

def Node.name : Node → Str
  | .file name => name
  | .dir name _ => name
  | .special name => name

def Node.isDir : Node → Bool
  | .dir _ _ => true
  | _ => false

structure ImageEntry where
  source : Path
  imagePath : Str
  isDir : Bool
deriving DecidableEq, Repr

def isFatChar (c : Char) : Bool :=
  ('A' ≤ c ∧ c ≤ 'Z') ∨ ('0' ≤ c ∧ c ≤ '9') ∨ c ∈ "!#$%&'()@^_\x60\x7b\x7d~-".toList

/-- Up to eight characters, and up to three behind a dot. -/
def Fat83 (s : Str) : Prop :=
  let base := s.takeWhile isFatChar
  let ext := s.dropWhile isFatChar
  1 ≤ base.length ∧ base.length ≤ 8 ∧
    (ext = [] ∨ ext.head? = some '.' ∧ 1 ≤ ext.tail.length ∧ ext.tail.length ≤ 3 ∧ ext.tail.all isFatChar)

instance : DecidablePred Fat83 := fun _ => inferInstanceAs (Decidable (_ ∧ _ ∧ _))

/-- `FAT83_RE.match`: its `$` is also before a newline that ends the string. -/
def Fat83Match (s : Str) : Prop := Fat83 s ∨ (s.getLast? = some '\n' ∧ Fat83 s.dropLast)

instance : DecidablePred Fat83Match := fun _ => inferInstanceAs (Decidable (_ ∨ _))

section Program

variable (py : Python)

def isIgnored (name : Str) : Bool := name.head? = some '.' ∨ ".inf".toList <:+ py.lower name ∨ name.getLast? = some '~'

def validateFat83 (name : Str) (source : Path) : Except Exc Str :=
  let upper := py.upper name
  if ¬Fat83Match upper then
    .error (.valueError (source.str ++ ": MS-DOS 6.x image names must be 8.3 compatible; got ".toList ++ py.repr name))
  else .ok upper

def imageJoin (parent child : Str) : Str := if parent = [] then child else parent ++ '/' :: child

/-- The key of `sorted`, and when one key is less than another. -/
def Node.key (child : Node) : Bool × Str := (!child.isDir, py.upper child.name)

def keyLt (a b : Bool × Str) : Prop := a.1 < b.1 ∨ (a.1 = b.1 ∧ a.2 < b.2)

instance : DecidableRel keyLt := fun _ _ => inferInstanceAs (Decidable (_ ∨ _))

/-- The entries that the rounds of the loop add, up to a round that raises. -/
def addAll : List (Except Exc (List ImageEntry)) → Except Exc (List ImageEntry)
  | [] => .ok []
  | .error e :: _ => .error e
  | .ok added :: rounds =>
    match addAll rounds with
    | .error e => .error e
    | .ok entries => .ok (added ++ entries)

/-- The rounds by the keys of their children, equal keys in the order they had. -/
def inOrder (rounds : List ((Bool × Str) × Except Exc (List ImageEntry))) : Except Exc (List ImageEntry) :=
  addAll ((rounds.insertionSort fun a b => ¬keyLt b.1 a.1).map Prod.snd)

mutual

/-- One round of the loop in `walk`. -/
def visit (hostDir : Path) (imageDir : Str) : Node → Except Exc (List ImageEntry)
  | .file name =>
    match validateFat83 py name (hostDir ++ [name]) with
    | .error e => .error e
    | .ok fatName => .ok [⟨hostDir ++ [name], imageJoin imageDir fatName, false⟩]
  | .dir name children =>
    match validateFat83 py name (hostDir ++ [name]) with
    | .error e => .error e
    | .ok fatName =>
      let childImagePath := imageJoin imageDir fatName
      match inOrder (visits (hostDir ++ [name]) childImagePath children) with
      | .error e => .error e
      | .ok entries => .ok (⟨hostDir ++ [name], childImagePath, true⟩ :: entries)
  | .special name =>
    match validateFat83 py name (hostDir ++ [name]) with
    | .error e => .error e
    | .ok _ => .ok []

def visits (hostDir : Path) (imageDir : Str) : List Node → List ((Bool × Str) × Except Exc (List ImageEntry))
  | [] => []
  | child :: children =>
    if isIgnored py child.name then visits hostDir imageDir children
    else (child.key py, visit hostDir imageDir child) :: visits hostDir imageDir children

end

def walk (hostDir : Path) (imageDir : Str) (children : List Node) : Except Exc (List ImageEntry) :=
  inOrder (visits py hostDir imageDir children)

def collectEntries (inputDir : Path) (children : List Node) : Except Exc (List ImageEntry) := walk py inputDir [] children

/-- `sorted` over the children that are not ignored. -/
def sortedChildren (children : List Node) : List Node :=
  (children.filter fun p => ¬isIgnored py p.name).insertionSort fun a b => ¬keyLt (b.key py) (a.key py)

theorem visits_eq (hostDir : Path) (imageDir : Str) (children : List Node) :
    visits py hostDir imageDir children =
      (children.filter fun p => ¬isIgnored py p.name).map fun child => (child.key py, visit py hostDir imageDir child) := by
  induction children with
  | nil => rfl
  | cons child children ih =>
    unfold visits
    by_cases hchild : isIgnored py child.name = true
    · rw [if_pos hchild, List.filter_cons_of_neg (by simpa using hchild), ih]
    · rw [if_neg hchild, List.filter_cons_of_pos (by simpa using hchild), List.map_cons, ih]

/-- The loop as the source has it: over the sorted children. -/
theorem walk_eq (hostDir : Path) (imageDir : Str) (children : List Node) :
    walk py hostDir imageDir children = addAll ((sortedChildren py children).map (visit py hostDir imageDir)) := by
  unfold walk inOrder sortedChildren
  rw [visits_eq, ← List.map_insertionSort (fun a b : Node => ¬keyLt (b.key py) (a.key py)) _ _ _ (by simp), List.map_map]
  rfl

end Program

def mtoolsPath (imagePath : Str) : Str := "::/".toList ++ imagePath

inductive Command where
  | mmd (path : Str)
  | mcopy (source : Path) (path : Str)
deriving DecidableEq, Repr

def ImageEntry.command (entry : ImageEntry) : Command :=
  if entry.isDir = true then .mmd (mtoolsPath entry.imagePath) else .mcopy entry.source (mtoolsPath entry.imagePath)

def populateImage (entries : List ImageEntry) : List Command := entries.map ImageEntry.command

/-- The files of an image, each by the host file it was copied from; `-o` overwrites. -/
def Command.run (image : Str → Option Path) : Command → Str → Option Path
  | .mmd _ => image
  | .mcopy source path => Function.update image path (some source)

end NioApps.Staging
