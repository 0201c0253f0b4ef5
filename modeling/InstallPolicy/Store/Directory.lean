import InstallPolicy.Bytes
import InstallPolicy.Store.Path

/-!
A directory of files and folders, and what can be done with the files in it.

A directory is known by what it says of each location, `Directory.get?`. A path is followed from the
root, part by part, and only through folders. Every operation says why it cannot be done or gives
the directory after it.
-/

namespace InstallPolicy

inductive Entry where
  | file (content : Bytes)
  | folder
  deriving DecidableEq

inductive Obstacle where
  /-- Nothing stands at the path or at a folder on the way. -/
  | missing
  /-- A file stands where a folder should. -/
  | notFolder
  /-- A folder stands where a file should. -/
  | isFolder
  /-- Nothing can have such a path. -/
  | notPath
  deriving DecidableEq

/-- What stands at a location by itself: the root and the folders above it are always there. -/
def Location.standing (l : Location) : Option Entry := if l.names = [] then some .folder else none

/-- Files and folders, each at its location. -/
structure Directory where
  entries : List (Location × Entry) := []

namespace Directory

/-! ### Entries -/

def get? (d : Directory) (l : Location) : Option Entry := (d.entries.lookup l).or l.standing

def erase (d : Directory) (l : Location) : Directory := ⟨d.entries.filter (·.1 != l)⟩

def set (d : Directory) (l : Location) (e : Entry) : Directory := ⟨(l, e) :: (d.erase l).entries⟩

theorem get?_erase (d : Directory) (l m : Location) :
    (d.erase l).get? m = if m = l then l.standing else d.get? m := by
  obtain ⟨entries⟩ := d
  simp only [get?, erase]
  induction entries with
  | nil => grind
  | cons head rest ih => grind

theorem get?_set (d : Directory) (l m : Location) (e : Entry) :
    (d.set l e).get? m = if m = l then some e else d.get? m := by
  have h := get?_erase d l m
  grind [get?, set]

/-! ### Following a path -/

def maxNameBytes : Nat := 255

def maxPathBytes : Nat := 4095

/-- Where the parts of a path lead to from a location. There has to be a folder wherever a part
starts from, so that a path that ends with a slash leads to a folder or nowhere. -/
def follow (d : Directory) : Location → List String → Except Obstacle Location
  | l, [] => .ok l
  | l, part :: parts =>
    match d.get? l with
    | none => .error .missing
    | some (.file _) => .error .notFolder
    | some .folder =>
      if (Bytes.ofText part).length ≤ maxNameBytes then d.follow (l.enter part) parts
      else .error .notPath

/-- Where a path leads to from the root. Nothing stands at the empty path. -/
def locate (d : Directory) (p : Path) : Except Obstacle Location :=
  let bytes := Bytes.ofText p.text
  if bytes = [] then .error .missing
  else if bytes.length ≤ maxPathBytes ∧ 0 ∉ bytes then d.follow {} p.parts
  else .error .notPath

/-! ### Operations -/

def read (d : Directory) (p : Path) : Except Obstacle Bytes := do
  let l ← d.locate p
  match d.get? l with
  | none => throw .missing
  | some .folder => throw .isFolder
  | some (.file content) => return content

/-- Writes a file, in place of an earlier one. -/
def write (d : Directory) (p : Path) (content : Bytes) : Except Obstacle Directory := do
  let l ← d.locate p
  match d.get? l with
  | some .folder => throw .isFolder
  | _ => return d.set l (.file content)

/-- Moves a file to a path, in place of an earlier file there. -/
def rename (d : Directory) (source target : Path) : Except Obstacle Directory := do
  let content ← d.read source
  let start ← d.locate source
  let goal ← d.locate target
  match d.get? goal with
  | some .folder => throw .isFolder
  | _ => return (d.erase start).set goal (.file content)

def remove (d : Directory) (p : Path) : Except Obstacle Directory := do
  let _ ← d.read p
  return d.erase (← d.locate p)

/-- Makes folders wherever nothing stands on the way from a location. -/
def makeFolders (d : Directory) : Location → List String → Except Obstacle Directory
  | _, [] => .ok d
  | l, part :: parts =>
    match d.get? (l.enter part) with
    | none => (d.set (l.enter part) .folder).makeFolders (l.enter part) parts
    | some .folder => d.makeFolders (l.enter part) parts
    | some (.file _) => .error .notFolder

def makeFolder (d : Directory) (p : Path) : Except Obstacle Directory := d.makeFolders {} p.parts

/-- Removes a folder with all that stands below it. -/
def removeFolder (d : Directory) (p : Path) : Except Obstacle Directory := do
  let l ← d.locate p
  match d.get? l with
  | none => throw .missing
  | some (.file _) => throw .notFolder
  | some .folder =>
    return ⟨d.entries.filter fun e => !(e.1.rise == l.rise && l.names.isPrefixOf e.1.names)⟩

end Directory

end InstallPolicy
