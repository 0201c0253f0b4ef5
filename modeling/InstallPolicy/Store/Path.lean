/-!
Paths: texts that lead from a folder to a place below or above it.

The parts of a path lie between its slashes. An empty part and a part of one dot lead nowhere, a
part of two dots leads to the folder above, and every other part is a name. So one place has many
paths, and which place a path leads to is told by following its parts.
-/

namespace InstallPolicy

structure Path where
  text : String
  deriving DecidableEq

namespace Path

/-! ### Parts -/

/-- What lies between the slashes of a text. -/
def pieces : List Char → List (List Char)
  | [] => [[]]
  | c :: cs =>
    if c = '/' then [] :: pieces cs
    else
      match pieces cs with
      | [] => [[c]]
      | piece :: rest => (c :: piece) :: rest

def parts (p : Path) : List String := (pieces p.text.toList).map String.ofList

def ofParts (parts : List String) : Path := ⟨"/".intercalate parts⟩

/-- Whether a part leads nowhere. -/
def isIdle (part : String) : Bool := part == "" || part == "."

/-- The path without the parts at its start and at its end that lead nowhere. -/
def trim (p : Path) : Path :=
  ofParts ((p.parts.dropWhile isIdle).reverse.dropWhile isIdle).reverse

/-- The name that a path ends with, after the parts before it. There is none if the last part that
leads anywhere leads up. -/
def name? (p : Path) : Option (List String × String) :=
  match p.parts.reverse.dropWhile isIdle with
  | [] => none
  | last :: before => if last = ".." then none else some (before.reverse, last)

/-! ### Extensions -/

/-- A name up to its last dot, and what follows the dot. A dot at the start does not count, and
without a dot that counts nothing follows. -/
def splitName (name : List Char) : List Char × List Char :=
  match name.reverse.dropWhile (· != '.') with
  | _ :: c :: before => ((c :: before).reverse, (name.reverse.takeWhile (· != '.')).reverse)
  | _ => (name, [])

/-- The path with `extension` in place of all that follows the stem of its name, if it has one. -/
def setExtension (p : Path) (extension : String) : Path :=
  match p.name? with
  | none => p
  | some (before, name) =>
    ofParts (before ++ [String.ofList (splitName name.toList).1 ++ "." ++ extension])

/-- The path with `extension` in place of the one that its name has.

As many characters as the old extension has are first taken off the end of the text. What is left
of a name such as `..bin` is no name but the way up, and it stays without an extension. -/
def withExtension (p : Path) (extension : String) : Path :=
  let old := (p.name?.map fun n => (splitName n.2.toList).2.length).getD 0
  let left := p.text.toList.take (p.text.toList.length - old)
  setExtension ⟨String.ofList left⟩ extension

end Path

/-! ### Locations -/

/-- A place, told from a root folder: so many folders up, and then down by these names. -/
structure Location where
  rise : Nat := 0
  names : List String := []
  deriving DecidableEq

namespace Location

def above (l : Location) : Location :=
  match l.names with
  | [] => { l with rise := l.rise + 1 }
  | _ => { l with names := l.names.dropLast }

/-- Where a part of a path leads to from a folder. -/
def enter (l : Location) (part : String) : Location :=
  if Path.isIdle part then l
  else if part = ".." then l.above
  else { l with names := l.names ++ [part] }

end Location

end InstallPolicy
