import InstallPolicy.Formula.Basic
import InstallPolicy.Subject

/-!
When a formula holds of a subject.

A hashed literal stands for every text with that digest; all other literals are compared with the
value itself. Above the atoms, a conjunction holds if all its children do, a disjunction if any
does, and a negation if its child does not.
-/

namespace InstallPolicy

/-- Whether the subject's value stands in the relation of the atom to its literal. A literal of
another kind than the value stands in no relation to it. -/
def Atom.holds (a : Atom) (s : Subject) : Bool :=
  match a.literal, s.value a.key with
  | .text expected, .text actual =>
    if a.hashed then hexDigest (Bytes.ofText actual) == expected else actual == expected
  | .integer bound, .integer actual => a.operator.holds actual bound
  | .boolean expected, .boolean actual => actual == expected
  | _, _ => false

namespace Formula

mutual

def holds (s : Subject) : Formula → Bool
  | atom a => a.holds s
  | compound .and children => allHold s children
  | compound .or children => anyHold s children
  | compound .not children => !anyHold s children

def allHold (s : Subject) : List Formula → Bool
  | [] => true
  | f :: fs => holds s f && allHold s fs

def anyHold (s : Subject) : List Formula → Bool
  | [] => false
  | f :: fs => holds s f || anyHold s fs

end

@[simp] theorem allHold_eq (s : Subject) (fs : List Formula) :
    allHold s fs = fs.all (holds s) := by
  induction fs with
  | nil => rfl
  | cons f fs ih => simp [allHold, ih]

@[simp] theorem anyHold_eq (s : Subject) (fs : List Formula) :
    anyHold s fs = fs.any (holds s) := by
  induction fs with
  | nil => rfl
  | cons f fs ih => simp [anyHold, ih]

@[simp] theorem holds_negate (s : Subject) (f : Formula) :
    (negate f).holds s = !f.holds s := by
  simp [negate, holds]

end Formula

end InstallPolicy
