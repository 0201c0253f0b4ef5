import InstallPolicy.Bytes.Hex
import InstallPolicy.Digest.Sha256
import InstallPolicy.Formula.Error

/-!
Atoms: single comparisons of one attribute with one literal.

A literal can stand hashed, as the upper-case hexadecimal SHA-256 digest of the text that is
meant; long names always do. An atom is well formed if its literal is of the kind of its key, its
key supports its operator, and only texts stand hashed. `Atom.build` accepts exactly the well
formed atoms.
-/

namespace InstallPolicy

def hexDigest (bs : Bytes) : String := (Sha256.digest bs).toHex

/-- The attribute `key` of a subject compared with `literal`. -/
structure Atom where
  key : Key
  operator : Operator
  literal : Literal
  /-- Whether the literal is the digest of the text that is meant. -/
  hashed : Bool
  deriving DecidableEq

namespace Atom

structure WellFormed (a : Atom) : Prop where
  kind : a.literal.kind = a.key.kind
  supports : a.key.supports a.operator = true
  hashed : a.hashed = true → a.key.kind = .text

/-- The atom of these parts, unless something is wrong with it: first the kind of the literal is
looked at, then the operator, then the digest. -/
def build (key : Key) (operator : Operator) (literal : Literal) (hashed : Bool) :
    Except FormulaError Atom :=
  if literal.kind ≠ key.kind then .error (.valueTypeMismatch key)
  else if key.supports operator = false then .error (.operatorNotSupported key operator)
  else if hashed = true ∧ key.kind ≠ .text then .error (.hashedValueNotSupported key)
  else .ok ⟨key, operator, literal, hashed⟩

theorem build_eq_ok_iff {key : Key} {operator : Operator} {literal : Literal} {hashed : Bool}
    {a : Atom} :
    build key operator literal hashed = .ok a ↔
      a = ⟨key, operator, literal, hashed⟩ ∧ a.WellFormed := by
  unfold build
  split
  · exact ⟨nofun, fun ⟨h, w⟩ => absurd (by simpa [h] using w.kind) ‹_›⟩
  split
  · refine ⟨nofun, fun ⟨h, w⟩ => ?_⟩
    have := w.supports
    simp_all
  split
  · refine ⟨nofun, fun ⟨h, w⟩ => ?_⟩
    have := w.hashed
    simp_all
  · refine ⟨fun h => ?_, fun h => h.1 ▸ rfl⟩
    obtain rfl := Except.ok.inj h
    refine ⟨rfl, ⟨by simp_all, by simp_all, by simp_all⟩⟩

/-! ### Ways to make an atom -/

/-- Equality with a text or with the digest of one. -/
def text (key : Key) (s : String) (hashed : Bool) : Except FormulaError Atom :=
  build key .equal (.text s) hashed

def integer (key : Key) (operator : Operator) (n : Int64) : Except FormulaError Atom :=
  build key operator (.integer n) false

def boolean (key : Key) (b : Bool) : Except FormulaError Atom :=
  build key .equal (.boolean b) false

/-- The most bytes that a name may have in order to stand as it is. -/
def maxPlainNameBytes : Nat := 32

/-- Equality with `name`, which stands hashed if it is long and the name of a package or of an
installer. -/
def named (key : Key) (name : String) : Atom :=
  if (key = .packageName ∨ key = .installerName) ∧
      (Bytes.ofText name).length > maxPlainNameBytes then
    ⟨key, .equal, .text (hexDigest (Bytes.ofText name)), true⟩
  else
    ⟨key, .equal, .text name, false⟩

/-- An atom as it is printed; that a literal stands hashed is not shown. -/
def render (a : Atom) : String :=
  "(" ++ a.key.name ++ " " ++ a.operator.name ++ " " ++ a.literal.render ++ ")"

end Atom

end InstallPolicy
