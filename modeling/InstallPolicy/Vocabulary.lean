import InstallPolicy.Literal

/-!
The words that rules are made of: keys, which name the attributes of a subject, comparison
operators, connectors and effects. Each word has a numeric code, for stored rules, and a name, for
printed ones; the codes of a vocabulary count up from zero, and every code belongs to one word.
-/

namespace InstallPolicy

/-! ### Keys -/

/-- The attributes of a subject. -/
inductive Key where
  | packageName
  | appCertificate
  | installerName
  | installerCertificate
  | versionCode
  | preInstalled
  deriving DecidableEq, Inhabited

namespace Key

def all : List Key :=
  [packageName, appCertificate, installerName, installerCertificate, versionCode, preInstalled]

def code : Key → Nat
  | packageName => 0
  | appCertificate => 1
  | installerName => 2
  | installerCertificate => 3
  | versionCode => 4
  | preInstalled => 5

def ofCode? (code : Int) : Option Key := all.find? fun k => k.code = code

def name : Key → String
  | packageName => "PACKAGE_NAME"
  | appCertificate => "APP_CERTIFICATE"
  | installerName => "INSTALLER_NAME"
  | installerCertificate => "INSTALLER_CERTIFICATE"
  | versionCode => "VERSION_CODE"
  | preInstalled => "PRE_INSTALLED"

/-- The kind of value that an attribute has. -/
def kind : Key → ValueKind
  | packageName | appCertificate | installerName | installerCertificate => .text
  | versionCode => .integer
  | preInstalled => .boolean

/-- Keys are ordered by their codes. -/
instance : Ord Key := ⟨fun j k => compare j.code k.code⟩

theorem ofCode?_eq_some_iff {c : Int} {k : Key} : ofCode? c = some k ↔ c = k.code := by
  refine ⟨fun h => ?_, fun h => by subst h; cases k <;> rfl⟩
  exact (of_decide_eq_true (List.find?_some (p := fun w => decide (_ = _)) h)).symm

end Key

/-! ### Operators -/

/-- How a subject's value compares with a literal. -/
inductive Operator where
  | equal
  | greater
  | greaterOrEqual
  | less
  | lessOrEqual
  | notEqual
  deriving DecidableEq, Inhabited

namespace Operator

def all : List Operator := [equal, greater, greaterOrEqual, less, lessOrEqual, notEqual]

def code : Operator → Nat
  | equal => 0
  | greater => 1
  | greaterOrEqual => 2
  | less => 3
  | lessOrEqual => 4
  | notEqual => 5

def ofCode? (code : Int) : Option Operator := all.find? fun o => o.code = code

def name : Operator → String
  | equal => "EQ"
  | greater => "GT"
  | greaterOrEqual => "GE"
  | less => "LT"
  | lessOrEqual => "LE"
  | notEqual => "NE"

def holds : Operator → (actual bound : Int64) → Bool
  | equal, actual, bound => actual == bound
  | greater, actual, bound => bound < actual
  | greaterOrEqual, actual, bound => bound ≤ actual
  | less, actual, bound => actual < bound
  | lessOrEqual, actual, bound => actual ≤ bound
  | notEqual, actual, bound => actual != bound

theorem ofCode?_eq_some_iff {c : Int} {o : Operator} : ofCode? c = some o ↔ c = o.code := by
  refine ⟨fun h => ?_, fun h => by subst h; cases o <;> rfl⟩
  exact (of_decide_eq_true (List.find?_some (p := fun w => decide (_ = _)) h)).symm

end Operator

/-- Integers can be compared in every way, other values only for equality. -/
def Key.supports (key : Key) (operator : Operator) : Bool :=
  key.kind == .integer || operator == .equal

/-! ### Connectors -/

/-- How a compound formula joins its children. -/
inductive Connector where
  | and
  | or
  | not
  deriving DecidableEq, Inhabited

namespace Connector

def all : List Connector := [and, or, not]

def code : Connector → Nat
  | and => 0
  | or => 1
  | not => 2

def ofCode? (code : Int) : Option Connector := all.find? fun c => c.code = code

def name : Connector → String
  | and => "AND"
  | or => "OR"
  | not => "NOT"

/-- A negation takes one child, the other connectors take two or more. -/
def Admits : Connector → (children : Nat) → Prop
  | not, n => n = 1
  | _, n => 2 ≤ n

instance : (c : Connector) → (n : Nat) → Decidable (c.Admits n)
  | not, n => inferInstanceAs (Decidable (n = 1))
  | and, n => inferInstanceAs (Decidable (2 ≤ n))
  | or, n => inferInstanceAs (Decidable (2 ≤ n))

theorem ofCode?_eq_some_iff {n : Int} {c : Connector} : ofCode? n = some c ↔ n = c.code := by
  refine ⟨fun h => ?_, fun h => by subst h; cases c <;> rfl⟩
  exact (of_decide_eq_true (List.find?_some (p := fun w => decide (_ = _)) h)).symm

end Connector

/-! ### Effects -/

/-- What becomes of an install that a rule matches. -/
inductive Effect where
  | deny
  | allow
  deriving DecidableEq, Inhabited

namespace Effect

def all : List Effect := [deny, allow]

def code : Effect → Nat
  | deny => 0
  | allow => 1

def ofCode? (code : Int) : Option Effect := all.find? fun e => e.code = code

def name : Effect → String
  | deny => "DENY"
  | allow => "ALLOW"

theorem ofCode?_eq_some_iff {n : Int} {e : Effect} : ofCode? n = some e ↔ n = e.code := by
  refine ⟨fun h => ?_, fun h => by subst h; cases e <;> rfl⟩
  exact (of_decide_eq_true (List.find?_some (p := fun w => decide (_ = _)) h)).symm

end Effect

end InstallPolicy
