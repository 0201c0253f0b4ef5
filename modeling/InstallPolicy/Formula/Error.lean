import InstallPolicy.Vocabulary

/-!
Why the parts of a rule do not make a rule, with the wording of each cause.
-/

namespace InstallPolicy

/-- The causes for which parts are refused. -/
inductive FormulaError where
  /-- No connector has this code. -/
  | unknownConnector (code : Int)
  /-- No key has this code. -/
  | unknownKey (code : Int)
  /-- No operator has this code. -/
  | unknownOperator (code : Int)
  /-- No effect has this code. -/
  | unknownEffect (code : Int)
  /-- A negation has other than one child. -/
  | unaryArity (found : Nat)
  /-- A conjunction or disjunction has fewer than two children. -/
  | binaryArity (connector : Connector) (found : Nat)
  /-- The values of the key cannot be compared in this way. -/
  | operatorNotSupported (key : Key) (operator : Operator)
  /-- The literal is of another kind than the values of the key. -/
  | valueTypeMismatch (key : Key)
  /-- A digest stands for a value that is no text. -/
  | hashedValueNotSupported (key : Key)
  deriving DecidableEq

def FormulaError.message : FormulaError → String
  | unknownConnector code => s!"Unknown connector: {code}"
  | unknownKey code => s!"Unknown key: {code}"
  | unknownOperator code => s!"Unknown operator: {code}"
  | unknownEffect code => s!"Unknown effect: {code}"
  | unaryArity found => s!"Connector {Connector.not.name} must have 1 formula only (found {found})"
  | binaryArity connector found =>
    s!"Connector {connector.name} must have at least 2 formulas (found {found})"
  | operatorNotSupported key operator =>
    s!"Operator {operator.name} is not supported for key {key.name}"
  | valueTypeMismatch key => s!"Key {key.name} expects a {key.kind.name} value"
  | hashedValueNotSupported key => s!"Key {key.name} does not support hashed values"

/-- What is wrong with a connector over a number of children that it does not admit. -/
def Connector.arityError : Connector → (found : Nat) → FormulaError
  | .not, found => .unaryArity found
  | connector, found => .binaryArity connector found

def Key.ofCode (code : Int) : Except FormulaError Key :=
  (ofCode? code).elim (.error (.unknownKey code)) .ok

def Operator.ofCode (code : Int) : Except FormulaError Operator :=
  (ofCode? code).elim (.error (.unknownOperator code)) .ok

def Connector.ofCode (code : Int) : Except FormulaError Connector :=
  (ofCode? code).elim (.error (.unknownConnector code)) .ok

def Effect.ofCode (code : Int) : Except FormulaError Effect :=
  (ofCode? code).elim (.error (.unknownEffect code)) .ok

end InstallPolicy
