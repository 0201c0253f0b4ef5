/-!
Literals: the values that a subject has for its attributes and that atoms compare with them.
-/

namespace InstallPolicy

inductive ValueKind where
  | text
  | integer
  | boolean
  deriving DecidableEq, Inhabited

def ValueKind.name : ValueKind → String
  | .text => "string"
  | .integer => "integer"
  | .boolean => "boolean"

/-- A text, a signed 64-bit integer or a truth value. -/
inductive Literal where
  | text (s : String)
  | integer (n : Int64)
  | boolean (b : Bool)
  deriving DecidableEq, Inhabited

namespace Literal

def kind : Literal → ValueKind
  | .text _ => .text
  | .integer _ => .integer
  | .boolean _ => .boolean

/-- A literal as it is printed: texts as they are, without quotes. -/
def render : Literal → String
  | .text s => s
  | .integer n => toString n.toInt
  | .boolean b => if b then "true" else "false"

end Literal

end InstallPolicy
