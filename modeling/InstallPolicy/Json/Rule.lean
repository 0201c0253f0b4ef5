import InstallPolicy.Json
import InstallPolicy.Verdict

/-!
The JSON forms of words, formulas, rules and verdicts. A word is read from the text of its title, or
from an object whose sole field has the title for its name and null for its value.
-/

namespace InstallPolicy

/-! ### Words -/

def Key.title : Key → String
  | packageName => "PackageName"
  | appCertificate => "AppCertificate"
  | installerName => "InstallerName"
  | installerCertificate => "InstallerCertificate"
  | versionCode => "VersionCode"
  | preInstalled => "PreInstalled"

def Operator.title : Operator → String
  | equal => "Eq"
  | greater => "Gt"
  | greaterOrEqual => "Ge"
  | less => "Lt"
  | lessOrEqual => "Le"
  | notEqual => "Ne"

def Connector.title : Connector → String
  | and => "And"
  | or => "Or"
  | not => "Not"

def Effect.title : Effect → String
  | deny => "Deny"
  | allow => "Allow"

def Key.ofJson? (j : Json) : Option Key := do
  let s ← j.word?
  all.find? fun k => k.title = s

def Operator.ofJson? (j : Json) : Option Operator := do
  let s ← j.word?
  all.find? fun o => o.title = s

def Connector.ofJson? (j : Json) : Option Connector := do
  let s ← j.word?
  all.find? fun c => c.title = s

def Effect.ofJson? (j : Json) : Option Effect := do
  let s ← j.word?
  all.find? fun e => e.title = s

/-! ### Formulas, rules and verdicts -/

def Literal.toJson : Literal → Json
  | text s => .object [("String", .string s)]
  | integer n => .object [("Long", .integer n.toInt)]
  | boolean b => .object [("Boolean", .bool b)]

def Atom.toJson (a : Atom) : Json :=
  .object [
    ("key", .string a.key.title),
    ("operator", .string a.operator.title),
    ("value", a.literal.toJson),
    ("is_hashed_value", .bool a.hashed)]

mutual

def Formula.toJson : Formula → Json
  | .atom a => .object [("Atomic", a.toJson)]
  | .compound connector children =>
    .object [("Compound", .object [
      ("connector", .string connector.title),
      ("formulas", .array (Formula.toJsonEach children))])]

def Formula.toJsonEach : List Formula → List Json
  | [] => []
  | f :: fs => f.toJson :: Formula.toJsonEach fs

end

def Rule.toJson (r : Rule) : Json :=
  .object [("formula", r.formula.toJson), ("effect", .string r.effect.title)]

def Verdict.toJson (v : Verdict) : Json :=
  .object [("effect", .string v.effect.title), ("matched_rules", .array (v.rules.map Rule.toJson))]

end InstallPolicy
