/-!
JSON values, and what can be read out of them.
-/

namespace InstallPolicy

/-- A JSON value. Whole numbers stand apart from numbers that are written with a fraction or an
exponent, of which only the text is kept. -/
inductive Json where
  | null
  | bool (b : Bool)
  | integer (n : Int)
  | decimal (text : String)
  | string (s : String)
  | array (items : List Json)
  | object (fields : List (String × Json))
  deriving Inhabited

namespace Json

/-- The value of a field; of fields with one name the last counts. -/
def field? (name : String) : Json → Option Json
  | object fields => fields.reverse.lookup name
  | _ => none

def string? : Json → Option String
  | string s => some s
  | _ => none

/-- The field of an object that has fields of one name only; of these the last counts. -/
def soleField? : Json → Option (String × Json)
  | object fields =>
    match fields.reverse with
    | [] => none
    | (name, value) :: earlier =>
      if earlier.all (·.1 == name) then some (name, value) else none
  | _ => none

/-- The word that a value stands for: a text stands for itself, and an object whose sole field is
null for the name of the field. -/
def word? : Json → Option String
  | string s => some s
  | j =>
    match j.soleField? with
    | some (name, null) => some name
    | _ => none

def bool? : Json → Option Bool
  | bool b => some b
  | _ => none

/-- The integer, if the value is a whole number of signed 64 bits. -/
def int64? : Json → Option Int64
  | integer n =>
    if Int64.minValue.toInt ≤ n ∧ n ≤ Int64.maxValue.toInt then some (Int64.ofInt n) else none
  | _ => none

end Json

end InstallPolicy
