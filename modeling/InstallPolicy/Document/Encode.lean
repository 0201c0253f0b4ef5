import InstallPolicy.Document.Format

/-!
Writing documents. What a reader would refuse for its size is not written: a text of too many
bytes, compounds too deep within each other, or a number of elements that does not fit its field.
The first of these that is met on the way from the root, children in order, is the reason given.
-/

namespace InstallPolicy

/-- Why a formula or a rule has no document. -/
inductive EncodeError where
  /-- A text has too many bytes. -/
  | stringTooLong (bytes : Nat)
  /-- A compound stands below too many others. -/
  | depthLimitExceeded (limit : Nat)
  /-- A number of rules or children does not fit its field. -/
  | tooManyElements (count : Nat)
  deriving DecidableEq

def EncodeError.message : EncodeError → String
  | stringTooLong bytes => s!"String of {bytes} bytes exceeds the encoding limit"
  | depthLimitExceeded limit => s!"Formula nesting exceeds depth limit of {limit}"
  | tooManyElements count => s!"{count} elements do not fit a u32 count"

namespace Document

def writeCount (n : Nat) : Except EncodeError Bytes :=
  if n < UInt32.size then .ok (countBytes n) else .error (.tooManyElements n)

def writeText (s : String) : Except EncodeError Bytes :=
  let bytes := Bytes.ofText s
  if bytes.length ≤ maxTextBytes then do
    return (← writeCount bytes.length) ++ bytes
  else .error (.stringTooLong bytes.length)

def writeAtom (a : Atom) : Except EncodeError Bytes :=
  match a.literal with
  | .text s => do
    let text ← writeText s
    return textTag :: keyByte a.key :: operatorByte a.operator :: text ++ [flagByte a.hashed]
  | .integer n =>
    .ok (integerTag :: keyByte a.key :: operatorByte a.operator :: integerBytes n)
  | .boolean b => .ok [booleanTag, keyByte a.key, operatorByte a.operator, flagByte b]

mutual

/-- Writes a node that may hold `levels` compounds one within the other. -/
def writeNode : (levels : Nat) → Formula → Except EncodeError Bytes
  | _, .atom a => writeAtom a
  | 0, .compound _ _ => .error (.depthLimitExceeded maxDepth)
  | levels + 1, .compound connector children => do
    let count ← writeCount children.length
    let nodes ← writeNodes levels children
    return compoundTag :: connectorByte connector :: count ++ nodes

def writeNodes : (levels : Nat) → List Formula → Except EncodeError Bytes
  | _, [] => .ok []
  | levels, f :: fs => do
    let node ← writeNode levels f
    let nodes ← writeNodes levels fs
    return node ++ nodes

end

def writeRule (r : Rule) : Except EncodeError Bytes := do
  return effectByte r.effect :: (← writeNode maxDepth r.formula)

def writeRules : List Rule → Except EncodeError Bytes
  | [] => .ok []
  | r :: rs => do
    let rule ← writeRule r
    let rules ← writeRules rs
    return rule ++ rules

def encodeFormula (f : Formula) : Except EncodeError Bytes := do
  return version :: (← writeNode maxDepth f)

def encodeRule (r : Rule) : Except EncodeError Bytes := do
  return version :: (← writeRule r)

def encodeRules (rules : List Rule) : Except EncodeError Bytes := do
  let count ← writeCount rules.length
  return magic ++ version :: count ++ (← writeRules rules)

end Document

end InstallPolicy
