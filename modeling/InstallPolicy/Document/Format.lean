import InstallPolicy.Rule

/-!
The binary form of formulas, rules and lists of rules, with nothing refused.

All numbers are little-endian. A formula is a node; above it stand

* a formula document: the version, then the node;
* a rule document: the version, then the rule, which is the code of its effect and its node;
* a rule list document: a magic word, the version, the number of rules in four bytes, the rules.

A node starts with a tag. After the tag of an atom come the codes of the key and the operator and
then the literal: a text as its length in four bytes, its UTF-8 bytes and a byte that is one if it
stands hashed; an integer as eight bytes; a truth value as one byte. After the tag of a compound
come the code of the connector, the number of children in four bytes, and the children.
-/

namespace InstallPolicy.Document

/-! ### Marks and limits -/

def version : UInt8 := 1

/-- The first bytes of a rule list document. -/
def magic : Bytes := [0x41, 0x49, 0x52, 0x4c]

def textTag : UInt8 := 0

def integerTag : UInt8 := 1

def booleanTag : UInt8 := 2

def compoundTag : UInt8 := 3

/-- The most compounds that a document may have one within the other. -/
def maxDepth : Nat := 256

/-- The most bytes that a text in a document may have. -/
def maxTextBytes : Nat := 65536

/-! ### Fields -/

def keyByte (k : Key) : UInt8 := UInt8.ofNat k.code

def operatorByte (o : Operator) : UInt8 := UInt8.ofNat o.code

def connectorByte (c : Connector) : UInt8 := UInt8.ofNat c.code

def effectByte (e : Effect) : UInt8 := UInt8.ofNat e.code

def flagByte (b : Bool) : UInt8 := if b then 1 else 0

def countBytes (n : Nat) : Bytes := Bytes.littleEndian 4 n

/-- The eight bytes for an integer, in two's complement. -/
def integerBytes (n : Int64) : Bytes := Bytes.littleEndian 8 n.toUInt64.toNat

/-- The bytes for a text after their number. -/
def textBytes (s : String) : Bytes := countBytes (Bytes.ofText s).length ++ Bytes.ofText s

/-! ### Nodes and documents -/

def atomBytes (a : Atom) : Bytes :=
  match a.literal with
  | .text s =>
    textTag :: keyByte a.key :: operatorByte a.operator :: textBytes s ++ [flagByte a.hashed]
  | .integer n => integerTag :: keyByte a.key :: operatorByte a.operator :: integerBytes n
  | .boolean b => [booleanTag, keyByte a.key, operatorByte a.operator, flagByte b]

mutual

def nodeBytes : Formula → Bytes
  | .atom a => atomBytes a
  | .compound connector children =>
    compoundTag :: connectorByte connector :: countBytes children.length ++ nodesBytes children

def nodesBytes : List Formula → Bytes
  | [] => []
  | f :: fs => nodeBytes f ++ nodesBytes fs

end

@[simp] theorem nodesBytes_eq (fs : List Formula) : nodesBytes fs = fs.flatMap nodeBytes := by
  induction fs with
  | nil => rfl
  | cons f fs ih => simp [nodesBytes, ih]

def ruleBytes (r : Rule) : Bytes := effectByte r.effect :: nodeBytes r.formula

def formulaDocument (f : Formula) : Bytes := version :: nodeBytes f

def ruleDocument (r : Rule) : Bytes := version :: ruleBytes r

def ruleListDocument (rules : List Rule) : Bytes :=
  magic ++ version :: countBytes rules.length ++ rules.flatMap ruleBytes

end InstallPolicy.Document
