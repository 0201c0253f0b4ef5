import InstallPolicy.Document.Format
import InstallPolicy.Document.Reader

/-!
Reading documents. Every check that formulas pass when they are built is made again, so that a
document that was tampered with is refused or holds a well formed formula.

The readers of nodes and rules are given the reader of the number of elements in a sequence, and
the documents are read with `Input.count`.
-/

namespace InstallPolicy.Document

open Input

variable {m : Type → Type} [Monad m] [MonadExceptOf DecodeError m] [Input m]

/-! ### Nodes -/

def readAtom (tag : UInt8) : m Atom := do
  let key ← word Key.ofCode
  let operator ← word Operator.ofCode
  if tag = textTag then
    let s ← text maxTextBytes
    let hashed ← flag
    checked (Atom.build key operator (.text s) hashed)
  else if tag = integerTag then
    let n ← integer
    checked (Atom.build key operator (.integer n) false)
  else if tag = booleanTag then
    let b ← flag
    checked (Atom.build key operator (.boolean b) false)
  else
    throw (.unknownFormulaTag tag)

def readCompound (count : m Nat) (child : m Formula) : m Formula := do
  let connector ← word Connector.ofCode
  let children ← many child (← count)
  checked (Formula.connect connector children)

/-- Reads a node below `above` compounds, with `compound` after the tag of a compound. -/
def readTagged (above : Nat) (compound : m Formula) : m Formula := do
  enter above
  let tag ← byte
  if tag = compoundTag then compound else return .atom (← readAtom tag)

/-- Reads a node that stands below `above` compounds and may hold `levels` of them one within the
other. -/
def readNode (count : m Nat) : (above levels : Nat) → m Formula
  | above, 0 => readTagged above (throw (.depthLimitExceeded maxDepth))
  | above, levels + 1 => readTagged above (readCompound count (readNode count (above + 1) levels))

/-! ### Documents -/

def readRule (count : m Nat) : m Rule := do
  let effect ← word Effect.ofCode
  let formula ← readNode count 0 maxDepth
  return ⟨formula, effect⟩

def readVersion : m Unit := do
  let b ← byte
  if b ≠ version then throw (.unsupportedVersion b)

def readMagic : m Unit := do
  let bytes ← take magic.length
  if bytes ≠ magic then throw .badMagic

def readFormulaDocument (count : m Nat) : m Formula := do
  readVersion
  readNode count 0 maxDepth

def readRuleDocument (count : m Nat) : m Rule := do
  readVersion
  readRule count

def readRuleListDocument (count : m Nat) : m (List Rule) := do
  readMagic
  readVersion
  many (readRule count) (← count)

/-! ### Decoders -/

def decodeFormula (bytes : Bytes) : Except DecodeError Formula :=
  (readFormulaDocument count : Reader Formula).run bytes

def decodeRule (bytes : Bytes) : Except DecodeError Rule :=
  (readRuleDocument count : Reader Rule).run bytes

def decodeRules (bytes : Bytes) : Except DecodeError (List Rule) :=
  (readRuleListDocument count : Reader (List Rule)).run bytes

end InstallPolicy.Document
