import InstallPolicy.Formula.Basic

/-!
Readers: programs that take bytes from the front of an input, or say why they cannot.

A reader is put together from a few ways to take something from an input, `Input`, whatever it runs
on. On a list of bytes, what it leaves is always an end of what it was given, and it never looks at
a byte that it does not take, except to tell how many are left when there are too few.
-/

namespace InstallPolicy

/-- Why bytes are no document. -/
inductive DecodeError where
  /-- The input ends within a field, or has fewer bytes than there should be elements. -/
  | truncated (needed remaining : Nat)
  /-- A list of rules starts with other bytes than the magic word. -/
  | badMagic
  /-- The document is of another version. -/
  | unsupportedVersion (version : UInt8)
  /-- No node has this tag. -/
  | unknownFormulaTag (tag : UInt8)
  /-- A truth value is neither zero nor one. -/
  | invalidBoolean (byte : UInt8)
  /-- A text has too many bytes. -/
  | stringTooLong (bytes : Nat)
  /-- The bytes of a text are not UTF-8. -/
  | invalidUtf8
  /-- A compound stands below too many others. -/
  | depthLimitExceeded (limit : Nat)
  /-- Bytes follow the document. -/
  | trailingBytes (count : Nat)
  /-- The parts that were read make no formula or rule. -/
  | formula (cause : FormulaError)
  deriving DecidableEq

def DecodeError.message : DecodeError → String
  | truncated needed remaining =>
    s!"Truncated input: needed {needed} bytes, {remaining} remaining"
  | badMagic => "Bad magic: not a rule list document"
  | unsupportedVersion version => s!"Unsupported format version: {version.toNat}"
  | unknownFormulaTag tag => s!"Unknown formula tag: {tag.toNat}"
  | invalidBoolean byte => s!"Invalid boolean byte: {byte.toNat}"
  | stringTooLong bytes => s!"String of {bytes} bytes exceeds the encoding limit"
  | invalidUtf8 => "String value is not valid UTF-8"
  | depthLimitExceeded limit => s!"Formula nesting exceeds depth limit of {limit}"
  | trailingBytes count => s!"{count} trailing bytes after encoded value"
  | formula cause => "Invalid formula: " ++ cause.message

/-! ### Readers in any setting -/

/-- What readers are made of. How an input is kept and gone through is left open. -/
class Input (m : Type → Type) where
  /-- The next byte. -/
  byte : m UInt8
  /-- The next `n` bytes. -/
  take (n : Nat) : m Bytes
  /-- The number in the next `width` bytes. -/
  number (width : Nat) : m Nat
  /-- Makes sure that `n` bytes are left. -/
  require (n : Nat) : m Unit
  /-- A node that stands below `above` compounds begins. -/
  enter (above : Nat) : m Unit

namespace Input

variable {m : Type → Type} [Monad m] [MonadExceptOf DecodeError m] [Input m] {α : Type}

/-- A number of elements. Each element takes a byte or more, so a number above that of the bytes
left is refused before any element is read. -/
def count : m Nat := do
  let n ← number 4
  require n
  return n

def flag : m Bool := do
  let b ← byte
  if b = 0 then return false
  else if b = 1 then return true
  else throw (.invalidBoolean b)

def text (limit : Nat) : m String := do
  let n ← number 4
  if n > limit then throw (.stringTooLong n)
  else
    match Bytes.toText? (← take n) with
    | some s => return s
    | none => throw .invalidUtf8

def integer : m Int64 := do
  return (UInt64.ofNat (← number 8)).toInt64

def checked : Except FormulaError α → m α
  | .ok a => pure a
  | .error e => throw (.formula e)

/-- The word that the next byte is the code of. -/
def word (ofCode : Int → Except FormulaError α) : m α := do
  checked (ofCode (← byte).toNat)

def many (element : m α) : Nat → m (List α)
  | 0 => pure []
  | n + 1 => do
    let a ← element
    let as ← many element n
    return a :: as

end Input

/-! ### Readers of a list of bytes -/

/-- A program that takes bytes from the front of an input. -/
abbrev Reader (α : Type) := StateT Bytes (Except DecodeError) α

namespace Reader

def byte : Reader UInt8
  | [] => .error (.truncated 1 0)
  | b :: rest => .ok (b, rest)

def take (n : Nat) : Reader Bytes := fun input =>
  if Bytes.hasLength input n then .ok (input.take n, input.drop n)
  else .error (.truncated n input.length)

def number (width : Nat) : Reader Nat := do
  return Bytes.value (← take width)

def require (n : Nat) : Reader Unit := fun input =>
  if Bytes.hasLength input n then .ok ((), input) else .error (.truncated n input.length)

instance : Input Reader where
  byte := byte
  take := take
  number := number
  require := require
  enter _ := pure ()

/-- What a reader makes of a whole input, of which it may leave nothing. -/
def run {α : Type} (reader : Reader α) (input : Bytes) : Except DecodeError α :=
  match reader input with
  | .error e => .error e
  | .ok (a, []) => .ok a
  | .ok (_, rest) => .error (.trailingBytes rest.length)

end Reader

end InstallPolicy
