import InstallPolicy.Document.Encode
import InstallPolicy.Document.Reader

/-!
Why a store of rules cannot supply or keep them, with the wording of each cause.
-/

namespace InstallPolicy

inductive Corruption where
  /-- There are too few bytes to hold a checksum. -/
  | short (bytes : Nat)
  /-- The checksum is not that of the bytes before it. -/
  | checksumMismatch
  /-- A store says so in its own words. -/
  | reported (detail : String)
  deriving DecidableEq

def Corruption.message : Corruption → String
  | short bytes => s!"{bytes} bytes is shorter than the checksum"
  | checksumMismatch => "checksum mismatch"
  | reported detail => detail

/-- Why a store does not supply or keep rules. -/
inductive StoreError where
  /-- The files cannot be read or written. -/
  | io
  /-- The stored bytes are not those that were put there. -/
  | corrupted (what : Corruption)
  /-- The store cannot be reached. -/
  | unavailable (detail : String)
  /-- The rules have no document. -/
  | encode (cause : EncodeError)
  /-- The stored bytes are no document. -/
  | decode (cause : DecodeError)
  deriving DecidableEq

def StoreError.message : StoreError → String
  | io => "IO error"
  | corrupted what => "Rule file corrupted: " ++ what.message
  | unavailable detail => "Rule store unavailable: " ++ detail
  | encode cause => "Rule encode failed: " ++ cause.message
  | decode cause => "Rule decode failed: " ++ cause.message

end InstallPolicy
