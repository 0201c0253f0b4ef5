import InstallPolicy.Store.Error
import InstallPolicy.Store.Path

/-!
What is told while rules are stored and installs are judged.
-/

namespace InstallPolicy

inductive Level where
  | error
  | warn
  | info
  | debug
  deriving DecidableEq

def Level.name : Level → String
  | error => "ERROR"
  | warn => "WARN"
  | info => "INFO"
  | debug => "DEBUG"

/-- Something that is told. -/
inductive Event where
  /-- The rules for a package could not be loaded, and none are used. -/
  | loadingFailed (package : String) (cause : StoreError)
  /-- An install was judged by so many rules. -/
  | evaluated (package : String) (rules : Nat) (synthesized : Bool) (effect : Effect)
  /-- A rule file does not have the checksum that it names. -/
  | checksumMismatch (path : Path)
  /-- A rule file was not written. -/
  | writeFailed (path : Path) (cause : StoreError)
  /-- A rule file was written with so many rules. -/
  | written (path : Path) (rules : Nat)
  /-- The shared engine was made. -/
  | engineCreated
  deriving DecidableEq

namespace Event

def level : Event → Level
  | loadingFailed .. => .error
  | checksumMismatch .. | writeFailed .. => .warn
  | engineCreated => .info
  | evaluated .. | written .. => .debug

def message : Event → String
  | loadingFailed .. => "Error loading rules."
  | evaluated .. => "integrity check evaluated"
  | checksumMismatch .. => "rule file checksum mismatch"
  | writeFailed .. => "rule file write failed"
  | written .. => "wrote rule file"
  | engineCreated => "creating rule evaluation engine"

end Event

end InstallPolicy
