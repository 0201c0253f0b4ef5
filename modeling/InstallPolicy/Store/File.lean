import InstallPolicy.Digest.Sha3
import InstallPolicy.Store.Directory
import InstallPolicy.Store.Source

/-!
Rules kept in a file: a rule list document and after it the SHA3-256 checksum of the document.

The file is replaced as a whole. The new content goes into a temporary file beside it, which is
then moved into its place; if either step fails, the temporary file is removed and the file is as
it was. Rules without a document are refused before any file is touched.
-/

namespace InstallPolicy

/-- What goes wrong while a file is replaced, beside what the directory forbids. The removal of the
temporary file after a failure is not among it. -/
inductive Mishap where
  /-- Nothing goes wrong. -/
  | none
  /-- The temporary file cannot be written in full; it may be left with some content. -/
  | writing (left : Option Bytes)
  /-- The temporary file cannot be moved. -/
  | renaming
  deriving DecidableEq

namespace Directory

/-- Whether the temporary file was written, and the directory after that. -/
def writeTemporary (d : Directory) (temporary : Path) (content : Bytes) :
    Mishap → Bool × Directory
  | .writing left =>
    (false, (left.bind fun content => (d.write temporary content).toOption).getD d)
  | _ =>
    match d.write temporary content with
    | .ok d => (true, d)
    | .error _ => (false, d)

/-- Whether the temporary file was moved into its place, and the directory after that. -/
def moveTemporary (d : Directory) (temporary target : Path) : Mishap → Bool × Directory
  | .renaming => (false, d)
  | _ =>
    match d.rename temporary target with
    | .ok d => (true, d)
    | .error _ => (false, d)

/-- The directory without a file at a path, if one can be removed there. That the removal of a file
which is there succeeds is taken for granted: if the system should refuse it, nobody would be told,
and the file would stay. -/
def discard (d : Directory) (p : Path) : Directory := (d.remove p).toOption.getD d

/-- Whether a file was replaced by way of a temporary one, and the directory after that. -/
def replace (d : Directory) (temporary target : Path) (content : Bytes) (mishap : Mishap) :
    Bool × Directory :=
  match d.writeTemporary temporary content mishap with
  | (false, d) => (false, d.discard temporary)
  | (true, d) =>
    match d.moveTemporary temporary target mishap with
    | (false, d) => (false, d.discard temporary)
    | (true, d) => (true, d)

end Directory

def withChecksum (document : Bytes) : Bytes := document ++ Sha3.digest document

def checksumBytes : Nat := 32

def rulesOfContent (content : Bytes) : Except StoreError (List Rule) :=
  let size := content.length - checksumBytes
  if content.length < checksumBytes then .error (.corrupted (.short content.length))
  else if Sha3.digest (content.take size) ≠ content.drop size then
    .error (.corrupted .checksumMismatch)
  else (Document.decodeRules (content.take size)).mapError .decode

/-- A store of rules in one file. -/
structure FileStore where
  path : Path

/-- What became of rules that were to be stored: how it ended, the directory after that, and what
was told. -/
structure Saved where
  outcome : Except StoreError Unit
  directory : Directory
  events : List Event

namespace FileStore

/-- The temporary file by way of which the file is replaced. -/
def temporary (store : FileStore) : Path := store.path.withExtension "tmp"

/-- Reads the rules. Without a file there are none. -/
def read (store : FileStore) (d : Directory) : Reading :=
  match d.read store.path with
  | .error .missing => ⟨.ok [], []⟩
  | .error _ => ⟨.error .io, []⟩
  | .ok content =>
    match rulesOfContent content with
    | .error (.corrupted .checksumMismatch) =>
      ⟨.error (.corrupted .checksumMismatch), [.checksumMismatch store.path]⟩
    | rules => ⟨rules, []⟩

/-- The store as a source of rules, with the directory as it is. -/
def source (store : FileStore) (d : Directory) : RuleSource := fun _ => store.read d

def save (store : FileStore) (rules : List Rule) (d : Directory) (mishap : Mishap := .none) :
    Saved :=
  match Document.encodeRules rules with
  | .error cause => ⟨.error (.encode cause), d, []⟩
  | .ok document =>
    match d.replace store.temporary store.path (withChecksum document) mishap with
    | (true, d) => ⟨.ok (), d, [.written store.path rules.length]⟩
    | (false, d) => ⟨.error .io, d, [.writeFailed store.path .io]⟩

end FileStore

end InstallPolicy
